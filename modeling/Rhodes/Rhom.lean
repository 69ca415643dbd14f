import Rhodes.Statements

/-!
The transactions of the Rhom object mapper: save, update_attributes, destroy,
delete_all and ask of rhom_object_factory.rb, each executed as one transaction
that is rolled back when a statement fails. The SQL that Rhom builds by string
interpolation is taken as the parameterised statement it stands for; a nil in a
condition hash is compared with IS, so the WHERE clauses here compare options.
`Edit` has save, update_attributes and destroy with the texts that Rhom builds,
in which the word NULL is the NULL of SQL. Between two statements of the sync
thread the UI thread may run any of them, or stop the engine; `uiStep_frame`
says once what such an action leaves alone.
-/
namespace Rhodes.Rhom

open Database Statements

/-- The tables a transaction works on and `@@g_base_temp_id`. -/
structure Db where
  changed : ChangedTable
  objects : ObjectTable
  tempId : Nat

/-- An instance of a model class: its source, whether that source has the type
"ask", and its vars in the order of the hash. -/
structure RhomObject where
  sourceId : Int
  askSource : Bool
  vars : List (String × Option String)

/-- RhomObject.method_name_reserved? -/
def methodNameReserved (name : String) : Bool :=
  name ∈ ["object", "source_id", "update_type", "attrib_type", "type", "set_notification",
    "clear_notification"]

/-- inst_strip_braces on a string. -/
def stripBraces (s : String) : String :=
  String.ofList (s.toList.filter (fun c => c ≠ '\x7b' ∧ c ≠ '\x7d'))

def getVar (vars : List (String × Option String)) (name : String) : Option String :=
  (vars.lookup name).join

def setVar (vars : List (String × Option String)) (name value : String) :
    List (String × Option String) :=
  if vars.any (fun v => v.1 = name) then
    vars.map (fun v => if v.1 = name then (name, some value) else v)
  else vars ++ [(name, some value)]

/-- `self.object` without its braces. -/
def RhomObject.obj (o : RhomObject) : Option String := (getVar o.vars "object").map stripBraces

def getUpdateTypeBySource (askSource : Bool) (t : UpdateType) : Option UpdateType :=
  if askSource && t = .delete then none else if askSource then some .query else some t

/-- `val` is never nil here: it is the result of `to_s`. -/
def isModified (oldValue : Option String) (val : String) : Bool :=
  oldValue ≠ some val && !(oldValue.isNone && val = "")

/-- A changed_values row as insert_into_table writes it: sent defaults to 0, and
the table assigns id and stamp. -/
def queued (src : Int) (obj attrib value attribType : Option String) (t : UpdateType)
    (mainId : Int64) : ChangedValue :=
  ⟨0, src, attrib, obj, value, attribType, t, 0, mainId, 0⟩

def objectRow (objects : ObjectTable) (src : Int) (obj : Option String) (attrib : String) :
    Option ObjectValue :=
  objects.rows.find? (fun r => r.object = obj ∧ r.attrib = some attrib ∧ r.sourceId = src)

def setValue (objects : ObjectTable) (src : Int) (obj : Option String) (attrib value : String) :
    Option ObjectTable :=
  objects.update (fun r => r.object = obj ∧ r.attrib = some attrib ∧ r.sourceId = src)
    (fun r => { r with value := some value })

/-- The rows of an attribute that no makePushBody has seen yet. -/
def Unsent (src : Int) (obj : Option String) (attrib : String) (r : ChangedValue) : Prop :=
  r.object = obj ∧ r.attrib = some attrib ∧ r.sourceId = src ∧ r.sent = 0

instance (src : Int) (obj : Option String) (attrib : String) :
    DecidablePred (Unsent src obj attrib) := fun _ => inferInstanceAs (Decidable (_ ∧ _))

/-- The body of the loop over vars in save. -/
def saveAttrib (src : Int) (obj : Option String) (updateType : UpdateType) (db : Db)
    (var : String × Option String) : Option Db :=
  if methodNameReserved var.1 then some db
  else
    let val := stripBraces (var.2.getD "")
    let attribType := if var.1 = "image_uri" then some "blob.file" else none
    match objectRow db.objects src obj var.1 with
    | some row =>
        if isModified row.value val then
          let pending := db.changed.rows.find? (fun r => Unsent src obj var.1 r)
          let t := (pending.map ChangedValue.updateType).getD updateType
          let changed := (db.changed.delete (Unsent src obj var.1)).insert
            (queued src obj (some var.1) (some val) attribType t row.id)
          (setValue db.objects src obj var.1 val).map (fun objects => { db with changed, objects })
        else some db
    | none =>
        let tmpId := Int64.ofNat (db.tempId + 1)
        let changed := db.changed.insert
          (queued src obj (some var.1) (some val) attribType updateType tmpId)
        (db.objects.insert ⟨tmpId, src, some var.1, obj, some val, attribType⟩).map
          (fun objects => ⟨changed, objects, db.tempId + 1⟩)

def save (o : RhomObject) (db : Db) : Option Db :=
  let bUpdate := db.objects.rows.any (fun r => SqlEq r.object o.obj ∧ r.sourceId = o.sourceId)
  let t := if o.askSource then .query else if bUpdate then .update else .create
  o.vars.foldlM (saveAttrib o.sourceId o.obj t) db

/-- The loop variables of update_attributes. -/
structure UpdateState where
  db : Db
  vars : List (String × Option String)
  updateType : UpdateType

/-- The body of the loop over attrs in update_attributes. -/
def updateAttrib (src : Int) (obj : Option String) (st : UpdateState)
    (attr : String × Option String) : Option UpdateState :=
  let attrib := String.ofList (attr.1.toList.filter (fun c => c ≠ '@'))
  if methodNameReserved attrib then some st
  else
    let newVal := stripBraces (attr.2.getD "")
    if isModified (getVar st.vars attrib) newVal then
      let pending := st.db.changed.rows.find? (fun r => r.object = obj ∧ r.sourceId = src ∧ r.sent = 0)
      let t := (pending.map ChangedValue.updateType).getD st.updateType
      let changed := st.db.changed.delete (Unsent src obj attrib)
      let vars := setVar st.vars attrib newVal
      match objectRow st.db.objects src obj attrib with
      | some row =>
          (setValue st.db.objects src obj attrib newVal).map (fun objects =>
            ⟨⟨changed.insert (queued src obj (some attrib) (some newVal) none t row.id), objects,
              st.db.tempId⟩, vars, t⟩)
      | none =>
          let tmpId := Int64.ofNat (st.db.tempId + 1)
          (st.db.objects.insert ⟨tmpId, src, some attrib, obj, some newVal, none⟩).map (fun objects =>
            ⟨⟨changed.insert (queued src obj (some attrib) (some newVal) none t tmpId), objects,
              st.db.tempId + 1⟩, vars, t⟩)
    else some st

def updateAttributes (o : RhomObject) (attrs : List (String × Option String)) (db : Db) :
    Option Db :=
  let t := if o.askSource then .query else .update
  (attrs.foldlM (updateAttrib o.sourceId o.obj) ⟨db, o.vars, t⟩).map UpdateState.db

/-- The viewable rows and the unsent rows go by object id alone, without the source. -/
def destroy (o : RhomObject) (db : Db) : Option Db :=
  match o.obj with
  | none => some db
  | some obj =>
      let objects := db.objects.delete (fun r => r.object = some obj)
      let unsentCreate := db.changed.rows.any
        (fun r => r.object = some obj ∧ r.updateType = .create ∧ r.sent = 0)
      let changed := db.changed.delete (fun r => r.object = some obj ∧ r.sent = 0)
      match if unsentCreate then none else getUpdateTypeBySource o.askSource .delete with
      | none => some { db with changed, objects }
      | some t =>
          some { db with changed := changed.insert (queued o.sourceId (some obj) none none none t 0), objects }

section Texts

/-- What a value of a hash is in a text: nil and the word NULL are the NULL of SQL. -/
def written (value : Option String) : Option String := if value = some "NULL" then none else value

/-- A condition with the word NULL is `= NULL`, which no row meets. -/
def named (obj : Option String) (attrib : String) : Bool := obj ≠ some "NULL" && attrib ≠ "NULL"

def objectRowText (objects : ObjectTable) (src : Int) (obj : Option String) (attrib : String) :
    Option ObjectValue :=
  if named obj attrib then objectRow objects src obj attrib else none

def setValueText (objects : ObjectTable) (src : Int) (obj : Option String) (attrib value : String) :
    Option ObjectTable :=
  objects.update (fun r => r.object = obj ∧ r.attrib = some attrib ∧ r.sourceId = src)
    (fun r => { r with value := written (some value) })

def deleteUnsentText (changed : ChangedTable) (src : Int) (obj : Option String)
    (attrib : String) : ChangedTable :=
  if named obj attrib then changed.delete (Unsent src obj attrib) else changed

/-- The row that Rhom queues for an attribute. -/
def queuedText (src : Int) (obj : Option String) (attrib value : String)
    (attribType : Option String) (t : UpdateType) (mainId : Int64) : ChangedValue :=
  queued src (written obj) (written (some attrib)) (written (some value)) attribType t mainId

/-- The row of object_values that Rhom inserts for an attribute. -/
def shownText (src : Int) (obj : Option String) (attrib value : String)
    (attribType : Option String) (id : Int64) : ObjectValue :=
  ⟨id, src, written (some attrib), written obj, written (some value), attribType⟩

/-- `saveAttrib` with its texts. -/
def saveAttribText (src : Int) (obj : Option String) (updateType : UpdateType) (db : Db)
    (var : String × Option String) : Option Db :=
  if methodNameReserved var.1 then some db
  else
    let val := stripBraces (var.2.getD "")
    let attribType := if var.1 = "image_uri" then some "blob.file" else none
    match objectRowText db.objects src obj var.1 with
    | some row =>
        if isModified row.value val then
          let pending := db.changed.rows.find? (fun r => Unsent src obj var.1 r)
          let t := (pending.map ChangedValue.updateType).getD updateType
          let changed := (deleteUnsentText db.changed src obj var.1).insert
            (queuedText src obj var.1 val attribType t row.id)
          (setValueText db.objects src obj var.1 val).map
            (fun objects => { db with changed, objects })
        else some db
    | none =>
        let tmpId := Int64.ofNat (db.tempId + 1)
        let changed := db.changed.insert (queuedText src obj var.1 val attribType updateType tmpId)
        (db.objects.insert (shownText src obj var.1 val attribType tmpId)).map
          (fun objects => ⟨changed, objects, db.tempId + 1⟩)

/-- The first SELECT binds its parameters. -/
def saveText (o : RhomObject) (db : Db) : Option Db :=
  let bUpdate := db.objects.rows.any (fun r => SqlEq r.object o.obj ∧ r.sourceId = o.sourceId)
  let t := if o.askSource then .query else if bUpdate then .update else .create
  o.vars.foldlM (saveAttribText o.sourceId o.obj t) db

/-- gsub(/@/,"") on the name of an attribute. -/
def attribName (name : String) : String := String.ofList (name.toList.filter (fun c => c ≠ '@'))

/-- What a method does that self.send calls. Methods that write the tables are not part of the
model; an answer that is no string is a text that differs from the new value. -/
inductive Sent where
  | raises
  | answers (value : Option String)

/-- `self.send attrib`: a method of the object comes before method_missing, which reads the var. -/
def oldValue (own : String → Option Sent) (vars : List (String × Option String))
    (attrib : String) : Option (Option String) :=
  match own attrib with
  | none => some (getVar vars attrib)
  | some (.answers value) => some value
  | some .raises => none

/-- `updateAttrib` with its texts. -/
def updateAttribText (own : String → Option Sent) (src : Int) (obj : Option String)
    (st : UpdateState) (attr : String × Option String) : Option UpdateState :=
  let attrib := attribName attr.1
  if methodNameReserved attrib then some st
  else (oldValue own st.vars attrib).bind (fun oldVal =>
    let newVal := stripBraces (attr.2.getD "")
    if isModified oldVal newVal then
      let pending := if obj = some "NULL" then none
        else st.db.changed.rows.find? (fun r => r.object = obj ∧ r.sourceId = src ∧ r.sent = 0)
      let t := (pending.map ChangedValue.updateType).getD st.updateType
      let changed := deleteUnsentText st.db.changed src obj attrib
      let vars := setVar st.vars attrib newVal
      match objectRowText st.db.objects src obj attrib with
      | some row =>
          (setValueText st.db.objects src obj attrib newVal).map (fun objects =>
            ⟨⟨changed.insert (queuedText src obj attrib newVal none t row.id), objects,
              st.db.tempId⟩, vars, t⟩)
      | none =>
          let tmpId := Int64.ofNat (st.db.tempId + 1)
          (st.db.objects.insert (shownText src obj attrib newVal none tmpId)).map (fun objects =>
            ⟨⟨changed.insert (queuedText src obj attrib newVal none t tmpId), objects,
              st.db.tempId + 1⟩, vars, t⟩)
    else some st)

def updateAttributesText (own : String → Option Sent) (o : RhomObject)
    (attrs : List (String × Option String)) (db : Db) : Option Db :=
  let t := if o.askSource then .query else .update
  (attrs.foldlM (updateAttribText own o.sourceId o.obj) ⟨db, o.vars, t⟩).map UpdateState.db

/-- An object with the id NULL is found nowhere, and its removal is queued for no object. -/
def destroyText (o : RhomObject) (db : Db) : Option Db :=
  if o.obj = some "NULL" then
    match getUpdateTypeBySource o.askSource .delete with
    | none => some db
    | some t =>
        some { db with changed := db.changed.insert (queued o.sourceId none none none none t 0) }
  else destroy o db

/-- A call whose statements are texts; `own` are the methods of the object. -/
inductive Edit where
  | save (o : RhomObject)
  | updateAttributes (own : String → Option Sent) (o : RhomObject)
      (attrs : List (String × Option String))
  | destroy (o : RhomObject)

def Edit.run : Edit → Db → Option Db
  | .save o => saveText o
  | .updateAttributes own o attrs => updateAttributesText own o attrs
  | .destroy o => destroyText o

def Edit.object : Edit → RhomObject
  | .save o => o
  | .updateAttributes _ o _ => o
  | .destroy o => o

/-- The attributes that the call writes, with their values. -/
def Edit.pairs : Edit → List (String × String)
  | .save o => (o.vars.filter (fun v => !methodNameReserved v.1)).map
      (fun v => (v.1, stripBraces (v.2.getD "")))
  | .updateAttributes _ _ attrs => (attrs.filter (fun a => !methodNameReserved (attribName a.1))).map
      (fun a => (attribName a.1, stripBraces (a.2.getD "")))
  | .destroy _ => []

/-- The texts that the call puts between apostrophes. -/
def Edit.texts (e : Edit) : List String :=
  e.object.obj.toList ++ e.pairs.flatMap (fun p => [p.1, p.2])

/-- No text ends its literal, or the statement, early. -/
def Edit.closed (e : Edit) : Bool :=
  e.texts.all (fun s => !s.toList.contains '\'' && !s.toList.contains '\x00')

/-- Neither the object nor an attribute is the word NULL. -/
def Edit.named (e : Edit) : Bool := e.pairs.all (fun p => Rhom.named e.object.obj p.1) &&
  e.object.obj ≠ some "NULL"

@[simp] theorem named_eq_true {obj : Option String} {attrib : String} :
    Rhom.named obj attrib = true ↔ obj ≠ some "NULL" ∧ attrib ≠ "NULL" := by
  simp [Rhom.named]

theorem Edit.named_save {o : RhomObject} (h : (Edit.save o).named = true) :
    ∀ v ∈ o.vars, methodNameReserved v.1 = false → Rhom.named o.obj v.1 = true := by
  intro v hv hreserved
  obtain ⟨hpairs, -⟩ := (Bool.and_eq_true _ _).mp h
  refine List.all_eq_true.mp hpairs (v.1, stripBraces (v.2.getD "")) (List.mem_map.mpr ⟨v, ?_, rfl⟩)
  exact List.mem_filter.mpr ⟨hv, by rw [hreserved]; rfl⟩

theorem Edit.named_updateAttributes {own : String → Option Sent} {o : RhomObject}
    {attrs : List (String × Option String)} (h : (Edit.updateAttributes own o attrs).named = true) :
    ∀ a ∈ attrs, methodNameReserved (attribName a.1) = false →
      Rhom.named o.obj (attribName a.1) = true := by
  intro a ha hreserved
  obtain ⟨hpairs, -⟩ := (Bool.and_eq_true _ _).mp h
  refine List.all_eq_true.mp hpairs (attribName a.1, stripBraces (a.2.getD ""))
    (List.mem_map.mpr ⟨a, ?_, rfl⟩)
  exact List.mem_filter.mpr ⟨ha, by rw [hreserved]; rfl⟩

theorem Edit.object_ne_of_named {e : Edit} (h : e.named = true) : e.object.obj ≠ some "NULL" :=
  of_decide_eq_true ((Bool.and_eq_true _ _).mp h).2

theorem written_of_ne {value : Option String} (h : value ≠ some "NULL") :
    written value = value := if_neg h

section Named

variable {src : Int} {obj : Option String} {attrib : String}

theorem objectRowText_of_named (h : Rhom.named obj attrib = true) (objects : ObjectTable) :
    objectRowText objects src obj attrib = objectRow objects src obj attrib := if_pos h

theorem deleteUnsentText_of_named (h : Rhom.named obj attrib = true) (changed : ChangedTable) :
    deleteUnsentText changed src obj attrib = changed.delete (Unsent src obj attrib) := if_pos h

theorem queuedText_of_named (h : Rhom.named obj attrib = true) (value : String)
    (attribType : Option String) (t : UpdateType) (mainId : Int64) :
    queuedText src obj attrib value attribType t mainId =
      queued src obj (some attrib) (written (some value)) attribType t mainId := by
  obtain ⟨hobj, hattr⟩ := named_eq_true.mp h
  rw [queuedText, written_of_ne hobj, written_of_ne (by simpa using hattr)]

theorem shownText_of_named (h : Rhom.named obj attrib = true) (value : String)
    (attribType : Option String) (id : Int64) :
    shownText src obj attrib value attribType id =
      ⟨id, src, some attrib, obj, written (some value), attribType⟩ := by
  obtain ⟨hobj, hattr⟩ := named_eq_true.mp h
  rw [shownText, written_of_ne hobj, written_of_ne (by simpa using hattr)]

end Named

end Texts

/-- get_conditions_hash keeps the last pair. -/
def matchesConditions (conditions : List (String × String)) (r : ObjectValue) : Bool :=
  match conditions.getLast? with
  | none => true
  | some (attrib, value) => r.attrib = some attrib && r.value = some value

def deleteObjectRows (db : Db) (obj : Option String) : Db :=
  { db with
    objects := db.objects.delete (fun r => r.object = obj)
    changed := db.changed.delete (fun r => r.object = obj) }

def deleteAll (src : Int) (conditions : Option (List (String × String))) (db : Db) : Option Db :=
  match conditions with
  | some c =>
      let found := db.objects.rows.filter (fun r => matchesConditions c r ∧ r.sourceId = src)
      some ((found.map ObjectValue.object).foldl deleteObjectRows db)
  | none =>
      some { db with
        objects := db.objects.delete (fun r => r.sourceId = src)
        changed := db.changed.delete (fun r => r.sourceId = src) }

def percent (b : UInt8) : List Char :=
  ['%', (Nat.digitChar (b.toNat / 16)).toUpper, (Nat.digitChar (b.toNat % 16)).toUpper]

/-- Rho::RhoSupport.url_encode. -/
def urlEncode (s : String) : String :=
  String.ofList (s.toList.flatMap (fun c =>
    if c.isAlphanum || c = '_' || c = '-' || c = '.' then [c]
    else (String.utf8EncodeChar c).flatMap percent))

/-- `object` is the random id of the temporary object that `self.new` makes. -/
def ask (src : Int) (object question : String) (db : Db) : Option Db :=
  let asked := db.changed.rows.find? (fun r => r.sourceId = src ∧ r.updateType = UpdateType.ask)
  let changed := match asked with
    | none => db.changed
    | some _ => db.changed.delete (fun r => r.sourceId = src ∧ r.updateType = UpdateType.ask ∧ r.sent = 0)
  let objects := match asked with
    | none => db.objects
    | some q => db.objects.delete
        (fun r => r.object = q.object ∧ r.attrib = some "question" ∧ r.sourceId = src)
  (objects.insert ⟨objects.newId, src, some "question", some object, some (urlEncode question), none⟩).map
    (fun objects =>
      ⟨changed.insert (queued src (some object) (some "question") (some (urlEncode question)) none .ask 0),
        objects, db.tempId + 1⟩)

/-- What the UI thread may do between two statements of the sync thread. What SQLite makes of an
edit that is not closed is not part of the model. -/
inductive UIAction where
  | edit (e : Edit)
  | save (o : RhomObject)
  | updateAttributes (o : RhomObject) (attrs : List (String × Option String))
  | destroy (o : RhomObject)
  | deleteAll (src : Int) (conditions : Option (List (String × String)))
  | ask (src : Int) (object question : String)
  | stopSync
  | stopSyncByUser
  | exitSync
  | setUnlockDB (b : Bool)

/-- The transaction of an action on the tables. -/
def UIAction.transaction : UIAction → Option (Db → Option Db)
  | .edit e => if e.closed then some e.run else none
  | .save o => some (Rhom.save o)
  | .updateAttributes o attrs => some (Rhom.updateAttributes o attrs)
  | .destroy o => some (Rhom.destroy o)
  | .deleteAll src conditions => some (Rhom.deleteAll src conditions)
  | .ask src object question => some (Rhom.ask src object question)
  | _ => none

/-- A transaction that fails is rolled back; none starts inside another one. -/
def transaction (f : Db → Option Db) (w : World) : Option World :=
  if w.insideTransaction then none
  else match f ⟨w.changed, w.objects, w.tempId⟩ with
    | none => some { w with unlockDB := false }
    | some db => some { w with
        changed := db.changed, objects := db.objects, tempId := db.tempId, unlockDB := false }

def uiStep (u : UIAction) (w : World) : Option World :=
  match u with
  | .stopSync => some { w with syncState := .esStop }
  | .stopSyncByUser => some { w with syncState := .esStop, stopByUser := true }
  | .exitSync => some { w with syncState := .esExit }
  | .setUnlockDB b => some { w with unlockDB := b }
  | u => match u.transaction with
    | some f => transaction f w
    | none => none

/-- A later state of the queue: rows may have gone, the rows still there are as
they were, and rows that came in are unsent. -/
structure Later (T T' : ChangedTable) : Prop where
  next_le : T.next ≤ T'.next
  rows : ∀ r ∈ T'.rows, r ∈ T.rows ∨ (T.next ≤ r.stamp ∧ r.sent = 0)

theorem Later.refl (T : ChangedTable) : Later T T := ⟨le_rfl, fun _ hr => Or.inl hr⟩

theorem Later.trans {T T' T'' : ChangedTable} (h : Later T T') (h' : Later T' T'') :
    Later T T'' := by
  refine ⟨le_trans h.next_le h'.next_le, ?_⟩
  intro r hr
  rcases h'.rows r hr with hr | ⟨hnew, hsent⟩
  · exact h.rows r hr
  · exact Or.inr ⟨le_trans h.next_le hnew, hsent⟩

theorem Later.delete (T : ChangedTable) (p : ChangedValue → Prop) [DecidablePred p] :
    Later T (T.delete p) :=
  ⟨le_rfl, fun _ hr => Or.inl ((ChangedTable.mem_delete T p _).mp hr).1⟩

theorem Later.insert (T : ChangedTable) (src : Int) (obj attrib value attribType : Option String)
    (t : UpdateType) (mainId : Int64) :
    Later T (T.insert (queued src obj attrib value attribType t mainId)) := by
  refine ⟨Nat.le_succ _, ?_⟩
  intro r hr
  rw [ChangedTable.insert_rows, List.mem_append, List.mem_singleton] at hr
  rcases hr with hr | rfl
  · exact Or.inl hr
  · exact Or.inr ⟨le_rfl, rfl⟩

/-- A loop keeps what its body keeps on each element. -/
theorem foldlM_keeps_of_mem {α β : Type} {P : α → Prop} {f : α → β → Option α} {l : List β}
    (hf : ∀ a b a', b ∈ l → P a → f a b = some a' → P a') {a a' : α} (ha : P a)
    (h : l.foldlM f a = some a') : P a' := by
  induction l generalizing a with
  | nil =>
    simp only [List.foldlM_nil, Option.pure_def, Option.some.injEq] at h
    rw [← h]
    exact ha
  | cons b rest ih =>
    simp only [List.foldlM_cons, Option.bind_eq_bind, Option.bind_eq_some_iff] at h
    obtain ⟨a₁, hstep, hrest⟩ := h
    exact ih (fun a b' a' hb => hf a b' a' (List.mem_cons_of_mem _ hb))
      (hf a b a₁ List.mem_cons_self ha hstep) hrest

theorem foldlM_keeps {α β : Type} {P : α → Prop} {f : α → β → Option α}
    (hf : ∀ a b a', P a → f a b = some a' → P a') (l : List β) {a a' : α} (ha : P a)
    (h : l.foldlM f a = some a') : P a' :=
  foldlM_keeps_of_mem (fun a b a' _ => hf a b a') ha h

theorem saveAttrib_later (src : Int) (obj : Option String) (t : UpdateType) (db db' : Db)
    (var : String × Option String) (h : saveAttrib src obj t db var = some db') :
    Later db.changed db'.changed := by
  unfold saveAttrib at h
  split at h
  · cases h
    exact Later.refl _
  · cases hrow : objectRow db.objects src obj var.1 with
    | some row =>
      simp only [hrow] at h
      split at h
      · obtain ⟨objects, -, rfl⟩ := Option.map_eq_some_iff.mp h
        exact (Later.delete _ _).trans (Later.insert _ _ _ _ _ _ _ _)
      · cases h
        exact Later.refl _
    | none =>
      simp only [hrow] at h
      obtain ⟨objects, -, rfl⟩ := Option.map_eq_some_iff.mp h
      exact Later.insert _ _ _ _ _ _ _ _

theorem updateAttrib_later (src : Int) (obj : Option String) (st st' : UpdateState)
    (attr : String × Option String) (h : updateAttrib src obj st attr = some st') :
    Later st.db.changed st'.db.changed := by
  unfold updateAttrib at h
  simp only at h
  split at h
  · cases h
    exact Later.refl _
  · split at h
    · split at h
      all_goals
        obtain ⟨objects, -, rfl⟩ := Option.map_eq_some_iff.mp h
        exact (Later.delete _ _).trans (Later.insert _ _ _ _ _ _ _ _)
    · cases h
      exact Later.refl _

theorem deleteUnsentText_later (T : ChangedTable) (src : Int) (obj : Option String)
    (attrib : String) : Later T (deleteUnsentText T src obj attrib) := by
  unfold deleteUnsentText
  split
  · exact Later.delete _ _
  · exact Later.refl _

theorem saveAttribText_later (src : Int) (obj : Option String) (t : UpdateType) (db db' : Db)
    (var : String × Option String) (h : saveAttribText src obj t db var = some db') :
    Later db.changed db'.changed := by
  unfold saveAttribText at h
  split at h
  · cases h
    exact Later.refl _
  · cases hrow : objectRowText db.objects src obj var.1 with
    | some row =>
      simp only [hrow] at h
      split at h
      · obtain ⟨objects, -, rfl⟩ := Option.map_eq_some_iff.mp h
        exact (deleteUnsentText_later _ _ _ _).trans (Later.insert _ _ _ _ _ _ _ _)
      · cases h
        exact Later.refl _
    | none =>
      simp only [hrow] at h
      obtain ⟨objects, -, rfl⟩ := Option.map_eq_some_iff.mp h
      exact Later.insert _ _ _ _ _ _ _ _

theorem updateAttribText_later (own : String → Option Sent) (src : Int) (obj : Option String)
    (st st' : UpdateState) (attr : String × Option String)
    (h : updateAttribText own src obj st attr = some st') :
    Later st.db.changed st'.db.changed := by
  unfold updateAttribText at h
  simp only at h
  split at h
  · cases h
    exact Later.refl _
  · obtain ⟨oldVal, -, h⟩ := Option.bind_eq_some_iff.mp h
    split at h
    · split at h
      all_goals
        obtain ⟨objects, -, rfl⟩ := Option.map_eq_some_iff.mp h
        exact (deleteUnsentText_later _ _ _ _).trans (Later.insert _ _ _ _ _ _ _ _)
    · cases h
      exact Later.refl _

theorem destroy_later (o : RhomObject) (db db' : Db) (h : destroy o db = some db') :
    Later db.changed db'.changed := by
  unfold destroy at h
  split at h
  · cases h
    exact Later.refl _
  · simp only at h
    split at h
    · cases h
      exact Later.delete _ _
    · cases h
      exact (Later.delete _ _).trans (Later.insert _ _ _ _ _ _ _ _)

theorem destroyText_later (o : RhomObject) (db db' : Db) (h : destroyText o db = some db') :
    Later db.changed db'.changed := by
  unfold destroyText at h
  split at h
  · split at h
    · cases h
      exact Later.refl _
    · cases h
      exact Later.insert _ _ _ _ _ _ _ _
  · exact destroy_later o db db' h

theorem edit_later (e : Edit) (db db' : Db) (h : e.run db = some db') :
    Later db.changed db'.changed := by
  cases e with
  | save o =>
    exact foldlM_keeps (P := fun a => Later db.changed a.changed)
      (fun a b a' ha hstep => ha.trans (saveAttribText_later _ _ _ a a' b hstep)) _ (Later.refl _) h
  | updateAttributes own o attrs =>
    obtain ⟨st, hst, rfl⟩ := Option.map_eq_some_iff.mp h
    exact foldlM_keeps (P := fun st : UpdateState => Later db.changed st.db.changed)
      (fun a b a' ha hstep => ha.trans (updateAttribText_later _ _ _ a a' b hstep)) _
      (Later.refl _) hst
  | destroy o => exact destroyText_later o db db' h

theorem deleteObjectRows_later (db : Db) (objs : List (Option String)) :
    Later db.changed (objs.foldl deleteObjectRows db).changed := by
  induction objs generalizing db with
  | nil => exact Later.refl _
  | cons obj rest ih => exact (Later.delete db.changed _).trans (ih (deleteObjectRows db obj))

theorem deleteAll_later (src : Int) (conditions : Option (List (String × String))) (db db' : Db)
    (h : deleteAll src conditions db = some db') : Later db.changed db'.changed := by
  unfold deleteAll at h
  split at h
  · cases h
    exact deleteObjectRows_later _ _
  · cases h
    exact Later.delete _ _

theorem ask_later (src : Int) (object question : String) (db db' : Db)
    (h : ask src object question db = some db') : Later db.changed db'.changed := by
  unfold ask at h
  obtain ⟨objects, -, rfl⟩ := Option.map_eq_some_iff.mp h
  refine Later.trans ?_ (Later.insert _ _ _ _ _ _ _ _)
  split
  · exact Later.refl _
  · exact Later.delete _ _

theorem edit_transaction {e : Edit} {f : Db → Option Db}
    (hf : (UIAction.edit e).transaction = some f) : e.closed = true ∧ e.run = f := by
  simpa only [UIAction.transaction, Option.ite_none_right_eq_some, Option.some.injEq] using hf

theorem transaction_later (u : UIAction) (f : Db → Option Db) (hf : u.transaction = some f)
    (db db' : Db) (h : f db = some db') : Later db.changed db'.changed := by
  cases u with
  | edit e =>
    obtain ⟨-, rfl⟩ := edit_transaction hf
    exact edit_later e db db' h
  | save o =>
    cases hf
    exact foldlM_keeps (P := fun a => Later db.changed a.changed)
      (fun a b a' ha hstep => ha.trans (saveAttrib_later _ _ _ a a' b hstep)) _ (Later.refl _) h
  | updateAttributes o attrs =>
    cases hf
    obtain ⟨st, hst, rfl⟩ := Option.map_eq_some_iff.mp h
    exact foldlM_keeps (P := fun st : UpdateState => Later db.changed st.db.changed)
      (fun a b a' ha hstep => ha.trans (updateAttrib_later _ _ a a' b hstep)) _ (Later.refl _) hst
  | destroy o =>
    cases hf
    exact destroy_later o db db' h
  | deleteAll src conditions =>
    cases hf
    exact deleteAll_later src conditions db db' h
  | ask src object question =>
    cases hf
    exact ask_later src object question db db' h
  | stopSync => cases hf
  | stopSyncByUser => cases hf
  | exitSync => cases hf
  | setUnlockDB b => cases hf

/-- What every action of the UI thread leaves alone. -/
structure Frame (w w' : World) : Prop where
  changed : Later w.changed w'.changed
  locked : w.insideTransaction → w'.changed = w.changed ∧ w'.objects = w.objects
  syncState : w'.syncState = w.syncState ∨ ¬ w'.syncState.isContinueSync
  sources : w'.sources = w.sources
  clientInfo : w'.clientInfo = w.clientInfo
  insideTransaction : w'.insideTransaction = w.insideTransaction
  net : w'.net = w.net
  requests : w'.requests = w.requests
  log : w'.log = w.log
  notified : w'.notified = w.notified
  nextObj : w'.nextObj = w.nextObj
  round : w'.round = w.round
  builds : w'.builds = w.builds
  asked : w'.asked = w.asked

/-- What a transaction does: it commits, or it is rolled back. -/
theorem transaction_cases {f : Db → Option Db} {w w' : World} (h : transaction f w = some w') :
    w.insideTransaction = false ∧ (w' = { w with unlockDB := false } ∨
      ∃ db, f ⟨w.changed, w.objects, w.tempId⟩ = some db ∧ w' = { w with
        changed := db.changed, objects := db.objects, tempId := db.tempId,
        unlockDB := false }) := by
  unfold transaction at h
  split at h
  · cases h
  · rename_i hfree
    refine ⟨Bool.eq_false_of_not_eq_true hfree, ?_⟩
    split at h
    · cases h
      exact Or.inl rfl
    · rename_i db hdb
      cases h
      exact Or.inr ⟨db, hdb, rfl⟩

theorem transaction_frame (u : UIAction) (f : Db → Option Db) (hf : u.transaction = some f)
    (w w' : World) (h : transaction f w = some w') : Frame w w' := by
  obtain ⟨hfree, rfl | ⟨db, hdb, rfl⟩⟩ := transaction_cases h
  · exact ⟨Later.refl _, fun hin => absurd hin (by simp [hfree]), Or.inl rfl, rfl, rfl, rfl, rfl,
      rfl, rfl, rfl, rfl, rfl, rfl, rfl⟩
  · exact ⟨transaction_later u f hf _ _ hdb, fun hin => absurd hin (by simp [hfree]), Or.inl rfl,
      rfl, rfl, rfl, rfl, rfl, rfl, rfl, rfl, rfl, rfl, rfl⟩

theorem uiStep_transaction {u : UIAction} {f : Db → Option Db} (hf : u.transaction = some f)
    (w : World) : uiStep u w = transaction f w := by
  cases u <;> simp_all only [uiStep, UIAction.transaction, Option.ite_none_right_eq_some,
    Option.some.injEq, reduceCtorEq, if_true]

theorem uiStep_frame (u : UIAction) (w w' : World) (h : uiStep u w = some w') : Frame w w' := by
  cases hf : u.transaction with
  | some f =>
    rw [uiStep_transaction hf] at h
    exact transaction_frame u f hf w w' h
  | none =>
    cases u
    case edit e => simp [uiStep, hf] at h
    all_goals
      simp only [uiStep, UIAction.transaction, Option.some.injEq, reduceCtorEq] at h hf
    all_goals
      subst h
      exact ⟨Later.refl _, fun _ => ⟨rfl, rfl⟩, by simp [SyncState.isContinueSync], rfl,
        rfl, rfl, rfl,
        rfl, rfl, rfl, rfl, rfl, rfl, rfl⟩

/-- The actions that end a sync. -/
def UIAction.stops : UIAction → Bool
  | .stopSync => true
  | .stopSyncByUser => true
  | .exitSync => true
  | _ => false

theorem uiStep_syncState (u : UIAction) (w w' : World) (hu : u.stops = false)
    (h : uiStep u w = some w') : w'.syncState = w.syncState := by
  have htrans : ∀ f, transaction f w = some w' → w'.syncState = w.syncState := by
    intro f hf
    obtain ⟨-, rfl | ⟨db, -, rfl⟩⟩ := transaction_cases hf
    · rfl
    · rfl
  cases u with
  | edit e =>
    cases hf : (UIAction.edit e).transaction with
    | some f => exact htrans f (uiStep_transaction hf w ▸ h)
    | none => simp [uiStep, hf] at h
  | save o => exact htrans _ h
  | updateAttributes o attrs => exact htrans _ h
  | destroy o => exact htrans _ h
  | deleteAll src conditions => exact htrans _ h
  | ask src object question => exact htrans _ h
  | stopSync => cases hu
  | stopSyncByUser => cases hu
  | exitSync => cases hu
  | setUnlockDB b =>
    cases h
    rfl

end Rhodes.Rhom
