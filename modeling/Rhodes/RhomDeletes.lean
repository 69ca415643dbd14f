import Rhodes.RhomStatements
import Rhodes.Rhom

/-!
destroy and delete_all of rhom_object_factory.rb as the texts that they give to SQLite. Their
conditions on an object leave its source out: the rows of another source stay just where it has no
object with an id that is deleted.
-/
namespace Rhodes.RhomDeletes

open Database SqlPieces SqlGrammar SqlTables RhomSql RhomStatements

section Source

/-- destroy up to the update_type that it decides on; none is an exception. -/
def decideDelete (E : Engine) (o : Rhom.RhomObject) (obj : String) (db : Tables) :
    Option (Option UpdateType × Tables) := do
  let (_, db) ← E (deleteFromTable "object_values" [("object", some obj)]) [] db
  let (resUpdateType, db) ← E (selectFromTable "changed_values" "update_type" (some
    [("object", some obj), ("update_type", some "create"), ("sent", some "0")]) none []) [] db
  return (if resUpdateType.length > 0 then none
    else Rhom.getUpdateTypeBySource o.askSource .delete, db)

def destroyObject (E : Engine) (o : Rhom.RhomObject) (obj : String) (db : Tables) :
    Option Tables := do
  let (updateType, db) ← decideDelete E o obj db
  let (_, db) ← E (deleteFromTable "changed_values"
    [("object", some obj), ("sent", some "0")]) [] db
  match updateType with
  | none => some db
  | some t => (E (insertIntoTable "changed_values" [("source_id", some (toString o.sourceId)),
      ("object", some obj), ("update_type", some t.text)]) [] db).map Prod.snd

/-- An exception is rescued and rolls the transaction back. -/
def destroy (E : Engine) (o : Rhom.RhomObject) (db : Tables) : Tables :=
  match o.obj with
  | none => db
  | some obj => (destroyObject E o obj db).getD db

/-- get_conditions_hash, where every pair replaces the one before. -/
def getConditionsHash (conditions : List (String × String)) : List (String × Option String) :=
  conditions.foldl (fun _ kv => [("attrib", some kv.1), ("value", some kv.2)]) []

def deleteObject (E : Engine) (db : Tables) (obj : Option String) : Option Tables := do
  let (_, db) ← E (deleteFromTable "object_values" [("object", obj)]) [] db
  let (_, db) ← E (deleteFromTable "changed_values" [("object", obj)]) [] db
  return db

/-- The texts of delete_all for its argument, which may be nil, and the hash under :conditions,
which may be nil too: get_conditions_hash is then nil, which has no merge!. -/
def deleteAllRows (E : Engine) (src : Int)
    (conditions : Option (Option (List (String × String)))) (db : Tables) : Option Tables :=
  match conditions with
  | some none => none
  | some (some conditions) => do
    let delConditions := getConditionsHash conditions ++ [("source_id", some (toString src))]
    let (delObjects, db) ← E (selectFromTable "object_values" "object" (some delConditions)
      (some ⟨true, none⟩) []) [] db
    (delObjects.map (fun obj => cell obj "object")).foldlM (deleteObject E) db
  | none => do
    let (_, db) ← E (deleteFromTable "object_values" [("source_id", some (toString src))]) [] db
    let (_, db) ← E (deleteFromTable "changed_values" [("source_id", some (toString src))]) [] db
    return db

def deleteAll (E : Engine) (src : Int) (conditions : Option (Option (List (String × String))))
    (db : Tables) : Tables := (deleteAllRows E src conditions db).getD db

end Source

section Effects

theorem text_eq_create (t : UpdateType) : t.text = "create" ↔ t = .create := by
  cases t <;> decide

theorem readable_int (i : Int) : Readable (some (toString i)) :=
  readable_of_plain (plainValue_int i)

/-- The fields of get_conditions_hash: the last pair. -/
def conditionFields (conditions : List (String × String)) : List (Ident × Option String) :=
  match conditions.getLast? with
  | none => []
  | some kv => [(attribId, some kv.1), (valueId, some kv.2)]

theorem texts_conditionFields (conditions : List (String × String)) :
    texts (conditionFields conditions) = getConditionsHash conditions := by
  have hlast : ∀ (kvs : List (String × String)) (h : List (String × Option String)),
      kvs.foldl (fun _ kv => [("attrib", some kv.1), ("value", some kv.2)]) h =
        match kvs.getLast? with
        | none => h
        | some kv => [("attrib", some kv.1), ("value", some kv.2)] := by
    intro kvs
    induction kvs with
    | nil => exact fun h => rfl
    | cons kv kvs ih =>
      intro h
      rw [List.foldl_cons, ih, List.getLast?_cons]
      cases kvs.getLast? with
      | none => rfl
      | some kv' => rfl
  unfold getConditionsHash conditionFields
  rw [hlast]
  cases conditions.getLast? with
  | none => rfl
  | some kv => rfl

/-- The rows that delete_all finds. -/
def Selected (conditions : List (String × String)) (src : Int) (r : ObjectValue) : Prop :=
  (∀ kv ∈ conditions.getLast?, CellIs (some kv.1) r.attrib ∧ CellIs (some kv.2) r.value) ∧
    r.sourceId = src

instance (conditions : List (String × String)) (src : Int) :
    DecidablePred (Selected conditions src) := fun _ =>
  inferInstanceAs (Decidable ((∀ kv ∈ conditions.getLast?, _) ∧ _))

theorem matches_conditionFields (conditions : List (String × String)) (src : Int)
    (r : ObjectValue) : Matches (conditionFields conditions ++ [(sourceId, some (toString src))])
      (objectCells r) ↔ Selected conditions src r := by
  unfold Selected conditionFields
  cases conditions.getLast? with
  | none =>
    refine (matches_singleton _ _).trans ((intCell r.sourceId src).trans ?_)
    exact (and_iff_right (by simp)).symm
  | some kv =>
    show Matches [(attribId, some kv.1), (valueId, some kv.2),
      (sourceId, some (toString src))] _ ↔ _
    rw [matches_cons, matches_cons, matches_singleton, ← and_assoc]
    refine and_congr ?_ (intCell r.sourceId src)
    simp [objectCells, attribId, valueId]

variable {E : Engine} (hE : Lawful E)

include hE

theorem execute_delete_object {obj : Option String} (hread : Readable obj) (db : Tables) :
    E (deleteFromTable "object_values" [("object", obj)]) [] db = some ([], { db with
      objects := db.objects.delete (fun r => CellIs obj r.object) }) := by
  show E (deleteFromTable "object_values" (texts [(objectId, obj)])) [] db = _
  refine execute_delete_objects hE ?_ db ?_ _ ?_
  · simpa [ReadableFields] using hread
  · exact List.forall_mem_singleton.mpr (knownText (by decide) (by decide) obj)
  · exact fun r => matches_singleton _ _

theorem execute_delete_changes {obj : Option String} (hread : Readable obj) (db : Tables) :
    E (deleteFromTable "changed_values" [("object", obj)]) [] db = some ([], { db with
      changed := db.changed.delete (fun r => CellIs obj r.object) }) := by
  show E (deleteFromTable "changed_values" (texts [(objectId, obj)])) [] db = _
  refine execute_delete_changed hE ?_ db ?_ _ ?_
  · simpa [ReadableFields] using hread
  · exact List.forall_mem_singleton.mpr (knownText (by decide) (by decide) obj)
  · exact fun r => matches_singleton _ _

theorem execute_delete_unsent {obj : Option String} (hread : Readable obj) (db : Tables) :
    E (deleteFromTable "changed_values" [("object", obj), ("sent", some "0")]) [] db =
      some ([], { db with
        changed := db.changed.delete (fun r => CellIs obj r.object ∧ r.sent = 0) }) := by
  show E (deleteFromTable "changed_values"
    (texts [(objectId, obj), (sentId, some (toString (0 : Int)))])) [] db = _
  refine execute_delete_changed hE ?_ db ?_ _ ?_
  · simpa [ReadableFields] using ⟨hread, readable_int 0⟩
  · exact List.forall_mem_cons.mpr ⟨knownText (by decide) (by decide) obj,
      List.forall_mem_singleton.mpr (knownInt (by decide) 0)⟩
  · intro r
    rw [matches_cons, matches_singleton]
    exact and_congr Iff.rfl (intCell r.sent 0)

/-- The object has a create that is not sent. -/
def unsentCreate (db : Tables) (obj : String) : Bool :=
  db.changed.rows.any
    (fun r => CellIs (some obj) r.object ∧ r.updateType = .create ∧ r.sent = 0)

theorem execute_select_create {obj : String} (hread : Readable (some obj)) (db : Tables) :
    ∃ rows, E (selectFromTable "changed_values" "update_type" (some
        [("object", some obj), ("update_type", some "create"), ("sent", some "0")]) none []) [] db =
      some (rows, db) ∧ (rows.length > 0 ↔ unsentCreate db obj) := by
  obtain ⟨fields, hfields⟩ : ∃ fs, fs =
      [(updateTypeId, some "create"), (sentId, some (toString (0 : Int)))] := ⟨_, rfl⟩
  have hreads : ReadableFields ((objectId, some obj) :: fields) := by
    rw [hfields]
    simpa [ReadableFields] using ⟨hread, readable_text (by decide), readable_int 0⟩
  have hknown : Known .changed ((objectId, some obj) :: fields) := by
    rw [hfields]
    exact List.forall_mem_cons.mpr ⟨knownText (by decide) (by decide) _,
      List.forall_mem_cons.mpr ⟨knownText (by decide) (by decide) _,
        List.forall_mem_singleton.mpr (knownInt (by decide) 0)⟩⟩
  have hmatches : ∀ r : ChangedValue, Matches ((objectId, some obj) :: fields) (changedCells r) ↔
      CellIs (some obj) r.object ∧ r.updateType = .create ∧ r.sent = 0 := by
    intro r
    rw [hfields, matches_cons, matches_cons, matches_singleton]
    refine and_congr Iff.rfl (and_congr ?_ (intCell r.sent 0))
    have htext : changedCells r updateTypeId.name = some r.updateType.text := rfl
    rw [htext, ← text_eq_create]
    exact (and_iff_left (by decide)).trans Option.some_inj
  obtain ⟨found, hperm, hrun⟩ := execute_select hE hreads db (t := changedValuesId) rfl false
    (by decide : ∀ c ∈ (Items.mk updateTypeId []).toList, c.name ∈ Table.changed.columns) hknown
  refine ⟨_, by rw [← hrun, hfields]; rfl, ?_⟩
  have hrows : rowsOf db changedValuesId = db.changed.rows.map changedCells := rfl
  rw [rowsWith, List.length_map, hperm.length_eq, valuesOf, hrows]
  simp [List.length_pos_iff_exists_mem, unsentCreate, hmatches]

/-- The delete that is queued. -/
theorem execute_insert_delete {obj : String} (hread : Readable (some obj)) (src : Int)
    (t : UpdateType) (db : Tables) :
    E (insertIntoTable "changed_values" [("source_id", some (toString src)), ("object", some obj),
        ("update_type", some t.text)]) [] db =
      some ([], { db with
        changed := db.changed.insert
          (Rhom.queued src (readValue (some obj)) none none none t 0) }) := by
  have htext : ∀ t : UpdateType, '\'' ∉ t.text.toList ∧ '\x00' ∉ t.text.toList := by
    intro t
    cases t <;> decide
  have hreads : ReadableFields [(sourceId, some (toString src)), (objectId, some obj),
      (updateTypeId, some t.text)] := by
    simpa [ReadableFields] using ⟨readable_int src, hread, readable_text (htext t)⟩
  have hsrc : readValue (some (toString src)) = some (toString src) :=
    if_neg (fun h => (plainValue_int src _ rfl).1 (Option.some.inj h))
  have htype : readValue (some t.text) = some t.text := by
    cases t <;> decide
  have hrow : runInsert db changedValuesId (readFields [(sourceId, some (toString src)),
      (objectId, some obj), (updateTypeId, some t.text)]) = some (some { db with
        changed := db.changed.insert
          (Rhom.queued src (readValue (some obj)) none none none t 0) }) := by
    refine runInsert_changed db ?_ ?_ ?_
    · show ["source_id", "object", "update_type"].Nodup
      decide
    · show ∀ c ∈ ["source_id", "object", "update_type"], c ∈ changedFields
      decide
    · exact changedOf_eq hsrc htype rfl
  have hrun := execute_insert hE hreads db hrow
  exact hrun

/-- What destroy decides to queue. -/
def deleteType (o : Rhom.RhomObject) (obj : String) (db : Tables) : Option UpdateType :=
  if unsentCreate db obj then none else Rhom.getUpdateTypeBySource o.askSource .delete

theorem decideDelete_eq (o : Rhom.RhomObject) {obj : String} (hread : Readable (some obj))
    (db : Tables) : decideDelete E o obj db = some (deleteType o obj db,
      { db with objects := db.objects.delete (fun r => CellIs (some obj) r.object) }) := by
  obtain ⟨rows, hrows, hlength⟩ := execute_select_create hE hread
    { db with objects := db.objects.delete (fun r => CellIs (some obj) r.object) }
  have htype : (if rows.length > 0 then none
      else Rhom.getUpdateTypeBySource o.askSource .delete) = deleteType o obj db :=
    if_congr hlength rfl rfl
  simp only [decideDelete, execute_delete_object hE hread, Option.bind_eq_bind, Option.bind_some,
    hrows, htype, Option.pure_def]

theorem destroyObject_eq (o : Rhom.RhomObject) {obj : String} (hread : Readable (some obj))
    (db : Tables) : ∃ changed, destroyObject E o obj db = some ⟨changed,
        db.objects.delete (fun r => CellIs (some obj) r.object)⟩ ∧
      (changed = db.changed.delete (fun r => CellIs (some obj) r.object ∧ r.sent = 0) ∨
        ∃ t, changed = (db.changed.delete
          (fun r => CellIs (some obj) r.object ∧ r.sent = 0)).insert
            (Rhom.queued o.sourceId (readValue (some obj)) none none none t 0)) := by
  simp only [destroyObject, decideDelete_eq hE o hread, Option.bind_eq_bind, Option.bind_some,
    execute_delete_unsent hE hread]
  cases htype : deleteType o obj db with
  | none => exact ⟨_, rfl, Or.inl rfl⟩
  | some t =>
    simp only [execute_insert_delete hE hread]
    exact ⟨_, rfl, Or.inr ⟨t, rfl⟩⟩

theorem deleteObject_eq {obj : Option String} (hread : Readable obj) (db : Tables) :
    deleteObject E db obj = some ⟨db.changed.delete (fun r => CellIs obj r.object),
      db.objects.delete (fun r => CellIs obj r.object)⟩ := by
  simp only [deleteObject, execute_delete_object hE hread, execute_delete_changes hE hread,
    Option.bind_eq_bind, Option.bind_some, Option.pure_def]

theorem deleteObjects_eq {objs : List (Option String)} (hread : ∀ obj ∈ objs, Readable obj)
    (db : Tables) : objs.foldlM (deleteObject E) db =
      some ⟨db.changed.delete (fun r => ∃ obj ∈ objs, CellIs obj r.object),
        db.objects.delete (fun r => ∃ obj ∈ objs, CellIs obj r.object)⟩ := by
  induction objs generalizing db with
  | nil =>
    obtain ⟨changed, objects⟩ := db
    have hchanged : changed.delete (fun r => ∃ obj ∈ [], CellIs obj r.object) = changed :=
      ChangedTable.ext (by simp) rfl
    have hobjects : objects.delete (fun r => ∃ obj ∈ [], CellIs obj r.object) = objects :=
      ObjectTable.ext (by simp)
    rw [hchanged, hobjects]
    rfl
  | cons obj objs ih =>
    obtain ⟨hobj, hobjs⟩ := List.forall_mem_cons.mp hread
    rw [List.foldlM_cons, deleteObject_eq hE hobj, Option.bind_eq_bind, Option.bind_some, ih hobjs,
      changed_delete_delete, objects_delete_delete]
    simp only [List.exists_mem_cons_iff]

/-- The last pair of the conditions is one that SQLite reads. -/
def ReadableConditions (conditions : List (String × String)) : Prop :=
  ∀ kv ∈ conditions.getLast?, Readable (some kv.1) ∧ Readable (some kv.2)

theorem execute_select_found {conditions : List (String × String)}
    (hread : ReadableConditions conditions) (src : Int) (db : Tables) :
    ∃ rows, E (selectFromTable "object_values" "object"
        (some (getConditionsHash conditions ++ [("source_id", some (toString src))]))
        (some ⟨true, none⟩) []) [] db = some (rows, db) ∧
      ∀ obj, obj ∈ rows.map (fun row => cell row "object") ↔
        ∃ r ∈ db.objects.rows, Selected conditions src r ∧ r.object.map cText = obj := by
  obtain ⟨f, fs, hfields⟩ := List.exists_cons_of_ne_nil (List.append_ne_nil_of_right_ne_nil
    (conditionFields conditions) (List.cons_ne_nil (sourceId, some (toString src)) []))
  have hreads : ReadableFields (f :: fs) := by
    rw [← hfields]
    refine List.forall_mem_append.mpr ⟨?_, List.forall_mem_singleton.mpr (readable_int src)⟩
    unfold conditionFields
    cases hlast : conditions.getLast? with
    | none => exact fun f hf => by cases hf
    | some kv =>
      obtain ⟨hkey, hvalue⟩ := hread kv hlast
      exact List.forall_mem_cons.mpr ⟨hkey, List.forall_mem_singleton.mpr hvalue⟩
  have hknown : Known .objects (f :: fs) := by
    rw [← hfields]
    refine List.forall_mem_append.mpr
      ⟨?_, List.forall_mem_singleton.mpr (knownInt (by decide) src)⟩
    unfold conditionFields
    cases conditions.getLast? with
    | none => exact fun f hf => by cases hf
    | some kv =>
      exact List.forall_mem_cons.mpr ⟨knownText (by decide) (by decide) _,
        List.forall_mem_singleton.mpr (knownText (by decide) (by decide) _)⟩
  have htexts : texts (f :: fs) =
      getConditionsHash conditions ++ [("source_id", some (toString src))] := by
    rw [← hfields, ← texts_conditionFields, texts, List.map_append]
    rfl
  obtain ⟨found, hperm, hrun⟩ := execute_select hE hreads db (t := objectValuesId) rfl true
    (by decide : ∀ c ∈ (Items.mk objectId []).toList, c.name ∈ Table.objects.columns) hknown
  refine ⟨_, by rw [← hrun, htexts]; rfl, ?_⟩
  intro obj
  have hrows : rowsOf db objectValuesId = db.objects.rows.map objectCells := rfl
  have hmem : ∀ v, v ∈ found ↔ ∃ r ∈ db.objects.rows,
      Selected conditions src r ∧ [r.object] = v := by
    intro v
    rw [hperm.mem_iff, valuesOf, hrows, ← hfields]
    simp only [if_true, List.mem_dedup, List.mem_map, List.mem_filter, decide_eq_true_eq]
    constructor
    · rintro ⟨_, ⟨⟨r, hr, rfl⟩, hmatches⟩, rfl⟩
      exact ⟨r, hr, (matches_conditionFields conditions src r).mp hmatches, rfl⟩
    · rintro ⟨r, hr, hselected, rfl⟩
      exact ⟨_, ⟨⟨r, hr, rfl⟩, (matches_conditionFields conditions src r).mpr hselected⟩, rfl⟩
  simp only [rowsWith, List.map_map, List.mem_map, Function.comp_def]
  constructor
  · rintro ⟨v, hv, rfl⟩
    obtain ⟨r, hr, hselected, rfl⟩ := (hmem v).mp hv
    exact ⟨r, hr, hselected, rfl⟩
  · rintro ⟨r, hr, hselected, rfl⟩
    exact ⟨[r.object], (hmem _).mpr ⟨r, hr, hselected, rfl⟩, rfl⟩

/-- Every object that is found has an id that SQLite reads. -/
def ReadableFound (conditions : List (String × String)) (src : Int) (db : Tables) : Prop :=
  ∀ r ∈ db.objects.rows, Selected conditions src r → Readable r.object

/-- The objects of the rows that delete_all deletes. -/
def Deleted (conditions : List (String × String)) (src : Int) (db : Tables)
    (object : Option String) : Prop :=
  ∃ q ∈ db.objects.rows, Selected conditions src q ∧ CellIs q.object object

instance (conditions : List (String × String)) (src : Int) (db : Tables) :
    DecidablePred (Deleted conditions src db) := fun _ =>
  inferInstanceAs (Decidable (∃ q ∈ db.objects.rows, _ ∧ _))

theorem deleteAllRows_found {conditions : List (String × String)}
    (hread : ReadableConditions conditions) {src : Int} {db : Tables}
    (hfound : ReadableFound conditions src db) :
    deleteAllRows E src (some (some conditions)) db =
      some ⟨db.changed.delete (fun r => Deleted conditions src db r.object),
        db.objects.delete (fun r => Deleted conditions src db r.object)⟩ := by
  obtain ⟨rows, hrows, hobjs⟩ := execute_select_found hE hread src db
  obtain ⟨objs, heq⟩ : ∃ objs, objs = rows.map (fun row => cell row "object") := ⟨_, rfl⟩
  rw [← heq] at hobjs
  have hreads : ∀ obj ∈ objs, Readable obj := by
    intro obj hobj
    obtain ⟨r, hr, hselected, rfl⟩ := (hobjs obj).mp hobj
    rw [map_cText (hfound r hr hselected)]
    exact hfound r hr hselected
  have hdeleted : ∀ object : Option String,
      (∃ obj ∈ objs, CellIs obj object) ↔ Deleted conditions src db object := by
    intro object
    constructor
    · rintro ⟨obj, hobj, hcell⟩
      obtain ⟨q, hq, hselected, rfl⟩ := (hobjs obj).mp hobj
      rw [map_cText (hfound q hq hselected)] at hcell
      exact ⟨q, hq, hselected, hcell⟩
    · rintro ⟨q, hq, hselected, hcell⟩
      exact ⟨q.object, (hobjs _).mpr
        ⟨q, hq, hselected, map_cText (hfound q hq hselected)⟩, hcell⟩
  rw [deleteAllRows, hrows, Option.bind_eq_bind, Option.bind_some]
  show (rows.map (fun row => cell row "object")).foldlM (deleteObject E) db = _
  rw [← heq, deleteObjects_eq hE hreads]
  simp only [hdeleted]

theorem deleteAllRows_all (src : Int) (db : Tables) :
    deleteAllRows E src none db = some ⟨db.changed.delete (fun r => r.sourceId = src),
      db.objects.delete (fun r => r.sourceId = src)⟩ := by
  have hreads : ReadableFields [(sourceId, some (toString src))] :=
    List.forall_mem_singleton.mpr (readable_int src)
  have hobjects : ∀ db, E (deleteFromTable "object_values" [("source_id", some (toString src))])
      [] db = some ([], { db with objects := db.objects.delete (fun r => r.sourceId = src) }) :=
    fun db => execute_delete_objects hE hreads db
      (List.forall_mem_singleton.mpr (knownInt (by decide) src)) _
      (fun r => (matches_singleton _ _).trans (intCell r.sourceId src))
  have hchanged : ∀ db, E (deleteFromTable "changed_values" [("source_id", some (toString src))])
      [] db = some ([], { db with changed := db.changed.delete (fun r => r.sourceId = src) }) :=
    fun db => execute_delete_changed hE hreads db
      (List.forall_mem_singleton.mpr (knownInt (by decide) src)) _
      (fun r => (matches_singleton _ _).trans (intCell r.sourceId src))
  simp only [deleteAllRows, hobjects, hchanged, Option.bind_eq_bind, Option.bind_some,
    Option.pure_def]

end Effects

section Transactions

variable {E : Engine} (hE : Lawful E)

include hE

/-- The texts do what the parameterised statements of the transaction do. -/
theorem destroy_eq (o : Rhom.RhomObject) (hplain : Piece.PlainValue o.obj) (db : Rhom.Db) :
    Rhom.destroy o db = some ⟨(destroy E o ⟨db.changed, db.objects⟩).changed,
      (destroy E o ⟨db.changed, db.objects⟩).objects, db.tempId⟩ := by
  unfold destroy Rhom.destroy
  cases hobj : o.obj with
  | none => rfl
  | some obj =>
    rw [hobj] at hplain
    have hcell : ∀ cell, CellIs (some obj) cell ↔ cell = some obj := cellIs_iff hplain
    have hvalue : readValue (some obj) = some obj :=
      if_neg (fun h => (hplain obj rfl).1 (Option.some.inj h))
    have hread := readable_of_plain hplain
    obtain ⟨tables, htables⟩ : ∃ tables : Tables, tables = ⟨db.changed, db.objects⟩ := ⟨_, rfl⟩
    have hcreate : unsentCreate tables obj = db.changed.rows.any
        (fun r => r.object = some obj ∧ r.updateType = .create ∧ r.sent = 0) := by
      simp only [unsentCreate, hcell, htables]
    rw [← htables]
    simp only [destroyObject, decideDelete_eq hE o hread, Option.bind_eq_bind, Option.bind_some,
      execute_delete_unsent hE hread, hcell]
    rw [← hcreate]
    cases htype : deleteType o obj tables with
    | none =>
      simp only [deleteType, htables] at htype
      simp only [htype, htables, Option.getD_some]
    | some t =>
      simp only [deleteType, htables] at htype
      simp only [htype, execute_insert_delete hE hread, hvalue, htables, Option.map_some,
        Option.getD_some]

omit hE in
theorem foldl_deleteObjectRows (objs : List (Option String)) (db : Rhom.Db) :
    objs.foldl Rhom.deleteObjectRows db = { db with
      objects := db.objects.delete (fun r => r.object ∈ objs)
      changed := db.changed.delete (fun r => r.object ∈ objs) } := by
  induction objs generalizing db with
  | nil =>
    have hchanged : db.changed.delete (fun r => r.object ∈ ([] : List (Option String))) =
        db.changed := ChangedTable.ext (by simp) rfl
    have hobjects : db.objects.delete (fun r => r.object ∈ ([] : List (Option String))) =
        db.objects := ObjectTable.ext (by simp)
    rw [hchanged, hobjects]
    rfl
  | cons obj objs ih =>
    rw [List.foldl_cons, ih, Rhom.deleteObjectRows, changed_delete_delete, objects_delete_delete]
    simp only [List.mem_cons]

/-- The last pair is read as it is. -/
def PlainConditions (conditions : List (String × String)) : Prop :=
  ∀ kv ∈ conditions.getLast?, Piece.PlainValue (some kv.1) ∧ Piece.PlainValue (some kv.2)

omit hE in
theorem selected_iff {conditions : List (String × String)} (hplain : PlainConditions conditions)
    (src : Int) (r : ObjectValue) :
    Selected conditions src r ↔ Rhom.matchesConditions conditions r ∧ r.sourceId = src := by
  unfold Selected Rhom.matchesConditions
  refine and_congr_left' ?_
  cases hlast : conditions.getLast? with
  | none => simp
  | some kv =>
    obtain ⟨hkey, hvalue⟩ := hplain kv hlast
    simp [cellIs_iff hkey, cellIs_iff hvalue]

theorem deleteAll_eq (src : Int) {conditions : List (String × String)}
    (hplain : PlainConditions conditions) (db : Rhom.Db)
    (hfound : ∀ r ∈ db.objects.rows, Selected conditions src r → Piece.PlainValue r.object) :
    Rhom.deleteAll src (some conditions) db = some
      ⟨(deleteAll E src (some (some conditions)) ⟨db.changed, db.objects⟩).changed,
        (deleteAll E src (some (some conditions)) ⟨db.changed, db.objects⟩).objects,
        db.tempId⟩ := by
  have hread : ReadableConditions conditions := fun kv hkv =>
    ⟨readable_of_plain (hplain kv hkv).1, readable_of_plain (hplain kv hkv).2⟩
  have hreads : ReadableFound conditions src ⟨db.changed, db.objects⟩ :=
    fun r hr hselected => readable_of_plain (hfound r hr hselected)
  have hdeleted : ∀ object : Option String,
      Deleted conditions src ⟨db.changed, db.objects⟩ object ↔ object ∈
        (db.objects.rows.filter (fun r => Rhom.matchesConditions conditions r ∧
          r.sourceId = src)).map ObjectValue.object := by
    intro object
    rw [List.mem_map]
    constructor
    · rintro ⟨q, hq, hselected, hcell⟩
      rw [cellIs_iff (hfound q hq hselected)] at hcell
      exact ⟨q, List.mem_filter.mpr
        ⟨hq, decide_eq_true ((selected_iff hplain src q).mp hselected)⟩, hcell.symm⟩
    · rintro ⟨q, hq, rfl⟩
      obtain ⟨hq, hmatches⟩ := List.mem_filter.mp hq
      have hselected := (selected_iff hplain src q).mpr (of_decide_eq_true hmatches)
      exact ⟨q, hq, hselected, (cellIs_iff (hfound q hq hselected) _).mpr rfl⟩
  rw [deleteAll, deleteAllRows_found hE hread hreads, Option.getD_some, Rhom.deleteAll,
    foldl_deleteObjectRows]
  simp only [hdeleted]

end Transactions

section Isolation

/-- No row of another source is changed. -/
def OthersKept (src : Int) (db db' : Tables) : Prop :=
  db'.objects.rows.filter (fun r => r.sourceId ≠ src) =
    db.objects.rows.filter (fun r => r.sourceId ≠ src) ∧
  db'.changed.rows.filter (fun r => r.sourceId ≠ src) =
    db.changed.rows.filter (fun r => r.sourceId ≠ src)

/-- The rows of one source. -/
def onlySource (src : Int) (db : Tables) : Tables :=
  ⟨db.changed.delete (fun r => r.sourceId ≠ src), db.objects.delete (fun r => r.sourceId ≠ src)⟩

/-- destroy keeps the rows of the other sources and decides by the rows of its own. -/
def DestroyStays (E : Engine) (o : Rhom.RhomObject) (db : Tables) : Prop :=
  OthersKept o.sourceId db (destroy E o db) ∧ ∀ obj, o.obj = some obj →
    (decideDelete E o obj db).map Prod.fst =
      (decideDelete E o obj (onlySource o.sourceId db)).map Prod.fst

/-- delete_all keeps the rows of the other sources. -/
def DeleteAllStays (E : Engine) (src : Int) (conditions : Option (Option (List (String × String))))
    (db : Tables) : Prop := OthersKept src db (deleteAll E src conditions db)

/-- No other source has a row of the object that destroy deletes. -/
def OwnUnsent (src : Int) (db : Tables) (obj : Option String) : Prop :=
  (∀ r ∈ db.objects.rows, CellIs obj r.object → r.sourceId = src) ∧
    ∀ r ∈ db.changed.rows, CellIs obj r.object → r.sent = 0 → r.sourceId = src

/-- No other source has a row of the object. -/
def OwnObject (src : Int) (db : Tables) (obj : Option String) : Prop :=
  (∀ r ∈ db.objects.rows, CellIs obj r.object → r.sourceId = src) ∧
    ∀ r ∈ db.changed.rows, CellIs obj r.object → r.sourceId = src

/-- What is not filtered out. -/
theorem filter_filter_eq_iff {α : Type} (rows : List α) (p q : α → Prop) [DecidablePred p]
    [DecidablePred q] :
    ((rows.filter (fun r => ¬p r)).filter (fun r => q r) = rows.filter (fun r => q r)) ↔
      ∀ r ∈ rows, p r → ¬q r := by
  constructor
  · intro h r hr hp hq
    have hmem : r ∈ rows.filter (fun r => q r) := List.mem_filter.mpr ⟨hr, decide_eq_true hq⟩
    rw [← h] at hmem
    exact of_decide_eq_true (List.mem_filter.mp (List.mem_filter.mp hmem).1).2 hp
  · intro h
    rw [List.filter_filter]
    refine List.filter_congr (fun r hr => ?_)
    by_cases hq : q r
    · have hp : ¬p r := fun hp => h r hr hp hq
      simp [hq, hp]
    · simp [hq]

variable {E : Engine} (hE : Lawful E)

include hE

theorem destroyStays_iff (o : Rhom.RhomObject)
    (hread : ∀ obj, o.obj = some obj → Readable (some obj)) (db : Tables) :
    DestroyStays E o db ↔ ∀ obj, o.obj = some obj → OwnUnsent o.sourceId db (some obj) := by
  unfold DestroyStays destroy
  cases hobj : o.obj with
  | none => exact iff_of_true ⟨⟨rfl, rfl⟩, fun obj h => by cases h⟩ (fun obj h => by cases h)
  | some obj =>
    have hread' := hread obj hobj
    obtain ⟨changed, hrun, hchanged⟩ := destroyObject_eq hE o hread' db
    have hrows : changed.rows.filter (fun r => r.sourceId ≠ o.sourceId) =
        (db.changed.delete (fun r => CellIs (some obj) r.object ∧ r.sent = 0)).rows.filter
          (fun r => r.sourceId ≠ o.sourceId) := by
      rcases hchanged with rfl | ⟨t, rfl⟩
      · rfl
      · rw [ChangedTable.insert_rows, List.filter_append]
        simp [Rhom.queued]
    have hkept : OthersKept o.sourceId db ((destroyObject E o obj db).getD db) ↔
        OwnUnsent o.sourceId db (some obj) := by
      rw [hrun, Option.getD_some]
      unfold OthersKept OwnUnsent
      rw [hrows, ObjectTable.delete_rows, ChangedTable.delete_rows, filter_filter_eq_iff,
        filter_filter_eq_iff]
      simp only [ne_eq, not_not, and_imp]
    constructor
    · rintro ⟨h, -⟩ obj' hobj'
      cases hobj'
      exact hkept.mp h
    · intro h
      have hown := h obj rfl
      refine ⟨hkept.mpr hown, ?_⟩
      rintro obj' hobj'
      cases hobj'
      have hcreate : unsentCreate db obj = unsentCreate (onlySource o.sourceId db) obj := by
        rw [Bool.eq_iff_iff]
        simp only [unsentCreate, onlySource, List.any_eq_true, ChangedTable.mem_delete, not_not,
          decide_eq_true_eq, ne_eq]
        constructor
        · rintro ⟨r, hr, hcell, htype, hsent⟩
          exact ⟨r, ⟨hr, hown.2 r hr hcell hsent⟩, hcell, htype, hsent⟩
        · rintro ⟨r, ⟨hr, -⟩, hcell, htype, hsent⟩
          exact ⟨r, hr, hcell, htype, hsent⟩
      rw [decideDelete_eq hE o hread', decideDelete_eq hE o hread', deleteType, deleteType, hcreate]
      rfl

theorem deleteAllStays_iff {conditions : List (String × String)}
    (hread : ReadableConditions conditions) {src : Int} {db : Tables}
    (hfound : ReadableFound conditions src db) :
    DeleteAllStays E src (some (some conditions)) db ↔
      ∀ q ∈ db.objects.rows, Selected conditions src q → OwnObject src db q.object := by
  unfold DeleteAllStays deleteAll OthersKept
  rw [deleteAllRows_found hE hread hfound, Option.getD_some, ObjectTable.delete_rows,
    ChangedTable.delete_rows, filter_filter_eq_iff, filter_filter_eq_iff]
  simp only [ne_eq, not_not]
  constructor
  · rintro ⟨hobjects, hchanged⟩ q hq hselected
    exact ⟨fun r hr hcell => hobjects r hr ⟨q, hq, hselected, hcell⟩,
      fun r hr hcell => hchanged r hr ⟨q, hq, hselected, hcell⟩⟩
  · intro h
    refine ⟨?_, ?_⟩
    · rintro r hr ⟨q, hq, hselected, hcell⟩
      exact (h q hq hselected).1 r hr hcell
    · rintro r hr ⟨q, hq, hselected, hcell⟩
      exact (h q hq hselected).2 r hr hcell

theorem deleteAllStays_all (src : Int) (db : Tables) : DeleteAllStays E src none db := by
  unfold DeleteAllStays deleteAll OthersKept
  rw [deleteAllRows_all hE, Option.getD_some, ObjectTable.delete_rows, ChangedTable.delete_rows,
    filter_filter_eq_iff, filter_filter_eq_iff]
  exact ⟨fun r _ h => not_not.mpr h, fun r _ h => not_not.mpr h⟩

/-- Deletes stay in their source just where no other source has a row of an object that they delete:
of one that destroy deletes in object_values or unsent in changed_values, of one that delete_all
finds in either table. -/
theorem deletes_stay_iff (db : Tables) :
    (∀ o : Rhom.RhomObject, (∀ obj, o.obj = some obj → Readable (some obj)) →
      (DestroyStays E o db ↔ ∀ obj, o.obj = some obj → OwnUnsent o.sourceId db (some obj))) ∧
    (∀ src conditions, ReadableConditions conditions → ReadableFound conditions src db →
      (DeleteAllStays E src (some (some conditions)) db ↔
        ∀ q ∈ db.objects.rows, Selected conditions src q → OwnObject src db q.object)) ∧
    ∀ src, DeleteAllStays E src none db ∧ DeleteAllStays E src (some none) db :=
  ⟨fun o hread => destroyStays_iff hE o hread db,
    fun _ _ hread hfound => deleteAllStays_iff hE hread hfound,
    fun src => ⟨deleteAllStays_all hE src db, rfl, rfl⟩⟩

end Isolation

section Sharing

/-- Sources 1 and 2 have an object of one id, and source 2 has created its own. -/
def shared : Tables where
  objects := ⟨[⟨1, 1, some "name", some "7", some "a", none⟩,
    ⟨2, 2, some "name", some "7", some "b", none⟩], by decide⟩
  changed := ⟨[⟨1, 2, some "name", some "7", some "b", none, .create, 0, 2, 0⟩], 1, by decide,
    by decide, by decide⟩

def firstObject : Rhom.RhomObject := ⟨1, false, [("object", some "7")]⟩

theorem firstObject_obj : firstObject.obj = some "7" := by decide

theorem firstObject_readable : ∀ obj, firstObject.obj = some obj → Readable (some obj) := by
  intro obj hobj
  rw [firstObject_obj] at hobj
  cases hobj
  exact readable_text (by decide)

/-- destroy and delete_all of source 1 delete what source 2 has. -/
theorem shared_object_deleted : ¬DestroyStays sqlite firstObject shared ∧
    ¬DeleteAllStays sqlite 1 (some (some [("name", "a")])) shared := by
  refine ⟨?_, ?_⟩
  · rw [destroyStays_iff sqlite_lawful firstObject firstObject_readable]
    intro h
    exact absurd ((h "7" firstObject_obj).1 ⟨2, 2, some "name", some "7", some "b", none⟩
      (by decide) (by decide)) (by decide)
  · rw [deleteAllStays_iff sqlite_lawful]
    · intro h
      exact absurd ((h ⟨1, 1, some "name", some "7", some "a", none⟩ (by decide) (by decide)).1
        ⟨2, 2, some "name", some "7", some "b", none⟩ (by decide) (by decide)) (by decide)
    · intro kv hkv
      cases hkv
      exact ⟨readable_text (by decide), readable_text (by decide)⟩
    · intro r hr _
      have hobject : r.object = some "7" := by
        revert r
        decide
      rw [hobject]
      exact readable_text (by decide)

/-- Sources 1 and 2 have an object each, and source 2 has created its own. -/
def apart : Tables where
  objects := ⟨[⟨1, 1, some "name", some "7", some "a", none⟩,
    ⟨2, 2, some "name", some "8", some "a", none⟩], by decide⟩
  changed := ⟨[⟨1, 2, some "name", some "8", some "a", none, .create, 0, 2, 0⟩], 1, by decide,
    by decide, by decide⟩

/-- Nothing leaks to the other object, which has the same name. -/
theorem deletes_stay_iff_own : DestroyStays sqlite firstObject apart ∧
    DeleteAllStays sqlite 1 (some (some [("name", "a")])) apart ∧
    DeleteAllStays sqlite 1 none apart := by
  obtain ⟨hdestroy, hfound, hall⟩ := deletes_stay_iff sqlite_lawful apart
  have hread : ReadableConditions [("name", "a")] := by
    intro kv hkv
    cases hkv
    exact ⟨readable_text (by decide), readable_text (by decide)⟩
  have hids : ∀ r ∈ apart.objects.rows, ∀ s ∈ r.object, SqlPieces.Piece.PlainIn '\'' s := by
    decide
  refine ⟨(hdestroy firstObject firstObject_readable).mpr ?_, ?_, (hall 1).1⟩
  · intro obj hobj
    rw [firstObject_obj] at hobj
    cases hobj
    exact ⟨by decide, by decide⟩
  · refine (hfound 1 _ hread (fun r hr _ s hs => hids r hr s hs)).mpr ?_
    intro q hq hselected
    rcases List.mem_cons.mp hq with rfl | hq
    · exact ⟨by decide, by decide⟩
    · rw [List.mem_singleton.mp hq] at hselected
      exact absurd hselected (by decide)

end Sharing

end Rhodes.RhomDeletes
