import Mathlib.Data.List.Induction
import Rhodes.Cells

/-!
The queue of one object as a record of what the user did: the rows that are queued, applied in
push order to the attributes that the object had at the start, give its attributes. Push order
is by type, so that an attribute has the value of its last update row, else of its last create
row, else its value at the start, and none at all where a delete row is queued. The texts of a
call are the parameterised statements where no id, name or value in them is the word NULL.
-/
namespace Rhodes.QueueReplay

open Database Statements Rhom EditOrder Cells

/-- The attributes of an object: whether there is one, and its value. -/
abbrev Attributes := String → Option (Option String)

def attributes (objects : ObjectTable) (src : Int) (obj : String) : Attributes :=
  fun attrib => (objectRow objects src (some obj) attrib).map ObjectValue.value

def noAttributes : Attributes := fun _ => none

/-- What the server does with a row. -/
def applyRow (T : Attributes) (r : ChangedValue) : Attributes :=
  match r.updateType, r.attrib with
  | .create, some attrib => Function.update T attrib (some r.value)
  | .update, some attrib => Function.update T attrib (some r.value)
  | .delete, _ => noAttributes
  | _, _ => T

def ofType (t : UpdateType) (rows : List ChangedValue) : List ChangedValue :=
  rows.filter (fun r => r.updateType = t)

/-- The types in the order of syncClientChanges, each in the order of its rows. -/
def pushOrder (rows : List ChangedValue) : List ChangedValue :=
  ofType .create rows ++ ofType .update rows ++ ofType .delete rows

def replay (rows : List ChangedValue) (T : Attributes) : Attributes :=
  (pushOrder rows).foldl applyRow T

/-- A row that removes the object is queued. -/
def Deleted (rows : List ChangedValue) : Prop := ∃ r ∈ rows, r.updateType = .delete

instance (rows : List ChangedValue) : Decidable (Deleted rows) :=
  inferInstanceAs (Decidable (∃ r ∈ rows, r.updateType = .delete))

/-- The value of the last row of a type for an attribute. -/
def lastOf (t : UpdateType) (attrib : String) (rows : List ChangedValue) : Option (Option String) :=
  ((ofType t rows).filter (fun r => r.attrib = some attrib)).getLast?.map ChangedValue.value

section Replay

variable {rows : List ChangedValue} {T : Attributes} {attrib : String}

theorem foldl_applyRow_set {t : UpdateType} (ht : t = .create ∨ t = .update) :
    ((ofType t rows).foldl applyRow T) attrib = (lastOf t attrib rows).or (T attrib) := by
  have hset : ∀ (T : Attributes) (r : ChangedValue), r.updateType = t →
      applyRow T r attrib = if r.attrib = some attrib then some r.value else T attrib := by
    intro T r hr
    cases hattr : r.attrib with
    | none => rcases ht with rfl | rfl <;> simp [applyRow, hr, hattr]
    | some name =>
      by_cases hname : name = attrib
      · rcases ht with rfl | rfl <;> simp [applyRow, hr, hattr, hname]
      · rcases ht with rfl | rfl <;> simp [applyRow, hr, hattr, hname, Ne.symm hname]
  unfold lastOf ofType
  induction rows using List.reverseRecOn with
  | nil => rfl
  | append_singleton rows r ih =>
    by_cases hr : r.updateType = t
    · by_cases hattr : r.attrib = some attrib
      · simp [List.filter_append, hr, hattr, hset _ r hr]
      · simp only [List.filter_append, List.foldl_append, List.filter_cons, List.filter_nil,
          hr, hattr, decide_true, if_true, List.foldl_cons, List.foldl_nil, hset _ r hr, if_false,
          decide_false, Bool.false_eq_true, List.append_nil]
        exact ih
    · simpa [List.filter_append, hr] using ih

theorem foldl_applyRow_delete (T : Attributes) :
    (ofType .delete rows).foldl applyRow T = if Deleted rows then noAttributes else T := by
  induction rows generalizing T with
  | nil => simp [ofType, Deleted]
  | cons r rows ih =>
    by_cases hr : r.updateType = .delete
    · have hdeleted : Deleted (r :: rows) := ⟨r, List.mem_cons_self, hr⟩
      have hstep : ofType .delete (r :: rows) = r :: ofType .delete rows := by simp [ofType, hr]
      have happly : applyRow T r = noAttributes := by simp [applyRow, hr]
      rw [hstep, List.foldl_cons, happly, ih, if_pos hdeleted, ite_self]
    · have hsame : Deleted (r :: rows) ↔ Deleted rows := by simp [Deleted, hr]
      have hstep : ofType .delete (r :: rows) = ofType .delete rows := by simp [ofType, hr]
      rw [hstep, ih]
      simp only [hsame]

/-- What an attribute is after the rows. -/
theorem replay_apply : replay rows T attrib = if Deleted rows then none
    else (lastOf .update attrib rows).or ((lastOf .create attrib rows).or (T attrib)) := by
  rw [replay, pushOrder, List.foldl_append, List.foldl_append, foldl_applyRow_delete]
  split
  · rfl
  · rw [foldl_applyRow_set (.inr rfl), foldl_applyRow_set (.inl rfl)]

/-- Only the type, the attribute and the value of a row matter. -/
theorem replay_map {f : ChangedValue → ChangedValue} (htype : ∀ r, (f r).updateType = r.updateType)
    (hattr : ∀ r, (f r).attrib = r.attrib) (hvalue : ∀ r, (f r).value = r.value) :
    replay (rows.map f) T = replay rows T := by
  have hof : ∀ t, ofType t (rows.map f) = (ofType t rows).map f := by
    intro t
    simp only [ofType, List.filter_map]
    congr 1
    refine List.filter_congr ?_
    intro r _
    simp [htype]
  have happly : ∀ T r, applyRow T (f r) = applyRow T r := by
    intro T r
    simp only [applyRow, htype, hattr, hvalue]
  simp only [replay, pushOrder, hof, ← List.map_append, List.foldl_map, happly]

theorem lastOf_append_other {t : UpdateType} {r : ChangedValue}
    (h : r.updateType ≠ t ∨ r.attrib ≠ some attrib) :
    lastOf t attrib (rows ++ [r]) = lastOf t attrib rows := by
  unfold lastOf ofType
  rw [List.filter_append, List.filter_append]
  have hnone : ([r].filter (fun r => decide (r.updateType = t))).filter
      (fun r => decide (r.attrib = some attrib)) = [] := by
    rcases h with h | h <;> simp [h]
  rw [hnone, List.append_nil]

theorem lastOf_append_self {t : UpdateType} {r : ChangedValue} (ht : r.updateType = t)
    (hattr : r.attrib = some attrib) : lastOf t attrib (rows ++ [r]) = some r.value := by
  unfold lastOf ofType
  simp [List.filter_append, ht, hattr]

theorem lastOf_eq_none_iff {t : UpdateType} :
    lastOf t attrib rows = none ↔ ∀ r ∈ rows, r.updateType = t → r.attrib ≠ some attrib := by
  unfold lastOf ofType
  rw [Option.map_eq_none_iff, List.getLast?_eq_none_iff, List.filter_eq_nil_iff]
  simp [List.mem_filter]

/-- Rows of other attributes do not matter. -/
theorem lastOf_filter {t : UpdateType} {keep keep' : ChangedValue → Bool}
    (h : ∀ r ∈ rows, r.attrib = some attrib → keep r = keep' r) :
    lastOf t attrib (rows.filter keep) = lastOf t attrib (rows.filter keep') := by
  unfold lastOf ofType
  congr 2
  simp only [List.filter_filter]
  refine List.filter_congr ?_
  intro r hr
  by_cases hattr : r.attrib = some attrib
  · simp [hattr, h r hr hattr]
  · simp [hattr]

end Replay

section Attributes

variable {objects objects' : ObjectTable} {src : Int} {obj : String}

theorem attributes_eq_some_iff {attrib : String} {value : Option String} :
    attributes objects src obj attrib = some value ↔
      ∃ o ∈ objects.rows, At src (some obj) attrib o ∧ o.value = value := by
  unfold attributes
  rw [Option.map_eq_some_iff]
  constructor
  · intro h
    obtain ⟨o, ho, hvalue⟩ := h
    obtain ⟨hmem, hat⟩ := objectRow_some ho
    exact ⟨o, hmem, hat, hvalue⟩
  · intro h
    obtain ⟨o, ho, hat, hvalue⟩ := h
    cases hrow : objectRow objects src (some obj) attrib with
    | none => exact absurd hat (objectRow_eq_none hrow o ho)
    | some row =>
      obtain ⟨hmem, hat'⟩ := objectRow_some hrow
      exact ⟨row, rfl, by rw [eq_of_at hmem ho hat' hat, hvalue]⟩

theorem attributes_wrote {attrib value : String} {id : Int64}
    (hw : Wrote objects objects' src (some obj) attrib value id) :
    attributes objects' src obj =
      Function.update (attributes objects src obj) attrib (some (some value)) := by
  funext name
  by_cases hname : name = attrib
  · subst hname
    rw [Function.update_self, attributes_eq_some_iff]
    obtain ⟨o, ho, hat⟩ := hw.shown
    exact ⟨o, ho, hat, (hw.cell o ho hat).1⟩
  · rw [Function.update_of_ne hname]
    refine Option.ext ?_
    intro v
    rw [attributes_eq_some_iff, attributes_eq_some_iff]
    have hother : ∀ o, At src (some obj) name o → (o ∈ objects'.rows ↔ o ∈ objects.rows) := by
      intro o hat
      refine hw.other o ?_
      intro hcell
      exact hname (Option.some.inj (hat.2.1.symm.trans hcell.2.1))
    constructor
    · intro h
      obtain ⟨o, ho, hat, hvalue⟩ := h
      exact ⟨o, (hother o hat).mp ho, hat, hvalue⟩
    · intro h
      obtain ⟨o, ho, hat, hvalue⟩ := h
      exact ⟨o, (hother o hat).mpr ho, hat, hvalue⟩

theorem attributes_eq_noAttributes (h : ∀ o ∈ objects.rows, o.object = some obj →
    o.sourceId ≠ src) :
    attributes objects src obj = noAttributes := by
  funext attrib
  rw [noAttributes, Option.eq_none_iff_forall_ne_some]
  intro value hvalue
  obtain ⟨o, ho, hat, -⟩ := attributes_eq_some_iff.mp hvalue
  exact h o ho hat.1 hat.2.2

end Attributes

/-- A row of an object is queued as one of its edits or as its removal. -/
def EditOrRemoval (r : ChangedValue) : Prop :=
  (r.updateType = .delete ∧ r.attrib = none) ∨ r.updateType = .create ∨ r.updateType = .update

/-- What holds between the steps, given the attributes at the start. -/
structure Replays (src : Int) (obj : String) (T₀ : Attributes) (db : Db) : Prop where
  own : ∀ r ∈ db.changed.rows, r.sourceId = src ∧ r.object = some obj
  types : ∀ r ∈ db.changed.rows, EditOrRemoval r
  removed : Deleted db.changed.rows → ∀ r ∈ db.changed.rows, r.sent = 0 → r.updateType = .delete
  created : ¬Deleted db.changed.rows → (∃ r ∈ db.changed.rows, r.updateType = .create) →
    T₀ = noAttributes
  replay_eq : replay db.changed.rows T₀ = attributes db.objects src obj

/-- An edit that is queued with the type: no removal of the object is queued, and a row of type
create has the value of the last update row of the attribute that was sent. -/
def EditMeets (rows : List ChangedValue) (attrib value : String) (t : UpdateType) : Prop :=
  ¬Deleted rows ∧ (t = .create →
    ∀ v, lastOf .update attrib (rows.filter (fun r => r.sent ≠ 0)) = some v → v = some value)

section Steps

variable {src : Int} {obj : String} {T₀ : Attributes} {db db' : Db}

/-- Without attributes and without a removal nothing is queued and there was nothing. -/
theorem Replays.start_eq (h : Replays src obj T₀ db) (hdeleted : ¬Deleted db.changed.rows)
    (hnone : attributes db.objects src obj = noAttributes) : T₀ = noAttributes := by
  funext attrib
  have hattr := congrFun h.replay_eq attrib
  rw [hnone, replay_apply, if_neg hdeleted, noAttributes, Option.or_eq_none_iff,
    Option.or_eq_none_iff] at hattr
  exact hattr.2.2

/-- The unsent rows of an attribute are replaced by a new row. -/
theorem replay_edited {rows : List ChangedValue} {new : ChangedValue} {attrib value : String}
    {t : UpdateType} (hown : ∀ r ∈ rows, r.sourceId = src ∧ r.object = some obj)
    (ht : t = .create ∨ t = .update) (hmeets : EditMeets rows attrib value t)
    (hattr : new.attrib = some attrib) (hvalue : new.value = some value)
    (htype : new.updateType = t)
    (hkept : ¬Deleted (rows.filter (fun r => ¬Unsent src (some obj) attrib r) ++ [new])) :
    replay (rows.filter (fun r => ¬Unsent src (some obj) attrib r) ++ [new]) T₀ =
      Function.update (replay rows T₀) attrib (some (some value)) := by
  obtain ⟨hdeleted, hlast⟩ := hmeets
  funext name
  rw [replay_apply, if_neg hkept]
  by_cases hname : name = attrib
  · subst hname
    rw [Function.update_self]
    -- the rows of the attribute that are left were sent
    have hsent : lastOf .update name (rows.filter (fun r => ¬Unsent src (some obj) name r)) =
        lastOf .update name (rows.filter (fun r => r.sent ≠ 0)) := by
      refine lastOf_filter ?_
      intro r hr hrattr
      obtain ⟨hsrc, hobj⟩ := hown r hr
      simp [Unsent, hsrc, hobj, hrattr]
    rcases ht with rfl | rfl
    · rw [lastOf_append_other (.inl (by simp [htype])), hsent,
        lastOf_append_self htype hattr, hvalue]
      cases hsome : lastOf .update name (rows.filter (fun r => r.sent ≠ 0)) with
      | none => rfl
      | some v => rw [hlast rfl v hsome]; rfl
    · rw [lastOf_append_self htype hattr, hvalue]
      rfl
  · have hother : ∀ t', lastOf t' name
        (rows.filter (fun r => ¬Unsent src (some obj) attrib r) ++ [new]) =
          lastOf t' name rows := by
      intro t'
      have hne : new.attrib ≠ some name := by
        rw [hattr]
        exact fun heq => hname (Option.some.inj heq).symm
      have hfilter : lastOf t' name (rows.filter (fun r => ¬Unsent src (some obj) attrib r)) =
          lastOf t' name (rows.filter (fun _ => true)) := by
        refine lastOf_filter ?_
        intro r _ hrattr
        simp [Unsent, hrattr, hname]
      rw [lastOf_append_other (.inr hne), hfilter, List.filter_true]
    rw [Function.update_of_ne hname, hother, hother, replay_apply, if_neg hdeleted]

theorem Replays.edited {attrib value : String} {t : UpdateType} (h : Replays src obj T₀ db)
    (ht : t = .create ∨ t = .update) (hstart : t = .create → T₀ = noAttributes)
    (hmeets : EditMeets db.changed.rows attrib value t)
    (hedit : Edited src (some obj) attrib value t db db') :
    Replays src obj T₀ db' ∧ ¬Deleted db'.changed.rows := by
  obtain ⟨new, hrows, hsrc, hobj, hattr, hvalue, htype, -⟩ := hedit.rows
  obtain ⟨_, _, hw, _⟩ := hedit.queued
  have hmem : ∀ r ∈ db'.changed.rows, r ∈ db.changed.rows ∨ r = new := by
    intro r hr
    rw [hrows, List.mem_append, List.mem_singleton] at hr
    exact hr.imp_left (fun hold => (List.mem_filter.mp hold).1)
  have hkept : ¬Deleted db'.changed.rows := by
    intro hdel
    obtain ⟨r, hr, hrtype⟩ := hdel
    rcases hmem r hr with hold | rfl
    · exact hmeets.1 ⟨r, hold, hrtype⟩
    · rw [htype] at hrtype
      rw [hrtype] at ht
      simp at ht
  refine ⟨⟨?_, ?_, fun hdel => absurd hdel hkept, ?_, ?_⟩, hkept⟩
  · intro r hr
    rcases hmem r hr with hold | rfl
    · exact h.own r hold
    · exact ⟨hsrc, hobj⟩
  · intro r hr
    rcases hmem r hr with hold | rfl
    · exact h.types r hold
    · exact .inr (by rwa [htype])
  · intro _ hcreate
    obtain ⟨r, hr, hrtype⟩ := hcreate
    rcases hmem r hr with hold | rfl
    · exact h.created hmeets.1 ⟨r, hold, hrtype⟩
    · exact hstart (htype.symm.trans hrtype)
  · rw [hrows] at hkept
    rw [hrows, replay_edited h.own ht hmeets hattr hvalue htype hkept, h.replay_eq,
      attributes_wrote hw]

/-- The attribute of a row that is queued as an edit has a value. -/
theorem Replays.shows (h : Replays src obj T₀ db) : Shows db := by
  intro r hr hsent attrib hattr
  obtain ⟨hsrc, hobj⟩ := h.own r hr
  have hedit : r.updateType = .create ∨ r.updateType = .update := by
    rcases h.types r hr with ⟨-, hnull⟩ | hedit
    · rw [hattr] at hnull
      exact absurd hnull (by simp)
    · exact hedit
  have hdeleted : ¬Deleted db.changed.rows := by
    intro hdel
    rw [h.removed hdel r hr hsent] at hedit
    simp at hedit
  have hsome : attributes db.objects src obj attrib ≠ none := by
    rw [← h.replay_eq, replay_apply, if_neg hdeleted]
    intro hnone
    rw [Option.or_eq_none_iff, Option.or_eq_none_iff] at hnone
    rcases hedit with hcreate | hupdate
    · exact lastOf_eq_none_iff.mp hnone.2.1 r hr hcreate hattr
    · exact lastOf_eq_none_iff.mp hnone.1 r hr hupdate hattr
  obtain ⟨value, hvalue⟩ := Option.ne_none_iff_exists'.mp hsome
  obtain ⟨o, ho, hat, -⟩ := attributes_eq_some_iff.mp hvalue
  rw [hsrc, hobj]
  exact ⟨o, ho, hat⟩

/-- The type that an edit takes from a queued row, or brings along. -/
theorem Replays.inherited (h : Replays src obj T₀ db) (hdeleted : ¬Deleted db.changed.rows)
    (p : ChangedValue → Bool) {t : UpdateType} (ht : t = .create ∨ t = .update)
    (hstart : t = .create → T₀ = noAttributes) :
    (((db.changed.rows.find? p).map ChangedValue.updateType).getD t = .create ∨
      ((db.changed.rows.find? p).map ChangedValue.updateType).getD t = .update) ∧
    (((db.changed.rows.find? p).map ChangedValue.updateType).getD t = .create →
      T₀ = noAttributes) := by
  cases hfind : db.changed.rows.find? p with
  | none => exact ⟨ht, hstart⟩
  | some r =>
    have hr := List.mem_of_find?_eq_some hfind
    refine ⟨?_, fun hcreate => h.created hdeleted ⟨r, hr, hcreate⟩⟩
    rcases h.types r hr with ⟨hdelete, -⟩ | hedit
    · exact absurd ⟨r, hr, hdelete⟩ hdeleted
    · exact hedit

end Steps

section Texts

/-- Nothing that the texts of a call contain is the word NULL. -/
def Plain (e : Edit) : Prop := e.named = true ∧ ∀ p ∈ e.pairs, p.2 ≠ "NULL"

instance : DecidablePred Plain := fun e => inferInstanceAs (Decidable (e.named = true ∧ _))

/-- What the call writes for the attribute has no NULL. -/
def PlainPair (obj : Option String) (attrib value : String) : Prop :=
  methodNameReserved attrib = false → named obj attrib = true ∧ value ≠ "NULL"

theorem Plain.save {o : RhomObject} (h : Plain (.save o)) :
    ∀ v ∈ o.vars, PlainPair o.obj v.1 (stripBraces (v.2.getD "")) := by
  intro v hv hreserved
  refine ⟨Edit.named_save h.1 v hv hreserved, h.2 (v.1, _) (List.mem_map.mpr ⟨v, ?_, rfl⟩)⟩
  exact List.mem_filter.mpr ⟨hv, by rw [hreserved]; rfl⟩

theorem Plain.updateAttributes {own : String → Option Sent} {o : RhomObject}
    {attrs : List (String × Option String)} (h : Plain (.updateAttributes own o attrs)) :
    ∀ a ∈ attrs, PlainPair o.obj (attribName a.1) (stripBraces (a.2.getD "")) := by
  intro a ha hreserved
  refine ⟨Edit.named_updateAttributes h.1 a ha hreserved,
    h.2 (attribName a.1, _) (List.mem_map.mpr ⟨a, ?_, rfl⟩)⟩
  exact List.mem_filter.mpr ⟨ha, by rw [hreserved]; rfl⟩

variable {src : Int} {obj : Option String} {attrib value : String}

theorem setValueText_of_ne (h : value ≠ "NULL") (objects : ObjectTable) :
    setValueText objects src obj attrib value = setValue objects src obj attrib value := by
  rw [setValueText, setValue, written_of_ne (by simpa using h)]

theorem saveAttribText_eq {t : UpdateType} {db : Db} {var : String × Option String}
    (h : PlainPair obj var.1 (stripBraces (var.2.getD ""))) :
    saveAttribText src obj t db var = saveAttrib src obj t db var := by
  unfold saveAttribText saveAttrib
  cases hreserved : methodNameReserved var.1 with
  | true => rfl
  | false =>
    obtain ⟨hnamed, hvalue⟩ := h hreserved
    simp only [objectRowText_of_named hnamed, deleteUnsentText_of_named hnamed,
      queuedText_of_named hnamed, shownText_of_named hnamed, setValueText_of_ne hvalue,
      written_of_ne (fun heq => hvalue (Option.some.inj heq))]

/-- update_attributes has something to write for the attribute. -/
def UpdateEditsText (own : String → Option Sent) (vars : List (String × Option String))
    (attr : String × Option String) : Prop :=
  methodNameReserved (attribName attr.1) = false ∧
    ∃ old, oldValue own vars (attribName attr.1) = some old ∧
      isModified old (stripBraces (attr.2.getD "")) = true

theorem updateAttribText_cases {own : String → Option Sent} {st st' : UpdateState}
    {attr : String × Option String}
    (hunique : ∀ o ∈ st.db.objects.rows, ∀ o' ∈ st.db.objects.rows,
      At src obj (attribName attr.1) o → At src obj (attribName attr.1) o' → o = o')
    (hplain : PlainPair obj (attribName attr.1) (stripBraces (attr.2.getD "")))
    (h : updateAttribText own src obj st attr = some st') :
    (¬UpdateEditsText own st.vars attr ∧ st' = st) ∨ UpdateEditsText own st.vars attr ∧
      st'.updateType = updateType src obj st.updateType st.db ∧
      Edited src obj (attribName attr.1) (stripBraces (attr.2.getD ""))
        (updateType src obj st.updateType st.db) st.db st'.db := by
  unfold updateAttribText at h
  simp only at h
  split at h
  · rename_i hreserved
    simp only [Option.some.injEq] at h
    refine .inl ⟨fun hedits => ?_, h.symm⟩
    rw [hedits.1] at hreserved
    exact absurd hreserved (by simp)
  · rename_i hreserved
    have hname : methodNameReserved (attribName attr.1) = false :=
      Bool.eq_false_of_not_eq_true hreserved
    obtain ⟨hnamed, hvalue⟩ := hplain hname
    obtain ⟨old, hold, h⟩ := Option.bind_eq_some_iff.mp h
    simp only [objectRowText_of_named hnamed, deleteUnsentText_of_named hnamed,
      queuedText_of_named hnamed, shownText_of_named hnamed, setValueText_of_ne hvalue,
      written_of_ne (fun heq => hvalue (Option.some.inj heq)),
      if_neg (named_eq_true.mp hnamed).1] at h
    split at h
    · rename_i hmodified
      have hedits : UpdateEditsText own st.vars attr := ⟨hname, old, hold, hmodified⟩
      split at h
      · rename_i row hrow
        obtain ⟨objects, hobjects, rfl⟩ := Option.map_eq_some_iff.mp h
        obtain ⟨hmem, hat⟩ := objectRow_some hrow
        refine .inr ⟨hedits, rfl, ⟨none, row.id, ?_, rfl⟩⟩
        exact setValue_wrote hrow (fun o ho hcell => hunique o ho row hmem hcell hat) hobjects
      · rename_i hrow
        obtain ⟨objects, hobjects, rfl⟩ := Option.map_eq_some_iff.mp h
        exact .inr ⟨hedits, rfl, ⟨none, _, insert_wrote (objectRow_eq_none hrow) hobjects, rfl⟩⟩
    · rename_i hmodified
      simp only [Option.some.injEq] at h
      refine .inl ⟨fun hedits => ?_, h.symm⟩
      obtain ⟨-, old', hold', hmodified'⟩ := hedits
      rw [hold, Option.some.injEq] at hold'
      exact hmodified (hold' ▸ hmodified')

/-- The step of a call is its transaction. -/
theorem edit_step {e : Edit} {w w' : World} (h : uiStep (.edit e) w = some w') :
    transaction e.run w = some w' := by
  cases hf : (UIAction.edit e).transaction with
  | none => simp [uiStep, hf] at h
  | some f =>
    obtain ⟨-, rfl⟩ := edit_transaction hf
    rwa [uiStep_transaction hf] at h

end Texts

/-- The type of the rows of a save. -/
def callType (objects : ObjectTable) (src : Int) (obj : String) : UpdateType :=
  if objects.rows.any (fun r => SqlEq r.object (some obj) ∧ r.sourceId = src) then .update
  else .create

/-- The calls are on one object, whose source is not of type ask. -/
def OnObject (src : Int) (obj : String) : Act → Prop
  | .ui (.edit e) =>
      e.object.sourceId = src ∧ e.object.obj = some obj ∧ e.object.askSource = false
  | .makePushBody _ _ => True
  | _ => False

/-- A destroy that finds an unsent create row finds no row that was sent. -/
def DestroyMeets (obj : String) (rows : List ChangedValue) : Prop :=
  (∃ r ∈ rows, r.object = some obj ∧ r.updateType = .create ∧ r.sent = 0) → ∀ r ∈ rows, r.sent = 0

/-- What a call has to meet: its texts are plain, and each attribute that it writes meets the
condition on the rows queued before it. -/
def CallMeets (src : Int) (obj : String) (w : World) : Edit → Prop
  | .save o =>
      LoopMeets (saveAttribText src (some obj) (callType w.objects src obj))
        (fun db var => SaveEdits src (some obj) db var →
          EditMeets db.changed.rows var.1 (stripBraces (var.2.getD ""))
            (saveType src (some obj) (callType w.objects src obj) db var.1))
        ⟨w.changed, w.objects, w.tempId⟩ o.vars
  | .updateAttributes own o attrs =>
      LoopMeets (updateAttribText own src (some obj))
        (fun st attr => UpdateEditsText own st.vars attr →
          EditMeets st.db.changed.rows (attribName attr.1) (stripBraces (attr.2.getD ""))
            (updateType src (some obj) st.updateType st.db))
        ⟨⟨w.changed, w.objects, w.tempId⟩, o.vars, .update⟩ attrs
  | .destroy _ => DestroyMeets obj w.changed.rows

def Meets (src : Int) (obj : String) (a : Act) (w : World) : Prop :=
  OnObject src obj a ∧ match a with
  | .ui (.edit e) => Plain e ∧ CallMeets src obj w e
  | _ => True

section Transactions

variable {src : Int} {obj : String} {T₀ : Attributes} {w : World} {db db' : Db}

theorem callType_create (h : Replays src obj T₀ db) (hdeleted : ¬Deleted db.changed.rows)
    (hcreate : callType db.objects src obj = .create) : T₀ = noAttributes := by
  refine h.start_eq hdeleted (attributes_eq_noAttributes ?_)
  intro o ho hobj hsrc
  have hany : db.objects.rows.any
      (fun r => SqlEq r.object (some obj) ∧ r.sourceId = src) = true := by
    refine List.any_eq_true.mpr ⟨o, ho, decide_eq_true ⟨⟨?_, hobj⟩, hsrc⟩⟩
    rw [hobj, Option.isSome_some]
  rw [callType, if_pos hany] at hcreate
  exact absurd hcreate (by simp)

theorem callType_cases (objects : ObjectTable) :
    callType objects src obj = .create ∨ callType objects src obj = .update := by
  unfold callType
  split
  · exact .inr rfl
  · exact .inl rfl

theorem save_replays {o : RhomObject} (hmeets : Meets src obj (.ui (.edit (.save o))) w)
    (h : Replays src obj T₀ ⟨w.changed, w.objects, w.tempId⟩)
    (hsave : saveText o ⟨w.changed, w.objects, w.tempId⟩ = some db') : Replays src obj T₀ db' := by
  obtain ⟨⟨hsrc, hobj, hask⟩, hplain, hloop⟩ := hmeets
  have hpairs := hplain.save
  simp only [Edit.object] at hsrc hobj hask
  rw [hobj] at hpairs
  have hfold : o.vars.foldlM (saveAttribText src (some obj) (callType w.objects src obj))
      ⟨w.changed, w.objects, w.tempId⟩ = some db' := by
    rw [← hsave, saveText, hsrc, hobj, hask]
    rfl
  -- the type of the call is create only where the object was not there at the start
  have hkeeps := LoopMeets.keeps (P := fun db : Db => Replays src obj T₀ db ∧
    (¬Deleted db.changed.rows → callType w.objects src obj = .create → T₀ = noAttributes))
    ?_ hloop ⟨h, fun hdeleted hcreate => callType_create h hdeleted hcreate⟩ hfold
  · exact hkeeps.1
  · intro db var db' hvar hdb hok hstep
    rw [saveAttribText_eq (hpairs var hvar)] at hstep
    rcases saveAttrib_cases hdb.1.shows (fun o ho o' ho' => eq_of_at ho ho') hstep with
      ⟨-, rfl⟩ | ⟨hedits, hedit⟩
    · exact hdb
    · have hmeets := hok hedits
      obtain ⟨ht, hstart⟩ := hdb.1.inherited hmeets.1
        (fun r => decide (Unsent src (some obj) var.1 r)) (callType_cases w.objects)
          (hdb.2 hmeets.1)
      exact ⟨(hdb.1.edited ht hstart hmeets hedit).1, fun _ => hdb.2 hmeets.1⟩

theorem updateAttributes_replays {own : String → Option Sent} {o : RhomObject}
    {attrs : List (String × Option String)}
    (hmeets : Meets src obj (.ui (.edit (.updateAttributes own o attrs))) w)
    (h : Replays src obj T₀ ⟨w.changed, w.objects, w.tempId⟩)
    (hupdate : updateAttributesText own o attrs ⟨w.changed, w.objects, w.tempId⟩ = some db') :
    Replays src obj T₀ db' := by
  obtain ⟨⟨hsrc, hobj, hask⟩, hplain, hloop⟩ := hmeets
  have hpairs := hplain.updateAttributes
  simp only [Edit.object] at hsrc hobj hask
  rw [hobj] at hpairs
  obtain ⟨st, hst, rfl⟩ := Option.map_eq_some_iff.mp hupdate
  rw [hsrc, hobj, hask] at hst
  have hkeeps := LoopMeets.keeps (P := fun st : UpdateState => Replays src obj T₀ st.db ∧
    (st.updateType = .create ∨ st.updateType = .update) ∧
    (¬Deleted st.db.changed.rows → st.updateType = .create → T₀ = noAttributes))
    ?_ hloop ⟨h, .inr rfl, fun _ hcreate => absurd hcreate (by simp)⟩ hst
  · exact hkeeps.1
  · intro st attr st' hattr hst hok hstep
    obtain ⟨hdb, htype, hcreated⟩ := hst
    rcases updateAttribText_cases (fun o ho o' ho' => eq_of_at ho ho') (hpairs attr hattr)
      hstep with
      ⟨-, rfl⟩ | ⟨hedits, hnext, hedit⟩
    · exact ⟨hdb, htype, hcreated⟩
    · have hmeets := hok hedits
      obtain ⟨ht, hstart⟩ := hdb.inherited hmeets.1
        (fun r => decide (r.object = some obj ∧ r.sourceId = src ∧ r.sent = 0)) htype
        (hcreated hmeets.1)
      refine ⟨(hdb.edited ht hstart hmeets hedit).1, ?_, ?_⟩
      · rw [hnext]
        exact ht
      · intro _ hcreate
        rw [hnext] at hcreate
        exact hstart hcreate

theorem attributes_destroyed (objects : ObjectTable) :
    attributes (objects.delete (fun r => r.object = some obj)) src obj = noAttributes := by
  refine attributes_eq_noAttributes ?_
  intro o ho hobj
  exact absurd hobj ((ObjectTable.mem_delete _ _ _).mp ho).2

/-- The two outcomes of destroy: the object was never pushed, or its removal is queued. -/
theorem destroy_cases {o : RhomObject} (hobj : o.obj = some obj) (hask : o.askSource = false)
    (h : destroy o db = some db') :
    db'.objects = db.objects.delete (fun r => r.object = some obj) ∧
    ((∃ r ∈ db.changed.rows, r.object = some obj ∧ r.updateType = .create ∧ r.sent = 0) ∧
        db'.changed = db.changed.delete (fun r => r.object = some obj ∧ r.sent = 0) ∨
      (¬∃ r ∈ db.changed.rows, r.object = some obj ∧ r.updateType = .create ∧ r.sent = 0) ∧
        db'.changed = (db.changed.delete (fun r => r.object = some obj ∧ r.sent = 0)).insert
          (queued o.sourceId (some obj) none none none .delete 0)) := by
  unfold destroy at h
  rw [hobj, hask] at h
  by_cases hcreate : db.changed.rows.any
      (fun r => r.object = some obj ∧ r.updateType = .create ∧ r.sent = 0) = true
  · simp only [hcreate, if_true, Option.some.injEq] at h
    rw [← h]
    refine ⟨rfl, .inl ⟨?_, rfl⟩⟩
    simpa using hcreate
  · simp only [hcreate, Bool.false_eq_true, if_false, getUpdateTypeBySource, Bool.false_and,
      Option.some.injEq] at h
    rw [← h]
    refine ⟨rfl, .inr ⟨?_, rfl⟩⟩
    simpa using hcreate

theorem destroy_returns (o : RhomObject) (db : Db) : ∃ db', destroy o db = some db' := by
  unfold destroy
  split
  · exact ⟨_, rfl⟩
  · simp only
    split
    · exact ⟨_, rfl⟩
    · exact ⟨_, rfl⟩

/-- Where all rows of the object are unsent, destroy takes them all. -/
theorem delete_unsent_rows (hown : ∀ r ∈ db.changed.rows, r.sourceId = src ∧ r.object = some obj)
    (hunsent : ∀ r ∈ db.changed.rows, r.sent = 0) :
    (db.changed.delete (fun r => r.object = some obj ∧ r.sent = 0)).rows = [] := by
  rw [ChangedTable.delete_rows, List.filter_eq_nil_iff]
  intro r hr
  simp [(hown r hr).2, hunsent r hr]

/-- The object was never pushed: its rows go, and there was nothing at the start. -/
theorem Replays.unqueued (h : Replays src obj T₀ db)
    (hcreate : ∃ r ∈ db.changed.rows, r.object = some obj ∧ r.updateType = .create ∧ r.sent = 0)
    (hnil : db'.changed.rows = []) (hnone : attributes db'.objects src obj = noAttributes) :
    Replays src obj T₀ db' := by
  obtain ⟨r, hr, -, hrtype, hrsent⟩ := hcreate
  have hdeleted : ¬Deleted db.changed.rows := by
    intro hdel
    have hremoved : r.updateType = .delete := h.removed hdel r hr hrsent
    rw [hrtype] at hremoved
    exact absurd hremoved (by simp)
  have hstart := h.created hdeleted ⟨r, hr, hrtype⟩
  refine ⟨?_, ?_, ?_, fun _ _ => hstart, ?_⟩
  · rw [hnil]
    exact fun r hr => absurd hr List.not_mem_nil
  · rw [hnil]
    exact fun r hr => absurd hr List.not_mem_nil
  · rw [hnil]
    exact fun _ r hr => absurd hr List.not_mem_nil
  · rw [hnil, hnone, hstart]
    rfl

/-- The removal is queued, and nothing unsent stays beside it. -/
theorem Replays.removal (h : Replays src obj T₀ db)
    (hchanged : db'.changed = (db.changed.delete (fun r => r.object = some obj ∧ r.sent = 0)).insert
      (queued src (some obj) none none none .delete 0))
    (hnone : attributes db'.objects src obj = noAttributes) : Replays src obj T₀ db' := by
  have hmem : ∀ r ∈ db'.changed.rows, (r ∈ db.changed.rows ∧ r.sent ≠ 0) ∨
      r.sourceId = src ∧ r.object = some obj ∧ r.updateType = .delete ∧ r.attrib = none := by
    intro r hr
    rw [hchanged] at hr
    rcases (ChangedTable.mem_insert _ _ _).mp hr with hr | rfl
    · obtain ⟨hold, hnot⟩ := (ChangedTable.mem_delete _ _ _).mp hr
      exact .inl ⟨hold, fun hrsent => hnot ⟨(h.own r hold).2, hrsent⟩⟩
    · exact .inr ⟨rfl, rfl, rfl, rfl⟩
  have hdeleted : Deleted db'.changed.rows := by
    rw [hchanged]
    exact ⟨_, (ChangedTable.mem_insert _ _ _).mpr (.inr rfl), rfl⟩
  refine ⟨?_, ?_, ?_, fun hnot => absurd hdeleted hnot, ?_⟩
  · intro r hr
    rcases hmem r hr with ⟨hold, -⟩ | ⟨hrsrc, hrobj, -⟩
    · exact h.own r hold
    · exact ⟨hrsrc, hrobj⟩
  · intro r hr
    rcases hmem r hr with ⟨hold, -⟩ | ⟨-, -, hrtype, hrattr⟩
    · exact h.types r hold
    · exact .inl ⟨hrtype, hrattr⟩
  · intro _ r hr hrsent
    rcases hmem r hr with ⟨-, hne⟩ | ⟨-, -, hrtype, -⟩
    · exact absurd hrsent hne
    · exact hrtype
  · rw [hnone]
    funext attrib
    rw [replay_apply, if_pos hdeleted, noAttributes]

theorem destroyText_of_plain {o : RhomObject} (h : Plain (.destroy o)) :
    destroyText o db = destroy o db := if_neg (Edit.object_ne_of_named h.1)

theorem destroy_replays {o : RhomObject} (hmeets : Meets src obj (.ui (.edit (.destroy o))) w)
    (h : Replays src obj T₀ ⟨w.changed, w.objects, w.tempId⟩)
    (hdestroy : destroyText o ⟨w.changed, w.objects, w.tempId⟩ = some db') :
      Replays src obj T₀ db' := by
  obtain ⟨⟨hsrc, hobj, hask⟩, hplain, hsent⟩ := hmeets
  simp only [Edit.object] at hsrc hobj hask
  subst hsrc
  rw [destroyText_of_plain hplain] at hdestroy
  obtain ⟨hobjects, hcases⟩ := destroy_cases hobj hask hdestroy
  have hnone : attributes db'.objects o.sourceId obj = noAttributes := by
    rw [hobjects]
    exact attributes_destroyed _
  rcases hcases with ⟨hcreate, hchanged⟩ | ⟨-, hchanged⟩
  · have hnil : db'.changed.rows = [] := by
      rw [hchanged]
      exact delete_unsent_rows h.own (hsent hcreate)
    exact h.unqueued hcreate hnil hnone
  · exact h.removal hchanged hnone

/-- A body moves rows to sent=1 and leaves all else of them. -/
theorem makePushBody_replays (src' : Int) (t : UpdateType)
    (h : Replays src obj T₀ ⟨w.changed, w.objects, w.tempId⟩) :
    Replays src obj T₀ ⟨(step (.makePushBody src' t) w).changed,
      (step (.makePushBody src' t) w).objects, (step (.makePushBody src' t) w).tempId⟩ := by
  have hrow : ∀ r ∈ (step (.makePushBody src' t) w).changed.rows, ∃ s ∈ w.changed.rows,
      r.sourceId = s.sourceId ∧ r.object = s.object ∧ r.attrib = s.attrib ∧
      r.updateType = s.updateType ∧ (r.sent = 0 → s.sent = 0) := by
    intro r hr
    rw [makePushBody_changed] at hr
    obtain ⟨s, hs, ⟨-, rfl⟩ | ⟨-, rfl⟩⟩ := ChangedTable.mem_setSent hr
    · exact ⟨r, hs, rfl, rfl, rfl, rfl, fun hsent => hsent⟩
    · exact ⟨s, hs, rfl, rfl, rfl, rfl, fun hsent => absurd hsent (by simp)⟩
  have hreplay : replay (step (.makePushBody src' t) w).changed.rows T₀ =
      replay w.changed.rows T₀ := by
    rw [makePushBody_changed, ChangedTable.update_rows]
    refine replay_map ?_ ?_ ?_
    all_goals
      intro r
      unfold ChangedTable.Assign.on
      split <;> rfl
  have hdeleted : Deleted (step (.makePushBody src' t) w).changed.rows ↔
    Deleted w.changed.rows := by
    constructor
    · intro hdel
      obtain ⟨r, hr, hrtype⟩ := hdel
      obtain ⟨s, hs, -, -, -, htype, -⟩ := hrow r hr
      exact ⟨s, hs, htype.symm.trans hrtype⟩
    · intro hdel
      obtain ⟨s, hs, hstype⟩ := hdel
      rw [makePushBody_changed, ChangedTable.update_rows]
      refine ⟨_, List.mem_map_of_mem hs, ?_⟩
      rw [← hstype]
      unfold ChangedTable.Assign.on
      split <;> rfl
  refine ⟨?_, ?_, ?_, ?_, hreplay.trans h.replay_eq⟩
  · intro r hr
    obtain ⟨s, hs, hsrc, hobj, -⟩ := hrow r hr
    rw [hsrc, hobj]
    exact h.own s hs
  · intro r hr
    obtain ⟨s, hs, -, -, hattr, htype, -⟩ := hrow r hr
    rw [EditOrRemoval, hattr, htype]
    exact h.types s hs
  · intro hdel r hr hsent
    obtain ⟨s, hs, -, -, -, htype, hssent⟩ := hrow r hr
    rw [htype]
    exact h.removed (hdeleted.mp hdel) s hs (hssent hsent)
  · intro hdel hcreate
    obtain ⟨r, hr, hrtype⟩ := hcreate
    obtain ⟨s, hs, -, -, -, htype, -⟩ := hrow r hr
    exact h.created (fun hd => hdel (hdeleted.mpr hd)) ⟨s, hs, htype.symm.trans hrtype⟩

end Transactions

section Runs

variable {src : Int} {obj : String} {T₀ : Attributes} {w w' : World}

theorem act_replays {a : Act} (hmeets : Meets src obj a w) (hstep : a.step w = some w')
    (h : Replays src obj T₀ ⟨w.changed, w.objects, w.tempId⟩) :
    Replays src obj T₀ ⟨w'.changed, w'.objects, w'.tempId⟩ := by
  have htransaction : ∀ f : Db → Option Db, transaction f w = some w' →
      (∀ db', f ⟨w.changed, w.objects, w.tempId⟩ = some db' → Replays src obj T₀ db') →
      Replays src obj T₀ ⟨w'.changed, w'.objects, w'.tempId⟩ := by
    intro f hf hkeeps
    obtain ⟨-, rfl | ⟨db, hdb, rfl⟩⟩ := transaction_cases hf
    · exact h
    · exact hkeeps db hdb
  cases a with
  | makePushBody src' t =>
    simp only [Act.step, Option.some.injEq] at hstep
    rw [← hstep]
    exact makePushBody_replays src' t h
  | ui u =>
    cases u with
    | edit e =>
      refine htransaction _ (edit_step hstep) (fun db' hrun => ?_)
      cases e with
      | save o => exact save_replays hmeets h hrun
      | updateAttributes own o attrs => exact updateAttributes_replays hmeets h hrun
      | destroy o => exact destroy_replays hmeets h hrun
    | save o => exact absurd hmeets.1 (by simp [OnObject])
    | updateAttributes o attrs => exact absurd hmeets.1 (by simp [OnObject])
    | destroy o => exact absurd hmeets.1 (by simp [OnObject])
    | deleteAll src conditions => exact absurd hmeets.1 (by simp [OnObject])
    | ask src object question => exact absurd hmeets.1 (by simp [OnObject])
    | stopSync => exact absurd hmeets.1 (by simp [OnObject])
    | stopSyncByUser => exact absurd hmeets.1 (by simp [OnObject])
    | exitSync => exact absurd hmeets.1 (by simp [OnObject])
    | setUnlockDB b => exact absurd hmeets.1 (by simp [OnObject])

theorem run_replays (hempty : w.changed.rows = []) (hrun : Reaches (Meets src obj) w w') :
    Replays src obj (attributes w.objects src obj) ⟨w'.changed, w'.objects, w'.tempId⟩ := by
  induction hrun with
  | refl =>
    refine ⟨?_, ?_, ?_, ?_, ?_⟩
    · exact fun r hr => absurd hr (by simp [hempty])
    · exact fun r hr => absurd hr (by simp [hempty])
    · exact fun _ r hr => absurd hr (by simp [hempty])
    · intro _ hcreate
      obtain ⟨r, hr, -⟩ := hcreate
      exact absurd hr (by simp [hempty])
    · rw [hempty]
      rfl
  | tail _ hstep ih =>
    obtain ⟨a, hmeets, ha⟩ := hstep
    exact act_replays hmeets ha ih

/-- The queue gives the attributes of the object, and no edit is queued as a removal. -/
structure Reproduced (src : Int) (obj : String) (w w' : World) : Prop where
  attributes_eq : replay w'.changed.rows (attributes w.objects src obj) =
    attributes w'.objects src obj
  edit : ∀ r ∈ w'.changed.rows, r.updateType = .delete → r.attrib = none

/-- In every run of calls on one object whose steps meet the condition, the queue reproduces the
edits, and an object that is destroyed before its create row was sent leaves no row. -/
theorem queue_reproduces_edits (hempty : w.changed.rows = [])
    (hrun : Reaches (Meets src obj) w w') :
    Reproduced src obj w w' ∧ ∀ o w'', Meets src obj (.ui (.edit (.destroy o))) w' →
      (Act.ui (.edit (.destroy o))).step w' = some w'' →
      (∃ r ∈ w'.changed.rows, r.updateType = .create ∧ r.sent = 0) → w''.changed.rows = [] := by
  have h := run_replays hempty hrun
  refine ⟨⟨h.replay_eq, ?_⟩, ?_⟩
  · intro r hr hdelete
    rcases h.types r hr with ⟨-, hnull⟩ | hedit
    · exact hnull
    · rw [hdelete] at hedit
      simp at hedit
  · intro o w'' hmeets hstep hcreate
    obtain ⟨⟨-, hobj, hask⟩, hplain, hsent⟩ := hmeets
    simp only [Edit.object] at hobj hask
    obtain ⟨r, hr, hrtype, hrsent⟩ := hcreate
    have hex : ∃ r ∈ w'.changed.rows, r.object = some obj ∧ r.updateType = .create ∧ r.sent = 0 :=
      ⟨r, hr, (h.own r hr).2, hrtype, hrsent⟩
    obtain ⟨db, hdb⟩ := destroy_returns o ⟨w'.changed, w'.objects, w'.tempId⟩
    have hrows : w''.changed = db.changed := by
      have htransaction : transaction (destroyText o) w' = some w'' := edit_step hstep
      unfold transaction at htransaction
      rw [destroyText_of_plain hplain, hdb] at htransaction
      split at htransaction
      · exact absurd htransaction (by simp)
      · simp only [Option.some.injEq] at htransaction
        rw [← htransaction]
    obtain ⟨-, ⟨-, hchanged⟩ | ⟨hnone, -⟩⟩ := destroy_cases hobj hask hdb
    · rw [hrows, hchanged]
      exact delete_unsent_rows h.own (hsent hex)
    · exact absurd hex hnone

/-- A new contact is saved. -/
def saveContact : Edit := .save (contact [("name", some "A")])

theorem save_contact_meets : Meets 7 "x" (.ui (.edit saveContact)) noRows := by
  refine ⟨⟨rfl, by decide +kernel, rfl⟩, by decide +kernel, ?_⟩
  have hreserved : saveAttribText 7 (some "x") (callType noRows.objects 7 "x")
      ⟨noRows.changed, noRows.objects, noRows.tempId⟩ ("object", some "x") =
      some ⟨noRows.changed, noRows.objects, noRows.tempId⟩ := by
    unfold saveAttribText
    rw [if_pos (by decide)]
  refine ⟨fun hedits => absurd hedits.1 (by decide), ?_⟩
  intro db' hdb'
  rw [hreserved, Option.some.injEq] at hdb'
  subst hdb'
  refine ⟨fun _ => ⟨by decide, ?_⟩, fun _ _ => trivial⟩
  intro _ v hv
  cases hv

theorem queue_reproduces_edits_contact : ∃ w', Reproduced 7 "x" noRows w' ∧
    attributes w'.objects 7 "x" "name" = some (some "A") := by
  obtain ⟨w', hw'⟩ : ∃ w', (Act.ui (.edit saveContact)).step noRows = some w' :=
    Option.isSome_iff_exists.mp (by decide +kernel)
  have hname : ((Act.ui (.edit saveContact)).step noRows).map
      (fun w => attributes w.objects 7 "x" "name") = some (some (some "A")) := by decide +kernel
  rw [hw', Option.map_some, Option.some.injEq] at hname
  exact ⟨w', (queue_reproduces_edits rfl (.single ⟨_, save_contact_meets, hw'⟩)).1, hname⟩

/-- A contact that the server knows. -/
def oneContact : World :=
  World.start .empty ⟨[⟨1, 7, some "name", some "x", some "A", none⟩], List.pairwise_singleton _ _⟩
    ⟨[], List.nodup_nil⟩ (fun _ => ⟨true, true, none⟩)

/-- The contact is destroyed, and an instance that was read before is edited. -/
def staleEdit : List Act :=
  [.ui (.edit (.destroy (contact []))),
   .ui (.edit (.updateAttributes (fun _ => none) (contact [("name", some "A")])
     [("name", some "B")]))]

theorem stale_edit_queued_as_delete : oneContact.changed.rows = [] ∧
    ∃ w', Reaches (fun a _ => OnObject 7 "x" a) oneContact w' ∧
      (∃ r ∈ w'.changed.rows, r.updateType = .delete ∧ r.attrib = some "name") ∧
      replay w'.changed.rows (attributes oneContact.objects 7 "x") ≠
        attributes w'.objects 7 "x" := by
  refine ⟨rfl, ?_⟩
  have hqueued : (runActs staleEdit oneContact).any (fun w => decide (
      (∃ r ∈ w.changed.rows, r.updateType = .delete ∧ r.attrib = some "name") ∧
      replay w.changed.rows (attributes oneContact.objects 7 "x") "name" ≠
        attributes w.objects 7 "x" "name")) = true := by
    decide +kernel
  obtain ⟨w', hw', hdecide⟩ := (Option.any_eq_true _ _).mp hqueued
  obtain ⟨hdelete, hne⟩ := of_decide_eq_true hdecide
  refine ⟨w', reaches_of_runActs ?_ hw', hdelete, fun heq => hne (congrFun heq "name")⟩
  intro a ha x
  simp only [staleEdit, List.mem_cons, List.not_mem_nil, or_false] at ha
  rcases ha with rfl | rfl
  · exact ⟨rfl, by decide +kernel, rfl⟩
  · exact ⟨rfl, by decide +kernel, rfl⟩

end Runs

end Rhodes.QueueReplay
