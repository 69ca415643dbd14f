import Rhodes.Upsert

/-!
The rename of an object from its local to its server id. object_values and changed_values are
renamed by two statements, and the ids are set by one more for each attribute. The UPDATE of
object_values fails as a whole where a row of the new object has an attribute of the old one, or
where an id is taken, and nobody asks whether it has; the UPDATE of changed_values never fails.
-/
namespace Rhodes.RenameObjects

open Database Json Statements Interleaving Source ServerChanges Rhom Threads PageEdits PageMerge

/-- The attribute and the id of an entry. -/
abbrev Attr := String × Int64

def attrOf (entry : JsonObject) : Attr := (entry.getStr "a", (entry.getUInt64 "i").toInt64)

section Tables

variable (src : Int) (old new : String)

/-- A row of the object. -/
def Of (object : String) (o : Option String) (s : Int) : Prop := o = some object ∧ s = src

/-- A row of the attribute of the new object. -/
def Here (attrib : String) (o a : Option String) (s : Int) : Prop :=
  AtKey src (some new) (some attrib) o a s

instance (object : String) (o : Option String) (s : Int) : Decidable (Of src object o s) :=
  inferInstanceAs (Decidable (_ ∧ _))

instance (attrib : String) (o a : Option String) (s : Int) :
    Decidable (Here src new attrib o a s) :=
  inferInstanceAs (Decidable (AtKey _ _ _ _ _ _))

def renameRows (T : ObjectTable) : ObjectTable :=
  (T.update (fun r => SqlEq r.object (some old) ∧ r.sourceId = src)
    (fun r => { r with object := some new })).getD T

def renamePending (C : ChangedTable) : ChangedTable :=
  C.update (fun r => SqlEq r.object (some old) ∧ r.sourceId = src)
    (ChangedTable.setObject (some new))

def setId (T : ObjectTable) (attr : Attr) : ObjectTable :=
  (T.update (fun r => Here src new attr.1 r.object r.attrib r.sourceId)
    (fun r => { r with id := attr.2 })).getD T

def bindPending (C : ChangedTable) (attr : Attr) : ChangedTable :=
  (C.update (fun r => Here src new attr.1 r.object r.attrib r.sourceId ∧ r.sent ≤ 1)
    (ChangedTable.setMainId attr.2)).update
    (fun r => Here src new attr.1 r.object r.attrib r.sourceId ∧ r.sent > 1)
    (ChangedTable.setSent 4)

/-- The tables after all statements of an object. -/
def finalObjects (attrs : List Attr) (T : ObjectTable) : ObjectTable :=
  attrs.foldl (setId src new) (renameRows src old new T)

def finalChanged (attrs : List Attr) (C : ChangedTable) : ChangedTable :=
  attrs.foldl (bindPending src new) (renamePending src old new C)

/-- The object is renamed as a whole: nothing is left under the old object, no row is lost, and the
last entry of each attribute has given its id to the row and to the pending rows. -/
structure Renamed (attrs : List Attr) (C C' : ChangedTable) (T T' : ObjectTable) : Prop where
  objects : ∀ r ∈ T'.rows, ¬Of src old r.object r.sourceId
  changed : ∀ r ∈ C'.rows, ¬Of src old r.object r.sourceId
  keptObjects : T'.rows.map (fun r => { r with id := 0, object := none }) =
    T.rows.map (fun r => { r with id := 0, object := none })
  keptChanged : C'.rows.map (fun r => { r with sent := 0, mainId := 0, object := none }) =
    C.rows.map (fun r => { r with sent := 0, mainId := 0, object := none })
  ids : ∀ done attr rest, attrs = done ++ attr :: rest → attr.1 ∉ rest.map Prod.fst →
    ∀ r ∈ T'.rows, Here src new attr.1 r.object r.attrib r.sourceId → r.id = attr.2
  pending : ∀ done attr rest, attrs = done ++ attr :: rest → attr.1 ∉ rest.map Prod.fst →
    ∀ r ∈ C'.rows, Here src new attr.1 r.object r.attrib r.sourceId → r.sent ≤ 1 →
      r.mainId = attr.2

/-- The new object differs from the old one and shares no attribute with it. -/
def RenameFree (T : ObjectTable) : Prop :=
  ∀ r ∈ T.rows, Of src old r.object r.sourceId → old ≠ new ∧
    ∀ r' ∈ T.rows, Of src new r'.object r'.sourceId → ¬SqlEq r.attrib r'.attrib

instance (T : ObjectTable) : Decidable (RenameFree src old new T) :=
  inferInstanceAs (Decidable (∀ r ∈ T.rows, _))

/-- Pending rows of the old object are renamed to another one. -/
def PendingFree (C : ChangedTable) : Prop :=
  ∀ r ∈ C.rows, Of src old r.object r.sourceId → old ≠ new

instance (C : ChangedTable) : Decidable (PendingFree src old new C) :=
  inferInstanceAs (Decidable (∀ r ∈ C.rows, _))

/-- The attribute has a row, and a row that is not its own has the id. -/
def IdTaken (T : ObjectTable) (attr : Attr) : Prop :=
  (∃ r ∈ T.rows, Here src new attr.1 r.object r.attrib r.sourceId) ∧
    ∃ r ∈ T.rows, ¬Here src new attr.1 r.object r.attrib r.sourceId ∧ r.id = attr.2

instance (T : ObjectTable) (attr : Attr) : Decidable (IdTaken src new T attr) :=
  inferInstanceAs (Decidable (_ ∧ _))

/-- No id is taken when the last entry of its attribute is handled. -/
def IdsFree (attrs : List Attr) (T : ObjectTable) : Prop :=
  ∀ done attr rest, attrs = done ++ attr :: rest → attr.1 ∉ rest.map Prod.fst →
    ¬IdTaken src new (done.foldl (setId src new) T) attr

end Tables

section Rows

variable {src : Int} {old new : String}

theorem here_of {attrib : String} {o a : Option String} {s : Int} (h : Here src new attrib o a s) :
    o = some new ∧ a = some attrib ∧ s = src := ⟨h.1.2, h.2.1.2, h.2.2⟩

theorem sqlEq_some {o : Option String} {s : String} : SqlEq o (some s) ↔ o = some s := by
  constructor
  · exact fun h => h.2
  · rintro rfl
    exact ⟨rfl, rfl⟩

/-- An UPDATE that fails leaves the rows, and one that does not changes each on its own. -/
theorem setId_rows (T : ObjectTable) (attr : Attr) :
    (setId src new T attr).rows = T.rows ∨ (setId src new T attr).rows =
      T.rows.map (fun r => if Here src new attr.1 r.object r.attrib r.sourceId then
        { r with id := attr.2 } else r) := by
  unfold setId ObjectTable.update
  split
  · exact Or.inr rfl
  · exact Or.inl rfl

/-- What holds of the rows apart from their ids holds still. -/
theorem forall_setId {P : ObjectValue → Prop}
    (hP : ∀ (r : ObjectValue) id, P { r with id := id } ↔ P r)
    (T : ObjectTable) (attr : Attr) :
    (∀ r ∈ (setId src new T attr).rows, P r) ↔ ∀ r ∈ T.rows, P r := by
  rcases setId_rows T attr with hrows | hrows
  · rw [hrows]
  · rw [hrows, List.forall_mem_map]
    refine forall₂_congr (fun r _ => ?_)
    split
    · exact hP r attr.2
    · exact Iff.rfl

/-- The rows of another attribute are not touched. -/
theorem mem_setId_of_ne {T : ObjectTable} {attr : Attr} {a : String} (hne : attr.1 ≠ a)
    {r : ObjectValue} (hr : Here src new a r.object r.attrib r.sourceId) :
    r ∈ (setId src new T attr).rows ↔ r ∈ T.rows := by
  have hother : ¬Here src new attr.1 r.object r.attrib r.sourceId := by
    intro h
    have hsame := (here_of h).2.1.symm.trans (here_of hr).2.1
    exact hne (Option.some.inj hsame)
  rcases setId_rows T attr with hrows | hrows
  · rw [hrows]
  · rw [hrows, List.mem_map]
    constructor
    · rintro ⟨s, hs, rfl⟩
      by_cases hhere : Here src new attr.1 s.object s.attrib s.sourceId
      · rw [if_pos hhere] at hother
        exact absurd hhere hother
      · rw [if_neg hhere]
        exact hs
    · exact fun h => ⟨r, h, if_neg hother⟩

theorem mem_foldl_setId {attrs : List Attr} {a : String} (hne : a ∉ attrs.map Prod.fst)
    {T : ObjectTable} {r : ObjectValue} (hr : Here src new a r.object r.attrib r.sourceId) :
    r ∈ (attrs.foldl (setId src new) T).rows ↔ r ∈ T.rows := by
  induction attrs generalizing T with
  | nil => exact Iff.rfl
  | cons attr attrs ih =>
    simp only [List.map_cons, List.mem_cons, not_or] at hne
    rw [List.foldl_cons, ih hne.2, mem_setId_of_ne (fun h => hne.1 h.symm) hr]

/-- Two rows of one attribute are one row. -/
theorem eq_of_here {T : ObjectTable} {a : String} {r r' : ObjectValue} (hr : r ∈ T.rows)
    (hr' : r' ∈ T.rows) (h : Here src new a r.object r.attrib r.sourceId)
    (h' : Here src new a r'.object r'.attrib r'.sourceId) : r = r' :=
  Cells.eq_of_at hr hr' (here_of h) (here_of h')

/-- An id that is not taken can be given. -/
theorem setId_rows_of_free {T : ObjectTable} {attr : Attr}
    (hfree : ∀ r ∈ T.rows, ¬Here src new attr.1 r.object r.attrib r.sourceId → r.id ≠ attr.2) :
    (setId src new T attr).rows = T.rows.map (fun r =>
      if Here src new attr.1 r.object r.attrib r.sourceId then { r with id := attr.2 } else r) := by
  have hunique : (T.rows.map (fun r => if Here src new attr.1 r.object r.attrib r.sourceId then
      { r with id := attr.2 } else r)).Pairwise (fun r s => ¬Conflict r s) := by
    refine List.pairwise_map.mpr (T.keys.imp_of_mem ?_)
    intro r s hr hs hapart
    obtain ⟨hid, hkey⟩ := not_or.mp hapart
    by_cases hr' : Here src new attr.1 r.object r.attrib r.sourceId <;>
      by_cases hs' : Here src new attr.1 s.object s.attrib s.sourceId
    · exact absurd (eq_of_here hr hs hr' hs') (fun h => hid (by rw [h]))
    · rw [if_pos hr', if_neg hs']
      exact not_or.mpr ⟨fun h => hfree s hs hs' h.symm, hkey⟩
    · rw [if_neg hr', if_pos hs']
      exact not_or.mpr ⟨hfree r hr hr', hkey⟩
    · rw [if_neg hr', if_neg hs']
      exact hapart
  unfold setId
  rw [ObjectTable.update, dif_pos hunique, Option.getD_some]

/-- The row of the attribute has the id of the entry just where the id was not taken. -/
theorem setId_id_iff (T : ObjectTable) (attr : Attr) :
    (∀ r ∈ (setId src new T attr).rows, Here src new attr.1 r.object r.attrib r.sourceId →
      r.id = attr.2) ↔ ¬IdTaken src new T attr := by
  constructor
  · rintro h ⟨⟨r, hr, hhere⟩, q, hq, hother, hid⟩
    have hrow : ∃ r' ∈ (setId src new T attr).rows,
        Here src new attr.1 r'.object r'.attrib r'.sourceId := by
      rcases setId_rows T attr with hrows | hrows
      · exact ⟨r, by rwa [hrows], hhere⟩
      · refine ⟨_, by rw [hrows]; exact List.mem_map_of_mem hr, ?_⟩
        rw [if_pos hhere]
        exact hhere
    have hkept : q ∈ (setId src new T attr).rows := by
      rcases setId_rows T attr with hrows | hrows
      · rwa [hrows]
      · rw [hrows, List.mem_map]
        exact ⟨q, hq, if_neg hother⟩
    obtain ⟨r', hr', hhere'⟩ := hrow
    have hsame := Cells.eq_of_id hr' hkept ((h r' hr' hhere').trans hid.symm)
    rw [hsame] at hhere'
    exact hother hhere'
  · intro hfree r hr hhere
    by_cases hrow : ∃ r ∈ T.rows, Here src new attr.1 r.object r.attrib r.sourceId
    · have hids : ∀ q ∈ T.rows, ¬Here src new attr.1 q.object q.attrib q.sourceId → q.id ≠ attr.2 :=
        fun q hq hother hid => hfree ⟨hrow, q, hq, hother, hid⟩
      rw [setId_rows_of_free hids, List.mem_map] at hr
      obtain ⟨q, hq, rfl⟩ := hr
      by_cases hq' : Here src new attr.1 q.object q.attrib q.sourceId
      · rw [if_pos hq']
      · rw [if_neg hq'] at hhere
        exact absurd hhere hq'
    · have hnone : ∀ q ∈ T.rows, ¬Here src new attr.1 q.object q.attrib q.sourceId :=
        fun q hq hq' => hrow ⟨q, hq, hq'⟩
      have hkeep : ∀ q ∈ (setId src new T attr).rows,
          ¬Here src new attr.1 q.object q.attrib q.sourceId :=
        (forall_setId (fun _ _ => Iff.rfl) T attr).mpr hnone
      exact absurd hhere (hkeep r hr)

/-- The ids of a whole object. -/
theorem ids_iff (attrs : List Attr) (T : ObjectTable) :
    (∀ done attr rest, attrs = done ++ attr :: rest → attr.1 ∉ rest.map Prod.fst →
      ∀ r ∈ (attrs.foldl (setId src new) T).rows,
        Here src new attr.1 r.object r.attrib r.sourceId → r.id = attr.2) ↔
      IdsFree src new attrs T := by
  refine forall_congr' (fun done => forall_congr' (fun attr => forall_congr' (fun rest => ?_)))
  refine forall_congr' (fun hattrs => forall_congr' (fun hlast => ?_))
  rw [← setId_id_iff, hattrs, List.foldl_append, List.foldl_cons]
  constructor
  · exact fun h r hr hhere => h r ((mem_foldl_setId hlast hhere).mpr hr) hhere
  · exact fun h r hr hhere => h r ((mem_foldl_setId hlast hhere).mp hr) hhere

/-- The row after a rename that does not fail. -/
def renamed (src : Int) (old new : String) (r : ObjectValue) : ObjectValue :=
  if SqlEq r.object (some old) ∧ r.sourceId = src then { r with object := some new } else r

theorem renamed_of {r : ObjectValue} (h : Of src old r.object r.sourceId) :
    renamed src old new r = { r with object := some new } := if_pos ⟨sqlEq_some.mpr h.1, h.2⟩

theorem renamed_of_not {r : ObjectValue} (h : ¬Of src old r.object r.sourceId) :
    renamed src old new r = r := if_neg (fun hold => h ⟨sqlEq_some.mp hold.1, hold.2⟩)

theorem renameRows_rows (T : ObjectTable) : (renameRows src old new T).rows = T.rows ∨
    (renameRows src old new T).rows = T.rows.map (renamed src old new) := by
  unfold renameRows ObjectTable.update
  split
  · exact Or.inr rfl
  · exact Or.inl rfl

/-- A rename without a shared attribute does not fail. -/
theorem renameRows_of_free {T : ObjectTable} (h : RenameFree src old new T) :
    (renameRows src old new T).rows = T.rows.map (renamed src old new) := by
  have hmeet : ∀ r ∈ T.rows, ∀ s ∈ T.rows, Of src old r.object r.sourceId →
      ¬Of src old s.object s.sourceId → ¬SameKey { r with object := some new } s := by
    intro r hr s hs hr' hs' hkey
    have hnew : Of src new s.object s.sourceId := ⟨hkey.1.2.symm, hkey.2.2.symm.trans hr'.2⟩
    exact (h r hr hr').2 s hs hnew hkey.2.1
  have hunique : (T.rows.map (renamed src old new)).Pairwise (fun r s => ¬Conflict r s) := by
    refine List.pairwise_map.mpr (T.keys.imp_of_mem ?_)
    intro r s hr hs hapart
    obtain ⟨hid, hkey⟩ := not_or.mp hapart
    by_cases hr' : Of src old r.object r.sourceId <;> by_cases hs' : Of src old s.object s.sourceId
    · rw [renamed_of hr', renamed_of hs']
      refine not_or.mpr ⟨hid, fun hsame => hkey ⟨?_, hsame.2⟩⟩
      rw [hr'.1, hs'.1]
      exact ⟨rfl, rfl⟩
    · rw [renamed_of hr', renamed_of_not hs']
      exact not_or.mpr ⟨hid, hmeet r hr s hs hr' hs'⟩
    · rw [renamed_of_not hr', renamed_of hs']
      exact not_or.mpr ⟨hid, fun hsame => hmeet s hs r hr hs' hr' hsame.symm⟩
    · rw [renamed_of_not hr', renamed_of_not hs']
      exact hapart
  have hupdate : T.update (fun r => SqlEq r.object (some old) ∧ r.sourceId = src)
      (fun r => { r with object := some new }) = some ⟨T.rows.map (renamed src old new), hunique⟩ :=
    dif_pos hunique
  rw [renameRows, hupdate, Option.getD_some]

/-- Nothing is left under the old object just where the rename is free. -/
theorem renameRows_iff (T : ObjectTable) :
    (∀ r ∈ (renameRows src old new T).rows, ¬Of src old r.object r.sourceId) ↔
      RenameFree src old new T := by
  constructor
  · intro h r hr hold
    have hmap : (renameRows src old new T).rows = T.rows.map (renamed src old new) := by
      rcases renameRows_rows T with hrows | hrows
      · exact absurd hold (h r (by rwa [hrows]))
      · exact hrows
    have hgone : ∀ q ∈ T.rows, ¬Of src old (renamed src old new q).object
        (renamed src old new q).sourceId := by
      intro q hq
      exact h _ (by rw [hmap]; exact List.mem_map_of_mem hq)
    have hne : old ≠ new := by
      rintro rfl
      have hr' := hgone r hr
      rw [renamed_of hold] at hr'
      exact hr' ⟨rfl, hold.2⟩
    refine ⟨hne, ?_⟩
    intro q hq hnew hattrib
    have hother : ¬Of src old q.object q.sourceId := by
      intro hq'
      exact hne (Option.some.inj (hq'.1.symm.trans hnew.1))
    have hdiffer : r ≠ q := by
      rintro rfl
      exact hother hold
    have hkeys : T.rows.Pairwise
        (fun r s => ¬Conflict (renamed src old new r) (renamed src old new s)) := by
      have hpair := (renameRows src old new T).keys
      rw [hmap] at hpair
      exact List.pairwise_map.mp hpair
    have hsymm : Std.Symm (fun r s => ¬Conflict (renamed src old new r) (renamed src old new s)) :=
      ⟨fun _ _ h hc => h hc.symm⟩
    have hapart := hkeys.forall hr hq hdiffer
    rw [renamed_of hold, renamed_of_not hother] at hapart
    refine hapart (Or.inr ⟨?_, hattrib, hold.2.trans hnew.2.symm⟩)
    rw [hnew.1]
    exact ⟨rfl, rfl⟩
  · intro h r hr
    rw [renameRows_of_free h, List.mem_map] at hr
    obtain ⟨q, hq, rfl⟩ := hr
    by_cases hold : Of src old q.object q.sourceId
    · rw [renamed_of hold]
      intro hr'
      exact (h q hq hold).1 (Option.some.inj hr'.1.symm)
    · rw [renamed_of_not hold]
      exact hold

theorem forall_foldl_setId {P : ObjectValue → Prop}
    (hP : ∀ (r : ObjectValue) id, P { r with id := id } ↔ P r) (attrs : List Attr)
    (T : ObjectTable) :
    (∀ r ∈ (attrs.foldl (setId src new) T).rows, P r) ↔ ∀ r ∈ T.rows, P r := by
  induction attrs generalizing T with
  | nil => exact Iff.rfl
  | cons attr attrs ih => exact (ih (setId src new T attr)).trans (forall_setId hP T attr)

/-- The columns of a row that a rename leaves alone. -/
def keptObject (r : ObjectValue) : ObjectValue := { r with id := 0, object := none }

theorem setId_kept (T : ObjectTable) (attr : Attr) :
    (setId src new T attr).rows.map keptObject = T.rows.map keptObject := by
  rcases setId_rows T attr with hrows | hrows
  · rw [hrows]
  · rw [hrows, List.map_map]
    refine List.map_congr_left (fun r _ => ?_)
    rw [Function.comp_apply]
    split <;> rfl

theorem finalObjects_kept (attrs : List Attr) (T : ObjectTable) :
    (finalObjects src old new attrs T).rows.map keptObject = T.rows.map keptObject := by
  have hfold : ∀ T : ObjectTable,
      (attrs.foldl (setId src new) T).rows.map keptObject = T.rows.map keptObject := by
    induction attrs with
    | nil => exact fun _ => rfl
    | cons attr attrs ih => exact fun T => (ih (setId src new T attr)).trans (setId_kept T attr)
  rw [finalObjects, hfold]
  rcases renameRows_rows T with hrows | hrows
  · rw [hrows]
  · rw [hrows, List.map_map]
    refine List.map_congr_left (fun r _ => ?_)
    rw [Function.comp_apply, renamed]
    split <;> rfl

/-- A pending row under the statements of an entry. -/
def bound (src : Int) (new : String) (r : ChangedValue) (attr : Attr) : ChangedValue :=
  if Here src new attr.1 r.object r.attrib r.sourceId then
    if r.sent ≤ 1 then { r with mainId := attr.2 } else { r with sent := 4 }
  else r

theorem bindPending_rows (C : ChangedTable) (attr : Attr) :
    (bindPending src new C attr).rows = C.rows.map (fun r => bound src new r attr) := by
  rw [bindPending, ChangedTable.update_rows, ChangedTable.update_rows, List.map_map]
  refine List.map_congr_left (fun r _ => ?_)
  rw [Function.comp_apply, bound]
  by_cases hhere : Here src new attr.1 r.object r.attrib r.sourceId
  · rw [if_pos hhere]
    by_cases hsent : r.sent ≤ 1
    · have hbind : (ChangedTable.setMainId attr.2).on (fun r =>
          Here src new attr.1 r.object r.attrib r.sourceId ∧ r.sent ≤ 1) r =
          { r with mainId := attr.2 } := if_pos ⟨hhere, hsent⟩
      rw [hbind, if_pos hsent]
      exact if_neg (fun h => absurd h.2 (not_lt.mpr hsent))
    · have hbind : (ChangedTable.setMainId attr.2).on (fun r =>
          Here src new attr.1 r.object r.attrib r.sourceId ∧ r.sent ≤ 1) r = r :=
        if_neg (fun h => hsent h.2)
      rw [hbind, if_neg hsent]
      exact if_pos ⟨hhere, not_le.mp hsent⟩
  · have hbind : (ChangedTable.setMainId attr.2).on (fun r =>
        Here src new attr.1 r.object r.attrib r.sourceId ∧ r.sent ≤ 1) r = r :=
      if_neg (fun h => hhere h.1)
    rw [hbind, if_neg hhere]
    exact if_neg (fun h => hhere h.1)

theorem bound_kept (src : Int) (new : String) (r : ChangedValue) (attr : Attr) :
    (bound src new r attr).object = r.object ∧
    (bound src new r attr).attrib = r.attrib ∧ (bound src new r attr).sourceId = r.sourceId := by
  unfold bound
  split
  · split <;> exact ⟨rfl, rfl, rfl⟩
  · exact ⟨rfl, rfl, rfl⟩

theorem foldl_bound_kept (src : Int) (new : String) (attrs : List Attr) (r : ChangedValue) :
    (attrs.foldl (bound src new) r).object = r.object ∧
      (attrs.foldl (bound src new) r).attrib = r.attrib ∧
      (attrs.foldl (bound src new) r).sourceId = r.sourceId := by
  induction attrs generalizing r with
  | nil => exact ⟨rfl, rfl, rfl⟩
  | cons attr attrs ih =>
    obtain ⟨hobject, hattrib, hsource⟩ := bound_kept src new r attr
    obtain ⟨hobject', hattrib', hsource'⟩ := ih (bound src new r attr)
    exact ⟨hobject'.trans hobject, hattrib'.trans hattrib, hsource'.trans hsource⟩

/-- The entries of other attributes do not touch a pending row. -/
theorem foldl_bound_of_ne {attrs : List Attr} {a : String} (hne : a ∉ attrs.map Prod.fst)
    {r : ChangedValue} (hr : Here src new a r.object r.attrib r.sourceId) :
    attrs.foldl (bound src new) r = r := by
  induction attrs with
  | nil => rfl
  | cons attr attrs ih =>
    simp only [List.map_cons, List.mem_cons, not_or] at hne
    have hother : ¬Here src new attr.1 r.object r.attrib r.sourceId := by
      intro h
      have hsame := (here_of hr).2.1.symm.trans (here_of h).2.1
      exact hne.1 (Option.some.inj hsame)
    rw [List.foldl_cons, bound, if_neg hother]
    exact ih hne.2

/-- After the last entry of its attribute a pending row has the id, or is not pending. -/
theorem foldl_bound_id {done rest : List Attr} {attr : Attr} (hlast : attr.1 ∉ rest.map Prod.fst)
    (r r' : ChangedValue) (hr' : (done ++ attr :: rest).foldl (bound src new) r = r')
    (hhere : Here src new attr.1 r'.object r'.attrib r'.sourceId) (hsent : r'.sent ≤ 1) :
    r'.mainId = attr.2 := by
  rw [List.foldl_append, List.foldl_cons] at hr'
  generalize done.foldl (bound src new) r = q at hr'
  obtain ⟨hobject, hattrib, hsource⟩ :=
    foldl_bound_kept src new rest (bound src new q attr)
  obtain ⟨hobject', hattrib', hsource'⟩ := bound_kept src new q attr
  rw [hr'] at hobject hattrib hsource
  have hmid : Here src new attr.1 (bound src new q attr).object (bound src new q attr).attrib
      (bound src new q attr).sourceId := by
    rw [← hobject, ← hattrib, ← hsource]
    exact hhere
  have hq : Here src new attr.1 q.object q.attrib q.sourceId := by
    rw [← hobject', ← hattrib', ← hsource']
    exact hmid
  rw [foldl_bound_of_ne hlast hmid, bound, if_pos hq] at hr'
  by_cases hpending : q.sent ≤ 1
  · rw [if_pos hpending] at hr'
    rw [← hr']
  · rw [if_neg hpending] at hr'
    rw [← hr'] at hsent
    exact absurd hsent (show ¬(4 : Int) ≤ 1 by decide)

/-- A pending row after its rename. -/
def renamedPending (src : Int) (old new : String) (r : ChangedValue) : ChangedValue :=
  if SqlEq r.object (some old) ∧ r.sourceId = src then { r with object := some new } else r

theorem finalChanged_rows (attrs : List Attr) (C : ChangedTable) :
    (finalChanged src old new attrs C).rows =
      C.rows.map (fun r => attrs.foldl (bound src new) (renamedPending src old new r)) := by
  have hfold : ∀ C : ChangedTable, (attrs.foldl (bindPending src new) C).rows =
      C.rows.map (fun r => attrs.foldl (bound src new) r) := by
    induction attrs with
    | nil => exact fun C => (List.map_id C.rows).symm
    | cons attr attrs ih =>
      intro C
      rw [List.foldl_cons, ih, bindPending_rows, List.map_map]
      rfl
  rw [finalChanged, hfold, renamePending, ChangedTable.update_rows, List.map_map]
  rfl

/-- The columns of a pending row that a rename leaves alone. -/
def keptPending (r : ChangedValue) : ChangedValue :=
  { r with sent := 0, mainId := 0, object := none }

theorem finalChanged_kept (attrs : List Attr) (C : ChangedTable) :
    (finalChanged src old new attrs C).rows.map keptPending = C.rows.map keptPending := by
  have hfold : ∀ r, keptPending (attrs.foldl (bound src new) r) = keptPending r := by
    induction attrs with
    | nil => exact fun _ => rfl
    | cons attr attrs ih =>
      intro r
      rw [List.foldl_cons, ih, bound]
      split
      · split <;> rfl
      · rfl
  rw [finalChanged_rows, List.map_map]
  refine List.map_congr_left (fun r _ => ?_)
  rw [Function.comp_apply, hfold, renamedPending]
  split <;> rfl

/-- Nothing pending is left under the old object just where it is another object. -/
theorem finalChanged_iff (attrs : List Attr) (C : ChangedTable) :
    (∀ r ∈ (finalChanged src old new attrs C).rows, ¬Of src old r.object r.sourceId) ↔
      PendingFree src old new C := by
  rw [finalChanged_rows, List.forall_mem_map]
  refine forall₂_congr (fun r _ => ?_)
  obtain ⟨hobject, -, hsource⟩ :=
    foldl_bound_kept src new attrs (renamedPending src old new r)
  rw [hobject, hsource]
  by_cases hold : Of src old r.object r.sourceId
  · rw [renamedPending, if_pos ⟨sqlEq_some.mpr hold.1, hold.2⟩]
    constructor
    · rintro h - rfl
      exact h ⟨rfl, hold.2⟩
    · exact fun h hnew => h hold (Option.some.inj hnew.1).symm
  · rw [renamedPending, if_neg (fun h => hold ⟨sqlEq_some.mp h.1, h.2⟩)]
    exact ⟨fun _ h => absurd h hold, fun _ => hold⟩

/-- The tables after all statements of an object are what they should be just where nothing
stands in the way of the rename, nor of an id. -/
theorem renamed_iff (attrs : List Attr) (C : ChangedTable) (T : ObjectTable) :
    Renamed src old new attrs C (finalChanged src old new attrs C) T
        (finalObjects src old new attrs T) ↔
      RenameFree src old new T ∧ PendingFree src old new C ∧
        IdsFree src new attrs (renameRows src old new T) := by
  have hobjects : (∀ r ∈ (finalObjects src old new attrs T).rows, ¬Of src old r.object r.sourceId) ↔
      RenameFree src old new T :=
    (forall_foldl_setId (P := fun r => ¬Of src old r.object r.sourceId) (fun _ _ => Iff.rfl) attrs
      _).trans (renameRows_iff T)
  constructor
  · intro h
    exact ⟨hobjects.mp h.objects, (finalChanged_iff attrs C).mp h.changed,
      (ids_iff attrs _).mp h.ids⟩
  · rintro ⟨hfree, hpending, hids⟩
    refine ⟨hobjects.mpr hfree, (finalChanged_iff attrs C).mpr hpending, finalObjects_kept attrs T,
      finalChanged_kept attrs C, (ids_iff attrs _).mpr hids, ?_⟩
    rintro done attr rest hattrs hlast r hr hhere hsent
    rw [finalChanged_rows, List.mem_map] at hr
    obtain ⟨q, -, hq⟩ := hr
    rw [hattrs] at hq
    exact foldl_bound_id hlast _ r hq hhere hsent

end Rows

/-- The moves of a run that nothing cuts: where the engine is asked it goes on, and a download
does not fail. -/
def isUncut : Move Stmt World UIAction → Bool
  | .own .read w => w.syncState.isContinueSync
  | .own (.request _) w => (w.net w.requests).isOK
  | _ => true

def Uncut (m : Move Stmt World UIAction) : Prop := isUncut m = true

/-- Inside its transaction the sync thread is alone with both tables. -/
def Holds (C : ChangedTable) (T : ObjectTable) (w : World) : Prop :=
  w.insideTransaction = true ∧ w.changed = C ∧ w.objects = T

section Runs

variable {src : Int} {old new : String} {C C' : ChangedTable} {T T' : ObjectTable}

theorem holds_stable : (against Uncut noGoal).Stable (Holds C T) := by
  refine stable_of_frame (fun w w' h hframe => ?_)
  obtain ⟨hchanged, hobjects⟩ := hframe.locked h.1
  exact ⟨hframe.insideTransaction.trans h.1, hchanged.trans h.2.1, hobjects.trans h.2.2⟩

theorem holds_execute {i : Stmt} (hi : ∀ w, Holds C T w → Holds C' T' (step i w)) :
    (against Uncut noGoal).Triple (Holds C T) (execute i) (fun _ => Holds C' T') :=
  execute_bind holds_stable (fun w h _ => ⟨trivial, hi w h⟩)
    (Discipline.Triple.ret holds_stable (fun _ h => h))

theorem renameObject_holds (C : ChangedTable) (T : ObjectTable) :
    (against Uncut noGoal).Triple (Holds C T) (renameObject src (some old) (some new))
      (fun _ => Holds (renamePending src old new C) (renameRows src old new T)) := by
  refine Discipline.Triple.bind (Q := fun _ => Holds C (renameRows src old new T))
    (holds_execute ?_) (fun _ => ?_)
  · rintro w ⟨hin, rfl, rfl⟩
    exact ⟨hin, rfl, rfl⟩
  refine Discipline.Triple.bind (Q := fun _ => Holds (renamePending src old new C)
    (renameRows src old new T)) (holds_execute ?_) (fun _ => holds_execute (fun _ h => h))
  rintro w ⟨hin, rfl, hobjects⟩
  exact ⟨hin, rfl, hobjects⟩

/-- The tables on which the entries go on: the first of them renames the object. -/
def renamedPendingOnce (src : Int) (old new : String) (updatedOO : Bool) (C : ChangedTable) :
    ChangedTable := if updatedOO then C else renamePending src old new C

def renamedRowsOnce (src : Int) (old new : String) (updatedOO : Bool) (T : ObjectTable) :
    ObjectTable := if updatedOO then T else renameRows src old new T

theorem confirmObject_holds (attr : Attr) (updatedOO : Bool) :
    (against Uncut noGoal).Triple (Holds C T)
      (confirmObject src (some old) (some new) attr.1 attr.2 updatedOO)
      (fun _ => Holds (bindPending src new (renamedPendingOnce src old new updatedOO C) attr)
        (setId src new (renamedRowsOnce src old new updatedOO T) attr)) := by
  refine Discipline.Triple.bind (Q := fun _ => Holds (renamedPendingOnce src old new updatedOO C)
    (renamedRowsOnce src old new updatedOO T)) ?_ (fun _ => ?_)
  · cases updatedOO with
    | true => exact Discipline.Triple.ret holds_stable (fun _ h => h)
    | false => exact renameObject_holds C T
  refine execute_bind (Q := Holds ((renamedPendingOnce src old new updatedOO C).update
    (fun r => Here src new attr.1 r.object r.attrib r.sourceId ∧ r.sent ≤ 1)
    (ChangedTable.setMainId attr.2)) (renamedRowsOnce src old new updatedOO T)) holds_stable ?_ ?_
  · rintro w ⟨hin, hchanged, hobjects⟩ -
    refine ⟨trivial, hin, ?_, hobjects⟩
    rw [← hchanged]
    rfl
  refine execute_bind (Q := Holds (bindPending src new (renamedPendingOnce src old new updatedOO C)
    attr) (renamedRowsOnce src old new updatedOO T)) holds_stable ?_ (holds_execute ?_)
  · rintro w ⟨hin, hchanged, hobjects⟩ -
    refine ⟨trivial, hin, ?_, hobjects⟩
    rw [bindPending, ← hchanged]
    rfl
  · rintro w ⟨hin, hchanged, hobjects⟩
    refine ⟨hin, hchanged, ?_⟩
    rw [← hobjects]
    rfl

theorem downloadBlob_holds (e : Engine) (value : CValue) :
    (against Uncut noGoal).Triple (Holds C T) (downloadBlob e value)
      (fun r w => Holds C T w ∧ ∃ v, r = .ok v ∧ v.id = value.id) := by
  refine Discipline.Triple.ite
    (fun _ => Discipline.Triple.ret holds_stable (fun _ h => ⟨h, value, rfl, rfl⟩)) (fun _ => ?_)
  refine Discipline.Triple.perform_bind (fun resp w => resp.isOK = true ∧ Holds C T w) holds_stable
    (fun w h hok => ⟨trivial, hok, h⟩) ?_
  rintro resp w ⟨hok, hw⟩
  rw [if_pos hok]
  exact Discipline.Triple.ret holds_stable (fun _ h => ⟨h, _, rfl, rfl⟩) w hw

/-- The loop over the entries, whichever of them is the first that is not empty. -/
theorem processEntries_holds (e : Engine) (hsrc : 0 ≤ src) (this : SyncSource) (updatedOO : Bool)
    (list : List JsonObject)
    (hsome : updatedOO = true ∨ list.filter (fun entry => !entry.isEmpty) ≠ []) :
    (against Uncut noGoal).Triple (Holds C T)
      (processEntries e src (some old) (some new) this updatedOO list)
      (fun _ => Holds
        (((list.filter (fun entry => !entry.isEmpty)).map attrOf).foldl (bindPending src new)
          (renamedPendingOnce src old new updatedOO C))
        (((list.filter (fun entry => !entry.isEmpty)).map attrOf).foldl (setId src new)
          (renamedRowsOnce src old new updatedOO T))) := by
  induction list generalizing this updatedOO C T with
  | nil =>
    have hupdated : updatedOO = true := hsome.resolve_right (fun h => h rfl)
    subst hupdated
    exact Discipline.Triple.ret holds_stable (fun _ h => h)
  | cons entry rest ih =>
    refine @continue_bind Uncut noGoal Merge (Holds C T) (Holds C T) (fun _ => False) _ _
      holds_stable ?_ ?_ (fun _ h => h.elim)
    · intro w h hgo
      exact ⟨trivial, fun _ => h, fun hstop => absurd (hgo.symm.trans hstop) (by decide)⟩
    rw [if_pos rfl]
    by_cases hempty : entry.isEmpty = true
    · rw [List.filter_cons_of_neg (by simp [hempty])] at hsome ⊢
      rw [if_pos hempty]
      exact ih this updatedOO hsome
    · rw [List.filter_cons_of_pos (by simp [hempty]), List.map_cons]
      rw [List.foldl_cons, List.foldl_cons, if_neg hempty, if_pos hsrc]
      refine Discipline.Triple.bind (downloadBlob_holds e (cValue entry)) ?_
      rintro r w ⟨hw, value, rfl, hid⟩
      have hattr : (entry.getStr "a", value.id.toInt64) = attrOf entry := by rw [hid]; rfl
      refine Discipline.Triple.bind
        (confirmObject_holds (entry.getStr "a", value.id.toInt64) updatedOO) (fun _ => ?_) w hw
      rw [hattr]
      exact ih _ true (Or.inl rfl)

end Runs

/-- A page object that names its old object. Each entry has the two names that are copied into a
String, where C++ has a null pointer otherwise. -/
structure NamesOld (old new : String) (json : JsonObject) : Prop where
  old : json.getString "oo" = some old
  new : json.getString "o" = some new
  noError : json.hasName "e" = false
  some : entries json ≠ []
  read : ∀ entry ∈ entries json, entry.hasName "a" = true ∧ entry.hasName "v" = true

/-- In every run of a page object that names its old object, which nothing cuts and whatever
else the UI thread does, the rename is complete just where no row of the new object shares an
attribute with one of the old object, and no id is taken. -/
theorem rename_complete_iff (e : Engine) (this : SyncSource) (json : JsonObject) {src : Int}
    {old new : String} {w w' : World} {r : Merge} {ms : List (Move Stmt World UIAction)}
    (hpass : this.pass ≠ .edpDeleteObjects) (hsrc : 0 ≤ src) (hjson : NamesOld old new json)
    (hlocked : w.insideTransaction = true)
    (hrun : Run step uiStep (processSyncObjectVer1 e this json src) w ms (.ret r) w')
    (huncut : ∀ m ∈ ms, Uncut m) :
    Renamed src old new ((entries json).map attrOf) w.changed w'.changed w.objects w'.objects ↔
      RenameFree src old new w.objects ∧ PendingFree src old new w.changed ∧
        IdsFree src new ((entries json).map attrOf) (renameRows src old new w.objects) := by
  have hentries : processSyncObjectVer1 e this json src =
      processEntries e src (some old) (some new) this false (json.getArray "av") := by
    unfold processSyncObjectVer1
    rw [hjson.old, hjson.new, hjson.noError, if_neg (by simp [hpass, hsrc]),
      if_neg Bool.false_ne_true]
  rw [hentries] at hrun
  have hwp : (against Uncut noGoal).wp
      (processEntries e src (some old) (some new) this false (json.getArray "av")) _ w :=
    processEntries_holds e hsrc this false (json.getArray "av") (Or.inr hjson.some) w
      ⟨hlocked, rfl, rfl⟩
  obtain ⟨-, hend⟩ := Discipline.wp_run hrun hwp huncut
  obtain ⟨-, hchanged, hobjects⟩ := hend r rfl
  rw [hchanged, hobjects]
  exact renamed_iff _ w.changed w.objects

/-- The transaction of a page on the tables that the save of a new object has left. -/
def savedPage : World :=
  let db := (save ⟨1, false, [("object", some "o1"), ("name", some "Ann"), ("age", some "4")]⟩
    ⟨.empty, .empty, 9⟩).getD ⟨.empty, .empty, 9⟩
  { Upsert.pageStart with changed := db.changed, objects := db.objects, tempId := db.tempId }

def renameJson : JsonObject :=
  .object [("oo", .string "o1"), ("o", .string "s1"),
    ("av", .array [.object [("a", .string "name"), ("i", .int 20), ("v", .string "Ann")],
      .object [("a", .string "age"), ("i", .int 21), ("v", .string "4")]])]

theorem namesOld_renameJson : NamesOld "o1" "s1" renameJson where
  old := by decide +kernel
  new := by decide +kernel
  noError := by decide +kernel
  some := by decide +kernel
  read := by
    have hread : (entries renameJson).all
        (fun entry => entry.hasName "a" && entry.hasName "v") = true := by decide +kernel
    exact fun entry hentry => Bool.and_eq_true_iff.mp (List.all_eq_true.mp hread entry hentry)

/-- The first answer of the server to the new object. -/
theorem rename_complete_iff_created : ∃ ms r w',
    Run step uiStep (processSyncObjectVer1 sampleEngine sampleSource renameJson 1) savedPage ms
      (.ret r) w' ∧
    Renamed 1 "o1" "s1" ((entries renameJson).map attrOf) savedPage.changed w'.changed
      savedPage.objects w'.objects := by
  obtain ⟨ms, r, w', hrun, hcheck⟩ := exists_complete_run step uiStep (List.replicate 11 none)
    (processSyncObjectVer1 sampleEngine sampleSource renameJson 1) savedPage
    (fun ms _ _ => ms.all isUncut) (by decide +kernel)
  have hids : IdsFree 1 "s1" ((entries renameJson).map attrOf)
      (renameRows 1 "o1" "s1" savedPage.objects) := by
    have hattrs : (entries renameJson).map attrOf = [("name", 20), ("age", 21)] := by decide +kernel
    rw [hattrs]
    intro done attr rest hsplit _
    match done with
    | [] =>
      cases hsplit
      decide +kernel
    | [first] =>
      cases hsplit
      decide +kernel
    | _ :: _ :: done =>
      have hlength := congrArg List.length hsplit
      simp at hlength
  exact ⟨ms, r, w', hrun, (rename_complete_iff sampleEngine sampleSource renameJson (by decide)
    (by decide) namesOld_renameJson rfl hrun (List.all_eq_true.mp hcheck)).mpr
      ⟨by decide +kernel, by decide +kernel, hids⟩⟩

/-- The page after an insert entry of an earlier one has brought a row of the new object. -/
def deliveredPage : World :=
  ((insertEntry 1 (some "s1") "name" ⟨"Ann", "", 30⟩).exec step savedPage).2

/-- The rows stay under the old object, while the pending rows go to the new one. -/
theorem delivered_row_splits_object : ∃ ms r w',
    Run step uiStep (processSyncObjectVer1 sampleEngine sampleSource renameJson 1) deliveredPage ms
      (.ret r) w' ∧ (∀ m ∈ ms, Uncut m) ∧
    w'.objects.rows.map (fun r => (r.id, r.object, r.sourceId)) =
      [(10, some "o1", 1), (11, some "o1", 1), (20, some "s1", 1)] ∧
    w'.changed.rows.map ChangedValue.object = [some "s1", some "s1"] ∧
    ¬Renamed 1 "o1" "s1" ((entries renameJson).map attrOf) deliveredPage.changed w'.changed
      deliveredPage.objects w'.objects := by
  obtain ⟨ms, r, w', hrun, hcheck⟩ := exists_complete_run step uiStep (List.replicate 11 none)
    (processSyncObjectVer1 sampleEngine sampleSource renameJson 1) deliveredPage
    (fun ms _ w' => ms.all isUncut && (
      w'.objects.rows.map (fun r => (r.id, r.object, r.sourceId)) =
        [(10, some "o1", 1), (11, some "o1", 1), (20, some "s1", 1)] &&
      w'.changed.rows.map ChangedValue.object = [some "s1", some "s1"])) (by decide +kernel)
  rw [Bool.and_eq_true, Bool.and_eq_true] at hcheck
  obtain ⟨huncut, hobjects, hchanged⟩ := hcheck
  refine ⟨ms, r, w', hrun, List.all_eq_true.mp huncut, of_decide_eq_true hobjects,
    of_decide_eq_true hchanged, ?_⟩
  intro h
  have hleft : (10, some "o1", 1) ∈
      w'.objects.rows.map (fun r => (r.id, r.object, r.sourceId)) := by
    rw [of_decide_eq_true hobjects]
    exact List.mem_cons_self
  obtain ⟨q, hq, hrow⟩ := List.mem_map.mp hleft
  simp only [Prod.mk.injEq] at hrow
  exact h.objects q hq hrow.2

end Rhodes.RenameObjects
