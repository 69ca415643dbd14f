import Mathlib.Data.List.TakeWhile
import Rhodes.KeyedRows
import Rhodes.ServerChanges

/-!
A page of version 1 as a batch of `KeyedRows`: its insert entries put rows by
source, object and attribute, and its delete entries drop rows by id. Where each
id belongs to one source, object and attribute, an INSERT into object_values that
succeeds puts its row, and so does the UPDATE made where it fails.
-/
namespace Rhodes.PageEdits

open Database Json Statements Source ServerChanges KeyedRows

/-- The columns of the unique index of object_values. -/
def triple (r : ObjectValue) : Int × Option String × Option String := (r.sourceId, r.object, r.attrib)

abbrev RowEdit := Edit ObjectValue Int64

def merged (rows : List ObjectValue) (edits : List RowEdit) : List ObjectValue :=
  applyAll triple ObjectValue.id rows edits

/-- The row of an insert entry. -/
def entryRow (nSrcID : Int) (object : Option String) (entry : JsonObject) : ObjectValue :=
  ⟨(entry.getUInt64 "i").toInt64, nSrcID, some (entry.getStr "a"), object, some (entry.getStr "v"),
    some (entry.getStr "t")⟩

def entries (json : JsonObject) : List JsonObject :=
  (json.getArray "av").filter (fun entry => !entry.isEmpty)

def objectRows (nSrcID : Int) (json : JsonObject) : List ObjectValue :=
  (entries json).map (entryRow nSrcID (json.getString "o"))

def objectIds (json : JsonObject) : List Int64 :=
  (entries json).map (fun entry => (entry.getUInt64 "i").toInt64)

/-- The insert entries of the page. A delete group has a negative source. -/
def inserts (resolve : String → Option Int) (groups : List JsonObject) : List ObjectValue :=
  groups.flatMap (fun group => match resolve (group.getStr "s") with
    | some nSrcID => if 0 ≤ nSrcID then (group.getArray "ol").flatMap (objectRows nSrcID) else []
    | none => [])

/-- The ids listed in the delete groups of the page. -/
def deletes (resolve : String → Option Int) (groups : List JsonObject) : List Int64 :=
  groups.flatMap (fun group => match resolve (group.getStr "s") with
    | some nSrcID => if 0 ≤ nSrcID then [] else (group.getArray "ol").flatMap objectIds
    | none => [])

/-- An object without "oo" and "e"; an insert entry names its object and is no blob. -/
structure PlainObject (nSrcID : Int) (json : JsonObject) : Prop where
  noOld : json.getString "oo" = none
  noError : json.hasName "e" = false
  named : 0 ≤ nSrcID → (json.getString "o").isSome
  noBlob : 0 ≤ nSrcID → ∀ entry ∈ entries json, entry.getStr "t" ≠ "blob.url"

instance (nSrcID : Int) (json : JsonObject) : Decidable (PlainObject nSrcID json) :=
  decidable_of_iff (json.getString "oo" = none ∧ json.hasName "e" = false ∧
      (0 ≤ nSrcID → (json.getString "o").isSome) ∧
      (0 ≤ nSrcID → ∀ entry ∈ entries json, entry.getStr "t" ≠ "blob.url"))
    ⟨fun h => ⟨h.1, h.2.1, h.2.2.1, h.2.2.2⟩, fun h => ⟨h.noOld, h.noError, h.named, h.noBlob⟩⟩

def Plain (resolve : String → Option Int) (groups : List JsonObject) : Prop :=
  ∀ group ∈ groups, ∀ nSrcID ∈ resolve (group.getStr "s"),
    ∀ json ∈ group.getArray "ol", PlainObject nSrcID json

instance (resolve : String → Option Int) (groups : List JsonObject) :
    Decidable (Plain resolve groups) := inferInstanceAs (Decidable (∀ group ∈ groups, _))

/-- Every group is of a known source or a delete group. -/
def AllKnown (resolve : String → Option Int) (groups : List JsonObject) : Prop :=
  ∀ group ∈ groups, (resolve (group.getStr "s")).isSome

instance (resolve : String → Option Int) (groups : List JsonObject) :
    Decidable (AllKnown resolve groups) := inferInstanceAs (Decidable (∀ group ∈ groups, _))

/-- Each id belongs to one source, object and attribute. -/
def OneTriple (rows : List ObjectValue) : Prop :=
  ∀ r ∈ rows, ∀ s ∈ rows, r.id = s.id → triple r = triple s

instance (rows : List ObjectValue) : Decidable (OneTriple rows) :=
  inferInstanceAs (Decidable (∀ r ∈ rows, _))

/-- A row whose object and attribute are there. -/
def Keyed (r : ObjectValue) : Prop := r.object.isSome ∧ r.attrib.isSome

theorem sameKey_iff {r s : ObjectValue} (hr : Keyed r) : SameKey s r ↔ triple s = triple r := by
  simp only [SameKey, SqlEq, triple, Prod.mk.injEq]
  constructor
  · rintro ⟨⟨-, ho⟩, ⟨-, ha⟩, hsrc⟩
    exact ⟨hsrc, ho, ha⟩
  · rintro ⟨hsrc, ho, ha⟩
    exact ⟨⟨by rw [ho]; exact hr.1, ho⟩, ⟨by rw [ha]; exact hr.2, ha⟩, hsrc⟩

theorem Keyed.congr {r s : ObjectValue} (hr : Keyed r) (h : triple s = triple r) : Keyed s := by
  simp only [triple, Prod.mk.injEq] at h
  obtain ⟨-, ho, ha⟩ := h
  exact ⟨by rw [ho]; exact hr.1, by rw [ha]; exact hr.2⟩

/-- The columns that the UPDATE of an entry assigns. -/
def assignRow (r s : ObjectValue) : ObjectValue :=
  { s with id := r.id, value := r.value, attribType := r.attribType }

theorem assignRow_eq {r s : ObjectValue} (h : triple s = triple r) : assignRow r s = r := by
  simp only [triple, Prod.mk.injEq] at h
  obtain ⟨hsrc, ho, ha⟩ := h
  cases r
  cases s
  simp_all [assignRow]

/-- An INSERT that succeeds puts the row. -/
theorem insert_put {T T' : ObjectTable} {r : ObjectValue} (hr : Keyed r)
    (h : T.insert r = some T') : T'.rows = put triple T.rows r := by
  unfold ObjectTable.insert at h
  split at h
  · cases h
  · rename_i hfree
    cases h
    have hnew : ¬ ∃ s ∈ T.rows, triple s = triple r := by
      rintro ⟨s, hs, hkey⟩
      exact hfree ⟨s, hs, Or.inr ((sameKey_iff hr).mpr hkey)⟩
    simp only [put, if_neg hnew]

/-- Replacing the row at a key keeps the table unique. -/
theorem replace_unique {T : ObjectTable} {r : ObjectValue} (hr : Keyed r)
    (hids : ∀ s ∈ T.rows, s.id = r.id → triple s = triple r) :
    (T.rows.map (fun s => if triple s = triple r then r else s)).Pairwise
      (fun r s => ¬ Conflict r s) := by
  have hapart : ∀ s ∈ T.rows, triple s ≠ triple r → ¬ Conflict s r := by
    intro s hs hne hconflict
    exact hne (hconflict.elim (hids s hs) (sameKey_iff hr).mp)
  refine List.pairwise_map.mpr (T.keys.imp_of_mem ?_)
  intro s t hs ht hfree
  by_cases hsr : triple s = triple r <;> by_cases htr : triple t = triple r
  · have hsame : SameKey s t := (sameKey_iff (hr.congr htr)).mpr (hsr.trans htr.symm)
    exact absurd (Or.inr hsame) hfree
  · rw [if_pos hsr, if_neg htr]
    exact fun hconflict => hapart t ht htr hconflict.symm
  · rw [if_neg hsr, if_pos htr]
    exact hapart s hs hsr
  · rwa [if_neg hsr, if_neg htr]

/-- Where the INSERT fails there is a row with the key, and the UPDATE puts the row. -/
theorem update_put {T : ObjectTable} {r : ObjectValue} (hr : Keyed r) (h : T.insert r = none)
    (hids : ∀ s ∈ T.rows, s.id = r.id → triple s = triple r) :
    ((T.update (fun s => AtKey r.sourceId r.object r.attrib s.object s.attrib s.sourceId)
      (assignRow r)).getD T).rows = put triple T.rows r := by
  have hkey : ∃ s ∈ T.rows, triple s = triple r := by
    unfold ObjectTable.insert at h
    split at h
    · rename_i hex
      obtain ⟨s, hs, hconflict⟩ := hex
      exact ⟨s, hs, hconflict.elim (hids s hs) (sameKey_iff hr).mp⟩
    · cases h
  have hat : ∀ s : ObjectValue,
      AtKey r.sourceId r.object r.attrib s.object s.attrib s.sourceId ↔ triple s = triple r :=
    fun s => sameKey_iff hr
  have hmap : T.rows.map (fun s =>
      if AtKey r.sourceId r.object r.attrib s.object s.attrib s.sourceId
      then assignRow r s else s) = T.rows.map (fun s => if triple s = triple r then r else s) := by
    apply List.map_congr_left
    intro s _
    by_cases hs : triple s = triple r
    · rw [if_pos ((hat s).mpr hs), if_pos hs, assignRow_eq hs]
    · rw [if_neg (fun hk => hs ((hat s).mp hk)), if_neg hs]
  have hunique := replace_unique hr hids
  simp only [ObjectTable.update, hmap, dif_pos hunique, Option.getD_some, put, if_pos hkey]

/-- The edit of an entry. -/
def entryEdit (nSrcID : Int) (object : Option String) (entry : JsonObject) : RowEdit :=
  if 0 ≤ nSrcID then .put (entryRow nSrcID object entry) else .drop (entry.getUInt64 "i").toInt64

/-- The edits of an object in one of the passes. -/
def objectEdits (pass : ServerDataPass) (nSrcID : Int) (json : JsonObject) : List RowEdit :=
  if decide (pass = .edpDeleteObjects) ≠ decide (nSrcID < 0) then []
  else (entries json).map (entryEdit nSrcID (json.getString "o"))

/-- The edits of one of the passes; it ends at a group of an unknown source. -/
def passEdits (resolve : String → Option Int) (pass : ServerDataPass) :
    List JsonObject → List RowEdit
  | [] => []
  | group :: rest => match resolve (group.getStr "s") with
    | none => []
    | some nSrcID =>
        (group.getArray "ol").flatMap (objectEdits pass nSrcID) ++ passEdits resolve pass rest

/-- The edits of a page: the inserts, and the deletes where every source is known. -/
def pageEdits (resolve : String → Option Int) (groups : List JsonObject) : List RowEdit :=
  passEdits resolve .edpNone groups ++
    (if AllKnown resolve groups then passEdits resolve .edpDeleteObjects groups else [])

variable {rows page : List ObjectValue} {edits : List RowEdit}

/-- The rows that edits may put, together with the old rows. -/
def Within (rows page : List ObjectValue) (edits : List RowEdit) : Prop :=
  OneTriple (rows ++ page) ∧ ∀ r, Edit.put r ∈ edits → r ∈ page

theorem Within.ids {row : ObjectValue}
    (h : Within rows page (edits ++ [.put row])) :
    ∀ s ∈ merged rows edits, s.id = row.id → triple s = triple row := by
  intro s hs hid
  have hrow : row ∈ page := h.2 row (by simp)
  refine h.1 s ?_ row (List.mem_append_right _ hrow) hid
  rcases mem_applyAll triple ObjectValue.id hs with hold | hput
  · exact List.mem_append_left _ hold
  · exact List.mem_append_right _ (h.2 s (List.mem_append_left _ hput))

theorem Within.left {more : List RowEdit} (h : Within rows page (edits ++ more)) :
    Within rows page edits := ⟨h.1, fun r hr => h.2 r (List.mem_append_left _ hr)⟩

theorem objectEdits_inserts (nSrcID : Int) : objectEdits .edpNone nSrcID =
    fun json => if 0 ≤ nSrcID then (objectRows nSrcID json).map .put else [] := by
  funext json
  by_cases hpos : 0 ≤ nSrcID
  · have hneg : ¬ nSrcID < 0 := by omega
    simp [objectEdits, objectRows, hpos, hneg, entryEdit]
  · have hneg : nSrcID < 0 := by omega
    simp [objectEdits, hpos, hneg]

theorem objectEdits_deletes (nSrcID : Int) : objectEdits .edpDeleteObjects nSrcID =
    fun json => if 0 ≤ nSrcID then [] else (objectIds json).map .drop := by
  funext json
  by_cases hpos : 0 ≤ nSrcID
  · have hneg : ¬ nSrcID < 0 := by omega
    simp [objectEdits, hpos, hneg]
  · have hneg : nSrcID < 0 := by omega
    simp [objectEdits, objectIds, hpos, hneg, entryEdit]

/-- The first pass makes the inserts of the groups before one of an unknown source. -/
theorem passEdits_inserts (resolve : String → Option Int) (groups : List JsonObject) :
    passEdits resolve .edpNone groups =
      (inserts resolve (groups.takeWhile (fun g => (resolve (g.getStr "s")).isSome))).map .put := by
  induction groups with
  | nil => rfl
  | cons group rest ih =>
    cases hsrc : resolve (group.getStr "s") with
    | none => simp [passEdits, hsrc, inserts]
    | some nSrcID =>
      have hcons : inserts resolve ((group :: rest).takeWhile
        (fun g => (resolve (g.getStr "s")).isSome))
          = (if 0 ≤ nSrcID then (group.getArray "ol").flatMap (objectRows nSrcID) else []) ++
            inserts resolve (rest.takeWhile (fun g => (resolve (g.getStr "s")).isSome)) := by
        simp [inserts, hsrc]
      simp only [passEdits, hsrc, ih, hcons, List.map_append, objectEdits_inserts]
      by_cases hpos : 0 ≤ nSrcID
      · simp [hpos, List.map_flatMap]
      · simp [hpos]

/-- The second pass makes the deletes. -/
theorem passEdits_deletes (resolve : String → Option Int) (groups : List JsonObject)
    (hknown : AllKnown resolve groups) :
    passEdits resolve .edpDeleteObjects groups = (deletes resolve groups).map .drop := by
  induction groups with
  | nil => rfl
  | cons group rest ih =>
    have hrest := ih (fun g hg => hknown g (List.mem_cons_of_mem _ hg))
    obtain ⟨nSrcID, hsrc⟩ := Option.isSome_iff_exists.mp (hknown group (by simp))
    have hcons : deletes resolve (group :: rest) =
        (if 0 ≤ nSrcID then [] else (group.getArray "ol").flatMap objectIds) ++
          deletes resolve rest := by
      simp [deletes, hsrc]
    simp only [passEdits, hsrc, hrest, hcons, List.map_append, objectEdits_deletes]
    by_cases hpos : 0 ≤ nSrcID
    · simp [hpos]
    · simp [hpos, List.map_flatMap]

/-- A page is a batch. -/
theorem pageEdits_eq (resolve : String → Option Int) (groups : List JsonObject) :
    pageEdits resolve groups =
      batch (inserts resolve (groups.takeWhile (fun g => (resolve (g.getStr "s")).isSome)))
        (if AllKnown resolve groups then deletes resolve groups else []) := by
  rw [pageEdits, passEdits_inserts, batch]
  by_cases hknown : AllKnown resolve groups
  · rw [if_pos hknown, if_pos hknown, passEdits_deletes resolve groups hknown]
  · rw [if_neg hknown, if_neg hknown, List.map_nil]

theorem pageEdits_known {resolve : String → Option Int} {groups : List JsonObject}
    (hknown : AllKnown resolve groups) :
    pageEdits resolve groups = batch (inserts resolve groups) (deletes resolve groups) := by
  have hall : groups.takeWhile (fun g => (resolve (g.getStr "s")).isSome) = groups :=
    List.takeWhile_eq_self_iff.mpr hknown
  rw [pageEdits_eq, hall, if_pos hknown]

theorem pageEdits_within {resolve : String → Option Int} {groups : List JsonObject}
    (hids : OneTriple (rows ++ inserts resolve groups)) :
    Within rows (inserts resolve groups) (pageEdits resolve groups) := by
  refine ⟨hids, fun r hr => ?_⟩
  rw [pageEdits_eq, batch, List.mem_append] at hr
  rcases hr with hr | hr
  · obtain ⟨s, hs, heq⟩ := List.mem_map.mp hr
    cases heq
    obtain ⟨group, hgroup, hmem⟩ := List.mem_flatMap.mp hs
    exact List.mem_flatMap.mpr ⟨group, (List.takeWhile_prefix _).subset hgroup, hmem⟩
  · obtain ⟨i, -, heq⟩ := List.mem_map.mp hr
    cases heq

end Rhodes.PageEdits
