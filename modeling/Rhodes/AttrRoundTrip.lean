import Rhodes.AttrManager

/-!
save and load of CDBAttrManager, one after the other. The text of a source is a list of
fields joined by commas, so its table comes back as long as every name is a field of such a
list: it has a character and no comma. A source whose table is empty has an empty text,
which load passes over.
-/
namespace Rhodes.AttrRoundTrip

open Std (TreeMap)
open Database TwoLevel Tokenizer AttrManager

/-- A name that is a field of a text joined by commas. -/
def IsField (name : String) : Prop := name ≠ "" ∧ ',' ∉ name.toList

theorem IsField.isToken {name : String} (h : IsField name) : IsToken [','] name.toList := by
  refine ⟨?_, ?_⟩
  · intro hnil
    exact h.1 (String.toList_eq_nil_iff.mp hnil)
  · intro c hc hcomma
    rw [List.mem_singleton.mp hcomma] at hc
    exact h.2 hc

/-- The names are fields and the counters positive. -/
structure Storable (m : SrcAttrs) : Prop where
  name : ∀ src a n, lookup m src a = some n → IsField a
  count : ∀ src a n, lookup m src a = some n → 0 < n

/-- Every source of the map has a row, and the column is empty in the rows of the others. -/
structure Rowed (m : SrcAttrs) (sources : List SourceAttribs) : Prop where
  row : ∀ src inner, m[src]? = some inner → ∃ r ∈ sources, r.sourceId = src
  others : ∀ r ∈ sources, m[r.sourceId]? = none → r.text = ""

/-- `loaded` holds the tables of `m`, entry by entry, and no source with an empty table. -/
def Restores (loaded m : SrcAttrs) : Prop :=
  ∀ src : Int, loaded[src]?.map TreeMap.toList =
    (m[src]?.filter (fun inner => !inner.isEmpty)).map TreeMap.toList

theorem lookup_of_getElem? {m : SrcAttrs} {src : Int} {inner : TreeMap String Int}
    (h : m[src]? = some inner) (a : String) : lookup m src a = inner[a]? := by
  rw [lookup, h, Option.bind_some]

/-- A table of fields is the table of its text. -/
theorem toList_parseAttribs {m : SrcAttrs} (h : Storable m) {src : Int}
    {inner : TreeMap String Int} (hinner : m[src]? = some inner) :
    (parseAttribs (attribsText inner)).toList = inner.toList := by
  have hsame : TreeMap.Equiv (parseAttribs (attribsText inner)) inner := by
    apply TreeMap.Equiv.of_forall_constGet?_eq
    intro a
    apply parseAttribs_attribsText
    · intro a n ha
      exact (h.name src a n (by rw [lookup_of_getElem? hinner, ha])).isToken
    · intro a n ha
      exact le_of_lt (h.count src a n (by rw [lookup_of_getElem? hinner, ha]))
  exact hsame.toList_eq

/-- The text of a table is empty just when the table is. -/
theorem attribsText_eq_empty_iff (inner : TreeMap String Int) :
    attribsText inner = "" ↔ inner.isEmpty = true := by
  constructor
  · intro htext
    rw [TreeMap.isEmpty_iff_forall_not_mem]
    intro a ha
    have hnone := getElem?_of_attribsText_empty (m := inner) (by rw [htext]; rfl) a
    rw [TreeMap.mem_iff_isSome_getElem?, hnone] at ha
    cases ha
  · intro hempty
    have hlist : inner.toList = [] := by
      rw [← List.isEmpty_iff, TreeMap.isEmpty_toList]
      exact hempty
    rw [attribsText, hlist]
    rfl

/-- Every row of a source of the map is saved with the text of its table. -/
theorem text_saved {m : SrcAttrs} {sources : List SourceAttribs} {r : SourceAttribs}
    {inner : TreeMap String Int} (h : r ∈ save m sources) (hinner : m[r.sourceId]? = some inner) :
    r.text = attribsText inner := by
  rcases mem_save h with ⟨inner', hinner', htext⟩ | ⟨hnone, -⟩
  · cases hinner.symm.trans hinner'
    exact htext
  · rw [hinner] at hnone
    cases hnone

/-- The attribute map comes back from the text it is saved as, whatever its names look like
as long as each has a character and no comma. -/
theorem attributes_round_trip (m : SrcAttrs) (sources : List SourceAttribs) (h : Storable m)
    (hrows : Rowed m sources) : Restores (load ∅ (save m sources)) m := by
  intro src
  have hcases := load_cases ∅ (save m sources) src
  cases hm : m[src]? with
  | none =>
    rcases hcases with ⟨r, hr, rfl, htext, -⟩ | ⟨-, hload⟩
    · exfalso
      rcases mem_save hr with ⟨inner, hinner, -⟩ | ⟨-, hold⟩
      · rw [hm] at hinner
        cases hinner
      · rw [hrows.others r hold hm] at htext
        exact htext rfl
    · rw [hload]
      simp
  | some inner =>
    by_cases hempty : inner.isEmpty = true
    · have hnil := (attribsText_eq_empty_iff inner).mpr hempty
      rcases hcases with ⟨r, hr, rfl, htext, -⟩ | ⟨-, hload⟩
      · rw [text_saved hr hm, hnil] at htext
        exact absurd rfl htext
      · rw [hload]
        simp [hempty]
    · rcases hcases with ⟨r, hr, rfl, -, hload⟩ | ⟨hnone, -⟩
      · rw [hload, text_saved hr hm, Option.map_some, toList_parseAttribs h hm]
        simp [Option.filter, hempty]
      · obtain ⟨r, hr, rfl⟩ := hrows.row src inner hm
        have hid : r.sourceId ∈ (save m sources).map SourceAttribs.sourceId := by
          rw [ids_save]
          exact List.mem_map_of_mem hr
        obtain ⟨r', hr', hid'⟩ := List.mem_map.mp hid
        have htext := hnone r' hr' hid'
        rw [text_saved hr' (by rw [hid']; exact hm), String.length_eq_zero_iff,
          attribsText_eq_empty_iff] at htext
        exact absurd htext hempty

/-- A name of digits and one with a blank, and a source that has lost its attributes. -/
def sampleAttrs : SrcAttrs :=
  put (put ((∅ : SrcAttrs).insert 2 ∅) 1 "12" 3) 1 "first name" 1

def sampleSources : List SourceAttribs := [⟨1, none⟩, ⟨2, some "old,1"⟩, ⟨3, some ""⟩]

theorem sampleAttrs_storable : Storable sampleAttrs := by
  have hentries : entries sampleAttrs = [(1, "12", 3), (1, "first name", 1)] := by decide +kernel
  have hall : ∀ src a n, lookup sampleAttrs src a = some n → IsField a ∧ 0 < n := by
    intro src a n h
    have hmem := mem_entries.mpr h
    rw [hentries] at hmem
    simp only [List.mem_cons, Prod.mk.injEq, List.not_mem_nil, or_false] at hmem
    rcases hmem with ⟨-, rfl, rfl⟩ | ⟨-, rfl, rfl⟩
    · exact ⟨⟨by decide, by decide⟩, by decide⟩
    · exact ⟨⟨by decide, by decide⟩, by decide⟩
  exact ⟨fun src a n h => (hall src a n h).1, fun src a n h => (hall src a n h).2⟩

theorem sampleSources_rowed : Rowed sampleAttrs sampleSources := by
  constructor
  · intro src inner h
    rw [sampleAttrs, put, put, TreeMap.getElem?_insert, TreeMap.getElem?_insert,
      TreeMap.getElem?_insert] at h
    simp only [Std.LawfulEqOrd.compare_eq_iff_eq] at h
    by_cases hone : 1 = src
    · exact ⟨⟨1, none⟩, by decide, hone⟩
    · by_cases htwo : 2 = src
      · exact ⟨⟨2, some "old,1"⟩, by decide, htwo⟩
      · simp [hone, htwo] at h
  · intro r hr hnone
    simp only [sampleSources, List.mem_cons, List.not_mem_nil, or_false] at hr
    rcases hr with rfl | rfl | rfl
    · rfl
    · exact absurd hnone (by decide +kernel)
    · rfl

theorem attributes_round_trip_digits :
    save sampleAttrs sampleSources =
      [⟨1, some "12,3,first name,1"⟩, ⟨2, some ""⟩, ⟨3, some ""⟩] ∧
    Restores (load ∅ (save sampleAttrs sampleSources)) sampleAttrs :=
  ⟨by decide +kernel, attributes_round_trip _ _ sampleAttrs_storable sampleSources_rowed⟩

end Rhodes.AttrRoundTrip
