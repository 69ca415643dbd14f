import Mathlib
import Rhodes.AttrManager
import Rhodes.Paths

/-!
The attribute index over a run of the database. The triggers of object_values call the
attribute manager for every row that is inserted or deleted, and for no row that is
updated; endTransaction writes the index to sources and rollback leaves it as it is; open
reads it back. `Traced` excludes the steps after which the index and the rows part.
-/
namespace Rhodes.AttrIndex

open Std (TreeMap)
open Database TwoLevel Tokenizer AttrManager Paths

/-- The database and the attribute manager. `begun` is the database as BEGIN IMMEDIATE found
it, while a transaction is open. -/
structure AttrState where
  objects : ObjectTable
  sources : List SourceAttribs
  attrs : SrcAttrs
  begun : Option (ObjectTable × List SourceAttribs)

/-- A reopen in the same process keeps the map; a new process starts with an empty one. -/
inductive DbStep where
  | startTransaction
  | insert (r : ObjectValue)
  | delete (p : ObjectValue → Bool)
  | update (p : ObjectValue → Bool) (f : ObjectValue → ObjectValue)
  | endTransaction
  | rollback
  | reopen (newProcess : Bool)

/-- The calls of rhoOnDeleteObjectRecord; a NULL attribute cannot be made a String. -/
def removeAll : List ObjectValue → SrcAttrs → Option SrcAttrs
  | [], m => some m
  | r :: rows, m => r.attrib.bind (fun a => removeAll rows (remove m r.sourceId a))

/-- `none` where the step is not possible: a statement outside of a transaction, a
transaction in a transaction, or a NULL in a trigger. A statement that violates a constraint
changes nothing. -/
def dbStep : DbStep → AttrState → Option AttrState
  | .startTransaction, s =>
      if s.begun.isSome then none else some { s with begun := some (s.objects, s.sources) }
  | .insert r, s =>
      if s.begun.isNone then none
      else
        match s.objects.insert r with
        | none => some s
        | some objects =>
            r.attrib.map (fun a => { s with objects := objects, attrs := add s.attrs r.sourceId a })
  | .delete p, s =>
      if s.begun.isNone then none
      else
        (removeAll (s.objects.rows.filter p) s.attrs).map
          (fun attrs => { s with objects := s.objects.delete (fun r => p r = true), attrs := attrs })
  | .update p f, s =>
      if s.begun.isNone then none
      else
        match s.objects.update (fun r => p r = true) f with
        | none => some s
        | some objects => some { s with objects := objects }
  | .endTransaction, s =>
      if s.begun.isNone then none
      else some { s with sources := save s.attrs s.sources, begun := none }
  | .rollback, s =>
      s.begun.map (fun db => { s with objects := db.1, sources := db.2, begun := none })
  | .reopen newProcess, s =>
      if s.begun.isSome then none
      else some { s with attrs := load (if newProcess then ∅ else s.attrs) s.sources }

/-- The number of rows of a source with an attribute. -/
def rowsOf (rows : List ObjectValue) (src : Int) (a : String) : Nat :=
  rows.countP (fun r => r.sourceId = src ∧ r.attrib = some a)

/-- A counter; there is none for nothing. -/
def counter (n : Nat) : Option Int := if n = 0 then none else some n

/-- The index counts the rows. -/
def Counts (m : SrcAttrs) (rows : List ObjectValue) : Prop :=
  ∀ src a, lookup m src a = counter (rowsOf rows src a)

/-- The index is right, and getAttrsBySrc lists the attributes that exist. -/
def Indexed (s : AttrState) : Prop :=
  Counts s.attrs s.objects.rows ∧
    ∀ src a, a ∈ getAttrsBySrc s.attrs src ↔
      ∃ r ∈ s.objects.rows, r.sourceId = src ∧ r.attrib = some a

/-- The two databases have as many rows of each source and attribute. -/
def SameCounts (rows rows' : List ObjectValue) : Prop :=
  ∀ src a, rowsOf rows src a = rowsOf rows' src a

/-- The steps that keep the index right: an UPDATE keeps the number of rows of each source and
attribute, a rollback comes back to the same numbers, the names that a reopen reads from
sources are not empty and have no comma, and a new process finds a row of sources for every
source. -/
def Traced : DbStep → AttrState → Prop
  | .update p f, s => ∀ objects, s.objects.update (fun r => p r = true) f = some objects →
      SameCounts objects.rows s.objects.rows
  | .rollback, s => ∀ db, s.begun = some db → SameCounts s.objects.rows db.1.rows
  | .reopen newProcess, s => ∀ r ∈ s.objects.rows, ∀ a, r.attrib = some a →
      (r.sourceId ∈ s.sources.map SourceAttribs.sourceId → IsToken [','] a.toList) ∧
      (newProcess = true → r.sourceId ∈ s.sources.map SourceAttribs.sourceId)
  | _, _ => True

theorem mem_getAttrsBySrc {m : SrcAttrs} {src : Int} {a : String} :
    a ∈ getAttrsBySrc m src ↔ (lookup m src a).isSome = true := by
  unfold getAttrsBySrc lookup
  rw [List.mem_map, Std.TreeMap.getD_eq_getD_getElem?]
  cases hm : m[src]? with
  | none => simp
  | some inner =>
    simp only [Option.getD_some, Option.bind_some, Prod.exists, exists_and_right, exists_eq_right,
      Std.TreeMap.mem_toList_iff_getElem?_eq_some, Option.isSome_iff_exists]

theorem rowsOf_pos {rows : List ObjectValue} {src : Int} {a : String} :
    rowsOf rows src a ≠ 0 ↔ ∃ r ∈ rows, r.sourceId = src ∧ r.attrib = some a := by
  unfold rowsOf
  rw [← Nat.pos_iff_ne_zero, List.countP_pos_iff]
  simp

theorem counter_isSome {n : Nat} : (counter n).isSome = true ↔ n ≠ 0 := by
  unfold counter
  split <;> simp_all

/-- The list of the attributes follows from the counters. -/
theorem indexed_iff {s : AttrState} : Indexed s ↔ Counts s.attrs s.objects.rows := by
  refine ⟨And.left, fun h => ⟨h, fun src a => ?_⟩⟩
  rw [mem_getAttrsBySrc, h, counter_isSome, rowsOf_pos]

theorem counter_injective {n k : Nat} (h : counter n = counter k) : n = k := by
  unfold counter at h
  split at h <;> split at h
  · omega
  · cases h
  · cases h
  · have hcast := Option.some.inj h
    omega

theorem counts_add {m : SrcAttrs} {rows : List ObjectValue} (h : Counts m rows) {r : ObjectValue}
    {a : String} (ha : r.attrib = some a) : Counts (add m r.sourceId a) (rows ++ [r]) := by
  intro src a'
  rw [lookup_add, h, h]
  have hrows : rowsOf (rows ++ [r]) src a' =
      rowsOf rows src a' + if r.sourceId = src ∧ a = a' then 1 else 0 := by
    simp [rowsOf, List.countP_append, List.countP_cons, ha]
  rw [hrows]
  split
  · rename_i hsame
    obtain ⟨rfl, rfl⟩ := hsame
    by_cases hzero : rowsOf rows r.sourceId a = 0 <;> simp [counter, hzero]
  · simp

/-- The calls for a list of rows take that list off the counters. -/
theorem counts_removeAll {m m' : SrcAttrs} {n : Int → String → Nat} (gone : List ObjectValue)
    (h : removeAll gone m = some m')
    (hm : ∀ src a, lookup m src a = counter (n src a + rowsOf gone src a)) :
    ∀ src a, lookup m' src a = counter (n src a) := by
  induction gone generalizing m with
  | nil =>
    cases h
    simpa [rowsOf] using hm
  | cons r gone ih =>
    obtain ⟨a, ha, hrest⟩ := Option.bind_eq_some_iff.mp h
    apply ih hrest
    intro src a'
    rw [lookup_remove, hm, hm]
    have hrows : ∀ src' a'', rowsOf (r :: gone) src' a'' =
        rowsOf gone src' a'' + if r.sourceId = src' ∧ a = a'' then 1 else 0 := by
      intro src' a''
      simp [rowsOf, List.countP_cons, ha]
    rw [hrows, hrows]
    split
    · rename_i hsame
      obtain ⟨rfl, rfl⟩ := hsame
      rw [if_pos ⟨rfl, rfl⟩]
      by_cases hzero : n r.sourceId a + rowsOf gone r.sourceId a = 0
      · simp [counter, ← Nat.add_assoc, hzero]
      · simp only [counter, ← Nat.add_assoc]
        rw [if_neg (by omega), if_neg hzero]
        simp only [Option.bind_some]
        rw [if_neg (by omega)]
        congr 1
        omega
    · simp

theorem isSome_removeAll {m m' : SrcAttrs} (gone : List ObjectValue)
    (h : removeAll gone m = some m') {src : Int} (hsome : m[src]?.isSome = true) :
    m'[src]?.isSome = true := by
  induction gone generalizing m with
  | nil =>
    cases h
    exact hsome
  | cons r gone ih =>
    obtain ⟨a, -, hrest⟩ := Option.bind_eq_some_iff.mp h
    exact ih hrest (isSome_remove m r.sourceId src a hsome)

theorem rowsOf_filter (rows : List ObjectValue) (p : ObjectValue → Bool) (src : Int) (a : String) :
    rowsOf rows src a = rowsOf (rows.filter (fun r => ¬ p r = true)) src a +
      rowsOf (rows.filter p) src a := by
  unfold rowsOf
  induction rows with
  | nil => rfl
  | cons r rows ih =>
    rw [List.countP_cons, ih]
    cases hp : p r <;> simp [hp, List.countP_cons] <;> omega

/-- The rows that the texts in sources stand for: those of the last commit. -/
def AttrState.committed (s : AttrState) : List ObjectValue :=
  match s.begun with
  | none => s.objects.rows
  | some db => db.1.rows

/-- The index is right, the texts in sources are those of the last commit, and no source
with a text is missing in the map. -/
structure Persisted (s : AttrState) : Prop where
  counts : Counts s.attrs s.objects.rows
  unchanged : ∀ db, s.begun = some db → s.sources = db.2
  stored : ∀ r ∈ s.sources, ∃ inner : TreeMap String Int, r.text = attribsText inner ∧
    ∀ a : String, inner[a]? = counter (rowsOf s.committed r.sourceId a)
  keyed : ∀ r ∈ s.sources, r.text.length ≠ 0 → s.attrs[r.sourceId]?.isSome = true

/-- A row of sources without a text belongs to a source without rows. -/
theorem Persisted.no_rows {s : AttrState} (h : Persisted s) {r : SourceAttribs}
    (hr : r ∈ s.sources) (htext : r.text.length = 0) (a : String) :
    rowsOf s.committed r.sourceId a = 0 := by
  obtain ⟨inner, hinner, hcounts⟩ := h.stored r hr
  rw [hinner] at htext
  have hnone := getElem?_of_attribsText_empty htext a
  rw [hcounts] at hnone
  unfold counter at hnone
  split at hnone
  · assumption
  · cases hnone

theorem Counts.congr {m : SrcAttrs} {rows rows' : List ObjectValue} (h : Counts m rows)
    (hsame : SameCounts rows rows') : Counts m rows' := by
  intro src a
  rw [h, hsame]

theorem Counts.same {m : SrcAttrs} {rows rows' : List ObjectValue} (h : Counts m rows)
    (h' : Counts m rows') : SameCounts rows rows' :=
  fun src a => counter_injective ((h src a).symm.trans (h' src a))

theorem insert_rows {T T' : ObjectTable} {r : ObjectValue} (h : T.insert r = some T') :
    T'.rows = T.rows ++ [r] := by
  unfold ObjectTable.insert at h
  split at h
  · cases h
  · cases h
    rfl

/-- A statement inside a transaction that keeps the counters right. -/
theorem Persisted.statement {s : AttrState} (h : Persisted s) (hbegun : ¬ s.begun.isNone = true)
    {objects : ObjectTable} {attrs : SrcAttrs} (hcounts : Counts attrs objects.rows)
    (hkeys : ∀ src : Int, s.attrs[src]?.isSome = true → attrs[src]?.isSome = true) :
    Persisted { s with objects := objects, attrs := attrs } := by
  refine ⟨hcounts, h.unchanged, ?_, fun r hr htext => hkeys _ (h.keyed r hr htext)⟩
  have hsame : AttrState.committed { s with objects := objects, attrs := attrs } = s.committed := by
    cases hdb : s.begun with
    | none =>
      rw [hdb] at hbegun
      exact absurd rfl hbegun
    | some db => simp only [AttrState.committed, hdb]
  rw [hsame]
  exact h.stored

theorem save_persisted {s : AttrState} (h : Persisted s) :
    Persisted { s with sources := save s.attrs s.sources, begun := none } := by
  have hcounts : ∀ src a, lookup s.attrs src a = counter (rowsOf s.objects.rows src a) := h.counts
  refine ⟨h.counts, (fun db hdb => by cases hdb), ?_, ?_⟩
  · intro r hr
    rcases mem_save hr with ⟨inner, hinner, htext⟩ | ⟨hnone, hold⟩
    · refine ⟨inner, htext, fun a => ?_⟩
      rw [AttrState.committed, ← hcounts]
      simp [lookup, hinner]
    · -- A source that is not in the map has no text, and no rows.
      have htext : r.text.length = 0 := by
        by_contra hne
        have hsome := h.keyed r hold hne
        rw [hnone] at hsome
        cases hsome
      refine ⟨∅, by rw [String.length_eq_zero_iff.mp htext]; rfl, fun a => ?_⟩
      rw [AttrState.committed, ← hcounts]
      simp [lookup, hnone]
  · intro r hr htext
    rcases mem_save hr with ⟨inner, hinner, -⟩ | ⟨hnone, hold⟩
    · rw [hinner]
      rfl
    · exact h.keyed r hold htext

theorem load_counts {s : AttrState} {newProcess : Bool} (h : Persisted s) (hidle : s.begun = none)
    (hok : Traced (.reopen newProcess) s) :
    Counts (load (if newProcess then ∅ else s.attrs) s.sources) s.objects.rows := by
  have hcommitted : s.committed = s.objects.rows := by
    rw [AttrState.committed, hidle]
  intro src a
  rcases load_cases (if newProcess then ∅ else s.attrs) s.sources src with
    ⟨r, hr, rfl, -, hload⟩ | ⟨hnone, hload⟩
  · obtain ⟨inner, htext, hcounts⟩ := h.stored r hr
    rw [hcommitted] at hcounts
    have hsome : ∀ (a : String) (n : Int), inner[a]? = some n → 0 ≤ n ∧ IsToken [','] a.toList := by
      intro a n ha
      rw [hcounts] at ha
      have hpos : rowsOf s.objects.rows r.sourceId a ≠ 0 := by
        rw [← counter_isSome, ha]
        rfl
      obtain ⟨row, hrow, hsrc, hattr⟩ := rowsOf_pos.mp hpos
      have hname := (hok row hrow a hattr).1
      rw [hsrc] at hname
      refine ⟨?_, hname (List.mem_map_of_mem hr)⟩
      rw [counter, if_neg hpos, Option.some.injEq] at ha
      omega
    rw [lookup, hload, Option.bind_some, htext,
      parseAttribs_attribsText inner (fun a n ha => (hsome a n ha).2)
        (fun a n ha => (hsome a n ha).1),
      hcounts]
  · rw [lookup, hload]
    cases newProcess with
    | false => exact h.counts src a
    | true =>
      have hzero : rowsOf s.objects.rows src a = 0 := by
        by_contra hpos
        obtain ⟨row, hrow, rfl, hattr⟩ := rowsOf_pos.mp hpos
        obtain ⟨r, hr, hid⟩ := List.mem_map.mp ((hok row hrow a hattr).2 rfl)
        have hrows := h.no_rows hr (hnone r hr hid) a
        rw [hcommitted, hid] at hrows
        exact hpos hrows
      rw [hzero]
      simp [counter]

/-- One step that is taken well. -/
theorem dbStep_persisted {i : DbStep} {s s' : AttrState} (h : Persisted s)
    (hstep : dbStep i s = some s') (hok : Traced i s) : Persisted s' := by
  cases i with
  | startTransaction =>
    simp only [dbStep] at hstep
    split at hstep
    · cases hstep
    · rename_i hidle
      cases hstep
      have hnone : s.begun = none := by simpa using hidle
      have hstored := h.stored
      rw [AttrState.committed, hnone] at hstored
      exact ⟨h.counts, fun db hdb => by cases hdb; rfl, hstored, h.keyed⟩
  | insert r =>
    simp only [dbStep] at hstep
    split at hstep
    · cases hstep
    · rename_i hbegun
      split at hstep
      · cases hstep
        exact h
      · rename_i objects hinsert
        obtain ⟨a, ha, rfl⟩ := Option.map_eq_some_iff.mp hstep
        apply h.statement hbegun
        · rw [insert_rows hinsert]
          exact counts_add h.counts ha
        · exact fun src hsrc => isSome_add _ _ _ _ hsrc
  | delete p =>
    simp only [dbStep] at hstep
    split at hstep
    · cases hstep
    · rename_i hbegun
      obtain ⟨attrs, hremove, rfl⟩ := Option.map_eq_some_iff.mp hstep
      apply h.statement hbegun
      · refine counts_removeAll _ hremove (fun src a => ?_)
        rw [h.counts, rowsOf_filter s.objects.rows p]
        rfl
      · exact fun src hsrc => isSome_removeAll _ hremove hsrc
  | update p f =>
    simp only [dbStep] at hstep
    split at hstep
    · cases hstep
    · rename_i hbegun
      split at hstep
      · cases hstep
        exact h
      · rename_i objects hupdate
        cases hstep
        apply h.statement hbegun
        · exact h.counts.congr (fun src a => (hok objects hupdate src a).symm)
        · exact fun src hsrc => hsrc
  | endTransaction =>
    simp only [dbStep] at hstep
    split at hstep
    · cases hstep
    · cases hstep
      exact save_persisted h
  | rollback =>
    obtain ⟨db, hdb, rfl⟩ := Option.map_eq_some_iff.mp hstep
    have hsources := h.unchanged db hdb
    have hstored := h.stored
    rw [AttrState.committed, hdb] at hstored
    refine ⟨h.counts.congr (hok db hdb), (fun db' hdb' => by cases hdb'), ?_, ?_⟩
    · rw [← hsources]
      exact hstored
    · rw [← hsources]
      exact h.keyed
  | reopen newProcess =>
    simp only [dbStep] at hstep
    split at hstep
    · cases hstep
    · rename_i hbegun
      cases hstep
      have hidle : s.begun = none := by simpa using hbegun
      refine ⟨load_counts h hidle hok, h.unchanged, h.stored, ?_⟩
      intro r hr htext
      rcases load_cases (if newProcess then ∅ else s.attrs) s.sources r.sourceId with
        ⟨r', -, -, -, hload⟩ | ⟨hnone, -⟩
      · rw [hload]
        rfl
      · exact absurd (hnone r hr rfl) htext

/-- A step that is not taken well shows in the index. -/
theorem traced_of_indexed {i : DbStep} {s s' : AttrState} (h : Persisted s)
    (hstep : dbStep i s = some s') (h' : Indexed s') : Traced i s := by
  have hcounts' := h'.1
  cases i with
  | update p f =>
    intro objects hupdate
    simp only [dbStep, hupdate] at hstep
    split at hstep
    · cases hstep
    · cases hstep
      exact hcounts'.same h.counts
  | rollback =>
    intro db hdb
    simp only [dbStep, hdb, Option.map_some, Option.some.injEq] at hstep
    subst hstep
    exact h.counts.same hcounts'
  | reopen newProcess =>
    simp only [dbStep] at hstep
    split at hstep
    · cases hstep
    · rename_i hbegun
      cases hstep
      have hcommitted : s.committed = s.objects.rows := by
        rw [AttrState.committed, show s.begun = none by simpa using hbegun]
      intro row hrow a hattr
      have hpos : rowsOf s.objects.rows row.sourceId a ≠ 0 := rowsOf_pos.mpr ⟨row, hrow, rfl, hattr⟩
      have hfound := hcounts' row.sourceId a
      simp only [counter, if_neg hpos, lookup] at hfound
      rcases load_cases (if newProcess then ∅ else s.attrs) s.sources row.sourceId with
        ⟨r, hr, hid, -, hload⟩ | ⟨hnone, hload⟩
      · rw [hload, Option.bind_some] at hfound
        exact ⟨fun _ => isToken_of_parseAttribs hfound, fun _ => List.mem_map.mpr ⟨r, hr, hid⟩⟩
      · constructor
        · intro hmem
          obtain ⟨r, hr, hid⟩ := List.mem_map.mp hmem
          have hrows := h.no_rows hr (hnone r hr hid) a
          rw [hcommitted, hid] at hrows
          exact absurd hrows hpos
        · rintro rfl
          rw [hload] at hfound
          simp at hfound
  | _ => trivial

/-- A new database with these sources. -/
def AttrState.start (ids : List Int) : AttrState :=
  ⟨.empty, ids.map (fun id => ⟨id, none⟩), ∅, none⟩

theorem start_persisted (ids : List Int) : Persisted (AttrState.start ids) := by
  have htext : ∀ r ∈ (AttrState.start ids).sources, r.text = "" := by
    intro r hr
    obtain ⟨id, -, rfl⟩ := List.mem_map.mp hr
    rfl
  refine ⟨?_, (fun db hdb => by cases hdb), ?_, ?_⟩
  · intro src a
    exact lookup_empty src a
  · intro r hr
    refine ⟨∅, htext r hr, fun a => ?_⟩
    simp [AttrState.committed, AttrState.start, ObjectTable.empty, rowsOf, counter]
  · intro r hr hne
    rw [htext r hr] at hne
    exact absurd rfl hne

/-- The index counts the rows in every state of a run exactly when each of its steps keeps it
right. -/
theorem index_counts_rows (ids : List Int) {t : AttrState} {us : List (DbStep × AttrState)}
    (hrun : Path dbStep (AttrState.start ids) us t) :
    (∀ x ∈ us.map Prod.snd ++ [t], Indexed x) ↔ ∀ p ∈ us, Traced p.1 p.2 :=
  hrun.holds_iff (fun _ h => indexed_iff.mpr h.counts)
    (fun _ _ _ h hstep hok => dbStep_persisted h hstep hok)
    (fun _ _ _ h hstep h' => traced_of_indexed h hstep h') (start_persisted ids)

def sampleRow : ObjectValue := ⟨1, 1, some "name", some "x", some "v", none⟩

/-- The states of a transaction with one insert. -/
def opened : AttrState := { AttrState.start [1] with begun := some (.empty, [⟨1, none⟩]) }

def inserted : AttrState :=
  { opened with objects := ⟨[sampleRow], by simp⟩, attrs := add ∅ 1 "name" }

/-- The insert is rolled back, and the index still has its attribute. -/
theorem rollback_keeps_counter : ∃ us t, Path dbStep (AttrState.start [1]) us t ∧
    ¬ (∀ x ∈ us.map Prod.snd ++ [t], Indexed x) ∧
    t.objects.rows = [] ∧ getAttrsBySrc t.attrs 1 = ["name"] := by
  have hrun : Path dbStep (AttrState.start [1])
      [(.startTransaction, AttrState.start [1]), (.insert sampleRow, opened), (.rollback, inserted)]
      { inserted with objects := .empty, begun := none } :=
    Path.cons rfl (Path.cons rfl (Path.cons rfl (Path.nil _)))
  have hattrs : getAttrsBySrc inserted.attrs 1 = ["name"] := by decide +kernel
  refine ⟨_, _, hrun, fun hall => ?_, rfl, hattrs⟩
  have hlast := (hall { inserted with objects := .empty, begun := none } (by simp)).2 1 "name"
  have hmem : "name" ∈ getAttrsBySrc inserted.attrs 1 := by
    rw [hattrs]
    exact List.mem_singleton_self _
  obtain ⟨r, hr, -⟩ := hlast.mp hmem
  cases hr

/-- The state after the insert has been committed, and as a new process finds it. -/
def committedOne : AttrState :=
  { inserted with sources := [⟨1, some "name,1"⟩], begun := none }

def reopenedOne : AttrState := { committedOne with attrs := load ∅ [⟨1, some "name,1"⟩] }

/-- An insert is committed and the database is opened by a new process. -/
theorem index_counts_rows_reopened : ∃ us, Path dbStep (AttrState.start [1]) us reopenedOne ∧
    (∀ p ∈ us, Traced p.1 p.2) ∧
    ∀ x ∈ us.map Prod.snd ++ [reopenedOne], Indexed x := by
  have hsave : save inserted.attrs [⟨1, none⟩] = [⟨1, some "name,1"⟩] := by decide +kernel
  have hend : dbStep .endTransaction inserted = some committedOne := by
    show some { inserted with sources := save inserted.attrs [⟨1, none⟩], begun := none } = _
    rw [hsave]
    rfl
  have hrun : Path dbStep (AttrState.start [1])
      [(.startTransaction, AttrState.start [1]), (.insert sampleRow, opened),
        (.endTransaction, inserted), (.reopen true, committedOne)] reopenedOne :=
    Path.cons rfl (Path.cons rfl (Path.cons hend (Path.cons rfl (Path.nil _))))
  have htraced : ∀ p ∈ [(DbStep.startTransaction, AttrState.start [1]), (.insert sampleRow, opened),
      (.endTransaction, inserted), (.reopen true, committedOne)], Traced p.1 p.2 := by
    intro p hp
    simp only [List.mem_cons, List.not_mem_nil, or_false] at hp
    rcases hp with rfl | rfl | rfl | rfl
    · trivial
    · trivial
    · trivial
    · intro r hr a ha
      rw [List.mem_singleton.mp hr] at ha ⊢
      cases ha
      exact ⟨fun _ => ⟨by decide, by simp⟩, fun _ => List.mem_singleton_self _⟩
  exact ⟨_, hrun, htraced, (index_counts_rows [1] hrun).mpr htraced⟩

end Rhodes.AttrIndex
