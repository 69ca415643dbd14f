import Mathlib.Data.String.Basic
import Rhodes.Comparing
import Rhodes.Rhom

/-!
The block that find and find_bycondhash pass to sort!. Two objects are compared by the order
attribute where both have it, and count as equal where one of them lacks it, so that an object
without the attribute stands between any two others.
-/
namespace Rhodes.SortBlock

open Rhom Comparing

/-- `<=>` of two strings. -/
def spaceship (x y : String) : Int := if x < y then -1 else if x = y then 0 else 1

/-- The block of sort! on the two values of the order attribute. -/
def compareVars (block : Option (String → String → Int)) (orderDir : String)
    (vx vy : Option String) : Int :=
  let res := match vx, vy with
    | some x, some y => block.getD spaceship x y
    | _, _ => 0
  if orderDir = "DESC" then res * -1 else res

def sortBlock (block : Option (String → String → Int)) (orderDir orderAttr : String)
    (x y : RhomObject) : Int :=
  compareVars block orderDir (getVar x.vars orderAttr) (getVar y.vars orderAttr)

/-- The values that the objects have, in their order. -/
def valuesOf (orderAttr : String) (objects : List RhomObject) : List String :=
  objects.filterMap (fun o => getVar o.vars orderAttr)

/-- The block is a total preorder on the objects, and whatever the algorithm and the order of its
input are, the values come out non-decreasing, or non-increasing for DESC. -/
structure WellDefined (block : Option (String → String → Int)) (orderDir orderAttr : String)
    (objects : List RhomObject) : Prop where
  preorder : PreordersOn (sortBlock block orderDir orderAttr) {o | o ∈ objects}
  sorted : ∀ sort, Sorts sort → ∀ input, input.Perm objects →
    (valuesOf orderAttr (sort (sortBlock block orderDir orderAttr) input)).Pairwise
      (fun x y => if orderDir = "DESC" then 0 ≤ block.getD spaceship x y
        else block.getD spaceship x y ≤ 0)

/-- Two values as the block compares them. -/
def compareValues (block : Option (String → String → Int)) (orderDir : String) (x y : String) :
    Int :=
  compareVars block orderDir (some x) (some y)

theorem preordersOn_spaceship : PreordersOn spaceship Set.univ where
  swap x _ y _ := by
    unfold spaceship
    rcases lt_trichotomy x y with hlt | rfl | hgt
    · rw [if_pos hlt, if_neg (lt_asymm hlt), if_neg hlt.ne']
      decide
    · simp
    · rw [if_neg (lt_asymm hgt), if_neg hgt.ne', if_pos hgt]
      decide
  trans x _ y _ z _ hxy hyz := by
    have hle : ∀ a b : String, spaceship a b ≤ 0 ↔ a ≤ b := by
      intro a b
      unfold spaceship
      rcases lt_trichotomy a b with hlt | rfl | hgt
      · simp [hlt, hlt.le]
      · simp
      · simp [lt_asymm hgt, hgt.ne', hgt]
    rw [hle] at hxy hyz ⊢
    exact hxy.trans hyz

variable {block : Option (String → String → Int)} {orderDir orderAttr : String}
  {objects : List RhomObject}

/-- Without a block, or with one that is a total preorder, values are compared well. -/
theorem preordersOn_compareValues (hblock : ∀ f, block = some f → PreordersOn f Set.univ) :
    PreordersOn (compareValues block orderDir) Set.univ := by
  have hvalues : PreordersOn (block.getD spaceship) Set.univ := by
    cases block with
    | none => exact preordersOn_spaceship
    | some f => exact hblock f rfl
  unfold compareValues compareVars
  by_cases hdesc : orderDir = "DESC"
  · simp only [hdesc, if_true]
    exact hvalues.neg
  · simp only [hdesc, if_false]
    exact hvalues

theorem compareValues_le (x y : String) : compareValues block orderDir x y ≤ 0 ↔
    if orderDir = "DESC" then 0 ≤ block.getD spaceship x y else block.getD spaceship x y ≤ 0 := by
  unfold compareValues compareVars
  by_cases hdesc : orderDir = "DESC"
  · simp [hdesc]
  · simp [hdesc]

theorem compareValues_eq_zero (x y : String) :
    compareValues block orderDir x y = 0 ↔ block.getD spaceship x y = 0 := by
  unfold compareValues compareVars
  by_cases hdesc : orderDir = "DESC"
  · simp [hdesc]
  · simp [hdesc]

theorem sortBlock_of_some {o o' : RhomObject} {x y : String}
    (hx : getVar o.vars orderAttr = some x) (hy : getVar o'.vars orderAttr = some y) :
    sortBlock block orderDir orderAttr o o' = compareValues block orderDir x y := by
  unfold sortBlock compareValues
  rw [hx, hy]

/-- An object without the attribute is equal to every other. -/
theorem sortBlock_of_none {o : RhomObject} (h : getVar o.vars orderAttr = none) (o' : RhomObject) :
    sortBlock block orderDir orderAttr o o' = 0 ∧ sortBlock block orderDir orderAttr o' o = 0 := by
  unfold sortBlock compareVars
  rw [h]
  cases getVar o'.vars orderAttr <;> simp

/-- All objects have the attribute. -/
def AllHave (orderAttr : String) (objects : List RhomObject) : Prop :=
  ∀ o ∈ objects, (getVar o.vars orderAttr).isSome

/-- Of two values of the attribute none is before the other. -/
def AllEqual (block : Option (String → String → Int)) (orderAttr : String)
    (objects : List RhomObject) : Prop :=
  ∀ x ∈ valuesOf orderAttr objects, ∀ y ∈ valuesOf orderAttr objects, block.getD spaceship x y = 0

theorem mem_valuesOf {x : String} :
    x ∈ valuesOf orderAttr objects ↔ ∃ o ∈ objects, getVar o.vars orderAttr = some x :=
  List.mem_filterMap

theorem preordersOn_of_allHave (hblock : ∀ f, block = some f → PreordersOn f Set.univ)
    (h : AllHave orderAttr objects) :
    PreordersOn (sortBlock block orderDir orderAttr) {o | o ∈ objects} :=
  (preordersOn_compareValues hblock).of_values
    (f := fun o : RhomObject => getVar o.vars orderAttr)
    (fun o ho => Option.isSome_iff_exists.mp (h o ho))
    (fun _ _ _ _ _ _ hv hw => sortBlock_of_some hv hw)

theorem preordersOn_of_allEqual (h : AllEqual block orderAttr objects) :
    PreordersOn (sortBlock block orderDir orderAttr) {o | o ∈ objects} := by
  refine .of_equal ?_
  intro o ho o' ho'
  cases hx : getVar o.vars orderAttr with
  | none => exact (sortBlock_of_none hx o').1
  | some x =>
    cases hy : getVar o'.vars orderAttr with
    | none => exact (sortBlock_of_none hy o).2
    | some y =>
      rw [sortBlock_of_some hx hy]
      exact (compareValues_eq_zero x y).mpr
        (h x (mem_valuesOf.mpr ⟨o, ho, hx⟩) y (mem_valuesOf.mpr ⟨o', ho', hy⟩))

/-- A missing value makes values equal that are not: it is equal to both of them. -/
theorem allEqual_of_preordersOn
    (h : PreordersOn (sortBlock block orderDir orderAttr) {o | o ∈ objects})
    {missing : RhomObject} (hmem : missing ∈ objects)
    (hnone : getVar missing.vars orderAttr = none) :
    AllEqual block orderAttr objects := by
  intro x hx y hy
  obtain ⟨o, ho, hox⟩ := mem_valuesOf.mp hx
  obtain ⟨o', ho', hoy⟩ := mem_valuesOf.mp hy
  have hmissing : ∀ o, sortBlock block orderDir orderAttr missing o = 0 ∧
      sortBlock block orderDir orderAttr o missing = 0 := sortBlock_of_none hnone
  have hle := h.trans o ho missing hmem o' ho' (hmissing o).2.le (hmissing o').1.le
  have hge := h.trans o' ho' missing hmem o ho (hmissing o').2.le (hmissing o).1.le
  rw [h.swap o' ho' o ho] at hge
  rw [sortBlock_of_some hox hoy] at hle hge
  exact (compareValues_eq_zero x y).mp (le_antisymm hle hge)

/-- The values of a list that is sorted by the block. -/
theorem pairwise_valuesOf {l : List RhomObject}
    (h : l.Pairwise (fun o o' => sortBlock block orderDir orderAttr o o' ≤ 0)) :
    (valuesOf orderAttr l).Pairwise (fun x y => compareValues block orderDir x y ≤ 0) := by
  refine List.Pairwise.filterMap _ ?_ h
  intro o o' hle x hx y hy
  rw [sortBlock_of_some hx hy] at hle
  exact hle

theorem wellDefined_of_preordersOn
    (h : PreordersOn (sortBlock block orderDir orderAttr) {o | o ∈ objects}) :
    WellDefined block orderDir orderAttr objects := by
  refine ⟨h, ?_⟩
  intro sort hsort input hperm
  have hinput : PreordersOn (sortBlock block orderDir orderAttr) {o | o ∈ input} :=
    h.mono (fun o ho => hperm.mem_iff.mp ho)
  have hvalues := pairwise_valuesOf (hsort.sorted _ input hinput)
  exact hvalues.imp (fun hle => (compareValues_le _ _).mp hle)

/-- Sorting is well defined just where no object lacks the attribute, or no two of the values
that are there differ. -/
theorem sort_well_defined_iff (hblock : ∀ f, block = some f → PreordersOn f Set.univ) :
    WellDefined block orderDir orderAttr objects ↔
      AllHave orderAttr objects ∨ AllEqual block orderAttr objects := by
  constructor
  · intro h
    by_cases hall : AllHave orderAttr objects
    · exact .inl hall
    · unfold AllHave at hall
      push Not at hall
      obtain ⟨missing, hmem, hnone⟩ := hall
      have hnone := Option.not_isSome_iff_eq_none.mp hnone
      exact .inr (allEqual_of_preordersOn h.preorder hmem hnone)
  · rintro (hall | hequal)
    · exact wellDefined_of_preordersOn (preordersOn_of_allHave hblock hall)
    · exact wellDefined_of_preordersOn (preordersOn_of_allEqual hequal)

/-- A block that a caller passes: shorter values come first. -/
def byLength (x y : String) : Int := x.length - y.length

theorem preordersOn_byLength : PreordersOn byLength Set.univ where
  swap x _ y _ := by
    unfold byLength
    omega
  trans x _ y _ z _ hxy hyz := by
    unfold byLength at *
    omega

/-- Three objects with names, two of them of one length. -/
def named : List RhomObject :=
  [⟨1, false, [("kind", some "x"), ("name", some "bb")]⟩,
    ⟨1, false, [("kind", some "x"), ("name", some "a")]⟩,
    ⟨1, false, [("kind", some "x"), ("name", some "cc")]⟩]

theorem sort_well_defined_iff_named : WellDefined (some byLength) "DESC" "name" named :=
  (sort_well_defined_iff (by rintro f ⟨⟩; exact preordersOn_byLength)).mpr
    (.inl (by unfold AllHave; decide))

/-- What find with the conditions 'kind' => 'x' has to sort: three objects, the second one without
a name. -/
def unnamedBetween : List RhomObject :=
  [⟨1, false, [("kind", some "x"), ("name", some "b")]⟩, ⟨1, false, [("kind", some "x")]⟩,
    ⟨1, false, [("kind", some "x"), ("name", some "a")]⟩]

/-- The order of the names is not found out: insertion sort leaves the list as it is. -/
theorem unnamed_between_unsorted : ¬WellDefined none "" "name" unnamedBetween ∧
    valuesOf "name" (unnamedBetween.insertionSort
      (fun o o' => sortBlock none "" "name" o o' ≤ 0)) = ["b", "a"] := by
  have hvalues : valuesOf "name" (unnamedBetween.insertionSort
      (fun o o' => sortBlock none "" "name" o o' ≤ 0)) = ["b", "a"] := by decide
  refine ⟨?_, hvalues⟩
  intro h
  have hsorted := h.sorted _ sorts_insertionSort unnamedBetween (List.Perm.refl _)
  rw [hvalues] at hsorted
  revert hsorted
  decide

end Rhodes.SortBlock
