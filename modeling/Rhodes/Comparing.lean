import Mathlib.Data.List.Sort

/-!
Comparators that answer with a negative number, zero or a positive number. A sorting algorithm
promises a sorted list only where the answers for its elements are those of a total preorder.
Nothing here refers to particular values.
-/
namespace Rhodes.Comparing

variable {α β : Type*}

/-- The answers for the elements of a set are those of a total preorder. -/
structure PreordersOn (cmp : α → α → Int) (s : Set α) : Prop where
  swap : ∀ x ∈ s, ∀ y ∈ s, (cmp x y ≤ 0 ↔ 0 ≤ cmp y x)
  trans : ∀ x ∈ s, ∀ y ∈ s, ∀ z ∈ s, cmp x y ≤ 0 → cmp y z ≤ 0 → cmp x z ≤ 0

/-- An algorithm that sorts by the answers of a comparator. -/
structure Sorts (sort : (α → α → Int) → List α → List α) : Prop where
  perm : ∀ cmp l, (sort cmp l).Perm l
  sorted : ∀ cmp l, PreordersOn cmp {x | x ∈ l} →
    (sort cmp l).Pairwise (fun x y => cmp x y ≤ 0)

section Preorders

variable {cmp : α → α → Int} {s : Set α}

theorem PreordersOn.total (h : PreordersOn cmp s) {x y : α} (hx : x ∈ s) (hy : y ∈ s) :
    cmp x y ≤ 0 ∨ cmp y x ≤ 0 := by
  rcases le_total (cmp x y) 0 with hle | hge
  · exact .inl hle
  · exact .inr ((h.swap y hy x hx).mpr hge)

theorem PreordersOn.mono {t : Set α} (h : PreordersOn cmp s) (hts : t ⊆ s) : PreordersOn cmp t where
  swap x hx y hy := h.swap x (hts hx) y (hts hy)
  trans x hx y hy z hz := h.trans x (hts hx) y (hts hy) z (hts hz)

/-- The other direction. -/
theorem PreordersOn.neg (h : PreordersOn cmp s) : PreordersOn (fun x y => cmp x y * -1) s where
  swap x hx y hy := by
    have hswap := h.swap y hy x hx
    omega
  trans x hx y hy z hz hxy hyz := by
    have hyx : cmp y x ≤ 0 := (h.swap y hy x hx).mpr (by omega)
    have hzy : cmp z y ≤ 0 := (h.swap z hz y hy).mpr (by omega)
    have hzx := (h.swap z hz x hx).mp (h.trans z hz y hy x hx hzy hyx)
    omega

/-- Elements compared by a value that they all have. -/
theorem PreordersOn.of_values {f : α → Option β} {byValue : β → β → Int}
    (h : PreordersOn byValue Set.univ)
    (hs : ∀ x ∈ s, ∃ v, f x = some v)
    (hcmp : ∀ x ∈ s, ∀ y ∈ s, ∀ v w, f x = some v → f y = some w → cmp x y = byValue v w) :
    PreordersOn cmp s where
  swap x hx y hy := by
    obtain ⟨v, hv⟩ := hs x hx
    obtain ⟨w, hw⟩ := hs y hy
    rw [hcmp x hx y hy v w hv hw, hcmp y hy x hx w v hw hv]
    exact h.swap v trivial w trivial
  trans x hx y hy z hz hxy hyz := by
    obtain ⟨v, hv⟩ := hs x hx
    obtain ⟨w, hw⟩ := hs y hy
    obtain ⟨u, hu⟩ := hs z hz
    rw [hcmp x hx y hy v w hv hw] at hxy
    rw [hcmp y hy z hz w u hw hu] at hyz
    rw [hcmp x hx z hz v u hv hu]
    exact h.trans v trivial w trivial u trivial hxy hyz

/-- Elements that all count as equal. -/
theorem PreordersOn.of_equal (h : ∀ x ∈ s, ∀ y ∈ s, cmp x y = 0) : PreordersOn cmp s where
  swap x hx y hy := by rw [h x hx y hy, h y hy x hx]
  trans x hx _ _ z hz _ _ := le_of_eq (h x hx z hz)

end Preorders

/-- Insertion sort is such an algorithm. -/
theorem sorts_insertionSort :
    Sorts (fun (cmp : α → α → Int) l => l.insertionSort (fun x y => cmp x y ≤ 0)) where
  perm cmp l := List.perm_insertionSort _ l
  sorted cmp l h := by
    let r : {x // x ∈ l} → {x // x ∈ l} → Prop := fun x y => cmp x y ≤ 0
    have htotal : Std.Total r := ⟨fun x y => h.total x.property y.property⟩
    have htrans : IsTrans _ r :=
      ⟨fun x y z => h.trans x x.property y y.property z z.property⟩
    have hsorted := List.pairwise_insertionSort r l.attach
    have hmap := List.map_insertionSort (r := r) (s := fun x y => cmp x y ≤ 0) Subtype.val l.attach
      (fun _ _ _ _ => Iff.rfl)
    rw [List.attach_map_subtype_val] at hmap
    rw [← hmap, List.pairwise_map]
    exact hsorted

end Rhodes.Comparing
