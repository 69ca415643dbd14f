import Mathlib.Data.List.TakeWhile

/-!
A list that is cut at the first occurrence of an element, or that has no such element.
-/
namespace Rhodes.Cut

variable {α : Type} [DecidableEq α] {x : α}

theorem keeps_of_not_mem {xs : List α} (h : x ∉ xs) : ∀ y ∈ xs, decide (y ≠ x) = true := by
  intro y hy
  simp only [ne_eq, decide_not, Bool.not_eq_true', decide_eq_false_iff_not]
  intro heq
  exact h (heq ▸ hy)

theorem takeWhile_ne {xs : List α} (h : x ∉ xs) : xs.takeWhile (fun y => y ≠ x) = xs :=
  List.takeWhile_eq_self_iff.mpr (keeps_of_not_mem h)

theorem takeWhile_upTo {front : List α} (h : x ∉ front) (back : List α) :
    (front ++ x :: back).takeWhile (fun y => y ≠ x) = front := by
  rw [List.takeWhile_append_of_pos (keeps_of_not_mem h)]
  simp

theorem dropWhile_upTo {front : List α} (h : x ∉ front) (back : List α) :
    (front ++ x :: back).dropWhile (fun y => y ≠ x) = x :: back := by
  rw [List.dropWhile_append_of_pos (keeps_of_not_mem h)]
  simp

theorem not_mem_takeWhile (x : α) (xs : List α) : x ∉ xs.takeWhile (fun y => y ≠ x) := by
  intro hmem
  simpa using List.mem_takeWhile_imp hmem

/-- A list with the element is the part before its first occurrence, the element and the rest. -/
theorem cut_of_mem {xs : List α} (h : x ∈ xs) :
    xs = xs.takeWhile (fun y => y ≠ x) ++ x :: (xs.dropWhile (fun y => y ≠ x)).tail := by
  obtain ⟨front, back, rfl, hfront⟩ := List.eq_append_cons_of_mem h
  rw [takeWhile_upTo hfront, dropWhile_upTo hfront]
  rfl

end Rhodes.Cut
