import Mathlib.Data.List.Basic

/-!
Arrays as Java has them: a copy between two arrays either fits into both or throws, and a
method that throws keeps what it has written to its objects so far. A run of values of a
function on the positions is a segment; a copy puts a segment in the place of a part of the
target.
-/
namespace Rhodes.Arrays

/-- A long or a sum of two ints, as an int holds it. -/
def toInt (x : Int) : Int := x.bmod 4294967296

theorem toInt_eq {x : Int} (hlow : -2147483648 ≤ x) (hhigh : x < 2147483648) : toInt x = x := by
  unfold toInt
  rw [Int.bmod_def]
  split <;> omega

section Result

variable {ε σ α β : Type}

theorem bind_ok {x : EStateM ε σ α} {s s' : σ} {a : α} (h : x s = .ok a s')
    (f : α → EStateM ε σ β) : (x >>= f) s = f a s' := by
  show EStateM.bind x f s = f a s'
  rw [EStateM.bind, h]

theorem bind_get (f : σ → EStateM ε σ β) (s : σ) : ((get : EStateM ε σ σ) >>= f) s = f s s := rfl

end Result

section Splice

variable {α : Type}

/-- The list with the segment in the place of its elements from the position on. -/
def splice (dst : List α) (pos : Nat) (seg : List α) : List α :=
  dst.take pos ++ seg ++ dst.drop (pos + seg.length)

theorem splice_nil (dst : List α) (pos : Nat) : splice dst pos [] = dst := by
  simp [splice]

theorem length_splice {dst seg : List α} {pos : Nat} (h : pos + seg.length ≤ dst.length) :
    (splice dst pos seg).length = dst.length := by
  simp only [splice, List.length_append, List.length_take, List.length_drop]
  omega

theorem getElem?_splice {dst seg : List α} {pos : Nat} (h : pos + seg.length ≤ dst.length)
    (j : Nat) : (splice dst pos seg)[j]? =
      if pos ≤ j ∧ j < pos + seg.length then seg[j - pos]? else dst[j]? := by
  have htake : (dst.take pos).length = pos := by
    rw [List.length_take]
    omega
  unfold splice
  rw [List.append_assoc, List.getElem?_append, htake]
  by_cases hlow : j < pos
  · rw [if_pos hlow, List.getElem?_take_of_lt hlow, if_neg (by omega)]
  · rw [if_neg hlow, List.getElem?_append]
    by_cases hhigh : j - pos < seg.length
    · rw [if_pos hhigh, if_pos (by omega)]
    · rw [if_neg hhigh, if_neg (by omega), List.getElem?_drop]
      congr 1
      omega

/-- A segment that follows another one. -/
theorem splice_splice (dst : List α) {s t : List α} (pos : Nat) (h : pos + s.length ≤ dst.length) :
    splice (splice dst pos s) (pos + s.length) t = splice dst pos (s ++ t) := by
  have htake : (splice dst pos s).take (pos + s.length) = dst.take pos ++ s := by
    apply List.take_left'
    rw [List.length_append, List.length_take]
    omega
  have hdrop : (splice dst pos s).drop (pos + s.length + t.length) =
      dst.drop (pos + s.length + t.length) := by
    rw [← List.drop_drop]
    have hleft : (splice dst pos s).drop (pos + s.length) = dst.drop (pos + s.length) := by
      apply List.drop_left'
      rw [List.length_append, List.length_take]
      omega
    rw [hleft, List.drop_drop]
  rw [splice, htake, hdrop, splice, List.length_append]
  simp only [List.append_assoc, Nat.add_assoc]

end Splice

section Segment

variable {α : Type}

/-- The values on a number of positions from the first one on. -/
def segment (g : Nat → α) (pos count : Nat) : List α := (List.range' pos count).map g

@[simp] theorem length_segment (g : Nat → α) (pos count : Nat) :
    (segment g pos count).length = count := by
  simp [segment]

@[simp] theorem segment_zero (g : Nat → α) (pos : Nat) : segment g pos 0 = [] := rfl

theorem getElem?_segment (g : Nat → α) (pos : Nat) {count j : Nat} (h : j < count) :
    (segment g pos count)[j]? = some (g (pos + j)) := by
  simp [segment, h]

theorem segment_append (g : Nat → α) (pos m n : Nat) :
    segment g pos m ++ segment g (pos + m) n = segment g pos (m + n) := by
  unfold segment
  rw [← List.map_append]
  simp

theorem segment_congr {g : Nat → α} (g' : Nat → α) {pos count : Nat}
    (h : ∀ i, pos ≤ i → i < pos + count → g i = g' i) :
    segment g pos count = segment g' pos count := by
  apply List.map_congr_left
  intro i hi
  rw [List.mem_range'_1] at hi
  exact h i hi.1 hi.2

/-- The function with the segment in the place of its values from the position on. -/
def overlay (g : Nat → α) (pos : Nat) (seg : List α) : Nat → α := fun i =>
  if pos ≤ i then seg[i - pos]?.getD (g i) else g i

theorem overlay_of_lt (g : Nat → α) {pos i : Nat} (seg : List α) (h : i < pos) :
    overlay g pos seg i = g i :=
  if_neg (by omega)

theorem overlay_of_le (g : Nat → α) {pos i : Nat} {seg : List α} (h : pos + seg.length ≤ i) :
    overlay g pos seg i = g i := by
  have hnone : seg[i - pos]? = none := List.getElem?_eq_none (by omega)
  rw [overlay, hnone, if_pos (by omega)]
  rfl

theorem overlay_nil (g : Nat → α) (pos : Nat) : overlay g pos [] = g := by
  funext i
  simp [overlay]

theorem overlay_append (g : Nat → α) (pos : Nat) (s t : List α) :
    overlay (overlay g pos s) (pos + s.length) t = overlay g pos (s ++ t) := by
  funext i
  unfold overlay
  by_cases hpos : pos ≤ i
  · rw [if_pos hpos, if_pos hpos, List.getElem?_append]
    by_cases hs : i - pos < s.length
    · rw [if_pos hs, if_neg (by omega)]
    · have hnone : s[i - pos]? = none := List.getElem?_eq_none (by omega)
      rw [if_neg hs, if_pos (by omega), hnone, Nat.sub_add_eq]
      rfl
  · rw [if_neg hpos, if_neg hpos, if_neg (by omega)]

theorem segment_overlay (g : Nat → α) (pos : Nat) (seg : List α) :
    segment (overlay g pos seg) pos seg.length = seg := by
  apply List.ext_getElem?
  intro j
  by_cases hj : j < seg.length
  · rw [getElem?_segment _ _ hj, overlay, if_pos (by omega), Nat.add_sub_cancel_left]
    rw [List.getElem?_eq_getElem hj]
    rfl
  · rw [List.getElem?_eq_none (by simpa using Nat.le_of_not_lt hj),
      List.getElem?_eq_none (Nat.le_of_not_lt hj)]

end Segment

/-- System.arraycopy into the target as it is afterwards. -/
def arraycopy {α : Type} (src : List α) (srcPos : Nat) (dst : List α) (dstPos length : Nat) :
    Option (List α) :=
  if srcPos + length ≤ src.length ∧ dstPos + length ≤ dst.length then
    some (splice dst dstPos ((src.drop srcPos).take length))
  else none

theorem arraycopy_eq {α : Type} {src dst : List α} {srcPos dstPos length : Nat}
    (hsrc : srcPos + length ≤ src.length) (hdst : dstPos + length ≤ dst.length) :
    arraycopy src srcPos dst dstPos length =
      some (splice dst dstPos ((src.drop srcPos).take length)) :=
  if_pos ⟨hsrc, hdst⟩

end Rhodes.Arrays
