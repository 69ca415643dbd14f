import Rhodes.Arrays

/-!
A bounded buffer that is written in laps. A lap begins at the first place and goes on as long
as what is added fits; then the next lap begins over it. At every place of the buffer stands
what the newest lap that got there has written. Nothing here refers to a particular buffer.
-/
namespace Rhodes.LapBuffer

open Rhodes.Arrays (splice)

variable {α : Type}

/-- The current lap and the laps before it, the newest first. -/
structure Laps (α : Type) where
  lap : List α
  laps : List (List α)

def empty : Laps α := ⟨[], []⟩

/-- The newest lap at every place. -/
def overlaid : List (List α) → List α
  | [] => []
  | lap :: laps => lap ++ (overlaid laps).drop lap.length

namespace Laps

def content (l : Laps α) : List α := overlaid (l.lap :: l.laps)

/-- Everything that was added, in order. -/
def stream (l : Laps α) : List α := l.laps.reverse.flatten ++ l.lap

/-- Where the next piece goes. -/
def place (bound : Nat) (l : Laps α) (piece : List α) : Nat :=
  if l.lap.length + piece.length ≤ bound then l.lap.length else 0

def add (bound : Nat) (l : Laps α) (piece : List α) : Laps α :=
  if l.lap.length + piece.length ≤ bound then ⟨l.lap ++ piece, l.laps⟩
  else ⟨piece, l.lap :: l.laps⟩

variable (bound : Nat) (l : Laps α) (piece : List α)

theorem content_eq : l.content = l.lap ++ (overlaid l.laps).drop l.lap.length := rfl

theorem length_lap_le : l.lap.length ≤ l.content.length := by
  simp [content_eq]

theorem content_add :
    (l.add bound piece).content = splice l.content (l.place bound piece) piece := by
  unfold add place
  by_cases hfits : l.lap.length + piece.length ≤ bound
  · simp only [if_pos hfits, content_eq, splice]
    have hdrop : (l.lap ++ (overlaid l.laps).drop l.lap.length).drop (l.lap.length + piece.length)
        = (overlaid l.laps).drop (l.lap.length + piece.length) := by
      rw [← List.drop_drop, List.drop_left, List.drop_drop]
    rw [hdrop, List.take_left, List.length_append]
  · simp only [if_neg hfits, splice, List.take_zero, List.nil_append, Nat.zero_add]
    rfl

theorem stream_add : (l.add bound piece).stream = l.stream ++ piece := by
  unfold add stream
  split
  · simp
  · simp

theorem length_lap_add : (l.add bound piece).lap.length = l.place bound piece + piece.length := by
  unfold add place
  split
  · simp
  · simp

theorem place_add_le (hpiece : piece.length ≤ bound) :
    l.place bound piece + piece.length ≤ bound := by
  unfold place
  split
  · omega
  · omega

theorem length_content_add_le (hcontent : l.content.length ≤ bound)
    (hpiece : piece.length ≤ bound) : (l.add bound piece).content.length ≤ bound := by
  have hplace := place_add_le bound l piece hpiece
  rw [content_add]
  simp only [splice, List.length_append, List.length_take, List.length_drop]
  omega

/-- The buffer read from the current place on and then from the start, the oldest piece first. -/
def unrolled : List α := l.content.drop l.lap.length ++ l.lap

/-- Nothing older than the lap before is left in the buffer. -/
def InOrder : Prop :=
  ∀ last older, l.laps = last :: older →
    (overlaid older).length ≤ max l.lap.length last.length

theorem length_content : l.content.length = max l.lap.length (overlaid l.laps).length := by
  rw [content_eq, List.length_append, List.length_drop]
  omega

/-- What the lap leaves of the laps before it is the end of the last one. -/
theorem InOrder.drop_suffix {l : Laps α} (h : l.InOrder) :
    (overlaid l.laps).drop l.lap.length <:+ l.laps.reverse.flatten := by
  cases hlaps : l.laps with
  | nil => simp [overlaid]
  | cons last older =>
    have hle := h last older hlaps
    have hflatten : (last :: older).reverse.flatten = older.reverse.flatten ++ last := by simp
    rw [hflatten, overlaid]
    by_cases hlonger : l.lap.length ≤ last.length
    · rw [List.drop_eq_nil_of_le (show (overlaid older).length ≤ last.length by omega),
        List.append_nil]
      exact List.suffix_append_of_suffix (List.drop_suffix _ _)
    · rw [List.drop_eq_nil_of_le (by rw [List.length_append, List.length_drop]; omega)]
      exact List.nil_suffix

/-- A buffer in order has the newest pieces, one behind the other. -/
theorem InOrder.suffix {l : Laps α} (h : l.InOrder) : l.unrolled <:+ l.stream := by
  obtain ⟨older, holder⟩ := h.drop_suffix
  refine ⟨older, ?_⟩
  rw [unrolled, stream, content_eq, List.drop_left, ← List.append_assoc, holder]

/-- A lap that ends where the buffer ends, or is written over at once, keeps the order. -/
theorem InOrder.add {l : Laps α} (h : l.InOrder)
    (hround : bound < l.lap.length + piece.length →
      l.content.length ≤ max l.lap.length piece.length) : (l.add bound piece).InOrder := by
  unfold Laps.add
  split
  · intro last older hlaps
    have hle := h last older hlaps
    rw [List.length_append]
    omega
  · rename_i hfull
    intro last older hlaps
    obtain ⟨rfl, rfl⟩ := List.cons.inj hlaps
    have hle := hround (by omega)
    rw [length_content] at hle
    show (overlaid l.laps).length ≤ max piece.length l.lap.length
    omega

theorem inOrder_empty : (empty : Laps α).InOrder := fun _ _ h => by cases h

end Laps

end Rhodes.LapBuffer
