import Rhodes.Arrays

/-!
readFully of RandomAccessFile over a method that reads into an array. Its loop asks for what is
missing until the counts that it is given add up.
-/
namespace Rhodes.ReadFully

open Arrays

/-- What a call of read(b, off, len) returns with the array and the file after it; none for an
exception. -/
abbrev Read (σ : Type) := List UInt8 → Int → Int → σ → Option (Int × List UInt8 × σ)

inductive Ended (σ : Type) where
  | full (b : List UInt8) (s : σ)
  | eof
  | failed

theorem take_drop_splice {dst seg : List UInt8} {off : Nat} (h : off + seg.length ≤ dst.length) :
    ((splice dst off seg).drop off).take seg.length = seg := by
  rw [splice, List.append_assoc, List.drop_left' (List.length_take_of_le (by omega)),
    List.take_left]

section Loop

variable {σ : Type}

/-- The loop from a value of n on; none where the turns do not suffice. -/
def readFullyFrom (read : Read σ) (off len : Int) : Nat → Int → List UInt8 → σ → Option (Ended σ)
  | 0, _, _, _ => none
  | turns + 1, n, b, s =>
    match read b (toInt (off + n)) (toInt (len - n)) s with
    | none => some .failed
    | some (count, b, s) =>
      if count < 0 then some .eof
      else
        let n := toInt (n + count)
        if n < len then readFullyFrom read off len turns n b s else some (.full b s)

/-- A file has its bytes and a position. -/
structure View (σ : Type) where
  bytes : σ → List UInt8
  pos : σ → Nat

/-- The array is full and the position has moved on, or the file has too few bytes left, and that
is an EOFException. -/
def Ended.Right (view : View σ) (off len : Nat) (s : σ) : Ended σ → Prop
  | .full b' s' => len ≤ (view.bytes s).length - view.pos s ∧
      (b'.drop off).take len = ((view.bytes s).drop (view.pos s)).take len ∧
      view.pos s' = view.pos s + len
  | .eof => (view.bytes s).length - view.pos s < len
  | .failed => False

/-- readFully(b, off, len) ends, and as it should. -/
def ReadsFully (read : Read σ) (view : View σ) (b : List UInt8) (off len : Nat) (s : σ) : Prop :=
  ∃ turns ended, readFullyFrom read off len turns 0 b s = some ended ∧
    ended.Right view off len s

variable {read : Read σ} {off len : Int} {n : Int} {b b' : List UInt8} {s s' : σ}

theorem readFullyFrom_failed (h : read b (toInt (off + n)) (toInt (len - n)) s = none)
    (turns : Nat) : readFullyFrom read off len (turns + 1) n b s = some .failed := by
  rw [readFullyFrom, h]

variable {count : Int}

theorem readFullyFrom_eof
    (h : read b (toInt (off + n)) (toInt (len - n)) s = some (count, b', s')) (hcount : count < 0)
    (turns : Nat) : readFullyFrom read off len (turns + 1) n b s = some .eof := by
  rw [readFullyFrom, h]
  exact if_pos hcount

theorem readFullyFrom_full
    (h : read b (toInt (off + n)) (toInt (len - n)) s = some (count, b', s')) (hcount : 0 ≤ count)
    (hn : len ≤ toInt (n + count)) (turns : Nat) :
    readFullyFrom read off len (turns + 1) n b s = some (.full b' s') := by
  rw [readFullyFrom, h]
  show (if count < 0 then _ else if toInt (n + count) < len then _ else _) = _
  rw [if_neg (by omega), if_neg (by omega)]

theorem readFullyFrom_next
    (h : read b (toInt (off + n)) (toInt (len - n)) s = some (count, b', s')) (hcount : 0 ≤ count)
    (hn : toInt (n + count) < len) (turns : Nat) :
    readFullyFrom read off len (turns + 1) n b s =
      readFullyFrom read off len turns (toInt (n + count)) b' s' := by
  rw [readFullyFrom, h]
  show (if count < 0 then _ else if toInt (n + count) < len then _ else _) = _
  rw [if_neg (by omega), if_pos hn]

/-- More turns do not change how the loop ends. -/
theorem readFullyFrom_succ {turns : Nat} {ended : Ended σ}
    (h : readFullyFrom read off len turns n b s = some ended) :
    readFullyFrom read off len (turns + 1) n b s = some ended := by
  induction turns generalizing n b s with
  | zero => cases h
  | succ turns ih =>
    rw [readFullyFrom] at h ⊢
    split at h
    · exact h
    · split at h
      · rw [if_pos (by assumption)]
        exact h
      · rw [if_neg (by assumption)]
        show (if toInt _ < len then _ else _) = _
        change (if toInt _ < len then _ else _) = _ at h
        split at h
        · rw [if_pos (by assumption)]
          exact ih h
        · rw [if_neg (by assumption)]
          exact h

theorem readFullyFrom_mono {turns turns' : Nat} (hle : turns ≤ turns') {ended : Ended σ}
    (h : readFullyFrom read off len turns n b s = some ended) :
    readFullyFrom read off len turns' n b s = some ended := by
  induction hle with
  | refl => exact h
  | step _ ih => exact readFullyFrom_succ ih

/-- However many turns it takes, the loop ends in one way. -/
theorem readFullyFrom_unique {turns turns' : Nat} {ended ended' : Ended σ}
    (h : readFullyFrom read off len turns n b s = some ended)
    (h' : readFullyFrom read off len turns' n b s = some ended') : ended = ended' := by
  have hmax := readFullyFrom_mono (Nat.le_max_left turns turns') h
  rw [readFullyFrom_mono (Nat.le_max_right turns turns') h'] at hmax
  exact (Option.some.inj hmax).symm

/-- One turn inside the array. -/
theorem readFullyFrom_turn {off len n count : Nat} (hfits : off + len < 2147483648) (hn : n ≤ len)
    (hread : read b (off + n : Nat) (len - n : Nat) s = some ((count : Int), b', s'))
    (hcount : n + count ≤ len) (turns : Nat) :
    readFullyFrom read off len (turns + 1) n b s =
      if n + count < len then readFullyFrom read off len turns (n + count : Nat) b' s'
      else some (.full b' s') := by
  have hoff : toInt ((off : Int) + n) = (off + n : Nat) := by rw [toInt_eq] <;> omega
  have hlen : toInt ((len : Int) - n) = (len - n : Nat) := by rw [toInt_eq] <;> omega
  have hsum : toInt ((n : Int) + count) = (n + count : Nat) := by rw [toInt_eq] <;> omega
  rw [← hoff, ← hlen] at hread
  split
  · rw [readFullyFrom_next hread (by omega) (by rw [hsum]; omega), hsum]
  · exact readFullyFrom_full hread (by omega) (by rw [hsum]; omega) turns

/-- The last turn, where the file ends. -/
theorem readFullyFrom_end {off len n : Nat} (hfits : off + len < 2147483648) (hn : n ≤ len)
    (hread : read b (off + n : Nat) (len - n : Nat) s = some (count, b', s')) (hcount : count < 0)
    (turns : Nat) : readFullyFrom read off len (turns + 1) n b s = some .eof := by
  have hoff : toInt ((off : Int) + n) = (off + n : Nat) := by rw [toInt_eq] <;> omega
  have hlen : toInt ((len : Int) - n) = (len - n : Nat) := by rw [toInt_eq] <;> omega
  rw [← hoff, ← hlen] at hread
  exact readFullyFrom_eof hread hcount turns

/-- An exception of the first call. -/
theorem readFullyFrom_start_failed {off len : Nat} (hfits : off + len < 2147483648)
    (h : read b off len s = none) :
    readFullyFrom read off len 1 0 b s = some .failed := by
  have hoff : toInt ((off : Int) + 0) = off := by rw [toInt_eq] <;> omega
  have hlen : toInt ((len : Int) - 0) = len := by rw [toInt_eq] <;> omega
  rw [← hoff, ← hlen] at h
  exact readFullyFrom_failed h 0

theorem readsFully_iff {view : View σ} {off len turns : Nat} {ended : Ended σ}
    (h : readFullyFrom read off len turns 0 b s = some ended) :
    ReadsFully read view b off len s ↔ ended.Right view off len s := by
  constructor
  · rintro ⟨turns', ended', h', hright⟩
    rwa [readFullyFrom_unique h h']
  · exact fun hright => ⟨turns, ended, h, hright⟩

end Loop

end Rhodes.ReadFully
