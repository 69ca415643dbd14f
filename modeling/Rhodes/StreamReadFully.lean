import Mathlib
import Rhodes.Jsr75Refinement
import Rhodes.PagedInts
import Rhodes.PagedReadFully

/-!
readFully over Jsr75RAFileImpl, and over both kinds of files. The stream writes all that it
delivers to the start of the part, and read counts from the start of the array: at the end of the
file that is an end without an exception, unless n passes the largest int or never grows.
-/
namespace Rhodes.StreamReadFully

open Arrays Jsr75File Jsr75Refinement ReadFully

/-- read(b, off, len) of Jsr75RAFileImpl, with what the stream would like to deliver at a position.
A part that is not inside the array is refused by the stream, which is asked only if len is
positive. -/
def jsr75Read (reads : Nat → Nat → Nat) : Read File := fun b off len s =>
  if h : 0 ≤ off ∧ 0 ≤ len ∧ off + len ≤ b.length then
    match readBytes (reads s.seekPos) ⟨b, off.toNat, len.toNat, by omega⟩ s with
    | .ok (count, b') s' => some (count, b', s')
    | .error _ _ => none
  else match prepareRead s with
    | .ok true s' => if 0 < len then none else some (off, b, { s' with seekPos := s'.inPos })
    | .ok false s' => some (-1, b, s')
    | .error _ _ => none

def jsr75View : View File where
  bytes s := s.bytes
  pos s := s.seekPos

/-- Behind the end of the file n passes the largest int before it reaches len. -/
def CountWraps (off len rest : Nat) : Prop :=
  ∃ k, 2 ^ k * (off + off + rest) < off + len ∧
    2147483648 + off ≤ 2 ^ (k + 1) * (off + off + rest)

section Calls

variable {s : File} {a : Spec} {reads : Nat → Nat → Nat} {b : List UInt8} {off len : Nat}

/-- Past the end. -/
theorem jsr75Read_past (hs : Represents s a) (hpast : s.bytes.length < s.seekPos) (off len : Int) :
    jsr75Read reads b off len s = some (-1, b, File.atPosition s) := by
  have hprepare := prepareRead_past hs hpast
  unfold jsr75Read
  split
  · have hread : ∀ buf : Buffer, readBytes (reads s.seekPos) buf s =
        .ok (-1, buf.b) (File.atPosition s) := by
      intro buf
      unfold readBytes
      rw [bind_ok hprepare, if_neg Bool.false_ne_true]
      rfl
    rw [hread]
  · rw [hprepare]

/-- Nothing is asked for. -/
theorem jsr75Read_none (hs : Represents s a) (hin : s.seekPos ≤ s.bytes.length) {off len : Int}
    (hneg : off < 0) (hlen : len ≤ 0) :
    jsr75Read reads b off len s = some (off, b, File.readOn s 0) := by
  unfold jsr75Read
  rw [dif_neg (by omega), prepareRead_inside hs hin]
  show (if 0 < len then none else _) = _
  rw [if_neg (by omega)]
  rfl

/-- What the loop of read does: it takes what is left, and behind the part of the array is what was
there. -/
def Taken (reads : Nat → Nat) (off turns len offData : Nat) (b : List UInt8) (s : File) (p : Nat) :
    Prop :=
  ∃ b', readLoop reads off turns b offData len s =
      .ok (offData + min len (s.bytes.length - p), b') { s with
        input := some (p + min len (s.bytes.length - p))
        inPos := s.inPos + min len (s.bytes.length - p) } ∧
    b'.length = b.length ∧ ∀ k, len ≤ k → b'[off + k]? = b[off + k]?

theorem taken_none {reads : Nat → Nat} {turns offData p : Nat} (hin : s.input = some p)
    (hstop : len = 0 ∨ s.bytes.length ≤ p) : Taken reads off turns len offData b s p := by
  have hzero : min len (s.bytes.length - p) = 0 := by omega
  refine ⟨b, ?_, rfl, fun _ _ => rfl⟩
  rw [readLoop_stops (hstop.imp_right (fun hle => ⟨p, hin, hle⟩)), hzero, Nat.add_zero,
    Nat.add_zero, Nat.add_zero, ← hin]

/-- The bytes that the first turn takes; the others are taken by the turns that follow. -/
theorem taken_some {reads : Nat → Nat} {turns offData p rc : Nat} (hin : s.input = some p)
    (hlen : 0 < len) (hleft : p < s.bytes.length) (hfits : off + len ≤ b.length)
    (hrc : rc = min (max (reads len) 1) (min len (s.bytes.length - p)))
    (hrest : Taken reads off turns (len - rc) (offData + rc)
      (splice b off ((s.bytes.drop p).take rc))
      { s with input := some (p + rc), inPos := s.inPos + rc } (p + rc)) :
    ∃ b', readLoop reads off (turns + 1) b offData len s =
        .ok (offData + min len (s.bytes.length - p), b') { s with
          input := some (p + min len (s.bytes.length - p))
          inPos := s.inPos + min len (s.bytes.length - p) } ∧
      b'.length = b.length ∧ ∀ k, max rc (len - rc) ≤ k → b'[off + k]? = b[off + k]? := by
  have hseg : ((s.bytes.drop p).take rc).length = rc := by
    rw [List.length_take, List.length_drop]
    omega
  have hread : readBytesIn reads b off len s = .ok ((rc : Int),
      splice b off ((s.bytes.drop p).take rc)) { s with input := some (p + rc) } := by
    simp only [readBytesIn, hin, if_neg (Nat.not_le.mpr hleft), ← hrc]
  have hlength : (splice b off ((s.bytes.drop p).take rc)).length = b.length :=
    length_splice (by omega)
  obtain ⟨b', hloop, hsame, hkept⟩ := hrest
  dsimp only at hloop
  refine ⟨b', ?_, hsame.trans hlength, fun k hk => ?_⟩
  · have hsum : rc + min (len - rc) (s.bytes.length - (p + rc)) =
        min len (s.bytes.length - p) := by omega
    rw [readLoop, if_pos hlen, bind_ok hread]
    show (if 0 < (rc : Int) then _ else _ : M (Nat × List UInt8)) _ = _
    rw [if_pos (by omega), Int.toNat_natCast]
    show readLoop reads off turns (splice b off ((s.bytes.drop p).take rc)) (offData + rc)
      (len - rc) { s with input := some (p + rc), inPos := s.inPos + rc } = _
    rw [hloop, ← hsum, Nat.add_assoc, Nat.add_assoc, Nat.add_assoc]
  · rw [hkept k (by omega), getElem?_splice (by omega), if_neg (by omega)]

theorem taken {reads : Nat → Nat} {turns offData p : Nat} (hin : s.input = some p)
    (hturns : len ≤ turns) (hfits : off + len ≤ b.length) :
    Taken reads off turns len offData b s p := by
  induction turns generalizing b s p offData len with
  | zero => exact taken_none hin (.inl (Nat.le_zero.mp hturns))
  | succ turns ih =>
    by_cases hstop : len = 0 ∨ s.bytes.length ≤ p
    · exact taken_none hin hstop
    · obtain ⟨hlen, hleft⟩ := not_or.mp hstop
      obtain ⟨rc, hrc⟩ : ∃ rc, rc = min (max (reads len) 1) (min len (s.bytes.length - p)) :=
        ⟨_, rfl⟩
      have hseg : ((s.bytes.drop p).take rc).length = rc := by
        rw [List.length_take, List.length_drop]
        omega
      have hrest : Taken reads off turns (len - rc) (offData + rc)
          (splice b off ((s.bytes.drop p).take rc))
          { s with input := some (p + rc), inPos := s.inPos + rc } (p + rc) :=
        ih rfl (by omega) (by rw [length_splice (by omega)]; omega)
      obtain ⟨b', hloop, hsame, hkept⟩ := taken_some hin (Nat.pos_of_ne_zero hlen)
        (Nat.lt_of_not_le hleft) hfits hrc hrest
      exact ⟨b', hloop, hsame, fun k hk => hkept k (by omega)⟩

/-- What a call of read returns, from what its loop does. -/
theorem jsr75Read_of_loop (hs : Represents s a) (hin : s.seekPos ≤ s.bytes.length)
    (hfits : off + len ≤ b.length) {n : Nat} {b' : List UInt8}
    (hloop : readLoop (reads s.seekPos) off len b off len
        { s with input := some s.seekPos, inPos := s.seekPos } =
      .ok (off + n, b') { s with input := some (s.seekPos + n), inPos := s.seekPos + n }) :
    jsr75Read reads b off len s = some (((off + n : Nat) : Int), b', File.readOn s n) := by
  have hread : readBytes (reads s.seekPos) ⟨b, off, len, hfits⟩ s =
      .ok (((off + n : Nat) : Int), b') (File.readOn s n) := by
    unfold readBytes
    rw [bind_ok (prepareRead_inside hs hin), if_pos rfl, bind_ok hloop]
    rfl
  unfold jsr75Read
  rw [dif_pos (by omega)]
  simp only [Int.toNat_natCast]
  rw [hread]

theorem jsr75Read_inside (hs : Represents s a) (hin : s.seekPos ≤ s.bytes.length)
    (hfits : off + len ≤ b.length) :
    ∃ b', jsr75Read reads b off len s =
        some (((off + min len (s.bytes.length - s.seekPos) : Nat) : Int), b',
          File.readOn s (min len (s.bytes.length - s.seekPos))) ∧ b'.length = b.length := by
  have htaken : Taken (reads s.seekPos) off len len off b
      { s with input := some s.seekPos, inPos := s.seekPos } s.seekPos :=
    taken rfl (Nat.le_refl len) hfits
  obtain ⟨b', hloop, hsame, -⟩ := htaken
  exact ⟨b', jsr75Read_of_loop hs hin hfits hloop, hsame⟩

/-- The bytes come at once. -/
theorem jsr75Read_once (hs : Represents s a) (hlen : 0 < len)
    (hin : s.seekPos + len ≤ s.bytes.length) (hfits : off + len ≤ b.length)
    (honce : len ≤ max (reads s.seekPos len) 1) :
    jsr75Read reads b off len s =
      some (((off + len : Nat) : Int), splice b off ((s.bytes.drop s.seekPos).take len),
        File.readOn s len) := by
  have hall : min len (s.bytes.length - s.seekPos) = len := by omega
  have hloop := @readLoop_once (reads s.seekPos) off len b
    { s with input := some s.seekPos, inPos := s.seekPos } s.seekPos rfl
    (show s.seekPos < s.bytes.length by omega) hlen (by dsimp only; omega)
  dsimp only at hloop
  rw [hall] at hloop
  exact jsr75Read_of_loop hs (by omega) hfits hloop

/-- The bytes come in several parts, and the last byte of the array's part is an old one. -/
theorem jsr75Read_parts (hs : Represents s a) (hin : s.seekPos + len ≤ s.bytes.length)
    (hfits : off + len ≤ b.length) (hparts : max (reads s.seekPos len) 1 < len) :
    ∃ b', jsr75Read reads b off len s = some (((off + len : Nat) : Int), b', File.readOn s len) ∧
      b'[off + (len - 1)]? = b[off + (len - 1)]? := by
  obtain ⟨rc, hrc⟩ : ∃ rc, rc = min (max (reads s.seekPos len) 1)
      (min len (s.bytes.length - s.seekPos)) := ⟨_, rfl⟩
  have hseg : ((s.bytes.drop s.seekPos).take rc).length = rc := by
    rw [List.length_take, List.length_drop]
    omega
  obtain ⟨turns, rfl⟩ : ∃ turns, len = turns + 1 := ⟨len - 1, by omega⟩
  have hrest : Taken (reads s.seekPos) off turns (turns + 1 - rc) (off + rc)
      (splice b off ((s.bytes.drop s.seekPos).take rc))
      { s with input := some (s.seekPos + rc), inPos := s.seekPos + rc } (s.seekPos + rc) :=
    taken rfl (by omega) (by rw [length_splice (by omega)]; omega)
  obtain ⟨b', hloop, -, hkept⟩ :=
    taken_some (s := { s with input := some s.seekPos, inPos := s.seekPos }) rfl
      (Nat.succ_pos turns) (show s.seekPos < s.bytes.length by omega) hfits hrc hrest
  dsimp only at hloop
  have hall : min (turns + 1) (s.bytes.length - s.seekPos) = turns + 1 := by omega
  rw [hall] at hloop
  exact ⟨b', jsr75Read_of_loop hs (by omega) hfits hloop, hkept _ (by omega)⟩

end Calls

section AtEnd

variable {a : Spec} (reads : Nat → Nat → Nat) {off len : Nat}

/-- A turn at the end of the file adds the place in the array to n. -/
theorem turn_atEnd {s : File} {b : List UInt8} {n : Nat} (hs : Represents s a)
    (hend : s.seekPos = s.bytes.length) (hfits : off + len ≤ b.length) (hb : b.length < 2147483648)
    (hn : n < len) : ∃ b', b'.length = b.length ∧ ∀ turns,
      readFullyFrom (jsr75Read reads) off len (turns + 1) n b s =
        if toInt ((n : Int) + (off + n : Nat)) < len then
          readFullyFrom (jsr75Read reads) off len turns (toInt ((n : Int) + (off + n : Nat))) b'
            (File.readOn s 0)
        else some (.full b' (File.readOn s 0)) := by
  have hoff : toInt ((off : Int) + n) = (off + n : Nat) := by rw [toInt_eq] <;> omega
  have hlen : toInt ((len : Int) - n) = (len - n : Nat) := by rw [toInt_eq] <;> omega
  obtain ⟨b', hread, hsame⟩ := @jsr75Read_inside s a reads b (off + n) (len - n) hs
    (Nat.le_of_eq hend) (by omega)
  rw [hend, Nat.sub_self, Nat.min_zero, Nat.add_zero] at hread
  have hcall : jsr75Read reads b (toInt ((off : Int) + n)) (toInt ((len : Int) - n)) s =
      some (((off + n : Nat) : Int), b', File.readOn s 0) := by
    rw [hoff, hlen, hread]
  refine ⟨b', hsame, fun turns => ?_⟩
  split
  · rename_i hless
    exact readFullyFrom_next hcall (Int.natCast_nonneg _) hless turns
  · rename_i hless
    exact readFullyFrom_full hcall (Int.natCast_nonneg _) (Int.not_lt.mp hless) turns

/-- The sum of n and the place in the array passes the largest int, and the part of the next turn
is one of negative length before the array. -/
theorem eof_of_wrap {s : File} {b : List UInt8} {n : Nat} (hs : Represents s a)
    (hend : s.seekPos = s.bytes.length) (hfits : off + len ≤ b.length) (hb : b.length < 2147483648)
    (hn : n < len) (hwrap : 2147483648 + off ≤ 2 * (off + n)) :
    readFullyFrom (jsr75Read reads) off len 2 n b s = some .eof := by
  obtain ⟨b', -, hturn⟩ := turn_atEnd reads hs hend hfits hb hn
  have hsum : toInt ((n : Int) + (off + n : Nat)) = (n : Int) + (off + n : Nat) - 4294967296 := by
    unfold toInt
    rw [Int.bmod_def]
    split <;> omega
  have hoff : toInt ((off : Int) + ((n : Int) + (off + n : Nat) - 4294967296)) =
      2 * ((off : Int) + n) - 4294967296 := by
    rw [toInt_eq] <;> omega
  have hlen : toInt ((len : Int) - ((n : Int) + (off + n : Nat) - 4294967296)) =
      (len : Int) - (n + (off + n)) := by
    unfold toInt
    rw [Int.bmod_def]
    split <;> omega
  have hs' : Represents (File.readOn s 0) { a with pos := a.pos + 0 } :=
    represents_readOn hs (by rw [← hs.pos, ← hs.bytes, hend]; exact Nat.le_refl _)
  have hcall : jsr75Read reads b' (2 * ((off : Int) + n) - 4294967296)
      ((len : Int) - (n + (off + n))) (File.readOn s 0) =
        some (2 * ((off : Int) + n) - 4294967296, b', File.readOn (File.readOn s 0) 0) :=
    jsr75Read_none hs' (Nat.le_of_eq hend) (by omega) (by omega)
  rw [hturn 1, hsum, if_pos (by omega)]
  rw [← hoff, ← hlen] at hcall
  exact readFullyFrom_eof hcall (by rw [hoff]; omega) 0

theorem lt_of_scaled {k x y : Nat} (h : 2 ^ k * x < y) : x < y :=
  Nat.lt_of_le_of_lt (Nat.le_mul_of_pos_left x (Nat.two_pow_pos k)) h

theorem eof_of_wraps (k : Nat) {s : File} {a : Spec} {b : List UInt8} {n : Nat}
    (hs : Represents s a) (hend : s.seekPos = s.bytes.length) (hfits : off + len ≤ b.length)
    (hb : b.length < 2147483648) (hlow : 2 ^ k * (off + n) < off + len)
    (hhigh : 2147483648 + off ≤ 2 ^ (k + 1) * (off + n)) :
    ∃ turns, readFullyFrom (jsr75Read reads) off len turns n b s = some .eof := by
  induction k generalizing s a b n with
  | zero =>
    rw [Nat.zero_add, Nat.pow_one] at hhigh
    have hn : n < len := Nat.lt_of_add_lt_add_left (lt_of_scaled hlow)
    exact ⟨2, eof_of_wrap reads hs hend hfits hb hn hhigh⟩
  | succ k ih =>
    have hn : n < len := Nat.lt_of_add_lt_add_left (lt_of_scaled hlow)
    obtain ⟨b', hsame, hturn⟩ := turn_atEnd reads hs hend hfits hb hn
    have hdouble : ∀ j, 2 ^ (j + 1) * (off + n) = 2 ^ j * (off + (n + (off + n))) := by
      intro j
      rw [Nat.pow_succ, Nat.mul_assoc]
      congr 1
      omega
    rw [hdouble] at hlow hhigh
    have hnext : n + (off + n) < len := Nat.lt_of_add_lt_add_left (lt_of_scaled hlow)
    have hsum : toInt ((n : Int) + (off + n : Nat)) = (n + (off + n) : Nat) := by
      clear hlow hhigh
      rw [toInt_eq] <;> omega
    have hs' : Represents (File.readOn s 0) { a with pos := a.pos + 0 } :=
      represents_readOn hs (by rw [← hs.pos, ← hs.bytes, hend]; exact Nat.le_refl _)
    obtain ⟨turns, heof⟩ := ih (b := b') hs' hend (by rw [hsame]; exact hfits)
      (by rw [hsame]; exact hb) hlow hhigh
    refine ⟨turns + 1, ?_⟩
    rw [hturn turns, hsum, if_pos (Int.ofNat_lt.mpr hnext)]
    exact heof

theorem wraps_of_eof (turns : Nat) {s : File} {a : Spec} {b : List UInt8} {n : Nat}
    (hs : Represents s a) (hend : s.seekPos = s.bytes.length) (hfits : off + len ≤ b.length)
    (hb : b.length < 2147483648) (hn : n < len)
    (heof : readFullyFrom (jsr75Read reads) off len turns n b s = some .eof) :
    ∃ k, 2 ^ k * (off + n) < off + len ∧ 2147483648 + off ≤ 2 ^ (k + 1) * (off + n) := by
  induction turns generalizing s a b n with
  | zero => cases heof
  | succ turns ih =>
    by_cases hwrap : 2147483648 + off ≤ 2 * (off + n)
    · exact ⟨0, by omega, by omega⟩
    · obtain ⟨b', hsame, hturn⟩ := turn_atEnd reads hs hend hfits hb hn
      have hsum : toInt ((n : Int) + (off + n : Nat)) = (n + (off + n) : Nat) := by
        rw [toInt_eq] <;> omega
      have hs' : Represents (File.readOn s 0) { a with pos := a.pos + 0 } :=
        represents_readOn hs (by rw [← hs.pos, ← hs.bytes, hend]; exact Nat.le_refl _)
      rw [hturn turns, hsum] at heof
      split at heof
      · obtain ⟨k, hlow, hhigh⟩ := ih hs' hend (by omega) (by omega) (by omega) heof
        refine ⟨k + 1, ?_, ?_⟩
        · rw [Nat.pow_succ, Nat.mul_assoc, show 2 * (off + n) = off + (n + (off + n)) by omega]
          exact hlow
        · rw [Nat.pow_succ, Nat.mul_assoc, show 2 * (off + n) = off + (n + (off + n)) by omega]
          exact hhigh
      · cases heof

end AtEnd

/-- When readFully over a stream ends as it should. -/
def StreamFills (reads : Nat → Nat → Nat) (off len : Nat) (s : File) : Prop :=
  if s.bytes.length < s.seekPos then 0 < len
  else if s.seekPos + len ≤ s.bytes.length then len ≤ max (reads s.seekPos len) 1
  else CountWraps off len (s.bytes.length - s.seekPos)

section Runs

variable {s : File} {a : Spec} {reads : Nat → Nat → Nat} {b : List UInt8} {off len : Nat}

/-- The first turn, with what it reads and how the loop goes on. -/
theorem first_turn (hfits : off + len ≤ b.length) (hb : b.length < 2147483648) {n : Nat}
    {b' : List UInt8} {s' : File} (hn : n ≤ len)
    (hread : jsr75Read reads b off len s = some (((off + n : Nat) : Int), b', s')) (turns : Nat) :
    readFullyFrom (jsr75Read reads) off len (turns + 1) 0 b s =
      if off + n < len then
        readFullyFrom (jsr75Read reads) off len turns (off + n : Nat) b' s'
      else some (.full b' s') := by
  have hoff : toInt ((off : Int) + 0) = off := by rw [toInt_eq] <;> omega
  have hlen : toInt ((len : Int) - 0) = len := by rw [toInt_eq] <;> omega
  have hsum : toInt (0 + ((off + n : Nat) : Int)) = (off + n : Nat) := by rw [toInt_eq] <;> omega
  have hcall : jsr75Read reads b (toInt ((off : Int) + 0)) (toInt ((len : Int) - 0)) s =
      some (((off + n : Nat) : Int), b', s') := by
    rw [hoff, hlen, hread]
  split
  · rename_i hless
    rw [readFullyFrom_next hcall (Int.natCast_nonneg _)
      (by rw [hsum]; exact Int.ofNat_lt.mpr hless), hsum]
  · rename_i hless
    exact readFullyFrom_full hcall (Int.natCast_nonneg _)
      (by rw [hsum]; exact Int.ofNat_le.mpr (Nat.le_of_not_lt hless)) turns

theorem readsFully_past (hs : Represents s a) (hpast : s.bytes.length < s.seekPos) :
    ReadsFully (jsr75Read reads) jsr75View b off len s ↔ 0 < len := by
  have heof : readFullyFrom (jsr75Read reads) off len 1 0 b s = some .eof :=
    readFullyFrom_eof (jsr75Read_past hs hpast _ _) (by decide) 0
  rw [readsFully_iff heof]
  show s.bytes.length - s.seekPos < len ↔ 0 < len
  rw [Nat.sub_eq_zero_of_le (Nat.le_of_lt hpast)]

/-- The bytes are there: each array is filled just if they come at once. -/
theorem readsFully_inside {size : Nat} (hs : Represents s a) (hfits : off + len ≤ size)
    (hsize : size < 2147483648) (hin : s.seekPos + len ≤ s.bytes.length) :
    (∀ b : List UInt8, b.length = size →
      ReadsFully (jsr75Read reads) jsr75View b off len s) ↔
      len ≤ max (reads s.seekPos len) 1 := by
  constructor
  · intro hall
    by_contra hparts
    -- An array of bytes that the last byte of the part is not.
    obtain ⟨x, hx⟩ : ∃ x : UInt8, x ≠ s.bytes.getD (s.seekPos + (len - 1)) 0 := by
      by_cases hzero : s.bytes.getD (s.seekPos + (len - 1)) 0 = 0
      · exact ⟨1, by rw [hzero]; decide⟩
      · exact ⟨0, Ne.symm hzero⟩
    have hb : (List.replicate size x).length = size := List.length_replicate
    obtain ⟨b', hread, hlast⟩ := jsr75Read_parts hs hin (by rw [hb]; exact hfits)
      (Nat.lt_of_not_le hparts)
    have hfull := first_turn (by rw [hb]; exact hfits) (by rw [hb]; exact hsize) (Nat.le_refl len)
      hread 0
    rw [if_neg (by omega)] at hfull
    obtain ⟨-, hbytes, -⟩ := (readsFully_iff hfull).mp (hall _ hb)
    have hpart := congrArg (fun l => l[len - 1]?) hbytes
    simp only [List.getElem?_take_of_lt (show len - 1 < len by omega), List.getElem?_drop] at hpart
    rw [hlast, List.getElem?_replicate, if_pos (by omega)] at hpart
    apply hx
    rw [List.getD_eq_getElem?_getD]
    exact congrArg (fun o => o.getD 0) hpart
  · intro honce b hb
    rcases Nat.eq_zero_or_pos len with rfl | hlen
    · obtain ⟨b', hread, -⟩ := @jsr75Read_inside s a reads b off 0 hs hin (by omega)
      rw [Nat.zero_min] at hread
      have hfull := first_turn (by omega) (by omega) (Nat.le_refl 0) hread 0
      rw [if_neg (by omega)] at hfull
      refine (readsFully_iff hfull).mpr ⟨Nat.zero_le _, ?_, rfl⟩
      rw [List.take_zero, List.take_zero]
    · have hread := @jsr75Read_once s a reads b off len hs hlen hin (by omega) honce
      have hfull := first_turn (by omega) (by omega) (Nat.le_refl len) hread 0
      rw [if_neg (by omega)] at hfull
      have hseg : ((s.bytes.drop s.seekPos).take len).length = len := by
        rw [List.length_take, List.length_drop]
        omega
      have hpart := @take_drop_splice b ((s.bytes.drop s.seekPos).take len) off (by omega)
      rw [hseg] at hpart
      refine (readsFully_iff hfull).mpr ⟨?_, hpart, rfl⟩
      show len ≤ s.bytes.length - s.seekPos
      omega

/-- Too few bytes are there, and the loop never finds the end of the file by itself. -/
theorem readsFully_short (hs : Represents s a) (hfits : off + len ≤ b.length)
    (hb : b.length < 2147483648) (hle : s.seekPos ≤ s.bytes.length)
    (hshort : s.bytes.length < s.seekPos + len) :
    ReadsFully (jsr75Read reads) jsr75View b off len s ↔
      CountWraps off len (s.bytes.length - s.seekPos) := by
  have hrest : min len (s.bytes.length - s.seekPos) = s.bytes.length - s.seekPos := by omega
  obtain ⟨b', hread, hsame⟩ := @jsr75Read_inside s a reads b off len hs hle hfits
  rw [hrest] at hread
  have hturn := first_turn hfits hb (by omega) hread
  have hright : ∀ ended : Ended File, ended.Right jsr75View off len s → ended = .eof := by
    intro ended hended
    cases ended with
    | full b' s' =>
      have hlen : len ≤ s.bytes.length - s.seekPos := hended.1
      omega
    | eof => rfl
    | failed => exact hended.elim
  obtain ⟨n, hn⟩ : ∃ n, n = off + (s.bytes.length - s.seekPos) := ⟨_, rfl⟩
  have hcount : ∀ k, 2 ^ k * (off + off + (s.bytes.length - s.seekPos)) = 2 ^ k * (off + n) := by
    intro k
    rw [hn, Nat.add_assoc]
  rw [← hn] at hturn
  unfold CountWraps
  simp only [hcount]
  by_cases hless : n < len
  · have hend : (File.readOn s (s.bytes.length - s.seekPos)).seekPos = s.bytes.length := by
      show s.seekPos + (s.bytes.length - s.seekPos) = s.bytes.length
      omega
    have hs' : Represents (File.readOn s (s.bytes.length - s.seekPos))
        { a with pos := a.pos + (s.bytes.length - s.seekPos) } :=
      represents_readOn hs (by rw [← hs.pos, ← hs.bytes]; omega)
    simp only [if_pos hless] at hturn
    constructor
    · rintro ⟨turns, ended, hrun, hended⟩
      obtain rfl := hright ended hended
      cases turns with
      | zero => cases hrun
      | succ turns =>
        rw [hturn] at hrun
        exact wraps_of_eof reads turns hs' hend (by rw [hsame]; exact hfits)
          (by rw [hsame]; exact hb) hless hrun
    · rintro ⟨k, hlow, hhigh⟩
      obtain ⟨turns, heof⟩ := eof_of_wraps reads k hs' hend (by rw [hsame]; exact hfits)
        (by rw [hsame]; exact hb) hlow hhigh
      refine ⟨turns + 1, .eof, (hturn turns).trans heof, ?_⟩
      show s.bytes.length - s.seekPos < len
      clear hlow hhigh
      omega
  · refine iff_of_false (fun hfills => ?_) (fun ⟨k, hlow, _⟩ => ?_)
    · have hfull := hturn 0
      rw [if_neg hless] at hfull
      exact absurd (hright _ ((readsFully_iff hfull).mp hfills)) nofun
    · exact hless (Nat.lt_of_add_lt_add_left (lt_of_scaled hlow))

theorem jsr75_readsFully_iff {size : Nat} (hs : Represents s a) (hfits : off + len ≤ size)
    (hsize : size < 2147483648) :
    (∀ b : List UInt8, b.length = size →
      ReadsFully (jsr75Read reads) jsr75View b off len s) ↔ StreamFills reads off len s := by
  have hsome : (List.replicate size (0 : UInt8)).length = size := List.length_replicate
  unfold StreamFills
  by_cases hpast : s.bytes.length < s.seekPos
  · rw [if_pos hpast]
    exact ⟨fun hall => (readsFully_past hs hpast).mp (hall _ hsome),
      fun hlen b _ => (readsFully_past hs hpast).mpr hlen⟩
  rw [if_neg hpast]
  by_cases hin : s.seekPos + len ≤ s.bytes.length
  · rw [if_pos hin]
    exact readsFully_inside hs hfits hsize hin
  · rw [if_neg hin]
    have hshort : ∀ b : List UInt8, b.length = size →
        (ReadsFully (jsr75Read reads) jsr75View b off len s ↔
          CountWraps off len (s.bytes.length - s.seekPos)) := fun b hb =>
      readsFully_short hs (by omega) (by omega) (Nat.le_of_not_lt hpast) (Nat.lt_of_not_le hin)
    exact ⟨fun hall => (hshort _ hsome).mp (hall _ hsome), fun hwraps b hb =>
      (hshort b hb).mpr hwraps⟩

end Runs

open PagedReadFully PagedInts RandomAccess

/-- Over both kinds of files, for every array of a length. -/
theorem readFully_iff (reads : Nat → Nat → Nat) {f : RAFile} {w : World} {s : File} {a : Spec}
    {off len size : Nat} (h : Room f w off len size) (hs : Represents s a) :
    ((∀ b : List UInt8, b.length = size →
      ReadsFully persistRead persistView b off len (f, w)) ↔ PagesFill f w off len) ∧
    ((∀ b : List UInt8, b.length = size →
      ReadsFully (jsr75Read reads) jsr75View b off len s) ↔ StreamFills reads off len s) :=
  ⟨persist_readsFully_iff h, jsr75_readsFully_iff hs h.fits h.int⟩

/-- A file with two pages of zeros, at the last byte of the first one. -/
def reader : RAFile := ⟨"db.data", false, 4095⟩

def twoPages : World :=
  (restart (fun _ => ⟨none, fun _ => none⟩)).setFile "db.data"
    { FileImpl.FileInfo.ofStored ⟨some 5000, fun _ => none⟩ with useCount := 1 }

theorem files_twoPages : twoPages.files reader.name =
    { FileImpl.FileInfo.ofStored ⟨some 5000, fun _ => none⟩ with useCount := 1 } :=
  files_setFile_self _ _ _

theorem size_twoPages : (twoPages.files reader.name).pages.size = 5000 := by
  rw [files_twoPages]
  rfl

theorem room_twoPages {off : Nat} (hoff : off + 2 ≤ 3) : Room reader twoPages off 2 3 := by
  have hsize : (PagedFile.Stored.mk (some 5000) (fun _ => none)).size.getD 0 <
      PagedFile.maxSize := by decide
  refine ⟨?_, ?_, hoff, by decide⟩
  · rw [files_twoPages]
    decide
  · rw [files_twoPages]
    exact PagedFile.valid_ofStored hsize

/-- Two bytes on two pages go to the start of an array, and two bytes of a stream that come at
once to the places behind it. -/
theorem readFully_iff_small :
    (∀ b : List UInt8, b.length = 3 →
      ReadsFully persistRead persistView b 0 2 (reader, twoPages)) ∧
    (∀ b : List UInt8, b.length = 3 →
      ReadsFully (jsr75Read fun _ len => len) jsr75View b 1 2 (opened [1, 2, 3])) := by
  have hpages : PagesFill reader twoPages 0 2 := by
    unfold PagesFill
    rw [size_twoPages]
    have hchunk : PagedFile.ChunkSafe 4095 (min 2 (5000 - 4095)) := .inr (.inr (by decide))
    exact .inr (.inr ⟨hchunk, .inl rfl⟩)
  exact ⟨(readFully_iff (fun _ len => len) (room_twoPages (by decide))
      (represents_opened [1, 2, 3])).1.mpr hpages,
    (readFully_iff (fun _ len => len) (room_twoPages (by decide))
      (represents_opened [1, 2, 3])).2.mpr (show 2 ≤ max 2 1 by decide)⟩

/-- Two bytes on two pages do not fill each array from its second place on; and at the end of an
empty file the loop over the stream never ends. -/
theorem part_not_filled :
    (¬∀ b : List UInt8, b.length = 3 →
      ReadsFully persistRead persistView b 1 2 (reader, twoPages)) ∧
    ¬ReadsFully (jsr75Read fun _ len => len) jsr75View [7] 0 1 (opened []) := by
  constructor
  · rw [persist_readsFully_iff (room_twoPages (by decide))]
    unfold PagesFill
    rw [size_twoPages]
    rintro (hzero | hend | ⟨-, hzero | hone | hshort⟩)
    · cases hzero
    · exact absurd hend (by decide)
    · cases hzero
    · exact absurd hone (by decide)
    · exact absurd hshort (by decide)
  · rw [readsFully_short (represents_opened []) (Nat.le_refl 1) (by decide) (Nat.le_refl 0)
      (by decide)]
    rintro ⟨k, -, hhigh⟩
    have hzero : 2 ^ (k + 1) * (0 + 0 + ((opened []).bytes.length - (opened []).seekPos)) = 0 :=
      Nat.mul_zero _
    rw [hzero] at hhigh
    cases hhigh

end Rhodes.StreamReadFully
