import Mathlib
import Rhodes.Jsr75File
import Rhodes.Outcomes

/-!
The JSR-75 file against a byte array with zero fill. They agree as long as the size is not made
larger, a write past the end finds an output stream open, and a read of several bytes goes to the
start of its array, finds bytes, and gets them from the stream at once.
-/
namespace Rhodes.Jsr75Refinement

open Arrays Jsr75File Outcomes

/-- A byte array and a position. -/
structure Spec where
  bytes : List UInt8
  pos : Nat

/-- With zeros up to a size. -/
def padded (bytes : List UInt8) (n : Nat) : List UInt8 :=
  bytes ++ List.replicate (n - bytes.length) 0

def Spec.write (a : Spec) (seg : List UInt8) : Spec :=
  if seg = [] then a else ⟨splice (padded a.bytes a.pos) a.pos seg, a.pos + seg.length⟩

/-- The number of bytes that are left for a read. -/
def Spec.available (a : Spec) (len : Nat) : Nat := min len (a.bytes.length - a.pos)

def Spec.step (a : Spec) : Op → Spec
  | .seek pos => { a with pos := pos }
  | .write b => a.write [UInt8.ofInt b]
  | .writeBytes buf => a.write buf.part
  | .read => { a with pos := a.pos + a.available 1 }
  | .readBytes _ buf => { a with pos := a.pos + a.available buf.len }
  | .setSize newSize => { a with bytes := (padded a.bytes newSize).take newSize }
  | .size => a

/-- What read(b, off, len) returns, and the array after it. -/
def ReadBytesAnswer (a : Spec) (buf : Buffer) (count : Int) (b : List UInt8) : Prop :=
  if a.pos < a.bytes.length then
    count = a.available buf.len ∧
      b = splice buf.b buf.off ((a.bytes.drop a.pos).take (a.available buf.len))
  else (count = -1 ∨ buf.len = 0 ∧ count = 0) ∧ b = buf.b

def Answer (a : Spec) (op : Op) (out : Out) : Prop :=
  match op with
  | .read => out = .int (a.bytes[a.pos]?.elim (-1) (fun v => v.toNat))
  | .readBytes _ buf => ∃ count b, out = .bytes count b ∧ ReadBytesAnswer a buf count b
  | .size => out = .int a.bytes.length
  | _ => out = .done

/-- Every call returns and is answered as by the array, which the file is in the end. -/
def Refines : List Op → File → Spec → Prop
  | [], s, a => s.bytes = a.bytes
  | op :: ops, s, a => ∃ out s', exec op s = .ok out s' ∧ Answer a op out ∧
      Refines ops s' (a.step op)

/-- What the calls have to keep to. -/
def Met (s : File) : Op → Prop
  | .seek _ => True
  | .write _ => s.seekPos ≤ s.bytes.length ∨ s.output ≠ none
  | .writeBytes buf => s.seekPos ≤ s.bytes.length ∨ s.output ≠ none ∧ 0 < buf.len
  | .read => True
  | .readBytes reads buf => s.bytes.length < s.seekPos ∨ buf.off = 0 ∧
      (buf.len = 0 ∨ s.seekPos < s.bytes.length ∧
        min buf.len (s.bytes.length - s.seekPos) ≤ reads buf.len)
  | .setSize newSize => newSize ≤ s.bytes.length
  | .size => True

def MetAll : List Op → File → Prop
  | [], _ => True
  | op :: ops, s => Met s op ∧ MetAll ops (final (exec op s))

instance (s : File) : DecidablePred (Met s)
  | .seek _ => .isTrue trivial
  | .write _ => inferInstanceAs (Decidable (_ ∨ _))
  | .writeBytes _ => inferInstanceAs (Decidable (_ ∨ _ ∧ _))
  | .read => .isTrue trivial
  | .readBytes _ _ => inferInstanceAs (Decidable (_ ∨ _ ∧ (_ ∨ _ ∧ _)))
  | .setSize _ => inferInstanceAs (Decidable (_ ≤ _))
  | .size => .isTrue trivial

instance decidableMetAll : (ops : List Op) → (s : File) → Decidable (MetAll ops s)
  | [], _ => .isTrue trivial
  | op :: ops, s =>
    have := decidableMetAll ops (final (exec op s))
    inferInstanceAs (Decidable (Met s op ∧ MetAll ops (final (exec op s))))

/-- The array that the file stands for; the streams are where their positions say. -/
structure Represents (s : File) (a : Spec) : Prop where
  bytes : s.bytes = a.bytes
  size : s.fileSize = s.bytes.length
  pos : s.seekPos = a.pos
  output : ∀ p, s.output = some p → p = s.outPos ∧ p ≤ s.bytes.length
  input : ∀ p, s.input = some p → p = s.inPos ∧ p ≤ s.bytes.length

theorem padded_of_le {bytes : List UInt8} {n : Nat} (h : n ≤ bytes.length) :
    padded bytes n = bytes := by
  rw [padded, Nat.sub_eq_zero_of_le h, List.replicate_zero, List.append_nil]

theorem length_padded {bytes : List UInt8} {n : Nat} :
    (padded bytes n).length = max bytes.length n := by
  rw [padded, List.length_append, List.length_replicate]
  omega

section Writes

variable {s : File} {a : Spec}

/-- Behind the end an output stream appends. -/
theorem writeOut_end {s : File} (h : s.output = some s.bytes.length) (seg : List UInt8) :
    writeOut seg s = .ok () { s with
      bytes := s.bytes ++ seg
      output := some (s.bytes ++ seg).length } := by
  have hsplice : splice s.bytes s.bytes.length seg = s.bytes ++ seg := by
    rw [splice, List.take_length, List.drop_eq_nil_of_le (Nat.le_add_right _ _), List.append_nil]
  rw [writeOut, h]
  simp only [hsplice, List.length_append]

theorem padded_append (bytes : List UInt8) {k n : Nat} (h : bytes.length + k ≤ n) :
    padded (bytes ++ List.replicate k 0) n = padded bytes n := by
  rw [padded, padded, List.append_assoc, List.replicate_append_replicate, List.length_append,
    List.length_replicate]
  congr 2
  omega

/-- The loop appends the zeros that are missing. -/
theorem writeZeros_spec (turns : Nat) {s : File} {newSize : Nat}
    (hsize : s.fileSize = s.bytes.length) (hout : s.output = some s.bytes.length)
    (hlt : s.fileSize < newSize) (hturns : newSize - s.fileSize ≤ turns) :
    writeZeros turns newSize s = .ok () { s with
      bytes := padded s.bytes newSize
      output := some newSize
      fileSize := newSize } := by
  induction turns generalizing s with
  | zero => omega
  | succ turns ih =>
    let size := min zeroBufSize (newSize - s.fileSize)
    let zeros : List UInt8 := List.replicate size 0
    let s₁ : File := { s with
      bytes := s.bytes ++ zeros
      output := some (s.bytes ++ zeros).length
      fileSize := s.fileSize + size }
    have hpos : 0 < size := Nat.lt_min.mpr ⟨by decide, by omega⟩
    have hle : size ≤ newSize - s.fileSize := Nat.min_le_right _ _
    have hlength : (s.bytes ++ zeros).length = s.fileSize + size := by
      rw [List.length_append, List.length_replicate, hsize]
    have hturn : writeZeros (turns + 1) newSize s =
        (if newSize ≠ s₁.fileSize then writeZeros turns newSize else pure ()) s₁ := by
      rw [writeZeros, bind_get, bind_ok (writeOut_end hout _)]
      rfl
    have hpadded : padded (s.bytes ++ zeros) newSize = padded s.bytes newSize :=
      padded_append s.bytes (by omega)
    rw [hturn]
    by_cases hmore : newSize ≠ s₁.fileSize
    · have hmore' : newSize ≠ s.fileSize + size := hmore
      rw [if_pos hmore, ih (s := s₁) hlength.symm rfl
        (show s.fileSize + size < newSize by omega)
        (show newSize - (s.fileSize + size) ≤ turns by omega)]
      show EStateM.Result.ok () _ = _
      rw [hpadded]
    · have heq : s.fileSize + size = newSize := (not_not.mp hmore).symm
      rw [if_neg hmore]
      have hbytes : s.bytes ++ zeros = padded s.bytes newSize := by
        rw [← hpadded, padded_of_le (by omega)]
      show EStateM.Result.ok () ({ s with
        bytes := s.bytes ++ zeros
        output := some (s.bytes ++ zeros).length
        fileSize := s.fileSize + size } : File) = _
      rw [hlength, hbytes, heq]

theorem eta {output : Option Nat} {outPos : Nat} (hout : s.output = output)
    (hpos : s.outPos = outPos) : ({ s with output := output, outPos := outPos } : File) = s := by
  subst hout hpos
  rfl

/-- The output stream is opened where the next byte goes, behind the zeros of a gap. -/
theorem prepareWrite_spec (hs : Represents s a)
    (hmet : s.seekPos ≤ s.bytes.length ∨ s.output ≠ none) :
    prepareWrite s = .ok () { s with
      bytes := padded s.bytes s.seekPos
      output := some s.seekPos
      fileSize := max s.bytes.length s.seekPos
      outPos := s.seekPos } := by
  have hinside : s.seekPos ≤ s.bytes.length → padded s.bytes s.seekPos = s.bytes ∧
      max s.bytes.length s.seekPos = s.fileSize ∧ min s.seekPos s.bytes.length = s.seekPos :=
    fun hle => ⟨padded_of_le hle, (Nat.max_eq_left hle).trans hs.size.symm, Nat.min_eq_left hle⟩
  cases hout : s.output with
  | none =>
    have hle := hmet.resolve_right (fun hsome => hsome hout)
    obtain ⟨hpadded, hmax, hmin⟩ := hinside hle
    have hprepare : prepareWrite s = .ok () { s with
        output := some (min s.seekPos s.bytes.length)
        outPos := s.seekPos } := by
      rw [prepareWrite, bind_get, if_pos hout]
      show (if s.seekPos ≠ s.seekPos then _ else _ : M Unit) _ = _
      rw [if_neg (not_not.mpr rfl)]
      rfl
    rw [hprepare, hpadded, hmax, hmin]
  | some p =>
    obtain ⟨hp, hple⟩ := hs.output p hout
    by_cases hsame : s.outPos = s.seekPos
    · obtain ⟨hpadded, hmax, -⟩ := hinside (hsame ▸ hp ▸ hple)
      have hprepare : prepareWrite s = .ok () s := by
        rw [prepareWrite, bind_get, if_neg (by rw [hout]; exact Option.some_ne_none _)]
        show (if s.outPos ≠ s.seekPos then _ else _ : M Unit) s = _
        rw [if_neg (not_not.mpr hsame)]
        rfl
      rw [hprepare, hpadded, hmax]
      exact congrArg (EStateM.Result.ok ()) (eta (hout.trans (by rw [hp, hsame])) hsame).symm
    · let s₁ : File := { s with output := some (min s.seekPos s.bytes.length) }
      rw [prepareWrite, bind_get, if_neg (by rw [hout]; exact Option.some_ne_none _)]
      show (if s.outPos ≠ s.seekPos then _ else _ : M Unit) s = _
      rw [if_pos hsame]
      show (if s.fileSize < s.seekPos then _ else _ : M Unit) s₁ = _
      by_cases hgap : s.fileSize < s.seekPos
      · have hgap' : s.bytes.length < s.seekPos := hs.size ▸ hgap
        have hopened : s₁.output = some s₁.bytes.length :=
          congrArg some (Nat.min_eq_right (Nat.le_of_lt hgap'))
        have hzeros := writeZeros_spec (s := s₁) (s.seekPos - s.fileSize) hs.size hopened hgap
          (Nat.le_refl _)
        rw [if_pos hgap, Nat.max_eq_right (Nat.le_of_lt hgap')]
        exact bind_ok hzeros _
      · have hle : s.seekPos ≤ s.bytes.length := hs.size ▸ Nat.le_of_not_lt hgap
        obtain ⟨hpadded, hmax, hmin⟩ := hinside hle
        rw [if_neg hgap, hpadded, hmax]
        show EStateM.Result.ok () ({ s with
          output := some (min s.seekPos s.bytes.length)
          outPos := s.seekPos } : File) = _
        rw [hmin]

/-- The bytes are written where the position says. -/
theorem written_spec (hs : Represents s a)
    (hmet : s.seekPos ≤ s.bytes.length ∨ s.output ≠ none) (seg : List UInt8) :
    ∃ s', (do
      prepareWrite
      writeOut seg
      postWrite seg.length) s = .ok () s' ∧
      Represents s' ⟨splice (padded a.bytes a.pos) a.pos seg, a.pos + seg.length⟩ := by
  let bytes := splice (padded s.bytes s.seekPos) s.seekPos seg
  have hlength : bytes.length = max (max s.bytes.length s.seekPos) (s.seekPos + seg.length) := by
    show (splice _ _ _).length = _
    rw [splice, List.length_append, List.length_append, List.length_take, List.length_drop,
      length_padded]
    omega
  let s' : File := { s with
    bytes := bytes
    output := some (s.seekPos + seg.length)
    fileSize := max (max s.bytes.length s.seekPos) (s.seekPos + seg.length)
    outPos := s.seekPos + seg.length
    input := none
    seekPos := s.seekPos + seg.length }
  refine ⟨s', ?_, ?_⟩
  · rw [bind_ok (prepareWrite_spec hs hmet)]
    rfl
  · rw [← hs.pos, ← hs.bytes]
    refine ⟨rfl, hlength.symm, rfl, fun p hp => ?_, fun p hp => ?_⟩ <;> cases hp
    refine ⟨rfl, ?_⟩
    show s.seekPos + seg.length ≤ bytes.length
    omega

/-- Nothing fills no gap. -/
theorem write_eq {seg : List UInt8} (h : seg ≠ [] ∨ a.pos ≤ a.bytes.length) :
    a.write seg = ⟨splice (padded a.bytes a.pos) a.pos seg, a.pos + seg.length⟩ := by
  unfold Spec.write
  split
  · rename_i hnil
    subst hnil
    rw [splice_nil, padded_of_le (h.resolve_left (fun hne => hne rfl))]
    rfl
  · rfl

end Writes

section Reads

variable {s : File} {a : Spec}

/-- The input stream is at the position, or at the end. -/
def File.atPosition (s : File) : File :=
  { s with input := some (min s.seekPos s.bytes.length), inPos := min s.seekPos s.bytes.length }

theorem prepareRead_spec (hs : Represents s a) :
    prepareRead s = .ok (decide (s.seekPos ≤ s.bytes.length)) (File.atPosition s) := by
  have hend : ∀ s' : File, s' = File.atPosition s →
      (do return (← get).inPos = (← get).seekPos : M Bool) s' =
        .ok (decide (s.seekPos ≤ s.bytes.length)) (File.atPosition s) := by
    rintro s' rfl
    show EStateM.Result.ok (decide (min s.seekPos s.bytes.length = s.seekPos)) _ = _
    have hiff : min s.seekPos s.bytes.length = s.seekPos ↔ s.seekPos ≤ s.bytes.length := by omega
    rw [decide_eq_decide.mpr hiff]
  rw [prepareRead, bind_get]
  by_cases hopen : s.input = none ∨ s.seekPos < s.inPos
  · rw [if_pos hopen]
    refine hend _ ?_
    show ({ s with
      input := some (0 + min s.seekPos (s.bytes.length - 0))
      inPos := min s.seekPos (s.bytes.length - 0) } : File) = _
    rw [Nat.zero_add, Nat.sub_zero]
    rfl
  · obtain ⟨hsome, hge⟩ := not_or.mp hopen
    obtain ⟨p, hp⟩ := Option.ne_none_iff_exists'.mp hsome
    obtain ⟨rfl, hle⟩ := hs.input p hp
    rw [if_neg hopen]
    by_cases hskip : s.inPos < s.seekPos
    · have hmin : s.inPos + min (s.seekPos - s.inPos) (s.bytes.length - s.inPos) =
          min s.seekPos s.bytes.length := by omega
      have hskipped : skip (s.seekPos - s.inPos) s =
          .ok (min (s.seekPos - s.inPos) (s.bytes.length - s.inPos))
            { s with input := some (min s.seekPos s.bytes.length) } := by
        rw [skip, hp]
        simp only [hmin]
      rw [if_pos hskip, bind_ok hskipped]
      refine hend _ ?_
      show ({ s with
        input := some (min s.seekPos s.bytes.length)
        inPos := s.inPos + min (s.seekPos - s.inPos) (s.bytes.length - s.inPos) } : File) = _
      rw [hmin]
      rfl
    · have hsame : min s.seekPos s.bytes.length = s.inPos := by omega
      rw [if_neg hskip]
      refine hend _ ?_
      rw [File.atPosition, hsame, ← hp]

theorem represents_atPosition (hs : Represents s a) : Represents (File.atPosition s) a := by
  refine ⟨hs.bytes, hs.size, hs.pos, hs.output, fun p hp => ?_⟩
  cases hp
  exact ⟨rfl, Nat.min_le_right _ _⟩

/-- Some bytes have been read; the next call goes on behind them. -/
def File.readOn (s : File) (n : Nat) : File :=
  { s with input := some (s.seekPos + n), inPos := s.seekPos + n, seekPos := s.seekPos + n }

theorem represents_readOn (hs : Represents s a) {n : Nat} (hn : a.pos + n ≤ a.bytes.length) :
    Represents (File.readOn s n) { a with pos := a.pos + n } := by
  refine ⟨hs.bytes, hs.size, congrArg (· + n) hs.pos, hs.output, fun p hp => ?_⟩
  cases hp
  refine ⟨rfl, ?_⟩
  show s.seekPos + n ≤ s.bytes.length
  rwa [hs.bytes, hs.pos]

/-- Past the end the position stays. -/
theorem available_eq_zero {len : Nat} (h : a.bytes.length ≤ a.pos) : a.available len = 0 := by
  rw [Spec.available, Nat.sub_eq_zero_of_le h, Nat.min_zero]

/-- A call that finds the stream at the position of the file. -/
theorem prepareRead_inside (hs : Represents s a) (hle : s.seekPos ≤ s.bytes.length) :
    prepareRead s = .ok true { s with input := some s.seekPos, inPos := s.seekPos } := by
  have hprepare := prepareRead_spec hs
  rwa [decide_eq_true hle, File.atPosition, Nat.min_eq_left hle] at hprepare

theorem prepareRead_past (hs : Represents s a) (hlt : s.bytes.length < s.seekPos) :
    prepareRead s = .ok false (File.atPosition s) := by
  have hprepare := prepareRead_spec hs
  rwa [decide_eq_false (Nat.not_le.mpr hlt)] at hprepare

theorem read_spec (hs : Represents s a) : ∃ s', exec .read s =
    .ok (.int (a.bytes[a.pos]?.elim (-1) (fun v => v.toNat))) s' ∧
      Represents s' (a.step .read) := by
  have hexec : ∀ {n : Int} {s' : File}, Jsr75File.read s = .ok n s' →
      exec .read s = .ok (.int n) s' :=
    fun h => bind_ok h _
  rcases Nat.lt_trichotomy a.pos a.bytes.length with hlt | heq | hgt
  · have hlt' : s.seekPos < s.bytes.length := by rwa [hs.pos, hs.bytes]
    have hv : s.bytes[s.seekPos]? = some a.bytes[a.pos] := by
      rw [hs.pos, hs.bytes, List.getElem?_eq_getElem hlt]
    have hone : a.available 1 = 1 := Nat.min_eq_left (by omega)
    refine ⟨File.readOn s 1, hexec ?_, ?_⟩
    · unfold Jsr75File.read
      rw [bind_ok (prepareRead_inside hs (Nat.le_of_lt hlt')), if_pos rfl]
      have hread : readIn { s with input := some s.seekPos, inPos := s.seekPos } =
          .ok (a.bytes[a.pos].toNat : Int)
            { s with input := some (s.seekPos + 1), inPos := s.seekPos } := by
        simp only [readIn, hv]
      rw [bind_ok hread, if_pos (Int.natCast_nonneg _), List.getElem?_eq_getElem hlt]
      rfl
    · show Represents _ { a with pos := a.pos + a.available 1 }
      rw [hone]
      exact represents_readOn hs hlt
  · have hend : s.seekPos = s.bytes.length := by rw [hs.pos, hs.bytes, heq]
    have hnone : s.bytes[s.seekPos]? = none := by rw [hend, List.getElem?_length]
    refine ⟨File.readOn s 0, hexec ?_, ?_⟩
    · unfold Jsr75File.read
      rw [bind_ok (prepareRead_inside hs (Nat.le_of_eq hend)), if_pos rfl]
      have hread : readIn { s with input := some s.seekPos, inPos := s.seekPos } =
          .ok (-1) { s with input := some s.seekPos, inPos := s.seekPos } := by
        simp only [readIn, hnone]
      rw [bind_ok hread, if_neg (by decide), heq, List.getElem?_length]
      rfl
    · show Represents _ { a with pos := a.pos + a.available 1 }
      rw [available_eq_zero (Nat.le_of_eq heq.symm)]
      exact represents_readOn hs (Nat.le_of_eq heq)
  · have hgt' : s.bytes.length < s.seekPos := by rwa [hs.pos, hs.bytes]
    refine ⟨File.atPosition s, hexec ?_, ?_⟩
    · unfold Jsr75File.read
      rw [bind_ok (prepareRead_past hs hgt'), if_neg Bool.false_ne_true,
        List.getElem?_eq_none (Nat.le_of_lt hgt)]
      rfl
    · show Represents _ { a with pos := a.pos + a.available 1 }
      rw [available_eq_zero (Nat.le_of_lt hgt)]
      exact represents_atPosition hs

/-- The loop stops where nothing is asked for, or nothing is left. -/
theorem readLoop_stops {reads : Nat → Nat} {off turns offData len : Nat} {b : List UInt8}
    {s : File} (hstop : len = 0 ∨ ∃ p, s.input = some p ∧ s.bytes.length ≤ p) :
    readLoop reads off turns b offData len s = .ok (offData, b) s := by
  cases turns with
  | zero => rfl
  | succ turns =>
    rw [readLoop]
    by_cases hlen : 0 < len
    · obtain ⟨p, hin, hp⟩ := hstop.resolve_left (Nat.ne_of_gt hlen)
      have hread : readBytesIn reads b off len s = .ok (-1, b) s := by
        simp only [readBytesIn, hin, if_pos hp]
      rw [if_pos hlen, bind_ok hread]
      rfl
    · rw [if_neg hlen]
      rfl

/-- A stream that delivers what it has, or as much as is asked for, at once. -/
theorem readLoop_once {reads : Nat → Nat} {off len : Nat} {b : List UInt8} {s : File} {p : Nat}
    (hin : s.input = some p) (hp : p < s.bytes.length) (hlen : 0 < len)
    (honce : min len (s.bytes.length - p) ≤ max (reads len) 1) :
    readLoop reads off len b off len s =
      .ok (off + min len (s.bytes.length - p),
        splice b off ((s.bytes.drop p).take (min len (s.bytes.length - p))))
        { s with
          input := some (p + min len (s.bytes.length - p))
          inPos := s.inPos + min len (s.bytes.length - p) } := by
  obtain ⟨turns, rfl⟩ : ∃ turns, len = turns + 1 := ⟨len - 1, by omega⟩
  have hrc : min (max (reads (turns + 1)) 1) (min (turns + 1) (s.bytes.length - p)) =
      min (turns + 1) (s.bytes.length - p) := by omega
  obtain ⟨n, hn⟩ : ∃ n, n = min (turns + 1) (s.bytes.length - p) := ⟨_, rfl⟩
  have hread : readBytesIn reads b off (turns + 1) s =
      .ok ((n : Int), splice b off ((s.bytes.drop p).take n)) { s with input := some (p + n) } := by
    simp only [readBytesIn, hin, if_neg (Nat.not_le.mpr hp), hrc, hn]
  rw [← hn, readLoop, if_pos hlen, bind_ok hread]
  show (if 0 < (n : Int) then _ else _ : M (Nat × List UInt8)) _ = _
  rw [if_pos (by omega)]
  refine readLoop_stops ?_
  rw [Int.toNat_natCast]
  by_cases hall : turns + 1 ≤ s.bytes.length - p
  · exact .inl (by omega)
  · refine .inr ⟨p + n, rfl, ?_⟩
    show s.bytes.length ≤ p + n
    omega

theorem readBytes_spec (hs : Represents s a) {reads : Nat → Nat} {buf : Buffer}
    (hmet : Met s (.readBytes reads buf)) : ∃ count b s', exec (.readBytes reads buf) s =
      .ok (.bytes count b) s' ∧ ReadBytesAnswer a buf count b ∧
      Represents s' (a.step (.readBytes reads buf)) := by
  have hexec : ∀ {n : Int} {b : List UInt8} {s' : File}, readBytes reads buf s = .ok (n, b) s' →
      exec (.readBytes reads buf) s = .ok (.bytes n b) s' := fun h => bind_ok h _
  rcases Nat.lt_or_ge s.bytes.length s.seekPos with hgt | hle
  · have hgt' : a.bytes.length < a.pos := by rwa [← hs.bytes, ← hs.pos]
    refine ⟨-1, buf.b, File.atPosition s, hexec ?_, ?_, ?_⟩
    · unfold readBytes
      rw [bind_ok (prepareRead_past hs hgt), if_neg Bool.false_ne_true]
      rfl
    · rw [ReadBytesAnswer, if_neg (Nat.not_lt.mpr (Nat.le_of_lt hgt'))]
      exact ⟨.inl rfl, rfl⟩
    · show Represents _ { a with pos := a.pos + a.available buf.len }
      rw [available_eq_zero (Nat.le_of_lt hgt')]
      exact represents_atPosition hs
  · obtain ⟨hoff, hmet⟩ := hmet.resolve_left (Nat.not_lt.mpr hle)
    have hprepare := prepareRead_inside hs hle
    have hle' : a.pos ≤ a.bytes.length := by rwa [← hs.bytes, ← hs.pos]
    have havailable : a.available buf.len = min buf.len (s.bytes.length - s.seekPos) := by
      rw [Spec.available, hs.bytes, hs.pos]
    rcases Nat.eq_zero_or_pos buf.len with hzero | hlen
    · have hnone : a.available buf.len = 0 := by
        rw [havailable, hzero, Nat.zero_min]
      refine ⟨0, buf.b, File.readOn s 0, hexec ?_, ?_, ?_⟩
      · unfold readBytes
        rw [bind_ok hprepare, if_pos rfl, bind_ok (readLoop_stops (.inl hzero)), hoff]
        rfl
      · unfold ReadBytesAnswer
        split
        · rw [hnone, List.take_zero, splice_nil]
          exact ⟨rfl, rfl⟩
        · exact ⟨.inr ⟨hzero, rfl⟩, rfl⟩
      · show Represents _ { a with pos := a.pos + a.available buf.len }
        rw [hnone]
        exact represents_readOn hs hle'
    · obtain ⟨hlt, honce⟩ := hmet.resolve_left (Nat.ne_of_gt hlen)
      have hlt' : a.pos < a.bytes.length := by rwa [← hs.bytes, ← hs.pos]
      let n := a.available buf.len
      refine ⟨n, splice buf.b buf.off ((a.bytes.drop a.pos).take n), File.readOn s n,
        hexec ?_, ?_, ?_⟩
      · have hloop := @readLoop_once reads buf.off buf.len buf.b
          { s with input := some s.seekPos, inPos := s.seekPos } s.seekPos rfl hlt hlen
          (Nat.le_trans honce (Nat.le_max_left _ 1))
        unfold readBytes
        rw [bind_ok hprepare, if_pos rfl, bind_ok hloop]
        show EStateM.Result.ok (((buf.off + min buf.len (s.bytes.length - s.seekPos) : Nat) : Int),
          splice buf.b buf.off ((s.bytes.drop s.seekPos).take
            (min buf.len (s.bytes.length - s.seekPos)))) (File.readOn s
              (min buf.len (s.bytes.length - s.seekPos))) = _
        rw [← havailable, hoff, Nat.zero_add, hs.bytes, hs.pos]
      · rw [ReadBytesAnswer, if_pos hlt']
        exact ⟨rfl, rfl⟩
      · refine represents_readOn hs ?_
        show a.pos + min buf.len (a.bytes.length - a.pos) ≤ a.bytes.length
        omega

end Reads

section Runs

variable {s : File} {a : Spec}

theorem length_part (buf : Buffer) : buf.part.length = buf.len := by
  rw [Buffer.part, List.length_take, List.length_drop]
  have hfits := buf.fits
  omega

theorem setSize_spec (hs : Represents s a) {newSize : Nat} (hle : newSize ≤ s.bytes.length) :
    ∃ s', exec (.setSize newSize) s = .ok .done s' ∧ Represents s' (a.step (.setSize newSize)) := by
  have hbytes : (padded a.bytes newSize).take newSize = s.bytes.take newSize := by
    rw [padded_of_le (hs.bytes ▸ hle), hs.bytes]
  have hset : setSize newSize s = .ok () { s with
      input := none
      output := none
      bytes := s.bytes.take newSize
      fileSize := newSize } := by
    unfold setSize
    show (if s.fileSize < newSize then _ else _ : M Unit) _ = _
    rw [if_neg (by rw [hs.size]; omega)]
    rfl
  refine ⟨_, bind_ok hset _, ?_, ?_, hs.pos, nofun, nofun⟩
  · show s.bytes.take newSize = (padded a.bytes newSize).take newSize
    rw [hbytes]
  · show newSize = (s.bytes.take newSize).length
    rw [List.length_take]
    omega

/-- A call that keeps to the condition is answered as by the array, and stands for it again. -/
theorem exec_spec (hs : Represents s a) {op : Op} (hmet : Met s op) :
    ∃ out s', exec op s = .ok out s' ∧ Answer a op out ∧ Represents s' (a.step op) := by
  cases op with
  | seek pos =>
    exact ⟨.done, { s with seekPos := pos }, rfl, rfl, hs.bytes, hs.size, rfl, hs.output, hs.input⟩
  | write b =>
    obtain ⟨s', hrun, hs'⟩ := written_spec hs hmet [UInt8.ofInt b]
    rw [← write_eq (.inl (List.cons_ne_nil _ _))] at hs'
    exact ⟨.done, s', bind_ok hrun _, rfl, hs'⟩
  | writeBytes buf =>
    have hfilled : buf.part ≠ [] ∨ a.pos ≤ a.bytes.length := by
      rcases hmet with hle | ⟨-, hlen⟩
      · rw [hs.pos, hs.bytes] at hle
        exact .inr hle
      · rw [← length_part] at hlen
        exact .inl (List.length_pos_iff.mp hlen)
    obtain ⟨s', hrun, hs'⟩ := written_spec hs (hmet.imp_right And.left) buf.part
    rw [← write_eq hfilled] at hs'
    rw [length_part] at hrun
    exact ⟨.done, s', bind_ok hrun _, rfl, hs'⟩
  | read =>
    obtain ⟨s', hrun, hs'⟩ := read_spec hs
    exact ⟨_, s', hrun, rfl, hs'⟩
  | readBytes reads buf =>
    obtain ⟨count, b, s', hrun, hanswer, hs'⟩ := readBytes_spec hs hmet
    exact ⟨_, s', hrun, ⟨count, b, rfl, hanswer⟩, hs'⟩
  | setSize newSize =>
    obtain ⟨s', hrun, hs'⟩ := setSize_spec hs hmet
    exact ⟨.done, s', hrun, rfl, hs'⟩
  | size =>
    refine ⟨.int s.fileSize, s, rfl, ?_, hs⟩
    rw [Answer, hs.size, hs.bytes]

theorem refines_of_met (ops : List Op) (hs : Represents s a) (hmet : MetAll ops s) :
    Refines ops s a := by
  induction ops generalizing s a with
  | nil => exact hs.bytes
  | cons op ops ih =>
    obtain ⟨out, s', hrun, hanswer, hs'⟩ := exec_spec hs hmet.1
    have hrest := hmet.2
    rw [hrun, final_ok] at hrest
    exact ⟨out, s', hrun, hanswer, ih hs' hrest⟩

theorem represents_opened (bytes : List UInt8) : Represents (opened bytes) ⟨bytes, 0⟩ :=
  ⟨rfl, rfl, rfl, nofun, nofun⟩

/-- An opened file behaves as its bytes as long as every call keeps to the condition. -/
theorem jsr75_file_refines (bytes : List UInt8) (ops : List Op) (hmet : MetAll ops (opened bytes)) :
    Refines ops (opened bytes) ⟨bytes, 0⟩ :=
  refines_of_met ops (represents_opened bytes) hmet

theorem jsr75_file_refines_gap : Refines [.write 65, .seek 3, .write 200, .seek 0,
    .readBytes id ⟨[7, 7, 7, 7, 7], 0, 5, by decide⟩, .setSize 2, .read, .size]
    (opened []) ⟨[], 0⟩ :=
  jsr75_file_refines [] _ (by decide)

/-- A size is made larger through an output stream that has just been dropped. -/
theorem larger_size_throws : ¬Refines [.setSize 1] (opened []) ⟨[], 0⟩ := by
  rintro ⟨out, s', hrun, -⟩
  cases hrun

end Runs

end Rhodes.Jsr75Refinement
