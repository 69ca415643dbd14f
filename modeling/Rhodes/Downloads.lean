import Rhodes.StreamReads

/-!
The end of a download. At the end of the stream the reader of bytes reports -1 and the reader of
blocks reports 0, which the loop takes for one more empty read. So a download to a device ends
only where the reads for one buffer add up to more than it, and the write of them throws.
-/
namespace Rhodes.Downloads

open Arrays NetRequest StreamReads

/-- A run of the loop, with some number of turns, that is not cut off. -/
def Ends {α : Type} (run : Nat → M α) (s : Net) : Prop :=
  ∃ fuel, ∀ s', run fuel s ≠ .error .running s'

/-- No exception is due on the stream of an answer. -/
def opened (reads : List Chunk) (byteBuffer : ByteBuffer) (sent : List UInt8) : Net :=
  ⟨none, reads, byteBuffer, sent⟩

/-- The reads for one buffer add up to more than it; as many bytes are in it already. -/
def overshoots (bytesRead : Nat) : List Chunk → Bool
  | [] => false
  | c :: rest =>
    if bytesRead + c.bytes.length < byteBufferSize then
      overshoots (bytesRead + c.bytes.length) rest
    else if bytesRead + c.bytes.length = byteBufferSize then overshoots 0 rest
    else true

/-- Either the first fill overshoots, or what it leaves does. -/
theorem overshoots_fill {k : Nat} (hk : k < byteBufferSize) (cs : List Chunk) :
    overshoots k cs = true ↔ byteBufferSize < k + (contents (fill k cs).1).length ∨
      overshoots 0 (fill k cs).2 = true := by
  induction cs generalizing k with
  | nil =>
    simp only [overshoots, fill, contents_nil, List.length_nil, Bool.false_eq_true, or_false,
      false_iff]
    omega
  | cons c rest ih =>
    rw [overshoots, fill, if_pos hk, contents_cons, List.length_append, ← Nat.add_assoc]
    rcases Nat.lt_trichotomy (k + c.bytes.length) byteBufferSize with hlt | heq | hgt
    · rw [if_pos hlt]
      exact ih hlt
    · rw [if_neg (by omega), if_pos heq, heq]
      have hfill : fill byteBufferSize rest = ([], rest) := by
        cases rest with
        | nil => rfl
        | cons d rest => rw [fill, if_neg (Nat.lt_irrefl _)]
      rw [hfill]
      simp only [contents_nil, List.length_nil, Nat.add_zero, Nat.lt_irrefl, false_or]
    · rw [if_neg (by omega), if_neg (by omega)]
      exact iff_of_true rfl (.inl (by omega))

theorem bufferedRead_ends {s : Net} (h : Quiet s) : Ends bufferedRead s := by
  refine ⟨s.supply.length + 1, fun s' hrun => ?_⟩
  rw [bufferedRead_eq h (Nat.lt_succ_self _)] at hrun
  cases hrun

/-- A call of the reader of bytes without an exception. -/
theorem bufferedReadByByte_quiet {s : Net} (h : Quiet s) (fuel : Nat) :
    (∃ s', bufferedReadByByte fuel s =
        .ok (byteCount (min byteBufferSize (contents s.supply).length)) s' ∧
      s'.pending = none ∧ s'.sent = s.sent ∧
      contents s'.supply = (contents s.supply).drop byteBufferSize ∧
      s'.byteBuffer.1.take (min byteBufferSize (contents s.supply).length) =
        (contents s.supply).take byteBufferSize) ∨
    (fuel ≤ (contents s.supply).length ∧ ∃ s', bufferedReadByByte fuel s = .error .running s') := by
  have htaken : taken 0 (contents s.supply).length =
      min byteBufferSize (contents s.supply).length := rfl
  obtain ⟨hends, hruns⟩ := bufferedReadByByteFrom_lasts (Nat.zero_le _) fuel (lasts_quiet h _)
  rcases Nat.lt_or_ge (taken 0 (contents s.supply).length) fuel with hlt | hge
  · obtain ⟨s', hreturns, htakes⟩ := hends hlt
    rw [Nat.zero_add, htaken] at hreturns
    rw [htaken] at htakes
    have htake : (contents s.supply).take (min byteBufferSize (contents s.supply).length) =
        (contents s.supply).take byteBufferSize := List.take_eq_take_min.symm
    refine .inl ⟨s', hreturns, ?_, htakes.sent, ?_, ?_⟩
    · rw [htakes.pending, h]
      rfl
    · rw [htakes.supply]
      rcases Nat.le_total byteBufferSize (contents s.supply).length with hle | hle
      · rw [Nat.min_eq_left hle]
      · rw [Nat.min_eq_right hle, List.drop_length, List.drop_eq_nil_of_le hle]
    · rw [htakes.buffer, htake, splice, List.take_zero, List.nil_append]
      apply List.take_left'
      rw [List.length_take]
  · exact .inr ⟨Nat.le_trans hge (Nat.min_le_right _ _), hruns hge⟩

theorem bufferedReadByByte_ends {s : Net} (h : Quiet s) : Ends bufferedReadByByte s := by
  refine ⟨(contents s.supply).length + 1, fun s' hrun => ?_⟩
  rcases bufferedReadByByte_quiet h ((contents s.supply).length + 1) with
    ⟨s₁, hreturns, -⟩ | ⟨hle, -⟩
  · rw [hreturns] at hrun
    cases hrun
  · exact Nat.not_succ_le_self _ hle

section Turns

variable {s s₁ : Net} {bReadByBytes : Bool} {fuel : Nat}

/-- A turn after what its reader has returned. -/
theorem pullLoop_next (bReadByBytes : Bool) {n : Int} (hread :
    (if bReadByBytes then bufferedReadByByte fuel else bufferedRead fuel) s = .ok n s₁) :
    pullLoop bReadByBytes (fuel + 1) s = (if 0 < n then writeBuffer n >>= fun _ =>
      if 0 ≤ n then pullLoop bReadByBytes fuel else pure ()
      else if 0 ≤ n then pullLoop bReadByBytes fuel else pure ()) s₁ := by
  cases bReadByBytes with
  | true =>
    have hread' : bufferedReadByByte fuel s = .ok n s₁ := hread
    rw [pullLoop, if_pos rfl, bind_ok hread']
  | false =>
    have hread' : bufferedRead fuel s = .ok n s₁ := hread
    rw [pullLoop, if_neg Bool.false_ne_true, bind_ok hread']

/-- Bytes that fit, or none, are written, and the loop goes on. -/
theorem pullLoop_writes (bReadByBytes : Bool) {n : Nat} (h : Quiet s₁)
    (hn : n ≤ byteBufferSize) (hread :
    (if bReadByBytes then bufferedReadByByte fuel else bufferedRead fuel) s = .ok n s₁) :
    pullLoop bReadByBytes (fuel + 1) s = pullLoop bReadByBytes fuel
      { s₁ with sent := s₁.sent ++ s₁.byteBuffer.1.take n } := by
  rw [pullLoop_next bReadByBytes hread]
  cases n with
  | zero =>
    rw [List.take_zero, List.append_nil]
    rfl
  | succ n =>
    rw [if_pos (by omega), bind_ok (writeBuffer_quiet h hn), if_pos (Int.natCast_nonneg _)]

end Turns

section Simulator

/-- The loop with the reader of bytes writes all bytes of the stream, and ends. -/
theorem pullLoop_simulator {s : Net} (h : Quiet s) (fuel : Nat) :
    (∃ s', pullLoop true fuel s = .ok () s' ∧ Quiet s' ∧
      s'.sent = s.sent ++ contents s.supply) ∨
    (fuel ≤ (contents s.supply).length + 1 ∧ ∃ s', pullLoop true fuel s = .error .running s') := by
  induction fuel generalizing s with
  | zero => exact .inr ⟨Nat.zero_le _, s, rfl⟩
  | succ fuel ih =>
    rcases bufferedReadByByte_quiet h fuel with
      ⟨s₁, hreturns, hquiet, hsent, hsupply, hbuffer⟩ | ⟨hle, s₁, hruns⟩
    · rcases Nat.eq_zero_or_pos (contents s.supply).length with hzero | hpos
      · rw [hzero, Nat.min_zero] at hreturns
        refine .inl ⟨s₁, ?_, hquiet, ?_⟩
        · rw [pullLoop_next true hreturns]
          rfl
        · rw [hsent, List.length_eq_zero_iff.mp hzero, List.append_nil]
      · have hmin : 0 < min byteBufferSize (contents s.supply).length :=
          Nat.lt_min.mpr ⟨by decide, hpos⟩
        rw [byteCount, if_pos hmin] at hreturns
        rw [pullLoop_writes true hquiet (Nat.min_le_left _ _) hreturns, hbuffer,
          hsent]
        have hrest : (contents s₁.supply).length + 1 ≤ (contents s.supply).length := by
          rw [hsupply, List.length_drop]
          have hsize : 0 < byteBufferSize := by decide
          omega
        rcases ih (s := { s₁ with sent := s.sent ++ (contents s.supply).take byteBufferSize })
          hquiet with ⟨s₂, hloop, hquiet₂, hsent₂⟩ | ⟨hle, s₂, hruns⟩
        · refine .inl ⟨s₂, hloop, hquiet₂, ?_⟩
          rw [hsent₂]
          show s.sent ++ _ ++ contents s₁.supply = _
          rw [hsupply, List.append_assoc, List.take_append_drop]
        · refine .inr ⟨?_, s₂, hruns⟩
          have hle' : fuel ≤ (contents s₁.supply).length + 1 := hle
          omega
    · refine .inr ⟨Nat.succ_le_succ hle, s₁, ?_⟩
      rw [pullLoop, if_pos rfl]
      exact Outcomes.bind_error hruns _

end Simulator

section Device

/-- One turn on a device, where the reads fit: what they leave in the buffer is written, and the
loop goes on. -/
theorem pullLoop_turn {s : Net} (h : Quiet s) {fuel : Nat}
    (hread : bufferedRead fuel s = .ok (contents (fill 0 s.supply).1).length
      (loaded s (fill 0 s.supply).1 (fill 0 s.supply).2))
    (hfits : (contents (fill 0 s.supply).1).length ≤ byteBufferSize) :
    ∃ sent, pullLoop false (fuel + 1) s = pullLoop false fuel
      { loaded s (fill 0 s.supply).1 (fill 0 s.supply).2 with sent := sent } := by
  have hquiet : Quiet (loaded s (fill 0 s.supply).1 (fill 0 s.supply).2) := h
  exact ⟨_, pullLoop_writes false hquiet hfits hread⟩

/-- Without reads that overshoot, the loop is running after any number of turns. -/
theorem pullLoop_runs {s : Net} (h : Quiet s) (hfits : overshoots 0 s.supply = false) (fuel : Nat) :
    ∃ s', pullLoop false fuel s = .error .running s' := by
  induction fuel generalizing s with
  | zero => exact ⟨s, rfl⟩
  | succ fuel ih =>
    have hnot : ¬(byteBufferSize < 0 + (contents (fill 0 s.supply).1).length ∨
        overshoots 0 (fill 0 s.supply).2 = true) := by
      rw [← overshoots_fill (by decide), hfits]
      exact Bool.false_ne_true
    rw [not_or, Nat.zero_add, Nat.not_lt, Bool.not_eq_true] at hnot
    rcases bufferedRead_cases h fuel with hread | ⟨s', hread⟩
    · obtain ⟨sent, hturn⟩ := pullLoop_turn h hread hnot.1
      rw [hturn]
      exact ih h hnot.2
    · refine ⟨s', ?_⟩
      rw [pullLoop, if_neg Bool.false_ne_true]
      exact Outcomes.bind_error hread _

/-- Reads that overshoot end the loop: the write of them throws. -/
theorem pullLoop_throws {s : Net} (h : Quiet s) (hover : overshoots 0 s.supply = true) {fuel : Nat}
    (hfuel : s.supply.length + 1 < fuel) :
    ∃ s', pullLoop false fuel s = .error .indexOutOfBounds s' := by
  induction fuel generalizing s with
  | zero => exact absurd hfuel (Nat.not_lt_zero _)
  | succ fuel ih =>
    have hread := bufferedRead_eq h (Nat.lt_of_succ_lt_succ hfuel)
    rcases Nat.lt_or_ge byteBufferSize (contents (fill 0 s.supply).1).length with hgt | hle
    · refine ⟨loaded s (fill 0 s.supply).1 (fill 0 s.supply).2, ?_⟩
      rw [pullLoop_next false hread, if_pos (by omega)]
      exact Outcomes.bind_error (writeBuffer_over hgt) _
    · obtain ⟨sent, hturn⟩ := pullLoop_turn h hread hle
      rw [overshoots_fill (by decide), Nat.zero_add] at hover
      rw [hturn]
      refine ih h (hover.resolve_left (by omega)) ?_
      show (fill 0 s.supply).2.length + 1 < fuel
      cases hsupply : s.supply with
      | nil =>
        rw [hsupply] at hover
        simp [fill, overshoots] at hover
      | cons c rest =>
        have hrest := @fill_rest_lt c rest
        rw [hsupply] at hfuel
        omega

/-- On a device the loop never returns. -/
theorem pullLoop_no_return {s s' : Net} (h : Quiet s) (fuel : Nat) :
    pullLoop false fuel s ≠ .ok () s' := by
  induction fuel generalizing s with
  | zero => exact nofun
  | succ fuel ih =>
    intro hrun
    rcases bufferedRead_cases h fuel with hread | ⟨s₁, hread⟩
    · rcases Nat.lt_or_ge byteBufferSize (contents (fill 0 s.supply).1).length with hgt | hle
      · rw [pullLoop_next false hread, if_pos (by omega),
          Outcomes.bind_error (writeBuffer_over hgt)] at hrun
        cases hrun
      · obtain ⟨sent, hturn⟩ := pullLoop_turn h hread hle
        rw [hturn] at hrun
        exact ih (s := { loaded s (fill 0 s.supply).1 (fill 0 s.supply).2 with sent := sent }) h
          hrun
    · rw [pullLoop, if_neg Bool.false_ne_true, Outcomes.bind_error hread] at hrun
      cases hrun

end Device

/-- The loops inside the readers end on every stream. The loop of a download ends exactly with
the reader of bytes, or where reads overshoot the buffer. -/
theorem download_ends_iff (reads : List Chunk) (byteBuffer : ByteBuffer) (sent : List UInt8)
    (bReadByBytes : Bool) :
    Ends bufferedRead (opened reads byteBuffer sent) ∧
    Ends bufferedReadByByte (opened reads byteBuffer sent) ∧
    (Ends (pullLoop bReadByBytes) (opened reads byteBuffer sent) ↔
      bReadByBytes = true ∨ overshoots 0 reads = true) := by
  have hquiet : Quiet (opened reads byteBuffer sent) := rfl
  refine ⟨bufferedRead_ends hquiet, bufferedReadByByte_ends hquiet, ?_⟩
  cases bReadByBytes with
  | true =>
    refine iff_of_true ⟨(contents reads).length + 2, fun s' hrun => ?_⟩ (.inl rfl)
    rcases pullLoop_simulator hquiet ((contents reads).length + 2) with ⟨s₁, hloop, -⟩ | ⟨hle, -⟩
    · exact absurd (hloop.symm.trans hrun) nofun
    · exact Nat.not_succ_le_self _ hle
  | false =>
    constructor
    · rintro ⟨fuel, hends⟩
      refine .inr ?_
      by_contra hnot
      obtain ⟨s', hrun⟩ := pullLoop_runs hquiet (Bool.not_eq_true _ |>.mp hnot) fuel
      exact hends s' hrun
    · rintro (hfalse | hover)
      · cases hfalse
      · refine ⟨reads.length + 2, fun s' hrun => ?_⟩
        obtain ⟨s₁, hthrows⟩ := pullLoop_throws hquiet hover (Nat.lt_succ_self _)
        exact absurd (hthrows.symm.trans hrun) nofun

/-- A download of no bytes to a device does not end. -/
theorem empty_download_runs : ¬Ends (pullLoop false) (opened [] .zero []) := by
  rintro ⟨fuel, hends⟩
  obtain ⟨s', hrun⟩ := pullLoop_runs (s := opened [] .zero []) rfl rfl fuel
  exact hends s' hrun

end Rhodes.Downloads
