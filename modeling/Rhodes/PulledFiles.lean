import Mathlib
import Rhodes.Downloads
import Rhodes.TransferRules

/-!
What a pulled file leaves in its target. The bytes that a failed attempt has written stay in front
of those of the next one, and what the target held behind them stays as well. On a device an
answer never ends.
-/
namespace Rhodes.PulledFiles

open Arrays Downloads NetRequest Outcomes StreamReads TransferRules

/-- The operations of an attempt before its first write to the file. -/
def firstWrite (reads : List Chunk) : Nat := 2 + taken 0 ((contents reads).length + 1)

/-- The exception comes before any byte of the answer is in the file. -/
def WritesNothing (t : Attempt) (b : Break) : Prop :=
  t.code ≠ httpOk ∨ t.reads = [] ∨ b.after < firstWrite t.reads ∨
    (b.after = firstWrite t.reads ∧ b.through = 0)

section Attempt

variable {readFully : List UInt8 → String} {fuel : Nat} {bReadByBytes : Bool} {t : Attempt}
  {s s' : Net} {r : NetResponse}

/-- What an attempt does once the answer is there. -/
def receive (readFully : List UInt8 → String) (fuel : Nat) (bReadByBytes : Bool) (t : Attempt) :
    M NetResponse :=
  if t.code = httpOk then do
    modify (fun s => { s with supply := t.reads })
    pullLoop bReadByBytes fuel
    lastIo
    return ⟨"", t.code⟩
  else answer readFully t

/-- The file has only grown. -/
def Grows (s s' : Net) : Prop := s.sent <+: s'.sent

instance : Std.Refl Grows := ⟨fun _ => List.prefix_rfl⟩

instance : IsTrans Net Grows := ⟨fun _ _ _ h h' => h.trans h'⟩

theorem grows_of_flows {α : Type} {p : M α} (h : Moves Flows p) : Moves Grows p :=
  h.mono (fun _ _ hflows => hflows.2)

theorem grows_answer : Moves Grows (answer readFully t) :=
  (grows_of_flows flows_lastIo).bind (fun _ => Moves.pure _)

theorem grows_receive : Moves Grows (receive readFully fuel bReadByBytes t) := by
  refine Moves.ite (fun _ => ?_) (fun _ => grows_answer)
  refine Moves.bind (Moves.modify (fun _ => List.prefix_rfl)) (fun _ => ?_)
  exact (grows_of_flows (flows_rule.pullLoop bReadByBytes fuel)).bind (fun _ =>
    (grows_of_flows flows_lastIo).bind (fun _ => Moves.pure _))

theorem grows_pullFile1 : Moves Grows (pullFile1 readFully fuel bReadByBytes t) := by
  refine Moves.bind ?_ (fun _ => Moves.bind (grows_of_flows flows_io) (fun _ => grows_receive))
  exact Moves.bind (Moves.modify (fun _ => List.prefix_rfl)) (fun _ => grows_of_flows flows_io)

theorem pullFile1_quiet (h : t.fault = none) : pullFile1 readFully fuel bReadByBytes t s =
    receive readFully fuel bReadByBytes t { s with pending := none } := by
  have hconnect : connect t s = .ok () { s with pending := none } := by
    show io { s with pending := t.fault } = _
    rw [h]
    rfl
  unfold pullFile1
  rw [bind_ok hconnect]
  rfl

/-- An exception that comes while the answer is read. -/
theorem pullFile1_due {n through : Nat} (h : t.fault = some ⟨n + 2, through⟩) :
    pullFile1 readFully fuel bReadByBytes t s =
      receive readFully fuel bReadByBytes t { s with pending := some ⟨n, through⟩ } := by
  have hconnect : connect t s = .ok () { s with pending := some ⟨n + 1, through⟩ } := by
    show io { s with pending := t.fault } = _
    rw [h]
    rfl
  unfold pullFile1
  rw [bind_ok hconnect]
  rfl

/-- The end of an attempt behind its loop. -/
def done (t : Attempt) : M NetResponse := lastIo >>= fun _ => pure ⟨"", t.code⟩

theorem grows_done : Moves Grows (done t) :=
  (grows_of_flows flows_lastIo).bind (fun _ => Moves.pure _)

theorem receive_ok (hcode : t.code = httpOk) : receive readFully fuel bReadByBytes t s =
    (pullLoop bReadByBytes fuel >>= fun _ => done t) { s with supply := t.reads } := by
  rw [receive, if_pos hcode]
  rfl

theorem receive_other (hcode : t.code ≠ httpOk) :
    receive readFully fuel bReadByBytes t = answer readFully t := if_neg hcode

theorem lastIo_due (h : s.pending ≠ none) : lastIo s = .error .ioException s := by
  unfold lastIo
  split
  · rename_i hnone
    exact absurd hnone h
  · rfl

theorem answer_due (h : s.pending ≠ none) : answer readFully t s = .error .ioException s :=
  bind_error (lastIo_due h) _

/-- An attempt that returns has met no exception. -/
theorem pullFile1_ok (h : pullFile1 readFully fuel bReadByBytes t s = .ok r s') :
    t.fault = none := by
  by_contra hfault
  obtain ⟨_, s₁, hconnect, h⟩ := bind_eq_ok h
  obtain ⟨_, s₂, hio, h⟩ := bind_eq_ok h
  have hdue₁ : s₁.pending ≠ none :=
    honest_io.due (s := { s with pending := t.fault }) hfault hconnect
  have hdue₂ := honest_io.due hdue₁ hio
  have hreceive : receive readFully fuel bReadByBytes t s₂ = .ok r s' := h
  by_cases hcode : t.code = httpOk
  · rw [receive_ok hcode] at hreceive
    obtain ⟨_, s₃, hloop, hlast⟩ := bind_eq_ok hreceive
    have hdue₃ := (honest_rule.pullLoop bReadByBytes fuel).due
      (s := { s₂ with supply := t.reads }) hdue₂ hloop
    rw [done, bind_error (lastIo_due hdue₃)] at hlast
    cases hlast
  · rw [receive_other hcode, answer_due hdue₂] at hreceive
    cases hreceive

/-- Without an exception of its own an attempt is the last one. -/
theorem pullFile1_silent (h : t.fault = none) :
    pullFile1 readFully fuel bReadByBytes t s ≠ .error .ioException s' := by
  intro hrun
  rw [pullFile1_quiet h] at hrun
  by_cases hcode : t.code = httpOk
  · rw [receive_ok hcode] at hrun
    have hhonest := honest_rule.pullLoop bReadByBytes fuel
    cases hloop : pullLoop bReadByBytes fuel { s with pending := none, supply := t.reads } with
    | ok a s₁ =>
      rw [bind_ok hloop, done, bind_ok (lastIo_quiet (hhonest.quiet (s := { s with
        pending := none, supply := t.reads }) rfl hloop))] at hrun
      cases hrun
    | error e s₁ =>
      rw [bind_error hloop] at hrun
      cases hrun
      exact hhonest.silent (s := { s with pending := none, supply := t.reads }) rfl hloop
  · rw [receive_other hcode, answer, bind_ok (lastIo_quiet (s := { s with
      pending := none }) rfl)] at hrun
    cases hrun

/-- An attempt that returns has appended its answer, which it has read byte by byte. -/
theorem pullFile1_appends (hcode : t.code = httpOk)
    (h : pullFile1 readFully fuel bReadByBytes t s = .ok r s') :
    bReadByBytes = true ∧ s'.sent = s.sent ++ contents t.reads := by
  rw [pullFile1_quiet (pullFile1_ok h), receive_ok hcode] at h
  obtain ⟨_, s₁, hloop, hlast⟩ := bind_eq_ok h
  cases bReadByBytes with
  | true =>
    rcases pullLoop_simulator (s := { s with pending := none, supply := t.reads }) rfl fuel with
      ⟨s₂, hreturns, hquiet, hsent⟩ | ⟨-, s₂, hruns⟩
    · rw [hreturns] at hloop
      cases hloop
      rw [done, bind_ok (lastIo_quiet hquiet)] at hlast
      cases hlast
      exact ⟨rfl, hsent⟩
    · rw [hruns] at hloop
      cases hloop
  | false =>
    exact absurd hloop (pullLoop_no_return (s := { s with
      pending := none, supply := t.reads }) rfl fuel)

/-- The first call of the reader of bytes and its exception. -/
theorem firstWrite_le {n through : Nat} :
    firstWrite t.reads ≤ n + 2 ↔
      Lasts (some ⟨n, through⟩) (taken 0 ((contents t.reads).length + 1)) := by
  unfold firstWrite
  constructor
  · intro h b hb
    cases hb
    show _ ≤ n
    omega
  · intro h
    have hn : _ ≤ n := h _ rfl
    omega

/-- The exception that is due strikes in the write, after some bytes, or later. -/
theorem writeBuffer_due {n through count : Nat} (hp : s.pending = some ⟨n, through⟩)
    (hcount : count ≤ byteBufferSize) :
    (n = 0 → writeBuffer count s = .error .ioException
      { s with sent := s.sent ++ (s.byteBuffer.1.take count).take through }) ∧
    (0 < n → ∃ p, writeBuffer count s =
      .ok () { s with pending := p, sent := s.sent ++ s.byteBuffer.1.take count }) := by
  have hbounds : ¬s.byteBuffer.1.length < (count : Int).toNat := by
    rw [s.byteBuffer.2, Int.toNat_natCast]
    omega
  have hwrite : writeBuffer count s = write (s.byteBuffer.1.take count) s := by
    unfold writeBuffer writeFirst
    rw [bind_get, if_neg hbounds]
    rfl
  rw [hwrite]
  refine ⟨fun hn => ?_, fun hn => ?_⟩
  · subst hn
    unfold write
    rw [hp]
  · obtain ⟨m, rfl⟩ : ∃ m, n = m + 1 := ⟨n - 1, by omega⟩
    refine ⟨some ⟨m, through⟩, ?_⟩
    unfold write
    rw [hp]

/-- What the first turn of the reader of bytes comes to, where the exception strikes later. -/
theorem pullLoop_first {n through : Nat} (hp : s.pending = some ⟨n, through⟩)
    (hlasts : Lasts s.pending (taken 0 ((contents s.supply).length + 1)))
    (hfuel : taken 0 (contents s.supply).length < fuel) :
    ∃ s₁, s₁.sent = s.sent ∧ s₁.pending =
        some ⟨n - taken 0 ((contents s.supply).length + 1), through⟩ ∧
      bufferedReadByByte fuel s = .ok (byteCount (taken 0 (contents s.supply).length)) s₁ := by
  obtain ⟨s₁, hreturns, htakes⟩ :=
    (bufferedReadByByteFrom_lasts (Nat.zero_le _) fuel hlasts).1 hfuel
  rw [Nat.zero_add] at hreturns
  refine ⟨s₁, htakes.sent, ?_, hreturns⟩
  rw [htakes.pending, hp]
  rfl

/-- A failed attempt that writes nothing leaves the file as it was. -/
theorem pullFile1_nothing {b : Break} (h : t.fault = some b) (hnothing : WritesNothing t b)
    (hfuel : (contents t.reads).length + 1 < fuel) :
    ∃ s', pullFile1 readFully fuel true t s = .error .ioException s' ∧ s'.sent = s.sent := by
  obtain ⟨after, through⟩ := b
  rcases after with _ | _ | n
  · refine ⟨{ s with pending := t.fault }, bind_error ?_ _, rfl⟩
    show io { s with pending := t.fault } = _
    rw [h]
    rfl
  · refine ⟨{ s with pending := some ⟨0, through⟩ }, ?_, rfl⟩
    have hconnect : connect t s = .ok () { s with pending := some ⟨0, through⟩ } := by
      show io { s with pending := t.fault } = _
      rw [h]
      rfl
    unfold pullFile1
    rw [bind_ok hconnect]
    rfl
  · rw [pullFile1_due h]
    by_cases hcode : t.code = httpOk
    · obtain ⟨fuel, rfl⟩ : ∃ left, fuel = left + 1 := ⟨fuel - 1, by omega⟩
      have hturns : taken 0 (contents t.reads).length < fuel :=
        Nat.lt_of_le_of_lt (Nat.min_le_right _ _) (by omega)
      rw [receive_ok hcode]
      let s₀ : Net := { s with pending := some ⟨n, through⟩, supply := t.reads }
      show ∃ s', (pullLoop true (fuel + 1) >>= _) s₀ = _ ∧ _
      by_cases hlasts : Lasts s₀.pending (taken 0 ((contents s₀.supply).length + 1))
      · obtain ⟨s₁, hsent, hpending, hreads⟩ := pullLoop_first (s := s₀) rfl hlasts hturns
        by_cases hempty : t.reads = []
        · have hloop : pullLoop true (fuel + 1) s₀ = .ok () s₁ := by
            have hzero : taken 0 (contents s₀.supply).length = 0 := by
              show taken 0 (contents t.reads).length = 0
              rw [hempty]
              rfl
            rw [hzero] at hreads
            rw [pullLoop_next true hreads]
            rfl
          refine ⟨s₁, ?_, hsent⟩
          rw [bind_ok hloop, done, bind_error (lastIo_due (by rw [hpending]; exact Option.some_ne_none _))]
        · have hexact : n + 2 = firstWrite t.reads ∧ through = 0 := by
            have hge := firstWrite_le.mpr hlasts
            rcases hnothing with hother | hnil | hlt | hexact
            · exact absurd hcode hother
            · exact absurd hnil hempty
            · exact absurd hlt (Nat.not_lt.mpr hge)
            · exact hexact
          obtain ⟨hn, rfl⟩ := hexact
          have hpos : 0 < taken 0 (contents s₀.supply).length := by
            refine Nat.lt_min.mpr ⟨by decide, ?_⟩
            exact Nat.lt_of_lt_of_le (List.length_pos_iff.mpr hempty) (length_le_contents _)
          rw [byteCount, if_pos hpos] at hreads
          have hdue : n - taken 0 ((contents s₀.supply).length + 1) = 0 := by
            have hn' : n + 2 = 2 + taken 0 ((contents s₀.supply).length + 1) := hn
            omega
          rw [hdue] at hpending
          have hcount : taken 0 (contents s₀.supply).length ≤ byteBufferSize := Nat.min_le_left _ _
          have hwrite := (writeBuffer_due hpending hcount).1 rfl
          refine ⟨{ s₁ with sent := s₁.sent ++ [] }, ?_, ?_⟩
          · refine bind_error ?_ _
            rw [pullLoop_next true hreads, if_pos (by omega), bind_error hwrite,
              List.take_zero]
          · show s₁.sent ++ [] = s.sent
            rw [List.append_nil, hsent]
      · obtain ⟨e, s', hbreaks, hsent, he⟩ := bufferedReadByByteFrom_breaks fuel hlasts
        obtain rfl := he hturns
        refine ⟨s', bind_error ?_ _, hsent⟩
        rw [pullLoop, if_pos rfl]
        exact bind_error hbreaks _
    · refine ⟨{ s with pending := some ⟨n, through⟩ }, ?_, rfl⟩
      rw [receive_other hcode]
      exact answer_due (Option.some_ne_none _)

/-- An attempt that fails later leaves bytes in the file. -/
theorem pullFile1_something {b : Break} (h : t.fault = some b) (hsomething : ¬WritesNothing t b)
    (hrun : pullFile1 readFully fuel true t s = .error .ioException s') : s'.sent ≠ [] := by
  obtain ⟨after, through⟩ := b
  obtain ⟨hcode, hfile⟩ := not_or.mp hsomething
  obtain ⟨hne, hwrite⟩ := not_or.mp hfile
  obtain ⟨hafter, hthrough⟩ := not_or.mp hwrite
  have hafter' : 2 + taken 0 ((contents t.reads).length + 1) ≤ after := Nat.not_lt.mp hafter
  obtain ⟨n, rfl⟩ : ∃ n, after = n + 2 := ⟨after - 2, by omega⟩
  rw [pullFile1_due h, receive_ok (not_not.mp hcode)] at hrun
  let s₀ : Net := { s with pending := some ⟨n, through⟩, supply := t.reads }
  have hrun₀ : (pullLoop true fuel >>= fun _ => done t) s₀ = .error .ioException s' := hrun
  have hlasts : Lasts s₀.pending (taken 0 ((contents s₀.supply).length + 1)) :=
    firstWrite_le.mp hafter'
  rcases fuel with _ | fuel
  · cases hrun₀
  rcases Nat.lt_or_ge (taken 0 (contents s₀.supply).length) fuel with hturns | hfew
  · obtain ⟨s₁, hsent, hpending, hreads⟩ := pullLoop_first (s := s₀) rfl hlasts hturns
    have hpos : 0 < taken 0 (contents s₀.supply).length := by
      refine Nat.lt_min.mpr ⟨by decide, ?_⟩
      exact Nat.lt_of_lt_of_le (List.length_pos_iff.mpr hne) (length_le_contents _)
    rw [byteCount, if_pos hpos] at hreads
    have hfits : taken 0 (contents s₀.supply).length ≤ byteBufferSize := Nat.min_le_left _ _
    have htake : 0 < (s₁.byteBuffer.1.take (taken 0 (contents s₀.supply).length)).length := by
      rw [List.length_take, s₁.byteBuffer.2]
      exact Nat.lt_min.mpr ⟨hpos, by decide⟩
    obtain ⟨hbreaks, hwrites⟩ := writeBuffer_due hpending hfits
    have hturn := pullLoop_next true hreads
    rw [if_pos (by omega)] at hturn
    rcases Nat.eq_zero_or_pos (n - taken 0 ((contents s₀.supply).length + 1)) with hzero | hlater
    · rw [bind_error (hbreaks hzero)] at hturn
      rw [bind_error hturn] at hrun₀
      cases hrun₀
      have hone : 0 < through := by
        refine Nat.pos_of_ne_zero (fun hzero => hthrough ⟨?_, hzero⟩)
        show n + 2 = 2 + taken 0 ((contents s₀.supply).length + 1)
        have hge : 2 + taken 0 ((contents s₀.supply).length + 1) ≤ n + 2 := hafter'
        omega
      refine List.append_ne_nil_of_right_ne_nil _ (List.length_pos_iff.mp ?_)
      rw [List.length_take]
      exact Nat.lt_min.mpr ⟨hone, htake⟩
    · obtain ⟨p, hwrite⟩ := hwrites hlater
      rw [bind_ok hwrite, if_pos (by omega)] at hturn
      let s₂ : Net := { s₁ with
        pending := p,
        sent := s₁.sent ++ s₁.byteBuffer.1.take (taken 0 (contents s₀.supply).length) }
      have hrest : (pullLoop true fuel >>= fun _ => done t) s₂ = .error .ioException s' := by
        rw [← hrun₀]
        show EStateM.bind _ _ s₂ = EStateM.bind _ _ s₀
        unfold EStateM.bind
        rw [hturn]
      have hgrows : Moves Grows (pullLoop true fuel >>= fun _ => done t) :=
        (grows_of_flows (flows_rule.pullLoop true fuel)).bind (fun _ => grows_done)
      have hprefix := hgrows s₂
      rw [hrest] at hprefix
      have hlength := hprefix.length_le
      refine List.length_pos_iff.mp (Nat.lt_of_lt_of_le ?_ hlength)
      show 0 < (s₁.sent ++ _).length
      rw [List.length_append]
      omega
  · obtain ⟨s₁, hruns⟩ :=
      (bufferedReadByByteFrom_lasts (Nat.zero_le _) fuel hlasts).2 hfew
    have hloop : pullLoop true (fuel + 1) s₀ = .error .running s₁ := by
      rw [pullLoop, if_pos rfl]
      exact bind_error hruns _
    rw [bind_error hloop] at hrun₀
    cases hrun₀

end Attempt

section Pull

variable (readFully : List UInt8 → String) (byteBuffer : ByteBuffer) (bReadByBytes : Bool)
  (old : List UInt8)

/-- Where an attempt meets no exception and is answered with the file, the target is its body. -/
def PullExact (attempts : Nat → Attempt) : Prop :=
  ∀ j, Succeeds attempts j → (attempts j).code = httpOk → ∃ fuel r s,
    pullFile readFully fuel bReadByBytes attempts ⟨none, [], byteBuffer, []⟩ = .ok r s ∧
      targetFile old s.sent = contents (attempts j).reads

variable {readFully byteBuffer bReadByBytes old} {attempts : Nat → Attempt} {j : Nat}

/-- Behind a target that is longer, or bytes of failed attempts, the answer is not all. -/
theorem targetFile_eq {before answer : List UInt8} :
    targetFile old (before ++ answer) = answer ↔ before = [] ∧ old.length ≤ answer.length := by
  constructor
  · intro h
    have hlength := congrArg List.length h
    unfold targetFile at hlength
    simp only [List.length_append, List.length_drop] at hlength
    exact ⟨List.length_eq_zero_iff.mp (by omega), by omega⟩
  · rintro ⟨rfl, hle⟩
    rw [targetFile, List.nil_append, List.drop_eq_nil_of_le hle, List.append_nil]

/-- A download that returns is one to the simulator; the failed attempts have written nothing, or
their bytes stand before the answer. -/
theorem pull_returned (hj : Succeeds attempts j) (hcode : (attempts j).code = httpOk) {fuel : Nat}
    {r : NetResponse} {s : Net} (hrun : pullFile readFully fuel bReadByBytes attempts
      ⟨none, [], byteBuffer, []⟩ = .ok r s) :
    bReadByBytes = true ∧ ∃ before, s.sent = before ++ contents (attempts j).reads ∧
      (before = [] → ∀ i < j, ∀ b, (attempts i).fault = some b → WritesNothing (attempts i) b) := by
  refine retry_ends
    (P := fun k s => k ≤ j ∧ (bReadByBytes = true → s.sent = [] →
      ∀ i < k, ∀ b, (attempts i).fault = some b → WritesNothing (attempts i) b))
    (Q := fun _ s => bReadByBytes = true ∧ ∃ before,
      s.sent = before ++ contents (attempts j).reads ∧ (before = [] →
        ∀ i < j, ∀ b, (attempts i).fault = some b → WritesNothing (attempts i) b))
    (fun k s s' hs hthrow => ?_) (fun k s r s' hs hok => ?_) _ 0 _ r s
    ⟨Nat.zero_le j, fun _ _ i hi => absurd hi (Nat.not_lt_zero i)⟩ hrun
  · have hlt : k < j := by
      rcases Nat.lt_or_eq_of_le hs.1 with hlt | rfl
      · exact hlt
      · exact absurd hthrow (pullFile1_silent hj.2.1)
    refine ⟨hlt, fun hbytes hnil i hi b hb => ?_⟩
    subst hbytes
    rcases Nat.lt_succ_iff_lt_or_eq.mp hi with hless | rfl
    · have hgrows : Grows s (final (pullFile1 readFully fuel true (attempts k) s)) :=
        grows_pullFile1 s
      rw [hthrow] at hgrows
      have hsent : s.sent = [] := by
        have hgrows' : s.sent <+: s'.sent := hgrows
        rw [hnil] at hgrows'
        exact List.prefix_nil.mp hgrows'
      exact hs.2 rfl hsent i hless b hb
    · by_contra hsomething
      exact pullFile1_something hb hsomething hthrow hnil
  · obtain rfl : k = j := by
      refine Nat.le_antisymm hs.1 (Nat.le_of_not_lt (fun hlt => ?_))
      exact hj.2.2 k hlt (pullFile1_ok hok)
    obtain ⟨hbytes, hsent⟩ := pullFile1_appends hcode hok
    exact ⟨hbytes, s.sent, hsent, hs.2 hbytes⟩

/-- A download to the simulator whose failed attempts have written nothing leaves its answer. -/
theorem pull_leaves (hj : Succeeds attempts j) (hcode : (attempts j).code = httpOk)
    (hnothing : ∀ i < j, ∀ b, (attempts i).fault = some b → WritesNothing (attempts i) b) :
    ∃ fuel r s, pullFile readFully fuel true attempts ⟨none, [], byteBuffer, []⟩ = .ok r s ∧
      s.sent = contents (attempts j).reads := by
  -- enough turns for the longest of the answers
  let size : Nat → Nat := fun i => (contents (attempts i).reads).length
  let fuel := size 0 + size 1 + size 2 + 2
  have hfuel : ∀ i ≤ j, size i + 1 < fuel := by
    intro i hi
    have hlt : j < 3 := hj.1
    have hcases : i = 0 ∨ i = 1 ∨ i = 2 := by omega
    show size i + 1 < size 0 + size 1 + size 2 + 2
    rcases hcases with rfl | rfl | rfl <;> omega
  obtain ⟨r, s, hrun, hsent⟩ := @retry_returns NetResponse (pullFile1 readFully fuel true)
    attempts (fun s => s.sent = []) (fun _ s => s.sent = contents (attempts j).reads) j
    (by
      intro i hi s hs
      obtain ⟨b, hb⟩ := Option.ne_none_iff_exists'.mp (hj.2.2 i hi)
      obtain ⟨s', hrun, hsent⟩ := pullFile1_nothing (s := s) hb
        (hnothing i hi b hb) (hfuel i (Nat.le_of_lt hi))
      exact ⟨s', hrun, hsent.trans hs⟩)
    (by
      intro s hs
      rcases pullLoop_simulator (s := { s with pending := none, supply := (attempts j).reads })
        rfl fuel with ⟨s', hloop, hquiet, hsent⟩ | ⟨hle, -⟩
      · refine ⟨⟨"", (attempts j).code⟩, s', ?_, ?_⟩
        · rw [pullFile1_quiet hj.2.1, receive_ok hcode, bind_ok hloop,
            done, bind_ok (lastIo_quiet hquiet)]
          rfl
        · rw [hsent]
          show s.sent ++ _ = _
          rw [hs, List.nil_append]
      · have hlt := hfuel j (Nat.le_refl j)
        exact absurd hle (Nat.not_le.mpr hlt))
    (maxNetRequestRetry - 1) 0 ⟨none, [], byteBuffer, []⟩ (Nat.zero_le j)
    (by
      have hlt := hj.1
      unfold maxNetRequestRetry at *
      omega) rfl
  exact ⟨fuel, r, s, hrun, hsent⟩

/-- The target is the answer exactly in the simulator, with a target that was not longer, where
the failed attempts have written nothing. -/
theorem pull_exact_iff : PullExact readFully byteBuffer bReadByBytes old attempts ↔
    ∀ j, Succeeds attempts j → (attempts j).code = httpOk →
      bReadByBytes = true ∧ old.length ≤ (contents (attempts j).reads).length ∧
      ∀ i < j, ∀ b, (attempts i).fault = some b → WritesNothing (attempts i) b := by
  constructor
  · intro h j hj hcode
    obtain ⟨fuel, r, s, hrun, htarget⟩ := h j hj hcode
    obtain ⟨hbytes, before, hsent, hnothing⟩ := pull_returned hj hcode hrun
    rw [hsent, targetFile_eq] at htarget
    exact ⟨hbytes, htarget.2, hnothing htarget.1⟩
  · intro h j hj hcode
    obtain ⟨hbytes, hlength, hnothing⟩ := h j hj hcode
    obtain ⟨fuel, r, s, hrun, hsent⟩ := @pull_leaves readFully byteBuffer _ _ hj hcode
      hnothing
    subst hbytes
    refine ⟨fuel, r, s, hrun, ?_⟩
    rw [hsent]
    exact targetFile_eq.mpr ⟨rfl, hlength⟩

end Pull

end Rhodes.PulledFiles
