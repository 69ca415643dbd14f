import Rhodes.PulledFiles
import Rhodes.PushedFiles

/-!
When transfers are exact. A pushed file arrives with reads that fill the buffer and without
exceptions behind the first of them; a pulled one in the simulator, over a target that is not
longer and without bytes of failed attempts; the body of a request where its encoding has as many
bytes as the string has units.
-/
namespace Rhodes.Transfers

open Arrays NetRequest Outcomes PulledFiles PushedFiles StreamReads TransferRules

section Body

variable {readFully : List UInt8 → String} {getBytes : List UInt16 → List UInt8}
  {strBody : List UInt16} {t : Attempt} {s s' : Net} {r : NetResponse}

theorem write_ok {bytes : List UInt8} (h : write bytes s = .ok () s') :
    s'.sent = s.sent ++ bytes := by
  unfold write at h
  split at h <;> cases h <;> rfl

/-- What the body's part of a request puts on the connection. -/
theorem doRequest_sent (h : doRequest readFully getBytes strBody t s = .ok r s') :
    strBody.length ≤ (getBytes strBody).length ∧
      s'.sent = (getBytes strBody).take strBody.length ∨ strBody = [] ∧ s'.sent = [] := by
  obtain ⟨_, s₁, -, h⟩ := bind_eq_ok h
  obtain ⟨_, s₂, hmodify, h⟩ := bind_eq_ok h
  have hempty : s₂.sent = [] := by
    cases hmodify
    rfl
  have hlast : ∀ {s₃ : Net}, (lastIo >>= fun _ =>
      (pure ⟨readFully (contents t.reads), t.code⟩ : M NetResponse)) s₃ = .ok r s' →
      s'.sent = s₃.sent := by
    intro s₃ hlast
    obtain ⟨_, s₄, hio, hpure⟩ := bind_eq_ok hlast
    cases hpure
    unfold lastIo at hio
    split at hio <;> cases hio
    rfl
  by_cases hbody : strBody = []
  · rw [if_neg (not_not.mpr hbody)] at h
    exact .inr ⟨hbody, (hlast h).trans hempty⟩
  · rw [if_pos hbody] at h
    obtain ⟨_, s₃, hwrite, h⟩ := bind_eq_ok h
    unfold writeFirst at hwrite
    by_cases hbounds : (getBytes strBody).length < strBody.length
    · rw [if_pos hbounds] at hwrite
      cases hwrite
    · rw [if_neg hbounds] at hwrite
      refine .inl ⟨Nat.not_lt.mp hbounds, ?_⟩
      rw [hlast h, write_ok hwrite, hempty, List.nil_append]

/-- With as many bytes as units, an attempt with an exception is made again. -/
theorem doRequest_throws {b : Break} (h : t.fault = some b)
    (hlength : (getBytes strBody).length = strBody.length) :
    ∃ s', doRequest readFully getBytes strBody t s = .error .ioException s' := by
  obtain ⟨after, through⟩ := b
  rcases after with _ | n
  · refine ⟨{ s with pending := t.fault }, bind_error ?_ _⟩
    show io { s with pending := t.fault } = _
    rw [h]
    rfl
  have hconnect : connect t s = .ok () { s with pending := some ⟨n, through⟩ } := by
    show io { s with pending := t.fault } = _
    rw [h]
    rfl
  unfold doRequest
  rw [bind_ok hconnect]
  by_cases hbody : strBody = []
  · refine ⟨{ s with pending := some ⟨n, through⟩, sent := [] }, ?_⟩
    rw [if_neg (not_not.mpr hbody)]
    rfl
  · have hwrite : writeFirst (getBytes strBody) strBody.length = write (getBytes strBody) := by
      unfold writeFirst
      rw [if_neg (by omega), ← hlength, List.take_length]
    rw [if_pos hbody, hwrite]
    cases n with
    | zero => exact ⟨_, rfl⟩
    | succ n => exact ⟨_, rfl⟩

theorem doRequest_returns (h : t.fault = none)
    (hlength : (getBytes strBody).length = strBody.length) :
    ∃ r s', doRequest readFully getBytes strBody t s = .ok r s' ∧ s'.sent = getBytes strBody := by
  have hconnect : connect t s = .ok () { s with pending := none } := by
    show io { s with pending := t.fault } = _
    rw [h]
    rfl
  unfold doRequest
  rw [bind_ok hconnect]
  by_cases hbody : strBody = []
  · refine ⟨⟨readFully (contents t.reads), t.code⟩, { s with pending := none, sent := [] }, ?_, ?_⟩
    · rw [if_neg (not_not.mpr hbody)]
      rfl
    · rw [hbody] at hlength ⊢
      exact (List.length_eq_zero_iff.mp hlength).symm
  · have hwrite : writeFirst (getBytes strBody) strBody.length = write (getBytes strBody) := by
      unfold writeFirst
      rw [if_neg (by omega), ← hlength, List.take_length]
    rw [if_pos hbody, hwrite]
    exact ⟨_, _, rfl, List.nil_append _⟩

variable (readFully getBytes strBody) (byteBuffer : ByteBuffer)

/-- Where an attempt meets no exception, the encoded body is sent. -/
def BodyExact (attempts : Nat → Attempt) : Prop :=
  ∀ j, Succeeds attempts j → ∃ r s,
    doRequestTry readFully getBytes strBody attempts ⟨none, [], byteBuffer, []⟩ = .ok r s ∧
      s.sent = getBytes strBody

variable {readFully getBytes strBody byteBuffer} {attempts : Nat → Attempt}

/-- The number of units is taken for the number of bytes. -/
theorem body_exact_iff : BodyExact readFully getBytes strBody byteBuffer attempts ↔
    ∀ j, Succeeds attempts j → (getBytes strBody).length = strBody.length := by
  constructor
  · intro h j hj
    obtain ⟨r, s, hrun, hsent⟩ := h j hj
    have hends := retry_ends (P := fun _ _ => True)
      (Q := fun _ s => strBody.length ≤ (getBytes strBody).length ∧
        s.sent = (getBytes strBody).take strBody.length ∨ strBody = [] ∧ s.sent = [])
      (fun _ _ _ _ _ => trivial) (fun _ _ _ _ _ hok => doRequest_sent hok) _ 0 _ r s trivial hrun
    rcases hends with ⟨hle, htake⟩ | ⟨hnil, hempty⟩
    · have hlength := congrArg List.length (hsent.symm.trans htake)
      rw [List.length_take] at hlength
      omega
    · rw [← hsent, hempty, hnil]
      rfl
  · intro h j hj
    have hlength := h j hj
    obtain ⟨r, s, hrun, hsent⟩ := @retry_returns NetResponse
      (doRequest readFully getBytes strBody) attempts (fun _ => True)
      (fun _ s => s.sent = getBytes strBody) j
      (by
        intro i hi s _
        obtain ⟨b, hb⟩ := Option.ne_none_iff_exists'.mp (hj.2.2 i hi)
        obtain ⟨s', hrun⟩ := @doRequest_throws readFully getBytes strBody _ s _ hb hlength
        exact ⟨s', hrun, trivial⟩)
      (fun s _ => doRequest_returns hj.2.1 hlength)
      (maxNetRequestRetry - 1) 0 ⟨none, [], byteBuffer, []⟩ (Nat.zero_le j)
      (by
        have hlt := hj.1
        unfold maxNetRequestRetry at *
        omega) trivial
    exact ⟨r, s, hrun, hsent⟩

end Body

/-- The contents of a file are those of all files of its sizes, as the loops do not look at the
bytes. -/
theorem transfers_exact_iff (readFully : List UInt8 → String) (byteBuffer : ByteBuffer)
    (attempts : Nat → Attempt) :
    (∀ chunks, (∀ ds, SameReads chunks ds → PushExact readFully byteBuffer ds attempts) ↔
      ∀ j, Succeeds attempts j → chunks = [] ∨ (FullReads chunks ∧
        ∀ i < j, ∀ b, (attempts i).fault = some b → b.after ≤ firstRead)) ∧
    (∀ bReadByBytes old, PullExact readFully byteBuffer bReadByBytes old attempts ↔
      ∀ j, Succeeds attempts j → (attempts j).code = httpOk →
        bReadByBytes = true ∧ old.length ≤ (contents (attempts j).reads).length ∧
        ∀ i < j, ∀ b, (attempts i).fault = some b → WritesNothing (attempts i) b) ∧
    (∀ getBytes strBody, BodyExact readFully getBytes strBody byteBuffer attempts ↔
      ∀ j, Succeeds attempts j → (getBytes strBody).length = strBody.length) :=
  ⟨fun _ => push_exact_iff, fun _ _ => pull_exact_iff, fun _ _ => body_exact_iff⟩

/-- A file of the bytes 1 and 0, read one by one without any exception, arrives as two zeros. -/
theorem short_reads_lose : ¬PushExact (fun _ => "") ByteBuffer.zero
    [⟨1, [], by decide⟩, ⟨0, [], by decide⟩] (fun _ => ⟨none, httpOk, []⟩) := by
  intro h
  obtain ⟨fuel, r, s, hrun, hsent⟩ := h 0 ⟨by decide, rfl, fun i hi => absurd hi (by omega)⟩
  refine push_loses ?_ hrun hsent
  refine loses_first (v := 1) (w := 0) (by decide) (by decide) (List.cons_ne_nil _ _) rfl ?_
  intro e he
  rw [List.mem_singleton.mp he]

end Rhodes.Transfers
