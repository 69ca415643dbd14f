import Rhodes.Arrays
import Rhodes.NetRequest

/-!
What the two readers do where no exception is due. The reader of blocks takes reads until their
sizes add up to the buffer, and loads each of them at the start of it; the reader of bytes takes
them one by one into their places.
-/
namespace Rhodes.StreamReads

open Arrays NetRequest Outcomes

/-- The reads that one call of bufferedRead takes, and those it leaves. -/
def fill (bytesRead : Nat) : List Chunk → List Chunk × List Chunk
  | [] => ([], [])
  | c :: rest =>
    if bytesRead < byteBufferSize then
      (c :: (fill (bytesRead + c.bytes.length) rest).1, (fill (bytesRead + c.bytes.length) rest).2)
    else ([], c :: rest)

/-- The state with the first reads taken into the buffer. -/
def loaded (s : Net) (used rest : List Chunk) : Net :=
  { s with supply := rest, byteBuffer := used.foldl ByteBuffer.load s.byteBuffer }

/-- No exception is due. -/
def Quiet (s : Net) : Prop := s.pending = none

@[simp] theorem contents_nil : contents [] = [] := rfl

@[simp] theorem contents_cons (c : Chunk) (rest : List Chunk) :
    contents (c :: rest) = c.bytes ++ contents rest := rfl

theorem contents_append (cs ds : List Chunk) : contents (cs ++ ds) = contents cs ++ contents ds :=
  List.flatMap_append

theorem bytes_pos (c : Chunk) : 0 < c.bytes.length := Nat.succ_pos _

theorem bytes_le (c : Chunk) : c.bytes.length ≤ byteBufferSize := c.fits

theorem length_le_contents (cs : List Chunk) : cs.length ≤ (contents cs).length := by
  induction cs with
  | nil => exact Nat.le_refl 0
  | cons c rest ih =>
    have hpos := bytes_pos c
    rw [contents_cons, List.length_append, List.length_cons]
    omega

theorem io_quiet {s : Net} (h : Quiet s) : io s = .ok () s := by
  unfold io
  rw [h]

theorem lastIo_quiet {s : Net} (h : Quiet s) : lastIo s = .ok () s := by
  unfold lastIo
  rw [h]

theorem write_quiet {s : Net} (h : Quiet s) (bytes : List UInt8) :
    write bytes s = .ok () { s with sent := s.sent ++ bytes } := by
  unfold write
  rw [h]

section Fill

theorem fill_append (cs : List Chunk) (k : Nat) : (fill k cs).1 ++ (fill k cs).2 = cs := by
  induction cs generalizing k with
  | nil => rfl
  | cons c rest ih =>
    unfold fill
    split
    · rw [List.cons_append, ih]
    · rfl

theorem contents_fill (cs : List Chunk) (k : Nat) :
    contents (fill k cs).1 ++ contents (fill k cs).2 = contents cs := by
  rw [← contents_append, fill_append]

/-- An empty buffer takes at least one read. -/
theorem fill_rest_lt {c : Chunk} {rest : List Chunk} :
    (fill 0 (c :: rest)).2.length < (c :: rest).length := by
  have happend := congrArg List.length (fill_append (c :: rest) 0)
  have hused : 0 < (fill 0 (c :: rest)).1.length := by
    unfold fill
    rw [if_pos (show 0 < byteBufferSize by decide)]
    exact Nat.succ_pos _
  rw [List.length_append] at happend
  omega

end Fill

section Blocks

theorem readBlock_nil {s : Net} (h : Quiet s) (hnil : s.supply = []) :
    readBlock s = .ok (-1) s := by
  unfold readBlock
  rw [bind_ok (io_quiet h), bind_get, hnil]
  rfl

theorem readBlock_cons {s : Net} {c : Chunk} {rest : List Chunk} (h : Quiet s)
    (hcons : s.supply = c :: rest) : readBlock s = .ok c.bytes.length (loaded s [c] rest) := by
  unfold readBlock
  rw [bind_ok (io_quiet h), bind_get, hcons]
  rfl

/-- With enough turns the loop takes the reads of one fill; with fewer it is still running. -/
theorem bufferedReadFrom_eq {s : Net} (h : Quiet s) (k fuel : Nat) :
    ((fill k s.supply).1.length < fuel → bufferedReadFrom k fuel s =
      .ok (k + (contents (fill k s.supply).1).length : Nat)
        (loaded s (fill k s.supply).1 (fill k s.supply).2)) ∧
    (fuel ≤ (fill k s.supply).1.length → ∃ s', bufferedReadFrom k fuel s = .error .running s') := by
  induction fuel generalizing s k with
  | zero => exact ⟨fun hlt => absurd hlt (Nat.not_lt_zero _), fun _ => ⟨s, rfl⟩⟩
  | succ fuel ih =>
    unfold bufferedReadFrom
    by_cases hk : k < byteBufferSize
    · rw [if_pos (by exact_mod_cast hk)]
      cases hsupply : s.supply with
      | nil =>
        refine ⟨fun _ => ?_, fun hle => absurd hle (Nat.not_succ_le_zero _)⟩
        rw [bind_ok (readBlock_nil h hsupply), if_pos (by decide)]
        show EStateM.Result.ok _ s = _
        simp only [fill, contents_nil, List.length_nil, Nat.add_zero, loaded, List.foldl_nil]
        rw [← hsupply]
      | cons c rest =>
        have hnext := ih (s := loaded s [c] rest) h (k + c.bytes.length)
        have hturn : bufferedReadFrom k (fuel + 1) s =
            bufferedReadFrom (k + c.bytes.length : Nat) fuel (loaded s [c] rest) := by
          rw [bufferedReadFrom, if_pos (by exact_mod_cast hk), bind_ok (readBlock_cons h hsupply),
            if_neg (by omega)]
          rfl
        rw [bufferedReadFrom, if_pos (by exact_mod_cast hk)] at hturn
        rw [hturn]
        simp only [fill, if_pos hk, List.length_cons, contents_cons, List.length_append]
        refine ⟨fun hlt => ?_, fun hle => hnext.2 (by
          show fuel ≤ (fill (k + c.bytes.length) rest).1.length
          omega)⟩
        rw [hnext.1 (show (fill (k + c.bytes.length) rest).1.length < fuel by omega),
          ← Nat.add_assoc]
        rfl
    · rw [if_neg (by exact_mod_cast hk)]
      have hfill : fill k s.supply = ([], s.supply) := by
        cases hsupply : s.supply with
        | nil => rfl
        | cons c rest => rw [fill, if_neg hk]
      rw [hfill]
      exact ⟨fun _ => rfl, fun hle => absurd hle (Nat.not_succ_le_zero _)⟩

/-- The loop returns as one fill does, or it is still running. -/
theorem bufferedRead_cases {s : Net} (h : Quiet s) (fuel : Nat) :
    bufferedRead fuel s = .ok (contents (fill 0 s.supply).1).length
      (loaded s (fill 0 s.supply).1 (fill 0 s.supply).2) ∨
    ∃ s', bufferedRead fuel s = .error .running s' := by
  obtain ⟨hreturns, hruns⟩ := bufferedReadFrom_eq h 0 fuel
  rcases Nat.lt_or_ge (fill 0 s.supply).1.length fuel with hlt | hge
  · rw [Nat.zero_add] at hreturns
    exact .inl (hreturns hlt)
  · exact .inr (hruns hge)

theorem bufferedRead_eq {s : Net} (h : Quiet s) {fuel : Nat} (hfuel : s.supply.length < fuel) :
    bufferedRead fuel s = .ok (contents (fill 0 s.supply).1).length
      (loaded s (fill 0 s.supply).1 (fill 0 s.supply).2) := by
  have hlength := congrArg List.length (fill_append s.supply 0)
  rw [List.length_append] at hlength
  have hreturns := (bufferedReadFrom_eq h 0 fuel).1 (by omega)
  rwa [Nat.zero_add] at hreturns

/-- Bytes that fit into the buffer are written from it. -/
theorem writeBuffer_quiet {s : Net} (h : Quiet s) {n : Nat} (hn : n ≤ byteBufferSize) :
    writeBuffer n s = .ok () { s with sent := s.sent ++ s.byteBuffer.1.take n } := by
  unfold writeBuffer writeFirst
  rw [bind_get, Int.toNat_natCast, if_neg (by rw [s.byteBuffer.2]; omega)]
  exact write_quiet h _

theorem writeBuffer_over {s : Net} {n : Nat} (hn : byteBufferSize < n) :
    writeBuffer n s = .error .indexOutOfBounds s := by
  unfold writeBuffer writeFirst
  rw [bind_get, Int.toNat_natCast, if_pos (by rw [s.byteBuffer.2]; omega)]
  rfl

end Blocks

section Bytes

theorem contents_restOf (c : Chunk) (rest : List Chunk) :
    contents (c :: rest) = c.head :: contents (restOf c rest) := by
  obtain ⟨b, tail, hfits⟩ := c
  cases tail with
  | nil => rfl
  | cons b' bs => rfl

/-- The exception that is due does not strike in the next operations. -/
def Lasts (p : Option Break) (ops : Nat) : Prop := ∀ b, p = some b → ops ≤ b.after

/-- What is due after some operations. -/
def spend (p : Option Break) (ops : Nat) : Option Break :=
  p.map (fun b => ⟨b.after - ops, b.through⟩)

theorem lasts_quiet {s : Net} (h : Quiet s) (ops : Nat) : Lasts s.pending ops := by
  intro b hb
  rw [show s.pending = none from h] at hb
  cases hb

theorem Lasts.mono {p : Option Break} {m n : Nat} (h : Lasts p n) (hle : m ≤ n) : Lasts p m :=
  fun b hb => Nat.le_trans hle (h b hb)

theorem lasts_zero (p : Option Break) : Lasts p 0 := fun b _ => Nat.zero_le b.after

theorem spend_zero (p : Option Break) : spend p 0 = p := by
  cases p <;> rfl

theorem spend_spend (p : Option Break) (m n : Nat) : spend (spend p m) n = spend p (m + n) := by
  cases p with
  | none => rfl
  | some b => simp only [spend, Option.map_some, Nat.sub_sub]

theorem lasts_spend {p : Option Break} {m n : Nat} (h : Lasts p m) :
    Lasts (spend p m) n ↔ Lasts p (m + n) := by
  cases p with
  | none =>
    refine ⟨fun _ b hb => ?_, fun _ b hb => ?_⟩
    · cases hb
    · cases hb
  | some b =>
    have hm := h b rfl
    constructor
    · intro hn b' hb'
      cases hb'
      have hn' : n ≤ b.after - m := hn ⟨b.after - m, b.through⟩ rfl
      omega
    · intro hn b' hb'
      cases hb'
      have hn' := hn b rfl
      show n ≤ b.after - m
      omega

theorem io_lasts {s : Net} (h : Lasts s.pending 1) :
    io s = .ok () { s with pending := spend s.pending 1 } := by
  cases hp : s.pending with
  | none =>
    rw [io_quiet hp]
    show _ = EStateM.Result.ok () { s with pending := none }
    rw [← hp]
  | some b =>
    obtain ⟨after, through⟩ := b
    have hafter := h _ hp
    cases after with
    | zero => exact absurd hafter (Nat.not_succ_le_zero 0)
    | succ n =>
      unfold io
      rw [hp]
      rfl

theorem io_breaks {s : Net} (h : ¬Lasts s.pending 1) : io s = .error .ioException s := by
  cases hp : s.pending with
  | none => exact absurd (lasts_quiet hp 1) h
  | some b =>
    obtain ⟨after, through⟩ := b
    cases after with
    | zero =>
      unfold io
      rw [hp]
    | succ n =>
      refine absurd (fun b hb => ?_) h
      rw [hp] at hb
      cases hb
      exact Nat.succ_le_succ (Nat.zero_le n)

theorem readByte_nil {s : Net} (h : Lasts s.pending 1) (hnil : s.supply = []) :
    readByte s = .ok none { s with pending := spend s.pending 1 } := by
  unfold readByte
  rw [bind_ok (io_lasts h), bind_get, hnil]
  rfl

theorem readByte_cons {s : Net} {c : Chunk} {rest : List Chunk} (h : Lasts s.pending 1)
    (hcons : s.supply = c :: rest) : readByte s =
      .ok (some c.head) { s with pending := spend s.pending 1, supply := restOf c rest } := by
  unfold readByte
  rw [bind_ok (io_lasts h), bind_get, hcons]
  rfl

theorem readByte_breaks {s : Net} (h : ¬Lasts s.pending 1) :
    readByte s = .error .ioException s := by
  unfold readByte
  exact bind_error (io_breaks h) _

/-- The value the reader of bytes returns. -/
def byteCount (n : Nat) : Int := if 0 < n then n else -1

/-- Some bytes of the stream have been put into the buffer from a position on. -/
structure TakesBytes (s : Net) (k m ops : Nat) (s' : Net) : Prop where
  pending : s'.pending = spend s.pending ops
  supply : contents s'.supply = (contents s.supply).drop m
  sent : s'.sent = s.sent
  buffer : s'.byteBuffer.1 = splice s.byteBuffer.1 k ((contents s.supply).take m)

/-- The bytes that one call takes from the position on, and its operations. -/
def taken (k left : Nat) : Nat := min (byteBufferSize - k) left

theorem taken_succ {k left : Nat} (hk : k < byteBufferSize) :
    taken k (left + 1) = taken (k + 1) left + 1 := by
  unfold taken
  omega

theorem splice_set {α : Type} (dst : List α) {k : Nat} (hk : k < dst.length) (v : α)
    (seg : List α) :
    splice (dst.set k v) (k + 1) seg = splice dst k (v :: seg) := by
  have hone : dst.set k v = splice dst k [v] := by
    rw [List.set_eq_take_append_cons_drop, if_pos hk, splice, List.append_assoc]
    rfl
  rw [hone]
  exact splice_splice dst k (s := [v]) hk

/-- Where no exception comes before its end, the loop takes its bytes, or it is still running. -/
theorem bufferedReadByByteFrom_lasts {s : Net} {k : Nat} (hk : k ≤ byteBufferSize) (fuel : Nat)
    (h : Lasts s.pending (taken k ((contents s.supply).length + 1))) :
    (taken k (contents s.supply).length < fuel → ∃ s',
      bufferedReadByByteFrom k fuel s =
        .ok (byteCount (k + taken k (contents s.supply).length)) s' ∧
      TakesBytes s k (taken k (contents s.supply).length)
        (taken k ((contents s.supply).length + 1)) s') ∧
    (fuel ≤ taken k (contents s.supply).length → ∃ s',
      bufferedReadByByteFrom k fuel s = .error .running s') := by
  induction fuel generalizing s k with
  | zero => exact ⟨fun hlt => absurd hlt (Nat.not_lt_zero _), fun _ => ⟨s, rfl⟩⟩
  | succ fuel ih =>
    rcases Nat.lt_or_ge k byteBufferSize with hlt | hge
    · cases hsupply : s.supply with
      | nil =>
        have hops : taken k ((contents []).length + 1) = 1 := by
          simp only [taken, contents_nil, List.length_nil]
          omega
        have hnone : taken k (contents []).length = 0 := by
          simp [taken]
        rw [hsupply, hops] at h
        rw [hops, hnone]
        refine ⟨fun _ => ⟨{ s with pending := spend s.pending 1 }, ?_, ⟨rfl, ?_, rfl, ?_⟩⟩,
          fun hle => absurd hle (Nat.not_succ_le_zero _)⟩
        · rw [bufferedReadByByteFrom, if_pos hlt, bind_ok (readByte_nil h hsupply)]
          rfl
        · rw [List.drop_zero]
        · rw [List.take_zero, splice_nil]
      | cons c rest =>
        have hlength : (contents (c :: rest)).length = (contents (restOf c rest)).length + 1 := by
          rw [contents_restOf, List.length_cons]
        let s₁ : Net := { s with
          pending := spend s.pending 1, supply := restOf c rest,
          byteBuffer := s.byteBuffer.set k c.head }
        rw [hsupply] at h
        rw [hlength, taken_succ hlt] at h ⊢
        rw [taken_succ hlt]
        have hone : Lasts s.pending 1 := h.mono (Nat.le_add_left 1 _)
        have hturn : bufferedReadByByteFrom k (fuel + 1) s =
            bufferedReadByByteFrom (k + 1) fuel s₁ := by
          rw [bufferedReadByByteFrom, if_pos hlt, bind_ok (readByte_cons hone hsupply)]
          rfl
        have hnext := ih (s := s₁) (k := k + 1) hlt ((lasts_spend hone).mpr (by
          rwa [Nat.add_comm 1]))
        rw [hturn]
        refine ⟨fun hless => ?_, fun hle => hnext.2 (Nat.le_of_succ_le_succ hle)⟩
        obtain ⟨s', hreturns, htakes⟩ := hnext.1 (Nat.lt_of_succ_lt_succ hless)
        refine ⟨s', ?_, ⟨?_, ?_, htakes.sent, ?_⟩⟩
        · rw [hreturns]
          congr 2
          show k + 1 + taken (k + 1) (contents (restOf c rest)).length = _
          omega
        · rw [htakes.pending]
          show spend (spend s.pending 1) _ = _
          rw [spend_spend, Nat.add_comm 1]
        · rw [htakes.supply, hsupply, contents_restOf]
          rfl
        · rw [htakes.buffer, hsupply, contents_restOf, List.take_succ_cons]
          exact splice_set _ (by rw [s.byteBuffer.2]; exact hlt) _ _
    · have hops : ∀ n, taken k n = 0 := by
        intro n
        unfold taken
        omega
      rw [hops, hops]
      refine ⟨fun _ => ⟨s, ?_, ⟨?_, rfl, rfl, ?_⟩⟩, fun hle => absurd hle (Nat.not_succ_le_zero _)⟩
      · have hpos : 0 < k := Nat.lt_of_lt_of_le (by decide) hge
        rw [bufferedReadByByteFrom, if_neg (by omega), Nat.add_zero, byteCount, if_pos hpos]
        rfl
      · rw [spend_zero]
      · rw [List.take_zero, splice_nil]

/-- An exception inside the loop ends it before anything is written. -/
theorem bufferedReadByByteFrom_breaks {s : Net} {k : Nat} (fuel : Nat)
    (h : ¬Lasts s.pending (taken k ((contents s.supply).length + 1))) :
    ∃ e s', bufferedReadByByteFrom k fuel s = .error e s' ∧ s'.sent = s.sent ∧
      (taken k (contents s.supply).length < fuel → e = .ioException) := by
  induction fuel generalizing s k with
  | zero => exact ⟨.running, s, rfl, rfl, fun hlt => absurd hlt (Nat.not_lt_zero _)⟩
  | succ fuel ih =>
    have hlt : k < byteBufferSize := by
      by_contra hge
      refine h ?_
      have hzero : taken k ((contents s.supply).length + 1) = 0 := by
        unfold taken
        omega
      rw [hzero]
      exact lasts_zero _
    by_cases hone : Lasts s.pending 1
    · cases hsupply : s.supply with
      | nil =>
        refine absurd (hone.mono ?_) h
        rw [hsupply]
        simp only [taken, contents_nil, List.length_nil]
        omega
      | cons c rest =>
        have hlength : (contents (c :: rest)).length = (contents (restOf c rest)).length + 1 := by
          rw [contents_restOf, List.length_cons]
        rw [hsupply, hlength, taken_succ hlt, Nat.add_comm, ← lasts_spend hone] at h
        obtain ⟨e, s', hbreaks, hsent, he⟩ := ih (s := { s with
          pending := spend s.pending 1, supply := restOf c rest,
          byteBuffer := s.byteBuffer.set k c.head }) (k := k + 1) h
        refine ⟨e, s', ?_, hsent, fun hless => he ?_⟩
        · rw [bufferedReadByByteFrom, if_pos hlt, bind_ok (readByte_cons hone hsupply)]
          exact hbreaks
        · rw [hlength, taken_succ hlt] at hless
          exact Nat.lt_of_succ_lt_succ hless
    · refine ⟨.ioException, s, ?_, rfl, fun _ => rfl⟩
      rw [bufferedReadByByteFrom, if_pos hlt]
      exact bind_error (readByte_breaks hone) _

end Bytes

end Rhodes.StreamReads
