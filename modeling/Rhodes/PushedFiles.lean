import Rhodes.TransferRules

/-!
What a pushed file puts between the prefix and the postfix. A read that does not fill the buffer
is overwritten by the next one; what a failed attempt has read is not read again. So all contents
arrive exactly where neither happens.
-/
namespace Rhodes.PushedFiles

open Arrays NetRequest Outcomes StreamReads TransferRules

/-- The same file sizes, split in the same way. -/
def SameReads (cs ds : List Chunk) : Prop :=
  cs.map (fun c => c.bytes.length) = ds.map (fun c => c.bytes.length)

/-- Every read but the last one fills the buffer. -/
def FullReads (cs : List Chunk) : Prop := ∀ c ∈ cs.dropLast, c.bytes.length = byteBufferSize

/-- The operations of an attempt before the file is read. -/
def firstRead : Nat := 2

theorem fill_full_reads {c : Chunk} {rest : List Chunk} (h : FullReads (c :: rest)) :
    fill 0 (c :: rest) = ([c], rest) := by
  rw [fill, if_pos (by decide)]
  cases rest with
  | nil => rfl
  | cons d rest =>
    have hfull : c.bytes.length = byteBufferSize := h c (by simp)
    rw [fill, if_neg (by omega)]

theorem FullReads.tail {c : Chunk} {rest : List Chunk} (h : FullReads (c :: rest)) :
    FullReads rest := by
  intro d hd
  refine h d ?_
  cases rest with
  | nil => cases hd
  | cons e rest => exact List.mem_cons_of_mem c hd

theorem take_load (b : ByteBuffer) (c : Chunk) :
    (b.load c).1.take c.bytes.length = c.bytes := List.take_left' rfl

section Loop

variable {s s₁ : Net} {fuel : Nat}

theorem pushLoop_next {n : Nat} (hread : bufferedRead fuel s = .ok n s₁) :
    pushLoop (fuel + 1) s =
      if 0 < n then (writeBuffer n >>= fun _ => pushLoop fuel) s₁ else .ok () s₁ := by
  rw [pushLoop, bind_ok hread]
  by_cases hn : 0 < n
  · rw [if_pos hn, if_pos (by exact_mod_cast hn)]
  · rw [if_neg hn, if_neg (by exact_mod_cast hn)]
    rfl

/-- The state after a turn that has written the bytes of one fill. -/
def turned (s : Net) : Net :=
  { loaded s (fill 0 s.supply).1 (fill 0 s.supply).2 with
    sent := s.sent ++ ((fill 0 s.supply).1.foldl ByteBuffer.load s.byteBuffer).1.take
      (contents (fill 0 s.supply).1).length }

theorem pushLoop_turn (h : Quiet s) (hread : bufferedRead fuel s =
      .ok (contents (fill 0 s.supply).1).length
        (loaded s (fill 0 s.supply).1 (fill 0 s.supply).2))
    (hpos : s.supply ≠ []) (hfits : (contents (fill 0 s.supply).1).length ≤ byteBufferSize) :
    pushLoop (fuel + 1) s = pushLoop fuel (turned s) := by
  have hused : 0 < (contents (fill 0 s.supply).1).length := by
    cases hsupply : s.supply with
    | nil => exact absurd hsupply hpos
    | cons c rest =>
      have hone := bytes_pos c
      rw [fill, if_pos (by decide), contents_cons, List.length_append]
      omega
  have hquiet : Quiet (loaded s (fill 0 s.supply).1 (fill 0 s.supply).2) := h
  rw [pushLoop_next hread, if_pos hused, bind_ok (writeBuffer_quiet hquiet hfits)]
  rfl

/-- A loop that returns has nothing to read, or has made a turn and returned from there. -/
theorem pushLoop_returns {s' : Net} (h : Quiet s) (hrun : pushLoop fuel s = .ok () s') :
    (s.supply = [] ∧ s'.sent = s.sent) ∨
    (s.supply ≠ [] ∧ (contents (fill 0 s.supply).1).length ≤ byteBufferSize ∧
      ∃ left < fuel, pushLoop left (turned s) = .ok () s') := by
  cases fuel with
  | zero => cases hrun
  | succ fuel =>
    rcases bufferedRead_cases h fuel with hread | ⟨s₁, hread⟩
    · by_cases hpos : s.supply = []
      · refine .inl ⟨hpos, ?_⟩
        rw [pushLoop_next hread, hpos] at hrun
        cases hrun
        rfl
      · refine .inr ⟨hpos, ?_⟩
        rcases Nat.lt_or_ge byteBufferSize (contents (fill 0 s.supply).1).length with hgt | hle
        · rw [pushLoop_next hread, if_pos (Nat.lt_of_le_of_lt (Nat.zero_le _) hgt),
            bind_error (writeBuffer_over hgt)] at hrun
          cases hrun
        · rw [pushLoop_turn h hread hpos hle] at hrun
          exact ⟨hle, fuel, Nat.lt_succ_self fuel, hrun⟩
    · rw [pushLoop, bind_error hread] at hrun
      cases hrun

theorem length_turned (hfits : (contents (fill 0 s.supply).1).length ≤ byteBufferSize) :
    (turned s).sent.length + (contents (turned s).supply).length =
      s.sent.length + (contents s.supply).length := by
  have hall := congrArg List.length (contents_fill s.supply 0)
  have hbuffer := ((fill 0 s.supply).1.foldl ByteBuffer.load s.byteBuffer).2
  show (s.sent ++ _).length + (contents (fill 0 s.supply).2).length = _
  rw [List.length_append] at hall ⊢
  rw [List.length_take, hbuffer]
  omega

/-- As many bytes are sent as the stream still delivers. -/
theorem pushLoop_length {s' : Net} (h : Quiet s) (hrun : pushLoop fuel s = .ok () s') :
    s'.sent.length = s.sent.length + (contents s.supply).length := by
  induction fuel using Nat.strongRecOn generalizing s with
  | ind fuel ih =>
    rcases pushLoop_returns h hrun with ⟨hnil, hsent⟩ | ⟨-, hfits, left, hlt, hrest⟩
    · rw [hsent, hnil]
      rfl
    · rw [ih left hlt (s := turned s) h hrest]
      exact length_turned hfits

/-- Full reads are sent as they are. -/
theorem pushLoop_full {cs : List Chunk} (hfull : FullReads cs) (h : Quiet s)
    (hsupply : s.supply = cs) (hfuel : cs.length + 1 < fuel) :
    ∃ s', pushLoop fuel s = .ok () s' ∧ Quiet s' ∧ s'.sent = s.sent ++ contents cs := by
  induction cs generalizing s fuel with
  | nil =>
    cases fuel with
    | zero => exact absurd hfuel (Nat.not_lt_zero _)
    | succ fuel =>
      have hread := bufferedRead_eq h (by
        rw [hsupply]
        exact Nat.lt_of_succ_lt_succ hfuel)
      refine ⟨loaded s (fill 0 s.supply).1 (fill 0 s.supply).2, ?_, h, ?_⟩
      · rw [pushLoop_next hread, hsupply]
        rfl
      · rw [contents_nil, List.append_nil]
        rfl
  | cons c rest ih =>
    cases fuel with
    | zero => exact absurd hfuel (Nat.not_lt_zero _)
    | succ fuel =>
      have hfill : fill 0 s.supply = ([c], rest) := by rw [hsupply, fill_full_reads hfull]
      have hcontents : contents [c] = c.bytes := by simp
      have hread := bufferedRead_eq h (by
        rw [hsupply]
        exact Nat.lt_of_succ_lt_succ hfuel)
      have hfits : (contents (fill 0 s.supply).1).length ≤ byteBufferSize := by
        rw [hfill, hcontents]
        exact bytes_le c
      have hturned : (turned s).sent = s.sent ++ c.bytes := by
        show s.sent ++ _ = _
        rw [hfill, hcontents]
        show s.sent ++ (s.byteBuffer.load c).1.take _ = _
        rw [take_load]
      obtain ⟨s', hrun, hquiet, hsent⟩ := ih hfull.tail (s := turned s) h (by
        show (fill 0 s.supply).2 = rest
        rw [hfill]) (Nat.lt_of_succ_lt_succ hfuel)
      refine ⟨s', ?_, hquiet, ?_⟩
      · rw [pushLoop_turn h hread (by rw [hsupply]; exact List.cons_ne_nil _ _) hfits]
        exact hrun
      · rw [hsent, hturned, contents_cons, List.append_assoc]

end Loop

section Overwriting

/-- A read of the same size with one byte all over. -/
def uniform (v : UInt8) (c : Chunk) : Chunk :=
  ⟨v, List.replicate c.tail.length v, by rw [List.length_replicate]; exact c.fits⟩

theorem length_uniform (v : UInt8) (c : Chunk) :
    (uniform v c).bytes.length = c.bytes.length := by
  simp [uniform, Chunk.bytes]

theorem sameReads_uniform (v : UInt8) (cs : List Chunk) : SameReads cs (cs.map (uniform v)) := by
  unfold SameReads
  rw [List.map_map]
  exact List.map_congr_left (fun c _ => (length_uniform v c).symm)

/-- The buffer starts with the last read that was loaded. -/
theorem head_loads {v : UInt8} {used : List Chunk} (hne : used ≠ [])
    (hall : ∀ c ∈ used, c.head = v) (b : ByteBuffer) :
    (used.foldl ByteBuffer.load b).1[0]? = some v := by
  induction used generalizing b with
  | nil => exact absurd rfl hne
  | cons c rest ih =>
    rw [List.foldl_cons]
    by_cases hrest : rest = []
    · subst hrest
      exact congrArg some (hall c (by simp))
    · exact ih hrest (fun d hd => hall d (List.mem_cons_of_mem c hd)) _

/-- The loop does not send the contents of the reads. -/
def Loses (ds : List Chunk) : Prop := ∀ fuel s s', Quiet s → s.supply = ds →
  pushLoop fuel s = .ok () s' → s'.sent ≠ s.sent ++ contents ds

/-- A short read is overwritten by a later one that starts with another byte. -/
theorem loses_first {v w : UInt8} {c : Chunk} {rest : List Chunk} (hvw : v ≠ w)
    (hshort : c.bytes.length < byteBufferSize) (hrest : rest ≠ []) (hc : c.head = v)
    (hall : ∀ e ∈ rest, e.head = w) : Loses (c :: rest) := by
  intro fuel s s' hs hsupply hrun heq
  rcases pushLoop_returns hs hrun with ⟨hnil, -⟩ | ⟨-, -, left, -, hleft⟩
  · rw [hsupply] at hnil
    cases hnil
  have hused : (fill 0 s.supply).1 = c :: (fill c.bytes.length rest).1 := by
    rw [hsupply, fill, if_pos (by decide), Nat.zero_add]
  have hlater : (fill c.bytes.length rest).1 ≠ [] := by
    obtain ⟨d, ds, rfl⟩ := List.exists_cons_of_ne_nil hrest
    rw [fill, if_pos hshort]
    exact List.cons_ne_nil _ _
  have hheads : ∀ e ∈ (fill c.bytes.length rest).1, e.head = w := by
    intro e he
    refine hall e ?_
    rw [← fill_append rest c.bytes.length]
    exact List.mem_append_left _ he
  have hbuffer : ((fill 0 s.supply).1.foldl ByteBuffer.load s.byteBuffer).1[0]? = some w := by
    rw [hused, List.foldl_cons]
    exact head_loads hlater hheads _
  have hsent : (turned s).sent[s.sent.length]? = some w := by
    show (s.sent ++ List.take _ _)[s.sent.length]? = some w
    rw [List.getElem?_append_right (Nat.le_refl _), Nat.sub_self, List.getElem?_take_of_lt,
      hbuffer]
    rw [hused, contents_cons, List.length_append]
    have hpos := bytes_pos c
    omega
  obtain ⟨more, hmore⟩ := (flows_rule.pushLoop left (turned s)).2
  rw [hleft, final_ok] at hmore
  have hlength : s.sent.length < (turned s).sent.length := by
    by_contra hge
    rw [List.getElem?_eq_none (Nat.le_of_not_lt hge)] at hsent
    cases hsent
  have hat : s'.sent[s.sent.length]? = some w := by
    rw [← hmore, List.getElem?_append_left hlength, hsent]
  have hfirst : (contents (c :: rest))[0]? = some v := congrArg some hc
  rw [heq, List.getElem?_append_right (Nat.le_refl _), Nat.sub_self, hfirst] at hat
  exact hvw (Option.some.inj hat)

/-- A full read in front changes nothing about that. -/
theorem Loses.cons {c : Chunk} {ds : List Chunk} (h : Loses ds)
    (hfull : c.bytes.length = byteBufferSize) : Loses (c :: ds) := by
  intro fuel s s' hs hsupply hrun heq
  have hfill : fill 0 s.supply = ([c], ds) := by
    rw [hsupply, fill, if_pos (by decide), Nat.zero_add, hfull]
    cases ds with
    | nil => rfl
    | cons d ds => rw [fill, if_neg (Nat.lt_irrefl _)]
  rcases pushLoop_returns hs hrun with ⟨hnil, -⟩ | ⟨-, -, left, -, hleft⟩
  · rw [hsupply] at hnil
    cases hnil
  refine h left (turned s) s' hs ?_ hleft ?_
  · show (fill 0 s.supply).2 = ds
    rw [hfill]
  · rw [heq, contents_cons, ← List.append_assoc]
    congr 1
    show _ = s.sent ++ _
    rw [hfill, contents_cons, contents_nil, List.append_nil]
    exact congrArg (s.sent ++ ·) (take_load _ c).symm

/-- Some contents of the file do not survive reads that leave room in the buffer. -/
theorem loses_of_short {cs : List Chunk} (h : ¬FullReads cs) :
    ∃ ds, SameReads cs ds ∧ Loses ds := by
  induction cs with
  | nil => exact absurd (fun c hc => by cases hc) h
  | cons c rest ih =>
    have hrest : rest ≠ [] := by
      rintro rfl
      exact h (fun d hd => by cases hd)
    by_cases hfull : c.bytes.length = byteBufferSize
    · obtain ⟨ds, hsame, hloses⟩ := ih (fun hrestFull => h (fun d hd => by
        rw [List.dropLast_cons_of_ne_nil hrest] at hd
        rcases List.mem_cons.mp hd with rfl | hd
        · exact hfull
        · exact hrestFull d hd))
      refine ⟨c :: ds, ?_, hloses.cons hfull⟩
      rw [SameReads, List.map_cons, List.map_cons, hsame]
    · refine ⟨uniform 1 c :: rest.map (uniform 0), ?_, ?_⟩
      · have hzeros := sameReads_uniform 0 rest
        rw [SameReads] at hzeros ⊢
        rw [List.map_cons, List.map_cons, length_uniform, hzeros]
      · refine loses_first (v := 1) (w := 0) (by decide) ?_ ?_ rfl (fun e he => ?_)
        · rw [length_uniform]
          exact Nat.lt_of_le_of_ne (bytes_le c) hfull
        · exact fun hnil => hrest (List.map_eq_nil_iff.mp hnil)
        · obtain ⟨e', -, rfl⟩ := List.mem_map.mp he
          rfl

end Overwriting

section Attempt

variable {readFully : List UInt8 → String} {fuel : Nat} {t : Attempt} {s s' : Net}
  {r : NetResponse}

/-- Nothing comes back into the stream. -/
def Shrinks (s s' : Net) : Prop := contents s'.supply <:+ contents s.supply

instance : Std.Refl Shrinks := ⟨fun _ => List.suffix_rfl⟩

instance : IsTrans Net Shrinks := ⟨fun _ _ _ h h' => h'.trans h⟩

theorem shrinks_of_flows {α : Type} {p : M α} (h : Moves Flows p) : Moves Shrinks p :=
  h.mono (fun _ _ hflows => hflows.1)

/-- What an attempt does once the file is read. -/
def finish (readFully : List UInt8 → String) (t : Attempt) : M NetResponse :=
  write multipartPostfix >>= fun _ => answer readFully t

theorem shrinks_finish : Moves Shrinks (finish readFully t) :=
  (shrinks_of_flows (flows_write _)).bind (fun _ =>
    (shrinks_of_flows flows_lastIo).bind (fun _ => Moves.pure _))

theorem shrinks_pushFile1 : Moves Shrinks (pushFile1 readFully fuel t) := by
  refine Moves.bind ?_ (fun _ => Moves.bind ?_ (fun _ => Moves.bind ?_ (fun _ =>
    Moves.bind ?_ (fun _ => shrinks_finish))))
  · exact Moves.bind (Moves.modify (fun _ => List.suffix_rfl)) (fun _ => shrinks_of_flows flows_io)
  · exact Moves.modify (fun _ => List.suffix_rfl)
  · exact shrinks_of_flows (flows_write _)
  · exact shrinks_of_flows (flows_rule.pushLoop fuel)

theorem connect_quiet (h : t.fault = none) :
    connect t s = .ok () { s with pending := none } := by
  show io { s with pending := t.fault } = _
  rw [h]
  rfl

/-- An attempt without an exception sends the prefix and reads the file. -/
theorem pushFile1_quiet (h : t.fault = none) :
    pushFile1 readFully fuel t s = (pushLoop fuel >>= fun _ => finish readFully t)
      { s with pending := none, sent := multipartPrefix } := by
  unfold pushFile1
  rw [bind_ok (connect_quiet h)]
  rfl

theorem finish_quiet (h : Quiet s) : ∃ r, finish readFully t s =
    .ok r { s with sent := s.sent ++ multipartPostfix } := by
  have hquiet : Quiet { s with sent := s.sent ++ multipartPostfix } := h
  rw [finish, bind_ok (write_quiet h _), answer, bind_ok (lastIo_quiet hquiet)]
  exact ⟨_, rfl⟩

/-- An attempt that returns has met no exception. -/
theorem pushFile1_ok (h : pushFile1 readFully fuel t s = .ok r s') : t.fault = none := by
  by_contra hfault
  obtain ⟨_, s₁, hconnect, h⟩ := bind_eq_ok h
  obtain ⟨_, s₂, hmodify, h⟩ := bind_eq_ok h
  obtain ⟨_, s₃, hprefix, h⟩ := bind_eq_ok h
  obtain ⟨_, s₄, hloop, h⟩ := bind_eq_ok h
  obtain ⟨_, s₅, hpostfix, h⟩ := bind_eq_ok h
  obtain ⟨_, s₆, hlast, -⟩ := bind_eq_ok h
  have hdue₁ : s₁.pending ≠ none :=
    honest_io.due (s := { s with pending := t.fault }) hfault hconnect
  have hdue₂ : s₂.pending ≠ none := by
    cases hmodify
    exact hdue₁
  have hdue₃ := (honest_write _).due hdue₂ hprefix
  have hdue₅ := (honest_write _).due ((honest_rule.pushLoop fuel).due hdue₃ hloop) hpostfix
  unfold lastIo at hlast
  split at hlast
  · rename_i hnone
    exact hdue₅ hnone
  · cases hlast

/-- What a successful attempt has sent, as the loop has left it. -/
theorem pushFile1_sent (h : pushFile1 readFully fuel t s = .ok r s') :
    ∃ s₁, pushLoop fuel { s with pending := none, sent := multipartPrefix } = .ok () s₁ ∧
      s'.sent = s₁.sent ++ multipartPostfix := by
  rw [pushFile1_quiet (pushFile1_ok h)] at h
  obtain ⟨_, s₁, hloop, hfinish⟩ := bind_eq_ok h
  obtain ⟨r', hr'⟩ := finish_quiet (t := t)
    ((honest_rule.pushLoop fuel).quiet (s := { s with
      pending := none, sent := multipartPrefix }) rfl hloop)
  rw [hr'] at hfinish
  cases hfinish
  exact ⟨s₁, hloop, rfl⟩

/-- Full reads arrive as they are. -/
theorem pushFile1_full (h : t.fault = none) (hfull : FullReads s.supply)
    (hfuel : s.supply.length + 1 < fuel) :
    ∃ r s', pushFile1 readFully fuel t s = .ok r s' ∧
      s'.sent = multipartPrefix ++ contents s.supply ++ multipartPostfix := by
  obtain ⟨s₁, hloop, hquiet, hsent⟩ := pushLoop_full hfull
    (s := { s with pending := none, sent := multipartPrefix }) rfl rfl hfuel
  obtain ⟨r, hr⟩ := finish_quiet (t := t) hquiet
  refine ⟨r, { s₁ with sent := s₁.sent ++ multipartPostfix }, ?_, ?_⟩
  · rw [pushFile1_quiet h, bind_ok hloop, hr]
  · rw [hsent]

/-- An exception behind the prefix is still due when the file is read. -/
theorem pushFile1_due {n through : Nat} (h : t.fault = some ⟨n + 2, through⟩) :
    pushFile1 readFully fuel t s = (pushLoop fuel >>= fun _ => finish readFully t)
      { s with pending := some ⟨n, through⟩, sent := [] ++ multipartPrefix } := by
  have hconnect : connect t s = .ok () { s with pending := some ⟨n + 1, through⟩ } := by
    show io { s with pending := t.fault } = _
    rw [h]
    rfl
  unfold pushFile1
  rw [bind_ok hconnect]
  rfl

/-- An exception before the first read leaves the stream of the file at its start. -/
theorem pushFile1_before {b : Break} (h : t.fault = some b) (hb : b.after ≤ firstRead) :
    ∃ e s', pushFile1 readFully fuel t s = .error e s' ∧ s'.supply = s.supply ∧
      (1 < fuel → e = .ioException) := by
  obtain ⟨after, through⟩ := b
  have hcases : after = 0 ∨ after = 1 ∨ after = 2 := by
    have hb' : after ≤ 2 := hb
    omega
  rcases hcases with rfl | rfl | rfl
  · refine ⟨.ioException, { s with pending := t.fault }, bind_error ?_ _, rfl, fun _ => rfl⟩
    show io { s with pending := t.fault } = _
    rw [h]
    rfl
  · refine ⟨.ioException, { s with
      pending := some ⟨0, through⟩, sent := [] ++ multipartPrefix.take through }, ?_, rfl,
      fun _ => rfl⟩
    have hconnect : connect t s = .ok () { s with pending := some ⟨0, through⟩ } := by
      show io { s with pending := t.fault } = _
      rw [h]
      rfl
    unfold pushFile1
    rw [bind_ok hconnect]
    rfl
  · rw [pushFile1_due h]
    rcases fuel with _ | _ | fuel
    · exact ⟨.running, _, rfl, rfl, fun hlt => absurd hlt (by omega)⟩
    · exact ⟨.running, _, rfl, rfl, fun hlt => absurd hlt (by omega)⟩
    · exact ⟨.ioException, _, rfl, rfl, fun _ => rfl⟩

/-- Nothing is read of an empty file. -/
theorem pushFile1_empty {b : Break} (h : t.fault = some b) (hnil : s.supply = [])
    (hfuel : 1 < fuel) :
    ∃ s', pushFile1 readFully fuel t s = .error .ioException s' ∧ s'.supply = [] := by
  rcases Nat.lt_or_ge firstRead b.after with hlt | hge
  · obtain ⟨after, through⟩ := b
    obtain ⟨n, rfl⟩ : ∃ n, after = n + 3 := ⟨after - 3, by
      have hlt' : 2 < after := hlt
      omega⟩
    obtain ⟨fuel, rfl⟩ : ∃ left, fuel = left + 2 := ⟨fuel - 2, by omega⟩
    have hloop : pushLoop (fuel + 2)
        { s with pending := some ⟨n + 1, through⟩, sent := [] ++ multipartPrefix } =
        .ok () { s with pending := some ⟨n, through⟩, sent := [] ++ multipartPrefix } := by
      obtain ⟨pending, supply, byteBuffer, sent⟩ := s
      cases hnil
      rfl
    rw [pushFile1_due h, bind_ok hloop]
    cases n with
    | zero => exact ⟨_, rfl, hnil⟩
    | succ n => exact ⟨_, rfl, hnil⟩
  · obtain ⟨e, s', hrun, hsupply, he⟩ := pushFile1_before (s := s) h hge
    rw [he hfuel] at hrun
    exact ⟨s', hrun, hsupply.trans hnil⟩

/-- A loop whose first read succeeds has taken it, whatever happens then. -/
theorem pushLoop_reads {n through : Nat} {c : Chunk} {rest : List Chunk}
    (hp : s.pending = some ⟨n + 1, through⟩) (hsupply : s.supply = c :: rest) :
    (∃ s', pushLoop fuel s = .error .running s') ∨
    contents (final (pushLoop fuel s)).supply <:+ contents rest := by
  rcases fuel with _ | _ | fuel
  · exact .inl ⟨s, rfl⟩
  · exact .inl ⟨s, rfl⟩
  · let s₁ : Net :=
      { s with pending := some ⟨n, through⟩, supply := rest, byteBuffer := s.byteBuffer.load c }
    let next : Int → M Unit := fun nRead =>
      if 0 < nRead then writeBuffer nRead >>= fun _ => pushLoop (fuel + 1) else pure ()
    have hread : readBlock s = .ok c.bytes.length s₁ := by
      obtain ⟨pending, supply, byteBuffer, sent⟩ := s
      cases hp
      cases hsupply
      rfl
    have hturn : bufferedRead (fuel + 1) s = bufferedReadFrom (0 + c.bytes.length) fuel s₁ := by
      rw [bufferedRead, bufferedReadFrom, if_pos (by decide), bind_ok hread, if_neg (by omega)]
    have hloop : pushLoop (fuel + 2) s =
        (bufferedReadFrom (0 + c.bytes.length) fuel >>= next) s₁ := by
      show EStateM.bind (bufferedRead (fuel + 1)) next s = EStateM.bind _ next s₁
      unfold EStateM.bind
      rw [hturn]
    have hnext : ∀ nRead, Moves Flows (next nRead) := by
      intro nRead
      refine Moves.ite (fun _ => ?_) (fun _ => Moves.pure _)
      exact (flows_rule.writeBuffer nRead).bind (fun _ => flows_rule.pushLoop _)
    rw [hloop]
    exact .inr ((flows_rule.bufferedReadFrom _ fuel).bind hnext s₁).1

/-- What a failed attempt has read does not come back. -/
theorem pushFile1_reads {b : Break} {c : Chunk} {rest : List Chunk} (h : t.fault = some b)
    (hb : firstRead < b.after) (hsupply : s.supply = c :: rest)
    (hrun : pushFile1 readFully fuel t s = .error .ioException s') :
    (contents s'.supply).length < (contents s.supply).length := by
  obtain ⟨after, through⟩ := b
  obtain ⟨n, rfl⟩ : ∃ n, after = n + 3 := ⟨after - 3, by
    have hb' : 2 < after := hb
    omega⟩
  have hpos := bytes_pos c
  rw [pushFile1_due h] at hrun
  have hshort : contents s'.supply <:+ contents rest := by
    rcases pushLoop_reads (n := n)
      (s := { s with pending := some ⟨n + 1, through⟩, sent := [] ++ multipartPrefix }) rfl hsupply
      with ⟨s₁, hrunning⟩ | hshort
    · rw [bind_error hrunning] at hrun
      cases hrun
    · cases hloop : pushLoop fuel
          { s with pending := some ⟨n + 1, through⟩, sent := [] ++ multipartPrefix } with
      | ok a s₁ =>
        rw [hloop] at hshort
        rw [bind_ok hloop] at hrun
        have hfinish : Shrinks s₁ (final (finish readFully t s₁)) := shrinks_finish s₁
        rw [hrun] at hfinish
        exact hfinish.trans hshort
      | error e s₁ =>
        rw [hloop] at hshort
        rw [bind_error hloop] at hrun
        cases hrun
        exact hshort
  have hle := hshort.length_le
  rw [hsupply, contents_cons, List.length_append]
  omega

/-- Without an exception of its own an attempt is the last one. -/
theorem pushFile1_silent (h : t.fault = none) :
    pushFile1 readFully fuel t s ≠ .error .ioException s' := by
  intro hrun
  rw [pushFile1_quiet h] at hrun
  cases hloop : pushLoop fuel { s with pending := none, sent := multipartPrefix } with
  | ok a s₁ =>
    obtain ⟨r, hr⟩ := finish_quiet (t := t)
      ((honest_rule.pushLoop fuel).quiet (s := { s with
        pending := none, sent := multipartPrefix }) rfl hloop)
    rw [bind_ok hloop, hr] at hrun
    cases hrun
  | error e s₁ =>
    rw [bind_error hloop] at hrun
    cases hrun
    exact (honest_rule.pushLoop fuel).silent (s := { s with
      pending := none, sent := multipartPrefix }) rfl hloop

end Attempt

section Push

variable (readFully : List UInt8 → String) (byteBuffer : ByteBuffer)

/-- Where an attempt meets no exception, the file is sent between the prefix and the postfix. -/
def PushExact (chunks : List Chunk) (attempts : Nat → Attempt) : Prop :=
  ∀ j, Succeeds attempts j → ∃ fuel r s,
    pushFile readFully fuel attempts ⟨none, chunks, byteBuffer, []⟩ = .ok r s ∧
      s.sent = multipartPrefix ++ contents chunks ++ multipartPostfix

variable {readFully byteBuffer} {chunks ds : List Chunk} {attempts : Nat → Attempt}

theorem SameReads.full (h : SameReads chunks ds) (hfull : FullReads chunks) : FullReads ds := by
  intro d hd
  have hmem : d.bytes.length ∈ (chunks.map (fun c => c.bytes.length)).dropLast := by
    rw [h, ← List.map_dropLast]
    exact List.mem_map_of_mem hd
  rw [← List.map_dropLast] at hmem
  obtain ⟨c, hc, hlength⟩ := List.mem_map.mp hmem
  rw [← hlength, hfull c hc]

/-- Full reads of a file that no failed attempt has read from arrive as they are. -/
theorem push_full {j : Nat} (hj : Succeeds attempts j) (hfull : FullReads chunks)
    (hbefore : ∀ i < j, ∀ b, (attempts i).fault = some b → b.after ≤ firstRead) :
    ∃ fuel r s, pushFile readFully fuel attempts ⟨none, chunks, byteBuffer, []⟩ = .ok r s ∧
      s.sent = multipartPrefix ++ contents chunks ++ multipartPostfix := by
  obtain ⟨hlt, hnone, hsome⟩ := hj
  obtain ⟨r, s, hrun, hsent⟩ := @retry_returns NetResponse
    (pushFile1 readFully (chunks.length + 2)) attempts (fun s => s.supply = chunks)
    (fun _ s => s.sent = multipartPrefix ++ contents chunks ++ multipartPostfix) j
    (by
      intro i hi s hs
      obtain ⟨b, hb⟩ := Option.ne_none_iff_exists'.mp (hsome i hi)
      obtain ⟨e, s', hrun, hsupply, he⟩ := @pushFile1_before readFully (chunks.length + 2)
        (attempts i) s b hb (hbefore i hi b hb)
      rw [he (by omega)] at hrun
      exact ⟨s', hrun, hsupply.trans hs⟩)
    (by
      intro s hs
      obtain ⟨r, s', hrun, hsent⟩ := @pushFile1_full readFully (chunks.length + 2)
        (attempts j) s hnone (hs ▸ hfull) (by rw [hs]; omega)
      exact ⟨r, s', hrun, hs ▸ hsent⟩)
    (maxNetRequestRetry - 1) 0 ⟨none, chunks, byteBuffer, []⟩ (Nat.zero_le j)
    (by unfold maxNetRequestRetry at *; omega) rfl
  exact ⟨chunks.length + 2, r, s, hrun, hsent⟩

/-- Nothing is lost of an empty file. -/
theorem push_empty : PushExact readFully byteBuffer [] attempts := by
  intro j hj
  obtain ⟨hlt, hnone, hsome⟩ := hj
  obtain ⟨r, s, hrun, hsent⟩ := @retry_returns NetResponse (pushFile1 readFully 2) attempts
    (fun s => s.supply = []) (fun _ s => s.sent = multipartPrefix ++ [] ++ multipartPostfix) j
    (by
      intro i hi s hs
      obtain ⟨b, hb⟩ := Option.ne_none_iff_exists'.mp (hsome i hi)
      exact pushFile1_empty hb hs (Nat.lt_succ_self 1))
    (by
      intro s hs
      obtain ⟨r, s', hrun, hsent⟩ := @pushFile1_full readFully 2 (attempts j) s hnone
        (by rw [hs]; exact fun c hc => by cases hc)
        (by rw [hs]; exact Nat.lt_succ_self 1)
      exact ⟨r, s', hrun, by rw [hsent, hs]; rfl⟩)
    (maxNetRequestRetry - 1) 0 ⟨none, [], byteBuffer, []⟩ (Nat.zero_le j)
    (by unfold maxNetRequestRetry at *; omega) rfl
  exact ⟨2, r, s, hrun, hsent⟩

/-- A file of which a failed attempt has read arrives shorter than it is. -/
theorem push_shortened {i j : Nat} {b : Break} (hne : chunks ≠ []) (hj : Succeeds attempts j)
    (hi : i < j) (hb : (attempts i).fault = some b) (hafter : firstRead < b.after) {fuel : Nat}
    {r : NetResponse} {s : Net} (hrun : pushFile readFully fuel attempts
      ⟨none, chunks, byteBuffer, []⟩ = .ok r s) :
    s.sent.length < (multipartPrefix ++ contents chunks ++ multipartPostfix).length := by
  refine retry_ends
    (P := fun k s => (contents s.supply).length ≤ (contents chunks).length ∧
      (i < k → (contents s.supply).length < (contents chunks).length))
    (Q := fun _ s => s.sent.length <
      (multipartPrefix ++ contents chunks ++ multipartPostfix).length)
    (fun k s s' hs hthrow => ?_) (fun k s r s' hs hok => ?_) _ 0 _ r s ⟨Nat.le_refl _, nofun⟩ hrun
  · have hle : (contents s'.supply).length ≤ (contents s.supply).length := by
      have hshrinks : Shrinks s (final (pushFile1 readFully fuel (attempts k) s)) :=
        shrinks_pushFile1 s
      rw [hthrow] at hshrinks
      exact hshrinks.length_le
    refine ⟨Nat.le_trans hle hs.1, fun hik => ?_⟩
    rcases Nat.lt_succ_iff_lt_or_eq.mp hik with hlt | rfl
    · exact Nat.lt_of_le_of_lt hle (hs.2 hlt)
    · cases hsupply : s.supply with
      | nil =>
        have hpos := length_le_contents chunks
        have hchunks := List.length_pos_iff.mpr hne
        rw [hsupply] at hle
        have hnil : (contents []).length = 0 := rfl
        omega
      | cons c rest =>
        exact Nat.lt_of_lt_of_le (pushFile1_reads hb hafter hsupply hthrow) hs.1
  · have hnone := pushFile1_ok hok
    have hlt : i < k := by
      rcases Nat.lt_or_ge i k with hlt | hge
      · exact hlt
      · exact absurd hnone (hj.2.2 k (Nat.lt_of_le_of_lt hge hi))
    obtain ⟨s₁, hloop, hsent⟩ := pushFile1_sent hok
    have hlength := pushLoop_length (s := { s with
      pending := none, sent := multipartPrefix }) rfl hloop
    have hless := hs.2 hlt
    rw [hsent, List.length_append, hlength]
    simp only [List.length_append]
    omega

/-- Contents that the loop loses do not arrive with any attempt. -/
theorem push_loses (hlost : Loses ds) {fuel : Nat} {r : NetResponse} {s : Net}
    (hrun : pushFile readFully fuel attempts ⟨none, ds, byteBuffer, []⟩ = .ok r s) :
    s.sent ≠ multipartPrefix ++ contents ds ++ multipartPostfix := by
  refine retry_ends
    (P := fun _ s => s.supply = ds ∨ (contents s.supply).length < (contents ds).length)
    (Q := fun _ s => s.sent ≠ multipartPrefix ++ contents ds ++ multipartPostfix)
    (fun k s s' hs hthrow => ?_) (fun k s r s' hs hok => ?_) _ 0 _ r s (.inl rfl) hrun
  · have hle : (contents s'.supply).length ≤ (contents s.supply).length := by
      have hshrinks : Shrinks s (final (pushFile1 readFully fuel (attempts k) s)) :=
        shrinks_pushFile1 s
      rw [hthrow] at hshrinks
      exact hshrinks.length_le
    rcases hs with hall | hless
    · cases hfault : (attempts k).fault with
      | none => exact absurd hthrow (pushFile1_silent hfault)
      | some b =>
        rcases Nat.lt_or_ge firstRead b.after with hlt | hge
        · cases hsupply : s.supply with
          | nil =>
            left
            have hnil : contents s'.supply = [] := by
              rw [← List.length_eq_zero_iff]
              rw [hsupply] at hle
              exact Nat.le_zero.mp hle
            have hlength := length_le_contents s'.supply
            rw [hnil] at hlength
            rw [← hall, hsupply]
            exact List.length_eq_zero_iff.mp (Nat.le_zero.mp hlength)
          | cons c rest =>
            right
            rw [← hall]
            exact pushFile1_reads hfault hlt hsupply hthrow
        · obtain ⟨e, s₁, hbefore, hsupply, -⟩ := pushFile1_before
            (s := s) hfault hge
          rw [hbefore] at hthrow
          cases hthrow
          exact .inl (hsupply.trans hall)
    · exact .inr (Nat.lt_of_le_of_lt hle hless)
  · obtain ⟨s₁, hloop, hsent⟩ := pushFile1_sent hok
    rw [hsent]
    intro heq
    have hsent₁ := List.append_cancel_right heq
    rcases hs with hall | hless
    · exact hlost fuel { s with pending := none, sent := multipartPrefix } s₁ rfl hall hloop hsent₁
    · have hlength := pushLoop_length (s := { s with
        pending := none, sent := multipartPrefix }) rfl hloop
      rw [hsent₁, List.length_append] at hlength
      have heq' : (contents ds).length = (contents s.supply).length := by
        simpa using hlength
      omega

/-- All contents arrive exactly where the file is empty, or its reads fill the buffer and the
exceptions come before the first of them. -/
theorem push_exact_iff :
    (∀ ds, SameReads chunks ds → PushExact readFully byteBuffer ds attempts) ↔
    ∀ j, Succeeds attempts j → chunks = [] ∨ (FullReads chunks ∧
      ∀ i < j, ∀ b, (attempts i).fault = some b → b.after ≤ firstRead) := by
  constructor
  · intro h j hj
    by_cases hnil : chunks = []
    · exact .inl hnil
    · refine .inr ⟨?_, fun i hi b hb => ?_⟩
      · by_contra hfull
        obtain ⟨ds, hsame, hlost⟩ := loses_of_short hfull
        obtain ⟨fuel, r, s, hrun, hsent⟩ := h ds hsame j hj
        exact push_loses hlost hrun hsent
      · by_contra hafter
        obtain ⟨fuel, r, s, hrun, hsent⟩ := h chunks rfl j hj
        have hshort := push_shortened hnil hj hi hb (Nat.lt_of_not_le hafter) hrun
        rw [hsent] at hshort
        exact Nat.lt_irrefl _ hshort
  · intro h ds hsame j hj
    rcases h j hj with rfl | ⟨hfull, hbefore⟩
    · obtain rfl : ds = [] := by
        have hmap : ds.map (fun c => c.bytes.length) = [] := hsame.symm
        exact List.map_eq_nil_iff.mp hmap
      exact push_empty j hj
    · exact push_full hj (hsame.full hfull) hbefore

end Push

end Rhodes.PushedFiles
