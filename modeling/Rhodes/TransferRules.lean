import Rhodes.StreamReads

/-!
Rules for the loops of a transfer and for its attempts. What holds of every operation on a stream
and of a sequence where it holds of the parts holds of the loops: they only take from the input
and add to the output, an exception that is due stays due until it strikes, and without one no
exception is thrown that would be answered by another attempt.
-/
namespace Rhodes.TransferRules

open Arrays NetRequest Outcomes StreamReads

/-- A property of programs that the operations of the loops have. -/
structure Rule (Good : ∀ α : Type, M α → Prop) : Prop where
  pure {α : Type} (a : α) : Good α (pure a)
  bind {α β : Type} {p : M α} {f : α → M β} : Good α p → (∀ a, Good β (f a)) → Good β (p >>= f)
  running {α : Type} : Good α (throw .running)
  outOfBounds : Good Unit (throw .indexOutOfBounds)
  get : Good Net get
  write (bytes : List UInt8) : Good Unit (write bytes)
  readBlock : Good Int readBlock
  readByte : Good (Option UInt8) readByte
  place (i : Nat) (b : UInt8) :
    Good Unit (modify (fun s => { s with byteBuffer := s.byteBuffer.set i b }))

namespace Rule

variable {Good : ∀ α : Type, M α → Prop} (h : Rule Good)
include h

theorem bufferedReadFrom (bytesRead : Int) (fuel : Nat) :
    Good Int (bufferedReadFrom bytesRead fuel) := by
  induction fuel generalizing bytesRead with
  | zero => exact h.running
  | succ fuel ih =>
    unfold NetRequest.bufferedReadFrom
    split
    · refine h.bind h.readBlock (fun n => ?_)
      split
      · exact h.pure _
      · exact ih _
    · exact h.pure _

theorem bufferedReadByByteFrom (bytesRead : Nat) (fuel : Nat) :
    Good Int (bufferedReadByByteFrom bytesRead fuel) := by
  induction fuel generalizing bytesRead with
  | zero => exact h.running
  | succ fuel ih =>
    unfold NetRequest.bufferedReadByByteFrom
    split
    · refine h.bind h.readByte (fun b => ?_)
      cases b with
      | none => exact h.pure _
      | some b => exact h.bind (h.place _ _) (fun _ => ih _)
    · exact h.pure _

theorem writeFirst (bytes : List UInt8) (n : Nat) : Good Unit (writeFirst bytes n) := by
  unfold NetRequest.writeFirst
  split
  · exact h.bind h.outOfBounds (fun _ => h.write _)
  · exact h.write _

theorem writeBuffer (nRead : Int) : Good Unit (writeBuffer nRead) :=
  h.bind h.get (fun _ => h.writeFirst _ _)

theorem pushLoop (fuel : Nat) : Good Unit (pushLoop fuel) := by
  induction fuel with
  | zero => exact h.running
  | succ fuel ih =>
    refine h.bind (h.bufferedReadFrom 0 fuel) (fun n => ?_)
    split
    · exact h.bind (h.writeBuffer n) (fun _ => ih)
    · exact h.pure _

theorem pullLoop (bReadByBytes : Bool) (fuel : Nat) : Good Unit (pullLoop bReadByBytes fuel) := by
  induction fuel with
  | zero => exact h.running
  | succ fuel ih =>
    have hnext : ∀ n : Int, Good Unit (if 0 ≤ n then NetRequest.pullLoop bReadByBytes fuel
        else Pure.pure ()) := by
      intro n
      split
      · exact ih
      · exact h.pure _
    have hrest : ∀ n : Int, Good Unit (if 0 < n then NetRequest.writeBuffer n >>= fun _ =>
        if 0 ≤ n then NetRequest.pullLoop bReadByBytes fuel else Pure.pure ()
        else if 0 ≤ n then NetRequest.pullLoop bReadByBytes fuel else Pure.pure ()) := by
      intro n
      split
      · exact h.bind (h.writeBuffer n) (fun _ => hnext n)
      · exact hnext n
    cases bReadByBytes with
    | true => exact h.bind (h.bufferedReadByByteFrom 0 fuel) hrest
    | false => exact h.bind (h.bufferedReadFrom 0 fuel) hrest

end Rule

/-- The stream still delivers a last part of what it did, and the output has only grown. -/
def Flows (s s' : Net) : Prop :=
  contents s'.supply <:+ contents s.supply ∧ s.sent <+: s'.sent

instance : Std.Refl Flows := ⟨fun _ => ⟨List.suffix_rfl, List.prefix_rfl⟩⟩

instance : IsTrans Net Flows :=
  ⟨fun _ _ _ h h' => ⟨h'.1.trans h.1, h.2.trans h'.2⟩⟩

/-- A sequence that returns has gone through its first part. -/
theorem bind_eq_ok {α β : Type} {p : M α} {f : α → M β} {s s' : Net} {b : β}
    (h : (p >>= f) s = .ok b s') : ∃ a s₁, p s = .ok a s₁ ∧ f a s₁ = .ok b s' := by
  cases hfirst : p s with
  | ok a s₁ => exact ⟨a, s₁, rfl, (bind_ok hfirst f).symm.trans h⟩
  | error e s₁ =>
    rw [bind_error hfirst] at h
    cases h

/-- An exception of the attempt strikes before the program returns and at no other time. -/
structure Honest (α : Type) (p : M α) : Prop where
  due {s s' : Net} {a : α} : s.pending ≠ none → p s = .ok a s' → s'.pending ≠ none
  quiet {s s' : Net} {a : α} : Quiet s → p s = .ok a s' → Quiet s'
  silent {s s' : Net} : Quiet s → p s ≠ .error .ioException s'

theorem Honest.bind {α β : Type} {p : M α} {f : α → M β} (hp : Honest α p)
    (hf : ∀ a, Honest β (f a)) : Honest β (p >>= f) := by
  refine ⟨fun hs hres => ?_, fun hs hres => ?_, fun {s s'} hs hres => ?_⟩
  · obtain ⟨a, s₁, hfirst, hrest⟩ := bind_eq_ok hres
    exact (hf a).due (hp.due hs hfirst) hrest
  · obtain ⟨a, s₁, hfirst, hrest⟩ := bind_eq_ok hres
    exact (hf a).quiet (hp.quiet hs hfirst) hrest
  · cases hfirst : p s with
    | ok a s₁ =>
      rw [bind_ok hfirst] at hres
      exact (hf a).silent (hp.quiet hs hfirst) hres
    | error e s₁ =>
      rw [bind_error hfirst] at hres
      injection hres with he
      exact hp.silent hs (he ▸ hfirst)

/-- A program that returns and leaves what is due. -/
theorem Honest.of_returns {α : Type} {p : M α}
    (h : ∀ s, ∃ a s', p s = .ok a s' ∧ s'.pending = s.pending) : Honest α p := by
  refine ⟨fun {s s' a} hs hres => ?_, fun {s s' a} hs hres => ?_, fun {s s'} _ hres => ?_⟩ <;>
    obtain ⟨a', s₁, hp, hpending⟩ := h s
  · cases hp.symm.trans hres
    rwa [hpending]
  · cases hp.symm.trans hres
    exact hpending.trans hs
  · cases hp.symm.trans hres

theorem Honest.throw {α : Type} {e : Failure} (he : e ≠ .ioException) :
    Honest α (throw e : M α) := by
  refine ⟨fun _ hres => ?_, fun _ hres => ?_, fun _ hres => ?_⟩
  · cases hres
  · cases hres
  · cases hres
    exact he rfl

theorem honest_io : Honest Unit io := by
  refine ⟨fun {s s' a} hs hres => ?_, fun {s s' a} hs hres => ?_, fun {s s'} hs hres => ?_⟩
  · unfold io at hres
    split at hres
    · rename_i hnone
      exact absurd hnone hs
    · cases hres
    · cases hres
      exact nofun
  · rw [io_quiet hs] at hres
    cases hres
    exact hs
  · rw [io_quiet hs] at hres
    cases hres

theorem honest_write (bytes : List UInt8) : Honest Unit (write bytes) := by
  refine ⟨fun {s s' a} hs hres => ?_, fun {s s' a} hs hres => ?_, fun {s s'} hs hres => ?_⟩
  · unfold write at hres
    split at hres
    · cases hres
    · cases hres
      exact nofun
    · rename_i hnone
      exact absurd hnone hs
  · rw [write_quiet hs] at hres
    cases hres
    exact hs
  · rw [write_quiet hs] at hres
    cases hres

theorem honest_rule : Rule Honest where
  pure a := .of_returns (fun s => ⟨a, s, rfl, rfl⟩)
  bind := Honest.bind
  running := .throw nofun
  outOfBounds := .throw nofun
  get := .of_returns (fun s => ⟨s, s, rfl, rfl⟩)
  write := honest_write
  readBlock := by
    refine honest_io.bind (fun _ => .of_returns (fun s => ?_))
    rw [bind_get]
    cases s.supply with
    | nil => exact ⟨_, _, rfl, rfl⟩
    | cons c rest => exact ⟨_, _, rfl, rfl⟩
  readByte := by
    refine honest_io.bind (fun _ => .of_returns (fun s => ?_))
    rw [bind_get]
    cases s.supply with
    | nil => exact ⟨_, _, rfl, rfl⟩
    | cons c rest => exact ⟨_, _, rfl, rfl⟩
  place _ _ := .of_returns (fun _ => ⟨_, _, rfl, rfl⟩)

theorem flows_io : Moves Flows io := by
  intro s
  unfold io
  split
  · exact refl_of Flows s
  · exact refl_of Flows s
  · exact ⟨List.suffix_rfl, List.prefix_rfl⟩

theorem flows_lastIo : Moves Flows lastIo := by
  intro s
  unfold lastIo
  split <;> exact refl_of Flows s

theorem flows_write (bytes : List UInt8) : Moves Flows (write bytes) := by
  intro s
  unfold write
  split <;> exact ⟨List.suffix_rfl, List.prefix_append _ _⟩

theorem flows_rule : Rule (fun α p => Moves (α := α) Flows p) where
  pure := Moves.pure
  bind := Moves.bind
  running := Moves.throw _
  outOfBounds := Moves.throw _
  get := Moves.get
  write := flows_write
  readBlock := by
    refine flows_io.bind (fun _ s => ?_)
    rw [bind_get]
    cases hsupply : s.supply with
    | nil => exact refl_of Flows s
    | cons c rest =>
      refine ⟨?_, List.prefix_rfl⟩
      rw [hsupply, contents_cons]
      exact List.suffix_append _ _
  readByte := by
    refine flows_io.bind (fun _ s => ?_)
    rw [bind_get]
    cases hsupply : s.supply with
    | nil => exact refl_of Flows s
    | cons c rest =>
      refine ⟨?_, List.prefix_rfl⟩
      rw [hsupply, contents_restOf]
      exact List.suffix_cons _ _
  place _ _ := Moves.modify (fun _ => ⟨List.suffix_rfl, List.prefix_rfl⟩)

section Attempts

variable {α : Type} {request : Attempt → M α} {attempts : Nat → Attempt}

/-- The first attempt without an exception, one of the three that are made. -/
def Succeeds (attempts : Nat → Attempt) (j : Nat) : Prop :=
  j < maxNetRequestRetry ∧ (attempts j).fault = none ∧ ∀ i < j, (attempts i).fault ≠ none

/-- Attempts that throw are made again, until one returns. -/
theorem retry_returns {I : Net → Prop} {Q : α → Net → Prop} {j : Nat}
    (hthrow : ∀ i < j, ∀ s, I s → ∃ s', request (attempts i) s = .error .ioException s' ∧ I s')
    (hreturn : ∀ s, I s → ∃ a s', request (attempts j) s = .ok a s' ∧ Q a s') (left : Nat) :
    ∀ nTry s, nTry ≤ j → j ≤ nTry + left → I s →
      ∃ a s', retry request attempts nTry left s = .ok a s' ∧ Q a s' := by
  induction left with
  | zero =>
    intro nTry s hle hge hs
    obtain rfl : nTry = j := by omega
    exact hreturn s hs
  | succ left ih =>
    intro nTry s hle hge hs
    unfold retry
    rcases Nat.lt_or_eq_of_le hle with hlt | rfl
    · obtain ⟨s₁, hrun, hs₁⟩ := hthrow nTry hlt s hs
      obtain ⟨a, s', hrest, hq⟩ := ih (nTry + 1) s₁ hlt (by omega) hs₁
      refine ⟨a, s', ?_, hq⟩
      show EStateM.tryCatch _ _ s = _
      unfold EStateM.tryCatch
      simp only [hrun, if_pos]
      exact hrest
    · obtain ⟨a, s', hrun, hq⟩ := hreturn s hs
      refine ⟨a, s', ?_, hq⟩
      show EStateM.tryCatch _ _ s = _
      unfold EStateM.tryCatch
      rw [hrun]

/-- What holds before every attempt, kept by those that throw, gives what holds at the end. -/
theorem retry_ends {P : Nat → Net → Prop} {Q : α → Net → Prop}
    (hthrow : ∀ i s s', P i s → request (attempts i) s = .error .ioException s' → P (i + 1) s')
    (hreturn : ∀ i s a s', P i s → request (attempts i) s = .ok a s' → Q a s') (left : Nat) :
    ∀ nTry s a s', P nTry s → retry request attempts nTry left s = .ok a s' → Q a s' := by
  induction left with
  | zero =>
    intro nTry s a s' hs hrun
    exact hreturn nTry s a s' hs hrun
  | succ left ih =>
    intro nTry s a s' hs hrun
    have hcatch : EStateM.tryCatch (request (attempts nTry)) (fun e =>
        if e = .ioException then retry request attempts (nTry + 1) left else throw e) s =
        .ok a s' := hrun
    unfold EStateM.tryCatch at hcatch
    cases hfirst : request (attempts nTry) s with
    | ok a₁ s₁ =>
      rw [hfirst] at hcatch
      cases hcatch
      exact hreturn nTry s a s' hs hfirst
    | error e s₁ =>
      simp only [hfirst] at hcatch
      by_cases he : e = .ioException
      · subst he
        rw [if_pos rfl] at hcatch
        exact ih (nTry + 1) s₁ a s' (hthrow nTry s s₁ hs hfirst) hcatch
      · rw [if_neg he] at hcatch
        cases hcatch

end Attempts

end Rhodes.TransferRules
