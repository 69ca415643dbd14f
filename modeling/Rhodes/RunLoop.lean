import Rhodes.SyncThread

/-!
The control flow of run and processCommands, once for every property of them. An
outline attaches an assertion to each point of the loops and says what each statement
makes of it; `RunOutline.triple` puts these together.
-/
namespace Rhodes.RunLoop

open Statements Interleaving SyncThread

variable {ι σ υ : Type}

/-- The moves of a run of the sync thread. -/
abbrev ThreadMove (ι σ υ : Type) := Move (ThreadStmt ι) (ThreadState σ) (OtherAction υ)

/-- The sync thread against the other threads. -/
def threads (M : EngineModel ι σ υ) (ok : ThreadMove ι σ υ → Prop)
    (goal : ThreadStmt ι → ThreadState σ → Prop) :
    Discipline (ThreadStmt ι) (ThreadState σ) (OtherAction υ) :=
  ⟨threadStep M, otherStep M, ok, goal⟩

/-- The statements of a command. -/
def InCommand : ThreadStmt ι → Prop
  | .engine _ => True
  | .pollInterval => True
  | _ => False

theorem engineCall_only (p : Prog ι σ Bool) : (engineCall p).Only InCommand :=
  (Prog.only_true p).embed _ (fun _ _ => trivial)

theorem processCommand_only (M : EngineModel ι σ υ) (calls : EngineCalls ι σ) (c : SyncCommand) :
    (processCommand M calls c).Only InCommand := by
  cases c with
  | scNone =>
    apply Prog.Only.bind (Prog.Only.perform trivial _)
    intro polls
    exact Prog.Only.ite (engineCall_only _) trivial
  | scChangePollInterval => trivial
  | _ => exact engineCall_only _

/-- Assertions at the points of run: in its loop, past the test before processCommands,
there with an empty queue, before the test of the inner loop, past that test, and in a
command. -/
structure RunOutline (M : EngineModel ι σ υ) (calls : EngineCalls ι σ)
    (ok : ThreadMove ι σ υ → Prop) (goal : ThreadStmt ι → ThreadState σ → Prop) where
  idle : ThreadState σ → Prop
  entered : ThreadState σ → Prop
  bare : ThreadState σ → Prop
  draining : ThreadState σ → Prop
  filled : ThreadState σ → Prop
  running : SyncCommand → ThreadState σ → Prop
  idle_stable : (threads M ok goal).Stable idle
  entered_stable : (threads M ok goal).Stable entered
  bare_stable : (threads M ok goal).Stable bare
  draining_stable : (threads M ok goal).Stable draining
  filled_stable : (threads M ok goal).Stable filled
  getState : ∀ s, idle s → ok (.own .getState s) → goal .getState s
  wait : ∀ s, idle s → ok (.own .wait s) → goal .wait s
  isNoCommands : ∀ s, idle s → ok (.own .isNoCommands s) → goal .isNoCommands s
  enter : ∀ s, idle s → ok (.own .enter s) → goal .enter s ∧
    (M.getState s.engine ≠ .esExit → entered (threadStep M .enter s)) ∧
    (M.getState s.engine = .esExit → idle (threadStep M .enter s))
  first : ∀ s, entered s → ok (.own .isNoCommandsFirst s) → goal .isNoCommandsFirst s ∧
    (s.stackCommands = [] → bare s) ∧ (s.stackCommands ≠ [] → draining s)
  addNone : ∀ s, bare s → ok (.own (.addSyncCommand .scNone) s) →
    goal (.addSyncCommand .scNone) s ∧ draining (threadStep M (.addSyncCommand .scNone) s)
  loop : ∀ s, draining s → ok (.own .isNoCommandsLoop s) → goal .isNoCommandsLoop s ∧
    (s.stackCommands = [] → idle (threadStep M .isNoCommandsLoop s)) ∧
    (s.stackCommands ≠ [] → filled (threadStep M .isNoCommandsLoop s))
  take : ∀ s, filled s → ok (.own .removeFirst s) → goal .removeFirst s ∧
    ∀ c, s.stackCommands.head? = some c → running c (threadStep M .removeFirst s)
  command : ∀ c, (threads M ok goal).Triple (running c) (processCommand M calls c)
    (fun returned s => (returned = true → draining s) ∧ (returned = false → idle s))

namespace RunOutline

variable {M : EngineModel ι σ υ} {calls : EngineCalls ι σ} {ok : ThreadMove ι σ υ → Prop}
  {goal : ThreadStmt ι → ThreadState σ → Prop}

/-- A test of the queue, followed by its two branches. -/
theorem test_bind {α : Type} {P yes no : ThreadState σ → Prop} {i : ThreadStmt ι}
    {f : Bool → Thread ι σ α} {R : α → ThreadState σ → Prop} (hP : (threads M ok goal).Stable P)
    (h : ∀ s, P s → ok (.own i s) → goal i s ∧
      (s.stackCommands = [] → yes (threadStep M i s)) ∧
      (s.stackCommands ≠ [] → no (threadStep M i s)))
    (hyes : (threads M ok goal).Triple yes (f true) R)
    (hno : (threads M ok goal).Triple no (f false) R) :
    (threads M ok goal).Triple P ((SyncThread.isNoCommands i).bind f) R := by
  apply Discipline.Triple.perform_bind (fun b s => if b then yes s else no s) hP
  · intro s hs hok
    obtain ⟨hgoal, hempty, hfull⟩ := h s hs hok
    refine ⟨hgoal, ?_⟩
    cases hqueue : s.stackCommands with
    | nil => exact hempty hqueue
    | cons c rest => exact hfull (by simp [hqueue])
  · intro b
    cases b with
    | true => exact hyes
    | false => exact hno

/-- What processCommands leaves, unless it was cut off. -/
def Ends (O : RunOutline M calls ok goal) (outcome : Outcome) (s : ThreadState σ) : Prop :=
  outcome ≠ .cut → O.idle s

theorem loop_triple (O : RunOutline M calls ok goal) (fuel : Nat) :
    (threads M ok goal).Triple O.draining (processLoop M calls fuel) O.Ends := by
  induction fuel with
  | zero => exact Discipline.Triple.ret O.draining_stable (fun _ _ hcut => absurd rfl hcut)
  | succ fuel ih =>
    apply test_bind O.draining_stable O.loop
    · exact Discipline.Triple.ret O.idle_stable (fun _ hs _ => hs)
    · apply Discipline.Triple.perform_bind (fun head s => ∀ c, head = some c → O.running c s)
        O.filled_stable O.take
      intro head
      cases head with
      | none => exact fun _ _ _ _ hcut => absurd rfl hcut
      | some c =>
        have hcommand := (O.command c).conseq (R := fun s => ∀ d, some c = some d → O.running d s)
          (fun _ hs => hs c rfl) (fun _ _ hs => hs)
        apply Discipline.Triple.bind hcommand
        intro returned
        cases returned with
        | true => exact ih.conseq (fun _ hs => hs.1 rfl) (fun _ _ hs => hs)
        | false =>
          refine Discipline.Triple.conseq (P := O.idle) (Q := O.Ends) ?_ (fun _ hs => hs.2 rfl)
            (fun _ _ hs => hs)
          exact Discipline.Triple.ret O.idle_stable (fun _ hs _ => hs)

theorem commands_triple (O : RunOutline M calls ok goal) (fuel : Nat) :
    (threads M ok goal).Triple O.entered (processCommands M calls fuel) O.Ends := by
  apply test_bind O.entered_stable O.first
  · exact Discipline.Triple.perform_bind (fun _ => O.draining) O.bare_stable O.addNone
      (fun _ => O.loop_triple fuel)
  · exact O.loop_triple fuel

theorem wait_triple (O : RunOutline M calls ok goal) :
    (threads M ok goal).Triple O.idle (waitForCommands M) (fun _ => O.idle) := by
  have hret : (threads M ok goal).Triple O.idle (.ret ()) (fun _ => O.idle) :=
    Discipline.Triple.ret O.idle_stable (fun _ hs => hs)
  refine Discipline.Triple.perform_bind (fun _ => O.idle) O.idle_stable
    (fun s hs hok => ⟨O.getState s hs hok, hs⟩) (fun b =>
      Discipline.Triple.ite (fun _ => ?_) (fun _ => hret))
  apply test_bind O.idle_stable
    (fun s hs hok => ⟨O.isNoCommands s hs hok, fun _ => hs, fun _ => hs⟩)
  · exact Discipline.Triple.perform_bind (fun _ => O.idle) O.idle_stable
      (fun s hs hok => ⟨O.wait s hs hok, hs⟩) (fun _ => hret)
  · exact hret

/-- The thread keeps to its outline. -/
theorem triple (O : RunOutline M calls ok goal) (fuel rounds : Nat) :
    (threads M ok goal).Triple O.idle (run M calls fuel rounds) (fun _ _ => True) := by
  have hend : (threads M ok goal).Triple (fun _ => True) (.ret ()) (fun _ _ => True) :=
    Discipline.Triple.ret (fun _ _ _ _ => trivial) (fun _ _ => trivial)
  induction rounds with
  | zero => exact hend.conseq (fun _ _ => trivial) (fun _ _ hs => hs)
  | succ rounds ih =>
    refine Discipline.Triple.perform_bind (fun _ => O.idle) O.idle_stable
      (fun s hs hok => ⟨O.getState s hs hok, hs⟩) (fun b =>
        Discipline.Triple.ite (fun _ => ?_) (fun _ => ?_))
    · apply Discipline.Triple.bind O.wait_triple
      intro _
      apply Discipline.Triple.perform_bind
        (fun go s => (go = true → O.entered s) ∧ (go = false → O.idle s)) O.idle_stable
      · intro s hs hok
        obtain ⟨hgoal, hgo, hexit⟩ := O.enter s hs hok
        exact ⟨hgoal, fun h => hgo (by simpa using h), fun h => hexit (by simpa using h)⟩
      · intro go
        cases go with
        | true =>
          refine Discipline.Triple.conseq (P := O.entered) (Q := fun _ _ => True) ?_
            (fun _ hs => hs.1 rfl) (fun _ _ hs => hs)
          apply Discipline.Triple.bind (O.commands_triple fuel)
          intro outcome
          by_cases hcut : outcome = .cut
          · simp only [hcut, if_true]
            exact hend.conseq (fun _ _ => trivial) (fun _ _ hs => hs)
          · simp only [hcut, if_false]
            exact ih.conseq (fun _ hs => hs hcut) (fun _ _ hs => hs)
        | false => exact ih.conseq (fun _ hs => hs.2 rfl) (fun _ _ hs => hs)
    · exact hend.conseq (fun _ _ => trivial) (fun _ _ hs => hs)

end RunOutline

end Rhodes.RunLoop
