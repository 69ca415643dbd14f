import Rhodes.EngineThread
import Rhodes.RunLoop
import Rhodes.Sessions

/-!
What happens to a command that is added to the queue. The queue is a FIFO: what came
in and was not dropped is what was taken off followed by what is still there, and
processCommands ends only on an empty queue. A command is dropped when one with the
same fields of the base class is queued, so a login or a search with other fields of its
own is lost; it is lost exactly then, since no two queued commands are equal.
-/
namespace Rhodes.CommandQueue

open Database Statements Interleaving SyncThread RunLoop EngineThread Sessions

/-- The fields that processCommand uses agree; it does not use m_nCmdParam of a login. -/
def SameEffect : SyncCommand → SyncCommand → Prop
  | .scLogin _ callback name password, .scLogin _ callback' name' password' =>
      callback = callback' ∧ name = name' ∧ password = password'
  | c, d => c = d

/-- The fields of the subclasses agree, for two commands of one code. -/
def SameFields : SyncCommand → SyncCommand → Prop
  | .scLogin _ _ name password, .scLogin _ _ name' password' => name = name' ∧ password = password'
  | .scSearchOne _ _ strFrom syncChanges progressStep,
      .scSearchOne _ _ strFrom' syncChanges' progressStep' =>
      strFrom = strFrom' ∧ syncChanges = syncChanges' ∧ progressStep = progressStep'
  | _, _ => True

theorem equals_iff (c d : SyncCommand) : c.equals d = true ↔
    c.nCmdCode = d.nCmdCode ∧ c.nCmdParam = d.nCmdParam ∧ c.strCmdParam = d.strCmdParam := by
  simp [SyncCommand.equals, and_assoc]

theorem equals_symm {c d : SyncCommand} (h : c.equals d = true) : d.equals c = true := by
  rw [equals_iff] at *
  obtain ⟨hcode, hparam, htext⟩ := h
  exact ⟨hcode.symm, hparam.symm, htext.symm⟩

theorem equals_trans {c d e : SyncCommand} (h : c.equals d = true) (h' : d.equals e = true) :
    c.equals e = true := by
  rw [equals_iff] at *
  obtain ⟨hcode, hparam, htext⟩ := h
  obtain ⟨hcode', hparam', htext'⟩ := h'
  exact ⟨hcode.trans hcode', hparam.trans hparam', htext.trans htext'⟩

/-- A queued command that stands in for an equal one has the same effect exactly when
the fields that equals leaves out agree. -/
theorem sameEffect_iff_of_equals {c d : SyncCommand} (h : d.equals c = true) :
    SameEffect d c ↔ SameFields d c := by
  rw [equals_iff] at h
  cases d <;> cases c <;>
    simp_all [SameEffect, SameFields, SyncCommand.nCmdCode, SyncCommand.nCmdParam,
      SyncCommand.strCmdParam]

/-- Two commands of the same effect differ for the queue only in m_nCmdParam. -/
theorem equals_of_sameEffect {c d : SyncCommand} (h : SameEffect d c)
    (hparam : d.nCmdParam = c.nCmdParam) : d.equals c = true := by
  rw [equals_iff]
  cases d <;> cases c <;>
    simp_all [SameEffect, SyncCommand.nCmdCode, SyncCommand.nCmdParam, SyncCommand.strCmdParam]

/-- No two queued commands are equal. -/
def Distinct (queue : List SyncCommand) : Prop := queue.Pairwise (fun c d => c.equals d = false)

theorem Distinct.addSyncCommand {queue : List SyncCommand} (h : Distinct queue) (c : SyncCommand) :
    Distinct (addSyncCommand queue c) := by
  unfold SyncThread.addSyncCommand
  split
  · exact h
  · rename_i hnone
    apply List.pairwise_append.mpr
    refine ⟨h, List.pairwise_singleton _ _, ?_⟩
    intro d hd e he
    rw [List.mem_singleton] at he
    subst he
    simp only [List.any_eq_true, not_exists, not_and, Bool.not_eq_true] at hnone
    exact hnone d hd

theorem Distinct.eq_of_equals {queue : List SyncCommand} (h : Distinct queue) {c d e : SyncCommand}
    (hd : d ∈ queue) (he : e ∈ queue) (hdc : d.equals c = true) (hec : e.equals c = true) :
    d = e := by
  by_contra hne
  have hsymm : Std.Symm (fun c d : SyncCommand => c.equals d = false) := by
    constructor
    intro x y hxy
    by_contra hyx
    rw [equals_symm (by simpa using hyx)] at hxy
    cases hxy
  have hfalse := h.forall hd he hne
  rw [equals_trans hdc (equals_symm hec)] at hfalse
  cases hfalse

/-- The command went into the queue, or one with the same effect is in it. -/
def Kept (queue : List SyncCommand) (c : SyncCommand) : Prop :=
  addSyncCommand queue c = queue ++ [c] ∨ ∃ d ∈ queue, SameEffect d c

/-- Every queued command that equals finds to be the same has the same fields of its
subclass; or the same login is queued with another value in the field its constructor
does not set. -/
def ToldApart (queue : List SyncCommand) (c : SyncCommand) : Prop :=
  (∀ d ∈ queue, d.equals c = true → SameFields d c) ∨
    ∃ d ∈ queue, SameEffect d c ∧ d.nCmdParam ≠ c.nCmdParam

theorem kept_iff {queue : List SyncCommand} (h : Distinct queue) (c : SyncCommand) :
    Kept queue c ↔ ToldApart queue c := by
  by_cases hequal : ∃ d ∈ queue, d.equals c = true
  · have hdrop : addSyncCommand queue c = queue := if_pos (List.any_eq_true.mpr hequal)
    obtain ⟨d, hd, hdc⟩ := hequal
    constructor
    · rintro (hadd | ⟨e, he, hec⟩)
      · rw [hdrop] at hadd
        simp at hadd
      · by_cases hparam : e.nCmdParam = c.nCmdParam
        · left
          intro x hx hxc
          have hequals := equals_of_sameEffect hec hparam
          rw [h.eq_of_equals hx he hxc hequals]
          exact (sameEffect_iff_of_equals hequals).mp hec
        · exact Or.inr ⟨e, he, hec, hparam⟩
    · rintro (hfields | ⟨e, he, hec, -⟩)
      · exact Or.inr ⟨d, hd, (sameEffect_iff_of_equals hdc).mpr (hfields d hd hdc)⟩
      · exact Or.inr ⟨e, he, hec⟩
  · have hadd : addSyncCommand queue c = queue ++ [c] :=
      if_neg (fun hany => hequal (List.any_eq_true.mp hany))
    constructor
    · intro _
      exact Or.inl (fun d hd hdc => absurd ⟨d, hd, hdc⟩ hequal)
    · intro _
      exact Or.inl hadd

section Runs

variable {ι σ υ : Type}

/-- The command that a move adds. -/
def added : ThreadMove ι σ υ → Option SyncCommand
  | .own (.addSyncCommand c) _ => some c
  | .env (.addSyncCommand c) _ => some c
  | _ => none

/-- The commands a call of addSyncCommand puts into the queue. -/
def entering (queue : List SyncCommand) (c : SyncCommand) : List SyncCommand :=
  if queue.any (fun d => d.equals c) then [] else [c]

/-- What a move puts into the queue. -/
def accepted (m : ThreadMove ι σ υ) : List SyncCommand :=
  (added m).elim [] (entering m.state.stackCommands)

/-- The command that a move takes off the queue. -/
def taken : ThreadMove ι σ υ → List SyncCommand
  | .own .removeFirst s => s.stackCommands.head?.toList
  | _ => []

theorem addSyncCommand_eq (queue : List SyncCommand) (c : SyncCommand) :
    addSyncCommand queue c = queue ++ entering queue c := by
  unfold SyncThread.addSyncCommand entering
  split
  · rw [List.append_nil]
  · rfl

/-- Each move of the thread accounts for what it does to the queue. -/
theorem threadStep_queue (M : EngineModel ι σ υ) (i : ThreadStmt ι) (s : ThreadState σ) :
    s.stackCommands ++ accepted (Move.own i s : Move _ _ (OtherAction υ)) =
      taken (Move.own i s : Move _ _ (OtherAction υ)) ++ (threadStep M i s).stackCommands := by
  cases i with
  | addSyncCommand c => exact (addSyncCommand_eq s.stackCommands c).symm
  | removeFirst =>
    show s.stackCommands ++ [] = s.stackCommands.head?.toList ++ s.stackCommands.tail
    cases s.stackCommands <;> simp
  | _ => exact List.append_nil _

theorem otherStep_queue (M : EngineModel ι σ υ) (u : OtherAction υ) (s s' : ThreadState σ)
    (h : otherStep M u s = some s') :
    s.stackCommands ++ accepted (Move.env u s : Move (ThreadStmt ι) _ _) = s'.stackCommands := by
  rw [otherStep_stackCommands M h]
  cases u with
  | addSyncCommand c => exact (addSyncCommand_eq s.stackCommands c).symm
  | _ => exact List.append_nil _

/-- What came in is what was taken off followed by what is left. -/
theorem run_queue {α : Type} (M : EngineModel ι σ υ) {p q : Thread ι σ α} {s t : ThreadState σ}
    {ms : List (ThreadMove ι σ υ)}
    (h : Run (threadStep M) (otherStep M) p s ms q t) :
    s.stackCommands ++ ms.flatMap accepted = ms.flatMap taken ++ t.stackCommands := by
  induction h with
  | nil p s => simp
  | @own i k s t ms q hrun ih =>
    simp only [List.flatMap_cons, List.append_assoc]
    rw [← List.append_assoc, threadStep_queue M i s, List.append_assoc, ih]
  | @env u p s s' t ms q hu hrun ih =>
    simp only [List.flatMap_cons, List.append_assoc]
    rw [← List.append_assoc, otherStep_queue M u s s' hu, ih]
    rfl

theorem run_distinct {α : Type} (M : EngineModel ι σ υ) {p q : Thread ι σ α} {s t : ThreadState σ}
    {ms : List (ThreadMove ι σ υ)}
    (h : Run (threadStep M) (otherStep M) p s ms q t) (hs : Distinct s.stackCommands) :
    ∀ m ∈ ms, Distinct m.state.stackCommands := by
  refine (Run.invariant (I := fun s => Distinct s.stackCommands) ?_ ?_ h hs).1
  · intro i s hs
    cases i with
    | addSyncCommand c => exact hs.addSyncCommand c
    | removeFirst => exact hs.sublist (List.tail_sublist _)
    | _ => exact hs
  · intro u s s' hu hs
    rw [otherStep_stackCommands M hu]
    cases u with
    | addSyncCommand c => exact hs.addSyncCommand c
    | _ => exact hs

/-- removeFirst is called on a queue that is not empty. -/
def NotEmpty : ThreadStmt ι → ThreadState σ → Prop
  | .removeFirst, s => s.stackCommands ≠ []
  | _, _ => True

/-- The queue can only grow between the test of the inner loop and removeFirst. -/
def notEmptyOutline (M : EngineModel ι σ υ) (calls : EngineCalls ι σ) :
    RunOutline M calls (fun _ => True) NotEmpty where
  idle := fun _ => True
  entered := fun _ => True
  bare := fun _ => True
  draining := fun _ => True
  filled := fun s => s.stackCommands ≠ []
  running := fun _ _ => True
  idle_stable := fun _ _ _ _ => trivial
  entered_stable := fun _ _ _ _ => trivial
  bare_stable := fun _ _ _ _ => trivial
  draining_stable := fun _ _ _ _ => trivial
  filled_stable := by
    rintro s s' hs ⟨u, hu, -⟩
    rw [← otherStep_queue M u s s' hu]
    simp [hs]
  getState := fun _ _ _ => trivial
  wait := fun _ _ _ => trivial
  isNoCommands := fun _ _ _ => trivial
  enter := fun _ _ _ => ⟨trivial, fun _ => trivial, fun _ => trivial⟩
  first := fun _ _ _ => ⟨trivial, fun _ => trivial, fun _ => trivial⟩
  addNone := fun _ _ _ => ⟨trivial, trivial⟩
  loop := fun _ _ _ => ⟨trivial, fun _ => trivial, fun hs => hs⟩
  take := fun _ hs _ => ⟨hs, fun _ _ => trivial⟩
  command := by
    intro c
    have hbody := Discipline.Triple.only (D := threads M (fun _ => True) NotEmpty)
      (I := fun _ => True) (fun _ _ _ _ => trivial) ?_ (processCommand_only M calls c)
    · exact hbody.conseq (fun _ hs => hs) (fun _ _ _ => ⟨fun _ => trivial, fun _ => trivial⟩)
    · intro i s hi _ _
      cases i <;> first | exact ⟨trivial, trivial⟩ | exact hi.elim

/-- The accounts of two parts of a run add up. -/
theorem accounts_append {a b c : List SyncCommand} {ms₁ ms₂ : List (ThreadMove ι σ υ)}
    (h₁ : a ++ ms₁.flatMap accepted = ms₁.flatMap taken ++ b)
    (h₂ : b ++ ms₂.flatMap accepted = ms₂.flatMap taken ++ c) :
    a ++ (ms₁ ++ ms₂).flatMap accepted = (ms₁ ++ ms₂).flatMap taken ++ c := by
  rw [List.flatMap_append, List.flatMap_append, ← List.append_assoc, h₁, List.append_assoc, h₂,
    List.append_assoc]

/-- All that came before the last test of the queue has been taken off it. -/
def Drained (queue : List SyncCommand) (ms : List (ThreadMove ι σ υ)) : Prop :=
  ∃ ms₁ ms₂, ms = ms₁ ++ ms₂ ∧ queue ++ ms₁.flatMap accepted = ms₁.flatMap taken ∧
    ∀ m ∈ ms₂, ∃ u x, m = .env u x

theorem Drained.prepend {a b : List SyncCommand} {ms ms' : List (ThreadMove ι σ υ)}
    (h : a ++ ms.flatMap accepted = ms.flatMap taken ++ b) (h' : Drained b ms') :
    Drained a (ms ++ ms') := by
  obtain ⟨ms₁, ms₂, rfl, hq, henv⟩ := h'
  refine ⟨ms ++ ms₁, ms₂, (List.append_assoc _ _ _).symm, ?_, henv⟩
  have hsum := accounts_append (c := []) h (by rw [hq, List.append_nil])
  rwa [List.append_nil] at hsum

theorem processLoop_drained (M : EngineModel ι σ υ) (calls : EngineCalls ι σ) (fuel : Nat)
    {s t : ThreadState σ} {ms : List (ThreadMove ι σ υ)}
    (h : Run (threadStep M) (otherStep M) (processLoop M calls fuel) s ms (.ret .done) t) :
    Drained s.stackCommands ms := by
  induction fuel generalizing s ms with
  | zero => cases (Run.of_ret h).1
  | succ fuel ih =>
    obtain ⟨b, ms₁, ms₂, u, rfl, htest, hrest⟩ := Run.of_bind_ret h
    cases b with
    | true =>
      -- The queue was empty when it was tested, and the thread is done.
      obtain ⟨before, after, x, rfl, hempty, hrun, hafter⟩ := Run.of_perform htest
      have hx : x.stackCommands = [] := by simpa using hempty.symm
      have hqueue := run_queue M hrun
      rw [hx, List.append_nil] at hqueue
      refine ⟨before ++ [.own .isNoCommandsLoop x], after ++ ms₂, by simp, ?_, ?_⟩
      · simpa [accepted, added, taken] using hqueue
      · intro m hm
        rcases List.mem_append.mp hm with hm | hm
        · exact hafter m hm
        · exact (Run.of_ret hrest).2 m hm
    | false =>
      apply Drained.prepend (run_queue M htest)
      obtain ⟨head, ms₃, ms₄, v, rfl, htake, hrest⟩ := Run.of_bind_ret hrest
      apply Drained.prepend (run_queue M htake)
      cases head with
      | none => cases (Run.of_ret hrest).1
      | some c =>
        obtain ⟨returned, ms₅, ms₆, w, rfl, hcommand, hrest⟩ := Run.of_bind_ret hrest
        apply Drained.prepend (run_queue M hcommand)
        cases returned with
        | true => exact ih hrest
        | false => cases (Run.of_ret hrest).1

theorem processCommands_drained (M : EngineModel ι σ υ) (calls : EngineCalls ι σ) (fuel : Nat)
    {s t : ThreadState σ} {ms : List (ThreadMove ι σ υ)}
    (h : Run (threadStep M) (otherStep M) (processCommands M calls fuel) s ms (.ret .done) t) :
    Drained s.stackCommands ms := by
  obtain ⟨b, ms₁, ms₂, u, rfl, htest, hrest⟩ := Run.of_bind_ret h
  apply Drained.prepend (run_queue M htest)
  cases b with
  | true =>
    obtain ⟨_, ms₃, ms₄, v, rfl, hadd, hloop⟩ := Run.of_bind_ret hrest
    exact Drained.prepend (run_queue M hadd) (processLoop_drained M calls fuel hloop)
  | false => exact processLoop_drained M calls fuel hrest

/-- In every run of the thread, the commands are executed in the order in which they were
accepted and none is lost on the way, processCommands leaves none behind, and a call of
addSyncCommand keeps its command exactly when the queued ones can be told apart from it. -/
theorem commands_kept_iff (M : EngineModel ι σ υ) (calls : EngineCalls ι σ) (fuel rounds : Nat)
    {s t : ThreadState σ} {q : Thread ι σ Unit} {ms : List (ThreadMove ι σ υ)}
    (hs : Distinct s.stackCommands)
    (h : Run (threadStep M) (otherStep M) (run M calls fuel rounds) s ms q t) :
    s.stackCommands ++ ms.flatMap accepted = ms.flatMap taken ++ t.stackCommands ∧
    (∀ x, Move.own .removeFirst x ∈ ms → x.stackCommands ≠ []) ∧
    (∀ s' ms' t', Run (threadStep M) (otherStep M) (processCommands M calls fuel) s' ms'
      (.ret .done) t' → Drained s'.stackCommands ms') ∧
    (∀ m ∈ ms, ∀ c, added m = some c →
      (Kept m.state.stackCommands c ↔ ToldApart m.state.stackCommands c)) := by
  refine ⟨run_queue M h, ?_, fun _ _ _ => processCommands_drained M calls fuel, ?_⟩
  · intro x hx
    have hwp := (notEmptyOutline M calls).triple fuel rounds s trivial
    exact (Discipline.wp_run h hwp (fun _ _ => trivial)).1 .removeFirst x hx
  · intro m hm c _
    exact kept_iff (run_distinct M h hs m hm) c

end Runs

/-- Two users log in with one callback, one shortly after the other. -/
def aliceLogin : SyncCommand := .scLogin 0 (some "/app/Settings/login_callback") "alice" "secret"

def bobLogin : SyncCommand := .scLogin 0 (some "/app/Settings/login_callback") "bob" "hunter2"

def sampleThread : ThreadState EngineState :=
  startThread (smallWorld .empty .empty acceptAll) (fun _ => ⟨true, false, true, ""⟩) 0

/-- The thread after the login of the first user has been queued. -/
def aliceQueued : ThreadState EngineState := { sampleThread with stackCommands := [aliceLogin] }

/-- The login of the second user is dropped, though nothing queued has its effect. -/
theorem login_not_kept : ∃ ms q t,
    Run (threadStep engineModel) (otherStep engineModel)
      (run engineModel (engineCalls 1 smallConfig 2000) 1 1) sampleThread ms q t ∧
    ∃ m ∈ ms, added m = some bobLogin ∧ accepted m = [] ∧
      ¬ Kept m.state.stackCommands bobLogin := by
  refine ⟨[.env (.addSyncCommand aliceLogin) sampleThread,
    .env (.addSyncCommand bobLogin) aliceQueued],
    _, aliceQueued, Run.env rfl (Run.env rfl (Run.nil _ _)),
      .env (.addSyncCommand bobLogin) aliceQueued,
    by simp, rfl, rfl, ?_⟩
  rintro (hadd | ⟨d, hd, hsame⟩)
  · exact absurd hadd (by decide)
  · rw [show d = aliceLogin from List.mem_singleton.mp hd] at hsame
    exact absurd hsame.2.1 (by decide)

/-- A login and a sync are both kept, in their order. -/
theorem commands_kept_iff_login_then_sync :
    Distinct sampleThread.stackCommands ∧
    ∃ (ms : List (ThreadMove EngineStmt EngineState EngineAction)) (t : ThreadState EngineState),
      ms.flatMap accepted = [aliceLogin, .scSyncAll] ∧
      ([] ++ ms.flatMap accepted = ms.flatMap taken ++ t.stackCommands ∧
      ∀ m ∈ ms, ∀ c, added m = some c →
        (Kept m.state.stackCommands c ↔ ToldApart m.state.stackCommands c)) := by
  have hdistinct : Distinct sampleThread.stackCommands := List.Pairwise.nil
  have hrun : Run (threadStep engineModel) (otherStep engineModel)
      (run engineModel (engineCalls 1 smallConfig 2000) 1 1) sampleThread
      [.env (.addSyncCommand aliceLogin) sampleThread,
        .env (.addSyncCommand .scSyncAll) aliceQueued]
      _ { sampleThread with stackCommands := [aliceLogin, .scSyncAll] } :=
    Run.env rfl (Run.env rfl (Run.nil _ _))
  obtain ⟨hqueue, -, -, hkept⟩ := commands_kept_iff engineModel (engineCalls 1 smallConfig 2000) 1 1
    hdistinct hrun
  exact ⟨hdistinct, _, _, rfl, hqueue, hkept⟩

end Rhodes.CommandQueue
