import Rhodes.EngineThread
import Rhodes.RunLoop
import Rhodes.StateWrites
import Rhodes.Sessions

/-!
Is esExit final? The end of every sync writes esNone, and a stopSync of another thread
that has tested the state before writes esStop, so an exitSync that comes at such a
moment is undone; one that comes while commands are waiting in processCommands does not
keep them from being started. `ExitsSafely` excludes these moments and nothing else, and
then esExit stays and no further command is started.
-/
namespace Rhodes.ExitFinal

open Database Statements Interleaving Source SyncEngine SyncThread RunLoop EngineThread Threads
  StateWrites Rhom Sessions

abbrev EngineMove := ThreadMove EngineStmt EngineState EngineAction

def Exited (s : ThreadState EngineState) : Prop := s.engine.world.syncState = .esExit

/-- No other thread is about to set esStop, and the sync thread is outside of
processCommands, or between its commands or in one that sets no state, with nothing
queued. -/
def SafeToExit (s : ThreadState EngineState) : Prop :=
  s.stopping = 0 ∧ (s.phase = .idle ∨
    s.stackCommands = [] ∧ (s.phase = .draining ∨ s.phase = .polling ∧ s.pollInterval = 0))

/-- exitSync is called at a safe moment, and until the thread is back in run no command is
added after it and the poll interval is not set for a scNone. -/
def ExitsSafely : EngineMove → Prop
  | .env .exitSync s => SafeToExit s
  | .env (.addSyncCommand _) s => Exited s → s.phase = .idle
  | .env (.setPollInterval n) s => Exited s → s.phase = .polling → n = 0
  | _ => True

/-- What keeps an exit final. -/
def ExitSafe (s : ThreadState EngineState) : Prop := Exited s → SafeToExit s

theorem ExitSafe.not_exited {s : ThreadState EngineState} (h : ExitSafe s)
    (hphase : s.phase = .syncing ∨ s.phase = .entering ∨
      (s.phase = .draining ∧ s.stackCommands ≠ [])) : ¬ Exited s := by
  intro hexit
  obtain ⟨-, hsafe⟩ := h hexit
  rcases hphase with hphase | hphase | ⟨hphase, hfull⟩ <;> simp_all

theorem engineEnv_syncState {u : EngineAction} {e e' : EngineState} (h : engineEnv u e = some e') :
    e'.world.syncState = e.world.syncState := by
  cases u with
  | setStopByUser =>
    cases h
    rfl
  | ui u =>
    simp only [engineEnv] at h
    split at h
    · cases h
    · rename_i hstops
      obtain ⟨w, hw, rfl⟩ := Option.map_eq_some_iff.mp h
      exact uiStep_syncState u e.world w (by simpa using hstops) hw

/-- What a safe action of another thread leaves. -/
theorem otherStep_exitSafe {u : OtherAction EngineAction} {s s' : ThreadState EngineState}
    (h : otherStep engineModel u s = some s') (hok : ExitsSafely (.env u s)) (hs : ExitSafe s) :
    ExitSafe s' ∧ s'.phase = s.phase ∧ (Exited s → Exited s') := by
  cases u with
  | engine u =>
    obtain ⟨e, he, rfl⟩ := Option.map_eq_some_iff.mp h
    have hstate := engineEnv_syncState he
    refine ⟨fun hexit => hs (hstate.symm.trans hexit), rfl, fun hexit => hstate.trans hexit⟩
  | addSyncCommand c =>
    cases h
    exact ⟨fun hexit => ⟨(hs hexit).1, Or.inl (hok hexit)⟩, rfl, id⟩
  | setPollInterval n =>
    cases h
    refine ⟨fun hexit => ⟨(hs hexit).1, ?_⟩, rfl, id⟩
    rcases (hs hexit).2 with hidle | ⟨hempty, hdraining | ⟨hpolling, -⟩⟩
    · exact Or.inl hidle
    · exact Or.inr ⟨hempty, Or.inl hdraining⟩
    · exact Or.inr ⟨hempty, Or.inr ⟨hpolling, hok hexit hpolling⟩⟩
  | testStop =>
    by_cases hgo : (engineModel.getState s.engine).isContinueSync = true
    · simp only [otherStep, if_pos hgo] at h
      cases h
      have hnot : ¬ Exited s := by
        intro hexit
        rw [show engineModel.getState s.engine = .esExit from hexit] at hgo
        cases hgo
      exact ⟨fun hexit => absurd hexit hnot, rfl, id⟩
    · simp only [otherStep, if_neg hgo] at h
      cases h
      exact ⟨hs, rfl, id⟩
  | setStop =>
    simp only [otherStep] at h
    split at h
    · cases h
    · rename_i hpending
      cases h
      refine ⟨fun hexit => ?_, rfl, fun hexit => absurd (hs hexit).1 hpending⟩
      exact absurd (show SyncState.esStop = .esExit from hexit) (by decide)
  | exitSync =>
    cases h
    exact ⟨fun _ => hok, rfl, fun _ => rfl⟩

/-- The statement starts a command. -/
def Starts : ThreadStmt EngineStmt → Prop
  | .removeFirst => True
  | _ => False

/-- The statement does not undo an exit, and starts no command after it. -/
def KeepsExit (i : ThreadStmt EngineStmt) (s : ThreadState EngineState) : Prop :=
  ExitSafe (threadStep engineModel i s) ∧
    (Exited s → Exited (threadStep engineModel i s) ∧ ¬ Starts i)

theorem keepsExit_of_not_exited {i : ThreadStmt EngineStmt} {s : ThreadState EngineState}
    (hs : ¬ Exited s) (h : ¬ Exited (threadStep engineModel i s)) : KeepsExit i s :=
  ⟨fun hexit => absurd hexit h, fun hexit => absurd hexit hs⟩

abbrev exiting := threads engineModel ExitsSafely KeepsExit

theorem exitSafe_stable {P : ThreadState EngineState → Prop}
    (hP : ∀ u s s', otherStep engineModel u s = some s' → s'.phase = s.phase → P s → P s') :
    exiting.Stable (fun s => ExitSafe s ∧ P s) := by
  rintro s s' ⟨hs, hp⟩ ⟨u, hu, hok⟩
  obtain ⟨hsafe, hphase, -⟩ := otherStep_exitSafe hu hok hs
  exact ⟨hsafe, hP u s s' hu hphase hp⟩

theorem phase_stable (Q : Phase → Prop) : exiting.Stable (fun s => ExitSafe s ∧ Q s.phase) :=
  exitSafe_stable (P := fun s => Q s.phase) (fun _ _ _ _ hphase hq => hphase ▸ hq)

/-- The statements of a sync up to its last one. -/
def Commanding : Stmt → Prop
  | .setState s => s = .esStop ∨ s = .esSyncAllSources ∨ s = .esSyncSource
  | _ => True

theorem commanding_of_working {i : Stmt} (h : Working i) : Commanding i := by
  cases i with
  | setState s => exact Or.inl h
  | _ => trivial

/-- doSyncAllSources up to its last statement. -/
def syncAllBody (fuel : Nat) (config : Config) (pageSize : Int) : Sync Unit := do
  execute (.setState .esSyncAllSources)
  execute .clearStopByUser
  let sources ← loadAllSources config
  let session ← loadSession
  syncLoaded fuel config pageSize sources session

theorem doSyncAllSources_eq (fuel : Nat) (config : Config) (pageSize : Int) :
    doSyncAllSources fuel config pageSize =
      (syncAllBody fuel config pageSize).bind (fun _ => execute (.setState .esNone)) := by
  simp only [doSyncAllSources, syncAllBody, Prog.bind_eq, Prog.bind_assoc]

theorem syncAllBody_commanding (fuel : Nat) (config : Config) (pageSize : Int) :
    (syncAllBody fuel config pageSize).Only Commanding := by
  apply Prog.Only.bind (execute_only (Or.inr (Or.inl rfl)))
  intro _
  apply Prog.Only.bind (execute_only trivial)
  intro _
  apply Prog.Only.bind (Prog.Only.perform trivial _)
  intro sources
  apply Prog.Only.bind (query_only trivial _)
  exact fun session => (syncLoaded_working _ _ _ _ _).mono (fun _ => commanding_of_working)

/-- doSyncSource up to its last statement. -/
def syncOneBody (fuel : Nat) (config : Config) (pageSize : Int) (c : SourceCommand) :
    Sync Unit := do
  execute (.setState .esSyncSource)
  execute .clearStopByUser
  let sources ← loadAllSources config
  syncOneSource fuel config pageSize sources c (findSource sources c)
  notify .cleanCreateObjectErrors

theorem doSyncSource_eq (fuel : Nat) (config : Config) (pageSize : Int) (c : SourceCommand) :
    doSyncSource fuel config pageSize c =
      (syncOneBody fuel config pageSize c).bind (fun _ => execute (.setState .esNone)) := by
  simp only [doSyncSource, syncOneBody, Prog.bind_eq, Prog.bind_assoc]

theorem syncOneBody_commanding (fuel : Nat) (config : Config) (pageSize : Int)
    (c : SourceCommand) : (syncOneBody fuel config pageSize c).Only Commanding := by
  apply Prog.Only.bind (execute_only (Or.inr (Or.inr rfl)))
  intro _
  apply Prog.Only.bind (execute_only trivial)
  intro _
  apply Prog.Only.bind (Prog.Only.perform trivial _)
  intro sources
  apply Prog.Only.bind
  · exact (syncOneSource_working _ _ _ _ _ _).mono (fun _ => commanding_of_working)
  · exact fun _ => execute_only trivial

/-- The statements of a command that set no state. -/
def Stateless : EngineStmt → Prop
  | .sync (.setState _) => False
  | _ => True

theorem callLoginCallback_stateless (callback : String) (errCode : ErrCode) (message : String) :
    (callLoginCallback callback errCode message).Only Stateless := Prog.Only.perform trivial _

theorem login_stateless (config : Config) (name password callback : String) :
    (login config name password callback).Only Stateless := by
  have hload : (loadAllSources config).Only (fun i => Stateless (.sync i)) :=
    Prog.Only.perform trivial _
  refine Prog.Only.bind (hload.embed EngineState.world (fun _ hi => hi)) ?_
  intro sources
  refine Prog.Only.ite ?_ (callLoginCallback_stateless _ _ _)
  apply Prog.Only.bind (Prog.Only.perform trivial _)
  intro resp
  refine Prog.Only.ite (callLoginCallback_stateless _ _ _)
    (Prog.Only.ite (callLoginCallback_stateless _ _ _)
      (Prog.Only.ite (callLoginCallback_stateless _ _ _) ?_))
  exact Prog.Only.bind (Prog.Only.perform trivial _) (fun _ => callLoginCallback_stateless _ _ _)

/-- A statement of the engine that sets no state leaves an exit as it is. -/
theorem stateless_keepsExit {i : EngineStmt} (hi : Stateless i) {s : ThreadState EngineState}
    (hs : ExitSafe s) : KeepsExit (.engine i) s ∧
      (threadStep engineModel (.engine i) s).phase = s.phase := by
  have hstate : (engineStep i s.engine).world.syncState = s.engine.world.syncState := by
    cases i with
    | sync j =>
      show (step j s.engine.world).syncState = _
      rw [step_syncState]
      cases j <;> first | rfl | exact hi.elim
    | _ => rfl
  have hphase : (threadStep engineModel (.engine i) s).phase = s.phase := by
    cases i with
    | sync j => cases j <;> first | rfl | exact hi.elim
    | _ => rfl
  refine ⟨⟨fun hexit => ?_, fun hexit => ⟨hstate.trans hexit, id⟩⟩, hphase⟩
  obtain ⟨hstop, hwhere⟩ := hs (hstate.symm.trans hexit)
  exact ⟨hstop, by rw [hphase]; exact hwhere⟩

/-- A statement of a sync, which runs only while nobody has called exitSync. -/
theorem commanding_keepsExit {i : Stmt} (hi : Commanding i) {s : ThreadState EngineState}
    (hs : ExitSafe s ∧ s.phase = .syncing) :
    KeepsExit (.engine (.sync i)) s ∧ ExitSafe (threadStep engineModel (.engine (.sync i)) s) ∧
      (threadStep engineModel (.engine (.sync i)) s).phase = .syncing := by
  have hnot := hs.1.not_exited (Or.inl hs.2)
  by_cases hset : ∃ state, i = .setState state
  · obtain ⟨state, rfl⟩ := hset
    have hafter : ¬ Exited (threadStep engineModel (.engine (.sync (.setState state))) s) := by
      intro hexit
      rw [show state = .esExit from hexit] at hi
      simp [Commanding] at hi
    refine ⟨keepsExit_of_not_exited hnot hafter, fun hexit => absurd hexit hafter, ?_⟩
    rcases hi with rfl | rfl | rfl <;> exact hs.2
  · have hstateless : Stateless (.sync i) := by
      cases i <;> first | trivial | exact absurd ⟨_, rfl⟩ hset
    obtain ⟨hkeeps, hphase⟩ := stateless_keepsExit hstateless hs.1
    exact ⟨hkeeps, hkeeps.1, hphase.trans hs.2⟩

theorem engineCall_returned (p : Sync Unit) (q : Sync Unit) :
    engineCall (returned (syncCall (p.bind (fun _ => q)))) =
      (engineCall (syncCall p)).bind (fun _ => (engineCall (syncCall q)).bind
        (fun _ => .ret true)) := by
  simp only [engineCall, returned, syncCall, Prog.embed_bind, Prog.bind_assoc, Prog.embed]

/-- A sync runs in its phase and ends in that of the loop. -/
theorem syncCall_triple {p : Sync Unit} (hp : p.Only Commanding) :
    exiting.Triple (fun s => ExitSafe s ∧ s.phase = .syncing)
      (engineCall (returned (syncCall (p.bind (fun _ => execute (.setState .esNone))))))
      (fun returned s => returned = true ∧ ExitSafe s ∧ s.phase = .draining) := by
  have hsyncing := phase_stable (fun phase => phase = .syncing)
  have hdraining := phase_stable (fun phase => phase = .draining)
  have hbody : exiting.Triple (fun s => ExitSafe s ∧ s.phase = .syncing)
      (engineCall (syncCall p)) (fun _ s => ExitSafe s ∧ s.phase = .syncing) := by
    apply Discipline.Triple.only (L := fun i => ∃ j, i = .engine (.sync j) ∧ Commanding j) hsyncing
    · rintro _ s ⟨j, rfl, hj⟩ hs -
      exact commanding_keepsExit hj hs
    · have hsync : (syncCall p).Only (fun i => ∃ j, i = .sync j ∧ Commanding j) :=
        hp.embed _ (fun j hj => ⟨j, rfl, hj⟩)
      apply hsync.embed
      rintro _ ⟨j, rfl, hj⟩
      exact ⟨j, rfl, hj⟩
  rw [engineCall_returned]
  apply Discipline.Triple.bind hbody
  intro _
  apply Discipline.Triple.act hsyncing
  intro s hs _
  -- The last statement of a sync writes esNone over whatever is there.
  have hnot : ¬ Exited (threadStep engineModel (.engine (.sync (.setState .esNone))) s) := by
    intro hexit
    exact absurd (show SyncState.esNone = .esExit from hexit) (by decide)
  refine ⟨keepsExit_of_not_exited (hs.1.not_exited (Or.inl hs.2)) hnot, ?_⟩
  intro s' hs'
  exact ⟨rfl, hdraining.star ⟨fun hexit => absurd hexit hnot, rfl⟩ hs'⟩

/-- A login runs in the phase of the loop. -/
theorem login_triple (config : Config) (name password callback : String) :
    exiting.Triple (fun s => ExitSafe s ∧ s.phase = .draining)
      (engineCall (returned (login config name password callback)))
      (fun _ s => ExitSafe s ∧ s.phase = .draining) := by
  apply Discipline.Triple.only (L := fun i => ∃ j, i = .engine j ∧ Stateless j)
    (phase_stable (fun phase => phase = .draining))
  · rintro _ s ⟨j, rfl, hj⟩ hs -
    obtain ⟨hkeeps, hphase⟩ := stateless_keepsExit hj hs.1
    exact ⟨hkeeps, hkeeps.1, hphase.trans hs.2⟩
  · have hreturned : (returned (login config name password callback)).Only Stateless :=
      Prog.Only.bind (login_stateless config name password callback) (fun _ => trivial)
    exact hreturned.embed _ (fun j hj => ⟨j, rfl, hj⟩)

/-- scNone reads the poll interval: a sync follows only if nobody has called exitSync. -/
theorem pollInterval_keepsExit {s : ThreadState EngineState}
    (hs : ExitSafe s ∧ s.phase = .polling) :
    KeepsExit .pollInterval s ∧ ExitSafe (threadStep engineModel .pollInterval s) ∧
      (engineModel.polls s.pollInterval = true →
        (threadStep engineModel .pollInterval s).phase = .syncing) ∧
      (engineModel.polls s.pollInterval = false →
        (threadStep engineModel .pollInterval s).phase = .draining) := by
  obtain ⟨hsafe, hphase⟩ := hs
  have hafter : ExitSafe (threadStep engineModel .pollInterval s) := by
    intro hexit
    obtain ⟨hstop, hidle | ⟨hempty, hdraining | ⟨-, hpoll⟩⟩⟩ := hsafe hexit
    · rw [hphase] at hidle
      cases hidle
    · rw [hphase] at hdraining
      cases hdraining
    · have hphase' : (threadStep engineModel .pollInterval s).phase = .draining := by
        simp [threadStep, engineModel, hpoll]
      exact ⟨hstop, Or.inr ⟨hempty, Or.inl hphase'⟩⟩
  refine ⟨⟨hafter, fun hexit => ⟨hexit, id⟩⟩, hafter, fun hpoll => ?_, fun hpoll => ?_⟩
  · show (if engineModel.polls s.pollInterval then Phase.syncing else .draining) = .syncing
    rw [if_pos hpoll]
  · show (if engineModel.polls s.pollInterval then Phase.syncing else .draining) = .draining
    rw [hpoll]
    rfl

/-- What holds between two commands. -/
def BetweenCommands (s : ThreadState EngineState) : Prop :=
  ExitSafe s ∧ (s.phase = .entering ∨ s.phase = .draining)

theorem command_triple (fuel : Nat) (config : Config) (pageSize : Int) (c : SyncCommand) :
    exiting.Triple (fun s => ExitSafe s ∧ s.phase = c.phase)
      (processCommand engineModel (engineCalls fuel config pageSize) c)
      (fun returned s => (returned = true → BetweenCommands s) ∧
        (returned = false → ExitSafe s ∧ s.phase = .idle)) := by
  have hdone : ∀ b s, b = true ∧ ExitSafe s ∧ s.phase = .draining →
      (b = true → BetweenCommands s) ∧ (b = false → ExitSafe s ∧ s.phase = .idle) := by
    rintro b s ⟨rfl, hsafe, hphase⟩
    exact ⟨fun _ => ⟨hsafe, Or.inr hphase⟩, fun hfalse => by cases hfalse⟩
  have hall := (syncCall_triple (syncAllBody_commanding fuel config pageSize)).conseq
    (fun _ hs => hs) hdone
  have hone := fun cmd => (syncCall_triple (syncOneBody_commanding fuel config pageSize cmd)).conseq
    (fun _ hs => hs) hdone
  have hskip := Discipline.Triple.conseq (D := exiting)
    (Discipline.Triple.ret (a := true) (phase_stable (fun phase => phase = .draining))
      (fun s hs => ⟨rfl, hs⟩)) (fun _ hs => hs) hdone
  simp only [← doSyncAllSources_eq] at hall
  simp only [← doSyncSource_eq] at hone
  cases c with
  | scNone =>
    apply Discipline.Triple.perform_bind
      (fun b s => ExitSafe s ∧ (b = true → s.phase = .syncing) ∧ (b = false → s.phase = .draining))
      (phase_stable (fun phase => phase = .polling))
    · rintro s hs -
      exact pollInterval_keepsExit hs
    · intro b
      cases b with
      | true => exact hall.conseq (fun _ hs => ⟨hs.1, hs.2.1 rfl⟩) (fun _ _ hs => hs)
      | false => exact hskip.conseq (fun _ hs => ⟨hs.1, hs.2.2 rfl⟩) (fun _ _ hs => hs)
  | scSyncAll => exact hall
  | scChangePollInterval => exact hskip
  | scSyncOne nCmdParam strCmdParam => exact hone _
  | scSearchOne sourceId params strFrom syncChanges progressStep => exact hone _
  | scLogin nCmdParam callback name password =>
    have hreturns : (engineCall (returned (login config name password (callback.getD "")))
        : Thread EngineStmt EngineState Bool).Returns (fun b => b = true) :=
      Prog.Returns.embed _ _ (Prog.Returns.ret_bind (fun _ => rfl))
    exact ((login_triple config name password _).returns hreturns).conseq (fun _ hs => hs)
      (fun b s hs => hdone b s ⟨hs.2, hs.1⟩)

theorem keepsExit_same {i : ThreadStmt EngineStmt} {s : ThreadState EngineState} (hi : ¬ Starts i)
    (hstep : threadStep engineModel i s = s) (hs : ExitSafe s) : KeepsExit i s := by
  unfold KeepsExit
  rw [hstep]
  exact ⟨hs, fun hexit => ⟨hexit, hi⟩⟩

/-- The assertions at the points of run. -/
def exitOutline (fuel : Nat) (config : Config) (pageSize : Int) :
    RunOutline engineModel (engineCalls fuel config pageSize) ExitsSafely KeepsExit where
  idle := fun s => ExitSafe s ∧ s.phase = .idle
  entered := fun s => ExitSafe s ∧ s.phase = .entering
  bare := fun s => ExitSafe s ∧ s.phase = .entering
  draining := BetweenCommands
  filled := fun s => ExitSafe s ∧ (s.phase = .entering ∨ s.phase = .draining) ∧ s.stackCommands ≠ []
  running := fun c s => ExitSafe s ∧ s.phase = c.phase
  idle_stable := phase_stable (fun phase => phase = .idle)
  entered_stable := phase_stable (fun phase => phase = .entering)
  bare_stable := phase_stable (fun phase => phase = .entering)
  draining_stable := phase_stable (fun phase => phase = .entering ∨ phase = .draining)
  filled_stable := by
    apply exitSafe_stable
    rintro u s s' hu hphase ⟨hwhere, hfull⟩
    refine ⟨hphase ▸ hwhere, ?_⟩
    rw [otherStep_stackCommands engineModel hu]
    cases u with
    | addSyncCommand c =>
      show SyncThread.addSyncCommand s.stackCommands c ≠ []
      unfold SyncThread.addSyncCommand
      split
      · exact hfull
      · simp
    | _ => exact hfull
  getState := fun _ hs _ => keepsExit_same id rfl hs.1
  wait := fun _ hs _ => keepsExit_same id rfl hs.1
  isNoCommands := fun _ hs _ => keepsExit_same id rfl hs.1
  enter := by
    rintro s ⟨hsafe, hphase⟩ -
    by_cases hexit : s.engine.world.syncState = .esExit
    · have hstep : threadStep engineModel .enter s = s := by
        simp [threadStep, engineModel, hexit, ← hphase]
      rw [hstep]
      exact ⟨keepsExit_same id hstep hsafe, fun hgo => absurd hexit hgo, fun _ => ⟨hsafe, hphase⟩⟩
    · refine ⟨keepsExit_of_not_exited hexit hexit, fun _ => ⟨fun h => absurd h hexit, ?_⟩,
        fun h => absurd h hexit⟩
      show (if s.engine.world.syncState = .esExit then Phase.idle else .entering) = .entering
      rw [if_neg hexit]
  first := fun _ hs _ => ⟨keepsExit_same id rfl hs.1, fun _ => hs, fun _ => ⟨hs.1, Or.inl hs.2⟩⟩
  addNone := by
    rintro s ⟨hsafe, hphase⟩ -
    have hnot := hsafe.not_exited (Or.inr (Or.inl hphase))
    exact ⟨keepsExit_of_not_exited hnot hnot, fun hexit => absurd hexit hnot, Or.inl hphase⟩
  loop := by
    rintro s ⟨hsafe, hwhere⟩ -
    by_cases hempty : s.stackCommands = []
    · have hphase : (threadStep engineModel .isNoCommandsLoop s).phase = .idle := if_pos hempty
      have hafter : ExitSafe (threadStep engineModel .isNoCommandsLoop s) :=
        fun hexit => ⟨(hsafe hexit).1, Or.inl hphase⟩
      exact ⟨⟨hafter, fun hexit => ⟨hexit, id⟩⟩, fun _ => ⟨hafter, hphase⟩,
        fun hfull => absurd hempty hfull⟩
    · have hstep : threadStep engineModel .isNoCommandsLoop s = s := by
        simp [threadStep, hempty]
      rw [hstep]
      exact ⟨keepsExit_same id hstep hsafe, fun h => absurd h hempty, fun h => ⟨hsafe, hwhere, h⟩⟩
  take := by
    rintro s ⟨hsafe, hwhere, hfull⟩ -
    have hnot : ¬ Exited s := by
      rcases hwhere with hphase | hphase
      · exact hsafe.not_exited (Or.inr (Or.inl hphase))
      · exact hsafe.not_exited (Or.inr (Or.inr ⟨hphase, hfull⟩))
    refine ⟨keepsExit_of_not_exited hnot hnot, fun c hc => ⟨fun hexit => absurd hexit hnot, ?_⟩⟩
    simp [threadStep, hc]
  command := command_triple fuel config pageSize

/-- Where exitSync is called at safe moments only, esExit stays and no command is started
after it. -/
theorem exit_final (fuel drains rounds : Nat) (config : Config) (pageSize : Int)
    {s t : ThreadState EngineState} {q : Thread EngineStmt EngineState Unit} {ms : List EngineMove}
    (hidle : s.phase = .idle) (hstopping : s.stopping = 0)
    (hrun : Run (threadStep engineModel) (otherStep engineModel)
      (run engineModel (engineCalls fuel config pageSize) drains rounds) s ms q t)
    (hsafely : ∀ m ∈ ms, ExitsSafely m) :
    (ms.map Move.state ++ [t]).Pairwise (fun x y => Exited x → Exited y) ∧
      ∀ x, Move.own .removeFirst x ∈ ms → ¬ Exited x := by
  have hs : ExitSafe s := fun _ => ⟨hstopping, Or.inl hidle⟩
  have hwp := (exitOutline fuel config pageSize).triple drains rounds s ⟨hs, hidle⟩
  obtain ⟨hkeeps, -⟩ := Discipline.wp_run hrun hwp hsafely
  have hinv := (Run.invariant_of_moves hrun hs (fun i x hx _ => (hkeeps i x hx).1)
    (fun u x x' hx hu hsafe => (otherStep_exitSafe hu (hsafely _ hx) hsafe).1)).1
  constructor
  · refine (Run.pairwise_of_moves (R := fun x y => Exited x → Exited y) (fun _ h => h)
      (fun _ _ _ h h' => h' ∘ h) hrun ?_ ?_).1
    · exact fun i x hx hexit => ((hkeeps i x hx).2 hexit).1
    · intro u x x' hx hu
      exact (otherStep_exitSafe hu (hsafely _ hx) (hinv _ hx)).2.2
  · exact fun x hx hexit => ((hkeeps .removeFirst x hx).2 hexit).2 trivial

/-- A thread without a poll interval, on an installation where nobody is logged in. -/
def freshThread : ThreadState EngineState :=
  startThread (World.start .empty .empty
    ⟨[⟨1, some "http://sync/Contact", some "Contact", some 5, none⟩], by decide⟩ acceptAll)
    (fun _ => ⟨true, false, true, ""⟩) 0

/-- A sync is requested and starts; exitSync is called in it; the sync comes to its end. -/
def exitInSync : List (Option (OtherAction EngineAction)) :=
  some (.addSyncCommand .scSyncAll) :: List.replicate 8 none ++ some .exitSync ::
    List.replicate 5 none

def isExited (s : ThreadState EngineState) : Bool := s.engine.world.syncState = .esExit

/-- The end of a sync puts esNone in the place of esExit. -/
theorem exit_undone : ∃ ms q t,
    Run (threadStep engineModel) (otherStep engineModel)
      (run engineModel (engineCalls 1 smallConfig 2000) 3 3) freshThread ms q t ∧
    ¬ (ms.map Move.state ++ [t]).Pairwise (fun x y => Exited x → Exited y) := by
  obtain ⟨ms, q, t, hrun, hcheck⟩ := exists_run_of_play (threadStep engineModel)
    (otherStep engineModel) exitInSync (run engineModel (engineCalls 1 smallConfig 2000) 3 3)
    freshThread (fun r => r.1.any (fun m => isExited m.state) && !isExited r.2.2)
    (by decide +kernel)
  refine ⟨ms, q, t, hrun, fun hpair => ?_⟩
  simp only [Bool.and_eq_true, List.any_eq_true, Bool.not_eq_true', isExited, decide_eq_true_eq,
    decide_eq_false_iff_not] at hcheck
  obtain ⟨⟨m, hm, hexit⟩, hend⟩ := hcheck
  have hlast := (List.pairwise_append.mp hpair).2.2 m.state (List.mem_map_of_mem hm) t (by simp)
  exact hend (hlast hexit)

/-- The thread once exitSync has been called before its first test. -/
def exitedThread : ThreadState EngineState :=
  { freshThread with engine := engineModel.setState .esExit freshThread.engine }

/-- exitSync outside of processCommands ends the loop. -/
theorem exit_final_outside : ∃ ms : List EngineMove,
    (freshThread.phase = .idle ∧ freshThread.stopping = 0 ∧ (∀ m ∈ ms, ExitsSafely m)) ∧
    Exited exitedThread ∧
    ((ms.map Move.state ++ [exitedThread]).Pairwise (fun x y => Exited x → Exited y) ∧
      ∀ x, Move.own .removeFirst x ∈ ms → ¬ Exited x) := by
  have hrun : Run (threadStep engineModel) (otherStep engineModel)
      (run engineModel (engineCalls 1 smallConfig 2000) 1 1) freshThread
      [.env .exitSync freshThread, .own .getState exitedThread] (.ret ()) exitedThread :=
    Run.env rfl (Run.own (Run.nil _ _))
  have hsafely : ∀ m ∈ [Move.env .exitSync freshThread, .own .getState exitedThread],
      ExitsSafely m := by
    intro m hm
    simp only [List.mem_cons, List.not_mem_nil, or_false] at hm
    rcases hm with rfl | rfl
    · exact ⟨rfl, Or.inl rfl⟩
    · trivial
  exact ⟨_, ⟨rfl, rfl, hsafely⟩, rfl, exit_final 1 1 1 smallConfig 2000 rfl rfl hrun hsafely⟩

end Rhodes.ExitFinal
