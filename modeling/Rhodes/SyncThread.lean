import Rhodes.Interleaving
import Rhodes.SyncEngine

/-!
CSyncThread of syncthread.cpp and SyncThread.java: the queue of commands, run and
processCommands. What a command does to the engine is a program over the engine's
own statements and state, which the two ports fill in differently; the thread
around it is the same. `phase` only records where the thread stands, and `stopping`
counts the calls of stopSync in other threads that have tested the state and not yet
set it.
-/
namespace Rhodes.SyncThread

open Statements Interleaving SyncEngine

/-- ESyncCommands, as far as a command of that code is ever built. -/
inductive CommandCode where
  | scNone
  | scSyncAll
  | scSyncOne
  | scChangePollInterval
  | scLogin
  | scSearchOne
  deriving DecidableEq

/-- A CSyncCommand, CSyncLoginCommand or CSyncSearchCommand with all of its fields.
The constructor with a text alone leaves m_nCmdParam as the memory was (Java: 0); the
one with a number alone leaves the text empty (Java: null). -/
inductive SyncCommand where
  | scNone
  | scSyncAll
  | scChangePollInterval
  | scSyncOne (nCmdParam : Int) (strCmdParam : Option String)
  | scLogin (nCmdParam : Int) (callback : Option String) (name password : String)
  | scSearchOne (sourceId : Int) (params : Option String) (strFrom : String)
      (syncChanges : Bool) (progressStep : Int)
  deriving DecidableEq

namespace SyncCommand

def nCmdCode : SyncCommand → CommandCode
  | scNone => .scNone
  | scSyncAll => .scSyncAll
  | scChangePollInterval => .scChangePollInterval
  | scSyncOne _ _ => .scSyncOne
  | scLogin _ _ _ _ => .scLogin
  | scSearchOne _ _ _ _ _ => .scSearchOne

def nCmdParam : SyncCommand → Int
  | scSyncOne n _ => n
  | scLogin n _ _ _ => n
  | scSearchOne n _ _ _ _ => n
  | _ => 0

def strCmdParam : SyncCommand → Option String
  | scSyncOne _ s => s
  | scLogin _ s _ _ => s
  | scSearchOne _ s _ _ _ => s
  | _ => some ""

/-- The fields of the base class are compared, and no other. -/
def equals (c d : SyncCommand) : Bool :=
  c.nCmdCode = d.nCmdCode && c.nCmdParam = d.nCmdParam && c.strCmdParam = d.strCmdParam

end SyncCommand

/-- The queue after addSyncCommand, which holds its lock throughout. -/
def addSyncCommand (queue : List SyncCommand) (c : SyncCommand) : List SyncCommand :=
  if queue.any (fun d => d.equals c) then queue else queue ++ [c]

/-- Where the sync thread stands: outside of processCommands, past the last test of the
state before it, between its commands or in one that sets no state, about to read the
poll interval for scNone, or in a command that syncs. -/
inductive Phase where
  | idle
  | entering
  | draining
  | polling
  | syncing
  deriving DecidableEq

/-- The phase that a command starts in. -/
def SyncCommand.phase : SyncCommand → Phase
  | .scNone => .polling
  | .scSyncAll => .syncing
  | .scChangePollInterval => .draining
  | .scSyncOne _ _ => .syncing
  | .scLogin _ _ _ _ => .draining
  | .scSearchOne _ _ _ _ _ => .syncing

/-- An engine as its thread sees it: its statements, what other threads do to it, its
state, and the intervals with which scNone syncs. `ends` holds of the statement that is
the last of every sync. -/
structure EngineModel (ι σ υ : Type) where
  step : ι → σ → σ
  env : υ → σ → Option σ
  getState : σ → SyncState
  setState : SyncState → σ → σ
  polls : Int → Bool
  ends : ι → Bool

/-- The calls that processCommand makes; the result is `false` where one throws, as it
may in Java. -/
structure EngineCalls (ι σ : Type) where
  doSyncAllSources : Prog ι σ Bool
  doSyncSource : SourceCommand → Prog ι σ Bool
  login : String → String → String → Prog ι σ Bool

structure ThreadState (σ : Type) where
  engine : σ
  stackCommands : List SyncCommand
  pollInterval : Int
  stopping : Nat
  phase : Phase

/-- The statements of the sync thread. isNoCommands stands in run, at the start of
processCommands and in its loop. -/
inductive ThreadStmt (ι : Type) where
  | engine (i : ι)
  | getState
  | enter
  | wait
  | isNoCommands
  | isNoCommandsFirst
  | isNoCommandsLoop
  | addSyncCommand (c : SyncCommand)
  | removeFirst
  | pollInterval

/-- What other threads do: the engine's own environment, calls of addSyncCommand and
setPollInterval, the two steps of stopSync, and exitSync. -/
inductive OtherAction (υ : Type) where
  | engine (u : υ)
  | addSyncCommand (c : SyncCommand)
  | setPollInterval (n : Int)
  | testStop
  | setStop
  | exitSync

section Thread

variable {ι σ υ : Type} (M : EngineModel ι σ υ)

def threadStep : ThreadStmt ι → ThreadState σ → ThreadState σ
  | .engine i, s =>
      { s with engine := M.step i s.engine, phase := if M.ends i then .draining else s.phase }
  | .getState, s => s
  | .enter, s => { s with phase := if M.getState s.engine = .esExit then .idle else .entering }
  | .wait, s => s
  | .isNoCommands, s => s
  | .isNoCommandsFirst, s => s
  | .isNoCommandsLoop, s => { s with phase := if s.stackCommands = [] then .idle else s.phase }
  | .addSyncCommand c, s => { s with stackCommands := addSyncCommand s.stackCommands c }
  | .removeFirst, s =>
      { s with
        stackCommands := s.stackCommands.tail
        phase := (s.stackCommands.head?.map SyncCommand.phase).getD s.phase }
  | .pollInterval, s =>
      { s with phase := if M.polls s.pollInterval then .syncing else .draining }

def otherStep : OtherAction υ → ThreadState σ → Option (ThreadState σ)
  | .engine u, s => (M.env u s.engine).map (fun e => { s with engine := e })
  | .addSyncCommand c, s => some { s with stackCommands := addSyncCommand s.stackCommands c }
  | .setPollInterval n, s => some { s with pollInterval := n }
  | .testStop, s =>
      some (if (M.getState s.engine).isContinueSync then { s with stopping := s.stopping + 1 } else s)
  | .setStop, s =>
      if s.stopping = 0 then none
      else some { s with engine := M.setState .esStop s.engine, stopping := s.stopping - 1 }
  | .exitSync, s => some { s with engine := M.setState .esExit s.engine }

/-- Of the actions of other threads only a call of addSyncCommand changes the queue. -/
theorem otherStep_stackCommands {u : OtherAction υ} {s s' : ThreadState σ}
    (h : otherStep M u s = some s') :
    s'.stackCommands = match u with
      | .addSyncCommand c => addSyncCommand s.stackCommands c
      | _ => s.stackCommands := by
  cases u with
  | engine u =>
    obtain ⟨e, -, rfl⟩ := Option.map_eq_some_iff.mp h
    rfl
  | addSyncCommand c =>
    cases h
    rfl
  | setPollInterval n =>
    cases h
    rfl
  | testStop =>
    cases h
    dsimp only
    split <;> rfl
  | setStop =>
    simp only [otherStep] at h
    split at h
    · cases h
    · cases h
      rfl
  | exitSync =>
    cases h
    rfl

abbrev Thread (ι σ α : Type) := Prog (ThreadStmt ι) (ThreadState σ) α

def engineCall {α : Type} (p : Prog ι σ α) : Thread ι σ α := p.embed .engine ThreadState.engine

/-- `getState() != esExit` -/
def notExit (i : ThreadStmt ι) : Thread ι σ Bool :=
  Prog.perform i (fun s => M.getState s.engine ≠ .esExit)

def isNoCommands (i : ThreadStmt ι) : Thread ι σ Bool :=
  Prog.perform i (fun s => s.stackCommands.isEmpty)

def processCommand (calls : EngineCalls ι σ) : SyncCommand → Thread ι σ Bool
  | .scNone => do
      let polls ← Prog.perform .pollInterval (fun s => M.polls s.pollInterval)
      if polls then engineCall calls.doSyncAllSources else pure true
  | .scSyncAll => engineCall calls.doSyncAllSources
  | .scChangePollInterval => pure true
  | .scSyncOne nCmdParam strCmdParam =>
      engineCall (calls.doSyncSource { srcId := nCmdParam, srcUrl := strCmdParam.getD "" })
  | .scSearchOne sourceId params strFrom syncChanges progressStep =>
      engineCall (calls.doSyncSource
        { srcId := sourceId, params := params.getD "", action := strFrom,
          searchSyncChanges := syncChanges, progressStep })
  | .scLogin _ callback name password => engineCall (calls.login name password (callback.getD ""))

/-- How processCommands ends: with an empty queue, with an exception of a command, or cut
off by the model (which is also said where removeFirst finds nothing). -/
inductive Outcome where
  | done
  | thrown
  | cut
  deriving DecidableEq

/-- The loop of processCommands, cut after `fuel` rounds. -/
def processLoop (calls : EngineCalls ι σ) : Nat → Thread ι σ Outcome
  | 0 => pure .cut
  | fuel + 1 => do
      if ← isNoCommands .isNoCommandsLoop then pure .done
      else
        match ← Prog.perform .removeFirst (fun s => s.stackCommands.head?) with
        | some c =>
            if ← processCommand M calls c then processLoop calls fuel else pure .thrown
        | none => pure .cut

def processCommands (calls : EngineCalls ι σ) (fuel : Nat) : Thread ι σ Outcome := do
  if ← isNoCommands .isNoCommandsFirst then
    Prog.perform (.addSyncCommand .scNone) (fun _ => ())
    processLoop M calls fuel
  else processLoop M calls fuel

/-- The wait of run, when there is nothing to do. -/
def waitForCommands : Thread ι σ Unit := do
  if ← notExit M .getState then
    if ← isNoCommands .isNoCommands then Prog.perform .wait (fun _ => ()) else pure ()
  else pure ()

/-- The loop of run, cut after `rounds` rounds. -/
def run (calls : EngineCalls ι σ) (fuel : Nat) : Nat → Thread ι σ Unit
  | 0 => pure ()
  | rounds + 1 => do
      if ← notExit M .getState then
        waitForCommands M
        if ← notExit M .enter then
          let outcome ← processCommands M calls fuel
          if outcome = .cut then pure () else run calls fuel rounds
        else run calls fuel rounds
      else pure ()

end Thread

end Rhodes.SyncThread
