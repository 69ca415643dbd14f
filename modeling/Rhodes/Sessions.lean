import Rhodes.PullRules
import Rhodes.SyncEngine

/-!
How a property of whole runs of commands is put together. The engine itself
executes `Calm` statements around the sync of each source, so what sync keeps is
kept over any number of commands; and sync keeps what pulling, pushing and taking
the question off the queue keep. A push starts only when no create of its source
is pending, and its invariant may rely on that.
-/
namespace Rhodes.Sessions

open Database Json Statements Queue Interleaving Source ClientChanges ServerChanges SyncEngine Rhom
  Threads PullRules

/-- The statements of the engine itself. -/
def Calm : Stmt → Prop
  | .read => True
  | .request (.pullClient _) => True
  | .setState _ => True
  | .clearStopByUser => True
  | .loadAllSources => True
  | .saveClientId _ => True
  | .clearReset _ => True
  | .notify _ => True
  | _ => False

theorem loadClientID_calm (config : Config) : (loadClientID config).Only Calm := by
  have hsend : ∀ url, (send (.pullClient url)).Only Calm := fun url => Prog.Only.perform trivial _
  refine Prog.Only.bind (query_only trivial _) (fun info =>
    Prog.Only.ite ?_ (Prog.Only.ite ?_ trivial))
  · refine Prog.Only.bind (Prog.Only.bind (hsend _) ?_) (fun _ => ?_)
    · exact fun resp => Prog.Only.ite trivial trivial
    · exact Prog.Only.bind (execute_only trivial) (fun _ => trivial)
  · refine Prog.Only.bind (Prog.Only.bind ?_ (fun b => ?_)) (fun _ => trivial)
    · exact Prog.Only.bind (hsend _) (fun _ => trivial)
    · exact Prog.Only.ite (execute_only trivial) (stopSync_only trivial trivial)

section Invariant

variable {ok : Move Stmt World UIAction → Prop} {goal : Stmt → World → Prop} {I : World → Prop}
  {fuel : Nat}

/-- What an invariant of the engine has to be kept by. -/
structure EngineKept (fuel : Nat) (ok : Move Stmt World UIAction → Prop)
    (goal : Stmt → World → Prop) (I : World → Prop) : Prop where
  stable : (against ok goal).Stable I
  calm : ∀ i w, Calm i → I w → ok (.own i w) → goal i w ∧ I (step i w)
  sync : ∀ e this, (against ok goal).Triple I (sync fuel e this) (fun _ => I)

namespace EngineKept

theorem only (h : EngineKept fuel ok goal I) {α : Type} {p : Sync α} (hp : p.Only Calm) :
    (against ok goal).Triple I p (fun _ => I) := Discipline.Triple.only h.stable h.calm hp

theorem syncSources (h : EngineKept fuel ok goal I) (e : Engine) (bError : Bool)
    (sources : List SyncSource) :
    (against ok goal).Triple I (syncSources fuel e bError sources) (fun _ => I) := by
  induction sources generalizing bError with
  | nil => exact h.only trivial
  | cons src rest ih =>
    refine Discipline.Triple.seq (h.only (query_only trivial _)) (fun b => ?_)
    refine Discipline.Triple.ite (fun _ => ?_) (fun _ => h.only trivial)
    refine Discipline.Triple.seq ?_ (fun src => ?_)
    · refine Discipline.Triple.seq (h.only (query_only trivial _)) (fun state => ?_)
      exact Discipline.Triple.ite (fun _ => h.sync e src) (fun _ => h.only trivial)
    · exact Discipline.Triple.seq (h.only (execute_only trivial)) (fun _ => ih _)

theorem doSyncAllSources (h : EngineKept fuel ok goal I) (config : Config) (pageSize : Int) :
    (against ok goal).Triple I (doSyncAllSources fuel config pageSize) (fun _ => I) := by
  refine Discipline.Triple.seq (h.only (execute_only trivial)) (fun _ => ?_)
  refine Discipline.Triple.seq (h.only (execute_only trivial)) (fun _ => ?_)
  refine Discipline.Triple.seq (h.only (Prog.Only.perform trivial _)) (fun sources => ?_)
  refine Discipline.Triple.seq (h.only (query_only trivial _)) (fun session => ?_)
  refine Discipline.Triple.seq (Discipline.Triple.ite (fun _ => ?_) (fun _ => ?_)) ?_
  · refine Discipline.Triple.seq (h.only (loadClientID_calm _)) (fun clientId => ?_)
    refine Discipline.Triple.seq (h.only (execute_only trivial)) (fun _ => ?_)
    refine Discipline.Triple.seq (h.syncSources _ _ _) (fun bError => ?_)
    exact h.only (Prog.Only.ite (execute_only trivial) trivial)
  · cases sources[getStartSource sources]? with
    | none => exact h.only (execute_only trivial)
    | some src => exact h.only (execute_only trivial)
  · exact fun _ => h.only (execute_only trivial)

theorem syncFound (h : EngineKept fuel ok goal I) (config : Config) (pageSize : Int)
    (sources : List SyncSource) (src : SyncSource) :
    (against ok goal).Triple I (syncFound fuel config pageSize sources src) (fun _ => I) := by
  refine Discipline.Triple.seq (h.only (query_only trivial _)) (fun session => ?_)
  refine Discipline.Triple.ite (fun _ => ?_) (fun _ => h.only trivial)
  refine Discipline.Triple.seq (h.only (loadClientID_calm _)) (fun clientId => ?_)
  refine Discipline.Triple.seq (h.only (query_only trivial _)) (fun state => ?_)
  refine Discipline.Triple.ite (fun _ => ?_) (fun _ => h.only trivial)
  exact Discipline.Triple.seq (h.only (execute_only trivial)) (fun _ => h.sync _ _)

theorem doSyncSource (h : EngineKept fuel ok goal I) (config : Config) (pageSize : Int)
    (c : SourceCommand) :
    (against ok goal).Triple I (doSyncSource fuel config pageSize c) (fun _ => I) := by
  refine Discipline.Triple.seq (h.only (execute_only trivial)) (fun _ => ?_)
  refine Discipline.Triple.seq (h.only (execute_only trivial)) (fun _ => ?_)
  refine Discipline.Triple.seq (h.only (Prog.Only.perform trivial _)) (fun sources => ?_)
  refine Discipline.Triple.seq ?_ (fun _ => ?_)
  · cases findSource sources c with
    | none => exact h.only (execute_only trivial)
    | some src =>
      exact Discipline.Triple.seq (h.syncFound _ _ _ _) (fun _ => h.only (execute_only trivial))
  · exact Discipline.Triple.seq (h.only (execute_only trivial))
      (fun _ => h.only (execute_only trivial))

/-- An invariant of pulling and of pushing holds along every list of commands. -/
theorem processCommands (h : EngineKept fuel ok goal I) (config : Config) (pageSize : Int)
    (commands : List Command) :
    (against ok goal).Triple I (processCommands fuel config pageSize commands) (fun _ => I) := by
  induction commands with
  | nil => exact h.only trivial
  | cons c rest ih =>
    refine Discipline.Triple.seq ?_ (fun _ => ih)
    cases c with
    | syncAll => exact h.doSyncAllSources _ _
    | syncOne srcId srcUrl => exact h.doSyncSource _ _ _
    | searchOne srcId params action syncChanges progressStep => exact h.doSyncSource _ _ _

end EngineKept

end Invariant

section Sync

variable {ok : Move Stmt World UIAction → Prop} {goal : Stmt → World → Prop} {I : World → Prop}

/-- What an invariant of sync has to be kept by. -/
structure Kept (ok : Move Stmt World UIAction → Prop) (goal : Stmt → World → Prop)
    (I : World → Prop) : Prop extends PullKept ok goal I where
  ask : ∀ src askParams w, I w → ok (.own (.deleteAsk src askParams) w) →
    goal (.deleteAsk src askParams) w ∧ I (step (.deleteAsk src askParams) w)
  push : ∀ e this, (against ok goal).Triple (fun w => I w ∧ NotPending this.id w)
    (syncClientChanges e this) (fun _ => I)

namespace Kept

theorem getAndremoveAsk (h : Kept ok goal I) (this : SyncSource) :
    (against ok goal).Triple I (getAndremoveAsk this) (fun _ => I) := by
  refine Discipline.Triple.seq (h.toPullKept.only (Prog.Only.perform trivial _))
    (fun askParams => ?_)
  exact execute_bind h.stable (h.ask _ _) (h.toPullKept.only trivial)

theorem syncClient (h : Kept ok goal I) (fuel : Nat) (e : Engine) (this : SyncSource) :
    (against ok goal).Triple I (syncClient fuel e this) (fun _ => I) := by
  refine Discipline.Triple.bind (h.toPullKept.isPending this) (fun pending => ?_)
  refine Discipline.Triple.bind (h.toPullKept.pullPending fuel e this pending) (fun r => ?_)
  have hstable := h.toPullKept.stable_notPending r.2 r.1.id
  refine Discipline.Triple.ite (fun _ => ?_) (fun hno => ?_)
  · refine Discipline.Triple.conseq (P := I) (Q := fun _ => I) ?_ (fun _ hw => hw.1)
      (fun _ _ hw => hw)
    exact Discipline.Triple.seq (h.toPullKept.only (execute_only trivial))
      (fun _ => h.toPullKept.only trivial)
  · refine Discipline.Triple.perform_bind (fun _ w => I w ∧ (r.2 = false → NotPending r.1.id w))
      hstable (fun w hw hok => ⟨(h.quiet .read w trivial hw.1 hok).1, hw⟩) (fun b => ?_)
    refine Discipline.Triple.ite (fun _ => ?_) (fun _ => ?_)
    · refine Discipline.Triple.bind (Q := fun _ => I) ?_ (fun that => ?_)
      · exact (h.push e r.1).conseq (fun w hw => ⟨hw.1, hw.2 (by simpa using hno)⟩)
          (fun _ _ hw => hw)
      · exact Discipline.Triple.seq (h.getAndremoveAsk that) (fun _ => h.toPullKept.only trivial)
    · exact Discipline.Triple.ret hstable (fun _ hw => hw.1)

theorem sync (h : Kept ok goal I) (fuel : Nat) (e : Engine) (this : SyncSource) :
    (against ok goal).Triple I (sync fuel e this) (fun _ => I) := by
  refine Discipline.Triple.seq (h.toPullKept.only (execute_only trivial)) (fun _ => ?_)
  refine Discipline.Triple.seq
    (Discipline.Triple.ite (fun _ => h.toPullKept.only (processToken_only quiet_fetches _ _))
      (fun _ => h.toPullKept.only trivial)) ?_
  intro this
  refine Discipline.Triple.seq
    (Discipline.Triple.ite (fun _ => h.syncClient fuel e this)
      (fun _ => h.toPullKept.only trivial)) ?_
  intro r
  exact Discipline.Triple.ite (fun _ => h.toPullKept.only trivial)
    (fun _ => h.toPullKept.syncServerChanges _ _ _)

theorem engine (h : Kept ok goal I) (fuel : Nat) : EngineKept fuel ok goal I where
  stable := h.stable
  calm := by
    intro i w hcalm
    apply h.quiet i w
    cases i
    case request q => cases q <;> first | exact hcalm.elim | rfl
    all_goals trivial
  sync := h.sync fuel

end Kept

end Sync

/-- A small installation for runs on concrete data: one source with a session. -/
def smallConfig : Config := ⟨"/", "db-files", "http://sync/"⟩

def smallWorld (changed : ChangedTable) (objects : ObjectTable) (net : Nat → NetResponse) : World :=
  { World.start changed objects
      ⟨[⟨1, some "http://sync/Contact", some "Contact", some 5, some "session"⟩], by decide⟩ net with
    clientInfo := some ⟨"c", 0⟩ }

/-- A server that accepts everything and has no data. -/
def acceptAll : Nat → NetResponse := fun _ => ⟨true, true, none⟩

end Rhodes.Sessions
