import Rhodes.PullRules
import Rhodes.PushRound
import Rhodes.SyncEngine

/-!
Where the engine's state is written. Between its first and its last statement a sync
command writes the state only to stop, whatever the server answers; so what a stop
leaves is kept for the rest of the command, and esExit is never written by the sync
thread.
-/
namespace Rhodes.StateWrites

open Database Json Statements Interleaving Source ClientChanges ServerChanges SyncEngine Threads
  PushRound PullRules

theorem step_syncState (i : Stmt) (w : World) :
    (step i w).syncState = match i with
      | .setState s => s
      | _ => w.syncState := by
  cases i with
  | selectAsk src =>
    simp only [step]
    split <;> rfl
  | _ => rfl

/-- A class of statements that the sync of a source stays in. -/
structure SyncsFor (e : Engine) (L : Stmt → Prop) : Prop extends PullsFor e L where
  pushes : PushesFor e [.create, .update, .delete] L
  endOfData : ∀ src, L (.endOfData src)
  selectAsk : ∀ src, L (.selectAsk src)
  deleteAsk : ∀ src askParams, L (.deleteAsk src askParams)

section Statements

variable {e : Engine} {L : Stmt → Prop}

theorem SyncsFor.read (h : SyncsFor e L) : L .read := h.storing .read trivial

theorem getAndremoveAsk_for (h : SyncsFor e L) (this : SyncSource) :
    (getAndremoveAsk this).Only L := by
  apply Prog.Only.bind (Prog.Only.perform (h.selectAsk _) _)
  exact fun askParams => Prog.Only.bind (execute_only (h.deleteAsk _ _)) (fun _ => trivial)

theorem pullPending_for (h : SyncsFor e L) (fuel : Nat) (this : SyncSource) (pending : Bool) :
    (pullPending fuel e this pending).Only L := by
  refine Prog.Only.ite (Prog.Only.bind ?_ ?_) trivial
  · exact syncServerChanges_for h.toPullsFor h.endOfData fuel this
  · exact fun that => Prog.Only.bind (query_only h.read _) (fun _ => trivial)

theorem syncClient_for (h : SyncsFor e L) (fuel : Nat) (this : SyncSource) :
    (syncClient fuel e this).Only L := by
  apply Prog.Only.bind (query_only h.read _)
  intro pending
  apply Prog.Only.bind (pullPending_for h fuel this pending)
  intro r
  apply Prog.Only.ite
  · exact Prog.Only.bind (execute_only h.stop) (fun _ => trivial)
  · apply Prog.Only.bind (query_only h.read _)
    intro b
    refine Prog.Only.ite ?_ trivial
    apply Prog.Only.bind (pushLoop_for h.pushes _ (List.Subset.refl _) _)
    exact fun that => Prog.Only.bind (getAndremoveAsk_for h that) (fun _ => trivial)

theorem startToken_for (h : SyncsFor e L) (this : SyncSource) : (startToken this).Only L :=
  Prog.Only.ite (processToken_tokens h.storeToken h.tokenProcessed this 1) trivial

theorem syncClientPart_for (h : SyncsFor e L) (fuel : Nat) (this : SyncSource) :
    (syncClientPart fuel e this).Only L :=
  Prog.Only.ite (syncClient_for h fuel this) trivial

theorem sync_for (h : SyncsFor e L) (fuel : Nat) (this : SyncSource) :
    (sync fuel e this).Only L := by
  apply Prog.Only.bind (execute_only (h.storing (.notify _) trivial))
  intro _
  apply Prog.Only.bind (startToken_for h this)
  intro that
  apply Prog.Only.bind (syncClientPart_for h fuel that)
  exact fun r => Prog.Only.ite trivial (syncServerChanges_for h.toPullsFor h.endOfData fuel r.1)

theorem syncUnlessStopped_for (h : SyncsFor e L) (fuel : Nat) (src : SyncSource) :
    (syncUnlessStopped fuel e src).Only L := by
  apply Prog.Only.bind (query_only h.read _)
  exact fun state => Prog.Only.ite (sync_for h fuel src) trivial

theorem syncSources_for (h : SyncsFor e L) (fuel : Nat) (sources : List SyncSource)
    (bError : Bool) : (syncSources fuel e bError sources).Only L := by
  induction sources generalizing bError with
  | nil => trivial
  | cons src rest ih =>
    apply Prog.Only.bind (query_only h.read _)
    intro go
    refine Prog.Only.ite ?_ trivial
    apply Prog.Only.bind (syncUnlessStopped_for h fuel src)
    exact fun that => Prog.Only.bind (execute_only (h.storing _ trivial)) (fun _ => ih _)

theorem syncAllSources_for (h : SyncsFor e L) (fuel : Nat) :
    (syncAllSources fuel e).Only L := by
  apply Prog.Only.bind (syncSources_for h fuel _ _)
  exact fun bError => when_only (execute_only (h.storing _ trivial))

end Statements

/-- The statements that write the state only to stop. -/
def Working : Stmt → Prop
  | .setState s => s = .esStop
  | _ => True

theorem working_of_merging {i : Stmt} (h : Merging i) : Working i := by
  cases i <;> first | exact h | trivial

theorem working_of_pushing {types : List UpdateType} {i : Stmt} (h : Pushing types i) :
    Working i := by
  cases i <;> first | exact h | trivial

theorem working_fetches : Fetches Working :=
  ⟨fun _ => working_of_merging, fun _ _ _ => trivial, fun _ _ => trivial, fun _ _ => trivial,
    fun _ _ _ => trivial⟩

theorem working_syncsFor (e : Engine) : SyncsFor e Working where
  toPullsFor := working_fetches.pullsFor e
  pushes := ⟨fun _ hi => working_of_pushing hi.pushing, fun _ _ _ _ _ => trivial,
    fun _ _ _ _ _ _ => trivial⟩
  endOfData := fun _ => trivial
  selectAsk := fun _ => trivial
  deleteAsk := fun _ _ => trivial

theorem sync_working (fuel : Nat) (e : Engine) (this : SyncSource) :
    (sync fuel e this).Only Working := sync_for (working_syncsFor e) fuel this

theorem syncAllSources_working (fuel : Nat) (e : Engine) :
    (syncAllSources fuel e).Only Working := syncAllSources_for (working_syncsFor e) fuel

theorem loadClientID_working (config : Config) : (loadClientID config).Only Working := by
  apply Prog.Only.bind (query_only trivial _)
  intro info
  refine Prog.Only.ite ?_ (Prog.Only.ite ?_ trivial)
  · apply Prog.Only.bind
    · exact Prog.Only.bind (send_only trivial) (fun _ => Prog.Only.ite trivial trivial)
    · exact fun _ => Prog.Only.bind (execute_only trivial) (fun _ => trivial)
  · refine Prog.Only.bind (Prog.Only.bind ?_ (fun reset => ?_)) (fun _ => trivial)
    · exact Prog.Only.bind (send_only trivial) (fun _ => trivial)
    · exact Prog.Only.ite (execute_only trivial) (stopSync_only trivial rfl)

theorem syncLoaded_working (fuel : Nat) (config : Config) (pageSize : Int)
    (sources : List SyncSource) (session : String) :
    (syncLoaded fuel config pageSize sources session).Only Working := by
  apply Prog.Only.ite
  · apply Prog.Only.bind (loadClientID_working config)
    intro clientId
    exact Prog.Only.bind (execute_only trivial) (fun _ => syncAllSources_working fuel _)
  · cases sources[getStartSource sources]? <;> exact execute_only trivial

theorem syncOneSource_working (fuel : Nat) (config : Config) (pageSize : Int)
    (sources : List SyncSource) (c : SourceCommand) (found : Option SyncSource) :
    (syncOneSource fuel config pageSize sources c found).Only Working := by
  cases found with
  | none => exact execute_only trivial
  | some src =>
    refine Prog.Only.bind ?_ (fun that => execute_only trivial)
    apply Prog.Only.bind (query_only trivial _)
    intro session
    refine Prog.Only.ite ?_ trivial
    apply Prog.Only.bind (loadClientID_working config)
    intro clientId
    apply Prog.Only.bind (query_only trivial _)
    intro state
    refine Prog.Only.ite ?_ trivial
    exact Prog.Only.bind (execute_only trivial) (fun _ => sync_working fuel _ _)

end Rhodes.StateWrites
