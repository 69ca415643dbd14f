import Rhodes.SyncEngine

/-!
A round of syncAllSources with a record of what it did. The programs here are those of
`ServerChanges` and `SyncEngine` that also return, for each source, whether its sync()
ran, the object as it was left, and whether sync() gave up because creates were still
pending after its pull, and for the round, whether it reported its completion; without
the record they are the programs of the engine.
-/
namespace Rhodes.Rounds

open Statements Interleaving Source ClientChanges ServerChanges SyncEngine

/-- What became of a source in a round: the object before and after. -/
structure SourceRecord where
  source : SyncSource
  src : SyncSource
  ran : Bool
  gaveUp : Bool

structure RoundRecord where
  completed : Bool
  records : List SourceRecord

/-- syncClient, with whether it gave up. -/
def syncClientRecorded (fuel : Nat) (e : Engine) (this : SyncSource) :
    Sync ((SyncSource × Bool) × Bool) := do
  let bSyncedServer ← isPendingClientChanges this
  let r ← pullPending fuel e this bSyncedServer
  if r.2 then
    execute (.setState .esStop)
    pure ((r.1, bSyncedServer), true)
  else
    let bSyncClient ← query (fun w => w.changed.rows.any (fun r => r.sourceId = this.id))
    if bSyncClient then
      let this ← syncClientChanges e r.1
      let this ← getAndremoveAsk this
      pure ((this, false), false)
    else pure ((r.1, bSyncedServer), false)

def syncClientPartRecorded (fuel : Nat) (e : Engine) (this : SyncSource) :
    Sync ((SyncSource × Bool) × Bool) :=
  if this.params.length = 0 ∨ this.searchSyncChanges then syncClientRecorded fuel e this
  else pure ((this, false), false)

def syncRecorded (fuel : Nat) (e : Engine) (this : SyncSource) : Sync (SyncSource × Bool) := do
  notify (.fireSyncNotification (some this.id) false ErrCode.errNone.val
    ("Synchronizing " ++ this.name ++ "..."))
  let this ← startToken this
  let r ← syncClientPartRecorded fuel e this
  if r.1.2 then pure (r.1.1, r.2)
  else
    let that ← syncServerChanges e fuel r.1.1
    pure (that, r.2)

def syncUnlessStoppedRecorded (fuel : Nat) (e : Engine) (src : SyncSource) :
    Sync SourceRecord := do
  let state ← query (fun w => w.syncState)
  if state ≠ .esStop then
    let r ← syncRecorded fuel e src
    pure ⟨src, r.1, true, r.2⟩
  else pure ⟨src, src, false, false⟩

def syncSourcesRecorded (fuel : Nat) (e : Engine) :
    Bool → List SyncSource → Sync (Bool × List SourceRecord)
  | bError, [] => pure (bError, [])
  | bError, src :: rest => do
      if ← isContinueSync then
        let r ← syncUnlessStoppedRecorded fuel e src
        notify (.onSyncSourceEnd r.src.id)
        let q ← syncSourcesRecorded fuel e (r.src.errCode ≠ .errNone) rest
        pure (q.1, r :: q.2)
      else pure (bError, [])

/-- The last notification of a round that has no error. -/
def syncCompleted : Notification :=
  .fireSyncNotification none true ErrCode.errNone.val "Sync completed."

def syncAllSourcesRecorded (fuel : Nat) (e : Engine) : Sync RoundRecord := do
  let r ← syncSourcesRecorded fuel e false (e.sources.drop (getStartSource e.sources))
  if ¬ r.1 then
    notify syncCompleted
    pure ⟨true, r.2⟩
  else pure ⟨false, r.2⟩

theorem syncClientRecorded_fst (fuel : Nat) (e : Engine) (this : SyncSource) :
    (syncClientRecorded fuel e this).bind (fun r => .ret r.1) = syncClient fuel e this := by
  unfold syncClientRecorded syncClient
  simp only [Prog.bind_eq, Prog.bind_assoc, Prog.ite_bind]
  rfl

theorem syncClientPartRecorded_fst (fuel : Nat) (e : Engine) (this : SyncSource) :
    (syncClientPartRecorded fuel e this).bind (fun r => .ret r.1) = syncClientPart fuel e this := by
  unfold syncClientPartRecorded syncClientPart
  rw [Prog.ite_bind, syncClientRecorded_fst]
  rfl

theorem syncRecorded_fst (fuel : Nat) (e : Engine) (this : SyncSource) :
    (syncRecorded fuel e this).bind (fun r => .ret r.1) = sync fuel e this := by
  unfold syncRecorded sync
  simp only [← syncClientPartRecorded_fst, Prog.bind_eq, Prog.bind_assoc, Prog.ite_bind,
    Prog.ret_bind, pure, Prog.bind_ret]

theorem syncUnlessStoppedRecorded_src (fuel : Nat) (e : Engine) (src : SyncSource) :
    (syncUnlessStoppedRecorded fuel e src).bind (fun r => .ret r.src) =
      syncUnlessStopped fuel e src := by
  unfold syncUnlessStoppedRecorded syncUnlessStopped
  simp only [← syncRecorded_fst, Prog.bind_eq, Prog.bind_assoc, Prog.ite_bind, Prog.ret_bind, pure]

theorem syncSourcesRecorded_fst (fuel : Nat) (e : Engine) (bError : Bool)
    (sources : List SyncSource) :
    (syncSourcesRecorded fuel e bError sources).bind (fun r => .ret r.1) =
      syncSources fuel e bError sources := by
  induction sources generalizing bError with
  | nil => rfl
  | cons src rest ih =>
    unfold syncSourcesRecorded syncSources
    simp only [← syncUnlessStoppedRecorded_src, Prog.bind_eq, Prog.bind_assoc, Prog.ite_bind,
      Prog.ret_bind, pure, ih]

/-- Without its record, the round is that of the engine. -/
theorem syncAllSourcesRecorded_eq (fuel : Nat) (e : Engine) :
    (syncAllSourcesRecorded fuel e).bind (fun _ => .ret ()) = syncAllSources fuel e := by
  unfold syncAllSourcesRecorded syncAllSources
  simp only [← syncSourcesRecorded_fst, Prog.bind_eq, Prog.bind_assoc, Prog.ite_bind, Prog.ret_bind,
    pure]
  rfl

end Rhodes.Rounds
