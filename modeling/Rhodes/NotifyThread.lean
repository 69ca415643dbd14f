import Rhodes.Interleaving
import Rhodes.Notifications
import Rhodes.SyncEngine

/-!
The sync notifications of CSyncNotify while the sync thread and the UI run. A finish
notification reads the registration of its source in one synchronized block, removes
whatever is registered for that source in a second one, and removes it once more where the
application answers "stop". `late` is set while the last call of the UI for that source
since the body was made is one that registers.
-/
namespace Rhodes.NotifyThread

open Std (TreeMap)
open Database Statements Interleaving Source SyncEngine Notifications

structure PushResponse where
  isOK : Bool
  charData : Option String

/-- `resp.isOK() && strcmp(szData,"stop") == 0` -/
def PushResponse.isStop (r : PushResponse) : Bool := r.isOK && r.charData = some "stop"

/-- What is pushed; `obj` is the registration it was made for. -/
structure Push where
  url : String
  body : String
  obj : Nat
  finish : Bool
  deriving DecidableEq

/-- The application: the address of a relative URL, and the answers to what is pushed. -/
structure App where
  resolveUrl : String → String
  answer : List Push → PushResponse

/-- How far a finish notification has come: its body is made, its registration is cleared,
the answer is "stop". -/
inductive Stage where
  | body
  | cleared
  | answered
  deriving DecidableEq

structure Firing where
  src : Int
  sn : SyncNotification
  stage : Stage
  late : Bool
  deriving DecidableEq

/-- The state that the sync thread shares with the UI. `fired` and `firing` only record
the registrations that finish notifications have read and the one that is not done. -/
structure NotifyState where
  notify : SyncNotify
  syncState : SyncState
  stopByUser : Bool
  pushed : List Push
  fired : List SyncNotification
  firing : Option Firing

def NotifyState.start (syncState : SyncState) (stopByUser : Bool) : NotifyState :=
  ⟨{}, syncState, stopByUser, [], [], none⟩

/-- The registration of a source. -/
def NotifyState.registered (s : NotifyState) (id : Int) : Option SyncNotification :=
  s.notify.mapSyncNotifications[id]?

/-- The registration whose finish notification is not pushed yet. -/
def NotifyState.awaiting (s : NotifyState) : List SyncNotification :=
  match s.firing with
  | some f => if f.stage = .answered then [] else [f.sn]
  | none => []

inductive NotifyStmt where
  | getState
  | isStoppedByUser
  | makeBody (src : SyncSource) (bFinish : Bool) (nErrCode : Nat)
  | clearSyncNotification (source_id : Int)
  | pushData (p : Push)
  | cleanCreateObjectErrors
  | addCreateObjectError (nSrcID : Int) (strObject strError : String)
  | cleanLastSyncObjectCount
  | incLastSyncObjectCount (nSrcID : Int)

/-- The calls of the UI; `rows` is what the query on sources finds. -/
inductive UiCall where
  | setSyncNotification (rows : List Int) (source_id : Int) (strUrl strParams : String)
  | clearSyncNotification (source_id : Int)
  | setState (state : SyncState)
  | setStopByUser (stop : Bool)

section System

variable (app : App)

def NotifyState.makeBody (s : NotifyState) (src : SyncSource) (bFinish : Bool) (nErrCode : Nat)
    (sn : SyncNotification) : String × SyncNotify :=
  s.notify.makeSyncBody src s.stopByUser bFinish nErrCode sn

def afterClear : Option Firing → Option Firing
  | some f => if f.stage = .body then some { f with stage := .cleared, late := false } else none
  | none => none

def notifyStep : NotifyStmt → NotifyState → NotifyState
  | .getState, s => s
  | .isStoppedByUser, s => s
  | .makeBody src bFinish nErrCode, s =>
      match s.registered src.id with
      | none => s
      | some sn =>
          let made := { s with notify := (s.makeBody src bFinish nErrCode sn).2 }
          if bFinish then
            { made with fired := s.fired ++ [sn], firing := some ⟨src.id, sn, .body, false⟩ }
          else made
  | .clearSyncNotification source_id, s =>
      { s with
        notify := s.notify.clearSyncNotification source_id
        firing := afterClear s.firing }
  | .pushData p, s =>
      { s with
        pushed := s.pushed ++ [p]
        firing :=
          if (app.answer (s.pushed ++ [p])).isStop then
            s.firing.map (fun f => { f with stage := .answered })
          else none }
  | .cleanCreateObjectErrors, s => { s with notify := s.notify.cleanCreateObjectErrors }
  | .addCreateObjectError nSrcID strObject strError, s =>
      { s with notify := s.notify.addCreateObjectError nSrcID strObject strError }
  | .cleanLastSyncObjectCount, s => { s with notify := s.notify.cleanLastSyncObjectCount }
  | .incLastSyncObjectCount nSrcID, s =>
      { s with notify := s.notify.incLastSyncObjectCount nSrcID }

/-- The call puts a registration of the source into the map. -/
def UiCall.Registers : UiCall → Int → Prop
  | .setSyncNotification rows source_id strUrl _, src =>
      (app.resolveUrl strUrl).length > 0 ∧ if source_id = -1 then src ∈ rows else src = source_id
  | _, _ => False

/-- The call removes what was registered for the source. -/
def UiCall.Unregisters : UiCall → Int → Prop
  | .setSyncNotification _ source_id _ _, _ => source_id = -1
  | .clearSyncNotification source_id, src => src = source_id
  | _, _ => False

instance : (c : UiCall) → (src : Int) → Decidable (c.Registers app src)
  | .setSyncNotification _ source_id strUrl _, src => inferInstanceAs (Decidable
      ((app.resolveUrl strUrl).length > 0 ∧ if source_id = -1 then src ∈ _ else src = source_id))
  | .clearSyncNotification _, _ => inferInstanceAs (Decidable False)
  | .setState _, _ => inferInstanceAs (Decidable False)
  | .setStopByUser _, _ => inferInstanceAs (Decidable False)

instance : (c : UiCall) → (src : Int) → Decidable (c.Unregisters src)
  | .setSyncNotification _ source_id _ _, _ => inferInstanceAs (Decidable (source_id = -1))
  | .clearSyncNotification source_id, src => inferInstanceAs (Decidable (src = source_id))
  | .setState _, _ => inferInstanceAs (Decidable False)
  | .setStopByUser _, _ => inferInstanceAs (Decidable False)

def Firing.afterCall (f : Firing) (c : UiCall) : Firing :=
  { f with late :=
      if c.Registers app f.src then true else if c.Unregisters f.src then false else f.late }

def uiStep (c : UiCall) (s : NotifyState) : Option NotifyState :=
  let s := { s with firing := s.firing.map (fun f : Firing => f.afterCall app c) }
  match c with
  | .setSyncNotification rows source_id strUrl strParams =>
      some { s with
        notify := s.notify.setSyncNotification app.resolveUrl rows source_id strUrl strParams }
  | .clearSyncNotification source_id =>
      some { s with notify := s.notify.clearSyncNotification source_id }
  | .setState state => some { s with syncState := state }
  | .setStopByUser stop => some { s with stopByUser := stop }

end System

abbrev Notifying (α : Type) := Prog NotifyStmt NotifyState α

def execute (i : NotifyStmt) : Notifying Unit := Prog.perform i (fun _ => ())

def getState : Notifying SyncState := Prog.perform .getState NotifyState.syncState

/-- The first synchronized block; `none` where nothing is registered for the source. -/
def makeBody (src : SyncSource) (bFinish : Bool) (nErrCode : Nat) : Notifying (Option Push) :=
  Prog.perform (.makeBody src bFinish nErrCode) (fun s => (s.registered src.id).map
    (fun sn => ⟨sn.url, (s.makeBody src bFinish nErrCode sn).1, sn.obj, bFinish⟩))

section Programs

variable (app : App)

def pushData (p : Push) : Notifying PushResponse :=
  Prog.perform (.pushData p) (fun s => app.answer (s.pushed ++ [p]))

/-- doFireSyncNotification once its body is made. -/
def push (src : SyncSource) (bFinish : Bool) (p : Push) : Notifying Unit := do
  if bFinish then execute (.clearSyncNotification src.id) else pure ()
  let resp ← pushData app p
  if resp.isStop then execute (.clearSyncNotification src.id) else pure ()

/-- The message goes to the log only. -/
def doFireSyncNotification (psrc : Option SyncSource) (bFinish : Bool) (nErrCode : Nat) :
    Notifying Unit :=
  match psrc with
  | none => pure ()
  | some src => do
      let stopped ← Prog.perform .isStoppedByUser NotifyState.stopByUser
      if stopped then pure ()
      else
        let found ← makeBody src bFinish nErrCode
        match found with
        | none => pure ()
        | some p => push app src bFinish p

def fireSyncNotification (psrc : Option SyncSource) (bFinish : Bool) (nErrCode : Nat) :
    Notifying Unit := do
  let state ← getState
  if state = .esExit then pure () else doFireSyncNotification app psrc bFinish nErrCode

def fireAllSyncNotifications (bFinish : Bool) (nErrCode : Nat) : List SyncSource → Notifying Unit
  | [] => pure ()
  | src :: sources => do
      doFireSyncNotification app (some src) bFinish nErrCode
      fireAllSyncNotifications bFinish nErrCode sources

def onSyncSourceEnd (src : SyncSource) (sources : List SyncSource) : Notifying Unit := do
  fireSyncNotification app (some src) true src.errCode.val
  let state ← getState
  if state = .esStop then fireAllSyncNotifications app true src.errCode.val sources else pure ()
  execute .cleanCreateObjectErrors

/-- The calls that the engine makes in the sync thread. -/
inductive NotifyCall where
  | fireSyncNotification (psrc : Option SyncSource) (bFinish : Bool) (nErrCode : Nat)
  | onSyncSourceEnd (src : SyncSource) (sources : List SyncSource)
  | cleanCreateObjectErrors
  | addCreateObjectError (nSrcID : Int) (strObject strError : String)
  | cleanLastSyncObjectCount
  | incLastSyncObjectCount (nSrcID : Int)

def NotifyCall.run : NotifyCall → Notifying Unit
  | fireSyncNotification psrc bFinish nErrCode =>
      NotifyThread.fireSyncNotification app psrc bFinish nErrCode
  | onSyncSourceEnd src sources => NotifyThread.onSyncSourceEnd app src sources
  | cleanCreateObjectErrors => execute .cleanCreateObjectErrors
  | addCreateObjectError nSrcID strObject strError =>
      execute (.addCreateObjectError nSrcID strObject strError)
  | cleanLastSyncObjectCount => execute .cleanLastSyncObjectCount
  | incLastSyncObjectCount nSrcID => execute (.incLastSyncObjectCount nSrcID)

/-- The sync thread as far as it calls CSyncNotify. -/
def notifyAll : List NotifyCall → Notifying Unit
  | [] => pure ()
  | c :: calls => do
      c.run app
      notifyAll calls

end Programs

end Rhodes.NotifyThread
