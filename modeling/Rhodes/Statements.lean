import Rhodes.Database
import Rhodes.Json

/-!
The state that the sync thread shares with the UI thread and the network, and
the atomic statements of the sync thread on it. Each SQL text of SyncSource.cpp
is one statement; makePushBody is one statement because it holds the database
lock from its SELECT to its UPDATE, and so is the SELECT of getAndremoveAsk with
the DELETE made while its result is open. The k-th request is answered by
`net k`, so a run is about every sequence of answers when `net` is arbitrary.
-/
namespace Rhodes.Statements

open Database Json

/-- CSyncEngine::ESyncState. -/
inductive SyncState where
  | esNone
  | esSyncAllSources
  | esSyncSource
  | esStop
  | esExit
  deriving DecidableEq, Repr

def SyncState.isContinueSync (s : SyncState) : Bool := s ≠ .esExit && s ≠ .esStop

/-- An answer of the network: its status, whether one arrived at all, and the
parsed body (`none` where the parser fails). -/
structure NetResponse where
  isOK : Bool
  isResponseRecieved : Bool
  charData : Option JsonObject

/-- The parts of the request that CSyncSource::syncServerChanges sends. -/
structure PullRequest where
  url : String
  action : String
  clientId : String
  pageSize : Int
  params : String
  askParams : String
  ackToken : Option UInt64
  deriving DecidableEq

/-- The URL as it is put together in syncServerChanges. -/
def PullRequest.text (q : PullRequest) : String :=
  q.url ++ (if q.action.length > 0 then "/" ++ q.action else "") ++
    (if q.askParams.length > 0 then "/ask" else "") ++
    "?format=json&client_id=" ++ q.clientId ++ "&p_size=" ++ toString q.pageSize ++
    "&version=2" ++ q.params ++
    (if q.askParams.length > 0 then "&question=" ++ q.askParams else "") ++
    (match q.ackToken with
      | some t => "&ack_token=" ++ toString t.toNat
      | none => "")

/-- A request with the texts it carries. The rows a push was made of and the
object that sends a pull are recorded beside the texts. -/
inductive Request where
  | pushData (src : Int) (t : UpdateType) (url body : String) (rows : List ChangedValue)
  | pushFile (src : Int) (t : UpdateType) (query file : String) (row : ChangedValue)
  | pullData (obj : Nat) (src : Int) (q : PullRequest)
  | pullFile (url file : String)
  | pullClient (url : String)
  deriving DecidableEq

/-- What happened, in order: answered requests, and pages with the token they
brought and whether both passes over them came to their end. -/
inductive Event where
  | answered (q : Request) (ok : Bool)
  | page (obj : Nat) (token : UInt64) (complete : Bool)
  deriving DecidableEq

/-- CSyncNotify::ENotifyType, as far as it is passed on. -/
inductive NotifyType where
  | enDelete
  | enUpdate
  | enCreate
  deriving DecidableEq

/-- The calls of CSyncNotify made by the engine. -/
inductive Notification where
  | onObjectChanged (src : Int) (object : String) (t : NotifyType)
  | addCreateObjectError (src : Int) (object error : String)
  | fireObjectsNotification
  | incLastSyncObjectCount (src : Int)
  | fireSyncNotification (src : Option Int) (finish : Bool) (errCode : Nat) (message : String)
  | onSyncSourceEnd (src : Int)
  | cleanLastSyncObjectCount
  | cleanCreateObjectErrors
  deriving DecidableEq

/-- client_info, as far as loadClientID reads it. -/
structure ClientInfo where
  clientId : String
  reset : Int
  deriving DecidableEq

/-- A question taken off the queue, and the number of events before that. -/
structure Taken where
  src : Int
  question : String
  events : Nat
  deriving DecidableEq

/-- The shared state. `round`, `builds` and `asked` only record what has been done:
the source between its create and its delete body, the insertion number reached at
the last makePushBody of a source and type, and the questions taken off the queue. -/
structure World where
  changed : ChangedTable
  objects : ObjectTable
  sources : SourcesTable
  clientInfo : Option ClientInfo
  insideTransaction : Bool
  unlockDB : Bool
  syncState : SyncState
  stopByUser : Bool
  tempId : Nat
  net : Nat → NetResponse
  requests : Nat
  log : List Event
  notified : List Notification
  nextObj : Nat
  round : Option Int
  builds : Int → UpdateType → Nat
  asked : List Taken

/-- The state in which a command starts its work on the given tables. -/
def World.start (changed : ChangedTable) (objects : ObjectTable) (sources : SourcesTable)
    (net : Nat → NetResponse) : World where
  changed := changed
  objects := objects
  sources := sources
  clientInfo := none
  insideTransaction := false
  unlockDB := false
  syncState := .esSyncAllSources
  stopByUser := false
  tempId := 0
  net := net
  requests := 0
  log := []
  notified := []
  nextObj := 0
  round := none
  builds := fun _ _ => 0
  asked := []

/-- The atomic statements of the sync thread. -/
inductive Stmt where
  | read
  | makePushBody (src : Int) (t : UpdateType)
  | request (q : Request)
  | confirmNonBlob (src : Int) (t : UpdateType)
  | deleteNonBlob (src : Int) (t : UpdateType)
  | deleteNonBlobJava (src : Int) (t : UpdateType)
  | confirmSent (src : Int) (t : UpdateType)
  | deleteSent (src : Int) (t : UpdateType)
  | deleteBlobObject (src : Int) (filePath : String)
  | selectAsk (src : Int)
  | deleteAsk (src : Int) (askParams : String)
  | endOfData (src : Int)
  | storeToken (src : Int) (token : UInt64)
  | tokenProcessed (src : Int) (token : UInt64)
  | renameObjects (src : Int) (old new : Option String)
  | renameChanged (src : Int) (old new : Option String)
  | bindMainId (src : Int) (object attrib : Option String) (id : Int64)
  | confirmEntry (src : Int) (object attrib : Option String)
  | setObjectId (src : Int) (object attrib : Option String) (id : Int64)
  | insertObject (row : ObjectValue)
  | updateObject (src : Int) (object attrib : Option String) (id : Int64) (value attribType : String)
  | deleteObject (id : Int64)
  | markDeleted (id : Int64)
  | startTransaction
  | endTransaction
  | setState (s : SyncState)
  | clearStopByUser
  | loadAllSources
  | saveClientId (clientId : String)
  | clearReset (clientId : String)
  | pageProcessed (obj : Nat) (token : UInt64) (complete : Bool)
  | notify (n : Notification)
  deriving DecidableEq

/-- The rows makePushBody selects: sent<=1, ORDER BY sent DESC. -/
def selectPush (T : ChangedTable) (src : Int) (t : UpdateType) : List ChangedValue :=
  (T.rows.filter (fun r => r.sourceId = src ∧ r.updateType = t ∧ r.sent ≤ 1)).insertionSort
    (fun r s => s.sent ≤ r.sent)

/-- attrib_type IS NULL or attrib_type!='blob.file'. -/
def NonBlob (r : ChangedValue) : Prop := r.attribType ≠ some "blob.file"

instance : DecidablePred NonBlob := fun r => inferInstanceAs (Decidable (r.attribType ≠ _))

/-- attrib_type IS NULL or attrib_type!='blob.file' and sent=1. -/
def NullOrSentNonBlob (r : ChangedValue) : Prop :=
  r.attribType = none ∨ (r.attribType.isSome ∧ r.attribType ≠ some "blob.file") ∧ r.sent = 1

instance : DecidablePred NullOrSentNonBlob := fun _ => inferInstanceAs (Decidable (_ ∨ _))

/-- The ask row getAndremoveAsk reads: the first one of the source. -/
def firstAsk (T : ChangedTable) (src : Int) : Option ChangedValue :=
  T.rows.find? (fun r => r.sourceId = src ∧ r.updateType = .ask)

/-- The columns of the unique index named in a WHERE clause. -/
def AtKey (src : Int) (object attrib : Option String) (o a : Option String) (s : Int) : Prop :=
  SqlEq o object ∧ SqlEq a attrib ∧ s = src

instance (src : Int) (object attrib o a : Option String) (s : Int) :
    Decidable (AtKey src object attrib o a s) := inferInstanceAs (Decidable (_ ∧ _))

/-- What each statement does to the shared state. -/
def step : Stmt → World → World
  | .read, w => w
  | .makePushBody src t, w =>
      { w with
        changed := if selectPush w.changed src t = [] then w.changed
          else w.changed.update (fun r => r.sourceId = src ∧ r.updateType = t ∧ r.sent = 0)
            (ChangedTable.setSent 1)
        unlockDB := false
        round := if t = .delete then none else some src
        builds := Function.update w.builds src (Function.update (w.builds src) t w.changed.next) }
  | .request q, w =>
      { w with
        requests := w.requests + 1
        log := w.log ++ [.answered q (w.net w.requests).isOK] }
  | .confirmNonBlob src t, w =>
      { w with
        changed := w.changed.update
          (fun r => r.sourceId = src ∧ r.updateType = t ∧ NonBlob r ∧ r.sent = 1)
          (ChangedTable.setSent 2) }
  | .deleteNonBlob src t, w =>
      { w with
        changed := w.changed.delete
          (fun r => r.sourceId = src ∧ r.updateType = t ∧ NullOrSentNonBlob r) }
  | .deleteNonBlobJava src t, w =>
      { w with
        changed := w.changed.delete
          (fun r => r.sourceId = src ∧ r.updateType = t ∧ NonBlob r ∧ r.sent = 1) }
  | .confirmSent src t, w =>
      { w with
        changed := w.changed.update
          (fun r => r.sourceId = src ∧ r.updateType = t ∧ r.sent = 1) (ChangedTable.setSent 2) }
  | .deleteSent src t, w =>
      { w with
        changed := w.changed.delete
          (fun r => r.sourceId = src ∧ r.updateType = t ∧ r.sent = 1) }
  | .deleteBlobObject src filePath, w =>
      { w with
        objects := w.objects.delete
          (fun r => r.sourceId = src ∧ r.attribType = some "blob.file" ∧ r.value = some filePath) }
  | .selectAsk src, w =>
      match firstAsk w.changed src with
      | none => w
      | some q =>
          { w with
            objects := w.objects.delete (fun r =>
              AtKey src (some (q.object.getD "")) (some (q.attrib.getD "")) r.object r.attrib
                r.sourceId) }
  | .deleteAsk src _, w =>
      { w with
        changed := w.changed.delete (fun r => r.sourceId = src ∧ r.updateType = .ask)
        asked := w.asked ++ (w.changed.rows.filter
          (fun r => r.sourceId = src ∧ r.updateType = .ask)).map
            (fun r => ⟨src, r.value.getD "", w.log.length⟩) }
  | .endOfData src, w =>
      { w with changed := w.changed.delete (fun r => r.sourceId = src ∧ r.sent ≥ 3) }
  | .storeToken src token, w => { w with sources := w.sources.setToken src token }
  | .tokenProcessed _ _, w => w
  | .renameObjects src old new, w =>
      { w with
        objects := (w.objects.update (fun r => SqlEq r.object old ∧ r.sourceId = src)
          (fun r => { r with object := new })).getD w.objects }
  | .renameChanged src old new, w =>
      { w with
        changed := w.changed.update (fun r => SqlEq r.object old ∧ r.sourceId = src)
          (ChangedTable.setObject new) }
  | .bindMainId src object attrib id, w =>
      { w with
        changed := w.changed.update
          (fun r => AtKey src object attrib r.object r.attrib r.sourceId ∧ r.sent ≤ 1)
          (ChangedTable.setMainId id) }
  | .confirmEntry src object attrib, w =>
      { w with
        changed := w.changed.update
          (fun r => AtKey src object attrib r.object r.attrib r.sourceId ∧ r.sent > 1)
          (ChangedTable.setSent 4) }
  | .setObjectId src object attrib id, w =>
      { w with
        objects := (w.objects.update
          (fun r => AtKey src object attrib r.object r.attrib r.sourceId)
          (fun r => { r with id := id })).getD w.objects }
  | .insertObject row, w => { w with objects := (w.objects.insert row).getD w.objects }
  | .updateObject src object attrib id value attribType, w =>
      { w with
        objects := (w.objects.update
          (fun r => AtKey src object attrib r.object r.attrib r.sourceId)
          (fun r => { r with id := id, value := some value, attribType := some attribType })).getD
          w.objects }
  | .deleteObject id, w => { w with objects := w.objects.delete (fun r => r.id = id) }
  | .markDeleted id, w =>
      { w with changed := w.changed.update (fun r => r.mainId = id) (ChangedTable.setSent 3) }
  | .startTransaction, w => { w with insideTransaction := true }
  | .endTransaction, w => { w with insideTransaction := false, unlockDB := false }
  | .setState s, w =>
      { w with
        syncState := s
        round := if s.isContinueSync then none else w.round }
  | .clearStopByUser, w => { w with stopByUser := false }
  | .loadAllSources, w => { w with nextObj := w.nextObj + w.sources.rows.length }
  | .saveClientId clientId, w => { w with clientInfo := some ⟨clientId, 0⟩ }
  | .clearReset clientId, w =>
      { w with
        clientInfo := w.clientInfo.map (fun c =>
          if c.clientId = clientId then { c with reset := 0 } else c) }
  | .pageProcessed obj token complete, w => { w with log := w.log ++ [.page obj token complete] }
  | .notify n, w => { w with notified := w.notified ++ [n] }

theorem mem_selectPush (T : ChangedTable) (src : Int) (t : UpdateType) (r : ChangedValue) :
    r ∈ selectPush T src t ↔
      r ∈ T.rows ∧ r.sourceId = src ∧ r.updateType = t ∧ r.sent ≤ 1 := by
  simp [selectPush, List.mem_insertionSort, List.mem_filter]

/-- The early return of makePushBody changes nothing: without selected rows the
UPDATE has no row either. -/
theorem makePushBody_changed (src : Int) (t : UpdateType) (w : World) :
    (step (.makePushBody src t) w).changed =
      w.changed.update (fun r => r.sourceId = src ∧ r.updateType = t ∧ r.sent = 0)
        (ChangedTable.setSent 1) := by
  by_cases hsel : selectPush w.changed src t = []
  · simp only [step, if_pos hsel]
    symm
    apply ChangedTable.update_of_none
    rintro r hr ⟨hsrc, ht, hsent⟩
    have hmem := (mem_selectPush w.changed src t r).mpr ⟨hr, hsrc, ht, by omega⟩
    rw [hsel] at hmem
    exact absurd hmem (by simp)
  · simp only [step, if_neg hsel]

end Rhodes.Statements
