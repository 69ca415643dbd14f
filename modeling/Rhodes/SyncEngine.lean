import Rhodes.ServerChanges

/-!
CSyncEngine of SyncEngine.cpp and the commands of the sync thread. Every command
rebuilds the CSyncSource objects from the sources table; the k-th row loaded gets
the object number `nextObj + k`, so no two objects of a run share a number.
-/
namespace Rhodes.SyncEngine

open Database Json Statements Interleaving Source ServerChanges

def isSlash (c : Char) : Bool := c = '/' || c = '\\'

def dropFirstSlash (s : String) : String :=
  match s.toList with
  | c :: rest => if isSlash c then String.ofList rest else s
  | [] => s

def dropLastSlash (s : String) : String :=
  match s.toList.reverse with
  | c :: rest => if isSlash c then String.ofList rest.reverse else s
  | [] => s

/-- The url of a source from its column in the database. -/
def sourceUrl (config : Config) (dbUrl : String) : String :=
  let url := dropFirstSlash dbUrl
  dropLastSlash (if "http".toList.isPrefixOf url.toList then url else config.syncServer ++ url)

def loadSource (config : Config) (row : SourceRow) (obj : Nat) : Option SyncSource :=
  let dbUrl := row.sourceUrl.getD ""
  if dbUrl.length = 0 then none
  else
    let url := sourceUrl config dbUrl
    if url.length > 0 then
      some { obj, id := row.sourceId, name := row.name.getD "", url, token := row.token.getD 0 }
    else none

/-- SELECT ... from sources ORDER BY source_id. -/
def loadSources (config : Config) (sources : SourcesTable) (nextObj : Nat) : List SyncSource :=
  ((sources.rows.insertionSort (fun r s => r.sourceId ≤ s.sourceId)).zipIdx nextObj).filterMap
    (fun p => loadSource config p.1 p.2)

def loadAllSources (config : Config) : Sync (List SyncSource) :=
  Prog.perform .loadAllSources (fun w => loadSources config w.sources w.nextObj)

def loadSession : Sync String :=
  query (fun w => (w.sources.rows.filterMap SourceRow.session).headD "")

def requestClientIDByNet (config : Config) : Sync String := do
  let resp ← send (.pullClient (config.syncServer ++ "clientcreate" ++ "?format=json"))
  let client := (resp.charData.getD .null).getEntry "client"
  if resp.isOK ∧ ¬ client.isEmpty then pure (client.getStr "client_id") else pure ""

def resetClientIDByNet (config : Config) (clientId : String) : Sync Bool := do
  let resp ← send (.pullClient (config.syncServer ++ "clientreset" ++ "?client_id=" ++ clientId))
  pure resp.isOK

def resetClient (config : Config) (clientId : String) : Sync Unit := do
  let reset ← resetClientIDByNet config clientId
  if reset then execute (.clearReset clientId) else stopSync

def loadClientID (config : Config) : Sync String := do
  let info ← query (fun w => w.clientInfo)
  let clientId := (info.map ClientInfo.clientId).getD ""
  if clientId.length = 0 then
    let clientId ← requestClientIDByNet config
    execute (.saveClientId clientId)
    pure clientId
  else if info.any (fun c => c.reset > 0) then
    resetClient config clientId
    pure clientId
  else pure clientId

def getStartSource (sources : List SyncSource) : Nat :=
  (sources.findIdx? (fun s => s.token ≠ 0)).getD 0

def syncUnlessStopped (fuel : Nat) (e : Engine) (src : SyncSource) : Sync SyncSource := do
  let state ← query (fun w => w.syncState)
  if state ≠ .esStop then sync fuel e src else pure src

/-- The loop of syncAllSources from a source on; the result is bError. -/
def syncSources (fuel : Nat) (e : Engine) : Bool → List SyncSource → Sync Bool
  | bError, [] => pure bError
  | bError, src :: rest => do
      if ← isContinueSync then
        let src ← syncUnlessStopped fuel e src
        notify (.onSyncSourceEnd src.id)
        syncSources fuel e (src.errCode ≠ .errNone) rest
      else pure bError

def syncAllSources (fuel : Nat) (e : Engine) : Sync Unit := do
  let bError ← syncSources fuel e false (e.sources.drop (getStartSource e.sources))
  when (¬ bError) (notify (.fireSyncNotification none true ErrCode.errNone.val "Sync completed."))

def notLoggedIn : String := "Client is not logged in. No sync will be performed."

/-- The notification of doSyncAllSources without a session. -/
def notifyNotLoggedIn : Option SyncSource → Sync Unit
  | some src => notify (.fireSyncNotification (some src.id) true
      ErrCode.errClientIsNotLoggedIn.val "")
  | none => notify (.fireSyncNotification none true ErrCode.errClientIsNotLoggedIn.val notLoggedIn)

def syncLoaded (fuel : Nat) (config : Config) (pageSize : Int) (sources : List SyncSource)
    (session : String) : Sync Unit :=
  if session.length > 0 then do
    let clientId ← loadClientID config
    notify .cleanLastSyncObjectCount
    syncAllSources fuel ⟨config, clientId, pageSize, sources⟩
  else notifyNotLoggedIn sources[getStartSource sources]?

def doSyncAllSources (fuel : Nat) (config : Config) (pageSize : Int) : Sync Unit := do
  execute (.setState .esSyncAllSources)
  execute .clearStopByUser
  let sources ← loadAllSources config
  let session ← loadSession
  syncLoaded fuel config pageSize sources session
  execute (.setState .esNone)

/-- The arguments of doSyncSource. -/
structure SourceCommand where
  srcId : Int
  srcUrl : String := ""
  params : String := ""
  action : String := ""
  searchSyncChanges : Bool := false
  progressStep : Int := -1

def findSource (sources : List SyncSource) (c : SourceCommand) : Option SyncSource :=
  if c.srcUrl.length > 0 then sources.find? (fun s => s.url = c.srcUrl)
  else sources.find? (fun s => s.id = c.srcId)

/-- doSyncSource once its source is found. -/
def syncFound (fuel : Nat) (config : Config) (pageSize : Int) (sources : List SyncSource)
    (src : SyncSource) : Sync SyncSource := do
  let session ← loadSession
  if session.length > 0 then
    let clientId ← loadClientID config
    let state ← query (fun w => w.syncState)
    if state ≠ .esStop then
      notify .cleanLastSyncObjectCount
      sync fuel ⟨config, clientId, pageSize, sources⟩ src
    else pure src
  else pure { src with error := notLoggedIn, errCode := .errClientIsNotLoggedIn }

def syncOneSource (fuel : Nat) (config : Config) (pageSize : Int) (sources : List SyncSource)
    (c : SourceCommand) : Option SyncSource → Sync Unit
  | some src => do
      let src ← syncFound fuel config pageSize sources { src with
        params := c.params, action := c.action, searchSyncChanges := c.searchSyncChanges,
        progressStep := c.progressStep }
      notify (.fireSyncNotification (some src.id) true src.errCode.val
        (if src.errCode = .errNone then "Sync completed." else ""))
  | none => notify (.fireSyncNotification none true ErrCode.errRuntime.val "")

def doSyncSource (fuel : Nat) (config : Config) (pageSize : Int) (c : SourceCommand) :
    Sync Unit := do
  execute (.setState .esSyncSource)
  execute .clearStopByUser
  let sources ← loadAllSources config
  syncOneSource fuel config pageSize sources c (findSource sources c)
  notify .cleanCreateObjectErrors
  execute (.setState .esNone)

/-- The commands of CSyncThread that sync. -/
inductive Command where
  | syncAll
  | syncOne (srcId : Int) (srcUrl : String)
  | searchOne (srcId : Int) (params action : String) (syncChanges : Bool) (progressStep : Int)

def processCommand (fuel : Nat) (config : Config) (pageSize : Int) : Command → Sync Unit
  | .syncAll => doSyncAllSources fuel config pageSize
  | .syncOne srcId srcUrl => doSyncSource fuel config pageSize { srcId, srcUrl }
  | .searchOne srcId params action syncChanges progressStep =>
      doSyncSource fuel config pageSize
        { srcId, params, action, searchSyncChanges := syncChanges, progressStep }

def processCommands (fuel : Nat) (config : Config) (pageSize : Int) : List Command → Sync Unit
  | [] => pure ()
  | c :: rest => do
      processCommand fuel config pageSize c
      processCommands fuel config pageSize rest

end Rhodes.SyncEngine
