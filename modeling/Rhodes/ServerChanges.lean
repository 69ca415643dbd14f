import Rhodes.ClientChanges

/-!
The server side of SyncSource.cpp: processToken, the merge of a page in its two
passes, syncServerChanges and sync. The loop over the pages is cut after `fuel`
rounds, and every result is about every `fuel`. The merge also returns whether
all of its loops came to their end; only the record of processed pages uses this.
-/
namespace Rhodes.ServerChanges

open Database Json Statements Interleaving Source ClientChanges

def processToken (this : SyncSource) (token : UInt64) : Sync SyncSource := do
  when (¬ (token > 1 ∧ this.token = token)) (execute (.storeToken this.id token))
  execute (.tokenProcessed this.id token)
  pure { this with token, tokenFromDB := false }

/-- CValue of a version 1 entry. -/
structure CValue where
  value : String
  attrType : String
  id : UInt64
  deriving DecidableEq

/-- For an entry that has "v", see `getStr`; "t" may be missing. -/
def cValue (entry : JsonObject) : CValue := ⟨entry.getStr "v", entry.getStr "t", entry.getUInt64 "i"⟩

/-- The rest of the text from the first occurrence of `needle` on. -/
def strstr (needle : List Char) : List Char → Option (List Char)
  | [] => if needle = [] then some [] else none
  | c :: cs => if needle.isPrefixOf (c :: cs) then some (c :: cs) else strstr needle cs

/-- The extension makeFileName finds: the parameter "extension" of the query, or
what follows the last dot when that dot stands before the query. -/
def urlExtension (url : String) : List Char :=
  let path := url.toList.takeWhile (fun c => c ≠ '?')
  let quest := url.toList.dropWhile (fun c => c ≠ '?')
  let named := match strstr "extension=".toList quest with
    | some ext => (ext.drop 10).takeWhile (fun c => c ≠ '&')
    | none => []
  if named ≠ [] then named
  else if '.' ∈ quest then []
  else match afterLast '.' path with
    | some ext => '.' :: ext
    | none => []

def makeFileName (e : Engine) (value : CValue) : String :=
  let ext := urlExtension value.value
  e.config.rootPath ++ e.config.relativeBlobsPath ++ "/id_" ++ toString value.id.toNat ++
    (if ext = [] then ".bin" else String.ofList ext)

/-- The value to store, or the error of a failed download. -/
def downloadBlob (e : Engine) (value : CValue) : Sync (Except ErrCode CValue) :=
  if value.attrType ≠ "blob.url" then pure (.ok value)
  else do
    let fName := makeFileName e value
    let url := value.value ++ (if '?' ∈ value.value.toList then "&" else "?") ++
      "client_id=" ++ e.clientId
    let resp ← send (.pullFile url fName)
    if resp.isOK then
      let appsPath := e.config.rootPath ++ "apps"
      pure (.ok { value with
        attrType := "blob.file"
        value := String.ofList (fName.toList.drop appsPath.length) })
    else pure (.error (failCode resp))

/-- What one of the loops over a page leaves. `finished` is not in the source. -/
structure Merge where
  this : SyncSource
  ok : Bool
  finished : Bool

/-- The first entry of an object that names its old object. -/
def renameObject (nSrcID : Int) (oldObject object : Option String) : Sync Unit := do
  execute (.renameObjects nSrcID oldObject object)
  execute (.renameChanged nSrcID oldObject object)
  notify (.onObjectChanged nSrcID (oldObject.getD "") .enCreate)

/-- Any entry of an object that names its old object. -/
def confirmObject (nSrcID : Int) (oldObject object : Option String) (attrib : String)
    (id : Int64) (updatedOO : Bool) : Sync Unit := do
  when (¬ updatedOO) (renameObject nSrcID oldObject object)
  execute (.bindMainId nSrcID object (some attrib) id)
  execute (.confirmEntry nSrcID object (some attrib))
  execute (.setObjectId nSrcID object (some attrib) id)

/-- What is done where the INSERT of an entry is not unique. -/
def updateEntry (nSrcID : Int) (object : Option String) (attrib : String) (value : CValue) :
    Sync Unit := do
  execute (.updateObject nSrcID object (some attrib) value.id.toInt64 value.value value.attrType)
  execute (.confirmEntry nSrcID object (some attrib))
  execute (.bindMainId nSrcID object (some attrib) value.id.toInt64)

/-- Any other insert entry. -/
def insertEntry (nSrcID : Int) (object : Option String) (attrib : String) (value : CValue) :
    Sync Unit := do
  let row : ObjectValue := ⟨value.id.toInt64, nSrcID, some attrib, object, some value.value,
    some value.attrType⟩
  let isNonUnique ← Prog.perform (.insertObject row) (fun w => (w.objects.insert row).isNone)
  when isNonUnique (updateEntry nSrcID object attrib value)
  notify (.onObjectChanged nSrcID (object.getD "") .enUpdate)

/-- The row of a delete entry, where there is one. -/
def deleteRow (id : Int64) : Option ObjectValue → Sync Unit
  | some row => do
      execute (.deleteObject id)
      notify (.onObjectChanged row.sourceId (row.object.getD "") .enDelete)
  | none => pure ()

def deleteEntry (id : Int64) : Sync Unit := do
  let row ← query (fun w => w.objects.rows.find? (fun r => r.id = id))
  deleteRow id row
  execute (.markDeleted id)

/-- An insert entry once its value is there. -/
def storeEntry (nSrcID : Int) (oldObject object : Option String) (updatedOO : Bool)
    (entry : JsonObject) (value : CValue) : Sync Unit :=
  if oldObject.isSome then
    confirmObject nSrcID oldObject object (entry.getStr "a") value.id.toInt64 updatedOO
  else insertEntry nSrcID object (entry.getStr "a") value

/-- The loop over "av"; a failed download ends it with `ok = false`. -/
def processEntries (e : Engine) (nSrcID : Int) (oldObject object : Option String) :
    SyncSource → Bool → List JsonObject → Sync Merge
  | this, _, [] => pure ⟨this, true, true⟩
  | this, updatedOO, entry :: rest => do
      if ← isContinueSync then
        if entry.isEmpty then processEntries e nSrcID oldObject object this updatedOO rest
        else if nSrcID ≥ 0 then
          match ← downloadBlob e (cValue entry) with
          | .error code => pure ⟨{ this with errCode := code }, false, false⟩
          | .ok value =>
              storeEntry nSrcID oldObject object updatedOO entry value
              processEntries e nSrcID oldObject object { this with inserted := this.inserted + 1 }
                oldObject.isSome rest
        else
          deleteEntry (entry.getUInt64 "i").toInt64
          processEntries e nSrcID oldObject object { this with deleted := this.deleted + 1 }
            updatedOO rest
      else pure ⟨this, true, false⟩

def processSyncObjectVer1 (e : Engine) (this : SyncSource) (json : JsonObject) (nSrcID : Int) :
    Sync Merge :=
  let oldObject := json.getString "oo"
  if decide (this.pass = .edpDeleteObjects) ≠ decide (nSrcID < 0) then pure ⟨this, true, true⟩
  else if json.hasName "e" then do
    notify (.addCreateObjectError nSrcID (oldObject.getD "") (json.getStr "e"))
    pure ⟨this, true, true⟩
  else processEntries e nSrcID oldObject (json.getString "o") this false (json.getArray "av")

/-- m_hashSrcObjectCount.get, from the calls made so far. -/
def lastSyncObjectCount (src : Int) (notified : List Notification) : Nat :=
  notified.foldl (fun n c =>
    if c = .cleanLastSyncObjectCount then 0
    else if c = .incLastSyncObjectCount src then n + 1 else n) 0

def countObject (this : SyncSource) (nSrcID : Int) : Sync Unit :=
  if this.pass ≠ .edpDeleteObjects ∧ nSrcID ≥ 0 then do
    let n ← Prog.perform (.notify (.incLastSyncObjectCount nSrcID))
      (fun w => lastSyncObjectCount nSrcID w.notified + 1)
    when (this.progressStep > 0 ∧ (n : Int) % this.progressStep = 0)
      (notify (.fireSyncNotification (some this.id) false ErrCode.errNone.val ""))
  else pure ()

/-- A commit lets a waiting UI transaction in. -/
def commitForUI : Sync Unit := do
  let isUnlockDB ← query (fun w => w.unlockDB)
  when isUnlockDB (do
    execute .endTransaction
    execute .startTransaction)

/-- The loop over "ol". -/
def processObjects (e : Engine) (nSrcID : Int) : SyncSource → List JsonObject → Sync Merge
  | this, [] => pure ⟨this, true, true⟩
  | this, json :: rest => do
      if ← isContinueSync then
        commitForUI
        let r ← processSyncObjectVer1 e this json nSrcID
        if r.ok then
          countObject r.this nSrcID
          let q ← processObjects e nSrcID { r.this with getAtLeastOnePage := true } rest
          pure { q with finished := r.finished && q.finished }
        else
          stopSync
          pure ⟨r.this, true, false⟩
      else pure ⟨this, true, false⟩

/-- The source id of a group; `none` is an unknown name. -/
def groupSource (e : Engine) (this : SyncSource) (strSrcName : String) : Option Int :=
  if strSrcName = "RhoDeleteSource" then some (-1)
  else if strSrcName = this.name then some this.id
  else (e.sources.find? (fun s => s.name = strSrcName)).map SyncSource.id

def processServerDataVer1 (e : Engine) : SyncSource → List JsonObject → Sync Merge
  | this, [] => pure ⟨this, true, true⟩
  | this, group :: rest => do
      if ← isContinueSync then
        match groupSource e this (group.getStr "s") with
        | none =>
            stopSync
            pure ⟨{ this with errCode := .errUnexpectedServerResponse }, true, false⟩
        | some nSrcID =>
            let r ← processObjects e nSrcID this (group.getArray "ol")
            let q ← processServerDataVer1 e r.this rest
            pure { q with finished := r.finished && q.finished }
      else pure ⟨this, true, false⟩

/-- Both passes over the groups of a page, in one transaction. -/
def mergePage (e : Engine) (this : SyncSource) (groups : List JsonObject) : Sync Merge :=
  if groups = [] then pure ⟨this, true, true⟩
  else do
    if ← isContinueSync then
      execute .startTransaction
      let r ← processServerDataVer1 e { this with pass := .edpNone } groups
      let q ← processServerDataVer1 e { r.this with pass := .edpDeleteObjects } groups
      execute .endTransaction
      notify .fireObjectsNotification
      pure { q with finished := r.finished && q.finished }
    else pure ⟨this, true, false⟩

/-- The elements before the token: count, and version and total_count where present.
What is left starts with the token. -/
def readHead (this : SyncSource) (page : List JsonObject) : SyncSource × List JsonObject :=
  match page with
  | [] => (this, [])
  | count :: page =>
      let this := this.setCurPageCount (count.getInt "count")
      let page := match page with
        | version :: rest => if version.hasName "version" then rest else version :: rest
        | [] => []
      match page with
      | total :: rest =>
          if total.hasName "total_count" then
            ({ this with totalCount := total.getInt "total_count" }, rest)
          else (this, total :: rest)
      | [] => (this, [])

def fireSync (this : SyncSource) : Sync Unit :=
  notify (.fireSyncNotification (some this.id) false ErrCode.errNone.val "")

/-- The end of processServerData, after a token element or its absence. -/
def endPage (this : SyncSource) : Sync SyncSource := do
  when (this.curPageCount > 0) (fireSync this)
  pure this

/-- A page that brings a token: the token is stored before the groups are merged. -/
def processPage (e : Engine) (this : SyncSource) (token : UInt64) (groups : List JsonObject) :
    Sync SyncSource := do
  let this ← processToken this token
  let r ← mergePage e this groups
  execute (.pageProcessed r.this.obj token r.finished)
  endPage r.this

/-- A page with nothing after its head. -/
def processEnd (this : SyncSource) : Sync SyncSource := do
  if this.curPageCount = 0 then
    execute (.endOfData this.id)
    let this ← processToken this 0
    endPage this
  else endPage this

def processServerData (e : Engine) (this : SyncSource) (data : Option JsonObject) :
    Sync SyncSource := do
  let page := (data.getD .null).items
  if (page.headD .null).hasName "error" then
    stopSync
    pure { this with error := (page.headD .null).getStr "error", errCode := .errCustomSyncServer }
  else
    let head := readHead this page
    when (head.1.inserted + head.1.deleted = 0) (fireSync head.1)
    match head.2 with
    | element :: groups => processPage e head.1 (element.getUInt64 "token") groups
    | [] => processEnd head.1

def pullRequest (e : Engine) (this : SyncSource) : PullRequest where
  url := this.url
  action := this.action
  clientId := e.clientId
  pageSize := e.syncPageSize
  params := this.params
  askParams := this.askParams
  ackToken := if ¬ this.tokenFromDB ∧ this.token > 1 then some this.token else none

def syncServerChanges (e : Engine) : Nat → SyncSource → Sync SyncSource
  | 0, this => pure this
  | fuel + 1, this => do
      if ← isContinueSync then
        let this := this.setCurPageCount 0
        let resp ← send (.pullData this.obj this.id (pullRequest e this))
        if resp.isOK then
          let this ← processServerData e this resp.charData
          if this.askParams.length > 0 ∨ this.curPageCount = 0 then pure this
          else syncServerChanges e fuel this
        else
          stopSync
          syncServerChanges e fuel { this with errCode := failCode resp }
      else pure this

/-- The first pull of sync, made when creates are pending; the result tells whether
creates are pending still. -/
def pullPending (fuel : Nat) (e : Engine) (this : SyncSource) (pending : Bool) :
    Sync (SyncSource × Bool) :=
  if pending then do
    let this ← syncServerChanges e fuel this
    let pending ← isPendingClientChanges this
    pure (this, pending)
  else pure (this, false)

/-- The part of sync that pushes, with the value of bSyncedServer it leaves. -/
def syncClient (fuel : Nat) (e : Engine) (this : SyncSource) : Sync (SyncSource × Bool) := do
  let bSyncedServer ← isPendingClientChanges this
  let r ← pullPending fuel e this bSyncedServer
  if r.2 then
    execute (.setState .esStop)
    pure (r.1, bSyncedServer)
  else
    let bSyncClient ← query (fun w => w.changed.rows.any (fun r => r.sourceId = this.id))
    if bSyncClient then
      let this ← syncClientChanges e r.1
      let this ← getAndremoveAsk this
      pure (this, false)
    else pure (r.1, bSyncedServer)

def startToken (this : SyncSource) : Sync SyncSource :=
  if this.token = 0 then processToken this 1 else pure this

def syncClientPart (fuel : Nat) (e : Engine) (this : SyncSource) : Sync (SyncSource × Bool) :=
  if this.params.length = 0 ∨ this.searchSyncChanges then syncClient fuel e this
  else pure (this, false)

def sync (fuel : Nat) (e : Engine) (this : SyncSource) : Sync SyncSource := do
  notify (.fireSyncNotification (some this.id) false ErrCode.errNone.val
    ("Synchronizing " ++ this.name ++ "..."))
  let this ← startToken this
  let r ← syncClientPart fuel e this
  if r.2 then pure r.1 else syncServerChanges e fuel r.1

end Rhodes.ServerChanges
