import Mathlib.Algebra.Ring.Nat
import Rhodes.ClientChanges

/-!
The client side of SyncSource.java, the other port of SyncSource.cpp. The rows are
selected and the records put together as in `ClientChanges`; main_id is read as a
`long`, the files are named below getDirPath(""), the DELETE of a push with blobs has
its OR in parentheses, and a failed file is always ERR_REMOTESERVER. A push that gets no
answer throws: syncClientChanges ends there, with the engine as it was. Of a body no
more bytes are written than the text has UTF-16 units.
-/
namespace Rhodes.JavaClient

open Database Statements Interleaving Source ClientChanges

/-- A `long` appended to a string. -/
def printLong (n : Int64) : String := toString n.toInt

def makePushBody (this : SyncSource) (t : UpdateType) : Sync PushBody :=
  Prog.perform (.makePushBody this.id t)
    (fun w => pushBodyOf printLong (selectPush w.changed this.id t))

/-- getBytes() in UTF-8. -/
def getBytes (s : String) : List UInt8 := s.toList.flatMap String.utf8EncodeChar

/-- The UTF-16 units of a character. -/
def units (c : Char) : Nat := if c.toNat < 0x10000 then 1 else 2

/-- length() of a string. -/
def length (s : String) : Nat := (s.toList.map units).sum

/-- os.write(strBody.getBytes(), 0, strBody.length()) of doRequest. -/
def write (strBody : String) : List UInt8 := (getBytes strBody).take (length strBody)

/-- pushData and pushFile throw where the connection is lost. -/
def throws (resp : NetResponse) : Bool := !resp.isOK && !resp.isResponseRecieved

/-- What a push leaves behind; `.error` is an exception on its way out. -/
abbrev Pushed := Except SyncSource SyncSource

/-- `dirPath` is getDirPath(""). An exception that says "timed out" is ERR_NOSERVERRESPONSE. -/
def syncClientBlobs (dirPath : String) (this : SyncSource) (t : UpdateType)
    (strBaseQuery : String) : List SyncBlob → Sync Pushed
  | [] => pure (.ok this)
  | blob :: rest => do
      let strFilePath := dirPath ++ blob.filePath
      let resp ← send (.pushFile this.id t (strBaseQuery ++ "&" ++ blob.body) strFilePath blob.row)
      if resp.isOK then
        execute (.deleteBlobObject this.id blob.filePath)
        syncClientBlobs dirPath this t strBaseQuery rest
      else if throws resp then pure (.error { this with errCode := .errNetwork })
      else
        execute (.setState .esStop)
        pure (.ok { this with errCode := .errRemoteServer })

/-- What follows the push of the body in the loop of syncClientChanges. -/
def confirmPush (e : Engine) (dirPath : String) (this : SyncSource) (t : UpdateType)
    (body : PushBody) : Sync Pushed :=
  if body.blobs.length > 0 then do
    execute (if t = .create then .confirmNonBlob this.id t else .deleteNonBlobJava this.id t)
    syncClientBlobs dirPath this t (pushUrl this t ++ pushQuery e) body.blobs
  else if body.strBody.length > 0 then do
    execute (if t = .create then .confirmSent this.id t else .deleteSent this.id t)
    pure (.ok this)
  else pure (.ok this)

/-- One round of the loop of syncClientChanges. -/
def pushChanges (e : Engine) (dirPath : String) (this : SyncSource) (t : UpdateType) :
    Sync Pushed := do
  let body ← makePushBody this t
  if body.strBody.length > 0 then
    let resp ← send
      (.pushData this.id t (pushUrl this t ++ pushQuery e) body.strBody body.rows)
    if resp.isOK then confirmPush e dirPath this t body
    else if throws resp then pure (.error this)
    else
      execute (.setState .esStop)
      pure (.ok { this with errCode := .errRemoteServer })
  else confirmPush e dirPath this t body

/-- The rest of the loop, unless the round has thrown. -/
def afterRound (rest : SyncSource → Sync Pushed) : Pushed → Sync Pushed
  | .ok this => rest this
  | .error this => pure (.error this)

def pushLoop (e : Engine) (dirPath : String) (this : SyncSource) : List UpdateType → Sync Pushed
  | [] => pure (.ok this)
  | t :: rest => do
      if ← isContinueSync then
        let pushed ← pushChanges e dirPath this t
        afterRound (fun this => pushLoop e dirPath this rest) pushed
      else pure (.ok this)

def syncClientChanges (e : Engine) (dirPath : String) (this : SyncSource) : Sync Pushed :=
  pushLoop e dirPath this [.create, .update, .delete]

end Rhodes.JavaClient
