import Rhodes.Interleaving
import Rhodes.Statements

/-!
The CSyncSource object and what it reads of its engine. The functions of
SyncSource.cpp are programs over the statements of the sync thread: the fields
of the object are passed along and returned, and what other threads can see or
change is read by statements.
-/
namespace Rhodes.Source

open Database Json Statements Interleaving

abbrev Sync (α : Type) := Prog Stmt World α

/-- The codes of `_CRhoRuby`. -/
inductive ErrCode where
  | errNone
  | errNetwork
  | errRemoteServer
  | errRuntime
  | errUnexpectedServerResponse
  | errDiffDomainsInSyncSrc
  | errNoServerResponse
  | errClientIsNotLoggedIn
  | errCustomSyncServer
  | errUnathorized
  | errCancelByUser
  deriving DecidableEq

def ErrCode.val : ErrCode → Nat
  | errNone => 0
  | errNetwork => 1
  | errRemoteServer => 2
  | errRuntime => 3
  | errUnexpectedServerResponse => 4
  | errDiffDomainsInSyncSrc => 5
  | errNoServerResponse => 6
  | errClientIsNotLoggedIn => 7
  | errCustomSyncServer => 8
  | errUnathorized => 9
  | errCancelByUser => 10

/-- ESyncServerDataPass. -/
inductive ServerDataPass where
  | edpNone
  | edpDeleteObjects
  deriving DecidableEq

/-- The fields of CSyncSource. `obj` is the number of the object, not a field. -/
structure SyncSource where
  obj : Nat
  id : Int
  name : String
  url : String
  token : UInt64
  tokenFromDB : Bool := true
  curPageCount : Int := 0
  inserted : Nat := 0
  deleted : Nat := 0
  totalCount : Int := 0
  getAtLeastOnePage : Bool := false
  pass : ServerDataPass := .edpNone
  errCode : ErrCode := .errNone
  error : String := ""
  params : String := ""
  action : String := ""
  searchSyncChanges : Bool := false
  progressStep : Int := -1
  askParams : String := ""
  deriving DecidableEq

def SyncSource.setCurPageCount (this : SyncSource) (n : Int) : SyncSource :=
  { this with curPageCount := n }

/-- RhoGetRootPath, RhoGetRelativeBlobsPath and the setting "syncserver". -/
structure Config where
  rootPath : String
  relativeBlobsPath : String
  syncServer : String

/-- What a source reads of its engine. -/
structure Engine where
  config : Config
  clientId : String
  syncPageSize : Int
  sources : List SyncSource

def execute (i : Stmt) : Sync Unit := Prog.perform i (fun _ => ())

def query {α : Type} (g : World → α) : Sync α := Prog.perform .read g

def send (q : Request) : Sync NetResponse := Prog.perform (.request q) (fun w => w.net w.requests)

def notify (n : Notification) : Sync Unit := execute (.notify n)

def isContinueSync : Sync Bool := query (fun w => w.syncState.isContinueSync)

/-- `if ( c ) p;` -/
def when (c : Prop) [Decidable c] (p : Sync Unit) : Sync Unit := if c then p else pure ()

/-- The state is tested first and set in a second step. -/
def stopSync : Sync Unit := do
  let go ← isContinueSync
  when go (execute (.setState .esStop))

def failCode (resp : NetResponse) : ErrCode :=
  if resp.isResponseRecieved then .errRemoteServer else .errNetwork

/-- A source and its engine, for runs on concrete data. -/
def sampleSource : SyncSource where
  obj := 0
  id := 1
  name := "Contact"
  url := "http://sync"
  token := 1

def sampleEngine : Engine := ⟨⟨"/", "db-files", "http://sync"⟩, "c", 2000, [sampleSource]⟩

end Rhodes.Source
