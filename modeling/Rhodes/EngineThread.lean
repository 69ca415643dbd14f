import Rhodes.SyncThread
import Rhodes.Rhom

/-!
The engine of SyncEngine.cpp under its thread. Beside the two syncs, whose statements
are those of `Statements`, the thread calls CSyncEngine::login; the k-th login request
is answered by `logins k`, and the calls of the login callback are kept as they were
made. Other threads work on the tables and set m_bStopByUser; their stopSync and
exitSync are actions of the thread's environment.
-/
namespace Rhodes.EngineThread

open Database Statements Interleaving Source ServerChanges SyncEngine SyncThread Rhom

/-- The answer to pullCookies. -/
structure LoginResponse where
  isResponseRecieved : Bool
  isUnathorized : Bool
  isOK : Bool
  charData : String

/-- A call of callLoginCallback. -/
structure LoginCallback where
  callback : String
  errCode : ErrCode
  message : String

structure EngineState where
  world : World
  logins : Nat → LoginResponse
  loginRequests : Nat
  callbacks : List LoginCallback

inductive EngineStmt where
  | sync (i : Stmt)
  | pullCookies (url body : String)
  | setSession
  | callLoginCallback (c : LoginCallback)

/-- UPDATE sources SET session='exists'. -/
def setSession (T : SourcesTable) : SourcesTable where
  rows := T.rows.map (fun r => { r with session := some "exists" })
  unique := by
    rw [List.map_map]
    exact T.unique

def engineStep : EngineStmt → EngineState → EngineState
  | .sync i, s => { s with world := step i s.world }
  | .pullCookies _ _, s => { s with loginRequests := s.loginRequests + 1 }
  | .setSession, s => { s with world := { s.world with sources := setSession s.world.sources } }
  | .callLoginCallback c, s => { s with callbacks := s.callbacks ++ [c] }

/-- What other threads do to the engine and its tables, stopSync and exitSync apart. -/
inductive EngineAction where
  | ui (u : UIAction)
  | setStopByUser

def engineEnv : EngineAction → EngineState → Option EngineState
  | .ui u, s =>
      if u.stops then none else (uiStep u s.world).map (fun w => { s with world := w })
  | .setStopByUser, s => some { s with world := { s.world with stopByUser := true } }

/-- The C++ engine; scNone syncs unless the interval is 0. -/
def engineModel : EngineModel EngineStmt EngineState EngineAction where
  step := engineStep
  env := engineEnv
  getState := fun s => s.world.syncState
  setState := fun state s => { s with world := { s.world with syncState := state } }
  polls := fun n => n ≠ 0
  ends := fun
    | .sync (.setState .esNone) => true
    | _ => false

def getServerFromUrl (url : String) : List Char :=
  let http := (strstr "://".toList url.toList).or (strstr ":\\\\".toList url.toList)
  let server := match http with
    | some rest => rest.drop 3
    | none => url.toList
  if '/' ∈ server then server.takeWhile (fun c => c ≠ '/') else server.takeWhile (fun c => c ≠ '\\')

def checkAllSourcesFromOneDomain : List SyncSource → Bool
  | [] => true
  | src0 :: rest => rest.all (fun src => getServerFromUrl src.url = getServerFromUrl src0.url)

abbrev EngineProg (α : Type) := Prog EngineStmt EngineState α

def syncCall {α : Type} (p : Sync α) : EngineProg α := p.embed .sync EngineState.world

def callLoginCallback (callback : String) (errCode : ErrCode) (message : String) :
    EngineProg Unit :=
  Prog.perform (.callLoginCallback ⟨callback, errCode, message⟩) (fun _ => ())

/-- login once the sources are of one domain. -/
def requestLogin (config : Config) (name password callback : String) : EngineProg Unit := do
  let resp ← Prog.perform (.pullCookies (config.syncServer ++ "client_login")
      ("login=" ++ name ++ "&password=" ++ password ++ "&remember_me=1"))
    (fun s => s.logins s.loginRequests)
  if ¬ resp.isResponseRecieved then callLoginCallback callback .errNetwork resp.charData
  else if resp.isUnathorized then callLoginCallback callback .errUnathorized resp.charData
  else if ¬ resp.isOK then callLoginCallback callback .errRemoteServer resp.charData
  else
    Prog.perform .setSession (fun _ => ())
    callLoginCallback callback .errNone ""

def login (config : Config) (name password callback : String) : EngineProg Unit := do
  let sources ← syncCall (loadAllSources config)
  if checkAllSourcesFromOneDomain sources then requestLogin config name password callback
  else callLoginCallback callback .errDiffDomainsInSyncSrc ""

/-- A call that returns; nothing is thrown in C++. -/
def returned (p : EngineProg Unit) : EngineProg Bool := p.bind (fun _ => .ret true)

def engineCalls (fuel : Nat) (config : Config) (pageSize : Int) :
    EngineCalls EngineStmt EngineState where
  doSyncAllSources := returned (syncCall (doSyncAllSources fuel config pageSize))
  doSyncSource := fun c => returned (syncCall (doSyncSource fuel config pageSize c))
  login := fun name password callback => returned (login config name password callback)

/-- The thread as Create leaves it, over the given tables. -/
def startThread (w : World) (logins : Nat → LoginResponse) (pollInterval : Int) :
    ThreadState EngineState where
  engine := ⟨{ w with syncState := .esNone }, logins, 0, []⟩
  stackCommands := []
  pollInterval := pollInterval
  stopping := 0
  phase := .idle

end Rhodes.EngineThread
