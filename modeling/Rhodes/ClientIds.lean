import Rhodes.Sessions
import Rhodes.StateWrites

/-!
The client id in doSyncAllSources and doSyncSource. client_info is kept here with all its columns
beside the state of the sync thread. A NULL in client_id, its primary key, is read as the empty
text.
-/
namespace Rhodes.ClientIds

open Database Json Statements Interleaving Source ClientChanges ServerChanges SyncEngine Threads
  PushRound PullRules StateWrites Sessions

section Table

/-- A row of client_info with the defaults of its columns. -/
structure ClientRow where
  clientId : String
  token : Option String := none
  tokenSent : Option Int := some 0
  reset : Option Int := some 0
  port : Option String := none
  lastSyncSuccess : Option String := none
  deriving DecidableEq

/-- What loadClientID reads of a row. -/
def ClientRow.info (r : ClientRow) : ClientInfo := ⟨r.clientId, r.reset.getD 0⟩

/-- What a statement does to client_info. -/
def clientRows : Stmt → List ClientRow → List ClientRow
  | .saveClientId clientId, _ => [{ clientId }]
  | .clearReset clientId, rows =>
      rows.map (fun r => if r.clientId = clientId then { r with reset := some 0 } else r)
  | _, rows => rows

theorem step_clientInfo (i : Stmt) (w : World) :
    (step i w).clientInfo = match i with
      | .saveClientId clientId => some ⟨clientId, 0⟩
      | .clearReset clientId =>
          w.clientInfo.map (fun c => if c.clientId = clientId then { c with reset := 0 } else c)
      | _ => w.clientInfo := by
  cases i with
  | selectAsk src =>
    simp only [step]
    split <;> rfl
  | _ => rfl

/-- The state of the sync thread with the whole table whose first row loadClientID reads. -/
structure Device where
  world : World
  rows : List ClientRow
  agrees : world.clientInfo = rows.head?.map ClientRow.info

theorem info_clearReset (clientId : String) (r : ClientRow) :
    (if r.clientId = clientId then { r with reset := some 0 } else r).info =
      if r.info.clientId = clientId then { r.info with reset := 0 } else r.info := by
  by_cases h : r.clientId = clientId
  · rw [if_pos h, if_pos (show r.info.clientId = clientId from h)]
    rfl
  · rw [if_neg h, if_neg (show ¬r.info.clientId = clientId from h)]

theorem agrees_step (i : Stmt) (d : Device) :
    (step i d.world).clientInfo = (clientRows i d.rows).head?.map ClientRow.info := by
  rw [step_clientInfo]
  cases i with
  | saveClientId clientId => rfl
  | clearReset clientId =>
    show d.world.clientInfo.map _ = (d.rows.map _).head?.map ClientRow.info
    rw [d.agrees, List.head?_map, Option.map_map, Option.map_map]
    congr 1
    funext r
    exact (info_clearReset clientId r).symm
  | _ => exact d.agrees

def Device.step (i : Stmt) (d : Device) : Device :=
  ⟨Statements.step i d.world, clientRows i d.rows, agrees_step i d⟩

def Device.exec {α : Type} (p : Sync α) (d : Device) : Device :=
  ((p.embed id Device.world).exec Device.step d).2

theorem world_exec {α : Type} (p : Sync α) (d : Device) :
    (d.exec p).world = (p.exec Statements.step d.world).2 :=
  (@Prog.exec_embed _ _ _ _ _ id Device.world step Device.step (fun _ _ => rfl) p d).2

end Table

section Requests

/-- Every request but clientcreate and clientreset is made for a source. -/
def Request.ofSource : Request → Bool
  | .pullClient _ => false
  | _ => true

/-- The client_id that a request of a source has. -/
def Request.Carries (clientId : String) : Request → Prop
  | .pushData _ _ url _ _ => ∃ base, url = base ++ "?format=json&client_id=" ++ clientId
  | .pushFile _ _ query _ _ =>
      ∃ base body, query = base ++ "?format=json&client_id=" ++ clientId ++ "&" ++ body
  | .pullData _ _ q => q.clientId = clientId
  | .pullFile url _ => ∃ base, url = base ++ "client_id=" ++ clientId
  | .pullClient _ => False

/-- Every request of a source behind the first `n` events satisfies `S`. -/
def Asked (S : Request → Prop) (n : Nat) (w : World) : Prop :=
  ∀ q ok, .answered q ok ∈ w.log.drop n → Request.ofSource q = true → S q

def Asks (S : Request → Prop) (i : Stmt) : Prop :=
  ∀ q, i = .request q → Request.ofSource q = true → S q

variable {S : Request → Prop} {n : Nat}

theorem step_log (i : Stmt) (w : World) : (step i w).log = w.log ++
    match i with
      | .request q => [.answered q (w.net w.requests).isOK]
      | .pageProcessed obj token complete => [.page obj token complete]
      | _ => [] := by
  cases i with
  | request q => rfl
  | pageProcessed obj token complete => rfl
  | selectAsk src =>
    simp only [step, List.append_nil]
    split <;> rfl
  | _ => exact (List.append_nil _).symm

/-- A request stands in the log once it is made. -/
theorem mem_step_log {i : Stmt} {w : World} {q : Request} {ok : Bool}
    (h : .answered q ok ∈ (step i w).log.drop n) :
    .answered q ok ∈ w.log.drop n ∨ i = .request q := by
  rw [step_log, List.drop_append] at h
  rcases List.mem_append.mp h with hold | hnew
  · exact Or.inl hold
  · have hmem := List.mem_of_mem_drop hnew
    split at hmem
    · cases List.mem_singleton.mp hmem
      exact Or.inr rfl
    · cases List.mem_singleton.mp hmem
    · cases hmem

theorem asked_step {i : Stmt} (hi : Asks S i) {w : World} (h : Asked S n w) :
    Asked S n (step i w) := by
  intro q ok hmem hsource
  rcases mem_step_log hmem with hold | hnew
  · exact h q ok hold hsource
  · exact hi q hnew hsource

theorem asked_exec {α : Type} {p : Sync α} (hp : p.Only (Asks S)) {w : World} (h : Asked S n w) :
    Asked S n (p.exec step w).2 :=
  Prog.Only.exec (fun _ _ hi hw => asked_step hi hw) hp h

def MakesRequest : Stmt → Prop
  | .request _ => True
  | _ => False

theorem asks_other {i : Stmt} (h : ¬MakesRequest i) : Asks S i := by
  rintro q rfl
  exact absurd trivial h

theorem asks_calm {i : Stmt} (h : Calm i) : Asks S i := by
  rintro q rfl hsource
  cases q <;> first | exact h.elim | cases hsource

theorem asks_storing {i : Stmt} (h : Storing i) : Asks S i := by
  rintro q rfl
  exact h.elim

theorem asks_booking {types : List UpdateType} {i : Stmt} (h : Booking types i) : Asks S i := by
  rintro q rfl
  exact h.elim

theorem asks_request {q : Request} (h : Request.ofSource q = true → S q) : Asks S (.request q) := by
  intro q' heq
  cases heq
  exact h

theorem pushData_carries (e : Engine) (this : SyncSource) (src : Int) (t : UpdateType)
    (body : String) (rows : List ChangedValue) :
    Request.Carries e.clientId (.pushData src t (pushUrl this t ++ pushQuery e) body rows) := by
  refine ⟨pushUrl this t, ?_⟩
  unfold pushQuery
  rw [String.append_assoc]

theorem pushFile_carries (e : Engine) (this : SyncSource) (src : Int) (t : UpdateType)
    (body file : String) (row : ChangedValue) :
    Request.Carries e.clientId
      (.pushFile src t (pushUrl this t ++ pushQuery e ++ "&" ++ body) file row) := by
  refine ⟨pushUrl this t, body, ?_⟩
  unfold pushQuery
  rw [← String.append_assoc]

/-- The requests of a sync carry the client id of its engine. -/
theorem carries_syncsFor (e : Engine) : SyncsFor e (Asks (Request.Carries e.clientId)) where
  storing := fun _ => asks_storing
  stop := asks_other id
  pullFile := fun url _ => asks_request (fun _ => ⟨url, rfl⟩)
  pullData := fun _ => asks_request (fun _ => rfl)
  storeToken := fun _ _ => asks_other id
  tokenProcessed := fun _ _ => asks_other id
  pageProcessed := fun _ _ _ => asks_other id
  pushes := ⟨fun _ => asks_booking,
    fun this t body rows _ => asks_request (fun _ => pushData_carries e this _ t body rows),
    fun this t body file row _ => asks_request (fun _ => pushFile_carries e this _ t body file row)⟩
  endOfData := fun _ => asks_other id
  selectAsk := fun _ => asks_other id
  deleteAsk := fun _ _ => asks_other id

end Requests

section Loading

/-- The id in the first row of client_info. -/
def storedId (w : World) : String := (w.clientInfo.map ClientInfo.clientId).getD ""

/-- The id in an answer of clientcreate. -/
def createdId (resp : NetResponse) : String :=
  let client := (resp.charData.getD .null).getEntry "client"
  if resp.isOK ∧ ¬ client.isEmpty then client.getStr "client_id" else ""

/-- The id that loadClientID returns. -/
def clientId (w : World) : String :=
  if (storedId w).length = 0 then createdId (w.net w.requests) else storedId w

/-- The id request that loadClientID makes fails. -/
def RequestFails (w : World) : Prop :=
  if (storedId w).length = 0 then (createdId (w.net w.requests)).length = 0
  else w.clientInfo.any (fun c => c.reset > 0) = true ∧ (w.net w.requests).isOK = false

def createRequest (config : Config) : Request :=
  .pullClient (config.syncServer ++ "clientcreate" ++ "?format=json")

def resetRequest (config : Config) (clientId : String) : Request :=
  .pullClient (config.syncServer ++ "clientreset" ++ "?client_id=" ++ clientId)

/-- What loadClientID leaves. -/
def idLoaded (config : Config) (w : World) : World :=
  if (storedId w).length = 0 then
    step (.saveClientId (clientId w)) (step (.request (createRequest config)) w)
  else if w.clientInfo.any (fun c => c.reset > 0) then
    let asked := step (.request (resetRequest config (storedId w))) w
    if (w.net w.requests).isOK then step (.clearReset (storedId w)) asked
    else if w.syncState.isContinueSync then step (.setState .esStop) asked
    else asked
  else w

theorem requestClientIDByNet_exec (config : Config) (w : World) :
    (requestClientIDByNet config).exec step w =
      (createdId (w.net w.requests), step (.request (createRequest config)) w) := by
  unfold requestClientIDByNet createdId
  rw [Prog.bind_eq, Prog.exec_bind]
  show Prog.exec step (if (w.net w.requests).isOK = true ∧
      ¬(((w.net w.requests).charData.getD .null).getEntry "client").isEmpty = true then pure _
    else pure _) (step (.request (createRequest config)) w) = _
  dsimp only
  split <;> rfl

theorem stopSync_exec (w : World) : (stopSync.exec step w).2 =
    if w.syncState.isContinueSync then step (.setState .esStop) w else w := by
  unfold stopSync
  rw [Prog.bind_eq, Prog.exec_bind]
  show (Prog.exec step (if w.syncState.isContinueSync = true then _ else _) w).2 = _
  split <;> rfl

theorem resetClient_exec (config : Config) (clientId : String) (w : World) :
    ((resetClient config clientId).exec step w).2 =
      let asked := step (.request (resetRequest config clientId)) w
      if (w.net w.requests).isOK then step (.clearReset clientId) asked
      else if w.syncState.isContinueSync then step (.setState .esStop) asked
      else asked := by
  unfold resetClient
  rw [Prog.bind_eq, Prog.exec_bind]
  show (Prog.exec step (if (w.net w.requests).isOK = true then _ else _)
    (step (.request (resetRequest config clientId)) w)).2 = _
  split
  · rfl
  · exact stopSync_exec _

theorem loadClientID_exec (config : Config) (w : World) :
    (loadClientID config).exec step w = (clientId w, idLoaded config w) := by
  unfold loadClientID clientId idLoaded
  rw [Prog.bind_eq, Prog.exec_bind]
  show Prog.exec step (if (storedId w).length = 0 then _ else _) w = _
  by_cases hstored : (storedId w).length = 0
  · rw [if_pos hstored, if_pos hstored, if_pos hstored, Prog.bind_eq, Prog.exec_bind,
      requestClientIDByNet_exec]
    show _ = (_, step (.saveClientId (clientId w)) _)
    unfold clientId
    rw [if_pos hstored]
    rfl
  · rw [if_neg hstored, if_neg hstored, if_neg hstored]
    show Prog.exec step (if w.clientInfo.any (fun c => c.reset > 0) then _ else _) w = _
    split
    · rw [Prog.bind_eq, Prog.exec_bind, ← resetClient_exec]
      rfl
    · rfl

theorem clientId_pos {w : World} (h : ¬RequestFails w) : 0 < (clientId w).length := by
  unfold RequestFails at h
  unfold clientId
  split
  · rename_i hstored
    rw [if_pos hstored] at h
    exact Nat.pos_of_ne_zero h
  · exact Nat.pos_of_ne_zero ‹_›

/-- A failed id request leaves an empty id, or a stop of the sync. -/
theorem idLoaded_failed (config : Config) {w : World} (h : RequestFails w)
    (hgo : w.syncState.isContinueSync = true) :
    (clientId w).length = 0 ∧ (idLoaded config w).syncState = w.syncState ∨
      (idLoaded config w).syncState = .esStop := by
  unfold RequestFails at h
  unfold clientId idLoaded
  by_cases hstored : (storedId w).length = 0
  · rw [if_pos hstored] at h ⊢
    rw [if_pos hstored]
    exact Or.inl ⟨h, rfl⟩
  · rw [if_neg hstored] at h ⊢
    rw [if_neg hstored, if_pos h.1, h.2, hgo]
    exact Or.inr rfl

end Loading

section Calls

/-- The two calls that sync. -/
inductive SyncCall where
  | all
  | source (c : SourceCommand)

def SyncCall.prog (fuel : Nat) (config : Config) (pageSize : Int) : SyncCall → Sync Unit
  | .all => doSyncAllSources fuel config pageSize
  | .source c => doSyncSource fuel config pageSize c

/-- The session that loadSession reads. -/
def session (w : World) : String := (w.sources.rows.filterMap SourceRow.session).headD ""

/-- A call comes to its id request with a session, and with a source to sync. -/
def SyncCall.Loads (config : Config) (w : World) : SyncCall → Prop
  | .all => 0 < (session w).length
  | .source c => 0 < (session w).length ∧
      (findSource (loadSources config w.sources w.nextObj) c).isSome = true

/-- Where a call begins its work. -/
def started (state : SyncState) (w : World) : World :=
  step .loadAllSources (step .clearStopByUser (step (.setState state) w))

variable (fuel : Nat) (config : Config) (pageSize : Int)

theorem doSyncAllSources_exec (w : World) :
    ((doSyncAllSources fuel config pageSize).exec step w).2 = step (.setState .esNone)
      ((syncLoaded fuel config pageSize (loadSources config w.sources w.nextObj)
        (session w)).exec step (started .esSyncAllSources w)).2 := by
  unfold doSyncAllSources execute loadAllSources loadSession query
  simp only [Prog.bind_eq, Prog.exec_bind, Prog.exec_perform]
  rfl

theorem syncLoaded_exec (sources : List SyncSource) {session : String}
    (h : 0 < session.length) (w : World) :
    ((syncLoaded fuel config pageSize sources session).exec step w).2 =
      ((syncAllSources fuel ⟨config, clientId w, pageSize, sources⟩).exec step
        (step (.notify .cleanLastSyncObjectCount) (idLoaded config w))).2 := by
  unfold syncLoaded
  rw [if_pos h, Prog.bind_eq, Prog.exec_bind, loadClientID_exec]
  rfl

theorem doSyncSource_exec (c : SourceCommand) (w : World) :
    ((doSyncSource fuel config pageSize c).exec step w).2 = step (.setState .esNone)
      (step (.notify .cleanCreateObjectErrors)
        ((syncOneSource fuel config pageSize (loadSources config w.sources w.nextObj) c
          (findSource (loadSources config w.sources w.nextObj) c)).exec step
            (started .esSyncSource w)).2) := by
  unfold doSyncSource notify execute loadAllSources
  simp only [Prog.bind_eq, Prog.exec_bind, Prog.exec_perform]
  rfl

/-- The source with the arguments of doSyncSource. -/
def commanded (c : SourceCommand) (src : SyncSource) : SyncSource :=
  { src with
    params := c.params, action := c.action, searchSyncChanges := c.searchSyncChanges,
    progressStep := c.progressStep }

/-- The notification at the end of doSyncSource. -/
def ended (src : SyncSource) : Notification :=
  .fireSyncNotification (some src.id) true src.errCode.val
    (if src.errCode = .errNone then "Sync completed." else "")

theorem syncOneSource_exec (sources : List SyncSource) (c : SourceCommand) (src : SyncSource)
    (w : World) :
    ((syncOneSource fuel config pageSize sources c (some src)).exec step w).2 =
      step (.notify (ended ((syncFound fuel config pageSize sources
          (commanded c src)).exec step w).1))
        ((syncFound fuel config pageSize sources (commanded c src)).exec step w).2 := by
  unfold syncOneSource
  show (Prog.exec step (Prog.bind _ _) w).2 = _
  rw [Prog.exec_bind]
  rfl

theorem syncFound_exec (sources : List SyncSource) (src : SyncSource) {w : World}
    (h : 0 < (session w).length) :
    (syncFound fuel config pageSize sources src).exec step w =
      if (idLoaded config w).syncState ≠ .esStop then
        (sync fuel ⟨config, clientId w, pageSize, sources⟩ src).exec step
          (step (.notify .cleanLastSyncObjectCount) (idLoaded config w))
      else (src, idLoaded config w) := by
  unfold syncFound
  show Prog.exec step (if 0 < (session w).length then _ else _) w = _
  rw [if_pos h, Prog.bind_eq, Prog.exec_bind, loadClientID_exec]
  show Prog.exec step (if (idLoaded config w).syncState ≠ .esStop then _ else _) _ = _
  split <;> rfl

end Calls

end Rhodes.ClientIds
