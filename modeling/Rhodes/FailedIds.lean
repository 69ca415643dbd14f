import Rhodes.ClientIds

/-!
An id request that fails is never handled: the sync goes on with an empty id, or it is skipped and
reported as completed.
-/
namespace Rhodes.FailedIds

open Database Json Statements Interleaving Source ClientChanges ServerChanges SyncEngine Threads
  PushRound PullRules StateWrites Sessions ClientIds

section Sending

variable {n : Nat}

/-- A request was made for a source behind the first `n` events. -/
def Sent (n : Nat) (w : World) : Prop :=
  ∃ q ok, .answered q ok ∈ w.log.drop n ∧ Request.ofSource q = true

/-- A source has been asked for, or the sync still goes on. -/
def Going (n : Nat) (w : World) : Prop :=
  Sent n w ∨ (n ≤ w.log.length ∧ w.syncState.isContinueSync = true)

/-- Every statement but the writes of the state. -/
def Running : Stmt → Prop
  | .setState _ => False
  | _ => True

theorem sent_step (i : Stmt) {w : World} (h : Sent n w) : Sent n (step i w) := by
  obtain ⟨q, ok, hmem, hsource⟩ := h
  refine ⟨q, ok, ?_, hsource⟩
  rw [step_log, List.drop_append]
  exact List.mem_append_left _ hmem

theorem sent_exec {α : Type} (p : Sync α) {w : World} (h : Sent n w) :
    Sent n (p.exec step w).2 :=
  Prog.Only.exec (fun i _ _ hw => sent_step i hw) p.only_true h

theorem sent_request {q : Request} (hq : Request.ofSource q = true) {w : World} (h : Going n w) :
    Sent n (step (.request q) w) := by
  rcases h with h | ⟨hn, -⟩
  · exact sent_step _ h
  · refine ⟨q, (w.net w.requests).isOK, ?_, hq⟩
    rw [step_log, List.drop_append_of_le_length hn]
    exact List.mem_append_right _ (List.mem_singleton_self _)

theorem going_step {i : Stmt} (hi : Running i) {w : World} (h : Going n w) :
    Going n (step i w) := by
  rcases h with h | ⟨hn, hgo⟩
  · exact Or.inl (sent_step i h)
  · refine Or.inr ⟨?_, ?_⟩
    · rw [step_log, List.length_append]
      omega
    · rw [step_syncState]
      cases i <;> first | exact hgo | exact hi.elim

/-- The program does not stop a sync that has asked for nothing. -/
def Keeps (n : Nat) {α : Type} (p : Sync α) : Prop :=
  ∀ w, Going n w → Going n (p.exec step w).2

theorem keeps_only {α : Type} {p : Sync α} (hp : p.Only Running) : Keeps n p :=
  fun _ hw => Prog.Only.exec (fun _ _ hi hv => going_step hi hv) hp hw

theorem keeps_bind {α β : Type} {p : Sync α} {f : α → Sync β} (hp : Keeps n p)
    (hf : ∀ a, Keeps n (f a)) : Keeps n (p.bind f) := by
  intro w hw
  rw [Prog.exec_bind]
  exact hf _ _ (hp w hw)

theorem keeps_ite {α : Type} {c : Prop} [Decidable c] {p q : Sync α} (hp : Keeps n p)
    (hq : Keeps n q) : Keeps n (if c then p else q) := by
  split
  · exact hp
  · exact hq

theorem keeps_send {α : Type} {q : Request} (hq : Request.ofSource q = true)
    (f : NetResponse → Sync α) : Keeps n ((send q).bind f) := by
  intro w hw
  rw [Prog.exec_bind]
  exact Or.inl (sent_exec _ (sent_request hq hw))

theorem syncClientBlobs_keeps (e : Engine) (this : SyncSource) (t : UpdateType)
    (strBaseQuery : String) (blobs : List SyncBlob) :
    Keeps n (syncClientBlobs e this t strBaseQuery blobs) := by
  cases blobs with
  | nil => exact keeps_only trivial
  | cons blob rest => exact keeps_send rfl _

theorem confirmPush_keeps (e : Engine) (this : SyncSource) (t : UpdateType) (b : PushBody) :
    Keeps n (confirmPush e this t b) := by
  refine keeps_ite (keeps_bind (keeps_only (execute_only ?_)) ?_) (keeps_ite ?_ ?_)
  · split <;> trivial
  · exact fun _ => syncClientBlobs_keeps e this t _ _
  · refine keeps_only (Prog.Only.bind (execute_only ?_) (fun _ => trivial))
    split <;> trivial
  · exact keeps_only trivial

theorem pushLoop_keeps (e : Engine) (types : List UpdateType) (this : SyncSource) :
    Keeps n (pushLoop e this types) := by
  induction types generalizing this with
  | nil => exact keeps_only trivial
  | cons t rest ih =>
    refine keeps_bind (keeps_only (query_only trivial _))
      (fun b => keeps_ite (keeps_bind ?_ (fun _ => ih _)) (keeps_only trivial))
    refine keeps_bind (keeps_only (Prog.Only.perform trivial _)) (fun body => keeps_ite ?_ ?_)
    · exact keeps_send rfl _
    · exact confirmPush_keeps e this t body

/-- A pull that goes on makes its request. -/
theorem syncServerChanges_sends (e : Engine) (fuel : Nat) (this : SyncSource) {w : World}
    (h : Going n w) : Sent n ((syncServerChanges e (fuel + 1) this).exec step w).2 := by
  unfold syncServerChanges
  show Sent n (Prog.exec step (if w.syncState.isContinueSync = true then _ else _) w).2
  by_cases hgo : w.syncState.isContinueSync = true
  · rw [if_pos hgo, Prog.bind_eq, Prog.exec_bind]
    exact sent_exec _ (sent_request rfl h)
  · rw [if_neg hgo]
    exact h.resolve_right (fun h => hgo h.2)

/-- syncClient ends a sync only where it has asked for the source. -/
theorem syncClient_going (fuel : Nat) (e : Engine) (this : SyncSource) {w : World}
    (h : Going n w) : Going n ((syncClient (fuel + 1) e this).exec step w).2 ∧
      (((syncClient (fuel + 1) e this).exec step w).1.2 = true →
        Sent n ((syncClient (fuel + 1) e this).exec step w).2) := by
  unfold syncClient
  rw [Prog.bind_eq, Prog.exec_bind]
  have hread : ((isPendingClientChanges this).exec step w).2 = w := rfl
  rw [hread]
  generalize ((isPendingClientChanges this).exec step w).1 = pending
  rw [Prog.bind_eq, Prog.exec_bind]
  cases pending with
  | true =>
    have hsent : Sent n ((pullPending (fuel + 1) e this true).exec step w).2 := by
      unfold pullPending
      rw [if_pos rfl, Prog.bind_eq, Prog.exec_bind]
      exact sent_exec _ (syncServerChanges_sends e fuel this h)
    exact ⟨Or.inl (sent_exec _ hsent), fun _ => sent_exec _ hsent⟩
  | false =>
    have hpull : (pullPending (fuel + 1) e this false).exec step w = ((this, false), w) := rfl
    rw [hpull]
    dsimp only
    rw [if_neg Bool.false_ne_true, Prog.bind_eq]
    refine ⟨keeps_bind (keeps_only (query_only trivial _)) (fun b => keeps_ite ?_ ?_) w h, ?_⟩
    · refine keeps_bind (pushLoop_keeps e _ _) (fun that => keeps_only ?_)
      refine Prog.Only.bind (Prog.Only.bind (Prog.Only.perform trivial _) ?_) (fun _ => trivial)
      exact fun askParams => Prog.Only.bind (execute_only trivial) (fun _ => trivial)
    · exact keeps_only trivial
    · intro htrue
      refine absurd htrue (Bool.eq_false_iff.mp ?_)
      refine Prog.Returns.exec (R := fun r : SyncSource × Bool => r.2 = false) ?_ step w
      refine Prog.Returns.perform_bind _ _ (fun b => Prog.Returns.ite ?_ rfl)
      exact Prog.Returns.ret_bind (fun that => Prog.Returns.ret_bind (fun _ => rfl))

/-- A sync that is not stopped asks for its source. -/
theorem sync_sends (fuel : Nat) (e : Engine) (this : SyncSource) {w : World} (h : Going n w) :
    Sent n ((sync (fuel + 1) e this).exec step w).2 := by
  unfold sync
  rw [Prog.bind_eq, Prog.exec_bind, Prog.bind_eq, Prog.exec_bind, Prog.bind_eq, Prog.exec_bind]
  have hstart : Going n ((startToken this).exec step
      (step (.notify (.fireSyncNotification (some this.id) false ErrCode.errNone.val
        ("Synchronizing " ++ this.name ++ "..."))) w)).2 := by
    refine keeps_only ?_ _ (going_step ?_ h)
    · unfold startToken
      refine Prog.Only.ite ?_ trivial
      exact processToken_tokens (fun _ _ => trivial) (fun _ _ => trivial) this 1
    · trivial
  have hpart : ∀ that v, Going n v →
      Going n ((syncClientPart (fuel + 1) e that).exec step v).2 ∧
      (((syncClientPart (fuel + 1) e that).exec step v).1.2 = true →
        Sent n ((syncClientPart (fuel + 1) e that).exec step v).2) := by
    intro that v hv
    unfold syncClientPart
    split
    · exact syncClient_going fuel e that hv
    · exact ⟨hv, nofun⟩
  obtain ⟨hgo, hsent⟩ := hpart _ _ hstart
  split
  · exact hsent ‹_›
  · exact syncServerChanges_sends e fuel _ hgo

end Sending

section Completing

variable {n : Nat}

/-- The end of a sync was reported behind the first `n` notifications. -/
def Completed (n : Nat) (w : World) : Prop :=
  ∃ src, .fireSyncNotification src true ErrCode.errNone.val "Sync completed." ∈ w.notified.drop n

theorem step_notified (i : Stmt) (w : World) : (step i w).notified = w.notified ++
    match i with
      | .notify m => [m]
      | _ => [] := by
  cases i with
  | notify m => rfl
  | selectAsk src =>
    simp only [step, List.append_nil]
    split <;> rfl
  | _ => exact (List.append_nil _).symm

theorem completed_step (i : Stmt) {w : World} (h : Completed n w) : Completed n (step i w) := by
  obtain ⟨src, hmem⟩ := h
  refine ⟨src, ?_⟩
  rw [step_notified, List.drop_append]
  exact List.mem_append_left _ hmem

theorem notified_exec {α : Type} (p : Sync α) {w : World} (h : n ≤ w.notified.length) :
    n ≤ (p.exec step w).2.notified.length := by
  refine Prog.Only.exec (I := fun v : World => n ≤ v.notified.length) ?_ p.only_true h
  intro i v _ hv
  rw [step_notified, List.length_append]
  omega

theorem completed_notify (src : Option Int) {w : World} (h : n ≤ w.notified.length) :
    Completed n (step (.notify (.fireSyncNotification src true ErrCode.errNone.val
      "Sync completed.")) w) := by
  refine ⟨src, ?_⟩
  rw [step_notified, List.drop_append_of_le_length h]
  exact List.mem_append_right _ (List.mem_singleton_self _)

theorem log_exec {α : Type} (p : Sync α) {w : World} (h : n ≤ w.log.length) :
    n ≤ (p.exec step w).2.log.length := by
  refine Prog.Only.exec (I := fun v : World => n ≤ v.log.length) ?_ p.only_true h
  intro i v _ hv
  rw [step_log, List.length_append]
  omega

theorem idLoaded_exec (config : Config) (w : World) :
    idLoaded config w = ((loadClientID config).exec step w).2 := by
  rw [loadClientID_exec]

/-- A round that does not go on reports its completion, and so does one without sources. -/
theorem syncAllSources_completes (fuel : Nat) (e : Engine) {w : World}
    (hn : n ≤ w.notified.length)
    (h : e.sources.drop (getStartSource e.sources) = [] ∨ w.syncState.isContinueSync = false) :
    Completed n ((syncAllSources fuel e).exec step w).2 := by
  have hround :
      (syncSources fuel e false (e.sources.drop (getStartSource e.sources))).exec step w =
        (false, w) := by
    cases hsources : e.sources.drop (getStartSource e.sources) with
    | nil => rfl
    | cons src rest =>
      have hstop := h.resolve_left (by rw [hsources]; exact List.cons_ne_nil _ _)
      show Prog.exec step (if w.syncState.isContinueSync = true then _ else _) w = _
      rw [hstop]
      rfl
  unfold syncAllSources
  rw [Prog.bind_eq, Prog.exec_bind, hround]
  exact completed_notify none hn

/-- A round that goes on asks for its first source. -/
theorem syncAllSources_sends (fuel : Nat) (e : Engine) {w : World} {n : Nat}
    (hn : n ≤ w.log.length) (hgo : w.syncState.isContinueSync = true)
    (h : e.sources.drop (getStartSource e.sources) ≠ []) :
    Sent n ((syncAllSources (fuel + 1) e).exec step w).2 := by
  obtain ⟨src, rest, hsources⟩ := List.exists_cons_of_ne_nil h
  unfold syncAllSources
  rw [Prog.bind_eq, Prog.exec_bind, hsources]
  refine sent_exec _ ?_
  show Sent n (Prog.exec step (if w.syncState.isContinueSync = true then _ else _) w).2
  rw [if_pos hgo, Prog.bind_eq, Prog.exec_bind]
  refine sent_exec _ ?_
  show Sent n (Prog.exec step (if w.syncState ≠ .esStop then _ else _) w).2
  rw [if_pos (by rintro hstop; rw [hstop] at hgo; cases hgo)]
  exact sync_sends fuel e src (Or.inr ⟨hn, hgo⟩)

/-- A failed id request is not noticed by a round. -/
theorem syncLoaded_failed (fuel : Nat) (config : Config) (pageSize : Int)
    (sources : List SyncSource) {session : String} (hsession : 0 < session.length) {w : World}
    (hgo : w.syncState.isContinueSync = true) (hfails : RequestFails w) {n m : Nat}
    (hn : n ≤ w.log.length) (hm : m ≤ w.notified.length) :
    ((clientId w).length = 0 ∧
      Sent n ((syncLoaded (fuel + 1) config pageSize sources session).exec step w).2) ∨
    Completed m ((syncLoaded (fuel + 1) config pageSize sources session).exec step w).2 := by
  rw [syncLoaded_exec _ _ _ _ hsession]
  have hnotified : m ≤ (step (.notify .cleanLastSyncObjectCount)
      (idLoaded config w)).notified.length := by
    rw [idLoaded_exec]
    exact notified_exec (execute (.notify .cleanLastSyncObjectCount)) (notified_exec _ hm)
  rcases idLoaded_failed config hfails hgo with ⟨hid, hstate⟩ | hstop
  · by_cases hsources : sources.drop (getStartSource sources) = []
    · exact Or.inr (syncAllSources_completes _ _ hnotified (Or.inl hsources))
    · refine Or.inl ⟨hid, syncAllSources_sends fuel _ ?_ ?_ hsources⟩
      · show n ≤ (idLoaded config w).log.length
        rw [idLoaded_exec]
        exact log_exec _ hn
      · show (idLoaded config w).syncState.isContinueSync = true
        rw [hstate, hgo]
  · refine Or.inr (syncAllSources_completes _ _ hnotified (Or.inr ?_))
    show (idLoaded config w).syncState.isContinueSync = false
    rw [hstop]
    rfl

/-- A failed id request is not noticed by the sync of one source. -/
theorem syncOneSource_failed (fuel : Nat) (config : Config) (pageSize : Int)
    (sources : List SyncSource) (c : SourceCommand) {src : SyncSource}
    (hsrc : src.errCode = .errNone) {w : World} (hsession : 0 < (session w).length)
    (hgo : w.syncState.isContinueSync = true) (hfails : RequestFails w) {n m : Nat}
    (hn : n ≤ w.log.length) (hm : m ≤ w.notified.length) :
    ((clientId w).length = 0 ∧
      Sent n ((syncOneSource (fuel + 1) config pageSize sources c (some src)).exec step w).2) ∨
    Completed m
      ((syncOneSource (fuel + 1) config pageSize sources c (some src)).exec step w).2 := by
  rw [syncOneSource_exec, syncFound_exec _ _ _ _ _ hsession]
  rcases idLoaded_failed config hfails hgo with ⟨hid, hstate⟩ | hstop
  · have hgo' : (idLoaded config w).syncState.isContinueSync = true := by rw [hstate, hgo]
    rw [if_pos (by rintro hstop; rw [hstop] at hgo'; cases hgo')]
    refine Or.inl ⟨hid, sent_step _ (sync_sends fuel _ _ (Or.inr ⟨?_, hgo'⟩))⟩
    show n ≤ (idLoaded config w).log.length
    rw [idLoaded_exec]
    exact log_exec _ hn
  · rw [if_neg (not_not.mpr hstop)]
    have hended : ended (commanded c src) =
        .fireSyncNotification (some src.id) true ErrCode.errNone.val "Sync completed." := by
      unfold ended
      rw [show (commanded c src).errCode = .errNone from hsrc, if_pos rfl]
      rfl
    rw [hended, idLoaded_exec]
    exact Or.inr (completed_notify _ (notified_exec _ hm))

end Completing

section Rows

/-- The statements that leave client_info. -/
def KeepsRows : Stmt → Prop
  | .saveClientId _ => False
  | .clearReset _ => False
  | _ => True

theorem keepsRows_storing {i : Stmt} (h : Storing i) : KeepsRows i := by
  cases i <;> trivial

theorem keepsRows_booking {types : List UpdateType} {i : Stmt} (h : Booking types i) :
    KeepsRows i := by
  cases i <;> trivial

theorem keepsRows_syncsFor (e : Engine) : SyncsFor e KeepsRows where
  storing := fun _ => keepsRows_storing
  stop := trivial
  pullFile := fun _ _ => trivial
  pullData := fun _ => trivial
  storeToken := fun _ _ => trivial
  tokenProcessed := fun _ _ => trivial
  pageProcessed := fun _ _ _ => trivial
  pushes := ⟨fun _ => keepsRows_booking, fun _ _ _ _ _ => trivial, fun _ _ _ _ _ _ => trivial⟩
  endOfData := fun _ => trivial
  selectAsk := fun _ => trivial
  deleteAsk := fun _ _ => trivial

theorem rows_exec {α : Type} {p : Sync α} (hp : p.Only KeepsRows) (d : Device) :
    (d.exec p).rows = d.rows := by
  unfold Device.exec
  refine Prog.Only.exec (I := fun d' : Device => d'.rows = d.rows) ?_
    (Prog.Only.embed Device.world (fun _ hi => hi) hp) rfl
  intro i d' hi hd'
  rw [← hd']
  cases i <;> first | rfl | exact hi.elim

theorem device_bind {α β : Type} (p : Sync α) (f : α → Sync β) (d : Device) :
    d.exec (p.bind f) = (d.exec p).exec (f (p.exec step d.world).1) := by
  unfold Device.exec
  rw [Prog.embed_bind, Prog.exec_bind,
    (@Prog.exec_embed _ _ _ _ _ id Device.world step Device.step (fun _ _ => rfl) p d).1]

/-- clientcreate leaves one row, with the id of its answer and without a push token. -/
theorem loadClientID_rows (config : Config) {d : Device} (h : (storedId d.world).length = 0) :
    (d.exec (loadClientID config)).rows = [{ clientId := clientId d.world }] := by
  unfold loadClientID
  rw [Prog.bind_eq, device_bind]
  show (Device.exec (if (storedId d.world).length = 0 then _ else _) d).rows = _
  rw [if_pos h, Prog.bind_eq, device_bind, requestClientIDByNet_exec]
  unfold clientId
  rw [if_pos h]
  rfl

/-- What a call does once its id is loaded leaves client_info. -/
theorem loaded_rows {α : Type} (config : Config) {d : Device} (h : (storedId d.world).length = 0)
    {f : String → Sync α} (hf : ∀ clientId, (f clientId).Only KeepsRows) :
    (d.exec ((loadClientID config).bind f)).rows = [{ clientId := clientId d.world }] := by
  rw [device_bind, rows_exec (hf _), loadClientID_rows config h]

theorem syncLoaded_rows (fuel : Nat) (config : Config) (pageSize : Int)
    (sources : List SyncSource) {session : String} (hsession : 0 < session.length) {d : Device}
    (h : (storedId d.world).length = 0) :
    (d.exec (syncLoaded fuel config pageSize sources session)).rows =
      [{ clientId := clientId d.world }] := by
  unfold syncLoaded
  rw [if_pos hsession]
  refine loaded_rows config h (fun clientId => ?_)
  exact Prog.Only.bind (execute_only trivial)
    (fun _ => syncAllSources_for (keepsRows_syncsFor _) fuel)

theorem syncFound_rows (fuel : Nat) (config : Config) (pageSize : Int)
    (sources : List SyncSource) (src : SyncSource) {d : Device}
    (hsession : 0 < (session d.world).length) (h : (storedId d.world).length = 0) :
    (d.exec (syncFound fuel config pageSize sources src)).rows =
      [{ clientId := clientId d.world }] := by
  unfold syncFound
  show (Device.exec (if 0 < (session d.world).length then _ else _) d).rows = _
  rw [if_pos hsession]
  refine loaded_rows config h (fun clientId => ?_)
  refine Prog.Only.bind (query_only trivial _) (fun state => Prog.Only.ite ?_ trivial)
  exact Prog.Only.bind (execute_only trivial) (fun _ => sync_for (keepsRows_syncsFor _) fuel _)

/-- A call that asks for an id keeps nothing else of client_info, also where it fails. -/
theorem call_rows (fuel : Nat) (config : Config) (pageSize : Int) (call : SyncCall) {d : Device}
    (hloads : call.Loads config d.world) (h : (storedId d.world).length = 0) :
    (d.exec (call.prog fuel config pageSize)).rows = [{ clientId := clientId d.world }] := by
  cases call with
  | all =>
    unfold SyncCall.prog doSyncAllSources
    show (Device.exec (Prog.bind (syncLoaded fuel config pageSize _ (session d.world)) _)
      (((d.step (.setState .esSyncAllSources)).step .clearStopByUser).step .loadAllSources)).rows =
        _
    rw [device_bind]
    refine (rows_exec ?_ _).trans (syncLoaded_rows fuel config pageSize _ hloads h)
    exact execute_only trivial
  | source c =>
    obtain ⟨hsession, hfound⟩ := hloads
    obtain ⟨src, hsrc⟩ := Option.isSome_iff_exists.mp hfound
    unfold SyncCall.prog doSyncSource
    show (Device.exec (Prog.bind (syncOneSource fuel config pageSize _ c
        (findSource (loadSources config d.world.sources d.world.nextObj) c)) _)
      (((d.step (.setState .esSyncSource)).step .clearStopByUser).step .loadAllSources)).rows = _
    rw [device_bind, hsrc]
    refine (rows_exec ?_ _).trans ?_
    · exact Prog.Only.bind (execute_only trivial) (fun _ => execute_only trivial)
    · show (Device.exec (Prog.bind (syncFound fuel config pageSize _ (commanded c src)) _) _).rows =
        _
      rw [device_bind]
      refine (rows_exec ?_ _).trans (syncFound_rows fuel config pageSize _ _ hsession h)
      exact execute_only trivial

end Rows

section Handled

theorem loadSources_errCode {config : Config} {sources : SourcesTable} {nextObj : Nat}
    {src : SyncSource} (h : src ∈ loadSources config sources nextObj) : src.errCode = .errNone := by
  obtain ⟨p, -, hload⟩ := List.mem_filterMap.mp h
  unfold loadSource at hload
  dsimp only at hload
  split at hload
  · cases hload
  · split at hload
    · cases hload
      rfl
    · cases hload

theorem found_errCode {config : Config} {sources : SourcesTable} {nextObj : Nat}
    {c : SourceCommand} {src : SyncSource}
    (h : findSource (loadSources config sources nextObj) c = some src) :
    src.errCode = .errNone := by
  unfold findSource at h
  split at h
  · exact loadSources_errCode (List.mem_of_find?_eq_some h)
  · exact loadSources_errCode (List.mem_of_find?_eq_some h)

variable {S : Request → Prop} {n : Nat} (fuel : Nat) (config : Config) (pageSize : Int)

theorem asked_calm {α : Type} {p : Sync α} (hp : p.Only Calm) {w : World} (h : Asked S n w) :
    Asked S n (p.exec step w).2 := asked_exec (hp.mono (fun _ => asks_calm)) h

theorem asked_started (state : SyncState) {w : World} (h : Asked S n w) :
    Asked S n (started state w) :=
  asked_step (asks_other id) (asked_step (asks_other id) (asked_step (asks_other id) h))

/-- The engine of a call that has loaded its client id. -/
theorem asked_sync {w : World} (h : Asked S n w)
    (hS : ∀ q, Request.Carries (clientId w) q → S q) {α : Type} {p : Sync α}
    (hp : p.Only (Asks (Request.Carries (clientId w)))) :
    Asked S n (p.exec step (step (.notify .cleanLastSyncObjectCount) (idLoaded config w))).2 := by
  refine asked_exec (hp.mono (fun i hi q hq hsource => hS q (hi q hq hsource))) ?_
  refine asked_step (asks_other id) ?_
  rw [idLoaded_exec]
  exact asked_calm (loadClientID_calm config) h

theorem syncLoaded_asked (sources : List SyncSource) {w : World} (h : Asked S n w)
    (hS : 0 < (session w).length → ∀ q, Request.Carries (clientId w) q → S q) :
    Asked S n ((syncLoaded fuel config pageSize sources (session w)).exec step w).2 := by
  by_cases hsession : 0 < (session w).length
  · rw [syncLoaded_exec _ _ _ _ hsession]
    have hfor := carries_syncsFor ⟨config, clientId w, pageSize, sources⟩
    exact asked_sync config h (hS hsession) (syncAllSources_for hfor fuel)
  · unfold syncLoaded
    rw [if_neg hsession]
    refine asked_calm ?_ h
    cases sources[getStartSource sources]? with
    | none => exact Prog.Only.perform trivial _
    | some src => exact Prog.Only.perform trivial _

theorem syncOneSource_asked (sources : List SyncSource) (c : SourceCommand)
    (found : Option SyncSource) {w : World} (h : Asked S n w)
    (hS : 0 < (session w).length → found.isSome = true →
      ∀ q, Request.Carries (clientId w) q → S q) :
    Asked S n ((syncOneSource fuel config pageSize sources c found).exec step w).2 := by
  cases found with
  | none => exact asked_calm (Prog.Only.perform trivial _) h
  | some src =>
    rw [syncOneSource_exec]
    refine asked_step (asks_other id) ?_
    by_cases hsession : 0 < (session w).length
    · rw [syncFound_exec _ _ _ _ _ hsession]
      split
      · have hfor := carries_syncsFor ⟨config, clientId w, pageSize, sources⟩
        exact asked_sync config h (hS hsession rfl) (sync_for hfor fuel _)
      · show Asked S n (idLoaded config w)
        rw [idLoaded_exec]
        exact asked_calm (loadClientID_calm config) h
    · unfold syncFound
      show Asked S n (Prog.exec step (if 0 < (session w).length then _ else _) w).2
      rw [if_neg hsession]
      exact h

/-- Every request of a source in a call carries the client id that the call has loaded. -/
theorem call_asked (call : SyncCall) {w : World} (h : Asked S n w)
    (hS : call.Loads config w → ∀ q, Request.Carries (clientId w) q → S q) :
    Asked S n ((call.prog fuel config pageSize).exec step w).2 := by
  cases call with
  | all =>
    unfold SyncCall.prog
    rw [doSyncAllSources_exec]
    exact asked_step (asks_other id)
      (syncLoaded_asked fuel config pageSize _ (asked_started _ h) hS)
  | source c =>
    unfold SyncCall.prog
    rw [doSyncSource_exec]
    refine asked_step (asks_other id) (asked_step (asks_other id) ?_)
    exact syncOneSource_asked fuel config pageSize _ c _ (asked_started _ h)
      (fun hsession hfound => hS ⟨hsession, hfound⟩)

/-- A failed id request is not noticed by a call. -/
theorem call_failed (call : SyncCall) {w : World} (hloads : call.Loads config w)
    (hfails : RequestFails w) :
    ((clientId w).length = 0 ∧
      Sent w.log.length ((call.prog (fuel + 1) config pageSize).exec step w).2) ∨
    Completed w.notified.length ((call.prog (fuel + 1) config pageSize).exec step w).2 := by
  cases call with
  | all =>
    unfold SyncCall.prog
    rw [doSyncAllSources_exec]
    rcases syncLoaded_failed fuel config pageSize (loadSources config w.sources w.nextObj) hloads
        (w := started .esSyncAllSources w) rfl hfails (Nat.le_refl w.log.length)
        (Nat.le_refl w.notified.length) with ⟨hid, hsent⟩ | hcompleted
    · exact Or.inl ⟨hid, sent_step _ hsent⟩
    · exact Or.inr (completed_step _ hcompleted)
  | source c =>
    unfold SyncCall.prog
    rw [doSyncSource_exec]
    obtain ⟨hsession, hfound⟩ := hloads
    obtain ⟨src, hsrc⟩ := Option.isSome_iff_exists.mp hfound
    rw [hsrc]
    rcases syncOneSource_failed fuel config pageSize (loadSources config w.sources w.nextObj) c
        (found_errCode hsrc) (w := started .esSyncSource w) hsession rfl hfails
        (Nat.le_refl w.log.length) (Nat.le_refl w.notified.length) with ⟨hid, hsent⟩ | hcompleted
    · exact Or.inl ⟨hid, sent_step _ (sent_step _ hsent)⟩
    · exact Or.inr (completed_step _ (completed_step _ hcompleted))

/-- No source is asked for without a client id, and a failed id request leaves client_info and is
not reported as a completed sync. -/
structure Handled (config : Config) (call : SyncCall) (d d' : Device) : Prop where
  identified : Asked (fun q => Request.Carries (clientId d.world) q ∧ 0 < (clientId d.world).length)
    d.world.log.length d'.world
  kept : call.Loads config d.world → RequestFails d.world → d'.rows = d.rows
  reported : call.Loads config d.world → RequestFails d.world →
    ¬Completed d.world.notified.length d'.world

/-- A call handles its id request just where there is none that fails. -/
theorem handled_iff (call : SyncCall) (d : Device) :
    Handled config call d (d.exec (call.prog (fuel + 1) config pageSize)) ↔
      ¬(call.Loads config d.world ∧ RequestFails d.world) := by
  constructor
  · rintro h ⟨hloads, hfails⟩
    have hreported := h.reported hloads hfails
    have hidentified := h.identified
    rw [world_exec] at hreported hidentified
    rcases call_failed fuel config pageSize call hloads hfails with ⟨hid, q, ok, hmem, hq⟩ | hdone
    · have hpos := (hidentified q ok hmem hq).2
      omega
    · exact hreported hdone
  · intro h
    refine ⟨?_, fun hloads hfails => absurd ⟨hloads, hfails⟩ h,
      fun hloads hfails => absurd ⟨hloads, hfails⟩ h⟩
    rw [world_exec]
    refine call_asked (fuel + 1) config pageSize call ?_ ?_
    · intro q ok hmem
      rw [List.drop_length] at hmem
      cases hmem
    · exact fun hloads q hq => ⟨hq, clientId_pos (fun hfails => h ⟨hloads, hfails⟩)⟩

/-- A server that refuses the first request and accepts everything behind it. -/
def refuseFirst : Nat → NetResponse
  | 0 => ⟨false, true, none⟩
  | _ => ⟨true, true, none⟩

/-- A device that has no client id yet. -/
def firstStart : Device where
  world := { smallWorld .empty .empty refuseFirst with clientInfo := none }
  rows := []
  agrees := rfl

/-- A device that has to reset its client. -/
def resetDue : Device where
  world := { smallWorld .empty .empty refuseFirst with
    clientInfo := some ⟨"c", 1⟩ }
  rows := [{ clientId := "c", token := some "pin", tokenSent := some 1, reset := some 1 }]
  agrees := rfl

theorem failed_ids_unnoticed :
    ¬Handled smallConfig .all firstStart
      (firstStart.exec (SyncCall.all.prog 1 smallConfig 2000)) ∧
    ¬Handled smallConfig .all resetDue
      (resetDue.exec (SyncCall.all.prog 1 smallConfig 2000)) := by
  constructor
  · intro h
    have hrows := h.kept (by unfold SyncCall.Loads; decide) (by unfold RequestFails; decide)
    exact absurd hrows (by decide +kernel)
  · intro h
    refine h.reported (by unfold SyncCall.Loads; decide) (by unfold RequestFails; decide) ?_
    exact ⟨none, by decide +kernel⟩

end Handled

end Rhodes.FailedIds
