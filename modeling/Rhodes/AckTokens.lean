import Rhodes.PushRound
import Rhodes.Sessions

/-!
Tokens and their acknowledgement. The token of a page is stored in the object and
in the sources table before the page is merged, so the next request would
acknowledge a page that was merged in part only. It does not, because every path
on which a merge is cut leaves the engine stopped: `Cut` and `Ended` carry this
through the loops of a merge, whatever else they keep. An object made from the
sources table has read its token there and acknowledges nothing.
-/
namespace Rhodes.AckTokens

open Database Json Statements Queue Interleaving Source ClientChanges ServerChanges SyncEngine Rhom
  Threads PullRules PushRound Sessions

/-- The objects that have processed pages have got their numbers. -/
def Known (w : World) : Prop :=
  ∀ obj token complete, Event.page obj token complete ∈ w.log → obj < w.nextObj

/-- A request acknowledges a token only after its own object processed a page with
it to the end; after processToken the stored token is that of the object; and the
objects that a command makes are new. -/
def AckSafe : Stmt → World → Prop
  | .request (.pullData obj _ q), w =>
      ∀ token, q.ackToken = some token → Event.page obj token true ∈ w.log
  | .tokenProcessed src token, w => w.sources.token src = some token
  | .loadAllSources, w => Known w
  | _, _ => True

def freely : Move Stmt World UIAction → Prop := fun _ => True

/-- What the UI thread and most statements do to what is known about tokens. -/
structure Since (w w' : World) : Prop where
  sources : w'.sources = w.sources
  nextObj : w'.nextObj = w.nextObj
  pages : ∀ obj token complete,
    Event.page obj token complete ∈ w'.log ↔ Event.page obj token complete ∈ w.log
  stopped : Stopped w → Stopped w'

theorem since_frame {w w' : World} (h : Frame w w') : Since w w' := by
  refine ⟨h.sources, h.nextObj, fun _ _ _ => by rw [h.log], ?_⟩
  intro hstop
  rcases h.syncState with hsame | hnot
  · rw [Stopped, hsame]
    exact hstop
  · simpa [Stopped] using hnot

/-- The statements that have nothing to do with tokens. -/
def Steady : Stmt → Prop
  | .request (.pullData _ _ _) => False
  | .storeToken _ _ => False
  | .tokenProcessed _ _ => False
  | .loadAllSources => False
  | .pageProcessed _ _ _ => False
  | .setState s => s = .esStop
  | _ => True

theorem since_request (q : Request) (w : World) : Since w (step (.request q) w) :=
  ⟨rfl, rfl, fun _ _ _ => by simp [step], fun h => h⟩

theorem Steady.since {i : Stmt} (h : Steady i) (w : World) : Since w (step i w) := by
  cases i
  case request q => exact since_request q w
  case storeToken => exact h.elim
  case tokenProcessed => exact h.elim
  case loadAllSources => exact h.elim
  case pageProcessed => exact h.elim
  case setState s =>
    cases h
    exact ⟨rfl, rfl, fun _ _ _ => Iff.rfl, fun _ => rfl⟩
  case selectAsk src =>
    simp only [step]
    split <;> exact ⟨rfl, rfl, fun _ _ _ => Iff.rfl, fun h => h⟩
  all_goals exact ⟨rfl, rfl, fun _ _ _ => Iff.rfl, fun h => h⟩

theorem Steady.ackSafe {i : Stmt} (h : Steady i) (w : World) : AckSafe i w := by
  cases i
  case request q =>
    cases q
    case pullData => exact h.elim
    all_goals trivial
  all_goals first | exact h.elim | trivial

theorem Merging.steady {i : Stmt} (h : Merging i) : Steady i := by
  cases i
  case request q => cases q <;> first | exact h.elim | trivial
  case setState s => exact h
  all_goals first | exact h.elim | trivial

theorem Pushing.steady {types : List UpdateType} {i : Stmt} (h : Pushing types i) : Steady i := by
  cases i
  case request q => cases q <;> first | exact h.elim | trivial
  case setState s => exact h
  all_goals first | exact h.elim | trivial

/-- An assertion about tokens alone. -/
def Closed (P : World → Prop) : Prop := ∀ w w', P w → Since w w' → P w'

theorem Closed.stable {P : World → Prop} (hP : Closed P) : (against freely AckSafe).Stable P :=
  stable_of_frame (fun w w' h hframe => hP w w' h (since_frame hframe))

theorem Closed.and {P Q : World → Prop} (hP : Closed P) (hQ : Closed Q) :
    Closed (fun w => P w ∧ Q w) := fun w w' h hsince => ⟨hP w w' h.1 hsince, hQ w w' h.2 hsince⟩

theorem Closed.imp {P : World → Prop} (hP : Closed P) (c : Prop) : Closed (fun w => c → P w) :=
  fun w w' h hsince hc => hP w w' (h hc) hsince

theorem closed_stopped : Closed Stopped := fun _ _ h hsince => hsince.stopped h

theorem closed_known : Closed Known := by
  intro w w' h hsince obj token complete hpage
  rw [hsince.nextObj]
  exact h obj token complete ((hsince.pages _ _ _).mp hpage)

theorem Closed.only {P : World → Prop} (hP : Closed P) {α : Type} {p : Sync α}
    (hp : p.Only Steady) : (against freely AckSafe).Triple P p (fun _ => P) :=
  Discipline.Triple.only hP.stable (fun _ w hi h _ => ⟨hi.ackSafe w, hP w _ h (hi.since w)⟩) hp

theorem Closed.merging {P : World → Prop} (hP : Closed P) {α : Type} {p : Sync α}
    (hp : p.Only Merging) : (against freely AckSafe).Triple P p (fun _ => P) :=
  hP.only (hp.mono (fun _ => Merging.steady))

/-- The test of the engine's state, for assertions about tokens. -/
theorem Closed.continue_bind {P : World → Prop} (hP : Closed P) {α : Type} {f : Bool → Sync α}
    {R : α → World → Prop}
    (hyes : (against freely AckSafe).Triple P (f true) R)
    (hno : (against freely AckSafe).Triple (fun w => P w ∧ Stopped w) (f false) R) :
    (against freely AckSafe).Triple P (isContinueSync.bind f) R :=
  Threads.continue_bind hP.stable (fun _ hw _ => ⟨trivial, fun _ => hw, fun h => ⟨hw, h⟩⟩) hyes hno

theorem Closed.stopSync {P : World → Prop} (hP : Closed P) :
    (against freely AckSafe).Triple P stopSync (fun _ w => P w ∧ Stopped w) := by
  have hstop : Steady (.setState .esStop) := rfl
  refine hP.continue_bind ?_ ?_
  · apply Discipline.Triple.act hP.stable
    intro w hw _
    have hend : Stopped (step (.setState .esStop) w) := rfl
    exact ⟨trivial, fun v hv =>
      (hP.and closed_stopped).stable.star ⟨hP w _ hw (hstop.since w), hend⟩ hv⟩
  · exact Discipline.Triple.ret (hP.and closed_stopped).stable (fun _ h => h)

/-- The fields of an object that tokens are about. -/
structure SameToken (this that : SyncSource) : Prop where
  obj : that.obj = this.obj
  id : that.id = this.id
  token : that.token = this.token
  tokenFromDB : that.tokenFromDB = this.tokenFromDB

theorem SameToken.refl (this : SyncSource) : SameToken this this := ⟨rfl, rfl, rfl, rfl⟩

/-- A loop over entries that was cut has failed or found the engine stopped. -/
structure Cut (this : SyncSource) (P : World → Prop) (r : Merge) (w : World) : Prop where
  kept : P w
  same : SameToken this r.this
  cut : r.finished = false → r.ok = false ∨ Stopped w

/-- A loop over objects or groups that was cut leaves the engine stopped. -/
structure Ended (this : SyncSource) (P : World → Prop) (r : Merge) (w : World) : Prop where
  kept : P w
  same : SameToken this r.this
  cut : r.finished = false → Stopped w

section Merge

variable {P : World → Prop} {this₀ : SyncSource}

theorem cut_ret (hP : Closed P) {r : Merge} (hsame : SameToken this₀ r.this)
    (hcut : r.finished = false → r.ok = false) :
    (against freely AckSafe).Triple P (.ret r) (Cut this₀ P) :=
  Discipline.Triple.ret hP.stable (fun _ h => ⟨h, hsame, fun hf => Or.inl (hcut hf)⟩)

theorem processEntries_cut (hP : Closed P) (e : Engine) (nSrcID : Int)
    (oldObject object : Option String) (entries : List JsonObject) (this : SyncSource)
    (updatedOO : Bool) (hsame : SameToken this₀ this) :
    (against freely AckSafe).Triple P
      (processEntries e nSrcID oldObject object this updatedOO entries) (Cut this₀ P) := by
  induction entries generalizing this updatedOO with
  | nil => exact cut_ret hP hsame (fun h => by cases h)
  | cons entry rest ih =>
    refine hP.continue_bind ?_ ?_
    · rw [if_pos rfl]
      refine Discipline.Triple.ite (fun _ => ih _ _ hsame)
        (fun _ => Discipline.Triple.ite (fun _ => ?_) (fun _ => ?_))
      · refine Discipline.Triple.bind (hP.merging (downloadBlob_only e _)) (fun value => ?_)
        cases value with
        | error code => exact cut_ret hP ⟨hsame.1, hsame.2, hsame.3, hsame.4⟩ (fun _ => rfl)
        | ok value =>
          exact Discipline.Triple.bind (hP.merging (storing_merging (storeEntry_only _ _ _ _ _ _)))
            (fun _ => ih _ _ ⟨hsame.1, hsame.2, hsame.3, hsame.4⟩)
      · exact Discipline.Triple.bind (hP.merging (storing_merging (deleteEntry_only _)))
          (fun _ => ih _ _ ⟨hsame.1, hsame.2, hsame.3, hsame.4⟩)
    · exact Discipline.Triple.ret (hP.and closed_stopped).stable
        (fun _ h => ⟨h.1, hsame, fun _ => Or.inr h.2⟩)

theorem processSyncObjectVer1_cut (hP : Closed P) (e : Engine) (this : SyncSource)
    (json : JsonObject) (nSrcID : Int) (hsame : SameToken this₀ this) :
    (against freely AckSafe).Triple P (processSyncObjectVer1 e this json nSrcID)
      (Cut this₀ P) := by
  refine Discipline.Triple.ite (fun _ => cut_ret hP hsame (fun h => by cases h))
    (fun _ => Discipline.Triple.ite (fun _ => ?_) (fun _ => ?_))
  · exact Discipline.Triple.bind (hP.only (execute_only trivial))
      (fun _ => cut_ret hP hsame (fun h => by cases h))
  · exact processEntries_cut hP e nSrcID _ _ _ this false hsame

/-- The rest of a loop, after a part of it that may have been cut. -/
theorem ended_bind (hP : Closed P) {p : Sync Merge} (done : Bool)
    (h : ∀ Q, Closed Q → (against freely AckSafe).Triple Q p (Ended this₀ Q)) :
    (against freely AckSafe).Triple (fun w => P w ∧ (done = false → Stopped w))
      (p.bind (fun q => .ret { q with finished := done && q.finished })) (Ended this₀ P) := by
  have hQ : Closed (fun w => P w ∧ (done = false → Stopped w)) :=
    hP.and (closed_stopped.imp _)
  refine Discipline.Triple.bind (h _ hQ) (fun q => ?_)
  have hend : Closed (Ended this₀ (fun w => P w ∧ (done = false → Stopped w)) q) :=
    fun w w' hw hsince => ⟨hQ w w' hw.kept hsince, hw.same, fun hf => hsince.stopped (hw.cut hf)⟩
  refine Discipline.Triple.ret hend.stable (fun w hw => ⟨hw.kept.1, hw.same, fun hf => ?_⟩)
  cases done with
  | false => exact hw.kept.2 rfl
  | true => exact hw.cut hf

theorem processObjects_ended (hP : Closed P) (e : Engine) (nSrcID : Int)
    (objects : List JsonObject) (this : SyncSource) (hsame : SameToken this₀ this) :
    (against freely AckSafe).Triple P (processObjects e nSrcID this objects) (Ended this₀ P) := by
  induction objects generalizing this P with
  | nil => exact Discipline.Triple.ret hP.stable (fun _ h => ⟨h, hsame, fun hf => by cases hf⟩)
  | cons json rest ih =>
    refine hP.continue_bind ?_ ?_
    · refine Discipline.Triple.bind (hP.merging (storing_merging commitForUI_only)) (fun _ => ?_)
      apply Discipline.Triple.bind (processSyncObjectVer1_cut hP e this json nSrcID hsame)
      intro r s hr
      have hQ : Closed (fun w => P w ∧ (r.finished = false → r.ok = false ∨ Stopped w)) :=
        fun w w' h hsince => ⟨hP w w' h.1 hsince, fun hf => (h.2 hf).imp_right hsince.stopped⟩
      have hthis := hr.same
      refine Discipline.Triple.ite (P := fun w => P w ∧
        (r.finished = false → r.ok = false ∨ Stopped w))
        (fun hok => ?_) (fun hok => ?_) s ⟨hr.kept, hr.cut⟩
      · refine Discipline.Triple.bind (hQ.merging (storing_merging (countObject_only _ _)))
          (fun _ => ?_)
        refine Discipline.Triple.conseq (Q := Ended this₀ P)
          (ended_bind hP r.finished (fun Q hQ => ih hQ _ ⟨hthis.1, hthis.2, hthis.3, hthis.4⟩)) ?_
          (fun _ _ h => h)
        exact fun w h => ⟨h.1, fun hf => (h.2 hf).resolve_left (by simp [hok])⟩
      · refine Discipline.Triple.bind hQ.stopSync (fun _ => ?_)
        exact Discipline.Triple.ret (hQ.and closed_stopped).stable
          (fun _ h => ⟨h.1.1, hthis, fun _ => h.2⟩)
    · exact Discipline.Triple.ret (hP.and closed_stopped).stable
        (fun _ h => ⟨h.1, hsame, fun _ => h.2⟩)

theorem processServerDataVer1_ended (hP : Closed P) (e : Engine) (groups : List JsonObject)
    (this : SyncSource) (hsame : SameToken this₀ this) :
    (against freely AckSafe).Triple P (processServerDataVer1 e this groups) (Ended this₀ P) := by
  induction groups generalizing this P with
  | nil => exact Discipline.Triple.ret hP.stable (fun _ h => ⟨h, hsame, fun hf => by cases hf⟩)
  | cons group rest ih =>
    refine hP.continue_bind ?_ ?_
    · rw [if_pos rfl]
      split
      · refine Discipline.Triple.bind hP.stopSync (fun _ => ?_)
        exact Discipline.Triple.ret (hP.and closed_stopped).stable
          (fun _ h => ⟨h.1, ⟨hsame.1, hsame.2, hsame.3, hsame.4⟩, fun _ => h.2⟩)
      · apply Discipline.Triple.bind (processObjects_ended hP e _ _ this hsame)
        intro r s hr
        exact ended_bind hP r.finished (fun Q hQ => ih hQ _ hr.same) s ⟨hr.kept, hr.cut⟩
    · exact Discipline.Triple.ret (hP.and closed_stopped).stable
        (fun _ h => ⟨h.1, hsame, fun _ => h.2⟩)

end Merge

/-- The object stands for a row of the sources table and holds the token stored there. -/
structure Loaded (this : SyncSource) (w : World) : Prop where
  row : this.id ∈ w.sources.rows.map SourceRow.sourceId
  token : (w.sources.token this.id).getD 0 = this.token
  obj : this.obj < w.nextObj

/-- The state of a sync of `this` with the objects `rest` still to come. -/
structure Session (rest : List SyncSource) (this : SyncSource) (w : World) : Prop where
  known : Known w
  loaded : Loaded this w
  rest : ∀ s ∈ rest, s.id ≠ this.id ∧ Loaded s w

/-- The token of the object may be acknowledged. -/
def Processed (this : SyncSource) (w : World) : Prop :=
  this.tokenFromDB = false → this.token > 1 → Event.page this.obj this.token true ∈ w.log

/-- A session whose next request is safe: either it will not be made, or its token
is that of a processed page. -/
def Ready (rest : List SyncSource) (this : SyncSource) (w : World) : Prop :=
  Session rest this w ∧ (Processed this w ∨ Stopped w)

theorem closed_loaded (this : SyncSource) : Closed (Loaded this) := by
  intro w w' h hsince
  refine ⟨?_, ?_, ?_⟩
  · rw [hsince.sources]
    exact h.row
  · rw [hsince.sources]
    exact h.token
  · rw [hsince.nextObj]
    exact h.obj

theorem closed_session (rest : List SyncSource) (this : SyncSource) :
    Closed (Session rest this) := by
  intro w w' h hsince
  refine ⟨closed_known w w' h.known hsince, closed_loaded this w w' h.loaded hsince, ?_⟩
  exact fun s hs => ⟨(h.rest s hs).1, closed_loaded s w w' (h.rest s hs).2 hsince⟩

theorem closed_processed (this : SyncSource) : Closed (Processed this) :=
  fun _ _ h hsince hdb htoken => (hsince.pages _ _ _).mpr (h hdb htoken)

theorem closed_ready (rest : List SyncSource) (this : SyncSource) : Closed (Ready rest this) :=
  fun w w' h hsince => ⟨closed_session rest this w w' h.1 hsince,
    h.2.imp (fun hp => closed_processed this w w' hp hsince) hsince.stopped⟩

theorem Loaded.congr {this that : SyncSource} {w : World} (h : Loaded this w)
    (hsame : SameToken this that) : Loaded that w := by
  refine ⟨?_, ?_, ?_⟩
  · rw [hsame.id]
    exact h.row
  · rw [hsame.id, hsame.token]
    exact h.token
  · rw [hsame.obj]
    exact h.obj

theorem Session.congr {rest : List SyncSource} {this that : SyncSource} {w : World}
    (h : Session rest this w) (hsame : SameToken this that) : Session rest that w := by
  refine ⟨h.known, h.loaded.congr hsame, ?_⟩
  rw [hsame.id]
  exact h.rest

theorem Ready.congr {rest : List SyncSource} {this that : SyncSource} {w : World}
    (h : Ready rest this w) (hsame : SameToken this that) : Ready rest that w := by
  refine ⟨h.1.congr hsame, h.2.imp_left ?_⟩
  intro hp hdb htoken
  rw [hsame.tokenFromDB] at hdb
  rw [hsame.token] at htoken
  rw [hsame.obj, hsame.token]
  exact hp hdb htoken

/-- The token is the stored one where processToken skips the UPDATE. -/
theorem Session.stored {rest : List SyncSource} {this : SyncSource} {token : UInt64} {w : World}
    (h : Session rest this w) (hskip : token > 1 ∧ this.token = token) :
    w.sources.token this.id = some token :=
  SourcesTable.token_of_getD (h.loaded.token.trans hskip.2) hskip.1

/-- The UPDATE of processToken concerns no other object. -/
theorem Session.store {rest : List SyncSource} {this : SyncSource} {token : UInt64} {w : World}
    (h : Session rest this w) :
    Session rest { this with token, tokenFromDB := false } (step (.storeToken this.id token) w) ∧
      (step (.storeToken this.id token) w).sources.token this.id = some token := by
  have hstored : (step (.storeToken this.id token) w).sources.token this.id = some token :=
    SourcesTable.token_setToken_self _ _ h.loaded.row
  refine ⟨⟨h.known, ⟨?_, ?_, h.loaded.obj⟩, ?_⟩, hstored⟩
  · simp only [step, SourcesTable.ids_setToken]
    exact h.loaded.row
  · simp only
    rw [hstored, Option.getD_some]
  · intro s hs
    obtain ⟨hne, hloaded⟩ := h.rest s hs
    refine ⟨hne, ?_, ?_, hloaded.obj⟩
    · simp only [step, SourcesTable.ids_setToken]
      exact hloaded.row
    · simp only [step]
      rw [SourcesTable.token_setToken_ne _ _ hne]
      exact hloaded.token

theorem processToken_session (rest : List SyncSource) (this : SyncSource) (token : UInt64) :
    (against freely AckSafe).Triple (Session rest this) (processToken this token)
      (fun that w => that = { this with token, tokenFromDB := false } ∧ Session rest that w) := by
  have hmid : Closed (fun w => Session rest { this with token, tokenFromDB := false } w ∧
      w.sources.token this.id = some token) := by
    intro w w' h hsince
    refine ⟨closed_session _ _ w w' h.1 hsince, ?_⟩
    rw [hsince.sources]
    exact h.2
  refine Discipline.Triple.bind (Q := fun _ w =>
    Session rest { this with token, tokenFromDB := false } w ∧
      w.sources.token this.id = some token) ?_ (fun _ => ?_)
  · refine Discipline.Triple.ite (fun _ => ?_) (fun hskip => ?_)
    · apply Discipline.Triple.act (closed_session rest this).stable
      exact fun w h _ => ⟨trivial, fun v hv => hmid.stable.star h.store hv⟩
    · have hsame := not_not.mp hskip
      refine Discipline.Triple.ret (closed_session rest this).stable
        (fun w h => ⟨?_, h.stored hsame⟩)
      exact ⟨h.known, ⟨h.loaded.row, h.loaded.token.trans hsame.2, h.loaded.obj⟩, h.rest⟩
  · refine execute_bind hmid.stable (fun w h _ => ⟨h.2, h.1⟩) ?_
    exact Discipline.Triple.ret (closed_session _ _).stable (fun _ h => ⟨rfl, h⟩)

theorem mergePage_ended {P : World → Prop} (hP : Closed P) (e : Engine) (this : SyncSource)
    (groups : List JsonObject) :
    (against freely AckSafe).Triple P (mergePage e this groups) (Ended this P) := by
  refine Discipline.Triple.ite (fun _ => ?_) (fun _ => hP.continue_bind ?_ ?_)
  · exact Discipline.Triple.ret hP.stable (fun _ h => ⟨h, .refl this, fun hf => by cases hf⟩)
  · rw [if_pos rfl]
    refine Discipline.Triple.bind (hP.only (execute_only trivial)) (fun _ => ?_)
    have hfirst : SameToken this { this with pass := .edpNone } := ⟨rfl, rfl, rfl, rfl⟩
    refine Discipline.Triple.bind (processServerDataVer1_ended hP e groups _ hfirst) ?_
    intro r s hr
    have hQ : Closed (fun w => P w ∧ (r.finished = false → Stopped w)) :=
      hP.and (closed_stopped.imp _)
    have hsecond : SameToken this { r.this with pass := .edpDeleteObjects } :=
      ⟨hr.same.1, hr.same.2, hr.same.3, hr.same.4⟩
    refine Discipline.Triple.bind (processServerDataVer1_ended hQ e groups _ hsecond) ?_ s
      ⟨hr.kept, hr.cut⟩
    intro q t hq
    have hR : Closed (fun w => (P w ∧ (r.finished = false → Stopped w)) ∧
        (q.finished = false → Stopped w)) := hQ.and (closed_stopped.imp _)
    have hdone : Steady .endTransaction ∧ Steady (.notify .fireObjectsNotification) :=
      ⟨trivial, trivial⟩
    refine Discipline.Triple.bind (hR.only (execute_only hdone.1)) (fun _ =>
      Discipline.Triple.bind (hR.only (execute_only hdone.2)) (fun _ => ?_)) t ⟨hq.kept, hq.cut⟩
    refine Discipline.Triple.ret hR.stable (fun w hw => ⟨hw.1.1, hq.same, fun hf => ?_⟩)
    simp only [Bool.and_eq_false_iff] at hf
    exact hf.elim hw.1.2 hw.2
  · exact Discipline.Triple.ret (hP.and closed_stopped).stable
      (fun _ h => ⟨h.1, .refl this, fun _ => h.2⟩)

theorem endPage_ready (rest : List SyncSource) (this : SyncSource) :
    (against freely AckSafe).Triple (Ready rest this) (endPage this) (Ready rest) := by
  refine Discipline.Triple.bind ((closed_ready rest this).only (when_only (execute_only trivial)))
    (fun _ => ?_)
  exact Discipline.Triple.ret (closed_ready rest this).stable (fun _ h => h)

/-- After a page its token may be acknowledged, or the engine is stopped. -/
theorem pageProcessed_ready {rest : List SyncSource} {this : SyncSource} {complete : Bool}
    {w : World} (h : Session rest this w) (hcut : complete = false → Stopped w) :
    Ready rest this (step (.pageProcessed this.obj this.token complete) w) := by
  refine ⟨⟨?_, ⟨h.loaded.row, h.loaded.token, h.loaded.obj⟩,
    fun s hs => ⟨(h.rest s hs).1, (h.rest s hs).2.row, (h.rest s hs).2.token, (h.rest s hs).2.obj⟩⟩,
    ?_⟩
  · intro obj token c hpage
    rcases List.mem_append.mp hpage with hold | hnew
    · exact h.known obj token c hold
    · cases List.mem_singleton.mp hnew
      exact h.loaded.obj
  · cases complete with
    | false => exact Or.inr (hcut rfl)
    | true => exact Or.inl (fun _ _ => List.mem_append_right _ (List.mem_singleton.mpr rfl))

theorem processPage_ready (rest : List SyncSource) (e : Engine) (this : SyncSource)
    (token : UInt64) (groups : List JsonObject) :
    (against freely AckSafe).Triple (Session rest this) (processPage e this token groups)
      (Ready rest) := by
  refine Discipline.Triple.bind (processToken_session rest this token) ?_
  rintro that s ⟨rfl, hs⟩
  refine Discipline.Triple.bind (mergePage_ended (closed_session rest _) e _ groups) ?_ s hs
  intro r t hr
  have hP : Closed (fun w => Session rest { this with token, tokenFromDB := false } w ∧
      (r.finished = false → Stopped w)) := (closed_session rest _).and (closed_stopped.imp _)
  have htoken : r.this.token = token := hr.same.token
  have hpage : ∀ w, (Session rest { this with token, tokenFromDB := false } w ∧
      (r.finished = false → Stopped w)) →
      Ready rest r.this (step (.pageProcessed r.this.obj token r.finished) w) := by
    intro w hw
    rw [← htoken]
    exact pageProcessed_ready (hw.1.congr hr.same) hw.2
  exact execute_bind (i := .pageProcessed r.this.obj token r.finished) hP.stable
    (fun w hw _ => ⟨trivial, hpage w hw⟩) (endPage_ready rest r.this) t ⟨hr.kept, hr.cut⟩

/-- A token that is not above 1 is not acknowledged. -/
theorem Session.ready_of_le {rest : List SyncSource} {this : SyncSource} {w : World}
    (h : Session rest this w) (htoken : ¬ this.token > 1) : Ready rest this w :=
  ⟨h, Or.inl (fun _ hgt => absurd hgt htoken)⟩

theorem processEnd_ready (rest : List SyncSource) (this : SyncSource) :
    (against freely AckSafe).Triple (Ready rest this) (processEnd this) (Ready rest) := by
  refine Discipline.Triple.ite (fun _ => ?_) (fun _ => endPage_ready rest this)
  refine Discipline.Triple.bind ((closed_ready rest this).only (execute_only trivial)) (fun _ => ?_)
  refine Discipline.Triple.bind
    ((processToken_session rest this 0).conseq (fun _ h => h.1) (fun _ _ h => h)) ?_
  rintro that s ⟨rfl, hs⟩
  have hzero : ¬ (0 : UInt64) > 1 := by decide
  exact endPage_ready rest _ s (hs.ready_of_le hzero)

theorem readHead_sameToken (this : SyncSource) (page : List JsonObject) :
    SameToken this (readHead this page).1 := by
  unfold readHead
  split
  · exact .refl this
  · simp only
    split
    · split <;> exact ⟨rfl, rfl, rfl, rfl⟩
    · exact ⟨rfl, rfl, rfl, rfl⟩

theorem processServerData_ready (rest : List SyncSource) (e : Engine) (this : SyncSource)
    (data : Option JsonObject) :
    (against freely AckSafe).Triple (Ready rest this) (processServerData e this data)
      (Ready rest) := by
  have hready := closed_ready rest this
  refine Discipline.Triple.ite (fun _ => ?_) (fun _ => ?_)
  · refine Discipline.Triple.bind (hready.only (stopSync_only trivial rfl)) (fun _ => ?_)
    exact Discipline.Triple.ret hready.stable (fun _ h => h.congr ⟨rfl, rfl, rfl, rfl⟩)
  · have hsame := readHead_sameToken this (data.getD .null).items
    refine Discipline.Triple.bind (hready.only (when_only (execute_only trivial))) (fun _ => ?_)
    split
    · exact (processPage_ready rest e _ _ _).conseq (fun _ h => (h.congr hsame).1) (fun _ _ h => h)
    · exact (processEnd_ready rest _).conseq (fun _ h => h.congr hsame) (fun _ _ h => h)

theorem Processed.ackSafe {this : SyncSource} {w : World} (h : Processed this w) (e : Engine) :
    AckSafe (.request (.pullData this.obj this.id (pullRequest e this))) w := by
  intro token htoken
  simp only [pullRequest] at htoken
  split at htoken
  · rename_i hack
    cases htoken
    exact h (by simpa using hack.1) hack.2
  · cases htoken

theorem syncServerChanges_ready (rest : List SyncSource) (e : Engine) (fuel : Nat)
    (this : SyncSource) :
    (against freely AckSafe).Triple (Ready rest this) (syncServerChanges e fuel this)
      (Ready rest) := by
  induction fuel generalizing this with
  | zero => exact Discipline.Triple.ret (closed_ready rest this).stable (fun _ h => h)
  | succ fuel ih =>
    have hP : Closed (fun w => Ready rest this w ∧ Processed this w) :=
      (closed_ready rest this).and (closed_processed this)
    -- the test tells that the token is that of a processed page, and this stays so when the
    -- engine is stopped between the test and the request
    have htest : ∀ w, Ready rest this w → freely (.own .read w) → AckSafe .read w ∧
        (w.syncState.isContinueSync = true → Ready rest this w ∧ Processed this w) ∧
        (w.syncState.isContinueSync = false → Ready rest this w) := by
      intro w h _
      refine ⟨trivial, fun hgo => ⟨h, h.2.resolve_right ?_⟩, fun _ => h⟩
      intro hstop
      rw [Stopped, hgo] at hstop
      cases hstop
    refine Threads.continue_bind (closed_ready rest this).stable htest ?_
      (Discipline.Triple.ret (closed_ready rest this).stable (fun _ h => h))
    rw [if_pos rfl]
    refine Discipline.Triple.perform_bind (fun _ => Ready rest (this.setCurPageCount 0))
      hP.stable ?_ (fun resp => Discipline.Triple.ite (fun _ => ?_) (fun _ => ?_))
    · intro w h _
      have hnext := closed_ready rest this w _ h.1 (since_request
        (.pullData (this.setCurPageCount 0).obj (this.setCurPageCount 0).id
          (pullRequest e (this.setCurPageCount 0))) w)
      have hack : Processed (this.setCurPageCount 0) w := h.2
      exact ⟨hack.ackSafe e, hnext.congr ⟨rfl, rfl, rfl, rfl⟩⟩
    · refine Discipline.Triple.bind (processServerData_ready rest e _ _) (fun that => ?_)
      refine Discipline.Triple.ite (fun _ => ?_) (fun _ => ih that)
      exact Discipline.Triple.ret (closed_ready rest that).stable (fun _ h => h)
    · refine Discipline.Triple.bind
        ((closed_ready rest _).only (stopSync_only trivial rfl)) (fun _ => ?_)
      exact (ih _).conseq (fun _ h => h.congr ⟨rfl, rfl, rfl, rfl⟩) (fun _ _ h => h)

theorem getAndremoveAsk_ready (rest : List SyncSource) (this : SyncSource) :
    (against freely AckSafe).Triple (Ready rest this) (getAndremoveAsk this) (Ready rest) := by
  have hready := closed_ready rest this
  refine Discipline.Triple.bind (hready.only (Prog.Only.perform trivial _)) (fun askParams => ?_)
  refine Discipline.Triple.bind (hready.only (execute_only trivial)) (fun _ => ?_)
  exact Discipline.Triple.ret hready.stable (fun _ h => h.congr ⟨rfl, rfl, rfl, rfl⟩)

theorem syncClientChanges_ready (rest : List SyncSource) (e : Engine) (this : SyncSource) :
    (against freely AckSafe).Triple (Ready rest this) (syncClientChanges e this) (Ready rest) := by
  have honly := (closed_ready rest this).only
    ((syncClientChanges_only e this).mono (fun _ => Pushing.steady))
  apply (honly.returns (pushLoop_returns e _ this)).conseq (fun _ h => h)
  rintro that w ⟨h, code, rfl⟩
  exact h.congr ⟨rfl, rfl, rfl, rfl⟩

theorem syncClient_ready (rest : List SyncSource) (fuel : Nat) (e : Engine) (this : SyncSource) :
    (against freely AckSafe).Triple (Ready rest this) (syncClient fuel e this)
      (fun r => Ready rest r.1) := by
  have hread : ∀ (this : SyncSource) {α : Type} (g : World → α),
      (against freely AckSafe).Triple (Ready rest this) (query g) (fun _ => Ready rest this) :=
    fun this _ g => (closed_ready rest this).only (query_only trivial g)
  have hret : ∀ r : SyncSource × Bool, (against freely AckSafe).Triple (Ready rest r.1) (.ret r)
      (fun r => Ready rest r.1) :=
    fun r => Discipline.Triple.ret (closed_ready rest r.1).stable (fun _ h => h)
  refine Discipline.Triple.bind (hread this _) (fun pending => ?_)
  refine Discipline.Triple.bind (Q := fun r => Ready rest r.1) ?_ (fun r => ?_)
  · refine Discipline.Triple.ite (fun _ => ?_) (fun _ => hret (this, false))
    refine Discipline.Triple.bind (syncServerChanges_ready rest e fuel this) (fun that => ?_)
    exact Discipline.Triple.bind (hread that _) (fun b => hret (that, b))
  · refine Discipline.Triple.ite (fun _ => ?_) (fun _ => ?_)
    · exact Discipline.Triple.bind ((closed_ready rest r.1).only (execute_only rfl))
        (fun _ => hret (r.1, pending))
    · refine Discipline.Triple.bind (hread r.1 _) (fun b => ?_)
      refine Discipline.Triple.ite (fun _ => ?_) (fun _ => hret (r.1, pending))
      refine Discipline.Triple.bind (syncClientChanges_ready rest e r.1) (fun that => ?_)
      exact Discipline.Triple.bind (getAndremoveAsk_ready rest that)
        (fun that => hret (that, false))

/-- The sync of an object made from the sources table. -/
theorem sync_ready (rest : List SyncSource) (fuel : Nat) (e : Engine) (this : SyncSource)
    (hdb : this.tokenFromDB = true) :
    (against freely AckSafe).Triple (Session rest this) (sync fuel e this) (Ready rest) := by
  have hstart : (against freely AckSafe).Triple (Session rest this) (startToken this)
      (Ready rest) := by
    refine Discipline.Triple.ite (fun _ => ?_) (fun _ => ?_)
    · apply (processToken_session rest this 1).conseq (fun _ h => h)
      rintro that w ⟨rfl, h⟩
      have hone : ¬ (1 : UInt64) > 1 := by decide
      exact h.ready_of_le hone
    · refine Discipline.Triple.ret (closed_session rest this).stable (fun _ h => ⟨h, Or.inl ?_⟩)
      intro hfalse
      rw [hdb] at hfalse
      cases hfalse
  refine Discipline.Triple.bind ((closed_session rest this).only (execute_only trivial))
    (fun _ => ?_)
  refine Discipline.Triple.bind hstart (fun that => ?_)
  refine Discipline.Triple.bind (Q := fun r => Ready rest r.1) ?_ (fun r => ?_)
  · refine Discipline.Triple.ite (fun _ => syncClient_ready rest fuel e that) (fun _ => ?_)
    exact Discipline.Triple.ret (closed_ready rest that).stable (fun _ h => h)
  · refine Discipline.Triple.ite (fun _ => ?_) (fun _ => syncServerChanges_ready rest e fuel r.1)
    exact Discipline.Triple.ret (closed_ready rest r.1).stable (fun _ h => h)

/-- Objects made from the sources table that no sync has touched yet. -/
structure Fresh (sources : List SyncSource) : Prop where
  ids : sources.Pairwise (fun s t => s.id ≠ t.id)
  tokenFromDB : ∀ s ∈ sources, s.tokenFromDB = true

def Waiting (sources : List SyncSource) (w : World) : Prop :=
  Known w ∧ ∀ s ∈ sources, Loaded s w

theorem closed_waiting (sources : List SyncSource) : Closed (Waiting sources) :=
  fun w w' h hsince => ⟨closed_known w w' h.1 hsince,
    fun s hs => closed_loaded s w w' (h.2 s hs) hsince⟩

theorem waiting_loadAllSources {sources : List SyncSource} {w : World} (h : Waiting sources w) :
    Waiting sources (step .loadAllSources w) := by
  refine ⟨fun obj token complete hpage => ?_, fun s hs => ⟨(h.2 s hs).row, (h.2 s hs).token, ?_⟩⟩
  · exact Nat.lt_add_right _ (h.1 obj token complete hpage)
  · exact Nat.lt_add_right _ (h.2 s hs).obj

theorem waiting_calm (sources : List SyncSource) {α : Type} {p : Sync α} (hp : p.Only Calm) :
    (against freely AckSafe).Triple (Waiting sources) p (fun _ => Waiting sources) := by
  refine Discipline.Triple.only (closed_waiting sources).stable ?_ hp
  rintro i w hcalm h -
  cases i
  case request q =>
    refine ⟨?_, closed_waiting sources w _ h (since_request q w)⟩
    cases q <;> first | exact hcalm.elim | trivial
  case loadAllSources => exact ⟨h.1, waiting_loadAllSources h⟩
  case setState s =>
    exact ⟨trivial, h.1, fun s hs => ⟨(h.2 s hs).row, (h.2 s hs).token, (h.2 s hs).obj⟩⟩
  all_goals first | exact hcalm.elim | skip
  all_goals exact ⟨trivial, closed_waiting sources w _ h
    ⟨rfl, rfl, fun _ _ _ => Iff.rfl, fun hstop => hstop⟩⟩

theorem mem_loadSources {config : Config} {T : SourcesTable} {n : Nat} {s : SyncSource}
    (hs : s ∈ loadSources config T n) : s.tokenFromDB = true ∧ s.obj < n + T.rows.length ∧
      ∃ row ∈ T.rows, s.id = row.sourceId ∧ s.token = row.token.getD 0 := by
  obtain ⟨⟨row, k⟩, hp, hload⟩ := List.mem_filterMap.mp hs
  obtain ⟨hle, hlt, hrow⟩ := List.mem_zipIdx hp
  have hmem : row ∈ T.rows := by
    rw [hrow]
    exact (List.mem_insertionSort _).mp (List.getElem_mem _)
  rw [List.length_insertionSort] at hlt
  simp only [loadSource] at hload
  split at hload
  · cases hload
  · split at hload
    · cases hload
      exact ⟨rfl, hlt, row, hmem, rfl, rfl⟩
    · cases hload

theorem loadSources_fresh (config : Config) (T : SourcesTable) (n : Nat) :
    Fresh (loadSources config T n) := by
  refine ⟨?_, fun s hs => (mem_loadSources hs).1⟩
  have hsorted : ((T.rows.insertionSort (fun r s => r.sourceId ≤ s.sourceId)).map
      SourceRow.sourceId).Nodup :=
    ((List.perm_insertionSort _ T.rows).map _).nodup_iff.mpr T.unique
  have hzip : ((T.rows.insertionSort (fun r s => r.sourceId ≤ s.sourceId)).zipIdx n).Pairwise
      (fun p q => p.1.sourceId ≠ q.1.sourceId) := by
    rw [← List.pairwise_map (f := fun p : SourceRow × Nat => p.1.sourceId) (R := (· ≠ ·))]
    have hfst := List.zipIdx_map_fst n (T.rows.insertionSort (fun r s => r.sourceId ≤ s.sourceId))
    rw [← hfst, List.map_map] at hsorted
    exact hsorted
  refine List.pairwise_filterMap.mpr (hzip.imp ?_)
  rintro ⟨row, k⟩ ⟨row', k'⟩ hne s hs t ht
  have hid : ∀ {row : SourceRow} {k : Nat} {s : SyncSource},
      loadSource config row k = some s → s.id = row.sourceId := by
    intro row k s h
    simp only [loadSource] at h
    split at h
    · cases h
    · split at h <;> cases h
      rfl
  rw [hid hs, hid ht]
  exact hne

/-- The objects that loadAllSources makes. -/
theorem loadAllSources_waiting {α : Type} (config : Config) {f : List SyncSource → Sync α}
    {R : α → World → Prop}
    (hf : ∀ sources, Fresh sources → (against freely AckSafe).Triple (Waiting sources)
      (f sources) R) :
    (against freely AckSafe).Triple Known ((loadAllSources config).bind f) R := by
  refine Discipline.Triple.act closed_known.stable ?_
  intro w h _
  refine ⟨h, hf _ (loadSources_fresh _ _ _) _ ⟨?_, ?_⟩⟩
  · exact fun obj token complete hpage => Nat.lt_add_right _ (h obj token complete hpage)
  · intro s hs
    obtain ⟨-, hobj, row, hrow, hid, htoken⟩ := mem_loadSources hs
    refine ⟨?_, ?_, hobj⟩
    · rw [hid]
      exact List.mem_map_of_mem hrow
    · rw [hid, htoken]
      exact congrArg (fun t => t.getD 0) (w.sources.token_eq hrow)

theorem syncSources_waiting (fuel : Nat) (e : Engine) (sources : List SyncSource) (bError : Bool)
    (hfresh : Fresh sources) :
    (against freely AckSafe).Triple (Waiting sources) (syncSources fuel e bError sources)
      (fun _ => Known) := by
  induction sources generalizing bError with
  | nil => exact Discipline.Triple.ret (closed_waiting []).stable (fun _ h => h.1)
  | cons src rest ih =>
    have hids := List.pairwise_cons.mp hfresh.ids
    have hrest : Fresh rest :=
      ⟨hids.2, fun s hs => hfresh.tokenFromDB s (List.mem_cons_of_mem _ hs)⟩
    have hwait := closed_waiting (src :: rest)
    have hnext : ∀ w, Waiting (src :: rest) w → Waiting rest w :=
      fun w h => ⟨h.1, fun s hs => h.2 s (List.mem_cons_of_mem _ hs)⟩
    refine hwait.continue_bind ?_ (Discipline.Triple.ret (hwait.and closed_stopped).stable
      (fun _ h => h.1.1))
    rw [if_pos rfl]
    refine Discipline.Triple.bind (Q := fun _ => Waiting rest) ?_ (fun that => ?_)
    · refine Discipline.Triple.bind (hwait.only (query_only trivial _)) (fun state => ?_)
      refine Discipline.Triple.ite (fun _ => ?_)
        (fun _ => Discipline.Triple.ret hwait.stable (fun w h => hnext w h))
      refine (sync_ready rest fuel e src (hfresh.tokenFromDB src (by simp))).conseq ?_ ?_
      · exact fun w h => ⟨h.1, h.2 src (by simp),
          fun s hs => ⟨(hids.1 s hs).symm, (hnext w h).2 s hs⟩⟩
      · exact fun _ w h => ⟨h.1.known, fun s hs => (h.1.rest s hs).2⟩
    · exact Discipline.Triple.bind ((closed_waiting rest).only (execute_only trivial))
        (fun _ => ih _ hrest)

/-- Statements of the engine outside of the sync of its sources. -/
theorem known_calm {α : Type} {p : Sync α} (hp : p.Only Calm) :
    (against freely AckSafe).Triple Known p (fun _ => Known) :=
  (waiting_calm [] hp).conseq (fun _ h => ⟨h, fun s hs => by cases hs⟩) (fun _ _ h => h.1)

theorem waiting_mono {sources sources' : List SyncSource} (hsub : sources' ⊆ sources) {w : World}
    (h : Waiting sources w) : Waiting sources' w := ⟨h.1, fun s hs => h.2 s (hsub hs)⟩

theorem doSyncAllSources_known (fuel : Nat) (config : Config) (pageSize : Int) :
    (against freely AckSafe).Triple Known (doSyncAllSources fuel config pageSize)
      (fun _ => Known) := by
  refine Discipline.Triple.seq (known_calm (execute_only trivial)) (fun _ => ?_)
  refine Discipline.Triple.seq (known_calm (execute_only trivial)) (fun _ => ?_)
  refine loadAllSources_waiting config (fun sources hfresh => ?_)
  refine Discipline.Triple.bind (waiting_calm sources (query_only trivial _)) (fun session => ?_)
  refine Discipline.Triple.bind (Q := fun _ => Known) ?_
    (fun _ => known_calm (execute_only trivial))
  refine Discipline.Triple.ite (fun _ => ?_) (fun _ => ?_)
  · refine Discipline.Triple.bind (waiting_calm sources (loadClientID_calm _)) (fun clientId => ?_)
    refine Discipline.Triple.bind (waiting_calm sources (execute_only trivial)) (fun _ => ?_)
    refine Discipline.Triple.bind (Q := fun _ => Known) ?_ (fun bError => ?_)
    · have hdrop := List.drop_sublist (getStartSource sources) sources
      refine (syncSources_waiting fuel _ _ _ ⟨hfresh.ids.sublist hdrop, ?_⟩).conseq ?_
        (fun _ _ h => h)
      · exact fun s hs => hfresh.tokenFromDB s (hdrop.subset hs)
      · exact fun w h => waiting_mono hdrop.subset h
    · exact known_calm (Prog.Only.ite (execute_only trivial) trivial)
  · refine (waiting_calm sources ?_).conseq (fun _ h => h) (fun _ _ h => h.1)
    cases sources[getStartSource sources]? with
    | none => exact execute_only trivial
    | some src => exact execute_only trivial

theorem mem_findSource {sources : List SyncSource} {c : SourceCommand} {src : SyncSource}
    (h : findSource sources c = some src) : src ∈ sources := by
  unfold findSource at h
  split at h
  · exact List.mem_of_find?_eq_some h
  · exact List.mem_of_find?_eq_some h

theorem syncFound_known (fuel : Nat) (config : Config) (pageSize : Int)
    (sources : List SyncSource) (src : SyncSource) (hdb : src.tokenFromDB = true) :
    (against freely AckSafe).Triple (Waiting [src])
      (syncFound fuel config pageSize sources src) (fun _ => Known) := by
  have hend : ∀ that : SyncSource, (against freely AckSafe).Triple (Waiting [src]) (.ret that)
      (fun _ => Known) :=
    fun _ => Discipline.Triple.ret (closed_waiting [src]).stable (fun _ h => h.1)
  refine Discipline.Triple.bind (waiting_calm [src] (query_only trivial _)) (fun session => ?_)
  refine Discipline.Triple.ite (fun _ => ?_) (fun _ => hend _)
  refine Discipline.Triple.bind (waiting_calm [src] (loadClientID_calm _)) (fun clientId => ?_)
  refine Discipline.Triple.bind (waiting_calm [src] (query_only trivial _)) (fun state => ?_)
  refine Discipline.Triple.ite (fun _ => ?_) (fun _ => hend _)
  refine Discipline.Triple.bind (waiting_calm [src] (execute_only trivial)) (fun _ => ?_)
  refine (sync_ready [] fuel _ src hdb).conseq ?_ (fun _ _ h => h.1.known)
  exact fun w h => ⟨h.1, h.2 src (by simp), fun s hs => by cases hs⟩

theorem doSyncSource_known (fuel : Nat) (config : Config) (pageSize : Int) (c : SourceCommand) :
    (against freely AckSafe).Triple Known (doSyncSource fuel config pageSize c)
      (fun _ => Known) := by
  refine Discipline.Triple.seq (known_calm (execute_only trivial)) (fun _ => ?_)
  refine Discipline.Triple.seq (known_calm (execute_only trivial)) (fun _ => ?_)
  refine loadAllSources_waiting config (fun sources hfresh => ?_)
  refine Discipline.Triple.bind (Q := fun _ => Known) ?_ (fun _ => ?_)
  · cases hfound : findSource sources c with
    | none =>
      refine (waiting_calm sources ?_).conseq (fun _ h => h) (fun _ _ h => h.1)
      exact execute_only trivial
    | some src =>
      have hmem := mem_findSource hfound
      refine Discipline.Triple.bind (Q := fun _ => Known) ?_ (fun _ => ?_)
      · refine (syncFound_known fuel config pageSize sources _ ?_).conseq ?_ (fun _ _ h => h)
        · exact hfresh.tokenFromDB src hmem
        · intro w h
          refine ⟨h.1, fun s hs => ?_⟩
          rw [List.mem_singleton.mp hs]
          exact (h.2 src hmem).congr ⟨rfl, rfl, rfl, rfl⟩
      · exact known_calm (execute_only trivial)
  · exact Discipline.Triple.seq (known_calm (execute_only trivial))
      (fun _ => known_calm (execute_only trivial))

theorem processCommands_known (fuel : Nat) (config : Config) (pageSize : Int)
    (commands : List Command) :
    (against freely AckSafe).Triple Known (processCommands fuel config pageSize commands)
      (fun _ => Known) := by
  induction commands with
  | nil => exact known_calm trivial
  | cons c rest ih =>
    refine Discipline.Triple.seq ?_ (fun _ => ih)
    cases c with
    | syncAll => exact doSyncAllSources_known _ _ _
    | syncOne srcId srcUrl => exact doSyncSource_known _ _ _ _
    | searchOne srcId params action syncChanges progressStep => exact doSyncSource_known _ _ _ _

/-- Over any commands, all answers of the server and all actions of the UI thread, a
request acknowledges a token only after a page with it was processed to its end in
the life of the same object, and after every processToken the stored token is that
of the object. -/
theorem acknowledged_pages_were_processed (fuel : Nat) (config : Config) (pageSize : Int)
    (commands : List Command) (w w' : World) (ms : List (Move Stmt World UIAction)) (p : Sync Unit)
    (hrun : Run step uiStep (processCommands fuel config pageSize commands)
      { w with log := [] } ms p w') :
    ∀ i x, Move.own i x ∈ ms → AckSafe i x := by
  have htriple := processCommands_known fuel config pageSize commands
  have hstart : Known { w with log := [] } := fun obj token complete hpage => by cases hpage
  exact (Discipline.wp_run hrun (htriple _ hstart) (fun _ _ => trivial)).1

/-- One page with one attribute and the token 7, then no more data. -/
def onePage : Nat → NetResponse
  | 0 => ⟨true, true, some (.array [.object [("count", .int 1)], .object [("version", .int 1)],
      .object [("total_count", .int 1)], .object [("token", .int 7)],
      .object [("s", .string "Contact"), ("ol", .array [.object [("o", .string "o1"),
        ("av", .array [.object [("a", .string "name"), ("i", .int 10), ("v", .string "Ann")]])]])]])⟩
  | _ => ⟨true, true, some (.array [.object [("count", .int 0)]])⟩

def acknowledges (token : UInt64) : Move Stmt World UIAction → Bool
  | .own (.request (.pullData _ _ q)) _ => q.ackToken = some token
  | _ => false

/-- The second request of the sync acknowledges the page. -/
theorem acknowledged_pages_were_processed_one_page : ∃ ms p w',
    Run step uiStep (processCommands 3 smallConfig 2000 [.syncOne 1 ""])
      (smallWorld .empty .empty onePage) ms p w' ∧
    ms.any (acknowledges 7) = true ∧ ∀ i x, Move.own i x ∈ ms → AckSafe i x := by
  obtain ⟨ms, p, w', hrun, hcheck⟩ := exists_run_of_play step uiStep (List.replicate 34 none)
    (processCommands 3 smallConfig 2000 [.syncOne 1 ""]) (smallWorld .empty .empty onePage)
    (fun r => r.1.any (acknowledges 7)) (by decide +kernel)
  exact ⟨ms, p, w', hrun, hcheck,
    acknowledged_pages_were_processed _ _ _ _ (smallWorld .empty .empty onePage) _ _ _ hrun⟩

end Rhodes.AckTokens
