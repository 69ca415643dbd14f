import Rhodes.Threads
import Rhodes.ServerChanges

/-!
Which statements pulling from the server executes. Whatever the server answers,
they are `Quiet` statements, which take no row off the queue, and the one that
ends the data of a source, which is executed only after a page that says so. So an
invariant of these is an invariant of syncServerChanges, and of what sync does
before it pushes; there it also finds out that no create of the source is pending.
-/
namespace Rhodes.PullRules

open Database Json Statements Queue Interleaving Source ClientChanges ServerChanges Rhom Threads

/-- The statements outside of syncClientChanges that take no row off the queue. -/
def Quiet : Stmt → Prop
  | .makePushBody _ _ => False
  | .confirmNonBlob _ _ => False
  | .deleteNonBlob _ _ => False
  | .deleteNonBlobJava _ _ => False
  | .confirmSent _ _ => False
  | .deleteSent _ _ => False
  | .deleteBlobObject _ _ => False
  | .endOfData _ => False
  | .deleteAsk _ _ => False
  | .request q => Request.pushed q = []
  | _ => True

/-- The statements of a merge. They store no token and never let the engine go on. -/
def Merging : Stmt → Prop
  | .read => True
  | .request (.pullFile _ _) => True
  | .renameObjects _ _ _ => True
  | .renameChanged _ _ _ => True
  | .bindMainId _ _ _ _ => True
  | .confirmEntry _ _ _ => True
  | .setObjectId _ _ _ _ => True
  | .insertObject _ => True
  | .updateObject _ _ _ _ _ _ => True
  | .deleteObject _ => True
  | .markDeleted _ => True
  | .startTransaction => True
  | .endTransaction => True
  | .setState s => s = .esStop
  | .notify _ => True
  | _ => False

/-- The statements of a merge that make no request and do not write the state. -/
def Storing : Stmt → Prop
  | .request _ => False
  | .setState _ => False
  | i => Merging i

theorem Storing.merging {i : Stmt} (h : Storing i) : Merging i := by
  cases i <;> first | exact h | exact h.elim

theorem Merging.quiet {i : Stmt} (h : Merging i) : Quiet i := by
  cases i
  case request q => cases q <;> first | exact h.elim | rfl
  all_goals first | exact h.elim | trivial

/-- The statements of pulling. -/
def Pull (i : Stmt) : Prop := Quiet i ∨ ∃ src, i = .endOfData src

/-- A class of statements that pulling a page stays in. -/
structure Fetches (L : Stmt → Prop) : Prop where
  merging : ∀ i, Merging i → L i
  pullData : ∀ obj src q, L (.request (.pullData obj src q))
  storeToken : ∀ src token, L (.storeToken src token)
  tokenProcessed : ∀ src token, L (.tokenProcessed src token)
  pageProcessed : ∀ obj token complete, L (.pageProcessed obj token complete)

theorem quiet_fetches : Fetches Quiet :=
  ⟨fun _ => Merging.quiet, fun _ _ _ => rfl, fun _ _ => trivial, fun _ _ => trivial,
    fun _ _ _ => trivial⟩

theorem pull_fetches : Fetches Pull :=
  ⟨fun _ hi => Or.inl hi.quiet, fun _ _ _ => Or.inl rfl, fun _ _ => Or.inl trivial,
    fun _ _ => Or.inl trivial, fun _ _ _ => Or.inl trivial⟩

theorem pull_endOfData (src : Int) : Pull (.endOfData src) := Or.inr ⟨src, rfl⟩

variable {L : Stmt → Prop} {e : Engine}

/-- A class of statements that merging a page of an engine stays in. -/
structure MergesFor (e : Engine) (L : Stmt → Prop) : Prop where
  storing : ∀ i, Storing i → L i
  stop : L (.setState .esStop)
  pullFile : ∀ url file, L (.request (.pullFile (url ++ "client_id=" ++ e.clientId) file))

/-- A class of statements that the pulls of an engine stay in. -/
structure PullsFor (e : Engine) (L : Stmt → Prop) : Prop extends MergesFor e L where
  pullData : ∀ this : SyncSource, L (.request (.pullData this.obj this.id (pullRequest e this)))
  storeToken : ∀ src token, L (.storeToken src token)
  tokenProcessed : ∀ src token, L (.tokenProcessed src token)
  pageProcessed : ∀ obj token complete, L (.pageProcessed obj token complete)

theorem merging_mergesFor (e : Engine) : MergesFor e Merging :=
  ⟨fun _ => Storing.merging, rfl, fun _ _ => trivial⟩

theorem Fetches.pullsFor (hL : Fetches L) (e : Engine) : PullsFor e L :=
  ⟨⟨fun i hi => hL.merging i hi.merging, hL.merging (.setState .esStop) rfl,
    fun _ _ => hL.merging _ trivial⟩, fun _ => hL.pullData _ _ _, hL.storeToken,
    hL.tokenProcessed, hL.pageProcessed⟩

theorem processToken_tokens (hstore : ∀ src token, L (.storeToken src token))
    (hdone : ∀ src token, L (.tokenProcessed src token)) (this : SyncSource) (token : UInt64) :
    (processToken this token).Only L :=
  Prog.Only.bind (when_only (execute_only (hstore _ _)))
    (fun _ => Prog.Only.bind (execute_only (hdone _ _)) (fun _ => trivial))

theorem processToken_only (hL : Fetches L) (this : SyncSource) (token : UInt64) :
    (processToken this token).Only L :=
  processToken_tokens hL.storeToken hL.tokenProcessed this token

theorem downloadBlob_for (h : MergesFor e L) (value : CValue) : (downloadBlob e value).Only L := by
  refine Prog.Only.ite trivial (Prog.Only.bind (send_only (h.pullFile _ _)) ?_)
  exact fun resp => Prog.Only.ite trivial trivial

theorem downloadBlob_only (e : Engine) (value : CValue) : (downloadBlob e value).Only Merging :=
  downloadBlob_for (merging_mergesFor e) value

theorem confirmObject_only (nSrcID : Int) (oldObject object : Option String) (attrib : String)
    (id : Int64) (updatedOO : Bool) :
    (confirmObject nSrcID oldObject object attrib id updatedOO).Only Storing := by
  refine Prog.Only.bind (when_only ?_) ?_
  · exact Prog.Only.bind (execute_only trivial)
      (fun _ => Prog.Only.bind (execute_only trivial) (fun _ => execute_only trivial))
  · exact fun _ => Prog.Only.bind (execute_only trivial)
      (fun _ => Prog.Only.bind (execute_only trivial) (fun _ => execute_only trivial))

theorem insertEntry_only (nSrcID : Int) (object : Option String) (attrib : String)
    (value : CValue) : (insertEntry nSrcID object attrib value).Only Storing := by
  refine Prog.Only.bind (Prog.Only.perform trivial _) (fun b => Prog.Only.bind (when_only ?_) ?_)
  · exact Prog.Only.bind (execute_only trivial)
      (fun _ => Prog.Only.bind (execute_only trivial) (fun _ => execute_only trivial))
  · exact fun _ => execute_only trivial

theorem storeEntry_only (nSrcID : Int) (oldObject object : Option String) (updatedOO : Bool)
    (entry : JsonObject) (value : CValue) :
    (storeEntry nSrcID oldObject object updatedOO entry value).Only Storing :=
  Prog.Only.ite (confirmObject_only _ _ _ _ _ _) (insertEntry_only _ _ _ _)

theorem deleteEntry_only (id : Int64) : (deleteEntry id).Only Storing := by
  refine Prog.Only.bind (query_only trivial _) (fun row => Prog.Only.bind ?_ ?_)
  · cases row with
    | none => trivial
    | some row => exact Prog.Only.bind (execute_only trivial) (fun _ => execute_only trivial)
  · exact fun _ => execute_only trivial

theorem storing_merging {α : Type} {p : Sync α} (hp : p.Only Storing) : p.Only Merging :=
  hp.mono (fun _ => Storing.merging)

theorem MergesFor.only (h : MergesFor e L) {α : Type} {p : Sync α} (hp : p.Only Storing) :
    p.Only L := hp.mono h.storing

theorem MergesFor.stopSync (h : MergesFor e L) : stopSync.Only L :=
  stopSync_only (h.storing .read trivial) h.stop

theorem processEntries_for (h : MergesFor e L) (nSrcID : Int) (oldObject object : Option String)
    (this : SyncSource) (updatedOO : Bool) (entries : List JsonObject) :
    (processEntries e nSrcID oldObject object this updatedOO entries).Only L := by
  induction entries generalizing this updatedOO with
  | nil => trivial
  | cons entry rest ih =>
    refine Prog.Only.bind (query_only (h.storing .read trivial) _)
      (fun b => Prog.Only.ite ?_ trivial)
    refine Prog.Only.ite (ih _ _) (Prog.Only.ite ?_ ?_)
    · refine Prog.Only.bind (downloadBlob_for h _) (fun value => ?_)
      cases value with
      | error code => trivial
      | ok value => exact Prog.Only.bind (h.only (storeEntry_only _ _ _ _ _ _)) (fun _ => ih _ _)
    · exact Prog.Only.bind (h.only (deleteEntry_only _)) (fun _ => ih _ _)

theorem processSyncObjectVer1_for (h : MergesFor e L) (this : SyncSource) (json : JsonObject)
    (nSrcID : Int) : (processSyncObjectVer1 e this json nSrcID).Only L := by
  refine Prog.Only.ite trivial (Prog.Only.ite ?_ (processEntries_for h _ _ _ _ _ _))
  exact Prog.Only.bind (execute_only (h.storing _ trivial)) (fun _ => trivial)

theorem countObject_only (this : SyncSource) (nSrcID : Int) :
    (countObject this nSrcID).Only Storing := by
  refine Prog.Only.ite (Prog.Only.bind (Prog.Only.perform trivial _) ?_) trivial
  exact fun n => when_only (execute_only trivial)

theorem commitForUI_only : commitForUI.Only Storing := by
  refine Prog.Only.bind (query_only trivial _) (fun b => when_only ?_)
  exact Prog.Only.bind (execute_only trivial) (fun _ => execute_only trivial)

theorem processObjects_for (h : MergesFor e L) (nSrcID : Int) (this : SyncSource)
    (objects : List JsonObject) : (processObjects e nSrcID this objects).Only L := by
  induction objects generalizing this with
  | nil => trivial
  | cons json rest ih =>
    refine Prog.Only.bind (query_only (h.storing .read trivial) _)
      (fun b => Prog.Only.ite ?_ trivial)
    refine Prog.Only.bind (h.only commitForUI_only) (fun _ => ?_)
    refine Prog.Only.bind (processSyncObjectVer1_for h _ _ _) (fun r => Prog.Only.ite ?_ ?_)
    · exact Prog.Only.bind (h.only (countObject_only _ _))
        (fun _ => Prog.Only.bind (ih _) (fun _ => trivial))
    · exact Prog.Only.bind h.stopSync (fun _ => trivial)

theorem processServerDataVer1_for (h : MergesFor e L) (this : SyncSource)
    (groups : List JsonObject) : (processServerDataVer1 e this groups).Only L := by
  induction groups generalizing this with
  | nil => trivial
  | cons group rest ih =>
    refine Prog.Only.bind (query_only (h.storing .read trivial) _)
      (fun b => Prog.Only.ite ?_ trivial)
    split
    · exact Prog.Only.bind h.stopSync (fun _ => trivial)
    · exact Prog.Only.bind (processObjects_for h _ _ _)
        (fun _ => Prog.Only.bind (ih _) (fun _ => trivial))

theorem mergePage_for (h : MergesFor e L) (this : SyncSource) (groups : List JsonObject) :
    (mergePage e this groups).Only L := by
  refine Prog.Only.ite trivial (Prog.Only.bind (query_only (h.storing .read trivial) _)
    (fun b => Prog.Only.ite ?_ trivial))
  refine Prog.Only.bind (execute_only (h.storing _ trivial)) (fun _ => ?_)
  refine Prog.Only.bind (processServerDataVer1_for h _ _) (fun r => ?_)
  refine Prog.Only.bind (processServerDataVer1_for h _ _) (fun q => ?_)
  exact Prog.Only.bind (execute_only (h.storing _ trivial))
    (fun _ => Prog.Only.bind (execute_only (h.storing _ trivial)) (fun _ => trivial))

theorem mergePage_only (e : Engine) (this : SyncSource) (groups : List JsonObject) :
    (mergePage e this groups).Only Merging := mergePage_for (merging_mergesFor e) this groups

theorem endPage_storing (this : SyncSource) : (endPage this).Only Storing :=
  Prog.Only.bind (when_only (execute_only trivial)) (fun _ => trivial)

theorem endPage_only (hL : Fetches L) (this : SyncSource) : (endPage this).Only L :=
  (endPage_storing this).mono (fun _ hi => hL.merging _ hi.merging)

theorem processPage_for (h : PullsFor e L) (this : SyncSource) (token : UInt64)
    (groups : List JsonObject) : (processPage e this token groups).Only L := by
  refine Prog.Only.bind (processToken_tokens h.storeToken h.tokenProcessed _ _) (fun _ => ?_)
  refine Prog.Only.bind (mergePage_for h.toMergesFor _ _) (fun _ => ?_)
  exact Prog.Only.bind (execute_only (h.pageProcessed _ _ _))
    (fun _ => h.only (endPage_storing _))

theorem processPage_only (hL : Fetches L) (e : Engine) (this : SyncSource) (token : UInt64)
    (groups : List JsonObject) : (processPage e this token groups).Only L :=
  processPage_for (hL.pullsFor e) this token groups

theorem processServerData_for (h : PullsFor e L) (hend : ∀ src, L (.endOfData src))
    (this : SyncSource) (data : Option JsonObject) : (processServerData e this data).Only L := by
  refine Prog.Only.ite (Prog.Only.bind h.stopSync (fun _ => trivial)) ?_
  refine Prog.Only.bind (when_only (execute_only (h.storing _ trivial))) (fun _ => ?_)
  have hendPage : ∀ this : SyncSource, (endPage this).Only L :=
    fun this => h.only (endPage_storing this)
  split
  · exact processPage_for h _ _ _
  · refine Prog.Only.ite (Prog.Only.bind (execute_only (hend _)) (fun _ => ?_)) (hendPage _)
    exact Prog.Only.bind (processToken_tokens h.storeToken h.tokenProcessed _ _)
      (fun _ => hendPage _)

theorem processServerData_only (hL : Fetches L) (hend : ∀ src, L (.endOfData src)) (e : Engine)
    (this : SyncSource) (data : Option JsonObject) : (processServerData e this data).Only L :=
  processServerData_for (hL.pullsFor e) hend this data

theorem syncServerChanges_for (h : PullsFor e L) (hend : ∀ src, L (.endOfData src))
    (fuel : Nat) (this : SyncSource) : (syncServerChanges e fuel this).Only L := by
  induction fuel generalizing this with
  | zero => trivial
  | succ fuel ih =>
    refine Prog.Only.bind (query_only (h.storing .read trivial) _)
      (fun b => Prog.Only.ite ?_ trivial)
    refine Prog.Only.bind (send_only (h.pullData _)) (fun resp => Prog.Only.ite ?_ ?_)
    · exact Prog.Only.bind (processServerData_for h hend _ _)
        (fun _ => Prog.Only.ite trivial (ih _))
    · exact Prog.Only.bind h.stopSync (fun _ => ih _)

theorem syncServerChanges_only (hL : Fetches L) (hend : ∀ src, L (.endOfData src)) (e : Engine)
    (fuel : Nat) (this : SyncSource) : (syncServerChanges e fuel this).Only L :=
  syncServerChanges_for (hL.pullsFor e) hend fuel this

/-- A page with a count of 0 and nothing after its head. -/
def EndOfData (data : Option JsonObject) : Prop :=
  ∃ this : SyncSource, this.curPageCount = 0 ∧
    (readHead this (data.getD .null).items).1.curPageCount = 0 ∧
    (readHead this (data.getD .null).items).2 = []

/-- The last request was a pull of the source, and this is its page. -/
structure LastPage (src : Int) (data : Option JsonObject) (w : World) : Prop where
  pulled : ∃ obj q, w.log.getLast? = some (.answered (.pullData obj src q) true)
  page : (w.net (w.requests - 1)).charData = data

theorem LastPage.frame {src : Int} {data : Option JsonObject} {w w' : World}
    (h : LastPage src data w) (hframe : Frame w w') : LastPage src data w' := by
  constructor
  · rw [hframe.log]
    exact h.pulled
  · rw [hframe.net, hframe.requests]
    exact h.page

/-- What isPendingClientChanges finds before every push. -/
def NotPending (src : Int) (w : World) : Prop :=
  ∀ r ∈ w.changed.rows, r.sourceId = src → r.updateType = .create → r.sent ≤ 1

theorem NotPending.frame {src : Int} {w w' : World} (h : NotPending src w) (hframe : Frame w w') :
    NotPending src w' := by
  intro r hr hsrc ht
  rcases hframe.changed.rows r hr with hold | ⟨-, hzero⟩
  · exact h r hold hsrc ht
  · omega

theorem notPending_of_read {this : SyncSource} {w : World}
    (h : w.changed.rows.any
      (fun r => r.sourceId = this.id ∧ r.updateType = .create ∧ r.sent > 1) = false) :
    NotPending this.id w := by
  intro r hr hsrc ht
  have hrow := List.any_eq_false.mp h r hr
  simp only [hsrc, ht, true_and, decide_eq_true_eq] at hrow
  omega

section Invariant

variable {ok : Move Stmt World UIAction → Prop} {goal : Stmt → World → Prop} {I : World → Prop}

/-- What an invariant of pulling has to be kept by. -/
structure PullKept (ok : Move Stmt World UIAction → Prop) (goal : Stmt → World → Prop)
    (I : World → Prop) : Prop where
  stable : (against ok goal).Stable I
  quiet : ∀ i w, Quiet i → I w → ok (.own i w) → goal i w ∧ I (step i w)
  endOfData : ∀ src data w, I w → LastPage src data w → EndOfData data →
    ok (.own (.endOfData src) w) → goal (.endOfData src) w ∧ I (step (.endOfData src) w)

namespace PullKept

theorem only (h : PullKept ok goal I) {α : Type} {p : Sync α} (hp : p.Only Quiet) :
    (against ok goal).Triple I p (fun _ => I) := Discipline.Triple.only h.stable h.quiet hp

theorem stable_lastPage (h : PullKept ok goal I) (src : Int) (data : Option JsonObject) :
    (against ok goal).Stable (fun w => I w ∧ LastPage src data w) :=
  h.stable.and (stable_of_frame (fun _ _ hpage hframe => hpage.frame hframe))

theorem processEnd (h : PullKept ok goal I) (this : SyncSource) (data : Option JsonObject)
    (hend : this.curPageCount = 0 → EndOfData data) :
    (against ok goal).Triple (fun w => I w ∧ LastPage this.id data w) (processEnd this)
      (fun _ => I) := by
  refine Discipline.Triple.ite (fun hcount => ?_) (fun _ => ?_)
  · refine execute_bind (h.stable_lastPage _ _)
      (fun w hw hok => h.endOfData _ _ w hw.1 hw.2 (hend hcount) hok) ?_
    exact Discipline.Triple.seq (h.only (processToken_only quiet_fetches _ _))
      (fun _ => h.only (endPage_only quiet_fetches _))
  · exact (h.only (endPage_only quiet_fetches _)).conseq (fun _ hw => hw.1) (fun _ _ hw => hw)

theorem processServerData (h : PullKept ok goal I) (e : Engine) (this : SyncSource)
    (data : Option JsonObject) (hcount : this.curPageCount = 0) :
    (against ok goal).Triple (fun w => I w ∧ LastPage this.id data w)
      (processServerData e this data) (fun _ => I) := by
  have hpage := h.stable_lastPage this.id data
  have hid : (readHead this (data.getD .null).items).1.id = this.id := by
    unfold readHead
    split
    · rfl
    · simp only
      split
      · split <;> rfl
      · rfl
  refine Discipline.Triple.ite (fun _ => ?_) (fun _ => ?_)
  · refine Discipline.Triple.conseq (P := I) (Q := fun _ => I) ?_ (fun _ hw => hw.1)
      (fun _ _ hw => hw)
    refine Discipline.Triple.seq (h.only (stopSync_only trivial trivial)) (fun _ => ?_)
    exact h.only trivial
  · refine Discipline.Triple.bind (Q := fun _ w => I w ∧ LastPage this.id data w) ?_ (fun _ => ?_)
    · refine Discipline.Triple.ite (fun _ => ?_) (fun _ => ?_)
      · apply Discipline.Triple.act hpage
        intro w hw hok
        obtain ⟨hgoal, hI⟩ := h.quiet (.notify _) w trivial hw.1 hok
        exact ⟨hgoal, fun v hv => hpage.star ⟨hI, hw.2.pulled, hw.2.page⟩ hv⟩
      · exact Discipline.Triple.ret hpage (fun _ hw => hw)
    · split
      · exact (h.only (processPage_only quiet_fetches _ _ _ _)).conseq (fun _ hw => hw.1)
          (fun _ _ hw => hw)
      · rename_i hrest
        rw [← hid]
        exact h.processEnd _ data (fun hzero => ⟨this, hcount, hzero, hrest⟩)

theorem syncServerChanges (h : PullKept ok goal I) (e : Engine) (fuel : Nat) (this : SyncSource) :
    (against ok goal).Triple I (syncServerChanges e fuel this) (fun _ => I) := by
  induction fuel generalizing this with
  | zero => exact h.only trivial
  | succ fuel ih =>
    refine continue_bind h.stable
      (fun w hw hok => ⟨(h.quiet .read w trivial hw hok).1, fun _ => hw, fun _ => hw⟩) ?_
      (h.only trivial)
    refine Discipline.Triple.perform_bind
      (fun resp w => I w ∧ (resp.isOK = true → LastPage this.id resp.charData w)) h.stable ?_ ?_
    · intro w hw hok
      obtain ⟨hgoal, hI⟩ := h.quiet (.request (.pullData _ _ _)) w rfl hw hok
      exact ⟨hgoal, hI, fun hyes => ⟨⟨_, _, request_last hyes⟩, rfl⟩⟩
    · intro resp
      refine Discipline.Triple.ite (fun hyes => ?_) (fun _ => ?_)
      · refine Discipline.Triple.bind (Q := fun _ => I) ?_ (fun that => ?_)
        · exact (h.processServerData e _ _ rfl).conseq (fun _ hw => ⟨hw.1, hw.2 hyes⟩)
            (fun _ _ hw => hw)
        · exact Discipline.Triple.ite (fun _ => h.only trivial) (fun _ => ih _)
      · refine Discipline.Triple.conseq (P := I) (Q := fun _ => I) ?_ (fun _ hw => hw.1)
          (fun _ _ hw => hw)
        exact Discipline.Triple.seq (h.only (stopSync_only trivial trivial)) (fun _ => ih _)

theorem stable_notPending (h : PullKept ok goal I) (b : Bool) (src : Int) :
    (against ok goal).Stable (fun w => I w ∧ (b = false → NotPending src w)) :=
  h.stable.and (stable_of_frame (fun _ _ hp hframe hb => (hp hb).frame hframe))

theorem isPending (h : PullKept ok goal I) (this : SyncSource) :
    (against ok goal).Triple I (isPendingClientChanges this)
      (fun b w => I w ∧ (b = false → NotPending this.id w)) := by
  apply Discipline.Triple.act h.stable
  intro w hw hok
  refine ⟨(h.quiet .read w trivial hw hok).1, ?_⟩
  exact fun v hv => (h.stable_notPending _ _).star ⟨hw, notPending_of_read⟩ hv

theorem pullPending (h : PullKept ok goal I) (fuel : Nat) (e : Engine) (this : SyncSource)
    (pending : Bool) :
    (against ok goal).Triple (fun w => I w ∧ (pending = false → NotPending this.id w))
      (pullPending fuel e this pending)
      (fun r w => I w ∧ (r.2 = false → NotPending r.1.id w)) := by
  refine Discipline.Triple.ite (fun _ => ?_) (fun hno => ?_)
  · refine Discipline.Triple.conseq (P := I) ?_ (fun _ hw => hw.1) (fun _ _ hw => hw)
    refine Discipline.Triple.bind (h.syncServerChanges e fuel this) (fun that => ?_)
    refine Discipline.Triple.bind (h.isPending that) (fun b => ?_)
    exact Discipline.Triple.ret (h.stable_notPending b that.id) (fun _ hw => hw)
  · refine Discipline.Triple.ret (h.stable_notPending pending this.id)
      (fun w hw => ⟨hw.1, fun _ => ?_⟩)
    exact hw.2 (by simpa using hno)

end PullKept

end Invariant

end Rhodes.PullRules
