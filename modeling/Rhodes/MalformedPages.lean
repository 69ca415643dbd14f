import Rhodes.FailStop
import Rhodes.PageMerge

/-!
Response bodies that are no page: the parser fails, the body is no array, or its first element
has no "count". The iterator has nothing to walk over then, or the elements are taken by their
places all the same, and no error is reported: what looks like a page without data goes on into
the clean-up at the end of data. Only an element "error" is rejected.
-/
namespace Rhodes.MalformedPages

open Database Json Statements Interleaving Source ClientChanges ServerChanges Rhom Threads PullRules
  PageMerge
open FailStop (hasError SameError readHead_sameError processToken_sameError)

/-- The first element of the body; null where there is none. -/
def firstElement (data : Option JsonObject) : JsonObject := (data.getD .null).items.headD .null

/-- An array whose first element has a count. -/
def WellFormed (data : Option JsonObject) : Prop := (firstElement data).hasName "count" = true

def HasError (data : Option JsonObject) : Prop := (firstElement data).hasName "error" = true

/-- Its statements leave both tables as they find them, and it ends with an error code. -/
def Rejected (ms : List (Move Stmt World UIAction)) (that : SyncSource) : Prop :=
  (∀ i x, .own i x ∈ ms → (step i x).changed = x.changed ∧ (step i x).objects = x.objects) ∧
    that.errCode ≠ .errNone

/-- The end of data is cleaned up for a page with a count of 0 and nothing after its head. -/
def CleansAtEnd (this : SyncSource) (data : Option JsonObject)
    (ms : List (Move Stmt World UIAction)) : Prop :=
  ∀ src x, .own (.endOfData src) x ∈ ms → WellFormed data ∧
    (firstElement data).getInt "count" = 0 ∧ (readHead this (data.getD .null).items).2 = []

/-- In every run over the body. -/
def Screened (e : Engine) (this : SyncSource) (data : Option JsonObject) : Prop :=
  ∀ w ms that w', Run step uiStep (processServerData e this data) w ms (.ret that) w' →
    (¬WellFormed data → Rejected ms that) ∧ CleansAtEnd this data ms

theorem SameError.not_rejected {this that : SyncSource} {ms : List (Move Stmt World UIAction)}
    (h : SameError this that) (hcode : this.errCode = .errNone) : ¬Rejected ms that := by
  intro hrejected
  have herror : hasError that = false := by rw [h, hasError, hcode]; rfl
  exact hrejected.2 (by simpa [hasError] using herror)

theorem endPage_returns (this : SyncSource) : (endPage this).Returns (SameError this) :=
  Prog.Returns.bind (R := fun _ => True) (Prog.Returns.ite (fun _ => trivial) trivial)
    (fun _ _ => rfl)

theorem processEnd_returns (this : SyncSource) : (processEnd this).Returns (SameError this) := by
  refine Prog.Returns.ite (Prog.Returns.perform_bind _ _ (fun _ => ?_)) (endPage_returns this)
  refine Prog.Returns.bind (processToken_sameError this 0) (fun that hthat => ?_)
  exact (endPage_returns that).mono (fun _ h => h.trans hthat)

theorem processEnd_aside (this : SyncSource) : (processEnd this).Only Aside := by
  refine Prog.Only.ite (Prog.Only.bind (execute_only (fun _ => ⟨rfl, rfl⟩)) (fun _ => ?_))
    (endPage_aside this)
  exact Prog.Only.bind (processToken_aside this 0) (fun that => endPage_aside that)

/-- A body without elements is never rejected, whatever the state and the run. -/
theorem not_rejected_of_no_items {e : Engine} {this that : SyncSource} {data : Option JsonObject}
    {w w' : World} {ms : List (Move Stmt World UIAction)} (hitems : (data.getD .null).items = [])
    (hcode : this.errCode = .errNone)
    (hrun : Run step uiStep (processServerData e this data) w ms (.ret that) w') :
    ¬Rejected ms that := by
  have hreturns : (processServerData e this data).Returns (SameError this) := by
    unfold processServerData
    rw [hitems]
    exact Prog.Returns.bind (R := fun _ => True) (Prog.Returns.ite (fun _ => trivial) trivial)
      (fun _ _ => processEnd_returns this)
  have hkeeps : SameError this that := hrun.returns hreturns
  exact SameError.not_rejected hkeeps hcode

/-- An engine that was stopped merges nothing. -/
theorem mergePage_stopped (e : Engine) (this : SyncSource) (groups : List JsonObject) :
    (against (delivery true) noGoal).Triple Stopped (mergePage e this groups)
      (fun r w => Stopped w ∧ r.this = this) := by
  have hstable : (against (delivery true) noGoal).Stable Stopped := settled_stopped.stable
  refine Discipline.Triple.ite (fun _ => Discipline.Triple.ret hstable (fun _ h => ⟨h, rfl⟩))
    (fun _ => ?_)
  have htest : ∀ w, Stopped w → delivery true (.own .read w) → noGoal .read w ∧
      (w.syncState.isContinueSync = true → False) ∧
      (w.syncState.isContinueSync = false → Stopped w) := by
    intro w h _
    refine ⟨trivial, fun hgo => ?_, fun _ => h⟩
    rw [Stopped, hgo] at h
    cases h
  refine continue_bind hstable htest (fun _ h => h.elim) ?_
  exact Discipline.Triple.ret hstable (fun _ h => ⟨h, rfl⟩)

/-- Nor does it find an error in the page. -/
theorem processPage_stopped (e : Engine) (this : SyncSource) (token : UInt64)
    (groups : List JsonObject) :
    (against (delivery true) noGoal).Triple Stopped (processPage e this token groups)
      (fun that _ => SameError this that) := by
  refine Discipline.Triple.bind ((settled_stopped.only (processToken_aside this token)).returns
    (processToken_sameError this token)) ?_
  rintro that w ⟨hstop, hthat⟩
  refine Discipline.Triple.bind (mergePage_stopped e that groups) ?_ w hstop
  rintro r w ⟨hstop, hr⟩
  have hend : (endPage r.this).Returns (SameError this) := by
    rw [hr]
    exact (endPage_returns that).mono (fun _ h => h.trans hthat)
  refine Discipline.Triple.bind (settled_stopped.only (execute_only (fun _ => ⟨rfl, rfl⟩)))
    (fun _ => ?_) w hstop
  exact ((settled_stopped.only (endPage_aside r.this)).returns hend).conseq (fun _ h => h)
    (fun _ _ h => h.2)

theorem processServerData_error (e : Engine) (this : SyncSource) {data : Option JsonObject}
    (h : HasError data) : processServerData e this data = stopSync.bind (fun _ => .ret { this with
      error := (firstElement data).getStr "error", errCode := .errCustomSyncServer }) := if_pos h

theorem processServerData_noError (e : Engine) (this : SyncSource) {data : Option JsonObject}
    (h : ¬HasError data) : processServerData e this data =
      (let head := readHead this (data.getD .null).items
      (when (head.1.inserted + head.1.deleted = 0) (fireSync head.1)).bind (fun _ =>
        match head.2 with
        | element :: groups => processPage e head.1 (element.getUInt64 "token") groups
        | [] => processEnd head.1)) := if_neg h

theorem processServerData_stopped (e : Engine) (this : SyncSource) (data : Option JsonObject)
    (hnoError : ¬HasError data) :
    (against (delivery true) noGoal).Triple Stopped (processServerData e this data)
      (fun that _ => SameError this that) := by
  have hhead := readHead_sameError this (data.getD .null).items
  rw [processServerData_noError e this hnoError]
  refine Discipline.Triple.bind
    (settled_stopped.only (when_only (execute_only (fun _ => ⟨rfl, rfl⟩)))) (fun _ => ?_)
  split
  · exact (processPage_stopped e _ _ _).conseq (fun _ h => h) (fun _ _ h => h.trans hhead)
  · have hreturns := (processEnd_returns (readHead this (data.getD .null).items).1).mono
      (fun _ h => h.trans hhead)
    exact ((settled_stopped.only (processEnd_aside _)).returns hreturns).conseq (fun _ h => h)
      (fun _ _ h => h.2)

/-- A body with an error element is rejected. -/
theorem rejected_of_error {e : Engine} {this that : SyncSource} {data : Option JsonObject}
    {w w' : World} {ms : List (Move Stmt World UIAction)} (herror : HasError data)
    (hrun : Run step uiStep (processServerData e this data) w ms (.ret that) w') :
    Rejected ms that ∧ CleansAtEnd this data ms := by
  rw [processServerData_error e this herror] at hrun
  have honly : ∀ i x, .own i x ∈ ms → i = .read ∨ i = .setState .esStop :=
    hrun.only (Prog.Only.bind (stopSync_only (Or.inl rfl) (Or.inr rfl)) (fun _ => trivial))
  have hreturns : that.errCode = .errCustomSyncServer :=
    hrun.returns (Prog.Returns.bind (R := fun _ => True) (S := fun that : SyncSource =>
      that.errCode = .errCustomSyncServer)
      (fun _ => Prog.Returns.ite (fun _ => trivial) trivial) (fun _ _ => rfl))
  refine ⟨⟨?_, by rw [hreturns]; decide⟩, ?_⟩
  · intro i x hmove
    rcases honly i x hmove with rfl | rfl <;> exact ⟨rfl, rfl⟩
  · intro src x hmove
    rcases honly _ x hmove with h | h <;> cases h

theorem readHead_curPageCount (this : SyncSource) {items : List JsonObject} (h : items ≠ []) :
    (readHead this items).1.curPageCount = (items.headD .null).getInt "count" := by
  cases items with
  | nil => exact absurd rfl h
  | cons count rest =>
    unfold readHead
    simp only [List.headD_cons]
    split
    · split <;> rfl
    · rfl

theorem items_ne_nil {data : Option JsonObject} (h : WellFormed data) :
    (data.getD .null).items ≠ [] := by
  intro hitems
  rw [WellFormed, firstElement, hitems] at h
  cases h

/-- Without an error element, the end of data is cleaned up where the count reads 0 and nothing
comes after the head. -/
theorem cleansAtEnd_of_wellFormed {e : Engine} {this that : SyncSource} {data : Option JsonObject}
    {w w' : World} {ms : List (Move Stmt World UIAction)} (hformed : WellFormed data)
    (hnoError : ¬HasError data)
    (hrun : Run step uiStep (processServerData e this data) w ms (.ret that) w') :
    CleansAtEnd this data ms := by
  have hcount := readHead_curPageCount this (items_ne_nil hformed)
  have hquiet : ∀ i, Quiet i → ∀ src : Int, i = .endOfData src → WellFormed data ∧
      (firstElement data).getInt "count" = 0 ∧ (readHead this (data.getD .null).items).2 = [] := by
    rintro i hi src rfl
    exact hi.elim
  have honly : (processServerData e this data).Only (fun i => ∀ src : Int, i = .endOfData src →
      WellFormed data ∧ (firstElement data).getInt "count" = 0 ∧
        (readHead this (data.getD .null).items).2 = []) := by
    rw [processServerData_noError e this hnoError]
    refine Prog.Only.bind (when_only (execute_only (hquiet _ trivial))) (fun _ => ?_)
    split
    · exact (processPage_only quiet_fetches e _ _ _).mono hquiet
    · rename_i hrest
      unfold processEnd
      split
      · rename_i hzero
        rw [hcount] at hzero
        refine Prog.Only.bind (execute_only (fun _ _ => ⟨hformed, hzero, hrest⟩)) (fun _ => ?_)
        refine Prog.Only.bind ((processToken_only quiet_fetches _ _).mono hquiet) (fun that => ?_)
        exact (endPage_only quiet_fetches that).mono hquiet
      · exact (endPage_only quiet_fetches _).mono hquiet
  exact fun src x hmove => hrun.only honly _ x hmove src rfl

/-- A body is screened, whatever happens around the call, just where it is an array whose first
element has a count or an error. -/
theorem bodies_screened_iff (e : Engine) (this : SyncSource) (data : Option JsonObject)
    (hcode : this.errCode = .errNone) : Screened e this data ↔ WellFormed data ∨ HasError data := by
  constructor
  · intro h
    by_contra hneither
    obtain ⟨hformed, hnoError⟩ := not_or.mp hneither
    let w : World :=
      { World.start .empty .empty ⟨[], List.nodup_nil⟩ (fun _ => ⟨true, true, none⟩) with
        syncState := .esStop }
    obtain ⟨ms, hrun, hown⟩ := run_exec step uiStep (processServerData e this data) w
    have hok : ∀ m ∈ ms, delivery true m := by
      intro m hm
      obtain ⟨i, x, rfl⟩ := hown m hm
      rfl
    have hstopped : Stopped w := rfl
    have hstays := processServerData_stopped e this data hnoError w hstopped
    have hsame := (Discipline.wp_run hrun hstays hok).2 _ rfl
    exact SameError.not_rejected hsame hcode ((h w ms _ _ hrun).1 hformed)
  · intro h w ms that w' hrun
    by_cases herror : HasError data
    · obtain ⟨hrejected, hcleans⟩ := rejected_of_error herror hrun
      exact ⟨fun _ => hrejected, hcleans⟩
    · have hformed := h.resolve_right herror
      exact ⟨fun hnot => absurd hformed hnot, cleansAtEnd_of_wellFormed hformed herror hrun⟩

/-- An error of the server. -/
theorem bodies_screened_iff_error : Screened sampleEngine sampleSource
    (some (.array [.object [("error", .string "Please log in")]])) :=
  (bodies_screened_iff sampleEngine sampleSource _ rfl).mpr (Or.inr rfl)

/-- A change that has been pushed and is marked for the end of data. -/
def markedWorld : World :=
  World.start ((ChangedTable.empty.insert (queued 1 (some "7") (some "name") (some "Ann") none
    .update 3)).update (fun _ => True) (ChangedTable.setSent 3)) .empty ⟨[], List.nodup_nil⟩
    (fun _ => ⟨true, true, none⟩)

/-- The parser fails: the marked row is dropped, and there is no error. -/
theorem unparsed_body_cleans : markedWorld.changed.rows ≠ [] ∧ ∃ ms that w',
    Run step uiStep (processServerData sampleEngine sampleSource none) markedWorld ms
      (.ret that) w' ∧
    w'.changed.rows = [] ∧ that.errCode = .errNone ∧ ¬Rejected ms that := by
  refine ⟨by decide, ?_⟩
  obtain ⟨ms, hrun, -⟩ := run_exec step uiStep (processServerData sampleEngine sampleSource none)
    markedWorld
  exact ⟨ms, _, _, hrun, by decide, by decide, not_rejected_of_no_items rfl rfl hrun⟩

end Rhodes.MalformedPages
