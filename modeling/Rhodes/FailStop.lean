import Rhodes.StateWrites
import Rhodes.Rounds
import Rhodes.Queue

/-!
A round stops at its first failure. `Sound` relates three things at every point of a
round: a sync request that has failed since the round began, the error code of the
source at hand, and the engine's state. The first two imply that the engine has stopped;
and where no other thread stops the engine and no source gave up, it has stopped only
because of an error. What is tested before a request then shows that none follows a
failed one.
-/
namespace Rhodes.FailStop

open Database Json Statements Queue Interleaving Source ClientChanges ServerChanges SyncEngine Rhom
  Threads PushRound PullRules StateWrites Rounds

/-- The requests of a sync: push, pull, pushFile and pullFile. -/
def IsSync : Request → Prop
  | .pullClient _ => False
  | _ => True

/-- A sync request that failed. -/
def FailedSync : Event → Prop
  | .answered q ok => IsSync q ∧ ok = false
  | .page _ _ _ => False

/-- A sync request has failed since the log had `n` entries. -/
def Failed (n : Nat) (w : World) : Prop := ∃ ev ∈ w.log.drop n, FailedSync ev

/-- Other threads do not stop the engine, where `calm` says so. -/
def StopsOnlyIf (calm : Bool) : Move Stmt World UIAction → Prop
  | .env u _ => calm = true → u.stops = false
  | .own _ _ => True

theorem stopsOnlyIf_false (m : Move Stmt World UIAction) : StopsOnlyIf false m := by
  cases m with
  | env u x => exact Bool.noConfusion
  | own i x => trivial

/-- No sync request is made after a failed one. -/
def NoneAfterFailure (n : Nat) : Stmt → World → Prop
  | .request q, w => IsSync q → ¬ Failed n w
  | _, _ => True

/-- `err` tells whether an error code is set. -/
structure Sound (n : Nat) (calm err : Bool) (w : World) : Prop where
  failed : Failed n w → Stopped w
  code : err = true → Stopped w
  calm : calm = true → Stopped w → err = true

/-- What a test of the state that lets the engine go on leaves for the next statements. -/
structure Active (n : Nat) (calm : Bool) (w : World) : Prop where
  failed : ¬ Failed n w
  calm : calm = true → ¬ Stopped w

def hasError (this : SyncSource) : Bool := this.errCode ≠ .errNone

theorem Active.sound {n : Nat} {calm : Bool} {w : World} (h : Active n calm w) :
    Sound n calm false w :=
  ⟨fun hf => absurd hf h.failed, Bool.noConfusion, fun hc hs => absurd hs (h.calm hc)⟩

theorem sound_of_stopped {n : Nat} {calm : Bool} {w : World} (h : Stopped w) :
    Sound n calm true w := ⟨fun _ => h, fun _ => h, fun _ _ => rfl⟩

theorem Sound.mono {n : Nat} {calm calm' err : Bool} {w : World} (h : Sound n calm err w)
    (hcalm : calm' = true → calm = true) : Sound n calm' err w :=
  ⟨h.failed, h.code, fun hc => h.calm (hcalm hc)⟩

/-- A state in which the engine goes on. -/
theorem Sound.active {n : Nat} {calm err : Bool} {w : World} (h : Sound n calm err w)
    (hgo : w.syncState.isContinueSync = true) : Active n calm w ∧ err = false := by
  have hnot : ¬ Stopped w := by
    rw [Stopped, hgo]
    exact Bool.noConfusion
  refine ⟨⟨fun hf => hnot (h.failed hf), fun _ => hnot⟩, ?_⟩
  cases err with
  | false => rfl
  | true => exact absurd (h.code rfl) hnot

theorem stopped_frame {w w' : World} (h : Stopped w) (hframe : Frame w w') : Stopped w' := by
  rcases hframe.syncState with hsame | hnot
  · rw [Stopped, hsame]
    exact h
  · simpa [Stopped] using hnot

section Rules

variable {n : Nat} {calm calm' err : Bool}

abbrev failing (n : Nat) (calm : Bool) := against (StopsOnlyIf calm) (NoneAfterFailure n)

theorem not_stopped_of_calm {u : UIAction} {w w' : World} (hu : uiStep u w = some w')
    (hok : u.stops = false) (h : ¬ Stopped w) : ¬ Stopped w' := by
  rw [Stopped, uiStep_syncState u w w' hok hu]
  exact h

theorem failed_frame {w w' : World} (hframe : Frame w w') : Failed n w' ↔ Failed n w := by
  unfold Failed
  rw [hframe.log]

theorem sound_stable (hcalm : calm' = true → calm = true) :
    (failing n calm).Stable (Sound n calm' err) := by
  rintro w w' h ⟨u, hu, hok⟩
  have hframe := uiStep_frame u w w' hu
  refine ⟨fun hf => ?_, fun hc => stopped_frame (h.code hc) hframe, fun hc hs => ?_⟩
  · exact stopped_frame (h.failed ((failed_frame hframe).mp hf)) hframe
  · by_cases hbefore : Stopped w
    · exact h.calm hc hbefore
    · exact absurd hs (not_stopped_of_calm hu (hok (hcalm hc)) hbefore)

theorem active_stable (hcalm : calm' = true → calm = true) :
    (failing n calm).Stable (Active n calm') := by
  rintro w w' h ⟨u, hu, hok⟩
  have hframe := uiStep_frame u w w' hu
  refine ⟨fun hf => h.failed ((failed_frame hframe).mp hf), fun hc => ?_⟩
  exact not_stopped_of_calm hu (hok (hcalm hc)) (h.calm hc)

theorem stopped_stable : (failing n calm).Stable Stopped :=
  stable_of_frame (fun _ _ h hframe => stopped_frame h hframe)

/-- The statements that neither make a sync request nor write the state. -/
def Plain : Stmt → Prop
  | .request (.pullClient _) => True
  | .request _ => False
  | .setState _ => False
  | _ => True

theorem mem_drop_concat {α : Type} {l : List α} {x y : α} (h : x ∈ (l ++ [y]).drop n) :
    x ∈ l.drop n ∨ x = y := by
  rw [List.drop_append, List.mem_append] at h
  rcases h with h | h
  · exact Or.inl h
  · exact Or.inr (List.mem_singleton.mp (List.mem_of_mem_drop h))

/-- A failure enters the log with the answer to a sync request. -/
theorem failed_step {i : Stmt} {w : World} (h : Failed n (step i w)) :
    Failed n w ∨ ∃ q, i = .request q ∧ IsSync q ∧ (w.net w.requests).isOK = false := by
  obtain ⟨ev, hev, hfail⟩ := h
  cases i
  case request q =>
    rcases mem_drop_concat hev with hev | rfl
    · exact Or.inl ⟨ev, hev, hfail⟩
    · exact Or.inr ⟨q, rfl, hfail⟩
  case pageProcessed obj token complete =>
    rcases mem_drop_concat hev with hev | rfl
    · exact Or.inl ⟨ev, hev, hfail⟩
    · exact hfail.elim
  case selectAsk src =>
    left
    simp only [step] at hev
    split at hev <;> exact ⟨ev, hev, hfail⟩
  all_goals exact Or.inl ⟨ev, hev, hfail⟩

theorem failed_of_plain {i : Stmt} (hi : Plain i) {w : World} (h : Failed n (step i w)) :
    Failed n w := by
  rcases failed_step h with h | ⟨q, rfl, hq, -⟩
  · exact h
  · cases q <;> first | exact hi.elim | exact hq.elim

theorem stopped_of_plain {i : Stmt} (hi : Plain i) (w : World) :
    Stopped (step i w) ↔ Stopped w := by
  unfold Stopped
  rw [step_syncState]
  cases i <;> first | exact Iff.rfl | exact hi.elim

theorem noneAfterFailure_of_plain {i : Stmt} (hi : Plain i) (w : World) :
    NoneAfterFailure n i w := by
  cases i
  case request q =>
    intro hq
    cases q <;> first | exact hi.elim | exact hq.elim
  all_goals trivial

theorem Sound.plain {i : Stmt} (hi : Plain i) {w : World} (h : Sound n calm err w) :
    Sound n calm err (step i w) := by
  have hstop := stopped_of_plain hi w
  exact ⟨fun hf => hstop.mpr (h.failed (failed_of_plain hi hf)), fun hc => hstop.mpr (h.code hc),
    fun hc hs => h.calm hc (hstop.mp hs)⟩

theorem Active.plain {i : Stmt} (hi : Plain i) {w : World} (h : Active n calm w) :
    Active n calm (step i w) :=
  ⟨fun hf => h.failed (failed_of_plain hi hf),
    fun hc hs => h.calm hc ((stopped_of_plain hi w).mp hs)⟩

variable (hcalm : calm' = true → calm = true)
include hcalm

/-- Plain statements keep what holds between the tests. -/
theorem sound_only {α : Type} {p : Sync α} (hp : p.Only Plain) :
    (failing n calm).Triple (Sound n calm' err) p (fun _ => Sound n calm' err) :=
  Discipline.Triple.only (sound_stable hcalm)
    (fun _ w hi h _ => ⟨noneAfterFailure_of_plain hi w, h.plain hi⟩) hp

/-- Plain statements keep what a test leaves. -/
theorem active_only {α : Type} {p : Sync α} (hp : p.Only Plain) :
    (failing n calm).Triple (Active n calm') p (fun _ => Active n calm') :=
  Discipline.Triple.only (active_stable hcalm)
    (fun _ w hi h _ => ⟨noneAfterFailure_of_plain hi w, h.plain hi⟩) hp

/-- A test of the state: the engine goes on without an error, or has stopped. -/
theorem test_bind_stopped {α : Type} {f : Bool → Sync α} {R : α → World → Prop}
    (hyes : err = false → (failing n calm).Triple (Active n calm') (f true) R)
    (hno : (failing n calm).Triple (fun w => Sound n calm' err w ∧ Stopped w) (f false) R) :
    (failing n calm).Triple (Sound n calm' err) (isContinueSync.bind f) R := by
  cases err with
  | false =>
    refine continue_bind (sound_stable hcalm) ?_ (hyes rfl) hno
    exact fun w h _ => ⟨trivial, fun hgo => (h.active hgo).1, fun hstop => ⟨h, hstop⟩⟩
  | true =>
    have hnever : (failing n calm).Triple (fun _ => False) (f true) R := fun _ h => h.elim
    refine continue_bind (sound_stable hcalm) ?_ hnever hno
    exact fun w h _ => ⟨trivial, fun hgo => Bool.noConfusion (h.active hgo).2, fun hstop =>
      ⟨h, hstop⟩⟩

theorem test_bind {α : Type} {f : Bool → Sync α} {R : α → World → Prop}
    (hyes : err = false → (failing n calm).Triple (Active n calm') (f true) R)
    (hno : (failing n calm).Triple (Sound n calm' err) (f false) R) :
    (failing n calm).Triple (Sound n calm' err) (isContinueSync.bind f) R :=
  test_bind_stopped hcalm hyes (hno.conseq (fun _ h => h.1) (fun _ _ h => h))

/-- A sync request is made after a test, so none has failed before it. -/
theorem request_bind {α : Type} {q : Request} {f : NetResponse → Sync α} {R : α → World → Prop}
    (hyes : ∀ resp, resp.isOK = true → (failing n calm).Triple (Active n calm') (f resp) R)
    (hno : ∀ resp, resp.isOK = false → (failing n calm).Triple (fun _ => True) (f resp) R) :
    (failing n calm).Triple (Active n calm') ((send q).bind f) R := by
  refine send_bind (active_stable hcalm) ?_ hyes hno
  refine fun w h _ => ⟨fun _ => h.failed, fun hok => ⟨fun hf => ?_, h.calm⟩, fun _ => trivial⟩
  rcases failed_step hf with hf | ⟨q', -, -, hfail⟩
  · exact h.failed hf
  · rw [hok] at hfail
    cases hfail

omit hcalm

theorem setStop_bind {α : Type} {p : Sync α} {R : α → World → Prop}
    (hp : (failing n calm).Triple Stopped p R) :
    (failing n calm).Triple (fun _ => True) ((execute (.setState .esStop)).bind (fun _ => p)) R :=
  execute_bind stable_true (fun _ _ _ => ⟨trivial, rfl⟩) hp

/-- stopSync leaves the engine stopped, whoever has stopped it. -/
theorem stopSync_bind {α : Type} {p : Sync α} {R : α → World → Prop}
    (hp : (failing n calm).Triple Stopped p R) :
    (failing n calm).Triple (fun _ => True) (stopSync.bind (fun _ => p)) R := by
  have hstop : (failing n calm).Triple (fun _ => True) stopSync (fun _ => Stopped) := by
    have hend : (failing n calm).Triple Stopped (.ret () : Sync Unit) (fun _ => Stopped) :=
      Discipline.Triple.ret stopped_stable (fun _ h => h)
    refine continue_bind stable_true ?_ (setStop_bind hend) hend
    exact fun w _ _ => ⟨trivial, fun _ => trivial, fun h => h⟩
  exact Discipline.Triple.bind hstop (fun _ => hp)

/-- An error may be returned once the engine has stopped. -/
theorem ret_error {this : SyncSource} (h : hasError this = true) :
    (failing n calm).Triple Stopped (.ret this : Sync SyncSource)
      (fun that => Sound n calm' (hasError that)) := by
  refine Discipline.Triple.ret stopped_stable (fun w hw => ?_)
  rw [h]
  exact sound_of_stopped hw

end Rules

/-! Pulling. -/

section Pull

variable {n : Nat} {calm calm' : Bool} (hcalm : calm' = true → calm = true)

/-- The object after statements that leave its error code alone. -/
def SameError (this that : SyncSource) : Prop := hasError that = hasError this

theorem failCode_ne (resp : NetResponse) : failCode resp ≠ .errNone := by
  unfold failCode
  split <;> decide

theorem hasError_of_code {this : SyncSource} {code : ErrCode} (h : code ≠ .errNone) :
    hasError { this with errCode := code } = true := by simpa [hasError] using h

theorem storing_plain {α : Type} {p : Sync α} (hp : p.Only Storing) : p.Only Plain :=
  hp.mono (fun i hi => by cases i <;> trivial)

theorem processToken_plain (this : SyncSource) (token : UInt64) :
    (processToken this token).Only Plain :=
  Prog.Only.bind (when_only (execute_only trivial))
    (fun _ => Prog.Only.bind (execute_only trivial) (fun _ => trivial))

theorem processToken_sameError (this : SyncSource) (token : UInt64) :
    (processToken this token).Returns (SameError this) :=
  Prog.Returns.ret_bind (fun _ => Prog.Returns.ret_bind (fun _ => rfl))

theorem readHead_sameError (this : SyncSource) (page : List JsonObject) :
    SameError this (readHead this page).1 := by
  unfold readHead
  split
  · rfl
  · dsimp only
    split
    · split <;> rfl
    · rfl

theorem endPage_plain (this : SyncSource) : (endPage this).Only Plain :=
  Prog.Only.bind (when_only (execute_only trivial)) (fun _ => trivial)

include hcalm

theorem sound_returns {this : SyncSource} {p : Sync SyncSource} (hp : p.Only Plain)
    (hsame : p.Returns (SameError this)) :
    (failing n calm).Triple (Sound n calm' (hasError this)) p
      (fun that => Sound n calm' (hasError that)) := by
  apply ((sound_only hcalm hp).returns hsame).conseq (fun _ h => h)
  rintro that w ⟨h, hsame⟩
  rw [hsame]
  exact h

theorem downloadBlob_triple (e : Engine) (value : CValue) :
    (failing n calm).Triple (Active n calm') (downloadBlob e value) (fun r w => match r with
      | .ok _ => Active n calm' w
      | .error code => code ≠ .errNone) := by
  have hok : ∀ v, (failing n calm).Triple (Active n calm')
      (.ret (.ok v) : Sync (Except ErrCode CValue)) (fun r w => match r with
        | .ok _ => Active n calm' w
        | .error code => code ≠ .errNone) :=
    fun v => Discipline.Triple.ret (active_stable hcalm) (fun _ h => h)
  refine Discipline.Triple.ite (fun _ => hok value) (fun _ => ?_)
  refine request_bind hcalm (fun resp hresp => ?_) (fun resp hresp => ?_)
  · simp only [hresp, if_true]
    exact hok _
  · simp only [hresp, Bool.false_eq_true, if_false]
    exact Discipline.Triple.ret stable_true (fun _ _ => failCode_ne resp)

/-- What the loop over the entries of an object leaves: where it ended with `ok = false`,
an error code is set and stopSync is called next. -/
def EntriesEnd (n : Nat) (calm : Bool) (r : Merge) (w : World) : Prop :=
  (r.ok = true → Sound n calm (hasError r.this) w) ∧ (r.ok = false → hasError r.this = true)

theorem processEntries_triple (e : Engine) (nSrcID : Int) (oldObject object : Option String)
    (this : SyncSource) (updatedOO : Bool) (entries : List JsonObject) :
    (failing n calm).Triple (Sound n calm' (hasError this))
      (processEntries e nSrcID oldObject object this updatedOO entries) (EntriesEnd n calm') := by
  have hret : ∀ (this : SyncSource) (finished : Bool),
      (failing n calm).Triple (Sound n calm' (hasError this))
        (.ret ⟨this, true, finished⟩ : Sync Merge) (EntriesEnd n calm') := fun this finished =>
    Discipline.Triple.ret (sound_stable hcalm) (fun _ h => ⟨fun _ => h, Bool.noConfusion⟩)
  induction entries generalizing this updatedOO with
  | nil => exact hret this true
  | cons entry rest ih =>
    refine test_bind hcalm (fun herr => ?_) (hret this false)
    -- An entry is stored or deleted after the test, and the loop goes on without an error.
    have hnext : ∀ (that : SyncSource) (b : Bool), hasError that = hasError this →
        (failing n calm).Triple (Active n calm')
          (processEntries e nSrcID oldObject object that b rest) (EntriesEnd n calm') := by
      intro that b hsame
      apply (ih that b).conseq _ (fun _ _ h => h)
      intro w hw
      rw [hsame, herr]
      exact hw.sound
    refine Discipline.Triple.ite (c := entry.isEmpty = true) (fun _ => hnext this updatedOO rfl)
      (fun _ => Discipline.Triple.ite ?_ ?_)
    · intro _
      apply Discipline.Triple.bind (downloadBlob_triple hcalm e (cValue entry))
      intro r
      cases r with
      | error code => exact fun w hcode v _ => ⟨Bool.noConfusion, fun _ => hasError_of_code hcode⟩
      | ok value =>
        exact Discipline.Triple.bind (active_only hcalm
          (storing_plain (storeEntry_only _ _ _ _ _ _)))
          (fun _ => hnext _ _ rfl)
    · intro _
      exact Discipline.Triple.bind (active_only hcalm (storing_plain (deleteEntry_only _)))
        (fun _ => hnext _ _ rfl)

theorem processSyncObjectVer1_triple (e : Engine) (this : SyncSource) (json : JsonObject)
    (nSrcID : Int) :
    (failing n calm).Triple (Sound n calm' (hasError this))
      (processSyncObjectVer1 e this json nSrcID) (EntriesEnd n calm') := by
  have hret : (failing n calm).Triple (Sound n calm' (hasError this))
      (.ret ⟨this, true, true⟩ : Sync Merge) (EntriesEnd n calm') :=
    Discipline.Triple.ret (sound_stable hcalm) (fun _ h => ⟨fun _ => h, Bool.noConfusion⟩)
  refine Discipline.Triple.ite (fun _ => hret) (fun _ =>
    Discipline.Triple.ite (fun _ => ?_) (fun _ => ?_))
  · exact Discipline.Triple.bind (sound_only hcalm (execute_only trivial)) (fun _ => hret)
  · exact processEntries_triple hcalm _ _ _ _ _ _ _

/-- What the loops over a page leave. -/
def MergeEnd (n : Nat) (calm : Bool) (r : Merge) (w : World) : Prop :=
  Sound n calm (hasError r.this) w

theorem ret_merge (this : SyncSource) (ok finished : Bool) :
    (failing n calm).Triple (Sound n calm' (hasError this))
      (.ret ⟨this, ok, finished⟩ : Sync Merge) (MergeEnd n calm') :=
  Discipline.Triple.ret (sound_stable hcalm) (fun _ h => h)

theorem processObjects_triple (e : Engine) (nSrcID : Int) (this : SyncSource)
    (objects : List JsonObject) :
    (failing n calm).Triple (Sound n calm' (hasError this)) (processObjects e nSrcID this objects)
      (MergeEnd n calm') := by
  induction objects generalizing this with
  | nil => exact ret_merge hcalm this true true
  | cons json rest ih =>
    refine test_bind hcalm (fun herr => ?_) (ret_merge hcalm this true false)
    apply Discipline.Triple.bind (active_only hcalm (storing_plain commitForUI_only))
    intro _
    have hobject := (processSyncObjectVer1_triple hcalm e this json nSrcID).conseq
      (R := Active n calm') (fun w hw => herr ▸ hw.sound) (fun _ _ h => h)
    apply Discipline.Triple.bind hobject
    intro r
    cases hok : r.ok with
    | true =>
      simp only [if_true]
      refine Discipline.Triple.conseq (P := Sound n calm' (hasError r.this)) (Q := MergeEnd n calm')
        ?_ (fun _ h => h.1 hok) (fun _ _ h => h)
      refine Discipline.Triple.bind
        (sound_only hcalm (storing_plain (countObject_only r.this nSrcID))) (fun _ => ?_)
      apply Discipline.Triple.bind (ih { r.this with getAtLeastOnePage := true })
      intro q
      exact ret_merge hcalm q.this q.ok _
    | false =>
      simp only [Bool.false_eq_true, if_false]
      by_cases herror : hasError r.this = true
      · refine Discipline.Triple.conseq (P := fun _ => True) (Q := MergeEnd n calm') ?_
          (fun _ _ => trivial) (fun _ _ h => h)
        apply stopSync_bind
        refine Discipline.Triple.ret stopped_stable (fun w hw => ?_)
        rw [MergeEnd, herror]
        exact sound_of_stopped hw
      · exact fun w h => absurd (h.2 hok) herror

theorem processServerDataVer1_triple (e : Engine) (this : SyncSource) (groups : List JsonObject) :
    (failing n calm).Triple (Sound n calm' (hasError this)) (processServerDataVer1 e this groups)
      (MergeEnd n calm') := by
  induction groups generalizing this with
  | nil => exact ret_merge hcalm this true true
  | cons group rest ih =>
    refine test_bind hcalm (fun herr => ?_) (ret_merge hcalm this true false)
    have hactive : ∀ w, Active n calm' w → Sound n calm' (hasError this) w :=
      fun w hw => herr ▸ hw.sound
    simp only [if_true]
    cases groupSource e this (group.getStr "s") with
    | none =>
      refine Discipline.Triple.conseq (P := fun _ => True) (Q := MergeEnd n calm') ?_
        (fun _ _ => trivial) (fun _ _ h => h)
      exact stopSync_bind (Discipline.Triple.ret stopped_stable (fun _ hw => sound_of_stopped hw))
    | some nSrcID =>
      have hobjects := (processObjects_triple hcalm e nSrcID this (group.getArray "ol")).conseq
        hactive (fun _ _ h => h)
      apply Discipline.Triple.bind hobjects
      intro r
      apply Discipline.Triple.bind (ih r.this)
      intro q
      exact ret_merge hcalm q.this q.ok _

theorem mergePage_triple (e : Engine) (this : SyncSource) (groups : List JsonObject) :
    (failing n calm).Triple (Sound n calm' (hasError this)) (mergePage e this groups)
      (MergeEnd n calm') := by
  refine Discipline.Triple.ite (fun _ => ret_merge hcalm this true true) (fun _ => ?_)
  refine test_bind hcalm (fun herr => ?_) (ret_merge hcalm this true false)
  have hbegin := (active_only (n := n) hcalm (execute_only (L := Plain) (i := .startTransaction)
    trivial)).conseq
    (fun _ h => h) (fun _ w hw => show Sound n calm'
      (hasError { this with pass := .edpNone }) w from
      herr ▸ hw.sound)
  apply Discipline.Triple.bind hbegin
  intro _
  apply Discipline.Triple.bind (processServerDataVer1_triple hcalm e
    { this with pass := .edpNone } groups)
  intro r
  apply Discipline.Triple.bind
    (processServerDataVer1_triple hcalm e { r.this with pass := .edpDeleteObjects } groups)
  intro q
  refine Discipline.Triple.bind (sound_only hcalm (execute_only trivial)) (fun _ => ?_)
  refine Discipline.Triple.bind (sound_only hcalm (execute_only trivial)) (fun _ => ?_)
  exact ret_merge hcalm q.this q.ok _

theorem endPage_triple (this : SyncSource) :
    (failing n calm).Triple (Sound n calm' (hasError this)) (endPage this)
      (fun that => Sound n calm' (hasError that)) :=
  sound_returns hcalm (endPage_plain this) (Prog.Returns.ret_bind (fun _ => rfl))

theorem processPage_triple (e : Engine) (this : SyncSource) (token : UInt64)
    (groups : List JsonObject) :
    (failing n calm).Triple (Sound n calm' (hasError this)) (processPage e this token groups)
      (fun that => Sound n calm' (hasError that)) := by
  apply Discipline.Triple.bind
    (sound_returns hcalm (processToken_plain this token) (processToken_sameError this token))
  intro that
  apply Discipline.Triple.bind (mergePage_triple hcalm e that groups)
  intro r
  refine Discipline.Triple.bind (sound_only hcalm (execute_only trivial)) (fun _ => ?_)
  exact endPage_triple hcalm r.this

theorem processEnd_triple (this : SyncSource) :
    (failing n calm).Triple (Sound n calm' (hasError this)) (processEnd this)
      (fun that => Sound n calm' (hasError that)) := by
  refine Discipline.Triple.ite (fun _ => ?_) (fun _ => endPage_triple hcalm this)
  refine Discipline.Triple.bind (sound_only hcalm (execute_only trivial)) (fun _ => ?_)
  apply Discipline.Triple.bind
    (sound_returns hcalm (processToken_plain this 0) (processToken_sameError this 0))
  exact fun that => endPage_triple hcalm that

theorem processServerData_triple (e : Engine) (this : SyncSource) (data : Option JsonObject) :
    (failing n calm).Triple (Sound n calm' (hasError this)) (processServerData e this data)
      (fun that => Sound n calm' (hasError that)) := by
  refine Discipline.Triple.ite (fun _ => ?_) (fun _ => ?_)
  · refine Discipline.Triple.conseq (P := fun _ => True) ?_ (fun _ _ => trivial) (fun _ _ h => h)
    exact stopSync_bind (ret_error rfl)
  · refine Discipline.Triple.bind (sound_only hcalm (when_only (execute_only trivial)))
      (fun _ => ?_)
    rw [← readHead_sameError this (data.getD .null).items]
    cases (readHead this (data.getD .null).items).2 with
    | nil => exact processEnd_triple hcalm _
    | cons element groups => exact processPage_triple hcalm _ _ _ _

theorem syncServerChanges_triple (e : Engine) (fuel : Nat) (this : SyncSource) :
    (failing n calm).Triple (Sound n calm' (hasError this)) (syncServerChanges e fuel this)
      (fun that => Sound n calm' (hasError that)) := by
  have hret : ∀ this : SyncSource, (failing n calm).Triple (Sound n calm' (hasError this))
      (.ret this : Sync SyncSource) (fun that => Sound n calm' (hasError that)) :=
    fun this => Discipline.Triple.ret (sound_stable hcalm) (fun _ h => h)
  induction fuel generalizing this with
  | zero => exact hret this
  | succ fuel ih =>
    refine test_bind hcalm (fun herr => ?_) (hret this)
    refine request_bind hcalm (fun resp hresp => ?_) (fun resp hresp => ?_)
    · simp only [hresp, if_true]
      have hdata := (processServerData_triple (n := n) hcalm e (this.setCurPageCount 0)
        resp.charData).conseq
        (R := Active n calm') (fun w hw => by
          rw [show hasError (this.setCurPageCount 0) = hasError this from rfl, herr]
          exact hw.sound) (fun _ _ h => h)
      apply Discipline.Triple.bind hdata
      intro that
      exact Discipline.Triple.ite (fun _ => hret that) (fun _ => ih that)
    · simp only [hresp, Bool.false_eq_true, if_false]
      apply stopSync_bind
      refine (ih _).conseq (fun w hw => ?_) (fun _ _ h => h)
      rw [hasError_of_code (failCode_ne resp)]
      exact sound_of_stopped hw

end Pull

/-! Pushing. -/

section Push

variable {n : Nat} {calm calm' : Bool} (hcalm : calm' = true → calm = true)
include hcalm

/-- A source without an error may be returned while the engine goes on. -/
theorem ret_active {this : SyncSource} (herr : hasError this = false) :
    (failing n calm).Triple (Active n calm') (.ret this : Sync SyncSource)
      (fun that => Sound n calm' (hasError that)) :=
  Discipline.Triple.ret (active_stable hcalm) (fun _ hw => herr ▸ hw.sound)

theorem syncClientBlobs_triple (e : Engine) (this : SyncSource) (herr : hasError this = false)
    (t : UpdateType) (strBaseQuery : String) (blobs : List SyncBlob) :
    (failing n calm).Triple (Active n calm') (syncClientBlobs e this t strBaseQuery blobs)
      (fun that => Sound n calm' (hasError that)) := by
  induction blobs with
  | nil => exact ret_active hcalm herr
  | cons blob rest ih =>
    refine request_bind hcalm (fun resp hresp => ?_) (fun resp hresp => ?_)
    · simp only [hresp, if_true]
      exact Discipline.Triple.bind (active_only hcalm (execute_only trivial)) (fun _ => ih)
    · simp only [hresp, Bool.false_eq_true, if_false]
      exact setStop_bind (ret_error (hasError_of_code (failCode_ne resp)))

theorem confirmPush_triple (e : Engine) (this : SyncSource) (herr : hasError this = false)
    (t : UpdateType) (b : PushBody) :
    (failing n calm).Triple (Active n calm') (confirmPush e this t b)
      (fun that => Sound n calm' (hasError that)) := by
  refine Discipline.Triple.ite (fun _ => ?_) (fun _ =>
    Discipline.Triple.ite (fun _ => ?_) (fun _ => ?_))
  · refine Discipline.Triple.bind (active_only hcalm (execute_only ?_))
      (fun _ => syncClientBlobs_triple hcalm e this herr t _ _)
    split <;> trivial
  · refine Discipline.Triple.bind (active_only hcalm (execute_only ?_))
      (fun _ => ret_active hcalm herr)
    split <;> trivial
  · exact ret_active hcalm herr

theorem pushChanges_triple (e : Engine) (this : SyncSource) (herr : hasError this = false)
    (t : UpdateType) :
    (failing n calm).Triple (Active n calm') (pushChanges e this t)
      (fun that => Sound n calm' (hasError that)) := by
  have hbuild : (makePushBody this t).Only Plain := Prog.Only.perform trivial _
  refine Discipline.Triple.bind (active_only hcalm hbuild) (fun b => ?_)
  refine Discipline.Triple.ite (fun _ => ?_) (fun _ => confirmPush_triple hcalm e this herr t b)
  refine request_bind hcalm (fun resp hresp => ?_) (fun resp hresp => ?_)
  · simp only [hresp, if_true]
    exact confirmPush_triple hcalm e this herr t b
  · simp only [hresp, Bool.false_eq_true, if_false]
    exact setStop_bind (ret_error rfl)

theorem pushLoop_triple (e : Engine) (types : List UpdateType) (this : SyncSource) :
    (failing n calm).Triple (Sound n calm' (hasError this)) (pushLoop e this types)
      (fun that => Sound n calm' (hasError that)) := by
  have hret : (failing n calm).Triple (Sound n calm' (hasError this)) (.ret this : Sync SyncSource)
      (fun that => Sound n calm' (hasError that)) :=
    Discipline.Triple.ret (sound_stable hcalm) (fun _ h => h)
  induction types generalizing this with
  | nil => exact hret
  | cons t rest ih =>
    refine test_bind hcalm (fun herr => ?_) hret
    apply Discipline.Triple.bind (pushChanges_triple hcalm e this herr t)
    intro that
    exact ih that (Discipline.Triple.ret (sound_stable hcalm) (fun _ h => h))

theorem getAndremoveAsk_triple (this : SyncSource) :
    (failing n calm).Triple (Sound n calm' (hasError this)) (getAndremoveAsk this)
      (fun that => Sound n calm' (hasError that)) := by
  refine sound_returns hcalm ?_ ?_
  · apply Prog.Only.bind (Prog.Only.perform trivial _)
    exact fun askParams => Prog.Only.bind (execute_only trivial) (fun _ => trivial)
  · exact Prog.Returns.ret_bind (fun _ => Prog.Returns.ret_bind (fun _ => rfl))

end Push

/-! The sync of one source. -/

section Sync

variable {n : Nat} {calm calm' : Bool} (hcalm : calm' = true → calm = true)
include hcalm

/-- What is known after sync gave up, or did not: only in the second case has the engine
stopped because of an error. -/
def SyncEnd (n : Nat) (calm : Bool) (that : SyncSource) (gaveUp : Bool) (w : World) : Prop :=
  Sound n (calm && !gaveUp) (hasError that) w

theorem syncEnd_calm (gaveUp : Bool) :
    (calm' && !gaveUp) = true → calm = true := by
  intro h
  exact hcalm (Bool.and_eq_true_iff.mp h).1

theorem pullPending_triple (fuel : Nat) (e : Engine) (this : SyncSource) (pending : Bool) :
    (failing n calm).Triple (Sound n calm' (hasError this)) (pullPending fuel e this pending)
      (fun r => Sound n calm' (hasError r.1)) := by
  refine Discipline.Triple.ite (fun _ => ?_) (fun _ => ?_)
  · apply Discipline.Triple.bind (syncServerChanges_triple hcalm e fuel this)
    intro that
    refine Discipline.Triple.bind (sound_only hcalm (query_only trivial _)) (fun b => ?_)
    exact Discipline.Triple.ret (sound_stable hcalm) (fun _ h => h)
  · exact Discipline.Triple.ret (sound_stable hcalm) (fun _ h => h)

theorem syncClientRecorded_triple (fuel : Nat) (e : Engine) (this : SyncSource) :
    (failing n calm).Triple (Sound n calm' (hasError this)) (syncClientRecorded fuel e this)
      (fun r => SyncEnd n calm' r.1.1 r.2) := by
  have hret : ∀ (that : SyncSource) (b : Bool), (failing n calm).Triple
      (Sound n calm' (hasError that)) (.ret ((that, b), false) : Sync ((SyncSource × Bool) × Bool))
      (fun r => SyncEnd n calm' r.1.1 r.2) := fun that b =>
    Discipline.Triple.ret (sound_stable hcalm)
      (fun _ h => h.mono (fun hc => (Bool.and_eq_true_iff.mp hc).1))
  refine Discipline.Triple.bind (sound_only hcalm (query_only trivial _)) (fun pending => ?_)
  apply Discipline.Triple.bind (pullPending_triple hcalm fuel e this pending)
  intro r
  refine Discipline.Triple.ite (fun _ => ?_) (fun _ => ?_)
  · -- Giving up stops the engine without an error code.
    refine Discipline.Triple.conseq (P := fun _ => True) ?_ (fun _ _ => trivial) (fun _ _ h => h)
    apply setStop_bind
    refine Discipline.Triple.ret stopped_stable (fun w hw => ?_)
    refine ⟨fun _ => hw, fun _ => hw, fun hc => ?_⟩
    simp at hc
  · refine Discipline.Triple.bind (sound_only hcalm (query_only trivial _)) (fun b => ?_)
    refine Discipline.Triple.ite (fun _ => ?_) (fun _ => hret r.1 _)
    apply Discipline.Triple.bind (pushLoop_triple hcalm e _ r.1)
    intro that
    apply Discipline.Triple.bind (getAndremoveAsk_triple hcalm that)
    exact fun last => hret last false

theorem startToken_triple (this : SyncSource) :
    (failing n calm).Triple (Sound n calm' (hasError this)) (startToken this)
      (fun that => Sound n calm' (hasError that)) := by
  refine Discipline.Triple.ite (fun _ => ?_) (fun _ => ?_)
  · exact sound_returns hcalm (processToken_plain this 1) (processToken_sameError this 1)
  · exact Discipline.Triple.ret (sound_stable hcalm) (fun _ h => h)

theorem syncRecorded_triple (fuel : Nat) (e : Engine) (this : SyncSource) :
    (failing n calm).Triple (Sound n calm' (hasError this)) (syncRecorded fuel e this)
      (fun r => SyncEnd n calm' r.1 r.2) := by
  refine Discipline.Triple.bind (sound_only hcalm (execute_only trivial)) (fun _ => ?_)
  apply Discipline.Triple.bind (startToken_triple hcalm this)
  intro that
  refine Discipline.Triple.bind (Q := fun r => SyncEnd n calm' r.1.1 r.2) ?_ (fun r => ?_)
  · refine Discipline.Triple.ite (fun _ => syncClientRecorded_triple hcalm fuel e that)
      (fun _ => ?_)
    exact Discipline.Triple.ret (sound_stable hcalm)
      (fun _ h => h.mono (fun hc => (Bool.and_eq_true_iff.mp hc).1))
  · have hcalm' := syncEnd_calm hcalm r.2
    refine Discipline.Triple.ite (fun _ => ?_) (fun _ => ?_)
    · exact Discipline.Triple.ret (sound_stable hcalm') (fun _ h => h)
    · apply Discipline.Triple.bind (syncServerChanges_triple hcalm' e fuel r.1.1)
      exact fun last => Discipline.Triple.ret (sound_stable hcalm') (fun _ h => h)

end Sync

/-! A round. -/

section Round

variable {n : Nat} {calm calm' : Bool}

/-- What a round from a point of the list on leaves, when `bError` came before it. -/
structure RoundEnd (n : Nat) (calm bError : Bool) (sources : List SyncSource)
    (r : Bool × List SourceRecord) (w : World) : Prop where
  stuck : bError = true → r = (true, []) ∧ Stopped w
  errors : ∀ rec ∈ r.2.dropLast, hasError rec.src = false
  stops : ∀ rec ∈ r.2, hasError rec.src = true → Stopped w
  complete : calm = true → (∀ rec ∈ r.2, rec.gaveUp = false) → r.1 = false →
    r.2.map SourceRecord.source = sources ∧ (∀ rec ∈ r.2, rec.ran = true ∧ hasError rec.src = false) ∧
      ¬ Stopped w

theorem roundEnd_stable (hcalm : calm' = true → calm = true) (bError : Bool)
    (sources : List SyncSource) (r : Bool × List SourceRecord) :
    (failing n calm).Stable (RoundEnd n calm' bError sources r) := by
  rintro w w' h ⟨u, hu, hok⟩
  have hframe := uiStep_frame u w w' hu
  refine ⟨fun hb => ?_, h.errors, fun rec hrec herr => ?_, fun hc hgave hr => ?_⟩
  · exact ⟨(h.stuck hb).1, stopped_frame (h.stuck hb).2 hframe⟩
  · exact stopped_frame (h.stops rec hrec herr) hframe
  · obtain ⟨hall, hran, hgo⟩ := h.complete hc hgave hr
    exact ⟨hall, hran, not_stopped_of_calm hu (hok (hcalm hc)) hgo⟩

/-- The round ends at its first test, or at the end of the list. -/
theorem roundEnd_nil {bError : Bool} {sources : List SyncSource} {w : World}
    (h : Sound n calm bError w) (hend : Stopped w ∨ sources = []) :
    RoundEnd n calm bError sources (bError, []) w := by
  refine ⟨fun hb => ⟨by rw [hb], h.code hb⟩, by simp, by simp, fun hc _ hr => ?_⟩
  have hgo : ¬ Stopped w := fun hs => Bool.noConfusion (hr.symm.trans (h.calm hc hs))
  rcases hend with hs | rfl
  · exact absurd hs hgo
  · exact ⟨rfl, by simp, hgo⟩

/-- One more source in front of the rest of a round. -/
theorem roundEnd_cons {src : SyncSource} {rest : List SyncSource} {r : SourceRecord}
    {q : Bool × List SourceRecord} {w : World} (hsrc : r.source = src)
    (hran : calm = true → r.ran = true)
    (h : RoundEnd n (calm && !r.gaveUp) (hasError r.src) rest q w) :
    RoundEnd n calm false (src :: rest) (q.1, r :: q.2) w := by
  refine ⟨Bool.noConfusion, ?_, ?_, ?_⟩
  · intro rec hrec
    cases hq : q.2 with
    | nil => simp [hq] at hrec
    | cons next later =>
      simp only [hq, List.dropLast_cons_cons, List.mem_cons] at hrec
      rcases hrec with rfl | hrec
      · by_contra herr
        have hstuck := (h.stuck (by simpa using herr)).1
        simp [hstuck] at hq
      · exact h.errors rec (by rw [hq]; exact hrec)
  · intro rec hrec herr
    rcases List.mem_cons.mp hrec with rfl | hrec
    · exact (h.stuck herr).2
    · exact h.stops rec hrec herr
  · intro hc hgave hr
    obtain ⟨hfirst, hlater⟩ := List.forall_mem_cons.mp hgave
    obtain ⟨hsources, hall, hgo⟩ := h.complete (by simp [hc, hfirst]) hlater hr
    refine ⟨by simp [hsrc, hsources], List.forall_mem_cons.mpr ⟨⟨hran hc, ?_⟩, hall⟩, hgo⟩
    by_contra herr
    have hstuck := (h.stuck (by simpa using herr)).1
    simp [hstuck] at hr

variable (hcalm : calm' = true → calm = true)
include hcalm

theorem syncUnlessStoppedRecorded_triple (fuel : Nat) (e : Engine) (src : SyncSource)
    (herr : hasError src = false) :
    (failing n calm).Triple (Active n calm') (syncUnlessStoppedRecorded fuel e src)
      (fun r w => SyncEnd n calm' r.src r.gaveUp w ∧ r.source = src ∧
        (calm' = true → r.ran = true)) := by
  apply Discipline.Triple.perform_bind
    (fun state w => Active n calm' w ∧ (calm' = true → state ≠ .esStop)) (active_stable hcalm)
  · intro w hw _
    refine ⟨trivial, hw, fun hc hstop => hw.calm hc ?_⟩
    rw [Stopped, hstop]
    rfl
  · intro state
    have hsync := (syncRecorded_triple (n := n) hcalm fuel e src).conseq
      (R := fun w => Active n calm' w ∧ (calm' = true → state ≠ .esStop))
      (fun w hw => herr ▸ hw.1.sound) (fun _ _ h => h)
    refine Discipline.Triple.ite (fun _ => ?_) (fun hstop => ?_)
    · apply Discipline.Triple.bind hsync
      intro r
      exact Discipline.Triple.ret (sound_stable (syncEnd_calm hcalm r.2))
        (fun _ h => ⟨h, rfl, fun _ => rfl⟩)
    · refine Discipline.Triple.conseq (P := fun w => Active n calm' w ∧ ¬ (calm' = true)) ?_
        (fun w hw => ⟨hw.1, fun hc => hstop (hw.2 hc)⟩) (fun _ _ h => h)
      have hstable : (failing n calm).Stable (fun w => Active n calm' w ∧ ¬ (calm' = true)) :=
        (active_stable hcalm).and (fun _ _ h _ => h)
      refine Discipline.Triple.ret hstable (fun w hw => ⟨?_, rfl, fun hc => absurd hc hw.2⟩)
      show Sound n (calm' && !false) (hasError src) w
      rw [herr]
      exact hw.1.sound.mono (fun hc => (Bool.and_eq_true_iff.mp hc).1)

theorem syncSourcesRecorded_triple (fuel : Nat) (e : Engine) (sources : List SyncSource)
    (hsources : ∀ src ∈ sources, hasError src = false) (bError : Bool) :
    (failing n calm).Triple (Sound n calm' bError) (syncSourcesRecorded fuel e bError sources)
      (RoundEnd n calm' bError sources) := by
  induction sources generalizing bError calm' with
  | nil => exact Discipline.Triple.ret (sound_stable hcalm) (fun _ h => roundEnd_nil h (Or.inr rfl))
  | cons src rest ih =>
    obtain ⟨hsrc, hrest⟩ := List.forall_mem_cons.mp hsources
    refine test_bind_stopped hcalm (fun hb => ?_) ?_
    · subst hb
      apply Discipline.Triple.bind (syncUnlessStoppedRecorded_triple hcalm fuel e src hsrc)
      intro r
      by_cases hrec : r.source = src ∧ (calm' = true → r.ran = true)
      · have hcalm' := syncEnd_calm hcalm r.gaveUp
        refine Discipline.Triple.conseq (P := SyncEnd n calm' r.src r.gaveUp) ?_ (fun _ h => h.1)
          (fun _ _ h => h)
        refine Discipline.Triple.bind (sound_only hcalm' (execute_only trivial)) (fun _ => ?_)
        apply Discipline.Triple.bind (ih hcalm' hrest (hasError r.src))
        intro q
        exact Discipline.Triple.ret (roundEnd_stable hcalm' _ _ _)
          (fun _ h => roundEnd_cons hrec.1 hrec.2 h)
      · exact fun w h => absurd h.2 hrec
    · have hstable : (failing n calm).Stable (fun w => Sound n calm' bError w ∧ Stopped w) :=
        (sound_stable hcalm).and stopped_stable
      exact Discipline.Triple.ret hstable (fun _ h => roundEnd_nil h.1 (Or.inl h.2))

omit hcalm

/-- What a round leaves, with the record of it. -/
theorem syncAllSourcesRecorded_triple (fuel : Nat) (e : Engine)
    (hcodes : ∀ src ∈ e.sources, src.errCode = .errNone) :
    (failing n calm).Triple (Sound n calm false) (syncAllSourcesRecorded fuel e) (fun r =>
      RoundEnd n calm false (e.sources.drop (getStartSource e.sources))
        (!r.completed, r.records)) := by
  have hsources : ∀ src ∈ e.sources.drop (getStartSource e.sources), hasError src = false := by
    intro src hsrc
    simp [hasError, hcodes src (List.mem_of_mem_drop hsrc)]
  apply Discipline.Triple.bind (syncSourcesRecorded_triple id fuel e _ hsources false)
  rintro ⟨bError, records⟩
  have hstable : (failing n calm).Stable (RoundEnd n calm false
      (e.sources.drop (getStartSource e.sources)) (bError, records)) := roundEnd_stable id _ _ _
  cases bError with
  | true => exact Discipline.Triple.ret hstable (fun _ h => h)
  | false =>
    refine execute_bind (Q := RoundEnd n calm false _ (false, records)) hstable ?_
      (Discipline.Triple.ret hstable (fun _ h => h))
    intro w h _
    exact ⟨trivial, h.stuck, h.errors, h.stops, h.complete⟩

end Round

/-- A sync request, whatever its answer. -/
def SyncEvent : Event → Prop
  | .answered q _ => IsSync q
  | .page _ _ _ => False

/-- After a failed sync request the log of a run holds no further one. -/
theorem log_pairwise {α : Type} {p q : Sync α} {s t : World} {ms : List (Move Stmt World UIAction)}
    (hrun : Run step uiStep p s ms q t)
    (hgoal : ∀ i x, Move.own i x ∈ ms → NoneAfterFailure s.log.length i x) :
    (t.log.drop s.log.length).Pairwise (fun ev ev' => FailedSync ev → ¬ SyncEvent ev') := by
  let I : World → Prop := fun w => s.log.length ≤ w.log.length ∧
    (w.log.drop s.log.length).Pairwise (fun ev ev' => FailedSync ev → ¬ SyncEvent ev')
  have hadd : ∀ (w : World) (ev : Event), I w →
      (SyncEvent ev → ¬ Failed s.log.length w) →
      ((w.log ++ [ev]).drop s.log.length).Pairwise
        (fun ev ev' => FailedSync ev → ¬ SyncEvent ev') := by
    intro w ev hw hnone
    rw [List.drop_append_of_le_length hw.1]
    refine List.pairwise_append.mpr ⟨hw.2, List.pairwise_singleton _ _, ?_⟩
    intro old hold new hnew hfail
    rw [List.mem_singleton.mp hnew]
    exact fun hev => hnone hev ⟨old, hold, hfail⟩
  suffices hI : I t from hI.2
  refine (Run.invariant_of_moves hrun (I := I) ⟨le_rfl, by simp⟩ ?_ ?_).2
  · intro i x hx hI
    refine ⟨le_trans hI.1 (log_step i x).length_le, ?_⟩
    cases i
    case request q => exact hadd x _ hI (hgoal _ x hx)
    case pageProcessed obj token complete => exact hadd x _ hI (fun hev => hev.elim)
    case selectAsk src =>
      simp only [step]
      split <;> exact hI.2
    all_goals exact hI.2
  · intro u x x' _ hu hI
    show s.log.length ≤ x'.log.length ∧ _
    rw [(uiStep_frame u x x' hu).log]
    exact hI

theorem sound_start {calm : Bool} {s : World} (hgo : calm = true → ¬ Stopped s) :
    Sound s.log.length calm false s := by
  refine ⟨?_, Bool.noConfusion, fun hc hs => absurd hs (hgo hc)⟩
  rintro ⟨ev, hev, -⟩
  simp at hev

theorem sync_stopped (fuel : Nat) (e : Engine) (this : SyncSource)
    (hcode : this.errCode = .errNone) {s t : World} {that : SyncSource}
    {ms : List (Move Stmt World UIAction)} (hrun : Run step uiStep (sync fuel e this) s ms
      (.ret that) t)
    (herr : that.errCode ≠ .errNone) : Stopped t := by
  have hsync : (failing s.log.length false).Triple (Sound s.log.length false (hasError this))
      (sync fuel e this) (fun that => Sound s.log.length false (hasError that)) := by
    rw [← syncRecorded_fst]
    apply Discipline.Triple.bind (syncRecorded_triple id fuel e this)
    intro r
    exact Discipline.Triple.ret (sound_stable (syncEnd_calm id r.2))
      (fun _ h => h.mono Bool.noConfusion)
  have hstart : Sound s.log.length false (hasError this) s := by
    rw [show hasError this = false by simp [hasError, hcode]]
    exact sound_start Bool.noConfusion
  have hend := (Discipline.wp_run hrun (hsync s hstart) (fun m _ => stopsOnlyIf_false m)).2 that rfl
  exact hend.code (by simpa [hasError] using herr)

/-- A source whose sync() leaves an error code has stopped the engine. In every round the
sources before the last one that was synced have no error code, and no sync request
follows a failed one. -/
theorem round_stops_at_first_failure (fuel : Nat) (e : Engine)
    (hcodes : ∀ src ∈ e.sources, src.errCode = .errNone) {s t : World} {q : Sync RoundRecord}
    {ms : List (Move Stmt World UIAction)}
    (hrun : Run step uiStep (syncAllSourcesRecorded fuel e) s ms q t) :
    (syncAllSourcesRecorded fuel e).bind (fun _ => .ret ()) = syncAllSources fuel e ∧
    (∀ src s' ms' that t', src.errCode = .errNone →
      Run step uiStep (sync fuel e src) s' ms' (.ret that) t' → that.errCode ≠ .errNone →
        Stopped t') ∧
    (∀ r, q = .ret r → (∀ rec ∈ r.records.dropLast, rec.src.errCode = .errNone) ∧
      ∀ rec ∈ r.records, rec.src.errCode ≠ .errNone → Stopped t) ∧
    (t.log.drop s.log.length).Pairwise (fun ev ev' => FailedSync ev → ¬ SyncEvent ev') := by
  have hstart : Sound s.log.length false false s := sound_start Bool.noConfusion
  have hwp := syncAllSourcesRecorded_triple fuel e hcodes s hstart
  obtain ⟨hgoal, hend⟩ := Discipline.wp_run hrun hwp (fun m _ => stopsOnlyIf_false m)
  refine ⟨syncAllSourcesRecorded_eq fuel e, ?_, ?_, log_pairwise hrun hgoal⟩
  · intro src s' ms' that t' hcode hsync herr
    exact sync_stopped fuel e src hcode hsync herr
  · intro r hr
    refine ⟨fun rec hrec => ?_, fun rec hrec herr => ?_⟩
    · simpa [hasError] using (hend r hr).errors rec hrec
    · exact (hend r hr).stops rec hrec (by simpa [hasError] using herr)

/-- A small engine whose server cannot be reached. -/
def unreachable : World :=
  World.start .empty .empty .empty (fun _ => ⟨false, false, none⟩)

/-- Its round ends with the error of its source, and the engine has stopped. -/
theorem round_stops_unreachable :
    (∀ src ∈ sampleEngine.sources, src.errCode = .errNone) ∧ ∃ ms r t,
      Run step uiStep (syncAllSourcesRecorded 2 sampleEngine) unreachable ms (.ret r) t ∧
      (∃ rec ∈ r.records, rec.src.errCode ≠ .errNone) ∧ Stopped t := by
  have hcodes : ∀ src ∈ sampleEngine.sources, src.errCode = .errNone := by decide
  obtain ⟨ms, r, t, hrun, hcheck⟩ := exists_complete_run step uiStep (List.replicate 11 none)
    (syncAllSourcesRecorded 2 sampleEngine) unreachable
    (fun _ r _ => r.records.any (fun rec => rec.src.errCode ≠ .errNone)) (by decide +kernel)
  obtain ⟨rec, hrec, herr⟩ := List.any_eq_true.mp hcheck
  have hne : rec.src.errCode ≠ .errNone := by simpa using herr
  obtain ⟨-, -, hround, -⟩ := round_stops_at_first_failure 2 sampleEngine hcodes hrun
  exact ⟨hcodes, ms, r, t, hrun, ⟨rec, hrec, hne⟩, (hround r rfl).2 rec hrec hne⟩

end Rhodes.FailStop
