import Rhodes.PushRound
import Rhodes.Sessions

/-!
Questions put by ask. getAndremoveAsk reads one question, takes all questions of
the source off the queue and keeps the text it read in memory for the next
request. `Answered` says that every question taken off the queue went out after
that in an /ask request that returned OK; between the DELETE and the answer one
question is outstanding. It gets lost when another one came in after the SELECT,
when the engine is stopped before the request, and when the request fails:
`asksSafely` excludes this. What is not taken off the queue is queued still,
unless the user takes it back.
-/
namespace Rhodes.Questions

open Database Json Statements Queue Interleaving Source ClientChanges ServerChanges SyncEngine Rhom
  Threads PullRules PushRound Sessions

/-- The question went out in an /ask request of the source that returned OK. -/
def AskSent (log : List Event) (src : Int) (question : String) : Prop :=
  question ≠ "" ∧
    ∃ obj q, Event.answered (.pullData obj src q) true ∈ log ∧ q.askParams = question

def askEvent (src : Int) (question : String) : Event → Bool
  | .answered (.pullData _ s q) true => s = src && q.askParams = question
  | _ => false

instance (log : List Event) (src : Int) (question : String) :
    Decidable (AskSent log src question) :=
  decidable_of_iff (question ≠ "" ∧ ∃ ev ∈ log, askEvent src question ev = true) (by
    refine and_congr_right (fun _ => ⟨?_, ?_⟩)
    · rintro ⟨ev, hev, h⟩
      unfold askEvent at h
      split at h
      · simp only [Bool.and_eq_true, decide_eq_true_eq] at h
        obtain ⟨rfl, hq⟩ := h
        exact ⟨_, _, hev, hq⟩
      · cases h
    · rintro ⟨obj, q, hq, rfl⟩
      exact ⟨_, hq, by simp [askEvent]⟩)

/-- Every question taken off the queue has been asked since. -/
def Answered (w : World) : Prop :=
  ∀ p ∈ w.asked, AskSent (w.log.drop p.events) p.src p.question

instance : DecidablePred Answered := fun w => inferInstanceAs (Decidable (∀ p ∈ w.asked, _))

/-- When the questions of a source are taken off the queue they are the one that was
read, it is not empty, and the engine goes on; until it has been asked the engine is
not stopped and the request does not fail. No question is marked for the end of data. -/
def asksSafely : Move Stmt World UIAction → Bool
  | .own (.deleteAsk src askParams) x => x.changed.rows.all (fun r =>
      decide (r.sourceId = src ∧ r.updateType = .ask → r.value.getD "" = askParams ∧
        askParams ≠ "" ∧ x.syncState.isContinueSync = true))
  | .own (.request (.pullData ..)) x => (x.net x.requests).isOK || decide (Answered x)
  | .own (.endOfData src) x => x.changed.rows.all (fun r =>
      decide (¬ (r.sourceId = src ∧ r.updateType = .ask ∧ r.sent ≥ 3)))
  | .env u x => !u.stops || decide (Answered x)
  | _ => true

def AsksSafely (m : Move Stmt World UIAction) : Prop := asksSafely m = true

/-- Questions leave the queue by the DELETE of getAndremoveAsk only. -/
def TakesOnly (i : Stmt) (x : World) : Prop :=
  ∀ r, Removes i x r → r.updateType = .ask → ∃ askParams, i = .deleteAsk r.sourceId askParams

theorem AskSent.mono {log log' : List Event} {n : Nat} {src : Int} {question : String}
    (h : AskSent (log.drop n) src question) : AskSent ((log ++ log').drop n) src question := by
  obtain ⟨hne, obj, q, hq, heq⟩ := h
  refine ⟨hne, obj, q, ?_, heq⟩
  rw [List.drop_append]
  exact List.mem_append_left _ hq

/-- Any statement but the one that takes the questions off the queue. -/
def KeepsQuestions : Stmt → Prop
  | .deleteAsk _ _ => False
  | .deleteNonBlob _ t => t ≠ .ask
  | .deleteNonBlobJava _ t => t ≠ .ask
  | .deleteSent _ t => t ≠ .ask
  | _ => True

theorem KeepsQuestions.takesOnly {i : Stmt} {w : World} (h : KeepsQuestions i)
    (hsafe : AsksSafely (.own i w)) : TakesOnly i w := by
  intro r hremoves hask
  have hdeletes := hremoves.deletes
  cases i
  case deleteAsk => exact h.elim
  case deleteNonBlob src t => exact absurd (hdeletes.2.1.symm.trans hask) h
  case deleteNonBlobJava src t => exact absurd (hdeletes.2.1.symm.trans hask) h
  case deleteSent src t => exact absurd (hdeletes.2.1.symm.trans hask) h
  case endOfData src =>
    have hrow := of_decide_eq_true (List.all_eq_true.mp hsafe r hremoves.1)
    exact absurd ⟨hdeletes.1, hask, hdeletes.2⟩ hrow
  all_goals exact hdeletes.elim

theorem takesOnly_deleteAsk (src : Int) (askParams : String) (w : World) :
    TakesOnly (.deleteAsk src askParams) w := by
  intro r hremoves _
  exact ⟨askParams, by rw [hremoves.deletes.1]⟩

theorem asked_step (i : Stmt) (w : World) :
    (step i w).asked = w.asked ∨ ∃ src askParams, i = .deleteAsk src askParams := by
  cases i
  case deleteAsk src askParams => exact Or.inr ⟨src, askParams, rfl⟩
  case selectAsk src =>
    simp only [step]
    split <;> exact Or.inl rfl
  all_goals exact Or.inl rfl

theorem KeepsQuestions.asked {i : Stmt} (h : KeepsQuestions i) (w : World) :
    (step i w).asked = w.asked := by
  rcases asked_step i w with hsame | ⟨src, askParams, rfl⟩
  · exact hsame
  · exact h.elim

theorem asked_mono (i : Stmt) (w : World) : w.asked ⊆ (step i w).asked := by
  rcases asked_step i w with hsame | ⟨src, askParams, rfl⟩
  · rw [hsame]
    exact List.Subset.refl _
  · exact List.subset_append_left _ _

theorem AskSent.step {i : Stmt} {w : World} {n : Nat} {src : Int} {question : String}
    (h : AskSent (w.log.drop n) src question) :
    AskSent ((Statements.step i w).log.drop n) src question := by
  obtain ⟨evs, hlog⟩ := log_step i w
  rw [← hlog]
  exact h.mono

theorem Answered.kept {i : Stmt} {w : World} (h : Answered w) (hi : KeepsQuestions i) :
    Answered (step i w) := by
  intro p hp
  rw [hi.asked] at hp
  exact (h p hp).step

theorem answered_stable : (against AsksSafely TakesOnly).Stable Answered := by
  apply stable_of_frame
  intro w w' h hframe
  unfold Answered
  rw [hframe.asked, hframe.log]
  exact h

theorem answered_only {α : Type} {p : Sync α} (hp : p.Only KeepsQuestions) :
    (against AsksSafely TakesOnly).Triple Answered p (fun _ => Answered) :=
  Discipline.Triple.only answered_stable (fun _ _ hi h hok => ⟨hi.takesOnly hok, h.kept hi⟩) hp

theorem keepsQuestions_of_pull {i : Stmt} (h : Pull i) : KeepsQuestions i := by
  rcases h with h | ⟨src, rfl⟩
  · cases i <;> first | exact h.elim | trivial
  · trivial

theorem keepsQuestions_of_calm {i : Stmt} (h : Calm i) : KeepsQuestions i := by
  cases i <;> first | exact h.elim | trivial

theorem pull_keeps {α : Type} {p : Sync α} (hp : p.Only Pull) : p.Only KeepsQuestions :=
  hp.mono (fun _ h => keepsQuestions_of_pull h)

theorem quiet_keeps {α : Type} {p : Sync α} (hp : p.Only Quiet) : p.Only KeepsQuestions :=
  hp.mono (fun _ h => keepsQuestions_of_pull (Or.inl h))

theorem push_keeps (e : Engine) (this : SyncSource) :
    (syncClientChanges e this).Only KeepsQuestions := by
  apply (syncClientChanges_only e this).mono
  intro i h
  cases i
  case deleteNonBlob src t =>
    rintro rfl
    simp [Pushing] at h
  case deleteSent src t =>
    rintro rfl
    simp [Pushing] at h
  all_goals first | exact h.elim | trivial

/-- The question is the one in memory. -/
structure InMemory (this : SyncSource) (w : World) (p : Taken) : Prop where
  src : p.src = this.id
  question : p.question = this.askParams
  events : p.events ≤ w.log.length

/-- After getAndremoveAsk at most the question in memory has not been asked yet. -/
def Outstanding (this : SyncSource) (w : World) : Prop :=
  Answered w ∨ (this.askParams ≠ "" ∧ w.syncState.isContinueSync = true ∧
    ∀ p ∈ w.asked, AskSent (w.log.drop p.events) p.src p.question ∨ InMemory this w p)

theorem outstanding_stable (this : SyncSource) :
    (against AsksSafely TakesOnly).Stable (Outstanding this) := by
  rintro w w' h ⟨u, hu, hok⟩
  have hframe := uiStep_frame u w w' hu
  by_cases hall : Answered w
  · exact Or.inl (answered_stable w w' hall ⟨u, hu, hok⟩)
  · obtain ⟨hne, hgo, hasked⟩ := h.resolve_left hall
    have hstops : u.stops = false := by
      have hsafe : AsksSafely (.env u w) := hok
      simpa [AsksSafely, asksSafely, hall] using hsafe
    refine Or.inr ⟨hne, ?_, ?_⟩
    · rw [uiStep_syncState u w w' hstops hu]
      exact hgo
    · intro p hp
      rw [hframe.asked] at hp
      rw [hframe.log]
      refine (hasked p hp).imp_right (fun hmem => ⟨hmem.src, hmem.question, ?_⟩)
      rw [hframe.log]
      exact hmem.events

theorem deleteAsk_outstanding {this : SyncSource} {askParams : String} {w : World}
    (h : Answered w) (hok : AsksSafely (.own (.deleteAsk this.id askParams) w)) :
    Outstanding { this with askParams } (step (.deleteAsk this.id askParams) w) := by
  have hrow : ∀ r ∈ w.changed.rows, r.sourceId = this.id ∧ r.updateType = .ask →
      r.value.getD "" = askParams ∧ askParams ≠ "" ∧ w.syncState.isContinueSync = true :=
    fun r hr => of_decide_eq_true (List.all_eq_true.mp hok r hr)
  by_cases hnone : ∃ r ∈ w.changed.rows, r.sourceId = this.id ∧ r.updateType = .ask
  · obtain ⟨r, hr, hask⟩ := hnone
    obtain ⟨-, hne, hgo⟩ := hrow r hr hask
    refine Or.inr ⟨hne, hgo, ?_⟩
    intro p hp
    rcases List.mem_append.mp hp with hold | hnew
    · exact Or.inl (h p hold)
    · obtain ⟨s, hs, rfl⟩ := List.mem_map.mp hnew
      obtain ⟨hsmem, hsask⟩ := List.mem_filter.mp hs
      exact Or.inr ⟨rfl, (hrow s hsmem (by simpa using hsask)).1, le_rfl⟩
  · apply Or.inl
    intro p hp
    rcases List.mem_append.mp hp with hold | hnew
    · exact h p hold
    · obtain ⟨s, hs, -⟩ := List.mem_map.mp hnew
      obtain ⟨hsmem, hsask⟩ := List.mem_filter.mp hs
      exact absurd ⟨s, hsmem, by simpa using hsask⟩ hnone

theorem getAndremoveAsk_triple (this : SyncSource) :
    (against AsksSafely TakesOnly).Triple Answered (getAndremoveAsk this)
      (fun that w => Outstanding that w) := by
  refine Discipline.Triple.bind (answered_only (Prog.Only.perform trivial _))
    (fun askParams => ?_)
  refine execute_bind answered_stable
    (fun w h hok => ⟨takesOnly_deleteAsk _ _ w, deleteAsk_outstanding h hok⟩) ?_
  exact Discipline.Triple.ret (outstanding_stable _) (fun _ h => h)

/-- The answer to the pull settles the question in memory. -/
theorem pull_answers {e : Engine} {this : SyncSource} {w : World} (h : Outstanding this w)
    (hok : AsksSafely (.own (.request (.pullData this.obj this.id (pullRequest e this))) w)) :
    Answered (step (.request (.pullData this.obj this.id (pullRequest e this))) w) := by
  have hkeep : KeepsQuestions (.request (.pullData this.obj this.id (pullRequest e this))) :=
    trivial
  by_cases hall : Answered w
  · exact hall.kept hkeep
  · obtain ⟨hne, -, hasked⟩ := h.resolve_left hall
    have hyes : (w.net w.requests).isOK = true := by
      simpa [AsksSafely, asksSafely, hall] using hok
    intro p hp
    rw [hkeep.asked] at hp
    rcases hasked p hp with hsent | hmem
    · exact hsent.step
    · rw [hmem.src, hmem.question]
      refine ⟨hne, this.obj, pullRequest e this, ?_, rfl⟩
      simp [step, hyes, List.drop_append_of_le_length hmem.events]

theorem syncServerChanges_answers (e : Engine) (fuel : Nat) (this : SyncSource) :
    (against AsksSafely TakesOnly).Triple (Outstanding this) (syncServerChanges e (fuel + 1) this)
      (fun _ => Answered) := by
  have htest : ∀ w, Outstanding this w → AsksSafely (.own .read w) → TakesOnly .read w ∧
      (w.syncState.isContinueSync = true → Outstanding this w) ∧
      (w.syncState.isContinueSync = false → Answered w) := by
    intro w h hok
    refine ⟨KeepsQuestions.takesOnly trivial hok, fun _ => h, fun hstop => ?_⟩
    rcases h with hall | ⟨-, hgo, -⟩
    · exact hall
    · rw [hstop] at hgo
      cases hgo
  refine continue_bind (outstanding_stable this) htest ?_ ?_
  · have hsame : ∀ w, Outstanding this w → Outstanding (this.setCurPageCount 0) w := by
      intro w h
      refine h.imp_right (fun hmem => ⟨hmem.1, hmem.2.1, fun p hp => ?_⟩)
      exact (hmem.2.2 p hp).imp_right (fun hp => ⟨hp.src, hp.question, hp.events⟩)
    refine Discipline.Triple.perform_bind (fun _ => Answered) (outstanding_stable this) ?_ ?_
    · exact fun w h hok => ⟨KeepsQuestions.takesOnly trivial hok, pull_answers (hsame w h) hok⟩
    · intro resp
      refine answered_only (pull_keeps (Prog.Only.ite ?_ ?_))
      · exact Prog.Only.bind (processServerData_only pull_fetches pull_endOfData _ _ _)
          (fun _ => Prog.Only.ite trivial (syncServerChanges_only pull_fetches
            pull_endOfData _ _ _))
      · exact Prog.Only.bind (stopSync_only (Or.inl trivial) (Or.inl trivial))
          (fun _ => syncServerChanges_only pull_fetches pull_endOfData _ _ _)
  · exact answered_only trivial

theorem outstanding_of_answered {this : SyncSource} {w : World} (h : Answered w) :
    Outstanding this w := Or.inl h

/-- A question stays in memory only where sync goes on to pull. -/
theorem syncClient_outstanding (fuel : Nat) (e : Engine) (this : SyncSource) :
    (against AsksSafely TakesOnly).Triple Answered (syncClient fuel e this)
      (fun r w => Outstanding r.1 w ∧ (r.2 = true → Answered w)) := by
  have hret : ∀ r : SyncSource × Bool, (against AsksSafely TakesOnly).Triple Answered (.ret r)
      (fun r w => Outstanding r.1 w ∧ (r.2 = true → Answered w)) :=
    fun r => Discipline.Triple.ret answered_stable
      (fun _ h => ⟨outstanding_of_answered h, fun _ => h⟩)
  have hread : ∀ {α : Type} (g : World → α), (query g).Only KeepsQuestions :=
    fun g => query_only trivial g
  refine Discipline.Triple.bind (answered_only (hread _)) (fun pending => ?_)
  refine Discipline.Triple.bind (Q := fun _ => Answered) (answered_only (Prog.Only.ite ?_ trivial))
    (fun r => Discipline.Triple.ite (fun _ => ?_) (fun _ => ?_))
  · exact Prog.Only.bind (pull_keeps (syncServerChanges_only pull_fetches pull_endOfData _ _ _))
      (fun _ => Prog.Only.bind (hread _) (fun _ => trivial))
  · exact Discipline.Triple.bind (answered_only (execute_only trivial)) (fun _ => hret _)
  · refine Discipline.Triple.bind (answered_only (hread _)) (fun b => ?_)
    refine Discipline.Triple.ite (fun _ => ?_) (fun _ => hret _)
    refine Discipline.Triple.bind (answered_only (push_keeps _ _))
      (fun that => Discipline.Triple.bind (getAndremoveAsk_triple that) (fun that => ?_))
    exact Discipline.Triple.ret (outstanding_stable that) (fun _ h => ⟨h, fun hf => by cases hf⟩)

theorem sync_answers (fuel : Nat) (e : Engine) (this : SyncSource) :
    (against AsksSafely TakesOnly).Triple Answered (sync (fuel + 1) e this)
      (fun _ => Answered) := by
  refine Discipline.Triple.bind (answered_only (execute_only trivial)) (fun _ => ?_)
  refine Discipline.Triple.bind (answered_only (Prog.Only.ite ?_ trivial)) (fun that => ?_)
  · exact quiet_keeps (processToken_only quiet_fetches _ _)
  refine Discipline.Triple.bind (Q := fun r w => Outstanding r.1 w ∧ (r.2 = true → Answered w))
    ?_ (fun r => Discipline.Triple.ite (fun htrue => ?_) (fun _ => ?_))
  · refine Discipline.Triple.ite (fun _ => syncClient_outstanding _ _ _) (fun _ => ?_)
    exact Discipline.Triple.ret answered_stable
      (fun _ h => ⟨outstanding_of_answered h, fun hf => by cases hf⟩)
  · refine Discipline.Triple.conseq (P := Answered) (Q := fun _ => Answered)
      (answered_only trivial) ?_ (fun _ _ h => h)
    exact fun _ h => h.2 htrue
  · exact (syncServerChanges_answers e fuel r.1).conseq (fun _ h => h.1) (fun _ _ h => h)

theorem answered_kept (fuel : Nat) : EngineKept (fuel + 1) AsksSafely TakesOnly Answered where
  stable := answered_stable
  calm := fun _ _ hi h hok =>
    ⟨(keepsQuestions_of_calm hi).takesOnly hok, h.kept (keepsQuestions_of_calm hi)⟩
  sync := sync_answers fuel

/-- The row is queued, maybe with other ids. -/
def StillQueued (r : ChangedValue) (w : World) : Prop := ∃ s ∈ w.changed.rows, SameEdit r s

theorem SameEdit.trans {r s t : ChangedValue} (h : SameEdit r s) (h' : SameEdit s t) :
    SameEdit r t :=
  ⟨h'.stamp.trans h.stamp, h'.sourceId.trans h.sourceId, h'.attrib.trans h.attrib,
    h'.value.trans h.value, h'.attribType.trans h.attribType, h'.updateType.trans h.updateType⟩

/-- A statement that ends that the row is queued removes it. -/
theorem StillQueued.removes {r : ChangedValue} {i : Stmt} {w : World} (h : StillQueued r w)
    (hlost : ¬ StillQueued r (step i w)) : ∃ s, SameEdit r s ∧ Removes i w s := by
  obtain ⟨s, hs, hsame⟩ := h
  refine ⟨s, hsame, hs, fun q hq hstamp => hlost ?_⟩
  obtain ⟨s', hs', -, rfl⟩ := (mem_step i w q).mp hq
  have hedit := rowUpdate_sameEdit i s'
  have heq := w.changed.eq_of_stamp hs' hs (hedit.stamp.symm.trans hstamp)
  rw [heq] at hq hedit
  exact ⟨_, hq, SameEdit.trans hsame hedit⟩

/-- So does an action of the user. -/
theorem StillQueued.taken_back {r : ChangedValue} {u : UIAction} {w w' : World}
    (hu : uiStep u w = some w') (h : StillQueued r w) (hlost : ¬ StillQueued r w') :
    ∀ s ∈ w'.changed.rows, s.stamp ≠ r.stamp := by
  obtain ⟨q, hq, hsame⟩ := h
  intro s hs hstamp
  rcases (uiStep_frame u w w' hu).changed.rows s hs with hold | ⟨hnew, -⟩
  · have heq := w.changed.eq_of_stamp hold hq (hstamp.trans hsame.stamp.symm)
    rw [heq] at hs
    exact hlost ⟨q, hs, hsame⟩
  · have hfresh := w.changed.fresh q hq
    rw [hsame.stamp] at hfresh
    omega

/-- What becomes of a question in a run: it is queued still at the end, the engine took it off
the queue and asked it after that, or an action of the user took it back. -/
inductive Settled (ms : List (Move Stmt World UIAction)) (w' : World) (r : ChangedValue) : Prop
  | queued (h : StillQueued r w')
  | asked (i : Stmt) (x : World) (hmove : Move.own i x ∈ ms) (s : ChangedValue)
      (hsame : SameEdit r s) (hremoves : Removes i x s)
      (hsent : AskSent (w'.log.drop x.log.length) r.sourceId (r.value.getD ""))
  | takenBack (u : UIAction) (x x' : World) (hmove : Move.env u x ∈ ms)
      (hstep : uiStep u x = some x') (hwas : StillQueued r x)
      (hgone : ∀ s ∈ x'.changed.rows, s.stamp ≠ r.stamp)

/-- In a run to its end in which every question taken off the queue is safe until it
has been asked, the engine removes a question only if it was sent after that in an /ask
request that returned OK, and all others are queued still or taken back. -/
theorem removed_questions_were_asked (fuel : Nat) (config : Config) (pageSize : Int)
    (commands : List Command) (w w' : World) (ms : List (Move Stmt World UIAction))
    (hrun : Run step uiStep (processCommands (fuel + 1) config pageSize commands)
      { w with log := [], asked := [] } ms (.ret ()) w')
    (hsafe : ∀ m ∈ ms, AsksSafely m) :
    (∀ i x r, Move.own i x ∈ ms → Removes i x r → r.updateType = .ask →
      AskSent (w'.log.drop x.log.length) r.sourceId (r.value.getD "")) ∧
    ∀ m ∈ ms, ∀ r ∈ m.state.changed.rows, r.updateType = .ask → Settled ms w' r := by
  have htriple := (answered_kept fuel).processCommands config pageSize commands
  have hstart : Answered { w with log := [], asked := [] } := fun p hp => absurd hp (by simp)
  obtain ⟨hgoal, hend⟩ := Discipline.wp_run hrun (htriple _ hstart) hsafe
  have hasked : ∀ i x r, Move.own i x ∈ ms → Removes i x r → r.updateType = .ask →
      AskSent (w'.log.drop x.log.length) r.sourceId (r.value.getD "") := by
    intro i x r hmem hremoves hask
    obtain ⟨askParams, rfl⟩ := hgoal i x hmem r hremoves hask
    have hlater := Run.after (R := fun x y : World => x.asked ⊆ y.asked)
      (fun _ => List.Subset.refl _) (fun _ _ _ h h' => List.Subset.trans h h') asked_mono
      (fun u x x' hu => (uiStep_frame u x x' hu).asked ▸ List.Subset.refl _) hrun hmem
    refine hend () rfl ⟨r.sourceId, r.value.getD "", x.log.length⟩ (hlater ?_)
    refine List.mem_append_right _ (List.mem_map.mpr ⟨r, ?_, rfl⟩)
    exact List.mem_filter.mpr ⟨hremoves.1, by simp [hask]⟩
  refine ⟨hasked, ?_⟩
  intro m hm r hr hask
  obtain ⟨p, ms', hrest, hsub⟩ := hrun.from_move hm
  have hqueued : StillQueued r m.state := ⟨r, hr, rfl, rfl, rfl, rfl, rfl, rfl⟩
  rcases hrest.kept_or_lost hqueued with hstill | ⟨i, x, hmem, hx, hlost⟩ |
    ⟨u, x, x', hmem, hu, hx, hlost⟩
  · exact Settled.queued hstill
  · obtain ⟨s, hsame, hremoves⟩ := hx.removes hlost
    have hsent := hasked i x s (hsub _ hmem) hremoves (hsame.updateType.trans hask)
    rw [hsame.sourceId, hsame.value] at hsent
    exact Settled.asked i x (hsub _ hmem) s hsame hremoves hsent
  · exact Settled.takenBack u x x' (hsub _ hmem) hu hx (hx.taken_back hu hlost)

/-- A question is queued. -/
def questionWorld : World :=
  smallWorld
    (ChangedTable.empty.insert (queued 1 (some "7") (some "question") (some "where") none .ask 0))
    .empty acceptAll

/-- The move takes a question with this text off the queue. -/
def takesQuestion (question : String) : Move Stmt World UIAction → Bool
  | .own i x => x.changed.rows.any (fun r =>
      r.updateType = .ask ∧ r.sourceId = 1 ∧ r.value = some question ∧ Removes i x r)
  | .env _ _ => false

theorem exists_removes_of_takesQuestion {question : String} {m : Move Stmt World UIAction}
    (h : takesQuestion question m = true) : ∃ i x r, m = .own i x ∧ Removes i x r ∧
      r.updateType = .ask ∧ r.sourceId = 1 ∧ r.value.getD "" = question := by
  cases m with
  | env u x => cases h
  | own i x =>
    obtain ⟨r, -, hr⟩ := List.any_eq_true.mp h
    obtain ⟨hask, hsrc, hvalue, hremoves⟩ := of_decide_eq_true hr
    exact ⟨i, x, r, rfl, hremoves, hask, hsrc, by rw [hvalue]; rfl⟩

/-- The question goes out in the pull after it was taken off the queue. -/
theorem removed_questions_were_asked_accepted : ∃ ms w',
    Run step uiStep (processCommands 3 smallConfig 2000 [.syncOne 1 ""]) questionWorld ms (.ret ())
      w' ∧
    (∀ m ∈ ms, AsksSafely m) ∧ ms.any (takesQuestion "where") = true ∧
    (∀ i x r, Move.own i x ∈ ms → Removes i x r → r.updateType = .ask →
      AskSent (w'.log.drop x.log.length) r.sourceId (r.value.getD "")) ∧
    ∀ m ∈ ms, ∀ r ∈ m.state.changed.rows, r.updateType = .ask → Settled ms w' r := by
  obtain ⟨ms, _, w', hrun, hcheck⟩ := exists_complete_run step uiStep (List.replicate 27 none)
    (processCommands 3 smallConfig 2000 [.syncOne 1 ""]) questionWorld
    (fun ms _ _ => ms.all asksSafely && ms.any (takesQuestion "where")) (by decide +kernel)
  rw [Bool.and_eq_true, List.all_eq_true] at hcheck
  exact ⟨ms, w', hrun, hcheck.1, hcheck.2,
    removed_questions_were_asked 2 _ _ _ questionWorld _ _ hrun hcheck.1⟩

/-- A second question comes in between the SELECT and the DELETE and is gone, though
every request returns OK. -/
theorem question_between_select_and_delete_is_lost :
    ¬ ∀ (fuel : Nat) (config : Config) (pageSize : Int) (commands : List Command) (w w' : World)
      (ms : List (Move Stmt World UIAction)),
      Run step uiStep (processCommands (fuel + 1) config pageSize commands)
        { w with log := [], asked := [] } ms (.ret ()) w' →
      ∀ i x r, Move.own i x ∈ ms → Removes i x r → r.updateType = .ask →
        AskSent w'.log r.sourceId (r.value.getD "") := by
  intro h
  obtain ⟨ms, _, w', hrun, hcheck⟩ := exists_complete_run step uiStep
    (List.replicate 17 none ++ [some (.ask 1 "8" "when")] ++ List.replicate 10 none)
    (processCommands 3 smallConfig 2000 [.syncOne 1 ""]) questionWorld
    (fun ms _ w' => ms.any (takesQuestion "when") && !decide (AskSent w'.log 1 "when"))
    (by decide +kernel)
  rw [Bool.and_eq_true] at hcheck
  obtain ⟨m, hm, htakes⟩ := List.any_eq_true.mp hcheck.1
  obtain ⟨i, x, r, rfl, hremoves, hask, hsrc, hvalue⟩ := exists_removes_of_takesQuestion htakes
  have hsent := h 2 _ _ _ questionWorld w' ms hrun i x r hm hremoves hask
  rw [hsrc, hvalue] at hsent
  simp [hsent] at hcheck

end Rhodes.Questions
