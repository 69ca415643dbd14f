import Rhodes.PushRound
import Rhodes.Sessions

/-!
Edits of objects the server does not know yet. sync makes sure that no create is
pending when a push starts, but the bodies of creates, updates and deletes are
built one after the other, and the creates pushed a moment ago are pending when
the updates follow. `separated` says which states and which actions of the user
keep the creates of a round apart from its updates and deletes; then no update or
delete of an unconfirmed object goes out.
-/
namespace Rhodes.ConfirmedFirst

open Database Statements Queue Interleaving Source ClientChanges SyncEngine Rhom Threads PushRound
  PullRules Sessions

/-- An update or a delete of the source. -/
def IsEdit (src : Int) (r : ChangedValue) : Prop :=
  r.sourceId = src ∧ (r.updateType = .update ∨ r.updateType = .delete)

instance (src : Int) (r : ChangedValue) : Decidable (IsEdit src r) :=
  inferInstanceAs (Decidable (_ ∧ _))

/-- A create of the source on its way to the server or waiting for its entry. -/
def IsUnconfirmed (src : Int) (r : ChangedValue) : Prop :=
  r.sourceId = src ∧ r.updateType = .create ∧ (r.sent = 1 ∨ r.sent = 2)

instance (src : Int) (r : ChangedValue) : Decidable (IsUnconfirmed src r) :=
  inferInstanceAs (Decidable (_ ∧ _))

/-- No update or delete is put into a body while a create of its object is unconfirmed. -/
def EditsConfirmed : Stmt → World → Prop
  | .makePushBody src t, w => t = .update ∨ t = .delete → ∀ r ∈ selectPush w.changed src t,
      ∀ s ∈ w.changed.rows, IsUnconfirmed src s → s.object ≠ r.object
  | _, _ => True

/-- When the creates of a source are collected, no object has both a create and an
edit to be pushed; and from then to the deletes the user edits no object of the
source whose create is unconfirmed. -/
def separated : Move Stmt World UIAction → Bool
  | .own (.makePushBody src .create) x => x.changed.rows.all (fun s => x.changed.rows.all (fun r =>
      decide (s.sourceId = src ∧ s.updateType = .create ∧ s.sent ≤ 1 ∧ IsEdit src r ∧ r.sent ≤ 1 →
        s.object ≠ r.object)))
  | .env u x => x.round.all (fun src => (uiStep u x).all (fun x' =>
      x.changed.rows.all (fun s => x'.changed.rows.all (fun r =>
        decide (IsUnconfirmed src s ∧ IsEdit src r ∧ r ∉ x.changed.rows → s.object ≠ r.object)))))
  | _ => true

def Separated (m : Move Stmt World UIAction) : Prop := separated m = true

theorem Separated.collect {src : Int} {w : World}
    (h : Separated (.own (.makePushBody src .create) w)) {r s : ChangedValue}
    (hs : s ∈ w.changed.rows) (hr : r ∈ w.changed.rows) (hsrc : s.sourceId = src)
    (ht : s.updateType = .create) (hsent : s.sent ≤ 1) (hedit : IsEdit src r) (hle : r.sent ≤ 1) :
    s.object ≠ r.object :=
  of_decide_eq_true (List.all_eq_true.mp (List.all_eq_true.mp h s hs) r hr)
    ⟨hsrc, ht, hsent, hedit, hle⟩

theorem Separated.act {src : Int} {u : UIAction} {w w' : World} (h : Separated (.env u w))
    (hround : w.round = some src) (hu : uiStep u w = some w') {r s : ChangedValue}
    (hs : s ∈ w.changed.rows) (hr : r ∈ w'.changed.rows) (hun : IsUnconfirmed src s)
    (hedit : IsEdit src r) (hnew : r ∉ w.changed.rows) : s.object ≠ r.object := by
  simp only [Separated, separated, hround, hu, Option.all_some] at h
  exact of_decide_eq_true (List.all_eq_true.mp (List.all_eq_true.mp h s hs) r hr)
    ⟨hun, hedit, hnew⟩

/-- From the creates to the deletes of a round: the creates on their way and the
edits to come are of different objects. -/
structure InRound (src : Int) (w : World) : Prop where
  round : w.round = some src
  apart : ∀ s ∈ w.changed.rows, ∀ r ∈ w.changed.rows, IsUnconfirmed src s → IsEdit src r →
    r.sent ≤ 1 → s.object ≠ r.object

theorem inRound_stable (src : Int) : (against Separated EditsConfirmed).Stable (InRound src) := by
  rintro w w' h ⟨u, hu, hsep⟩
  have hframe := uiStep_frame u w w' hu
  refine ⟨hframe.round.trans h.round, ?_⟩
  intro s hs r hr hun hedit hle
  have hsold : s ∈ w.changed.rows := by
    rcases hframe.changed.rows s hs with hold | ⟨-, hzero⟩
    · exact hold
    · have := hun.2.2
      omega
  by_cases hrold : r ∈ w.changed.rows
  · exact h.apart s hsold r hrold hun hedit hle
  · exact hsep.act h.round hu hsold hr hun hedit hrold

/-- A statement of the round that leaves object ids alone and makes no create
unconfirmed keeps the two kinds of rows apart. -/
theorem InRound.kept {src : Int} {w : World} {i : Stmt} (h : InRound src w)
    (hround : (step i w).round = some src) (hobject : ∀ r, (rowUpdate i r).object = r.object)
    (hcreate : ∀ r, IsUnconfirmed src (rowUpdate i r) → IsUnconfirmed src r) :
    InRound src (step i w) := by
  refine ⟨hround, ?_⟩
  intro s hs r hr hun hedit hle
  obtain ⟨s₀, hs₀, -, rfl⟩ := (mem_step i w s).mp hs
  obtain ⟨r₀, hr₀, -, rfl⟩ := (mem_step i w r).mp hr
  have hsame := rowUpdate_sameEdit i r₀
  have hedit₀ : IsEdit src r₀ := by
    unfold IsEdit at hedit ⊢
    rwa [hsame.sourceId, hsame.updateType] at hedit
  have hle₀ : r₀.sent ≤ 1 := by
    by_contra hgt
    have := rowUpdate_gt_one (i := i) (r := r₀) (by omega)
    omega
  rw [hobject, hobject]
  exact h.apart s₀ hs₀ r₀ hr₀ (hcreate s₀ hun) hedit₀ hle₀

/-- A statement that does not touch the rows at all. -/
theorem InRound.untouched {src : Int} {w : World} {i : Stmt} (h : InRound src w)
    (hround : (step i w).round = w.round) (hrow : ∀ r, rowUpdate i r = r) :
    InRound src (step i w) :=
  h.kept (hround.trans h.round) (fun r => by rw [hrow]) (fun r hr => by rwa [hrow] at hr)

theorem InRound.confirmNonBlob {src : Int} {t : UpdateType} {w : World} (h : InRound src w) :
    InRound src (step (.confirmNonBlob src t) w) := by
  refine h.kept h.round ?_ ?_
  · intro r
    simp only [rowUpdate]
    split <;> rfl
  · intro r hr
    by_cases hrow : r.sourceId = src ∧ r.updateType = t ∧ NonBlob r ∧ r.sent = 1
    · simp only [rowUpdate, if_pos hrow] at hr
      exact ⟨hr.1, hr.2.1, Or.inl hrow.2.2.2⟩
    · simpa only [rowUpdate, if_neg hrow] using hr

theorem InRound.confirmSent {src : Int} {t : UpdateType} {w : World} (h : InRound src w) :
    InRound src (step (.confirmSent src t) w) := by
  refine h.kept h.round ?_ ?_
  · intro r
    simp only [rowUpdate]
    split <;> rfl
  · intro r hr
    by_cases hrow : r.sourceId = src ∧ r.updateType = t ∧ r.sent = 1
    · simp only [rowUpdate, if_pos hrow] at hr
      exact ⟨hr.1, hr.2.1, Or.inl hrow.2.2⟩
    · simpa only [rowUpdate, if_neg hrow] using hr

/-- Marking updates as sent. -/
theorem InRound.makePushBody_update {src : Int} {w : World} (h : InRound src w) :
    InRound src (step (.makePushBody src .update) w) := by
  refine h.kept rfl ?_ ?_
  · intro r
    simp only [rowUpdate]
    split <;> rfl
  · intro r hr
    by_cases hrow : r.sourceId = src ∧ r.updateType = .update ∧ r.sent = 0
    · simp only [rowUpdate, if_pos hrow] at hr
      have hcreate := hr.2.1
      rw [hrow.2.1] at hcreate
      cases hcreate
    · simpa only [rowUpdate, if_neg hrow] using hr

/-- Collecting the creates opens the round. -/
theorem inRound_of_creates {src : Int} {w : World} (hpending : NotPending src w)
    (hsep : Separated (.own (.makePushBody src .create) w)) :
    InRound src (step (.makePushBody src .create) w) := by
  refine ⟨rfl, ?_⟩
  intro s hs r hr hun hedit hle
  obtain ⟨s₀, hs₀, -, rfl⟩ := (mem_step _ w s).mp hs
  obtain ⟨r₀, hr₀, -, rfl⟩ := (mem_step _ w r).mp hr
  have hsameS := rowUpdate_sameEdit (.makePushBody src .create) s₀
  have hsrc : s₀.sourceId = src := hsameS.sourceId.symm.trans hun.1
  have ht : s₀.updateType = .create := hsameS.updateType.symm.trans hun.2.1
  have hobject : (rowUpdate (.makePushBody src .create) s₀).object = s₀.object := by
    simp only [rowUpdate]
    split <;> rfl
  have hedited : rowUpdate (.makePushBody src .create) r₀ = r₀ := by
    have hsameR := rowUpdate_sameEdit (.makePushBody src .create) r₀
    simp only [rowUpdate]
    apply if_neg
    rintro ⟨-, hcreate, -⟩
    have htype := hedit.2
    rw [hsameR.updateType, hcreate] at htype
    simp at htype
  rw [hobject, hedited]
  rw [hedited] at hedit hle
  exact hsep.collect hs₀ hr₀ hsrc ht (hpending s₀ hs₀ hsrc ht) hedit hle

/-- The edits of a body are not of unconfirmed objects. -/
theorem InRound.editsConfirmed {src : Int} {t : UpdateType} {w : World} (h : InRound src w) :
    EditsConfirmed (.makePushBody src t) w := by
  intro ht r hr s hs hun
  obtain ⟨hmem, hsrc, htype, hle⟩ := (mem_selectPush _ _ _ _).mp hr
  exact h.apart s hs r hmem hun ⟨hsrc, by rw [htype]; exact ht⟩ hle

theorem InRound.confirm {src : Int} {t : UpdateType} {w : World} (h : InRound src w) :
    InRound src (step (if t = .create then .confirmNonBlob src t else .deleteNonBlob src t) w) ∧
    InRound src (step (if t = .create then .confirmSent src t else .deleteSent src t) w) := by
  by_cases ht : t = .create
  · simp only [if_pos ht]
    exact ⟨h.confirmNonBlob, h.confirmSent⟩
  · simp only [if_neg ht]
    exact ⟨h.untouched rfl (fun _ => rfl), h.untouched rfl (fun _ => rfl)⟩

/-- The rounds of creates and of updates, from what holds before the body is built. -/
def openOutline (src : Int) (t : UpdateType) (pre : World → Prop)
    (hpre : (against Separated EditsConfirmed).Stable pre)
    (hbuild : ∀ w, pre w → Separated (.own (.makePushBody src t) w) →
      EditsConfirmed (.makePushBody src t) w ∧ InRound src (step (.makePushBody src t) w)) :
    Outline Separated EditsConfirmed src t pre (InRound src) where
  built := fun _ => InRound src
  sent := fun _ => InRound src
  pushing := InRound src
  pushed := InRound src
  failed := InRound src
  pre_stable := hpre
  built_stable := fun _ => inRound_stable src
  sent_stable := fun _ => inRound_stable src
  pushing_stable := inRound_stable src
  pushed_stable := inRound_stable src
  failed_stable := inRound_stable src
  post_stable := inRound_stable src
  build := hbuild
  send := fun _ _ _ h _ _ => ⟨trivial, fun _ => h.untouched rfl (fun _ => rfl),
    fun _ => h.untouched rfl (fun _ => rfl)⟩
  skip := fun _ _ h _ => h
  confirmBlobs := by
    rintro b w i h - rfl _
    refine ⟨?_, h.confirm.1⟩
    split <;> trivial
  confirmBody := by
    rintro b w i h - - rfl _
    refine ⟨?_, h.confirm.2⟩
    split <;> trivial
  nothing := fun _ _ h _ _ => h
  pushFile := fun _ _ _ _ h _ => ⟨trivial, fun _ => h.untouched rfl (fun _ => rfl),
    fun _ => h.untouched rfl (fun _ => rfl)⟩
  deleteBlob := fun _ _ h _ => ⟨trivial, h.untouched rfl (fun _ => rfl)⟩
  done := fun _ h => h
  fail := fun _ h _ => ⟨trivial, h.untouched rfl (fun _ => rfl)⟩

/-- The round of deletes closes it. -/
def closeOutline (src : Int) :
    Outline Separated EditsConfirmed src .delete (InRound src) (fun _ => True) where
  built := fun _ _ => True
  sent := fun _ _ => True
  pushing := fun _ => True
  pushed := fun _ => True
  failed := fun _ => True
  pre_stable := inRound_stable src
  built_stable := fun _ => stable_true
  sent_stable := fun _ => stable_true
  pushing_stable := stable_true
  pushed_stable := stable_true
  failed_stable := stable_true
  post_stable := stable_true
  build := fun _ h _ => ⟨h.editsConfirmed, trivial⟩
  send := fun _ _ _ _ _ _ => ⟨trivial, fun _ => trivial, fun _ => trivial⟩
  skip := fun _ _ _ _ => trivial
  confirmBlobs := by
    rintro b w i - - rfl _
    exact ⟨trivial, trivial⟩
  confirmBody := by
    rintro b w i - - - rfl _
    exact ⟨trivial, trivial⟩
  nothing := fun _ _ _ _ _ => trivial
  pushFile := fun _ _ _ _ _ _ => ⟨trivial, fun _ => trivial, fun _ => trivial⟩
  deleteBlob := fun _ _ _ _ => ⟨trivial, trivial⟩
  done := fun _ _ => trivial
  fail := fun _ _ _ => ⟨trivial, trivial⟩

theorem notPending_stable (src : Int) :
    (against Separated EditsConfirmed).Stable (NotPending src) :=
  stable_of_frame (fun _ _ h hframe => h.frame hframe)

theorem syncClientChanges_triple (e : Engine) (this : SyncSource) :
    (against Separated EditsConfirmed).Triple (NotPending this.id) (syncClientChanges e this)
      (fun _ _ => True) := by
  have hcreate := openOutline this.id .create (NotPending this.id) (notPending_stable _)
    (fun w h hsep => ⟨by simp [EditsConfirmed], inRound_of_creates h hsep⟩)
  have hupdate := openOutline this.id .update (InRound this.id) (inRound_stable _)
    (fun w h _ => ⟨h.editsConfirmed, h.makePushBody_update⟩)
  refine Discipline.Triple.conseq (Q := Outline.Leaves (fun _ => True) this) ?_ (fun _ h => h)
    (fun _ _ _ => trivial)
  refine Outline.loop_cons hcreate (notPending_stable _) stable_true
    (fun w h _ => ⟨trivial, fun _ => h, fun _ => trivial⟩) (fun _ _ => trivial) ?_
  rintro that ⟨code, rfl⟩
  refine Outline.loop_cons hupdate (inRound_stable _) stable_true
    (fun w h _ => ⟨trivial, fun _ => h, fun _ => trivial⟩) (fun _ _ => trivial) ?_
  rintro that ⟨code', rfl⟩
  refine Outline.loop_cons (closeOutline this.id) (inRound_stable _) stable_true
    (fun w h _ => ⟨trivial, fun _ => h, fun _ => trivial⟩) (fun _ _ => trivial) ?_
  rintro that -
  exact Discipline.Triple.ret stable_true (fun w _ => ⟨.refl that, trivial⟩)

theorem kept : Kept Separated EditsConfirmed (fun _ => True) where
  stable := stable_true
  quiet := by
    intro i w hquiet _ _
    refine ⟨?_, trivial⟩
    cases i <;> first | exact hquiet.elim | trivial
  endOfData := fun _ _ _ _ _ _ _ => ⟨trivial, trivial⟩
  ask := fun _ _ _ _ _ => ⟨trivial, trivial⟩
  push := fun e this => (syncClientChanges_triple e this).conseq (fun _ h => h.2)
    (fun _ _ _ => trivial)

/-- Over any commands and any actions of the user that keep the creates of a round
apart from its edits, no update or delete of an unconfirmed object goes out. -/
theorem edits_go_out_after_creates_are_confirmed (fuel : Nat) (config : Config) (pageSize : Int)
    (commands : List Command) (w w' : World) (ms : List (Move Stmt World UIAction)) (p : Sync Unit)
    (hrun : Run step uiStep (processCommands fuel config pageSize commands) w ms p w')
    (hsep : ∀ m ∈ ms, Separated m) : ∀ i x, Move.own i x ∈ ms → EditsConfirmed i x := by
  have htriple := (kept.engine fuel).processCommands config pageSize commands
  exact (Discipline.wp_run hrun (htriple w trivial) hsep).1

/-- An edit of a known object is queued. -/
def editWorld : World :=
  smallWorld
    (ChangedTable.empty.insert (queued 1 (some "8") (some "name") (some "Bob") none .update 3)) .empty
    acceptAll

def saveAnn : UIAction := .save ⟨1, false, [("object", some "7"), ("name", some "Ann")]⟩

/-- A new object and an edit of another one go out in one round. -/
theorem edits_go_out_after_creates_are_confirmed_other_object : ∃ ms p w',
    Run step uiStep (processCommands 3 smallConfig 2000 [.syncOne 1 ""]) editWorld ms p w' ∧
    (∀ m ∈ ms, Separated m) ∧
    w'.changed.rows.map (fun r => (r.object, r.sent)) = [(some "8", 1), (some "7", 2)] ∧
    ∀ i x, Move.own i x ∈ ms → EditsConfirmed i x := by
  obtain ⟨ms, p, w', hrun, hcheck⟩ := exists_run_of_play step uiStep
    (some saveAnn :: List.replicate 16 none)
    (processCommands 3 smallConfig 2000 [.syncOne 1 ""]) editWorld
    (fun r => r.1.all separated && r.2.2.changed.rows.map (fun r => (r.object, r.sent)) =
      [(some "8", 1), (some "7", 2)]) (by decide +kernel)
  rw [Bool.and_eq_true, List.all_eq_true] at hcheck
  exact ⟨ms, p, w', hrun, hcheck.1, of_decide_eq_true hcheck.2,
    edits_go_out_after_creates_are_confirmed _ _ _ _ _ _ _ _ hrun hcheck.1⟩

def saveAnnWithAge : UIAction :=
  .save ⟨1, false, [("object", some "7"), ("name", some "Ann"), ("age", some "4")]⟩

/-- A body with an edit of an unconfirmed object. -/
def isEarly : Move Stmt World UIAction → Bool
  | .own (.makePushBody src .update) x => (selectPush x.changed src .update).any (fun r =>
      x.changed.rows.any (fun s => IsUnconfirmed src s ∧ s.object = r.object))
  | _ => false

/-- A new object saved again with one more attribute: its update goes out while the
create waits for its entry. -/
theorem edit_goes_out_before_create_is_confirmed :
    ¬ ∀ (fuel : Nat) (config : Config) (pageSize : Int) (commands : List Command) (w w' : World)
      (ms : List (Move Stmt World UIAction)) (p : Sync Unit),
      Run step uiStep (processCommands fuel config pageSize commands) w ms p w' →
      ∀ i x, Move.own i x ∈ ms → EditsConfirmed i x := by
  intro h
  obtain ⟨ms, p, w', hrun, hearly⟩ := exists_run_of_play step uiStep
    (some saveAnn :: some saveAnnWithAge :: List.replicate 16 none)
    (processCommands 3 smallConfig 2000 [.syncOne 1 ""]) (smallWorld .empty .empty acceptAll)
    (fun r => r.1.any isEarly) (by decide +kernel)
  obtain ⟨m, hm, hbad⟩ := List.any_eq_true.mp hearly
  unfold isEarly at hbad
  split at hbad
  · obtain ⟨r, hr, hex⟩ := List.any_eq_true.mp hbad
    obtain ⟨s, hs, hboth⟩ := List.any_eq_true.mp hex
    obtain ⟨hun, hobject⟩ := of_decide_eq_true hboth
    exact h _ _ _ _ _ _ _ _ hrun _ _ hm (Or.inl rfl) r hr s hs hun hobject
  · cases hbad

end Rhodes.ConfirmedFirst
