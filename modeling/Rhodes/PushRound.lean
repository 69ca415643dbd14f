import Rhodes.Threads
import Rhodes.ClientChanges

/-!
The control flow of syncClientChanges, once for every property of it. An outline
attaches an assertion to each point of one round (before the body is built, while
it is on its way, after its push, in the loop over the blobs, after a failure) and
says what each statement makes of it; `Outline.triple` puts these together.
-/
namespace Rhodes.PushRound

open Database Statements Interleaving Source ClientChanges Rhom Threads

variable {ok : Move Stmt World UIAction → Prop} {goal : Stmt → World → Prop}

/-- One round of syncClientChanges for the source `src` and the type `t`. -/
structure Outline (ok : Move Stmt World UIAction → Prop) (goal : Stmt → World → Prop)
    (src : Int) (t : UpdateType) (pre post : World → Prop) where
  built : PushBody → World → Prop
  sent : PushBody → World → Prop
  pushing : World → Prop
  pushed : World → Prop
  failed : World → Prop
  pre_stable : (against ok goal).Stable pre
  built_stable : ∀ b, (against ok goal).Stable (built b)
  sent_stable : ∀ b, (against ok goal).Stable (sent b)
  pushing_stable : (against ok goal).Stable pushing
  pushed_stable : (against ok goal).Stable pushed
  failed_stable : (against ok goal).Stable failed
  post_stable : (against ok goal).Stable post
  build : ∀ w, pre w → ok (.own (.makePushBody src t) w) → goal (.makePushBody src t) w ∧
    built (pushBodyOf printUInt64 (selectPush w.changed src t)) (step (.makePushBody src t) w)
  send : ∀ b w url, built b w → 0 < b.strBody.length →
    ok (.own (.request (.pushData src t url b.strBody b.rows)) w) →
    goal (.request (.pushData src t url b.strBody b.rows)) w ∧
    ((w.net w.requests).isOK = true →
      sent b (step (.request (.pushData src t url b.strBody b.rows)) w)) ∧
    ((w.net w.requests).isOK = false →
      failed (step (.request (.pushData src t url b.strBody b.rows)) w))
  skip : ∀ b w, built b w → ¬ 0 < b.strBody.length → sent b w
  confirmBlobs : ∀ b w i, sent b w → 0 < b.blobs.length →
    i = (if t = .create then .confirmNonBlob src t else .deleteNonBlob src t) →
    ok (.own i w) → goal i w ∧ pushing (step i w)
  confirmBody : ∀ b w i, sent b w → ¬ 0 < b.blobs.length → 0 < b.strBody.length →
    i = (if t = .create then .confirmSent src t else .deleteSent src t) →
    ok (.own i w) → goal i w ∧ post (step i w)
  nothing : ∀ b w, sent b w → ¬ 0 < b.blobs.length → ¬ 0 < b.strBody.length → post w
  pushFile : ∀ w query file row, pushing w →
    ok (.own (.request (.pushFile src t query file row)) w) →
    goal (.request (.pushFile src t query file row)) w ∧
    ((w.net w.requests).isOK = true →
      pushed (step (.request (.pushFile src t query file row)) w)) ∧
    ((w.net w.requests).isOK = false →
      failed (step (.request (.pushFile src t query file row)) w))
  deleteBlob : ∀ w file, pushed w → ok (.own (.deleteBlobObject src file) w) →
    goal (.deleteBlobObject src file) w ∧ pushing (step (.deleteBlobObject src file) w)
  done : ∀ w, pushing w → post w
  fail : ∀ w, failed w → ok (.own (.setState .esStop) w) →
    goal (.setState .esStop) w ∧ post (step (.setState .esStop) w)

/-- The object after a push: at most its error code has changed. -/
def SameButError (this that : SyncSource) : Prop := ∃ code, that = { this with errCode := code }

theorem SameButError.refl (this : SyncSource) : SameButError this this := ⟨this.errCode, rfl⟩

theorem SameButError.trans {a b c : SyncSource} (h : SameButError a b) (h' : SameButError b c) :
    SameButError a c := by
  obtain ⟨x, rfl⟩ := h
  obtain ⟨y, rfl⟩ := h'
  exact ⟨y, rfl⟩

namespace Outline

variable {src : Int} {t : UpdateType} {pre post : World → Prop}

/-- What a round leaves, on all of its paths. -/
def Leaves (post : World → Prop) (this that : SyncSource) (w : World) : Prop :=
  SameButError this that ∧ post w

theorem fail_triple (O : Outline ok goal src t pre post) (this : SyncSource) (code : ErrCode) :
    (against ok goal).Triple O.failed
      ((execute (.setState .esStop)).bind (fun _ => .ret { this with errCode := code }))
      (Leaves post this) := by
  apply execute_bind O.failed_stable O.fail
  exact Discipline.Triple.ret O.post_stable (fun w hw => ⟨⟨code, rfl⟩, hw⟩)

theorem blobs_triple (O : Outline ok goal src t pre post) (e : Engine) (this : SyncSource)
    (hsrc : this.id = src) (strBaseQuery : String) (blobs : List SyncBlob) :
    (against ok goal).Triple O.pushing (syncClientBlobs e this t strBaseQuery blobs)
      (Leaves post this) := by
  subst hsrc
  induction blobs with
  | nil => exact Discipline.Triple.ret O.pushing_stable (fun w hw => ⟨.refl this, O.done w hw⟩)
  | cons blob rest ih =>
    refine send_bind O.pushing_stable (fun w hw => O.pushFile w _ _ _ hw) ?_ ?_
    · intro resp hresp
      simp only [hresp, if_true]
      exact execute_bind O.pushed_stable (fun w => O.deleteBlob w _) ih
    · intro resp hresp
      simp only [hresp, Bool.false_eq_true, if_false]
      exact O.fail_triple this (failCode resp)

theorem confirm_triple (O : Outline ok goal src t pre post) (e : Engine) (this : SyncSource)
    (hsrc : this.id = src) (b : PushBody) :
    (against ok goal).Triple (O.sent b) (confirmPush e this t b) (Leaves post this) := by
  subst hsrc
  unfold confirmPush
  refine Discipline.Triple.ite (fun hblobs => ?_) (fun hblobs => Discipline.Triple.ite ?_ ?_)
  · exact execute_bind (O.sent_stable b) (fun w hw => O.confirmBlobs b w _ hw hblobs rfl)
      (O.blobs_triple e this rfl _ _)
  · intro hbody
    refine execute_bind (O.sent_stable b)
      (fun w hw => O.confirmBody b w _ hw hblobs hbody rfl) ?_
    exact Discipline.Triple.ret O.post_stable (fun w hw => ⟨.refl this, hw⟩)
  · intro hbody
    exact Discipline.Triple.ret (O.sent_stable b)
      (fun w hw => ⟨.refl this, O.nothing b w hw hblobs hbody⟩)

/-- A round keeps to its outline. -/
theorem triple (O : Outline ok goal src t pre post) (e : Engine) (this : SyncSource)
    (hsrc : this.id = src) :
    (against ok goal).Triple pre (pushChanges e this t) (Leaves post this) := by
  subst hsrc
  apply Discipline.Triple.perform_bind O.built O.pre_stable O.build
  intro b
  refine Discipline.Triple.ite (fun hbody => ?_) (fun hbody => ?_)
  · refine send_bind (O.built_stable b) (fun w hw => O.send b w _ hw hbody) ?_ ?_
    · intro resp hresp
      simp only [hresp, if_true]
      exact O.confirm_triple e this rfl b
    · intro resp hresp
      simp only [hresp, Bool.false_eq_true, if_false]
      exact O.fail_triple this .errRemoteServer
  · exact (O.confirm_triple e this rfl b).conseq (fun w hw => O.skip b w hw hbody) (fun _ _ h => h)

/-- The loop over the types: the state is tested, then one round is made. -/
theorem loop_cons {P mid stop post : World → Prop} {e : Engine} {this : SyncSource}
    {rest : List UpdateType} (O : Outline ok goal this.id t pre mid)
    (hP : (against ok goal).Stable P) (hstop : (against ok goal).Stable stop)
    (hread : ∀ w, P w → ok (.own .read w) → goal .read w ∧
      (w.syncState.isContinueSync = true → pre w) ∧ (w.syncState.isContinueSync = false → stop w))
    (hend : ∀ w, stop w → post w)
    (hrest : ∀ that, SameButError this that →
      (against ok goal).Triple mid (pushLoop e that rest) (Leaves post that)) :
    (against ok goal).Triple P (pushLoop e this (t :: rest)) (Leaves post this) := by
  refine continue_bind hP hread ?_ ?_
  · apply Discipline.Triple.bind (O.triple e this rfl)
    rintro that w ⟨hsame, hmid⟩
    refine Discipline.wp_mono ?_ (hrest that hsame w hmid)
    rintro last v ⟨hlast, hpost⟩
    exact ⟨hsame.trans hlast, hpost⟩
  · exact Discipline.Triple.ret hstop (fun w hw => ⟨.refl this, hend w hw⟩)

/-- An invariant that every round keeps is kept by syncClientChanges. -/
theorem loop_invariant {I : World → Prop} (hI : (against ok goal).Stable I)
    (hread : ∀ w, I w → goal .read w) (e : Engine) (types : List UpdateType) (this : SyncSource)
    (O : ∀ t ∈ types, Outline ok goal this.id t I I) :
    (against ok goal).Triple I (pushLoop e this types) (Leaves I this) := by
  induction types generalizing this with
  | nil => exact Discipline.Triple.ret hI (fun w hw => ⟨.refl this, hw⟩)
  | cons t rest ih =>
    refine loop_cons (O t (by simp)) hI hI (fun w hw _ => ⟨hread w hw, fun _ => hw, fun _ => hw⟩)
      (fun _ hw => hw) ?_
    rintro that ⟨code, rfl⟩
    exact ih _ (fun t ht => O t (by simp [ht]))

end Outline

/-- The statements of a push of the given types. -/
def Pushing (types : List UpdateType) : Stmt → Prop
  | .read => True
  | .makePushBody _ t => t ∈ types
  | .request (.pushData _ t _ _ _) => t ∈ types
  | .request (.pushFile _ t _ _ _) => t ∈ types
  | .confirmNonBlob _ t => t ∈ types
  | .deleteNonBlob _ t => t ∈ types
  | .confirmSent _ t => t ∈ types
  | .deleteSent _ t => t ∈ types
  | .deleteBlobObject _ _ => True
  | .setState s => s = .esStop
  | _ => False

/-- The statements of a push that make no request. -/
def Booking (types : List UpdateType) : Stmt → Prop
  | .request _ => False
  | i => Pushing types i

theorem Booking.pushing {types : List UpdateType} {i : Stmt} (h : Booking types i) :
    Pushing types i := by
  cases i <;> first | exact h | exact h.elim

/-- A class of statements that the pushes of an engine stay in. -/
structure PushesFor (e : Engine) (types : List UpdateType) (L : Stmt → Prop) : Prop where
  booking : ∀ i, Booking types i → L i
  pushData : ∀ (this : SyncSource) t body rows, t ∈ types →
    L (.request (.pushData this.id t (pushUrl this t ++ pushQuery e) body rows))
  pushFile : ∀ (this : SyncSource) t body file row, t ∈ types →
    L (.request (.pushFile this.id t (pushUrl this t ++ pushQuery e ++ "&" ++ body) file row))

theorem pushing_pushesFor (e : Engine) (types : List UpdateType) :
    PushesFor e types (Pushing types) :=
  ⟨fun _ => Booking.pushing, fun _ _ _ _ ht => ht, fun _ _ _ _ _ ht => ht⟩

section Pushing

variable {types : List UpdateType} {t : UpdateType} {e : Engine} {L : Stmt → Prop}

theorem syncClientBlobs_for (h : PushesFor e types L) (ht : t ∈ types) (this : SyncSource)
    (blobs : List SyncBlob) :
    (syncClientBlobs e this t (pushUrl this t ++ pushQuery e) blobs).Only L := by
  induction blobs with
  | nil => trivial
  | cons blob rest ih =>
    refine Prog.Only.bind (send_only (h.pushFile _ _ _ _ _ ht)) (fun resp => Prog.Only.ite ?_ ?_)
    · exact Prog.Only.bind (execute_only (h.booking _ trivial)) (fun _ => ih)
    · exact Prog.Only.bind (execute_only (h.booking (.setState .esStop) rfl)) (fun _ => trivial)

theorem confirmPush_for (h : PushesFor e types L) (ht : t ∈ types) (this : SyncSource)
    (b : PushBody) : (confirmPush e this t b).Only L := by
  refine Prog.Only.ite (Prog.Only.bind (execute_only (h.booking _ ?_)) ?_)
    (Prog.Only.ite (Prog.Only.bind (execute_only (h.booking _ ?_)) (fun _ => trivial)) trivial)
  · split <;> exact ht
  · exact fun _ => syncClientBlobs_for h ht _ _
  · split <;> exact ht

theorem pushLoop_for (h : PushesFor e types L) (rest : List UpdateType) (hrest : rest ⊆ types)
    (this : SyncSource) : (pushLoop e this rest).Only L := by
  induction rest generalizing this with
  | nil => trivial
  | cons t rest ih =>
    obtain ⟨ht, hrest⟩ := List.cons_subset.mp hrest
    refine Prog.Only.bind (query_only (h.booking .read trivial) _)
      (fun b => Prog.Only.ite ?_ trivial)
    have hbuild : L (.makePushBody this.id t) := h.booking (.makePushBody this.id t) ht
    refine Prog.Only.bind (Prog.Only.bind (Prog.Only.perform hbuild _)
      (fun body => Prog.Only.ite ?_ (confirmPush_for h ht _ _))) (fun _ => ih hrest _)
    refine Prog.Only.bind (send_only (h.pushData _ _ _ _ ht))
      (fun resp => Prog.Only.ite (confirmPush_for h ht _ _) ?_)
    exact Prog.Only.bind (execute_only (h.booking (.setState .esStop) rfl)) (fun _ => trivial)

theorem pushLoop_only (e : Engine) (rest : List UpdateType) (hrest : rest ⊆ types)
    (this : SyncSource) : (pushLoop e this rest).Only (Pushing types) :=
  pushLoop_for (pushing_pushesFor e types) rest hrest this

end Pushing

/-- The statements of syncClientChanges. -/
theorem syncClientChanges_only (e : Engine) (this : SyncSource) :
    (syncClientChanges e this).Only (Pushing [.create, .update, .delete]) :=
  pushLoop_only e _ (List.Subset.refl _) this

theorem syncClientBlobs_returns (e : Engine) (this : SyncSource) (t : UpdateType)
    (strBaseQuery : String) (blobs : List SyncBlob) :
    (syncClientBlobs e this t strBaseQuery blobs).Returns (SameButError this) := by
  induction blobs with
  | nil => exact .refl this
  | cons blob rest ih =>
    refine Prog.Returns.perform_bind _ _ (fun resp => Prog.Returns.ite ?_ ?_)
    · exact Prog.Returns.perform_bind _ _ (fun _ => ih)
    · exact Prog.Returns.perform_bind _ _ (fun _ => ⟨_, rfl⟩)

theorem confirmPush_returns (e : Engine) (this : SyncSource) (t : UpdateType) (b : PushBody) :
    (confirmPush e this t b).Returns (SameButError this) := by
  refine Prog.Returns.ite ?_ (Prog.Returns.ite ?_ (.refl this))
  · exact Prog.Returns.perform_bind _ _ (fun _ => syncClientBlobs_returns _ _ _ _ _)
  · exact Prog.Returns.perform_bind _ _ (fun _ => .refl this)

theorem pushLoop_returns (e : Engine) (types : List UpdateType) (this : SyncSource) :
    (pushLoop e this types).Returns (SameButError this) := by
  induction types generalizing this with
  | nil => exact .refl this
  | cons t rest ih =>
    refine Prog.Returns.perform_bind _ _ (fun b => Prog.Returns.ite ?_ (.refl this))
    refine Prog.Returns.bind (R := SameButError this) ?_ ?_
    · refine Prog.Returns.perform_bind _ _ (fun body => Prog.Returns.ite ?_ ?_)
      · refine Prog.Returns.perform_bind _ _ (fun resp => Prog.Returns.ite ?_ ?_)
        · exact confirmPush_returns _ _ _ _
        · exact Prog.Returns.perform_bind _ _ (fun _ => ⟨_, rfl⟩)
      · exact confirmPush_returns _ _ _ _
    · exact fun that hsame => (ih that).mono (fun _ hlast => hsame.trans hlast)

end Rhodes.PushRound
