import Rhodes.PushRound
import Rhodes.Sessions

/-!
No row goes to the server twice. A row that reached it has left the states
sent<=1, except between the answer and the statement that confirms the body. The
files are the exception: after a successful pushFile the engine deletes from
object_values and leaves the row of changed_values as it was, so it is pushed
again and the picture disappears from the view.
-/
namespace Rhodes.PushedOnce

open Database Statements Queue Interleaving Source ClientChanges SyncEngine Rhom Threads PushRound
  PullRules Sessions

/-- No file of this run is accepted by the server. -/
def filesFail : Move Stmt World UIAction → Bool
  | .own (.request (.pushFile ..)) w => !(w.net w.requests).isOK
  | _ => true

def FilesFail (m : Move Stmt World UIAction) : Prop := filesFail m = true

/-- A body is made of rows that no accepted request has carried, and the statement
after an accepted file takes no row of the view away. -/
def PushesOnce : Stmt → World → Prop
  | .makePushBody src t, w => ∀ r ∈ selectPush w.changed src t, ¬ Acknowledged w.log r
  | .deleteBlobObject src file, w => ∀ o ∈ w.objects.rows, o.sourceId = src →
      o.attribType = some "blob.file" → o.value = some file →
        o ∈ (step (.deleteBlobObject src file) w).objects.rows
  | _, _ => True

/-- The rows the server has are above sent=1, but for rows of the kind `late`. Rows
still to come have other numbers. -/
structure Tracked (late : ChangedValue → Prop) (w : World) : Prop where
  acked : ∀ r ∈ w.changed.rows, Acknowledged w.log r → r.sent > 1 ∨ late r
  bound : ∀ r, Acknowledged w.log r → r.stamp < w.changed.next
  nonneg : ∀ r ∈ w.changed.rows, 0 ≤ r.sent

/-- Between two rounds no row is late. -/
def Settled (w : World) : Prop := Tracked (fun _ => False) w

/-- The rows of a body between its answer and the statement that confirms it. -/
def InBody (src : Int) (t : UpdateType) (r : ChangedValue) : Prop :=
  r.sourceId = src ∧ r.updateType = t ∧ NonBlob r ∧ r.sent = 1

theorem Tracked.frame {late : ChangedValue → Prop} {w w' : World} (h : Tracked late w)
    (hframe : Frame w w') : Tracked late w' := by
  refine ⟨?_, ?_, ?_⟩
  · intro r hr hack
    rw [hframe.log] at hack
    rcases hframe.changed.rows r hr with hold | ⟨hnew, -⟩
    · exact h.acked r hold hack
    · exact absurd (h.bound r hack) (by omega)
  · intro r hack
    rw [hframe.log] at hack
    exact lt_of_lt_of_le (h.bound r hack) hframe.changed.next_le
  · intro r hr
    rcases hframe.changed.rows r hr with hold | ⟨-, hzero⟩
    · exact h.nonneg r hold
    · omega

/-- A statement that no accepted push is part of: it has to see to the late rows. -/
theorem Tracked.kept {late late' : ChangedValue → Prop} {i : Stmt} {w : World}
    (h : Tracked late w)
    (hquiet : ∀ q, i = .request q → (w.net w.requests).isOK = true → Request.pushed q = [])
    (hlate : ∀ r ∈ w.changed.rows, ¬ Deletes i r → late r →
      (rowUpdate i r).sent > 1 ∨ late' (rowUpdate i r)) : Tracked late' (step i w) := by
  have hack : ∀ r, Acknowledged (step i w).log r → Acknowledged w.log r := by
    intro r hr
    rcases (acknowledged_step i w r).mp hr with hr | ⟨q, rfl, hok, hmem⟩
    · exact hr
    · rw [hquiet q rfl hok] at hmem
      exact absurd hmem (by simp)
  refine ⟨?_, ?_, ?_⟩
  · intro r hr hr'
    obtain ⟨s, hs, hstay, rfl⟩ := (mem_step i w r).mp hr
    have hsack : Acknowledged w.log s := by
      have hr' := hack _ hr'
      rwa [Acknowledged, (rowUpdate_sameEdit i s).stamp] at hr'
    rcases h.acked s hs hsack with hsent | hl
    · exact Or.inl (rowUpdate_gt_one hsent)
    · exact hlate s hs hstay hl
  · intro r hr
    rw [step_next]
    exact h.bound r (hack r hr)
  · intro r hr
    obtain ⟨s, hs, -, rfl⟩ := (mem_step i w r).mp hr
    exact rowUpdate_nonneg (h.nonneg s hs)

/-- Between rounds every statement but an accepted push keeps the rows settled. -/
theorem Settled.kept {i : Stmt} {w : World} (h : Settled w)
    (hquiet : ∀ q, i = .request q → (w.net w.requests).isOK = true → Request.pushed q = []) :
    Settled (step i w) := Tracked.kept h hquiet (fun _ _ _ hl => hl.elim)

/-- While the body is on its way, its rows are at sent=1 and not at the server yet. -/
structure Built (src : Int) (t : UpdateType) (b : PushBody) (w : World) : Prop where
  settled : Settled w
  known : ∀ s ∈ b.rows, s.stamp < w.changed.next
  inBody : ∀ r ∈ w.changed.rows, r.stamp ∈ b.rows.map ChangedValue.stamp → InBody src t r

theorem Built.frame {src : Int} {t : UpdateType} {b : PushBody} {w w' : World}
    (h : Built src t b w) (hframe : Frame w w') : Built src t b w' := by
  refine ⟨h.settled.frame hframe, ?_, ?_⟩
  · exact fun s hs => lt_of_lt_of_le (h.known s hs) hframe.changed.next_le
  · intro r hr hmem
    rcases hframe.changed.rows r hr with hold | ⟨hnew, -⟩
    · exact h.inBody r hold hmem
    · obtain ⟨s, hs, hstamp⟩ := List.mem_map.mp hmem
      have := h.known s hs
      omega

theorem makePushBody_built {src : Int} {t : UpdateType} {w : World} (h : Settled w) :
    Built src t (pushBodyOf printUInt64 (selectPush w.changed src t))
      (step (.makePushBody src t) w) := by
  refine ⟨h.kept (by simp), ?_, ?_⟩
  · intro s hs
    rw [pushBodyOf_rows] at hs
    rw [step_next]
    exact w.changed.fresh s ((mem_selectPush _ _ _ _).mp (List.mem_filter.mp hs).1).1
  · intro r hr hmem
    rw [pushBodyOf_rows] at hmem
    obtain ⟨s, hs, hstamp⟩ := List.mem_map.mp hmem
    obtain ⟨hsel, hnon⟩ := List.mem_filter.mp hs
    obtain ⟨hsrows, hsrc, ht, hle⟩ := (mem_selectPush _ _ _ _).mp hsel
    obtain ⟨s', hs', -, rfl⟩ := (mem_step _ w r).mp hr
    have heq : s' = s := by
      rw [(rowUpdate_sameEdit _ s').stamp] at hstamp
      exact w.changed.eq_of_stamp hs' hsrows hstamp.symm
    subst heq
    have hsame := rowUpdate_sameEdit (.makePushBody src t) s'
    refine ⟨hsame.sourceId.trans hsrc, hsame.updateType.trans ht,
      hsame.nonBlob.mpr (by simpa using hnon), ?_⟩
    have hnonneg := h.nonneg s' hs'
    by_cases hzero : s'.sent = 0
    · simp [rowUpdate, hsrc, ht, hzero]
    · simp only [rowUpdate, hzero, and_false, if_false]
      omega

/-- The answer to the body leaves its rows late. -/
theorem Built.answered {src : Int} {t : UpdateType} {b : PushBody} {w : World} {url : String}
    (h : Built src t b w) :
    Tracked (InBody src t) (step (.request (.pushData src t url b.strBody b.rows)) w) := by
  have hack : ∀ r, Acknowledged
      (step (.request (.pushData src t url b.strBody b.rows)) w).log r →
      Acknowledged w.log r ∨ r.stamp ∈ b.rows.map ChangedValue.stamp := by
    intro r hr
    rcases (acknowledged_step _ w r).mp hr with hr | ⟨q, hq, -, hmem⟩
    · exact Or.inl hr
    · cases hq
      exact Or.inr hmem
  refine ⟨?_, ?_, h.settled.nonneg⟩
  · intro r hr hr'
    rcases hack r hr' with hold | hmem
    · exact Or.inl ((h.settled.acked r hr hold).resolve_right id)
    · exact Or.inr (h.inBody r hr hmem)
  · intro r hr
    rcases hack r hr with hold | hmem
    · exact h.settled.bound r hold
    · obtain ⟨s, hs, hstamp⟩ := List.mem_map.mp hmem
      rw [← hstamp]
      exact h.known s hs

/-- What holds once the body is through: its rows may be late, and if there was no
body nothing is. -/
def Through (src : Int) (t : UpdateType) (b : PushBody) (w : World) : Prop :=
  Tracked (InBody src t) w ∧ (¬ 0 < b.strBody.length → Settled w)

theorem Settled.tracked {late : ChangedValue → Prop} {w : World} (h : Settled w) :
    Tracked late w := ⟨fun r hr hack => Or.inl ((h.acked r hr hack).resolve_right id), h.bound,
      h.nonneg⟩

/-- The statement after a push with blobs takes care of the late rows. -/
theorem Through.confirmBlobs {src : Int} {t : UpdateType} {b : PushBody} {w : World}
    (h : Through src t b w) :
    Settled (step (if t = .create then .confirmNonBlob src t else .deleteNonBlob src t) w) := by
  by_cases ht : t = .create
  · rw [if_pos ht]
    apply Tracked.kept h.1 (by simp)
    rintro r - - hin
    simp [rowUpdate, hin.1, hin.2.1, hin.2.2.1, hin.2.2.2]
  · rw [if_neg ht]
    apply Tracked.kept h.1 (by simp)
    rintro r - hstay ⟨hsrc, htype, hnon, hsent⟩
    refine absurd ⟨hsrc, htype, ?_⟩ hstay
    cases hattr : r.attribType with
    | none => exact Or.inl hattr
    | some a => exact Or.inr ⟨⟨by simp [hattr], hnon⟩, hsent⟩

/-- So does the statement after a push without blobs. -/
theorem Through.confirmBody {src : Int} {t : UpdateType} {b : PushBody} {w : World}
    (h : Through src t b w) :
    Settled (step (if t = .create then .confirmSent src t else .deleteSent src t) w) := by
  by_cases ht : t = .create
  · rw [if_pos ht]
    apply Tracked.kept h.1 (by simp)
    rintro r - - hin
    simp [rowUpdate, hin.1, hin.2.1, hin.2.2.2]
  · rw [if_neg ht]
    apply Tracked.kept h.1 (by simp)
    rintro r - hstay ⟨hsrc, htype, -, hsent⟩
    exact absurd ⟨hsrc, htype, hsent⟩ hstay

theorem settled_stable : (against FilesFail PushesOnce).Stable Settled :=
  stable_of_frame (fun _ _ h hframe => Tracked.frame h hframe)

theorem not_accepted {q : Request} {w : World} (hno : (w.net w.requests).isOK = false) :
    ∀ q', Stmt.request q = .request q' → (w.net w.requests).isOK = true →
      Request.pushed q' = [] := by
  intro q' _ hyes
  rw [hno] at hyes
  cases hyes

def outline (src : Int) (t : UpdateType) : Outline FilesFail PushesOnce src t Settled Settled where
  built := Built src t
  sent := Through src t
  pushing := Settled
  pushed := fun _ => False
  failed := Settled
  pre_stable := settled_stable
  built_stable := fun _ => stable_of_frame (fun _ _ h hframe => h.frame hframe)
  sent_stable := fun _ => stable_of_frame (fun _ _ h hframe =>
    ⟨h.1.frame hframe, fun hempty => Tracked.frame (h.2 hempty) hframe⟩)
  pushing_stable := settled_stable
  pushed_stable := fun _ _ h _ => h
  failed_stable := settled_stable
  post_stable := settled_stable
  build := by
    intro w h _
    refine ⟨?_, makePushBody_built h⟩
    intro r hr hack
    obtain ⟨hmem, -, -, hle⟩ := (mem_selectPush _ _ _ _).mp hr
    have hgt := (h.acked r hmem hack).resolve_right id
    omega
  send := fun b w url h hbody _ => ⟨trivial, fun _ => ⟨h.answered, fun hempty => absurd hbody hempty⟩,
    fun hno => h.settled.kept (not_accepted hno)⟩
  skip := fun b w h _ => ⟨h.settled.tracked, fun _ => h.settled⟩
  confirmBlobs := by
    rintro b w i h - rfl _
    refine ⟨?_, h.confirmBlobs⟩
    split <;> trivial
  confirmBody := by
    rintro b w i h - - rfl _
    refine ⟨?_, h.confirmBody⟩
    split <;> trivial
  nothing := fun b w h _ hempty => h.2 hempty
  pushFile := by
    intro w query file row h hok
    have hno : (w.net w.requests).isOK = false := by simpa [FilesFail, filesFail] using hok
    refine ⟨trivial, ?_, fun _ => h.kept (not_accepted hno)⟩
    intro hyes
    rw [hno] at hyes
    cases hyes
  deleteBlob := fun _ _ h _ => h.elim
  done := fun _ h => h
  fail := fun w h _ => ⟨trivial, h.kept (by simp)⟩

theorem kept : Kept FilesFail PushesOnce Settled where
  stable := settled_stable
  quiet := by
    intro i w hquiet h _
    constructor
    · cases i <;> first | exact hquiet.elim | trivial
    · apply h.kept
      rintro q rfl _
      exact hquiet
  endOfData := fun _ _ w h _ _ _ => ⟨trivial, h.kept (by simp)⟩
  ask := fun _ _ w h _ => ⟨trivial, h.kept (by simp)⟩
  push := by
    intro e this
    have htriple := Outline.loop_invariant settled_stable (fun _ _ => trivial) e
      [.create, .update, .delete] this (fun t _ => outline this.id t)
    exact htriple.conseq (fun _ h => h.1) (fun _ _ h => h.2)

/-- Over any commands and any actions of the UI thread, no body contains a row that
the server has accepted, as long as it accepts no file. -/
theorem accepted_rows_are_not_pushed_again (fuel : Nat) (config : Config) (pageSize : Int)
    (commands : List Command) (w w' : World) (ms : List (Move Stmt World UIAction))
    (p : Sync Unit) (hsent : ∀ r ∈ w.changed.rows, 0 ≤ r.sent)
    (hrun : Run step uiStep (processCommands fuel config pageSize commands)
      { w with log := [] } ms p w')
    (hfiles : ∀ m ∈ ms, FilesFail m) :
    ∀ i x, Move.own i x ∈ ms → PushesOnce i x := by
  have hstart : Settled { w with log := [] } :=
    ⟨fun r _ h => absurd h (by simp [Acknowledged]), fun r h => absurd h (by simp [Acknowledged]),
      hsent⟩
  have htriple := (kept.engine fuel).processCommands config pageSize commands
  exact (Discipline.wp_run hrun (htriple _ hstart) hfiles).1

/-- A view with one picture, a queue with one edit of it, and a server that accepts
everything. -/
def pictureWorld (value attribType : Option String) : World :=
  smallWorld
    (ChangedTable.empty.insert (queued 1 (some "7") (some "image_uri") value attribType .update 0))
    ⟨[⟨10, 1, some "image_uri", some "7", value, attribType⟩], List.pairwise_singleton _ _⟩ acceptAll

/-- An edit without a file is accepted, and gone from the queue. -/
theorem accepted_rows_are_not_pushed_again_edit : ∃ ms p w',
    Run step uiStep (processCommands 3 smallConfig 2000 [.syncOne 1 "", .syncOne 1 ""])
      { pictureWorld (some "Ann") none with log := [] } ms p w' ∧
    (∀ m ∈ ms, FilesFail m) ∧ w'.changed.rows = [] ∧
    ∀ i x, Move.own i x ∈ ms → PushesOnce i x := by
  obtain ⟨ms, p, w', hrun, hcheck⟩ := exists_run_of_play step uiStep (List.replicate 16 none)
    (processCommands 3 smallConfig 2000 [.syncOne 1 "", .syncOne 1 ""])
    (pictureWorld (some "Ann") none)
    (fun r => r.1.all filesFail && r.2.2.changed.rows = []) (by decide +kernel)
  rw [Bool.and_eq_true, List.all_eq_true] at hcheck
  exact ⟨ms, p, w', hrun, hcheck.1, of_decide_eq_true hcheck.2,
    accepted_rows_are_not_pushed_again _ _ _ _ (pictureWorld (some "Ann") none) _ _ _ (by decide)
      hrun hcheck.1⟩

/-- A body that contains a row the server has accepted. -/
def isRepeat : Move Stmt World UIAction → Bool
  | .own (.makePushBody src t) x =>
      (selectPush x.changed src t).any (fun r => Acknowledged x.log r)
  | _ => false

/-- The picture accepted in the first session is pushed again in the second. -/
theorem accepted_file_is_pushed_again :
    ¬ ∀ (fuel : Nat) (config : Config) (pageSize : Int) (commands : List Command) (w w' : World)
      (ms : List (Move Stmt World UIAction)) (p : Sync Unit),
      Run step uiStep (processCommands fuel config pageSize commands) { w with log := [] } ms p w' →
      ∀ i x, Move.own i x ∈ ms → PushesOnce i x := by
  intro h
  obtain ⟨ms, p, w', hrun, hrepeat⟩ := exists_run_of_play step uiStep (List.replicate 46 none)
    (processCommands 3 smallConfig 2000 [.syncOne 1 "", .syncOne 1 ""])
    (pictureWorld (some "/p.png") (some "blob.file")) (fun r => r.1.any isRepeat)
    (by decide +kernel)
  obtain ⟨m, hm, hbad⟩ := List.any_eq_true.mp hrepeat
  unfold isRepeat at hbad
  split at hbad
  · obtain ⟨r, hr, hack⟩ := List.any_eq_true.mp hbad
    exact h _ _ _ _ (pictureWorld (some "/p.png") (some "blob.file")) _ _ _ hrun _ _ hm r hr
      (of_decide_eq_true hack)
  · cases hbad

end Rhodes.PushedOnce
