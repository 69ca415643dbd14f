import Rhodes.PushRound

/-!
Which rows syncClientChanges removes while the UI thread keeps writing. A row
leaves the queue through one of two DELETE statements, and the body built before
holds all rows marked as sent, whatever came in since. The DELETE made when there
are blobs also takes rows without an attrib_type that were never marked, and the
one made without blobs takes blob rows that name no file; `PushedWhole` excludes
exactly these rows.
-/
namespace Rhodes.NoLostChange

open Database Statements Queue Interleaving Source ClientChanges Rhom Threads PushRound

/-- The row is not one that the DELETE takes without its having been serialised:
without blobs, a sent blob row that names no file; with blobs, a row that has no
attrib_type and is not marked as sent. -/
def wholeRow : Stmt → ChangedValue → Bool
  | .deleteNonBlob src t, r =>
      decide (r.sourceId = src ∧ r.updateType = t ∧ r.attribType = none → r.sent = 1)
  | .deleteSent src t, r =>
      decide (r.sourceId = src ∧ r.updateType = t ∧ r.sent = 1 ∧ ¬ NonBlob r →
        0 < (r.value.getD "").length)
  | _, _ => true

/-- Every row that the statement finds is of this kind. -/
def pushedWhole : Move Stmt World UIAction → Bool
  | .own i w => w.changed.rows.all (wholeRow i)
  | .env _ _ => true

def PushedWhole (m : Move Stmt World UIAction) : Prop := pushedWhole m = true

theorem PushedWhole.row {i : Stmt} {w : World} (h : PushedWhole (.own i w)) {r : ChangedValue}
    (hr : r ∈ w.changed.rows) : wholeRow i r = true := List.all_eq_true.mp h r hr

/-- Every edit the statement removes was pushed before. -/
def LosesNothing (i : Stmt) (w : World) : Prop :=
  ∀ r, Removes i w r → r.updateType = .update ∨ r.updateType = .delete → Acknowledged w.log r

/-- A statement that deletes no row loses none. -/
theorem losesNothing_of_not_deletes {i : Stmt} {w : World} (h : ∀ r, ¬ Deletes i r) :
    LosesNothing i w := fun r hr _ => absurd hr.deletes (h r)

/-- The rows marked as sent are those of the body and of the blobs. -/
def Marked (src : Int) (t : UpdateType) (body : PushBody) (w : World) : Prop :=
  ∀ r ∈ w.changed.rows, r.sourceId = src → r.updateType = t → r.sent = 1 →
    (NonBlob r → r.stamp ∈ body.rows.map ChangedValue.stamp) ∧
    (¬ NonBlob r → 0 < (r.value.getD "").length → 0 < body.blobs.length)

theorem marked_frame {src : Int} {t : UpdateType} {body : PushBody} {w w' : World}
    (h : Marked src t body w) (hframe : Frame w w') : Marked src t body w' := by
  intro r hmem hsrc ht hsent
  rcases hframe.changed.rows r hmem with hold | ⟨-, hzero⟩
  · exact h r hold hsrc ht hsent
  · omega

/-- A row marked as sent right after makePushBody is one of those it selected. -/
theorem selected_of_marked {src : Int} {t : UpdateType} {w : World} {r : ChangedValue}
    (hr : r ∈ (step (.makePushBody src t) w).changed.rows) (hsrc : r.sourceId = src)
    (ht : r.updateType = t) (hsent : r.sent = 1) :
    ∃ s ∈ selectPush w.changed src t, s.stamp = r.stamp ∧ s.attribType = r.attribType ∧
      s.value = r.value := by
  rw [makePushBody_changed] at hr
  obtain ⟨s, hs, ⟨-, rfl⟩ | ⟨hp, rfl⟩⟩ := ChangedTable.mem_setSent hr
  · exact ⟨r, (mem_selectPush _ _ _ _).mpr ⟨hs, hsrc, ht, by omega⟩, rfl, rfl, rfl⟩
  · exact ⟨s, (mem_selectPush _ _ _ _).mpr ⟨hs, hp.1, hp.2.1, by omega⟩, rfl, rfl, rfl⟩

theorem makePushBody_marked (src : Int) (t : UpdateType) (w : World) :
    Marked src t (pushBodyOf printUInt64 (selectPush w.changed src t))
      (step (.makePushBody src t) w) := by
  intro r hr hsrc ht hsent
  obtain ⟨s, hs, hstamp, htype, hvalue⟩ := selected_of_marked hr hsrc ht hsent
  have hblob : NonBlob s ↔ NonBlob r := by simp only [NonBlob, htype]
  constructor
  · intro hnon
    rw [pushBodyOf_rows, ← hstamp]
    exact List.mem_map_of_mem (List.mem_filter.mpr ⟨hs, by simpa using hblob.mpr hnon⟩)
  · intro hnon hpos
    rw [pushBodyOf_blobs]
    refine List.length_pos_of_mem (List.mem_map_of_mem (List.mem_filter.mpr ⟨hs, ?_⟩))
    simpa [hvalue, hblob] using ⟨hnon, hpos⟩

/-- The rows of the body went out in a request that returned OK, if there were any. -/
def Delivered (body : PushBody) (w : World) : Prop :=
  ∀ n ∈ body.rows.map ChangedValue.stamp,
    ∃ q, Event.answered q true ∈ w.log ∧ n ∈ (Request.pushed q).map ChangedValue.stamp

theorem Delivered.acknowledged {body : PushBody} {w : World} {r : ChangedValue}
    (h : Delivered body w) (hr : r.stamp ∈ body.rows.map ChangedValue.stamp) :
    Acknowledged w.log r := h r.stamp hr

/-- What holds when the push of the body is over: the marks, and the delivery. -/
def Confirmable (src : Int) (t : UpdateType) (body : PushBody) (w : World) : Prop :=
  Marked src t body w ∧ Delivered body w

theorem confirmable_stable (src : Int) (t : UpdateType) (body : PushBody) :
    (against PushedWhole LosesNothing).Stable (Confirmable src t body) := by
  apply stable_of_frame
  intro w w' h hframe
  refine ⟨marked_frame h.1 hframe, ?_⟩
  unfold Delivered
  rw [hframe.log]
  exact h.2

/-- The DELETE with blobs takes only delivered rows when no unmarked row lacks a type. -/
theorem deleteNonBlob_losesNothing {src : Int} {t : UpdateType} {body : PushBody} {w : World}
    (h : Confirmable src t body w) (hok : PushedWhole (.own (.deleteNonBlob src t) w)) :
    LosesNothing (.deleteNonBlob src t) w := by
  intro r hr _
  obtain ⟨hsrc, ht, hnull | ⟨⟨-, htype⟩, hsent⟩⟩ := hr.deletes
  · have hsent : r.sent = 1 := of_decide_eq_true (hok.row hr.1) ⟨hsrc, ht, hnull⟩
    have hnon : NonBlob r := by simp [NonBlob, hnull]
    exact h.2.acknowledged ((h.1 r hr.1 hsrc ht hsent).1 hnon)
  · exact h.2.acknowledged ((h.1 r hr.1 hsrc ht hsent).1 htype)

/-- The DELETE without blobs takes only delivered rows when no sent blob row is empty. -/
theorem deleteSent_losesNothing {src : Int} {t : UpdateType} {body : PushBody} {w : World}
    (h : Confirmable src t body w) (hblobs : ¬ 0 < body.blobs.length)
    (hok : PushedWhole (.own (.deleteSent src t) w)) : LosesNothing (.deleteSent src t) w := by
  intro r hr _
  obtain ⟨hsrc, ht, hsent⟩ := hr.deletes
  obtain ⟨hrows, hfiles⟩ := h.1 r hr.1 hsrc ht hsent
  by_cases hnon : NonBlob r
  · exact h.2.acknowledged (hrows hnon)
  · have hpos := of_decide_eq_true (hok.row hr.1) ⟨hsrc, ht, hsent, hnon⟩
    exact absurd (hfiles hnon hpos) hblobs

theorem delivered_of_ok {src : Int} {t : UpdateType} {body : PushBody} {url : String} {w : World}
    (hok : (w.net w.requests).isOK = true) :
    Delivered body (step (.request (.pushData src t url body.strBody body.rows)) w) := by
  intro n hn
  exact ⟨.pushData src t url body.strBody body.rows, by simp [step, hok], hn⟩

/-- What holds while the body is on its way. -/
def Built (src : Int) (t : UpdateType) (body : PushBody) (w : World) : Prop :=
  Marked src t body w ∧ (0 < body.strBody.length ↔ body.rows ≠ [])

theorem Built.confirmable_of_empty {src : Int} {t : UpdateType} {body : PushBody} {w : World}
    (h : Built src t body w) (hempty : ¬ 0 < body.strBody.length) : Confirmable src t body w := by
  refine ⟨h.1, ?_⟩
  intro n hn
  rw [h.2, not_not] at hempty
  rw [hempty] at hn
  simp at hn

/-- A round of any type, with nothing to remember between rounds. -/
def outline (src : Int) (t : UpdateType) :
    Outline PushedWhole LosesNothing src t (fun _ => True) (fun _ => True) where
  built := Built src t
  sent := Confirmable src t
  pushing := fun _ => True
  pushed := fun _ => True
  failed := fun _ => True
  pre_stable := stable_true
  built_stable := fun b => stable_of_frame
    (fun w w' h hframe => ⟨marked_frame h.1 hframe, h.2⟩)
  sent_stable := confirmable_stable src t
  pushing_stable := stable_true
  pushed_stable := stable_true
  failed_stable := stable_true
  post_stable := stable_true
  build := fun w _ _ => ⟨losesNothing_of_not_deletes (fun _ h => h),
    makePushBody_marked src t w, pushBodyOf_strBody printUInt64 _⟩
  send := fun b w url h _ _ => ⟨losesNothing_of_not_deletes (fun _ h => h),
    fun hyes => ⟨h.1, delivered_of_ok hyes⟩, fun _ => trivial⟩
  skip := fun b w h hempty => h.confirmable_of_empty hempty
  confirmBlobs := by
    rintro b w i h - rfl hok
    refine ⟨?_, trivial⟩
    split
    · exact losesNothing_of_not_deletes (fun _ h => h)
    · rename_i ht
      rw [if_neg ht] at hok
      exact deleteNonBlob_losesNothing h hok
  confirmBody := by
    rintro b w i h hblobs - rfl hok
    refine ⟨?_, trivial⟩
    split
    · exact losesNothing_of_not_deletes (fun _ h => h)
    · rename_i ht
      rw [if_neg ht] at hok
      exact deleteSent_losesNothing h hblobs hok
  nothing := fun _ _ _ _ _ => trivial
  pushFile := fun w _ _ _ _ _ => ⟨losesNothing_of_not_deletes (fun _ h => h), fun _ => trivial,
    fun _ => trivial⟩
  deleteBlob := fun w _ _ _ => ⟨losesNothing_of_not_deletes (fun _ h => h), trivial⟩
  done := fun _ _ => trivial
  fail := fun w _ _ => ⟨losesNothing_of_not_deletes (fun _ h => h), trivial⟩

/-- No run of syncClientChanges against the UI thread removes an update or a delete
that was not pushed in this run, as long as the DELETE statements find no row that
they take without its having been serialised. -/
theorem removed_changes_were_pushed (e : Engine) (this : SyncSource) (w w' : World)
    (ms : List (Move Stmt World UIAction)) (p : Sync SyncSource)
    (hrun : Run step uiStep (syncClientChanges e this) { w with log := [] } ms p w')
    (hwhole : ∀ m ∈ ms, PushedWhole m) :
    ∀ i x r, Move.own i x ∈ ms → Removes i x r →
      r.updateType = .update ∨ r.updateType = .delete → Acknowledged x.log r := by
  have htriple := Outline.loop_invariant (I := fun _ => True) stable_true
    (fun w _ => losesNothing_of_not_deletes (fun _ h => h)) e [.create, .update, .delete] this
    (fun t _ => outline this.id t)
  have hgoal := (Discipline.wp_run hrun (htriple _ trivial) hwhole).1
  intro i x r hmem hr ht
  exact hgoal i x hmem r hr ht

/-- A user edits an object with a picture and a name; both are queued. -/
def queueWithBlob : ChangedTable :=
  (ChangedTable.empty.insert
    (queued 1 (some "7") (some "image_uri") (some "/p.png") (some "blob.file") .update 0)).insert
    (queued 1 (some "7") (some "name") (some "Ann") none .update 0)

def allOK : Nat → NetResponse := fun _ => ⟨true, true, none⟩

def sampleWorld : World := World.start queueWithBlob .empty ⟨[], List.nodup_nil⟩ allOK

/-- While the body is on its way the user saves a new object. -/
def saveInFlight : List (Option UIAction) :=
  [none, none, none, none, none,
    some (.save ⟨1, false, [("object", some "8"), ("name", some "Bob")]⟩), none]

/-- The name goes once it is pushed; the new object stays queued. -/
theorem removed_changes_were_pushed_save_in_flight : ∃ ms p w',
    Run step uiStep (syncClientChanges sampleEngine sampleSource) { sampleWorld with log := [] }
      ms p w' ∧
    (∀ m ∈ ms, PushedWhole m) ∧ w'.changed.rows.map ChangedValue.attrib =
      [some "image_uri", some "name"] ∧
    ∀ i x r, Move.own i x ∈ ms → Removes i x r →
      r.updateType = .update ∨ r.updateType = .delete → Acknowledged x.log r := by
  obtain ⟨ms, p, w', hrun, hcheck⟩ := exists_run_of_play step uiStep saveInFlight
    (syncClientChanges sampleEngine sampleSource) sampleWorld
    (fun r => r.1.all pushedWhole && r.2.2.changed.rows.map ChangedValue.attrib =
      [some "image_uri", some "name"]) (by decide +kernel)
  rw [Bool.and_eq_true, List.all_eq_true] at hcheck
  exact ⟨ms, p, w', hrun, hcheck.1, of_decide_eq_true hcheck.2,
    removed_changes_were_pushed _ _ sampleWorld _ _ _ hrun hcheck.1⟩

/-- A move that removes an edit which was not acknowledged. -/
def isLoss : Move Stmt World UIAction → Bool
  | .own i x => x.changed.rows.any (fun r => Removes i x r ∧
      (r.updateType = .update ∨ r.updateType = .delete) ∧ ¬ Acknowledged x.log r)
  | .env _ _ => false

/-- While the body is on its way the user sets another attribute. -/
def editInFlight : List (Option UIAction) :=
  [none, none, none, none, none,
    some (.updateAttributes ⟨1, false, [("object", some "7")]⟩ [("age", some "4")]), none]

/-- The edit made while the body was on its way is lost. -/
theorem edit_in_flight_is_lost :
    ¬ ∀ (e : Engine) (this : SyncSource) (w w' : World) (ms : List (Move Stmt World UIAction))
      (p : Sync SyncSource),
      Run step uiStep (syncClientChanges e this) { w with log := [] } ms p w' →
      ∀ i x r, Move.own i x ∈ ms → Removes i x r →
        r.updateType = .update ∨ r.updateType = .delete → Acknowledged x.log r := by
  intro h
  obtain ⟨ms, p, w', hrun, hloss⟩ := exists_run_of_play step uiStep editInFlight
    (syncClientChanges sampleEngine sampleSource) sampleWorld (fun r => r.1.any isLoss)
    (by decide +kernel)
  obtain ⟨m, hm, hbad⟩ := List.any_eq_true.mp hloss
  cases m with
  | env u x => cases hbad
  | own i x =>
    obtain ⟨r, -, hr⟩ := List.any_eq_true.mp hbad
    obtain ⟨hremoves, ht, hnot⟩ := of_decide_eq_true hr
    exact hnot (h _ _ sampleWorld _ _ _ hrun i x r hm hremoves ht)

end Rhodes.NoLostChange
