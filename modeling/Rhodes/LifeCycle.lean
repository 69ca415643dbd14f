import Rhodes.PushRound
import Rhodes.Sessions

/-!
The life cycle of a queued change. `SentMove` is the state machine that the
UPDATE statements on changed_values implement together: 0 to 1 when a body is
built, 1 to 2 when the creates of the source have been accepted, above 1 to 4 by
an entry for the same object and attribute, and to 3 by a delete entry. Every
statement of the engine moves every row along it, whatever the UI thread does.
-/
namespace Rhodes.LifeCycle

open Database Json Statements Queue Interleaving Source ClientChanges ServerChanges SyncEngine Rhom
  Threads PushRound PullRules Sessions

/-- The last request was a push of creates of the source, and it was accepted. -/
def CreatesAccepted (src : Int) (w : World) : Prop :=
  ∃ url body rows, w.log.getLast? = some (.answered (.pushData src .create url body rows) true)

/-- How a statement may change the `sent` of a row it finds. -/
def SentMove : Stmt → World → ChangedValue → Int → Prop
  | .makePushBody src t, _, r, n => r.sourceId = src ∧ r.updateType = t ∧ r.sent = 0 ∧ n = 1
  | .confirmNonBlob src t, w, r, n => r.sourceId = src ∧ r.updateType = t ∧ t = .create ∧
      r.sent = 1 ∧ n = 2 ∧ CreatesAccepted src w
  | .confirmSent src t, w, r, n => r.sourceId = src ∧ r.updateType = t ∧ t = .create ∧
      r.sent = 1 ∧ n = 2 ∧ CreatesAccepted src w
  | .confirmEntry src object attrib, _, r, n =>
      AtKey src object attrib r.object r.attrib r.sourceId ∧ r.sent > 1 ∧ n = 4
  | .markDeleted id, _, r, n => r.mainId = id ∧ n = 3
  | _, _, _, _ => False

/-- The statement moves rows along the state machine, inserts none, and removes a
create only at the end of data of its source. -/
structure Lawful (i : Stmt) (w : World) : Prop where
  moves : ∀ r ∈ (step i w).changed.rows, ∃ s ∈ w.changed.rows, s.stamp = r.stamp ∧
    (r.sent = s.sent ∨ SentMove i w s r.sent)
  creates : ∀ r, Removes i w r → r.updateType = .create →
    i = .endOfData r.sourceId ∧ 3 ≤ r.sent ∧ ∃ data, LastPage r.sourceId data w ∧ EndOfData data

/-- It is enough to look at one row. -/
theorem Lawful.of_rows {i : Stmt} {w : World}
    (hmove : ∀ r ∈ w.changed.rows, ¬ Deletes i r →
      (rowUpdate i r).sent = r.sent ∨ SentMove i w r (rowUpdate i r).sent)
    (hcreate : ∀ r, Deletes i r → r.updateType = .create → i = .endOfData r.sourceId ∧ 3 ≤ r.sent ∧
      ∃ data, LastPage r.sourceId data w ∧ EndOfData data) : Lawful i w := by
  refine ⟨?_, fun r hr ht => hcreate r hr.deletes ht⟩
  intro r hr
  obtain ⟨s, hs, hstay, rfl⟩ := (mem_step i w r).mp hr
  exact ⟨s, hs, (rowUpdate_sameEdit i s).stamp.symm, hmove s hs hstay⟩

/-- Outside of syncClientChanges only the entries of a page move a row. -/
theorem lawful_quiet {i : Stmt} {w : World} (hquiet : Quiet i) : Lawful i w := by
  refine Lawful.of_rows ?_ ?_
  · rintro r - -
    cases i
    case confirmEntry src object attrib =>
      by_cases hrow : AtKey src object attrib r.object r.attrib r.sourceId ∧ r.sent > 1
      · exact Or.inr (by simp [rowUpdate, hrow, SentMove])
      · exact Or.inl (by simp only [rowUpdate, if_neg hrow])
    case markDeleted id =>
      by_cases hrow : r.mainId = id
      · exact Or.inr (by simp [rowUpdate, hrow, SentMove])
      · exact Or.inl (by simp only [rowUpdate, if_neg hrow])
    case renameChanged src old new =>
      simp only [rowUpdate]
      split <;> exact Or.inl rfl
    case bindMainId src object attrib id =>
      simp only [rowUpdate]
      split <;> exact Or.inl rfl
    all_goals first | exact hquiet.elim | exact Or.inl rfl
  · intro r hr _
    cases i
    all_goals first | exact hquiet.elim | exact hr.elim

/-- A statement that changes no row of changed_values. -/
theorem lawful_untouched {i : Stmt} {w : World} (hrow : ∀ r, rowUpdate i r = r)
    (hdel : ∀ r, ¬ Deletes i r) : Lawful i w :=
  Lawful.of_rows (fun r _ _ => Or.inl (by rw [hrow])) (fun r hr => absurd hr (hdel r))

theorem lawful_makePushBody (src : Int) (t : UpdateType) (w : World) :
    Lawful (.makePushBody src t) w := by
  refine Lawful.of_rows ?_ (fun _ hr => hr.elim)
  intro r _ _
  by_cases hrow : r.sourceId = src ∧ r.updateType = t ∧ r.sent = 0
  · exact Or.inr (by simp [rowUpdate, hrow, SentMove])
  · exact Or.inl (by simp only [rowUpdate, if_neg hrow])

/-- A marked row that is no blob is in the body. -/
def Built (src : Int) (t : UpdateType) (b : PushBody) (w : World) : Prop :=
  ∀ r ∈ w.changed.rows, r.sourceId = src → r.updateType = t → NonBlob r → r.sent = 1 →
    0 < b.strBody.length

theorem Built.frame {src : Int} {t : UpdateType} {b : PushBody} {w w' : World}
    (h : Built src t b w) (hframe : Frame w w') : Built src t b w' := by
  intro r hr hsrc ht hnon hsent
  rcases hframe.changed.rows r hr with hold | ⟨-, hzero⟩
  · exact h r hold hsrc ht hnon hsent
  · omega

theorem makePushBody_built (src : Int) (t : UpdateType) (w : World) :
    Built src t (pushBodyOf printUInt64 (selectPush w.changed src t))
      (step (.makePushBody src t) w) := by
  intro r hr hsrc ht hnon hsent
  obtain ⟨s, hs, -, rfl⟩ := (mem_step _ w r).mp hr
  have hsame := rowUpdate_sameEdit (.makePushBody src t) s
  have hle : s.sent ≤ 1 := by
    by_contra hgt
    have := rowUpdate_gt_one (i := .makePushBody src t) (r := s) (by omega)
    omega
  have hsel : s ∈ selectPush w.changed src t := (mem_selectPush _ _ _ _).mpr
    ⟨hs, hsame.sourceId.symm.trans hsrc, hsame.updateType.symm.trans ht, hle⟩
  rw [pushBodyOf_strBody, pushBodyOf_rows]
  exact List.ne_nil_of_mem (List.mem_filter.mpr ⟨hsel, by simpa using hsame.nonBlob.mp hnon⟩)

/-- What holds once the body is through. -/
def Through (src : Int) (t : UpdateType) (b : PushBody) (w : World) : Prop :=
  Built src t b w ∧ (t = .create → 0 < b.strBody.length → CreatesAccepted src w)

theorem Through.confirmNonBlob {src : Int} {b : PushBody} {w : World}
    (h : Through src .create b w) : Lawful (.confirmNonBlob src .create) w := by
  refine Lawful.of_rows ?_ (fun _ hr => hr.elim)
  intro r hr _
  by_cases hrow : r.sourceId = src ∧ r.updateType = .create ∧ NonBlob r ∧ r.sent = 1
  · obtain ⟨hsrc, ht, hnon, hsent⟩ := hrow
    have hbody := h.1 r hr hsrc ht hnon hsent
    exact Or.inr (by simpa [rowUpdate, hsrc, ht, hnon, hsent, SentMove] using h.2 rfl hbody)
  · exact Or.inl (by simp only [rowUpdate, if_neg hrow])

theorem Through.confirmSent {src : Int} {b : PushBody} {w : World}
    (h : Through src .create b w) (hbody : 0 < b.strBody.length) :
    Lawful (.confirmSent src .create) w := by
  refine Lawful.of_rows ?_ (fun _ hr => hr.elim)
  intro r hr _
  by_cases hrow : r.sourceId = src ∧ r.updateType = .create ∧ r.sent = 1
  · exact Or.inr (by simpa [rowUpdate, hrow, SentMove] using h.2 rfl hbody)
  · exact Or.inl (by simp only [rowUpdate, if_neg hrow])

theorem lawful_deleteNonBlob {src : Int} {t : UpdateType} {w : World} (ht : t ≠ .create) :
    Lawful (.deleteNonBlob src t) w :=
  Lawful.of_rows (fun _ _ _ => Or.inl rfl) (fun _ hr hc => absurd (hr.2.1.symm.trans hc) ht)

theorem lawful_deleteSent {src : Int} {t : UpdateType} {w : World} (ht : t ≠ .create) :
    Lawful (.deleteSent src t) w :=
  Lawful.of_rows (fun _ _ _ => Or.inl rfl) (fun _ hr hc => absurd (hr.2.1.symm.trans hc) ht)

theorem lawful_deleteAsk {src : Int} {askParams : String} {w : World} :
    Lawful (.deleteAsk src askParams) w := by
  apply Lawful.of_rows (fun _ _ _ => Or.inl rfl)
  intro r hr ht
  have hask : r.updateType = .ask := hr.2
  rw [ht] at hask
  cases hask

theorem lawful_endOfData {src : Int} {data : Option JsonObject} {w : World}
    (hpage : LastPage src data w) (hend : EndOfData data) : Lawful (.endOfData src) w := by
  apply Lawful.of_rows (fun _ _ _ => Or.inl rfl)
  rintro r ⟨rfl, hsent⟩ -
  exact ⟨rfl, hsent, data, hpage, hend⟩

/-- No move of a run is excluded. -/
def Anything (_ : Move Stmt World UIAction) : Prop := True

def outline (src : Int) (t : UpdateType) :
    Outline Anything Lawful src t (fun _ => True) (fun _ => True) where
  built := Built src t
  sent := Through src t
  pushing := fun _ => True
  pushed := fun _ => True
  failed := fun _ => True
  pre_stable := stable_true
  built_stable := fun _ => stable_of_frame (fun _ _ h hframe => h.frame hframe)
  sent_stable := fun _ => stable_of_frame (fun _ _ h hframe =>
    ⟨h.1.frame hframe, by simpa only [CreatesAccepted, hframe.log] using h.2⟩)
  pushing_stable := stable_true
  pushed_stable := stable_true
  failed_stable := stable_true
  post_stable := stable_true
  build := fun w _ _ => ⟨lawful_makePushBody src t w, makePushBody_built src t w⟩
  send := by
    intro b w url h _ _
    refine ⟨lawful_untouched (fun _ => rfl) (fun _ hr => hr), fun hyes => ⟨h, ?_⟩, fun _ => trivial⟩
    rintro rfl _
    exact ⟨_, _, _, request_last hyes⟩
  skip := fun b w h hempty => ⟨h, fun _ hbody => absurd hbody hempty⟩
  confirmBlobs := by
    rintro b w i h - rfl _
    refine ⟨?_, trivial⟩
    by_cases ht : t = .create
    · subst ht
      exact h.confirmNonBlob
    · rw [if_neg ht]
      exact lawful_deleteNonBlob ht
  confirmBody := by
    rintro b w i h - hbody rfl _
    refine ⟨?_, trivial⟩
    by_cases ht : t = .create
    · subst ht
      exact h.confirmSent hbody
    · rw [if_neg ht]
      exact lawful_deleteSent ht
  nothing := fun _ _ _ _ _ => trivial
  pushFile := fun w _ _ _ _ _ => ⟨lawful_untouched (fun _ => rfl) (fun _ hr => hr),
    fun _ => trivial, fun _ => trivial⟩
  deleteBlob := fun w _ _ _ => ⟨lawful_untouched (fun _ => rfl) (fun _ hr => hr), trivial⟩
  done := fun _ _ => trivial
  fail := fun w _ _ => ⟨lawful_untouched (fun _ => rfl) (fun _ hr => hr), trivial⟩

theorem kept : Kept Anything Lawful (fun _ => True) where
  stable := stable_true
  quiet := fun _ _ hquiet _ _ => ⟨lawful_quiet hquiet, trivial⟩
  endOfData := fun _ _ _ _ hpage hend _ => ⟨lawful_endOfData hpage hend, trivial⟩
  ask := fun _ _ _ _ _ => ⟨lawful_deleteAsk, trivial⟩
  push := by
    intro e this
    have htriple := Outline.loop_invariant (I := fun _ => True) stable_true
      (fun w _ => lawful_quiet trivial) e [.create, .update, .delete] this
      (fun t _ => outline this.id t)
    exact htriple.conseq (fun _ _ => trivial) (fun _ _ _ => trivial)

/-- From one state of a run to a later one: a row still there, once above sent=1,
is above it. -/
structure NeverBack (x y : World) : Prop where
  next_le : x.changed.next ≤ y.changed.next
  rows : ∀ r ∈ y.changed.rows, x.changed.next ≤ r.stamp ∨
    ∃ s ∈ x.changed.rows, s.stamp = r.stamp ∧ (1 < s.sent → 1 < r.sent)

theorem NeverBack.trans {x y z : World} (h : NeverBack x y) (h' : NeverBack y z) :
    NeverBack x z := by
  refine ⟨le_trans h.next_le h'.next_le, ?_⟩
  intro r hr
  rcases h'.rows r hr with hnew | ⟨s, hs, hstamp, hsent⟩
  · exact Or.inl (le_trans h.next_le hnew)
  · rcases h.rows s hs with hnew | ⟨q, hq, hstamp', hsent'⟩
    · exact Or.inl (by omega)
    · exact Or.inr ⟨q, hq, hstamp'.trans hstamp, fun hgt => hsent (hsent' hgt)⟩

theorem neverBack_step (i : Stmt) (w : World) : NeverBack w (step i w) := by
  refine ⟨le_of_eq (step_next i w).symm, ?_⟩
  intro r hr
  obtain ⟨s, hs, -, rfl⟩ := (mem_step i w r).mp hr
  exact Or.inr ⟨s, hs, (rowUpdate_sameEdit i s).stamp.symm, fun hgt => rowUpdate_gt_one hgt⟩

theorem neverBack_uiStep (u : UIAction) (w w' : World) (h : uiStep u w = some w') :
    NeverBack w w' := by
  have hlater := (uiStep_frame u w w' h).changed
  refine ⟨hlater.next_le, ?_⟩
  intro r hr
  rcases hlater.rows r hr with hold | ⟨hnew, -⟩
  · exact Or.inr ⟨r, hold, rfl, id⟩
  · exact Or.inl hnew

/-- The same row, found again, is above sent=1 if it was. -/
theorem NeverBack.sent {x y : World} (h : NeverBack x y) {r s : ChangedValue}
    (hs : s ∈ x.changed.rows) (hr : r ∈ y.changed.rows) (hstamp : r.stamp = s.stamp)
    (hsent : 1 < s.sent) : 1 < r.sent := by
  rcases h.rows r hr with hnew | ⟨q, hq, hqstamp, hgt⟩
  · have hfresh := x.changed.fresh s hs
    omega
  · have heq := x.changed.eq_of_stamp hq hs (hqstamp.trans hstamp)
    exact hgt (heq ▸ hsent)

/-- The life cycle of a queued change, over every list of commands, all answers of
the server and all actions of the UI thread. A row comes in with sent=0; the engine
moves it along `SentMove` only and never inserts one; a create is removed by the
engine only at sent>=3 and at the end of data of its own source; and a row above
sent=1 stays above it. -/
theorem sent_follows_life_cycle (fuel : Nat) (config : Config) (pageSize : Int)
    (commands : List Command) (w w' : World) (ms : List (Move Stmt World UIAction))
    (p : Sync Unit)
    (hrun : Run step uiStep (processCommands fuel config pageSize commands) w ms p w') :
    (∀ u x x', Move.env u x ∈ ms → uiStep u x = some x' → ∀ r ∈ x'.changed.rows,
      r ∈ x.changed.rows ∨ (r.sent = 0 ∧ ∀ s ∈ x.changed.rows, s.stamp ≠ r.stamp)) ∧
    (∀ i x, Move.own i x ∈ ms → Lawful i x) ∧
    (ms.map Move.state ++ [w']).Pairwise (fun x y => ∀ s ∈ x.changed.rows,
      ∀ r ∈ y.changed.rows, r.stamp = s.stamp → 1 < s.sent → 1 < r.sent) := by
  refine ⟨?_, ?_, ?_⟩
  · intro u x x' _ hu r hr
    rcases (uiStep_frame u x x' hu).changed.rows r hr with hold | ⟨hnew, hzero⟩
    · exact Or.inl hold
    · refine Or.inr ⟨hzero, fun s hs => ?_⟩
      have hfresh := x.changed.fresh s hs
      omega
  · have htriple := (kept.engine fuel).processCommands config pageSize commands
    exact (Discipline.wp_run hrun (htriple w trivial) (fun _ _ => trivial)).1
  · have hpair := (Run.pairwise (R := NeverBack)
      (fun x => ⟨le_rfl, fun r hr => Or.inr ⟨r, hr, rfl, id⟩⟩)
      (fun _ _ _ h h' => h.trans h') neverBack_step neverBack_uiStep hrun).1
    apply hpair.imp
    intro x y h s hs r hr hstamp hsent
    exact h.sent hs hr hstamp hsent

/-- A new object with one attribute, queued by save. -/
def createWorld : World :=
  smallWorld (ChangedTable.empty.insert (queued 1 (some "7") (some "name") (some "Ann") none .create 1))
    .empty acceptAll

/-- The new object is accepted and waits for its entry at sent=2. -/
theorem sent_follows_life_cycle_create : ∃ ms p w',
    Run step uiStep (processCommands 3 smallConfig 2000 [.syncOne 1 ""]) createWorld ms p w' ∧
    w'.changed.rows.map ChangedValue.sent = [2] ∧ (∀ i x, Move.own i x ∈ ms → Lawful i x) := by
  obtain ⟨ms, p, w', hrun, hcheck⟩ := exists_run_of_play step uiStep (List.replicate 14 none)
    (processCommands 3 smallConfig 2000 [.syncOne 1 ""]) createWorld
    (fun r => r.2.2.changed.rows.map ChangedValue.sent = [2]) (by decide +kernel)
  exact ⟨ms, p, w', hrun, of_decide_eq_true hcheck,
    (sent_follows_life_cycle _ _ _ _ _ _ _ _ hrun).2.1⟩

end Rhodes.LifeCycle
