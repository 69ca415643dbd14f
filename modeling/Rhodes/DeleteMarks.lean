import Rhodes.LifeCycle
import Rhodes.PageMerge

/-!
Which rows of changed_values a delete entry marks. The statement looks at main_id alone, and an
entry whose "i" is missing or no number has the id 0, which is the main_id of every row that
was never bound. What main_id a row has goes back to the transaction that brought it in or to
the entry that bound it, so the moves made so far stand beside the state here.
-/
namespace Rhodes.DeleteMarks

open Database Json Statements Interleaving Source Rhom Queue Sessions SyncEngine

abbrev Moves := List (Move Stmt World UIAction)

/-- The main_id of the row was set to what it is: before the run, by the transaction of Rhom that
brought the row in, or by an entry that found it pending. -/
inductive BoundIn (w : World) (past : Moves) (r : ChangedValue) : Prop
  | start (s : ChangedValue) (hs : s ∈ w.changed.rows) (hstamp : s.stamp = r.stamp)
      (hid : s.mainId = r.mainId)
  | rhom (u : UIAction) (x x' : World) (s : ChangedValue) (hmove : .env u x ∈ past)
      (hstep : uiStep u x = some x') (hs : s ∈ x'.changed.rows) (hnew : x.changed.next ≤ s.stamp)
      (hstamp : s.stamp = r.stamp) (hid : s.mainId = r.mainId)
  | entry (src : Int) (object attrib : Option String) (x : World) (s : ChangedValue)
      (hmove : .own (.bindMainId src object attrib r.mainId) x ∈ past) (hs : s ∈ x.changed.rows)
      (hkey : AtKey src object attrib s.object s.attrib s.sourceId) (hpending : s.sent ≤ 1)
      (hstamp : s.stamp = r.stamp)

/-- A push of the row was confirmed. -/
def PushedIn (past : Moves) (r : ChangedValue) : Prop :=
  ∃ i x s, .own i x ∈ past ∧ s ∈ x.changed.rows ∧ s.stamp = r.stamp ∧ s.sent = 1 ∧
    (rowUpdate i s).sent = 2

/-- Each row that a delete entry marks was bound to its id, which is not 0. -/
def MarksBound (w : World) (ms : Moves) : Prop :=
  ∀ past id x rest, ms = past ++ .own (.markDeleted id) x :: rest →
    ∀ r ∈ x.changed.rows, r.mainId = id → id ≠ 0 ∧ BoundIn w past r

/-- A row that was never bound and is dropped at the end of data has been pushed, in the run or
before it. -/
def DropsPushed (w : World) (ms : Moves) : Prop :=
  ∀ past src x rest, ms = past ++ .own (.endOfData src) x :: rest →
    ∀ r ∈ x.changed.rows, Deletes (.endOfData src) r → r.mainId = 0 →
      PushedIn past r ∨ ∃ s ∈ w.changed.rows, s.stamp = r.stamp ∧ 1 < s.sent

theorem BoundIn.append {w : World} {past : Moves} {r : ChangedValue} (h : BoundIn w past r)
    (m : Move Stmt World UIAction) : BoundIn w (past ++ [m]) r := by
  cases h with
  | start s hs hstamp hid => exact .start s hs hstamp hid
  | rhom u x x' s hmove hstep hs hnew hstamp hid =>
    exact .rhom u x x' s (List.mem_append_left _ hmove) hstep hs hnew hstamp hid
  | entry src object attrib x s hmove hs hkey hpending hstamp =>
    exact .entry src object attrib x s (List.mem_append_left _ hmove) hs hkey hpending hstamp

theorem PushedIn.append {past : Moves} {r : ChangedValue} (h : PushedIn past r)
    (m : Move Stmt World UIAction) : PushedIn (past ++ [m]) r := by
  obtain ⟨i, x, s, hmove, hrest⟩ := h
  exact ⟨i, x, s, List.mem_append_left _ hmove, hrest⟩

/-- Only the entry of a page changes a main_id. -/
theorem rowUpdate_mainId (i : Stmt) (r : ChangedValue) : (rowUpdate i r).mainId = r.mainId ∨
    ∃ src object attrib, i = .bindMainId src object attrib (rowUpdate i r).mainId ∧
      AtKey src object attrib r.object r.attrib r.sourceId ∧ r.sent ≤ 1 := by
  cases i
  case bindMainId src object attrib id =>
    simp only [rowUpdate]
    split
    · rename_i hrow
      exact Or.inr ⟨src, object, attrib, rfl, hrow⟩
    · exact Or.inl rfl
  all_goals
    refine Or.inl ?_
    simp only [rowUpdate]
    try split
  all_goals rfl

/-- How a row gets above sent=1: a push of it is confirmed, or a delete entry marks it. -/
theorem rowUpdate_above (i : Stmt) (r : ChangedValue) (h : 1 < (rowUpdate i r).sent) :
    1 < r.sent ∨ (r.sent = 1 ∧ (rowUpdate i r).sent = 2) ∨ i = .markDeleted r.mainId := by
  cases i
  case markDeleted id =>
    simp only [rowUpdate] at h
    split at h
    · rename_i hid
      exact Or.inr (Or.inr (by rw [hid]))
    · exact Or.inl h
  all_goals
    simp only [rowUpdate] at h ⊢
    try split at h
  all_goals simp_all

section Runs

variable {w : World}

/-- The main_id of every row has its history. -/
def AllBound (w : World) (past : Moves) (x : World) : Prop :=
  ∀ r ∈ x.changed.rows, BoundIn w past r

theorem allBound_step {past : Moves} {x : World} (h : AllBound w past x) (i : Stmt) :
    AllBound w (past ++ [.own i x]) (step i x) := by
  intro r hr
  obtain ⟨s, hs, -, rfl⟩ := (mem_step i x r).mp hr
  have hstamp : s.stamp = (rowUpdate i s).stamp := (rowUpdate_sameEdit i s).stamp.symm
  rcases rowUpdate_mainId i s with hid | ⟨src, object, attrib, hi, hkey, hpending⟩
  · have hold := (h s hs).append (.own i x)
    cases hold with
    | start q hq hqstamp hqid =>
      exact .start q hq (hqstamp.trans hstamp) (hqid.trans hid.symm)
    | rhom u y y' q hmove hstep hq hnew hqstamp hqid =>
      exact .rhom u y y' q hmove hstep hq hnew (hqstamp.trans hstamp) (hqid.trans hid.symm)
    | entry src object attrib y q hmove hq hkey hpending hqstamp =>
      rw [← hid] at hmove
      exact .entry src object attrib y q hmove hq hkey hpending (hqstamp.trans hstamp)
  · refine .entry src object attrib x s ?_ hs hkey hpending hstamp
    rw [← hi]
    exact List.mem_append_right _ (List.mem_singleton_self _)

theorem allBound_uiStep {past : Moves} {u : UIAction} {x x' : World} (h : AllBound w past x)
    (hu : uiStep u x = some x') : AllBound w (past ++ [.env u x]) x' := by
  intro r hr
  rcases (uiStep_frame u x x' hu).changed.rows r hr with hold | ⟨hnew, -⟩
  · exact (h r hold).append _
  · exact .rhom u x x' r (List.mem_append_right _ (List.mem_singleton_self _)) hu hr hnew rfl rfl

/-- A row that was never bound is only above sent=1 after a push. -/
def UnboundPushed (w : World) (past : Moves) (x : World) : Prop :=
  ∀ r ∈ x.changed.rows, 1 < r.sent → r.mainId = 0 →
    PushedIn past r ∨ ∃ s ∈ w.changed.rows, s.stamp = r.stamp ∧ 1 < s.sent

theorem unboundPushed_step {past : Moves} {x : World} {i : Stmt} (h : UnboundPushed w past x)
    (hmark : i = .markDeleted 0 → ∀ r ∈ x.changed.rows, r.mainId ≠ 0) :
    UnboundPushed w (past ++ [.own i x]) (step i x) := by
  intro r hr hsent hzero
  obtain ⟨s, hs, -, rfl⟩ := (mem_step i x r).mp hr
  have hstamp : s.stamp = (rowUpdate i s).stamp := (rowUpdate_sameEdit i s).stamp.symm
  rcases rowUpdate_above i s hsent with habove | ⟨hone, htwo⟩ | hmarked
  · have hid : s.mainId = 0 := by
      rcases rowUpdate_mainId i s with hid | ⟨_, _, _, -, -, hpending⟩
      · rw [← hid, hzero]
      · exact absurd habove (by omega)
    rcases h s hs habove hid with hpushed | ⟨q, hq, hqstamp, hqsent⟩
    · obtain ⟨j, y, q, hmove, hq, hqstamp, hrest⟩ := hpushed.append (.own i x)
      exact Or.inl ⟨j, y, q, hmove, hq, hqstamp.trans hstamp, hrest⟩
    · exact Or.inr ⟨q, hq, hqstamp.trans hstamp, hqsent⟩
  · exact Or.inl ⟨i, x, s, List.mem_append_right _ (List.mem_singleton_self _), hs, hstamp, hone,
      htwo⟩
  · have hid : s.mainId = 0 := by
      rw [hmarked] at hzero
      simpa [rowUpdate] using hzero
    rw [hid] at hmarked
    exact absurd hid (hmark hmarked s hs)

theorem unboundPushed_uiStep {past : Moves} {u : UIAction} {x x' : World}
    (h : UnboundPushed w past x) (hu : uiStep u x = some x') :
    UnboundPushed w (past ++ [.env u x]) x' := by
  intro r hr hsent hzero
  rcases (uiStep_frame u x x' hu).changed.rows r hr with hold | ⟨-, hnew⟩
  · exact (h r hold hsent hzero).imp_left (fun hpushed => hpushed.append _)
  · omega

variable {α : Type} {p q : Sync α} {w' : World} {ms : Moves}

theorem run_allBound (hrun : Run step uiStep p w ms q w') :
    ∀ past m rest, ms = past ++ m :: rest → AllBound w past m.state := by
  have hstart : AllBound w [] w := fun r hr => .start r hr rfl rfl
  exact Run.history hrun hstart (fun _ i _ _ h => allBound_step h i)
    (fun _ _ _ _ _ hu h => allBound_uiStep h hu)

theorem run_unboundPushed (hrun : Run step uiStep p w ms q w')
    (hmark : ∀ x, .own (.markDeleted 0) x ∈ ms → ∀ r ∈ x.changed.rows, r.mainId ≠ 0) :
    ∀ past m rest, ms = past ++ m :: rest → UnboundPushed w past m.state := by
  have hstart : UnboundPushed w [] w := fun r hr hsent _ => Or.inr ⟨r, hr, rfl, hsent⟩
  exact Run.history hrun hstart
    (fun _ _ x hmove h => unboundPushed_step h (fun hi => hmark x (hi ▸ hmove)))
    (fun _ _ _ _ _ hu h => unboundPushed_uiStep h hu)

/-- In a run of any program of the sync thread. -/
theorem run_marks_iff (hrun : Run step uiStep p w ms q w') :
    (MarksBound w ms ∧ DropsPushed w ms) ↔
      ∀ x, .own (.markDeleted 0) x ∈ ms → ∀ r ∈ x.changed.rows, r.mainId ≠ 0 := by
  constructor
  · rintro ⟨hbound, -⟩ x hmove r hr hid
    obtain ⟨past, rest, hms⟩ := List.append_of_mem hmove
    exact (hbound past 0 x rest hms r hr hid).1 rfl
  · intro hmark
    constructor
    · intro past id x rest hms r hr hid
      refine ⟨?_, run_allBound hrun past _ rest hms r hr⟩
      rintro rfl
      have hmove : .own (.markDeleted 0) x ∈ ms := by simp [hms]
      exact hmark x hmove r hr hid
    · intro past src x rest hms r hr hdrop hid
      have hsent : 1 < r.sent := by
        have hthree : r.sent ≥ 3 := hdrop.2
        omega
      exact run_unboundPushed hrun hmark past _ rest hms r hr hsent hid

end Runs

/-- In every run of the sync engine against the UI thread, delete entries mark only what is
bound to their ids, and the end of data drops nothing that was neither bound nor pushed, just
where no entry with the id 0 is handled while a row without main_id is queued. -/
theorem delete_entries_mark_bound_iff (fuel : Nat) (config : Config) (pageSize : Int)
    (commands : List Command) (w w' : World) (ms : Moves) (p : Sync Unit)
    (hrun : Run step uiStep (processCommands fuel config pageSize commands) w ms p w') :
    (MarksBound w ms ∧ DropsPushed w ms) ↔
      ∀ x, .own (.markDeleted 0) x ∈ ms → ∀ r ∈ x.changed.rows, r.mainId ≠ 0 :=
  run_marks_iff hrun

/-- A page with one delete entry, and no more data after it. -/
def deletePage (entry : JsonObject) : Nat → NetResponse
  | 0 => ⟨true, true, some (.array [.object [("count", .int 1)], .object [("version", .int 1)],
      .object [("total_count", .int 1)], .object [("token", .int 7)],
      .object [("s", .string "RhoDeleteSource"), ("ol", .array [.object [("o", .string "o2"),
        ("av", .array [entry])]])]])⟩
  | _ => ⟨true, true, some (.array [.object [("count", .int 0)]])⟩

/-- The entry marks a row. -/
def marks (id : Int64) : Move Stmt World UIAction → Bool
  | .own (.markDeleted i) x => i = id && x.changed.rows.any (fun r => r.mainId = id)
  | _ => false

theorem marks_iff (id : Int64) (m : Move Stmt World UIAction) :
    marks id m = true ↔
      ∃ x, m = .own (.markDeleted id) x ∧ ∃ r ∈ x.changed.rows, r.mainId = id := by
  constructor
  · intro h
    unfold marks at h
    split at h
    · rename_i i x
      rw [Bool.and_eq_true, List.any_eq_true] at h
      obtain ⟨hi, r, hr, hid⟩ := h
      exact ⟨x, by rw [of_decide_eq_true hi], r, hr, of_decide_eq_true hid⟩
    · cases h
  · rintro ⟨x, rfl, r, hr, hid⟩
    rw [marks, Bool.and_eq_true, List.any_eq_true]
    exact ⟨decide_eq_true rfl, r, hr, decide_eq_true hid⟩

/-- An age that was edited while its row is deleted. -/
theorem delete_entries_mark_bound_iff_edited : ∃ ms p w',
    Run step uiStep (processCommands 3 smallConfig 2000 [.syncOne 1 ""])
      (smallWorld .empty PageMerge.sampleTable (deletePage (.object [("i", .int 11)]))) ms p w' ∧
    ms.any (marks 11) = true ∧
    MarksBound (smallWorld .empty PageMerge.sampleTable (deletePage (.object [("i", .int 11)])))
      ms := by
  obtain ⟨ms, p, w', hrun, hcheck⟩ := exists_run_of_play step uiStep
    (List.replicate 10 none ++
      [some (.save ⟨1, false, [("object", some "o1"), ("age", some "5")]⟩)] ++
      List.replicate 28 none)
    (processCommands 3 smallConfig 2000 [.syncOne 1 ""])
    (smallWorld .empty PageMerge.sampleTable (deletePage (.object [("i", .int 11)])))
    (fun r => r.1.any (marks 11) && r.1.all (fun m => !marks 0 m)) (by decide +kernel)
  rw [Bool.and_eq_true, List.all_eq_true] at hcheck
  refine ⟨ms, p, w', hrun, hcheck.1, ?_⟩
  refine ((delete_entries_mark_bound_iff _ _ _ _ _ _ _ _ hrun).mpr ?_).1
  intro x hmove r hr hid
  have hnone := hcheck.2 _ hmove
  rw [(marks_iff 0 _).mpr ⟨x, rfl, r, hr, hid⟩] at hnone
  cases hnone

/-- An object is destroyed while a page comes in that has a delete entry without "i": the queued
delete is marked, and at the end of data it is gone, though nothing was pushed. -/
theorem destroy_dropped : ∃ ms p w',
    Run step uiStep (processCommands 3 smallConfig 2000 [.syncOne 1 ""])
      (smallWorld .empty PageMerge.sampleTable (deletePage (.object []))) ms p w' ∧
    ms.any (marks 0) = true ∧ w'.changed.rows = [] ∧
    w'.log.all (fun e => match e with
      | .answered q _ => Request.pushed q = []
      | _ => true) = true ∧
    ¬MarksBound (smallWorld .empty PageMerge.sampleTable (deletePage (.object []))) ms := by
  obtain ⟨ms, p, w', hrun, hcheck⟩ := exists_run_of_play step uiStep
    (List.replicate 10 none ++ [some (.destroy ⟨1, false, [("object", some "o1")]⟩)] ++
      List.replicate 28 none)
    (processCommands 3 smallConfig 2000 [.syncOne 1 ""])
    (smallWorld .empty PageMerge.sampleTable (deletePage (.object [])))
    (fun r => r.1.any (marks 0) && (r.2.2.changed.rows = [] && r.2.2.log.all (fun e => match e with
      | .answered q _ => Request.pushed q = []
      | _ => true))) (by decide +kernel)
  rw [Bool.and_eq_true, Bool.and_eq_true] at hcheck
  refine ⟨ms, p, w', hrun, hcheck.1, of_decide_eq_true hcheck.2.1, hcheck.2.2, ?_⟩
  intro hbound
  obtain ⟨m, hmove, hmark⟩ := List.any_eq_true.mp hcheck.1
  obtain ⟨x, rfl, r, hr, hid⟩ := (marks_iff 0 m).mp hmark
  obtain ⟨past, rest, hms⟩ := List.append_of_mem hmove
  exact (hbound past 0 x rest hms r hr hid).1 rfl

end Rhodes.DeleteMarks
