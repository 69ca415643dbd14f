import Mathlib
import Rhodes.FailStop

/-!
When a round reports its completion. syncAllSources fires "Sync completed." unless the
last source it came to has an error code; a stop by another thread, a stop before its
first test and a sync() that gives up all end the round without one. Where none of these
happens, the report is true: every source from the first one with a token on has been
synced to its end without an error, and the engine was never stopped.
-/
namespace Rhodes.CompletedRound

open Statements Interleaving Source SyncEngine Rhom Threads StateWrites Rounds FailStop

/-- No statement of a round and no other thread lets a stopped engine go on. -/
theorem stopped_step {i : Stmt} (hi : Working i) {w : World} (h : Stopped w) :
    Stopped (step i w) := by
  unfold Stopped
  rw [step_syncState]
  cases i with
  | setState s =>
    rw [show s = .esStop from hi]
    rfl
  | _ => exact h

theorem syncAllSourcesRecorded_working (fuel : Nat) (e : Engine) :
    (syncAllSourcesRecorded fuel e).Only Working := by
  have hround := syncAllSources_working fuel e
  rw [← syncAllSourcesRecorded_eq] at hround
  exact hround.of_bind

/-- A round that reports its completion is complete, where it starts on an engine that goes
on, no other thread stops the engine in it and no source gives up on pending creates. -/
theorem completed_round (fuel : Nat) (e : Engine)
    (hcodes : ∀ src ∈ e.sources, src.errCode = .errNone) {s t : World} {r : RoundRecord}
    {ms : List (Move Stmt World UIAction)} (hgo : ¬ Stopped s)
    (hrun : Run step uiStep (syncAllSourcesRecorded fuel e) s ms (.ret r) t)
    (hcalm : ∀ u x, Move.env u x ∈ ms → u.stops = false)
    (hgave : ∀ rec ∈ r.records, rec.gaveUp = false) (hfired : r.completed = true) :
    (syncAllSourcesRecorded fuel e).bind (fun _ => .ret ()) = syncAllSources fuel e ∧
    r.records.map SourceRecord.source = e.sources.drop (getStartSource e.sources) ∧
    (∀ rec ∈ r.records, rec.ran = true ∧ rec.src.errCode = .errNone) ∧
    ∀ x ∈ ms.map Move.state ++ [t], ¬ Stopped x := by
  have hstart : Sound s.log.length true false s := sound_start (fun _ => hgo)
  have hwp := syncAllSourcesRecorded_triple fuel e hcodes s hstart
  have hok : ∀ m ∈ ms, StopsOnlyIf true m := by
    intro m hm
    cases m with
    | env u x => exact fun _ => hcalm u x hm
    | own i x => trivial
  have hend := (Discipline.wp_run hrun hwp hok).2 r rfl
  obtain ⟨hsources, hall, hstill⟩ := hend.complete rfl hgave (by rw [hfired]; rfl)
  refine ⟨syncAllSourcesRecorded_eq fuel e, hsources, fun rec hrec => ?_, ?_⟩
  · obtain ⟨hran, herr⟩ := hall rec hrec
    exact ⟨hran, by simpa [hasError] using herr⟩
  · -- Had the engine stopped before, it would still be stopped at the end.
    have hworking := hrun.only (syncAllSourcesRecorded_working fuel e)
    have hpair := (Run.pairwise_of_moves (R := fun x y => Stopped x → Stopped y) (fun _ h => h)
      (fun _ _ _ h h' => h' ∘ h) hrun (fun i x hx => stopped_step (hworking i x hx))
      (fun u x x' _ hu h => stopped_frame h (uiStep_frame u x x' hu))).1
    intro x hx hstop
    rcases List.mem_append.mp hx with hx | hx
    · exact hstill ((List.pairwise_append.mp hpair).2.2 x hx t (by simp) hstop)
    · rw [List.mem_singleton.mp hx] at hstop
      exact hstill hstop

/-- The small engine with a server that accepts everything. -/
def reachable : World := World.start .empty .empty .empty (fun _ => ⟨true, true, none⟩)

theorem reachable_goes_on : ¬ Stopped reachable := Bool.noConfusion

/-- The small engine once the user has stopped it. -/
def userStopped : World := { reachable with syncState := .esStop, stopByUser := true }

/-- A stop by the user before the first source: no source is synced, and the round reports
its completion. -/
theorem completed_without_sync :
    ∃ (ms : List (Move Stmt World UIAction)) (r : RoundRecord) (t : World),
    ¬ Stopped reachable ∧ (∀ src ∈ sampleEngine.sources, src.errCode = .errNone) ∧
    Run step uiStep (syncAllSourcesRecorded 1 sampleEngine) reachable ms (.ret r) t ∧
    Move.own (.notify syncCompleted) userStopped ∈ ms ∧ r.completed = true ∧ Stopped t ∧
    r.records.map SourceRecord.source ≠
      sampleEngine.sources.drop (getStartSource sampleEngine.sources) := by
  refine ⟨[.env .stopSyncByUser reachable, .own .read userStopped,
      .own (.notify syncCompleted) userStopped], ⟨true, []⟩,
    step (.notify syncCompleted) userStopped, reachable_goes_on, by decide,
    Run.env rfl (Run.own (Run.own (Run.nil _ _))), by simp, rfl, rfl, ?_⟩
  decide

/-- The round of the small engine, whose server has no data. -/
theorem completed_round_reachable :
    ∃ (ms : List (Move Stmt World UIAction)) (r : RoundRecord) (t : World),
    (¬ Stopped reachable ∧ (∀ src ∈ sampleEngine.sources, src.errCode = .errNone) ∧
      (∀ u x, Move.env u x ∈ ms → u.stops = false) ∧ (∀ rec ∈ r.records, rec.gaveUp = false) ∧
      r.completed = true) ∧
    r.records.map SourceRecord.source =
      sampleEngine.sources.drop (getStartSource sampleEngine.sources) ∧
    ∀ x ∈ ms.map Move.state ++ [t], ¬ Stopped x := by
  have hcodes : ∀ src ∈ sampleEngine.sources, src.errCode = .errNone := by decide
  obtain ⟨ms, hrun, hown⟩ := run_exec step uiStep (syncAllSourcesRecorded 2 sampleEngine) reachable
  have hcalm : ∀ u x, Move.env u x ∈ ms → u.stops = false := by
    intro u x hx
    obtain ⟨i, y, heq⟩ := hown _ hx
    cases heq
  have hgave : ∀ rec ∈ ((syncAllSourcesRecorded 2 sampleEngine).exec step reachable).1.records,
      rec.gaveUp = false := by decide +kernel
  have hfired : ((syncAllSourcesRecorded 2 sampleEngine).exec step
    reachable).1.completed = true := by
    decide +kernel
  obtain ⟨-, hsources, -, hstill⟩ := completed_round 2 sampleEngine hcodes reachable_goes_on hrun
    hcalm hgave hfired
  exact ⟨ms, _, _, ⟨reachable_goes_on, hcodes, hcalm, hgave, hfired⟩, hsources, hstill⟩

end Rhodes.CompletedRound
