import Rhodes.Queue
import Rhodes.Rhom
import Rhodes.Source

/-!
The sync thread against the UI thread. The statements of the one and the actions
of the other are the same in all results, so a discipline is given by the moves a
run may make and by the goal before each statement. The rules here are those of
`Interleaving` for the building blocks of the programs: a statement, a test of
the engine's state, and a request with its two kinds of answer.
-/
namespace Rhodes.Threads

open Statements Interleaving Source Rhom

/-- The sync thread against the UI thread. -/
def against (ok : Move Stmt World UIAction → Prop) (goal : Stmt → World → Prop) :
    Discipline Stmt World UIAction := ⟨step, uiStep, ok, goal⟩

/-- The engine goes on no more: what isContinueSync finds. -/
def Stopped (w : World) : Prop := w.syncState.isContinueSync = false

variable {ok : Move Stmt World UIAction → Prop} {goal : Stmt → World → Prop}

/-- An assertion that follows from what the UI thread leaves alone is stable. -/
theorem stable_of_frame {P : World → Prop} (h : ∀ w w', P w → Frame w w' → P w') :
    (against ok goal).Stable P := by
  rintro w w' hP ⟨u, hu, -⟩
  exact h w w' hP (uiStep_frame u w w' hu)

theorem stable_true : (against ok goal).Stable (fun _ => True) := fun _ _ _ _ => trivial

/-- A statement whose result is not used, followed by the rest. -/
theorem execute_bind {α : Type} {P Q : World → Prop} {i : Stmt} {p : Sync α}
    {R : α → World → Prop} (hP : (against ok goal).Stable P)
    (h : ∀ w, P w → ok (.own i w) → goal i w ∧ Q (step i w))
    (hp : (against ok goal).Triple Q p R) :
    (against ok goal).Triple P ((execute i).bind (fun _ => p)) R :=
  Discipline.Triple.perform_bind (fun _ => Q) hP h (fun _ => hp)

/-- A test of the engine's state, followed by its two branches. -/
theorem continue_bind {α : Type} {P yes no : World → Prop} {f : Bool → Sync α}
    {R : α → World → Prop} (hP : (against ok goal).Stable P)
    (h : ∀ w, P w → ok (.own .read w) → goal .read w ∧
      (w.syncState.isContinueSync = true → yes w) ∧ (w.syncState.isContinueSync = false → no w))
    (hyes : (against ok goal).Triple yes (f true) R)
    (hno : (against ok goal).Triple no (f false) R) :
    (against ok goal).Triple P (isContinueSync.bind f) R := by
  refine Discipline.Triple.perform_bind (fun b w => if b then yes w else no w) hP ?_ ?_
  · intro w hw hok
    obtain ⟨hgoal, hthen, helse⟩ := h w hw hok
    refine ⟨hgoal, ?_⟩
    cases hstate : w.syncState.isContinueSync with
    | true => exact hthen hstate
    | false => exact helse hstate
  · intro b
    cases b with
    | true => exact hyes
    | false => exact hno

/-- A request, followed by what is done with an answer of either kind. -/
theorem send_bind {α : Type} {P yes no : World → Prop} {q : Request} {f : NetResponse → Sync α}
    {R : α → World → Prop} (hP : (against ok goal).Stable P)
    (h : ∀ w, P w → ok (.own (.request q) w) → goal (.request q) w ∧
      ((w.net w.requests).isOK = true → yes (step (.request q) w)) ∧
      ((w.net w.requests).isOK = false → no (step (.request q) w)))
    (hyes : ∀ resp, resp.isOK = true → (against ok goal).Triple yes (f resp) R)
    (hno : ∀ resp, resp.isOK = false → (against ok goal).Triple no (f resp) R) :
    (against ok goal).Triple P ((send q).bind f) R := by
  apply Discipline.Triple.act hP
  intro w hw hok
  obtain ⟨hgoal, hthen, helse⟩ := h w hw hok
  refine ⟨hgoal, ?_⟩
  cases hresp : (w.net w.requests).isOK with
  | true => exact hyes _ hresp _ (hthen hresp)
  | false => exact hno _ hresp _ (helse hresp)

/-! The statements of the building blocks. -/

variable {L : Stmt → Prop}

theorem execute_only {i : Stmt} (hi : L i) : (execute i).Only L := Prog.Only.perform hi _

theorem query_only {α : Type} (hread : L .read) (g : World → α) : (query g).Only L :=
  Prog.Only.perform hread g

theorem send_only {q : Request} (hq : L (.request q)) : (send q).Only L := Prog.Only.perform hq _

theorem when_only {c : Prop} [Decidable c] {p : Sync Unit} (hp : p.Only L) : (when c p).Only L :=
  Prog.Only.ite hp trivial

theorem stopSync_only (hread : L .read) (hstop : L (.setState .esStop)) : stopSync.Only L :=
  Prog.Only.bind (query_only hread _) (fun _ => when_only (execute_only hstop))

end Rhodes.Threads
