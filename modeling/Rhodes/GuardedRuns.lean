import Mathlib.Logic.Basic

/-!
Systems whose actions have guards: `next s a` is `none` where the action cannot be taken. A
run is the list of its actions, and what holds in all of its states is told from what its
steps do.
-/
namespace Rhodes.GuardedRuns

variable {σ α : Type*} (next : σ → α → Option σ)

/-- The property holds of every state of the run, the first one included. -/
def AllStates (P : σ → Prop) : σ → List α → Prop
  | s, [] => P s
  | s, a :: as => P s ∧ ∀ s', next s a = some s' → AllStates P s' as

/-- Every step that the run takes meets the condition on the state before it. -/
def AllSteps (Q : σ → α → Prop) : σ → List α → Prop
  | _, [] => True
  | s, a :: as => ∀ s', next s a = some s' → Q s a ∧ AllSteps Q s' as

variable {next} in
theorem allSteps_of_forall {Q : σ → α → Prop} (h : ∀ s a s', next s a = some s' → Q s a) (s : σ)
    (as : List α) : AllSteps next Q s as := by
  induction as generalizing s with
  | nil => trivial
  | cons a as ih => exact fun s' hnext => ⟨h s a s' hnext, ih s'⟩

section Invariant

variable {next} {Inv P : σ → Prop} {Q : σ → α → Prop}

/-- An invariant that the steps under the condition keep holds all along. -/
theorem allStates_of_steps
    (hkeeps : ∀ s a s', Inv s → next s a = some s' → Q s a → Inv s') (hP : ∀ s, Inv s → P s)
    {s : σ} (hs : Inv s) {as : List α} (h : AllSteps next Q s as) : AllStates next P s as := by
  induction as generalizing s with
  | nil => exact hP s hs
  | cons a as ih =>
    refine ⟨hP s hs, ?_⟩
    intro s' hnext
    obtain ⟨hq, hrest⟩ := h s' hnext
    exact ih (hkeeps s a s' hs hnext hq) hrest

/-- An invariant tells of each step what it tells of the state before it. -/
theorem allSteps_of_inv (hkeeps : ∀ s a s', Inv s → next s a = some s' → Inv s')
    (hQ : ∀ s a s', Inv s → next s a = some s' → Q s a) {s : σ} (hs : Inv s) (as : List α) :
    AllSteps next Q s as := by
  induction as generalizing s with
  | nil => trivial
  | cons a as ih => exact fun s' hnext => ⟨hQ s a s' hs hnext, ih (hkeeps s a s' hs hnext)⟩

theorem allStates_head {s : σ} {as : List α} (h : AllStates next P s as) : P s := by
  cases as with
  | nil => exact h
  | cons a as => exact h.1

/-- Where moreover each step that breaks the condition is seen in the state after it, the
condition on the steps is exact. -/
theorem allStates_iff
    (hkeeps : ∀ s a s', Inv s → next s a = some s' → Q s a → Inv s') (hP : ∀ s, Inv s → P s)
    (hbreaks : ∀ s a s', Inv s → next s a = some s' → P s' → Q s a)
    {s : σ} (hs : Inv s) (as : List α) : AllStates next P s as ↔ AllSteps next Q s as := by
  refine ⟨?_, allStates_of_steps hkeeps hP hs⟩
  induction as generalizing s with
  | nil => exact fun _ => trivial
  | cons a as ih =>
    intro h s' hnext
    have hrest := h.2 s' hnext
    have hq := hbreaks s a s' hs hnext (allStates_head hrest)
    exact ⟨hq, ih (hkeeps s a s' hs hnext hq) hrest⟩

end Invariant

end Rhodes.GuardedRuns
