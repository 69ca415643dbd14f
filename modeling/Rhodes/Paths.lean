import Mathlib.Logic.Relation

/-!
Labelled paths of a partial step function. A path lists its labels with the states they were
taken in. Nothing here refers to a particular system.
-/
namespace Rhodes.Paths

variable {υ σ : Type*}

inductive Path (step : υ → σ → Option σ) : σ → List (υ × σ) → σ → Prop
  | nil (s : σ) : Path step s [] s
  | cons {u : υ} {s s' t : σ} {us : List (υ × σ)} :
      step u s = some s' → Path step s' us t → Path step s ((u, s) :: us) t

/-- What is kept by every step that is taken well holds all along a path of such steps; where
each step that is not taken well is seen in the next state, the path shows them all. -/
theorem Path.holds_iff {step : υ → σ → Option σ} {I P : σ → Prop} {ok : υ → σ → Prop}
    (hP : ∀ s, I s → P s)
    (hok : ∀ u s s', I s → step u s = some s' → ok u s → I s')
    (hbad : ∀ u s s', I s → step u s = some s' → P s' → ok u s)
    {s t : σ} {us : List (υ × σ)} (h : Path step s us t) (hs : I s) :
    (∀ x ∈ us.map Prod.snd ++ [t], P x) ↔ ∀ p ∈ us, ok p.1 p.2 := by
  induction h with
  | nil s => simpa using hP s hs
  | @cons u s s' t us hstep hrest ih =>
    have hnext : P s' → ok u s := hbad u s s' hs hstep
    constructor
    · intro hall
      have hs'mem : s' ∈ us.map Prod.snd ++ [t] := by
        cases hrest with
        | nil => simp
        | cons _ _ => simp
      have hgood := hnext (hall s' (List.mem_cons_of_mem _ hs'mem))
      have hrest' := (ih (hok u s s' hs hstep hgood)).mp
        (fun x hx => hall x (List.mem_cons_of_mem _ hx))
      intro p hp
      rcases List.mem_cons.mp hp with rfl | hp
      · exact hgood
      · exact hrest' p hp
    · intro hall
      have hgood := hall (u, s) List.mem_cons_self
      have hrest' := (ih (hok u s s' hs hstep hgood)).mpr
        (fun p hp => hall p (List.mem_cons_of_mem _ hp))
      intro x hx
      rcases List.mem_cons.mp hx with rfl | hx
      · exact hP _ hs
      · exact hrest' x hx

end Rhodes.Paths
