import Mathlib.Order.Defs.Unbundled

/-!
Actions that may throw and keep what they have done so far: a relation between the state before
and the state after, however the action ends. Where the relation is reflexive and transitive, it
holds of a sequence of actions when it holds of each of them.
-/
namespace Rhodes.Outcomes

variable {ε σ α β : Type}

/-- The state in which an action ends. -/
def final : EStateM.Result ε σ α → σ
  | .ok _ s => s
  | .error _ s => s

/-- However the action ends, it leads from a state to a related one. -/
def Moves (R : σ → σ → Prop) (act : EStateM ε σ α) : Prop := ∀ s, R s (final (act s))

@[simp] theorem final_ok (a : α) (s : σ) : final (.ok a s : EStateM.Result ε σ α) = s := rfl

@[simp] theorem final_error (e : ε) (s : σ) : final (.error e s : EStateM.Result ε σ α) = s := rfl

theorem bind_error {act : EStateM ε σ α} {s s' : σ} {e : ε} (h : act s = .error e s')
    (f : α → EStateM ε σ β) : (act >>= f) s = .error e s' := by
  show EStateM.bind act f s = _
  rw [EStateM.bind, h]

variable {R : σ → σ → Prop}

theorem Moves.of_final_eq [Std.Refl R] {act : EStateM ε σ α} (h : ∀ s, final (act s) = s) :
    Moves R act := by
  intro s
  rw [h]
  exact refl_of R s

theorem Moves.pure [Std.Refl R] (a : α) : Moves R (Pure.pure a : EStateM ε σ α) :=
  Moves.of_final_eq (fun _ => rfl)

theorem Moves.throw [Std.Refl R] (e : ε) : Moves R (throw e : EStateM ε σ α) :=
  Moves.of_final_eq (fun _ => rfl)

theorem Moves.get [Std.Refl R] : Moves R (get : EStateM ε σ σ) := Moves.of_final_eq (fun _ => rfl)

theorem Moves.modify {f : σ → σ} (h : ∀ s, R s (f s)) :
    Moves R (modify f : EStateM ε σ PUnit) := h

/-- What two actions do one after the other, where the first one may be the last. -/
theorem Moves.bind_of {S T : σ → σ → Prop} {act : EStateM ε σ α} {f : α → EStateM ε σ β}
    (h : Moves R act) (hf : ∀ a, (∃ s s', act s = .ok a s') → Moves S (f a))
    (hthrown : ∀ s s', R s s' → T s s') (hboth : ∀ s s' s'', R s s' → S s' s'' → T s s'') :
    Moves T (act >>= f) := by
  intro s
  have hact := h s
  show T s (final (EStateM.bind act f s))
  unfold EStateM.bind
  cases hres : act s with
  | ok a s' =>
    rw [hres] at hact
    exact hboth s s' _ hact (hf a ⟨s, s', hres⟩ s')
  | error e s' =>
    rw [hres] at hact
    exact hthrown s s' hact

theorem Moves.bind [IsTrans σ R] {act : EStateM ε σ α} {f : α → EStateM ε σ β} (h : Moves R act)
    (hf : ∀ a, Moves R (f a)) : Moves R (act >>= f) :=
  h.bind_of (fun a _ => hf a) (fun _ _ => id) (fun _ _ _ => trans_of R)

/-- What the first action returns is known. -/
theorem Moves.bind_ok [IsTrans σ R] {act : EStateM ε σ α} {f : α → EStateM ε σ β} (h : Moves R act)
    (hf : ∀ a, (∃ s s', act s = .ok a s') → Moves R (f a)) : Moves R (act >>= f) :=
  h.bind_of hf (fun _ _ => id) (fun _ _ _ => trans_of R)

/-- The first action is a check: it leaves the state. -/
theorem Moves.check [Std.Refl R] {act : EStateM ε σ α} {f : α → EStateM ε σ β} (h : Moves Eq act)
    (hf : ∀ a, Moves R (f a)) : Moves R (act >>= f) := by
  refine h.bind_of (fun a _ => hf a) ?_ ?_
  · intro s s' heq
    rw [heq]
    exact refl_of R s'
  · intro s s' s'' heq hs
    rw [heq]
    exact hs

/-- An action that leaves its state, before another one that leaves it. -/
theorem final_bind_eq {act : EStateM ε σ α} {f : α → EStateM ε σ β} {s : σ}
    (h : final (act s) = s) (hf : ∀ a, final (f a s) = s) : final ((act >>= f) s) = s := by
  show final (EStateM.bind act f s) = s
  unfold EStateM.bind
  cases hres : act s with
  | ok a s' =>
    rw [hres, final_ok] at h
    rw [h]
    exact hf a
  | error e s' =>
    rw [hres] at h
    exact h

/-- What is returned does not matter. -/
theorem final_map (act : EStateM ε σ α) (g : α → β) (s : σ) :
    final ((act >>= fun a => Pure.pure (g a)) s) = final (act s) := by
  show final (EStateM.bind act _ s) = _
  unfold EStateM.bind
  cases act s with
  | ok a s' => rfl
  | error e s' => rfl

theorem Moves.ite {c : Prop} [Decidable c] {act act' : EStateM ε σ α} (h : c → Moves R act)
    (h' : ¬c → Moves R act') : Moves R (if c then act else act') := by
  split
  · rename_i hc
    exact h hc
  · rename_i hc
    exact h' hc

theorem Moves.mono {S : σ → σ → Prop} {act : EStateM ε σ α} (h : Moves R act)
    (hle : ∀ s s', R s s' → S s s') : Moves S act := fun s => hle s _ (h s)

/-- What the action returns where it does not throw. -/
def Returns (P : α → Prop) (act : EStateM ε σ α) : Prop := ∀ s a s', act s = .ok a s' → P a

theorem Returns.pure {P : α → Prop} {a : α} (h : P a) :
    Returns P (Pure.pure a : EStateM ε σ α) := by
  intro s a' s' hres
  cases hres
  exact h

theorem Returns.throw {P : α → Prop} (e : ε) : Returns P (throw e : EStateM ε σ α) := by
  intro s a s' hres
  cases hres

theorem Returns.ite {P : α → Prop} {c : Prop} [Decidable c] {act act' : EStateM ε σ α}
    (h : Returns P act) (h' : Returns P act') : Returns P (if c then act else act') := by
  split
  · exact h
  · exact h'

theorem Returns.bind {P : α → Prop} {Q : β → Prop} {act : EStateM ε σ α} {f : α → EStateM ε σ β}
    (h : Returns P act) (hf : ∀ a, P a → Returns Q (f a)) : Returns Q (act >>= f) := by
  intro s b s' hres
  have hbind : (act >>= f) s = EStateM.bind act f s := rfl
  rw [hbind, EStateM.bind] at hres
  cases hact : act s with
  | ok a s₁ =>
    rw [hact] at hres
    exact hf a (h s a s₁ hact) s₁ b s' hres
  | error e s₁ =>
    rw [hact] at hres
    cases hres

/-- The first action returns anything. -/
theorem Returns.bind_any {Q : β → Prop} {act : EStateM ε σ α} {f : α → EStateM ε σ β}
    (hf : ∀ a, Returns Q (f a)) : Returns Q (act >>= f) := by
  have hany : Returns (fun _ => True) act := fun _ _ _ _ => trivial
  exact hany.bind (fun a _ => hf a)

end Rhodes.Outcomes
