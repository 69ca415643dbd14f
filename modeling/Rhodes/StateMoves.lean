import Mathlib

/-!
What a program that may throw does to its state. Runs that return stay in one relation between the
state before and the state after, runs that throw in another; both survive composition.
-/
namespace Rhodes.StateMoves

variable {ε σ α β : Type}

section Runs

theorem bind_of_ok {m : EStateM ε σ α} {f : α → EStateM ε σ β} {s s' : σ} {a : α}
    (h : m s = .ok a s') : (m >>= f) s = f a s' := by
  show EStateM.bind m f s = _
  rw [EStateM.bind, h]

theorem bind_of_error {m : EStateM ε σ α} {f : α → EStateM ε σ β} {s s' : σ} {e : ε}
    (h : m s = .error e s') : (m >>= f) s = .error e s' := by
  show EStateM.bind m f s = _
  rw [EStateM.bind, h]

/-- The handler is run in the state in which something was thrown. -/
theorem tryCatch_of_ok {m : EStateM ε σ α} {handler : ε → EStateM ε σ α} {s s' : σ} {a : α}
    (h : m s = .ok a s') : tryCatch m handler s = .ok a s' := by
  show EStateM.tryCatch m handler s = _
  rw [EStateM.tryCatch, h]

theorem tryCatch_of_error {m : EStateM ε σ α} {handler : ε → EStateM ε σ α} {s s' : σ} {e : ε}
    (h : m s = .error e s') : tryCatch m handler s = handler e s' := by
  show EStateM.tryCatch m handler s = _
  rw [EStateM.tryCatch, h]
  rfl

end Runs

section Relations

/-- Runs that return are in the first relation, runs that throw in the second. -/
def Moves (R E : σ → σ → Prop) (m : EStateM ε σ α) : Prop :=
  ∀ s, match m s with
    | .ok _ s' => R s s'
    | .error _ s' => E s s'

/-- The relations of a run survive what is run after it. -/
structure Composes (R E : σ → σ → Prop) : Prop where
  refl : ∀ s, R s s
  trans : ∀ {s t u}, R s t → R t u → R s u
  throws : ∀ {s t u}, R s t → E t u → E s u

variable {R E : σ → σ → Prop}

theorem moves_pure (h : Composes R E) (a : α) : Moves R E (pure a : EStateM ε σ α) :=
  fun s => h.refl s

theorem moves_modify {f : σ → σ} (hf : ∀ s, R s (f s)) :
    Moves R E (modify f : EStateM ε σ PUnit) := fun s => hf s

theorem moves_get (h : Composes R E) : Moves R E (get : EStateM ε σ σ) := fun s => h.refl s

theorem moves_throw {e : ε} (hE : ∀ s, E s s) : Moves R E (throw e : EStateM ε σ α) :=
  fun s => hE s

theorem Moves.bind (h : Composes R E) {m : EStateM ε σ α} {f : α → EStateM ε σ β}
    (hm : Moves R E m) (hf : ∀ a, Moves R E (f a)) : Moves R E (m >>= f) := by
  intro s
  have hfirst := hm s
  show match EStateM.bind m f s with | .ok _ s' => R s s' | .error _ s' => E s s'
  unfold EStateM.bind
  cases hrun : m s with
  | error e t =>
    rw [hrun] at hfirst
    exact hfirst
  | ok a t =>
    rw [hrun] at hfirst
    have hrest := hf a t
    show match f a t with | .ok _ s' => R s s' | .error _ s' => E s s'
    cases hrun' : f a t with
    | ok b u =>
      rw [hrun'] at hrest
      exact h.trans hfirst hrest
    | error e u =>
      rw [hrun'] at hrest
      exact h.throws hfirst hrest

theorem Moves.tryCatch (h : Composes R R) {m : EStateM ε σ α} {handler : ε → EStateM ε σ α}
    (hm : Moves R R m) (hhandler : ∀ e, Moves R R (handler e)) :
    Moves R R (tryCatch m handler) := by
  intro s
  have hfirst := hm s
  cases hrun : m s with
  | ok a t =>
    rw [hrun] at hfirst
    rw [tryCatch_of_ok hrun]
    exact hfirst
  | error e t =>
    rw [hrun] at hfirst
    rw [tryCatch_of_error hrun]
    have hrest := hhandler e t
    cases hrun' : handler e t with
    | ok a u =>
      rw [hrun'] at hrest
      exact h.trans hfirst hrest
    | error e' u =>
      rw [hrun'] at hrest
      exact h.throws hfirst hrest

theorem Moves.mono {R' E' : σ → σ → Prop} {m : EStateM ε σ α} (hm : Moves R E m)
    (hR : ∀ s s', R s s' → R' s s') (hE : ∀ s s', E s s' → E' s s') : Moves R' E' m := by
  intro s
  have h := hm s
  cases hrun : m s with
  | ok a t =>
    rw [hrun] at h
    exact hR s t h
  | error e t =>
    rw [hrun] at h
    exact hE s t h

theorem moves_ite {p : Prop} [Decidable p] {m m' : EStateM ε σ α} (hm : Moves R E m)
    (hm' : Moves R E m') : Moves R E (if p then m else m') := by
  split
  · exact hm
  · exact hm'

/-- A loop moves as its body does. -/
theorem moves_foldlM (h : Composes R E) {f : α → β → EStateM ε σ α} {l : List β}
    (hf : ∀ a, ∀ b ∈ l, Moves R E (f a b)) (a : α) : Moves R E (l.foldlM f a) := by
  induction l generalizing a with
  | nil => exact moves_pure h a
  | cons b l ih =>
    rw [List.foldlM_cons]
    exact (hf a b List.mem_cons_self).bind h
      (ih (fun a b hb => hf a b (List.mem_cons_of_mem _ hb)))

theorem moves_forM (h : Composes R E) {f : β → EStateM ε σ PUnit} (hf : ∀ b, Moves R E (f b))
    (l : List β) : Moves R E (l.forM f) := by
  induction l with
  | nil => exact moves_pure h _
  | cons b l ih => exact (hf b).bind h (fun _ => ih)

/-- A run that returns. -/
theorem Moves.of_ok {m : EStateM ε σ α} (hm : Moves R E m) {s s' : σ} {a : α}
    (hrun : m s = .ok a s') : R s s' := by
  have h := hm s
  rw [hrun] at h
  exact h

/-- A run that throws. -/
theorem Moves.of_error {m : EStateM ε σ α} (hm : Moves R E m) {s s' : σ} {e : ε}
    (hrun : m s = .error e s') : E s s' := by
  have h := hm s
  rw [hrun] at h
  exact h

end Relations

section Results

/-- What holds of a run that returns: of its result, and of the state after it. -/
def Returns (m : EStateM ε σ α) (s : σ) (Q : α → σ → Prop) : Prop :=
  ∀ a s', m s = .ok a s' → Q a s'

variable {s : σ} {Q : α → σ → Prop}

theorem returns_pure {a : α} (h : Q a s) : Returns (pure a : EStateM ε σ α) s Q := by
  intro a' s' hrun
  cases hrun
  exact h

theorem Returns.mono {m : EStateM ε σ α} (hm : Returns m s Q) {R : α → σ → Prop}
    (h : ∀ a s', Q a s' → R a s') : Returns m s R :=
  fun a s' hrun => h a s' (hm a s' hrun)

theorem Returns.bind {m : EStateM ε σ α} {f : α → EStateM ε σ β} {R : β → σ → Prop}
    (hm : Returns m s Q) (hf : ∀ a s', Q a s' → Returns (f a) s' R) : Returns (m >>= f) s R := by
  intro b u hrun
  cases hfirst : m s with
  | ok a t =>
    rw [bind_of_ok hfirst] at hrun
    exact hf a t (hm a t hfirst) b u hrun
  | error e t =>
    rw [bind_of_error hfirst] at hrun
    cases hrun

theorem returns_bind_of_ok {m : EStateM ε σ α} {f : α → EStateM ε σ β} {R : β → σ → Prop} {a : α}
    {t : σ} (hm : m s = .ok a t) (hf : Returns (f a) t R) : Returns (m >>= f) s R := by
  intro b u hrun
  rw [bind_of_ok hm] at hrun
  exact hf b u hrun

theorem returns_ite {p : Prop} [Decidable p] {m m' : EStateM ε σ α} (hm : p → Returns m s Q)
    (hm' : ¬p → Returns m' s Q) : Returns (if p then m else m') s Q := by
  split
  · rename_i hp
    exact hm hp
  · rename_i hp
    exact hm' hp

/-- A loop keeps an invariant about the elements that are done. -/
theorem returns_foldlM {f : α → β → EStateM ε σ α} {I : List β → α → σ → Prop} (l : List β)
    (hf : ∀ done b rest, l = done ++ b :: rest → ∀ a t, I done a t →
      Returns (f a b) t (I (done ++ [b]))) {a : α} (h : I [] a s) :
    Returns (l.foldlM f a) s (I l) := by
  have hrest : ∀ rest done a t, l = done ++ rest → I done a t →
      Returns (rest.foldlM f a) t (I l) := by
    intro rest
    induction rest with
    | nil =>
      intro done a t hl hdone
      rw [hl, List.append_nil]
      exact returns_pure hdone
    | cons b rest ih =>
      intro done a t hl hdone
      rw [List.foldlM_cons]
      refine (hf done b rest hl a t hdone).bind (fun a' t' hstep => ?_)
      exact ih (done ++ [b]) a' t' (by rw [hl, List.append_assoc]; rfl) hstep
  exact hrest l [] a s rfl h

theorem forM_eq_foldlM (f : β → EStateM ε σ PUnit) (l : List β) :
    l.forM f = l.foldlM (fun _ b => f b) PUnit.unit := by
  induction l with
  | nil => rfl
  | cons b l ih =>
    show (f b >>= fun _ => l.forM f) = _
    rw [List.foldlM_cons, ih]

theorem returns_forM {f : β → EStateM ε σ PUnit} {I : List β → σ → Prop} (l : List β)
    (hf : ∀ done b rest, l = done ++ b :: rest → ∀ t, I done t →
      Returns (f b) t (fun _ => I (done ++ [b]))) (h : I [] s) :
    Returns (l.forM f) s (fun _ => I l) := by
  rw [forM_eq_foldlM]
  exact returns_foldlM (I := fun done _ => I done) l
    (fun done b rest hl _ t hdone => hf done b rest hl t hdone) h

end Results

end Rhodes.StateMoves
