import Rhodes.Interleaving

/-!
Programs whose statements may throw. A handler takes exceptions, lets errors through and throws
again what it has taken. A program is prompt where it ends with whatever one of its statements
throws, and with nothing else.
-/
namespace Rhodes.Throwing

open Interleaving

/-- What a handler of exceptions takes, and what it does not. -/
inductive Throwable where
  | exception
  | error
  deriving DecidableEq

/-- A program that may end with a throwable. -/
abbrev Throws (ι σ : Type*) (α : Type*) := Prog ι σ (Except Throwable α)

variable {ι κ σ τ υ α β : Type*}

namespace Throws

/-- The rest is run where nothing was thrown. -/
def next (f : α → Throws ι σ β) : Except Throwable α → Throws ι σ β
  | .ok a => f a
  | .error t => .ret (.error t)

def andThen (p : Throws ι σ α) (f : α → Throws ι σ β) : Throws ι σ β := p.bind (next f)

/-- The handler is run where an exception was thrown, which is thrown again after it. -/
def rethrow (h : Throws ι σ Unit) : Except Throwable α → Throws ι σ α
  | .ok a => .ret (.ok a)
  | .error .exception => h.andThen (fun _ => .ret (.error .exception))
  | .error .error => .ret (.error .error)

def catchException (p : Throws ι σ α) (h : Throws ι σ Unit) : Throws ι σ α := p.bind (rethrow h)

/-- One statement that may throw. -/
def call (throws : ι → σ → Option Throwable) (i : ι) : Throws ι σ Unit :=
  .act i (fun s => match throws i s with
    | some t => .ret (.error t)
    | none => .ret (.ok ()))

/-- A statement that does not throw, and what it reads. -/
def quietly (i : ι) (g : σ → α) : Throws ι σ α := Prog.perform i (fun s => .ok (g s))

/-- A program over a part of the state, each of its statements under a new name. -/
def guarded (throws : κ → τ → Option Throwable) (f : ι → κ) (g : τ → σ) :
    Prog ι σ α → Throws κ τ α
  | .ret a => .ret (.ok a)
  | .act i k => .act (f i) (fun t => match throws (f i) t with
    | some e => .ret (.error e)
    | none => guarded throws f g (k (g t)))

end Throws

open Throws

section Only

variable {L : ι → Prop}

theorem only_next {f : α → Throws ι σ β} (hf : ∀ a, (f a).Only L) (r : Except Throwable α) :
    (next f r).Only L := by
  cases r with
  | ok a => exact hf a
  | error t => trivial

theorem only_andThen {p : Throws ι σ α} {f : α → Throws ι σ β} (hp : p.Only L)
    (hf : ∀ a, (f a).Only L) : (p.andThen f).Only L := Prog.Only.bind hp (only_next hf)

theorem only_call {throws : ι → σ → Option Throwable} {i : ι} (hi : L i) :
    (call throws i).Only L := by
  refine ⟨hi, fun s => ?_⟩
  show (match throws i s with | some t => _ | none => _ : Throws ι σ Unit).Only L
  split <;> trivial

theorem only_guarded {throws : κ → τ → Option Throwable} {f : ι → κ} {g : τ → σ} {M : κ → Prop}
    (hf : ∀ i, M (f i)) (p : Prog ι σ α) : (guarded throws f g p).Only M := by
  induction p with
  | ret a => trivial
  | act i k ih =>
    refine ⟨hf i, fun t => ?_⟩
    show (match throws (f i) t with | some e => _ | none => _ : Throws κ τ α).Only M
    split
    · trivial
    · exact ih (g t)

end Only

section Prompt

variable {throws : ι → σ → Option Throwable}

/-- What a statement throws ends the program, which throws nothing of its own. -/
def Prompt (throws : ι → σ → Option Throwable) : Throws ι σ α → Prop
  | .ret r => ∃ a, r = .ok a
  | .act i k => ∀ s, (∀ t, throws i s = some t → k s = .ret (.error t)) ∧
      (throws i s = none → Prompt throws (k s))

theorem prompt_ret (a : α) : Prompt throws (.ret (.ok a) : Throws ι σ α) := ⟨a, rfl⟩

theorem Prompt.andThen {p : Throws ι σ α} {f : α → Throws ι σ β} (hp : Prompt throws p)
    (hf : ∀ a, Prompt throws (f a)) : Prompt throws (p.andThen f) := by
  induction p with
  | ret r =>
    obtain ⟨a, rfl⟩ := hp
    exact hf a
  | act i k ih =>
    intro s
    obtain ⟨hthrow, hrest⟩ := hp s
    refine ⟨fun t ht => ?_, fun hnone => ih s (hrest hnone)⟩
    show (k s).bind (next f) = _
    rw [hthrow t ht]
    rfl

theorem prompt_call (i : ι) : Prompt throws (call throws i) := by
  intro s
  refine ⟨fun t ht => ?_, fun hnone => ?_⟩
  · show (match throws i s with | some t => _ | none => _ : Throws ι σ Unit) = _
    rw [ht]
  · show Prompt throws (match throws i s with | some t => _ | none => _ : Throws ι σ Unit)
    rw [hnone]
    exact prompt_ret ()

theorem prompt_quietly {i : ι} (hi : ∀ s, throws i s = none) (g : σ → α) :
    Prompt throws (quietly i g) := by
  intro s
  refine ⟨fun t ht => ?_, fun _ => prompt_ret (g s)⟩
  rw [hi s] at ht
  cases ht

theorem prompt_guarded {throws : κ → τ → Option Throwable} {f : ι → κ} {g : τ → σ}
    (p : Prog ι σ α) : Prompt throws (guarded throws f g p) := by
  induction p with
  | ret a => exact prompt_ret a
  | act i k ih =>
    intro s
    refine ⟨fun t ht => ?_, fun hnone => ?_⟩
    · show (match throws (f i) s with | some e => _ | none => _ : Throws κ τ α) = _
      rw [ht]
    · show Prompt throws (match throws (f i) s with | some e => _ | none => _ : Throws κ τ α)
      rw [hnone]
      exact ih (g s)

/-- What a run ends with is what one of its statements has thrown, and no statement has thrown
anything else. -/
structure Thrown (throws : ι → σ → Option Throwable) (r : Except Throwable α)
    (ms : List (Move ι σ υ)) : Prop where
  ends : ∀ i x t, .own i x ∈ ms → throws i x = some t → r = .error t
  comes : ∀ t, r = .error t → ∃ i x, .own i x ∈ ms ∧ throws i x = some t

/-- A move that throws nothing is no part of what a run throws. -/
theorem Thrown.cons {r : Except Throwable α} {ms : List (Move ι σ υ)} {m : Move ι σ υ}
    (h : Thrown throws r ms) (hm : ∀ i x, m = .own i x → throws i x = none) :
    Thrown throws r (m :: ms) where
  ends := by
    intro i x t hx ht
    rcases List.mem_cons.mp hx with heq | hx
    · rw [hm i x heq.symm] at ht
      cases ht
    · exact h.ends i x t hx ht
  comes := by
    intro t ht
    obtain ⟨i, x, hx, hthrows⟩ := h.comes t ht
    exact ⟨i, x, List.mem_cons_of_mem _ hx, hthrows⟩

/-- The statement that throws is the last one of the run. -/
theorem thrown_last {i : ι} {s : σ} {t : Throwable} {ms : List (Move ι σ υ)}
    (ht : throws i s = some t) (hmoves : ∀ m ∈ ms, ∃ u x, m = .env u x) :
    Thrown throws (.error t : Except Throwable α) (.own i s :: ms) where
  ends := by
    intro j x t' hx ht'
    rcases List.mem_cons.mp hx with heq | hx
    · cases heq
      rw [Option.some.inj (ht.symm.trans ht')]
    · obtain ⟨u, y, henv⟩ := hmoves _ hx
      cases henv
  comes := by
    intro t' ht'
    cases ht'
    exact ⟨i, s, List.mem_cons_self, ht⟩

/-- A finished run of a prompt program. -/
theorem Prompt.run {step : ι → σ → σ} {env : υ → σ → Option σ} {p : Throws ι σ α}
    {r : Except Throwable α} {s s' : σ} {ms : List (Move ι σ υ)} (hp : Prompt throws p)
    (hrun : Run step env p s ms (.ret r) s') : Thrown throws r ms := by
  generalize hq : (Prog.ret r : Throws ι σ α) = q at hrun
  induction hrun with
  | nil p s =>
    subst hq
    obtain ⟨a, rfl⟩ := hp
    exact ⟨fun i x t hx => absurd hx (by simp), fun t ht => by cases ht⟩
  | @own j k s t ms q hrun ih =>
    obtain ⟨hthrow, hrest⟩ := hp s
    cases hj : throws j s with
    | none =>
      refine (ih (hrest hj) hq).cons (fun i x heq => ?_)
      cases heq
      exact hj
    | some t =>
      rw [hthrow t hj] at hrun
      obtain ⟨hend, hmoves⟩ := Run.of_ret hrun
      have hresult : r = .error t := by
        rw [hend] at hq
        exact Prog.ret.inj hq
      rw [hresult]
      exact thrown_last hj hmoves
  | env hu hrun ih => exact (ih hp hq).cons (fun i x heq => by cases heq)

end Prompt

section Moves

/-- What holds of each statement that a run executes, and of the state before it. -/
def Each (P : ι → σ → Prop) (ms : List (Move ι σ υ)) : Prop := ∀ i x, .own i x ∈ ms → P i x

theorem each_append {P : ι → σ → Prop} (ms ms' : List (Move ι σ υ)) :
    Each P (ms ++ ms') ↔ Each P ms ∧ Each P ms' := by
  constructor
  · exact fun h => ⟨fun i x hx => h i x (List.mem_append_left _ hx),
      fun i x hx => h i x (List.mem_append_right _ hx)⟩
  · rintro ⟨hleft, hright⟩ i x hx
    exact (List.mem_append.mp hx).elim (hleft i x) (hright i x)

variable {step : ι → σ → σ} {env : υ → σ → Option σ} {s s' : σ} {ms : List (Move ι σ υ)}

/-- The first statement of a finished run is executed where the environment has left what held
at its beginning. -/
theorem exists_first {P : σ → Prop} {i : ι} {k : σ → Prog ι σ α} {r : α}
    (hrun : Run step env (.act i k) s ms (.ret r) s') (hs : P s)
    (hP : ∀ u x x', .env u x ∈ ms → env u x = some x' → P x → P x') :
    ∃ x, .own i x ∈ ms ∧ P x := by
  induction ms generalizing s with
  | nil => cases hrun
  | cons m ms ih =>
    cases hrun with
    | own hrun => exact ⟨s, List.mem_cons_self, hs⟩
    | env hu hrun =>
      obtain ⟨x, hx, hPx⟩ := ih hrun (hP _ _ _ List.mem_cons_self hu hs)
        (fun u x x' hx => hP u x x' (List.mem_cons_of_mem _ hx))
      exact ⟨x, List.mem_cons_of_mem _ hx, hPx⟩

end Moves

section Triples

variable {D : Discipline ι σ υ}

/-- A program that has returned executes nothing, and what is stable stays. -/
theorem ret_run {P : σ → Prop} (hP : D.Stable P) {q : Prog ι σ α} {a : α} {s s' : σ}
    {ms : List (Move ι σ υ)} (hrun : Run D.step D.env (.ret a) s ms q s') (hs : P s)
    (hok : ∀ m ∈ ms, D.ok m) : P s' ∧ q = .ret a ∧ ∀ Q : ι → σ → Prop, Each Q ms := by
  obtain ⟨hq, hmoves⟩ := Run.of_ret hrun
  have hstays : D.Triple P (.ret a) (fun _ => P) := Discipline.Triple.ret hP (fun _ h => h)
  have hend := (Discipline.wp_run hrun (hstays s hs) hok).2 a hq
  refine ⟨hend, hq, fun Q i x hx => ?_⟩
  obtain ⟨u, y, henv⟩ := hmoves _ hx
  cases henv

/-- What holds where a program returns, and where it throws. -/
def Post (Q : α → σ → Prop) (E : Throwable → σ → Prop) : Except Throwable α → σ → Prop
  | .ok a => Q a
  | .error t => E t

theorem andThen_post {P : σ → Prop} {E : Throwable → σ → Prop} {Q : α → σ → Prop}
    {R : β → σ → Prop} {p : Throws ι σ α} {f : α → Throws ι σ β} (hE : ∀ t, D.Stable (E t))
    (hp : D.Triple P p (Post Q E)) (hf : ∀ a, D.Triple (Q a) (f a) (Post R E)) :
    D.Triple P (p.andThen f) (Post R E) := by
  refine Discipline.Triple.bind hp (fun r => ?_)
  cases r with
  | ok a => exact hf a
  | error t => exact Discipline.Triple.ret (hE t) (fun _ h => h)

/-- What holds however the first program ends is there for the second. -/
theorem andThen_keeps {P R : σ → Prop} {Q : Except Throwable β → σ → Prop} {p : Throws ι σ α}
    {f : α → Throws ι σ β} (hp : D.Triple P p (fun _ => R)) (hf : ∀ a, D.Triple R (f a) Q)
    (hthrow : ∀ t, D.Triple R (.ret (.error t)) Q) : D.Triple P (p.andThen f) Q := by
  refine Discipline.Triple.bind hp (fun r => ?_)
  cases r with
  | ok a => exact hf a
  | error t => exact hthrow t

theorem post_same_iff {Q : σ → Prop} {r : Except Throwable α} {s : σ} :
    Post (fun _ => Q) (fun _ => Q) r s ↔ Q s := by
  cases r <;> exact Iff.rfl

theorem post_same {P Q : σ → Prop} {p : Throws ι σ α} (hp : D.Triple P p (fun _ => Q)) :
    D.Triple P p (Post (fun _ => Q) (fun _ => Q)) :=
  hp.conseq (fun _ h => h) (fun _ _ h => post_same_iff.mpr h)

theorem quietly_post {P Q : σ → Prop} {E : Throwable → σ → Prop} {i : ι} {g : σ → α}
    (hP : D.Stable P) (hQ : D.Stable Q)
    (h : ∀ s, P s → D.ok (.own i s) → D.goal i s ∧ Q (D.step i s)) :
    D.Triple P (quietly i g) (Post (fun _ => Q) E) := by
  refine Discipline.Triple.act hP (fun s hs hok => ?_)
  obtain ⟨hgoal, hq⟩ := h s hs hok
  exact ⟨hgoal, Discipline.Triple.ret hQ (fun _ h => h) _ hq⟩

/-- A call, after which the state is what its statement makes of it or what it has thrown in. -/
theorem call_post {throws : ι → σ → Option Throwable} {P : σ → Prop} {E : Throwable → σ → Prop}
    {Q : σ → Prop} {i : ι} (hP : D.Stable P) (hQ : D.Stable Q) (hE : ∀ t, D.Stable (E t))
    (h : ∀ s, P s → D.ok (.own i s) → D.goal i s ∧ (throws i s = none → Q (D.step i s)) ∧
      ∀ t, throws i s = some t → E t (D.step i s)) :
    D.Triple P (call throws i) (Post (fun _ => Q) E) := by
  refine Discipline.Triple.act hP (fun s hs hok => ?_)
  obtain ⟨hgoal, hnone, hsome⟩ := h s hs hok
  refine ⟨hgoal, ?_⟩
  show D.wp (match throws i s with | some t => _ | none => _ : Throws ι σ Unit) _ _
  cases hthrows : throws i s with
  | none => exact Discipline.Triple.ret hQ (fun _ h => h) _ (hnone hthrows)
  | some t => exact Discipline.Triple.ret (hE t) (fun _ h => h) _ (hsome t hthrows)

end Triples

end Rhodes.Throwing
