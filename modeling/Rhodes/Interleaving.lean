import Mathlib.Logic.Relation

/-!
Programs made of atomic statements, run against an environment that may move
between any two of them. A statement `i : ι` changes the shared state by a
fixed function `step i`; an environment action `u : υ` may be disabled. Nothing
here refers to a particular program: `Discipline` collects what a statement
does, what the environment may do, which moves a run may make at all, and what
has to hold before each statement, and the rules below derive facts about every
interleaved run from one pre- and postcondition for each piece of program.
-/
namespace Rhodes.Interleaving

universe w

/-- A program has finished, or is about to execute the statement `i` and goes on
with a program that depends on the state this statement found. -/
inductive Prog (ι σ α : Type*) where
  | ret (a : α)
  | act (i : ι) (k : σ → Prog ι σ α)

variable {ι σ υ α β γ : Type*}

namespace Prog

def bind : Prog ι σ α → (α → Prog ι σ β) → Prog ι σ β
  | ret a, f => f a
  | act i k, f => act i (fun s => (k s).bind f)

/-- Execute one statement and return what it read. -/
def perform (i : ι) (g : σ → α) : Prog ι σ α := act i (fun s => ret (g s))

instance : Monad (Prog ι σ) where
  pure := ret
  bind := bind

@[simp] theorem ret_bind (a : α) (f : α → Prog ι σ β) : (ret a).bind f = f a := rfl

@[simp] theorem act_bind (i : ι) (k : σ → Prog ι σ α) (f : α → Prog ι σ β) :
    (act i k).bind f = act i (fun s => (k s).bind f) := rfl

@[simp] theorem bind_eq {α β : Type w} (p : Prog ι σ α) (f : α → Prog ι σ β) :
    p >>= f = p.bind f := rfl

theorem bind_assoc (p : Prog ι σ α) (f : α → Prog ι σ β) (g : β → Prog ι σ γ) :
    (p.bind f).bind g = p.bind (fun a => (f a).bind g) := by
  induction p with
  | ret a => rfl
  | act i k ih =>
    simp only [act_bind]
    congr
    funext s
    exact ih s

@[simp] theorem bind_ret (p : Prog ι σ α) : p.bind ret = p := by
  induction p with
  | ret a => rfl
  | act i k ih =>
    rw [act_bind]
    congr
    funext s
    exact ih s

theorem ite_bind {c : Prop} [Decidable c] (p q : Prog ι σ α) (f : α → Prog ι σ β) :
    (if c then p else q).bind f = if c then p.bind f else q.bind f := by
  split <;> rfl

/-- Every statement of the program belongs to `L`. -/
def Only (L : ι → Prop) : Prog ι σ α → Prop
  | ret _ => True
  | act i k => L i ∧ ∀ s, (k s).Only L

theorem Only.mono {L M : ι → Prop} (hLM : ∀ i, L i → M i) {p : Prog ι σ α}
    (h : p.Only L) : p.Only M := by
  induction p with
  | ret a => trivial
  | act i k ih => exact ⟨hLM i h.1, fun s => ih s (h.2 s)⟩

theorem Only.bind {L : ι → Prop} {p : Prog ι σ α} {f : α → Prog ι σ β}
    (hp : p.Only L) (hf : ∀ a, (f a).Only L) : (p.bind f).Only L := by
  induction p with
  | ret a => exact hf a
  | act i k ih => exact ⟨hp.1, fun s => ih s (hp.2 s)⟩

theorem Only.of_bind {L : ι → Prop} {p : Prog ι σ α} {f : α → Prog ι σ β}
    (h : (p.bind f).Only L) : p.Only L := by
  induction p with
  | ret a => trivial
  | act i k ih => exact ⟨h.1, fun s => ih s (h.2 s)⟩

theorem Only.perform {L : ι → Prop} {i : ι} (hi : L i) (g : σ → α) :
    (perform i g).Only L := ⟨hi, fun _ => trivial⟩

theorem Only.ite {L : ι → Prop} {c : Prop} [Decidable c] {p q : Prog ι σ α} (hp : p.Only L)
    (hq : q.Only L) : (if c then p else q).Only L := by
  split
  · exact hp
  · exact hq

/-- Every value that the program can return satisfies `R`. -/
def Returns (R : α → Prop) : Prog ι σ α → Prop
  | ret a => R a
  | act _ k => ∀ s, (k s).Returns R

theorem Returns.mono {R S : α → Prop} (hRS : ∀ a, R a → S a) {p : Prog ι σ α}
    (h : p.Returns R) : p.Returns S := by
  induction p with
  | ret a => exact hRS a h
  | act i k ih => exact fun s => ih s (h s)

theorem Returns.bind {R : α → Prop} {S : β → Prop} {p : Prog ι σ α} {f : α → Prog ι σ β}
    (hp : p.Returns R) (hf : ∀ a, R a → (f a).Returns S) : (p.bind f).Returns S := by
  induction p with
  | ret a => exact hf a hp
  | act i k ih => exact fun s => ih s (hp s)

theorem Returns.perform_bind {S : β → Prop} (i : ι) (g : σ → α) {f : α → Prog ι σ β}
    (hf : ∀ a, (f a).Returns S) : ((perform i g).bind f).Returns S := fun s => hf (g s)

theorem Returns.ite {R : α → Prop} {c : Prop} [Decidable c] {p q : Prog ι σ α} (hp : p.Returns R)
    (hq : q.Returns R) : (if c then p else q).Returns R := by
  split
  · exact hp
  · exact hq

theorem Returns.ret_bind {S : β → Prop} {p : Prog ι σ α} {f : α → Prog ι σ β}
    (hf : ∀ a, (f a).Returns S) : (p.bind f).Returns S := by
  induction p with
  | ret a => exact hf a
  | act i k ih => exact ih

/-- The uninterrupted execution. -/
def exec (step : ι → σ → σ) : Prog ι σ α → σ → α × σ
  | ret a, s => (a, s)
  | act i k, s => (k s).exec step (step i s)

theorem exec_bind (step : ι → σ → σ) (p : Prog ι σ α) (f : α → Prog ι σ β) (s : σ) :
    (p.bind f).exec step s = (f (p.exec step s).1).exec step (p.exec step s).2 := by
  induction p generalizing s with
  | ret a => rfl
  | act i k ih => exact ih s (step i s)

theorem exec_perform (step : ι → σ → σ) (i : ι) (g : σ → α) (s : σ) :
    (perform i g).exec step s = (g s, step i s) := rfl

/-- What every statement of the program keeps is kept by its execution. -/
theorem Only.exec {L : ι → Prop} {I : σ → Prop} {step : ι → σ → σ}
    (h : ∀ i s, L i → I s → I (step i s)) {p : Prog ι σ α} (hp : p.Only L) {s : σ} (hs : I s) :
    I (p.exec step s).2 := by
  induction p generalizing s with
  | ret a => exact hs
  | act i k ih => exact ih s (hp.2 s) (h i s hp.1 hs)

theorem only_true (p : Prog ι σ α) : p.Only (fun _ => True) := by
  induction p with
  | ret a => trivial
  | act i k ih => exact ⟨trivial, ih⟩

/-- The same program over a larger state, each of its statements under a new name. -/
def embed {κ τ : Type*} (f : ι → κ) (g : τ → σ) : Prog ι σ α → Prog κ τ α
  | ret a => ret a
  | act i k => act (f i) (fun t => (k (g t)).embed f g)

theorem embed_bind {κ τ : Type*} (f : ι → κ) (g : τ → σ) (p : Prog ι σ α)
    (q : α → Prog ι σ β) : (p.bind q).embed f g = (p.embed f g).bind
      (fun a => (q a).embed f g) := by
  induction p with
  | ret a => rfl
  | act i k ih =>
    simp only [act_bind, embed]
    congr
    funext t
    exact ih (g t)

theorem Returns.exec {R : α → Prop} {p : Prog ι σ α} (hp : p.Returns R) (step : ι → σ → σ)
    (s : σ) : R (p.exec step s).1 := by
  induction p generalizing s with
  | ret a => exact hp
  | act i k ih => exact ih s (hp s) (step i s)

/-- Over a larger state that makes the same steps the program executes the same. -/
theorem exec_embed {κ τ : Type*} {f : ι → κ} {g : τ → σ} {step : ι → σ → σ} {next : κ → τ → τ}
    (h : ∀ i t, g (next (f i) t) = step i (g t)) (p : Prog ι σ α) (t : τ) :
    ((p.embed f g).exec next t).1 = (p.exec step (g t)).1 ∧
      g ((p.embed f g).exec next t).2 = (p.exec step (g t)).2 := by
  induction p generalizing t with
  | ret a => exact ⟨rfl, rfl⟩
  | act i k ih =>
    have hrest := ih (g t) (next (f i) t)
    rw [h] at hrest
    exact hrest

theorem Only.embed {κ τ : Type*} {L : ι → Prop} {M : κ → Prop} {f : ι → κ} (g : τ → σ)
    (hf : ∀ i, L i → M (f i)) {p : Prog ι σ α} (hp : p.Only L) : (p.embed f g).Only M := by
  induction p with
  | ret a => trivial
  | act i k ih => exact ⟨hf i hp.1, fun t => ih (g t) (hp.2 (g t))⟩

theorem Returns.embed {κ τ : Type*} {R : α → Prop} (f : ι → κ) (g : τ → σ) {p : Prog ι σ α}
    (hp : p.Returns R) : (p.embed f g).Returns R := by
  induction p with
  | ret a => exact hp
  | act i k ih => exact fun t => ih (g t) (hp (g t))

end Prog

/-- One move of a run, with the state it was made in. -/
inductive Move (ι σ υ : Type*) where
  | own (i : ι) (s : σ)
  | env (u : υ) (s : σ)

def Move.state : Move ι σ υ → σ
  | .own _ s => s
  | .env _ s => s

/-- A finite run: the program executes statements, the environment acts. -/
inductive Run (step : ι → σ → σ) (env : υ → σ → Option σ) :
    Prog ι σ α → σ → List (Move ι σ υ) → Prog ι σ α → σ → Prop
  | nil (p : Prog ι σ α) (s : σ) : Run step env p s [] p s
  | own {i : ι} {k : σ → Prog ι σ α} {s t : σ} {ms : List (Move ι σ υ)} {q : Prog ι σ α} :
      Run step env (k s) (step i s) ms q t →
      Run step env (.act i k) s (.own i s :: ms) q t
  | env {u : υ} {p : Prog ι σ α} {s s' t : σ} {ms : List (Move ι σ υ)} {q : Prog ι σ α} :
      env u s = some s' → Run step env p s' ms q t →
      Run step env p s (.env u s :: ms) q t

/-- A preorder that every move of a run respects relates each of its states to all
later ones. -/
theorem Run.pairwise_of_moves {step : ι → σ → σ} {env : υ → σ → Option σ} {R : σ → σ → Prop}
    (hrefl : ∀ s, R s s) (htrans : ∀ s t u, R s t → R t u → R s u) {p q : Prog ι σ α} {s t : σ}
    {ms : List (Move ι σ υ)} (h : Run step env p s ms q t)
    (hown : ∀ i x, Move.own i x ∈ ms → R x (step i x))
    (henv : ∀ u x x', Move.env u x ∈ ms → env u x = some x' → R x x') :
    (ms.map Move.state ++ [t]).Pairwise R ∧ ∀ x ∈ ms.map Move.state ++ [t], R s x := by
  induction h with
  | nil p s => exact ⟨List.pairwise_singleton _ _, by simpa using hrefl s⟩
  | @own i k s t ms q hrun ih =>
    obtain ⟨hpair, hall⟩ := ih (fun j x hx => hown j x (by simp [hx]))
      (fun u x x' hx => henv u x x' (by simp [hx]))
    have hfirst : ∀ x ∈ ms.map Move.state ++ [t], R s x :=
      fun x hx => htrans _ _ _ (hown i s (by simp)) (hall x hx)
    refine ⟨List.Pairwise.cons hfirst hpair, ?_⟩
    intro x hx
    rcases List.mem_cons.mp hx with rfl | hx
    · exact hrefl _
    · exact hfirst x hx
  | @env u p s s' t ms q hu hrun ih =>
    obtain ⟨hpair, hall⟩ := ih (fun j x hx => hown j x (by simp [hx]))
      (fun u x x' hx => henv u x x' (by simp [hx]))
    have hfirst : ∀ x ∈ ms.map Move.state ++ [t], R s x :=
      fun x hx => htrans _ _ _ (henv u s s' (by simp) hu) (hall x hx)
    refine ⟨List.Pairwise.cons hfirst hpair, ?_⟩
    intro x hx
    rcases List.mem_cons.mp hx with rfl | hx
    · exact hrefl _
    · exact hfirst x hx

theorem Run.pairwise {step : ι → σ → σ} {env : υ → σ → Option σ} {R : σ → σ → Prop}
    (hrefl : ∀ s, R s s) (htrans : ∀ s t u, R s t → R t u → R s u) (hown : ∀ i s, R s (step i s))
    (henv : ∀ u s s', env u s = some s' → R s s') {p q : Prog ι σ α} {s t : σ}
    {ms : List (Move ι σ υ)} (h : Run step env p s ms q t) :
    (ms.map Move.state ++ [t]).Pairwise R ∧ ∀ x ∈ ms.map Move.state ++ [t], R s x :=
  Run.pairwise_of_moves hrefl htrans h (fun i x _ => hown i x) (fun u x x' _ => henv u x x')

/-- What a statement left is related to the end of the run. -/
theorem Run.after {step : ι → σ → σ} {env : υ → σ → Option σ} {R : σ → σ → Prop}
    (hrefl : ∀ s, R s s) (htrans : ∀ s t u, R s t → R t u → R s u) (hown : ∀ i s, R s (step i s))
    (henv : ∀ u s s', env u s = some s' → R s s') {p q : Prog ι σ α} {s t : σ}
    {ms : List (Move ι σ υ)} (h : Run step env p s ms q t) {i : ι} {x : σ}
    (hmem : Move.own i x ∈ ms) : R (step i x) t := by
  induction h with
  | nil p s => cases hmem
  | @own j k s t ms q hrun ih =>
    rcases List.mem_cons.mp hmem with heq | hmem
    · cases heq
      exact (Run.pairwise hrefl htrans hown henv hrun).2 t (by simp)
    · exact ih hmem
  | @env u p s s' t ms q hu hrun ih =>
    rcases List.mem_cons.mp hmem with heq | hmem
    · cases heq
    · exact ih hmem

/-- What every move of a run keeps holds in each of its states. -/
theorem Run.invariant_of_moves {step : ι → σ → σ} {env : υ → σ → Option σ} {I : σ → Prop}
    {p q : Prog ι σ α} {s t : σ} {ms : List (Move ι σ υ)} (h : Run step env p s ms q t) (hs : I s)
    (hown : ∀ i x, Move.own i x ∈ ms → I x → I (step i x))
    (henv : ∀ u x x', Move.env u x ∈ ms → env u x = some x' → I x → I x') :
    (∀ m ∈ ms, I m.state) ∧ I t := by
  induction h with
  | nil p s => exact ⟨by simp, hs⟩
  | @own i k s t ms q hrun ih =>
    obtain ⟨hall, ht⟩ := ih (hown i s (by simp) hs) (fun j x hx => hown j x (by simp [hx]))
      (fun u x x' hx => henv u x x' (by simp [hx]))
    exact ⟨List.forall_mem_cons.mpr ⟨hs, hall⟩, ht⟩
  | @env u p s s' t ms q hu hrun ih =>
    obtain ⟨hall, ht⟩ := ih (henv u s s' (by simp) hu hs) (fun j x hx => hown j x (by simp [hx]))
      (fun u x x' hx => henv u x x' (by simp [hx]))
    exact ⟨List.forall_mem_cons.mpr ⟨hs, hall⟩, ht⟩

theorem Run.invariant {step : ι → σ → σ} {env : υ → σ → Option σ} {I : σ → Prop}
    (hown : ∀ i s, I s → I (step i s)) (henv : ∀ u s s', env u s = some s' → I s → I s')
    {p q : Prog ι σ α} {s t : σ} {ms : List (Move ι σ υ)} (h : Run step env p s ms q t)
    (hs : I s) : (∀ m ∈ ms, I m.state) ∧ I t :=
  Run.invariant_of_moves h hs (fun i x _ => hown i x) (fun u x x' _ => henv u x x')

/-- What holds at the start of a run holds at its end, or one of the moves ends it. -/
theorem Run.kept_or_lost {step : ι → σ → σ} {env : υ → σ → Option σ} {H : σ → Prop}
    {p q : Prog ι σ α} {s t : σ} {ms : List (Move ι σ υ)} (h : Run step env p s ms q t)
    (hs : H s) : H t ∨ (∃ i x, Move.own i x ∈ ms ∧ H x ∧ ¬ H (step i x)) ∨
      ∃ u x x', Move.env u x ∈ ms ∧ env u x = some x' ∧ H x ∧ ¬ H x' := by
  by_cases hown : ∀ i x, Move.own i x ∈ ms → H x → H (step i x)
  · by_cases henv : ∀ u x x', Move.env u x ∈ ms → env u x = some x' → H x → H x'
    · exact Or.inl (Run.invariant_of_moves h hs hown henv).2
    · simp only [Classical.not_forall] at henv
      obtain ⟨u, x, x', hmem, hu, hx, hlost⟩ := henv
      exact Or.inr (Or.inr ⟨u, x, x', hmem, hu, hx, hlost⟩)
  · simp only [Classical.not_forall] at hown
    obtain ⟨i, x, hmem, hx, hlost⟩ := hown
    exact Or.inr (Or.inl ⟨i, x, hmem, hx, hlost⟩)

/-- From each of its moves on a run is a run. -/
theorem Run.from_move {step : ι → σ → σ} {env : υ → σ → Option σ} {p q : Prog ι σ α} {s t : σ}
    {ms : List (Move ι σ υ)} (h : Run step env p s ms q t) {m : Move ι σ υ} (hm : m ∈ ms) :
    ∃ r ms', Run step env r m.state ms' q t ∧ ∀ m' ∈ ms', m' ∈ ms := by
  induction h with
  | nil p s => cases hm
  | @own i k s t ms q hrun ih =>
    rcases List.mem_cons.mp hm with rfl | hm
    · exact ⟨.act i k, _, Run.own hrun, fun _ hm' => hm'⟩
    · obtain ⟨r, ms', hrest, hsub⟩ := ih hm
      exact ⟨r, ms', hrest, fun m' hm' => List.mem_cons_of_mem _ (hsub m' hm')⟩
  | @env u p s s' t ms q hu hrun ih =>
    rcases List.mem_cons.mp hm with rfl | hm
    · exact ⟨p, _, Run.env hu hrun, fun _ hm' => hm'⟩
    · obtain ⟨r, ms', hrest, hsub⟩ := ih hm
      exact ⟨r, ms', hrest, fun m' hm' => List.mem_cons_of_mem _ (hsub m' hm')⟩

/-- An invariant that refers to the moves made so far holds in front of each move. -/
theorem Run.history {step : ι → σ → σ} {env : υ → σ → Option σ} {I : List (Move ι σ υ) → σ → Prop}
    {p q : Prog ι σ α} {s t : σ} {ms past : List (Move ι σ υ)} (h : Run step env p s ms q t)
    (hs : I past s)
    (hown : ∀ past i x, Move.own i x ∈ ms → I past x → I (past ++ [.own i x]) (step i x))
    (henv : ∀ past u x x', Move.env u x ∈ ms → env u x = some x' → I past x →
      I (past ++ [.env u x]) x') :
    ∀ ms₁ m ms₂, ms = ms₁ ++ m :: ms₂ → I (past ++ ms₁) m.state := by
  induction h generalizing past with
  | nil p s => exact fun ms₁ m ms₂ hms => absurd hms (by simp)
  | @own i k s t ms q hrun ih =>
    intro ms₁ m ms₂ hms
    rcases List.cons_eq_append_iff.mp hms with ⟨rfl, hms⟩ | ⟨ms₁, rfl, rfl⟩
    · cases hms
      rwa [List.append_nil]
    · rw [List.append_cons]
      exact ih (hown past i s (by simp) hs) (fun past j x hx => hown past j x (by simp [hx]))
        (fun past u x x' hx => henv past u x x' (by simp [hx])) ms₁ m ms₂ rfl
  | @env u p s s' t ms q hu hrun ih =>
    intro ms₁ m ms₂ hms
    rcases List.cons_eq_append_iff.mp hms with ⟨rfl, hms⟩ | ⟨ms₁, rfl, rfl⟩
    · cases hms
      rwa [List.append_nil]
    · rw [List.append_cons]
      exact ih (henv past u s s' (by simp) hu hs) (fun past j x hx => hown past j x (by simp [hx]))
        (fun past u x x' hx => henv past u x x' (by simp [hx])) ms₁ m ms₂ rfl

/-- A run executes the statements of its program. -/
theorem Run.only {step : ι → σ → σ} {env : υ → σ → Option σ} {L : ι → Prop} {p q : Prog ι σ α}
    {s t : σ} {ms : List (Move ι σ υ)} (h : Run step env p s ms q t) (hp : p.Only L) :
    ∀ i x, Move.own i x ∈ ms → L i := by
  induction h with
  | nil p s => exact fun i x hx => absurd hx (by simp)
  | @own j k s t ms q hrun ih =>
    intro i x hx
    rcases List.mem_cons.mp hx with heq | hx
    · cases heq
      exact hp.1
    · exact ih (hp.2 s) i x hx
  | @env u p s s' t ms q hu hrun ih =>
    intro i x hx
    rcases List.mem_cons.mp hx with heq | hx
    · cases heq
    · exact ih hp i x hx

/-- What is left of a program can only return what the program can return. -/
theorem Run.returns {step : ι → σ → σ} {env : υ → σ → Option σ} {R : α → Prop}
    {p q : Prog ι σ α} {s t : σ} {ms : List (Move ι σ υ)} (h : Run step env p s ms q t)
    (hp : p.Returns R) : q.Returns R := by
  induction h with
  | nil p s => exact hp
  | own hrun ih => exact ih (hp _)
  | env hu hrun ih => exact ih hp

/-- A program that has finished makes no further move. -/
theorem Run.of_ret {step : ι → σ → σ} {env : υ → σ → Option σ} {a : α} {q : Prog ι σ α} {s t : σ}
    {ms : List (Move ι σ υ)} (h : Run step env (.ret a) s ms q t) :
    q = .ret a ∧ ∀ m ∈ ms, ∃ u x, m = .env u x := by
  induction ms generalizing s with
  | nil =>
    cases h
    exact ⟨rfl, by simp⟩
  | cons m ms ih =>
    cases h with
    | env hu hrun =>
      obtain ⟨hq, hall⟩ := ih hrun
      exact ⟨hq, List.forall_mem_cons.mpr ⟨⟨_, _, rfl⟩, hall⟩⟩

/-- A finished run of one statement: the environment moves before it and after it. -/
theorem Run.of_perform {step : ι → σ → σ} {env : υ → σ → Option σ} {i : ι} {g : σ → α} {a : α}
    {s t : σ} {ms : List (Move ι σ υ)} (h : Run step env (Prog.perform i g) s ms (.ret a) t) :
    ∃ ms₁ ms₂ x, ms = ms₁ ++ .own i x :: ms₂ ∧ a = g x ∧
      Run step env (Prog.perform i g) s ms₁ (Prog.perform i g) x ∧
      ∀ m ∈ ms₂, ∃ u y, m = .env u y := by
  induction ms generalizing s with
  | nil => cases h
  | cons m ms ih =>
    cases h with
    | own hrun =>
      obtain ⟨hq, hall⟩ := Run.of_ret hrun
      cases hq
      exact ⟨[], ms, s, rfl, rfl, Run.nil _ _, hall⟩
    | env hu hrun =>
      obtain ⟨ms₁, ms₂, x, rfl, hx, hbefore, hafter⟩ := ih hrun
      exact ⟨_ :: ms₁, ms₂, x, rfl, hx, Run.env hu hbefore, hafter⟩

/-- A run of two programs in sequence is still in the first, or has a first part that
finished it and a second part. -/
theorem Run.of_bind {step : ι → σ → σ} {env : υ → σ → Option σ} {p : Prog ι σ α}
    {f : α → Prog ι σ β} {q : Prog ι σ β} {s t : σ} {ms : List (Move ι σ υ)}
    (h : Run step env (p.bind f) s ms q t) :
    (∃ p', Run step env p s ms p' t ∧ q = p'.bind f) ∨
      ∃ a ms₁ ms₂ u, ms = ms₁ ++ ms₂ ∧ Run step env p s ms₁ (.ret a) u ∧
        Run step env (f a) u ms₂ q t := by
  generalize hr : p.bind f = r at h
  induction h generalizing p with
  | nil r s => exact Or.inl ⟨p, Run.nil p s, hr.symm⟩
  | @own i k s t ms q hrun ih =>
    cases p with
    | ret a =>
      rw [Prog.ret_bind] at hr
      refine Or.inr ⟨a, [], _, s, rfl, Run.nil _ _, ?_⟩
      rw [hr]
      exact Run.own hrun
    | act j l =>
      simp only [Prog.act_bind, Prog.act.injEq] at hr
      obtain ⟨rfl, rfl⟩ := hr
      rcases ih rfl with ⟨p', hp', hq⟩ | ⟨a, ms₁, ms₂, u, rfl, hp', hf⟩
      · exact Or.inl ⟨p', Run.own hp', hq⟩
      · exact Or.inr ⟨a, _ :: ms₁, ms₂, u, rfl, Run.own hp', hf⟩
  | @env u r s s' t ms q hu hrun ih =>
    rcases ih hr with ⟨p', hp', hq⟩ | ⟨a, ms₁, ms₂, v, rfl, hp', hf⟩
    · exact Or.inl ⟨p', Run.env hu hp', hq⟩
    · exact Or.inr ⟨a, _ :: ms₁, ms₂, v, rfl, Run.env hu hp', hf⟩

/-- A finished run of two programs in sequence consists of finished runs of both. -/
theorem Run.of_bind_ret {step : ι → σ → σ} {env : υ → σ → Option σ} {p : Prog ι σ α}
    {f : α → Prog ι σ β} {b : β} {s t : σ} {ms : List (Move ι σ υ)}
    (h : Run step env (p.bind f) s ms (.ret b) t) :
    ∃ a ms₁ ms₂ u, ms = ms₁ ++ ms₂ ∧ Run step env p s ms₁ (.ret a) u ∧
      Run step env (f a) u ms₂ (.ret b) t := by
  rcases Run.of_bind h with ⟨p', hp', hq⟩ | hsplit
  · cases p' with
    | ret a =>
      rw [Prog.ret_bind] at hq
      refine ⟨a, ms, [], t, (List.append_nil ms).symm, hp', ?_⟩
      rw [← hq]
      exact Run.nil _ _
    | act i k => cases hq
  · exact hsplit

/-- Play a schedule: `none` lets the program execute a statement, `some u` lets
the environment act. The result is `none` where a scheduled move is impossible. -/
def play (step : ι → σ → σ) (env : υ → σ → Option σ) :
    List (Option υ) → Prog ι σ α → σ → Option (List (Move ι σ υ) × Prog ι σ α × σ)
  | [], p, s => some ([], p, s)
  | none :: _, .ret _, _ => none
  | none :: rest, .act i k, s =>
      (play step env rest (k s) (step i s)).map (fun r => (.own i s :: r.1, r.2))
  | some u :: rest, p, s =>
      (env u s).bind (fun s' => (play step env rest p s').map (fun r => (.env u s :: r.1, r.2)))

/-- Every schedule that can be played is a run. -/
theorem play_run (step : ι → σ → σ) (env : υ → σ → Option σ) (sched : List (Option υ))
    (p q : Prog ι σ α) (s t : σ) (ms : List (Move ι σ υ))
    (h : play step env sched p s = some (ms, q, t)) : Run step env p s ms q t := by
  induction sched generalizing p s ms with
  | nil =>
    simp only [play, Option.some.injEq, Prod.mk.injEq] at h
    obtain ⟨rfl, rfl, rfl⟩ := h
    exact Run.nil p s
  | cons m rest ih =>
    cases m with
    | none =>
      cases p with
      | ret a => simp [play] at h
      | act i k =>
        simp only [play, Option.map_eq_some_iff, Prod.mk.injEq] at h
        obtain ⟨⟨ms', q', t'⟩, hplay, rfl, rfl, rfl⟩ := h
        exact Run.own (ih _ _ _ hplay)
    | some u =>
      simp only [play, Option.bind_eq_some_iff, Option.map_eq_some_iff, Prod.mk.injEq] at h
      obtain ⟨s', henv, ⟨ms', q', t'⟩, hplay, rfl, rfl, rfl⟩ := h
      exact Run.env henv (ih _ _ _ hplay)

/-- A check of what a schedule leads to is a check of some run. -/
theorem exists_run_of_play (step : ι → σ → σ) (env : υ → σ → Option σ) (sched : List (Option υ))
    (p : Prog ι σ α) (s : σ) (check : List (Move ι σ υ) × Prog ι σ α × σ → Bool)
    (h : (play step env sched p s).any check = true) :
    ∃ ms q t, Run step env p s ms q t ∧ check (ms, q, t) = true := by
  cases hplay : play step env sched p s with
  | none =>
    rw [hplay] at h
    cases h
  | some r =>
    rw [hplay] at h
    exact ⟨r.1, r.2.1, r.2.2, play_run step env sched p _ s _ _ hplay, h⟩

/-- A check of a run that has come to its end. -/
def atEnd (check : List (Move ι σ υ) → α → σ → Bool) :
    List (Move ι σ υ) × Prog ι σ α × σ → Bool
  | (ms, .ret a, s) => check ms a s
  | _ => false

theorem exists_complete_run (step : ι → σ → σ) (env : υ → σ → Option σ) (sched : List (Option υ))
    (p : Prog ι σ α) (s : σ) (check : List (Move ι σ υ) → α → σ → Bool)
    (h : (play step env sched p s).any (atEnd check) = true) :
    ∃ ms a t, Run step env p s ms (.ret a) t ∧ check ms a t = true := by
  obtain ⟨ms, q, t, hrun, hcheck⟩ := exists_run_of_play step env sched p s (atEnd check) h
  cases q with
  | ret a => exact ⟨ms, a, t, hrun, hcheck⟩
  | act i k => cases hcheck

/-- Without an environment the program runs to the end of its execution. -/
theorem run_exec (step : ι → σ → σ) (env : υ → σ → Option σ) (p : Prog ι σ α) (s : σ) :
    ∃ ms, Run step env p s ms (.ret (p.exec step s).1) (p.exec step s).2 ∧
      ∀ m ∈ ms, ∃ i x, m = .own i x := by
  induction p generalizing s with
  | ret a => exact ⟨[], Run.nil _ _, by simp⟩
  | act i k ih =>
    obtain ⟨ms, hrun, hown⟩ := ih s (step i s)
    refine ⟨_, Run.own hrun, ?_⟩
    intro m hm
    rcases List.mem_cons.mp hm with rfl | hm
    · exact ⟨i, s, rfl⟩
    · exact hown m hm

/-- What statements do, what the environment may do, which moves a run may make
(`ok`) and what has to hold before each statement (`goal`). -/
structure Discipline (ι σ υ : Type*) where
  step : ι → σ → σ
  env : υ → σ → Option σ
  ok : Move ι σ υ → Prop
  goal : ι → σ → Prop

namespace Discipline

variable (D : Discipline ι σ υ)

/-- One admissible action of the environment. -/
def Rely (s s' : σ) : Prop := ∃ u, D.env u s = some s' ∧ D.ok (.env u s)

/-- An assertion the environment cannot falsify. -/
def Stable (P : σ → Prop) : Prop := ∀ s s', P s → D.Rely s s' → P s'

theorem Stable.star {D : Discipline ι σ υ} {P : σ → Prop} (hP : D.Stable P) {s s' : σ}
    (hs : P s) (h : Relation.ReflTransGen D.Rely s s') : P s' := by
  induction h with
  | refl => exact hs
  | tail _ hr ih => exact hP _ _ ih hr

theorem Stable.and {D : Discipline ι σ υ} {P Q : σ → Prop} (hP : D.Stable P)
    (hQ : D.Stable Q) : D.Stable (fun s => P s ∧ Q s) :=
  fun _ _ h hr => ⟨hP _ _ h.1 hr, hQ _ _ h.2 hr⟩

/-- From `s`, every admissible run of the program meets the goal before each of
its statements, and a run that finishes satisfies `Q`. -/
def wp : Prog ι σ α → (α → σ → Prop) → σ → Prop
  | .ret a, Q, s => ∀ s', Relation.ReflTransGen D.Rely s s' → Q a s'
  | .act i k, Q, s => ∀ s', Relation.ReflTransGen D.Rely s s' → D.ok (.own i s') →
      D.goal i s' ∧ wp (k s') Q (D.step i s')

/-- `P` before the program, `Q` after it, the goal before each statement. -/
def Triple (P : σ → Prop) (p : Prog ι σ α) (Q : α → σ → Prop) : Prop :=
  ∀ s, P s → D.wp p Q s

variable {D}

theorem wp_of_rely {p : Prog ι σ α} {Q : α → σ → Prop} {s s' : σ}
    (h : D.wp p Q s) (hr : D.Rely s s') : D.wp p Q s' := by
  cases p with
  | ret a => exact fun t ht => h t (Relation.ReflTransGen.head hr ht)
  | act i k => exact fun t ht => h t (Relation.ReflTransGen.head hr ht)

/-- A proved triple speaks about every admissible run. -/
theorem wp_run {p q : Prog ι σ α} {Q : α → σ → Prop} {s t : σ} {ms : List (Move ι σ υ)}
    (hrun : Run D.step D.env p s ms q t) (h : D.wp p Q s) (hok : ∀ m ∈ ms, D.ok m) :
    (∀ i x, Move.own i x ∈ ms → D.goal i x) ∧ ∀ a, q = .ret a → Q a t := by
  induction hrun with
  | nil p s =>
    refine ⟨fun i x hx => absurd hx (by simp), ?_⟩
    rintro a rfl
    exact h s Relation.ReflTransGen.refl
  | @own i k s t ms q hrun ih =>
    obtain ⟨hgoal, hrest⟩ := h s Relation.ReflTransGen.refl (hok _ (by simp))
    obtain ⟨hg, hq⟩ := ih hrest (fun m hm => hok m (by simp [hm]))
    refine ⟨?_, hq⟩
    intro j x hx
    rcases List.mem_cons.mp hx with heq | hx
    · cases heq
      exact hgoal
    · exact hg j x hx
  | @env u p s s' t ms q henv hrun ih =>
    have hr : D.Rely s s' := ⟨u, henv, hok _ (by simp)⟩
    obtain ⟨hg, hq⟩ := ih (wp_of_rely h hr) (fun m hm => hok m (by simp [hm]))
    refine ⟨?_, hq⟩
    intro j x hx
    rcases List.mem_cons.mp hx with heq | hx
    · cases heq
    · exact hg j x hx

theorem wp_mono {p : Prog ι σ α} {Q Q' : α → σ → Prop} (hQ : ∀ a s, Q a s → Q' a s)
    {s : σ} (h : D.wp p Q s) : D.wp p Q' s := by
  induction p generalizing s with
  | ret a => exact fun s' hs' => hQ a s' (h s' hs')
  | act i k ih =>
    intro s' hs' hok
    obtain ⟨hg, hk⟩ := h s' hs' hok
    exact ⟨hg, ih s' hk⟩

theorem wp_bind {p : Prog ι σ α} {f : α → Prog ι σ β} {Q : α → σ → Prop}
    {Q' : β → σ → Prop} (hf : ∀ a, D.Triple (Q a) (f a) Q') {s : σ}
    (h : D.wp p Q s) : D.wp (p.bind f) Q' s := by
  induction p generalizing s with
  | ret a => exact hf a s (h s Relation.ReflTransGen.refl)
  | act i k ih =>
    intro s' hs' hok
    obtain ⟨hg, hk⟩ := h s' hs' hok
    exact ⟨hg, ih s' hk⟩

theorem Triple.conseq {P R : σ → Prop} {p : Prog ι σ α} {Q Q' : α → σ → Prop}
    (h : D.Triple P p Q) (hP : ∀ s, R s → P s) (hQ : ∀ a s, Q a s → Q' a s) :
    D.Triple R p Q' :=
  fun s hs => wp_mono hQ (h s (hP s hs))

theorem Triple.bind {P : σ → Prop} {p : Prog ι σ α} {f : α → Prog ι σ β}
    {Q : α → σ → Prop} {Q' : β → σ → Prop} (hp : D.Triple P p Q)
    (hf : ∀ a, D.Triple (Q a) (f a) Q') : D.Triple P (p.bind f) Q' :=
  fun s hs => wp_bind hf (hp s hs)

theorem Triple.ret {P : σ → Prop} {a : α} {Q : α → σ → Prop} (hP : D.Stable P)
    (hQ : ∀ s, P s → Q a s) : D.Triple P (.ret a) Q :=
  fun _ hs s' hs' => hQ s' (hP.star hs hs')

/-- One statement: its precondition is stable, the goal holds there, and what it
leaves is a precondition of the rest. -/
theorem Triple.act {P : σ → Prop} {i : ι} {k : σ → Prog ι σ α} {Q : α → σ → Prop}
    (hP : D.Stable P)
    (h : ∀ s, P s → D.ok (.own i s) → D.goal i s ∧ D.wp (k s) Q (D.step i s)) :
    D.Triple P (.act i k) Q :=
  fun _ hs s' hs' hok => h s' (hP.star hs hs') hok

/-- A statement that returns what it read, followed by the rest. -/
theorem Triple.perform_bind {P : σ → Prop} {i : ι} {g : σ → α} {f : α → Prog ι σ β}
    {Q : β → σ → Prop} (mid : α → σ → Prop) (hP : D.Stable P)
    (h : ∀ s, P s → D.ok (.own i s) → D.goal i s ∧ mid (g s) (D.step i s))
    (hf : ∀ a, D.Triple (mid a) (f a) Q) : D.Triple P ((Prog.perform i g).bind f) Q := by
  apply Triple.act hP
  intro s hs hok
  obtain ⟨hg, hm⟩ := h s hs hok
  exact ⟨hg, hf (g s) _ hm⟩

/-- A case distinction that does not look at the state. -/
theorem Triple.ite {P : σ → Prop} {c : Prop} [Decidable c] {p q : Prog ι σ α}
    {Q : α → σ → Prop} (hp : c → D.Triple P p Q) (hq : ¬ c → D.Triple P q Q) :
    D.Triple P (if c then p else q) Q := by
  by_cases hc : c
  · rw [if_pos hc]
    exact hp hc
  · rw [if_neg hc]
    exact hq hc

/-- What is known of the value besides. -/
theorem Triple.returns {P : σ → Prop} {p : Prog ι σ α} {Q : α → σ → Prop} {R : α → Prop}
    (h : D.Triple P p Q) (hR : p.Returns R) : D.Triple P p (fun a s => Q a s ∧ R a) := by
  have hwp : ∀ s, D.wp p Q s → D.wp p (fun a s => Q a s ∧ R a) s := by
    clear h
    induction p with
    | ret a => exact fun s hs s' hs' => ⟨hs s' hs', hR⟩
    | act i k ih =>
      intro s hs s' hs' hok
      obtain ⟨hg, hk⟩ := hs s' hs' hok
      exact ⟨hg, ih s' (hR s') _ hk⟩
  exact fun s hs => hwp s (h s hs)

/-- Two programs that keep an invariant, one after the other. -/
theorem Triple.seq {I : σ → Prop} {p : Prog ι σ α} {f : α → Prog ι σ β}
    (hp : D.Triple I p (fun _ => I)) (hf : ∀ a, D.Triple I (f a) (fun _ => I)) :
    D.Triple I (p.bind f) (fun _ => I) := Triple.bind hp hf

/-- An invariant of all statements in `L` is kept by every program over `L`,
whatever its control flow. -/
theorem Triple.only {I : σ → Prop} {L : ι → Prop} {p : Prog ι σ α} (hI : D.Stable I)
    (h : ∀ i s, L i → I s → D.ok (.own i s) → D.goal i s ∧ I (D.step i s))
    (hp : p.Only L) : D.Triple I p (fun _ => I) := by
  induction p with
  | ret a => exact Triple.ret hI (fun _ hs => hs)
  | act i k ih =>
    apply Triple.act hI
    intro s hs hok
    obtain ⟨hg, hi⟩ := h i s hp.1 hs hok
    exact ⟨hg, ih s (hp.2 s) _ hi⟩

end Discipline

end Rhodes.Interleaving
