import Mathlib

/-!
Loops that need not end. A loop is run on fuel, and it yields a result when any fuel from some
amount on gives that result. The two loops here are a walk round a ring of slots, which stops at the
first slot that is wanted, and the pursuit of a chain of links. A doubly linked chain is described
by the list of its places, and appending to it or cutting a place out of it changes the list in the
same way.
-/
namespace Rhodes.Loops

section Fuel

variable {α β : Type*}

/-- Fuel from some amount on gives the result. -/
def Yields (f : ℕ → Option α) (a : α) : Prop := ∃ n, ∀ fuel, n ≤ fuel → f fuel = some a

theorem Yields.const (a : α) : Yields (fun _ => some a) a := ⟨0, fun _ _ => rfl⟩

theorem Yields.bind {f : ℕ → Option α} {g : ℕ → α → Option β} {a : α} {b : β} (hf : Yields f a)
    (hg : Yields (fun fuel => g fuel a) b) : Yields (fun fuel => (f fuel).bind (g fuel)) b := by
  obtain ⟨m, hm⟩ := hf
  obtain ⟨n, hn⟩ := hg
  refine ⟨max m n, fun fuel hfuel => ?_⟩
  show (f fuel).bind (g fuel) = some b
  rw [hm fuel (le_trans (le_max_left m n) hfuel)]
  exact hn fuel (le_trans (le_max_right m n) hfuel)

theorem Yields.of_bind {f : ℕ → Option α} {g : ℕ → α → Option β} {a : α} {b : β}
    (hf : Yields f a) (hb : Yields (fun fuel => (f fuel).bind (g fuel)) b) :
    Yields (fun fuel => g fuel a) b := by
  obtain ⟨m, hm⟩ := hf
  obtain ⟨n, hn⟩ := hb
  refine ⟨max m n, fun fuel hfuel => ?_⟩
  have h := hn fuel (le_trans (le_max_right m n) hfuel)
  dsimp only at h
  rwa [hm fuel (le_trans (le_max_left m n) hfuel)] at h

/-- A loop that never comes to an end yields nothing. -/
theorem Yields.not_of_none {f : ℕ → Option α} (h : ∀ fuel, f fuel = none) (a : α) :
    ¬Yields f a := by
  rintro ⟨n, hn⟩
  have := (h n).symm.trans (hn n le_rfl)
  cases this

end Fuel

section Ring

variable {wanted wanted' : ℕ → Bool} {size i j : ℕ}

/-- The slot behind a slot, round the ring. -/
def next (size i : ℕ) : ℕ := if i + 1 = size then 0 else i + 1

/-- The first slot from `i` on that is wanted. -/
def walk (wanted : ℕ → Bool) (size : ℕ) : ℕ → ℕ → Option ℕ
  | 0, _ => none
  | fuel + 1, i => if wanted i then some i else walk wanted size fuel (next size i)

/-- No slot passed on the way from `i` to `j` is wanted. -/
def Unwanted (wanted : ℕ → Bool) (size i j : ℕ) : Prop :=
  ∃ k < size, j = (i + k) % size ∧ ∀ l < k, wanted ((i + l) % size) = false

theorem next_eq (hi : i < size) : next size i = (i + 1) % size := by
  unfold next
  split
  · rename_i h
    rw [h, Nat.mod_self]
  · rw [Nat.mod_eq_of_lt (by omega)]

theorem next_lt (hi : i < size) : next size i < size := by
  rw [next_eq hi]
  exact Nat.mod_lt _ (by omega)

theorem next_add (hi : i < size) (l : ℕ) : (next size i + l) % size = (i + (l + 1)) % size := by
  rw [next_eq hi, Nat.mod_add_mod, Nat.add_assoc, Nat.add_comm 1 l]

/-- The walk stops at the first wanted slot. -/
theorem walk_of_unwanted (hi : i < size) {k fuel : ℕ} (hfuel : k < fuel)
    (hwanted : wanted ((i + k) % size) = true)
    (hpassed : ∀ l < k, wanted ((i + l) % size) = false) :
    walk wanted size fuel i = some ((i + k) % size) := by
  induction k generalizing i fuel with
  | zero =>
    obtain ⟨fuel, rfl⟩ : ∃ f, fuel = f + 1 := ⟨fuel - 1, by omega⟩
    have hzero : (i + 0) % size = i := Nat.mod_eq_of_lt hi
    rw [hzero] at hwanted ⊢
    rw [walk, if_pos hwanted]
  | succ k ih =>
    obtain ⟨fuel, rfl⟩ : ∃ f, fuel = f + 1 := ⟨fuel - 1, by omega⟩
    have hhere := hpassed 0 (by omega)
    rw [Nat.add_zero, Nat.mod_eq_of_lt hi] at hhere
    rw [walk, if_neg (by simp [hhere]), ih (next_lt hi) (by omega)]
    · rw [next_add hi]
    · rw [next_add hi]
      exact hwanted
    · intro l hl
      rw [next_add hi]
      exact hpassed (l + 1) (by omega)

/-- Where some slot is wanted, there is a first one. -/
theorem exists_first (hi : i < size) (hj : j < size) (hwanted : wanted j = true) :
    ∃ k < size, wanted ((i + k) % size) = true ∧
      ∀ l < k, wanted ((i + l) % size) = false := by
  have hex : ∃ k, wanted ((i + k) % size) = true := by
    refine ⟨j + (size - i), ?_⟩
    rw [show i + (j + (size - i)) = j + size by omega, Nat.add_mod_right, Nat.mod_eq_of_lt hj]
    exact hwanted
  have hsmall : ∃ k < size, wanted ((i + k) % size) = true := by
    obtain ⟨k, hk⟩ := hex
    refine ⟨k % size, Nat.mod_lt _ (by omega), ?_⟩
    rw [Nat.add_mod_mod]
    exact hk
  obtain ⟨k, hk, hw⟩ := hsmall
  have hfind := Nat.find_spec hex
  refine ⟨Nat.find hex, lt_of_le_of_lt (Nat.find_min' hex hw) hk, hfind, fun l hl => ?_⟩
  exact Bool.eq_false_iff.mpr (Nat.find_min hex hl)

theorem walk_ends (hi : i < size) (hj : j < size) (hwanted : wanted j = true) :
    ∃ m < size, wanted m = true ∧ Unwanted wanted size i m ∧
      ∀ fuel, size ≤ fuel → walk wanted size fuel i = some m := by
  obtain ⟨k, hk, hw, hpassed⟩ := exists_first hi hj hwanted
  refine ⟨(i + k) % size, Nat.mod_lt _ (by omega), hw, ⟨k, hk, rfl, hpassed⟩, fun fuel hfuel => ?_⟩
  exact walk_of_unwanted hi (by omega) hw hpassed

/-- The walk goes round for ever when no slot is wanted. -/
theorem walk_never (hi : i < size) (hnone : ∀ j < size, wanted j = false) (fuel : ℕ) :
    walk wanted size fuel i = none := by
  induction fuel generalizing i with
  | zero => rfl
  | succ fuel ih => rw [walk, if_neg (by simp [hnone i hi]), ih (next_lt hi)]

theorem walk_reaches (hi : i < size) (hpath : Unwanted wanted size i j)
    (hwanted : wanted j = true) {fuel : ℕ} (hfuel : size ≤ fuel) :
    walk wanted size fuel i = some j := by
  obtain ⟨k, hk, rfl, hpassed⟩ := hpath
  exact walk_of_unwanted hi (by omega) hwanted hpassed

theorem Unwanted.mono (h : Unwanted wanted size i j)
    (himp : ∀ m < size, wanted' m = true → wanted m = true) : Unwanted wanted' size i j := by
  obtain ⟨k, hk, rfl, hpassed⟩ := h
  refine ⟨k, hk, rfl, fun l hl => Bool.eq_false_iff.mpr fun hw => ?_⟩
  have := himp _ (Nat.mod_lt _ (by omega)) hw
  rw [hpassed l hl] at this
  cases this

/-- A slot on the way that is not the end of the way is not wanted. -/
theorem Unwanted.mono_of_ne (h : Unwanted wanted size i j)
    (himp : ∀ m < size, m ≠ j → wanted' m = true → wanted m = true) :
    Unwanted wanted' size i j := by
  obtain ⟨k, hk, rfl, hpassed⟩ := h
  refine ⟨k, hk, rfl, fun l hl => Bool.eq_false_iff.mpr fun hw => ?_⟩
  have hne : (i + l) % size ≠ (i + k) % size := by
    intro heq
    have hdvd : size ∣ (i + k) - (i + l) := (Nat.modEq_iff_dvd' (by omega)).mp heq
    have := Nat.le_of_dvd (by omega) hdvd
    omega
  have := himp _ (Nat.mod_lt _ (by omega)) hne hw
  rw [hpassed l hl] at this
  cases this

/-- There is one first wanted slot. -/
theorem Unwanted.unique {m : ℕ} (hi : i < size) (hj : Unwanted wanted size i j)
    (hm : Unwanted wanted size i m) (hjwanted : wanted j = true) (hmwanted : wanted m = true) :
    j = m := Option.some.inj
  ((walk_reaches hi hj hjwanted le_rfl).symm.trans (walk_reaches hi hm hmwanted le_rfl))

end Ring

section Chain

variable {next next' prev prev' : ℕ → Option ℕ} {order xs ys : List ℕ} {n : ℕ}

/-- The places from one on, link by link. -/
def follow (next : ℕ → Option ℕ) : ℕ → Option ℕ → Option (List ℕ)
  | _, none => some []
  | 0, some _ => none
  | fuel + 1, some i => (follow next fuel (next i)).map (i :: ·)

/-- Each place is linked to the one behind it and to the one before it. -/
def Linked (next prev : ℕ → Option ℕ) (order : List ℕ) : Prop :=
  ∀ xs i ys, order = xs ++ i :: ys → next i = ys.head? ∧ prev i = xs.getLast?

theorem linked_nil : Linked next prev [] := by
  intro xs i ys h
  simp at h

theorem Linked.follow (h : Linked next prev order) {fuel : ℕ} (hfuel : order.length ≤ fuel) :
    follow next fuel order.head? = some order := by
  suffices hsuff : ∀ ys xs fuel, order = xs ++ ys → ys.length ≤ fuel →
      Loops.follow next fuel ys.head? = some ys from hsuff order [] fuel rfl hfuel
  intro ys
  induction ys with
  | nil =>
    intro xs fuel _ _
    cases fuel <;> rfl
  | cons i rest ih =>
    intro xs fuel horder hlength
    obtain ⟨fuel, rfl⟩ : ∃ f, fuel = f + 1 := ⟨fuel - 1, by simp at hlength; omega⟩
    have hrest := ih (xs ++ [i]) fuel (by simpa using horder) (by simpa using hlength)
    simp only [List.head?_cons, Loops.follow, (h xs i rest horder).1, hrest, Option.map_some]

theorem getLast?_eq_some_iff_of_nodup {i : ℕ} (hnodup : (xs ++ i :: ys).Nodup) :
    (xs ++ i :: ys).getLast? = some i ↔ ys = [] := by
  constructor
  · intro h
    rcases List.eq_nil_or_concat' ys with rfl | ⟨zs, z, rfl⟩
    · rfl
    · rw [show xs ++ i :: (zs ++ [z]) = (xs ++ i :: zs) ++ [z] by simp] at h
      rw [List.getLast?_concat] at h
      obtain rfl := Option.some.inj h
      rw [List.nodup_append] at hnodup
      simp at hnodup
  · rintro rfl
    exact List.getLast?_concat

/-- A place is put behind the last one. -/
theorem Linked.push (h : Linked next prev order) (hnodup : order.Nodup)
    (hnext : ∀ i ∈ order, next' i = if order.getLast? = some i then some n else next i)
    (hprev : ∀ i ∈ order, prev' i = prev i) (hn : next' n = none ∧ prev' n = order.getLast?) :
    Linked next' prev' (order ++ [n]) := by
  intro xs i ys horder
  rcases List.eq_nil_or_concat' ys with rfl | ⟨zs, z, rfl⟩
  · obtain ⟨rfl, hin⟩ := List.append_inj' horder rfl
    obtain rfl : n = i := by simpa using hin
    exact hn
  · rw [show xs ++ i :: (zs ++ [z]) = (xs ++ i :: zs) ++ [z] by simp] at horder
    obtain ⟨rfl, hz⟩ := List.append_inj' horder rfl
    obtain rfl : n = z := by simpa using hz
    have hi : i ∈ xs ++ i :: zs := by simp
    obtain ⟨hold, hold'⟩ := h xs i zs rfl
    refine ⟨?_, (hprev i hi).trans hold'⟩
    rw [hnext i hi]
    cases zs with
    | nil => rw [if_pos ((getLast?_eq_some_iff_of_nodup hnodup).mpr rfl)]; rfl
    | cons y zs =>
      rw [if_neg fun hlast => absurd ((getLast?_eq_some_iff_of_nodup hnodup).mp hlast) (by simp)]
      exact hold

theorem append_eq_cons_cases {i : ℕ} {as bs : List ℕ} (h : xs ++ ys = as ++ i :: bs) :
    (∃ cs, as = xs ++ cs ∧ ys = cs ++ i :: bs) ∨ ∃ cs, xs = as ++ i :: cs ∧ bs = cs ++ ys := by
  rcases List.append_eq_append_iff.mp h with ⟨cs, has, hys⟩ | ⟨cs, hxs, hcs⟩
  · exact Or.inl ⟨cs, has, hys⟩
  · cases cs with
    | nil => exact Or.inl ⟨[], by simpa using hxs.symm, by simpa using hcs.symm⟩
    | cons c cs =>
      obtain ⟨rfl, rfl⟩ := List.cons.inj hcs
      exact Or.inr ⟨cs, hxs, rfl⟩

/-- A place is cut out. -/
theorem Linked.cut (h : Linked next prev (xs ++ n :: ys)) (hnodup : (xs ++ n :: ys).Nodup)
    (hnext : ∀ i ∈ xs ++ ys, next' i = if xs.getLast? = some i then ys.head? else next i)
    (hprev : ∀ i ∈ xs ++ ys, prev' i = if ys.head? = some i then xs.getLast? else prev i) :
    Linked next' prev' (xs ++ ys) := by
  intro as i bs horder
  have hi : i ∈ xs ++ ys := by simp [horder]
  have hapart := (List.nodup_append.mp hnodup).2.2
  rw [hnext i hi, hprev i hi]
  rcases append_eq_cons_cases horder with ⟨cs, rfl, rfl⟩ | ⟨cs, rfl, rfl⟩
  · -- the place stands behind the cut
    obtain ⟨hold, hold'⟩ := h (xs ++ n :: cs) i bs (by simp)
    have hxs : xs.getLast? ≠ some i := by
      intro hlast
      exact hapart i (List.mem_of_getLast? hlast) i (by simp) rfl
    rw [if_neg hxs]
    refine ⟨hold, ?_⟩
    cases cs with
    | nil => simp
    | cons c cs =>
      have hne : (c :: cs ++ i :: bs).head? ≠ some i := by
        intro hhead
        obtain rfl : c = i := by simpa using hhead
        simp [List.nodup_append] at hnodup
      rw [if_neg hne, hold']
      simp [List.getLast?_append, List.getLast?_cons]
  · -- the place stands before it
    obtain ⟨hold, hold'⟩ := h as i (cs ++ n :: ys) (by simp)
    have hys : ys.head? ≠ some i := by
      intro hhead
      exact hapart i (by simp) i (by simp [List.mem_of_head? hhead]) rfl
    rw [if_neg hys]
    refine ⟨?_, hold'⟩
    have hin : (as ++ i :: cs).Nodup := (List.nodup_append.mp hnodup).1
    cases cs with
    | nil => rw [if_pos ((getLast?_eq_some_iff_of_nodup hin).mpr rfl)]; rfl
    | cons c cs =>
      rw [if_neg fun hlast => absurd ((getLast?_eq_some_iff_of_nodup hin).mp hlast) (by simp), hold]
      rfl

end Chain

end Rhodes.Loops
