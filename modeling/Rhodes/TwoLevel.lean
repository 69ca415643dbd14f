import Mathlib.Data.List.Basic

/-!
Ordered tables whose values are ordered tables: a value is found under two keys. Both
levels are walked in the order of their keys.
-/
namespace Rhodes.TwoLevel

open Std (TreeMap TransOrd LawfulEqOrd)

variable {α β γ : Type*} [Ord α] [Ord β]

abbrev Table (α β γ : Type*) [Ord α] [Ord β] := TreeMap α (TreeMap β γ)

/-- The inner table is made where there is none. -/
def put (m : Table α β γ) (a : α) (b : β) (c : γ) : Table α β γ :=
  m.insert a ((m.getD a ∅).insert b c)

def lookup (m : Table α β γ) (a : α) (b : β) : Option γ := m[a]?.bind (fun inner => inner[b]?)

/-- A value takes the place of the one under its keys; nothing is added. -/
def replace (m : Table α β γ) (a : α) (b : β) (c : γ) : Table α β γ :=
  match m[a]? with
  | none => m
  | some inner => if inner.contains b then m.insert a (inner.insert b c) else m

def entries (m : Table α β γ) : List (α × β × γ) :=
  m.toList.flatMap (fun it => it.2.toList.map (fun e => (it.1, e.1, e.2)))

/-- Two nested loops over a table are one loop over its entries. -/
theorem foldl_entries {δ : Type*} (f : α → δ → β × γ → δ) (m : Table α β γ) (d : δ) :
    m.toList.foldl (fun d it => it.2.toList.foldl (f it.1) d) d =
      (entries m).foldl (fun d e => f e.1 d e.2) d := by
  simp only [entries, List.foldl_flatMap, List.foldl_map]

variable [TransOrd α]

@[simp] theorem lookup_empty (a : α) (b : β) : lookup (∅ : Table α β γ) a b = none := by
  simp [lookup]

variable [LawfulEqOrd α]

theorem lookup_insert (m : Table α β γ) (a a' : α) (inner : TreeMap β γ) (b : β) [DecidableEq α] :
    lookup (m.insert a inner) a' b = if a = a' then inner[b]? else lookup m a' b := by
  by_cases h : a = a'
  · subst h
    simp [lookup]
  · simp [lookup, Std.TreeMap.getElem?_insert, h]

variable [TransOrd β] [LawfulEqOrd β]

theorem lookup_put [DecidableEq α] [DecidableEq β] (m : Table α β γ) (a a' : α) (b b' : β) (c : γ) :
    lookup (put m a b c) a' b' = if a = a' ∧ b = b' then some c else lookup m a' b' := by
  rw [put, lookup_insert]
  by_cases ha : a = a'
  · subst ha
    by_cases hb : b = b'
    · subst hb
      simp
    · cases hm : m[a]? <;>
        simp [lookup, Std.TreeMap.getD_eq_getD_getElem?, Std.TreeMap.getElem?_insert, hb, hm]
  · simp [ha]

theorem lookup_replace [DecidableEq α] [DecidableEq β] (m : Table α β γ) (a a' : α) (b b' : β)
    (c : γ) :
    lookup (replace m a b c) a' b' =
      if (lookup m a b).isSome = true ∧ a = a' ∧ b = b' then some c else lookup m a' b' := by
  unfold replace
  cases hinner : m[a]? with
  | none => simp [lookup, hinner]
  | some inner =>
    have hsome : (lookup m a b).isSome = inner.contains b := by
      simp only [lookup, hinner, Option.bind_some, Std.TreeMap.isSome_getElem?_eq_contains]
    rw [hsome]
    by_cases hb : inner.contains b = true
    · simp only [hb, if_true, lookup_insert, true_and]
      by_cases ha : a = a'
      · subst ha
        by_cases heq : b = b' <;> simp [lookup, hinner, Std.TreeMap.getElem?_insert, heq]
      · simp [ha]
    · simp [hb]

theorem mem_entries {m : Table α β γ} {a : α} {b : β} {c : γ} :
    (a, b, c) ∈ entries m ↔ lookup m a b = some c := by
  simp only [entries, List.mem_flatMap, List.mem_map, lookup, Option.bind_eq_some_iff, Prod.exists,
    Std.TreeMap.mem_toList_iff_getElem?_eq_some, Prod.mk.injEq]
  constructor
  · rintro ⟨_, inner, hinner, _, _, hc, rfl, rfl, rfl⟩
    exact ⟨inner, hinner, hc⟩
  · rintro ⟨inner, hinner, hc⟩
    exact ⟨a, inner, hinner, b, c, hc, rfl, rfl, rfl⟩

/-- No pair of keys occurs twice. -/
theorem nodup_entries (m : Table α β γ) : ((entries m).map (fun e => (e.1, e.2.1))).Nodup := by
  simp only [entries, List.map_flatMap, List.map_map, List.nodup_iff_pairwise_ne]
  rw [List.pairwise_flatMap]
  constructor
  · rintro ⟨a, inner⟩ -
    rw [List.pairwise_map]
    apply Std.TreeMap.distinct_keys_toList.imp
    simp
  · apply Std.TreeMap.distinct_keys_toList.imp
    rintro ⟨a, inner⟩ ⟨a', inner'⟩ hne p hp p' hp'
    obtain ⟨e, -, rfl⟩ := List.mem_map.mp hp
    obtain ⟨e', -, rfl⟩ := List.mem_map.mp hp'
    simp only [Function.comp_apply, ne_eq, Prod.mk.injEq, not_and]
    simp at hne
    exact fun h => absurd h hne

end Rhodes.TwoLevel
