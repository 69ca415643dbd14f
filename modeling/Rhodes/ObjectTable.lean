import Mathlib
import Rhodes.JsonTokener
import Rhodes.LinkHash

/-!
The table of a JSON object through any sequence of calls. Adding a name first takes its entry out,
so the slot it frees is taken again, and an object that names are only added to never runs out of
empty slots. Names taken out leave freed slots behind, and once no slot is empty the search for a
name that is not there never ends.
-/
namespace Rhodes.LinkHash
open Loops

variable {κ ν : Type} [DecidableEq κ] {hash : κ → ℕ} {t : LhTable κ ν} {order : List ℕ}
  {rows : List (κ × Option ν)} {n m : ℕ} {k : κ} {v : Option ν}

/-- The rows without a name. -/
def remove (rows : List (κ × Option ν)) (k : κ) : List (κ × Option ν) :=
  rows.filter (fun r => r.1 ≠ k)

/-- The rows with a name put behind the others. -/
def put (rows : List (κ × Option ν)) (k : κ) (v : Option ν) : List (κ × Option ν) :=
  remove rows k ++ [(k, v)]

theorem remove_of_not_mem (hk : k ∉ rows.map Prod.fst) : remove rows k = rows := by
  refine List.filter_eq_self.mpr fun r hr => ?_
  rw [decide_eq_true_eq]
  rintro rfl
  exact hk (List.mem_map_of_mem hr)

theorem not_mem_remove : k ∉ (remove rows k).map Prod.fst := by
  intro hk
  obtain ⟨r, hr, rfl⟩ := List.mem_map.mp hk
  have hne := (List.mem_filter.mp hr).2
  rw [decide_eq_true_eq] at hne
  exact hne rfl

theorem remove_split {rx ry : List (κ × Option ν)}
    (hkeys : ((rx ++ (k, v) :: ry).map Prod.fst).Nodup) :
    remove (rx ++ (k, v) :: ry) k = rx ++ ry := by
  rw [List.map_append, List.map_cons, List.nodup_middle, List.nodup_cons,
    ← List.map_append] at hkeys
  have hrest := remove_of_not_mem hkeys.1
  rw [remove, List.filter_append] at hrest
  rw [remove, List.filter_append, List.filter_cons_of_neg (by simp), hrest]

/-- The entry of a row. -/
theorem Holds.exists_slot (h : Holds hash t order rows) (hk : k ∈ rows.map Prod.fst) :
    ∃ xs n ys rx v ry, order = xs ++ n :: ys ∧ rows = rx ++ (k, v) :: ry ∧
      xs.length = rx.length ∧ (t.table n).k = .key k ∧ (t.table n).v = v := by
  obtain ⟨⟨k, v⟩, hr, rfl⟩ := List.mem_map.mp hk
  obtain ⟨rx, ry, rfl⟩ := List.append_of_mem hr
  have hentries := h.entries
  rw [List.map_append, List.map_eq_append_iff] at hentries
  obtain ⟨xs, zs, rfl, hxs, hzs⟩ := hentries
  rw [List.map_cons, List.map_eq_cons_iff] at hzs
  obtain ⟨n, ys, rfl, hn, -⟩ := hzs
  have hlength := congrArg List.length hxs
  rw [List.length_map, List.length_map] at hlength
  exact ⟨xs, n, ys, rx, v, ry, rfl, rfl, hlength, (Prod.mk.inj hn).1, (Prod.mk.inj hn).2⟩

theorem Holds.mem_of_key (h : Holds hash t order rows) (hn : n < t.size)
    (hk : (t.table n).k = .key k) : n ∈ order ∧ k ∈ rows.map Prod.fst := by
  have hmem : n ∈ order := (h.slots n).mpr ⟨hn, vacant_of_key hk⟩
  have hentry := List.mem_map_of_mem (f := fun n => ((t.table n).k, (t.table n).v)) hmem
  rw [h.entries, hk] at hentry
  obtain ⟨r, hr, heq⟩ := List.mem_map.mp hentry
  obtain rfl : r.1 = k := LhKey.key.inj (Prod.mk.inj heq).1
  exact ⟨hmem, List.mem_map_of_mem hr⟩

theorem Holds.slot_unique (h : Holds hash t order rows) (hn : n ∈ order) (hm : m ∈ order)
    (hsame : (t.table n).k = (t.table m).k) : n = m := by
  have hnodup : (order.map (fun n => (t.table n).k)).Nodup := by
    have hkeys := congrArg (List.map Prod.fst) h.entries
    rw [List.map_map, List.map_map] at hkeys
    refine hkeys ▸ ?_
    rw [show (Prod.fst ∘ fun r : κ × Option ν => (LhKey.key r.1, r.2)) = LhKey.key ∘ Prod.fst from
      rfl, ← List.map_map]
    exact h.keys.map fun a b hab => LhKey.key.inj hab
  exact List.inj_on_of_nodup_map hnodup hn hm hsame

/-- A slot ends the search for a key that lies there, or when it is empty. -/
theorem stops_iff : t.stops k n = true ↔ (t.table n).k = .empty ∨ (t.table n).k = .key k := by
  rw [LhTable.stops, Bool.or_eq_true, decide_eq_true_eq, decide_eq_true_eq]

theorem lookupEntry_present (h : Holds hash t order rows) (hn : n ∈ order)
    (hk : (t.table n).k = .key k) {fuel : ℕ} (hfuel : t.size ≤ fuel) :
    lhTableLookupEntry hash fuel t k = some (some n) := by
  have hlt := ((h.slots n).mp hn).1
  have hpath : Unwanted (t.stops k) t.size (hash k % t.size) n := by
    refine (h.reach n hn k hk).mono_of_ne fun m hm hne hstops => ?_
    rw [decide_eq_true_eq]
    refine (stops_iff.mp hstops).resolve_right fun hkey => hne ?_
    exact h.slot_unique (h.mem_of_key hm hkey).1 hn (hkey.trans hk.symm)
  have hwalk := walk_reaches (Nat.mod_lt _ (by omega)) hpath (stops_iff.mpr (Or.inr hk)) hfuel
  simp only [lhTableLookupEntry, Option.bind_eq_bind, hwalk, Option.bind_some, hk, reduceCtorEq,
    if_false]

theorem Holds.stops_of_not_mem (h : Holds hash t order rows) (hk : k ∉ rows.map Prod.fst)
    (hn : n < t.size) (hstops : t.stops k n = true) : (t.table n).k = .empty :=
  (stops_iff.mp hstops).resolve_right fun hkey => hk (h.mem_of_key hn hkey).2

theorem lookupEntry_absent (h : Holds hash t order rows) (hk : k ∉ rows.map Prod.fst)
    (hn : n < t.size) (hempty : (t.table n).k = .empty) {fuel : ℕ} (hfuel : t.size ≤ fuel) :
    lhTableLookupEntry hash fuel t k = some none := by
  obtain ⟨m, hm, hstops, -, hwalk⟩ := walk_ends
    (Nat.mod_lt (hash k) (by omega : t.size > 0)) hn
    (show t.stops k n = true from stops_iff.mpr (Or.inl hempty))
  simp only [lhTableLookupEntry, Option.bind_eq_bind, hwalk fuel hfuel, Option.bind_some,
    h.stops_of_not_mem hk hm hstops, if_true]

/-- The search for a name that is not there goes on for ever when no slot is empty. -/
theorem lookupEntry_never (h : Holds hash t order rows) (hk : k ∉ rows.map Prod.fst)
    (hsize : 0 < t.size) (hfull : ∀ n < t.size, (t.table n).k ≠ .empty) (fuel : ℕ) :
    lhTableLookupEntry hash fuel t k = none := by
  have hnone : ∀ m < t.size, t.stops k m = false := by
    intro m hm
    refine Bool.eq_false_iff.mpr fun hstops => hfull m hm (h.stops_of_not_mem hk hm hstops)
  simp only [lhTableLookupEntry, walk_never (Nat.mod_lt (hash k) hsize) hnone, Option.bind_eq_bind,
    Option.bind_none]

theorem lhTableDelete_absent (h : Holds hash t order rows) (hk : k ∉ rows.map Prod.fst)
    (hn : n < t.size) (hempty : (t.table n).k = .empty) {fuel : ℕ} (hfuel : t.size ≤ fuel) :
    lhTableDelete hash fuel t k = some t := by
  simp only [lhTableDelete, lookupEntry_absent h hk hn hempty hfuel, Option.bind_eq_bind,
    Option.bind_some]

theorem lhTableDelete_present (h : Holds hash t order rows) (hk : k ∈ rows.map Prod.fst) :
    ∃ u o' n, n < t.size ∧ n ∈ order ∧ (t.table n).k = .key k ∧ Holds hash u o' (remove rows k) ∧
      u.size = t.size ∧ u.count + 1 = t.count ∧
      (∀ m, (u.table m).k = if m = n then .freed else (t.table m).k) ∧
      ∀ fuel, t.size ≤ fuel → lhTableDelete hash fuel t k = some u := by
  obtain ⟨xs, n, ys, rx, v, ry, rfl, rfl, hlength, hkey, -⟩ := h.exists_slot hk
  obtain ⟨u, hdelete, hu, hsize, hcount, hkeys⟩ := lhTableDeleteEntry_spec h hlength
  have hmem : n ∈ xs ++ n :: ys := by simp
  rw [remove_split h.keys]
  refine ⟨u, _, n, ((h.slots n).mp hmem).1, hmem, hkey, hu, hsize, hcount, hkeys,
    fun fuel hfuel => ?_⟩
  simp only [lhTableDelete, lookupEntry_present h hmem hkey hfuel, Option.bind_eq_bind,
    Option.bind_some, hdelete]

/-- Where no slot is freed, some slot of a table with room is empty. -/
theorem Holds.exists_empty (h : Holds hash t order rows) (hroom : Roomy t) (hfreed : NoFreed t) :
    ∃ n < t.size, (t.table n).k = .empty := by
  have hsize := hroom.size
  have hcount := hroom.count
  obtain ⟨n, hn, hvacant⟩ := h.exists_vacant (by omega)
  exact ⟨n, hn, (vacant_iff.mp hvacant).resolve_right (hfreed n hn)⟩

/-- A name is taken out and put in again, wherever its search ends. -/
theorem jsonObjectObjectAdd_spec (h : Holds hash t order rows) (hroom : Roomy t)
    (hends : k ∈ rows.map Prod.fst ∨ ∃ n < t.size, (t.table n).k = .empty) (v : Option ν) :
    ∃ u o', Holds hash u o' (put rows k v) ∧ Roomy u ∧ (NoFreed t → NoFreed u) ∧
      ∀ fuel, t.size * 2 + 1 < fuel → jsonObjectObjectAdd hash fuel t k v = some u := by
  have hpos := hroom.size
  by_cases hk : k ∈ rows.map Prod.fst
  · obtain ⟨w, o, n, hn, hmem, hkey, hw, hsize, hcount, hkeys, hdelete⟩ :=
      lhTableDelete_present h hk
    have hwroom : Roomy w := ⟨by rw [hsize]; exact hroom.size, by
      have := hroom.count
      omega⟩
    obtain ⟨u, o', hu, huroom, hplace, hins⟩ := lhTableInsert_spec hw hwroom not_mem_remove v
    refine ⟨u, o', hu, huroom, fun hfreed => ?_, fun fuel hfuel => ?_⟩
    · obtain hdone | ⟨husize, m, hm, hvacant, hpath, hukeys⟩ := hplace
      · exact hdone
      · -- the slot just freed is the first vacant one
        have hfirst : Unwanted w.vacant w.size (hash k % w.size) n := by
          rw [hsize]
          refine (h.reach n hmem k hkey).mono_of_ne fun i hi hne hi' => ?_
          rw [decide_eq_true_eq]
          rw [vacant_iff, hkeys i, if_neg hne] at hi'
          exact hi'.resolve_right (hfreed i hi)
        have hwn : w.vacant n = true := vacant_iff.mpr (Or.inr ((hkeys n).trans (if_pos rfl)))
        obtain rfl : m = n := hpath.unique (Nat.mod_lt _ (by omega)) hfirst hvacant hwn
        intro i hi
        rw [hukeys i]
        split
        · intro hfalse
          cases hfalse
        · rename_i hne
          rw [hkeys i, if_neg hne]
          exact hfreed i (by omega)
    · simp only [jsonObjectObjectAdd, hdelete fuel (by omega), Option.bind_eq_bind,
        Option.bind_some]
      exact hins fuel (by omega)
  · obtain ⟨n, hn, hempty⟩ := hends.resolve_left hk
    obtain ⟨u, o', hu, huroom, hplace, hins⟩ := lhTableInsert_spec h hroom hk v
    rw [put, remove_of_not_mem hk]
    refine ⟨u, o', hu, huroom, fun hfreed => ?_, fun fuel hfuel => ?_⟩
    · obtain hdone | ⟨husize, m, hm, hvacant, hpath, hukeys⟩ := hplace
      · exact hdone
      · intro i hi
        rw [hukeys i]
        split
        · intro hfalse
          cases hfalse
        · exact hfreed i (by omega)
    · have hdelete := lhTableDelete_absent h hk hn hempty (show t.size ≤ fuel by omega)
      simp only [jsonObjectObjectAdd, hdelete, Option.bind_eq_bind, Option.bind_some]
      exact hins fuel hfuel

theorem lhForeach_spec (h : Holds hash t order rows) {fuel : ℕ} (hfuel : order.length ≤ fuel) :
    lhForeach fuel t = some rows := by
  suffices hsuff : ∀ (ns : List ℕ) rs, ns.map (fun n => ((t.table n).k, (t.table n).v)) =
      rs.map (fun r : κ × Option ν => (LhKey.key r.1, r.2)) →
      ns.mapM (fun n => (t.table n).k.get?.map (fun k => (k, (t.table n).v))) = some rs by
    simp only [lhForeach, chain_yields h hfuel, Option.bind_eq_bind, Option.bind_some,
      hsuff order rows h.entries]
  intro ns
  induction ns with
  | nil =>
    intro rs hrs
    obtain rfl : rs = [] := List.map_eq_nil_iff.mp hrs.symm
    rfl
  | cons n ns ih =>
    intro rs hrs
    cases rs with
    | nil => cases hrs
    | cons r rs =>
      obtain ⟨hentry, hrest⟩ := List.cons.inj hrs
      obtain ⟨hkey, hvalue⟩ := Prod.mk.inj hentry
      rw [List.mapM_cons, ih rs hrest, hkey, hvalue]
      rfl

/-- The value of a name among rows; null where it is not there. -/
def valueOf (rows : List (κ × Option ν)) (k : κ) : Option ν := (rows.lookup k).join

theorem lookup_of_not_mem (hk : k ∉ rows.map Prod.fst) : rows.lookup k = none := by
  rw [List.lookup_eq_none_iff]
  intro r hr
  rw [bne_iff_ne]
  rintro rfl
  exact hk (List.mem_map_of_mem hr)

theorem lhTableLookup_present (h : Holds hash t order rows) (hk : k ∈ rows.map Prod.fst) {fuel : ℕ}
    (hfuel : t.size ≤ fuel) : lhTableLookup hash fuel t k = some (valueOf rows k) := by
  obtain ⟨xs, n, ys, rx, v, ry, rfl, rfl, -, hkey, hvalue⟩ := h.exists_slot hk
  have hkeys := h.keys
  rw [List.map_append, List.map_cons, List.nodup_middle, List.nodup_cons, List.mem_append,
    not_or] at hkeys
  have hlookup : (rx ++ (k, v) :: ry).lookup k = some v := by
    rw [List.lookup_append, lookup_of_not_mem hkeys.1.1, List.lookup_cons_self]
    rfl
  rw [lhTableLookup, lookupEntry_present h (by simp) hkey hfuel, valueOf, hlookup]
  exact congrArg some hvalue

theorem lhTableLookup_absent (h : Holds hash t order rows) (hk : k ∉ rows.map Prod.fst)
    (hn : n < t.size) (hempty : (t.table n).k = .empty) {fuel : ℕ} (hfuel : t.size ≤ fuel) :
    lhTableLookup hash fuel t k = some (valueOf rows k) := by
  rw [lhTableLookup, lookupEntry_absent h hk hn hempty hfuel, valueOf, lookup_of_not_mem hk]
  rfl

/-- A call that changes an object. -/
inductive Call (κ ν : Type) where
  | add (key : κ) (val : Option ν)
  | del (key : κ)

namespace Call

def key : Call κ ν → κ
  | add key _ => key
  | del key => key

def run (hash : κ → ℕ) (fuel : ℕ) (t : LhTable κ ν) : Call κ ν → Option (LhTable κ ν)
  | add key val => jsonObjectObjectAdd hash fuel t key val
  | del key => jsonObjectObjectDel hash fuel t key

/-- What the call does to the names in their order. -/
def apply (rows : List (κ × Option ν)) : Call κ ν → List (κ × Option ν)
  | add key val => put rows key val
  | del key => remove rows key

end Call

/-- The calls on a new object, one behind the other. -/
def runCalls (hash : κ → ℕ) (fuel : ℕ) (calls : List (Call κ ν)) : Option (LhTable κ ν) :=
  calls.foldlM (Call.run hash fuel) jsonObjectNewObject

/-- The search for the name ends. -/
def Ends (t : LhTable κ ν) (rows : List (κ × Option ν)) (k : κ) : Prop :=
  k ∈ rows.map Prod.fst ∨ ∃ n < t.size, (t.table n).k = .empty

theorem Call.run_ends (h : Holds hash t order rows) (hroom : Roomy t) (c : Call κ ν)
    (hends : Ends t rows c.key) : ∃ u o', Holds hash u o' (c.apply rows) ∧ Roomy u ∧
      Yields (fun fuel => c.run hash fuel t) u := by
  cases c with
  | add k v =>
    obtain ⟨u, o', hu, huroom, -, hadd⟩ := jsonObjectObjectAdd_spec h hroom hends v
    exact ⟨u, o', hu, huroom, t.size * 2 + 2, fun fuel hfuel => hadd fuel (by omega)⟩
  | del k =>
    by_cases hk : k ∈ rows.map Prod.fst
    · obtain ⟨u, o', -, -, -, -, hu, hsize, hcount, -, hdelete⟩ := lhTableDelete_present h hk
      have := hroom.size
      have := hroom.count
      exact ⟨u, o', hu, ⟨by omega, by omega⟩, t.size, hdelete⟩
    · obtain ⟨n, hn, hempty⟩ := hends.resolve_left hk
      refine ⟨t, order, ?_, hroom, t.size, fun fuel hfuel =>
        lhTableDelete_absent h hk hn hempty hfuel⟩
      rw [Call.apply, remove_of_not_mem hk]
      exact h

theorem Call.run_never (h : Holds hash t order rows) (hroom : Roomy t) (c : Call κ ν)
    (hends : ¬Ends t rows c.key) (fuel : ℕ) : c.run hash fuel t = none := by
  have hpos := hroom.size
  have hk : c.key ∉ rows.map Prod.fst := fun hmem => hends (Or.inl hmem)
  have hfull : ∀ n < t.size, (t.table n).k ≠ .empty :=
    fun n hn hempty => hends (Or.inr ⟨n, hn, hempty⟩)
  have hnone := lookupEntry_never h hk (by omega) hfull fuel
  cases c with
  | add k v =>
    simp only [Call.run, jsonObjectObjectAdd, lhTableDelete, Call.key] at hnone ⊢
    rw [hnone]
    rfl
  | del k =>
    simp only [Call.run, jsonObjectObjectDel, lhTableDelete, Call.key] at hnone ⊢
    rw [hnone]
    rfl

theorem holds_newObject : Holds hash (jsonObjectNewObject : LhTable κ ν) [] [] ∧
    Roomy (jsonObjectNewObject : LhTable κ ν) :=
  ⟨holds_new 16, ⟨le_rfl, Nat.zero_le _⟩⟩

/-- The value last added under a name. -/
def lastValue (fields : List (κ × Option ν)) (k : κ) : Option ν := valueOf fields.reverse k

theorem valueOf_put (rows : List (κ × Option ν)) (k k' : κ) (v : Option ν) :
    valueOf (put rows k' v) k = if k = k' then v else valueOf rows k := by
  have hremove : ∀ rs : List (κ × Option ν), (remove rs k').lookup k =
      if k = k' then none else rs.lookup k := by
    intro rs
    split
    · rename_i heq
      rw [heq, lookup_of_not_mem not_mem_remove]
    · rename_i hne
      induction rs with
      | nil => rfl
      | cons r rs ih =>
        by_cases hr : r.1 = k'
        · rw [remove, List.filter_cons_of_neg (by simpa using hr), List.lookup_cons,
            beq_false_of_ne (hr ▸ hne)]
          exact ih
        · rw [remove, List.filter_cons_of_pos (by simpa using hr), List.lookup_cons,
            List.lookup_cons]
          split
          · rfl
          · exact ih
  rw [valueOf, put, List.lookup_append, hremove]
  split
  · rename_i heq
    rw [heq, Option.none_or, List.lookup_cons_self]
    rfl
  · rename_i hne
    rw [List.lookup_cons, beq_false_of_ne hne, List.lookup_nil, Option.or_none]
    rfl

theorem lastValue_concat (fields : List (κ × Option ν)) (f : κ × Option ν) (k : κ) :
    lastValue (fields ++ [f]) k = if k = f.1 then f.2 else lastValue fields k := by
  rw [lastValue, lastValue, List.reverse_append, valueOf, valueOf, List.reverse_singleton,
    List.singleton_append, List.lookup_cons]
  by_cases hk : k = f.1
  · rw [if_pos hk, hk, beq_self_eq_true]
    rfl
  · rw [if_neg hk, beq_false_of_ne hk]

theorem valueOf_added (fields : List (κ × Option ν)) (k : κ) :
    valueOf (fields.foldl (fun rows f => put rows f.1 f.2) []) k = lastValue fields k := by
  induction fields using List.reverseRecOn with
  | nil => rfl
  | append_singleton fields f ih =>
    rw [List.foldl_append, List.foldl_cons, List.foldl_nil, valueOf_put, ih, lastValue_concat]

/-- Names added to a new object: the run ends, the names stand in the order in which each was last
added, each has the value last added, and no slot is left freed. -/
theorem added_names (hash : κ → ℕ) (fields : List (κ × Option ν)) : ∃ t,
    Yields (fun fuel => runCalls hash fuel (fields.map (fun f => .add f.1 f.2))) t ∧
    Yields (fun fuel => lhForeach fuel t) (fields.foldl (fun rows f => put rows f.1 f.2) []) ∧
    (∀ k, Yields (fun fuel => lhTableLookup hash fuel t k) (lastValue fields k)) ∧ NoFreed t := by
  suffices hsuff : ∀ (fields : List (κ × Option ν)) (t : LhTable κ ν) order rows,
      Holds hash t order rows → Roomy t → NoFreed t →
      ∃ u order', Holds hash u order' (fields.foldl (fun rows f => put rows f.1 f.2) rows) ∧
        Roomy u ∧ NoFreed u ∧ Yields (fun fuel => (fields.map (fun f => Call.add f.1 f.2)).foldlM
          (Call.run hash fuel) t) u by
    obtain ⟨hnew, hroomy⟩ := (holds_newObject :
      Holds hash (jsonObjectNewObject : LhTable κ ν) [] [] ∧ Roomy _)
    obtain ⟨u, order, hu, huroom, hfreed, hrun⟩ := hsuff fields _ [] [] hnew hroomy
      (fun n _ h => by cases h)
    refine ⟨u, hrun, ⟨order.length, fun fuel hfuel => lhForeach_spec hu hfuel⟩, fun k => ?_, hfreed⟩
    refine ⟨u.size, fun fuel hfuel => ?_⟩
    show lhTableLookup hash fuel u k = _
    rw [← valueOf_added]
    by_cases hk : k ∈ (fields.foldl (fun rows f => put rows f.1 f.2) []).map Prod.fst
    · exact lhTableLookup_present hu hk hfuel
    · obtain ⟨n, hn, hempty⟩ := hu.exists_empty huroom hfreed
      exact lhTableLookup_absent hu hk hn hempty hfuel
  intro fields
  induction fields with
  | nil =>
    intro t order rows ht hroom hfreed
    exact ⟨t, order, ht, hroom, hfreed, Yields.const t⟩
  | cons f fields ih =>
    intro t order rows ht hroom hfreed
    obtain ⟨u, order', hu, huroom, hufreed, hadd⟩ :=
      jsonObjectObjectAdd_spec ht hroom (Or.inr (ht.exists_empty hroom hfreed)) (k := f.1) f.2
    have hstep : Yields (fun fuel => Call.run hash fuel t (.add f.1 f.2)) u :=
      ⟨t.size * 2 + 2, fun fuel hfuel => hadd fuel (by omega)⟩
    obtain ⟨w, order'', hw, hwroom, hwfreed, hrest⟩ := ih u order' _ hu huroom (hufreed hfreed)
    exact ⟨w, order'', hw, hwroom, hwfreed, hstep.bind hrest⟩

/-- Any calls on a new object: the run comes to an end with the names and values that the calls
leave, or one of the calls goes on for ever. Of a table reached, a call or a lookup of a name ends
exactly when the name is there or a slot is empty. -/
theorem object_calls (hash : κ → ℕ) (calls : List (Call κ ν)) :
    (∀ t, ¬Yields (fun fuel => runCalls hash fuel calls) t) ∨ ∃ t,
      Yields (fun fuel => runCalls hash fuel calls) t ∧
      Yields (fun fuel => lhForeach fuel t) (calls.foldl Call.apply []) ∧
      (∀ k, Ends t (calls.foldl Call.apply []) k →
        Yields (fun fuel => lhTableLookup hash fuel t k) (valueOf (calls.foldl Call.apply []) k)) ∧
      (∀ k, ¬Ends t (calls.foldl Call.apply []) k →
        ∀ fuel, lhTableLookup hash fuel t k = none) ∧
      ∀ c : Call κ ν, (∃ u, Yields (fun fuel => c.run hash fuel t) u) ↔
        Ends t (calls.foldl Call.apply []) c.key := by
  suffices hsuff : ∀ (calls : List (Call κ ν)) (t : LhTable κ ν) order rows,
      Holds hash t order rows → Roomy t →
      (∀ u, ¬Yields (fun fuel => calls.foldlM (Call.run hash fuel) t) u) ∨ ∃ u order',
        Holds hash u order' (calls.foldl Call.apply rows) ∧ Roomy u ∧
        Yields (fun fuel => calls.foldlM (Call.run hash fuel) t) u by
    obtain ⟨hnew, hroomy⟩ := (holds_newObject :
      Holds hash (jsonObjectNewObject : LhTable κ ν) [] [] ∧ Roomy _)
    obtain hnever | ⟨u, order, hu, huroom, hrun⟩ := hsuff calls _ [] [] hnew hroomy
    · exact Or.inl hnever
    · have hpos := huroom.size
      refine Or.inr ⟨u, hrun, ⟨order.length, fun fuel hfuel => lhForeach_spec hu hfuel⟩,
        fun k hends => ⟨u.size, fun fuel hfuel => ?_⟩, fun k hends fuel => ?_, fun c => ⟨?_, ?_⟩⟩
      · by_cases hk : k ∈ (calls.foldl Call.apply []).map Prod.fst
        · exact lhTableLookup_present hu hk hfuel
        · obtain ⟨n, hn, hempty⟩ := hends.resolve_left hk
          exact lhTableLookup_absent hu hk hn hempty hfuel
      · rw [lhTableLookup, lookupEntry_never hu (fun hk => hends (Or.inl hk)) (by omega)
          (fun n hn hempty => hends (Or.inr ⟨n, hn, hempty⟩))]
        rfl
      · rintro ⟨w, hw⟩
        by_contra hends
        exact Yields.not_of_none (Call.run_never hu huroom c hends) w hw
      · intro hends
        obtain ⟨w, -, -, -, hw⟩ := Call.run_ends hu huroom c hends
        exact ⟨w, hw⟩
  intro calls
  induction calls with
  | nil =>
    intro t order rows ht hroom
    exact Or.inr ⟨t, order, ht, hroom, Yields.const t⟩
  | cons c calls ih =>
    intro t order rows ht hroom
    by_cases hends : Ends t rows c.key
    · obtain ⟨u, order', hu, huroom, hstep⟩ := Call.run_ends ht hroom c hends
      obtain hnever | ⟨w, order'', hw, hwroom, hrest⟩ := ih u order' _ hu huroom
      · exact Or.inl fun w hw => hnever w (hstep.of_bind hw)
      · exact Or.inr ⟨w, order'', hw, hwroom, hstep.bind hrest⟩
    · refine Or.inl fun w hw => Yields.not_of_none (fun fuel => ?_) w hw
      rw [List.foldlM_cons, Call.run_never ht hroom c hends]
      rfl

example : (runCalls lhCharHash 20 [.add ['a'] (some 1), .add ['b'] (some 2), .add ['a'] (some 3),
    .del ['b']]).bind (lhForeach 20) = some [(['a'], some 3)] := by decide

section Trees

open Json JsonTokener

/-- The pointer to a value; null is the null pointer. -/
def pointer : JsonObject → Option JsonObject
  | .null => none
  | j => some j

def rowOf (f : String × JsonObject) : String × Option JsonObject := (f.1, pointer f.2)

/-- The fields of the parsed tree are the rows of its table. -/
theorem rowOf_objectAdd (fields : List (String × JsonObject)) (key : String) (val : JsonObject) :
    (objectAdd fields key val).map rowOf = put (fields.map rowOf) key (pointer val) := by
  rw [objectAdd, put, remove, List.map_append, List.filter_map]
  rfl

theorem valueOf_rowOf (fields : List (String × JsonObject)) (name : String) :
    valueOf (fields.map rowOf) name = pointer ((JsonObject.object fields).getEntry name) := by
  rw [JsonObject.getEntry, valueOf]
  induction fields with
  | nil => rfl
  | cons f fields ih =>
    rw [List.map_cons, rowOf, List.lookup_cons, List.lookup_cons]
    split
    · rfl
    · exact ih

theorem rowOf_added (added fields : List (String × JsonObject)) :
    (added.map rowOf).foldl (fun rows f => put rows f.1 f.2) (fields.map rowOf) =
      (added.foldl (fun fields f => objectAdd fields f.1 f.2) fields).map rowOf := by
  induction added generalizing fields with
  | nil => rfl
  | cons f added ih =>
    rw [List.map_cons, List.foldl_cons, List.foldl_cons, ← ih, rowOf_objectAdd]
    rfl

/-- The object that the parser adds names and values to is the table that its names are looked up
in: adding any names in any order ends, the names are met in the order in which each was last
added, each lookup gives the value last added, and no slot is left freed. -/
theorem object_table (hash : String → ℕ) (added : List (String × JsonObject)) : ∃ t,
    Yields (fun fuel => runCalls hash fuel (added.map (fun f => .add f.1 (pointer f.2)))) t ∧
    Yields (fun fuel => lhForeach fuel t)
      ((added.foldl (fun fields f => objectAdd fields f.1 f.2) []).map rowOf) ∧
    (∀ name, Yields (fun fuel => lhTableLookup hash fuel t name) (pointer ((JsonObject.object
      (added.foldl (fun fields f => objectAdd fields f.1 f.2) [])).getEntry name))) ∧
    NoFreed t := by
  obtain ⟨t, hrun, hforeach, hlookup, hfreed⟩ := added_names hash (added.map rowOf)
  have hall := rowOf_added added []
  rw [List.map_nil] at hall
  rw [List.map_map] at hrun
  refine ⟨t, hrun, hall ▸ hforeach, fun name => ?_, hfreed⟩
  rw [← valueOf_rowOf, ← hall, valueOf_added]
  exact hlookup name

end Trees

end Rhodes.LinkHash
