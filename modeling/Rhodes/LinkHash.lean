import Mathlib
import Rhodes.Loops

/-!
The hash table under the objects of the JSON library. The entries lie in a ring of slots, a key is
sought from the slot of its hash on, and the entries in use are chained in the order they were put
in. A key taken out leaves a freed slot behind, which does not end the search for another key.
-/
namespace Rhodes.LinkHash
open Loops

variable {κ ν : Type}

/-- The key of a slot: LH_EMPTY, LH_FREED, or the key of an entry. -/
inductive LhKey (κ : Type) where
  | empty
  | freed
  | key (k : κ)
  deriving DecidableEq

def LhKey.get? : LhKey κ → Option κ
  | .key k => some k
  | _ => none

/-- A slot. The value is a pointer, and the links are the numbers of other slots. -/
structure LhEntry (κ ν : Type) where
  k : LhKey κ := .empty
  v : Option ν := none
  next : Option ℕ := none
  prev : Option ℕ := none

structure LhTable (κ ν : Type) where
  size : ℕ
  count : ℕ := 0
  head : Option ℕ := none
  tail : Option ℕ := none
  table : ℕ → LhEntry κ ν := fun _ => {}

def lhTableNew (size : ℕ) : LhTable κ ν := { size }

namespace LhTable

def setEntry (t : LhTable κ ν) (n : ℕ) (e : LhEntry κ ν) : LhTable κ ν :=
  { t with table := Function.update t.table n e }

def setNext (t : LhTable κ ν) (n : ℕ) (next : Option ℕ) : LhTable κ ν :=
  t.setEntry n { t.table n with next }

def setPrev (t : LhTable κ ν) (n : ℕ) (prev : Option ℕ) : LhTable κ ν :=
  t.setEntry n { t.table n with prev }

/-- The slots in the order of lh_foreach. -/
def chain (t : LhTable κ ν) (fuel : ℕ) : Option (List ℕ) :=
  follow (fun n => (t.table n).next) fuel t.head

section Fields

variable (t : LhTable κ ν) (n m : ℕ) (i : Option ℕ)

@[simp] theorem setNext_k : ((t.setNext n i).table m).k = (t.table m).k := by
  by_cases h : m = n <;> simp [setNext, setEntry, Function.update, h]

@[simp] theorem setNext_v : ((t.setNext n i).table m).v = (t.table m).v := by
  by_cases h : m = n <;> simp [setNext, setEntry, Function.update, h]

@[simp] theorem setNext_next :
    ((t.setNext n i).table m).next = if m = n then i else (t.table m).next := by
  by_cases h : m = n <;> simp [setNext, setEntry, Function.update, h]

@[simp] theorem setNext_prev : ((t.setNext n i).table m).prev = (t.table m).prev := by
  by_cases h : m = n <;> simp [setNext, setEntry, Function.update, h]

@[simp] theorem setPrev_k : ((t.setPrev n i).table m).k = (t.table m).k := by
  by_cases h : m = n <;> simp [setPrev, setEntry, Function.update, h]

@[simp] theorem setPrev_v : ((t.setPrev n i).table m).v = (t.table m).v := by
  by_cases h : m = n <;> simp [setPrev, setEntry, Function.update, h]

@[simp] theorem setPrev_next : ((t.setPrev n i).table m).next = (t.table m).next := by
  by_cases h : m = n <;> simp [setPrev, setEntry, Function.update, h]

@[simp] theorem setPrev_prev :
    ((t.setPrev n i).table m).prev = if m = n then i else (t.table m).prev := by
  by_cases h : m = n <;> simp [setPrev, setEntry, Function.update, h]

theorem setEntry_table (e : LhEntry κ ν) :
    (t.setEntry n e).table m = if m = n then e else t.table m := by
  by_cases h : m = n <;> simp [setEntry, Function.update, h]

end Fields

variable [DecidableEq κ]

/-- The slot can take a new entry. -/
def vacant (t : LhTable κ ν) (n : ℕ) : Bool := (t.table n).k = .empty || (t.table n).k = .freed

/-- The slot ends the search for a key. -/
def stops (t : LhTable κ ν) (k : κ) (n : ℕ) : Bool :=
  (t.table n).k = .empty || (t.table n).k = .key k

end LhTable

variable [DecidableEq κ]

/-- The entry is put into its slot and behind the last one. -/
def putEntry (t : LhTable κ ν) (n : ℕ) (k : κ) (v : Option ν) : Option (LhTable κ ν) :=
  let u := { t.setEntry n { t.table n with k := .key k, v } with count := t.count + 1 }
  match t.head, t.tail with
  | none, _ => some { (u.setNext n none).setPrev n none with head := some n, tail := some n }
  | some _, some last =>
    some { ((u.setNext last (some n)).setPrev n (some last)).setNext n none with tail := some n }
  | some _, none => none

variable (hash : κ → ℕ)

/-- The slots of the old table are put into a new one in their order. -/
def lhTableResize (insert : LhTable κ ν → κ → Option ν → Option (LhTable κ ν)) (fuel : ℕ)
    (t : LhTable κ ν) (newSize : ℕ) : Option (LhTable κ ν) := do
  let ents ← t.chain fuel
  let newT ← ents.foldlM (fun newT n => do
    let k ← (t.table n).k.get?
    insert newT k (t.table n).v) (lhTableNew newSize)
  some { newT with count := t.count }

/-- The loops run on fuel. -/
def lhTableInsert : ℕ → LhTable κ ν → κ → Option ν → Option (LhTable κ ν)
  | 0, _, _, _ => none
  | fuel + 1, t, k, v => do
    let t ← if 100 * t.count > 66 * t.size then
        lhTableResize (lhTableInsert fuel) fuel t (t.size * 2)
      else some t
    let n ← walk t.vacant t.size fuel (hash k % t.size)
    putEntry t n k v

def lhTableLookupEntry (fuel : ℕ) (t : LhTable κ ν) (k : κ) : Option (Option ℕ) := do
  let n ← walk (t.stops k) t.size fuel (hash k % t.size)
  some (if (t.table n).k = .empty then none else some n)

/-- A key that is not there and a null pointer look alike. -/
def lhTableLookup (fuel : ℕ) (t : LhTable κ ν) (k : κ) : Option (Option ν) :=
  (lhTableLookupEntry hash fuel t k).map (fun e => e.bind (fun n => (t.table n).v))

/-- The entry is taken out of the chain. -/
def unlink (t : LhTable κ ν) (n : ℕ) : Option (LhTable κ ν) :=
  if t.tail = some n ∧ t.head = some n then some { t with head := none, tail := none }
  else if t.head = some n then do
    let next ← (t.table n).next
    some { t.setPrev next none with head := some next }
  else if t.tail = some n then do
    let prev ← (t.table n).prev
    some { t.setNext prev none with tail := some prev }
  else do
    let prev ← (t.table n).prev
    let next ← (t.table n).next
    some ((t.setNext prev (some next)).setPrev next (some prev))

def lhTableDeleteEntry (t : LhTable κ ν) (n : ℕ) : Option (LhTable κ ν) :=
  if t.vacant n then some t
  else do
    let u ← unlink { t.setEntry n { t.table n with k := .freed, v := none } with
      count := t.count - 1 } n
    some ((u.setNext n none).setPrev n none)

def lhTableDelete (fuel : ℕ) (t : LhTable κ ν) (k : κ) : Option (LhTable κ ν) := do
  match ← lhTableLookupEntry hash fuel t k with
  | none => some t
  | some n => lhTableDeleteEntry t n

def lhForeach (fuel : ℕ) (t : LhTable κ ν) : Option (List (κ × Option ν)) := do
  let ents ← t.chain fuel
  ents.mapM (fun n => (t.table n).k.get?.map (fun k => (k, (t.table n).v)))

/-- JSON_OBJECT_DEF_HASH_ENTIRES -/
def jsonObjectNewObject : LhTable κ ν := lhTableNew 16

def jsonObjectObjectAdd (fuel : ℕ) (t : LhTable κ ν) (key : κ) (val : Option ν) :
    Option (LhTable κ ν) := do
  let t ← lhTableDelete hash fuel t key
  lhTableInsert hash fuel t key val

def jsonObjectObjectDel (fuel : ℕ) (t : LhTable κ ν) (key : κ) : Option (LhTable κ ν) :=
  lhTableDelete hash fuel t key

/-- The hash of a name, byte by byte as a signed char. -/
def lhCharHash (data : List Char) : ℕ :=
  (data.takeWhile (· ≠ '\x00')).foldl (fun h c =>
    (h * 129 + (if c.toNat < 128 then c.toNat else c.toNat + (2 ^ 32 - 256)) + 0x9e370001) %
      2 ^ 32) 0

/-- What the table says about its slots: `order` is the chain and `rows` are its keys and
values. -/
structure Holds (t : LhTable κ ν) (order : List ℕ) (rows : List (κ × Option ν)) : Prop where
  entries : order.map (fun n => ((t.table n).k, (t.table n).v)) =
    rows.map (fun r => (LhKey.key r.1, r.2))
  slots : ∀ n, n ∈ order ↔ n < t.size ∧ t.vacant n = false
  nodup : order.Nodup
  keys : (rows.map Prod.fst).Nodup
  count : t.count = order.length
  head : t.head = order.head?
  tail : t.tail = order.getLast?
  linked : Linked (fun n => (t.table n).next) (fun n => (t.table n).prev) order
  /-- No slot between the hash of a key and its entry is empty. -/
  reach : ∀ n ∈ order, ∀ k, (t.table n).k = .key k →
    Unwanted (fun m => (t.table m).k = .empty) t.size (hash k % t.size) n

/-- The table has room for another entry. -/
structure Roomy (t : LhTable κ ν) : Prop where
  size : 16 ≤ t.size
  count : 100 * t.count ≤ 66 * t.size + 100

/-- Every slot is empty or in use. -/
def NoFreed (t : LhTable κ ν) : Prop := ∀ n < t.size, (t.table n).k ≠ .freed

section Specs

variable {hash} {t : LhTable κ ν} {order xs ys : List ℕ} {rows : List (κ × Option ν)} {n : ℕ}
  {k : κ} {v : Option ν}

/-- What a table says about its links after an entry is put behind the others. -/
theorem putEntry_effect (h : Holds hash t order rows) (v : Option ν) (hn : n ∉ order) (k : κ) :
    ∃ u, putEntry t n k v = some u ∧ u.size = t.size ∧ u.count = t.count + 1 ∧
      u.head = (order ++ [n]).head? ∧ u.tail = some n ∧
      ∀ m, (u.table m).k = (if m = n then .key k else (t.table m).k) ∧
        (u.table m).v = (if m = n then v else (t.table m).v) ∧
        (u.table m).next = (if m = n then none else if order.getLast? = some m then some n
          else (t.table m).next) ∧
        (u.table m).prev = if m = n then order.getLast? else (t.table m).prev := by
  have hhead := h.head
  have htail := h.tail
  rcases List.eq_nil_or_concat' order with rfl | ⟨zs, z, rfl⟩
  · unfold putEntry
    rw [hhead]
    refine ⟨_, rfl, rfl, rfl, rfl, rfl, fun m => ?_⟩
    by_cases hm : m = n <;> simp [LhTable.setEntry_table, hm]
  · obtain ⟨first, hfirst⟩ : ∃ first, (zs ++ [z]).head? = some first :=
      Option.isSome_iff_exists.mp (by simp)
    rw [hfirst] at hhead
    rw [List.getLast?_concat] at htail
    have hz : n ≠ z := by
      rintro rfl
      exact hn (by simp)
    unfold putEntry
    rw [hhead, htail]
    refine ⟨_, rfl, rfl, rfl, ?_, rfl, fun m => ?_⟩
    · rw [List.head?_append, hfirst, Option.some_or]
      exact hhead
    · by_cases hm : m = n
      · simp [LhTable.setEntry_table, hm]
      · by_cases hmz : m = z
        · simp [LhTable.setEntry_table, hmz, Ne.symm hz]
        · simp [LhTable.setEntry_table, hm, hmz, Ne.symm hmz]

theorem vacant_iff : t.vacant n = true ↔ (t.table n).k = .empty ∨ (t.table n).k = .freed := by
  rw [LhTable.vacant, Bool.or_eq_true, decide_eq_true_eq, decide_eq_true_eq]

theorem vacant_of_key (h : (t.table n).k = .key k) : t.vacant n = false := by
  rw [LhTable.vacant, h]
  rfl

theorem Holds.length (h : Holds hash t order rows) : order.length = rows.length := by
  have := congrArg List.length h.entries
  rwa [List.length_map, List.length_map] at this

theorem Holds.not_mem (h : Holds hash t order rows) (hvacant : t.vacant n = true) : n ∉ order := by
  intro hn
  rw [((h.slots n).mp hn).2] at hvacant
  cases hvacant

omit [DecidableEq κ] in
/-- The entries of a table whose other slots are as they were. -/
theorem map_entries_congr {u : LhTable κ ν} (hsame : ∀ m ∈ order, (u.table m).k = (t.table m).k ∧
    (u.table m).v = (t.table m).v) :
    order.map (fun n => ((u.table n).k, (u.table n).v)) =
      order.map (fun n => ((t.table n).k, (t.table n).v)) := by
  refine List.map_congr_left fun m hm => ?_
  rw [(hsame m hm).1, (hsame m hm).2]

/-- The entry put into the first slot that is vacant from its hash on. -/
theorem putEntry_spec (h : Holds hash t order rows) (hn : n < t.size) (hvacant : t.vacant n = true)
    (hk : k ∉ rows.map Prod.fst) (hpath : Unwanted t.vacant t.size (hash k % t.size) n)
    (v : Option ν) : ∃ u, putEntry t n k v = some u ∧
      Holds hash u (order ++ [n]) (rows ++ [(k, v)]) ∧ u.size = t.size ∧ u.count = t.count + 1 ∧
      ∀ m, (u.table m).k = if m = n then .key k else (t.table m).k := by
  have hnot := h.not_mem hvacant
  obtain ⟨u, hput, hsize, hcount, hhead, htail, htable⟩ := putEntry_effect h v hnot k
  have hne : ∀ m ∈ order, m ≠ n := fun m hm heq => hnot (heq ▸ hm)
  have hold : ∀ m ∈ order, (u.table m).k = (t.table m).k ∧ (u.table m).v = (t.table m).v := by
    intro m hm
    rw [(htable m).1, (htable m).2.1, if_neg (hne m hm), if_neg (hne m hm)]
    exact ⟨rfl, rfl⟩
  have hempty : ∀ m < t.size, decide ((u.table m).k = .empty) = true → t.vacant m = true := by
    intro m _ hm
    rw [decide_eq_true_eq, (htable m).1] at hm
    split at hm
    · cases hm
    · exact vacant_iff.mpr (Or.inl hm)
  refine ⟨u, hput, ?_, hsize, hcount, fun m => (htable m).1⟩
  refine ⟨?_, ?_, ?_, ?_, ?_, hhead, ?_, ?_, ?_⟩
  · rw [List.map_append, List.map_append, map_entries_congr hold, h.entries, List.map_singleton,
      (htable n).1, (htable n).2.1, if_pos rfl, if_pos rfl, List.map_singleton]
  · intro m
    rw [List.mem_append, List.mem_singleton, h.slots m, hsize]
    by_cases hm : m = n
    · subst hm
      exact iff_of_true (Or.inr rfl) ⟨hn, vacant_of_key ((htable m).1.trans (if_pos rfl))⟩
    · rw [LhTable.vacant, LhTable.vacant, (htable m).1, if_neg hm]
      exact or_iff_left hm
  · exact List.nodup_append.mpr ⟨h.nodup, List.nodup_singleton n, fun a ha b hb hab =>
      hne a ha (hab.trans (List.mem_singleton.mp hb))⟩
  · rw [List.map_append]
    refine List.nodup_append.mpr ⟨h.keys, List.nodup_singleton k, fun a ha b hb hab => hk ?_⟩
    rwa [hab, List.mem_singleton.mp hb] at ha
  · rw [hcount, h.count, List.length_append, List.length_singleton]
  · rw [htail, List.getLast?_concat]
  · refine h.linked.push h.nodup (fun i hi => ?_) (fun i hi => ?_) ⟨?_, ?_⟩
    · rw [(htable i).2.2.1, if_neg (hne i hi)]
    · rw [(htable i).2.2.2, if_neg (hne i hi)]
    · rw [(htable n).2.2.1, if_pos rfl]
    · rw [(htable n).2.2.2, if_pos rfl]
  · intro m hm k' hk'
    rw [hsize]
    rcases List.mem_append.mp hm with hm | hm
    · rw [(hold m hm).1] at hk'
      refine (h.reach m hm k' hk').mono fun i hi hempty' => ?_
      have hvac := hempty i hi hempty'
      rw [decide_eq_true_eq, (htable i).1] at hempty'
      split at hempty'
      · cases hempty'
      · rw [decide_eq_true_eq]
        exact hempty'
    · obtain rfl := List.mem_singleton.mp hm
      rw [(htable m).1, if_pos rfl] at hk'
      cases hk'
      exact hpath.mono hempty

theorem holds_new (size : ℕ) : Holds hash (lhTableNew size : LhTable κ ν) [] [] where
  entries := rfl
  slots _ := iff_of_false List.not_mem_nil fun hn => Bool.noConfusion hn.2
  nodup := List.nodup_nil
  keys := List.nodup_nil
  count := rfl
  head := rfl
  tail := rfl
  linked := linked_nil
  reach _ hn := absurd hn List.not_mem_nil

/-- A table with fewer entries than slots has a vacant slot. -/
theorem Holds.exists_vacant (h : Holds hash t order rows) (hcount : t.count < t.size) :
    ∃ n < t.size, t.vacant n = true := by
  have hcard : order.toFinset.card < (Finset.range t.size).card := by
    rw [List.toFinset_card_of_nodup h.nodup, Finset.card_range, ← h.count]
    exact hcount
  obtain ⟨n, hn, hnot⟩ := Finset.exists_mem_notMem_of_card_lt_card hcard
  rw [Finset.mem_range] at hn
  refine ⟨n, hn, ?_⟩
  rw [List.mem_toFinset, h.slots] at hnot
  exact Bool.of_not_eq_false fun hfalse => hnot ⟨hn, hfalse⟩

theorem chain_yields (h : Holds hash t order rows) {fuel : ℕ} (hfuel : order.length ≤ fuel) :
    t.chain fuel = some order := by
  rw [LhTable.chain, h.head]
  exact h.linked.follow hfuel

/-- The key is put into the first vacant slot, and the table has room for it. -/
theorem insert_vacant (h : Holds hash t order rows) (hk : k ∉ rows.map Prod.fst)
    (hroom : 100 * t.count ≤ 66 * t.size) (hsize : 2 ≤ t.size) (v : Option ν) :
    ∃ u n, n < t.size ∧ t.vacant n = true ∧ Unwanted t.vacant t.size (hash k % t.size) n ∧
      Holds hash u (order ++ [n]) (rows ++ [(k, v)]) ∧ u.size = t.size ∧ u.count = t.count + 1 ∧
      (∀ m, (u.table m).k = if m = n then .key k else (t.table m).k) ∧
      ∀ fuel, t.size < fuel → lhTableInsert hash fuel t k v = some u := by
  obtain ⟨j, hj, hvacant⟩ := h.exists_vacant (by omega)
  obtain ⟨n, hn, hwanted, hpath, hwalk⟩ :=
    walk_ends (Nat.mod_lt (hash k) (by omega : t.size > 0)) hj hvacant
  obtain ⟨u, hput, hu, hsame, hcount, hkeys⟩ := putEntry_spec h hn hwanted hk hpath v
  refine ⟨u, n, hn, hwanted, hpath, hu, hsame, hcount, hkeys, fun fuel hfuel => ?_⟩
  obtain ⟨fuel, rfl⟩ : ∃ f, fuel = f + 1 := ⟨fuel - 1, by omega⟩
  rw [lhTableInsert, if_neg (by omega)]
  simp only [Option.bind_eq_bind, Option.bind_some, hwalk fuel (by omega), hput]

/-- The slots of one table put into another. -/
theorem insertAll_spec {w : LhTable κ ν} {size : ℕ} (hsize : 2 ≤ size) :
    ∀ {ns : List ℕ} {rs acc : List (κ × Option ν)} {newT : LhTable κ ν} {o : List ℕ},
      ns.map (fun n => ((w.table n).k, (w.table n).v)) = rs.map (fun r => (LhKey.key r.1, r.2)) →
      Holds hash newT o acc → newT.size = size → NoFreed newT →
      ((acc ++ rs).map Prod.fst).Nodup → 100 * (acc ++ rs).length ≤ 66 * size + 100 →
      ∃ u o', Holds hash u o' (acc ++ rs) ∧ u.size = size ∧ NoFreed u ∧
        ∀ fuel, size < fuel → ns.foldlM (fun newT n => do
          let k ← (w.table n).k.get?
          lhTableInsert hash fuel newT k (w.table n).v) newT = some u := by
  intro ns
  induction ns with
  | nil =>
    intro rs acc newT o hrows hnew hs hfreed _ _
    obtain rfl : rs = [] := by
      cases rs with
      | nil => rfl
      | cons r rs => cases hrows
    rw [List.append_nil]
    exact ⟨newT, o, hnew, hs, hfreed, fun _ _ => rfl⟩
  | cons n ns ih =>
    intro rs acc newT o hrows hnew hs hfreed hkeys hroom
    cases rs with
    | nil => cases hrows
    | cons r rs =>
      rw [List.map_cons, List.map_cons] at hrows
      obtain ⟨hentry, hrest⟩ := List.cons.inj hrows
      obtain ⟨hkey, hvalue⟩ := Prod.mk.inj hentry
      have hlength := hnew.length
      have hk : r.1 ∉ acc.map Prod.fst := by
        rw [List.map_append, List.map_cons] at hkeys
        exact fun hmem => (List.nodup_append.mp hkeys).2.2 _ hmem _ List.mem_cons_self rfl
      have hcount : 100 * newT.count ≤ 66 * newT.size := by
        rw [hnew.count, hlength, hs]
        rw [List.length_append, List.length_cons] at hroom
        omega
      obtain ⟨u, m, _, _, _, hu, husize, _, hukeys, hins⟩ :=
        insert_vacant hnew hk hcount (by omega) r.2
      have hufreed : NoFreed u := by
        intro i hi
        rw [hukeys i]
        split
        · intro hkey
          cases hkey
        · exact hfreed i (husize ▸ hi)
      rw [show acc ++ r :: rs = (acc ++ [r]) ++ rs by simp] at hkeys hroom ⊢
      obtain ⟨u', o', hholds, hu's, hu'freed, hfold⟩ :=
        ih hrest hu (husize.trans hs) hufreed hkeys hroom
      refine ⟨u', o', hholds, hu's, hu'freed, fun fuel hfuel => ?_⟩
      rw [List.foldlM_cons, hkey, hvalue]
      show (lhTableInsert hash fuel newT r.1 r.2).bind _ = _
      rw [hins fuel (by omega)]
      exact hfold fuel hfuel

/-- The table doubled keeps its rows in their order, and no slot of it is freed. -/
theorem lhTableResize_spec (h : Holds hash t order rows) (hroom : Roomy t) :
    ∃ u o', Holds hash u o' rows ∧ u.size = t.size * 2 ∧ u.count = t.count ∧ NoFreed u ∧
      ∀ fuel, t.size * 2 < fuel →
        lhTableResize (lhTableInsert hash fuel) fuel t (t.size * 2) = some u := by
  have hsize := hroom.size
  have hcount := hroom.count
  have hlength := h.length
  have hcounted := h.count
  obtain ⟨u, o', hu, husize, hfreed, hfold⟩ := insertAll_spec (w := t)
    (by omega : 2 ≤ t.size * 2) h.entries
    (show Holds hash (lhTableNew (t.size * 2)) [] [] from holds_new (t.size * 2)) rfl
    (fun n _ => by intro hn; cases hn) h.keys (by rw [List.nil_append]; omega)
  rw [List.nil_append] at hu
  have hsame : u.count = t.count := by rw [hu.count, hu.length, ← hlength, ← h.count]
  refine ⟨u, o', hu, husize, hsame, hfreed, fun fuel hfuel => ?_⟩
  have hfolded := hfold fuel hfuel
  simp only [Option.bind_eq_bind] at hfolded
  simp only [lhTableResize, chain_yields h (show order.length ≤ fuel by omega),
    Option.bind_eq_bind, Option.bind_some, hfolded, ← hsame]

/-- The key is put behind the others. Without a resize it takes the first vacant slot. -/
theorem lhTableInsert_spec (h : Holds hash t order rows) (hroom : Roomy t)
    (hk : k ∉ rows.map Prod.fst) (v : Option ν) : ∃ u o',
      Holds hash u o' (rows ++ [(k, v)]) ∧ Roomy u ∧
      (NoFreed u ∨ u.size = t.size ∧ ∃ n < t.size, t.vacant n = true ∧
        Unwanted t.vacant t.size (hash k % t.size) n ∧
        ∀ m, (u.table m).k = if m = n then .key k else (t.table m).k) ∧
      ∀ fuel, t.size * 2 + 1 < fuel → lhTableInsert hash fuel t k v = some u := by
  have hsize := hroom.size
  have hcount := hroom.count
  by_cases hfull : 100 * t.count > 66 * t.size
  · obtain ⟨w, o, hw, hwsize, hwcount, hwfreed, hresize⟩ := lhTableResize_spec h hroom
    obtain ⟨u, n, _, _, _, hu, husize, hucount, hkeys, hins⟩ :=
      insert_vacant hw hk (by omega) (by omega) v
    have hfreed : NoFreed u := by
      intro m hm
      rw [hkeys m]
      split
      · intro hkey
        cases hkey
      · exact hwfreed m (husize ▸ hm)
    refine ⟨u, _, hu, ⟨by omega, by omega⟩, Or.inl hfreed, fun fuel hfuel => ?_⟩
    obtain ⟨fuel, rfl⟩ : ∃ f, fuel = f + 1 := ⟨fuel - 1, by omega⟩
    have hnext := hins (fuel + 1) (by omega)
    rw [lhTableInsert, if_neg (by omega)] at hnext
    rw [lhTableInsert, if_pos hfull, hresize fuel (by omega)]
    exact hnext
  · obtain ⟨u, n, hn, hvacant, hpath, hu, husize, hucount, hkeys, hins⟩ :=
      insert_vacant h hk (by omega) (by omega) v
    exact ⟨u, _, hu, ⟨by omega, by omega⟩, Or.inr ⟨husize, n, hn, hvacant, hpath, hkeys⟩,
      fun fuel hfuel => hins fuel (by omega)⟩

omit [DecidableEq κ] in
/-- The four ways to take a slot out of the chain have one effect. -/
theorem unlink_effect {w : LhTable κ ν} (hhead : w.head = (xs ++ n :: ys).head?)
    (htail : w.tail = (xs ++ n :: ys).getLast?) (hnodup : (xs ++ n :: ys).Nodup)
    (hnext : (w.table n).next = ys.head?) (hprev : (w.table n).prev = xs.getLast?) :
    ∃ u, unlink w n = some u ∧ u.size = w.size ∧ u.count = w.count ∧
      u.head = (xs ++ ys).head? ∧ u.tail = (xs ++ ys).getLast? ∧
      ∀ m, (u.table m).k = (w.table m).k ∧ (u.table m).v = (w.table m).v ∧
        (u.table m).next = (if xs.getLast? = some m then ys.head? else (w.table m).next) ∧
        (u.table m).prev = if ys.head? = some m then xs.getLast? else (w.table m).prev := by
  have hlast : w.tail = some n ↔ ys = [] := by
    rw [htail]
    exact getLast?_eq_some_iff_of_nodup hnodup
  have hfirst : w.head = some n ↔ xs = [] := by
    rw [hhead]
    cases xs with
    | nil => exact iff_of_true rfl rfl
    | cons x xs =>
      refine iff_of_false (fun heq => ?_) (List.cons_ne_nil _ _)
      obtain rfl : x = n := Option.some.inj heq
      exact (List.nodup_cons.mp hnodup).1 (by simp)
  unfold unlink
  rcases List.eq_nil_or_concat' xs with rfl | ⟨xs, p, rfl⟩
  · cases ys with
    | nil =>
      rw [if_pos ⟨hlast.mpr rfl, hfirst.mpr rfl⟩]
      exact ⟨_, rfl, rfl, rfl, rfl, rfl, fun m => by simp⟩
    | cons q ys =>
      rw [if_neg fun hboth => List.cons_ne_nil _ _ (hlast.mp hboth.1), if_pos (hfirst.mpr rfl),
        hnext]
      refine ⟨_, rfl, rfl, rfl, rfl, ?_, fun m => ?_⟩
      · rw [List.nil_append, List.getLast?_cons_cons] at htail
        exact htail
      · simp [eq_comm (a := m)]
  · have hxs : xs ++ [p] ≠ [] := by simp
    have hnot : w.head ≠ some n := fun heq => hxs (hfirst.mp heq)
    rw [List.getLast?_concat] at hprev
    rw [if_neg fun hboth => hnot hboth.2, if_neg hnot]
    cases ys with
    | nil =>
      rw [if_pos (hlast.mpr rfl), hprev]
      refine ⟨_, rfl, rfl, rfl, ?_, ?_, fun m => ?_⟩
      · rw [List.append_nil]
        cases xs <;> exact hhead
      · simp
      · simp [eq_comm (a := m)]
    | cons q ys =>
      rw [if_neg fun heq => List.cons_ne_nil _ _ (hlast.mp heq), hprev, hnext]
      refine ⟨_, rfl, rfl, rfl, ?_, ?_, fun m => ?_⟩
      · cases xs <;> exact hhead
      · refine htail.trans ?_
        simp [List.getLast?_append]
      · simp [eq_comm (a := m)]

/-- The entry of a key taken out. -/
theorem lhTableDeleteEntry_spec {rx ry : List (κ × Option ν)}
    (h : Holds hash t (xs ++ n :: ys) (rx ++ (k, v) :: ry)) (hlength : xs.length = rx.length) :
    ∃ u, lhTableDeleteEntry t n = some u ∧ Holds hash u (xs ++ ys) (rx ++ ry) ∧
      u.size = t.size ∧ u.count + 1 = t.count ∧
      ∀ m, (u.table m).k = if m = n then .freed else (t.table m).k := by
  have hused : t.vacant n = false := ((h.slots n).mp (by simp)).2
  obtain ⟨hnext, hprev⟩ := h.linked xs n ys rfl
  have hparts := h.entries
  rw [List.map_append, List.map_append, List.map_cons, List.map_cons] at hparts
  obtain ⟨hxs, hys⟩ := List.append_inj hparts (by rw [List.length_map, List.length_map, hlength])
  obtain ⟨-, hys⟩ := List.cons.inj hys
  have hnot : n ∉ xs ++ ys := (List.nodup_cons.mp (List.nodup_middle.mp h.nodup)).1
  obtain ⟨w, hw⟩ : ∃ w, w = { t.setEntry n { t.table n with k := .freed, v := none } with
    count := t.count - 1 } := ⟨_, rfl⟩
  have hwtable : ∀ m, (w.table m).k = (if m = n then .freed else (t.table m).k) ∧
      (w.table m).v = (if m = n then none else (t.table m).v) ∧
      (w.table m).next = (t.table m).next ∧ (w.table m).prev = (t.table m).prev := by
    intro m
    subst hw
    by_cases hm : m = n <;> simp [LhTable.setEntry_table, hm]
  obtain ⟨u, hunlink, husize, hucount, huhead, hutail, hutable⟩ := unlink_effect (w := w)
    (by rw [hw]; exact h.head) (by rw [hw]; exact h.tail) h.nodup
    ((hwtable n).2.2.1.trans hnext) ((hwtable n).2.2.2.trans hprev)
  have hk : ∀ m, (((u.setNext n none).setPrev n none).table m).k =
      if m = n then .freed else (t.table m).k := by
    intro m
    rw [LhTable.setPrev_k, LhTable.setNext_k, (hutable m).1, (hwtable m).1]
  have hold : ∀ m ∈ xs ++ ys, (((u.setNext n none).setPrev n none).table m).k = (t.table m).k ∧
      (((u.setNext n none).setPrev n none).table m).v = (t.table m).v := by
    intro m hm
    have hne : m ≠ n := fun heq => hnot (heq ▸ hm)
    rw [hk m, if_neg hne, LhTable.setPrev_v, LhTable.setNext_v, (hutable m).2.1, (hwtable m).2.1,
      if_neg hne]
    exact ⟨rfl, rfl⟩
  have hsize : u.size = t.size := by
    rw [husize, hw]
    rfl
  have hcount : u.count = t.count - 1 := by
    rw [hucount, hw]
  have hcounted := h.count
  rw [List.length_append, List.length_cons] at hcounted
  refine ⟨(u.setNext n none).setPrev n none, ?_, ?_, hsize, ?_, hk⟩
  · unfold lhTableDeleteEntry
    rw [if_neg (by rw [hused]; exact Bool.false_ne_true), ← hw, hunlink]
    rfl
  · refine ⟨?_, fun m => ?_, ?_, ?_, ?_, huhead, hutail, ?_, fun m hm k' hk' => ?_⟩
    · rw [map_entries_congr hold, List.map_append, hxs, hys, List.map_append]
    · by_cases hm : m = n
      · subst hm
        refine iff_of_false hnot fun hboth => ?_
        rw [LhTable.vacant, hk m, if_pos rfl] at hboth
        exact Bool.noConfusion hboth.2
      · have hmem := h.slots m
        rw [LhTable.vacant] at hmem ⊢
        rw [hk m, if_neg hm]
        refine Iff.trans ?_ (hmem.trans (and_congr_left fun _ => ?_))
        · simp [hm]
        · rw [← hsize]
          rfl
    · exact (List.nodup_cons.mp (List.nodup_middle.mp h.nodup)).2
    · have hkeys := h.keys
      rw [List.map_append, List.map_cons] at hkeys
      rw [List.map_append]
      exact (List.nodup_cons.mp (List.nodup_middle.mp hkeys)).2
    · rw [List.length_append]
      show u.count = _
      omega
    · refine h.linked.cut h.nodup (fun i hi => ?_) (fun i hi => ?_)
      · have hne : i ≠ n := fun heq => hnot (heq ▸ hi)
        rw [LhTable.setPrev_next, LhTable.setNext_next, if_neg hne, (hutable i).2.2.1,
          (hwtable i).2.2.1]
      · have hne : i ≠ n := fun heq => hnot (heq ▸ hi)
        rw [LhTable.setPrev_prev, if_neg hne, LhTable.setNext_prev, (hutable i).2.2.2,
          (hwtable i).2.2.2]
    · rw [(hold m hm).1] at hk'
      have hreach := h.reach m (by
        rcases List.mem_append.mp hm with hm | hm
        · exact List.mem_append_left _ hm
        · exact List.mem_append_right _ (List.mem_cons_of_mem _ hm)) k' hk'
      rw [← hsize] at hreach
      refine hreach.mono fun i _ hempty => ?_
      rw [decide_eq_true_eq, hk i] at hempty
      rw [decide_eq_true_eq]
      split at hempty
      · cases hempty
      · exact hempty
  · show u.count + 1 = _
    omega

end Specs

end Rhodes.LinkHash
