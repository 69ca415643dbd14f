import Mathlib.Data.List.Basic
import Mathlib.Data.List.Pairwise
import Mathlib.Data.List.Nodup
import Mathlib.Data.List.Sort

/-!
The tables of g_szDbSchema that the sync engine and Rhom work on. A column that
may be NULL is an `Option`, and `col = ?` in a WHERE clause is `SqlEq`, which is
false as soon as one side is NULL. Every table carries its schema's keys as a
field, so a table that breaks them cannot be built: an INSERT or UPDATE that would
break them is a constraint error. A changed_values row also carries the number of
its insertion, which no statement reads; it tells apart rows that reuse a rowid.
-/
namespace Rhodes.Database

/-- The texts the program writes into the update_type column. -/
inductive UpdateType where
  | create
  | update
  | delete
  | ask
  | query
  deriving DecidableEq, Repr

def UpdateType.text : UpdateType → String
  | .create => "create"
  | .update => "update"
  | .delete => "delete"
  | .ask => "ask"
  | .query => "query"

/-- `col = ?` with a parameter that may itself be NULL. -/
def SqlEq {α : Type*} (col param : Option α) : Prop := col.isSome ∧ col = param

instance {α : Type*} [DecidableEq α] (col param : Option α) : Decidable (SqlEq col param) :=
  inferInstanceAs (Decidable (_ ∧ _))

/-- A row of changed_values. `stamp` is not a column. -/
structure ChangedValue where
  id : Nat
  sourceId : Int
  attrib : Option String
  object : Option String
  value : Option String
  attribType : Option String
  updateType : UpdateType
  sent : Int
  mainId : Int64
  stamp : Nat
  deriving DecidableEq

/-- A row of object_values. -/
structure ObjectValue where
  id : Int64
  sourceId : Int
  attrib : Option String
  object : Option String
  value : Option String
  attribType : Option String
  deriving DecidableEq

/-- The rows in rowid order. A new row gets a rowid above all existing ones, so
the rows stand in the order of their insertion too. -/
@[ext] structure ChangedTable where
  rows : List ChangedValue
  next : Nat
  ids : rows.Pairwise (fun r s => r.id < s.id)
  stamps : rows.Pairwise (fun r s => r.stamp < s.stamp)
  fresh : ∀ r ∈ rows, r.stamp < next

namespace ChangedTable

def empty : ChangedTable := ⟨[], 0, List.Pairwise.nil, List.Pairwise.nil, by simp⟩

/-- No rows, and a stamp for the next one. -/
def emptyFrom (next : Nat) : ChangedTable :=
  ⟨[], next, List.Pairwise.nil, List.Pairwise.nil, by simp⟩

def newId (rows : List ChangedValue) : Nat := (rows.map ChangedValue.id).foldr max 0 + 1

theorem lt_newId (rows : List ChangedValue) : ∀ r ∈ rows, r.id < newId rows := by
  unfold newId
  induction rows with
  | nil => simp
  | cons s rest ih =>
    intro r hr
    simp only [List.map_cons, List.foldr_cons]
    rcases List.mem_cons.mp hr with rfl | hr
    · omega
    · have := ih r hr
      omega

/-- INSERT INTO changed_values; the row's id and stamp are assigned here. -/
def insert (T : ChangedTable) (r : ChangedValue) : ChangedTable where
  rows := T.rows ++ [{ r with id := newId T.rows, stamp := T.next }]
  next := T.next + 1
  ids := by
    refine List.pairwise_append.mpr ⟨T.ids, List.pairwise_singleton _ _, ?_⟩
    intro s hs q hq
    rw [List.mem_singleton.mp hq]
    exact lt_newId T.rows s hs
  stamps := by
    refine List.pairwise_append.mpr ⟨T.stamps, List.pairwise_singleton _ _, ?_⟩
    intro s hs q hq
    rw [List.mem_singleton.mp hq]
    exact T.fresh s hs
  fresh := by
    intro s hs
    rcases List.mem_append.mp hs with hs | hs
    · exact Nat.lt_succ_of_lt (T.fresh s hs)
    · rw [List.mem_singleton.mp hs]
      exact Nat.lt_succ_self _

/-- DELETE FROM changed_values WHERE p. -/
def delete (T : ChangedTable) (p : ChangedValue → Prop) [DecidablePred p] : ChangedTable where
  rows := T.rows.filter (fun r => ¬ p r)
  next := T.next
  ids := T.ids.filter _
  stamps := T.stamps.filter _
  fresh := fun r hr => T.fresh r (List.mem_filter.mp hr).1

/-- An assignment list of an UPDATE; no statement assigns the id. -/
structure Assign where
  set : ChangedValue → ChangedValue
  id_eq : ∀ r, (set r).id = r.id
  stamp_eq : ∀ r, (set r).stamp = r.stamp

def setSent (n : Int) : Assign := ⟨fun r => { r with sent := n }, fun _ => rfl, fun _ => rfl⟩

def setMainId (n : Int64) : Assign := ⟨fun r => { r with mainId := n }, fun _ => rfl, fun _ => rfl⟩

def setObject (o : Option String) : Assign :=
  ⟨fun r => { r with object := o }, fun _ => rfl, fun _ => rfl⟩

def Assign.on (a : Assign) (p : ChangedValue → Prop) [DecidablePred p] (r : ChangedValue) :
    ChangedValue := if p r then a.set r else r

theorem Assign.on_id (a : Assign) (p : ChangedValue → Prop) [DecidablePred p]
    (r : ChangedValue) : (a.on p r).id = r.id := by
  unfold Assign.on
  split
  · exact a.id_eq r
  · rfl

theorem Assign.on_stamp (a : Assign) (p : ChangedValue → Prop) [DecidablePred p]
    (r : ChangedValue) : (a.on p r).stamp = r.stamp := by
  unfold Assign.on
  split
  · exact a.stamp_eq r
  · rfl

/-- UPDATE changed_values SET a WHERE p. -/
def update (T : ChangedTable) (p : ChangedValue → Prop) [DecidablePred p] (a : Assign) :
    ChangedTable where
  rows := T.rows.map (a.on p)
  next := T.next
  ids := by
    rw [List.pairwise_map]
    exact T.ids.imp (fun h => by simpa only [Assign.on_id] using h)
  stamps := by
    rw [List.pairwise_map]
    exact T.stamps.imp (fun h => by simpa only [Assign.on_stamp] using h)
  fresh := by
    intro r hr
    obtain ⟨s, hs, rfl⟩ := List.mem_map.mp hr
    rw [Assign.on_stamp]
    exact T.fresh s hs

@[simp] theorem delete_rows (T : ChangedTable) (p : ChangedValue → Prop) [DecidablePred p] :
    (T.delete p).rows = T.rows.filter (fun r => ¬ p r) := rfl

@[simp] theorem update_rows (T : ChangedTable) (p : ChangedValue → Prop) [DecidablePred p]
    (a : Assign) : (T.update p a).rows = T.rows.map (a.on p) := rfl

@[simp] theorem insert_rows (T : ChangedTable) (r : ChangedValue) :
    (T.insert r).rows = T.rows ++ [{ r with id := newId T.rows, stamp := T.next }] := rfl

@[simp] theorem mem_delete (T : ChangedTable) (p : ChangedValue → Prop) [DecidablePred p]
    (r : ChangedValue) : r ∈ (T.delete p).rows ↔ r ∈ T.rows ∧ ¬ p r := by
  simp [delete_rows, List.mem_filter]

theorem mem_update (T : ChangedTable) (p : ChangedValue → Prop) [DecidablePred p] (a : Assign)
    (r : ChangedValue) : r ∈ (T.update p a).rows ↔ ∃ s ∈ T.rows, a.on p s = r := by
  rw [update_rows, List.mem_map]

theorem mem_insert (T : ChangedTable) (r s : ChangedValue) :
    s ∈ (T.insert r).rows ↔ s ∈ T.rows ∨ s = { r with id := newId T.rows, stamp := T.next } := by
  rw [insert_rows, List.mem_append, List.mem_singleton]

/-- The rows after SET sent=n. -/
theorem mem_setSent {T : ChangedTable} {p : ChangedValue → Prop} [DecidablePred p] {n : Int}
    {r : ChangedValue} (h : r ∈ (T.update p (setSent n)).rows) :
    ∃ s ∈ T.rows, (¬ p s ∧ r = s) ∨ (p s ∧ r = { s with sent := n }) := by
  obtain ⟨s, hs, rfl⟩ := (mem_update T p _ r).mp h
  refine ⟨s, hs, ?_⟩
  by_cases hp : p s
  · exact Or.inr ⟨hp, if_pos hp⟩
  · exact Or.inl ⟨hp, if_neg hp⟩

/-- An UPDATE that finds no row. -/
theorem update_of_none (T : ChangedTable) (p : ChangedValue → Prop) [DecidablePred p] (a : Assign)
    (h : ∀ r ∈ T.rows, ¬ p r) : T.update p a = T := by
  refine ChangedTable.ext ?_ rfl
  rw [update_rows]
  conv_rhs => rw [← List.map_id' T.rows]
  apply List.map_congr_left
  intro r hr
  exact if_neg (h r hr)

/-- Two rows with one insertion number are one row. -/
theorem eq_of_stamp (T : ChangedTable) {r s : ChangedValue} (hr : r ∈ T.rows)
    (hs : s ∈ T.rows) (h : r.stamp = s.stamp) : r = s := by
  have hnodup : (T.rows.map ChangedValue.stamp).Nodup :=
    List.pairwise_map.mpr (T.stamps.imp (fun h => Nat.ne_of_lt h))
  exact List.inj_on_of_nodup_map hnodup hr hs h

end ChangedTable

/-- The unique index by_src_object: NULLs are distinct from each other. -/
def SameKey (r s : ObjectValue) : Prop :=
  SqlEq r.object s.object ∧ SqlEq r.attrib s.attrib ∧ r.sourceId = s.sourceId

instance (r s : ObjectValue) : Decidable (SameKey r s) := inferInstanceAs (Decidable (_ ∧ _))

/-- Two rows that the schema does not allow together. -/
def Conflict (r s : ObjectValue) : Prop := r.id = s.id ∨ SameKey r s

instance (r s : ObjectValue) : Decidable (Conflict r s) := inferInstanceAs (Decidable (_ ∨ _))

theorem SameKey.symm {r s : ObjectValue} (h : SameKey r s) : SameKey s r := by
  obtain ⟨⟨ho, hos⟩, ⟨ha, has⟩, hsrc⟩ := h
  exact ⟨⟨hos ▸ ho, hos.symm⟩, ⟨has ▸ ha, has.symm⟩, hsrc.symm⟩

theorem Conflict.symm {r s : ObjectValue} (h : Conflict r s) : Conflict s r :=
  h.imp Eq.symm SameKey.symm

/-- object_values with its primary key and its unique index. -/
@[ext] structure ObjectTable where
  rows : List ObjectValue
  keys : rows.Pairwise (fun r s => ¬ Conflict r s)

namespace ObjectTable

def empty : ObjectTable := ⟨[], List.Pairwise.nil⟩

/-- INSERT INTO object_values; `none` is SQLITE_CONSTRAINT. -/
def insert (T : ObjectTable) (r : ObjectValue) : Option ObjectTable :=
  if h : ∃ s ∈ T.rows, Conflict s r then none
  else some ⟨T.rows ++ [r], List.pairwise_append.mpr ⟨T.keys, List.pairwise_singleton _ _, by
    intro s hs q hq hc
    rw [List.mem_singleton.mp hq] at hc
    exact h ⟨s, hs, hc⟩⟩⟩

/-- DELETE FROM object_values WHERE p. -/
def delete (T : ObjectTable) (p : ObjectValue → Prop) [DecidablePred p] : ObjectTable :=
  ⟨T.rows.filter (fun r => ¬ p r), T.keys.filter _⟩

/-- UPDATE object_values SET f WHERE p; `none` is SQLITE_CONSTRAINT. -/
def update (T : ObjectTable) (p : ObjectValue → Prop) [DecidablePred p]
    (f : ObjectValue → ObjectValue) : Option ObjectTable :=
  if h : (T.rows.map (fun r => if p r then f r else r)).Pairwise (fun r s => ¬ Conflict r s) then
    some ⟨T.rows.map (fun r => if p r then f r else r), h⟩
  else none

/-- The rowid SQLite gives to a row inserted without an id. -/
def newId (T : ObjectTable) : Int64 :=
  Int64.ofInt ((T.rows.map (fun r => r.id.toInt)).foldr max 0 + 1)

@[simp] theorem delete_rows (T : ObjectTable) (p : ObjectValue → Prop) [DecidablePred p] :
    (T.delete p).rows = T.rows.filter (fun r => ¬ p r) := rfl

@[simp] theorem mem_delete (T : ObjectTable) (p : ObjectValue → Prop) [DecidablePred p]
    (r : ObjectValue) : r ∈ (T.delete p).rows ↔ r ∈ T.rows ∧ ¬ p r := by
  simp [delete_rows, List.mem_filter]

end ObjectTable

/-- A row of sources. The token's 64 bits are read back as they were bound. -/
structure SourceRow where
  sourceId : Int
  sourceUrl : Option String
  name : Option String
  token : Option UInt64
  session : Option String
  deriving DecidableEq

/-- The sources table; init_sources inserts a source_id only when it is new. -/
@[ext] structure SourcesTable where
  rows : List SourceRow
  unique : (rows.map SourceRow.sourceId).Nodup

namespace SourcesTable

def empty : SourcesTable := ⟨[], List.nodup_nil⟩

/-- UPDATE sources SET token=? where source_id=?. -/
def setToken (T : SourcesTable) (src : Int) (token : UInt64) : SourcesTable where
  rows := T.rows.map (fun r => if r.sourceId = src then { r with token := some token } else r)
  unique := by
    have h : (T.rows.map (fun r => if r.sourceId = src then { r with token := some token } else r)).map
        SourceRow.sourceId = T.rows.map SourceRow.sourceId := by
      rw [List.map_map]
      apply List.map_congr_left
      intro r _
      by_cases hr : r.sourceId = src <;> simp [hr]
    rw [h]
    exact T.unique

/-- The stored token of a source, as getUInt64ByIdx reads it. -/
def token (T : SourcesTable) (src : Int) : Option UInt64 :=
  (T.rows.find? (fun r => r.sourceId = src)).bind SourceRow.token

theorem ids_setToken (T : SourcesTable) (src : Int) (token : UInt64) :
    (T.setToken src token).rows.map SourceRow.sourceId = T.rows.map SourceRow.sourceId := by
  simp only [setToken, List.map_map]
  apply List.map_congr_left
  intro r _
  by_cases hr : r.sourceId = src <;> simp [hr]

theorem token_setToken_self (T : SourcesTable) {src : Int} (token : UInt64)
    (h : src ∈ T.rows.map SourceRow.sourceId) : (T.setToken src token).token src = some token := by
  simp only [SourcesTable.token, setToken]
  generalize T.rows = rows at h ⊢
  induction rows with
  | nil => simp at h
  | cons r rest ih =>
    by_cases hr : r.sourceId = src
    · simp [hr]
    · simp only [List.map_cons, List.mem_cons] at h
      simpa [hr] using ih (h.resolve_left (fun heq => hr heq.symm))

theorem token_setToken_ne (T : SourcesTable) {src other : Int} (token : UInt64)
    (h : other ≠ src) : (T.setToken src token).token other = T.token other := by
  simp only [SourcesTable.token, setToken]
  generalize T.rows = rows
  induction rows with
  | nil => rfl
  | cons r rest ih =>
    by_cases hr : r.sourceId = src
    · simpa [hr, h.symm] using ih
    · by_cases hother : r.sourceId = other
      · simp [hother, h]
      · simpa [hr, hother] using ih

/-- The stored token of a row that is there. -/
theorem token_eq (T : SourcesTable) {r : SourceRow} (hr : r ∈ T.rows) :
    T.token r.sourceId = r.token := by
  have hunique := T.unique
  simp only [SourcesTable.token]
  generalize T.rows = rows at hr hunique
  induction rows with
  | nil => cases hr
  | cons s rest ih =>
    simp only [List.map_cons, List.nodup_cons] at hunique
    rcases List.mem_cons.mp hr with rfl | hr
    · simp
    · have hne : s.sourceId ≠ r.sourceId :=
        fun heq => hunique.1 (heq ▸ List.mem_map_of_mem hr)
      simpa [hne] using ih hr hunique.2

/-- A token above 1 that was read from the table is stored there. -/
theorem token_of_getD {T : SourcesTable} {src : Int} {token : UInt64}
    (h : (T.token src).getD 0 = token) (hgt : token > 1) : T.token src = some token := by
  cases hrow : T.token src with
  | some stored => rw [← h, hrow, Option.getD_some]
  | none =>
    rw [hrow, Option.getD_none] at h
    rw [← h] at hgt
    exact absurd hgt (by decide)

end SourcesTable

end Rhodes.Database
