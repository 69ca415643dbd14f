import Rhodes.SqlGrammar
import Mathlib.Data.List.Dedup

/-!
What the statements do to a table, for rows of any kind whose cells are texts or NULL. The rows of a
SELECT are given in one order of the many that SQLite may choose.
-/
namespace Rhodes.SqlGrammar

/-- The cells of a row by the names of their columns. -/
abbrev Cells := String → Option String

/-- A parameter that is not bound is NULL. -/
def Operand.value : Operand → Option String
  | lit v => v
  | param => none

/-- NULL is equal to nothing. Texts are compared, which for a column of integers and the text of an
integer is the comparison of integers. -/
def Cond.Holds (c : Cond) (r : Cells) : Prop :=
  match c.test with
  | .eq x => x.value ≠ none ∧ r c.col.id.name = x.value
  | .isNull => r c.col.id.name = none

instance (c : Cond) (r : Cells) : Decidable (c.Holds r) := by
  unfold Cond.Holds
  split <;> infer_instance

/-- The WHERE clause, which may be missing. -/
def Selects (conds : Option (Items Cond)) (r : Cells) : Prop :=
  ∀ cs, conds = some cs → ∀ c ∈ cs.toList, c.Holds r

instance (conds : Option (Items Cond)) (r : Cells) : Decidable (Selects conds r) :=
  match conds with
  | none => isTrue (fun _ h => by cases h)
  | some cs => decidable_of_iff (∀ c ∈ cs.toList, c.Holds r)
    ⟨fun h _ heq => by cases heq; exact h, fun h => h cs rfl⟩

section Binding

/-- Parameters are bound from the left. -/
def Cond.bind (c : Cond) (args : List (Option String)) : Cond × List (Option String) :=
  match c.test, args with
  | .eq .param, v :: args => ({ c with test := .eq (.lit v) }, args)
  | _, _ => (c, args)

def bindAll {α : Type} (f : α → List (Option String) → α × List (Option String)) :
    List α → List (Option String) → List α × List (Option String)
  | [], args => ([], args)
  | a :: as, args =>
    let (a, args) := f a args
    let (as, args) := bindAll f as args
    (a :: as, args)

def Items.bind {α : Type} (f : α → List (Option String) → α × List (Option String)) (s : Items α)
    (args : List (Option String)) : Items α × List (Option String) :=
  let (a, args) := f s.head args
  let (as, args) := bindAll f s.tail args
  (⟨a, as⟩, args)

def Core.bind (c : Core) (args : List (Option String)) : Core × List (Option String) :=
  match c.conds with
  | none => (c, args)
  | some cs => ({ c with conds := some (cs.bind Cond.bind args).1 }, (cs.bind Cond.bind args).2)

def Select.bind (q : Select) (args : List (Option String)) : Select :=
  let (core, args) := q.core.bind args
  { q with core, rest := (bindAll (fun r args => ((r.1, (r.2.bind args).1), (r.2.bind args).2))
      q.rest args).1 }

end Binding

section Rows

variable {ρ : Type} (cells : ρ → Cells)

/-- The values of one SELECT. -/
def Core.values (c : Core) (rows : List ρ) : List (List (Option String)) :=
  let vs := (rows.filter (fun r => Selects c.conds (cells r))).map
    (fun r => c.cols.toList.map (fun col => cells r col.name))
  if c.distinct then vs.dedup else vs

/-- INTERSECT keeps one of each row that both sides have. -/
def Compound.combine (op : Compound) (vs ws : List (List (Option String))) :
    List (List (Option String)) :=
  match op with
  | intersect => (vs.filter (fun v => v ∈ ws)).dedup
  | unionAll => vs ++ ws

def Limit.slice {α : Type} (l : Option Limit) (xs : List α) : List α :=
  match l with
  | none => xs
  | some l => (xs.drop l.offset).take l.limit

/-- The values of a SELECT without its limit, where the tables are looked up by name. -/
def Select.values (tables : Ident → List ρ) (q : Select) : List (List (Option String)) :=
  q.rest.foldl (fun vs r => r.1.combine vs (r.2.values cells (tables r.2.table)))
    (q.core.values cells (tables q.core.table))

/-- The names of the columns are those of the first SELECT. -/
def Select.names (q : Select) : List String := q.core.cols.toList.map Ident.name

/-- The greatest of the texts that are there. -/
def maxText (vs : List (Option String)) : Option String :=
  vs.foldl (fun m v => match m, v with
    | none, v => v
    | m, none => m
    | some a, some b => some (if a < b then b else a)) none

/-- The row of an object: its id and the value of each attribute. -/
def Pivot.objectRow (q : Pivot) (rows : List ρ) (object : Option String) : List (Option String) :=
  object :: q.attribs.toList.map (fun a => maxText ((rows.filter (fun r =>
    cells r "object" = object ∧ cells r "attrib" = some a)).map (fun r => cells r "value")))

/-- One row for each object, without the limit and not in order. -/
def Pivot.values (rows : List ρ) (q : Pivot) : List (List (Option String)) :=
  let found := rows.filter (fun r => Selects (some q.conds) (cells r))
  ((found.map (fun r => cells r "object")).dedup).map (q.objectRow cells found)

def Pivot.names (q : Pivot) : List String := "object" :: q.attribs.toList

/-- The texts that an INSERT gives. What a column that is not named gets is up to its table. -/
def insertedRow (fields : List (Ident × Option String)) : Cells := fun col =>
  ((fields.find? (fun f => f.1.name = col)).map Prod.snd).join

end Rows

end Rhodes.SqlGrammar
