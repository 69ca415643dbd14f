import Mathlib
import Rhodes.SqlColumns
import Rhodes.Database

/-!
The statements on object_values and changed_values, and what is asked of SQLite: on a text that
spells a statement it does what the statement says. The order of the rows of a SELECT is left to it,
but a LIMIT takes its part of the rows that the same SELECT has without one. Nothing is asked for
texts that spell no statement.
-/
namespace Rhodes.SqlTables

open Database SqlGrammar

structure Tables where
  changed : ChangedTable
  objects : ObjectTable

section Integers

/-- The integer that has this text. -/
def asInt (s : String) : Option Int :=
  let i : Int := match s.toList with
    | '-' :: ds => -(Nat.ofDigitChars 10 ds 0 : Int)
    | ds => (Nat.ofDigitChars 10 ds 0 : Int)
  if toString i = s then some i else none

theorem asInt_toString (i : Int) : asInt (toString i) = some i := by
  have hdigits : ∀ n : Nat, (toString n).toList = Nat.toDigits 10 n :=
    fun n => by simp [toString, Nat.repr]
  have hread : ∀ n : Nat, Nat.ofDigitChars 10 (Nat.toDigits 10 n) 0 = n :=
    fun n => Nat.ofDigitChars_toDigits (by decide) (by decide)
  unfold asInt
  cases i with
  | ofNat n =>
    have htext : (toString (Int.ofNat n)).toList = Nat.toDigits 10 n := hdigits n
    have hvalue : (match (toString (Int.ofNat n)).toList with
        | '-' :: ds => -(Nat.ofDigitChars 10 ds 0 : Int)
        | ds => (Nat.ofDigitChars 10 ds 0 : Int)) = Int.ofNat n := by
      rw [htext]
      have hfirst : ∀ ds, Nat.toDigits 10 n ≠ '-' :: ds := by
        intro ds heq
        have hmem : '-' ∈ Nat.toDigits 10 n := heq ▸ List.mem_cons_self
        exact absurd (Nat.isDigit_of_mem_toDigits (by decide) (by decide) hmem) (by decide)
      split
      · rename_i ds heq
        exact absurd heq (hfirst ds)
      · rw [hread]
        rfl
    show (if toString _ = toString (Int.ofNat n) then some _ else none) = _
    rw [hvalue, if_pos rfl]
  | negSucc n =>
    have htext : (toString (Int.negSucc n)).toList = '-' :: Nat.toDigits 10 (n + 1) := by
      have h : toString (Int.negSucc n) = "-" ++ toString (n + 1) := rfl
      rw [h, String.toList_append, hdigits]
      rfl
    have hvalue : (match (toString (Int.negSucc n)).toList with
        | '-' :: ds => -(Nat.ofDigitChars 10 ds 0 : Int)
        | ds => (Nat.ofDigitChars 10 ds 0 : Int)) = Int.negSucc n := by
      rw [htext]
      show -(Nat.ofDigitChars 10 (Nat.toDigits 10 (n + 1)) 0 : Int) = _
      rw [hread]
      rfl
    show (if toString _ = toString (Int.negSucc n) then some _ else none) = _
    rw [hvalue, if_pos rfl]

theorem toString_of_asInt {s : String} {i : Int} (h : asInt s = some i) : toString i = s := by
  unfold asInt at h
  dsimp only at h
  split at h
  all_goals
    split at h
    · rename_i htext
      cases h
      exact htext
    · cases h

theorem toString_int_injective {i j : Int} (h : toString i = toString j) : i = j := by
  have hi := asInt_toString i
  rw [h, asInt_toString] at hi
  exact (Option.some.inj hi).symm

end Integers

section Cells

def objectCells (r : ObjectValue) : Cells
  | "id" => some (toString r.id.toInt)
  | "source_id" => some (toString r.sourceId)
  | "attrib" => r.attrib
  | "object" => r.object
  | "value" => r.value
  | "attrib_type" => r.attribType
  | _ => none

def changedCells (r : ChangedValue) : Cells
  | "id" => some (toString r.id)
  | "source_id" => some (toString r.sourceId)
  | "attrib" => r.attrib
  | "object" => r.object
  | "value" => r.value
  | "attrib_type" => r.attribType
  | "update_type" => some r.updateType.text
  | "sent" => some (toString r.sent)
  | "main_id" => some (toString r.mainId.toInt)
  | _ => none

inductive Table where
  | objects
  | changed
  deriving DecidableEq

def tableOf (i : Ident) : Option Table :=
  if i.name = "object_values" then some .objects
  else if i.name = "changed_values" then some .changed
  else none

def Table.columns : Table → List String
  | objects => ["id", "source_id", "attrib", "object", "value", "attrib_type"]
  | changed => ["id", "source_id", "attrib", "object", "value", "attrib_type", "update_type",
      "sent", "main_id"]

/-- The columns whose values are integers, which a text is compared with when it is one. -/
def intColumns : List String := ["id", "source_id", "sent", "main_id"]

def rowsOf (db : Tables) (i : Ident) : List Cells :=
  match tableOf i with
  | some .objects => db.objects.rows.map objectCells
  | some .changed => db.changed.rows.map changedCells
  | none => []

end Cells

section Known

/-- What a column is compared with. -/
def Cond.literal (c : Cond) : Option String :=
  match c.test with
  | .eq x => x.value
  | .isNull => none

/-- A column of the table, and an integer for a column of integers. -/
def CondKnown (T : Table) (c : Cond) : Prop :=
  c.col.id.name ∈ T.columns ∧
    (c.col.id.name ∈ intColumns → ∀ s ∈ Cond.literal c, (asInt s).isSome)

instance (T : Table) : DecidablePred (CondKnown T) := fun _ =>
  inferInstanceAs (Decidable (_ ∧ (_ → _)))

def CondsKnown (T : Table) (conds : Option (Items Cond)) : Prop :=
  ∀ cs ∈ conds, ∀ c ∈ cs.toList, CondKnown T c

instance (T : Table) : DecidablePred (CondsKnown T) := fun conds =>
  inferInstanceAs (Decidable (∀ cs ∈ conds, ∀ c ∈ cs.toList, CondKnown T c))

def CoreKnown (c : Core) : Prop :=
  match tableOf c.table with
  | none => False
  | some T => (∀ col ∈ c.cols.toList, col.name ∈ T.columns) ∧ CondsKnown T c.conds

instance : DecidablePred CoreKnown := fun c => by
  unfold CoreKnown
  split <;> infer_instance

/-- The SELECTs of a compound give rows of one width. -/
def SelectKnown (q : Select) : Prop :=
  CoreKnown q.core ∧ ∀ r ∈ q.rest, CoreKnown r.2 ∧
    r.2.cols.tail.length = q.core.cols.tail.length

instance : DecidablePred SelectKnown := fun q =>
  inferInstanceAs (Decidable (_ ∧ ∀ r ∈ q.rest, _))

/-- The column object is no attribute, also in other letters: the name of a column of the result
would come before it in GROUP BY. -/
def PivotKnown (q : Pivot) : Prop :=
  tableOf q.table = some .objects ∧ CondsKnown .objects (some q.conds) ∧
    ∀ a ∈ q.attribs.toList, SqlToken.lower a.toList ≠ "object".toList

instance : DecidablePred PivotKnown := fun q =>
  inferInstanceAs (Decidable (_ ∧ _ ∧ ∀ a ∈ q.attribs.toList, _))

end Known

section Typed

open SqlColumns (Doubles Row Value)

variable (D : Doubles)

def ofText (v : Option String) : Value D := (v.map Value.text).getD .null

theorem shown_ofText (v : Option String) : (ofText D v).shown = some v := by
  cases v <;> rfl

theorem admits_ofText (v : Option String) : SqlColumns.Kind.text.Admits (ofText D v) := by
  cases v <;> trivial

/-- The row of object_values with its integers. -/
def typedObject (r : ObjectValue) : Row D SqlColumns.objectValues where
  cells i := match i.name with
    | "id" => .int r.id
    | "source_id" => .int (Int64.ofInt r.sourceId)
    | "attrib" => ofText D r.attrib
    | "object" => ofText D r.object
    | "value" => ofText D r.value
    | "attrib_type" => ofText D r.attribType
    | _ => .null
  admits := by
    simp only [SqlColumns.objectValues, List.forall_mem_cons]
    exact ⟨trivial, trivial, admits_ofText D _, admits_ofText D _, admits_ofText D _,
      admits_ofText D _, List.forall_mem_nil _⟩

/-- The row of changed_values with its integers. -/
def typedChanged (r : ChangedValue) : Row D SqlColumns.changedValues where
  cells i := match i.name with
    | "id" => .int (Int64.ofInt r.id)
    | "source_id" => .int (Int64.ofInt r.sourceId)
    | "attrib" => ofText D r.attrib
    | "object" => ofText D r.object
    | "value" => ofText D r.value
    | "attrib_type" => ofText D r.attribType
    | "update_type" => .text r.updateType.text
    | "sent" => .int (Int64.ofInt r.sent)
    | "main_id" => .int r.mainId
    | _ => .null
  admits := by
    simp only [SqlColumns.changedValues, List.forall_mem_cons]
    exact ⟨trivial, trivial, admits_ofText D _, admits_ofText D _, admits_ofText D _,
      admits_ofText D _, trivial, trivial, trivial, List.forall_mem_nil _⟩

/-- An integer of 64 bits. -/
def Fits64 (i : Int) : Prop := (Int64.ofInt i).toInt = i

theorem typedObject_texts {r : ObjectValue} (hsrc : Fits64 r.sourceId) :
    (typedObject D r).texts = objectCells r := by
  have hsource : (Value.int (D := D) (Int64.ofInt r.sourceId)).shown =
      some (some (toString r.sourceId)) := by
    rw [Value.shown, hsrc]
  funext name
  unfold objectCells
  split
  case h_7 =>
    refine (typedObject D r).texts_unknown ?_
    simp only [SqlColumns.objectValues, List.forall_mem_cons]
    exact ⟨Ne.symm ‹_›, Ne.symm ‹_›, Ne.symm ‹_›, Ne.symm ‹_›, Ne.symm ‹_›, Ne.symm ‹_›,
      List.forall_mem_nil _⟩
  · rfl
  · exact congrArg Option.join hsource
  · exact congrArg Option.join (shown_ofText D r.attrib)
  · exact congrArg Option.join (shown_ofText D r.object)
  · exact congrArg Option.join (shown_ofText D r.value)
  · exact congrArg Option.join (shown_ofText D r.attribType)

theorem typedChanged_texts {r : ChangedValue} (hid : Fits64 r.id) (hsrc : Fits64 r.sourceId)
    (hsent : Fits64 r.sent) : (typedChanged D r).texts = changedCells r := by
  have hint : ∀ i : Int, Fits64 i → (Value.int (D := D) (Int64.ofInt i)).shown =
      some (some (toString i)) := by
    intro i hi
    rw [Value.shown, hi]
  funext name
  unfold changedCells
  split
  case h_10 =>
    refine (typedChanged D r).texts_unknown ?_
    simp only [SqlColumns.changedValues, List.forall_mem_cons]
    exact ⟨Ne.symm ‹_›, Ne.symm ‹_›, Ne.symm ‹_›, Ne.symm ‹_›, Ne.symm ‹_›, Ne.symm ‹_›,
      Ne.symm ‹_›, Ne.symm ‹_›, Ne.symm ‹_›, List.forall_mem_nil _⟩
  · exact congrArg Option.join (hint r.id hid)
  · exact congrArg Option.join (hint r.sourceId hsrc)
  · exact congrArg Option.join (shown_ofText D r.attrib)
  · exact congrArg Option.join (shown_ofText D r.object)
  · exact congrArg Option.join (shown_ofText D r.value)
  · exact congrArg Option.join (shown_ofText D r.attribType)
  · rfl
  · exact congrArg Option.join (hint r.sent hsent)
  · rfl

/-- An integer that a column of integers is compared with has 64 bits. -/
def LiteralFits (c : Cond) : Prop := ∀ s ∈ Cond.literal c, ∀ i, asInt s = some i → Fits64 i

/-- The columns of a table and their kinds. -/
def HasColumns (T : Table) (S : SqlColumns.Table) : Prop := ∀ name ∈ T.columns,
  ∃ col ∈ S.columns, col.name.name = name ∧ (col.kind ≠ .text → name ∈ intColumns)

/-- A known condition compares texts where SQLite compares integers, and picks the same rows. -/
theorem condKnown_holds {T : Table} {S : SqlColumns.Table} (hcols : HasColumns T S)
    (r : Row D S) (hreal : r.NoReal) {c : Cond} (hknown : CondKnown T c) (hfits : LiteralFits c) :
    c.Holds r.texts ↔ r.Holds c := by
  obtain ⟨col, hcol, hname, hkind⟩ := hcols _ hknown.1
  refine r.texts_holds hreal ⟨col, hcol, SqlColumns.ident_ext hname, ?_⟩
  intro x s hx hs
  by_cases htext : col.kind = .text
  · rw [htext]
    trivial
  · have hliteral : s ∈ Cond.literal c := by
      unfold Cond.literal
      rw [hx]
      exact hs
    obtain ⟨i, hi⟩ := Option.isSome_iff_exists.mp (hknown.2 (hkind htext) s hliteral)
    rw [← toString_of_asInt hi, ← hfits s hliteral i hi]
    exact SqlColumns.stores_toString D col.kind _

theorem hasColumns_objects : HasColumns .objects SqlColumns.objectValues := by
  simp [HasColumns, Table.columns, SqlColumns.objectValues, SqlColumns.keyColumn,
    SqlColumns.intColumn, SqlColumns.textColumn, intColumns]

theorem hasColumns_changed : HasColumns .changed SqlColumns.changedValues := by
  simp [HasColumns, Table.columns, SqlColumns.changedValues, SqlColumns.keyColumn,
    SqlColumns.intColumn, SqlColumns.textColumn, intColumns]

theorem noReal_object (r : ObjectValue) : (typedObject D r).NoReal := by
  have htext : ∀ v, (ofText D v).shown ≠ none := fun v => by simp [shown_ofText]
  simp only [Row.NoReal, SqlColumns.objectValues, List.forall_mem_cons]
  exact ⟨Option.some_ne_none _, Option.some_ne_none _, htext _, htext _, htext _, htext _,
    List.forall_mem_nil _⟩

theorem noReal_changed (r : ChangedValue) : (typedChanged D r).NoReal := by
  have htext : ∀ v, (ofText D v).shown ≠ none := fun v => by simp [shown_ofText]
  simp only [Row.NoReal, SqlColumns.changedValues, List.forall_mem_cons]
  exact ⟨Option.some_ne_none _, Option.some_ne_none _, htext _, htext _, htext _, htext _,
    Option.some_ne_none _, Option.some_ne_none _, Option.some_ne_none _, List.forall_mem_nil _⟩

/-- A known condition picks a row of object_values as SQLite does. -/
theorem objects_holds {r : ObjectValue} (hsrc : Fits64 r.sourceId) {c : Cond}
    (hknown : CondKnown .objects c) (hfits : LiteralFits c) :
    c.Holds (objectCells r) ↔ (typedObject D r).Holds c := by
  rw [← typedObject_texts D hsrc]
  exact condKnown_holds D hasColumns_objects _ (noReal_object D r) hknown hfits

/-- A known condition picks a row of changed_values as SQLite does. -/
theorem changed_holds {r : ChangedValue} (hid : Fits64 r.id) (hsrc : Fits64 r.sourceId)
    (hsent : Fits64 r.sent) {c : Cond} (hknown : CondKnown .changed c) (hfits : LiteralFits c) :
    c.Holds (changedCells r) ↔ (typedChanged D r).Holds c := by
  rw [← typedChanged_texts D hid hsrc hsent]
  exact condKnown_holds D hasColumns_changed _ (noReal_changed D r) hknown hfits

end Typed

section Limits

def operandParams : Operand → Nat
  | .lit _ => 0
  | .param => 1

def condParams (c : Cond) : Nat :=
  match c.test with
  | .eq x => operandParams x
  | .isNull => 0

def coreParams (c : Core) : Nat :=
  match c.conds with
  | none => 0
  | some cs => (cs.toList.map condParams).sum

/-- LIMIT and OFFSET are integers of 64 bits. -/
def LimitFits (l : Option Limit) : Prop := ∀ l' ∈ l, l'.limit + l'.offset < 2 ^ 63

instance : DecidablePred LimitFits := fun l =>
  inferInstanceAs (Decidable (∀ l' ∈ l, _))

/-- SQLITE_MAX_COMPOUND_SELECT, SQLITE_MAX_VARIABLE_NUMBER and SQLITE_MAX_COLUMN. -/
def Fits : Stmt → Prop
  | .select q => q.rest.length + 1 ≤ 500 ∧
      coreParams q.core + (q.rest.map (fun r => coreParams r.2)).sum ≤ 999 ∧ LimitFits q.limit
  | .pivot q => q.attribs.toList.length + 1 ≤ 2000 ∧ LimitFits q.limit
  | _ => True

def limitOf : Stmt → Option Limit
  | .select q => q.limit
  | .pivot q => q.limit
  | _ => none

def unlimited : Stmt → Stmt
  | .select q => .select { q with limit := none }
  | .pivot q => .pivot { q with limit := none }
  | s => s

end Limits

section Running

def updateTypeOf (s : String) : Option UpdateType :=
  [UpdateType.create, .update, .delete, .ask, .query].find? (fun t => t.text = s)

/-- An integer that a column of 64 bits holds. -/
def asInt64 (s : String) : Option Int64 :=
  (asInt s).bind (fun i => if (Int64.ofInt i).toInt = i then some (Int64.ofInt i) else none)

/-- A column of 64 bits that has a default. -/
def intOr (default : Int64) (v : Option String) : Option Int64 :=
  match v with
  | none => some default
  | some s => asInt64 s

/-- The row that an INSERT adds to object_values. -/
def objectOf (newId : Int64) (r : Cells) : Option ObjectValue := do
  let src ← (r "source_id").bind asInt
  let id ← intOr newId (r "id")
  return ⟨id, src, r "attrib", r "object", r "value", r "attrib_type"⟩

/-- The row that an INSERT adds to changed_values, which gives it its id. -/
def changedOf (r : Cells) : Option ChangedValue := do
  let src ← (r "source_id").bind asInt
  let t ← (r "update_type").bind updateTypeOf
  let mainId ← intOr 0 (r "main_id")
  return ⟨0, src, r "attrib", r "object", r "value", r "attrib_type", t, 0, mainId, 0⟩

/-- The columns of an INSERT into changed_values; sent has a default. -/
def changedFields : List String :=
  ["source_id", "attrib", "object", "value", "attrib_type", "update_type", "main_id"]

inductive Outcome where
  | rows (names : List String) (values : List (List (Option String)))
  /-- The tables after a write, or a constraint that fails. -/
  | wrote (db : Option Tables)

def bindArgs (s : Stmt) (args : List (Option String)) : Stmt :=
  match s with
  | .select q => .select (q.bind args)
  | s => s

def runInsert (db : Tables) (i : Ident) (fields : List (Ident × Option String)) :
    Option (Option Tables) :=
  if ¬(fields.map (fun f => f.1.name)).Nodup then none
  else match tableOf i with
    | some .objects =>
      if ∀ f ∈ fields, f.1.name ∈ Table.objects.columns then
        (objectOf db.objects.newId (insertedRow fields)).map (fun r =>
          (db.objects.insert r).map (fun objects => { db with objects }))
      else none
    | some .changed =>
      if ∀ f ∈ fields, f.1.name ∈ changedFields then
        (changedOf (insertedRow fields)).map (fun r =>
          some { db with changed := db.changed.insert r })
      else none
    | none => none

/-- The only column that Rhom assigns is value. -/
def runUpdate (db : Tables) (i : Ident) (sets : Items (Ident × Option String))
    (conds : Option (Items Cond)) : Option (Option Tables) :=
  if tableOf i = some .objects ∧ sets.head.1.name = "value" ∧ sets.tail = [] ∧
      CondsKnown .objects conds then
    some ((db.objects.update (fun r => Selects conds (objectCells r))
      (fun r => { r with value := sets.head.2 })).map (fun objects => { db with objects }))
  else none

def runDelete (db : Tables) (i : Ident) (conds : Option (Items Cond)) : Option Tables :=
  match tableOf i with
  | some .objects =>
    if CondsKnown .objects conds then
      some { db with objects := db.objects.delete (fun r => Selects conds (objectCells r)) }
    else none
  | some .changed =>
    if CondsKnown .changed conds then
      some { db with changed := db.changed.delete (fun r => Selects conds (changedCells r)) }
    else none
  | none => none

/-- What a statement without parameters and without its limit does, where that is modelled. -/
def run (s : Stmt) (db : Tables) : Option Outcome :=
  match s with
  | .select q =>
    if SelectKnown q then some (.rows q.names (q.values (fun r => r) (rowsOf db))) else none
  | .pivot q =>
    if PivotKnown q then some (.rows q.names (q.values objectCells db.objects.rows)) else none
  | .insert i fields => (runInsert db i fields.toList).map .wrote
  | .update i sets conds => (runUpdate db i sets conds).map .wrote
  | .delete i conds => (runDelete db i conds).map (fun db' => .wrote (some db'))

end Running

section Engine

/-- A row as Ruby gets it. -/
abbrev Row := List (String × Option String)

/-- `row[name]` in Ruby. -/
def cell (row : Row) (name : String) : Option String := (row.lookup name).join

/-- Database#execute: the rows and the tables, or an exception. -/
abbrev Engine := String → List (Option String) → Tables → Option (List Row × Tables)

/-- A text as a C string. -/
def cText (s : String) : String := String.ofList (SqlPieces.cut s.toList)

theorem cText_eq {s : String} (h : '\x00' ∉ s.toList) : cText s = s := by
  have hcut : SqlPieces.cut s.toList = s.toList := by
    have happend := SqlPieces.cut_append h []
    rwa [List.append_nil, show SqlPieces.cut [] = [] from rfl, List.append_nil] at happend
  rw [cText, hcut, String.ofList_toList]

/-- db_execute binds texts as C strings. -/
def bound (args : List (Option String)) : List (Option String) := args.map (Option.map cText)

/-- The rows of db_execute, which reads texts as C strings. -/
def rowsWith (names : List String) (values : List (List (Option String))) : List Row :=
  values.map (fun v => names.zip (v.map (Option.map cText)))

/-- What SQLite does with the texts that spell statements. -/
structure Lawful (E : Engine) : Prop where
  rows : ∀ sql args db s names values, Spells sql s → Fits s → limitOf s = none →
    run (bindArgs s (bound args)) db = some (.rows names values) →
    ∃ values', values'.Perm values ∧ E sql args db = some (rowsWith names values', db)
  page : ∀ sql sql' args db s l names values, Spells sql s → Spells sql' (unlimited s) → Fits s →
    limitOf s = some l → run (bindArgs s (bound args)) db = some (.rows names values) →
    ∀ found, E sql' args db = some (found, db) →
    E sql args db = some ((found.drop l.offset).take l.limit, db)
  write : ∀ sql args db s r, Spells sql s → run (bindArgs s (bound args)) db = some (.wrote r) →
    E sql args db = r.map (fun db' => ([], db'))

/-- SQLite with the rows in the order of the tables, which refuses what is not modelled. -/
def sqlite : Engine := fun sql args db =>
  match (SqlToken.lexText sql).bind parse with
  | none => none
  | some s =>
    match run (bindArgs s (bound args)) db with
    | none => none
    | some (.rows names values) => some (Limit.slice (limitOf s) (rowsWith names values), db)
    | some (.wrote r) => r.map (fun db' => ([], db'))

theorem run_unlimited (s : Stmt) (args : List (Option String)) (db : Tables) :
    run (bindArgs (unlimited s) args) db = run (bindArgs s args) db := by
  cases s <;> rfl

theorem limitOf_unlimited (s : Stmt) : limitOf (unlimited s) = none := by
  cases s <;> rfl

theorem sqlite_lawful : Lawful sqlite := by
  refine ⟨?_, ?_, ?_⟩
  · intro sql args db s names values hspells _ hlimit hrun
    refine ⟨values, .refl _, ?_⟩
    simp only [sqlite, hspells.parse_eq, hrun, hlimit]
    rfl
  · intro sql sql' args db s l names values hspells hspells' _ hlimit hrun found hfound
    rw [← run_unlimited] at hrun
    simp only [sqlite, hspells'.parse_eq, hrun, limitOf_unlimited, Option.some.injEq,
      Prod.mk.injEq, and_true] at hfound
    rw [run_unlimited] at hrun
    rw [← hfound]
    simp only [sqlite, hspells.parse_eq, hrun, hlimit]
    rfl
  · intro sql args db s r hspells hrun
    simp only [sqlite, hspells.parse_eq, hrun]

end Engine

end Rhodes.SqlTables
