import Mathlib
import Rhodes.SqlMeaning

/-!
What the columns of a table make of a text: a column of texts keeps it, a column of integers reads
it as a number where it is one, and the key of a table holds integers only. So a text is stored and
compared as itself in a column of integers only when it is no number, or the decimal text of an
integer of 64 bits. Floating-point numbers are a parameter.
-/
namespace Rhodes.SqlColumns

open SqlGrammar

section Numbers

def skipSign : List Char → List Char
  | '-' :: z => z
  | '+' :: z => z
  | z => z

def startsWithDigit (z : List Char) : Bool := z.head?.any Char.isDigit

def skipDigits (z : List Char) : List Char := z.dropWhile Char.isDigit

/-- The part behind the digits from `e` on: nothing for a text that is no number, else whether it is
a real one. -/
def exponent (realnum : Bool) (z : List Char) : Option Bool :=
  match z with
  | [] => some realnum
  | c :: z =>
    if (c = 'e' ∨ c = 'E') ∧ startsWithDigit (skipSign z) = true ∧
        skipDigits (skipSign z) = [] then some true
    else none

/-- Nothing for a text that is no number, else whether it has a fraction or an exponent. -/
def sqlite3IsNumber (z : List Char) : Option Bool :=
  let z := skipSign z
  if startsWithDigit z = false then none
  else match skipDigits z with
    | '.' :: z => if startsWithDigit z = true then exponent true (skipDigits z) else none
    | z => exponent false z

/-- The integer of digits behind a sign. -/
def digitsValue (z : List Char) : Int :=
  let v : Int := Nat.ofDigitChars 10 (skipSign z) 0
  if z.head? = some '-' then -v else v

/-- The integer of digits behind a sign, if it has 64 bits. -/
def sqlite3Atoi64 (z : List Char) : Option Int64 :=
  let i := Int64.ofInt (digitsValue z)
  if i.toInt = digitsValue z then some i else none

/-- The doubles that are no integers of 64 bits: what sqlite3AtoF and sqlite3VdbeIntegerAffinity
make of a text, and which integers are equal to them as doubles. -/
structure Doubles where
  Real : Type
  read : String → Int64 ⊕ Real
  equals : Int64 → Real → Prop

variable (D : Doubles)

/-- The number that a text is read as, if it is one. -/
def readNumber (s : String) : Option (Int64 ⊕ D.Real) :=
  match sqlite3IsNumber s.toList with
  | none => none
  | some true => some (D.read s)
  | some false => match sqlite3Atoi64 s.toList with
    | some i => some (.inl i)
    | none => some (D.read s)

end Numbers

section Values

inductive Value (D : Doubles) where
  | null
  | int (i : Int64)
  | real (x : D.Real)
  | text (s : String)

variable {D : Doubles}

/-- The text of a value, and none for NULL; no text stands for a double. -/
def Value.shown : Value D → Option (Option String)
  | null => some none
  | int i => some (some (toString i.toInt))
  | real _ => none
  | text s => some (some s)

def Value.ofNumber : Int64 ⊕ D.Real → Value D
  | .inl i => .int i
  | .inr x => .real x

/-- OP_Eq: two integers are compared as integers, other numbers as doubles, and no number is equal
to a text. -/
def Value.Same : Value D → Value D → Prop
  | int i, int j => i = j
  | int i, real x => D.equals i x
  | real x, int i => D.equals i x
  | real x, real y => x = y
  | text s, text t => s = t
  | _, _ => False

/-- The declared types of the schema. -/
inductive Kind where
  | text
  | integer
  /-- INTEGER PRIMARY KEY, which is the rowid. -/
  | key
  deriving DecidableEq

/-- What a column of the kind can hold. -/
def Kind.Admits (k : Kind) (v : Value D) : Prop :=
  match k, v with
  | .text, .null => True
  | .text, .text _ => True
  | .integer, .text s => readNumber D s = none
  | .integer, _ => True
  | .key, .int _ => True
  | _, _ => False

/-- A literal that is stored, which the key refuses when it is no integer. -/
def Kind.store (k : Kind) (v : Option String) : Option (Value D) :=
  match k, v with
  | .key, none => none
  | .key, some s => match readNumber D s with
    | some (.inl i) => some (.int i)
    | _ => none
  | _, none => some .null
  | .text, some s => some (.text s)
  | .integer, some s => some (((readNumber D s).map Value.ofNumber).getD (.text s))

/-- A column that is compared with a literal other than NULL. The key is looked up as an integer. -/
def Kind.Equals (k : Kind) (v : Value D) (s : String) : Prop :=
  match k with
  | .text => v = .text s
  | .integer => Value.Same v (((readNumber D s).map Value.ofNumber).getD (.text s))
  | .key => ∃ i, readNumber D s = some (.inl i) ∧ v = .int i

end Values

section Tables

/-- A column of CREATE TABLE; the default is NULL or an integer. -/
structure ColumnDef where
  name : Ident
  kind : Kind
  default : Option Int64
  ok : kind = .text → default = none

structure Table where
  name : Ident
  columns : List ColumnDef
  nodup : (columns.map ColumnDef.name).Nodup

def Table.column (T : Table) (i : Ident) : Option ColumnDef :=
  T.columns.find? (fun c => c.name = i)

/-- A row of the table. -/
structure Row (D : Doubles) (T : Table) where
  cells : Ident → Value D
  admits : ∀ c ∈ T.columns, c.kind.Admits (cells c.name)

/-- A hash from columns of the table to values, in its order. -/
structure ColumnHash (T : Table) where
  fields : List (Ident × Option String)
  keys : (fields.map Prod.fst).Nodup
  known : ∀ f ∈ fields, ∃ c ∈ T.columns, c.name = f.1

/-- What a column without a value of its own gets from an INSERT. -/
def ColumnDef.initial (D : Doubles) (newId : Int64) (c : ColumnDef) : Value D :=
  match c.kind, c.default with
  | .key, _ => .int newId
  | _, some i => .int i
  | _, none => .null

/-- The value that an INSERT gives a column; NULL stands for a new key. -/
def ColumnDef.inserted (D : Doubles) (newId : Int64) (fields : List (Ident × Option String))
    (c : ColumnDef) : Option (Value D) :=
  match fields.find? (fun f => f.1 = c.name) with
  | none => some (c.initial D newId)
  | some f => if c.kind = .key ∧ f.2 = none then some (.int newId) else c.kind.store f.2

/-- The value that an UPDATE gives a column. -/
def ColumnDef.updated {D : Doubles} (v : Value D) (sets : List (Ident × Option String))
    (c : ColumnDef) : Option (Value D) :=
  match sets.find? (fun f => f.1 = c.name) with
  | none => some v
  | some f => c.kind.store f.2

theorem store_admits {D : Doubles} {k : Kind} {v : Option String} {w : Value D}
    (h : k.store v = some w) : k.Admits w := by
  cases k with
  | text => cases v <;> (cases h; trivial)
  | integer =>
    cases v with
    | none =>
      cases h
      trivial
    | some s =>
      cases h
      cases hread : readNumber D s with
      | none => exact hread
      | some n => cases n <;> trivial
  | key =>
    cases v with
    | none => cases h
    | some s =>
      unfold Kind.store at h
      dsimp only at h
      split at h
      · cases h
        trivial
      · cases h

/-- The element with a key is the one that is found by it. -/
theorem find_key {α β : Type} [DecidableEq β] (key : α → β) {xs : List α}
    (hxs : (xs.map key).Nodup) {x : α} (hx : x ∈ xs) :
    xs.find? (fun y => key y = key x) = some x := by
  induction xs with
  | nil => cases hx
  | cons y ys ih =>
    obtain ⟨hy, hys⟩ := List.nodup_cons.mp hxs
    rw [List.find?_cons]
    rcases List.mem_cons.mp hx with rfl | hx
    · simp
    · have hne : key y ≠ key x := fun heq => hy (heq ▸ List.mem_map_of_mem hx)
      simp only [hne, decide_false]
      exact ih hys hx

theorem Table.column_name (T : Table) {c : ColumnDef} (hc : c ∈ T.columns) :
    T.column c.name = some c := find_key ColumnDef.name T.nodup hc

variable {D : Doubles} {T : Table}

/-- A row from a value for each column, where every column has one. -/
def Table.build (T : Table) (f : ColumnDef → Option (Value D))
    (hf : ∀ c ∈ T.columns, ∀ v, f c = some v → c.kind.Admits v) : Option (Row D T) :=
  if h : ∀ c ∈ T.columns, (f c).isSome = true then
    some ⟨fun i => ((T.column i).bind f).getD .null, fun c hc => by
      obtain ⟨v, hv⟩ := Option.isSome_iff_exists.mp (h c hc)
      rw [T.column_name hc, Option.bind_some, hv, Option.getD_some]
      exact hf c hc v hv⟩
  else none

theorem Table.build_cells {f : ColumnDef → Option (Value D)}
    {hf : ∀ c ∈ T.columns, ∀ v, f c = some v → c.kind.Admits v} {r : Row D T}
    (h : T.build f hf = some r) {c : ColumnDef} (hc : c ∈ T.columns) :
    f c = some (r.cells c.name) := by
  unfold Table.build at h
  split at h
  · rename_i hall
    cases h
    obtain ⟨v, hv⟩ := Option.isSome_iff_exists.mp (hall c hc)
    show f c = some (((T.column c.name).bind f).getD .null)
    rw [T.column_name hc, Option.bind_some, hv, Option.getD_some]
  · cases h

theorem Table.exists_build (f : ColumnDef → Option (Value D))
    (hf : ∀ c ∈ T.columns, ∀ v, f c = some v → c.kind.Admits v)
    (h : ∀ c ∈ T.columns, (f c).isSome = true) : ∃ r, T.build f hf = some r :=
  ⟨_, dif_pos h⟩

/-- The default of a column is admitted. -/
theorem initial_admits (newId : Int64) (c : ColumnDef) :
    c.kind.Admits (c.initial D newId) := by
  obtain ⟨name, kind, default, ok⟩ := c
  cases kind with
  | text =>
    obtain rfl := ok rfl
    trivial
  | integer => cases default <;> trivial
  | key => trivial

theorem inserted_admits {newId : Int64} {fields : List (Ident × Option String)} {c : ColumnDef}
    {v : Value D} (h : c.inserted D newId fields = some v) : c.kind.Admits v := by
  unfold ColumnDef.inserted at h
  split at h
  · cases h
    exact initial_admits newId c
  · split at h
    · rename_i hkey
      cases h
      rw [hkey.1]
      trivial
    · exact store_admits h

/-- The row of an INSERT, unless a value for the key is no integer. -/
def Table.insertRow (D : Doubles) (T : Table) (newId : Int64)
    (fields : List (Ident × Option String)) : Option (Row D T) :=
  T.build (ColumnDef.inserted D newId fields) (fun _ _ _ => inserted_admits)

/-- The row after an UPDATE, unless a value for the key is no integer. -/
def Row.update (r : Row D T) (sets : List (Ident × Option String)) : Option (Row D T) :=
  T.build (fun c => c.updated (r.cells c.name) sets) (fun c hc v h => by
    unfold ColumnDef.updated at h
    split at h
    · cases h
      exact r.admits c hc
    · exact store_admits h)

/-- The row is one of those that a condition picks. -/
def Row.Holds (r : Row D T) (c : Cond) : Prop :=
  match T.column c.col.id, c.test with
  | none, _ => False
  | some col, .isNull => r.cells col.name = .null
  | some col, .eq x => match x.value with
    | none => False
    | some s => col.kind.Equals (r.cells col.name) s

def Row.Selected (r : Row D T) (conds : Items Cond) : Prop := ∀ c ∈ conds.toList, r.Holds c

end Tables

section Exactness

variable (D : Doubles)

/-- The value is stored as itself: an integer column turns the text of any other number into a
number, and the key takes integers only. -/
def Kind.Stores (k : Kind) (v : Option String) : Prop :=
  match k, v with
  | .text, _ => True
  | .integer, none => True
  | .integer, some s =>
    ∀ n, readNumber D s = some n → ∃ i : Int64, n = .inl i ∧ toString i.toInt = s
  | .key, none => False
  | .key, some s => ∃ i : Int64, toString i.toInt = s

/-- The value is compared as itself: no other text is the same number. -/
def Kind.Finds (k : Kind) (v : Option String) : Prop :=
  match k, v with
  | .text, _ => True
  | _, none => True
  | .integer, some s => ∀ n, readNumber D s = some n →
      ∃ i : Int64, n = .inl i ∧ toString i.toInt = s ∧ ∀ x, ¬D.equals i x
  | .key, some s => ∀ i, readNumber D s = some (.inl i) → toString i.toInt = s

/-- The condition that a column has this value. -/
def Kind.Matches {D : Doubles} (k : Kind) (w : Value D) (v : Option String) : Prop :=
  match v with
  | none => w = .null
  | some s => k.Equals w s

theorem isDigit_of_mem_digits {n : Nat} {c : Char} (hc : c ∈ Nat.toDigits 10 n) :
    c.isDigit = true := Nat.isDigit_of_mem_toDigits (by decide) (by decide) hc

theorem sqlite3IsNumber_digits {z : List Char} (n : Nat) (hz : skipSign z = Nat.toDigits 10 n) :
    sqlite3IsNumber z = some false := by
  have hskip : skipDigits (Nat.toDigits 10 n) = [] :=
    List.dropWhile_eq_nil_iff.mpr (fun c hc => isDigit_of_mem_digits hc)
  have hstart : startsWithDigit (Nat.toDigits 10 n) = true := by
    obtain ⟨c, cs, hcs⟩ := List.exists_cons_of_ne_nil (Nat.toDigits_ne_nil (n := n) (b := 10))
    rw [hcs]
    exact isDigit_of_mem_digits (hcs ▸ List.mem_cons_self)
  simp [sqlite3IsNumber, hz, hskip, hstart, exponent]

theorem skipSign_digits (n : Nat) : skipSign (Nat.toDigits 10 n) = Nat.toDigits 10 n := by
  unfold skipSign
  split
  · rename_i z heq
    exact absurd (isDigit_of_mem_digits (heq ▸ List.mem_cons_self)) (by decide)
  · rename_i z heq
    exact absurd (isDigit_of_mem_digits (heq ▸ List.mem_cons_self)) (by decide)
  · rfl

theorem head_digits (n : Nat) : (Nat.toDigits 10 n).head? ≠ some '-' := by
  intro h
  exact absurd (isDigit_of_mem_digits (List.mem_of_head? h)) (by decide)

theorem digits_toString (i : Int) :
    sqlite3IsNumber (toString i).toList = some false ∧ digitsValue (toString i).toList = i := by
  have hread : ∀ n : Nat, Nat.ofDigitChars 10 (Nat.toDigits 10 n) 0 = n :=
    fun n => Nat.ofDigitChars_toDigits (by decide) (by decide)
  have hdigits : ∀ n : Nat, (toString n).toList = Nat.toDigits 10 n :=
    fun n => by simp [toString, Nat.repr]
  cases i with
  | ofNat n =>
    have htext : (toString (Int.ofNat n)).toList = Nat.toDigits 10 n := hdigits n
    rw [htext]
    refine ⟨sqlite3IsNumber_digits n (skipSign_digits n), ?_⟩
    simp only [digitsValue, skipSign_digits, if_neg (head_digits n), hread]
    rfl
  | negSucc n =>
    have htext : (toString (Int.negSucc n)).toList = '-' :: Nat.toDigits 10 (n + 1) := by
      have h : toString (Int.negSucc n) = "-" ++ toString (n + 1) := rfl
      rw [h, String.toList_append, hdigits]
      rfl
    rw [htext]
    refine ⟨sqlite3IsNumber_digits (n + 1) rfl, ?_⟩
    have hskip : skipSign ('-' :: Nat.toDigits 10 (n + 1)) = Nat.toDigits 10 (n + 1) := rfl
    simp only [digitsValue, hskip, List.head?_cons, if_true, hread]
    rfl

/-- The text of an integer is read as this integer. -/
theorem readNumber_toString (i : Int64) : readNumber D (toString i.toInt) = some (.inl i) := by
  obtain ⟨hnumber, hvalue⟩ := digits_toString i.toInt
  have hfits : sqlite3Atoi64 (toString i.toInt).toList = some i := by
    unfold sqlite3Atoi64
    simp only [hvalue, Int64.ofInt_toInt, if_true]
  unfold readNumber
  rw [hnumber, hfits]

/-- A column shows the text that it was given just where it stores it as it is. -/
theorem store_iff (k : Kind) (v : Option String) :
    (∃ w : Value D, k.store v = some w ∧ w.shown = some v) ↔ k.Stores D v := by
  cases k with
  | text => cases v <;> exact iff_of_true ⟨_, rfl, rfl⟩ trivial
  | integer =>
    cases v with
    | none => exact iff_of_true ⟨_, rfl, rfl⟩ trivial
    | some s =>
      unfold Kind.store Kind.Stores
      dsimp only
      cases hread : readNumber D s with
      | none => exact iff_of_true ⟨_, rfl, rfl⟩ (fun n hn => by cases hn)
      | some n =>
        cases n with
        | inl i => simp [Value.ofNumber, Value.shown]
        | inr x => simp [Value.ofNumber, Value.shown]
  | key =>
    cases v with
    | none =>
      refine iff_of_false ?_ id
      rintro ⟨w, hw, -⟩
      cases hw
    | some s =>
      constructor
      · rintro ⟨w, hw, hshown⟩
        unfold Kind.store at hw
        dsimp only at hw
        split at hw
        · rename_i i _
          cases hw
          exact ⟨i, Option.some.inj (Option.some.inj hshown)⟩
        · cases hw
      · rintro ⟨i, rfl⟩
        refine ⟨.int i, ?_, rfl⟩
        unfold Kind.store
        dsimp only
        rw [readNumber_toString]

/-- The decimal text of an integer is stored as itself in every column. -/
theorem stores_toString (k : Kind) (i : Int64) : k.Stores D (some (toString i.toInt)) := by
  cases k with
  | text => trivial
  | integer =>
    intro n hn
    rw [readNumber_toString] at hn
    exact ⟨i, (Option.some.inj hn).symm, rfl⟩
  | key => exact ⟨i, rfl⟩

/-- A value of a column that shows a text which is a number is the integer that it is read as. -/
theorem shown_integer {s : String} {n : Int64 ⊕ D.Real} (hread : readNumber D s = some n)
    {k : Kind} (hk : k ≠ .text) {w : Value D} (hw : k.Admits w) (hshown : w.shown = some (some s)) :
    ∃ i : Int64, w = .int i ∧ n = .inl i ∧ toString i.toInt = s := by
  cases w with
  | null => cases hshown
  | int i =>
    obtain rfl := Option.some.inj (Option.some.inj hshown)
    rw [readNumber_toString] at hread
    exact ⟨i, rfl, (Option.some.inj hread).symm, rfl⟩
  | real x => cases hshown
  | text t =>
    obtain rfl := Option.some.inj (Option.some.inj hshown)
    cases k with
    | text => exact absurd rfl hk
    | integer =>
      have hnone : readNumber D t = none := hw
      rw [hread] at hnone
      cases hnone
    | key => exact hw.elim

variable {D}

/-- NULL is picked as NULL. -/
theorem matches_null (k : Kind) (w : Value D) : k.Matches w none ↔ w.shown = some none := by
  cases w <;> simp [Kind.Matches, Value.shown]

/-- A column of texts compares every text as it is. -/
theorem matches_text {w : Value D} (hw : Kind.text.Admits w) (s : String) :
    Kind.text.Matches w (some s) ↔ w.shown = some (some s) := by
  cases w with
  | text t => simp [Kind.Matches, Kind.Equals, Value.shown]
  | null => simp [Kind.Matches, Kind.Equals, Value.shown]
  | int i => exact hw.elim
  | real x => exact hw.elim

/-- A column of integers compares a text that is no number as it is. -/
theorem matches_noNumber {s : String} (hread : readNumber D s = none) (w : Value D) :
    Kind.integer.Matches w (some s) ↔ w.shown = some (some s) := by
  simp only [Kind.Matches, Kind.Equals, hread, Option.map_none, Option.getD_none]
  cases w with
  | text t => simp [Value.Same, Value.shown]
  | null => simp [Value.Same, Value.shown]
  | real x => simp [Value.Same, Value.shown]
  | int i =>
    refine iff_of_false id (fun hshown => ?_)
    obtain rfl := Option.some.inj (Option.some.inj hshown)
    rw [readNumber_toString] at hread
    cases hread

/-- The key is looked up as the integer of a text, which has to be its decimal text. -/
theorem key_finds_iff (s : String) : (∀ w : Value D, Kind.key.Admits w →
    (Kind.key.Matches w (some s) ↔ w.shown = some (some s))) ↔ Kind.key.Finds D (some s) := by
  constructor
  · intro h i hread
    have hshown := (h (.int i) trivial).mp ⟨i, hread, rfl⟩
    exact Option.some.inj (Option.some.inj hshown)
  · intro h w hw
    constructor
    · rintro ⟨i, hread, rfl⟩
      rw [Value.shown, h i hread]
    · intro hshown
      cases w with
      | int i =>
        obtain rfl := Option.some.inj (Option.some.inj hshown)
        exact ⟨i, readNumber_toString D i, rfl⟩
      | null => exact hw.elim
      | real x => exact hw.elim
      | text t => exact hw.elim

/-- A number is compared as a number, so that its text has to be the only one of it. -/
theorem number_finds_iff {s : String} {n : Int64 ⊕ D.Real} (hread : readNumber D s = some n) :
    (∀ w : Value D, Kind.integer.Admits w →
      (Kind.integer.Matches w (some s) ↔ w.shown = some (some s))) ↔
        Kind.integer.Finds D (some s) := by
  have hmatches : ∀ w : Value D,
      Kind.integer.Matches w (some s) ↔ Value.Same w (Value.ofNumber n) := by
    intro w
    simp [Kind.Matches, Kind.Equals, hread]
  constructor
  · intro h n' hn'
    obtain rfl := Option.some.inj (hread.symm.trans hn')
    have hsame : ∀ w : Value D, Kind.integer.Admits w → Value.Same w (Value.ofNumber n) →
        w.shown = some (some s) := fun w hw hw' => (h w hw).mp ((hmatches w).mpr hw')
    cases n with
    | inl i =>
      refine ⟨i, rfl, ?_, fun x hx => ?_⟩
      · exact Option.some.inj (Option.some.inj (hsame (.int i) trivial rfl))
      · cases hsame (.real x) trivial hx
    | inr x => cases hsame (.real x) trivial rfl
  · intro h w hw
    obtain ⟨i, rfl, rfl, hx⟩ := h n hread
    rw [hmatches]
    constructor
    · intro hsame
      cases w with
      | int j =>
        have hji : j = i := hsame
        rw [hji]
        rfl
      | real x => exact absurd hsame (hx x)
      | null => exact hsame.elim
      | text t => exact hsame.elim
    · intro hshown
      obtain ⟨j, rfl, hj, -⟩ := shown_integer D hread (by decide) hw hshown
      exact (Sum.inl.inj hj).symm

variable (D)

/-- The condition of a column with a value holds of just the cells that show this value, where the
column compares it as it is. -/
theorem finds_iff (k : Kind) (v : Option String) :
    (∀ w : Value D, k.Admits w → (k.Matches w v ↔ w.shown = some v)) ↔ k.Finds D v := by
  cases v with
  | none =>
    refine iff_of_true (fun w _ => matches_null k w) ?_
    cases k <;> trivial
  | some s =>
    cases k with
    | text => exact iff_of_true (fun w hw => matches_text hw s) trivial
    | key => exact key_finds_iff s
    | integer =>
      cases hread : readNumber D s with
      | none =>
        refine iff_of_true (fun w _ => matches_noNumber hread w) (fun n hn => ?_)
        rw [hread] at hn
        cases hn
      | some n => exact number_finds_iff hread

end Exactness

section Rows

variable (D : Doubles) {T : Table}

/-- The value is stored as itself in its column. -/
def Table.Stores (T : Table) (f : Ident × Option String) : Prop :=
  ∀ c ∈ T.columns, c.name = f.1 → c.kind.Stores D f.2

/-- The value is compared as itself in its column. -/
def Table.Finds (T : Table) (f : Ident × Option String) : Prop :=
  ∀ c ∈ T.columns, c.name = f.1 → c.kind.Finds D f.2

theorem finds_name {c : ColumnDef} (hc : c ∈ T.columns) (v : Option String) :
    T.Finds D (c.name, v) ↔ c.kind.Finds D v := by
  constructor
  · exact fun h => h c hc rfl
  · intro h d hd hname
    have hdc := T.column_name hd
    rw [hname, T.column_name hc] at hdc
    cases hdc
    exact h

variable {D}

/-- The columns of the hash show their values. -/
def Row.Shows (r : Row D T) (fields : List (Ident × Option String)) : Prop :=
  ∀ f ∈ fields, (r.cells f.1).shown = some f.2

/-- The columns that are not in the hash. -/
def Unnamed (fields : List (Ident × Option String)) (c : ColumnDef) : Prop :=
  ∀ f ∈ fields, f.1 ≠ c.name

theorem find_unnamed {fields : List (Ident × Option String)} {c : ColumnDef}
    (h : Unnamed fields c) : fields.find? (fun f => f.1 = c.name) = none :=
  List.find?_eq_none.mpr (fun f hf => by simpa using h f hf)

/-- The field of a column, if it has one. -/
theorem ColumnHash.find_cases (values : ColumnHash T) (c : ColumnDef) :
    Unnamed values.fields c ∨ ∃ f ∈ values.fields, f.1 = c.name ∧
      values.fields.find? (fun g => g.1 = c.name) = some f := by
  by_cases h : Unnamed values.fields c
  · exact Or.inl h
  · have hfield : ∃ f ∈ values.fields, f.1 = c.name := by simpa [Unnamed] using h
    obtain ⟨f, hf, hname⟩ := hfield
    exact Or.inr ⟨f, hf, hname, hname ▸ find_key Prod.fst values.keys hf⟩

/-- A row with this value in this column. -/
theorem exists_row {c : ColumnDef} (hc : c ∈ T.columns) {w : Value D} (hw : c.kind.Admits w) :
    ∃ r : Row D T, r.cells c.name = w := by
  have hadmits : ∀ d ∈ T.columns, ∀ v, (if d.name = c.name then some w else some (d.initial D 0)) =
      some v → d.kind.Admits v := by
    intro d hd v hv
    split at hv
    · rename_i hname
      have hdc := T.column_name hd
      rw [hname, T.column_name hc] at hdc
      cases hdc
      cases hv
      exact hw
    · cases hv
      exact initial_admits 0 d
  obtain ⟨r, hr⟩ := T.exists_build _ hadmits (fun d _ => by split <;> rfl)
  have hcell := Table.build_cells hr hc
  rw [if_pos rfl] at hcell
  exact ⟨r, (Option.some.inj hcell).symm⟩

/-- A row that is built from a hash shows its values just where each is stored as it is. -/
theorem build_shows_iff (values : ColumnHash T) {g : ColumnDef → Option (Value D)}
    {hg : ∀ c ∈ T.columns, ∀ v, g c = some v → c.kind.Admits v} {rest : ColumnDef → Value D}
    (hrest : ∀ c, Unnamed values.fields c → g c = some (rest c))
    (hfield : ∀ c, ∀ f ∈ values.fields, f.1 = c.name →
      ((∃ w, g c = some w ∧ w.shown = some f.2) ↔ c.kind.Stores D f.2)) :
    (∃ r, T.build g hg = some r ∧ r.Shows values.fields ∧
      ∀ c ∈ T.columns, Unnamed values.fields c → r.cells c.name = rest c) ↔
      ∀ f ∈ values.fields, T.Stores D f := by
  constructor
  · rintro ⟨r, hr, hshows, -⟩ f hf c hc hname
    exact (hfield c f hf hname.symm).mp ⟨r.cells c.name, Table.build_cells hr hc,
      hname ▸ hshows f hf⟩
  · intro h
    have hsome : ∀ c ∈ T.columns, (g c).isSome = true := by
      intro c hc
      rcases values.find_cases c with hnone | ⟨f, hf, hname, -⟩
      · rw [hrest c hnone]
        rfl
      · obtain ⟨w, hw, -⟩ := (hfield c f hf hname).mpr (h f hf c hc hname.symm)
        rw [hw]
        rfl
    obtain ⟨r, hr⟩ := T.exists_build g hg hsome
    refine ⟨r, hr, ?_, ?_⟩
    · intro f hf
      obtain ⟨c, hc, hname⟩ := values.known f hf
      obtain ⟨w, hw, hshown⟩ := (hfield c f hf hname.symm).mpr (h f hf c hc hname)
      have hcell := Table.build_cells hr hc
      rw [hw] at hcell
      rw [← hname, ← Option.some.inj hcell, hshown]
    · intro c hc hnone
      have hcell := Table.build_cells hr hc
      rw [hrest c hnone] at hcell
      exact (Option.some.inj hcell).symm

/-- An INSERT adds just the row that shows its values, and the defaults in the other columns, where
the values are stored as they are. -/
theorem insertRow_iff (newId : Int64) (values : ColumnHash T) :
    (∃ r, T.insertRow D newId values.fields = some r ∧ r.Shows values.fields ∧
      ∀ c ∈ T.columns, Unnamed values.fields c → r.cells c.name = c.initial D newId) ↔
      ∀ f ∈ values.fields, T.Stores D f := by
  refine build_shows_iff values ?_ ?_
  · intro c hnone
    rw [ColumnDef.inserted, find_unnamed hnone]
  · intro c f hf hname
    rw [← store_iff]
    unfold ColumnDef.inserted
    rw [← hname, find_key Prod.fst values.keys hf]
    dsimp only
    split
    · rename_i hkey
      rw [hkey.1, hkey.2]
      simp [Kind.store, Value.shown]
    · rfl

/-- An UPDATE makes just the row that shows its values, and has the others as before, where the
values are stored as they are. -/
theorem update_iff (r : Row D T) (values : ColumnHash T) :
    (∃ r', r.update values.fields = some r' ∧ r'.Shows values.fields ∧
      ∀ c ∈ T.columns, Unnamed values.fields c → r'.cells c.name = r.cells c.name) ↔
      ∀ f ∈ values.fields, T.Stores D f := by
  refine build_shows_iff values ?_ ?_
  · intro c hnone
    rw [ColumnDef.updated, find_unnamed hnone]
  · intro c f hf hname
    rw [← store_iff, ColumnDef.updated, ← hname, find_key Prod.fst values.keys hf]

theorem Row.holds_isNull (r : Row D T) {c : ColumnDef} (hc : c ∈ T.columns) (quoted : Bool) :
    r.Holds ⟨⟨c.name, quoted⟩, .isNull⟩ ↔ c.kind.Matches (r.cells c.name) none := by
  unfold Row.Holds
  rw [T.column_name hc]
  rfl

theorem Row.holds_eq (r : Row D T) {c : ColumnDef} (hc : c ∈ T.columns) (quoted : Bool)
    (s : String) : r.Holds ⟨⟨c.name, quoted⟩, .eq (.lit (some s))⟩ ↔
      c.kind.Matches (r.cells c.name) (some s) := by
  unfold Row.Holds
  rw [T.column_name hc]
  rfl

/-- A condition on the rows of a table picks just those that show its value where the value is
compared as it is. -/
theorem matches_iff {c : ColumnDef} (hc : c ∈ T.columns) (v : Option String) :
    (∀ r : Row D T, c.kind.Matches (r.cells c.name) v ↔ (r.cells c.name).shown = some v) ↔
      c.kind.Finds D v := by
  rw [← finds_iff]
  constructor
  · intro h w hw
    obtain ⟨r, rfl⟩ := exists_row hc hw
    exact h r
  · exact fun h r => h (r.cells c.name) (r.admits c hc)

end Rows

section Texts

variable {D : Doubles} {T : Table}

/-- The cells as texts, where the statements on tables have no other values. -/
def Row.texts (r : Row D T) : Cells := fun name =>
  ((T.columns.find? (fun c => c.name.name = name)).bind
    (fun c => (r.cells c.name).shown)).join

theorem ident_ext {i i' : Ident} (h : i.name = i'.name) : i = i' := by
  cases i
  cases i'
  cases h
  rfl

theorem Row.texts_name (r : Row D T) {c : ColumnDef} (hc : c ∈ T.columns) :
    r.texts c.name.name = (r.cells c.name).shown.join := by
  have hfind : T.columns.find? (fun d => d.name.name = c.name.name) = some c := by
    have hsame : (fun d : ColumnDef => decide (d.name.name = c.name.name)) =
        fun d => decide (d.name = c.name) := by
      funext d
      exact decide_eq_decide.mpr ⟨ident_ext, congrArg Ident.name⟩
    rw [hsame]
    exact T.column_name hc
  unfold Row.texts
  rw [hfind]
  rfl

theorem Row.texts_unknown (r : Row D T) {name : String}
    (h : ∀ c ∈ T.columns, c.name.name ≠ name) : r.texts name = none := by
  have hfind : T.columns.find? (fun c => c.name.name = name) = none :=
    List.find?_eq_none.mpr (fun c hc => by simpa using h c hc)
  unfold Row.texts
  rw [hfind]
  rfl

/-- No cell is a double. -/
def Row.NoReal (r : Row D T) : Prop := ∀ c ∈ T.columns, (r.cells c.name).shown ≠ none

theorem matches_of_stores {k : Kind} {w : Value D} (hw : k.Admits w) (hreal : w.shown ≠ none)
    {s : String} (h : k.Stores D (some s)) :
    k.Matches w (some s) ↔ w.shown = some (some s) := by
  cases k with
  | text => exact (finds_iff D .text (some s)).mpr trivial w hw
  | key =>
    refine (finds_iff D .key (some s)).mpr (fun i hread => ?_) w hw
    obtain ⟨j, rfl⟩ := h
    rw [readNumber_toString] at hread
    cases hread
    rfl
  | integer =>
    cases hread : readNumber D s with
    | none =>
      exact (finds_iff D .integer (some s)).mpr (fun n hn => by rw [hread] at hn; cases hn) w hw
    | some n =>
      obtain ⟨i, rfl, hi⟩ := h n hread
      have hmatches : Kind.integer.Matches w (some s) ↔ Value.Same w (.int i) := by
        simp [Kind.Matches, Kind.Equals, hread, Value.ofNumber]
      rw [hmatches]
      constructor
      · intro hsame
        cases w with
        | int j =>
          obtain rfl : j = i := hsame
          rw [Value.shown, hi]
        | real x => exact absurd rfl hreal
        | null => exact hsame.elim
        | text t => exact hsame.elim
      · intro hshown
        obtain ⟨j, rfl, hj, -⟩ := shown_integer D hread (by decide) hw hshown
        exact (Sum.inl.inj hj).symm

/-- The comparison of texts is that of the values, on rows without doubles and with literals that
their column stores as they are. -/
theorem Row.texts_holds (r : Row D T) (hreal : r.NoReal) {c : Cond}
    (hcol : ∃ col ∈ T.columns, col.name = c.col.id ∧
      ∀ x s, c.test = .eq x → x.value = some s → col.kind.Stores D (some s)) :
    c.Holds r.texts ↔ r.Holds c := by
  obtain ⟨⟨i, quoted⟩, test⟩ := c
  obtain ⟨col, hc, rfl, hstores⟩ := hcol
  have hcell := hreal col hc
  unfold Row.Holds
  dsimp only at hstores ⊢
  rw [T.column_name hc]
  cases test with
  | isNull =>
    show r.texts col.name.name = none ↔ r.cells col.name = .null
    rw [r.texts_name hc]
    cases hv : r.cells col.name with
    | real x => exact absurd (by rw [hv]; rfl) hcell
    | null => simp [Value.shown]
    | int i => simp [Value.shown]
    | text t => simp [Value.shown]
  | eq x =>
    show x.value ≠ none ∧ r.texts col.name.name = x.value ↔ _
    dsimp only
    cases hx : x.value with
    | none => simp
    | some s =>
      have hmatches := matches_of_stores (r.admits col hc) hcell (hstores x s rfl hx)
      refine Iff.trans ?_ hmatches.symm
      rw [r.texts_name hc, and_iff_right (Option.some_ne_none s)]
      cases (r.cells col.name).shown <;> simp

end Texts

/-! The tables of createSchema. -/

section Schema

def textColumn (name : String) (h : isName name = true) : ColumnDef :=
  ⟨⟨name, h⟩, .text, none, fun _ => rfl⟩

def intColumn (name : String) (default : Option Int64) (h : isName name = true) : ColumnDef :=
  ⟨⟨name, h⟩, .integer, default, fun h => by cases h⟩

def keyColumn (name : String) (h : isName name = true) : ColumnDef :=
  ⟨⟨name, h⟩, .key, none, fun _ => rfl⟩

def clientInfo : Table :=
  ⟨⟨"client_info", rfl⟩,
    [textColumn "client_id" rfl, textColumn "token" rfl,
      intColumn "token_sent" (some 0) rfl, intColumn "reset" (some 0) rfl,
      textColumn "port" rfl, textColumn "last_sync_success" rfl],
    by decide⟩

def objectValues : Table :=
  ⟨⟨"object_values", rfl⟩,
    [keyColumn "id" rfl, intColumn "source_id" none rfl,
      textColumn "attrib" rfl, textColumn "object" rfl,
      textColumn "value" rfl, textColumn "attrib_type" rfl],
    by decide⟩

def changedValues : Table :=
  ⟨⟨"changed_values", rfl⟩,
    [keyColumn "id" rfl, intColumn "source_id" none rfl,
      textColumn "attrib" rfl, textColumn "object" rfl,
      textColumn "value" rfl, textColumn "attrib_type" rfl,
      textColumn "update_type" rfl, intColumn "sent" (some 0) rfl,
      intColumn "main_id" (some 0) rfl],
    by decide⟩

def sources : Table :=
  ⟨⟨"sources", rfl⟩,
    [keyColumn "id" rfl, intColumn "token" none rfl,
      intColumn "source_id" (some (-1)) rfl, textColumn "source_url" rfl,
      textColumn "name" rfl, textColumn "session" rfl,
      intColumn "last_updated" (some 0) rfl,
      intColumn "last_inserted_size" (some 0) rfl,
      intColumn "last_deleted_size" (some 0) rfl,
      intColumn "last_sync_duration" (some 0) rfl,
      intColumn "last_sync_success" (some 0) rfl,
      textColumn "source_attribs" rfl],
    by decide⟩

end Schema

end Rhodes.SqlColumns
