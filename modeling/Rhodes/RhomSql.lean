import Mathlib
import Rhodes.SqlColumns

/-!
The SQL texts of rhom_db_adapter.rb and makeCondWhere of rhom_object_factory.rb. Values are put
between apostrophes as they are, so a text means what it is meant to only for values without an
apostrophe or a zero character, and the value NULL becomes the NULL of SQL. What the columns then
make of the texts is that of the schema.
-/
namespace Rhodes.RhomSql

open SqlToken SqlPieces SqlGrammar SqlColumns

/-- `s[0..e]` of Ruby, where a negative end counts from the end. -/
def upTo (s : String) (e : Int) : String :=
  let e := if e < 0 then e + s.length else e
  String.ofList (s.toList.take (e + 1).toNat)

section Source

def getValueForSqlStmt (value : Option String) : String :=
  match value with
  | none => "NULL"
  | some s => if s = "NULL" then "NULL" else "'" ++ s ++ "'"

def stringFromKeyValsSet (values : List (String × Option String)) (delim : String) : String :=
  values.foldl (fun vals kv => vals ++ (" \"" ++ kv.1 ++ "\" " ++ "= " ++ " " ++
    getValueForSqlStmt kv.2 ++ " " ++ delim)) ""

def stringFromKeyVals (values : List (String × Option String)) (delim : String) : String :=
  values.foldl (fun vals kv => vals ++ (" \"" ++ kv.1 ++ "\" " ++
    (if kv.2.isNone then "is " else "= ") ++ " " ++ getValueForSqlStmt kv.2 ++ " " ++ delim)) ""

def selectStr (selectArr : List String) : String :=
  let str := selectArr.foldl (fun str attrib => str ++ ("'" ++ attrib ++ "'" ++ ",")) ""
  if str.length > 2 then upTo str (str.length - 2) else str

def whereStr (condition : Option (List (String × Option String))) (selectArr : List String) :
    String :=
  let str := match condition with
    | none => ""
    | some condition =>
      let str := stringFromKeyVals condition "and"
      upTo str (str.length - 5)
  if selectArr.length > 0 then str ++ (" and attrib in (" ++ selectStr selectArr ++ ")") else str

def valsStr (values : List (String × Option String)) : String :=
  let vals := stringFromKeyValsSet values ","
  upTo vals (vals.length - 2)

/-- The params of select_from_table. -/
structure SelectParams where
  distinct : Bool
  orderBy : Option String

def selectFromTable (table columns : String) (condition : Option (List (String × Option String)))
    (params : Option SelectParams) (selectArr : List String) : String :=
  match condition with
  | none => "select " ++ columns ++ " from " ++ table
  | some condition =>
    match params with
    | some ⟨true, _⟩ => "select distinct " ++ columns ++ " from " ++ table ++ " where " ++
        whereStr (some condition) selectArr
    | some ⟨false, some order⟩ => "select " ++ columns ++ " from " ++ table ++ " where " ++
        whereStr (some condition) selectArr ++ " order by " ++ order
    | _ => "select " ++ columns ++ " from " ++ table ++ " where " ++
        whereStr (some condition) selectArr

def insertIntoTable (table : String) (values : List (String × Option String)) : String :=
  let cols := values.foldl (fun cols kv => cols ++ (kv.1 ++ ",")) ""
  let vals := values.foldl (fun vals kv => vals ++ (getValueForSqlStmt kv.2 ++ ",")) ""
  "insert into " ++ table ++ " (" ++ upTo cols (cols.length - 2) ++ ") values (" ++
    upTo vals (vals.length - 2) ++ ")"

def deleteFromTable (table : String) (condition : List (String × Option String)) : String :=
  "delete from " ++ table ++ " where " ++ whereStr (some condition) []

def updateIntoTable (table : String) (values : List (String × Option String))
    (condition : Option (List (String × Option String))) : String :=
  match condition with
  | some condition => "update " ++ table ++ " set " ++ valsStr values ++ " where " ++
      whereStr (some condition) []
  | none => "update " ++ table ++ " set " ++ valsStr values

/-- A condition of find: an attribute, or a hash with its name, an operator and a function. -/
inductive CondKey where
  | attrib (name : String)
  | hash (name op func : Option String)
  deriving DecidableEq

def makeCondWhere (key : CondKey) (value : Option String) (srcidValue : String) : String :=
  let (attribName, valOp, valFunc) := match key with
    | .attrib name => (name, "=", "")
    | .hash name op func => (name.getD "", op.getD "=", func.getD "")
  "attrib=" ++ getValueForSqlStmt (some attribName) ++ " AND source_id=" ++ srcidValue ++
    " AND " ++ (if valFunc.length > 0 then valFunc ++ "(value)" else "value") ++ " " ++ valOp ++
    " " ++ getValueForSqlStmt value

end Source

section Texts

/-- A text that is gathered piece by piece. -/
theorem toList_foldl {α : Type} (xs : List α) (f : α → String) (s : String) :
    (xs.foldl (fun s x => s ++ f x) s).toList = s.toList ++ xs.flatMap (fun x => (f x).toList) := by
  induction xs generalizing s with
  | nil => simp
  | cons x xs ih => simp [ih]

/-- A separator behind every block but the last. -/
theorem flatMap_shift {α : Type} (f : α → List Char) (sep : List Char) (x : α) (xs : List α) :
    (x :: xs).flatMap (fun a => f a ++ sep) =
      (f x ++ xs.flatMap (fun a => sep ++ f a)) ++ sep := by
  induction xs generalizing x with
  | nil => simp
  | cons y ys ih =>
    rw [List.flatMap_cons, ih y, List.flatMap_cons]
    simp only [List.append_assoc]

/-- The end of a text is cut off. -/
theorem toList_upTo {s : String} {as bs : List Char} (hs : s.toList = as ++ bs)
    {e : Int} (he : e = (s.length : Int) - bs.length - 1) (has : as ≠ []) :
    (upTo s e).toList = as := by
  have hlength : s.length = as.length + bs.length := by
    rw [← String.length_toList, hs, List.length_append]
  have hpos := List.length_pos_iff.mpr has
  have hneg : ¬e < 0 := by omega
  unfold upTo
  show (String.ofList (s.toList.take ((if e < 0 then e + s.length else e) + 1).toNat)).toList = as
  rw [if_neg hneg, String.toList_ofList, hs, show (e + 1).toNat = as.length by omega,
    List.take_left]

theorem toList_getValueForSqlStmt (v : Option String) :
    (getValueForSqlStmt v).toList = (Piece.value v).render := by
  cases v with
  | none => rfl
  | some s =>
    unfold getValueForSqlStmt Piece.render
    by_cases hs : s = "NULL"
    · simp only [hs, if_true]
      rfl
    · simp [hs]

end Texts

section Pieces

/-- The keys and values as Ruby has them. -/
def texts (fields : List (Ident × Option String)) : List (String × Option String) :=
  fields.map (fun f => (f.1.name, f.2))

/-- Every value is read as it is. -/
def PlainFields (fields : List (Ident × Option String)) : Prop :=
  ∀ f ∈ fields, Piece.PlainValue f.2

/-- The condition that a column has this value. -/
def condOf (f : Ident × Option String) : Cond :=
  ⟨⟨f.1, true⟩, match f.2 with
    | none => .isNull
    | some s => .eq (.lit (some s))⟩

/-- One condition of where_str. -/
def condPieces (f : Ident × Option String) : List Piece :=
  [.gap ' ', .quoted '"' f.1.name, .gap ' ', if f.2.isNone then .word "is" else .sym '=',
    .gap ' ', .gap ' ', .value f.2]

def andPieces (f : Ident × Option String) : List Piece := [.gap ' ', .word "and"] ++ condPieces f

def wherePieces (f : Ident × Option String) (fs : List (Ident × Option String)) : List Piece :=
  condPieces f ++ fs.flatMap andPieces

/-- One assignment of vals_str. -/
def setPieces (f : Ident × Option String) : List Piece :=
  [.gap ' ', .quoted '"' f.1.name, .gap ' ', .sym '=', .gap ' ', .gap ' ', .value f.2, .gap ' ']

theorem isWord_name (i : Ident) : Piece.isWord i.name.toList = true := by
  have hok := i.ok
  rw [isName, Bool.and_eq_true, Bool.and_eq_true] at hok
  exact hok.1.1

theorem lower_name (i : Ident) : lower i.name.toList = i.name.toList := by
  have hok := i.ok
  rw [isName, Bool.and_eq_true, Bool.and_eq_true] at hok
  simpa using hok.1.2

theorem mem_of_isWord {w : List Char} (hw : Piece.isWord w = true) {c : Char} (hc : c ∈ w) :
    (c.isAlphanum || c = '_') = true := by
  rw [Piece.isWord, Bool.and_eq_true, List.all_eq_true] at hw
  exact hw.1 c hc

/-- The name of a column has no quote in it. -/
theorem plainIn_name (i : Ident) : Piece.PlainIn '"' i.name :=
  ⟨fun h => absurd (mem_of_isWord (isWord_name i) h) (by decide),
    fun h => absurd (mem_of_isWord (isWord_name i) h) (by decide)⟩

theorem condPieces_spaced (f : Ident × Option String) :
    Spaced (condPieces f) ∧ Opens (condPieces f) := by
  obtain ⟨i, v⟩ := f
  refine ⟨⟨?_, ?_⟩, ?_⟩
  · cases v <;> simp [condPieces, Piece.Ok, Piece.isWord]
  · cases v <;> simp [condPieces, Piece.Allows, Piece.separates]
  · rintro q hq
    cases hq
    rfl

theorem andPieces_spaced (f : Ident × Option String) :
    Spaced (andPieces f) ∧ Opens (andPieces f) := by
  obtain ⟨hspaced, hopens⟩ := condPieces_spaced f
  refine ⟨Spaced.append (by decide) hspaced hopens, ?_⟩
  rintro q hq
  cases hq
  rfl

theorem wherePieces_spaced (f : Ident × Option String) (fs : List (Ident × Option String)) :
    Spaced (wherePieces f fs) ∧ Opens (wherePieces f fs) := by
  obtain ⟨hspaced, hopens⟩ := condPieces_spaced f
  obtain ⟨hrest, hrest'⟩ := spaced_flatMap fs andPieces (fun f' _ => andPieces_spaced f')
  exact ⟨hspaced.append hrest hrest', opens_append hopens hrest'⟩

theorem tokensOf_condPieces (f : Ident × Option String) :
    tokensOf (condPieces f) = (condOf f).tokens := by
  obtain ⟨i, v⟩ := f
  cases v with
  | none => rfl
  | some s => rfl

theorem tokensOf_wherePieces (f : Ident × Option String) (fs : List (Ident × Option String)) :
    tokensOf (wherePieces f fs) =
      (Items.mk (condOf f) (fs.map condOf)).tokens (kw "and") Cond.tokens := by
  have hrest : tokensOf (fs.flatMap andPieces) =
      (fs.map condOf).flatMap (fun c => kw "and" :: c.tokens) := by
    induction fs with
    | nil => rfl
    | cons f' fs ih =>
      rw [List.flatMap_cons, tokensOf_append, ih, List.map_cons, List.flatMap_cons, andPieces,
        tokensOf_append, tokensOf_condPieces]
      rfl
  rw [wherePieces, tokensOf_append, tokensOf_condPieces, hrest]
  rfl

theorem condPieces_plain (f : Ident × Option String) :
    (∀ p ∈ condPieces f, p.Plain) ↔ Piece.PlainValue f.2 := by
  obtain ⟨i, v⟩ := f
  cases v <;> simp [condPieces, Piece.Plain, plainIn_name i]

theorem wherePieces_plain (f : Ident × Option String) (fs : List (Ident × Option String)) :
    (∀ p ∈ wherePieces f fs, p.Plain) ↔ PlainFields (f :: fs) := by
  have hone : ∀ f', (∀ p ∈ andPieces f', p.Plain) ↔ Piece.PlainValue f'.2 := by
    intro f'
    rw [andPieces, List.forall_mem_append, condPieces_plain]
    simp [Piece.Plain]
  unfold wherePieces PlainFields
  rw [List.forall_mem_append, condPieces_plain, List.forall_mem_cons]
  refine and_congr_right' ?_
  constructor
  · intro h f' hf'
    exact (hone f').mp (fun p hp => h p (List.mem_flatMap.mpr ⟨f', hf', hp⟩))
  · intro h p hp
    obtain ⟨f', hf', hp'⟩ := List.mem_flatMap.mp hp
    exact (hone f').mpr (h f' hf') p hp'

/-- The text of where_str. -/
theorem toList_whereStr (f : Ident × Option String) (fs : List (Ident × Option String)) :
    (whereStr (some (texts (f :: fs))) []).toList = render (wherePieces f fs) := by
  have hblock : ∀ f' : Ident × Option String, (" \"" ++ f'.1.name ++ "\" " ++
      (if f'.2.isNone then "is " else "= ") ++ " " ++ getValueForSqlStmt f'.2 ++ " " ++
      "and").toList = render (condPieces f') ++ [' ', 'a', 'n', 'd'] := by
    rintro ⟨i, v⟩
    simp only [String.toList_append, toList_getValueForSqlStmt]
    cases v <;> simp [condPieces, Piece.render]
  have hstr : (stringFromKeyVals (texts (f :: fs)) "and").toList =
      render (wherePieces f fs) ++ [' ', 'a', 'n', 'd'] := by
    unfold stringFromKeyVals texts
    rw [toList_foldl, List.flatMap_map]
    simp only [hblock]
    rw [flatMap_shift, wherePieces, render_append]
    simp [render, andPieces, List.flatMap_assoc, Piece.render]
  unfold whereStr
  show (upTo (stringFromKeyVals (texts (f :: fs)) "and")
    (((stringFromKeyVals (texts (f :: fs)) "and").length : Int) - 5)).toList = _
  refine toList_upTo hstr ?_ ?_
  · simp
    omega
  · simp [wherePieces, condPieces, Piece.render]

/-- The pieces and the conditions of a text of where_str. -/
structure WhereReads (condition : List (String × Option String)) (ps : List Piece)
    (conds : Items Cond) : Prop where
  text : (whereStr (some condition) []).toList = render ps
  spaced : Spaced ps
  tokens : tokensOf ps = conds.tokens (kw "and") Cond.tokens

theorem whereReads (f : Ident × Option String) (fs : List (Ident × Option String)) :
    WhereReads (texts (f :: fs)) (wherePieces f fs) ⟨condOf f, fs.map condOf⟩ :=
  ⟨toList_whereStr f fs, (wherePieces_spaced f fs).1, tokensOf_wherePieces f fs⟩

/-- More blocks behind the first one, with a comma in front of each. -/
def commaPieces {α : Type} (f : α → List Piece) (x : α) (xs : List α) : List Piece :=
  f x ++ xs.flatMap (fun x => .sym ',' :: f x)

section Commas

variable {α : Type} {f : α → List Piece}

theorem commaPieces_spaced (hf : ∀ x, Spaced (f x)) (x : α) (xs : List α) :
    Spaced (commaPieces f x xs) := by
  have hblock : ∀ x, Spaced (.sym ',' :: f x) ∧ Opens (.sym ',' :: f x) := by
    intro x
    refine ⟨spaced_append (show Spaced [.sym ','] by decide) (hf x) ?_, fun q hq => ?_⟩
    · rintro p hp q -
      cases hp
      rfl
    · cases hq
      rfl
  obtain ⟨hrest, hrest'⟩ := spaced_flatMap xs _ (fun x _ => hblock x)
  exact (hf x).append hrest hrest'

theorem tokensOf_commaPieces {g : α → List Token} (hf : ∀ x, tokensOf (f x) = g x) (x : α)
    (xs : List α) : tokensOf (commaPieces f x xs) = (Items.mk x xs).tokens (symbol ',') g := by
  have hrest : tokensOf (xs.flatMap (fun x => .sym ',' :: f x)) =
      xs.flatMap (fun x => symbol ',' :: g x) := by
    induction xs with
    | nil => rfl
    | cons x' xs ih =>
      rw [List.flatMap_cons, tokensOf_append, ih, tokensOf_cons, hf]
      rfl
  rw [commaPieces, tokensOf_append, hf, hrest]
  rfl

theorem commaPieces_plain (x : α) (xs : List α) :
    (∀ p ∈ commaPieces f x xs, p.Plain) ↔ ∀ y ∈ x :: xs, ∀ p ∈ f y, p.Plain := by
  unfold commaPieces
  rw [List.forall_mem_append, List.forall_mem_cons]
  refine and_congr_right' ?_
  constructor
  · intro h y hy p hp
    exact h p (List.mem_flatMap.mpr ⟨y, hy, List.mem_cons_of_mem _ hp⟩)
  · intro h p hp
    obtain ⟨y, hy, hp'⟩ := List.mem_flatMap.mp hp
    rcases List.mem_cons.mp hp' with rfl | hp'
    · trivial
    · exact h y hy p hp'

/-- A text that is gathered with a comma behind every block, without the last comma. -/
theorem toList_upTo_commas {g : α → String} (hf : ∀ x, (g x).toList = render (f x) ++ [','])
    (x : α) (xs : List α) (hne : render (f x) ≠ []) {s : String}
    (hs : s = (x :: xs).foldl (fun s x => s ++ g x) "") :
    (upTo s (s.length - 2)).toList = render (commaPieces f x xs) := by
  have htext : s.toList = render (commaPieces f x xs) ++ [','] := by
    rw [hs, toList_foldl]
    simp only [hf]
    rw [flatMap_shift, commaPieces, render_append]
    simp [render, List.flatMap_assoc, Piece.render]
  refine toList_upTo htext ?_ ?_
  · simp
    omega
  · rw [commaPieces, render_append]
    exact List.append_ne_nil_of_left_ne_nil hne _

end Commas

theorem setPieces_spaced (f : Ident × Option String) : Spaced (setPieces f) := by
  obtain ⟨i, v⟩ := f
  refine ⟨?_, ?_⟩
  · simp [setPieces, Piece.Ok]
  · simp [setPieces, Piece.Allows, Piece.separates]

theorem tokensOf_setPieces (f : Ident × Option String) : tokensOf (setPieces f) = setTokens f := by
  obtain ⟨i, v⟩ := f
  cases v with
  | none => rfl
  | some s => rfl

theorem toList_valsStr (f : Ident × Option String) (fs : List (Ident × Option String)) :
    (valsStr (texts (f :: fs))).toList = render (commaPieces setPieces f fs) := by
  have hblock : ∀ f' : Ident × Option String, (" \"" ++ f'.1.name ++ "\" " ++ "= " ++ " " ++
      getValueForSqlStmt f'.2 ++ " " ++ ",").toList = render (setPieces f') ++ [','] := by
    rintro ⟨i, v⟩
    simp only [String.toList_append, toList_getValueForSqlStmt]
    simp [setPieces, Piece.render]
  unfold valsStr
  refine toList_upTo_commas hblock f fs (by simp [setPieces, Piece.render]) ?_
  rw [stringFromKeyValsSet, texts, List.foldl_map]

def colPieces (f : Ident × Option String) : List Piece := [.word f.1.name]

def valPieces (f : Ident × Option String) : List Piece := [.value f.2]

theorem colPieces_spaced (f : Ident × Option String) : Spaced (colPieces f) := by
  refine ⟨?_, .singleton _⟩
  intro p hp
  rw [List.mem_singleton.mp hp]
  exact isWord_name f.1

theorem valPieces_spaced (f : Ident × Option String) : Spaced (valPieces f) := by
  refine ⟨?_, .singleton _⟩
  intro p hp
  rw [List.mem_singleton.mp hp]
  rfl

/-- The word of a table or a column. -/
theorem tokens_word (i : Ident) : (Piece.word i.name).tokens = [i.token] := by
  rw [Piece.tokens, lower_name]
  rfl

theorem tokens_value (v : Option String) : (Piece.value v).tokens = [litToken v] := by
  cases v with
  | none => rfl
  | some s => rfl

/-- Words with a gap behind each. -/
def headPieces (ws : List String) : List Piece := ws.flatMap (fun w => [.word w, .gap ' '])

theorem headPieces_spaced {ws : List String} (hws : ∀ w ∈ ws, Piece.isWord w.toList = true)
    {ps : List Piece} (hps : Spaced ps) : Spaced (headPieces ws ++ ps) := by
  induction ws with
  | nil => exact hps
  | cons w ws ih =>
    have hrest := ih (fun w' hw' => hws w' (List.mem_cons_of_mem w hw'))
    have hword : Spaced [.word w, .gap ' '] := by
      refine ⟨?_, by simp [Piece.Allows, Piece.separates]⟩
      intro p hp
      rcases List.mem_cons.mp hp with rfl | hp
      · exact hws w List.mem_cons_self
      · rw [List.mem_singleton.mp hp]
        rfl
    rw [show headPieces (w :: ws) ++ ps = [.word w, .gap ' '] ++ (headPieces ws ++ ps) from rfl]
    refine spaced_append hword hrest ?_
    rintro p hp q -
    cases hp
    rfl

theorem headPieces_plain (ws : List String) (ps : List Piece) :
    (∀ p ∈ headPieces ws ++ ps, p.Plain) ↔ ∀ p ∈ ps, p.Plain := by
  rw [List.forall_mem_append]
  refine and_iff_right ?_
  intro p hp
  obtain ⟨w, -, hp'⟩ := List.mem_flatMap.mp hp
  rcases List.mem_cons.mp hp' with rfl | hp'
  · trivial
  · rw [List.mem_singleton.mp hp']
    trivial

theorem colPieces_plain (fs : List (Ident × Option String)) :
    ∀ f ∈ fs, ∀ p ∈ colPieces f, p.Plain := by
  intro f _ p hp
  rw [List.mem_singleton.mp hp]
  trivial

theorem valPieces_plain (fs : List (Ident × Option String)) :
    (∀ f ∈ fs, ∀ p ∈ valPieces f, p.Plain) ↔ PlainFields fs := by
  simp [valPieces, PlainFields, Piece.Plain]

theorem setPieces_plain (fs : List (Ident × Option String)) :
    (∀ f ∈ fs, ∀ p ∈ setPieces f, p.Plain) ↔ PlainFields fs := by
  unfold PlainFields
  refine forall₂_congr (fun f _ => ?_)
  obtain ⟨i, v⟩ := f
  simp [setPieces, Piece.Plain, plainIn_name i]

end Pieces

section Statements

theorem tokens_map {α β : Type} (sep : Token) (g : β → List Token) (h : α → β) (s : Items α) :
    (s.map h).tokens sep g = s.tokens sep (fun a => g (h a)) := by
  simp [Items.map, Items.tokens, List.flatMap_map]

variable (t : Ident) (f : Ident × Option String) (fs : List (Ident × Option String))

theorem deleteFromTable_spells {condition : List (String × Option String)} {ps : List Piece}
    {conds : Items Cond} (h : WhereReads condition ps conds) :
    Spells (deleteFromTable t.name condition) (.delete t (some conds)) ↔ ∀ p ∈ ps, p.Plain := by
  have htext : (deleteFromTable t.name condition).toList =
      render (headPieces ["delete", "from", t.name, "where"] ++ ps) := by
    unfold deleteFromTable
    simp only [String.toList_append, h.text]
    simp [headPieces, Piece.render]
  have htokens : (Stmt.delete t (some conds)).tokens =
      tokensOf (headPieces ["delete", "from", t.name, "where"] ++ ps) := by
    rw [tokensOf_append, h.tokens]
    simp only [headPieces, List.flatMap_cons, List.flatMap_nil, List.append_nil, tokensOf_append,
      tokensOf_cons, tokensOf_nil, tokens_word]
    rfl
  have hspaced : Spaced (headPieces ["delete", "from", t.name, "where"] ++ ps) := by
    refine headPieces_spaced ?_ h.spaced
    simp only [List.forall_mem_cons]
    exact ⟨by decide, by decide, isWord_name t, by decide, List.forall_mem_nil _⟩
  rw [Spells, htokens, lexText_render_iff hspaced htext, headPieces_plain]

theorem deleteFromTable_iff :
    Spells (deleteFromTable t.name (texts (f :: fs)))
      (.delete t (some ⟨condOf f, fs.map condOf⟩)) ↔ PlainFields (f :: fs) := by
  rw [deleteFromTable_spells t (whereReads f fs), wherePieces_plain]

theorem updateIntoTable_none_iff :
    Spells (updateIntoTable t.name (texts (f :: fs)) none) (.update t ⟨f, fs⟩ none) ↔
      PlainFields (f :: fs) := by
  have htext : (updateIntoTable t.name (texts (f :: fs)) none).toList =
      render (headPieces ["update", t.name, "set"] ++ commaPieces setPieces f fs) := by
    unfold updateIntoTable
    simp only [String.toList_append, toList_valsStr]
    simp [headPieces, Piece.render]
  have htokens : (Stmt.update t ⟨f, fs⟩ none).tokens =
      tokensOf (headPieces ["update", t.name, "set"] ++ commaPieces setPieces f fs) := by
    rw [tokensOf_append, tokensOf_commaPieces tokensOf_setPieces]
    simp only [headPieces, List.flatMap_cons, List.flatMap_nil, List.append_nil, tokensOf_append,
      tokensOf_cons, tokensOf_nil, tokens_word, Stmt.tokens, whereTokens]
    rfl
  have hspaced : Spaced (headPieces ["update", t.name, "set"] ++ commaPieces setPieces f fs) := by
    refine headPieces_spaced ?_ (commaPieces_spaced setPieces_spaced f fs)
    simp only [List.forall_mem_cons]
    exact ⟨by decide, isWord_name t, by decide, List.forall_mem_nil _⟩
  rw [Spells, htokens, lexText_render_iff hspaced htext, headPieces_plain, commaPieces_plain,
    setPieces_plain]

theorem updateIntoTable_iff (g : Ident × Option String) (gs : List (Ident × Option String)) :
    Spells (updateIntoTable t.name (texts (f :: fs)) (some (texts (g :: gs))))
      (.update t ⟨f, fs⟩ (some ⟨condOf g, gs.map condOf⟩)) ↔
      PlainFields (f :: fs) ∧ PlainFields (g :: gs) := by
  obtain ⟨tail, htail⟩ : ∃ tail, tail = [.gap ' '] ++ (headPieces ["where"] ++ wherePieces g gs) :=
    ⟨_, rfl⟩
  have htext : (updateIntoTable t.name (texts (f :: fs)) (some (texts (g :: gs)))).toList =
      render (headPieces ["update", t.name, "set"] ++ (commaPieces setPieces f fs ++ tail)) := by
    rw [htail]
    unfold updateIntoTable
    simp only [String.toList_append, toList_valsStr, toList_whereStr]
    simp [headPieces, Piece.render]
  have htokens : (Stmt.update t ⟨f, fs⟩ (some ⟨condOf g, gs.map condOf⟩)).tokens = tokensOf
      (headPieces ["update", t.name, "set"] ++ (commaPieces setPieces f fs ++ tail)) := by
    rw [htail, tokensOf_append, tokensOf_append, tokensOf_commaPieces tokensOf_setPieces,
      tokensOf_append, tokensOf_append, tokensOf_wherePieces]
    simp only [headPieces, List.flatMap_cons, List.flatMap_nil, List.append_nil, tokensOf_append,
      tokensOf_cons, tokensOf_nil, tokens_word, Stmt.tokens, whereTokens]
    rfl
  have hwhere : Spaced (headPieces ["where"] ++ wherePieces g gs) := by
    refine headPieces_spaced ?_ (wherePieces_spaced g gs).1
    decide
  have hgap : Spaced tail ∧ Opens tail := by
    rw [htail]
    refine ⟨spaced_append (show Spaced [.gap ' '] by decide) hwhere ?_, fun q hq => ?_⟩
    · rintro p hp q -
      cases hp
      rfl
    · cases hq
      rfl
  have hspaced : Spaced (headPieces ["update", t.name, "set"] ++
      (commaPieces setPieces f fs ++ tail)) := by
    refine headPieces_spaced ?_ ((commaPieces_spaced setPieces_spaced f fs).append hgap.1 hgap.2)
    simp only [List.forall_mem_cons]
    exact ⟨by decide, isWord_name t, by decide, List.forall_mem_nil _⟩
  have hplain : (∀ p ∈ tail, p.Plain) ↔ PlainFields (g :: gs) := by
    rw [htail, List.forall_mem_append, headPieces_plain, wherePieces_plain]
    simp [Piece.Plain]
  rw [Spells, htokens, lexText_render_iff hspaced htext, headPieces_plain, List.forall_mem_append,
    commaPieces_plain, setPieces_plain, hplain]

theorem insertIntoTable_iff :
    Spells (insertIntoTable t.name (texts (f :: fs))) (.insert t ⟨f, fs⟩) ↔
      PlainFields (f :: fs) := by
  have hcols : ∀ f' : Ident × Option String,
      (f'.1.name ++ ",").toList = render (colPieces f') ++ [','] := by
    intro f'
    simp [colPieces, Piece.render]
  have hvals : ∀ f' : Ident × Option String,
      (getValueForSqlStmt f'.2 ++ ",").toList = render (valPieces f') ++ [','] := by
    intro f'
    rw [String.toList_append, toList_getValueForSqlStmt]
    simp [valPieces]
  have hcolsNe : render (colPieces f) ≠ [] := by
    have hword := isWord_name f.1
    intro hnil
    have hname : f.1.name.toList = [] := by simpa [colPieces, Piece.render] using hnil
    rw [hname] at hword
    cases hword
  have hvalsNe : render (valPieces f) ≠ [] := by
    obtain ⟨c, cs, hc, -⟩ := render_head (p := .value f.2) rfl
    simp [valPieces, hc]
  obtain ⟨vals, hvalPieces⟩ : ∃ ps, ps = commaPieces valPieces f fs ++ [.sym ')'] := ⟨_, rfl⟩
  obtain ⟨tail, htail⟩ : ∃ ps, ps = [.sym ')', .gap ' ', .word "values", .gap ' ', .sym '('] ++
      vals := ⟨_, rfl⟩
  have htext : (insertIntoTable t.name (texts (f :: fs))).toList = render
      (headPieces ["insert", "into", t.name] ++ ([.sym '('] ++
        (commaPieces colPieces f fs ++ tail))) := by
    rw [htail, hvalPieces]
    unfold insertIntoTable
    simp only [texts, List.foldl_map, String.toList_append,
      toList_upTo_commas hcols f fs hcolsNe rfl, toList_upTo_commas hvals f fs hvalsNe rfl]
    simp [headPieces, Piece.render]
  have htokens : (Stmt.insert t ⟨f, fs⟩).tokens = tokensOf
      (headPieces ["insert", "into", t.name] ++ ([.sym '('] ++
        (commaPieces colPieces f fs ++ tail))) := by
    have hcolTokens : ∀ f' : Ident × Option String, tokensOf (colPieces f') = [f'.1.token] :=
      fun f' => by rw [colPieces, tokensOf_cons, tokens_word]; rfl
    have hvalTokens : ∀ f' : Ident × Option String, tokensOf (valPieces f') = [litToken f'.2] :=
      fun f' => by rw [valPieces, tokensOf_cons, tokens_value]; rfl
    rw [htail, hvalPieces]
    simp only [tokensOf_append, tokensOf_commaPieces hcolTokens, tokensOf_commaPieces hvalTokens,
      headPieces, List.flatMap_cons, List.flatMap_nil, List.append_nil, tokensOf_cons,
      tokensOf_nil, tokens_word, Stmt.tokens, identTokens, tokens_map]
    rfl
  have hvalSpaced : Spaced vals := by
    rw [hvalPieces]
    exact (commaPieces_spaced valPieces_spaced f fs).append (by decide) (by decide)
  have htailSpaced : Spaced tail ∧ Opens tail := by
    rw [htail]
    refine ⟨spaced_append (by decide) hvalSpaced ?_, fun q hq => ?_⟩
    · rintro p hp q hq
      cases hp
      have hhead : vals.head? = some (.value f.2) := by
        rw [hvalPieces]
        rfl
      rw [hhead] at hq
      cases hq
      rfl
    · cases hq
      rfl
  have hspaced : Spaced (headPieces ["insert", "into", t.name] ++ ([.sym '('] ++
      (commaPieces colPieces f fs ++ tail))) := by
    refine headPieces_spaced ?_ (spaced_append (by decide)
      ((commaPieces_spaced colPieces_spaced f fs).append htailSpaced.1 htailSpaced.2) ?_)
    · simp only [List.forall_mem_cons]
      exact ⟨by decide, by decide, isWord_name t, List.forall_mem_nil _⟩
    · rintro p hp q hq
      cases hp
      cases hq
      rfl
  have hplain : (∀ p ∈ tail, p.Plain) ↔ PlainFields (f :: fs) := by
    rw [htail, List.forall_mem_append, hvalPieces, List.forall_mem_append, commaPieces_plain,
      valPieces_plain]
    simp [Piece.Plain]
  rw [Spells, htokens, lexText_render_iff hspaced htext, headPieces_plain, List.forall_mem_append,
    List.forall_mem_append, commaPieces_plain, hplain]
  have hcolPlain := colPieces_plain (f :: fs)
  refine ⟨fun h => h.2.2, fun h => ⟨?_, hcolPlain, h⟩⟩
  intro p hp
  rw [List.mem_singleton.mp hp]
  trivial

/-- The columns of a SELECT as a text. -/
def colsText (cols : Items Ident) : String :=
  cols.tail.foldl (fun s c => s ++ ("," ++ c.name)) cols.head.name

theorem toList_colsText (cols : Items Ident) :
    (colsText cols).toList = render (commaPieces (fun c : Ident => [.word c.name]) cols.head
      cols.tail) := by
  rw [colsText, toList_foldl, commaPieces, render_append]
  simp [render, List.flatMap_assoc, Piece.render]

/-- The SELECT of the columns from the rows with these values. -/
def selectStmt (distinct : Bool) (t : Ident) (cols : Items Ident) (f : Ident × Option String)
    (fs : List (Ident × Option String)) : Stmt :=
  .select ⟨⟨distinct, cols, t, some ⟨condOf f, fs.map condOf⟩⟩, [], none⟩

theorem selectFromTable_spells (distinct : Bool) (cols : Items Ident)
    {condition : List (String × Option String)} {ps : List Piece} {conds : Items Cond}
    (h : WhereReads condition ps conds) :
    Spells (selectFromTable t.name (colsText cols) (some condition) (some ⟨distinct, none⟩) [])
      (.select ⟨⟨distinct, cols, t, some conds⟩, [], none⟩) ↔ ∀ p ∈ ps, p.Plain := by
  obtain ⟨c, cs⟩ := cols
  obtain ⟨colsP, hcolsP⟩ : ∃ ps, ps = commaPieces (fun c : Ident => [Piece.word c.name]) c cs :=
    ⟨_, rfl⟩
  have hcolsText : (colsText ⟨c, cs⟩).toList = render colsP := by
    rw [hcolsP]
    exact toList_colsText ⟨c, cs⟩
  have hcolsSpaced : Spaced colsP := by
    rw [hcolsP]
    refine commaPieces_spaced (fun i => ⟨?_, .singleton _⟩) c cs
    intro p hp
    rw [List.mem_singleton.mp hp]
    exact isWord_name i
  have hcolsTokens : tokensOf colsP = identTokens ⟨c, cs⟩ := by
    rw [hcolsP]
    exact tokensOf_commaPieces (fun i => by rw [tokensOf_cons, tokens_word]; rfl) c cs
  have hcolsPlain : ∀ p ∈ colsP, p.Plain := by
    rw [hcolsP, commaPieces_plain]
    intro i _ p hp
    rw [List.mem_singleton.mp hp]
    trivial
  obtain ⟨tail, htail⟩ : ∃ qs, qs = [.gap ' '] ++ (headPieces ["from", t.name, "where"] ++ ps) :=
    ⟨_, rfl⟩
  have htailSpaced : Spaced tail ∧ Opens tail := by
    rw [htail]
    refine ⟨spaced_append (by decide) (headPieces_spaced ?_ h.spaced) ?_,
      fun q hq => ?_⟩
    · simp only [List.forall_mem_cons]
      exact ⟨by decide, isWord_name t, by decide, List.forall_mem_nil _⟩
    · rintro p hp q -
      cases hp
      rfl
    · cases hq
      rfl
  have htailPlain : (∀ p ∈ tail, p.Plain) ↔ ∀ p ∈ ps, p.Plain := by
    rw [htail, List.forall_mem_append, headPieces_plain]
    simp [Piece.Plain]
  obtain ⟨words, hwords⟩ : ∃ ws, ws = if distinct then ["select", "distinct"] else ["select"] :=
    ⟨_, rfl⟩
  have htext : (selectFromTable t.name (colsText ⟨c, cs⟩) (some condition)
      (some ⟨distinct, none⟩) []).toList = render (headPieces words ++ (colsP ++ tail)) := by
    rw [hwords, htail]
    unfold selectFromTable
    cases distinct with
    | true =>
      simp only [String.toList_append, hcolsText, h.text, if_true]
      simp [headPieces, Piece.render]
    | false =>
      simp only [String.toList_append, hcolsText, h.text, Bool.false_eq_true, if_false]
      simp [headPieces, Piece.render]
  have htokens : (Stmt.select ⟨⟨distinct, ⟨c, cs⟩, t, some conds⟩, [], none⟩).tokens =
      tokensOf (headPieces words ++ (colsP ++ tail)) := by
    rw [hwords, htail]
    simp only [tokensOf_append, hcolsTokens, h.tokens]
    cases distinct with
    | true =>
      simp only [headPieces, List.flatMap_cons, List.flatMap_nil, List.append_nil,
        tokensOf_append, tokensOf_cons, tokensOf_nil, tokens_word, if_true]
      simp [Stmt.tokens, Select.tokens, Core.tokens, whereTokens, limitTokens]
      rfl
    | false =>
      simp only [headPieces, List.flatMap_cons, List.flatMap_nil, List.append_nil,
        tokensOf_append, tokensOf_cons, tokensOf_nil, tokens_word, Bool.false_eq_true, if_false]
      simp [Stmt.tokens, Select.tokens, Core.tokens, whereTokens, limitTokens]
      rfl
  have hspaced : Spaced (headPieces words ++ (colsP ++ tail)) := by
    refine headPieces_spaced ?_ (hcolsSpaced.append htailSpaced.1 htailSpaced.2)
    rw [hwords]
    cases distinct with
    | true => decide
    | false => decide
  rw [Spells, htokens, lexText_render_iff hspaced htext, headPieces_plain, List.forall_mem_append,
    htailPlain]
  exact and_iff_right hcolsPlain

theorem selectFromTable_iff (distinct : Bool) (cols : Items Ident) :
    Spells (selectFromTable t.name (colsText cols) (some (texts (f :: fs)))
      (some ⟨distinct, none⟩) []) (selectStmt distinct t cols f fs) ↔ PlainFields (f :: fs) := by
  rw [selectStmt, selectFromTable_spells t distinct cols (whereReads f fs), wherePieces_plain]

end Statements

section Conditions

def attribId : Ident := ⟨"attrib", by decide⟩

def sourceId : Ident := ⟨"source_id", by decide⟩

def valueId : Ident := ⟨"value", by decide⟩

/-- The condition that a column has this value, where nothing is equal to NULL. -/
def eqCond (i : Ident) (v : Option String) : Cond := ⟨⟨i, false⟩, .eq (.lit v)⟩

/-- The conditions of makeCondWhere for an attribute. -/
def condWhere (key : String) (value : Option String) (src : String) : Items Cond :=
  ⟨eqCond attribId (some key), [eqCond sourceId (some src), eqCond valueId value]⟩

def condWherePieces (key : String) (value : Option String) (src : String) : List Piece :=
  [.word "attrib", .sym '=', .value (some key), .gap ' ', .word "AND", .gap ' ',
    .word "source_id", .sym '=', .value (some src), .gap ' ', .word "AND", .gap ' ',
    .word "value", .gap ' ', .sym '=', .gap ' ', .value value]

/-- The texts between apostrophes are read as they are. -/
def PlainCond (key : String) (value : Option String) (src : String) : Prop :=
  Piece.PlainValue (some key) ∧ Piece.PlainValue (some src) ∧ Piece.PlainValue value

variable (key : String) (value : Option String) (src : String)

theorem toList_makeCondWhere :
    (makeCondWhere (.attrib key) value (getValueForSqlStmt (some src))).toList =
      render (condWherePieces key value src) := by
  show ("attrib=" ++ getValueForSqlStmt (some key) ++ " AND source_id=" ++
    getValueForSqlStmt (some src) ++ " AND " ++ "value" ++ " " ++ "=" ++ " " ++
    getValueForSqlStmt value).toList = _
  simp only [String.toList_append, toList_getValueForSqlStmt]
  simp [condWherePieces, render, Piece.render]

theorem condWherePieces_spaced : Spaced (condWherePieces key value src) := by
  refine ⟨?_, ?_⟩
  · simp [condWherePieces, Piece.Ok, Piece.isWord]
  · simp [condWherePieces, Piece.Allows, Piece.separates]

theorem tokensOf_condWherePieces : tokensOf (condWherePieces key value src) =
    (condWhere key value src).tokens (kw "and") Cond.tokens := by
  have hand : (Piece.word "AND").tokens = [kw "and"] := by decide
  have hcols : (Piece.word "attrib").tokens = [attribId.token] ∧
      (Piece.word "source_id").tokens = [sourceId.token] ∧
      (Piece.word "value").tokens = [valueId.token] :=
    ⟨tokens_word attribId, tokens_word sourceId, tokens_word valueId⟩
  unfold condWherePieces
  simp only [tokensOf_cons, tokens_value, tokensOf_nil, hand, hcols]
  rfl

theorem condWherePieces_plain :
    (∀ p ∈ condWherePieces key value src, p.Plain) ↔ PlainCond key value src := by
  simp [condWherePieces, Piece.Plain, PlainCond]

theorem makeCondWhere_iff :
    lexText (makeCondWhere (.attrib key) value (getValueForSqlStmt (some src))) =
      some ((condWhere key value src).tokens (kw "and") Cond.tokens) ↔
      PlainCond key value src := by
  rw [← tokensOf_condWherePieces, lexText_render_iff (condWherePieces_spaced key value src)
    (toList_makeCondWhere key value src), condWherePieces_plain]

theorem getValueForSqlStmt_iff (v : Option String) :
    lexText (getValueForSqlStmt v) = some [litToken v] ↔ Piece.PlainValue v := by
  have hspaced : Spaced [.value v] := ⟨by simp [Piece.Ok], .singleton _⟩
  have htokens : tokensOf [.value v] = [litToken v] := by
    rw [tokensOf_cons, tokens_value]
    rfl
  rw [← htokens, lexText_render_iff hspaced (by simp [toList_getValueForSqlStmt])]
  simp [Piece.Plain]

end Conditions

section Exactness

variable (D : Doubles) {T : Table} (values cond : ColumnHash T) (distinct : Bool)
  (cols : Items Ident)

/-- insert_into_table writes the INSERT of the row, and of no other. -/
def InsertsExactly : Prop :=
  (∃ fs : Items (Ident × Option String), fs.toList = values.fields ∧
    Spells (insertIntoTable T.name.name (texts values.fields)) (.insert T.name fs)) ∧
  ∀ newId, ∃ r, T.insertRow D newId values.fields = some r ∧ r.Shows values.fields ∧
    ∀ c ∈ T.columns, Unnamed values.fields c → r.cells c.name = c.initial D newId

/-- The assignments give the columns their values and leave the others. -/
def SetsExactly : Prop := ∀ r : Row D T, ∃ r', r.update values.fields = some r' ∧
  r'.Shows values.fields ∧
    ∀ c ∈ T.columns, Unnamed values.fields c → r'.cells c.name = r.cells c.name

/-- The conditions pick just the rows with the values, each for itself and all together. -/
def PicksExactly (gs : Items (Ident × Option String)) : Prop :=
  (∀ g ∈ gs.toList, ∀ r : Row D T, r.Holds (condOf g) ↔ (r.cells g.1).shown = some g.2) ∧
  ∀ r : Row D T, r.Selected (gs.map condOf) ↔ r.Shows gs.toList

/-- update_into_table writes the UPDATE that sets the values in the rows of the condition. -/
def UpdatesExactly : Prop := (∃ fs gs : Items (Ident × Option String),
  fs.toList = values.fields ∧ gs.toList = cond.fields ∧
    Spells (updateIntoTable T.name.name (texts values.fields) (some (texts cond.fields)))
      (.update T.name fs (some (gs.map condOf))) ∧ PicksExactly D (T := T) gs) ∧
  SetsExactly D values

/-- update_into_table without a condition writes the UPDATE of all rows. -/
def UpdatesAllExactly : Prop :=
  (∃ fs : Items (Ident × Option String), fs.toList = values.fields ∧
    Spells (updateIntoTable T.name.name (texts values.fields) none) (.update T.name fs none)) ∧
  SetsExactly D values

/-- delete_from_table writes the DELETE of the rows of the condition. -/
def DeletesExactly : Prop := ∃ gs : Items (Ident × Option String), gs.toList = cond.fields ∧
  Spells (deleteFromTable T.name.name (texts cond.fields))
    (.delete T.name (some (gs.map condOf))) ∧ PicksExactly D (T := T) gs

/-- select_from_table writes the SELECT of the rows of the condition. -/
def SelectsExactly : Prop := ∃ gs : Items (Ident × Option String), gs.toList = cond.fields ∧
  Spells (selectFromTable T.name.name (colsText cols) (some (texts cond.fields))
    (some ⟨distinct, none⟩) [])
    (.select ⟨⟨distinct, cols, T.name, some (gs.map condOf)⟩, [], none⟩) ∧
  PicksExactly D (T := T) gs

/-- makeCondWhere writes the conditions on a row of object_values, each of which picks just the rows
with its value, and none for nil. -/
def CondWhereExactly (key : String) (value : Option String) (src : String) : Prop :=
  lexText (makeCondWhere (.attrib key) value (getValueForSqlStmt (some src))) =
    some ((condWhere key value src).tokens (kw "and") Cond.tokens) ∧
  ∀ f ∈ [(attribId, some key), (sourceId, some src), (valueId, value)],
    ∀ r : Row D objectValues, r.Holds (eqCond f.1 f.2) ↔
      f.2 ≠ none ∧ (r.cells f.1).shown = some f.2

/-- A hash whose values are read and stored as they are. -/
def Storable (fields : List (Ident × Option String)) : Prop :=
  fields ≠ [] ∧ PlainFields fields ∧ ∀ f ∈ fields, T.Stores D f

/-- A hash whose values are read and compared as they are. -/
def Findable (fields : List (Ident × Option String)) : Prop :=
  fields ≠ [] ∧ PlainFields fields ∧ ∀ f ∈ fields, T.Finds D f

/-- A statement about an element and the others is one about a list that is not empty. -/
theorem exists_items_iff {fields : List (Ident × Option String)}
    (P : List (Ident × Option String) → Items (Ident × Option String) → Prop)
    {Q : List (Ident × Option String) → Prop} (h : ∀ f fs, P (f :: fs) ⟨f, fs⟩ ↔ Q (f :: fs)) :
    (∃ fs : Items (Ident × Option String), fs.toList = fields ∧ P fields fs) ↔
      fields ≠ [] ∧ Q fields := by
  constructor
  · rintro ⟨⟨f, fs⟩, rfl, hP⟩
    exact ⟨List.cons_ne_nil f fs, (h f fs).mp hP⟩
  · rintro ⟨hne, hQ⟩
    cases fields with
    | nil => exact absurd rfl hne
    | cons f fs => exact ⟨⟨f, fs⟩, rfl, (h f fs).mpr hQ⟩

/-- The condition of a hash holds where the column matches its value. -/
theorem holds_condOf (r : Row D T) {c : ColumnDef} (hc : c ∈ T.columns) (v : Option String) :
    r.Holds (condOf (c.name, v)) ↔ c.kind.Matches (r.cells c.name) v := by
  cases v with
  | none => exact r.holds_isNull hc true
  | some s => exact r.holds_eq hc true s

theorem holds_condOf_iff {g : Ident × Option String} (hknown : ∃ c ∈ T.columns, c.name = g.1) :
    (∀ r : Row D T, r.Holds (condOf g) ↔ (r.cells g.1).shown = some g.2) ↔ T.Finds D g := by
  obtain ⟨i, v⟩ := g
  obtain ⟨c, hc, rfl⟩ := hknown
  rw [finds_name D hc v, ← matches_iff hc v]
  exact forall_congr' (fun r => by rw [holds_condOf D r hc v])

theorem picksExactly_iff {gs : Items (Ident × Option String)}
    (hknown : ∀ g ∈ gs.toList, ∃ c ∈ T.columns, c.name = g.1) :
    PicksExactly D (T := T) gs ↔ ∀ g ∈ gs.toList, T.Finds D g := by
  have heach : (∀ g ∈ gs.toList, ∀ r : Row D T,
      r.Holds (condOf g) ↔ (r.cells g.1).shown = some g.2) ↔ ∀ g ∈ gs.toList, T.Finds D g :=
    forall₂_congr (fun g hg => holds_condOf_iff D (hknown g hg))
  have hlist : (gs.map condOf).toList = gs.toList.map condOf := rfl
  refine ⟨fun h => heach.mp h.1, fun h => ⟨heach.mpr h, fun r => ?_⟩⟩
  unfold Row.Selected Row.Shows
  rw [hlist, List.forall_mem_map]
  exact forall₂_congr (fun g hg => heach.mpr h g hg r)

theorem setsExactly_iff : SetsExactly D values ↔ ∀ f ∈ values.fields, T.Stores D f := by
  constructor
  · intro h f hf
    obtain ⟨c, hc, -⟩ := values.known f hf
    obtain ⟨r, -⟩ := exists_row (D := D) hc (initial_admits 0 c)
    exact (update_iff r values).mp (h r) f hf
  · exact fun h r => (update_iff r values).mpr h

theorem insertsExactly_iff : InsertsExactly D values ↔ Storable D (T := T) values.fields := by
  have hspells : (∃ fs : Items (Ident × Option String), fs.toList = values.fields ∧
      Spells (insertIntoTable T.name.name (texts values.fields)) (.insert T.name fs)) ↔
      values.fields ≠ [] ∧ PlainFields values.fields :=
    exists_items_iff (fun l fs => Spells (insertIntoTable T.name.name (texts l))
      (.insert T.name fs)) (insertIntoTable_iff T.name)
  have hrow : (∀ newId, ∃ r, T.insertRow D newId values.fields = some r ∧ r.Shows values.fields ∧
      ∀ c ∈ T.columns, Unnamed values.fields c → r.cells c.name = c.initial D newId) ↔
      ∀ f ∈ values.fields, T.Stores D f :=
    ⟨fun h => (insertRow_iff 0 values).mp (h 0), fun h newId => (insertRow_iff newId values).mpr h⟩
  unfold InsertsExactly Storable
  rw [hspells, hrow, and_assoc]

theorem updatesAllExactly_iff :
    UpdatesAllExactly D values ↔ Storable D (T := T) values.fields := by
  have hspells : (∃ fs : Items (Ident × Option String), fs.toList = values.fields ∧
      Spells (updateIntoTable T.name.name (texts values.fields) none) (.update T.name fs none)) ↔
      values.fields ≠ [] ∧ PlainFields values.fields :=
    exists_items_iff (fun l fs => Spells (updateIntoTable T.name.name (texts l) none)
      (.update T.name fs none)) (updateIntoTable_none_iff T.name)
  unfold UpdatesAllExactly Storable
  rw [hspells, setsExactly_iff, and_assoc]

/-- A text with conditions that is read where its values are plain picks its rows where they are
compared as they are. -/
theorem findable_iff
    (P : List (Ident × Option String) → Items (Ident × Option String) → Prop)
    (hP : ∀ f fs, P (f :: fs) ⟨f, fs⟩ ↔ PlainFields (f :: fs)) :
    (∃ gs : Items (Ident × Option String), gs.toList = cond.fields ∧ P cond.fields gs ∧
      PicksExactly D (T := T) gs) ↔ Findable D (T := T) cond.fields := by
  constructor
  · rintro ⟨⟨g, gs⟩, hgs, hspells, hpicks⟩
    have hknown := hgs.symm ▸ cond.known
    unfold Findable
    rw [← hgs] at hspells ⊢
    exact ⟨List.cons_ne_nil g gs, (hP g gs).mp hspells, (picksExactly_iff D hknown).mp hpicks⟩
  · rintro ⟨hne, hplain, hfinds⟩
    obtain ⟨gs, hgs, hspells⟩ := (exists_items_iff P hP).mpr ⟨hne, hplain⟩
    exact ⟨gs, hgs, hspells, (picksExactly_iff D (hgs.symm ▸ cond.known)).mpr (hgs.symm ▸ hfinds)⟩

theorem deletesExactly_iff : DeletesExactly D cond ↔ Findable D (T := T) cond.fields :=
  findable_iff D cond (fun l gs => Spells (deleteFromTable T.name.name (texts l))
    (.delete T.name (some (gs.map condOf)))) (deleteFromTable_iff T.name)

theorem selectsExactly_iff :
    SelectsExactly D cond distinct cols ↔ Findable D (T := T) cond.fields :=
  findable_iff D cond (fun l gs => Spells (selectFromTable T.name.name (colsText cols)
    (some (texts l)) (some ⟨distinct, none⟩) [])
    (.select ⟨⟨distinct, cols, T.name, some (gs.map condOf)⟩, [], none⟩))
    (fun f fs => selectFromTable_iff T.name f fs distinct cols)

theorem updatesExactly_iff : UpdatesExactly D values cond ↔
    Storable D (T := T) values.fields ∧ Findable D (T := T) cond.fields := by
  have hpicks : (∃ fs gs : Items (Ident × Option String),
      fs.toList = values.fields ∧ gs.toList = cond.fields ∧
      Spells (updateIntoTable T.name.name (texts values.fields) (some (texts cond.fields)))
        (.update T.name fs (some (gs.map condOf))) ∧ PicksExactly D (T := T) gs) ↔
      (values.fields ≠ [] ∧ PlainFields values.fields) ∧ Findable D (T := T) cond.fields := by
    constructor
    · rintro ⟨⟨f, fs⟩, ⟨g, gs⟩, hvalues, hcond, hspells, hpicks⟩
      have hknown := hcond.symm ▸ cond.known
      unfold Findable
      rw [← hvalues, ← hcond] at hspells ⊢
      obtain ⟨hf, hg⟩ := (updateIntoTable_iff T.name f fs g gs).mp hspells
      exact ⟨⟨List.cons_ne_nil f fs, hf⟩, List.cons_ne_nil g gs, hg,
        (picksExactly_iff D hknown).mp hpicks⟩
    · rintro ⟨⟨hne, hf⟩, hne', hg, hfinds⟩
      have hknown := cond.known
      cases hvalues : values.fields with
      | nil => exact absurd hvalues hne
      | cons f fs =>
        cases hcond : cond.fields with
        | nil => exact absurd hcond hne'
        | cons g gs =>
          rw [hvalues] at hf
          rw [hcond] at hg hfinds hknown
          exact ⟨⟨f, fs⟩, ⟨g, gs⟩, rfl, rfl, (updateIntoTable_iff T.name f fs g gs).mpr ⟨hf, hg⟩,
            (@picksExactly_iff D T ⟨g, gs⟩ hknown).mpr hfinds⟩
  unfold UpdatesExactly
  rw [hpicks, setsExactly_iff, Storable]
  tauto

theorem holds_eqCond (r : Row D T) {c : ColumnDef} (hc : c ∈ T.columns) (v : Option String) :
    r.Holds (eqCond c.name v) ↔ v ≠ none ∧ c.kind.Matches (r.cells c.name) v := by
  cases v with
  | none =>
    refine iff_of_false ?_ (fun h => h.1 rfl)
    unfold Row.Holds
    dsimp only [eqCond]
    rw [T.column_name hc]
    exact id
  | some s => exact (r.holds_eq hc false s).trans (and_iff_right (Option.some_ne_none s)).symm

theorem condWhereExactly_iff (key : String) (value : Option String) (src : String) :
    CondWhereExactly D key value src ↔
      PlainCond key value src ∧ objectValues.Finds D (sourceId, some src) := by
  have hcolumn : ∀ c ∈ objectValues.columns, ∀ v : Option String,
      (v ≠ none → c.kind.Finds D v) ↔ ∀ r : Row D objectValues, r.Holds (eqCond c.name v) ↔
        v ≠ none ∧ (r.cells c.name).shown = some v := by
    intro c hc v
    simp only [holds_eqCond D _ hc v]
    cases v with
    | none => simp
    | some s =>
      rw [← matches_iff hc (some s)]
      simp
  obtain ⟨attrib, hattrib, hattribName⟩ : ∃ c ∈ objectValues.columns, c.name = attribId ∧
      c.kind = .text := ⟨_, .tail _ (.tail _ (.head _)), rfl, rfl⟩
  obtain ⟨source, hsource, hsourceName⟩ : ∃ c ∈ objectValues.columns, c.name = sourceId :=
    ⟨_, .tail _ (.head _), rfl⟩
  obtain ⟨val, hval, hvalName⟩ : ∃ c ∈ objectValues.columns, c.name = valueId ∧
      c.kind = .text := ⟨_, .tail _ (.tail _ (.tail _ (.tail _ (.head _)))), rfl, rfl⟩
  unfold CondWhereExactly
  rw [makeCondWhere_iff, List.forall_mem_cons, List.forall_mem_cons, List.forall_mem_singleton,
    ← hattribName.1, ← hsourceName, ← hvalName.1, ← hcolumn attrib hattrib,
    ← hcolumn source hsource, ← hcolumn val hval]
  have htexts : attrib.kind.Finds D (some key) ∧ val.kind.Finds D value := by
    rw [hattribName.2, hvalName.2]
    exact ⟨trivial, trivial⟩
  rw [finds_name D hsource]
  exact and_congr_right' ⟨fun h => h.2.1 (Option.some_ne_none src),
    fun h => ⟨fun _ => htexts.1, fun _ => h, fun _ => htexts.2⟩⟩

/-- Every text stands for what it is meant to just where the hashes are not empty, every value is
nil, or a text other than NULL without an apostrophe and a zero character, and the columns of
integers take every value as it is. -/
theorem sql_exact_iff (v : Option String) (key src : String) :
    (lexText (getValueForSqlStmt v) = some [litToken v] ↔ Piece.PlainValue v) ∧
    (InsertsExactly D values ↔ Storable D (T := T) values.fields) ∧
    (UpdatesAllExactly D values ↔ Storable D (T := T) values.fields) ∧
    (UpdatesExactly D values cond ↔
      Storable D (T := T) values.fields ∧ Findable D (T := T) cond.fields) ∧
    (DeletesExactly D cond ↔ Findable D (T := T) cond.fields) ∧
    (SelectsExactly D cond distinct cols ↔ Findable D (T := T) cond.fields) ∧
    (CondWhereExactly D key v src ↔
      PlainCond key v src ∧ objectValues.Finds D (sourceId, some src)) :=
  ⟨getValueForSqlStmt_iff v, insertsExactly_iff D values, updatesAllExactly_iff D values,
    updatesExactly_iff D values cond, deletesExactly_iff D cond,
    selectsExactly_iff D cond distinct cols, condWhereExactly_iff D key v src⟩

/-- No text of a real number is read. -/
def noReals : Doubles := ⟨Empty, fun _ => .inl 0, fun _ x => x.elim⟩

/-- The hash of one column of object_values. -/
def oneField (c : ColumnDef) (hc : c ∈ objectValues.columns) (v : Option String) :
    ColumnHash objectValues :=
  ⟨[(c.name, v)], List.nodup_singleton _, by simpa using ⟨c, hc, rfl⟩⟩

def oneValue (v : Option String) : ColumnHash objectValues :=
  oneField (textColumn "value" (by decide)) (.tail _ (.tail _ (.tail _ (.tail _ (.head _))))) v

def oneSource (v : Option String) : ColumnHash objectValues :=
  oneField (intColumn "source_id" none (by decide)) (.tail _ (.head _)) v

/-- A value with an apostrophe, the value NULL, an empty hash, and an integer with zeros in front,
which picks the rows of another text. -/
theorem sql_not_exact : ¬InsertsExactly noReals (oneValue (some "it's")) ∧
    ¬DeletesExactly noReals (oneValue (some "NULL")) ∧
    ¬InsertsExactly (T := objectValues) noReals ⟨[], List.nodup_nil, by simp⟩ ∧
    ¬DeletesExactly noReals (oneSource (some "001")) := by
  refine ⟨?_, ?_, ?_, ?_⟩
  · rw [insertsExactly_iff]
    intro h
    exact (h.2.1 _ List.mem_cons_self _ rfl).2.1 (by decide)
  · rw [deletesExactly_iff]
    intro h
    exact (h.2.1 _ List.mem_cons_self _ rfl).1 rfl
  · rw [insertsExactly_iff]
    exact fun h => h.1 rfl
  · rw [deletesExactly_iff]
    intro h
    have hfinds := h.2.2 _ List.mem_cons_self _ (.tail _ (.head _)) rfl
    obtain ⟨i, hi, htext, -⟩ := hfinds (.inl 1) (by rfl)
    obtain rfl := Sum.inl.inj hi
    exact absurd htext (by decide)

end Exactness

end Rhodes.RhomSql
