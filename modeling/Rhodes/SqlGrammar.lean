import Rhodes.SqlPieces

/-!
The statements that Rhom writes, as SQLite reads them: a text spells a statement when its tokens are
those of the statement. A parser finds the statement again, so a text spells one statement at most.
-/
namespace Rhodes.SqlGrammar

open SqlToken SqlPieces

/-- The keywords of SQLite, and the function that is called here. -/
def keywords : List String :=
  ["abort", "add", "after", "all", "alter", "analyze", "and", "as", "asc", "attach",
    "autoincrement", "before", "begin", "between", "by", "cascade", "case", "cast", "check",
    "collate", "column", "commit", "conflict", "constraint", "create", "cross", "current_date",
    "current_time", "current_timestamp", "database", "default", "deferrable", "deferred", "delete",
    "desc", "detach", "distinct", "drop", "each", "else", "end", "escape", "except", "exclusive",
    "exists", "explain", "fail", "for", "foreign", "from", "full", "glob", "group", "having", "if",
    "ignore", "immediate", "in", "index", "initially", "inner", "insert", "instead", "intersect",
    "into", "is", "isnull", "join", "key", "left", "like", "limit", "match", "max", "natural",
    "not", "notnull", "null", "of", "offset", "on", "or", "order", "outer", "plan", "pragma",
    "primary", "query", "raise", "references", "regexp", "reindex", "rename", "replace",
    "restrict", "right", "rollback", "row", "select", "set", "table", "temp", "temporary", "then",
    "to", "transaction", "trigger", "union", "unique", "update", "using", "vacuum", "values",
    "view", "virtual", "when", "where"]

/-- A name of a table or of a column that needs no quotes. -/
def isName (s : String) : Bool :=
  Piece.isWord s.toList && lower s.toList = s.toList && s ∉ keywords

structure Ident where
  name : String
  ok : isName name = true
  deriving DecidableEq

/-- A list with an element. -/
structure Items (α : Type) where
  head : α
  tail : List α
  deriving DecidableEq

def Items.toList {α : Type} (s : Items α) : List α := s.head :: s.tail

def Items.map {α β : Type} (f : α → β) (s : Items α) : Items β := ⟨f s.head, s.tail.map f⟩

/-- A column, with or without quotes. -/
structure Column where
  id : Ident
  quoted : Bool
  deriving DecidableEq

inductive Operand where
  | lit (v : Option String)
  | param
  deriving DecidableEq

inductive Test where
  | eq (x : Operand)
  | isNull
  deriving DecidableEq

structure Cond where
  col : Column
  test : Test
  deriving DecidableEq

/-- One SELECT of a compound. -/
structure Core where
  distinct : Bool
  cols : Items Ident
  table : Ident
  conds : Option (Items Cond)
  deriving DecidableEq

inductive Compound where
  | intersect
  | unionAll
  deriving DecidableEq

structure Limit where
  limit : Nat
  offset : Nat
  deriving DecidableEq

structure Select where
  core : Core
  rest : List (Compound × Core)
  limit : Option Limit
  deriving DecidableEq

inductive Direction where
  | none
  | asc
  | desc
  deriving DecidableEq

/-- The SELECT with a column for each attribute. -/
structure Pivot where
  attribs : Items String
  table : Ident
  short : Ident
  conds : Items Cond
  order : Option (String × Direction)
  limit : Option Limit
  deriving DecidableEq

inductive Stmt where
  | select (q : Select)
  | pivot (q : Pivot)
  | insert (table : Ident) (fields : Items (Ident × Option String))
  | update (table : Ident) (sets : Items (Ident × Option String)) (conds : Option (Items Cond))
  | delete (table : Ident) (conds : Option (Items Cond))
  deriving DecidableEq

section Printing

def kw (s : String) : Token := .word s.toList

def symbol (c : Char) : Token := .op [c]

def Items.tokens {α : Type} (sep : Token) (f : α → List Token) (s : Items α) : List Token :=
  f s.head ++ s.tail.flatMap (fun a => sep :: f a)

def Ident.token (i : Ident) : Token := .word i.name.toList

def Column.token (c : Column) : Token :=
  if c.quoted then .name c.id.name.toList else .word c.id.name.toList

def litToken (v : Option String) : Token :=
  match v with
  | none => kw "null"
  | some s => .string s.toList

def Operand.token : Operand → Token
  | lit v => litToken v
  | param => .variable ['?']

def Cond.tokens (c : Cond) : List Token :=
  match c.test with
  | .eq x => [c.col.token, symbol '=', x.token]
  | .isNull => [c.col.token, kw "is", kw "null"]

def whereTokens (conds : Option (Items Cond)) : List Token :=
  match conds with
  | none => []
  | some cs => kw "where" :: cs.tokens (kw "and") Cond.tokens

def identTokens (cs : Items Ident) : List Token := cs.tokens (symbol ',') (fun c => [c.token])

/-- A SELECT without its first word. -/
def Core.tokens (c : Core) : List Token :=
  (if c.distinct then [kw "distinct"] else []) ++ (identTokens c.cols ++
    ([kw "from", c.table.token] ++ whereTokens c.conds))

def Compound.tokens : Compound → List Token
  | intersect => [kw "intersect", kw "select"]
  | unionAll => [kw "union", kw "all", kw "select"]

def limitTokens (l : Option Limit) : List Token :=
  match l with
  | none => []
  | some l => [kw "limit", .number (toString l.limit).toList, kw "offset",
      .number (toString l.offset).toList]

def Select.tokens (q : Select) : List Token :=
  q.core.tokens ++ (q.rest.flatMap (fun r => r.1.tokens ++ r.2.tokens) ++ limitTokens q.limit)

/-- The column of an attribute. -/
def attribTokens (a : String) : List Token :=
  [kw "max", symbol '(', kw "case", kw "when", kw "attrib", symbol '=', .string a.toList,
    kw "then", kw "value", kw "else", kw "null", kw "end", symbol ')', kw "as", .name a.toList]

def Direction.tokens : Direction → List Token
  | none => []
  | asc => [kw "asc"]
  | desc => [kw "desc"]

def orderTokens (o : Option (String × Direction)) : List Token :=
  match o with
  | none => []
  | some o => [kw "order", kw "by", .name o.1.toList] ++ o.2.tokens

def Pivot.tokens (q : Pivot) : List Token :=
  [kw "object", symbol ','] ++ (q.attribs.tokens (symbol ',') attribTokens ++
    ([kw "from", q.table.token, q.short.token] ++ (whereTokens (some q.conds) ++
      ([kw "group", kw "by", kw "object"] ++ (orderTokens q.order ++ limitTokens q.limit)))))

def setTokens (f : Ident × Option String) : List Token :=
  [.name f.1.name.toList, symbol '=', litToken f.2]

def Stmt.tokens : Stmt → List Token
  | select q => kw "select" :: q.tokens
  | pivot q => kw "select" :: q.tokens
  | insert table fields => [kw "insert", kw "into", table.token, symbol '('] ++
      (identTokens (fields.map Prod.fst) ++ ([symbol ')', kw "values", symbol '('] ++
        ((fields.map Prod.snd).tokens (symbol ',') (fun v => [litToken v]) ++ [symbol ')'])))
  | update table sets conds => [kw "update", table.token, kw "set"] ++
      (sets.tokens (symbol ',') setTokens ++ whereTokens conds)
  | delete table conds => [kw "delete", kw "from", table.token] ++ whereTokens conds

/-- The text is this one statement to SQLite. -/
def Spells (sql : String) (s : Stmt) : Prop := lexText sql = some s.tokens

instance (sql : String) (s : Stmt) : Decidable (Spells sql s) :=
  inferInstanceAs (Decidable (_ = _))

end Printing

section Parsing

/-- A parser takes something off the tokens. -/
abbrev Parser (α : Type) := List Token → Option (α × List Token)

def expect (t : Token) (ts : List Token) : Option (List Token) :=
  match ts with
  | u :: rest => if u = t then some rest else none
  | [] => none

def expectAll : List Token → List Token → Option (List Token)
  | [], ts => some ts
  | t :: expected, ts => (expect t ts).bind (expectAll expected)

/-- Something that its first token announces. -/
def optional {α : Type} (t : Token) (p : Parser α) : Parser (Option α) := fun ts =>
  match expect t ts with
  | none => some (none, ts)
  | some rest => (p rest).map (fun r => (some r.1, r.2))

/-- More elements behind separators, for fewer of them than the fuel. -/
def parseTail {α : Type} (sep : Token) (item : Parser α) : Nat → Parser (List α)
  | 0, ts => some ([], ts)
  | fuel + 1, ts =>
    match expect sep ts with
    | none => some ([], ts)
    | some rest => do
      let (a, rest) ← item rest
      let (as, rest) ← parseTail sep item fuel rest
      return (a :: as, rest)

def parseSeq {α : Type} (sep : Token) (item : Parser α) : Parser (Items α) := fun ts => do
  let (a, rest) ← item ts
  let (as, rest) ← parseTail sep item ts.length rest
  return (⟨a, as⟩, rest)

def toIdent (s : List Char) : Option Ident :=
  if h : isName (String.ofList s) = true then some ⟨String.ofList s, h⟩ else none

def parseIdent : Parser Ident
  | .word s :: rest => (toIdent s).map (fun i => (i, rest))
  | _ => none

def parseColumn : Parser Column
  | .word s :: rest => (toIdent s).map (fun i => (⟨i, false⟩, rest))
  | .name s :: rest => (toIdent s).map (fun i => (⟨i, true⟩, rest))
  | _ => none

def parseLit : Parser (Option String)
  | .string s :: rest => some (some (String.ofList s), rest)
  | t :: rest => if t = kw "null" then some (none, rest) else none
  | [] => none

def parseOperand : Parser Operand := fun ts =>
  match expect (.variable ['?']) ts with
  | some rest => some (.param, rest)
  | none => (parseLit ts).map (fun r => (.lit r.1, r.2))

def parseCond : Parser Cond := fun ts => do
  let (col, ts) ← parseColumn ts
  match expect (symbol '=') ts with
  | some ts => do
    let (x, ts) ← parseOperand ts
    return (⟨col, .eq x⟩, ts)
  | none => do
    let ts ← expectAll [kw "is", kw "null"] ts
    return (⟨col, .isNull⟩, ts)

def parseWhere : Parser (Option (Items Cond)) :=
  optional (kw "where") (parseSeq (kw "and") parseCond)

def parseCore : Parser Core := fun ts => do
  let (distinct, ts) := match expect (kw "distinct") ts with
    | some ts => (true, ts)
    | none => (false, ts)
  let (cols, ts) ← parseSeq (symbol ',') parseIdent ts
  let ts ← expect (kw "from") ts
  let (table, ts) ← parseIdent ts
  let (conds, ts) ← parseWhere ts
  return (⟨distinct, cols, table, conds⟩, ts)

def parseCompound : Parser Compound := fun ts =>
  match expectAll [kw "intersect", kw "select"] ts with
  | some ts => some (.intersect, ts)
  | none => (expectAll [kw "union", kw "all", kw "select"] ts).map (fun ts => (.unionAll, ts))

/-- More SELECTs, for fewer of them than the fuel. -/
def parseCores : Nat → Parser (List (Compound × Core))
  | 0, ts => some ([], ts)
  | fuel + 1, ts =>
    match parseCompound ts with
    | none => some ([], ts)
    | some (op, ts) => do
      let (core, ts) ← parseCore ts
      let (rest, ts) ← parseCores fuel ts
      return ((op, core) :: rest, ts)

def parseNumber : Parser Nat
  | .number s :: rest => some (Nat.ofDigitChars 10 s 0, rest)
  | _ => none

def parseLimit : Parser (Option Limit) :=
  optional (kw "limit") (fun ts => do
    let (limit, ts) ← parseNumber ts
    let ts ← expect (kw "offset") ts
    let (offset, ts) ← parseNumber ts
    return (⟨limit, offset⟩, ts))

def parseSelect : Parser Select := fun ts => do
  let (core, ts') ← parseCore ts
  let (rest, ts') ← parseCores ts.length ts'
  let (limit, ts') ← parseLimit ts'
  return (⟨core, rest, limit⟩, ts')

def parseAttrib : Parser String := fun ts => do
  let ts ← expectAll [kw "max", symbol '(', kw "case", kw "when", kw "attrib", symbol '='] ts
  let (v, ts) ← parseLit ts
  match v with
  | none => none
  | some a => do
    let ts ← expectAll [kw "then", kw "value", kw "else", kw "null", kw "end", symbol ')', kw "as",
      .name a.toList] ts
    return (a, ts)

def parseDirection : Parser Direction := fun ts =>
  match expect (kw "asc") ts with
  | some ts => some (.asc, ts)
  | none =>
    match expect (kw "desc") ts with
    | some ts => some (.desc, ts)
    | none => some (.none, ts)

def parseName : Parser String
  | .name s :: rest => some (String.ofList s, rest)
  | _ => none

def parseOrder : Parser (Option (String × Direction)) :=
  optional (kw "order") (fun ts => do
    let ts ← expect (kw "by") ts
    let (a, ts) ← parseName ts
    let (dir, ts) ← parseDirection ts
    return ((a, dir), ts))

def parsePivot : Parser Pivot := fun ts => do
  let ts ← expectAll [kw "object", symbol ','] ts
  let (attribs, ts) ← parseSeq (symbol ',') parseAttrib ts
  let ts ← expect (kw "from") ts
  let (table, ts) ← parseIdent ts
  let (short, ts) ← parseIdent ts
  let (conds, ts) ← parseWhere ts
  match conds with
  | none => none
  | some conds => do
    let ts ← expectAll [kw "group", kw "by", kw "object"] ts
    let (order, ts) ← parseOrder ts
    let (limit, ts) ← parseLimit ts
    return (⟨attribs, table, short, conds, order, limit⟩, ts)

/-- Columns and values, which have to be as many. -/
def zipSeq {α β : Type} (as : Items α) (bs : Items β) : Option (Items (α × β)) :=
  if as.tail.length = bs.tail.length then some ⟨(as.head, bs.head), as.tail.zip bs.tail⟩ else none

def parseInsert : Parser Stmt := fun ts => do
  let ts ← expect (kw "into") ts
  let (table, ts) ← parseIdent ts
  let ts ← expect (symbol '(') ts
  let (cols, ts) ← parseSeq (symbol ',') parseIdent ts
  let ts ← expectAll [symbol ')', kw "values", symbol '('] ts
  let (vals, ts) ← parseSeq (symbol ',') parseLit ts
  let ts ← expect (symbol ')') ts
  let fields ← zipSeq cols vals
  return (.insert table fields, ts)

def parseSet : Parser (Ident × Option String) := fun ts => do
  let (a, ts) ← parseName ts
  let i ← toIdent a.toList
  let ts ← expect (symbol '=') ts
  let (v, ts) ← parseLit ts
  return ((i, v), ts)

def parseUpdate : Parser Stmt := fun ts => do
  let (table, ts) ← parseIdent ts
  let ts ← expect (kw "set") ts
  let (sets, ts) ← parseSeq (symbol ',') parseSet ts
  let (conds, ts) ← parseWhere ts
  return (.update table sets conds, ts)

def parseDelete : Parser Stmt := fun ts => do
  let ts ← expect (kw "from") ts
  let (table, ts) ← parseIdent ts
  let (conds, ts) ← parseWhere ts
  return (.delete table conds, ts)

/-- The statement that its first word announces; a SELECT that is no pivot is a plain one. -/
def parseStmt : Parser Stmt
  | [] => none
  | t :: ts =>
    if t = kw "select" then
      match parsePivot ts with
      | some (q, rest) => some (.pivot q, rest)
      | none => (parseSelect ts).map (fun r => (.select r.1, r.2))
    else if t = kw "insert" then parseInsert ts
    else if t = kw "update" then parseUpdate ts
    else if t = kw "delete" then parseDelete ts
    else none

/-- The statement that all of the tokens are. -/
def parse (ts : List Token) : Option Stmt :=
  match parseStmt ts with
  | some (s, []) => some s
  | _ => none

end Parsing

section Completeness

variable {rest : List Token}

@[simp] theorem expect_self (t : Token) (rest : List Token) : expect t (t :: rest) = some rest :=
  if_pos rfl

theorem expect_ne {t u : Token} (h : u ≠ t) (rest : List Token) : expect t (u :: rest) = none :=
  if_neg h

@[simp] theorem expectAll_append (ts rest : List Token) :
    expectAll ts (ts ++ rest) = some rest := by
  induction ts with
  | nil => rfl
  | cons t ts ih =>
    rw [List.cons_append, expectAll, expect_self]
    exact ih

theorem optional_none {α : Type} {t : Token} {p : Parser α} (h : expect t rest = none) :
    optional t p rest = some (none, rest) := by
  rw [optional, h]

theorem optional_some {α : Type} {t : Token} {p : Parser α} {ts : List Token} {a : α}
    (h : p ts = some (a, rest)) : optional t p (t :: ts) = some (some a, rest) := by
  rw [optional, expect_self]
  show (p ts).map _ = _
  rw [h]
  rfl

section Lists

variable {α : Type} {sep : Token} {item : Parser α} {f : α → List Token}

theorem parseTail_spec (hitem : ∀ a rest, item (f a ++ rest) = some (a, rest))
    (hrest : expect sep rest = none) (as : List α) {fuel : Nat} (hfuel : as.length ≤ fuel) :
    parseTail sep item fuel (as.flatMap (fun a => sep :: f a) ++ rest) = some (as, rest) := by
  induction as generalizing fuel with
  | nil =>
    cases fuel with
    | zero => rfl
    | succ fuel =>
      rw [List.flatMap_nil, List.nil_append, parseTail, hrest]
  | cons a as ih =>
    obtain ⟨fuel, rfl⟩ := Nat.exists_eq_succ_of_ne_zero (Nat.ne_of_gt
      (Nat.lt_of_lt_of_le (Nat.succ_pos as.length) hfuel))
    rw [List.flatMap_cons, List.cons_append, List.cons_append, List.append_assoc, parseTail,
      expect_self]
    simp only [hitem, ih (Nat.le_of_succ_le_succ hfuel), Option.bind_eq_bind, Option.bind_some]
    rfl

theorem length_le_flatMap (as : List α) :
    as.length ≤ (as.flatMap (fun a => sep :: f a)).length := by
  induction as with
  | nil => exact Nat.le_refl 0
  | cons a as ih =>
    rw [List.flatMap_cons, List.length_append, List.length_cons, List.length_cons]
    omega

theorem parseSeq_spec (hitem : ∀ a rest, item (f a ++ rest) = some (a, rest))
    (hrest : expect sep rest = none) (s : Items α) :
    parseSeq sep item (s.tokens sep f ++ rest) = some (s, rest) := by
  have hfuel : s.tail.length ≤ (s.tokens sep f ++ rest).length := by
    have htail : s.tail.length ≤ (s.tail.flatMap (fun a => sep :: f a)).length :=
      length_le_flatMap s.tail
    rw [Items.tokens, List.append_assoc, List.length_append, List.length_append]
    omega
  unfold parseSeq
  rw [Items.tokens, List.append_assoc] at hfuel ⊢
  simp only [hitem, parseTail_spec hitem hrest s.tail hfuel, Option.bind_eq_bind,
    Option.bind_some]
  rfl

end Lists

@[simp] theorem toIdent_name (i : Ident) : toIdent i.name.toList = some i := by
  unfold toIdent
  have hname : String.ofList i.name.toList = i.name := String.ofList_toList
  rw [dif_pos (by rw [hname]; exact i.ok)]
  cases i
  simp only [String.ofList_toList]

@[simp] theorem parseIdent_token (i : Ident) (rest : List Token) :
    parseIdent (i.token :: rest) = some (i, rest) := by
  rw [Ident.token, parseIdent, toIdent_name]
  rfl

@[simp] theorem parseColumn_token (c : Column) (rest : List Token) :
    parseColumn (c.token :: rest) = some (c, rest) := by
  obtain ⟨i, quoted⟩ := c
  cases quoted with
  | true =>
    show parseColumn (.name i.name.toList :: rest) = _
    rw [parseColumn, toIdent_name]
    rfl
  | false =>
    show parseColumn (.word i.name.toList :: rest) = _
    rw [parseColumn, toIdent_name]
    rfl

@[simp] theorem parseLit_token (v : Option String) (rest : List Token) :
    parseLit (litToken v :: rest) = some (v, rest) := by
  cases v with
  | none => rfl
  | some s =>
    show parseLit (.string s.toList :: rest) = _
    rw [parseLit, String.ofList_toList]

@[simp] theorem parseOperand_token (x : Operand) (rest : List Token) :
    parseOperand (x.token :: rest) = some (x, rest) := by
  cases x with
  | param => rfl
  | lit v =>
    have hne : litToken v ≠ .variable ['?'] := by
      cases v with
      | none => nofun
      | some s => nofun
    unfold parseOperand
    rw [show (Operand.lit v).token = litToken v from rfl, expect_ne hne, parseLit_token]
    rfl

theorem parseCond_tokens (c : Cond) (rest : List Token) :
    parseCond (c.tokens ++ rest) = some (c, rest) := by
  obtain ⟨col, test⟩ := c
  unfold parseCond
  cases test with
  | eq x =>
    rw [show Cond.tokens ⟨col, .eq x⟩ ++ rest = col.token :: symbol '=' :: x.token :: rest
      from rfl]
    simp only [parseColumn_token, Option.bind_eq_bind, Option.bind_some, expect_self,
      parseOperand_token]
    rfl
  | isNull =>
    rw [show Cond.tokens ⟨col, .isNull⟩ ++ rest = col.token :: kw "is" :: kw "null" :: rest
      from rfl]
    simp only [parseColumn_token, Option.bind_eq_bind, Option.bind_some]
    rfl

theorem parseWhere_tokens (conds : Option (Items Cond)) (hwhere : expect (kw "where") rest = none)
    (hand : expect (kw "and") rest = none) :
    parseWhere (whereTokens conds ++ rest) = some (conds, rest) := by
  cases conds with
  | none => exact optional_none hwhere
  | some cs => exact optional_some (parseSeq_spec parseCond_tokens hand cs)

theorem parseIdents_tokens (cs : Items Ident) (h : expect (symbol ',') rest = none) :
    parseSeq (symbol ',') parseIdent (identTokens cs ++ rest) = some (cs, rest) :=
  parseSeq_spec (fun i rest => parseIdent_token i rest) h cs

theorem Ident.token_ne (i : Ident) {s : String} (hs : s ∈ keywords) : i.token ≠ kw s := by
  intro h
  have hname : i.name = s := String.toList_injective (Token.word.inj h)
  have hok := i.ok
  rw [isName, Bool.and_eq_true, hname] at hok
  exact absurd hs (by simpa using hok.2)

/-- What may stand behind a SELECT of a compound. -/
structure EndsCore (rest : List Token) : Prop where
  comma : expect (symbol ',') rest = none
  whereTok : expect (kw "where") rest = none
  andTok : expect (kw "and") rest = none

theorem parseCore_tokens (c : Core) (h : EndsCore rest) :
    parseCore (c.tokens ++ rest) = some (c, rest) := by
  obtain ⟨distinct, cols, table, conds⟩ := c
  have hcols : parseSeq (symbol ',') parseIdent (identTokens cols ++ (kw "from" :: table.token ::
      (whereTokens conds ++ rest))) = some (cols, kw "from" :: table.token ::
      (whereTokens conds ++ rest)) := parseIdents_tokens cols rfl
  have hwhere := parseWhere_tokens conds h.whereTok h.andTok
  unfold parseCore
  cases distinct with
  | true =>
    rw [show Core.tokens ⟨true, cols, table, conds⟩ ++ rest = kw "distinct" ::
      (identTokens cols ++ (kw "from" :: table.token :: (whereTokens conds ++ rest)))
      from by simp [Core.tokens]]
    simp only [expect_self, hcols, hwhere, parseIdent_token, Option.bind_eq_bind,
      Option.bind_some]
    rfl
  | false =>
    have hne : expect (kw "distinct") (identTokens cols ++ (kw "from" :: table.token ::
        (whereTokens conds ++ rest))) = none :=
      expect_ne (cols.head.token_ne (by decide)) _
    rw [show Core.tokens ⟨false, cols, table, conds⟩ ++ rest =
      identTokens cols ++ (kw "from" :: table.token :: (whereTokens conds ++ rest))
      from by simp [Core.tokens]]
    simp only [hne, expect_self, hcols, hwhere, parseIdent_token, Option.bind_eq_bind,
      Option.bind_some]
    rfl

theorem parseCompound_tokens (op : Compound) (rest : List Token) :
    parseCompound (op.tokens ++ rest) = some (op, rest) := by
  cases op with
  | intersect => rfl
  | unionAll => rfl

theorem endsCore_compound (op : Compound) (ts : List Token) : EndsCore (op.tokens ++ ts) := by
  cases op with
  | intersect => exact ⟨rfl, rfl, rfl⟩
  | unionAll => exact ⟨rfl, rfl, rfl⟩

theorem parseNumber_toString (n : Nat) (rest : List Token) :
    parseNumber (.number (toString n).toList :: rest) = some (n, rest) := by
  have htext : (toString n).toList = Nat.toDigits 10 n := by simp [toString, Nat.repr]
  rw [parseNumber, htext, Nat.ofDigitChars_toDigits (by decide) (by decide)]

theorem parseLimit_tokens (l : Option Limit) (h : expect (kw "limit") rest = none) :
    parseLimit (limitTokens l ++ rest) = some (l, rest) := by
  cases l with
  | none => exact optional_none h
  | some l =>
    refine optional_some ?_
    show (parseNumber (.number (toString l.limit).toList :: kw "offset" ::
      .number (toString l.offset).toList :: rest)).bind _ = _
    simp only [parseNumber_toString, expect_self, Option.bind_eq_bind, Option.bind_some]
    rfl

/-- The end of a SELECT with its limit. -/
structure EndsSelect (ts : List Token) : Prop extends EndsCore ts where
  compound : parseCompound ts = none

theorem endsSelect_limit (l : Option Limit) : EndsSelect (limitTokens l) := by
  cases l with
  | none => exact ⟨⟨rfl, rfl, rfl⟩, rfl⟩
  | some l => exact ⟨⟨rfl, rfl, rfl⟩, rfl⟩

theorem parseCores_tokens (h : EndsSelect rest) (cs : List (Compound × Core)) {fuel : Nat}
    (hfuel : cs.length ≤ fuel) :
    EndsCore (cs.flatMap (fun r => r.1.tokens ++ r.2.tokens) ++ rest) ∧
    parseCores fuel (cs.flatMap (fun r => r.1.tokens ++ r.2.tokens) ++ rest) =
      some (cs, rest) := by
  induction cs generalizing fuel with
  | nil =>
    refine ⟨h.toEndsCore, ?_⟩
    cases fuel with
    | zero => rfl
    | succ fuel => rw [List.flatMap_nil, List.nil_append, parseCores, h.compound]
  | cons c cs ih =>
    obtain ⟨fuel, rfl⟩ := Nat.exists_eq_succ_of_ne_zero (Nat.ne_of_gt
      (Nat.lt_of_lt_of_le (Nat.succ_pos cs.length) hfuel))
    obtain ⟨hends, hrest⟩ := ih (Nat.le_of_succ_le_succ hfuel)
    obtain ⟨op, core⟩ := c
    rw [List.flatMap_cons, List.append_assoc, List.append_assoc]
    refine ⟨endsCore_compound op _, ?_⟩
    rw [parseCores, parseCompound_tokens]
    simp only [parseCore_tokens core hends, hrest, Option.bind_eq_bind, Option.bind_some]
    rfl

theorem length_le_cores (cs : List (Compound × Core)) :
    cs.length ≤ (cs.flatMap (fun r => r.1.tokens ++ r.2.tokens)).length := by
  induction cs with
  | nil => exact Nat.le_refl 0
  | cons c cs ih =>
    have hop : 0 < c.1.tokens.length := by
      cases c.1 with
      | intersect => exact Nat.succ_pos _
      | unionAll => exact Nat.succ_pos _
    rw [List.flatMap_cons, List.length_append, List.length_append, List.length_cons]
    omega

theorem parseSelect_tokens (q : Select) : parseSelect q.tokens = some (q, []) := by
  obtain ⟨core, cs, limit⟩ := q
  obtain ⟨ts, hts⟩ : ∃ ts, ts = Select.tokens ⟨core, cs, limit⟩ := ⟨_, rfl⟩
  have htokens : ts = core.tokens ++
      (cs.flatMap (fun r => r.1.tokens ++ r.2.tokens) ++ limitTokens limit) := hts
  have hfuel : cs.length ≤ ts.length := by
    have hcores := length_le_cores cs
    rw [htokens, List.length_append, List.length_append]
    omega
  obtain ⟨hends, hcores⟩ := parseCores_tokens (endsSelect_limit limit) cs hfuel
  have hcore : parseCore ts = some (core, cs.flatMap (fun r => r.1.tokens ++ r.2.tokens) ++
      limitTokens limit) := by
    rw [htokens]
    exact parseCore_tokens core hends
  have hlimit : parseLimit (limitTokens limit) = some (limit, []) := by
    have h : parseLimit (limitTokens limit ++ []) = some (limit, []) :=
      parseLimit_tokens limit rfl
    rwa [List.append_nil] at h
  rw [← hts]
  unfold parseSelect
  simp only [hcore, hcores, hlimit, Option.bind_eq_bind, Option.bind_some]
  rfl

theorem parseAttrib_tokens (a : String) (rest : List Token) :
    parseAttrib (attribTokens a ++ rest) = some (a, rest) := by
  have htokens : attribTokens a ++ rest = [kw "max", symbol '(', kw "case", kw "when", kw "attrib",
      symbol '='] ++ (.string a.toList :: ([kw "then", kw "value", kw "else", kw "null", kw "end",
      symbol ')', kw "as", .name a.toList] ++ rest)) := rfl
  have hlit : ∀ ts, parseLit (.string a.toList :: ts) = some (some a, ts) :=
    fun ts => parseLit_token (some a) ts
  unfold parseAttrib
  rw [htokens, expectAll_append]
  simp only [Option.bind_eq_bind, Option.bind_some, hlit, expectAll_append]
  rfl

theorem parseName_token (s : String) (rest : List Token) :
    parseName (.name s.toList :: rest) = some (s, rest) := by
  rw [parseName, String.ofList_toList]

theorem parseDirection_tokens (dir : Direction) (hasc : expect (kw "asc") rest = none)
    (hdesc : expect (kw "desc") rest = none) :
    parseDirection (dir.tokens ++ rest) = some (dir, rest) := by
  cases dir with
  | none =>
    unfold parseDirection
    rw [show Direction.none.tokens ++ rest = rest from rfl, hasc, hdesc]
  | asc => rfl
  | desc => rfl

theorem parseOrder_tokens (o : Option (String × Direction))
    (horder : expect (kw "order") rest = none)
    (hasc : expect (kw "asc") rest = none) (hdesc : expect (kw "desc") rest = none) :
    parseOrder (orderTokens o ++ rest) = some (o, rest) := by
  cases o with
  | none => exact optional_none horder
  | some o =>
    obtain ⟨a, dir⟩ := o
    refine optional_some ?_
    show (expect (kw "by") (kw "by" :: .name a.toList :: (dir.tokens ++ rest))).bind _ = _
    simp only [expect_self, parseName_token, parseDirection_tokens dir hasc hdesc,
      Option.bind_eq_bind, Option.bind_some]
    rfl

theorem parsePivot_tokens (q : Pivot) : parsePivot q.tokens = some (q, []) := by
  obtain ⟨attribs, table, short, conds, order, limit⟩ := q
  have hends : expect (kw "order") (limitTokens limit) = none ∧
      expect (kw "asc") (limitTokens limit) = none ∧
      expect (kw "desc") (limitTokens limit) = none := by
    cases limit with
    | none => exact ⟨rfl, rfl, rfl⟩
    | some l => exact ⟨rfl, rfl, rfl⟩
  have hlimit : parseLimit (limitTokens limit) = some (limit, []) := by
    have h : parseLimit (limitTokens limit ++ []) = some (limit, []) :=
      parseLimit_tokens limit rfl
    rwa [List.append_nil] at h
  have horder := parseOrder_tokens order hends.1 hends.2.1 hends.2.2
  obtain ⟨ts₁, hts₁⟩ : ∃ ts, ts = [kw "group", kw "by", kw "object"] ++
      (orderTokens order ++ limitTokens limit) := ⟨_, rfl⟩
  have hwhere : parseWhere (whereTokens (some conds) ++ ts₁) = some (some conds, ts₁) := by
    rw [hts₁]
    exact parseWhere_tokens (some conds) rfl rfl
  obtain ⟨ts₂, hts₂⟩ : ∃ ts, ts = kw "from" :: table.token :: short.token ::
      (whereTokens (some conds) ++ ts₁) := ⟨_, rfl⟩
  have hattribs : parseSeq (symbol ',') parseAttrib
      (attribs.tokens (symbol ',') attribTokens ++ ts₂) = some (attribs, ts₂) := by
    rw [hts₂]
    exact parseSeq_spec parseAttrib_tokens rfl attribs
  have htokens : Pivot.tokens ⟨attribs, table, short, conds, order, limit⟩ =
      [kw "object", symbol ','] ++ (attribs.tokens (symbol ',') attribTokens ++ ts₂) := by
    rw [hts₂, hts₁]
    rfl
  unfold parsePivot
  rw [htokens, expectAll_append]
  simp only [hattribs, Option.bind_eq_bind, Option.bind_some]
  rw [hts₂]
  simp only [expect_self, parseIdent_token, hwhere, Option.bind_some]
  rw [hts₁, expectAll_append]
  simp only [horder, hlimit, Option.bind_some]
  rfl

/-- A SELECT of columns is no pivot. -/
theorem parsePivot_select (q : Select) : parsePivot q.tokens = none := by
  obtain ⟨⟨distinct, cols, table, conds⟩, cs, limit⟩ := q
  unfold parsePivot
  cases distinct with
  | true => rfl
  | false =>
    obtain ⟨c, tail⟩ := cols
    obtain ⟨ts, hts⟩ : ∃ ts, Select.tokens ⟨⟨false, ⟨c, tail⟩, table, conds⟩, cs, limit⟩ =
        c.token :: (tail.flatMap (fun a => symbol ',' :: [a.token]) ++ (kw "from" :: ts)) := by
      refine ⟨table.token :: (whereTokens conds ++
        (cs.flatMap (fun r => r.1.tokens ++ r.2.tokens) ++ limitTokens limit)), ?_⟩
      simp [Select.tokens, Core.tokens, identTokens, Items.tokens]
    rw [hts]
    by_cases hc : c.token = kw "object"
    · rw [hc]
      cases tail with
      | nil => rfl
      | cons d tail =>
        have hmax : ∀ ts', parseAttrib (d.token :: ts') = none := by
          intro ts'
          unfold parseAttrib
          rw [expectAll, expect_ne (d.token_ne (by decide))]
          rfl
        show (expectAll [kw "object", symbol ','] ([kw "object", symbol ','] ++ (d.token ::
          (tail.flatMap (fun a => symbol ',' :: [a.token]) ++ (kw "from" :: ts))))).bind _ = none
        rw [expectAll_append, Option.bind_some]
        unfold parseSeq
        rw [hmax]
        rfl
    · rw [expectAll, expect_ne hc]
      rfl

theorem zipSeq_map (fields : Items (Ident × Option String)) :
    zipSeq (fields.map Prod.fst) (fields.map Prod.snd) = some fields := by
  obtain ⟨head, tail⟩ := fields
  have hzip : (tail.map Prod.fst).zip (tail.map Prod.snd) = tail := by
    rw [← List.unzip_fst, ← List.unzip_snd, List.zip_unzip]
  unfold zipSeq
  rw [if_pos (by simp [Items.map])]
  show some (⟨(head.1, head.2), (tail.map Prod.fst).zip (tail.map Prod.snd)⟩ :
    Items (Ident × Option String)) = _
  rw [hzip]

theorem parseInsert_tokens (table : Ident) (fields : Items (Ident × Option String)) :
    parseInsert (kw "into" :: table.token :: symbol '(' :: (identTokens (fields.map Prod.fst) ++
      ([symbol ')', kw "values", symbol '('] ++ ((fields.map Prod.snd).tokens (symbol ',')
        (fun v => [litToken v]) ++ [symbol ')'])))) = some (.insert table fields, []) := by
  have hvals : parseSeq (symbol ',') parseLit ((fields.map Prod.snd).tokens (symbol ',')
      (fun v => [litToken v]) ++ [symbol ')']) = some (fields.map Prod.snd, [symbol ')']) :=
    parseSeq_spec (fun v ts => parseLit_token v ts) rfl _
  obtain ⟨ts, hts⟩ : ∃ ts, ts = (fields.map Prod.snd).tokens (symbol ',')
      (fun v => [litToken v]) ++ [symbol ')'] := ⟨_, rfl⟩
  rw [← hts] at hvals ⊢
  have hcols : parseSeq (symbol ',') parseIdent (identTokens (fields.map Prod.fst) ++
      ([symbol ')', kw "values", symbol '('] ++ ts)) =
      some (fields.map Prod.fst, [symbol ')', kw "values", symbol '('] ++ ts) :=
    parseIdents_tokens _ rfl
  unfold parseInsert
  simp only [expect_self, parseIdent_token, hcols, expectAll_append, hvals, zipSeq_map,
    Option.bind_eq_bind, Option.bind_some]
  rfl

theorem parseSet_tokens (f : Ident × Option String) (rest : List Token) :
    parseSet (setTokens f ++ rest) = some (f, rest) := by
  obtain ⟨i, v⟩ := f
  unfold parseSet
  rw [show setTokens (i, v) ++ rest = .name i.name.toList :: symbol '=' :: litToken v :: rest
    from rfl]
  simp only [parseName_token, toIdent_name, expect_self, parseLit_token, Option.bind_eq_bind,
    Option.bind_some]
  rfl

theorem parseWhere_end (conds : Option (Items Cond)) :
    parseWhere (whereTokens conds) = some (conds, []) := by
  have h : parseWhere (whereTokens conds ++ []) = some (conds, []) :=
    parseWhere_tokens conds rfl rfl
  rwa [List.append_nil] at h

theorem parseUpdate_tokens (table : Ident) (sets : Items (Ident × Option String))
    (conds : Option (Items Cond)) : parseUpdate (table.token :: kw "set" ::
      (sets.tokens (symbol ',') setTokens ++ whereTokens conds)) =
      some (.update table sets conds, []) := by
  have hcomma : expect (symbol ',') (whereTokens conds) = none := by
    cases conds with
    | none => rfl
    | some cs => rfl
  unfold parseUpdate
  simp only [parseIdent_token, expect_self, parseSeq_spec parseSet_tokens hcomma sets,
    parseWhere_end, Option.bind_eq_bind, Option.bind_some]
  rfl

theorem parseDelete_tokens (table : Ident) (conds : Option (Items Cond)) :
    parseDelete (kw "from" :: table.token :: whereTokens conds) =
      some (.delete table conds, []) := by
  unfold parseDelete
  simp only [parseIdent_token, expect_self, parseWhere_end, Option.bind_eq_bind, Option.bind_some]
  rfl

/-- The parser finds every statement in its tokens. -/
theorem parse_tokens (s : Stmt) : parse s.tokens = some s := by
  have hstmt : parseStmt s.tokens = some (s, []) := by
    cases s with
    | select q =>
      rw [Stmt.tokens, parseStmt, if_pos rfl, parsePivot_select, parseSelect_tokens]
      rfl
    | pivot q => rw [Stmt.tokens, parseStmt, if_pos rfl, parsePivot_tokens]
    | insert table fields => exact parseInsert_tokens table fields
    | update table sets conds => exact parseUpdate_tokens table sets conds
    | delete table conds => exact parseDelete_tokens table conds
  rw [parse, hstmt]

/-- A text spells one statement at most, and the parser finds it. -/
theorem Spells.parse_eq {sql : String} {s : Stmt} (h : Spells sql s) :
    (lexText sql).bind parse = some s := by
  rw [show lexText sql = some s.tokens from h, Option.bind_some, parse_tokens]

end Completeness

end Rhodes.SqlGrammar
