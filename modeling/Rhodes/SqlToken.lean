import Mathlib.Data.List.Basic

/-!
The tokens of an SQL text as sqlite3GetToken of the bundled SQLite takes them off, and the loop of
sqlite3RunParser over a C string. Spaces and comments are no tokens; one illegal token fails the
text. A letter above 127 stands for the bytes of its encoding, which all belong to identifiers.
-/
namespace Rhodes.SqlToken

/-- What the parser is given, without the quotes. -/
inductive Token where
  /-- TK_STRING. -/
  | string (s : List Char)
  /-- TK_ID in quotes. -/
  | name (s : List Char)
  /-- TK_ID or a keyword. -/
  | word (s : List Char)
  /-- TK_INTEGER or TK_FLOAT. -/
  | number (s : List Char)
  | variable (s : List Char)
  | blob (s : List Char)
  | op (s : List Char)
  deriving DecidableEq

def isSpace (c : Char) : Bool := c ∈ [' ', '\t', '\n', '\x0b', '\x0c', '\r']

def idChar (c : Char) : Bool := c.isAlphanum || c = '_' || c = '$' || 128 ≤ c.toNat

/-- Keywords and columns are compared without their case. -/
def lower (s : List Char) : List Char := s.map Char.toLower

/-- What is before the quote that ends it, where two quotes stand for one, and what is behind. -/
def closeQuote (delim : Char) : List Char → Option (List Char × List Char)
  | [] => none
  | c :: cs =>
    if c = delim then
      match cs with
      | [] => some ([], [])
      | d :: ds =>
        if d = delim then (closeQuote delim ds).map (fun r => (delim :: r.1, r.2))
        else some ([], d :: ds)
    else (closeQuote delim cs).map (fun r => (c :: r.1, r.2))

/-- Behind the end of a comment, or the end of the text. -/
def closeComment : List Char → List Char
  | '*' :: '/' :: rest => rest
  | _ :: cs => closeComment cs
  | [] => []

/-- What is left behind the digits of a number. -/
def afterDigits (cs : List Char) : List Char := cs.dropWhile Char.isDigit

def afterFraction : List Char → List Char
  | '.' :: rest => afterDigits rest
  | cs => cs

def afterExponent (cs : List Char) : List Char :=
  match cs with
  | e :: d :: rest =>
    if e = 'e' ∨ e = 'E' then
      if d.isDigit then afterDigits rest
      else if d = '+' ∨ d = '-' then
        match rest with
        | d' :: rest' => if d'.isDigit then afterDigits rest' else cs
        | [] => cs
      else cs
    else cs
  | _ => cs

/-- A number with a letter behind it is illegal. -/
def getNumber (cs : List Char) : Option (Token × List Char) :=
  let rest := afterExponent (afterFraction (afterDigits cs))
  if (rest.takeWhile idChar).isEmpty then some (.number (cs.take (cs.length - rest.length)), rest)
  else none

/-- What is left behind a variable with a name, of which n letters are read. -/
def afterName : Nat → List Char → Option (List Char)
  | n, [] => if n = 0 then none else some []
  | n, ':' :: ':' :: rest => afterName n rest
  | n, c :: cs =>
    if idChar c then afterName (n + 1) cs
    else if c = '(' ∧ 0 < n then
      match cs.dropWhile (fun d => !isSpace d && d ≠ ')') with
      | ')' :: rest => some rest
      | _ => none
    else if n = 0 then none else some (c :: cs)

/-- A token that is some characters long. -/
def taken (make : List Char → Token) (cs rest : List Char) : Option (Option Token × List Char) :=
  some (some (make (cs.take (cs.length - rest.length))), rest)

/-- An operator of two characters, where the second is one of these, or of one. -/
def getOp (c : Char) (second : List Char) (cs : List Char) : Option (Option Token × List Char) :=
  match cs with
  | d :: rest => if d ∈ second then some (some (.op [c, d]), rest) else some (some (.op [c]), cs)
  | [] => some (some (.op [c]), [])

def getQuoted (delim : Char) (cs : List Char) : Option (Option Token × List Char) :=
  (closeQuote delim cs).map (fun r =>
    (some (if delim = '\'' then .string r.1 else .name r.1), r.2))

/-- A blob has an even number of hexadecimal digits. -/
def getBlob (cs : List Char) : Option (Option Token × List Char) :=
  let digits := cs.takeWhile (fun c => c ≠ '\'')
  match cs.dropWhile (fun c => c ≠ '\'') with
  | [] => none
  | _ :: rest =>
    if digits.all (fun c => c.isDigit || c.toLower ∈ ['a', 'b', 'c', 'd', 'e', 'f']) ∧
      digits.length % 2 = 0 then some (some (.blob digits), rest)
    else none

def getWord (cs : List Char) : Option (Option Token × List Char) :=
  if (cs.takeWhile idChar).isEmpty then none
  else some (some (.word (lower (cs.takeWhile idChar))), cs.dropWhile idChar)

/-- sqlite3GetToken on a text that is not empty: none is TK_ILLEGAL, and a token that is none is
TK_SPACE. -/
def getToken (c : Char) (cs : List Char) : Option (Option Token × List Char) :=
  if c ∈ [' ', '\t', '\n', '\x0c', '\r'] then some (none, cs.dropWhile isSpace)
  else if c = '-' then
    match cs with
    | '-' :: rest => some (none, rest.dropWhile (fun c => c ≠ '\n'))
    | _ => some (some (.op ['-']), cs)
  else if c ∈ ['(', ')', ';', '+', '*', '%', ',', '&', '~'] then some (some (.op [c]), cs)
  else if c = '/' then
    match cs with
    | '*' :: d :: rest => some (none, closeComment (d :: rest))
    | _ => some (some (.op ['/']), cs)
  else if c = '=' then getOp c ['='] cs
  else if c = '<' then getOp c ['=', '>', '<'] cs
  else if c = '>' then getOp c ['=', '>'] cs
  else if c = '|' then getOp c ['|'] cs
  else if c = '!' then
    match cs with
    | '=' :: rest => some (some (.op ['!', '=']), rest)
    | _ => none
  else if c ∈ ['\x60', '\'', '"'] then getQuoted c cs
  else if c = '.' ∧ ¬(cs.head?.map Char.isDigit = some true) then some (some (.op ['.']), cs)
  else if c = '.' ∨ c.isDigit then (getNumber (c :: cs)).map (fun r => (some r.1, r.2))
  else if c = '[' then
    match cs.dropWhile (fun c => c ≠ ']') with
    | [] => none
    | _ :: rest => some (some (.name (cs.takeWhile (fun c => c ≠ ']'))), rest)
  else if c = '?' ∨ (c = '#' ∧ cs.head?.map Char.isDigit = some true) then
    taken .variable (c :: cs) (afterDigits cs)
  else if c ∈ ['#', '$', '@', ':'] then
    match afterName 0 cs with
    | some rest => taken .variable (c :: cs) rest
    | none => none
  else if (c = 'x' ∨ c = 'X') ∧ cs.head? = some '\'' then getBlob (cs.drop 1)
  else getWord (c :: cs)

/-- The loop of sqlite3RunParser, for a text with fewer tokens than the fuel. -/
def lexFrom : Nat → List Char → Option (List Token)
  | 0, _ => none
  | _ + 1, [] => some []
  | fuel + 1, c :: cs =>
    match getToken c cs with
    | none => none
    | some (t, rest) => (lexFrom fuel rest).map (fun ts => t.toList ++ ts)

def lex (cs : List Char) : Option (List Token) := lexFrom (cs.length + 1) cs

/-- sqlite3_prepare reads a C string. -/
def lexText (sql : String) : Option (List Token) :=
  lex (sql.toList.takeWhile (fun c => c ≠ '\x00'))

end Rhodes.SqlToken
