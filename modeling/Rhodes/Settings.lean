import Mathlib.Data.List.AList
import Mathlib.Data.List.DropRight
import Rhodes.Tokenizer

/-!
The settings of rhoconfig.txt as RhoConf.cpp and RhoConf.java read and write them. The C++
reader walks over the text with pointers: a pointer is what is left of the C string behind
it, and a step over the terminating NUL or a string cut outside of the text is `none`.
-/
namespace Rhodes.Settings

open Rhodes.Tokenizer (tokens)

abbrev Text := List Char

/-- A map from names to values, in the order in which it is enumerated. -/
abbrev Table (β : Type) := AList (fun _ : Text => β)

def nul : Char := Char.ofNat 0

def isBlank (c : Char) : Bool := c = ' '

def isBlankOrQuote (c : Char) : Bool := c = ' ' || c = '\'' || c = '"'

/-- A text without the characters at its ends that pass the test. -/
def strip (p : Char → Bool) (s : Text) : Text := (s.dropWhile p).rdropWhile p

namespace Cpp

/-- `p[n]`; the terminating NUL can still be read. -/
def charAt (p : Text) (n : Nat) : Option Char := (p ++ [nul])[n]?

/-- `while (test(*p, n)) { p++; n--; }` -/
def advance (test : Char → Int → Bool) : Text → Int → Option (Text × Int)
  | [], n => if test nul n then none else some ([], n)
  | c :: p, n => if test c n then advance test p (n - 1) else some (c :: p, n)

/-- `for (i = 0; i < len; i++) if (start[i] == '=') break;` from the index `i` on, where
the text is what stands there. -/
def findEquals (len : Int) : Text → Nat → Option (Option Nat)
  | [], i => if (i : Int) + 1 < len then none else some none
  | c :: p, i =>
      if (i : Int) < len then if c = '=' then some (some i) else findEquals len p (i + 1)
      else some none

/-- `while (n > 0 && test(p[n-1])) n--;` -/
def cutEnd (test : Char → Bool) (p : Text) : Nat → Option Nat
  | 0 => some 0
  | n + 1 => do
      let c ← charAt p n
      if test c then cutEnd test p n else some (n + 1)

/-- The arguments of setPropertyByName. -/
structure Property where
  szName : Text
  nNameLen : Int
  szValue : Text
  nValueLen : Int
deriving DecidableEq

/-- The test of the loop over the front of a value: `&&` binds stronger than `||`. -/
def valueFront (c : Char) (nValueLen : Int) : Bool :=
  c = ' ' || c = '\'' || (c = '"' && 0 ≤ nValueLen)

/-- `while (nValueLen > 0 && ...) nValueLen--;` over blanks and quotes. -/
def valueEnd (szValue : Text) (nValueLen : Int) : Option Int :=
  if 0 < nValueLen then (cutEnd isBlankOrQuote szValue nValueLen.toNat).map Int.ofNat
  else some nValueLen

def loadProperty (start : Text) (len : Int) : Option (Option Property) := do
  let (start, len) ← advance (fun c _ => isBlank c) start len
  match ← findEquals len start 0 with
  | none => some none
  | some i =>
      let nNameLen ← cutEnd isBlank start i
      if nNameLen = 0 then some none
      else
        let (szValue, nValueLen) ← advance valueFront (start.drop (i + 1)) (len - (i + 1))
        let nValueLen ← valueEnd szValue nValueLen
        some (some ⟨start, nNameLen, szValue, nValueLen⟩)

/-- `String(p, n)`. -/
def string (p : Text) (n : Int) : Option Text :=
  if 0 ≤ n ∧ n ≤ p.length then some (p.take n.toNat) else none

def setPropertyByName (values : Table Text) (p : Property) : Option (Table Text) := do
  let name ← string p.szName p.nNameLen
  let value ← string p.szValue p.nValueLen
  some (values.insert name value)

/-- What stands in front of the next line feed, when there is one. -/
def beforeLineFeed (start : Text) : Text := start.takeWhile (fun c => c ≠ '\n')

/-- `len`, when a line feed was found. -/
def lineLen (start : Text) : Int :=
  let line := beforeLineFeed start
  if line.getLast? = some '\r' then line.length - 1 else line.length

/-- The calls of loadProperty of the loop over the lines; every turn but the last takes a
line feed, so that the length of the text is a bound for them. -/
def linesUpTo : Nat → Text → List (Text × Int)
  | 0, _ => []
  | turns + 1, start =>
      if '\n' ∈ start then
        (start, lineLen start) :: linesUpTo turns (start.drop ((beforeLineFeed start).length + 1))
      else [(start, (start.length : Int))]

/-- The calls of loadProperty for a C string, which ends at the first NUL. -/
def lines (szSettings : Text) : List (Text × Int) :=
  let text := szSettings.takeWhile (fun c => c ≠ nul)
  linesUpTo (text.length + 1) text

def loadLine (values : Table Text) (line : Text × Int) : Option (Table Text) := do
  match ← loadProperty line.1 line.2 with
  | none => some values
  | some p => setPropertyByName values p

def loadFromString (szSettings : Text) (values : Table Text) : Option (Table Text) :=
  (lines szSettings).foldlM loadLine values

/-- saveToString, with LOG_NEWLINE of the platform. -/
def saveToString (newline : Text) (values : Table Text) : Text :=
  values.entries.flatMap (fun e => e.1 ++ ['=', '\''] ++ e.2 ++ ['\''] ++ newline)

end Cpp

namespace Java

/-- What String.trim takes off. -/
def isWhite (c : Char) : Bool := c.toNat ≤ 32

def trim (s : Text) : Text := strip isWhite s

/-- The texts in front of and behind the first '='. -/
def nameAndValue (tok : Text) : Text × Text :=
  match tok.idxOf? '=' with
  | some (i + 1) => (tok.take (i + 1), tok.drop (i + 2))
  | _ => (tok, [])

/-- A pair of quotes is taken off; `substring(1, 0)` throws. -/
def unquote (value : Text) : Except Unit Text :=
  if value.head? = some '\'' ∧ value.getLast? = some '\'' then
    if 1 ≤ value.length - 1 then .ok ((value.take (value.length - 1)).drop 1) else .error ()
  else .ok value

def readToken (tok : Text) : Except Unit (Option (Text × Text)) :=
  let tok := trim tok
  if tok = [] then .ok none
  else if tok.head? = some '#' then .ok none
  else
    let (name, value) := nameAndValue tok
    match unquote (trim value) with
    | .error _ => .error ()
    | .ok value => .ok (some (trim name, value))

/-- A StringIndexOutOfBoundsException leaves the table as it is then. -/
def loadToken (values : Table Text) (tok : Text) : Except (Table Text) (Table Text) :=
  match readToken tok with
  | .error _ => .error values
  | .ok none => .ok values
  | .ok (some (name, value)) => .ok (values.insert name value)

def loadFromString (szSettings : Text) (values : Table Text) : Except (Table Text) (Table Text) :=
  (tokens ['\n'] szSettings).foldlM loadToken values

def saveToString (values : Table Text) : Text :=
  values.entries.flatMap (fun e => e.1 ++ ['=', '\''] ++ e.2 ++ ['\'', '\n'])

end Java

/-- A name that can be read back. -/
structure IsName (name : Text) : Prop where
  ne_nil : name ≠ []
  equals : '=' ∉ name
  lineFeed : '\n' ∉ name
  noNul : nul ∉ name
  first : ∀ c ∈ name.head?, Java.isWhite c = false ∧ c ≠ '#'
  last : ∀ c ∈ name.getLast?, Java.isWhite c = false

/-- A value that can be on a line. -/
structure IsValue (value : Text) : Prop where
  lineFeed : '\n' ∉ value
  carriageReturn : '\r' ∉ value
  noNul : nul ∉ value

/-- A value with nothing at its ends that the C++ reader takes off. -/
structure IsBare (value : Text) : Prop where
  first : ∀ c ∈ value.head?, isBlankOrQuote c = false
  last : ∀ c ∈ value.getLast?, isBlankOrQuote c = false

/-- The line of a setting, with blanks around the '='. -/
def assignment (name : Text) (before after : Nat) (value : Text) : Text :=
  name ++ List.replicate before ' ' ++ '=' :: List.replicate after ' ' ++ ['\''] ++ value ++ ['\'']

end Rhodes.Settings
