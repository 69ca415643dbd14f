import Mathlib
import Rhodes.Json

/-!
json_tokener_parse_ex. The parser keeps a stack of levels, one for each array or object it is
inside of, and takes the text byte by byte, so that a text may come in pieces. A byte is the
character of its number; null is the value of a null pointer. `scanLf` stands for sscanf with
"%lf": it gives the text a number read as a double is printed as, and its integer part.
-/
namespace Rhodes.JsonTokener
open Json

abbrev Text := List Char

inductive JsonTokenerError where
  | success
  | continue
  | errorDepth
  | errorParseEof
  | errorParseUnexpected
  | errorParseNull
  | errorParseBoolean
  | errorParseNumber
  | errorParseArray
  | errorParseObjectKeySep
  | errorParseObjectValueSep
  | errorParseString
  | errorParseComment
  deriving DecidableEq

inductive JsonTokenerState where
  | eatws
  | start
  | finish
  | null
  | commentStart
  | comment
  | commentEol
  | commentEnd
  | string
  | stringEscape
  | escapeUnicode
  | boolean
  | number
  | array
  | arrayAdd
  | arraySep
  | objectFieldStart
  | objectField
  | objectFieldEnd
  | objectValue
  | objectValueAdd
  | objectSep
  deriving DecidableEq

/-- A level of the stack. -/
structure Srec where
  state : JsonTokenerState := .eatws
  savedState : JsonTokenerState := .start
  current : JsonObject := .null
  objFieldName : String := ""

/-- The levels below the top are in `below`, the nearest first. -/
structure Tokener where
  pb : Text := []
  isDouble : Bool := false
  stPos : ℕ := 0
  ucsChar : ℕ := 0
  quoteChar : Char := '\x00'
  top : Srec := {}
  below : List Srec := []

/-- JSON_TOKENER_MAX_DEPTH -/
def maxDepth : ℕ := 32

def isspace (c : Char) : Bool := c = ' ' || (9 ≤ c.toNat && c.toNat ≤ 13)

def jsonNumberChars : Text := "0123456789.+-eE".toList

def jsonHexChars : Text := "0123456789abcdef".toList

/-- What strdup copies of a buffer. -/
def strdup (pb : Text) : String := String.ofList (pb.takeWhile (· ≠ '\x00'))

/-- The first `n` characters of two texts, whatever their case. -/
def strncasecmp (a b : Text) (n : ℕ) : Bool :=
  (a.take n).map Char.toLower = (b.take n).map Char.toLower

def byte (n : ℕ) : Char := Char.ofNat (n % 256)

/-- The bytes of a character after its four digits. -/
def utfOut (ucs : ℕ) : Text :=
  if ucs < 0x80 then [byte ucs]
  else if ucs < 0x800 then [byte (0xc0 ||| ucs >>> 6), byte (0x80 ||| (ucs &&& 0x3f))]
  else [byte (0xe0 ||| ucs >>> 12), byte (0x80 ||| ((ucs >>> 6) &&& 0x3f)),
    byte (0x80 ||| (ucs &&& 0x3f))]

/-- hexdigit of bits.h, as an unsigned int; the NUL passes strchr too. -/
def hexdigit (c : Char) : ℕ :=
  if c ≤ '9' then (c.toNat + 2 ^ 32 - 48) % 2 ^ 32 else (c.toNat &&& 7) + 9

def objectAdd (fields : List (String × JsonObject)) (key : String) (val : JsonObject) :
    List (String × JsonObject) :=
  fields.filter (fun f => f.1 ≠ key) ++ [(key, val)]

namespace Tokener

def depth (tok : Tokener) : ℕ := tok.below.length

def setState (tok : Tokener) (state : JsonTokenerState) : Tokener :=
  { tok with top := { tok.top with state } }

/-- White space is skipped before the state. -/
def after (tok : Tokener) (savedState : JsonTokenerState) : Tokener :=
  { tok with top := { tok.top with state := .eatws, savedState } }

/-- An escape is read inside of the state. -/
def escapeIn (tok : Tokener) (savedState : JsonTokenerState) : Tokener :=
  { tok with top := { tok.top with state := .stringEscape, savedState } }

def setCurrent (tok : Tokener) (current : JsonObject) : Tokener :=
  { tok with top := { tok.top with current } }

def append (tok : Tokener) (cs : Text) : Tokener := { tok with pb := tok.pb ++ cs }

/-- A new level on top, in its first state. -/
def push (tok : Tokener) : Tokener := { tok with top := {}, below := tok.top :: tok.below }

section Fields

variable (tok : Tokener) (s : JsonTokenerState) (j : JsonObject) (cs : Text)

@[simp] theorem setState_state : (tok.setState s).top.state = s := rfl

@[simp] theorem setState_savedState : (tok.setState s).top.savedState = tok.top.savedState := rfl

@[simp] theorem setState_current : (tok.setState s).top.current = tok.top.current := rfl

@[simp] theorem setState_below : (tok.setState s).below = tok.below := rfl

@[simp] theorem setState_stPos : (tok.setState s).stPos = tok.stPos := rfl

@[simp] theorem setState_pb : (tok.setState s).pb = tok.pb := rfl

@[simp] theorem setState_isDouble : (tok.setState s).isDouble = tok.isDouble := rfl

@[simp] theorem after_state : (tok.after s).top.state = .eatws := rfl

@[simp] theorem after_savedState : (tok.after s).top.savedState = s := rfl

@[simp] theorem after_current : (tok.after s).top.current = tok.top.current := rfl

@[simp] theorem after_below : (tok.after s).below = tok.below := rfl

@[simp] theorem escapeIn_state : (tok.escapeIn s).top.state = .stringEscape := rfl

@[simp] theorem escapeIn_savedState : (tok.escapeIn s).top.savedState = s := rfl

@[simp] theorem escapeIn_current : (tok.escapeIn s).top.current = tok.top.current := rfl

@[simp] theorem escapeIn_below : (tok.escapeIn s).below = tok.below := rfl

@[simp] theorem setCurrent_state : (tok.setCurrent j).top.state = tok.top.state := rfl

@[simp] theorem setCurrent_savedState :
    (tok.setCurrent j).top.savedState = tok.top.savedState := rfl

@[simp] theorem setCurrent_current : (tok.setCurrent j).top.current = j := rfl

@[simp] theorem setCurrent_below : (tok.setCurrent j).below = tok.below := rfl

@[simp] theorem append_top : (tok.append cs).top = tok.top := rfl

@[simp] theorem append_below : (tok.append cs).below = tok.below := rfl

@[simp] theorem append_stPos : (tok.append cs).stPos = tok.stPos := rfl

@[simp] theorem push_top : tok.push.top = {} := rfl

@[simp] theorem push_below : tok.push.below = tok.top :: tok.below := rfl

end Fields

end Tokener

/-- What comes of a character in a state: the next character, the same one again, or the end. -/
inductive Turn where
  | next (tok : Tokener) (obj : JsonObject)
  | redo (tok : Tokener) (obj : JsonObject)
  | out (tok : Tokener) (err : JsonTokenerError)

section Parser

variable (scanLf : Text → Option (String × Int))

/-- The number in the buffer. -/
def scanNumber (isDouble : Bool) (buf : Text) : Option JsonObject :=
  if isDouble then (scanLf buf).map (fun d => .double d.1 d.2)
  else (scanLli (String.ofList buf)).map .int

/-- A level more, unless there are too many. -/
def enter (tok : Tokener) (obj : JsonObject) (back : JsonTokenerState) : Turn :=
  if tok.depth ≥ maxDepth - 1 then .out tok .errorDepth
  else .redo (tok.setState back).push obj

/-- The switch of json_tokener_parse_ex. -/
def switch (tok : Tokener) (obj : JsonObject) (c : Char) : Turn :=
  match tok.top.state with
  | .eatws =>
    if isspace c then .next tok obj
    else if c = '/' then .next ({ tok with pb := [c] }.setState .commentStart) obj
    else .redo (tok.setState tok.top.savedState) obj
  | .start =>
    if c = '\x7b' then .next ((tok.after .objectFieldStart).setCurrent (.object [])) obj
    else if c = '[' then .next ((tok.after .array).setCurrent (.array [])) obj
    else if c = 'N' ∨ c = 'n' then .redo ({ tok with pb := [], stPos := 0 }.setState .null) obj
    else if c = '"' ∨ c = '\'' then
      .next ({ tok with pb := [], quoteChar := c }.setState .string) obj
    else if c = 'T' ∨ c = 't' ∨ c = 'F' ∨ c = 'f' then
      .redo ({ tok with pb := [], stPos := 0 }.setState .boolean) obj
    else if ('0' ≤ c ∧ c ≤ '9') ∨ c = '-' then
      .redo ({ tok with pb := [], isDouble := false }.setState .number) obj
    else .out tok .errorParseUnexpected
  | .finish =>
    match tok.below with
    | [] => .out tok .success
    | level :: below => .redo { tok with top := level, below } tok.top.current
  | .null =>
    let tok := tok.append [c]
    if strncasecmp "null".toList tok.pb (min (tok.stPos + 1) 4) then
      if tok.stPos = 4 then .redo ((tok.after .finish).setCurrent .null) obj
      else .next { tok with stPos := tok.stPos + 1 } obj
    else .out tok .errorParseNull
  | .commentStart =>
    if c = '*' then .next ((tok.setState .comment).append [c]) obj
    else if c = '/' then .next ((tok.setState .commentEol).append [c]) obj
    else .out tok .errorParseComment
  | .comment => .next ((if c = '*' then tok.setState .commentEnd else tok).append [c]) obj
  | .commentEol =>
    if c = '\n' then .next (tok.setState .eatws) obj else .next (tok.append [c]) obj
  | .commentEnd =>
    let tok := tok.append [c]
    if c = '/' then .next (tok.setState .eatws) obj else .next (tok.setState .comment) obj
  | .string =>
    if c = tok.quoteChar then .next ((tok.after .finish).setCurrent (.string (strdup tok.pb))) obj
    else if c = '\\' then
      .next (tok.escapeIn .string) obj
    else .next (tok.append [c]) obj
  | .stringEscape =>
    if c = '"' ∨ c = '\\' ∨ c = '/' then .next ((tok.append [c]).setState tok.top.savedState) obj
    else if c = 'b' then .next ((tok.append ['\x08']).setState tok.top.savedState) obj
    else if c = 'n' then .next ((tok.append ['\n']).setState tok.top.savedState) obj
    else if c = 'r' then .next ((tok.append ['\r']).setState tok.top.savedState) obj
    else if c = 't' then .next ((tok.append ['\t']).setState tok.top.savedState) obj
    else if c = 'u' then
      .next ({ tok with ucsChar := 0, stPos := 0 }.setState .escapeUnicode) obj
    else .out tok .errorParseString
  | .escapeUnicode =>
    if c ∈ jsonHexChars ∨ c = '\x00' then
      let ucsChar := (tok.ucsChar + hexdigit c * 2 ^ ((3 - tok.stPos) * 4)) % 2 ^ 32
      let tok := { tok with ucsChar, stPos := tok.stPos + 1 }
      if tok.stPos = 4 then .next ((tok.append (utfOut ucsChar)).setState tok.top.savedState) obj
      else .next tok obj
    else .out tok .errorParseString
  | .boolean =>
    let tok := tok.append [c]
    if strncasecmp "true".toList tok.pb (min (tok.stPos + 1) 4) then
      if tok.stPos = 4 then .redo ((tok.after .finish).setCurrent (.boolean true)) obj
      else .next { tok with stPos := tok.stPos + 1 } obj
    else if strncasecmp "false".toList tok.pb (min (tok.stPos + 1) 5) then
      if tok.stPos = 5 then .redo ((tok.after .finish).setCurrent (.boolean false)) obj
      else .next { tok with stPos := tok.stPos + 1 } obj
    else .out tok .errorParseBoolean
  | .number =>
    if c ∈ jsonNumberChars then
      .next { tok.append [c] with
        isDouble := tok.isDouble || c = '.' || c = 'e' || c = 'E' } obj
    else
      match scanNumber scanLf tok.isDouble tok.pb with
      | some n => .redo ((tok.after .finish).setCurrent n) obj
      | none => .out tok .errorParseNumber
  | .array =>
    if c = ']' then .next (tok.after .finish) obj
    else enter tok obj .arrayAdd
  | .arrayAdd =>
    match tok.top.current with
    | .array items => .redo ((tok.after .arraySep).setCurrent (.array (items ++ [obj]))) obj
    | _ => .redo (tok.after .arraySep) obj
  | .arraySep =>
    if c = ']' then .next (tok.after .finish) obj
    else if c = ',' then .next (tok.after .array) obj
    else .out tok .errorParseArray
  | .objectFieldStart =>
    if c = '\x7d' then .next (tok.after .finish) obj
    else if c = '"' ∨ c = '\'' then
      .next ({ tok with quoteChar := c, pb := [] }.setState .objectField) obj
    else .next ({ tok with quoteChar := ':', pb := [c] }.setState .objectField) obj
  | .objectField =>
    if c = tok.quoteChar then
      let tok := { tok with top := { tok.top with objFieldName := strdup tok.pb } }
      .next (tok.after (if c = ':' then .objectValue else .objectFieldEnd)) obj
    else if c = '\\' then
      .next (tok.escapeIn .objectField) obj
    else .next (tok.append [c]) obj
  | .objectFieldEnd =>
    if c = ':' then .next (tok.after .objectValue) obj else .out tok .errorParseObjectKeySep
  | .objectValue => enter tok obj .objectValueAdd
  | .objectValueAdd =>
    let added := tok.after .objectSep
    match tok.top.current with
    | .object fields =>
      .redo { added with top := { added.top with
        current := .object (objectAdd fields tok.top.objFieldName obj), objFieldName := "" } } obj
    | _ => .redo { added with top := { added.top with objFieldName := "" } } obj
  | .objectSep =>
    if c = '\x7d' then .next (tok.after .finish) obj
    else if c = ',' then .next (tok.after .objectFieldStart) obj
    else .out tok .errorParseObjectValueSep

/-- One character, with the jumps back to redo_char. -/
def scanChar : ℕ → Tokener → JsonObject → Char → Option Turn
  | 0, _, _, _ => none
  | fuel + 1, tok, obj, c =>
    match switch scanLf tok obj c with
    | .redo tok obj => scanChar fuel tok obj c
    | turn => some turn

/-- No character is looked at so many times. -/
def redoBound : ℕ := 9

/-- The error at the end of the string. -/
def eofError (tok : Tokener) : JsonTokenerError :=
  if tok.top.state ≠ .finish ∧ tok.top.savedState ≠ .finish then .errorParseEof else .success

/-- The error where the length given is used up. -/
def lenError (tok : Tokener) : JsonTokenerError :=
  if tok.depth = 0 ∧ tok.top.state = .eatws ∧ tok.top.savedState = .finish then .success
  else .continue

def parseLoop : Tokener → JsonObject → Text → Option (JsonTokenerError × Tokener)
  | tok, _, [] => some (lenError tok, tok)
  | tok, obj, c :: cs =>
    match scanChar scanLf redoBound tok obj c with
    | some (.next tok obj) => if c = '\x00' then some (eofError tok, tok) else parseLoop tok obj cs
    | some (.out tok err) => some (err, tok)
    | _ => none

/-- The error and the parser after a call. -/
def jsonTokenerParseEx (tok : Tokener) (str : Text) : Option (JsonTokenerError × Tokener) :=
  parseLoop scanLf tok .null str

/-- The value that a call returns. -/
def returned (r : JsonTokenerError × Tokener) : JsonObject :=
  if r.1 = .success then r.2.top.current else .null

/-- The error and the value of a string, which ends with its NUL. -/
def jsonTokenerParse (str : Text) : Option (JsonTokenerError × JsonObject) :=
  (jsonTokenerParseEx scanLf {} (str ++ ['\x00'])).map (fun r => (r.1, returned r))

end Parser

end Rhodes.JsonTokener
