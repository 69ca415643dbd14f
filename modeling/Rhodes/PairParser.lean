import Mathlib.Data.List.AList

/-!
UrlEncodedPairParser and parse_query_parameters of rhosupport.rb. What the parser does with a
key depends on the key alone: a key is scanned into a plan of actions, and the plan is then
carried out on the objects of the result. The objects are numbered; the result is number 0.
A scanner is a parameter of the parser, as the two runtimes have their own.
-/
namespace Rhodes.PairParser

abbrev Text := List Char

/-- A match in a string: its ends and its first group. -/
structure Match where
  start : Nat
  stop : Nat
  group : Text
deriving DecidableEq

/-- A regular expression, as the match that begins at a position of a string. -/
structure Regexp where
  matchAt : Text → Nat → Option Match
  start_eq : ∀ s pos m, matchAt s pos = some m → m.start = pos

/-- A regular expression that looks only at the text from the position on; `f` is the length of
the match and its group. -/
def Regexp.ofRest (f : Text → Option (Nat × Text)) : Regexp where
  matchAt s pos := (f (s.drop pos)).map (fun r => ⟨pos, pos + r.1, r.2⟩)
  start_eq s pos m h := by
    cases hf : f (s.drop pos) with
    | none => simp [hf] at h
    | some r =>
      simp only [hf, Option.map_some, Option.some.injEq] at h
      rw [← h]

/-- `[^\[\]=&]`. -/
def isKeyChar (c : Char) : Bool := c ≠ '[' && c ≠ ']' && c ≠ '=' && c ≠ '&'

/-- KEY_REGEXP. -/
def keyRest (rest : Text) : Option (Nat × Text) :=
  let name := rest.takeWhile isKeyChar
  if name = [] then none else some (name.length, name)

/-- BRACKETED_KEY_REGEXP. -/
def bracketedRest (rest : Text) : Option (Nat × Text) :=
  match rest with
  | '[' :: rest =>
      let name := rest.takeWhile isKeyChar
      if name ≠ [] ∧ (rest.drop name.length).head? = some ']' then some (name.length + 2, name)
      else none
  | _ => none

/-- `\[\]`. -/
def bracketsRest (rest : Text) : Option (Nat × Text) :=
  match rest with
  | '[' :: ']' :: _ => some (2, [])
  | _ => none

/-- `\[[^\]]`. -/
def openBracketRest (rest : Text) : Option (Nat × Text) :=
  match rest with
  | '[' :: c :: _ => if c = ']' then none else some (2, [])
  | _ => none

def keyRegexp : Regexp := .ofRest keyRest

def bracketedKeyRegexp : Regexp := .ofRest bracketedRest

def brackets : Regexp := .ofRest bracketsRest

def openBracket : Regexp := .ofRest openBracketRest

/-- scan and check of a runtime: the match that is found from a position. -/
abbrev Scanner := Regexp → Text → Nat → Option Match

/-- Ruby's own StringScanner. -/
def rubyScanner : Scanner := fun re s pos => re.matchAt s pos

inductive Klass where
  | array
  | hash
deriving DecidableEq

inductive Action where
  | container (key : Text) (klass : Klass)
  | bind (key : Option Text)
deriving DecidableEq

/-- What a scan was asked at a position, and its answer. -/
abbrev Scan := Nat × Option Match

/-- The scans and the actions of a key. -/
structure Plan where
  scans : List Scan
  actions : List Action
deriving DecidableEq

/-- post_key_check: the scans, the container that is added, the key that is left and the
position. -/
structure Checked where
  scans : List Scan
  actions : List Action
  key : Option Text
  pos : Nat
deriving DecidableEq

section Keys

variable (scan : Scanner) (s : Text)

def postKeyCheck (key : Text) (pos : Nat) : Checked :=
  match scan brackets s pos with
  | some m => ⟨[(pos, some m)], [.container key .array], none, m.stop⟩
  | none =>
      match scan openBracket s pos with
      | some m => ⟨[(pos, none), (pos, some m)], [.container key .hash], none, pos⟩
      | none => ⟨[(pos, none), (pos, none)], [], some key, pos⟩

/-- `until eos?`; every turn goes on in the string, so that its length is a bound for them. -/
def nestings : Nat → Option Text → Nat → Plan
  | 0, _, _ => ⟨[], []⟩
  | turns + 1, key, pos =>
      if s.length ≤ pos then ⟨[], [.bind key]⟩
      else
        match scan bracketedKeyRegexp s pos with
        | none => ⟨[(pos, none)], []⟩
        | some m =>
            let checked := postKeyCheck scan s m.group m.stop
            let rest := nestings turns checked.key checked.pos
            ⟨(pos, some m) :: checked.scans ++ rest.scans, checked.actions ++ rest.actions⟩

def keyPlan : Plan :=
  match scan keyRegexp s 0 with
  | none => ⟨[(0, none)], []⟩
  | some m =>
      let checked := postKeyCheck scan s m.group m.stop
      let rest := nestings scan s (s.length + 1) checked.key checked.pos
      ⟨(0, some m) :: checked.scans ++ rest.scans, checked.actions ++ rest.actions⟩

end Keys

/-- A value of an array or a hash. -/
inductive Val where
  | nil
  | str (text : Text)
  | ref (id : Nat)
deriving DecidableEq

abbrev Fields := AList (fun _ : Option Text => Val)

/-- An array or a hash; `indifferent` is a HashWithIndifferentAccess. -/
inductive Obj where
  | array (items : List Val)
  | hash (indifferent : Bool) (fields : Fields)

abbrev Heap := List Obj

/-- A value that is bound: the value of a pair, or a new container. -/
inductive Fresh where
  | nil
  | str (text : Text)
  | container (klass : Klass)

inductive ParseError where
  | typeConflict
  | dontKnowWhatToDo
deriving DecidableEq

/-- The objects, @top and @parent. -/
structure State where
  heap : Heap
  top : Nat
  parent : Option Nat

/-- The value as it is stored in a container; convert_value makes a new container for a
HashWithIndifferentAccess. -/
def build (indifferent : Bool) (heap : Heap) : Fresh → Heap × Val
  | .nil => (heap, .nil)
  | .str text => (heap, .str text)
  | .container .array => (heap ++ [.array []], .ref heap.length)
  | .container .hash => (heap ++ [.hash indifferent ∅], .ref heap.length)

def isA (heap : Heap) : Val → Klass → Bool
  | .ref id, .array => match heap[id]? with
      | some (.array _) => true
      | _ => false
  | .ref id, .hash => match heap[id]? with
      | some (.hash _ _) => true
      | _ => false
  | _, _ => false

/-- `top[-1]`, when it is a hash without the key. -/
def lastWithout (heap : Heap) (items : List Val) (key : Text) : Option (Nat × Bool × Fields) :=
  match items.getLast? with
  | some (.ref id) => match heap[id]? with
      | some (.hash indifferent fields) =>
          if (fields.lookup (some key)).isSome then none else some (id, indifferent, fields)
      | _ => none
  | _ => none

/-- `top << value`, with a key that is not nil. -/
def bindInArray (s : State) (items : List Val) (key : Text) (value : Fresh) : Val × State :=
  match lastWithout s.heap items key with
  | some (id, indifferent, fields) =>
      let (heap, stored) := build indifferent s.heap value
      -- a HashWithIndifferentAccess stores a copy, and the value that was given is returned
      let (heap, returned) := if indifferent then build false heap value else (heap, stored)
      (returned, { s with heap := heap.set id (.hash indifferent (fields.insert (some key) stored)) })
  | none =>
      let (heap, stored) := build true s.heap value
      let heap := heap ++ [.hash true (AList.singleton (some key) stored)]
      (stored, ⟨heap.set s.top (.array (items ++ [.ref (heap.length - 1)])), heap.length - 1,
        some s.top⟩)

/-- `parent << (@top = {}) if top.key?(key) && parent.is_a?(Array)`. -/
def replaceTop (s : State) (fields : Fields) (key : Option Text) : State :=
  match s.parent with
  | none => s
  | some parent => match s.heap[parent]? with
      | some (.array items) =>
          if (fields.lookup key).isSome then
            { s with
              heap := (s.heap ++ [Obj.hash false ∅]).set parent
                (.array (items ++ [.ref s.heap.length]))
              top := s.heap.length }
          else s
      | _ => s

/-- `top[key] ||= value; return top[key]`. -/
def bindInHash (s : State) (key : Option Text) (value : Fresh) : Except ParseError (Val × State) :=
  match s.heap[s.top]? with
  | some (.hash indifferent fields) =>
      match fields.lookup key with
      | some (.str text) => .ok (.str text, s)
      | some (.ref id) => .ok (.ref id, s)
      | _ =>
          let (heap, stored) := build indifferent s.heap value
          .ok (stored, { s with heap := heap.set s.top (.hash indifferent (fields.insert key stored)) })
  | _ => .error .dontKnowWhatToDo

def bind (key : Option Text) (value : Fresh) (s : State) : Except ParseError (Val × State) :=
  match s.heap[s.top]? with
  | some (.array items) =>
      match key with
      | some key => .ok (bindInArray s items key value)
      | none =>
          let (heap, stored) := build false s.heap value
          .ok (stored, { s with heap := heap.set s.top (.array (items ++ [stored])) })
  | some (.hash _ fields) => bindInHash (replaceTop s fields key) key value
  | none => .error .dontKnowWhatToDo

/-- `top.is_a?(Hash) && top.key?(key) && ! top[key].is_a?(klass)`. -/
def conflicts (s : State) (key : Text) (klass : Klass) : Bool :=
  match s.heap[s.top]? with
  | some (.hash _ fields) => match fields.lookup (some key) with
      | some value => !isA s.heap value klass
      | none => false
  | _ => false

def container (key : Text) (klass : Klass) (s : State) : Except ParseError State :=
  if conflicts s key klass then .error .typeConflict
  else do
    let (value, s) ← bind (some key) (.container klass) s
    match value with
    | .ref id =>
        if isA s.heap (.ref id) klass then .ok { s with top := id, parent := some s.top }
        else .error .typeConflict
    | _ => .error .typeConflict

/-- The value of a pair. -/
def valueOf : Option Text → Fresh
  | none => .nil
  | some text => .str text

def perform (value : Option Text) (s : State) : Action → Except ParseError State
  | .container key klass => container key klass s
  | .bind key => do
      let (_, s) ← bind key (valueOf value) s
      .ok s

abbrev Pair := Text × Option Text

def parse (scan : Scanner) (heap : Heap) (pair : Pair) : Except ParseError Heap := do
  let s ← (keyPlan scan pair.1).actions.foldlM (perform pair.2) ⟨heap, 0, none⟩
  .ok s.heap

/-- The objects of the result; the first one is the result. -/
def parsePairs (scan : Scanner) (pairs : List Pair) : Except ParseError Heap :=
  pairs.foldlM (parse scan) [.hash false ∅]

section Query

def isHexDigit (c : Char) : Bool :=
  c.isDigit || ('a' ≤ c && c ≤ 'f') || ('A' ≤ c && c ≤ 'F')

def hexValue (c : Char) : Nat :=
  if c.isDigit then c.toNat - '0'.toNat
  else if 'a' ≤ c then c.toNat - 'a'.toNat + 10
  else c.toNat - 'A'.toNat + 10

/-- The character that an escape stands for has the byte as its code. -/
def unescape : Text → Text
  | '%' :: a :: b :: rest =>
      if isHexDigit a ∧ isHexDigit b then Char.ofNat (16 * hexValue a + hexValue b) :: unescape rest
      else '%' :: unescape (a :: b :: rest)
  | c :: rest => c :: unescape rest
  | [] => []

def unescapeForm (str : Text) : Text := unescape (str.map (fun c => if c = '+' then ' ' else c))

/-- A chunk as a pair, unless it is empty or has no key. -/
def pairOf (chunk : Text) : Option Pair :=
  let key := chunk.takeWhile (fun c => c ≠ '=')
  if key = [] then none
  else some (unescapeForm key,
    if '=' ∈ chunk then some (unescapeForm (chunk.drop (key.length + 1))) else none)

def parseQueryParameters (scan : Scanner) (query : Text) : Except ParseError Heap :=
  parsePairs scan ((query.splitOn '&').filterMap pairOf)

end Query

end Rhodes.PairParser
