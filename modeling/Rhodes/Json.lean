import Mathlib.Algebra.Group.Int.Defs
import Mathlib.Algebra.Group.Nat.Even
import Mathlib.Data.List.Basic

/-!
The parsed JSON tree of the server's answers and the accessors of CJSONEntry and
CJSONArrayIterator. The parser represents null by a null pointer, so an absent
name and a null member look alike. A number read through an accessor is cut to
the accessor's width; a string member read as a number goes through `%lli`, and
a member read as a string is printed when it is not a string. A name looked up
in something that is not an object is absent (in C it would not be valid).
-/
namespace Rhodes.Json

/-- A `struct json_object`; the fields of an object carry distinct names. A
double is kept as it is printed, with its integer part. -/
inductive JsonObject where
  | null
  | boolean (b : Bool)
  | double (text : String) (trunc : Int)
  | int (n : Int)
  | string (s : String)
  | array (items : List JsonObject)
  | object (fields : List (String × JsonObject))

/-- The escapes of `json_escape_str`. -/
def escapeChar (c : Char) : String :=
  if c = '\n' then "\\n" else if c = '\r' then "\\r" else if c = '\t' then "\\t"
  else if c.toNat = 8 then "\\b" else if c = '"' then "\\\"" else if c = '\\' then "\\\\"
  else if c = '/' then "\\/"
  else if c.toNat < 32 then
    "\\u00" ++ String.ofList [Nat.digitChar (c.toNat / 16), Nat.digitChar (c.toNat % 16)]
  else String.ofList [c]

def escapeStr (s : String) : String := String.join (s.toList.map escapeChar)

mutual

/-- `json_object_to_json_string`. -/
def toJsonString : JsonObject → String
  | .null => "null"
  | .boolean b => if b then "true" else "false"
  | .double text _ => text
  | .int n => toString n
  | .string s => "\"" ++ escapeStr s ++ "\""
  | .array items => "[" ++ itemsToString true items ++ " ]"
  | .object fields => "\x7b" ++ fieldsToString true fields ++ " \x7d"

def itemsToString (first : Bool) : List JsonObject → String
  | [] => ""
  | item :: rest => (if first then " " else ", ") ++ toJsonString item ++ itemsToString false rest

def fieldsToString (first : Bool) : List (String × JsonObject) → String
  | [] => ""
  | (name, item) :: rest =>
      (if first then " \"" else ", \"") ++ escapeStr name ++ "\": " ++ toJsonString item ++
        fieldsToString false rest

end

def digitVal (c : Char) : Nat :=
  if '0' ≤ c ∧ c ≤ '9' then c.toNat - '0'.toNat
  else if 'a' ≤ c ∧ c ≤ 'f' then c.toNat - 'a'.toNat + 10
  else if 'A' ≤ c ∧ c ≤ 'F' then c.toNat - 'A'.toNat + 10
  else 16

/-- The number a list of digits of the given base starts with, if there is one. -/
def scanDigits (base : Nat) (cs : List Char) : Option Nat :=
  match cs.takeWhile (fun c => digitVal c < base) with
  | [] => none
  | ds => some (ds.foldl (fun n c => n * base + digitVal c) 0)

def scanUnsigned : List Char → Option Nat
  | '0' :: 'x' :: rest => scanDigits 16 rest
  | '0' :: 'X' :: rest => scanDigits 16 rest
  | '0' :: rest => scanDigits 8 ('0' :: rest)
  | cs => scanDigits 10 cs

/-- `isspace`. -/
def isSpace (c : Char) : Bool := c = ' ' || (9 ≤ c.toNat && c.toNat ≤ 13)

/-- A number out of range is read as the nearest one in it. -/
def clamp (n : Int) : Int := max (-2 ^ 63) (min n (2 ^ 63 - 1))

/-- `sscanf(s, "%lli")`. -/
def scanLli (s : String) : Option Int :=
  match s.toList.dropWhile isSpace with
  | '-' :: rest => (scanUnsigned rest).map (fun n : Nat => clamp (-n))
  | '+' :: rest => (scanUnsigned rest).map (fun n : Nat => clamp n)
  | cs => (scanUnsigned cs).map (fun n : Nat => clamp n)

theorem clamp_bounds (n : Int) : -2 ^ 63 ≤ clamp n ∧ clamp n < 2 ^ 63 := by
  rw [clamp]
  omega

theorem clamp_of_bounds {n : Int} (hmin : -2 ^ 63 ≤ n) (hmax : n < 2 ^ 63) : clamp n = n := by
  rw [clamp]
  omega

theorem scanLli_bounds {s : String} {n : Int} (h : scanLli s = some n) :
    -2 ^ 63 ≤ n ∧ n < 2 ^ 63 := by
  unfold scanLli at h
  split at h <;>
  · obtain ⟨m, -, rfl⟩ := Option.map_eq_some_iff.mp h
    exact clamp_bounds _

namespace JsonObject

def isEmpty : JsonObject → Bool
  | null => true
  | _ => false

/-- `json_object_object_get`. -/
def getEntry (j : JsonObject) (name : String) : JsonObject :=
  match j with
  | object fields => (fields.lookup name).getD null
  | _ => null

def hasName (j : JsonObject) (name : String) : Bool := !(j.getEntry name).isEmpty

/-- `json_object_get_int`. -/
def toInt : JsonObject → Int
  | int n => n
  | double _ n => n
  | boolean b => if b then 1 else 0
  | string s => (scanLli s).getD 0
  | _ => 0

/-- The result is cut to an `int`. -/
def getInt (j : JsonObject) (name : String) : Int := (j.getEntry name).toInt.bmod (2 ^ 32)

def getUInt64 (j : JsonObject) (name : String) : UInt64 := UInt64.ofInt (j.getEntry name).toInt

/-- `none` is the null pointer. -/
def getString (j : JsonObject) (name : String) : Option String :=
  match j.getEntry name with
  | null => none
  | string s => some s
  | other => some (toJsonString other)

/-- A String built from `getString`. Only an object that has the name may be read so: C++ gives the
null pointer of a missing one to the String, which ends the program, and here it is empty. -/
def getStr (j : JsonObject) (name : String) : String := (j.getString name).getD ""

/-- The items a CJSONArrayIterator walks over; none when it is not an array. -/
def items : JsonObject → List JsonObject
  | array l => l
  | _ => []

def getArray (j : JsonObject) (name : String) : List JsonObject := (j.getEntry name).items

end JsonObject

end Rhodes.Json
