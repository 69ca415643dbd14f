import Mathlib.Logic.Relation

/-!
URI::urlEncode of URI.cpp, on the bytes of a std::string. A char is signed, as on the
target compilers.
-/
namespace Rhodes.Uri

/-- A byte as a char. -/
def signedChar (b : UInt8) : Int := if b.toNat < 128 then b.toNat else (b.toNat : Int) - 256

/-- The digits are written from the end of a buffer; the sign comes first. -/
def toHexString (i : Int) (radix : Nat) : List Char :=
  (if i < 0 then ['-'] else []) ++ Nat.toDigits radix i.natAbs

def isPlain (b : UInt8) : Bool :=
  let c := Char.ofNat b.toNat
  c = '^' || c = '_' || c = '\\' || c = '-' || c = '.' || ('A' ≤ c && c ≤ 'Z') ||
    ('a' ≤ c && c ≤ 'z') || ('0' ≤ c && c ≤ '9')

def escape (b : UInt8) : List Char :=
  '%' :: (if signedChar b > 15 then [] else ['0']) ++ toHexString (signedChar b) 16

def asciiText (bytes : List UInt8) : List Char := bytes.map (fun b => Char.ofNat b.toNat)

/-- The loop of urlEncode: `before` is fullPath.substr(0,index), copied when the first
char is escaped. -/
def urlEncodeLoop (before : List UInt8) : List UInt8 → Bool → List Char → List Char
  | [], bFound, strRes => if bFound then strRes else strRes ++ asciiText before
  | c :: rest, bFound, strRes =>
      if isPlain c then
        urlEncodeLoop (before ++ [c]) rest bFound (if bFound then strRes ++ asciiText [c] else strRes)
      else
        urlEncodeLoop (before ++ [c]) rest true
          ((if bFound then strRes else strRes ++ asciiText before) ++ escape c)

def urlEncode (fullPath : List UInt8) (strRes : List Char) : List Char :=
  urlEncodeLoop [] fullPath false strRes

/-- The text that urlEncode appends for a string. -/
def urlEncoded (s : String) : String :=
  String.ofList (urlEncode (s.toList.flatMap String.utf8EncodeChar) [])

example : urlEncoded "Server is not responding." = "Server%20is%20not%20responding." := by
  decide +kernel

end Rhodes.Uri
