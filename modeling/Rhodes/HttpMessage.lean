import Mathlib.Data.List.Basic

/-!
HTTPParseRequest of HttpMessage.c with the receive buffer of its context. A byte is the character
of its number. sscanf reads the version from the receive buffer, which has no NUL at its end: what
memory has behind so many received bytes is `behind`, and `dateToEpoch` is date_to_epoch.
-/
namespace Rhodes.HttpMessage

abbrev Text := List Char

section Characters

def isprint (c : Char) : Bool := 32 ≤ c.toNat && c.toNat ≤ 126

def isspace (c : Char) : Bool := c = ' ' || (9 ≤ c.toNat && c.toNat ≤ 13)

def tolower (c : Char) : Char := if 'A' ≤ c ∧ c ≤ 'Z' then Char.ofNat (c.toNat + 32) else c

/-- The greatest unsigned long of the device. -/
def ulongMax : Nat := 4294967295

/-- The sign in front of a number. -/
def signOf (t : Text) : Bool × Text :=
  match t with
  | '-' :: t => (true, t)
  | '+' :: t => (false, t)
  | t => (false, t)

/-- A number as strtoul returns it; a minus sign negates the unsigned number. -/
def ulongOf (minus : Bool) (n : Nat) : Nat :=
  if ulongMax < n then ulongMax
  else if minus then (ulongMax + 1 - n) % (ulongMax + 1) else n

/-- strtoul and the conversion %lu: the number and what is behind it, `none` without a digit. -/
def scanUlong (t : Text) : Option (Nat × Text) :=
  let (minus, t) := signOf (t.dropWhile isspace)
  let digits := t.takeWhile Char.isDigit
  if digits = [] then none
  else some (ulongOf minus (Nat.ofDigitChars 10 digits 0), t.dropWhile Char.isDigit)

def strtoul (t : Text) : Nat := ((scanUlong t).map Prod.fst).getD 0

/-- The numbers that sscanf reads with "HTTP/%lu.%lu". -/
def scanVersion (t : Text) : List Nat :=
  match t with
  | 'H' :: 'T' :: 'T' :: 'P' :: '/' :: t =>
    match scanUlong t with
    | none => []
    | some (major, '.' :: t) => major :: ((scanUlong t).map Prod.fst).toList
    | some (major, _) => [major]
  | _ => []

end Characters

section HeadersLen

/-- Control characters are not allowed but 128 and above are. -/
def isAllowed (c : Char) : Bool := isprint c || c = '\r' || c = '\n' || 128 ≤ c.toNat

/-- The loop of _HttpGetHeadersLen from a position on; the last byte is only looked ahead to. -/
def headersLenFrom (pos : Nat) : Text → Int
  | [] => 0
  | [_] => 0
  | c :: d :: rest =>
    if isAllowed c = false then -1
    else if c = '\n' ∧ d = '\n' then pos + 2
    else if c = '\n' ∧ d = '\r' ∧ rest.head? = some '\n' then pos + 3
    else headersLenFrom (pos + 1) (d :: rest)

def httpGetHeadersLen (buf : Text) : Int := headersLenFrom 0 buf

end HeadersLen

section Headers

inductive HeaderType where
  | date
  | int
  | string
  deriving DecidableEq

inductive HeaderValue where
  | date (time : Int)
  | int (n : Nat)
  | string (vec : Text)
  deriving DecidableEq

def httpHeaders : List (HeaderType × String) :=
  [(.int, "Content-Length: "), (.string, "Content-Type: "), (.string, "User-Agent: "),
    (.date, "If-Modified-Since: "), (.string, "Authorization: "), (.string, "Referer: "),
    (.string, "Cookie: "), (.string, "Location: "), (.int, "Status: "), (.string, "Range: "),
    (.string, "Connection: "), (.string, "Transfer-Encoding: "), (.string, "Accept: "),
    (.string, "Accept-Encoding: "), (.string, "Accept-Language: "), (.string, "Host: "),
    (.string, "X-Requested-With: ")]

/-- The parsed headers by their names. -/
abbrev Headers := List (String × HeaderValue)

/-- `e - s > h->len && !_strncasecmp(s, h->name, h->len)` -/
def isHeader (s : Text) (h : HeaderType × String) : Bool :=
  h.2.length < s.length && (s.take h.2.length).map tolower = h.2.toList.map tolower

/-- The value of a header whose name takes `len` bytes of the line. -/
def headerValue (dateToEpoch : Text → Int) (type : HeaderType) (len : Nat) (line s : Text) :
    HeaderValue :=
  match type with
  | .string =>
    let vec := line.drop len
    .string (if line.getLast? = some '\r' ∧ vec.length > 0 then vec.dropLast else vec)
  | .int => .int (strtoul (s.drop len))
  | .date => .date (dateToEpoch (s.drop len))

/-- _HTTPParseHeaders; each turn takes a line, so the length is enough for the turns. -/
def parseHeaders (dateToEpoch : Text → Int) : Nat → Text → Headers → Headers
  | 0, _, parsed => parsed
  | _ + 1, [], parsed => parsed
  | turns + 1, s, parsed =>
    let line := s.takeWhile (fun c => c ≠ '\n')
    parseHeaders dateToEpoch turns (s.drop (line.length + 1))
      (match httpHeaders.find? (isHeader s) with
        | none => parsed
        | some (type, name) =>
          (name, headerValue dateToEpoch type name.length line s) ::
            parsed.filter (fun h => h.1 ≠ name))

/-- The turns do not run out before the text does. -/
theorem parseHeaders_turns (dateToEpoch : Text → Int) (turns : Nat) {more : Nat} {s : Text}
    (parsed : Headers) (hturns : s.length ≤ turns) (hmore : s.length ≤ more) :
    parseHeaders dateToEpoch turns s parsed = parseHeaders dateToEpoch more s parsed := by
  induction turns generalizing more s parsed with
  | zero =>
    cases List.eq_nil_of_length_eq_zero (Nat.le_zero.mp hturns)
    cases more <;> rfl
  | succ turns ih =>
    cases s with
    | nil => cases more <;> rfl
    | cons c s =>
      cases more with
      | zero => exact absurd hmore (Nat.not_succ_le_zero _)
      | succ more =>
        have hshort : ∀ n, ((c :: s).drop (n + 1)).length ≤ s.length := by
          intro n
          rw [List.length_drop, List.length_cons]
          omega
        rw [List.length_cons] at hturns hmore
        exact ih _ (Nat.le_trans (hshort _) (Nat.le_of_succ_le_succ hturns))
          (Nat.le_trans (hshort _) (Nat.le_of_succ_le_succ hmore))

/-- `_cheaders.cl._v.v_big_int`, which is 0 at first. -/
def contentLength (headers : Headers) : Nat :=
  match headers.lookup "Content-Length: " with
  | some (.int n) => n
  | _ => 0

end Headers

section Message

structure HttpRequest where
  headersParsed : Bool := false
  majorVersion : Nat := 0
  minorVersion : Nat := 0
  method : Nat := 0
  uri : Text := []
  headers : Headers := []

/-- The receive buffer, the errors that were sent and the request. -/
structure HttpContext where
  rcvdBytes : Text := []
  errors : List (Nat × String) := []
  request : HttpRequest := {}

def HttpContext.sendError (c : HttpContext) (status : Nat) (reason : String) : Int × HttpContext :=
  (-1, { c with errors := c.errors ++ [(status, reason)] })

def knownHttpMethods : List String := ["GET", "POST", "PUT", "DELETE", "HEAD"]

/-- The number of the method that the buffer begins with. -/
def requestMethod (buf : Text) : Option Nat :=
  knownHttpMethods.findIdx? (fun v => v.toList.isPrefixOf buf)

/-- The URI stands between the spaces behind the method and the next white space. -/
def uriStart (head : Text) : Text :=
  (head.dropWhile (fun c => c ≠ ' ')).dropWhile (fun c => c = ' ')

def uriOf (head : Text) : Text := (uriStart head).takeWhile (fun c => !isspace c)

/-- What follows the URI and its spaces. -/
def versionStart (head : Text) : Text :=
  ((uriStart head).dropWhile (fun c => !isspace c)).dropWhile (fun c => c = ' ')

/-- What follows the first line and its white space. -/
def headersStart (head : Text) : Text :=
  ((versionStart head).dropWhile (fun c => c ≠ '\n')).dropWhile isspace

variable (behind : Nat → Text) (dateToEpoch : Text → Int)

/-- The text that sscanf reads the version from. -/
def versionText (buf : Text) (reqLen : Nat) : Text :=
  (versionStart (buf.take reqLen) ++ buf.drop reqLen ++ behind buf.length).takeWhile
    (fun c => c ≠ '\x00')

/-- _HTTPParseMessage -/
def parseMessage (c : HttpContext) : Int × HttpContext :=
  let buf := c.rcvdBytes
  let reqLen := httpGetHeadersLen buf
  if reqLen = 0 then
    if buf.length > 2048 then c.sendError 400 "Request is too big" else (0, c)
  else if reqLen < 16 then c.sendError 400 "Bad request"
  else match requestMethod buf with
    | none => c.sendError 501 "Method Not Implemented"
    | some method =>
      let head := buf.take reqLen.toNat
      let c := { c with request.method := method, request.uri := uriOf head }
      match scanVersion (versionText behind buf reqLen.toNat) with
      | [major, minor] =>
        let c := { c with request.majorVersion := major, request.minorVersion := minor }
        if major > 1 ∨ (major = 1 ∧ minor > 1) then c.sendError 505 "HTTP version not supported"
        else if uriOf head = [] then c.sendError 400 "Bad URI"
        else
          let headers := headersStart head
          (1, { c with
            request.headers := parseHeaders dateToEpoch headers.length headers c.request.headers
            request.headersParsed := true
            rcvdBytes := buf.drop reqLen.toNat })
      | read =>
        { c with request.majorVersion := read.headD c.request.majorVersion }.sendError 400
          "Bad HTTP version"

/-- 1 if the message is received, 0 if a part of it is not here yet, -1 in case of an error. -/
def HTTPParseRequest (c : HttpContext) : Int × HttpContext :=
  let (ret, c) := if c.request.headersParsed then (1, c) else parseMessage behind dateToEpoch c
  if ret = 1 ∧ c.request.headersParsed = true then
    (if contentLength c.request.headers ≤ c.rcvdBytes.length then 1 else 0, c)
  else (ret, c)

end Message

end Rhodes.HttpMessage
