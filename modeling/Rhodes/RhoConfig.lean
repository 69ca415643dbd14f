import Rhodes.SettingsRoundTrip

/-!
The three readers of rhoconfig.txt: RhoSettings::loadFromString, RhoConf.loadFromString and
process_rhoconfig of rho.rb, the last one where RHO_ME is not defined. A configuration text
is a list of lines; each reader takes it line by line, and what a reader has for a key in
the end is what the last line says that assigns the key for this reader.
-/
namespace Rhodes.Settings

namespace Ruby

/-- `\s`. -/
def isSpace (c : Char) : Bool := Tokenizer.isSpace c

/-- String#strip; NUL is taken off at the end only. -/
def strip (s : Text) : Text := (s.dropWhile isSpace).rdropWhile (fun c => isSpace c || c = nul)

/-- The lines of File#each, from the pieces between the line feeds. -/
def eachLine : List Text → List Text
  | [] => []
  | [last] => if last = [] then [] else [last]
  | line :: next :: more => (line ++ ['\n']) :: eachLine (next :: more)

def chomp (line : Text) : Text :=
  dropCR (if line.getLast? = some '\n' then line.dropLast else line)

/-- `line =~ /^\s*(#|$)/`, where a line feed is at most at the end of the line. -/
def isSkipped (line : Text) : Bool :=
  match line.dropWhile isSpace with
  | [] => true
  | c :: _ => c = '#'

/-- `split('=')`: empty parts at the end are left out. -/
def splitEquals (s : Text) : List Text := (s.splitOn '=').rdropWhile (fun part => part = [])

def isQuote (c : Char) : Bool := c = '\'' || c = '"'

/-- The value of a part; `none` is nil. -/
def partValue (part : Text) : Option Text :=
  let val := (strip part).filter (fun c => !isQuote c)
  if val = ['n', 'i', 'l'] then none else some val

def readLine (line : Text) : Option (Text × Option Text) :=
  if isSkipped line then none
  else
    let parts := splitEquals (chomp line)
    match parts[0]?, parts[1]? with
    | some key, some value => some (strip key, partValue value)
    | _, _ => none

def addConfig (config : Table (Option Text)) (line : Text) : Table (Option Text) :=
  match readLine line with
  | none => config
  | some (key, value) => config.insert key value

def processRhoconfig (text : Text) (config : Table (Option Text)) : Table (Option Text) :=
  (eachLine (text.splitOn '\n')).foldl addConfig config

end Ruby

/-- A line of rhoconfig.txt. The last two are malformed. -/
inductive Line where
  | blank (text : Text)
  | comment (text : Text)
  | assign (key : Text) (before after : Nat) (value : Text)
  | noEquals (text : Text)
  | loneQuote (key : Text) (before after : Nat)
deriving DecidableEq

namespace Line

def text : Line → Text
  | blank text => text
  | comment text => '#' :: text
  | assign key before after value => assignment key before after value
  | noEquals text => text
  | loneQuote key before after =>
      key ++ List.replicate before ' ' ++ '=' :: List.replicate after ' ' ++ ['\'']

/-- What can be on a line. -/
def Valid : Line → Prop
  | blank text => ∀ c ∈ text, c = ' ' ∨ c = '\t'
  | comment text => IsValue text
  | assign key _ _ value => IsName key ∧ '\r' ∉ key ∧ IsValue value ∧ ∀ c ∈ value, Ruby.isQuote c = false
  | noEquals text => IsValue text ∧ '=' ∉ text ∧ Java.trim text ≠ [] ∧
      (Java.trim text).head? ≠ some '#'
  | loneQuote key _ _ => IsName key ∧ '\r' ∉ key

def wellFormed : Line → Bool
  | noEquals _ => false
  | loneQuote _ _ _ => false
  | _ => true

def isLoneQuote : Line → Bool
  | loneQuote _ _ _ => true
  | _ => false

/-- The key and the value of an assignment. -/
def assigned : Line → Option (Text × Text)
  | assign key _ _ value => some (key, value)
  | _ => none

/-- As `assigned`, where a lone quote stands for the empty value. -/
def assignedOrQuote : Line → Option (Text × Text)
  | loneQuote key _ _ => some (key, [])
  | line => assigned line

/-- As `assigned`, where a line without '=' is a key with the empty value. -/
def assignedOrName : Line → Option (Text × Text)
  | noEquals text => some (Java.trim text, [])
  | line => assigned line

end Line

/-- A configuration text; the last line is not ended. -/
def configText (newline : Text) (lines : List Line) : Text :=
  newline.intercalate (lines.map Line.text)

/-- The values that the readers have after a text, for each key. -/
def cppValue (newline : Text) (lines : List Line) (key : Text) : Option Text :=
  (Cpp.loadFromString (configText newline lines) ∅).bind (fun values => values.lookup key)

/-- The table, also when an exception has left the method. -/
def Java.tableAfter : Except (Table Text) (Table Text) → Table Text
  | .ok values => values
  | .error values => values

def javaValue (newline : Text) (lines : List Line) (key : Text) : Option Text :=
  (Java.tableAfter (Java.loadFromString (configText newline lines) ∅)).lookup key

def rubyValue (newline : Text) (lines : List Line) (key : Text) : Option (Option Text) :=
  (Ruby.processRhoconfig (configText newline lines) ∅).lookup key

/-- The readers have the same keys and values after the well-formed lines, and the malformed
lines change the value of no key that a well-formed line assigns. -/
def ReadersAgree (newline : Text) (lines : List Line) : Prop :=
  (∀ key, cppValue newline (lines.filter Line.wellFormed) key
      = javaValue newline (lines.filter Line.wellFormed) key ∧
    rubyValue newline (lines.filter Line.wellFormed) key
      = (javaValue newline (lines.filter Line.wellFormed) key).map some) ∧
  ∀ key before after value, Line.assign key before after value ∈ lines →
    cppValue newline lines key = cppValue newline (lines.filter Line.wellFormed) key ∧
    javaValue newline lines key = javaValue newline (lines.filter Line.wellFormed) key ∧
    rubyValue newline lines key = rubyValue newline (lines.filter Line.wellFormed) key

end Rhodes.Settings
