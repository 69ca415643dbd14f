import Mathlib.Data.List.Basic
import Rhodes.Arrays

/-!
RhoLogFileSink.java with its two files. The position of a log that has gone round is decimal text
that is written over the text before it, and it advances by the characters of a message while the
file advances by its bytes. It survives as long as no position has fewer digits than the text in
the file, each message has as many bytes as characters, and the positions are ints.
-/
namespace Rhodes.JavaLogSink

open Arrays (toInt splice)

/-- A Java text: its UTF-16 units. -/
abbrev Text := List Nat

/-- The files under the two paths, when they exist. -/
structure Disk where
  log : Option (List UInt8)
  logPos : Option (List Char)
  deriving DecidableEq

/-- m_pPosFile is opened with m_pFile. -/
structure Sink where
  opened : Bool
  nCirclePos : Int
  nFileLogSize : Int
  deriving DecidableEq

def Sink.create : Sink := ⟨false, -1, 0⟩

/-- The files and the sink; `lastEnd` is the offset behind the bytes of the last message and
`saved` the position that saveLogPosition wrote last, which are not in the source. -/
structure System where
  disk : Disk
  sink : Sink
  lastEnd : Option Int
  saved : Option Int
  deriving DecidableEq

def System.create : System := ⟨⟨none, none⟩, Sink.create, none, none⟩

/-- Integer.parseInt; `none` where it throws. -/
def parseInt (s : List Char) : Option Int :=
  let (minus, digits) := match s with
    | '-' :: digits => (true, digits)
    | digits => (false, digits)
  let n : Int := if minus then -Nat.ofDigitChars 10 digits 0 else Nat.ofDigitChars 10 digits 0
  if digits ≠ [] ∧ digits.all Char.isDigit = true ∧ toInt n = n then some n else none

def getCurPos (s : System) : Int :=
  if 0 ≤ s.sink.nCirclePos then s.sink.nCirclePos else s.sink.nFileLogSize

/-- The flag tells whether the call returns. -/
def loadLogPosition (s : System) : Bool × System :=
  let strPos := s.disk.logPos.getD []
  let s := { s with disk.logPos := some strPos }
  if strPos.length > 0 then
    match parseInt strPos with
    | none => (false, s)
    | some n => (true, { s with sink.nCirclePos := n })
  else (true, s)

/-- m_pFile is opened, and created where it does not exist. -/
def createFile (s : System) : System :=
  let log := s.disk.log.getD []
  { s with disk.log := some log, sink.opened := true, sink.nFileLogSize := toInt log.length }

def openFile (s : System) : Bool × System :=
  if s.sink.opened then (true, s) else loadLogPosition (createFile s)

/-- The log goes round when the message does not fit behind the position. -/
def moveToStart (maxLogFileSize : Int) (len : Nat) (s : System) : System :=
  if 0 < maxLogFileSize ∧
      ((0 ≤ s.sink.nCirclePos ∧ maxLogFileSize < toInt (s.sink.nCirclePos + len)) ∨
        (s.sink.nCirclePos < 0 ∧ maxLogFileSize < toInt (s.sink.nFileLogSize + len))) then
    { s with sink.nFileLogSize := 0, sink.nCirclePos := 0 }
  else s

/-- SimpleFile.write fills the file up to the position with zeros. -/
def writeAt (file : List UInt8) (pos : Nat) (bytes : List UInt8) : List UInt8 :=
  splice (file ++ List.replicate (pos - file.length) 0) pos bytes

def writeFile (bytes : List UInt8) (s : System) : System :=
  { s with
    disk.log := some (writeAt (s.disk.log.getD []) (getCurPos s).toNat bytes)
    lastEnd := some (getCurPos s + bytes.length) }

def countWritten (len : Nat) (s : System) : System :=
  if 0 ≤ s.sink.nCirclePos then { s with sink.nCirclePos := toInt (s.sink.nCirclePos + len) }
  else { s with sink.nFileLogSize := toInt (s.sink.nFileLogSize + len) }

def saveLogPosition (s : System) : System :=
  if s.sink.nCirclePos < 0 then s
  else
    let strPos := Nat.toDigits 10 s.sink.nCirclePos.toNat
    { s with
      disk.logPos := some (splice (s.disk.logPos.getD []) 0 strPos)
      saved := some s.sink.nCirclePos }

/-- What is thrown is caught, where the position is no number and where it is negative. -/
def writeLogMessage (maxLogFileSize : Int) (getBytes : Text → List UInt8) (strMsg : Text)
    (s : System) : System :=
  match openFile s with
  | (false, s) => s
  | (true, s) =>
    let s := moveToStart maxLogFileSize strMsg.length s
    if getCurPos s < 0 then s
    else saveLogPosition (countWritten strMsg.length (writeFile (getBytes strMsg) s))

/-- The process ends, and another one begins. -/
def restart (s : System) : System := { s with sink := Sink.create }

inductive Event where
  | write (strMsg : Text)
  | restart

def step (maxLogFileSize : Int) (getBytes : Text → List UInt8) (s : System) : Event → System
  | .write strMsg => writeLogMessage maxLogFileSize getBytes strMsg s
  | .restart => restart s

def run (maxLogFileSize : Int) (getBytes : Text → List UInt8) (events : List Event) (s : System) :
    System := events.foldl (step maxLogFileSize getBytes) s

/-- The position that a message is written behind. -/
def position (s : System) : Int := getCurPos (openFile s).2

/-- A process that starts now loads the position that was saved last, and messages go on behind
the bytes of the last one. -/
structure Survives (s : System) : Prop where
  loaded : ∀ p, s.saved = some p → (loadLogPosition (restart s)).1 = true ∧
    (loadLogPosition (restart s)).2.sink.nCirclePos = p
  behind : ∀ p, s.saved = some p → s.lastEnd = some p
  current : ∀ e, s.lastEnd = some e → position s = e

/-- The position behind a message of some length. -/
def nextPos (maxLogFileSize : Int) (len : Nat) (pos : Int) : Int :=
  if 0 < maxLogFileSize ∧ maxLogFileSize < pos + len then len else pos + len

/-- What a message has to find: it has as many bytes as characters, the position behind it is an
int, and that has as many digits as the file of the position has. -/
structure Meets (maxLogFileSize : Int) (getBytes : Text → List UInt8) (strMsg : Text)
    (s : System) : Prop where
  bytes : (getBytes strMsg).length = strMsg.length
  int : toInt (position s + strMsg.length) = position s + strMsg.length
  digits : (s.disk.logPos.getD []).length ≤
    (Nat.toDigits 10 (nextPos maxLogFileSize strMsg.length (position s)).toNat).length

def MetAll (maxLogFileSize : Int) (getBytes : Text → List UInt8) : List Event → System → Prop
  | [], _ => True
  | .restart :: events, s => MetAll maxLogFileSize getBytes events (restart s)
  | .write strMsg :: events, s => Meets maxLogFileSize getBytes strMsg s ∧
      MetAll maxLogFileSize getBytes events (writeLogMessage maxLogFileSize getBytes strMsg s)

instance (maxLogFileSize : Int) (getBytes : Text → List UInt8) (strMsg : Text) (s : System) :
    Decidable (Meets maxLogFileSize getBytes strMsg s) :=
  decidable_of_iff (_ ∧ _ ∧ _) ⟨fun h => ⟨h.1, h.2.1, h.2.2⟩, fun h => ⟨h.bytes, h.int, h.digits⟩⟩

instance decidableMetAll (maxLogFileSize : Int) (getBytes : Text → List UInt8) :
    (events : List Event) → (s : System) → Decidable (MetAll maxLogFileSize getBytes events s)
  | [], _ => .isTrue trivial
  | .restart :: events, s => decidableMetAll maxLogFileSize getBytes events (restart s)
  | .write strMsg :: events, s =>
    have := decidableMetAll maxLogFileSize getBytes events
      (writeLogMessage maxLogFileSize getBytes strMsg s)
    inferInstanceAs (Decidable (_ ∧ _))

section Invariant

/-- The log has not gone round. -/
structure Linear (s : System) : Prop where
  logPos : s.disk.logPos.getD [] = []
  saved : s.saved = none
  int : toInt (s.disk.log.getD []).length = (s.disk.log.getD []).length
  lastEnd : ∀ e, s.lastEnd = some e → e = (s.disk.log.getD []).length
  sink : s.sink = Sink.create ∨ s.sink = ⟨true, -1, (s.disk.log.getD []).length⟩

/-- The log has gone round, and p is its position. -/
structure Circular (s : System) (p : Nat) : Prop where
  logPos : s.disk.logPos = some (Nat.toDigits 10 p)
  saved : s.saved = some p
  int : toInt p = p
  lastEnd : s.lastEnd = some p
  sink : s.sink = Sink.create ∨ (s.sink.opened = true ∧ s.sink.nCirclePos = p)

def Inv (s : System) : Prop := Linear s ∨ ∃ p, Circular s p

variable {s : System} {p : Nat}

theorem parseInt_toDigits (hp : toInt p = p) : parseInt (Nat.toDigits 10 p) = some (p : Int) := by
  have hdigits : ∀ c ∈ Nat.toDigits 10 p, c.isDigit = true :=
    fun c hc => Nat.isDigit_of_mem_toDigits (by decide) (by decide) hc
  have hsign : (match Nat.toDigits 10 p with
      | '-' :: digits => (true, digits)
      | digits => (false, digits)) = (false, Nat.toDigits 10 p) := by
    split
    · rename_i digits heq
      exact absurd (hdigits '-' (heq ▸ List.mem_cons_self)) (by decide)
    · rfl
  unfold parseInt
  rw [hsign]
  dsimp only
  rw [if_neg Bool.false_ne_true, Nat.ofDigitChars_ten_toDigits]
  exact if_pos ⟨Nat.toDigits_ne_nil, List.all_eq_true.mpr hdigits, hp⟩

/-- The position is read back. -/
theorem loadLogPosition_digits (hlogPos : s.disk.logPos = some (Nat.toDigits 10 p))
    (hp : toInt p = p) : loadLogPosition s = (true, { s with sink.nCirclePos := p }) := by
  obtain ⟨⟨log, logPos⟩, sink, lastEnd, saved⟩ := s
  cases hlogPos
  unfold loadLogPosition
  dsimp only [Option.getD_some]
  rw [if_pos (List.length_pos_iff.mpr Nat.toDigits_ne_nil), parseInt_toDigits hp]

theorem loadLogPosition_nil (hlogPos : s.disk.logPos.getD [] = []) :
    loadLogPosition s = (true, { s with disk.logPos := some [] }) := by
  unfold loadLogPosition
  rw [hlogPos]
  rfl

theorem toInt_of_le {a b : Int} (hb : toInt b = b) (ha : 0 ≤ a) (hab : a ≤ b) : toInt a = a := by
  have hbmod : ∀ m : Nat, 0 < m → b.bmod m = b → a.bmod m = a := by
    intro m hm hb
    rw [Int.bmod_def] at hb ⊢
    have hbm := Int.emod_lt_of_pos b (Int.natCast_pos.mpr hm)
    split at hb
    · rename_i hlt
      have ham : a % (m : Int) = a := Int.emod_eq_of_lt ha (by omega)
      rw [ham, if_pos (by omega)]
    · omega
  exact hbmod _ (by decide) hb

/-- An opened sink stands behind the last message. -/
theorem openFile_linear (h : Linear s) : (openFile s).1 = true ∧ Linear (openFile s).2 ∧
    (openFile s).2.sink = ⟨true, -1, (s.disk.log.getD []).length⟩ ∧
    (openFile s).2.disk.log.getD [] = s.disk.log.getD [] := by
  unfold openFile
  rcases h.sink with hsink | hsink
  · have hopened : s.sink.opened = false := by
      rw [hsink]
      rfl
    have hcreated : (createFile s).sink = ⟨true, -1, (s.disk.log.getD []).length⟩ := by
      unfold createFile
      dsimp only
      rw [hsink, h.int]
      rfl
    have hlogPos : (createFile s).disk.logPos.getD [] = [] := h.logPos
    rw [hopened, if_neg Bool.false_ne_true, loadLogPosition_nil hlogPos]
    exact ⟨rfl, ⟨rfl, h.saved, h.int, h.lastEnd, Or.inr hcreated⟩, hcreated, rfl⟩
  · have hopened : s.sink.opened = true := by rw [hsink]
    rw [hopened, if_pos rfl]
    exact ⟨rfl, h, hsink, rfl⟩

theorem openFile_circular (h : Circular s p) : (openFile s).1 = true ∧ Circular (openFile s).2 p ∧
    (openFile s).2.sink.opened = true ∧ (openFile s).2.sink.nCirclePos = p := by
  unfold openFile
  rcases h.sink with hsink | ⟨hopened, hpos⟩
  · have hopened : s.sink.opened = false := by
      rw [hsink]
      rfl
    have hlogPos : (createFile s).disk.logPos = some (Nat.toDigits 10 p) := h.logPos
    rw [hopened, if_neg Bool.false_ne_true, loadLogPosition_digits hlogPos h.int]
    exact ⟨rfl, ⟨h.logPos, h.saved, h.int, h.lastEnd, Or.inr ⟨rfl, rfl⟩⟩, rfl, rfl⟩
  · rw [hopened, if_pos rfl]
    exact ⟨rfl, h, hopened, hpos⟩

theorem survives_of_inv (h : Inv s) : Survives s := by
  rcases h with h | ⟨p, h⟩
  · obtain ⟨-, hopened, hsink, hlog⟩ := openFile_linear h
    refine ⟨?_, ?_, ?_⟩
    · intro p hp
      rw [h.saved] at hp
      cases hp
    · intro p hp
      rw [h.saved] at hp
      cases hp
    · intro e he
      unfold position getCurPos
      rw [hsink, h.lastEnd e he]
      rfl
  · obtain ⟨-, hopened, -, hpos⟩ := openFile_circular h
    refine ⟨?_, ?_, ?_⟩
    · intro q hq
      rw [h.saved] at hq
      cases hq
      have hlogPos : (restart s).disk.logPos = some (Nat.toDigits 10 p) := h.logPos
      rw [loadLogPosition_digits hlogPos h.int]
      exact ⟨rfl, rfl⟩
    · intro q hq
      rw [h.saved] at hq
      rw [h.lastEnd, ← hq]
    · intro e he
      rw [h.lastEnd] at he
      cases he
      unfold position getCurPos
      rw [hpos, if_pos (Int.natCast_nonneg p)]

theorem inv_restart (h : Inv s) : Inv (restart s) := by
  rcases h with h | ⟨p, h⟩
  · exact Or.inl ⟨h.logPos, h.saved, h.int, h.lastEnd, Or.inl rfl⟩
  · exact Or.inr ⟨p, h.logPos, h.saved, h.int, h.lastEnd, Or.inl rfl⟩

theorem inv_create : Inv System.create := by
  refine Or.inl ⟨rfl, rfl, ?_, ?_, Or.inl rfl⟩
  · decide
  · intro e he
    cases he

end Invariant

section Writing

variable {maxLogFileSize : Int} {getBytes : Text → List UInt8} {strMsg : Text} {s : System}
variable {p : Nat}

/-- A position with as many digits as the text before it takes its place. -/
theorem splice_digits {old : List Char} (h : old.length ≤ (Nat.toDigits 10 p).length) :
    splice old 0 (Nat.toDigits 10 p) = Nat.toDigits 10 p := by
  unfold splice
  rw [List.take_zero, List.nil_append, Nat.zero_add, List.drop_eq_nil_of_le h, List.append_nil]

theorem writeAt_end (file bytes : List UInt8) : writeAt file file.length bytes = file ++ bytes := by
  unfold writeAt splice
  simp

theorem saveLogPosition_circular (hopened : s.sink.opened = true) (hpos : s.sink.nCirclePos = p)
    (hend : s.lastEnd = some (p : Int)) (hint : toInt p = p)
    (hdigits : (s.disk.logPos.getD []).length ≤ (Nat.toDigits 10 p).length) :
    Circular (saveLogPosition s) p := by
  have hsaved : saveLogPosition s = { s with
      disk.logPos := some (Nat.toDigits 10 p)
      saved := some (p : Int) } := by
    unfold saveLogPosition
    rw [hpos, if_neg (Int.not_lt.mpr (Int.natCast_nonneg p)), Int.toNat_natCast]
    dsimp only
    rw [splice_digits hdigits]
  rw [hsaved]
  exact ⟨rfl, rfl, hint, hend, Or.inr ⟨hopened, hpos⟩⟩

/-- A message behind a position of a log that has gone round. -/
theorem circular_written (hopened : s.sink.opened = true) (hpos : s.sink.nCirclePos = p)
    (hbytes : (getBytes strMsg).length = strMsg.length)
    (hint : toInt ((p + strMsg.length : Nat) : Int) = (p + strMsg.length : Nat))
    (hdigits : (s.disk.logPos.getD []).length ≤ (Nat.toDigits 10 (p + strMsg.length)).length) :
    Circular (saveLogPosition (countWritten strMsg.length (writeFile (getBytes strMsg) s)))
      (p + strMsg.length) := by
  have hcur : getCurPos s = p := by
    unfold getCurPos
    rw [hpos, if_pos (Int.natCast_nonneg p)]
  have hcount : countWritten strMsg.length (writeFile (getBytes strMsg) s) =
      { writeFile (getBytes strMsg) s with
        sink.nCirclePos := ((p + strMsg.length : Nat) : Int) } := by
    have hwritten : (writeFile (getBytes strMsg) s).sink.nCirclePos = p := hpos
    unfold countWritten
    rw [hwritten, if_pos (Int.natCast_nonneg p), ← Int.natCast_add, hint]
  rw [hcount]
  refine saveLogPosition_circular hopened rfl ?_ hint hdigits
  show some (getCurPos s + (getBytes strMsg).length) = _
  rw [hcur, hbytes, Int.natCast_add]

/-- A message behind the end of a log that has not gone round. -/
theorem linear_written (h : Linear s)
    (hsink : s.sink = ⟨true, -1, (s.disk.log.getD []).length⟩)
    (hbytes : (getBytes strMsg).length = strMsg.length)
    (hint : toInt ((s.disk.log.getD []).length + strMsg.length) =
      (s.disk.log.getD []).length + strMsg.length) :
    Linear (saveLogPosition (countWritten strMsg.length (writeFile (getBytes strMsg) s))) := by
  have hcur : getCurPos s = (s.disk.log.getD []).length := by
    unfold getCurPos
    rw [hsink]
    rfl
  have hlog : (writeFile (getBytes strMsg) s).disk.log =
      some (s.disk.log.getD [] ++ getBytes strMsg) := by
    unfold writeFile
    dsimp only
    rw [hcur, Int.toNat_natCast, writeAt_end]
  have hend : (writeFile (getBytes strMsg) s).lastEnd =
      some ((s.disk.log.getD []).length + strMsg.length : Int) := by
    unfold writeFile
    dsimp only
    rw [hcur, hbytes]
  have hcount : countWritten strMsg.length (writeFile (getBytes strMsg) s) =
      { writeFile (getBytes strMsg) s with
        sink := ⟨true, -1, (s.disk.log.getD []).length + strMsg.length⟩ } := by
    have hwritten : (writeFile (getBytes strMsg) s).sink = s.sink := rfl
    unfold countWritten
    rw [hwritten, hsink, if_neg (show ¬(0 : Int) ≤ -1 by decide)]
    dsimp only
    rw [hint]
  have hlen : (((s.disk.log.getD [] ++ getBytes strMsg).length : Nat) : Int) =
      (s.disk.log.getD []).length + strMsg.length := by
    rw [List.length_append, hbytes, Int.natCast_add]
  have hsaved : ∀ t : System, t.sink.nCirclePos = -1 → saveLogPosition t = t := by
    intro t ht
    unfold saveLogPosition
    rw [ht, if_pos (by decide)]
  rw [hcount, hsaved _ rfl]
  refine ⟨h.logPos, h.saved, ?_, ?_, Or.inr ?_⟩
  · dsimp only
    rw [hlog, Option.getD_some, hlen, hint]
  · intro e he
    dsimp only at he ⊢
    rw [hend] at he
    rw [hlog, Option.getD_some, hlen]
    exact (Option.some.inj he).symm
  · dsimp only
    rw [hlog, Option.getD_some, hlen]

/-- The position goes to the start where the message does not fit behind it. -/
theorem moveToStart_eq (hint : toInt (getCurPos s + strMsg.length) = getCurPos s + strMsg.length) :
    moveToStart maxLogFileSize strMsg.length s =
      if 0 < maxLogFileSize ∧ maxLogFileSize < getCurPos s + strMsg.length then
        { s with sink.nFileLogSize := 0, sink.nCirclePos := 0 }
      else s := by
  unfold moveToStart
  unfold getCurPos at hint ⊢
  by_cases hcirc : 0 ≤ s.sink.nCirclePos
  · simp only [if_pos hcirc] at hint ⊢
    simp only [hint, hcirc, true_and, Int.not_lt.mpr hcirc, false_and, or_false]
  · simp only [if_neg hcirc] at hint ⊢
    simp only [hint, hcirc, false_and, Int.not_le.mp hcirc, true_and, false_or]

theorem writeLogMessage_eq {opened : System} (hopen : openFile s = (true, opened))
    (hnonneg : 0 ≤ getCurPos opened)
    (hint : toInt (getCurPos opened + strMsg.length) = getCurPos opened + strMsg.length) :
    writeLogMessage maxLogFileSize getBytes strMsg s =
      saveLogPosition (countWritten strMsg.length (writeFile (getBytes strMsg)
        (if 0 < maxLogFileSize ∧ maxLogFileSize < getCurPos opened + strMsg.length then
          { opened with sink.nFileLogSize := 0, sink.nCirclePos := 0 }
        else opened))) := by
  unfold writeLogMessage
  rw [hopen]
  dsimp only
  rw [moveToStart_eq hint]
  refine if_neg (Int.not_lt.mpr ?_)
  split
  · exact Int.le_refl 0
  · exact hnonneg

/-- A message whose step meets the condition. -/
theorem inv_write (h : Inv s) (hmet : Meets maxLogFileSize getBytes strMsg s) :
    Inv (writeLogMessage maxLogFileSize getBytes strMsg s) := by
  obtain ⟨hbytes, hint, hdigits⟩ := hmet
  unfold position at hint hdigits
  have hzero : ∀ {pos : Nat}, getCurPos (openFile s).2 = pos →
      toInt ((0 + strMsg.length : Nat) : Int) = (0 + strMsg.length : Nat) := by
    intro pos hpos
    rw [hpos] at hint
    rw [Nat.zero_add]
    exact toInt_of_le hint (Int.natCast_nonneg _) (by omega)
  rcases h with h | ⟨p, h⟩
  · obtain ⟨hopen, hlinear, hsink, hlog⟩ := openFile_linear h
    have hcur : getCurPos (openFile s).2 = (s.disk.log.getD []).length := by
      unfold getCurPos
      rw [hsink]
      rfl
    rw [writeLogMessage_eq (Prod.ext hopen rfl) (by rw [hcur]; exact Int.natCast_nonneg _) hint]
    have hint0 := hzero hcur
    split
    · refine Or.inr ⟨0 + strMsg.length, circular_written ?_ rfl hbytes hint0 ?_⟩
      · dsimp only
        rw [hsink]
      · dsimp only
        rw [hlinear.logPos]
        exact Nat.zero_le _
    · rw [← hlog] at hsink
      rw [hcur, ← hlog] at hint
      exact Or.inl (linear_written hlinear hsink hbytes hint)
  · obtain ⟨hopen, hcircular, hopened, hpos⟩ := openFile_circular h
    have hcur : getCurPos (openFile s).2 = p := by
      unfold getCurPos
      rw [hpos, if_pos (Int.natCast_nonneg p)]
    rw [writeLogMessage_eq (Prod.ext hopen rfl) (by rw [hcur]; exact Int.natCast_nonneg _) hint]
    have hint0 := hzero hcur
    have hlogPos : (openFile s).2.disk.logPos = s.disk.logPos :=
      hcircular.logPos.trans h.logPos.symm
    unfold nextPos at hdigits
    split
    · rename_i hround
      rw [if_pos hround, Int.toNat_natCast, ← Nat.zero_add strMsg.length, ← hlogPos] at hdigits
      exact Or.inr ⟨_, circular_written hopened rfl hbytes hint0 hdigits⟩
    · rename_i hround
      rw [if_neg hround, hcur, ← Int.natCast_add, Int.toNat_natCast, ← hlogPos] at hdigits
      rw [hcur, ← Int.natCast_add] at hint
      exact Or.inr ⟨_, circular_written hopened hpos hbytes hint hdigits⟩

theorem inv_run (events : List Event) (h : Inv s)
    (hmet : MetAll maxLogFileSize getBytes events s) :
    Inv (run maxLogFileSize getBytes events s) := by
  induction events generalizing s with
  | nil => exact h
  | cons e events ih =>
    cases e with
    | restart => exact ih (inv_restart h) hmet
    | write strMsg => exact ih (inv_write h hmet.1) hmet.2

end Writing

/-- The position survives in each state of a run whose messages find what they have to. -/
theorem position_survives (maxLogFileSize : Int) (getBytes : Text → List UInt8)
    (events : List Event) (hmet : MetAll maxLogFileSize getBytes events System.create) :
    Survives (run maxLogFileSize getBytes events System.create) :=
  survives_of_inv (inv_run events inv_create hmet)

/-- One byte for each character up to 127, and two for each up to 2047. -/
def utf8 (strMsg : Text) : List UInt8 :=
  strMsg.flatMap (fun c => if c < 128 then [c.toUInt8]
    else [(192 + c / 64).toUInt8, (128 + c % 64).toUInt8])

def line (len : Nat) : Text := List.replicate len 'a'.toNat

/-- Positions of two digits, with restarts. -/
def twoRounds : List Event :=
  [.write (line 12), .write (line 12), .restart, .write (line 12), .restart, .write (line 12),
    .write (line 12), .restart, .write (line 12)]

theorem position_survives_twoRounds : (run 30 utf8 twoRounds System.create).saved = some 24 ∧
    Survives (run 30 utf8 twoRounds System.create) :=
  ⟨by decide +kernel, position_survives 30 utf8 twoRounds (by decide +kernel)⟩

/-- The position 8 is written over 16. -/
def shorterPosition : List Event :=
  [.write (line 8), .write (line 8), .write (line 8), .write (line 8), .write (line 8)]

/-- The next process goes on at 86; and behind a message of one character the position is 1,
where the file has two bytes. -/
theorem position_lost : ¬Survives (run 20 utf8 shorterPosition System.create) ∧
    ¬Survives (run 20 utf8 [.write [233]] System.create) := by
  constructor
  · intro h
    exact absurd (h.loaded 8 (by decide +kernel)).2 (by decide +kernel)
  · intro h
    exact absurd (h.current 2 (by decide +kernel)) (by decide +kernel)

end Rhodes.JavaLogSink
