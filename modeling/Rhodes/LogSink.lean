import Mathlib
import Rhodes.Arrays
import Rhodes.Tokenizer

/-!
CLogFileSink of RhoLogSink.cpp with the two files of the log: the messages, and the position
of the next message once the log has gone round. CRhoFile::size asks for the path, and remove
takes the path away from a file that is still open, so that what is written to it is lost.
-/
namespace Rhodes.LogSink

open Rhodes.Arrays (splice)

/-- getMaxLogFileSize; it is set from an int. -/
structure LogSettings where
  maxLogFileSize : Nat
  pos : 0 < maxLogFileSize
  int : maxLogFileSize < 2 ^ 31

abbrev Message := List UInt8

/-- The files under the two paths, when they exist. -/
structure Disk where
  log : Option (List UInt8)
  logPos : Option (List Char)
deriving DecidableEq

/-- m_pPosFile, when it is open. -/
inductive PosFile where
  | closed
  | linked
  | unlinked
deriving DecidableEq

/-- The sink of a process; `file` is the position of the stream of m_pFile, when it is open. -/
structure Sink where
  file : Option Nat
  posFile : PosFile
  nCirclePos : Int
  nFileLogSize : Nat
deriving DecidableEq

def Sink.create : Sink := ⟨none, .closed, -1, 0⟩

structure System where
  disk : Disk
  sink : Sink
deriving DecidableEq

def getFileSize {α : Type} (file : Option (List α)) : Nat := (file.getD []).length

/-- convertToStringA, filled up with blanks. -/
def positionText (n : Nat) : List Char :=
  let strPos := Nat.toDigits 10 n
  strPos ++ List.replicate (10 - strPos.length) ' '

/-- m_pPosFile is opened; a file that does not exist is created. -/
def openPosFile (s : System) : System :=
  match s.sink.posFile with
  | .closed =>
      { s with disk.logPos := some (s.disk.logPos.getD []), sink.posFile := .linked }
  | _ => s

/-- What readString finds: as many bytes as the file under the path has. -/
def readPosition (s : System) : List Char :=
  match s.sink.posFile with
  | .linked => s.disk.logPos.getD []
  | _ => []

def loadLogPosition (s : System) : System :=
  let s := openPosFile s
  let strPos := readPosition s
  if strPos.length = 0 then s
  else
    let n := Tokenizer.convertFromString strPos
    let n := if n < 0 ∨ (s.sink.nFileLogSize : Int) < n then -1 else n
    let s := { s with sink.nCirclePos := n }
    if 0 ≤ n then { s with sink.file := some n.toNat } else s

def saveLogPosition (settings : LogSettings) (s : System) : System :=
  if s.sink.nCirclePos < 0 then s
  else if (settings.maxLogFileSize : Int) < s.sink.nCirclePos then s
  else
    match s.sink.posFile with
    | .linked =>
        let strPos := positionText s.sink.nCirclePos.toNat
        { s with disk.logPos := some (splice (s.disk.logPos.getD []) 0 strPos) }
    | _ => s

/-- m_pFile is opened for appending. -/
def openFile (s : System) : System :=
  match s.sink.file with
  | some _ => s
  | none =>
      let log := s.disk.log.getD []
      loadLogPosition
        { s with
          disk.log := some log
          sink.file := some log.length
          sink.nFileLogSize := log.length }

/-- The log goes round when the message does not fit behind the position. -/
def moveToStart (settings : LogSettings) (len : Nat) (s : System) : System :=
  if (0 ≤ s.sink.nCirclePos ∧ (settings.maxLogFileSize : Int) < s.sink.nCirclePos + len) ∨
      (s.sink.nCirclePos < 0 ∧ settings.maxLogFileSize < s.sink.nFileLogSize + len) then
    { s with sink.file := some 0, sink.nFileLogSize := 0, sink.nCirclePos := 0 }
  else s

/-- The position of the stream is never behind the end of the file. -/
def writeFile (strMsg : Message) (s : System) : System :=
  match s.sink.file with
  | none => s
  | some pos =>
      { s with
        disk.log := some (splice (s.disk.log.getD []) pos strMsg)
        sink.file := some (pos + strMsg.length) }

def countWritten (nWritten : Nat) (s : System) : System :=
  if 0 ≤ s.sink.nCirclePos then
    { s with sink.nCirclePos := s.sink.nCirclePos + nWritten }
  else { s with sink.nFileLogSize := s.sink.nFileLogSize + nWritten }

def writeLogMessage (settings : LogSettings) (strMsg : Message) (s : System) : System :=
  let s := moveToStart settings strMsg.length (openFile s)
  saveLogPosition settings (countWritten strMsg.length (writeFile strMsg s))

def getCurPos (s : System) : Int :=
  if 0 ≤ s.sink.nCirclePos then s.sink.nCirclePos else s.sink.nFileLogSize

/-- m_pPosFile and m_nCirclePos stay as they are. -/
def clear (s : System) : System :=
  { disk := ⟨none, none⟩
    sink :=
      { s.sink with
        file := none
        posFile := if s.sink.posFile = .closed then .closed else .unlinked } }

/-- The process ends, and another one begins. -/
def restart (s : System) : System := { s with sink := Sink.create }

inductive Event where
  | write (strMsg : Message)
  | clear
  | restart
deriving DecidableEq

def step (settings : LogSettings) (s : System) : Event → System
  | .write strMsg => writeLogMessage settings strMsg s
  | .clear => LogSink.clear s
  | .restart => LogSink.restart s

def System.create : System := ⟨⟨none, none⟩, Sink.create⟩

def run (settings : LogSettings) (events : List Event) : System :=
  events.foldl (step settings) System.create

end Rhodes.LogSink
