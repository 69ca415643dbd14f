import Rhodes.RandomAccess

/-!
Journal.java: before a region of the data file is written, its bytes are appended to the
journal file; after a restart the records of a journal that is still there are written back in
their order. A record holds the number of bytes that were read, but all of the buffer they
were read into.
-/
namespace Rhodes.JournalFile

open Arrays PagedFile FileImpl RandomAccess

/-- BLOCK_CONFIRM. -/
def blockConfirm : UInt8 := 0x55

structure Journal where
  journalName : String
  dataName : String
  dataFile : Option RAFile
  journalFile : Option RAFile
  started : Bool

structure Session where
  world : World
  journal : Journal

abbrev JournalM := EStateM Exn Session

def onWorld {α : Type} (act : WorldM α) : JournalM α := fun s =>
  match act s.world with
  | .ok a w => .ok a { s with world := w }
  | .error e w => .error e { s with world := w }

def lastIndexOf (cs : List Char) (c : Char) : Int :=
  match cs.reverse.idxOf? c with
  | some k => cs.length - 1 - k
  | none => -1

/-- The name of the journal; without a dot behind the first character the text of null is
appended to. -/
def journalName (name : String) : String :=
  (if lastIndexOf name.toList '.' > 0 then
    String.ofList (name.toList.take (lastIndexOf name.toList '.').toNat) else "null") ++ ".journal"

def start : JournalM Unit := do
  if ← onWorld (isStreamElement (← get).journal.journalName) then throw .cannotStart
  modify (fun s => { s with journal := { s.journal with started := true } })

/-- The journal is created with the length of the data file at its head. -/
def openJournal (journalName dataName : String) (dataFile : RAFile) : WorldM RAFile := do
  let f ← openFile journalName true
  listenForSync f dataName
  let f ← writeLong f (← length dataFile)
  let f ← writeByte f blockConfirm.toNat
  syncFile f
  return f

def openedData (j : Journal) : JournalM RAFile :=
  match j.dataFile with
  | some f => pure f
  | none => onWorld (openFile j.dataName false)

def openedJournal (j : Journal) (dataFile : RAFile) : JournalM RAFile :=
  match j.journalFile with
  | some f => pure f
  | none => onWorld (openJournal j.journalName j.dataName dataFile)

/-- The files of the journal, opened where they are not yet. -/
def initJournal : JournalM (RAFile × RAFile) := do
  let j := (← get).journal
  if j.started = false then throw .cannotStart
  let dataFile ← openedData j
  modify (fun s => { s with journal := { s.journal with dataFile := some dataFile } })
  let journalFile ← openedJournal j dataFile
  modify (fun s => { s with journal := { s.journal with journalFile := some journalFile } })
  return (dataFile, journalFile)

/-- A record of the journal. -/
def writeRecord (f : RAFile) (nPos nReaded : Nat) (buf : List UInt8) : WorldM RAFile := do
  let f ← writeLong f nPos
  let f ← writeLong f nReaded
  let f ← writeArray f buf
  let f ← writeByte f blockConfirm.toNat
  syncFile f
  return f

/-- What write does with its buffer. -/
def saveRegion (dataFile journalFile : RAFile) (nPos : Nat) (buf : List UInt8) : JournalM Unit := do
  let (nReaded, buf, _) ← onWorld (readArray { dataFile with pos := nPos } buf)
  if nReaded ≤ 0 then return
  let journalFile ← onWorld (writeRecord journalFile nPos nReaded.toNat buf)
  modify (fun s => { s with journal := { s.journal with journalFile := some journalFile } })

def write (nPos nLen : Nat) : JournalM Unit := do
  let (dataFile, journalFile) ← initJournal
  if toInt nLen < 0 then throw .negativeArraySize
  saveRegion dataFile journalFile nPos (List.replicate (toInt nLen).toNat 0)

def close : JournalM Unit := do
  let j := (← get).journal
  match j.journalFile with
  | some f =>
    onWorld (stopListenForSync f j.dataName)
    onWorld (closeFile f)
    modify (fun s => { s with journal := { s.journal with journalFile := none } })
  | none => pure ()
  match j.dataFile with
  | some f =>
    onWorld (closeFile f)
    modify (fun s => { s with journal := { s.journal with dataFile := none } })
  | none => pure ()

def stop : JournalM Unit := do
  close
  onWorld (removeElement (← get).journal.journalName)
  modify (fun s => { s with journal := { s.journal with started := false } })

/-- The record at the position: where to write what, or nothing where it is not confirmed. -/
def readRecord (jf : RAFile) : WorldM (Option (Nat × List UInt8 × RAFile)) := do
  let (nPos, jf) ← readLong jf
  let (nLen, jf) ← readLong jf
  if toInt nLen < 0 then throw .negativeArraySize
  let (nReaded, buf, jf) ← readArray jf (List.replicate (toInt nLen).toNat 0)
  let (byteConfirm, jf) ← readByte jf
  if byteConfirm ≠ blockConfirm.toNat ∨ nReaded ≠ nLen then return none
  return some (nPos.toNat, buf, jf)

/-- `catch(EOFException exc)` around a record. -/
def untilEof {α : Type} (act : WorldM (Option α)) : WorldM (Option α) := fun w =>
  match act w with
  | .error .eof w' => .ok none w'
  | r => r

/-- The loop over the records, for a journal with fewer records than the fuel. -/
def replay : Nat → RAFile → RAFile → WorldM Unit
  | 0, _, _ => throw .internalError
  | fuel + 1, jf, df => do
    match ← untilEof (readRecord jf) with
    | none => return
    | some (nPos, buf, jf) =>
      let df ← writeArray { df with pos := nPos } buf
      replay fuel jf df

/-- The world with the files that rollback has opened so far. -/
structure Rollback where
  world : World
  jf : Option RAFile
  df : Option RAFile

def onRollback {α : Type} (act : WorldM α) : EStateM Exn Rollback α := fun s =>
  match act s.world with
  | .ok a w => .ok a { s with world := w }
  | .error e w => .error e { s with world := w }

/-- The block that rollback tries. -/
def rollbackFiles (journalName dataName : String) : EStateM Exn Rollback Unit := do
  let jf ← onRollback (openFile journalName false)
  modify (fun s => { s with jf := some jf })
  let (nDataSize, jf) ← onRollback (readLong jf)
  let (byteConfirm, jf) ← onRollback (readByte jf)
  if byteConfirm = blockConfirm.toNat then
    let df ← onRollback (openFile dataName true)
    modify (fun s => { s with df := some df })
    onRollback (setLength df nDataSize)
    let fuel := ((← get).world.files journalName).pages.size + 1
    onRollback (replay fuel jf df)

def isIOException : Exn → Bool
  | .illegalMode => true
  | .fileNotFound => true
  | .cannotStart => true
  | .eof => true
  | _ => false

def closeOpened (f : Option RAFile) : WorldM Unit :=
  match f with
  | some f => closeFile f
  | none => pure ()

/-- The finally block of rollback. -/
def endRollback (journalName : String) (bSuccess : Bool) (s : Rollback) : WorldM Unit := do
  closeOpened s.df
  closeOpened s.jf
  if bSuccess then removeElement journalName

/-- try, catch and finally: an IOException is logged only. -/
def tryRollback (journalName dataName : String) : WorldM Unit := fun w =>
  match rollbackFiles journalName dataName ⟨w, none, none⟩ with
  | .ok () s => endRollback journalName true s s.world
  | .error e s =>
    match endRollback journalName false s s.world with
    | .ok () w => if isIOException e then .ok () w else .error e w
    | r => r

def rollback (journalName dataName : String) : WorldM Unit := do
  if ← isStreamElement journalName then tryRollback journalName dataName

def create (name : String) : JournalM Unit := do
  modify (fun s => { s with journal :=
    { s.journal with journalName := journalName name, dataName := name } })
  onWorld (rollback (journalName name) name)

end Rhodes.JournalFile
