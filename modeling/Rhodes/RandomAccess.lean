import Mathlib.Logic.Function.Basic
import Rhodes.FileImpl

/-!
RandomAccessFile of the Java port over the files of one process, with the commits that have
been made to the PersistentStore, and the calls of FileUtilBB that the journal uses. A file
that listens for the sync of another one is synced before it, and no longer by itself.
-/
namespace Rhodes.RandomAccess

open Arrays PagedFile FileImpl

/-- m_shared, where a FileInfo is as its constructor makes it until the name is used, and the
commits so far. -/
structure World where
  files : String → FileInfo
  commits : List (String × Commit)

def World.setFile (w : World) (name : String) (info : FileInfo) : World :=
  { w with files := Function.update w.files name info }

abbrev WorldM := EStateM Exn World

def onFile {α : Type} (name : String) (act : InfoM α) : WorldM α := fun w =>
  match act (w.files name) with
  | .ok a info => .ok a (w.setFile name info)
  | .error e info => .error e (w.setFile name info)

/-- FileInfo.sync after the listeners. -/
def syncPages (name : String) (w : World) : World :=
  let r := PagedFile.sync (w.files name).pages
  { w.setFile name { w.files name with pages := r.1 } with
    commits := w.commits ++ r.2.map (fun c => (name, c)) }

/-- FileInfo.sync; a journal has no listeners of its own. -/
def syncInfo (name : String) (w : World) : World :=
  syncPages name ((w.files name).listenForSync.foldl (fun w listener => syncPages listener w) w)

structure RAFile where
  name : String
  writeAccess : Bool
  pos : Nat

/-- The constructor, with open of PersistRAFileImpl. -/
def openFile (name : String) (writeAccess : Bool) : WorldM RAFile := fun w =>
  let info := w.files name
  if info.useCount < 0 then .error .internalError w
  else if info.fileExists = false ∧ writeAccess = false then .error .fileNotFound w
  else .ok ⟨name, writeAccess, 0⟩
    (w.setFile name { info with fileExists := true, useCount := info.useCount + 1 })

def closeFile (f : RAFile) : WorldM Unit := fun w =>
  let info := w.files f.name
  if info.useCount ≤ 0 then .error .internalError w
  else
    let w' := w.setFile f.name { info with useCount := info.useCount - 1 }
    if info.useCount - 1 = 0 ∧ f.writeAccess = true ∧ info.fileExists = true then
      .ok () (syncInfo f.name w')
    else .ok () w'

def length (f : RAFile) : WorldM Nat := fun w => .ok (w.files f.name).pages.size w

def setLength (f : RAFile) (newLength : Int) : WorldM Unit := onFile f.name (setSize newLength)

/-- sync(): a file that listens for another one waits for it. -/
def syncFile (f : RAFile) : WorldM Unit := fun w =>
  let info := w.files f.name
  if f.writeAccess = false then .error .illegalMode w
  else if info.useCount ≤ 0 then .error .internalError w
  else if info.fileExists = true ∧ info.syncOut = 0 then .ok () (syncInfo f.name w)
  else .ok () w

/-- write(int). -/
def writeByte (f : RAFile) (b : Int) : WorldM RAFile := do
  if f.writeAccess = false then throw .illegalMode
  let pos ← onFile f.name (writeOne f.pos b)
  return { f with pos := pos }

/-- write(b). -/
def writeArray (f : RAFile) (b : List UInt8) : WorldM RAFile := do
  if f.writeAccess = false then throw .illegalMode
  let pos ← onFile f.name (writeMany f.pos b 0 b.length)
  return { f with pos := pos }

/-- The bytes of writeLong, the highest first. -/
def longBytes (v : Nat) : List UInt8 :=
  [56, 48, 40, 32, 24, 16, 8, 0].map (fun shift => UInt8.ofNat (v >>> shift))

def writeLong (f : RAFile) (v : Nat) : WorldM RAFile :=
  (longBytes v).foldlM (fun f b => writeByte f b.toNat) f

/-- read(). -/
def readByte (f : RAFile) : WorldM (Int × RAFile) := do
  let (b, pos) ← onFile f.name (readOne f.pos)
  return (b, { f with pos := pos })

/-- read(b). -/
def readArray (f : RAFile) (b : List UInt8) : WorldM (Int × List UInt8 × RAFile) := do
  let r ← onFile f.name (readMany f.pos b 0 b.length)
  return (r.count, r.buffer, { f with pos := r.pos })

def readInt (f : RAFile) : WorldM (Int × RAFile) := do
  let (ch1, f) ← readByte f
  let (ch2, f) ← readByte f
  let (ch3, f) ← readByte f
  let (ch4, f) ← readByte f
  if ch1 < 0 ∨ ch2 < 0 ∨ ch3 < 0 ∨ ch4 < 0 then throw .eof
  return (toInt (ch1 * 16777216 + ch2 * 65536 + ch3 * 256 + ch4), f)

def readLong (f : RAFile) : WorldM (Int × RAFile) := do
  let (high, f) ← readInt f
  let (low, f) ← readInt f
  return (high * 4294967296 + low % 4294967296, f)

/-- The listener is kept under its own name. -/
def listenForSync (f : RAFile) (name : String) : WorldM Unit := do
  modify (fun w => w.setFile name { w.files name with
    listenForSync := if f.name ∈ (w.files name).listenForSync then (w.files name).listenForSync
      else (w.files name).listenForSync ++ [f.name] })
  modify (fun w => w.setFile f.name { w.files f.name with
    syncOut := (w.files f.name).syncOut + 1 })

/-- What is removed is the name of the file that is listened to. -/
def stopListenForSync (f : RAFile) (name : String) : WorldM Unit := do
  modify (fun w => w.setFile name { w.files name with
    listenForSync := (w.files name).listenForSync.filter (fun listener => listener ≠ name) })
  modify (fun w => w.setFile f.name { w.files f.name with
    syncOut := if (w.files f.name).syncOut > 0 then (w.files f.name).syncOut - 1
      else (w.files f.name).syncOut })

/-- isStreamElement of FileUtilBB. -/
def isStreamElement (name : String) : WorldM Bool := fun w => .ok (w.files name).fileExists w

/-- FileInfo.delete. -/
def deleteInfo : InfoM Unit := do
  onPages (fun t => deletePages 0 (t.pages.length - 1) t)
  modify (fun info => { info with
    fileExists := false
    pages := { info.pages with
      size := 0
      dirty := 0
      stored := { info.pages.stored with size := none } } })

/-- removeElement of FileUtilBB. -/
def removeElement (name : String) : WorldM Unit := do
  if ← isStreamElement name then onFile name deleteInfo

/-- The files of a process that starts with these records. -/
def restart (stored : String → Stored) : World where
  files name := FileInfo.ofStored (stored name)
  commits := []

/-- The records after some more commits. -/
def committed (stored : String → Stored) (commits : List (String × Commit)) : String → Stored :=
  commits.foldl (fun s c => Function.update s c.1 ((s c.1).commit c.2)) stored

end Rhodes.RandomAccess
