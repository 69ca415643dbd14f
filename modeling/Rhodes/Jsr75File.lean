import Rhodes.Arrays

/-!
Jsr75RAFileImpl: random access over one input and one output stream of a FileConnection. A stream
is opened at a position, and one past the end is the end; a read of the input stream delivers any
positive number of the bytes that are left. The operations on the connection do not fail, so the
second try of write is never taken.
-/
namespace Rhodes.Jsr75File

open Arrays

inductive Exn where
  | nullPointer
  deriving DecidableEq

/-- The bytes of the file, and the fields; a stream is its position in the file. -/
structure File where
  bytes : List UInt8
  input : Option Nat
  output : Option Nat
  fileSize : Nat
  seekPos : Nat
  outPos : Nat
  inPos : Nat

abbrev M := EStateM Exn File

/-- A part of an array of bytes; one that is not inside is refused by the streams. -/
structure Buffer where
  b : List UInt8
  off : Nat
  len : Nat
  fits : off + len ≤ b.length

def Buffer.part (buf : Buffer) : List UInt8 := (buf.b.drop buf.off).take buf.len

def zeroBufSize : Nat := 4096

section Streams

def openOutputStream (pos : Nat) : M Unit :=
  modify (fun s => { s with output := some (min pos s.bytes.length) })

/-- m_out.write. -/
def writeOut (seg : List UInt8) : M Unit := fun s =>
  match s.output with
  | none => .error .nullPointer s
  | some p => .ok () { s with
      bytes := splice s.bytes p seg
      output := some (p + seg.length) }

/-- m_in.skip. -/
def skip (n : Nat) : M Nat := fun s =>
  match s.input with
  | none => .error .nullPointer s
  | some p => .ok (min n (s.bytes.length - p))
      { s with input := some (p + min n (s.bytes.length - p)) }

/-- m_in.read(). -/
def readIn : M Int := fun s =>
  match s.input with
  | none => .error .nullPointer s
  | some p => match s.bytes[p]? with
      | some v => .ok v.toNat { s with input := some (p + 1) }
      | none => .ok (-1) s

/-- m_in.read(b, off, len); it would like to deliver `reads len` bytes. -/
def readBytesIn (reads : Nat → Nat) (b : List UInt8) (off len : Nat) : M (Int × List UInt8) :=
  fun s => match s.input with
  | none => .error .nullPointer s
  | some p =>
      if s.bytes.length ≤ p then .ok (-1, b) s
      else
        let rc := min (max (reads len) 1) (min len (s.bytes.length - p))
        .ok (rc, splice b off ((s.bytes.drop p).take rc)) { s with input := some (p + rc) }

end Streams

/-- The loop that writes zeros up to a size; every turn writes some. -/
def writeZeros : Nat → Nat → M Unit
  | 0, _ => pure ()
  | turns + 1, newSize => do
      let size := min zeroBufSize (newSize - (← get).fileSize)
      writeOut (List.replicate size 0)
      modify (fun s => { s with fileSize := s.fileSize + size })
      if newSize ≠ (← get).fileSize then writeZeros turns newSize

def prepareWrite : M Unit := do
  if (← get).output = none then
    openOutputStream (← get).seekPos
    modify (fun s => { s with outPos := s.seekPos })
  if (← get).outPos ≠ (← get).seekPos then
    openOutputStream (← get).seekPos
    if (← get).fileSize < (← get).seekPos then
      writeZeros ((← get).seekPos - (← get).fileSize) (← get).seekPos
    modify (fun s => { s with outPos := s.seekPos })

def postWrite (len : Nat) : M Unit := modify (fun s => { s with
  outPos := s.outPos + len
  fileSize := max s.fileSize (s.outPos + len)
  input := none
  seekPos := s.outPos + len })

/-- write(int). -/
def write (b : Int) : M Unit := do
  prepareWrite
  writeOut [UInt8.ofInt b]
  postWrite 1

/-- write(b, off, len). -/
def writeBytes (buf : Buffer) : M Unit := do
  prepareWrite
  writeOut buf.part
  postWrite buf.len

def prepareRead : M Bool := do
  let s ← get
  if s.input = none ∨ s.seekPos < s.inPos then
    modify (fun s => { s with input := some 0 })
    let skipped ← skip s.seekPos
    modify (fun s => { s with inPos := skipped })
  else if s.inPos < s.seekPos then
    let skipped ← skip (s.seekPos - s.inPos)
    modify (fun s => { s with inPos := s.inPos + skipped })
  return (← get).inPos = (← get).seekPos

/-- read(). -/
def read : M Int := do
  if ← prepareRead then
    let res ← readIn
    if 0 ≤ res then modify (fun s => { s with inPos := s.inPos + 1, seekPos := s.inPos + 1 })
    return res
  else return -1

/-- The loop of read(b, off, len); every turn but the last reads some bytes, always to off. -/
def readLoop (reads : Nat → Nat) (off : Nat) : Nat → List UInt8 → Nat → Nat → M (Nat × List UInt8)
  | 0, b, offData, _ => pure (offData, b)
  | turns + 1, b, offData, len =>
      if 0 < len then do
        let (rc, b) ← readBytesIn reads b off len
        if 0 < rc then
          modify (fun s => { s with inPos := s.inPos + rc.toNat })
          readLoop reads off turns b (offData + rc.toNat) (len - rc.toNat)
        else pure (offData, b)
      else pure (offData, b)

/-- read(b, off, len): what it returns, and the array. -/
def readBytes (reads : Nat → Nat) (buf : Buffer) : M (Int × List UInt8) := do
  if ← prepareRead then
    let (offData, b) ← readLoop reads buf.off buf.len buf.b buf.off buf.len
    modify (fun s => { s with seekPos := s.inPos })
    return (offData, b)
  else return (-1, buf.b)

def setSize (newSize : Nat) : M Unit := do
  modify (fun s => { s with input := none, output := none })
  if (← get).fileSize < newSize then writeZeros (newSize - (← get).fileSize) newSize
  else modify (fun s => { s with bytes := s.bytes.take newSize })
  modify (fun s => { s with fileSize := newSize })

/-- A file that has just been opened. -/
def opened (bytes : List UInt8) : File := ⟨bytes, none, none, bytes.length, 0, 0, 0⟩

/-- A call, with what the stream would like to deliver. -/
inductive Op where
  | seek (pos : Nat)
  | write (b : Int)
  | writeBytes (buf : Buffer)
  | read
  | readBytes (reads : Nat → Nat) (buf : Buffer)
  | setSize (newSize : Nat)
  | size

inductive Out where
  | done
  | int (n : Int)
  | bytes (count : Int) (b : List UInt8)
  deriving DecidableEq

def exec : Op → M Out
  | .seek pos => do
      modify (fun s => { s with seekPos := pos })
      return .done
  | .write b => do
      write b
      return .done
  | .writeBytes buf => do
      writeBytes buf
      return .done
  | .read => do return .int (← read)
  | .readBytes reads buf => do
      let (count, b) ← readBytes reads buf
      return .bytes count b
  | .setSize newSize => do
      setSize newSize
      return .done
  | .size => do return .int (← get).fileSize

end Rhodes.Jsr75File
