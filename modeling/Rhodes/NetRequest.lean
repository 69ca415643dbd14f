import Rhodes.Outcomes

/-!
The transfers of the Java net request. A stream delivers its bytes in reads of any positive size
up to the buffer, and then reports its end on every further read. An operation on a connection or
a file may throw; a transfer is attempted again after such an exception, with the input stream of
a pushed file and the output stream of a pulled one where the failed attempt left them.
-/
namespace Rhodes.NetRequest

/-- The size of m_byteBuffer. -/
def byteBufferSize : Nat := 4096

def maxNetRequestRetry : Nat := 3

def httpOk : Nat := 200

def httpInternalError : Nat := 500

/-- The bytes of one read. -/
structure Chunk where
  head : UInt8
  tail : List UInt8
  fits : tail.length < byteBufferSize

def Chunk.bytes (c : Chunk) : List UInt8 := c.head :: c.tail

def contents (chunks : List Chunk) : List UInt8 := chunks.flatMap Chunk.bytes

/-- m_byteBuffer. -/
def ByteBuffer := { b : List UInt8 // b.length = byteBufferSize }

namespace ByteBuffer

def zero : ByteBuffer := ⟨List.replicate byteBufferSize 0, List.length_replicate⟩

/-- A read of a block puts its bytes at the start of the array. -/
def load (b : ByteBuffer) (c : Chunk) : ByteBuffer :=
  ⟨c.bytes ++ b.1.drop c.bytes.length, by
    have hfits := c.fits
    have hlength := b.2
    simp only [Chunk.bytes, List.length_append, List.length_cons, List.length_drop]
    omega⟩

def set (b : ByteBuffer) (i : Nat) (v : UInt8) : ByteBuffer :=
  ⟨b.1.set i v, by rw [List.length_set, b.2]⟩

end ByteBuffer

/-- An exception: how many operations of the attempt succeed before it, and how many bytes get
through where it strikes in a write. -/
structure Break where
  after : Nat
  through : Nat

/-- How a method ends where it does not return; running is no end at all. -/
inductive Failure where
  | ioException
  | indexOutOfBounds
  | running
  deriving DecidableEq

structure Net where
  /-- The exception that is still due in this attempt. -/
  pending : Option Break
  /-- The reads that the input stream still delivers. -/
  supply : List Chunk
  byteBuffer : ByteBuffer
  /-- What the output stream has taken. -/
  sent : List UInt8

abbrev M := EStateM Failure Net

/-- An operation that may throw. -/
def io : M Unit := fun s =>
  match s.pending with
  | none => .ok () s
  | some ⟨0, _⟩ => .error .ioException s
  | some ⟨n + 1, through⟩ => .ok () { s with pending := some ⟨n, through⟩ }

/-- The last operation of an attempt: an exception that is due comes here at the latest. -/
def lastIo : M Unit := fun s =>
  match s.pending with
  | none => .ok () s
  | some _ => .error .ioException s

/-- OutputStream.write. -/
def write (bytes : List UInt8) : M Unit := fun s =>
  match s.pending with
  | some ⟨0, through⟩ => .error .ioException { s with sent := s.sent ++ bytes.take through }
  | some ⟨n + 1, through⟩ =>
    .ok () { s with pending := some ⟨n, through⟩, sent := s.sent ++ bytes }
  | none => .ok () { s with sent := s.sent ++ bytes }

/-- OutputStream.write of the first bytes of an array. -/
def writeFirst (bytes : List UInt8) (n : Nat) : M Unit := do
  if bytes.length < n then throw .indexOutOfBounds
  write (bytes.take n)

/-- InputStream.read of a block into m_byteBuffer. -/
def readBlock : M Int := do
  io
  let s ← get
  match s.supply with
  | [] => return -1
  | c :: rest => do
    set { s with supply := rest, byteBuffer := s.byteBuffer.load c }
    return c.bytes.length

/-- What is left of the reads once a byte of the first one is taken. -/
def restOf : Chunk → List Chunk → List Chunk
  | ⟨_, [], _⟩, rest => rest
  | ⟨_, b :: bs, h⟩, rest => ⟨b, bs, by rw [List.length_cons] at h; omega⟩ :: rest

/-- InputStream.read of a byte. -/
def readByte : M (Option UInt8) := do
  io
  let s ← get
  match s.supply with
  | [] => return none
  | c :: rest => do
    set { s with supply := restOf c rest }
    return some c.head

/-- The loop of bufferedRead: every read starts at the beginning of the array. -/
def bufferedReadFrom (bytesRead : Int) : Nat → M Int
  | 0 => throw .running
  | fuel + 1 =>
    if bytesRead < byteBufferSize then do
      let n ← readBlock
      if n < 0 then return bytesRead
      bufferedReadFrom (bytesRead + n) fuel
    else return bytesRead

def bufferedRead (fuel : Nat) : M Int := bufferedReadFrom 0 fuel

def bufferedReadByByteFrom (bytesRead : Nat) : Nat → M Int
  | 0 => throw .running
  | fuel + 1 =>
    if bytesRead < byteBufferSize then do
      match ← readByte with
      | none => return if 0 < bytesRead then (bytesRead : Int) else -1
      | some b => do
        modify (fun s => { s with byteBuffer := s.byteBuffer.set bytesRead b })
        bufferedReadByByteFrom (bytesRead + 1) fuel
    else return (bytesRead : Int)

def bufferedReadByByte (fuel : Nat) : M Int := bufferedReadByByteFrom 0 fuel

def writeBuffer (nRead : Int) : M Unit := do
  let s ← get
  writeFirst s.byteBuffer.1 nRead.toNat

/-- What an attempt meets: an exception, or an answer with its code and its body. -/
structure Attempt where
  fault : Option Break
  code : Nat
  reads : List Chunk

structure NetResponse where
  data : String
  code : Nat
  deriving DecidableEq

/-- A new connection. Setting it up is one operation. -/
def connect (t : Attempt) : M Unit := do
  modify (fun s => { s with pending := t.fault })
  io

/-- An attempt that ends with an exception is followed by another one, but for the last. -/
def retry {α : Type} (request : Attempt → M α) (attempts : Nat → Attempt) (nTry : Nat) :
    Nat → M α
  | 0 => request (attempts nTry)
  | left + 1 => tryCatch (request (attempts nTry)) (fun e =>
      if e = .ioException then retry request attempts (nTry + 1) left else throw e)

def asciiBytes (text : String) : List UInt8 := text.toList.map (fun c => UInt8.ofNat c.toNat)

@[irreducible] def multipartPrefix : List UInt8 := asciiBytes
  ("------------A6174410D6AD474183FDE48F5662FCC5\r\n" ++
   "Content-Disposition: form-data; name=\"blob\"; filename=\"doesnotmatter.png\"\r\n" ++
   "Content-Type: application/octet-stream\r\n\r\n")

@[irreducible] def multipartPostfix : List UInt8 := asciiBytes
  "\r\n------------A6174410D6AD474183FDE48F5662FCC5--"

section Requests

variable (readFully : List UInt8 → String) (fuel : Nat)

/-- The answer to a request, read as one operation; the text of an internal error is not. -/
def answer (t : Attempt) : M NetResponse := do
  lastIo
  return ⟨if t.code = httpInternalError then "" else readFully (contents t.reads), t.code⟩

def pushLoop : Nat → M Unit
  | 0 => throw .running
  | fuel + 1 => do
    let nRead ← bufferedRead fuel
    if 0 < nRead then
      writeBuffer nRead
      pushLoop fuel

/-- The file's stream is opened with its first read, by the first attempt that comes so far. -/
def pushFile1 (t : Attempt) : M NetResponse := do
  connect t
  modify (fun s => { s with sent := [] })
  write multipartPrefix
  pushLoop fuel
  write multipartPostfix
  answer readFully t

def pushFile (attempts : Nat → Attempt) : M NetResponse :=
  retry (pushFile1 readFully fuel) attempts 0 (maxNetRequestRetry - 1)

def pullLoop (bReadByBytes : Bool) : Nat → M Unit
  | 0 => throw .running
  | fuel + 1 => do
    let nRead ← if bReadByBytes then bufferedReadByByte fuel else bufferedRead fuel
    if 0 < nRead then writeBuffer nRead
    if 0 ≤ nRead then pullLoop bReadByBytes fuel

def pullFile1 (bReadByBytes : Bool) (t : Attempt) : M NetResponse := do
  connect t
  io
  if t.code = httpOk then
    modify (fun s => { s with supply := t.reads })
    pullLoop bReadByBytes fuel
    lastIo
    return ⟨"", t.code⟩
  else answer readFully t

def pullFile (bReadByBytes : Bool) (attempts : Nat → Attempt) : M NetResponse :=
  retry (pullFile1 readFully fuel bReadByBytes) attempts 0 (maxNetRequestRetry - 1)

/-- The file after its output stream, opened at the start, has taken some bytes. -/
def targetFile (old sent : List UInt8) : List UInt8 := sent ++ old.drop sent.length

/-- The body is a string of 16-bit units, encoded by the platform. -/
def doRequest (getBytes : List UInt16 → List UInt8) (strBody : List UInt16) (t : Attempt) :
    M NetResponse := do
  connect t
  modify (fun s => { s with sent := [] })
  if strBody ≠ [] then writeFirst (getBytes strBody) strBody.length
  lastIo
  return ⟨readFully (contents t.reads), t.code⟩

def doRequestTry (getBytes : List UInt16 → List UInt8) (strBody : List UInt16)
    (attempts : Nat → Attempt) : M NetResponse :=
  retry (doRequest readFully getBytes strBody) attempts 0 (maxNetRequestRetry - 1)

end Requests

end Rhodes.NetRequest
