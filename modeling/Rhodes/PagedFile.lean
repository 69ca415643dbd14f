import Mathlib
import Rhodes.Arrays

/-!
FileInfo of PersistRAFileImpl.java: the pages of a file, those that are loaded and those that
are dirty, over the records of the file in the PersistentStore. A page that is not dirty can
be unloaded at any time, since it is read back from its record; what a reader sees of the
file is the content of the loaded pages and the records of the others.
-/
namespace Rhodes.PagedFile

open Arrays

/-- PAGE_SIZE. -/
def pageSize : Nat := 4096

/-- MAX_CLEAR_PAGES_CACHED. -/
def maxClearPagesCached : Int := 2

abbrev PageBytes := { c : List UInt8 // c.length = pageSize }

def emptyPage : PageBytes := ⟨List.replicate pageSize 0, List.length_replicate⟩

structure Page where
  content : Option PageBytes
  dirty : Bool

/-- FileInfoWrapper and PageWrapper under the keys of one file. -/
structure Stored where
  size : Option Nat
  page : Nat → Option PageBytes

/-- What getPage reads for a page that is not loaded. -/
def Stored.bytes (s : Stored) (n : Nat) : PageBytes := (s.page n).getD emptyPage

/-- m_size, m_pages, m_loaded and m_dirty of a FileInfo with the records of the file. -/
structure PageTable where
  size : Nat
  pages : List Page
  loaded : Int
  dirty : Int
  stored : Stored

inductive Exn where
  | indexOutOfBounds
  | negativeArraySize
  | illegalArgument
  | internalError
  | illegalMode
  | fileNotFound
  | cannotStart
  | eof
  deriving DecidableEq

abbrev TableM := EStateM Exn PageTable

/-- The part of the constructor of FileInfo that reads the records. -/
def PageTable.ofStored (s : Stored) : PageTable where
  size := s.size.getD 0
  pages := List.replicate (toInt (toInt (s.size.getD 0 / pageSize : Nat) + 1)).toNat ⟨none, false⟩
  loaded := 0
  dirty := 0
  stored := s

/-- The loop of unloadClearPages below an index; a page without content counts as unloaded too. -/
def unloadBelow : Nat → Int → PageTable → PageTable
  | 0, _, t => t
  | i + 1, needToClear, t =>
    if needToClear > 0 ∧ t.loaded > 0 then
      match t.pages[i]? with
      | some ⟨_, false⟩ =>
        unloadBelow i (needToClear - 1)
          { t with pages := t.pages.set i ⟨none, false⟩, loaded := t.loaded - 1 }
      | _ => unloadBelow i needToClear t
    else t

def unloadClearPages (needToClear : Int) (t : PageTable) : PageTable :=
  unloadBelow t.pages.length needToClear t

/-- The array of the page is written to. -/
def setContent (n : Nat) (c : PageBytes) (t : PageTable) : PageTable :=
  match t.pages[n]? with
  | some page => { t with pages := t.pages.set n ⟨some c, page.dirty⟩ }
  | none => t

def setPageDirty (n : Nat) (t : PageTable) : PageTable :=
  match t.pages[n]? with
  | some ⟨content, false⟩ =>
    { t with pages := t.pages.set n ⟨content, true⟩, dirty := t.dirty + 1 }
  | _ => t

/-- The page is read from its record after some others have been unloaded. -/
def loadPage (n : Nat) (t : PageTable) : PageTable :=
  let clearPages := t.loaded - t.dirty - (maxClearPagesCached - 1)
  let t := if clearPages > 0 then unloadClearPages clearPages t else t
  let t := setContent n (t.stored.bytes n) t
  { t with loaded := t.loaded + 1 }

def getPage (n : Int) : TableM PageBytes := fun t =>
  if n < 0 then .error .indexOutOfBounds t
  else match t.pages[n.toNat]? with
    | none => .error .indexOutOfBounds t
    | some ⟨some c, _⟩ => .ok c t
    | some ⟨none, _⟩ => .ok (t.stored.bytes n.toNat) (loadPage n.toNat t)

def Stored.destroyPages (s : Stored) (start stop : Int) : Stored :=
  { s with page := fun n => if start ≤ n ∧ n ≤ stop then none else s.page n }

/-- A negative start still destroys the records, before the new array is refused. -/
def deletePages (start stop : Int) : TableM Unit := fun t =>
  let rm := stop - start + 1
  if start < 0 then .error .negativeArraySize { t with stored := t.stored.destroyPages start stop }
  else .ok () { t with
    pages := t.pages.take start.toNat ++ t.pages.drop (stop + 1).toNat
    loaded := if t.loaded - rm < 0 then 0 else t.loaded - rm
    stored := t.stored.destroyPages start stop }

/-- FileInfo.setSize. -/
def resize (newSize : Nat) : TableM Unit := do
  let n := toInt (newSize / pageSize + 1 : Nat)
  let prevSize := (← get).pages.length
  if n < prevSize then deletePages n (prevSize - 1)
  modify (fun t => { t with
    size := newSize
    pages := t.pages ++ List.replicate (n - prevSize).toNat ⟨none, false⟩ })

/-- What sync hands to the store, in this order. -/
inductive Commit where
  | page (n : Nat) (c : PageBytes)
  | size (n : Nat)

def Stored.commit (s : Stored) : Commit → Stored
  | .page n c => { s with page := fun m => if m = n then some c else s.page m }
  | .size n => { s with size := some n }

/-- The loop of sync below an index, with the commits it makes. -/
def syncBelow : Nat → PageTable → PageTable × List Commit
  | 0, t => (t, [])
  | i + 1, t =>
    if t.dirty > 0 then
      match t.pages[i]? with
      | some ⟨some c, true⟩ =>
        let rest := syncBelow i { t with
          pages := t.pages.set i ⟨some c, false⟩
          dirty := t.dirty - 1
          stored := t.stored.commit (.page i c) }
        (rest.1, .page i c :: rest.2)
      | _ => syncBelow i t
    else (t, [])

/-- FileInfo.sync, but for its listeners. -/
def sync (t : PageTable) : PageTable × List Commit :=
  let pages := syncBelow t.pages.length t
  let clearPages := pages.1.loaded - pages.1.dirty - maxClearPagesCached
  let t := if clearPages > 0 then unloadClearPages clearPages pages.1 else pages.1
  ({ t with stored := t.stored.commit (.size t.size) }, pages.2 ++ [.size t.size])

section Methods

/-- getPageNumber. -/
def getPageNumber (pos : Nat) : Int := toInt (pos / pageSize : Nat)

/-- A copy into the array of a page. -/
def PageBytes.copyFrom (c : PageBytes) (dstPos : Nat) (src : List UInt8) (srcPos length : Nat) :
    Option PageBytes :=
  if h : srcPos + length ≤ src.length ∧ dstPos + length ≤ c.val.length then
    some ⟨splice c.val dstPos ((src.drop srcPos).take length), by
      rw [length_splice, c.property]
      simp only [List.length_take, List.length_drop]
      omega⟩
  else none

def checked {α : Type} : Option α → TableM α
  | some a => pure a
  | none => throw .indexOutOfBounds

/-- A byte of Java as an int. -/
def signed (b : UInt8) : Int := if b.toNat < 128 then b.toNat else (b.toNat : Int) - 256

/-- The number of bytes in the first page: `PAGE_SIZE - (int)m_nSeekPos%PAGE_SIZE`, where the
cast is done before the remainder. -/
def firstChunk (pos len : Nat) : Nat :=
  if getPageNumber pos = getPageNumber (pos + len) then len
  else (pageSize - (toInt pos).tmod pageSize).toNat

/-- read() on an open handle, with the position. -/
def read (pos : Nat) : TableM (Int × Nat) := do
  if pos ≥ (← get).size then return (-1, pos)
  let content ← getPage (getPageNumber pos)
  return (signed (content.val.getD (pos % pageSize) 0), pos + 1)

/-- The loop over the pages after the first one; they are copied to b[n], not to b[off + n]. -/
def readPages (endPage : Int) (last : Nat) : Nat → Int → List UInt8 → Nat → TableM (List UInt8 × Nat)
  | 0, _, b, n => return (b, n)
  | k + 1, i, b, n => do
    let content ← getPage i
    let howmuch := if i = endPage then last else pageSize
    let b ← checked (arraycopy content.val 0 b n howmuch)
    readPages endPage last k (i + 1) b (n + howmuch)

/-- The result of read(b, off, len), the buffer and the position. -/
structure Reading where
  count : Int
  buffer : List UInt8
  pos : Nat

/-- read(b, off, len) after its checks. -/
def readBytes (pos : Nat) (b : List UInt8) (off len : Nat) : TableM Reading := do
  let size := (← get).size
  if pos ≥ size then return ⟨-1, b, pos⟩
  let len := if pos + len > size then size - pos else len
  let startPage := getPageNumber pos
  let endPage := getPageNumber (pos + len)
  let n := firstChunk pos len
  let content ← getPage startPage
  let b ← checked (arraycopy content.val (pos % pageSize) b off n)
  let (b, n) ← readPages endPage ((pos + len) % pageSize) (endPage - startPage).toNat
    (startPage + 1) b n
  return ⟨n, b, pos + n⟩

/-- A page is overwritten from a position on and becomes dirty. -/
def writePage (i : Int) (dstPos : Nat) (b : List UInt8) (off n : Nat) : TableM Unit := do
  let content ← getPage i
  let content ← checked (content.copyFrom dstPos b off n)
  modify (setContent i.toNat content)
  modify (setPageDirty i.toNat)

/-- write(int) on an open handle, with the position. -/
def write (pos : Nat) (b : UInt8) : TableM Nat := do
  if pos ≥ (← get).size then resize (pos + 1)
  writePage (getPageNumber pos) (pos % pageSize) [b] 0 1
  return pos + 1

def writePages (endPage : Int) (last : Nat) (b : List UInt8) (off : Nat) :
    Nat → Int → Nat → TableM Nat
  | 0, _, n => return n
  | k + 1, i, n => do
    let howmuch := if i = endPage then last else pageSize
    writePage i 0 b (off + n) howmuch
    writePages endPage last b off k (i + 1) (n + howmuch)

/-- write(b, off, len) after its checks. -/
def writeBytes (pos : Nat) (b : List UInt8) (off len : Nat) : TableM Nat := do
  if pos + len ≥ (← get).size then resize (pos + len)
  let startPage := getPageNumber pos
  let endPage := getPageNumber (pos + len)
  let n := firstChunk pos len
  writePage startPage (pos % pageSize) b off n
  let n ← writePages endPage ((pos + len) % pageSize) b off (endPage - startPage).toNat
    (startPage + 1) n
  return pos + n

end Methods

end Rhodes.PagedFile
