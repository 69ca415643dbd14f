import Rhodes.PagedFile

/-!
PersistRAFileImpl: the methods that a handle offers on the FileInfo it shares with the other
handles of the same name. Each handle has its own position.
-/
namespace Rhodes.FileImpl

open Arrays PagedFile

/-- FileInfo; the listeners are the names of the files that are synced before this one. -/
structure FileInfo where
  useCount : Int
  fileExists : Bool
  syncOut : Int
  listenForSync : List String
  pages : PageTable

/-- The constructor of FileInfo. -/
def FileInfo.ofStored (s : Stored) : FileInfo where
  useCount := 0
  fileExists := s.size.isSome
  syncOut := 0
  listenForSync := []
  pages := PageTable.ofStored s

abbrev InfoM := EStateM Exn FileInfo

def checkUseCount : InfoM Unit := do
  if (← get).useCount ≤ 0 then throw .internalError

/-- What a method does to the pages of the file. -/
def onPages {α : Type} (act : TableM α) : InfoM α := fun info =>
  match act info.pages with
  | .ok a t => .ok a { info with pages := t }
  | .error e t => .error e { info with pages := t }

def setSize (newSize : Int) : InfoM Unit := do
  if newSize < 0 then throw .illegalArgument
  checkUseCount
  if (← get).pages.size = newSize.toNat then return
  onPages (resize newSize.toNat)

/-- `off < 0 || len < 0 || off + len > b.length`, where the sum is an int. -/
def checkBounds (b : List UInt8) (off len : Int) : InfoM Unit := do
  if off < 0 ∨ len < 0 ∨ toInt (off + len) > b.length then throw .indexOutOfBounds

/-- read(), with the position. -/
def readOne (pos : Nat) : InfoM (Int × Nat) := do
  checkUseCount
  onPages (read pos)

/-- read(b, off, len), with the position. -/
def readMany (pos : Nat) (b : List UInt8) (off len : Int) : InfoM Reading := do
  checkBounds b off len
  if len = 0 then return ⟨0, b, pos⟩
  checkUseCount
  onPages (readBytes pos b off.toNat len.toNat)

/-- write(int), with the position; the value is cast to a byte. -/
def writeOne (pos : Nat) (b : Int) : InfoM Nat := do
  checkUseCount
  onPages (write pos (UInt8.ofInt b))

/-- write(b, off, len), with the position. -/
def writeMany (pos : Nat) (b : List UInt8) (off len : Int) : InfoM Nat := do
  checkBounds b off len
  if len = 0 then return pos
  checkUseCount
  onPages (writeBytes pos b off.toNat len.toNat)

section Specs

variable {info : FileInfo}

theorem onPages_ok {α : Type} {act : TableM α} {a : α} {t : PageTable}
    (h : act info.pages = .ok a t) : onPages act info = .ok a { info with pages := t } := by
  rw [onPages, h]

/-- The check of the use count passes while a handle is open. -/
theorem checkUseCount_bind {α : Type} (huse : 0 < info.useCount) (f : Unit → InfoM α) :
    (checkUseCount >>= f) info = f () info := by
  have hcheck : checkUseCount info = .ok () info := by
    unfold checkUseCount
    rw [bind_get, if_neg (by omega)]
    rfl
  exact bind_ok hcheck f

theorem checkBounds_ok {b : List UInt8} {off len : Int} (hoff : 0 ≤ off) (hlen : 0 ≤ len)
    (hint : off + len < 2147483648) (hb : off + len ≤ b.length) :
    checkBounds b off len info = .ok () info := by
  unfold checkBounds
  rw [toInt_eq (by omega) hint, if_neg (by omega)]
  rfl

theorem checkBounds_error {b : List UInt8} {off len : Int} (hint : off + len < 2147483648)
    (h : ¬(0 ≤ off ∧ 0 ≤ len ∧ off + len ≤ b.length)) :
    checkBounds b off len info = .error .indexOutOfBounds info := by
  have hfails : off < 0 ∨ len < 0 ∨ toInt (off + len) > b.length := by
    by_cases hneg : off < 0 ∨ len < 0
    · omega
    · rw [toInt_eq (by omega) hint]
      omega
  unfold checkBounds
  rw [if_pos hfails]
  rfl

variable {pos : Nat} {t : PageTable}

theorem readOne_ok (huse : 0 < info.useCount) {r : Int × Nat}
    (h : read pos info.pages = .ok r t) : readOne pos info = .ok r { info with pages := t } := by
  unfold readOne
  rw [checkUseCount_bind huse]
  exact onPages_ok h

theorem writeOne_ok (huse : 0 < info.useCount) {b : Int} {pos' : Nat}
    (h : PagedFile.write pos (UInt8.ofInt b) info.pages = .ok pos' t) :
    writeOne pos b info = .ok pos' { info with pages := t } := by
  unfold writeOne
  rw [checkUseCount_bind huse]
  exact onPages_ok h

theorem readMany_ok (huse : 0 < info.useCount) {b : List UInt8} {off len : Int}
    (hbounds : checkBounds b off len info = .ok () info) (hlen : len ≠ 0) {r : Reading}
    (h : readBytes pos b off.toNat len.toNat info.pages = .ok r t) :
    readMany pos b off len info = .ok r { info with pages := t } := by
  unfold readMany
  rw [bind_ok hbounds, if_neg hlen, checkUseCount_bind huse]
  exact onPages_ok h

theorem writeMany_ok (huse : 0 < info.useCount) {b : List UInt8} {off len : Int}
    (hbounds : checkBounds b off len info = .ok () info) (hlen : len ≠ 0) {pos' : Nat}
    (h : writeBytes pos b off.toNat len.toNat info.pages = .ok pos' t) :
    writeMany pos b off len info = .ok pos' { info with pages := t } := by
  unfold writeMany
  rw [bind_ok hbounds, if_neg hlen, checkUseCount_bind huse]
  exact onPages_ok h

/-- setSize to another size. -/
theorem setSize_ok (huse : 0 < info.useCount) {newSize : Nat} (hne : info.pages.size ≠ newSize)
    (h : resize newSize info.pages = .ok () t) :
    setSize newSize info = .ok () { info with pages := t } := by
  unfold setSize
  rw [if_neg (by omega)]
  show (checkUseCount >>= _) info = _
  rw [checkUseCount_bind huse, bind_get, Int.toNat_natCast, if_neg hne]
  exact onPages_ok h

theorem setSize_same (huse : 0 < info.useCount) :
    setSize info.pages.size info = .ok () info := by
  unfold setSize
  rw [if_neg (by omega)]
  show (checkUseCount >>= _) info = _
  rw [checkUseCount_bind huse, bind_get, Int.toNat_natCast, if_pos rfl]
  rfl

end Specs

end Rhodes.FileImpl
