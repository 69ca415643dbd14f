import Rhodes.FileImpl
import Rhodes.PagedFileSpecs

/-!
The paged file against a plain resizable array of bytes: what each call on one of several
handles returns, over every sequence of calls. The array leaves the bytes open that a new
size exposes. The file differs from it where read() meets a byte above 127, where a read over
several pages starts inside its buffer, and where a position or an end does not fit into the
int it is cast to.
-/
namespace Rhodes.FileRefinement

open Arrays PagedFile FileImpl

/-- A plain resizable array of bytes; the value of a byte can be open. -/
structure ByteFile where
  size : Nat
  byte : Nat → Option UInt8
  outside : ∀ i, size ≤ i → byte i = none

def ByteFile.resize (a : ByteFile) (n : Nat) : ByteFile where
  size := n
  byte i := if i < n then a.byte i else none
  outside i hi := if_neg (by omega)

def ByteFile.write (a : ByteFile) (pos : Nat) (seg : List UInt8) : ByteFile where
  size := max a.size (pos + seg.length)
  byte := overlay a.byte pos (seg.map some)
  outside i hi := by
    have hlength : (seg.map some).length = seg.length := List.length_map _
    rw [overlay_of_le _ (by omega)]
    exact a.outside i (by omega)

structure Handle where
  writable : Bool
  seekPos : Nat

/-- The handles of one name with the FileInfo that they share. -/
structure Files where
  info : FileInfo
  handles : Nat → Handle

/-- A call on a handle, or an eviction. -/
inductive Op where
  | seek (h pos : Nat)
  | setSize (h : Nat) (newSize : Int)
  | write (h : Nat) (b : Int)
  | writeBytes (h : Nat) (b : List UInt8) (off len : Int)
  | read (h : Nat)
  | readBytes (h : Nat) (b : List UInt8) (off len : Int)
  | sync (h : Nat)
  | unloadClearPages (needToClear : Int)

inductive Out where
  | done
  | int (n : Int)
  | bytes (count : Int) (b : List UInt8)
  deriving DecidableEq

def Files.setPos (s : Files) (h pos : Nat) : Files :=
  { s with handles := fun k => if k = h then { s.handles h with seekPos := pos } else s.handles k }

/-- A call that works on the shared file and moves the position of its handle. -/
def onInfo {α : Type} (s : Files) (h : Nat) (pos : α → Nat) (out : α → Out) :
    EStateM.Result Exn FileInfo α → Except Exn Out × Files
  | .ok a info => (.ok (out a), { s with info := info }.setPos h (pos a))
  | .error e info => (.error e, { s with info := info })

/-- sync() of a file without listeners. -/
def syncHandle (s : Files) (h : Nat) : Except Exn Out × Files :=
  if (s.handles h).writable = false then (.error .illegalMode, s)
  else if s.info.useCount ≤ 0 then (.error .internalError, s)
  else if s.info.fileExists = true ∧ s.info.syncOut = 0 then
    (.ok .done, { s with info := { s.info with pages := (PagedFile.sync s.info.pages).1 } })
  else (.ok .done, s)

def exec (s : Files) : Op → Except Exn Out × Files
  | .seek h pos => (.ok .done, s.setPos h pos)
  | .setSize h newSize =>
    onInfo s h (fun _ => (s.handles h).seekPos) (fun _ => .done) (setSize newSize s.info)
  | .write h b => onInfo s h id (fun _ => .done) (writeOne (s.handles h).seekPos b s.info)
  | .writeBytes h b off len =>
    onInfo s h id (fun _ => .done) (writeMany (s.handles h).seekPos b off len s.info)
  | .read h => onInfo s h Prod.snd (fun r => .int r.1) (readOne (s.handles h).seekPos s.info)
  | .readBytes h b off len =>
    onInfo s h Reading.pos (fun r => .bytes r.count r.buffer)
      (readMany (s.handles h).seekPos b off len s.info)
  | .sync h => syncHandle s h
  | .unloadClearPages needToClear =>
    (.ok .done, { s with
      info := { s.info with pages := PagedFile.unloadClearPages needToClear s.info.pages } })

/-- The array with the positions of the handles. -/
structure Spec where
  file : ByteFile
  pos : Nat → Nat

def Spec.setPos (a : Spec) (h pos : Nat) : Spec :=
  { a with pos := fun k => if k = h then pos else a.pos k }

/-- The arguments that a call accepts. -/
def Accepted : Op → Prop
  | .setSize _ newSize => 0 ≤ newSize
  | .writeBytes _ b off len => 0 ≤ off ∧ 0 ≤ len ∧ off + len ≤ b.length
  | .readBytes _ b off len => 0 ≤ off ∧ 0 ≤ len ∧ off + len ≤ b.length
  | _ => True

instance : DecidablePred Accepted
  | .seek _ _ => .isTrue trivial
  | .setSize _ newSize => inferInstanceAs (Decidable (0 ≤ newSize))
  | .write _ _ => .isTrue trivial
  | .writeBytes _ b off len => inferInstanceAs (Decidable (0 ≤ off ∧ 0 ≤ len ∧ off + len ≤ b.length))
  | .read _ => .isTrue trivial
  | .readBytes _ b off len => inferInstanceAs (Decidable (0 ≤ off ∧ 0 ≤ len ∧ off + len ≤ b.length))
  | .sync _ => .isTrue trivial
  | .unloadClearPages _ => .isTrue trivial

/-- The bytes that are left to read. -/
def available (size pos len : Nat) : Nat := min len (size - pos)

def Spec.apply (a : Spec) : Op → Spec
  | .seek h pos => a.setPos h pos
  | .setSize _ newSize => { a with file := a.file.resize newSize.toNat }
  | .write h b => { a with file := a.file.write (a.pos h) [UInt8.ofInt b] }.setPos h (a.pos h + 1)
  | .writeBytes h b off len =>
    let seg := (b.drop off.toNat).take len.toNat
    if len = 0 then a
    else { a with file := a.file.write (a.pos h) seg }.setPos h (a.pos h + len.toNat)
  | .read h => if a.file.size ≤ a.pos h then a else a.setPos h (a.pos h + 1)
  | .readBytes h _ _ len => a.setPos h (a.pos h + available a.file.size (a.pos h) len.toNat)
  | .sync _ => a
  | .unloadClearPages _ => a

/-- The array after a call; one that is not accepted does nothing. -/
def Spec.step (a : Spec) (op : Op) : Spec := if Accepted op then a.apply op else a

/-- What read() returns: the byte from 0 to 255, or -1 at the end. -/
def ReadAnswer (a : ByteFile) (pos : Nat) (r : Int) : Prop :=
  if a.size ≤ pos then r = -1
  else 0 ≤ r ∧ r ≤ 255 ∧ ∀ v, a.byte pos = some v → r = v.toNat

/-- What read(b, off, len) returns and leaves in the buffer. -/
structure ReadBytesAnswer (a : ByteFile) (pos : Nat) (b : List UInt8) (off len : Nat) (count : Int)
    (b' : List UInt8) : Prop where
  count : count = if len = 0 then 0 else if a.size ≤ pos then -1
    else (available a.size pos len : Int)
  length : b'.length = b.length
  filled : ∀ j v, j < available a.size pos len → a.byte (pos + j) = some v → b'[off + j]? = some v
  kept : ∀ j, ¬(off ≤ j ∧ j < off + available a.size pos len) → b'[j]? = b[j]?

def Answer (a : Spec) (op : Op) (r : Except Exn Out) : Prop :=
  match op with
  | .seek _ _ => r = .ok .done
  | .write _ _ => r = .ok .done
  | .read h => ∃ n, r = .ok (.int n) ∧ ReadAnswer a.file (a.pos h) n
  | .setSize _ _ => if Accepted op then r = .ok .done else ∃ e, r = .error e
  | .writeBytes _ _ _ _ => if Accepted op then r = .ok .done else ∃ e, r = .error e
  | .readBytes h b off len =>
    if Accepted op then ∃ count b', r = .ok (.bytes count b') ∧
      ReadBytesAnswer a.file (a.pos h) b off.toNat len.toNat count b'
    else ∃ e, r = .error e
  | .sync _ => True
  | .unloadClearPages _ => True

/-- Every call of the sequence is answered as the array would. -/
def Refines : List Op → Files → Spec → Prop
  | [], _, _ => True
  | op :: ops, s, a => Answer a op (exec s op).1 ∧ Refines ops (exec s op).2 (a.step op)

/-- The calls that keep away from the casts to int, from a signed byte and from the buffer
offset of the later pages. -/
def Safe (s : Files) : Op → Prop
  | .seek _ _ => True
  | .setSize _ newSize => newSize < maxSize
  | .write h _ => (s.handles h).seekPos + 1 < maxSize
  | .writeBytes h b off len => off + len < 2147483648 ∧
      (Accepted (.writeBytes h b off len) → 0 < len →
        (s.handles h).seekPos + len.toNat < maxSize ∧ ChunkSafe (s.handles h).seekPos len.toNat)
  | .read h => (s.handles h).seekPos < s.info.pages.size →
      s.info.pages.byte (s.handles h).seekPos < 128
  | .readBytes h b off len => off + len < 2147483648 ∧
      (Accepted (.readBytes h b off len) → 0 < len → (s.handles h).seekPos < s.info.pages.size →
        ChunkSafe (s.handles h).seekPos
          (available s.info.pages.size (s.handles h).seekPos len.toNat) ∧
        (off = 0 ∨ (s.handles h).seekPos % pageSize +
          available s.info.pages.size (s.handles h).seekPos len.toNat ≤ pageSize))
  | .sync _ => True
  | .unloadClearPages _ => True

instance (pos len : Nat) : Decidable (ChunkSafe pos len) :=
  inferInstanceAs (Decidable (_ ∨ _ ∨ _))

instance (s : Files) : DecidablePred (Safe s)
  | .seek _ _ => .isTrue trivial
  | .setSize _ _ => inferInstanceAs (Decidable (_ < _))
  | .write _ _ => inferInstanceAs (Decidable (_ < _))
  | .writeBytes _ _ _ _ => inferInstanceAs (Decidable (_ ∧ (_ → _ → _ ∧ _)))
  | .read _ => inferInstanceAs (Decidable (_ → _ < _))
  | .readBytes _ _ _ _ => inferInstanceAs (Decidable (_ ∧ (_ → _ → _ → _ ∧ (_ ∨ _))))
  | .sync _ => .isTrue trivial
  | .unloadClearPages _ => .isTrue trivial

def SafeRun : List Op → Files → Prop
  | [], _ => True
  | op :: ops, s => Safe s op ∧ SafeRun ops (exec s op).2

instance decidableSafeRun : (ops : List Op) → (s : Files) → Decidable (SafeRun ops s)
  | [], _ => .isTrue trivial
  | op :: ops, s =>
    have := decidableSafeRun ops (exec s op).2
    inferInstanceAs (Decidable (Safe s op ∧ SafeRun ops (exec s op).2))

/-- The array that the file stands for. -/
structure Represents (s : Files) (a : Spec) : Prop where
  valid : s.info.pages.Valid
  opened : 0 < s.info.useCount
  size : a.file.size = s.info.pages.size
  byte : ∀ i v, a.file.byte i = some v → s.info.pages.byte i = v
  pos : ∀ h, a.pos h = (s.handles h).seekPos

section Step

variable {s : Files} {a : Spec}

theorem Represents.setPos (hs : Represents s a) (h pos : Nat) :
    Represents (s.setPos h pos) (a.setPos h pos) where
  valid := hs.valid
  opened := hs.opened
  size := hs.size
  byte := hs.byte
  pos k := by
    show (if k = h then pos else a.pos k) =
      (if k = h then { s.handles h with seekPos := pos } else s.handles k).seekPos
    split
    · rfl
    · exact hs.pos k

theorem Represents.setPos_self (hs : Represents s a) (h : Nat) :
    Represents (s.setPos h (s.handles h).seekPos) a := by
  have hset := hs.setPos h (s.handles h).seekPos
  have ha : a.setPos h (s.handles h).seekPos = a := by
    have hpos : (fun k => if k = h then (s.handles h).seekPos else a.pos k) = a.pos := by
      funext k
      split
      · rename_i hk
        rw [hk, hs.pos]
      · rfl
    rw [Spec.setPos, hpos]
  rwa [ha] at hset

/-- The pages have changed for a reader as the array has. -/
theorem Represents.setPages (hs : Represents s a) {t : PageTable} {f : ByteFile} (ht : t.Valid)
    (hsize : f.size = t.size) (hbyte : ∀ i v, f.byte i = some v → t.byte i = v) :
    Represents { s with info := { s.info with pages := t } } { a with file := f } :=
  ⟨ht, hs.opened, hsize, hbyte, hs.pos⟩

theorem Represents.unseen (hs : Represents s a) {t : PageTable} (ht : t.Valid)
    (h : SameView s.info.pages t) : Represents { s with info := { s.info with pages := t } } a := by
  apply hs.setPages ht (hs.size.trans h.size.symm)
  intro i v hv
  rw [h.byte]
  exact hs.byte i v hv

/-- What is written to the pages is written to the array. -/
theorem Represents.wrote (hs : Represents s a) {t : PageTable} {pos : Nat} {seg : List UInt8}
    (h : Wrote s.info.pages t pos seg) :
    Represents { s with info := { s.info with pages := t } }
      { a with file := a.file.write pos seg } := by
  apply hs.setPages h.valid
  · show max a.file.size (pos + seg.length) = t.size
    rw [h.size, hs.size]
  · intro i v hv
    rw [h.byte]
    change overlay a.file.byte pos (seg.map some) i = some v at hv
    unfold overlay at hv ⊢
    split
    · rename_i hle
      rw [if_pos hle, List.getElem?_map] at hv
      cases hget : seg[i - pos]? with
      | none =>
        rw [hget] at hv
        exact hs.byte i v hv
      | some u =>
        rw [hget] at hv
        exact Option.some.inj hv
    · rename_i hlt
      rw [if_neg hlt] at hv
      exact hs.byte i v hv

theorem Represents.resized (hs : Represents s a) {t : PageTable} {newSize : Nat}
    (h : Resized s.info.pages t newSize) :
    Represents { s with info := { s.info with pages := t } }
      { a with file := a.file.resize newSize } := by
  apply hs.setPages h.valid h.size.symm
  intro i v hv
  change (if i < newSize then a.file.byte i else none) = some v at hv
  split at hv
  · rename_i hi
    have hpage : i / pageSize < newSize / pageSize + 1 :=
      Nat.lt_succ_of_le (Nat.div_le_div_right (Nat.le_of_lt hi))
    rw [PageTable.byte, h.bytes _ hpage]
    exact hs.byte i v hv
  · cases hv

/-- The call is answered as the array would, and the file stands for the array after it. -/
def Conforms (s : Files) (a : Spec) (op : Op) : Prop :=
  Answer a op (exec s op).1 ∧ Represents (exec s op).2 (a.step op)

theorem conforms_setSize (hs : Represents s a) {h : Nat} {newSize : Int}
    (hsafe : newSize < maxSize) : Conforms s a (.setSize h newSize) := by
  unfold Conforms Answer Spec.step
  by_cases hacc : 0 ≤ newSize
  · have hacc' : Accepted (.setSize h newSize) := hacc
    obtain ⟨n, rfl⟩ := Int.eq_ofNat_of_zero_le hacc
    rw [if_pos hacc', if_pos hacc']
    by_cases heq : s.info.pages.size = n
    · have hresult : setSize n s.info = .ok () s.info := heq ▸ setSize_same hs.opened
      rw [exec, hresult]
      refine ⟨rfl, Represents.setPos_self (s := s) (hs.setPages hs.valid heq.symm ?_) h⟩
      intro i v hv
      apply hs.byte i v
      change (if i < n then a.file.byte i else none) = some v at hv
      split at hv
      · exact hv
      · cases hv
    · obtain ⟨t, hresize, hresized⟩ := resize_spec hs.valid (show n < maxSize by omega)
      rw [exec, setSize_ok hs.opened heq hresize]
      exact ⟨rfl, (hs.resized hresized).setPos_self h⟩
  · have hresult : setSize newSize s.info = .error .illegalArgument s.info := by
      unfold setSize
      rw [if_pos (by omega)]
      rfl
    rw [if_neg (show ¬Accepted (.setSize h newSize) from hacc),
      if_neg (show ¬Accepted (.setSize h newSize) from hacc), exec, hresult]
    exact ⟨⟨_, rfl⟩, hs⟩

theorem conforms_write (hs : Represents s a) {h : Nat} (b : Int)
    (hsafe : (s.handles h).seekPos + 1 < maxSize) : Conforms s a (.write h b) := by
  obtain ⟨t, hwrite, hwrote⟩ := write_spec hs.valid hsafe (UInt8.ofInt b)
  have hnext := (hs.wrote hwrote).setPos h ((s.handles h).seekPos + 1)
  rw [← hs.pos h] at hnext
  rw [Conforms, exec, writeOne_ok hs.opened hwrite]
  refine ⟨rfl, ?_⟩
  rw [← hs.pos h]
  exact hnext

theorem conforms_writeBytes (hs : Represents s a) {h : Nat} {b : List UInt8} {off len : Int}
    (hint : off + len < 2147483648)
    (hsafe : Accepted (.writeBytes h b off len) → 0 < len →
      (s.handles h).seekPos + len.toNat < maxSize ∧ ChunkSafe (s.handles h).seekPos len.toNat) :
    Conforms s a (.writeBytes h b off len) := by
  unfold Conforms Answer Spec.step
  by_cases hacc : 0 ≤ off ∧ 0 ≤ len ∧ off + len ≤ b.length
  · have hacc' : Accepted (.writeBytes h b off len) := hacc
    have hbounds : checkBounds b off len s.info = .ok () s.info :=
      checkBounds_ok hacc.1 hacc.2.1 hint hacc.2.2
    rw [if_pos hacc', if_pos hacc']
    by_cases hzero : len = 0
    · have hresult : writeMany (s.handles h).seekPos b off len s.info =
          .ok (s.handles h).seekPos s.info := by
        unfold writeMany
        rw [bind_ok hbounds, if_pos hzero]
        rfl
      rw [exec, hresult, Spec.apply, if_pos hzero]
      exact ⟨rfl, hs.setPos_self h⟩
    · obtain ⟨hsmall, hchunk⟩ := hsafe hacc' (by omega)
      obtain ⟨t, hwrite, hwrote⟩ := writeBytes_spec hs.valid b off.toNat len.toNat
        (show 0 < len.toNat by omega) hsmall (by omega) hchunk
      have hnext := (hs.wrote hwrote).setPos h ((s.handles h).seekPos + len.toNat)
      rw [exec, writeMany_ok hs.opened hbounds hzero hwrite, Spec.apply, if_neg hzero, hs.pos h]
      exact ⟨rfl, hnext⟩
  · have hresult : writeMany (s.handles h).seekPos b off len s.info =
        .error .indexOutOfBounds s.info := by
      unfold writeMany
      show EStateM.bind _ _ _ = _
      rw [EStateM.bind, checkBounds_error hint hacc]
    rw [if_neg (show ¬Accepted (.writeBytes h b off len) from hacc),
      if_neg (show ¬Accepted (.writeBytes h b off len) from hacc), exec, hresult]
    exact ⟨⟨_, rfl⟩, hs⟩

theorem signed_of_lt {b : UInt8} (h : b < 128) : signed b = b.toNat :=
  if_pos (UInt8.lt_iff_toNat_lt.mp h)

theorem conforms_read (hs : Represents s a) {h : Nat}
    (hsafe : (s.handles h).seekPos < s.info.pages.size →
      s.info.pages.byte (s.handles h).seekPos < 128) : Conforms s a (.read h) := by
  have hstep : a.step (.read h) = a.apply (.read h) := if_pos trivial
  rw [Conforms, hstep, Answer, Spec.apply, hs.pos h, hs.size]
  by_cases hend : s.info.pages.size ≤ (s.handles h).seekPos
  · rw [exec, readOne_ok hs.opened (read_end hend), if_pos hend]
    refine ⟨⟨-1, rfl, ?_⟩, hs.setPos_self h⟩
    rw [ReadAnswer, if_pos (hs.size.symm ▸ hend)]
  · have hpos : (s.handles h).seekPos < s.info.pages.size := by omega
    obtain ⟨t, hread, hunseen⟩ := read_spec hs.valid hpos
    rw [exec, readOne_ok hs.opened hread, if_neg hend, signed_of_lt (hsafe hpos)]
    refine ⟨⟨_, rfl, ?_⟩, (hs.unseen hunseen.valid hunseen.toSameView).setPos h _⟩
    have hlt := UInt8.toNat_lt (s.info.pages.byte (s.handles h).seekPos)
    rw [ReadAnswer, if_neg (hs.size.symm ▸ hend)]
    refine ⟨by omega, by omega, ?_⟩
    intro v hv
    rw [hs.byte _ v hv]

/-- The buffer that readBytes_spec speaks of holds what the array has. -/
theorem readBytesAnswer_splice (hs : Represents s a) {h : Nat} (b : List UInt8) (off len : Nat)
    (hlen : 0 < len) (hb : off + len ≤ b.length)
    (hpos : (s.handles h).seekPos < s.info.pages.size) :
    ReadBytesAnswer a.file (a.pos h) b off len
      (available s.info.pages.size (s.handles h).seekPos len)
      (splice b off (segment s.info.pages.byte (s.handles h).seekPos
        (available s.info.pages.size (s.handles h).seekPos len))) := by
  have hle : off + (segment s.info.pages.byte (s.handles h).seekPos
      (available s.info.pages.size (s.handles h).seekPos len)).length ≤ b.length := by
    rw [length_segment, available]
    omega
  rw [hs.pos h]
  refine ⟨?_, length_splice hle, ?_, ?_⟩
  · rw [if_neg (by omega), hs.size, if_neg (by omega)]
  · intro j v hj hv
    rw [hs.size] at hj
    rw [getElem?_splice hle, length_segment, if_pos (by omega), Nat.add_sub_cancel_left,
      getElem?_segment _ _ hj, hs.byte _ v hv]
  · intro j hj
    rw [hs.size] at hj
    rw [getElem?_splice hle, length_segment, if_neg hj]

/-- A read that finds nothing leaves the position, the buffer and the file. -/
theorem conforms_readNothing (hs : Represents s a) {h : Nat} {b : List UInt8} {off len n : Int}
    (hacc : Accepted (.readBytes h b off len))
    (hread : readMany (s.handles h).seekPos b off len s.info =
      .ok ⟨n, b, (s.handles h).seekPos⟩ s.info)
    (hnone : available a.file.size (a.pos h) len.toNat = 0)
    (hn : n = if len.toNat = 0 then 0 else if a.file.size ≤ a.pos h then -1 else 0) :
    Conforms s a (.readBytes h b off len) := by
  simp only [Conforms, Answer, Spec.step]
  rw [if_pos hacc, if_pos hacc, exec, hread, Spec.apply, hnone, Nat.add_zero]
  refine ⟨⟨_, _, rfl, ?_, rfl, ?_, fun _ _ => rfl⟩, ?_⟩
  · rw [hn, hnone]
    rfl
  · intro j v hj
    rw [hnone] at hj
    cases hj
  · rw [hs.pos h]
    exact hs.setPos h _

/-- A read past the buffer is refused. -/
theorem conforms_readRefused (hs : Represents s a) {h : Nat} {b : List UInt8} {off len : Int}
    (hint : off + len < 2147483648) (hacc : ¬Accepted (.readBytes h b off len)) :
    Conforms s a (.readBytes h b off len) := by
  have hresult : readMany (s.handles h).seekPos b off len s.info =
      .error .indexOutOfBounds s.info := by
    unfold readMany
    show EStateM.bind _ _ _ = _
    rw [EStateM.bind, checkBounds_error hint hacc]
  simp only [Conforms, Answer, Spec.step]
  rw [if_neg hacc, if_neg hacc, exec, hresult]
  exact ⟨⟨_, rfl⟩, hs⟩

theorem conforms_readBytes (hs : Represents s a) {h : Nat} {b : List UInt8} {off len : Int}
    (hint : off + len < 2147483648)
    (hsafe : Accepted (.readBytes h b off len) → 0 < len →
      (s.handles h).seekPos < s.info.pages.size →
        ChunkSafe (s.handles h).seekPos
          (available s.info.pages.size (s.handles h).seekPos len.toNat) ∧
        (off = 0 ∨ (s.handles h).seekPos % pageSize +
          available s.info.pages.size (s.handles h).seekPos len.toNat ≤ pageSize)) :
    Conforms s a (.readBytes h b off len) := by
  by_cases hacc : Accepted (.readBytes h b off len)
  · have hargs : 0 ≤ off ∧ 0 ≤ len ∧ off + len ≤ b.length := hacc
    obtain ⟨hoff, hlen, hfits⟩ := hargs
    have hbounds : checkBounds b off len s.info = .ok () s.info :=
      checkBounds_ok hoff hlen hint hfits
    by_cases hzero : len = 0
    · have hread : readMany (s.handles h).seekPos b off len s.info =
          .ok ⟨0, b, (s.handles h).seekPos⟩ s.info := by
        unfold readMany
        rw [bind_ok hbounds, if_pos hzero]
        rfl
      refine conforms_readNothing hs hacc hread ?_ ?_
      · rw [available, hzero]
        exact Nat.zero_min _
      · rw [hzero]
        rfl
    · by_cases hend : s.info.pages.size ≤ (s.handles h).seekPos
      · have hread := readMany_ok hs.opened hbounds hzero
          (readBytes_end hend b off.toNat len.toNat)
        refine conforms_readNothing hs hacc hread ?_ ?_
        · rw [available, hs.size, hs.pos h, Nat.sub_eq_zero_of_le hend]
          exact Nat.min_zero _
        · rw [if_neg (by omega), hs.size, hs.pos h, if_pos hend]
      · have hpos : (s.handles h).seekPos < s.info.pages.size := by omega
        obtain ⟨hchunk, hfirst⟩ := hsafe hacc (by omega) hpos
        obtain ⟨count, hcount⟩ : ∃ count,
            count = available s.info.pages.size (s.handles h).seekPos len.toNat := ⟨_, rfl⟩
        rw [← hcount] at hchunk hfirst
        obtain ⟨t, hread, hunseen⟩ := readBytes_spec hs.valid hpos b off.toNat
          len.toNat (by omega) hcount hchunk (by omega)
        have hanswer := readBytesAnswer_splice (h := h) hs b off.toNat
          len.toNat (by omega) (by omega) hpos
        rw [← hcount, hs.pos h] at hanswer
        simp only [Conforms, Answer, Spec.step]
        rw [if_pos hacc, if_pos hacc, exec, readMany_ok hs.opened hbounds hzero hread, Spec.apply,
          hs.size, hs.pos h, ← hcount]
        exact ⟨⟨_, _, rfl, hanswer⟩,
          (hs.unseen hunseen.valid hunseen.toSameView).setPos h _⟩
  · exact conforms_readRefused hs hint hacc

theorem conforms_sync (hs : Represents s a) (h : Nat) : Conforms s a (.sync h) := by
  refine ⟨trivial, ?_⟩
  show Represents (syncHandle s h).2 a
  unfold syncHandle
  split
  · exact hs
  · split
    · exact hs
    · split
      · have hsync := sync_spec hs.valid
        exact hs.unseen hsync.valid hsync.view
      · exact hs

theorem conforms_of_safe (hs : Represents s a) {op : Op} (hsafe : Safe s op) :
    Conforms s a op := by
  cases op with
  | seek h pos => exact ⟨rfl, hs.setPos h pos⟩
  | setSize h newSize => exact conforms_setSize hs hsafe
  | write h b => exact conforms_write hs b hsafe
  | writeBytes h b off len => exact conforms_writeBytes hs hsafe.1 hsafe.2
  | read h => exact conforms_read hs hsafe
  | readBytes h b off len => exact conforms_readBytes hs hsafe.1 hsafe.2
  | sync h => exact conforms_sync hs h
  | unloadClearPages needToClear =>
    have hunseen := unseen_unloadClearPages hs.valid needToClear
    exact ⟨trivial, hs.unseen hunseen.valid hunseen.toSameView⟩

end Step

theorem refines_of_safeRun (ops : List Op) {s : Files} {a : Spec} (hs : Represents s a)
    (hsafe : SafeRun ops s) : Refines ops s a := by
  induction ops generalizing s a with
  | nil => trivial
  | cons op ops ih =>
    have hstep := conforms_of_safe hs hsafe.1
    exact ⟨hstep.1, ih hstep.2 hsafe.2⟩

/-- Handles that have just been opened on a file with these records. -/
def opened (stored : Stored) (useCount : Nat) (writable : Nat → Bool) : Files where
  info := { FileInfo.ofStored stored with useCount := useCount + 1, fileExists := true }
  handles h := ⟨writable h, 0⟩

/-- The array with the bytes of the records. -/
def Spec.ofStored (stored : Stored) : Spec where
  file :=
    { size := stored.size.getD 0
      byte := fun i => if i < stored.size.getD 0 then
        some ((stored.bytes (i / pageSize)).val.getD (i % pageSize) 0) else none
      outside := fun i hi => if_neg (by omega) }
  pos _ := 0

theorem represents_opened {stored : Stored} (hsize : stored.size.getD 0 < maxSize) (useCount : Nat)
    (writable : Nat → Bool) : Represents (opened stored useCount writable)
      (Spec.ofStored stored) where
  valid := valid_ofStored hsize
  opened := by
    show 0 < (useCount : Int) + 1
    omega
  size := rfl
  byte i v hv := by
    change (if i < stored.size.getD 0 then
      some ((stored.bytes (i / pageSize)).val.getD (i % pageSize) 0) else none) = some v at hv
    split at hv
    · rw [← Option.some.inj hv]
      show (PageTable.ofStored stored).byte i = _
      rw [byte_ofStored]
    · cases hv
  pos _ := rfl

theorem paged_file_refines {stored : Stored} (hsize : stored.size.getD 0 < maxSize)
    (useCount : Nat) (writable : Nat → Bool) (ops : List Op)
    (hsafe : SafeRun ops (opened stored useCount writable)) :
    Refines ops (opened stored useCount writable) (Spec.ofStored stored) :=
  refines_of_safeRun ops (represents_opened hsize useCount writable) hsafe

/-- A file that has never been committed. -/
def noRecords : Stored := ⟨none, fun _ => none⟩

theorem paged_file_refines_ascii :
    SafeRun [.write 0 65, .sync 0, .unloadClearPages 1, .read 1, .readBytes 1 [7, 7] 1 1]
      (opened noRecords 1 (fun _ => true)) ∧
    Refines [.write 0 65, .sync 0, .unloadClearPages 1, .read 1, .readBytes 1 [7, 7] 1 1]
      (opened noRecords 1 (fun _ => true)) (Spec.ofStored noRecords) :=
  ⟨by decide +kernel, paged_file_refines (by decide) 1 _ _ (by decide +kernel)⟩

/-- The byte 200 is read as -56. -/
theorem high_byte_read_signed : ¬ ∀ (stored : Stored) (useCount : Nat) (writable : Nat → Bool)
    (ops : List Op), stored.size.getD 0 < maxSize →
      Refines ops (opened stored useCount writable) (Spec.ofStored stored) := by
  intro h
  obtain ⟨-, -, ⟨n, hread, hanswer⟩, -⟩ := h noRecords 0 (fun _ => true)
    [.write 0 200, .seek 0 0, .read 0] (by decide)
  have hvalue : (exec (exec (exec (opened noRecords 0 (fun _ => true)) (.write 0 200)).2
      (.seek 0 0)).2 (.read 0)).1 = .ok (.int (-56)) := by decide +kernel
  obtain rfl : n = -56 := by
    rw [hvalue] at hread
    cases hread
    rfl
  rw [ReadAnswer, if_neg (by decide +kernel)] at hanswer
  exact absurd hanswer.1 (by decide)

end Rhodes.FileRefinement
