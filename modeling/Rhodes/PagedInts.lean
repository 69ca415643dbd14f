import Mathlib
import Rhodes.RandomAccessSpecs

/-!
writeInt and writeLong of RandomAccessFile, and readInt and readLong of what they wrote, over
the pages of PersistRAFileImpl. A page has its number as an int, so that positions which lie
2^44 bytes apart are in the same place; such a run of positions is a lap.
-/
namespace Rhodes.PagedInts

open Arrays PagedFile FileImpl RandomAccess

/-- seek(pos). -/
def seek (f : RAFile) (pos : Nat) : RAFile := { f with pos := pos }

/-- The bytes of writeInt, the highest first. -/
def intBytes (v : Nat) : List UInt8 :=
  [24, 16, 8, 0].map (fun shift => UInt8.ofNat (v >>> shift))

def writeInt (f : RAFile) (v : Nat) : WorldM RAFile :=
  (intBytes v).foldlM (fun f b => writeByte f b.toNat) f

/-- seek(p); writeInt(v); writeLong(x); seek(p); readInt(); readLong(). -/
def writeThenRead (f : RAFile) (p : Nat) (v : BitVec 32) (x : BitVec 64) :
    WorldM (Int × Int) := do
  let f ← writeInt (seek f p) v.toNat
  let f ← writeLong f x.toNat
  let (n, f) ← readInt (seek f p)
  let (m, _) ← readLong f
  return (n, m)

/-- Both values come back, and nothing is thrown. -/
def Survives (f : RAFile) (w : World) (p : Nat) (v : BitVec 32) (x : BitVec 64) : Prop :=
  ∃ w', writeThenRead f p v x w = .ok (v.toInt, x.toInt) w'

/-- The number of positions that have page numbers of their own. -/
def lapSize : Nat := 17592186044416

def withSize (s : Nat) (t : PageTable) : PageTable := { t with size := s }

def Result.withSize {α : Type} (s : Nat) :
    EStateM.Result Exn PageTable α → EStateM.Result Exn PageTable α
  | .ok a t => .ok a (PagedInts.withSize s t)
  | .error e t => .error e (PagedInts.withSize s t)

/-- The method does not look at the size of the file. -/
def SizeFree {α : Type} (act : TableM α) : Prop :=
  ∀ (s : Nat) (t : PageTable), act (withSize s t) = Result.withSize s (act t)

section SizeFree

variable {α β : Type} {act : TableM α}

theorem SizeFree.bind {f : α → TableM β} (h : SizeFree act) (hf : ∀ a, SizeFree (f a)) :
    SizeFree (act >>= f) := by
  intro s t
  show EStateM.bind act f (withSize s t) = Result.withSize s (EStateM.bind act f t)
  rw [EStateM.bind, EStateM.bind, h s t]
  cases act t with
  | ok a t' => exact hf a s t'
  | error e t' => rfl

theorem SizeFree.ok (h : SizeFree act) {s : Nat} {t t' : PageTable} {a : α}
    (hact : act t = .ok a t') : act (withSize s t) = .ok a (withSize s t') := by
  rw [h s t, hact]
  rfl

theorem unloadBelow_withSize (s i : Nat) (needToClear : Int) (t : PageTable) :
    unloadBelow i needToClear (withSize s t) = withSize s (unloadBelow i needToClear t) := by
  induction i generalizing needToClear t with
  | zero => rfl
  | succ i ih =>
    have hpages : (withSize s t).pages = t.pages := rfl
    have hloaded : (withSize s t).loaded = t.loaded := rfl
    rw [unloadBelow, unloadBelow, hpages, hloaded]
    split
    · split
      · exact ih (needToClear - 1)
          { t with pages := t.pages.set i ⟨none, false⟩, loaded := t.loaded - 1 }
      · exact ih needToClear t
    · rfl

theorem setContent_withSize (s n : Nat) (c : PageBytes) (t : PageTable) :
    setContent n c (withSize s t) = withSize s (setContent n c t) := by
  have hpages : (withSize s t).pages = t.pages := rfl
  rw [setContent, setContent, hpages]
  split <;> rfl

theorem setPageDirty_withSize (s n : Nat) (t : PageTable) :
    setPageDirty n (withSize s t) = withSize s (setPageDirty n t) := by
  have hpages : (withSize s t).pages = t.pages := rfl
  rw [setPageDirty, setPageDirty, hpages]
  split <;> rfl

theorem clearedTo_withSize (s : Nat) (keep : Int) (t : PageTable) :
    clearedTo keep (withSize s t) = withSize s (clearedTo keep t) := by
  have hloaded : (withSize s t).loaded = t.loaded := rfl
  have hdirty : (withSize s t).dirty = t.dirty := rfl
  rw [clearedTo, clearedTo, hloaded, hdirty]
  split
  · exact unloadBelow_withSize s _ _ t
  · rfl

theorem loadPage_withSize (s n : Nat) (t : PageTable) :
    loadPage n (withSize s t) = withSize s (loadPage n t) := by
  have hstored : ∀ u, (withSize s u).stored = u.stored := fun _ => rfl
  rw [loadPage_def, loadPage_def, clearedTo_withSize, hstored, setContent_withSize]
  rfl

theorem sizeFree_getPage (n : Int) : SizeFree (getPage n) := by
  intro s t
  have hpages : (withSize s t).pages = t.pages := rfl
  unfold getPage
  rw [hpages]
  split
  · rfl
  · split
    · rfl
    · rfl
    · rw [loadPage_withSize]
      rfl

theorem sizeFree_writePage (i : Int) (dstPos : Nat) (b : List UInt8) (off n : Nat) :
    SizeFree (writePage i dstPos b off n) := by
  unfold writePage
  apply (sizeFree_getPage i).bind
  intro content
  apply SizeFree.bind
  · intro s t
    cases content.copyFrom dstPos b off n <;> rfl
  · intro copied
    apply SizeFree.bind
    · intro s t
      exact congrArg _ (setContent_withSize s _ copied t)
    · intro _ s t
      exact congrArg _ (setPageDirty_withSize s _ t)

end SizeFree

/-- The size is in one of the laps up to this one, and the pages are those of a file that long. -/
structure Fits (t : PageTable) (lap : Nat) : Prop where
  valid : (withSize (t.size % lapSize) t).Valid
  lap : t.size / lapSize ≤ lap

theorem fits_of_valid {t : PageTable} (ht : t.Valid) (lap : Nat) : Fits t lap where
  valid := by
    have hsmall := ht.small
    unfold maxSize pageSize at hsmall
    rw [Nat.mod_eq_of_lt (by unfold lapSize; omega)]
    exact ht
  lap := by
    have hsmall := ht.small
    unfold maxSize pageSize at hsmall
    rw [Nat.div_eq_of_lt (by unfold lapSize; omega)]
    exact Nat.zero_le lap

/-- The bytes have been written over those of the lap from the position on. -/
structure Laid (lap : Nat) (t t' : PageTable) (r : Nat) (seg : List UInt8) : Prop where
  fits : Fits t' lap
  size : ∀ i < seg.length, lap * lapSize + r + i < t'.size
  grown : t.size ≤ t'.size
  byte : segment t'.byte r seg.length = seg
  before : ∀ i < r, t'.byte i = t.byte i

section Pages

variable {t t' : PageTable} {lap r : Nat}

theorem getPageNumber_lap (hr : r < maxSize) :
    getPageNumber (lap * lapSize + r) = (r / pageSize : Nat) := by
  unfold maxSize pageSize at hr
  unfold getPageNumber pageSize lapSize toInt
  rw [Int.bmod_def]
  split <;> omega

/-- The page of a position in the file exists. -/
theorem Fits.lt (h : Fits t lap) (hr : r < maxSize) (hsize : lap * lapSize + r < t.size) :
    r < t.size % lapSize ∧ t.size / lapSize = lap := by
  have hlap := h.lap
  unfold maxSize pageSize at hr
  unfold lapSize at *
  omega

theorem withSize_self (t : PageTable) (s : Nat) : withSize t.size (withSize s t) = t := rfl

theorem Laid.nil (h : Fits t lap) : Laid lap t t r [] where
  fits := h
  size i hi := absurd hi (Nat.not_lt_zero i)
  grown := Nat.le_refl _
  byte := rfl
  before _ _ := rfl

theorem Laid.append {t'' : PageTable} {s seg : List UInt8} (h : Laid lap t t' r s)
    (h' : Laid lap t' t'' (r + s.length) seg) : Laid lap t t'' r (s ++ seg) where
  fits := h'.fits
  size i hi := by
    rw [List.length_append] at hi
    by_cases hlt : i < s.length
    · exact Nat.lt_of_lt_of_le (h.size i hlt) h'.grown
    · have hrest := h'.size (i - s.length) (by omega)
      omega
  grown := Nat.le_trans h.grown h'.grown
  byte := by
    have hfirst : segment t''.byte r s.length = s := by
      rw [segment_congr t'.byte, h.byte]
      intro i _ hi
      exact h'.before i hi
    rw [List.length_append, ← segment_append, hfirst, h'.byte]
  before i hi := (h'.before i (by omega)).trans (h.before i hi)

/-- A page is written to in a table that is valid but for its size. -/
theorem writePage_lap {u : PageTable} (hu : u.Valid) {pos : Nat} (hpos : pos = lap * lapSize + r)
    (hr : r < maxSize) (hpage : r / pageSize < u.pages.length) (s : Nat) (b : UInt8) :
    ∃ u', writePage (getPageNumber pos) (pos % pageSize) [b] 0 1 (withSize s u) =
        .ok () (withSize s u') ∧ Written u u' r [b] := by
  have hmod : pos % pageSize = r % pageSize := by
    unfold lapSize at hpos
    unfold pageSize
    omega
  obtain ⟨u', hwrite, hwritten⟩ := writePage_spec hu hpage (r % pageSize) [b] 0 1
    (Nat.mod_lt r (by decide)) (Nat.le_refl 1)
  rw [Nat.div_add_mod'] at hwritten
  refine ⟨u', ?_, hwritten⟩
  rw [hpos, getPageNumber_lap hr, ← hpos, hmod]
  exact (sizeFree_writePage _ _ _ _ _).ok hwrite

/-- FileInfo.setSize with the number of pages. -/
def resizeTo (n : Int) (newSize : Nat) : TableM Unit := do
  let prevSize := (← get).pages.length
  if n < prevSize then deletePages n (prevSize - 1)
  modify (fun t => { t with
    size := newSize
    pages := t.pages ++ List.replicate (n - prevSize).toNat ⟨none, false⟩ })

theorem resizeTo_withSize {n : Int} {r newSize s : Nat} {u u' : PageTable}
    (h : resizeTo n r u = .ok () u') :
    resizeTo n newSize (withSize s u) = .ok () (withSize newSize u') := by
  have hdelete : SizeFree (deletePages n (u.pages.length - 1)) := by
    intro s t
    unfold deletePages
    split <;> rfl
  unfold resizeTo at h ⊢
  rw [bind_get] at h ⊢
  rw [show (withSize s u).pages = u.pages from rfl]
  by_cases hless : n < u.pages.length
  · rw [if_pos hless] at h ⊢
    cases hresult : deletePages n (u.pages.length - 1) u with
    | ok a cut =>
      rw [bind_ok hresult] at h
      rw [bind_ok (hdelete.ok hresult)]
      cases h
      rfl
    | error e cut =>
      change EStateM.bind _ _ u = _ at h
      rw [EStateM.bind, hresult] at h
      cases h
  · rw [if_neg hless] at h ⊢
    cases h
    rfl

/-- The pages of a long file are those of one that ends in the first lap. -/
theorem resize_lap {u : PageTable} (hu : u.Valid) {newSize : Nat}
    (hsize : newSize = lap * lapSize + r) (hr : r < maxSize) (s : Nat) :
    ∃ u', resize newSize (withSize s u) = .ok () (withSize newSize u') ∧ Resized u u' r := by
  obtain ⟨u', hresize, hresized⟩ := resize_spec hu hr
  refine ⟨u', ?_, hresized⟩
  have hcount : toInt (newSize / pageSize + 1 : Nat) = toInt (r / pageSize + 1 : Nat) := by
    have hmod : ((newSize / pageSize + 1 : Nat) : Int) % (4294967296 : Nat) =
        ((r / pageSize + 1 : Nat) : Int) % (4294967296 : Nat) := by
      unfold lapSize at hsize
      unfold pageSize
      omega
    unfold toInt
    rw [← Int.emod_bmod, hmod, Int.emod_bmod]
  have hto : ∀ n, resize n = resizeTo (toInt (n / pageSize + 1 : Nat)) n := fun _ => rfl
  rw [hto] at hresize ⊢
  rw [hcount]
  exact resizeTo_withSize hresize

/-- What was written to the table of a lap is seen in the file. -/
theorem laid_of_written {u u' : PageTable} {s : Nat} {b : UInt8} (h : Written u u' r [b])
    (hvalid : s % lapSize = u'.size) (hlap : s / lapSize = lap) (hgrown : t.size ≤ s)
    (hin : lap * lapSize + r < s) (hkept : ∀ i < r, u.byte i = t.byte i) :
    Laid lap t (withSize s u') r [b] where
  fits := by
    refine ⟨?_, Nat.le_of_eq hlap⟩
    show (withSize (s % lapSize) u').Valid
    rw [hvalid]
    exact h.valid
  size i hi := by
    have hzero : i = 0 := Nat.lt_one_iff.mp hi
    rw [hzero, Nat.add_zero]
    exact hin
  grown := hgrown
  byte := by
    show segment u'.byte r [b].length = [b]
    rw [h.byte, segment_overlay]
  before i hi := by
    show u'.byte i = t.byte i
    rw [h.byte, overlay_of_lt _ _ hi, hkept i hi]

theorem write_lap (h : Fits t lap) {pos : Nat} (hpos : pos = lap * lapSize + r)
    (hr : r + 1 < maxSize) (b : UInt8) :
    ∃ t', write pos b t = .ok (pos + 1) t' ∧ Laid lap t t' r [b] := by
  have hsmall : r + 1 < lapSize := Nat.lt_trans hr (by decide)
  unfold write
  rw [bind_get]
  by_cases hsize : pos ≥ t.size
  · obtain ⟨g, hresize, hresized⟩ := resize_lap h.valid
      (show pos + 1 = lap * lapSize + (r + 1) by rw [hpos, Nat.add_assoc]) hr t.size
    rw [withSize_self] at hresize
    have hpage : r / pageSize < g.pages.length := by
      rw [hresized.length]
      exact Nat.lt_succ_of_le (Nat.div_le_div_right (Nat.le_succ r))
    obtain ⟨u', hwrite, hwritten⟩ := writePage_lap hresized.valid hpos (by omega) hpage (pos + 1) b
    refine ⟨withSize (pos + 1) u', ?_, laid_of_written hwritten ?_ ?_ ?_ ?_ ?_⟩
    · rw [if_pos hsize, bind_ok hresize]
      show (writePage (getPageNumber pos) (pos % pageSize) [b] 0 1 >>= _) _ = _
      rw [bind_ok hwrite]
      rfl
    · rw [hwritten.size, hresized.size]
      unfold lapSize at *
      omega
    · unfold lapSize at *
      omega
    · omega
    · omega
    · intro i hi
      have hdiv : i / pageSize ≤ (r + 1) / pageSize := Nat.div_le_div_right (by omega)
      rw [PageTable.byte, hresized.bytes _ (Nat.lt_succ_of_le hdiv)]
      rfl
  · obtain ⟨hlt, hlap⟩ := h.lt (r := r) (by omega) (by omega)
    have hpage : r / pageSize < (withSize (t.size % lapSize) t).pages.length :=
      h.valid.page_lt hlt
    obtain ⟨u', hwrite, hwritten⟩ := writePage_lap h.valid hpos (by omega) hpage t.size b
    rw [withSize_self] at hwrite
    refine ⟨withSize t.size u', ?_, laid_of_written hwritten ?_ hlap (Nat.le_refl _) (by omega)
      (fun _ _ => rfl)⟩
    · rw [if_neg hsize]
      show (writePage (getPageNumber pos) (pos % pageSize) [b] 0 1 >>= _) _ = _
      rw [bind_ok hwrite]
      rfl
    · rw [hwritten.size]
      rfl

/-- read() leaves what the file has. -/
structure Kept (t t' : PageTable) (lap : Nat) : Prop where
  fits : Fits t' lap
  size : t'.size = t.size
  byte : t'.byte = t.byte

theorem read_lap (h : Fits t lap) {pos : Nat} (hpos : pos = lap * lapSize + r) (hr : r < maxSize)
    (hsize : pos < t.size) :
    ∃ t', read pos t = .ok (signed (t.byte r), pos + 1) t' ∧ Kept t t' lap := by
  obtain ⟨hlt, -⟩ := h.lt hr (by omega)
  obtain ⟨u', hget, hunseen, -⟩ := getPage_spec h.valid (h.valid.page_lt hlt)
  have hget' := (sizeFree_getPage (r / pageSize : Nat)).ok (s := t.size) hget
  rw [withSize_self] at hget'
  have hmod : pos % pageSize = r % pageSize := by
    unfold lapSize at hpos
    unfold pageSize
    omega
  refine ⟨withSize t.size u', ?_, ⟨?_, h.lap⟩, rfl, hunseen.byte⟩
  · unfold PagedFile.read
    rw [bind_get, if_neg (by omega), hpos, getPageNumber_lap hr, ← hpos, bind_ok hget', hmod]
    rfl
  · show (withSize (t.size % lapSize) u').Valid
    rw [← show u'.size = t.size % lapSize from hunseen.size]
    exact hunseen.valid

end Pages

/-- The method writes the bytes over those of a lap, from where its handle stands. -/
def Lays (lap : Nat) (act : RAFile → WorldM RAFile) (seg : List UInt8) : Prop :=
  ∀ (f : RAFile) (w : World) (r : Nat), f.writeAccess = true → 0 < (w.files f.name).useCount →
    Fits (w.files f.name).pages lap → f.pos = lap * lapSize + r → r + seg.length < maxSize →
    ∃ w', act f w = .ok { f with pos := f.pos + seg.length } w' ∧
      0 < (w'.files f.name).useCount ∧
      Laid lap (w.files f.name).pages (w'.files f.name).pages r seg

section Writes

variable {lap : Nat} {act act' : RAFile → WorldM RAFile} {s seg : List UInt8}

theorem Lays.pure : Lays lap (fun f => Pure.pure f) [] := by
  intro f w r _ huse hfits _ _
  exact ⟨w, rfl, huse, Laid.nil hfits⟩

theorem Lays.bind (h : Lays lap act s) (h' : Lays lap act' seg) :
    Lays lap (fun f => act f >>= act') (s ++ seg) := by
  intro f w r hwrite huse hfits hpos hr
  rw [List.length_append] at hr
  obtain ⟨w₁, hact, huse₁, hlaid⟩ := h f w r hwrite huse hfits hpos (by omega)
  obtain ⟨w₂, hact', huse₂, hlaid'⟩ := h' { f with pos := f.pos + s.length } w₁ (r + s.length)
    hwrite huse₁ hlaid.fits (by rw [hpos, Nat.add_assoc]) (by omega)
  refine ⟨w₂, ?_, huse₂, hlaid.append hlaid'⟩
  show (act f >>= act') w = _
  rw [bind_ok hact, hact', List.length_append, Nat.add_assoc]

theorem lays_writeByte (b : UInt8) : Lays lap (fun f => writeByte f b.toNat) [b] := by
  intro f w r hwrite huse hfits hpos hr
  obtain ⟨t, hresult, hlaid⟩ := write_lap hfits hpos hr b
  have hfile : (w.setPages f.name t).files f.name = { w.files f.name with pages := t } :=
    files_setPages_self w f.name t
  refine ⟨w.setPages f.name t, ?_, by rw [hfile]; exact huse, by rw [hfile]; exact hlaid⟩
  rw [← ofInt_toNat b] at hresult
  show writeByte f b.toNat w = _
  unfold writeByte
  rw [if_neg (by rw [hwrite]; decide)]
  show (onFile f.name (writeOne f.pos b.toNat) >>= _) w = _
  rw [bind_ok (onFile_ok (writeOne_ok huse hresult))]
  rfl

theorem lays_foldlM (seg : List UInt8) :
    Lays lap (fun f => seg.foldlM (fun f b => writeByte f b.toNat) f) seg := by
  induction seg with
  | nil => exact Lays.pure
  | cons b seg ih =>
    simp only [List.foldlM_cons]
    exact (lays_writeByte b).bind ih

theorem lays_writeInt (v : Nat) : Lays lap (fun f => writeInt f v) (intBytes v) := lays_foldlM _

theorem lays_writeLong (v : Nat) : Lays lap (fun f => writeLong f v) (longBytes v) :=
  lays_foldlM _

end Writes

section Reads

variable {lap r : Nat} {f : RAFile} {w : World}

/-- What reads in a file leave of it. -/
structure KeptOpen (name : String) (lap : Nat) (w w' : World) : Prop where
  use : 0 < (w'.files name).useCount
  kept : Kept (w.files name).pages (w'.files name).pages lap

theorem KeptOpen.refl {name : String} (huse : 0 < (w.files name).useCount)
    (hfits : Fits (w.files name).pages lap) : KeptOpen name lap w w := ⟨huse, hfits, rfl, rfl⟩

theorem KeptOpen.trans {name : String} {w' w'' : World} (h : KeptOpen name lap w w')
    (h' : KeptOpen name lap w' w'') : KeptOpen name lap w w'' :=
  ⟨h'.use, h'.kept.fits, h'.kept.size.trans h.kept.size, h'.kept.byte.trans h.kept.byte⟩

theorem readByte_lap (huse : 0 < (w.files f.name).useCount)
    (hfits : Fits (w.files f.name).pages lap) (hpos : f.pos = lap * lapSize + r)
    (hr : r < maxSize) (hsize : f.pos < (w.files f.name).pages.size) :
    ∃ w', readByte f w = .ok (signed ((w.files f.name).pages.byte r), { f with pos := f.pos + 1 })
        w' ∧ KeptOpen f.name lap w w' := by
  obtain ⟨t, hread, hkept⟩ := read_lap hfits hpos hr hsize
  have hfile : (w.setPages f.name t).files f.name = { w.files f.name with pages := t } :=
    files_setPages_self w f.name t
  refine ⟨w.setPages f.name t, ?_, by rw [hfile]; exact huse, by rw [hfile]; exact hkept⟩
  unfold readByte
  rw [bind_ok (onFile_ok (readOne_ok huse hread))]
  rfl

theorem signed_nonneg (b : UInt8) : ¬signed b < 0 ↔ b < 128 := by
  have hlt := UInt8.toNat_lt b
  rw [UInt8.lt_iff_toNat_lt]
  show ¬(if b.toNat < 128 then (b.toNat : Int) else (b.toNat : Int) - 256) < 0 ↔ b.toNat < 128
  split <;> omega

/-- The value of four bytes, none of which Java sees as negative. -/
theorem toInt_intBytes {n : Nat} (h : ∀ b ∈ intBytes n, b < 128) :
    toInt (signed (UInt8.ofNat (n >>> 24)) * (16777216 : Int) +
      signed (UInt8.ofNat (n >>> 16)) * (65536 : Int) +
      signed (UInt8.ofNat (n >>> 8)) * (256 : Int) + signed (UInt8.ofNat (n >>> 0))) =
      (n % 4294967296 : Nat) := by
  have hs : ∀ b ∈ intBytes n, signed b = b.toNat ∧ b.toNat < 128 := fun b hb =>
    ⟨if_pos (UInt8.lt_iff_toNat_lt.mp (h b hb)), UInt8.lt_iff_toNat_lt.mp (h b hb)⟩
  obtain ⟨h₁, h₁'⟩ := hs (UInt8.ofNat (n >>> 24)) (by simp [intBytes])
  obtain ⟨h₂, h₂'⟩ := hs (UInt8.ofNat (n >>> 16)) (by simp [intBytes])
  obtain ⟨h₃, h₃'⟩ := hs (UInt8.ofNat (n >>> 8)) (by simp [intBytes])
  obtain ⟨h₄, h₄'⟩ := hs (UInt8.ofNat (n >>> 0)) (by simp [intBytes])
  have hword := word_eq n
  rw [h₁, h₂, h₃, h₄, toInt_eq (by omega) (by omega)]
  omega

theorem readInt_lap (huse : 0 < (w.files f.name).useCount)
    (hfits : Fits (w.files f.name).pages lap) (hpos : f.pos = lap * lapSize + r)
    (hr : r + 4 ≤ maxSize) (hsize : f.pos + 3 < (w.files f.name).pages.size) {n : Nat}
    (hseg : segment (w.files f.name).pages.byte r 4 = intBytes n) :
    ∃ w', KeptOpen f.name lap w w' ∧ readInt f w =
      if ∀ b ∈ intBytes n, b < 128 then
        .ok ((n % 4294967296 : Nat), { f with pos := f.pos + 4 }) w'
      else .error .eof w' := by
  have hone : ∀ (i : Nat) (w₁ : World) (b : UInt8), KeptOpen f.name lap w w₁ → i < 4 →
      (intBytes n)[i]? = some b → ∃ w₂, readByte { f with pos := f.pos + i } w₁ =
        .ok (signed b, { f with pos := f.pos + i + 1 }) w₂ ∧ KeptOpen f.name lap w w₂ := by
    intro i w₁ b hkept hi hb
    have hbyte : (w₁.files f.name).pages.byte (r + i) = b := by
      have hget := getElem?_segment (w.files f.name).pages.byte r hi
      rw [hseg, hb] at hget
      rw [hkept.kept.byte]
      exact (Option.some.inj hget).symm
    obtain ⟨w₂, hread, hkept'⟩ := readByte_lap (f := { f with pos := f.pos + i }) (r := r + i)
      hkept.use hkept.kept.fits (by rw [← Nat.add_assoc, ← hpos]) (by omega)
      (show f.pos + i < (w₁.files f.name).pages.size by rw [hkept.kept.size]; omega)
    refine ⟨w₂, ?_, hkept.trans hkept'⟩
    rw [hread, hbyte]
  obtain ⟨w₁, hr₁, hk₁⟩ := hone 0 w _ (KeptOpen.refl huse hfits) (by decide) rfl
  obtain ⟨w₂, hr₂, hk₂⟩ := hone 1 w₁ _ hk₁ (by decide) rfl
  obtain ⟨w₃, hr₃, hk₃⟩ := hone 2 w₂ _ hk₂ (by decide) rfl
  obtain ⟨w₄, hr₄, hk₄⟩ := hone 3 w₃ _ hk₃ (by decide) rfl
  refine ⟨w₄, hk₄, ?_⟩
  unfold readInt
  rw [show f = { f with pos := f.pos + 0 } from rfl, bind_ok hr₁]
  show (readByte { f with pos := f.pos + 1 } >>= _) _ = _
  rw [bind_ok hr₂]
  show (readByte { f with pos := f.pos + 2 } >>= _) _ = _
  rw [bind_ok hr₃]
  show (readByte { f with pos := f.pos + 3 } >>= _) _ = _
  rw [bind_ok hr₄]
  show (if signed (UInt8.ofNat (n >>> 24)) < 0 ∨ signed (UInt8.ofNat (n >>> 16)) < 0 ∨
    signed (UInt8.ofNat (n >>> 8)) < 0 ∨ signed (UInt8.ofNat (n >>> 0)) < 0 then _ else _ :
    WorldM (Int × RAFile)) _ = _
  have hlow : (∀ b ∈ intBytes n, b < 128) ↔ ¬(signed (UInt8.ofNat (n >>> 24)) < 0 ∨
      signed (UInt8.ofNat (n >>> 16)) < 0 ∨ signed (UInt8.ofNat (n >>> 8)) < 0 ∨
      signed (UInt8.ofNat (n >>> 0)) < 0) := by
    simp only [not_or, signed_nonneg]
    simp [intBytes]
  by_cases h : ∀ b ∈ intBytes n, b < 128
  · rw [if_pos h, if_neg (hlow.mp h)]
    exact congrArg (fun x => EStateM.Result.ok (x, { f with pos := f.pos + 4 }) w₄)
      (toInt_intBytes h)
  · rw [if_neg h, if_pos (not_not.mp (fun hn => h (hlow.mpr hn)))]
    rfl

/-- The bytes of a long are those of its two halves. -/
theorem longBytes_eq (n : Nat) : longBytes n = intBytes (n >>> 32) ++ intBytes n := by
  simp only [longBytes, intBytes, List.map_cons, List.map_nil, ← Nat.shiftRight_add]
  rfl

theorem readLong_lap (huse : 0 < (w.files f.name).useCount)
    (hfits : Fits (w.files f.name).pages lap) (hpos : f.pos = lap * lapSize + r)
    (hr : r + 8 ≤ maxSize) (hsize : f.pos + 7 < (w.files f.name).pages.size) {n : Nat}
    (hn : n < 18446744073709551616)
    (hseg : segment (w.files f.name).pages.byte r 8 = longBytes n) :
    ∃ w', readLong f w =
      if ∀ b ∈ longBytes n, b < 128 then .ok (n, { f with pos := f.pos + 8 }) w'
      else .error .eof w' := by
  rw [longBytes_eq, ← segment_append _ r 4 4] at hseg
  obtain ⟨hhigh, hlow⟩ := List.append_inj hseg (length_segment _ _ _)
  obtain ⟨w₁, hk₁, hr₁⟩ := readInt_lap huse hfits hpos (by omega) (by omega) hhigh
  rw [← hk₁.kept.byte] at hlow
  obtain ⟨w₂, -, hr₂⟩ := readInt_lap (f := { f with pos := f.pos + 4 }) (r := r + 4) hk₁.use
    hk₁.kept.fits (by rw [← Nat.add_assoc, ← hpos]) (by omega)
    (show f.pos + 4 + 3 < (w₁.files f.name).pages.size by rw [hk₁.kept.size]; omega) hlow
  have hall : (∀ b ∈ longBytes n, b < 128) ↔
      (∀ b ∈ intBytes (n >>> 32), b < 128) ∧ ∀ b ∈ intBytes n, b < 128 := by
    rw [longBytes_eq, List.forall_mem_append]
  unfold readLong
  by_cases h₁ : ∀ b ∈ intBytes (n >>> 32), b < 128
  · rw [if_pos h₁] at hr₁
    refine ⟨w₂, ?_⟩
    by_cases h₂ : ∀ b ∈ intBytes n, b < 128
    · rw [if_pos h₂] at hr₂
      rw [if_pos (hall.mpr ⟨h₁, h₂⟩), bind_ok hr₁]
      show (readInt { f with pos := f.pos + 4 } >>= _) _ = _
      rw [bind_ok hr₂]
      have hvalue : (((n >>> 32) % 4294967296 : Nat) : Int) * (4294967296 : Int) +
          ((n % 4294967296 : Nat) : Int) % (4294967296 : Int) = n := by
        rw [Nat.shiftRight_eq_div_pow]
        omega
      exact congrArg (fun x => EStateM.Result.ok (x, { f with pos := f.pos + 8 }) w₂) hvalue
    · rw [if_neg h₂] at hr₂
      rw [if_neg (fun h => h₂ (hall.mp h).2), bind_ok hr₁]
      show EStateM.bind (readInt { f with pos := f.pos + 4 }) _ _ = _
      rw [EStateM.bind, hr₂]
  · rw [if_neg h₁] at hr₁
    refine ⟨w₁, ?_⟩
    rw [if_neg (fun h => h₁ (hall.mp h).1)]
    show EStateM.bind (readInt f) _ w = _
    rw [EStateM.bind, hr₁]

/-- A number whose bytes are low is not negative. -/
theorem toInt_of_low {v : BitVec 32} (h : ∀ b ∈ intBytes v.toNat, b < 128) :
    ((v.toNat % 4294967296 : Nat) : Int) = v.toInt := by
  have htop := h (UInt8.ofNat (v.toNat >>> 24)) (by simp [intBytes])
  have hv := v.isLt
  rw [UInt8.lt_iff_toNat_lt, UInt8.toNat_ofNat', Nat.shiftRight_eq_div_pow] at htop
  have hlt : v.toNat / 2 ^ 24 % 2 ^ 8 < 128 := htop
  rw [BitVec.toInt_eq_toNat_of_lt (by omega), Nat.mod_eq_of_lt (by omega)]

theorem toInt_of_low_long {x : BitVec 64} (h : ∀ b ∈ longBytes x.toNat, b < 128) :
    (x.toNat : Int) = x.toInt := by
  have htop := h (UInt8.ofNat (x.toNat >>> 56)) (by simp [longBytes])
  have hx := x.isLt
  rw [UInt8.lt_iff_toNat_lt, UInt8.toNat_ofNat', Nat.shiftRight_eq_div_pow] at htop
  have hlt : x.toNat / 2 ^ 56 % 2 ^ 8 < 128 := htop
  rw [BitVec.toInt_eq_toNat_of_lt (by omega)]

end Reads

section Needs

variable {α : Type} {act : TableM α} {a : α} {t t' : PageTable}

theorem SizeFree.size (h : SizeFree act) (hact : act t = .ok a t') : t'.size = t.size := by
  have hsame : act t = Result.withSize t.size (act t) := h t.size t
  rw [hact] at hsame
  obtain ⟨-, htable⟩ := EStateM.Result.ok.inj hsame
  rw [htable]
  rfl

theorem resizeTo_needs {n : Int} {newSize : Nat} (h : resizeTo n newSize t = .ok () t') :
    0 ≤ n ∧ t'.size = newSize := by
  unfold resizeTo at h
  rw [bind_get] at h
  by_cases hless : n < t.pages.length
  · rw [if_pos hless] at h
    cases hresult : deletePages n (t.pages.length - 1) t with
    | ok a cut =>
      rw [bind_ok hresult] at h
      cases h
      refine ⟨?_, rfl⟩
      by_contra hneg
      rw [deletePages, if_pos (by omega)] at hresult
      cases hresult
    | error e cut =>
      change EStateM.bind _ _ t = _ at h
      rw [EStateM.bind, hresult] at h
      cases h
  · rw [if_neg hless] at h
    cases h
    exact ⟨by omega, rfl⟩

/-- A bind that ends well comes from two runs that do. -/
theorem ok_of_bind {ε σ α β : Type} {x : EStateM ε σ α} {f : α → EStateM ε σ β} {s s' : σ} {b : β}
    (h : (x >>= f) s = .ok b s') : ∃ a s'', x s = .ok a s'' ∧ f a s'' = .ok b s' := by
  change EStateM.bind x f s = _ at h
  rw [EStateM.bind] at h
  split at h
  · rename_i a s'' hx
    exact ⟨a, s'', hx, h⟩
  · cases h

/-- What the numbers of the pages have to be for a write to end well. -/
theorem write_needs {pos pos' : Nat} {b : UInt8} (h : write pos b t = .ok pos' t') :
    0 ≤ getPageNumber pos ∧
      (t.size ≤ pos → 0 ≤ toInt ((pos + 1) / pageSize + 1 : Nat)) ∧
      pos' = pos + 1 ∧ t'.size = max t.size (pos + 1) := by
  have hpage : ∀ {g : PageTable}, (do
        writePage (getPageNumber pos) (pos % pageSize) [b] 0 1
        return pos + 1 : TableM Nat) g = .ok pos' t' →
      0 ≤ getPageNumber pos ∧ pos' = pos + 1 ∧ t'.size = g.size := by
    intro g hg
    obtain ⟨_, t'', hwrite, hreturn⟩ := ok_of_bind hg
    cases hreturn
    refine ⟨?_, rfl, (sizeFree_writePage _ _ _ _ _).size hwrite⟩
    obtain ⟨_, _, hget, -⟩ := ok_of_bind hwrite
    by_contra hneg
    rw [getPage, if_pos (by omega)] at hget
    cases hget
  unfold write at h
  rw [bind_get] at h
  by_cases hsize : pos ≥ t.size
  · rw [if_pos hsize] at h
    obtain ⟨_, g, hresize, hg⟩ := ok_of_bind h
    obtain ⟨hcount, hgrown⟩ := resizeTo_needs
      (n := toInt ((pos + 1) / pageSize + 1 : Nat)) hresize
    obtain ⟨hnumber, hpos, hkept⟩ := hpage hg
    exact ⟨hnumber, fun _ => hcount, hpos, by omega⟩
  · rw [if_neg hsize] at h
    obtain ⟨hnumber, hpos, hkept⟩ := hpage h
    exact ⟨hnumber, fun hle => absurd hle hsize, hpos, by omega⟩

theorem writeByte_needs {f f' : RAFile} {w w' : World} {b : Int}
    (huse : 0 < (w.files f.name).useCount) (h : writeByte f b w = .ok f' w') :
    f' = { f with pos := f.pos + 1 } ∧ 0 ≤ getPageNumber f.pos ∧
      ((w.files f.name).pages.size ≤ f.pos → 0 ≤ toInt ((f.pos + 1) / pageSize + 1 : Nat)) ∧
      (w'.files f.name).pages.size = max (w.files f.name).pages.size (f.pos + 1) ∧
      (w'.files f.name).useCount = (w.files f.name).useCount := by
  unfold writeByte at h
  by_cases hmode : f.writeAccess = false
  · rw [if_pos hmode] at h
    cases h
  · rw [if_neg hmode] at h
    obtain ⟨pos, w'', hfile, hreturn⟩ := ok_of_bind (x := onFile f.name (writeOne f.pos b)) h
    cases hreturn
    unfold onFile at hfile
    split at hfile
    · rename_i pos' info hwrite
      cases hfile
      unfold writeOne at hwrite
      rw [checkUseCount_bind huse] at hwrite
      unfold onPages at hwrite
      split at hwrite
      · rename_i pos'' t' hpage
        cases hwrite
        obtain ⟨hnumber, hcount, rfl, hgrown⟩ := write_needs hpage
        rw [files_setFile_self]
        exact ⟨rfl, hnumber, hcount, hgrown, rfl⟩
      · cases hwrite
    · cases hfile

/-- Each byte of a run of writes that ends well has a page of its own. -/
theorem writes_need (seg : List UInt8) {f f' : RAFile} {w w' : World}
    (huse : 0 < (w.files f.name).useCount)
    (h : seg.foldlM (fun f b => writeByte f b.toNat) f w = .ok f' w') :
    ∀ i < seg.length, 0 ≤ getPageNumber (f.pos + i) ∧
      ((w.files f.name).pages.size ≤ f.pos + i →
        0 ≤ toInt ((f.pos + i + 1) / pageSize + 1 : Nat)) := by
  induction seg generalizing f w with
  | nil =>
    intro i hi
    cases hi
  | cons b seg ih =>
    rw [List.foldlM_cons] at h
    obtain ⟨f₁, w₁, hfirst, hrest⟩ := ok_of_bind h
    obtain ⟨rfl, hnumber, hcount, hsize, hcounted⟩ := writeByte_needs huse hfirst
    intro i hi
    cases i with
    | zero => exact ⟨hnumber, hcount⟩
    | succ i =>
      have hnext : f.pos + 1 + i = f.pos + (i + 1) := by omega
      obtain ⟨hnumber', hcount'⟩ := ih (f := { f with pos := f.pos + 1 })
        (by rw [hcounted]; exact huse) hrest i (Nat.lt_of_succ_lt_succ hi)
      rw [hnext, hsize] at hcount'
      rw [hnext] at hnumber'
      exact ⟨hnumber', fun hle => hcount' (by omega)⟩

/-- Twelve bytes have pages of their own only where the lap has a place for them. -/
theorem window_of_needs {p size : Nat} (hsize : size < maxSize)
    (hfirst : 0 ≤ getPageNumber p)
    (hlast : size ≤ p + 11 → 0 ≤ toInt ((p + 11 + 1) / pageSize + 1 : Nat)) :
    p % lapSize + 12 < maxSize := by
  unfold maxSize pageSize at *
  unfold getPageNumber at hfirst
  unfold toInt at *
  unfold lapSize
  rw [Int.bmod_def] at hfirst hlast
  unfold pageSize at hfirst
  split at hfirst
  · by_cases hin : size ≤ p + 11
    · have hcount := hlast hin
      split at hcount <;> omega
    · omega
  · omega

end Needs

section Survival

variable {f : RAFile} {w : World}

/-- The low bytes come back and the others are the end of the file, wherever the bytes fit. -/
theorem writeThenRead_lap (hwrite : f.writeAccess = true)
    (huse : 0 < (w.files f.name).useCount) (hvalid : (w.files f.name).pages.Valid) {p : Nat}
    (hp : p % lapSize + 12 < maxSize) (v : BitVec 32) (x : BitVec 64) :
    ∃ w', writeThenRead f p v x w =
      if (∀ b ∈ intBytes v.toNat, b < 128) ∧ ∀ b ∈ longBytes x.toNat, b < 128 then
        .ok (v.toInt, x.toInt) w'
      else .error .eof w' := by
  obtain ⟨lap, r, hlap⟩ : ∃ lap r, p = lap * lapSize + r ∧ r + 12 < maxSize :=
    ⟨p / lapSize, p % lapSize, (Nat.div_add_mod' p lapSize).symm, hp⟩
  obtain ⟨hpos, hr⟩ := hlap
  have hint : (intBytes v.toNat).length = 4 := rfl
  have hlong : (longBytes x.toNat).length = 8 := rfl
  have hnext : p + 4 = lap * lapSize + (r + 4) := by rw [← Nat.add_assoc, ← hpos]
  obtain ⟨w₁, hw₁, hu₁, hl₁⟩ := lays_writeInt v.toNat (seek f p) w r hwrite huse
    (fits_of_valid hvalid lap) hpos (by omega)
  obtain ⟨w₂, hw₂, hu₂, hl₂⟩ := lays_writeLong x.toNat (seek f (p + 4)) w₁ (r + 4) hwrite hu₁
    hl₁.fits hnext (by omega)
  have hl := hl₁.append (hint.symm ▸ hl₂)
  obtain ⟨hfirst, hrest⟩ : segment (w₂.files f.name).pages.byte r 4 = intBytes v.toNat ∧
      segment (w₂.files f.name).pages.byte (r + 4) 8 = longBytes x.toNat := by
    have hbyte := hl.byte
    rw [List.length_append, hint, hlong, ← segment_append] at hbyte
    exact List.append_inj hbyte (length_segment _ _ _)
  have hsize : p + 11 < (w₂.files f.name).pages.size := by
    have hlast := hl.size 11 (by rw [List.length_append, hint, hlong]; decide)
    rw [← hpos] at hlast
    exact hlast
  obtain ⟨w₃, hk₃, hr₃⟩ := readInt_lap (f := seek f p) hu₂ hl.fits hpos (by omega)
    (show p + 3 < (w₂.files f.name).pages.size by omega) hfirst
  have hkept : Kept (w₂.files f.name).pages (w₃.files f.name).pages lap := hk₃.kept
  rw [← hkept.byte] at hrest
  obtain ⟨w₄, hr₄⟩ := readLong_lap (f := seek f (p + 4)) hk₃.use hk₃.kept.fits hnext (by omega)
    (show p + 4 + 7 < (w₃.files f.name).pages.size by rw [hkept.size]; exact hsize)
    x.isLt hrest
  unfold writeThenRead
  rw [bind_ok hw₁]
  by_cases hv : ∀ b ∈ intBytes v.toNat, b < 128
  · rw [if_pos hv] at hr₃
    refine ⟨w₄, ?_⟩
    show (writeLong (seek f (p + 4)) x.toNat >>= _) _ = _
    rw [bind_ok hw₂]
    show (readInt (seek f p) >>= _) _ = _
    rw [bind_ok hr₃]
    by_cases hx : ∀ b ∈ longBytes x.toNat, b < 128
    · rw [if_pos hx] at hr₄
      rw [if_pos ⟨hv, hx⟩, ← toInt_of_low hv, ← toInt_of_low_long hx]
      show (readLong (seek f (p + 4)) >>= _) _ = _
      rw [bind_ok hr₄]
      rfl
    · rw [if_neg hx] at hr₄
      rw [if_neg (fun h => hx h.2)]
      show EStateM.bind (readLong (seek f (p + 4))) _ _ = _
      rw [EStateM.bind, hr₄]
  · rw [if_neg hv] at hr₃
    refine ⟨w₃, ?_⟩
    rw [if_neg (fun h => hv h.1)]
    show (writeLong (seek f (p + 4)) x.toNat >>= _) _ = _
    rw [bind_ok hw₂]
    show EStateM.bind (readInt (seek f p)) _ _ = _
    rw [EStateM.bind, hr₃]

/-- The twelve bytes have pages of their own where the writes end well. -/
theorem window_of_survives (huse : 0 < (w.files f.name).useCount)
    (hvalid : (w.files f.name).pages.Valid) {p : Nat} {v : BitVec 32} {x : BitVec 64}
    (h : Survives f w p v x) : p % lapSize + 12 < maxSize := by
  obtain ⟨w', hrun⟩ := h
  obtain ⟨f₁, w₁, hw₁, hrun⟩ := ok_of_bind hrun
  obtain ⟨f₂, w₂, hw₂, -⟩ := ok_of_bind hrun
  have hwrites : (intBytes v.toNat ++ longBytes x.toNat).foldlM
      (fun f b => writeByte f b.toNat) (seek f p) w = .ok f₂ w₂ := by
    rw [List.foldlM_append]
    exact (bind_ok hw₁ _).trans hw₂
  have hneeds := writes_need _ (f := seek f p) huse hwrites
  exact window_of_needs hvalid.small (hneeds 0 (by simp [intBytes, longBytes])).1
    (hneeds 11 (by simp [intBytes, longBytes])).2

/-- Both values come back just where all their bytes are below 0x80 and their pages have
numbers. -/
theorem ints_survive_iff (f : RAFile) (w : World) (hwrite : f.writeAccess = true)
    (huse : 0 < (w.files f.name).useCount) (hvalid : (w.files f.name).pages.Valid) (p : Nat)
    (v : BitVec 32) (x : BitVec 64) :
    Survives f w p v x ↔ p % lapSize + 12 < maxSize ∧
      (∀ b ∈ intBytes v.toNat, b < 128) ∧ ∀ b ∈ longBytes x.toNat, b < 128 := by
  constructor
  · intro h
    have hp := window_of_survives huse hvalid h
    refine ⟨hp, ?_⟩
    obtain ⟨w', hrun⟩ := writeThenRead_lap hwrite huse hvalid hp v x
    obtain ⟨w'', hok⟩ := h
    rw [hok] at hrun
    by_contra hhigh
    rw [if_neg hhigh] at hrun
    cases hrun
  · rintro ⟨hp, hlow⟩
    obtain ⟨w', hrun⟩ := writeThenRead_lap hwrite huse hvalid hp v x
    rw [if_pos hlow] at hrun
    exact ⟨w', hrun⟩

/-- A file that has just been made for writing. -/
def newFile : RAFile := ⟨"db.data", true, 0⟩

def created : World :=
  (restart (fun _ => ⟨none, fun _ => none⟩)).setFile "db.data"
    { FileInfo.ofStored ⟨none, fun _ => none⟩ with fileExists := true, useCount := 1 }

theorem files_created : created.files newFile.name =
    { FileInfo.ofStored ⟨none, fun _ => none⟩ with fileExists := true, useCount := 1 } :=
  files_setFile_self _ _ _

theorem use_created : 0 < (created.files newFile.name).useCount := by
  rw [files_created]
  decide

theorem valid_created : (created.files newFile.name).pages.Valid := by
  rw [files_created]
  have hsize : (Stored.mk none (fun _ => none)).size.getD 0 < maxSize := by decide
  exact valid_ofStored hsize

/-- 0x01020304 and 5 come back, over the end of the first page. -/
theorem ints_survive_iff_straddling : Survives newFile created 4090 16909060 5 :=
  (ints_survive_iff newFile created rfl use_created valid_created 4090 16909060 5).mpr
    ⟨by decide +kernel, by decide +kernel, by decide +kernel⟩

/-- writeInt(128) is read as the end of the file. -/
theorem high_byte_lost : ¬Survives newFile created 0 128 0 := by
  obtain ⟨w', hrun⟩ := writeThenRead_lap rfl use_created valid_created (p := 0)
    (by decide +kernel) 128 0
  rw [if_neg (by decide +kernel)] at hrun
  rintro ⟨w'', hok⟩
  rw [hok] at hrun
  cases hrun

end Survival

end Rhodes.PagedInts
