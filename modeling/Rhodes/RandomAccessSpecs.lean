import Rhodes.PagedFileSpecs
import Rhodes.RandomAccess

/-!
A file of the process as the list of its bytes: what is appended to it, and what is read from
it at a position. The other files and the records stay as they are.
-/
namespace Rhodes.RandomAccess

open Arrays PagedFile FileImpl

/-- The bytes of the file, in order. -/
structure Content (t : PageTable) (bytes : List UInt8) : Prop where
  valid : t.Valid
  size : t.size = bytes.length
  bytes : segment t.byte 0 bytes.length = bytes

def World.setPages (w : World) (name : String) (t : PageTable) : World :=
  w.setFile name { w.files name with pages := t }

section Worlds

variable (w : World) (name : String) (t : PageTable)

theorem files_setFile (info : FileInfo) (n : String) :
    (w.setFile name info).files n = if n = name then info else w.files n :=
  Function.update_apply w.files name info n

theorem files_setFile_self (info : FileInfo) : (w.setFile name info).files name = info := by
  rw [files_setFile, if_pos rfl]

theorem files_setFile_of_ne (info : FileInfo) {n : String} (h : n ≠ name) :
    (w.setFile name info).files n = w.files n := by
  rw [files_setFile, if_neg h]

theorem files_setPages (n : String) : (w.setPages name t).files n =
    if n = name then { w.files name with pages := t } else w.files n :=
  files_setFile w name _ n

@[simp] theorem files_setPages_self : (w.setPages name t).files name =
    { w.files name with pages := t } := by
  rw [files_setPages, if_pos rfl]

theorem files_setPages_of_ne {n : String} (h : n ≠ name) :
    (w.setPages name t).files n = w.files n := by
  rw [files_setPages, if_neg h]

@[simp] theorem commits_setPages : (w.setPages name t).commits = w.commits := rfl

@[simp] theorem setPages_setPages (t' : PageTable) :
    (w.setPages name t).setPages name t' = w.setPages name t' := by
  unfold World.setPages World.setFile
  simp

@[simp] theorem setPages_self : w.setPages name (w.files name).pages = w := by
  unfold World.setPages World.setFile
  simp

theorem setPages_comm {n : String} (h : name ≠ n) (t' : PageTable) :
    (w.setPages name t).setPages n t' = (w.setPages n t').setPages name t := by
  unfold World.setPages World.setFile
  simp only [Function.update_of_ne h, Function.update_of_ne h.symm,
    Function.update_comm h]

@[simp] theorem setFile_self : w.setFile name (w.files name) = w := by
  unfold World.setFile
  rw [Function.update_eq_self]

theorem files_syncPages (n : String) : (syncPages name w).files n =
    if n = name then { w.files name with pages := (sync (w.files name).pages).1 }
    else w.files n :=
  files_setFile w name _ n

theorem onFile_ok {α : Type} {w : World} {name : String} {act : InfoM α} {a : α} {t : PageTable}
    (h : act (w.files name) = .ok a { w.files name with pages := t }) :
    onFile name act w = .ok a (w.setPages name t) := by
  rw [onFile, h]
  rfl

end Worlds

section Content

variable {t t' : PageTable} {bytes : List UInt8}

theorem Content.byte (h : Content t bytes) {i : Nat} {b : UInt8} (hi : bytes[i]? = some b) :
    t.byte i = b := by
  have hlt : i < bytes.length := (List.getElem?_eq_some_iff.mp hi).1
  have hget := getElem?_segment t.byte 0 hlt
  rw [h.bytes, hi, Nat.zero_add] at hget
  exact (Option.some.inj hget).symm

/-- A part of the bytes. -/
theorem Content.segment (h : Content t bytes) {pos : Nat} {seg : List UInt8}
    (hseg : (bytes.drop pos).take seg.length = seg) : segment t.byte pos seg.length = seg := by
  apply List.ext_getElem?
  intro j
  by_cases hj : j < seg.length
  · have hget : bytes[pos + j]? = seg[j]? := by
      rw [← hseg, List.getElem?_take_of_lt (hseg ▸ hj), List.getElem?_drop]
    rw [List.getElem?_eq_getElem hj] at hget ⊢
    rw [getElem?_segment _ _ hj, h.byte hget]
  · rw [List.getElem?_eq_none (by simpa using Nat.le_of_not_lt hj),
      List.getElem?_eq_none (Nat.le_of_not_lt hj)]

theorem Content.unseen (h : Content t bytes) (hunseen : Unseen t t') : Content t' bytes where
  valid := hunseen.valid
  size := hunseen.size.trans h.size
  bytes := by rw [hunseen.byte, h.bytes]

theorem Content.append (h : Content t bytes) {seg : List UInt8}
    (hwrote : Wrote t t' bytes.length seg) : Content t' (bytes ++ seg) where
  valid := hwrote.valid
  size := by
    rw [hwrote.size, h.size, List.length_append]
    omega
  bytes := by
    rw [List.length_append, ← segment_append, Nat.zero_add, hwrote.byte, segment_overlay]
    congr 1
    rw [segment_congr t.byte, h.bytes]
    intro i _ hi
    exact overlay_of_lt _ _ (by omega)

end Content

theorem chunkSafe_of_lt {pos len : Nat} (h : pos < 2147483648) : ChunkSafe pos len := by
  right
  right
  omega

/-- The method appends the bytes to the file that its handle stands at the end of. -/
def Appends (act : RAFile → WorldM RAFile) (seg : List UInt8) : Prop :=
  ∀ (f : RAFile) (w : World) (bytes : List UInt8), f.writeAccess = true →
    0 < (w.files f.name).useCount → Content (w.files f.name).pages bytes → f.pos = bytes.length →
    bytes.length + seg.length < 2147483648 →
    ∃ t, act f w = .ok { f with pos := bytes.length + seg.length } (w.setPages f.name t) ∧
      Content t (bytes ++ seg) ∧ t.stored = (w.files f.name).pages.stored

section Appends

variable {act act' : RAFile → WorldM RAFile} {s r : List UInt8}

theorem Appends.pure : Appends (fun f => Pure.pure f) [] := by
  intro f w bytes _ _ hcontent hpos _
  refine ⟨(w.files f.name).pages, ?_, by simpa using hcontent, rfl⟩
  rw [setPages_self, List.length_nil, Nat.add_zero, ← hpos]
  rfl

theorem Appends.bind (h : Appends act s) (h' : Appends act' r) :
    Appends (fun f => act f >>= act') (s ++ r) := by
  intro f w bytes hwrite huse hcontent hpos hlt
  rw [List.length_append] at hlt
  obtain ⟨t, hact, hcontent', hstored⟩ := h f w bytes hwrite huse hcontent hpos (by omega)
  have hfile : (w.setPages f.name t).files f.name = { w.files f.name with pages := t } :=
    files_setPages_self w f.name t
  obtain ⟨t', hact', hcontent'', hstored'⟩ := h' { f with pos := bytes.length + s.length }
    (w.setPages f.name t) (bytes ++ s) hwrite (by rw [hfile]; exact huse)
    (by rw [hfile]; exact hcontent') List.length_append.symm
    (by rw [List.length_append]; omega)
  refine ⟨t', ?_, by rw [← List.append_assoc]; exact hcontent'', ?_⟩
  · show (act f >>= act') w = _
    rw [bind_ok hact, hact', setPages_setPages]
    simp only [List.length_append, Nat.add_assoc]
  · rw [hstored', hfile]
    exact hstored

theorem ofInt_toNat (b : UInt8) : UInt8.ofInt b.toNat = b := by
  have hlt := UInt8.toNat_lt b
  apply UInt8.toNat_inj.mp
  rw [UInt8.ofInt, UInt8.toNat_ofNat']
  omega

theorem appends_writeByte (b : UInt8) : Appends (fun f => writeByte f b.toNat) [b] := by
  intro f w bytes hwrite huse hcontent hpos hlt
  have hsmall : bytes.length + 1 < maxSize :=
    Nat.lt_trans (show bytes.length + 1 < 2147483648 from hlt) (by decide)
  obtain ⟨t, hresult, hwrote⟩ := write_spec hcontent.valid hsmall b
  refine ⟨t, ?_, hcontent.append hwrote, hwrote.stored⟩
  show writeByte f b.toNat w = _
  rw [← ofInt_toNat b] at hresult
  unfold writeByte
  rw [if_neg (by rw [hwrite]; decide)]
  show (onFile f.name (writeOne f.pos b.toNat) >>= _) w = _
  rw [hpos, bind_ok (onFile_ok (writeOne_ok huse hresult))]
  rfl

theorem appends_foldlM (seg : List UInt8) :
    Appends (fun f => seg.foldlM (fun f b => writeByte f b.toNat) f) seg := by
  induction seg with
  | nil => exact Appends.pure
  | cons b seg ih =>
    simp only [List.foldlM_cons]
    exact (appends_writeByte b).bind ih

theorem appends_writeLong (v : Nat) : Appends (fun f => writeLong f v) (longBytes v) :=
  appends_foldlM _

/-- write(b) anywhere in the file. -/
theorem writeArray_spec {f : RAFile} {w : World} {b : List UInt8} (hwrite : f.writeAccess = true)
    (huse : 0 < (w.files f.name).useCount) (hvalid : (w.files f.name).pages.Valid) (hb : b ≠ [])
    (hlt : f.pos + b.length < 2147483648) :
    ∃ t, writeArray f b w = .ok { f with pos := f.pos + b.length } (w.setPages f.name t) ∧
      Wrote (w.files f.name).pages t f.pos b := by
  have hlength : 0 < b.length := List.length_pos_iff.mpr hb
  have hsmall : f.pos + b.length < maxSize := Nat.lt_trans hlt (by decide)
  obtain ⟨t, hresult, hwrote⟩ := writeBytes_spec hvalid b 0 b.length hlength hsmall
    (by omega) (chunkSafe_of_lt (by omega))
  rw [List.drop_zero, List.take_length] at hwrote
  refine ⟨t, ?_, hwrote⟩
  have hbounds : checkBounds b 0 b.length (w.files f.name) = .ok () (w.files f.name) :=
    checkBounds_ok (by omega) (by omega) (by omega) (by omega)
  unfold writeArray
  rw [if_neg (by rw [hwrite]; decide)]
  show (onFile f.name (writeMany f.pos b 0 b.length) >>= _) w = _
  rw [bind_ok (onFile_ok (writeMany_ok huse hbounds (by omega) hresult))]
  rfl

theorem writeArray_nil {f : RAFile} (hwrite : f.writeAccess = true) (w : World) :
    writeArray f [] w = .ok f w := by
  have hsame : writeMany f.pos [] 0 (0 : Nat) (w.files f.name) = .ok f.pos (w.files f.name) := by
    unfold writeMany
    rw [bind_ok (checkBounds_ok (by omega) (by omega) (by omega) (by simp))]
    rfl
  unfold writeArray
  rw [if_neg (by rw [hwrite]; decide)]
  show (onFile f.name (writeMany f.pos [] 0 (0 : Nat)) >>= _) w = _
  rw [bind_ok (onFile_ok (t := (w.files f.name).pages) hsame), setPages_self]
  rfl

theorem appends_writeArray {b : List UInt8} (hb : b ≠ []) :
    Appends (fun f => writeArray f b) b := by
  intro f w bytes hwrite huse hcontent hpos hlt
  obtain ⟨t, hresult, hwrote⟩ := writeArray_spec hwrite huse hcontent.valid hb (by omega)
  rw [hpos] at hresult hwrote
  exact ⟨t, hresult, hcontent.append hwrote, hwrote.stored⟩

end Appends

/-- The file has been read: only what is loaded of it can differ. -/
def Reread (name : String) (bytes : List UInt8) (w w' : World) : Prop :=
  ∃ t, w' = w.setPages name t ∧ Content t bytes

section Reads

variable {name : String} {bytes : List UInt8} {w w' w'' : World}

theorem Reread.trans (h : Reread name bytes w w') (h' : Reread name bytes w' w'') :
    Reread name bytes w w'' := by
  obtain ⟨t, rfl, -⟩ := h
  obtain ⟨t', rfl, hcontent⟩ := h'
  exact ⟨t', setPages_setPages w name t t', hcontent⟩

theorem Reread.content (h : Reread name bytes w w') : Content (w'.files name).pages bytes := by
  obtain ⟨t, rfl, hcontent⟩ := h
  rw [files_setPages_self]
  exact hcontent

theorem Reread.useCount (h : Reread name bytes w w') :
    (w'.files name).useCount = (w.files name).useCount := by
  obtain ⟨t, rfl, -⟩ := h
  rw [files_setPages_self]

theorem Reread.files_of_ne (h : Reread name bytes w w') {n : String} (hn : n ≠ name) :
    w'.files n = w.files n := by
  obtain ⟨t, rfl, -⟩ := h
  exact files_setPages_of_ne w name t hn

variable {f : RAFile}

theorem readByte_spec (huse : 0 < (w.files f.name).useCount)
    (hcontent : Content (w.files f.name).pages bytes) {b : UInt8} (hb : bytes[f.pos]? = some b) :
    ∃ w', readByte f w = .ok (signed b, { f with pos := f.pos + 1 }) w' ∧
      Reread f.name bytes w w' := by
  have hlt : f.pos < bytes.length := (List.getElem?_eq_some_iff.mp hb).1
  obtain ⟨t, hread, hunseen⟩ := read_spec hcontent.valid
    (show f.pos < (w.files f.name).pages.size by rw [hcontent.size]; exact hlt)
  rw [hcontent.byte hb] at hread
  refine ⟨w.setPages f.name t, ?_, t, rfl, hcontent.unseen hunseen⟩
  unfold readByte
  rw [bind_ok (onFile_ok (readOne_ok huse hread))]
  rfl

theorem readByte_end (huse : 0 < (w.files f.name).useCount)
    (hcontent : Content (w.files f.name).pages bytes) (hend : bytes.length ≤ f.pos) :
    readByte f w = .ok (-1, f) w := by
  have hread := read_end
    (show (w.files f.name).pages.size ≤ f.pos by rw [hcontent.size]; exact hend)
  unfold readByte
  rw [bind_ok (onFile_ok (readOne_ok huse hread)), setPages_self]
  rfl

/-- Four bytes that Java does not see as negative. -/
theorem readInt_spec (huse : 0 < (w.files f.name).useCount)
    (hcontent : Content (w.files f.name).pages bytes) (before after : List UInt8)
    {b₁ b₂ b₃ b₄ : UInt8} (hbytes : bytes = before ++ b₁ :: b₂ :: b₃ :: b₄ :: after)
    (hpos : f.pos = before.length) (h₁ : b₁ < 128) (h₂ : b₂ < 128) (h₃ : b₃ < 128)
    (h₄ : b₄ < 128) :
    ∃ w', readInt f w = .ok ((b₁.toNat * 16777216 + b₂.toNat * 65536 + b₃.toNat * 256 +
      b₄.toNat : Nat), { f with pos := f.pos + 4 }) w' ∧ Reread f.name bytes w w' := by
  obtain ⟨w₁, hr₁, hw₁⟩ := readByte_spec huse hcontent (b := b₁) (by simp [hbytes, hpos])
  obtain ⟨w₂, hr₂, hw₂⟩ := readByte_spec (f := { f with pos := f.pos + 1 }) (b := b₂)
    (by rw [hw₁.useCount]; exact huse) hw₁.content (by simp [hbytes, hpos])
  obtain ⟨w₃, hr₃, hw₃⟩ := readByte_spec (f := { f with pos := f.pos + 1 + 1 }) (b := b₃)
    (by rw [hw₂.useCount, hw₁.useCount]; exact huse) hw₂.content
    (by simp [hbytes, hpos, Nat.add_assoc])
  obtain ⟨w₄, hr₄, hw₄⟩ := readByte_spec (f := { f with pos := f.pos + 1 + 1 + 1 }) (b := b₄)
    (by rw [hw₃.useCount, hw₂.useCount, hw₁.useCount]; exact huse) hw₃.content
    (by simp [hbytes, hpos, Nat.add_assoc])
  refine ⟨w₄, ?_, ((hw₁.trans hw₂).trans hw₃).trans hw₄⟩
  have hs : ∀ {b : UInt8}, b < 128 → signed b = b.toNat ∧ b.toNat < 128 := fun h =>
    ⟨if_pos (UInt8.lt_iff_toNat_lt.mp h), UInt8.lt_iff_toNat_lt.mp h⟩
  have hsum : toInt (signed b₁ * 16777216 + signed b₂ * 65536 + signed b₃ * 256 + signed b₄) =
      (b₁.toNat * 16777216 + b₂.toNat * 65536 + b₃.toNat * 256 + b₄.toNat : Nat) := by
    have := (hs h₁).2
    have := (hs h₂).2
    have := (hs h₃).2
    have := (hs h₄).2
    rw [(hs h₁).1, (hs h₂).1, (hs h₃).1, (hs h₄).1]
    rw [toInt_eq (by omega) (by omega)]
    omega
  have hnonneg : ¬(signed b₁ < 0 ∨ signed b₂ < 0 ∨ signed b₃ < 0 ∨ signed b₄ < 0) := by
    rw [(hs h₁).1, (hs h₂).1, (hs h₃).1, (hs h₄).1]
    omega
  unfold readInt
  rw [bind_ok hr₁]
  show (readByte { f with pos := f.pos + 1 } >>= _) w₁ = _
  rw [bind_ok hr₂]
  show (readByte { f with pos := f.pos + 1 + 1 } >>= _) w₂ = _
  rw [bind_ok hr₃]
  show (readByte { f with pos := f.pos + 1 + 1 + 1 } >>= _) w₃ = _
  rw [bind_ok hr₄]
  show (if signed b₁ < 0 ∨ signed b₂ < 0 ∨ signed b₃ < 0 ∨ signed b₄ < 0 then _ else _ :
    WorldM (Int × RAFile)) w₄ = _
  rw [if_neg hnonneg, hsum]
  rfl

/-- The end of the file is an EOFException. -/
theorem readLong_end (huse : 0 < (w.files f.name).useCount)
    (hcontent : Content (w.files f.name).pages bytes) (hend : bytes.length ≤ f.pos) :
    readLong f w = .error .eof w := by
  have hread := readByte_end huse hcontent hend
  have hint : readInt f w = .error .eof w := by
    unfold readInt
    rw [bind_ok hread]
    show (readByte f >>= _) w = _
    rw [bind_ok hread]
    show (readByte f >>= _) w = _
    rw [bind_ok hread]
    show (readByte f >>= _) w = _
    rw [bind_ok hread]
    rfl
  unfold readLong
  show EStateM.bind _ _ _ = _
  rw [EStateM.bind, hint]

/-- No byte of the long is above 127. -/
def LowBytes (v : Nat) : Prop := ∀ b ∈ longBytes v, b < 128

instance (v : Nat) : Decidable (LowBytes v) := List.decidableBAll _ _

/-- The four bytes of an int, put together again. -/
theorem word_eq (n : Nat) :
    (UInt8.ofNat (n >>> 24)).toNat * 16777216 + (UInt8.ofNat (n >>> 16)).toNat * 65536 +
      (UInt8.ofNat (n >>> 8)).toNat * 256 + (UInt8.ofNat (n >>> 0)).toNat = n % 4294967296 := by
  simp only [UInt8.toNat_ofNat', Nat.shiftRight_eq_div_pow]
  omega

theorem readLong_spec (huse : 0 < (w.files f.name).useCount)
    (hcontent : Content (w.files f.name).pages bytes) (before : List UInt8) (v : Nat)
    (after : List UInt8)
    (hbytes : bytes = before ++ longBytes v ++ after) (hpos : f.pos = before.length)
    (hlow : LowBytes v) (hv : v < 9223372036854775808) :
    ∃ w', readLong f w = .ok ((v : Int), { f with pos := f.pos + 8 }) w' ∧
      Reread f.name bytes w w' := by
  have hlow' : ∀ shift ∈ [56, 48, 40, 32, 24, 16, 8, 0], UInt8.ofNat (v >>> shift) < 128 :=
    fun shift hshift => hlow _ (List.mem_map_of_mem hshift)
  obtain ⟨w₁, hr₁, hw₁⟩ := readInt_spec huse hcontent before _
    (hbytes.trans (List.append_assoc _ _ _)) hpos (hlow' 56 (by simp)) (hlow' 48 (by simp))
    (hlow' 40 (by simp)) (hlow' 32 (by simp))
  obtain ⟨w₂, hr₂, hw₂⟩ := readInt_spec (f := { f with pos := f.pos + 4 })
    (by rw [hw₁.useCount]; exact huse) hw₁.content (before ++ (longBytes v).take 4) after
    (by rw [hbytes]; simp [longBytes]) (by simp [hpos, longBytes])
    (hlow' 24 (by simp)) (hlow' 16 (by simp)) (hlow' 8 (by simp)) (hlow' 0 (by simp))
  refine ⟨w₂, ?_, hw₁.trans hw₂⟩
  unfold readLong
  rw [bind_ok hr₁]
  show (readInt { f with pos := f.pos + 4 } >>= _) w₁ = _
  rw [bind_ok hr₂]
  have hhigh := word_eq (v >>> 32)
  have hsplit : v >>> 32 = v / 4294967296 := Nat.shiftRight_eq_div_pow v 32
  have hvalue : (((v >>> 32) % 4294967296 : Nat) : Int) * (4294967296 : Int) +
      ((v % 4294967296 : Nat) : Int) % (4294967296 : Int) = v := by
    rw [hsplit]
    omega
  rw [← hhigh, ← word_eq v] at hvalue
  simp only [← Nat.shiftRight_add] at hvalue
  exact congrArg (fun x => EStateM.Result.ok (x, { f with pos := f.pos + 8 }) w₂) hvalue

/-- read(b) into a new array, inside the file. -/
theorem readArray_spec (huse : 0 < (w.files f.name).useCount)
    (hvalid : (w.files f.name).pages.Valid) {len : Nat} (hlen : 0 < len)
    (hint : len < 2147483648) (hpos : f.pos < 2147483648)
    (hend : f.pos + len ≤ (w.files f.name).pages.size) :
    ∃ t, readArray f (List.replicate len 0) w = .ok ((len : Int),
        segment (w.files f.name).pages.byte f.pos len, { f with pos := f.pos + len })
        (w.setPages f.name t) ∧ Unseen (w.files f.name).pages t := by
  have hlength : (List.replicate len (0 : UInt8)).length = len := List.length_replicate
  obtain ⟨t, hread, hunseen⟩ := readBytes_spec hvalid
    (show f.pos < (w.files f.name).pages.size by omega) (List.replicate len 0) 0 len (by omega)
    (show len = min len ((w.files f.name).pages.size - f.pos) by omega) (chunkSafe_of_lt hpos)
    (Or.inl rfl)
  have hsplice : splice (List.replicate len 0) 0 (segment (w.files f.name).pages.byte f.pos len) =
      segment (w.files f.name).pages.byte f.pos len := by
    rw [splice, length_segment, List.take_zero, List.nil_append, List.drop_eq_nil_of_le (by omega),
      List.append_nil]
  rw [hsplice] at hread
  refine ⟨t, ?_, hunseen⟩
  have hbounds : checkBounds (List.replicate len 0) 0 len (w.files f.name) =
      .ok () (w.files f.name) :=
    checkBounds_ok (by omega) (by omega) (by omega) (by omega)
  unfold readArray
  rw [hlength, bind_ok (onFile_ok (readMany_ok huse hbounds (by omega) hread))]
  rfl

/-- read(b) where there is nothing to read. -/
theorem readArray_none (huse : 0 < (w.files f.name).useCount) {len : Nat}
    (hint : len < 2147483648) (hend : len = 0 ∨ (w.files f.name).pages.size ≤ f.pos) :
    ∃ n b, n ≤ 0 ∧ readArray f (List.replicate len 0) w = .ok (n, b, f) w := by
  have hlength : (List.replicate len (0 : UInt8)).length = len := List.length_replicate
  have hbounds : checkBounds (List.replicate len 0) 0 len (w.files f.name) =
      .ok () (w.files f.name) :=
    checkBounds_ok (by omega) (by omega) (by omega) (by omega)
  unfold readArray
  rw [hlength]
  by_cases hlen : (len : Int) = 0
  · refine ⟨0, List.replicate len 0, by omega, ?_⟩
    have hread : readMany f.pos (List.replicate len 0) 0 len (w.files f.name) =
        .ok ⟨0, List.replicate len 0, f.pos⟩ (w.files f.name) := by
      unfold readMany
      rw [bind_ok hbounds, if_pos hlen]
      rfl
    rw [bind_ok (onFile_ok (t := (w.files f.name).pages) hread), setPages_self]
    rfl
  · have hpos : (w.files f.name).pages.size ≤ f.pos := by omega
    refine ⟨-1, List.replicate len 0, by omega, ?_⟩
    rw [bind_ok (onFile_ok (readMany_ok huse hbounds hlen (readBytes_end hpos _ _ _))),
      setPages_self]
    rfl

theorem readArray_content (huse : 0 < (w.files f.name).useCount)
    (hcontent : Content (w.files f.name).pages bytes) (before seg after : List UInt8)
    (hbytes : bytes = before ++ seg ++ after) (hpos : f.pos = before.length) (hseg : seg ≠ [])
    (hlt : bytes.length < 2147483648) :
    ∃ w', readArray f (List.replicate seg.length 0) w =
      .ok ((seg.length : Int), seg, { f with pos := f.pos + seg.length }) w' ∧
      Reread f.name bytes w w' := by
  have hlength : bytes.length = before.length + seg.length + after.length := by
    rw [hbytes, List.length_append, List.length_append]
  obtain ⟨t, hread, hunseen⟩ := readArray_spec huse hcontent.valid
    (List.length_pos_iff.mpr hseg) (by omega) (by omega) (by rw [hcontent.size]; omega)
  have hbytes' : segment (w.files f.name).pages.byte f.pos seg.length = seg := by
    apply hcontent.segment
    rw [hbytes, hpos, List.append_assoc, List.drop_left, List.take_left]
  rw [hbytes'] at hread
  exact ⟨w.setPages f.name t, hread, t, rfl, hcontent.unseen hunseen⟩

end Reads

end Rhodes.RandomAccess
