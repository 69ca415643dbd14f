import Rhodes.JournalFile
import Rhodes.RandomAccessSpecs

/-!
rollback on a journal whose records are whole: they are written over the data file in their
order, and the journal is removed. A record can be read back when no byte of its position and
of its length is above 127.
-/
namespace Rhodes.JournalReplay

open Arrays PagedFile FileImpl RandomAccess JournalFile

/-- Where bytes of the data file were saved from. -/
structure Record where
  pos : Nat
  bytes : List UInt8

def Record.encode (r : Record) : List UInt8 :=
  longBytes r.pos ++ longBytes r.bytes.length ++ r.bytes ++ [blockConfirm]

/-- A journal with the length of the data file at its head. -/
def encode (size : Nat) (rs : List Record) : List UInt8 :=
  longBytes size ++ [blockConfirm] ++ rs.flatMap Record.encode

structure Record.Readable (r : Record) : Prop where
  pos : LowBytes r.pos
  length : LowBytes r.bytes.length
  bytes : r.bytes ≠ []
  small : r.pos + r.bytes.length < 2147483648

section Records

variable {w : World} {jf : RAFile} {J : List UInt8}

@[simp] theorem length_longBytes (v : Nat) : (longBytes v).length = 8 := rfl

theorem length_encodeRecord (r : Record) : r.encode.length = 17 + r.bytes.length := by
  simp only [Record.encode, List.length_append, length_longBytes, List.length_singleton]
  omega

/-- The byte that confirms a block is read as it is. -/
theorem signed_blockConfirm : signed blockConfirm = blockConfirm.toNat := by decide

theorem readRecord_spec (huse : 0 < (w.files jf.name).useCount)
    (hcontent : Content (w.files jf.name).pages J) (hlt : J.length < 2147483648)
    {before after : List UInt8} {r : Record} (hJ : J = before ++ r.encode ++ after)
    (hpos : jf.pos = before.length) (hr : r.Readable) :
    ∃ w', readRecord jf w =
      .ok (some (r.pos, r.bytes, { jf with pos := jf.pos + r.encode.length })) w' ∧
      Reread jf.name J w w' := by
  have hsmall := hr.small
  have hconfirm : J[jf.pos + 8 + 8 + r.bytes.length]? = some blockConfirm := by
    have hJ' : J = (before ++ longBytes r.pos ++ longBytes r.bytes.length ++ r.bytes) ++
        blockConfirm :: after := by simp [hJ, Record.encode]
    have hlength : (before ++ longBytes r.pos ++ longBytes r.bytes.length ++ r.bytes).length =
        jf.pos + 8 + 8 + r.bytes.length := by
      simp only [List.length_append, length_longBytes, hpos]
    rw [hJ', ← hlength, List.getElem?_append_right (Nat.le_refl _), Nat.sub_self]
    rfl
  obtain ⟨w₁, hr₁, hw₁⟩ := readLong_spec huse hcontent before r.pos
    (longBytes r.bytes.length ++ r.bytes ++ [blockConfirm] ++ after)
    (by simp [hJ, Record.encode]) hpos hr.pos (by omega)
  obtain ⟨w₂, hr₂, hw₂⟩ := readLong_spec (f := { jf with pos := jf.pos + 8 })
    (by rw [hw₁.useCount]; exact huse) hw₁.content (before ++ longBytes r.pos) r.bytes.length
    (r.bytes ++ [blockConfirm] ++ after) (by simp [hJ, Record.encode])
    (by simp [hpos]) hr.length (by omega)
  obtain ⟨w₃, hr₃, hw₃⟩ := readArray_content (f := { jf with pos := jf.pos + 8 + 8 })
    (by rw [hw₂.useCount, hw₁.useCount]; exact huse) hw₂.content
    (before ++ longBytes r.pos ++ longBytes r.bytes.length) r.bytes ([blockConfirm] ++ after)
      (by simp [hJ, Record.encode])
    (by simp [hpos, Nat.add_assoc]) hr.bytes hlt
  obtain ⟨w₄, hr₄, hw₄⟩ := readByte_spec
    (f := { jf with pos := jf.pos + 8 + 8 + r.bytes.length }) (b := blockConfirm)
    (by rw [hw₃.useCount, hw₂.useCount, hw₁.useCount]; exact huse) hw₃.content hconfirm
  refine ⟨w₄, ?_, ((hw₁.trans hw₂).trans hw₃).trans hw₄⟩
  have hint : toInt (r.bytes.length : Int) = r.bytes.length := toInt_eq (by omega) (by omega)
  unfold readRecord
  rw [bind_ok hr₁]
  show (readLong { jf with pos := jf.pos + 8 } >>= _) w₁ = _
  rw [bind_ok hr₂]
  show (if toInt (r.bytes.length : Int) < 0 then _ else _ :
    WorldM (Option (Nat × List UInt8 × RAFile))) w₂ = _
  rw [if_neg (by omega), hint, Int.toNat_natCast]
  show (readArray { jf with pos := jf.pos + 8 + 8 } _ >>= _) w₂ = _
  rw [bind_ok hr₃]
  show (readByte { jf with pos := jf.pos + 8 + 8 + r.bytes.length } >>= _) w₃ = _
  rw [bind_ok hr₄, length_encodeRecord]
  show (if signed blockConfirm ≠ (blockConfirm.toNat : Int) ∨
    (r.bytes.length : Int) ≠ (r.bytes.length : Int) then _ else _ :
    WorldM (Option (Nat × List UInt8 × RAFile))) w₄ = _
  rw [if_neg (by simp [signed_blockConfirm])]
  have hnext : jf.pos + 8 + 8 + r.bytes.length + 1 = jf.pos + (17 + r.bytes.length) := by omega
  rw [← hnext]
  rfl

theorem readRecord_end (huse : 0 < (w.files jf.name).useCount)
    (hcontent : Content (w.files jf.name).pages J) (hpos : J.length ≤ jf.pos) :
    untilEof (readRecord jf) w = .ok none w := by
  have hread : readRecord jf w = .error .eof w := by
    unfold readRecord
    show EStateM.bind _ _ _ = _
    rw [EStateM.bind, readLong_end huse hcontent hpos]
  rw [untilEof, hread]

/-- The bytes of the data file after the records have been written over it. -/
def restored (g : Nat → UInt8) (rs : List Record) : Nat → UInt8 :=
  rs.foldl (fun g r => overlay g r.pos r.bytes) g

theorem replay_spec (rs : List Record) (fuel : Nat) (jf df : RAFile) (hne : jf.name ≠ df.name)
    (before : List UInt8) (hfuel : rs.length < fuel) (hlt : J.length < 2147483648)
    (hJ : J = before ++ rs.flatMap Record.encode) (hpos : jf.pos = before.length)
    (huse : 0 < (w.files jf.name).useCount) (hcontent : Content (w.files jf.name).pages J)
    (hwrite : df.writeAccess = true) (huse' : 0 < (w.files df.name).useCount)
    (hvalid : (w.files df.name).pages.Valid)
    (hrs : ∀ r ∈ rs, r.Readable ∧ r.pos + r.bytes.length ≤ (w.files df.name).pages.size) :
    ∃ tj t, replay fuel jf df w = .ok () ((w.setPages jf.name tj).setPages df.name t) ∧
      Content tj J ∧ t.Valid ∧ t.size = (w.files df.name).pages.size ∧
      t.byte = restored (w.files df.name).pages.byte rs := by
  induction rs generalizing fuel jf df w before with
  | nil =>
    obtain ⟨fuel, rfl⟩ := Nat.exists_eq_succ_of_ne_zero (Nat.ne_of_gt (Nat.zero_lt_of_lt hfuel))
    have hend : J.length ≤ jf.pos := by simp [hJ, hpos]
    refine ⟨(w.files jf.name).pages, (w.files df.name).pages, ?_, hcontent, hvalid, rfl, rfl⟩
    rw [setPages_self, setPages_self]
    unfold replay
    rw [bind_ok (readRecord_end huse hcontent hend)]
    rfl
  | cons r rs ih =>
    obtain ⟨fuel, rfl⟩ := Nat.exists_eq_succ_of_ne_zero (Nat.ne_of_gt (Nat.zero_lt_of_lt hfuel))
    obtain ⟨hr, hsize⟩ := hrs r List.mem_cons_self
    have hsmall := hr.small
    rw [List.flatMap_cons, ← List.append_assoc] at hJ
    obtain ⟨w₁, hread, tj₁, rfl, hcontent₁⟩ := readRecord_spec huse hcontent hlt hJ hpos hr
    have huntil : untilEof (readRecord jf) w = .ok (some (r.pos, r.bytes,
        { jf with pos := jf.pos + r.encode.length })) (w.setPages jf.name tj₁) := by
      rw [untilEof, hread]
    have hdata : (w.setPages jf.name tj₁).files df.name = w.files df.name :=
      files_setPages_of_ne w jf.name tj₁ hne.symm
    obtain ⟨t₁, hwritten, hwrote⟩ := writeArray_spec (f := { df with pos := r.pos })
      (w := w.setPages jf.name tj₁) hwrite (by rw [hdata]; exact huse')
      (by rw [hdata]; exact hvalid) hr.bytes hsmall
    rw [hdata] at hwrote
    have hjournal : ((w.setPages jf.name tj₁).setPages df.name t₁).files jf.name =
        { w.files jf.name with pages := tj₁ } := by
      rw [files_setPages_of_ne _ df.name t₁ hne, files_setPages_self]
    have hdata' : ((w.setPages jf.name tj₁).setPages df.name t₁).files df.name =
        { w.files df.name with pages := t₁ } := by
      rw [files_setPages_self, hdata]
    have hsize₁ : t₁.size = (w.files df.name).pages.size := by
      rw [hwrote.size]
      show max _ (r.pos + r.bytes.length) = _
      omega
    obtain ⟨tj, t, hreplay, hcontent', hvalid', hsize', hbyte⟩ :=
      ih fuel { jf with pos := jf.pos + r.encode.length }
        { df with pos := r.pos + r.bytes.length } hne
        (w := (w.setPages jf.name tj₁).setPages df.name t₁) (before ++ r.encode)
        (Nat.lt_of_succ_lt_succ hfuel) hJ (by simp [hpos])
        (by rw [hjournal]; exact huse) (by rw [hjournal]; exact hcontent₁) hwrite
        (by rw [hdata']; exact huse') (by rw [hdata']; exact hwrote.valid)
        (by rw [hdata', hsize₁]; exact fun r' hr' => hrs r' (List.mem_cons_of_mem _ hr'))
    rw [hdata'] at hsize' hbyte
    refine ⟨tj, t, ?_, hcontent', hvalid', hsize'.trans hsize₁, ?_⟩
    · unfold replay
      rw [bind_ok huntil]
      show (writeArray { df with pos := r.pos } r.bytes >>= _) (w.setPages jf.name tj₁) = _
      rw [bind_ok hwritten, hreplay, setPages_comm _ _ _ hne.symm, setPages_setPages,
        setPages_setPages]
    · rw [hbyte, hwrote.byte]
      rfl

theorem restored_congr {g g' : Nat → UInt8} (rs : List Record) {i : Nat} (h : g i = g' i) :
    restored g rs i = restored g' rs i := by
  induction rs generalizing g g' with
  | nil => exact h
  | cons r rs ih =>
    apply ih
    show overlay g r.pos r.bytes i = overlay g' r.pos r.bytes i
    unfold overlay
    rw [h]

end Records

section Rollback

theorem onRollback_ok {α : Type} {act : WorldM α} {s : Rollback} {a : α} {w : World}
    (h : act s.world = .ok a w) : onRollback act s = .ok a { s with world := w } := by
  rw [onRollback, h]

/-- A file with a record is opened after a restart. -/
theorem openFile_ofStored {w : World} {name : String} {stored : Stored} {n : Nat}
    (hfile : w.files name = FileInfo.ofStored stored) (hsize : stored.size = some n)
    (writeAccess : Bool) : openFile name writeAccess w = .ok ⟨name, writeAccess, 0⟩
      (w.setFile name { FileInfo.ofStored stored with fileExists := true, useCount := 1 }) := by
  have hexists : (FileInfo.ofStored stored).fileExists = true := by
    show stored.size.isSome = true
    rw [hsize]
    rfl
  unfold openFile
  rw [hfile]
  show (if (0 : Int) < 0 then _ else if _ ∧ _ then _ else _) = _
  rw [if_neg (by omega), hexists, if_neg (by simp)]
  rfl

/-- The bytes of the records of a file. -/
def storedByte (s : Stored) (i : Nat) : UInt8 := (s.bytes (i / pageSize)).val.getD (i % pageSize) 0

theorem content_ofStored {s : Stored} {J : List UInt8} (hsize : s.size = some J.length)
    (hlt : J.length < maxSize) (hbytes : segment (storedByte s) 0 J.length = J) :
    Content (PageTable.ofStored s) J where
  valid := valid_ofStored (by rw [hsize]; exact hlt)
  size := by
    show s.size.getD 0 = J.length
    rw [hsize]
    rfl
  bytes := by
    have hbyte : (PageTable.ofStored s).byte = storedByte s := by
      funext i
      exact byte_ofStored s i
    rw [hbyte, hbytes]

/-- setLength of a file that is open keeps the bytes below the new length. -/
theorem setLength_spec {w : World} {f : RAFile} (huse : 0 < (w.files f.name).useCount)
    (hvalid : (w.files f.name).pages.Valid) {n : Nat} (hn : n < maxSize) :
    ∃ t, setLength f n w = .ok () (w.setPages f.name t) ∧ t.Valid ∧ t.size = n ∧
      ∀ i < n, t.byte i = (w.files f.name).pages.byte i := by
  by_cases heq : (w.files f.name).pages.size = n
  · refine ⟨(w.files f.name).pages, ?_, hvalid, heq, fun _ _ => rfl⟩
    have hsame := setSize_same huse
    rw [heq] at hsame
    exact onFile_ok hsame
  · obtain ⟨t, hresize, hresized⟩ := resize_spec hvalid hn
    refine ⟨t, onFile_ok (setSize_ok huse heq hresize), hresized.valid, hresized.size, ?_⟩
    intro i hi
    have hpage : i / pageSize < n / pageSize + 1 :=
      Nat.lt_succ_of_le (Nat.div_le_div_right (Nat.le_of_lt hi))
    rw [PageTable.byte, hresized.bytes _ hpage]
    rfl

variable {stored : String → Stored} {j d : String} {size₀ : Nat} {rs : List Record}

/-- What the journal has to hold for a rollback. -/
structure Replayable (stored : String → Stored) (j d : String) (size₀ : Nat) (rs : List Record) :
    Prop where
  ne : j ≠ d
  low : LowBytes size₀
  small : size₀ < maxSize
  length : (encode size₀ rs).length < 2147483648
  journal : (stored j).size = some (encode size₀ rs).length
  bytes : segment (storedByte (stored j)) 0 (encode size₀ rs).length = encode size₀ rs
  data : ∃ z, (stored d).size = some z ∧ z < maxSize
  records : ∀ r ∈ rs, r.Readable ∧ r.pos + r.bytes.length ≤ size₀

theorem length_encode (size : Nat) (rs : List Record) :
    rs.length ≤ (encode size rs).length := by
  have hrecords : rs.length ≤ (rs.flatMap Record.encode).length := by
    induction rs with
    | nil => exact Nat.le_refl 0
    | cons r rs ih =>
      rw [List.flatMap_cons, List.length_append, length_encodeRecord, List.length_cons]
      omega
  rw [encode, List.length_append]
  omega

/-- The files after the block that rollback tries, both still open. -/
structure Replayed (stored : String → Stored) (j d : String) (size₀ : Nat) (rs : List Record)
    (s : Rollback) : Prop where
  jf : s.jf = some ⟨j, false, 0⟩
  df : s.df = some ⟨d, true, 0⟩
  journal : ∃ t, s.world.files j = { FileInfo.ofStored (stored j) with
    fileExists := true, useCount := 1, pages := t } ∧ t.Valid
  data : ∃ t, s.world.files d = { FileInfo.ofStored (stored d) with
    fileExists := true, useCount := 1, pages := t } ∧ t.Valid ∧ t.size = size₀ ∧
    ∀ i < size₀, t.byte i = restored (storedByte (stored d)) rs i

/-- The files after the head of the journal is read. -/
structure HeadRead (stored : String → Stored) (j d : String) (size₀ : Nat) (rs : List Record)
    (w : World) : Prop where
  journal : ∃ t, w.files j = { FileInfo.ofStored (stored j) with
    fileExists := true, useCount := 1, pages := t }
  content : Content (w.files j).pages (encode size₀ rs)
  data : w.files d = FileInfo.ofStored (stored d)

/-- The journal is opened and its head is read. -/
theorem readHead_spec (h : Replayable stored j d size₀ rs) :
    ∃ w₁ w₂ w₃, openFile j false (restart stored) = .ok ⟨j, false, 0⟩ w₁ ∧
      readLong ⟨j, false, 0⟩ w₁ = .ok ((size₀ : Int), ⟨j, false, 8⟩) w₂ ∧
      readByte ⟨j, false, 8⟩ w₂ = .ok (signed blockConfirm, ⟨j, false, 9⟩) w₃ ∧
      HeadRead stored j d size₀ rs w₃ := by
  have hmax : (2147483648 : Nat) < maxSize := by decide
  have hlength := h.length
  obtain ⟨w₁, hw₁⟩ : ∃ w₁, w₁ = (restart stored).setFile j
      { FileInfo.ofStored (stored j) with fileExists := true, useCount := 1 } := ⟨_, rfl⟩
  have hopen : openFile j false (restart stored) = .ok ⟨j, false, 0⟩ w₁ :=
    hw₁ ▸ openFile_ofStored rfl h.journal false
  have hj₁ : w₁.files j =
      { FileInfo.ofStored (stored j) with fileExists := true, useCount := 1 } := by
    rw [hw₁, files_setFile_self]
  have hd₁ : w₁.files d = FileInfo.ofStored (stored d) := by
    rw [hw₁, files_setFile_of_ne _ _ _ h.ne.symm]
    rfl
  have huse₁ : 0 < (w₁.files j).useCount := by
    rw [hj₁]
    exact Int.zero_lt_one
  have hcontent₁ : Content (w₁.files j).pages (encode size₀ rs) := by
    rw [hj₁]
    exact content_ofStored h.journal (by omega) h.bytes
  obtain ⟨w₂, hr₂, hw₂⟩ := readLong_spec (f := ⟨j, false, 0⟩) huse₁ hcontent₁ [] size₀
    ([blockConfirm] ++ rs.flatMap Record.encode)
    (by simp [encode]) rfl h.low (by have := h.small; unfold maxSize pageSize at this; omega)
  obtain ⟨w₃, hr₃, hw₃⟩ := readByte_spec (f := ⟨j, false, 8⟩) (b := blockConfirm)
    (by rw [hw₂.useCount]; exact huse₁) hw₂.content (by
      rw [encode, List.append_assoc, List.getElem?_append_right (Nat.le_refl 8)]
      rfl)
  have hreread := hw₂.trans hw₃
  refine ⟨w₁, w₂, w₃, hopen, hr₂, hr₃, ?_, hreread.content, ?_⟩
  · obtain ⟨t, hw, -⟩ := hreread
    exact ⟨t, by rw [hw, files_setPages_self, hj₁]⟩
  · rw [hreread.files_of_ne h.ne.symm, hd₁]

/-- The data file is opened and gets its length back. -/
theorem openData_spec (h : Replayable stored j d size₀ rs) {w : World}
    (hd : w.files d = FileInfo.ofStored (stored d)) :
    ∃ w' t, openFile d true w = .ok ⟨d, true, 0⟩ w' ∧
      setLength ⟨d, true, 0⟩ size₀ w' = .ok () (w'.setPages d t) ∧
      w'.files d = { FileInfo.ofStored (stored d) with fileExists := true, useCount := 1 } ∧
      (∀ n ≠ d, w'.files n = w.files n) ∧ t.Valid ∧ t.size = size₀ ∧
      ∀ i < size₀, t.byte i = storedByte (stored d) i := by
  obtain ⟨z, hz, hzmax⟩ := h.data
  obtain ⟨w', hw'⟩ : ∃ w', w' = w.setFile d
      { FileInfo.ofStored (stored d) with fileExists := true, useCount := 1 } := ⟨_, rfl⟩
  have hfile : w'.files d =
      { FileInfo.ofStored (stored d) with fileExists := true, useCount := 1 } := by
    rw [hw', files_setFile_self]
  have huse : 0 < (w'.files d).useCount := by
    rw [hfile]
    exact Int.zero_lt_one
  have hvalid : (w'.files d).pages.Valid := by
    rw [hfile]
    exact valid_ofStored (by rw [hz]; exact hzmax)
  obtain ⟨t, hset, hvalid', hsize, hbyte⟩ :=
    setLength_spec (f := ⟨d, true, 0⟩) huse hvalid h.small
  refine ⟨w', t, hw' ▸ openFile_ofStored hd hz true, hset, hfile, ?_, hvalid', hsize, ?_⟩
  · intro n hn
    rw [hw', files_setFile_of_ne _ _ _ hn]
  · intro i hi
    rw [hbyte i hi]
    show (w'.files d).pages.byte i = _
    rw [hfile]
    exact byte_ofStored (stored d) i

theorem rollbackFiles_spec (h : Replayable stored j d size₀ rs) :
    ∃ s, rollbackFiles j d ⟨restart stored, none, none⟩ = .ok () s ∧
      Replayed stored j d size₀ rs s := by
  obtain ⟨w₁, w₂, w₃, hopen, hlong, hbyte, hhead⟩ := readHead_spec h
  obtain ⟨tj₃, hj₃⟩ := hhead.journal
  obtain ⟨w₄, t₅, hopen', hset, hd₄, hother, hvalid₅, hsize₅, hbyte₅⟩ := openData_spec h hhead.data
  have hd₅ : (w₄.setPages d t₅).files d = { w₄.files d with pages := t₅ } :=
    files_setPages_self w₄ d t₅
  have hj₅ : (w₄.setPages d t₅).files j = w₃.files j := by
    rw [files_setPages_of_ne _ _ _ h.ne, hother j h.ne]
  have huse₃ : 0 < (w₃.files j).useCount := by
    rw [hj₃]
    exact Int.zero_lt_one
  have huse₄ : 0 < (w₄.files d).useCount := by
    rw [hd₄]
    exact Int.zero_lt_one
  -- The records are written back.
  obtain ⟨tj, t, hreplay, hcontent, hvalid, hsize, hrestored⟩ := replay_spec rs
    (((w₄.setPages d t₅).files j).pages.size + 1) ⟨j, false, 9⟩ ⟨d, true, 0⟩
    (w := w₄.setPages d t₅) (J := encode size₀ rs) h.ne (longBytes size₀ ++ [blockConfirm])
    (by rw [hj₅, hhead.content.size]; exact Nat.lt_succ_of_le (length_encode size₀ rs))
    h.length rfl rfl (by rw [hj₅]; exact huse₃) (by rw [hj₅]; exact hhead.content) rfl
    (by rw [hd₅]; exact huse₄) (by rw [hd₅]; exact hvalid₅)
    (by rw [hd₅]; exact hsize₅.symm ▸ h.records)
  refine ⟨⟨((w₄.setPages d t₅).setPages j tj).setPages d t, some ⟨j, false, 0⟩, some ⟨d, true, 0⟩⟩,
    ?_, rfl, rfl, ⟨tj, ?_, hcontent.valid⟩, t, ?_, hvalid, ?_, ?_⟩
  · unfold rollbackFiles
    rw [bind_ok (onRollback_ok hopen)]
    show (onRollback (readLong ⟨j, false, 0⟩) >>= _) ⟨w₁, some ⟨j, false, 0⟩, none⟩ = _
    rw [bind_ok (onRollback_ok hlong)]
    show (onRollback (readByte ⟨j, false, 8⟩) >>= _) ⟨w₂, some ⟨j, false, 0⟩, none⟩ = _
    rw [bind_ok (onRollback_ok hbyte), signed_blockConfirm]
    show (onRollback (openFile d true) >>= _) ⟨w₃, some ⟨j, false, 0⟩, none⟩ = _
    rw [bind_ok (onRollback_ok hopen')]
    show (onRollback (setLength ⟨d, true, 0⟩ size₀) >>= _)
      ⟨w₄, some ⟨j, false, 0⟩, some ⟨d, true, 0⟩⟩ = _
    rw [bind_ok (onRollback_ok hset)]
    exact onRollback_ok hreplay
  · rw [files_setPages_of_ne _ _ _ h.ne, files_setPages_self, hj₅, hj₃]
  · rw [files_setPages_self, files_setPages_of_ne _ _ _ h.ne.symm, hd₅, hd₄]
  · rw [hsize, hd₅]
    exact hsize₅
  · intro i hi
    rw [hrestored]
    apply restored_congr
    rw [hd₅]
    exact hbyte₅ i hi

/-- The world in which no handle of the file is open. -/
def released (w : World) (name : String) : World :=
  w.setFile name { w.files name with useCount := 0 }

/-- The last handle of a file that nothing listens for is closed. -/
theorem closeFile_eq {w : World} {f : RAFile} (huse : (w.files f.name).useCount = 1)
    (hlisten : (w.files f.name).listenForSync = []) :
    closeFile f w = .ok () (if f.writeAccess = true ∧ (w.files f.name).fileExists = true then
      syncPages f.name (released w f.name) else released w f.name) := by
  have hzero : (w.files f.name).useCount - 1 = 0 := by rw [huse]; rfl
  have hsync : syncInfo f.name (released w f.name) = syncPages f.name (released w f.name) := by
    rw [syncInfo, released, files_setFile_self]
    show syncPages f.name ((w.files f.name).listenForSync.foldl _ _) = _
    rw [hlisten]
    rfl
  unfold closeFile
  rw [if_neg (by rw [huse]; decide), hzero]
  show (if (0 : Int) = 0 ∧ f.writeAccess = true ∧ (w.files f.name).fileExists = true then
    EStateM.Result.ok () (syncInfo f.name (released w f.name)) else .ok () (released w f.name)) = _
  rw [hsync]
  by_cases hwrite : f.writeAccess = true ∧ (w.files f.name).fileExists = true
  · rw [if_pos ⟨rfl, hwrite⟩, if_pos hwrite]
  · rw [if_neg (fun h => hwrite h.2), if_neg hwrite]

theorem closeFile_last {w : World} {f : RAFile} (huse : (w.files f.name).useCount = 1)
    (hlisten : (w.files f.name).listenForSync = []) (hvalid : (w.files f.name).pages.Valid) :
    ∃ w', closeFile f w = .ok () w' ∧ SameView (w.files f.name).pages (w'.files f.name).pages ∧
      ∀ n ≠ f.name, w'.files n = w.files n := by
  have hfile : (released w f.name).files f.name = { w.files f.name with useCount := 0 } :=
    files_setFile_self _ _ _
  have hother : ∀ n ≠ f.name, (released w f.name).files n = w.files n :=
    fun n hn => files_setFile_of_ne _ _ _ hn
  refine ⟨_, closeFile_eq huse hlisten, ?_⟩
  split
  · constructor
    · show SameView _ (((released w f.name).setFile f.name _).files f.name).pages
      rw [files_setFile_self, hfile]
      exact (sync_spec hvalid).view
    · intro n hn
      show ((released w f.name).setFile f.name _).files n = _
      rw [files_setFile_of_ne _ _ _ hn, hother n hn]
  · refine ⟨?_, hother⟩
    rw [hfile]
    exact SameView.refl _

theorem deleteInfo_ok (info : FileInfo) : ∃ info', deleteInfo info = .ok () info' := ⟨_, rfl⟩

theorem removeElement_ok (w : World) (name : String) :
    ∃ w', removeElement name w = .ok () w' ∧ ∀ n ≠ name, w'.files n = w.files n := by
  have hremove : removeElement name w =
      (if (w.files name).fileExists then onFile name deleteInfo else pure () : WorldM Unit) w := rfl
  rw [hremove]
  split
  · obtain ⟨info, hdelete⟩ := deleteInfo_ok (w.files name)
    refine ⟨w.setFile name info, ?_, ?_⟩
    · rw [onFile, hdelete]
    · intro n hn
      rw [files_setFile_of_ne _ _ _ hn]
  · exact ⟨w, rfl, fun _ _ => rfl⟩

/-- The data file as rollback leaves it. -/
structure RolledBack (stored : String → Stored) (d : String) (size₀ : Nat) (rs : List Record)
    (w : World) : Prop where
  size : (w.files d).pages.size = size₀
  byte : ∀ i < size₀, (w.files d).pages.byte i = restored (storedByte (stored d)) rs i

theorem rollback_spec (h : Replayable stored j d size₀ rs) :
    ∃ w, rollback j d (restart stored) = .ok () w ∧ RolledBack stored d size₀ rs w := by
  obtain ⟨s, hfiles, hs⟩ := rollbackFiles_spec h
  obtain ⟨t, hdata, hvalid, hsize, hbyte⟩ := hs.data
  obtain ⟨tj, hjournal, hvalidj⟩ := hs.journal
  obtain ⟨w₁, hclose₁, hview, hother₁⟩ := closeFile_last (w := s.world) (f := ⟨d, true, 0⟩)
    (by rw [hdata]) (by rw [hdata]; rfl) (by rw [hdata]; exact hvalid)
  have hj₁ : w₁.files j = s.world.files j := hother₁ j h.ne
  obtain ⟨w₂, hclose₂, -, hother₂⟩ := closeFile_last (w := w₁) (f := ⟨j, false, 0⟩)
    (by rw [hj₁, hjournal]) (by rw [hj₁, hjournal]; rfl) (by rw [hj₁, hjournal]; exact hvalidj)
  obtain ⟨w₃, hremove, hother₃⟩ := removeElement_ok w₂ j
  have hd₃ : w₃.files d = w₁.files d := by
    rw [hother₃ d h.ne.symm, hother₂ d h.ne.symm]
  refine ⟨w₃, ?_, ?_, ?_⟩
  · have hend : endRollback j true s s.world = .ok () w₃ := by
      unfold endRollback
      rw [hs.df, hs.jf]
      show (closeFile ⟨d, true, 0⟩ >>= _) s.world = _
      rw [bind_ok hclose₁]
      show (closeFile ⟨j, false, 0⟩ >>= _) w₁ = _
      rw [bind_ok hclose₂]
      exact hremove
    have hexists : ((restart stored).files j).fileExists = true := by
      show (stored j).size.isSome = true
      rw [h.journal]
      rfl
    unfold rollback
    show (if ((restart stored).files j).fileExists = true then tryRollback j d else pure () :
      WorldM Unit) (restart stored) = _
    rw [if_pos hexists, tryRollback, hfiles]
    exact hend
  · rw [hd₃, hview.size, hdata]
    exact hsize
  · intro i hi
    rw [hd₃, hview.byte, hdata]
    exact hbyte i hi

/-- Without a journal there is nothing to do. -/
theorem rollback_none (hjournal : (stored j).size = none) :
    rollback j d (restart stored) = .ok () (restart stored) := by
  have hexists : ((restart stored).files j).fileExists = false := by
    show (stored j).size.isSome = false
    rw [hjournal]
    rfl
  unfold rollback
  show (if ((restart stored).files j).fileExists = true then tryRollback j d else pure () :
    WorldM Unit) (restart stored) = _
  rw [if_neg (by rw [hexists]; decide)]
  rfl

end Rollback

end Rhodes.JournalReplay
