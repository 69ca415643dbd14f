import Rhodes.JournalReplay
import Rhodes.PageShape

/-!
What rollback reads from a journal file, whatever the file holds. A byte above 127 reads as the end
of the file, and so does the end itself; the bytes of a record that start behind the reach of an
int and are in more than one page cannot be read.
-/
namespace Rhodes.JournalReads

open Arrays PagedFile FileImpl RandomAccess JournalFile JournalReplay Outcomes

section Bytes

/-- What read() finds at a position. -/
def byteAt (J : List UInt8) (pos : Nat) : Int :=
  match J[pos]? with
  | some b => signed b
  | none => -1

/-- Where it leaves the position. -/
def nextPos (J : List UInt8) (pos : Nat) : Nat := if pos < J.length then pos + 1 else pos

/-- Four bytes that are there and that Java does not see as negative. -/
def wordAt (J : List UInt8) (pos : Nat) : Option Nat :=
  match J[pos]?, J[pos + 1]?, J[pos + 2]?, J[pos + 3]? with
  | some b₁, some b₂, some b₃, some b₄ =>
    if b₁ < 128 ∧ b₂ < 128 ∧ b₃ < 128 ∧ b₄ < 128 then
      some (b₁.toNat * 16777216 + b₂.toNat * 65536 + b₃.toNat * 256 + b₄.toNat)
    else none
  | _, _, _, _ => none

def longAt (J : List UInt8) (pos : Nat) : Option Nat :=
  match wordAt J pos, wordAt J (pos + 4) with
  | some high, some low => some (high * 4294967296 + low)
  | _, _ => none

/-- What stands in the journal at a position. -/
inductive Found where
  | ended
  /-- The position of the bytes is not an int, and they are in more than one page. -/
  | thrown
  | record (r : Record) (next : Nat)

def recordAt (J : List UInt8) (pos : Nat) : Found :=
  match longAt J pos, longAt J (pos + 8) with
  | some nPos, some nLen =>
    let count := min (nLen % 4294967296) (J.length - (pos + 16))
    if count ≠ 0 ∧ ¬ChunkSafe (pos + 16) count then .thrown
    else if count = nLen ∧ J[pos + 16 + count]? = some blockConfirm then
      .record ⟨nPos, (J.drop (pos + 16)).take count⟩ (pos + 16 + count + 1)
    else .ended
  | _, _ => .ended

/-- The confirmed records from a position on, unless reading them throws. -/
def recordsFrom : Nat → List UInt8 → Nat → Option (List Record)
  | 0, _, _ => none
  | fuel + 1, J, pos =>
    match recordAt J pos with
    | .ended => some []
    | .thrown => none
    | .record r next => (recordsFrom fuel J next).map (fun rs => r :: rs)

def recordsOf (J : List UInt8) : Option (List Record) := recordsFrom (J.length + 1) J 9

/-- A file takes the records one after the other. -/
def takeAll (s : Shape) (rs : List Record) : Option Shape :=
  rs.foldlM (fun s r => writeShape s r.pos r.bytes.length) s

end Bytes

section Reads

variable {w : World} {f : RAFile} {J : List UInt8}

theorem reread_self (hcontent : Content (w.files f.name).pages J) : Reread f.name J w w :=
  ⟨_, (setPages_self w f.name).symm, hcontent⟩

theorem readByte_any (huse : 0 < (w.files f.name).useCount)
    (hcontent : Content (w.files f.name).pages J) :
    ∃ w', readByte f w = .ok (byteAt J f.pos, { f with pos := nextPos J f.pos }) w' ∧
      Reread f.name J w w' := by
  unfold byteAt nextPos
  by_cases hpos : f.pos < J.length
  · rw [if_pos hpos, List.getElem?_eq_getElem hpos]
    exact readByte_spec huse hcontent (List.getElem?_eq_getElem hpos)
  · rw [if_neg hpos, List.getElem?_eq_none (Nat.le_of_not_lt hpos)]
    exact ⟨w, readByte_end huse hcontent (Nat.le_of_not_lt hpos), reread_self hcontent⟩

theorem byteAt_nonneg {pos : Nat} (h : ¬byteAt J pos < 0) :
    ∃ b, J[pos]? = some b ∧ b < 128 ∧ byteAt J pos = b.toNat ∧ nextPos J pos = pos + 1 := by
  unfold byteAt nextPos at *
  cases hb : J[pos]? with
  | none =>
    rw [hb] at h
    exact absurd (by decide) h
  | some b =>
    rw [hb] at h
    have hlow : b.toNat < 128 := by
      by_contra hge
      have hlt := UInt8.toNat_lt b
      refine h ?_
      show signed b < 0
      rw [signed, if_neg hge]
      omega
    refine ⟨b, rfl, UInt8.lt_iff_toNat_lt.mpr hlow, if_pos hlow, ?_⟩
    rw [if_pos (List.getElem?_eq_some_iff.mp hb).1]

theorem byteAt_low {pos : Nat} {b : UInt8} (hb : J[pos]? = some b) (hlow : b < 128) :
    byteAt J pos = b.toNat ∧ nextPos J pos = pos + 1 := by
  unfold byteAt nextPos
  rw [hb, if_pos (List.getElem?_eq_some_iff.mp hb).1]
  exact ⟨if_pos (UInt8.lt_iff_toNat_lt.mp hlow), rfl⟩

/-- The four bytes of a word. -/
structure Word (J : List UInt8) (pos v : Nat) (b₁ b₂ b₃ b₄ : UInt8) : Prop where
  bytes : J[pos]? = some b₁ ∧ J[pos + 1]? = some b₂ ∧ J[pos + 2]? = some b₃ ∧
    J[pos + 3]? = some b₄
  low : b₁ < 128 ∧ b₂ < 128 ∧ b₃ < 128 ∧ b₄ < 128
  value : v = b₁.toNat * 16777216 + b₂.toNat * 65536 + b₃.toNat * 256 + b₄.toNat

theorem Word.wordAt {pos v : Nat} {b₁ b₂ b₃ b₄ : UInt8} (h : Word J pos v b₁ b₂ b₃ b₄) :
    wordAt J pos = some v := by
  unfold JournalReads.wordAt
  rw [h.bytes.1, h.bytes.2.1, h.bytes.2.2.1, h.bytes.2.2.2]
  show (if _ then _ else _) = _
  rw [if_pos h.low, h.value]

theorem word_of_wordAt {pos v : Nat} (h : wordAt J pos = some v) :
    ∃ b₁ b₂ b₃ b₄, Word J pos v b₁ b₂ b₃ b₄ := by
  unfold JournalReads.wordAt at h
  split at h
  · rename_i b₁ b₂ b₃ b₄ h₁ h₂ h₃ h₄
    split at h
    · rename_i hlow
      exact ⟨b₁, b₂, b₃, b₄, ⟨h₁, h₂, h₃, h₄⟩, hlow, (Option.some.inj h).symm⟩
    · cases h
  · cases h

/-- Four reads, whatever the file holds. -/
theorem readInt_any (huse : 0 < (w.files f.name).useCount)
    (hcontent : Content (w.files f.name).pages J) :
    ∃ w', Reread f.name J w w' ∧ readInt f w = match wordAt J f.pos with
      | some v => .ok ((v : Int), { f with pos := f.pos + 4 }) w'
      | none => .error .eof w' := by
  obtain ⟨p₁, hp₁⟩ : ∃ p, p = nextPos J f.pos := ⟨_, rfl⟩
  obtain ⟨p₂, hp₂⟩ : ∃ p, p = nextPos J p₁ := ⟨_, rfl⟩
  obtain ⟨p₃, hp₃⟩ : ∃ p, p = nextPos J p₂ := ⟨_, rfl⟩
  obtain ⟨w₁, hr₁, hw₁⟩ := readByte_any huse hcontent
  obtain ⟨w₂, hr₂, hw₂⟩ := readByte_any (f := { f with pos := p₁ })
    (by rw [hw₁.useCount]; exact huse) hw₁.content
  obtain ⟨w₃, hr₃, hw₃⟩ := readByte_any (f := { f with pos := p₂ })
    (by rw [hw₂.useCount, hw₁.useCount]; exact huse) hw₂.content
  obtain ⟨w₄, hr₄, hw₄⟩ := readByte_any (f := { f with pos := p₃ })
    (by rw [hw₃.useCount, hw₂.useCount, hw₁.useCount]; exact huse) hw₃.content
  refine ⟨w₄, ((hw₁.trans hw₂).trans hw₃).trans hw₄, ?_⟩
  rw [← hp₁] at hr₁
  rw [← hp₂] at hr₂
  rw [← hp₃] at hr₃
  unfold readInt
  rw [bind_ok hr₁]
  show (readByte { f with pos := p₁ } >>= _) w₁ = _
  rw [bind_ok hr₂]
  show (readByte { f with pos := p₂ } >>= _) w₂ = _
  rw [bind_ok hr₃]
  show (readByte { f with pos := p₃ } >>= _) w₃ = _
  rw [bind_ok hr₄]
  show (if byteAt J f.pos < 0 ∨ byteAt J p₁ < 0 ∨ byteAt J p₂ < 0 ∨ byteAt J p₃ < 0 then _ else _ :
    WorldM (Int × RAFile)) w₄ = _
  by_cases hneg : byteAt J f.pos < 0 ∨ byteAt J p₁ < 0 ∨ byteAt J p₂ < 0 ∨ byteAt J p₃ < 0
  · have hnone : wordAt J f.pos = none := by
      by_contra hsome
      obtain ⟨v, hv⟩ := Option.ne_none_iff_exists'.mp hsome
      obtain ⟨b₁, b₂, b₃, b₄, hword⟩ := word_of_wordAt hv
      obtain ⟨h₁, h₂, h₃, h₄⟩ := hword.bytes
      obtain ⟨l₁, l₂, l₃, l₄⟩ := hword.low
      rw [(byteAt_low h₁ l₁).2] at hp₁
      subst hp₁
      rw [(byteAt_low h₂ l₂).2] at hp₂
      subst hp₂
      rw [(byteAt_low h₃ l₃).2] at hp₃
      subst hp₃
      rw [(byteAt_low h₁ l₁).1, (byteAt_low h₂ l₂).1, (byteAt_low h₃ l₃).1,
        (byteAt_low h₄ l₄).1] at hneg
      omega
    rw [if_pos hneg, hnone]
    rfl
  · rw [if_neg hneg]
    simp only [not_or] at hneg
    obtain ⟨b₁, hb₁, hlow₁, hbyte₁, hnext₁⟩ := byteAt_nonneg hneg.1
    obtain ⟨b₂, hb₂, hlow₂, hbyte₂, hnext₂⟩ := byteAt_nonneg hneg.2.1
    obtain ⟨b₃, hb₃, hlow₃, hbyte₃, hnext₃⟩ := byteAt_nonneg hneg.2.2.1
    obtain ⟨b₄, hb₄, hlow₄, hbyte₄, hnext₄⟩ := byteAt_nonneg hneg.2.2.2
    rw [hbyte₁, hbyte₂, hbyte₃, hbyte₄, hnext₄]
    rw [hnext₁] at hp₁
    subst hp₁
    rw [hnext₂] at hp₂
    subst hp₂
    rw [hnext₃] at hp₃
    subst hp₃
    have hword : Word J f.pos (b₁.toNat * 16777216 + b₂.toNat * 65536 + b₃.toNat * 256 + b₄.toNat)
        b₁ b₂ b₃ b₄ := ⟨⟨hb₁, hb₂, hb₃, hb₄⟩, ⟨hlow₁, hlow₂, hlow₃, hlow₄⟩, rfl⟩
    rw [hword.wordAt]
    have hsum : toInt ((b₁.toNat : Int) * 16777216 + (b₂.toNat : Int) * 65536 +
        (b₃.toNat : Int) * 256 + (b₄.toNat : Int)) =
        ((b₁.toNat * 16777216 + b₂.toNat * 65536 + b₃.toNat * 256 + b₄.toNat : Nat) : Int) := by
      have h₁ := UInt8.lt_iff_toNat_lt.mp hlow₁
      have h₂ := UInt8.lt_iff_toNat_lt.mp hlow₂
      have h₃ := UInt8.lt_iff_toNat_lt.mp hlow₃
      have h₄ := UInt8.lt_iff_toNat_lt.mp hlow₄
      change b₁.toNat < 128 at h₁
      change b₂.toNat < 128 at h₂
      change b₃.toNat < 128 at h₃
      change b₄.toNat < 128 at h₄
      rw [toInt_eq (by omega) (by omega)]
      omega
    rw [hsum]
    rfl

/-- Eight reads. -/
theorem readLong_any (huse : 0 < (w.files f.name).useCount)
    (hcontent : Content (w.files f.name).pages J) :
    ∃ w', Reread f.name J w w' ∧ readLong f w = match longAt J f.pos with
      | some v => .ok ((v : Int), { f with pos := f.pos + 8 }) w'
      | none => .error .eof w' := by
  obtain ⟨w₁, hw₁, hr₁⟩ := readInt_any huse hcontent
  unfold readLong longAt
  cases hhigh : wordAt J f.pos with
  | none =>
    rw [hhigh] at hr₁
    refine ⟨w₁, hw₁, ?_⟩
    rw [bind_error hr₁]
  | some high =>
    rw [hhigh] at hr₁
    obtain ⟨w₂, hw₂, hr₂⟩ := readInt_any (f := { f with pos := f.pos + 4 })
      (by rw [hw₁.useCount]; exact huse) hw₁.content
    refine ⟨w₂, hw₁.trans hw₂, ?_⟩
    rw [bind_ok hr₁]
    show (readInt { f with pos := f.pos + 4 } >>= _) w₁ = _
    cases hlow : wordAt J (f.pos + 4) with
    | none =>
      rw [hlow] at hr₂
      rw [bind_error hr₂]
    | some low =>
      rw [hlow] at hr₂
      rw [bind_ok hr₂]
      have hlt : low < 4294967296 := by
        obtain ⟨b₁, b₂, b₃, b₄, hword⟩ := word_of_wordAt hlow
        have h₁ := UInt8.toNat_lt b₁
        have h₂ := UInt8.toNat_lt b₂
        have h₃ := UInt8.toNat_lt b₃
        have h₄ := UInt8.toNat_lt b₄
        rw [hword.value]
        omega
      have hvalue : (high : Int) * 4294967296 + (low : Int) % 4294967296 =
          ((high * 4294967296 + low : Nat) : Int) := by omega
      exact congrArg (fun v => EStateM.Result.ok (v, { f with pos := f.pos + 8 }) w₂) hvalue

/-- read(b) that starts behind the end, or reads nothing. -/
theorem readArray_empty (huse : 0 < (w.files f.name).useCount)
    (hcontent : Content (w.files f.name).pages J) {len : Nat} (hint : len < 2147483648)
    (hnone : min len (J.length - f.pos) = 0) :
    readArray f (List.replicate len 0) w =
      .ok (if len = 0 then 0 else -1, List.replicate len 0, f) w := by
  have hlength : (List.replicate len (0 : UInt8)).length = len := List.length_replicate
  have hbounds : checkBounds (List.replicate len 0) 0 len (w.files f.name) =
      .ok () (w.files f.name) :=
    checkBounds_ok (by omega) (by omega) (by omega) (by omega)
  unfold readArray
  rw [hlength]
  by_cases hlen : len = 0
  · have hread : readMany f.pos (List.replicate len 0) 0 len (w.files f.name) =
        .ok ⟨0, List.replicate len 0, f.pos⟩ (w.files f.name) := by
      unfold readMany
      rw [bind_ok hbounds, if_pos (by omega)]
      rfl
    rw [bind_ok (onFile_ok (t := (w.files f.name).pages) hread), setPages_self, if_pos hlen]
    rfl
  · have hpos : (w.files f.name).pages.size ≤ f.pos := by
      rw [hcontent.size]
      omega
    rw [bind_ok (onFile_ok (readMany_ok huse hbounds (by omega) (readBytes_end hpos _ _ _))),
      setPages_self, if_neg hlen]
    rfl

/-- read(b) inside the file. -/
theorem readArray_safe (huse : 0 < (w.files f.name).useCount)
    (hcontent : Content (w.files f.name).pages J) {len count : Nat} (hint : len < 2147483648)
    (hcount : count = min len (J.length - f.pos)) (hpos : count ≠ 0)
    (hsafe : ChunkSafe f.pos count) :
    ∃ b w', readArray f (List.replicate len 0) w =
        .ok ((count : Int), b, { f with pos := f.pos + count }) w' ∧ Reread f.name J w w' ∧
      (count = len → b = (J.drop f.pos).take count) := by
  have hlength : (List.replicate len (0 : UInt8)).length = len := List.length_replicate
  have hbounds : checkBounds (List.replicate len 0) 0 len (w.files f.name) =
      .ok () (w.files f.name) :=
    checkBounds_ok (by omega) (by omega) (by omega) (by omega)
  obtain ⟨t, hread, hunseen⟩ := readBytes_spec hcontent.valid
    (show f.pos < (w.files f.name).pages.size by rw [hcontent.size]; omega)
    (List.replicate len 0) 0 len (by omega)
    (show count = min len ((w.files f.name).pages.size - f.pos) by rw [hcontent.size, hcount])
    hsafe (.inl rfl)
  refine ⟨splice (List.replicate len 0) 0 (segment (w.files f.name).pages.byte f.pos count),
    w.setPages f.name t, ?_, ⟨t, rfl, hcontent.unseen hunseen⟩, ?_⟩
  · unfold readArray
    rw [hlength, bind_ok (onFile_ok (readMany_ok huse hbounds (by omega) hread))]
    rfl
  · intro heq
    have hbytes : segment (w.files f.name).pages.byte f.pos count = (J.drop f.pos).take count := by
      have htake : ((J.drop f.pos).take count).length = count := by
        rw [List.length_take, List.length_drop]
        omega
      have hsegment := Content.segment hcontent (show (J.drop f.pos).take
        ((J.drop f.pos).take count).length = (J.drop f.pos).take count by rw [htake])
      rwa [htake] at hsegment
    have hrest : (List.replicate len (0 : UInt8)).drop
        (0 + ((J.drop f.pos).take count).length) = [] := by
      apply List.drop_eq_nil_of_le
      rw [List.length_replicate, List.length_take, List.length_drop]
      omega
    rw [splice, hbytes, hrest, List.append_nil, List.take_zero, List.nil_append]

/-- read(b) whose first chunk is a page too long. -/
theorem readArray_unsafe (huse : 0 < (w.files f.name).useCount)
    (hcontent : Content (w.files f.name).pages J) {len count : Nat} (hint : len < 2147483648)
    (hcount : count = min len (J.length - f.pos)) (hpos : count ≠ 0)
    (hrefused : ¬ChunkSafe f.pos count) :
    ∃ w', readArray f (List.replicate len 0) w = .error .indexOutOfBounds w' ∧
      Reread f.name J w w' := by
  have hlength : (List.replicate len (0 : UInt8)).length = len := List.length_replicate
  have hbounds : checkBounds (List.replicate len 0) 0 len (w.files f.name) =
      .ok () (w.files f.name) :=
    checkBounds_ok (by omega) (by omega) (by omega) (by omega)
  have hlt : f.pos < (w.files f.name).pages.size := by
    rw [hcontent.size]
    omega
  obtain ⟨t, hget, hunseen, -⟩ := getPage_spec hcontent.valid (hcontent.valid.page_lt hlt)
  have hread : readBytes f.pos (List.replicate len 0) 0 len (w.files f.name).pages =
      .error .indexOutOfBounds t := by
    have hlen : (if f.pos + len > (w.files f.name).pages.size then
        (w.files f.name).pages.size - f.pos else len) = count := by
      rw [hcontent.size]
      split <;> omega
    have hcross : f.pos / pageSize ≠ (f.pos + count) / pageSize := by
      intro hsame
      refine hrefused (.inl ?_)
      unfold pageSize at hsame ⊢
      omega
    have hcount' : count < 2147483648 := by omega
    have hchunk := firstChunk_eq_of_ne
      (fun h => hcross ((getPageNumber_eq_iff hcount').mp h))
    have hlong : ¬(f.pos % pageSize + firstChunk f.pos count ≤ pageSize) := by
      unfold ChunkSafe at hrefused
      rw [hchunk, if_neg (fun h => hrefused (.inr h))]
      have hmod : f.pos % pageSize < pageSize := Nat.mod_lt _ (by decide)
      omega
    have hnone : arraycopy ((w.files f.name).pages.bytes (f.pos / pageSize)).val
        (f.pos % pageSize) (List.replicate len 0) 0 (firstChunk f.pos count) = none := by
      rw [arraycopy, if_neg]
      rw [((w.files f.name).pages.bytes _).property]
      exact fun h => hlong h.1
    have hsmall := hcontent.valid.small
    unfold readBytes
    rw [bind_get, if_neg (by omega), hlen, getPageNumber_eq (by omega), bind_ok hget, hnone]
    rfl
  have hmany : readMany f.pos (List.replicate len 0) 0 len (w.files f.name) =
      .error .indexOutOfBounds { w.files f.name with pages := t } := by
    unfold readMany
    rw [bind_ok hbounds, if_neg (by omega), checkUseCount_bind huse]
    show onPages _ _ = _
    rw [onPages, Int.toNat_natCast, Int.toNat_zero, hread]
  have hfile : onFile f.name (readMany f.pos (List.replicate len 0) 0 len) w =
      .error .indexOutOfBounds (w.setPages f.name t) := by
    rw [onFile, hmany]
    rfl
  refine ⟨w.setPages f.name t, ?_, t, rfl, hcontent.unseen hunseen⟩
  unfold readArray
  rw [hlength, bind_error hfile]

theorem byteAt_eq_iff (J : List UInt8) (pos : Nat) :
    byteAt J pos = blockConfirm.toNat ↔ J[pos]? = some blockConfirm := by
  unfold byteAt
  cases J[pos]? with
  | none => exact iff_of_false (by decide) (by simp)
  | some b =>
    rw [Option.some.injEq]
    constructor
    · intro h
      have hconfirm : (blockConfirm.toNat : Int) = 85 := rfl
      have hlt := UInt8.toNat_lt b
      dsimp only at h
      rw [signed, hconfirm] at h
      apply UInt8.toNat_inj.mp
      show b.toNat = 85
      split at h <;> omega
    · rintro rfl
      exact signed_blockConfirm

/-- The low half of a long that could be read. -/
theorem longAt_mod {pos v : Nat} (h : longAt J pos = some v) : v % 4294967296 < 2147483648 := by
  unfold longAt at h
  split at h
  · rename_i high low hhigh hlow
    obtain ⟨b₁, b₂, b₃, b₄, hword⟩ := word_of_wordAt hlow
    have h₁ : b₁.toNat < 128 := UInt8.lt_iff_toNat_lt.mp hword.low.1
    have h₂ := UInt8.toNat_lt b₂
    have h₃ := UInt8.toNat_lt b₃
    have h₄ := UInt8.toNat_lt b₄
    have hvalue := hword.value
    have hv := Option.some.inj h
    omega
  · cases h

theorem toInt_long {v : Nat} (h : v % 4294967296 < 2147483648) :
    toInt v = (v % 4294967296 : Nat) := by
  unfold toInt
  rw [Int.bmod_def, if_pos (by omega)]
  omega

/-- What the loop gets for it. -/
def Found.outcome (f : RAFile) : Found → World →
    EStateM.Result Exn World (Option (Nat × List UInt8 × RAFile))
  | .ended, w => .ok none w
  | .thrown, w => .error .indexOutOfBounds w
  | .record r next, w => .ok (some (r.pos, r.bytes, { f with pos := next })) w

theorem recordAt_of_longs {pos nPos nLen count : Nat} (hpos : longAt J pos = some nPos)
    (hlen : longAt J (pos + 8) = some nLen)
    (hcount : count = min (nLen % 4294967296) (J.length - (pos + 16))) : recordAt J pos =
      if count ≠ 0 ∧ ¬ChunkSafe (pos + 16) count then .thrown
      else if count = nLen ∧ J[pos + 16 + count]? = some blockConfirm then
        .record ⟨nPos, (J.drop (pos + 16)).take count⟩ (pos + 16 + count + 1)
      else .ended := by
  unfold recordAt
  rw [hpos, hlen, hcount]

/-- The last byte of a record, and what is made of it. -/
theorem readConfirm_any (huse : 0 < (w.files f.name).useCount)
    (hcontent : Content (w.files f.name).pages J) (nPos nLen : Nat) (nReaded : Int)
    (buf : List UInt8) :
    ∃ w', Reread f.name J w w' ∧ (readByte f >>= fun y =>
      (if y.1 ≠ blockConfirm.toNat ∨ nReaded ≠ (nLen : Int) then return none
        else return some (nPos, buf, y.2) : WorldM (Option (Nat × List UInt8 × RAFile)))) w =
      .ok (if nReaded = nLen ∧ J[f.pos]? = some blockConfirm then
        some (nPos, buf, { f with pos := f.pos + 1 }) else none) w' := by
  obtain ⟨w', hread, hw'⟩ := readByte_any huse hcontent
  refine ⟨w', hw', ?_⟩
  rw [bind_ok hread]
  show (if byteAt J f.pos ≠ blockConfirm.toNat ∨ nReaded ≠ (nLen : Int) then _ else _ :
    WorldM (Option (Nat × List UInt8 × RAFile))) w' = _
  by_cases hconfirmed : nReaded = nLen ∧ J[f.pos]? = some blockConfirm
  · have hnext : nextPos J f.pos = f.pos + 1 :=
      (byteAt_low hconfirmed.2 (by decide)).2
    rw [if_pos hconfirmed, if_neg, hnext]
    · rfl
    · have hbyte := (byteAt_eq_iff J f.pos).mpr hconfirmed.2
      rintro (hne | hne)
      · exact hne hbyte
      · exact hne hconfirmed.1
  · rw [if_neg hconfirmed, if_pos]
    · rfl
    · have hbyte := byteAt_eq_iff J f.pos
      tauto

/-- The step of the loop, whatever stands in the journal. -/
theorem readRecord_any (huse : 0 < (w.files f.name).useCount)
    (hcontent : Content (w.files f.name).pages J) :
    ∃ w', Reread f.name J w w' ∧
      untilEof (readRecord f) w = (recordAt J f.pos).outcome f w' := by
  obtain ⟨w₁, hw₁, hr₁⟩ := readLong_any huse hcontent
  cases hpos : longAt J f.pos with
  | none =>
    rw [hpos] at hr₁
    have hread : readRecord f w = .error .eof w₁ := bind_error hr₁ _
    refine ⟨w₁, hw₁, ?_⟩
    rw [untilEof, hread, recordAt, hpos]
    rfl
  | some nPos =>
    rw [hpos] at hr₁
    obtain ⟨w₂, hw₂, hr₂⟩ := readLong_any (f := { f with pos := f.pos + 8 })
      (by rw [hw₁.useCount]; exact huse) hw₁.content
    cases hlen : longAt J (f.pos + 8) with
    | none =>
      rw [hlen] at hr₂
      have hread : readRecord f w = .error .eof w₂ := by
        unfold readRecord
        rw [bind_ok hr₁]
        exact bind_error hr₂ _
      refine ⟨w₂, hw₁.trans hw₂, ?_⟩
      rw [untilEof, hread, recordAt, hpos, hlen]
      rfl
    | some nLen =>
      rw [hlen] at hr₂
      have hlow := longAt_mod hlen
      obtain ⟨len, hlenEq⟩ : ∃ len, len = nLen % 4294967296 := ⟨_, rfl⟩
      obtain ⟨count, hcount⟩ : ∃ count, count = min len (J.length - (f.pos + 16)) := ⟨_, rfl⟩
      have huse₂ : 0 < (w₂.files f.name).useCount := by
        rw [hw₂.useCount, hw₁.useCount]
        exact huse
      have hw := hw₁.trans hw₂
      -- What is read after the two longs.
      have htail : readRecord f w = (readArray { f with pos := f.pos + 16 }
          (List.replicate len 0) >>= fun x => readByte x.2.2 >>= fun y =>
            (if y.1 ≠ blockConfirm.toNat ∨ x.1 ≠ (nLen : Int) then return none
              else return some (nPos, x.2.1, y.2) :
                WorldM (Option (Nat × List UInt8 × RAFile)))) w₂ := by
        unfold readRecord
        rw [bind_ok hr₁]
        show (readLong { f with pos := f.pos + 8 } >>= _) w₁ = _
        rw [bind_ok hr₂]
        show (if toInt (nLen : Int) < 0 then _ else _ :
          WorldM (Option (Nat × List UInt8 × RAFile))) w₂ = _
        rw [toInt_long hlow, if_neg (by omega), Int.toNat_natCast, ← hlenEq]
        rfl
      rw [recordAt_of_longs hpos hlen (hlenEq ▸ hcount)]
      rw [← hlenEq] at hlow
      by_cases hzero : count = 0
      · have hempty := readArray_empty (f := { f with pos := f.pos + 16 }) huse₂ hw₂.content hlow
          (hcount ▸ hzero)
        obtain ⟨w₃, hw₃, hr₃⟩ := readConfirm_any (f := { f with pos := f.pos + 16 }) huse₂
          hw₂.content nPos nLen (if len = 0 then 0 else -1) (List.replicate len 0)
        refine ⟨w₃, hw.trans hw₃, ?_⟩
        have hread : ((if len = 0 then 0 else -1 : Int) = nLen ∧
            J[f.pos + 16]? = some blockConfirm) ↔
            (0 = nLen ∧ J[f.pos + 16 + 0]? = some blockConfirm) := by
          refine and_congr ?_ Iff.rfl
          split <;> omega
        rw [if_neg (fun h => h.1 hzero), hzero, untilEof, htail, bind_ok hempty, hr₃]
        by_cases hconfirmed : 0 = nLen ∧ J[f.pos + 16 + 0]? = some blockConfirm
        · have hnil : len = 0 := by
            rw [hlenEq, ← hconfirmed.1]
          rw [if_pos hconfirmed, if_pos (hread.mpr hconfirmed), hnil]
          rfl
        · rw [if_neg hconfirmed, if_neg (fun h => hconfirmed (hread.mp h))]
          rfl
      · by_cases hsafe : ChunkSafe (f.pos + 16) count
        · obtain ⟨b, w₃, hr₃, hw₃, hbytes⟩ := readArray_safe (f := { f with pos := f.pos + 16 })
            huse₂ hw₂.content hlow hcount hzero hsafe
          obtain ⟨w₄, hw₄, hr₄⟩ := readConfirm_any (f := { f with pos := f.pos + 16 + count })
            (by rw [hw₃.useCount]; exact huse₂) hw₃.content nPos nLen count b
          refine ⟨w₄, (hw.trans hw₃).trans hw₄, ?_⟩
          have hread : ((count : Int) = nLen ∧ J[f.pos + 16 + count]? = some blockConfirm) ↔
              (count = nLen ∧ J[f.pos + 16 + count]? = some blockConfirm) :=
            and_congr Int.ofNat_inj Iff.rfl
          rw [if_neg (fun h => h.2 hsafe), untilEof, htail, bind_ok hr₃, hr₄]
          by_cases hconfirmed : count = nLen ∧ J[f.pos + 16 + count]? = some blockConfirm
          · rw [if_pos hconfirmed, if_pos (hread.mpr hconfirmed), hbytes (by omega)]
            rfl
          · rw [if_neg hconfirmed, if_neg (fun h => hconfirmed (hread.mp h))]
            rfl
        · obtain ⟨w₃, hr₃, hw₃⟩ := readArray_unsafe (f := { f with pos := f.pos + 16 }) huse₂
            hw₂.content hlow hcount hzero hsafe
          refine ⟨w₃, hw.trans hw₃, ?_⟩
          rw [if_pos ⟨hzero, hsafe⟩, untilEof, htail, bind_error hr₃]
          rfl

end Reads

end Rhodes.JournalReads
