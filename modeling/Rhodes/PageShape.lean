import Rhodes.FileOutcomes
import Rhodes.PagedFileSpecs

/-!
When the methods of the paged file throw. Only the size of the file and the number of its pages
decide it, for any content and whether the table is valid or not: a page number is cast to int,
and the page has to be there.
-/
namespace Rhodes.PagedFile

open Arrays Outcomes

/-- The size and the number of the pages. -/
structure Shape where
  size : Nat
  pages : Nat
deriving DecidableEq

def PageTable.shape (t : PageTable) : Shape := ⟨t.size, t.pages.length⟩

/-- The page exists. -/
def Shape.HasPage (s : Shape) (n : Int) : Prop := 0 ≤ n ∧ n < s.pages

instance (s : Shape) : DecidablePred s.HasPage := fun n =>
  inferInstanceAs (Decidable (0 ≤ n ∧ n < s.pages))

instance (pos len : Nat) : Decidable (ChunkSafe pos len) :=
  inferInstanceAs (Decidable (_ ∨ _ ∨ _))

/-- A resize needs a number of pages that is not negative as an int. -/
def Shape.resize (_s : Shape) (newSize : Nat) : Option Shape :=
  if 0 ≤ toInt (newSize / pageSize + 1 : Nat) then
    some ⟨newSize, (toInt (newSize / pageSize + 1 : Nat)).toNat⟩
  else none

/-- A write needs the pages of its first and its last position. -/
def Shape.fill (s : Shape) (pos len : Nat) : Option Shape :=
  if s.HasPage (getPageNumber pos) ∧ getPageNumber (pos + len) < s.pages ∧ ChunkSafe pos len then
    some s
  else none

/-- The file is made longer before it is written to. -/
def Shape.write (s : Shape) (pos len : Nat) : Option Shape :=
  if pos + len ≥ s.size then (s.resize (pos + len)).bind (fun s => s.fill pos len)
  else s.fill pos len

/-- The shape that a method leaves, where it does not throw. -/
def shapeAfter {α : Type} : EStateM.Result Exn PageTable α → Option Shape
  | .ok _ t => some t.shape
  | .error _ _ => none

section Results

variable {α : Type}

theorem shapeAfter_eq_some {r : EStateM.Result Exn PageTable α} {s : Shape}
    (h : shapeAfter r = some s) : ∃ a u, r = .ok a u ∧ u.shape = s := by
  cases r with
  | ok a u => exact ⟨a, u, rfl, Option.some.inj h⟩
  | error e u => cases h

theorem shapeAfter_eq_none {r : EStateM.Result Exn PageTable α} (h : shapeAfter r = none) :
    ∃ e u, r = .error e u := by
  cases r with
  | ok a u => cases h
  | error e u => exact ⟨e, u, rfl⟩

/-- What a method returns does not matter. -/
theorem shapeAfter_map {β : Type} (act : TableM α) (g : α → β) (t : PageTable) :
    shapeAfter ((act >>= fun a => pure (g a)) t) = shapeAfter (act t) := by
  cases h : act t with
  | ok a u =>
    rw [bind_ok h]
    rfl
  | error e u =>
    rw [bind_error h]
    rfl

end Results

section Pages

theorem shape_unloadBelow (t : PageTable) (i : Nat) (needToClear : Int) :
    (unloadBelow i needToClear t).shape = t.shape := by
  induction i generalizing t needToClear with
  | zero => rfl
  | succ i ih =>
    unfold unloadBelow
    split
    · split
      · rw [ih]
        exact congrArg (Shape.mk t.size) List.length_set
      · exact ih _ _
    · rfl

theorem shape_setContent (n : Nat) (c : PageBytes) (t : PageTable) :
    (setContent n c t).shape = t.shape := by
  unfold setContent
  split
  · exact congrArg (Shape.mk t.size) List.length_set
  · rfl

theorem shape_setPageDirty (n : Nat) (t : PageTable) : (setPageDirty n t).shape = t.shape := by
  unfold setPageDirty
  split
  · exact congrArg (Shape.mk t.size) List.length_set
  · rfl

theorem shape_loadPage (n : Nat) (t : PageTable) : (loadPage n t).shape = t.shape := by
  unfold loadPage
  dsimp only
  split
  · exact (shape_setContent _ _ _).trans (shape_unloadBelow _ _ _)
  · exact shape_setContent _ _ _

/-- getPage throws just where there is no such page. -/
theorem shapeAfter_getPage (n : Int) (t : PageTable) :
    shapeAfter (getPage n t) = if t.shape.HasPage n then some t.shape else none := by
  by_cases hneg : n < 0
  · rw [if_neg (fun h => absurd h.1 (by omega)), getPage, if_pos hneg]
    rfl
  · obtain ⟨m, rfl⟩ := Int.eq_ofNat_of_zero_le (Int.not_lt.mp hneg)
    rw [getPage, if_neg hneg, Int.toNat_natCast]
    by_cases hm : m < t.pages.length
    · have hpage : t.shape.HasPage m := ⟨Int.not_lt.mp hneg, Int.ofNat_lt.mpr hm⟩
      rw [if_pos hpage, List.getElem?_eq_getElem hm]
      obtain ⟨content, dirty⟩ := t.pages[m]
      cases content with
      | some c => rfl
      | none => exact congrArg some (shape_loadPage m t)
    · have hnone : ¬t.shape.HasPage m := fun h => hm (Int.ofNat_lt.mp h.2)
      rw [if_neg hnone, List.getElem?_eq_none (Nat.le_of_not_lt hm)]
      rfl

/-- A page is overwritten where it exists and the copy fits. -/
theorem shapeAfter_writePage (i : Int) (dstPos : Nat) (b : List UInt8) (off n : Nat)
    (t : PageTable) : shapeAfter (writePage i dstPos b off n t) =
      if t.shape.HasPage i ∧ off + n ≤ b.length ∧ dstPos + n ≤ pageSize then some t.shape
      else none := by
  have hget := shapeAfter_getPage i t
  unfold writePage
  by_cases hpage : t.shape.HasPage i
  · rw [if_pos hpage] at hget
    obtain ⟨c, u, hget, hshape⟩ := shapeAfter_eq_some hget
    rw [bind_ok hget]
    have hlength := c.property
    by_cases hfits : off + n ≤ b.length ∧ dstPos + n ≤ pageSize
    · rw [if_pos ⟨hpage, hfits⟩, PageBytes.copyFrom, dif_pos (by rwa [hlength]), ← hshape]
      exact congrArg some ((shape_setPageDirty _ _).trans (shape_setContent _ _ _))
    · rw [if_neg (fun h => hfits h.2), PageBytes.copyFrom, dif_neg (by rwa [hlength])]
      rfl
  · rw [if_neg hpage] at hget
    obtain ⟨e, u, hget⟩ := shapeAfter_eq_none hget
    rw [if_neg (fun h => hpage h.1), bind_error hget]
    rfl

end Pages

section Writes

/-- The pages behind the first one are written where the last of them exists. -/
theorem shapeAfter_writePages {endPage last : Nat} {b : List UInt8} {off : Nat}
    (hlast : last ≤ pageSize) {k i n : Nat} (hk : i + k = endPage + 1)
    (hb : off + n + rest last k ≤ b.length) (t : PageTable) :
    shapeAfter (writePages endPage last b off k i n t) =
      if k = 0 ∨ endPage < t.shape.pages then some t.shape else none := by
  induction k generalizing i n t with
  | zero => rfl
  | succ k ih =>
    obtain ⟨howmuch, hhow⟩ : ∃ howmuch, howmuch = if (i : Int) = endPage then last else pageSize :=
      ⟨_, rfl⟩
    have hle : howmuch ≤ pageSize := by
      rw [hhow]
      split
      · exact hlast
      · exact Nat.le_refl _
    have hsum : howmuch + rest last k = rest last (k + 1) := by
      cases k with
      | zero =>
        rw [hhow, if_pos (by omega)]
        simp [rest]
      | succ k =>
        rw [hhow, if_neg (by omega)]
        simp only [rest, Nat.succ_mul]
        omega
    have hpage := shapeAfter_writePage i 0 b (off + n) howmuch t
    rw [Nat.zero_add] at hpage
    unfold writePages
    rw [← hhow]
    by_cases hi : t.shape.HasPage i
    · rw [if_pos ⟨hi, by omega, hle⟩] at hpage
      obtain ⟨a, u, hwrite, hshape⟩ := shapeAfter_eq_some hpage
      have hcond : (k = 0 ∨ endPage < t.shape.pages) ↔ (k + 1 = 0 ∨ endPage < t.shape.pages) := by
        have hlt : (i : Int) < t.shape.pages := hi.2
        omega
      rw [bind_ok hwrite, ← if_congr hcond rfl rfl, ← hshape]
      exact ih (i := i + 1) (n := n + howmuch) (by omega) (by omega) u
    · rw [if_neg (fun h => hi h.1)] at hpage
      obtain ⟨e, u, hwrite⟩ := shapeAfter_eq_none hpage
      have hmissing : ¬(k + 1 = 0 ∨ endPage < t.shape.pages) := by
        rintro (hzero | hlt)
        · omega
        · have hi' : i < t.shape.pages := by omega
          exact hi ⟨Int.natCast_nonneg i, Int.ofNat_lt.mpr hi'⟩
      rw [if_neg hmissing, bind_error hwrite]
      rfl

theorem shapeAfter_resize (newSize : Nat) (t : PageTable) :
    shapeAfter (resize newSize t) = t.shape.resize newSize := by
  unfold resize Shape.resize
  rw [bind_get]
  generalize toInt (newSize / pageSize + 1 : Nat) = n
  by_cases hneg : 0 ≤ n
  · rw [if_pos hneg]
    by_cases hlt : n < t.pages.length
    · have hdelete : ∃ u, deletePages n (t.pages.length - 1) t = .ok () u ∧
          u.pages.length = n.toNat := by
        rw [deletePages, if_neg (by omega)]
        refine ⟨_, rfl, ?_⟩
        rw [List.length_append, List.length_take, List.length_drop]
        omega
      obtain ⟨u, hdelete, hlength⟩ := hdelete
      rw [if_pos hlt, bind_ok hdelete]
      show some (Shape.mk newSize (u.pages ++ List.replicate _ _).length) = _
      rw [List.length_append, List.length_replicate, hlength]
      congr 2
      omega
    · rw [if_neg hlt]
      show some (Shape.mk newSize (t.pages ++ List.replicate _ _).length) = _
      rw [List.length_append, List.length_replicate]
      congr 2
      omega
  · have hdelete : ∃ u, deletePages n (t.pages.length - 1) t = .error .negativeArraySize u := by
      rw [deletePages, if_pos (by omega)]
      exact ⟨_, rfl⟩
    obtain ⟨u, hdelete⟩ := hdelete
    rw [if_neg hneg, if_pos (by omega), bind_error hdelete]
    rfl

end Writes

section Chunks

/-- A page number that follows closely is the next one as an int, or has become negative. -/
theorem toInt_add {r d : Nat} (hd : d < 1048576) (h : 0 ≤ toInt r) :
    toInt (r + d : Nat) = toInt r + d ∨ toInt (r + d : Nat) < 0 := by
  unfold toInt at *
  rw [Int.bmod_def] at h ⊢
  rw [Int.bmod_def]
  split at h <;> split <;> omega

theorem toInt_add_ne {r d : Nat} (hd : d < 1048576) (hpos : 0 < d) :
    toInt r ≠ toInt (r + d : Nat) := by
  unfold toInt
  rw [Int.bmod_def, Int.bmod_def]
  split <;> split <;> omega

/-- Where the cast makes the position negative the chunk is a page too long. -/
theorem firstChunk_eq_of_ne {pos len : Nat} (h : getPageNumber pos ≠ getPageNumber (pos + len)) :
    firstChunk pos len = if pos % pageSize = 0 ∨ pos / 2147483648 % 2 = 0 then
      pageSize - pos % pageSize else pageSize + (pageSize - pos % pageSize) := by
  have hcast : (toInt pos).tmod 4096 =
      if pos % 4096 = 0 ∨ pos / 2147483648 % 2 = 0 then ((pos % 4096 : Nat) : Int)
      else (pos % 4096 : Nat) - 4096 := by
    rcases Nat.lt_or_ge (pos % 4294967296) 2147483648 with hlow | hhigh
    · have hint : toInt pos = (pos % 4294967296 : Nat) := by
        unfold toInt
        rw [Int.bmod_def, if_pos (by omega)]
        omega
      rw [hint, Int.tmod_eq_emod_of_nonneg (by omega), if_pos (by omega)]
      omega
    · have hint : toInt pos = -((4294967296 - pos % 4294967296 : Nat) : Int) := by
        unfold toInt
        rw [Int.bmod_def, if_neg (by omega)]
        omega
      rw [hint, Int.neg_tmod, Int.tmod_eq_emod_of_nonneg (by omega)]
      split <;> omega
  rw [firstChunk, if_neg h]
  unfold pageSize
  rw [show ((4096 : Nat) : Int) = 4096 from rfl, hcast]
  split <;> omega

/-- A write past the page of its position: the first chunk fits just where the position is not
negative as an int, or at the start of a page. -/
theorem chunk_fits_iff {pos len : Nat} (h : getPageNumber pos ≠ getPageNumber (pos + len))
    (hcross : pageSize ≤ pos % pageSize + len) :
    (firstChunk pos len ≤ len ∧ pos % pageSize + firstChunk pos len ≤ pageSize) ↔
      ChunkSafe pos len := by
  have hmod : pos % pageSize < pageSize := Nat.mod_lt _ (by decide)
  rw [firstChunk_eq_of_ne h, ChunkSafe]
  split <;> omega

/-- The page numbers of two close positions are the same as ints just where they are. -/
theorem getPageNumber_eq_iff {pos len : Nat} (hlen : len < 2147483648) :
    getPageNumber pos = getPageNumber (pos + len) ↔ pos / pageSize = (pos + len) / pageSize := by
  have hle : pos / pageSize ≤ (pos + len) / pageSize :=
    Nat.div_le_div_right (Nat.le_add_right pos len)
  obtain ⟨d, hd⟩ := Nat.exists_eq_add_of_le hle
  have hsmall : d < 1048576 := by
    unfold pageSize at hd
    omega
  constructor
  · intro h
    rw [getPageNumber, getPageNumber, hd] at h
    by_contra hne
    exact toInt_add_ne hsmall (by omega) h
  · intro h
    rw [getPageNumber, getPageNumber, h]

/-- The first chunk where the cast does no harm. -/
theorem firstChunk_of_safe {pos len : Nat} (hlen : len < 2147483648) (hsafe : ChunkSafe pos len) :
    firstChunk pos len =
      if pos / pageSize = (pos + len) / pageSize then len else pageSize - pos % pageSize := by
  by_cases hsame : pos / pageSize = (pos + len) / pageSize
  · rw [if_pos hsame, firstChunk, if_pos ((getPageNumber_eq_iff hlen).mpr hsame)]
  · have hcross : pageSize ≤ pos % pageSize + len := by
      unfold pageSize at hsame ⊢
      omega
    rw [if_neg hsame, firstChunk_eq_of_ne (fun h => hsame ((getPageNumber_eq_iff hlen).mp h)),
      if_pos ?_]
    unfold ChunkSafe at hsafe
    omega

/-- The pages of a write: the first one, and those behind it. -/
theorem shapeAfter_pages {pos : Nat} {b : List UInt8} (hlt : b.length < 2147483648)
    (t : PageTable) :
    shapeAfter ((do
        writePage (getPageNumber pos) (pos % pageSize) b 0 (firstChunk pos b.length)
        let n ← writePages (getPageNumber (pos + b.length)) ((pos + b.length) % pageSize) b 0
          (getPageNumber (pos + b.length) - getPageNumber pos).toNat (getPageNumber pos + 1)
          (firstChunk pos b.length)
        return pos + n : TableM Nat) t) = t.shape.fill pos b.length := by
  have hfirst := shapeAfter_writePage (getPageNumber pos) (pos % pageSize) b 0
    (firstChunk pos b.length) t
  rw [Nat.zero_add] at hfirst
  have hfits : (firstChunk pos b.length ≤ b.length ∧
      pos % pageSize + firstChunk pos b.length ≤ pageSize) ↔ ChunkSafe pos b.length := by
    by_cases hsame : pos / pageSize = (pos + b.length) / pageSize
    · have hpage : pos % pageSize + b.length < pageSize := by
        unfold pageSize at hsame ⊢
        omega
      rw [firstChunk, if_pos ((getPageNumber_eq_iff hlt).mpr hsame), ChunkSafe]
      omega
    · refine chunk_fits_iff (fun h => hsame ((getPageNumber_eq_iff hlt).mp h)) ?_
      unfold pageSize at hsame ⊢
      omega
  unfold Shape.fill
  by_cases hcond : t.shape.HasPage (getPageNumber pos) ∧ ChunkSafe pos b.length
  · rw [if_pos ⟨hcond.1, hfits.mpr hcond.2⟩] at hfirst
    obtain ⟨a, u, hwrite, hshape⟩ := shapeAfter_eq_some hfirst
    rw [bind_ok hwrite]
    have hle : pos / pageSize ≤ (pos + b.length) / pageSize :=
      Nat.div_le_div_right (Nat.le_add_right pos b.length)
    obtain ⟨d, hd⟩ := Nat.exists_eq_add_of_le hle
    have hsmall : d < 1048576 := by
      unfold pageSize at hd
      omega
    have hend : getPageNumber (pos + b.length) = toInt (pos / pageSize + d : Nat) := by
      rw [getPageNumber, hd]
    obtain ⟨start, hstart⟩ : ∃ start : Nat, getPageNumber pos = start :=
      Int.eq_ofNat_of_zero_le hcond.1.1
    have hint : toInt (pos / pageSize : Nat) = start := hstart
    have hstartPage : (start : Int) < t.shape.pages := hstart ▸ hcond.1.2
    rcases toInt_add (r := pos / pageSize) hsmall (by rw [hint]; exact Int.natCast_nonneg start)
      with hnext | hwrap
    · -- The page numbers follow each other, and the last page decides.
      have hlast : getPageNumber (pos + b.length) = (start + d : Nat) := by
        rw [hend, hnext, hint]
        omega
      have hcount : (((start + d : Nat) : Int) - (start : Int)).toNat = d := by omega
      have hsum : 0 + firstChunk pos b.length + rest ((pos + b.length) % pageSize) d ≤
          b.length := by
        have hchunks := (chunks (firstChunk_of_safe hlt hcond.2)).2.1
        rw [hd, Nat.add_sub_cancel_left] at hchunks
        omega
      have hpages : start + 1 + d = start + d + 1 := by omega
      have hrest := shapeAfter_writePages
        (Nat.le_of_lt (Nat.mod_lt _ (show 0 < pageSize by decide))) hpages hsum u
      rw [hlast, hstart, hcount, shapeAfter_map]
      refine hrest.trans ?_
      rw [hshape]
      refine if_congr ?_ rfl rfl
      have hiff : (d = 0 ∨ start + d < t.shape.pages) ↔
          ((start + d : Nat) : Int) < t.shape.pages := by omega
      rw [hiff, ← hstart]
      exact ⟨fun h => ⟨hcond.1, h, hcond.2⟩, fun h => h.2.1⟩
    · -- The last page number is negative, and the loop does nothing.
      rw [← hend] at hwrap
      have hcount : (getPageNumber (pos + b.length) - (start : Int)).toNat = 0 :=
        Int.toNat_of_nonpos (by omega)
      have hlow : getPageNumber (pos + b.length) < t.shape.pages := by omega
      rw [if_pos ⟨hcond.1, hlow, hcond.2⟩, hstart, hcount, ← hshape]
      rfl
  · rw [if_neg (fun h => hcond ⟨h.1, hfits.mp h.2⟩)] at hfirst
    obtain ⟨e, u, hwrite⟩ := shapeAfter_eq_none hfirst
    rw [if_neg (fun h => hcond ⟨h.1, h.2.2⟩), bind_error hwrite]
    rfl

/-- write(b) throws just where the shape does not take it. -/
theorem shapeAfter_writeBytes (pos : Nat) {b : List UInt8} (hlt : b.length < 2147483648)
    (t : PageTable) : shapeAfter (writeBytes pos b 0 b.length t) = t.shape.write pos b.length := by
  have hsize : t.shape.size = t.size := rfl
  unfold writeBytes Shape.write
  rw [bind_get, hsize]
  by_cases hgrow : pos + b.length ≥ t.size
  · have hresize := shapeAfter_resize (pos + b.length) t
    rw [if_pos hgrow, if_pos hgrow, ← hresize]
    cases hresult : resize (pos + b.length) t with
    | ok a u =>
      rw [bind_ok hresult, shapeAfter, Option.bind_some]
      exact shapeAfter_pages hlt u
    | error e u =>
      rw [bind_error hresult]
      rfl
  · rw [if_neg hgrow, if_neg hgrow]
    exact shapeAfter_pages hlt t

end Chunks

end Rhodes.PagedFile

namespace Rhodes.FileImpl

open Arrays PagedFile Outcomes

/-- A file keeps its length, or is resized. -/
def setSizeShape (s : Shape) (newSize : Nat) : Option Shape :=
  if s.size = newSize then some s else s.resize newSize

/-- A write of nothing is no write. -/
def writeShape (s : Shape) (pos len : Nat) : Option Shape :=
  if len = 0 then some s else s.write pos len

/-- A method that works on the pages ends so: it leaves a table of the shape in the FileInfo, or it
throws. -/
def EndsWith {α : Type} (act : InfoM α) (info : FileInfo) (s : Option Shape) : Prop :=
  (∃ a t, act info = .ok a { info with pages := t } ∧ s = some t.shape) ∨
    (∃ e t, act info = .error e { info with pages := t } ∧ s = none)

section Info

variable {info : FileInfo}

theorem endsWith_onPages {α : Type} (act : TableM α) (info : FileInfo) :
    EndsWith (onPages act) info (shapeAfter (act info.pages)) := by
  unfold EndsWith onPages
  cases act info.pages with
  | ok a t => exact .inl ⟨a, t, rfl, rfl⟩
  | error e t => exact .inr ⟨e, t, rfl, rfl⟩

theorem endsWith_setSize (huse : 0 < info.useCount) (newSize : Nat) :
    EndsWith (setSize newSize) info (setSizeShape info.pages.shape newSize) := by
  unfold setSizeShape
  by_cases hsame : info.pages.size = newSize
  · rw [if_pos (by exact hsame), ← hsame]
    exact .inl ⟨(), info.pages, setSize_same huse, rfl⟩
  · have hset : setSize newSize info = onPages (resize newSize) info := by
      unfold setSize
      rw [if_neg (by omega)]
      show (checkUseCount >>= _) info = _
      rw [checkUseCount_bind huse, bind_get, Int.toNat_natCast, if_neg hsame]
    rw [if_neg (by exact hsame), EndsWith, hset, ← shapeAfter_resize]
    exact endsWith_onPages _ info

theorem endsWith_writeMany (huse : 0 < info.useCount) (pos : Nat) {b : List UInt8}
    (hlt : b.length < 2147483648) :
    EndsWith (writeMany pos b 0 b.length) info (writeShape info.pages.shape pos b.length) := by
  have hbounds : checkBounds b 0 b.length info = .ok () info :=
    checkBounds_ok (by omega) (by omega) (by omega) (by omega)
  unfold writeShape
  by_cases hempty : b.length = 0
  · rw [if_pos hempty]
    refine .inl ⟨pos, info.pages, ?_, rfl⟩
    unfold writeMany
    rw [bind_ok hbounds, if_pos (by omega)]
    rfl
  · have hwrite : writeMany pos b 0 b.length info =
        onPages (writeBytes pos b 0 b.length) info := by
      unfold writeMany
      rw [bind_ok hbounds, if_neg (by omega), checkUseCount_bind huse]
      rfl
    rw [if_neg hempty, EndsWith, hwrite, ← shapeAfter_writeBytes pos hlt]
    exact endsWith_onPages _ info

end Info

end Rhodes.FileImpl
