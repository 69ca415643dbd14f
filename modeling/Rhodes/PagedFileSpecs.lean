import Mathlib
import Rhodes.PagedFile

/-!
What each method of the paged file does to the bytes of the file. A step of the cache is not
seen by a reader; a write lays its bytes over the file; sync brings the records up to the
file. The counts that the cache keeps are not exact, but a page that is dirty is always
loaded and always counted.
-/
namespace Rhodes.PagedFile

open Arrays

/-- The content of a page that is loaded. -/
def PageTable.content (t : PageTable) (n : Nat) : Option PageBytes := t.pages[n]?.bind Page.content

/-- What a reader finds in a page. -/
def PageTable.bytes (t : PageTable) (n : Nat) : PageBytes :=
  (t.content n).getD (t.stored.bytes n)

def PageTable.byte (t : PageTable) (i : Nat) : UInt8 :=
  (t.bytes (i / pageSize)).val.getD (i % pageSize) 0

/-- The number of the last page plus one has to be an int. -/
def maxSize : Nat := pageSize * 2147483647

structure PageTable.Valid (t : PageTable) : Prop where
  /-- A file that was deleted has no pages. -/
  length : t.pages = [] ∧ t.size = 0 ∨ t.pages.length = t.size / pageSize + 1
  small : t.size < maxSize
  clean : ∀ (n : Nat) (c : PageBytes), t.pages[n]? = some ⟨some c, false⟩ → t.stored.bytes n = c
  loaded : ∀ n : Nat, t.pages[n]? ≠ some (Page.mk none true)
  dirty : (t.pages.countP Page.dirty : Int) ≤ t.dirty

/-- The two tables differ in what is loaded only. -/
structure SameView (t t' : PageTable) : Prop where
  size : t'.size = t.size
  length : t'.pages.length = t.pages.length
  bytes : ∀ n, t'.bytes n = t.bytes n

/-- A step of the cache: what the reader sees and the records stay as they are. -/
structure Unseen (t t' : PageTable) : Prop extends SameView t t' where
  valid : t'.Valid
  stored : t'.stored = t.stored

section View

variable {t t' : PageTable}

theorem SameView.refl (t : PageTable) : SameView t t := ⟨rfl, rfl, fun _ => rfl⟩

theorem SameView.trans {t'' : PageTable} (h : SameView t t') (h' : SameView t' t'') :
    SameView t t'' where
  size := h'.size.trans h.size
  length := h'.length.trans h.length
  bytes n := (h'.bytes n).trans (h.bytes n)

theorem Unseen.refl (ht : t.Valid) : Unseen t t := ⟨SameView.refl t, ht, rfl⟩

theorem Unseen.trans {t'' : PageTable} (h : Unseen t t') (h' : Unseen t' t'') : Unseen t t'' where
  toSameView := h.toSameView.trans h'.toSameView
  valid := h'.valid
  stored := h'.stored.trans h.stored

theorem SameView.byte (h : SameView t t') : t'.byte = t.byte := by
  funext i
  rw [PageTable.byte, h.bytes]
  rfl

/-- The page of a position in the file exists. -/
theorem PageTable.Valid.page_lt (ht : t.Valid) {i : Nat} (hi : i < t.size) :
    i / pageSize < t.pages.length := by
  have hdiv : i / pageSize ≤ t.size / pageSize := Nat.div_le_div_right (by omega)
  rcases ht.length with ⟨-, hzero⟩ | hlength <;> omega

/-- The positions of a valid table have page numbers that an int holds. -/
theorem getPageNumber_eq {pos : Nat} (h : pos < maxSize) :
    getPageNumber pos = (pos / pageSize : Nat) := by
  unfold maxSize pageSize at h
  unfold getPageNumber pageSize
  apply toInt_eq <;> omega

/-- One page is replaced, and the counters with it. -/
def PageTable.setPage (t : PageTable) (n : Nat) (page : Page) (loaded dirty : Int) : PageTable :=
  { t with pages := t.pages.set n page, loaded := loaded, dirty := dirty }

variable {n : Nat} {page : Page} {loaded dirty : Int}

theorem getElem?_setPage (hn : n < t.pages.length) (m : Nat) :
    (t.setPage n page loaded dirty).pages[m]? = if m = n then some page else t.pages[m]? := by
  rw [PageTable.setPage, List.getElem?_set]
  by_cases hm : n = m
  · subst hm
    simp [hn]
  · rw [if_neg hm, if_neg (Ne.symm hm)]

theorem bytes_setPage (hn : n < t.pages.length) (m : Nat) :
    (t.setPage n page loaded dirty).bytes m =
      if m = n then page.content.getD (t.stored.bytes n) else t.bytes m := by
  rw [PageTable.bytes, PageTable.content, getElem?_setPage hn]
  by_cases hm : m = n
  · subst hm
    rw [if_pos rfl, if_pos rfl]
    rfl
  · rw [if_neg hm, if_neg hm]
    rfl

theorem PageTable.Valid.setPage (ht : t.Valid) (hn : n < t.pages.length)
    (hclean : ∀ c, page = ⟨some c, false⟩ → t.stored.bytes n = c) (hloaded : page ≠ ⟨none, true⟩)
    (hdirty : ((t.pages.set n page).countP Page.dirty : Int) ≤ dirty) :
    (t.setPage n page loaded dirty).Valid where
  length := by
    rcases ht.length with ⟨hnil, -⟩ | hlength
    · rw [hnil] at hn
      cases hn
    · exact Or.inr ((List.length_set).trans hlength)
  small := ht.small
  clean m c hm := by
    rw [getElem?_setPage hn] at hm
    split at hm
    · rename_i h
      subst h
      exact hclean c (Option.some.inj hm)
    · exact ht.clean m c hm
  loaded m hm := by
    rw [getElem?_setPage hn] at hm
    split at hm
    · exact hloaded (Option.some.inj hm)
    · exact ht.loaded m hm
  dirty := hdirty

/-- What a page counts for leaves the count with the old page and comes in with the new one. -/
theorem countP_set_page (p : Page → Bool) {pages : List Page} {old : Page}
    (h : pages[n]? = some old) (page : Page) : ((pages.set n page).countP p : Int) =
      pages.countP p - (if p old then 1 else 0) + if p page then 1 else 0 := by
  obtain ⟨hn, rfl⟩ := List.getElem?_eq_some_iff.mp h
  rw [List.countP_set hn]
  have hpos : p pages[n] = true → 0 < pages.countP p := fun hcounts =>
    List.countP_pos_iff.mpr ⟨_, List.getElem_mem hn, hcounts⟩
  split <;> split <;> rename_i hold _ <;> simp only [hold, true_implies] at hpos <;> omega

theorem countP_set_dirty {pages : List Page} {old : Page} (h : pages[n]? = some old)
    (page : Page) : ((pages.set n page).countP Page.dirty : Int) =
      pages.countP Page.dirty - (if old.dirty then 1 else 0) + if page.dirty then 1 else 0 :=
  countP_set_page Page.dirty h page

end View

section Cache

variable {t : PageTable} {n : Nat}

/-- A page that is not dirty is unloaded, or read from its record. -/
theorem Unseen.setPage (ht : t.Valid) {content : Option PageBytes}
    (hpage : t.pages[n]? = some ⟨content, false⟩) (content' : Option PageBytes)
    (hcontent : content'.getD (t.stored.bytes n) = t.stored.bytes n) (loaded : Int) :
    Unseen t (t.setPage n ⟨content', false⟩ loaded t.dirty) := by
  have hn : n < t.pages.length := (List.getElem?_eq_some_iff.mp hpage).1
  have hcount := countP_set_dirty hpage ⟨content', false⟩
  have hdirty := ht.dirty
  refine ⟨⟨rfl, List.length_set, ?_⟩, ?_, rfl⟩
  · intro m
    rw [bytes_setPage hn]
    split
    · rename_i hm
      subst hm
      rw [PageTable.bytes, PageTable.content, hpage]
      cases content with
      | none => exact hcontent
      | some c => exact hcontent.trans (ht.clean m c hpage)
    · rfl
  · apply ht.setPage hn
    · rintro c ⟨⟩
      exact hcontent.symm
    · intro hc
      cases hc
    · rw [hcount]
      simpa using hdirty

theorem unseen_unloadBelow (ht : t.Valid) (i : Nat) (needToClear : Int) :
    Unseen t (unloadBelow i needToClear t) := by
  induction i generalizing needToClear t with
  | zero => exact Unseen.refl ht
  | succ i ih =>
    unfold unloadBelow
    split
    · split
      · rename_i content hpage
        have hstep := Unseen.setPage ht hpage none rfl (t.loaded - 1)
        exact hstep.trans (ih hstep.valid (needToClear - 1))
      · exact ih ht needToClear
    · exact Unseen.refl ht

theorem unseen_unloadClearPages (ht : t.Valid) (needToClear : Int) :
    Unseen t (unloadClearPages needToClear t) :=
  unseen_unloadBelow ht _ _

theorem dirty_unloadBelow (t : PageTable) (i : Nat) (needToClear : Int) (n : Nat) :
    (unloadBelow i needToClear t).pages[n]?.map Page.dirty = t.pages[n]?.map Page.dirty := by
  induction i generalizing needToClear t with
  | zero => rfl
  | succ i ih =>
    unfold unloadBelow
    split
    · split
      · rename_i content hpage
        rw [ih]
        show (t.pages.set i ⟨none, false⟩)[n]?.map Page.dirty = _
        rw [List.getElem?_set]
        by_cases hn : i = n
        · subst hn
          rw [if_pos rfl, hpage, if_pos (List.getElem?_eq_some_iff.mp hpage).1]
          rfl
        · rw [if_neg hn]
      · exact ih t needToClear
    · rfl

/-- Clean pages are unloaded until no more than a number of them are counted as loaded. -/
def clearedTo (keep : Int) (t : PageTable) : PageTable :=
  if t.loaded - t.dirty - keep > 0 then unloadClearPages (t.loaded - t.dirty - keep) t else t

theorem unseen_clearedTo (ht : t.Valid) (keep : Int) : Unseen t (clearedTo keep t) := by
  unfold clearedTo
  split
  · exact unseen_unloadClearPages ht _
  · exact Unseen.refl ht

theorem dirty_clearedTo (keep : Int) (t : PageTable) (n : Nat) :
    (clearedTo keep t).pages[n]?.map Page.dirty = t.pages[n]?.map Page.dirty := by
  unfold clearedTo
  split
  · exact dirty_unloadBelow t _ _ n
  · rfl

theorem loadPage_def (n : Nat) (t : PageTable) : loadPage n t =
    { setContent n ((clearedTo (maxClearPagesCached - 1) t).stored.bytes n)
        (clearedTo (maxClearPagesCached - 1) t) with
      loaded := (setContent n ((clearedTo (maxClearPagesCached - 1) t).stored.bytes n)
        (clearedTo (maxClearPagesCached - 1) t)).loaded + 1 } := rfl

/-- The page is found again among those that are left, and gets the content of its record. -/
theorem loadPage_eq (hpage : t.pages[n]? = some ⟨none, false⟩) :
    ∃ content, (clearedTo (maxClearPagesCached - 1) t).pages[n]? = some ⟨content, false⟩ ∧
      loadPage n t = (clearedTo (maxClearPagesCached - 1) t).setPage n
        ⟨some ((clearedTo (maxClearPagesCached - 1) t).stored.bytes n), false⟩
        ((clearedTo (maxClearPagesCached - 1) t).loaded + 1)
        (clearedTo (maxClearPagesCached - 1) t).dirty := by
  have hflag := dirty_clearedTo (maxClearPagesCached - 1) t n
  rw [hpage] at hflag
  obtain ⟨⟨content, dirty⟩, hpage', hclean⟩ := Option.map_eq_some_iff.mp hflag
  obtain rfl : dirty = false := hclean
  refine ⟨content, hpage', ?_⟩
  rw [loadPage_def, setContent, hpage']
  rfl

theorem loadPage_spec (ht : t.Valid) (hpage : t.pages[n]? = some ⟨none, false⟩) :
    Unseen t (loadPage n t) ∧
      (loadPage n t).pages[n]? = some ⟨some (t.stored.bytes n), false⟩ := by
  have hunseen := unseen_clearedTo ht (maxClearPagesCached - 1)
  obtain ⟨content, hpage', hload⟩ := loadPage_eq hpage
  rw [hload, ← hunseen.stored]
  refine ⟨hunseen.trans (Unseen.setPage hunseen.valid hpage' (some _) rfl _), ?_⟩
  rw [getElem?_setPage (List.getElem?_eq_some_iff.mp hpage').1, if_pos rfl]

/-- getPage of a page that exists. -/
theorem getPage_spec (ht : t.Valid) (hn : n < t.pages.length) :
    ∃ t', getPage n t = .ok (t.bytes n) t' ∧ Unseen t t' ∧ t'.content n = some (t.bytes n) := by
  obtain ⟨⟨content, dirty⟩, hpage⟩ : ∃ p, t.pages[n]? = some p :=
    ⟨_, List.getElem?_eq_getElem hn⟩
  have hcontent : t.content n = content := by
    rw [PageTable.content, hpage]
    rfl
  have hbytes : t.bytes n = content.getD (t.stored.bytes n) := by
    rw [PageTable.bytes, hcontent]
  rw [getPage, if_neg (by omega), Int.toNat_natCast, hpage, hbytes]
  cases content with
  | some c => exact ⟨t, rfl, Unseen.refl ht, hcontent⟩
  | none =>
    cases dirty with
    | true => exact absurd hpage (ht.loaded n)
    | false =>
      obtain ⟨hunseen, hpage'⟩ := loadPage_spec ht hpage
      refine ⟨loadPage n t, rfl, hunseen, ?_⟩
      rw [PageTable.content, hpage']
      rfl

end Cache

/-- The bytes have been written over the file from the position on. -/
structure Written (t t' : PageTable) (pos : Nat) (seg : List UInt8) : Prop where
  valid : t'.Valid
  size : t'.size = t.size
  length : t'.pages.length = t.pages.length
  stored : t'.stored = t.stored
  byte : t'.byte = overlay t.byte pos seg

section Writing

variable {t t' : PageTable} {n : Nat}

theorem Written.nil (ht : t.Valid) (pos : Nat) : Written t t pos [] :=
  ⟨ht, rfl, rfl, rfl, (overlay_nil _ _).symm⟩

/-- Where nothing is written does not matter. -/
theorem Written.nil_pos {pos : Nat} (h : Written t t' pos []) (pos' : Nat) :
    Written t t' pos' [] :=
  { h with byte := by rw [h.byte, overlay_nil, overlay_nil] }

theorem Written.append {t'' : PageTable} {pos : Nat} {s r : List UInt8} (h : Written t t' pos s)
    (h' : Written t' t'' (pos + s.length) r) : Written t t'' pos (s ++ r) where
  valid := h'.valid
  size := h'.size.trans h.size
  length := h'.length.trans h.length
  stored := h'.stored.trans h.stored
  byte := by rw [h'.byte, h.byte, overlay_append]

theorem setPageDirty_setContent {content : Option PageBytes} {dirty : Bool}
    (hpage : t.pages[n]? = some ⟨content, dirty⟩) (c : PageBytes) :
    setPageDirty n (setContent n c t) =
      t.setPage n ⟨some c, true⟩ t.loaded (t.dirty + if dirty then 0 else 1) := by
  have hn : n < t.pages.length := (List.getElem?_eq_some_iff.mp hpage).1
  have hcontent : setContent n c t = { t with pages := t.pages.set n ⟨some c, dirty⟩ } := by
    rw [setContent, hpage]
  rw [hcontent, setPageDirty]
  simp only [List.getElem?_set_self hn]
  cases dirty with
  | true => simp [PageTable.setPage]
  | false => simp [PageTable.setPage]

/-- The bytes of the file after one page has been overwritten. -/
theorem byte_setPage (hn : n < t.pages.length) {c : PageBytes} {dstPos : Nat} {seg : List UInt8}
    (hseg : dstPos + seg.length ≤ pageSize) (hc : c.val = splice (t.bytes n).val dstPos seg)
    (dirty : Bool) (loaded count : Int) :
    (t.setPage n ⟨some c, dirty⟩ loaded count).byte =
      overlay t.byte (n * pageSize + dstPos) seg := by
  funext i
  have hlength : dstPos + seg.length ≤ (t.bytes n).val.length := by
    rw [(t.bytes n).property]
    exact hseg
  have hi : i = i / pageSize * pageSize + i % pageSize := (Nat.div_add_mod' i pageSize).symm
  have hmod : i % pageSize < pageSize := Nat.mod_lt i (by decide)
  rw [PageTable.byte, bytes_setPage hn]
  by_cases hpage : i / pageSize = n
  · subst hpage
    rw [if_pos rfl]
    show c.val.getD (i % pageSize) 0 = _
    rw [List.getD_eq_getElem?_getD, hc, getElem?_splice hlength]
    by_cases hlow : dstPos ≤ i % pageSize
    · by_cases hhigh : i % pageSize < dstPos + seg.length
      · have hsub : i - (i / pageSize * pageSize + dstPos) = i % pageSize - dstPos := by omega
        have hlt : i % pageSize - dstPos < seg.length := by omega
        rw [if_pos ⟨hlow, hhigh⟩, overlay, if_pos (by omega), hsub,
          List.getElem?_eq_getElem hlt]
        rfl
      · rw [if_neg (by omega), overlay_of_le _ (by omega), PageTable.byte,
          List.getD_eq_getElem?_getD]
    · rw [if_neg (by omega), overlay_of_lt _ _ (by omega), PageTable.byte,
        List.getD_eq_getElem?_getD]
  · rw [if_neg hpage]
    rcases Nat.lt_or_gt_of_ne hpage with hlt | hgt
    · have hmul : (i / pageSize + 1) * pageSize ≤ n * pageSize := Nat.mul_le_mul_right _ hlt
      rw [Nat.add_mul, Nat.one_mul] at hmul
      rw [overlay_of_lt _ _ (by omega), PageTable.byte]
    · have hmul : (n + 1) * pageSize ≤ i / pageSize * pageSize := Nat.mul_le_mul_right _ hgt
      rw [Nat.add_mul, Nat.one_mul] at hmul
      rw [overlay_of_le _ (by omega), PageTable.byte]

theorem writePage_spec (ht : t.Valid) (hn : n < t.pages.length) (dstPos : Nat) (b : List UInt8)
    (off len : Nat) (hdst : dstPos + len ≤ pageSize) (hsrc : off + len ≤ b.length) :
    ∃ t', writePage n dstPos b off len t = .ok () t' ∧
      Written t t' (n * pageSize + dstPos) ((b.drop off).take len) := by
  obtain ⟨loaded, hget, hunseen, hcontent⟩ := getPage_spec ht hn
  obtain ⟨⟨content, dirty⟩, hpage, rfl⟩ := Option.bind_eq_some_iff.mp hcontent
  have hbounds : off + len ≤ b.length ∧ dstPos + len ≤ (t.bytes n).val.length := by
    rw [(t.bytes n).property]
    exact ⟨hsrc, hdst⟩
  have hseg : ((b.drop off).take len).length = len := by
    rw [List.length_take, List.length_drop]
    omega
  obtain ⟨c, hcopy, hc⟩ : ∃ c, (t.bytes n).copyFrom dstPos b off len = some c ∧
      c.val = splice (t.bytes n).val dstPos ((b.drop off).take len) := by
    rw [PageBytes.copyFrom, dif_pos hbounds]
    exact ⟨_, rfl, rfl⟩
  refine ⟨loaded.setPage n ⟨some c, true⟩ loaded.loaded (loaded.dirty + if dirty then 0 else 1),
    ?_, ?_, ?_, ?_, ?_, ?_⟩
  · unfold writePage
    rw [bind_ok hget, hcopy, ← setPageDirty_setContent hpage]
    rfl
  · have hcount := countP_set_dirty hpage ⟨some c, true⟩
    have hdirty := hunseen.valid.dirty
    apply hunseen.valid.setPage (hunseen.length ▸ hn)
    · rintro c' ⟨⟩
    · intro hnone
      cases hnone
    · rw [hcount]
      cases dirty <;> simp <;> omega
  · exact hunseen.size
  · exact (List.length_set).trans hunseen.length
  · exact hunseen.stored
  · rw [← hunseen.bytes n] at hc
    rw [byte_setPage (hunseen.length ▸ hn) (by omega) hc, hunseen.byte]

end Writing

section Resize

variable {t : PageTable}

/-- The table with another number of pages; the records of those that go are gone. -/
structure Resized (t t' : PageTable) (newSize : Nat) : Prop where
  valid : t'.Valid
  size : t'.size = newSize
  length : t'.pages.length = newSize / pageSize + 1
  bytes : ∀ n < newSize / pageSize + 1, t'.bytes n = t.bytes n
  grown : t.size ≤ newSize → t'.stored = t.stored ∧ t'.byte = t.byte

theorem content_append_replicate (pages : List Page) (k n : Nat) :
    (pages ++ List.replicate k ⟨none, false⟩)[n]?.bind Page.content =
      pages[n]?.bind Page.content := by
  rw [List.getElem?_append]
  split
  · rfl
  · rename_i hn
    rw [List.getElem?_eq_none (Nat.le_of_not_lt hn), List.getElem?_replicate]
    split <;> rfl

theorem resized_append (ht : t.Valid) {newSize : Nat} (hsmall : newSize < maxSize)
    (hlength : t.pages.length ≤ newSize / pageSize + 1) :
    Resized t { t with
      size := newSize
      pages := t.pages ++ List.replicate (newSize / pageSize + 1 - t.pages.length) ⟨none, false⟩ }
      newSize := by
  have hpages : (t.pages ++ List.replicate (newSize / pageSize + 1 - t.pages.length)
      (Page.mk none false)).length = newSize / pageSize + 1 := by
    rw [List.length_append, List.length_replicate]
    omega
  have hbytes : ∀ n, PageTable.bytes { t with
      size := newSize
      pages := t.pages ++ List.replicate (newSize / pageSize + 1 - t.pages.length)
        ⟨none, false⟩ } n = t.bytes n := by
    intro n
    rw [PageTable.bytes, PageTable.content, content_append_replicate]
    rfl
  refine ⟨⟨Or.inr hpages, hsmall, ?_, ?_, ?_⟩, rfl, hpages, fun n _ => hbytes n, fun _ => ⟨rfl, ?_⟩⟩
  · intro n c hn
    rcases List.getElem?_append.symm.trans hn with hn
    split at hn
    · exact ht.clean n c hn
    · rw [List.getElem?_replicate] at hn
      split at hn <;> cases hn
  · intro n hn
    rw [List.getElem?_append] at hn
    split at hn
    · exact ht.loaded n hn
    · rw [List.getElem?_replicate] at hn
      split at hn <;> cases hn
  · have hdirty := ht.dirty
    show ((t.pages ++ _).countP Page.dirty : Int) ≤ t.dirty
    rw [List.countP_append, List.countP_replicate]
    simpa using hdirty
  · funext i
    rw [PageTable.byte, hbytes]
    rfl

theorem resized_take (ht : t.Valid) {newSize : Nat} (hsmall : newSize < maxSize)
    (hlength : newSize / pageSize + 1 < t.pages.length) (loaded : Int) {stored : Stored}
    (hstored : ∀ n < newSize / pageSize + 1, stored.bytes n = t.stored.bytes n) :
    Resized t { t with
      size := newSize
      pages := t.pages.take (newSize / pageSize + 1)
      loaded := loaded
      stored := stored } newSize := by
  have hpages : (t.pages.take (newSize / pageSize + 1)).length = newSize / pageSize + 1 := by
    rw [List.length_take]
    omega
  have htake : ∀ {n : Nat} {page : Page}, (t.pages.take (newSize / pageSize + 1))[n]? = some page →
      n < newSize / pageSize + 1 ∧ t.pages[n]? = some page := by
    intro n page hn
    have hlt : n < newSize / pageSize + 1 := hpages ▸ (List.getElem?_eq_some_iff.mp hn).1
    rw [List.getElem?_take_of_lt hlt] at hn
    exact ⟨hlt, hn⟩
  refine ⟨⟨Or.inr hpages, hsmall, ?_, ?_, ?_⟩, rfl, hpages, ?_, ?_⟩
  · intro n c hn
    obtain ⟨hlt, hpage⟩ := htake hn
    exact (hstored n hlt).trans (ht.clean n c hpage)
  · intro n hn
    exact ht.loaded n (htake hn).2
  · have hdirty := ht.dirty
    have hsublist := (List.take_sublist (newSize / pageSize + 1) t.pages).countP_le
      (p := Page.dirty)
    show ((t.pages.take _).countP Page.dirty : Int) ≤ t.dirty
    omega
  · intro n hn
    rw [PageTable.bytes, PageTable.content, List.getElem?_take_of_lt hn, hstored n hn]
    rfl
  · intro hle
    have hdiv : t.size / pageSize ≤ newSize / pageSize := Nat.div_le_div_right hle
    rcases ht.length with ⟨hnil, -⟩ | hold
    · rw [hnil] at hlength
      cases hlength
    · omega

theorem resize_spec (ht : t.Valid) {newSize : Nat} (hsmall : newSize < maxSize) :
    ∃ t', resize newSize t = .ok () t' ∧ Resized t t' newSize := by
  have hn : toInt (newSize / pageSize + 1 : Nat) = (newSize / pageSize + 1 : Nat) := by
    have hdiv : newSize / pageSize < 2147483647 := Nat.div_lt_of_lt_mul hsmall
    unfold pageSize at hdiv ⊢
    apply toInt_eq <;> omega
  by_cases hlength : newSize / pageSize + 1 < t.pages.length
  · have hdestroy : ∀ n < newSize / pageSize + 1, (t.stored.destroyPages
        (newSize / pageSize + 1 : Nat) (t.pages.length - 1)).bytes n = t.stored.bytes n := by
      intro n hlt
      have hkept : (t.stored.destroyPages (newSize / pageSize + 1 : Nat)
          (t.pages.length - 1)).page n = t.stored.page n := if_neg (by omega)
      rw [Stored.bytes, hkept]
      rfl
    refine ⟨_, ?_, resized_take ht hsmall hlength
      (if t.loaded - (t.pages.length - 1 - (newSize / pageSize + 1 : Nat) + 1) < 0 then 0
        else t.loaded - (t.pages.length - 1 - (newSize / pageSize + 1 : Nat) + 1)) hdestroy⟩
    have hdelete : deletePages (newSize / pageSize + 1 : Nat) (t.pages.length - 1) t =
        .ok () { t with
          pages := t.pages.take (newSize / pageSize + 1)
          loaded :=
            if t.loaded - (t.pages.length - 1 - (newSize / pageSize + 1 : Nat) + 1) < 0 then 0
            else t.loaded - (t.pages.length - 1 - (newSize / pageSize + 1 : Nat) + 1)
          stored := t.stored.destroyPages (newSize / pageSize + 1 : Nat)
            (t.pages.length - 1) } := by
      have hdrop : t.pages.drop (t.pages.length - 1 + 1 : Int).toNat = [] :=
        List.drop_eq_nil_of_le (by omega)
      have hstart : ¬((newSize / pageSize + 1 : Nat) : Int) < 0 :=
        Int.not_lt.mpr (Int.natCast_nonneg _)
      rw [deletePages, if_neg hstart, hdrop, List.append_nil]
      rfl
    have hnone : ((newSize / pageSize + 1 : Nat) - (t.pages.length : Int)).toNat = 0 := by omega
    unfold resize
    rw [hn, bind_get, if_pos (by omega), bind_ok hdelete, hnone]
    show EStateM.Result.ok () _ = _
    simp
  · have hcount : ((newSize / pageSize + 1 : Nat) - (t.pages.length : Int)).toNat =
        newSize / pageSize + 1 - t.pages.length := by omega
    refine ⟨_, ?_, resized_append ht hsmall (Nat.le_of_not_lt hlength)⟩
    unfold resize
    rw [hn, bind_get, if_neg (by omega), hcount]
    rfl

end Resize

/-- The cast in the number of bytes of the first page does no harm: there is one page only, or
it is read from its start, or the position has no sign bit as an int. -/
def ChunkSafe (pos len : Nat) : Prop :=
  pos % pageSize + len < pageSize ∨ pos % pageSize = 0 ∨ pos / 2147483648 % 2 = 0

section Chunks

theorem firstChunk_eq {pos len : Nat} (hsmall : pos + len < maxSize) (hsafe : ChunkSafe pos len) :
    firstChunk pos len =
      if pos / pageSize = (pos + len) / pageSize then len else pageSize - pos % pageSize := by
  have hpages : getPageNumber pos = getPageNumber (pos + len) ↔
      pos / pageSize = (pos + len) / pageSize := by
    rw [getPageNumber_eq (by omega), getPageNumber_eq hsmall, Int.ofNat_inj]
  unfold firstChunk
  by_cases heq : pos / pageSize = (pos + len) / pageSize
  · rw [if_pos heq, if_pos (hpages.mpr heq)]
  · rw [if_neg heq, if_neg (fun h => heq (hpages.mp h))]
    have hmod : (toInt pos).tmod pageSize = (pos % pageSize : Nat) := by
      unfold ChunkSafe pageSize at *
      rcases hsafe with hone | hstart | hsign
      · omega
      · rw [hstart]
        apply Int.tmod_eq_zero_of_dvd
        unfold toInt
        rw [Int.bmod_def]
        split <;> omega
      · have hcast : toInt pos = (pos % 4294967296 : Nat) := by
          unfold toInt
          rw [Int.bmod_def]
          split <;> omega
        have hmods : pos % 4294967296 % 4096 = pos % 4096 := by omega
        rw [hcast, ← Int.ofNat_tmod, hmods]
    rw [hmod]
    omega

/-- The bytes of the pages after the first one. -/
def rest (last : Nat) : Nat → Nat
  | 0 => 0
  | k + 1 => k * pageSize + last

variable {t : PageTable}

theorem writePages_spec (ht : t.Valid) (endPage last : Nat) (b : List UInt8) (off : Nat)
    {k i n : Nat}
    (hlast : last ≤ pageSize) (hend : i + k = endPage + 1) (hpages : endPage < t.pages.length)
    (hsrc : off + n + rest last k ≤ b.length) :
    ∃ t', writePages endPage last b off k i n t = .ok (n + rest last k) t' ∧
      Written t t' (i * pageSize) ((b.drop (off + n)).take (rest last k)) := by
  induction k generalizing i n t with
  | zero => exact ⟨t, rfl, by simpa [rest] using Written.nil ht (i * pageSize)⟩
  | succ k ih =>
    have hi : (i : Int) = endPage ↔ k = 0 := by omega
    cases k with
    | zero =>
      obtain ⟨t', hwrite, hwritten⟩ := writePage_spec ht (show i < t.pages.length by omega)
        0 b (off + n) last (by omega)
        (by simpa [rest] using hsrc)
      refine ⟨t', ?_, by simpa [rest] using hwritten⟩
      unfold writePages
      rw [if_pos (hi.mpr rfl), bind_ok hwrite]
      simp only [writePages, rest]
      simp
      rfl
    | succ k =>
      have hsum : rest last (k + 1 + 1) = pageSize + rest last (k + 1) := by
        simp only [rest, Nat.add_mul]
        omega
      obtain ⟨t', hwrite, hwritten⟩ := writePage_spec ht (show i < t.pages.length by omega)
        0 b (off + n) pageSize (by omega) (by omega)
      obtain ⟨t'', hwrite', hwritten'⟩ := ih hwritten.valid (i := i + 1) (n := n + pageSize)
        (by omega) (by rw [hwritten.length]; exact hpages) (by omega)
      refine ⟨t'', ?_, ?_⟩
      · unfold writePages
        rw [if_neg (fun h => absurd (hi.mp h) (by omega)), bind_ok hwrite, hsum, ← Nat.add_assoc]
        exact hwrite'
      · have hlength : ((b.drop (off + n)).take pageSize).length = pageSize := by
          rw [List.length_take, List.length_drop]
          omega
        have hnext : i * pageSize + ((b.drop (off + n)).take pageSize).length =
            (i + 1) * pageSize := by
          rw [hlength, Nat.succ_mul]
        rw [← hnext] at hwritten'
        rw [Nat.add_zero] at hwritten
        rw [hsum, List.take_add, List.drop_drop, Nat.add_assoc]
        exact hwritten.append hwritten'

/-- The first chunk and the pages after it make up the whole. -/
theorem chunks {pos len n : Nat}
    (hn : n = if pos / pageSize = (pos + len) / pageSize then len else pageSize - pos % pageSize) :
    pos % pageSize + n ≤ pageSize ∧
      n + rest ((pos + len) % pageSize) ((pos + len) / pageSize - pos / pageSize) = len ∧
      (pos / pageSize ≠ (pos + len) / pageSize → pos + n = (pos / pageSize + 1) * pageSize) := by
  obtain ⟨k, hk⟩ : ∃ k, k = (pos + len) / pageSize - pos / pageSize := ⟨_, rfl⟩
  rw [← hk]
  unfold pageSize at *
  cases k with
  | zero =>
    rw [if_pos (by omega)] at hn
    simp only [rest]
    omega
  | succ k =>
    rw [if_neg (by omega)] at hn
    simp only [rest, pageSize]
    omega

/-- A run of bytes of one page. -/
theorem segment_page (t : PageTable) (n : Nat) {p m : Nat} (h : p + m ≤ pageSize) :
    ((t.bytes n).val.drop p).take m = segment t.byte (n * pageSize + p) m := by
  have hlength := (t.bytes n).property
  apply List.ext_getElem?
  intro j
  by_cases hj : j < m
  · have hdiv : (n * pageSize + p + j) / pageSize = n := by
      rw [Nat.add_assoc, Nat.mul_comm, Nat.mul_add_div (by decide),
        Nat.div_eq_of_lt (by omega), Nat.add_zero]
    have hmod : (n * pageSize + p + j) % pageSize = p + j := by
      rw [Nat.add_assoc, Nat.mul_comm, Nat.mul_add_mod, Nat.mod_eq_of_lt (by omega)]
    rw [getElem?_segment _ _ hj, List.getElem?_take_of_lt hj, List.getElem?_drop, PageTable.byte,
      hdiv, hmod, List.getD_eq_getElem?_getD, List.getElem?_eq_getElem (by omega)]
    rfl
  · rw [List.getElem?_eq_none, List.getElem?_eq_none]
    · simpa using Nat.le_of_not_lt hj
    · rw [List.length_take]
      omega

theorem readPages_spec (ht : t.Valid) (endPage last : Nat) {k i n : Nat} {b : List UInt8}
    (hlast : last ≤ pageSize) (hend : i + k = endPage + 1) (hpages : endPage < t.pages.length)
    (hdst : n + rest last k ≤ b.length) :
    ∃ t', readPages endPage last k i b n t =
        .ok (splice b n (segment t.byte (i * pageSize) (rest last k)), n + rest last k) t' ∧
      Unseen t t' := by
  induction k generalizing i n b t with
  | zero =>
    refine ⟨t, ?_, Unseen.refl ht⟩
    simp only [rest, segment_zero, splice_nil]
    rfl
  | succ k ih =>
    have hi : (i : Int) = endPage ↔ k = 0 := by omega
    have hcopy : ∀ {howmuch}, howmuch ≤ pageSize → n + howmuch ≤ b.length →
        arraycopy (t.bytes i).val 0 b n howmuch =
          some (splice b n (segment t.byte (i * pageSize) howmuch)) := by
      intro howmuch hle hb
      have hlength := (t.bytes i).property
      rw [arraycopy_eq (by omega) hb, segment_page t i (by omega), Nat.add_zero]
    obtain ⟨t', hget, hunseen, -⟩ := getPage_spec ht (show i < t.pages.length by omega)
    cases k with
    | zero =>
      refine ⟨t', ?_, hunseen⟩
      have hlast' : rest last (0 + 1) = last := by simp [rest]
      unfold readPages
      rw [bind_ok hget, if_pos (hi.mpr rfl), hcopy hlast (by omega), hlast']
      rfl
    | succ k =>
      have hsum : rest last (k + 1 + 1) = pageSize + rest last (k + 1) := by
        simp only [rest, Nat.add_mul]
        omega
      have hlength : (splice b n (segment t.byte (i * pageSize) pageSize)).length = b.length :=
        length_splice (by rw [length_segment]; omega)
      obtain ⟨t'', hread, hunseen'⟩ := ih hunseen.valid (i := i + 1) (n := n + pageSize)
        (b := splice b n (segment t.byte (i * pageSize) pageSize))
        (by omega) (by rw [hunseen.length]; exact hpages) (by omega)
      refine ⟨t'', ?_, hunseen.trans hunseen'⟩
      have hsplice : splice (splice b n (segment t.byte (i * pageSize) pageSize)) (n + pageSize)
          (segment t'.byte ((i + 1) * pageSize) (rest last (k + 1))) =
          splice b n (segment t.byte (i * pageSize) (rest last (k + 1 + 1))) := by
        have happend := splice_splice b (s := segment t.byte (i * pageSize) pageSize)
          (t := segment t.byte ((i + 1) * pageSize) (rest last (k + 1))) n
          (by rw [length_segment]; omega)
        rw [length_segment] at happend
        rw [hunseen.byte, happend, hsum, ← segment_append, Nat.succ_mul]
      unfold readPages
      rw [bind_ok hget, if_neg (fun h => absurd (hi.mp h) (by omega)),
        hcopy (Nat.le_refl _) (by omega)]
      show readPages endPage last (k + 1) ((i : Int) + 1) _ (n + pageSize) t' = _
      rw [show (i : Int) + 1 = (i + 1 : Nat) from rfl, hread, hsplice, hsum, Nat.add_assoc]

end Chunks

/-- The file is as long as what has been written needs, and has it from the position on. -/
structure Wrote (t t' : PageTable) (pos : Nat) (seg : List UInt8) : Prop where
  valid : t'.Valid
  size : t'.size = max t.size (pos + seg.length)
  stored : t'.stored = t.stored
  byte : t'.byte = overlay t.byte pos seg

section MethodSpecs

variable {t : PageTable} {pos : Nat}

theorem read_spec (ht : t.Valid) (hpos : pos < t.size) :
    ∃ t', read pos t = .ok (signed (t.byte pos), pos + 1) t' ∧ Unseen t t' := by
  have hsmall := ht.small
  obtain ⟨t', hget, hunseen, -⟩ := getPage_spec ht (ht.page_lt hpos)
  refine ⟨t', ?_, hunseen⟩
  unfold read
  rw [bind_get, if_neg (by omega), getPageNumber_eq (by omega), bind_ok hget]
  rfl

theorem read_end (hpos : t.size ≤ pos) : read pos t = .ok (-1, pos) t := by
  unfold read
  rw [bind_get, if_pos hpos]
  rfl

theorem readBytes_end (hpos : t.size ≤ pos) (b : List UInt8) (off len : Nat) :
    readBytes pos b off len t = .ok ⟨-1, b, pos⟩ t := by
  unfold readBytes
  rw [bind_get, if_pos hpos]
  rfl

/-- read(b, off, len) inside the file: the bytes of the first page go to b[off], the others
follow from where they would lie in a buffer that is filled from its start. -/
theorem readBytes_chunks (ht : t.Valid) (hpos : pos < t.size) (b : List UInt8) (off len : Nat)
    (hb : off + len ≤ b.length) {count : Nat} (hcount : count = min len (t.size - pos))
    (hsafe : ChunkSafe pos count) :
    ∃ n t', n = (if pos / pageSize = (pos + count) / pageSize then count
        else pageSize - pos % pageSize) ∧ n ≤ count ∧
      readBytes pos b off len t = .ok ⟨count, splice (splice b off (segment t.byte pos n)) n
        (segment t.byte (pos + n) (count - n)), pos + count⟩ t' ∧ Unseen t t' := by
  have hsmall := ht.small
  have hlen : (if pos + len > t.size then t.size - pos else len) = count := by
    split <;> omega
  have hstop : (pos + count) / pageSize < t.pages.length := by
    have hdiv : (pos + count) / pageSize ≤ t.size / pageSize := Nat.div_le_div_right (by omega)
    rcases ht.length with ⟨-, hzero⟩ | hlength <;> omega
  obtain ⟨n, hn⟩ : ∃ n, n = firstChunk pos count := ⟨_, rfl⟩
  have hchunk := firstChunk_eq (by omega) hsafe
  rw [← hn] at hchunk
  obtain ⟨hpage, hsum, hnext⟩ := chunks hchunk
  obtain ⟨t', hget, hunseen, -⟩ := getPage_spec ht (ht.page_lt hpos)
  have hcopy : arraycopy (t.bytes (pos / pageSize)).val (pos % pageSize) b off n =
      some (splice b off (segment t.byte pos n)) := by
    have hlength := (t.bytes (pos / pageSize)).property
    rw [arraycopy_eq (by omega) (by omega), segment_page t _ hpage, Nat.div_add_mod']
  have hlength : (splice b off (segment t.byte pos n)).length = b.length :=
    length_splice (by rw [length_segment]; omega)
  obtain ⟨t'', hread, hunseen'⟩ := readPages_spec hunseen.valid
    ((pos + count) / pageSize) ((pos + count) % pageSize)
    (k := (pos + count) / pageSize - pos / pageSize) (i := pos / pageSize + 1) (n := n)
    (b := splice b off (segment t.byte pos n)) (Nat.le_of_lt (Nat.mod_lt _ (by decide)))
    (by have := Nat.div_le_div_right (c := pageSize) (Nat.le_add_right pos count); omega)
    (by rw [hunseen.length]; exact hstop) (by omega)
  refine ⟨n, t'', hchunk, by omega, ?_, hunseen.trans hunseen'⟩
  have hrest : rest ((pos + count) % pageSize) ((pos + count) / pageSize - pos / pageSize) =
      count - n := by omega
  have hsegment : segment t'.byte ((pos / pageSize + 1) * pageSize) (count - n) =
      segment t.byte (pos + n) (count - n) := by
    by_cases hone : pos / pageSize = (pos + count) / pageSize
    · rw [if_pos hone] at hchunk
      rw [hchunk, Nat.sub_self, segment_zero, segment_zero]
    · rw [hunseen.byte, ← hnext hone]
  have hcast : (((pos + count) / pageSize : Nat) - (pos / pageSize : Nat) : Int).toNat =
      (pos + count) / pageSize - pos / pageSize := Int.toNat_sub _ _
  unfold readBytes
  rw [bind_get, if_neg (by omega), hlen, getPageNumber_eq (by omega), getPageNumber_eq (by omega),
    ← hn, bind_ok hget, hcopy, hcast]
  show (readPages _ _ _ ((pos / pageSize + 1 : Nat) : Int) _ n >>= _) t' = _
  rw [bind_ok hread, hsum, hrest, hsegment]
  rfl

/-- The two places that the rest of the bytes can go to are the same where there are no bytes
left after the first page, or the buffer is filled from its start. -/
theorem readBytes_spec (ht : t.Valid) (hpos : pos < t.size) (b : List UInt8) (off len : Nat)
    (hb : off + len ≤ b.length) {count : Nat} (hcount : count = min len (t.size - pos))
    (hsafe : ChunkSafe pos count) (hoff : off = 0 ∨ pos % pageSize + count ≤ pageSize) :
    ∃ t', readBytes pos b off len t =
        .ok ⟨count, splice b off (segment t.byte pos count), pos + count⟩ t' ∧ Unseen t t' := by
  obtain ⟨n, t', hn, hle, hread, hunseen⟩ := readBytes_chunks ht hpos b off len hb hcount hsafe
  refine ⟨t', ?_, hunseen⟩
  have hsplice : splice (splice b off (segment t.byte pos n)) n
      (segment t.byte (pos + n) (count - n)) = splice b off (segment t.byte pos count) := by
    by_cases hrest : count - n = 0
    · rw [hrest, segment_zero, splice_nil, show n = count by omega]
    · have hne : pos / pageSize ≠ (pos + count) / pageSize := by
        intro heq
        rw [if_pos heq] at hn
        omega
      rw [if_neg hne] at hn
      obtain rfl : off = 0 := by omega
      have happend := splice_splice b (s := segment t.byte pos n)
        (t := segment t.byte (pos + n) (count - n)) 0 (by rw [length_segment]; omega)
      rw [length_segment, Nat.zero_add, segment_append, Nat.add_sub_cancel' hle] at happend
      exact happend
  rw [hread, hsplice]

/-- The file is made longer before it is written to. -/
structure Grown (t t' : PageTable) (newSize : Nat) : Prop where
  valid : t'.Valid
  size : t'.size = max t.size newSize
  stored : t'.stored = t.stored
  byte : t'.byte = t.byte
  length : newSize / pageSize < t'.pages.length

theorem grown_resize (ht : t.Valid) {newSize : Nat} (hsmall : newSize < maxSize)
    (hle : t.size ≤ newSize) : ∃ t', resize newSize t = .ok () t' ∧ Grown t t' newSize := by
  obtain ⟨t', hresize, h⟩ := resize_spec ht hsmall
  obtain ⟨hstored, hbyte⟩ := h.grown hle
  refine ⟨t', hresize, h.valid, ?_, hstored, hbyte, ?_⟩
  · rw [h.size]
    omega
  · rw [h.length]
    omega

theorem grown_self (ht : t.Valid) {newSize : Nat} (hpos : 0 < newSize) (hle : newSize ≤ t.size) :
    Grown t t newSize where
  valid := ht
  size := by omega
  stored := rfl
  byte := rfl
  length := by
    have hdiv : newSize / pageSize ≤ t.size / pageSize := Nat.div_le_div_right hle
    rcases ht.length with ⟨-, hzero⟩ | hlength <;> omega

theorem Grown.wrote {t' t'' : PageTable} {seg : List UInt8} (h : Grown t t' (pos + seg.length))
    (h' : Written t' t'' pos seg) : Wrote t t'' pos seg where
  valid := h'.valid
  size := h'.size.trans h.size
  stored := h'.stored.trans h.stored
  byte := by rw [h'.byte, h.byte]

theorem write_spec (ht : t.Valid) (hsmall : pos + 1 < maxSize) (b : UInt8) :
    ∃ t', write pos b t = .ok (pos + 1) t' ∧ Wrote t t' pos [b] := by
  have hstep : ∀ {grown}, Grown t grown (pos + 1) → ∃ t',
      (do
        writePage (getPageNumber pos) (pos % pageSize) [b] 0 1
        return pos + 1 : TableM Nat) grown = .ok (pos + 1) t' ∧ Wrote t t' pos [b] := by
    intro grown hgrown
    have hpage : pos / pageSize < grown.pages.length :=
      Nat.lt_of_le_of_lt (Nat.div_le_div_right (Nat.le_succ pos)) hgrown.length
    obtain ⟨t', hwrite, hwritten⟩ := writePage_spec hgrown.valid hpage (pos % pageSize) [b] 0 1
      (Nat.mod_lt pos (by decide)) (Nat.le_refl 1)
    rw [Nat.div_add_mod'] at hwritten
    refine ⟨t', ?_, hgrown.wrote hwritten⟩
    rw [getPageNumber_eq (by omega), bind_ok hwrite]
    rfl
  unfold write
  rw [bind_get]
  by_cases hpos : pos ≥ t.size
  · obtain ⟨grown, hresize, hgrown⟩ := grown_resize ht hsmall (Nat.le_succ_of_le hpos)
    rw [if_pos hpos, bind_ok hresize]
    exact hstep hgrown
  · rw [if_neg hpos]
    exact hstep (grown_self ht (by omega) (by omega))

theorem writeBytes_spec (ht : t.Valid) (b : List UInt8) (off len : Nat) (hlen : 0 < len)
    (hsmall : pos + len < maxSize) (hb : off + len ≤ b.length) (hsafe : ChunkSafe pos len) :
    ∃ t', writeBytes pos b off len t = .ok (pos + len) t' ∧
      Wrote t t' pos ((b.drop off).take len) := by
  have hseg : ((b.drop off).take len).length = len := by
    rw [List.length_take, List.length_drop]
    omega
  obtain ⟨n, hn⟩ : ∃ n, n = firstChunk pos len := ⟨_, rfl⟩
  have hchunk := firstChunk_eq hsmall hsafe
  rw [← hn] at hchunk
  obtain ⟨hpage, hsum, hnext⟩ := chunks hchunk
  have hstep : ∀ {grown}, Grown t grown (pos + len) → ∃ t',
      (do
        writePage (getPageNumber pos) (pos % pageSize) b off n
        let n ← writePages (getPageNumber (pos + len)) ((pos + len) % pageSize) b off
          (getPageNumber (pos + len) - getPageNumber pos).toNat (getPageNumber pos + 1) n
        return pos + n : TableM Nat) grown = .ok (pos + len) t' ∧
        Wrote t t' pos ((b.drop off).take len) := by
    intro grown hgrown
    have hstart : pos / pageSize < grown.pages.length :=
      Nat.lt_of_le_of_lt (Nat.div_le_div_right (Nat.le_add_right pos len)) hgrown.length
    obtain ⟨t', hwrite, hwritten⟩ := writePage_spec hgrown.valid hstart (pos % pageSize) b off n
      hpage (by omega)
    obtain ⟨t'', hwrite', hwritten'⟩ := writePages_spec hwritten.valid
      ((pos + len) / pageSize) ((pos + len) % pageSize) b off
      (k := (pos + len) / pageSize - pos / pageSize) (i := pos / pageSize + 1) (n := n)
      (Nat.le_of_lt (Nat.mod_lt _ (by decide)))
      (by have := Nat.div_le_div_right (c := pageSize) (Nat.le_add_right pos len); omega)
      (by rw [hwritten.length]; exact hgrown.length) (by omega)
    have hn' : ((b.drop off).take n).length = n := by
      rw [List.length_take, List.length_drop]
      omega
    have hrest : Written t' t'' (pos + ((b.drop off).take n).length) ((b.drop (off + n)).take
        (rest ((pos + len) % pageSize) ((pos + len) / pageSize - pos / pageSize))) := by
      rw [hn']
      by_cases heq : pos / pageSize = (pos + len) / pageSize
      · rw [heq, Nat.sub_self] at hwritten' ⊢
        exact hwritten'.nil_pos _
      · rw [hnext heq]
        exact hwritten'
    rw [Nat.div_add_mod'] at hwritten
    have hwhole := hwritten.append hrest
    rw [← List.drop_drop, ← List.take_add, hsum] at hwhole
    refine ⟨t'', ?_, Grown.wrote (hseg.symm ▸ hgrown) hwhole⟩
    have hcast : (((pos + len) / pageSize : Nat) - (pos / pageSize : Nat) : Int).toNat =
        (pos + len) / pageSize - pos / pageSize := Int.toNat_sub _ _
    rw [getPageNumber_eq (by omega), getPageNumber_eq hsmall, bind_ok hwrite, hcast]
    show (writePages _ _ _ _ _ ((pos / pageSize + 1 : Nat) : Int) n >>= _) t' = _
    rw [bind_ok hwrite', hsum]
    rfl
  unfold writeBytes
  rw [bind_get]
  by_cases hpos : pos + len ≥ t.size
  · obtain ⟨grown, hresize, hgrown⟩ := grown_resize ht hsmall hpos
    rw [if_pos hpos, bind_ok hresize, ← hn]
    exact hstep hgrown
  · rw [if_neg hpos, ← hn]
    exact hstep (grown_self ht (by omega) (by omega))

end MethodSpecs

section Constructor

variable {stored : Stored}

theorem getElem?_ofStored (stored : Stored) (n : Nat) :
    (PageTable.ofStored stored).pages[n]? = none ∨
      (PageTable.ofStored stored).pages[n]? = some ⟨none, false⟩ := by
  unfold PageTable.ofStored
  rw [List.getElem?_replicate]
  split
  · exact Or.inr rfl
  · exact Or.inl rfl

theorem bytes_ofStored (stored : Stored) (n : Nat) :
    (PageTable.ofStored stored).bytes n = stored.bytes n := by
  unfold PageTable.bytes PageTable.content
  rcases getElem?_ofStored stored n with hnone | hpage
  · rw [hnone]
    rfl
  · rw [hpage]
    rfl

theorem byte_ofStored (stored : Stored) (i : Nat) : (PageTable.ofStored stored).byte i =
    (stored.bytes (i / pageSize)).val.getD (i % pageSize) 0 := by
  rw [PageTable.byte, bytes_ofStored]

theorem length_ofStored (hsize : stored.size.getD 0 < maxSize) :
    (PageTable.ofStored stored).pages.length = stored.size.getD 0 / pageSize + 1 := by
  obtain ⟨n, hn⟩ : ∃ n, n = stored.size.getD 0 / pageSize := ⟨_, rfl⟩
  have hdiv : n < 2147483647 := hn ▸ Nat.div_lt_of_lt_mul hsize
  have hinner : toInt n = n := toInt_eq (by omega) (by omega)
  have houter : toInt (n + 1) = n + 1 := toInt_eq (by omega) (by omega)
  unfold PageTable.ofStored
  rw [← hn, List.length_replicate, hinner, houter]
  omega

/-- A FileInfo that is made from records. -/
theorem valid_ofStored (hsize : stored.size.getD 0 < maxSize) :
    (PageTable.ofStored stored).Valid where
  length := Or.inr (length_ofStored hsize)
  small := hsize
  clean n c hn := by
    rcases getElem?_ofStored stored n with hnone | hpage
    · rw [hnone] at hn
      cases hn
    · rw [hpage] at hn
      cases hn
  loaded n hn := by
    rcases getElem?_ofStored stored n with hnone | hpage
    · rw [hnone] at hn
      cases hn
    · rw [hpage] at hn
      cases hn
  dirty := by
    have hzero : (PageTable.ofStored stored).pages.countP Page.dirty = 0 := by
      unfold PageTable.ofStored
      rw [List.countP_replicate]
      rfl
    rw [hzero]
    exact Int.le_refl 0

end Constructor

section Sync

variable {t : PageTable}

theorem bytes_commit_page (s : Stored) (n : Nat) (c : PageBytes) (m : Nat) :
    (s.commit (.page n c)).bytes m = if m = n then c else s.bytes m := by
  show (if m = n then some c else s.page m).getD emptyPage = _
  split <;> rfl

/-- A dirty page is committed. -/
theorem syncPage_spec (ht : t.Valid) {i : Nat} {c : PageBytes}
    (hpage : t.pages[i]? = some ⟨some c, true⟩) {t' : PageTable}
    (ht' : t' = { t with
      pages := t.pages.set i ⟨some c, false⟩
      dirty := t.dirty - 1
      stored := t.stored.commit (.page i c) }) :
    t'.Valid ∧ SameView t t' ∧ c = t.bytes i := by
  have hi : i < t.pages.length := (List.getElem?_eq_some_iff.mp hpage).1
  have hc : t.bytes i = c := by
    rw [PageTable.bytes, PageTable.content, hpage]
    rfl
  have hpages : ∀ m, t'.pages[m]? = if m = i then some ⟨some c, false⟩ else t.pages[m]? := by
    intro m
    rw [ht']
    show (t.setPage i ⟨some c, false⟩ t.loaded t.dirty).pages[m]? = _
    exact getElem?_setPage hi m
  have hstored : ∀ m, t'.stored.bytes m = if m = i then c else t.stored.bytes m := by
    intro m
    rw [ht']
    exact bytes_commit_page t.stored i c m
  have hlength : t'.pages.length = t.pages.length := by
    rw [ht']
    exact List.length_set
  refine ⟨⟨?_, ?_, ?_, ?_, ?_⟩, ⟨?_, hlength, ?_⟩, hc.symm⟩
  · rcases ht.length with ⟨hnil, -⟩ | hold
    · rw [hnil] at hi
      cases hi
    · right
      rw [hlength, ht']
      exact hold
  · rw [ht']
    exact ht.small
  · intro m c' hm
    rw [hpages] at hm
    rw [hstored]
    split at hm
    · rename_i heq
      rw [if_pos heq]
      cases hm
      rfl
    · rename_i hne
      rw [if_neg hne]
      exact ht.clean m c' hm
  · intro m hm
    rw [hpages] at hm
    split at hm
    · cases hm
    · exact ht.loaded m hm
  · have hcount := countP_set_dirty hpage ⟨some c, false⟩
    have hdirty := ht.dirty
    rw [ht']
    show ((t.pages.set i ⟨some c, false⟩).countP Page.dirty : Int) ≤ t.dirty - 1
    rw [hcount]
    simp only [if_true, Bool.false_eq_true, if_false]
    omega
  · rw [ht']
  · intro m
    rw [PageTable.bytes, PageTable.content, hpages, hstored]
    split
    · rename_i heq
      rw [heq, hc]
      rfl
    · rfl

/-- What the loop of sync has done to the table, with the commits it has made. -/
structure Synced (t : PageTable) (r : PageTable × List Commit) : Prop where
  valid : r.1.Valid
  view : SameView t r.1
  stored : r.1.stored = r.2.foldl Stored.commit t.stored
  clean : ∀ (n : Nat) (page : Page), r.1.pages[n]? = some page → page.dirty = false
  pages : ∀ x ∈ r.2, ∃ n, x = .page n (t.bytes n)

theorem syncBelow_spec (ht : t.Valid) (i : Nat) (hclean : ∀ (n : Nat) (page : Page), i ≤ n →
    t.pages[n]? = some page → page.dirty = false) : Synced t (syncBelow i t) := by
  induction i generalizing t with
  | zero =>
    exact ⟨ht, SameView.refl t, rfl, fun n page =>
      hclean n page (Nat.zero_le n), by simp [syncBelow]⟩
  | succ i ih =>
    have hskip : (∀ page, t.pages[i]? = some page → page.dirty = false) →
        Synced t (syncBelow i t) := by
      intro hpage
      apply ih ht
      intro n page hn hget
      rcases Nat.lt_or_eq_of_le hn with hlt | rfl
      · exact hclean n page hlt hget
      · exact hpage page hget
    unfold syncBelow
    split
    · split
      · rename_i c hpage
        obtain ⟨hvalid, hview, hc⟩ := syncPage_spec ht hpage rfl
        have hi : i < t.pages.length := (List.getElem?_eq_some_iff.mp hpage).1
        have hrest := ih hvalid (by
          intro n page hn hget
          have hset : (t.pages.set i ⟨some c, false⟩)[n]? =
              if n = i then some ⟨some c, false⟩ else t.pages[n]? := by
            show (t.setPage i ⟨some c, false⟩ t.loaded t.dirty).pages[n]? = _
            exact getElem?_setPage hi n
          rw [hset] at hget
          split at hget
          · cases hget
            rfl
          · exact hclean n page (by omega) hget)
        refine ⟨hrest.valid, hview.trans hrest.view, hrest.stored, hrest.clean, ?_⟩
        intro x hx
        rcases List.mem_cons.mp hx with rfl | hx
        · exact ⟨i, by rw [← hc]⟩
        · obtain ⟨n, hn⟩ := hrest.pages x hx
          exact ⟨n, by rw [hn, hview.bytes]⟩
      · rename_i hpage
        apply hskip
        rintro ⟨content, dirty⟩ hget
        cases dirty with
        | false => rfl
        | true =>
          cases content with
          | none => exact absurd hget (ht.loaded i)
          | some c => exact absurd hget (hpage c)
    · -- Without a dirty page left to count, every page is clean.
      rename_i hcount
      have hdirty := ht.dirty
      have hzero : t.pages.countP Page.dirty = 0 := by omega
      refine ⟨ht, SameView.refl t, rfl, ?_, by simp⟩
      intro n page hget
      have := List.countP_eq_zero.mp hzero page (List.mem_of_getElem? hget)
      simpa using this

/-- The records are the whole file after sync, and its commits lead to them. -/
structure Durable (t : PageTable) (r : PageTable × List Commit) : Prop where
  valid : r.1.Valid
  view : SameView t r.1
  stored : r.1.stored = r.2.foldl Stored.commit t.stored
  size : r.1.stored.size = some t.size
  bytes : ∀ n, r.1.stored.bytes n = t.bytes n
  commits : ∃ pages, r.2 = pages ++ [.size t.size] ∧ ∀ x ∈ pages, ∃ n, x = .page n (t.bytes n)

/-- A table without dirty pages is as its records are. -/
theorem PageTable.Valid.bytes_stored (ht : t.Valid)
    (hclean : ∀ (n : Nat) (page : Page), t.pages[n]? = some page → page.dirty = false) (n : Nat) :
    t.stored.bytes n = t.bytes n := by
  rw [PageTable.bytes, PageTable.content]
  cases hpage : t.pages[n]? with
  | none => rfl
  | some page =>
    obtain ⟨content, dirty⟩ := page
    obtain rfl : dirty = false := hclean n _ hpage
    cases content with
    | none => rfl
    | some c => exact ht.clean n c hpage

/-- sync clears pages after its loop, and commits the size last. -/
theorem sync_eq (t : PageTable) : sync t =
    ({ clearedTo maxClearPagesCached (syncBelow t.pages.length t).1 with
        stored := (clearedTo maxClearPagesCached (syncBelow t.pages.length t).1).stored.commit
          (.size (clearedTo maxClearPagesCached (syncBelow t.pages.length t).1).size) },
      (syncBelow t.pages.length t).2 ++
        [.size (clearedTo maxClearPagesCached (syncBelow t.pages.length t).1).size]) := rfl

theorem sync_spec (ht : t.Valid) : Durable t (sync t) := by
  have hloop : Synced t (syncBelow t.pages.length t) := by
    apply syncBelow_spec ht
    intro n page hn hget
    rw [List.getElem?_eq_none hn] at hget
    cases hget
  rw [sync_eq]
  obtain ⟨pages, hpages⟩ : ∃ pages, pages = syncBelow t.pages.length t := ⟨_, rfl⟩
  rw [← hpages] at hloop ⊢
  have hunseen := unseen_clearedTo hloop.valid maxClearPagesCached
  have hflag := dirty_clearedTo maxClearPagesCached pages.1
  obtain ⟨cleared, hcleared⟩ : ∃ cleared, cleared = clearedTo maxClearPagesCached pages.1 :=
    ⟨_, rfl⟩
  rw [← hcleared] at hunseen hflag ⊢
  have hview := hloop.view.trans hunseen.toSameView
  have hclean : ∀ (n : Nat) (page : Page), cleared.pages[n]? = some page → page.dirty = false := by
    intro n page hget
    have hsame := hflag n
    rw [hget] at hsame
    obtain ⟨page', hget', heq⟩ := Option.map_eq_some_iff.mp hsame.symm
    rw [← heq]
    exact hloop.clean n page' hget'
  rw [hview.size]
  refine ⟨⟨hunseen.valid.length, hunseen.valid.small, hunseen.valid.clean, hunseen.valid.loaded,
    hunseen.valid.dirty⟩, ⟨hview.size, hview.length, hview.bytes⟩, ?_, rfl, ?_,
    pages.2, rfl, hloop.pages⟩
  · rw [List.foldl_append, ← hloop.stored, ← hunseen.stored]
    rfl
  · intro n
    exact (hunseen.valid.bytes_stored hclean n).trans (hview.bytes n)

end Sync

end Rhodes.PagedFile
