import Rhodes.PageOutcomes

/-!
The dirty pages of a file, for sizes of every magnitude: a page that is dirty is loaded and
counted, whatever the methods do and however they end. A read leaves a dirty page with its
content, a write leaves it dirty, and a page is lost only with its place in the file; sync
commits all of them.
-/
namespace Rhodes.PagedFile

open Arrays Outcomes

/-- The page has a content that its record need not have. -/
def PageTable.Dirty (t : PageTable) (n : Nat) (c : PageBytes) : Prop :=
  t.pages[n]? = some ⟨some c, true⟩

structure PageTable.Tracked (t : PageTable) : Prop where
  loaded : ∀ n : Nat, t.pages[n]? ≠ some (Page.mk none true)
  dirty : (t.pages.countP Page.dirty : Int) ≤ t.dirty

/-- The dirty pages have their contents still. -/
structure DirtyKept (t t' : PageTable) : Prop where
  tracked : t'.Tracked
  size : t'.size = t.size
  length : t'.pages.length = t.pages.length
  dirty : ∀ n c, t.Dirty n c → t'.Dirty n c

def KeepsDirty (t t' : PageTable) : Prop := t.Tracked → DirtyKept t t'

/-- The dirty pages are dirty still. -/
structure Overwritten (t t' : PageTable) : Prop where
  tracked : t'.Tracked
  length : t'.pages.length = t.pages.length
  dirty : ∀ n c, t.Dirty n c → ∃ c', t'.Dirty n c'

def Overwrites (t t' : PageTable) : Prop := t.Tracked → Overwritten t t'

/-- The dirty pages are dirty still, or have no place in the file. -/
structure Trimmed (t t' : PageTable) : Prop where
  tracked : t'.Tracked
  dirty : ∀ n c, t.Dirty n c → (∃ c', t'.Dirty n c') ∨ t'.pages.length ≤ n

def Trims (t t' : PageTable) : Prop := t.Tracked → Trimmed t t'

instance : Std.Refl KeepsDirty := ⟨fun _ ht => ⟨ht, rfl, rfl, fun _ _ h => h⟩⟩

instance : IsTrans PageTable KeepsDirty := by
  refine ⟨?_⟩
  intro t t' t'' h h' ht
  have hfirst := h ht
  have hsecond := h' hfirst.tracked
  exact ⟨hsecond.tracked, hsecond.size.trans hfirst.size, hsecond.length.trans hfirst.length,
    fun n c hn => hsecond.dirty n c (hfirst.dirty n c hn)⟩

instance : Std.Refl Overwrites := ⟨fun _ ht => ⟨ht, rfl, fun _ c h => ⟨c, h⟩⟩⟩

instance : IsTrans PageTable Overwrites := by
  refine ⟨?_⟩
  intro t t' t'' h h' ht
  have hfirst := h ht
  have hsecond := h' hfirst.tracked
  refine ⟨hsecond.tracked, hsecond.length.trans hfirst.length, ?_⟩
  intro n c hn
  obtain ⟨c', hc'⟩ := hfirst.dirty n c hn
  exact hsecond.dirty n c' hc'

instance : Std.Refl Trims := ⟨fun _ ht => ⟨ht, fun _ c h => .inl ⟨c, h⟩⟩⟩

section Relations

variable {t t' t'' : PageTable}

theorem KeepsDirty.overwrites (h : KeepsDirty t t') : Overwrites t t' := fun ht =>
  ⟨(h ht).tracked, (h ht).length, fun n c hn => ⟨c, (h ht).dirty n c hn⟩⟩

theorem Overwrites.trims (h : Overwrites t t') : Trims t t' := fun ht =>
  ⟨(h ht).tracked, fun n c hn => .inl ((h ht).dirty n c hn)⟩

theorem Trims.overwrites (h : Trims t t') (h' : Overwrites t' t'') : Trims t t'' := by
  intro ht
  have hover := h' (h ht).tracked
  refine ⟨hover.tracked, ?_⟩
  intro n c hn
  rcases (h ht).dirty n c hn with ⟨c', hdirty⟩ | hlength
  · exact .inl (hover.dirty n c' hdirty)
  · rw [hover.length]
    exact .inr hlength

end Relations

section SetPage

variable {t : PageTable} {n : Nat}

/-- One page is replaced. -/
theorem PageTable.Tracked.setPage (ht : t.Tracked) {old : Page} (hpage : t.pages[n]? = some old)
    {page : Page} (hloaded : page ≠ ⟨none, true⟩) {loaded dirty : Int}
    (hdirty : t.dirty - (if old.dirty then 1 else 0) + (if page.dirty then 1 else 0) ≤ dirty) :
    (t.setPage n page loaded dirty).Tracked := by
  have hn : n < t.pages.length := (List.getElem?_eq_some_iff.mp hpage).1
  have hcount := countP_set_dirty hpage page
  have htable := ht.dirty
  refine ⟨?_, ?_⟩
  · intro m hm
    rw [getElem?_setPage hn] at hm
    split at hm
    · exact hloaded (Option.some.inj hm)
    · exact ht.loaded m hm
  · show ((t.pages.set n page).countP Page.dirty : Int) ≤ dirty
    rw [hcount]
    omega

/-- A page that is not dirty is unloaded or read. -/
theorem keepsDirty_setPage {content : Option PageBytes}
    (hpage : t.pages[n]? = some ⟨content, false⟩)
    (content' : Option PageBytes) (loaded : Int) :
    KeepsDirty t (t.setPage n ⟨content', false⟩ loaded t.dirty) := by
  intro ht
  refine ⟨ht.setPage hpage (by simp) (by simp), rfl, List.length_set, ?_⟩
  intro m c hm
  show _ = _
  rw [getElem?_setPage (List.getElem?_eq_some_iff.mp hpage).1]
  split
  · rename_i heq
    rw [PageTable.Dirty, heq, hpage] at hm
    cases hm
  · exact hm

theorem overwrites_setPage (n : Nat) {page : Page} (hpage : t.pages[n]? = some page)
    (c : PageBytes) :
    Overwrites t (setPageDirty n (setContent n c t)) := by
  intro ht
  obtain ⟨content, dirty⟩ := page
  rw [setPageDirty_setContent hpage]
  refine ⟨?_, List.length_set, ?_⟩
  · refine ht.setPage hpage (by simp) ?_
    cases dirty with
    | true => simp
    | false => simp
  · intro m c' hm
    unfold PageTable.Dirty
    rw [getElem?_setPage (List.getElem?_eq_some_iff.mp hpage).1]
    split
    · exact ⟨c, rfl⟩
    · exact ⟨c', hm⟩

/-- A FileInfo that is made from records of any size. -/
theorem tracked_ofStored (stored : Stored) : (PageTable.ofStored stored).Tracked := by
  refine ⟨?_, ?_⟩
  · intro n hn
    rcases getElem?_ofStored stored n with hnone | hpage
    · rw [hnone] at hn
      cases hn
    · rw [hpage] at hn
      cases hn
  · unfold PageTable.ofStored
    rw [List.countP_replicate]
    exact Int.le_refl 0

end SetPage

section Access

theorem keepsDirty_unloadBelow (t : PageTable) (i : Nat) (needToClear : Int) :
    KeepsDirty t (unloadBelow i needToClear t) := by
  induction i generalizing t needToClear with
  | zero => exact refl_of _ _
  | succ i ih =>
    unfold unloadBelow
    split
    · split
      · rename_i content hpage
        exact trans_of KeepsDirty (keepsDirty_setPage hpage none (t.loaded - 1)) (ih _ _)
      · exact ih _ _
    · exact refl_of _ _

theorem keepsDirty_clearedTo (keep : Int) (t : PageTable) : KeepsDirty t (clearedTo keep t) := by
  unfold clearedTo
  split
  · exact keepsDirty_unloadBelow _ _ _
  · exact refl_of _ _

theorem keepsDirty_loadPage {t : PageTable} {n : Nat} (hpage : t.pages[n]? = some ⟨none, false⟩) :
    KeepsDirty t (loadPage n t) := by
  obtain ⟨content, hpage', hload⟩ := loadPage_eq hpage
  rw [hload]
  exact trans_of KeepsDirty (keepsDirty_clearedTo _ t) (keepsDirty_setPage hpage' _ _)

theorem keepsDirty_getPage (n : Int) : Moves KeepsDirty (getPage n) := by
  intro t ht
  rcases getPage_cases n t with herror | ⟨m, -, ⟨c, dirty, -, hok⟩ | ⟨dirty, hpage, hok⟩⟩
  · rw [herror]
    exact refl_of KeepsDirty t ht
  · rw [hok]
    exact refl_of KeepsDirty t ht
  · rw [hok]
    cases dirty with
    | true => exact absurd hpage (ht.loaded m)
    | false => exact keepsDirty_loadPage hpage ht

theorem keepsDirty_read (pos : Nat) : Moves KeepsDirty (read pos) :=
    moves_read keepsDirty_getPage pos

theorem keepsDirty_readBytes (pos : Nat) (b : List UInt8) (off len : Nat) :
    Moves KeepsDirty (readBytes pos b off len) := moves_readBytes keepsDirty_getPage pos b off len

theorem overwrites_writePage (i : Int) (dstPos : Nat) (b : List UInt8) (off n : Nat) :
    Moves Overwrites (writePage i dstPos b off n) :=
  moves_writePage (fun n => (keepsDirty_getPage n).mono (fun _ _ h => h.overwrites))
    (fun _ n _ c hpage => overwrites_setPage n hpage c) i dstPos b off n

end Access

section Resize

/-- The pages up to the last one are deleted. -/
theorem trims_deletePages (t : PageTable) (start : Int) :
    Trims t (final (deletePages start (t.pages.length - 1) t)) := by
  intro ht
  unfold deletePages
  by_cases hneg : start < 0
  · simp only [if_pos hneg, final_error]
    exact ⟨⟨ht.loaded, ht.dirty⟩, fun n c hn => .inl ⟨c, hn⟩⟩
  · have hdrop : t.pages.drop (t.pages.length - 1 + 1 : Int).toNat = [] :=
      List.drop_eq_nil_of_le (by omega)
    simp only [if_neg hneg, final_ok, hdrop, List.append_nil]
    refine ⟨⟨?_, ?_⟩, ?_⟩
    · intro n hn
      rw [List.getElem?_take] at hn
      split at hn
      · exact ht.loaded n hn
      · cases hn
    · have hdirty := ht.dirty
      have hsublist := (List.take_sublist start.toNat t.pages).countP_le (p := Page.dirty)
      show ((t.pages.take _).countP Page.dirty : Int) ≤ t.dirty
      omega
    · intro n c hn
      by_cases hlt : n < start.toNat
      · exact .inl ⟨c, (List.getElem?_take_of_lt hlt).trans hn⟩
      · refine .inr ?_
        rw [List.length_take]
        omega

/-- Clean pages come in behind the others. -/
theorem trims_append {t t' : PageTable} (h : Trims t t') (newSize : Nat) {k : Nat}
    (hlength : 0 < k → t'.pages.length = t.pages.length) :
    Trims t { t' with size := newSize, pages := t'.pages ++ List.replicate k ⟨none, false⟩ } := by
  intro ht
  obtain ⟨⟨hloaded, hcount⟩, hdirty⟩ := h ht
  refine ⟨⟨?_, ?_⟩, ?_⟩
  · intro n hn
    rw [List.getElem?_append] at hn
    split at hn
    · exact hloaded n hn
    · rw [List.getElem?_replicate] at hn
      split at hn <;> cases hn
  · show ((t'.pages ++ _).countP Page.dirty : Int) ≤ t'.dirty
    rw [List.countP_append, List.countP_replicate]
    simpa using hcount
  · intro n c hn
    have hlt : n < t.pages.length := (List.getElem?_eq_some_iff.mp hn).1
    rcases hdirty n c hn with ⟨c', hc'⟩ | hcut
    · have hlt' : n < t'.pages.length := (List.getElem?_eq_some_iff.mp hc').1
      exact .inl ⟨c', (List.getElem?_append_left hlt').trans hc'⟩
    · refine .inr ?_
      rw [List.length_append, List.length_replicate]
      omega

theorem trims_resize (newSize : Nat) : Moves Trims (resize newSize) := by
  intro t
  unfold resize
  rw [bind_get]
  obtain ⟨n, hn⟩ : ∃ n, n = toInt (newSize / pageSize + 1 : Nat) := ⟨_, rfl⟩
  rw [← hn]
  by_cases hless : n < t.pages.length
  · have hdelete := trims_deletePages t n
    rw [if_pos hless]
    show Trims t (final (EStateM.bind _ _ t))
    unfold EStateM.bind
    cases hres : deletePages n (t.pages.length - 1) t with
    | error e t' =>
      rw [hres] at hdelete
      exact hdelete
    | ok a t' =>
      rw [hres] at hdelete
      exact trims_append hdelete newSize (fun hpos => by omega)
  · rw [if_neg hless]
    exact trims_append (refl_of Trims t) newSize (fun _ => rfl)

theorem trims_write (pos : Nat) (b : UInt8) : Moves Trims (write pos b) :=
  moves_write (trims_resize _) (fun _ _ _ _ => overwrites_writePage _ _ _ _ _)
    (fun _ _ => Overwrites.trims) (fun _ _ => id) (fun _ _ _ => Trims.overwrites)

theorem trims_writeBytes (pos : Nat) (b : List UInt8) (off len : Nat) :
    Moves Trims (writeBytes pos b off len) :=
  moves_writeBytes (trims_resize _) (fun _ _ _ _ => overwrites_writePage _ _ _ _ _)
    (fun _ _ => Overwrites.trims) (fun _ _ => id) (fun _ _ _ => Trims.overwrites) off

end Resize

/-- No page is dirty any more, and those that were are committed. -/
structure Flushed (t : PageTable) (r : PageTable × List Commit) : Prop where
  tracked : r.1.Tracked
  size : r.1.size = t.size
  clean : ∀ page ∈ r.1.pages, page.dirty = false
  commits : ∀ n c, t.Dirty n c → .page n c ∈ r.2

section Sync

variable {t : PageTable}

/-- Without a dirty page there is nothing to do. -/
theorem flushed_self (ht : t.Tracked) (hclean : ∀ page ∈ t.pages, page.dirty = false) :
    Flushed t (t, []) := by
  refine ⟨ht, rfl, hclean, ?_⟩
  intro n c hn
  cases hclean _ (List.mem_of_getElem? hn)

/-- The pages from the index on are clean, and so are the others after the loop. -/
theorem flushed_syncBelow (ht : t.Tracked) (i : Nat) (hclean : ∀ (n : Nat) (page : Page), i ≤ n →
    t.pages[n]? = some page → page.dirty = false) : Flushed t (syncBelow i t) := by
  induction i generalizing t with
  | zero =>
    refine flushed_self ht ?_
    intro page hpage
    obtain ⟨n, hn⟩ := List.getElem?_of_mem hpage
    exact hclean n page (Nat.zero_le n) hn
  | succ i ih =>
    unfold syncBelow
    split
    · split
      · rename_i c hpage
        have hlt : i < t.pages.length := (List.getElem?_eq_some_iff.mp hpage).1
        have hstep : (t.setPage i ⟨some c, false⟩ t.loaded (t.dirty - 1)).Tracked :=
          ht.setPage hpage (by simp) (by simp)
        obtain ⟨u, hu⟩ : ∃ u : PageTable, u = { t with
            pages := t.pages.set i ⟨some c, false⟩
            dirty := t.dirty - 1
            stored := t.stored.commit (.page i c) } := ⟨_, rfl⟩
        have hpages : ∀ m, u.pages[m]? = if m = i then some ⟨some c, false⟩ else t.pages[m]? := by
          intro m
          rw [hu]
          show (t.setPage i ⟨some c, false⟩ t.loaded t.dirty).pages[m]? = _
          exact getElem?_setPage hlt m
        have hrest : Flushed u (syncBelow i u) := by
          refine ih (hu ▸ ⟨hstep.loaded, hstep.dirty⟩) ?_
          intro n page hn hget
          rw [hpages] at hget
          split at hget
          · cases hget
            rfl
          · exact hclean n page (by omega) hget
        rw [← hu]
        refine ⟨hrest.tracked, hrest.size.trans (by rw [hu]), hrest.clean, ?_⟩
        intro n c' hn
        by_cases heq : n = i
        · rw [PageTable.Dirty, heq, hpage] at hn
          cases hn
          rw [heq]
          exact List.mem_cons_self
        · refine List.mem_cons_of_mem _ (hrest.commits n c' ?_)
          rw [PageTable.Dirty, hpages, if_neg heq]
          exact hn
      · rename_i hpage
        refine ih ht ?_
        intro n page hn hget
        by_cases heq : n = i
        · subst heq
          obtain ⟨content, dirty⟩ := page
          cases dirty with
          | false => rfl
          | true =>
            cases content with
            | none => exact absurd hget (ht.loaded n)
            | some c => exact absurd hget (hpage c)
        · exact hclean n page (by omega) hget
    · -- Every dirty page is counted, so that there is none.
      rename_i hcount
      have hdirty := ht.dirty
      have hzero : t.pages.countP Page.dirty = 0 := by omega
      refine flushed_self ht ?_
      intro page hpage
      simpa using List.countP_eq_zero.mp hzero page hpage

theorem flushed_sync (ht : t.Tracked) : Flushed t (sync t) ∧
    (sync t).1.stored.size = some (sync t).1.size := by
  have hloop : Flushed t (syncBelow t.pages.length t) := by
    refine flushed_syncBelow ht _ ?_
    intro n page hn hget
    rw [List.getElem?_eq_none hn] at hget
    cases hget
  rw [sync_eq]
  obtain ⟨pages, hpages⟩ : ∃ pages, pages = syncBelow t.pages.length t := ⟨_, rfl⟩
  rw [← hpages] at hloop ⊢
  have hclear := keepsDirty_clearedTo maxClearPagesCached pages.1 hloop.tracked
  have hflag := dirty_clearedTo maxClearPagesCached pages.1
  refine ⟨⟨⟨hclear.tracked.loaded, hclear.tracked.dirty⟩, hclear.size.trans hloop.size,
    ?_, ?_⟩, rfl⟩
  · intro page hpage
    obtain ⟨n, hn⟩ := List.getElem?_of_mem hpage
    have hsame := hflag n
    rw [hn] at hsame
    obtain ⟨page', hget, heq⟩ := Option.map_eq_some_iff.mp hsame.symm
    rw [← heq]
    exact hloop.clean page' (List.mem_of_getElem? hget)
  · intro n c hn
    exact List.mem_append_left _ (hloop.commits n c hn)

end Sync

end Rhodes.PagedFile
