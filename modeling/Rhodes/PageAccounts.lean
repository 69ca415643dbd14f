import Rhodes.FileCalls

/-!
The two counters of the page cache. m_loaded is the number of pages with a content and m_dirty the
number of dirty pages as long as unloadClearPages does not come to a page without a content, no
such page is made dirty, and the pages that are cut off are clean and all of them loaded.
-/
namespace Rhodes.PageAccounts

open Arrays PagedFile FileCalls Outcomes

def hasContent (p : Page) : Bool := p.content.isSome

def isClean (p : Page) : Bool := !p.dirty

structure Accounted (t : PageTable) : Prop where
  loaded : t.loaded = t.pages.countP hasContent
  dirty : t.dirty = t.pages.countP Page.dirty
  held : ∀ (n : Nat) (p : Page), t.pages[n]? = some p → p.dirty = true → hasContent p = true

/-- No more than MAX_CLEAR_PAGES_CACHED clean pages have a content. -/
def FewClean (t : PageTable) : Prop :=
  (t.pages.countP (fun p => hasContent p && isClean p) : Int) ≤ maxClearPagesCached

/-- A method of FileInfo. -/
inductive Op where
  | getPage (n : Int)
  | setPageDirty (n : Nat)
  | unloadClearPages (needToClear : Int)
  | setSize (newSize : Nat)
  | deletePages (start stop : Int)
  | sync
  | delete

/-- The arrays take the copies of deletePages: also where start is behind stop + 1, the pages
between the two are then twice in the new array. -/
def Copies (t : PageTable) (start stop : Int) : Prop :=
  0 ≤ start ∧ start ≤ t.pages.length ∧ -1 ≤ stop ∧ stop < t.pages.length

instance (t : PageTable) (start stop : Int) : Decidable (Copies t start stop) :=
  inferInstanceAs (Decidable (_ ∧ _ ∧ _ ∧ _))

/-- The table after the method, also where it throws. -/
def step (t : PageTable) : Op → PageTable
  | .getPage n => final (PagedFile.getPage n t)
  | .setPageDirty n => PagedFile.setPageDirty n t
  | .unloadClearPages needToClear => PagedFile.unloadClearPages needToClear t
  | .setSize newSize => final (resize newSize t)
  | .deletePages start stop =>
    if Copies t start stop then final (PagedFile.deletePages start stop t)
    else { t with stored := t.stored.destroyPages start stop }
  | .sync => (PagedFile.sync t).1
  | .delete => deleted t

def run (t : PageTable) (ops : List Op) : PageTable := ops.foldl step t

/-- The loop of unloadClearPages has cleared its number of clean pages before it comes to one
without a content. -/
def ClearsLoaded (pages : List Page) (needToClear : Int) : Prop :=
  ∀ n < pages.length, pages[n]?.all hasContent = false →
    needToClear ≤ (pages.drop (n + 1)).countP isClean

/-- The pages that go are clean, and all of them are loaded or none of those that stay. -/
def CutsEven (cut kept : List Page) : Prop :=
  (∀ p ∈ cut, p.dirty = false) ∧
    ((∀ p ∈ cut, hasContent p = true) ∨ ∀ p ∈ kept, hasContent p = false)

/-- What a call has to find. -/
def Meets (t : PageTable) : Op → Prop
  | .getPage n => 0 ≤ n → t.pages[n.toNat]?.all hasContent = false →
      ClearsLoaded t.pages (t.loaded - t.dirty - (maxClearPagesCached - 1))
  | .setPageDirty n => t.pages[n]?.all hasContent = true
  | .unloadClearPages needToClear => ClearsLoaded t.pages (min needToClear t.loaded)
  | .setSize newSize => 0 ≤ toInt (newSize / pageSize + 1 : Nat) →
      CutsEven (t.pages.drop (toInt (newSize / pageSize + 1 : Nat)).toNat)
        (t.pages.take (toInt (newSize / pageSize + 1 : Nat)).toNat)
  | .deletePages start stop => Copies t start stop → start ≤ stop + 1 ∧
      CutsEven ((t.pages.drop start.toNat).take (stop + 1 - start).toNat)
        (t.pages.take start.toNat ++ t.pages.drop (stop + 1).toNat)
  | .sync => ClearsLoaded (t.pages.map (fun p => { p with dirty := false }))
      (t.loaded - maxClearPagesCached)
  | .delete => True

def MetAll : List Op → PageTable → Prop
  | [], _ => True
  | op :: ops, t => Meets t op ∧ MetAll ops (step t op)

instance (pages : List Page) (needToClear : Int) : Decidable (ClearsLoaded pages needToClear) :=
  inferInstanceAs (Decidable (∀ n < pages.length, _ → _))

instance (cut kept : List Page) : Decidable (CutsEven cut kept) :=
  inferInstanceAs (Decidable (_ ∧ (_ ∨ _)))

instance (t : PageTable) : DecidablePred (Meets t)
  | .getPage _ => inferInstanceAs (Decidable (_ → _ → ClearsLoaded _ _))
  | .setPageDirty _ => inferInstanceAs (Decidable (_ = _))
  | .unloadClearPages _ => inferInstanceAs (Decidable (ClearsLoaded _ _))
  | .setSize _ => inferInstanceAs (Decidable (_ → CutsEven _ _))
  | .deletePages _ _ => inferInstanceAs (Decidable (_ → _ ∧ CutsEven _ _))
  | .sync => inferInstanceAs (Decidable (ClearsLoaded _ _))
  | .delete => .isTrue trivial

instance decidableMetAll : (ops : List Op) → (t : PageTable) → Decidable (MetAll ops t)
  | [], _ => .isTrue trivial
  | op :: ops, t =>
    have := decidableMetAll ops (step t op)
    inferInstanceAs (Decidable (Meets t op ∧ MetAll ops (step t op)))

section Counting

variable {t : PageTable} {n : Nat}

/-- One page is replaced, and the counters go with it. -/
theorem Accounted.setPage (ht : Accounted t) {old : Page} (hpage : t.pages[n]? = some old)
    {page : Page} (hheld : page.dirty = true → hasContent page = true) {loaded dirty : Int}
    (hloaded : loaded = t.loaded - (if hasContent old then 1 else 0) +
      if hasContent page then 1 else 0)
    (hdirty : dirty = t.dirty - (if old.dirty then 1 else 0) + if page.dirty then 1 else 0) :
    Accounted (t.setPage n page loaded dirty) where
  loaded := by
    rw [hloaded, ht.loaded]
    exact (countP_set_page hasContent hpage page).symm
  dirty := by
    rw [hdirty, ht.dirty]
    exact (countP_set_page Page.dirty hpage page).symm
  held m p hm hp := by
    rw [getElem?_setPage (List.getElem?_eq_some_iff.mp hpage).1] at hm
    split at hm
    · rw [← Option.some.inj hm] at hp ⊢
      exact hheld hp
    · exact ht.held m p hm hp

/-- One page more between a page and an index. -/
theorem countP_between (p : Page → Bool) {pages : List Page} {i : Nat} {page : Page}
    (hpage : pages[i]? = some page) (hn : n < i) :
    ((pages.take (i + 1)).drop (n + 1)).countP p =
      ((pages.take i).drop (n + 1)).countP p + if p page then 1 else 0 := by
  have hi : i < pages.length := (List.getElem?_eq_some_iff.mp hpage).1
  rw [List.take_add_one, hpage,
    List.drop_append_of_le_length (by rw [List.length_take]; omega), List.countP_append]
  simp [List.countP_cons]

/-- The loop clears loaded pages only. -/
theorem accounted_unloadBelow (ht : Accounted t) (i : Nat) (needToClear : Int)
    (hclears : ∀ n < i, t.pages[n]?.all hasContent = false →
      min needToClear t.loaded ≤ ((t.pages.take i).drop (n + 1)).countP isClean) :
    Accounted (unloadBelow i needToClear t) := by
  induction i generalizing needToClear t with
  | zero => exact ht
  | succ i ih =>
    unfold unloadBelow
    split
    · rename_i hguard
      split
      · rename_i content hpage
        have hi : i < t.pages.length := (List.getElem?_eq_some_iff.mp hpage).1
        have hcontent : hasContent ⟨content, false⟩ = true := by
          by_contra hnone
          have hcount := hclears i (Nat.lt_succ_self i)
            (by rw [hpage]; exact Bool.eq_false_iff.mpr hnone)
          rw [List.drop_eq_nil_of_le (List.length_take_le _ _), List.countP_nil] at hcount
          omega
        have hstep : Accounted (t.setPage i ⟨none, false⟩ (t.loaded - 1) t.dirty) :=
          ht.setPage hpage (by simp)
            (by rw [if_pos hcontent, if_neg (by simp [hasContent]), Int.add_zero]) (by simp)
        refine ih hstep (needToClear - 1) ?_
        intro n hn hmissing
        rw [getElem?_setPage hi, if_neg (Nat.ne_of_lt hn)] at hmissing
        have hcount := hclears n (Nat.lt_succ_of_lt hn) hmissing
        rw [countP_between isClean hpage hn,
          if_pos (show isClean ⟨content, false⟩ = true from rfl)] at hcount
        have htake : (t.setPage i ⟨none, false⟩ (t.loaded - 1) t.dirty).pages.take i =
            t.pages.take i := List.take_set_of_le (Nat.le_refl i)
        rw [htake]
        show min (needToClear - 1) (t.loaded - 1) ≤ _
        omega
      · rename_i hother
        refine ih ht needToClear ?_
        intro n hn hmissing
        have hcount := hclears n (Nat.lt_succ_of_lt hn) hmissing
        cases hpage : t.pages[i]? with
        | none =>
          rw [List.take_add_one, hpage] at hcount
          simpa using hcount
        | some page =>
          obtain ⟨content, dirty⟩ := page
          cases dirty with
          | false => exact absurd hpage (hother content)
          | true =>
            rw [countP_between isClean hpage hn] at hcount
            exact hcount
    · exact ht

theorem accounted_unloadClearPages (ht : Accounted t) {needToClear : Int}
    (hclears : ClearsLoaded t.pages (min needToClear t.loaded)) :
    Accounted (unloadClearPages needToClear t) := by
  refine accounted_unloadBelow ht _ needToClear ?_
  intro n hn hmissing
  rw [List.take_length]
  exact hclears n hn hmissing

end Counting

section Methods

variable {t : PageTable} {n : Nat}

/-- A page that is read from its record is clean. -/
theorem Accounted.clean (ht : Accounted t) {page : Page} (hpage : t.pages[n]? = some page)
    (hnone : hasContent page = false) : page = ⟨none, false⟩ := by
  obtain ⟨content, dirty⟩ := page
  cases dirty with
  | false =>
    have hcontent : content = none := by simpa [hasContent] using hnone
    rw [hcontent]
  | true =>
    have hheld := ht.held n _ hpage rfl
    rw [hnone] at hheld
    cases hheld

theorem accounted_clearedTo (ht : Accounted t) {keep : Int}
    (hclears : ClearsLoaded t.pages (t.loaded - t.dirty - keep)) :
    Accounted (clearedTo keep t) := by
  unfold clearedTo
  split
  · refine accounted_unloadClearPages ht ?_
    intro m hm hmissing
    exact Int.le_trans (Int.min_le_left _ _) (hclears m hm hmissing)
  · exact ht

/-- A page without a content does not get one. -/
theorem missing_unloadBelow (t : PageTable) (i : Nat) (needToClear : Int)
    (hpage : t.pages[n]? = some ⟨none, false⟩) :
    (unloadBelow i needToClear t).pages[n]? = some ⟨none, false⟩ := by
  induction i generalizing needToClear t with
  | zero => exact hpage
  | succ i ih =>
    unfold unloadBelow
    split
    · split
      · rename_i content hi
        refine ih (t.setPage i ⟨none, false⟩ (t.loaded - 1) t.dirty) (needToClear - 1) ?_
        rw [getElem?_setPage (List.getElem?_eq_some_iff.mp hi).1]
        split
        · rfl
        · exact hpage
      · exact ih t needToClear hpage
    · exact hpage

theorem accounted_loadPage (ht : Accounted t) (hpage : t.pages[n]? = some ⟨none, false⟩)
    (hclears : ClearsLoaded t.pages (t.loaded - t.dirty - (maxClearPagesCached - 1))) :
    Accounted (loadPage n t) := by
  have haccounted := accounted_clearedTo ht hclears
  have hmissing : (clearedTo (maxClearPagesCached - 1) t).pages[n]? = some ⟨none, false⟩ := by
    unfold clearedTo
    split
    · exact missing_unloadBelow t _ _ hpage
    · exact hpage
  obtain ⟨content, hpage', hload⟩ := loadPage_eq hpage
  rw [hload]
  exact haccounted.setPage hmissing (by simp) (by simp [hasContent]) (by simp)

theorem accounted_getPage (ht : Accounted t) {n : Int} (hmet : Meets t (.getPage n)) :
    Accounted (final (PagedFile.getPage n t)) := by
  rcases getPage_cases n t with herror | ⟨m, rfl, ⟨c, dirty, -, hok⟩ | ⟨dirty, hpage, hok⟩⟩
  · rw [herror]
    exact ht
  · rw [hok]
    exact ht
  · rw [hok]
    have hclean := ht.clean hpage rfl
    rw [hclean] at hpage
    exact accounted_loadPage ht hpage (hmet (Int.natCast_nonneg m) (by
      rw [Int.toNat_natCast, hpage]
      rfl))

theorem accounted_setPageDirty (ht : Accounted t) (hmet : Meets t (.setPageDirty n)) :
    Accounted (PagedFile.setPageDirty n t) := by
  unfold PagedFile.setPageDirty
  split
  · rename_i content hpage
    have hcontent : hasContent ⟨content, false⟩ = true := by
      have hall : t.pages[n]?.all hasContent = true := hmet
      rwa [hpage] at hall
    have hcontent' : hasContent ⟨content, true⟩ = true := hcontent
    show Accounted (t.setPage n ⟨content, true⟩ t.loaded (t.dirty + 1))
    exact ht.setPage hpage (fun _ => hcontent')
      (by rw [if_pos hcontent, if_pos hcontent', Int.sub_add_cancel]) (by simp)
  · exact ht

/-- A part of the pages goes; the counter takes all of it for loaded, down to zero. -/
theorem accounted_cut (ht : Accounted t) {front cut back : List Page}
    (hpages : t.pages = front ++ cut ++ back) (heven : CutsEven cut (front ++ back))
    {t' : PageTable} (hpages' : t'.pages = front ++ back) (hdirty : t'.dirty = t.dirty)
    (hloaded : t'.loaded =
      if t.loaded - cut.length < 0 then 0 else t.loaded - cut.length) : Accounted t' := by
  obtain ⟨hclean, hcounted⟩ := heven
  have hcount : ∀ p : Page → Bool,
      t.pages.countP p = (front ++ back).countP p + cut.countP p := by
    intro p
    rw [hpages, List.countP_append, List.countP_append, List.countP_append]
    omega
  refine ⟨?_, ?_, ?_⟩
  · rw [hloaded, ht.loaded, hpages', hcount]
    rcases hcounted with hall | hnone
    · rw [List.countP_eq_length.mpr hall]
      split <;> omega
    · have hle : cut.countP hasContent ≤ cut.length := List.countP_le_length
      have hzero : (front ++ back).countP hasContent = 0 :=
        List.countP_eq_zero.mpr (fun p hp => by simp [hnone p hp])
      split <;> omega
  · have hzero : cut.countP Page.dirty = 0 :=
      List.countP_eq_zero.mpr (fun p hp => by simp [hclean p hp])
    rw [hdirty, ht.dirty, hpages', hcount]
    omega
  · intro n p hn hp
    have hmem : p ∈ t.pages := by
      have hkept := List.mem_of_getElem? hn
      rw [hpages', List.mem_append] at hkept
      rw [hpages, List.mem_append, List.mem_append]
      tauto
    obtain ⟨m, hm⟩ := List.getElem?_of_mem hmem
    exact ht.held m p hm hp

theorem accounted_deletePages (ht : Accounted t) {start stop : Int}
    (hcopies : Copies t start stop) (hle : start ≤ stop + 1)
    (heven : CutsEven ((t.pages.drop start.toNat).take (stop + 1 - start).toNat)
      (t.pages.take start.toNat ++ t.pages.drop (stop + 1).toNat)) :
    Accounted (final (PagedFile.deletePages start stop t)) := by
  obtain ⟨hstart, -, -, hstop⟩ := hcopies
  have hback : t.pages.drop (stop + 1).toNat =
      (t.pages.drop start.toNat).drop (stop + 1 - start).toNat := by
    rw [List.drop_drop]
    congr 1
    omega
  have hlength : (((t.pages.drop start.toNat).take (stop + 1 - start).toNat).length : Int) =
      stop - start + 1 := by
    rw [List.length_take, List.length_drop]
    omega
  unfold PagedFile.deletePages
  simp only [if_neg (Int.not_lt.mpr hstart), final_ok]
  refine accounted_cut ht ?_ heven rfl rfl ?_
  · rw [hback, List.append_assoc, List.take_append_drop, List.take_append_drop]
  · rw [hlength]

/-- Pages that are new have no content. -/
theorem accounted_append (ht : Accounted t) (newSize k : Nat) :
    Accounted { t with size := newSize, pages := t.pages ++ List.replicate k ⟨none, false⟩ } where
  loaded := by
    rw [List.countP_append, List.countP_replicate]
    simpa [hasContent] using ht.loaded
  dirty := by
    rw [List.countP_append, List.countP_replicate]
    simpa using ht.dirty
  held m p hm hp := by
    rw [List.getElem?_append] at hm
    split at hm
    · exact ht.held m p hm hp
    · rw [List.getElem?_replicate] at hm
      split at hm
      · cases hm
        cases hp
      · cases hm

theorem accounted_resize (ht : Accounted t) {newSize : Nat} (hmet : Meets t (.setSize newSize)) :
    Accounted (final (resize newSize t)) := by
  obtain ⟨n, hn⟩ : ∃ n, n = toInt (newSize / pageSize + 1 : Nat) := ⟨_, rfl⟩
  have heven : 0 ≤ n → CutsEven (t.pages.drop n.toNat) (t.pages.take n.toNat) := hn ▸ hmet
  unfold resize
  rw [bind_get, ← hn]
  by_cases hless : n < t.pages.length
  · rw [if_pos hless]
    by_cases hneg : n < 0
    · have hrefused : PagedFile.deletePages n (t.pages.length - 1) t =
          .error .negativeArraySize
            { t with stored := t.stored.destroyPages n (t.pages.length - 1) } := by
        rw [PagedFile.deletePages, if_pos hneg]
      show Accounted (final (EStateM.bind _ _ t))
      rw [EStateM.bind, hrefused]
      exact ⟨ht.loaded, ht.dirty, ht.held⟩
    · have hcopies : Copies t n (t.pages.length - 1) :=
        ⟨by omega, by omega, by omega, by omega⟩
      have hcut : (t.pages.drop n.toNat).take (t.pages.length - 1 + 1 - n).toNat =
          t.pages.drop n.toNat :=
        List.take_of_length_le (by rw [List.length_drop]; omega)
      have hkept : t.pages.take n.toNat ++ t.pages.drop (t.pages.length - 1 + 1 : Int).toNat =
          t.pages.take n.toNat := by
        rw [List.drop_eq_nil_of_le (by omega), List.append_nil]
      have haccounted := accounted_deletePages ht hcopies (by omega) (by
        rw [hcut, hkept]
        exact heven (by omega))
      cases hresult : PagedFile.deletePages n (t.pages.length - 1) t with
      | error e t' =>
        rw [PagedFile.deletePages, if_neg hneg] at hresult
        cases hresult
      | ok a t' =>
        rw [hresult] at haccounted
        show Accounted (final (EStateM.bind _ _ t))
        rw [EStateM.bind, hresult]
        exact accounted_append haccounted newSize _
  · rw [if_neg hless]
    exact accounted_append ht newSize _

/-- A file without pages. -/
theorem accounted_deleted (ht : Accounted t) : Accounted (deleted t) := by
  have hle : t.pages.countP hasContent ≤ t.pages.length := List.countP_le_length
  have hloaded : (deleted t).loaded =
      if t.loaded - ((t.pages.length : Int) - 1 - 0 + 1) < 0 then 0
      else t.loaded - ((t.pages.length : Int) - 1 - 0 + 1) := rfl
  refine ⟨?_, ?_, ?_⟩
  · rw [hloaded, pages_deleted, ht.loaded, List.countP_nil]
    split <;> omega
  · rw [pages_deleted]
    rfl
  · intro n p hn
    rw [pages_deleted] at hn
    cases hn

/-- What the loop of sync leaves: the contents, and the count of those that are loaded. -/
theorem accounted_syncBelow (ht : Accounted t) (i : Nat) :
    Accounted (syncBelow i t).1 ∧ (syncBelow i t).1.loaded = t.loaded ∧
      (syncBelow i t).1.pages.map Page.content = t.pages.map Page.content := by
  induction i generalizing t with
  | zero => exact ⟨ht, rfl, rfl⟩
  | succ i ih =>
    unfold syncBelow
    split
    · split
      · rename_i c hpage
        have hstep : Accounted (t.setPage i ⟨some c, false⟩ t.loaded (t.dirty - 1)) :=
          ht.setPage hpage (by simp) (by simp [hasContent]) (by simp)
        obtain ⟨u, hu⟩ : ∃ u : PageTable, u = { t with
            pages := t.pages.set i ⟨some c, false⟩
            dirty := t.dirty - 1
            stored := t.stored.commit (.page i c) } := ⟨_, rfl⟩
        have hu' : Accounted u := hu ▸ ⟨hstep.loaded, hstep.dirty, hstep.held⟩
        obtain ⟨haccounted, hloaded, hcontents⟩ := ih hu'
        rw [← hu]
        refine ⟨haccounted, hloaded.trans (by rw [hu]), hcontents.trans ?_⟩
        rw [hu]
        show (t.pages.set i ⟨some c, false⟩).map Page.content = _
        rw [List.map_set]
        obtain ⟨hi, hget⟩ := List.getElem?_eq_some_iff.mp hpage
        have hlt : i < (t.pages.map Page.content).length := by rwa [List.length_map]
        have hself : (t.pages.map Page.content)[i] = some c := by
          rw [List.getElem_map, hget]
        exact hself ▸ List.set_getElem_self hlt
      · exact ih ht
    · exact ⟨ht, rfl, rfl⟩

theorem Accounted.tracked (ht : Accounted t) : t.Tracked where
  loaded n hn := by
    have hheld := ht.held n _ hn rfl
    cases hheld
  dirty := Int.le_of_eq ht.dirty.symm

/-- Without a dirty page the loop stops at its number, or has cleared everything. -/
theorem loaded_unloadBelow (t : PageTable) (i : Nat) (needToClear : Int)
    (hlength : i ≤ t.pages.length) (hclean : ∀ p ∈ t.pages, p.dirty = false) :
    (unloadBelow i needToClear t).loaded ≤ max 0 (t.loaded - needToClear) ∨
      ∀ n < i, (unloadBelow i needToClear t).pages[n]? = some ⟨none, false⟩ := by
  induction i generalizing needToClear t with
  | zero => exact .inr (fun n hn => absurd hn (Nat.not_lt_zero n))
  | succ i ih =>
    unfold unloadBelow
    split
    · obtain ⟨⟨content, dirty⟩, hpage⟩ : ∃ p, t.pages[i]? = some p :=
        ⟨_, List.getElem?_eq_getElem (by omega)⟩
      obtain rfl : dirty = false := hclean _ (List.mem_of_getElem? hpage)
      rw [hpage]
      show (unloadBelow i (needToClear - 1)
          (t.setPage i ⟨none, false⟩ (t.loaded - 1) t.dirty)).loaded ≤ _ ∨
        ∀ n < i + 1, (unloadBelow i (needToClear - 1)
          (t.setPage i ⟨none, false⟩ (t.loaded - 1) t.dirty)).pages[n]? = _
      have hi : i < t.pages.length := by omega
      have hset : (t.setPage i ⟨none, false⟩ (t.loaded - 1) t.dirty).pages.length =
          t.pages.length := List.length_set
      have hclean' : ∀ p ∈ (t.setPage i ⟨none, false⟩ (t.loaded - 1) t.dirty).pages,
          p.dirty = false := by
        intro p hp
        rcases List.mem_or_eq_of_mem_set hp with hold | rfl
        · exact hclean p hold
        · rfl
      rcases ih (t.setPage i ⟨none, false⟩ (t.loaded - 1) t.dirty) (needToClear - 1) (by omega)
        hclean' with hstop | hall
      · left
        refine Int.le_trans hstop ?_
        show max 0 (t.loaded - 1 - (needToClear - 1)) ≤ _
        omega
      · right
        intro n hn
        rcases Nat.lt_or_eq_of_le (Nat.le_of_lt_succ hn) with hlt | rfl
        · exact hall n hlt
        · refine missing_unloadBelow _ _ _ ?_
          rw [getElem?_setPage hi, if_pos rfl]
    · exact .inl (by omega)

/-- sync, and what it leaves in the cache. -/
theorem accounted_sync (ht : Accounted t) (hmet : Meets t .sync) :
    Accounted (PagedFile.sync t).1 ∧ FewClean (PagedFile.sync t).1 := by
  obtain ⟨haccounted, hloaded, hcontents⟩ := accounted_syncBelow ht t.pages.length
  have hflushed := flushed_syncBelow ht.tracked t.pages.length (by
    intro n page hn hget
    rw [List.getElem?_eq_none hn] at hget
    cases hget)
  rw [sync_eq]
  obtain ⟨u, hu⟩ : ∃ u, u = (syncBelow t.pages.length t).1 := ⟨_, rfl⟩
  have hclean := hflushed.clean
  rw [← hu] at haccounted hloaded hcontents hclean ⊢
  have hzero : u.dirty = 0 := by
    rw [haccounted.dirty, List.countP_eq_zero.mpr (fun p hp => by simp [hclean p hp])]
    rfl
  have hpages : u.pages = t.pages.map (fun p => { p with dirty := false }) := by
    have hself : u.pages = u.pages.map (fun p => ⟨p.content, false⟩) := by
      refine (List.map_id _).symm.trans (List.map_congr_left (fun p hp => ?_))
      rw [← hclean p hp]
      rfl
    have hmap : ∀ pages : List Page, pages.map (fun p => (⟨p.content, false⟩ : Page)) =
        (pages.map Page.content).map (fun c => ⟨c, false⟩) := by
      intro pages
      rw [List.map_map]
      rfl
    rw [hself, hmap, hcontents, ← hmap]
  have hclears : ClearsLoaded u.pages (u.loaded - u.dirty - maxClearPagesCached) := by
    rw [hzero, hloaded, hpages, Int.sub_zero]
    exact hmet
  have hcleared := accounted_clearedTo haccounted hclears
  refine ⟨⟨hcleared.loaded, hcleared.dirty, hcleared.held⟩, ?_⟩
  have hfew : (clearedTo maxClearPagesCached u).loaded ≤ maxClearPagesCached := by
    unfold clearedTo at hcleared ⊢
    split at hcleared
    · rename_i hmore
      rw [if_pos hmore]
      rcases loaded_unloadBelow u u.pages.length (u.loaded - u.dirty - maxClearPagesCached)
        (Nat.le_refl _) hclean with hstop | hall
      · rw [hzero] at hstop ⊢
        exact Int.le_trans hstop (by unfold maxClearPagesCached; omega)
      · have hempty : (unloadClearPages (u.loaded - u.dirty - maxClearPagesCached) u).pages.countP
            hasContent = 0 := by
          refine List.countP_eq_zero.mpr (fun p hp => ?_)
          obtain ⟨n, hn⟩ := List.getElem?_of_mem hp
          have hlt : n < u.pages.length := by
            have hflag := dirty_unloadBelow u u.pages.length
              (u.loaded - u.dirty - maxClearPagesCached) n
            rw [show (unloadBelow _ _ u).pages[n]? = some p from hn] at hflag
            obtain ⟨old, hold, -⟩ := Option.map_eq_some_iff.mp hflag.symm
            exact (List.getElem?_eq_some_iff.mp hold).1
          rw [unloadClearPages, hall n hlt] at hn
          rw [← Option.some.inj hn]
          decide
        rw [hcleared.loaded, hempty]
        decide
    · rename_i hless
      rw [if_neg hless]
      omega
  show (((clearedTo maxClearPagesCached u).pages.countP _ : Nat) : Int) ≤ maxClearPagesCached
  rw [hcleared.loaded] at hfew
  refine Int.le_trans (Int.ofNat_le.mpr (List.countP_mono_left (fun p _ hp => ?_))) hfew
  exact (Bool.and_eq_true_iff.mp hp).1

end Methods

section Runs

variable {t : PageTable}

/-- Each method that finds what it has to keeps the accounts. -/
theorem accounted_step (ht : Accounted t) {op : Op} (hmet : Meets t op) :
    Accounted (step t op) := by
  cases op with
  | getPage n => exact accounted_getPage ht hmet
  | setPageDirty n => exact accounted_setPageDirty ht hmet
  | unloadClearPages needToClear =>
    have hclears : ClearsLoaded t.pages (min needToClear t.loaded) := hmet
    exact accounted_unloadClearPages ht hclears
  | setSize newSize =>
    show Accounted (final (resize newSize t))
    exact accounted_resize ht hmet
  | deletePages start stop =>
    show Accounted (if Copies t start stop then final (PagedFile.deletePages start stop t)
      else { t with stored := t.stored.destroyPages start stop })
    split
    · rename_i hcopies
      obtain ⟨hle, heven⟩ := hmet hcopies
      exact accounted_deletePages ht hcopies hle heven
    · exact ⟨ht.loaded, ht.dirty, ht.held⟩
  | sync => exact (accounted_sync ht hmet).1
  | delete => exact accounted_deleted ht

theorem accounted_ofStored (stored : Stored) : Accounted (PageTable.ofStored stored) where
  loaded := by
    unfold PageTable.ofStored
    rw [List.countP_replicate]
    rfl
  dirty := by
    unfold PageTable.ofStored
    rw [List.countP_replicate]
    rfl
  held n p hn hp := by
    rcases getElem?_ofStored stored n with hnone | hpage
    · rw [hnone] at hn
      cases hn
    · rw [hpage] at hn
      cases hn
      cases hp

theorem accounted_run (ops : List Op) (ht : Accounted t) (hmet : MetAll ops t) :
    Accounted (run t ops) := by
  induction ops generalizing t with
  | nil => exact ht
  | cons op ops ih => exact ih (accounted_step ht hmet.1) hmet.2

/-- The methods before the last one, and what the last one finds. -/
theorem MetAll.append {ops : List Op} {op : Op} (h : MetAll (ops ++ [op]) t) :
    MetAll ops t ∧ Meets (run t ops) op := by
  induction ops generalizing t with
  | nil => exact ⟨trivial, h.1⟩
  | cons first ops ih =>
    obtain ⟨hops, hop⟩ := ih h.2
    exact ⟨⟨h.1, hops⟩, hop⟩

/-- The accounts of the cache are right in each state of a run whose methods find what they have
to, and after each sync the cache is small. -/
theorem accounts_kept (stored : Stored) (ops : List Op)
    (hmet : MetAll ops (PageTable.ofStored stored)) :
    Accounted (run (PageTable.ofStored stored) ops) ∧
      ∀ before, ops = before ++ [.sync] → FewClean (run (PageTable.ofStored stored) ops) := by
  refine ⟨accounted_run ops (accounted_ofStored stored) hmet, ?_⟩
  rintro before rfl
  obtain ⟨hbefore, hsync⟩ := hmet.append
  have haccounted := accounted_run before (accounted_ofStored stored) hbefore
  unfold run
  rw [List.foldl_append]
  exact (accounted_sync haccounted hsync).2

/-- A file without records. -/
def noRecords : Stored := ⟨none, fun _ => none⟩

/-- A run that meets each condition: two pages are loaded, one is written, one is unloaded and
loaded again, and one is cut off. -/
def smallRun : List Op :=
  [.setSize 4096, .getPage 0, .setPageDirty 0, .getPage 1, .sync, .unloadClearPages 1, .getPage 1,
    .deletePages 1 1, .sync, .setSize 0, .sync]

theorem accounts_kept_small : Accounted (run (PageTable.ofStored noRecords) smallRun) ∧
    ∀ before, smallRun = before ++ [.sync] →
      FewClean (run (PageTable.ofStored noRecords) smallRun) :=
  accounts_kept noRecords smallRun (by decide)

/-- A dirty page is cut off, and stays counted. -/
theorem cut_page_stays_counted : ¬Accounted (run (PageTable.ofStored noRecords)
    [.setSize 4096, .getPage 1, .setPageDirty 1, .setSize 0]) := by
  intro h
  exact absurd h.dirty (by decide)

end Runs

end Rhodes.PageAccounts
