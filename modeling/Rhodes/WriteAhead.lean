import Mathlib
import Rhodes.JournalCalls

/-!
The order of the records of a data file and its journal. While the journal listens, the sync of
the data file brings the records of the journal up to it before it writes one of its own; the
sync of the journal itself waits for it, and a dirty page is never dropped in between.
-/
namespace Rhodes.WriteAhead

open Arrays PagedFile FileImpl RandomAccess JournalFile Outcomes FileCalls JournalCalls

/-- No page is dirty, and the size in the records is the size of the file. -/
structure UpToDate (t : PageTable) : Prop where
  clean : ∀ page ∈ t.pages, page.dirty = false
  size : t.stored.size = some t.size

/-- The journal of the file listens for its sync, and waits for it. -/
structure Registered (w : World) (d : String) : Prop where
  listens : journalName d ∈ (w.files d).listenForSync
  waits : 0 < (w.files (journalName d)).syncOut

/-- The moment at which a call writes the records of the data file: what it has written before
are not such records, and the records of the journal are up to it. -/
structure Moment (w w' : World) (d : String) (u : World) : Prop where
  before : ∃ new, u.commits = w.commits ++ new ∧ ∀ x ∈ new, x.1 ≠ d
  journal : UpToDate (u.files (journalName d)).pages
  sync : w' = syncPages d u

/-- What holds of a call on the files. -/
structure JournalFirst (small : Prop) (w : World) (c : Call) (d : String) : Prop where
  /-- A record of the data file is written where the records of its journal are complete. -/
  ordered : journalName d ∈ (w.files d).listenForSync →
    ∀ new, (c.run w).commits = w.commits ++ new → ∀ x, (d, x) ∈ new →
      ∃ u, Moment w (c.run w) d u ∧ (small → ∀ n, (u.files (journalName d)).pages.stored.bytes n =
        (u.files (journalName d)).pages.bytes n)
  /-- A sync of the journal itself leaves everything as it is. -/
  delayed : Registered w d → ∀ f, f.name = journalName d → final (syncFile f w) = w
  /-- A dirty page has its content still, or it is committed; it goes only with an edit. -/
  kept : ∃ new, (c.run w).commits = w.commits ++ new ∧
    ∀ name n p, (w.files name).pages.Dirty n p → ((c.run w).files name).pages.Dirty n p ∨
      (name, .page n p) ∈ new ∨ c.Edits name ∧ ((∃ p', ((c.run w).files name).pages.Dirty n p') ∨
        ((c.run w).files name).pages.pages.length ≤ n)
  /-- The registration ends where the journal takes it back. -/
  registered : Registered w d → (∀ f name, c = .stopListenForSync f name → f.name ≠ journalName d) →
    Registered (c.run w) d

section Tables

variable {fits : Nat → Prop} {t t' : PageTable}

theorem tableStep_tracked (h : TableStep fits t t') (ht : t.Tracked) : t'.Tracked := by
  cases h with
  | resize newSize => exact (trims_resize newSize t ht).tracked
  | read pos => exact (keepsDirty_read pos t ht).tracked
  | readBytes pos b off len => exact (keepsDirty_readBytes pos b off len t ht).tracked
  | write pos b => exact (trims_write pos b t ht).tracked
  | writeBytes pos b off len => exact (trims_writeBytes pos b off len t ht).tracked
  | sync => exact (flushed_sync ht).1.tracked
  | delete => exact tracked_deleted t

theorem tableStep_valid (hfits : ∀ n, fits n → n < maxSize) (h : TableStep fits t t')
    (ht : t.Valid) : t'.Valid := by
  cases h with
  | resize newSize hn => exact keepsValid_resize (hfits _ hn) t ht
  | read pos => exact (sees_read pos t).keepsValid ht
  | readBytes pos b off len => exact (sees_readBytes pos b off len t).keepsValid ht
  | write pos b hn => exact keepsValid_write (hfits _ hn) b t ht
  | writeBytes pos b off len hn => exact keepsValid_writeBytes (hfits _ hn) b off t ht
  | sync => exact (sync_spec ht).valid
  | delete => exact valid_deleted t

theorem tableSteps_induction {P : PageTable → Prop}
    (hstep : ∀ t t', TableStep fits t t' → P t → P t')
    (h : TableSteps fits t t') (ht : P t) : P t' := by
  induction h with
  | refl => exact ht
  | tail _ hlast ih => exact hstep _ _ hlast ih

end Tables

/-- The pages of each file have taken steps, and no registration has changed. -/
structure WorldMove (fits : Nat → Prop) (w w' : World) : Prop where
  steps : ∀ n, TableSteps fits (w.files n).pages (w'.files n).pages
  syncOut : ∀ n, (w'.files n).syncOut = (w.files n).syncOut
  listenForSync : ∀ n, (w'.files n).listenForSync = (w.files n).listenForSync

/-- What the syncs of some files have committed. -/
structure Commits (names : List String) (w w' : World) (new : List (String × Commit)) : Prop where
  commits : w'.commits = w.commits ++ new
  names : ∀ x ∈ new, x.1 ∈ names
  kept : ∀ name n p, (w.files name).pages.Dirty n p →
    (w'.files name).pages.Dirty n p ∨ (name, .page n p) ∈ new

section Syncs

variable {fits : Nat → Prop} {w w' w'' : World} {names : List String}

theorem WorldMove.trans (h : WorldMove fits w w') (h' : WorldMove fits w' w'') :
    WorldMove fits w w'' where
  steps n := (h.steps n).trans (h'.steps n)
  syncOut n := (h'.syncOut n).trans (h.syncOut n)
  listenForSync n := (h'.listenForSync n).trans (h.listenForSync n)

theorem worldMove_setFile {edits : Prop} {name : String} {info : FileInfo}
    (h : FileMove fits edits (w.files name) info) : WorldMove fits w (w.setFile name info) := by
  refine ⟨?_, ?_, ?_⟩
  all_goals
    intro n
    rw [files_setFile]
    split
  · rename_i heq
    rw [heq]
    exact h.pages.steps
  · exact .refl
  · rename_i heq
    rw [heq]
    exact h.syncOut
  · rfl
  · rename_i heq
    rw [heq]
    exact h.listenForSync
  · rfl

theorem worldMove_syncPages (name : String) : WorldMove fits w (syncPages name w) := by
  refine ⟨?_, ?_, ?_⟩
  all_goals
    intro n
    rw [files_syncPages]
    split
  · rename_i heq
    rw [heq]
    exact .single (.sync _)
  · exact .refl
  · rename_i heq
    rw [heq]
  · rfl
  · rename_i heq
    rw [heq]
  · rfl

theorem worldMove_foldl (names : List String) (w : World) :
    WorldMove fits w (names.foldl (fun w listener => syncPages listener w) w) := by
  induction names generalizing w with
  | nil => exact ⟨fun _ => .refl, fun _ => rfl, fun _ => rfl⟩
  | cons name names ih => exact (worldMove_syncPages name).trans (ih _)

theorem worldMove_syncInfo (name : String) : WorldMove fits w (syncInfo name w) :=
  (worldMove_foldl _ w).trans (worldMove_syncPages name)

theorem Commits.trans {new new' : List (String × Commit)} (h : Commits names w w' new)
    (h' : Commits names w' w'' new') : Commits names w w'' (new ++ new') where
  commits := by rw [h'.commits, h.commits, List.append_assoc]
  names x hx := by
    rcases List.mem_append.mp hx with hx | hx
    · exact h.names x hx
    · exact h'.names x hx
  kept name n p hn := by
    rcases h.kept name n p hn with hdirty | hnew
    · rcases h'.kept name n p hdirty with hdirty' | hnew'
      · exact .inl hdirty'
      · exact .inr (List.mem_append_right _ hnew')
    · exact .inr (List.mem_append_left _ hnew)

theorem Commits.mono {names' : List String} {new : List (String × Commit)}
    (h : Commits names w w' new) (hle : ∀ n ∈ names, n ∈ names') : Commits names' w w' new where
  commits := h.commits
  names x hx := hle _ (h.names x hx)
  kept := h.kept

theorem commits_syncPages (hw : ∀ n, (w.files n).pages.Tracked) {name : String}
    (hname : name ∈ names) : ∃ new, Commits names w (syncPages name w) new := by
  refine ⟨_, rfl, ?_, ?_⟩
  · intro x hx
    obtain ⟨c, -, rfl⟩ := List.mem_map.mp hx
    exact hname
  · intro n m p hm
    rw [files_syncPages]
    by_cases heq : n = name
    · subst heq
      exact .inr (List.mem_map_of_mem ((flushed_sync (hw n)).1.commits m p hm))
    · rw [if_neg heq]
      exact .inl hm

theorem WorldMove.tracked (h : WorldMove fits w w') (hw : ∀ n, (w.files n).pages.Tracked)
    (n : String) :
    (w'.files n).pages.Tracked :=
  tableSteps_induction (fun _ _ hstep => tableStep_tracked hstep) (h.steps n) (hw n)

theorem commits_foldl (hw : ∀ n, (w.files n).pages.Tracked) (listeners : List String)
    (hnames : ∀ l ∈ listeners, l ∈ names) : ∃ new,
      Commits names w (listeners.foldl (fun w listener => syncPages listener w) w) new := by
  induction listeners generalizing w with
  | nil => exact ⟨[], (List.append_nil _).symm, by simp, fun _ _ _ h => .inl h⟩
  | cons l listeners ih =>
    obtain ⟨new, hfirst⟩ := commits_syncPages hw (hnames l List.mem_cons_self)
    have hmove : WorldMove (fun _ => True) w (syncPages l w) := worldMove_syncPages l
    obtain ⟨new', hrest⟩ := ih (hmove.tracked hw)
      (fun l' hl' => hnames l' (List.mem_cons_of_mem l hl'))
    exact ⟨new ++ new', hfirst.trans hrest⟩

end Syncs

/-- What holds between the calls. -/
structure Inv (w : World) : Prop where
  tracked : ∀ n, (w.files n).pages.Tracked
  listeners : ∀ n, ∀ l ∈ (w.files n).listenForSync, l = journalName n ∧ ¬IsJournal n
  syncOut : ∀ n, 0 ≤ (w.files n).syncOut

section Registrations

variable {w : World} {f : RAFile} {name : String}

theorem files_listenForSync (n : String) : (final (listenForSync f name w)).files n =
    { w.files n with
      syncOut := if n = f.name then (w.files n).syncOut + 1 else (w.files n).syncOut
      listenForSync := if n = name ∧ f.name ∉ (w.files n).listenForSync then
        (w.files n).listenForSync ++ [f.name] else (w.files n).listenForSync } := by
  obtain ⟨w', hw'⟩ : ∃ w', w' = w.setFile name { w.files name with
      listenForSync := if f.name ∈ (w.files name).listenForSync then (w.files name).listenForSync
        else (w.files name).listenForSync ++ [f.name] } := ⟨_, rfl⟩
  have hfirst : w'.files n = { w.files n with
      listenForSync := if n = name ∧ f.name ∉ (w.files n).listenForSync then
        (w.files n).listenForSync ++ [f.name] else (w.files n).listenForSync } := by
    rw [hw', files_setFile]
    by_cases heq : n = name
    · subst heq
      by_cases hmem : f.name ∈ (w.files n).listenForSync <;> simp [hmem]
    · simp [heq]
  have hfinal : final (listenForSync f name w) =
      w'.setFile f.name { w'.files f.name with syncOut := (w'.files f.name).syncOut + 1 } := by
    rw [hw']
    rfl
  rw [hfinal, files_setFile]
  by_cases heq : n = f.name
  · subst heq
    rw [if_pos rfl, if_pos rfl, hfirst]
  · rw [if_neg heq, if_neg heq, hfirst]

theorem files_stopListenForSync (n : String) : (final (stopListenForSync f name w)).files n =
    { w.files n with
      syncOut := if n = f.name ∧ (w.files n).syncOut > 0 then (w.files n).syncOut - 1
        else (w.files n).syncOut
      listenForSync := if n = name then
        (w.files n).listenForSync.filter (fun listener => listener ≠ name)
        else (w.files n).listenForSync } := by
  obtain ⟨w', hw'⟩ : ∃ w', w' = w.setFile name { w.files name with
      listenForSync := (w.files name).listenForSync.filter (fun listener => listener ≠ name) } :=
    ⟨_, rfl⟩
  have hfirst : w'.files n = { w.files n with
      listenForSync := if n = name then
        (w.files n).listenForSync.filter (fun listener => listener ≠ name)
        else (w.files n).listenForSync } := by
    rw [hw', files_setFile]
    by_cases heq : n = name
    · subst heq
      simp
    · simp [heq]
  have hfinal : final (stopListenForSync f name w) =
      w'.setFile f.name { w'.files f.name with
        syncOut := if (w'.files f.name).syncOut > 0 then (w'.files f.name).syncOut - 1
          else (w'.files f.name).syncOut } := by
    rw [hw']
    rfl
  rw [hfinal, files_setFile]
  by_cases heq : n = f.name
  · rw [if_pos heq, ← heq, hfirst]
    simp
  · rw [if_neg heq, hfirst]
    simp [heq]

end Registrations

section Invariant

variable {fits : Nat → Prop} {w w' : World} {c : Call}

theorem Inv.worldMove (hw : Inv w) (h : WorldMove fits w w') : Inv w' where
  tracked := h.tracked hw.tracked
  listeners n := by
    rw [h.listenForSync]
    exact hw.listeners n
  syncOut n := by
    rw [h.syncOut]
    exact hw.syncOut n

theorem worldMove_useCount (w : World) (name : String) (useCount : Int) :
    WorldMove fits w (w.setFile name { w.files name with useCount := useCount }) := by
  have hfile : FileMove fits False (w.files name) { w.files name with useCount := useCount } :=
    ⟨refl_of _ _, rfl, rfl⟩
  exact worldMove_setFile hfile

theorem Inv.outcome (hw : Inv w) (h : Outcome fits w c w') : Inv w' := by
  cases h with
  | moved h => exact hw.worldMove (worldMove_setFile h)
  | synced name useCount =>
    have hmove : WorldMove fits w (w.setFile name { w.files name with useCount := useCount }) :=
      worldMove_useCount w name useCount
    exact hw.worldMove (hmove.trans (worldMove_syncInfo name))
  | @listening f name _ hname hdata =>
    refine ⟨?_, ?_, ?_⟩
    all_goals
      intro n
      rw [files_listenForSync]
    · exact hw.tracked n
    · intro l hl
      dsimp only at hl
      split at hl
      · rename_i hcond
        rcases List.mem_append.mp hl with hl | hl
        · exact hw.listeners n l hl
        · rw [List.mem_singleton.mp hl, hcond.1]
          exact ⟨hname, hdata⟩
      · exact hw.listeners n l hl
    · have hnonneg := hw.syncOut n
      dsimp only
      split <;> omega
  | @stopped f name _ =>
    refine ⟨?_, ?_, ?_⟩
    all_goals
      intro n
      rw [files_stopListenForSync]
    · exact hw.tracked n
    · intro l hl
      dsimp only at hl
      split at hl
      · exact hw.listeners n l (List.mem_filter.mp hl).1
      · exact hw.listeners n l hl
    · have hnonneg := hw.syncOut n
      dsimp only
      split <;> omega

theorem WorldMove.valid (hfits : ∀ n, fits n → n < maxSize) (h : WorldMove fits w w')
    (hw : ∀ n, (w.files n).pages.Valid) (n : String) : (w'.files n).pages.Valid :=
  tableSteps_induction (fun _ _ hstep => tableStep_valid hfits hstep) (h.steps n) (hw n)

theorem valid_outcome (hfits : ∀ n, fits n → n < maxSize) (hw : ∀ n, (w.files n).pages.Valid)
    (h : Outcome fits w c w') (n : String) : (w'.files n).pages.Valid := by
  cases h with
  | moved h => exact (worldMove_setFile h).valid hfits hw n
  | synced name useCount =>
    have hmove : WorldMove fits w (w.setFile name { w.files name with useCount := useCount }) :=
      worldMove_useCount w name useCount
    exact (hmove.trans (worldMove_syncInfo name)).valid hfits hw n
  | listening =>
    rw [files_listenForSync]
    exact hw n
  | stopped =>
    rw [files_stopListenForSync]
    exact hw n

/-- The sizes of the files are such that their page numbers are ints. -/
def Small (fits : Nat → Prop) (stored : String → Stored) : Prop :=
  (∀ n, fits n → n < maxSize) ∧ ∀ name, (stored name).size.getD 0 < maxSize

theorem inv_calls {stored : String → Stored} (h : Calls fits (restart stored) w) :
    Inv w ∧ (Small fits stored → ∀ n, (w.files n).pages.Valid) := by
  induction h with
  | refl =>
    refine ⟨⟨fun n => tracked_ofStored _, ?_, fun n => Int.le_refl 0⟩, fun hsmall n => ?_⟩
    · intro n l hl
      cases hl
    · exact valid_ofStored (hsmall.2 n)
  | @tail u _ _ hlast ih =>
    obtain ⟨c, hc, rfl⟩ := hlast
    have hstep := Call.outcome hc u
    exact ⟨ih.1.outcome hstep, fun hsmall => valid_outcome hsmall.1 (ih.2 hsmall) hstep⟩

end Invariant

section Order

variable {fits : Nat → Prop} {small : Prop} {w w' : World} {c : Call} {d : String}

theorem journalName_ne (hd : ¬IsJournal d) : journalName d ≠ d :=
  fun heq => hd (heq ▸ isJournal_journalName d)

theorem upToDate_syncPages (hw : ∀ n, (w.files n).pages.Tracked) (name : String) :
    UpToDate ((syncPages name w).files name).pages := by
  rw [files_syncPages, if_pos rfl]
  exact ⟨(flushed_sync (hw name)).1.clean, (flushed_sync (hw name)).2⟩

/-- The listeners are the journal only, so that the last one of them is. -/
theorem upToDate_foldl (hw : Inv w) (hmem : journalName d ∈ (w.files d).listenForSync) :
    UpToDate (((w.files d).listenForSync.foldl
      (fun w listener => syncPages listener w) w).files (journalName d)).pages := by
  rcases List.eq_nil_or_concat (w.files d).listenForSync with hnil | ⟨names, last, hlist⟩
  · rw [hnil] at hmem
    cases hmem
  · rw [List.concat_eq_append] at hlist
    have hlast : last = journalName d :=
      (hw.listeners d last (hlist ▸ List.mem_concat_self)).1
    have hmove : WorldMove (fun _ => True) w
        (names.foldl (fun w listener => syncPages listener w) w) := worldMove_foldl names w
    rw [hlist, List.foldl_append, List.foldl_cons, List.foldl_nil, hlast]
    exact upToDate_syncPages (hmove.tracked hw.tracked) _

theorem Registered.worldMove (h : Registered w d) (hmove : WorldMove fits w w') :
    Registered w' d := by
  refine ⟨?_, ?_⟩
  · rw [hmove.listenForSync]
    exact h.listens
  · rw [hmove.syncOut]
    exact h.waits

theorem Registered.outcome (hw : Inv w) (hd : Registered w d) (h : Outcome fits w c w')
    (hstop : ∀ f name, c = .stopListenForSync f name → f.name ≠ journalName d) :
    Registered w' d := by
  have hne : journalName d ≠ d := journalName_ne (hw.listeners d _ hd.listens).2
  cases h with
  | moved h => exact hd.worldMove (worldMove_setFile h)
  | synced name useCount =>
    have hmove : WorldMove fits w (w.setFile name { w.files name with useCount := useCount }) :=
      worldMove_useCount w name useCount
    exact hd.worldMove (hmove.trans (worldMove_syncInfo name))
  | listening =>
    refine ⟨?_, ?_⟩
    · rw [files_listenForSync]
      dsimp only
      split
      · exact List.mem_append_left _ hd.listens
      · exact hd.listens
    · have hwaits := hd.waits
      rw [files_listenForSync]
      dsimp only
      split <;> omega
  | @stopped f name hc =>
    refine ⟨?_, ?_⟩
    · rw [files_stopListenForSync]
      dsimp only
      split
      · rename_i heq
        refine List.mem_filter.mpr ⟨hd.listens, ?_⟩
        rw [← heq]
        exact decide_eq_true hne
      · exact hd.listens
    · rw [files_stopListenForSync]
      dsimp only
      rw [if_neg (fun hcond => hstop f name hc hcond.1.symm)]
      exact hd.waits

theorem syncFile_waits {f : RAFile} (hwaits : 0 < (w.files f.name).syncOut) :
    final (syncFile f w) = w := by
  unfold syncFile
  dsimp only
  split
  · rfl
  · split
    · rfl
    · rw [if_neg (fun hcond => by omega)]
      rfl

/-- A sync of a file as it is but for its use count: first its listeners, then its pages. -/
theorem syncInfo_cases (fits : Nat → Prop) (hw : Inv w) (name : String) (useCount : Int) : ∃ u new,
    syncInfo name (w.setFile name { w.files name with useCount := useCount }) = syncPages name u ∧
    WorldMove fits w u ∧ Commits (w.files name).listenForSync w u new ∧
    (journalName name ∈ (w.files name).listenForSync →
      UpToDate (u.files (journalName name)).pages) := by
  obtain ⟨v, hv⟩ : ∃ v, v = w.setFile name { w.files name with useCount := useCount } := ⟨_, rfl⟩
  have hmove : WorldMove fits w v := hv ▸ worldMove_useCount w name useCount
  have hinv : Inv v := hw.worldMove hmove
  have hpages : ∀ n, (v.files n).pages = (w.files n).pages := by
    intro n
    rw [hv, files_setFile]
    split
    · rename_i heq
      rw [heq]
    · rfl
  obtain ⟨new, hnew⟩ := commits_foldl hinv.tracked (v.files name).listenForSync (fun _ h => h)
  rw [← hv, ← hmove.listenForSync]
  refine ⟨_, new, rfl, hmove.trans (worldMove_foldl _ v), ⟨?_, hnew.names, ?_⟩, upToDate_foldl hinv⟩
  · rw [hnew.commits, hv]
    rfl
  · intro name' n p hn
    rw [← hpages] at hn
    exact hnew.kept name' n p hn

/-- A call commits what it does not leave dirty. -/
theorem kept_outcome (hw : Inv w) (h : Outcome fits w c w') : ∃ new,
    w'.commits = w.commits ++ new ∧ ∀ name n p, (w.files name).pages.Dirty n p →
      (w'.files name).pages.Dirty n p ∨ (name, .page n p) ∈ new ∨
      c.Edits name ∧ ((∃ p', (w'.files name).pages.Dirty n p') ∨
        (w'.files name).pages.pages.length ≤ n) := by
  cases h with
  | @moved name info h =>
    refine ⟨[], (List.append_nil _).symm, ?_⟩
    intro name' n p hn
    rw [files_setFile]
    by_cases heq : name' = name
    · subst heq
      rw [if_pos rfl]
      rcases h.pages.dirty with hkeeps | ⟨hedits, htrims⟩
      · exact .inl ((hkeeps (hw.tracked name')).dirty n p hn)
      · exact .inr (.inr ⟨hedits, (htrims (hw.tracked name')).dirty n p hn⟩)
    · rw [if_neg heq]
      exact .inl hn
  | synced name useCount =>
    obtain ⟨u, new, hsync, hmove, hnew, -⟩ := syncInfo_cases fits hw name useCount
    have htracked := (hw.worldMove hmove).tracked
    obtain ⟨new', hnew'⟩ := commits_syncPages htracked
      (List.mem_append_right _ (List.mem_singleton_self name))
    have hall := (hnew.mono (fun _ => List.mem_append_left [name])).trans hnew'
    rw [hsync]
    refine ⟨new ++ new', hall.commits, ?_⟩
    intro name' n p hn
    rcases hall.kept name' n p hn with hdirty | hcommit
    · exact .inl hdirty
    · exact .inr (.inl hcommit)
  | @listening f name _ hname hdata =>
    refine ⟨[], (List.append_nil _).symm, ?_⟩
    intro name' n p hn
    rw [files_listenForSync]
    exact .inl hn
  | @stopped f name _ =>
    refine ⟨[], (List.append_nil _).symm, ?_⟩
    intro name' n p hn
    rw [files_stopListenForSync]
    exact .inl hn

/-- Where the journal listens, the records of the data file are written after its own. -/
theorem ordered_outcome (hw : Inv w) (hmem : journalName d ∈ (w.files d).listenForSync)
    (hvalid : small → (∀ n, fits n → n < maxSize) ∧ ∀ n, (w.files n).pages.Valid)
    (h : Outcome fits w c w') {new : List (String × Commit)} (hnew : w'.commits = w.commits ++ new)
    {x : Commit} (hx : (d, x) ∈ new) : ∃ u, Moment w w' d u ∧ (small → ∀ n,
      (u.files (journalName d)).pages.stored.bytes n =
        (u.files (journalName d)).pages.bytes n) := by
  have hdata : ¬IsJournal d := (hw.listeners d _ hmem).2
  have hquiet : w'.commits ≠ w.commits := by
    intro heq
    rw [hnew, List.append_right_eq_self] at heq
    rw [heq] at hx
    cases hx
  cases h with
  | moved h => exact absurd rfl hquiet
  | synced name useCount =>
    obtain ⟨u, before, hsync, hmove, hbefore, hjournal⟩ := syncInfo_cases fits hw name useCount
    by_cases heq : name = d
    · subst heq
      have hupToDate := hjournal hmem
      refine ⟨u, ⟨⟨before, hbefore.commits, ?_⟩, hupToDate, hsync⟩, ?_⟩
      · intro y hy hname
        rw [(hw.listeners name y.1 (hbefore.names y hy)).1] at hname
        exact journalName_ne hdata hname
      · intro hsmall n
        refine (hmove.valid (hvalid hsmall).1 (hvalid hsmall).2 _).bytes_stored ?_ n
        intro m page hpage
        exact hupToDate.clean page (List.mem_of_getElem? hpage)
    · -- The records are those of another file and of its journal.
      obtain ⟨after, hafter⟩ := commits_syncPages (hw.worldMove hmove).tracked
        (List.mem_singleton_self name)
      rw [hsync, hafter.commits, hbefore.commits, List.append_assoc,
        List.append_cancel_left_eq] at hnew
      rw [← hnew] at hx
      rcases List.mem_append.mp hx with hx | hx
      · have hlistener := hw.listeners name d (hbefore.names _ hx)
        exact absurd (hlistener.1 ▸ isJournal_journalName name) hdata
      · exact absurd (List.mem_singleton.mp (hafter.names _ hx)).symm heq
  | listening => exact absurd rfl hquiet
  | stopped => exact absurd rfl hquiet

/-- What holds of the calls of every run. -/
theorem journalFirst_calls {stored : String → Stored} (hrun : Calls fits (restart stored) w)
    (hc : c.Meets fits) (d : String) : JournalFirst (Small fits stored) w c d := by
  obtain ⟨hinv, hvalid⟩ := inv_calls hrun
  have hstep := Call.outcome hc w
  refine ⟨?_, ?_, kept_outcome hinv hstep, ?_⟩
  · intro hmem new hnew x hx
    exact ordered_outcome hinv hmem (fun hsmall => ⟨hsmall.1, hvalid hsmall⟩) hstep hnew hx
  · intro hregistered f hname
    refine syncFile_waits ?_
    rw [hname]
    exact hregistered.waits
  · intro hregistered hstop
    exact hregistered.outcome hinv hstep hstop

end Order

/-- What happens in a process: a method of the journal, or a call on a file. -/
inductive Event where
  | method (m : Method)
  | call (c : Call)

def Event.run (s : Session) : Event → Session
  | .method m => m.run s
  | .call c => { s with world := c.run s.world }

def Event.Meets (s : Session) : Event → Prop
  | .method m => m.Meets s
  | .call c => c.Meets anySize

/-- A session after some events. -/
def Events : Session → Session → Prop :=
  Relation.ReflTransGen (fun s s' => ∃ e : Event, e.Meets s ∧ s' = e.run s)

theorem calls_event {s : Session} {e : Event} (he : e.Meets s) :
    Calls anySize s.world (e.run s).world := by
  cases e with
  | method m => exact (calls_method he).2
  | call c => exact .single ⟨c, he, rfl⟩

theorem calls_events {s s' : Session} (h : Events s s') : Calls anySize s.world s'.world := by
  induction h with
  | refl => exact .refl
  | tail _ hlast ih =>
    obtain ⟨e, he, rfl⟩ := hlast
    exact ih.trans (calls_event he)

/-- In every run of the calls on the files each call keeps to the order, and what the methods of
the journal and the data files do in any order is such a run. -/
theorem journal_before_data (stored : String → Stored) :
    (∀ fits w, Calls fits (restart stored) w → ∀ c : Call, c.Meets fits → ∀ d,
      JournalFirst (Small fits stored) w c d) ∧
    ∀ s s', s.world = restart stored → Events s s' → Calls anySize (restart stored) s'.world ∧
      ∀ e : Event, e.Meets s' → Calls anySize s'.world (e.run s').world := by
  refine ⟨?_, ?_⟩
  · intro fits w hrun c hc d
    exact journalFirst_calls hrun hc d
  · intro s s' hworld hevents
    refine ⟨?_, fun e he => calls_event he⟩
    rw [← hworld]
    exact calls_events hevents

theorem calls_foldl {fits : Nat → Prop} {cs : List Call} (hcs : ∀ c ∈ cs, c.Meets fits)
    (w : World) :
    Calls fits w (cs.foldl Call.run w) := by
  induction cs generalizing w with
  | nil => exact .refl
  | cons c cs ih =>
    have hfirst : Calls fits w (c.run w) := .single ⟨c, hcs c List.mem_cons_self, rfl⟩
    exact hfirst.trans (ih (fun c' hc' => hcs c' (List.mem_cons_of_mem c hc')) _)

/-- A data file and its journal, with a byte written to each of them. -/
def recordedCalls : List Call :=
  [.openFile "db.data" true, .openFile "db.journal" true,
    .listenForSync ⟨"db.journal", true, 0⟩ "db.data", .writeByte ⟨"db.journal", true, 0⟩ 85,
    .writeByte ⟨"db.data", true, 0⟩ 1]

def recorded : World := recordedCalls.foldl Call.run (restart (fun _ => ⟨none, fun _ => none⟩))

def isPage : Commit → Bool
  | .page _ _ => true
  | .size _ => false

/-- The sync of the data file commits its page after the journal's. -/
theorem journal_before_data_recorded : ∃ u n p,
    ("db.data", .page n p) ∈ (Call.run recorded (.syncFile ⟨"db.data", true, 1⟩)).commits ∧
    Moment recorded (Call.run recorded (.syncFile ⟨"db.data", true, 1⟩)) "db.data" u ∧
    ∀ n, (u.files "db.journal").pages.stored.bytes n = (u.files "db.journal").pages.bytes n := by
  have hmeets : ∀ c ∈ recordedCalls, c.Meets (· < maxSize) := by
    simp only [recordedCalls, List.forall_mem_cons, Call.Meets]
    refine ⟨trivial, trivial, by decide, by decide, by decide, ?_⟩
    intro c hc
    cases hc
  have hpage : (Call.run recorded (.syncFile ⟨"db.data", true, 1⟩)).commits.any
      (fun x => x.1 = "db.data" && isPage x.2) = true := by
    decide +kernel
  obtain ⟨⟨name, x⟩, hx, hdata⟩ := List.any_eq_true.mp hpage
  obtain ⟨hname, hkind⟩ := Bool.and_eq_true_iff.mp hdata
  obtain rfl : name = "db.data" := of_decide_eq_true hname
  have hfirst := (journal_before_data (fun _ => ⟨none, fun _ => none⟩)).1 (· < maxSize) recorded
    (calls_foldl hmeets _) (.syncFile ⟨"db.data", true, 1⟩) trivial "db.data"
  have hlistens : journalName "db.data" ∈ (recorded.files "db.data").listenForSync := by
    decide +kernel
  have hcommits : recorded.commits.length = 0 := by decide +kernel
  rw [List.length_eq_zero_iff] at hcommits
  obtain ⟨u, hmoment, hcomplete⟩ := hfirst.ordered hlistens _
    (by rw [hcommits, List.nil_append]) x hx
  have hzero : 0 < maxSize := by decide
  have hbytes := hcomplete ⟨fun _ h => h, fun _ => hzero⟩
  have hjournal : journalName "db.data" = "db.journal" := by decide
  rw [hjournal] at hbytes
  cases x with
  | page n p => exact ⟨u, n, p, hx, hmoment, hbytes⟩
  | size n => cases hkind

end Rhodes.WriteAhead
