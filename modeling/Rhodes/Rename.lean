import Rhodes.StoppedJournal

/-!
rename of PersistRAFileImpl: the pages of a file are copied into the file of the new name, which
is synced, and the old file is deleted. Of each page as many bytes are copied as are left, modulo
the page size for the last one, so that a last page that is full is not copied.
-/
namespace Rhodes.Rename

open Arrays PagedFile FileImpl RandomAccess JournalFile JournalReplay Outcomes FileCalls WriteAhead
  StoppedJournal

inductive RenameExn where
  | connectionClosed
  | destinationExists
  | other (e : Exn)
  deriving DecidableEq

abbrev RenameM := EStateM RenameExn World

def onFiles {α : Type} (act : WorldM α) : RenameM α := fun w =>
  match act w with
  | .ok a w => .ok a w
  | .error e w => .error (.other e) w

/-- The part behind the last slash. -/
def lastElement (name : String) : String :=
  if lastIndexOf name.toList '/' ≥ 0 then
    String.ofList (name.toList.drop (lastIndexOf name.toList '/' + 1).toNat)
  else name

/-- The new last element behind the path of the old name. -/
def targetName (name nname : String) : String :=
  String.ofList (name.toList.take (name.length - (lastElement name).length)) ++ lastElement nname

/-- The loop over the pages, with the number of bytes that are left. -/
def copyPages (old new : String) : Nat → Nat → Nat → WorldM Unit
  | 0, _, _ => pure ()
  | k + 1, i, size =>
    if size > 0 then do
      let content ← onFile old (onPages (getPage i))
      onFile new (onPages (writePage i 0 content.val 0
        (if size > pageSize then pageSize else size % pageSize)))
      copyPages old new k (i + 1) (size - pageSize)
    else pure ()

/-- What rename does while it holds the new file. -/
def copyFile (old new : String) : WorldM Unit := do
  let size := ((← get).files old).pages.size
  onFile new (onPages (resize size))
  copyPages old new (toInt (size / pageSize + 1 : Nat)).toNat 0 size
  modify (fun w => w.setFile new { w.files new with fileExists := true })
  modify (syncInfo new)

/-- rename on an open handle. The last elements are compared as references: `sameObject` says
that they are one object. -/
def rename (f : RAFile) (nname : String) (sameObject : Bool) : RenameM Unit := fun w =>
  let info := w.files f.name
  if info.useCount ≤ 0 then .error (.other .internalError) w
  else if info.fileExists = false then .error .connectionClosed w
  else if sameObject then .ok () w
  else
    let newName := targetName f.name nname
    let newInfo := w.files newName
    if newInfo.useCount < 0 then .error (.other .internalError) w
    else if newInfo.fileExists then .error .destinationExists w
    else (do
      onFiles (copyFile f.name newName)
      onFiles (onFile f.name deleteInfo)
      modify (fun w => w.setFile f.name
        { w.files f.name with useCount := (w.files f.name).useCount - 1 }) : RenameM Unit) w

/-- The bytes that the loop copies: those of a last page that is full are left out. -/
def copiedSize (size : Nat) : Nat := if size % pageSize = 0 then size - pageSize else size

theorem copiedSize_le (size : Nat) : copiedSize size ≤ size := by
  unfold copiedSize
  split <;> omega

section Copy

variable {w : World} {old new : String} {size : Nat}

/-- The chunk of a page and what is copied after it. -/
theorem copiedSize_chunk {i : Nat} (h : i * pageSize < size) :
    copiedSize size - i * pageSize =
      (if size - i * pageSize > pageSize then pageSize else (size - i * pageSize) % pageSize) +
        (copiedSize size - (i + 1) * pageSize) := by
  have hmod : (size - i * pageSize) % pageSize = size % pageSize := by
    have hsum : size = size - i * pageSize + i * pageSize := by omega
    conv_rhs => rw [hsum, Nat.add_mul_mod_self_right]
  have hsucc : (i + 1) * pageSize = i * pageSize + pageSize := Nat.succ_mul i pageSize
  rw [hmod, hsucc]
  have hdvd : size % pageSize = 0 → size - i * pageSize > pageSize →
      i * pageSize + 2 * pageSize ≤ size := by
    intro hzero hgt
    obtain ⟨m, rfl⟩ := Nat.dvd_of_mod_eq_zero hzero
    have hlt : i + 1 < m := by
      by_contra hge
      have hle : pageSize * m ≤ pageSize * (i + 1) := Nat.mul_le_mul_left _ (by omega)
      rw [Nat.mul_comm pageSize (i + 1), hsucc] at hle
      omega
    have hle : pageSize * (i + 2) ≤ pageSize * m := Nat.mul_le_mul_left _ hlt
    rw [Nat.mul_comm pageSize (i + 2), Nat.add_mul] at hle
    exact hle
  have hlast : size - i * pageSize < pageSize → size % pageSize = size - i * pageSize := by
    intro hlt
    rw [← hmod, Nat.mod_eq_of_lt hlt]
  unfold copiedSize
  split_ifs with hzero hgt hgt
  · have hge := hdvd hzero hgt
    omega
  · omega
  · omega
  · rcases Nat.lt_or_ge (size - i * pageSize) pageSize with hlt | hge
    · have hrest := hlast hlt
      omega
    · have heq : size - i * pageSize = pageSize := by omega
      rw [heq, Nat.mod_self] at hmod
      omega

/-- Past the end of the file nothing is left to copy. -/
theorem written_nothing (hnew : (w.files new).pages.Valid) {i : Nat} (h : size ≤ i * pageSize) :
    Written (w.files new).pages (w.files new).pages (i * pageSize)
      (segment (w.files old).pages.byte (i * pageSize) (copiedSize size - i * pageSize)) := by
  have hcopied := copiedSize_le size
  have hzero : copiedSize size - i * pageSize = 0 := by omega
  rw [hzero, segment_zero]
  exact Written.nil hnew _

/-- The loop lays the bytes of the old file over those of the new one, from a page on. -/
theorem copyPages_spec (hne : old ≠ new) (hold : (w.files old).pages.Valid)
    (hnew : (w.files new).pages.Valid) {k i : Nat} (hk : size < (i + k) * pageSize)
    (holdPages : 0 < size → size / pageSize < (w.files old).pages.pages.length)
    (hnewPages : size / pageSize < (w.files new).pages.pages.length) :
    ∃ t t', copyPages old new k i (size - i * pageSize) w =
        .ok () ((w.setPages old t).setPages new t') ∧
      Unseen (w.files old).pages t ∧
      Written (w.files new).pages t' (i * pageSize)
        (segment (w.files old).pages.byte (i * pageSize) (copiedSize size - i * pageSize)) := by
  induction k generalizing w i with
  | zero =>
    refine ⟨_, _, ?_, Unseen.refl hold, written_nothing hnew (Nat.le_of_lt hk)⟩
    rw [setPages_self, setPages_self]
    rfl
  | succ k ih =>
    unfold copyPages
    by_cases hsize : size - i * pageSize > 0
    · rw [if_pos hsize]
      have hi : i ≤ size / pageSize :=
        (Nat.le_div_iff_mul_le (by decide)).mpr (by omega)
      obtain ⟨t, hget, hunseen, -⟩ := getPage_spec hold
        (Nat.lt_of_le_of_lt hi (holdPages (by omega)))
      have hread : onFile old (onPages (getPage i)) w =
          .ok ((w.files old).pages.bytes i) (w.setPages old t) := onFile_ok (onPages_ok hget)
      obtain ⟨chunk, hchunk⟩ : ∃ chunk, chunk =
        if size - i * pageSize > pageSize then pageSize else (size - i * pageSize) % pageSize :=
        ⟨_, rfl⟩
      have hle : chunk ≤ pageSize := by
        rw [hchunk]
        split
        · exact Nat.le_refl _
        · exact Nat.le_of_lt (Nat.mod_lt _ (show 0 < pageSize by decide))
      obtain ⟨t', hwrite, hwritten⟩ := writePage_spec hnew (Nat.lt_of_le_of_lt hi hnewPages) 0
        ((w.files old).pages.bytes i).val 0 chunk (by omega)
        (by rw [((w.files old).pages.bytes i).property]; omega)
      have hzero : 0 + chunk ≤ pageSize := by rw [Nat.zero_add]; exact hle
      rw [segment_page _ i hzero, Nat.add_zero] at hwritten
      have hfile : (w.setPages old t).files new = w.files new := files_setPages_of_ne _ _ _ hne.symm
      have hcopy : onFile new (onPages (writePage i 0 ((w.files old).pages.bytes i).val 0 chunk))
          (w.setPages old t) = .ok () ((w.setPages old t).setPages new t') := by
        refine onFile_ok ?_
        rw [hfile]
        exact onPages_ok hwrite
      have hfile' : ((w.setPages old t).setPages new t').files old =
          { w.files old with pages := t } := by
        rw [files_setPages_of_ne _ _ _ hne, files_setPages_self]
      have hnext : size - i * pageSize - pageSize = size - (i + 1) * pageSize := by
        rw [Nat.succ_mul]
        omega
      obtain ⟨u, u', hrest, hunseen', hwritten'⟩ :=
        ih (w := (w.setPages old t).setPages new t') (i := i + 1)
          (by rw [hfile']; exact hunseen.valid) (by rw [files_setPages_self]; exact hwritten.valid)
          (by rw [Nat.add_right_comm]; exact hk) (by rw [hfile', hunseen.length]; exact holdPages)
          (by rw [files_setPages_self, hwritten.length]; exact hnewPages)
      rw [hfile'] at hunseen'
      rw [hfile', files_setPages_self] at hwritten'
      dsimp only at hunseen' hwritten'
      rw [hunseen.byte] at hwritten'
      refine ⟨u, u', ?_, hunseen.trans hunseen', ?_⟩
      · rw [bind_ok hread, ← hchunk, bind_ok hcopy, hnext, hrest, setPages_comm _ _ _ hne.symm,
          setPages_setPages, setPages_setPages]
      · rw [copiedSize_chunk (by omega), ← hchunk, ← segment_append]
        have hpos : i * pageSize + chunk = (i + 1) * pageSize ∨
            copiedSize size - (i + 1) * pageSize = 0 := by
          have hcopied := copiedSize_le size
          rw [Nat.succ_mul]
          split at hchunk <;> omega
        refine hwritten.append ?_
        rw [length_segment]
        rcases hpos with hpos | hzero
        · rw [hpos]
          exact hwritten'
        · rw [hzero, segment_zero] at hwritten' ⊢
          exact hwritten'.nil_pos _
    · rw [if_neg hsize]
      refine ⟨_, _, ?_, Unseen.refl hold, written_nothing hnew (by omega)⟩
      rw [setPages_self, setPages_self]
      rfl

end Copy

/-- What every world that a process reaches satisfies. -/
structure Sound (w : World) : Prop where
  valid : ∀ n, (w.files n).pages.Valid
  useCount : ∀ n, 0 ≤ (w.files n).useCount

section Sync

variable {w : World}

/-- The syncs of some files are not seen in any file. -/
theorem foldl_syncPages_views (names : List String) (hw : ∀ n, (w.files n).pages.Valid)
    (n : String) :
    ((names.foldl (fun w listener => syncPages listener w) w).files n).pages.Valid ∧
      SameView (w.files n).pages
        ((names.foldl (fun w listener => syncPages listener w) w).files n).pages := by
  induction names generalizing w with
  | nil => exact ⟨hw n, SameView.refl _⟩
  | cons l names ih =>
    have hstep : ∀ m, ((syncPages l w).files m).pages.Valid ∧
        SameView (w.files m).pages ((syncPages l w).files m).pages := by
      intro m
      rw [files_syncPages]
      split
      · rename_i heq
        rw [heq]
        have hsync := sync_spec (hw l)
        exact ⟨hsync.valid, hsync.view⟩
      · exact ⟨hw m, SameView.refl _⟩
    obtain ⟨hvalid, hview⟩ := ih (fun m => (hstep m).1)
    exact ⟨hvalid, (hstep n).2.trans hview⟩

/-- A sync is not seen in any file, and brings the records up to the synced one. -/
structure SyncedInfo (name : String) (w w' : World) : Prop extends Counts w w' where
  valid : ∀ n, (w'.files n).pages.Valid
  view : ∀ n, SameView (w.files n).pages (w'.files n).pages
  storedSize : (w'.files name).pages.stored.size = some (w.files name).pages.size
  storedBytes : ∀ n, (w'.files name).pages.stored.bytes n = (w.files name).pages.bytes n

theorem syncedInfo (name : String) (hw : ∀ n, (w.files n).pages.Valid) :
    SyncedInfo name w (syncInfo name w) := by
  obtain ⟨u, hu⟩ : ∃ u, u =
    (w.files name).listenForSync.foldl (fun w listener => syncPages listener w) w := ⟨_, rfl⟩
  have hviews : ∀ n, (u.files n).pages.Valid ∧ SameView (w.files n).pages (u.files n).pages := by
    rw [hu]
    exact foldl_syncPages_views _ hw
  have hsync := sync_spec (hviews name).1
  have hfile : ∀ n, (syncInfo name w).files n = if n = name then
      { u.files name with pages := (sync (u.files name).pages).1 } else u.files n := by
    intro n
    rw [syncInfo, ← hu, files_syncPages]
  refine ⟨counts_syncInfo name w, ?_, ?_, ?_, ?_⟩
  · intro n
    rw [hfile]
    split
    · exact hsync.valid
    · exact (hviews n).1
  · intro n
    rw [hfile]
    split
    · rename_i heq
      rw [heq]
      exact (hviews name).2.trans hsync.view
    · exact (hviews n).2
  · rw [hfile, if_pos rfl, ← (hviews name).2.size]
    exact hsync.size
  · intro n
    rw [hfile, if_pos rfl, ← (hviews name).2.bytes]
    exact hsync.bytes n

end Sync

/-- The new file after the copy: the bytes that the loop leaves out are those it had before. -/
structure Copied (old new : String) (w w' : World) : Prop where
  valid : ∀ n, (w'.files n).pages.Valid
  useCount : ∀ n, (w'.files n).useCount = (w.files n).useCount
  fileExists : (w'.files new).fileExists = true
  size : (w'.files new).pages.size = (w.files old).pages.size
  byte : ∀ i < (w.files old).pages.size, (w'.files new).pages.byte i =
    if i < copiedSize (w.files old).pages.size then (w.files old).pages.byte i
    else (w.files new).pages.byte i
  storedSize : (w'.files new).pages.stored.size = some (w.files old).pages.size
  storedByte : ∀ i, storedByte (w'.files new).pages.stored i = (w'.files new).pages.byte i
  /-- Nothing is seen of it in another file. -/
  others : ∀ n ≠ new, SameView (w.files n).pages (w'.files n).pages ∧
    (w'.files n).fileExists = (w.files n).fileExists

section CopyFile

variable {w : World} {old new : String}

theorem copyFile_spec (hw : ∀ n, (w.files n).pages.Valid) (hne : old ≠ new) :
    ∃ w', copyFile old new w = .ok () w' ∧ Copied old new w w' := by
  obtain ⟨size, hsize⟩ : ∃ size, size = (w.files old).pages.size := ⟨_, rfl⟩
  have hsmall : size < maxSize := hsize ▸ (hw old).small
  obtain ⟨t₁, hresize, hresized⟩ := resize_spec (hw new) hsmall
  have hresize : onFile new (onPages (resize size)) w = .ok () (w.setPages new t₁) :=
    onFile_ok (onPages_ok hresize)
  have hold : (w.setPages new t₁).files old = w.files old := files_setPages_of_ne _ _ _ hne
  have holdPages : 0 < size →
      size / pageSize < ((w.setPages new t₁).files old).pages.pages.length := by
    intro hpos
    rw [hold]
    rcases (hw old).length with ⟨-, hzero⟩ | hlength
    · omega
    · rw [hlength, hsize]
      exact Nat.lt_succ_self _
  have hcount : (toInt (size / pageSize + 1 : Nat)).toNat = size / pageSize + 1 := by
    obtain ⟨last, hlast⟩ : ∃ last, last = size / pageSize := ⟨_, rfl⟩
    have hdiv : last < 2147483647 := hlast ▸ Nat.div_lt_of_lt_mul hsmall
    rw [← hlast, toInt_eq (by omega) (by omega), Int.toNat_natCast]
  have hpages : size / pageSize < ((w.setPages new t₁).files new).pages.pages.length := by
    rw [files_setPages_self]
    show _ < t₁.pages.length
    rw [hresized.length]
    exact Nat.lt_succ_self _
  have hfuel : size < (0 + (size / pageSize + 1)) * pageSize := by
    rw [Nat.zero_add]
    exact Nat.lt_mul_of_div_lt (Nat.lt_succ_self _) (by decide)
  obtain ⟨t, t', hcopy, hunseen, hwritten⟩ := copyPages_spec hne (by rw [hold]; exact hw old)
    (by rw [files_setPages_self]; exact hresized.valid) hfuel holdPages hpages
  rw [hold, files_setPages_self, Nat.zero_mul, Nat.sub_zero] at hwritten
  rw [hold] at hunseen
  rw [Nat.zero_mul, Nat.sub_zero] at hcopy
  obtain ⟨w₃, hw₃⟩ : ∃ w₃, w₃ =
      (((w.setPages new t₁).setPages old t).setPages new t').setFile new
        { w.files new with pages := t', fileExists := true } := ⟨_, rfl⟩
  have hfiles : ∀ n, w₃.files n =
      if n = new then { w.files new with pages := t', fileExists := true }
      else if n = old then { w.files old with pages := t } else w.files n := by
    intro n
    rw [hw₃, files_setFile]
    split
    · rfl
    · rename_i hn
      rw [files_setPages_of_ne _ _ _ hn, files_setPages, hold]
      split
      · rfl
      · exact files_setPages_of_ne _ _ _ hn
  have hvalid : ∀ n, (w₃.files n).pages.Valid := by
    intro n
    rw [hfiles]
    split_ifs
    · exact hwritten.valid
    · exact hunseen.valid
    · exact hw n
  have hsync := syncedInfo new hvalid
  have hnew : (w₃.files new).pages = t' := by rw [hfiles, if_pos rfl]
  have hsize' : t'.size = size := hwritten.size.trans hresized.size
  refine ⟨syncInfo new w₃, ?_, hsync.valid, ?_, ?_, ?_, ?_, ?_, ?_, ?_⟩
  · have hexists : ((((w.setPages new t₁).setPages old t).setPages new t').setFile new
        { (((w.setPages new t₁).setPages old t).setPages new t').files new with
          fileExists := true }) = w₃ := by
      rw [hw₃, files_setPages_self, files_setPages_of_ne _ _ _ hne.symm, files_setPages_self]
    unfold copyFile
    rw [bind_get, ← hsize, bind_ok hresize, hcount, bind_ok hcopy, ← hexists]
    rfl
  · intro n
    rw [hsync.useCount, hfiles]
    split_ifs with hn hn
    · rw [hn]
    · rw [hn]
    · rfl
  · rw [hsync.fileExists, hfiles, if_pos rfl]
  · rw [(hsync.view new).size, hnew, hsize', hsize]
  · intro i hi
    rw [(hsync.view new).byte, hnew, hwritten.byte, ← hsize]
    by_cases hcopied : i < copiedSize size
    · rw [if_pos hcopied, overlay, if_pos (Nat.zero_le i), Nat.sub_zero,
        getElem?_segment _ _ hcopied, Nat.zero_add]
      rfl
    · rw [if_neg hcopied, overlay_of_le _ (by rw [length_segment]; omega), PageTable.byte,
        PageTable.byte]
      have hpage : i / pageSize < size / pageSize + 1 :=
        Nat.lt_succ_of_le (Nat.div_le_div_right (by omega))
      rw [hresized.bytes _ hpage]
  · rw [hsync.storedSize, hnew, hsize', hsize]
  · intro i
    rw [storedByte, hsync.storedBytes, (hsync.view new).byte, PageTable.byte]
  · intro n hn
    have hview := hsync.view n
    rw [hsync.fileExists, hfiles, if_neg hn]
    rw [hfiles, if_neg hn] at hview
    split at hview
    · rename_i heq
      subst heq
      rw [if_pos rfl]
      exact ⟨hunseen.toSameView.trans hview, rfl⟩
    · rename_i hother
      rw [if_neg hother]
      exact ⟨hview, rfl⟩

end CopyFile

/-- The file is under the new name only, and its records are up to it. -/
structure Moved (old new : String) (w w' : World) : Prop where
  fileExists : (w'.files new).fileExists = true
  size : (w'.files new).pages.size = (w.files old).pages.size
  storedSize : (w'.files new).pages.stored.size = some (w.files old).pages.size
  storedByte : ∀ i, storedByte (w'.files new).pages.stored i = (w'.files new).pages.byte i
  gone : (w'.files old).fileExists = false ∧ (w'.files old).pages.stored.size = none
  /-- Nothing is seen of it in another file. -/
  others : ∀ n ≠ old, n ≠ new → SameView (w.files n).pages (w'.files n).pages ∧
    (w'.files n).fileExists = (w.files n).fileExists

/-- It has the bytes of the old file. -/
structure Renamed (old new : String) (w w' : World) : Prop extends Moved old new w w' where
  byte : ∀ i < (w.files old).pages.size,
    (w'.files new).pages.byte i = (w.files old).pages.byte i

section Rename

variable {w : World} {f : RAFile} {nname : String} {sameObject : Bool}

theorem rename_spec (hw : Sound w) (huse : 0 < (w.files f.name).useCount)
    (hexists : (w.files f.name).fileExists = true)
    (hnew : (w.files (targetName f.name nname)).fileExists = false) :
    ∃ w', rename f nname false w = .ok () w' ∧ Sound w' ∧
      Moved f.name (targetName f.name nname) w w' ∧
      ∀ i < (w.files f.name).pages.size, (w'.files (targetName f.name nname)).pages.byte i =
        if i < copiedSize (w.files f.name).pages.size then (w.files f.name).pages.byte i
        else (w.files (targetName f.name nname)).pages.byte i := by
  obtain ⟨new, hnewName⟩ : ∃ new, new = targetName f.name nname := ⟨_, rfl⟩
  rw [← hnewName] at hnew ⊢
  have hne : f.name ≠ new := by
    intro heq
    rw [← heq, hexists] at hnew
    cases hnew
  obtain ⟨u, hcopy, hcopied⟩ := copyFile_spec hw.valid hne
  obtain ⟨w', hw'⟩ : ∃ w', w' = u.setFile f.name
      { u.files f.name with
        fileExists := false
        pages := deleted (u.files f.name).pages
        useCount := (u.files f.name).useCount - 1 } := ⟨_, rfl⟩
  have hfiles : ∀ n, n ≠ f.name → w'.files n = u.files n := by
    intro n hn
    rw [hw', files_setFile_of_ne _ _ _ hn]
  have hfile : w'.files f.name = { u.files f.name with
      fileExists := false
      pages := deleted (u.files f.name).pages
      useCount := (u.files f.name).useCount - 1 } := by
    rw [hw', files_setFile_self]
  refine ⟨w', ?_, ⟨?_, ?_⟩, ⟨?_, ?_, ?_, ?_, ?_, ?_⟩, ?_⟩
  · unfold rename
    dsimp only
    rw [← hnewName, if_neg (by omega), if_neg (by rw [hexists]; decide), if_neg (by decide),
      if_neg (Int.not_lt.mpr (hw.useCount new)), if_neg (by rw [hnew]; decide)]
    have hcopy' : onFiles (copyFile f.name new) w = .ok () u := by
      rw [onFiles, hcopy]
    rw [bind_ok hcopy']
    have hdelete : onFiles (onFile f.name deleteInfo) u = .ok () (u.setFile f.name
        { u.files f.name with fileExists := false, pages := deleted (u.files f.name).pages }) := rfl
    rw [bind_ok hdelete, hw']
    show EStateM.Result.ok () (World.setFile _ _ _) = _
    rw [files_setFile_self]
    unfold World.setFile
    rw [Function.update_idem]
  · intro n
    by_cases hn : n = f.name
    · rw [hn, hfile]
      exact valid_deleted _
    · rw [hfiles n hn]
      exact hcopied.valid n
  · intro n
    by_cases hn : n = f.name
    · rw [hn, hfile]
      show 0 ≤ (u.files f.name).useCount - 1
      rw [hcopied.useCount]
      omega
    · rw [hfiles n hn, hcopied.useCount]
      exact hw.useCount n
  · rw [hfiles new hne.symm]
    exact hcopied.fileExists
  · rw [hfiles new hne.symm]
    exact hcopied.size
  · rw [hfiles new hne.symm]
    exact hcopied.storedSize
  · rw [hfiles new hne.symm]
    exact hcopied.storedByte
  · rw [hfile]
    exact ⟨rfl, rfl⟩
  · intro n hold hn
    rw [hfiles n hold]
    exact hcopied.others n hn
  · rw [hfiles new hne.symm]
    exact hcopied.byte

/-- A rename that does not get to its copy leaves the files as they are. -/
theorem rename_refused (h : ¬((w.files f.name).useCount > 0 ∧
      (w.files f.name).fileExists = true ∧ sameObject = false ∧
      0 ≤ (w.files (targetName f.name nname)).useCount ∧
      (w.files (targetName f.name nname)).fileExists = false)) :
    final (rename f nname sameObject w) = w := by
  unfold rename
  dsimp only
  split_ifs with huse hexists hsame hcount hnew
  · rfl
  · rfl
  · rfl
  · rfl
  · rfl
  · rw [Bool.not_eq_false] at hexists
    rw [Bool.not_eq_true] at hsame hnew
    exact absurd ⟨Int.not_le.mp huse, hexists, hsame, Int.not_lt.mp hcount, hnew⟩ h

theorem sound_rename (hw : Sound w) (f : RAFile) (nname : String) (sameObject : Bool) :
    Sound (final (rename f nname sameObject w)) := by
  by_cases h : (w.files f.name).useCount > 0 ∧
      (w.files f.name).fileExists = true ∧ sameObject = false ∧
      0 ≤ (w.files (targetName f.name nname)).useCount ∧
      (w.files (targetName f.name nname)).fileExists = false
  · obtain ⟨huse, hexists, rfl, -, hnew⟩ := h
    obtain ⟨w', hrename, hsound, -⟩ := rename_spec hw huse hexists hnew
    rw [hrename]
    exact hsound
  · rw [rename_refused h]
    exact hw

end Rename

/-- The files that a process reaches by calls and renames, as long as page numbers are ints. -/
inductive Reached (stored : String → Stored) : World → Prop
  | restarted : Reached stored (restart stored)
  | called {w : World} {c : Call} (hc : c.Meets (fun n => n < maxSize)) (hw : Reached stored w) :
      Reached stored (c.run w)
  | renamed {w : World} (f : RAFile) (nname : String) (sameObject : Bool) (hw : Reached stored w) :
      Reached stored (final (rename f nname sameObject w))

section Runs

variable {w : World}

/-- An open handle is counted, and a handle is closed only once. -/
theorem useCount_call (hw : ∀ n, 0 ≤ (w.files n).useCount) (c : Call) (n : String) :
    0 ≤ ((c.run w).files n).useCount := by
  have hset : ∀ (name : String) (info : FileInfo), 0 ≤ info.useCount →
      0 ≤ ((w.setFile name info).files n).useCount := by
    intro name info hinfo
    rw [files_setFile]
    split
    · exact hinfo
    · exact hw n
  have hcounts : ∀ {w'}, Counts w w' → 0 ≤ (w'.files n).useCount := by
    intro w' h
    rw [h.useCount]
    exact hw n
  cases c with
  | openFile name writeAccess =>
    show 0 ≤ ((final (RandomAccess.openFile name writeAccess w)).files n).useCount
    unfold RandomAccess.openFile
    dsimp only
    split_ifs with huse
    · exact hw n
    · exact hw n
    · refine hset name _ ?_
      show 0 ≤ (w.files name).useCount + 1
      omega
  | closeFile f =>
    show 0 ≤ ((final (RandomAccess.closeFile f w)).files n).useCount
    unfold RandomAccess.closeFile
    dsimp only
    have hclosed : ¬(w.files f.name).useCount ≤ 0 → 0 ≤ (w.files f.name).useCount - 1 := by omega
    split_ifs with huse
    · exact hw n
    · show 0 ≤ ((syncInfo f.name _).files n).useCount
      rw [(counts_syncInfo f.name _).useCount]
      exact hset f.name _ (hclosed huse)
    · exact hset f.name _ (hclosed huse)
  | setLength f newLength => exact hcounts (counts_setLength f newLength w)
  | syncFile f => exact hcounts (counts_syncFile f w)
  | writeByte f b => exact hcounts (counts_writeByte f b w)
  | writeArray f b => exact hcounts (counts_writeArray f b w)
  | readByte f => exact hcounts (counts_readByte f w)
  | readArray f b => exact hcounts (counts_readArray f b w)
  | listenForSync f name => exact hcounts (counts_listenForSync f name w)
  | stopListenForSync f name =>
    show 0 ≤ ((final (RandomAccess.stopListenForSync f name w)).files n).useCount
    rw [files_stopListenForSync]
    exact hw n
  | removeElement name =>
    have hremove : Call.run w (.removeElement name) = final
        ((if (w.files name).fileExists then onFile name deleteInfo else pure () : WorldM Unit) w) :=
      rfl
    rw [hremove]
    split
    · exact hset name _ (hw name)
    · exact hw n

theorem sound_reached {stored : String → Stored} (hstored : ∀ n, (stored n).size.getD 0 < maxSize)
    (h : Reached stored w) : Sound w := by
  induction h with
  | restarted => exact ⟨fun n => valid_ofStored (hstored n), fun n => Int.le_refl 0⟩
  | called hc _ ih =>
    exact ⟨valid_outcome (fun _ => id) ih.valid (Call.outcome hc _), useCount_call ih.useCount _⟩
  | renamed f nname sameObject _ ih => exact sound_rename ih f nname sameObject

end Runs

theorem lastElement_eq_drop (name : String) :
    ∃ k : Nat, (lastElement name).toList = name.toList.drop k := by
  unfold lastElement
  split
  · exact ⟨_, String.toList_ofList⟩
  · exact ⟨0, rfl⟩

/-- A name whose last element is the same is the same name. -/
theorem targetName_self {name nname : String} (h : lastElement nname = lastElement name) :
    targetName name nname = name := by
  obtain ⟨k, hk⟩ := lastElement_eq_drop name
  have hpath : name.toList.take (name.length - (lastElement name).length) = name.toList.take k := by
    rw [← String.length_toList, ← String.length_toList, hk, List.length_drop]
    rcases Nat.le_total k name.toList.length with hle | hge
    · rw [Nat.sub_sub_self hle]
    · rw [Nat.sub_eq_zero_of_le hge, Nat.sub_zero, List.take_length, List.take_of_length_le hge]
  apply String.toList_injective
  unfold targetName
  rw [h, String.toList_append, String.toList_ofList, hpath, hk, List.take_append_drop]

/-- What rename promises: where the new name exists it throws and leaves the files, and else it
renames the file. -/
def Promised (w : World) (f : RAFile) (nname : String) (sameObject : Bool) : Prop :=
  if (w.files (targetName f.name nname)).fileExists = true then
    ∃ e, rename f nname sameObject w = .error e w
  else ∃ w', rename f nname sameObject w = .ok () w' ∧
    Renamed f.name (targetName f.name nname) w w'

/-- The last page is not full, or the new file shows the same bytes there before. -/
def LastPageKept (old new : PageTable) : Prop :=
  old.size % pageSize = 0 → ∀ i, old.size - pageSize ≤ i → i < old.size → new.byte i = old.byte i

/-- Exactly when rename does what it promises: the new name exists and the last elements are not
one object, or it does not and the last page is kept. -/
theorem rename_promised_iff {stored : String → Stored}
    (hstored : ∀ n, (stored n).size.getD 0 < maxSize) {w : World} (hw : Reached stored w)
    {f : RAFile} (huse : 0 < (w.files f.name).useCount)
    (hexists : (w.files f.name).fileExists = true) {nname : String} {sameObject : Bool}
    (hsame : sameObject = true → lastElement nname = lastElement f.name) :
    Promised w f nname sameObject ↔
      if (w.files (targetName f.name nname)).fileExists = true then sameObject = false
      else LastPageKept (w.files f.name).pages (w.files (targetName f.name nname)).pages := by
  have hsound := sound_reached hstored hw
  unfold Promised
  by_cases hnew : (w.files (targetName f.name nname)).fileExists = true
  · rw [if_pos hnew, if_pos hnew]
    cases sameObject with
    | true =>
      have hreturns : rename f nname true w = .ok () w := by
        unfold rename
        rw [if_neg (by omega), if_neg (by rw [hexists]; decide), if_pos rfl]
      simp [hreturns]
    | false =>
      refine iff_of_true ⟨.destinationExists, ?_⟩ rfl
      unfold rename
      dsimp only
      rw [if_neg (by omega), if_neg (by rw [hexists]; decide), if_neg (by decide),
        if_neg (Int.not_lt.mpr (hsound.useCount _)), if_pos hnew]
  · rw [if_neg hnew, if_neg hnew]
    have hsameObject : sameObject = false := by
      rw [← Bool.not_eq_true]
      intro htrue
      rw [targetName_self (hsame htrue)] at hnew
      exact hnew hexists
    subst hsameObject
    obtain ⟨w', hrename, -, hmoved, hbyte⟩ :=
      rename_spec hsound huse hexists (Bool.not_eq_true _ ▸ hnew)
    unfold LastPageKept
    constructor
    · rintro ⟨u, hu, hrenamed⟩ hfull i hlow hi
      rw [hrename] at hu
      cases hu
      have hcopied : ¬i < copiedSize (w.files f.name).pages.size := by
        unfold copiedSize
        rw [if_pos hfull]
        omega
      rw [← hrenamed.byte i hi, hbyte i hi, if_neg hcopied]
    · intro hkept
      refine ⟨w', hrename, hmoved, ?_⟩
      intro i hi
      rw [hbyte i hi]
      split
      · rfl
      · rename_i hcopied
        unfold copiedSize at hcopied
        split at hcopied
        · rename_i hfull
          exact hkept hfull i (Nat.le_of_not_lt hcopied) hi
        · exact absurd hi hcopied

/-- The records of a file of letters under the name `a`. -/
def letters (size : Nat) : String → Stored := fun name =>
  if name = "a" then
    ⟨some size, fun _ => some ⟨List.replicate pageSize 65, List.length_replicate⟩⟩
  else ⟨none, fun _ => none⟩

/-- The file of letters is opened. -/
def lettersOpened (size : Nat) : World := Call.run (restart (letters size)) (.openFile "a" true)

theorem size_letters {size : Nat} (h : size < maxSize) (n : String) :
    ((letters size) n).size.getD 0 < maxSize := by
  unfold letters
  split
  · exact h
  · exact (by decide : 0 < maxSize)

theorem reached_letters (size : Nat) : Reached (letters size) (lettersOpened size) :=
  .called (c := .openFile "a" true) trivial .restarted

/-- It is open, and the file `b` is not there. -/
theorem lettersOpened_files (size : Nat) :
    (lettersOpened size).files "a" =
        ⟨1, true, 0, [], PageTable.ofStored (letters size "a")⟩ ∧
      (lettersOpened size).files "b" = FileInfo.ofStored (letters size "b") :=
  ⟨rfl, rfl⟩

theorem targetName_letters : targetName "a" "b" = "b" := by decide

theorem rename_promised_iff_letter : Promised (lettersOpened 1) ⟨"a", true, 0⟩ "b" false := by
  obtain ⟨hold, hnew⟩ := lettersOpened_files 1
  have hstored : ∀ n, (letters 1 n).size.getD 0 < maxSize := size_letters (by decide)
  have hiff := @rename_promised_iff (letters 1) hstored (lettersOpened 1) (reached_letters 1)
    ⟨"a", true, 0⟩ (by rw [hold]; decide) (by rw [hold]) "b" false (fun h => absurd h (by decide))
  refine hiff.mpr ?_
  rw [targetName_letters, hold, hnew]
  have hmissing : (FileInfo.ofStored (letters 1 "b")).fileExists = false := rfl
  have hsize : (PageTable.ofStored (letters 1 "a")).size = 1 := rfl
  rw [hmissing, if_neg (by decide)]
  unfold LastPageKept
  rw [hsize]
  intro hfull
  exact absurd hfull (by decide)

/-- The one page of a file of 4096 letters is not copied. -/
theorem full_page_lost : ¬Promised (lettersOpened 4096) ⟨"a", true, 0⟩ "b" false := by
  obtain ⟨hold, hnew⟩ := lettersOpened_files 4096
  have hsound : Sound (lettersOpened 4096) :=
    sound_reached (size_letters (by decide)) (reached_letters 4096)
  have hexists : ((lettersOpened 4096).files "b").fileExists = false := by
    rw [hnew]
    rfl
  have hrenames := @rename_spec (lettersOpened 4096) ⟨"a", true, 0⟩ "b" hsound
    (by rw [hold]; decide) (by rw [hold]) (by rw [targetName_letters, hexists])
  obtain ⟨w', hrename, -, -, hbyte⟩ := hrenames
  unfold Promised
  rw [targetName_letters, hexists, if_neg (by decide)]
  rintro ⟨u, hu, hrenamed⟩
  rw [hrename] at hu
  cases hu
  have hlost := hbyte 0 (by rw [hold]; decide)
  rw [targetName_letters, hrenamed.byte 0 (by rw [hold]; decide), hold, hnew] at hlost
  have hsize : (PageTable.ofStored (letters 4096 "a")).size = 4096 := rfl
  have hcopied : copiedSize 4096 = 0 := rfl
  have hempty : (FileInfo.ofStored (letters 4096 "b")).pages =
      PageTable.ofStored ⟨none, fun _ => none⟩ := rfl
  rw [hsize, hcopied, if_neg (by decide), hempty, byte_ofStored, byte_ofStored] at hlost
  change (List.replicate pageSize (65 : UInt8)).getD 0 0 =
    (List.replicate pageSize (0 : UInt8)).getD 0 0 at hlost
  simp only [List.getD_eq_getElem?_getD, List.getElem?_replicate] at hlost
  exact absurd hlost (by decide)

end Rhodes.Rename
