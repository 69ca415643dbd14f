import Rhodes.JournalReplay

/-!
A crash while the journal is started: the records of the store are those of some prefix of the
commits, the journal is committed before the data file, and the next start writes the saved
bytes back. A region that was written before is saved as it then is, a region that reaches past
the old end is saved with a wrong length or put back past that end, and a position or length
with a byte above 127 is not read back; without these the data file is what it was.
-/
namespace Rhodes.JournalRecovery

open Arrays PagedFile FileImpl RandomAccess JournalFile JournalReplay

/-- A region that is saved and then written to, or a sync of the data file. -/
inductive Step where
  | write (pos len wpos : Nat) (b : List UInt8)
  | sync

def exec (d : String) : Step → JournalM Unit
  | .write pos len wpos b => do
    JournalFile.write pos len
    let _ ← onWorld (writeArray ⟨d, true, wpos⟩ b)
  | .sync => onWorld (syncFile ⟨d, true, 0⟩)

/-- The session after a call, whether it throws or not. -/
def after {α : Type} : EStateM.Result Exn Session α → Session
  | .ok _ s => s
  | .error _ s => s

def run (d : String) : List Step → Session → Session
  | [], s => s
  | step :: steps, s => run d steps (after (exec d step s))

/-- The data file is open and the journal is started, with nothing saved yet. -/
def started (stored : String → Stored) (d : String) : Session where
  world := (restart stored).setFile d
    { FileInfo.ofStored (stored d) with fileExists := true, useCount := 1 }
  journal := ⟨journalName d, d, none, none, true⟩

/-- The journal of a process that starts again. -/
def newJournal : Journal := ⟨"", "", none, none, false⟩

/-- create after a restart gives the data file its content back. -/
def Restores (stored : String → Stored) (d : String) (size₀ : Nat) (g : Nat → UInt8) : Prop :=
  ∃ s, create d ⟨restart stored, newJournal⟩ = .ok () s ∧
    (s.world.files d).pages.size = size₀ ∧ ∀ i < size₀, (s.world.files d).pages.byte i = g i

section Commits

variable {stored : String → Stored} {name : String}

theorem committed_append (stored : String → Stored) (cs cs' : List (String × Commit)) :
    committed stored (cs ++ cs') = committed (committed stored cs) cs' :=
  List.foldl_append

theorem committed_map (stored : String → Stored) (name : String) (cs : List Commit) :
    committed stored (cs.map (fun c => (name, c))) =
      Function.update stored name (cs.foldl Stored.commit (stored name)) := by
  induction cs generalizing stored with
  | nil => exact (Function.update_eq_self name stored).symm
  | cons c cs ih =>
    show committed (Function.update stored name ((stored name).commit c)) (cs.map _) = _
    rw [ih, Function.update_self, Function.update_idem]
    rfl

/-- What holds of the records at every crash before a sync of one file, and at every crash in
it. -/
theorem forall_take_append {P : (String → Stored) → Prop} {cs : List (String × Commit)}
    {new : List Commit} (hold : ∀ k, P (committed stored (cs.take k)))
    (hnew : ∀ k, P (Function.update (committed stored cs) name
      ((new.take k).foldl Stored.commit (committed stored cs name)))) (k : Nat) :
    P (committed stored ((cs ++ new.map (fun c => (name, c))).take k)) := by
  by_cases hk : k ≤ cs.length
  · rw [List.take_append_of_le_length hk]
    exact hold k
  · rw [List.take_append, List.take_of_length_le (Nat.le_of_not_le hk), ← List.map_take,
      committed_append, committed_map]
    exact hnew _

end Commits

/-- The position lies in a region that was saved. -/
def Covered (rs : List Record) (i : Nat) : Prop :=
  ∃ r ∈ rs, r.pos ≤ i ∧ i < r.pos + r.bytes.length

/-- A record with the bytes that the data file had at the start. -/
structure Saved (size₀ : Nat) (g : Nat → UInt8) (r : Record) : Prop where
  readable : r.Readable
  inside : r.pos + r.bytes.length ≤ size₀
  bytes : r.bytes = segment g r.pos r.bytes.length

section Restore

variable {size₀ : Nat} {g : Nat → UInt8} {rs : List Record}

theorem overlay_saved {r : Record} (hr : Saved size₀ g r) {h : Nat → UInt8} {i : Nat}
    (hi : h i = g i ∨ r.pos ≤ i ∧ i < r.pos + r.bytes.length) :
    overlay h r.pos r.bytes i = g i := by
  by_cases hin : r.pos ≤ i ∧ i < r.pos + r.bytes.length
  · have hlt : i - r.pos < r.bytes.length := by omega
    have hget : r.bytes[i - r.pos]? = some (g i) := by
      rw [hr.bytes, getElem?_segment _ _ hlt]
      congr 2
      omega
    rw [overlay, if_pos hin.1, hget]
    rfl
  · have hsame : h i = g i := hi.resolve_right hin
    by_cases hlow : r.pos ≤ i
    · rw [overlay_of_le _ (by omega), hsame]
    · rw [overlay_of_lt _ _ (by omega), hsame]

/-- Writing the saved bytes back restores every byte that was saved. -/
theorem restored_saved (hrs : ∀ r ∈ rs, Saved size₀ g r) {h : Nat → UInt8} {i : Nat}
    (hi : h i = g i ∨ Covered rs i) : restored h rs i = g i := by
  induction rs generalizing h with
  | nil =>
    rcases hi with hi | ⟨r, hr, -⟩
    · exact hi
    · cases hr
  | cons r rs ih =>
    apply ih (fun r' hr' => hrs r' (List.mem_cons_of_mem _ hr'))
    by_cases hin : r.pos ≤ i ∧ i < r.pos + r.bytes.length
    · exact Or.inl (overlay_saved (hrs r List.mem_cons_self) (Or.inr hin))
    · rcases hi with hi | ⟨r', hr', hin'⟩
      · exact Or.inl (overlay_saved (hrs r List.mem_cons_self) (Or.inl hi))
      · rcases List.mem_cons.mp hr' with rfl | hr'
        · exact absurd hin' hin
        · exact Or.inr ⟨r', hr', hin'⟩

theorem saved_segment {pos len : Nat} (hlen : 0 < len) (hend : pos + len ≤ size₀)
    (hlt : pos + len < 2147483648) (hpos : LowBytes pos) (hlow : LowBytes len) :
    Saved size₀ g ⟨pos, segment g pos len⟩ := by
  have hlength : (segment g pos len).length = len := length_segment g pos len
  refine ⟨⟨hpos, ?_, ?_, ?_⟩, ?_, ?_⟩
  · show LowBytes (segment g pos len).length
    rw [hlength]
    exact hlow
  · exact List.ne_nil_of_length_pos (hlength.symm ▸ hlen)
  · show pos + (segment g pos len).length < 2147483648
    rw [hlength]
    exact hlt
  · show pos + (segment g pos len).length ≤ size₀
    rw [hlength]
    exact hend
  · show segment g pos len = segment g pos (segment g pos len).length
    rw [hlength]

end Restore

/-- The records of the store hold these records of the journal. -/
structure JournalAt (stored : String → Stored) (j : String) (size₀ : Nat) (rs : List Record) :
    Prop where
  size : (stored j).size = some (encode size₀ rs).length
  bytes : segment (storedByte (stored j)) 0 (encode size₀ rs).length = encode size₀ rs

/-- A restart from these records finds every byte that was changed in the journal. -/
structure RecoverableBy (stored : String → Stored) (d : String) (size₀ : Nat) (g : Nat → UInt8)
    (rs : List Record) : Prop where
  journal : JournalAt stored (journalName d) size₀ rs ∨
    (stored (journalName d)).size = none ∧ rs = [] ∧ (stored d).size = some size₀
  data : ∃ z, (stored d).size = some z ∧ z < maxSize ∧ size₀ ≤ z
  byte : ∀ i < size₀, storedByte (stored d) i = g i ∨ Covered rs i

theorem onWorld_ok {α : Type} {act : WorldM α} {s : Session} {a : α} {w : World}
    (h : act s.world = .ok a w) : onWorld act s = .ok a { s with world := w } := by
  rw [onWorld, h]

theorem RecoverableBy.restores {stored : String → Stored} {d : String} {size₀ : Nat}
    {g : Nat → UInt8} {rs : List Record} (h : RecoverableBy stored d size₀ g rs)
    (hne : journalName d ≠ d) (hlow : LowBytes size₀) (hsmall : size₀ < maxSize)
    (hlength : (encode size₀ rs).length < 2147483648) (hrs : ∀ r ∈ rs, Saved size₀ g r) :
    Restores stored d size₀ g := by
  obtain ⟨z, hz, hzmax, hle⟩ := h.data
  have hcreate : ∀ {w}, rollback (journalName d) d (restart stored) = .ok () w →
      create d ⟨restart stored, newJournal⟩ =
        .ok () ⟨w, { newJournal with journalName := journalName d, dataName := d }⟩ := by
    intro w hw
    exact onWorld_ok (s := ⟨restart stored,
      { newJournal with journalName := journalName d, dataName := d }⟩) hw
  rcases h.journal with hjournal | ⟨hnone, rfl, hsize⟩
  · obtain ⟨w, hw, hback⟩ := rollback_spec ⟨hne, hlow, hsmall, hlength, hjournal.size,
      hjournal.bytes, ⟨z, hz, hzmax⟩, fun r hr => ⟨(hrs r hr).readable, (hrs r hr).inside⟩⟩
    refine ⟨_, hcreate hw, hback.size, ?_⟩
    intro i hi
    rw [hback.byte i hi]
    exact restored_saved hrs (h.byte i hi)
  · refine ⟨_, hcreate (rollback_none hnone), ?_, ?_⟩
    · show (stored d).size.getD 0 = size₀
      rw [hsize]
      rfl
    · intro i hi
      have hbyte : storedByte (stored d) i = g i := by
        rcases h.byte i hi with hbyte | ⟨r, hr, -⟩
        · exact hbyte
        · cases hr
      exact (byte_ofStored (stored d) i).trans hbyte

/-- A restart from these records is covered by the first of the records of the journal. -/
def Recoverable (stored : String → Stored) (d : String) (size₀ : Nat) (g : Nat → UInt8)
    (rs : List Record) : Prop :=
  ∃ rs', rs' <+: rs ∧ RecoverableBy stored d size₀ g rs'

section Crash

theorem Covered.mono {rs rs' : List Record} (hle : rs' <+: rs) {i : Nat} (h : Covered rs' i) :
    Covered rs i := by
  obtain ⟨r, hr, hin⟩ := h
  exact ⟨r, hle.subset hr, hin⟩

theorem encode_mono {size : Nat} {rs rs' : List Record} (hle : rs' <+: rs) :
    encode size rs' <+: encode size rs := by
  obtain ⟨more, rfl⟩ := hle
  refine ⟨more.flatMap Record.encode, ?_⟩
  simp only [encode, List.flatMap_append, List.append_assoc]

theorem storedByte_commits {t : PageTable} {cs : List Commit}
    (hcs : ∀ x ∈ cs, ∃ n, x = .page n (t.bytes n)) (s : Stored) :
    (cs.foldl Stored.commit s).size = s.size ∧ ∀ i, storedByte (cs.foldl Stored.commit s) i =
      storedByte s i ∨ storedByte (cs.foldl Stored.commit s) i = t.byte i := by
  induction cs generalizing s with
  | nil => exact ⟨rfl, fun i => Or.inl rfl⟩
  | cons c cs ih =>
    obtain ⟨n, rfl⟩ := hcs c List.mem_cons_self
    obtain ⟨hsize, hbyte⟩ := ih (fun x hx => hcs x (List.mem_cons_of_mem _ hx))
      (s.commit (.page n (t.bytes n)))
    refine ⟨hsize, ?_⟩
    intro i
    rcases hbyte i with hold | hnew
    · have hpage : storedByte (s.commit (.page n (t.bytes n))) i =
          if i / pageSize = n then t.byte i else storedByte s i := by
        rw [storedByte, bytes_commit_page]
        split
        · rename_i hn
          rw [PageTable.byte, hn]
        · rfl
      rw [List.foldl_cons, hold, hpage]
      split
      · exact Or.inr rfl
      · exact Or.inl rfl
    · exact Or.inr hnew

/-- The records of a file at a crash inside its sync, or after it. -/
theorem crash_in_sync {t : PageTable} (ht : t.Valid) (k : Nat) :
    ((((sync t).2.take k).foldl Stored.commit t.stored).size = t.stored.size ∧
      ∀ i, storedByte (((sync t).2.take k).foldl Stored.commit t.stored) i = storedByte t.stored i ∨
        storedByte (((sync t).2.take k).foldl Stored.commit t.stored) i = t.byte i) ∨
    ((((sync t).2.take k).foldl Stored.commit t.stored).size = some t.size ∧
      ∀ i, storedByte (((sync t).2.take k).foldl Stored.commit t.stored) i = t.byte i) := by
  have hsync := sync_spec ht
  obtain ⟨pages, hcommits, hpages⟩ := hsync.commits
  by_cases hk : k ≤ pages.length
  · left
    rw [hcommits, List.take_append_of_le_length hk]
    exact storedByte_commits (fun x hx => hpages x (List.mem_of_mem_take hx)) t.stored
  · right
    have hall : (sync t).2.take k = (sync t).2 := by
      apply List.take_of_length_le
      rw [hcommits, List.length_append, List.length_singleton]
      omega
    rw [hall, ← hsync.stored]
    refine ⟨hsync.size, ?_⟩
    intro i
    rw [storedByte, hsync.bytes]
    rfl

variable {stored₀ : String → Stored} {d : String} {size₀ : Nat} {g : Nat → UInt8}
  {rs : List Record} {w : World}

/-- The whole journal is in the records. -/
theorem recoverableBy_journal (hne : journalName d ≠ d)
    (hcontent : Content (w.files (journalName d)).pages (encode size₀ rs))
    {stored : String → Stored} (hold : Recoverable stored d size₀ g rs) {s : Stored}
    (hsize : s.size = some (w.files (journalName d)).pages.size)
    (hbyte : ∀ i, storedByte s i = (w.files (journalName d)).pages.byte i) :
    RecoverableBy (Function.update stored (journalName d) s) d size₀ g rs := by
  obtain ⟨rs', hle, hby⟩ := hold
  have hdata : Function.update stored (journalName d) s d = stored d :=
    Function.update_of_ne hne.symm s stored
  refine ⟨Or.inl ⟨?_, ?_⟩, by rw [hdata]; exact hby.data, ?_⟩
  · rw [Function.update_self, hsize, hcontent.size]
  · rw [Function.update_self, segment_congr _ (fun i _ _ => hbyte i)]
    exact hcontent.bytes
  · intro i hi
    rw [hdata]
    exact (hby.byte i hi).imp_right (Covered.mono hle)

/-- A crash in the sync of the journal finds the old records in front of the new ones. -/
theorem recoverable_journal (hne : journalName d ≠ d)
    (hcontent : Content (w.files (journalName d)).pages (encode size₀ rs))
    {stored : String → Stored} (hstored : (w.files (journalName d)).pages.stored =
      stored (journalName d)) (hold : Recoverable stored d size₀ g rs) (k : Nat) :
    Recoverable (Function.update stored (journalName d)
      (((sync (w.files (journalName d)).pages).2.take k).foldl Stored.commit
        (stored (journalName d)))) d size₀ g rs := by
  obtain ⟨rs', hle, hby⟩ := hold
  rw [← hstored]
  have hdata : ∀ s, Function.update stored (journalName d) s d = stored d := fun s =>
    Function.update_of_ne hne.symm s stored
  rcases crash_in_sync hcontent.valid k with ⟨hsize, hbyte⟩ | ⟨hsize, hbyte⟩
  · refine ⟨rs', hle, ?_, by rw [hdata]; exact hby.data, by rw [hdata]; exact hby.byte⟩
    rcases hby.journal with hjournal | hnone
    · left
      refine ⟨?_, ?_⟩
      · rw [Function.update_self, hsize, hstored]
        exact hjournal.size
      · rw [Function.update_self, segment_congr (storedByte (stored (journalName d)))]
        · exact hjournal.bytes
        · intro i _ hi
          rw [Nat.zero_add] at hi
          rcases hbyte i with hsame | hnew
          · rw [hsame, hstored]
          · -- The page that is committed has the same byte here, since a journal only grows.
            have hget := getElem?_segment (storedByte (stored (journalName d))) 0 hi
            rw [hjournal.bytes, Nat.zero_add, List.getElem?_eq_getElem hi] at hget
            rw [hnew, ← Option.some.inj hget]
            exact hcontent.byte (List.prefix_iff_getElem?.mp (encode_mono hle) i hi)
    · right
      rw [Function.update_self, hsize, hstored, hdata]
      exact hnone
  · exact ⟨rs, List.prefix_rfl, recoverableBy_journal hne hcontent ⟨rs', hle, hby⟩ hsize hbyte⟩

/-- A crash in the sync of the data file finds the records of all that is written. -/
theorem recoverable_data (hne : journalName d ≠ d) (hvalid : (w.files d).pages.Valid)
    (hle : size₀ ≤ (w.files d).pages.size)
    (hbyte : ∀ i < size₀, (w.files d).pages.byte i = g i ∨ Covered rs i)
    {stored : String → Stored} (hstored : (w.files d).pages.stored = stored d)
    (hold : RecoverableBy stored d size₀ g rs)
    (hsize : (stored (journalName d)).size = none → (w.files d).pages.size = size₀) (k : Nat) :
    RecoverableBy (Function.update stored d
      (((sync (w.files d).pages).2.take k).foldl Stored.commit (stored d))) d size₀ g rs := by
  rw [← hstored]
  have hjournal : ∀ s, Function.update stored d s (journalName d) = stored (journalName d) :=
    fun s => Function.update_of_ne hne s stored
  have hat : ∀ s, JournalAt stored (journalName d) size₀ rs →
      JournalAt (Function.update stored d s) (journalName d) size₀ rs := fun s h =>
    ⟨by rw [hjournal]; exact h.size, by rw [hjournal]; exact h.bytes⟩
  rcases crash_in_sync hvalid k with ⟨hsize', hbyte'⟩ | ⟨hsize', hbyte'⟩
  · refine ⟨?_, ?_, ?_⟩
    · apply hold.journal.imp (hat _)
      rw [hjournal, Function.update_self, hsize', hstored]
      exact id
    · rw [Function.update_self, hsize', hstored]
      exact hold.data
    · intro i hi
      rw [Function.update_self]
      rcases hbyte' i with hsame | hnew
      · rw [hsame, hstored]
        exact hold.byte i hi
      · rw [hnew]
        exact hbyte i hi
  · refine ⟨?_, ?_, ?_⟩
    · apply hold.journal.imp (hat _)
      rw [hjournal, Function.update_self, hsize']
      rintro ⟨hnone, hrs, -⟩
      exact ⟨hnone, hrs, congrArg some (hsize hnone)⟩
    · rw [Function.update_self, hsize']
      exact ⟨_, rfl, hvalid.small, hle⟩
    · intro i hi
      rw [Function.update_self, hbyte' i]
      exact hbyte i hi

end Crash

/-- The data file while the journal is started: each changed byte of the old content is saved. -/
structure DataInv (w : World) (d : String) (size₀ : Nat) (g : Nat → UInt8) (rs : List Record) :
    Prop where
  useCount : 0 < (w.files d).useCount
  fileExists : (w.files d).fileExists = true
  valid : (w.files d).pages.Valid
  size : size₀ ≤ (w.files d).pages.size
  byte : ∀ i < size₀, (w.files d).pages.byte i = g i ∨ Covered rs i

/-- Nothing has been saved yet. -/
structure Quiet (w : World) (d : String) (size₀ : Nat) : Prop where
  useCount : 0 ≤ (w.files (journalName d)).useCount
  syncOut : 0 ≤ (w.files (journalName d)).syncOut
  content : Content (w.files (journalName d)).pages []
  listenForSync : (w.files d).listenForSync = []
  size : (w.files d).pages.size = size₀

/-- The journal file holds these records and is synced by the data file only. -/
structure Active (w : World) (d : String) (size₀ : Nat) (rs : List Record) (f : RAFile) : Prop where
  name : f.name = journalName d
  writeAccess : f.writeAccess = true
  pos : f.pos = (encode size₀ rs).length
  useCount : 0 < (w.files (journalName d)).useCount
  syncOut : 0 < (w.files (journalName d)).syncOut
  content : Content (w.files (journalName d)).pages (encode size₀ rs)
  listenForSync : (w.files d).listenForSync = [journalName d]

/-- A crash at any point so far can be recovered from. -/
structure Logged (stored₀ : String → Stored) (w : World) (d : String) (size₀ : Nat)
    (g : Nat → UInt8) (rs : List Record) : Prop where
  journal : (w.files (journalName d)).pages.stored = committed stored₀ w.commits (journalName d)
  data : (w.files d).pages.stored = committed stored₀ w.commits d
  crash : ∀ k, Recoverable (committed stored₀ (w.commits.take k)) d size₀ g rs

theorem Logged.recoverable {stored₀ : String → Stored} {w : World} {d : String} {size₀ : Nat}
    {g : Nat → UInt8} {rs : List Record} (h : Logged stored₀ w d size₀ g rs) :
    Recoverable (committed stored₀ w.commits) d size₀ g rs := by
  have hall := h.crash w.commits.length
  rwa [List.take_length] at hall

section Sync

variable {stored₀ : String → Stored} {w : World} {d : String} {size₀ : Nat} {g : Nat → UInt8}
  {rs : List Record}

/-- The records after a sync are those of its commits. -/
theorem stored_syncPages {name : String} (hvalid : (w.files name).pages.Valid)
    (hstored : (w.files name).pages.stored = committed stored₀ w.commits name) :
    ((syncPages name w).files name).pages.stored =
      committed stored₀ (syncPages name w).commits name := by
  show _ = committed stored₀ (w.commits ++ (sync (w.files name).pages).2.map _) name
  rw [files_syncPages, if_pos rfl, committed_append, committed_map, Function.update_self,
    ← hstored]
  exact (sync_spec hvalid).stored

theorem stored_syncPages_of_ne {name n : String} (hne : n ≠ name)
    (hstored : (w.files n).pages.stored = committed stored₀ w.commits n) :
    ((syncPages name w).files n).pages.stored = committed stored₀ (syncPages name w).commits n := by
  show _ = committed stored₀ (w.commits ++ (sync (w.files name).pages).2.map _) n
  rw [files_syncPages, if_neg hne, committed_append, committed_map, Function.update_of_ne hne,
    hstored]

theorem logged_syncJournal (hne : journalName d ≠ d) (h : Logged stored₀ w d size₀ g rs)
    (hcontent : Content (w.files (journalName d)).pages (encode size₀ rs)) :
    Logged stored₀ (syncPages (journalName d) w) d size₀ g rs ∧
      RecoverableBy (committed stored₀ (syncPages (journalName d) w).commits) d size₀ g rs := by
  refine ⟨⟨stored_syncPages hcontent.valid h.journal,
    stored_syncPages_of_ne hne.symm h.data, ?_⟩, ?_⟩
  · exact forall_take_append (P := fun stored => Recoverable stored d size₀ g rs) h.crash
      (recoverable_journal hne hcontent h.journal h.recoverable)
  · have hsync := sync_spec hcontent.valid
    show RecoverableBy (committed stored₀ (w.commits ++ _)) d size₀ g rs
    rw [committed_append, committed_map, ← h.journal, ← hsync.stored]
    apply recoverableBy_journal hne hcontent h.recoverable hsync.size
    intro i
    rw [storedByte, hsync.bytes]
    rfl

theorem logged_syncData (hne : journalName d ≠ d) (h : Logged stored₀ w d size₀ g rs)
    (hdata : DataInv w d size₀ g rs)
    (hby : RecoverableBy (committed stored₀ w.commits) d size₀ g rs)
    (hsize : (committed stored₀ w.commits (journalName d)).size = none →
      (w.files d).pages.size = size₀) : Logged stored₀ (syncPages d w) d size₀ g rs where
  journal := stored_syncPages_of_ne hne h.journal
  data := stored_syncPages hdata.valid h.data
  crash := forall_take_append (P := fun stored => Recoverable stored d size₀ g rs) h.crash
    (fun k => ⟨rs, List.prefix_rfl,
      recoverable_data hne hdata.valid hdata.size hdata.byte h.data hby hsize k⟩)

theorem DataInv.synced (h : DataInv w d size₀ g rs) : DataInv (syncPages d w) d size₀ g rs := by
  have hsync := sync_spec h.valid
  constructor
  all_goals rw [files_syncPages, if_pos rfl]
  · exact h.useCount
  · exact h.fileExists
  · exact hsync.valid
  · exact hsync.view.size.symm ▸ h.size
  · rw [hsync.view.byte]
    exact h.byte

end Sync

/-- The session while the journal is started, with these records saved. -/
structure Inv (stored₀ : String → Stored) (d : String) (size₀ : Nat) (g : Nat → UInt8)
    (s : Session) (rs : List Record) : Prop where
  journalName : s.journal.journalName = journalName d
  dataName : s.journal.dataName = d
  started : s.journal.started = true
  dataFile : ∀ f, s.journal.dataFile = some f → f.name = d
  data : DataInv s.world d size₀ g rs
  logged : Logged stored₀ s.world d size₀ g rs
  saved : ∀ r ∈ rs, Saved size₀ g r
  length : (encode size₀ rs).length < 2147483648
  files : s.journal.journalFile = none ∧ rs = [] ∧ Quiet s.world d size₀ ∨
    ∃ f, s.journal.journalFile = some f ∧ Active s.world d size₀ rs f

section Steps

variable {stored₀ : String → Stored} {d : String} {size₀ : Nat} {g : Nat → UInt8} {s : Session}
  {rs : List Record} {w w' : World}

/-- What is not committed does not change what a crash finds. -/
theorem Logged.of_stored (h : Logged stored₀ w d size₀ g rs)
    (hj : (w'.files (journalName d)).pages.stored = (w.files (journalName d)).pages.stored)
    (hd : (w'.files d).pages.stored = (w.files d).pages.stored) (hc : w'.commits = w.commits) :
    Logged stored₀ w' d size₀ g rs where
  journal := by rw [hj, hc, h.journal]
  data := by rw [hd, hc, h.data]
  crash := by rw [hc]; exact h.crash

theorem Logged.append (h : Logged stored₀ w d size₀ g rs) (r : Record) :
    Logged stored₀ w d size₀ g (rs ++ [r]) where
  journal := h.journal
  data := h.data
  crash := by
    intro k
    obtain ⟨rs', hle, hby⟩ := h.crash k
    exact ⟨rs', hle.trans (List.prefix_append rs [r]), hby⟩

theorem DataInv.append (h : DataInv w d size₀ g rs) (r : Record) :
    DataInv w d size₀ g (rs ++ [r]) where
  useCount := h.useCount
  fileExists := h.fileExists
  valid := h.valid
  size := h.size
  byte := by
    intro i hi
    exact (h.byte i hi).imp_right (Covered.mono (List.prefix_append rs [r]))

/-- Opening and reading the data file do not change what is in it. -/
theorem DataInv.unseen (h : DataInv w d size₀ g rs) (huse : 0 < (w'.files d).useCount)
    (hexists : (w'.files d).fileExists = true)
    (hunseen : Unseen (w.files d).pages (w'.files d).pages) : DataInv w' d size₀ g rs where
  useCount := huse
  fileExists := hexists
  valid := hunseen.valid
  size := by rw [hunseen.size]; exact h.size
  byte := by rw [hunseen.byte]; exact h.byte

theorem DataInv.of_files (h : DataInv w d size₀ g rs) (hfile : w'.files d = w.files d) :
    DataInv w' d size₀ g rs := by
  apply h.unseen
  · rw [hfile]
    exact h.useCount
  · rw [hfile]
    exact h.fileExists
  · rw [hfile]
    exact Unseen.refl h.valid

theorem content_ofNone {stored : Stored} (hnone : stored.size = none) :
    Content (PageTable.ofStored stored) [] where
  valid := valid_ofStored (by rw [hnone]; decide)
  size := by
    show stored.size.getD 0 = 0
    rw [hnone]
    rfl
  bytes := rfl

theorem content_sync {t : PageTable} {bytes : List UInt8} (h : Content t bytes) :
    Content (sync t).1 bytes where
  valid := (sync_spec h.valid).valid
  size := (sync_spec h.valid).view.size.trans h.size
  bytes := by rw [(sync_spec h.valid).view.byte, h.bytes]

theorem Quiet.synced (hne : journalName d ≠ d) (h : Quiet w d size₀)
    (hdata : DataInv w d size₀ g rs) : Quiet (syncPages d w) d size₀ := by
  have hsize := (sync_spec hdata.valid).view.size
  constructor
  all_goals rw [files_syncPages]
  · rw [if_neg hne]
    exact h.useCount
  · rw [if_neg hne]
    exact h.syncOut
  · rw [if_neg hne]
    exact h.content
  · rw [if_pos rfl]
    exact h.listenForSync
  · rw [if_pos rfl]
    exact hsize.trans h.size

theorem Active.synced (hne : journalName d ≠ d) {f : RAFile} (h : Active w d size₀ rs f) :
    Active (syncPages d (syncPages (journalName d) w)) d size₀ rs f := by
  have hjournal : (syncPages d (syncPages (journalName d) w)).files (journalName d) =
      { w.files (journalName d) with pages := (sync (w.files (journalName d)).pages).1 } := by
    rw [files_syncPages, if_neg hne, files_syncPages, if_pos rfl]
  refine ⟨h.name, h.writeAccess, h.pos, ?_, ?_, ?_, ?_⟩
  · rw [hjournal]
    exact h.useCount
  · rw [hjournal]
    exact h.syncOut
  · rw [hjournal]
    exact content_sync h.content
  · rw [files_syncPages, if_pos rfl]
    show ((syncPages (journalName d) w).files d).listenForSync = _
    rw [files_syncPages, if_neg hne.symm]
    exact h.listenForSync

/-- A sync of the data file commits the journal before it. -/
theorem inv_sync (hne : journalName d ≠ d) (h : Inv stored₀ d size₀ g s rs) :
    ∃ s', exec d .sync s = .ok () s' ∧ Inv stored₀ d size₀ g s' rs := by
  by_cases hout : (s.world.files d).fileExists = true ∧ (s.world.files d).syncOut = 0
  · have hsync : syncFile ⟨d, true, 0⟩ s.world = .ok () (syncInfo d s.world) := by
      have huse : ¬(s.world.files d).useCount ≤ 0 := Int.not_le.mpr h.data.useCount
      unfold syncFile
      simp [huse, hout]
    refine ⟨_, onWorld_ok hsync, ?_⟩
    rcases h.files with ⟨hfile, rfl, hquiet⟩ | ⟨f, hfile, hactive⟩
    · have hinfo : syncInfo d s.world = syncPages d s.world := by
        rw [syncInfo, hquiet.listenForSync, List.foldl_nil]
      have hby : RecoverableBy (committed stored₀ s.world.commits) d size₀ g [] := by
        obtain ⟨rs', hle, hby⟩ := h.logged.recoverable
        rwa [List.prefix_nil.mp hle] at hby
      rw [hinfo]
      exact ⟨h.journalName, h.dataName, h.started, h.dataFile, h.data.synced,
        logged_syncData hne h.logged h.data hby (fun _ => hquiet.size), h.saved, h.length,
          Or.inl ⟨hfile, rfl, hquiet.synced hne h.data⟩⟩
    · have hinfo : syncInfo d s.world = syncPages d (syncPages (journalName d) s.world) := by
        rw [syncInfo, hactive.listenForSync, List.foldl_cons, List.foldl_nil]
      have hdata : DataInv (syncPages (journalName d) s.world) d size₀ g rs := by
        apply h.data.of_files
        rw [files_syncPages, if_neg hne.symm]
      obtain ⟨hlogged, hby⟩ := logged_syncJournal hne h.logged hactive.content
      rw [hinfo]
      refine ⟨h.journalName, h.dataName, h.started, h.dataFile, hdata.synced,
        logged_syncData hne hlogged hdata hby ?_, h.saved, h.length,
          Or.inr ⟨f, hfile, hactive.synced hne⟩⟩
      -- The journal has been committed, so there is a record of its size.
      intro hnone
      have hsize := (sync_spec hactive.content.valid).size
      rw [← hlogged.journal, files_syncPages, if_pos rfl] at hnone
      rw [hsize] at hnone
      cases hnone
  · refine ⟨s, ?_, h⟩
    have hsync : syncFile ⟨d, true, 0⟩ s.world = .ok () s.world := by
      have huse : ¬(s.world.files d).useCount ≤ 0 := Int.not_le.mpr h.data.useCount
      unfold syncFile
      simp [huse, hout]
    exact onWorld_ok hsync

/-- A sync of the journal itself waits for the data file. -/
theorem syncFile_listening {f : RAFile} (hwrite : f.writeAccess = true)
    (huse : 0 < (w.files f.name).useCount) (hout : 0 < (w.files f.name).syncOut) :
    syncFile f w = .ok () w := by
  unfold syncFile
  rw [if_neg (by rw [hwrite]; decide), if_neg (Int.not_le.mpr huse)]
  exact if_neg (fun h => absurd h.2 (Int.ne_of_gt hout))

/-- What is opened and read of the data file is not seen in the invariant. -/
theorem inv_unseen (h : Inv stored₀ d size₀ g s rs) {f : RAFile} (hf : f.name = d)
    (hjournal : w.files (journalName d) = s.world.files (journalName d))
    (huse : 0 < (w.files d).useCount) (hexists : (w.files d).fileExists = true)
    (hlisten : (w.files d).listenForSync = (s.world.files d).listenForSync)
    (hunseen : Unseen (s.world.files d).pages (w.files d).pages)
    (hcommits : w.commits = s.world.commits) :
    Inv stored₀ d size₀ g ⟨w, { s.journal with dataFile := some f }⟩ rs where
  journalName := h.journalName
  dataName := h.dataName
  started := h.started
  dataFile := by
    intro f' hf'
    rwa [← Option.some.inj hf']
  data := h.data.unseen huse hexists hunseen
  logged := h.logged.of_stored (congrArg (fun info => info.pages.stored) hjournal) hunseen.stored
    hcommits
  saved := h.saved
  length := h.length
  files := by
    rcases h.files with ⟨hfile, hrs, hquiet⟩ | ⟨jf, hfile, hactive⟩
    · refine Or.inl ⟨hfile, hrs, ?_, ?_, ?_, hlisten.trans hquiet.listenForSync,
        hunseen.size.trans hquiet.size⟩
      all_goals rw [hjournal]
      · exact hquiet.useCount
      · exact hquiet.syncOut
      · exact hquiet.content
    · refine Or.inr ⟨jf, hfile, hactive.name, hactive.writeAccess, hactive.pos, ?_, ?_, ?_,
        hlisten.trans hactive.listenForSync⟩
      all_goals rw [hjournal]
      · exact hactive.useCount
      · exact hactive.syncOut
      · exact hactive.content

theorem openedData_spec (hne : journalName d ≠ d) (h : Inv stored₀ d size₀ g s rs) :
    ∃ w f, openedData s.journal s = .ok f ⟨w, s.journal⟩ ∧ f.name = d ∧
      (w.files d).pages = (s.world.files d).pages ∧
      Inv stored₀ d size₀ g ⟨w, { s.journal with dataFile := some f }⟩ rs := by
  have huse := h.data.useCount
  have hrefl := Unseen.refl h.data.valid
  cases hdata : s.journal.dataFile with
  | some f =>
    have hf := h.dataFile f hdata
    exact ⟨s.world, f, by rw [openedData, hdata]; rfl, hf, rfl,
      inv_unseen h hf rfl huse h.data.fileExists rfl hrefl rfl⟩
  | none =>
    obtain ⟨info, hinfo⟩ : ∃ info, info = { s.world.files d with
      fileExists := true, useCount := (s.world.files d).useCount + 1 } := ⟨_, rfl⟩
    have hopen : openFile d false s.world = .ok ⟨d, false, 0⟩ (s.world.setFile d info) := by
      unfold openFile
      rw [if_neg (by omega), h.data.fileExists, hinfo]
      rfl
    refine ⟨s.world.setFile d info, ⟨d, false, 0⟩, ?_, rfl, ?_, inv_unseen h rfl ?_ ?_ ?_ ?_ ?_ rfl⟩
    · rw [openedData, hdata, h.dataName]
      exact onWorld_ok hopen
    · rw [files_setFile_self, hinfo]
    · rw [files_setFile_of_ne _ _ _ hne]
    all_goals rw [files_setFile_self, hinfo]
    · show 0 < (s.world.files d).useCount + 1
      omega
    · exact hrefl

theorem listenForSync_spec {f : RAFile} {name : String} (hne : f.name ≠ name)
    (hlisten : (w.files name).listenForSync = []) :
    ∃ w', listenForSync f name w = .ok () w' ∧
      w'.files name = { w.files name with listenForSync := [f.name] } ∧
      w'.files f.name = { w.files f.name with syncOut := (w.files f.name).syncOut + 1 } ∧
      w'.commits = w.commits := by
  refine ⟨_, rfl, ?_, ?_, rfl⟩
  · rw [files_setFile_of_ne _ _ _ hne.symm, files_setFile_self, hlisten]
    rfl
  · rw [files_setFile_self, files_setFile_of_ne _ _ _ hne]

/-- The head of the journal. -/
theorem appends_head (v : Nat) :
    Appends (fun f => writeLong f v >>= fun f => writeByte f blockConfirm.toNat) (encode v []) := by
  rw [encode, List.flatMap_nil, List.append_nil]
  exact (appends_writeLong v).bind (appends_writeByte blockConfirm)

/-- The journal is created with the length of the data file. -/
theorem openJournal_spec (hne : journalName d ≠ d) (h : Quiet w d size₀) {df : RAFile}
    (hdf : df.name = d) :
    ∃ w' f, openJournal (journalName d) d df w = .ok f w' ∧ Active w' d size₀ [] f ∧
      (w'.files d).useCount = (w.files d).useCount ∧
      (w'.files d).fileExists = (w.files d).fileExists ∧
      (w'.files d).pages = (w.files d).pages ∧
      (w'.files (journalName d)).pages.stored = (w.files (journalName d)).pages.stored ∧
      w'.commits = w.commits := by
  have huse := h.useCount
  have hout := h.syncOut
  -- The journal is opened, and waits for the data file from now on.
  obtain ⟨w₁, hw₁⟩ : ∃ w₁, w₁ = w.setFile (journalName d) { w.files (journalName d) with
    fileExists := true, useCount := (w.files (journalName d)).useCount + 1 } := ⟨_, rfl⟩
  have hopen : openFile (journalName d) true w = .ok ⟨journalName d, true, 0⟩ w₁ := by
    unfold openFile
    rw [if_neg (by omega), if_neg (by simp), hw₁]
  have hd₁ : w₁.files d = w.files d := by
    rw [hw₁, files_setFile_of_ne _ _ _ hne.symm]
  have hj₁ : w₁.files (journalName d) = { w.files (journalName d) with
      fileExists := true, useCount := (w.files (journalName d)).useCount + 1 } := by
    rw [hw₁, files_setFile_self]
  have hc₁ : w₁.commits = w.commits := by
    rw [hw₁]
    rfl
  obtain ⟨w₂, hlisten, hd₂, hj₂, hc₂⟩ := listenForSync_spec (f := ⟨journalName d, true, 0⟩) hne
    (by rw [hd₁]; exact h.listenForSync)
  rw [hd₁] at hd₂
  rw [hj₁] at hj₂
  have hlength : length df w₂ = .ok size₀ w₂ := by
    unfold length
    rw [hdf, hd₂, ← h.size]
  obtain ⟨t, hhead, hcontent, hstored⟩ := appends_head size₀ ⟨journalName d, true, 0⟩ w₂ [] rfl
    (by rw [hj₂]; show 0 < (w.files (journalName d)).useCount + 1; omega)
    (by rw [hj₂]; exact h.content) rfl (by show 9 < 2147483648; omega)
  rw [List.nil_append] at hcontent
  replace hhead : (writeLong ⟨journalName d, true, 0⟩ size₀ >>= fun f =>
      writeByte f blockConfirm.toNat) w₂ =
        .ok ⟨journalName d, true, 9⟩ (w₂.setPages (journalName d) t) := hhead
  have hj₃ := files_setPages_self w₂ (journalName d) t
  rw [hj₂] at hj₃ hstored
  have hd₃ := files_setPages_of_ne w₂ (journalName d) t hne.symm
  rw [hd₂] at hd₃
  have huse₃ : 0 < ((w₂.setPages (journalName d) t).files (journalName d)).useCount := by
    rw [hj₃]
    show 0 < (w.files (journalName d)).useCount + 1
    omega
  have hout₃ : 0 < ((w₂.setPages (journalName d) t).files (journalName d)).syncOut := by
    rw [hj₃]
    show 0 < (w.files (journalName d)).syncOut + 1
    omega
  have hsync : syncFile ⟨journalName d, true, 9⟩ (w₂.setPages (journalName d) t) =
      .ok () (w₂.setPages (journalName d) t) :=
    syncFile_listening rfl huse₃ hout₃
  refine ⟨w₂.setPages (journalName d) t, ⟨journalName d, true, 9⟩, ?_, ?_, ?_, ?_, ?_, ?_, ?_⟩
  · unfold openJournal
    rw [bind_ok hopen, bind_ok hlisten, bind_ok hlength, ← bind_assoc, bind_ok hhead, bind_ok hsync]
    rfl
  · exact ⟨rfl, rfl, rfl, huse₃, hout₃, by rw [hj₃]; exact hcontent, by rw [hd₃]⟩
  · rw [hd₃]
  · rw [hd₃]
  · rw [hd₃]
  · rw [hj₃]
    exact hstored
  · exact hc₂.trans hc₁

theorem openedJournal_spec (hne : journalName d ≠ d) (h : Inv stored₀ d size₀ g s rs) {df : RAFile}
    (hdf : df.name = d) :
    ∃ w f, openedJournal s.journal df s = .ok f ⟨w, s.journal⟩ ∧
      (w.files d).pages = (s.world.files d).pages ∧
      Inv stored₀ d size₀ g ⟨w, { s.journal with journalFile := some f }⟩ rs := by
  rcases h.files with ⟨hfile, rfl, hquiet⟩ | ⟨f, hfile, hactive⟩
  · obtain ⟨w, f, hopen, hactive, huse, hexists, hpages, hstored, hcommits⟩ :=
      openJournal_spec hne hquiet hdf
    refine ⟨w, f, ?_, hpages, ?_⟩
    · rw [openedJournal, hfile, h.journalName, h.dataName]
      exact onWorld_ok hopen
    · refine ⟨h.journalName, h.dataName, h.started, h.dataFile, ?_, ?_, h.saved, h.length,
        Or.inr ⟨f, rfl, hactive⟩⟩
      · apply h.data.unseen
        · rw [huse]
          exact h.data.useCount
        · rw [hexists]
          exact h.data.fileExists
        · rw [hpages]
          exact Unseen.refl h.data.valid
      · exact h.logged.of_stored hstored (congrArg PageTable.stored hpages) hcommits
  · refine ⟨s.world, f, ?_, rfl, h.journalName, h.dataName, h.started, h.dataFile, h.data,
      h.logged, h.saved, h.length, Or.inr ⟨f, rfl, hactive⟩⟩
    rw [openedJournal, hfile]
    rfl

theorem initJournal_spec (hne : journalName d ≠ d) (h : Inv stored₀ d size₀ g s rs) :
    ∃ s' df jf, initJournal s = .ok (df, jf) s' ∧ df.name = d ∧ s'.journal.dataFile = some df ∧
      s'.journal.journalFile = some jf ∧
      (s'.world.files d).pages = (s.world.files d).pages ∧ Inv stored₀ d size₀ g s' rs := by
  obtain ⟨w₁, df, hdata, hdf, hpages₁, h₁⟩ := openedData_spec hne h
  obtain ⟨w₂, jf, hjournal, hpages₂, h₂⟩ := openedJournal_spec hne h₁ hdf
  refine ⟨_, df, jf, ?_, hdf, rfl, rfl, hpages₂.trans hpages₁, h₂⟩
  unfold initJournal
  show (if s.journal.started = false then _ else _ : JournalM (RAFile × RAFile)) s = _
  rw [if_neg (by rw [h.started]; decide)]
  show (openedData s.journal >>= _) s = _
  rw [bind_ok hdata]
  show (openedJournal s.journal df >>= _) ⟨w₁, { s.journal with dataFile := some df }⟩ = _
  -- What openJournal reads of the journal is the same after the data file is set.
  replace hjournal : openedJournal s.journal df ⟨w₁, { s.journal with dataFile := some df }⟩ =
    .ok jf ⟨w₂, { s.journal with dataFile := some df }⟩ := hjournal
  rw [bind_ok hjournal]
  rfl

theorem appends_record (r : Record) (hr : r.bytes ≠ []) :
    Appends (fun f => writeLong f r.pos >>= fun f => writeLong f r.bytes.length >>= fun f =>
      writeArray f r.bytes >>= fun f => writeByte f blockConfirm.toNat) r.encode := by
  unfold Record.encode
  rw [List.append_assoc, List.append_assoc]
  exact (appends_writeLong r.pos).bind ((appends_writeLong r.bytes.length).bind
    ((appends_writeArray hr).bind (appends_writeByte blockConfirm)))

theorem encode_append (size : Nat) (rs : List Record) (r : Record) :
    encode size (rs ++ [r]) = encode size rs ++ r.encode := by
  simp only [encode, List.flatMap_append, List.flatMap_singleton, List.append_assoc]

theorem inv_active (h : Inv stored₀ d size₀ g s rs) {f : RAFile}
    (hfile : s.journal.journalFile = some f) : Active s.world d size₀ rs f := by
  rcases h.files with ⟨hnone, -⟩ | ⟨f', hsome, hactive⟩
  · rw [hfile] at hnone
    cases hnone
  · rw [hfile] at hsome
    rwa [Option.some.inj hsome]

/-- A record is saved before its region is written. -/
theorem inv_writeRecord (hne : journalName d ≠ d) (h : Inv stored₀ d size₀ g s rs) {f : RAFile}
    (hfile : s.journal.journalFile = some f) {r : Record} (hr : Saved size₀ g r)
    (hlength : (encode size₀ (rs ++ [r])).length < 2147483648) :
    ∃ w f', writeRecord f r.pos r.bytes.length r.bytes s.world = .ok f' w ∧
      w.files d = s.world.files d ∧
      Inv stored₀ d size₀ g ⟨w, { s.journal with journalFile := some f' }⟩ (rs ++ [r]) := by
  have hactive := inv_active h hfile
  obtain ⟨name, writeAccess, pos⟩ := f
  obtain rfl : name = journalName d := hactive.name
  rw [encode_append] at hlength
  obtain ⟨t, hrecord, hcontent, hstored⟩ := appends_record r hr.readable.bytes
    ⟨journalName d, writeAccess, pos⟩ s.world (encode size₀ rs) hactive.writeAccess
    hactive.useCount hactive.content hactive.pos (by rw [← List.length_append]; exact hlength)
  rw [← encode_append] at hcontent hlength
  rw [← List.length_append, ← encode_append] at hrecord
  have hj := files_setPages_self s.world (journalName d) t
  have hd := files_setPages_of_ne s.world (journalName d) t hne.symm
  have hc := commits_setPages s.world (journalName d) t
  generalize s.world.setPages (journalName d) t = w at hrecord hj hd hc
  have hactive' : Active w d size₀ (rs ++ [r])
      ⟨journalName d, writeAccess, (encode size₀ (rs ++ [r])).length⟩ := by
    refine ⟨rfl, hactive.writeAccess, rfl, ?_, ?_, ?_, ?_⟩
    · rw [hj]
      exact hactive.useCount
    · rw [hj]
      exact hactive.syncOut
    · rw [hj]
      exact hcontent
    · rw [hd]
      exact hactive.listenForSync
  refine ⟨w, ⟨journalName d, writeAccess, (encode size₀ (rs ++ [r])).length⟩, ?_, hd,
    h.journalName, h.dataName, h.started, h.dataFile, (h.data.of_files hd).append r, ?_,
      ?_, hlength,
    Or.inr ⟨_, rfl, hactive'⟩⟩
  · have hassoc : writeRecord ⟨journalName d, writeAccess, pos⟩ r.pos r.bytes.length r.bytes =
        (writeLong ⟨journalName d, writeAccess, pos⟩ r.pos >>= fun f =>
          writeLong f r.bytes.length >>= fun f => writeArray f r.bytes >>= fun f =>
          writeByte f blockConfirm.toNat) >>= fun f => syncFile f >>= fun _ => pure f := by
      simp only [writeRecord, bind_assoc]
    rw [hassoc, bind_ok hrecord,
      bind_ok (syncFile_listening hactive'.writeAccess hactive'.useCount hactive'.syncOut)]
    rfl
  · apply (h.logged.of_stored ?_ (by rw [hd]) hc).append
    rw [hj]
    exact hstored
  · intro r' hr'
    rcases List.mem_append.mp hr' with hold | hnew
    · exact h.saved r' hold
    · rw [List.mem_singleton.mp hnew]
      exact hr

/-- A write to the data file, where what it changes is saved. -/
theorem inv_writeArray (hne : journalName d ≠ d) (h : Inv stored₀ d size₀ g s rs) {f : RAFile}
    (hfile : s.journal.journalFile = some f) (wpos : Nat) (b : List UInt8)
    (hlt : wpos + b.length < 2147483648)
    (hsaved : ∀ i, wpos ≤ i → i < wpos + b.length → i < size₀ → Covered rs i) :
    ∃ w f', writeArray ⟨d, true, wpos⟩ b s.world = .ok f' w ∧
      Inv stored₀ d size₀ g ⟨w, s.journal⟩ rs := by
  by_cases hb : b = []
  · subst hb
    exact ⟨s.world, ⟨d, true, wpos⟩, writeArray_nil rfl s.world, h⟩
  obtain ⟨t, hwrite, hwrote⟩ := writeArray_spec (f := ⟨d, true, wpos⟩) rfl h.data.useCount
    h.data.valid hb hlt
  have hd := files_setPages_self s.world d t
  have hj := files_setPages_of_ne s.world d t hne
  have hactive := inv_active h hfile
  refine ⟨s.world.setPages d t, _, hwrite, h.journalName, h.dataName, h.started, h.dataFile,
    ?_, ?_, h.saved, h.length, Or.inr ⟨f, hfile, hactive.name, hactive.writeAccess, hactive.pos, ?_,
    ?_, ?_, ?_⟩⟩
  · constructor
    all_goals rw [hd]
    · exact h.data.useCount
    · exact h.data.fileExists
    · exact hwrote.valid
    · show size₀ ≤ t.size
      rw [hwrote.size]
      exact Nat.le_trans h.data.size (Nat.le_max_left _ _)
    · intro i hi
      show t.byte i = g i ∨ Covered rs i
      rw [hwrote.byte]
      by_cases hlow : wpos ≤ i
      · by_cases hhigh : i < wpos + b.length
        · exact Or.inr (hsaved i hlow hhigh hi)
        · rw [overlay_of_le _ (Nat.le_of_not_lt hhigh)]
          exact h.data.byte i hi
      · rw [overlay_of_lt _ _ (Nat.lt_of_not_le hlow)]
        exact h.data.byte i hi
  · apply Logged.of_stored h.logged
    · rw [hj]
    · rw [hd]
      exact hwrote.stored
    · rfl
  · rw [hj]
    exact hactive.useCount
  · rw [hj]
    exact hactive.syncOut
  · rw [hj]
    exact hactive.content
  · rw [hd]
    exact hactive.listenForSync

theorem write_eq {s' : Session} {pos len : Nat} {df jf : RAFile} (hlen : len < 2147483648)
    (hinit : initJournal s = .ok (df, jf) s') :
    JournalFile.write pos len s = saveRegion df jf pos (List.replicate len 0) s' := by
  have hint : toInt (len : Int) = len := toInt_eq (by omega) (by omega)
  unfold JournalFile.write
  rw [bind_ok hinit, hint]
  show (if (len : Int) < 0 then _ else _ : JournalM Unit) s' = _
  rw [if_neg (by omega)]
  rfl

/-- There is nothing to save. -/
theorem write_none (hne : journalName d ≠ d) (h : Inv stored₀ d size₀ g s rs) {pos len : Nat}
    (hlen : len < 2147483648) (hend : len = 0 ∨ (s.world.files d).pages.size ≤ pos) :
    ∃ s' f, JournalFile.write pos len s = .ok () s' ∧ s'.journal.journalFile = some f ∧
      Inv stored₀ d size₀ g s' rs := by
  obtain ⟨s₁, df, jf, hinit, hdf, -, hjf, hpages, h₁⟩ := initJournal_spec hne h
  obtain ⟨name, writeAccess, pos'⟩ := df
  obtain rfl : name = d := hdf
  obtain ⟨n, b, hn, hread⟩ := readArray_none (f := ⟨name, writeAccess, pos⟩) h₁.data.useCount hlen
    (by rw [hpages]; exact hend)
  refine ⟨s₁, jf, ?_, hjf, h₁⟩
  rw [write_eq hlen hinit]
  show (onWorld (readArray ⟨name, writeAccess, pos⟩ _) >>= _) s₁ = _
  rw [bind_ok (onWorld_ok hread)]
  show (if n ≤ 0 then _ else _ : JournalM Unit) s₁ = _
  rw [if_pos hn]
  rfl

theorem inv_readData (hne : journalName d ≠ d) (h : Inv stored₀ d size₀ g s rs) {f : RAFile}
    (hfile : s.journal.dataFile = some f) (hf : f.name = d) {t : PageTable}
    (hunseen : Unseen (s.world.files d).pages t) :
    Inv stored₀ d size₀ g ⟨s.world.setPages d t, s.journal⟩ rs := by
  have hd := files_setPages_self s.world d t
  have hset : s.journal = { s.journal with dataFile := some f } := by
    rw [← hfile]
  rw [hset]
  apply inv_unseen h hf
  · exact files_setPages_of_ne s.world d t hne
  · rw [hd]
    exact h.data.useCount
  · rw [hd]
    exact h.data.fileExists
  · rw [hd]
  · rw [hd]
    exact hunseen
  · rfl

/-- A region of the old content is saved. -/
theorem write_saves (hne : journalName d ≠ d) (h : Inv stored₀ d size₀ g s rs) {pos len : Nat}
    (hlen : 0 < len) (hend : pos + len ≤ size₀) (hlt : pos + len < 2147483648)
    (hlength : (encode size₀ (rs ++ [⟨pos, segment g pos len⟩])).length < 2147483648)
    (hpos : LowBytes pos) (hlow : LowBytes len)
    (hbyte : ∀ i < len, (s.world.files d).pages.byte (pos + i) = g (pos + i)) :
    ∃ s' f, JournalFile.write pos len s = .ok () s' ∧ s'.journal.journalFile = some f ∧
      Inv stored₀ d size₀ g s' (rs ++ [⟨pos, segment g pos len⟩]) := by
  obtain ⟨s₁, df, jf, hinit, hdf, hdata, hjf, hpages, h₁⟩ := initJournal_spec hne h
  obtain ⟨name, writeAccess, pos'⟩ := df
  obtain rfl : name = d := hdf
  have hsize := h₁.data.size
  obtain ⟨t, hread, hunseen⟩ := readArray_spec (f := ⟨name, writeAccess, pos⟩) h₁.data.useCount
    h₁.data.valid hlen (by omega) (show pos < 2147483648 by omega)
    (show pos + len ≤ (s₁.world.files name).pages.size by omega)
  have hbytes : segment (s₁.world.files name).pages.byte pos len = segment g pos len := by
    apply segment_congr
    intro i hlow hhigh
    have hi := hbyte (i - pos) (by omega)
    rwa [Nat.add_sub_cancel' hlow, ← hpages] at hi
  replace hread : readArray ⟨name, writeAccess, pos⟩ (List.replicate len 0) s₁.world =
      .ok ((len : Int), segment g pos len, ⟨name, writeAccess, pos + len⟩)
        (s₁.world.setPages name t) := by
    rw [← hbytes]
    exact hread
  obtain ⟨w, f, hrecord, -, h₃⟩ := inv_writeRecord hne (inv_readData hne h₁ hdata rfl hunseen) hjf
    (saved_segment hlen hend hlt hpos hlow) hlength
  replace hrecord : writeRecord jf pos len (segment g pos len) (s₁.world.setPages name t) =
      .ok f w := by
    rw [← hrecord]
    show _ = writeRecord jf pos (segment g pos len).length (segment g pos len) _
    rw [length_segment]
  refine ⟨_, f, ?_, rfl, h₃⟩
  rw [write_eq (by omega) hinit]
  show (onWorld (readArray ⟨name, writeAccess, pos⟩ _) >>= _) s₁ = _
  rw [bind_ok (onWorld_ok hread)]
  show (if (len : Int) ≤ 0 then _ else _ : JournalM Unit) _ = _
  rw [if_neg (by omega), Int.toNat_natCast]
  show (onWorld (writeRecord jf pos len (segment g pos len)) >>= _) _ = _
  rw [bind_ok (onWorld_ok hrecord)]
  rfl

end Steps

/-- What is written lies in the region that is saved before. -/
def Step.Inside : Step → Prop
  | .write pos len wpos b => pos ≤ wpos ∧ wpos + b.length ≤ pos + len
  | .sync => True

instance : (step : Step) → Decidable step.Inside
  | .write _ _ _ _ => inferInstanceAs (Decidable (_ ∧ _))
  | .sync => inferInstanceAs (Decidable True)

/-- The region is behind the end of the file, or it lies in the old content, is not changed yet
and its record can be read back. -/
def Undoable (t : PageTable) (size₀ : Nat) (g : Nat → UInt8) (pos len : Nat) : Prop :=
  len = 0 ∨ t.size ≤ pos ∨
    (pos + len ≤ size₀ ∧ LowBytes pos ∧ LowBytes len ∧ ∀ i < len, t.byte (pos + i) = g (pos + i))

instance (t : PageTable) (size₀ : Nat) (g : Nat → UInt8) (pos len : Nat) :
    Decidable (Undoable t size₀ g pos len) :=
  inferInstanceAs (Decidable (_ ∨ _))

/-- The files stay shorter than an int, and what is saved can be undone. -/
def Safe (d : String) (size₀ : Nat) (g : Nat → UInt8) (w : World) : Step → Prop
  | .write pos len _ _ => pos + len < 2147483648 ∧
    (w.files (journalName d)).pages.size + len + 26 < 2147483648 ∧
    Undoable (w.files d).pages size₀ g pos len
  | .sync => True

instance (d : String) (size₀ : Nat) (g : Nat → UInt8) (w : World) :
    (step : Step) → Decidable (Safe d size₀ g w step)
  | .write _ _ _ _ => inferInstanceAs (Decidable (_ ∧ _))
  | .sync => inferInstanceAs (Decidable True)

/-- Every step of the run is safe where it is made. -/
def SafeRun (d : String) (size₀ : Nat) (g : Nat → UInt8) : List Step → Session → Prop
  | [], _ => True
  | step :: steps, s => Safe d size₀ g s.world step ∧
    SafeRun d size₀ g steps (after (exec d step s))

section Runs

variable {stored₀ : String → Stored} {d : String} {size₀ : Nat} {g : Nat → UInt8} {s : Session}
  {rs : List Record}

/-- The journal with one more record. -/
theorem length_encode_append (h : Inv stored₀ d size₀ g s rs) {r : Record}
    (hlt : (s.world.files (journalName d)).pages.size + r.bytes.length + 26 < 2147483648) :
    (encode size₀ (rs ++ [r])).length < 2147483648 := by
  have hle : (encode size₀ rs).length ≤ (s.world.files (journalName d)).pages.size + 9 := by
    rcases h.files with ⟨-, rfl, -⟩ | ⟨f, -, hactive⟩
    · exact Nat.le_add_left 9 _
    · rw [hactive.content.size]
      omega
  rw [encode_append, List.length_append, length_encodeRecord]
  omega

theorem inv_write (hne : journalName d ≠ d) (h : Inv stored₀ d size₀ g s rs) {pos len wpos : Nat}
    {b : List UInt8} (hin : Step.Inside (.write pos len wpos b))
    (hsafe : Safe d size₀ g s.world (.write pos len wpos b)) :
    ∃ s' rs', exec d (.write pos len wpos b) s = .ok () s' ∧ Inv stored₀ d size₀ g s' rs' := by
  obtain ⟨hlow, hhigh⟩ := hin
  obtain ⟨hlt, hlength, hundo⟩ := hsafe
  obtain ⟨s₁, f, rs₁, hsave, hfile, h₁, hcovered⟩ : ∃ s₁ f rs₁,
    JournalFile.write pos len s = .ok () s₁ ∧
      s₁.journal.journalFile = some f ∧ Inv stored₀ d size₀ g s₁ rs₁ ∧
      ∀ i, pos ≤ i → i < pos + len → i < size₀ → Covered rs₁ i := by
    by_cases hend : len = 0 ∨ (s.world.files d).pages.size ≤ pos
    · obtain ⟨s₁, f, hsave, hfile, h₁⟩ := write_none hne h (by omega) hend
      refine ⟨s₁, f, rs, hsave, hfile, h₁, ?_⟩
      intro i _ _ _
      have hsize := h.data.size
      omega
    · obtain ⟨hin, hpos, hlen, hbyte⟩ := (or_assoc.mpr hundo).resolve_left hend
      obtain ⟨s₁, f, hsave, hfile, h₁⟩ := write_saves hne h (by omega) hin hlt
        (length_encode_append h (by rw [length_segment]; exact hlength)) hpos hlen hbyte
      refine ⟨s₁, f, _, hsave, hfile, h₁, ?_⟩
      intro i hpos' hi _
      refine ⟨_, List.mem_append_right rs List.mem_cons_self, hpos', ?_⟩
      rw [length_segment]
      exact hi
  obtain ⟨w, f', hwrite, h₂⟩ := inv_writeArray hne h₁ hfile wpos b (by omega)
    (fun i hi hi' => hcovered i (by omega) (by omega))
  refine ⟨_, rs₁, ?_, h₂⟩
  show (JournalFile.write pos len >>= _) s = _
  rw [bind_ok hsave]
  show (onWorld (writeArray ⟨d, true, wpos⟩ b) >>= _) s₁ = _
  rw [bind_ok (onWorld_ok hwrite)]
  rfl

theorem inv_run (hne : journalName d ≠ d) {steps : List Step}
    (h : Inv stored₀ d size₀ g s rs) (hin : ∀ step ∈ steps, step.Inside)
    (hsafe : SafeRun d size₀ g steps s) : ∃ rs', Inv stored₀ d size₀ g (run d steps s) rs' := by
  induction steps generalizing s rs with
  | nil => exact ⟨rs, h⟩
  | cons step steps ih =>
    obtain ⟨hstep, hsteps⟩ := hsafe
    have hrest : ∀ step ∈ steps, step.Inside := fun step' h' =>
      hin step' (List.mem_cons_of_mem _ h')
    have hone : ∃ s' rs', exec d step s = .ok () s' ∧ Inv stored₀ d size₀ g s' rs' := by
      cases step with
      | write pos len wpos b => exact inv_write hne h (hin _ List.mem_cons_self) hstep
      | sync =>
        obtain ⟨s', hexec, h'⟩ := inv_sync hne h
        exact ⟨s', rs, hexec, h'⟩
    obtain ⟨s', rs', hexec, h'⟩ := hone
    rw [hexec] at hsteps
    rw [run, hexec]
    exact ih h' hrest hsteps

end Runs

section Start

variable {stored : String → Stored} {d : String} {size₀ : Nat}

/-- A process that creates the journal, opens the data file and starts the journal. -/
theorem create_start (hne : journalName d ≠ d) (hnone : (stored (journalName d)).size = none)
    (hsize : (stored d).size = some size₀) :
    (do
      create d
      let _ ← onWorld (openFile d true)
      start : JournalM Unit) ⟨restart stored, newJournal⟩ = .ok () (started stored d) := by
  have hcreate : create d ⟨restart stored, newJournal⟩ =
      .ok () ⟨restart stored, { newJournal with journalName := journalName d, dataName := d }⟩ :=
    onWorld_ok (s := ⟨restart stored,
      { newJournal with journalName := journalName d, dataName := d }⟩) (rollback_none hnone)
  have hopen : openFile d true (restart stored) = .ok ⟨d, true, 0⟩ (started stored d).world :=
    openFile_ofStored rfl hsize true
  have hexists : ((started stored d).world.files (journalName d)).fileExists = false := by
    have hfile : (started stored d).world.files (journalName d) =
        FileInfo.ofStored (stored (journalName d)) := by
      rw [started, files_setFile_of_ne _ _ _ hne]
      rfl
    rw [hfile, FileInfo.ofStored, hnone]
    rfl
  rw [bind_ok hcreate, bind_ok (onWorld_ok hopen)]
  have helement : onWorld (isStreamElement (journalName d)) ⟨(started stored d).world,
      { newJournal with journalName := journalName d, dataName := d }⟩ =
      .ok false ⟨(started stored d).world,
        { newJournal with journalName := journalName d, dataName := d }⟩ := by
    apply onWorld_ok
    rw [isStreamElement, hexists]
  unfold start
  rw [bind_get, bind_ok helement]
  rfl

theorem inv_started (hne : journalName d ≠ d) (hnone : (stored (journalName d)).size = none)
    (hsize : (stored d).size = some size₀) (hsmall : size₀ < maxSize) :
    Inv stored d size₀ (storedByte (stored d)) (started stored d) [] := by
  have hd : (started stored d).world.files d =
      { FileInfo.ofStored (stored d) with fileExists := true, useCount := 1 } := by
    rw [started, files_setFile_self]
  have hj : (started stored d).world.files (journalName d) =
      FileInfo.ofStored (stored (journalName d)) := by
    rw [started, files_setFile_of_ne _ _ _ hne]
    rfl
  have hsize' : (PageTable.ofStored (stored d)).size = size₀ := by
    show (stored d).size.getD 0 = size₀
    rw [hsize]
    rfl
  refine ⟨rfl, rfl, rfl, ?_, ?_, ?_, ?_, ?_, Or.inl ⟨rfl, rfl, ?_⟩⟩
  · intro f hf
    cases hf
  · constructor
    all_goals rw [hd]
    · exact Int.zero_lt_one
    · exact valid_ofStored (by rw [hsize]; exact hsmall)
    · exact Nat.le_of_eq hsize'.symm
    · exact fun i _ => Or.inl (byte_ofStored (stored d) i)
  · refine ⟨by rw [hj]; rfl, by rw [hd]; rfl, ?_⟩
    intro k
    have hnothing : (started stored d).world.commits.take k = [] := List.take_nil
    rw [hnothing]
    exact ⟨[], List.prefix_rfl, Or.inr ⟨hnone, rfl, hsize⟩, ⟨size₀, hsize, hsmall, Nat.le_refl _⟩,
      fun i _ => Or.inl rfl⟩
  · intro r hr
    cases hr
  · show 9 < 2147483648
    omega
  · constructor
    · rw [hj]
      exact Int.le_refl 0
    · rw [hj]
      exact Int.le_refl 0
    · rw [hj]
      exact content_ofNone hnone
    · rw [hd]
      rfl
    · rw [hd]
      exact hsize'

/-- At every crash of a run whose steps are safe, the next start gives the data file back as it
was when the journal was started. -/
theorem crash_recovery (hne : journalName d ≠ d) (hnone : (stored (journalName d)).size = none)
    (hsize : (stored d).size = some size₀) (hsmall : size₀ < maxSize) (hlow : LowBytes size₀)
    {steps : List Step} (hin : ∀ step ∈ steps, step.Inside)
    (hsafe : SafeRun d size₀ (storedByte (stored d)) steps (started stored d)) (k : Nat) :
    Restores (committed stored ((run d steps (started stored d)).world.commits.take k)) d size₀
      (storedByte (stored d)) := by
  obtain ⟨rs, h⟩ := inv_run hne (inv_started hne hnone hsize hsmall) hin hsafe
  obtain ⟨rs', hle, hby⟩ := h.logged.crash k
  apply hby.restores hne hlow hsmall
  · exact Nat.lt_of_le_of_lt (encode_mono hle).length_le h.length
  · exact fun r hr => h.saved r (hle.subset hr)

end Start

/-- A data file of one byte. -/
def oneByte : String → Stored := fun name =>
  if name = "a.db" then ⟨some 1, fun _ => none⟩ else ⟨none, fun _ => none⟩

theorem crash_recovery_oneByte :
    (run "a.db" [.write 0 1 0 [7], .write 1 1 1 [8], .sync]
      (started oneByte "a.db")).world.commits.length = 4 ∧
    ∀ k, Restores (committed oneByte ((run "a.db" [.write 0 1 0 [7], .write 1 1 1 [8], .sync]
      (started oneByte "a.db")).world.commits.take k)) "a.db" 1 (storedByte (oneByte "a.db")) := by
  constructor
  · decide +kernel
  · intro k
    apply crash_recovery (by decide) rfl rfl (by decide) (by decide) (by decide)
    exact ⟨by decide +kernel, by decide +kernel, by decide, trivial⟩

/-- The same region is saved twice, and what the first write made of it is put back. -/
theorem second_save_not_undone : ¬∀ (stored : String → Stored) (d : String) (size₀ : Nat)
    (steps : List Step) (k : Nat), journalName d ≠ d → (stored (journalName d)).size = none →
    (stored d).size = some size₀ → size₀ < maxSize → (∀ step ∈ steps, step.Inside) →
    Restores (committed stored ((run d steps (started stored d)).world.commits.take k)) d size₀
      (storedByte (stored d)) := by
  intro h
  obtain ⟨s, hs, -, hbyte⟩ := h oneByte "a.db" 1 [.write 0 1 0 [7], .write 0 1 0 [8], .sync] 4
    (by decide) rfl rfl (by decide) (by decide)
  have hseven : ((after (create "a.db" ⟨restart (committed oneByte ((run "a.db"
      [.write 0 1 0 [7], .write 0 1 0 [8], .sync] (started oneByte "a.db")).world.commits.take 4)),
      newJournal⟩)).world.files "a.db").pages.byte 0 = 7 := by
    decide +kernel
  rw [hs] at hseven
  have hzero : (s.world.files "a.db").pages.byte 0 = 0 := hbyte 0 Nat.one_pos
  exact absurd (hzero.symm.trans hseven) (by decide)

end Rhodes.JournalRecovery
