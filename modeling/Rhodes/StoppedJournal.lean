import Mathlib
import Rhodes.JournalRecovery
import Rhodes.WriteAhead

/-!
A journal that was stopped. stop closes the journal file and removes it, but the data file keeps
the journal as its listener, since the name that is removed from the listeners is that of the
data file. Where the data file is synced after that, the info record of the journal is written
again, and the journal is found after a restart. Where it is synced only while the journal is
open or was never opened, a stopped journal stays gone.
-/
namespace Rhodes.StoppedJournal

open Arrays PagedFile FileImpl RandomAccess JournalFile Outcomes FileCalls JournalCalls WriteAhead

/-- A call on a handle of the data file. It is closed by those who have opened it, where the
journal has a handle of its own. -/
def OnData (s : Session) : Call → Prop
  | .openFile name _ => name = s.journal.dataName
  | .closeFile f => f.name = s.journal.dataName ∧
      (if s.journal.dataFile.isSome then 1 else 0) < (s.world.files s.journal.dataName).useCount
  | .setLength f _ => f.name = s.journal.dataName
  | .syncFile f => f.name = s.journal.dataName
  | .writeByte f _ => f.name = s.journal.dataName
  | .writeArray f _ => f.name = s.journal.dataName
  | .readByte f => f.name = s.journal.dataName
  | .readArray f _ => f.name = s.journal.dataName
  | _ => False

/-- The calls that may sync the file. -/
def MaySync : Call → Prop
  | .closeFile f => f.writeAccess = true
  | .syncFile _ => True
  | _ => False

inductive Step where
  | start
  | write (nPos nLen : Nat)
  | stop
  | data (c : Call)

def Step.run (s : Session) : Step → Session
  | .start => final (JournalFile.start s)
  | .write nPos nLen => final (JournalFile.write nPos nLen s)
  | .stop => final (JournalFile.stop s)
  | .data c => { s with world := c.run s.world }

def Step.Allowed (s : Session) : Step → Prop
  | .data c => OnData s c
  | _ => True

/-- The data file is synced only while the journal is open or does not listen. -/
def Step.Meets (s : Session) : Step → Prop
  | .data c => MaySync c → s.journal.journalFile.isSome ∨
      s.journal.journalName ∉ (s.world.files s.journal.dataName).listenForSync
  | _ => True

/-- A run of the steps that satisfy a condition. -/
def Runs (cond : Session → Step → Prop) : Session → Session → Prop :=
  Relation.ReflTransGen (fun s s' => ∃ a : Step, a.Allowed s ∧ cond s a ∧ s' = a.run s)

/-- The journal of a process that starts with these records. -/
def created (stored : String → Stored) (d : String) : Session where
  world := restart stored
  journal := ⟨journalName d, d, none, none, false⟩

/-- What holds of the journal in a session. -/
structure StaysGone (cond : Session → Step → Prop) (s : Session) : Prop where
  /-- There is no journal file after a restart unless a journal is open. -/
  restarted : s.journal.journalFile = none →
    ((restart (fun n => (s.world.files n).pages.stored)).files
      s.journal.journalName).fileExists = false
  /-- A journal is closed by stop. -/
  stopped : (Step.run s .stop).journal.journalFile = none
  /-- The data file does not write a record of a journal that is not open. -/
  silent : s.journal.journalFile = none → ∀ c, OnData s c → cond s (.data c) → ∃ new,
    (c.run s.world).commits = s.world.commits ++ new ∧ ∀ x ∈ new, x.1 ≠ s.journal.journalName

/-- There is no file of this name, and nothing is left of one. -/
structure Gone (info : FileInfo) : Prop where
  useCount : info.useCount = 0
  fileExists : info.fileExists = false
  content : Content info.pages []
  stored : info.pages.stored.size = none

/-- The only handle of the file. -/
structure Held (info : FileInfo) (f : RAFile) : Prop where
  writeAccess : f.writeAccess = true
  useCount : info.useCount = 1
  fileExists : info.fileExists = true

/-- What holds between the steps. -/
structure Inv (d : String) (s : Session) : Prop where
  journalName : s.journal.journalName = journalName d
  dataName : s.journal.dataName = d
  journal : s.journal.journalFile = none ∧ Gone (s.world.files (JournalFile.journalName d)) ∨
    ∃ f, s.journal.journalFile = some f ∧ f.name = JournalFile.journalName d ∧
      Held (s.world.files (JournalFile.journalName d)) f
  dataFile : ∀ f, s.journal.dataFile = some f → f.name = d ∧ f.writeAccess = false ∧
    0 < (s.world.files d).useCount

/-- The use counts of the files stay, and no file is made or removed. -/
structure Counts (w w' : World) : Prop where
  useCount : ∀ n, (w'.files n).useCount = (w.files n).useCount
  fileExists : ∀ n, (w'.files n).fileExists = (w.files n).fileExists

instance : Std.Refl Counts := ⟨fun _ => ⟨fun _ => rfl, fun _ => rfl⟩⟩

instance : IsTrans World Counts :=
  ⟨fun _ _ _ h h' => ⟨fun n => (h'.useCount n).trans (h.useCount n),
    fun n => (h'.fileExists n).trans (h.fileExists n)⟩⟩

section Counts

variable {w : World}

theorem counts_setFile {name : String} {info : FileInfo}
    (huse : info.useCount = (w.files name).useCount)
    (hexists : info.fileExists = (w.files name).fileExists) : Counts w (w.setFile name info) := by
  refine ⟨?_, ?_⟩
  all_goals
    intro n
    rw [files_setFile]
    split
  · rename_i heq
    rw [heq]
    exact huse
  · rfl
  · rename_i heq
    rw [heq]
    exact hexists
  · rfl

theorem counts_syncPages (name : String) (w : World) : Counts w (syncPages name w) := by
  have hset : Counts w (w.setFile name { w.files name with
      pages := (sync (w.files name).pages).1 }) := counts_setFile rfl rfl
  exact ⟨hset.useCount, hset.fileExists⟩

theorem counts_syncInfo (name : String) (w : World) : Counts w (syncInfo name w) := by
  have hlisteners : ∀ (names : List String) (w : World),
      Counts w (names.foldl (fun w listener => syncPages listener w) w) := by
    intro names
    induction names with
    | nil => exact fun w => refl_of Counts w
    | cons l names ih => exact fun w => trans_of Counts (counts_syncPages l w) (ih _)
  exact trans_of Counts (hlisteners _ w) (counts_syncPages name _)

theorem counts_onFile {α : Type} {R : PageTable → PageTable → Prop} {act : InfoM α}
    (h : Moves (OnPages R) act) (name : String) : Moves Counts (onFile name act) := by
  intro w
  rw [final_onFile]
  exact counts_setFile (h _).useCount (h _).fileExists

/-- What happens to the pages does not matter. -/
def AnyPages (_ _ : PageTable) : Prop := True

instance : Std.Refl AnyPages := ⟨fun _ => trivial⟩

theorem moves_anyPages {α : Type} (act : TableM α) : Moves AnyPages act := fun _ => trivial

theorem counts_writeByte (f : RAFile) (b : Int) : Moves Counts (writeByte f b) := by
  have hwrite : Moves Counts (onFile f.name (writeOne f.pos b)) :=
    counts_onFile (moves_writeOne (moves_anyPages _)) f.name
  exact Moves.ite (fun _ => (Moves.throw _).bind (fun _ => hwrite.bind (fun _ => Moves.pure _)))
    (fun _ => hwrite.bind (fun _ => Moves.pure _))

theorem counts_writeArray (f : RAFile) (b : List UInt8) : Moves Counts (writeArray f b) := by
  have hwrite : Moves Counts (onFile f.name (writeMany f.pos b 0 b.length)) :=
    counts_onFile (moves_writeMany (moves_anyPages _)) f.name
  exact Moves.ite (fun _ => (Moves.throw _).bind (fun _ => hwrite.bind (fun _ => Moves.pure _)))
    (fun _ => hwrite.bind (fun _ => Moves.pure _))

theorem counts_readArray (f : RAFile) (b : List UInt8) : Moves Counts (readArray f b) := by
  have hread : Moves Counts (onFile f.name (readMany f.pos b 0 b.length)) :=
    counts_onFile (moves_readMany (moves_anyPages _)) f.name
  exact hread.bind (fun _ => Moves.pure _)

theorem counts_readByte (f : RAFile) : Moves Counts (readByte f) := by
  have hread : Moves Counts (onFile f.name (readOne f.pos)) :=
    counts_onFile (moves_readOne (moves_anyPages _)) f.name
  exact hread.bind (fun _ => Moves.pure _)

theorem counts_setLength (f : RAFile) (newLength : Int) : Moves Counts (setLength f newLength) :=
  counts_onFile (moves_setSize (moves_anyPages _)) f.name

theorem counts_syncFile (f : RAFile) : Moves Counts (syncFile f) := by
  intro w
  unfold syncFile
  dsimp only
  split
  · exact refl_of Counts w
  · split
    · exact refl_of Counts w
    · split
      · exact counts_syncInfo f.name w
      · exact refl_of Counts w

theorem counts_listenForSync (f : RAFile) (name : String) :
    Moves Counts (listenForSync f name) := by
  intro w
  refine ⟨?_, ?_⟩
  all_goals
    intro n
    rw [files_listenForSync]

end Counts

/-- The same handle at some position. -/
def SameHandle (f f' : RAFile) : Prop := f'.name = f.name ∧ f'.writeAccess = f.writeAccess

section Handles

theorem returns_writeByte {f₀ f : RAFile} (hf : SameHandle f₀ f) (b : Int) :
    Returns (SameHandle f₀) (writeByte f b) := by
  refine Returns.ite (Returns.throw Exn.illegalMode) ?_
  exact Returns.bind_any (fun pos => Returns.pure ⟨hf.1, hf.2⟩)

theorem returns_writeArray {f₀ f : RAFile} (hf : SameHandle f₀ f) (b : List UInt8) :
    Returns (SameHandle f₀) (writeArray f b) := by
  refine Returns.ite (Returns.throw Exn.illegalMode) ?_
  exact Returns.bind_any (fun pos => Returns.pure ⟨hf.1, hf.2⟩)

theorem returns_writeLong {f₀ f : RAFile} (hf : SameHandle f₀ f) (v : Nat) :
    Returns (SameHandle f₀) (writeLong f v) := by
  unfold writeLong
  generalize longBytes v = bytes
  induction bytes generalizing f with
  | nil => exact Returns.pure hf
  | cons b bytes ih =>
    rw [List.foldlM_cons]
    exact (returns_writeByte hf _).bind (fun f' hf' => ih hf')

theorem returns_writeRecord (f : RAFile) (nPos nReaded : Nat) (buf : List UInt8) :
    Returns (SameHandle f) (writeRecord f nPos nReaded buf) := by
  refine (returns_writeLong ⟨rfl, rfl⟩ nPos).bind ?_
  intro f₁ h₁
  refine (returns_writeLong h₁ nReaded).bind ?_
  intro f₂ h₂
  refine (returns_writeArray h₂ buf).bind ?_
  intro f₃ h₃
  refine (returns_writeByte h₃ _).bind ?_
  intro f₄ h₄
  exact Returns.bind_any (fun _ => Returns.pure h₄)

theorem returns_onWorld {α : Type} {P : α → Prop} {act : WorldM α} (h : Returns P act) :
    Returns P (onWorld act) := by
  intro s a s' hres
  unfold onWorld at hres
  cases hact : act s.world with
  | ok a' w =>
    rw [hact] at hres
    cases hres
    exact h _ _ _ hact
  | error e w =>
    rw [hact] at hres
    cases hres

end Handles

section Opening

variable {w : World} {d : String}

theorem syncFile_ok {f : RAFile} (hwrite : f.writeAccess = true)
    (huse : 0 < (w.files f.name).useCount) : ∃ w', syncFile f w = .ok () w' := by
  unfold syncFile
  rw [if_neg (by rw [hwrite]; decide), if_neg (Int.not_le.mpr huse)]
  split
  · exact ⟨_, rfl⟩
  · exact ⟨_, rfl⟩

/-- A journal is opened where there is none. -/
theorem openJournal_ok (hne : journalName d ≠ d) (hgone : Gone (w.files (journalName d)))
    (df : RAFile) : ∃ f w', openJournal (journalName d) d df w = .ok f w' ∧
      f.name = journalName d ∧ Held (w'.files (journalName d)) f ∧
      (w'.files d).useCount = (w.files d).useCount := by
  obtain ⟨w₁, hw₁⟩ : ∃ w₁, w₁ = w.setFile (journalName d) { w.files (journalName d) with
    fileExists := true, useCount := (w.files (journalName d)).useCount + 1 } := ⟨_, rfl⟩
  have huse := hgone.useCount
  have hopen : openFile (journalName d) true w = .ok ⟨journalName d, true, 0⟩ w₁ := by
    unfold openFile
    rw [if_neg (by omega), if_neg (by simp), hw₁]
  have hj₁ : w₁.files (journalName d) = { w.files (journalName d) with
      fileExists := true, useCount := (w.files (journalName d)).useCount + 1 } := by
    rw [hw₁, files_setFile_self]
  have hd₁ : w₁.files d = w.files d := by
    rw [hw₁, files_setFile_of_ne _ _ _ hne.symm]
  obtain ⟨w₂, hw₂⟩ : ∃ w₂, w₂ = final (listenForSync ⟨journalName d, true, 0⟩ d w₁) := ⟨_, rfl⟩
  have hlisten : listenForSync ⟨journalName d, true, 0⟩ d w₁ = .ok () w₂ := by
    rw [hw₂]
    rfl
  have hcounts₂ : Counts w₁ w₂ := hw₂ ▸ counts_listenForSync _ _ w₁
  have hpages₂ : (w₂.files (journalName d)).pages = (w.files (journalName d)).pages := by
    rw [hw₂, files_listenForSync, hj₁]
  have huse₂ : (w₂.files (journalName d)).useCount = 1 := by
    rw [hcounts₂.useCount, hj₁, huse]
    rfl
  obtain ⟨size, hlength⟩ : ∃ size, length df w₂ = .ok size w₂ := ⟨_, rfl⟩
  obtain ⟨t, hhead, -, -⟩ := JournalRecovery.appends_head size ⟨journalName d, true, 0⟩ w₂ [] rfl
    (by rw [huse₂]; decide) (by rw [hpages₂]; exact hgone.content) rfl
      (by show 9 < 2147483648; omega)
  replace hhead : (writeLong ⟨journalName d, true, 0⟩ size >>= fun f =>
      writeByte f blockConfirm.toNat) w₂ =
        .ok ⟨journalName d, true, 9⟩ (w₂.setPages (journalName d) t) := hhead
  have hcounts₃ : Counts w₂ (w₂.setPages (journalName d) t) := counts_setFile rfl rfl
  obtain ⟨w₄, hsync⟩ := syncFile_ok (f := ⟨journalName d, true, 9⟩)
    (w := w₂.setPages (journalName d) t) rfl (by rw [hcounts₃.useCount, huse₂]; decide)
  have hcounts₄ : Counts (w₂.setPages (journalName d) t) w₄ := by
    have hfinal := counts_syncFile ⟨journalName d, true, 9⟩ (w₂.setPages (journalName d) t)
    rwa [hsync] at hfinal
  have hcounts : Counts w₁ w₄ :=
    trans_of Counts hcounts₂ (trans_of Counts hcounts₃ hcounts₄)
  refine ⟨⟨journalName d, true, 9⟩, w₄, ?_, rfl, ⟨rfl, ?_, ?_⟩, ?_⟩
  · unfold openJournal
    rw [bind_ok hopen, bind_ok hlisten, bind_ok hlength, ← bind_assoc, bind_ok hhead, bind_ok hsync]
    rfl
  · rw [hcounts.useCount, hj₁, huse]
    rfl
  · rw [hcounts.fileExists, hj₁]
  · rw [hcounts.useCount, hd₁]

end Opening

/-- What a call on the data file does to the other files and to the store. -/
structure DataMove (c : Call) (d : String) (w w' : World) : Prop where
  counts : ∀ n ≠ d, (w'.files n).useCount = (w.files n).useCount ∧
    (w'.files n).fileExists = (w.files n).fileExists
  files : ∀ n ≠ d, (MaySync c → n ∉ (w.files d).listenForSync) → w'.files n = w.files n
  commits : ∃ new, w'.commits = w.commits ++ new ∧ ∀ x ∈ new, x.1 = d ∨
    MaySync c ∧ x.1 ∈ (w.files d).listenForSync

section Data

variable {c : Call} {d : String} {w : World}

theorem dataMove_setFile (c : Call) (d : String) (w : World) (info : FileInfo) :
    DataMove c d w (w.setFile d info) := by
  have hother : ∀ n ≠ d, (w.setFile d info).files n = w.files n := by
    intro n hn
    rw [files_setFile_of_ne _ _ _ hn]
  refine ⟨?_, fun n hn _ => hother n hn, [], (List.append_nil _).symm, by simp⟩
  intro n hn
  rw [hother n hn]
  exact ⟨rfl, rfl⟩

theorem dataMove_of_movesFile {α : Type} {act : WorldM α} (h : MovesFile anySize True d act)
    (w : World) : DataMove c d w (final (act w)) := by
  obtain ⟨info, hfinal, -⟩ := h w
  rw [hfinal]
  exact dataMove_setFile c d w info

theorem files_foldl_syncPages {names : List String} {n : String} (hn : n ∉ names) (w : World) :
    (names.foldl (fun w listener => syncPages listener w) w).files n = w.files n := by
  induction names generalizing w with
  | nil => rfl
  | cons l names ih =>
    rw [List.mem_cons, not_or] at hn
    rw [List.foldl_cons, ih hn.2, files_syncPages, if_neg hn.1]

theorem commits_foldl_syncPages (names : List String) (w : World) : ∃ new,
    (names.foldl (fun w listener => syncPages listener w) w).commits = w.commits ++ new ∧
      ∀ x ∈ new, x.1 ∈ names := by
  induction names generalizing w with
  | nil => exact ⟨[], (List.append_nil _).symm, by simp⟩
  | cons l names ih =>
    obtain ⟨new, hnew, hnames⟩ := ih (syncPages l w)
    refine ⟨(sync (w.files l).pages).2.map (fun c => (l, c)) ++ new, ?_, ?_⟩
    · rw [List.foldl_cons, hnew, ← List.append_assoc]
      rfl
    · intro x hx
      rcases List.mem_append.mp hx with hx | hx
      · obtain ⟨c, -, rfl⟩ := List.mem_map.mp hx
        exact List.mem_cons_self
      · exact List.mem_cons_of_mem l (hnames x hx)

/-- The data file is synced as it is but for its use count. -/
theorem dataMove_syncInfo (hc : MaySync c) (useCount : Int) : DataMove c d w
    (syncInfo d (w.setFile d { w.files d with useCount := useCount })) := by
  obtain ⟨v, hv⟩ : ∃ v, v = w.setFile d { w.files d with useCount := useCount } := ⟨_, rfl⟩
  have hset : DataMove c d w v := hv ▸ dataMove_setFile c d w _
  have hlisteners : (v.files d).listenForSync = (w.files d).listenForSync := by
    rw [hv, files_setFile_self]
  rw [← hv]
  refine ⟨?_, ?_, ?_⟩
  · intro n hn
    have hcounts := counts_syncInfo d v
    rw [hcounts.useCount, hcounts.fileExists]
    exact hset.counts n hn
  · intro n hn hlistener
    have hquiet := hlistener hc
    rw [syncInfo, files_syncPages, if_neg hn, hlisteners, files_foldl_syncPages hquiet]
    rw [hv, files_setFile_of_ne _ _ _ hn]
  · obtain ⟨new, hnew, hnames⟩ := commits_foldl_syncPages (v.files d).listenForSync v
    have hcommits : v.commits = w.commits := by
      rw [hv]
      rfl
    obtain ⟨u, hu⟩ : ∃ u, u = (v.files d).listenForSync.foldl
        (fun w listener => syncPages listener w) v := ⟨_, rfl⟩
    rw [← hu, hcommits] at hnew
    refine ⟨new ++ (sync (u.files d).pages).2.map (fun c => (d, c)), ?_, ?_⟩
    · rw [syncInfo, ← hu, ← List.append_assoc, ← hnew]
      rfl
    · intro x hx
      rcases List.mem_append.mp hx with hx | hx
      · rw [← hlisteners]
        exact .inr ⟨hc, hnames x hx⟩
      · obtain ⟨c, -, rfl⟩ := List.mem_map.mp hx
        exact .inl rfl

theorem dataMove_call {s : Session} (hd : s.journal.dataName = d) (hc : OnData s c) :
    DataMove c d s.world (c.run s.world) := by
  subst hd
  have hself : DataMove c s.journal.dataName s.world s.world := by
    have hset := dataMove_setFile c s.journal.dataName s.world (s.world.files s.journal.dataName)
    rwa [setFile_self] at hset
  cases c with
  | openFile name writeAccess =>
    rw [← show name = s.journal.dataName from hc]
    exact dataMove_of_movesFile (movesFile_openFile name writeAccess) s.world
  | closeFile f =>
    rw [← hc.1] at hself ⊢
    show DataMove _ _ _ (final (RandomAccess.closeFile f s.world))
    unfold RandomAccess.closeFile
    dsimp only
    split
    · exact hself
    · split
      · rename_i hlast
        exact dataMove_syncInfo (c := .closeFile f) hlast.2.1 _
      · exact dataMove_setFile _ _ _ _
  | setLength f newLength =>
    rw [← show f.name = s.journal.dataName from hc]
    exact dataMove_of_movesFile (movesFile_setLength trivial f trivial) s.world
  | syncFile f =>
    rw [← show f.name = s.journal.dataName from hc] at hself ⊢
    show DataMove _ _ _ (final (RandomAccess.syncFile f s.world))
    unfold RandomAccess.syncFile
    dsimp only
    split
    · exact hself
    · split
      · exact hself
      · split
        · have hsync : DataMove (.syncFile f) f.name s.world
            (syncInfo f.name (s.world.setFile f.name
              { s.world.files f.name with useCount := (s.world.files f.name).useCount })) :=
            dataMove_syncInfo (c := .syncFile f) trivial _
          rwa [setFile_self] at hsync
        · exact hself
  | writeByte f b =>
    rw [← show f.name = s.journal.dataName from hc]
    exact dataMove_of_movesFile (movesFile_writeByte trivial f b trivial) s.world
  | writeArray f b =>
    rw [← show f.name = s.journal.dataName from hc]
    exact dataMove_of_movesFile (movesFile_writeArray trivial f b trivial) s.world
  | readByte f =>
    rw [← show f.name = s.journal.dataName from hc]
    exact dataMove_of_movesFile (movesFile_readByte f) s.world
  | readArray f b =>
    rw [← show f.name = s.journal.dataName from hc]
    exact dataMove_of_movesFile (movesFile_readArray f b) s.world
  | listenForSync f name => exact hc.elim
  | stopListenForSync f name => exact hc.elim
  | removeElement name => exact hc.elim

/-- The handle that the journal has of the data file is not closed by others. -/
theorem useCount_call {s : Session} (hd : s.journal.dataName = d) (hc : OnData s c)
    (hfile : s.journal.dataFile.isSome) (huse : 0 < (s.world.files d).useCount) :
    0 < ((c.run s.world).files d).useCount := by
  subst hd
  have hkeep : ∀ {w'}, Counts s.world w' → 0 < (w'.files s.journal.dataName).useCount := by
    intro w' hcounts
    rw [hcounts.useCount]
    exact huse
  cases c with
  | openFile name writeAccess =>
    obtain rfl : name = s.journal.dataName := hc
    show 0 < ((final (RandomAccess.openFile _ writeAccess s.world)).files _).useCount
    unfold RandomAccess.openFile
    dsimp only
    split
    · exact huse
    · split
      · exact huse
      · rw [final_ok, files_setFile_self]
        dsimp only
        omega
  | closeFile f =>
    obtain ⟨hname, hothers⟩ := hc
    rw [if_pos hfile] at hothers
    show 0 < ((final (RandomAccess.closeFile f s.world)).files _).useCount
    unfold RandomAccess.closeFile
    dsimp only
    rw [hname, if_neg (by omega), if_neg (by omega), final_ok, files_setFile_self]
    dsimp only
    omega
  | setLength f newLength => exact hkeep (counts_setLength f newLength s.world)
  | syncFile f => exact hkeep (counts_syncFile f s.world)
  | writeByte f b => exact hkeep (counts_writeByte f b s.world)
  | writeArray f b => exact hkeep (counts_writeArray f b s.world)
  | readByte f => exact hkeep (counts_readByte f s.world)
  | readArray f b => exact hkeep (counts_readArray f b s.world)
  | listenForSync f name => exact hc.elim
  | stopListenForSync f name => exact hc.elim
  | removeElement name => exact hc.elim

end Data

section Steps

variable {d : String} {s : Session}

theorem inv_data (hne : journalName d ≠ d) (hs : Inv d s) {c : Call} (hc : OnData s c)
    (hmeets : Step.Meets s (.data c)) : Inv d { s with world := c.run s.world } := by
  have hmove := dataMove_call hs.dataName hc
  refine ⟨hs.journalName, hs.dataName, ?_, ?_⟩
  · rcases hs.journal with ⟨hnone, hgone⟩ | ⟨f, hfile, hname, hheld⟩
    · refine .inl ⟨hnone, ?_⟩
      have hfiles : (c.run s.world).files (journalName d) = s.world.files (journalName d) := by
        refine hmove.files _ hne ?_
        intro hsync
        have hcond := hmeets hsync
        rw [hnone, hs.journalName, hs.dataName] at hcond
        simpa using hcond
      show Gone ((c.run s.world).files (journalName d))
      rw [hfiles]
      exact hgone
    · refine .inr ⟨f, hfile, hname, hheld.writeAccess, ?_, ?_⟩
      · exact (hmove.counts _ hne).1.trans hheld.useCount
      · exact (hmove.counts _ hne).2.trans hheld.fileExists
  · intro f hfile
    obtain ⟨hname, hread, huse⟩ := hs.dataFile f hfile
    refine ⟨hname, hread, useCount_call hs.dataName hc ?_ huse⟩
    have hsome : s.journal.dataFile = some f := hfile
    rw [hsome]
    rfl

theorem inv_start (hs : Inv d s) : Inv d (final (JournalFile.start s)) := by
  have hstart : JournalFile.start s = if (s.world.files s.journal.journalName).fileExists then
      .error .cannotStart s
    else .ok () { s with journal := { s.journal with started := true } } := by
    show (if (s.world.files s.journal.journalName).fileExists then _ else _ : JournalM Unit) s = _
    split <;> rfl
  rw [hstart]
  split
  · exact hs
  · exact ⟨hs.journalName, hs.dataName, hs.journal, hs.dataFile⟩

/-- A file of the journal is opened where there is none; nothing is done where it is not found. -/
theorem openedData_cases (hne : journalName d ≠ d) (hs : Inv d s) :
    (∃ e, openedData s.journal s = .error e s) ∨
    ∃ df w, openedData s.journal s = .ok df { s with world := w } ∧ df.name = d ∧
      df.writeAccess = false ∧ 0 < (w.files d).useCount ∧
      w.files (journalName d) = s.world.files (journalName d) := by
  cases hfile : s.journal.dataFile with
  | some f =>
    obtain ⟨hname, hread, huse⟩ := hs.dataFile f hfile
    refine .inr ⟨f, s.world, ?_, hname, hread, huse, rfl⟩
    rw [openedData, hfile]
    rfl
  | none =>
    have hopen : openedData s.journal s = onWorld (openFile d false) s := by
      rw [openedData, hfile, hs.dataName]
    rw [hopen, onWorld, openFile]
    by_cases hneg : (s.world.files d).useCount < 0
    · rw [if_pos hneg]
      exact .inl ⟨_, rfl⟩
    · rw [if_neg hneg]
      split
      · rename_i a w hopened
        split at hopened
        · cases hopened
        · cases hopened
          refine .inr ⟨_, _, rfl, rfl, rfl, ?_, ?_⟩
          · rw [files_setFile_self]
            dsimp only
            omega
          · rw [files_setFile_of_ne _ _ _ hne]
      · rename_i e w hfailed
        split at hfailed
        · cases hfailed
          exact .inl ⟨_, rfl⟩
        · cases hfailed

/-- The journal file is taken as it is, or opened. -/
theorem openedJournal_ok (hne : journalName d ≠ d) (hs : Inv d s) (df : RAFile) (s' : Session)
    (hfiles : s'.world.files (journalName d) = s.world.files (journalName d)) :
    ∃ jf w, openedJournal s.journal df s' = .ok jf { s' with world := w } ∧
      jf.name = journalName d ∧ Held (w.files (journalName d)) jf ∧
      (w.files d).useCount = (s'.world.files d).useCount := by
  rcases hs.journal with ⟨hnone, hgone⟩ | ⟨f, hfile, hname, hheld⟩
  · obtain ⟨jf, w, hopen, hname, hheld, huse⟩ := openJournal_ok hne (hfiles ▸ hgone) df
    refine ⟨jf, w, ?_, hname, hheld, huse⟩
    rw [openedJournal, hnone, hs.journalName, hs.dataName]
    exact JournalRecovery.onWorld_ok hopen
  · refine ⟨f, s'.world, ?_, hname, hfiles ▸ hheld, rfl⟩
    rw [openedJournal, hfile]
    rfl

/-- The journal file is open after initJournal, unless it throws and opens none. -/
theorem inv_initJournal (hne : journalName d ≠ d) (hs : Inv d s) :
    Inv d (final (initJournal s)) ∧ ∀ r s', initJournal s = .ok r s' →
      s'.journal.journalFile = some r.2 := by
  have hinit : initJournal s = (if s.journal.started = false then throw .cannotStart else do
      let dataFile ← openedData s.journal
      modify (fun s => { s with journal := { s.journal with dataFile := some dataFile } })
      let journalFile ← openedJournal s.journal dataFile
      modify (fun s => { s with journal := { s.journal with journalFile := some journalFile } })
      return (dataFile, journalFile) : JournalM (RAFile × RAFile)) s := by
    unfold initJournal
    rw [bind_get]
    dsimp only
    split <;> rfl
  rw [hinit]
  split
  · exact ⟨hs, fun r s' hres => by cases hres⟩
  · rcases openedData_cases hne hs with ⟨e, herror⟩ | ⟨df, w, hopen, hname, hread, huse, hjournal⟩
    · rw [bind_error herror]
      exact ⟨hs, fun r s' hres => by cases hres⟩
    · obtain ⟨s', hs'⟩ : ∃ s' : Session, s' = ⟨w, { s.journal with dataFile := some df }⟩ := ⟨_, rfl⟩
      obtain ⟨jf, w', hopen', hname', hheld, huse'⟩ := openedJournal_ok hne hs df s'
        (by rw [hs']; exact hjournal)
      have hrest : (do
          modify (fun s => { s with journal := { s.journal with dataFile := some df } })
          let journalFile ← openedJournal s.journal df
          modify (fun s => { s with journal := { s.journal with journalFile := some journalFile } })
          return (df, journalFile) : JournalM (RAFile × RAFile)) { s with world := w } =
          .ok (df, jf) ⟨w', { s.journal with dataFile := some df, journalFile := some jf }⟩ := by
        rw [hs'] at hopen'
        show (openedJournal s.journal df >>= _) ⟨w, { s.journal with dataFile := some df }⟩ = _
        rw [bind_ok hopen']
        rfl
      rw [bind_ok hopen, hrest]
      refine ⟨⟨hs.journalName, hs.dataName, .inr ⟨jf, rfl, hname', hheld⟩, ?_⟩, ?_⟩
      · intro f hf
        cases hf
        refine ⟨hname, hread, ?_⟩
        show 0 < (w'.files d).useCount
        rw [huse', hs']
        exact huse
      · intro r s'' hres
        cases hres
        rfl

/-- A step after which the journal is open where it was. -/
def KeepsOpen (d : String) (s s' : Session) : Prop :=
  Inv d s ∧ s.journal.journalFile.isSome → Inv d s' ∧ s'.journal.journalFile.isSome

instance : Std.Refl (KeepsOpen d) := ⟨fun _ => id⟩

instance : IsTrans Session (KeepsOpen d) := ⟨fun _ _ _ h h' hs => h' (h hs)⟩

/-- What counts of the files while the journal is open. -/
theorem held_of_open (hs : Inv d s) (hopen : s.journal.journalFile.isSome) :
    (s.world.files (journalName d)).useCount = 1 ∧
      (s.world.files (journalName d)).fileExists = true := by
  rcases hs.journal with ⟨hnone, -⟩ | ⟨f, -, -, hheld⟩
  · rw [hnone] at hopen
    cases hopen
  · exact ⟨hheld.useCount, hheld.fileExists⟩

theorem keepsOpen_onWorld {α : Type} {act : WorldM α} (h : Moves Counts act) :
    Moves (KeepsOpen d) (onWorld act) := by
  rintro s ⟨hs, hopen⟩
  have hcounts := h s.world
  rw [final_onWorld]
  refine ⟨⟨hs.journalName, hs.dataName, ?_, ?_⟩, hopen⟩
  · rcases hs.journal with ⟨hnone, -⟩ | ⟨f, hfile, hname, hheld⟩
    · rw [hnone] at hopen
      cases hopen
    · refine .inr ⟨f, hfile, hname, hheld.writeAccess, ?_, ?_⟩
      · exact (hcounts.useCount _).trans hheld.useCount
      · exact (hcounts.fileExists _).trans hheld.fileExists
  · intro f hf
    obtain ⟨hname, hread, huse⟩ := hs.dataFile f hf
    refine ⟨hname, hread, ?_⟩
    show 0 < ((final (act s.world)).files d).useCount
    rw [hcounts.useCount]
    exact huse

theorem keepsOpen_setJournal {jf : RAFile} (hname : jf.name = journalName d)
    (hwrite : jf.writeAccess = true) : Moves (KeepsOpen d) (modify (fun s =>
      { s with journal := { s.journal with journalFile := some jf } }) : JournalM PUnit) := by
  rintro s ⟨hs, hopen⟩
  obtain ⟨huse, hexists⟩ := held_of_open hs hopen
  exact ⟨⟨hs.journalName, hs.dataName, .inr ⟨jf, rfl, hname, hwrite, huse, hexists⟩,
    hs.dataFile⟩, rfl⟩

theorem keepsOpen_saveRegion (df : RAFile) {jf : RAFile} (hname : jf.name = journalName d)
    (hwrite : jf.writeAccess = true) (nPos : Nat) (buf : List UInt8) :
    Moves (KeepsOpen d) (saveRegion df jf nPos buf) := by
  refine (keepsOpen_onWorld (counts_readArray _ buf)).bind ?_
  rintro ⟨nReaded, buf, f⟩
  refine Moves.ite (fun _ => Moves.pure _) ?_
  intro _
  have hrecord : Moves Counts (writeRecord jf nPos nReaded.toNat buf) :=
    moves_writeRecord counts_writeByte counts_writeArray counts_syncFile jf nPos _ buf
  refine (keepsOpen_onWorld hrecord).bind_ok ?_
  rintro jf' ⟨s, s', hres⟩
  obtain ⟨hname', hwrite'⟩ := returns_onWorld (returns_writeRecord jf nPos nReaded.toNat buf) s
    jf' s' hres
  exact keepsOpen_setJournal (hname'.trans hname) (hwrite'.trans hwrite)

theorem inv_write (hne : journalName d ≠ d) (hs : Inv d s) (nPos nLen : Nat) :
    Inv d (final (JournalFile.write nPos nLen s)) := by
  obtain ⟨hinit, hopened⟩ := inv_initJournal hne hs
  unfold JournalFile.write
  cases hres : initJournal s with
  | error e s' =>
    rw [hres] at hinit
    rw [bind_error hres]
    exact hinit
  | ok r s' =>
    obtain ⟨df, jf⟩ := r
    rw [hres, final_ok] at hinit
    have hfile : s'.journal.journalFile = some jf := hopened _ _ hres
    obtain ⟨hname, hwrite⟩ : jf.name = journalName d ∧ jf.writeAccess = true := by
      rcases hinit.journal with ⟨hnone, -⟩ | ⟨f, hf, hname, hheld⟩
      · rw [hfile] at hnone
        cases hnone
      · rw [hfile] at hf
        cases hf
        exact ⟨hname, hheld.writeAccess⟩
    have hsave := keepsOpen_saveRegion df hname hwrite nPos (List.replicate (toInt nLen).toNat 0)
    rw [bind_ok hres]
    dsimp only
    split
    · exact hinit
    · refine (hsave s' ⟨hinit, ?_⟩).1
      rw [hfile]
      rfl

end Steps

/-- The file as close leaves it. -/
structure Closed (info : FileInfo) : Prop where
  useCount : info.useCount = 0
  left : info.fileExists = true ∨ Gone info

section Stop

variable {d : String} {s : Session} {w : World}

theorem closeFile_held {f : RAFile} (hheld : Held (w.files f.name) f) : ∃ w',
    closeFile f w = .ok () w' ∧ Closed (w'.files f.name) ∧
      ∀ n ≠ f.name, (w'.files n).useCount = (w.files n).useCount := by
  obtain ⟨v, hv⟩ : ∃ v, v = w.setFile f.name
      { w.files f.name with useCount := (w.files f.name).useCount - 1 } := ⟨_, rfl⟩
  have huse := hheld.useCount
  have hclose : closeFile f w = .ok () (syncInfo f.name v) := by
    unfold closeFile
    rw [if_neg (by omega), if_pos ⟨by omega, hheld.writeAccess, hheld.fileExists⟩, hv]
  have hcounts := counts_syncInfo f.name v
  refine ⟨_, hclose, ⟨?_, .inl ?_⟩, ?_⟩
  · rw [hcounts.useCount, hv, files_setFile_self]
    dsimp only
    omega
  · rw [hcounts.fileExists, hv, files_setFile_self]
    exact hheld.fileExists
  · intro n hn
    rw [hcounts.useCount, hv, files_setFile_of_ne _ _ _ hn]

/-- A handle that only reads is closed without a sync. -/
theorem closeFile_reader {f : RAFile} (hread : f.writeAccess = false)
    (huse : 0 < (w.files f.name).useCount) : closeFile f w = .ok () (w.setFile f.name
      { w.files f.name with useCount := (w.files f.name).useCount - 1 }) := by
  unfold closeFile
  rw [if_neg (by omega), if_neg (by simp [hread])]

theorem stopListenForSync_ok (f : RAFile) (name : String) (w : World) : ∃ w',
    stopListenForSync f name w = .ok () w' ∧ Counts w w' := by
  refine ⟨final (stopListenForSync f name w), rfl, ?_, ?_⟩
  all_goals
    intro n
    rw [files_stopListenForSync]

/-- The files of the journal are closed. -/
theorem close_ok (hne : journalName d ≠ d) (hs : Inv d s) : ∃ w,
    close s = .ok () ⟨w, { s.journal with journalFile := none, dataFile := none }⟩ ∧
      Closed (w.files (journalName d)) := by
  obtain ⟨world, jname, dname, dfile, jfile, started⟩ := s
  -- The journal file first; the use count of the data file stays.
  obtain ⟨v, hjournal, hclosed, hcount⟩ : ∃ v, close ⟨world, jname, dname, dfile, jfile, started⟩ =
      (dfile.elim (pure ()) (fun f => do
        onWorld (closeFile f)
        modify (fun s => { s with journal := { s.journal with dataFile := none } })) :
          JournalM Unit) ⟨v, jname, dname, dfile, none, started⟩ ∧
        Closed (v.files (journalName d)) ∧ (v.files d).useCount = (world.files d).useCount := by
    unfold close
    rw [bind_get]
    rcases hs.journal with ⟨hnone, hgone⟩ | ⟨f, hfile, hname, hheld⟩
    · obtain rfl : jfile = none := hnone
      refine ⟨world, ?_, ⟨hgone.useCount, .inr hgone⟩, rfl⟩
      cases dfile <;> rfl
    · obtain rfl : jfile = some f := hfile
      obtain ⟨u, hstop, hcounts⟩ := stopListenForSync_ok f dname world
      have hheld' : Held (u.files f.name) f := by
        rw [hname]
        exact ⟨hheld.writeAccess, (hcounts.useCount _).trans hheld.useCount,
          (hcounts.fileExists _).trans hheld.fileExists⟩
      obtain ⟨v, hclose, hclosed, hother⟩ := closeFile_held hheld'
      refine ⟨v, ?_, hname ▸ hclosed, ?_⟩
      · dsimp only
        rw [bind_ok (JournalRecovery.onWorld_ok hstop), bind_ok (JournalRecovery.onWorld_ok hclose)]
        cases dfile <;> rfl
      · rw [hother d (hname ▸ hne.symm), hcounts.useCount]
  rw [hjournal]
  cases dfile with
  | none => exact ⟨v, rfl, hclosed⟩
  | some f =>
    obtain ⟨hname, hread, huse⟩ := hs.dataFile f rfl
    have hclose := closeFile_reader (w := v) hread (by rw [hname, hcount]; exact huse)
    refine ⟨v.setFile f.name { v.files f.name with useCount :=
      (v.files f.name).useCount - 1 }, ?_, ?_⟩
    · rw [Option.elim_some, bind_ok (JournalRecovery.onWorld_ok hclose)]
      rfl
    · rw [files_setFile_of_ne _ _ _ (hname ▸ hne)]
      exact hclosed

theorem gone_deleted {info : FileInfo} (huse : info.useCount = 0) :
    Gone { info with fileExists := false, pages := deleted info.pages } where
  useCount := huse
  fileExists := rfl
  content := ⟨valid_deleted _, rfl, rfl⟩
  stored := rfl

theorem removeElement_closed {name : String} (h : Closed (w.files name)) : ∃ w',
    removeElement name w = .ok () w' ∧ Gone (w'.files name) := by
  have hremove : removeElement name w =
      (if (w.files name).fileExists then onFile name deleteInfo else pure () : WorldM Unit) w := rfl
  rw [hremove]
  split
  · refine ⟨_, rfl, ?_⟩
    rw [files_setFile_self]
    exact gone_deleted h.useCount
  · rename_i hexists
    refine ⟨w, rfl, ?_⟩
    rcases h.left with htrue | hgone
    · exact absurd htrue hexists
    · exact hgone

/-- A stopped journal is closed and gone. -/
theorem stop_ok (hne : journalName d ≠ d) (hs : Inv d s) : ∃ w,
    JournalFile.stop s = .ok () ⟨w, { s.journal with
      journalFile := none, dataFile := none, started := false }⟩ ∧
        Gone (w.files (journalName d)) := by
  obtain ⟨v, hclose, hclosed⟩ := close_ok hne hs
  obtain ⟨w, hremove, hgone⟩ := removeElement_closed hclosed
  refine ⟨w, ?_, hgone⟩
  unfold JournalFile.stop
  rw [bind_ok hclose, bind_get]
  dsimp only
  rw [hs.journalName, bind_ok (JournalRecovery.onWorld_ok hremove)]
  rfl

theorem inv_stop (hne : journalName d ≠ d) (hs : Inv d s) : Inv d (final (JournalFile.stop s)) := by
  obtain ⟨w, hstop, hgone⟩ := stop_ok hne hs
  rw [hstop]
  refine ⟨hs.journalName, hs.dataName, .inl ⟨rfl, hgone⟩, ?_⟩
  intro f hf
  cases hf

end Stop

section Runs

variable {stored : String → Stored} {d : String} {s : Session}

theorem inv_created (hnone : (stored (journalName d)).size = none) : Inv d (created stored d) := by
  refine ⟨rfl, rfl, .inl ⟨rfl, rfl, ?_, ⟨?_, ?_, rfl⟩, hnone⟩, ?_⟩
  · show (stored (journalName d)).size.isSome = false
    rw [hnone]
    rfl
  · refine valid_ofStored ?_
    rw [hnone]
    show 0 < maxSize
    decide
  · show (stored (journalName d)).size.getD 0 = 0
    rw [hnone]
    rfl
  · intro f hf
    cases hf

theorem inv_step (hne : journalName d ≠ d) (hs : Inv d s) {a : Step} (ha : a.Allowed s)
    (hmeets : a.Meets s) : Inv d (a.run s) := by
  cases a with
  | start => exact inv_start hs
  | write nPos nLen => exact inv_write hne hs nPos nLen
  | stop => exact inv_stop hne hs
  | data c => exact inv_data hne hs ha hmeets

theorem inv_runs (hne : journalName d ≠ d) (hnone : (stored (journalName d)).size = none)
    (h : Runs (fun s a => a.Meets s) (created stored d) s) : Inv d s := by
  induction h with
  | refl => exact inv_created hnone
  | tail _ hlast ih =>
    obtain ⟨a, ha, hmeets, rfl⟩ := hlast
    exact inv_step hne ih ha hmeets

/-- In every run in which the data file is synced only while the journal is open or does not
listen, a journal that was stopped stays gone. -/
theorem stopped_journal_stays_gone (hne : journalName d ≠ d)
    (hnone : (stored (journalName d)).size = none)
    (h : Runs (fun s a => a.Meets s) (created stored d) s) :
      StaysGone (fun s a => a.Meets s) s := by
  have hs := inv_runs hne hnone h
  refine ⟨?_, ?_, ?_⟩
  · intro hclosed
    rcases hs.journal with ⟨-, hgone⟩ | ⟨f, hfile, -, -⟩
    · rw [hs.journalName]
      show (s.world.files (journalName d)).pages.stored.size.isSome = false
      rw [hgone.stored]
      rfl
    · rw [hclosed] at hfile
      cases hfile
  · obtain ⟨w, hstop, -⟩ := stop_ok hne hs
    show (final (JournalFile.stop s)).journal.journalFile = none
    rw [hstop]
    rfl
  · intro hclosed c hc hmeets
    obtain ⟨new, hnew, hnames⟩ := (dataMove_call hs.dataName hc).commits
    refine ⟨new, hnew, ?_⟩
    intro x hx hname
    rw [hs.journalName] at hname
    rcases hnames x hx with hdata | ⟨hsync, hlistener⟩
    · exact hne (hname.symm.trans hdata)
    · have hcond := hmeets hsync
      rw [hclosed, hs.journalName, hs.dataName] at hcond
      rcases hcond with hopen | hquiet
      · cases hopen
      · exact hquiet (hname ▸ hlistener)

/-- The steps of a list satisfy the condition, one after the other. -/
def AllMeet (cond : Session → Step → Prop) : Session → List Step → Prop
  | _, [] => True
  | s, a :: steps => a.Allowed s ∧ cond s a ∧ AllMeet cond (a.run s) steps

theorem runs_foldl {cond : Session → Step → Prop} {steps : List Step} (h : AllMeet cond s steps) :
    Runs cond s (steps.foldl Step.run s) := by
  induction steps generalizing s with
  | nil => exact .refl
  | cons a steps ih =>
    obtain ⟨ha, hcond, hrest⟩ := h
    exact .head ⟨a, ha, hcond, rfl⟩ (ih hrest)

end Runs

/-- The data file is opened and a journal is started, written, and stopped with a sync of the
data file before. -/
def syncedSteps : List Step :=
  [.data (.openFile "db.data" true), .start, .write 0 1,
    .data (.syncFile ⟨"db.data", true, 0⟩), .stop]

/-- The same with the sync after the journal was stopped. -/
def stoppedSteps : List Step :=
  [.data (.openFile "db.data" true), .start, .write 0 1, .stop,
    .data (.syncFile ⟨"db.data", true, 0⟩)]

def after (steps : List Step) : Session :=
  steps.foldl Step.run (created (fun _ => ⟨none, fun _ => none⟩) "db.data")

theorem stopped_journal_stays_gone_synced : (after syncedSteps).journal.journalFile = none ∧
    StaysGone (fun s a => a.Meets s) (after syncedSteps) := by
  refine ⟨Option.isNone_iff_eq_none.mp (by decide +kernel), ?_⟩
  have hmeet : AllMeet (fun s a => a.Meets s) (created (fun _ => ⟨none, fun _ => none⟩) "db.data")
      syncedSteps := by
    refine ⟨rfl, fun h => h.elim, trivial, trivial, trivial, trivial, ?_, fun _ => .inl ?_,
      trivial, trivial, trivial⟩
    · show "db.data" = _
      decide +kernel
    · decide +kernel
  have hne : journalName "db.data" ≠ "db.data" := by decide
  exact stopped_journal_stays_gone hne rfl (runs_foldl hmeet)

/-- The sync of the data file after stop writes the info record of the journal, so that there is
a journal file after a restart. -/
theorem stopped_journal_comes_back :
    Runs (fun _ _ => True) (created (fun _ => ⟨none, fun _ => none⟩) "db.data")
      (after stoppedSteps) ∧
    (after stoppedSteps).journal.journalFile = none ∧
    (after stoppedSteps).world.commits.any (fun x => x.1 = "db.journal" && match x.2 with
      | .size n => n = 0
      | .page _ _ => false) = true ∧
    ¬StaysGone (fun _ _ => True) (after stoppedSteps) := by
  have hclosed : (after stoppedSteps).journal.journalFile = none :=
    Option.isNone_iff_eq_none.mp (by decide +kernel)
  refine ⟨?_, hclosed, by decide +kernel, ?_⟩
  · refine runs_foldl ⟨rfl, trivial, trivial, trivial, trivial, trivial, trivial, trivial,
      ?_, trivial,
      trivial⟩
    show "db.data" = _
    decide +kernel
  · intro h
    have hexists : ((restart (fun n => ((after stoppedSteps).world.files n).pages.stored)).files
        (after stoppedSteps).journal.journalName).fileExists = true := by
      decide +kernel
    rw [h.restarted hclosed] at hexists
    cases hexists

end Rhodes.StoppedJournal
