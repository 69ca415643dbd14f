import Mathlib.Logic.Relation
import Rhodes.DirtyPages
import Rhodes.FileOutcomes
import Rhodes.JournalFile
import Rhodes.RandomAccessSpecs

/-!
The calls that the journals and the data files of a process make on RandomAccessFile and
FileUtilBB, in any order and however they end. A call does to the pages of each file what the
methods of the paged file do; a file listens for another one only where it is its journal.
-/
namespace Rhodes.FileCalls

open Arrays PagedFile FileImpl RandomAccess JournalFile Outcomes

/-- The names that journals have. -/
def IsJournal (name : String) : Prop := ".journal".toList <:+ name.toList

instance : DecidablePred IsJournal := fun name => inferInstanceAs (Decidable (_ <:+ name.toList))

theorem isJournal_journalName (name : String) : IsJournal (journalName name) := by
  unfold IsJournal journalName
  rw [String.toList_append]
  exact List.suffix_append _ _

inductive Call where
  | openFile (name : String) (writeAccess : Bool)
  | closeFile (f : RAFile)
  | setLength (f : RAFile) (newLength : Int)
  | syncFile (f : RAFile)
  | writeByte (f : RAFile) (b : Int)
  | writeArray (f : RAFile) (b : List UInt8)
  | readByte (f : RAFile)
  | readArray (f : RAFile) (b : List UInt8)
  | listenForSync (f : RAFile) (name : String)
  | stopListenForSync (f : RAFile) (name : String)
  | removeElement (name : String)

/-- The files after the call. -/
def Call.run (w : World) : Call → World
  | .openFile name writeAccess => final (RandomAccess.openFile name writeAccess w)
  | .closeFile f => final (RandomAccess.closeFile f w)
  | .setLength f newLength => final (RandomAccess.setLength f newLength w)
  | .syncFile f => final (RandomAccess.syncFile f w)
  | .writeByte f b => final (RandomAccess.writeByte f b w)
  | .writeArray f b => final (RandomAccess.writeArray f b w)
  | .readByte f => final (RandomAccess.readByte f w)
  | .readArray f b => final (RandomAccess.readArray f b w)
  | .listenForSync f name => final (RandomAccess.listenForSync f name w)
  | .stopListenForSync f name => final (RandomAccess.stopListenForSync f name w)
  | .removeElement name => final (RandomAccess.removeElement name w)

/-- Only a journal listens, for the data file that it is the journal of; the sizes that a call
makes fit. -/
def Call.Meets (fits : Nat → Prop) : Call → Prop
  | .setLength _ newLength => fits newLength.toNat
  | .writeByte f _ => fits (f.pos + 1)
  | .writeArray f b => fits (f.pos + b.length)
  | .listenForSync f name => f.name = journalName name ∧ ¬IsJournal name
  | _ => True

/-- The files after some calls. -/
def Calls (fits : Nat → Prop) : World → World → Prop :=
  Relation.ReflTransGen (fun w w' => ∃ c : Call, c.Meets fits ∧ w' = c.run w)

/-- What delete leaves of the pages. -/
def deleted (t : PageTable) : PageTable :=
  { final (deletePages 0 (t.pages.length - 1) t) with
    size := 0
    dirty := 0
    stored := { (final (deletePages 0 (t.pages.length - 1) t)).stored with size := none } }

/-- What a call can do to the pages of a file. -/
inductive TableStep (fits : Nat → Prop) : PageTable → PageTable → Prop where
  | resize (newSize : Nat) (h : fits newSize) (t : PageTable) :
    TableStep fits t (final (PagedFile.resize newSize t))
  | read (pos : Nat) (t : PageTable) : TableStep fits t (final (PagedFile.read pos t))
  | readBytes (pos : Nat) (b : List UInt8) (off len : Nat) (t : PageTable) :
    TableStep fits t (final (PagedFile.readBytes pos b off len t))
  | write (pos : Nat) (b : UInt8) (h : fits (pos + 1)) (t : PageTable) :
    TableStep fits t (final (PagedFile.write pos b t))
  | writeBytes (pos : Nat) (b : List UInt8) (off len : Nat) (h : fits (pos + len)) (t : PageTable) :
    TableStep fits t (final (PagedFile.writeBytes pos b off len t))
  | sync (t : PageTable) : TableStep fits t (PagedFile.sync t).1
  | delete (t : PageTable) : TableStep fits t (deleted t)

def TableSteps (fits : Nat → Prop) : PageTable → PageTable → Prop :=
  Relation.ReflTransGen (TableStep fits)

instance (fits : Nat → Prop) : Std.Refl (TableSteps fits) := ⟨fun _ => .refl⟩

instance (fits : Nat → Prop) : IsTrans PageTable (TableSteps fits) := ⟨fun _ _ _ => .trans⟩

/-- The call is an edit of the file. -/
def Call.Edits (name : String) : Call → Prop
  | .setLength f _ => f.name = name
  | .writeByte f _ => f.name = name
  | .writeArray f _ => f.name = name
  | .removeElement name' => name' = name
  | _ => False

/-- What a call that may edit the file does to its pages. -/
structure PagesMove (fits : Nat → Prop) (edits : Prop) (t t' : PageTable) : Prop where
  steps : TableSteps fits t t'
  dirty : KeepsDirty t t' ∨ edits ∧ Trims t t'

instance {fits : Nat → Prop} {edits : Prop} : Std.Refl (PagesMove fits edits) :=
  ⟨fun t => ⟨.refl, .inl (refl_of KeepsDirty t)⟩⟩

/-- A call on the file that registers nothing. -/
structure FileMove (fits : Nat → Prop) (edits : Prop) (info info' : FileInfo) : Prop where
  pages : PagesMove fits edits info.pages info'.pages
  syncOut : info'.syncOut = info.syncOut
  listenForSync : info'.listenForSync = info.listenForSync

theorem FileMove.refl (fits : Nat → Prop) (edits : Prop) (info : FileInfo) :
    FileMove fits edits info info := ⟨refl_of _ _, rfl, rfl⟩

section Methods

variable {fits : Nat → Prop} {edits : Prop} {info info' : FileInfo}

theorem fileMove_of_onPages (h : OnPages (PagesMove fits edits) info info') :
    FileMove fits edits info info' := ⟨h.pages, h.syncOut, h.listenForSync⟩

/-- A method that edits the pages. -/
theorem pagesMove_edit {α : Type} {act : TableM α} (hedits : edits)
    (hstep : ∀ t, TableStep fits t (final (act t))) (htrims : Moves Trims act) :
    Moves (PagesMove fits edits) act := fun t => ⟨.single (hstep t), .inr ⟨hedits, htrims t⟩⟩

theorem pagesMove_read {α : Type} {act : TableM α} (hstep : ∀ t, TableStep fits t (final (act t)))
    (hkeeps : Moves KeepsDirty act) : Moves (PagesMove fits edits) act :=
  fun t => ⟨.single (hstep t), .inl (hkeeps t)⟩

theorem pages_deleted (t : PageTable) : (deleted t).pages = [] := by
  have hdrop : t.pages.drop (t.pages.length - 1 + 1 : Int).toNat = [] :=
    List.drop_eq_nil_of_le (by omega)
  show [] ++ t.pages.drop (t.pages.length - 1 + 1 : Int).toNat = []
  rw [hdrop, List.append_nil]

theorem tracked_deleted (t : PageTable) : (deleted t).Tracked := by
  refine ⟨?_, ?_⟩
  · intro n hn
    rw [pages_deleted] at hn
    cases hn
  · rw [pages_deleted]
    exact Int.le_refl 0

theorem valid_deleted (t : PageTable) : (deleted t).Valid where
  length := .inl ⟨pages_deleted t, rfl⟩
  small := by
    show 0 < maxSize
    decide
  clean n c hn := by
    rw [pages_deleted] at hn
    cases hn
  loaded := (tracked_deleted t).loaded
  dirty := (tracked_deleted t).dirty

theorem trims_deleted (t : PageTable) : Trims t (deleted t) := by
  intro _
  refine ⟨tracked_deleted t, ?_⟩
  intro n c hn
  rw [pages_deleted]
  exact .inr (Nat.zero_le n)

end Methods

/-- However the action ends, it has moved one file. -/
def MovesFile {α : Type} (fits : Nat → Prop) (edits : Prop) (name : String) (act : WorldM α) :
    Prop :=
  ∀ w, ∃ info, final (act w) = w.setFile name info ∧ FileMove fits edits (w.files name) info

section Calls

variable {fits : Nat → Prop} {edits : Prop} {name : String} {α β : Type}

theorem final_onFile (name : String) (act : InfoM α) (w : World) :
    final (onFile name act w) = w.setFile name (final (act (w.files name))) := by
  unfold onFile
  cases act (w.files name) with
  | ok a info => rfl
  | error e info => rfl

theorem movesFile_self {act : WorldM α} (h : ∀ w, final (act w) = w) :
    MovesFile fits edits name act := by
  intro w
  refine ⟨w.files name, ?_, FileMove.refl _ _ _⟩
  rw [h, setFile_self]

theorem movesFile_onFile {act : InfoM α} (h : Moves (OnPages (PagesMove fits edits)) act) :
    MovesFile fits edits name (onFile name act) :=
  fun w => ⟨_, final_onFile name act w, fileMove_of_onPages (h (w.files name))⟩

theorem MovesFile.map {act : WorldM α} (h : MovesFile fits edits name act) (g : α → β) :
    MovesFile fits edits name (act >>= fun a => pure (g a)) := by
  intro w
  rw [final_map]
  exact h w

/-- A method that needs write access. -/
theorem MovesFile.unless {act : WorldM α} (h : MovesFile fits edits name act) {c : Prop}
    [Decidable c] (e : Exn) : MovesFile fits edits name (if c then throw e else act) := by
  split
  · exact movesFile_self (fun _ => rfl)
  · exact h

theorem movesFile_setLength (hedits : edits) (f : RAFile) {newLength : Int}
    (hfits : fits newLength.toNat) : MovesFile fits edits f.name (setLength f newLength) :=
  movesFile_onFile (moves_setSize (pagesMove_edit hedits (.resize _ hfits) (trims_resize _)))

theorem movesFile_writeByte (hedits : edits) (f : RAFile) (b : Int) (hfits : fits (f.pos + 1)) :
    MovesFile fits edits f.name (writeByte f b) := by
  have hwrite : MovesFile fits edits f.name (onFile f.name (writeOne f.pos b)) :=
    movesFile_onFile (moves_writeOne (pagesMove_edit hedits (.write _ _ hfits) (trims_write _ _)))
  exact (hwrite.map _).unless _

theorem movesFile_writeArray (hedits : edits) (f : RAFile) (b : List UInt8)
    (hfits : fits (f.pos + b.length)) : MovesFile fits edits f.name (writeArray f b) := by
  have hwrite : MovesFile fits edits f.name (onFile f.name (writeMany f.pos b 0 b.length)) :=
    movesFile_onFile (moves_writeMany
      (pagesMove_edit hedits (.writeBytes _ _ _ _ hfits) (trims_writeBytes _ _ _ _)))
  exact (hwrite.map _).unless _

theorem movesFile_readByte (f : RAFile) : MovesFile fits edits f.name (readByte f) := by
  have hread : MovesFile fits edits f.name (onFile f.name (readOne f.pos)) :=
    movesFile_onFile (moves_readOne (pagesMove_read (.read _) (keepsDirty_read _)))
  exact hread.map _

theorem movesFile_readArray (f : RAFile) (b : List UInt8) :
    MovesFile fits edits f.name (readArray f b) := by
  have hread : MovesFile fits edits f.name (onFile f.name (readMany f.pos b 0 b.length)) :=
    movesFile_onFile (moves_readMany
      (pagesMove_read (.readBytes _ _ _ _) (keepsDirty_readBytes _ _ _ _)))
  exact hread.map _

theorem openFile_name {name : String} {writeAccess : Bool} {w w' : World} {f : RAFile}
    (h : openFile name writeAccess w = .ok f w') : f.name = name := by
  unfold openFile at h
  dsimp only at h
  split at h
  · cases h
  · split at h
    · cases h
    · cases h
      rfl

theorem movesFile_openFile (name : String) (writeAccess : Bool) :
    MovesFile fits edits name (openFile name writeAccess) := by
  intro w
  unfold openFile
  dsimp only
  split
  · exact ⟨_, (setFile_self w name).symm, FileMove.refl _ _ _⟩
  · split
    · exact ⟨_, (setFile_self w name).symm, FileMove.refl _ _ _⟩
    · exact ⟨_, rfl, refl_of _ _, rfl, rfl⟩

theorem movesFile_removeElement (hedits : edits) (name : String) :
    MovesFile fits edits name (removeElement name) := by
  intro w
  have hremove : removeElement name w =
      (if (w.files name).fileExists then onFile name deleteInfo else pure () : WorldM Unit) w := rfl
  rw [hremove]
  split
  · rw [final_onFile]
    exact ⟨_, rfl, ⟨.single (.delete _), .inr ⟨hedits, trims_deleted _⟩⟩, rfl, rfl⟩
  · exact ⟨_, (setFile_self w name).symm, FileMove.refl _ _ _⟩

end Calls

/-- What a call can do: it moves one file, or syncs one as it is but for its use count, or it
registers a listener or takes a registration back. -/
inductive Outcome (fits : Nat → Prop) (w : World) (c : Call) : World → Prop where
  | moved {name : String} {info : FileInfo} (h : FileMove fits (c.Edits name) (w.files name) info) :
    Outcome fits w c (w.setFile name info)
  | synced (name : String) (useCount : Int) :
    Outcome fits w c (syncInfo name (w.setFile name { w.files name with useCount := useCount }))
  | listening {f : RAFile} {name : String} (h : c = .listenForSync f name)
    (hname : f.name = journalName name) (hdata : ¬IsJournal name) :
    Outcome fits w c (final (listenForSync f name w))
  | stopped {f : RAFile} {name : String} (h : c = .stopListenForSync f name) :
    Outcome fits w c (final (stopListenForSync f name w))

theorem outcome_of_movesFile {fits : Nat → Prop} {c : Call} {name : String} {α : Type}
    {act : WorldM α} (h : MovesFile fits (c.Edits name) name act) (w : World) :
    Outcome fits w c (final (act w)) := by
  obtain ⟨info, hfinal, hmove⟩ := h w
  rw [hfinal]
  exact .moved hmove

theorem outcome_self (fits : Nat → Prop) (w : World) (c : Call) : Outcome fits w c w := by
  have hself : Outcome fits w c (w.setFile "" (w.files "")) := .moved (FileMove.refl _ _ _)
  rwa [setFile_self] at hself

theorem Call.outcome {fits : Nat → Prop} {c : Call} (hc : c.Meets fits) (w : World) :
    Outcome fits w c (c.run w) := by
  cases c with
  | openFile name writeAccess => exact outcome_of_movesFile (movesFile_openFile name writeAccess) w
  | closeFile f =>
    show Outcome fits w _ (final (RandomAccess.closeFile f w))
    unfold RandomAccess.closeFile
    dsimp only
    split
    · exact outcome_self fits w _
    · split
      · exact .synced f.name _
      · exact .moved ⟨refl_of _ _, rfl, rfl⟩
  | setLength f newLength => exact outcome_of_movesFile (movesFile_setLength rfl f hc) w
  | syncFile f =>
    show Outcome fits w _ (final (RandomAccess.syncFile f w))
    unfold RandomAccess.syncFile
    dsimp only
    split
    · exact outcome_self fits w _
    · split
      · exact outcome_self fits w _
      · split
        · have hsync : Outcome fits w (.syncFile f) (syncInfo f.name (w.setFile f.name
              { w.files f.name with useCount := (w.files f.name).useCount })) := .synced f.name _
          rwa [setFile_self] at hsync
        · exact outcome_self fits w _
  | writeByte f b => exact outcome_of_movesFile (movesFile_writeByte rfl f b hc) w
  | writeArray f b => exact outcome_of_movesFile (movesFile_writeArray rfl f b hc) w
  | readByte f => exact outcome_of_movesFile (movesFile_readByte f) w
  | readArray f b => exact outcome_of_movesFile (movesFile_readArray f b) w
  | listenForSync f name => exact .listening rfl hc.1 hc.2
  | stopListenForSync f name => exact .stopped rfl
  | removeElement name => exact outcome_of_movesFile (movesFile_removeElement rfl name) w

end Rhodes.FileCalls
