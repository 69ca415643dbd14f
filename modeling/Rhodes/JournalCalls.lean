import Mathlib
import Rhodes.FileCalls

/-!
The methods of the journal, however they end, are runs of calls on the files in which only the
journal listens for its data file. So what holds of every such call holds of every record that
a method writes.
-/
namespace Rhodes.JournalCalls

open Arrays PagedFile FileImpl RandomAccess JournalFile Outcomes FileCalls

/-- Sizes of every magnitude. -/
def anySize : Nat → Prop := fun _ => True

instance (fits : Nat → Prop) : Std.Refl (Calls fits) := ⟨fun _ => .refl⟩

instance (fits : Nat → Prop) : IsTrans World (Calls fits) := ⟨fun _ _ _ => .trans⟩

section Relations

variable {R : World → World → Prop} [Std.Refl R] [IsTrans World R]

theorem moves_writeLong (hbyte : ∀ f b, Moves R (writeByte f b)) (f : RAFile) (v : Nat) :
    Moves R (writeLong f v) := by
  unfold writeLong
  generalize longBytes v = bytes
  induction bytes generalizing f with
  | nil => exact Moves.pure f
  | cons b bytes ih =>
    rw [List.foldlM_cons]
    exact (hbyte f _).bind (fun f => ih f)

theorem moves_writeRecord (hbyte : ∀ f b, Moves R (writeByte f b))
    (harray : ∀ f b, Moves R (writeArray f b)) (hsync : ∀ f, Moves R (syncFile f)) (f : RAFile)
    (nPos nReaded : Nat) (buf : List UInt8) : Moves R (writeRecord f nPos nReaded buf) := by
  refine (moves_writeLong hbyte f nPos).bind ?_
  intro f
  refine (moves_writeLong hbyte f nReaded).bind ?_
  intro f
  refine (harray f buf).bind ?_
  intro f
  refine (hbyte f _).bind ?_
  intro f
  exact (hsync f).bind (fun _ => Moves.pure f)

end Relations

section Files

theorem calls_openFile (name : String) (writeAccess : Bool) :
    Moves (Calls anySize) (openFile name writeAccess) :=
  fun _ => .single ⟨.openFile name writeAccess, trivial, rfl⟩

theorem calls_closeFile (f : RAFile) : Moves (Calls anySize) (closeFile f) :=
  fun _ => .single ⟨.closeFile f, trivial, rfl⟩

theorem calls_setLength (f : RAFile) (newLength : Int) :
    Moves (Calls anySize) (setLength f newLength) :=
  fun _ => .single ⟨.setLength f newLength, trivial, rfl⟩

theorem calls_syncFile (f : RAFile) : Moves (Calls anySize) (syncFile f) :=
  fun _ => .single ⟨.syncFile f, trivial, rfl⟩

theorem calls_writeByte (f : RAFile) (b : Int) : Moves (Calls anySize) (writeByte f b) :=
  fun _ => .single ⟨.writeByte f b, trivial, rfl⟩

theorem calls_writeArray (f : RAFile) (b : List UInt8) : Moves (Calls anySize) (writeArray f b) :=
  fun _ => .single ⟨.writeArray f b, trivial, rfl⟩

theorem calls_readByte (f : RAFile) : Moves (Calls anySize) (readByte f) :=
  fun _ => .single ⟨.readByte f, trivial, rfl⟩

theorem calls_readArray (f : RAFile) (b : List UInt8) : Moves (Calls anySize) (readArray f b) :=
  fun _ => .single ⟨.readArray f b, trivial, rfl⟩

theorem calls_listenForSync {f : RAFile} {name : String} (hname : f.name = journalName name)
    (hdata : ¬IsJournal name) : Moves (Calls anySize) (listenForSync f name) :=
  fun _ => .single ⟨.listenForSync f name, ⟨hname, hdata⟩, rfl⟩

theorem calls_stopListenForSync (f : RAFile) (name : String) :
    Moves (Calls anySize) (stopListenForSync f name) :=
  fun _ => .single ⟨.stopListenForSync f name, trivial, rfl⟩

theorem calls_removeElement (name : String) : Moves (Calls anySize) (removeElement name) :=
  fun _ => .single ⟨.removeElement name, trivial, rfl⟩

theorem calls_length (f : RAFile) : Moves (Calls anySize) (length f) :=
  Moves.of_final_eq (fun _ => rfl)

theorem calls_writeLong (f : RAFile) (v : Nat) : Moves (Calls anySize) (writeLong f v) :=
  moves_writeLong calls_writeByte f v

theorem calls_readInt (f : RAFile) : Moves (Calls anySize) (readInt f) := by
  refine (calls_readByte f).bind ?_
  rintro ⟨ch1, f⟩
  refine (calls_readByte f).bind ?_
  rintro ⟨ch2, f⟩
  refine (calls_readByte f).bind ?_
  rintro ⟨ch3, f⟩
  refine (calls_readByte f).bind ?_
  rintro ⟨ch4, f⟩
  exact Moves.ite (fun _ => Moves.throw _) (fun _ => Moves.pure _)

theorem calls_readLong (f : RAFile) : Moves (Calls anySize) (readLong f) := by
  refine (calls_readInt f).bind ?_
  rintro ⟨high, f⟩
  refine (calls_readInt f).bind ?_
  rintro ⟨low, f⟩
  exact Moves.pure _

end Files

section Records

theorem calls_openJournal {data : String} (hdata : ¬IsJournal data) (dataFile : RAFile) :
    Moves (Calls anySize) (openJournal (journalName data) data dataFile) := by
  refine (calls_openFile _ _).bind_ok ?_
  rintro f ⟨w, w', hopen⟩
  have hname : f.name = journalName data := openFile_name hopen
  refine (calls_listenForSync hname hdata).bind ?_
  intro _
  refine (calls_length dataFile).bind ?_
  intro size
  refine (calls_writeLong f size).bind ?_
  intro f
  refine (calls_writeByte f _).bind ?_
  intro f
  exact (calls_syncFile f).bind (fun _ => Moves.pure f)

theorem calls_writeRecord (f : RAFile) (nPos nReaded : Nat) (buf : List UInt8) :
    Moves (Calls anySize) (writeRecord f nPos nReaded buf) :=
  moves_writeRecord calls_writeByte calls_writeArray calls_syncFile f nPos nReaded buf

theorem calls_readRecord (jf : RAFile) : Moves (Calls anySize) (readRecord jf) := by
  refine (calls_readLong jf).bind ?_
  rintro ⟨nPos, jf⟩
  refine (calls_readLong jf).bind ?_
  rintro ⟨nLen, jf⟩
  refine Moves.ite (fun _ => (Moves.throw _).bind (fun _ => ?_)) (fun _ => ?_)
  all_goals
    refine (calls_readArray jf _).bind ?_
    rintro ⟨nReaded, buf, jf⟩
    refine (calls_readByte jf).bind ?_
    rintro ⟨byteConfirm, jf⟩
    exact Moves.ite (fun _ => Moves.pure _) (fun _ => Moves.pure _)

end Records

/-- The files that rollback works on have taken calls. -/
def RollbackCalls (s s' : Rollback) : Prop := Calls anySize s.world s'.world

instance : Std.Refl RollbackCalls := ⟨fun s => refl_of (Calls anySize) s.world⟩

instance : IsTrans Rollback RollbackCalls := ⟨fun _ _ _ => trans_of (Calls anySize)⟩

section Recovery

theorem final_untilEof {α : Type} (act : WorldM (Option α)) (w : World) :
    final (untilEof act w) = final (act w) := by
  unfold untilEof
  cases act w with
  | ok a w' => rfl
  | error e w' => cases e <;> rfl

theorem calls_replay (fuel : Nat) (jf df : RAFile) : Moves (Calls anySize) (replay fuel jf df) := by
  induction fuel generalizing jf df with
  | zero => exact Moves.throw _
  | succ fuel ih =>
    have hrecord : Moves (Calls anySize) (untilEof (readRecord jf)) := by
      intro w
      rw [final_untilEof]
      exact calls_readRecord jf w
    refine hrecord.bind ?_
    intro r
    cases r with
    | none => exact Moves.pure _
    | some r =>
      obtain ⟨nPos, buf, jf⟩ := r
      exact (calls_writeArray _ buf).bind (fun df => ih jf df)

theorem final_onRollback {α : Type} (act : WorldM α) (s : Rollback) :
    (final (onRollback act s)).world = final (act s.world) := by
  unfold onRollback
  cases act s.world with
  | ok a w => rfl
  | error e w => rfl

theorem calls_onRollback {α : Type} {act : WorldM α} (h : Moves (Calls anySize) act) :
    Moves RollbackCalls (onRollback act) := by
  intro s
  show Calls anySize s.world (final (onRollback act s)).world
  rw [final_onRollback]
  exact h s.world

theorem calls_rollbackFiles (journalName dataName : String) :
    Moves RollbackCalls (rollbackFiles journalName dataName) := by
  have hkeep : ∀ f : Rollback → Rollback, (∀ s, (f s).world = s.world) →
      Moves RollbackCalls (modify f : EStateM Exn Rollback PUnit) := by
    intro f hf s
    show Calls anySize s.world (f s).world
    rw [hf]
    exact .refl
  refine (calls_onRollback (calls_openFile _ _)).bind ?_
  intro jf
  refine Moves.bind (hkeep _ ?_) ?_
  · intro s
    rfl
  intro _
  refine (calls_onRollback (calls_readLong jf)).bind ?_
  rintro ⟨nDataSize, jf⟩
  refine (calls_onRollback (calls_readByte jf)).bind ?_
  rintro ⟨byteConfirm, jf⟩
  refine Moves.ite (fun _ => ?_) (fun _ => Moves.pure _)
  refine (calls_onRollback (calls_openFile _ _)).bind ?_
  intro df
  refine Moves.bind (hkeep _ ?_) ?_
  · intro s
    rfl
  intro _
  refine (calls_onRollback (calls_setLength df _)).bind ?_
  intro _
  refine Moves.get.bind ?_
  intro s
  exact calls_onRollback (calls_replay _ jf df)

theorem calls_endRollback (journalName : String) (bSuccess : Bool) (s : Rollback) :
    Moves (Calls anySize) (endRollback journalName bSuccess s) := by
  have hclose : ∀ f, Moves (Calls anySize) (closeOpened f) := by
    intro f
    cases f with
    | none => exact Moves.pure _
    | some f => exact calls_closeFile f
  refine (hclose s.df).bind ?_
  intro _
  refine (hclose s.jf).bind ?_
  intro _
  exact Moves.ite (fun _ => calls_removeElement _) (fun _ => Moves.pure _)

theorem calls_tryRollback (journalName dataName : String) :
    Moves (Calls anySize) (tryRollback journalName dataName) := by
  intro w
  have hfiles := calls_rollbackFiles journalName dataName ⟨w, none, none⟩
  unfold tryRollback
  cases hres : rollbackFiles journalName dataName ⟨w, none, none⟩ with
  | ok a s =>
    rw [hres] at hfiles
    exact trans_of (Calls anySize) hfiles (calls_endRollback journalName true s s.world)
  | error e s =>
    rw [hres] at hfiles
    have hend := calls_endRollback journalName false s s.world
    dsimp only
    cases hclose : endRollback journalName false s s.world with
    | ok a w' =>
      rw [hclose] at hend
      dsimp only
      split
      · exact trans_of (Calls anySize) hfiles hend
      · exact trans_of (Calls anySize) hfiles hend
    | error e' w' =>
      rw [hclose] at hend
      exact trans_of (Calls anySize) hfiles hend

theorem calls_rollback (journalName dataName : String) :
    Moves (Calls anySize) (rollback journalName dataName) := by
  refine (Moves.of_final_eq (fun _ => rfl)).bind ?_
  intro exists'
  exact Moves.ite (fun _ => calls_tryRollback _ _) (fun _ => Moves.pure _)

end Recovery

/-- The names that create gives. -/
structure Named (j : Journal) : Prop where
  journal : j.journalName = journalName j.dataName
  data : ¬IsJournal j.dataName

/-- A journal that has its names keeps them, and the files have taken calls. -/
def SessionCalls (s s' : Session) : Prop :=
  Named s.journal → Named s'.journal ∧ Calls anySize s.world s'.world

instance : Std.Refl SessionCalls := ⟨fun _ hs => ⟨hs, .refl⟩⟩

instance : IsTrans Session SessionCalls :=
  ⟨fun _ _ _ h h' hs => ⟨(h' (h hs).1).1, (h hs).2.trans (h' (h hs).1).2⟩⟩

section Methods

variable {j : Journal}

theorem final_onWorld {α : Type} (act : WorldM α) (s : Session) :
    final (onWorld act s) = { s with world := final (act s.world) } := by
  unfold onWorld
  cases act s.world with
  | ok a w => rfl
  | error e w => rfl

theorem calls_onWorld {α : Type} {act : WorldM α} (h : Moves (Calls anySize) act) :
    Moves SessionCalls (onWorld act) := by
  intro s hs
  rw [final_onWorld]
  exact ⟨hs, h s.world⟩

/-- The journal takes a file, or a note of its own. -/
theorem calls_modify {f : Session → Session} (hworld : ∀ s, (f s).world = s.world)
    (hnames : ∀ s, (f s).journal.journalName = s.journal.journalName ∧
      (f s).journal.dataName = s.journal.dataName) :
    Moves SessionCalls (modify f : JournalM PUnit) := by
  intro s hs
  refine ⟨⟨?_, ?_⟩, ?_⟩
  · show (f s).journal.journalName = journalName (f s).journal.dataName
    rw [(hnames s).1, (hnames s).2]
    exact hs.journal
  · show ¬IsJournal (f s).journal.dataName
    rw [(hnames s).2]
    exact hs.data
  · show Calls anySize s.world (f s).world
    rw [hworld]
    exact .refl

theorem calls_start : Moves SessionCalls start := by
  refine Moves.get.bind ?_
  intro s
  refine (calls_onWorld (Moves.of_final_eq (fun _ => rfl))).bind ?_
  intro exists'
  refine Moves.ite (fun _ => (Moves.throw _).bind (fun _ => ?_)) (fun _ => ?_)
  all_goals exact calls_modify (fun _ => rfl) (fun _ => ⟨rfl, rfl⟩)

theorem calls_initJournal : Moves SessionCalls initJournal := by
  intro s hs
  -- The names that are read first are those of the state they are read in.
  unfold initJournal
  rw [bind_get]
  have hdata : Moves SessionCalls (openedData s.journal) := by
    unfold openedData
    split
    · exact Moves.pure _
    · exact calls_onWorld (calls_openFile _ _)
  have hjournal : ∀ dataFile, Moves SessionCalls (openedJournal s.journal dataFile) := by
    intro dataFile
    unfold openedJournal
    split
    · exact Moves.pure _
    · rw [hs.journal]
      exact calls_onWorld (calls_openJournal hs.data dataFile)
  refine (?_ : Moves SessionCalls _) s hs
  refine Moves.ite (fun _ => (Moves.throw _).bind (fun _ => ?_)) (fun _ => ?_)
  all_goals
    refine hdata.bind ?_
    intro dataFile
    refine Moves.bind (calls_modify ?_ ?_) ?_
    · intro s
      rfl
    · intro s
      exact ⟨rfl, rfl⟩
    intro _
    refine (hjournal dataFile).bind ?_
    intro journalFile
    refine Moves.bind (calls_modify ?_ ?_) (fun _ => Moves.pure _)
    · intro s
      rfl
    · intro s
      exact ⟨rfl, rfl⟩

theorem calls_saveRegion (dataFile journalFile : RAFile) (nPos : Nat) (buf : List UInt8) :
    Moves SessionCalls (saveRegion dataFile journalFile nPos buf) := by
  refine (calls_onWorld (calls_readArray _ buf)).bind ?_
  rintro ⟨nReaded, buf, f⟩
  refine Moves.ite (fun _ => Moves.pure _) ?_
  intro _
  refine (calls_onWorld (calls_writeRecord journalFile nPos _ buf)).bind ?_
  intro journalFile
  exact calls_modify (fun _ => rfl) (fun _ => ⟨rfl, rfl⟩)

theorem calls_write (nPos nLen : Nat) : Moves SessionCalls (JournalFile.write nPos nLen) := by
  refine calls_initJournal.bind ?_
  rintro ⟨dataFile, journalFile⟩
  refine Moves.ite (fun _ => (Moves.throw _).bind (fun _ => ?_)) (fun _ => ?_)
  all_goals exact calls_saveRegion _ _ _ _

theorem calls_close : Moves SessionCalls close := by
  have hdata : ∀ f, Moves SessionCalls (do
      onWorld (closeFile f)
      modify (fun s => { s with journal := { s.journal with dataFile := none } }) :
        JournalM Unit) := by
    intro f
    refine (calls_onWorld (calls_closeFile f)).bind ?_
    intro _
    exact calls_modify (fun _ => rfl) (fun _ => ⟨rfl, rfl⟩)
  refine Moves.get.bind ?_
  intro s
  dsimp only
  split
  · refine (calls_onWorld (calls_stopListenForSync _ _)).bind ?_
    intro _
    refine (calls_onWorld (calls_closeFile _)).bind ?_
    intro _
    refine Moves.bind (calls_modify ?_ ?_) ?_
    · intro s
      rfl
    · intro s
      exact ⟨rfl, rfl⟩
    · intro _
      split
      · exact hdata _
      · exact Moves.pure _
  · split
    · exact hdata _
    · exact Moves.pure _

theorem calls_stop : Moves SessionCalls stop := by
  refine calls_close.bind ?_
  intro _
  refine Moves.get.bind ?_
  intro s
  refine (calls_onWorld (calls_removeElement _)).bind ?_
  intro _
  exact calls_modify (fun _ => rfl) (fun _ => ⟨rfl, rfl⟩)

end Methods

/-- The methods of the journal. -/
inductive Method where
  | create (name : String)
  | start
  | write (nPos nLen : Nat)
  | close
  | stop

def Method.run (s : Session) : Method → Session
  | .create name => final (JournalFile.create name s)
  | .start => final (JournalFile.start s)
  | .write nPos nLen => final (JournalFile.write nPos nLen s)
  | .close => final (JournalFile.close s)
  | .stop => final (JournalFile.stop s)

/-- The journal is created for a data file before its other methods are called. -/
def Method.Meets (s : Session) : Method → Prop
  | .create name => ¬IsJournal name
  | _ => Named s.journal

theorem calls_method {m : Method} {s : Session} (hm : m.Meets s) :
    Named (m.run s).journal ∧ Calls anySize s.world (m.run s).world := by
  cases m with
  | create name =>
    obtain ⟨s', hs'⟩ : ∃ s' : Session, s' = { s with journal :=
        { s.journal with journalName := journalName name, dataName := name } } := ⟨_, rfl⟩
    have hrun : Method.run s (.create name) =
        final (onWorld (rollback (journalName name) name) s') := by
      rw [hs']
      rfl
    have hworld : s'.world = s.world := by rw [hs']
    rw [hrun, final_onWorld, ← hworld]
    refine ⟨?_, calls_rollback _ _ s'.world⟩
    rw [hs']
    exact ⟨rfl, hm⟩
  | start => exact calls_start s hm
  | write nPos nLen => exact calls_write nPos nLen s hm
  | close => exact calls_close s hm
  | stop => exact calls_stop s hm

end Rhodes.JournalCalls
