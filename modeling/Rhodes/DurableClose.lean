import Mathlib.Logic.Relation
import Rhodes.FileOutcomes
import Rhodes.FileRefinement

/-!
The records of a file when its last handle is closed. close syncs the file where the handle that
is closed last was opened for writing; what another handle has written before stays in memory
where it was not. In a run with a note of whether the file was changed since its records were
brought up to it, the records are the whole file at every last close, unless a handle that only
reads is closed last after a change.
-/
namespace Rhodes.DurableClose

open Arrays PagedFile FileImpl FileRefinement Outcomes

/-- The instances of PersistRAFileImpl on one name; those with a FileInfo are opened. -/
structure Process extends Files where
  opened : Nat → Bool

inductive Step where
  | openFile (h : Nat) (rw : Bool)
  | call (op : Op)
  | close (h : Nat)

/-- The handle that a call is made on. -/
def handleOf : Op → Option Nat
  | .seek h _ => some h
  | .setSize h _ => some h
  | .write h _ => some h
  | .writeBytes h _ _ _ => some h
  | .read h => some h
  | .readBytes h _ _ _ => some h
  | .sync h => some h
  | .unloadClearPages _ => none

/-- open(name, mode); the mode is set before it is known whether there is a file. -/
def openFile (p : Process) (h : Nat) (rw : Bool) : Process :=
  if p.info.useCount < 0 ∨ p.info.fileExists = false ∧ rw = false then
    { p with handles := Function.update p.handles h { p.handles h with writable := rw } }
  else
    { info := { p.info with fileExists := true, useCount := p.info.useCount + 1 }
      handles := Function.update p.handles h ⟨rw, 0⟩
      opened := Function.update p.opened h true }

/-- close() of a file without listeners. -/
def close (p : Process) (h : Nat) : Process :=
  if p.opened h = false ∨ p.info.useCount ≤ 0 then p
  else
    { info := { p.info with
        useCount := p.info.useCount - 1
        pages := if p.info.useCount - 1 = 0 ∧ (p.handles h).writable = true ∧
            p.info.fileExists = true then (PagedFile.sync p.info.pages).1 else p.info.pages }
      handles := Function.update p.handles h { p.handles h with seekPos := 0 }
      opened := Function.update p.opened h false }

/-- A call on a handle without a FileInfo throws. -/
def call (p : Process) (op : Op) : Process :=
  if (handleOf op).any p.opened then { p with toFiles := (exec p.toFiles op).2 } else p

def step (p : Process) : Step → Process
  | .openFile h rw => openFile p h rw
  | .call op => call p op
  | .close h => close p h

/-- The instances before any of them is opened. -/
def started (stored : Stored) : Process where
  info := FileInfo.ofStored stored
  handles := fun _ => ⟨false, 0⟩
  opened := fun _ => false

/-- The call passes its checks and changes the file. -/
def Edits (s : Files) : Op → Prop
  | .setSize _ newSize => 0 ≤ newSize ∧ newSize.toNat ≠ s.info.pages.size
  | .write _ _ => True
  | .writeBytes _ b off len => ¬(off < 0 ∨ len < 0 ∨ toInt (off + len) > b.length) ∧ len ≠ 0
  | _ => False

instance (s : Files) : DecidablePred (Edits s)
  | .seek _ _ => .isFalse id
  | .setSize _ _ => inferInstanceAs (Decidable (_ ∧ _))
  | .write _ _ => .isTrue trivial
  | .writeBytes _ _ _ _ => inferInstanceAs (Decidable (_ ∧ _))
  | .read _ => .isFalse id
  | .readBytes _ _ _ _ => .isFalse id
  | .sync _ => .isFalse id
  | .unloadClearPages _ => .isFalse id

/-- The step changes the file, or makes it. -/
def Changes (p : Process) : Step → Prop
  | .openFile _ rw => p.info.fileExists = false ∧ rw = true
  | .call op => (handleOf op).any p.opened ∧ Edits p.toFiles op
  | .close _ => False

instance (p : Process) : DecidablePred (Changes p)
  | .openFile _ _ => inferInstanceAs (Decidable (_ ∧ _))
  | .call _ => inferInstanceAs (Decidable (_ ∧ _))
  | .close _ => .isFalse id

/-- The step brings the records up to the file. -/
def Syncs (p : Process) : Step → Prop
  | .call (.sync h) => p.opened h = true ∧ (p.handles h).writable = true ∧ 0 < p.info.useCount
  | .close h => p.opened h = true ∧ (p.handles h).writable = true ∧ p.info.useCount = 1
  | _ => False

instance (p : Process) : DecidablePred (Syncs p)
  | .call (.sync _) => inferInstanceAs (Decidable (_ ∧ _))
  | .call (.seek _ _) => .isFalse id
  | .call (.setSize _ _) => .isFalse id
  | .call (.write _ _) => .isFalse id
  | .call (.writeBytes _ _ _ _) => .isFalse id
  | .call (.read _) => .isFalse id
  | .call (.readBytes _ _ _ _) => .isFalse id
  | .call (.unloadClearPages _) => .isFalse id
  | .openFile _ _ => .isFalse id
  | .close _ => inferInstanceAs (Decidable (_ ∧ _))

/-- Whether the file was changed since its records were brought up to it. -/
def changedAfter (p : Process) (changed : Bool) (a : Step) : Bool :=
  if Syncs p a then false else if Changes p a then true else changed

/-- The sizes that a call makes are such that their page numbers are ints. -/
def SizeMeets (s : Files) : Op → Prop
  | .setSize _ newSize => newSize < maxSize
  | .write h _ => (s.handles h).seekPos + 1 < maxSize
  | .writeBytes h _ _ len => (s.handles h).seekPos + len.toNat < maxSize
  | _ => True

/-- The condition on a step: the sizes fit, and a handle that only reads is closed last only
when the file was not changed. -/
def Meets (p : Process) (changed : Bool) : Step → Prop
  | .openFile _ _ => True
  | .call op => SizeMeets p.toFiles op
  | .close h => p.opened h = true → p.info.useCount = 1 → (p.handles h).writable = false →
      changed = false

/-- A run with the note. -/
def Runs : Process × Bool → Process × Bool → Prop :=
  Relation.ReflTransGen (fun x y => ∃ a, Meets x.1 x.2 a ∧
    y = (step x.1 a, changedAfter x.1 x.2 a))

/-- The records are the file, so that a FileInfo that is made from them reads it back. -/
structure Rebuilt (t : PageTable) : Prop where
  stored : t.stored.size = some t.size
  fileExists : (FileInfo.ofStored t.stored).fileExists = true
  size : (FileInfo.ofStored t.stored).pages.size = t.size
  byte : ∀ i, i < t.size → (FileInfo.ofStored t.stored).pages.byte i = t.byte i

/-- The records are the file. -/
structure Current (t : PageTable) : Prop where
  size : t.stored.size = some t.size
  bytes : ∀ n, t.stored.bytes n = t.bytes n

structure Inv (p : Process) (changed : Bool) : Prop where
  valid : p.info.pages.Valid
  syncOut : p.info.syncOut = 0
  fileExists : 0 < p.info.useCount → p.info.fileExists = true
  current : changed = false → p.info.fileExists = true → Current p.info.pages

section Tables

variable {t t' : PageTable}

theorem Current.rebuilt (h : Current t) : Rebuilt t := by
  refine ⟨h.size, ?_, ?_, ?_⟩
  · show t.stored.size.isSome = true
    rw [h.size, Option.isSome_some]
  · show t.stored.size.getD 0 = t.size
    rw [h.size, Option.getD_some]
  · intro i _
    show (PageTable.ofStored t.stored).byte i = t.byte i
    rw [byte_ofStored, h.bytes]
    rfl

theorem Current.unseen (h : Current t) (hunseen : Unseen t t') : Current t' where
  size := by rw [hunseen.stored, hunseen.size, h.size]
  bytes n := by rw [hunseen.stored, hunseen.bytes, h.bytes]

theorem current_sync (ht : t.Valid) : Current (PagedFile.sync t).1 where
  size := by rw [(sync_spec ht).size, (sync_spec ht).view.size]
  bytes n := by rw [(sync_spec ht).bytes, (sync_spec ht).view.bytes]

theorem current_ofStored {stored : Stored} (h : stored.size.isSome = true) :
    Current (PageTable.ofStored stored) where
  size := by
    obtain ⟨n, hn⟩ := Option.isSome_iff_exists.mp h
    show stored.size = some (stored.size.getD 0)
    rw [hn, Option.getD_some]
  bytes n := (bytes_ofStored stored n).symm

end Tables

section Calls

variable {s : Files}

theorem onInfo_info {α : Type} (h : Nat) (pos : α → Nat) (out : α → Out)
    (r : EStateM.Result Exn FileInfo α) : (onInfo s h pos out r).2.info = final r := by
  cases r with
  | ok a info => rfl
  | error e info => rfl

/-- A call other than sync, on sizes that fit. -/
theorem exec_keepsValid {op : Op} (hsize : SizeMeets s op) (hsync : ∀ h, op ≠ .sync h) :
    OnPages KeepsValid s.info (exec s op).2.info := by
  cases op with
  | seek h pos => exact refl_of _ _
  | setSize h newSize =>
    have hnat : newSize.toNat < maxSize := by
      have hlt : newSize < maxSize := hsize
      unfold maxSize pageSize at hlt ⊢
      omega
    simp only [exec, onInfo_info]
    exact moves_setSize (keepsValid_resize hnat) s.info
  | write h b =>
    simp only [exec, onInfo_info]
    exact moves_writeOne (keepsValid_write hsize _) s.info
  | writeBytes h b off len =>
    simp only [exec, onInfo_info]
    exact moves_writeMany (keepsValid_writeBytes hsize _ _) s.info
  | read h =>
    simp only [exec, onInfo_info]
    exact moves_readOne ((sees_read _).mono (fun _ _ h => h.keepsValid)) s.info
  | readBytes h b off len =>
    simp only [exec, onInfo_info]
    exact moves_readMany ((sees_readBytes _ _ _ _).mono (fun _ _ h => h.keepsValid)) s.info
  | sync h => exact absurd rfl (hsync h)
  | unloadClearPages needToClear =>
    exact ⟨fun ht => (unseen_unloadClearPages ht needToClear).valid, rfl, rfl, rfl, rfl⟩

theorem setSize_unedited {info : FileInfo} {newSize : Int}
    (h : ¬(0 ≤ newSize ∧ newSize.toNat ≠ info.pages.size)) :
      final (setSize newSize info) = info := by
  unfold setSize
  by_cases hneg : newSize < 0
  · rw [if_pos hneg]
    rfl
  · have hsize : info.pages.size = newSize.toNat := by
      by_contra hne
      exact h ⟨by omega, Ne.symm hne⟩
    rw [if_neg hneg]
    refine final_bind_eq (final_checkUseCount info) ?_
    intro _
    rw [bind_get, if_pos hsize]
    rfl

theorem writeMany_unedited {info : FileInfo} {pos : Nat} {b : List UInt8} {off len : Int}
    (h : ¬(¬(off < 0 ∨ len < 0 ∨ toInt (off + len) > b.length) ∧ len ≠ 0)) :
    final (writeMany pos b off len info) = info := by
  unfold writeMany checkBounds
  by_cases hbounds : off < 0 ∨ len < 0 ∨ toInt (off + len) > b.length
  · rw [if_pos hbounds]
    rfl
  · have hlen : len = 0 := by
      by_contra hne
      exact h ⟨hbounds, hne⟩
    rw [if_neg hbounds, if_pos hlen]
    rfl

/-- A call that does not edit the file is not seen. -/
theorem exec_sees {op : Op} (hedit : ¬Edits s op) (hsync : ∀ h, op ≠ .sync h) :
    OnPages Sees s.info (exec s op).2.info := by
  cases op with
  | seek h pos => exact refl_of _ _
  | setSize h newSize =>
    simp only [exec, onInfo_info]
    rw [setSize_unedited hedit]
    exact refl_of _ _
  | write h b => exact absurd trivial hedit
  | writeBytes h b off len =>
    simp only [exec, onInfo_info]
    rw [writeMany_unedited hedit]
    exact refl_of _ _
  | read h =>
    simp only [exec, onInfo_info]
    exact moves_readOne (sees_read _) s.info
  | readBytes h b off len =>
    simp only [exec, onInfo_info]
    exact moves_readMany (sees_readBytes _ _ _ _) s.info
  | sync h => exact absurd rfl (hsync h)
  | unloadClearPages needToClear =>
    exact ⟨fun ht => unseen_unloadClearPages ht needToClear, rfl, rfl, rfl, rfl⟩

end Calls

section Steps

variable {p : Process} {changed : Bool}

theorem Inv.openFile (hp : Inv p changed) (h : Nat) (rw : Bool) :
    Inv (openFile p h rw) (changedAfter p changed (.openFile h rw)) := by
  have hnote : changedAfter p changed (.openFile h rw) =
      if p.info.fileExists = false ∧ rw = true then true else changed := rfl
  unfold DurableClose.openFile
  rw [hnote]
  split
  · rename_i hfail
    refine ⟨hp.valid, hp.syncOut, hp.fileExists, ?_⟩
    intro hchanged
    split at hchanged
    · cases hchanged
    · exact hp.current hchanged
  · rename_i hok
    refine ⟨hp.valid, hp.syncOut, fun _ => rfl, ?_⟩
    intro hchanged _
    split at hchanged
    · cases hchanged
    · rename_i hmade
      refine hp.current hchanged ?_
      cases hexists : p.info.fileExists with
      | true => rfl
      | false =>
        cases hrw : rw with
        | true => exact absurd ⟨hexists, hrw⟩ hmade
        | false => exact absurd (Or.inr ⟨hexists, hrw⟩) hok

theorem Inv.sync (hp : Inv p changed) {h : Nat} (hopened : p.opened h = true) :
    Inv (call p (.sync h)) (changedAfter p changed (.call (.sync h))) := by
  have hnote : changedAfter p changed (.call (.sync h)) =
      if p.opened h = true ∧ (p.handles h).writable = true ∧ 0 < p.info.useCount then false
      else changed := by
    simp only [changedAfter, Syncs, Changes, Edits, and_false, if_false]
  have hcall : call p (.sync h) = { p with toFiles := (syncHandle p.toFiles h).2 } := by
    simp [call, handleOf, hopened, exec]
  rw [hnote, hcall]
  unfold syncHandle
  by_cases hwritable : (p.handles h).writable = true
  · by_cases huse : 0 < p.info.useCount
    · have hexists := hp.fileExists huse
      rw [if_neg (by simp [hwritable]), if_neg (by omega), if_pos ⟨hexists, hp.syncOut⟩,
        if_pos ⟨hopened, hwritable, huse⟩]
      exact ⟨(sync_spec hp.valid).valid, hp.syncOut, hp.fileExists, fun _ _ =>
        current_sync hp.valid⟩
    · rw [if_neg (by simp [hwritable]), if_pos (by omega), if_neg (fun hs => huse hs.2.2)]
      exact hp
  · rw [if_pos (by simpa using hwritable), if_neg (fun hs => hwritable hs.2.1)]
    exact hp

theorem Inv.call (hp : Inv p changed) {op : Op} (hsize : SizeMeets p.toFiles op) :
    Inv (call p op) (changedAfter p changed (.call op)) := by
  by_cases hopened : (handleOf op).any p.opened = true
  · by_cases hsync : ∃ h, op = .sync h
    · obtain ⟨h, rfl⟩ := hsync
      exact hp.sync (by simpa [handleOf] using hopened)
    · have hother : ∀ h, op ≠ .sync h := fun h heq => hsync ⟨h, heq⟩
      have hnote : changedAfter p changed (.call op) =
          if Edits p.toFiles op then true else changed := by
        have hsyncs : ¬Syncs p (.call op) := by
          cases op <;> simp_all [Syncs]
        simp only [changedAfter, hsyncs, if_false, Changes, hopened, true_and]
      have hcall : DurableClose.call p op = { p with toFiles := (exec p.toFiles op).2 } := by
        rw [DurableClose.call, if_pos hopened]
      have hkeeps := exec_keepsValid hsize hother
      rw [hnote, hcall]
      refine ⟨hkeeps.pages hp.valid, hkeeps.syncOut.trans hp.syncOut, ?_, ?_⟩
      · intro huse
        have hfiles : 0 < p.info.useCount := by
          rw [← hkeeps.useCount]
          exact huse
        exact hkeeps.fileExists.trans (hp.fileExists hfiles)
      · intro hchanged hexists
        split at hchanged
        · cases hchanged
        · rename_i hedit
          have hsees := exec_sees hedit hother
          refine (hp.current hchanged ?_).unseen (hsees.pages hp.valid)
          rw [← hsees.fileExists]
          exact hexists
  · have hnote : changedAfter p changed (.call op) = changed := by
      have hsyncs : ¬Syncs p (.call op) := by
        cases op <;> simp_all [Syncs, handleOf]
      simp only [changedAfter, hsyncs, if_false, Changes, hopened, Bool.false_eq_true, false_and]
    have hcall : DurableClose.call p op = p := by
      rw [DurableClose.call, if_neg hopened]
    rw [hnote, hcall]
    exact hp

theorem note_close (p : Process) (changed : Bool) (h : Nat) : changedAfter p changed (.close h) =
    if p.opened h = true ∧ (p.handles h).writable = true ∧ p.info.useCount = 1 then false
    else changed := by
  unfold changedAfter
  rw [if_neg (show ¬Changes p (.close h) from id)]
  rfl

theorem close_of_open {h : Nat} (hopened : p.opened h = true) (huse : 0 < p.info.useCount) :
    close p h =
      { info := { p.info with
          useCount := p.info.useCount - 1
          pages := if p.info.useCount - 1 = 0 ∧ (p.handles h).writable = true ∧
              p.info.fileExists = true then (PagedFile.sync p.info.pages).1 else p.info.pages }
        handles := Function.update p.handles h { p.handles h with seekPos := 0 }
        opened := Function.update p.opened h false } := by
  unfold close
  refine if_neg ?_
  intro hnot
  rcases hnot with hclosed | hzero
  · rw [hopened] at hclosed
    cases hclosed
  · omega

theorem Inv.close (hp : Inv p changed) (h : Nat) :
    Inv (close p h) (changedAfter p changed (.close h)) := by
  rw [note_close]
  by_cases hopen : p.opened h = true ∧ 0 < p.info.useCount
  · have hexists := hp.fileExists hopen.2
    rw [close_of_open hopen.1 hopen.2]
    by_cases hlast : (p.handles h).writable = true ∧ p.info.useCount = 1
    · have hsyncs : p.info.useCount - 1 = 0 ∧ (p.handles h).writable = true ∧
          p.info.fileExists = true := ⟨by omega, hlast.1, hexists⟩
      rw [if_pos hsyncs]
      exact ⟨(sync_spec hp.valid).valid, hp.syncOut, fun _ => hexists,
        fun _ _ => current_sync hp.valid⟩
    · have hnot : ¬(p.info.useCount - 1 = 0 ∧ (p.handles h).writable = true ∧
          p.info.fileExists = true) := fun hc => hlast ⟨hc.2.1, by omega⟩
      have hnote : ¬(p.opened h = true ∧ (p.handles h).writable = true ∧ p.info.useCount = 1) :=
        fun hc => hlast hc.2
      rw [if_neg hnot, if_neg hnote]
      exact ⟨hp.valid, hp.syncOut, fun _ => hexists, hp.current⟩
  · have hnot : p.opened h = false ∨ p.info.useCount ≤ 0 := by
      cases hopened : p.opened h with
      | false => exact .inl rfl
      | true => exact .inr (by by_contra hpos; exact hopen ⟨hopened, by omega⟩)
    have hnote : ¬(p.opened h = true ∧ (p.handles h).writable = true ∧ p.info.useCount = 1) :=
      fun hc => hopen ⟨hc.1, by omega⟩
    have hsame : DurableClose.close p h = p := if_pos hnot
    rw [if_neg hnote, hsame]
    exact hp

theorem Inv.step (hp : Inv p changed) {a : Step} (hmeets : Meets p changed a) :
    Inv (step p a) (changedAfter p changed a) := by
  cases a with
  | openFile h rw => exact hp.openFile h rw
  | call op => exact hp.call hmeets
  | close h => exact hp.close h

end Steps

section Runs

variable {stored : Stored}

theorem inv_started (hsize : stored.size.getD 0 < maxSize) : Inv (started stored) false where
  valid := valid_ofStored hsize
  syncOut := rfl
  fileExists huse := by
    have hzero : (0 : Int) < 0 := huse
    omega
  current _ hexists := current_ofStored hexists

theorem inv_runs (hsize : stored.size.getD 0 < maxSize) {x : Process × Bool}
    (hrun : Runs (started stored, false) x) : Inv x.1 x.2 := by
  induction hrun with
  | refl => exact inv_started hsize
  | tail _ hstep ih =>
    obtain ⟨a, hmeets, rfl⟩ := hstep
    exact ih.step hmeets

/-- Whenever the last handle is closed in a run whose steps meet the condition, the records are
the file. -/
theorem durable_on_close (hsize : stored.size.getD 0 < maxSize) {p : Process} {changed : Bool}
    (hrun : Runs (started stored, false) (p, changed)) {h : Nat}
    (hmeets : Meets p changed (.close h)) (hopened : p.opened h = true)
    (hlast : p.info.useCount = 1) :
    (step p (.close h)).info.useCount = 0 ∧ Rebuilt (step p (.close h)).info.pages := by
  have hp := inv_runs hsize hrun
  have hclosed := hp.close h
  have hclose := close_of_open hopened (show 0 < p.info.useCount by omega)
  have huse : (close p h).info.useCount = 0 := by
    rw [hclose]
    show p.info.useCount - 1 = 0
    omega
  have hexists : (close p h).info.fileExists = true := by
    rw [hclose]
    exact hp.fileExists (show 0 < p.info.useCount by omega)
  refine ⟨huse, (hclosed.current ?_ hexists).rebuilt⟩
  rw [note_close]
  cases hwritable : (p.handles h).writable with
  | true => rw [if_pos ⟨hopened, rfl, hlast⟩]
  | false =>
    rw [if_neg (by simp)]
    exact hmeets hopened hlast hwritable

/-- A file that is made by a handle for writing and closed by one for reading. -/
def readerLast : List Step :=
  [.openFile 0 true, .openFile 1 false, .call (.write 0 65), .close 0]

def made : Process := step (started noRecords) (.openFile 0 true)

def written : Process := step made (.call (.write 0 65))

theorem durable_on_close_written : Rebuilt (step written (.close 0)).info.pages := by
  have hmade : Runs (started noRecords, false) (made, true) := by
    refine .single ⟨.openFile 0 true, trivial, Prod.ext rfl ?_⟩
    decide +kernel
  have hwritten : Runs (started noRecords, false) (written, true) := by
    refine hmade.tail ⟨.call (.write 0 65), ?_, Prod.ext rfl ?_⟩
    · show (made.handles 0).seekPos + 1 < maxSize
      decide +kernel
    · decide +kernel
  refine (durable_on_close (by decide) hwritten ?_ (by decide +kernel) (by decide +kernel)).2
  intro _ _ hread
  exact absurd hread (by decide +kernel)

theorem reader_closes_last :
    ((readerLast.foldl step (started noRecords)).opened 1 = true ∧
      (readerLast.foldl step (started noRecords)).info.useCount = 1) ∧
    ¬Rebuilt (step (readerLast.foldl step (started noRecords)) (.close 1)).info.pages := by
  refine ⟨⟨by decide +kernel, by decide +kernel⟩, ?_⟩
  intro h
  have hnone : (step (readerLast.foldl step (started noRecords))
    (.close 1)).info.pages.stored.size =
      none := by decide +kernel
  rw [h.stored] at hnone
  cases hnone

end Runs

end Rhodes.DurableClose
