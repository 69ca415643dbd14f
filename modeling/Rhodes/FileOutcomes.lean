import Rhodes.FileImpl
import Rhodes.PageOutcomes

/-!
What the methods of PersistRAFileImpl leave however they end: they check their arguments and the
use count, and what they do then they do to the pages of the file.
-/
namespace Rhodes.FileImpl

open Arrays PagedFile Outcomes

/-- The other fields of the FileInfo stay, and the pages are related. -/
structure OnPages (R : PageTable → PageTable → Prop) (info info' : FileInfo) : Prop where
  pages : R info.pages info'.pages
  useCount : info'.useCount = info.useCount
  fileExists : info'.fileExists = info.fileExists
  syncOut : info'.syncOut = info.syncOut
  listenForSync : info'.listenForSync = info.listenForSync

instance {R : PageTable → PageTable → Prop} [Std.Refl R] : Std.Refl (OnPages R) :=
  ⟨fun info => ⟨refl_of R info.pages, rfl, rfl, rfl, rfl⟩⟩

instance {R : PageTable → PageTable → Prop} [IsTrans PageTable R] :
    IsTrans FileInfo (OnPages R) :=
  ⟨fun _ _ _ h h' => ⟨trans_of R h.pages h'.pages, h'.useCount.trans h.useCount,
    h'.fileExists.trans h.fileExists, h'.syncOut.trans h.syncOut,
    h'.listenForSync.trans h.listenForSync⟩⟩

variable {R : PageTable → PageTable → Prop}

theorem final_onPages {α : Type} (act : TableM α) (info : FileInfo) :
    final (onPages act info) = { info with pages := final (act info.pages) } := by
  unfold onPages
  cases act info.pages with
  | ok a t => rfl
  | error e t => rfl

theorem moves_onPages {α : Type} {act : TableM α} (h : Moves R act) :
    Moves (OnPages R) (onPages act) := by
  intro info
  rw [final_onPages]
  exact ⟨h info.pages, rfl, rfl, rfl, rfl⟩

theorem final_checkUseCount (info : FileInfo) : final (checkUseCount info) = info := by
  unfold checkUseCount
  rw [bind_get]
  split
  · rfl
  · rfl

theorem moves_checkUseCount : Moves Eq checkUseCount := Moves.of_final_eq final_checkUseCount

theorem moves_checkBounds (b : List UInt8) (off len : Int) : Moves Eq (checkBounds b off len) :=
  Moves.ite (fun _ => Moves.throw _) (fun _ => Moves.pure _)

section Methods

variable [Std.Refl R]

theorem moves_setSize {newSize : Int} (h : Moves R (resize newSize.toNat)) :
    Moves (OnPages R) (setSize newSize) := by
  refine Moves.ite (fun _ => (Moves.throw _).check (fun _ => ?_)) (fun _ => ?_)
  all_goals
    refine moves_checkUseCount.check ?_
    intro _
    refine Moves.get.check ?_
    intro info
    exact Moves.ite (fun _ => Moves.pure _) (fun _ => moves_onPages h)

theorem moves_readOne {pos : Nat} (h : Moves R (read pos)) : Moves (OnPages R) (readOne pos) :=
  moves_checkUseCount.check (fun _ => moves_onPages h)

theorem moves_readMany {pos : Nat} {b : List UInt8} {off len : Int}
    (h : Moves R (readBytes pos b off.toNat len.toNat)) :
    Moves (OnPages R) (readMany pos b off len) := by
  refine (moves_checkBounds b off len).check ?_
  intro _
  refine Moves.ite (fun _ => Moves.pure _) ?_
  intro _
  exact moves_checkUseCount.check (fun _ => moves_onPages h)

theorem moves_writeOne {pos : Nat} {b : Int}
    (h : Moves R (PagedFile.write pos (UInt8.ofInt b))) : Moves (OnPages R) (writeOne pos b) :=
  moves_checkUseCount.check (fun _ => moves_onPages h)

theorem moves_writeMany {pos : Nat} {b : List UInt8} {off len : Int}
    (h : Moves R (writeBytes pos b off.toNat len.toNat)) :
    Moves (OnPages R) (writeMany pos b off len) := by
  refine (moves_checkBounds b off len).check ?_
  intro _
  refine Moves.ite (fun _ => Moves.pure _) ?_
  intro _
  exact moves_checkUseCount.check (fun _ => moves_onPages h)

end Methods

end Rhodes.FileImpl
