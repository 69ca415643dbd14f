import Mathlib
import Rhodes.Outcomes
import Rhodes.PagedFileSpecs

/-!
What the methods of the paged file leave however they end: a method that throws in the middle
has loaded pages, or written some of them. A relation that a page access keeps to, and the
writing of one page, is kept to by the methods. A read is not seen by a reader.
-/
namespace Rhodes.PagedFile

open Arrays Outcomes

/-- Nothing is seen of the step. -/
def Sees (t t' : PageTable) : Prop := t.Valid → Unseen t t'

instance : Std.Refl Sees := ⟨fun _ ht => Unseen.refl ht⟩

instance : IsTrans PageTable Sees :=
  ⟨fun _ _ _ h h' ht => (h ht).trans (h' (h ht).valid)⟩

def KeepsValid (t t' : PageTable) : Prop := t.Valid → t'.Valid

instance : Std.Refl KeepsValid := ⟨fun _ ht => ht⟩

instance : IsTrans PageTable KeepsValid := ⟨fun _ _ _ h h' ht => h' (h ht)⟩

theorem Sees.keepsValid {t t' : PageTable} (h : Sees t t') : KeepsValid t t' :=
  fun ht => (h ht).valid

section Methods

variable {R : PageTable → PageTable → Prop} [Std.Refl R] [IsTrans PageTable R]

theorem moves_checked {R : PageTable → PageTable → Prop} [Std.Refl R] {α : Type} (a : Option α) :
    Moves R (checked a) := by
  cases a with
  | none => exact Moves.throw _
  | some a => exact Moves.pure a

theorem moves_read (hget : ∀ n, Moves R (getPage n)) (pos : Nat) : Moves R (read pos) := by
  refine Moves.get.bind ?_
  intro t
  refine Moves.ite (fun _ => Moves.pure _) ?_
  intro _
  exact (hget _).bind (fun _ => Moves.pure _)

theorem moves_readPages (hget : ∀ n, Moves R (getPage n)) (endPage : Int) (last k : Nat) (i : Int)
    (b : List UInt8) (n : Nat) : Moves R (readPages endPage last k i b n) := by
  induction k generalizing i b n with
  | zero => exact Moves.pure _
  | succ k ih =>
    refine (hget i).bind ?_
    intro content
    exact (moves_checked _).bind (fun b => ih _ b _)

theorem moves_readBytes (hget : ∀ n, Moves R (getPage n)) (pos : Nat) (b : List UInt8)
    (off len : Nat) : Moves R (readBytes pos b off len) := by
  refine Moves.get.bind ?_
  intro t
  refine Moves.ite (fun _ => Moves.pure _) ?_
  intro _
  refine (hget _).bind ?_
  intro content
  refine (moves_checked _).bind ?_
  intro b
  exact (moves_readPages hget _ _ _ _ _ _).bind (fun _ => Moves.pure _)

/-- A page that is there is overwritten. -/
theorem moves_writePage (hget : ∀ n, Moves R (getPage n))
    (hput : ∀ (t : PageTable) (n : Nat) (page : Page) (c : PageBytes), t.pages[n]? = some page →
      R t (setPageDirty n (setContent n c t))) (i : Int) (dstPos : Nat) (b : List UInt8)
    (off n : Nat) : Moves R (writePage i dstPos b off n) := by
  refine (hget i).bind ?_
  intro content
  refine (moves_checked _).bind ?_
  intro c
  show Moves R (modify (fun t => setPageDirty i.toNat (setContent i.toNat c t)) : TableM PUnit)
  refine Moves.modify ?_
  intro t
  cases hpage : t.pages[i.toNat]? with
  | none =>
    have hsame : setPageDirty i.toNat (setContent i.toNat c t) = t := by
      simp [setContent, setPageDirty, hpage]
    rw [hsame]
    exact refl_of R t
  | some page => exact hput t _ page c hpage

theorem moves_writePages {b : List UInt8} (hpage : ∀ i dstPos off n,
    Moves R (writePage i dstPos b off n)) (endPage : Int) (last off k : Nat) (i : Int) (n : Nat) :
    Moves R (writePages endPage last b off k i n) := by
  induction k generalizing i n with
  | zero => exact Moves.pure _
  | succ k ih => exact (hpage _ _ _ _).bind (fun _ => ih _ _)

/-- A write that needs more room resizes the file before it overwrites its pages. -/
theorem moves_write {S T : PageTable → PageTable → Prop} {pos : Nat}
    (hsize : Moves S (resize (pos + 1)))
    {b : UInt8} (hpage : ∀ i dstPos off n, Moves R (writePage i dstPos [b] off n))
    (hkept : ∀ t t', R t t' → T t t') (hthrown : ∀ t t', S t t' → T t t')
    (hboth : ∀ t t' t'', S t t' → R t' t'' → T t t'') : Moves T (write pos b) := by
  have hstep : ∀ u : PUnit, Moves R (do
      writePage (getPageNumber pos) (pos % pageSize) [b] 0 1
      return pos + 1 : TableM Nat) :=
    fun _ => (hpage _ _ _ _).bind (fun _ => Moves.pure _)
  intro t
  unfold write
  rw [bind_get]
  split
  · exact hsize.bind_of (fun u _ => hstep u) hthrown hboth t
  · exact hkept t _ (hstep ⟨⟩ t)

theorem moves_writeBytes {S T : PageTable → PageTable → Prop} {pos len : Nat}
    (hsize : Moves S (resize (pos + len))) {b : List UInt8}
    (hpage : ∀ i dstPos off n, Moves R (writePage i dstPos b off n))
    (hkept : ∀ t t', R t t' → T t t') (hthrown : ∀ t t', S t t' → T t t')
    (hboth : ∀ t t' t'', S t t' → R t' t'' → T t t'') (off : Nat) :
    Moves T (writeBytes pos b off len) := by
  have hstep : ∀ u : PUnit, Moves R (do
      writePage (getPageNumber pos) (pos % pageSize) b off (firstChunk pos len)
      let n ← writePages (getPageNumber (pos + len)) ((pos + len) % pageSize) b off
        (getPageNumber (pos + len) - getPageNumber pos).toNat (getPageNumber pos + 1)
        (firstChunk pos len)
      return pos + n : TableM Nat) := by
    intro _
    refine (hpage _ _ _ _).bind ?_
    intro _
    exact (moves_writePages hpage _ _ _ _ _ _).bind (fun _ => Moves.pure _)
  intro t
  unfold writeBytes
  rw [bind_get]
  split
  · exact hsize.bind_of (fun u _ => hstep u) hthrown hboth t
  · exact hkept t _ (hstep ⟨⟩ t)

end Methods

section Reading

/-- The outcomes of getPage: there is no such page, it is loaded, or it is read. -/
theorem getPage_cases (n : Int) (t : PageTable) :
    getPage n t = .error .indexOutOfBounds t ∨
    ∃ m : Nat, n = m ∧ ((∃ c dirty, t.pages[m]? = some ⟨some c, dirty⟩ ∧ getPage n t = .ok c t) ∨
      ∃ dirty, t.pages[m]? = some ⟨none, dirty⟩ ∧
        getPage n t = .ok (t.stored.bytes m) (loadPage m t)) := by
  by_cases hneg : n < 0
  · left
    rw [getPage, if_pos hneg]
  · obtain ⟨m, rfl⟩ := Int.eq_ofNat_of_zero_le (Int.not_lt.mp hneg)
    have hto : ((m : Nat) : Int).toNat = m := Int.toNat_natCast m
    cases hpage : t.pages[m]? with
    | none =>
      left
      rw [getPage, if_neg hneg, hto, hpage]
    | some page =>
      right
      obtain ⟨content, dirty⟩ := page
      cases content with
      | some c => exact ⟨m, rfl, .inl ⟨c, dirty, hpage, by rw [getPage, if_neg hneg, hto, hpage]⟩⟩
      | none => exact ⟨m, rfl, .inr ⟨dirty, hpage, by rw [getPage, if_neg hneg, hto, hpage]⟩⟩

theorem sees_getPage (n : Int) : Moves Sees (getPage n) := by
  intro t ht
  rcases getPage_cases n t with herror | ⟨m, -, ⟨c, dirty, -, hok⟩ | ⟨dirty, hpage, hok⟩⟩
  · rw [herror]
    exact Unseen.refl ht
  · rw [hok]
    exact Unseen.refl ht
  · rw [hok]
    cases dirty with
    | true => exact absurd hpage (ht.loaded m)
    | false => exact (loadPage_spec ht hpage).1

theorem sees_read (pos : Nat) : Moves Sees (read pos) := moves_read sees_getPage pos

theorem sees_readBytes (pos : Nat) (b : List UInt8) (off len : Nat) :
    Moves Sees (readBytes pos b off len) := moves_readBytes sees_getPage pos b off len

end Reading

section Writing

/-- A page that is loaded is overwritten. -/
theorem valid_overwritten {t : PageTable} {n : Nat} {content : Option PageBytes} {dirty : Bool}
    (ht : t.Valid) (hpage : t.pages[n]? = some ⟨content, dirty⟩) (c : PageBytes) :
    (setPageDirty n (setContent n c t)).Valid := by
  have hcount := countP_set_dirty hpage ⟨some c, true⟩
  have hdirty := ht.dirty
  rw [setPageDirty_setContent hpage]
  refine ht.setPage (List.getElem?_eq_some_iff.mp hpage).1 ?_ ?_ ?_
  · intro c' hc'
    cases hc'
  · intro hnone
    cases hnone
  · rw [hcount]
    cases dirty <;> simp <;> omega

theorem keepsValid_writePage (i : Int) (dstPos : Nat) (b : List UInt8) (off n : Nat) :
    Moves KeepsValid (writePage i dstPos b off n) := by
  refine moves_writePage (fun n => (sees_getPage n).mono (fun _ _ h => h.keepsValid)) ?_ i
    dstPos b off n
  intro t n page c hpage ht
  exact valid_overwritten ht hpage c

theorem keepsValid_resize {newSize : Nat} (hsmall : newSize < maxSize) :
    Moves KeepsValid (resize newSize) := by
  intro t ht
  obtain ⟨t', hresize, hresized⟩ := resize_spec ht hsmall
  rw [hresize]
  exact hresized.valid

theorem keepsValid_write {pos : Nat} (hsmall : pos + 1 < maxSize) (b : UInt8) :
    Moves KeepsValid (write pos b) :=
  moves_write (keepsValid_resize hsmall) (fun _ _ _ _ => keepsValid_writePage _ _ _ _ _)
    (fun _ _ => id) (fun _ _ => id) (fun _ _ _ => trans_of KeepsValid)

theorem keepsValid_writeBytes {pos len : Nat} (hsmall : pos + len < maxSize) (b : List UInt8)
    (off : Nat) : Moves KeepsValid (writeBytes pos b off len) :=
  moves_writeBytes (keepsValid_resize hsmall) (fun _ _ _ _ => keepsValid_writePage _ _ _ _ _)
    (fun _ _ => id) (fun _ _ => id) (fun _ _ _ => trans_of KeepsValid) off

end Writing

end Rhodes.PagedFile
