import Mathlib
import Rhodes.JournalReads
import Rhodes.JournalRecovery

/-!
Journal.create on whatever the journal file holds. The head has to be read before the journal is
removed, so a journal that is cut in its head, or has a byte above 127 there, stays for ever, and
no journal can be started any more.
-/
namespace Rhodes.JournalStart

open Arrays PagedFile FileImpl RandomAccess JournalFile JournalReplay JournalReads Outcomes

/-- Nothing but the pages of the files has changed. -/
def PagesOnly (w w' : World) : Prop :=
  ∀ n, w'.files n = { w.files n with pages := (w'.files n).pages }

section Writes

variable {w w' w'' : World} {f : RAFile}

theorem PagesOnly.trans (h : PagesOnly w w') (h' : PagesOnly w' w'') : PagesOnly w w'' := by
  intro n
  rw [h' n, h n]

theorem pagesOnly_setPages (w : World) (name : String) (t : PageTable) :
    PagesOnly w (w.setPages name t) := by
  intro n
  rw [files_setPages]
  split
  · rename_i heq
    rw [heq]
  · rfl

theorem Reread.pagesOnly {name : String} {J : List UInt8} (h : Reread name J w w') :
    PagesOnly w w' := by
  obtain ⟨t, rfl, -⟩ := h
  exact pagesOnly_setPages w name t

/-- An action on one file that its shape lets through, or not. -/
def Lets {α : Type} (act : WorldM α) (name : String) (w : World) (s : Option Shape) : Prop :=
  (∃ a t, act w = .ok a (w.setPages name t) ∧ s = some t.shape) ∨
    (∃ e t, act w = .error e (w.setPages name t) ∧ s = none)

theorem lets_onFile {α : Type} {name : String} {act : InfoM α} {s : Option Shape}
    (h : EndsWith act (w.files name) s) : Lets (onFile name act) name w s := by
  rcases h with ⟨a, t, hact, hs⟩ | ⟨e, t, hact, hs⟩
  · exact .inl ⟨a, t, onFile_ok hact, hs⟩
  · refine .inr ⟨e, t, ?_, hs⟩
    rw [onFile, hact]
    rfl

theorem lets_setLength (huse : 0 < (w.files f.name).useCount) (newLength : Nat) :
    Lets (setLength f newLength) f.name w
      (setSizeShape (w.files f.name).pages.shape newLength) :=
  lets_onFile (endsWith_setSize huse newLength)

/-- The handle stays one on the same file. -/
theorem writeArray_lets (hwrite : f.writeAccess = true) (huse : 0 < (w.files f.name).useCount)
    {b : List UInt8} (hlt : b.length < 2147483648) :
    (∃ pos t, writeArray f b w = .ok { f with pos := pos } (w.setPages f.name t) ∧
      writeShape (w.files f.name).pages.shape f.pos b.length = some t.shape) ∨
    (∃ e t, writeArray f b w = .error e (w.setPages f.name t) ∧
      writeShape (w.files f.name).pages.shape f.pos b.length = none) := by
  unfold writeArray
  rw [if_neg (by rw [hwrite]; decide)]
  rcases lets_onFile (endsWith_writeMany huse f.pos hlt) with ⟨pos, t, hact, hs⟩ | ⟨e, t, hact, hs⟩
  · refine .inl ⟨pos, t, ?_, hs⟩
    show (onFile f.name (writeMany f.pos b 0 b.length) >>= _) w = _
    rw [bind_ok hact]
    rfl
  · refine .inr ⟨e, t, ?_, hs⟩
    show (onFile f.name (writeMany f.pos b 0 b.length) >>= _) w = _
    rw [bind_error hact]

end Writes

section Records

variable {J : List UInt8}

/-- A record is behind the position, within the file, and its bytes fill an int array. -/
theorem recordAt_next {pos next : Nat} {r : Record} (h : recordAt J pos = .record r next) :
    pos < next ∧ next ≤ J.length ∧ r.bytes.length < 2147483648 := by
  unfold recordAt at h
  split at h
  · rename_i nPos nLen hpos hlen
    dsimp only at h
    have hlow := longAt_mod hlen
    split at h
    · cases h
    · split at h
      · rename_i hconfirmed
        cases h
        have hlt := (List.getElem?_eq_some_iff.mp hconfirmed.2).1
        refine ⟨by omega, by omega, ?_⟩
        rw [List.length_take]
        omega
      · cases h
  · cases h

end Records

section Replay

variable {w : World} {J : List UInt8}

/-- The loop ends normally just where the records can be read and the data file takes them. -/
theorem replay_any (fuel : Nat) (jf df : RAFile) (hne : jf.name ≠ df.name)
    (hfuel : J.length < jf.pos + fuel) (hjpos : jf.pos ≤ J.length ∨ 0 < fuel)
    (huse : 0 < (w.files jf.name).useCount)
    (hcontent : Content (w.files jf.name).pages J) (hwrite : df.writeAccess = true)
    (huse' : 0 < (w.files df.name).useCount) :
    PagesOnly w (final (replay fuel jf df w)) ∧
      ((∃ u, replay fuel jf df w = .ok () u) ↔ ∃ rs, recordsFrom fuel J jf.pos = some rs ∧
        (takeAll (w.files df.name).pages.shape rs).isSome) := by
  induction fuel generalizing jf df w with
  | zero => omega
  | succ fuel ih =>
    obtain ⟨w₁, hw₁, hr₁⟩ := readRecord_any huse hcontent
    have hdata : w₁.files df.name = w.files df.name := hw₁.files_of_ne hne.symm
    unfold replay recordsFrom
    cases hfound : recordAt J jf.pos with
    | ended =>
      rw [hfound] at hr₁
      rw [bind_ok hr₁]
      refine ⟨Reread.pagesOnly hw₁, iff_of_true ⟨w₁, rfl⟩ ⟨[], rfl, rfl⟩⟩
    | thrown =>
      rw [hfound] at hr₁
      rw [bind_error hr₁]
      refine ⟨Reread.pagesOnly hw₁, iff_of_false ?_ ?_⟩
      · rintro ⟨u, hu⟩
        cases hu
      · rintro ⟨rs, hrs, -⟩
        cases hrs
    | record r next =>
      rw [hfound] at hr₁
      rw [bind_ok hr₁]
      obtain ⟨hlt, hle, hsmall⟩ := recordAt_next hfound
      show PagesOnly w (final ((writeArray { df with pos := r.pos } r.bytes >>= _) w₁)) ∧
        ((∃ u, (writeArray { df with pos := r.pos } r.bytes >>= _) w₁ = .ok () u) ↔ _)
      have hrecords : (∃ rs, (recordsFrom fuel J next).map (fun rs => r :: rs) = some rs ∧
          (takeAll (w.files df.name).pages.shape rs).isSome) ↔
          ∃ rs, recordsFrom fuel J next = some rs ∧
            ((writeShape (w.files df.name).pages.shape r.pos r.bytes.length).bind
              (fun s => takeAll s rs)).isSome := by
        constructor
        · rintro ⟨rs, hrs, htake⟩
          obtain ⟨rest, hrest, rfl⟩ := Option.map_eq_some_iff.mp hrs
          exact ⟨rest, hrest, htake⟩
        · rintro ⟨rest, hrest, htake⟩
          exact ⟨r :: rest, by rw [hrest]; rfl, htake⟩
      rw [hrecords, ← hdata]
      rcases writeArray_lets (f := { df with pos := r.pos }) (w := w₁) hwrite
        (by rw [hdata]; exact huse') hsmall with ⟨pos, t, hact, hs⟩ | ⟨e, t, hact, hs⟩
      · have hjournal : (w₁.setPages df.name t).files jf.name = w₁.files jf.name :=
          files_setPages_of_ne _ _ _ hne
        have hfile : (w₁.setPages df.name t).files df.name =
            { w₁.files df.name with pages := t } := files_setPages_self _ _ _
        obtain ⟨hpages, hiff⟩ := ih { jf with pos := next } { df with pos := pos } hne
          (w := w₁.setPages df.name t) (by show J.length < next + fuel; omega) (.inl hle)
          (by rw [hjournal, hw₁.useCount]; exact huse) (by rw [hjournal]; exact hw₁.content) hwrite
          (by rw [hfile]; show 0 < (w₁.files df.name).useCount; rw [hdata]; exact huse')
        rw [hfile] at hiff
        rw [bind_ok hact, show writeShape _ r.pos r.bytes.length = some t.shape from hs]
        exact ⟨((Reread.pagesOnly hw₁).trans (pagesOnly_setPages w₁ df.name t)).trans hpages, hiff⟩
      · rw [bind_error hact, show writeShape _ r.pos r.bytes.length = none from hs]
        refine ⟨(Reread.pagesOnly hw₁).trans (pagesOnly_setPages w₁ df.name t),
          iff_of_false ?_ ?_⟩
        · rintro ⟨u, hu⟩
          cases hu
        · rintro ⟨rs, -, htake⟩
          cases htake

end Replay

/-- The journal is written back: its head can be read, and where it is confirmed the data file takes
the size and the records that follow. -/
def Replays (J : List UInt8) (s : Shape) : Prop :=
  ∃ size, longAt J 0 = some size ∧ (J[8]? = some blockConfirm →
    ∃ rs, recordsOf J = some rs ∧ ((setSizeShape s size).bind (fun s => takeAll s rs)).isSome)

/-- The files that rollback has opened, when it closes them. -/
structure Opened (stored : String → Stored) (j d : String) (J : List UInt8) (s : Rollback) :
    Prop where
  jf : s.jf = some ⟨j, false, 0⟩
  journal : ∃ t, s.world.files j =
    { FileInfo.ofStored (stored j) with fileExists := true, useCount := 1, pages := t }
  data : (s.df = none ∧ s.world.files d = FileInfo.ofStored (stored d)) ∨
    (J[8]? = some blockConfirm ∧ s.df = some ⟨d, true, 0⟩ ∧ ∃ t, s.world.files d =
      { FileInfo.ofStored (stored d) with fileExists := true, useCount := 1, pages := t })

section Rollback

variable {stored : String → Stored} {j d : String} {J : List UInt8}

theorem openFile_data {w : World} (hfile : w.files d = FileInfo.ofStored (stored d)) :
    openFile d true w = .ok ⟨d, true, 0⟩ (w.setFile d
      { FileInfo.ofStored (stored d) with fileExists := true, useCount := 1 }) := by
  unfold openFile
  rw [hfile]
  show (if (0 : Int) < 0 then _ else if _ ∧ true = false then _ else _) = _
  rw [if_neg (by decide), if_neg (by simp)]
  rfl

theorem onRollback_error {α : Type} {act : WorldM α} {s : Rollback} {e : Exn} {w : World}
    (h : act s.world = .error e w) : onRollback act s = .error e { s with world := w } := by
  rw [onRollback, h]

theorem final_onRollback {α : Type} (act : WorldM α) (s : Rollback) :
    final (onRollback act s) = { s with world := final (act s.world) } := by
  unfold onRollback
  cases act s.world with
  | ok a w => rfl
  | error e w => rfl

theorem onRollback_ok_iff {α : Type} {act : WorldM α} {s : Rollback} {a : α} :
    (∃ u, onRollback act s = .ok a u) ↔ ∃ w, act s.world = .ok a w := by
  unfold onRollback
  cases act s.world with
  | ok b w =>
    constructor
    · rintro ⟨u, hu⟩
      cases hu
      exact ⟨w, rfl⟩
    · rintro ⟨u, hu⟩
      cases hu
      exact ⟨_, rfl⟩
  | error e w =>
    constructor
    · rintro ⟨u, hu⟩
      cases hu
    · rintro ⟨u, hu⟩
      cases hu

/-- Once both files are open, only their pages change. -/
theorem opened_of_pagesOnly {w w' : World} (hconfirmed : J[8]? = some blockConfirm)
    (hpages : PagesOnly w w')
    (hjournal : ∃ t, w.files j =
      { FileInfo.ofStored (stored j) with fileExists := true, useCount := 1, pages := t })
    (hdata : w.files d =
      { FileInfo.ofStored (stored d) with fileExists := true, useCount := 1 }) :
    Opened stored j d J ⟨w', some ⟨j, false, 0⟩, some ⟨d, true, 0⟩⟩ := by
  obtain ⟨t, hjournal⟩ := hjournal
  refine ⟨rfl, ⟨(w'.files j).pages, ?_⟩, .inr ⟨hconfirmed, rfl, (w'.files d).pages, ?_⟩⟩
  · show w'.files j = _
    rw [hpages j, hjournal]
  · show w'.files d = _
    rw [hpages d, hdata]

/-- The confirmed part of rollback: the data file is opened and written to. -/
theorem writeBack_any (hne : j ≠ d) (size : Nat) {w : World}
    (hjournal : ∃ t, w.files j =
      { FileInfo.ofStored (stored j) with fileExists := true, useCount := 1, pages := t })
    (hcontent : Content (w.files j).pages J) (hdata : w.files d = FileInfo.ofStored (stored d))
    (hconfirmed : J[8]? = some blockConfirm) :
    ∃ r, (do
        let df ← onRollback (openFile d true)
        modify (fun s => { s with df := some df })
        onRollback (setLength df size)
        let fuel := ((← get).world.files j).pages.size + 1
        onRollback (replay fuel ⟨j, false, 9⟩ df) : EStateM Exn Rollback Unit)
          ⟨w, some ⟨j, false, 0⟩, none⟩ = r ∧ Opened stored j d J (final r) ∧
      ((∃ u, r = .ok () u) ↔ ∃ rs, recordsOf J = some rs ∧
        ((setSizeShape (PageTable.ofStored (stored d)).shape size).bind
          (fun s => takeAll s rs)).isSome) := by
  obtain ⟨w', hw'⟩ : ∃ w', w' = w.setFile d
      { FileInfo.ofStored (stored d) with fileExists := true, useCount := 1 } := ⟨_, rfl⟩
  have hopen : openFile d true w = .ok ⟨d, true, 0⟩ w' := hw' ▸ openFile_data hdata
  have hd : w'.files d =
      { FileInfo.ofStored (stored d) with fileExists := true, useCount := 1 } := by
    rw [hw', files_setFile_self]
  have hj : w'.files j = w.files j := by
    rw [hw', files_setFile_of_ne _ _ _ hne]
  have huse : 0 < (w'.files d).useCount := by
    rw [hd]
    exact Int.zero_lt_one
  have hset := lets_setLength (f := ⟨d, true, 0⟩) huse size
  refine ⟨_, rfl, ?_⟩
  rw [bind_ok (onRollback_ok hopen)]
  show Opened stored j d J (final ((onRollback (setLength ⟨d, true, 0⟩ size) >>= _)
      ⟨w', some ⟨j, false, 0⟩, some ⟨d, true, 0⟩⟩)) ∧
    ((∃ u, (onRollback (setLength ⟨d, true, 0⟩ size) >>= _)
      ⟨w', some ⟨j, false, 0⟩, some ⟨d, true, 0⟩⟩ = .ok () u) ↔ _)
  have hj' : ∃ t, w'.files j =
      { FileInfo.ofStored (stored j) with fileExists := true, useCount := 1, pages := t } := by
    rw [hj]
    exact hjournal
  rcases hset with ⟨_, t, hact, hs⟩ | ⟨e, t, hact, hs⟩
  · rw [bind_ok (onRollback_ok hact)]
    show Opened stored j d J (final (onRollback
        (replay (((w'.setPages d t).files j).pages.size + 1) ⟨j, false, 9⟩ ⟨d, true, 0⟩)
        ⟨w'.setPages d t, some ⟨j, false, 0⟩, some ⟨d, true, 0⟩⟩)) ∧
      ((∃ u, onRollback
        (replay (((w'.setPages d t).files j).pages.size + 1) ⟨j, false, 9⟩ ⟨d, true, 0⟩)
        ⟨w'.setPages d t, some ⟨j, false, 0⟩, some ⟨d, true, 0⟩⟩ = .ok () u) ↔ _)
    have hjfile : (w'.setPages d t).files j = w.files j := by
      rw [files_setPages_of_ne _ _ _ hne, hj]
    have hdfile : (w'.setPages d t).files d = { w'.files d with pages := t } :=
      files_setPages_self _ _ _
    have hsize : ((w'.setPages d t).files j).pages.size = J.length := by
      rw [hjfile, hcontent.size]
    obtain ⟨tj, htj⟩ := hjournal
    obtain ⟨hpages, hiff⟩ := replay_any (w := w'.setPages d t) (J := J) (J.length + 1)
      ⟨j, false, 9⟩ ⟨d, true, 0⟩ hne (by show J.length < 9 + (J.length + 1); omega)
      (.inr (Nat.succ_pos _)) (by rw [hjfile, htj]; exact Int.zero_lt_one)
      (by rw [hjfile]; exact hcontent) rfl (by rw [hdfile]; exact huse)
    rw [hdfile] at hiff
    rw [hsize, final_onRollback, onRollback_ok_iff]
    refine ⟨opened_of_pagesOnly hconfirmed ((pagesOnly_setPages w' d t).trans hpages) hj' hd, ?_⟩
    rw [hd] at hs
    rw [show setSizeShape (PageTable.ofStored (stored d)).shape size = some t.shape from hs]
    exact hiff
  · rw [bind_error (onRollback_error hact)]
    refine ⟨opened_of_pagesOnly hconfirmed (pagesOnly_setPages w' d t) hj' hd, iff_of_false ?_ ?_⟩
    · rintro ⟨u, hu⟩
      cases hu
    · rintro ⟨rs, -, htake⟩
      rw [hd] at hs
      rw [show setSizeShape (PageTable.ofStored (stored d)).shape size = none from hs] at htake
      cases htake

/-- The block that rollback tries, for a journal that is there. -/
theorem rollbackFiles_any (hne : j ≠ d) (hsize : (stored j).size = some J.length)
    (hlt : J.length < maxSize) (hbytes : segment (storedByte (stored j)) 0 J.length = J) :
    Opened stored j d J (final (rollbackFiles j d ⟨restart stored, none, none⟩)) ∧
      ((∃ u, rollbackFiles j d ⟨restart stored, none, none⟩ = .ok () u) ↔
        Replays J (PageTable.ofStored (stored d)).shape) := by
  obtain ⟨w₁, hw₁⟩ : ∃ w₁, w₁ = (restart stored).setFile j
      { FileInfo.ofStored (stored j) with fileExists := true, useCount := 1 } := ⟨_, rfl⟩
  have hopen : openFile j false (restart stored) = .ok ⟨j, false, 0⟩ w₁ :=
    hw₁ ▸ openFile_ofStored rfl hsize false
  have hj₁ : w₁.files j =
      { FileInfo.ofStored (stored j) with fileExists := true, useCount := 1 } := by
    rw [hw₁, files_setFile_self]
  have hd₁ : w₁.files d = FileInfo.ofStored (stored d) := by
    rw [hw₁, files_setFile_of_ne _ _ _ hne.symm]
    rfl
  have huse₁ : 0 < (w₁.files j).useCount := by
    rw [hj₁]
    exact Int.zero_lt_one
  have hcontent₁ : Content (w₁.files j).pages J := by
    rw [hj₁]
    exact content_ofStored hsize hlt hbytes
  -- The state in which the data file is not opened yet.
  have hunopened : ∀ w', Reread j J w₁ w' →
      Opened stored j d J ⟨w', some ⟨j, false, 0⟩, none⟩ := by
    rintro w' hw'
    refine ⟨rfl, ⟨(w'.files j).pages, ?_⟩, .inl ⟨rfl, ?_⟩⟩
    · show w'.files j = _
      rw [Reread.pagesOnly hw' j, hj₁]
    · show w'.files d = _
      rw [hw'.files_of_ne hne.symm, hd₁]
  unfold rollbackFiles
  rw [bind_ok (onRollback_ok hopen)]
  show Opened stored j d J (final ((onRollback (readLong ⟨j, false, 0⟩) >>= _)
      ⟨w₁, some ⟨j, false, 0⟩, none⟩)) ∧
    ((∃ u, (onRollback (readLong ⟨j, false, 0⟩) >>= _) ⟨w₁, some ⟨j, false, 0⟩, none⟩ =
      .ok () u) ↔ _)
  obtain ⟨w₂, hw₂, hr₂⟩ := readLong_any (f := ⟨j, false, 0⟩) huse₁ hcontent₁
  unfold Replays
  cases hlong : longAt J 0 with
  | none =>
    rw [hlong] at hr₂
    rw [bind_error (onRollback_error hr₂)]
    refine ⟨hunopened w₂ hw₂, iff_of_false ?_ ?_⟩
    · rintro ⟨u, hu⟩
      cases hu
    · rintro ⟨size, hlong', -⟩
      cases hlong'
  | some size =>
    rw [hlong] at hr₂
    rw [bind_ok (onRollback_ok hr₂)]
    show Opened stored j d J (final ((onRollback (readByte ⟨j, false, 8⟩) >>= _)
        ⟨w₂, some ⟨j, false, 0⟩, none⟩)) ∧
      ((∃ u, (onRollback (readByte ⟨j, false, 8⟩) >>= _) ⟨w₂, some ⟨j, false, 0⟩, none⟩ =
        .ok () u) ↔ _)
    obtain ⟨w₃, hr₃, hw₃⟩ := readByte_any (f := ⟨j, false, 8⟩)
      (by rw [hw₂.useCount]; exact huse₁) hw₂.content
    have hw := hw₂.trans hw₃
    rw [bind_ok (onRollback_ok hr₃)]
    by_cases hconfirmed : J[8]? = some blockConfirm
    · have hnext : nextPos J 8 = 9 := (byteAt_low hconfirmed (by decide)).2
      have hbyte := (byteAt_eq_iff J 8).mpr hconfirmed
      obtain ⟨r, hr, hopened, hiff⟩ := writeBack_any hne size
        ⟨(w₃.files j).pages, by rw [Reread.pagesOnly hw j, hj₁]⟩ hw.content
        (by rw [hw.files_of_ne hne.symm, hd₁]) hconfirmed
      have hrun : (if byteAt J 8 = (blockConfirm.toNat : Int) then do
            let df ← onRollback (openFile d true)
            modify (fun s => { s with df := some df })
            onRollback (setLength df size)
            let fuel := ((← get).world.files j).pages.size + 1
            onRollback (replay fuel ⟨j, false, nextPos J 8⟩ df)
          else pure () : EStateM Exn Rollback Unit) ⟨w₃, some ⟨j, false, 0⟩, none⟩ = r := by
        rw [if_pos hbyte, hnext]
        exact hr
      show Opened stored j d J (final ((if byteAt J 8 = (blockConfirm.toNat : Int) then _ else _ :
          EStateM Exn Rollback Unit) ⟨w₃, some ⟨j, false, 0⟩, none⟩)) ∧
        ((∃ u, (if byteAt J 8 = (blockConfirm.toNat : Int) then _ else _ :
          EStateM Exn Rollback Unit) ⟨w₃, some ⟨j, false, 0⟩, none⟩ = .ok () u) ↔ _)
      rw [hrun]
      refine ⟨hopened, hiff.trans ?_⟩
      constructor
      · exact fun h => ⟨size, rfl, fun _ => h⟩
      · rintro ⟨size', hsize', h⟩
        rw [Option.some.inj hsize']
        exact h hconfirmed
    · have hbyte : ¬byteAt J 8 = (blockConfirm.toNat : Int) :=
        fun h => hconfirmed ((byteAt_eq_iff J 8).mp h)
      show Opened stored j d J (final ((if byteAt J 8 = (blockConfirm.toNat : Int) then _ else _ :
          EStateM Exn Rollback Unit) ⟨w₃, some ⟨j, false, 0⟩, none⟩)) ∧
        ((∃ u, (if byteAt J 8 = (blockConfirm.toNat : Int) then _ else _ :
          EStateM Exn Rollback Unit) ⟨w₃, some ⟨j, false, 0⟩, none⟩ = .ok () u) ↔ _)
      rw [if_neg hbyte]
      exact ⟨hunopened w₃ hw, iff_of_true ⟨_, rfl⟩
        ⟨size, rfl, fun h => absurd h hconfirmed⟩⟩

end Rollback

section Ending

variable {stored : String → Stored} {j d : String} {J : List UInt8}

theorem files_closed {w : World} {f : RAFile} (huse : (w.files f.name).useCount = 1)
    (hlisten : (w.files f.name).listenForSync = []) :
    ∃ w', closeFile f w = .ok () w' ∧
      (w'.files f.name).fileExists = (w.files f.name).fileExists ∧
      ∀ n ≠ f.name, w'.files n = w.files n := by
  refine ⟨_, closeFile_eq huse hlisten, ?_⟩
  have hexists : ((released w f.name).files f.name).fileExists = (w.files f.name).fileExists := by
    rw [released, files_setFile_self]
  have hother : ∀ n ≠ f.name, (released w f.name).files n = w.files n :=
    fun n hn => files_setFile_of_ne _ _ _ hn
  split
  · rw [files_syncPages, if_pos rfl]
    refine ⟨hexists, ?_⟩
    intro n hn
    rw [files_syncPages, if_neg hn, hother n hn]
  · exact ⟨hexists, hother⟩

theorem removeElement_gone (w : World) (name : String) :
    ∃ w', removeElement name w = .ok () w' ∧ (w'.files name).fileExists = false ∧
      ∀ n ≠ name, w'.files n = w.files n := by
  have hremove : removeElement name w =
      (if (w.files name).fileExists then onFile name deleteInfo else pure () : WorldM Unit) w := rfl
  rw [hremove]
  split
  · obtain ⟨info, hdelete, hgone⟩ : ∃ info, deleteInfo (w.files name) = .ok () info ∧
      info.fileExists = false := ⟨_, rfl, rfl⟩
    refine ⟨w.setFile name info, ?_, ?_, ?_⟩
    · rw [onFile, hdelete]
    · rw [files_setFile_self, hgone]
    · intro n hn
      rw [files_setFile_of_ne _ _ _ hn]
  · rename_i hexists
    exact ⟨w, rfl, Bool.eq_false_iff.mpr hexists, fun _ _ => rfl⟩

/-- The finally block closes what is open, and removes the journal after a success. -/
theorem endRollback_any (hne : j ≠ d) (success : Bool) {s : Rollback}
    (hs : Opened stored j d J s) :
    ∃ w, endRollback j success s s.world = .ok () w ∧ (w.files j).fileExists = !success ∧
      (J[8]? ≠ some blockConfirm → w.files d = FileInfo.ofStored (stored d)) := by
  obtain ⟨tj, hj⟩ := hs.journal
  -- The data file is closed where it was opened.
  have hdata : ∃ w₁, closeOpened s.df s.world = .ok () w₁ ∧ w₁.files j = s.world.files j ∧
      (J[8]? ≠ some blockConfirm → w₁.files d = FileInfo.ofStored (stored d)) := by
    rcases hs.data with ⟨hdf, hfile⟩ | ⟨hconfirmed, hdf, t, hfile⟩
    · rw [hdf]
      exact ⟨s.world, rfl, rfl, fun _ => hfile⟩
    · rw [hdf]
      obtain ⟨w₁, hclose, -, hother⟩ := files_closed (w := s.world) (f := ⟨d, true, 0⟩)
        (by rw [hfile]) (by rw [hfile]; rfl)
      exact ⟨w₁, hclose, hother j hne, fun h => absurd hconfirmed h⟩
  obtain ⟨w₁, hclose₁, hj₁, hd₁⟩ := hdata
  obtain ⟨w₂, hclose₂, hexists₂, hother₂⟩ := files_closed (w := w₁) (f := ⟨j, false, 0⟩)
    (by rw [hj₁, hj]) (by rw [hj₁, hj]; rfl)
  have hexists : (w₂.files j).fileExists = true := by
    rw [hexists₂]
    show (w₁.files j).fileExists = true
    rw [hj₁, hj]
  have hd₂ : w₂.files d = w₁.files d := hother₂ d hne.symm
  unfold endRollback
  rw [hs.jf, bind_ok hclose₁]
  show ∃ w, (closeFile ⟨j, false, 0⟩ >>= _) w₁ = _ ∧ _
  rw [bind_ok hclose₂]
  cases success with
  | true =>
    obtain ⟨w₃, hremove, hgone, hother₃⟩ := removeElement_gone w₂ j
    refine ⟨w₃, hremove, hgone, ?_⟩
    rw [hother₃ d hne.symm, hd₂]
    exact hd₁
  | false =>
    refine ⟨w₂, rfl, hexists, ?_⟩
    rw [hd₂]
    exact hd₁

/-- A journal that is there is gone after rollback just where it is written back. -/
theorem rollback_any (hne : j ≠ d) (hsize : (stored j).size = some J.length)
    (hlt : J.length < maxSize) (hbytes : segment (storedByte (stored j)) 0 J.length = J) :
    (((final (rollback j d (restart stored))).files j).fileExists = false ↔
      Replays J (PageTable.ofStored (stored d)).shape) ∧
    (J[8]? ≠ some blockConfirm →
      (final (rollback j d (restart stored))).files d = FileInfo.ofStored (stored d)) := by
  have hexists : ((restart stored).files j).fileExists = true := by
    show (stored j).size.isSome = true
    rw [hsize]
    rfl
  have hrollback : rollback j d (restart stored) = tryRollback j d (restart stored) := by
    unfold rollback
    show (if ((restart stored).files j).fileExists = true then tryRollback j d else pure () :
      WorldM Unit) (restart stored) = _
    rw [if_pos hexists]
  obtain ⟨hopened, hiff⟩ := rollbackFiles_any hne hsize hlt hbytes
  rw [hrollback, ← hiff]
  cases hfiles : rollbackFiles j d ⟨restart stored, none, none⟩ with
  | ok u s =>
    rw [hfiles] at hopened
    obtain ⟨w, hend, hgone, hdata⟩ := endRollback_any hne true hopened
    have hfinal : final (tryRollback j d (restart stored)) = w := by
      rw [tryRollback, hfiles]
      show final (endRollback j true s s.world) = w
      rw [show endRollback j true s s.world = .ok () w from hend, final_ok]
    rw [hfinal]
    exact ⟨iff_of_true hgone ⟨s, rfl⟩, hdata⟩
  | error e s =>
    rw [hfiles] at hopened
    obtain ⟨w, hend, hthere, hdata⟩ := endRollback_any hne false hopened
    have hfinal : final (tryRollback j d (restart stored)) = w := by
      rw [tryRollback, hfiles]
      dsimp only
      rw [show endRollback j false s s.world = .ok () w from hend]
      show final (if isIOException e then .ok () w else .error e w) = w
      split <;> rfl
    rw [hfinal]
    refine ⟨iff_of_false ?_ ?_, hdata⟩
    · rw [hthere]
      decide
    · rintro ⟨u, hu⟩
      cases hu

end Ending

section Start

open JournalRecovery

/-- What is in a file of the store. -/
def fileBytes (s : Stored) : List UInt8 := segment (storedByte s) 0 (s.size.getD 0)

/-- Where create leaves the files and the journal of a process that starts. -/
def created (stored : String → Stored) (name : String) : Session :=
  final (create name ⟨restart stored, newJournal⟩)

/-- The journal file is gone after create, so that a start goes on, and a journal whose head is not
confirmed has left the data file as it was. -/
structure NeverBlocks (stored : String → Stored) (name : String) : Prop where
  absent : ((created stored name).world.files (journalName name)).fileExists = false
  starts : ∃ s, start (created stored name) = .ok () s
  untouched : (fileBytes (stored (journalName name)))[8]? ≠ some blockConfirm →
    (created stored name).world.files name = FileInfo.ofStored (stored name)

variable {stored : String → Stored} {name : String}

theorem world_created (stored : String → Stored) (name : String) :
    (created stored name).world = final (rollback (journalName name) name (restart stored)) ∧
      (created stored name).journal =
        { newJournal with journalName := journalName name, dataName := name } := by
  have hcreate : created stored name = final (onWorld (rollback (journalName name) name)
      ⟨restart stored, { newJournal with journalName := journalName name, dataName := name }⟩) :=
    rfl
  rw [hcreate, onWorld]
  cases rollback (journalName name) name (restart stored) with
  | ok u w => exact ⟨rfl, rfl⟩
  | error e w => exact ⟨rfl, rfl⟩

theorem start_of_absent {s : Session}
    (h : (s.world.files s.journal.journalName).fileExists = false) :
    ∃ s', start s = .ok () s' := by
  unfold start
  show ∃ s', (if (s.world.files s.journal.journalName).fileExists = true then throw Exn.cannotStart
    else modify _ : JournalM Unit) s = .ok () s'
  rw [h]
  exact ⟨_, rfl⟩

theorem length_fileBytes (s : Stored) : (fileBytes s).length = s.size.getD 0 :=
  length_segment _ _ _

/-- The journal never blocks the start where it is absent, or can be written back: its head is
there with no byte above 127 in the length, and where it is confirmed the data file takes the length
and every record. -/
theorem neverBlocks_iff (hne : journalName name ≠ name)
    (hlt : (stored (journalName name)).size.getD 0 < maxSize) :
    NeverBlocks stored name ↔ (stored (journalName name)).size = none ∨
      Replays (fileBytes (stored (journalName name)))
        (PageTable.ofStored (stored name)).shape := by
  obtain ⟨hworld, hjournal⟩ := world_created stored name
  have hstarts : ((created stored name).world.files (journalName name)).fileExists = false →
      ∃ s, start (created stored name) = .ok () s := by
    intro habsent
    refine start_of_absent ?_
    rw [hjournal]
    exact habsent
  cases hsize : (stored (journalName name)).size with
  | none =>
    have hgone : ((created stored name).world.files (journalName name)).fileExists = false := by
      rw [hworld, rollback_none hsize]
      show (stored (journalName name)).size.isSome = false
      rw [hsize]
      rfl
    refine iff_of_true ⟨hgone, hstarts hgone, ?_⟩ (.inl rfl)
    intro _
    rw [hworld, rollback_none hsize]
    rfl
  | some n =>
    have hlength : (fileBytes (stored (journalName name))).length = n := by
      rw [length_fileBytes, hsize]
      rfl
    rw [← length_fileBytes] at hlt
    have hsize' : (stored (journalName name)).size =
        some (fileBytes (stored (journalName name))).length := by rw [hlength, hsize]
    obtain ⟨hiff, huntouched⟩ := rollback_any hne hsize' hlt
      (by rw [hlength, fileBytes, hsize]; rfl)
    rw [← hworld] at hiff huntouched
    constructor
    · exact fun h => .inr (hiff.mp h.absent)
    · rintro (hnone | hreplays)
      · cases hnone
      · have hgone := hiff.mpr hreplays
        exact ⟨hgone, hstarts hgone, huntouched⟩

/-- A store with one journal, all zeros, of the given length. -/
def zeros (n : Nat) : String → Stored := fun name =>
  if name = "db.journal" then ⟨some n, fun _ => none⟩ else ⟨none, fun _ => none⟩

/-- A journal whose head is not confirmed does not block. -/
theorem neverBlocks_iff_unconfirmed : journalName "db.data" ≠ "db.data" ∧
    NeverBlocks (zeros 9) "db.data" := by
  have hne : journalName "db.data" ≠ "db.data" := by decide
  have hjournal : zeros 9 (journalName "db.data") = ⟨some 9, fun _ => none⟩ := by
    rw [show journalName "db.data" = "db.journal" by decide]
    rfl
  have hbytes : fileBytes ⟨some 9, fun _ => none⟩ = List.replicate 9 0 := by rfl
  refine ⟨hne, (neverBlocks_iff hne ?_).mpr (.inr ?_)⟩
  · rw [hjournal]
    decide
  · rw [hjournal, hbytes]
    exact ⟨0, by decide, fun h => absurd h (by decide)⟩

/-- An empty journal file stays, and no journal can be started any more. -/
theorem empty_journal_blocks : ¬NeverBlocks (zeros 0) "db.data" := by
  intro h
  have hne : journalName "db.data" ≠ "db.data" := by decide
  have hjournal : zeros 0 (journalName "db.data") = ⟨some 0, fun _ => none⟩ := by
    rw [show journalName "db.data" = "db.journal" by decide]
    rfl
  have hsize : (zeros 0 (journalName "db.data")).size = some ([] : List UInt8).length := by
    rw [hjournal]
    rfl
  have hblocked := (rollback_any hne hsize (by decide) rfl).1.mp ((world_created _ _).1 ▸ h.absent)
  obtain ⟨size, hsize, -⟩ := hblocked
  cases hsize

end Start

end Rhodes.JournalStart
