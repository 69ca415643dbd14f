import Mathlib.Data.List.Forall2
import Rhodes.Cut

/-!
The version file of the database, in C++ and in Java. A check of the framework's and the
application's version wipes the database and writes the file where the file holds another
version. Java reads twenty bytes of the file and writes over its old content without cutting it.
-/
namespace Rhodes.DbVersion

open Cut

/-- `DBVersion`, over the units of a string. -/
@[ext]
structure DBVersion (α : Type) where
  rhoVer : List α
  appVer : List α
deriving DecidableEq

/-- The version file and what a reset deletes. -/
structure Storage where
  version : Option (List UInt8)
  database : List (List UInt8)
  blobs : List (List UInt8)
deriving DecidableEq

section Check

variable {α : Type} [DecidableEq α]

/-- The part of `readDBVersion` after the file is read: the cut at the first separator. -/
def versionOf (sep : α) (fullVer : List α) : DBVersion α :=
  if fullVer = [] then ⟨[], []⟩
  else if sep ∈ fullVer then
    ⟨fullVer.takeWhile (fun c => c ≠ sep), (fullVer.dropWhile (fun c => c ≠ sep)).tail⟩
  else ⟨fullVer, []⟩

/-- `checkDBVersion` of a platform that compares, reads and writes versions in its own way. The
first component says whether the database was reset. -/
def checkDBVersionBy (same : List α → List α → Bool) (read : Option (List UInt8) → DBVersion α)
    (write : DBVersion α → Option (List UInt8) → List UInt8) (ver : DBVersion α) (s : Storage) :
    Bool × Storage :=
  let dbVer := read s.version
  if (ver.rhoVer ≠ [] ∧ same dbVer.rhoVer ver.rhoVer = false) ∨
      (ver.appVer ≠ [] ∧ same dbVer.appVer ver.appVer = false) then
    (true, { version := some (write ver s.version), database := [], blobs := [] })
  else (false, s)

end Check

namespace Cpp

def readDBVersion (file : Option (List UInt8)) : DBVersion UInt8 :=
  match file with
  | none => ⟨[], []⟩
  | some fullVer => versionOf 59 fullVer

/-- The file is opened with `wb`, so the old content is gone. -/
def writeDBVersion (ver : DBVersion UInt8) (_file : Option (List UInt8)) : List UInt8 :=
  ver.rhoVer ++ 59 :: ver.appVer

def checkDBVersion (ver : DBVersion UInt8) (s : Storage) : Bool × Storage :=
  checkDBVersionBy (fun x y => decide (x = y)) readDBVersion writeDBVersion ver s

end Cpp

/-- What Java's strings and the default charset provide. -/
structure Platform where
  getBytes : List UInt16 → List UInt8
  newString : List UInt8 → List UInt16
  /-- Two characters are the same up to case. -/
  alike : UInt16 → UInt16 → Bool
  newString_nil : newString [] = []
  alike_self : ∀ c, alike c c = true
  alike_nul : ∀ c, alike 0 c = true → c = 0

namespace Java

variable (j : Platform)

def equalsIgnoreCase : List UInt16 → List UInt16 → Bool
  | [], [] => true
  | c :: cs, d :: ds => j.alike c d && equalsIgnoreCase cs ds
  | _, _ => false

/-- A file that cannot be opened raises, and the exception is caught. -/
def readDBVersion (file : Option (List UInt8)) : DBVersion UInt16 :=
  match file with
  | none => ⟨[], []⟩
  | some bytes =>
    let buf := bytes.take 20
    versionOf 59 (if buf = [] then [] else j.newString buf)

/-- The text `rhoVer;appVer`. -/
def fullVersion (ver : DBVersion UInt16) : List UInt16 := ver.rhoVer ++ 59 :: ver.appVer

/-- The file is opened with `rw` and written from its start; what is behind stays. -/
def writeDBVersion (ver : DBVersion UInt16) (file : Option (List UInt8)) : List UInt8 :=
  let buf := j.getBytes (fullVersion ver)
  buf ++ (file.getD []).drop buf.length

def checkDBVersion (ver : DBVersion UInt16) (s : Storage) : Bool × Storage :=
  checkDBVersionBy (equalsIgnoreCase j) (readDBVersion j) (writeDBVersion j) ver s

end Java

section Law

variable {α : Type}

/-- Two non-empty versions without a NUL. -/
structure Proper [OfNat α 0] (ver : DBVersion α) : Prop where
  rhoVer : ver.rhoVer ≠ [] ∧ 0 ∉ ver.rhoVer
  appVer : ver.appVer ≠ [] ∧ 0 ∉ ver.appVer

/-- The storages that follow after a check with a version: it is checked again, or the
application works with its database. -/
inductive Later (check : DBVersion α → Storage → Bool × Storage) (ver : DBVersion α)
    (start : Storage) : Storage → Prop
  | start : Later check ver start start
  | checked {s : Storage} : Later check ver start s → Later check ver start (check ver s).2
  | worked {s : Storage} (database blobs : List (List UInt8)) : Later check ver start s →
      Later check ver start { s with database := database, blobs := blobs }

/-- From there on the same version never resets, and every other one does. -/
structure ResetsOnChange [OfNat α 0] (check : DBVersion α → Storage → Bool × Storage)
    (ver : DBVersion α) (start : Storage) : Prop where
  same : ∀ s, Later check ver start s → (check ver s).1 = false
  other : ∀ s, Later check ver start s → ∀ ver', Proper ver' → ver' ≠ ver →
    (check ver' s).1 = true

variable {same : List α → List α → Bool} {read : Option (List UInt8) → DBVersion α}
  {write : DBVersion α → Option (List UInt8) → List UInt8}

theorem check_reset {ver : DBVersion α} {s : Storage}
    (h : (checkDBVersionBy same read write ver s).1 = true) :
    (checkDBVersionBy same read write ver s).2.version = some (write ver s.version) := by
  unfold checkDBVersionBy at h ⊢
  dsimp only at h ⊢
  split at h
  · rename_i hreset
    rw [if_pos hreset]
  · cases h

theorem check_eq_false {ver : DBVersion α} {s : Storage}
    (h : (checkDBVersionBy same read write ver s).1 = false) :
    (checkDBVersionBy same read write ver s).2 = s := by
  unfold checkDBVersionBy at h ⊢
  dsimp only at h ⊢
  split at h
  · cases h
  · rename_i hkept
    rw [if_neg hkept]

/-- A proper version is not reset where the file's version passes for it. -/
theorem check_eq_false_iff [OfNat α 0] {ver : DBVersion α} (hver : Proper ver) (s : Storage) :
    (checkDBVersionBy same read write ver s).1 = false ↔
      same (read s.version).rhoVer ver.rhoVer = true ∧
        same (read s.version).appVer ver.appVer = true := by
  unfold checkDBVersionBy
  dsimp only
  split
  · rename_i hreset
    simp only [Bool.true_eq_false, false_iff]
    rintro ⟨hrho, happ⟩
    rw [hrho, happ] at hreset
    simp at hreset
  · rename_i hkept
    simp only [true_iff]
    constructor
    · by_contra hrho
      exact hkept (.inl ⟨hver.rhoVer.1, Bool.eq_false_iff.mpr hrho⟩)
    · by_contra happ
      exact hkept (.inr ⟨hver.appVer.1, Bool.eq_false_iff.mpr happ⟩)

/-- As long as the same version is not reset, the file stays. -/
theorem later_version {ver : DBVersion α} {start : Storage} {s : Storage}
    (hkept : ∀ t : Storage, t.version = start.version →
      (checkDBVersionBy same read write ver t).1 = false)
    (h : Later (checkDBVersionBy same read write) ver start s) : s.version = start.version := by
  induction h with
  | start => rfl
  | checked _ ih => rw [check_eq_false (hkept _ ih), ih]
  | worked _ _ _ ih => exact ih

variable (same read write) in
/-- The law in terms of the version that the file gives. -/
theorem resetsOnChange_iff [OfNat α 0] {ver : DBVersion α} (hver : Proper ver)
    {start : Storage} {dbVer : DBVersion α} (hread : read start.version = dbVer) :
    ResetsOnChange (checkDBVersionBy same read write) ver start ↔
      (same dbVer.rhoVer ver.rhoVer = true ∧ same dbVer.appVer ver.appVer = true) ∧
      ∀ ver', Proper ver' → same dbVer.rhoVer ver'.rhoVer = true →
        same dbVer.appVer ver'.appVer = true → ver' = ver := by
  constructor
  · intro h
    refine ⟨?_, ?_⟩
    · rw [← hread]
      exact (check_eq_false_iff hver start).mp (h.same start .start)
    · intro ver' hver' hrho happ
      by_contra hne
      have htrue := h.other start .start ver' hver' hne
      rw [← hread] at hrho happ
      rw [(check_eq_false_iff hver' start).mpr ⟨hrho, happ⟩] at htrue
      cases htrue
  · rintro ⟨hsame, hother⟩
    have hkept : ∀ t : Storage, t.version = start.version →
        (checkDBVersionBy same read write ver t).1 = false := by
      intro t ht
      rw [check_eq_false_iff hver, ht, hread]
      exact hsame
    refine ⟨?_, ?_⟩
    · intro s hs
      exact hkept s (later_version hkept hs)
    · intro s hs ver' hver' hne
      rw [← Bool.not_eq_false]
      intro hfalse
      rw [check_eq_false_iff hver', later_version hkept hs, hread] at hfalse
      exact hne (hother ver' hver' hfalse.1 hfalse.2)

end Law

section Split

variable {α : Type} [DecidableEq α] {sep : α}

/-- A text is cut into two given parts, the second one not empty, just where it is the two
around a separator that the first one does not have. -/
theorem versionOf_eq_iff {fullVer : List α} {ver : DBVersion α} (happ : ver.appVer ≠ []) :
    versionOf sep fullVer = ver ↔
      fullVer = ver.rhoVer ++ sep :: ver.appVer ∧ sep ∉ ver.rhoVer := by
  constructor
  · intro h
    unfold versionOf at h
    split_ifs at h with hempty hmem
    · exact absurd (congrArg DBVersion.appVer h).symm happ
    · rw [← h]
      exact ⟨cut_of_mem hmem, not_mem_takeWhile sep fullVer⟩
    · exact absurd (congrArg DBVersion.appVer h).symm happ
  · rintro ⟨rfl, hrho⟩
    unfold versionOf
    rw [if_neg (by simp), if_pos (by simp), takeWhile_upTo hrho, dropWhile_upTo hrho]
    rfl

end Split

section Cpp

/-- The C++ law: the file holds the version again just where the framework's part has no
separator. -/
theorem cpp_resetsOnChange_iff {ver : DBVersion UInt8} (hver : Proper ver) {s : Storage}
    (hreset : (Cpp.checkDBVersion ver s).1 = true) :
    ResetsOnChange Cpp.checkDBVersion ver (Cpp.checkDBVersion ver s).2 ↔ 59 ∉ ver.rhoVer := by
  have hread : Cpp.readDBVersion (Cpp.checkDBVersion ver s).2.version =
      versionOf 59 (ver.rhoVer ++ 59 :: ver.appVer) := by
    unfold Cpp.checkDBVersion at hreset ⊢
    rw [check_reset hreset]
    rfl
  have hlaw := resetsOnChange_iff (fun x y => decide (x = y)) Cpp.readDBVersion
    Cpp.writeDBVersion hver hread
  refine hlaw.trans ?_
  simp only [decide_eq_true_eq]
  constructor
  · rintro ⟨⟨hrho, happ⟩, -⟩
    exact ((versionOf_eq_iff hver.appVer.1).mp (DBVersion.ext hrho happ)).2
  · intro hsep
    rw [(versionOf_eq_iff hver.appVer.1).mpr ⟨rfl, hsep⟩]
    refine ⟨⟨rfl, rfl⟩, ?_⟩
    intro ver' _ hrho happ
    exact DBVersion.ext hrho.symm happ.symm

end Cpp

section Case

open Java

variable {j : Platform}

/-- A character that is the same as no other one but a NUL. -/
def Caseless (j : Platform) (c : UInt16) : Prop := ∀ d, d ≠ 0 → j.alike c d = true → d = c

theorem equalsIgnoreCase_cons {c d : UInt16} {xs ys : List UInt16} :
    equalsIgnoreCase j (c :: xs) (d :: ys) = true ↔
      j.alike c d = true ∧ equalsIgnoreCase j xs ys = true := by
  rw [equalsIgnoreCase, Bool.and_eq_true]

theorem equalsIgnoreCase_self (xs : List UInt16) : equalsIgnoreCase j xs xs = true := by
  induction xs with
  | nil => rfl
  | cons c xs ih => exact equalsIgnoreCase_cons.mpr ⟨j.alike_self c, ih⟩

theorem equalsIgnoreCase_nil {xs : List UInt16} (h : equalsIgnoreCase j [] xs = true) :
    xs = [] := by
  cases xs with
  | nil => rfl
  | cons d xs => cases h

/-- What equals a text without a NUL has none either. -/
theorem nul_not_mem {xs ys : List UInt16} (h : equalsIgnoreCase j xs ys = true) (hys : 0 ∉ ys) :
    0 ∉ xs := by
  induction xs generalizing ys with
  | nil => exact List.not_mem_nil
  | cons c xs ih =>
    cases ys with
    | nil => cases h
    | cons d ys =>
      obtain ⟨hhead, htail⟩ := equalsIgnoreCase_cons.mp h
      simp only [List.mem_cons, not_or] at hys ⊢
      refine ⟨?_, ih htail hys.2⟩
      rintro rfl
      exact hys.1 (j.alike_nul d hhead).symm

/-- A text of caseless characters equals itself only. -/
theorem eq_of_caseless {xs ys : List UInt16} (hxs : ∀ c ∈ xs, Caseless j c) (hys : 0 ∉ ys)
    (h : equalsIgnoreCase j xs ys = true) : ys = xs := by
  induction xs generalizing ys with
  | nil => exact equalsIgnoreCase_nil h
  | cons c xs ih =>
    cases ys with
    | nil => cases h
    | cons d ys =>
      obtain ⟨hhead, htail⟩ := equalsIgnoreCase_cons.mp h
      simp only [List.mem_cons, not_or] at hys
      have hd := hxs c List.mem_cons_self d (fun hnul => hys.1 hnul.symm) hhead
      have hrest := ih (fun e he => hxs e (List.mem_cons_of_mem c he)) hys.2 htail
      rw [hd, hrest]

/-- Where a text equals no other one, its characters are caseless: another one in the place of
such a character gives a text that is equal too. -/
theorem caseless_of_unique {xs : List UInt16} (hnul : 0 ∉ xs)
    (hunique : ∀ ys, ys ≠ [] → 0 ∉ ys → equalsIgnoreCase j xs ys = true → ys = xs) :
    ∀ c ∈ xs, Caseless j c := by
  intro c hc d hd halike
  obtain ⟨front, back, rfl⟩ := List.append_of_mem hc
  have hequal : ∀ front : List UInt16,
      equalsIgnoreCase j (front ++ c :: back) (front ++ d :: back) = true := by
    intro front
    induction front with
    | nil => exact equalsIgnoreCase_cons.mpr ⟨halike, equalsIgnoreCase_self back⟩
    | cons e front ih => exact equalsIgnoreCase_cons.mpr ⟨j.alike_self e, ih⟩
  have hzero : 0 ∉ front ++ d :: back := by
    simp only [List.mem_append, List.mem_cons, not_or] at hnul ⊢
    exact ⟨hnul.1, fun h => hd h.symm, hnul.2.2⟩
  have heq := hunique (front ++ d :: back) (by simp) hzero (hequal front)
  have hcons := List.append_cancel_left heq
  exact (List.cons.inj hcons).1

/-- A version that is equal, and whose equals are one version, is that version, and no character
of it has another case. -/
theorem unique_iff {dbVer ver : DBVersion UInt16} (hver : Proper ver) :
    ((equalsIgnoreCase j dbVer.rhoVer ver.rhoVer = true ∧
        equalsIgnoreCase j dbVer.appVer ver.appVer = true) ∧
      ∀ ver', Proper ver' → equalsIgnoreCase j dbVer.rhoVer ver'.rhoVer = true →
        equalsIgnoreCase j dbVer.appVer ver'.appVer = true → ver' = ver) ↔
      dbVer = ver ∧ ∀ c ∈ ver.rhoVer ++ ver.appVer, Caseless j c := by
  constructor
  · rintro ⟨⟨hrho, happ⟩, hunique⟩
    have hnonempty : ∀ {xs ys : List UInt16}, equalsIgnoreCase j xs ys = true → ys ≠ [] →
        xs ≠ [] := by
      rintro xs ys hequal hys rfl
      exact hys (equalsIgnoreCase_nil hequal)
    have hproper : Proper dbVer :=
      ⟨⟨hnonempty hrho hver.rhoVer.1, nul_not_mem hrho hver.rhoVer.2⟩,
        ⟨hnonempty happ hver.appVer.1, nul_not_mem happ hver.appVer.2⟩⟩
    have heq := hunique dbVer hproper (equalsIgnoreCase_self _) (equalsIgnoreCase_self _)
    subst heq
    refine ⟨rfl, ?_⟩
    intro c hc
    rcases List.mem_append.mp hc with hc | hc
    · refine caseless_of_unique hver.rhoVer.2 ?_ c hc
      intro ys hne hnul hequal
      exact congrArg DBVersion.rhoVer
        (hunique ⟨ys, dbVer.appVer⟩ ⟨⟨hne, hnul⟩, hver.appVer⟩ hequal (equalsIgnoreCase_self _))
    · refine caseless_of_unique hver.appVer.2 ?_ c hc
      intro ys hne hnul hequal
      exact congrArg DBVersion.appVer
        (hunique ⟨dbVer.rhoVer, ys⟩ ⟨hver.rhoVer, ⟨hne, hnul⟩⟩ (equalsIgnoreCase_self _) hequal)
  · rintro ⟨rfl, hcase⟩
    refine ⟨⟨equalsIgnoreCase_self _, equalsIgnoreCase_self _⟩, ?_⟩
    intro ver' hver' hrho happ
    refine DBVersion.ext ?_ ?_
    · exact eq_of_caseless (fun c hc => hcase c (List.mem_append_left _ hc)) hver'.rhoVer.2 hrho
    · exact eq_of_caseless (fun c hc => hcase c (List.mem_append_right _ hc)) hver'.appVer.2 happ

end Case

namespace Java

variable {j : Platform}

/-- No other bytes than its own are read as the text. -/
def OneReading (j : Platform) (text : List UInt16) : Prop :=
  ∀ bytes, j.newString bytes = text → bytes = j.getBytes text

/-- The version can be read back after it is written over a file: there is one separator to cut
at, the charset has all characters, the twenty bytes are enough, nothing of the old content is
left within them, and no character has another case. -/
structure Fits (j : Platform) (ver : DBVersion UInt16) (file : Option (List UInt8)) : Prop where
  separator : 59 ∉ ver.rhoVer
  encoded : j.newString (j.getBytes (fullVersion ver)) = fullVersion ver
  short : (j.getBytes (fullVersion ver)).length ≤ 20
  covers : (j.getBytes (fullVersion ver)).length = 20 ∨
    (file.getD []).length ≤ (j.getBytes (fullVersion ver)).length
  caseless : ∀ c ∈ ver.rhoVer ++ ver.appVer, Caseless j c

/-- The first bytes of an overwritten file are the new content just where it is short enough and
fills them or covers the old one. -/
theorem take_overlay_iff {β : Type} {buf old : List β} {n : ℕ} :
    (buf ++ old.drop buf.length).take n = buf ↔
      buf.length ≤ n ∧ (buf.length = n ∨ old.length ≤ buf.length) := by
  constructor
  · intro h
    have hlen := congrArg List.length h
    rw [List.length_take, List.length_append, List.length_drop] at hlen
    omega
  · rintro ⟨hle, hfull | hcover⟩
    · rw [← hfull, List.take_left]
    · rw [List.drop_eq_nil_of_le hcover, List.append_nil, List.take_of_length_le hle]

/-- What is read after the version is written is the version itself just where it can be read
back up to the case of its characters. -/
theorem readDBVersion_write_iff {ver : DBVersion UInt16} (hver : Proper ver)
    (hone : OneReading j (fullVersion ver)) (file : Option (List UInt8)) :
    readDBVersion j (some (writeDBVersion j ver file)) = ver ↔
      59 ∉ ver.rhoVer ∧ j.newString (j.getBytes (fullVersion ver)) = fullVersion ver ∧
      (j.getBytes (fullVersion ver)).length ≤ 20 ∧
      ((j.getBytes (fullVersion ver)).length = 20 ∨
        (file.getD []).length ≤ (j.getBytes (fullVersion ver)).length) := by
  have hread : ∀ buf : List UInt8,
      (if buf = [] then [] else j.newString buf) = fullVersion ver ↔
        buf = j.getBytes (fullVersion ver) ∧
          j.newString (j.getBytes (fullVersion ver)) = fullVersion ver := by
    intro buf
    have hnil : (if buf = [] then [] else j.newString buf) = j.newString buf := by
      split
      · rename_i hempty
        rw [hempty, j.newString_nil]
      · rfl
    rw [hnil]
    constructor
    · intro h
      have hbuf := hone buf h
      exact ⟨hbuf, hbuf ▸ h⟩
    · rintro ⟨rfl, h⟩
      exact h
  refine (versionOf_eq_iff hver.appVer.1).trans ?_
  change (_ = fullVersion ver ∧ _) ↔ _
  rw [hread]
  change (((j.getBytes (fullVersion ver) ++ _).take 20 = _ ∧ _) ∧ _) ↔ _
  rw [take_overlay_iff]
  tauto

/-- The Java law. -/
theorem resetsOnChange_iff {ver : DBVersion UInt16} (hver : Proper ver)
    (hone : OneReading j (fullVersion ver)) {s : Storage}
    (hreset : (checkDBVersion j ver s).1 = true) :
    ResetsOnChange (checkDBVersion j) ver (checkDBVersion j ver s).2 ↔ Fits j ver s.version := by
  have hversion : (checkDBVersion j ver s).2.version = some (writeDBVersion j ver s.version) :=
    check_reset hreset
  have hlaw := DbVersion.resetsOnChange_iff (equalsIgnoreCase j) (readDBVersion j)
    (writeDBVersion j) hver (congrArg (readDBVersion j) hversion)
  refine hlaw.trans ?_
  rw [unique_iff hver, readDBVersion_write_iff hver hone]
  constructor
  · rintro ⟨⟨hsep, hencoded, hshort, hcovers⟩, hcase⟩
    exact ⟨hsep, hencoded, hshort, hcovers, hcase⟩
  · intro h
    exact ⟨⟨h.separator, h.encoded, h.short, h.covers⟩, h.caseless⟩

end Java

/-- Exactly when the database is reset only where a version changes: the C++ file needs a
framework version without a separator, the Java file one that fits. -/
theorem resets_on_change_iff (j : Platform) :
    (∀ ver s, Proper ver → (Cpp.checkDBVersion ver s).1 = true →
      (ResetsOnChange Cpp.checkDBVersion ver (Cpp.checkDBVersion ver s).2 ↔ 59 ∉ ver.rhoVer)) ∧
    (∀ ver s, Proper ver → Java.OneReading j (Java.fullVersion ver) →
      (Java.checkDBVersion j ver s).1 = true →
      (ResetsOnChange (Java.checkDBVersion j) ver (Java.checkDBVersion j ver s).2 ↔
        Java.Fits j ver s.version)) :=
  ⟨fun _ _ hver hreset => cpp_resetsOnChange_iff hver hreset,
    fun _ _ hver hone hreset => Java.resetsOnChange_iff hver hone hreset⟩

theorem toNat_lower {c : UInt16} (h : c ≤ 90) : (c + 32).toNat = c.toNat + 32 := by
  rw [UInt16.toNat_add]
  have hle : c.toNat ≤ 90 := UInt16.le_iff_toNat_le.mp h
  exact Nat.mod_eq_of_lt (by change c.toNat + 32 < 65536; omega)

/-- ISO-8859-1, with the case of the letters of ASCII. -/
def latin1 : Platform where
  getBytes text := text.map (fun c => if c < 256 then c.toUInt8 else 63)
  newString bytes := bytes.map UInt8.toUInt16
  alike c d := c = d ∨ (65 ≤ c ∧ c ≤ 90 ∧ d = c + 32) ∨ (65 ≤ d ∧ d ≤ 90 ∧ c = d + 32)
  newString_nil := rfl
  alike_self c := by simp
  alike_nul c h := by
    simp only [decide_eq_true_eq] at h
    rcases h with rfl | ⟨h, -⟩ | ⟨hlo, hhi, h⟩
    · rfl
    · exact absurd h (by decide)
    · exact absurd (h ▸ toNat_lower hhi : (0 : UInt16).toNat = c.toNat + 32) (by simp)

/-- Version 1 of the framework and version 2 of the application. -/
def oneTwo {α : Type} [OfNat α 49] [OfNat α 50] : DBVersion α := ⟨[49], [50]⟩

theorem resets_on_change_iff_fresh :
    ResetsOnChange Cpp.checkDBVersion oneTwo (Cpp.checkDBVersion oneTwo ⟨none, [], []⟩).2 ∧
    ResetsOnChange (Java.checkDBVersion latin1) oneTwo
      (Java.checkDBVersion latin1 oneTwo ⟨none, [], []⟩).2 := by
  obtain ⟨hcpp, hjava⟩ := resets_on_change_iff latin1
  refine ⟨(hcpp oneTwo _ ⟨by decide, by decide⟩ (by decide)).mpr (by decide), ?_⟩
  refine (hjava oneTwo _ ⟨by decide, by decide⟩ ?_ (by decide)).mpr ?_
  · intro bytes h
    have hback : ∀ bytes, (latin1.newString bytes).map UInt16.toUInt8 = bytes := by
      intro bytes
      simp [latin1, Function.comp_def]
    rw [← hback bytes, h]
    decide
  · refine ⟨by decide, by decide, by decide, by decide, ?_⟩
    intro c hc d _ halike
    have hc : c = 49 ∨ c = 50 := by simpa [oneTwo] using hc
    simp only [latin1, decide_eq_true_eq] at halike
    rcases halike with rfl | ⟨hlo, -⟩ | ⟨hlo, hhi, heq⟩
    · rfl
    · rcases hc with rfl | rfl <;> exact absurd hlo (by decide)
    · have hsum : c.toNat = d.toNat + 32 := heq ▸ toNat_lower hhi
      have hge : 65 ≤ d.toNat := UInt16.le_iff_toNat_le.mp hlo
      rcases hc with rfl | rfl <;> exact absurd hsum (by simp; omega)

/-- A longer version that was written before leaves its end behind in Java, and a separator in
the framework's version moves the cut: both are reset at every start. -/
theorem resets_at_every_start :
    let longer := some (Java.writeDBVersion latin1 ⟨[49], [50, 46, 49]⟩ none)
    ((Java.checkDBVersion latin1 oneTwo ⟨longer, [], []⟩).1 = true ∧
      ¬ResetsOnChange (Java.checkDBVersion latin1) oneTwo
        (Java.checkDBVersion latin1 oneTwo ⟨longer, [], []⟩).2) ∧
    ((Cpp.checkDBVersion ⟨[49, 59], [50]⟩ ⟨none, [], []⟩).1 = true ∧
      ¬ResetsOnChange Cpp.checkDBVersion ⟨[49, 59], [50]⟩
        (Cpp.checkDBVersion ⟨[49, 59], [50]⟩ ⟨none, [], []⟩).2) := by
  refine ⟨⟨by decide, ?_⟩, by decide, ?_⟩
  · intro h
    have hkept := h.same _ .start
    revert hkept
    decide
  · intro h
    have hkept := h.same _ .start
    revert hkept
    decide

end Rhodes.DbVersion
