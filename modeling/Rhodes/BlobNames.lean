import Rhodes.Cut
import Rhodes.ServerChanges

/-!
makeFileName of SyncSource.cpp with its buffer of 20 bytes, and the file that downloadBlob writes.
A text has one character for each byte here, and a pointer is the text from there on. The name is
as it has to be where the extension that the URL names fits the buffer and has no slash and no
two dots.
-/
namespace Rhodes.BlobNames

open Cut ServerChanges

abbrev Text := List Char

def nul : Char := '\x00'

/-- `char szExt[20]` -/
abbrev Buffer := { bytes : Text // bytes.length = 20 }

namespace Buffer

/-- Bytes written from the start of the buffer on; `none` where they do not fit. -/
def write (b : Buffer) (bytes : Text) : Option Buffer :=
  if h : bytes.length ≤ 20 then
    some ⟨bytes ++ b.1.drop bytes.length, by
      rw [List.length_append, List.length_drop, b.2]
      omega⟩
  else none

/-- `szExt[n] = 0` -/
def setNul (b : Buffer) (n : Nat) : Option Buffer :=
  if n < 20 then some ⟨b.1.set n nul, by rw [List.length_set, b.2]⟩ else none

/-- The text that the buffer holds. -/
def text (b : Buffer) : Text := b.1.takeWhile (fun c => c ≠ nul)

end Buffer

def strcpy (b : Buffer) (src : Text) : Option Buffer := b.write (src ++ [nul])

/-- strncpy fills up with NUL. -/
def strncpy (b : Buffer) (src : Text) (n : Nat) : Option Buffer :=
  b.write (src.take n ++ List.replicate (n - src.length) nul)

/-- strncpy and the NUL that is set behind it. -/
def copyPart (b : Buffer) (src : Text) (n : Nat) : Option Buffer :=
  (strncpy b src n).bind (fun b => b.setNul n)

def strchr (s : Text) (c : Char) : Option Text :=
  match s.dropWhile (fun d => d ≠ c) with
  | [] => none
  | found => some found

def strrchr : Text → Char → Option Text
  | [], _ => none
  | d :: s, c => match strrchr s c with
    | some found => some found
    | none => if d = c then some (d :: s) else none

/-- The difference of two pointers as an int. -/
def intOf (n : Nat) : Int := (n : Int).bmod (2 ^ 32)

/-- The extension parameter of the query; a negative nExtLen is a count that no buffer has. -/
def namedExt (szExt : Buffer) (quest : Text) : Option Buffer :=
  match strstr "extension=".toList quest with
  | none => some szExt
  | some extStart => match strstr "&".toList extStart with
    | some extEnd =>
      let nExtLen := intOf (extStart.length - 10 - extEnd.length)
      if nExtLen < 0 then none else copyPart szExt (extStart.drop 10) nExtLen.toNat
    | none => strcpy szExt (extStart.drop 10)

/-- The extension from the last dot on; `quest>dot` compares the pointers. -/
def dottedExt (szExt : Buffer) (url : Text) (quest : Option Text) : Option Buffer :=
  match strrchr url '.' with
  | none => some szExt
  | some dot => match quest with
    | some quest =>
      if quest.length < dot.length then copyPart szExt dot (dot.length - quest.length)
      else some szExt
    | none => strcpy szExt dot

/-- The fields of CValue; a text ends at its first NUL. -/
structure CValue where
  value : Text
  attrType : Text
  id : UInt64

def CValue.url (v : CValue) : Text := v.value.takeWhile (fun c => c ≠ nul)

def decimal (id : UInt64) : Text := (toString id.toNat).toList

def queryExt (szExt : Buffer) (url : Text) : Option Buffer :=
  match strchr url '?' with
  | some quest => namedExt szExt quest
  | none => some szExt

/-- `if ( !szExt[0] )` -/
def pathExt (szExt : Buffer) (url : Text) : Option Buffer :=
  if szExt.text = [] then dottedExt szExt url (strchr url '?') else some szExt

/-- `none` where a byte is written behind the buffer; szExt is what the buffer holds before. -/
def makeFileName (folder : Text) (szExt : Buffer) (v : CValue) : Option Text := do
  let szExt ← szExt.setNul 0
  let szExt ← queryExt szExt v.url
  let szExt ← pathExt szExt v.url
  let strExt := if szExt.text = [] then ".bin".toList else szExt.text
  some (folder ++ "/id_".toList ++ decimal v.id ++ strExt)

/-- What downloadBlob does before it has a response. -/
inductive Download where
  | kept
  | overrun
  | pulls (url fName : Text)

def downloadBlob (folder : Text) (szExt : Buffer) (clientId : Text) (v : CValue) : Download :=
  if v.attrType ≠ "blob.url".toList then .kept
  else match makeFileName folder szExt v with
    | none => .overrun
    | some fName =>
      .pulls (v.value ++ (if '?' ∈ v.url then "&".toList else "?".toList) ++
        "client_id=".toList ++ clientId) fName

section Extensions

/-- The text of the URL behind "extension=". -/
def parameter (url : Text) : Option Text :=
  (strstr "extension=".toList (url.dropWhile (fun c => c ≠ '?'))).map (fun ext => ext.drop 10)

/-- The extension parameter up to the next ampersand. -/
def namedText (url : Text) : Text :=
  match parameter url with
  | none => []
  | some rest =>
    if '&' ∈ rest then
      rest.take (intOf (rest.takeWhile (fun c => c ≠ '&')).length).toNat
    else rest

/-- The path of the URL from its last dot on, if no dot comes behind the path. -/
def dottedText (url : Text) : Text :=
  if '.' ∈ url.dropWhile (fun c => c ≠ '?') then []
  else (strrchr (url.takeWhile (fun c => c ≠ '?')) '.').getD []

/-- The extension that a URL names. -/
def extension (url : Text) : Text :=
  if namedText url ≠ [] then namedText url
  else if dottedText url ≠ [] then dottedText url
  else ".bin".toList

/-- The extension parameter fits the buffer, with a NUL behind it. -/
def ParameterFits (url : Text) : Prop :=
  ∀ rest ∈ parameter url,
    if '&' ∈ rest then
      0 ≤ intOf (rest.takeWhile (fun c => c ≠ '&')).length ∧
        intOf (rest.takeWhile (fun c => c ≠ '&')).length < 20
    else rest.length < 20

/-- So does the extension behind a dot, where it is used. -/
def Fits (url : Text) : Prop :=
  ParameterFits url ∧ (namedText url = [] → (dottedText url).length < 20)

instance (url : Text) : Decidable (Fits url) :=
  inferInstanceAs (Decidable ((∀ rest ∈ parameter url, _) ∧ (_ → _)))

end Extensions

section Buffers

variable {b : Buffer} {s : Text} {n : Nat}

theorem text_of_nul {bytes : Text} (hbytes : bytes.length = 20) {pad : Text} (hs : nul ∉ s)
    (h : bytes = s ++ nul :: pad) : Buffer.text ⟨bytes, hbytes⟩ = s := by
  unfold Buffer.text
  dsimp only
  rw [h]
  exact takeWhile_upTo hs pad

/-- A text goes into the buffer where it is shorter. -/
theorem strcpy_cases (b : Buffer) (hs : nul ∉ s) :
    (20 ≤ s.length ∧ strcpy b s = none) ∨
      (s.length < 20 ∧ ∃ b', strcpy b s = some b' ∧ b'.text = s) := by
  have hbytes : (s ++ [nul]).length = s.length + 1 := by simp
  unfold strcpy Buffer.write
  by_cases hlen : s.length < 20
  · refine Or.inr ⟨hlen, ?_⟩
    rw [dif_pos (by omega)]
    exact ⟨_, rfl, text_of_nul _ hs (List.append_assoc ..)⟩
  · exact Or.inl ⟨by omega, dif_neg (by omega)⟩

theorem set_behind {front back : Text} (hlen : front.length = n) (hback : back ≠ []) (c : Char) :
    (front ++ back).set n c = front ++ c :: back.tail := by
  obtain ⟨d, rest, rfl⟩ := List.exists_cons_of_ne_nil hback
  rw [List.set_append_right _ _ hlen.le, hlen, Nat.sub_self]
  rfl

/-- So does a part of a text, which needs the byte behind it. -/
theorem copyPart_cases (b : Buffer) (hs : nul ∉ s) (hn : n ≤ s.length) :
    (20 ≤ n ∧ copyPart b s n = none) ∨
      (n < 20 ∧ ∃ b', copyPart b s n = some b' ∧ b'.text = s.take n) := by
  have hbytes : s.take n ++ List.replicate (n - s.length) nul = s.take n := by
    rw [Nat.sub_eq_zero_of_le hn, List.replicate_zero, List.append_nil]
  have hlen : (s.take n).length = n := List.length_take_of_le hn
  unfold copyPart strncpy Buffer.write
  rw [hbytes]
  by_cases hfits : n < 20
  · refine Or.inr ⟨hfits, ?_⟩
    rw [dif_pos (by omega), Option.bind_some]
    unfold Buffer.setNul
    rw [if_pos hfits]
    have hdrop : b.1.drop (s.take n).length ≠ [] := by
      rw [hlen, ← List.length_pos_iff, List.length_drop, b.2]
      omega
    exact ⟨_, rfl, text_of_nul _ (fun h => hs (List.mem_of_mem_take h)) (set_behind hlen hdrop nul)⟩
  · refine Or.inl ⟨by omega, ?_⟩
    split
    · rw [Option.bind_some]
      exact if_neg hfits
    · rfl

end Buffers

section Pointers

theorem strchr_eq (s : Text) (c : Char) :
    strchr s c = if c ∈ s then some (s.dropWhile (fun d => d ≠ c)) else none := by
  unfold strchr
  split
  · rename_i hnil
    rw [if_neg]
    intro hmem
    have hcut := cut_of_mem hmem
    have hall := List.dropWhile_eq_nil_iff.mp hnil c hmem
    simp at hall
  · rename_i hne
    rw [if_pos]
    by_contra hmem
    exact hne (List.dropWhile_eq_nil_iff.mpr (keeps_of_not_mem hmem))

theorem strrchr_cons (d : Char) (s : Text) (c : Char) :
    strrchr (d :: s) c = match strrchr s c with
      | some found => some found
      | none => if d = c then some (d :: s) else none := rfl

theorem strrchr_eq_none {c : Char} {s : Text} (h : c ∉ s) : strrchr s c = none := by
  induction s with
  | nil => rfl
  | cons d s ih =>
    obtain ⟨hd, hs⟩ := not_or.mp (mt List.mem_cons.mpr h)
    rw [strrchr_cons, ih hs]
    exact if_neg (Ne.symm hd)

theorem strrchr_of_mem {c : Char} {s : Text} (h : c ∈ s) : ∃ found, strrchr s c = some found := by
  induction s with
  | nil => cases h
  | cons d s ih =>
    rw [strrchr_cons]
    by_cases hs : c ∈ s
    · obtain ⟨found, hfound⟩ := ih hs
      rw [hfound]
      exact ⟨found, rfl⟩
    · have hd : d = c := ((List.mem_cons.mp h).resolve_right hs).symm
      rw [strrchr_eq_none hs]
      exact ⟨d :: s, if_pos hd⟩

theorem strrchr_spec {c : Char} {s found : Text} (h : strrchr s c = some found) :
    found <:+ s ∧ found ≠ [] := by
  induction s with
  | nil => cases h
  | cons d s ih =>
    rw [strrchr_cons] at h
    split at h
    · rename_i found' hfound
      cases h
      obtain ⟨hsuffix, hne⟩ := ih hfound
      exact ⟨hsuffix.trans (List.suffix_cons d s), hne⟩
    · split at h
      · cases h
        exact ⟨List.suffix_rfl, List.cons_ne_nil d s⟩
      · cases h

/-- The search does not go behind the last occurrence. -/
theorem strrchr_append_of_not_mem {c : Char} (p : Text) {q : Text} (h : c ∉ q) :
    strrchr (p ++ q) c = (strrchr p c).map (fun found => found ++ q) := by
  induction p with
  | nil => exact strrchr_eq_none h
  | cons d p ih =>
    rw [List.cons_append, strrchr_cons, strrchr_cons, ih]
    cases strrchr p c with
    | some found => rfl
    | none =>
      dsimp only [Option.map_none]
      split <;> rfl

theorem strrchr_append_of_mem {c : Char} (p : Text) {q : Text} (h : c ∈ q) :
    strrchr (p ++ q) c = strrchr q c := by
  obtain ⟨found, hfound⟩ := strrchr_of_mem h
  induction p with
  | nil => rfl
  | cons d p ih => rw [List.cons_append, strrchr_cons, ih, hfound]

theorem strstr_prefix {needle s found : Text} (h : strstr needle s = some found) :
    needle <+: found ∧ found <:+ s := by
  induction s with
  | nil =>
    rw [strstr] at h
    split at h
    · rename_i hneedle
      cases h
      rw [hneedle]
      exact ⟨List.prefix_rfl, List.suffix_rfl⟩
    · cases h
  | cons c s ih =>
    rw [strstr] at h
    split at h
    · rename_i hprefix
      cases h
      exact ⟨List.isPrefixOf_iff_prefix.mp hprefix, List.suffix_rfl⟩
    · obtain ⟨hneedle, hsuffix⟩ := ih h
      exact ⟨hneedle, hsuffix.trans (List.suffix_cons c s)⟩

/-- The search for one character. -/
theorem strstr_singleton (c : Char) (s : Text) : strstr [c] s = strchr s c := by
  rw [strchr_eq]
  induction s with
  | nil => rfl
  | cons d s ih =>
    rw [strstr]
    by_cases hd : d = c
    · subst hd
      simp
    · have hne : ¬c = d := fun h => hd h.symm
      simp [ih, hd, hne]

theorem bmod_le (n m : Nat) : (n : Int).bmod m ≤ n := by
  have hmod : ((n : Int) % m) ≤ n := by
    rw [← Int.natCast_emod]
    exact Int.ofNat_le.mpr (Nat.mod_le n m)
  rw [Int.bmod_def]
  split
  · exact hmod
  · omega

theorem intOf_toNat_le (n : Nat) : (intOf n).toNat ≤ n := Int.toNat_le.mpr (bmod_le n _)

end Pointers

section Stages

variable {url : Text} {b : Buffer}

/-- The parameter is what stands behind "extension=" in the text that strstr finds. -/
theorem parameter_of_strstr {extStart : Text}
    (h : strstr "extension=".toList (url.dropWhile (fun c => c ≠ '?')) = some extStart) :
    ∃ rest, extStart = "extension=".toList ++ rest ∧ parameter url = some rest ∧ rest <:+ url := by
  obtain ⟨⟨rest, hrest⟩, hsuffix⟩ := strstr_prefix h
  subst hrest
  refine ⟨rest, rfl, ?_, ?_⟩
  · unfold parameter
    rw [h]
    rfl
  · exact ((List.suffix_append _ rest).trans hsuffix).trans (List.dropWhile_suffix _)

/-- The parameter up to the next ampersand goes into the buffer where it fits. -/
theorem namedExt_cases (b : Buffer) {rest : Text} (hnul : nul ∉ rest)
    (hparameter : parameter url = some rest)
    (hfound : strstr "extension=".toList (url.dropWhile (fun c => c ≠ '?')) =
      some ("extension=".toList ++ rest)) :
    (¬ParameterFits url ∧ namedExt b (url.dropWhile (fun c => c ≠ '?')) = none) ∨
      (ParameterFits url ∧ ∃ b', namedExt b (url.dropWhile (fun c => c ≠ '?')) = some b' ∧
        b'.text = namedText url) := by
  have hmem : '&' ∈ "extension=".toList ++ rest ↔ '&' ∈ rest := by simp
  have hdrop : ("extension=".toList ++ rest).dropWhile (fun c => c ≠ '&') =
      rest.dropWhile (fun c => c ≠ '&') := by
    rw [List.dropWhile_append_of_pos]
    simp
  have hbehind : ("extension=".toList ++ rest).drop 10 = rest := rfl
  have hlen : ("extension=".toList ++ rest).length - 10 -
      (rest.dropWhile (fun c => c ≠ '&')).length = (rest.takeWhile (fun c => c ≠ '&')).length := by
    have hsplit := congrArg List.length (List.takeWhile_append_dropWhile (p := fun c => c ≠ '&')
      (l := rest))
    simp only [List.length_append] at hsplit ⊢
    have hten : "extension=".toList.length = 10 := rfl
    omega
  have hfits : ParameterFits url ↔ if '&' ∈ rest then
      0 ≤ intOf (rest.takeWhile (fun c => c ≠ '&')).length ∧
        intOf (rest.takeWhile (fun c => c ≠ '&')).length < 20
      else rest.length < 20 := by
    unfold ParameterFits
    rw [hparameter]
    simp only [Option.mem_def, Option.some.injEq, forall_eq']
  have hnamed : namedText url = if '&' ∈ rest then
      rest.take (intOf (rest.takeWhile (fun c => c ≠ '&')).length).toNat else rest := by
    unfold namedText
    rw [hparameter]
  have hstep : namedExt b (url.dropWhile (fun c => c ≠ '?')) = if '&' ∈ rest then
      (if intOf (rest.takeWhile (fun c => c ≠ '&')).length < 0 then none
        else copyPart b rest (intOf (rest.takeWhile (fun c => c ≠ '&')).length).toNat)
      else strcpy b rest := by
    unfold namedExt
    rw [hfound]
    dsimp only
    rw [show "&".toList = ['&'] from rfl, strstr_singleton, strchr_eq, hbehind]
    by_cases hamp : '&' ∈ rest
    · rw [if_pos (hmem.mpr hamp), if_pos hamp]
      dsimp only
      rw [hdrop, hlen]
    · rw [if_neg (fun h => hamp (hmem.mp h)), if_neg hamp]
  rw [hfits, hnamed, hstep]
  by_cases hamp : '&' ∈ rest
  · simp only [if_pos hamp]
    have hle : (intOf (rest.takeWhile (fun c => c ≠ '&')).length).toNat ≤ rest.length :=
      (intOf_toNat_le _).trans (List.takeWhile_prefix _).length_le
    generalize intOf (rest.takeWhile (fun c => c ≠ '&')).length = nExtLen at hle
    by_cases hneg : nExtLen < 0
    · exact Or.inl ⟨by omega, if_pos hneg⟩
    · rw [if_neg hneg]
      rcases copyPart_cases b hnul hle with ⟨hlong, hnone⟩ | ⟨hshort, hsome⟩
      · exact Or.inl ⟨by omega, hnone⟩
      · exact Or.inr ⟨by omega, hsome⟩
  · simp only [if_neg hamp]
    rcases strcpy_cases b hnul with ⟨hlong, hnone⟩ | ⟨hshort, hsome⟩
    · exact Or.inl ⟨by omega, hnone⟩
    · exact Or.inr ⟨hshort, hsome⟩

theorem queryExt_cases (hb : b.text = []) (hurl : nul ∉ url) :
    (¬ParameterFits url ∧ queryExt b url = none) ∨
      (ParameterFits url ∧ ∃ b', queryExt b url = some b' ∧ b'.text = namedText url) := by
  have hwithout : parameter url = none → queryExt b url = some b →
      ParameterFits url ∧ ∃ b', queryExt b url = some b' ∧ b'.text = namedText url := by
    intro hparameter hstep
    refine ⟨?_, b, hstep, ?_⟩
    · intro rest hrest
      rw [hparameter] at hrest
      cases hrest
    · unfold namedText
      rw [hparameter, hb]
  unfold queryExt at hwithout ⊢
  rw [strchr_eq] at hwithout ⊢
  by_cases hquest : '?' ∈ url
  · rw [if_pos hquest] at hwithout ⊢
    dsimp only at hwithout ⊢
    cases hfound : strstr "extension=".toList (url.dropWhile (fun c => c ≠ '?')) with
    | none =>
      refine Or.inr (hwithout ?_ ?_)
      · unfold parameter
        rw [hfound]
        rfl
      · unfold namedExt
        rw [hfound]
    | some extStart =>
      obtain ⟨rest, rfl, hparameter, hsuffix⟩ := parameter_of_strstr hfound
      exact namedExt_cases b (fun h => hurl (hsuffix.mem h)) hparameter hfound
  · rw [if_neg hquest] at hwithout ⊢
    refine Or.inr (hwithout ?_ rfl)
    unfold parameter
    rw [List.dropWhile_eq_nil_iff.mpr (keeps_of_not_mem hquest)]
    rfl

/-- The text from the last dot on goes into the buffer where it fits and stands in the path. -/
theorem dottedExt_cases (hb : b.text = []) (hurl : nul ∉ url) :
    (20 ≤ (dottedText url).length ∧ dottedExt b url (strchr url '?') = none) ∨
      ((dottedText url).length < 20 ∧ ∃ b', dottedExt b url (strchr url '?') = some b' ∧
        b'.text = dottedText url) := by
  have hkept : dottedText url = [] → dottedExt b url (strchr url '?') = some b →
      (dottedText url).length < 20 ∧ ∃ b', dottedExt b url (strchr url '?') = some b' ∧
        b'.text = dottedText url := by
    intro hnil hstep
    rw [hnil]
    exact ⟨Nat.zero_lt_succ _, b, hstep, hb⟩
  unfold dottedExt dottedText at hkept ⊢
  rw [strchr_eq] at hkept ⊢
  by_cases hquest : '?' ∈ url
  · rw [if_pos hquest] at hkept ⊢
    have hsplit : url.takeWhile (fun c => c ≠ '?') ++ url.dropWhile (fun c => c ≠ '?') = url :=
      List.takeWhile_append_dropWhile
    have hpath : nul ∉ url.takeWhile (fun c => c ≠ '?') :=
      fun h => hurl ((List.takeWhile_prefix _).mem h)
    generalize url.takeWhile (fun c => c ≠ '?') = path at hsplit hpath hkept ⊢
    generalize url.dropWhile (fun c => c ≠ '?') = quest at hsplit hkept ⊢
    subst hsplit
    by_cases hdot : '.' ∈ quest
    · obtain ⟨found, hfound⟩ := strrchr_of_mem hdot
      have hle := (strrchr_spec hfound).1.length_le
      rw [strrchr_append_of_mem path hdot, hfound] at hkept ⊢
      dsimp only at hkept ⊢
      rw [if_pos hdot, if_neg (by omega)] at hkept ⊢
      exact Or.inr (hkept rfl rfl)
    · rw [strrchr_append_of_not_mem path hdot] at hkept ⊢
      rw [if_neg hdot] at hkept ⊢
      cases hfound : strrchr path '.' with
      | none =>
        rw [hfound] at hkept
        exact Or.inr (hkept rfl rfl)
      | some found =>
        have hpos := List.length_pos_iff.mpr (strrchr_spec hfound).2
        have hcount : (found ++ quest).length - quest.length = found.length := by
          rw [List.length_append]
          omega
        have htake : (found ++ quest).take found.length = found := by simp
        have hcases := copyPart_cases b (s := found ++ quest) (n := found.length) ?_ (by simp)
        · dsimp only [Option.map_some, Option.getD_some]
          rw [if_pos (by simp; omega), hcount]
          rw [htake] at hcases
          exact hcases
        · intro h
          rcases List.mem_append.mp h with hin | hin
          · exact hpath ((strrchr_spec hfound).1.mem hin)
          · exact hurl (List.mem_append_right path hin)
  · have hdrop : url.dropWhile (fun c => c ≠ '?') = [] :=
      List.dropWhile_eq_nil_iff.mpr (keeps_of_not_mem hquest)
    rw [if_neg hquest, hdrop, takeWhile_ne hquest] at hkept ⊢
    rw [if_neg List.not_mem_nil] at hkept ⊢
    cases hfound : strrchr url '.' with
    | none =>
      rw [hfound] at hkept
      exact Or.inr (hkept rfl rfl)
    | some found => exact strcpy_cases b (fun h => hurl ((strrchr_spec hfound).1.mem h))

/-- The name is made where the extension fits the buffer. -/
theorem makeFileName_cases (folder : Text) (szExt : Buffer) (v : CValue) :
    (¬Fits v.url ∧ makeFileName folder szExt v = none) ∨
      (Fits v.url ∧ makeFileName folder szExt v =
        some (folder ++ "/id_".toList ++ decimal v.id ++ extension v.url)) := by
  have hurl : nul ∉ v.url := not_mem_takeWhile nul v.value
  obtain ⟨cleared, hclear, hempty⟩ : ∃ cleared, szExt.setNul 0 = some cleared ∧
      cleared.text = [] := by
    refine ⟨_, if_pos (by decide), ?_⟩
    have hne : szExt.1 ≠ [] := List.ne_nil_of_length_pos (by rw [szExt.2]; decide)
    have hset : szExt.1.set 0 nul = [] ++ nul :: szExt.1.tail := @set_behind 0 [] _ rfl hne nul
    exact text_of_nul _ List.not_mem_nil hset
  unfold makeFileName Fits extension
  rw [hclear]
  rcases queryExt_cases hempty hurl with ⟨hlong, hnone⟩ | ⟨hfits, named, hsome, htext⟩
  · rw [Option.bind_eq_bind, Option.bind_some, hnone]
    exact Or.inl ⟨fun h => hlong h.1, rfl⟩
  · rw [Option.bind_eq_bind, Option.bind_some, hsome, Option.bind_some]
    unfold pathExt
    rw [htext]
    by_cases hnil : namedText v.url = []
    · rw [hnil] at htext
      rw [if_pos hnil, if_neg (not_not.mpr hnil)]
      rcases dottedExt_cases htext hurl with ⟨hlong, hnone⟩ | ⟨hshort, final, hfinal, hdotted⟩
      · rw [hnone]
        exact Or.inl ⟨fun h => absurd (h.2 hnil) (by omega), rfl⟩
      · rw [hfinal, Option.bind_some, hdotted]
        refine Or.inr ⟨⟨hfits, fun _ => hshort⟩, ?_⟩
        by_cases hdot : dottedText v.url = []
        · rw [if_pos hdot, if_neg (not_not.mpr hdot)]
        · rw [if_neg hdot, if_pos hdot]
    · rw [if_neg hnil, Option.bind_some, htext, if_neg hnil, if_pos hnil]
      exact Or.inr ⟨⟨hfits, fun h => absurd h hnil⟩, rfl⟩

end Stages

section Texts

theorem strrchr_eq_afterLast (s : Text) (c : Char) :
    strrchr s c = (ClientChanges.afterLast c s).map (fun rest => c :: rest) := by
  unfold ClientChanges.afterLast
  induction s with
  | nil => rfl
  | cons d s ih =>
    rw [strrchr_cons, ih, List.reverse_cons]
    by_cases hs : c ∈ s
    · obtain ⟨front, back, hsplit, hfront⟩ := List.eq_append_cons_of_mem (List.mem_reverse.mpr hs)
      rw [if_pos hs, if_pos (List.mem_cons_of_mem d hs), hsplit, List.append_assoc,
        List.cons_append, takeWhile_upTo hfront, takeWhile_upTo hfront]
      rfl
    · rw [if_neg hs]
      by_cases hd : d = c
      · subst hd
        rw [if_pos List.mem_cons_self, takeWhile_upTo (fun h => hs (List.mem_reverse.mp h)),
          List.reverse_reverse]
        exact if_pos rfl
      · rw [if_neg (fun h => (List.mem_cons.mp h).elim (fun he => hd he.symm) hs)]
        exact if_neg hd

theorem intOf_of_lt {n : Nat} (h : n < 2 ^ 31) : intOf n = n :=
  Int.bmod_eq_of_le (by omega) (by omega)

/-- The two models of the extension agree on the texts whose length is an int. -/
theorem extension_eq_urlExtension {url : String} (h : url.toList.length < 2 ^ 31) :
    extension url.toList =
      if urlExtension url = [] then ".bin".toList else urlExtension url := by
  have hnamed : namedText url.toList =
      match strstr "extension=".toList (url.toList.dropWhile (fun c => c ≠ '?')) with
      | some ext => (ext.drop 10).takeWhile (fun c => c ≠ '&')
      | none => [] := by
    unfold namedText
    cases hfound : strstr "extension=".toList (url.toList.dropWhile (fun c => c ≠ '?')) with
    | none =>
      unfold parameter
      rw [hfound]
      rfl
    | some extStart =>
      obtain ⟨rest, rfl, hparameter, hsuffix⟩ := parameter_of_strstr hfound
      have hbehind : ("extension=".toList ++ rest).drop 10 = rest := rfl
      rw [hparameter]
      dsimp only
      rw [hbehind]
      have hprefix := List.takeWhile_prefix (fun c => c ≠ '&') (l := rest)
      rw [intOf_of_lt (by have := hprefix.length_le; have := hsuffix.length_le; omega),
        Int.toNat_natCast, ← List.prefix_iff_eq_take.mp hprefix]
      split
      · rfl
      · rename_i hamp
        exact (takeWhile_ne hamp).symm
  have hdotted : dottedText url.toList =
      if '.' ∈ url.toList.dropWhile (fun c => c ≠ '?') then []
      else match ClientChanges.afterLast '.' (url.toList.takeWhile (fun c => c ≠ '?')) with
        | some ext => '.' :: ext
        | none => [] := by
    unfold dottedText
    rw [strrchr_eq_afterLast]
    cases ClientChanges.afterLast '.' (url.toList.takeWhile (fun c => c ≠ '?')) <;> rfl
  have hurl : urlExtension url = if namedText url.toList ≠ [] then namedText url.toList
      else dottedText url.toList := by
    rw [hnamed, hdotted]
    rfl
  unfold extension
  rw [hurl]
  by_cases hne : namedText url.toList = []
  · simp only [hne, ne_eq, not_true_eq_false, if_false, ite_not]
  · simp only [hne, ne_eq, not_false_eq_true, if_true, if_false]

/-- The name is the one of the model on strings, where the extension fits the buffer. -/
theorem makeFileName_eq (e : Source.Engine) (szExt : Buffer) (value : ServerChanges.CValue)
    (hlen : value.value.toList.length < 2 ^ 31) (hnul : nul ∉ value.value.toList)
    (hfits : Fits value.value.toList) :
    makeFileName (e.config.rootPath ++ e.config.relativeBlobsPath).toList szExt
        ⟨value.value.toList, value.attrType.toList, value.id⟩ =
      some (ServerChanges.makeFileName e value).toList := by
  have hurl : CValue.url ⟨value.value.toList, value.attrType.toList, value.id⟩ =
      value.value.toList := takeWhile_ne hnul
  rcases makeFileName_cases (e.config.rootPath ++ e.config.relativeBlobsPath).toList szExt
    ⟨value.value.toList, value.attrType.toList, value.id⟩ with ⟨hlong, -⟩ | ⟨-, hname⟩
  · rw [hurl] at hlong
    exact absurd hfits hlong
  · rw [hname, hurl, extension_eq_urlExtension hlen]
    unfold ServerChanges.makeFileName decimal
    dsimp only
    split <;> simp

end Texts

section Names

/-- An extension without a slash and without two dots. -/
def IsPlain (ext : Text) : Prop := '/' ∉ ext ∧ ¬"..".toList <:+: ext

/-- The folder, the number and an extension; nothing was written behind the buffer. -/
def SafeName (folder : Text) (id : UInt64) (name : Option Text) : Prop :=
  ∃ ext, name = some (folder ++ "/id_".toList ++ decimal id ++ ext) ∧ IsPlain ext

/-- A file of the folder itself. -/
def Inside (folder file : Text) : Prop :=
  ∃ name, file = folder ++ '/' :: name ∧ '/' ∉ name ∧ name ≠ [] ∧ name ≠ ".".toList ∧
    name ≠ "..".toList

/-- Each file that downloadBlob writes is in the folder. -/
def WritesInside (folder : Text) (download : Download) : Prop :=
  ∀ url fName, download = .pulls url fName → Inside folder fName

/-- What the names of two values have to be. -/
structure NamesSafe (folder : Text) (szExt szExt' : Buffer) (clientId : Text) (v v' : CValue) :
    Prop where
  first : SafeName folder v.id (makeFileName folder szExt v)
  second : SafeName folder v'.id (makeFileName folder szExt' v')
  distinct : makeFileName folder szExt v ≠ makeFileName folder szExt' v'
  inside : WritesInside folder (downloadBlob folder szExt clientId v)
  inside' : WritesInside folder (downloadBlob folder szExt' clientId v')

/-- The number of v' is that of v with more digits, and the extension of v begins with these. -/
def GoesOn (v v' : CValue) : Prop :=
  ∃ digits, digits ≠ [] ∧ decimal v'.id = decimal v.id ++ digits ∧
    extension v.url = digits ++ extension v'.url

/-- The URL names an extension that fits the buffer and is plain. -/
def NamesPlain (v : CValue) : Prop := Fits v.url ∧ IsPlain (extension v.url)

instance (v : CValue) : Decidable (NamesPlain v) :=
  inferInstanceAs (Decidable (_ ∧ (¬_ ∧ ¬_)))

variable {folder : Text} {szExt szExt' : Buffer} {clientId : Text} {v v' : CValue}

theorem decimal_eq (id : UInt64) : decimal id = Nat.toDigits 10 id.toNat := Nat.toList_repr

theorem decimal_injective {id id' : UInt64} (h : decimal id = decimal id') : id = id' := by
  rw [decimal_eq, decimal_eq] at h
  have hread := congrArg (fun digits => Nat.ofDigitChars 10 digits 0) h
  simp only [Nat.ofDigitChars_ten_toDigits] at hread
  exact UInt64.toNat_inj.mp hread

theorem slash_not_mem_decimal (id : UInt64) : '/' ∉ decimal id := by
  rw [decimal_eq]
  intro h
  exact absurd (Nat.isDigit_of_mem_toDigits (by decide) (by decide) h) (by decide)

/-- No number goes on in an extension that begins with a dot. -/
theorem not_goesOn_of_dot (h : (extension v.url).head? = some '.') : ¬GoesOn v v' := by
  rintro ⟨digits, hne, hdecimal, hext⟩
  obtain ⟨d, rest, rfl⟩ := List.exists_cons_of_ne_nil hne
  rw [hext, List.cons_append, List.head?_cons, Option.some.injEq] at h
  subst h
  have hmem : '.' ∈ Nat.toDigits 10 v'.id.toNat := by
    rw [← decimal_eq, hdecimal]
    exact List.mem_append_right _ List.mem_cons_self
  exact absurd (Nat.isDigit_of_mem_toDigits (by decide) (by decide) hmem) (by decide)

theorem safeName_iff : SafeName folder v.id (makeFileName folder szExt v) ↔ NamesPlain v := by
  unfold SafeName NamesPlain
  rcases makeFileName_cases folder szExt v with ⟨hlong, hnone⟩ | ⟨hfits, hsome⟩
  · rw [hnone]
    constructor
    · rintro ⟨ext, hext, -⟩
      cases hext
    · exact fun h => absurd h.1 hlong
  · rw [hsome]
    constructor
    · rintro ⟨ext, hext, hplain⟩
      have heq := List.append_cancel_left (Option.some.inj hext)
      rw [heq]
      exact ⟨hfits, hplain⟩
    · exact fun h => ⟨_, rfl, h.2⟩

theorem inside_of_safeName {name : Text} (h : SafeName folder v.id (some name)) :
    Inside folder name := by
  obtain ⟨ext, hname, hslash, -⟩ := h
  cases hname
  refine ⟨"id_".toList ++ decimal v.id ++ ext, by simp, ?_, by simp, by simp, by simp⟩
  simp [slash_not_mem_decimal, hslash]

theorem writesInside_of_plain (h : NamesPlain v) (clientId : Text) :
    WritesInside folder (downloadBlob folder szExt clientId v) := by
  intro url fName hpulls
  have hsafe : SafeName folder v.id (makeFileName folder szExt v) := safeName_iff.mpr h
  unfold downloadBlob at hpulls
  split at hpulls
  · cases hpulls
  · split at hpulls
    · cases hpulls
    · rename_i hname
      rw [hname] at hsafe
      cases hpulls
      exact inside_of_safeName hsafe

/-- Two names are the same where a number goes on in the extension of the other. -/
theorem names_eq_iff (hid : v.id ≠ v'.id) :
    decimal v.id ++ extension v.url = decimal v'.id ++ extension v'.url ↔
      GoesOn v v' ∨ GoesOn v' v := by
  rw [List.append_eq_append_iff]
  refine or_congr ?_ ?_
  · apply exists_congr
    intro digits
    constructor
    · rintro ⟨hdecimal, hext⟩
      refine ⟨?_, hdecimal, hext⟩
      rintro rfl
      rw [List.append_nil] at hdecimal
      exact hid (decimal_injective hdecimal.symm)
    · exact fun h => h.2
  · apply exists_congr
    intro digits
    constructor
    · rintro ⟨hdecimal, hext⟩
      refine ⟨?_, hdecimal, hext⟩
      rintro rfl
      rw [List.append_nil] at hdecimal
      exact hid (decimal_injective hdecimal)
    · exact fun h => h.2

theorem makeFileName_eq_iff (h : NamesPlain v) (h' : NamesPlain v') (hid : v.id ≠ v'.id) :
    makeFileName folder szExt v = makeFileName folder szExt' v' ↔ GoesOn v v' ∨ GoesOn v' v := by
  have hname := ((makeFileName_cases folder szExt v).resolve_left (fun hl => hl.1 h.1)).2
  have hname' := ((makeFileName_cases folder szExt' v').resolve_left (fun hl => hl.1 h'.1)).2
  rw [hname, hname', Option.some.injEq, ← names_eq_iff hid]
  simp only [List.append_assoc, List.append_cancel_left_eq]

/-- The names of two values are safe just where both extensions fit and are plain, and neither
number goes on in the extension of the other. -/
theorem blob_names_safe_iff (folder : Text) (szExt szExt' : Buffer) (clientId : Text)
    (v v' : CValue) (hid : v.id ≠ v'.id) :
    NamesSafe folder szExt szExt' clientId v v' ↔
      NamesPlain v ∧ NamesPlain v' ∧ ¬GoesOn v v' ∧ ¬GoesOn v' v := by
  constructor
  · intro h
    have hplain := safeName_iff.mp h.first
    have hplain' := safeName_iff.mp h.second
    have hdistinct := h.distinct
    rw [ne_eq, makeFileName_eq_iff hplain hplain' hid, not_or] at hdistinct
    exact ⟨hplain, hplain', hdistinct⟩
  · rintro ⟨hplain, hplain', hnot⟩
    refine ⟨safeName_iff.mpr hplain, safeName_iff.mpr hplain', ?_,
      writesInside_of_plain hplain clientId, writesInside_of_plain hplain' clientId⟩
    rw [ne_eq, makeFileName_eq_iff hplain hplain' hid, not_or]
    exact hnot

end Names

/-- The buffer with some bytes in it. -/
def used : Buffer := ⟨List.replicate 20 'x', rfl⟩

def blob (url : String) (id : UInt64) : CValue := ⟨url.toList, "blob.url".toList, id⟩

def picture : CValue := blob "http://host/a.jpg?size=2" 1

def drawing : CValue := blob "http://host/dir/b?extension=.png&size=2" 12

theorem blob_names_safe_two :
    NamesSafe "/blobs".toList used used "c".toList picture drawing :=
  (blob_names_safe_iff "/blobs".toList used used "c".toList picture drawing (by decide)).mpr
    ⟨by decide +kernel, by decide +kernel, not_goesOn_of_dot (by decide +kernel),
      not_goesOn_of_dot (by decide +kernel)⟩

/-- An extension of 20 bytes overruns the buffer, a last dot in the host or a parameter brings
slashes into the name, and the numbers 1 and 12 get the same name. -/
theorem blob_names_not_safe :
    makeFileName "/blobs".toList used (blob "http://h/a?extension=abcdefghijklmnopqrst" 1) = none ∧
    makeFileName "/blobs".toList used (blob "http://host.com/a" 1) =
      some "/blobs/id_1.com/a".toList ∧
    makeFileName "/blobs".toList used (blob "http://h/a?extension=/../../x&" 1) =
      some "/blobs/id_1/../../x".toList ∧
    ¬NamesSafe "/blobs".toList used used "c".toList (blob "http://h/a?extension=2x" 1)
      (blob "http://h/a?extension=x" 12) := by
  refine ⟨by decide +kernel, by decide +kernel, by decide +kernel, ?_⟩
  intro h
  exact h.distinct (by decide +kernel)

end Rhodes.BlobNames
