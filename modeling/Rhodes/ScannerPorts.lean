import Mathlib.Data.List.Infix
import Rhodes.PairParser

/-!
The StringScanner of the Java runtime beside Ruby's own. The Java scan takes the first match at
or behind the position, so that the two agree where the pattern stands at the position or
nowhere behind it. From this follows for which keys the parser gives the same on both.
-/
namespace Rhodes.ScannerPorts

open Rhodes.PairParser

/-- scan and check of StringScanner.java: what contains finds from the current offset. A check
sets the offset back, and a contains that finds nothing leaves it. -/
def javaScanner : Scanner := fun re s pos =>
  (List.range' pos (s.length + 1 - pos)).findSome? (re.matchAt s)

/-- A scan succeeds only with a match that starts at the position. -/
def AtPosition (pos : Nat) (found : Option Match) : Prop := ∀ m, found = some m → m.start = pos

/-- The expression matches at the position, or nowhere from it on. -/
def HereOrNowhere (re : Regexp) (s : Text) (pos : Nat) : Prop :=
  (re.matchAt s pos).isSome ∧ pos ≤ s.length ∨
    ∀ p, pos ≤ p → p ≤ s.length → re.matchAt s p = none

section Scans

variable {re : Regexp} {s : Text} {pos : Nat}

theorem javaScanner_eq_none_iff :
    javaScanner re s pos = none ↔ ∀ p, pos ≤ p → p ≤ s.length → re.matchAt s p = none := by
  simp only [javaScanner, List.findSome?_eq_none_iff, List.mem_range'_1]
  constructor
  · intro h p hp hlen
    exact h p (by omega)
  · intro h p hp
    exact h p hp.1 (by omega)

theorem javaScanner_of_matchAt {m : Match} (hpos : pos ≤ s.length)
    (h : re.matchAt s pos = some m) : javaScanner re s pos = some m := by
  have hcons : s.length + 1 - pos = (s.length - pos) + 1 := by omega
  rw [javaScanner, hcons, List.range'_succ, List.findSome?_cons, h]

/-- The match that is found starts at the position where the expression matched. -/
theorem matchAt_of_javaScanner {m : Match} (h : javaScanner re s pos = some m) :
    pos ≤ m.start ∧ m.start ≤ s.length ∧ re.matchAt s m.start = some m := by
  obtain ⟨p, hp, hm⟩ := List.exists_of_findSome?_eq_some h
  rw [List.mem_range'_1] at hp
  have hstart := re.start_eq s p m hm
  rw [hstart]
  exact ⟨hp.1, by omega, hm⟩

theorem atPosition_iff : AtPosition pos (javaScanner re s pos) ↔ HereOrNowhere re s pos := by
  constructor
  · intro h
    cases hfound : javaScanner re s pos with
    | none => exact .inr (javaScanner_eq_none_iff.mp hfound)
    | some m =>
      have hstart := h m hfound
      obtain ⟨-, hlen, hm⟩ := matchAt_of_javaScanner hfound
      rw [hstart] at hm hlen
      exact .inl ⟨by rw [hm, Option.isSome_some], hlen⟩
  · intro h m hm
    rcases h with ⟨hhere, hlen⟩ | hnone
    · obtain ⟨m', hm'⟩ := Option.isSome_iff_exists.mp hhere
      have heq := javaScanner_of_matchAt hlen hm'
      rw [hm, Option.some.injEq] at heq
      rw [heq]
      exact re.start_eq s pos m' hm'
    · rw [javaScanner_eq_none_iff.mpr hnone] at hm
      exact absurd hm (Option.some_ne_none m).symm

end Scans

/-- The expression matches at no place of the text. -/
def Absent (f : Text → Option (Nat × Text)) (t : Text) : Prop := ∀ u ∈ t.tails, f u = none

instance (f : Text → Option (Nat × Text)) (t : Text) : Decidable (Absent f t) :=
  inferInstanceAs (Decidable (∀ u ∈ t.tails, f u = none))

def Anchored (f : Text → Option (Nat × Text)) (t : Text) : Prop := (f t).isSome ∨ Absent f t

instance (f : Text → Option (Nat × Text)) (t : Text) : Decidable (Anchored f t) :=
  inferInstanceAs (Decidable (_ ∨ _))

section Rests

variable {f : Text → Option (Nat × Text)} {s : Text} {pos : Nat}

theorem absent_drop_iff (hnil : f [] = none) : Absent f (s.drop pos) ↔
    ∀ p, pos ≤ p → p ≤ s.length → (Regexp.ofRest f).matchAt s p = none := by
  simp only [Absent, List.mem_tails, Regexp.ofRest, Option.map_eq_none_iff]
  constructor
  · intro h p hp _
    refine h _ ?_
    rw [show p = pos + (p - pos) by omega, ← List.drop_drop]
    exact List.drop_suffix _ _
  · intro h u hu
    obtain ⟨front, hfront⟩ := hu
    by_cases hlen : pos ≤ s.length
    · have hsum := congrArg List.length hfront
      rw [List.length_append, List.length_drop] at hsum
      have hu : u = s.drop (pos + front.length) := by
        rw [← List.drop_drop, ← hfront, List.drop_left]
      rw [hu]
      exact h _ (by omega) (by omega)
    · rw [List.drop_eq_nil_of_le (by omega)] at hfront
      rw [(List.append_eq_nil_iff.mp hfront).2]
      exact hnil

theorem hereOrNowhere_ofRest_iff (hnil : f [] = none) :
    HereOrNowhere (.ofRest f) s pos ↔ Anchored f (s.drop pos) := by
  rw [HereOrNowhere, Anchored, absent_drop_iff hnil]
  refine or_congr_left ?_
  simp only [Regexp.ofRest, Option.isSome_map, and_iff_left_iff_imp]
  intro hsome
  by_contra hlen
  rw [List.drop_eq_nil_of_le (by omega), hnil] at hsome
  simp at hsome

theorem eq_none_of_absent {t : Text} (h : Absent f t) : f t = none := by
  refine h t ?_
  rw [List.mem_tails]

theorem javaScanner_ofRest_eq_none_iff (hnil : f [] = none) :
    javaScanner (.ofRest f) s pos = none ↔ Absent f (s.drop pos) :=
  javaScanner_eq_none_iff.trans (absent_drop_iff hnil).symm

theorem atPosition_ofRest_iff (hnil : f [] = none) :
    AtPosition pos (javaScanner (.ofRest f) s pos) ↔ Anchored f (s.drop pos) :=
  atPosition_iff.trans (hereOrNowhere_ofRest_iff hnil)

/-- Where the scan is anchored the two runtimes find the same. -/
theorem javaScanner_eq_rubyScanner (hnil : f [] = none) (h : Anchored f (s.drop pos)) :
    javaScanner (.ofRest f) s pos = rubyScanner (.ofRest f) s pos := by
  rcases (hereOrNowhere_ofRest_iff hnil).mpr h with ⟨hhere, hlen⟩ | hnone
  · obtain ⟨m, hm⟩ := Option.isSome_iff_exists.mp hhere
    rw [rubyScanner, hm]
    exact javaScanner_of_matchAt hlen hm
  · rw [javaScanner_eq_none_iff.mpr hnone, rubyScanner]
    by_cases hlen : pos ≤ s.length
    · exact (hnone pos le_rfl hlen).symm
    · simp [Regexp.ofRest, List.drop_eq_nil_of_le (show s.length ≤ pos by omega), hnil]

end Rests

/-- What post_key_check looks for in the text behind a key. -/
def CheckAnchored (t : Text) : Prop :=
  Anchored bracketsRest t ∧ ((bracketsRest t).isSome ∨ Anchored openBracketRest t)

instance (t : Text) : Decidable (CheckAnchored t) := inferInstanceAs (Decidable (_ ∧ _))

/-- The text that post_key_check leaves. -/
def behindBrackets (t : Text) : Text := if (bracketsRest t).isSome then t.drop 2 else t

/-- The nestings of a key are groups `[name]` and `[]`, each where it is looked for. -/
inductive NestingsAnchored : Text → Prop where
  | eos : NestingsAnchored []
  | none {t : Text} (h : Absent bracketedRest t) : NestingsAnchored t
  | group {t name : Text} {n : Nat} (h : bracketedRest t = some (n, name))
      (hcheck : CheckAnchored (t.drop n)) (hrest : NestingsAnchored (behindBrackets (t.drop n))) :
      NestingsAnchored t

/-- The key begins with a name, or has none in it; behind the name stand its nestings. -/
def KeyAnchored (key : Text) : Prop :=
  Absent keyRest key ∨ ∃ n name, keyRest key = some (n, name) ∧ CheckAnchored (key.drop n) ∧
    NestingsAnchored (behindBrackets (key.drop n))

/-- Every scan succeeds only at its position. -/
def ScansAtPosition (scans : List Scan) : Prop := ∀ scan ∈ scans, AtPosition scan.1 scan.2

section Keys

theorem keyRest_nil : keyRest [] = none := rfl
theorem bracketedRest_nil : bracketedRest [] = none := rfl
theorem bracketsRest_nil : bracketsRest [] = none := rfl
theorem openBracketRest_nil : openBracketRest [] = none := rfl

@[simp] theorem scansAtPosition_cons {scan : Scan} {scans : List Scan} :
    ScansAtPosition (scan :: scans) ↔ AtPosition scan.1 scan.2 ∧ ScansAtPosition scans := by
  simp [ScansAtPosition]

@[simp] theorem scansAtPosition_append {scans scans' : List Scan} :
    ScansAtPosition (scans ++ scans') ↔ ScansAtPosition scans ∧ ScansAtPosition scans' := by
  simp [ScansAtPosition, or_imp, forall_and]

@[simp] theorem scansAtPosition_nil : ScansAtPosition [] := by
  simp [ScansAtPosition]

variable {s : Text} {pos : Nat}

theorem atPosition_none : AtPosition pos none := by
  intro m hm
  exact absurd hm (Option.some_ne_none m).symm

/-- The position behind the brackets, where there are some. -/
theorem postKeyCheck_rubyScanner_pos (key : Text) :
    s.drop (postKeyCheck rubyScanner s key pos).pos = behindBrackets (s.drop pos) := by
  cases hbr : bracketsRest (s.drop pos) with
  | some r =>
    have htwo : r.1 = 2 := by
      unfold bracketsRest at hbr
      split at hbr
      · simp only [Option.some.injEq] at hbr
        rw [← hbr]
      · exact absurd hbr (by simp)
    simp [postKeyCheck, rubyScanner, brackets, Regexp.ofRest, hbr, behindBrackets, htwo,
      List.drop_drop]
  | none =>
    cases hop : openBracketRest (s.drop pos) with
    | some r =>
      simp [postKeyCheck, rubyScanner, brackets, openBracket, Regexp.ofRest, hbr, hop,
        behindBrackets]
    | none =>
      simp [postKeyCheck, rubyScanner, brackets, openBracket, Regexp.ofRest, hbr, hop,
        behindBrackets]

theorem postKeyCheck_javaScanner_eq (key : Text) (h : CheckAnchored (s.drop pos)) :
    postKeyCheck javaScanner s key pos = postKeyCheck rubyScanner s key pos := by
  have hbr : javaScanner brackets s pos = rubyScanner brackets s pos :=
    javaScanner_eq_rubyScanner bracketsRest_nil h.1
  rcases h.2 with hsome | hopen
  · obtain ⟨r, hr⟩ := Option.isSome_iff_exists.mp hsome
    have hruby : rubyScanner brackets s pos = some ⟨pos, pos + r.1, r.2⟩ := by
      simp [rubyScanner, brackets, Regexp.ofRest, hr]
    simp only [postKeyCheck, hbr, hruby]
  · have hop : javaScanner openBracket s pos = rubyScanner openBracket s pos :=
      javaScanner_eq_rubyScanner openBracketRest_nil hopen
    simp only [postKeyCheck, hbr, hop]

theorem scansAtPosition_postKeyCheck_iff (key : Text) :
    ScansAtPosition (postKeyCheck javaScanner s key pos).scans ↔ CheckAnchored (s.drop pos) := by
  have hbr : AtPosition pos (javaScanner brackets s pos) ↔ Anchored bracketsRest (s.drop pos) :=
    atPosition_ofRest_iff bracketsRest_nil
  have hop : AtPosition pos (javaScanner openBracket s pos) ↔
      Anchored openBracketRest (s.drop pos) := atPosition_ofRest_iff openBracketRest_nil
  unfold postKeyCheck CheckAnchored
  cases hfound : javaScanner brackets s pos with
  | some m =>
    rw [hfound] at hbr
    simp only [scansAtPosition_cons, scansAtPosition_nil, and_true, hbr, iff_self_and]
    intro hanchored
    refine .inl (hanchored.resolve_right ?_)
    intro habsent
    rw [← javaScanner_ofRest_eq_none_iff bracketsRest_nil, ← brackets, hfound] at habsent
    exact absurd habsent (Option.some_ne_none m)
  | none =>
    have habsent : Absent bracketsRest (s.drop pos) :=
      (javaScanner_ofRest_eq_none_iff bracketsRest_nil).mp hfound
    have hscans : ∀ found, javaScanner openBracket s pos = found →
        (ScansAtPosition [(pos, none), (pos, found)] ↔ Anchored openBracketRest (s.drop pos)) := by
      intro found hfound
      rw [hfound] at hop
      simp [atPosition_none, hop]
    have hcheck : Anchored bracketsRest (s.drop pos) ∧ ((bracketsRest (s.drop pos)).isSome ∨
        Anchored openBracketRest (s.drop pos)) ↔ Anchored openBracketRest (s.drop pos) := by
      simp [Anchored, habsent, eq_none_of_absent habsent]
    rw [hcheck]
    cases hopen : javaScanner openBracket s pos with
    | some m => exact hscans _ hopen
    | none => exact hscans _ hopen

end Keys

section Nestings

variable {s : Text} {pos : Nat}

theorem length_bracketedRest {t name : Text} {n : Nat} (h : bracketedRest t = some (n, name)) :
    0 < n := by
  unfold bracketedRest at h
  split at h
  · dsimp only at h
    split at h
    · simp only [Option.some.injEq, Prod.mk.injEq] at h
      omega
    · exact absurd h (by simp)
  · exact absurd h (by simp)

/-- A group at the position is found there by both runtimes. -/
theorem scan_bracketedKey {name : Text} {n : Nat}
    (h : bracketedRest (s.drop pos) = some (n, name)) :
    javaScanner bracketedKeyRegexp s pos = some ⟨pos, pos + n, name⟩ ∧
      rubyScanner bracketedKeyRegexp s pos = some ⟨pos, pos + n, name⟩ := by
  have hruby : rubyScanner bracketedKeyRegexp s pos = some ⟨pos, pos + n, name⟩ := by
    simp [rubyScanner, bracketedKeyRegexp, Regexp.ofRest, h]
  refine ⟨?_, hruby⟩
  rw [← hruby]
  exact javaScanner_eq_rubyScanner bracketedRest_nil (.inl (by rw [h, Option.isSome_some]))

/-- A scanner whose matches go on in the string. -/
structure GoesOn (scan : Scanner) (s : Text) : Prop where
  group : ∀ pos m, scan bracketedKeyRegexp s pos = some m → pos < m.stop
  brackets : ∀ pos m, scan brackets s pos = some m → pos ≤ m.stop

theorem goesOn_rubyScanner : GoesOn rubyScanner s where
  group pos m h := by
    cases hr : bracketedRest (s.drop pos) with
    | none => simp [rubyScanner, bracketedKeyRegexp, Regexp.ofRest, hr] at h
    | some r =>
      simp only [rubyScanner, bracketedKeyRegexp, Regexp.ofRest, hr, Option.map_some,
        Option.some.injEq] at h
      have hn := length_bracketedRest hr
      rw [← h]
      simp only
      omega
  brackets pos m h := by
    cases hr : bracketsRest (s.drop pos) with
    | none => simp [rubyScanner, PairParser.brackets, Regexp.ofRest, hr] at h
    | some r =>
      simp only [rubyScanner, PairParser.brackets, Regexp.ofRest, hr, Option.map_some,
        Option.some.injEq] at h
      rw [← h]
      simp only
      omega

theorem le_postKeyCheck_pos {scan : Scanner} (h : GoesOn scan s) (key : Text) :
    pos ≤ (postKeyCheck scan s key pos).pos := by
  unfold postKeyCheck
  cases hbr : scan brackets s pos with
  | some m => exact h.brackets pos m hbr
  | none => cases hop : scan openBracket s pos with
    | some m => exact le_rfl
    | none => exact le_rfl

/-- More turns than the rest of the string is long give the same plan: the loop ends at the
end of the string or at a scan that fails. -/
theorem nestings_turns {scan : Scanner} (h : GoesOn scan s) (turns more : Nat) (key : Option Text)
    (hturns : s.length < pos + turns) (hpos : 0 < turns) :
    nestings scan s (turns + more) key pos = nestings scan s turns key pos := by
  induction turns generalizing key pos with
  | zero => omega
  | succ turns ih =>
    rw [Nat.succ_add]
    by_cases hlen : s.length ≤ pos
    · simp [nestings, hlen]
    · cases hm : scan bracketedKeyRegexp s pos with
      | none => simp [nestings, hlen, hm]
      | some m =>
        have hgroup := h.group pos m hm
        have hcheck : m.stop ≤ (postKeyCheck scan s m.group m.stop).pos := le_postKeyCheck_pos h _
        simp only [nestings, if_neg hlen, hm]
        rw [ih _ (by omega) (by omega)]

theorem nestings_javaScanner_eq (turns : Nat) (key : Option Text)
    (h : NestingsAnchored (s.drop pos)) :
    nestings javaScanner s turns key pos = nestings rubyScanner s turns key pos ∧
      ScansAtPosition (nestings javaScanner s turns key pos).scans := by
  -- on the turns; a turn goes on from the text that post_key_check leaves
  induction turns generalizing key pos with
  | zero => simp [nestings]
  | succ turns ih =>
    by_cases hlen : s.length ≤ pos
    · simp [nestings, hlen]
    · generalize ht : s.drop pos = t at h
      cases h with
      | eos => exact absurd (List.drop_eq_nil_iff.mp ht) hlen
      | none habsent =>
        rw [← ht] at habsent
        have hjava : javaScanner bracketedKeyRegexp s pos = none :=
          (javaScanner_ofRest_eq_none_iff bracketedRest_nil).mpr habsent
        have hruby : rubyScanner bracketedKeyRegexp s pos = none := by
          rw [← hjava]
          exact (javaScanner_eq_rubyScanner bracketedRest_nil (.inr habsent)).symm
        simp [nestings, hlen, hjava, hruby, atPosition_none]
      | @group _ name n hgroup hcheck hrest =>
        rw [← ht] at hgroup hcheck hrest
        rw [List.drop_drop] at hcheck hrest
        obtain ⟨hjava, hruby⟩ := scan_bracketedKey hgroup
        have heq := postKeyCheck_javaScanner_eq name hcheck
        have hscans := (scansAtPosition_postKeyCheck_iff name).mpr hcheck
        rw [← postKeyCheck_rubyScanner_pos name] at hrest
        obtain ⟨hturns, hturnscans⟩ := ih (postKeyCheck rubyScanner s name (pos + n)).key hrest
        have hstart : AtPosition pos (some ⟨pos, pos + n, name⟩) := by
          intro m hm
          rw [← Option.some.inj hm]
        rw [heq] at hscans
        simp only [nestings, if_neg hlen, hjava, hruby, heq, hturns, List.cons_append,
          scansAtPosition_cons, scansAtPosition_append]
        rw [hturns] at hturnscans
        exact ⟨trivial, hstart, hscans, hturnscans⟩

theorem nestingsAnchored_of_scans (turns : Nat) (key : Option Text)
    (hturns : s.length < pos + turns)
    (h : ScansAtPosition (nestings javaScanner s turns key pos).scans) :
    NestingsAnchored (s.drop pos) := by
  induction turns generalizing key pos with
  | zero =>
    rw [List.drop_eq_nil_of_le (by omega)]
    exact .eos
  | succ turns ih =>
    by_cases hlen : s.length ≤ pos
    · rw [List.drop_eq_nil_of_le hlen]
      exact .eos
    · have hiff : AtPosition pos (javaScanner bracketedKeyRegexp s pos) ↔
          Anchored bracketedRest (s.drop pos) := atPosition_ofRest_iff bracketedRest_nil
      by_cases habsent : Absent bracketedRest (s.drop pos)
      · exact .none habsent
      · have hsome : (bracketedRest (s.drop pos)).isSome := by
          refine (hiff.mp ?_).resolve_right habsent
          intro m hm
          simp only [nestings, if_neg hlen, hm, List.cons_append, scansAtPosition_cons] at h
          exact h.1 m rfl
        obtain ⟨⟨n, name⟩, hgroup⟩ := Option.isSome_iff_exists.mp hsome
        simp only [nestings, if_neg hlen, (scan_bracketedKey hgroup).1, List.cons_append,
          scansAtPosition_cons, scansAtPosition_append] at h
        obtain ⟨-, hscans, hturnscans⟩ := h
        have hcheck := (scansAtPosition_postKeyCheck_iff name).mp hscans
        rw [postKeyCheck_javaScanner_eq name hcheck] at hturnscans
        have hpos : pos + n ≤ (postKeyCheck rubyScanner s name (pos + n)).pos :=
          le_postKeyCheck_pos goesOn_rubyScanner name
        have hn := length_bracketedRest hgroup
        have hrest := ih _ (by omega) hturnscans
        rw [postKeyCheck_rubyScanner_pos, ← List.drop_drop] at hrest
        rw [← List.drop_drop] at hcheck
        exact .group hgroup hcheck hrest

end Nestings

section Keys

variable {key : Text}

/-- A name at the front is found there by both runtimes. -/
theorem scan_key {name : Text} {n : Nat} (h : keyRest key = some (n, name)) :
    javaScanner keyRegexp key 0 = some ⟨0, n, name⟩ ∧
      rubyScanner keyRegexp key 0 = some ⟨0, n, name⟩ := by
  have hruby : rubyScanner keyRegexp key 0 = some ⟨0, n, name⟩ := by
    simp [rubyScanner, keyRegexp, Regexp.ofRest, h]
  refine ⟨?_, hruby⟩
  rw [← hruby]
  exact javaScanner_eq_rubyScanner keyRest_nil (.inl
    (by rw [List.drop_zero, h, Option.isSome_some]))

theorem keyPlan_javaScanner_eq (h : KeyAnchored key) :
    keyPlan javaScanner key = keyPlan rubyScanner key ∧
      ScansAtPosition (keyPlan javaScanner key).scans := by
  rcases h with habsent | ⟨n, name, hkey, hcheck, hrest⟩
  · have hjava : javaScanner keyRegexp key 0 = none :=
      (javaScanner_ofRest_eq_none_iff keyRest_nil).mpr habsent
    have hruby : rubyScanner keyRegexp key 0 = none := by
      rw [← hjava]
      exact (javaScanner_eq_rubyScanner keyRest_nil (.inr (by rwa [List.drop_zero]))).symm
    simp [keyPlan, hjava, hruby, atPosition_none]
  · obtain ⟨hjava, hruby⟩ := scan_key hkey
    have heq := postKeyCheck_javaScanner_eq name hcheck
    have hscans := (scansAtPosition_postKeyCheck_iff name).mpr hcheck
    rw [← postKeyCheck_rubyScanner_pos name] at hrest
    obtain ⟨hturns, hturnscans⟩ := nestings_javaScanner_eq (key.length + 1)
      (postKeyCheck rubyScanner key name n).key hrest
    have hstart : AtPosition 0 (some ⟨0, n, name⟩) := by
      intro m hm
      rw [← Option.some.inj hm]
    rw [heq] at hscans
    simp only [keyPlan, hjava, hruby, heq, hturns, List.cons_append,
      scansAtPosition_cons, scansAtPosition_append]
    rw [hturns] at hturnscans
    exact ⟨trivial, hstart, hscans, hturnscans⟩

theorem keyAnchored_of_scans (h : ScansAtPosition (keyPlan javaScanner key).scans) :
    KeyAnchored key := by
  have hiff : AtPosition 0 (javaScanner keyRegexp key 0) ↔ Anchored keyRest (key.drop 0) :=
    atPosition_ofRest_iff keyRest_nil
  rw [List.drop_zero] at hiff
  by_cases habsent : Absent keyRest key
  · exact .inl habsent
  · have hsome : (keyRest key).isSome := by
      refine (hiff.mp ?_).resolve_right habsent
      intro m hm
      simp only [keyPlan, hm, List.cons_append, scansAtPosition_cons] at h
      exact h.1 m rfl
    obtain ⟨⟨n, name⟩, hkey⟩ := Option.isSome_iff_exists.mp hsome
    simp only [keyPlan, (scan_key hkey).1, List.cons_append, scansAtPosition_cons,
      scansAtPosition_append] at h
    obtain ⟨-, hscans, hturnscans⟩ := h
    have hcheck := (scansAtPosition_postKeyCheck_iff name).mp hscans
    rw [postKeyCheck_javaScanner_eq name hcheck] at hturnscans
    have hrest := nestingsAnchored_of_scans _ _ (by omega) hturnscans
    rw [postKeyCheck_rubyScanner_pos] at hrest
    exact .inr ⟨n, name, hkey, hcheck, hrest⟩

end Keys

section Pairs

theorem parse_javaScanner_eq {pair : Pair} (h : KeyAnchored pair.1) (heap : Heap) :
    parse javaScanner heap pair = parse rubyScanner heap pair := by
  rw [parse, parse, (keyPlan_javaScanner_eq h).1]

theorem parsePairs_javaScanner_eq {pairs : List Pair} (h : ∀ pair ∈ pairs, KeyAnchored pair.1) :
    parsePairs javaScanner pairs = parsePairs rubyScanner pairs := by
  unfold parsePairs
  generalize [Obj.hash false ∅] = heap
  induction pairs generalizing heap with
  | nil => rfl
  | cons pair pairs ih =>
    rw [List.foldlM_cons, List.foldlM_cons, parse_javaScanner_eq (h pair List.mem_cons_self)]
    refine bind_congr ?_
    intro heap'
    exact ih (fun pair hpair => h pair (List.mem_cons_of_mem _ hpair)) heap'

/-- The Java scan succeeds only at its position exactly where the expression matches at the
position or nowhere behind it, and the parser makes such scans only, with Ruby's result, exactly
when every key is anchored. -/
theorem scanners_agree_iff (pairs : List Pair) :
    (∀ re s pos, AtPosition pos (javaScanner re s pos) ↔ HereOrNowhere re s pos) ∧
    ((∀ pair ∈ pairs, ScansAtPosition (keyPlan javaScanner pair.1).scans) ∧
        parsePairs javaScanner pairs = parsePairs rubyScanner pairs ↔
      ∀ pair ∈ pairs, KeyAnchored pair.1) := by
  refine ⟨fun re s pos => atPosition_iff, ?_⟩
  constructor
  · intro h pair hpair
    exact keyAnchored_of_scans (h.1 pair hpair)
  · intro h
    refine ⟨?_, parsePairs_javaScanner_eq h⟩
    intro pair hpair
    exact (keyPlan_javaScanner_eq (h pair hpair)).2

/-- `a[b][]`: the brackets are found behind the group, and the array goes under `a`. -/
def arrayInHash : Pair := ("a[b][]".toList, some "v".toList)

theorem scan_skips_group :
    ¬AtPosition 1 (javaScanner brackets arrayInHash.1 1) ∧
    parsePairs javaScanner [arrayInHash] ≠ parsePairs rubyScanner [arrayInHash] := by
  constructor
  · intro h
    have hstart := h ⟨4, 6, []⟩ (by decide)
    exact absurd hstart (by decide)
  · intro h
    have hlength := congrArg (Except.map List.length) h
    have hjava : Except.map List.length (parsePairs javaScanner [arrayInHash]) = .ok 2 := by
      decide
    have hruby : Except.map List.length (parsePairs rubyScanner [arrayInHash]) = .ok 3 := by
      decide
    rw [hjava, hruby] at hlength
    exact absurd hlength (by decide)

end Pairs

end Rhodes.ScannerPorts
