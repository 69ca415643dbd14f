import Rhodes.Cut
import Rhodes.PairParser

/-!
The keys of the form name([sub]|[])*, and the actions that the parser takes for them. A group
opens a hash in front of it and brackets open an array; brackets behind brackets are scanned by
nothing, so that the key ends there without its value.
-/
namespace Rhodes.KeyGrammar

open PairParser

/-- What may stand behind the name of a key. -/
inductive Step where
  | sub (name : Text)
  | item
  deriving DecidableEq

def Step.text : Step → Text
  | .sub name => '[' :: name ++ [']']
  | .item => ['[', ']']

def stepsText (steps : List Step) : Text := steps.flatMap Step.text

def keyText (name : Text) (steps : List Step) : Text := name ++ stepsText steps

/-- A text that the regular expressions of keys take as a whole. -/
def IsName (name : Text) : Prop := name ≠ [] ∧ ∀ c ∈ name, isKeyChar c

def Step.Valid : Step → Prop
  | .sub name => IsName name
  | .item => True

/-- The actions behind a name that has just been scanned. -/
def planFrom (key : Text) : List Step → List Action
  | [] => [.bind (some key)]
  | .sub name :: rest => .container key .hash :: planFrom name rest
  | [.item] => [.container key .array, .bind none]
  | .item :: .sub name :: rest => .container key .array :: planFrom name rest
  | .item :: .item :: _ => [.container key .array]

section Scans

variable {s : Text} {pos : Nat}

theorem takeWhile_name {name : Text} (hname : ∀ c ∈ name, isKeyChar c) {rest : Text}
    (hrest : ∀ c ∈ rest.head?, isKeyChar c = false) :
    (name ++ rest).takeWhile isKeyChar = name := by
  rw [List.takeWhile_append_of_pos hname]
  cases rest with
  | nil => rw [List.takeWhile_nil, List.append_nil]
  | cons c rest =>
    rw [List.takeWhile_cons_of_neg (by rw [hrest c rfl]; exact Bool.false_ne_true),
      List.append_nil]

/-- What follows a name begins with a bracket. -/
theorem head_stepsText {steps : List Step} : ∀ c ∈ (stepsText steps).head?, c = '[' := by
  cases steps with
  | nil => exact nofun
  | cons step rest =>
    intro c hc
    cases step <;> exact (Option.some.inj hc).symm

theorem head_not_keyChar {steps : List Step} :
    ∀ c ∈ (stepsText steps).head?, isKeyChar c = false := by
  intro c hc
  rw [head_stepsText c hc]
  rfl

theorem lt_of_drop {c : Char} {rest : Text} (h : s.drop pos = c :: rest) : pos < s.length := by
  by_contra hge
  rw [List.drop_eq_nil_of_le (Nat.le_of_not_lt hge)] at h
  cases h

/-- A group is scanned as a whole. -/
theorem scan_sub {name rest : Text} (hname : IsName name)
    (h : s.drop pos = (Step.sub name).text ++ rest) :
    rubyScanner bracketedKeyRegexp s pos = some ⟨pos, pos + (name.length + 2), name⟩ ∧
      s.drop (pos + (name.length + 2)) = rest := by
  have hdrop : s.drop pos = '[' :: (name ++ ']' :: rest) := by simp [h, Step.text]
  have htake : (name ++ ']' :: rest).takeWhile isKeyChar = name :=
    takeWhile_name hname.2 (fun c hc => by
      obtain rfl : ']' = c := Option.some.inj hc
      rfl)
  constructor
  · have hrest : bracketedRest (s.drop pos) = some (name.length + 2, name) := by
      rw [hdrop]
      simp only [bracketedRest, htake]
      rw [if_pos ⟨hname.1, by simp⟩]
    simp only [rubyScanner, bracketedKeyRegexp, Regexp.ofRest, hrest, Option.map_some]
  · rw [← List.drop_drop, hdrop]
    simp

/-- Brackets are no group. -/
theorem scan_item {rest : Text} (h : s.drop pos = Step.item.text ++ rest) :
    rubyScanner bracketedKeyRegexp s pos = none := by
  have hrest : bracketedRest (s.drop pos) = none := by
    rw [h]
    show bracketedRest ('[' :: ']' :: rest) = none
    have htake : (']' :: rest).takeWhile isKeyChar = [] := List.takeWhile_cons_of_neg (by decide)
    simp only [bracketedRest, htake, ne_eq, not_true_eq_false, false_and, if_false]
  simp only [rubyScanner, bracketedKeyRegexp, Regexp.ofRest, hrest, Option.map_none]

theorem check_nil (h : s.drop pos = []) (key : Text) :
    (postKeyCheck rubyScanner s key pos).actions = [] ∧
      (postKeyCheck rubyScanner s key pos).key = some key ∧
      (postKeyCheck rubyScanner s key pos).pos = pos := by
  have hbrackets : rubyScanner brackets s pos = none := by
    simp [rubyScanner, brackets, Regexp.ofRest, h, bracketsRest]
  have hopen : rubyScanner openBracket s pos = none := by
    simp [rubyScanner, openBracket, Regexp.ofRest, h, openBracketRest]
  simp [postKeyCheck, hbrackets, hopen]

theorem check_item {rest : Text} (h : s.drop pos = Step.item.text ++ rest) (key : Text) :
    (postKeyCheck rubyScanner s key pos).actions = [.container key .array] ∧
      (postKeyCheck rubyScanner s key pos).key = none ∧
      (postKeyCheck rubyScanner s key pos).pos = pos + 2 := by
  have hbrackets : rubyScanner brackets s pos = some ⟨pos, pos + 2, []⟩ := by
    simp [rubyScanner, brackets, Regexp.ofRest, h, Step.text, bracketsRest]
  simp [postKeyCheck, hbrackets]

theorem check_sub {name rest : Text} (hname : IsName name)
    (h : s.drop pos = (Step.sub name).text ++ rest) (key : Text) :
    (postKeyCheck rubyScanner s key pos).actions = [.container key .hash] ∧
      (postKeyCheck rubyScanner s key pos).key = none ∧
      (postKeyCheck rubyScanner s key pos).pos = pos := by
  obtain ⟨c, tail, rfl⟩ := List.exists_cons_of_ne_nil hname.1
  have hc : c ≠ ']' := by
    rintro rfl
    exact absurd (hname.2 ']' List.mem_cons_self) (by decide)
  have hbrackets : rubyScanner brackets s pos = none := by
    simp only [rubyScanner, brackets, Regexp.ofRest, h, Step.text, List.cons_append,
      Option.map_eq_none_iff]
    unfold bracketsRest
    split
    · rename_i heq
      simp only [List.cons.injEq, true_and] at heq
      exact absurd heq.1 hc
    · rfl
  have hopen : rubyScanner openBracket s pos = some ⟨pos, pos + 2, []⟩ := by
    simp [rubyScanner, openBracket, Regexp.ofRest, h, Step.text, openBracketRest, hc]
  simp [postKeyCheck, hbrackets, hopen]

/-- A turn over a group. -/
theorem nestings_sub {name rest : Text} (hname : IsName name)
    (h : s.drop pos = (Step.sub name).text ++ rest) (turns : Nat) (key : Option Text) :
    (nestings rubyScanner s (turns + 1) key pos).actions =
      (postKeyCheck rubyScanner s name (pos + (name.length + 2))).actions ++
      (nestings rubyScanner s turns
        (postKeyCheck rubyScanner s name (pos + (name.length + 2))).key
        (postKeyCheck rubyScanner s name (pos + (name.length + 2))).pos).actions := by
  have hlt : pos < s.length := lt_of_drop h
  rw [nestings, if_neg (Nat.not_le.mpr hlt), (scan_sub hname h).1]

theorem nestings_end (h : s.drop pos = []) (turns : Nat) (key : Option Text) :
    (nestings rubyScanner s (turns + 1) key pos).actions = [.bind key] := by
  rw [nestings, if_pos (List.drop_eq_nil_iff.mp h)]

theorem nestings_item {rest : Text} (h : s.drop pos = Step.item.text ++ rest) (turns : Nat)
    (key : Option Text) : (nestings rubyScanner s (turns + 1) key pos).actions = [] := by
  have hlt : pos < s.length := lt_of_drop h
  rw [nestings, if_neg (Nat.not_le.mpr hlt), scan_item h]

/-- A check and the turns behind it are what the steps behind the name say. -/
theorem check_nestings (steps : List Step) (hsteps : ∀ step ∈ steps, step.Valid) {key : Text}
    (turns : Nat) (hpos : pos ≤ s.length) (hturns : s.length < pos + turns)
    (h : s.drop pos = stepsText steps) :
    (postKeyCheck rubyScanner s key pos).actions ++
      (nestings rubyScanner s turns (postKeyCheck rubyScanner s key pos).key
        (postKeyCheck rubyScanner s key pos).pos).actions = planFrom key steps := by
  have hlength := congrArg List.length h
  rw [List.length_drop] at hlength
  obtain ⟨turns, rfl⟩ : ∃ more, turns = more + 1 := ⟨turns - 1, by omega⟩
  induction key, steps using planFrom.induct generalizing turns pos with
  | case1 key =>
    obtain ⟨hactions, hkey, hat⟩ := check_nil h key
    rw [hactions, hkey, hat, nestings_end h]
    rfl
  | case2 key name rest ih =>
    obtain ⟨hname, hrest⟩ := List.forall_mem_cons.mp hsteps
    have hsub : s.drop pos = (Step.sub name).text ++ stepsText rest := h
    obtain ⟨hactions, hkey, hat⟩ := check_sub hname hsub key
    have hstop := (scan_sub hname hsub).2
    have hlength' : (stepsText (Step.sub name :: rest)).length =
        name.length + 2 + (stepsText rest).length := by simp [stepsText, Step.text]; omega
    rw [hactions, hkey, hat, nestings_sub hname hsub]
    rw [hlength'] at hlength
    obtain ⟨turns, rfl⟩ : ∃ more, turns = more + 1 := ⟨turns - 1, by omega⟩
    rw [ih hrest (by omega) hstop (by rw [← List.length_drop, hstop]) turns (by omega)]
    rfl
  | case3 key =>
    have hitem : s.drop pos = Step.item.text ++ [] := h
    obtain ⟨hactions, hkey, hat⟩ := check_item hitem key
    have hend : s.drop (pos + 2) = [] := by
      rw [← List.drop_drop, hitem]
      rfl
    rw [hactions, hkey, hat, nestings_end hend]
    rfl
  | case4 key name rest ih =>
    obtain ⟨-, hsteps⟩ := List.forall_mem_cons.mp hsteps
    obtain ⟨hname, hrest⟩ := List.forall_mem_cons.mp hsteps
    have hitem : s.drop pos = Step.item.text ++ stepsText (.sub name :: rest) := h
    obtain ⟨hactions, hkey, hat⟩ := check_item hitem key
    have hsub : s.drop (pos + 2) = (Step.sub name).text ++ stepsText rest := by
      rw [← List.drop_drop, hitem]
      rfl
    have hstop := (scan_sub hname hsub).2
    have hlength' : (stepsText (.item :: .sub name :: rest)).length =
        2 + (name.length + 2) + (stepsText rest).length := by simp [stepsText, Step.text]; omega
    rw [hactions, hkey, hat, nestings_sub hname hsub]
    rw [hlength'] at hlength
    obtain ⟨turns, rfl⟩ : ∃ more, turns = more + 1 := ⟨turns - 1, by omega⟩
    rw [ih hrest (by omega) hstop (by rw [← List.length_drop, hstop]) turns (by omega)]
    rfl
  | case5 key rest =>
    have hitem : s.drop pos = Step.item.text ++ stepsText (.item :: rest) := h
    obtain ⟨hactions, hkey, hat⟩ := check_item hitem key
    have hnext : s.drop (pos + 2) = Step.item.text ++ stepsText rest := by
      rw [← List.drop_drop, hitem]
      rfl
    rw [hactions, hkey, hat, nestings_item hnext]
    rfl

end Scans

/-- The actions for a key of the grammar. -/
theorem keyPlan_keyText {name : Text} {steps : List Step} (hname : IsName name)
    (hsteps : ∀ step ∈ steps, step.Valid) :
    (keyPlan rubyScanner (keyText name steps)).actions = planFrom name steps := by
  have hkey : keyRest (keyText name steps) = some (name.length, name) := by
    unfold keyRest keyText
    rw [takeWhile_name hname.2 head_not_keyChar]
    simp only [if_neg hname.1]
  have hscan : rubyScanner keyRegexp (keyText name steps) 0 = some ⟨0, name.length, name⟩ := by
    simp only [rubyScanner, keyRegexp, Regexp.ofRest, List.drop_zero, hkey, Option.map_some,
      Nat.zero_add]
  have hlength : (keyText name steps).length = name.length + (stepsText steps).length :=
    List.length_append
  rw [keyPlan, hscan]
  refine check_nestings steps hsteps _ ?_ ?_ List.drop_left
  · show name.length ≤ _
    omega
  · show _ < name.length + _
    omega

theorem isName_iff {name : Text} : IsName name ↔
    name ≠ [] ∧ '[' ∉ name ∧ ']' ∉ name ∧ '=' ∉ name ∧ '&' ∉ name := by
  unfold IsName isKeyChar
  refine and_congr_right (fun _ => ?_)
  constructor
  · intro h
    refine ⟨?_, ?_, ?_, ?_⟩ <;>
    · intro hmem
      exact absurd (h _ hmem) (by decide)
  · rintro ⟨hopen, hclose, hequals, hand⟩ c hc
    have hne : ∀ d, d ∉ name → c ≠ d := fun d hd heq => hd (heq ▸ hc)
    simp [hne _ hopen, hne _ hclose, hne _ hequals, hne _ hand]

end Rhodes.KeyGrammar
