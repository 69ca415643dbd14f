import Rhodes.Cut
import Rhodes.Settings

/-!
The C++ reader of the settings line by line. On every line of any text it stays on that
line, and what it finds there is what `lineProperty` says of the line.
-/
namespace Rhodes.Settings

open Rhodes.Cut

section Strip

variable {p : Char → Bool}

theorem rdropWhile_eq_self {s : Text} (h : ∀ c ∈ s.getLast?, p c = false) :
    s.rdropWhile p = s := by
  rw [List.rdropWhile_eq_self_iff]
  intro hne
  rw [h _ (List.getLast_mem_getLast? hne)]
  decide

theorem strip_eq_self {s : Text} (hfirst : ∀ c ∈ s.head?, p c = false)
    (hlast : ∀ c ∈ s.getLast?, p c = false) : strip p s = s := by
  have hfront : s.dropWhile p = s := by
    cases s with
    | nil => rfl
    | cons c s => rw [List.dropWhile_cons_of_neg (by rw [hfirst c rfl]; decide)]
  rw [strip, hfront, rdropWhile_eq_self hlast]

theorem rdropWhile_append_right {r : Text} (hr : ∀ c ∈ r, p c = true) (s : Text) :
    (s ++ r).rdropWhile p = s.rdropWhile p := by
  have hrev : ∀ c ∈ r.reverse, p c = true := fun c hc => hr c (List.mem_reverse.mp hc)
  simp only [List.rdropWhile, List.reverse_append, List.dropWhile_append_of_pos hrev]

theorem strip_append_left {l : Text} (hl : ∀ c ∈ l, p c = true) (s : Text) :
    strip p (l ++ s) = strip p s := by
  rw [strip, strip, List.dropWhile_append_of_pos hl]

theorem strip_append_right {r : Text} (hr : ∀ c ∈ r, p c = true) (s : Text) :
    strip p (s ++ r) = strip p s := by
  have hall : r.dropWhile p = [] := List.dropWhile_eq_nil_iff.mpr hr
  unfold strip
  rw [List.dropWhile_append]
  split
  · rename_i hempty
    rw [hall, List.isEmpty_iff.mp hempty]
  · exact rdropWhile_append_right hr _

theorem rdropWhile_cons {c : Char} (hc : p c = false) (s : Text) :
    ∃ rest, (c :: s).rdropWhile p = c :: rest := by
  have hprefix := List.rdropWhile_prefix p (c :: s)
  cases hcut : (c :: s).rdropWhile p with
  | nil =>
    rw [List.rdropWhile_eq_nil_iff] at hcut
    rw [hcut c List.mem_cons_self] at hc
    cases hc
  | cons d rest =>
    rw [hcut] at hprefix
    rw [(List.cons_prefix_cons.mp hprefix).1]
    exact ⟨rest, rfl⟩

theorem strip_first (s : Text) : ∀ c ∈ (strip p s).head?, p c = false := by
  intro c hc
  unfold strip at hc
  cases hfront : s.dropWhile p with
  | nil =>
    rw [hfront, List.rdropWhile_nil] at hc
    cases hc
  | cons d front =>
    have hd : p d = false := by
      have hhead := List.head_dropWhile_not p (by rw [hfront]; simp : s.dropWhile p ≠ [])
      simpa [hfront] using hhead
    obtain ⟨rest, hrest⟩ := rdropWhile_cons hd front
    rw [hfront, hrest] at hc
    rw [← Option.some.inj hc]
    exact hd

theorem strip_last (s : Text) : ∀ c ∈ (strip p s).getLast?, p c = false := by
  intro c hc
  unfold strip at hc
  have hne : (s.dropWhile p).rdropWhile p ≠ [] := by
    intro hnil
    rw [hnil] at hc
    cases hc
  have hlast := List.rdropWhile_last_not p (s.dropWhile p) hne
  rw [List.getLast?_eq_some_getLast hne] at hc
  rw [← Option.some.inj hc]
  simpa using hlast

theorem strip_strip (s : Text) : strip p (strip p s) = strip p s :=
  strip_eq_self (strip_first s) (strip_last s)

theorem mem_of_mem_strip {s : Text} {c : Char} (h : c ∈ strip p s) : c ∈ s :=
  (List.dropWhile_sublist p).subset ((List.rdropWhile_prefix p _).subset h)

theorem strip_eq_nil {s : Text} (h : ∀ c ∈ s, p c = true) : strip p s = [] := by
  rw [strip, List.dropWhile_eq_nil_iff.mpr h, List.rdropWhile_nil]

end Strip

namespace Cpp

/-- A property of a line, as its name and its value. -/
def lineProperty (line : Text) : Option (Text × Text) :=
  let body := line.dropWhile isBlank
  let name := (body.takeWhile (fun c => c ≠ '=')).rdropWhile isBlank
  if '=' ∈ body ∧ name ≠ [] then
    some (name, strip isBlankOrQuote ((body.dropWhile (fun c => c ≠ '=')).drop 1))
  else none

end Cpp

section Lines

/-- A line without the CR at its end. -/
def dropCR (line : Text) : Text := if line.getLast? = some '\r' then line.dropLast else line

/-- Only a line feed takes the CR in front of it along. -/
def dropCRs : List Text → List Text
  | [] => []
  | [line] => [line]
  | line :: next :: more => dropCR line :: dropCRs (next :: more)

/-- The lines of a text as the C++ reader takes them. -/
def lineTexts (text : Text) : List Text :=
  dropCRs ((text.takeWhile (fun c => c ≠ nul)).splitOn '\n')

end Lines

namespace Cpp

theorem advance_spec {test : Char → Int → Bool} {f : Char → Bool}
    (htest : ∀ c n, 0 ≤ n → test c n = f c) (line after : Text)
    (hafter : f (after.headD nul) = false) :
    advance test (line ++ after) line.length
      = some (line.dropWhile f ++ after, ((line.dropWhile f).length : Int)) := by
  induction line with
  | nil =>
    have hstop : test (after.headD nul) 0 = false := by rw [htest _ _ (by omega), hafter]
    cases after with
    | nil => simpa [advance] using hstop
    | cons c after =>
      have hc : test c 0 = false := hstop
      simp [advance, hc]
  | cons c line ih =>
    have hc : test c ((c :: line).length : Int) = f c := htest _ _ (by omega)
    have hlen : ((c :: line).length : Int) - 1 = line.length := by
      simp only [List.length_cons]
      omega
    rw [List.cons_append]
    simp only [advance, hc, hlen, ih]
    by_cases hf : f c = true
    · simp [hf]
    · simp [hf]

theorem findEquals_spec (body after : Text) (i : Nat) :
    findEquals ((i : Int) + body.length) (body ++ after) i
      = some (if '=' ∈ body then some (i + (body.takeWhile (fun c => c ≠ '=')).length)
          else none) := by
  induction body generalizing i with
  | nil =>
    cases after with
    | nil =>
      simp only [findEquals, List.append_nil, List.length_nil]
      rw [if_neg (by omega)]
      simp
    | cons c after => simp [findEquals]
  | cons c body ih =>
    have hlt : (i : Int) < (i : Int) + (c :: body).length := by
      simp only [List.length_cons]
      omega
    rw [List.cons_append]
    simp only [findEquals, if_pos hlt]
    by_cases hc : c = '='
    · simp [hc]
    · have hlen : (i : Int) + (c :: body).length = ((i + 1 : Nat) : Int) + body.length := by
        simp only [List.length_cons]
        omega
      rw [if_neg hc, hlen, ih (i + 1)]
      have hmem : '=' ∈ c :: body ↔ '=' ∈ body := by simp [Ne.symm hc]
      simp only [hmem, List.takeWhile_cons, hc, ne_eq, not_false_eq_true, decide_true, if_true,
        List.length_cons]
      by_cases hbody : '=' ∈ body
      · simp only [hbody, if_true, Option.some.injEq]
        omega
      · simp [hbody]

theorem cutEnd_spec (test : Char → Bool) (p : Text) (n : Nat) (hn : n ≤ p.length) :
    cutEnd test p n = some ((p.take n).rdropWhile test).length := by
  induction n with
  | zero => simp [cutEnd]
  | succ n ih =>
    have hlt : n < p.length := by omega
    have hchar : charAt p n = some p[n] := by
      simp [charAt, List.getElem?_append_left hlt, List.getElem?_eq_getElem hlt]
    have htake : p.take (n + 1) = p.take n ++ [p[n]] := List.take_succ_eq_append_getElem hlt
    simp only [cutEnd, hchar, Option.bind_eq_bind, Option.bind_some]
    by_cases hc : test p[n] = true
    · rw [if_pos hc, ih (by omega), htake, List.rdropWhile_concat_pos _ _ _ hc]
    · rw [if_neg hc, htake, List.rdropWhile_concat_neg _ _ _ hc]
      simp
      omega

/-- The property `p` is the name and the value of a line in front of `after`. -/
structure OnLine (line after name value : Text) (p : Property) : Prop where
  nameLen : p.nNameLen = name.length
  szName : ∃ front back, line = front ++ name ++ back ∧ p.szName = name ++ back ++ after
  valueLen : p.nValueLen = value.length
  szValue : ∃ front back, line = front ++ value ++ back ∧ p.szValue = value ++ back ++ after

/-- A character that ends a line stops the loops over blanks and quotes. -/
def Stops (after : Text) : Prop := isBlankOrQuote (after.headD nul) = false

theorem isBlank_of_stops {after : Text} (h : Stops after) :
    isBlank (after.headD nul) = false := by
  unfold Stops isBlankOrQuote at h
  unfold isBlank
  simp only [Bool.or_eq_false_iff] at h
  exact h.1.1

theorem valueFront_eq (c : Char) (n : Int) (hn : 0 ≤ n) : valueFront c n = isBlankOrQuote c := by
  simp [valueFront, isBlankOrQuote, hn]

/-- What the line holds as a property, when the '=' is at `front.length` behind the blanks. -/
theorem lineProperty_of_body {line front back : Text} (hfront : '=' ∉ front)
    (hbody : line.dropWhile isBlank = front ++ '=' :: back) :
    lineProperty line = if front.rdropWhile isBlank = [] then none
      else some (front.rdropWhile isBlank, strip isBlankOrQuote back) := by
  unfold lineProperty
  simp only [hbody, takeWhile_upTo hfront, dropWhile_upTo hfront, List.drop_succ_cons,
    List.drop_zero]
  by_cases hname : front.rdropWhile isBlank = []
  · simp [hname]
  · simp [hname]

/-- The end of the value: the loop does not run for an empty one. -/
theorem valueEnd_spec (rest after : Text) :
    valueEnd (rest ++ after) rest.length
      = some ((rest.rdropWhile isBlankOrQuote).length : Int) := by
  unfold valueEnd
  by_cases hpos : (0 : Int) < rest.length
  · have hcut := cutEnd_spec isBlankOrQuote (rest ++ after) rest.length (by simp)
    rw [List.take_left] at hcut
    rw [if_pos hpos, Int.toNat_natCast, hcut]
    rfl
  · have hnil : rest = [] := List.length_eq_zero_iff.mp (by omega)
    simp [hnil]

theorem loadProperty_spec (line after : Text) (hafter : Stops after) :
    (lineProperty line = none ∧ loadProperty (line ++ after) line.length = some none) ∨
    ∃ name value p, lineProperty line = some (name, value) ∧
      loadProperty (line ++ after) line.length = some (some p) ∧
      OnLine line after name value p := by
  have hskip : advance (fun c _ => isBlank c) (line ++ after) line.length
      = some (line.dropWhile isBlank ++ after, ((line.dropWhile isBlank).length : Int)) :=
    advance_spec (f := isBlank) (fun c n _ => rfl) line after (isBlank_of_stops hafter)
  have hfind := findEquals_spec (line.dropWhile isBlank) after 0
  rw [Int.natCast_zero, Int.zero_add] at hfind
  by_cases hmem : '=' ∈ line.dropWhile isBlank
  swap
  · left
    rw [if_neg hmem] at hfind
    refine ⟨by simp [lineProperty, hmem], ?_⟩
    simp only [loadProperty, hskip, hfind, Option.bind_eq_bind, Option.bind_some]
  obtain ⟨front, back, hbody, hfront⟩ := List.eq_append_cons_of_mem hmem
  rw [if_pos hmem] at hfind
  rw [lineProperty_of_body hfront hbody]
  rw [hbody] at hskip hfind
  rw [takeWhile_upTo hfront, Nat.zero_add] at hfind
  have htake : (front ++ '=' :: back ++ after).take front.length = front := by simp
  have hcut := cutEnd_spec isBlank (front ++ '=' :: back ++ after) front.length (by simp)
  rw [htake] at hcut
  by_cases hempty : front.rdropWhile isBlank = []
  · left
    refine ⟨if_pos hempty, ?_⟩
    simp only [loadProperty, hskip, hfind, hcut, Option.bind_eq_bind, Option.bind_some, hempty,
      List.length_nil, if_true]
  right
  have hdrop : (front ++ '=' :: back ++ after).drop (front.length + 1) = back ++ after := by
    simp
  have hlen : ((front ++ '=' :: back).length : Int) - (front.length + 1) = back.length := by
    simp only [List.length_append, List.length_cons]
    omega
  have hadvance := advance_spec valueFront_eq back after hafter
  have hend : valueEnd (back.dropWhile isBlankOrQuote ++ after)
      (back.dropWhile isBlankOrQuote).length = some ((strip isBlankOrQuote back).length : Int) :=
    valueEnd_spec _ after
  obtain ⟨trail, htrail⟩ : strip isBlankOrQuote back <+: back.dropWhile isBlankOrQuote :=
    List.rdropWhile_prefix _ _
  obtain ⟨lead, hlead⟩ := List.dropWhile_suffix (l := back) isBlankOrQuote
  obtain ⟨pad, hpad⟩ := List.rdropWhile_prefix isBlank front
  obtain ⟨indent, hindent⟩ := List.dropWhile_suffix (l := line) isBlank
  refine ⟨_, _, ⟨front ++ '=' :: back ++ after, (front.rdropWhile isBlank).length,
    back.dropWhile isBlankOrQuote ++ after, _⟩, if_neg hempty, ?_,
    rfl, ⟨indent, pad ++ '=' :: back, ?_, ?_⟩, rfl,
    ⟨indent ++ front ++ ['='] ++ lead, trail, ?_, ?_⟩⟩
  · simp only [loadProperty, hskip, hfind, hcut, Option.bind_eq_bind, Option.bind_some,
      List.length_eq_zero_iff, hempty, if_false, hdrop, hlen, hadvance, hend]
  · conv_lhs => rw [← hindent, hbody, ← hpad]
    simp
  · conv_lhs => rw [← hpad]
    simp
  · conv_lhs => rw [← hindent, hbody, ← hlead, ← htrail]
    simp
  · conv_lhs => rw [← htrail]

/-- A call of loadProperty is made for the line. -/
def CallFor (call : Text × Int) (line : Text) : Prop :=
  ∃ after, call = (line ++ after, (line.length : Int)) ∧ Stops after

theorem callFor_lineFeed (before rest : Text) (hbefore : '\n' ∉ before) :
    CallFor (before ++ '\n' :: rest, lineLen (before ++ '\n' :: rest)) (dropCR before) := by
  unfold lineLen beforeLineFeed dropCR
  simp only [takeWhile_upTo hbefore]
  by_cases hcr : before.getLast? = some '\r'
  · obtain ⟨front, rfl⟩ := List.getLast?_eq_some_iff.mp hcr
    refine ⟨'\r' :: '\n' :: rest, ?_, by simp [Stops, isBlankOrQuote]⟩
    simp only [hcr, if_true, List.dropLast_concat, List.append_assoc, List.cons_append,
      List.nil_append, Prod.mk.injEq, true_and, List.length_append, List.length_cons,
      List.length_nil]
    omega
  · refine ⟨'\n' :: rest, ?_, by simp [Stops, isBlankOrQuote]⟩
    simp only [hcr, if_false]

theorem dropCRs_cons (line : Text) {more : List Text} (h : more ≠ []) :
    dropCRs (line :: more) = dropCR line :: dropCRs more := by
  cases more with
  | nil => exact absurd rfl h
  | cons next more => rfl

theorem linesUpTo_spec (turns : Nat) (start : Text) (h : start.length < turns) :
    List.Forall₂ CallFor (linesUpTo turns start) (dropCRs (start.splitOn '\n')) := by
  induction turns generalizing start with
  | zero => omega
  | succ turns ih =>
    by_cases hmem : '\n' ∈ start
    · obtain ⟨before, rest, rfl, hbefore⟩ := List.eq_append_cons_of_mem hmem
      have hrest : (before ++ '\n' :: rest).drop (before.length + 1) = rest := by simp
      have hlen : rest.length < turns := by
        simp only [List.length_append, List.length_cons] at h
        omega
      simp only [linesUpTo, if_pos hmem, beforeLineFeed, takeWhile_upTo hbefore, hrest]
      rw [List.splitOn_append_cons_self, List.splitOn_eq_singleton hbefore, List.singleton_append,
        dropCRs_cons before (List.splitOn_ne_nil _ _)]
      exact List.Forall₂.cons (callFor_lineFeed before rest hbefore) (ih rest hlen)
    · rw [List.splitOn_eq_singleton hmem]
      simp only [linesUpTo, if_neg hmem, dropCRs]
      refine List.Forall₂.cons ⟨[], ?_, ?_⟩ List.Forall₂.nil
      · rw [List.append_nil]
      · simp [Stops, isBlankOrQuote, nul]

theorem lines_spec (text : Text) : List.Forall₂ CallFor (lines text) (lineTexts text) :=
  linesUpTo_spec _ _ (by omega)

theorem exists_line {text : Text} {call : Text × Int} (h : call ∈ lines text) :
    ∃ line, CallFor call line := by
  have hmem : ∀ {calls : List (Text × Int)} {texts : List Text}, List.Forall₂ CallFor calls texts →
      call ∈ calls → ∃ line, CallFor call line := by
    intro calls texts hcalls
    induction hcalls with
    | nil => exact fun hnil => absurd hnil List.not_mem_nil
    | cons hcall _ ih =>
      intro hin
      rcases List.mem_cons.mp hin with heq | hin
      · exact ⟨_, heq ▸ hcall⟩
      · exact ih hin
  exact hmem (lines_spec text) h

def putLine (values : Table Text) (line : Text) : Table Text :=
  match lineProperty line with
  | none => values
  | some (name, value) => values.insert name value

theorem string_of_append (t rest : Text) : string (t ++ rest) t.length = some t := by
  have hlen : (0 : Int) ≤ t.length ∧ (t.length : Int) ≤ (t ++ rest).length := by
    simp only [List.length_append]
    omega
  rw [string, if_pos hlen]
  simp

theorem loadLine_spec (values : Table Text) {call : Text × Int} {line : Text}
    (h : CallFor call line) : loadLine values call = some (putLine values line) := by
  obtain ⟨after, rfl, hafter⟩ := h
  unfold loadLine putLine
  obtain ⟨hnone, hload⟩ | ⟨name, value, p, hsome, hload, hon⟩ :=
    loadProperty_spec line after hafter
  · simp [hnone, hload]
  · obtain ⟨_, _, -, hname⟩ := hon.szName
    obtain ⟨_, _, -, hvalue⟩ := hon.szValue
    simp only [hsome, hload, Option.bind_eq_bind, Option.bind_some, setPropertyByName, hon.nameLen,
      hon.valueLen, hname, hvalue, List.append_assoc, string_of_append]

/-- The reader gets through every text, and what it reads is what stands on the lines. -/
theorem loadFromString_eq (text : Text) (values : Table Text) :
    loadFromString text values = some ((lineTexts text).foldl putLine values) := by
  have hfold : ∀ {calls : List (Text × Int)} {texts : List Text}, List.Forall₂ CallFor calls texts →
      ∀ values, calls.foldlM loadLine values = some (texts.foldl putLine values) := by
    intro calls texts h
    induction h with
    | nil => exact fun values => rfl
    | cons hcall _ ih =>
      intro values
      rw [List.foldlM_cons, loadLine_spec values hcall]
      exact ih _
  exact hfold (lines_spec text) values

end Cpp

/-- A line that is ended by a line feed is the first of the text. -/
theorem lineTexts_cons {line newline : Text} (hnewline : newline = ['\n'] ∨ newline = ['\r', '\n'])
    (hlineFeed : '\n' ∉ line) (hnul : nul ∉ line) (hcr : line.getLast? ≠ some '\r')
    (rest : Text) : lineTexts (line ++ newline ++ rest) = line :: lineTexts rest := by
  have hkeep : nul ∉ line ++ newline := by
    intro hmem
    rcases List.mem_append.mp hmem with hc | hc
    · exact hnul hc
    · rcases hnewline with rfl | rfl <;> exact absurd hc (by decide)
  have hsplit : ∀ front tail : Text, '\n' ∉ front →
      (front ++ '\n' :: tail).splitOn '\n' = front :: tail.splitOn '\n' := by
    intro front tail hfront
    rw [List.splitOn_append_cons_self, List.splitOn_eq_singleton hfront, List.singleton_append]
  unfold lineTexts
  rw [List.takeWhile_append_of_pos (keeps_of_not_mem hkeep)]
  rcases hnewline with rfl | rfl
  · rw [List.append_assoc, List.singleton_append, hsplit _ _ hlineFeed,
      Cpp.dropCRs_cons _ (List.splitOn_ne_nil _ _), dropCR, if_neg hcr]
  · have hmem : '\n' ∉ line ++ ['\r'] := by simp [hlineFeed]
    have hassoc : ∀ tail : Text, line ++ ['\r', '\n'] ++ tail = line ++ ['\r'] ++ '\n' :: tail := by
      intro tail
      simp
    rw [hassoc, hsplit _ _ hmem, Cpp.dropCRs_cons _ (List.splitOn_ne_nil _ _), dropCR,
      if_pos (by simp), List.dropLast_concat]

end Rhodes.Settings
