import Rhodes.SettingsLines

/-!
A table of settings that is saved and loaded again: both readers find the table, the C++
reader when no value has a blank or a quote at an end, and the C++ reader never leaves the
line it is on, whatever the text is.
-/
namespace Rhodes.Settings

open Rhodes.Tokenizer (IsToken tokens tokens_field_cons)

theorem strip_bare {value : Text} (h : IsBare value) : strip isBlankOrQuote value = value :=
  strip_eq_self h.first h.last

theorem isBlank_of_not_white {c : Char} (h : Java.isWhite c = false) : isBlank c = false := by
  simp only [isBlank, decide_eq_false_iff_not]
  intro hblank
  rw [hblank] at h
  exact absurd h (by decide)

theorem blanks {n : Nat} {c : Char} (h : c ∈ List.replicate n ' ') : c = ' ' :=
  List.eq_of_mem_replicate h

/-- A line that begins with a name and has an '=' behind it. -/
theorem lineProperty_named {name : Text} (hname : IsName name) (before : Nat) (back : Text) :
    Cpp.lineProperty (name ++ List.replicate before ' ' ++ '=' :: back)
      = some (name, strip isBlankOrQuote back) := by
  have hequals : '=' ∉ name ++ List.replicate before ' ' := by
    simp [hname.equals]
  have hbody : (name ++ List.replicate before ' ' ++ '=' :: back).dropWhile isBlank
      = name ++ List.replicate before ' ' ++ '=' :: back := by
    have hfirst := hname.first
    cases name with
    | nil => exact absurd rfl hname.ne_nil
    | cons c name =>
      have hc : isBlank c = false := isBlank_of_not_white (hfirst c rfl).1
      simp [hc]
  have hcut : (name ++ List.replicate before ' ').rdropWhile isBlank = name := by
    rw [rdropWhile_append_right (by intro c hc; rw [blanks hc]; rfl)]
    exact rdropWhile_eq_self (fun c hc => isBlank_of_not_white (hname.last c hc))
  rw [Cpp.lineProperty_of_body hequals hbody, hcut, if_neg hname.ne_nil]

theorem isBlankOrQuote_front {after : Nat} {c : Char}
    (h : c ∈ List.replicate after ' ' ++ ['\'']) : isBlankOrQuote c = true := by
  rcases List.mem_append.mp h with hc | hc
  · rw [blanks hc]
    rfl
  · rw [List.mem_singleton.mp hc]
    rfl

/-- The line of a setting from its '=' on. -/
theorem assignment_eq (name : Text) (before after : Nat) (value : Text) :
    assignment name before after value = name ++ List.replicate before ' ' ++ '=' ::
      (List.replicate after ' ' ++ ['\''] ++ value ++ ['\'']) := by
  simp [assignment]

theorem lineProperty_assignment {name : Text} (hname : IsName name) (before after : Nat)
    (value : Text) :
    Cpp.lineProperty (assignment name before after value)
      = some (name, strip isBlankOrQuote value) := by
  rw [assignment_eq, lineProperty_named hname,
    strip_append_right (by intro c hc; rw [List.mem_singleton.mp hc]; rfl),
    strip_append_left (fun c hc => isBlankOrQuote_front hc)]

namespace Java

theorem trim_blanks_append (n : Nat) (s : Text) : trim (List.replicate n ' ' ++ s) = trim s :=
  strip_append_left (fun c hc => by rw [blanks hc]; rfl) s

theorem trim_append_blanks (s : Text) (n : Nat) : trim (s ++ List.replicate n ' ') = trim s :=
  strip_append_right (fun c hc => by rw [blanks hc]; rfl) s

theorem trim_name {name : Text} (h : IsName name) : trim name = name :=
  strip_eq_self (fun c hc => (h.first c hc).1) h.last

/-- A text that begins with a name and ends with a quote has nothing to trim. -/
theorem trim_named {name : Text} (h : IsName name) (rest : Text) :
    trim (name ++ rest ++ ['\'']) = name ++ rest ++ ['\''] := by
  have hfirst := h.first
  apply strip_eq_self
  · intro c hc
    cases name with
    | nil => exact absurd rfl h.ne_nil
    | cons d name => exact (hfirst c hc).1
  · intro c hc
    simp only [List.getLast?_append, List.getLast?_singleton, Option.some_or, Option.mem_def,
      Option.some.injEq] at hc
    rw [← hc]
    rfl

theorem head_named {name : Text} (h : IsName name) (rest : Text) :
    (name ++ rest).head? ≠ some '#' := by
  have hfirst := h.first
  cases name with
  | nil => exact absurd rfl h.ne_nil
  | cons c name =>
    intro hc
    exact (hfirst c rfl).2 (by simpa using hc)

theorem nameAndValue_of_equals {front : Text} (hne : front ≠ []) (hfront : '=' ∉ front)
    (back : Text) : nameAndValue (front ++ '=' :: back) = (front, back) := by
  have hidx : (front ++ '=' :: back).idxOf? '=' = some front.length := by
    rw [List.idxOf?_eq_some_iff]
    refine ⟨by simp, by simp, ?_⟩
    intro j hj
    rw [List.getElem_append_left hj]
    intro heq
    exact hfront (heq ▸ List.getElem_mem hj)
  unfold nameAndValue
  rw [hidx]
  cases front with
  | nil => exact absurd rfl hne
  | cons c front => simp

theorem unquote_quoted (value : Text) : unquote ('\'' :: value ++ ['\'']) = .ok value := by
  have hends : ('\'' :: value ++ ['\'']).head? = some '\'' ∧
      ('\'' :: value ++ ['\'']).getLast? = some '\'' := by
    rw [List.getLast?_append]
    simp
  rw [unquote, if_pos hends]
  simp

theorem trim_quoted (value : Text) : trim ('\'' :: value ++ ['\'']) = '\'' :: value ++ ['\''] := by
  apply strip_eq_self
  · intro c hc
    simp only [List.cons_append, List.head?_cons, Option.mem_def, Option.some.injEq] at hc
    rw [← hc]
    rfl
  · intro c hc
    rw [List.getLast?_append] at hc
    simp only [List.getLast?_singleton, Option.some_or, Option.mem_def, Option.some.injEq] at hc
    rw [← hc]
    rfl

theorem readToken_assignment {name : Text} (hname : IsName name) (before after : Nat)
    (value : Text) : readToken (assignment name before after value) = .ok (some (name, value)) := by
  have htrim : trim (assignment name before after value) = assignment name before after value := by
    have h := trim_named hname (List.replicate before ' ' ++ '=' :: List.replicate after ' ' ++
      ['\''] ++ value)
    simpa [assignment] using h
  have hne : assignment name before after value ≠ [] := by simp [assignment]
  have hhead : (assignment name before after value).head? ≠ some '#' := by
    have h := head_named hname (List.replicate before ' ' ++ '=' :: List.replicate after ' ' ++
      ['\''] ++ value ++ ['\''])
    simpa [assignment] using h
  have hparts : nameAndValue (assignment name before after value)
      = (name ++ List.replicate before ' ', List.replicate after ' ' ++
        ('\'' :: value ++ ['\''])) := by
    have hne : name ++ List.replicate before ' ' ≠ [] := by simp [hname.ne_nil]
    have hequals : '=' ∉ name ++ List.replicate before ' ' := by simp [hname.equals]
    have h := nameAndValue_of_equals hne hequals
      (List.replicate after ' ' ++ ('\'' :: value ++ ['\'']))
    simpa [assignment] using h
  simp only [readToken, htrim, if_neg hne, if_neg hhead, hparts, trim_blanks_append,
    trim_append_blanks, trim_quoted, unquote_quoted, trim_name hname]

end Java

/-- The settings of a table one after the other. -/
def putEntries (values : Table Text) (entries : List (Sigma (fun _ : Text => Text))) : Table Text :=
  entries.foldl (fun t e => t.insert e.1 e.2) values

theorem lookup_putEntries (entries : List (Sigma (fun _ : Text => Text)))
    (hnodup : entries.NodupKeys) (values : Table Text) (k : Text) :
    (putEntries values entries).lookup k = (entries.dlookup k).or (values.lookup k) := by
  induction entries generalizing values with
  | nil => rfl
  | cons e entries ih =>
    obtain ⟨a, b⟩ := e
    obtain ⟨hnew, hrest⟩ := List.nodupKeys_cons.mp hnodup
    have hstep := ih hrest (values.insert a b)
    unfold putEntries at hstep ⊢
    rw [List.foldl_cons, hstep]
    by_cases hk : k = a
    · subst hk
      have hnone : entries.dlookup k = none := List.dlookup_eq_none.mpr hnew
      rw [hnone, List.dlookup_cons_eq, AList.lookup_insert]
      rfl
    · rw [List.dlookup_cons_ne _ _ hk, AList.lookup_insert_ne hk]

theorem lookup_putEntries_entries (m : Table Text) (k : Text) :
    (putEntries ∅ m.entries).lookup k = m.lookup k := by
  rw [lookup_putEntries m.entries m.nodupKeys, AList.lookup_empty, Option.or_none]
  rfl

/-- A saved setting is an assignment without blanks. -/
theorem saved_eq (name value newline : Text) :
    name ++ ['=', '\''] ++ value ++ ['\''] ++ newline = assignment name 0 0 value ++ newline := by
  simp [assignment]

theorem lineFeed_not_mem_assignment {name value : Text} (hname : IsName name)
    (hvalue : IsValue value) : '\n' ∉ assignment name 0 0 value := by
  simp [assignment, hname.lineFeed, hvalue.lineFeed]

theorem nul_not_mem_assignment {name value : Text} (hname : IsName name) (hvalue : IsValue value) :
    nul ∉ assignment name 0 0 value := by
  have h₁ : nul ≠ '=' := by decide
  have h₂ : nul ≠ '\'' := by decide
  simp [assignment, hname.noNul, hvalue.noNul, h₁, h₂]

theorem lineTexts_saved {newline : Text} (hnewline : newline = ['\n'] ∨ newline = ['\r', '\n'])
    (entries : List (Sigma (fun _ : Text => Text)))
    (h : ∀ e ∈ entries, IsName e.1 ∧ IsValue e.2) :
    lineTexts (entries.flatMap (fun e => e.1 ++ ['=', '\''] ++ e.2 ++ ['\''] ++ newline))
      = entries.map (fun e => assignment e.1 0 0 e.2) ++ [[]] := by
  induction entries with
  | nil => rfl
  | cons e entries ih =>
    obtain ⟨hname, hvalue⟩ := h e List.mem_cons_self
    have hcr : (assignment e.1 0 0 e.2).getLast? ≠ some '\r' := by
      rw [assignment, List.getLast?_append]
      simp
    rw [List.flatMap_cons, saved_eq, lineTexts_cons hnewline
      (lineFeed_not_mem_assignment hname hvalue) (nul_not_mem_assignment hname hvalue) hcr,
      ih (fun e' he' => h e' (List.mem_cons_of_mem _ he'))]
    rfl

theorem Cpp.load_saved {newline : Text} (hnewline : newline = ['\n'] ∨ newline = ['\r', '\n'])
    (m values : Table Text) (h : ∀ e ∈ m.entries, IsName e.1 ∧ IsValue e.2 ∧ IsBare e.2) :
    Cpp.loadFromString (Cpp.saveToString newline m) values =
      some (putEntries values m.entries) := by
  have hlines := lineTexts_saved hnewline m.entries (fun e he => ⟨(h e he).1, (h e he).2.1⟩)
  rw [Cpp.loadFromString_eq, Cpp.saveToString, hlines, List.foldl_append, List.foldl_map]
  have hstep : ∀ (entries : List (Sigma (fun _ : Text => Text))) (t : Table Text),
      (∀ e ∈ entries, IsName e.1 ∧ IsValue e.2 ∧ IsBare e.2) →
      entries.foldl (fun t e => Cpp.putLine t (assignment e.1 0 0 e.2)) t =
        putEntries t entries := by
    intro entries
    induction entries with
    | nil => exact fun t _ => rfl
    | cons e entries ih =>
      intro t he
      obtain ⟨hname, -, hbare⟩ := he e List.mem_cons_self
      have hput : Cpp.putLine t (assignment e.1 0 0 e.2) = t.insert e.1 e.2 := by
        rw [Cpp.putLine, lineProperty_assignment hname, strip_bare hbare]
      rw [List.foldl_cons, hput, ih _ (fun e' he' => he e' (List.mem_cons_of_mem _ he'))]
      rfl
  rw [hstep m.entries values h]
  rfl

theorem isToken_line {line : Text} (hne : line ≠ []) (hline : '\n' ∉ line) :
    IsToken ['\n'] line := by
  refine ⟨hne, ?_⟩
  intro c hc hdelim
  rw [List.mem_singleton.mp hdelim] at hc
  exact hline hc

theorem Java.load_saved (m values : Table Text) (h : ∀ e ∈ m.entries, IsName e.1 ∧ IsValue e.2) :
    Java.loadFromString (Java.saveToString m) values = .ok (putEntries values m.entries) := by
  unfold Java.loadFromString Java.saveToString putEntries
  generalize m.entries = entries at h
  induction entries generalizing values with
  | nil => rfl
  | cons e entries ih =>
    obtain ⟨hname, hvalue⟩ := h e List.mem_cons_self
    have htoken : IsToken ['\n'] (assignment e.1 0 0 e.2) :=
      isToken_line (by simp [assignment]) (lineFeed_not_mem_assignment hname hvalue)
    have hline : e.1 ++ ['=', '\''] ++ e.2 ++ ['\'', '\n'] = assignment e.1 0 0 e.2 ++ ['\n'] := by
      simp [assignment]
    have hput : Java.loadToken values (assignment e.1 0 0 e.2) = .ok (values.insert e.1 e.2) := by
      rw [Java.loadToken, Java.readToken_assignment hname]
    rw [List.flatMap_cons, hline, List.append_assoc, List.singleton_append,
      tokens_field_cons List.mem_cons_self htoken, List.foldlM_cons, hput]
    exact ih (values.insert e.1 e.2) (fun e' he' => h e' (List.mem_cons_of_mem _ he'))

/-- Where the property of a call of loadProperty is: its lengths are not negative, and its
name and its value end on the line, which has `len` characters from `start` on. -/
structure InLine (start : Text) (len : Int) (p : Cpp.Property) : Prop where
  nameLen : 0 ≤ p.nNameLen
  valueLen : 0 ≤ p.nValueLen
  name : (start.length - p.szName.length : Int) + p.nNameLen ≤ len
  value : (start.length - p.szValue.length : Int) + p.nValueLen ≤ len

theorem inLine_of_onLine {line after name value : Text} {p : Cpp.Property}
    (h : Cpp.OnLine line after name value p) : InLine (line ++ after) line.length p := by
  obtain ⟨hnameLen, ⟨front, back, hname, hszName⟩, hvalueLen, front', back', hvalue, hszValue⟩ := h
  constructor
  · omega
  · omega
  · rw [hnameLen, hszName]
    have hlen := congrArg List.length hname
    simp only [List.length_append] at hlen ⊢
    omega
  · rw [hvalueLen, hszValue]
    have hlen := congrArg List.length hvalue
    simp only [List.length_append] at hlen ⊢
    omega

theorem loadProperty_inLine (text : Text) {call : Text × Int} (h : call ∈ Cpp.lines text) :
    ∃ p, Cpp.loadProperty call.1 call.2 = some p ∧ ∀ q ∈ p, InLine call.1 call.2 q := by
  obtain ⟨line, after, rfl, hafter⟩ := Cpp.exists_line h
  obtain ⟨-, hload⟩ | ⟨name, value, p, -, hload, hon⟩ := Cpp.loadProperty_spec line after hafter
  · exact ⟨none, hload, by simp⟩
  · refine ⟨some p, hload, ?_⟩
    intro q hq
    rw [← Option.mem_some.mp hq]
    exact inLine_of_onLine hon

/-- A table that is saved and loaded again is the same table, and the C++ reader stays in the
text of every string. -/
theorem settings_round_trip :
    (∀ m : Table Text, (∀ e ∈ m.entries, IsName e.1 ∧ IsValue e.2) →
      ∃ loaded, Java.loadFromString (Java.saveToString m) ∅ = .ok loaded ∧
        ∀ k, loaded.lookup k = m.lookup k) ∧
    (∀ newline : Text, newline = ['\n'] ∨ newline = ['\r', '\n'] →
      ∀ m : Table Text, (∀ e ∈ m.entries, IsName e.1 ∧ IsValue e.2 ∧ IsBare e.2) →
        ∃ loaded, Cpp.loadFromString (Cpp.saveToString newline m) ∅ = some loaded ∧
          ∀ k, loaded.lookup k = m.lookup k) ∧
    ∀ text : Text,
      (∀ values, ∃ loaded, Cpp.loadFromString text values = some loaded) ∧
      ∀ call ∈ Cpp.lines text, ∃ p, Cpp.loadProperty call.1 call.2 = some p ∧
        ∀ q ∈ p, InLine call.1 call.2 q := by
  refine ⟨?_, ?_, ?_⟩
  · intro m h
    exact ⟨_, Java.load_saved m ∅ h, lookup_putEntries_entries m⟩
  · intro newline hnewline m h
    exact ⟨_, Cpp.load_saved hnewline m ∅ h, lookup_putEntries_entries m⟩
  · intro text
    exact ⟨fun values => ⟨_, Cpp.loadFromString_eq text values⟩,
      fun call hcall => loadProperty_inLine text hcall⟩

/-- Two settings, one with an '=' in its value. -/
def twoSettings : Table Text :=
  ⟨[⟨"url".toList, "http://host?a=b".toList⟩, ⟨"log_level".toList, "3".toList⟩], by
    simp [List.NodupKeys, List.keys]⟩

theorem settings_round_trip_twoSettings :
    (∃ loaded, Java.loadFromString (Java.saveToString twoSettings) ∅ = .ok loaded ∧
      ∀ k, loaded.lookup k = twoSettings.lookup k) ∧
    ∃ loaded, Cpp.loadFromString (Cpp.saveToString ['\r', '\n'] twoSettings) ∅ = some loaded ∧
      ∀ k, loaded.lookup k = twoSettings.lookup k := by
  have hentry : ∀ e ∈ twoSettings.entries, IsName e.1 ∧ IsValue e.2 ∧ IsBare e.2 := by
    refine List.forall_mem_cons.mpr ⟨?_, List.forall_mem_singleton.mpr ?_⟩
    all_goals
      refine ⟨⟨by decide, by decide, by decide, by decide, ?_, ?_⟩,
        ⟨by decide, by decide, by decide⟩, ⟨?_, ?_⟩⟩
      all_goals
        intro c hc
        cases hc
        decide
  obtain ⟨hjava, hcpp, -⟩ := settings_round_trip
  exact ⟨hjava twoSettings (fun e he => ⟨(hentry e he).1, (hentry e he).2.1⟩),
    hcpp _ (Or.inr rfl) twoSettings hentry⟩

end Rhodes.Settings
