import Rhodes.RhoConfigLines

/-!
When the readers of rhoconfig.txt agree. The values of a key are compared line by line: the
Java reader has the value of an assignment as it stands, the C++ reader what is left of it
without blanks at its ends, and the Ruby reader what stands in front of an '=' in it.
-/
namespace Rhodes.Settings

open Rhodes.Cut

section Values

theorem IsValue.append {s t : Text} (hs : IsValue s) (ht : IsValue t) : IsValue (s ++ t) := by
  refine ⟨?_, ?_, ?_⟩
  · simp [hs.lineFeed, ht.lineFeed]
  · simp [hs.carriageReturn, ht.carriageReturn]
  · simp [hs.noNul, ht.noNul]

theorem isValue_blanks (n : Nat) : IsValue (List.replicate n ' ') := by
  refine ⟨?_, ?_, ?_⟩ <;>
  · intro h
    exact absurd (blanks h) (by decide)

theorem isValue_name {name : Text} (h : IsName name) (hcr : '\r' ∉ name) : IsValue name :=
  ⟨h.lineFeed, hcr, h.noNul⟩

theorem isValue_quote : IsValue ['\''] := ⟨by decide, by decide, by decide⟩

theorem isValue_equals : IsValue ['='] := ⟨by decide, by decide, by decide⟩

theorem isValue_named {name back : Text} (hname : IsName name) (hcr : '\r' ∉ name) (n : Nat)
    (hback : IsValue back) : IsValue (name ++ List.replicate n ' ' ++ '=' :: back) :=
  ((isValue_name hname hcr).append (isValue_blanks n)).append (isValue_equals.append hback)

end Values

namespace Line

theorem text_loneQuote (key : Text) (before after : Nat) :
    (loneQuote key before after).text
      = key ++ List.replicate before ' ' ++ '=' :: (List.replicate after ' ' ++ ['\'']) := by
  simp [text]

theorem text_assign (key : Text) (before after : Nat) (value : Text) :
    (assign key before after value).text = key ++ List.replicate before ' ' ++ '=' ::
      (List.replicate after ' ' ++ ['\''] ++ value ++ ['\'']) :=
  assignment_eq key before after value

theorem isValue_text {line : Line} (h : line.Valid) : IsValue line.text := by
  cases line with
  | blank text =>
    refine ⟨?_, ?_, ?_⟩ <;>
    · intro hmem
      rcases h _ hmem with hc | hc <;> exact absurd hc (by decide)
  | comment text =>
    have hsign : IsValue ['#'] := ⟨by decide, by decide, by decide⟩
    exact hsign.append h
  | assign key before after value =>
    obtain ⟨hname, hcr, hvalue, -⟩ := h
    rw [text_assign]
    exact isValue_named hname hcr before
      ((((isValue_blanks after).append isValue_quote).append hvalue).append isValue_quote)
  | noEquals text => exact h.1
  | loneQuote key before after =>
    obtain ⟨hname, hcr⟩ := h
    rw [text_loneQuote]
    exact isValue_named hname hcr before ((isValue_blanks after).append isValue_quote)

end Line

section EachLine

variable {key value : Text} {before after : Nat}

theorem lineProperty_no_equals {line : Text} (h : '=' ∉ line) : Cpp.lineProperty line = none := by
  have hbody : '=' ∉ line.dropWhile isBlank := fun hmem =>
    h ((List.dropWhile_sublist isBlank).subset hmem)
  simp [Cpp.lineProperty, hbody]

/-- A comment with an '=' is a property for the C++ reader. -/
theorem lineProperty_comment {text : Text} (h : '=' ∈ text) :
    ∃ name value, Cpp.lineProperty ('#' :: text) = some ('#' :: name, value) := by
  obtain ⟨front, back, rfl, hfront⟩ := List.eq_append_cons_of_mem h
  have hmem : '=' ∉ '#' :: front := by simp [hfront]
  have hbody : ('#' :: (front ++ '=' :: back)).dropWhile isBlank
      = '#' :: front ++ '=' :: back := by simp [isBlank]
  obtain ⟨name, hname⟩ := rdropWhile_cons (p := isBlank) (c := '#') rfl front
  rw [Cpp.lineProperty_of_body hmem hbody, hname]
  exact ⟨name, _, rfl⟩

theorem lineProperty_loneQuote (hname : IsName key) :
    Cpp.lineProperty (Line.loneQuote key before after).text = some (key, []) := by
  rw [Line.text_loneQuote, lineProperty_named hname,
    strip_eq_nil (fun c hc => isBlankOrQuote_front hc)]

theorem readToken_blank {text : Text} (h : ∀ c ∈ text, c = ' ' ∨ c = '\t') :
    Java.readToken text = .ok none := by
  have htrim : Java.trim text = [] := strip_eq_nil (fun c hc => by
    rcases h c hc with rfl | rfl <;> rfl)
  simp [Java.readToken, htrim]

theorem readToken_comment (text : Text) : Java.readToken ('#' :: text) = .ok none := by
  obtain ⟨rest, hrest⟩ := rdropWhile_cons (p := Java.isWhite) (c := '#') rfl text
  have hfront : ('#' :: text).dropWhile Java.isWhite = '#' :: text := by simp [Java.isWhite]
  have htrim : Java.trim ('#' :: text) = '#' :: rest := by rw [Java.trim, strip, hfront, hrest]
  simp [Java.readToken, htrim]

theorem readToken_noEquals {text : Text} (h : (Line.noEquals text).Valid) :
    Java.readToken text = .ok (some (Java.trim text, [])) := by
  obtain ⟨-, hequals, hne, hcomment⟩ := h
  have hmem : '=' ∉ Java.trim text := fun hmem => hequals (mem_of_mem_strip hmem)
  have hparts : Java.nameAndValue (Java.trim text) = (Java.trim text, []) := by
    rw [Java.nameAndValue, List.idxOf?_eq_none_iff.mpr hmem]
  have htrim : Java.trim (Java.trim text) = Java.trim text := strip_strip text
  have hempty : Java.unquote (Java.trim []) = .ok [] := rfl
  simp only [Java.readToken, if_neg hne, if_neg hcomment, hparts, hempty, htrim]

/-- The value is a lone quote, whose substring does not exist. -/
theorem readToken_loneQuote (hname : IsName key) :
    Java.readToken (Line.loneQuote key before after).text = .error () := by
  have htext : (Line.loneQuote key before after).text
      = key ++ (List.replicate before ' ' ++ '=' :: List.replicate after ' ') ++ ['\''] := by
    simp [Line.text]
  have hhead : (Line.loneQuote key before after).text.head? ≠ some '#' := by
    rw [htext, List.append_assoc]
    exact Java.head_named hname _
  have htrim : Java.trim (Line.loneQuote key before after).text
      = (Line.loneQuote key before after).text := by
    rw [htext]
    exact Java.trim_named hname _
  have hparts : Java.nameAndValue (Line.loneQuote key before after).text
      = (key ++ List.replicate before ' ', List.replicate after ' ' ++ ['\'']) := by
    rw [Line.text_loneQuote]
    exact Java.nameAndValue_of_equals (by simp [hname.ne_nil]) (by simp [hname.equals]) _
  have hne : (Line.loneQuote key before after).text ≠ [] := by simp [Line.text]
  have hquote : Java.unquote (Java.trim ['\'']) = .error () := rfl
  simp only [Java.readToken, htrim, if_neg hne, if_neg hhead, hparts, Java.trim_blanks_append,
    hquote]

theorem readLine_blank {text : Text} (h : ∀ c ∈ text, c = ' ' ∨ c = '\t') :
    Ruby.readLine text = none := by
  have hskip : text.dropWhile Ruby.isSpace = [] := List.dropWhile_eq_nil_iff.mpr (fun c hc => by
    rcases h c hc with rfl | rfl <;> rfl)
  simp [Ruby.readLine, Ruby.isSkipped, hskip]

theorem readLine_comment (text : Text) : Ruby.readLine ('#' :: text) = none := by
  have hskip : Ruby.isSkipped ('#' :: text) = true := by
    have hfront : ('#' :: text).dropWhile Ruby.isSpace = '#' :: text := by
      simp [Ruby.isSpace, Tokenizer.isSpace]
    simp [Ruby.isSkipped, hfront]
  simp [Ruby.readLine, hskip]

theorem readLine_noEquals {text : Text} (h : (Line.noEquals text).Valid) :
    Ruby.readLine text = none := by
  obtain ⟨hvalue, hequals, -⟩ := h
  have hpart : (Ruby.splitEquals (Ruby.chomp text))[1]? = none := by
    rw [Ruby.chomp_line hvalue, Ruby.splitEquals, List.splitOn_eq_singleton hequals,
      List.getElem?_eq_none_iff]
    exact (List.rdropWhile_prefix _ _).length_le
  unfold Ruby.readLine
  simp only [hpart]
  by_cases hskip : Ruby.isSkipped text = true
  · rw [if_pos hskip]
  · rw [if_neg hskip]
    cases (Ruby.splitEquals (Ruby.chomp text))[0]? <;> rfl

theorem readLine_loneQuote (h : (Line.loneQuote key before after).Valid) :
    Ruby.readLine (Line.loneQuote key before after).text = some (key, some []) := by
  have hvalue := Line.isValue_text h
  obtain ⟨hname, -⟩ := h
  have hall : (List.replicate after ' ' ++ ['\'']).takeWhile (fun c => c ≠ '=')
      = List.replicate after ' ' ++ ['\''] := takeWhile_ne (by simp)
  rw [Line.text_loneQuote] at hvalue ⊢
  rw [Ruby.readLine_named hname before hvalue (by rw [hall]; simp), hall,
    Ruby.partValue_loneQuote]

/-- The Ruby reader has the value of an assignment, unless an '=' cuts it or it is nil. -/
theorem readLine_assign (h : (Line.assign key before after value).Valid) :
    ∃ val, Ruby.readLine (Line.assign key before after value).text = some (key, val) ∧
      (val = some value ↔ '=' ∉ value ∧ value ≠ ['n', 'i', 'l']) := by
  have hline := Line.isValue_text h
  obtain ⟨hname, -, -, hquote⟩ := h
  rw [Line.text_assign] at hline ⊢
  have hassoc : List.replicate after ' ' ++ ['\''] ++ value ++ ['\'']
      = List.replicate after ' ' ++ ['\''] ++ (value ++ ['\'']) := List.append_assoc _ _ _
  have hfront : ∀ c ∈ List.replicate after ' ' ++ ['\''], decide (c ≠ '=') = true := by
    intro c hc
    rcases List.mem_append.mp hc with hc | hc
    · rw [blanks hc]
      rfl
    · rw [List.mem_singleton.mp hc]
      rfl
  have hne : (List.replicate after ' ' ++ ['\''] ++ value ++ ['\'']).takeWhile (fun c => c ≠ '=')
      ≠ [] := by
    rw [hassoc, List.takeWhile_append_of_pos hfront]
    simp
  refine ⟨_, Ruby.readLine_named hname before hline hne, ?_⟩
  by_cases hequals : '=' ∈ value
  · have hcut : Ruby.partValue ((List.replicate after ' ' ++ ['\''] ++ value ++ ['\'']).takeWhile
        (fun c => c ≠ '=')) ≠ some value := by
      refine Ruby.partValue_ne ?_ hequals
      intro hmem
      exact absurd (List.mem_takeWhile_imp hmem) (by decide)
    exact ⟨fun h => absurd h hcut, fun h => absurd hequals h.1⟩
  · have hall : '=' ∉ List.replicate after ' ' ++ ['\''] ++ value ++ ['\''] := by simp [hequals]
    rw [takeWhile_ne hall, Ruby.partValue_quoted after hquote]
    by_cases hnil : value = ['n', 'i', 'l']
    · simp [hnil]
    · simp [hnil, hequals]

end EachLine

section Readers

variable {newline : Text} {lines : List Line} {key value : Text}

theorem isValue_texts (h : ∀ line ∈ lines, line.Valid) : ∀ t ∈ lines.map Line.text, IsValue t := by
  intro t ht
  obtain ⟨line, hline, rfl⟩ := List.mem_map.mp ht
  exact Line.isValue_text (h line hline)

theorem cppValue_eq (hnewline : IsNewline newline) (h : ∀ line ∈ lines, line.Valid) :
    cppValue newline lines key
      = lastAssigned (fun line : Line => Cpp.lineProperty line.text) lines key := by
  rw [cppValue, configText, Cpp.loadFromString_texts hnewline (isValue_texts h), List.foldl_map]
  exact lookup_foldl_putValue (fun line : Line => Cpp.lineProperty line.text) lines key

theorem rubyValue_eq (hnewline : IsNewline newline) (h : ∀ line ∈ lines, line.Valid) :
    rubyValue newline lines key
      = lastAssigned (fun line : Line => Ruby.readLine line.text) lines key := by
  rw [rubyValue, configText, Ruby.processRhoconfig_texts hnewline (isValue_texts h),
    List.foldl_map, ← lookup_foldl_putValue]
  congr 1
  refine List.foldl_ext _ _ _ (fun config line _ => ?_)
  simp only [Ruby.addConfig, putValue]
  cases Ruby.readLine line.text <;> rfl

theorem readToken_text {line : Line} (h : line.Valid) :
    Java.readToken line.text
      = if line.isLoneQuote then .error () else .ok line.assignedOrName := by
  cases line with
  | blank text => exact readToken_blank h
  | comment text => exact readToken_comment text
  | assign key before after value => exact Java.readToken_assignment h.1 before after value
  | noEquals text => exact readToken_noEquals h
  | loneQuote key before after => exact readToken_loneQuote h.1

/-- The exception of a lone quote ends the reading. -/
theorem javaValue_eq (hnewline : IsNewline newline) (h : ∀ line ∈ lines, line.Valid) :
    javaValue newline lines key
      = lastAssigned Line.assignedOrName (lines.takeWhile (fun line => !line.isLoneQuote)) key := by
  have hload : ∀ values : Table Text,
      Java.tableAfter ((lines.map Line.text).foldlM Java.loadToken values)
      = (lines.takeWhile (fun line => !line.isLoneQuote)).foldl
          (putValue Line.assignedOrName) values := by
    induction lines with
    | nil => exact fun values => rfl
    | cons line lines ih =>
      intro values
      have hline := readToken_text (h line List.mem_cons_self)
      have hrest := ih (fun l hl => h l (List.mem_cons_of_mem _ hl))
      by_cases hquote : line.isLoneQuote = true
      · have hstop : Java.loadToken values line.text = .error values := by
          rw [Java.loadToken, hline, if_pos hquote]
        rw [List.map_cons, List.foldlM_cons, hstop, List.takeWhile_cons_of_neg (by simp [hquote])]
        rfl
      · have hput : Java.loadToken values line.text
            = .ok (putValue Line.assignedOrName values line) := by
          rw [Java.loadToken, hline, if_neg hquote, putValue]
          cases line.assignedOrName <;> rfl
        rw [List.map_cons, List.foldlM_cons, hput, List.takeWhile_cons_of_pos (by simp [hquote]),
          List.foldl_cons]
        exact hrest _
  rw [javaValue, configText, Java.loadFromString_texts hnewline (isValue_texts h), hload,
    lookup_foldl_putValue]

/-- A key that is not in the comments that the C++ reader takes for properties. -/
def NotComment (key : Text) (line : Line) : Prop :=
  key.head? ≠ some '#' ∨ ∀ text, line = .comment text → '=' ∉ text

theorem cpp_line {line : Line} (h : line.Valid) (hkey : NotComment key line) :
    Option.Rel (fun v w => w = strip isBlankOrQuote v) (valueAt Line.assignedOrQuote key line)
      (valueAt (fun line : Line => Cpp.lineProperty line.text) key line) := by
  cases line with
  | blank text =>
    have hequals : '=' ∉ text := by
      intro hmem
      rcases h _ hmem with hc | hc <;> exact absurd hc (by decide)
    have hnone : Cpp.lineProperty (Line.blank text).text = none := lineProperty_no_equals hequals
    refine valueAt_rel ?_ key
    rw [hnone]
    exact Option.Rel.none
  | comment text =>
    by_cases hequals : '=' ∈ text
    · rcases hkey with hkey | hkey
      · obtain ⟨name, v, hproperty⟩ := lineProperty_comment hequals
        have hne : '#' :: name ≠ key := by
          intro heq
          rw [← heq] at hkey
          exact hkey rfl
        simp only [valueAt, Line.text, hproperty, Option.bind_some, if_neg hne]
        exact Option.Rel.none
      · exact absurd hequals (hkey text rfl)
    · have hnone : Cpp.lineProperty (Line.comment text).text = none :=
        lineProperty_no_equals (by simp [Line.text, hequals])
      refine valueAt_rel ?_ key
      rw [hnone]
      exact Option.Rel.none
  | assign key before after value =>
    refine valueAt_rel ?_ _
    have hproperty : Cpp.lineProperty (Line.assign key before after value).text = _ :=
      lineProperty_assignment h.1 before after value
    rw [hproperty]
    exact Option.Rel.some ⟨rfl, rfl⟩
  | noEquals text =>
    have hnone : Cpp.lineProperty (Line.noEquals text).text = none :=
      lineProperty_no_equals h.2.1
    refine valueAt_rel ?_ key
    rw [hnone]
    exact Option.Rel.none
  | loneQuote key before after =>
    refine valueAt_rel ?_ _
    rw [lineProperty_loneQuote h.1]
    exact Option.Rel.some ⟨rfl, rfl⟩

theorem ruby_line {line : Line} (h : line.Valid) :
    Option.Rel (fun v w => w = some v ↔ '=' ∉ v ∧ v ≠ ['n', 'i', 'l'])
      (valueAt Line.assignedOrQuote key line)
      (valueAt (fun line : Line => Ruby.readLine line.text) key line) := by
  refine valueAt_rel ?_ key
  cases line with
  | blank text =>
    have hnone : Ruby.readLine (Line.blank text).text = none := readLine_blank h
    rw [hnone]
    exact Option.Rel.none
  | comment text =>
    have hnone : Ruby.readLine (Line.comment text).text = none := readLine_comment text
    rw [hnone]
    exact Option.Rel.none
  | assign key before after value =>
    obtain ⟨val, hread, hval⟩ := readLine_assign h
    rw [hread]
    exact Option.Rel.some ⟨rfl, hval⟩
  | noEquals text =>
    have hnone : Ruby.readLine (Line.noEquals text).text = none := readLine_noEquals h
    rw [hnone]
    exact Option.Rel.none
  | loneQuote key before after =>
    rw [readLine_loneQuote h]
    exact Option.Rel.some ⟨rfl, by simp⟩

/-- What the Java reader has after the well-formed lines. -/
theorem lastAssigned_good (f : Line → Option (Text × Text))
    (hf : ∀ line, line.wellFormed = true → f line = line.assigned) :
    lastAssigned f (lines.filter Line.wellFormed) key = lastAssigned Line.assigned lines key := by
  have hmalformed : ∀ line ∈ lines, line.wellFormed = false →
      valueAt Line.assigned key line = none := by
    intro line _ hline
    cases line <;> first | rfl | cases hline
  rw [← lastAssigned_filter hmalformed]
  refine lastAssigned_congr (fun line hline => ?_)
  rw [valueAt, valueAt, hf line (List.mem_filter.mp hline).2]

theorem assignedOrQuote_good (line : Line) (h : line.wellFormed = true) :
    line.assignedOrQuote = line.assigned := by
  cases line <;> first | rfl | cases h

theorem assignedOrName_good (line : Line) (h : line.wellFormed = true) :
    line.assignedOrName = line.assigned := by
  cases line <;> first | rfl | cases h

theorem valid_good (h : ∀ line ∈ lines, line.Valid) :
    ∀ line ∈ lines.filter Line.wellFormed, line.Valid :=
  fun line hline => h line (List.mem_filter.mp hline).1

theorem javaValue_good (key : Text) (hnewline : IsNewline newline)
    (h : ∀ line ∈ lines, line.Valid) :
    javaValue newline (lines.filter Line.wellFormed) key
      = lastAssigned Line.assigned lines key := by
  have hall : (lines.filter Line.wellFormed).takeWhile (fun line => !line.isLoneQuote)
      = lines.filter Line.wellFormed := by
    rw [List.takeWhile_eq_self_iff]
    intro line hline
    have hgood := (List.mem_filter.mp hline).2
    cases line <;> first | rfl | cases hgood
  rw [javaValue_eq hnewline (valid_good h), hall, lastAssigned_good _ assignedOrName_good]

theorem cppValue_rel (hnewline : IsNewline newline) (h : ∀ line ∈ lines, line.Valid)
    (hkey : ∀ line ∈ lines, NotComment key line) :
    Option.Rel (fun v w => w = strip isBlankOrQuote v)
      (lastAssigned Line.assignedOrQuote lines key) (cppValue newline lines key) := by
  rw [cppValue_eq hnewline h]
  exact lastAssigned_rel (fun line hline => cpp_line (h line hline) (hkey line hline))

theorem cppValue_good (hnewline : IsNewline newline) (h : ∀ line ∈ lines, line.Valid)
    (hkey : ∀ line ∈ lines, NotComment key line) :
    Option.Rel (fun v w => w = strip isBlankOrQuote v) (lastAssigned Line.assigned lines key)
      (cppValue newline (lines.filter Line.wellFormed) key) := by
  rw [← lastAssigned_good _ assignedOrQuote_good]
  exact cppValue_rel hnewline (valid_good h) (fun line hline =>
    hkey line (List.mem_filter.mp hline).1)

theorem rubyValue_rel (key : Text) (hnewline : IsNewline newline) (h : ∀ line ∈ lines, line.Valid) :
    Option.Rel (fun v w => w = some v ↔ '=' ∉ v ∧ v ≠ ['n', 'i', 'l'])
      (lastAssigned Line.assignedOrQuote lines key) (rubyValue newline lines key) := by
  rw [rubyValue_eq hnewline h]
  exact lastAssigned_rel (fun line hline => ruby_line (h line hline))

theorem rubyValue_good (key : Text) (hnewline : IsNewline newline)
    (h : ∀ line ∈ lines, line.Valid) :
    Option.Rel (fun v w => w = some v ↔ '=' ∉ v ∧ v ≠ ['n', 'i', 'l'])
      (lastAssigned Line.assigned lines key)
      (rubyValue newline (lines.filter Line.wellFormed) key) := by
  rw [← lastAssigned_good _ assignedOrQuote_good]
  exact rubyValue_rel _ hnewline (valid_good h)

end Readers

/-- A value that all readers take as it stands. -/
structure IsPlain (value : Text) : Prop where
  equals : '=' ∉ value
  notNil : value ≠ ['n', 'i', 'l']
  first : value.head? ≠ some ' '
  last : value.getLast? ≠ some ' '

/-- No comment has an '=', the last value of every key is plain, and it is also the last one
when a lone quote stands for the empty value, and when a line without '=' does and nothing
behind the first lone quote counts. -/
structure Portable (lines : List Line) : Prop where
  comments : ∀ text, Line.comment text ∈ lines → '=' ∉ text
  values : ∀ key value, lastAssigned Line.assigned lines key = some value →
    IsPlain value ∧ lastAssigned Line.assignedOrQuote lines key = some value ∧
    lastAssigned Line.assignedOrName (lines.takeWhile (fun line => !line.isLoneQuote)) key
      = some value

section Agreement

variable {newline : Text} {lines : List Line} {key value : Text}

theorem assign_of_lastAssigned (h : lastAssigned Line.assigned lines key = some value) :
    ∃ before after, Line.assign key before after value ∈ lines := by
  obtain ⟨line, hline, hassigned⟩ := mem_of_lastAssigned h
  cases line with
  | assign key' before after value' =>
    cases hassigned
    exact ⟨before, after, hline⟩
  | blank text => cases hassigned
  | comment text => cases hassigned
  | noEquals text => cases hassigned
  | loneQuote key' before after => cases hassigned

theorem lastAssigned_of_assign {before after : Nat}
    (h : Line.assign key before after value ∈ lines) :
    ∃ v, lastAssigned Line.assigned lines key = some v := by
  cases hlast : lastAssigned Line.assigned lines key with
  | some v => exact ⟨v, rfl⟩
  | none =>
    have hnone := lastAssigned_eq_none.mp hlast _ h
    simp [valueAt, Line.assigned] at hnone

theorem notComment_of_name (h : IsName key) (line : Line) : NotComment key line := by
  left
  intro hhead
  exact (h.first '#' hhead).2 rfl

theorem strip_eq_self_iff (hquote : ∀ c ∈ value, Ruby.isQuote c = false) :
    strip isBlankOrQuote value = value ↔ value.head? ≠ some ' ' ∧ value.getLast? ≠ some ' ' := by
  have hblank : ∀ c ∈ value, isBlankOrQuote c = true → c = ' ' := by
    intro c hc htest
    have hnot := hquote c hc
    simp only [Ruby.isQuote, Bool.or_eq_false_iff, decide_eq_false_iff_not] at hnot
    simp only [isBlankOrQuote, Bool.or_eq_true, decide_eq_true_eq] at htest
    tauto
  constructor
  · intro hstrip
    constructor
    · intro hhead
      have hfirst := strip_first (p := isBlankOrQuote) value ' ' (by rw [hstrip]; exact hhead)
      exact absurd hfirst (by decide)
    · intro hend
      have hlast := strip_last (p := isBlankOrQuote) value ' ' (by rw [hstrip]; exact hend)
      exact absurd hlast (by decide)
  · intro hends
    apply strip_eq_self
    · intro c hc
      rw [Bool.eq_false_iff]
      intro htest
      have hsame := hblank c (List.mem_of_head? hc) htest
      exact hends.1 (hsame ▸ hc)
    · intro c hc
      rw [Bool.eq_false_iff]
      intro htest
      have hsame := hblank c (List.mem_of_getLast? hc) htest
      exact hends.2 (hsame ▸ hc)

theorem isPlain_iff (hquote : ∀ c ∈ value, Ruby.isQuote c = false) :
    IsPlain value ↔ strip isBlankOrQuote value = value ∧ '=' ∉ value ∧ value ≠ ['n', 'i', 'l'] := by
  rw [strip_eq_self_iff hquote]
  constructor
  · intro h
    exact ⟨⟨h.first, h.last⟩, h.equals, h.notNil⟩
  · intro h
    exact ⟨h.2.1, h.2.2, h.1.1, h.1.2⟩

/-- A lone quote leaves the last value or makes it empty. -/
theorem lastAssigned_orQuote (h : lastAssigned Line.assigned lines key = some value) :
    lastAssigned Line.assignedOrQuote lines key = some value ∨
    lastAssigned Line.assignedOrQuote lines key = some [] := by
  induction lines using List.reverseRecOn with
  | nil => cases h
  | append_singleton lines line ih =>
    rw [lastAssigned_concat] at h ⊢
    by_cases hquote : line.isLoneQuote = true
    · cases line with
      | loneQuote key' before after =>
        have hrest : lastAssigned Line.assigned lines key = some value := h
        by_cases hkey : key' = key
        · right
          simp [valueAt, Line.assignedOrQuote, hkey]
        · simpa [valueAt, Line.assignedOrQuote, hkey] using ih hrest
      | blank text => cases hquote
      | comment text => cases hquote
      | assign key' before after value' => cases hquote
      | noEquals text => cases hquote
    · have hsame : line.assignedOrQuote = line.assigned := by
        cases line <;> first | rfl | exact absurd rfl hquote
      have hvalue : valueAt Line.assignedOrQuote key line = valueAt Line.assigned key line := by
        rw [valueAt, valueAt, hsame]
      rw [hvalue]
      cases hline : valueAt Line.assigned key line with
      | some v =>
        rw [hline] at h
        left
        exact h
      | none =>
        rw [hline] at h
        exact ih h

theorem rel_some {β γ : Type} {R : β → γ → Prop} {v : β} {o : Option γ}
    (h : Option.Rel R (some v) o) : ∃ w, o = some w ∧ R v w := by
  cases h with
  | some hR => exact ⟨_, rfl, hR⟩

theorem rel_none {β γ : Type} {R : β → γ → Prop} {o : Option γ} (h : Option.Rel R none o) :
    o = none := by
  cases h
  rfl

theorem portable_comments (hnewline : IsNewline newline) (h : ∀ line ∈ lines, line.Valid)
    (hagree : ReadersAgree newline lines) (text : Text) (hmem : Line.comment text ∈ lines) :
    '=' ∉ text := by
  intro hequals
  obtain ⟨name, v, hproperty⟩ := lineProperty_comment hequals
  have hcpp : cppValue newline (lines.filter Line.wellFormed) ('#' :: name) ≠ none := by
    rw [cppValue_eq hnewline (valid_good h), Ne, lastAssigned_eq_none]
    intro hnone
    have hline := hnone _ (List.mem_filter.mpr ⟨hmem, rfl⟩)
    simp [valueAt, Line.text, hproperty] at hline
  rw [(hagree.1 _).1, javaValue_good _ hnewline h] at hcpp
  obtain ⟨value, hvalue⟩ := Option.ne_none_iff_exists'.mp hcpp
  obtain ⟨before, after, hassign⟩ := assign_of_lastAssigned hvalue
  exact ((h _ hassign).1.first '#' rfl).2 rfl

theorem portable_values (hnewline : IsNewline newline) (h : ∀ line ∈ lines, line.Valid)
    (hagree : ReadersAgree newline lines)
    (hlast : lastAssigned Line.assigned lines key = some value) :
    IsPlain value ∧ lastAssigned Line.assignedOrQuote lines key = some value ∧
    lastAssigned Line.assignedOrName (lines.takeWhile (fun line => !line.isLoneQuote)) key
      = some value := by
  obtain ⟨before, after, hassign⟩ := assign_of_lastAssigned hlast
  obtain ⟨hname, -, -, hquote⟩ := h _ hassign
  have hkey : ∀ line ∈ lines, NotComment key line := fun line _ => notComment_of_name hname line
  have hjava := javaValue_good key hnewline h
  have hcppGood := cppValue_good hnewline h hkey
  have hrubyGood := rubyValue_good key hnewline h
  rw [hlast] at hjava hcppGood hrubyGood
  obtain ⟨w, hw, hstrip⟩ := rel_some hcppGood
  obtain ⟨w', hw', hplain⟩ := rel_some hrubyGood
  obtain ⟨hsame, hsameRuby⟩ := hagree.1 key
  obtain ⟨hcppAll, hjavaAll, -⟩ := hagree.2 key before after value hassign
  rw [hw, hjava] at hsame
  rw [hw', hjava] at hsameRuby
  have hvalue : w = value := Option.some.inj hsame
  rw [hvalue] at hstrip
  refine ⟨?_, ?_, ?_⟩
  · exact (isPlain_iff hquote).mpr ⟨hstrip.symm, hplain.mp (Option.some.inj hsameRuby)⟩
  · rcases lastAssigned_orQuote hlast with hsome | hempty
    · exact hsome
    · have hcpp := cppValue_rel hnewline h hkey
      rw [hempty] at hcpp
      obtain ⟨w₀, hw₀, hstrip₀⟩ := rel_some hcpp
      rw [hcppAll, hw, hvalue] at hw₀
      have hnil : strip isBlankOrQuote [] = [] := rfl
      rw [hempty, Option.some.inj hw₀, hstrip₀, hnil]
  · rw [← javaValue_eq hnewline h, hjavaAll, hjava]

theorem readersAgree_of_portable (hnewline : IsNewline newline) (h : ∀ line ∈ lines, line.Valid)
    (hportable : Portable lines) : ReadersAgree newline lines := by
  have hkey : ∀ key, ∀ line ∈ lines, NotComment key line := by
    intro key line hline
    right
    intro text heq
    exact hportable.comments text (heq ▸ hline)
  -- What the readers have for a key whose last value is known.
  have hvalues : ∀ key value, lastAssigned Line.assigned lines key = some value →
      ∀ quoted, lastAssigned Line.assignedOrQuote quoted key = some value →
      (∀ line ∈ quoted, line ∈ lines) →
      cppValue newline quoted key = some value ∧
        rubyValue newline quoted key = some (some value) := by
    intro key value hlast quoted hquoted hsub
    obtain ⟨before, after, hassign⟩ := assign_of_lastAssigned hlast
    obtain ⟨-, -, -, hquote⟩ := h _ hassign
    obtain ⟨hstrip, hequals, hnil⟩ := (isPlain_iff hquote).mp (hportable.values key value hlast).1
    have hcpp := cppValue_rel hnewline (fun line hl => h line (hsub line hl))
      (fun line hl => hkey key line (hsub line hl))
    have hruby := rubyValue_rel key hnewline (fun line hl => h line (hsub line hl))
    rw [hquoted] at hcpp hruby
    obtain ⟨w, hw, hwv⟩ := rel_some hcpp
    obtain ⟨w', hw', hwv'⟩ := rel_some hruby
    rw [hw, hw', hwv, hstrip, hwv'.mpr ⟨hequals, hnil⟩]
    exact ⟨rfl, rfl⟩
  have hgood : ∀ key value, lastAssigned Line.assigned lines key = some value →
      cppValue newline (lines.filter Line.wellFormed) key = some value ∧
      rubyValue newline (lines.filter Line.wellFormed) key = some (some value) := by
    intro key value hlast
    refine hvalues key value hlast _ ?_ (fun line hl => (List.mem_filter.mp hl).1)
    rw [lastAssigned_good _ assignedOrQuote_good, hlast]
  constructor
  · intro key
    rw [javaValue_good _ hnewline h]
    cases hlast : lastAssigned Line.assigned lines key with
    | none =>
      have hcpp := cppValue_good hnewline h (hkey key)
      have hruby := rubyValue_good key hnewline h
      rw [hlast] at hcpp hruby
      rw [rel_none hcpp, rel_none hruby]
      exact ⟨rfl, rfl⟩
    | some value => exact hgood key value hlast
  · intro key before after value hassign
    obtain ⟨v, hlast⟩ := lastAssigned_of_assign hassign
    obtain ⟨-, hquoted, hnamed⟩ := hportable.values key v hlast
    obtain ⟨hcpp, hruby⟩ := hvalues key v hlast lines hquoted (fun line hl => hl)
    obtain ⟨hcppGood, hrubyGood⟩ := hgood key v hlast
    rw [hcpp, hruby, hcppGood, hrubyGood, javaValue_eq hnewline h, hnamed,
      javaValue_good _ hnewline h, hlast]
    exact ⟨rfl, rfl, rfl⟩

end Agreement

/-- The three readers agree on exactly the portable configuration texts. -/
theorem readers_agree_iff {newline : Text} (hnewline : IsNewline newline) {lines : List Line}
    (h : ∀ line ∈ lines, line.Valid) : ReadersAgree newline lines ↔ Portable lines := by
  constructor
  · intro hagree
    exact ⟨portable_comments hnewline h hagree,
      fun key value hlast => portable_values hnewline h hagree hlast⟩
  · exact readersAgree_of_portable hnewline h

section Samples

def commentLine : Line := .comment " server = none".toList

def serverLine (address : String) : Line := .assign "server".toList 1 1 address.toList

def openQuote : Line := .loneQuote "log".toList 0 0

theorem isName_server : IsName "server".toList := by
  refine ⟨by decide, by decide, by decide, by decide, ?_, ?_⟩
  all_goals
    intro c hc
    cases hc
    decide

theorem valid_serverLine_of {address : String} (hvalue : IsValue address.toList)
    (hquotes : address.toList.all (fun c => !Ruby.isQuote c) = true) :
      (serverLine address).Valid := by
  refine ⟨isName_server, by decide, hvalue, ?_⟩
  intro c hc
  simpa using List.all_eq_true.mp hquotes c hc

theorem valid_serverLine : (serverLine "http://host?a=b").Valid ∧
    (serverLine "http://host").Valid :=
  ⟨valid_serverLine_of ⟨by decide, by decide, by decide⟩ (by decide),
    valid_serverLine_of ⟨by decide, by decide, by decide⟩ (by decide)⟩

theorem valid_openQuote : openQuote.Valid := by
  refine ⟨⟨by decide, by decide, by decide, by decide, ?_, ?_⟩, by decide⟩
  all_goals
    intro c hc
    cases hc
    decide

/-- A lone quote behind an assignment is harmless for the other keys. -/
theorem readers_agree_iff_openQuote :
    ReadersAgree ['\r', '\n'] [serverLine "http://host", openQuote] := by
  have hvalid : ∀ line ∈ [serverLine "http://host", openQuote], line.Valid := by
    intro line hline
    rcases List.mem_cons.mp hline with rfl | hline
    · exact valid_serverLine.2
    · rw [List.mem_singleton.mp hline]
      exact valid_openQuote
  refine (readers_agree_iff (Or.inr rfl) hvalid).mpr ⟨?_, ?_⟩
  · intro text hmem
    simp [serverLine, openQuote] at hmem
  · intro key value hlast
    obtain ⟨before, after, hassign⟩ := assign_of_lastAssigned hlast
    have heq : key = "server".toList ∧ value = "http://host".toList := by
      simp only [serverLine, openQuote, List.mem_cons, Line.assign.injEq, List.not_mem_nil,
        reduceCtorEq, or_false] at hassign
      exact ⟨hassign.1, hassign.2.2.2⟩
    obtain ⟨rfl, rfl⟩ := heq
    exact ⟨⟨by decide, by decide, by decide, by decide⟩, by decide, by decide⟩

/-- A query, a comment with an '=' and a lone quote in front of an assignment. -/
theorem readers_differ :
    ((serverLine "http://host?a=b").Valid ∧ ¬ReadersAgree ['\n'] [serverLine "http://host?a=b"]) ∧
    (commentLine.Valid ∧ ¬ReadersAgree ['\n'] [commentLine]) ∧
    (openQuote.Valid ∧ (serverLine "http://host").Valid ∧
      ¬ReadersAgree ['\n'] [openQuote, serverLine "http://host"]) := by
  refine ⟨⟨valid_serverLine.1, ?_⟩, ⟨⟨by decide, by decide, by decide⟩, ?_⟩,
    valid_openQuote, valid_serverLine.2, ?_⟩
  · intro h
    have hruby := (h.1 "server".toList).2
    revert hruby
    decide
  · intro h
    have hcpp := (h.1 "# server".toList).1
    revert hcpp
    decide
  · intro h
    have hjava := (h.2 "server".toList 1 1 "http://host".toList (by decide)).2.1
    revert hjava
    decide

end Samples

end Rhodes.Settings
