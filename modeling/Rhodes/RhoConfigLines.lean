import Rhodes.RhoConfig

/-!
The readers of rhoconfig.txt line by line: each one goes over the lines of a text in order, and
what it has for a key in the end is the value of the last line that assigns the key.
-/
namespace Rhodes.Settings

open Rhodes.Cut
open Rhodes.Tokenizer (IsToken tokens tokens_delim_cons tokens_field_cons tokens_intercalate)

section LastAssigned

variable {α β γ : Type}

/-- The value that a line assigns to the key. -/
def valueAt (f : α → Option (Text × β)) (key : Text) (x : α) : Option β :=
  (f x).bind (fun e => if e.1 = key then some e.2 else none)

/-- The value of the last line that assigns the key. -/
def lastAssigned (f : α → Option (Text × β)) (xs : List α) (key : Text) : Option β :=
  xs.foldl (fun last x => (valueAt f key x).or last) none

/-- The line as an edit of a table. -/
def putValue (f : α → Option (Text × β)) (t : Table β) (x : α) : Table β :=
  match f x with
  | none => t
  | some (name, value) => t.insert name value

theorem lookup_putValue (f : α → Option (Text × β)) (t : Table β) (x : α) (key : Text) :
    (putValue f t x).lookup key = (valueAt f key x).or (t.lookup key) := by
  unfold putValue valueAt
  cases f x with
  | none => rfl
  | some e =>
    obtain ⟨name, value⟩ := e
    by_cases hname : name = key
    · subst hname
      simp [AList.lookup_insert]
    · simp [hname, AList.lookup_insert_ne (Ne.symm hname)]

theorem lookup_foldl_putValue (f : α → Option (Text × β)) (xs : List α) (key : Text) :
    (xs.foldl (putValue f) ∅).lookup key = lastAssigned f xs key := by
  have hgeneral : ∀ (t : Table β) (last : Option β), t.lookup key = last →
      (xs.foldl (putValue f) t).lookup key
        = xs.foldl (fun last x => (valueAt f key x).or last) last := by
    induction xs with
    | nil => exact fun t last h => h
    | cons x xs ih =>
      intro t last h
      rw [List.foldl_cons, List.foldl_cons]
      refine ih _ _ ?_
      rw [lookup_putValue, h]
  exact hgeneral ∅ none (AList.lookup_empty key)

/-- Two readers whose lines assign related values to the key have related values in the end. -/
theorem lastAssigned_rel {R : β → γ → Prop} {f : α → Option (Text × β)}
    {g : α → Option (Text × γ)} {xs : List α} {key : Text}
    (h : ∀ x ∈ xs, Option.Rel R (valueAt f key x) (valueAt g key x)) :
    Option.Rel R (lastAssigned f xs key) (lastAssigned g xs key) := by
  have hgeneral : ∀ (last : Option β) (last' : Option γ), Option.Rel R last last' →
      Option.Rel R (xs.foldl (fun last x => (valueAt f key x).or last) last)
        (xs.foldl (fun last x => (valueAt g key x).or last) last') := by
    induction xs with
    | nil => exact fun last last' h => h
    | cons x xs ih =>
      intro last last' hlast
      refine ih (fun y hy => h y (List.mem_cons_of_mem _ hy)) _ _ ?_
      have hx := h x List.mem_cons_self
      simp only
      generalize valueAt f key x = v at hx ⊢
      generalize valueAt g key x = w at hx ⊢
      cases hx with
      | some hR => exact Option.Rel.some hR
      | none => exact hlast
  exact hgeneral none none Option.Rel.none

theorem lastAssigned_congr {f g : α → Option (Text × β)} {xs : List α} {key : Text}
    (h : ∀ x ∈ xs, valueAt f key x = valueAt g key x) :
    lastAssigned f xs key = lastAssigned g xs key := by
  unfold lastAssigned
  exact List.foldl_ext _ _ _ (fun last x hx => by rw [h x hx])

/-- Lines that say nothing of the key can be left out. -/
theorem lastAssigned_filter {f : α → Option (Text × β)} {keep : α → Bool} {xs : List α}
    {key : Text} (h : ∀ x ∈ xs, keep x = false → valueAt f key x = none) :
    lastAssigned f (xs.filter keep) key = lastAssigned f xs key := by
  unfold lastAssigned
  generalize (none : Option β) = last
  induction xs generalizing last with
  | nil => rfl
  | cons x xs ih =>
    have hrest := ih (fun y hy => h y (List.mem_cons_of_mem _ hy))
    by_cases hx : keep x = true
    · rw [List.filter_cons_of_pos hx, List.foldl_cons, List.foldl_cons, hrest]
    · rw [List.filter_cons_of_neg hx, List.foldl_cons,
        h x List.mem_cons_self (by simpa using hx), Option.none_or, hrest]

theorem lastAssigned_concat (f : α → Option (Text × β)) (xs : List α) (x : α) (key : Text) :
    lastAssigned f (xs ++ [x]) key = (valueAt f key x).or (lastAssigned f xs key) := by
  simp [lastAssigned]

theorem lastAssigned_eq_none {f : α → Option (Text × β)} {xs : List α} {key : Text} :
    lastAssigned f xs key = none ↔ ∀ x ∈ xs, valueAt f key x = none := by
  induction xs using List.reverseRecOn with
  | nil => simp [lastAssigned]
  | append_singleton xs x ih =>
    rw [lastAssigned_concat, Option.or_eq_none_iff, ih]
    simp only [List.mem_append, List.mem_singleton, or_imp, forall_and, forall_eq]
    exact and_comm

theorem valueAt_eq_some {f : α → Option (Text × β)} {x : α} {key : Text} {value : β} :
    valueAt f key x = some value ↔ f x = some (key, value) := by
  unfold valueAt
  cases f x with
  | none => simp
  | some e =>
    obtain ⟨name, v⟩ := e
    by_cases hname : name = key
    · simp [hname]
    · simp [hname]

theorem valueAt_rel {R : β → γ → Prop} {f : α → Option (Text × β)} {g : α → Option (Text × γ)}
    {x : α} (h : Option.Rel (fun e e' => e.1 = e'.1 ∧ R e.2 e'.2) (f x) (g x)) (key : Text) :
    Option.Rel R (valueAt f key x) (valueAt g key x) := by
  unfold valueAt
  generalize f x = e at h ⊢
  generalize g x = e' at h ⊢
  cases h with
  | none => exact Option.Rel.none
  | @some e e' hR =>
    obtain ⟨hname, hvalue⟩ := hR
    simp only [Option.bind_some, ← hname]
    by_cases hkey : e.1 = key
    · rw [if_pos hkey, if_pos hkey]
      exact Option.Rel.some hvalue
    · rw [if_neg hkey, if_neg hkey]
      exact Option.Rel.none

/-- The last value is the value of one of the lines. -/
theorem mem_of_lastAssigned {f : α → Option (Text × β)} {xs : List α} {key : Text} {value : β}
    (h : lastAssigned f xs key = some value) : ∃ x ∈ xs, f x = some (key, value) := by
  induction xs using List.reverseRecOn with
  | nil => cases h
  | append_singleton xs x ih =>
    rw [lastAssigned_concat, Option.or_eq_some_iff] at h
    rcases h with hx | ⟨-, hrest⟩
    · exact ⟨x, by simp, valueAt_eq_some.mp hx⟩
    · obtain ⟨y, hy, hvalue⟩ := ih hrest
      exact ⟨y, List.mem_append_left _ hy, hvalue⟩

end LastAssigned

/-- The ends of the lines of a file. -/
def IsNewline (newline : Text) : Prop := newline = ['\n'] ∨ newline = ['\r', '\n']

namespace Cpp

theorem lineTexts_intercalate {newline : Text} (hnewline : IsNewline newline) {texts : List Text}
    (hne : texts ≠ []) (h : ∀ t ∈ texts, IsValue t) :
    lineTexts (newline.intercalate texts) = texts := by
  induction texts with
  | nil => exact absurd rfl hne
  | cons a more ih =>
    have ha := h a List.mem_cons_self
    cases more with
    | nil =>
      rw [List.intercalate_singleton, lineTexts, takeWhile_ne ha.noNul,
        List.splitOn_eq_singleton ha.lineFeed]
      rfl
    | cons b more =>
      have hcr : a.getLast? ≠ some '\r' := by
        intro hlast
        exact ha.carriageReturn (List.mem_of_getLast? hlast)
      rw [List.intercalate_cons_cons, lineTexts_cons hnewline ha.lineFeed ha.noNul hcr,
        ih (by simp) (fun t ht => h t (List.mem_cons_of_mem _ ht))]

theorem loadFromString_texts {newline : Text} (hnewline : IsNewline newline) {texts : List Text}
    (h : ∀ t ∈ texts, IsValue t) :
    loadFromString (newline.intercalate texts) ∅
      = some (texts.foldl (putValue lineProperty) ∅) := by
  have hput : putLine = putValue lineProperty := by
    funext values line
    unfold putLine putValue
    cases lineProperty line <;> rfl
  rw [loadFromString_eq, hput]
  cases texts with
  | nil => rfl
  | cons a more => rw [lineTexts_intercalate hnewline (by simp) h]

end Cpp

namespace Java

theorem readToken_cr (line : Text) : readToken (line ++ ['\r']) = readToken line := by
  have htrim : trim (line ++ ['\r']) = trim line :=
    strip_append_right (fun c hc => by rw [List.mem_singleton.mp hc]; rfl) line
  simp only [readToken, htrim]

theorem loadToken_cr (values : Table Text) (line : Text) :
    loadToken values (line ++ ['\r']) = loadToken values line := by
  simp only [loadToken, readToken_cr]

/-- An ended line is a token, when there is something on it. -/
theorem load_lineFeed {line : Text} (hline : '\n' ∉ line) (rest : Text) (values : Table Text) :
    (tokens ['\n'] (line ++ '\n' :: rest)).foldlM loadToken values
      = loadToken values line >>= (tokens ['\n'] rest).foldlM loadToken := by
  by_cases hnil : line = []
  · subst hnil
    rw [List.nil_append, tokens_delim_cons List.mem_cons_self]
    rfl
  · rw [tokens_field_cons List.mem_cons_self (isToken_line hnil hline), List.foldlM_cons]

theorem load_last {line : Text} (hline : '\n' ∉ line) (values : Table Text) :
    (tokens ['\n'] line).foldlM loadToken values = loadToken values line := by
  by_cases hnil : line = []
  · subst hnil
    rfl
  · have htokens : tokens ['\n'] (List.intercalate ['\n'] [line]) = [line] := by
      refine tokens_intercalate List.mem_cons_self [line] ?_
      intro t ht
      rw [List.mem_singleton.mp ht]
      exact isToken_line hnil hline
    rw [List.intercalate_singleton] at htokens
    rw [htokens, List.foldlM_cons]
    cases loadToken values line <;> rfl

theorem loadFromString_texts {newline : Text} (hnewline : IsNewline newline) {texts : List Text}
    (h : ∀ t ∈ texts, IsValue t) (values : Table Text) :
    loadFromString (newline.intercalate texts) values = texts.foldlM loadToken values := by
  unfold loadFromString
  induction texts generalizing values with
  | nil => rfl
  | cons a more ih =>
    have ha := h a List.mem_cons_self
    cases more with
    | nil =>
      rw [List.intercalate_singleton, load_last ha.lineFeed, List.foldlM_cons]
      cases loadToken values a <;> rfl
    | cons b more =>
      have hrest := ih (fun t ht => h t (List.mem_cons_of_mem _ ht))
      rw [List.intercalate_cons_cons, List.foldlM_cons]
      rcases hnewline with rfl | rfl
      · rw [List.append_assoc, List.singleton_append, load_lineFeed ha.lineFeed]
        simp only [hrest]
      · have hassoc : a ++ ['\r', '\n'] ++ List.intercalate ['\r', '\n'] (b :: more)
            = a ++ ['\r'] ++ '\n' :: List.intercalate ['\r', '\n'] (b :: more) := by simp
        have hmem : '\n' ∉ a ++ ['\r'] := by simp [ha.lineFeed]
        rw [hassoc, load_lineFeed hmem, loadToken_cr]
        simp only [hrest]

end Java

namespace Ruby

theorem isSpace_newline {newline : Text} (h : IsNewline newline) :
    ∀ c ∈ newline, isSpace c = true := by
  have hall : newline.all isSpace = true := by
    rcases h with rfl | rfl <;> decide
  exact List.all_eq_true.mp hall

theorem isSkipped_append {newline : Text} (h : IsNewline newline) (line : Text) :
    isSkipped (line ++ newline) = isSkipped line := by
  have hall : newline.dropWhile isSpace = [] := List.dropWhile_eq_nil_iff.mpr (isSpace_newline h)
  unfold isSkipped
  rw [List.dropWhile_append]
  cases hline : line.dropWhile isSpace with
  | nil => simp [hall]
  | cons c rest => simp

theorem chomp_line {line : Text} (h : IsValue line) : chomp line = line := by
  have hfeed : line.getLast? ≠ some '\n' := fun hlast => h.lineFeed (List.mem_of_getLast? hlast)
  have hcr : line.getLast? ≠ some '\r' :=
    fun hlast => h.carriageReturn (List.mem_of_getLast? hlast)
  rw [chomp, if_neg hfeed, dropCR, if_neg hcr]

theorem chomp_append {newline : Text} (hnewline : IsNewline newline) {line : Text}
    (h : IsValue line) : chomp (line ++ newline) = line := by
  have hcr : line.getLast? ≠ some '\r' :=
    fun hlast => h.carriageReturn (List.mem_of_getLast? hlast)
  rcases hnewline with rfl | rfl
  · rw [chomp, if_pos (by simp), List.dropLast_concat, dropCR, if_neg hcr]
  · have hassoc : line ++ ['\r', '\n'] = line ++ ['\r'] ++ ['\n'] := by simp
    rw [chomp, hassoc, if_pos (by simp), List.dropLast_concat, dropCR, if_pos (by simp),
      List.dropLast_concat]

theorem addConfig_append {newline : Text} (hnewline : IsNewline newline) {line : Text}
    (h : IsValue line) (config : Table (Option Text)) :
    addConfig config (line ++ newline) = addConfig config line := by
  simp only [addConfig, readLine, isSkipped_append hnewline, chomp_append hnewline h, chomp_line h]

theorem eachLine_cons {line : Text} (hline : '\n' ∉ line) (rest : Text) :
    eachLine ((line ++ '\n' :: rest).splitOn '\n')
      = (line ++ ['\n']) :: eachLine (rest.splitOn '\n') := by
  rw [List.splitOn_append_cons_self, List.splitOn_eq_singleton hline, List.singleton_append]
  cases hrest : rest.splitOn '\n' with
  | nil => exact absurd hrest (List.splitOn_ne_nil _ _)
  | cons next more => rfl

theorem processRhoconfig_texts {newline : Text} (hnewline : IsNewline newline)
    {texts : List Text} (h : ∀ t ∈ texts, IsValue t) (config : Table (Option Text)) :
    processRhoconfig (newline.intercalate texts) config = texts.foldl addConfig config := by
  unfold processRhoconfig
  induction texts generalizing config with
  | nil => rfl
  | cons a more ih =>
    have ha := h a List.mem_cons_self
    cases more with
    | nil =>
      rw [List.intercalate_singleton, List.splitOn_eq_singleton ha.lineFeed]
      by_cases hnil : a = []
      · subst hnil
        rfl
      · simp [eachLine, hnil]
    | cons b more =>
      have hrest := ih (fun t ht => h t (List.mem_cons_of_mem _ ht))
      have hput := addConfig_append hnewline ha config
      rw [List.intercalate_cons_cons, List.foldl_cons, ← hput, ← hrest]
      rcases hnewline with rfl | rfl
      · rw [List.append_assoc, List.singleton_append, eachLine_cons ha.lineFeed]
        rfl
      · have hassoc : a ++ ['\r', '\n'] ++ List.intercalate ['\r', '\n'] (b :: more)
            = a ++ ['\r'] ++ '\n' :: List.intercalate ['\r', '\n'] (b :: more) := by simp
        have hmem : '\n' ∉ a ++ ['\r'] := by simp [ha.lineFeed]
        rw [hassoc, eachLine_cons hmem, List.foldl_cons]
        simp

theorem isSpace_of_not_white {c : Char} (h : Java.isWhite c = false) : isSpace c = false := by
  simp only [Java.isWhite, decide_eq_false_iff_not, not_le] at h
  simp only [isSpace, Tokenizer.isSpace, Bool.or_eq_false_iff, decide_eq_false_iff_not]
  refine ⟨⟨⟨⟨⟨?_, ?_⟩, ?_⟩, ?_⟩, by omega⟩, by omega⟩ <;>
  · intro hc
    subst hc
    exact absurd h (by decide)

/-- A part that is not empty is not left out. -/
theorem getElem?_parts {parts : List Text} {i : Nat} {part : Text} (h : parts[i]? = some part)
    (hne : part ≠ []) : (parts.rdropWhile (fun part => part = []))[i]? = some part := by
  have happend : parts.rdropWhile (fun part => part = [])
      ++ parts.rtakeWhile (fun part => part = []) = parts := List.rdropWhile_append_rtakeWhile
  by_cases hi : i < (parts.rdropWhile (fun part => part = [])).length
  · rw [← happend, List.getElem?_append_left hi] at h
    exact h
  · rw [← happend, List.getElem?_append_right (by omega)] at h
    have hempty := List.mem_rtakeWhile_imp (List.mem_of_getElem? h)
    exact absurd (of_decide_eq_true hempty) hne

theorem splitOn_cons (s : Text) :
    ∃ more, s.splitOn '=' = s.takeWhile (fun c => c ≠ '=') :: more := by
  by_cases h : '=' ∈ s
  · obtain ⟨front, back, rfl, hfront⟩ := List.eq_append_cons_of_mem h
    rw [takeWhile_upTo hfront, List.splitOn_append_cons_self,
      List.splitOn_eq_singleton hfront]
    exact ⟨_, rfl⟩
  · rw [takeWhile_ne h, List.splitOn_eq_singleton h]
    exact ⟨_, rfl⟩

theorem strip_name {name : Text} (h : IsName name) (n : Nat) :
    strip (name ++ List.replicate n ' ') = name := by
  have hlast : ∀ c ∈ name.getLast?, (isSpace c || decide (c = nul)) = false := by
    intro c hc
    have hwhite := h.last c hc
    rw [isSpace_of_not_white hwhite, Bool.false_or, decide_eq_false_iff_not]
    intro hnul
    rw [hnul] at hwhite
    exact absurd hwhite (by decide)
  have hfirst := h.first
  have hfront : (name ++ List.replicate n ' ').dropWhile isSpace = name ++
    List.replicate n ' ' := by
    cases name with
    | nil => exact absurd rfl h.ne_nil
    | cons c name => simp [isSpace_of_not_white (hfirst c rfl).1]
  rw [strip, hfront, rdropWhile_append_right (by intro c hc; rw [blanks hc]; rfl),
    rdropWhile_eq_self hlast]

/-- A line that begins with a name and has an '=' behind it: the value ends at the next one. -/
theorem readLine_named {name : Text} (hname : IsName name) (before : Nat) {back : Text}
    (hline : IsValue (name ++ List.replicate before ' ' ++ '=' :: back))
    (hback : back.takeWhile (fun c => c ≠ '=') ≠ []) :
    readLine (name ++ List.replicate before ' ' ++ '=' :: back)
      = some (name, partValue (back.takeWhile (fun c => c ≠ '='))) := by
  have hskip : isSkipped (name ++ List.replicate before ' ' ++ '=' :: back) = false := by
    have hfirst := hname.first
    cases name with
    | nil => exact absurd rfl hname.ne_nil
    | cons c name =>
      obtain ⟨hwhite, hcomment⟩ := hfirst c rfl
      simp [isSkipped, isSpace_of_not_white hwhite, hcomment]
  have hequals : '=' ∉ name ++ List.replicate before ' ' := by simp [hname.equals]
  obtain ⟨more, hmore⟩ := splitOn_cons back
  have hsplit : (name ++ List.replicate before ' ' ++ '=' :: back).splitOn '='
      = (name ++ List.replicate before ' ') :: back.takeWhile (fun c => c ≠ '=') :: more := by
    rw [List.splitOn_append_cons_self, List.splitOn_eq_singleton hequals, hmore,
      List.singleton_append]
  have hkey : (splitEquals (name ++ List.replicate before ' ' ++ '=' :: back))[0]?
      = some (name ++ List.replicate before ' ') := by
    rw [splitEquals, hsplit]
    exact getElem?_parts rfl (by simp [hname.ne_nil])
  have hvalue : (splitEquals (name ++ List.replicate before ' ' ++ '=' :: back))[1]?
      = some (back.takeWhile (fun c => c ≠ '=')) := by
    rw [splitEquals, hsplit]
    exact getElem?_parts rfl hback
  simp only [readLine, hskip, chomp_line hline, hkey, hvalue, strip_name hname]
  rfl

/-- Blanks in front of a quote are taken off. -/
theorem strip_quote (after : Nat) {s : Text} (hlast : ('\'' :: s).getLast? = some '\'') :
    strip (List.replicate after ' ' ++ '\'' :: s) = '\'' :: s := by
  have hfront : (List.replicate after ' ' ++ '\'' :: s).dropWhile isSpace = '\'' :: s := by
    rw [List.dropWhile_append_of_pos (by intro c hc; rw [blanks hc]; rfl)]
    rfl
  rw [strip, hfront]
  exact rdropWhile_eq_self (fun c hc => by
    rw [hlast] at hc
    rw [← Option.some.inj hc]
    rfl)

theorem partValue_loneQuote (after : Nat) :
    partValue (List.replicate after ' ' ++ ['\'']) = some [] := by
  rw [partValue, strip_quote after rfl]
  rfl

/-- The value of a quoted text without quotes in it. -/
theorem partValue_quoted {value : Text} (after : Nat) (hquote : ∀ c ∈ value, isQuote c = false) :
    partValue (List.replicate after ' ' ++ ['\''] ++ value ++ ['\''])
      = if value = ['n', 'i', 'l'] then none else some value := by
  have hlast : ('\'' :: (value ++ ['\''])).getLast? = some '\'' := by
    rw [← List.cons_append, List.getLast?_append]
    rfl
  have hassoc : List.replicate after ' ' ++ ['\''] ++ value ++ ['\'']
      = List.replicate after ' ' ++ '\'' :: (value ++ ['\'']) := by simp
  have hfilter : value.filter (fun c => !isQuote c) = value := by
    rw [List.filter_eq_self]
    intro c hc
    rw [hquote c hc]
    rfl
  have hquotes : ('\'' :: (value ++ ['\''])).filter (fun c => !isQuote c) = value := by
    rw [List.filter_cons, List.filter_append, hfilter]
    simp [isQuote]
  rw [hassoc, partValue, strip_quote after hlast]
  simp only [hquotes]

theorem partValue_ne {part value : Text} (hpart : '=' ∉ part) (hvalue : '=' ∈ value) :
    partValue part ≠ some value := by
  intro h
  simp only [partValue] at h
  split at h
  · cases h
  · rw [← Option.some.inj h] at hvalue
    have hstrip := (List.mem_filter.mp hvalue).1
    exact hpart ((List.dropWhile_sublist _).subset ((List.rdropWhile_prefix _ _).subset hstrip))

end Ruby

end Rhodes.Settings
