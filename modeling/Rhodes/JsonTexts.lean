import Mathlib
import Rhodes.TokenerRuns

/-!
The parser on the text that json_object_to_json_string prints of strings, names, numbers and the
literals. Each printed value is read from a new level and ends at the character behind it.
-/
namespace Rhodes.JsonTokener
open Json

/-- The text of a double that is read as the same double. -/
structure ReadsBack (F : Text → Option (String × Int)) (text : String) (trunc : Int) :
    Prop where
  chars : ∀ c ∈ text.toList, c ∈ jsonNumberChars
  first : ∃ c cs, text.toList = c :: cs ∧ c ∈ "0123456789-".toList
  double : ∃ c ∈ text.toList, c = '.' ∨ c = 'e' ∨ c = 'E'
  scanned : F text.toList = some (text, trunc)

/-- A level in its first state. -/
structure Fresh (tok : Tokener) (below : List Srec) : Prop where
  waiting : Waiting below
  top : tok.top = {}
  below : tok.below = below

/-- A level whose value is read. -/
structure Done (tok : Tokener) (j : JsonObject) (below : List Srec) : Prop where
  waiting : Waiting below
  state : tok.top.state = .eatws
  savedState : tok.top.savedState = .finish
  current : tok.top.current = j
  below : tok.below = below

/-- The characters that are printed behind a value. -/
def Behind (c : Char) : Prop := c = ' ' ∨ c = ',' ∨ c = '\x00'

/-- Inside of a quoted text, of which `pb` is read. -/
structure InText (tok : Tokener) (s : JsonTokenerState) (pb : Text) (current : JsonObject)
    (below : List Srec) : Prop where
  state : tok.top.state = s
  pb : tok.pb = pb
  quote : tok.quoteChar = '"'
  current : tok.top.current = current
  below : tok.below = below

variable {F : Text → Option (String × Int)} {tok : Tokener} {x y current : JsonObject}
  {c : Char} {below : List Srec} {s : JsonTokenerState} {pb : Text}

theorem Fresh.live (h : Fresh tok below) : Live tok :=
  ⟨by rw [h.top]; rfl, by rw [h.below]; exact h.waiting⟩

theorem Done.live (h : Done tok current below) : Live tok :=
  ⟨by rw [h.savedState]; rfl, by rw [h.below]; exact h.waiting⟩

theorem Done.ready (h : Done tok current below) : Ready tok := ⟨h.live, by rw [h.state]; rfl⟩

section Quoted

/-- A state of a quoted text. -/
def Quoted (s : JsonTokenerState) : Prop := s = .string ∨ s = .objectField

theorem switch_escape (hs : Quoted s) (h : tok.top.state = s) (hq : tok.quoteChar = '"') :
    switch F tok x '\\' = .next (tok.escapeIn s) x := by
  unfold switch
  rcases hs with rfl | rfl <;> rw [h] <;> dsimp only <;> rw [hq] <;> rfl

theorem switch_plain (hs : Quoted s) (h : tok.top.state = s) (hq : tok.quoteChar = '"')
    (hquote : c ≠ '"') (hescape : c ≠ '\\') :
    switch F tok x c = .next (tok.append [c]) x := by
  unfold switch
  rcases hs with rfl | rfl <;> rw [h] <;> dsimp only <;>
    rw [hq, if_neg hquote, if_neg hescape]

/-- The digits of an escaped control character. -/
theorem hex_digits : ∀ n < 32, Nat.digitChar (n / 16) ∈ jsonHexChars ∧
    Nat.digitChar (n % 16) ∈ jsonHexChars ∧ Nat.digitChar (n / 16) ≠ '\x00' ∧
    Nat.digitChar (n % 16) ≠ '\x00' ∧
    hexdigit (Nat.digitChar (n / 16)) * 16 + hexdigit (Nat.digitChar (n % 16)) = n := by
  decide

/-- An escape of one letter. -/
theorem parse_letter (hs : Quoted s) (h : InText tok s pb current below) {l : Char}
    (hletter : ∀ t : Tokener, t.top.state = .stringEscape → ∀ x, switch F t x l =
      .next ((t.append [c]).setState t.top.savedState) x) (hnul : l ≠ '\x00') :
    ∃ t, InText t s (pb ++ [c]) current below ∧ ∀ x rest,
      parseLoop F tok x ('\\' :: l :: rest) = parseLoop F t x rest := by
  refine ⟨((tok.escapeIn s).append [c]).setState s, ?_, fun x rest => ?_⟩
  · exact ⟨rfl, congrArg (· ++ [c]) h.pb, h.quote, h.current, h.below⟩
  · rw [parseLoop_next (switch_escape hs h.state h.quote) (by decide),
      parseLoop_next (hletter _ rfl x) hnul]
    rfl

/-- Inside of an escape by number, after `pos` of its digits. -/
structure InEscape (tok : Tokener) (s : JsonTokenerState) (pb : Text) (current : JsonObject)
    (below : List Srec) (pos ucs : ℕ) : Prop where
  state : tok.top.state = .escapeUnicode
  savedState : tok.top.savedState = s
  pb : tok.pb = pb
  quote : tok.quoteChar = '"'
  current : tok.top.current = current
  below : tok.below = below
  stPos : tok.stPos = pos
  ucsChar : tok.ucsChar = ucs

theorem parse_hex {pos ucs : ℕ} (h : InEscape tok s pb current below pos ucs)
    (hc : c ∈ jsonHexChars) (hnul : c ≠ '\x00') (hpos : pos + 1 ≠ 4) :
    ∃ t, InEscape t s pb current below (pos + 1)
        ((ucs + hexdigit c * 2 ^ ((3 - pos) * 4)) % 2 ^ 32) ∧
      ∀ x rest, parseLoop F tok x (c :: rest) = parseLoop F t x rest := by
  refine ⟨{ tok with
    ucsChar := (tok.ucsChar + hexdigit c * 2 ^ ((3 - tok.stPos) * 4)) % 2 ^ 32
    stPos := tok.stPos + 1 }, ?_, fun x rest => parseLoop_next ?_ hnul rest⟩
  · refine ⟨h.state, h.savedState, h.pb, h.quote, h.current, h.below, ?_, ?_⟩
    · rw [h.stPos]
    · rw [h.ucsChar, h.stPos]
  · rw [switch, h.state]
    dsimp only
    rw [if_pos (Or.inl hc), if_neg (by rw [h.stPos]; exact hpos)]

theorem parse_hex_last {ucs : ℕ} (h : InEscape tok s pb current below 3 ucs)
    (hc : c ∈ jsonHexChars) (hnul : c ≠ '\x00') :
    ∃ t, InText t s (pb ++ utfOut ((ucs + hexdigit c) % 2 ^ 32)) current below ∧
      ∀ x rest, parseLoop F tok x (c :: rest) = parseLoop F t x rest := by
  refine ⟨({ tok with
    ucsChar := (ucs + hexdigit c) % 2 ^ 32, stPos := 4 }.append
      (utfOut ((ucs + hexdigit c) % 2 ^ 32))).setState s, ?_,
    fun x rest => parseLoop_next ?_ hnul rest⟩
  · exact ⟨rfl, congrArg (· ++ _) h.pb, h.quote, h.current, h.below⟩
  · rw [switch, h.state]
    dsimp only
    rw [if_pos (Or.inl hc), h.stPos, if_pos rfl, h.ucsChar, h.savedState, Nat.sub_self,
      Nat.zero_mul, pow_zero, Nat.mul_one]

theorem utfOut_of_lt {c : Char} (hc : c.toNat < 128) : utfOut c.toNat = [c] := by
  rw [utfOut, if_pos hc, byte, Nat.mod_eq_of_lt (by omega), Char.ofNat_toNat]

/-- A control character is escaped by its number. -/
theorem parse_control (hs : Quoted s) (h : InText tok s pb current below) (hc : c.toNat < 32) :
    ∃ t, InText t s (pb ++ [c]) current below ∧ ∀ x rest,
      parseLoop F tok x ('\\' :: 'u' :: '0' :: '0' :: Nat.digitChar (c.toNat / 16) ::
        Nat.digitChar (c.toNat % 16) :: rest) = parseLoop F t x rest := by
  obtain ⟨hx, hy, hxnul, hynul, hsum⟩ := hex_digits c.toNat hc
  have hzero : '0' ∈ jsonHexChars := by decide
  have hstart : InEscape ({ tok.escapeIn s with ucsChar := 0, stPos := 0 }.setState
      .escapeUnicode) s pb current below 0 0 :=
    ⟨rfl, rfl, h.pb, h.quote, h.current, h.below, rfl, rfl⟩
  obtain ⟨t₁, h₁, hrun₁⟩ := parse_hex (F := F) hstart hzero (by decide) (by decide)
  obtain ⟨t₂, h₂, hrun₂⟩ := parse_hex (F := F) h₁ hzero (by decide) (by decide)
  obtain ⟨t₃, h₃, hrun₃⟩ := parse_hex (F := F) h₂ hx hxnul (by decide)
  obtain ⟨t, ht, hrun⟩ := parse_hex_last (F := F) h₃ hy hynul
  refine ⟨t, ?_, fun x rest => ?_⟩
  · have hdigit : hexdigit '0' = 0 := by decide
    have hucs : ((((0 + hexdigit '0' * 2 ^ ((3 - 0) * 4)) % 2 ^ 32 + hexdigit '0' *
        2 ^ ((3 - (0 + 1)) * 4)) % 2 ^ 32 + hexdigit (Nat.digitChar (c.toNat / 16)) *
        2 ^ ((3 - (0 + 1 + 1)) * 4)) % 2 ^ 32 + hexdigit (Nat.digitChar (c.toNat % 16))) %
        2 ^ 32 = c.toNat := by
      rw [hdigit]
      omega
    rw [hucs, utfOut_of_lt (by omega)] at ht
    exact ht
  · rw [parseLoop_next (switch_escape hs h.state h.quote) (by decide),
      parseLoop_next (t := { tok.escapeIn s with ucsChar := 0, stPos := 0 }.setState
        .escapeUnicode) (by rw [switch]; rfl) (by decide), hrun₁, hrun₂, hrun₃, hrun]

/-- An escaped character is put into the buffer as it was. -/
theorem parse_char (hs : Quoted s) (h : InText tok s pb current below) (hc : c ≠ '\x00') :
    ∃ t, InText t s (pb ++ [c]) current below ∧ ∀ x rest,
      parseLoop F tok x ((escapeChar c).toList ++ rest) = parseLoop F t x rest := by
  unfold escapeChar
  split_ifs with hn hr ht hb hquote hback hslash hcontrol
  · subst hn
    refine parse_letter hs h (l := 'n') (fun t hst o => ?_) (by decide)
    rw [switch, hst]
    rfl
  · subst hr
    refine parse_letter hs h (l := 'r') (fun t hst o => ?_) (by decide)
    rw [switch, hst]
    rfl
  · subst ht
    refine parse_letter hs h (l := 't') (fun t hst o => ?_) (by decide)
    rw [switch, hst]
    rfl
  · obtain rfl : c = '\x08' := Char.toNat_inj.mp hb
    refine parse_letter hs h (l := 'b') (fun t hst o => ?_) (by decide)
    rw [switch, hst]
    rfl
  · subst hquote
    refine parse_letter hs h (l := '"') (fun t hst o => ?_) (by decide)
    rw [switch, hst]
    rfl
  · subst hback
    refine parse_letter hs h (l := '\\') (fun t hst o => ?_) (by decide)
    rw [switch, hst]
    rfl
  · subst hslash
    refine parse_letter hs h (l := '/') (fun t hst o => ?_) (by decide)
    rw [switch, hst]
    rfl
  · obtain ⟨t, ht, hrun⟩ := parse_control hs h hcontrol
    refine ⟨t, ht, fun x rest => (Eq.trans ?_ (hrun x rest))⟩
    simp
  · refine ⟨tok.append [c], ?_, fun x rest => ?_⟩
    · exact ⟨h.state, congrArg (· ++ [c]) h.pb, h.quote, h.current, h.below⟩
    · rw [String.toList_ofList]
      exact parseLoop_next (switch_plain hs h.state h.quote hquote hback) hc rest

theorem parse_text (hs : Quoted s) (h : InText tok s pb current below) {text : Text}
    (htext : '\x00' ∉ text) :
    ∃ t, InText t s (pb ++ text) current below ∧ ∀ x rest,
      parseLoop F tok x ((text.flatMap (fun c => (escapeChar c).toList)) ++ rest) =
        parseLoop F t x rest := by
  induction text generalizing tok pb with
  | nil => exact ⟨tok, by rw [List.append_nil]; exact h, fun _ _ => rfl⟩
  | cons c text ih =>
    rw [List.mem_cons, not_or] at htext
    obtain ⟨t, ht, hrun⟩ := parse_char (F := F) hs h (Ne.symm htext.1)
    obtain ⟨u, hu, hrest⟩ := ih ht htext.2
    refine ⟨u, ?_, fun x rest => ?_⟩
    · rw [List.append_assoc] at hu
      exact hu
    · rw [List.flatMap_cons, List.append_assoc, hrun, hrest]

end Quoted

/-- A text is read from a new level as a value, up to the character behind it. -/
def Reads (F : Text → Option (String × Int)) (tok : Tokener) (text : Text) (j : JsonObject)
    (below : List Srec) : Prop :=
  ∀ c, Behind c → ∃ t, Done t j below ∧ ∀ x y rest,
    parseLoop F tok x (text ++ c :: rest) = parseLoop F t y (c :: rest)

section Literals

variable {d : Bool} {st ucs : ℕ} {q : Char}

/-- A level that reads a value, with the other fields of the parser. -/
theorem live_level (h : Waiting below) {t : Tokener} (hs : resting t.top.savedState = true)
    (hb : t.below = below) : Live t := ⟨hs, by rw [hb]; exact h⟩

theorem reads_null (h : Fresh tok below) : Reads F tok "null".toList .null below := by
  obtain ⟨pb, d, st, ucs, q, top, below'⟩ := tok
  obtain ⟨hwaiting, htop, hbelow⟩ := h
  obtain rfl : top = {} := htop
  obtain rfl : below' = below := hbelow
  intro c hc
  refine ⟨((({ isDouble := d, stPos := 4, ucsChar := ucs, quoteChar := q, below := below' } :
    Tokener).append ("null".toList ++ [c])).after .finish).setCurrent .null,
    ⟨hwaiting, rfl, rfl, rfl, rfl⟩, fun x y rest => ?_⟩
  refine (parseLoop_redo (live_level hwaiting rfl rfl) rfl _).trans ?_
  refine (parseLoop_redo (live_level hwaiting rfl rfl) rfl _).trans ?_
  refine (parseLoop_next rfl (by decide) _).trans ?_
  refine (parseLoop_next rfl (by decide) _).trans ?_
  refine (parseLoop_next rfl (by decide) _).trans ?_
  refine (parseLoop_next rfl (by decide) _).trans ?_
  refine (parseLoop_redo (live_level hwaiting rfl rfl) rfl _).trans ?_
  exact parseLoop_obj ⟨⟨rfl, hwaiting⟩, rfl⟩ _

theorem reads_true (h : Fresh tok below) :
    Reads F tok "true".toList (.boolean true) below := by
  obtain ⟨pb, d, st, ucs, q, top, below'⟩ := tok
  obtain ⟨hwaiting, htop, hbelow⟩ := h
  obtain rfl : top = {} := htop
  obtain rfl : below' = below := hbelow
  intro c hc
  refine ⟨((({ isDouble := d, stPos := 4, ucsChar := ucs, quoteChar := q, below := below' } :
    Tokener).append ("true".toList ++ [c])).after .finish).setCurrent (.boolean true),
    ⟨hwaiting, rfl, rfl, rfl, rfl⟩, fun x y rest => ?_⟩
  refine (parseLoop_redo (live_level hwaiting rfl rfl) rfl _).trans ?_
  refine (parseLoop_redo (live_level hwaiting rfl rfl) rfl _).trans ?_
  refine (parseLoop_next rfl (by decide) _).trans ?_
  refine (parseLoop_next rfl (by decide) _).trans ?_
  refine (parseLoop_next rfl (by decide) _).trans ?_
  refine (parseLoop_next rfl (by decide) _).trans ?_
  refine (parseLoop_redo (live_level hwaiting rfl rfl) rfl _).trans ?_
  exact parseLoop_obj ⟨⟨rfl, hwaiting⟩, rfl⟩ _

theorem reads_false (h : Fresh tok below) :
    Reads F tok "false".toList (.boolean false) below := by
  obtain ⟨pb, d, st, ucs, q, top, below'⟩ := tok
  obtain ⟨hwaiting, htop, hbelow⟩ := h
  obtain rfl : top = {} := htop
  obtain rfl : below' = below := hbelow
  intro c hc
  refine ⟨((({ isDouble := d, stPos := 5, ucsChar := ucs, quoteChar := q, below := below' } :
    Tokener).append ("false".toList ++ [c])).after .finish).setCurrent (.boolean false),
    ⟨hwaiting, rfl, rfl, rfl, rfl⟩, fun x y rest => ?_⟩
  refine (parseLoop_redo (live_level hwaiting rfl rfl) rfl _).trans ?_
  refine (parseLoop_redo (live_level hwaiting rfl rfl) rfl _).trans ?_
  refine (parseLoop_next rfl (by decide) _).trans ?_
  refine (parseLoop_next rfl (by decide) _).trans ?_
  refine (parseLoop_next rfl (by decide) _).trans ?_
  refine (parseLoop_next rfl (by decide) _).trans ?_
  refine (parseLoop_next rfl (by decide) _).trans ?_
  refine (parseLoop_redo (live_level hwaiting rfl rfl) rfl _).trans ?_
  exact parseLoop_obj ⟨⟨rfl, hwaiting⟩, rfl⟩ _

end Literals

section Numbers

/-- The characters that make a number a double. -/
def isDot (c : Char) : Bool := c = '.' || c = 'e' || c = 'E'

theorem ne_nul_of_number (hc : c ∈ jsonNumberChars) : c ≠ '\x00' := by
  rintro rfl
  exact absurd hc (by decide)

theorem parse_digits (h : tok.top.state = .number) {ds : Text} (hds : ∀ c ∈ ds, c ∈ jsonNumberChars)
    (x : JsonObject) (rest : Text) : parseLoop F tok x (ds ++ rest) =
      parseLoop F { tok with pb := tok.pb ++ ds, isDouble := tok.isDouble || ds.any isDot }
        x rest := by
  induction ds generalizing tok with
  | nil => rw [List.append_nil, List.any_nil, Bool.or_false, List.nil_append]
  | cons c ds ih =>
    rw [List.forall_mem_cons] at hds
    have hnext : switch F tok x c = .next { tok.append [c] with
        isDouble := tok.isDouble || isDot c } x := by
      rw [switch, h]
      dsimp only
      rw [if_pos hds.1, isDot, Bool.or_assoc, Bool.or_assoc, Bool.or_assoc]
    refine (parseLoop_next hnext (ne_nul_of_number hds.1) _).trans
      ((@ih { tok.append [c] with isDouble := tok.isDouble || isDot c } h hds.2).trans ?_)
    simp [Tokener.append, Bool.or_assoc]

theorem not_number_of_behind (hc : Behind c) : c ∉ jsonNumberChars := by
  rcases hc with rfl | rfl | rfl <;> decide

/-- A digit or a minus sign starts a number. -/
theorem switch_first {t : Tokener} (hc : c ∈ "0123456789-".toList) (h : t.top.state = .eatws)
    (hs : t.top.savedState = .start) :
    switch F t x c = .redo (t.setState .start) x ∧
      switch F (t.setState .start) x c = .redo ({ t.setState .start with
        pb := [], isDouble := false }.setState .number) x := by
  rw [switch, switch, h, Tokener.setState_state]
  dsimp only
  rw [hs]
  have hmem : c ∈ ['0', '1', '2', '3', '4', '5', '6', '7', '8', '9', '-'] := hc
  simp only [List.mem_cons, List.not_mem_nil, or_false] at hmem
  rcases hmem with rfl | rfl | rfl | rfl | rfl | rfl | rfl | rfl | rfl | rfl | rfl <;>
    exact ⟨rfl, rfl⟩

/-- A number is read up to the character behind it. -/
theorem reads_number (h : Fresh tok below) {text : Text} {j : JsonObject}
    (hchars : ∀ c ∈ text, c ∈ jsonNumberChars)
    (hfirst : ∃ c cs, text = c :: cs ∧ c ∈ "0123456789-".toList)
    (hscan : scanNumber F (text.any isDot) text = some j) : Reads F tok text j below := by
  obtain ⟨pb, d, st, ucs, q, top, below'⟩ := tok
  obtain ⟨hwaiting, htop, hbelow⟩ := h
  obtain rfl : top = {} := htop
  obtain rfl : below' = below := hbelow
  obtain ⟨first, cs, htext, hfirst⟩ := hfirst
  intro c hc
  refine ⟨((⟨text, text.any isDot, st, ucs, q, {}, below'⟩ : Tokener).after .finish).setCurrent j,
    ⟨hwaiting, rfl, rfl, rfl, rfl⟩, fun x y rest => ?_⟩
  have hstart : parseLoop F ⟨pb, d, st, ucs, q, {}, below'⟩ x (text ++ c :: rest) =
      parseLoop F ⟨[], false, st, ucs, q, { state := .number }, below'⟩ x
        (text ++ c :: rest) := by
    have hturns := switch_first (F := F) (x := x)
      (t := ⟨pb, d, st, ucs, q, {}, below'⟩) hfirst rfl rfl
    rw [htext, List.cons_append]
    exact (parseLoop_redo (live_level hwaiting rfl rfl) hturns.1 _).trans
      (parseLoop_redo (live_level hwaiting rfl rfl) hturns.2 _)
  rw [hstart, parse_digits rfl hchars]
  refine (parseLoop_redo (o := x) (live_level hwaiting rfl rfl) ?_ _).trans
    (parseLoop_obj ⟨⟨rfl, hwaiting⟩, rfl⟩ _)
  rw [switch]
  dsimp only
  rw [if_neg (not_number_of_behind hc), List.nil_append, Bool.false_or, hscan]
  rfl

theorem digitVal_of_isDigit (h : c.isDigit = true) :
    digitVal c = c.toNat - '0'.toNat ∧ digitVal c < 10 := by
  have hrange : '0' ≤ c ∧ c ≤ '9' := by
    rw [Char.isDigit, Bool.and_eq_true, decide_eq_true_eq, decide_eq_true_eq] at h
    exact h
  have hle : c.toNat ≤ 57 := hrange.2
  rw [digitVal, if_pos hrange]
  refine ⟨rfl, ?_⟩
  show c.toNat - 48 < 10
  omega

theorem scanDigits_digits {ds : Text} (hne : ds ≠ []) (hds : ∀ c ∈ ds, c.isDigit = true) :
    scanDigits 10 ds = some (Nat.ofDigitChars 10 ds 0) := by
  have htake : ds.takeWhile (fun c => digitVal c < 10) = ds := by
    refine List.takeWhile_eq_self_iff.mpr fun c hc => ?_
    exact decide_eq_true (digitVal_of_isDigit (hds c hc)).2
  have hfold : ds.foldl (fun n c => n * 10 + digitVal c) 0 = Nat.ofDigitChars 10 ds 0 := by
    rw [Nat.ofDigitChars_eq_foldl]
    refine List.foldl_ext _ _ _ fun n c hc => ?_
    rw [(digitVal_of_isDigit (hds c hc)).1, Nat.mul_comm]
  unfold scanDigits
  rw [htake]
  cases ds with
  | nil => exact absurd rfl hne
  | cons d ds => exact congrArg some hfold

/-- A decimal numeral has no leading zero. -/
theorem head_toDigits {n : ℕ} (hn : 0 < n) : (Nat.toDigits 10 n).head? ≠ some '0' := by
  induction n using Nat.strong_induction_on with
  | _ n ih =>
    by_cases hlt : n < 10
    · rw [Nat.toDigits_of_lt_base hlt]
      have hdigit : ∀ d < 10, 0 < d → [Nat.digitChar d].head? ≠ some '0' := by decide
      exact hdigit n hlt hn
    · have hrest := ih (n / 10) (by omega) (by omega)
      rw [Nat.toDigits_of_base_le (by decide) (by omega), List.head?_append]
      cases hhead : (Nat.toDigits 10 (n / 10)).head? with
      | none => exact absurd (List.head?_eq_none_iff.mp hhead) Nat.toDigits_ne_nil
      | some d =>
        rw [hhead] at hrest
        exact hrest

theorem scanUnsigned_toDigits (n : ℕ) : scanUnsigned (Nat.toDigits 10 n) = some n := by
  rcases Nat.eq_zero_or_pos n with rfl | hn
  · decide
  · have hhead := head_toDigits hn
    have hscan : scanUnsigned (Nat.toDigits 10 n) = scanDigits 10 (Nat.toDigits 10 n) := by
      unfold scanUnsigned
      split <;> rename_i heq <;> first | rfl | (rw [heq] at hhead; exact absurd rfl hhead)
    rw [hscan, scanDigits_digits Nat.toDigits_ne_nil
      (fun c hc => Nat.isDigit_of_mem_toDigits (by decide) (by decide) hc),
      Nat.ofDigitChars_ten_toDigits]

theorem toList_toString_int (n : Int) : (toString n).toList =
    (if n < 0 then ['-'] else []) ++ Nat.toDigits 10 n.natAbs := by
  cases n with
  | ofNat m => exact Nat.toList_repr
  | negSucc m =>
    rw [if_pos (Int.negSucc_lt_zero m)]
    show ("-" ++ (m + 1).repr).toList = _
    rw [String.toList_append, Nat.toList_repr]
    rfl

theorem scanLli_toString {n : Int} (hmin : -2 ^ 63 ≤ n) (hmax : n < 2 ^ 63) :
    scanLli (toString n) = some n := by
  have hclamp : clamp n = n := clamp_of_bounds hmin hmax
  unfold scanLli
  rw [toList_toString_int]
  by_cases hn : n < 0
  · rw [if_pos hn, List.singleton_append, List.dropWhile_cons_of_neg (by decide)]
    simp only [scanUnsigned_toDigits]
    have habs : -(n.natAbs : Int) = n := by omega
    show some (clamp (-(n.natAbs : Int))) = some n
    rw [habs, hclamp]
  · rw [if_neg hn, List.nil_append]
    obtain ⟨d, ds, hds⟩ :=
      List.exists_cons_of_ne_nil (Nat.toDigits_ne_nil (n := n.natAbs) (b := 10))
    have hdigit : d.isDigit = true := Nat.isDigit_of_mem_toDigits (by decide) (by decide)
      (hds ▸ List.mem_cons_self : d ∈ Nat.toDigits 10 n.natAbs)
    have hspace : isSpace d = false := by
      simp only [Char.isDigit, Bool.and_eq_true, decide_eq_true_eq] at hdigit
      have hge : 48 ≤ d.toNat := hdigit.1
      refine Bool.eq_false_iff.mpr fun hspace => ?_
      simp only [isSpace, Bool.or_eq_true, Bool.and_eq_true, decide_eq_true_eq] at hspace
      rcases hspace with rfl | ⟨-, hle⟩
      · exact absurd hge (by decide)
      · omega
    have hscan := scanUnsigned_toDigits n.natAbs
    rw [hds] at hscan ⊢
    rw [List.dropWhile_cons_of_neg (by rw [hspace]; exact Bool.false_ne_true)]
    split
    · rename_i heq
      obtain ⟨rfl, -⟩ := List.cons.inj heq
      cases hdigit
    · rename_i heq
      obtain ⟨rfl, -⟩ := List.cons.inj heq
      cases hdigit
    · have habs : (n.natAbs : Int) = n := by omega
      rw [hscan, Option.map_some, habs, hclamp]

theorem isDot_of_isDigit (h : c.isDigit = true) : isDot c = false ∧ c ∈ jsonNumberChars ∧
    c ∈ "0123456789-".toList := by
  have hall : ∀ n < 10, isDot (Char.ofNat (48 + n)) = false ∧
      Char.ofNat (48 + n) ∈ jsonNumberChars ∧ Char.ofNat (48 + n) ∈ "0123456789-".toList := by
    decide
  rw [Char.isDigit, Bool.and_eq_true, decide_eq_true_eq, decide_eq_true_eq] at h
  have hge : 48 ≤ c.toNat := h.1
  have hle : c.toNat ≤ 57 := h.2
  have hc := hall (c.toNat - 48) (by omega)
  rwa [Nat.add_sub_cancel' hge, Char.ofNat_toNat] at hc

theorem int_chars (n : Int) : ∀ c ∈ (toString n).toList, isDot c = false ∧
    c ∈ jsonNumberChars ∧ c ∈ "0123456789-".toList := by
  intro c hc
  rw [toList_toString_int, List.mem_append] at hc
  rcases hc with hc | hc
  · split at hc
    · obtain rfl := List.mem_singleton.mp hc
      decide
    · exact absurd hc List.not_mem_nil
  · exact isDot_of_isDigit (Nat.isDigit_of_mem_toDigits (by decide) (by decide) hc)

theorem toList_int_ne_nil (n : Int) : (toString n).toList ≠ [] := by
  rw [toList_toString_int]
  exact List.append_ne_nil_of_right_ne_nil _ Nat.toDigits_ne_nil

/-- An integer is read as it was printed. -/
theorem reads_int (h : Fresh tok below) {n : Int} (hmin : -2 ^ 63 ≤ n) (hmax : n < 2 ^ 63) :
    Reads F tok (toString n).toList (.int n) below := by
  have hchars := int_chars n
  have hdot : (toString n).toList.any isDot = false :=
    List.any_eq_false.mpr fun c hc => by rw [(hchars c hc).1]; exact Bool.false_ne_true
  obtain ⟨c, cs, hcs⟩ := List.exists_cons_of_ne_nil (toList_int_ne_nil n)
  refine reads_number h (fun c hc => (hchars c hc).2.1)
    ⟨c, cs, hcs, (hchars c (hcs ▸ List.mem_cons_self)).2.2⟩ ?_
  rw [hdot, scanNumber, if_neg Bool.false_ne_true, String.ofList_toList,
    scanLli_toString hmin hmax]
  rfl

theorem reads_double (h : Fresh tok below) {text : String} {trunc : Int}
    (hd : ReadsBack F text trunc) :
    Reads F tok text.toList (.double text trunc) below := by
  have hdot : text.toList.any isDot = true := by
    obtain ⟨c, hc, hdot⟩ := hd.double
    refine List.any_eq_true.mpr ⟨c, hc, ?_⟩
    simp only [isDot, Bool.or_eq_true, decide_eq_true_eq, or_assoc]
    exact hdot
  refine reads_number h hd.chars hd.first ?_
  rw [hdot, scanNumber, if_pos rfl, hd.scanned]
  rfl

end Numbers

section Strings

theorem toList_escapeStr (s : String) :
    (escapeStr s).toList = s.toList.flatMap (fun c => (escapeChar c).toList) := by
  rw [escapeStr, String.toList_join, List.flatMap_def, List.map_map]
  rfl

theorem strdup_eq {s : String} (hs : '\x00' ∉ s.toList) : strdup s.toList = s := by
  have htake : s.toList.takeWhile (· ≠ '\x00') = s.toList := by
    refine List.takeWhile_eq_self_iff.mpr fun c hc => decide_eq_true ?_
    rintro rfl
    exact hs hc
  rw [strdup, htake, String.ofList_toList]

/-- A quoted text is read as it was before it was escaped. -/
theorem parse_quoted (hs : Quoted s) (h : InText tok s [] current below) {text : String}
    (htext : '\x00' ∉ text.toList) : ∃ t, InText t s text.toList current below ∧ ∀ x rest,
      parseLoop F tok x ((escapeStr text).toList ++ '"' :: rest) =
        parseLoop F t x ('"' :: rest) := by
  obtain ⟨t, ht, hrun⟩ := parse_text (F := F) hs h htext
  refine ⟨t, ht, fun x rest => ?_⟩
  rw [toList_escapeStr]
  exact hrun x ('"' :: rest)

theorem reads_string (h : Fresh tok below) {text : String} (htext : '\x00' ∉ text.toList) :
    Reads F tok ("\"" ++ escapeStr text ++ "\"").toList (.string text) below := by
  intro c hc
  have hstart : InText ({ tok with pb := [], quoteChar := '"' }.setState .string) .string []
      .null below := ⟨rfl, rfl, rfl, by rw [Tokener.setState_current, h.top], h.below⟩
  obtain ⟨t, ht, hrun⟩ := parse_quoted (F := F) (Or.inl rfl) hstart htext
  have hdone : Done ((t.after .finish).setCurrent (.string text)) (.string text) below :=
    ⟨h.waiting, rfl, rfl, rfl, ht.below⟩
  refine ⟨_, hdone, fun x y rest => ?_⟩
  have hopen : switch F tok x '"' = .redo (tok.setState .start) x := by
    rw [switch, h.top]
    rfl
  have hend : switch F t x '"' =
      .next ((t.after .finish).setCurrent (.string text)) x := by
    rw [switch, ht.state]
    dsimp only
    rw [ht.quote, if_pos rfl, ht.pb, strdup_eq htext]
  have hlist : ("\"" ++ escapeStr text ++ "\"").toList ++ c :: rest =
      '"' :: ((escapeStr text).toList ++ '"' :: c :: rest) := by
    simp
  rw [hlist]
  refine (parseLoop_redo h.live hopen _).trans ?_
  refine (parseLoop_next (by rw [switch]; rfl) (by decide) _).trans ?_
  refine (hrun x _).trans ?_
  refine (parseLoop_next hend (by decide) _).trans ?_
  exact parseLoop_obj hdone.ready _

end Strings

end Rhodes.JsonTokener
