import Mathlib.Data.List.TakeWhile

/-!
CTokenizer of Tokenizer.cpp, on what is left of its string at the current position. Fields
that are joined by a delimiter come back as tokens when each of them has a character and
none of the delimiters; a tokenizer never returns any other kind of token.
-/
namespace Rhodes.Tokenizer

section Tokens

variable (delims : List Char)

def isDelim (c : Char) : Bool := delims.contains c

def eatDelimeters (s : List Char) : List Char := s.dropWhile (isDelim delims)

def hasMoreTokens (s : List Char) : Bool := !(eatDelimeters delims s).isEmpty

/-- The token and what is left behind it. -/
def nextToken (s : List Char) : List Char × List Char :=
  let rest := eatDelimeters delims s
  (rest.takeWhile (fun c => !isDelim delims c), rest.dropWhile (fun c => !isDelim delims c))

/-- `while (hasMoreTokens()) nextToken()`; every token takes a character, so that the
length of the string is a bound for the turns. -/
def tokensUpTo : Nat → List Char → List (List Char)
  | 0, _ => []
  | turns + 1, s =>
      if hasMoreTokens delims s then
        (nextToken delims s).1 :: tokensUpTo turns (nextToken delims s).2
      else []

def tokens (s : List Char) : List (List Char) := tokensUpTo delims s.length s

end Tokens

variable {delims : List Char}

theorem not_isDelim_of_eat {s rest : List Char} {c : Char}
    (h : eatDelimeters delims s = c :: rest) : isDelim delims c = false := by
  have hne : s.dropWhile (isDelim delims) ≠ [] := by
    intro hnil
    cases h.symm.trans hnil
  have hhead := List.head_dropWhile_not (isDelim delims) hne
  unfold eatDelimeters at h
  simpa [h] using hhead

theorem nextToken_shorter {s : List Char} (h : hasMoreTokens delims s = true) :
    (nextToken delims s).2.length < s.length := by
  have hrest : eatDelimeters delims s ≠ [] := by
    simpa [hasMoreTokens] using h
  have hle : (eatDelimeters delims s).length ≤ s.length := List.length_dropWhile_le _ _
  unfold nextToken
  cases hs : eatDelimeters delims s with
  | nil => exact absurd hs hrest
  | cons c rest =>
    rw [hs] at hle
    simp only [List.dropWhile_cons, not_isDelim_of_eat hs, Bool.not_false, if_true]
    have hlen := List.length_dropWhile_le (fun c => !isDelim delims c) rest
    simp only [List.length_cons] at hle
    omega

/-- Turns beyond the length of the string change nothing. -/
theorem tokensUpTo_eq (turns turns' : Nat) (s : List Char) (h : s.length ≤ turns)
    (h' : s.length ≤ turns') : tokensUpTo delims turns s = tokensUpTo delims turns' s := by
  induction turns generalizing turns' s with
  | zero =>
    have hs : s = [] := List.length_eq_zero_iff.mp (by omega)
    subst hs
    cases turns' <;> simp [tokensUpTo, hasMoreTokens, eatDelimeters]
  | succ turns ih =>
    cases turns' with
    | zero =>
      have hs : s = [] := List.length_eq_zero_iff.mp (by omega)
      subst hs
      simp [tokensUpTo, hasMoreTokens, eatDelimeters]
    | succ turns' =>
      simp only [tokensUpTo]
      by_cases hmore : hasMoreTokens delims s = true
      · have hshort := nextToken_shorter hmore
        rw [if_pos hmore, if_pos hmore, ih turns' (nextToken delims s).2 (by omega) (by omega)]
      · rw [if_neg hmore, if_neg hmore]

theorem tokens_eq (s : List Char) :
    tokens delims s = if hasMoreTokens delims s then
      (nextToken delims s).1 :: tokens delims (nextToken delims s).2 else [] := by
  by_cases hmore : hasMoreTokens delims s = true
  · have hshort := nextToken_shorter hmore
    rw [if_pos hmore, tokens, tokensUpTo_eq s.length (s.length + 1) s (by omega) (by omega)]
    simp only [tokensUpTo, if_pos hmore]
    congr 1
    exact tokensUpTo_eq _ _ _ (by omega) (by omega)
  · rw [if_neg hmore, tokens, tokensUpTo_eq s.length (s.length + 1) s (by omega) (by omega)]
    simp only [tokensUpTo, if_neg hmore]

/-- A text that a tokenizer can return. -/
def IsToken (delims t : List Char) : Prop := t ≠ [] ∧ ∀ c ∈ t, c ∉ delims

theorem isToken_of_mem_tokens {s t : List Char} (h : t ∈ tokens delims s) : IsToken delims t := by
  have hall : ∀ turns s, ∀ t ∈ tokensUpTo delims turns s, IsToken delims t := by
    intro turns
    induction turns with
    | zero => exact fun s t ht => absurd ht List.not_mem_nil
    | succ turns ih =>
      intro s t ht
      simp only [tokensUpTo] at ht
      split at ht
      · rename_i hmore
        rcases List.mem_cons.mp ht with rfl | ht
        · have hrest : eatDelimeters delims s ≠ [] := by
            simpa [hasMoreTokens] using hmore
          constructor
          · intro hnil
            cases hs : eatDelimeters delims s with
            | nil => exact hrest hs
            | cons c rest => simp [nextToken, hs, not_isDelim_of_eat hs] at hnil
          · intro c hc
            have hkeep := List.mem_takeWhile_imp hc
            simpa [isDelim] using hkeep
        · exact ih _ t ht
      · cases ht
  exact hall _ s t h

theorem tokens_delim_cons {d : Char} (hd : d ∈ delims) (s : List Char) :
    tokens delims (d :: s) = tokens delims s := by
  have heat : eatDelimeters delims (d :: s) = eatDelimeters delims s := by
    simp [eatDelimeters, isDelim, hd]
  rw [tokens_eq (d :: s), tokens_eq s]
  simp only [hasMoreTokens, nextToken, heat]
  rfl

theorem nextToken_field {t : List Char} (ht : IsToken delims t) (s : List Char)
    (hs : s = [] ∨ ∃ d s', d ∈ delims ∧ s = d :: s') :
    hasMoreTokens delims (t ++ s) = true ∧ nextToken delims (t ++ s) = (t, s) := by
  obtain ⟨hne, hall⟩ := ht
  have hkeep : ∀ c ∈ t, (!isDelim delims c) = true := by
    intro c hc
    simpa [isDelim] using hall c hc
  have heat : eatDelimeters delims (t ++ s) = t ++ s := by
    cases t with
    | nil => exact absurd rfl hne
    | cons c t =>
      have hc := hkeep c List.mem_cons_self
      simp [eatDelimeters, by simpa using hc]
  have hstop : s.takeWhile (fun c => !isDelim delims c) = [] ∧
      s.dropWhile (fun c => !isDelim delims c) = s := by
    rcases hs with rfl | ⟨d, s', hd, rfl⟩
    · exact ⟨rfl, rfl⟩
    · simp [isDelim, hd]
  constructor
  · rw [hasMoreTokens, heat]
    simp [hne]
  · simp only [nextToken, heat]
    rw [List.takeWhile_append_of_pos hkeep, List.dropWhile_append_of_pos hkeep, hstop.1, hstop.2,
      List.append_nil]

theorem tokens_field_cons {d : Char} (hd : d ∈ delims) {t : List Char} (ht : IsToken delims t)
    (s : List Char) : tokens delims (t ++ d :: s) = t :: tokens delims s := by
  obtain ⟨hmore, hnext⟩ := nextToken_field ht (d :: s) (Or.inr ⟨d, s, hd, rfl⟩)
  rw [tokens_eq, if_pos hmore, hnext, tokens_delim_cons hd]

/-- Joined fields are the tokens of the joined text. -/
theorem tokens_intercalate {d : Char} (hd : d ∈ delims) (fields : List (List Char))
    (h : ∀ t ∈ fields, IsToken delims t) :
    tokens delims ([d].intercalate fields) = fields := by
  induction fields with
  | nil => simp [List.intercalate, tokens, tokensUpTo]
  | cons t fields ih =>
    have ht := h t List.mem_cons_self
    have hrest := ih (fun t' ht' => h t' (List.mem_cons_of_mem _ ht'))
    cases fields with
    | nil =>
      have hjoin : [d].intercalate [t] = t ++ [] := by simp [List.intercalate]
      obtain ⟨hmore, hnext⟩ := nextToken_field ht [] (Or.inl rfl)
      rw [hjoin, tokens_eq, if_pos hmore, hnext]
      simp [tokens, tokensUpTo]
    | cons t' fields =>
      have hjoin : [d].intercalate (t :: t' :: fields) =
          t ++ d :: [d].intercalate (t' :: fields) := by
        simp [List.intercalate, List.intersperse]
      rw [hjoin, tokens_field_cons hd ht, hrest]

/-- isspace. -/
def isSpace (c : Char) : Bool :=
  c = ' ' || c = '\t' || c = '\n' || c = '\r' || c.toNat = 11 || c.toNat = 12

def digitsValue (s : List Char) : Nat := Nat.ofDigitChars 10 (s.takeWhile Char.isDigit) 0

/-- sscanf with %d into a variable that is 0. -/
def convertFromString (s : List Char) : Int :=
  match s.dropWhile isSpace with
  | '-' :: rest => -digitsValue rest
  | '+' :: rest => digitsValue rest
  | rest => digitsValue rest

/-- A number is read up to the first character that is not a digit. -/
theorem convertFromString_toDigits_append (n : Nat) (rest : List Char)
    (hrest : ∀ c ∈ rest.head?, c.isDigit = false) :
    convertFromString (Nat.toDigits 10 n ++ rest) = n := by
  have hdigit : ∀ c ∈ Nat.toDigits 10 n, c.isDigit = true :=
    fun c hc => Nat.isDigit_of_mem_toDigits (by decide) (by decide) hc
  have hstop : rest.takeWhile Char.isDigit = [] := by
    cases rest with
    | nil => rfl
    | cons c rest => rw [List.takeWhile_cons_of_neg (by rw [hrest c rfl]; decide)]
  have hvalue : digitsValue (Nat.toDigits 10 n ++ rest) = n := by
    unfold digitsValue
    rw [List.takeWhile_append_of_pos hdigit, hstop, List.append_nil, Nat.ofDigitChars_ten_toDigits]
  cases hs : Nat.toDigits 10 n with
  | nil => exact absurd hs Nat.toDigits_ne_nil
  | cons c digits =>
    have hc : c.isDigit = true := hdigit c (by rw [hs]; exact List.mem_cons_self)
    have hspace : isSpace c = false := by
      by_contra hspace
      have hrange : 48 ≤ c.toNat := by
        simp only [Char.isDigit, Bool.and_eq_true, decide_eq_true_eq] at hc
        exact hc.1
      simp only [isSpace, Bool.not_eq_false, Bool.or_eq_true, decide_eq_true_eq] at hspace
      rcases hspace with ((((rfl | rfl) | rfl) | rfl) | heq) | heq <;>
        first | exact absurd hc (by decide) | omega
    rw [hs, List.cons_append] at hvalue
    unfold convertFromString
    rw [List.cons_append, List.dropWhile_cons_of_neg (by simp [hspace])]
    split
    · rename_i heq
      cases heq
      exact absurd hc (by decide)
    · rename_i heq
      cases heq
      exact absurd hc (by decide)
    · rw [hvalue]

theorem convertFromString_toDigits (n : Nat) : convertFromString (Nat.toDigits 10 n) = n := by
  have h := convertFromString_toDigits_append n [] (fun c hc => by cases hc)
  rwa [List.append_nil] at h

end Rhodes.Tokenizer
