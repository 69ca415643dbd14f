import Rhodes.PairParser
import Rhodes.Uri

/-!
What urlEncode appends and what percent decoding makes of it. A byte below 128 is a plain character
or a percent sign with its two digits. A byte above is negative as a char, so that its sign stands
between the percent sign and the digits.
-/
namespace Rhodes.UriDecoding

open PairParser Uri

/-- The text of a byte. -/
def encodeByte (b : UInt8) : List Char := if isPlain b then asciiText [b] else escape b

/-- The bytes in front are copied when the first one is escaped, or at the end. -/
theorem urlEncodeLoop_eq (before rest : List UInt8) (bFound : Bool) (strRes : List Char) :
    urlEncodeLoop before rest bFound strRes =
      (if bFound then strRes else strRes ++ asciiText before) ++ rest.flatMap encodeByte := by
  induction rest generalizing before bFound strRes with
  | nil => rw [urlEncodeLoop, List.flatMap_nil, List.append_nil]
  | cons c rest ih =>
    have hbefore : asciiText (before ++ [c]) = asciiText before ++ asciiText [c] := List.map_append
    rw [urlEncodeLoop, List.flatMap_cons, encodeByte]
    by_cases hplain : isPlain c
    · rw [if_pos hplain, if_pos hplain, ih]
      cases bFound <;> simp [hbefore]
    · rw [if_neg hplain, if_neg hplain, ih]
      cases bFound <;> simp

theorem urlEncode_eq (s : List UInt8) (r : List Char) :
    urlEncode s r = r ++ s.flatMap encodeByte := by
  rw [urlEncode, urlEncodeLoop_eq]
  simp [asciiText]

/-- A letter, a digit or one of five signs. -/
def isPlainChar (c : Char) : Bool :=
  c = '^' || c = '_' || c = '\\' || c = '-' || c = '.' || ('A' ≤ c && c ≤ 'Z') ||
    ('a' ≤ c && c ≤ 'z') || ('0' ≤ c && c ≤ '9')

/-- Plain characters, and percent signs with two hexadecimal digits behind them. -/
def isEncoded : List Char → Bool
  | '%' :: a :: b :: rest => isHexDigit a && isHexDigit b && isEncoded rest
  | c :: rest => isPlainChar c && isEncoded rest
  | [] => true

/-- urlEncode appends an encoded text that is decoded to the bytes. -/
def Decodable (s : List UInt8) (r : List Char) : Prop :=
  ∃ t, urlEncode s r = r ++ t ∧ isEncoded t = true ∧ unescape t = asciiText s

section Bytes

/-- The text of a byte is a plain character or an escape of two digits. -/
def isByteText (n : Nat) (t : List Char) : Bool :=
  match t with
  | [c] => isPlainChar c && c ≠ '%' && c = Char.ofNat n
  | ['%', a, b] => isHexDigit a && isHexDigit b &&
      Char.ofNat (16 * hexValue a + hexValue b) = Char.ofNat n
  | _ => false

theorem encodeByte_small : ∀ n < 128, isByteText n (encodeByte (UInt8.ofNat n)) = true := by
  decide +kernel

theorem encodeByte_large : ∀ n < 256, 128 ≤ n →
    (encodeByte (UInt8.ofNat n)).take 3 = ['%', '0', '-'] := by
  decide +kernel

theorem encodeByte_text {b : UInt8} (h : b.toNat < 128) : isByteText b.toNat (encodeByte b) := by
  have hbyte := encodeByte_small b.toNat h
  rwa [UInt8.ofNat_toNat] at hbyte

/-- What stands behind the text of a byte is read as it is alone. -/
theorem reads_byteText {n : Nat} {t : List Char} (h : isByteText n t) (rest : List Char) :
    isEncoded (t ++ rest) = isEncoded rest ∧ unescape (t ++ rest) = Char.ofNat n :: unescape rest := by
  unfold isByteText at h
  split at h
  · rename_i c
    simp only [Bool.and_eq_true, decide_eq_true_eq] at h
    obtain ⟨⟨hplain, hpercent⟩, rfl⟩ := h
    refine ⟨?_, ?_⟩
    · rw [List.singleton_append, isEncoded, hplain, Bool.true_and]
      rintro a b rest' heq -
      exact hpercent heq
    · rw [List.singleton_append, unescape]
      rintro a b rest' heq -
      exact hpercent heq
  · rename_i a b
    simp only [Bool.and_eq_true, decide_eq_true_eq] at h
    obtain ⟨⟨ha, hb⟩, hvalue⟩ := h
    refine ⟨?_, ?_⟩
    · show (isHexDigit a && isHexDigit b && isEncoded rest) = _
      rw [ha, hb, Bool.true_and, Bool.true_and]
    · show unescape ('%' :: a :: b :: rest) = _
      rw [unescape, if_pos ⟨ha, hb⟩, hvalue]
  · cases h

/-- Bytes below 128 are encoded and decoded. -/
theorem reads_small {s : List UInt8} (h : ∀ b ∈ s, b.toNat < 128) (rest : List Char) :
    isEncoded (s.flatMap encodeByte ++ rest) = isEncoded rest ∧
      unescape (s.flatMap encodeByte ++ rest) = asciiText s ++ unescape rest := by
  induction s with
  | nil => exact ⟨rfl, rfl⟩
  | cons b s ih =>
    obtain ⟨hb, hs⟩ := List.forall_mem_cons.mp h
    obtain ⟨hencoded, hdecoded⟩ := ih hs
    obtain ⟨hencoded', hdecoded'⟩ := reads_byteText (encodeByte_text hb)
      (s.flatMap encodeByte ++ rest)
    rw [List.flatMap_cons, List.append_assoc, hencoded', hdecoded', hencoded, hdecoded]
    exact ⟨rfl, rfl⟩

end Bytes

/-- The sign is no hexadecimal digit. -/
theorem not_isEncoded_large {b : UInt8} (h : 128 ≤ b.toNat) (rest : List Char) :
    isEncoded (encodeByte b ++ rest) = false := by
  have htake := encodeByte_large b.toNat (UInt8.toNat_lt b) h
  rw [UInt8.ofNat_toNat] at htake
  have htext : encodeByte b = '%' :: '0' :: '-' :: (encodeByte b).drop 3 := by
    conv_lhs => rw [← List.take_append_drop 3 (encodeByte b), htake]
    rfl
  rw [htext]
  show (isHexDigit '0' && isHexDigit '-' && isEncoded _) = false
  rw [show isHexDigit '-' = false from rfl, Bool.and_false, Bool.false_and]

section Decoding

variable {s : List UInt8} {r : List Char}

theorem small_of_decodable (h : Decodable s r) : ∀ b ∈ s, b.toNat < 128 := by
  obtain ⟨t, ht, hencoded, -⟩ := h
  rw [urlEncode_eq, List.append_cancel_left_eq] at ht
  subst ht
  by_contra hlarge
  push Not at hlarge
  obtain ⟨b, hb, hle⟩ := hlarge
  have hfind : (s.find? (fun b => 128 ≤ b.toNat)).isSome :=
    List.find?_isSome.mpr ⟨b, hb, decide_eq_true hle⟩
  -- the first byte above 127 decides
  obtain ⟨c, hc⟩ := Option.isSome_iff_exists.mp hfind
  obtain ⟨hcle, front, back, rfl, hfront⟩ := List.find?_eq_some_iff_append.mp hc
  have hsmall : ∀ b ∈ front, b.toNat < 128 := by
    intro b hb
    have hnot := hfront b hb
    simp only [Bool.not_eq_true', decide_eq_false_iff_not] at hnot
    omega
  rw [List.flatMap_append, List.flatMap_cons, (reads_small hsmall _).1,
    not_isEncoded_large (of_decide_eq_true hcle)] at hencoded
  cases hencoded

theorem decodable_of_small (h : ∀ b ∈ s, b.toNat < 128) : Decodable s r := by
  obtain ⟨hencoded, hdecoded⟩ := reads_small h []
  rw [List.append_nil] at hencoded hdecoded
  refine ⟨s.flatMap encodeByte, urlEncode_eq s r, ?_, ?_⟩
  · rw [hencoded]
    rfl
  · rw [hdecoded]
    exact List.append_nil _

end Decoding

/-- The appended text is encoded and decodes to the bytes just where no byte is above 127. -/
theorem urlEncode_decodable_iff (s : List UInt8) (r : List Char) :
    Decodable s r ↔ ∀ b ∈ s, b.toNat < 128 :=
  ⟨small_of_decodable, decodable_of_small⟩

/-- The two bytes of é are written with signs. -/
theorem accent_not_decodable : ¬Decodable [0xC3, 0xA9] [] := by
  intro h
  exact absurd (small_of_decodable h) (by decide +kernel)

end Rhodes.UriDecoding
