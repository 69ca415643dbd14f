import Mathlib
import Rhodes.SqlToken

/-!
An SQL text that is put together from pieces: words, symbols and texts between quotes that are not
escaped. The tokens of such a text are those of its pieces just where every text between quotes is
plain, that is without its quote and without a zero character.
-/
namespace Rhodes.SqlPieces

open SqlToken

inductive Piece where
  | gap (c : Char)
  | word (w : String)
  | sym (c : Char)
  | param
  | number (n : Nat)
  /-- A text between two of these. -/
  | quoted (delim : Char) (s : String)
  /-- The text NULL for nil and for itself, and any other text between apostrophes. -/
  | value (v : Option String)
  deriving DecidableEq

namespace Piece

def render : Piece → List Char
  | gap c => [c]
  | word w => w.toList
  | sym c => [c]
  | param => ['?']
  | number n => (toString n).toList
  | quoted delim s => delim :: (s.toList ++ [delim])
  | value none => ['N', 'U', 'L', 'L']
  | value (some s) =>
    if s = "NULL" then ['N', 'U', 'L', 'L'] else '\'' :: (s.toList ++ ['\''])

/-- What the piece stands for. -/
def tokens : Piece → List Token
  | gap _ => []
  | word w => [.word (lower w.toList)]
  | sym c => [.op [c]]
  | param => [.variable ['?']]
  | number n => [.number (toString n).toList]
  | quoted delim s => [if delim = '\'' then .string s.toList else .name s.toList]
  | value none => [.word ['n', 'u', 'l', 'l']]
  | value (some s) => [.string s.toList]

/-- A word of letters, digits and underscores that no digit is the first of. -/
def isWord (w : List Char) : Bool :=
  w.all (fun c => c.isAlphanum || c = '_') && w.head?.any (fun c => !c.isDigit)

def Ok : Piece → Bool
  | gap c => c = ' ' || c = '\n'
  | word w => isWord w.toList
  | sym c => c ∈ ['(', ')', ',', '*', '=']
  | quoted delim _ => delim = '\'' || delim = '"'
  | _ => true

/-- The text does not end before its quote does. -/
def PlainIn (delim : Char) (s : String) : Prop := delim ∉ s.toList ∧ '\x00' ∉ s.toList

instance (delim : Char) (s : String) : Decidable (PlainIn delim s) :=
  inferInstanceAs (Decidable (_ ∧ _))

/-- A value that is read as it is. -/
def PlainValue (v : Option String) : Prop := ∀ s, v = some s → s ≠ "NULL" ∧ PlainIn '\'' s

def Plain : Piece → Prop
  | quoted delim s => PlainIn delim s
  | value v => PlainValue v
  | _ => True

def separates : Piece → Bool
  | gap _ => true
  | sym _ => true
  | _ => false

/-- What may stand behind a piece: after a symbol or a gap nearly everything. -/
def Allows : Piece → Piece → Bool
  | gap _, _ => true
  | sym c, q => !(c = '=' && q = sym '=')
  | _, q => q.separates

/-- A piece that may stand behind every other one. -/
def opens : Piece → Bool
  | gap _ => true
  | sym c => c ≠ '='
  | _ => false

theorem allows_of_opens {p q : Piece} (h : q.opens) : p.Allows q := by
  cases q with
  | gap c => cases p <;> simp [Allows, separates]
  | sym c =>
    have hc : c ≠ '=' := by simpa [opens] using h
    cases p <;> simp [Allows, separates, hc]
  | _ => cases h

end Piece

open Piece

def render (ps : List Piece) : List Char := ps.flatMap Piece.render

def tokensOf (ps : List Piece) : List Token := ps.flatMap Piece.tokens

@[simp] theorem render_nil : render [] = [] := rfl

@[simp] theorem render_cons (p : Piece) (ps : List Piece) :
    render (p :: ps) = p.render ++ render ps := rfl

@[simp] theorem render_append (ps qs : List Piece) : render (ps ++ qs) = render ps ++ render qs :=
  List.flatMap_append

@[simp] theorem tokensOf_nil : tokensOf [] = [] := rfl

@[simp] theorem tokensOf_cons (p : Piece) (ps : List Piece) :
    tokensOf (p :: ps) = p.tokens ++ tokensOf ps := rfl

@[simp] theorem tokensOf_append (ps qs : List Piece) :
    tokensOf (ps ++ qs) = tokensOf ps ++ tokensOf qs := List.flatMap_append

/-- No piece runs into the next one. -/
structure Spaced (ps : List Piece) : Prop where
  ok : ∀ p ∈ ps, p.Ok
  chain : ps.IsChain (fun p q => p.Allows q)

/-- The first piece may stand behind every other one. -/
def Opens (ps : List Piece) : Prop := ∀ q ∈ ps.head?, q.opens

instance (ps : List Piece) : Decidable (Opens ps) :=
  inferInstanceAs (Decidable (∀ q ∈ ps.head?, q.opens))

section Spaced

variable {ps qs : List Piece}

theorem spaced_nil : Spaced [] := ⟨fun _ h => (List.not_mem_nil h).elim, .nil⟩

instance (ps : List Piece) : Decidable (Spaced ps) :=
  decidable_of_iff ((∀ p ∈ ps, p.Ok) ∧ ps.IsChain (fun p q => p.Allows q))
    ⟨fun h => ⟨h.1, h.2⟩, fun h => ⟨h.ok, h.chain⟩⟩

theorem spaced_append (h : Spaced ps) (h' : Spaced qs)
    (hjoin : ∀ p ∈ ps.getLast?, ∀ q ∈ qs.head?, p.Allows q) : Spaced (ps ++ qs) := by
  refine ⟨?_, List.isChain_append.mpr ⟨h.chain, h'.chain, hjoin⟩⟩
  intro p hp
  rcases List.mem_append.mp hp with hp | hp
  · exact h.ok p hp
  · exact h'.ok p hp

theorem Spaced.append (h : Spaced ps) (h' : Spaced qs) (hopens : Opens qs) : Spaced (ps ++ qs) :=
  spaced_append h h' (fun _ _ q hq => allows_of_opens (hopens q hq))

theorem opens_append (h : Opens ps) (h' : Opens qs) : Opens (ps ++ qs) := by
  cases ps with
  | nil => exact h'
  | cons p ps => exact h

theorem spaced_flatMap {α : Type} (xs : List α) (f : α → List Piece)
    (h : ∀ x ∈ xs, Spaced (f x) ∧ Opens (f x)) :
    Spaced (xs.flatMap f) ∧ Opens (xs.flatMap f) := by
  induction xs with
  | nil => exact ⟨spaced_nil, fun _ hq => by cases hq⟩
  | cons x xs ih =>
    obtain ⟨hx, hopens⟩ := h x List.mem_cons_self
    obtain ⟨hxs, hopens'⟩ := ih (fun x' hx' => h x' (List.mem_cons_of_mem x hx'))
    exact ⟨hx.append hxs hopens', opens_append hopens hopens'⟩

end Spaced

section Quotes

variable {d : Char}

/-- A text with every quote written twice. -/
def doubled (d : Char) (s : List Char) : List Char :=
  s.flatMap (fun c => if c = d then [d, d] else [c])

theorem doubled_cons (c : Char) (s : List Char) :
    doubled d (c :: s) = (if c = d then [d, d] else [c]) ++ doubled d s := rfl

theorem mem_doubled {c : Char} {s : List Char} (h : c ∈ s) : c ∈ doubled d s := by
  refine List.mem_flatMap.mpr ⟨c, h, ?_⟩
  split
  · rename_i heq
    rw [heq]
    exact List.mem_cons_self
  · exact List.mem_singleton_self c

/-- What is before the quote that ends a text. -/
theorem closeQuote_spec {cs w rest : List Char} (h : closeQuote d cs = some (w, rest)) :
    cs = doubled d w ++ d :: rest ∧ rest.head? ≠ some d := by
  fun_induction closeQuote d cs generalizing w rest with
  | case1 => cases h
  | case2 =>
    cases h
    exact ⟨rfl, nofun⟩
  | case3 ds ih =>
    obtain ⟨⟨w', rest'⟩, hr, heq⟩ := Option.map_eq_some_iff.mp h
    cases heq
    obtain ⟨hcs, hhead⟩ := ih hr
    refine ⟨?_, hhead⟩
    rw [doubled_cons, if_pos rfl, hcs]
    rfl
  | case4 c ds hne =>
    cases h
    exact ⟨rfl, fun hhead => hne (Option.some.inj hhead)⟩
  | case5 c cs hne ih =>
    obtain ⟨⟨w', rest'⟩, hr, heq⟩ := Option.map_eq_some_iff.mp h
    cases heq
    obtain ⟨hcs, hhead⟩ := ih hr
    refine ⟨?_, hhead⟩
    rw [doubled_cons, if_neg hne, hcs]
    rfl

theorem closeQuote_plain {s rest : List Char} (hs : d ∉ s) (hrest : rest.head? ≠ some d) :
    closeQuote d (s ++ d :: rest) = some (s, rest) := by
  induction s with
  | nil =>
    cases rest with
    | nil => simp [closeQuote]
    | cons c rest =>
      have hne : c ≠ d := fun h => hrest (congrArg some h)
      simp [closeQuote, hne]
  | cons c s ih =>
    have hne : c ≠ d := fun h => hs (h ▸ List.mem_cons_self)
    have hstep : closeQuote d (c :: (s ++ d :: rest)) =
        (closeQuote d (s ++ d :: rest)).map (fun r => (c :: r.1, r.2)) := by
      rw [closeQuote.eq_def]
      exact if_neg hne
    rw [List.cons_append, hstep, ih (fun h => hs (List.mem_cons_of_mem c h))]
    rfl

/-- Some quotes and a doubled text cannot be the text itself. -/
theorem quote_run {s rest rest' : List Char} {n : Nat} (hn : 0 < n)
    (h : s ++ d :: rest = List.replicate n d ++ (doubled d s ++ d :: rest')) :
    rest.head? = some d := by
  induction s generalizing n with
  | nil =>
    obtain ⟨n, rfl⟩ := Nat.exists_eq_succ_of_ne_zero (Nat.ne_of_gt hn)
    rw [List.replicate_succ] at h
    cases n with
    | zero =>
      obtain ⟨-, hrest⟩ := List.cons.inj h
      rw [hrest]
      rfl
    | succ n =>
      obtain ⟨-, hrest⟩ := List.cons.inj h
      rw [hrest, List.replicate_succ]
      rfl
  | cons c s ih =>
    obtain ⟨n, rfl⟩ := Nat.exists_eq_succ_of_ne_zero (Nat.ne_of_gt hn)
    rw [List.replicate_succ] at h
    obtain ⟨hc, htail⟩ := List.cons.inj h
    rw [doubled_cons, if_pos hc] at htail
    refine ih (n := n + 2) (Nat.succ_pos _) (htail.trans ?_)
    rw [List.replicate_add, List.append_assoc, List.append_assoc]
    rfl

/-- A text with a quote in it is not read as it is. -/
theorem doubled_ne {s rest rest' : List Char} (hs : d ∈ s) (hrest : rest.head? ≠ some d) :
    s ++ d :: rest ≠ doubled d s ++ d :: rest' := by
  intro h
  induction s with
  | nil => cases hs
  | cons c s ih =>
    by_cases hc : c = d
    · rw [doubled_cons, if_pos hc] at h
      obtain ⟨-, htail⟩ := List.cons.inj h
      exact hrest (quote_run (n := 1) Nat.one_pos htail)
    · rw [doubled_cons, if_neg hc] at h
      obtain ⟨-, htail⟩ := List.cons.inj h
      refine ih ?_ htail
      rcases List.mem_cons.mp hs with heq | hs
      · exact absurd heq.symm hc
      · exact hs

end Quotes

section Tokens

/-- What stands behind a piece that needs a separator. -/
def Ends (cs : List Char) : Prop := ∀ c ∈ cs.head?, c ∈ [' ', '\n', '(', ')', ',', '*', '=']

variable {rest : List Char}

theorem Ends.head_ne (h : Ends rest) {d : Char}
    (hd : d ∉ [' ', '\n', '(', ')', ',', '*', '=']) : rest.head? ≠ some d :=
  fun heq => hd (h d heq)

theorem Ends.dropWhile_eq (h : Ends rest) {p : Char → Bool}
    (hp : [' ', '\n', '(', ')', ',', '*', '='].all (fun c => !p c)) : rest.dropWhile p = rest := by
  cases rest with
  | nil => rfl
  | cons c rest =>
    have hc : (!p c) = true := List.all_eq_true.mp hp c (h c rfl)
    rw [List.dropWhile_cons, if_neg (by simpa using hc)]

theorem Ends.takeWhile_eq (h : Ends rest) {p : Char → Bool}
    (hp : [' ', '\n', '(', ')', ',', '*', '='].all (fun c => !p c)) : rest.takeWhile p = [] := by
  cases rest with
  | nil => rfl
  | cons c rest =>
    have hc : (!p c) = true := List.all_eq_true.mp hp c (h c rfl)
    rw [List.takeWhile_cons, if_neg (by simpa using hc)]

theorem getToken_gap {c : Char} (hc : c = ' ' ∨ c = '\n') (cs : List Char) :
    getToken c cs = some (none, cs.dropWhile isSpace) := by
  rcases hc with rfl | rfl
  · rfl
  · rfl

theorem getToken_letter {c : Char} (hc : (c.isAlpha || c = '_') = true) {cs : List Char}
    (hcs : cs.head? ≠ some '\'') : getToken c cs = getWord (c :: cs) := by
  have hne : ∀ d : Char, (d.isAlpha || d = '_') = false → c ≠ d := by
    rintro d hd rfl
    rw [hd] at hc
    cases hc
  have hdigit : c.isDigit = false := by
    by_contra h
    rw [Bool.not_eq_false] at h
    simp only [Char.isDigit, Char.isAlpha, Char.isUpper, Char.isLower, Bool.or_eq_true,
      Bool.and_eq_true, decide_eq_true_eq, UInt32.le_iff_toNat_le, ge_iff_le] at h hc
    have h57 : '9'.val.toNat = 57 := rfl
    have h65 : 'A'.val.toNat = 65 := rfl
    have h97 : 'a'.val.toNat = 97 := rfl
    rcases hc with (hc | hc) | rfl
    · omega
    · omega
    · revert h
      decide
  unfold getToken
  simp only [List.mem_cons, List.not_mem_nil, or_false, hne ' ' (by decide), hne '\t' (by decide),
    hne '\n' (by decide), hne '\x0c' (by decide), hne '\r' (by decide), hne '-' (by decide),
    hne '(' (by decide), hne ')' (by decide), hne ';' (by decide), hne '+' (by decide),
    hne '*' (by decide), hne '%' (by decide), hne ',' (by decide), hne '&' (by decide),
    hne '~' (by decide), hne '/' (by decide), hne '=' (by decide), hne '<' (by decide),
    hne '>' (by decide), hne '|' (by decide), hne '!' (by decide), hne '\x60' (by decide),
    hne '\'' (by decide), hne '"' (by decide), hne '.' (by decide), hne '[' (by decide),
    hne '?' (by decide), hne '#' (by decide), hne '$' (by decide), hne '@' (by decide),
    hne ':' (by decide), hdigit, hcs, false_and, and_false, if_false, Bool.false_eq_true]

theorem idChar_of_word {c : Char} (h : (c.isAlphanum || c = '_') = true) : idChar c = true := by
  unfold idChar
  rw [Bool.or_eq_true] at h
  rcases h with h | h
  · rw [h]
    rfl
  · rw [h, Bool.or_true]
    rfl

theorem getWord_spec {w : List Char} (hw : w ≠ [])
    (hall : ∀ c ∈ w, (c.isAlphanum || c = '_') = true) (hrest : Ends rest) :
    getWord (w ++ rest) = some (some (.word (lower w)), rest) := by
  have hid : ∀ c ∈ w, idChar c = true := fun c hc => idChar_of_word (hall c hc)
  have htake : (w ++ rest).takeWhile idChar = w := by
    rw [List.takeWhile_append_of_pos hid, hrest.takeWhile_eq (by decide), List.append_nil]
  have hdrop : (w ++ rest).dropWhile idChar = rest := by
    rw [List.dropWhile_append_of_pos hid, hrest.dropWhile_eq (by decide)]
  unfold getWord
  rw [htake, hdrop, if_neg]
  simpa using hw

theorem getToken_word {c : Char} {cs : List Char} (hw : isWord (c :: cs)) (hrest : Ends rest) :
    getToken c (cs ++ rest) = some (some (.word (lower (c :: cs))), rest) := by
  unfold isWord at hw
  rw [Bool.and_eq_true, List.all_eq_true] at hw
  obtain ⟨hall, hfirst⟩ := hw
  have hdigit : c.isDigit = false := by simpa using hfirst
  have hc : (c.isAlpha || c = '_') = true := by
    have h := hall c List.mem_cons_self
    simpa [Char.isAlphanum, hdigit] using h
  have hquote : (cs ++ rest).head? ≠ some '\'' := by
    cases cs with
    | nil => exact hrest.head_ne (by decide)
    | cons d cs =>
      intro heq
      have h := hall d (List.mem_cons_of_mem c List.mem_cons_self)
      rw [List.cons_append, List.head?_cons, Option.some.injEq] at heq
      rw [heq] at h
      exact absurd h (by decide)
  rw [getToken_letter hc hquote]
  exact getWord_spec (List.cons_ne_nil c cs) hall hrest

theorem getToken_sym {c : Char} (hc : c ∈ ['(', ')', ',', '*', '=']) {cs : List Char}
    (hcs : c = '=' → cs.head? ≠ some '=') : getToken c cs = some (some (.op [c]), cs) := by
  simp only [List.mem_cons, List.not_mem_nil, or_false] at hc
  rcases hc with rfl | rfl | rfl | rfl | rfl
  · rfl
  · rfl
  · rfl
  · rfl
  · cases cs with
    | nil => rfl
    | cons d cs =>
      have hd : d ≠ '=' := fun h => hcs rfl (congrArg some h)
      show getOp '=' ['='] (d :: cs) = _
      rw [getOp, if_neg (by simpa using hd)]

theorem getToken_param (hrest : Ends rest) :
    getToken '?' rest = some (some (.variable ['?']), rest) := by
  have hdigits : afterDigits rest = rest := hrest.dropWhile_eq (by decide)
  show taken .variable ('?' :: rest) (afterDigits rest) = _
  rw [taken, hdigits]
  simp

theorem getToken_digit {c : Char} (hc : c.isDigit = true) (cs : List Char) :
    getToken c cs = (getNumber (c :: cs)).map (fun r => (some r.1, r.2)) := by
  have hne : ∀ d : Char, d.isDigit = false → c ≠ d := by
    rintro d hd rfl
    rw [hd] at hc
    cases hc
  unfold getToken
  simp only [List.mem_cons, List.not_mem_nil, or_false, hne ' ' (by decide), hne '\t' (by decide),
    hne '\n' (by decide), hne '\x0c' (by decide), hne '\r' (by decide), hne '-' (by decide),
    hne '(' (by decide), hne ')' (by decide), hne ';' (by decide), hne '+' (by decide),
    hne '*' (by decide), hne '%' (by decide), hne ',' (by decide), hne '&' (by decide),
    hne '~' (by decide), hne '/' (by decide), hne '=' (by decide), hne '<' (by decide),
    hne '>' (by decide), hne '|' (by decide), hne '!' (by decide), hne '\x60' (by decide),
    hne '\'' (by decide), hne '"' (by decide), hne '.' (by decide), hc, false_and, false_or,
    if_false, if_true]

theorem getNumber_spec {ds : List Char} (hds : ∀ c ∈ ds, c.isDigit = true) (hrest : Ends rest) :
    getNumber (ds ++ rest) = some (.number ds, rest) := by
  have hdigits : afterDigits (ds ++ rest) = rest := by
    rw [afterDigits, List.dropWhile_append_of_pos hds, hrest.dropWhile_eq (by decide)]
  have hfraction : afterFraction rest = rest := by
    cases rest with
    | nil => rfl
    | cons c rest =>
      have hne : c ≠ '.' := fun h => hrest.head_ne (d := '.') (by decide) (congrArg some h)
      simp [afterFraction, hne]
  have hexponent : afterExponent rest = rest := by
    cases rest with
    | nil => rfl
    | cons c rest =>
      have hne : c ≠ 'e' := fun h => hrest.head_ne (d := 'e') (by decide) (congrArg some h)
      have hne' : c ≠ 'E' := fun h => hrest.head_ne (d := 'E') (by decide) (congrArg some h)
      cases rest with
      | nil => rfl
      | cons d rest => simp [afterExponent, hne, hne']
  unfold getNumber
  rw [hdigits, hfraction, hexponent]
  show (if (rest.takeWhile idChar).isEmpty then _ else _ : Option (Token × List Char)) = _
  rw [hrest.takeWhile_eq (by decide)]
  simp

theorem isDigit_toString (n : Nat) : ∀ c ∈ (toString n).toList, c.isDigit = true := by
  intro c hc
  have htext : (toString n).toList = Nat.toDigits 10 n := by
    simp [toString, Nat.repr]
  rw [htext] at hc
  exact Nat.isDigit_of_mem_toDigits (by decide) (by decide) hc

end Tokens

section Lexing

/-- The text that SQLite is given. -/
def cut (cs : List Char) : List Char := cs.takeWhile (fun c => c ≠ '\x00')

theorem cut_append {as : List Char} (h : '\x00' ∉ as) (bs : List Char) :
    cut (as ++ bs) = as ++ cut bs := by
  apply List.takeWhile_append_of_pos
  intro c hc
  exact decide_eq_true (fun heq => h (heq ▸ hc))

theorem not_mem_cut (cs : List Char) : '\x00' ∉ cut cs := by
  intro h
  have hne := List.all_eq_true.mp (List.all_takeWhile (l := cs)) _ h
  simp at hne

theorem head_cut {cs : List Char} {c : Char} (h : (cut cs).head? = some c) :
    cs.head? = some c := by
  cases cs with
  | nil => cases h
  | cons d cs =>
    unfold cut at h
    rw [List.takeWhile_cons] at h
    split at h
    · exact h
    · cases h

/-- What a separator begins with. -/
theorem ends_cut {p : Piece} (hp : p.separates = false) {ps : List Piece}
    (hspaced : Spaced (p :: ps)) : Ends (cut (render ps)) := by
  intro c hc
  have hhead := head_cut hc
  cases ps with
  | nil => cases hhead
  | cons q ps =>
    have hallows : p.Allows q := (List.isChain_cons_cons.mp hspaced.chain).1
    have hq : q.separates := by
      cases p with
      | gap c => cases hp
      | sym c => cases hp
      | _ => exact hallows
    have hok := hspaced.ok q (List.mem_cons_of_mem p List.mem_cons_self)
    cases q with
    | gap d =>
      cases hhead
      have hd : c = ' ' ∨ c = '\n' := by simpa [Piece.Ok] using hok
      rcases hd with rfl | rfl
      · decide
      · decide
    | sym d =>
      cases hhead
      have hd : c = '(' ∨ c = ')' ∨ c = ',' ∨ c = '*' ∨ c = '=' := by
        simpa [Piece.Ok] using hok
      rcases hd with rfl | rfl | rfl | rfl | rfl
      all_goals decide
    | _ => cases hq

/-- A token that is taken off. -/
theorem lexFrom_token {c : Char} {cs rest : List Char} {t : Token} {fuel : Nat}
    (h : getToken c cs = some (some t, rest)) :
    lexFrom (fuel + 1) (c :: cs) = (lexFrom fuel rest).map (fun ts => t :: ts) := by
  rw [lexFrom, h]
  rfl

theorem map_cons_eq_some {t : Token} {r : Option (List Token)} {ts : List Token} :
    r.map (fun ts => t :: ts) = some (t :: ts) ↔ r = some ts := by
  cases r with
  | none => exact iff_of_false nofun nofun
  | some us =>
    rw [Option.map_some, Option.some.injEq, Option.some.injEq]
    exact ⟨fun h => (List.cons.inj h).2, fun h => by rw [h]⟩

/-- A piece with one token, which is read just where the piece is plain. -/
theorem lexFrom_piece {c : Char} {cs rest : List Char} {t : Token} {fuel : Nat} {plain : Prop}
    {P : Prop} {ts : List Token} (hread : plain → getToken c cs = some (some t, rest))
    (hmiss : ¬plain → ∀ rest', getToken c cs ≠ some (some t, rest') ∧
      getToken c cs ≠ some (none, rest'))
    (hrest : lexFrom fuel rest = some ts ↔ P) :
    lexFrom (fuel + 1) (c :: cs) = some (t :: ts) ↔ plain ∧ P := by
  by_cases hplain : plain
  · rw [lexFrom_token (hread hplain), map_cons_eq_some, hrest]
    exact ⟨fun h => ⟨hplain, h⟩, fun h => h.2⟩
  · refine iff_of_false ?_ (fun h => hplain h.1)
    rw [lexFrom]
    intro heq
    cases hget : getToken c cs with
    | none =>
      rw [hget] at heq
      cases heq
    | some r =>
      obtain ⟨t', rest'⟩ := r
      rw [hget] at heq
      obtain ⟨us, -, hus⟩ := Option.map_eq_some_iff.mp heq
      cases t' with
      | none => exact (hmiss hplain rest').2 hget
      | some t' =>
        have ht : t' = t := (List.cons.inj hus).1
        exact (hmiss hplain rest').1 (ht ▸ hget)

/-- A text between quotes. -/
theorem getToken_quote {d : Char} (hd : d = '\'' ∨ d = '"') (cs : List Char) :
    getToken d cs = getQuoted d cs := by
  rcases hd with rfl | rfl
  · rfl
  · rfl

theorem getQuoted_plain {d : Char} {s rest : List Char} (hs : d ∉ s) (hrest : Ends rest)
    (hd : d = '\'' ∨ d = '"') : getQuoted d (s ++ d :: rest) =
      some (some (if d = '\'' then .string s else .name s), rest) := by
  have hhead : rest.head? ≠ some d := by
    rcases hd with rfl | rfl
    · exact hrest.head_ne (by decide)
    · exact hrest.head_ne (by decide)
  rw [getQuoted, closeQuote_plain hs hhead]
  rfl

/-- A text that is not plain is read as another one, if it is read. -/
theorem getQuoted_miss {d : Char} {s rest rest' : List Char} (hd : d = '\'' ∨ d = '"')
    (hrest : Ends (cut rest)) (hs : ¬(d ∉ s ∧ '\x00' ∉ s)) :
    getQuoted d (cut (s ++ d :: rest)) ≠
      some (some (if d = '\'' then .string s else .name s), rest') := by
  intro h
  obtain ⟨⟨w, rest''⟩, hclose, heq⟩ := Option.map_eq_some_iff.mp h
  have hw : w = s := by
    have ht := (Option.some.inj (Prod.mk.inj heq).1)
    by_cases hq : d = '\''
    · rw [if_pos hq, if_pos hq] at ht
      exact Token.string.inj ht
    · rw [if_neg hq, if_neg hq] at ht
      exact Token.name.inj ht
  rw [hw] at hclose
  obtain ⟨hcs, -⟩ := closeQuote_spec hclose
  by_cases hzero : '\x00' ∈ s
  · refine not_mem_cut (s ++ d :: rest) ?_
    rw [hcs]
    exact List.mem_append_left _ (mem_doubled hzero)
  · have hquote : d ∈ s := by
      by_contra hnot
      exact hs ⟨hnot, hzero⟩
    have hdzero : '\x00' ∉ [d] := by
      rcases hd with rfl | rfl
      · decide
      · decide
    have hcut : cut (s ++ d :: rest) = s ++ d :: cut rest := by
      rw [cut_append hzero, ← List.singleton_append, cut_append hdzero, List.singleton_append]
    have hhead : (cut rest).head? ≠ some d := by
      rcases hd with rfl | rfl
      · exact hrest.head_ne (by decide)
      · exact hrest.head_ne (by decide)
    rw [hcut] at hcs
    exact doubled_ne hquote hhead hcs

theorem getQuoted_ne_space {d : Char} {cs rest : List Char} :
    getQuoted d cs ≠ some (none, rest) := by
  intro h
  obtain ⟨r, -, heq⟩ := Option.map_eq_some_iff.mp h
  cases heq

/-- With enough fuel a text has these tokens just where the condition holds. -/
def Reads (cs : List Char) (ts : List Token) (P : Prop) : Prop :=
  ∀ fuel, cs.length < fuel → (lexFrom fuel cs = some ts ↔ P)

theorem reads_nil : Reads [] [] True := by
  intro fuel hfuel
  obtain ⟨fuel, rfl⟩ := Nat.exists_eq_succ_of_ne_zero (Nat.ne_of_gt (Nat.zero_lt_of_lt hfuel))
  exact iff_of_true rfl trivial

theorem reads_gap {c : Char} (hc : c = ' ' ∨ c = '\n') {cs : List Char} {ts : List Token}
    {P : Prop} (h : Reads (cs.dropWhile isSpace) ts P) : Reads (c :: cs) ts P := by
  intro fuel hfuel
  obtain ⟨fuel, rfl⟩ := Nat.exists_eq_succ_of_ne_zero (Nat.ne_of_gt (Nat.zero_lt_of_lt hfuel))
  have hle : (cs.dropWhile isSpace).length ≤ cs.length := (List.dropWhile_suffix _).length_le
  rw [List.length_cons] at hfuel
  rw [← h fuel (by omega), lexFrom, getToken_gap hc]
  show (lexFrom fuel (cs.dropWhile isSpace)).map (fun us => us) = _ ↔ _
  rw [Option.map_id']

theorem reads_piece {c : Char} {cs rest : List Char} {t : Token} {ts : List Token}
    {plain P : Prop} (hread : plain → getToken c cs = some (some t, rest))
    (hmiss : ¬plain → ∀ rest', getToken c cs ≠ some (some t, rest') ∧
      getToken c cs ≠ some (none, rest'))
    (hle : rest.length ≤ cs.length) (hrest : Reads rest ts P) :
    Reads (c :: cs) (t :: ts) (plain ∧ P) := by
  intro fuel hfuel
  obtain ⟨fuel, rfl⟩ := Nat.exists_eq_succ_of_ne_zero (Nat.ne_of_gt (Nat.zero_lt_of_lt hfuel))
  rw [List.length_cons] at hfuel
  exact lexFrom_piece hread hmiss (hrest fuel (by omega))

/-- A piece that is always read. -/
theorem reads_sure {c : Char} {cs rest : List Char} {t : Token} {ts : List Token} {P : Prop}
    (hread : getToken c cs = some (some t, rest)) (hle : rest.length ≤ cs.length)
    (hrest : Reads rest ts P) : Reads (c :: cs) (t :: ts) (True ∧ P) :=
  reads_piece (fun _ => hread) (fun h => absurd trivial h) hle hrest

theorem reads_quoted {d : Char} (hd : d = '\'' ∨ d = '"') {s rest : List Char} {ts : List Token}
    {P : Prop} (hrest : Ends (cut rest)) (h : Reads (cut rest) ts P) :
    Reads (d :: cut (s ++ d :: rest)) ((if d = '\'' then .string s else .name s) :: ts)
      ((d ∉ s ∧ '\x00' ∉ s) ∧ P) := by
  have hdzero : '\x00' ∉ [d] := by
    rcases hd with rfl | rfl
    · decide
    · decide
  by_cases hs : d ∉ s ∧ '\x00' ∉ s
  · have hcut : cut (s ++ d :: rest) = s ++ d :: cut rest := by
      rw [cut_append hs.2, ← List.singleton_append, cut_append hdzero, List.singleton_append]
    rw [hcut]
    refine reads_piece (fun hplain => ?_) (fun hno => absurd hs hno) ?_ h
    · rw [getToken_quote hd, getQuoted_plain hplain.1 hrest hd]
    · rw [List.length_append, List.length_cons]
      omega
  · -- What is read behind the quote does not matter.
    intro fuel hfuel
    obtain ⟨fuel, rfl⟩ := Nat.exists_eq_succ_of_ne_zero (Nat.ne_of_gt (Nat.zero_lt_of_lt hfuel))
    refine iff_of_false ?_ (fun h => hs h.1)
    rw [lexFrom, getToken_quote hd]
    intro heq
    cases hget : getQuoted d (cut (s ++ d :: rest)) with
    | none =>
      rw [hget] at heq
      cases heq
    | some r =>
      obtain ⟨t, rest'⟩ := r
      rw [hget] at heq
      obtain ⟨us, -, hus⟩ := Option.map_eq_some_iff.mp heq
      cases t with
      | none => exact getQuoted_ne_space hget
      | some t =>
        have ht := (List.cons.inj hus).1
        exact getQuoted_miss hd hrest hs (ht ▸ hget)

/-- A word in front of a text. -/
theorem reads_word {w : List Char} (hw : isWord w) {rest : List Char} {ts : List Token} {P : Prop}
    (hrest : Ends rest) (h : Reads rest ts P) :
    Reads (w ++ rest) (.word (lower w) :: ts) (True ∧ P) := by
  cases w with
  | nil => cases hw
  | cons c w =>
    refine reads_sure (getToken_word hw hrest) ?_ h
    show rest.length ≤ (w ++ rest).length
    rw [List.length_append]
    omega

/-- The word NULL is not read as a text. -/
theorem reads_null {s rest : List Char} {ts : List Token} {P : Prop} (hrest : Ends rest)
    (hs : Reads rest ts P) {plain : Prop} (hplain : ¬plain) :
    Reads (['N', 'U', 'L', 'L'] ++ rest) (.string s :: ts) (plain ∧ P) := by
  have hget := getToken_word (by decide : isWord ('N' :: ['U', 'L', 'L'])) hrest
  refine reads_piece (fun h => absurd h hplain) ?_ ?_ hs
  · intro _ rest'
    show getToken 'N' (['U', 'L', 'L'] ++ rest) ≠ _ ∧ getToken 'N' (['U', 'L', 'L'] ++ rest) ≠ _
    rw [hget]
    exact ⟨nofun, nofun⟩
  · show rest.length ≤ (['U', 'L', 'L'] ++ rest).length
    rw [List.length_append]
    omega

/-- A piece has a first character, which is a space only in a gap. -/
theorem render_head {p : Piece} (hok : p.Ok) : ∃ c cs, p.render = c :: cs ∧
    (c = '=' → p = sym '=') ∧ (isSpace c = true → ∃ d, p = gap d) := by
  cases p with
  | gap c =>
    refine ⟨c, [], rfl, ?_, fun _ => ⟨c, rfl⟩⟩
    rintro rfl
    exact absurd hok (by decide)
  | word w =>
    have hw : isWord w.toList := hok
    cases hlist : w.toList with
    | nil =>
      rw [hlist] at hw
      cases hw
    | cons c cs =>
      rw [hlist, isWord, Bool.and_eq_true, List.all_eq_true] at hw
      have hc := hw.1 c List.mem_cons_self
      refine ⟨c, cs, hlist, ?_, ?_⟩
      · rintro rfl
        exact absurd hc (by decide)
      · intro hspace
        simp only [isSpace, decide_eq_true_eq, List.mem_cons, List.not_mem_nil, or_false] at hspace
        rcases hspace with rfl | rfl | rfl | rfl | rfl | rfl
        all_goals exact absurd hc (by decide)
  | sym c =>
    refine ⟨c, [], rfl, fun h => by rw [h], ?_⟩
    have hc : c = '(' ∨ c = ')' ∨ c = ',' ∨ c = '*' ∨ c = '=' := by simpa [Piece.Ok] using hok
    intro hspace
    rcases hc with rfl | rfl | rfl | rfl | rfl
    all_goals exact absurd hspace (by decide)
  | param => exact ⟨'?', [], rfl, by decide, fun h => absurd h (by decide)⟩
  | number n =>
    have hdigits := isDigit_toString n
    cases hlist : (toString n).toList with
    | nil =>
      have hnil : Nat.toDigits 10 n = [] := by simpa [toString, Nat.repr] using hlist
      exact absurd hnil Nat.toDigits_ne_nil
    | cons c cs =>
      rw [hlist] at hdigits
      have hc := hdigits c List.mem_cons_self
      refine ⟨c, cs, hlist, ?_, ?_⟩
      · rintro rfl
        exact absurd hc (by decide)
      · intro hspace
        simp only [isSpace, decide_eq_true_eq, List.mem_cons, List.not_mem_nil, or_false] at hspace
        rcases hspace with rfl | rfl | rfl | rfl | rfl | rfl
        all_goals exact absurd hc (by decide)
  | quoted d s =>
    have hd : d = '\'' ∨ d = '"' := by simpa [Piece.Ok] using hok
    refine ⟨d, s.toList ++ [d], rfl, ?_, ?_⟩
    · rintro rfl
      exact absurd hd (by decide)
    · intro hspace
      rcases hd with rfl | rfl
      all_goals exact absurd hspace (by decide)
  | value v =>
    cases v with
    | none => exact ⟨'N', ['U', 'L', 'L'], rfl, by decide, fun h => absurd h (by decide)⟩
    | some s =>
      by_cases hs : s = "NULL"
      · exact ⟨'N', ['U', 'L', 'L'], if_pos hs, fun h => absurd h (by decide),
          fun h => absurd h (by decide)⟩
      · exact ⟨'\'', s.toList ++ ['\''], if_neg hs, fun h => absurd h (by decide),
          fun h => absurd h (by decide)⟩

variable {p : Piece} {ps : List Piece}

theorem head_render (hok : p.Ok) {c : Char} (h : (cut (render (p :: ps))).head? = some c) :
    (c = '=' → p = sym '=') ∧ (isSpace c = true → ∃ d, p = gap d) := by
  obtain ⟨c', cs, hrender, hfirst⟩ := render_head hok
  have hhead := head_cut h
  rw [render_cons, hrender, List.cons_append, List.head?_cons, Option.some.injEq] at hhead
  rw [← hhead]
  exact hfirst

/-- Only a gap is skipped. -/
theorem skip_eq (hok : p.Ok) (hp : ∀ d, p ≠ gap d) :
    (cut (render (p :: ps))).dropWhile isSpace = cut (render (p :: ps)) := by
  cases hcut : cut (render (p :: ps)) with
  | nil => rfl
  | cons c cs =>
    have hspace : isSpace c = false := by
      rw [← Bool.not_eq_true]
      intro hc
      obtain ⟨d, hd⟩ := (head_render hok (by rw [hcut]; rfl)).2 hc
      exact hp d hd
    rw [List.dropWhile_cons, hspace, if_neg (by decide)]

/-- One piece that is no gap is read, or it is not plain. -/
theorem reads_cons (h : Spaced (p :: ps)) (hp : ∀ d, p ≠ gap d) {P : Prop}
    (hread : Reads (cut (render ps)) (tokensOf ps) P) :
    Reads (cut (render (p :: ps))) (tokensOf (p :: ps)) (p.Plain ∧ P) := by
  have hok := h.ok p List.mem_cons_self
  cases p with
  | gap c => exact absurd rfl (hp c)
  | word w =>
    have hw : isWord w.toList := hok
    have hzero : '\x00' ∉ w.toList := by
      intro hz
      rw [isWord, Bool.and_eq_true, List.all_eq_true] at hw
      exact absurd (hw.1 _ hz) (by decide)
    show Reads (cut (w.toList ++ render ps)) (.word (lower w.toList) :: tokensOf ps) (True ∧ P)
    rw [cut_append hzero]
    exact reads_word hw (ends_cut rfl h) hread
  | sym c =>
    have hc : c ∈ ['(', ')', ',', '*', '='] := by simpa [Piece.Ok] using hok
    have hne : c = '=' → (cut (render ps)).head? ≠ some '=' := by
      rintro rfl hhead
      cases ps with
      | nil => cases head_cut hhead
      | cons q ps =>
        have hallows : (sym '=').Allows q := (List.isChain_cons_cons.mp h.chain).1
        have hq : q ≠ sym '=' := by simpa [Piece.Allows] using hallows
        have hqok := h.ok q (List.mem_cons_of_mem _ List.mem_cons_self)
        exact hq ((head_render hqok hhead).1 rfl)
    have hzero : '\x00' ∉ [c] := by
      simp only [List.mem_cons, List.not_mem_nil, or_false] at hc
      rcases hc with rfl | rfl | rfl | rfl | rfl
      all_goals decide
    show Reads (cut ([c] ++ render ps)) (.op [c] :: tokensOf ps) (True ∧ P)
    rw [cut_append hzero, List.singleton_append]
    exact reads_sure (getToken_sym hc hne) (Nat.le_refl _) hread
  | param =>
    show Reads (cut (['?'] ++ render ps)) (.variable ['?'] :: tokensOf ps) (True ∧ P)
    rw [cut_append (by decide), List.singleton_append]
    exact reads_sure (getToken_param (ends_cut rfl h)) (Nat.le_refl _) hread
  | number n =>
    have hdigits := isDigit_toString n
    have hzero : '\x00' ∉ (toString n).toList := fun hz => absurd (hdigits _ hz) (by decide)
    show Reads (cut ((toString n).toList ++ render ps))
      (.number (toString n).toList :: tokensOf ps) (True ∧ P)
    rw [cut_append hzero]
    obtain ⟨c, cs, hrender, -⟩ := render_head hok
    have hlist : (toString n).toList = c :: cs := hrender
    rw [hlist] at hdigits ⊢
    have hget : getToken c (cs ++ cut (render ps)) =
        some (some (.number (c :: cs)), cut (render ps)) := by
      rw [getToken_digit (hdigits c List.mem_cons_self), ← List.cons_append,
        getNumber_spec hdigits (ends_cut rfl h)]
      rfl
    refine reads_sure hget ?_ hread
    show (cut (render ps)).length ≤ (cs ++ cut (render ps)).length
    rw [List.length_append]
    omega
  | quoted d s =>
    have hd : d = '\'' ∨ d = '"' := by simpa [Piece.Ok] using hok
    have hzero : '\x00' ∉ [d] := by
      rcases hd with rfl | rfl
      · decide
      · decide
    have hrender : render (quoted d s :: ps) = [d] ++ (s.toList ++ d :: render ps) := by
      simp [Piece.render]
    rw [hrender, cut_append hzero, List.singleton_append]
    exact reads_quoted hd (ends_cut rfl h) hread
  | value v =>
    cases v with
    | none =>
      have hplain : Piece.Plain (value none) ↔ True := iff_true_intro (fun s hs => by cases hs)
      show Reads (cut (['N', 'U', 'L', 'L'] ++ render ps))
        (.word ['n', 'u', 'l', 'l'] :: tokensOf ps) (Piece.Plain (value none) ∧ P)
      rw [cut_append (by decide), hplain]
      exact reads_word (w := ['N', 'U', 'L', 'L']) (by decide) (ends_cut rfl h) hread
    | some s =>
      have hplain : Piece.Plain (value (some s)) ↔ s ≠ "NULL" ∧ PlainIn '\'' s := by
        constructor
        · exact fun h => h s rfl
        · rintro h t ht
          cases ht
          exact h
      show Reads (cut ((if s = "NULL" then ['N', 'U', 'L', 'L'] else
        '\'' :: (s.toList ++ ['\''])) ++ render ps)) (.string s.toList :: tokensOf ps)
        (Piece.Plain (value (some s)) ∧ P)
      rw [hplain]
      by_cases hs : s = "NULL"
      · rw [if_pos hs, cut_append (by decide)]
        exact reads_null (ends_cut rfl h) hread (fun h => h.1 hs)
      · have hrender : '\'' :: (s.toList ++ ['\'']) ++ render ps =
            ['\''] ++ (s.toList ++ '\'' :: render ps) := by simp
        rw [if_neg hs, hrender, cut_append (by decide), List.singleton_append, and_assoc]
        have hr := reads_quoted (.inl rfl) (ends_cut rfl h) hread (s := s.toList)
        intro fuel hfuel
        exact (hr fuel hfuel).trans ⟨fun h => ⟨hs, h⟩, fun h => h.2⟩

/-- The statement about all pieces, also with the gaps in front of them skipped. -/
theorem reads_render (h : Spaced ps) :
    Reads (cut (render ps)) (tokensOf ps) (∀ p ∈ ps, p.Plain) ∧
      Reads ((cut (render ps)).dropWhile isSpace) (tokensOf ps) (∀ p ∈ ps, p.Plain) := by
  induction ps with
  | nil =>
    have hiff : (∀ p ∈ ([] : List Piece), p.Plain) = True := by simp
    rw [hiff]
    exact ⟨reads_nil, reads_nil⟩
  | cons p ps ih =>
    have hps : Spaced ps := ⟨fun q hq => h.ok q (List.mem_cons_of_mem p hq), h.chain.tail⟩
    obtain ⟨hread, hskip⟩ := ih hps
    have hok := h.ok p List.mem_cons_self
    have hiff : (∀ q ∈ p :: ps, q.Plain) = (p.Plain ∧ ∀ q ∈ ps, q.Plain) := by
      simp only [List.mem_cons, forall_eq_or_imp]
    rw [hiff]
    by_cases hgap : ∃ c, p = gap c
    · obtain ⟨c, rfl⟩ := hgap
      have hc : c = ' ' ∨ c = '\n' := by simpa [Piece.Ok] using hok
      have hzero : '\x00' ∉ [c] := by
        rcases hc with rfl | rfl
        · decide
        · decide
      have hspace : isSpace c = true := by
        rcases hc with rfl | rfl
        · rfl
        · rfl
      show Reads (cut ([c] ++ render ps)) (tokensOf ps) (True ∧ _) ∧
        Reads ((cut ([c] ++ render ps)).dropWhile isSpace) (tokensOf ps) (True ∧ _)
      rw [cut_append hzero, List.singleton_append, List.dropWhile_cons, hspace, if_pos rfl,
        true_and]
      exact ⟨reads_gap hc hskip, hskip⟩
    · have hp : ∀ d, p ≠ gap d := fun d hd => hgap ⟨d, hd⟩
      have hr := reads_cons h hp hread
      rw [skip_eq hok hp]
      exact ⟨hr, hr⟩

/-- The tokens of the text are those of the pieces just where every piece is plain. -/
theorem lexText_render_iff (h : Spaced ps) {sql : String} (hsql : sql.toList = render ps) :
    lexText sql = some (tokensOf ps) ↔ ∀ p ∈ ps, p.Plain := by
  rw [lexText, hsql]
  exact (reads_render h).1 _ (Nat.lt_succ_self _)

end Lexing

end Rhodes.SqlPieces
