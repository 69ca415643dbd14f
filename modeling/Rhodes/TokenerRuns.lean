import Mathlib
import Rhodes.JsonTokener

/-!
The parser over texts that come in pieces. Between two characters the parser is ready: the object
that the last level left is already put into its level, so what a call keeps in its own variables
does not matter to the next call. Every jump back to redo_char comes nearer to the next character.
`F` is what sscanf reads with "%lf".
-/
namespace Rhodes.JsonTokener
open Json

/-- The states that put a finished value into its array or object. -/
def adds : JsonTokenerState → Bool
  | .arrayAdd | .objectValueAdd => true
  | _ => false

/-- The states that a level may go on with after white space or an escape. -/
def resting : JsonTokenerState → Bool
  | .start | .finish | .string | .array | .arraySep | .objectFieldStart | .objectField
  | .objectFieldEnd | .objectValue | .objectSep => true
  | _ => false

theorem adds_of_resting {s : JsonTokenerState} (h : resting s = true) : adds s = false := by
  cases s <;> first | rfl | cases h

/-- Levels that wait for the value of the level above. -/
def Waiting (below : List Srec) : Prop :=
  ∀ level ∈ below, adds level.state = true ∧ resting level.savedState = true

/-- The parser at any point of a call. -/
def Live (tok : Tokener) : Prop := resting tok.top.savedState = true ∧ Waiting tok.below

/-- How many jumps back there can be from a state, at most. -/
def stateRank : JsonTokenerState → ℕ
  | .finish => 4
  | .arrayAdd | .objectValueAdd | .array | .objectValue => 3
  | .start => 1
  | _ => 0

def rank (tok : Tokener) : ℕ :=
  match tok.top.state with
  | .eatws => 1 + stateRank tok.top.savedState
  | .null | .boolean => if tok.stPos = 0 then 0 else 6
  | .number => if tok.pb = [] ∧ tok.isDouble = false then 0 else 6
  | s => stateRank s

theorem stateRank_le (s : JsonTokenerState) : stateRank s ≤ 4 := by
  cases s <;> decide

theorem rank_le (tok : Tokener) : rank tok ≤ 6 := by
  have hstate := stateRank_le tok.top.state
  have hsaved := stateRank_le tok.top.savedState
  unfold rank
  split
  · omega
  · split <;> omega
  · split <;> omega
  · split <;> omega
  · omega

theorem rank_of_eatws {tok : Tokener} (h : tok.top.state = .eatws) :
    rank tok = 1 + stateRank tok.top.savedState := by
  unfold rank
  rw [h]

theorem rank_of_resting {tok : Tokener} (h : resting tok.top.state = true) :
    rank tok = stateRank tok.top.state := by
  unfold rank
  split <;> rename_i hs <;> first | rfl | (rw [hs] at h; cases h)

theorem rank_of_adds {tok : Tokener} (h : adds tok.top.state = true) : rank tok = 3 := by
  unfold rank
  split <;> rename_i hs
  · rw [hs] at h
    cases h
  · rw [hs] at h
    cases h
  · rw [hs] at h
    cases h
  · rw [hs] at h
    cases h
  · revert h
    cases tok.top.state <;> intro h <;> first | rfl | cases h

/-- What a turn keeps. -/
def Turn.Keeps (tok : Tokener) : Turn → Prop
  | .next t _ => Live t ∧ adds t.top.state = false
  | .redo t _ => Live t ∧ rank t < rank tok
  | .out _ err => err ≠ .continue

variable {F : Text → Option (String × Int)} {tok : Tokener} {x y : JsonObject} {c : Char}

theorem enter_keeps (h : Live tok) (hrank : rank tok = 3) {s : JsonTokenerState}
    (hs : adds s = true) : (enter tok x s).Keeps tok := by
  unfold enter
  split
  · simp [Turn.Keeps]
  · refine ⟨⟨by simp [resting], fun level hlevel => ?_⟩, by rw [hrank]; simp [rank, stateRank]⟩
    rw [Tokener.push_below, List.mem_cons] at hlevel
    rcases hlevel with rfl | hlevel
    · exact ⟨hs, h.1⟩
    · exact h.2 level hlevel

theorem switch_keeps (h : Live tok) : (switch F tok x c).Keeps tok := by
  obtain ⟨htop, hbelow⟩ := h
  unfold switch
  cases hs : tok.top.state with
  | eatws =>
    dsimp only
    split_ifs
    · simp [Turn.Keeps, Live, adds, htop, hbelow, hs]
    · simp [Turn.Keeps, Live, adds, htop, hbelow]
    · refine ⟨⟨htop, hbelow⟩, ?_⟩
      rw [rank_of_eatws hs, rank_of_resting
        (show resting (tok.setState tok.top.savedState).top.state = true from htop)]
      exact Nat.lt_add_of_pos_left Nat.one_pos
  | start =>
    dsimp only
    split_ifs
    · simp [Turn.Keeps, Live, adds, resting, hbelow]
    · simp [Turn.Keeps, Live, adds, resting, hbelow]
    · simp [Turn.Keeps, Live, rank, stateRank, hs, htop, hbelow]
    · simp [Turn.Keeps, Live, adds, htop, hbelow]
    · simp [Turn.Keeps, Live, rank, stateRank, hs, htop, hbelow]
    · simp [Turn.Keeps, Live, rank, stateRank, hs, htop, hbelow]
    · simp [Turn.Keeps]
  | finish =>
    dsimp only
    split
    · simp [Turn.Keeps]
    · rename_i level below hlevels
      rw [hlevels] at hbelow
      obtain ⟨hadds, hresting⟩ := hbelow level List.mem_cons_self
      have hrest : Waiting below := fun l hl => hbelow l (List.mem_cons_of_mem _ hl)
      refine ⟨⟨hresting, hrest⟩, ?_⟩
      rw [rank_of_adds hadds, rank_of_resting (by rw [hs]; rfl), hs]
      decide
  | null =>
    dsimp only
    split_ifs with _ hend
    · simp [Turn.Keeps, Live, resting, rank, stateRank, hs, hbelow, show tok.stPos = 4 from hend]
    · simp [Turn.Keeps, Live, adds, hs, htop, hbelow]
    · simp [Turn.Keeps]
  | commentStart =>
    dsimp only
    split_ifs
    · simp [Turn.Keeps, Live, adds, htop, hbelow]
    · simp [Turn.Keeps, Live, adds, htop, hbelow]
    · simp [Turn.Keeps]
  | comment =>
    dsimp only
    split_ifs <;> simp [Turn.Keeps, Live, adds, hs, htop, hbelow]
  | commentEol =>
    dsimp only
    split_ifs <;> simp [Turn.Keeps, Live, adds, hs, htop, hbelow]
  | commentEnd =>
    dsimp only
    split_ifs <;> simp [Turn.Keeps, Live, adds, htop, hbelow]
  | string =>
    dsimp only
    split_ifs
    · simp [Turn.Keeps, Live, adds, resting, hbelow]
    · simp [Turn.Keeps, Live, adds, resting, hbelow]
    · simp [Turn.Keeps, Live, adds, hs, htop, hbelow]
  | stringEscape =>
    dsimp only
    split_ifs
    · simp [Turn.Keeps, Live, htop, hbelow, adds_of_resting htop]
    · simp [Turn.Keeps, Live, htop, hbelow, adds_of_resting htop]
    · simp [Turn.Keeps, Live, htop, hbelow, adds_of_resting htop]
    · simp [Turn.Keeps, Live, htop, hbelow, adds_of_resting htop]
    · simp [Turn.Keeps, Live, htop, hbelow, adds_of_resting htop]
    · simp [Turn.Keeps, Live, adds, htop, hbelow]
    · simp [Turn.Keeps]
  | escapeUnicode =>
    dsimp only
    split_ifs
    · simp [Turn.Keeps, Live, htop, hbelow, adds_of_resting htop]
    · simp [Turn.Keeps, Live, adds, hs, htop, hbelow]
    · simp [Turn.Keeps]
  | boolean =>
    dsimp only
    split_ifs with _ htrue _ hfalse
    · simp [Turn.Keeps, Live, resting, rank, stateRank, hs, hbelow, show tok.stPos = 4 from htrue]
    · simp [Turn.Keeps, Live, adds, hs, htop, hbelow]
    · simp [Turn.Keeps, Live, resting, rank, stateRank, hs, hbelow, show tok.stPos = 5 from hfalse]
    · simp [Turn.Keeps, Live, adds, hs, htop, hbelow]
    · simp [Turn.Keeps]
  | number =>
    dsimp only
    split_ifs
    · simp [Turn.Keeps, Live, adds, hs, htop, hbelow]
    · split
      · rename_i n hscan
        have hfresh : ¬(tok.pb = [] ∧ tok.isDouble = false) := by
          rintro ⟨hpb, hint⟩
          rw [hpb, hint] at hscan
          cases hscan
        simp [Turn.Keeps, Live, resting, rank, stateRank, hs, hbelow, hfresh]
      · simp [Turn.Keeps]
  | array =>
    dsimp only
    split_ifs
    · simp [Turn.Keeps, Live, adds, resting, hbelow]
    · exact enter_keeps ⟨htop, hbelow⟩ (by rw [rank, hs]; rfl) rfl
  | arrayAdd =>
    dsimp only
    split <;> simp [Turn.Keeps, Live, resting, rank, stateRank, hs, hbelow]
  | arraySep =>
    dsimp only
    split_ifs <;> simp [Turn.Keeps, Live, adds, resting, hbelow]
  | objectFieldStart =>
    dsimp only
    split_ifs
    · simp [Turn.Keeps, Live, adds, resting, hbelow]
    · simp [Turn.Keeps, Live, adds, htop, hbelow]
    · simp [Turn.Keeps, Live, adds, htop, hbelow]
  | objectField =>
    dsimp only
    split_ifs
    · simp [Turn.Keeps, Live, adds, resting, hbelow]
    · simp [Turn.Keeps, Live, adds, resting, hbelow]
    · simp [Turn.Keeps, Live, adds, resting, hbelow]
    · simp [Turn.Keeps, Live, adds, hs, htop, hbelow]
  | objectFieldEnd =>
    dsimp only
    split_ifs <;> simp [Turn.Keeps, Live, adds, resting, hbelow]
  | objectValue => exact enter_keeps ⟨htop, hbelow⟩ (by rw [rank, hs]; rfl) rfl
  | objectValueAdd =>
    dsimp only
    split <;> simp [Turn.Keeps, Live, resting, rank, stateRank, hs, hbelow]
  | objectSep =>
    dsimp only
    split_ifs <;> simp [Turn.Keeps, Live, adds, resting, hbelow]

/-- The parser between two characters. -/
def Ready (tok : Tokener) : Prop := Live tok ∧ adds tok.top.state = false

theorem ready_new : Ready {} := ⟨⟨rfl, fun _ h => absurd h List.not_mem_nil⟩, rfl⟩

/-- A character is done with after few jumps. -/
theorem scanChar_ends {fuel : ℕ} (h : Live tok) (hfuel : rank tok < fuel) :
    (∃ t o, scanChar F fuel tok x c = some (.next t o) ∧ Ready t) ∨
      ∃ t err, scanChar F fuel tok x c = some (.out t err) ∧ err ≠ .continue := by
  induction fuel generalizing tok x with
  | zero => omega
  | succ fuel ih =>
    have hkeeps := switch_keeps (F := F) (x := x) (c := c) h
    unfold scanChar
    cases hturn : switch F tok x c with
    | next t o =>
      rw [hturn] at hkeeps
      exact Or.inl ⟨t, o, rfl, hkeeps⟩
    | redo t o =>
      rw [hturn] at hkeeps
      exact ih hkeeps.1 (by have := hkeeps.2; omega)
    | out t err =>
      rw [hturn] at hkeeps
      exact Or.inr ⟨t, err, rfl, hkeeps⟩

theorem scanChar_fuel {fuel fuel' : ℕ} (h : Live tok) (hfuel : rank tok < fuel)
    (hfuel' : rank tok < fuel') :
    scanChar F fuel tok x c = scanChar F fuel' tok x c := by
  induction fuel generalizing tok x fuel' with
  | zero => omega
  | succ fuel ih =>
    obtain ⟨fuel', rfl⟩ : ∃ f, fuel' = f + 1 := ⟨fuel' - 1, by omega⟩
    have hkeeps := switch_keeps (F := F) (x := x) (c := c) h
    unfold scanChar
    generalize switch F tok x c = turn at hkeeps
    cases turn with
    | next t o => rfl
    | redo t o =>
      have hless := hkeeps.2
      exact ih hkeeps.1 (by omega) (by omega)
    | out t err => rfl

theorem rank_lt_redoBound (tok : Tokener) : rank tok < redoBound :=
  lt_of_le_of_lt (rank_le tok) (by decide)

section Turns

variable {t : Tokener} {o : JsonObject} {err : JsonTokenerError}

theorem parseLoop_redo (h : Live tok) (hturn : switch F tok x c = .redo t o) (cs : Text) :
    parseLoop F tok x (c :: cs) = parseLoop F t o (c :: cs) := by
  have hkeeps := switch_keeps (F := F) (x := x) (c := c) h
  rw [hturn] at hkeeps
  have hscan : scanChar F redoBound tok x c = scanChar F redoBound t o c := by
    rw [scanChar_fuel hkeeps.1 (rank_lt_redoBound t) (show rank t < 8 by
      have := rank_le t
      omega)]
    show scanChar F (8 + 1) tok x c = _
    rw [scanChar, hturn]
  rw [parseLoop, parseLoop, hscan]

theorem parseLoop_next (hturn : switch F tok x c = .next t o) (hc : c ≠ '\x00') (cs : Text) :
    parseLoop F tok x (c :: cs) = parseLoop F t o cs := by
  have hscan : scanChar F (8 + 1) tok x c = some (.next t o) := by rw [scanChar, hturn]
  rw [parseLoop, show redoBound = 8 + 1 from rfl, hscan]
  exact if_neg hc

theorem parseLoop_out (hturn : switch F tok x c = .out t err) (cs : Text) :
    parseLoop F tok x (c :: cs) = some (err, t) := by
  have hscan : scanChar F (8 + 1) tok x c = some (.out t err) := by rw [scanChar, hturn]
  rw [parseLoop, show redoBound = 8 + 1 from rfl, hscan]

end Turns

/-- Turns that differ in the object passed on at most. -/
inductive Turn.Same : Turn → Turn → Prop
  | next (t : Tokener) (o o' : JsonObject) : Same (.next t o) (.next t o')
  | redo (t : Tokener) (o o' : JsonObject) (h : o = o' ∨ adds t.top.state = false) :
      Same (.redo t o) (.redo t o')
  | out (t : Tokener) (err : JsonTokenerError) : Same (.out t err) (.out t err)

/-- The object of the level above matters to the states that add it only. -/
theorem switch_same (h : Live tok) (hobj : x = y ∨ adds tok.top.state = false) :
    (switch F tok x c).Same (switch F tok y c) := by
  obtain rfl | hadds := hobj
  · cases switch F tok x c with
    | next t o => exact .next t o o
    | redo t o => exact .redo t o o (Or.inl rfl)
    | out t err => exact .out t err
  · obtain ⟨htop, -⟩ := h
    unfold switch
    cases hs : tok.top.state with
    | eatws =>
      dsimp only
      split_ifs
      · exact .next _ _ _
      · exact .next _ _ _
      · exact .redo _ _ _ (Or.inr (adds_of_resting htop))
    | start =>
      dsimp only
      split_ifs
      · exact .next _ _ _
      · exact .next _ _ _
      · exact .redo _ _ _ (Or.inr rfl)
      · exact .next _ _ _
      · exact .redo _ _ _ (Or.inr rfl)
      · exact .redo _ _ _ (Or.inr rfl)
      · exact .out _ _
    | finish =>
      dsimp only
      split
      · exact .out _ _
      · exact .redo _ _ _ (Or.inl rfl)
    | null =>
      dsimp only
      split_ifs
      · exact .redo _ _ _ (Or.inr rfl)
      · exact .next _ _ _
      · exact .out _ _
    | boolean =>
      dsimp only
      split_ifs
      · exact .redo _ _ _ (Or.inr rfl)
      · exact .next _ _ _
      · exact .redo _ _ _ (Or.inr rfl)
      · exact .next _ _ _
      · exact .out _ _
    | number =>
      dsimp only
      split_ifs
      · exact .next _ _ _
      · split
        · exact .redo _ _ _ (Or.inr rfl)
        · exact .out _ _
    | array =>
      dsimp only
      split_ifs
      · exact .next _ _ _
      · unfold enter
        split_ifs
        · exact .out _ _
        · exact .redo _ _ _ (Or.inr rfl)
    | objectValue =>
      dsimp only
      unfold enter
      split_ifs
      · exact .out _ _
      · exact .redo _ _ _ (Or.inr rfl)
    | arrayAdd =>
      rw [hs] at hadds
      cases hadds
    | objectValueAdd =>
      rw [hs] at hadds
      cases hadds
    | commentStart | comment | commentEol | commentEnd | string | stringEscape | escapeUnicode
    | arraySep | objectFieldStart | objectField | objectFieldEnd | objectSep =>
      -- no jump back
      dsimp only
      split_ifs <;> constructor

/-- What a call keeps of the level above does not matter between two characters. -/
theorem scanChar_same {k : ℕ} (h : Live tok) (hobj : x = y ∨ adds tok.top.state = false) :
    (scanChar F k tok x c = none ∧ scanChar F k tok y c = none) ∨
      ∃ turn turn', scanChar F k tok x c = some turn ∧
        scanChar F k tok y c = some turn' ∧ turn.Same turn' := by
  induction k generalizing tok x y with
  | zero => exact Or.inl ⟨rfl, rfl⟩
  | succ k ih =>
    have hsame := switch_same (F := F) (c := c) h hobj
    have hkeeps := switch_keeps (F := F) (x := x) (c := c) h
    unfold scanChar
    generalize switch F tok x c = turn at hsame hkeeps ⊢
    generalize switch F tok y c = turn' at hsame ⊢
    cases hsame with
    | next t o o' => exact Or.inr ⟨_, _, rfl, rfl, .next t o o'⟩
    | redo t o o' hpassed => exact ih hkeeps.1 hpassed
    | out t err => exact Or.inr ⟨_, _, rfl, rfl, .out t err⟩

theorem parseLoop_obj (h : Ready tok) (cs : Text) :
    parseLoop F tok x cs = parseLoop F tok y cs := by
  induction cs generalizing tok x y with
  | nil => rfl
  | cons c cs ih =>
    rw [parseLoop, parseLoop]
    rcases scanChar_same (F := F) (c := c) (k := redoBound) (x := x) (y := y)
      h.1 (Or.inr h.2) with ⟨h1, h2⟩ | ⟨turn, turn', h1, h2, hsame⟩
    · rw [h1, h2]
    · rw [h1, h2]
      cases hsame with
      | next t o o' =>
        dsimp only
        split
        · rfl
        · have hready : Ready t := by
            rcases scanChar_ends (F := F) (c := c) (x := x) h.1
              (rank_lt_redoBound tok) with
              ⟨t', o'', hscan, hready⟩ | ⟨t', err, hscan, -⟩
            · rw [h1] at hscan
              cases hscan
              exact hready
            · rw [h1] at hscan
              cases hscan
          exact ih hready
      | redo t o o' => rfl
      | out t err => rfl

/-- The characters of a call, one by one: the next one finds the parser ready. -/
theorem parseLoop_cons (h : Ready tok) (c : Char) :
    (∃ t, Ready t ∧ ∀ x cs, parseLoop F tok x (c :: cs) =
      if c = '\x00' then some (eofError t, t) else parseLoop F t .null cs) ∨
    ∃ t err, err ≠ .continue ∧ ∀ x cs, parseLoop F tok x (c :: cs) = some (err, t) := by
  rcases scanChar_ends (F := F) (c := c) (x := .null) h.1
    (rank_lt_redoBound tok) with
    ⟨t, o, hscan, hready⟩ | ⟨t, err, hscan, herr⟩
  · refine Or.inl ⟨t, hready, fun x cs => ?_⟩
    rw [parseLoop_obj h (y := .null), parseLoop, hscan]
    dsimp only
    split
    · rfl
    · exact parseLoop_obj hready cs
  · refine Or.inr ⟨t, err, herr, fun x cs => ?_⟩
    rw [parseLoop_obj h (y := .null), parseLoop, hscan]

theorem eofError_ne (tok : Tokener) : eofError tok ≠ .continue := by
  unfold eofError
  split <;> decide

/-- A text of which the parser wants more. -/
theorem parseLoop_append (h : Ready tok) {cs : Text} {t : Tokener}
    (hmore : parseLoop F tok x cs = some (.continue, t)) (rest : Text) :
    Ready t ∧ parseLoop F tok x (cs ++ rest) = parseLoop F t .null rest := by
  induction cs generalizing tok x with
  | nil =>
    rw [parseLoop] at hmore
    obtain ⟨-, rfl⟩ := Prod.mk.inj (Option.some.inj hmore)
    exact ⟨h, parseLoop_obj h rest⟩
  | cons c cs ih =>
    rw [List.cons_append]
    rcases parseLoop_cons (F := F) h c with ⟨u, hu, hnext⟩ | ⟨u, err, herr, hout⟩
    · rw [hnext] at hmore ⊢
      split at hmore
      · exact absurd (Prod.mk.inj (Option.some.inj hmore)).1 (eofError_ne u)
      · rename_i hc
        rw [if_neg hc]
        exact ih hu hmore
    · rw [hout] at hmore
      exact absurd (Prod.mk.inj (Option.some.inj hmore)).1 herr

/-- A call always returns. -/
theorem parseLoop_isSome (h : Ready tok) (cs : Text) : (parseLoop F tok x cs).isSome := by
  induction cs generalizing tok x with
  | nil => rfl
  | cons c cs ih =>
    rcases parseLoop_cons (F := F) h c with ⟨t, ht, hnext⟩ | ⟨t, err, -, hout⟩
    · rw [hnext]
      split
      · rfl
      · exact ih ht
    · rw [hout]
      rfl

/-- The pieces of a text given to the parser until it does not want more. -/
def parsePieces (F : Text → Option (String × Int)) :
    Tokener → Text → List Text → Option ((JsonTokenerError × Tokener) × List Text)
  | tok, piece, [] => (jsonTokenerParseEx F tok piece).map (fun r => (r, []))
  | tok, piece, next :: rest => (jsonTokenerParseEx F tok piece).bind (fun r =>
      if r.1 = .continue then parsePieces F r.2 next rest else some (r, next :: rest))

/-- Wherever a text is cut, the parser returns of its pieces what one call returns of the text as
far as the pieces were read. -/
theorem parsePieces_eq (F : Text → Option (String × Int)) (piece : Text)
    (pieces : List Text) : ∃ r read rest, parsePieces F {} piece pieces = some (r, rest) ∧
      pieces = read ++ rest ∧ (r.1 = .continue → rest = []) ∧
      jsonTokenerParseEx F {} (piece ++ read.flatten) = some r := by
  suffices hsuff : ∀ (tok : Tokener), Ready tok → ∃ r read rest,
      parsePieces F tok piece pieces = some (r, rest) ∧ pieces = read ++ rest ∧
      (r.1 = .continue → rest = []) ∧
      jsonTokenerParseEx F tok (piece ++ read.flatten) = some r from hsuff {} ready_new
  induction pieces generalizing piece with
  | nil =>
    intro tok htok
    obtain ⟨r, hr⟩ := Option.isSome_iff_exists.mp
      (parseLoop_isSome (F := F) (x := .null) htok piece)
    refine ⟨r, [], [], ?_, rfl, fun _ => rfl, ?_⟩
    · rw [parsePieces, jsonTokenerParseEx, hr]
      rfl
    · rw [List.flatten_nil, List.append_nil]
      exact hr
  | cons next rest ih =>
    intro tok htok
    obtain ⟨⟨err, t⟩, hr⟩ := Option.isSome_iff_exists.mp
      (parseLoop_isSome (F := F) (x := .null) htok piece)
    by_cases herr : err = .continue
    · subst herr
      have ht := (parseLoop_append htok hr []).1
      obtain ⟨r, read, behind, hpieces, rfl, hend, hone⟩ := ih next t ht
      refine ⟨r, next :: read, behind, ?_, rfl, hend, ?_⟩
      · rw [parsePieces, jsonTokenerParseEx, hr, Option.bind_some, if_pos rfl]
        exact hpieces
      · rw [List.flatten_cons, jsonTokenerParseEx, (parseLoop_append htok hr _).2]
        exact hone
    · refine ⟨(err, t), [], next :: rest, ?_, rfl, fun h => absurd h herr, ?_⟩
      · rw [parsePieces, jsonTokenerParseEx, hr, Option.bind_some, if_neg herr]
      · rw [List.flatten_nil, List.append_nil]
        exact hr

end Rhodes.JsonTokener
