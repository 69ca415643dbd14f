import Mathlib
import Rhodes.JsonTexts

/-!
Printed trees are read again. A tree whose texts hold no NUL, whose names are distinct and whose
numbers fit comes back from its text when it is at most as deep as the stack of the parser; a
deeper one is refused for its depth.
-/
namespace Rhodes.JsonTokener
open Json

mutual

/-- How many levels the parser needs for a tree. -/
def depth : JsonObject → ℕ
  | .array items => 1 + depthItems items
  | .object fields => 1 + depthFields fields
  | _ => 1

def depthItems : List JsonObject → ℕ
  | [] => 0
  | j :: items => max (depth j) (depthItems items)

def depthFields : List (String × JsonObject) → ℕ
  | [] => 0
  | f :: fields => max (depth f.2) (depthFields fields)

end

mutual

/-- What the parser can make: texts without NUL, distinct names and numbers that fit. -/
def Sound : JsonObject → Prop
  | .int n => -2 ^ 63 ≤ n ∧ n < 2 ^ 63
  | .string s => '\x00' ∉ s.toList
  | .array items => SoundItems items
  | .object fields => (fields.map Prod.fst).Nodup ∧ SoundFields fields
  | _ => True

def SoundItems : List JsonObject → Prop
  | [] => True
  | j :: items => Sound j ∧ SoundItems items

def SoundFields : List (String × JsonObject) → Prop
  | [] => True
  | f :: fields => '\x00' ∉ f.1.toList ∧ Sound f.2 ∧ SoundFields fields

end

mutual

/-- The doubles of a tree are read as they were printed. -/
def Doubles (F : Text → Option (String × Int)) : JsonObject → Prop
  | .double text trunc => ReadsBack F text trunc
  | .array items => DoublesItems F items
  | .object fields => DoublesFields F fields
  | _ => True

def DoublesItems (F : Text → Option (String × Int)) : List JsonObject → Prop
  | [] => True
  | j :: items => Doubles F j ∧ DoublesItems F items

def DoublesFields (F : Text → Option (String × Int)) : List (String × JsonObject) → Prop
  | [] => True
  | f :: fields => Doubles F f.2 ∧ DoublesFields F fields

end

variable {F : Text → Option (String × Int)} {tok : Tokener} {x y j : JsonObject}
  {c : Char} {below : List Srec} {items : List JsonObject} {fields : List (String × JsonObject)}

theorem depth_pos (j : JsonObject) : 0 < depth j := by
  cases j <;> simp [depth]

section Texts

theorem toList_string (s : String) : (toJsonString (.string s)).toList =
    '"' :: ((escapeStr s).toList ++ ['"']) := by
  simp [toJsonString]

theorem toList_array (items : List JsonObject) : (toJsonString (.array items)).toList =
    '[' :: ((itemsToString true items).toList ++ [' ', ']']) := by
  simp [toJsonString]

theorem toList_object (fields : List (String × JsonObject)) :
    (toJsonString (.object fields)).toList =
      '\x7b' :: ((fieldsToString true fields).toList ++ [' ', '\x7d']) := by
  simp [toJsonString]

theorem toList_items_true (j : JsonObject) (items : List JsonObject) :
    (itemsToString true (j :: items)).toList =
      ' ' :: ((toJsonString j).toList ++ (itemsToString false items).toList) := by
  simp [itemsToString]

theorem toList_items_false (j : JsonObject) (items : List JsonObject) :
    (itemsToString false (j :: items)).toList =
      ',' :: ' ' :: ((toJsonString j).toList ++ (itemsToString false items).toList) := by
  simp [itemsToString]

/-- The text of a field, from its opening quote on. -/
def fieldText (f : String × JsonObject) : Text :=
  '"' :: ((escapeStr f.1).toList ++ '"' :: ':' :: ' ' :: (toJsonString f.2).toList)

theorem toList_fields_true (f : String × JsonObject) (fields : List (String × JsonObject)) :
    (fieldsToString true (f :: fields)).toList =
      ' ' :: (fieldText f ++ (fieldsToString false fields).toList) := by
  simp [fieldsToString, fieldText]

theorem toList_fields_false (f : String × JsonObject) (fields : List (String × JsonObject)) :
    (fieldsToString false (f :: fields)).toList =
      ',' :: ' ' :: (fieldText f ++ (fieldsToString false fields).toList) := by
  simp [fieldsToString, fieldText]

/-- A character that starts the text of a value. -/
def Starts (c : Char) : Prop := isspace c = false ∧ c ≠ '/' ∧ c ≠ ']'

instance (c : Char) : Decidable (Starts c) := by
  unfold Starts
  infer_instance

theorem starts_digit (hc : c ∈ "0123456789-".toList) : Starts c := by
  have hmem : c ∈ ['0', '1', '2', '3', '4', '5', '6', '7', '8', '9', '-'] := hc
  simp only [List.mem_cons, List.not_mem_nil, or_false] at hmem
  rcases hmem with rfl | rfl | rfl | rfl | rfl | rfl | rfl | rfl | rfl | rfl | rfl <;> decide

theorem exists_first_char (hj : Sound j) (hd : Doubles F j) :
    ∃ c cs, (toJsonString j).toList = c :: cs ∧ Starts c := by
  cases j with
  | null => exact ⟨'n', _, rfl, by decide⟩
  | boolean b =>
    cases b with
    | true => exact ⟨'t', _, rfl, by decide⟩
    | false => exact ⟨'f', _, rfl, by decide⟩
  | double text trunc =>
    rw [Doubles] at hd
    obtain ⟨c, cs, hcs, hc⟩ := hd.first
    exact ⟨c, cs, by rw [toJsonString, hcs], starts_digit hc⟩
  | int n =>
    obtain ⟨c, cs, hcs⟩ := List.exists_cons_of_ne_nil (toList_int_ne_nil n)
    exact ⟨c, cs, by rw [toJsonString, hcs],
      starts_digit (int_chars n c (hcs ▸ List.mem_cons_self)).2.2⟩
  | string s => exact ⟨'"', _, toList_string s, by decide⟩
  | array items => exact ⟨'[', _, toList_array items, by decide⟩
  | object fields => exact ⟨'\x7b', _, toList_object fields, by decide⟩

end Texts

section Levels

/-- Inside of an array, before an item. -/
structure InArray (tok : Tokener) (items : List JsonObject) (below : List Srec) : Prop where
  waiting : Waiting below
  state : tok.top.state = .eatws
  savedState : tok.top.savedState = .array
  current : tok.top.current = .array items
  below : tok.below = below

/-- Inside of an object, before a name. -/
structure InObject (tok : Tokener) (fields : List (String × JsonObject)) (below : List Srec) :
    Prop where
  waiting : Waiting below
  state : tok.top.state = .eatws
  savedState : tok.top.savedState = .objectFieldStart
  current : tok.top.current = .object fields
  below : tok.below = below

/-- The level that waits for an item of an array. -/
structure WaitsItem (level : Srec) (items : List JsonObject) : Prop where
  state : level.state = .arrayAdd
  savedState : resting level.savedState = true
  current : level.current = .array items

/-- The level that waits for the value of a name. -/
structure WaitsValue (level : Srec) (fields : List (String × JsonObject)) (name : String) :
    Prop where
  state : level.state = .objectValueAdd
  savedState : resting level.savedState = true
  current : level.current = .object fields
  name : level.objFieldName = name

theorem parse_space (h : tok.top.state = .eatws) (x : JsonObject) (rest : Text) :
    parseLoop F tok x (' ' :: rest) = parseLoop F tok x rest := by
  refine parseLoop_next ?_ (by decide) rest
  rw [switch, h]
  rfl

/-- White space over, the level goes on in its saved state. -/
theorem parse_saved (hlive : Live tok) (h : tok.top.state = .eatws) (hspace : isspace c = false)
    (hslash : c ≠ '/') (x : JsonObject) (rest : Text) : parseLoop F tok x (c :: rest) =
      parseLoop F (tok.setState tok.top.savedState) x (c :: rest) := by
  refine parseLoop_redo hlive ?_ rest
  rw [switch, h]
  dsimp only
  rw [if_neg (by rw [hspace]; exact Bool.false_ne_true), if_neg hslash]

theorem waiting_cons {level : Srec} (hstate : adds level.state = true)
    (hsaved : resting level.savedState = true) (h : Waiting below) : Waiting (level :: below) := by
  intro l hl
  rcases List.mem_cons.mp hl with rfl | hl
  · exact ⟨hstate, hsaved⟩
  · exact h l hl

theorem Fresh.parse_open_array (h : Fresh tok below) : ∃ t, InArray t [] below ∧ ∀ x rest,
    parseLoop F tok x ('[' :: rest) = parseLoop F t x rest := by
  refine ⟨((tok.setState .start).after .array).setCurrent (.array []),
    ⟨h.waiting, rfl, rfl, rfl, h.below⟩, fun x rest => ?_⟩
  rw [parse_saved h.live (by rw [h.top]) (by decide) (by decide), h.top]
  exact parseLoop_next (by rw [switch]; rfl) (by decide) rest

theorem Fresh.parse_open_object (h : Fresh tok below) : ∃ t, InObject t [] below ∧ ∀ x rest,
    parseLoop F tok x ('\x7b' :: rest) = parseLoop F t x rest := by
  refine ⟨((tok.setState .start).after .objectFieldStart).setCurrent (.object []),
    ⟨h.waiting, rfl, rfl, rfl, h.below⟩, fun x rest => ?_⟩
  rw [parse_saved h.live (by rw [h.top]) (by decide) (by decide), h.top]
  exact parseLoop_next (by rw [switch]; rfl) (by decide) rest

theorem InArray.live (h : InArray tok items below) : Live tok :=
  ⟨by rw [h.savedState]; rfl, by rw [h.below]; exact h.waiting⟩

theorem InObject.live (h : InObject tok fields below) : Live tok :=
  ⟨by rw [h.savedState]; rfl, by rw [h.below]; exact h.waiting⟩

/-- An item is read on a level of its own, or there is no level left. -/
theorem InArray.parse_item (h : InArray tok items below) (hc : Starts c) :
    (below.length < 31 → ∃ t level, Fresh t (level :: below) ∧ WaitsItem level items ∧
      ∀ x rest, parseLoop F tok x (c :: rest) = parseLoop F t x (c :: rest)) ∧
    (31 ≤ below.length → ∃ t, ∀ x rest,
      parseLoop F tok x (c :: rest) = some (.errorDepth, t)) := by
  obtain ⟨u, hu⟩ : ∃ u, u = tok.setState tok.top.savedState := ⟨_, rfl⟩
  have hstate : u.top.state = .array := by
    rw [hu]
    exact h.savedState
  have hlive : Live u := by
    rw [hu]
    exact h.live
  have hturn : ∀ x, switch F u x c = enter u x .arrayAdd := by
    intro x
    rw [switch, hstate]
    dsimp only
    rw [if_neg hc.2.2]
  have hdepth : u.depth = below.length := by
    rw [Tokener.depth, hu, Tokener.setState_below, h.below]
  constructor
  · intro hlt
    refine ⟨(u.setState .arrayAdd).push, (u.setState .arrayAdd).top, ⟨?_, rfl, ?_⟩, ⟨rfl, ?_, ?_⟩,
      fun x rest => ?_⟩
    · exact waiting_cons rfl hlive.1 h.waiting
    · rw [Tokener.push_below, Tokener.setState_below, hu, Tokener.setState_below, h.below]
    · exact hlive.1
    · rw [Tokener.setState_current, hu, Tokener.setState_current, h.current]
    · rw [parse_saved h.live h.state hc.1 hc.2.1, ← hu]
      refine parseLoop_redo hlive ((hturn x).trans ?_) rest
      rw [enter, if_neg (by rw [hdepth, maxDepth]; omega)]
  · intro hge
    refine ⟨u, fun x rest => ?_⟩
    rw [parse_saved h.live h.state hc.1 hc.2.1, ← hu]
    refine parseLoop_out ((hturn x).trans ?_) rest
    rw [enter, if_pos (by rw [hdepth, maxDepth]; omega)]

theorem InArray.parse_close (h : InArray tok items below) :
    ∃ t, Done t (.array items) below ∧ ∀ x rest,
      parseLoop F tok x (']' :: rest) = parseLoop F t x rest := by
  refine ⟨(tok.setState .array).after .finish, ⟨h.waiting, rfl, rfl, h.current, h.below⟩,
    fun x rest => ?_⟩
  rw [parse_saved h.live h.state (by decide) (by decide), h.savedState]
  exact parseLoop_next (by rw [switch]; rfl) (by decide) rest

theorem InObject.parse_close (h : InObject tok fields below) :
    ∃ t, Done t (.object fields) below ∧ ∀ x rest,
      parseLoop F tok x ('\x7d' :: rest) = parseLoop F t x rest := by
  refine ⟨(tok.setState .objectFieldStart).after .finish,
    ⟨h.waiting, rfl, rfl, h.current, h.below⟩, fun x rest => ?_⟩
  rw [parse_saved h.live h.state (by decide) (by decide), h.savedState]
  exact parseLoop_next (by rw [switch]; rfl) (by decide) rest

variable {level : Srec}

/-- The level of a value read is left, and the value is passed on. -/
theorem Done.parse_leave (h : Done tok j (level :: below)) (hspace : isspace c = false)
    (hslash : c ≠ '/') (x : JsonObject) (rest : Text) :
    parseLoop F tok x (c :: rest) =
      parseLoop F { tok with top := level, below } j (c :: rest) := by
  rw [parse_saved h.live h.state hspace hslash, h.savedState]
  refine parseLoop_redo (show Live (tok.setState .finish) from ⟨h.live.1, h.live.2⟩) ?_ rest
  rw [switch, Tokener.setState_state]
  dsimp only
  rw [Tokener.setState_below, h.below]
  exact congrArg (Turn.redo _) h.current

theorem Done.live_below (h : Done tok j (level :: below)) :
    Live { tok with top := level, below } :=
  ⟨(h.waiting level List.mem_cons_self).2, fun l hl => h.waiting l (List.mem_cons_of_mem _ hl)⟩

/-- The item read is put behind the others. -/
theorem Done.parse_add_item (h : Done tok j (level :: below)) (hlevel : WaitsItem level items)
    (hspace : isspace c = false) (hslash : c ≠ '/') : ∃ t, t.top.state = .arraySep ∧
      t.top.current = .array (items ++ [j]) ∧ t.below = below ∧ ∀ x rest,
        parseLoop F tok x (c :: rest) = parseLoop F t j (c :: rest) := by
  obtain ⟨u, hu⟩ : ∃ u : Tokener, u = { tok with top := level, below } := ⟨_, rfl⟩
  have hlive : Live u := by
    rw [hu]
    exact h.live_below
  have hadded : Live ((u.after .arraySep).setCurrent (.array (items ++ [j]))) := ⟨rfl, hlive.2⟩
  refine ⟨((u.after .arraySep).setCurrent (.array (items ++ [j]))).setState .arraySep, rfl, rfl,
    by rw [hu]; rfl, fun x rest => ?_⟩
  rw [h.parse_leave hspace hslash, ← hu]
  refine (parseLoop_redo hlive ?_ rest).trans (parse_saved hadded rfl hspace hslash j rest)
  rw [switch, hu, hlevel.state]
  dsimp only
  rw [hlevel.current]

/-- Behind an item comes another one. -/
theorem Done.parse_comma_item (h : Done tok j (level :: below)) (hlevel : WaitsItem level items) :
    ∃ t, InArray t (items ++ [j]) below ∧ ∀ x y rest,
      parseLoop F tok x (',' :: ' ' :: rest) = parseLoop F t y rest := by
  obtain ⟨u, hstate, hcurrent, hbelow, hrun⟩ :=
    h.parse_add_item (F := F) hlevel (c := ',') (by decide) (by decide)
  have ht : InArray (u.after .array) (items ++ [j]) below :=
    ⟨fun l hl => h.waiting l (List.mem_cons_of_mem _ hl), rfl, rfl, hcurrent, hbelow⟩
  refine ⟨_, ht, fun x y rest => ?_⟩
  rw [hrun]
  refine (parseLoop_next ?_ (by decide) _).trans ((parse_space rfl j rest).trans
    (parseLoop_obj ⟨ht.live, rfl⟩ rest))
  rw [switch, hstate]
  rfl

/-- Behind the last item the array ends. -/
theorem Done.parse_end_item (h : Done tok j (level :: below)) (hlevel : WaitsItem level items) :
    ∃ t, Done t (.array (items ++ [j])) below ∧ ∀ x y rest,
      parseLoop F tok x (' ' :: ']' :: rest) = parseLoop F t y rest := by
  obtain ⟨u, hstate, hcurrent, hbelow, hrun⟩ :=
    h.parse_add_item (F := F) hlevel (c := ']') (by decide) (by decide)
  have ht : Done (u.after .finish) (.array (items ++ [j])) below :=
    ⟨fun l hl => h.waiting l (List.mem_cons_of_mem _ hl), rfl, rfl, hcurrent, hbelow⟩
  refine ⟨_, ht, fun x y rest => ?_⟩
  rw [parse_space h.state, hrun]
  refine (parseLoop_next (o := j) ?_ (by decide) _).trans (parseLoop_obj ht.ready rest)
  rw [switch, hstate]
  rfl

/-- The name of a field and the colon behind it. -/
theorem InObject.parse_name (h : InObject tok fields below) {name : String}
    (hname : '\x00' ∉ name.toList) : ∃ t, t.top.state = .eatws ∧ t.top.savedState = .objectValue ∧
      t.top.current = .object fields ∧ t.top.objFieldName = name ∧ t.below = below ∧
      ∀ x rest, parseLoop F tok x ('"' :: ((escapeStr name).toList ++
        '"' :: ':' :: ' ' :: rest)) = parseLoop F t x rest := by
  have hstart : InText ({ tok.setState .objectFieldStart with
      quoteChar := '"', pb := [] }.setState .objectField) .objectField []
      (.object fields) below := ⟨rfl, rfl, rfl, h.current, h.below⟩
  obtain ⟨u, hu, hrun⟩ := parse_quoted (F := F) (Or.inr rfl) hstart hname
  obtain ⟨v, hv⟩ : ∃ v : Tokener, v = ({ u with top := { u.top with
    objFieldName := name } } : Tokener).after .objectFieldEnd := ⟨_, rfl⟩
  have hvlive : Live v := by
    rw [hv]
    exact ⟨rfl, by rw [Tokener.after_below, hu.below]; exact h.waiting⟩
  refine ⟨(v.setState .objectFieldEnd).after .objectValue, rfl, rfl, ?_, ?_, ?_, fun x rest => ?_⟩
  · rw [hv]
    exact hu.current
  · rw [hv]
    rfl
  · rw [hv]
    exact hu.below
  · rw [parse_saved h.live h.state (by decide) (by decide), h.savedState]
    refine (parseLoop_next (o := x) (by rw [switch]; rfl) (by decide) _).trans ?_
    refine (hrun x _).trans ?_
    refine (parseLoop_next (t := v) (o := x) ?_ (by decide) _).trans ?_
    · have hread : strdup u.pb = name := by rw [hu.pb, strdup_eq hname]
      rw [switch, hu.state]
      dsimp only
      rw [if_pos hu.quote.symm, hread, hv]
      rfl
    · rw [parse_saved hvlive (by rw [hv]; rfl) (by decide) (by decide)]
      refine (parseLoop_next (o := x) ?_ (by decide) _).trans (parse_space rfl x rest)
      rw [switch, hv]
      rfl

/-- The value of a name is read on a level of its own, or there is no level left. -/
theorem parse_value_level (hwaiting : Waiting below) (hstate : tok.top.state = .eatws)
    (hsaved : tok.top.savedState = .objectValue) (hcurrent : tok.top.current = .object fields)
    (hbelow : tok.below = below) (hc : Starts c) :
    (below.length < 31 → ∃ t level, Fresh t (level :: below) ∧
      WaitsValue level fields tok.top.objFieldName ∧
      ∀ x rest, parseLoop F tok x (c :: rest) = parseLoop F t x (c :: rest)) ∧
    (31 ≤ below.length → ∃ t, ∀ x rest,
      parseLoop F tok x (c :: rest) = some (.errorDepth, t)) := by
  have hlive : Live tok := ⟨by rw [hsaved]; rfl, by rw [hbelow]; exact hwaiting⟩
  obtain ⟨u, hu⟩ : ∃ u, u = tok.setState .objectValue := ⟨_, rfl⟩
  have hulive : Live u := by
    rw [hu]
    exact hlive
  have hturn : ∀ x, switch F u x c = enter u x .objectValueAdd := by
    intro x
    rw [switch, hu]
    rfl
  have hdepth : u.depth = below.length := by
    rw [Tokener.depth, hu, Tokener.setState_below, hbelow]
  constructor
  · intro hlt
    refine ⟨(u.setState .objectValueAdd).push, (u.setState .objectValueAdd).top,
      ⟨?_, rfl, ?_⟩, ⟨rfl, ?_, ?_, ?_⟩, fun x rest => ?_⟩
    · exact waiting_cons rfl hulive.1 hwaiting
    · rw [Tokener.push_below, Tokener.setState_below, hu, Tokener.setState_below, hbelow]
    · exact hulive.1
    · rw [Tokener.setState_current, hu, Tokener.setState_current, hcurrent]
    · rw [hu]
      rfl
    · rw [parse_saved hlive hstate hc.1 hc.2.1, hsaved, ← hu]
      refine parseLoop_redo hulive ((hturn x).trans ?_) rest
      rw [enter, if_neg (by rw [hdepth, maxDepth]; omega)]
  · intro hge
    refine ⟨u, fun x rest => ?_⟩
    rw [parse_saved hlive hstate hc.1 hc.2.1, hsaved, ← hu]
    refine parseLoop_out ((hturn x).trans ?_) rest
    rw [enter, if_pos (by rw [hdepth, maxDepth]; omega)]

theorem objectAdd_new {fields : List (String × JsonObject)} {name : String} (j : JsonObject)
    (hname : name ∉ fields.map Prod.fst) : objectAdd fields name j = fields ++ [(name, j)] := by
  have hfilter : fields.filter (fun f => f.1 ≠ name) = fields := by
    refine List.filter_eq_self.mpr fun f hf => decide_eq_true ?_
    rintro rfl
    exact hname (List.mem_map_of_mem hf)
  rw [objectAdd, hfilter]

variable {name : String}

/-- The value read is put under its name, which is new. -/
theorem Done.parse_add_value (h : Done tok j (level :: below))
    (hlevel : WaitsValue level fields name) (hname : name ∉ fields.map Prod.fst)
    (hspace : isspace c = false) (hslash : c ≠ '/') : ∃ t, t.top.state = .objectSep ∧
      t.top.current = .object (fields ++ [(name, j)]) ∧ t.below = below ∧ ∀ x rest,
        parseLoop F tok x (c :: rest) = parseLoop F t j (c :: rest) := by
  obtain ⟨u, hu⟩ : ∃ u : Tokener, u = { tok with top := level, below } := ⟨_, rfl⟩
  have hlive : Live u := by
    rw [hu]
    exact h.live_below
  obtain ⟨v, hv⟩ : ∃ v : Tokener, v = { u.after .objectSep with
    top := { (u.after .objectSep).top with
      current := .object (fields ++ [(name, j)]), objFieldName := "" } } := ⟨_, rfl⟩
  have hadded : Live v := by
    rw [hv]
    exact ⟨rfl, hlive.2⟩
  refine ⟨v.setState .objectSep, rfl, by rw [hv]; rfl, by rw [hv, hu]; rfl, fun x rest => ?_⟩
  rw [h.parse_leave hspace hslash, ← hu]
  refine (parseLoop_redo (t := v) (o := j) hlive ?_ rest).trans ?_
  · rw [switch, hu, hlevel.state]
    dsimp only
    rw [hlevel.current, hlevel.name]
    dsimp only
    rw [objectAdd_new j hname, hv, hu]
  · rw [parse_saved hadded (by rw [hv]; rfl) hspace hslash, hv]
    rfl

theorem Done.parse_comma_value (h : Done tok j (level :: below))
    (hlevel : WaitsValue level fields name) (hname : name ∉ fields.map Prod.fst) :
    ∃ t, InObject t (fields ++ [(name, j)]) below ∧ ∀ x y rest,
      parseLoop F tok x (',' :: ' ' :: rest) = parseLoop F t y rest := by
  obtain ⟨u, hstate, hcurrent, hbelow, hrun⟩ :=
    h.parse_add_value (F := F) hlevel hname (c := ',') (by decide) (by decide)
  have ht : InObject (u.after .objectFieldStart) (fields ++ [(name, j)]) below :=
    ⟨fun l hl => h.waiting l (List.mem_cons_of_mem _ hl), rfl, rfl, hcurrent, hbelow⟩
  refine ⟨_, ht, fun x y rest => ?_⟩
  rw [hrun]
  refine (parseLoop_next ?_ (by decide) _).trans ((parse_space rfl j rest).trans
    (parseLoop_obj ⟨ht.live, rfl⟩ rest))
  rw [switch, hstate]
  rfl

theorem Done.parse_end_value (h : Done tok j (level :: below))
    (hlevel : WaitsValue level fields name) (hname : name ∉ fields.map Prod.fst) :
    ∃ t, Done t (.object (fields ++ [(name, j)])) below ∧ ∀ x y rest,
      parseLoop F tok x (' ' :: '\x7d' :: rest) = parseLoop F t y rest := by
  obtain ⟨u, hstate, hcurrent, hbelow, hrun⟩ :=
    h.parse_add_value (F := F) hlevel hname (c := '\x7d') (by decide) (by decide)
  have ht : Done (u.after .finish) (.object (fields ++ [(name, j)])) below :=
    ⟨fun l hl => h.waiting l (List.mem_cons_of_mem _ hl), rfl, rfl, hcurrent, hbelow⟩
  refine ⟨_, ht, fun x y rest => ?_⟩
  rw [parse_space h.state, hrun]
  refine (parseLoop_next (o := j) ?_ (by decide) _).trans (parseLoop_obj ht.ready rest)
  rw [switch, hstate]
  rfl

end Levels

section Trees

theorem not_mem_of_nodup {before fields : List (String × JsonObject)} {f : String × JsonObject}
    (hkeys : ((before ++ f :: fields).map Prod.fst).Nodup) : f.1 ∉ before.map Prod.fst := by
  rw [List.map_append, List.map_cons, List.nodup_middle, List.nodup_cons, List.mem_append,
    not_or] at hkeys
  exact hkeys.1.1

/-- A value is read from its text on any level that it fits on. -/
def Readable (F : Text → Option (String × Int)) (j : JsonObject) : Prop :=
  ∀ {tok : Tokener} {below : List Srec}, Fresh tok below → below.length + depth j ≤ 32 →
    Reads F tok (toJsonString j).toList j below

theorem exists_behind_items (items : List JsonObject) : ∃ c, Behind c ∧ ∀ tail : Text,
    ∃ cs, (itemsToString false items).toList ++ ' ' :: tail = c :: cs := by
  cases items with
  | nil => exact ⟨' ', Or.inl rfl, fun tail => ⟨tail, rfl⟩⟩
  | cons i items =>
    refine ⟨',', Or.inr (Or.inl rfl), fun tail => ?_⟩
    rw [toList_items_false]
    exact ⟨_, rfl⟩

theorem exists_behind_fields (fields : List (String × JsonObject)) : ∃ c, Behind c ∧
    ∀ tail : Text, ∃ cs, (fieldsToString false fields).toList ++ ' ' :: tail = c :: cs := by
  cases fields with
  | nil => exact ⟨' ', Or.inl rfl, fun tail => ⟨tail, rfl⟩⟩
  | cons f fields =>
    refine ⟨',', Or.inr (Or.inl rfl), fun tail => ?_⟩
    rw [toList_fields_false]
    exact ⟨_, rfl⟩

/-- An item that fits is read and passed to its array. -/
theorem InArray.read_item (h : InArray tok items below) (hread : Readable F j)
    (hfirst : ∃ c cs, (toJsonString j).toList = c :: cs ∧ Starts c)
    (hdepth : below.length + 1 + depth j ≤ 32) (rest : List JsonObject) :
    ∃ t level, Done t j (level :: below) ∧ WaitsItem level items ∧ ∀ x y tail,
      parseLoop F tok x ((toJsonString j).toList ++
        ((itemsToString false rest).toList ++ ' ' :: tail)) =
      parseLoop F t y ((itemsToString false rest).toList ++ ' ' :: tail) := by
  have hpos := depth_pos j
  obtain ⟨first, cs, htext, hstarts⟩ := hfirst
  obtain ⟨u, level, hu, hlevel, hrun⟩ := (h.parse_item (F := F) hstarts).1 (by omega)
  obtain ⟨c, hc, hbehind⟩ := exists_behind_items rest
  obtain ⟨t, ht, hreads⟩ := hread hu (by rw [List.length_cons]; omega) c hc
  refine ⟨t, level, ht, hlevel, fun x y tail => ?_⟩
  obtain ⟨tl, htl⟩ := hbehind tail
  have hstep := hrun x (cs ++ c :: tl)
  rw [← List.cons_append, ← htext] at hstep
  rw [htl, hstep, hreads x y]

theorem InObject.read_value (h : InObject tok fields below) {f : String × JsonObject}
    (hread : Readable F f.2)
    (hfirst : ∃ c cs, (toJsonString f.2).toList = c :: cs ∧ Starts c)
    (hname : '\x00' ∉ f.1.toList) (hdepth : below.length + 1 + depth f.2 ≤ 32)
    (rest : List (String × JsonObject)) :
    ∃ t level, Done t f.2 (level :: below) ∧ WaitsValue level fields f.1 ∧ ∀ x y tail,
      parseLoop F tok x (fieldText f ++
        ((fieldsToString false rest).toList ++ ' ' :: tail)) =
      parseLoop F t y ((fieldsToString false rest).toList ++ ' ' :: tail) := by
  have hpos := depth_pos f.2
  obtain ⟨first, cs, htext, hstarts⟩ := hfirst
  obtain ⟨v, hstate, hsaved, hcurrent, hfield, hbelow, hnamed⟩ :=
    h.parse_name (F := F) hname
  obtain ⟨u, level, hu, hlevel, hrun⟩ := (parse_value_level (F := F) h.waiting hstate
    hsaved hcurrent hbelow hstarts).1 (by omega)
  rw [hfield] at hlevel
  obtain ⟨c, hc, hbehind⟩ := exists_behind_fields rest
  obtain ⟨t, ht, hreads⟩ := hread hu (by rw [List.length_cons]; omega) c hc
  refine ⟨t, level, ht, hlevel, fun x y tail => ?_⟩
  obtain ⟨tl, htl⟩ := hbehind tail
  have hstep := hrun x (cs ++ c :: tl)
  rw [← List.cons_append, ← htext] at hstep
  have hname' := hnamed x ((toJsonString f.2).toList ++ c :: tl)
  rw [htl, fieldText]
  simp only [List.cons_append, List.append_assoc]
  rw [hname', hstep, hreads x y]

mutual

/-- A tree that fits is read from its text. -/
theorem readable (j : JsonObject) (hj : Sound j) (hd : Doubles F j) :
    Readable F j := by
  intro tok below h hdepth
  cases j with
  | null => exact reads_null h
  | boolean b =>
    cases b with
    | true => exact reads_true h
    | false => exact reads_false h
  | double text trunc =>
    rw [Doubles] at hd
    exact reads_double h hd
  | int n =>
    rw [Sound] at hj
    exact reads_int h hj.1 hj.2
  | string s =>
    rw [Sound] at hj
    exact reads_string h hj
  | array items =>
    rw [Sound] at hj
    rw [Doubles] at hd
    rw [depth] at hdepth
    intro c hc
    obtain ⟨t, ht, hopen⟩ := h.parse_open_array (F := F)
    rw [toList_array]
    cases items with
    | nil =>
      obtain ⟨u, hu, hclose⟩ := ht.parse_close (F := F)
      refine ⟨u, hu, fun x y rest => ?_⟩
      refine (hopen x _).trans ((parse_space ht.state x _).trans ((hclose x _).trans ?_))
      exact parseLoop_obj hu.ready _
    | cons i items =>
      rw [SoundItems] at hj
      rw [DoublesItems] at hd
      rw [depthItems] at hdepth
      obtain ⟨u, level, hu, hlevel, hitem⟩ := ht.read_item (F := F)
        (readable i hj.1 hd.1) (exists_first_char hj.1 hd.1) (by omega) items
      obtain ⟨v, hv, hrest⟩ := reads_items items hj.2 hd.2 hu hlevel (by omega)
      refine ⟨v, hv, fun x y rest => ?_⟩
      rw [toList_items_true, List.cons_append, hopen, List.cons_append, List.cons_append,
        parse_space ht.state, List.append_assoc, List.append_assoc]
      exact (hitem x x (']' :: c :: rest)).trans (hrest x y (c :: rest))
  | object fields =>
    rw [Sound] at hj
    rw [Doubles] at hd
    rw [depth] at hdepth
    intro c hc
    obtain ⟨t, ht, hopen⟩ := h.parse_open_object (F := F)
    rw [toList_object]
    cases fields with
    | nil =>
      obtain ⟨u, hu, hclose⟩ := ht.parse_close (F := F)
      refine ⟨u, hu, fun x y rest => ?_⟩
      refine (hopen x _).trans ((parse_space ht.state x _).trans ((hclose x _).trans ?_))
      exact parseLoop_obj hu.ready _
    | cons f fields =>
      obtain ⟨hkeys, hsound⟩ := hj
      rw [SoundFields] at hsound
      rw [DoublesFields] at hd
      rw [depthFields] at hdepth
      obtain ⟨u, level, hu, hlevel, hfield⟩ := ht.read_value (F := F)
        (readable f.2 hsound.2.1 hd.1) (exists_first_char hsound.2.1 hd.1) hsound.1 (by omega)
        fields
      obtain ⟨v, hv, hrest⟩ := reads_fields fields hsound.2.2 hd.2 hu hlevel hkeys (by omega)
      refine ⟨v, hv, fun x y rest => ?_⟩
      rw [toList_fields_true, List.cons_append, hopen, List.cons_append, List.cons_append,
        parse_space ht.state, List.append_assoc, List.append_assoc]
      exact (hfield x x ('\x7d' :: c :: rest)).trans (hrest x y (c :: rest))

/-- The items behind one that is read. -/
theorem reads_items (items : List JsonObject) (hitems : SoundItems items)
    (hd : DoublesItems F items) {tok : Tokener} {j : JsonObject} {level : Srec}
    {below : List Srec} {before : List JsonObject} (h : Done tok j (level :: below))
    (hlevel : WaitsItem level before) (hdepth : below.length + 1 + depthItems items ≤ 32) :
    ∃ t, Done t (.array (before ++ j :: items)) below ∧ ∀ x y rest,
      parseLoop F tok x ((itemsToString false items).toList ++ ' ' :: ']' :: rest) =
        parseLoop F t y rest := by
  cases items with
  | nil => exact h.parse_end_item hlevel
  | cons i items =>
    rw [SoundItems] at hitems
    rw [DoublesItems] at hd
    rw [depthItems] at hdepth
    obtain ⟨t, ht, hcomma⟩ := h.parse_comma_item (F := F) hlevel
    obtain ⟨u, level', hu, hlevel', hitem⟩ := ht.read_item (F := F)
      (readable i hitems.1 hd.1) (exists_first_char hitems.1 hd.1) (by omega) items
    obtain ⟨v, hv, hrest⟩ := reads_items items hitems.2 hd.2 hu hlevel' (by omega)
    refine ⟨v, by rw [List.append_assoc] at hv; exact hv, fun x y rest => ?_⟩
    rw [toList_items_false, List.cons_append, List.cons_append, hcomma x x, List.append_assoc]
    exact (hitem x x _).trans (hrest x y rest)

/-- The fields behind one that is read. -/
theorem reads_fields (fields : List (String × JsonObject)) (hfields : SoundFields fields)
    (hd : DoublesFields F fields) {tok : Tokener} {level : Srec} {below : List Srec}
    {before : List (String × JsonObject)} {f : String × JsonObject}
    (h : Done tok f.2 (level :: below)) (hlevel : WaitsValue level before f.1)
    (hkeys : ((before ++ f :: fields).map Prod.fst).Nodup)
    (hdepth : below.length + 1 + depthFields fields ≤ 32) :
    ∃ t, Done t (.object (before ++ f :: fields)) below ∧ ∀ x y rest,
      parseLoop F tok x ((fieldsToString false fields).toList ++ ' ' :: '\x7d' :: rest) =
        parseLoop F t y rest := by
  have hname : f.1 ∉ before.map Prod.fst := not_mem_of_nodup hkeys
  cases fields with
  | nil => exact h.parse_end_value hlevel hname
  | cons g fields =>
    rw [SoundFields] at hfields
    rw [DoublesFields] at hd
    rw [depthFields] at hdepth
    obtain ⟨t, ht, hcomma⟩ := h.parse_comma_value (F := F) hlevel hname
    obtain ⟨u, level', hu, hlevel', hfield⟩ := ht.read_value (F := F)
      (readable g.2 hfields.2.1 hd.1) (exists_first_char hfields.2.1 hd.1) hfields.1 (by omega)
      fields
    have hkeys' : (((before ++ [(f.1, f.2)]) ++ g :: fields).map Prod.fst).Nodup := by
      rw [List.append_assoc]
      exact hkeys
    obtain ⟨v, hv, hrest⟩ := reads_fields fields hfields.2.2 hd.2 hu hlevel' hkeys' (by omega)
    refine ⟨v, by rw [List.append_assoc] at hv; exact hv, fun x y rest => ?_⟩
    rw [toList_fields_false, List.cons_append, List.cons_append, hcomma x x,
      List.append_assoc]
    exact (hfield x x _).trans (hrest x y rest)

end

/-- The parser gives up on a tree that does not fit on its levels. -/
def Refused (F : Text → Option (String × Int)) (j : JsonObject) : Prop :=
  ∀ {tok : Tokener} {below : List Srec}, Fresh tok below → below.length ≤ 31 →
    32 < below.length + depth j → ∀ c, Behind c → ∃ t, ∀ x rest,
      parseLoop F tok x ((toJsonString j).toList ++ c :: rest) = some (.errorDepth, t)

theorem InArray.refuse_item (h : InArray tok items below) (hrefused : Refused F j)
    (hfirst : ∃ c cs, (toJsonString j).toList = c :: cs ∧ Starts c)
    (hdepth : 32 < below.length + 1 + depth j) (rest : List JsonObject) :
    ∃ t, ∀ x tail, parseLoop F tok x ((toJsonString j).toList ++
      ((itemsToString false rest).toList ++ ' ' :: tail)) = some (.errorDepth, t) := by
  obtain ⟨first, cs, htext, hstarts⟩ := hfirst
  by_cases hlt : below.length < 31
  · obtain ⟨u, level, hu, -, hrun⟩ := (h.parse_item (F := F) hstarts).1 hlt
    obtain ⟨c, hc, hbehind⟩ := exists_behind_items rest
    obtain ⟨t, hout⟩ := hrefused hu (by rw [List.length_cons]; omega)
      (by rw [List.length_cons]; omega) c hc
    refine ⟨t, fun x tail => ?_⟩
    obtain ⟨tl, htl⟩ := hbehind tail
    have hstep := hrun x (cs ++ c :: tl)
    rw [← List.cons_append, ← htext] at hstep
    rw [htl, hstep, hout]
  · obtain ⟨t, hout⟩ := (h.parse_item (F := F) hstarts).2 (by omega)
    refine ⟨t, fun x tail => ?_⟩
    rw [htext, List.cons_append]
    exact hout x _

theorem InObject.refuse_value (h : InObject tok fields below) {f : String × JsonObject}
    (hrefused : Refused F f.2)
    (hfirst : ∃ c cs, (toJsonString f.2).toList = c :: cs ∧ Starts c)
    (hname : '\x00' ∉ f.1.toList) (hdepth : 32 < below.length + 1 + depth f.2)
    (rest : List (String × JsonObject)) :
    ∃ t, ∀ x tail, parseLoop F tok x (fieldText f ++
      ((fieldsToString false rest).toList ++ ' ' :: tail)) = some (.errorDepth, t) := by
  obtain ⟨first, cs, htext, hstarts⟩ := hfirst
  obtain ⟨v, hstate, hsaved, hcurrent, -, hbelow, hnamed⟩ := h.parse_name (F := F) hname
  have hlevels := parse_value_level (F := F) h.waiting hstate hsaved hcurrent hbelow
    hstarts
  by_cases hlt : below.length < 31
  · obtain ⟨u, level, hu, -, hrun⟩ := hlevels.1 hlt
    obtain ⟨c, hc, hbehind⟩ := exists_behind_fields rest
    obtain ⟨t, hout⟩ := hrefused hu (by rw [List.length_cons]; omega)
      (by rw [List.length_cons]; omega) c hc
    refine ⟨t, fun x tail => ?_⟩
    obtain ⟨tl, htl⟩ := hbehind tail
    have hstep := hrun x (cs ++ c :: tl)
    rw [← List.cons_append, ← htext] at hstep
    rw [htl, fieldText]
    simp only [List.cons_append, List.append_assoc]
    rw [hnamed, hstep, hout]
  · obtain ⟨t, hout⟩ := hlevels.2 (by omega)
    refine ⟨t, fun x tail => ?_⟩
    rw [fieldText, htext]
    simp only [List.cons_append, List.append_assoc]
    rw [hnamed, hout]

mutual

/-- A tree that does not fit is refused for its depth. -/
theorem refused (j : JsonObject) (hj : Sound j) (hd : Doubles F j) :
    Refused F j := by
  intro tok below h hlen hdepth c hc
  cases j with
  | array items =>
    rw [Sound] at hj
    rw [Doubles] at hd
    rw [depth] at hdepth
    obtain ⟨t, ht, hopen⟩ := h.parse_open_array (F := F)
    cases items with
    | nil =>
      rw [depthItems] at hdepth
      omega
    | cons i items =>
      rw [SoundItems] at hj
      rw [DoublesItems] at hd
      rw [depthItems] at hdepth
      have hfirst := exists_first_char hj.1 hd.1
      have hopened : ∀ x rest, parseLoop F tok x
          ((toJsonString (.array (i :: items))).toList ++ c :: rest) =
          parseLoop F t x ((toJsonString i).toList ++ ((itemsToString false items).toList ++
            ' ' :: ']' :: c :: rest)) := by
        intro x rest
        rw [toList_array, toList_items_true, List.cons_append, hopen, List.cons_append,
          List.cons_append, parse_space ht.state, List.append_assoc, List.append_assoc]
        rfl
      by_cases hfits : below.length + 1 + depth i ≤ 32
      · obtain ⟨u, level, hu, hlevel, hitem⟩ := ht.read_item (F := F)
          (readable i hj.1 hd.1) hfirst hfits items
        have hpos := depth_pos i
        obtain ⟨v, hrest⟩ := refused_items items hj.2 hd.2 hu hlevel (by omega) (by omega)
        refine ⟨v, fun x rest => ?_⟩
        rw [hopened, hitem x x, hrest]
      · obtain ⟨v, hout⟩ := ht.refuse_item (F := F) (refused i hj.1 hd.1) hfirst
          (by omega) items
        refine ⟨v, fun x rest => ?_⟩
        rw [hopened, hout]
  | object fields =>
    rw [Sound] at hj
    rw [Doubles] at hd
    rw [depth] at hdepth
    obtain ⟨t, ht, hopen⟩ := h.parse_open_object (F := F)
    cases fields with
    | nil =>
      rw [depthFields] at hdepth
      omega
    | cons f fields =>
      obtain ⟨hkeys, hsound⟩ := hj
      rw [SoundFields] at hsound
      rw [DoublesFields] at hd
      rw [depthFields] at hdepth
      have hfirst := exists_first_char hsound.2.1 hd.1
      have hopened : ∀ x rest, parseLoop F tok x
          ((toJsonString (.object (f :: fields))).toList ++ c :: rest) =
          parseLoop F t x (fieldText f ++ ((fieldsToString false fields).toList ++
            ' ' :: '\x7d' :: c :: rest)) := by
        intro x rest
        rw [toList_object, toList_fields_true, List.cons_append, hopen, List.cons_append,
          List.cons_append, parse_space ht.state, List.append_assoc, List.append_assoc]
        rfl
      by_cases hfits : below.length + 1 + depth f.2 ≤ 32
      · obtain ⟨u, level, hu, hlevel, hfield⟩ := ht.read_value (F := F)
          (readable f.2 hsound.2.1 hd.1) hfirst hsound.1 hfits fields
        have hpos := depth_pos f.2
        obtain ⟨v, hrest⟩ := refused_fields fields hsound.2.2 hd.2 hu hlevel hkeys (by omega)
          (by omega)
        refine ⟨v, fun x rest => ?_⟩
        rw [hopened, hfield x x, hrest]
      · obtain ⟨v, hout⟩ := ht.refuse_value (F := F) (refused f.2 hsound.2.1 hd.1)
          hfirst hsound.1 (by omega) fields
        refine ⟨v, fun x rest => ?_⟩
        rw [hopened, hout]
  | null | boolean _ | double _ _ | int _ | string _ =>
    rw [depth] at hdepth
    · omega
    all_goals simp

theorem refused_items (items : List JsonObject) (hitems : SoundItems items)
    (hd : DoublesItems F items) {tok : Tokener} {j : JsonObject} {level : Srec}
    {below : List Srec} {before : List JsonObject} (h : Done tok j (level :: below))
    (hlevel : WaitsItem level before) (hlen : below.length < 31)
    (hdepth : 32 < below.length + 1 + depthItems items) :
    ∃ t, ∀ x rest, parseLoop F tok x
      ((itemsToString false items).toList ++ ' ' :: ']' :: rest) = some (.errorDepth, t) := by
  cases items with
  | nil =>
    rw [depthItems] at hdepth
    omega
  | cons i items =>
    rw [SoundItems] at hitems
    rw [DoublesItems] at hd
    rw [depthItems] at hdepth
    have hfirst := exists_first_char hitems.1 hd.1
    obtain ⟨t, ht, hcomma⟩ := h.parse_comma_item (F := F) hlevel
    by_cases hfits : below.length + 1 + depth i ≤ 32
    · obtain ⟨u, level', hu, hlevel', hitem⟩ := ht.read_item (F := F)
        (readable i hitems.1 hd.1) hfirst hfits items
      obtain ⟨v, hrest⟩ := refused_items items hitems.2 hd.2 hu hlevel' hlen (by omega)
      refine ⟨v, fun x rest => ?_⟩
      rw [toList_items_false, List.cons_append, List.cons_append, hcomma x x,
        List.append_assoc, hitem x x, hrest]
    · obtain ⟨v, hout⟩ := ht.refuse_item (F := F) (refused i hitems.1 hd.1) hfirst
        (by omega) items
      refine ⟨v, fun x rest => ?_⟩
      rw [toList_items_false, List.cons_append, List.cons_append, hcomma x x,
        List.append_assoc, hout]

theorem refused_fields (fields : List (String × JsonObject)) (hfields : SoundFields fields)
    (hd : DoublesFields F fields) {tok : Tokener} {level : Srec} {below : List Srec}
    {before : List (String × JsonObject)} {f : String × JsonObject}
    (h : Done tok f.2 (level :: below)) (hlevel : WaitsValue level before f.1)
    (hkeys : ((before ++ f :: fields).map Prod.fst).Nodup) (hlen : below.length < 31)
    (hdepth : 32 < below.length + 1 + depthFields fields) :
    ∃ t, ∀ x rest, parseLoop F tok x
      ((fieldsToString false fields).toList ++ ' ' :: '\x7d' :: rest) =
        some (.errorDepth, t) := by
  cases fields with
  | nil =>
    rw [depthFields] at hdepth
    omega
  | cons g fields =>
    rw [SoundFields] at hfields
    rw [DoublesFields] at hd
    rw [depthFields] at hdepth
    have hfirst := exists_first_char hfields.2.1 hd.1
    have hname : f.1 ∉ before.map Prod.fst := not_mem_of_nodup hkeys
    obtain ⟨t, ht, hcomma⟩ := h.parse_comma_value (F := F) hlevel hname
    by_cases hfits : below.length + 1 + depth g.2 ≤ 32
    · obtain ⟨u, level', hu, hlevel', hfield⟩ := ht.read_value (F := F)
        (readable g.2 hfields.2.1 hd.1) hfirst hfields.1 hfits fields
      have hkeys' : (((before ++ [(f.1, f.2)]) ++ g :: fields).map Prod.fst).Nodup := by
        rw [List.append_assoc]
        exact hkeys
      obtain ⟨v, hrest⟩ := refused_fields fields hfields.2.2 hd.2 hu hlevel' hkeys' hlen (by omega)
      refine ⟨v, fun x rest => ?_⟩
      rw [toList_fields_false, List.cons_append, List.cons_append, hcomma x x,
        List.append_assoc, hfield x x, hrest]
    · obtain ⟨v, hout⟩ := ht.refuse_value (F := F) (refused g.2 hfields.2.1 hd.1) hfirst
        hfields.1 (by omega) fields
      refine ⟨v, fun x rest => ?_⟩
      rw [toList_fields_false, List.cons_append, List.cons_append, hcomma x x,
        List.append_assoc, hout]

end

/-- A tree within the depth of the stack comes back from its text. -/
theorem parse_shallow (hj : Sound j) (hd : Doubles F j) (hdepth : depth j ≤ 32) :
    jsonTokenerParse F (toJsonString j).toList = some (.success, j) := by
  have hnew : Fresh {} [] := ⟨fun _ h => absurd h List.not_mem_nil, rfl, rfl⟩
  obtain ⟨t, ht, hrun⟩ := readable j hj hd hnew (by rw [List.length_nil]; omega) '\x00'
    (Or.inr (Or.inr rfl))
  have hend : parseLoop F t .null ['\x00'] = some (.success, t.setState .finish) := by
    rw [parse_saved ht.live ht.state (by decide) (by decide), ht.savedState]
    refine parseLoop_out ?_ []
    rw [switch, Tokener.setState_state]
    dsimp only
    rw [Tokener.setState_below, ht.below]
  rw [jsonTokenerParse, jsonTokenerParseEx, hrun .null .null, hend]
  show some (_, t.top.current) = _
  rw [ht.current]

/-- A deeper tree is refused. -/
theorem parse_deep (hj : Sound j) (hd : Doubles F j) (hdepth : 32 < depth j) :
    jsonTokenerParse F (toJsonString j).toList = some (.errorDepth, .null) := by
  have hnew : Fresh {} [] := ⟨fun _ h => absurd h List.not_mem_nil, rfl, rfl⟩
  obtain ⟨t, hout⟩ := refused j hj hd hnew (by rw [List.length_nil]; omega)
    (by rw [List.length_nil]; omega) '\x00' (Or.inr (Or.inr rfl))
  rw [jsonTokenerParse, jsonTokenerParseEx, hout]
  rfl

/-- A tree that is printed comes back from its text, unless it is deeper than the stack. -/
theorem parse_printed (hj : Sound j) (hd : Doubles F j) :
    jsonTokenerParse F (toJsonString j).toList =
      some (if depth j ≤ 32 then (.success, j) else (.errorDepth, .null)) := by
  by_cases hdepth : depth j ≤ 32
  · rw [if_pos hdepth]
    exact parse_shallow hj hd hdepth
  · rw [if_neg hdepth]
    exact parse_deep hj hd (by omega)

end Trees

section Samples

/-- A sscanf that reads one double. -/
def scanHalf (buf : Text) : Option (String × Int) :=
  if buf = "1.500000".toList then some ("1.500000", 1) else none

theorem readsBack_half : ReadsBack scanHalf "1.500000" 1 where
  chars c hc := of_decide_eq_true (List.all_eq_true.mp (show "1.500000".toList.all
    (fun c => decide (c ∈ jsonNumberChars)) = true by decide) c hc)
  first := ⟨'1', _, rfl, by decide⟩
  double := ⟨'.', by decide, Or.inl rfl⟩
  scanned := if_pos rfl

/-- A tree with a value of each kind. -/
def sampleTree : JsonObject :=
  .object [("o", .array [.int (-7), .double "1.500000" 1, .boolean true, .null]),
    ("a\n", .string "/")]

theorem parse_printed_sample : jsonTokenerParse scanHalf (toJsonString sampleTree).toList =
    some (.success, sampleTree) := by
  have h := parse_printed (F := scanHalf) (j := sampleTree)
    (by simp [sampleTree, Sound, SoundFields, SoundItems])
    (by simp [sampleTree, Doubles, DoublesFields, DoublesItems, readsBack_half])
  rwa [if_pos (by simp [sampleTree, depth, depthFields, depthItems])] at h

end Samples

end Rhodes.JsonTokener
