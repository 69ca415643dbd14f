import Rhodes.PairGrowth
import Rhodes.ScannerPorts

/-!
The parameter parser fails only with a type conflict. Whatever the keys of the pairs are, @top and
@parent are objects of the result whenever an action begins, and a missing key is bound only where
@top is the array that its brackets have opened.
-/
namespace Rhodes.ParserSafety

open PairParser ScannerPorts

/-- @top is an array or a hash, and so is @parent once there is one. -/
structure Sound (s : State) : Prop where
  top : ∃ o, s.heap[s.top]? = some o
  parent : ∀ p, s.parent = some p → ∃ o, s.heap[p]? = some o

/-- An array is on top. -/
def ArrayOnTop (s : State) : Prop := ∃ items, s.heap[s.top]? = some (.array items)

/-- The actions bind a missing key only right behind the container of an array. -/
def Guarded (onArray : Prop) : List Action → Prop
  | [] => True
  | .container _ klass :: rest => Guarded (klass = .array) rest
  | .bind key :: rest => (key = none → onArray) ∧ Guarded False rest

theorem Grows.isSome {heap heap' : Heap} (h : Grows heap heap') {id : Nat}
    (hid : ∃ o, heap[id]? = some o) : ∃ o, heap'[id]? = some o := by
  obtain ⟨o, ho⟩ := hid
  obtain ⟨o', ho', -⟩ := h id o ho
  exact ⟨o', ho'⟩

section Bind

variable {s s' : State} {value : Fresh} {v : Val}

/-- A new record becomes @top, and the array its parent. -/
theorem bindInArray_sound {items : List Val} (h : Sound s)
    (hs : s.heap[s.top]? = some (.array items)) (key : Text) :
    Sound (bindInArray s items key value).2 := by
  have hgrows := bindInArray_grows hs key value
  unfold bindInArray at hgrows ⊢
  split
  · rename_i id indifferent fields hlast
    rw [hlast] at hgrows
    exact ⟨Grows.isSome hgrows h.top, fun p hp => Grows.isSome hgrows (h.parent p hp)⟩
  · rename_i hlast
    rw [hlast] at hgrows
    refine ⟨⟨_, List.getElem?_eq_getElem (by simp)⟩, fun p hp => ?_⟩
    cases hp
    exact Grows.isSome hgrows h.top

/-- @top stays a hash when it is replaced by a new one. -/
theorem replaceTop_hash {indifferent : Bool} {fields : Fields}
    (hs : s.heap[s.top]? = some (.hash indifferent fields)) (key : Option Text) :
    ∃ indifferent' fields', (replaceTop s fields key).heap[(replaceTop s fields key).top]? =
      some (.hash indifferent' fields') := by
  unfold replaceTop
  split
  · exact ⟨_, _, hs⟩
  · rename_i parent hparent
    split
    · rename_i items hitems
      split
      · obtain ⟨hlt, -⟩ := List.getElem?_eq_some_iff.mp hitems
        refine ⟨false, ∅, ?_⟩
        show ((s.heap ++ [Obj.hash false ∅]).set parent _)[s.heap.length]? = _
        rw [List.getElem?_set_ne (Nat.ne_of_lt hlt), List.getElem?_append_right (Nat.le_refl _),
          Nat.sub_self]
        rfl
      · exact ⟨_, _, hs⟩
    · exact ⟨_, _, hs⟩

theorem replaceTop_parent (s : State) (fields : Fields) (key : Option Text) :
    (replaceTop s fields key).parent = s.parent := by
  unfold replaceTop
  split
  · rfl
  · split
    · split <;> rfl
    · rfl

/-- In a hash, bind returns and leaves @top and @parent. -/
theorem bindInHash_ok {indifferent : Bool} {fields : Fields}
    (hs : s.heap[s.top]? = some (.hash indifferent fields)) (key : Option Text) (value : Fresh) :
    ∃ v s', bindInHash s key value = .ok (v, s') ∧ s'.top = s.top ∧ s'.parent = s.parent := by
  unfold bindInHash
  rw [hs]
  simp only
  split
  · exact ⟨_, _, rfl, rfl, rfl⟩
  · exact ⟨_, _, rfl, rfl, rfl⟩
  · exact ⟨_, _, rfl, rfl, rfl⟩

/-- bind never comes to its last branch, and what it leaves is sound. -/
theorem bind_sound (h : Sound s) (key : Option Text) (value : Fresh) :
    ∃ v s', PairParser.bind key value s = .ok (v, s') ∧ Sound s' := by
  obtain ⟨o, ho⟩ := h.top
  cases o with
  | array items =>
    cases key with
    | some key =>
      have hbind : PairParser.bind (some key) value s = .ok (bindInArray s items key value) := by
        rw [PairParser.bind, ho]
      exact ⟨_, _, hbind, bindInArray_sound h ho key⟩
    | none =>
      let stored := build false s.heap value
      have hbind : PairParser.bind none value s = .ok (stored.2,
          ⟨stored.1.set s.top (.array (items ++ [stored.2])), s.top, s.parent⟩) := by
        rw [PairParser.bind, ho]
      have hgrows := bind_grows hbind
      exact ⟨_, _, hbind, Grows.isSome hgrows h.top,
        fun p hp => Grows.isSome hgrows (h.parent p hp)⟩
  | hash indifferent fields =>
    obtain ⟨indifferent', fields', htop⟩ := replaceTop_hash ho key
    obtain ⟨v, s', hhash, htop', hparent'⟩ := bindInHash_ok htop key value
    have hbind : PairParser.bind key value s = .ok (v, s') := by
      rw [PairParser.bind, ho]
      exact hhash
    refine ⟨v, s', hbind, ?_, fun p hp => ?_⟩
    · rw [htop']
      exact Grows.isSome (bindInHash_grows hhash) ⟨_, htop⟩
    · rw [hparent', replaceTop_parent] at hp
      exact Grows.isSome (bind_grows hbind) (h.parent p hp)

end Bind

section Actions

variable {s s' : State}

/-- A container is pushed where it has its class; otherwise its key is in conflict. -/
theorem container_sound (h : Sound s) (key : Text) (klass : Klass) :
    container key klass s = .error .typeConflict ∨
    ∃ s', container key klass s = .ok s' ∧ Sound s' ∧ (klass = .array → ArrayOnTop s') := by
  unfold container
  split
  · exact .inl rfl
  · obtain ⟨v, s₁, hbind, hsound⟩ := bind_sound h (some key) (.container klass)
    rw [hbind]
    cases v with
    | nil => exact .inl rfl
    | str text => exact .inl rfl
    | ref id =>
      simp only [Bind.bind, Except.bind]
      split
      · rename_i hisA
        refine .inr ⟨_, rfl, ⟨?_, fun p hp => ?_⟩, fun hklass => ?_⟩
        · cases klass <;> simp only [isA] at hisA <;> split at hisA
          · rename_i items hitems
            exact ⟨_, hitems⟩
          · cases hisA
          · rename_i indifferent fields hfields
            exact ⟨_, hfields⟩
          · cases hisA
        · cases hp
          exact hsound.top
        · subst hklass
          simp only [isA] at hisA
          split at hisA
          · rename_i items hitems
            exact ⟨items, hitems⟩
          · cases hisA
      · exact .inl rfl

/-- One action: a conflict, or a sound state from which the next one may go on. -/
theorem perform_sound {value : Option Text} {onArray : Prop} {action : Action}
    {rest : List Action} (h : Sound s) (hguard : Guarded onArray (action :: rest)) :
    perform value s action = .error .typeConflict ∨
    ∃ s' onArray', perform value s action = .ok s' ∧ Sound s' ∧ Guarded onArray' rest ∧
      (onArray' → ArrayOnTop s') := by
  cases action with
  | container key klass =>
    rcases container_sound h key klass with herror | ⟨s', hok, hsound, harray⟩
    · exact .inl herror
    · exact .inr ⟨s', klass = .array, hok, hsound, hguard, harray⟩
  | bind key =>
    obtain ⟨v, s', hbind, hsound⟩ := bind_sound h key (PairParser.valueOf value)
    refine .inr ⟨s', False, ?_, hsound, hguard.2, False.elim⟩
    show (PairParser.bind key (PairParser.valueOf value) s >>= fun r => .ok r.2) = _
    rw [hbind]
    rfl

/-- All actions of a key. -/
theorem performAll_sound {value : Option Text} {actions : List Action} {onArray : Prop}
    (h : Sound s) (hguard : Guarded onArray actions) (harray : onArray → ArrayOnTop s) :
    (actions.foldlM (perform value) s = .error .typeConflict ∨
      ∃ s', actions.foldlM (perform value) s = .ok s' ∧ Sound s') ∧
    ∀ done rest s', actions = done ++ rest → done.foldlM (perform value) s = .ok s' →
      Sound s' ∧ (rest.head? = some (.bind none) → ArrayOnTop s') := by
  induction actions generalizing s onArray with
  | nil =>
    refine ⟨.inr ⟨s, rfl, h⟩, fun done rest s' hsplit hdone => ?_⟩
    obtain ⟨rfl, rfl⟩ := List.append_eq_nil_iff.mp hsplit.symm
    cases hdone
    exact ⟨h, nofun⟩
  | cons action actions ih =>
    have hfirst : ∀ rest, action :: actions = rest →
        rest.head? = some (.bind none) → ArrayOnTop s := by
      rintro rest rfl hhead
      cases action with
      | container key klass => cases hhead
      | bind key =>
        cases hhead
        exact harray (hguard.1 rfl)
    rcases perform_sound h hguard with
      herror | ⟨s₁, onArray', hok, hsound, hguard', harray'⟩
    · refine ⟨.inl ?_, fun done rest s' hsplit hdone => ?_⟩
      · rw [List.foldlM_cons, herror]
        rfl
      · cases done with
        | nil =>
          cases hdone
          exact ⟨h, hfirst rest hsplit⟩
        | cons a done =>
          obtain ⟨rfl, -⟩ := List.cons.inj hsplit
          rw [List.foldlM_cons, herror] at hdone
          cases hdone
    · obtain ⟨hall, hprefixes⟩ := ih hsound hguard' harray'
      refine ⟨?_, fun done rest s' hsplit hdone => ?_⟩
      · rw [List.foldlM_cons, hok]
        exact hall
      · cases done with
        | nil =>
          cases hdone
          exact ⟨h, hfirst rest hsplit⟩
        | cons a done =>
          obtain ⟨rfl, hrest⟩ := List.cons.inj hsplit
          rw [List.foldlM_cons, hok] at hdone
          exact hprefixes done rest s' hrest hdone

end Actions

section Keys

variable {s : Text} {pos : Nat}

theorem openBracket_lt {m : Match} (h : rubyScanner openBracket s pos = some m) :
    pos < s.length := by
  by_contra hge
  have hnil : s.drop pos = [] := List.drop_eq_nil_of_le (Nat.le_of_not_lt hge)
  simp [rubyScanner, openBracket, Regexp.ofRest, hnil, openBracketRest] at h

/-- A check that leaves no key has opened an array, or stands before another group. -/
theorem guarded_postKeyCheck {key : Text} {rest : List Action} {onArray : Prop}
    (hrest : ∀ onArray : Prop, ((postKeyCheck rubyScanner s key pos).key = none →
      onArray ∨ (postKeyCheck rubyScanner s key pos).pos < s.length) → Guarded onArray rest) :
    Guarded onArray ((postKeyCheck rubyScanner s key pos).actions ++ rest) := by
  unfold postKeyCheck at hrest ⊢
  cases hbrackets : rubyScanner brackets s pos with
  | some m =>
    rw [hbrackets] at hrest
    exact hrest _ (fun _ => .inl rfl)
  | none =>
    rw [hbrackets] at hrest
    cases hopen : rubyScanner openBracket s pos with
    | some m =>
      rw [hopen] at hrest
      exact hrest _ (fun _ => .inr (openBracket_lt hopen))
    | none =>
      rw [hopen] at hrest
      exact hrest _ nofun

theorem guarded_nestings (turns : Nat) {key : Option Text} {onArray : Prop}
    (h : key = none → onArray ∨ pos < s.length) :
    Guarded onArray (nestings rubyScanner s turns key pos).actions := by
  induction turns generalizing key pos onArray with
  | zero => trivial
  | succ turns ih =>
    unfold nestings
    split
    · rename_i hend
      exact ⟨fun hkey => (h hkey).resolve_right (Nat.not_lt.mpr hend), trivial⟩
    · split
      · trivial
      · exact guarded_postKeyCheck (fun onArray' hkey => ih hkey)

theorem guarded_keyPlan : Guarded False (keyPlan rubyScanner s).actions := by
  unfold keyPlan
  split
  · trivial
  · exact guarded_postKeyCheck (fun onArray' hkey => guarded_nestings _ hkey)

end Keys

/-- The result is a hash, and the first object. -/
def ResultHash (heap : Heap) : Prop :=
  ∃ indifferent fields, heap[0]? = some (.hash indifferent fields)

theorem ResultHash.grows {heap heap' : Heap} (h : ResultHash heap) (hgrows : Grows heap heap') :
    ResultHash heap' := by
  obtain ⟨indifferent, fields, hhash⟩ := h
  obtain ⟨o', ho', hto⟩ := hgrows _ _ hhash
  cases o' with
  | array items => exact hto.elim
  | hash indifferent' fields' => exact ⟨_, _, ho'⟩

theorem ResultHash.sound {heap : Heap} (h : ResultHash heap) : Sound ⟨heap, 0, none⟩ := by
  obtain ⟨indifferent, fields, hhash⟩ := h
  exact ⟨⟨_, hhash⟩, nofun⟩

/-- A key of any form: a conflict, or another result. -/
theorem parse_safe {heap : Heap} (h : ResultHash heap) (pair : Pair) :
    parse rubyScanner heap pair = .error .typeConflict ∨
    ∃ heap', parse rubyScanner heap pair = .ok heap' ∧ ResultHash heap' := by
  rcases (performAll_sound h.sound guarded_keyPlan False.elim).1 with
    herror | ⟨s', hok, -⟩
  · left
    rw [parse, herror]
    rfl
  · have hparse : parse rubyScanner heap pair = .ok s'.heap := by
      rw [parse, hok]
      rfl
    exact .inr ⟨s'.heap, hparse, h.grows (parse_grows hparse)⟩

theorem parsePairs_safe (pairs : List Pair) {heap : Heap} (h : ResultHash heap) :
    pairs.foldlM (parse rubyScanner) heap = .error .typeConflict ∨
    ∃ heap', pairs.foldlM (parse rubyScanner) heap = .ok heap' ∧ ResultHash heap' := by
  induction pairs generalizing heap with
  | nil => exact .inr ⟨heap, rfl, h⟩
  | cons pair pairs ih =>
    rcases parse_safe h pair with herror | ⟨heap₁, hok, hresult⟩
    · left
      rw [List.foldlM_cons, herror]
      rfl
    · rw [List.foldlM_cons, hok]
      exact ih hresult

/-- A state between two actions of some pair, and the actions that follow. -/
def Reached (pairs : List Pair) (s : State) (rest : List Action) : Prop :=
  ∃ before pair after heap done, pairs = before ++ pair :: after ∧
    parsePairs rubyScanner before = .ok heap ∧
    (keyPlan rubyScanner pair.1).actions = done ++ rest ∧
    done.foldlM (perform pair.2) ⟨heap, 0, none⟩ = .ok s

/-- Every query is parsed to a hash or fails with a type conflict; the loop over a key ends within
the length of it; between the actions @top and @parent are arrays or hashes, and where a missing
key is bound, @top is an array. -/
theorem parse_fails_with_conflict (query : Text) :
    (parseQueryParameters rubyScanner query = .error .typeConflict ∨
      ∃ heap, parseQueryParameters rubyScanner query = .ok heap ∧ ResultHash heap) ∧
    (∀ (text : Text) more key pos, nestings rubyScanner text (text.length + 1 + more) key pos =
      nestings rubyScanner text (text.length + 1) key pos) ∧
    ∀ s rest, Reached ((query.splitOn '&').filterMap pairOf) s rest →
      Sound s ∧ (rest.head? = some (.bind none) → ArrayOnTop s) := by
  have hstart : ResultHash [.hash false ∅] := ⟨_, _, rfl⟩
  refine ⟨parsePairs_safe _ hstart, fun text more key pos => ?_, ?_⟩
  · exact nestings_turns goesOn_rubyScanner _ more key (by omega) (Nat.succ_pos _)
  · rintro s rest ⟨before, pair, after, heap, done, -, hbefore, hactions, hdone⟩
    rcases parsePairs_safe before hstart with herror | ⟨heap', hok, hresult⟩
    · rw [parsePairs, herror] at hbefore
      cases hbefore
    · rw [parsePairs, hok] at hbefore
      cases hbefore
      exact (performAll_sound hresult.sound guarded_keyPlan False.elim).2 done rest s hactions hdone

end Rhodes.ParserSafety
