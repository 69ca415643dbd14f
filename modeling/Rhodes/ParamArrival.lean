import Mathlib.Data.List.Induction
import Rhodes.ParamBuilds

/-!
The values of a list of parameters reach the places that their keys name, unless brackets stand
behind brackets, a container stands in the place of a value, or a record that is being built gets a
container as a further field.
-/
namespace Rhodes.ParamArrival

open KeyGrammar PairParser ParamPlaces ParamBuilds

def scalar : Option Text → Val
  | none => .nil
  | some text => .str text

/-- The actions that are left when the container of the first step is on top. -/
def planIn : List Step → List Action
  | .sub name :: rest => planFrom name rest
  | [.item] => [.bind none]
  | .item :: .sub name :: rest => planFrom name rest
  | _ => []

theorem planFrom_cons (key : Text) (step : Step) (rest : List Step) :
    planFrom key (step :: rest) = .container key (klassOf step) :: planIn (step :: rest) := by
  rcases step with name | _
  · rfl
  · rcases rest with _ | ⟨_ | _, rest⟩ <;> rfl

section Steps

variable {s s' : State} {value : Option Text} {key : Text} {klass : Klass}

/-- @top is not replaced: it has no keys, or its parent is no array. -/
def Settled (s : State) : Prop :=
  ∀ indifferent fields, s.heap[s.top]? = some (.hash indifferent fields) → fields = ∅ ∨
    ∀ p ∈ s.parent, ∀ items, s.heap[p]? ≠ some (.array items)

theorem Settled.replaceTop_eq (h : Settled s) {indifferent : Bool} {fields : Fields}
    (htop : s.heap[s.top]? = some (.hash indifferent fields)) (key : Option Text) :
    replaceTop s fields key = s := by
  unfold replaceTop
  split
  · rfl
  · rename_i parent hparent
    split
    · rename_i items hitems
      rcases h _ _ htop with rfl | hno
      · rfl
      · exact absurd hitems (hno parent hparent items)
    · rfl

theorem isA_array {heap : Heap} {v : Val} (h : isA heap v .array = true) :
    ∃ r items, v = .ref r ∧ heap[r]? = some (.array items) := by
  cases v with
  | nil => cases h
  | str text => cases h
  | ref r =>
    rw [isA] at h
    split at h
    · exact ⟨r, _, rfl, ‹_›⟩
    · cases h

theorem isA_hash {heap : Heap} {v : Val} (h : isA heap v .hash = true) :
    ∃ r indifferent fields, v = .ref r ∧ heap[r]? = some (.hash indifferent fields) := by
  cases v with
  | nil => cases h
  | str text => cases h
  | ref r =>
    rw [isA] at h
    split at h
    · exact ⟨r, _, _, rfl, ‹_›⟩
    · cases h

theorem isA_blank {heap : Heap} {r : Nat} {indifferent : Bool}
    (h : heap[r]? = some (blank indifferent klass)) : isA heap (.ref r) klass = true := by
  cases klass <;> rw [isA, h] <;> rfl

theorem build_container (indifferent : Bool) (heap : Heap) : build indifferent heap
    (.container klass) = (heap ++ [blank indifferent klass], .ref heap.length) := by
  cases klass <;> rfl

/-- A container in a hash is the one that is there, or a new one. -/
theorem container_hash (hsettled : Settled s) {indifferent : Bool} {fields : Fields}
    (htop : s.heap[s.top]? = some (.hash indifferent fields))
    (h : container key klass s = .ok s') :
    (∃ r, fields.lookup (some key) = some (.ref r) ∧ isA s.heap (.ref r) klass = true ∧
      s' = ⟨s.heap, r, some s.top⟩) ∨
    (fields.lookup (some key) = none ∧
      s' = ⟨(s.heap ++ [blank indifferent klass]).set s.top
        (.hash indifferent (fields.insert (some key) (.ref s.heap.length))), s.heap.length,
        some s.top⟩) := by
  unfold container at h
  split at h
  · cases h
  rename_i hconflict
  simp only [conflicts, htop] at hconflict
  obtain ⟨⟨v, s₁⟩, hbind, hpush⟩ := bind_eq_ok h
  rw [PairParser.bind, htop] at hbind
  simp only [hsettled.replaceTop_eq htop, bindInHash, htop] at hbind
  cases hlookup : fields.lookup (some key) with
  | none =>
    refine .inr ⟨rfl, ?_⟩
    rw [hlookup] at hbind
    simp only [build_container] at hbind
    cases hbind
    simp only at hpush
    split at hpush
    · cases hpush
      rfl
    · cases hpush
  | some old =>
    rw [hlookup] at hbind hconflict
    cases old with
    | nil =>
      exact absurd (by cases klass <;> rfl) hconflict
    | str text =>
      exact absurd (by cases klass <;> rfl) hconflict
    | ref r =>
      cases hbind
      simp only at hpush
      split at hpush
      · rename_i hisA
        cases hpush
        exact .inl ⟨r, rfl, hisA, rfl⟩
      · cases hpush

/-- A container in an array goes into the last record, or into a new one. -/
theorem container_array {items : List Val} (htop : s.heap[s.top]? = some (.array items))
    (hflat : FlatIn s.heap (.array items)) (h : container key klass s = .ok s') :
    (∃ id fields, lastWithout s.heap items key = some (id, true, fields) ∧
      s' = ⟨(s.heap ++ [blank true klass, blank false klass]).set id
        (.hash true (fields.insert (some key) (.ref s.heap.length))), s.heap.length + 1,
        some s.top⟩) ∨
    (lastWithout s.heap items key = none ∧
      s' = ⟨(s.heap ++ [blank true klass,
        Obj.hash true (AList.singleton (some key) (.ref s.heap.length))]).set s.top
        (.array (items ++ [.ref (s.heap.length + 1)])), s.heap.length,
        some (s.heap.length + 1)⟩) := by
  unfold container at h
  split at h
  · cases h
  obtain ⟨⟨v, s₁⟩, hbind, hpush⟩ := bind_eq_ok h
  rw [PairParser.bind, htop] at hbind
  simp only [bindInArray] at hbind
  cases hlast : lastWithout s.heap items key with
  | none =>
    refine .inr ⟨rfl, ?_⟩
    rw [hlast] at hbind
    simp only [build_container, List.append_assoc, List.length_append, List.cons_append,
      List.nil_append, List.length_cons, List.length_nil] at hbind
    cases hbind
    simp only at hpush
    split at hpush
    · cases hpush
      rfl
    · cases hpush
  | some found =>
    obtain ⟨id, indifferent, fields⟩ := found
    obtain rfl := hflat.lastWithout hlast
    refine .inl ⟨id, fields, rfl, ?_⟩
    rw [hlast] at hbind
    simp only [build_container, if_true, List.append_assoc, List.length_append,
      List.length_singleton, List.cons_append, List.nil_append] at hbind
    cases hbind
    simp only at hpush
    split at hpush
    · cases hpush
      rfl
    · cases hpush

/-- The value of a pair in a hash. -/
theorem bind_hash (hsettled : Settled s) {indifferent : Bool} {fields : Fields}
    (htop : s.heap[s.top]? = some (.hash indifferent fields))
    (hscalar : ∀ v, fields.lookup (some key) = some v → ∃ r, v = .ref r)
    (h : perform value s (.bind (some key)) = .ok s') :
    (∃ r, fields.lookup (some key) = some (.ref r) ∧ s' = s) ∨
    (fields.lookup (some key) = none ∧ s'.heap = s.heap.set s.top
      (.hash indifferent (fields.insert (some key) (scalar value)))) := by
  obtain ⟨⟨v, s₁⟩, hbind, hs⟩ := bind_eq_ok h
  cases hs
  rw [PairParser.bind, htop] at hbind
  simp only [hsettled.replaceTop_eq htop, bindInHash, htop] at hbind
  cases hlookup : fields.lookup (some key) with
  | none =>
    rw [hlookup] at hbind
    refine .inr ⟨rfl, ?_⟩
    cases value <;> cases hbind <;> rfl
  | some old =>
    obtain ⟨r, rfl⟩ := hscalar old hlookup
    rw [hlookup] at hbind
    cases hbind
    exact .inl ⟨r, rfl, rfl⟩

/-- The value of a pair goes into the last record of an array, or into a new one. -/
theorem bind_array {items : List Val} (htop : s.heap[s.top]? = some (.array items))
    (hflat : FlatIn s.heap (.array items)) (h : perform value s (.bind (some key)) = .ok s') :
    (∃ id fields, lastWithout s.heap items key = some (id, true, fields) ∧
      s'.heap = s.heap.set id (.hash true (fields.insert (some key) (scalar value)))) ∨
    (lastWithout s.heap items key = none ∧
      s'.heap = (s.heap ++ [Obj.hash true (AList.singleton (some key) (scalar value))]).set s.top
        (.array (items ++ [.ref s.heap.length]))) := by
  obtain ⟨⟨v, s₁⟩, hbind, hs⟩ := bind_eq_ok h
  cases hs
  rw [PairParser.bind, htop] at hbind
  simp only [bindInArray] at hbind
  cases hlast : lastWithout s.heap items key with
  | none =>
    rw [hlast] at hbind
    refine .inr ⟨rfl, ?_⟩
    cases value <;> simp only [PairParser.valueOf, build, List.length_append,
      List.length_singleton, Nat.add_sub_cancel] at hbind <;> cases hbind <;> rfl
  | some found =>
    obtain ⟨id, indifferent, fields⟩ := found
    obtain rfl := hflat.lastWithout hlast
    rw [hlast] at hbind
    refine .inl ⟨id, fields, rfl, ?_⟩
    cases value <;> cases hbind <;> rfl

/-- The value of a pair as an item of an array. -/
theorem bind_item {items : List Val} (htop : s.heap[s.top]? = some (.array items))
    (h : perform value s (.bind none) = .ok s') :
    s'.heap = s.heap.set s.top (.array (items ++ [scalar value])) := by
  obtain ⟨⟨v, s₁⟩, hbind, hs⟩ := bind_eq_ok h
  cases hs
  rw [PairParser.bind, htop] at hbind
  cases value <;> cases hbind <;> rfl

end Steps

section Runs

variable {s s' : State} {value : Option Text}

/-- A new container has been pushed. -/
theorem settled_blank {heap : Heap} {top : Nat} {parent : Option Nat} {indifferent : Bool}
    {klass : Klass} (h : heap[top]? = some (blank indifferent klass)) :
    Settled ⟨heap, top, parent⟩ := by
  intro indifferent' fields htop
  rw [h] at htop
  cases klass <;> cases htop
  exact .inl rfl

/-- Every container that is pushed leads on by one of the rules. -/
theorem builds (steps : List Step) {step : Step} {rest : List Step} (hsteps : steps = step :: rest)
    (hflat : Flat s.heap) (hsettled : Settled s)
    (hisA : isA s.heap (.ref s.top) (klassOf step) = true) (hfree : ¬HoldsScalar s.heap s.top steps)
    (h : (planIn steps).foldlM (perform value) s = .ok s') :
    Builds (scalar value) s.heap s.top steps s'.heap := by
  induction hlength : steps.length using Nat.strong_induction_on generalizing s steps step rest with
  | _ n ih =>
    subst hsteps
    rcases step with name | _
    · obtain ⟨r, indifferent, fields, hr, htop⟩ := isA_hash hisA
      cases hr
      have hchild : child s.heap (.ref s.top) (.key name) = fields.lookup (some name) :=
        child_ref htop _
      rcases rest with _ | ⟨step, rest⟩
      · obtain ⟨s₁, hrun, hret⟩ := bind_eq_ok h
        cases hret
        have hscalar : ∀ v, fields.lookup (some name) = some v → ∃ r, v = .ref r := by
          intro v hv
          by_contra hnot
          exact hfree ⟨v, hchild.trans hv, fun r hr => hnot ⟨r, hr⟩⟩
        rcases bind_hash hsettled htop hscalar hrun with ⟨r, href, rfl⟩ | ⟨hnone, hheap⟩
        · exact .taken htop href
        · rw [hheap]
          exact .field htop hnone
      · have hplan : planIn (.sub name :: step :: rest) = _ := planFrom_cons name step rest
        rw [hplan] at h
        obtain ⟨s₁, hrun, hrest⟩ := bind_eq_ok h
        rcases container_hash hsettled htop hrun with ⟨r, href, hisA', rfl⟩ | ⟨hnone, rfl⟩
        · refine .child htop href (ih _ ?_ (s := ⟨s.heap, r, some s.top⟩) (step :: rest) rfl
            hflat ?_ hisA' ?_ hrest rfl)
          · rw [← hlength]
            exact Nat.lt_succ_self _
          · refine fun _ _ _ => .inr (fun p hp items hitems => ?_)
            cases hp
            rw [htop] at hitems
            cases hitems
          · exact fun hheld => hfree ⟨r, hchild.trans href, hheld⟩
        · have hnew := getElem?_appended [blank indifferent (klassOf step)]
            (.hash indifferent (fields.insert (some name) (.ref s.heap.length)))
            (List.getElem?_eq_some_iff.mp htop).1 0
          refine .grown htop hnone (ih _ ?_ (step :: rest) rfl ?_ (settled_blank hnew)
            (isA_blank hnew) (not_holdsScalar_blank hnew _) hrest rfl)
          · rw [← hlength]
            exact Nat.lt_succ_self _
          · refine hflat.insert _ htop hnone _ (fun o ho => ?_)
            exact ⟨_, _, List.mem_singleton.mp ho⟩
    · obtain ⟨r, items, hr, htop⟩ := isA_array hisA
      cases hr
      have hitems := hflat _ (List.mem_of_getElem? htop)
      have hlt := (List.getElem?_eq_some_iff.mp htop).1
      rcases rest with _ | ⟨_ | _, rest⟩
      · obtain ⟨s₁, hrun, hret⟩ := bind_eq_ok h
        cases hret
        rw [bind_item htop hrun]
        exact .item htop
      · rename_i name
        rcases rest with _ | ⟨step, rest⟩
        · obtain ⟨s₁, hrun, hret⟩ := bind_eq_ok h
          cases hret
          rcases bind_array htop hitems hrun with ⟨id, fields, hlast, hheap⟩ | ⟨hlast, hheap⟩
          · rw [hheap]
            exact .recordField htop hlast
          · rw [hheap]
            exact .newRecord htop hlast
        · have hplan : planIn (.item :: .sub name :: step :: rest) = _ :=
            planFrom_cons name step rest
          rw [hplan] at h
          obtain ⟨s₁, hrun, hrest⟩ := bind_eq_ok h
          have hless : (step :: rest).length < n := by
            rw [← hlength]
            exact Nat.lt_of_succ_lt (Nat.lt_succ_self _)
          rcases container_array htop hitems hrun with ⟨id, fields, hlast, rfl⟩ | ⟨hlast, rfl⟩
          · obtain ⟨-, hid, hnone⟩ := lastWithout_eq hlast
            have hnew := getElem?_appended
              [blank true (klassOf step), blank false (klassOf step)]
              (.hash true (fields.insert (some name) (.ref s.heap.length)))
              (List.getElem?_eq_some_iff.mp hid).1 1
            refine .orphan htop hlast (ih _ hless (step :: rest) rfl ?_ (settled_blank hnew)
              (isA_blank hnew) (not_holdsScalar_blank hnew _) hrest rfl)
            refine hflat.insert _ hid hnone _ (fun o ho => ?_)
            rcases List.mem_cons.mp ho with rfl | ho
            · exact ⟨_, _, rfl⟩
            · exact ⟨_, _, List.mem_singleton.mp ho⟩
          · have hnew := getElem?_appended [blank true (klassOf step),
                Obj.hash true (AList.singleton (some name) (.ref s.heap.length))]
              (.array (items ++ [.ref (s.heap.length + 1)])) hlt 0
            refine .record htop hlast (ih _ hless (step :: rest) rfl ?_ (settled_blank hnew)
              (isA_blank hnew) (not_holdsScalar_blank hnew _) hrest rfl)
            refine hflat.concat _ htop (fun o ho => ?_) (fun r hr => ?_)
            · rcases List.mem_cons.mp ho with rfl | ho
              · exact .inl ⟨_, _, rfl⟩
              · exact .inr ⟨_, List.mem_singleton.mp ho⟩
            · cases hr
              refine ⟨Nat.le_succ _, AList.singleton (some name) (.ref s.heap.length), ?_⟩
              rw [Nat.add_sub_cancel_left]
              rfl
      · cases h
        exact .stop htop hitems

end Runs

/-- A parameter whose key follows the grammar. -/
structure Param where
  name : Text
  steps : List Step
  value : Option Text
  isName : IsName name
  valid : ∀ step ∈ steps, step.Valid

def Param.pair (p : Param) : Pair := (keyText p.name p.steps, p.value)

def Param.path (p : Param) : List Step := .sub p.name :: p.steps

/-- Of the objects before each parameter and of those right behind it. -/
def AtEach (ps : List Param) (P : Heap → Param → Heap → Prop) : Prop :=
  ∀ before p after heap heap', ps = before ++ p :: after →
    parsePairs rubyScanner (before.map Param.pair) = .ok heap →
    parse rubyScanner heap p.pair = .ok heap' → P heap p heap'

/-- The list parses, and no two parameters have one slot of a hash for their values. -/
structure Parsed (ps : List Param) (final : Heap) : Prop where
  parses : parsePairs rubyScanner (ps.map Param.pair) = .ok final
  unshared : AtEach ps (fun heap p _ => ¬HoldsScalar heap 0 p.path)

/-- The place of the parameter, with the records as they are being built, holds its value and still
does so in the end. -/
def Arrives (heap final : Heap) (p : Param) : Prop :=
  let place := placeOf heap (.ref 0) p.path
  valueAt heap (.ref 0) place = some (scalar p.value) ∧
    valueAt final (.ref 0) place = some (scalar p.value)

section Params

variable {ps : List Param} {final : Heap}

theorem scalar_ne_ref (value : Option Text) (r : Nat) : scalar value ≠ .ref r := by
  cases value <;> nofun

theorem parsePairs_concat (before : List Param) (p : Param) :
    parsePairs rubyScanner ((before ++ [p]).map Param.pair) =
      (parsePairs rubyScanner (before.map Param.pair) >>= fun heap =>
        parse rubyScanner heap p.pair) := by
  rw [parsePairs, List.map_append, List.foldlM_append]
  simp only [List.map_cons, List.map_nil, List.foldlM_cons, List.foldlM_nil, bind_pure]
  rfl

theorem parse_builds {heap heap' : Heap} {p : Param} (hflat : Flat heap)
    (hroot : isA heap (.ref 0) .hash = true) (hfree : ¬HoldsScalar heap 0 p.path)
    (h : parse rubyScanner heap p.pair = .ok heap') :
    Builds (scalar p.value) heap 0 p.path heap' := by
  obtain ⟨s, hrun, hret⟩ := bind_eq_ok h
  cases hret
  rw [Param.pair, keyPlan_keyText p.isName p.valid] at hrun
  exact builds (s := ⟨heap, 0, none⟩) p.path rfl hflat (fun _ _ _ => .inr nofun) hroot hfree hrun

/-- The result stays a hash, and every item of an array a scalar or a record. -/
theorem Parsed.before (h : Parsed ps final) (before : List Param) {after : List Param} {heap : Heap}
    (hsplit : ps = before ++ after)
    (hparse : parsePairs rubyScanner (before.map Param.pair) = .ok heap) :
    Flat heap ∧ isA heap (.ref 0) .hash = true := by
  induction before using List.reverseRecOn generalizing after heap with
  | nil =>
    cases hparse
    refine ⟨fun o ho => ?_, rfl⟩
    rw [List.mem_singleton.mp ho]
    exact flatIn_hash
  | append_singleton before p ih =>
    rw [parsePairs_concat] at hparse
    obtain ⟨heap₀, hbefore, hstep⟩ := bind_eq_ok hparse
    rw [List.append_assoc, List.singleton_append] at hsplit
    obtain ⟨hflat, hroot⟩ := ih hsplit hbefore
    have hbuilds := parse_builds hflat hroot
      (h.unshared before p after heap₀ heap hsplit hbefore hstep) hstep
    refine ⟨hbuilds.flat (scalar_ne_ref _) hflat, ?_⟩
    obtain ⟨r, indifferent, fields, hr, hfields⟩ := isA_hash hroot
    cases hr
    obtain ⟨o, ho, hgrows⟩ := parse_grows hstep 0 _ hfields
    cases o with
    | array items => exact hgrows.elim
    | hash indifferent' fields' => rw [isA, ho]

theorem Parsed.builds (h : Parsed ps final) :
    AtEach ps (fun heap p heap' => Builds (scalar p.value) heap 0 p.path heap') := by
  intro before p after heap heap' hsplit hbefore hstep
  obtain ⟨hflat, hroot⟩ := h.before before hsplit hbefore
  exact parse_builds hflat hroot (h.unshared before p after heap heap' hsplit hbefore hstep) hstep

/-- What has been put into the result is there in the end. -/
theorem Parsed.kept (h : Parsed ps final) (after before : List Param) {heap : Heap}
    (hsplit : ps = before ++ after)
    (hbefore : parsePairs rubyScanner (before.map Param.pair) = .ok heap) : Kept heap final := by
  induction after generalizing before heap with
  | nil =>
    rw [List.append_nil] at hsplit
    subst hsplit
    cases hbefore.symm.trans h.parses
    exact Kept.refl _
  | cons p after ih =>
    have hall := h.parses
    rw [hsplit, List.map_append, parsePairs, List.foldlM_append] at hall
    rw [parsePairs] at hbefore
    rw [hbefore] at hall
    obtain ⟨heap₁, heq, hrest⟩ := bind_eq_ok hall
    cases heq
    obtain ⟨heap', hstep, -⟩ := bind_eq_ok hrest
    refine (h.builds before p after heap heap' hsplit hbefore hstep).kept.trans
      (ih (before ++ [p]) (by rw [hsplit, List.append_assoc]; rfl) ?_)
    rw [parsePairs_concat, parsePairs, hbefore]
    exact hstep

/-- One parameter arrives exactly if nothing is in its way. -/
theorem Parsed.arrives_iff (h : Parsed ps final) : AtEach ps (fun heap p heap' =>
    Arrives heap' final p ↔ Complete p.path ∧ Unblocked heap 0 p.path) := by
  intro before p after heap heap' hsplit hbefore hstep
  have hbuilds := h.builds before p after heap heap' hsplit hbefore hstep
  have hkept : Kept heap' final := by
    refine h.kept after (before ++ [p]) (by rw [hsplit, List.append_assoc]; rfl) ?_
    rw [parsePairs_concat, hbefore]
    exact hstep
  rw [← hbuilds.found_iff (scalar_ne_ref _)]
  exact ⟨fun harrives => harrives.1, fun hfound => ⟨hfound, hkept.valueAt hfound⟩⟩

/-- All parameters arrive exactly if nothing is in the way of any. -/
theorem params_arrive_iff (h : Parsed ps final) :
    AtEach ps (fun _ p heap' => Arrives heap' final p) ↔
      AtEach ps (fun heap p _ => Complete p.path ∧ Unblocked heap 0 p.path) := by
  constructor
  · intro harrive before p after heap heap' hsplit hbefore hstep
    exact (h.arrives_iff before p after heap heap' hsplit hbefore hstep).mp
      (harrive before p after heap heap' hsplit hbefore hstep)
  · intro hfree before p after heap heap' hsplit hbefore hstep
    exact (h.arrives_iff before p after heap heap' hsplit hbefore hstep).mpr
      (hfree before p after heap heap' hsplit hbefore hstep)

end Params

section Records

def fieldParam (steps : List Step) (value : Text) (h : ∀ step ∈ steps, step.Valid) : Param :=
  ⟨['a'], steps, some value, ⟨by decide, List.all_eq_true.mp (by decide)⟩, h⟩

theorem valid_sub {c : Char} (hc : isKeyChar c = true) : (Step.sub [c]).Valid :=
  ⟨List.cons_ne_nil _ _, fun d hd => by rwa [List.mem_singleton.mp hd]⟩

/-- `a[][c]=value`. -/
def recordField (c : Char) (hc : isKeyChar c = true) (value : Text) : Param :=
  fieldParam [.item, .sub [c]] value (by
    intro step hstep
    rcases List.mem_cons.mp hstep with rfl | hstep
    · exact trivial
    · rw [List.mem_singleton.mp hstep]
      exact valid_sub hc)

/-- a[][b]=1. -/
def firstField : Param := recordField 'b' (by decide) ['1']

/-- a[][c][d]=2. -/
def deepField : Param := fieldParam [.item, .sub ['c'], .sub ['d']] ['2'] (by
  intro step hstep
  rcases List.mem_cons.mp hstep with rfl | hstep
  · exact trivial
  rcases List.mem_cons.mp hstep with rfl | hstep
  · exact valid_sub (by decide)
  · rw [List.mem_singleton.mp hstep]
    exact valid_sub (by decide))

/-- Parameters of array records have no slot in common. -/
theorem parsed_records {ps : List Param} {final : Heap}
    (hitems : ∀ p ∈ ps, ∃ rest, p.steps = .item :: rest)
    (h : parsePairs rubyScanner (ps.map Param.pair) = .ok final) : Parsed ps final := by
  refine ⟨h, fun before p after heap heap' hsplit _ _ => ?_⟩
  have hmem : p ∈ ps := by
    rw [hsplit]
    exact List.mem_append_right _ List.mem_cons_self
  obtain ⟨rest, hrest⟩ := hitems p hmem
  show ¬HoldsScalar heap 0 (.sub p.name :: p.steps)
  rw [hrest]
  rintro ⟨r, -, hfalse⟩
  exact hfalse

/-- a[][b]=1, a[][c]=2 in the same record, and a[][b]=3 in a new one. -/
def twoRecords : List Param :=
  [firstField, recordField 'c' (by decide) ['2'], recordField 'b' (by decide) ['3']]

theorem params_arrive_iff_field : ∃ final, Parsed twoRecords final ∧
    AtEach twoRecords (fun _ p heap' => Arrives heap' final p) := by
  have hsteps : ∀ p ∈ twoRecords, ∃ c, p.steps = [.item, .sub [c]] := by
    simp only [twoRecords, List.forall_mem_cons]
    exact ⟨⟨_, rfl⟩, ⟨_, rfl⟩, ⟨_, rfl⟩, List.forall_mem_nil _⟩
  have hparsed : Parsed twoRecords _ := parsed_records (fun p hp => by
    obtain ⟨c, hc⟩ := hsteps p hp
    exact ⟨_, hc⟩) rfl
  refine ⟨_, hparsed, (params_arrive_iff hparsed).mpr ?_⟩
  intro before p after heap heap' hsplit _ _
  have hmem : p ∈ twoRecords := by
    rw [hsplit]
    exact List.mem_append_right _ List.mem_cons_self
  obtain ⟨c, hc⟩ := hsteps p hmem
  show Complete (.sub p.name :: p.steps) ∧ Unblocked heap 0 (.sub p.name :: p.steps)
  rw [hc]
  exact ⟨trivial, fun _ _ => trivial⟩

/-- The hash of a[][c] is filled outside of its record, which has a copy of it. -/
theorem deep_field_lost : ∃ final, Parsed [firstField, deepField] final ∧
    ¬AtEach [firstField, deepField] (fun _ p heap' => Arrives heap' final p) := by
  have hparsed : Parsed [firstField, deepField] _ := parsed_records (fun p hp => by
    rcases List.mem_cons.mp hp with rfl | hp
    · exact ⟨[.sub ['b']], rfl⟩
    · rw [List.mem_singleton.mp hp]
      exact ⟨[.sub ['c'], .sub ['d']], rfl⟩) rfl
  refine ⟨_, hparsed, fun harrive => ?_⟩
  obtain ⟨-, hfree⟩ := (hparsed.arrives_iff [firstField] deepField [] _ _ rfl rfl rfl).mp
    (harrive [firstField] deepField [] _ _ rfl rfl rfl)
  cases hfree 1 rfl

end Records

end Rhodes.ParamArrival
