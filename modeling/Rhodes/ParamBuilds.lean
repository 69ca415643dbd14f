import Rhodes.ParamPlaces

/-!
What the actions of a key do to the objects, one rule for each way to take a step. A container that
is new is empty, so only the objects that are there before a pair decide which of the rules apply.
-/
namespace Rhodes.ParamBuilds

open KeyGrammar PairParser ParamPlaces

/-- The class of the container that a step goes into. -/
def klassOf : Step → Klass
  | .sub _ => .hash
  | .item => .array

/-- Every item of an array is a scalar or a record. -/
def FlatIn (heap : Heap) (o : Obj) : Prop :=
  ∀ items, o = .array items → ∀ r, .ref r ∈ items → ∃ fields, heap[r]? = some (.hash true fields)

def Flat (heap : Heap) : Prop := ∀ o ∈ heap, FlatIn heap o

/-- From a container on top the actions that are left lead to other objects. -/
inductive Builds (value : Val) : Heap → Nat → List Step → Heap → Prop where
  | field {heap top indifferent fields name} (htop : heap[top]? = some (.hash indifferent fields))
      (hnone : fields.lookup (some name) = none) :
      Builds value heap top [.sub name]
        (heap.set top (.hash indifferent (fields.insert (some name) value)))
  /-- `top[key] ||= value` with a container in the place of the value. -/
  | taken {heap top indifferent fields name h} (htop : heap[top]? = some (.hash indifferent fields))
      (href : fields.lookup (some name) = some (.ref h)) : Builds value heap top [.sub name] heap
  | child {heap top indifferent fields name h step rest heap'}
      (htop : heap[top]? = some (.hash indifferent fields))
      (href : fields.lookup (some name) = some (.ref h))
      (hrest : Builds value heap h (step :: rest) heap') :
      Builds value heap top (.sub name :: step :: rest) heap'
  | grown {heap top indifferent fields name step rest heap'}
      (htop : heap[top]? = some (.hash indifferent fields))
      (hnone : fields.lookup (some name) = none)
      (hrest : Builds value ((heap ++ [blank indifferent (klassOf step)]).set top
        (.hash indifferent (fields.insert (some name) (.ref heap.length)))) heap.length
        (step :: rest) heap') :
      Builds value heap top (.sub name :: step :: rest) heap'
  | item {heap top items} (htop : heap[top]? = some (.array items)) :
      Builds value heap top [.item] (heap.set top (.array (items ++ [value])))
  | recordField {heap top items name id fields} (htop : heap[top]? = some (.array items))
      (hlast : lastWithout heap items name = some (id, true, fields)) :
      Builds value heap top [.item, .sub name]
        (heap.set id (.hash true (fields.insert (some name) value)))
  | newRecord {heap top items name} (htop : heap[top]? = some (.array items))
      (hlast : lastWithout heap items name = none) :
      Builds value heap top [.item, .sub name]
        ((heap ++ [Obj.hash true (AList.singleton (some name) value)]).set top
          (.array (items ++ [.ref heap.length])))
  /-- The record stores a copy of the container, and the container itself is filled. -/
  | orphan {heap top items name id fields step rest heap'} (htop : heap[top]? = some (.array items))
      (hlast : lastWithout heap items name = some (id, true, fields))
      (hrest : Builds value ((heap ++ [blank true (klassOf step), blank false (klassOf step)]).set
        id (.hash true (fields.insert (some name) (.ref heap.length)))) (heap.length + 1)
        (step :: rest) heap') :
      Builds value heap top (.item :: .sub name :: step :: rest) heap'
  | record {heap top items name step rest heap'} (htop : heap[top]? = some (.array items))
      (hlast : lastWithout heap items name = none)
      (hrest : Builds value ((heap ++ [blank true (klassOf step),
        Obj.hash true (AList.singleton (some name) (.ref heap.length))]).set top
        (.array (items ++ [.ref (heap.length + 1)]))) heap.length (step :: rest) heap') :
      Builds value heap top (.item :: .sub name :: step :: rest) heap'
  | stop {heap top items rest} (htop : heap[top]? = some (.array items))
      (hflat : FlatIn heap (.array items)) : Builds value heap top (.item :: .item :: rest) heap

section Last

variable {heap : Heap} {items : List Val} {name : Text}

/-- The last record of an array that lacks a key. -/
theorem lastWithout_eq {id : Nat} {indifferent : Bool} {fields : Fields}
    (h : lastWithout heap items name = some (id, indifferent, fields)) :
    (∃ front, items = front ++ [.ref id]) ∧ heap[id]? = some (.hash indifferent fields) ∧
      fields.lookup (some name) = none := by
  unfold lastWithout at h
  split at h
  · rename_i r hlast
    split at h
    · rename_i hheap
      split at h
      · cases h
      · rename_i hnone
        cases h
        refine ⟨?_, hheap, by simpa using hnone⟩
        have hne : items ≠ [] := by
          rintro rfl
          cases hlast
        rw [List.getLast?_eq_some_getLast hne] at hlast
        exact ⟨items.dropLast, by
          rw [← Option.some.inj hlast, List.dropLast_append_getLast]⟩
    · cases h
  · cases h

theorem FlatIn.lastWithout (h : FlatIn heap (.array items)) {id : Nat} {indifferent : Bool}
    {fields : Fields} (hlast : PairParser.lastWithout heap items name =
      some (id, indifferent, fields)) : indifferent = true := by
  obtain ⟨⟨front, rfl⟩, hheap, -⟩ := lastWithout_eq hlast
  obtain ⟨fields', hfields⟩ := h _ rfl id (List.mem_append_right _ (List.mem_singleton_self _))
  rw [hheap] at hfields
  cases hfields
  rfl

end Last

section Flat

variable {heap heap' more : Heap} {id : Nat} {o o' : Obj}

theorem FlatIn.grows (hgrows : Grows heap heap') (h : FlatIn heap o) : FlatIn heap' o := by
  intro items ho r hr
  obtain ⟨fields, hfields⟩ := h items ho r hr
  obtain ⟨o', ho', hto⟩ := hgrows r _ hfields
  cases o' with
  | array items' => exact hto.elim
  | hash indifferent fields' => exact ⟨fields', hto.1 ▸ ho'⟩

theorem flatIn_hash {indifferent : Bool} {fields : Fields} :
    FlatIn heap (.hash indifferent fields) := nofun

theorem flatIn_blank (indifferent : Bool) (klass : Klass) :
    FlatIn heap (blank indifferent klass) := by
  cases klass with
  | hash => exact flatIn_hash
  | array =>
    intro items hitems r hr
    cases hitems
    cases hr

/-- Objects are appended, and one of the old ones is replaced. -/
theorem Flat.edit (h : Flat heap) (hgrows : Grows heap ((heap ++ more).set id o'))
    (hmore : ∀ o ∈ more, FlatIn ((heap ++ more).set id o') o)
    (ho' : FlatIn ((heap ++ more).set id o') o') : Flat ((heap ++ more).set id o') := by
  intro o ho
  rcases List.mem_or_eq_of_mem_set ho with hmem | rfl
  · rcases List.mem_append.mp hmem with hold | hnew
    · exact FlatIn.grows hgrows (h o hold)
    · exact hmore o hnew
  · exact ho'

theorem Flat.insert (h : Flat heap) (more : Heap) {indifferent : Bool} {fields : Fields}
    {name : Text} (ho : heap[id]? = some (.hash indifferent fields))
    (hnone : fields.lookup (some name) = none) (value : Val)
    (hmore : ∀ o ∈ more, ∃ indifferent klass, o = blank indifferent klass) :
    Flat ((heap ++ more).set id (.hash indifferent (fields.insert (some name) value))) := by
  refine h.edit (grows_append_set ho (growsTo_insert _ (fun v hv => ?_)) more) (fun o hmem => ?_)
    flatIn_hash
  · rw [hnone] at hv
    cases hv
  · obtain ⟨indifferent', klass, rfl⟩ := hmore o hmem
    exact flatIn_blank _ _

/-- A scalar or a new record is appended to an array. -/
theorem Flat.concat (h : Flat heap) (more : Heap) {items : List Val}
    (ho : heap[id]? = some (.array items)) {value : Val}
    (hmore : ∀ o ∈ more, (∃ indifferent klass, o = blank indifferent klass) ∨
      ∃ fields, o = .hash true fields)
    (hvalue : ∀ r, value = .ref r → heap.length ≤ r ∧
      ∃ fields, more[r - heap.length]? = some (.hash true fields)) :
    Flat ((heap ++ more).set id (.array (items ++ [value]))) := by
  have hgrows := grows_append_set ho (growsTo_append items [value]) more
  refine h.edit hgrows (fun o hmem => ?_) (fun items' hitems r hr => ?_)
  · rcases hmore o hmem with ⟨indifferent, klass, rfl⟩ | ⟨fields, rfl⟩
    · exact flatIn_blank _ _
    · exact flatIn_hash
  · cases hitems
    rcases List.mem_append.mp hr with hold | hnew
    · exact FlatIn.grows hgrows (h _ (List.mem_of_getElem? ho)) _ rfl r hold
    · obtain ⟨hge, fields, hfields⟩ := hvalue r (List.mem_singleton.mp hnew).symm
      have hne : id ≠ r := by
        have hlt := (List.getElem?_eq_some_iff.mp ho).1
        omega
      rw [List.getElem?_set_ne hne, List.getElem?_append_right hge]
      exact ⟨fields, hfields⟩

end Flat

section Builds

variable {value : Val} {heap heap' : Heap} {top : Nat} {steps : List Step}

theorem lt_of_some {id : Nat} {o : Obj} (h : heap[id]? = some o) : id < heap.length :=
  (List.getElem?_eq_some_iff.mp h).1

/-- Another object than the one that is replaced. -/
theorem getElem?_other {id r : Nat} {o o' : Obj} (more : Heap) (ho : heap[r]? = some o)
    (hne : id ≠ r) : ((heap ++ more).set id o')[r]? = some o := by
  rw [List.getElem?_set_ne hne]
  exact getElem?_append_of_some ho more

theorem getElem?_replaced {id : Nat} {o : Obj} (more : Heap) (ho : heap[id]? = some o) (o' : Obj) :
    ((heap ++ more).set id o')[id]? = some o' :=
  List.getElem?_set_self (lt_of_some (getElem?_append_of_some ho more))

theorem Builds.flat (h : Builds value heap top steps heap') (hvalue : ∀ r, value ≠ .ref r)
    (hflat : Flat heap) : Flat heap' := by
  induction h with
  | field htop hnone =>
    have hinsert := hflat.insert [] htop hnone value nofun
    rwa [List.append_nil] at hinsert
  | taken htop href => exact hflat
  | child htop href hrest ih => exact ih hflat
  | grown htop hnone hrest ih =>
    exact ih (hflat.insert _ htop hnone _ (fun o ho => ⟨_, _, List.mem_singleton.mp ho⟩))
  | item htop =>
    have hconcat := hflat.concat [] htop nofun (fun r hr => absurd hr (hvalue r))
    rwa [List.append_nil] at hconcat
  | recordField htop hlast =>
    obtain ⟨-, hid, hnone⟩ := lastWithout_eq hlast
    have hinsert := hflat.insert [] hid hnone value nofun
    rwa [List.append_nil] at hinsert
  | newRecord htop hlast =>
    refine hflat.concat _ htop (fun o ho => .inr ⟨_, List.mem_singleton.mp ho⟩) (fun r hr => ?_)
    cases hr
    exact ⟨Nat.le_refl _, _, by rw [Nat.sub_self]; rfl⟩
  | orphan htop hlast hrest ih =>
    obtain ⟨-, hid, hnone⟩ := lastWithout_eq hlast
    refine ih (hflat.insert _ hid hnone _ (fun o ho => ?_))
    rcases List.mem_cons.mp ho with rfl | ho
    · exact ⟨_, _, rfl⟩
    · exact ⟨_, _, List.mem_singleton.mp ho⟩
  | record htop hlast hrest ih =>
    refine ih (hflat.concat _ htop (fun o ho => ?_) (fun r hr => ?_))
    · rcases List.mem_cons.mp ho with rfl | ho
      · exact .inl ⟨_, _, rfl⟩
      · exact .inr ⟨_, List.mem_singleton.mp ho⟩
    · cases hr
      exact ⟨Nat.le_succ _, _, by rw [Nat.add_sub_cancel_left]; rfl⟩
  | stop htop hitems => exact hflat

/-- Nothing is taken from an object or overwritten there. -/
theorem Builds.kept (h : Builds value heap top steps heap') : Kept heap heap' := by
  induction h with
  | field htop hnone =>
    have hkept := kept_append_set htop (kept_insert hnone value) []
    rwa [List.append_nil] at hkept
  | taken htop href => exact Kept.refl _
  | child htop href hrest ih => exact ih
  | grown htop hnone hrest ih => exact (kept_append_set htop (kept_insert hnone _) _).trans ih
  | item htop =>
    have hkept := kept_append_set htop (kept_concat value) []
    rwa [List.append_nil] at hkept
  | recordField htop hlast =>
    obtain ⟨-, hid, hnone⟩ := lastWithout_eq hlast
    have hkept := kept_append_set hid (kept_insert hnone value) []
    rwa [List.append_nil] at hkept
  | newRecord htop hlast => exact kept_append_set htop (kept_concat _) _
  | orphan htop hlast hrest ih =>
    obtain ⟨-, hid, hnone⟩ := lastWithout_eq hlast
    exact (kept_append_set hid (kept_insert hnone _) _).trans ih
  | record htop hlast hrest ih => exact (kept_append_set htop (kept_concat _) _).trans ih
  | stop htop hitems => exact Kept.refl _

/-- From a new container on, the objects that were there before stay as they are. -/
theorem Builds.frame (h : Builds value heap top steps heap') {indifferent : Bool} {klass : Klass}
    (hblank : heap[top]? = some (blank indifferent klass)) {r : Nat} {o : Obj}
    (ho : heap[r]? = some o) (hne : r ≠ top) : heap'[r]? = some o := by
  induction h generalizing indifferent klass o with
  | field htop hnone => rw [List.getElem?_set_ne hne.symm, ho]
  | taken htop href => exact ho
  | child htop href hrest ih =>
    rw [hblank] at htop
    cases klass <;> cases htop
    cases href
  | grown htop hnone hrest ih =>
    refine ih (getElem?_appended _ _ (lt_of_some htop) 0) ?_ (Nat.ne_of_lt (lt_of_some ho))
    exact getElem?_other _ ho hne.symm
  | item htop => rw [List.getElem?_set_ne hne.symm, ho]
  | recordField htop hlast =>
    rw [hblank] at htop
    cases klass <;> cases htop
    cases hlast
  | newRecord htop hlast => exact getElem?_other _ ho hne.symm
  | orphan htop hlast hrest ih =>
    rw [hblank] at htop
    cases klass <;> cases htop
    cases hlast
  | record htop hlast hrest ih =>
    refine ih (getElem?_appended _ _ (lt_of_some htop) 0) ?_ (Nat.ne_of_lt (lt_of_some ho))
    exact getElem?_other _ ho hne.symm
  | stop htop hitems => exact ho

/-- Brackets behind brackets lead nowhere, as no item of an array is an array. -/
theorem not_found_items {items : List Val} (htop : heap[top]? = some (.array items))
    (hitems : FlatIn heap (.array items)) {rest : List Step} {w : Val} :
    ¬Found heap (.ref top) (.item :: .item :: rest) w := by
  rw [found_cons]
  rintro ⟨next, hnext, hfound⟩
  rw [indexOf, child_ref htop] at hnext
  have hmem : next ∈ items := List.mem_of_getElem? hnext
  obtain ⟨inner, hinner, -⟩ := found_cons.mp hfound
  cases next with
  | nil => cases hinner
  | str text => cases hinner
  | ref r =>
    obtain ⟨fields, hfields⟩ := hitems items rfl r hmem
    rw [indexOf, child_ref hfields] at hinner
    cases hinner

theorem array_ne {id : Nat} {items : List Val} {indifferent : Bool} {fields : Fields}
    (htop : heap[top]? = some (.array items)) (hid : heap[id]? = some (.hash indifferent fields)) :
    top ≠ id := by
  rintro rfl
  rw [htop] at hid
  cases hid

theorem child_insert {id : Nat} {indifferent : Bool} {fields : Fields} {name : Text} {v : Val}
    (h : heap[id]? = some (.hash indifferent (fields.insert (some name) v))) :
    child heap (.ref id) (.key name) = some v := by
  rw [child_ref h]
  exact AList.lookup_insert _

theorem child_singleton {id : Nat} {indifferent : Bool} {name : Text} {v : Val}
    (h : heap[id]? = some (.hash indifferent (AList.singleton (some name) v))) :
    child heap (.ref id) (.key name) = some v := by
  rw [child_ref h]
  exact AList.lookup_insert ∅

/-- The value gets to its place exactly if nothing of the three is in the way. -/
theorem Builds.found_iff (h : Builds value heap top steps heap') (hvalue : ∀ r, value ≠ .ref r) :
    Found heap' (.ref top) steps value ↔ Complete steps ∧ Unblocked heap top steps := by
  induction h with
  | field htop hnone =>
    refine iff_of_true ?_ ⟨trivial, (child_ref htop _).trans hnone⟩
    rw [found_sub (child_insert (List.getElem?_set_self (lt_of_some htop))), found_nil]
  | taken htop href =>
    have hchild := (child_ref htop (.key _)).trans href
    refine iff_of_false (fun hfound => ?_) (fun hfree => ?_)
    · rw [found_sub hchild, found_nil] at hfound
      exact hvalue _ hfound.symm
    · have hnone := hfree.2
      rw [Unblocked, hchild] at hnone
      cases hnone
  | child htop href hrest ih =>
    have hchild := (child_ref htop (.key _)).trans href
    rw [found_sub (hrest.kept _ _ _ hchild), ih]
    refine and_congr Iff.rfl ⟨fun hfree r hr => ?_, fun hfree => hfree _ hchild⟩
    rw [hchild] at hr
    cases hr
    exact hfree
  | @grown heap top indifferent fields name step rest heap' htop hnone hrest ih =>
    have hreplaced := getElem?_replaced [blank indifferent (klassOf step)] htop
      (.hash indifferent (fields.insert (some name) (.ref heap.length)))
    have hblank := getElem?_appended [blank indifferent (klassOf step)]
      (.hash indifferent (fields.insert (some name) (.ref heap.length))) (lt_of_some htop) 0
    rw [found_sub (hrest.kept _ _ _ (child_insert hreplaced)), ih]
    refine and_congr Iff.rfl (iff_of_true (unblocked_blank hblank _) (fun r hr => ?_))
    rw [child_ref htop] at hr
    cases hnone.symm.trans hr
  | item htop =>
    refine iff_of_true ?_ ⟨trivial, trivial⟩
    rw [found_item (List.getElem?_set_self (lt_of_some htop)), found_nil]
  | @recordField heap top items name id fields htop hlast =>
    obtain ⟨⟨front, rfl⟩, hid, hnone⟩ := lastWithout_eq hlast
    refine iff_of_true ?_ ⟨trivial, trivial⟩
    rw [found_item ((List.getElem?_set_ne (array_ne htop hid).symm).trans htop),
      found_sub (child_insert (List.getElem?_set_self (lt_of_some hid))), found_nil]
  | @newRecord heap top items name htop hlast =>
    let more : Heap := [.hash true (AList.singleton (some name) value)]
    let o : Obj := .array (items ++ [.ref heap.length])
    have hnew : ((heap ++ more).set top o)[heap.length]? =
        some (.hash true (AList.singleton (some name) value)) :=
      getElem?_appended more o (lt_of_some htop) 0
    refine iff_of_true ?_ ⟨trivial, trivial⟩
    rw [found_item (getElem?_replaced _ htop _), found_sub (child_singleton hnew), found_nil]
  | @orphan heap top items name id fields step rest heap' htop hlast hrest ih =>
    obtain ⟨⟨front, rfl⟩, hid, hnone⟩ := lastWithout_eq hlast
    let more : Heap := [blank true (klassOf step), blank false (klassOf step)]
    let o : Obj := .hash true (fields.insert (some name) (.ref heap.length))
    have hblank : ((heap ++ more).set id o)[heap.length + 1]? = some (blank false (klassOf step)) :=
      getElem?_appended more o (lt_of_some hid) 1
    have hstored : ((heap ++ more).set id o)[heap.length]? = some (blank true (klassOf step)) :=
      getElem?_appended more o (lt_of_some hid) 0
    have htop' := hrest.frame hblank (getElem?_other more htop (array_ne htop hid).symm)
      (Nat.ne_of_lt (Nat.lt_succ_of_lt (lt_of_some htop)))
    have hchild := hrest.kept _ _ _ (child_insert (getElem?_replaced more hid o))
    refine iff_of_false ?_ (fun hfree => ?_)
    · rw [found_item htop', found_sub hchild]
      exact not_found_blank (hrest.frame hblank hstored (Nat.ne_of_lt (Nat.lt_succ_self _)))
    · have hnone' := hfree.2
      rw [Unblocked, itemsOf_array htop, hlast] at hnone'
      cases hnone'
  | @record heap top items name step rest heap' htop hlast hrest ih =>
    let more : Heap := [blank true (klassOf step),
      Obj.hash true (AList.singleton (some name) (.ref heap.length))]
    let o : Obj := .array (items ++ [.ref (heap.length + 1)])
    have hblank : ((heap ++ more).set top o)[heap.length]? = some (blank true (klassOf step)) :=
      getElem?_appended more o (lt_of_some htop) 0
    have hrecord : ((heap ++ more).set top o)[heap.length + 1]? =
        some (.hash true (AList.singleton (some name) (.ref heap.length))) :=
      getElem?_appended more o (lt_of_some htop) 1
    have htop' := hrest.frame hblank (getElem?_replaced more htop o)
      (Nat.ne_of_lt (lt_of_some htop))
    have hchild := hrest.kept _ _ _ (child_singleton hrecord)
    rw [found_item htop', found_sub hchild, ih]
    refine and_congr Iff.rfl (iff_of_true (unblocked_blank hblank _) ?_)
    rw [Unblocked, itemsOf_array htop, hlast]
  | stop htop hitems => exact iff_of_false (not_found_items htop hitems) (fun hfree => hfree.1)

end Builds

end Rhodes.ParamBuilds
