import Rhodes.PairParser

/-!
What the parser never undoes. It only appends to an array, and a key of a hash keeps its value
once the value is not nil, whatever the keys of the pairs are.
-/
namespace Rhodes.PairParser

theorem bind_eq_ok {ε α β : Type} {x : Except ε α} {f : α → Except ε β} {b : β}
    (h : x >>= f = .ok b) : ∃ a, x = .ok a ∧ f a = .ok b := by
  cases x with
  | error e => cases h
  | ok a => exact ⟨a, rfl, h⟩

def GrowsTo : Obj → Obj → Prop
  | .array xs, .array ys => xs <+: ys
  | .hash indifferent fields, .hash indifferent' fields' => indifferent = indifferent' ∧
      ∀ key value, fields.lookup key = some value → value ≠ .nil → fields'.lookup key = some value
  | _, _ => False

def Grows (heap heap' : Heap) : Prop :=
  ∀ (id : Nat) (o : Obj), heap[id]? = some o → ∃ o', heap'[id]? = some o' ∧ GrowsTo o o'

theorem GrowsTo.refl (o : Obj) : GrowsTo o o := by
  cases o with
  | array items => exact List.prefix_refl items
  | hash indifferent fields => exact ⟨rfl, fun _ _ h _ => h⟩

theorem GrowsTo.trans {o₁ o₂ o₃ : Obj} (h₁ : GrowsTo o₁ o₂) (h₂ : GrowsTo o₂ o₃) :
    GrowsTo o₁ o₃ := by
  cases o₁ <;> cases o₂ <;> cases o₃ <;> try exact h₁.elim
  · exact List.IsPrefix.trans h₁ h₂
  · exact h₂.elim
  · exact h₂.elim
  · exact ⟨h₁.1.trans h₂.1, fun key value hkey hvalue =>
      h₂.2 key value (h₁.2 key value hkey hvalue) hvalue⟩

theorem growsTo_append (items more : List Val) : GrowsTo (.array items) (.array (items ++ more)) :=
  List.prefix_append items more

theorem growsTo_insert {indifferent : Bool} {fields : Fields} {key : Option Text} (value : Val)
    (h : ∀ v, fields.lookup key = some v → v = .nil) :
    GrowsTo (.hash indifferent fields) (.hash indifferent (fields.insert key value)) := by
  refine ⟨rfl, ?_⟩
  intro key' v hkey hv
  by_cases heq : key' = key
  · subst heq
    exact absurd (h v hkey) hv
  · rw [AList.lookup_insert_ne heq, hkey]

theorem Grows.refl (heap : Heap) : Grows heap heap := fun _ o h => ⟨o, h, GrowsTo.refl o⟩

theorem Grows.trans {heap₁ heap₂ heap₃ : Heap} (h₁ : Grows heap₁ heap₂) (h₂ : Grows heap₂ heap₃) :
    Grows heap₁ heap₃ := by
  intro id o ho
  obtain ⟨o', ho', hgrows⟩ := h₁ id o ho
  obtain ⟨o'', ho'', hgrows'⟩ := h₂ id o' ho'
  exact ⟨o'', ho'', hgrows.trans hgrows'⟩

theorem grows_append (heap more : Heap) : Grows heap (heap ++ more) := by
  intro id o ho
  obtain ⟨hlt, -⟩ := List.getElem?_eq_some_iff.mp ho
  exact ⟨o, by rw [List.getElem?_append_left hlt, ho], GrowsTo.refl o⟩

theorem grows_set {heap : Heap} {id : Nat} {o o' : Obj} (ho : heap[id]? = some o)
    (hgrows : GrowsTo o o') : Grows heap (heap.set id o') := by
  intro id' o₁ ho₁
  obtain ⟨hlt, -⟩ := List.getElem?_eq_some_iff.mp ho₁
  by_cases heq : id = id'
  · subst heq
    rw [ho] at ho₁
    cases ho₁
    exact ⟨o', by rw [List.getElem?_set_self hlt], hgrows⟩
  · exact ⟨o₁, by rw [List.getElem?_set_ne heq, ho₁], GrowsTo.refl o₁⟩

/-- A value is stored behind the objects that are there. -/
theorem build_append (indifferent : Bool) (heap : Heap) (value : Fresh) :
    ∃ more, (build indifferent heap value).1 = heap ++ more := by
  cases value with
  | nil => exact ⟨[], by simp [build]⟩
  | str text => exact ⟨[], by simp [build]⟩
  | container klass =>
    cases klass with
    | array => exact ⟨_, rfl⟩
    | hash => exact ⟨_, rfl⟩

theorem getElem?_append_of_some {heap : Heap} {id : Nat} {o : Obj} (ho : heap[id]? = some o)
    (more : Heap) : (heap ++ more)[id]? = some o := by
  obtain ⟨hlt, -⟩ := List.getElem?_eq_some_iff.mp ho
  rw [List.getElem?_append_left hlt, ho]

/-- Objects are appended, and one of the old ones grows. -/
theorem grows_append_set {heap : Heap} {id : Nat} {o o' : Obj} (ho : heap[id]? = some o)
    (hgrows : GrowsTo o o') (more : Heap) : Grows heap ((heap ++ more).set id o') :=
  (grows_append heap more).trans (grows_set (getElem?_append_of_some ho more) hgrows)

theorem bindInArray_grows {s : State} {items : List Val} (hs : s.heap[s.top]? = some (.array items))
    (key : Text) (value : Fresh) : Grows s.heap (bindInArray s items key value).2.heap := by
  unfold bindInArray
  split
  · rename_i id indifferent fields hlast
    have hid : s.heap[id]? = some (.hash indifferent fields) ∧ fields.lookup (some key) = none := by
      unfold lastWithout at hlast
      split at hlast
      · split at hlast
        · split at hlast
          · cases hlast
          · rename_i hheap hnone
            cases hlast
            exact ⟨hheap, by simpa using hnone⟩
        · cases hlast
      · cases hlast
    have hnew : ∀ v, fields.lookup (some key) = some v → v = .nil := by
      intro v hv
      rw [hid.2] at hv
      cases hv
    obtain ⟨more, hmore⟩ := build_append indifferent s.heap value
    cases indifferent with
    | true =>
      obtain ⟨more', hmore'⟩ := build_append false (build true s.heap value).1 value
      simp only [if_true]
      rw [hmore', hmore, List.append_assoc]
      exact grows_append_set hid.1 (growsTo_insert _ hnew) _
    | false =>
      simp only [Bool.false_eq_true, if_false]
      rw [hmore]
      exact grows_append_set hid.1 (growsTo_insert _ hnew) _
  · obtain ⟨more, hmore⟩ := build_append true s.heap value
    simp only
    rw [hmore, List.append_assoc]
    exact grows_append_set hs (growsTo_append _ _) _

theorem replaceTop_grows (s : State) (fields : Fields) (key : Option Text) :
    Grows s.heap (replaceTop s fields key).heap := by
  unfold replaceTop
  split
  · exact Grows.refl _
  · split
    · rename_i hparent
      split
      · exact grows_append_set hparent (growsTo_append _ _) _
      · exact Grows.refl _
    · exact Grows.refl _

theorem bindInHash_grows {s s' : State} {key : Option Text} {value : Fresh} {v : Val}
    (h : bindInHash s key value = .ok (v, s')) : Grows s.heap s'.heap := by
  unfold bindInHash at h
  split at h
  · rename_i indifferent fields htop
    split at h
    · cases h
      exact Grows.refl _
    · cases h
      exact Grows.refl _
    · rename_i hstr href
      have hnew : ∀ v, fields.lookup key = some v → v = .nil := by
        intro v hv
        cases v with
        | nil => rfl
        | str text => exact absurd hv (hstr text)
        | ref id => exact absurd hv (href id)
      obtain ⟨more, hmore⟩ := build_append indifferent s.heap value
      simp only [Except.ok.injEq, Prod.mk.injEq] at h
      obtain ⟨-, rfl⟩ := h
      simp only
      rw [hmore]
      exact grows_append_set htop (growsTo_insert _ hnew) _
  · cases h

theorem bind_grows {s s' : State} {key : Option Text} {value : Fresh} {v : Val}
    (h : bind key value s = .ok (v, s')) : Grows s.heap s'.heap := by
  unfold bind at h
  split at h
  · rename_i items htop
    split at h
    · rename_i key
      have hgrows := bindInArray_grows htop key value
      rw [Except.ok.inj h] at hgrows
      exact hgrows
    · obtain ⟨more, hmore⟩ := build_append false s.heap value
      simp only [Except.ok.injEq, Prod.mk.injEq] at h
      obtain ⟨-, rfl⟩ := h
      simp only
      rw [hmore]
      exact grows_append_set htop (growsTo_append _ _) _
  · exact (replaceTop_grows s _ key).trans (bindInHash_grows h)
  · cases h

theorem container_grows {s s' : State} {key : Text} {klass : Klass}
    (h : container key klass s = .ok s') : Grows s.heap s'.heap := by
  unfold container at h
  split at h
  · cases h
  · obtain ⟨⟨v, s₁⟩, hbind, hrest⟩ := bind_eq_ok h
    have hgrows := bind_grows hbind
    cases v with
    | nil => cases hrest
    | str text => cases hrest
    | ref id =>
      simp only at hrest
      split at hrest
      · cases hrest
        exact hgrows
      · cases hrest

theorem perform_grows {s s' : State} {value : Option Text} {action : Action}
    (h : perform value s action = .ok s') : Grows s.heap s'.heap := by
  cases action with
  | container key klass => exact container_grows h
  | bind key =>
    obtain ⟨⟨v, s₁⟩, hbind, hrest⟩ := bind_eq_ok h
    cases hrest
    exact bind_grows hbind

theorem performAll_grows {s s' : State} {value : Option Text} {actions : List Action}
    (h : actions.foldlM (perform value) s = .ok s') : Grows s.heap s'.heap := by
  induction actions generalizing s with
  | nil =>
    cases h
    exact Grows.refl _
  | cons action actions ih =>
    obtain ⟨s₁, hstep, hrest⟩ := bind_eq_ok h
    exact (perform_grows hstep).trans (ih hrest)

theorem parse_grows {scan : Scanner} {heap heap' : Heap} {pair : Pair}
    (h : parse scan heap pair = .ok heap') : Grows heap heap' := by
  obtain ⟨s, hall, hrest⟩ := bind_eq_ok h
  cases hrest
  exact performAll_grows hall

/-- Further pairs only add to the result. -/
theorem parseAll_grows {scan : Scanner} {pairs : List Pair} {heap heap' : Heap}
    (h : pairs.foldlM (parse scan) heap = .ok heap') : Grows heap heap' := by
  induction pairs generalizing heap with
  | nil =>
    cases h
    exact Grows.refl _
  | cons pair pairs ih =>
    obtain ⟨heap₁, hstep, hrest⟩ := bind_eq_ok h
    exact (parse_grows hstep).trans (ih hrest)

end Rhodes.PairParser
