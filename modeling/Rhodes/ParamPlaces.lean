import Rhodes.KeyGrammar
import Rhodes.PairGrowth

/-!
The place that a key names in the objects of a result: a key of a hash for a name or a group, and
for brackets the last item of their array, which is the record being built. `Unblocked` says of the
objects before a pair that its value can get to its place.
-/
namespace Rhodes.ParamPlaces

open KeyGrammar PairParser

inductive Index where
  | key (name : Text)
  | item (i : Nat)
  deriving DecidableEq

def Obj.child : Obj → Index → Option Val
  | .hash _ fields, .key name => fields.lookup (some name)
  | .array items, .item i => items[i]?
  | _, _ => none

def child (heap : Heap) : Val → Index → Option Val
  | .ref id, index => heap[id]?.bind (fun o => Obj.child o index)
  | _, _ => none

def valueAt (heap : Heap) (v : Val) (place : List Index) : Option Val :=
  place.foldlM (child heap) v

def itemsOf (heap : Heap) : Val → List Val
  | .ref id => match heap[id]? with
      | some (.array items) => items
      | _ => []
  | _ => []

/-- Where a step of a key leads to; brackets lead to the record being built. -/
def indexOf (heap : Heap) : Val → Step → Index
  | _, .sub name => .key name
  | v, .item => .item ((itemsOf heap v).length - 1)

/-- The place that the steps name, as far as there are objects. -/
def placeOf (heap : Heap) : Val → List Step → List Index
  | _, [] => []
  | v, step :: rest => indexOf heap v step ::
      match child heap v (indexOf heap v step) with
      | some next => placeOf heap next rest
      | none => []

/-- No brackets stand right behind brackets. -/
def Complete : List Step → Prop
  | .item :: .item :: _ => False
  | _ :: rest => Complete rest
  | [] => True

/-- The value finds no container in its place, and no record that is being built gets one. -/
def Unblocked (heap : Heap) : Nat → List Step → Prop
  | id, [.sub name] => child heap (.ref id) (.key name) = none
  | id, .sub name :: rest =>
      ∀ h, child heap (.ref id) (.key name) = some (.ref h) → Unblocked heap h rest
  | id, .item :: .sub name :: _ :: _ => lastWithout heap (itemsOf heap (.ref id)) name = none
  | _, _ => True

/-- The steps lead over hashes to a slot that holds a scalar. -/
def HoldsScalar (heap : Heap) : Nat → List Step → Prop
  | id, [.sub name] => ∃ v, child heap (.ref id) (.key name) = some v ∧ ∀ h, v ≠ .ref h
  | id, .sub name :: rest =>
      ∃ h, child heap (.ref id) (.key name) = some (.ref h) ∧ HoldsScalar heap h rest
  | _, _ => False

section Walks

variable {heap : Heap} {v w : Val} {step : Step} {rest : List Step}

/-- The value is at the place that the steps name. -/
def Found (heap : Heap) (v : Val) (steps : List Step) (w : Val) : Prop :=
  valueAt heap v (placeOf heap v steps) = some w

theorem found_nil : Found heap v [] w ↔ v = w := Option.some_inj

theorem found_cons : Found heap v (step :: rest) w ↔
    ∃ next, child heap v (indexOf heap v step) = some next ∧ Found heap next rest w := by
  unfold Found
  rw [placeOf]
  cases hchild : child heap v (indexOf heap v step) with
  | none =>
    refine iff_of_false (fun hfound => ?_) (fun ⟨next, hnext, _⟩ => by cases hnext)
    rw [valueAt, List.foldlM_cons, hchild] at hfound
    cases hfound
  | some next =>
    rw [valueAt, List.foldlM_cons, hchild]
    exact ⟨fun hfound => ⟨next, rfl, hfound⟩, fun ⟨next', hnext, hfound⟩ => by
      cases hnext
      exact hfound⟩

theorem child_ref {id : Nat} {o : Obj} (ho : heap[id]? = some o) (index : Index) :
    child heap (.ref id) index = Obj.child o index := by
  rw [child, ho]
  rfl

theorem itemsOf_array {id : Nat} {items : List Val} (h : heap[id]? = some (.array items)) :
    itemsOf heap (.ref id) = items := by
  rw [itemsOf, h]

/-- Behind the last item of an array. -/
theorem found_item {id : Nat} {items : List Val} {last : Val}
    (h : heap[id]? = some (.array (items ++ [last]))) :
    Found heap (.ref id) (.item :: rest) w ↔ Found heap last rest w := by
  have hindex : indexOf heap (.ref id) .item = .item items.length := by
    rw [indexOf, itemsOf_array h, List.length_append, List.length_singleton, Nat.add_sub_cancel]
  have hchild : child heap (.ref id) (.item items.length) = some last := by
    rw [child_ref h]
    exact List.getElem?_concat_length
  rw [found_cons, hindex, hchild]
  exact ⟨fun ⟨next, hnext, hfound⟩ => by
    cases hnext
    exact hfound, fun hfound => ⟨last, rfl, hfound⟩⟩

/-- Behind a key of a hash. -/
theorem found_sub {name : Text} {next : Val} (h : child heap v (.key name) = some next) :
    Found heap v (.sub name :: rest) w ↔ Found heap next rest w := by
  rw [found_cons, indexOf, h]
  exact ⟨fun ⟨next', hnext, hfound⟩ => by
    cases hnext
    exact hfound, fun hfound => ⟨next, rfl, hfound⟩⟩

end Walks

section Kept

variable {heap heap' : Heap}

/-- What can be read of the objects stays. -/
def Kept (heap heap' : Heap) : Prop :=
  ∀ v index w, child heap v index = some w → child heap' v index = some w

theorem Kept.refl (heap : Heap) : Kept heap heap := fun _ _ _ h => h

theorem Kept.trans {heap'' : Heap} (h : Kept heap heap') (h' : Kept heap' heap'') :
    Kept heap heap'' := fun v index w hw => h' v index w (h v index w hw)

theorem Kept.valueAt (h : Kept heap heap') {place : List Index} {v w : Val}
    (hw : ParamPlaces.valueAt heap v place = some w) :
    ParamPlaces.valueAt heap' v place = some w := by
  induction place generalizing v with
  | nil => exact hw
  | cons index rest ih =>
    rw [ParamPlaces.valueAt, List.foldlM_cons] at hw
    obtain ⟨next, hnext, hrest⟩ := Option.bind_eq_some_iff.mp hw
    rw [ParamPlaces.valueAt, List.foldlM_cons, h v index next hnext]
    exact ih hrest

/-- Objects are appended, and one of the old ones keeps what it holds. -/
theorem kept_append_set {id : Nat} {o o' : Obj} (ho : heap[id]? = some o)
    (hkept : ∀ index w, Obj.child o index = some w → Obj.child o' index = some w) (more : Heap) :
    Kept heap ((heap ++ more).set id o') := by
  intro v index w hw
  cases v with
  | nil => cases hw
  | str text => cases hw
  | ref r =>
    obtain ⟨o₁, ho₁, hchild⟩ := Option.bind_eq_some_iff.mp hw
    by_cases heq : id = r
    · subst heq
      obtain rfl : o = o₁ := Option.some.inj (ho.symm.trans ho₁)
      have hlt : id < (heap ++ more).length :=
        (List.getElem?_eq_some_iff.mp (getElem?_append_of_some ho more)).1
      rw [child_ref (List.getElem?_set_self hlt)]
      exact hkept index w hchild
    · have hsame : ((heap ++ more).set id o')[r]? = some o₁ := by
        rw [List.getElem?_set_ne heq]
        exact getElem?_append_of_some ho₁ more
      rw [child_ref hsame, hchild]

theorem kept_insert {indifferent : Bool} {fields : Fields} {name : Text}
    (h : fields.lookup (some name) = none) (value : Val) (index : Index) (w : Val)
    (hw : Obj.child (.hash indifferent fields) index = some w) :
    Obj.child (.hash indifferent (fields.insert (some name) value)) index = some w := by
  cases index with
  | item i => cases hw
  | key name' =>
    have hw' : fields.lookup (some name') = some w := hw
    have hne : some name' ≠ some name := by
      intro heq
      rw [heq, h] at hw'
      cases hw'
    exact (AList.lookup_insert_ne hne).trans hw'

theorem kept_concat {items : List Val} (value : Val) (index : Index) (w : Val)
    (hw : Obj.child (.array items) index = some w) :
    Obj.child (.array (items ++ [value])) index = some w := by
  cases index with
  | key name => cases hw
  | item i =>
    have hw' : items[i]? = some w := hw
    obtain ⟨hlt, -⟩ := List.getElem?_eq_some_iff.mp hw'
    exact (List.getElem?_append_left hlt).trans hw'

end Kept

/-- The objects that are appended are behind the old ones. -/
theorem getElem?_appended {heap : Heap} {id : Nat} (more : Heap) (o : Obj)
    (hid : id < heap.length) (k : Nat) :
    ((heap ++ more).set id o)[heap.length + k]? = more[k]? := by
  rw [List.getElem?_set_ne (by omega), List.getElem?_append_right (Nat.le_add_right _ _),
    Nat.add_sub_cancel_left]

section Blank

variable {heap : Heap} {id : Nat} {klass : Klass} {indifferent : Bool}

/-- A new container. -/
def blank (indifferent : Bool) : Klass → Obj
  | .array => .array []
  | .hash => .hash indifferent ∅

theorem child_blank (h : heap[id]? = some (blank indifferent klass)) (index : Index) :
    child heap (.ref id) index = none := by
  rw [child_ref h]
  cases klass <;> cases index <;> rfl

theorem itemsOf_blank (h : heap[id]? = some (blank indifferent klass)) :
    itemsOf heap (.ref id) = [] := by
  rw [itemsOf, h]
  cases klass <;> rfl

/-- Nothing is in the way in a new container. -/
theorem unblocked_blank (h : heap[id]? = some (blank indifferent klass)) (steps : List Step) :
    Unblocked heap id steps := by
  have hnone := child_blank h
  rcases steps with _ | ⟨_ | _, _ | ⟨_ | _, _ | _⟩⟩ <;> try exact trivial
  all_goals
    first
    | exact hnone _
    | exact (fun r hr => absurd hr (by rw [hnone]; exact nofun))
    | (rw [Unblocked, itemsOf_blank h]; rfl)

theorem not_holdsScalar_blank (h : heap[id]? = some (blank indifferent klass))
    (steps : List Step) : ¬HoldsScalar heap id steps := by
  have hnone := child_blank h
  rcases steps with _ | ⟨_ | _, _ | ⟨_, _⟩⟩
  · exact nofun
  · rintro ⟨v, hv, -⟩
    rw [hnone] at hv
    cases hv
  · rintro ⟨r, hr, -⟩
    rw [hnone] at hr
    cases hr
  · exact nofun
  · exact nofun

theorem not_found_blank (h : heap[id]? = some (blank indifferent klass)) {step : Step}
    {rest : List Step} {w : Val} : ¬Found heap (.ref id) (step :: rest) w := by
  rw [found_cons]
  rintro ⟨next, hnext, -⟩
  rw [child_blank h] at hnext
  cases hnext

end Blank

end Rhodes.ParamPlaces
