import Mathlib.Data.List.Forall2
import Rhodes.PushDecoded

/-!
Several lists of records in the objects of a result. Every name has its array, and every record is
an object of its own; a field goes to the last record of its list or opens a new one, and leaves
all other records.
-/
namespace Rhodes.RecordHeap

open PairParser PushDecoded

/-- The records under every name. -/
abbrev Lists := Text → List (List Field)

/-- The numbers of the arrays and of the records. -/
structure Places where
  array : Text → Option Nat
  records : Text → List Nat

/-- The objects hold the lists; the list of a name that is opened may still be empty. -/
structure Placed (opened : Option Text) (heap : Heap) (lists : Lists) (P : Places) : Prop where
  root : ∃ fields, heap[0]? = some (.hash false fields) ∧
    ∀ key, fields.lookup key = key.bind (fun name => (P.array name).map Val.ref)
  array : ∀ name a, P.array name = some a →
    heap[a]? = some (.array ((P.records name).map Val.ref))
  records : ∀ name, List.Forall₂ (fun id r => heap[id]? = some (.hash true (fieldsOf r)))
    (P.records name) (lists name)
  absent : ∀ name, P.array name = none → lists name = []
  used : ∀ name a, P.array name = some a → lists name ≠ [] ∨ opened = some name
  array_inj : ∀ name name' a, P.array name = some a → P.array name' = some a → name = name'
  record_inj : ∀ name name' id, id ∈ P.records name → id ∈ P.records name' → name = name'
  nodup : ∀ name, (P.records name).Nodup

variable {heap : Heap} {lists : Lists} {P : Places} {opened : Option Text} {name : Text}

section Frames

theorem lt_of_some {id : Nat} {o : Obj} (h : heap[id]? = some o) : id < heap.length :=
  (List.getElem?_eq_some_iff.mp h).1

theorem Placed.record (h : Placed opened heap lists P) {id : Nat} (hid : id ∈ P.records name) :
    ∃ fields, heap[id]? = some (.hash true fields) := by
  obtain ⟨i, hi, rfl⟩ := List.mem_iff_getElem.mp hid
  have hlength := (h.records name).length_eq
  exact ⟨_, List.forall₂_iff_get.mp (h.records name) |>.2 i hi (hlength ▸ hi)⟩

/-- An array of a name is none of the records, and not the result. -/
theorem Placed.array_ne (h : Placed opened heap lists P) {a : Nat} (ha : P.array name = some a) :
    a ≠ 0 ∧ ∀ name', a ∉ P.records name' := by
  have harray := h.array name a ha
  refine ⟨?_, fun name' hmem => ?_⟩
  · rintro rfl
    obtain ⟨fields, hroot, -⟩ := h.root
    rw [harray] at hroot
    cases hroot
  · obtain ⟨fields, hrecord⟩ := h.record hmem
    rw [harray] at hrecord
    cases hrecord

theorem Placed.record_ne (h : Placed opened heap lists P) {id : Nat} (hid : id ∈ P.records name) :
    id ≠ 0 := by
  rintro rfl
  obtain ⟨fields, hrecord⟩ := h.record hid
  obtain ⟨fields', hroot, -⟩ := h.root
  rw [hrecord] at hroot
  cases hroot

end Frames

/-- Every name is free to be opened. -/
theorem Placed.opening (h : Placed none heap lists P) (name : Text) :
    Placed (some name) heap lists P :=
  { h with used := fun name' a ha => (h.used name' a ha).imp_right nofun }

/-- A new array for a name that has none. -/
theorem Placed.newArray (h : Placed none heap lists P) (hnone : P.array name = none)
    {fields : Fields} (hroot : heap[0]? = some (.hash false fields))
    (hlookup : ∀ key, fields.lookup key = key.bind (fun n => (P.array n).map Val.ref)) :
    ∃ array' : Text → Option Nat, array' name = some heap.length ∧
      Placed (some name) ((heap ++ [Obj.array []]).set 0
        (.hash false (fields.insert (some name) (.ref heap.length)))) lists
        ⟨array', P.records⟩ := by
  obtain ⟨array', hself, hne⟩ : ∃ array' : Text → Option Nat, array' name = some heap.length ∧
      ∀ n, n ≠ name → array' n = P.array n :=
    ⟨Function.update P.array name (some heap.length), Function.update_self _ _ _,
      fun n hn => Function.update_of_ne hn _ _⟩
  have hpos : 0 < heap.length := lt_of_some hroot
  have hempty : P.records name = [] := by
    have hlists := h.records name
    rw [h.absent name hnone] at hlists
    exact List.forall₂_nil_right_iff.mp hlists
  have hnew : ((heap ++ [Obj.array []]).set 0
      (.hash false (fields.insert (some name) (.ref heap.length))))[heap.length]? =
      some (.array []) := by
    rw [List.getElem?_set_ne (Nat.ne_of_lt hpos), List.getElem?_append_right (Nat.le_refl _),
      Nat.sub_self]
    rfl
  have hold : ∀ id o, id ≠ 0 → heap[id]? = some o → ((heap ++ [Obj.array []]).set 0
      (.hash false (fields.insert (some name) (.ref heap.length))))[id]? = some o := by
    intro id o hid ho
    rw [List.getElem?_set_ne (Ne.symm hid), List.getElem?_append_left (lt_of_some ho), ho]
  have hcases : ∀ n a, array' n = some a →
      (n = name ∧ a = heap.length) ∨ (n ≠ name ∧ P.array n = some a) := by
    intro n a hn
    by_cases heq : n = name
    · subst heq
      rw [hself] at hn
      exact .inl ⟨rfl, (Option.some.inj hn).symm⟩
    · rw [hne n heq] at hn
      exact .inr ⟨heq, hn⟩
  have hlt : ∀ n a, P.array n = some a → a < heap.length :=
    fun n a hn => lt_of_some (h.array n a hn)
  refine ⟨array', hself, ⟨⟨_, List.getElem?_set_self (by simp), fun key => ?_⟩, fun n a hn => ?_,
    fun n => ?_, fun n hn => ?_, fun n a hn => ?_, fun n n' a hn hn' => ?_, h.record_inj,
    h.nodup⟩⟩
  · by_cases hkey : key = some name
    · subst hkey
      rw [AList.lookup_insert]
      show _ = (array' name).map Val.ref
      rw [hself]
      rfl
    · rw [AList.lookup_insert_ne hkey, hlookup]
      cases key with
      | none => rfl
      | some n =>
        show _ = (array' n).map Val.ref
        rw [hne n (fun heq => hkey (congrArg some heq))]
        rfl
  · rcases hcases n a hn with ⟨rfl, rfl⟩ | ⟨-, hn⟩
    · rw [hempty]
      exact hnew
    · exact hold a _ (h.array_ne hn).1 (h.array n a hn)
  · refine List.forall₂_iff_get.mpr ⟨(h.records n).length_eq, fun i hi hi' => ?_⟩
    exact hold _ _ (h.record_ne (List.getElem_mem hi))
      ((List.forall₂_iff_get.mp (h.records n)).2 i hi hi')
  · refine h.absent n ?_
    by_cases heq : n = name
    · rw [heq, hnone]
    · rwa [← hne n heq]
  · rcases hcases n a hn with ⟨rfl, -⟩ | ⟨-, hn⟩
    · exact .inr rfl
    · exact .inl ((h.used n a hn).resolve_right nofun)
  · rcases hcases n a hn with ⟨rfl, rfl⟩ | ⟨-, hn⟩ <;>
      rcases hcases n' _ hn' with ⟨rfl, heq⟩ | ⟨-, hn'⟩
    · rfl
    · exact absurd (hlt n' _ hn') (Nat.lt_irrefl _)
    · subst heq
      exact absurd (hlt n _ hn) (Nat.lt_irrefl _)
    · exact h.array_inj n n' a hn hn'

/-- The array of a name, as its container is found or made. -/
theorem container_placed (h : Placed none heap lists P) (name : Text) :
    ∃ heap' a P', container name .array ⟨heap, 0, none⟩ = .ok ⟨heap', a, some 0⟩ ∧
      Placed (some name) heap' lists P' ∧ P'.array name = some a := by
  obtain ⟨fields, hroot, hlookup⟩ := h.root
  have hname : fields.lookup (some name) = (P.array name).map Val.ref := hlookup (some name)
  cases harray : P.array name with
  | some a =>
    rw [harray, Option.map_some] at hname
    have hobj := h.array name a harray
    refine ⟨heap, a, P, ?_, h.opening name, harray⟩
    have hconflict : ¬conflicts ⟨heap, 0, none⟩ name .array = true := by
      simp only [conflicts, hroot, hname, isA, hobj, Bool.not_true, Bool.false_eq_true,
        not_false_eq_true]
    have hbind : PairParser.bind (some name) (.container .array) ⟨heap, 0, none⟩ =
        .ok (.ref a, ⟨heap, 0, none⟩) := by
      simp only [PairParser.bind, hroot, replaceTop, bindInHash, hname]
    rw [container, if_neg hconflict, hbind]
    simp only [Bind.bind, Except.bind, isA, hobj, if_true]
  | none =>
    rw [harray, Option.map_none] at hname
    obtain ⟨array', hself, hplaced⟩ := h.newArray harray hroot hlookup
    refine ⟨_, heap.length, ⟨array', P.records⟩, ?_, hplaced, hself⟩
    have hconflict : ¬conflicts ⟨heap, 0, none⟩ name .array = true := by
      simp only [conflicts, hroot, hname, Bool.false_eq_true, not_false_eq_true]
    have hbind : PairParser.bind (some name) (.container .array) ⟨heap, 0, none⟩ =
        .ok (.ref heap.length, ⟨(heap ++ [Obj.array []]).set 0
          (.hash false (fields.insert (some name) (.ref heap.length))), 0, none⟩) := by
      simp only [PairParser.bind, hroot, replaceTop, bindInHash, hname, build]
    have hnew := hplaced.array name heap.length hself
    rw [container, if_neg hconflict, hbind]
    simp only [Bind.bind, Except.bind, isA, hnew, if_true]

section Concat

variable {α β : Type} {R : α → β → Prop} {xs : List α} {ys : List β} {x : α} {y : β}

theorem forall₂_concat (h : List.Forall₂ R xs ys) (hxy : R x y) :
    List.Forall₂ R (xs ++ [x]) (ys ++ [y]) :=
  List.rel_append h (List.Forall₂.cons hxy .nil)

/-- A last element on the right has one on the left. -/
theorem forall₂_concat_right (h : List.Forall₂ R xs (ys ++ [y])) :
    ∃ xs' x, xs = xs' ++ [x] ∧ List.Forall₂ R xs' ys ∧ R x y := by
  have hreverse := List.forall₂_reverse_iff.mpr h
  rw [List.reverse_append, List.reverse_singleton, List.singleton_append] at hreverse
  obtain ⟨x, rest, hxy, hrest, heq⟩ := List.forall₂_cons_right_iff.mp hreverse
  refine ⟨rest.reverse, x, ?_, ?_, hxy⟩
  · rw [← List.reverse_cons, ← heq, List.reverse_reverse]
  · rw [← List.forall₂_reverse_iff, List.reverse_reverse]
    exact hrest

end Concat

section Bind

variable {a : Nat} {f t : Text}

/-- The last record of a list, as the parser finds it behind its array. -/
theorem Placed.lastWithout_eq (h : Placed opened heap lists P) {rs : List (List Field)}
    {r : List Field} (hlists : lists name = rs ++ [r]) :
    ∃ ids id, P.records name = ids ++ [id] ∧ heap[id]? = some (.hash true (fieldsOf r)) ∧
      List.Forall₂ (fun id r => heap[id]? = some (.hash true (fieldsOf r))) ids rs ∧
      lastWithout heap ((P.records name).map Val.ref) f =
        if f ∈ r.map Prod.fst then none else some (id, true, fieldsOf r) := by
  have hrecords := h.records name
  rw [hlists] at hrecords
  obtain ⟨ids, id, hids, hall, hid⟩ := forall₂_concat_right hrecords
  refine ⟨ids, id, hids, hid, hall, ?_⟩
  rw [hids, List.map_append, lastWithout]
  simp only [List.map_cons, List.map_nil, List.getLast?_concat, hid]
  by_cases hmem : f ∈ r.map Prod.fst
  · rw [if_pos hmem, if_pos (lookup_fieldsOf_isSome r hmem)]
  · rw [if_neg hmem, if_neg (by rw [lookup_fieldsOf_eq_none r hmem]; exact Bool.false_ne_true)]

/-- A field that the last record has, or that comes first, opens a new record. -/
theorem bind_new (h : Placed (some name) heap lists P) (ha : P.array name = some a)
    (hfull : ∀ r ∈ (lists name).getLast?, f ∈ r.map Prod.fst) :
    ∃ v s' P', PairParser.bind (some f) (.str t) ⟨heap, a, some 0⟩ = .ok (v, s') ∧
      Placed none s'.heap (Function.update lists name (lists name ++ [[(f, t)]])) P' := by
  have harray := h.array name a ha
  have hlast : lastWithout heap ((P.records name).map Val.ref) f = none := by
    rcases List.eq_nil_or_concat (lists name) with hnil | ⟨rs, r, hconcat⟩
    · have hrecords := h.records name
      rw [hnil] at hrecords
      rw [List.forall₂_nil_right_iff.mp hrecords]
      rfl
    · rw [List.concat_eq_append] at hconcat
      obtain ⟨ids, id, -, -, -, hfind⟩ := h.lastWithout_eq (f := f) hconcat
      rw [hfind, if_pos (hfull r (by rw [hconcat, List.getLast?_concat]; rfl))]
  let record : Obj := .hash true (fieldsOf [(f, t)])
  let items := (P.records name).map Val.ref ++ [.ref heap.length]
  let heap' : Heap := (heap ++ [record]).set a (.array items)
  have hbind : PairParser.bind (some f) (.str t) ⟨heap, a, some 0⟩ =
      .ok (.str t, ⟨heap', heap.length, some a⟩) := by
    have hlength : (heap ++ [Obj.hash true (AList.singleton (some f) (Val.str t))]).length - 1 =
        heap.length := by simp
    simp only [PairParser.bind, harray, bindInArray, hlast, build, hlength]
    rfl
  have hlt := lt_of_some harray
  have hnew : heap'[heap.length]? = some record := by
    rw [List.getElem?_set_ne (Nat.ne_of_lt hlt), List.getElem?_append_right (Nat.le_refl _),
      Nat.sub_self]
    rfl
  have hself : heap'[a]? = some (.array items) := List.getElem?_set_self (by
    rw [List.length_append]
    omega)
  have hold : ∀ id o, id ≠ a → heap[id]? = some o → heap'[id]? = some o := by
    intro id o hid ho
    rw [List.getElem?_set_ne (Ne.symm hid), List.getElem?_append_left (lt_of_some ho), ho]
  have hnot : ∀ n, heap.length ∉ P.records n := by
    intro n hmem
    obtain ⟨fields, hfields⟩ := h.record hmem
    exact Nat.lt_irrefl _ (lt_of_some hfields)
  obtain ⟨records', hrecords, hne⟩ : ∃ records' : Text → List Nat,
      records' name = P.records name ++ [heap.length] ∧
      ∀ n, n ≠ name → records' n = P.records n :=
    ⟨Function.update P.records name (P.records name ++ [heap.length]),
      Function.update_self _ _ _, fun n hn => Function.update_of_ne hn _ _⟩
  have hmem : ∀ n id, id ∈ records' n → id ∈ P.records n ∨ n = name ∧ id = heap.length := by
    intro n id hid
    by_cases heq : n = name
    · subst heq
      rw [hrecords, List.mem_append, List.mem_singleton] at hid
      exact hid.imp_right (fun hid => ⟨rfl, hid⟩)
    · rw [hne n heq] at hid
      exact .inl hid
  have hkept : ∀ n, List.Forall₂ (fun id r => heap'[id]? = some (.hash true (fieldsOf r)))
      (P.records n) (lists n) := by
    intro n
    refine List.forall₂_iff_get.mpr ⟨(h.records n).length_eq, fun i hi hi' => ?_⟩
    refine hold _ _ (fun heq => (h.array_ne ha).2 n (heq ▸ List.getElem_mem hi)) ?_
    exact (List.forall₂_iff_get.mp (h.records n)).2 i hi hi'
  obtain ⟨fields, hroot, hlookup⟩ := h.root
  refine ⟨_, _, ⟨P.array, records'⟩, hbind, ⟨⟨fields, hold 0 _ ?_ hroot, hlookup⟩, fun n b hb => ?_,
    fun n => ?_, fun n hn => ?_, fun n b hb => ?_, h.array_inj, fun n n' id hid hid' => ?_,
    fun n => ?_⟩⟩
  · exact (h.array_ne ha).1.symm
  · show heap'[b]? = some (.array ((records' n).map Val.ref))
    by_cases heq : n = name
    · subst heq
      obtain rfl : b = a := Option.some.inj (hb.symm.trans ha)
      rw [hrecords, List.map_append]
      exact hself
    · rw [hne n heq]
      refine hold b _ (fun hba => heq ?_) (h.array n b hb)
      subst hba
      exact h.array_inj n name b hb ha
  · show List.Forall₂ _ (records' n) _
    by_cases heq : n = name
    · subst heq
      rw [hrecords, Function.update_self]
      exact forall₂_concat (hkept n) hnew
    · rw [hne n heq, Function.update_of_ne heq]
      exact hkept n
  · have heq : n ≠ name := by
      rintro rfl
      rw [ha] at hn
      cases hn
    rw [Function.update_of_ne heq]
    exact h.absent n hn
  · by_cases heq : n = name
    · subst heq
      rw [Function.update_self]
      exact .inl (by simp)
    · rw [Function.update_of_ne heq]
      exact .inl ((h.used n b hb).resolve_right (fun hsame => heq (Option.some.inj hsame).symm))
  · rcases hmem n id hid with hid | ⟨rfl, rfl⟩ <;> rcases hmem n' _ hid' with hid' | ⟨rfl, heq⟩
    · exact h.record_inj n n' id hid hid'
    · exact absurd (heq ▸ hid) (hnot n)
    · exact absurd hid' (hnot n')
    · rfl
  · show (records' n).Nodup
    by_cases heq : n = name
    · subst heq
      rw [hrecords]
      exact List.nodup_append.mpr ⟨h.nodup n, List.nodup_singleton _, fun x hx y hy hxy => by
        rw [List.mem_singleton.mp hy] at hxy
        exact hnot n (hxy ▸ hx)⟩
    · rw [hne n heq]
      exact h.nodup n

/-- A field that the last record does not have goes there. -/
theorem bind_last (h : Placed (some name) heap lists P) (ha : P.array name = some a)
    {rs : List (List Field)} {r : List Field} (hlists : lists name = rs ++ [r])
    (hnew : f ∉ r.map Prod.fst) :
    ∃ v s', PairParser.bind (some f) (.str t) ⟨heap, a, some 0⟩ = .ok (v, s') ∧
      Placed none s'.heap (Function.update lists name (rs ++ [r ++ [(f, t)]])) P := by
  have harray := h.array name a ha
  obtain ⟨ids, id, hids, hid, hall, hfind⟩ := h.lastWithout_eq (f := f) hlists
  rw [if_neg hnew] at hfind
  let heap' : Heap := heap.set id (.hash true (fieldsOf (r ++ [(f, t)])))
  have hinsert : (fieldsOf r).insert (some f) (.str t) = fieldsOf (r ++ [(f, t)]) := by
    simp [fieldsOf]
  have hbind : PairParser.bind (some f) (.str t) ⟨heap, a, some 0⟩ =
      .ok (.str t, ⟨heap', a, some 0⟩) := by
    simp only [PairParser.bind, harray, bindInArray, hfind, build, if_true, hinsert]
    rfl
  have hself : heap'[id]? = some (.hash true (fieldsOf (r ++ [(f, t)]))) :=
    List.getElem?_set_self (lt_of_some hid)
  have hold : ∀ i o, i ≠ id → heap[i]? = some o → heap'[i]? = some o := by
    intro i o hi ho
    rw [List.getElem?_set_ne (Ne.symm hi), ho]
  have hmem : id ∈ P.records name := by
    rw [hids]
    exact List.mem_append_right _ (List.mem_singleton_self id)
  have hother : ∀ i ∈ ids, i ≠ id := by
    have hnodup := h.nodup name
    rw [hids, List.nodup_append] at hnodup
    exact fun i hi => hnodup.2.2 i hi id (List.mem_singleton_self id)
  obtain ⟨fields, hroot, hlookup⟩ := h.root
  refine ⟨_, _, hbind, ⟨⟨fields, hold 0 _ (h.record_ne hmem).symm hroot, hlookup⟩,
    fun n b hb => ?_, fun n => ?_, fun n hn => ?_, fun n b hb => ?_, h.array_inj, h.record_inj,
    h.nodup⟩⟩
  · exact hold b _ (fun heq => (h.array_ne hb).2 name (heq ▸ hmem)) (h.array n b hb)
  · by_cases heq : n = name
    · subst heq
      rw [hids, Function.update_self]
      refine forall₂_concat (List.forall₂_iff_get.mpr ⟨hall.length_eq, fun i hi hi' => ?_⟩) hself
      exact hold _ _ (hother _ (List.getElem_mem hi)) ((List.forall₂_iff_get.mp hall).2 i hi hi')
    · rw [Function.update_of_ne heq]
      refine List.forall₂_iff_get.mpr ⟨(h.records n).length_eq, fun i hi hi' => ?_⟩
      refine hold _ _ (fun hsame => heq ?_) ((List.forall₂_iff_get.mp (h.records n)).2 i hi hi')
      exact h.record_inj n name id (hsame ▸ List.getElem_mem hi) hmem
  · have heq : n ≠ name := by
      rintro rfl
      rw [ha] at hn
      cases hn
    rw [Function.update_of_ne heq]
    exact h.absent n hn
  · by_cases heq : n = name
    · subst heq
      rw [Function.update_self]
      exact .inl (by simp)
    · rw [Function.update_of_ne heq]
      exact .inl ((h.used n b hb).resolve_right (fun hsame => heq (Option.some.inj hsame).symm))

end Bind

end Rhodes.RecordHeap
