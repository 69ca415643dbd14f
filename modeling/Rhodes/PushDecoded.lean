import Mathlib.Data.List.Induction
import Rhodes.FormFields

/-!
The push body read back by parse_query_parameters. As long as the texts of the fields are
plain, the objects of the result are those of `layout`; the first field that is not plain has
another value in its record, and nothing that follows in the body can put it right.
-/
namespace Rhodes.PushDecoded

open Rhodes.Database Rhodes.Statements Rhodes.ClientChanges Rhodes.PairParser

def fieldsOf (r : List Field) : Fields := r.foldl (fun f e => f.insert (some e.1) (.str e.2)) ∅

/-- The objects of a result with these records. -/
def layout (recs : List (List Field)) : Heap :=
  .hash false (AList.singleton (some nameAttrvals) (.ref 1)) ::
    .array ((List.range recs.length).map (fun i => .ref (i + 2))) ::
    recs.map (fun r => .hash true (fieldsOf r))

/-- The objects before and after the first container. -/
def Holds (heap : Heap) (recs : List (List Field)) : Prop :=
  heap = layout recs ∨ (recs = [] ∧ heap = [.hash false ∅])

section Layout

variable (recs : List (List Field)) (r : List Field)

theorem layout_record :
    (layout (recs ++ [r]))[recs.length + 2]? = some (.hash true (fieldsOf r)) := by
  simp [layout]

theorem layout_array :
    (layout recs)[1]? = some (.array ((List.range recs.length).map (fun i => .ref (i + 2)))) := by
  simp [layout]

theorem container_of_holds {heap : Heap} (h : Holds heap recs) :
    container nameAttrvals .array ⟨heap, 0, none⟩ = .ok ⟨layout recs, 1, some 0⟩ := by
  rcases h with rfl | ⟨rfl, rfl⟩
  · rfl
  · rfl

theorem lookup_fieldsOf_concat (e : Field) (key : Option Text) :
    (fieldsOf (r ++ [e])).lookup key
      = if key = some e.1 then some (.str e.2) else (fieldsOf r).lookup key := by
  have hconcat : fieldsOf (r ++ [e]) = (fieldsOf r).insert (some e.1) (.str e.2) := by
    simp [fieldsOf]
  rw [hconcat]
  by_cases hkey : key = some e.1
  · rw [if_pos hkey, hkey, AList.lookup_insert]
  · rw [if_neg hkey, AList.lookup_insert_ne hkey]

theorem lookup_fieldsOf_eq_none {name : Text} (h : name ∉ r.map Prod.fst) :
    (fieldsOf r).lookup (some name) = none := by
  induction r using List.reverseRecOn with
  | nil => rfl
  | append_singleton r e ih =>
    rw [List.map_append, List.mem_append, not_or] at h
    have hne : some name ≠ some e.1 := by
      intro heq
      exact h.2 (by simp [Option.some.inj heq])
    rw [lookup_fieldsOf_concat, if_neg hne, ih h.1]

theorem lookup_fieldsOf_isSome {name : Text} (h : name ∈ r.map Prod.fst) :
    ((fieldsOf r).lookup (some name)).isSome = true := by
  induction r using List.reverseRecOn with
  | nil => cases h
  | append_singleton r e ih =>
    rw [lookup_fieldsOf_concat]
    by_cases heq : some name = some e.1
    · rw [if_pos heq]
      rfl
    · rw [if_neg heq]
      rw [List.map_append, List.mem_append] at h
      rcases h with hr | he
      · exact ih hr
      · exact absurd (congrArg some (List.mem_singleton.mp he)) heq

/-- The array after one more record. -/
theorem range_refs (n : Nat) : (List.range (n + 1)).map (fun i => Val.ref (i + 2))
    = (List.range n).map (fun i => Val.ref (i + 2)) ++ [.ref (n + 2)] := by
  rw [List.range_succ, List.map_append]
  rfl

theorem length_layout : (layout recs).length = recs.length + 2 := by
  simp [layout]

/-- A record is added behind the last one. -/
theorem layout_concat : (layout recs ++ [Obj.hash true (fieldsOf r)]).set 1
    (Obj.array ((List.range recs.length).map (fun i => .ref (i + 2)) ++ [.ref (recs.length + 2)]))
      = layout (recs ++ [r]) := by
  simp [layout, range_refs]

/-- The last record gets another field. -/
theorem layout_set (r' : List Field) :
    (layout (recs ++ [r])).set (recs.length + 2) (.hash true (fieldsOf r')) =
      layout (recs ++ [r']) := by
  simp [layout]

/-- The last record has the key, or there is no record. -/
def Full (name : Text) : Prop := ∀ r ∈ recs.getLast?, name ∈ r.map Prod.fst

theorem bind_first {name : Text} (hfull : Full recs name) (t : Text) :
    PairParser.bind (some name) (.str t) ⟨layout recs, 1, some 0⟩
      = .ok (.str t, ⟨layout (recs ++ [[(name, t)]]), recs.length + 2, some 1⟩) := by
  have hlast : lastWithout (layout recs) ((List.range recs.length).map (fun i => .ref (i + 2))) name
      = none := by
    induction recs using List.reverseRecOn with
    | nil => rfl
    | append_singleton recs r ih =>
      have hr := hfull r (by simp)
      unfold lastWithout
      rw [List.length_append, List.length_singleton, range_refs, List.getLast?_concat]
      simp only [layout_record, lookup_fieldsOf_isSome r hr, if_true]
  have hsingle : fieldsOf [(name, t)] = AList.singleton (some name) (.str t) := rfl
  have hlen : (layout recs ++ [Obj.hash true (fieldsOf [(name, t)])]).length - 1
      = recs.length + 2 := by
    simp [length_layout]
  unfold PairParser.bind
  simp only [layout_array, bindInArray, hlast, build, ← hsingle, hlen, layout_concat]

theorem bind_more {name : Text} (hnew : name ∉ r.map Prod.fst) (t : Text) :
    PairParser.bind (some name) (.str t) ⟨layout (recs ++ [r]), 1, some 0⟩
      = .ok (.str t, ⟨layout (recs ++ [r ++ [(name, t)]]), 1, some 0⟩) := by
  have hlast : lastWithout (layout (recs ++ [r]))
      ((List.range (recs ++ [r]).length).map (fun i => .ref (i + 2))) name
      = some (recs.length + 2, true, fieldsOf r) := by
    unfold lastWithout
    rw [List.length_append, List.length_singleton, range_refs, List.getLast?_concat]
    simp only [layout_record, lookup_fieldsOf_eq_none r hnew, Option.isSome_none,
      Bool.false_eq_true, if_false]
  have hinsert : (fieldsOf r).insert (some name) (.str t) = fieldsOf (r ++ [(name, t)]) := by
    simp [fieldsOf]
  unfold PairParser.bind
  simp only [layout_array, bindInArray, hlast, build, if_true, hinsert, layout_set]

end Layout

section Parse

variable {recs : List (List Field)} {heap : Heap}

theorem parse_first (h : Holds heap recs) {name : Text} (hname : name ∈ fieldNames)
    (hfull : Full recs name) (t : Text) :
    parse rubyScanner heap (fieldKey name, some t) = .ok (layout (recs ++ [[(name, t)]])) := by
  have hbind := bind_first recs hfull t
  simp only [parse, keyPlan_fieldKey hname, List.foldlM_cons, List.foldlM_nil, perform,
    container_of_holds recs h, PairParser.valueOf, Bind.bind, Except.bind, hbind]
  rfl

theorem parse_more (recs : List (List Field)) (r : List Field) {name : Text}
    (hname : name ∈ fieldNames)
    (hnew : name ∉ r.map Prod.fst) (t : Text) :
    parse rubyScanner (layout (recs ++ [r])) (fieldKey name, some t)
      = .ok (layout (recs ++ [r ++ [(name, t)]])) := by
  have hbind := bind_more recs r hnew t
  simp only [parse, keyPlan_fieldKey hname, List.foldlM_cons, List.foldlM_nil, perform,
    container_of_holds _ (Or.inl rfl), PairParser.valueOf, Bind.bind, Except.bind, hbind]
  rfl

/-- A field of the record with the number `i` has the value. -/
def FieldAt (heap : Heap) (i : Nat) (name v : Text) : Prop :=
  ∃ indifferent fields a items id indifferent' fields',
    heap[(0 : Nat)]? = some (.hash indifferent fields) ∧
    fields.lookup (some nameAttrvals) = some (.ref a) ∧ heap[a]? = some (.array items) ∧
    items[i]? = some (.ref id) ∧ heap[id]? = some (.hash indifferent' fields') ∧
    fields'.lookup (some name) = some (.str v)

theorem FieldAt.grows {heap' : Heap} {i : Nat} {name v : Text} (h : FieldAt heap i name v)
    (hgrows : Grows heap heap') : FieldAt heap' i name v := by
  obtain ⟨b, fields, a, items, id, b', fields', h₀, hkey, ha, hi, hid, hname⟩ := h
  obtain ⟨o₀, ho₀, hg₀⟩ := hgrows _ _ h₀
  obtain ⟨oa, hoa, hga⟩ := hgrows _ _ ha
  obtain ⟨oi, hoi, hgi⟩ := hgrows _ _ hid
  cases o₀ with
  | array items₀ => exact hg₀.elim
  | hash b₀ fields₀ =>
    cases oa with
    | hash ba fieldsa => exact hga.elim
    | array itemsa =>
      cases oi with
      | array itemsi => exact hgi.elim
      | hash bi fieldsi =>
        obtain ⟨more, rfl⟩ := hga
        refine ⟨b₀, fields₀, a, _, id, bi, fieldsi, ho₀, hg₀.2 _ _ hkey (by simp), hoa, ?_, hoi,
          hgi.2 _ _ hname (by simp)⟩
        obtain ⟨hlt, -⟩ := List.getElem?_eq_some_iff.mp hi
        rw [List.getElem?_append_left hlt, hi]

theorem fieldAt_layout {r : List Field} {name v : Text}
    (h : (fieldsOf r).lookup (some name) = some (.str v)) :
    FieldAt (layout (recs ++ [r])) recs.length name v := by
  refine ⟨_, _, 1, _, recs.length + 2, _, _, rfl, rfl, layout_array _, ?_, layout_record recs r, h⟩
  simp

theorem lookup_concat_self (r : List Field) (e : Field) :
    (fieldsOf (r ++ [e])).lookup (some e.1) = some (.str e.2) := by
  rw [lookup_fieldsOf_concat, if_pos rfl]

/-- The further fields of a record. -/
theorem parse_fields (recs : List (List Field)) (es r : List Field)
    (hnames : ∀ e ∈ es, e.1 ∈ fieldNames)
    (hnodup : ((r ++ es).map Prod.fst).Nodup) :
    ((∀ e ∈ es, Plain e.2) →
      (es.flatMap chunkPairs).foldlM (parse rubyScanner) (layout (recs ++ [r]))
        = .ok (layout (recs ++ [r ++ es]))) ∧
    (¬(∀ e ∈ es, Plain e.2) → ∀ heap',
      (es.flatMap chunkPairs).foldlM (parse rubyScanner) (layout (recs ++ [r])) = .ok heap' →
      ∃ e ∈ es, ∃ v, v ≠ e.2 ∧ FieldAt heap' recs.length e.1 v) := by
  induction es generalizing r with
  | nil =>
    refine ⟨fun _ => by simp; rfl, fun h => absurd (fun e he => by cases he) h⟩
  | cons e es ih =>
    have hname := hnames e List.mem_cons_self
    have hnew : e.1 ∉ r.map Prod.fst := by
      rw [List.map_append, List.nodup_append] at hnodup
      intro hmem
      exact hnodup.2.2 _ hmem _ (by simp) rfl
    have hassoc : r ++ e :: es = r ++ [e] ++ es := by simp
    obtain ⟨more, hpairs, hmore⟩ := chunkPairs_eq hname
    have hparse := parse_more recs r hname hnew (firstValue e.2)
    obtain ⟨ihplain, ihother⟩ := ih (r ++ [e]) (fun e' he' =>
      hnames e' (List.mem_cons_of_mem _ he'))
      (by rw [← hassoc]; exact hnodup)
    by_cases hplain : Plain e.2
    · have hvalue := (firstValue_eq_iff e.2).mpr hplain
      have hfirst : ((e :: es).flatMap chunkPairs).foldlM (parse rubyScanner) (layout (recs ++ [r]))
          = (es.flatMap chunkPairs).foldlM (parse rubyScanner) (layout (recs ++ [r ++ [e]])) := by
        rw [List.flatMap_cons, hpairs, hmore hplain.separator, List.singleton_append,
          List.foldlM_cons, hparse, hvalue]
        rfl
      rw [hfirst, hassoc]
      refine ⟨fun h => ihplain (fun e' he' => h e' (List.mem_cons_of_mem _ he')), ?_⟩
      intro h heap' hheap
      have hrest : ¬∀ e' ∈ es, Plain e'.2 := by
        intro hall
        refine h (fun e' he' => ?_)
        rcases List.mem_cons.mp he' with rfl | he'
        · exact hplain
        · exact hall e' he'
      obtain ⟨e', he', v, hv, hfield⟩ := ihother hrest heap' hheap
      exact ⟨e', List.mem_cons_of_mem _ he', v, hv, hfield⟩
    · refine ⟨fun h => absurd (h e List.mem_cons_self) hplain, fun _ heap' hheap => ?_⟩
      rw [List.flatMap_cons, hpairs, List.cons_append, List.foldlM_cons, hparse] at hheap
      have hgrows := parseAll_grows hheap
      have hfield : FieldAt (layout (recs ++ [r ++ [(e.1, firstValue e.2)]])) recs.length e.1
          (firstValue e.2) := fieldAt_layout (lookup_concat_self r (e.1, firstValue e.2))
      exact ⟨e, List.mem_cons_self, firstValue e.2, fun heq =>
        hplain ((firstValue_eq_iff e.2).mp heq),
        hfield.grows hgrows⟩

/-- Every record has a field 'attrib', so that the next one begins a new record. -/
def AllAttrib (recs : List (List Field)) : Prop := ∀ r ∈ recs, nameAttrib ∈ r.map Prod.fst

theorem recordFields_eq (r : ChangedValue) :
    ∃ es, recordFields r = (nameAttrib, attribOf r) :: es ∧
      ((recordFields r).map Prod.fst).Nodup := by
  refine ⟨_, rfl, ?_⟩
  unfold recordFields
  split <;> split <;>
  · simp only [List.cons_append, List.nil_append, List.map_cons, List.map_nil]
    decide

theorem allAttrib_concat {r : ChangedValue} (h : AllAttrib recs) :
    AllAttrib (recs ++ [recordFields r]) := by
  intro r' hr'
  rcases List.mem_append.mp hr' with hr' | hr'
  · exact h r' hr'
  · rw [List.mem_singleton.mp hr']
    exact List.mem_map_of_mem (f := Prod.fst) List.mem_cons_self

/-- The pairs of a row. -/
def rowPairs (r : ChangedValue) : List Pair := (recordFields r).flatMap chunkPairs

theorem parse_row (h : Holds heap recs) (hall : AllAttrib recs) (r : ChangedValue) :
    ((∀ e ∈ recordFields r, Plain e.2) →
      (rowPairs r).foldlM (parse rubyScanner) heap = .ok (layout (recs ++ [recordFields r]))) ∧
    (¬(∀ e ∈ recordFields r, Plain e.2) → ∀ heap',
      (rowPairs r).foldlM (parse rubyScanner) heap = .ok heap' →
      ∃ e ∈ recordFields r, ∃ v, v ≠ e.2 ∧ FieldAt heap' recs.length e.1 v) := by
  obtain ⟨es, heq, hnodup⟩ := recordFields_eq r
  have hnames := names_recordFields r
  unfold rowPairs
  rw [heq] at hnodup hnames ⊢
  have hname : nameAttrib ∈ fieldNames := by simp [fieldNames]
  have hfull : Full recs nameAttrib := fun r' hr' => hall r' (List.mem_of_getLast? hr')
  obtain ⟨more, hpairs, hmore⟩ := chunkPairs_eq (e := (nameAttrib, attribOf r)) hname
  have hparse := parse_first h hname hfull (firstValue (attribOf r))
  obtain ⟨hplainRest, hotherRest⟩ := parse_fields recs es [(nameAttrib, attribOf r)]
    (fun e he => hnames e (List.mem_cons_of_mem _ he)) hnodup
  by_cases hplain : Plain (attribOf r)
  · have hvalue := (firstValue_eq_iff _).mpr hplain
    have hfirst : (((nameAttrib, attribOf r) :: es).flatMap chunkPairs).foldlM
      (parse rubyScanner) heap
        = (es.flatMap chunkPairs).foldlM (parse rubyScanner)
          (layout (recs ++ [[(nameAttrib, attribOf r)]])) := by
      rw [List.flatMap_cons, hpairs, hmore hplain.separator, List.singleton_append,
        List.foldlM_cons, hparse, hvalue]
      rfl
    rw [hfirst]
    refine ⟨fun hp => hplainRest (fun e he => hp e (List.mem_cons_of_mem _ he)), ?_⟩
    intro hp heap' hheap
    have hrest : ¬∀ e ∈ es, Plain e.2 := by
      intro hes
      refine hp (fun e he => ?_)
      rcases List.mem_cons.mp he with rfl | he
      · exact hplain
      · exact hes e he
    obtain ⟨e, he, v, hv, hfield⟩ := hotherRest hrest heap' hheap
    exact ⟨e, List.mem_cons_of_mem _ he, v, hv, hfield⟩
  · refine ⟨fun hp => absurd (hp _ List.mem_cons_self) hplain, fun _ heap' hheap => ?_⟩
    rw [List.flatMap_cons, hpairs, List.cons_append, List.foldlM_cons, hparse] at hheap
    have hfield : FieldAt (layout (recs ++ [[(nameAttrib, firstValue (attribOf r))]])) recs.length
        nameAttrib (firstValue (attribOf r)) := fieldAt_layout rfl
    exact ⟨_, List.mem_cons_self, firstValue (attribOf r),
      fun hv => hplain ((firstValue_eq_iff _).mp hv), hfield.grows (parseAll_grows hheap)⟩

/-- The rows of a body, from the records that are read already. -/
theorem parse_rows (rows : List ChangedValue) (h : Holds heap recs) (hall : AllAttrib recs) :
    ((∀ r ∈ rows, ∀ e ∈ recordFields r, Plain e.2) →
      ∃ heap', (rows.flatMap rowPairs).foldlM (parse rubyScanner) heap = .ok heap' ∧
        Holds heap' (recs ++ rows.map recordFields)) ∧
    (¬(∀ r ∈ rows, ∀ e ∈ recordFields r, Plain e.2) → ∀ heap',
      (rows.flatMap rowPairs).foldlM (parse rubyScanner) heap = .ok heap' →
      ∃ i r, rows[i]? = some r ∧ ∃ e ∈ recordFields r, ∃ v, v ≠ e.2 ∧
        FieldAt heap' (recs.length + i) e.1 v) := by
  induction rows generalizing heap recs with
  | nil =>
    refine ⟨fun _ => ⟨heap, rfl, by simpa using h⟩, fun hp => absurd (fun r hr => by cases hr) hp⟩
  | cons r rows ih =>
    obtain ⟨hrowPlain, hrowOther⟩ := parse_row h hall r
    rw [List.flatMap_cons, List.foldlM_append]
    by_cases hplain : ∀ e ∈ recordFields r, Plain e.2
    · have hholds : Holds (layout (recs ++ [recordFields r])) (recs ++ [recordFields r]) :=
        Or.inl rfl
      obtain ⟨ihplain, ihother⟩ := ih hholds (allAttrib_concat hall)
      have hstep : ((rowPairs r).foldlM (parse rubyScanner) heap >>= fun heap₁ =>
          (rows.flatMap rowPairs).foldlM (parse rubyScanner) heap₁)
          = (rows.flatMap rowPairs).foldlM (parse rubyScanner)
            (layout (recs ++ [recordFields r])) := by
        rw [hrowPlain hplain]
        rfl
      rw [hstep]
      constructor
      · intro hp
        obtain ⟨heap', hheap, hholds⟩ := ihplain (fun r' hr' => hp r' (List.mem_cons_of_mem _ hr'))
        exact ⟨heap', hheap, by simpa using hholds⟩
      · intro hp heap' hheap
        have hrest : ¬∀ r' ∈ rows, ∀ e ∈ recordFields r', Plain e.2 := by
          intro hrows
          refine hp (fun r' hr' => ?_)
          rcases List.mem_cons.mp hr' with rfl | hr'
          · exact hplain
          · exact hrows r' hr'
        obtain ⟨i, r', hr', e, he, v, hv, hfield⟩ := ihother hrest heap' hheap
        refine ⟨i + 1, r', hr', e, he, v, hv, ?_⟩
        rw [List.length_append, List.length_singleton] at hfield
        have hindex : recs.length + (i + 1) = recs.length + 1 + i := by omega
        rw [hindex]
        exact hfield
    · refine ⟨fun hp => absurd (hp r List.mem_cons_self) hplain, fun _ heap' hheap => ?_⟩
      obtain ⟨heap₁, hrow, hrest⟩ := bind_eq_ok hheap
      obtain ⟨e, he, v, hv, hfield⟩ := hrowOther hplain heap₁ hrow
      exact ⟨0, r, rfl, e, he, v, hv, hfield.grows (parseAll_grows hrest)⟩

end Parse

section Text

theorem splitOn_intercalate {texts : List Text} (h : texts ≠ []) :
    (['&'].intercalate texts).splitOn '&' = texts.flatMap (fun t => t.splitOn '&') := by
  induction texts with
  | nil => exact absurd rfl h
  | cons a more ih =>
    cases more with
    | nil => simp [List.intercalate_singleton]
    | cons b more =>
      rw [List.intercalate_cons_cons, List.append_assoc, List.singleton_append,
        List.splitOn_append_cons_self, ih (by simp)]
      rfl

/-- The texts between the values of a record. -/
theorem toList_heads :
    "attrvals[][attrib]=".toList = fieldKey nameAttrib ++ ['='] ∧
    "&attrvals[][object]=".toList = '&' :: (fieldKey nameObject ++ ['=']) ∧
    "&attrvals[][id]=".toList = '&' :: (fieldKey nameId ++ ['=']) ∧
    "&attrvals[][value]=".toList = '&' :: (fieldKey nameValue ++ ['=']) := by
  decide

/-- A chunk in front of the others. -/
theorem intercalate_chunk (e : Field) {es : List Field} (h : es ≠ []) :
    ['&'].intercalate ((e :: es).map chunkOf)
      = fieldKey e.1 ++ ['='] ++ e.2 ++ '&' :: ['&'].intercalate (es.map chunkOf) := by
  cases es with
  | nil => exact absurd rfl h
  | cons e' es =>
    rw [List.map_cons, List.map_cons, List.intercalate_cons_cons]
    simp [chunkOf]

theorem intercalate_lastChunk (e : Field) :
    ['&'].intercalate ([e].map chunkOf) = fieldKey e.1 ++ ['='] ++ e.2 := by
  rw [List.map_singleton, List.intercalate_singleton]
  simp [chunkOf]

theorem toList_object (r : ChangedValue) :
    (if (r.object.getD "").length > 0 then
      "&attrvals[][object]=" ++ r.object.getD "" else "").toList
      = if objectOf r = [] then [] else '&' :: (fieldKey nameObject ++ ['=']) ++ objectOf r := by
  have hobject : (r.object.getD "").length > 0 ↔ ¬objectOf r = [] := by
    rw [objectOf, ← String.length_toList, gt_iff_lt, List.length_pos_iff]
  by_cases ho : objectOf r = []
  · rw [if_neg (fun hlen => hobject.mp hlen ho), if_pos ho]
    rfl
  · rw [if_pos (hobject.mpr ho), if_neg ho, String.toList_append, toList_heads.2.1]
    rfl

theorem toList_id (r : ChangedValue) :
    (if r.mainId ≠ 0 then "&attrvals[][id]=" ++ printUInt64 r.mainId else "").toList
      = if r.mainId = 0 then [] else '&' :: (fieldKey nameId ++ ['=']) ++ idOf r := by
  by_cases hid : r.mainId = 0
  · rw [if_neg (fun hne => hne hid), if_pos hid]
    rfl
  · rw [if_pos hid, if_neg hid, String.toList_append, toList_heads.2.2.1]
    rfl

theorem toList_record (r : ChangedValue) :
    (record printUInt64 r).toList = ['&'].intercalate ((recordFields r).map chunkOf) := by
  have htext : (record printUInt64 r).toList = fieldKey nameAttrib ++ ['='] ++ attribOf r ++
      (if objectOf r = [] then [] else '&' :: (fieldKey nameObject ++ ['=']) ++ objectOf r) ++
      (if r.mainId = 0 then [] else '&' :: (fieldKey nameId ++ ['=']) ++ idOf r) ++
      '&' :: (fieldKey nameValue ++ ['=']) ++ valueOf r := by
    unfold record recordHead
    rw [String.toList_append, String.toList_append, String.toList_append, String.toList_append,
      String.toList_append, toList_object, toList_id, toList_heads.1, toList_heads.2.2.2]
    simp [attribOf, valueOf]
  rw [htext]
  by_cases ho : objectOf r = []
  · by_cases hid : r.mainId = 0
    · have hfields : recordFields r = [(nameAttrib, attribOf r), (nameValue, valueOf r)] := by
        simp [recordFields, ho, hid]
      rw [if_pos ho, if_pos hid, hfields, intercalate_chunk _ (by simp), intercalate_lastChunk]
      simp
    · have hfields : recordFields r = [(nameAttrib, attribOf r), (nameId, idOf r),
          (nameValue, valueOf r)] := by
        simp [recordFields, ho, hid]
      rw [if_pos ho, if_neg hid, hfields, intercalate_chunk _ (by simp),
        intercalate_chunk _ (by simp), intercalate_lastChunk]
      simp
  · by_cases hid : r.mainId = 0
    · have hfields : recordFields r = [(nameAttrib, attribOf r), (nameObject, objectOf r),
          (nameValue, valueOf r)] := by
        simp [recordFields, ho, hid]
      rw [if_neg ho, if_pos hid, hfields, intercalate_chunk _ (by simp),
        intercalate_chunk _ (by simp), intercalate_lastChunk]
      simp
    · have hfields : recordFields r = [(nameAttrib, attribOf r), (nameObject, objectOf r),
          (nameId, idOf r), (nameValue, valueOf r)] := by
        simp [recordFields, ho, hid]
      rw [if_neg ho, if_neg hid, hfields, intercalate_chunk _ (by simp),
        intercalate_chunk _ (by simp), intercalate_chunk _ (by simp), intercalate_lastChunk]
      simp

theorem splitOn_record (r : ChangedValue) :
    ((record printUInt64 r).toList.splitOn '&').filterMap pairOf = rowPairs r := by
  obtain ⟨es, heq, -⟩ := recordFields_eq r
  rw [toList_record, splitOn_intercalate (by simp [heq]), List.filterMap_flatMap, List.flatMap_map]
  rfl

theorem splitOn_body {rows : List ChangedValue} (h : ∀ r ∈ rows, NonBlob r) :
    ((pushBodyOf printUInt64 rows).strBody.toList.splitOn '&').filterMap pairOf
      = rows.flatMap rowPairs := by
  have hrows : (pushBodyOf printUInt64 rows).rows = rows := by
    rw [pushBodyOf_rows, List.filter_eq_self]
    intro r hr
    simpa using h r hr
  rw [(pushBodyOf_isText printUInt64 rows).text, hrows, String.toList_intercalate, List.map_map]
  have hsplit := splitOn_record
  cases rows with
  | nil => rfl
  | cons r rows =>
    have hsep : "&".toList = ['&'] := rfl
    rw [hsep, splitOn_intercalate (by simp), List.filterMap_flatMap, List.flatMap_map]
    simp only [Function.comp_apply, hsplit]

end Text

section Rows

variable (r : ChangedValue)

theorem names_ne : nameObject ≠ nameAttrib ∧ nameId ≠ nameAttrib ∧ nameId ≠ nameObject ∧
    nameValue ≠ nameAttrib ∧ nameValue ≠ nameObject ∧ nameValue ≠ nameId := by
  decide

theorem expected_of_mem {e : Field} (h : e ∈ recordFields r) :
    expected r (some e.1) = some (.str e.2) := by
  obtain ⟨hobject, hid₁, hid₂, hvalue₁, hvalue₂, hvalue₃⟩ := names_ne
  rcases mem_recordFields.mp h with rfl | ⟨ho, rfl⟩ | ⟨hid, rfl⟩ | rfl
  · simp [expected]
  · simp [expected, ho, hobject]
  · simp [expected, hid, hid₁, hid₂]
  · simp [expected, hvalue₁, hvalue₂, hvalue₃]

theorem expected_of_not_mem {key : Option Text}
    (h : ∀ e ∈ recordFields r, key ≠ some e.1) : expected r key = none := by
  have hattrib : key ≠ some nameAttrib := h _ (mem_recordFields.mpr (Or.inl rfl))
  have hvalue : key ≠ some nameValue :=
    h _ (mem_recordFields.mpr (Or.inr (Or.inr (Or.inr rfl))))
  have hobject : key = some nameObject → objectOf r = [] := by
    intro hkey
    by_contra ho
    exact h _ (mem_recordFields.mpr (Or.inr (Or.inl ⟨ho, rfl⟩))) hkey
  have hid : key = some nameId → r.mainId = 0 := by
    intro hkey
    by_contra hid
    exact h _ (mem_recordFields.mpr (Or.inr (Or.inr (Or.inl ⟨hid, rfl⟩)))) hkey
  unfold expected
  rw [if_neg hattrib, if_neg hvalue]
  by_cases hko : key = some nameObject
  · rw [if_pos hko, if_pos (hobject hko)]
  · rw [if_neg hko]
    by_cases hki : key = some nameId
    · rw [if_pos hki, if_pos (hid hki)]
    · rw [if_neg hki]

theorem lookup_fieldsOf_mem {fields : List Field} (hnodup : (fields.map Prod.fst).Nodup) {e : Field}
    (h : e ∈ fields) : (fieldsOf fields).lookup (some e.1) = some (.str e.2) := by
  induction fields using List.reverseRecOn with
  | nil => cases h
  | append_singleton fields e' ih =>
    rw [List.map_append, List.nodup_append] at hnodup
    rw [lookup_fieldsOf_concat]
    rcases List.mem_append.mp h with hmem | hmem
    · have hne : some e.1 ≠ some e'.1 := by
        intro heq
        exact hnodup.2.2 _ (List.mem_map_of_mem (f := Prod.fst) hmem) _ (by simp)
          (Option.some.inj heq)
      rw [if_neg hne, ih hnodup.1 hmem]
    · rw [List.mem_singleton.mp hmem, if_pos rfl]

theorem lookup_fieldsOf_none {fields : List Field} {key : Option Text}
    (h : ∀ e ∈ fields, key ≠ some e.1) : (fieldsOf fields).lookup key = none := by
  induction fields using List.reverseRecOn with
  | nil => rfl
  | append_singleton fields e ih =>
    rw [lookup_fieldsOf_concat, if_neg (h e (by simp)),
      ih (fun e' he' => h e' (List.mem_append_left _ he'))]

theorem lookup_recordFields (key : Option Text) :
    (fieldsOf (recordFields r)).lookup key = expected r key := by
  obtain ⟨-, -, hnodup⟩ := recordFields_eq r
  by_cases hkey : ∃ e ∈ recordFields r, key = some e.1
  · obtain ⟨e, he, rfl⟩ := hkey
    rw [lookup_fieldsOf_mem hnodup he, expected_of_mem r he]
  · push Not at hkey
    rw [lookup_fieldsOf_none hkey, expected_of_not_mem r hkey]

theorem plain_of_chars {t : Text} (h : ∀ c ∈ t, c ≠ '&' ∧ c ≠ '+' ∧ c ≠ '%') : Plain t := by
  refine ⟨fun hmem => (h _ hmem).1 rfl, fun hmem => (h _ hmem).2.1 rfl, ?_⟩
  intro hescape
  obtain ⟨front, a, b, back, rfl, -⟩ := hescape
  exact (h '%' (by simp)).2.2 rfl

theorem plain_of_all {t : Text} (h : t.all (fun c => c ≠ '&' && c ≠ '+' && c ≠ '%') = true) :
    Plain t := by
  refine plain_of_chars ?_
  intro c hc
  simpa [and_assoc] using List.all_eq_true.mp h c hc

theorem plain_id : Plain (idOf r) := by
  have hdigit : ∀ c : Char, c.isDigit = true → c ≠ '&' ∧ c ≠ '+' ∧ c ≠ '%' := by
    intro c hc
    refine ⟨?_, ?_, ?_⟩ <;>
    · intro heq
      rw [heq] at hc
      exact absurd hc (by decide)
  refine plain_of_chars (fun c hc => hdigit c ?_)
  unfold idOf printUInt64 at hc
  rw [Nat.toString_eq_ofList_toDigits, String.toList_ofList] at hc
  exact Nat.isDigit_of_mem_toDigits (by decide) (by decide) hc

/-- The texts of a row that are written as they are. -/
def PlainRow : Prop := Plain (attribOf r) ∧ Plain (objectOf r) ∧ Plain (valueOf r)

theorem plain_fields_iff : (∀ e ∈ recordFields r, Plain e.2) ↔ PlainRow r := by
  constructor
  · intro h
    refine ⟨h _ (mem_recordFields.mpr (Or.inl rfl)), ?_,
      h _ (mem_recordFields.mpr (Or.inr (Or.inr (Or.inr rfl))))⟩
    by_cases ho : objectOf r = []
    · rw [ho]
      exact plain_of_chars (by simp)
    · exact h _ (mem_recordFields.mpr (Or.inr (Or.inl ⟨ho, rfl⟩)))
  · intro ⟨hattrib, hobject, hvalue⟩ e he
    rcases mem_recordFields.mp he with rfl | ⟨-, rfl⟩ | ⟨-, rfl⟩ | rfl
    · exact hattrib
    · exact hobject
    · exact plain_id r
    · exact hvalue

end Rows

theorem attrvals_of_fieldAt {heap : Heap} {i : Nat} {name v : Text} {items : List Val}
    (h : FieldAt heap i name v) (hitems : attrvals heap = some items) :
    ∃ id indifferent fields, items[i]? = some (.ref id) ∧
      heap[id]? = some (.hash indifferent fields) ∧ fields.lookup (some name) = some (.str v) := by
  obtain ⟨b, fields, a, items', id, b', fields', h₀, hkey, ha, hi, hid, hname⟩ := h
  simp only [attrvals, h₀, hkey, ha, Option.some.injEq] at hitems
  subst hitems
  exact ⟨id, b', fields', hi, hid, hname⟩

theorem decodes_of_holds {heap : Heap} {rows : List ChangedValue} {body : Text}
    (hparse : parseQueryParameters rubyScanner body = .ok heap)
    (h : Holds heap (rows.map recordFields)) : Decodes body rows := by
  rcases h with rfl | ⟨hnil, rfl⟩
  · refine ⟨_, _, hparse, rfl, ?_⟩
    refine List.forall₂_of_length_eq_of_get (by simp) ?_
    intro i h₁ h₂
    refine ⟨i + 2, true, fieldsOf (recordFields (rows.get ⟨i, h₂⟩)), by simp, ?_,
      lookup_recordFields _⟩
    simp only [List.get_eq_getElem] at h₂ ⊢
    simp [layout, h₂]
  · have hrows : rows = [] := List.map_eq_nil_iff.mp hnil
    subst hrows
    exact ⟨_, [], hparse, rfl, List.Forall₂.nil⟩

section Decoding

variable {rows : List ChangedValue}

theorem parse_body (h : ∀ r ∈ rows, NonBlob r) :
    parseQueryParameters rubyScanner (pushBodyOf printUInt64 rows).strBody.toList
      = (rows.flatMap rowPairs).foldlM (parse rubyScanner) [.hash false ∅] := by
  rw [parseQueryParameters, splitOn_body h]
  rfl

theorem holds_start : Holds [.hash false ∅] [] := Or.inr ⟨rfl, rfl⟩

theorem plain_rows_iff :
    (∀ r ∈ rows, ∀ e ∈ recordFields r, Plain e.2) ↔ ∀ r ∈ rows, PlainRow r :=
  forall₂_congr (fun r _ => plain_fields_iff r)

theorem plainRow_of_decodes (h : ∀ r ∈ rows, NonBlob r)
    (hdecodes : Decodes (pushBodyOf printUInt64 rows).strBody.toList rows) :
    ∀ r ∈ rows, PlainRow r := by
  obtain ⟨heap, items, hheap, hitems, hrecords⟩ := hdecodes
  rw [parse_body h] at hheap
  rw [← plain_rows_iff]
  by_contra hnot
  obtain ⟨i, r, hr, e, he, v, hv, hfield⟩ :=
    (parse_rows rows holds_start (fun r hr => by cases hr)).2 hnot heap hheap
  rw [List.length_nil, Nat.zero_add] at hfield
  obtain ⟨id, b, fields, hi, hid, hname⟩ := attrvals_of_fieldAt hfield hitems
  obtain ⟨hlt, hget⟩ := List.getElem?_eq_some_iff.mp hi
  obtain ⟨hlt', hget'⟩ := List.getElem?_eq_some_iff.mp hr
  have hrecord := hrecords.get hlt hlt'
  rw [List.get_eq_getElem, List.get_eq_getElem, hget, hget'] at hrecord
  obtain ⟨id', b', fields', hsame, hid', hlookup⟩ := hrecord
  cases hsame
  rw [hid] at hid'
  cases hid'
  have hexpected := hlookup (some e.1)
  rw [hname, expected_of_mem r he] at hexpected
  exact hv (Val.str.inj (Option.some.inj hexpected))

theorem decodes_of_plainRow (h : ∀ r ∈ rows, NonBlob r) (hrows : ∀ r ∈ rows, PlainRow r) :
    Decodes (pushBodyOf printUInt64 rows).strBody.toList rows := by
  obtain ⟨heap, hheap, hholds⟩ :=
    (parse_rows rows holds_start (fun r hr => by cases hr)).1 (plain_rows_iff.mpr hrows)
  exact decodes_of_holds ((parse_body h).trans hheap) hholds

/-- The body decodes to the rows exactly when no text of a row has a separator, a plus sign or
an escape in it. -/
theorem push_body_decodes_iff (h : ∀ r ∈ rows, NonBlob r) :
    Decodes (pushBodyOf printUInt64 rows).strBody.toList rows ↔ ∀ r ∈ rows, PlainRow r :=
  ⟨plainRow_of_decodes h, decodes_of_plainRow h⟩

end Decoding

section Samples

/-- A change of the name of an object. -/
def nameRow (value : String) : ChangedValue :=
  ⟨1, 7, some "name", some "obj1", some value, none, .update, 0, 5, 0⟩

theorem push_body_decodes_iff_nameRow :
    Decodes (pushBodyOf printUInt64 [nameRow "a=[b]", nameRow ""]).strBody.toList
      [nameRow "a=[b]", nameRow ""] := by
  refine (push_body_decodes_iff ?_).mpr ?_
  · intro r hr
    simp only [List.mem_cons, List.not_mem_nil, or_false] at hr
    rcases hr with rfl | rfl <;> simp [NonBlob, nameRow]
  · intro r hr
    simp only [List.mem_cons, List.not_mem_nil, or_false] at hr
    rcases hr with rfl | rfl <;>
      exact ⟨plain_of_all (by decide), plain_of_all (by decide), plain_of_all (by decide)⟩

/-- The value is cut at the '&'. -/
theorem push_body_cut :
    NonBlob (nameRow "salt & pepper") ∧
    ¬Decodes (pushBodyOf printUInt64 [nameRow "salt & pepper"]).strBody.toList
      [nameRow "salt & pepper"] := by
  have hblob : NonBlob (nameRow "salt & pepper") := by simp [NonBlob, nameRow]
  refine ⟨hblob, ?_⟩
  intro hdecodes
  have hplain := plainRow_of_decodes (by simpa using hblob) hdecodes _ List.mem_cons_self
  exact hplain.2.2.separator (by decide)

end Samples

end Rhodes.PushDecoded
