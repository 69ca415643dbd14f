import Mathlib
import Rhodes.KeyGrammar
import Rhodes.QueryStrings
import Rhodes.RecordHeap

/-!
Lists of records in the bracket format. A name and the fields of its records are decoded like the
values, so that it is their decoded texts that must be names; the first field of the records under
a name opens each of them, however the lists are mixed.
-/
namespace Rhodes.RecordLists

open Cut KeyGrammar PairParser PushDecoded QueryStrings RecordHeap

/-- The fields of a record in order, with values that are form-encoded already. -/
abbrev EncodedRecord := List (Text × Text)

/-- The part of a body for one field. -/
def chunk (name : Text) (e : Text × Text) : Text :=
  keyText name [.item, .sub e.1] ++ '=' :: e.2

/-- Records under their names, one behind the other. -/
def body (items : List (Text × EncodedRecord)) : Text :=
  ['&'].intercalate (items.flatMap (fun i => i.2.map (chunk i.1)))

def decodedRecord (r : EncodedRecord) : List Field :=
  r.map (fun e => (unescapeForm e.1, unescapeForm e.2))

/-- The records under a decoded name, in order. -/
def recordsOf (items : List (Text × EncodedRecord)) : Lists := fun name =>
  (items.filter (fun i => unescapeForm i.1 = name)).map (fun i => decodedRecord i.2)

/-- A hash with just these fields. -/
def IsRecord (heap : Heap) (id : Nat) (r : List Field) : Prop :=
  ∃ fields, heap[id]? = some (.hash true fields) ∧ ∀ key value,
    fields.lookup key = some value ↔ ∃ e ∈ r, key = some e.1 ∧ value = .str e.2

/-- The result has the names of the lists, and under each of them an array of its records. -/
def HasLists (heap : Heap) (lists : Lists) : Prop :=
  ∃ fields, heap[0]? = some (.hash false fields) ∧ fields.lookup none = none ∧ ∀ name,
    (lists name = [] → fields.lookup (some name) = none) ∧
    (lists name ≠ [] → ∃ a ids, fields.lookup (some name) = some (.ref a) ∧
      heap[a]? = some (.array (ids.map Val.ref)) ∧ List.Forall₂ (IsRecord heap) ids (lists name))

/-- Records whose decoded names and fields are names, and of which those under one name begin with
the same field. -/
structure Items where
  items : List (Text × EncodedRecord)
  first : Text → Text
  names : ∀ i ∈ items, IsName (unescapeForm i.1)
  fields : ∀ i ∈ items, ∀ e ∈ i.2, IsName (unescapeForm e.1) ∧ '&' ∉ e.2
  distinct : ∀ i ∈ items, (i.2.map (fun e => unescapeForm e.1)).Nodup
  starts : ∀ i ∈ items, ∃ e rest, i.2 = e :: rest ∧ unescapeForm e.1 = first (unescapeForm i.1)

section Decoding

/-- A sign that is no digit ends an escape, or its beginning. -/
theorem unescape_append {c : Char} (hc : isHexDigit c = false) (a b : Text) :
    unescape (a ++ c :: b) = unescape a ++ unescape (c :: b) := by
  fun_induction unescape a with
  | case1 x y rest hhex ih =>
    show unescape ('%' :: x :: y :: (rest ++ c :: b)) = _
    rw [unescape, if_pos hhex, ih, List.cons_append]
  | case2 x y rest hhex ih =>
    show unescape ('%' :: x :: y :: (rest ++ c :: b)) = _
    rw [unescape, if_neg hhex, List.cons_append, ← ih]
    rfl
  | case3 d rest hno ih =>
    rw [List.cons_append, List.cons_append, ← ih]
    by_cases hd : d = '%'
    · subst hd
      cases rest with
      | nil =>
        show unescape ('%' :: c :: b) = '%' :: unescape (c :: b)
        cases b with
        | nil => rfl
        | cons e b =>
          rw [unescape, if_neg (by rw [hc]; exact fun h => Bool.false_ne_true h.1)]
      | cons x rest =>
        cases rest with
        | nil =>
          show unescape ('%' :: x :: c :: b) = '%' :: unescape (x :: c :: b)
          rw [unescape, if_neg (by rw [hc]; exact fun h => Bool.false_ne_true h.2)]
        | cons y rest => exact (hno x y rest rfl rfl).elim
    · rw [unescape]
      exact fun x y rest' heq => absurd heq hd
  | case4 => rfl

theorem unescape_sign {c : Char} (hc : c ≠ '%') (b : Text) :
    unescape (c :: b) = c :: unescape b := by
  rw [unescape]
  exact fun x y rest heq => absurd heq hc

/-- A sign that is no digit, no percent sign and no plus stays where it is. -/
theorem unescapeForm_append {c : Char} (hc : isHexDigit c = false) (hpercent : c ≠ '%')
    (hplus : c ≠ '+') (a b : Text) :
    unescapeForm (a ++ c :: b) = unescapeForm a ++ c :: unescapeForm b := by
  unfold unescapeForm
  rw [List.map_append, List.map_cons, if_neg hplus, unescape_append hc, unescape_sign hpercent]

theorem mem_unescapeForm {c : Char} (hc : isHexDigit c = false) (hpercent : c ≠ '%')
    (hplus : c ≠ '+') {t : Text} (h : c ∈ t) : c ∈ unescapeForm t := by
  obtain ⟨a, b, rfl⟩ := List.append_of_mem h
  rw [unescapeForm_append hc hpercent hplus]
  exact List.mem_append_right _ List.mem_cons_self

theorem unescapeForm_key (name f : Text) : unescapeForm (keyText name [.item, .sub f]) =
    keyText (unescapeForm name) [.item, .sub (unescapeForm f)] := by
  have hkey : ∀ n g : Text, keyText n [.item, .sub g] = n ++ '[' :: ([] ++ ']' :: ([] ++ '[' ::
      (g ++ ']' :: []))) := by
    intro n g
    simp [keyText, stepsText, Step.text]
  rw [hkey, hkey, unescapeForm_append rfl (by decide) (by decide),
    unescapeForm_append rfl (by decide) (by decide),
    unescapeForm_append rfl (by decide) (by decide),
    unescapeForm_append rfl (by decide) (by decide)]
  rfl

end Decoding

section Pairs

theorem not_mem_of_isName {t : Text} (h : IsName (unescapeForm t)) : '=' ∉ t ∧ '&' ∉ t := by
  obtain ⟨-, -, -, hequals, hand⟩ := isName_iff.mp h
  exact ⟨fun hmem => hequals (mem_unescapeForm rfl (by decide) (by decide) hmem),
    fun hmem => hand (mem_unescapeForm rfl (by decide) (by decide) hmem)⟩

theorem not_mem_keyText {c : Char} {name f : Text} (hname : c ∉ name) (hf : c ∉ f)
    (hopen : c ≠ '[') (hclose : c ≠ ']') : c ∉ keyText name [.item, .sub f] := by
  simp [keyText, stepsText, Step.text, hname, hf, hopen, hclose]

theorem pairOf_chunk {name : Text} {e : Text × Text} (hname : IsName (unescapeForm name))
    (hf : IsName (unescapeForm e.1)) : pairOf (chunk name e) =
      some (keyText (unescapeForm name) [.item, .sub (unescapeForm e.1)],
        some (unescapeForm e.2)) := by
  have hequals : '=' ∉ keyText name [.item, .sub e.1] :=
    not_mem_keyText (not_mem_of_isName hname).1 (not_mem_of_isName hf).1 (by decide) (by decide)
  have hne : keyText name [.item, .sub e.1] ≠ [] := by
    simp [keyText, stepsText, Step.text]
  have hkey : (chunk name e).takeWhile (fun c => c ≠ '=') = keyText name [.item, .sub e.1] :=
    takeWhile_upTo hequals _
  have hdrop : (chunk name e).drop ((keyText name [.item, .sub e.1]).length + 1) = e.2 := by
    simp [chunk]
  have hmem : '=' ∈ chunk name e := by
    simp [chunk]
  simp only [pairOf, hkey, if_neg hne, if_pos hmem, hdrop, unescapeForm_key]

/-- The pairs of a body. -/
def itemPairs (i : Text × EncodedRecord) : List Pair :=
  (decodedRecord i.2).map (fun e =>
    (keyText (unescapeForm i.1) [.item, .sub e.1], some e.2))

theorem pairs_body (L : Items) :
    ((body L.items).splitOn '&').filterMap pairOf = L.items.flatMap itemPairs := by
  have hpairs : (L.items.flatMap (fun i => i.2.map (chunk i.1))).filterMap pairOf =
      L.items.flatMap itemPairs := by
    rw [List.filterMap_flatMap]
    refine List.flatMap_congr (fun i hi => ?_)
    rw [List.filterMap_map, itemPairs, decodedRecord, List.map_map, ← List.filterMap_eq_map]
    refine List.filterMap_congr (fun e he => ?_)
    exact pairOf_chunk (L.names i hi) (L.fields i hi e he).1
  rw [← hpairs, body]
  by_cases hnil : L.items.flatMap (fun i => i.2.map (chunk i.1)) = []
  · rw [hnil]
    rfl
  · rw [List.splitOn_intercalate _ _ hnil]
    intro t ht
    obtain ⟨i, hi, ht⟩ := List.mem_flatMap.mp ht
    obtain ⟨e, he, rfl⟩ := List.mem_map.mp ht
    have hkey : '&' ∉ keyText i.1 [.item, .sub e.1] :=
      not_mem_keyText (not_mem_of_isName (L.names i hi)).2
        (not_mem_of_isName (L.fields i hi e he).1).2 (by decide) (by decide)
    simp [chunk, hkey, (L.fields i hi e he).2]

end Pairs

section Parse

variable {heap : Heap} {lists : Lists} {P : Places} {name : Text}

theorem keyPlan_item {f : Text} (hname : IsName name) (hf : IsName f) :
    (keyPlan rubyScanner (keyText name [.item, .sub f])).actions =
      [.container name .array, .bind (some f)] := by
  refine keyPlan_keyText hname (fun step hstep => ?_)
  rcases List.mem_cons.mp hstep with rfl | hstep
  · trivial
  · rw [List.mem_singleton.mp hstep]
    exact hf

/-- The first field of a record. -/
theorem parse_first {f t : Text} (h : Placed none heap lists P) (hname : IsName name)
    (hf : IsName f) (hfull : ∀ r ∈ (lists name).getLast?, f ∈ r.map Prod.fst) :
    ∃ heap' P', parse rubyScanner heap (keyText name [.item, .sub f], some t) = .ok heap' ∧
      Placed none heap' (Function.update lists name (lists name ++ [[(f, t)]])) P' := by
  obtain ⟨heap₁, a, P₁, hcontainer, hplaced, ha⟩ := container_placed h name
  obtain ⟨v, s', P', hbind, hplaced'⟩ := bind_new (f := f) (t := t) hplaced ha hfull
  refine ⟨s'.heap, P', ?_, hplaced'⟩
  simp only [parse, keyPlan_item hname hf, List.foldlM_cons, List.foldlM_nil, perform, hcontainer,
    PairParser.valueOf, Bind.bind, Except.bind, hbind]
  rfl

/-- A further field of the last record. -/
theorem parse_further {f t : Text} (h : Placed none heap lists P) (hname : IsName name)
    (hf : IsName f) {rs : List (List Field)} {r : List Field} (hlists : lists name = rs ++ [r])
    (hnew : f ∉ r.map Prod.fst) :
    ∃ heap' P', parse rubyScanner heap (keyText name [.item, .sub f], some t) = .ok heap' ∧
      Placed none heap' (Function.update lists name (rs ++ [r ++ [(f, t)]])) P' := by
  obtain ⟨heap₁, a, P₁, hcontainer, hplaced, ha⟩ := container_placed h name
  obtain ⟨v, s', hbind, hplaced'⟩ := bind_last (f := f) (t := t) hplaced ha hlists hnew
  refine ⟨s'.heap, P₁, ?_, hplaced'⟩
  simp only [parse, keyPlan_item hname hf, List.foldlM_cons, List.foldlM_nil, perform, hcontainer,
    PairParser.valueOf, Bind.bind, Except.bind, hbind]
  rfl

/-- The pairs of some fields under a name. -/
def fieldPairs (name : Text) (es : List Field) : List Pair :=
  es.map (fun e => (keyText name [.item, .sub e.1], some e.2))

theorem parse_fields (es r : List Field) (hname : IsName name) (hes : ∀ e ∈ es, IsName e.1)
    (hnodup : ((r ++ es).map Prod.fst).Nodup) {rs : List (List Field)}
    (h : Placed none heap lists P) (hlists : lists name = rs ++ [r]) :
    ∃ heap' P', (fieldPairs name es).foldlM (parse rubyScanner) heap = .ok heap' ∧
      Placed none heap' (Function.update lists name (rs ++ [r ++ es])) P' := by
  induction es generalizing heap lists P r with
  | nil =>
    refine ⟨heap, P, rfl, ?_⟩
    rw [List.append_nil, ← hlists, Function.update_eq_self]
    exact h
  | cons e es ih =>
    obtain ⟨he, hrest⟩ := List.forall_mem_cons.mp hes
    have hnew : e.1 ∉ r.map Prod.fst := by
      rw [List.map_append, List.nodup_append] at hnodup
      exact fun hmem => hnodup.2.2 _ hmem _ (by simp) rfl
    have hassoc : r ++ e :: es = r ++ [e] ++ es := by simp
    rw [hassoc] at hnodup ⊢
    obtain ⟨heap₁, P₁, hparse, hplaced⟩ := parse_further (t := e.2) h hname he hlists hnew
    obtain ⟨heap₂, P₂, hmore, hplaced₂⟩ := ih (r ++ [e]) hrest hnodup hplaced
      (Function.update_self _ _ _)
    rw [Function.update_idem] at hplaced₂
    refine ⟨heap₂, P₂, ?_, hplaced₂⟩
    rw [fieldPairs, List.map_cons, List.foldlM_cons, hparse]
    exact hmore

/-- A whole record. -/
theorem parse_record {e : Field} {es : List Field} (hname : IsName name)
    (hes : ∀ e' ∈ e :: es, IsName e'.1) (hnodup : ((e :: es).map Prod.fst).Nodup)
    (h : Placed none heap lists P) (hfull : ∀ r ∈ (lists name).getLast?, e.1 ∈ r.map Prod.fst) :
    ∃ heap' P', (fieldPairs name (e :: es)).foldlM (parse rubyScanner) heap = .ok heap' ∧
      Placed none heap' (Function.update lists name (lists name ++ [e :: es])) P' := by
  obtain ⟨he, hrest⟩ := List.forall_mem_cons.mp hes
  obtain ⟨heap₁, P₁, hparse, hplaced⟩ := parse_first (t := e.2) h hname he hfull
  obtain ⟨heap₂, P₂, hmore, hplaced₂⟩ := parse_fields es [e] hname hrest hnodup hplaced
    (Function.update_self _ _ _)
  rw [Function.update_idem] at hplaced₂
  refine ⟨heap₂, P₂, ?_, hplaced₂⟩
  rw [fieldPairs, List.map_cons, List.foldlM_cons, hparse]
  exact hmore

end Parse

section All

variable (L : Items)

theorem recordsOf_concat (done : List (Text × EncodedRecord)) (i : Text × EncodedRecord) :
    recordsOf (done ++ [i]) = Function.update (recordsOf done) (unescapeForm i.1)
      (recordsOf done (unescapeForm i.1) ++ [decodedRecord i.2]) := by
  funext name
  by_cases heq : name = unescapeForm i.1
  · subst heq
    rw [Function.update_self]
    simp [recordsOf]
  · rw [Function.update_of_ne heq]
    simp [recordsOf, Ne.symm heq]

theorem placed_empty :
    Placed none [.hash false ∅] (fun _ => []) ⟨fun _ => none, fun _ => []⟩ where
  root := ⟨∅, rfl, fun key => by cases key <;> rfl⟩
  array _ _ h := by cases h
  records _ := .nil
  absent _ _ := rfl
  used _ _ h := by cases h
  array_inj _ _ _ h := by cases h
  record_inj _ _ _ h := by cases h
  nodup _ := List.nodup_nil

theorem parse_items (items done : List (Text × EncodedRecord)) (hall : done ++ items = L.items)
    {heap : Heap} {P : Places} (h : Placed none heap (recordsOf done) P) :
    ∃ heap' P', (items.flatMap itemPairs).foldlM (parse rubyScanner) heap = .ok heap' ∧
      Placed none heap' (recordsOf L.items) P' := by
  induction items generalizing heap P done with
  | nil =>
    rw [List.append_nil] at hall
    subst hall
    exact ⟨heap, P, rfl, h⟩
  | cons i items ih =>
    have hi : i ∈ L.items := hall ▸ List.mem_append_right done List.mem_cons_self
    obtain ⟨e, es, hrecord, hfirst⟩ := L.starts i hi
    have hdecoded : decodedRecord i.2 =
        (unescapeForm e.1, unescapeForm e.2) :: decodedRecord es := by
      rw [hrecord]
      rfl
    have hnames : ∀ e' ∈ decodedRecord i.2, IsName e'.1 := by
      intro e' he'
      obtain ⟨e'', he'', rfl⟩ := List.mem_map.mp he'
      exact (L.fields i hi e'' he'').1
    have hnodup : ((decodedRecord i.2).map Prod.fst).Nodup := by
      have hdistinct := L.distinct i hi
      rwa [decodedRecord, List.map_map]
    have hfull : ∀ r ∈ (recordsOf done (unescapeForm i.1)).getLast?,
        unescapeForm e.1 ∈ r.map Prod.fst := by
      intro r hr
      obtain ⟨i', hi', rfl⟩ := List.mem_map.mp (List.mem_of_getLast? hr)
      rw [List.mem_filter, decide_eq_true_eq] at hi'
      obtain ⟨e', es', hrecord', hfirst'⟩ :=
        L.starts i' (hall ▸ List.mem_append_left _ hi'.1)
      rw [hrecord', hfirst, ← hi'.2, ← hfirst']
      exact List.mem_cons_self
    rw [hdecoded] at hnames hnodup
    obtain ⟨heap₁, P₁, hparse, hplaced⟩ := parse_record (L.names i hi) hnames hnodup h hfull
    rw [← hdecoded, ← recordsOf_concat] at hplaced
    rw [← hdecoded] at hparse
    obtain ⟨heap₂, P₂, hmore, hplaced₂⟩ := ih (done ++ [i]) (by rw [← hall]; simp) hplaced
    refine ⟨heap₂, P₂, ?_, hplaced₂⟩
    rw [List.flatMap_cons, List.foldlM_append]
    show ((fieldPairs (unescapeForm i.1) (decodedRecord i.2)).foldlM _ heap >>= _) = _
    rw [hparse]
    exact hmore

/-- The objects of the result, as its reader sees them. -/
theorem hasLists_of_placed {heap : Heap} {lists : Lists} {P : Places}
    (h : Placed none heap lists P)
    (hnodup : ∀ name, ∀ r ∈ lists name, (r.map Prod.fst).Nodup) : HasLists heap lists := by
  obtain ⟨fields, hroot, hlookup⟩ := h.root
  refine ⟨fields, hroot, hlookup none, fun name => ⟨fun hnil => ?_, fun hne => ?_⟩⟩
  · rw [hlookup]
    show (P.array name).map Val.ref = none
    cases harray : P.array name with
    | none => rfl
    | some a => exact absurd hnil ((h.used name a harray).resolve_right nofun)
  · cases harray : P.array name with
    | none => exact absurd (h.absent name harray) hne
    | some a =>
      refine ⟨a, P.records name, ?_, h.array name a harray, ?_⟩
      · rw [hlookup]
        show (P.array name).map Val.ref = _
        rw [harray]
        rfl
      · refine List.forall₂_iff_get.mpr ⟨(h.records name).length_eq, fun n hn hn' => ?_⟩
        have hrecord := (List.forall₂_iff_get.mp (h.records name)).2 n hn hn'
        exact ⟨_, hrecord, lookup_fieldsOf_iff (hnodup name _ (List.getElem_mem hn'))⟩

/-- A body is parsed to its lists of records. -/
theorem parsed : ∃ heap, parseQueryParameters rubyScanner (body L.items) = .ok heap ∧
    HasLists heap (recordsOf L.items) := by
  obtain ⟨heap, P, hparse, hplaced⟩ := parse_items L L.items [] rfl placed_empty
  refine ⟨heap, ?_, hasLists_of_placed hplaced (fun name r hr => ?_)⟩
  · rw [parseQueryParameters, pairs_body]
    exact hparse
  · obtain ⟨i, hi, rfl⟩ := List.mem_map.mp hr
    have hdistinct := L.distinct i (List.mem_of_mem_filter hi)
    rwa [decodedRecord, List.map_map]

end All

/-- Lists of records under decoded names come out of the parser as they went in. -/
theorem record_lists_survive (L : Items) :
    ∃ heap, parseQueryParameters rubyScanner (body L.items) = .ok heap ∧
      HasLists heap (recordsOf L.items) := parsed L

/-- Two records under one name, with a record under another one between them. -/
def twoLists : Items where
  items := [(['a'], [(['f'], ['1']), (['g'], ['2', '%', '2', '6'])]), (['b'], [(['h'], ['3'])]),
    (['a'], [(['f'], ['4'])])]
  first := fun name => if name = ['a'] then ['f'] else ['h']
  names := by
    simp only [List.forall_mem_cons]
    exact ⟨⟨by decide, List.all_eq_true.mp (by decide)⟩,
      ⟨by decide, List.all_eq_true.mp (by decide)⟩,
      ⟨by decide, List.all_eq_true.mp (by decide)⟩, List.forall_mem_nil _⟩
  fields := by
    simp only [List.forall_mem_cons]
    exact ⟨⟨⟨⟨by decide, List.all_eq_true.mp (by decide)⟩, by decide⟩,
        ⟨⟨by decide, List.all_eq_true.mp (by decide)⟩, by decide⟩, List.forall_mem_nil _⟩,
      ⟨⟨⟨by decide, List.all_eq_true.mp (by decide)⟩, by decide⟩, List.forall_mem_nil _⟩,
      ⟨⟨⟨by decide, List.all_eq_true.mp (by decide)⟩, by decide⟩, List.forall_mem_nil _⟩,
      List.forall_mem_nil _⟩
  distinct := by
    simp only [List.forall_mem_cons]
    exact ⟨by decide, by decide, by decide, List.forall_mem_nil _⟩
  starts := by
    simp only [List.forall_mem_cons]
    exact ⟨⟨_, _, rfl, by decide⟩, ⟨_, _, rfl, by decide⟩, ⟨_, _, rfl, by decide⟩,
      List.forall_mem_nil _⟩

theorem record_lists_survive_two : ∃ heap,
    parseQueryParameters rubyScanner (body twoLists.items) = .ok heap ∧
      HasLists heap (recordsOf twoLists.items) := record_lists_survive twoLists

/-- One record under a name with a plus sign. -/
def plusItem : Items where
  items := [(['a', '+', 'b'], [(['f'], ['v'])])]
  first := fun _ => ['f']
  names := by
    intro i hi
    rw [List.mem_singleton.mp hi]
    exact ⟨by decide, List.all_eq_true.mp (by decide)⟩
  fields := by
    intro i hi e he
    rw [List.mem_singleton.mp hi] at he
    rw [List.mem_singleton.mp he]
    exact ⟨⟨by decide, List.all_eq_true.mp (by decide)⟩, by decide⟩
  distinct := by
    intro i hi
    rw [List.mem_singleton.mp hi]
    decide
  starts := by
    intro i hi
    rw [List.mem_singleton.mp hi]
    exact ⟨(['f'], ['v']), [], rfl, rfl⟩

/-- The record is not under the name that was sent, but under a name with a blank. -/
theorem plus_name_decoded :
    ¬∃ heap, parseQueryParameters rubyScanner (body [(['a', '+', 'b'], [(['f'], ['v'])])]) =
        .ok heap ∧
      HasLists heap (fun name => if name = ['a', '+', 'b'] then [[(['f'], ['v'])]] else []) := by
  rintro ⟨heap, hparse, fields, hroot, -, hlists⟩
  obtain ⟨heap', hparse', fields', hroot', -, hlists'⟩ := parsed plusItem
  obtain rfl : heap' = heap := Except.ok.inj (hparse'.symm.trans hparse)
  obtain ⟨-, rfl⟩ := Obj.hash.inj (Option.some.inj (hroot'.symm.trans hroot))
  have hnone := (hlists' ['a', '+', 'b']).1 (by decide)
  obtain ⟨a, ids, hsome, -⟩ := (hlists ['a', '+', 'b']).2 (by decide)
  rw [hnone] at hsome
  cases hsome

end Rhodes.RecordLists
