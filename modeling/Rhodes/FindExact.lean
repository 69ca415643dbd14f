import Mathlib
import Rhodes.FindPages

/-!
Conditional find without a page and an order returns the objects of the source that meet the
conditions, each of them once, with the values of its attributes. An object is an id that is not
NULL. The conditions of OR are only looked at one by one where there are two or more, so that none
at all are met by every object.
-/
namespace Rhodes.FindExact

open Database SqlTables RhomSql RhomStatements RhomFind FindTexts FindRows FindAnswers FindLoops
  FindPages

section Wanting

variable (db : Tables) (src : Int)

/-- An object of the source has a value for an attribute. -/
def HasValue (id attrib value : String) : Prop := ∃ r ∈ db.objects.rows,
  r.object = some id ∧ r.attrib = some attrib ∧ r.sourceId = src ∧ r.value = some value

/-- The object has the value of a condition, or none where that is nil. -/
def Meets (id : String) (c : String × Option String) : Prop :=
  match c.2 with
  | some v => HasValue db src id c.1 v
  | none => ∀ v, ¬HasValue db src id c.1 v

def OfSource (object : Option String) : Prop :=
  ∃ r ∈ db.objects.rows, r.object = object ∧ r.sourceId = src

/-- All conditions are met. -/
def MeetsAll (conds : List (String × Option String)) (id : String) : Prop :=
  OfSource db src (some id) ∧ ∀ c ∈ conds, Meets db src id c

/-- One of the conditions is met. -/
def MeetsOne (conds : List (String × Option String)) (id : String) : Prop :=
  OfSource db src (some id) ∧ ∃ c ∈ conds, Meets db src id c

/-- The vars of an object: for each attribute its value or nil, and its id. -/
structure Told (attribs keys : List String) (id : String) (vars : Vars) : Prop where
  values : ∀ a ∈ attribs, ∀ v, Rhom.getVar vars a = some v ↔ HasValue db src id a v
  object : "object" ∉ attribs → "object" ∉ keys →
    Rhom.getVar vars "object" = some (braced (some id))

/-- The wanted objects are found, each of them once. -/
def Exactly (attribs keys : List String) (wanted : String → Prop) (found : List Vars) : Prop :=
  ∃ ids : List (Option String), Once ids ∧ (∀ id, some id ∈ ids ↔ wanted id) ∧
    (none ∈ ids → OfSource db src none) ∧
    List.Forall₂ (fun id vars => ∀ i, id = some i → Told db src attribs keys i vars) ids found

/-- What find_bycondhash is to return for a hash: under OR the objects that meet a condition. -/
def FindsExactly (E : Engine) (srcAttrs : List String)
    (sort : (Vars → Vars → Int) → List Vars → List Vars) (args : FindArgs)
    (cs : List (String × Option String)) : Prop := ∃ found,
  (findBycondhash E src srcAttrs sort .all args none (keyed cs) db).2 =
    some (.objects (some found), db) ∧
  Exactly db src (findAttribs srcAttrs args) (cs.map Prod.fst)
    (if args.opText = "OR" then MeetsOne db src cs else MeetsAll db src cs) found

/-- The ids of the table are C strings, as are its values. -/
def CTable : Prop := ∀ r ∈ db.objects.rows,
  (∀ s, r.object = some s → '\x00' ∉ s.toList) ∧ ∀ s, r.value = some s → '\x00' ∉ s.toList

end Wanting

section Values

variable {db : Tables} (src : Int)

theorem attribValue_iff (id a v : String) :
    attribValue db src (some id) (some a) = some v ↔ HasValue db src id a v := by
  have hmem : ∀ r, r ∈ (attribRow db src (some id) (some a)).toList ↔
      r ∈ db.objects.rows ∧ IsAttrib src (some id) (some a) r := by
    intro r
    rw [← filter_isAttrib, List.mem_filter, decide_eq_true_eq]
  unfold attribValue
  rw [Option.bind_eq_some_iff]
  constructor
  · rintro ⟨r, hr, hv⟩
    obtain ⟨hrow, hobject, hattrib, hsrc⟩ := (hmem r).mp (Option.mem_toList.mpr hr)
    exact ⟨r, hrow, hobject.2, hattrib.2, hsrc, hv⟩
  · rintro ⟨r, hrow, hobject, hattrib, hsrc, hv⟩
    have hisAttrib : IsAttrib src (some id) (some a) r :=
      ⟨⟨by rw [hobject]; rfl, hobject⟩, ⟨by rw [hattrib]; rfl, hattrib⟩, hsrc⟩
    exact ⟨r, Option.mem_toList.mp ((hmem r).mpr ⟨hrow, hisAttrib⟩), hv⟩

/-- The row of a condition that is read as it is. -/
theorem condRow_iff {c : String × Option String} (hkey : SqlPieces.Piece.PlainValue (some c.1))
    (hvalue : SqlPieces.Piece.PlainValue c.2) {v : String} (hv : c.2 = some v)
    (r : ObjectValue) : CondRow src c r ↔
      r.attrib = some c.1 ∧ r.sourceId = src ∧ r.value = some v := by
  have hread : ∀ {w : Option String}, SqlPieces.Piece.PlainValue w → readValue w = w :=
    fun hw => if_neg (fun h => (hw _ h).1 rfl)
  have heq : ∀ (cell : Option String) (s : String), SqlEq cell (some s) ↔ cell = some s :=
    fun cell s => ⟨fun h => h.2, fun h => ⟨by rw [h]; rfl, h⟩⟩
  unfold CondRow
  rw [hread hkey, hread hvalue, hv, heq, heq]

theorem mem_condObjects_iff {c : String × Option String}
    (hkey : SqlPieces.Piece.PlainValue (some c.1)) (hvalue : SqlPieces.Piece.PlainValue c.2)
    (hsome : c.2.isSome) (id : String) :
    some id ∈ condObjects db src c ↔ Meets db src id c := by
  obtain ⟨v, hv⟩ := Option.isSome_iff_exists.mp hsome
  rw [mem_condObjects, Meets, hv]
  constructor
  · rintro ⟨r, hr, hcond, hobject⟩
    obtain ⟨hattrib, hsrc, hval⟩ := (condRow_iff src hkey hvalue hv r).mp hcond
    exact ⟨r, hr, hobject, hattrib, hsrc, hval⟩
  · rintro ⟨r, hr, hobject, hattrib, hsrc, hval⟩
    exact ⟨r, hr, (condRow_iff src hkey hvalue hv r).mpr ⟨hattrib, hsrc, hval⟩, hobject⟩

end Values

section Rows

variable {db : Tables} {src : Int}

/-- A row of listObjs: an attribute that it has is one of its object. -/
structure Stands (db : Tables) (src : Int) (keys : List String) (row : Row) : Prop where
  source : OfSource db src (cell row "object")
  key : ∀ a, cell row "attrib" = some a → a ∈ keys
  value : ∀ a i, cell row "attrib" = some a → cell row "object" = some i →
    ∀ v, cell row "value" = some v ↔ HasValue db src i a v

/-- A C string is given to Ruby as it is. -/
theorem map_cText_of_clean {o : Option String} (h : ∀ s, o = some s → '\x00' ∉ s.toList) :
    o.map cText = o := by
  cases o with
  | none => rfl
  | some s => rw [Option.map_some, cText_eq (h s rfl)]

theorem HasValue.unique {id a v w : String} (h : HasValue db src id a v)
    (h' : HasValue db src id a w) : v = w := by
  have hv := (attribValue_iff src id a v).mpr h
  rw [(attribValue_iff src id a w).mpr h'] at hv
  exact (Option.some.inj hv).symm

theorem CTable.object (hclean : CTable db) {o : Option String} (ho : OfSource db src o) :
    ∀ s, o = some s → '\x00' ∉ s.toList := by
  obtain ⟨r, hr, rfl, -⟩ := ho
  exact (hclean r hr).1

theorem rowObject_eq (hclean : CTable db) {keys : List String} {row : Row}
    (h : Stands db src keys row) {i : String} (hi : cell row "object" = some i) :
    rowObject row = some i := by
  have hobject := hclean.object h.source i hi
  rw [rowObject, hi, Option.map_some, cText_eq hobject]

variable {E : Engine} (hE : Lawful E) {attribs : List String} (hfew : FewAttribs attribs)

include hE hfew

/-- The object of a row is told. -/
theorem told_objectOf (hattribs : CAttribs attribs) (hclean : CTable db) {keys : List String}
    {row : Row} (h : Stands db src keys row) {i : String} (hi : cell row "object" = some i) :
    Told db src attribs keys i (FindLoops.objectOf E src db attribs row) := by
  obtain ⟨vars, hrun, hfetched⟩ := fetchObject_eq hE src db hfew row
  have hvars : FindLoops.objectOf E src db attribs row = vars := by
    rw [FindLoops.objectOf, hrun]
    rfl
  obtain ⟨hattrib, hothers, hrest⟩ := hfetched hattribs
  have hobject := rowObject_eq hclean h hi
  rw [hvars]
  refine ⟨fun a ha v => ?_, fun hnot hkeys => ?_⟩
  · by_cases hcell : cell row "attrib" = some a
    · rw [hattrib a hcell]
      exact h.value a i hcell hi v
    · have hmem : a ∈ nonExistAttrs attribs row := mem_nonExistAttrs.mpr ⟨ha, hcell⟩
      rw [hothers a hmem, rubyValue, hobject, Option.map_eq_some_iff]
      constructor
      · rintro ⟨w, hw, rfl⟩
        have hvalue := (attribValue_iff src i a w).mp hw
        obtain ⟨r, hr, -, -, -, hrw⟩ := hvalue
        rw [cText_eq ((hclean r hr).2 w hrw)]
        exact (attribValue_iff src i a w).mp hw
      · intro hvalue
        have hvalue' := (attribValue_iff src i a v).mpr hvalue
        obtain ⟨r, hr, -, -, -, hrv⟩ := hvalue
        exact ⟨v, hvalue', cText_eq ((hclean r hr).2 v hrv)⟩
  · have hcell : cell row "attrib" ≠ some "object" := fun hc => hkeys (h.key _ hc)
    rw [hrest "object" hnot hcell, hi]
    rfl

omit hE hfew in
/-- A row passes where its object has no value for the attributes that are to have none. -/
theorem passes_iff (hclean : CTable db) {keys : List String} {row : Row}
    (h : Stands db src keys row) {i : String} (hi : cell row "object" = some i)
    {nulls : List (String × Option String)} (hnulls : ∀ c ∈ nulls, '\x00' ∉ c.1.toList) :
    passes src db (keyed nulls) row = true ↔ ∀ c ∈ nulls, ∀ v, ¬HasValue db src i c.1 v := by
  have hobject := rowObject_eq hclean h hi
  unfold passes keyed
  rw [Bool.not_eq_true', List.any_eq_false, List.forall_mem_map]
  refine forall₂_congr (fun c hc => ?_)
  have hkey : (keyArg (.attrib c.1)).map cText = some c.1 := by
    show some (cText c.1) = _
    rw [cText_eq (hnulls c hc)]
  rw [FindRows.hasValue, hobject, hkey, Bool.not_eq_true, Option.isSome_eq_false_iff,
    Option.isNone_iff_eq_none, Option.eq_none_iff_forall_ne_some]
  exact forall_congr' (fun v => not_congr (attribValue_iff src i c.1 v))

end Rows

section Selecting

variable {db : Tables} {src : Int}

/-- The rows of listObjs stand for the wanted objects, each of them once. -/
structure Selected (db : Tables) (src : Int) (keys : List String) (wanted : String → Prop)
    (rows : List Row) : Prop where
  stands : ∀ row ∈ rows, Stands db src keys row
  once : Once (rows.map (fun row => cell row "object"))
  wanted : ∀ id, (∃ row ∈ rows, cell row "object" = some id) ↔ wanted id

/-- What the loop over listObjs makes of them. -/
theorem Selected.exactly {E : Engine} (hE : Lawful E) {attribs : List String}
    (hfew : FewAttribs attribs) (hattribs : CAttribs attribs) (hclean : CTable db)
    {keys : List String} {wanted : String → Prop} {rows : List Row}
    (h : Selected db src keys wanted rows) {nulls : List (String × Option String)}
    (hnulls : ∀ c ∈ nulls, '\x00' ∉ c.1.toList) :
    Exactly db src attribs keys
      (fun id => wanted id ∧ ∀ c ∈ nulls, ∀ v, ¬HasValue db src id c.1 v)
      ((rows.filter (passes src db (keyed nulls))).map
        (FindLoops.objectOf E src db attribs)) := by
  refine ⟨(rows.filter (passes src db (keyed nulls))).map (fun row => cell row "object"),
    ?_, ?_, ?_, ?_⟩
  · exact h.once.sublist (List.filter_sublist.map _)
  · intro id
    show _ ↔ wanted id ∧ _
    rw [List.mem_map, ← h.wanted]
    constructor
    · rintro ⟨row, hrow, hid⟩
      obtain ⟨hrow, hpasses⟩ := List.mem_filter.mp hrow
      exact ⟨⟨row, hrow, hid⟩, (passes_iff hclean (h.stands row hrow) hid hnulls).mp hpasses⟩
    · rintro ⟨⟨row, hrow, hid⟩, hnone⟩
      exact ⟨row, List.mem_filter.mpr
        ⟨hrow, (passes_iff hclean (h.stands row hrow) hid hnulls).mpr hnone⟩, hid⟩
  · intro hnone
    obtain ⟨row, hrow, hid⟩ := List.mem_map.mp hnone
    have hsource := (h.stands row (List.mem_filter.mp hrow).1).source
    rwa [hid] at hsource
  · rw [List.forall₂_map_left_iff, List.forall₂_map_right_iff, List.forall₂_same]
    intro row hrow i hi
    exact told_objectOf hE hfew hattribs hclean (h.stands row (List.mem_filter.mp hrow).1) hi

/-- The rows of the ids of a list. -/
theorem selected_idRows (hclean : CTable db) {objs : List (Option String)} (honce : Once objs)
    (hsource : ∀ o ∈ objs, OfSource db src o) (keys : List String) :
    Selected db src keys (fun id => some id ∈ objs) (idRows objs) := by
  have hcell : ∀ o ∈ objs, cell [("object", o.map cText)] "object" = o := by
    intro o ho
    exact map_cText_of_clean (hclean.object (hsource o ho))
  have hmap : (idRows objs).map (fun row => cell row "object") = objs := by
    rw [idRows, List.map_map]
    conv_rhs => rw [← List.map_id objs]
    exact List.map_congr_left hcell
  refine ⟨?_, ?_, ?_⟩
  · intro row hrow
    obtain ⟨o, ho, rfl⟩ := List.mem_map.mp hrow
    exact ⟨by rw [hcell o ho]; exact hsource o ho, nofun, nofun⟩
  · rw [hmap]
    exact honce
  · intro id
    rw [← List.mem_map (f := fun row => cell row "object"), hmap]

theorem Selected.congr {keys : List String} {wanted wanted' : String → Prop} {rows : List Row}
    (h : Selected db src keys wanted rows) (heq : ∀ id, wanted id ↔ wanted' id) :
    Selected db src keys wanted' rows :=
  ⟨h.stands, h.once, fun id => (h.wanted id).trans (heq id)⟩

/-- Conditions with attributes and values that are read as they are; the name of one that is nil is
bound. -/
def PlainConds (cs : List (String × Option String)) : Prop := ∀ c ∈ cs,
  if c.2.isSome then SqlPieces.Piece.PlainValue (some c.1) ∧ SqlPieces.Piece.PlainValue c.2
  else '\x00' ∉ c.1.toList

/-- Conditions that are not nil. -/
def ValueConds (cs : List (String × Option String)) : Prop := ∀ c ∈ cs, c.2.isSome ∧
  SqlPieces.Piece.PlainValue (some c.1) ∧ SqlPieces.Piece.PlainValue c.2

theorem ValueConds.readable {cs : List (String × Option String)} (h : ValueConds cs) :
    ReadableConds cs :=
  fun c hc => ⟨readable_of_plain (h c hc).2.1, readable_of_plain (h c hc).2.2⟩

theorem ofSource_of_meets {id : String} {c : String × Option String} (hsome : c.2.isSome)
    (h : Meets db src id c) : OfSource db src (some id) := by
  obtain ⟨v, hv⟩ := Option.isSome_iff_exists.mp hsome
  rw [Meets, hv] at h
  obtain ⟨r, hr, hobject, -, hsrc, -⟩ := h
  exact ⟨r, hr, hobject, hsrc⟩

theorem ofSource_of_condObjects {o : Option String} {c : String × Option String}
    (h : o ∈ condObjects db src c) : OfSource db src o := by
  obtain ⟨r, hr, hcond, hobject⟩ := (mem_condObjects db src).mp h
  exact ⟨r, hr, hobject, hcond.2.1⟩

variable {E : Engine} (hE : Lawful E) (hclean : CTable db)

include hE hclean

variable (src) in
/-- The text of all conditions. -/
theorem selected_all {cs : List (String × Option String)} (hconds : ValueConds cs)
    (hmany : cs.length ≤ 500) (keys : List String) :
    ∃ rows, E (condsText src (keyed cs) "") [] db = some (rows, db) ∧
      Selected db src keys (MeetsAll db src cs) rows := by
  cases cs with
  | nil =>
    obtain ⟨objs, hperm, hrun⟩ := execute_distinct db src hE
    have hmem : ∀ o, o ∈ objs ↔ OfSource db src o := by
      intro o
      rw [hperm.mem_iff, mem_sourceObjects]
      exact exists_congr (fun r => and_congr_right (fun _ => and_comm))
    refine ⟨idRows objs, hrun, (selected_idRows hclean ?_ (fun o => (hmem o).mp) keys).congr ?_⟩
    · exact (once_of_nodup (List.nodup_dedup _)).perm hperm.symm
    · exact fun id => (hmem (some id)).trans (and_iff_left (List.forall_mem_nil _)).symm
  | cons c cs =>
    obtain ⟨objs, hperm, hrun⟩ := execute_intersect db src hE hconds.readable hmany
    have hmem : ∀ o, o ∈ objs ↔ ∀ d ∈ c :: cs, o ∈ condObjects db src d := by
      intro o
      rw [hperm.mem_iff, mem_interObjects, List.forall_mem_cons]
    refine ⟨idRows objs, hrun, (selected_idRows hclean ?_ (fun o ho => ?_) keys).congr ?_⟩
    · exact (interObjects_once db src cs (condObjects_once db src c)).perm hperm.symm
    · exact ofSource_of_condObjects ((hmem o).mp ho c List.mem_cons_self)
    · intro id
      rw [hmem, MeetsAll]
      have hiff : ∀ d ∈ c :: cs, some id ∈ condObjects db src d ↔ Meets db src id d := by
        intro d hd
        obtain ⟨hsome, hkey, hvalue⟩ := hconds d hd
        exact mem_condObjects_iff src hkey hvalue hsome id
      rw [forall₂_congr hiff]
      refine ⟨fun h => ⟨?_, h⟩, fun h => h.2⟩
      exact ofSource_of_meets (hconds c List.mem_cons_self).1 (h c List.mem_cons_self)

end Selecting

section Gathering

variable {db : Tables} {src : Int}

def rowId (row : Row) : Option String := cell row "object"

/-- The loop over resObjs adds the rows with objects that are new. -/
theorem newRecs_spec (recs listObjs : List Row) (hnodup : (listObjs.map rowId).Nodup) :
    (∀ row ∈ newRecs recs listObjs, row ∈ listObjs ∨ row ∈ recs) ∧
    (∀ row ∈ recs, ∃ row' ∈ newRecs recs listObjs, rowId row' = rowId row) ∧
    ((newRecs recs listObjs).map rowId).Nodup := by
  induction recs generalizing listObjs with
  | nil => exact ⟨fun row hrow => Or.inl hrow, nofun, hnodup⟩
  | cons rec recs ih =>
    rw [newRecs_cons]
    by_cases hany : listObjs.any (fun r => cell r "object" = cell rec "object")
    · rw [if_pos hany]
      obtain ⟨hmem, hcovers, hnodup'⟩ := ih listObjs hnodup
      refine ⟨fun row hrow => (hmem row hrow).imp_right (List.mem_cons_of_mem rec), ?_, hnodup'⟩
      refine List.forall_mem_cons.mpr ⟨?_, hcovers⟩
      obtain ⟨row, hrow, heq⟩ := List.any_eq_true.mp hany
      exact ⟨row, (newRecs_extends recs listObjs).subset hrow, of_decide_eq_true heq⟩
    · rw [if_neg hany]
      have hfresh : rowId rec ∉ listObjs.map rowId := by
        intro hmem
        obtain ⟨row, hrow, heq⟩ := List.mem_map.mp hmem
        exact hany (List.any_eq_true.mpr ⟨row, hrow, decide_eq_true heq⟩)
      have hnext : ((listObjs ++ [rec]).map rowId).Nodup := by
        rw [List.map_append, List.map_singleton]
        exact List.Nodup.append hnodup (List.nodup_singleton _)
          (List.disjoint_singleton.mpr hfresh)
      obtain ⟨hmem, hcovers, hnodup'⟩ := ih (listObjs ++ [rec]) hnext
      refine ⟨fun row hrow => ?_, List.forall_mem_cons.mpr ⟨?_, hcovers⟩, hnodup'⟩
      · rcases hmem row hrow with hrow | hrow
        · refine (List.mem_append.mp hrow).imp_right (fun h => ?_)
          rw [List.mem_singleton.mp h]
          exact List.mem_cons_self
        · exact Or.inr (List.mem_cons_of_mem rec hrow)
      · exact ⟨rec, (newRecs_extends recs (listObjs ++ [rec])).subset (by simp), rfl⟩

/-- What is in listObjs when these conditions have been looked at. -/
structure Gathered (db : Tables) (src : Int) (done : List (String × Option String))
    (rows : List Row) : Prop where
  comes : ∀ row ∈ rows, ∃ c ∈ done, ∃ r ∈ db.objects.rows, CondRow src c r ∧ row = orRow r
  covers : ∀ c ∈ done, ∀ r ∈ db.objects.rows, CondRow src c r →
    ∃ row ∈ rows, rowId row = r.object.map cText
  once : (rows.map rowId).Nodup

theorem gathered_nil : Gathered db src [] [] := ⟨nofun, nofun, List.nodup_nil⟩

theorem Gathered.next {done : List (String × Option String)} {listObjs : List Row}
    (h : Gathered db src done listObjs) (c : String × Option String) {rs : List ObjectValue}
    (hperm : rs.Perm (db.objects.rows.filter (fun r => CondRow src c r))) :
    Gathered db src (done ++ [c]) (newRecs (rs.map orRow) listObjs) := by
  obtain ⟨hmem, hcovers, honce⟩ := newRecs_spec (rs.map orRow) listObjs h.once
  have hrs : ∀ r, r ∈ rs ↔ r ∈ db.objects.rows ∧ CondRow src c r := by
    intro r
    rw [hperm.mem_iff, List.mem_filter, decide_eq_true_eq]
  have hlast : c ∈ done ++ [c] := by simp
  refine ⟨fun row hrow => ?_, fun d hd r hr hcond => ?_, honce⟩
  · rcases hmem row hrow with hrow | hrow
    · obtain ⟨d, hd, hrest⟩ := h.comes row hrow
      exact ⟨d, List.mem_append_left _ hd, hrest⟩
    · obtain ⟨r, hr, rfl⟩ := List.mem_map.mp hrow
      obtain ⟨hr, hcond⟩ := (hrs r).mp hr
      exact ⟨c, hlast, r, hr, hcond, rfl⟩
  · rcases List.mem_append.mp hd with hd | hd
    · obtain ⟨row, hrow, hid⟩ := h.covers d hd r hr hcond
      exact ⟨row, (newRecs_extends _ listObjs).subset hrow, hid⟩
    · rw [List.mem_singleton.mp hd] at hcond
      exact hcovers (orRow r) (List.mem_map_of_mem ((hrs r).mpr ⟨hr, hcond⟩))

theorem orLoop_gathered {E : Engine} (hE : Lawful E) {cs : List (String × Option String)}
    (hconds : ValueConds cs) {done : List (String × Option String)} {listObjs : List Row}
    (h : Gathered db src done listObjs) : ∃ all,
      orLoop E none (getValueForSqlStmt (some (toString src))) (keyed cs) listObjs db =
        some (all, db) ∧ Gathered db src (done ++ cs) all := by
  induction cs generalizing done listObjs with
  | nil => exact ⟨listObjs, rfl, by rwa [List.append_nil]⟩
  | cons c cs ih =>
    obtain ⟨hc, hcs⟩ := List.forall_mem_cons.mp hconds
    obtain ⟨rs, hperm, hrun⟩ := execute_or db src hE (readable_of_plain hc.2.1)
      (readable_of_plain hc.2.2)
    obtain ⟨all, hall, hgathered⟩ := ih hcs (h.next c hperm)
    refine ⟨all, ?_, by rwa [List.append_assoc] at hgathered⟩
    rw [keyed, List.map_cons, orLoop, hrun]
    simp only [Option.bind_eq_bind, Option.bind_some, addRecs_none, Bool.false_eq_true, if_false]
    exact hall

theorem Gathered.selected {cs : List (String × Option String)} (hconds : ValueConds cs)
    (hclean : CTable db) {rows : List Row} (h : Gathered db src cs rows) :
    Selected db src (cs.map Prod.fst) (MeetsOne db src cs) rows := by
  have hid : ∀ r ∈ db.objects.rows, cell (orRow r) "object" = r.object :=
    fun r hr => map_cText_of_clean (hclean r hr).1
  have hplain : ∀ c ∈ cs, ∀ r, CondRow src c r → ∃ v, c.2 = some v ∧
      r.attrib = some c.1 ∧ r.sourceId = src ∧ r.value = some v := by
    intro c hc r hcond
    obtain ⟨hsome, hkey, hvalue⟩ := hconds c hc
    obtain ⟨v, hv⟩ := Option.isSome_iff_exists.mp hsome
    exact ⟨v, hv, (condRow_iff src hkey hvalue hv r).mp hcond⟩
  refine ⟨fun row hrow => ?_, ?_, fun id => ⟨?_, ?_⟩⟩
  · obtain ⟨c, hc, r, hr, hcond, rfl⟩ := h.comes row hrow
    obtain ⟨v, hv, hattrib, hsrc, hval⟩ := hplain c hc r hcond
    have hkey : '\x00' ∉ c.1.toList := ((hconds c hc).2.1 c.1 rfl).2.2
    have hcell : cell (orRow r) "attrib" = some c.1 := by
      show r.attrib.map cText = _
      rw [hattrib, Option.map_some, cText_eq hkey]
    have hcell' : cell (orRow r) "value" = some v := by
      show r.value.map cText = _
      rw [map_cText_of_clean (hclean r hr).2, hval]
    refine ⟨⟨r, hr, (hid r hr).symm, hsrc⟩, fun a ha => ?_, fun a i ha hi w => ?_⟩
    · rw [hcell] at ha
      cases ha
      exact List.mem_map_of_mem hc
    · rw [hcell] at ha
      cases ha
      rw [hid r hr] at hi
      have hvalue : HasValue db src i c.1 v := ⟨r, hr, hi, hattrib, hsrc, hval⟩
      rw [hcell']
      exact ⟨fun hw => Option.some.inj hw ▸ hvalue,
        fun hw => congrArg some (hvalue.unique hw)⟩
  · exact once_of_nodup h.once
  · rintro ⟨row, hrow, hi⟩
    obtain ⟨c, hc, r, hr, hcond, rfl⟩ := h.comes row hrow
    obtain ⟨v, hv, hattrib, hsrc, hval⟩ := hplain c hc r hcond
    rw [hid r hr] at hi
    refine ⟨⟨r, hr, hi, hsrc⟩, c, hc, ?_⟩
    rw [Meets, hv]
    exact ⟨r, hr, hi, hattrib, hsrc, hval⟩
  · rintro ⟨-, c, hc, hmeets⟩
    obtain ⟨hsome, hkey, hvalue⟩ := hconds c hc
    obtain ⟨v, hv⟩ := Option.isSome_iff_exists.mp hsome
    rw [Meets, hv] at hmeets
    obtain ⟨r, hr, hi, hattrib, hsrc, hval⟩ := hmeets
    obtain ⟨row, hrow, heq⟩ := h.covers c hc r hr
      ((condRow_iff src hkey hvalue hv r).mpr ⟨hattrib, hsrc, hval⟩)
    refine ⟨row, hrow, ?_⟩
    show rowId row = _
    rw [heq, map_cText_of_clean (hclean r hr).1, hi]

end Gathering

section Finding

variable {E : Engine} (hE : Lawful E) (src : Int) (srcAttrs : List String)
  (sort : (Vars → Vars → Int) → List Vars → List Vars) {args : FindArgs}
  (horder : args.order = none) (hpage : args.perPage = none)
  (block : Option (String → String → Int)) (db : Tables)

include hE horder hpage

/-- Every row that is selected and passes is an object that is returned. -/
theorem findSelected_unpaged (hfew : FewAttribs (findAttribs srcAttrs args)) {conds : Conditions}
    {rows : List Row} (hselect : selectObjs E src args.opText conds none none db = some (rows, db))
    (nulls : Conditions) : findSelected E src srcAttrs sort .all args block conds nulls db =
      some (.objects (some ((rows.filter (passes src db nulls)).map
        (FindLoops.objectOf E src db (findAttribs srcAttrs args)))), db) := by
  have hlimit : ∀ offset, strLimit args none offset conds nulls = none := by
    intro offset
    unfold strLimit
    rw [horder]
  obtain ⟨nCount, hwalk⟩ := walk_all hE src db hfew nulls rows [] 0 0
  rw [List.nil_append, List.map_nil] at hwalk
  have hrun : findObjects E src srcAttrs .all args conds nulls db =
      some ((rows.filter (passes src db nulls)).map
        (FindLoops.objectOf E src db (findAttribs srcAttrs args)), nCount, db) := by
    have hnone : findLimit .all args = none := hpage
    have hzero : findOffset args = 0 := by
      rw [findOffset, hpage]
      rfl
    simp only [findObjects, hnone, hzero, hlimit, horder, Option.map_none, Option.isNone_none,
      ite_self, hselect, Option.bind_some]
    exact hwalk
  rw [findSelected, hrun]
  simp only [orderPage, horder]
  rfl

omit hE horder hpage in
theorem Exactly.congr {attribs keys : List String} {wanted wanted' : String → Prop}
    {found : List Vars} (h : Exactly db src attribs keys wanted found)
    (heq : ∀ id, wanted id ↔ wanted' id) : Exactly db src attribs keys wanted' found := by
  obtain ⟨ids, honce, hwanted, hnone, htold⟩ := h
  exact ⟨ids, honce, fun id => (hwanted id).trans (heq id), hnone, htold⟩

omit hE horder hpage in
theorem meetsAll_split (cs : List (String × Option String)) (id : String) :
    MeetsAll db src (cs.filter (fun c => c.2.isSome)) id ∧
      (∀ c ∈ cs.filter (fun c => c.2.isNone), ∀ v, ¬HasValue db src id c.1 v) ↔
    MeetsAll db src cs id := by
  unfold MeetsAll
  rw [and_assoc]
  refine and_congr_right (fun _ => ⟨fun h c hc => ?_, fun h => ⟨fun c hc => ?_, ?_⟩⟩)
  · cases hvalue : c.2 with
    | some v => exact h.1 c (List.mem_filter.mpr ⟨hc, by rw [hvalue]; rfl⟩)
    | none =>
      rw [Meets, hvalue]
      exact h.2 c (List.mem_filter.mpr ⟨hc, by rw [hvalue]; rfl⟩)
  · exact h c (List.mem_filter.mp hc).1
  · intro c hc
    obtain ⟨hc, hnone⟩ := List.mem_filter.mp hc
    have hmeets := h c hc
    rw [Meets, Option.isNone_iff_eq_none.mp hnone] at hmeets
    exact hmeets

section Wanted

variable (hclean : CTable db) (hfew : FewAttribs (findAttribs srcAttrs args))
  (hattribs : CAttribs (findAttribs srcAttrs args))

include hclean hfew hattribs

/-- What find returns of rows that stand for wanted objects. -/
theorem find_selected {keys : List String} {wanted : String → Prop} {conds : Conditions}
    {rows : List Row} (hselect : selectObjs E src args.opText conds none none db = some (rows, db))
    (hselected : Selected db src keys wanted rows) {nulls : List (String × Option String)}
    (hnulls : ∀ c ∈ nulls, '\x00' ∉ c.1.toList) : ∃ found,
      findSelected E src srcAttrs sort .all args block conds (keyed nulls) db =
        some (.objects (some found), db) ∧
      Exactly db src (findAttribs srcAttrs args) keys
        (fun id => wanted id ∧ ∀ c ∈ nulls, ∀ v, ¬HasValue db src id c.1 v) found :=
  ⟨_, findSelected_unpaged hE src srcAttrs sort horder hpage block db hfew hselect (keyed _),
    hselected.exactly hE hfew hattribs hclean hnulls⟩

theorem find_and {cs : List (String × Option String)} (hplain : PlainConds cs)
    (hop : args.opText = "AND") (hmany : (cs.filter (fun c => c.2.isSome)).length ≤ 500) :
    ∃ found, (findBycondhash E src srcAttrs sort .all args block (keyed cs) db).2 =
        some (.objects (some found), db) ∧
      Exactly db src (findAttribs srcAttrs args) (cs.map Prod.fst) (MeetsAll db src cs) found := by
  have hvalues : ValueConds (cs.filter (fun c => c.2.isSome)) := by
    intro c hc
    obtain ⟨hc, hsome⟩ := List.mem_filter.mp hc
    have h := hplain c hc
    rw [if_pos hsome] at h
    exact ⟨hsome, h⟩
  have hnulls : ∀ c ∈ cs.filter (fun c => c.2.isNone), '\x00' ∉ c.1.toList := by
    intro c hc
    obtain ⟨hc, hnone⟩ := List.mem_filter.mp hc
    have h := hplain c hc
    rwa [if_neg (by rw [Option.isNone_iff_eq_none.mp hnone]; decide)] at h
  obtain ⟨rows, hrun, hselected⟩ := selected_all src hE hclean hvalues hmany
    (cs.map Prod.fst)
  have hselect : selectObjs E src args.opText (keyed (cs.filter (fun c => c.2.isSome))) none none
      db = some (rows, db) := by
    rw [selectObjs_conds src (fun h => by rw [hop] at h; exact absurd h.1 (by decide))]
    exact hrun
  obtain ⟨found, hfind, hexactly⟩ := find_selected hE src srcAttrs sort horder hpage block db
    hclean hfew hattribs hselect hselected hnulls
  refine ⟨found, ?_, hexactly.congr src db (meetsAll_split src db cs)⟩
  have hafter : afterFind args.opText (keyed cs) = keyed (cs.filter (fun c => c.2.isSome)) := by
    rw [afterFind, if_pos hop, keyed, List.filter_map]
    rfl
  have hnone : nullsCond args.opText (keyed cs) = keyed (cs.filter (fun c => c.2.isNone)) := by
    rw [nullsCond, if_pos hop, keyed, List.filter_map]
    rfl
  rw [← hfind, findBycondhash, hafter, hnone]

theorem find_or {cs : List (String × Option String)} (hplain : PlainConds cs)
    (hop : args.opText = "OR") (hsome : ∀ c ∈ cs, c.2.isSome) :
    ∃ found, (findBycondhash E src srcAttrs sort .all args block (keyed cs) db).2 =
        some (.objects (some found), db) ∧
      Exactly db src (findAttribs srcAttrs args) (cs.map Prod.fst)
        (if cs = [] then fun id => OfSource db src (some id) else MeetsOne db src cs) found := by
  have hvalues : ValueConds cs := by
    intro c hc
    have h := hplain c hc
    rw [if_pos (hsome c hc)] at h
    exact ⟨hsome c hc, h⟩
  have hand : ¬args.opText = "AND" := by
    rw [hop]
    decide
  have hselected : ∃ rows, selectObjs E src args.opText (keyed cs) none none db =
      some (rows, db) ∧ Selected db src (cs.map Prod.fst)
        (if cs = [] then fun id => OfSource db src (some id) else MeetsOne db src cs) rows := by
    have hlength : (keyed cs).length = cs.length := List.length_map _
    by_cases hmany : cs.length > 1
    · obtain ⟨rows, hrun, hgathered⟩ := orLoop_gathered hE hvalues
        (gathered_nil : Gathered db src [] [])
      have hne : cs ≠ [] := by
        rintro rfl
        exact absurd hmany (Nat.not_lt_zero _)
      refine ⟨rows, ?_, ?_⟩
      · rw [selectObjs, if_pos ⟨hop, by omega⟩]
        exact hrun
      · rw [if_neg hne]
        exact hgathered.selected hvalues hclean
    · obtain ⟨rows, hrun, hselected⟩ := selected_all src hE hclean hvalues (by omega)
        (cs.map Prod.fst)
      refine ⟨rows, ?_, hselected.congr (fun id => ?_)⟩
      · rw [selectObjs_conds src (fun h => by omega)]
        exact hrun
      · cases cs with
        | nil =>
          rw [if_pos rfl]
          exact and_iff_left (List.forall_mem_nil _)
        | cons c cs =>
          have hnil : cs = [] := by
            rw [List.length_cons] at hmany
            exact List.eq_nil_of_length_eq_zero (by omega)
          rw [if_neg (List.cons_ne_nil c cs), hnil, MeetsAll, MeetsOne]
          simp
  obtain ⟨rows, hselect, hselected⟩ := hselected
  obtain ⟨found, hfind, hexactly⟩ := find_selected hE src srcAttrs sort horder hpage block db
    hclean hfew hattribs hselect hselected
    (List.forall_mem_nil _)
  refine ⟨found, ?_, hexactly.congr src db (fun id => and_iff_left (List.forall_mem_nil _))⟩
  rw [← hfind, findBycondhash, afterFind, nullsCond, if_neg hand, if_neg hand]
  rfl

/-- find_bycondhash returns the objects that are wanted: under AND those that meet all conditions,
under OR those that meet one of them, or all objects where there are none. -/
theorem find_exact {cs : List (String × Option String)} (hplain : PlainConds cs) :
    (args.opText = "AND" → (cs.filter (fun c => c.2.isSome)).length ≤ 500 → ∃ found,
      (findBycondhash E src srcAttrs sort .all args block (keyed cs) db).2 =
        some (.objects (some found), db) ∧
      Exactly db src (findAttribs srcAttrs args) (cs.map Prod.fst) (MeetsAll db src cs) found) ∧
    (args.opText = "OR" → (∀ c ∈ cs, c.2.isSome) → ∃ found,
      (findBycondhash E src srcAttrs sort .all args block (keyed cs) db).2 =
        some (.objects (some found), db) ∧
      Exactly db src (findAttribs srcAttrs args) (cs.map Prod.fst)
        (if cs = [] then fun id => OfSource db src (some id) else MeetsOne db src cs) found) :=
  ⟨find_and hE src srcAttrs sort horder hpage block db hclean hfew hattribs hplain,
    find_or hE src srcAttrs sort horder hpage block db hclean hfew hattribs hplain⟩

end Wanted

end Finding

section Refusing

instance : DecidablePred Fits := fun s => by
  cases s <;> unfold Fits <;> infer_instance

/-- SQLite that refuses every statement beyond its limits. -/
def strict : Engine := fun sql args db =>
  match (SqlToken.lexText sql).bind SqlGrammar.parse with
  | none => none
  | some s => if Fits s then sqlite sql args db else none

theorem strict_eq {sql : String} {s : SqlGrammar.Stmt} (hspells : SqlGrammar.Spells sql s)
    (args : List (Option String)) (db : Tables) :
    strict sql args db = if Fits s then sqlite sql args db else none := by
  simp only [strict, hspells.parse_eq]

theorem fits_unlimited {s : SqlGrammar.Stmt} (h : Fits s) : Fits (unlimited s) := by
  cases s with
  | select q => exact ⟨h.1, h.2.1, nofun⟩
  | pivot q => exact ⟨h.1, nofun⟩
  | _ => trivial

theorem strict_lawful : Lawful strict where
  rows sql args db s names values hspells hfits hlimit hrun := by
    rw [strict_eq hspells, if_pos hfits]
    exact sqlite_lawful.rows sql args db s names values hspells hfits hlimit hrun
  page sql sql' args db s l names values hspells hspells' hfits hlimit hrun found hfound := by
    rw [strict_eq hspells', if_pos (fits_unlimited hfits)] at hfound
    rw [strict_eq hspells, if_pos hfits]
    exact sqlite_lawful.page sql sql' args db s l names values hspells hspells' hfits hlimit hrun
      found hfound
  write sql args db s r hspells hrun := by
    have hfits : Fits s := by
      cases s with
      | select q =>
        unfold run bindArgs at hrun
        simp only at hrun
        split at hrun <;> cases hrun
      | pivot q =>
        unfold run bindArgs at hrun
        simp only at hrun
        split at hrun <;> cases hrun
      | _ => trivial
    rw [strict_eq hspells, if_pos hfits]
    exact sqlite_lawful.write sql args db s r hspells hrun

end Refusing

section Beyond

/-- One object with two attributes. -/
def oneObject : Tables where
  objects := ⟨[⟨1, 1, some "name", some "7", some "a", none⟩,
    ⟨2, 1, some "NULL", some "7", some "b", none⟩], by decide⟩
  changed := .emptyFrom 1

def unsorted : (Vars → Vars → Int) → List Vars → List Vars := fun _ l => l

def allArgs (op : Option String) : FindArgs := ⟨none, none, none, none, none, op⟩

/-- How many objects are returned. -/
def foundCount : Option (Found × Tables) → Option Nat
  | some (.objects (some found), _) => some found.length
  | _ => none

def countOf (E : Engine) (attribs : List String) (op : Option String)
    (cs : List (String × Option String)) : Option Nat :=
  foundCount (findBycondhash E 1 attribs unsorted .all (allArgs op) none (keyed cs) oneObject).2

theorem count_of_finds {E : Engine} {attribs : List String} {op : Option String}
    {cs : List (String × Option String)}
    (h : FindsExactly oneObject 1 E attribs unsorted (allArgs op) cs) :
    ∃ ids : List (Option String), countOf E attribs op cs = some ids.length ∧
      (∀ id, some id ∈ ids ↔ if (allArgs op).opText = "OR" then MeetsOne oneObject 1 cs id
        else MeetsAll oneObject 1 cs id) ∧ none ∉ ids := by
  obtain ⟨found, hrun, ids, -, hwanted, hnone, htold⟩ := h
  refine ⟨ids, ?_, fun id => ?_, fun hmem => ?_⟩
  · rw [countOf, hrun, htold.length_eq]
    rfl
  · rw [hwanted]
    split <;> rfl
  · obtain ⟨r, hr, hobject, -⟩ := hnone hmem
    exact absurd hobject ((by decide : ∀ r ∈ oneObject.objects.rows, r.object ≠ none) r hr)

/-- More conditions than SQLite combines. -/
def manyConds : List (String × Option String) :=
  (List.range 501).map (fun n : Nat => (toString (n : Int), some "a"))

/-- More attributes than SQLite has parameters for. -/
def manyAttribs : List String := (List.range 334).map toString

/-- The statement of more conditions is refused. -/
theorem many_conds_refused : countOf strict ["name"] none manyConds = none := by
  have hplain : ReadableConds manyConds := by
    intro c hc
    obtain ⟨n, -, rfl⟩ := List.mem_map.mp hc
    exact ⟨readable_of_plain (plainValue_int n), readable_text (by decide)⟩
  have hlength : manyConds.length = 501 := by
    rw [manyConds, List.length_map, List.length_range]
  have hsome : ∀ c ∈ keyed manyConds, c.2.isSome := by
    intro c hc
    obtain ⟨d, hd, rfl⟩ := List.mem_map.mp hc
    obtain ⟨n, -, rfl⟩ := List.mem_map.mp hd
    rfl
  have hselect : ∀ strLimit enough, strLimit.getD "" = "" → selectObjs strict 1
      (allArgs none).opText (keyed manyConds) strLimit enough oneObject = none := by
    intro strLimit enough hlimit
    rw [selectObjs_conds 1 (fun h => absurd h.1 (by decide)), hlimit]
    obtain ⟨c, cs, hcons⟩ := List.exists_cons_of_length_eq_add_one hlength
    rw [hcons] at hplain hlength ⊢
    have hfits : ¬Fits (.select (SqlSelects.selectOf (condCore c.1 c.2 1)
        (cs.map (condBranch 1)) none)) := by
      rintro ⟨hfew, -⟩
      simp only [SqlSelects.selectOf, List.length_map] at hfew
      rw [List.length_cons] at hlength
      omega
    show strict (intersectText (keyed (c :: cs)) _ "") [] oneObject = none
    rw [strict_eq (intersectText_spells 1 hplain), if_neg hfits]
  have hafter : afterFind (allArgs none).opText (keyed manyConds) = keyed manyConds := by
    rw [afterFind, if_pos (by decide)]
    exact List.filter_eq_self.mpr hsome
  rw [countOf, findBycondhash, hafter, findSelected, findObjects, hselect]
  · rfl
  · rfl

/-- The statement of more attributes is refused. -/
theorem many_attribs_refused {attribs : List String} (hlength : attribs.length = 334) :
    countOf strict attribs none [] = none := by
  obtain ⟨objs, hperm, hrun⟩ := execute_distinct oneObject 1 strict_lawful
  have hobjs : objs = [some "7"] := List.perm_singleton.mp
    (hperm.trans (by decide : (sourceObjects oneObject 1).Perm [some "7"]))
  have hfetch : ∀ row, cell row "attrib" = none →
      fetchObject strict 1 attribs row oneObject = none := by
    intro row hrow
    obtain ⟨a, rest, hcons⟩ := List.exists_cons_of_length_eq_add_one hlength
    have hfits : ¬Fits (.select (SqlSelects.selectOf attribCore
        (rest.map (fun _ => attribBranch)) none)) := by
      rintro ⟨-, hfew, -⟩
      rw [hcons, List.length_cons] at hlength
      have hparams : 3 + 3 * rest.length ≤ 999 := by
        rw [← attribs_params rest]
        exact hfew
      omega
    have hnone : nonExistAttrs attribs row = a :: rest := by
      rw [nonExistAttrs, hrow, hcons]
    rw [fetchObject, hnone, executeIfAny, if_pos (attribsText_length a rest),
      strict_eq (attribsText_spells a rest), if_neg hfits]
    rfl
  have hcell : cell [("object", some (cText "7"))] "attrib" = none := rfl
  have hselect : selectObjs strict 1 (allArgs none).opText [] none none oneObject =
      some ([[("object", some (cText "7"))]], oneObject) := by
    rw [selectObjs_conds 1 (fun h => absurd h.1 (by decide))]
    rw [hobjs] at hrun
    exact hrun
  have hrun' : findObjects strict 1 attribs .all (allArgs none) [] [] oneObject = none := by
    rw [findObjects]
    show (selectObjs strict 1 (allArgs none).opText [] none none oneObject).bind _ = none
    rw [hselect]
    show walk strict 1 ⟨attribs, [], false, 0, none⟩ [[("object", some (cText "7"))]] 0 [] 0
      oneObject = none
    simp only [walk, Nat.not_lt_zero, if_false, nullsSkip, Option.bind_eq_bind, Option.bind_some,
      Bool.false_eq_true, hfetch _ hcell, Option.bind_none]
  rw [countOf, findBycondhash]
  show foundCount (findSelected strict 1 attribs unsorted .all (allArgs none) none [] []
    oneObject) = none
  rw [findSelected, hrun']
  rfl

/-- The objects are not those that meet the conditions where OR has none, where an attribute has the
name NULL, where a value has a zero character, and where there are more conditions or attributes
than SQLite takes. -/
theorem finds_not_exactly :
    ¬FindsExactly oneObject 1 sqlite ["name"] unsorted (allArgs (some "or")) [] ∧
    ¬FindsExactly oneObject 1 sqlite ["name"] unsorted (allArgs none) [("NULL", some "b")] ∧
    ¬FindsExactly oneObject 1 sqlite ["name"] unsorted (allArgs none) [("name", some "a\x00")] ∧
    ¬FindsExactly oneObject 1 strict ["name"] unsorted (allArgs none) manyConds ∧
    ¬FindsExactly oneObject 1 strict manyAttribs unsorted (allArgs none) [] := by
  refine ⟨fun h => ?_, fun h => ?_, fun h => ?_, fun h => ?_, fun h => ?_⟩
  · obtain ⟨ids, hcount, hwanted, hnone⟩ := count_of_finds h
    have hone : countOf sqlite ["name"] (some "or") [] = some 1 := by decide +kernel
    rw [hone] at hcount
    obtain ⟨o, ho⟩ := List.exists_mem_of_length_pos
      (Nat.lt_of_lt_of_eq Nat.one_pos (Option.some.inj hcount))
    cases o with
    | none => exact hnone ho
    | some id =>
      have hor : (allArgs (some "or")).opText = "OR" := by decide +kernel
      have hmeets := (hwanted id).mp ho
      rw [if_pos hor] at hmeets
      obtain ⟨-, c, hc, -⟩ := hmeets
      exact List.not_mem_nil hc
  · obtain ⟨ids, hcount, hwanted, -⟩ := count_of_finds h
    have hzero : countOf sqlite ["name"] none [("NULL", some "b")] = some 0 := by decide +kernel
    rw [hzero] at hcount
    have hand : ¬(allArgs none).opText = "OR" := by decide
    have hmeets : MeetsAll oneObject 1 [("NULL", some "b")] "7" := by
      refine ⟨⟨_, List.mem_cons_self, rfl, rfl⟩, List.forall_mem_singleton.mpr ?_⟩
      exact ⟨⟨2, 1, some "NULL", some "7", some "b", none⟩, by decide, rfl, rfl, rfl, rfl⟩
    have hmem := (hwanted "7").mpr (by rw [if_neg hand]; exact hmeets)
    rw [List.eq_nil_of_length_eq_zero (Option.some.inj hcount).symm] at hmem
    exact List.not_mem_nil hmem
  · obtain ⟨ids, hcount, -⟩ := count_of_finds h
    have hraises : countOf sqlite ["name"] none [("name", some "a\x00")] = none := by
      decide +kernel
    rw [hraises] at hcount
    cases hcount
  · obtain ⟨ids, hcount, -⟩ := count_of_finds h
    rw [many_conds_refused] at hcount
    cases hcount
  · obtain ⟨ids, hcount, -⟩ := count_of_finds h
    have hlength : manyAttribs.length = 334 := by
      rw [manyAttribs, List.length_map, List.length_range]
    rw [many_attribs_refused hlength] at hcount
    cases hcount

/-- Two objects with the same name, the second one with a phone. -/
def twoNamed : Tables where
  changed := ChangedTable.empty
  objects := ⟨[⟨1, 1, some "name", some "7", some "a", none⟩,
    ⟨2, 1, some "name", some "8", some "a", none⟩,
    ⟨3, 1, some "phone", some "8", some "5", none⟩], by decide⟩

def nameNoPhone : List (String × Option String) := [("name", some "a"), ("phone", none)]

def nameOrPhone : List (String × Option String) := [("name", some "b"), ("phone", some "5")]

theorem plainConds_nameNoPhone : PlainConds nameNoPhone := by
  refine List.forall_mem_cons.mpr ⟨⟨?_, ?_⟩, List.forall_mem_singleton.mpr ?_⟩
  case refine_3 =>
    rw [if_neg (by decide)]
    decide
  all_goals
    rintro s hs
    cases hs
    exact ⟨by decide, by decide, by decide⟩

theorem plainConds_nameOrPhone : PlainConds nameOrPhone := by
  refine List.forall_mem_cons.mpr ⟨⟨?_, ?_⟩, List.forall_mem_singleton.mpr ⟨?_, ?_⟩⟩
  all_goals
    rintro s hs
    cases hs
    exact ⟨by decide, by decide, by decide⟩

/-- The one object with the name and no phone under AND, and the one with the phone under OR. -/
theorem find_exact_name :
    (∃ found, (findBycondhash sqlite 1 ["name", "phone"] unsorted .all (allArgs none) none
        (keyed nameNoPhone) twoNamed).2 = some (.objects (some found), twoNamed) ∧
      Exactly twoNamed 1 ["name", "phone"] ["name", "phone"]
        (MeetsAll twoNamed 1 nameNoPhone) found) ∧
    ∃ found, (findBycondhash sqlite 1 ["name", "phone"] unsorted .all (allArgs (some "or")) none
        (keyed nameOrPhone) twoNamed).2 = some (.objects (some found), twoNamed) ∧
      Exactly twoNamed 1 ["name", "phone"] ["name", "phone"]
        (MeetsOne twoNamed 1 nameOrPhone) found := by
  have hclean : CTable twoNamed := by
    intro r hr
    have htexts : ∀ r ∈ twoNamed.objects.rows, (∀ s ∈ r.object, '\x00' ∉ s.toList) ∧
        ∀ s ∈ r.value, '\x00' ∉ s.toList := by decide
    exact htexts r hr
  have hattribs : CAttribs ["name", "phone"] :=
    List.forall_mem_cons.mpr ⟨by decide, List.forall_mem_singleton.mpr (by decide)⟩
  have hfew : FewAttribs ["name", "phone"] := (by decide : 3 * 2 ≤ 999)
  have hor : (allArgs (some "or")).opText = "OR" := by decide +kernel
  have horder : ∀ op, (allArgs op).order = none := fun _ => rfl
  have hpage : ∀ op, (allArgs op).perPage = none := fun _ => rfl
  refine ⟨(find_exact sqlite_lawful 1 ["name", "phone"] unsorted (horder none) (hpage none) none
    twoNamed hclean hfew hattribs plainConds_nameNoPhone).1 rfl (by decide), ?_⟩
  exact (find_exact sqlite_lawful 1 ["name", "phone"] unsorted (horder (some "or"))
    (hpage (some "or")) none twoNamed hclean hfew hattribs plainConds_nameOrPhone).2 hor
    (List.forall_mem_cons.mpr ⟨rfl, List.forall_mem_singleton.mpr rfl⟩)

end Beyond

end Rhodes.FindExact
