import Rhodes.Comparing
import Rhodes.FindPages

/-!
The pages of find with an order. With conditions or a block the whole list is sorted in Ruby and
sliced, which is nil past the end; otherwise SQLite orders and limits the rows and the page is
sliced a second time.
-/
namespace Rhodes.FindOrders

open Database SqlTables RhomSql RhomStatements RhomFind FindTexts FindRows FindAnswers FindLoops
  LimitedTexts FindPages

section Source

variable (E : Engine) (src : Int) (srcAttrs : List String)
  (sort : (Vars → Vars → Int) → List Vars → List Vars) (args : FindArgs)
  (block : Option (String → String → Int))

/-- find(:all, :order => a) without a page. -/
def ordered (conds : Option Conditions) (db : Tables) : Option (Found × Tables) :=
  (find E src srcAttrs sort .all (some { args with perPage := none, offset := none }) block conds
    db).2

/-- The page is a part of the whole result. -/
def PageIsSlice (conds : Option Conditions) (k i : Nat) (db : Tables) : Prop :=
  ∃ all, ordered E src srcAttrs sort args block conds db = some (.objects (some all), db) ∧
    (findPage E src srcAttrs sort args k block i conds db).2 =
      some (.objects (some ((all.drop (i * k)).take k)), db)

/-- The text of find without conditions, which SQLite orders when there is no block. -/
def sortedText (strLimit : String) : String :=
  pivotText (args.select.getD srcAttrs) (whereCond src .all)
    (if block.isSome then none else args.order.map (fun a => (a, args.dir))) strLimit

/-- The texts of a query with an order and without a page. -/
def orderedTexts (conds : Option Conditions) : List String :=
  match conds with
  | some conds => condsTexts src args (afterFind args.opText conds)
  | none => [sortedText src srcAttrs args block ""]

/-- What SQLite answers to the texts: nothing where it refuses one. Without a block and conditions
the text gets a limit, and its answer is that part of the rows. -/
structure Answers (answer : String → Option (List Row)) (conds : Option Conditions) (k i : Nat)
    (db : Tables) : Prop where
  whole : ∀ sql ∈ orderedTexts src srcAttrs args block conds,
    E sql [] db = (answer sql).map (fun rows => (rows, db))
  part : conds = none → block = none →
    E (sortedText src srcAttrs args block (limitText k (i * k))) [] db =
      (answer (sortedText src srcAttrs args block "")).map
        (fun rows => ((rows.drop (i * k)).take k, db))

/-- The rows that the answers make up. -/
def selectedRows (answer : String → Option (List Row)) (conds : Conditions) : Option (List Row) :=
  if args.opText = "OR" ∧ conds.length > 1 then
    conds.foldlM (fun objs kv => (answer (orText kv (getValueForSqlStmt (some (toString src))))).map
      (fun recs => newRecs recs objs)) []
  else answer (condsText src conds "")

/-- The rows of the objects that are found; find rescues a refusal when there are no conditions. -/
def foundRows (answer : String → Option (List Row)) (conds : Option Conditions) (db : Tables) :
    Option (List Row) :=
  match conds with
  | some conds => (selectedRows src args answer (afterFind args.opText conds)).map
      (fun rows => rows.filter (passes src db (nullsCond args.opText conds)))
  | none => some (if (args.select.getD srcAttrs).length > 0 then
      (answer (sortedText src srcAttrs args block "")).getD [] else [])

/-- A page that is not past the end of what is found; the first one, when SQLite orders. -/
def InReach (answer : String → Option (List Row)) (conds : Option Conditions) (k i : Nat)
    (db : Tables) : Prop :=
  ∃ rows, foundRows src srcAttrs args block answer conds db = some rows ∧
    if conds = none ∧ block = none then i = 0 else i * k ≤ rows.length

end Source

section Slicing

theorem slice_eq_some {α : Type} (l : List α) (start len : Nat) :
    slice l start len = some ((l.drop start).take len) ↔ start ≤ l.length := by
  unfold slice
  constructor
  · intro h
    by_contra hlt
    rw [if_pos (by omega)] at h
    cases h
  · intro h
    rw [if_neg (by omega)]

/-- A page that is sliced again: only the first one stays as it is. -/
theorem slice_page {α : Type} (l : List α) {k : Nat} (hk : 0 < k) (i : Nat) :
    slice ((l.drop (i * k)).take k) (i * k) k = some ((l.drop (i * k)).take k) ↔ i = 0 := by
  have hlength : ((l.drop (i * k)).take k).length ≤ k := List.length_take_le _ _
  constructor
  · intro h
    by_contra hi
    have hle : 1 * k ≤ i * k := Nat.mul_le_mul_right k (Nat.one_le_iff_ne_zero.mpr hi)
    unfold slice at h
    split at h
    · cases h
    · have hdrop : (((l.drop (i * k)).take k).drop (i * k)).take k = [] := by
        rw [List.drop_eq_nil_of_le (by omega), List.take_nil]
      rw [hdrop] at h
      have hnil := congrArg List.length (Option.some.inj h)
      rw [List.length_nil] at hnil
      omega
  · rintro rfl
    simp [slice, List.take_take]

end Slicing

section Selecting

variable {E : Engine} (src : Int) (srcAttrs : List String)
  (sort : (Vars → Vars → Int) → List Vars → List Vars) (args : FindArgs)
  (block : Option (String → String → Int)) {answer : String → Option (List Row)} {db : Tables}

theorem orLoop_answers {srcidValue : String} {conds : Conditions}
    (hanswer : ∀ kv ∈ conds, E (orText kv srcidValue) [] db =
      (answer (orText kv srcidValue)).map (fun rows => (rows, db))) (listObjs : List Row) :
    orLoop E none srcidValue conds listObjs db =
      (conds.foldlM (fun objs kv => (answer (orText kv srcidValue)).map
        (fun recs => newRecs recs objs)) listObjs).map (fun objs => (objs, db)) := by
  induction conds generalizing listObjs with
  | nil => rfl
  | cons kv conds ih =>
    obtain ⟨hkv, hconds⟩ := List.forall_mem_cons.mp hanswer
    rw [List.foldlM_cons]
    cases hrows : answer (orText kv srcidValue) with
    | none =>
      rw [hrows] at hkv
      simp only [orLoop, hkv, Option.map_none, Option.bind_eq_bind, Option.bind_none]
    | some rows =>
      rw [hrows] at hkv
      simp only [orLoop, hkv, Option.map_some, Option.bind_eq_bind, Option.bind_some, addRecs_none,
        Bool.false_eq_true, if_false]
      exact ih hconds _

theorem selectObjs_answers {conds : Conditions}
    (hanswer : ∀ sql ∈ condsTexts src args conds,
      E sql [] db = (answer sql).map (fun rows => (rows, db))) :
    selectObjs E src args.opText conds none none db =
      (selectedRows src args answer conds).map (fun rows => (rows, db)) := by
  unfold condsTexts at hanswer
  unfold selectedRows
  by_cases hor : args.opText = "OR" ∧ conds.length > 1
  · rw [if_pos hor] at hanswer ⊢
    simp only [selectObjs, if_pos hor]
    exact orLoop_answers (fun kv hkv => hanswer _ (List.mem_map_of_mem hkv)) []
  · rw [if_neg hor] at hanswer ⊢
    rw [selectObjs_conds src hor]
    exact hanswer _ (List.mem_singleton_self _)

variable {args} {a : String} (horder : args.order = some a)

include horder

/-- With an order the whole list is fetched, whatever the page is. -/
theorem findObjects_ordered (hE : Lawful E) (hfew : FewAttribs (findAttribs srcAttrs args))
    {conds : Conditions} (nulls : Conditions) (hanswer : ∀ sql ∈ condsTexts src args conds,
      E sql [] db = (answer sql).map (fun rows => (rows, db))) :
    ∃ nCount : List Row → Nat, findObjects E src srcAttrs .all args conds nulls db =
      (selectedRows src args answer conds).map (fun rows =>
        ((rows.filter (passes src db nulls)).map (objectOf E src db (findAttribs srcAttrs args)),
          nCount rows, db)) := by
  have hlimit : strLimit args (findLimit .all args) (findOffset args) conds nulls = none := by
    unfold strLimit
    rw [horder]
  have hwalk : ∀ rows, ∃ n, walk E src ⟨findAttribs srcAttrs args, nulls, false, 0, none⟩ rows 0
      [] 0 db = some ((rows.filter (passes src db nulls)).map
        (objectOf E src db (findAttribs srcAttrs args)), n, db) :=
    fun rows => walk_all hE src db hfew nulls rows [] 0 0
  choose nCount hnCount using hwalk
  have hobjects : findObjects E src srcAttrs .all args conds nulls db =
      (selectObjs E src args.opText conds none none db).bind (fun r =>
        walk E src ⟨findAttribs srcAttrs args, nulls, false, 0, none⟩ r.1 0 [] 0 r.2) := by
    simp [findObjects, hlimit, horder]
  refine ⟨nCount, ?_⟩
  rw [hobjects, selectObjs_answers src args hanswer]
  cases selectedRows src args answer conds with
  | none => rfl
  | some rows => exact hnCount rows

variable (args) in
theorem findSelected_ordered (hE : Lawful E) (hfew : FewAttribs (findAttribs srcAttrs args))
    {conds nulls : Conditions} (hanswer : ∀ sql ∈ condsTexts src args conds,
      E sql [] db = (answer sql).map (fun rows => (rows, db))) :
    findSelected E src srcAttrs sort .all args block conds nulls db =
      (selectedRows src args answer conds).bind (fun rows =>
        (orderPage sort args.order args.dir block
          (args.perPage.map (fun limit => (limit, findOffset args)))
          ((rows.filter (passes src db nulls)).map
            (objectOf E src db (findAttribs srcAttrs args)))).map
          (fun ret => (.objects (some ret), db))) := by
  obtain ⟨nCount, hobjects⟩ := findObjects_ordered src srcAttrs horder hE hfew nulls hanswer
  rw [findSelected, hobjects]
  cases selectedRows src args answer conds with
  | none => rfl
  | some rows =>
    have hlimit : findLimit .all args = args.perPage := rfl
    simp only [Option.map_some, Option.bind_eq_bind, Option.bind_some, hlimit]
    cases orderPage sort args.order args.dir block
      (args.perPage.map (fun limit => (limit, findOffset args)))
      ((rows.filter (passes src db nulls)).map (objectOf E src db (findAttribs srcAttrs args))) with
    | none => rfl
    | some ret => rfl

end Selecting

section Paging

variable {E : Engine} (hE : Lawful E) (src : Int) (srcAttrs : List String)
  {sort : (Vars → Vars → Int) → List Vars → List Vars} (hsort : Comparing.Sorts sort)
  {args : FindArgs} {a : String} (horder : args.order = some a)
  (block : Option (String → String → Int)) {answer : String → Option (List Row)} {db : Tables}
  {k : Nat} (i : Nat)

include horder

include hE hsort in
theorem conds_slice_iff (hfew : FewAttribs (findAttribs srcAttrs args)) {conds : Conditions}
    (hanswer : Answers E src srcAttrs args block answer (some conds) k i db) :
    PageIsSlice E src srcAttrs sort args block (some conds) k i db ↔
      InReach src srcAttrs args block answer (some conds) k i db := by
  obtain ⟨hwhole, -⟩ := hanswer
  have hwhole' : ∀ sql ∈ condsTexts src args (afterFind args.opText conds),
      E sql [] db = (answer sql).map (fun rows => (rows, db)) := hwhole
  have hrun : ∀ perPage offset page, perPage.map (fun limit => (limit,
      findOffset { args with perPage, offset })) = page →
      findSelected E src srcAttrs sort .all { args with perPage, offset } block
        (afterFind args.opText conds) (nullsCond args.opText conds) db =
      (selectedRows src args answer (afterFind args.opText conds)).bind (fun rows =>
        (orderPage sort args.order args.dir block page ((rows.filter (passes src db
          (nullsCond args.opText conds))).map (objectOf E src db (findAttribs srcAttrs args)))).map
          (fun ret => (.objects (some ret), db))) := by
    rintro perPage offset page rfl
    exact findSelected_ordered src srcAttrs sort { args with perPage, offset } block horder hE hfew
      hwhole'
  have hselected : foundRows src srcAttrs args block answer (some conds) db =
      (selectedRows src args answer (afterFind args.opText conds)).map
        (fun rows => rows.filter (passes src db (nullsCond args.opText conds))) := rfl
  unfold PageIsSlice InReach
  show (∃ all, findSelected E src srcAttrs sort .all { args with perPage := none, offset := none }
      block (afterFind args.opText conds) (nullsCond args.opText conds) db = _ ∧
    findSelected E src srcAttrs sort .all
      { args with perPage := some k, offset := some (i * k) } block
      (afterFind args.opText conds) (nullsCond args.opText conds) db = _) ↔ _
  rw [hrun none none none rfl, hrun (some k) (some (i * k)) (some (k, i * k)) rfl, hselected]
  cases selectedRows src args answer (afterFind args.opText conds) with
  | none =>
    refine iff_of_false ?_ ?_
    · rintro ⟨all, hall, -⟩
      cases hall
    · rintro ⟨rows, hrows, -⟩
      cases hrows
  | some rows =>
    obtain ⟨found, hfound⟩ : ∃ found, found =
        rows.filter (passes src db (nullsCond args.opText conds)) := ⟨_, rfl⟩
    obtain ⟨all, hall⟩ : ∃ all, all = sort (orderBlock a args.dir block)
        (found.map (objectOf E src db (findAttribs srcAttrs args))) := ⟨_, rfl⟩
    have hlength : all.length = found.length := by
      rw [hall, (hsort.perm _ _).length_eq, List.length_map]
    have hwholePage : orderPage sort args.order args.dir block none
        (found.map (objectOf E src db (findAttribs srcAttrs args))) = some all := by
      simp only [orderPage, horder, hall]
    have hpart : orderPage sort args.order args.dir block (some (k, i * k))
        (found.map (objectOf E src db (findAttribs srcAttrs args))) = slice all (i * k) k := by
      simp only [orderPage, horder, hall]
    rw [Option.map_some, Option.bind_some, Option.bind_some, ← hfound]
    rw [hwholePage, hpart]
    constructor
    · rintro ⟨all', hall', hslice⟩
      cases hall'
      refine ⟨found, rfl, ?_⟩
      rw [if_neg (by simp), ← hlength, ← slice_eq_some]
      cases hs : slice all (i * k) k with
      | none =>
        rw [hs] at hslice
        cases hslice
      | some l =>
        rw [hs] at hslice
        cases hslice
        rfl
    · rintro ⟨rows', hrows', hreach⟩
      cases hrows'
      rw [if_neg (by simp), ← hlength, ← slice_eq_some] at hreach
      refine ⟨all, rfl, ?_⟩
      rw [hreach]
      rfl

variable (args db) in
/-- The rows of find without conditions, for a page and without one. -/
theorem genericRows_ordered : genericRows E src srcAttrs .all args block db =
    if (args.select.getD srcAttrs).length > 0 then
      executeRescued E (sortedText src srcAttrs args block (if block.isSome then "" else
        ((args.perPage.map (fun k => limitText k (args.offset.getD 0))).getD ""))) db
    else ([], db) := by
  cases block with
  | none =>
    cases hpage : args.perPage <;> simp [genericRows, sortedText, paging, horder, hpage]
  | some b => simp [genericRows, sortedText, horder]

/-- The rows that are found, or the part of them that the limit says. -/
theorem generic_found (hanswer : Answers E src srcAttrs args block answer none k i db) :
    ∃ found, foundRows src srcAttrs args block answer none db = some found ∧
      genericRows E src srcAttrs .all { args with perPage := none, offset := none } block db =
        (found, db) ∧
      genericRows E src srcAttrs .all { args with perPage := some k, offset := some (i * k) } block
        db = (if block.isSome then found else (found.drop (i * k)).take k, db) := by
  obtain ⟨hwhole, hpart⟩ := hanswer
  have hall := genericRows_ordered (E := E) src srcAttrs
    { args with perPage := none, offset := none } horder block db
  have hpage := genericRows_ordered (E := E) src srcAttrs
    { args with perPage := some k, offset := some (i * k) } horder block db
  have htext : E (sortedText src srcAttrs args block "") [] db =
      (answer (sortedText src srcAttrs args block "")).map (fun rows => (rows, db)) :=
    hwhole _ (List.mem_singleton_self _)
  have hrescued : executeRescued E (sortedText src srcAttrs args block "") db =
      ((answer (sortedText src srcAttrs args block "")).getD [], db) := by
    rw [executeRescued, htext]
    cases answer (sortedText src srcAttrs args block "") <;> rfl
  refine ⟨_, rfl, ?_, ?_⟩
  · rw [hall]
    show (if (args.select.getD srcAttrs).length > 0 then executeRescued E (sortedText src srcAttrs
      args block (if block.isSome then "" else "")) db else ([], db)) = _
    rw [ite_self, hrescued]
    split <;> rfl
  · rw [hpage]
    show (if (args.select.getD srcAttrs).length > 0 then executeRescued E (sortedText src srcAttrs
      args block (if block.isSome then "" else limitText k (i * k))) db else ([], db)) = _
    cases block with
    | some b =>
      simp only [Option.isSome_some, if_true, hrescued]
      split <;> rfl
    | none =>
      have hlimited := hpart rfl rfl
      simp only [Option.isSome_none, Bool.false_eq_true, if_false, executeRescued, hlimited]
      split
      · cases answer (sortedText src srcAttrs args none "") with
        | none => simp
        | some rows => rfl
      · simp

include hsort in
theorem generic_slice_iff (hk : 0 < k)
    (hanswer : Answers E src srcAttrs args block answer none k i db) :
    PageIsSlice E src srcAttrs sort args block none k i db ↔
      InReach src srcAttrs args block answer none k i db := by
  obtain ⟨found, hfound, hall, hpage⟩ := generic_found src srcAttrs horder block i hanswer
  have hreach : InReach src srcAttrs args block answer none k i db ↔
      if block = none then i = 0 else i * k ≤ found.length := by
    unfold InReach
    rw [hfound]
    simp
  have hordered : ordered E src srcAttrs sort args block none db =
      some (.objects (genericPage sort args block none (found.map (rowVars src))), db) := by
    show findGeneric E src srcAttrs sort .all { args with perPage := none, offset := none } block
      db = _
    simp only [findGeneric, hall]
    rfl
  have hslice : (findPage E src srcAttrs sort args k block i none db).2 =
      some (.objects (genericPage sort args block (some (k, i * k))
        ((if block.isSome then found else (found.drop (i * k)).take k).map (rowVars src))),
        db) := by
    show findGeneric E src srcAttrs sort .all
      { args with perPage := some k, offset := some (i * k) } block db = _
    simp only [findGeneric, hpage]
    rfl
  unfold PageIsSlice
  rw [hordered, hslice, hreach]
  cases block with
  | some b =>
    obtain ⟨all, hsorted⟩ : ∃ all, all =
        sort (orderBlock a args.dir (some b)) (found.map (rowVars src)) := ⟨_, rfl⟩
    have hlength : all.length = found.length := by
      rw [hsorted, (hsort.perm _ _).length_eq, List.length_map]
    simp only [genericPage, horder, Option.isSome_some, if_true, ← hsorted, if_neg
      (Option.some_ne_none b), ← hlength, ← slice_eq_some all (i * k) k]
    simp
  | none =>
    simp only [genericPage, horder, Option.isSome_none, Bool.false_eq_true, if_false, if_true,
      List.map_take, List.map_drop, ← slice_page (found.map (rowVars src)) hk i]
    simp

include hE hsort in
/-- A page is its slice of the whole ordered result just where it is not past the end, and where it
is the first one when there are neither conditions nor a block. -/
theorem ordered_page_iff (hk : 0 < k) (hfew : FewAttribs (findAttribs srcAttrs args))
    {conds : Option Conditions}
    (hanswer : Answers E src srcAttrs args block answer conds k i db) :
    PageIsSlice E src srcAttrs sort args block conds k i db ↔
      InReach src srcAttrs args block answer conds k i db := by
  cases conds with
  | none => exact generic_slice_iff src srcAttrs hsort horder block i hk hanswer
  | some conds => exact conds_slice_iff hE src srcAttrs hsort horder block i hfew hanswer

end Paging

section Readable

variable {E : Engine} (hE : Lawful E) (src : Int) (srcAttrs : List String) (args : FindArgs)
  (block : Option (String → String → Int)) (db : Tables) (k i : Nat)

/-- What SQLite answers to a text. -/
def answerOf (E : Engine) (db : Tables) (sql : String) : Option (List Row) :=
  (E sql [] db).map Prod.fst

theorem afterFind_keyed (op : String) (cs : List (String × Option String)) :
    ∃ cs', cs'.Sublist cs ∧ afterFind op (keyed cs) = keyed cs' := by
  unfold afterFind
  split
  · exact ⟨_, List.filter_sublist, List.filter_map⟩
  · exact ⟨cs, .refl _, rfl⟩

/-- Answers to all of the texts make up rows. -/
theorem selectedRows_some (answer : String → Option (List Row)) (conds : Conditions)
    (hanswer : ∀ sql ∈ condsTexts src args conds, ∃ rows, answer sql = some rows) :
    ∃ rows, selectedRows src args answer conds = some rows := by
  unfold condsTexts at hanswer
  unfold selectedRows
  split
  · rename_i hor
    rw [if_pos hor] at hanswer
    have hloop : ∀ (conds : Conditions) (objs : List Row), (∀ kv ∈ conds, ∃ rows,
        answer (orText kv (getValueForSqlStmt (some (toString src)))) = some rows) →
        ∃ rows, conds.foldlM (fun objs kv => (answer (orText kv (getValueForSqlStmt
          (some (toString src))))).map (fun recs => newRecs recs objs)) objs = some rows := by
      intro conds
      induction conds with
      | nil => exact fun objs _ => ⟨objs, rfl⟩
      | cons kv conds ih =>
        intro objs h
        obtain ⟨⟨recs, hrecs⟩, hconds⟩ := List.forall_mem_cons.mp h
        rw [List.foldlM_cons, hrecs]
        exact ih _ hconds
    exact hloop conds [] (fun kv hkv => hanswer _ (List.mem_map_of_mem hkv))
  · rename_i hor
    rw [if_neg hor] at hanswer
    exact hanswer _ (List.mem_singleton_self _)

theorem selectedRows_keyed (answer : String → Option (List Row)) (hop : args.opText ≠ "OR")
    (c : String × Option String) (cs : List (String × Option String)) :
    selectedRows src args answer (keyed (c :: cs)) =
      answer (intersectText (keyed (c :: cs)) (getValueForSqlStmt (some (toString src))) "") := by
  unfold selectedRows
  rw [if_neg (fun h => hop h.1)]
  rfl

include hE

/-- With readable conditions every page is answered. -/
theorem answers_keyed {cs : List (String × Option String)} (hread : ReadableConds cs)
    (hmany : cs.length ≤ 500) :
    Answers E src srcAttrs args block (answerOf E db) (some (keyed cs)) k i db ∧
      ∃ rows, foundRows src srcAttrs args block (answerOf E db) (some (keyed cs)) db =
        some rows := by
  obtain ⟨cs', hsub, hafter⟩ := afterFind_keyed args.opText cs
  have hanswer := condsTexts_answered hE db src args
    (fun c hc => hread c (hsub.subset hc)) (hsub.length_le.trans hmany)
  rw [← hafter] at hanswer
  refine ⟨⟨?_, fun h => by cases h⟩, ?_⟩
  · intro sql hsql
    obtain ⟨rows, hrun⟩ := hanswer sql hsql
    rw [answerOf, hrun]
    rfl
  · obtain ⟨rows, hrows⟩ := selectedRows_some src args (answerOf E db)
      (afterFind args.opText (keyed cs)) (fun sql hsql => by
        obtain ⟨rows, hrun⟩ := hanswer sql hsql
        exact ⟨rows, by rw [answerOf, hrun]; rfl⟩)
    exact ⟨_, by rw [foundRows, hrows]; rfl⟩

/-- With plain attributes and a direction that SQL has every page is answered. -/
theorem answers_columns (hattribs : PlainColumns (args.select.getD srcAttrs)) {a : String}
    (horder : args.order = some a) (hplain : SqlPieces.Piece.PlainIn '"' a)
    {dir : SqlGrammar.Direction} (hdir : args.dir = PivotTexts.dirText dir)
    (hsmall : k + i * k < 2 ^ 63) :
    Answers E src srcAttrs args none (answerOf E db) none k i db := by
  obtain ⟨s, hlimited⟩ := limited_pivot db hattribs (sourceField_readable src)
    (sourceField_known src) (some (a, dir)) (fun o ho => by cases ho; exact hplain)
  have htext : sortedText src srcAttrs args none = pivotText (args.select.getD srcAttrs)
      (texts [(sourceId, some (toString src))])
      ((some (a, dir)).map (fun o => (o.1, PivotTexts.dirText o.2))) := by
    funext strLimit
    unfold sortedText
    rw [horder, Option.map_some, Option.map_some, hdir]
    rfl
  obtain ⟨values, -, hrun⟩ := hlimited.answered hE
  have hpart := hlimited.page hE (l := ⟨k, i * k⟩) hsmall hrun
  rw [← htext] at hrun hpart
  have hanswer : answerOf E db (sortedText src srcAttrs args none "") =
      some (rowsWith ("object" :: (args.select.getD srcAttrs).filter isColumn) values) := by
    rw [answerOf, hrun]
    rfl
  refine ⟨?_, fun _ _ => ?_⟩
  · intro sql hsql
    rw [List.mem_singleton.mp hsql, hanswer, hrun]
    rfl
  · rw [hanswer, hpart]
    rfl

end Readable

section Twice

/-- sort! by insertion. -/
def byInsertion : (Vars → Vars → Int) → List Vars → List Vars :=
  fun cmp l => l.insertionSort (fun x y => cmp x y ≤ 0)

theorem sorts_byInsertion : Comparing.Sorts byInsertion := Comparing.sorts_insertionSort

def byName : FindArgs := ⟨none, none, none, some "name", none, none⟩

theorem byName_order : byName.order = some "name" := rfl

theorem byName_dir : byName.dir = PivotTexts.dirText .none := rfl

theorem byName_few : FewAttribs (findAttribs ["name", "title"] byName) :=
  (by decide : 3 * 2 ≤ 999)

theorem named_readable : ReadableConds [("name", some "a")] :=
  List.forall_mem_singleton.mpr ⟨readable_text (by decide), readable_text (by decide)⟩

/-- The second page is lost when SQLite orders, and the page past the end of the objects with a name
is an exception. -/
theorem later_pages_lost :
    ¬PageIsSlice sqlite 1 ["name", "title"] byInsertion byName none none 1 1 twoObjects ∧
    ¬PageIsSlice sqlite 1 ["name", "title"] byInsertion byName none
      (some [(.attrib "name", some "a")]) 1 2 twoObjects := by
  constructor
  · have hattribs : PlainColumns ["name", "title"] :=
      ⟨by decide, by decide, by decide, by decide⟩
    have hanswers := answers_columns sqlite_lawful 1 ["name", "title"] byName twoObjects 1 1
      hattribs byName_order (by decide) byName_dir (by decide)
    rw [generic_slice_iff 1 ["name", "title"] sorts_byInsertion byName_order none 1 Nat.one_pos
      hanswers]
    rintro ⟨rows, -, hfirst⟩
    rw [if_pos ⟨rfl, rfl⟩] at hfirst
    cases hfirst
  · obtain ⟨hanswers, -⟩ := answers_keyed sqlite_lawful 1 ["name", "title"] byName none
      twoObjects 1 2 named_readable (by decide)
    obtain ⟨objs, hperm, hrun⟩ := execute_intersect twoObjects 1 sqlite_lawful named_readable
      (by decide)
    have hone : objs.length = 1 := hperm.length_eq.trans (by decide)
    have hselected : selectedRows 1 byName (answerOf sqlite twoObjects)
        (keyed [("name", some "a")]) = some (idRows objs) := by
      rw [selectedRows_keyed 1 byName (answerOf sqlite twoObjects) (by decide), answerOf, hrun]
      rfl
    rw [show [(CondKey.attrib "name", some "a")] = keyed [("name", some "a")] from rfl]
    rw [conds_slice_iff sqlite_lawful 1 ["name", "title"] sorts_byInsertion byName_order none 2
      byName_few hanswers]
    rintro ⟨rows, hrows, hreach⟩
    have hafter : afterFind byName.opText (keyed [("name", some "a")]) =
        keyed [("name", some "a")] := by decide
    rw [foundRows, hafter, hselected] at hrows
    cases hrows
    rw [if_neg (by simp)] at hreach
    have hle := hreach.trans (List.length_filter_le _ _)
    rw [idRows, List.length_map, hone] at hle
    omega

/-- Two objects of one kind, the second in front by its name. -/
def twoOfKind : Tables where
  changed := ChangedTable.empty
  objects := ⟨[⟨1, 1, some "kind", some "7", some "x", none⟩,
    ⟨2, 1, some "name", some "7", some "b", none⟩,
    ⟨3, 1, some "kind", some "8", some "x", none⟩,
    ⟨4, 1, some "name", some "8", some "a", none⟩], by decide⟩

theorem kind_readable : ReadableConds [("kind", some "x")] :=
  List.forall_mem_singleton.mpr ⟨readable_text (by decide), readable_text (by decide)⟩

/-- The second page of the objects of the kind. -/
theorem ordered_page_iff_second :
    PageIsSlice sqlite 1 ["kind", "name"] byInsertion byName none
      (some (keyed [("kind", some "x")])) 1 1 twoOfKind := by
  obtain ⟨hanswers, -⟩ := answers_keyed sqlite_lawful 1
    ["kind", "name"] byName none twoOfKind 1 1 kind_readable (by decide)
  obtain ⟨objs, hperm, hrun⟩ := execute_intersect twoOfKind 1 sqlite_lawful kind_readable
    (by decide)
  have htwo : objs.length = 2 := hperm.length_eq.trans (by decide)
  have hselected : selectedRows 1 byName (answerOf sqlite twoOfKind)
      (keyed [("kind", some "x")]) = some (idRows objs) := by
    rw [selectedRows_keyed 1 byName (answerOf sqlite twoOfKind) (by decide), answerOf, hrun]
    rfl
  have hafter : afterFind byName.opText (keyed [("kind", some "x")]) =
      keyed [("kind", some "x")] := by decide
  have hfound : foundRows 1 ["kind", "name"] byName none (answerOf sqlite twoOfKind)
      (some (keyed [("kind", some "x")])) twoOfKind = some (idRows objs) := by
    rw [foundRows, hafter, hselected]
    exact congrArg some (List.filter_eq_self.mpr (fun _ _ => rfl))
  refine (ordered_page_iff sqlite_lawful 1 ["kind", "name"] sorts_byInsertion byName_order none 1
    Nat.one_pos (by decide : 3 * 2 ≤ 999) hanswers).mpr ⟨idRows objs, hfound, ?_⟩
  rw [if_neg (by simp), idRows, List.length_map, htwo]
  decide

end Twice

end Rhodes.FindOrders
