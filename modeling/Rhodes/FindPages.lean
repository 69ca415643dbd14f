import Rhodes.FindLoops
import Rhodes.LimitedTexts

/-!
The pages of find and paginate. A caller asks for one page after the other with the same conditions
hash until a page is empty. The limit is in the SQL, in the loop over the conditions or in the loop
over listObjs, and each of them takes the same part; but the first call deletes the nil conditions
from the hash of the caller.
-/
namespace Rhodes.FindPages

open Database SqlTables RhomSql RhomStatements RhomFind FindTexts FindRows FindAnswers FindLoops
  LimitedTexts

section Calling

/-- A page of find, and what it leaves of the hash. -/
abbrev PageCall := Nat → Option Conditions → Tables →
  Option Conditions × Option (Found × Tables)

/-- The calls for the pages from one on, until a page is empty, for fewer calls than the fuel. -/
def pagesFrom (call : PageCall) : Nat → Nat → Option Conditions → Tables →
    Option (List (List Vars) × Option Conditions × Tables)
  | 0, _, _, _ => none
  | fuel + 1, i, conds, db =>
    match call i conds db with
    | (conds, some (.objects (some page), db)) =>
      if page.isEmpty then some ([], conds, db)
      else (pagesFrom call fuel (i + 1) conds db).map (fun r => (page :: r.1, r.2))
    | _ => none

/-- The pages have at most k objects and are together what the unpaged query returns, and the hash
of the caller is as it was. -/
def PagesPartition (call : PageCall) (unpaged : Option Conditions → Tables →
    Option Conditions × Option (Found × Tables)) (k : Nat) (conds : Option Conditions)
    (db : Tables) : Prop :=
  ∃ all fuel pages, (unpaged conds db).2 = some (.objects (some all), db) ∧
    pagesFrom call fuel 0 conds db = some (pages, conds, db) ∧
    (∀ page ∈ pages, page.length ≤ k) ∧ pages.flatten = all

variable {call : PageCall} {k : Nat} {conds : Option Conditions} {db : Tables}

/-- Slices of a list make up the rest of it. -/
theorem pagesFrom_slices (hk : 0 < k) {all : List Vars}
    (hcall : ∀ i, i * k < all.length + k →
      call i conds db = (conds, some (.objects (some ((all.drop (i * k)).take k)), db)))
    (fuel i : Nat) (hi : i * k < all.length + k) (hfuel : all.length - i * k < fuel) :
    ∃ pages, pagesFrom call fuel i conds db = some (pages, conds, db) ∧
      (∀ page ∈ pages, page.length ≤ k) ∧ pages.flatten = all.drop (i * k) := by
  induction fuel generalizing i with
  | zero => exact absurd hfuel (Nat.not_lt_zero _)
  | succ fuel ih =>
    simp only [pagesFrom, hcall i hi]
    by_cases hend : all.length ≤ i * k
    · have hnil : all.drop (i * k) = [] := List.drop_eq_nil_of_le hend
      refine ⟨[], ?_, nofun, ?_⟩
      · rw [hnil, List.take_nil]
        rfl
      · rw [hnil]
        rfl
    · have hnext : (i + 1) * k = i * k + k := Nat.succ_mul i k
      obtain ⟨pages, hpages, hlengths, hflatten⟩ := ih (i + 1) (by omega) (by omega)
      have hpage : ((all.drop (i * k)).take k).isEmpty = false := by
        rw [List.isEmpty_eq_false_iff, ← List.length_pos_iff, List.length_take, List.length_drop]
        omega
      refine ⟨(all.drop (i * k)).take k :: pages, ?_, ?_, ?_⟩
      · rw [if_neg (by simp [hpage]), hpages]
        rfl
      · exact List.forall_mem_cons.mpr ⟨List.length_take_le _ _, hlengths⟩
      · rw [List.flatten_cons, hflatten, hnext, ← List.drop_drop, List.take_append_drop]

theorem partition_of_slices (hk : 0 < k) {unpaged} {all : List Vars}
    (hall : (unpaged conds db).2 = some (.objects (some all), db))
    (hcall : ∀ i, i * k < all.length + k →
      call i conds db = (conds, some (.objects (some ((all.drop (i * k)).take k)), db))) :
    PagesPartition call unpaged k conds db := by
  obtain ⟨pages, hpages, hlengths, hflatten⟩ := pagesFrom_slices hk hcall (all.length + 1) 0
    (by omega) (by omega)
  rw [Nat.zero_mul, List.drop_zero] at hflatten
  exact ⟨all, all.length + 1, pages, hall, hpages, hlengths, hflatten⟩

/-- Every call leaves the hash as one function of it does, and doing it twice is doing it once. -/
theorem pagesFrom_conds {after : Conditions → Conditions} (hafter : ∀ c, after (after c) = after c)
    (hcall : ∀ i c db, (call i (some c) db).1 = some (after c)) (fuel i : Nat) (c : Conditions)
    (db : Tables) {pages : List (List Vars)} {conds' : Option Conditions} {db' : Tables}
    (h : pagesFrom call fuel i (some c) db = some (pages, conds', db')) :
    conds' = some (after c) := by
  induction fuel generalizing i c db pages with
  | zero => cases h
  | succ fuel ih =>
    have hconds := hcall i c db
    rw [pagesFrom] at h
    split at h
    · rename_i conds₁ page db₁ heq
      rw [heq] at hconds
      have hconds' : conds₁ = some (after c) := hconds
      split at h
      · cases h
        exact hconds'
      · rw [hconds'] at h
        obtain ⟨⟨pages', conds₂, db₂⟩, hrest, hr⟩ := Option.map_eq_some_iff.mp h
        cases hr
        rw [ih (i + 1) (after c) db₁ hrest, hafter]
    · cases h

end Calling

section Source

variable (E : Engine) (src : Int) (srcAttrs : List String)
  (sort : (Vars → Vars → Int) → List Vars → List Vars) (args : FindArgs)

/-- find(:all, :per_page => k, :offset => i*k). -/
def findPage (k : Nat) (block : Option (String → String → Int)) : PageCall :=
  fun i conds db => find E src srcAttrs sort .all
    (some { args with perPage := some k, offset := some (i * k) }) block conds db

/-- paginate(:page => i, :per_page => k). -/
def paginatePage (k : Nat) : PageCall :=
  fun i conds db => paginate E src srcAttrs sort (some i) { args with perPage := some k } conds db

/-- The query without a page. -/
def unpaged (conds : Option Conditions) (db : Tables) :
    Option Conditions × Option (Found × Tables) :=
  find E src srcAttrs sort .all (some { args with perPage := none, offset := none }) none conds db

/-- The text of find_bycondhash with a limit. -/
def condsText (conds : Conditions) (strLimit : String) : String :=
  if conds.length > 0 then intersectText conds (getValueForSqlStmt (some (toString src))) strLimit
  else distinctText (getValueForSqlStmt (some (toString src))) strLimit

/-- What SQLite does with the texts of a conditions hash. -/
def CondsAnswered (conds : Conditions) (k : Nat) (db : Tables) : Prop :=
  if args.opText = "OR" ∧ conds.length > 1 then
    OrAnswers E (getValueForSqlStmt (some (toString src))) db conds
  else if conds.length ≤ 1 then LimitTakes E (condsText src conds) k db
  else ∃ rows, E (condsText src conds "") [] db = some (rows, db)

/-- The text of find without conditions. -/
def allText (strLimit : String) : String :=
  pivotText (args.select.getD srcAttrs) (whereCond src .all) none strLimit

/-- The text without conditions is refused, with a limit and without one. -/
def AllRefused (k : Nat) (db : Tables) : Prop :=
  E (allText src srcAttrs args "") [] db = none ∧
    ∀ i, E (allText src srcAttrs args (limitText k (i * k))) [] db = none

/-- What SQLite does with the texts of a query: one without conditions may also fail, since find
rescues that. -/
def Answered (conds : Option Conditions) (k : Nat) (db : Tables) : Prop :=
  match conds with
  | some conds => CondsAnswered E src args conds k db
  | none => args.select.getD srcAttrs = [] ∨ LimitTakes E (allText src srcAttrs args) k db ∨
      AllRefused E src srcAttrs args k db

/-- All conditions are to hold, and one of them is nil. -/
def NilUnderAnd (conds : Option Conditions) : Prop :=
  args.opText = "AND" ∧ ∃ c ∈ conds.getD [], c.2 = none

/-- The texts of a conditions hash without a page. -/
def condsTexts (conds : Conditions) : List String :=
  if args.opText = "OR" ∧ conds.length > 1 then
    conds.map (fun kv => orText kv (getValueForSqlStmt (some (toString src))))
  else [condsText src conds ""]

/-- SQLite accepts the texts of the conditions. Without conditions find rescues what it refuses. -/
def Accepted (conds : Option Conditions) (db : Tables) : Prop :=
  ∀ cs ∈ conds, ∀ sql ∈ condsTexts src args cs, (E sql [] db).isSome

/-- A text that leaves the tables alone, if it is answered. -/
def Leaves (sql : String) (db : Tables) : Prop :=
  ∀ rows db', E sql [] db = some (rows, db') → db' = db

/-- No query changes the tables. -/
def Steady (conds : Option Conditions) (db : Tables) : Prop :=
  ∀ cs ∈ conds, ∀ sql ∈ condsTexts src args cs, Leaves E sql db

/-- A LIMIT behind the text of a query is read as one, since no key and no value ends its literal
early. The operator and the function of a hash stand in the text as they are, so for these it is
asked of SQLite. -/
def LimitRead (conds : Option Conditions) (k : Nat) (db : Tables) : Prop :=
  match conds with
  | some [(.attrib key, value)] => Readable (some key) ∧ Readable value
  | some [kv] => LimitPart E (condsText src [kv]) k db
  | some _ => True
  | none => args.select.getD srcAttrs = [] ∨ PlainColumns (args.select.getD srcAttrs) ∨
      AllRefused E src srcAttrs args k db

end Source

section Selecting

variable {E : Engine} (hE : Lawful E) (src : Int) (srcAttrs : List String)
  (sort : (Vars → Vars → Int) → List Vars → List Vars) (args : FindArgs)

theorem selectObjs_conds {op : String} {conds : Conditions} (hor : ¬(op = "OR" ∧ conds.length > 1))
    (strLimit : Option String) (enough : Option Nat) (db : Tables) :
    selectObjs E src op conds strLimit enough db =
      E (condsText src conds (strLimit.getD "")) [] db := by
  simp only [selectObjs, if_neg hor, condsText]
  split <;> rfl

variable {args} in
theorem strLimit_one (horder : args.order = none) {conds : Conditions} (hone : conds.length ≤ 1)
    (k offset : Nat) : strLimit args (some k) offset conds [] = some (limitText k offset) := by
  unfold strLimit
  rw [horder]
  exact if_pos ⟨hone, rfl⟩

variable {args} in
theorem strLimit_more {conds : Conditions} (hmore : ¬conds.length ≤ 1) (limit : Option Nat)
    (offset : Nat) (nulls : Conditions) : strLimit args limit offset conds nulls = none := by
  unfold strLimit
  split
  · exact if_neg (fun h => hmore h.1)
  · rfl

theorem strLimit_unpaged {conds nulls : Conditions} :
    strLimit { args with perPage := none, offset := none } none 0 conds nulls = none := by
  unfold strLimit
  split
  · rename_i h
    cases h
  · rfl

/-- The objects that are selected, without a page and for each page. -/
theorem selectObjs_pages {conds : Conditions} {k : Nat} (hk : 0 < k) {db : Tables}
    (horder : args.order = none) (h : CondsAnswered E src args conds k db) :
    ∃ all, selectObjs E src args.opText conds none none db = some (all, db) ∧
      ∀ i, i * k < all.length + k → ∃ objs,
        selectObjs E src args.opText conds (strLimit args (some k) (i * k) conds [])
          (some (i * k + k)) db = some (objs, db) ∧
        (objs.drop (if (strLimit args (some k) (i * k) conds []).isNone then i * k else 0)).take k =
          (all.drop (i * k)).take k := by
  unfold CondsAnswered at h
  by_cases hor : args.opText = "OR" ∧ conds.length > 1
  · rw [if_pos hor] at h
    obtain ⟨all, hall, -, hpages⟩ := orLoop_all _ db h []
    have hlimit : ∀ i, strLimit args (some k) (i * k) conds [] = none :=
      fun i => strLimit_more (by omega) _ _ _
    refine ⟨all, ?_, fun i hi => ⟨all.take (i * k + k), ?_, ?_⟩⟩
    · simp only [selectObjs, if_pos hor, hall]
    · simp only [selectObjs, if_pos hor]
      exact hpages (i * k + k) (by rw [List.length_nil]; omega)
    · rw [hlimit]
      simp only [Option.isNone_none, if_true]
      rw [List.drop_take, List.take_take]
      congr 1
      omega
  · rw [if_neg hor] at h
    by_cases hone : conds.length ≤ 1
    · rw [if_pos hone] at h
      obtain ⟨rows, hrows, hpages⟩ := h
      refine ⟨rows, ?_, fun i hi => ⟨(rows.drop (i * k)).take k, ?_, ?_⟩⟩
      · rw [selectObjs_conds src hor]
        exact hrows
      · rw [selectObjs_conds src hor, strLimit_one horder hone]
        exact hpages i hi
      · rw [strLimit_one horder hone]
        simp [List.take_take]
    · rw [if_neg hone] at h
      obtain ⟨rows, hrows⟩ := h
      have hlimit : ∀ i, strLimit args (some k) (i * k) conds [] = none :=
        fun i => strLimit_more hone _ _ _
      refine ⟨rows, ?_, fun i hi => ⟨rows, ?_, ?_⟩⟩
      · rw [selectObjs_conds src hor]
        exact hrows
      · rw [selectObjs_conds src hor, hlimit]
        exact hrows
      · rw [hlimit]
        rfl

variable {args} in
theorem afterFind_eq {conds : Conditions} (h : ¬NilUnderAnd args (some conds)) :
    afterFind args.opText conds = conds ∧ nullsCond args.opText conds = [] := by
  have hsome : args.opText = "AND" → ∀ c ∈ conds, c.2.isSome :=
    fun hop c hc => Option.isSome_iff_ne_none.mpr (fun hnil => h ⟨hop, c, hc, hnil⟩)
  unfold afterFind nullsCond
  split
  · rename_i hop
    refine ⟨List.filter_eq_self.mpr (hsome hop), List.filter_eq_nil_iff.mpr (fun c hc => ?_)⟩
    simp [Option.isSome_iff_ne_none.mp (hsome hop c hc)]
  · exact ⟨rfl, rfl⟩

/-- find_bycondhash without an order and without nil conditions. -/
theorem findObjects_unordered (horder : args.order = none) (conds : Conditions) (db : Tables) :
    findObjects E src srcAttrs .all args conds [] db =
      (selectObjs E src args.opText conds (strLimit args args.perPage (findOffset args) conds [])
        (args.perPage.map (fun l => findOffset args + l)) db).bind (fun r =>
        walk E src ⟨findAttribs srcAttrs args, [], false,
          if (strLimit args args.perPage (findOffset args) conds []).isNone then findOffset args
          else 0, args.perPage⟩ r.1 0 [] 0 r.2) := by
  simp [findObjects, horder, findLimit]

include hE

theorem conds_slices {conds : Conditions} {k : Nat} (hk : 0 < k) {db : Tables}
    (horder : args.order = none) (hfew : FewAttribs (findAttribs srcAttrs args))
    (hanswered : CondsAnswered E src args conds k db) (hnil : ¬NilUnderAnd args (some conds)) :
    ∃ all, (unpaged E src srcAttrs sort args (some conds) db).2 =
        some (.objects (some all), db) ∧
      ∀ block i, i * k < all.length + k →
        findPage E src srcAttrs sort args k block i (some conds) db =
          (some conds, some (.objects (some ((all.drop (i * k)).take k)), db)) := by
  obtain ⟨hafter, hnulls⟩ := afterFind_eq hnil
  obtain ⟨objs, hobjs, hpages⟩ := selectObjs_pages src args hk horder hanswered
  refine ⟨objs.map (objectOf E src db (findAttribs srcAttrs args)), ?_, ?_⟩
  · obtain ⟨nCount', hwalk⟩ := walk_all hE src db hfew [] objs [] 0 0
    have hall : objs.filter (passes src db []) = objs := List.filter_eq_self.mpr (fun _ _ => rfl)
    rw [hall, List.nil_append, List.map_nil] at hwalk
    have hrun : findObjects E src srcAttrs .all { args with perPage := none, offset := none } conds
        [] db = some (objs.map (objectOf E src db (findAttribs srcAttrs args)), nCount', db) := by
      rw [findObjects_unordered src srcAttrs { args with perPage := none, offset := none } horder]
      show (selectObjs E src args.opText conds (strLimit _ none 0 conds []) none db).bind (fun r =>
        walk E src ⟨findAttribs srcAttrs args, [], false,
          if (strLimit _ none 0 conds []).isNone then 0 else 0, none⟩ r.1 0 [] 0 r.2) = _
      rw [strLimit_unpaged, hobjs]
      exact hwalk
    show findSelected E src srcAttrs sort .all { args with perPage := none, offset := none } none
      (afterFind args.opText conds) (nullsCond args.opText conds) db = _
    rw [hafter, hnulls, findSelected, hrun]
    simp only [orderPage, horder]
    rfl
  · intro block i hi
    rw [List.length_map] at hi
    obtain ⟨page, hselect, hpage⟩ := hpages i hi
    obtain ⟨nCount, hwalk⟩ := walk_page hE src db hfew (k := k)
      (if (strLimit args (some k) (i * k) conds []).isNone then i * k else 0) page [] hk 0 0
    rw [Nat.sub_zero, List.length_nil, Nat.sub_zero, List.nil_append, hpage, List.map_nil] at hwalk
    have hrun : findObjects E src srcAttrs .all
        { args with perPage := some k, offset := some (i * k) } conds [] db =
        some (((objs.drop (i * k)).take k).map (objectOf E src db (findAttribs srcAttrs args)),
          nCount, db) := by
      rw [findObjects_unordered src srcAttrs
        { args with perPage := some k, offset := some (i * k) } horder]
      show (selectObjs E src args.opText conds (strLimit args (some k) (i * k) conds [])
        (some (i * k + k)) db).bind _ = _
      rw [hselect]
      exact hwalk
    show (some (afterFind args.opText conds), findSelected E src srcAttrs sort .all
      { args with perPage := some k, offset := some (i * k) } block
      (afterFind args.opText conds) (nullsCond args.opText conds) db) = _
    rw [hafter, hnulls, findSelected, hrun]
    simp only [orderPage, horder, List.map_take, List.map_drop]
    rfl

end Selecting

section Generic

variable {E : Engine} (src : Int) (srcAttrs : List String)
  (sort : (Vars → Vars → Int) → List Vars → List Vars) (args : FindArgs)

/-- The rows of a page without conditions. -/
theorem genericRows_page (horder : args.order = none) (block : Option (String → String → Int))
    (page : Option (Nat × Nat)) (db : Tables) :
    genericRows E src srcAttrs .all
        { args with perPage := page.map Prod.fst, offset := page.map Prod.snd } block db =
      if (args.select.getD srcAttrs).length > 0 then
        executeRescued E (allText src srcAttrs args
          ((page.map (fun p => limitText p.1 p.2)).getD "")) db
      else ([], db) := by
  cases page with
  | none =>
    cases block <;> simp [genericRows, horder, paging, allText]
  | some p =>
    cases block <;> simp [genericRows, horder, paging, allText]

theorem findGeneric_unordered (horder : args.order = none)
    {block : Option (String → String → Int)} {db db' : Tables} {rows : List Row}
    (hrows : genericRows E src srcAttrs .all args block db = (rows, db')) :
    findGeneric E src srcAttrs sort .all args block db =
      some (.objects (some (rows.map (rowVars src))), db') := by
  simp [findGeneric, hrows, genericPage, horder]

theorem generic_slices {k : Nat} {db : Tables} (horder : args.order = none)
    (hanswered : Answered E src srcAttrs args none k db) :
    ∃ all, (unpaged E src srcAttrs sort args none db).2 = some (.objects (some all), db) ∧
      ∀ block i, i * k < all.length + k →
        findPage E src srcAttrs sort args k block i none db =
          (none, some (.objects (some ((all.drop (i * k)).take k)), db)) := by
  have hrows : ∃ rows, genericRows E src srcAttrs .all
        { args with perPage := none, offset := none } none db = (rows, db) ∧
      ∀ block i, i * k < rows.length + k → genericRows E src srcAttrs .all
        { args with perPage := some k, offset := some (i * k) } block db =
          ((rows.drop (i * k)).take k, db) := by
    have hnone := genericRows_page (E := E) src srcAttrs args horder none none db
    have hpage := fun block i => genericRows_page (E := E) src srcAttrs args horder block
      (some (k, i * k)) db
    simp only [Option.map_none, Option.map_some, Option.getD_none, Option.getD_some] at hnone hpage
    simp only [hnone, hpage]
    by_cases hattribs : (args.select.getD srcAttrs).length > 0
    · simp only [if_pos hattribs, executeRescued]
      rcases hanswered with hnil | ⟨rows, hall, hpages⟩ | ⟨hall, hpages⟩
      · rw [hnil] at hattribs
        exact absurd hattribs (Nat.lt_irrefl 0)
      · refine ⟨rows, by rw [hall]; rfl, fun _ i hi => ?_⟩
        rw [hpages i hi]
        rfl
      · refine ⟨[], by rw [hall]; rfl, fun _ i _ => ?_⟩
        rw [hpages i]
        simp
    · simp only [if_neg hattribs]
      exact ⟨[], rfl, fun _ _ _ => by simp⟩
  obtain ⟨rows, hall, hpages⟩ := hrows
  refine ⟨rows.map (rowVars src), ?_, fun block i hi => ?_⟩
  · show findGeneric E src srcAttrs sort .all { args with perPage := none, offset := none } none
      db = _
    exact findGeneric_unordered src srcAttrs sort { args with perPage := none, offset := none }
      horder hall
  · rw [List.length_map] at hi
    show (none, findGeneric E src srcAttrs sort .all
      { args with perPage := some k, offset := some (i * k) } block db) = _
    have hpage := findGeneric_unordered src srcAttrs sort
      { args with perPage := some k, offset := some (i * k) } horder (hpages block i hi)
    rw [hpage, List.map_take, List.map_drop]

end Generic

section Limiting

variable {E : Engine} (hE : Lawful E) (db : Tables) (src : Int)

theorem condObjects_length (src : Int) (c : String × Option String) :
    (condObjects db src c).length ≤ db.objects.rows.length := by
  rw [condObjects, List.length_map]
  exact List.length_filter_le _ _

theorem sourceObjects_length (src : Int) :
    (sourceObjects db src).length ≤ db.objects.rows.length := by
  refine (List.dedup_sublist _).length_le.trans ?_
  rw [List.length_map]
  exact List.length_filter_le _ _

variable {db} (srcAttrs : List String) (args : FindArgs) {k : Nat}
  (hsmall : db.objects.rows.length + 2 * k < 2 ^ 63)

include hE hsmall

/-- SQLite takes its part of the answer where the limit is read as one. -/
theorem limitPart_of_read {cs : Conditions} (hone : cs.length ≤ 1)
    (hread : LimitRead E src srcAttrs args (some cs) k db) :
    LimitPart E (condsText src cs) k db := by
  match cs with
  | [] =>
    have hlength := sourceObjects_length db src
    have hfits : ((sourceObjects db src).map single).length + 2 * k < 2 ^ 63 := by
      rw [List.length_map]
      exact (Nat.add_le_add_right hlength _).trans_lt hsmall
    exact ((limited_distinct db src).takes hE hfits).part
  | [(.attrib key, value)] =>
    have hlength := condObjects_length db src (key, value)
    have hfits : ((condObjects db src (key, value)).map single).length + 2 * k < 2 ^ 63 := by
      rw [List.length_map]
      exact (Nat.add_le_add_right hlength _).trans_lt hsmall
    exact ((limited_cond db src hread.1 hread.2).takes hE hfits).part
  | [(.hash _ _ _, _)] => exact hread
  | _ :: _ :: _ =>
    simp only [List.length_cons] at hone
    omega

theorem answered_none (hread : LimitRead E src srcAttrs args none k db) :
    Answered E src srcAttrs args none k db := by
  rcases hread with hnil | hattribs | hrefused
  · exact Or.inl hnil
  · obtain ⟨s, hlimited⟩ := limited_pivot db hattribs (sourceField_readable src)
      (sourceField_known src) none (fun o ho => by cases ho)
    have hlength := pivotValues_length db (args.select.getD srcAttrs)
      [(sourceId, some (toString src))]
    exact Or.inr (Or.inl (hlimited.takes hE (by omega)))
  · exact Or.inr (Or.inr hrefused)

end Limiting

section Partition

variable {E : Engine} (hE : Lawful E) (src : Int) (srcAttrs : List String)
  (sort : (Vars → Vars → Int) → List Vars → List Vars) (args : FindArgs)

theorem afterFind_afterFind (op : String) (conds : Conditions) :
    afterFind op (afterFind op conds) = afterFind op conds := by
  unfold afterFind
  split
  · rw [List.filter_filter]
    simp
  · rfl

/-- With a nil condition that is deleted the hash is not as it was. -/
theorem not_partition_of_nil {k : Nat} {block : Option (String → String → Int)}
    {conds : Option Conditions} {db : Tables} (hnil : NilUnderAnd args conds) :
    ¬PagesPartition (findPage E src srcAttrs sort args k block)
      (unpaged E src srcAttrs sort args) k conds db := by
  rintro ⟨all, fuel, pages, -, hpages, -⟩
  obtain ⟨hop, c, hc, hvalue⟩ := hnil
  cases conds with
  | none => cases hc
  | some conds =>
    have hafter := pagesFrom_conds (afterFind_afterFind args.opText) (fun i c db => rfl) fuel 0
      conds db hpages
    have hmem : c ∈ afterFind args.opText conds := (Option.some.inj hafter) ▸ hc
    unfold afterFind at hmem
    rw [if_pos hop, List.mem_filter, hvalue] at hmem
    cases hmem.2

include hE

theorem partition_of_answered {k : Nat} (hk : 0 < k) (horder : args.order = none)
    (hfew : FewAttribs (findAttribs srcAttrs args)) (block : Option (String → String → Int))
    {conds : Option Conditions} {db : Tables} (hanswered : Answered E src srcAttrs args conds k db)
    (hnil : ¬NilUnderAnd args conds) :
    PagesPartition (findPage E src srcAttrs sort args k block)
      (unpaged E src srcAttrs sort args) k conds db := by
  cases conds with
  | none =>
    obtain ⟨all, hall, hpages⟩ := generic_slices src srcAttrs sort args horder hanswered
    exact partition_of_slices hk hall (hpages block)
  | some conds =>
    obtain ⟨all, hall, hpages⟩ := conds_slices hE src srcAttrs sort args hk horder hfew hanswered
      hnil
    exact partition_of_slices hk hall (hpages block)

theorem answered_of_accepted {k : Nat} {conds : Option Conditions} {db : Tables}
    (hsteady : Steady E src args conds db) (hread : LimitRead E src srcAttrs args conds k db)
    (hsmall : db.objects.rows.length + 2 * k < 2 ^ 63) (haccepted : Accepted E src args conds db) :
    Answered E src srcAttrs args conds k db := by
  cases conds with
  | none => exact answered_none hE src srcAttrs args hsmall hread
  | some cs =>
    have hrows : ∀ sql ∈ condsTexts src args cs, ∃ rows, E sql [] db = some (rows, db) := by
      intro sql hsql
      obtain ⟨⟨rows, db'⟩, hrun⟩ := Option.isSome_iff_exists.mp (haccepted cs rfl sql hsql)
      exact ⟨rows, by rw [hrun, hsteady cs rfl sql hsql rows db' hrun]⟩
    unfold condsTexts at hrows
    show CondsAnswered E src args cs k db
    unfold CondsAnswered
    split
    · rename_i hor
      rw [if_pos hor] at hrows
      exact fun kv hkv => hrows _ (List.mem_map_of_mem hkv)
    · rename_i hor
      rw [if_neg hor] at hrows
      obtain ⟨rows, hrun⟩ := hrows _ (List.mem_singleton_self _)
      split
      · rename_i hone
        exact ⟨rows, hrun, limitPart_of_read hE src srcAttrs args hsmall hone hread rows hrun⟩
      · exact ⟨rows, hrun⟩

omit hE in
theorem orLoop_refused {srcidValue : String} {conds : Conditions} {db : Tables}
    (hleaves : ∀ kv ∈ conds, Leaves E (orText kv srcidValue) db)
    (hrefused : ∃ kv ∈ conds, E (orText kv srcidValue) [] db = none) (listObjs : List Row) :
    orLoop E none srcidValue conds listObjs db = none := by
  induction conds generalizing listObjs with
  | nil =>
    obtain ⟨kv, hkv, -⟩ := hrefused
    cases hkv
  | cons kv conds ih =>
    obtain ⟨hkv, hconds⟩ := List.forall_mem_cons.mp hleaves
    cases hrun : E (orText kv srcidValue) [] db with
    | none => simp only [orLoop, hrun, Option.bind_eq_bind, Option.bind_none]
    | some r =>
      obtain ⟨rows, db'⟩ := r
      have hsame := hkv rows db' hrun
      subst hsame
      have hrest : ∃ kv ∈ conds, E (orText kv srcidValue) [] db' = none := by
        obtain ⟨kv', hkv', hnone⟩ := hrefused
        rcases List.mem_cons.mp hkv' with rfl | hkv'
        · rw [hrun] at hnone
          cases hnone
        · exact ⟨kv', hkv', hnone⟩
      simp only [orLoop, hrun, Option.bind_eq_bind, Option.bind_some, addRecs_none,
        Bool.false_eq_true, if_false]
      exact ih hconds hrest _

omit hE in
/-- A text that is refused is an exception. -/
theorem not_partition_of_refused {k : Nat} {block : Option (String → String → Int)}
    (horder : args.order = none) {conds : Option Conditions} {db : Tables}
    (hsteady : Steady E src args conds db) (hnil : ¬NilUnderAnd args conds)
    (hrefused : ¬Accepted E src args conds db) :
    ¬PagesPartition (findPage E src srcAttrs sort args k block)
      (unpaged E src srcAttrs sort args) k conds db := by
  rintro ⟨all, -, -, hall, -⟩
  cases conds with
  | none => exact hrefused (fun cs hcs => by cases hcs)
  | some cs =>
    have hleaves := hsteady cs rfl
    have hnone : ∃ sql ∈ condsTexts src args cs, E sql [] db = none := by
      unfold Accepted at hrefused
      push Not at hrefused
      obtain ⟨cs', hcs', sql, hsql, hrun⟩ := hrefused
      cases hcs'
      exact ⟨sql, hsql, Option.not_isSome_iff_eq_none.mp hrun⟩
    have hselect : selectObjs E src args.opText cs none none db = none := by
      unfold condsTexts at hleaves hnone
      by_cases hor : args.opText = "OR" ∧ cs.length > 1
      · rw [if_pos hor] at hleaves hnone
        obtain ⟨sql, hsql, hrun⟩ := hnone
        obtain ⟨kv, hkv, rfl⟩ := List.mem_map.mp hsql
        simp only [selectObjs, if_pos hor]
        exact orLoop_refused (fun kv hkv => hleaves _ (List.mem_map_of_mem hkv))
          ⟨kv, hkv, hrun⟩ []
      · rw [if_neg hor] at hnone
        obtain ⟨sql, hsql, hrun⟩ := hnone
        rw [selectObjs_conds src hor]
        rwa [List.mem_singleton.mp hsql] at hrun
    obtain ⟨hafter, hnulls⟩ := afterFind_eq hnil
    have hfound : (unpaged E src srcAttrs sort args (some cs) db).2 = none := by
      show findSelected E src srcAttrs sort .all { args with perPage := none, offset := none } none
        (afterFind args.opText cs) (nullsCond args.opText cs) db = none
      rw [hafter, hnulls, findSelected, findObjects_unordered src srcAttrs
        { args with perPage := none, offset := none } horder]
      show (((selectObjs E src args.opText cs (strLimit _ none 0 cs []) none db).bind _).bind _) = _
      rw [strLimit_unpaged]
      show ((selectObjs E src args.opText cs none none db).bind _).bind _ = none
      rw [hselect]
      rfl
    rw [hfound] at hall
    cases hall

/-- Where the limit is read as one, the pages of find and of paginate make up the unpaged result
and leave the hash of the caller alone just where no nil condition stands under AND and SQLite
accepts the texts of the hash. -/
theorem pages_partition_iff {k : Nat} (hk : 0 < k) (horder : args.order = none)
    (hfew : FewAttribs (findAttribs srcAttrs args)) (block : Option (String → String → Int))
    {conds : Option Conditions} {db : Tables} (hsteady : Steady E src args conds db)
    (hread : LimitRead E src srcAttrs args conds k db)
    (hsmall : db.objects.rows.length + 2 * k < 2 ^ 63) :
    (PagesPartition (findPage E src srcAttrs sort args k block)
      (unpaged E src srcAttrs sort args) k conds db ↔
        ¬NilUnderAnd args conds ∧ Accepted E src args conds db) ∧
    (PagesPartition (paginatePage E src srcAttrs sort args k)
      (unpaged E src srcAttrs sort args) k conds db ↔
        ¬NilUnderAnd args conds ∧ Accepted E src args conds db) := by
  have hiff : ∀ block, PagesPartition (findPage E src srcAttrs sort args k block)
      (unpaged E src srcAttrs sort args) k conds db ↔
        ¬NilUnderAnd args conds ∧ Accepted E src args conds db := by
    intro block
    constructor
    · intro h
      have hnil : ¬NilUnderAnd args conds :=
        fun hnil => not_partition_of_nil src srcAttrs sort args hnil h
      refine ⟨hnil, ?_⟩
      by_contra hrefused
      exact not_partition_of_refused src srcAttrs sort args horder hsteady hnil hrefused h
    · rintro ⟨hnil, haccepted⟩
      exact partition_of_answered hE src srcAttrs sort args hk horder hfew block
        (answered_of_accepted hE src srcAttrs args hsteady hread hsmall haccepted) hnil
  exact ⟨hiff block, hiff none⟩

end Partition

section Readable

variable {E : Engine} (hE : Lawful E) (db : Tables)

include hE

/-- SQLite answers the texts of readable conditions. -/
theorem condsTexts_answered (src : Int) (args : FindArgs) {cs : List (String × Option String)}
    (hread : ReadableConds cs) (hmany : cs.length ≤ 500) :
    ∀ sql ∈ condsTexts src args (keyed cs), ∃ rows, E sql [] db = some (rows, db) := by
  unfold condsTexts
  split
  · intro sql hsql
    obtain ⟨kv, hkv, rfl⟩ := List.mem_map.mp hsql
    obtain ⟨c, hc, rfl⟩ := List.mem_map.mp hkv
    obtain ⟨rs, -, hrun⟩ := execute_or db src hE (hread c hc).1 (hread c hc).2
    exact ⟨_, hrun⟩
  · intro sql hsql
    rw [List.mem_singleton.mp hsql]
    cases cs with
    | nil =>
      obtain ⟨objs, -, hrun⟩ := execute_distinct db src hE
      exact ⟨_, hrun⟩
    | cons c cs =>
      obtain ⟨objs, -, hrun⟩ := execute_intersect db src hE hread hmany
      exact ⟨_, hrun⟩

theorem steady_keyed (src : Int) (args : FindArgs) {cs : List (String × Option String)}
    (hread : ReadableConds cs) (hmany : cs.length ≤ 500) :
    Steady E src args (some (keyed cs)) db ∧ Accepted E src args (some (keyed cs)) db := by
  have hanswer := condsTexts_answered hE db src args hread hmany
  constructor
  · intro cs' hcs' sql hsql rows db' hrun
    cases hcs'
    obtain ⟨rows', hrun'⟩ := hanswer sql hsql
    rw [hrun'] at hrun
    cases hrun
    rfl
  · intro cs' hcs' sql hsql
    cases hcs'
    obtain ⟨rows, hrun⟩ := hanswer sql hsql
    rw [hrun]
    rfl

end Readable

section Deleting

/-- One object with a name and one without. -/
def twoObjects : Tables where
  changed := ChangedTable.empty
  objects := ⟨[⟨1, 1, some "name", some "7", some "a", none⟩,
    ⟨2, 1, some "title", some "8", some "b", none⟩], by decide⟩

def noArgs : FindArgs := ⟨none, none, none, none, none, none⟩

def asFound : (Vars → Vars → Int) → List Vars → List Vars := fun _ l => l

/-- The objects without a name, one on a page: the condition is gone after the first page. -/
theorem nil_condition_deleted :
    ¬PagesPartition (findPage sqlite 1 ["name", "title"] asFound noArgs 1 none)
      (unpaged sqlite 1 ["name", "title"] asFound noArgs) 1
      (some [(.attrib "name", none)]) twoObjects ∧
    ¬PagesPartition (paginatePage sqlite 1 ["name", "title"] asFound noArgs 1)
      (unpaged sqlite 1 ["name", "title"] asFound noArgs) 1
      (some [(.attrib "name", none)]) twoObjects := by
  have hnil : NilUnderAnd noArgs (some [(.attrib "name", none)]) :=
    ⟨rfl, (.attrib "name", none), List.mem_singleton_self _, rfl⟩
  exact ⟨not_partition_of_nil 1 _ asFound noArgs hnil,
    not_partition_of_nil 1 _ asFound noArgs hnil⟩

/-- The objects with a name, one on a page. -/
theorem pages_partition_iff_name :
    PagesPartition (paginatePage sqlite 1 ["name", "title"] asFound noArgs 1)
      (unpaged sqlite 1 ["name", "title"] asFound noArgs) 1
      (some [(.attrib "name", some "a")]) twoObjects := by
  have hread : ReadableConds [("name", some "a")] :=
    List.forall_mem_singleton.mpr ⟨readable_text (by decide), readable_text (by decide)⟩
  obtain ⟨hsteady, haccepted⟩ := steady_keyed sqlite_lawful twoObjects 1 noArgs hread (by decide)
  refine (pages_partition_iff sqlite_lawful 1 ["name", "title"] asFound noArgs Nat.one_pos rfl
    (by decide : 3 * 2 ≤ 999) none hsteady (hread _ List.mem_cons_self) (by decide)).2.mpr
    ⟨?_, haccepted⟩
  rintro ⟨-, c, hc, hvalue⟩
  cases List.mem_singleton.mp hc
  cases hvalue

end Deleting

end Rhodes.FindPages
