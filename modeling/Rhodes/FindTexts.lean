import Rhodes.RhomFind
import Rhodes.SqlSelects

/-!
The texts of find_bycondhash as statements, for attributes and values without an apostrophe and a
zero character: the conditions under INTERSECT, the scan of all objects, one condition of several,
and the two texts with parameters.
-/
namespace Rhodes.FindTexts

open Database SqlPieces SqlGrammar SqlTables RhomSql RhomStatements SqlSelects RhomFind

section Conditions

variable (key : String) (value : Option String) (src : Int)

/-- The conditions of makeCondWhere as they are read. -/
def readCondWhere : Items Cond :=
  ⟨eqCond attribId (readValue (some key)),
    [eqCond sourceId (some (toString src)), eqCond valueId (readValue value)]⟩

def readCondWherePieces : List Piece :=
  [.word "attrib", .sym '=', .value (readValue (some key)), .gap ' ', .word "AND", .gap ' ',
    .word "source_id", .sym '=', .value (some (toString src)), .gap ' ', .word "AND", .gap ' ',
    .word "value", .gap ' ', .sym '=', .gap ' ', .value (readValue value)]

theorem render_readValue (v : Option String) :
    (Piece.value (readValue v)).render = (Piece.value v).render := by
  unfold readValue
  split
  · rename_i hv
    rw [hv]
    rfl
  · rfl

theorem toList_makeCondWhere_read :
    (makeCondWhere (.attrib key) value (getValueForSqlStmt (some (toString src)))).toList =
      render (readCondWherePieces key value src) := by
  rw [toList_makeCondWhere]
  simp [condWherePieces, readCondWherePieces, render_readValue]

theorem word_tokens : (Piece.word "AND").tokens = [kw "and"] ∧
    (Piece.word "object").tokens = [objectId.token] ∧
    (Piece.word "attrib").tokens = [attribId.token] ∧
    (Piece.word "source_id").tokens = [sourceId.token] ∧
    (Piece.word "value").tokens = [valueId.token] :=
  ⟨by decide, tokens_word objectId, tokens_word attribId, tokens_word sourceId,
    tokens_word valueId⟩

theorem readCondWhere_reads (hkey : Readable (some key)) (hvalue : Readable value) :
    CondsRead (readCondWherePieces key value src) (readCondWhere key value src) := by
  refine ⟨⟨?_, ?_⟩, ?_, ?_⟩
  · simp [readCondWherePieces, Piece.Ok, Piece.isWord]
  · simp [readCondWherePieces, Piece.Allows, Piece.separates]
  · simp only [readCondWherePieces, tokensOf_cons, tokens_value, tokensOf_nil, word_tokens]
    rfl
  · have hkey' := (plainValue_readValue (some key)).mpr hkey
    have hvalue' := (plainValue_readValue value).mpr hvalue
    have hsrc := plainValue_int src
    unfold readCondWherePieces
    generalize some (toString src) = v at hsrc
    simp [Piece.Plain, hkey', hvalue', hsrc]

/-- The condition on the source. -/
def sourceCond : Items Cond := ⟨eqCond sourceId (some (toString src)), []⟩

def sourcePieces : List Piece := [.word "source_id", .sym '=', .value (some (toString src))]

theorem sourceCond_reads : CondsRead (sourcePieces src) (sourceCond src) := by
  refine ⟨⟨?_, ?_⟩, ?_, ?_⟩
  · simp [sourcePieces, Piece.Ok, Piece.isWord]
  · simp [sourcePieces, Piece.Allows, Piece.separates]
  · simp only [sourcePieces, tokensOf_cons, tokens_value, tokensOf_nil, word_tokens]
    rfl
  · have hsrc := plainValue_int src
    unfold sourcePieces
    generalize some (toString src) = v at hsrc
    simp [Piece.Plain, hsrc]

/-- A column that is compared with a parameter. -/
def paramCond (i : Ident) : Cond := ⟨⟨i, false⟩, .eq .param⟩

def paramConds : Items Cond := ⟨paramCond objectId, [paramCond attribId, paramCond sourceId]⟩

def paramPieces : List Piece :=
  [.word "object", .sym '=', .param, .gap ' ', .word "AND", .gap ' ', .word "attrib", .sym '=',
    .param, .gap ' ', .word "AND", .gap ' ', .word "source_id", .sym '=', .param]

theorem paramConds_reads : CondsRead paramPieces paramConds := by
  refine ⟨⟨by decide, by simp [paramPieces, Piece.Allows, Piece.separates]⟩, by decide, ?_⟩
  simp [paramPieces, Piece.Plain]

end Conditions

section Cores

/-- The SELECT of one condition under INTERSECT. -/
def condCore (key : String) (value : Option String) (src : Int) : Core :=
  ⟨false, ⟨objectId, []⟩, objectValuesId, some (readCondWhere key value src)⟩

def distinctCore (src : Int) : Core :=
  ⟨true, ⟨objectId, []⟩, objectValuesId, some (sourceCond src)⟩

/-- The SELECT of one condition of which one is to hold. -/
def orCore (key : String) (value : Option String) (src : Int) : Core :=
  ⟨false, ⟨objectId, [attribId, valueId]⟩, objectValuesId, some (readCondWhere key value src)⟩

def nullCore : Core := ⟨false, ⟨valueId, []⟩, objectValuesId, some paramConds⟩

def attribCore : Core := ⟨false, ⟨attribId, [valueId]⟩, objectValuesId, some paramConds⟩

theorem addSelect_empty (sep select : String) : addSelect sep "" select = select := by
  simp [addSelect]

/-- Texts that are put behind each other with a separator. -/
theorem toList_addSelects {α : Type} (sep : String) (f : α → String) (x : α) (xs : List α)
    (hf : ∀ x, f x ≠ "") :
    ((x :: xs).foldl (fun sql x => addSelect sep sql (f x)) "").toList =
      (f x).toList ++ xs.flatMap (fun x => sep.toList ++ (f x).toList) := by
  have hmore : ∀ (xs : List α) (sql : String), sql ≠ "" →
      (xs.foldl (fun sql x => addSelect sep sql (f x)) sql).toList =
        sql.toList ++ xs.flatMap (fun x => sep.toList ++ (f x).toList) := by
    intro xs
    induction xs with
    | nil => intro sql _; simp
    | cons y ys ih =>
      intro sql hsql
      have hpos : sql.length > 0 := by
        rw [← String.length_toList]
        exact List.length_pos_iff.mpr (fun h => hsql (by simpa using h))
      have hadd : addSelect sep sql (f y) = sql ++ sep ++ f y := by
        rw [addSelect, if_pos hpos]
      have hne : sql ++ sep ++ f y ≠ "" := by
        intro h
        have hlist := congrArg String.toList h
        simp only [String.toList_append] at hlist
        exact hf y (by simpa using (List.append_eq_nil_iff.mp hlist).2)
      rw [List.foldl_cons, hadd, ih _ hne]
      simp
  rw [List.foldl_cons, addSelect_empty, hmore xs (f x) (hf x)]

theorem render_flatMap {α : Type} (xs : List α) (f : α → List Piece) :
    render (xs.flatMap f) = xs.flatMap (fun x => render (f x)) := List.flatMap_assoc

theorem toList_limitText (l : Limit) :
    (limitText l.limit l.offset).toList = render (limitPieces (some l)) := by
  unfold limitText
  simp only [String.toList_append]
  simp [limitPieces, Piece.render]

theorem render_corePieces (words : List String) (cols : Items Ident) (conds : List Piece) :
    render (corePieces words cols conds) = render (headPieces words) ++ (colsText cols).toList ++
      " FROM object_values WHERE \n".toList ++ render conds := by
  simp only [corePieces, render_append, ← toList_colsText]
  simp [headPieces, Piece.render]

theorem selectWords_render : render (headPieces (selectWords false)) = "SELECT ".toList ∧
    render (headPieces (selectWords true)) = "SELECT distinct ".toList := by decide

/-- The hash with attributes for keys. -/
def keyed (cs : List (String × Option String)) : Conditions :=
  cs.map (fun c => (.attrib c.1, c.2))

/-- The text of one condition under INTERSECT. -/
def condText (src : Int) (strLimit : String) (c : String × Option String) : String :=
  "SELECT object FROM object_values WHERE \n" ++
    makeCondWhere (.attrib c.1) c.2 (getValueForSqlStmt (some (toString src))) ++ strLimit

theorem toList_condText (src : Int) (strLimit : String) (c : String × Option String) :
    (condText src strLimit c).toList = render (corePieces (selectWords false) ⟨objectId, []⟩
      (readCondWherePieces c.1 c.2 src)) ++ strLimit.toList := by
  unfold condText
  simp only [String.toList_append, toList_makeCondWhere_read, render_corePieces,
    selectWords_render]
  rfl

theorem condText_ne (src : Int) (strLimit : String) (c : String × Option String) :
    condText src strLimit c ≠ "" := by
  intro h
  have hlist := congrArg String.toList h
  unfold condText at hlist
  simp at hlist

/-- Readable attributes and values. -/
def ReadableConds (cs : List (String × Option String)) : Prop :=
  ∀ c ∈ cs, Readable (some c.1) ∧ Readable c.2

theorem condCore_reads {c : String × Option String} (src : Int) (hkey : Readable (some c.1))
    (hvalue : Readable c.2) : CoreReads (corePieces (selectWords false) ⟨objectId, []⟩
      (readCondWherePieces c.1 c.2 src)) (condCore c.1 c.2 src) :=
  coreReads false _ (readCondWhere_reads c.1 c.2 src hkey hvalue)

/-- The other conditions under INTERSECT. -/
def condBranch (src : Int) (c : String × Option String) : Branch :=
  ⟨.intersect, corePieces (selectWords false) ⟨objectId, []⟩ (readCondWherePieces c.1 c.2 src),
    condCore c.1 c.2 src⟩

theorem intersectText_spells {c : String × Option String} {cs : List (String × Option String)}
    (src : Int) (hread : ReadableConds (c :: cs)) :
    Spells (intersectText (keyed (c :: cs)) (getValueForSqlStmt (some (toString src))) "")
      (.select (selectOf (condCore c.1 c.2 src) (cs.map (condBranch src)) none)) := by
  obtain ⟨hc, hcs⟩ := List.forall_mem_cons.mp hread
  refine spells_select (condCore_reads src hc.1 hc.2) ?_ none ?_
  · intro b hb
    obtain ⟨c', hc', rfl⟩ := List.mem_map.mp hb
    exact condCore_reads src (hcs c' hc').1 (hcs c' hc').2
  · have htext : intersectText (keyed (c :: cs)) (getValueForSqlStmt (some (toString src))) "" =
        (c :: cs).foldl (fun sql c => addSelect "\nINTERSECT\n" sql (condText src "" c)) "" := by
      rw [intersectText, keyed, List.foldl_map]
      rfl
    rw [htext, toList_addSelects _ _ _ _ (condText_ne src "")]
    simp only [toList_condText, limitPieces, compoundPieces, render_append]
    simp [render, List.flatMap_assoc, List.flatMap_map, Branch.allPieces, condBranch, opPieces,
      Piece.render]

theorem limitedText_spells {c : String × Option String} (src : Int) (hkey : Readable (some c.1))
    (hvalue : Readable c.2) (l : Limit) :
    Spells (intersectText (keyed [c]) (getValueForSqlStmt (some (toString src)))
        (limitText l.limit l.offset))
      (.select (selectOf (condCore c.1 c.2 src) [] (some l))) := by
  have htext : intersectText (keyed [c]) (getValueForSqlStmt (some (toString src)))
      (limitText l.limit l.offset) = condText src (limitText l.limit l.offset) c := by
    show addSelect "\nINTERSECT\n" "" (condText src _ c) = _
    exact addSelect_empty _ _
  refine spells_select (condCore_reads src hkey hvalue) (List.forall_mem_nil _) (some l) ?_
  rw [htext, toList_condText, toList_limitText, compoundPieces, render_append]
  simp

/-- The text of a limit, which may be missing. -/
def limitTextOf (l : Option Limit) : String :=
  (l.map (fun l => limitText l.limit l.offset)).getD ""

theorem toList_limitTextOf (l : Option Limit) :
    (limitTextOf l).toList = render (limitPieces l) := by
  cases l with
  | none => rfl
  | some l => exact toList_limitText l

theorem distinctText_spells (src : Int) (l : Option Limit) :
    Spells (distinctText (getValueForSqlStmt (some (toString src))) (limitTextOf l))
      (.select (selectOf (distinctCore src) [] l)) := by
  refine spells_select (coreReads true ⟨objectId, []⟩ (sourceCond_reads src))
    (List.forall_mem_nil _) l ?_
  unfold distinctText
  rw [compoundPieces, render_append, render_append, render_corePieces, selectWords_render.2]
  simp only [String.toList_append, toList_getValueForSqlStmt, toList_limitTextOf]
  have hpieces : render (sourcePieces src) =
      "source_id=".toList ++ (Piece.value (some (toString src))).render := by
    unfold sourcePieces
    generalize some (toString src) = v
    simp [render, Piece.render]
  rw [hpieces]
  simp [render, colsText, objectId]

theorem orText_spells {c : String × Option String} (src : Int) (hkey : Readable (some c.1))
    (hvalue : Readable c.2) :
    Spells (orText (.attrib c.1, c.2) (getValueForSqlStmt (some (toString src))))
      (.select (selectOf (orCore c.1 c.2 src) [] none)) := by
  refine spells_select (coreReads false ⟨objectId, [attribId, valueId]⟩
    (readCondWhere_reads c.1 c.2 src hkey hvalue)) (List.forall_mem_nil _) none ?_
  unfold orText
  rw [compoundPieces, render_append, render_append, render_corePieces, selectWords_render.1]
  simp only [String.toList_append, toList_makeCondWhere_read]
  simp [render, colsText, objectId, attribId, valueId, limitPieces]

theorem nullText_spells : Spells nullText (.select (selectOf nullCore [] none)) := by
  refine spells_select (coreReads false ⟨valueId, []⟩ paramConds_reads) (List.forall_mem_nil _)
    none ?_
  decide

/-- The text for one attribute. -/
def attribText : String :=
  "SELECT attrib,value FROM object_values WHERE \n" ++ "object=?" ++ " AND attrib=?" ++
    " AND source_id=?"

def attribPieces : List Piece :=
  corePieces (selectWords false) ⟨attribId, [valueId]⟩ paramPieces

theorem attribCore_reads : CoreReads attribPieces attribCore :=
  coreReads false _ paramConds_reads

theorem toList_attribText : attribText.toList = render attribPieces := by decide

/-- The text for one more attribute. -/
def attribBranch : Branch := ⟨.unionAll, attribPieces, attribCore⟩

theorem attribsText_spells (a : String) (attribs : List String) :
    Spells (attribsText (a :: attribs))
      (.select (selectOf attribCore (attribs.map (fun _ => attribBranch)) none)) := by
  refine spells_select attribCore_reads ?_ none ?_
  · intro b hb
    obtain ⟨_, -, rfl⟩ := List.mem_map.mp hb
    exact attribCore_reads
  · have hne : ∀ _ : String, attribText ≠ "" := fun _ => by decide
    have htext : attribsText (a :: attribs) =
        (a :: attribs).foldl (fun sql x => addSelect "\nUNION ALL\n" sql attribText) "" := rfl
    have hblock : render attribBranch.allPieces = "\nUNION ALL\n".toList ++ attribText.toList := by
      decide
    rw [htext, toList_addSelects _ (fun _ => attribText) _ _ hne, ← hblock, toList_attribText,
      compoundPieces, render_append, render_append, render_flatMap, List.flatMap_map, limitPieces,
      render_nil, List.append_nil]

end Cores

end Rhodes.FindTexts
