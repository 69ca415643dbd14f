import Rhodes.FindTexts

/-!
The text of find without conditions: one column for each attribute, the rows of the source or of one
of its objects, an order and a limit.
-/
namespace Rhodes.PivotTexts

open SqlToken SqlPieces SqlGrammar RhomSql RhomStatements SqlSelects RhomFind

section Columns

/-- One column, without the comma behind it. -/
def columnPieces (a : String) : List Piece :=
  [.word "MAX", .sym '(', .word "CASE", .gap ' ', .word "WHEN", .gap ' ', .word "attrib", .gap ' ',
    .sym '=', .gap ' ', .quoted '\'' a, .gap ' ', .word "THEN", .gap ' ', .word "value", .gap ' ',
    .word "ELSE", .gap ' ', .word "NULL", .gap ' ', .word "END", .sym ')', .gap ' ', .word "AS",
    .gap ' ', .quoted '"' a]

/-- An attribute that is read as it is between both kinds of quotes. -/
def PlainAttrib (a : String) : Prop := Piece.PlainIn '\'' a ∧ Piece.PlainIn '"' a

instance : DecidablePred PlainAttrib := fun _ => inferInstanceAs (Decidable (_ ∧ _))

theorem toList_attribColumn (a : String) :
    (attribColumn a).toList = render (columnPieces a) ++ [',', '\n'] := by
  unfold attribColumn
  simp only [String.toList_append]
  simp [columnPieces, Piece.render]

theorem columnPieces_spaced (a : String) : Spaced (columnPieces a) := by
  refine ⟨?_, ?_⟩
  · simp [columnPieces, Piece.Ok, Piece.isWord]
  · simp [columnPieces, Piece.Allows, Piece.separates]

theorem tokensOf_columnPieces (a : String) : tokensOf (columnPieces a) = attribTokens a := by
  have hwords : ∀ w ∈ ["MAX", "CASE", "WHEN", "attrib", "THEN", "value", "ELSE", "NULL", "END",
      "AS"], (Piece.word w).tokens = [.word (lower w.toList)] := fun _ _ => rfl
  have hlower : lower "MAX".toList = "max".toList ∧ lower "CASE".toList = "case".toList ∧
      lower "WHEN".toList = "when".toList ∧ lower "attrib".toList = "attrib".toList ∧
      lower "THEN".toList = "then".toList ∧ lower "value".toList = "value".toList ∧
      lower "ELSE".toList = "else".toList ∧ lower "NULL".toList = "null".toList ∧
      lower "END".toList = "end".toList ∧ lower "AS".toList = "as".toList := by decide
  simp only [columnPieces, tokensOf_cons, tokensOf_nil, Piece.tokens, hlower]
  simp [attribTokens, kw, symbol]

theorem columnPieces_plain {a : String} (h : PlainAttrib a) : ∀ p ∈ columnPieces a, p.Plain := by
  simp [columnPieces, Piece.Plain, h.1, h.2]

/-- All columns. -/
def columnsPieces (a : String) (attribs : List String) : List Piece :=
  columnPieces a ++ attribs.flatMap (fun b => [.sym ',', .gap '\n'] ++ columnPieces b)

theorem sepColumn_spaced (b : String) : Spaced ([.sym ',', .gap '\n'] ++ columnPieces b) ∧
    Opens ([.sym ',', .gap '\n'] ++ columnPieces b) := by
  refine ⟨spaced_append (by decide) (columnPieces_spaced b) ?_, ?_⟩
  · rintro p hp q -
    cases hp
    rfl
  · rintro q hq
    cases hq
    rfl

theorem columnsPieces_spaced (a : String) (attribs : List String) :
    Spaced (columnsPieces a attribs) := by
  obtain ⟨hrest, hopens⟩ := spaced_flatMap attribs _ (fun b _ => sepColumn_spaced b)
  exact (columnPieces_spaced a).append hrest hopens

theorem tokensOf_columnsPieces (a : String) (attribs : List String) :
    tokensOf (columnsPieces a attribs) =
      (Items.mk a attribs).tokens (symbol ',') attribTokens := by
  have hrest : tokensOf (attribs.flatMap (fun b => [.sym ',', .gap '\n'] ++ columnPieces b)) =
      attribs.flatMap (fun b => symbol ',' :: attribTokens b) := by
    induction attribs with
    | nil => rfl
    | cons b attribs ih =>
      rw [List.flatMap_cons, tokensOf_append, ih, tokensOf_append, tokensOf_columnPieces]
      rfl
  rw [columnsPieces, tokensOf_append, tokensOf_columnPieces, hrest]
  rfl

theorem columnsPieces_plain {a : String} {attribs : List String}
    (h : ∀ b ∈ a :: attribs, PlainAttrib b) : ∀ p ∈ columnsPieces a attribs, p.Plain := by
  obtain ⟨ha, hattribs⟩ := List.forall_mem_cons.mp h
  refine List.forall_mem_append.mpr ⟨columnPieces_plain ha, ?_⟩
  intro p hp
  obtain ⟨b, hb, hp'⟩ := List.mem_flatMap.mp hp
  rcases List.mem_append.mp hp' with hp' | hp'
  · rcases List.mem_cons.mp hp' with rfl | hp'
    · trivial
    · rw [List.mem_singleton.mp hp']
      trivial
  · exact columnPieces_plain (hattribs b hb) p hp'

/-- The first line and the columns, without the last comma. -/
theorem toList_columns {attribs : List String} {a : String} {rest : List String}
    (hcolumns : attribs.filter isColumn = a :: rest) :
    (chompChop (attribs.foldl (fun sql a => if isColumn a then sql ++ attribColumn a else sql)
      "SELECT object, \n")).toList =
      "SELECT object, \n".toList ++ render (columnsPieces a rest) := by
  have htext : (attribs.foldl (fun sql a => if isColumn a then sql ++ attribColumn a else sql)
      "SELECT object, \n").toList =
      ("SELECT object, \n".toList ++ render (columnsPieces a rest)) ++ [',', '\n'] := by
    rw [← List.foldl_filter, hcolumns, toList_foldl]
    simp only [toList_attribColumn]
    rw [flatMap_shift, columnsPieces, render_append]
    simp [render, List.flatMap_assoc, Piece.render]
  unfold chompChop
  refine toList_upTo htext ?_ ?_
  · simp
    omega
  · exact List.append_ne_nil_of_left_ne_nil (by decide) _

end Columns

section Pivots

/-- The direction as it is written. -/
def dirText : Direction → String
  | .none => ""
  | .asc => "ASC"
  | .desc => "DESC"

def orderPieces : Option (String × Direction) → List Piece
  | none => []
  | some (a, dir) => [.word "order", .gap ' ', .word "by", .gap ' ', .quoted '"' a, .gap ' '] ++
      (match dir with
        | .none => []
        | .asc => [.word "ASC"]
        | .desc => [.word "DESC"])

def orderText (o : Option (String × Direction)) : String :=
  match o with
  | none => ""
  | some (attr, dir) => "order by \"" ++ attr ++ "\" " ++ dirText dir

theorem toList_orderText (o : Option (String × Direction)) :
    (orderText o).toList = render (orderPieces o) := by
  rcases o with _ | ⟨a, dir⟩
  · rfl
  · unfold orderText
    simp only [String.toList_append]
    cases dir <;> simp [orderPieces, dirText, Piece.render]

theorem orderPieces_spaced (o : Option (String × Direction)) : Spaced (orderPieces o) := by
  rcases o with _ | ⟨a, dir⟩
  · exact spaced_nil
  · cases dir <;> exact ⟨by simp [orderPieces, Piece.Ok, Piece.isWord],
      by simp [orderPieces, Piece.Allows, Piece.separates]⟩

theorem tokensOf_orderPieces (o : Option (String × Direction)) :
    tokensOf (orderPieces o) = orderTokens o := by
  have hwords : (Piece.word "order").tokens = [kw "order"] ∧ (Piece.word "by").tokens = [kw "by"] ∧
      (Piece.word "ASC").tokens = [kw "asc"] ∧ (Piece.word "DESC").tokens = [kw "desc"] := by
    decide
  rcases o with _ | ⟨a, dir⟩
  · rfl
  · cases dir <;> simp only [orderPieces, tokensOf_append, tokensOf_cons, tokensOf_nil, hwords] <;>
      rfl

theorem orderPieces_plain {o : Option (String × Direction)}
    (h : ∀ a ∈ o, Piece.PlainIn '"' a.1) : ∀ p ∈ orderPieces o, p.Plain := by
  rcases o with _ | ⟨a, dir⟩
  · exact List.forall_mem_nil _
  · have ha := h (a, dir) rfl
    cases dir <;> simp [orderPieces, Piece.Plain, ha]

/-- What stands behind the conditions. -/
def groupPieces (order : Option (String × Direction)) (limit : Option Limit) : List Piece :=
  [.gap '\n'] ++ (headPieces ["group", "by"] ++ ([.word "object"] ++ ([.gap '\n'] ++
    (orderPieces order ++ limitPieces limit))))

/-- What stands behind the columns. -/
def fromPieces (ps : List Piece) (order : Option (String × Direction)) (limit : Option Limit) :
    List Piece :=
  [.gap ' '] ++ (headPieces ["FROM", "object_values", "ov"] ++ ([.gap '\n'] ++
    (headPieces ["where"] ++ (ps ++ groupPieces order limit))))

def pivotPieces (a : String) (attribs : List String) (ps : List Piece)
    (order : Option (String × Direction)) (limit : Option Limit) : List Piece :=
  headPieces ["SELECT"] ++ ([.word "object", .sym ',', .gap ' ', .gap '\n'] ++
    (columnsPieces a attribs ++ fromPieces ps order limit))

/-- The name that the statement gives to object_values. -/
def ovId : Ident := ⟨"ov", by decide⟩

/-- The statement of find without conditions. -/
def pivotOf (a : String) (attribs : List String) (conds : Items Cond)
    (order : Option (String × Direction)) (limit : Option Limit) : Pivot :=
  ⟨⟨a, attribs⟩, objectValuesId, ovId, conds, order, limit⟩

variable {ps : List Piece} {conds : Items Cond} (h : CondsRead ps conds)
  (order : Option (String × Direction)) (limit : Option Limit)

theorem groupPieces_spaced : Spaced (groupPieces order limit) ∧ Opens (groupPieces order limit) :=
  gap_spaced (Or.inr rfl) (headPieces_spaced (by decide) (Spaced.append (by decide)
    (gap_spaced (Or.inr rfl) ((orderPieces_spaced order).append (limitPieces_spaced limit).1
      (limitPieces_spaced limit).2)).1
    (gap_spaced (Or.inr rfl) ((orderPieces_spaced order).append (limitPieces_spaced limit).1
      (limitPieces_spaced limit).2)).2))

include h

theorem fromPieces_spaced : Spaced (fromPieces ps order limit) ∧
    Opens (fromPieces ps order limit) := by
  obtain ⟨hgroup, hopens⟩ := groupPieces_spaced order limit
  exact gap_spaced (Or.inl rfl) (headPieces_spaced (by decide) (gap_spaced (Or.inr rfl)
    (headPieces_spaced (by decide) (h.spaced.append hgroup hopens))).1)

theorem pivotPieces_spaced (a : String) (attribs : List String) :
    Spaced (pivotPieces a attribs ps order limit) := by
  obtain ⟨hfrom, hopens⟩ := fromPieces_spaced h order limit
  refine headPieces_spaced (by decide) (spaced_append (by decide)
    ((columnsPieces_spaced a attribs).append hfrom hopens) ?_)
  rintro p hp q -
  cases hp
  rfl

theorem tokensOf_pivotPieces (a : String) (attribs : List String) :
    tokensOf (pivotPieces a attribs ps order limit) =
      (Stmt.pivot (pivotOf a attribs conds order limit)).tokens := by
  have hselect : tokensOf (headPieces ["SELECT"]) = [kw "select"] := by decide
  have hobject : tokensOf [.word "object", .sym ',', .gap ' ', .gap '\n'] =
      [kw "object", symbol ','] := by decide
  have hfrom : tokensOf (headPieces ["FROM", "object_values", "ov"]) =
      [kw "from", objectValuesId.token, ovId.token] := by decide
  have hwhere : tokensOf (headPieces ["where"]) = [kw "where"] := by decide
  have hgroup : tokensOf (headPieces ["group", "by"]) = [kw "group", kw "by"] := by decide
  have hword : tokensOf [Piece.word "object"] = [kw "object"] := by decide
  have hgap : ∀ c, tokensOf [Piece.gap c] = [] := fun _ => rfl
  simp only [pivotPieces, fromPieces, groupPieces, tokensOf_append, hselect, hobject, hfrom, hwhere,
    hgroup, hword, hgap, tokensOf_columnsPieces, tokensOf_orderPieces, limitPieces_tokens, h.tokens]
  simp [Stmt.tokens, Pivot.tokens, pivotOf, whereTokens]

theorem pivotPieces_plain {a : String} {attribs : List String}
    (hattribs : ∀ b ∈ a :: attribs, PlainAttrib b) (horder : ∀ o ∈ order, Piece.PlainIn '"' o.1) :
    ∀ p ∈ pivotPieces a attribs ps order limit, p.Plain := by
  unfold pivotPieces fromPieces groupPieces
  rw [headPieces_plain]
  refine List.forall_mem_append.mpr ⟨by simp [Piece.Plain], ?_⟩
  refine List.forall_mem_append.mpr ⟨columnsPieces_plain hattribs, ?_⟩
  refine List.forall_mem_append.mpr ⟨by simp [Piece.Plain], ?_⟩
  rw [headPieces_plain]
  refine List.forall_mem_append.mpr ⟨by simp [Piece.Plain], ?_⟩
  rw [headPieces_plain]
  refine List.forall_mem_append.mpr ⟨h.plain, ?_⟩
  refine List.forall_mem_append.mpr ⟨by simp [Piece.Plain], ?_⟩
  rw [headPieces_plain]
  refine List.forall_mem_append.mpr ⟨by simp [Piece.Plain], ?_⟩
  refine List.forall_mem_append.mpr ⟨by simp [Piece.Plain], ?_⟩
  exact List.forall_mem_append.mpr ⟨orderPieces_plain horder, limitPieces_plain limit⟩

end Pivots

section Spelling

variable {attribs : List String} {a : String} {rest : List String}
  (hcolumns : attribs.filter isColumn = a :: rest) {whereCond : List (String × Option String)}
  {ps : List Piece} {conds : Items Cond} (order : Option (String × Direction))
  (limit : Option Limit)

include hcolumns

theorem toList_pivotText (htext : (whereStr (some whereCond) []).toList = render ps) :
    (pivotText attribs whereCond (order.map (fun o => (o.1, dirText o.2)))
      (FindTexts.limitTextOf limit)).toList = render (pivotPieces a rest ps order limit) := by
  have hpivot : pivotText attribs whereCond (order.map (fun o => (o.1, dirText o.2)))
      (FindTexts.limitTextOf limit) = chompChop (attribs.foldl
        (fun sql a => if isColumn a then sql ++ attribColumn a else sql) "SELECT object, \n") ++
        " FROM object_values ov \n" ++ "where " ++ whereStr (some whereCond) [] ++ "\n" ++
        "group by object\n" ++ orderText order ++ FindTexts.limitTextOf limit := by
    rcases order with _ | ⟨b, dir⟩ <;> rfl
  have hcols := toList_columns hcolumns
  rw [hpivot]
  simp only [String.toList_append, hcols, htext, toList_orderText, FindTexts.toList_limitTextOf]
  simp [pivotPieces, fromPieces, groupPieces, headPieces, Piece.render]

/-- The text of find without conditions is its statement. -/
theorem pivotText_spells (h : WhereReads whereCond ps conds) (hplain : ∀ p ∈ ps, p.Plain)
    (hattribs : ∀ b ∈ a :: rest, PlainAttrib b) (horder : ∀ o ∈ order, Piece.PlainIn '"' o.1) :
    Spells (pivotText attribs whereCond (order.map (fun o => (o.1, dirText o.2)))
      (FindTexts.limitTextOf limit)) (.pivot (pivotOf a rest conds order limit)) := by
  have hread : CondsRead ps conds := ⟨h.spaced, h.tokens, hplain⟩
  rw [Spells, ← tokensOf_pivotPieces hread, lexText_render_iff
    (pivotPieces_spaced hread order limit a rest) (toList_pivotText hcolumns order limit h.text)]
  exact pivotPieces_plain hread order limit hattribs horder

end Spelling

end Rhodes.PivotTexts
