import Rhodes.FindAnswers
import Rhodes.PivotTexts

/-!
The texts of find that get a limit: the one condition of a hash, the objects of the source, and the
attributes of the objects. SQLite gives the part of the rows that the limit says.
-/
namespace Rhodes.LimitedTexts

open Database SqlGrammar SqlTables RhomSql RhomStatements SqlSelects RhomFind FindTexts FindRows
  FindAnswers PivotTexts

section Parts

variable (E : Engine)

/-- A text is answered, and with a limit its part of the rows is. -/
def LimitTakes (text : String → String) (k : Nat) (db : Tables) : Prop :=
  ∃ rows, E (text "") [] db = some (rows, db) ∧ ∀ i, i * k < rows.length + k →
    E (text (limitText k (i * k))) [] db = some ((rows.drop (i * k)).take k, db)

/-- With a limit, a text that is answered is answered with that part of the rows. -/
def LimitPart (text : String → String) (k : Nat) (db : Tables) : Prop :=
  ∀ rows, E (text "") [] db = some (rows, db) → ∀ i, i * k < rows.length + k →
    E (text (limitText k (i * k))) [] db = some ((rows.drop (i * k)).take k, db)

end Parts

section Limits

variable {E : Engine} (hE : Lawful E) {db : Tables}

/-- A text that spells a statement with each limit and without one. -/
structure Limited (text : String → String) (s : Option Limit → Stmt) (db : Tables)
    (names : List String) (values : List (List (Option String))) : Prop where
  spells : ∀ l, Spells (text (limitTextOf l)) (s l)
  limit : ∀ l, limitOf (s l) = l
  free : ∀ l, unlimited (s l) = s none
  fits : ∀ l, LimitFits l → Fits (s l)
  runs : ∀ l, run (bindArgs (s l) []) db = some (.rows names values)

section Taking

variable {text : String → String} {s : Option Limit → Stmt} {names : List String}
  {values : List (List (Option String))} (h : Limited text s db names values)

include hE h

theorem Limited.answered : ∃ values', values'.Perm values ∧
    E (text "") [] db = some (rowsWith names values', db) :=
  hE.rows _ [] db _ names values (h.spells none) (h.fits none (fun l hl => by cases hl))
    (h.limit none) (h.runs none)

theorem Limited.page {l : Limit} (hl : l.limit + l.offset < 2 ^ 63) {rows : List Row}
    (hrows : E (text "") [] db = some (rows, db)) :
    E (text (limitText l.limit l.offset)) [] db =
      some ((rows.drop l.offset).take l.limit, db) := by
  have hfits : LimitFits (some l) := by
    rintro l' hl'
    cases hl'
    exact hl
  have hfree : Spells (text "") (unlimited (s (some l))) := by
    rw [h.free]
    exact h.spells none
  exact hE.page _ _ [] db _ l names values (h.spells (some l)) hfree (h.fits _ hfits) (h.limit _)
    (h.runs _) _ hrows

/-- SQLite gives the part of the rows that the limit says. -/
theorem Limited.takes {k : Nat} (hsmall : values.length + 2 * k < 2 ^ 63) :
    LimitTakes E text k db := by
  obtain ⟨values', hperm, hrun⟩ := h.answered hE
  refine ⟨rowsWith names values', hrun, fun i hi => ?_⟩
  rw [rowsWith, List.length_map, hperm.length_eq] at hi
  exact h.page hE (l := ⟨k, i * k⟩) (by show k + i * k < 2 ^ 63; omega) hrun

end Taking

variable (db) in
theorem limited_select {text : String → String} {c : Core}
    (hspells : ∀ l, Spells (text (limitTextOf l)) (.select (selectOf c [] l)))
    (hparams : coreParams c = 0) (hknown : CoreKnown c) :
    Limited text (fun l => .select (selectOf c [] l)) db (c.cols.toList.map Ident.name)
      (c.values (fun r => r) (rowsOf db c.table)) where
  spells := hspells
  limit _ := rfl
  free _ := rfl
  fits l hl := ⟨by simp [selectOf], by
    show coreParams c + 0 ≤ 999
    rw [hparams]
    decide, hl⟩
  runs l := by
    rw [bindArgs_nil]
    show (if SelectKnown (selectOf c [] l) then some _ else none) = _
    rw [if_pos ⟨hknown, fun r hr => by cases hr⟩]
    rfl

theorem condCore_spells (src : Int) {c : String × Option String} (hkey : Readable (some c.1))
    (hvalue : Readable c.2) (l : Option Limit) :
    Spells (intersectText (keyed [c]) (getValueForSqlStmt (some (toString src))) (limitTextOf l))
      (.select (selectOf (condCore c.1 c.2 src) [] l)) := by
  cases l with
  | none =>
    refine intersectText_spells src ?_
    rintro c' hc'
    cases List.mem_singleton.mp hc'
    exact ⟨hkey, hvalue⟩
  | some l => exact limitedText_spells src hkey hvalue l

variable (db) in
theorem limited_cond (src : Int) {c : String × Option String} (hkey : Readable (some c.1))
    (hvalue : Readable c.2) :
    Limited (intersectText (keyed [c]) (getValueForSqlStmt (some (toString src))))
      (fun l => .select (selectOf (condCore c.1 c.2 src) [] l)) db ["object"]
      ((condObjects db src c).map single) := by
  have h := limited_select db (condCore_spells src hkey hvalue) rfl (condCore_known src c)
  rwa [show (condCore c.1 c.2 src).table = objectValuesId from rfl, condCore_values] at h

variable (db) in
theorem limited_distinct (src : Int) :
    Limited (distinctText (getValueForSqlStmt (some (toString src))))
      (fun l => .select (selectOf (distinctCore src) [] l)) db ["object"]
      ((sourceObjects db src).map single) := by
  have h := limited_select db (distinctText_spells src) rfl (distinctCore_known src)
  rwa [show (distinctCore src).table = objectValuesId from rfl, distinctCore_values] at h

omit hE in
theorem LimitTakes.part {text : String → String} {k : Nat} (h : LimitTakes E text k db) :
    LimitPart E text k db := by
  obtain ⟨rows, hrun, hpages⟩ := h
  intro rows' hrun'
  rw [hrun] at hrun'
  cases hrun'
  exact hpages

end Limits

section Columns

/-- Attributes of which some have a column, each with its own name and fewer than SQLite's limit.
The name object is taken. -/
structure PlainColumns (attribs : List String) : Prop where
  some_column : attribs.filter isColumn ≠ []
  plain : ∀ a ∈ attribs.filter isColumn, PlainAttrib a
  no_object : ∀ a ∈ attribs.filter isColumn, SqlToken.lower a.toList ≠ "object".toList
  few : (attribs.filter isColumn).length + 1 ≤ 2000

variable (db : Tables) {attribs : List String} (hattribs : PlainColumns attribs)
  {fs : List (Ident × Option String)} {f : Ident × Option String} (hread : ReadableFields (f :: fs))
  (hknown : Known .objects (f :: fs))

/-- The rows of the objects that have a row with these values. -/
def pivotValues (attribs : List String) (fs : List (Ident × Option String)) (db : Tables) :
    List (List (Option String)) :=
  let found := db.objects.rows.filter (fun r => Matches fs (objectCells r))
  ((found.map ObjectValue.object).dedup).map (fun object =>
    object :: (attribs.filter isColumn).map (fun a => maxText ((found.filter (fun r =>
      r.object = object ∧ r.attrib = some a)).map ObjectValue.value)))

theorem pivotValues_length (attribs : List String) (fs : List (Ident × Option String)) :
    (pivotValues attribs fs db).length ≤ db.objects.rows.length := by
  rw [pivotValues, List.length_map]
  refine (List.dedup_sublist _).length_le.trans ?_
  rw [List.length_map]
  exact List.length_filter_le _ _

theorem sourceField_readable (src : Int) : ReadableFields [(sourceId, some (toString src))] :=
  List.forall_mem_singleton.mpr (readable_of_plain (plainValue_int src))

theorem sourceField_known (src : Int) : Known .objects [(sourceId, some (toString src))] :=
  List.forall_mem_singleton.mpr (knownInt (by decide) src)

include hattribs hread hknown

theorem limited_pivot (order : Option (String × Direction))
    (horder : ∀ o ∈ order, SqlPieces.Piece.PlainIn '"' o.1) : ∃ s, Limited
      (pivotText attribs (texts (f :: fs)) (order.map (fun o => (o.1, dirText o.2)))) s db
      ("object" :: attribs.filter isColumn) (pivotValues attribs (f :: fs) db) := by
  obtain ⟨a, rest, hcolumns⟩ : ∃ a rest, attribs.filter isColumn = a :: rest :=
    List.exists_cons_of_ne_nil hattribs.some_column
  have hplain := hcolumns ▸ hattribs.plain
  have hobject := hcolumns ▸ hattribs.no_object
  have hfew := hcolumns ▸ hattribs.few
  refine ⟨fun l => .pivot (pivotOf a rest ⟨readCond f, fs.map readCond⟩ order l), ?_, fun _ => rfl,
    fun _ => rfl, ?_, ?_⟩
  · exact fun l => pivotText_spells hcolumns order l (readWhereReads f fs)
      (readWherePieces_plain hread) hplain horder
  · exact fun l hl => ⟨hfew, hl⟩
  · intro l
    rw [bindArgs_nil]
    show (if PivotKnown (pivotOf a rest ⟨readCond f, fs.map readCond⟩ order l) then some _
      else none) = _
    rw [if_pos ⟨rfl, condsKnown_read hknown, hobject⟩]
    have hvalues : (pivotOf a rest ⟨readCond f, fs.map readCond⟩ order l).values objectCells
        db.objects.rows = pivotValues attribs (f :: fs) db := by
      unfold pivotValues
      rw [hcolumns]
      simp only [Pivot.values, pivotOf, selects_read]
      rfl
    rw [hvalues, hcolumns]
    rfl

end Columns

end Rhodes.LimitedTexts
