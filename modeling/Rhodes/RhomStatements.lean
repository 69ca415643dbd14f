import Rhodes.RhomSql
import Rhodes.SqlTables

/-!
What the statements of the adapter do to the two tables when SQLite gets their texts, for values
without an apostrophe and a zero character. The value NULL is read as the NULL of SQL: a condition
on it holds for no row, and a column that gets it is NULL.
-/
namespace Rhodes.RhomStatements

open Database SqlToken SqlPieces SqlGrammar SqlTables RhomSql

section Readable

/-- What SQLite reads. -/
def readValue (v : Option String) : Option String := if v = some "NULL" then none else v

/-- A value that ends where its quote does. -/
def Readable (v : Option String) : Prop := ∀ s, v = some s → Piece.PlainIn '\'' s

def ReadableFields (fs : List (Ident × Option String)) : Prop := ∀ f ∈ fs, Readable f.2

theorem readable_of_plain {v : Option String} (h : Piece.PlainValue v) : Readable v :=
  fun s hs => (h s hs).2

theorem readable_text {s : String} (h : '\'' ∉ s.toList ∧ '\x00' ∉ s.toList) :
    Readable (some s) := fun _ hs => Option.some.inj hs ▸ h

theorem isDigit_of_toString (i : Int) : ∀ c ∈ (toString i).toList, c = '-' ∨ c.isDigit := by
  intro c hc
  have hdigits : ∀ n : Nat, ∀ c ∈ (toString n).toList, c = '-' ∨ c.isDigit = true :=
    fun n c hc => Or.inr (isDigit_toString n c hc)
  cases i with
  | ofNat n => exact hdigits n c hc
  | negSucc n =>
    have htext : (toString (Int.negSucc n)).toList = '-' :: (toString (n + 1)).toList := by
      have h : toString (Int.negSucc n) = "-" ++ toString (n + 1) := rfl
      rw [h, String.toList_append]
      rfl
    rw [htext] at hc
    rcases List.mem_cons.mp hc with rfl | hc
    · exact Or.inl rfl
    · exact hdigits (n + 1) c hc

theorem plainValue_int (i : Int) : Piece.PlainValue (some (toString i)) := by
  rintro s hs
  cases hs
  have hdigit := isDigit_of_toString i
  refine ⟨?_, ?_, ?_⟩
  · intro h
    have hmem : 'N' ∈ (toString i).toList := by
      rw [h]
      decide
    exact absurd (hdigit 'N' hmem) (by decide)
  · exact fun h => absurd (hdigit '\'' h) (by decide)
  · exact fun h => absurd (hdigit '\x00' h) (by decide)

theorem plainValue_readValue (v : Option String) :
    Piece.PlainValue (readValue v) ↔ Readable v := by
  unfold readValue
  split
  · rename_i hv
    subst hv
    refine iff_of_true (fun s hs => by cases hs) ?_
    rintro s hs
    cases hs
    decide
  · rename_i hv
    refine forall₂_congr (fun s hs => and_iff_right ?_)
    rintro rfl
    exact hv hs

theorem map_cText {v : Option String} (h : Readable v) : v.map cText = v := by
  cases v with
  | none => rfl
  | some s => rw [Option.map_some, cText_eq (h s rfl).2]

/-- A condition of where_str as it is read. -/
def readCond (f : Ident × Option String) : Cond :=
  ⟨⟨f.1, true⟩, match f.2 with
    | none => .isNull
    | some s => .eq (.lit (readValue (some s)))⟩

def readPieces (f : Ident × Option String) : List Piece :=
  [.gap ' ', .quoted '"' f.1.name, .gap ' ', if f.2.isNone then .word "is" else .sym '=',
    .gap ' ', .gap ' ', .value (readValue f.2)]

def andReadPieces (f : Ident × Option String) : List Piece :=
  [.gap ' ', .word "and"] ++ readPieces f

def readWherePieces (f : Ident × Option String) (fs : List (Ident × Option String)) :
    List Piece := readPieces f ++ fs.flatMap andReadPieces

theorem render_readPieces (f : Ident × Option String) :
    render (readPieces f) = render (condPieces f) := by
  have hvalue : (Piece.value (readValue f.2)).render = (Piece.value f.2).render := by
    unfold readValue
    split
    · rename_i hv
      rw [hv]
      rfl
    · rfl
  simp [readPieces, condPieces, hvalue]

theorem render_readWherePieces (f : Ident × Option String) (fs : List (Ident × Option String)) :
    render (readWherePieces f fs) = render (wherePieces f fs) := by
  have hrest : render (fs.flatMap andReadPieces) = render (fs.flatMap andPieces) := by
    induction fs with
    | nil => rfl
    | cons f' fs ih =>
      rw [List.flatMap_cons, List.flatMap_cons, render_append, render_append, ih, andReadPieces,
        andPieces, render_append, render_append, render_readPieces]
  rw [readWherePieces, wherePieces, render_append, render_append, render_readPieces, hrest]

theorem readPieces_spaced (f : Ident × Option String) :
    Spaced (readPieces f) ∧ Opens (readPieces f) := by
  obtain ⟨i, v⟩ := f
  refine ⟨⟨?_, ?_⟩, ?_⟩
  · cases v <;> simp [readPieces, Piece.Ok, Piece.isWord]
  · cases v <;> simp [readPieces, Piece.Allows, Piece.separates]
  · rintro q hq
    cases hq
    rfl

theorem readWherePieces_spaced (f : Ident × Option String)
    (fs : List (Ident × Option String)) : Spaced (readWherePieces f fs) := by
  have hand : ∀ f', Spaced (andReadPieces f') ∧ Opens (andReadPieces f') := by
    intro f'
    obtain ⟨hspaced, hopens⟩ := readPieces_spaced f'
    refine ⟨Spaced.append (by decide) hspaced hopens, ?_⟩
    rintro q hq
    cases hq
    rfl
  obtain ⟨hrest, hrest'⟩ := spaced_flatMap fs andReadPieces (fun f' _ => hand f')
  exact (readPieces_spaced f).1.append hrest hrest'

theorem tokensOf_readPieces (f : Ident × Option String) :
    tokensOf (readPieces f) = (readCond f).tokens := by
  obtain ⟨i, v⟩ := f
  cases v with
  | none => rfl
  | some s =>
    have hvalue := tokens_value (readValue (some s))
    simp only [readPieces, tokensOf_cons, tokensOf_nil, hvalue]
    rfl

theorem tokensOf_readWherePieces (f : Ident × Option String)
    (fs : List (Ident × Option String)) : tokensOf (readWherePieces f fs) =
      (Items.mk (readCond f) (fs.map readCond)).tokens (kw "and") Cond.tokens := by
  have hrest : tokensOf (fs.flatMap andReadPieces) =
      (fs.map readCond).flatMap (fun c => kw "and" :: c.tokens) := by
    induction fs with
    | nil => rfl
    | cons f' fs ih =>
      rw [List.flatMap_cons, tokensOf_append, ih, List.map_cons, List.flatMap_cons,
        andReadPieces, tokensOf_append, tokensOf_readPieces]
      rfl
  rw [readWherePieces, tokensOf_append, tokensOf_readPieces, hrest]
  rfl

theorem readPieces_plain {f : Ident × Option String} (h : Readable f.2) :
    ∀ p ∈ readPieces f, p.Plain := by
  have hvalue := (plainValue_readValue f.2).mpr h
  obtain ⟨i, v⟩ := f
  cases v <;> simp [readPieces, Piece.Plain, plainIn_name i, hvalue]

theorem readWherePieces_plain {f : Ident × Option String} {fs : List (Ident × Option String)}
    (h : ReadableFields (f :: fs)) : ∀ p ∈ readWherePieces f fs, p.Plain := by
  obtain ⟨hf, hfs⟩ := List.forall_mem_cons.mp h
  refine List.forall_mem_append.mpr ⟨readPieces_plain hf, ?_⟩
  intro p hp
  obtain ⟨f', hf', hp'⟩ := List.mem_flatMap.mp hp
  rcases List.mem_append.mp hp' with hp' | hp'
  · rcases List.mem_cons.mp hp' with rfl | hp'
    · trivial
    · rw [List.mem_singleton.mp hp']
      trivial
  · exact readPieces_plain (hfs f' hf') p hp'

theorem readWhereReads (f : Ident × Option String) (fs : List (Ident × Option String)) :
    WhereReads (texts (f :: fs)) (readWherePieces f fs) ⟨readCond f, fs.map readCond⟩ :=
  ⟨by rw [toList_whereStr, render_readWherePieces], readWherePieces_spaced f fs,
    tokensOf_readWherePieces f fs⟩

/-- A cell that a condition on this value holds for. -/
def CellIs (v cell : Option String) : Prop := cell = v ∧ v ≠ some "NULL"

instance (v : Option String) : DecidablePred (CellIs v) := fun _ =>
  inferInstanceAs (Decidable (_ ∧ _))

/-- A row that has these values, none of which is the text NULL. -/
def Matches (fs : List (Ident × Option String)) (r : Cells) : Prop :=
  ∀ f ∈ fs, CellIs f.2 (r f.1.name)

instance (fs : List (Ident × Option String)) : DecidablePred (Matches fs) := fun _ =>
  inferInstanceAs (Decidable (∀ f ∈ fs, _))

theorem matches_cons (f : Ident × Option String) (fs : List (Ident × Option String)) (r : Cells) :
    Matches (f :: fs) r ↔ CellIs f.2 (r f.1.name) ∧ Matches fs r :=
  List.forall_mem_cons

theorem matches_singleton (f : Ident × Option String) (r : Cells) :
    Matches [f] r ↔ CellIs f.2 (r f.1.name) :=
  List.forall_mem_singleton

/-- An integer that is compared with another one. -/
theorem intCell (i j : Int) : CellIs (some (toString j)) (some (toString i)) ↔ i = j := by
  have hplain := (plainValue_int j _ rfl).1
  constructor
  · rintro ⟨h, -⟩
    exact toString_int_injective (Option.some.inj h)
  · rintro rfl
    exact ⟨rfl, fun h => hplain (Option.some.inj h)⟩

theorem cellIs_iff {v : Option String} (hplain : Piece.PlainValue v) (cell : Option String) :
    CellIs v cell ↔ cell = v :=
  and_iff_left (fun h => (hplain "NULL" h).1 rfl)

theorem readCond_holds (f : Ident × Option String) (r : Cells) :
    (readCond f).Holds r ↔ CellIs f.2 (r f.1.name) := by
  obtain ⟨i, v⟩ := f
  cases v with
  | none => exact (and_iff_left (by simp)).symm
  | some s =>
    show readValue (some s) ≠ none ∧ r i.name = readValue (some s) ↔ _
    unfold CellIs readValue
    split
    · rename_i hs
      simp [hs]
    · rename_i hs
      simp [hs]

theorem selects_read (f : Ident × Option String) (fs : List (Ident × Option String)) (r : Cells) :
    Selects (some ⟨readCond f, fs.map readCond⟩) r ↔ Matches (f :: fs) r := by
  have hlist : (Items.mk (readCond f) (fs.map readCond)).toList = (f :: fs).map readCond := rfl
  constructor
  · intro h f' hf'
    refine (readCond_holds f' r).mp (h _ rfl _ ?_)
    rw [hlist]
    exact List.mem_map_of_mem hf'
  · rintro h cs hcs c hc
    cases hcs
    rw [hlist] at hc
    obtain ⟨f', hf', rfl⟩ := List.mem_map.mp hc
    exact (readCond_holds f' r).mpr (h f' hf')

/-- Columns of the table, with integers for the columns of integers. -/
def Known (T : Table) (fs : List (Ident × Option String)) : Prop :=
  ∀ f ∈ fs, f.1.name ∈ T.columns ∧
    (f.1.name ∈ intColumns → ∀ s, f.2 = some s → (asInt s).isSome)

theorem knownText {T : Table} {i : Ident} (hcol : i.name ∈ T.columns) (htext : i.name ∉ intColumns)
    (v : Option String) : (i, v).1.name ∈ T.columns ∧
      ((i, v).1.name ∈ intColumns → ∀ s, (i, v).2 = some s → (asInt s).isSome) :=
  ⟨hcol, fun h => absurd h htext⟩

theorem knownInt {T : Table} {i : Ident} (hcol : i.name ∈ T.columns) (n : Int) :
    (i, some (toString n)).1.name ∈ T.columns ∧ ((i, some (toString n)).1.name ∈ intColumns →
      ∀ s, (i, some (toString n)).2 = some s → (asInt s).isSome) := by
  refine ⟨hcol, fun _ s hs => ?_⟩
  rw [← Option.some.inj hs, asInt_toString]
  rfl

theorem condsKnown_read {T : Table} {f : Ident × Option String}
    {fs : List (Ident × Option String)} (h : Known T (f :: fs)) :
    CondsKnown T (some ⟨readCond f, fs.map readCond⟩) := by
  rintro cs hcs c hc
  cases hcs
  obtain ⟨f', hf', rfl⟩ : ∃ f' ∈ f :: fs, readCond f' = c := List.mem_map.mp hc
  obtain ⟨hcol, hint⟩ := h f' hf'
  refine ⟨hcol, ?_⟩
  intro hmem s hs
  obtain ⟨i, v⟩ := f'
  cases v with
  | none => cases hs
  | some v =>
    have hs' : readValue (some v) = some s := hs
    unfold readValue at hs'
    split at hs'
    · cases hs'
    · exact hint hmem s hs'

end Readable

section Binding

theorem bindAll_nil {α : Type} {f : α → List (Option String) → α × List (Option String)}
    (hf : ∀ a, f a [] = (a, [])) (as : List α) : bindAll f as [] = (as, []) := by
  induction as with
  | nil => rfl
  | cons a as ih => simp [bindAll, hf, ih]

theorem cond_bind_nil (c : Cond) : c.bind [] = (c, []) := by
  unfold Cond.bind
  split
  · rename_i h
    cases h
  · rfl

theorem core_bind_nil (c : Core) : c.bind [] = (c, []) := by
  obtain ⟨distinct, cols, table, conds⟩ := c
  cases conds with
  | none => rfl
  | some cs => simp [Core.bind, Items.bind, cond_bind_nil, bindAll_nil cond_bind_nil]

theorem bound_nil : bound [] = [] := rfl

/-- Nothing is bound. -/
theorem bindArgs_nil (s : Stmt) : bindArgs s [] = s := by
  cases s with
  | select q =>
    have hrest := bindAll_nil (f := fun (r : Compound × Core) args =>
      ((r.1, (r.2.bind args).1), (r.2.bind args).2)) (fun r => by rw [core_bind_nil]) q.rest
    simp [bindArgs, Select.bind, core_bind_nil, hrest]
  | _ => rfl

end Binding

section Deletes

theorem objects_delete_delete (T : ObjectTable) (p q : ObjectValue → Prop) [DecidablePred p]
    [DecidablePred q] : (T.delete p).delete q = T.delete (fun r => p r ∨ q r) := by
  refine ObjectTable.ext ?_
  rw [ObjectTable.delete_rows, ObjectTable.delete_rows, ObjectTable.delete_rows,
    List.filter_filter]
  refine List.filter_congr (fun r _ => ?_)
  rw [← Bool.decide_and, decide_eq_decide, not_or, and_comm]

theorem changed_delete_delete (T : ChangedTable) (p q : ChangedValue → Prop) [DecidablePred p]
    [DecidablePred q] : (T.delete p).delete q = T.delete (fun r => p r ∨ q r) := by
  refine ChangedTable.ext ?_ rfl
  rw [ChangedTable.delete_rows, ChangedTable.delete_rows, ChangedTable.delete_rows,
    List.filter_filter]
  refine List.filter_congr (fun r _ => ?_)
  rw [← Bool.decide_and, decide_eq_decide, not_or, and_comm]

end Deletes

section Effects

def objectValuesId : Ident := ⟨"object_values", by decide⟩

def changedValuesId : Ident := ⟨"changed_values", by decide⟩

def idId : Ident := ⟨"id", by decide⟩

def objectId : Ident := ⟨"object", by decide⟩

def attribTypeId : Ident := ⟨"attrib_type", by decide⟩

def updateTypeId : Ident := ⟨"update_type", by decide⟩

def sentId : Ident := ⟨"sent", by decide⟩

def mainIdId : Ident := ⟨"main_id", by decide⟩

variable {E : Engine} (hE : Lawful E) {f : Ident × Option String}
  {fs : List (Ident × Option String)} (hread : ReadableFields (f :: fs)) (db : Tables)

include hE hread

theorem execute_delete_objects (hknown : Known .objects (f :: fs)) (p : ObjectValue → Prop)
    [DecidablePred p] (hp : ∀ r, Matches (f :: fs) (objectCells r) ↔ p r) :
    E (deleteFromTable "object_values" (texts (f :: fs))) [] db =
      some ([], { db with objects := db.objects.delete p }) := by
  have hspells := (deleteFromTable_spells objectValuesId (readWhereReads f fs)).mpr
    (readWherePieces_plain hread)
  have hrun : run (bindArgs (.delete objectValuesId (some ⟨readCond f, fs.map readCond⟩))
      (bound [])) db =
      some (.wrote (some { db with objects := db.objects.delete p })) := by
    show (runDelete db objectValuesId _).map _ = _
    have htable : tableOf objectValuesId = some .objects := rfl
    simp only [runDelete, htable, if_pos (condsKnown_read hknown), selects_read, hp]
    rfl
  exact hE.write _ _ _ _ _ hspells hrun

theorem execute_delete_changed (hknown : Known .changed (f :: fs)) (p : ChangedValue → Prop)
    [DecidablePred p] (hp : ∀ r, Matches (f :: fs) (changedCells r) ↔ p r) :
    E (deleteFromTable "changed_values" (texts (f :: fs))) [] db =
      some ([], { db with changed := db.changed.delete p }) := by
  have hspells := (deleteFromTable_spells changedValuesId (readWhereReads f fs)).mpr
    (readWherePieces_plain hread)
  have hrun : run (bindArgs (.delete changedValuesId (some ⟨readCond f, fs.map readCond⟩))
      (bound [])) db =
      some (.wrote (some { db with changed := db.changed.delete p })) := by
    show (runDelete db changedValuesId _).map _ = _
    have htable : tableOf changedValuesId = some .changed := rfl
    simp only [runDelete, htable, if_pos (condsKnown_read hknown), selects_read, hp]
    rfl
  exact hE.write _ _ _ _ _ hspells hrun

/-- An INSERT gives a column what is read. -/
def readFields (fs : List (Ident × Option String)) : List (Ident × Option String) :=
  fs.map (fun f => (f.1, readValue f.2))

omit hE hread in
theorem insertIntoTable_read (table : String) (fs : List (Ident × Option String)) :
    insertIntoTable table (texts fs) = insertIntoTable table (texts (readFields fs)) := by
  have hvalue : ∀ v, getValueForSqlStmt (readValue v) = getValueForSqlStmt v := by
    intro v
    unfold readValue
    split
    · rename_i hv
      rw [hv]
      rfl
    · rfl
  simp only [insertIntoTable, texts, readFields, List.map_map, List.foldl_map, Function.comp_def,
    hvalue]

omit hE in
theorem plainFields_read : PlainFields (readFields (f :: fs)) := by
  intro g hg
  obtain ⟨f', hf', rfl⟩ := List.mem_map.mp hg
  exact (plainValue_readValue f'.2).mpr (hread f' hf')

theorem execute_insert {t : Ident} {r : Option Tables}
    (hrow : runInsert db t (readFields (f :: fs)) = some r) :
    E (insertIntoTable t.name (texts (f :: fs))) [] db = r.map (fun db' => ([], db')) := by
  have hspells := (insertIntoTable_iff t (f.1, readValue f.2) (readFields fs)).mpr
    (plainFields_read hread)
  rw [insertIntoTable_read]
  refine hE.write _ _ _ _ _ hspells ?_
  rw [bound_nil, bindArgs_nil]
  show (runInsert db t (readFields (f :: fs))).map _ = _
  rw [hrow]
  rfl

omit hE hread in
theorem runInsert_changed {fields : List (Ident × Option String)}
    (hkeys : (fields.map (fun g => g.1.name)).Nodup)
    (hcols : ∀ c ∈ fields.map (fun g => g.1.name), c ∈ changedFields) {row : ChangedValue}
    (hrow : changedOf (insertedRow fields) = some row) :
    runInsert db changedValuesId fields =
      some (some { db with changed := db.changed.insert row }) := by
  have htable : tableOf changedValuesId = some .changed := rfl
  have hcols' : ∀ g ∈ fields, g.1.name ∈ changedFields :=
    fun g hg => hcols _ (List.mem_map_of_mem hg)
  simp only [runInsert, hkeys, not_true_eq_false, if_false, htable, if_pos hcols', hrow]
  rfl

omit hE hread in
theorem changedOf_eq {r : Cells} {src : Int} {t : UpdateType} {mainId : Int64}
    (hsrc : r "source_id" = some (toString src)) (htype : r "update_type" = some t.text)
    (hmain : intOr 0 (r "main_id") = some mainId) : changedOf r =
      some ⟨0, src, r "attrib", r "object", r "value", r "attrib_type", t, 0, mainId, 0⟩ := by
  have hupdate : updateTypeOf t.text = some t := by
    cases t <;> decide
  unfold changedOf
  rw [hsrc, htype, Option.bind_some, Option.bind_some, asInt_toString, hupdate, hmain]
  rfl

/-- The values of these columns in the rows that match. -/
def valuesOf (distinct : Bool) (cols : Items Ident) (fs : List (Ident × Option String))
    (rows : List Cells) : List (List (Option String)) :=
  let vs := (rows.filter (Matches fs)).map (fun r => cols.toList.map (fun c => r c.name))
  if distinct then vs.dedup else vs

theorem execute_select {t : Ident} {T : Table} (htable : tableOf t = some T) (distinct : Bool)
    {cols : Items Ident} (hcols : ∀ c ∈ cols.toList, c.name ∈ T.columns)
    (hknown : Known T (f :: fs)) :
    ∃ found : List (List (Option String)),
      found.Perm (valuesOf distinct cols (f :: fs) (rowsOf db t)) ∧
      E (selectFromTable t.name (colsText cols) (some (texts (f :: fs)))
        (some ⟨distinct, none⟩) []) [] db =
        some (rowsWith (cols.toList.map Ident.name) found, db) := by
  obtain ⟨q, hq⟩ : ∃ q : Select, q =
      ⟨⟨distinct, cols, t, some ⟨readCond f, fs.map readCond⟩⟩, [], none⟩ := ⟨_, rfl⟩
  have hspells : Spells _ (.select q) := hq ▸
    (selectFromTable_spells t distinct cols (readWhereReads f fs)).mpr
      (readWherePieces_plain hread)
  have hparams : coreParams q.core = 0 := by
    have hzero : ∀ f', condParams (readCond f') = 0 := by
      rintro ⟨i, v⟩
      cases v <;> rfl
    have hlist : ∀ fs : List (Ident × Option String),
        ((fs.map readCond).map condParams).sum = 0 := by
      intro fs
      simp [hzero, Function.comp_def]
    rw [hq]
    exact hlist (f :: fs)
  have hfits : Fits (.select q) := by
    refine ⟨?_, ?_, ?_⟩
    · rw [hq]
      exact (by decide : 0 + 1 ≤ 500)
    · rw [hparams, hq]
      exact (by decide : 0 + 0 ≤ 999)
    · rw [hq]
      exact fun l hl => by cases hl
  have hknown' : SelectKnown q := by
    rw [hq]
    refine ⟨?_, fun r hr => by cases hr⟩
    unfold CoreKnown
    simp only [htable]
    exact ⟨hcols, condsKnown_read hknown⟩
  have hvalues : q.values (fun r => r) (rowsOf db) =
      valuesOf distinct cols (f :: fs) (rowsOf db t) := by
    rw [hq]
    show Core.values (fun r => r) _ _ = _
    simp only [Core.values, selects_read]
    rfl
  have hrun : run (bindArgs (.select q) (bound [])) db = some (.rows (cols.toList.map Ident.name)
      (valuesOf distinct cols (f :: fs) (rowsOf db t))) := by
    rw [bound_nil, bindArgs_nil]
    show (if SelectKnown q then some (Outcome.rows q.names _) else none) = _
    rw [if_pos hknown', hvalues, hq]
    rfl
  exact hE.rows _ _ _ _ _ _ hspells hfits (by rw [hq]; rfl) hrun

end Effects

end Rhodes.RhomStatements
