import Mathlib
import Rhodes.FailedCalls
import Rhodes.FindRows

/-!
What the statements of save and update_attributes do to the row of one attribute, for texts that
are written as they are. The statements on changed_values leave object_values alone.
-/
namespace Rhodes.RhomWrites

open Database SqlPieces SqlGrammar SqlTables RhomSql RhomStatements RhomDeletes FindRows

section Texts

/-- A text that is written and read as it is. -/
def PlainText (s : String) : Prop := s ≠ "NULL" ∧ Piece.PlainIn '\'' s

instance : DecidablePred PlainText := fun _ => inferInstanceAs (Decidable (_ ∧ _))

theorem PlainText.value {s : String} (h : PlainText s) : Piece.PlainValue (some s) :=
  fun _ hs => Option.some.inj hs ▸ h

theorem PlainText.readable {s : String} (h : PlainText s) : Readable (some s) :=
  readable_of_plain h.value

theorem PlainText.read {s : String} (h : PlainText s) : readValue (some s) = some s :=
  if_neg (fun heq => h.1 (Option.some.inj heq))

theorem plainText_int (i : Int) : PlainText (toString i) := plainValue_int i _ rfl

theorem plainText_updateType (t : UpdateType) : PlainText t.text := by
  cases t <;> decide

/-- The columns of the row of an attribute. -/
def attribFields (src : Int) (obj key : String) : List (Ident × Option String) :=
  [(objectId, some obj), (attribId, some key), (sourceId, some (toString src))]

variable {src : Int} {obj key : String} (hobj : PlainText obj) (hkey : PlainText key)

include hobj hkey

theorem attribFields_plain : PlainFields (attribFields src obj key) := by
  intro f hf
  rcases List.mem_cons.mp hf with rfl | hf
  · exact hobj.value
  rcases List.mem_cons.mp hf with rfl | hf
  · exact hkey.value
  rcases List.mem_singleton.mp hf with rfl
  exact plainValue_int src

omit hobj hkey in
theorem condOf_plain {f : Ident × Option String} (h : Piece.PlainValue f.2) :
    condOf f = readCond f := by
  obtain ⟨i, v⟩ := f
  cases v with
  | none => rfl
  | some s =>
    have hs : PlainText s := h s rfl
    show condOf (i, some s) = ⟨⟨i, true⟩, .eq (.lit (readValue (some s)))⟩
    rw [hs.read]
    rfl

theorem attribFields_readable : ReadableFields (attribFields src obj key) :=
  fun f hf => readable_of_plain (attribFields_plain hobj hkey f hf)

omit hobj hkey in
theorem attribFields_known (T : Table) (hcols : ["object", "attrib", "source_id"] ⊆ T.columns) :
    Known T (attribFields src obj key) :=
  List.forall_mem_cons.mpr ⟨knownText (hcols (by decide)) (by decide) _,
    List.forall_mem_cons.mpr ⟨knownText (hcols (by decide)) (by decide) _,
      List.forall_mem_singleton.mpr (knownInt (hcols (by decide)) src)⟩⟩

theorem matches_attribFields (r : ObjectValue) :
    Matches (attribFields src obj key) (objectCells r) ↔
      IsAttrib src (some obj) (some key) r := by
  have hcell : ∀ {s : String}, PlainText s → ∀ v, CellIs (some s) v ↔ SqlEq v (some s) := by
    intro s hs v
    rw [cellIs_iff hs.value]
    exact ⟨fun h => ⟨by rw [h]; rfl, h⟩, fun h => h.2⟩
  rw [attribFields, matches_cons, matches_cons, matches_singleton]
  exact and_congr (hcell hobj _) (and_congr (hcell hkey _) (intCell _ _))

/-- The condition that a row is not sent. -/
def unsent : Ident × Option String := (sentId, some (toString (0 : Int)))

omit hobj hkey in
theorem unsent_plain {fs : List (Ident × Option String)} (h : PlainFields fs) :
    PlainFields (fs ++ [unsent]) :=
  List.forall_mem_append.mpr ⟨h, List.forall_mem_singleton.mpr (plainValue_int 0)⟩

omit hobj hkey in
theorem unsent_known {fs : List (Ident × Option String)} (h : Known .changed fs) :
    Known .changed (fs ++ [unsent]) :=
  List.forall_mem_append.mpr ⟨h, List.forall_mem_singleton.mpr (knownInt (by decide) 0)⟩

end Texts

section Rows

variable {E : Engine} (hE : Lawful E) {src : Int} {obj key : String} (hobj : PlainText obj)
  (hkey : PlainText key) (db : Tables)

include hE hobj hkey

/-- The row of the attribute, if there is one. -/
theorem execute_select_row {cols : Items Ident}
    (hcols : ∀ c ∈ cols.toList, c.name ∈ Table.objects.columns) :
    E (selectFromTable "object_values" (colsText cols) (some (texts (attribFields src obj key)))
        none []) [] db =
      some (rowsWith (cols.toList.map Ident.name)
        ((attribRow db src (some obj) (some key)).toList.map
          (fun r => cols.toList.map (fun c => objectCells r c.name))), db) := by
  have hreads := @attribFields_readable src obj key hobj hkey
  have hknown := @attribFields_known src obj key .objects (by decide)
  obtain ⟨found, hperm, hrun⟩ := execute_select hE hreads db (t := objectValuesId) rfl false
    hcols hknown
  have hvalues : valuesOf false cols (attribFields src obj key) (rowsOf db objectValuesId) =
      (attribRow db src (some obj) (some key)).toList.map
        (fun r => cols.toList.map (fun c => objectCells r c.name)) := by
    have hrows : rowsOf db objectValuesId = db.objects.rows.map objectCells := rfl
    have hfilter : (db.objects.rows.map objectCells).filter
        (Matches (attribFields src obj key)) =
        (attribRow db src (some obj) (some key)).toList.map objectCells := by
      rw [List.filter_map, ← filter_isAttrib]
      refine congrArg _ (List.filter_congr (fun r _ => ?_))
      rw [Function.comp_apply, decide_eq_decide, matches_attribFields hobj hkey]
    show ((rowsOf db objectValuesId).filter _).map _ = _
    rw [hrows, hfilter, List.map_map]
    rfl
  have hfound : found = (attribRow db src (some obj) (some key)).toList.map
      (fun r => cols.toList.map (fun c => objectCells r c.name)) := by
    replace hperm := hvalues ▸ hperm
    cases hrow : attribRow db src (some obj) (some key) with
    | none =>
      rw [hrow] at hperm
      exact List.perm_nil.mp hperm
    | some r =>
      rw [hrow] at hperm
      exact List.perm_singleton.mp hperm
  rw [hfound] at hrun
  exact hrun

/-- The id of the row. -/
theorem execute_select_id : E (selectFromTable "object_values" "id"
      (some (texts (attribFields src obj key))) none []) [] db =
    some ((attribRow db src (some obj) (some key)).toList.map
      (fun r => [("id", some (toString r.id.toInt))]), db) := by
  have hrun := @execute_select_row E hE src obj key hobj hkey db ⟨idId, []⟩ (by decide)
  have hid : ∀ r : ObjectValue, (some (toString r.id.toInt)).map cText =
      some (toString r.id.toInt) := fun r => congrArg some (cText_eq (plainText_int _).2.2)
  refine hrun.trans (congrArg (fun rows => some (rows, db)) ?_)
  rw [rowsWith, List.map_map]
  refine List.map_congr_left (fun r _ => ?_)
  show [("id", (some (toString r.id.toInt)).map cText)] = _
  rw [hid]

theorem execute_update_value {val : String} (hval : PlainText val) :
    E (updateIntoTable "object_values" [("value", some val)]
        (some (texts (attribFields src obj key)))) [] db =
      (db.objects.update (fun r => IsAttrib src (some obj) (some key) r)
        (fun r => { r with value := some val })).map
          (fun objects => ([], { db with objects })) := by
  have hplain : PlainFields [(valueId, some val)] := by
    intro f hf
    rcases List.mem_singleton.mp hf with rfl
    exact hval.value
  obtain ⟨g, gs, hfields⟩ : ∃ g gs, attribFields src obj key = g :: gs := ⟨_, _, rfl⟩
  have hfieldsPlain := @attribFields_plain src obj key hobj hkey
  have hknown := @attribFields_known src obj key .objects (by decide)
  have hselects := @matches_attribFields src obj key hobj hkey
  rw [hfields] at hfieldsPlain hknown hselects ⊢
  have hconds : (⟨condOf g, gs.map condOf⟩ : Items Cond) = ⟨readCond g, gs.map readCond⟩ := by
    obtain ⟨hg, hgs⟩ := List.forall_mem_cons.mp hfieldsPlain
    rw [condOf_plain hg, List.map_congr_left (fun f hf => condOf_plain (hgs f hf))]
  have hspells := (updateIntoTable_iff objectValuesId (valueId, some val) [] g gs).mpr
    ⟨hplain, hfieldsPlain⟩
  rw [hconds] at hspells
  have hrun : run (bindArgs (.update objectValuesId ⟨(valueId, some val), []⟩
      (some ⟨readCond g, gs.map readCond⟩)) (bound [])) db = some (.wrote
        ((db.objects.update (fun r => IsAttrib src (some obj) (some key) r)
          (fun r => { r with value := some val })).map (fun objects => { db with objects }))) := by
    rw [bound_nil, bindArgs_nil]
    show (runUpdate db objectValuesId _ _).map _ = _
    rw [runUpdate, if_pos ⟨rfl, rfl, rfl, condsKnown_read hknown⟩]
    simp only [selects_read, hselects]
    rfl
  have hwrite := hE.write _ _ _ _ _ hspells hrun
  rw [Option.map_map] at hwrite
  exact hwrite

end Rows

section Inserts

/-- An integer of 64 bits that a column is given. -/
theorem intOr_toString (default : Int64) {i : Int} (hmin : -2 ^ 63 ≤ i) (hmax : i < 2 ^ 63) :
    intOr default (some (toString i)) = some (Int64.ofInt i) := by
  show asInt64 (toString i) = _
  rw [asInt64, asInt_toString, Option.bind_some, if_pos (Int64.toInt_ofInt_of_le hmin hmax)]

theorem readFields_plain {fs : List (Ident × Option String)} (h : PlainFields fs) :
    readFields fs = fs := by
  conv_rhs => rw [← List.map_id fs]
  refine List.map_congr_left (fun f hf => ?_)
  obtain ⟨i, v⟩ := f
  cases v with
  | none => rfl
  | some s =>
    have hs : PlainText s := h _ hf s rfl
    show (i, readValue (some s)) = (i, some s)
    rw [hs.read]

theorem objectOf_eq {r : Cells} {newId id : Int64} {src : Int}
    (hsrc : r "source_id" = some (toString src)) (hid : intOr newId (r "id") = some id) :
    objectOf newId r =
      some ⟨id, src, r "attrib", r "object", r "value", r "attrib_type"⟩ := by
  unfold objectOf
  rw [hsrc, Option.bind_some, asInt_toString, hid]
  rfl

/-- The columns of an INSERT of a value of an attribute, with others. -/
structure ValueFields (src : Int) (obj key val : String) (fs : List (Ident × Option String)) :
    Prop where
  plain : PlainFields fs
  keys : (fs.map (fun f => f.1.name)).Nodup
  source : insertedRow fs "source_id" = some (toString src)
  object : insertedRow fs "object" = some obj
  attrib : insertedRow fs "attrib" = some key
  value : insertedRow fs "value" = some val

variable {E : Engine} (hE : Lawful E) (db : Tables) {src : Int} {obj key val : String}
  {fs : List (Ident × Option String)} (hfields : ValueFields src obj key val fs) {i : Int}
  (hmin : -2 ^ 63 ≤ i) (hmax : i < 2 ^ 63)

include hE hfields hmin hmax

/-- The value is queued with the id of its row in object_values. -/
theorem execute_insert_changed (hcols : ∀ c ∈ fs.map (fun g => g.1.name), c ∈ changedFields)
    {t : UpdateType} (htype : insertedRow fs "update_type" = some t.text)
    (hmain : insertedRow fs "main_id" = some (toString i)) :
    ∃ changed, E (insertIntoTable "changed_values" (texts fs)) [] db =
      some ([], { db with changed }) := by
  have hint : intOr 0 (insertedRow fs "main_id") = some (Int64.ofInt i) := by
    rw [hmain]
    exact intOr_toString 0 hmin hmax
  have hrow := runInsert_changed db hfields.keys hcols (changedOf_eq hfields.source htype hint)
  have hrow' : runInsert db changedValuesId (readFields fs) = _ :=
    (congrArg _ (readFields_plain hfields.plain)).trans hrow
  have hreads : ReadableFields fs := fun g hg => readable_of_plain (hfields.plain g hg)
  cases fs with
  | nil => exact absurd hmain (Option.some_ne_none _).symm
  | cons f rest =>
    have hwrite := execute_insert hE hreads db hrow'
    exact ⟨_, hwrite⟩

/-- The row of the value gets the id, unless a constraint fails. -/
theorem execute_insert_object (hcols : ∀ c ∈ fs.map (fun g => g.1.name), c ∈ Table.objects.columns)
    (hid : insertedRow fs "id" = some (toString i)) :
    ∃ row, IsAttrib src (some obj) (some key) row ∧ row.value = some val ∧
      E (insertIntoTable "object_values" (texts fs)) [] db =
        (db.objects.insert row).map (fun objects => ([], { db with objects })) := by
  have hint : intOr db.objects.newId (insertedRow fs "id") = some (Int64.ofInt i) := by
    rw [hid]
    exact intOr_toString _ hmin hmax
  have hrow := objectOf_eq hfields.source hint
  rw [hfields.object, hfields.attrib, hfields.value] at hrow
  refine ⟨⟨Int64.ofInt i, src, some key, some obj, some val, insertedRow fs "attrib_type"⟩,
    ⟨⟨rfl, rfl⟩, ⟨rfl, rfl⟩, rfl⟩, rfl, ?_⟩
  have hrun : runInsert db objectValuesId fs = some ((db.objects.insert
      ⟨Int64.ofInt i, src, some key, some obj, some val, insertedRow fs "attrib_type"⟩).map
        (fun objects => { db with objects })) := by
    have htable : tableOf objectValuesId = some .objects := rfl
    have hcols' : ∀ g ∈ fs, g.1.name ∈ Table.objects.columns :=
      fun g hg => hcols _ (List.mem_map_of_mem hg)
    simp only [runInsert, hfields.keys, not_true_eq_false, if_false, htable, if_pos hcols', hrow]
    rfl
  have hrun' : runInsert db objectValuesId (readFields fs) = _ :=
    (congrArg _ (readFields_plain hfields.plain)).trans hrun
  have hreads : ReadableFields fs := fun g hg => readable_of_plain (hfields.plain g hg)
  cases fs with
  | nil => exact absurd hid (Option.some_ne_none _).symm
  | cons f rest =>
    have hwrite := execute_insert hE hreads db hrun'
    rw [Option.map_map] at hwrite
    exact hwrite

end Inserts

section Orders

variable {src : Int} {obj key val : String} (hobj : PlainText obj) (hkey : PlainText key)
  (hval : PlainText val)

/-- The columns of a value. -/
def valueFields (src : Int) (obj key val : String) : List (Ident × Option String) :=
  [(sourceId, some (toString src)), (objectId, some obj), (attribId, some key),
    (valueId, some val)]

/-- The type of an attribute, where save gives it one. -/
def typeFields (key : String) : List (Ident × Option String) :=
  if key = "image_uri" then [(attribTypeId, some "blob.file")] else []

theorem typeFields_cases (key : String) :
    typeFields key = [] ∨ typeFields key = [(attribTypeId, some "blob.file")] := by
  unfold typeFields
  split
  · exact Or.inr rfl
  · exact Or.inl rfl

include hobj hkey hval

theorem valueFields_plain : PlainFields (valueFields src obj key val) :=
  List.forall_mem_cons.mpr ⟨plainValue_int src, List.forall_mem_cons.mpr ⟨hobj.value,
    List.forall_mem_cons.mpr ⟨hkey.value, List.forall_mem_singleton.mpr hval.value⟩⟩⟩

omit hobj hkey hval in
theorem typeFields_plain (key : String) : PlainFields (typeFields key) := by
  rcases typeFields_cases key with h | h
  · rw [h]
    exact List.forall_mem_nil _
  · rw [h]
    exact List.forall_mem_singleton.mpr (PlainText.value (by decide))

omit hobj hkey hval in
theorem texts_typeFields (key : String) : texts (typeFields key) =
    if key = "image_uri" then [("attrib_type", some "blob.file")] else [] := by
  unfold typeFields
  split <;> rfl

omit hobj hkey hval in
theorem texts_savedChanged (updateType mainId : Option String) :
    texts (valueFields src obj key val ++ [(updateTypeId, updateType)] ++ typeFields key ++
      [(mainIdId, mainId)]) =
    [("source_id", some (toString src)), ("object", some obj), ("attrib", some key),
      ("value", some val)] ++ [("update_type", updateType)] ++
      (if key = "image_uri" then [("attrib_type", some "blob.file")] else []) ++
      [("main_id", mainId)] := by
  rw [← texts_typeFields key, texts, List.map_append, List.map_append, List.map_append]
  rfl

omit hobj hkey hval in
theorem texts_savedObject (id : Option String) :
    texts (valueFields src obj key val ++ typeFields key ++ [(idId, id)]) =
    [("source_id", some (toString src)), ("object", some obj), ("attrib", some key),
      ("value", some val)] ++
      (if key = "image_uri" then [("attrib_type", some "blob.file")] else []) ++
      [("id", id)] := by
  rw [← texts_typeFields key, texts, List.map_append, List.map_append]
  rfl

/-- The columns that save queues. -/
theorem savedChanged_fields (t : UpdateType) (i : Int) :
    ValueFields src obj key val (valueFields src obj key val ++ [(updateTypeId, some t.text)] ++
      typeFields key ++ [(mainIdId, some (toString i))]) := by
  have hplain : PlainFields (valueFields src obj key val ++ [(updateTypeId, some t.text)] ++
      typeFields key ++ [(mainIdId, some (toString i))]) := by
    refine List.forall_mem_append.mpr ⟨List.forall_mem_append.mpr ⟨List.forall_mem_append.mpr
      ⟨valueFields_plain hobj hkey hval, ?_⟩, typeFields_plain key⟩, ?_⟩
    · exact List.forall_mem_singleton.mpr (plainText_updateType t).value
    · exact List.forall_mem_singleton.mpr (plainValue_int i)
  rcases typeFields_cases key with h | h
  · rw [h] at hplain ⊢
    refine ⟨hplain, ?_, rfl, rfl, rfl, rfl⟩
    show ["source_id", "object", "attrib", "value", "update_type", "main_id"].Nodup
    decide
  · rw [h] at hplain ⊢
    refine ⟨hplain, ?_, rfl, rfl, rfl, rfl⟩
    show ["source_id", "object", "attrib", "value", "update_type", "attrib_type", "main_id"].Nodup
    decide

/-- The columns that save inserts. -/
theorem savedObject_fields (i : Int) : ValueFields src obj key val
    (valueFields src obj key val ++ typeFields key ++ [(idId, some (toString i))]) := by
  have hplain : PlainFields (valueFields src obj key val ++ typeFields key ++
      [(idId, some (toString i))]) :=
    List.forall_mem_append.mpr ⟨List.forall_mem_append.mpr
      ⟨valueFields_plain hobj hkey hval, typeFields_plain key⟩,
      List.forall_mem_singleton.mpr (plainValue_int i)⟩
  rcases typeFields_cases key with h | h
  · rw [h] at hplain ⊢
    refine ⟨hplain, ?_, rfl, rfl, rfl, rfl⟩
    show ["source_id", "object", "attrib", "value", "id"].Nodup
    decide
  · rw [h] at hplain ⊢
    refine ⟨hplain, ?_, rfl, rfl, rfl, rfl⟩
    show ["source_id", "object", "attrib", "value", "attrib_type", "id"].Nodup
    decide

omit hobj hkey hval in
theorem savedChanged_cols (t : UpdateType) (i : Int) : ∀ c ∈ (valueFields src obj key val ++
    [(updateTypeId, some t.text)] ++ typeFields key ++ [(mainIdId, some (toString i))]).map
      (fun f => f.1.name), c ∈ changedFields := by
  rcases typeFields_cases key with h | h
  · rw [h]
    show ∀ c ∈ ["source_id", "object", "attrib", "value", "update_type", "main_id"],
      c ∈ changedFields
    decide
  · rw [h]
    show ∀ c ∈ ["source_id", "object", "attrib", "value", "update_type", "attrib_type",
      "main_id"], c ∈ changedFields
    decide

omit hobj hkey hval in
theorem savedChanged_row (t : UpdateType) (i : Int) :
    insertedRow (valueFields src obj key val ++ [(updateTypeId, some t.text)] ++ typeFields key ++
      [(mainIdId, some (toString i))]) "update_type" = some t.text ∧
    insertedRow (valueFields src obj key val ++ [(updateTypeId, some t.text)] ++ typeFields key ++
      [(mainIdId, some (toString i))]) "main_id" = some (toString i) := by
  rcases typeFields_cases key with h | h
  · rw [h]
    exact ⟨rfl, rfl⟩
  · rw [h]
    exact ⟨rfl, rfl⟩

omit hobj hkey hval in
theorem savedObject_row (i : Int) : insertedRow (valueFields src obj key val ++ typeFields key ++
    [(idId, some (toString i))]) "id" = some (toString i) := by
  rcases typeFields_cases key with h | h
  · rw [h]
    rfl
  · rw [h]
    rfl

omit hobj hkey hval in
theorem savedObject_cols (i : Int) : ∀ c ∈ (valueFields src obj key val ++ typeFields key ++
    [(idId, some (toString i))]).map (fun f => f.1.name), c ∈ Table.objects.columns := by
  rcases typeFields_cases key with h | h
  · rw [h]
    show ∀ c ∈ ["source_id", "object", "attrib", "value", "id"], c ∈ Table.objects.columns
    decide
  · rw [h]
    show ∀ c ∈ ["source_id", "object", "attrib", "value", "attrib_type", "id"],
      c ∈ Table.objects.columns
    decide

/-- The columns that update_attributes queues. -/
theorem updatedChanged_fields (t : UpdateType) (i : Int) :
    ValueFields src obj key val ([(mainIdId, some (toString i))] ++ valueFields src obj key val ++
      [(updateTypeId, some t.text)]) := by
  refine ⟨?_, ?_, rfl, rfl, rfl, rfl⟩
  · exact List.forall_mem_append.mpr ⟨List.forall_mem_append.mpr
      ⟨List.forall_mem_singleton.mpr (plainValue_int i), valueFields_plain hobj hkey hval⟩,
      List.forall_mem_singleton.mpr (plainText_updateType t).value⟩
  · show ["main_id", "source_id", "object", "attrib", "value", "update_type"].Nodup
    decide

/-- The columns that update_attributes inserts. -/
theorem updatedObject_fields (i : Int) : ValueFields src obj key val
    ([(idId, some (toString i))] ++ valueFields src obj key val) := by
  refine ⟨?_, ?_, rfl, rfl, rfl, rfl⟩
  · exact List.forall_mem_append.mpr
      ⟨List.forall_mem_singleton.mpr (plainValue_int i), valueFields_plain hobj hkey hval⟩
  · show ["id", "source_id", "object", "attrib", "value"].Nodup
    decide

omit hobj hkey hval in
theorem updated_cols (t : UpdateType) (i : Int) :
    (∀ c ∈ ([(mainIdId, some (toString i))] ++ valueFields src obj key val ++
      [(updateTypeId, some t.text)]).map (fun f => f.1.name), c ∈ changedFields) ∧
    ∀ c ∈ ([(idId, some (toString i))] ++ valueFields src obj key val).map (fun f => f.1.name),
      c ∈ Table.objects.columns := by
  refine ⟨?_, ?_⟩
  · show ∀ c ∈ ["main_id", "source_id", "object", "attrib", "value", "update_type"],
      c ∈ changedFields
    decide
  · show ∀ c ∈ ["id", "source_id", "object", "attrib", "value"], c ∈ Table.objects.columns
    decide

end Orders

section First

/-- The first statement of save, as it is written and with its values. -/
def objectSelect (object source : Operand) (limit : Option Limit) : Stmt :=
  .select ⟨⟨false, ⟨objectId, []⟩, objectValuesId, some ⟨⟨⟨objectId, false⟩, .eq object⟩,
    [⟨⟨sourceId, false⟩, .eq source⟩]⟩⟩, [], limit⟩

theorem objectSelect_spells : Spells
    "SELECT object FROM object_values WHERE object=? AND source_id=? LIMIT 1 OFFSET 0"
    (objectSelect .param .param (some ⟨1, 0⟩)) := by
  unfold Spells
  decide +kernel

theorem objectSelect_spells_all : Spells
    "SELECT object FROM object_values WHERE object=? AND source_id=?"
    (objectSelect .param .param none) := by
  unfold Spells
  decide +kernel

variable {E : Engine} (hE : Lawful E) (db : Tables)

include hE

theorem execute_select_object (object : Option String) (src : Int) : ∃ rows,
    E "SELECT object FROM object_values WHERE object=? AND source_id=? LIMIT 1 OFFSET 0"
      [object, some (toString src)] db = some (rows, db) := by
  have hbound : bound [object, some (toString src)] =
      [object.map cText, some (toString src)] := by
    show [object.map cText, some (cText (toString src))] = _
    rw [cText_eq (plainText_int src).2.2]
  have hrun : ∀ limit, ∃ names values, run (bindArgs (objectSelect .param .param limit)
      (bound [object, some (toString src)])) db = some (.rows names values) := by
    intro limit
    rw [hbound]
    have hobject : "object" ∈ Table.objects.columns ∧ "object" ∉ intColumns := by decide
    have hsource : "source_id" ∈ Table.objects.columns := by decide
    have hknown : CondsKnown .objects (some ⟨⟨⟨objectId, false⟩, .eq (.lit (object.map cText))⟩,
        [⟨⟨sourceId, false⟩, .eq (.lit (some (toString src)))⟩]⟩) := by
      rintro cs hcs c hc
      cases hcs
      rcases List.mem_cons.mp hc with rfl | hc
      · exact ⟨hobject.1, fun h => absurd h hobject.2⟩
      · rcases List.mem_singleton.mp hc with rfl
        refine ⟨hsource, ?_⟩
        rintro - s hs
        rw [← Option.some.inj hs, asInt_toString]
        rfl
    have hcols : ∀ c ∈ [objectId], c.name ∈ Table.objects.columns := by decide
    exact ⟨_, _, if_pos ⟨⟨hcols, hknown⟩, fun r hr => by cases hr⟩⟩
  have hfits : ∀ limit, LimitFits limit → Fits (objectSelect .param .param limit) :=
    fun _ hlimit => ⟨by show 0 + 1 ≤ 500; decide, by show 2 + 0 ≤ 999; decide, hlimit⟩
  obtain ⟨names, values, hall⟩ := hrun none
  obtain ⟨names', values', hone⟩ := hrun (some ⟨1, 0⟩)
  obtain ⟨found, -, hfound⟩ := hE.rows _ _ _ _ _ _ objectSelect_spells_all
    (hfits none (by decide)) rfl hall
  exact ⟨_, hE.page _ _ _ _ _ _ _ _ objectSelect_spells objectSelect_spells_all
    (hfits _ (by decide)) rfl hone _ hfound⟩

end First

section Pending

variable {E : Engine} (hE : Lawful E) (db : Tables) {f : Ident × Option String}
  {fs : List (Ident × Option String)} (hplain : PlainFields (f :: fs))
  (hknown : Known .changed (f :: fs))

include hE hplain hknown

theorem execute_select_pending : ∃ rows, E (selectFromTable "changed_values" "update_type"
      (some (texts (f :: fs))) none []) [] db = some (rows, db) ∧
    ∀ row ∈ rows, ∃ t : UpdateType, cell row "update_type" = some t.text := by
  obtain ⟨found, hperm, hrun⟩ := execute_select hE
    (fun g hg => readable_of_plain (hplain g hg)) db (t := changedValuesId) rfl false
    (by decide : ∀ c ∈ (Items.mk updateTypeId []).toList, c.name ∈ Table.changed.columns) hknown
  refine ⟨_, hrun, fun row hrow => ?_⟩
  obtain ⟨v, hv, rfl⟩ := List.mem_map.mp hrow
  obtain ⟨cells, hcells, rfl⟩ := List.mem_map.mp (hperm.mem_iff.mp hv)
  obtain ⟨r, -, rfl⟩ := List.mem_map.mp (List.mem_filter.mp hcells).1
  refine ⟨r.updateType, ?_⟩
  show some (cText r.updateType.text) = _
  rw [cText_eq (plainText_updateType r.updateType).2.2]

theorem execute_delete_pending : ∃ changed, E (deleteFromTable "changed_values"
    (texts (f :: fs))) [] db = some ([], { db with changed }) :=
  ⟨_, execute_delete_changed hE (fun g hg => readable_of_plain (hplain g hg)) db hknown
    (fun r => Matches (f :: fs) (changedCells r)) (fun _ => Iff.rfl)⟩

end Pending

end Rhodes.RhomWrites
