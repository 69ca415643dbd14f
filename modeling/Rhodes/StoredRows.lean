import Mathlib
import Rhodes.RhomWrites

/-!
What save and update_attributes leave in object_values. Each attribute of the call is written on
its own: it has the value that Ruby is to read, the other attributes of the object have their rows,
and so have the other objects.
-/
namespace Rhodes.StoredRows

open Database SqlPieces SqlGrammar SqlTables RhomSql RhomStatements FindRows RhomCalls StateMoves
  FailedCalls RhomWrites
open Rhom (attribName)

section Stored

variable (src : Int) (obj : String)

/-- What Ruby reads for an attribute of the object. -/
def told (t : Tables) (a : String) : Option String :=
  (attribValue t src (some obj) (some a)).map cText

def OfOther (r : ObjectValue) : Prop := ¬(r.object = some obj ∧ r.sourceId = src)

instance : DecidablePred (OfOther src obj) := fun _ => inferInstanceAs (Decidable (¬_))

/-- The attributes have these values, and nothing else is changed in object_values. -/
structure Stored (entries : List (String × Option String)) (t t' : Tables) : Prop where
  values : ∀ e ∈ entries, told src obj t' e.1 = e.2
  kept : ∀ a, a ∉ entries.map Prod.fst →
    attribRow t' src (some obj) (some a) = attribRow t src (some obj) (some a)
  others : t'.objects.rows.filter (OfOther src obj) = t.objects.rows.filter (OfOther src obj)

variable {src obj}

theorem told_congr {t t' : Tables} {a : String}
    (h : attribRow t' src (some obj) (some a) = attribRow t src (some obj) (some a)) :
    told src obj t' a = told src obj t a := by
  rw [told, told, attribValue, attribValue, h]

theorem attribRow_congr {t t' : Tables} (h : t'.objects = t.objects)
    (object attrib : Option String) :
    attribRow t' src object attrib = attribRow t src object attrib := by
  rw [attribRow, attribRow, h]

theorem stored_nil {t t' : Tables} (h : t'.objects = t.objects) : Stored src obj [] t t' :=
  ⟨List.forall_mem_nil _, fun a _ => attribRow_congr h _ _, by rw [h]⟩

theorem Stored.congr {es : List (String × Option String)} {t t' u u' : Tables}
    (h : Stored src obj es t t') (hfirst : u.objects = t.objects)
    (hlast : u'.objects = t'.objects) : Stored src obj es u u' := by
  refine ⟨fun e he => ?_, fun a ha => ?_, by rw [hfirst, hlast, h.others]⟩
  · rw [told_congr (attribRow_congr hlast _ _), h.values e he]
  · rw [attribRow_congr hlast, attribRow_congr hfirst, h.kept a ha]

/-- An attribute that is left as it is. -/
theorem stored_same {t t' : Tables} (h : t'.objects = t.objects) (a : String) :
    Stored src obj [(a, told src obj t a)] t t' := by
  refine ⟨List.forall_mem_singleton.mpr ?_, fun a _ => attribRow_congr h _ _, by rw [h]⟩
  exact told_congr (attribRow_congr h _ _)

theorem Stored.append {es fs : List (String × Option String)} {t t' t'' : Tables}
    (h : Stored src obj es t t') (h' : Stored src obj fs t' t'')
    (hdisjoint : ∀ e ∈ es, e.1 ∉ fs.map Prod.fst) : Stored src obj (es ++ fs) t t'' := by
  refine ⟨List.forall_mem_append.mpr ⟨fun e he => ?_, h'.values⟩, fun a ha => ?_,
    h'.others.trans h.others⟩
  · rw [told_congr (h'.kept e.1 (hdisjoint e he)), h.values e he]
  · rw [List.map_append, List.mem_append, not_or] at ha
    rw [h'.kept a ha.2, h.kept a ha.1]

/-- A condition that two rows meet alike. -/
theorem isAttrib_other {a a' : String} {r : ObjectValue} (h : IsAttrib src (some obj) (some a) r)
    (hne : a' ≠ a) : ¬IsAttrib src (some obj) (some a') r := by
  intro h'
  exact hne (Option.some.inj (h'.2.1.2.symm.trans h.2.1.2))

theorem not_ofOther {a : String} {r : ObjectValue} (h : IsAttrib src (some obj) (some a) r) :
    ¬OfOther src obj r := fun hother => hother ⟨h.1.2, h.2.2⟩

theorem stored_insert {t : Tables} {objects : ObjectTable} {row : ObjectValue} {a val : String}
    (hrow : IsAttrib src (some obj) (some a) row) (hvalue : row.value = some val)
    (hclean : '\x00' ∉ val.toList) (h : t.objects.insert row = some objects)
    (changed : ChangedTable) : Stored src obj [(a, some val)] t ⟨changed, objects⟩ := by
  have hrows : objects.rows = t.objects.rows ++ [row] ∧ ¬∃ s ∈ t.objects.rows, Conflict s row := by
    unfold ObjectTable.insert at h
    split at h
    · cases h
    · rename_i hfree
      cases h
      exact ⟨rfl, hfree⟩
  obtain ⟨hrows, hfree⟩ := hrows
  have hnone : attribRow t src (some obj) (some a) = none := by
    cases hfound : attribRow t src (some obj) (some a) with
    | none => rfl
    | some r =>
      have hr := attribRow_isAttrib t src hfound
      exact (hfree ⟨r, List.mem_of_find?_eq_some hfound,
        Or.inr ⟨⟨hr.1.1, hr.1.2.trans hrow.1.2.symm⟩, ⟨hr.2.1.1, hr.2.1.2.trans hrow.2.1.2.symm⟩,
          hr.2.2.trans hrow.2.2.symm⟩⟩).elim
  refine ⟨List.forall_mem_singleton.mpr ?_, fun a' ha' => ?_, ?_⟩
  · have hfound : attribRow ⟨changed, objects⟩ src (some obj) (some a) = some row := by
      rw [attribRow] at hnone ⊢
      simp only [hrows, List.find?_append, hnone, Option.none_or]
      simp [hrow]
    simp only [told, attribValue, hfound, Option.bind_some, hvalue, Option.map_some,
      cText_eq hclean]
  · have hne : a' ≠ a := fun heq => ha' (List.mem_singleton.mpr heq)
    have hnot := isAttrib_other hrow hne
    simp [attribRow, hrows, List.find?_append, hnot]
  · simp [hrows, not_ofOther hrow]

theorem stored_update {t : Tables} {objects : ObjectTable} {r : ObjectValue} {a val : String}
    (hfound : attribRow t src (some obj) (some a) = some r) (hclean : '\x00' ∉ val.toList)
    (h : t.objects.update (fun r => IsAttrib src (some obj) (some a) r)
      (fun r => { r with value := some val }) = some objects)
    (changed : ChangedTable) : Stored src obj [(a, some val)] t ⟨changed, objects⟩ := by
  obtain ⟨set, hset⟩ : ∃ set : ObjectValue → ObjectValue, set = fun r =>
      if IsAttrib src (some obj) (some a) r then { r with value := some val } else r := ⟨_, rfl⟩
  have hrows : objects.rows = t.objects.rows.map set := by
    unfold ObjectTable.update at h
    split at h
    · cases h
      rw [hset]
    · cases h
  have hkeys : ∀ r, (set r).object = r.object ∧ (set r).attrib = r.attrib ∧
      (set r).sourceId = r.sourceId := by
    intro r
    rw [hset]
    by_cases hr : IsAttrib src (some obj) (some a) r
    · simp [hr]
    · simp [hr]
  have hattrib : ∀ a' r, IsAttrib src (some obj) (some a') (set r) ↔
      IsAttrib src (some obj) (some a') r := by
    intro a' r
    obtain ⟨hobject, hattrib, hsource⟩ := hkeys r
    rw [IsAttrib, IsAttrib, hobject, hattrib, hsource]
  have hnew : ∀ a', attribRow ⟨changed, objects⟩ src (some obj) (some a') =
      (attribRow t src (some obj) (some a')).map set := by
    intro a'
    rw [attribRow, attribRow]
    simp only [hrows, List.find?_map, Function.comp_def, hattrib]
  refine ⟨List.forall_mem_singleton.mpr ?_, fun a' ha' => ?_, ?_⟩
  · have hr := attribRow_isAttrib t src hfound
    have hvalue : (set r).value = some val := by
      rw [hset]
      simp [hr]
    simp only [told, attribValue, hnew, hfound, Option.map_some, Option.bind_some, hvalue,
      cText_eq hclean]
  · have hne : a' ≠ a := fun heq => ha' (List.mem_singleton.mpr heq)
    rw [hnew]
    cases hrow : attribRow t src (some obj) (some a') with
    | none => rfl
    | some s =>
      have hs : ¬IsAttrib src (some obj) (some a) s :=
        isAttrib_other (attribRow_isAttrib t src hrow) (Ne.symm hne)
      rw [Option.map_some, hset]
      simp [hs]
  · have hother : ∀ r, OfOther src obj (set r) ↔ OfOther src obj r := by
      intro r
      obtain ⟨hobject, -, hsource⟩ := hkeys r
      rw [OfOther, OfOther, hobject, hsource]
    have hsame : ∀ r, OfOther src obj r → set r = r := by
      intro r hr
      have hnot : ¬IsAttrib src (some obj) (some a) r := fun hattrib => not_ofOther hattrib hr
      rw [hset]
      simp [hnot]
    simp only [hrows, List.filter_map, Function.comp_def, hother]
    conv_rhs => rw [← List.map_id (t.objects.rows.filter (OfOther src obj))]
    refine List.map_congr_left (fun r hr => ?_)
    exact hsame r (of_decide_eq_true (List.mem_filter.mp hr).2)

end Stored

section Statements

/-- The connection after statements that leave object_values and the object alone. -/
def Beside (c c' : Conn) : Prop := ∃ changed executed,
  c' = { c with tables := ⟨changed, c.tables.objects⟩, executed }

theorem Beside.refl (c : Conn) : Beside c c := ⟨c.tables.changed, c.executed, rfl⟩

theorem Beside.trans {c c' c'' : Conn} (h : Beside c c') (h' : Beside c' c'') : Beside c c'' := by
  obtain ⟨_, _, rfl⟩ := h
  obtain ⟨changed, executed, rfl⟩ := h'
  exact ⟨changed, executed, rfl⟩

theorem Beside.inside {c c' : Conn} (h : Beside c c') :
    c'.insideTransaction = c.insideTransaction := by
  obtain ⟨_, _, rfl⟩ := h
  rfl

theorem Beside.objects {c c' : Conn} (h : Beside c c') : c'.tables.objects = c.tables.objects := by
  obtain ⟨_, _, rfl⟩ := h
  rfl

theorem Beside.vars {c c' : Conn} (h : Beside c c') : c'.vars = c.vars := by
  obtain ⟨_, _, rfl⟩ := h
  rfl

variable (db : Sqlite) {c : Conn} (hinside : c.insideTransaction = true)

include hinside

theorem returns_executeSql (sql : String) (args : List (Option String)) :
    Returns (executeSql db sql args) c (fun rows c' =>
      db.engine sql args c.tables = some (rows, c'.tables) ∧
        c' = { c with tables := c'.tables, executed := c.executed + 1 }) := by
  intro rows c' hrun
  rw [executeSql_inside db hinside, execute] at hrun
  split at hrun
  · cases hrun
  · rename_i found tables hfound
    cases hrun
    split at hfound
    · cases hfound
    · exact ⟨hfound, rfl⟩

theorem returns_beside {sql : String} {args : List (Option String)} {rows : List Row}
    {changed : ChangedTable}
    (hrun : db.engine sql args c.tables = some (rows, ⟨changed, c.tables.objects⟩)) :
    Returns (executeSql db sql args) c (fun rows' c' => rows' = rows ∧ Beside c c') := by
  refine (returns_executeSql db hinside sql args).mono (fun rows' c' h => ?_)
  obtain ⟨hrun', hc'⟩ := h
  rw [hrun, Option.some.injEq, Prod.mk.injEq] at hrun'
  obtain ⟨hrows, htables⟩ := hrun'
  exact ⟨hrows.symm, changed, c.executed + 1, by rw [htables, ← hc']⟩

/-- A statement that writes object_values, or is refused. -/
theorem returns_written {sql : String} {args : List (Option String)} {objects : Option ObjectTable}
    (hrun : db.engine sql args c.tables =
      objects.map (fun objects => ([], { c.tables with objects }))) :
    Returns (executeSql db sql args) c (fun _ c' => ∃ T, objects = some T ∧
      c' = { c with tables := ⟨c.tables.changed, T⟩, executed := c.executed + 1 }) := by
  refine (returns_executeSql db hinside sql args).mono (fun rows' c' h => ?_)
  obtain ⟨hrun', hc'⟩ := h
  rw [hrun] at hrun'
  obtain ⟨T, hT, heq⟩ := Option.map_eq_some_iff.mp hrun'
  obtain ⟨-, htables⟩ := Prod.mk.injEq _ _ _ _ ▸ heq
  exact ⟨T, hT, by rw [htables, ← hc']⟩

end Statements

section Steps

variable {db : Sqlite} (hE : Lawful db.engine) (m : Model) {obj : String} (hobj : PlainText obj)
  {c : Conn} (hinside : c.insideTransaction = true)

/-- The text of an update_type. -/
def IsType (updateType : Option String) : Prop := ∃ t : UpdateType, updateType = some t.text

include hE hinside

theorem returns_takePending {fs : List (Ident × Option String)} (hne : fs ≠ [])
    (hplain : PlainFields fs) (hknown : Known .changed fs) (hobj : PlainText obj) {key : String}
    (hkey : PlainText key) {updateType : Option String} (htype : IsType updateType) :
    Returns (takePending db m (texts fs) (some obj) key updateType) c
      (fun updateType c' => IsType updateType ∧ Beside c c') := by
  obtain ⟨f, rest, rfl⟩ := List.exists_cons_of_ne_nil hne
  have hplain' : PlainFields (f :: (rest ++ [unsent])) := unsent_plain hplain
  have hknown' : Known .changed (f :: (rest ++ [unsent])) := unsent_known hknown
  obtain ⟨rows, hrows, htypes⟩ := execute_select_pending hE c.tables hplain' hknown'
  have hpending : texts (f :: (rest ++ [unsent])) = texts (f :: rest) ++ [("sent", some "0")] := by
    rw [← List.cons_append, texts, List.map_append]
    rfl
  rw [hpending] at hrows
  refine (returns_beside db hinside hrows).bind (fun rows' c' h => ?_)
  obtain ⟨rfl, hc'⟩ := h
  cases rows' with
  | nil => exact returns_pure ⟨htype, hc'⟩
  | cons row rows =>
    have hknownRow := @attribFields_known m.sourceId obj key .changed (by decide)
    obtain ⟨changed, hdelete⟩ := execute_delete_pending hE c'.tables
      (unsent_plain (attribFields_plain hobj hkey)) (unsent_known hknownRow)
    refine (returns_beside db (hc'.inside.trans hinside) hdelete).bind (fun _ c'' h => ?_)
    exact returns_pure ⟨htypes row List.mem_cons_self, hc'.trans h.2⟩

/-- Attributes of the object are written, with so many new ids. -/
structure Wrote (src : Int) (obj : String) (ids : Nat) (entries : List (String × Option String))
    (c c' : Conn) : Prop where
  stored : Stored src obj entries c.tables c'.tables
  inside : c'.insideTransaction = c.insideTransaction
  tempId : c'.tempId ≤ c.tempId + ids

section Composing

variable {src : Int} {ids : Nat} {es : List (String × Option String)} {c₁ c₂ c₃ : Conn}

omit hE hinside

theorem wrote_beside (h : Beside c₁ c₂) (a : String) :
    Wrote src obj ids [(a, told src obj c₁.tables a)] c₁ c₂ := by
  refine ⟨stored_same h.objects a, h.inside, ?_⟩
  obtain ⟨_, _, rfl⟩ := h
  exact Nat.le_add_right _ _

theorem Wrote.before (h : Beside c₁ c₂) (h' : Wrote src obj ids es c₂ c₃) :
    Wrote src obj ids es c₁ c₃ := by
  refine ⟨h'.stored.congr h.objects.symm rfl, h'.inside.trans h.inside, ?_⟩
  obtain ⟨_, _, rfl⟩ := h
  exact h'.tempId

theorem Wrote.after (h : Wrote src obj ids es c₁ c₂) (h' : Beside c₂ c₃) :
    Wrote src obj ids es c₁ c₃ := by
  refine ⟨h.stored.congr rfl h'.objects, h'.inside.trans h.inside, ?_⟩
  obtain ⟨_, _, rfl⟩ := h'
  exact h.tempId

/-- What is written with the id that is generated first. -/
theorem Wrote.generated (h : Wrote src obj 0 es { c₁ with tempId := c₁.tempId + 1 } c₂) :
    Wrote src obj 1 es c₁ c₂ := ⟨h.stored, h.inside, h.tempId⟩

theorem Wrote.more {ids' : Nat} (h : Wrote src obj ids es c₁ c₂) (hids : ids ≤ ids') :
    Wrote src obj ids' es c₁ c₂ :=
  ⟨h.stored, h.inside, h.tempId.trans (Nat.add_le_add_left hids _)⟩

theorem Wrote.append {ids' : Nat} {fs : List (String × Option String)}
    (h : Wrote src obj ids es c₁ c₂) (h' : Wrote src obj ids' fs c₂ c₃)
    (hdisjoint : ∀ e ∈ es, e.1 ∉ fs.map Prod.fst) :
    Wrote src obj (ids + ids') (es ++ fs) c₁ c₃ := by
  refine ⟨h.stored.append h'.stored hdisjoint, h'.inside.trans h.inside, ?_⟩
  have hfirst := h.tempId
  have hlast := h'.tempId
  omega

end Composing

section Writes

variable {key val : String} {fs : List (Ident × Option String)}
  (hfields : ValueFields m.sourceId obj key val fs) {i : Int} (hmin : -2 ^ 63 ≤ i)
  (hmax : i < 2 ^ 63)

include hfields hmin hmax

theorem returns_insertChanged (hcols : ∀ c ∈ fs.map (fun g => g.1.name), c ∈ changedFields)
    {t : UpdateType} (htype : insertedRow fs "update_type" = some t.text)
    (hmain : insertedRow fs "main_id" = some (toString i)) :
    Returns (executeSql db (insertIntoTable "changed_values" (texts fs)) []) c
      (fun _ c' => Beside c c') := by
  obtain ⟨changed, hrun⟩ := execute_insert_changed hE c.tables hfields hmin hmax hcols htype hmain
  exact (returns_beside db hinside hrun).mono (fun _ _ h => h.2)

theorem returns_insertObject
    (hcols : ∀ c ∈ fs.map (fun g => g.1.name), c ∈ Table.objects.columns)
    (hid : insertedRow fs "id" = some (toString i)) (hclean : '\x00' ∉ val.toList) :
    Returns (executeSql db (insertIntoTable "object_values" (texts fs)) []) c
      (fun _ c' => Wrote m.sourceId obj 0 [(key, some val)] c c' ∧ c'.vars = c.vars) := by
  obtain ⟨row, hattrib, hvalue, hrun⟩ :=
    execute_insert_object hE c.tables hfields hmin hmax hcols hid
  refine (returns_written db hinside hrun).mono (fun _ c' h => ?_)
  obtain ⟨T, hT, rfl⟩ := h
  exact ⟨⟨stored_insert hattrib hvalue hclean hT _, rfl, le_rfl⟩, rfl⟩

end Writes

theorem returns_updateValue {key val : String} (hobj : PlainText obj) (hkey : PlainText key)
    (hval : PlainText val) {r : ObjectValue}
    (hfound : attribRow c.tables m.sourceId (some obj) (some key) = some r) :
    Returns (executeSql db (updateIntoTable "object_values" [("value", some val)]
        (some (attribRows m (some obj) key))) []) c
      (fun _ c' => Wrote m.sourceId obj 0 [(key, some val)] c c' ∧ c'.vars = c.vars) := by
  have hrun : db.engine (updateIntoTable "object_values" [("value", some val)]
      (some (attribRows m (some obj) key))) [] c.tables = _ :=
    execute_update_value hE hobj hkey c.tables hval
  refine (returns_written db hinside hrun).mono (fun _ c' h => ?_)
  obtain ⟨T, hT, rfl⟩ := h
  exact ⟨⟨stored_update hfound hval.2.2 hT _, rfl, le_rfl⟩, rfl⟩

/-- The value that save leaves: an empty text does not take the place of nil. -/
def savedValue (src : Int) (obj : String) (t : Tables) (a val : String) : Option String :=
  if val = "" ∧ (attribRow t src (some obj) (some a)).map ObjectValue.value = some none then none
  else some val

omit hE hinside in
theorem savedValue_row {src : Int} {t : Tables} {a val : String} {r : ObjectValue}
    (hfound : attribRow t src (some obj) (some a) = some r) : savedValue src obj t a val =
      if Rhom.isModified (r.value.map cText) val then some val else r.value.map cText := by
  rw [savedValue, hfound, Option.map_some]
  cases r.value with
  | none => by_cases hempty : val = "" <;> simp [Rhom.isModified, hempty]
  | some v => by_cases hsame : cText v = val <;> simp [Rhom.isModified, hsame]

/-- The value that update_attributes leaves, by what the object answers for the attribute. -/
def updatedValue (src : Int) (obj : String) (t : Tables) (answer : Option String)
    (a val : String) : Option String :=
  if Rhom.isModified answer val then some val else told src obj t a

/-- The row of an attribute that save has not found. -/
theorem returns_insertSaved (hobj : PlainText obj) {key val : String} (hkey : PlainText key)
    (hval : PlainText val) {n : Nat} (hn : n < 2 ^ 63) {updateType : Option String}
    (htype : IsType updateType) :
    Returns (do
      let _ ← executeSql db (insertIntoTable "changed_values"
        ([("source_id", some m.src), ("object", some obj), ("attrib", some key),
          ("value", some val)] ++ [("update_type", updateType)] ++
          (if key = "image_uri" then [("attrib_type", some "blob.file")] else []) ++
          [("main_id", some (toString n))])) []
      let _ ← executeSql db (insertIntoTable "object_values"
        ([("source_id", some m.src), ("object", some obj), ("attrib", some key),
          ("value", some val)] ++
          (if key = "image_uri" then [("attrib_type", some "blob.file")] else []) ++
          [("id", some (toString n))])) []
      pure () : M Unit) c (fun _ c' => Wrote m.sourceId obj 0 [(key, some val)] c c') := by
  obtain ⟨t, rfl⟩ := htype
  obtain ⟨i, hi⟩ : ∃ i : Int, i = (n : Int) := ⟨_, rfl⟩
  have hmin : -2 ^ 63 ≤ i := by omega
  have hmax : i < 2 ^ 63 := by omega
  have hid : toString n = toString i := by
    rw [hi]
    rfl
  rw [hid, Model.src, ← texts_savedChanged, ← texts_savedObject]
  refine (returns_insertChanged hE m hinside (savedChanged_fields hobj hkey hval t i) hmin hmax
    (savedChanged_cols t i) (savedChanged_row t i).1 (savedChanged_row t i).2).bind
    (fun _ c₂ hc₂ => ?_)
  refine (returns_insertObject hE m (hc₂.inside.trans hinside)
    (savedObject_fields hobj hkey hval i) hmin hmax (savedObject_cols i) (savedObject_row i)
    hval.2.2).bind (fun _ c₃ hc₃ => ?_)
  exact returns_pure (hc₃.1.before hc₂)

/-- The row of an attribute that save has found. -/
theorem returns_updateSaved (hobj : PlainText obj) {key val : String} (hkey : PlainText key)
    (hval : PlainText val) {r : ObjectValue}
    (hfound : attribRow c.tables m.sourceId (some obj) (some key) = some r) {row : Row}
    (hvalue : cell row "value" = r.value.map cText)
    (hid : cell row "id" = some (toString r.id.toInt)) {updateType : Option String}
    (htype : IsType updateType) :
    Returns (if Rhom.isModified (cell row "value") val then do
        let updateType ← takePending db m (attribRows m (some obj) key) (some obj) key updateType
        let _ ← executeSql db (insertIntoTable "changed_values"
          ([("source_id", some m.src), ("object", some obj), ("attrib", some key),
            ("value", some val)] ++ [("update_type", updateType)] ++
            (if key = "image_uri" then [("attrib_type", some "blob.file")] else []) ++
            [("main_id", cell row "id")])) []
        let _ ← executeSql db (updateIntoTable "object_values" [("value", some val)]
          (some (attribRows m (some obj) key))) []
        pure ()
      else pure () : M Unit) c (fun _ c' => Wrote m.sourceId obj 0
        [(key, if Rhom.isModified (cell row "value") val then some val else cell row "value")]
        c c') := by
  have htold : told m.sourceId obj c.tables key = cell row "value" := by
    rw [hvalue, told, attribValue, hfound]
    rfl
  refine returns_ite (fun hmodified => ?_) (fun hsame => ?_)
  · rw [if_pos hmodified, hid, Model.src]
    refine (returns_takePending hE m hinside (List.cons_ne_nil _ _)
      (attribFields_plain hobj hkey) (attribFields_known .changed (by decide)) hobj hkey
      htype).bind (fun updateType c₁ h => ?_)
    obtain ⟨⟨t, rfl⟩, hc₁⟩ := h
    have hinside₁ := hc₁.inside.trans hinside
    rw [← texts_savedChanged]
    refine (returns_insertChanged hE m hinside₁ (savedChanged_fields hobj hkey hval t _)
      (Int64.le_toInt r.id) (Int64.toInt_lt r.id) (savedChanged_cols t _)
      (savedChanged_row t _).1 (savedChanged_row t _).2).bind (fun _ c₂ hc₂ => ?_)
    have hbeside := hc₁.trans hc₂
    have hfound₂ := (attribRow_congr hbeside.objects (some obj) (some key)).trans hfound
    refine (returns_updateValue hE m (hc₂.inside.trans hinside₁) hobj hkey hval hfound₂).bind
      (fun _ c₃ hc₃ => ?_)
    exact returns_pure (hc₃.1.before hbeside)
  · rw [if_neg hsame, ← htold]
    exact returns_pure (wrote_beside (Beside.refl c) key)

theorem returns_saveAttrib (hobj : PlainText obj) {var : String × Option String}
    (hname : Rhom.methodNameReserved var.1 = false) (hkey : PlainText var.1)
    (hval : PlainText (Rhom.stripBraces (var.2.getD ""))) (htemp : c.tempId + 1 < 2 ^ 63)
    {updateType : Option String} (htype : IsType updateType) :
    Returns (saveAttrib db m (some obj) updateType var) c (fun _ c' => Wrote m.sourceId obj 1
      [(var.1, savedValue m.sourceId obj c.tables var.1 (Rhom.stripBraces (var.2.getD "")))]
      c c') := by
  obtain ⟨key, value⟩ := var
  unfold saveAttrib
  simp only [hname, Bool.false_eq_true, if_false] at hkey hval ⊢
  generalize Rhom.stripBraces (value.getD "") = val at hval ⊢
  have hselect : db.engine (selectFromTable "object_values" "value,id"
      (some (attribRows m (some obj) key)) none []) [] c.tables = _ :=
    @execute_select_row db.engine hE m.sourceId obj key hobj hkey c.tables ⟨valueId, [idId]⟩
      (by decide)
  refine (returns_beside db hinside hselect).bind (fun rows c₁ h => ?_)
  obtain ⟨rfl, hc₁⟩ := h
  have hinside₁ := hc₁.inside.trans hinside
  cases hrow : attribRow c.tables m.sourceId (some obj) (some key) with
  | none =>
    have hsaved : savedValue m.sourceId obj c.tables key val = some val := by
      simp [savedValue, hrow]
    have htempId : c₁.tempId + 1 < 2 ^ 63 := by
      obtain ⟨_, _, rfl⟩ := hc₁
      exact htemp
    rw [hsaved]
    refine Returns.mono ?_ (fun _ c' h => (Wrote.generated h).before hc₁)
    refine returns_bind_of_ok rfl ?_
    exact returns_insertSaved hE m (c := { c₁ with tempId := c₁.tempId + 1 }) hinside₁ hobj hkey
      hval htempId htype
  | some r =>
    have hvalue : cell [("value", r.value.map cText),
        ("id", (some (toString r.id.toInt)).map cText)] "value" = r.value.map cText := rfl
    have hid : cell [("value", r.value.map cText),
        ("id", (some (toString r.id.toInt)).map cText)] "id" = some (toString r.id.toInt) :=
      congrArg some (cText_eq (plainText_int r.id.toInt).2.2)
    have hfound : attribRow c₁.tables m.sourceId (some obj) (some key) = some r :=
      (attribRow_congr hc₁.objects _ _).trans hrow
    refine Returns.mono ?_ (fun _ c' h => (Wrote.more h (Nat.zero_le 1)).before hc₁)
    rw [savedValue_row hrow]
    exact returns_updateSaved hE m hinside₁ hobj hkey hval hfound hvalue hid htype

/-- The text that is written for a value. -/
def textOf (value : Option String) : String := Rhom.stripBraces (value.getD "")

/-- What save leaves for the vars that are attributes. -/
def savedEntries (src : Int) (obj : String) (t : Tables) (vars : List (String × Option String)) :
    List (String × Option String) :=
  (vars.filter (fun v => !Rhom.methodNameReserved v.1)).map
    (fun v => (v.1, savedValue src obj t v.1 (textOf v.2)))

omit hE hinside in
theorem savedValue_congr {src : Int} {t t' : Tables} {a : String}
    (h : attribRow t' src (some obj) (some a) = attribRow t src (some obj) (some a))
    (val : String) : savedValue src obj t' a val = savedValue src obj t a val := by
  rw [savedValue, savedValue, h]

omit hE hinside in
theorem names_savedEntries {src : Int} {t : Tables} {vars : List (String × Option String)}
    {a : String} (h : a ∈ (savedEntries src obj t vars).map Prod.fst) : a ∈ vars.map Prod.fst := by
  obtain ⟨e, he, rfl⟩ := List.mem_map.mp h
  obtain ⟨v, hv, rfl⟩ := List.mem_map.mp he
  exact List.mem_map.mpr ⟨v, (List.mem_filter.mp hv).1, rfl⟩

/-- Names and values that are written as they are. -/
def PlainVars (vars : List (String × Option String)) : Prop :=
  ∀ v ∈ vars, Rhom.methodNameReserved v.1 = false → PlainText v.1 ∧ PlainText (textOf v.2)

omit hE hinside in
theorem isType_updateType {t : UpdateType} (ht : t ≠ .delete) : IsType (m.updateType t) := by
  unfold IsType Model.updateType Rhom.getUpdateTypeBySource
  cases m.askSource with
  | false => exact ⟨t, rfl⟩
  | true =>
    refine ⟨.query, ?_⟩
    simp [ht]

theorem returns_saveBody (hobj : PlainText obj) {vars : List (String × Option String)}
    (hnames : (vars.map Prod.fst).Nodup) (hplain : PlainVars vars)
    (htemp : c.tempId + vars.length < 2 ^ 63) :
    Returns (saveBody db m (some obj) vars) c (fun _ c' =>
      Wrote m.sourceId obj vars.length (savedEntries m.sourceId obj c.tables vars) c c') := by
  obtain ⟨rows, hrows⟩ := execute_select_object hE c.tables (some obj) m.sourceId
  refine (returns_beside db hinside hrows).bind (fun result c₀ h => ?_)
  obtain ⟨-, hc₀⟩ := h
  have htype : IsType (if result.length > 0 then m.updateType .update
      else m.updateType .create) := by
    split
    · exact isType_updateType m nofun
    · exact isType_updateType m nofun
  refine returns_forM (I := fun done c' => Wrote m.sourceId obj done.length
    (savedEntries m.sourceId obj c.tables done) c c') vars ?_ ?_
  · intro done v rest hvars c₁ hdone
    have hnew : v.1 ∉ done.map Prod.fst := by
      rw [hvars, List.map_append, List.nodup_append] at hnames
      intro hmem
      exact hnames.2.2 _ hmem _ List.mem_cons_self rfl
    have hlength : done.length + 1 ≤ vars.length := by
      rw [hvars, List.length_append, List.length_cons]
      omega
    cases hname : Rhom.methodNameReserved v.1 with
    | true =>
      have hentries : savedEntries m.sourceId obj c.tables (done ++ [v]) =
          savedEntries m.sourceId obj c.tables done := by
        simp [savedEntries, List.filter_append, hname]
      rw [hentries, List.length_append]
      refine returns_ite (fun _ => ?_) (fun h => absurd hname h)
      exact returns_pure (hdone.more (Nat.le_add_right _ _))
    | false =>
      obtain ⟨hkey, hval⟩ := hplain v (hvars ▸ List.mem_append_right _ List.mem_cons_self) hname
      have htemp₁ : c₁.tempId + 1 < 2 ^ 63 := by
        have hids := hdone.tempId
        omega
      have hkept := hdone.stored.kept v.1 (fun h => hnew (names_savedEntries h))
      have hentries : savedEntries m.sourceId obj c.tables (done ++ [v]) =
          savedEntries m.sourceId obj c.tables done ++
            [(v.1, savedValue m.sourceId obj c₁.tables v.1 (textOf v.2))] := by
        rw [savedValue_congr hkept]
        simp [savedEntries, List.filter_append, hname]
      rw [hentries, List.length_append]
      refine (returns_saveAttrib hE m (hdone.inside.trans hinside) hobj hname hkey hval htemp₁
        htype).mono (fun _ c₂ hstep => hdone.append hstep (fun e he hmem => ?_))
      rw [List.map_singleton, List.mem_singleton] at hmem
      exact hnew (names_savedEntries (List.mem_map.mpr ⟨e, he, hmem⟩))
  · exact ((⟨stored_nil rfl, rfl, le_rfl⟩ : Wrote m.sourceId obj 0 [] c c).after hc₀)

end Steps

section Answers

/-- The name without its @, under which update_attributes stores an attribute. -/
def withoutEq (name : String) : String := String.ofList (name.toList.filter (fun c => c ≠ '='))

/-- What the object answers for an attribute: a name with = in it is a setter, which gives nil. -/
def answer (vars : List (String × Option String)) (name : String) : Option String :=
  if '=' ∈ name.toList then none else Rhom.getVar vars (withoutEq name)

theorem answer_assign {vars : List (String × Option String)} {name other : String}
    (hne : withoutEq other ≠ name) (v : Option String) :
    answer (assign vars name v) other = answer vars other := by
  have hget : Rhom.getVar (assign vars name v) (withoutEq other) =
      if withoutEq other = name then v else Rhom.getVar vars (withoutEq other) :=
    getVar_mergeVar vars name (withoutEq other) v
  rw [answer, answer, hget, if_neg hne]

/-- Another attribute is not answered by a name, nor by the name without =. -/
theorem withoutEq_ne {name other : String} (hne : withoutEq other ≠ withoutEq name) :
    withoutEq other ≠ name := by
  intro heq
  apply hne
  have hclean : ∀ c ∈ name.toList, c ≠ '=' := by
    intro c hc
    rw [← heq, withoutEq, String.toList_ofList] at hc
    exact of_decide_eq_true (List.mem_filter.mp hc).2
  have hsame : withoutEq name = name := by
    rw [withoutEq, List.filter_eq_self.mpr (fun c hc => decide_eq_true (hclean c hc)),
      String.ofList_toList]
  rw [heq, hsame]

theorem returns_send {m : Model} {name : String} (hown : m.own name = none) (c : Conn) :
    Returns (send m name) c (fun oldVal c' =>
      oldVal = answer c.vars name ∧ (∃ vars, c' = { c with vars }) ∧
        ∀ other, withoutEq other ≠ withoutEq name →
          answer c'.vars other = answer c.vars other) := by
  have hsend : send m name = methodMissing name := by
    unfold send
    rw [hown]
  rw [hsend]
  refine returns_ite (fun heq => ?_) (fun hplain => ?_)
  · refine returns_bind_of_ok rfl (returns_pure ⟨(if_pos heq).symm, ⟨_, rfl⟩, fun other hne => ?_⟩)
    exact answer_assign hne none
  · exact returns_bind_of_ok rfl
      (returns_pure ⟨(if_neg hplain).symm, ⟨c.vars, rfl⟩, fun _ _ => rfl⟩)

end Answers

section Updates

variable {db : Sqlite} (hE : Lawful db.engine) (m : Model) {obj : String} (hobj : PlainText obj)
  {c : Conn} (hinside : c.insideTransaction = true)

include hE hobj hinside

/-- An attribute of update_attributes that is modified. -/
theorem returns_updateModified {attrib newVal : String} (hkey : PlainText attrib)
    (hval : PlainText newVal) (htemp : c.tempId + 1 < 2 ^ 63) {updateType : Option String}
    (htype : IsType updateType) :
    Returns (updateModified db m (some obj) attrib newVal updateType) c (fun updateType c' =>
      IsType updateType ∧ Wrote m.sourceId obj 1 [(attrib, some newVal)] c c' ∧
        c'.vars = assign c.vars attrib (some newVal)) := by
  have hpendingPlain : PlainFields [(objectId, some obj), (sourceId, some (toString m.sourceId))] :=
    List.forall_mem_cons.mpr ⟨hobj.value, List.forall_mem_singleton.mpr (plainValue_int _)⟩
  have hpendingKnown : Known .changed
      [(objectId, some obj), (sourceId, some (toString m.sourceId))] :=
    List.forall_mem_cons.mpr ⟨knownText (by decide) (by decide) _,
      List.forall_mem_singleton.mpr (knownInt (by decide) _)⟩
  unfold updateModified
  refine (returns_takePending hE m hinside (List.cons_ne_nil _ _) hpendingPlain hpendingKnown hobj
    hkey htype).bind (fun updateType c₁ h => ?_)
  obtain ⟨⟨t, rfl⟩, hc₁⟩ := h
  have hinside₁ := hc₁.inside.trans hinside
  have hselect : db.engine (selectFromTable "object_values" "id"
      (some (attribRows m (some obj) attrib)) none []) [] c₁.tables = _ :=
    execute_select_id hE hobj hkey c₁.tables
  refine (returns_beside db hinside₁ hselect).bind (fun rows c₂ h => ?_)
  obtain ⟨rfl, hc₂⟩ := h
  have hbeside := hc₁.trans hc₂
  have hinside₂ := hbeside.inside.trans hinside
  have hrow₂ : attribRow c₂.tables m.sourceId (some obj) (some attrib) = _ :=
    attribRow_congr hc₂.objects _ _
  -- What is left behind the statements: the object's own value.
  have hfinish : ∀ c₃, Wrote m.sourceId obj 1 [(attrib, some newVal)] c c₃ → c₃.vars = c.vars →
      Returns (do
        modify (fun c => { c with vars := assign c.vars attrib (some newVal) })
        return some t.text : M (Option String)) c₃ (fun updateType c' => IsType updateType ∧
          Wrote m.sourceId obj 1 [(attrib, some newVal)] c c' ∧
            c'.vars = assign c.vars attrib (some newVal)) := by
    intro c₃ hwrote hvars
    refine returns_bind_of_ok rfl (returns_pure ⟨⟨t, rfl⟩, ?_, by rw [← hvars]⟩)
    exact ⟨hwrote.stored, hwrote.inside, hwrote.tempId⟩
  cases hrow : attribRow c₁.tables m.sourceId (some obj) (some attrib) with
  | none =>
    obtain ⟨i, hi⟩ : ∃ i : Int, i = ((c₂.tempId + 1 : Nat) : Int) := ⟨_, rfl⟩
    have hid : toString (c₂.tempId + 1) = toString i := by
      rw [hi]
      rfl
    have hmax : i < 2 ^ 63 := by
      obtain ⟨_, _, rfl⟩ := hbeside
      rw [hi]
      exact_mod_cast htemp
    have hmin : -2 ^ 63 ≤ i := by omega
    refine returns_bind_of_ok rfl ?_
    rw [hid]
    refine (returns_insertObject hE m (c := { c₂ with tempId := c₂.tempId + 1 }) hinside₂
      (updatedObject_fields hobj hkey hval i) hmin hmax (updated_cols t i).2 rfl hval.2.2).bind
      (fun _ c₃ h => ?_)
    obtain ⟨hwrote, hvars⟩ := h
    have hwrote' := (Wrote.generated hwrote).before hbeside
    refine (returns_insertChanged hE m (hwrote'.inside.trans hinside)
      (updatedChanged_fields hobj hkey hval t i) hmin hmax (updated_cols t i).1 rfl rfl).bind
      (fun _ c₄ hc₄ => ?_)
    exact hfinish c₄ (hwrote'.after hc₄) (hc₄.vars.trans (hvars.trans hbeside.vars))
  | some r =>
    refine (returns_updateValue hE m hinside₂ hobj hkey hval (hrow₂.trans hrow)).bind
      (fun _ c₃ h => ?_)
    obtain ⟨hwrote, hvars⟩ := h
    have hwrote' := (hwrote.more (Nat.zero_le 1)).before hbeside
    refine (returns_insertChanged hE m (hwrote'.inside.trans hinside)
      (updatedChanged_fields hobj hkey hval t r.id.toInt) (Int64.le_toInt r.id)
      (Int64.toInt_lt r.id) (updated_cols t _).1 rfl rfl).bind (fun _ c₄ hc₄ => ?_)
    exact hfinish c₄ (hwrote'.after hc₄) (hc₄.vars.trans (hvars.trans hbeside.vars))

theorem returns_updateAttrib {attr : String × Option String}
    (hown : m.own (attribName attr.1) = none)
    (hname : Rhom.methodNameReserved (attribName attr.1) = false)
    (hkey : PlainText (attribName attr.1))
    (hval : PlainText (textOf attr.2)) (htemp : c.tempId + 1 < 2 ^ 63)
    {updateType : Option String} (htype : IsType updateType) :
    Returns (updateAttrib db m (some obj) updateType attr) c (fun updateType c' =>
      IsType updateType ∧ Wrote m.sourceId obj 1 [(attribName attr.1, updatedValue m.sourceId obj
        c.tables (answer c.vars (attribName attr.1)) (attribName attr.1) (textOf attr.2))] c c' ∧
      ∀ other, withoutEq other ≠ withoutEq (attribName attr.1) →
        answer c'.vars other = answer c.vars other) := by
  refine returns_ite (fun h => absurd (hname.symm.trans h) Bool.false_ne_true) (fun _ => ?_)
  refine (returns_send hown c).bind (fun oldVal c₁ h => ?_)
  obtain ⟨rfl, ⟨vars, rfl⟩, hothers⟩ := h
  refine returns_ite (fun hmodified => ?_) (fun hsame => ?_)
  · refine (returns_updateModified hE m (c := { c with vars }) hobj hinside hkey hval htemp
      htype).mono (fun updateType c' h => ?_)
    obtain ⟨htype', hwrote, hvars⟩ := h
    refine ⟨htype', ?_, fun other hne => ?_⟩
    · have hvalue : updatedValue m.sourceId obj c.tables (answer c.vars (attribName attr.1))
          (attribName attr.1) (textOf attr.2) = some (textOf attr.2) := if_pos hmodified
      rw [hvalue]
      exact ⟨hwrote.stored, hwrote.inside, hwrote.tempId⟩
    · rw [hvars, answer_assign (withoutEq_ne hne), hothers other hne]
  · refine returns_pure ⟨htype, ?_, hothers⟩
    have hvalue : updatedValue m.sourceId obj c.tables (answer c.vars (attribName attr.1))
        (attribName attr.1) (textOf attr.2) = told m.sourceId obj c.tables (attribName attr.1) :=
      if_neg hsame
    rw [hvalue]
    exact ⟨stored_same rfl _, rfl, Nat.le_succ _⟩

/-- What update_attributes leaves for the attributes. -/
def updatedEntries (src : Int) (obj : String) (c : Conn) (attrs : List (String × Option String)) :
    List (String × Option String) :=
  attrs.map (fun a => (attribName a.1, updatedValue src obj c.tables
    (answer c.vars (attribName a.1)) (attribName a.1) (textOf a.2)))

/-- Names and values that are written as they are. -/
def PlainAttrs (attrs : List (String × Option String)) : Prop := ∀ a ∈ attrs,
  Rhom.methodNameReserved (attribName a.1) = false ∧ PlainText (attribName a.1) ∧
    PlainText (textOf a.2)

theorem returns_updateBody {attrs : List (String × Option String)}
    (hown : ∀ a ∈ attrs, m.own (attribName a.1) = none)
    (hnames : (attrs.map (fun a => withoutEq (attribName a.1))).Nodup) (hplain : PlainAttrs attrs)
    (htemp : c.tempId + attrs.length < 2 ^ 63) :
    Returns (updateBody db m (some obj) attrs) c (fun _ c' =>
      Wrote m.sourceId obj attrs.length (updatedEntries m.sourceId obj c attrs) c c') := by
  refine Returns.bind (returns_foldlM (I := fun done updateType c' => IsType updateType ∧
    Wrote m.sourceId obj done.length (updatedEntries m.sourceId obj c done) c c' ∧
    ∀ other, withoutEq other ∉ done.map (fun a => withoutEq (attribName a.1)) →
      answer c'.vars other = answer c.vars other) attrs ?_ ?_)
    (fun _ c' h => returns_pure h.2.1)
  · intro done a rest hattrs updateType c₁ hdone
    obtain ⟨htype, hwrote, hanswers⟩ := hdone
    have hmem : a ∈ attrs := hattrs ▸ List.mem_append_right _ List.mem_cons_self
    obtain ⟨hname, hkey, hval⟩ := hplain a hmem
    have hnew : withoutEq (attribName a.1) ∉ done.map (fun a => withoutEq (attribName a.1)) := by
      rw [hattrs, List.map_append, List.nodup_append] at hnames
      intro hmem
      exact hnames.2.2 _ hmem _ List.mem_cons_self rfl
    have hother : attribName a.1 ∉ (updatedEntries m.sourceId obj c done).map Prod.fst := by
      intro hmem
      obtain ⟨e, he, heq⟩ := List.mem_map.mp hmem
      obtain ⟨b, hb, rfl⟩ := List.mem_map.mp he
      exact hnew (List.mem_map.mpr ⟨b, hb, congrArg withoutEq heq⟩)
    have htemp₁ : c₁.tempId + 1 < 2 ^ 63 := by
      have hids := hwrote.tempId
      have hlength : done.length + 1 ≤ attrs.length := by
        rw [hattrs, List.length_append, List.length_cons]
        omega
      omega
    have hentries : updatedEntries m.sourceId obj c (done ++ [a]) =
        updatedEntries m.sourceId obj c done ++ [(attribName a.1, updatedValue m.sourceId obj
          c₁.tables (answer c₁.vars (attribName a.1)) (attribName a.1) (textOf a.2))] := by
      rw [hanswers _ hnew, updatedEntries, List.map_append, List.map_singleton, updatedValue,
        updatedValue, told_congr (hwrote.stored.kept _ hother)]
      rfl
    rw [hentries, List.length_append]
    refine (returns_updateAttrib hE m hobj (hwrote.inside.trans hinside) (hown a hmem) hname hkey
      hval htemp₁ htype).mono (fun updateType' c₂ h => ?_)
    obtain ⟨htype', hstep, hothers⟩ := h
    refine ⟨htype', hwrote.append hstep (fun e he hmem => ?_), fun other hne => ?_⟩
    · rw [List.map_singleton, List.mem_singleton] at hmem
      exact hother (List.mem_map.mpr ⟨e, he, hmem⟩)
    · rw [List.map_append, List.mem_append, not_or] at hne
      rw [hothers other (fun heq => hne.2 (List.mem_singleton.mpr heq)), hanswers other hne.1]
  · exact ⟨isType_updateType m nofun, ⟨stored_nil rfl, rfl, le_rfl⟩, fun _ _ => rfl⟩

end Updates

end Rhodes.StoredRows
