import Rhodes.EditOrder

/-!
The cells of object_values: the rows of a source, an object and an attribute. save and
update_attributes edit a cell at a time, and an edit does the same in both: the unsent rows of the
attribute are replaced by one row, and the cell shows the value of that row. `Edited` says so
once; what differs between the two is which type the row gets. The runs of the user's actions
and of makePushBody are defined here too.
-/
namespace Rhodes.Cells

open Database Statements Rhom EditOrder

/-- The rows of object_values that show an attribute. -/
def At (src : Int) (obj : Option String) (attrib : String) (o : ObjectValue) : Prop :=
  o.object = obj ∧ o.attrib = some attrib ∧ o.sourceId = src

instance (src : Int) (obj : Option String) (attrib : String) :
    DecidablePred (At src obj attrib) := fun _ => inferInstanceAs (Decidable (_ ∧ _))

/-- No cell has two rows. The unique index leaves this open for an object that is NULL. -/
def Unique (objects : ObjectTable) : Prop :=
  ∀ src obj attrib, ∀ o ∈ objects.rows, ∀ o' ∈ objects.rows,
    At src obj attrib o → At src obj attrib o' → o = o'

/-- The cell has one row, with the value and the id, and the others are as they were. -/
structure Wrote (objects objects' : ObjectTable) (src : Int) (obj : Option String)
    (attrib value : String) (id : Int64) : Prop where
  shown : ∃ o ∈ objects'.rows, At src obj attrib o
  cell : ∀ o ∈ objects'.rows, At src obj attrib o → o.value = some value ∧ o.id = id
  other : ∀ o, ¬At src obj attrib o → (o ∈ objects'.rows ↔ o ∈ objects.rows)

section Tables

variable {objects objects' : ObjectTable} {src : Int} {obj : Option String} {attrib : String}

theorem objectRow_eq_none (h : objectRow objects src obj attrib = none) :
    ∀ o ∈ objects.rows, ¬At src obj attrib o := by
  intro o ho hat
  have hfind := List.find?_eq_none.mp h o ho
  exact hfind (decide_eq_true hat)

instance : Std.Symm (fun r s : ObjectValue => ¬Conflict r s) := ⟨fun _ _ h hc => h hc.symm⟩

/-- Rows with one id are one row. -/
theorem eq_of_id {o o' : ObjectValue} (ho : o ∈ objects.rows) (ho' : o' ∈ objects.rows)
    (hid : o.id = o'.id) : o = o' := by
  by_contra hne
  have hpair := objects.keys.forall ho ho' hne
  exact hpair (.inl hid)

/-- The rows of an object that is not NULL are unique. -/
theorem eq_of_at {o o' : ObjectValue} {obj : String} (ho : o ∈ objects.rows)
    (ho' : o' ∈ objects.rows) (hat : At src (some obj) attrib o)
    (hat' : At src (some obj) attrib o') : o = o' := by
  by_contra hne
  have hpair := objects.keys.forall ho ho' hne
  refine hpair (.inr ⟨⟨?_, ?_⟩, ⟨?_, ?_⟩, ?_⟩)
  · rw [hat.1, Option.isSome_some]
  · rw [hat.1, hat'.1]
  · rw [hat.2.1, Option.isSome_some]
  · rw [hat.2.1, hat'.2.1]
  · rw [hat.2.2, hat'.2.2]

theorem Unique.delete (h : Unique objects) (p : ObjectValue → Prop) [DecidablePred p] :
    Unique (objects.delete p) := by
  intro src obj attrib o ho o' ho'
  rw [ObjectTable.mem_delete] at ho ho'
  exact h src obj attrib o ho.1 o' ho'.1

/-- After a write the cells are unique still: the rows of the cell have one id. -/
theorem Unique.wrote {value : String} {id : Int64} (h : Unique objects)
    (hw : Wrote objects objects' src obj attrib value id) : Unique objects' := by
  intro src' obj' attrib' o ho o' ho' hat hat'
  by_cases hcell : At src obj attrib o
  · have hcell' : At src obj attrib o' := by
      refine ⟨?_, ?_, ?_⟩
      · rw [hat'.1, ← hat.1, hcell.1]
      · rw [hat'.2.1, ← hat.2.1, hcell.2.1]
      · rw [hat'.2.2, ← hat.2.2, hcell.2.2]
    refine eq_of_id ho ho' ?_
    rw [(hw.cell o ho hcell).2, (hw.cell o' ho' hcell').2]
  · have hcell' : ¬At src obj attrib o' := by
      intro hin
      refine hcell ⟨?_, ?_, ?_⟩
      · rw [hat.1, ← hat'.1, hin.1]
      · rw [hat.2.1, ← hat'.2.1, hin.2.1]
      · rw [hat.2.2, ← hat'.2.2, hin.2.2]
    exact h src' obj' attrib' o ((hw.other o hcell).mp ho) o' ((hw.other o' hcell').mp ho') hat hat'

theorem setValue_wrote {value : String} {row : ObjectValue}
    (hrow : objectRow objects src obj attrib = some row)
    (hunique : ∀ o ∈ objects.rows, At src obj attrib o → o = row)
    (h : setValue objects src obj attrib value = some objects') :
    Wrote objects objects' src obj attrib value row.id := by
  obtain ⟨hmem, hat⟩ := objectRow_some hrow
  unfold setValue ObjectTable.update at h
  split at h
  · simp only [Option.some.injEq] at h
    subst h
    refine ⟨⟨{ row with value := some value }, ?_, hat⟩, ?_, ?_⟩
    · exact List.mem_map.mpr ⟨row, hmem, if_pos hat⟩
    · intro o ho hcell
      obtain ⟨q, hq, hset⟩ := List.mem_map.mp ho
      split at hset
      · rename_i hqat
        rw [← hset, hunique q hq hqat]
        exact ⟨rfl, rfl⟩
      · rename_i hqat
        rw [← hset] at hcell
        exact absurd hcell hqat
    · intro o hcell
      simp only [List.mem_map]
      constructor
      · intro ho
        obtain ⟨q, hq, hset⟩ := ho
        split at hset
        · rename_i hqat
          refine absurd ?_ hcell
          rw [← hset]
          exact hqat
        · rw [← hset]
          exact hq
      · intro ho
        exact ⟨o, ho, if_neg hcell⟩
  · exact absurd h (by simp)

theorem insert_wrote {value : String} {attribType : Option String} {id : Int64}
    (hnone : ∀ o ∈ objects.rows, ¬At src obj attrib o)
    (h : objects.insert ⟨id, src, some attrib, obj, some value, attribType⟩ = some objects') :
    Wrote objects objects' src obj attrib value id := by
  unfold ObjectTable.insert at h
  split at h
  · exact absurd h (by simp)
  · simp only [Option.some.injEq] at h
    subst h
    refine ⟨⟨_, List.mem_append_right _ (List.mem_singleton.mpr rfl), rfl, rfl, rfl⟩, ?_, ?_⟩
    · intro o ho hcell
      rcases List.mem_append.mp ho with ho | ho
      · exact absurd hcell (hnone o ho)
      · rw [List.mem_singleton.mp ho]
        exact ⟨rfl, rfl⟩
    · intro o hcell
      rw [List.mem_append, List.mem_singleton]
      refine or_iff_left ?_
      intro heq
      rw [heq] at hcell
      exact hcell ⟨rfl, rfl, rfl⟩

end Tables

/-- An edit of a cell: the row that is queued and the row that is shown. -/
structure Edited (src : Int) (obj : Option String) (attrib value : String) (t : UpdateType)
    (db db' : Db) : Prop where
  queued : ∃ attribType id, Wrote db.objects db'.objects src obj attrib value id ∧
    db'.changed = (db.changed.delete (Unsent src obj attrib)).insert
      (queued src obj (some attrib) (some value) attribType t id)

/-- The rows after an edit, in order. -/
theorem Edited.rows {src : Int} {obj : Option String} {attrib value : String} {t : UpdateType}
    {db db' : Db} (h : Edited src obj attrib value t db db') :
    ∃ new : ChangedValue, db'.changed.rows =
        db.changed.rows.filter (fun r => ¬Unsent src obj attrib r) ++ [new] ∧
      new.sourceId = src ∧ new.object = obj ∧ new.attrib = some attrib ∧ new.value = some value ∧
      new.updateType = t ∧ new.sent = 0 := by
  obtain ⟨attribType, id, -, hchanged⟩ := h.queued
  rw [hchanged]
  exact ⟨_, rfl, rfl, rfl, rfl, rfl, rfl, rfl⟩

/-- A cell without a row has no unsent row in the queue. -/
def Shows (db : Db) : Prop :=
  ∀ r ∈ db.changed.rows, r.sent = 0 → ∀ attrib, r.attrib = some attrib →
    ∃ o ∈ db.objects.rows, At r.sourceId r.object attrib o

section Edits

/-- The type of the row that save queues for an attribute: that of its unsent row, or the
type of the call. -/
def saveType (src : Int) (obj : Option String) (t : UpdateType) (db : Db) (attrib : String) :
    UpdateType :=
  ((db.changed.rows.find? (fun r => Unsent src obj attrib r)).map ChangedValue.updateType).getD t

/-- The type of the row that update_attributes queues: that of the first unsent row of the
object, or the type of the row before. -/
def updateType (src : Int) (obj : Option String) (t : UpdateType) (db : Db) : UpdateType :=
  ((db.changed.rows.find? (fun r => r.object = obj ∧ r.sourceId = src ∧ r.sent = 0)).map
    ChangedValue.updateType).getD t

/-- save has something to write for the attribute. -/
def SaveEdits (src : Int) (obj : Option String) (db : Db) (var : String × Option String) : Prop :=
  methodNameReserved var.1 = false ∧ ∀ row, objectRow db.objects src obj var.1 = some row →
    isModified row.value (stripBraces (var.2.getD "")) = true

/-- update_attributes has something to write for the attribute. -/
def UpdateEdits (vars : List (String × Option String)) (attr : String × Option String) : Prop :=
  methodNameReserved (attribName attr.1) = false ∧
    isModified (getVar vars (attribName attr.1)) (stripBraces (attr.2.getD "")) = true

variable {src : Int} {obj : Option String} {db db' : Db}

theorem delete_unsent_of_none {attrib : String} (hshows : Shows db)
    (hnone : ∀ o ∈ db.objects.rows, ¬At src obj attrib o) :
    (∀ r ∈ db.changed.rows, ¬Unsent src obj attrib r) ∧
      db.changed.delete (Unsent src obj attrib) = db.changed := by
  have hno : ∀ r ∈ db.changed.rows, ¬Unsent src obj attrib r := by
    intro r hr hunsent
    obtain ⟨hobj, hattr, hsrc, hsent⟩ := hunsent
    obtain ⟨o, ho, hat⟩ := hshows r hr hsent attrib hattr
    rw [hobj, hsrc] at hat
    exact hnone o ho hat
  refine ⟨hno, ChangedTable.ext ?_ rfl⟩
  rw [ChangedTable.delete_rows, List.filter_eq_self]
  intro r hr
  exact decide_eq_true (hno r hr)

theorem saveAttrib_cases {t : UpdateType} {var : String × Option String} (hshows : Shows db)
    (hunique : ∀ o ∈ db.objects.rows, ∀ o' ∈ db.objects.rows, At src obj var.1 o →
      At src obj var.1 o' → o = o')
    (h : saveAttrib src obj t db var = some db') :
    (¬SaveEdits src obj db var ∧ db' = db) ∨ SaveEdits src obj db var ∧
      Edited src obj var.1 (stripBraces (var.2.getD "")) (saveType src obj t db var.1) db db' := by
  unfold saveAttrib at h
  split at h
  · rename_i hreserved
    simp only [Option.some.injEq] at h
    refine .inl ⟨fun hedits => ?_, h.symm⟩
    rw [hedits.1] at hreserved
    exact absurd hreserved (by simp)
  · rename_i hreserved
    have hname : methodNameReserved var.1 = false := Bool.eq_false_of_not_eq_true hreserved
    cases hrow : objectRow db.objects src obj var.1 with
    | some row =>
      simp only [hrow] at h
      split at h
      · rename_i hmodified
        obtain ⟨objects, hobjects, rfl⟩ := Option.map_eq_some_iff.mp h
        obtain ⟨hmem, hat⟩ := objectRow_some hrow
        refine .inr ⟨⟨hname, ?_⟩, ⟨_, row.id, ?_, rfl⟩⟩
        · intro row' hrow'
          rw [hrow, Option.some.injEq] at hrow'
          rwa [← hrow']
        · exact setValue_wrote hrow (fun o ho hcell => hunique o ho row hmem hcell hat) hobjects
      · rename_i hmodified
        simp only [Option.some.injEq] at h
        exact .inl ⟨fun hedits => hmodified (hedits.2 row hrow), h.symm⟩
    | none =>
      simp only [hrow] at h
      obtain ⟨objects, hobjects, rfl⟩ := Option.map_eq_some_iff.mp h
      have hnone := objectRow_eq_none hrow
      obtain ⟨hno, hsame⟩ := delete_unsent_of_none hshows hnone
      have hfind : db.changed.rows.find? (fun r => decide (Unsent src obj var.1 r)) = none := by
        rw [List.find?_eq_none]
        intro r hr
        simpa using hno r hr
      have htype : saveType src obj t db var.1 = t := by
        rw [saveType, hfind]
        rfl
      refine .inr ⟨⟨hname, fun row hsome => ?_⟩,
        ⟨if var.1 = "image_uri" then some "blob.file" else none, Int64.ofNat (db.tempId + 1),
          insert_wrote hnone hobjects, ?_⟩⟩
      · rw [hrow] at hsome
        exact absurd hsome (by simp)
      · rw [hsame, htype]

theorem updateAttrib_cases {st st' : UpdateState} {attr : String × Option String}
    (hunique : ∀ o ∈ st.db.objects.rows, ∀ o' ∈ st.db.objects.rows,
      At src obj (attribName attr.1) o → At src obj (attribName attr.1) o' → o = o')
    (h : updateAttrib src obj st attr = some st') :
    (¬UpdateEdits st.vars attr ∧ st' = st) ∨ UpdateEdits st.vars attr ∧
      st'.updateType = updateType src obj st.updateType st.db ∧
      Edited src obj (attribName attr.1) (stripBraces (attr.2.getD ""))
        (updateType src obj st.updateType st.db) st.db st'.db := by
  unfold updateAttrib at h
  simp only at h
  split at h
  · rename_i hreserved
    simp only [Option.some.injEq] at h
    refine .inl ⟨fun hedits => ?_, h.symm⟩
    have hname := hedits.1
    rw [attribName, hreserved] at hname
    exact absurd hname (by simp)
  · rename_i hreserved
    have hname : methodNameReserved (attribName attr.1) = false :=
      Bool.eq_false_of_not_eq_true hreserved
    split at h
    · rename_i hmodified
      split at h
      · rename_i row hrow
        obtain ⟨objects, hobjects, rfl⟩ := Option.map_eq_some_iff.mp h
        obtain ⟨hmem, hat⟩ := objectRow_some hrow
        refine .inr ⟨⟨hname, hmodified⟩, rfl, ⟨none, row.id, ?_, rfl⟩⟩
        exact setValue_wrote hrow (fun o ho hcell => hunique o ho row hmem hcell hat) hobjects
      · rename_i hrow
        obtain ⟨objects, hobjects, rfl⟩ := Option.map_eq_some_iff.mp h
        exact .inr ⟨⟨hname, hmodified⟩, rfl, ⟨none, _,
          insert_wrote (objectRow_eq_none hrow) hobjects, rfl⟩⟩
    · rename_i hmodified
      simp only [Option.some.injEq] at h
      exact .inl ⟨fun hedits => hmodified hedits.2, h.symm⟩

end Edits

section Loops

variable {α β : Type}

/-- Each turn of a loop meets a condition on the state before it. -/
def LoopMeets (f : α → β → Option α) (ok : α → β → Prop) : α → List β → Prop
  | _, [] => True
  | a, b :: rest => ok a b ∧ ∀ a', f a b = some a' → LoopMeets f ok a' rest

/-- A loop keeps what its body keeps where the condition is met. -/
theorem LoopMeets.keeps {P : α → Prop} {f : α → β → Option α} {ok : α → β → Prop}
    {l : List β} (hf : ∀ a b a', b ∈ l → P a → ok a b → f a b = some a' → P a') {a a' : α}
    (hmeets : LoopMeets f ok a l) (ha : P a) (h : l.foldlM f a = some a') : P a' := by
  induction l generalizing a with
  | nil =>
    simp only [List.foldlM_nil, Option.pure_def, Option.some.injEq] at h
    rw [← h]
    exact ha
  | cons b rest ih =>
    simp only [List.foldlM_cons, Option.bind_eq_bind, Option.bind_eq_some_iff] at h
    obtain ⟨a₁, hstep, hrest⟩ := h
    exact ih (fun a b' a' hb => hf a b' a' (List.mem_cons_of_mem _ hb)) (hmeets.2 a₁ hstep)
      (hf a b a₁ List.mem_cons_self ha hmeets.1 hstep) hrest

end Loops

/-- The steps of a run: an action of the user, or a push body. -/
inductive Act where
  | ui (u : UIAction)
  | makePushBody (src : Int) (t : UpdateType)

def Act.step : Act → World → Option World
  | .ui u, w => uiStep u w
  | .makePushBody src t, w => some (Statements.step (.makePushBody src t) w)

/-- The states of the runs whose steps meet a condition. -/
def Reaches (meets : Act → World → Prop) : World → World → Prop :=
  Relation.ReflTransGen (fun w w' => ∃ a, meets a w ∧ a.step w = some w')

/-- The steps of a list, one after the other. -/
def runActs (acts : List Act) (w : World) : Option World := acts.foldlM (fun w a => a.step w) w

theorem reaches_of_runActs {meets : Act → World → Prop} {acts : List Act} {w w' : World}
    (hmeets : ∀ a ∈ acts, ∀ x, meets a x) (h : runActs acts w = some w') : Reaches meets w w' := by
  induction acts generalizing w with
  | nil =>
    simp only [runActs, List.foldlM_nil, Option.pure_def, Option.some.injEq] at h
    rw [h]
    exact .refl
  | cons a acts ih =>
    simp only [runActs, List.foldlM_cons, Option.bind_eq_bind, Option.bind_eq_some_iff] at h
    obtain ⟨x, hstep, hrest⟩ := h
    refine .head ⟨a, hmeets a List.mem_cons_self w, hstep⟩ (ih ?_ hrest)
    intro a' ha'
    exact hmeets a' (List.mem_cons_of_mem _ ha')

/-- A state without rows. -/
def noRows : World :=
  World.start .empty .empty ⟨[], List.nodup_nil⟩ (fun _ => ⟨true, true, none⟩)

/-- An object of source 7. -/
def contact (vars : List (String × Option String)) : RhomObject :=
  ⟨7, false, ("object", some "x") :: vars⟩

end Rhodes.Cells
