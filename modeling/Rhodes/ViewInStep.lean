import Rhodes.Cells

/-!
The view and the queue in step: an unsent row of an attribute is the only one, and its cell in
object_values shows its value under its main_id. The edits of save and update_attributes keep
this because they write both tables; destroy and delete_all take whole objects out of both. ask
takes the question of the first ask row out of the view, also where the unsent row of that
question has another type by then; this is the one step that has to be excluded.
-/
namespace Rhodes.ViewInStep

open Database Statements Rhom EditOrder Cells

/-- What holds of the two tables. -/
structure InStep (changed : ChangedTable) (objects : ObjectTable) : Prop where
  unique : Unique objects
  single : ∀ r ∈ changed.rows, ∀ s ∈ changed.rows, r.sent = 0 → s.sent = 0 → r.attrib.isSome →
    SameAttrib r s → r = s
  shown : ∀ r ∈ changed.rows, r.sent = 0 → ∀ attrib, r.attrib = some attrib →
    ∃ o ∈ objects.rows, At r.sourceId r.object attrib o ∧ o.value = r.value ∧
      (r.updateType ≠ .ask → o.id = r.mainId)

/-- The row is the only unsent one of its attribute, and one row of object_values shows it. -/
def Mirrored (w : World) (r : ChangedValue) (attrib : String) : Prop :=
  (∀ s ∈ w.changed.rows, s.sent = 0 → SameAttrib r s → s = r) ∧
  ∃ o ∈ w.objects.rows, (∀ o' ∈ w.objects.rows, At r.sourceId r.object attrib o' ↔ o' = o) ∧
    o.value = r.value ∧ (r.updateType ≠ .ask → o.id = r.mainId)

def TablesAgree (w : World) : Prop :=
  ∀ r ∈ w.changed.rows, r.sent = 0 → ∀ attrib, r.attrib = some attrib → Mirrored w r attrib

/-- The first ask row of the source is about an object whose question has no unsent row of
another type. -/
def QuestionIsAsk (changed : ChangedTable) (src : Int) : Prop :=
  ∀ q, firstAsk changed src = some q → ∀ r ∈ changed.rows,
    Unsent src q.object "question" r → r.updateType = .ask

/-- The statements of the step bind their parameters. -/
def Parameterised : Act → Bool
  | .ui (.edit _) => false
  | _ => true

/-- The condition on a step. -/
def AskMeets : Act → World → Prop
  | .ui (.ask src _ _), w => QuestionIsAsk w.changed src
  | a, _ => Parameterised a = true

section Tables

variable {changed changed' : ChangedTable} {objects objects' : ObjectTable}

theorem InStep.tablesAgree {w : World} (h : InStep w.changed w.objects) : TablesAgree w := by
  intro r hr hsent attrib hattr
  obtain ⟨o, ho, hat, hvalue, hid⟩ := h.shown r hr hsent attrib hattr
  refine ⟨?_, o, ho, ?_, hvalue, hid⟩
  · intro s hs hssent hsame
    exact (h.single r hr s hs hsent hssent (by simp [hattr]) hsame).symm
  · intro o' ho'
    constructor
    · intro hat'
      exact h.unique _ _ _ o' ho' o ho hat' hat
    · intro heq
      rwa [heq]

theorem InStep.shows {db : Db} (h : InStep db.changed db.objects) : Shows db := by
  intro r hr hsent attrib hattr
  obtain ⟨o, ho, hat, -⟩ := h.shown r hr hsent attrib hattr
  exact ⟨o, ho, hat⟩

/-- Rows may go from both tables, as long as what is unsent still is shown still. -/
theorem InStep.shrink (h : InStep changed objects) (hrows : ∀ r ∈ changed'.rows, r ∈ changed.rows)
    (hunique : Unique objects')
    (hshown : ∀ r ∈ changed'.rows, r.sent = 0 → ∀ attrib, r.attrib = some attrib →
      ∀ o ∈ objects.rows, At r.sourceId r.object attrib o → o ∈ objects'.rows) :
    InStep changed' objects' where
  unique := hunique
  single := fun r hr s hs => h.single r (hrows r hr) s (hrows s hs)
  shown := by
    intro r hr hsent attrib hattr
    obtain ⟨o, ho, hat, hvalue⟩ := h.shown r (hrows r hr) hsent attrib hattr
    exact ⟨o, hshown r hr hsent attrib hattr o ho hat, hat, hvalue⟩

/-- A row without an attribute may come in. -/
theorem InStep.insert_null (h : InStep changed objects) (src : Int)
    (obj value attribType : Option String)
    (t : UpdateType) (mainId : Int64) :
    InStep (changed.insert (queued src obj none value attribType t mainId)) objects := by
  refine ⟨h.unique, ?_, ?_⟩
  · intro r hr s hs hrsent hssent hattr hsame
    rcases (ChangedTable.mem_insert _ _ _).mp hr with hr | rfl
    · rcases (ChangedTable.mem_insert _ _ _).mp hs with hs | rfl
      · exact h.single r hr s hs hrsent hssent hattr hsame
      · rw [hsame.2.2] at hattr
        exact absurd hattr (by simp [queued])
    · exact absurd hattr (by simp [queued])
  · intro r hr hsent attrib hattr
    rcases (ChangedTable.mem_insert _ _ _).mp hr with hr | rfl
    · exact h.shown r hr hsent attrib hattr
    · exact absurd hattr (by simp [queued])

/-- The unsent rows of a cell are replaced by the row that the cell shows now. -/
theorem InStep.queue (h : InStep changed objects) {src : Int} {obj : Option String}
    {attrib value : String} {attribType : Option String} {t : UpdateType} {id mainId : Int64}
    (hw : Wrote objects objects' src obj attrib value id) (hid : t ≠ .ask → id = mainId) :
    InStep ((changed.delete (Unsent src obj attrib)).insert
      (queued src obj (some attrib) (some value) attribType t mainId)) objects' := by
  have hmem : ∀ r ∈ ((changed.delete (Unsent src obj attrib)).insert
      (queued src obj (some attrib) (some value) attribType t mainId)).rows,
      (r ∈ changed.rows ∧ ¬Unsent src obj attrib r) ∨
        r.sourceId = src ∧ r.object = obj ∧ r.attrib = some attrib ∧ r.value = some value ∧
          r.updateType = t ∧ r.mainId = mainId ∧ r.stamp = changed.next := by
    intro r hr
    rcases (ChangedTable.mem_insert _ _ _).mp hr with hr | rfl
    · exact .inl ((ChangedTable.mem_delete _ _ _).mp hr)
    · exact .inr ⟨rfl, rfl, rfl, rfl, rfl, rfl, rfl⟩
  refine ⟨h.unique.wrote hw, ?_, ?_⟩
  · intro r hr s hs hrsent hssent hattr hsame
    rcases hmem r hr with ⟨hrold, hrnot⟩ | ⟨hrsrc, hrobj, hrattr, -, -, -, hrstamp⟩
    · rcases hmem s hs with ⟨hsold, -⟩ | ⟨hssrc, hsobj, hsattr, -⟩
      · exact h.single r hrold s hsold hrsent hssent hattr hsame
      · refine absurd ⟨?_, ?_, ?_, hrsent⟩ hrnot
        · rw [hsame.2.1, hsobj]
        · rw [hsame.2.2, hsattr]
        · rw [hsame.1, hssrc]
    · rcases hmem s hs with ⟨hsold, hsnot⟩ | ⟨-, -, -, -, -, -, hsstamp⟩
      · refine absurd ⟨?_, ?_, ?_, hssent⟩ hsnot
        · rw [← hsame.2.1, hrobj]
        · rw [← hsame.2.2, hrattr]
        · rw [← hsame.1, hrsrc]
      · exact ChangedTable.eq_of_stamp _ hr hs (hrstamp.trans hsstamp.symm)
  · intro r hr hsent attrib' hattr
    rcases hmem r hr with ⟨hrold, hrnot⟩ | ⟨hrsrc, hrobj, hrattr, hrvalue, hrtype, hrid, -⟩
    · obtain ⟨o, ho, hat, hvalue⟩ := h.shown r hrold hsent attrib' hattr
      have hcell : ¬At src obj attrib o := by
        intro hcell
        refine hrnot ⟨?_, ?_, ?_, hsent⟩
        · rw [← hat.1, hcell.1]
        · rw [hattr, ← hat.2.1, hcell.2.1]
        · rw [← hat.2.2, hcell.2.2]
      exact ⟨o, (hw.other o hcell).mpr ho, hat, hvalue⟩
    · rw [hrattr, Option.some.injEq] at hattr
      subst hattr
      obtain ⟨o, ho, hat⟩ := hw.shown
      obtain ⟨hvalue, hoid⟩ := hw.cell o ho hat
      rw [hrsrc, hrobj, hrvalue, hrtype, hrid]
      exact ⟨o, ho, hat, hvalue, fun hne => hoid.trans (hid hne)⟩

theorem InStep.edited {src : Int} {obj : Option String} {attrib value : String} {t : UpdateType}
    {db db' : Db} (h : InStep db.changed db.objects)
    (hedit : Edited src obj attrib value t db db') : InStep db'.changed db'.objects := by
  obtain ⟨attribType, id, hw, hchanged⟩ := hedit.queued
  rw [hchanged]
  exact h.queue hw (fun _ => rfl)

end Tables

section Transactions

variable {db db' : Db}

theorem save_inStep (o : RhomObject) (hdb : InStep db.changed db.objects)
    (h : save o db = some db') : InStep db'.changed db'.objects := by
  refine foldlM_keeps (P := fun db : Db => InStep db.changed db.objects) ?_ _ hdb h
  intro a var a' ha hstep
  rcases saveAttrib_cases ha.shows (ha.unique _ _ _) hstep with ⟨-, rfl⟩ | ⟨-, hedit⟩
  · exact ha
  · exact ha.edited hedit

theorem updateAttributes_inStep (o : RhomObject) (attrs : List (String × Option String))
    (hdb : InStep db.changed db.objects) (h : updateAttributes o attrs db = some db') :
    InStep db'.changed db'.objects := by
  obtain ⟨st, hst, rfl⟩ := Option.map_eq_some_iff.mp h
  refine foldlM_keeps (P := fun st : UpdateState => InStep st.db.changed st.db.objects) ?_ _ hdb hst
  intro a attr a' ha hstep
  rcases updateAttrib_cases (ha.unique _ _ _) hstep with ⟨-, rfl⟩ | ⟨-, -, hedit⟩
  · exact ha
  · exact ha.edited hedit

/-- An object goes from the view, and its unsent rows go from the queue. -/
theorem InStep.drop (hdb : InStep db.changed db.objects) (obj : Option String)
    (p : ChangedValue → Prop) [DecidablePred p]
    (hp : ∀ r, r.object = obj → r.sent = 0 → p r) :
    InStep (db.changed.delete p) (db.objects.delete (fun o => o.object = obj)) := by
  refine hdb.shrink (fun r hr => ((ChangedTable.mem_delete _ _ _).mp hr).1) (hdb.unique.delete _) ?_
  intro r hr hsent attrib hattr o ho hat
  refine (ObjectTable.mem_delete _ _ _).mpr ⟨ho, ?_⟩
  intro hobj
  rw [hat.1] at hobj
  exact ((ChangedTable.mem_delete _ _ _).mp hr).2 (hp r hobj hsent)

theorem destroy_inStep (o : RhomObject) (hdb : InStep db.changed db.objects)
    (h : destroy o db = some db') : InStep db'.changed db'.objects := by
  unfold destroy at h
  split at h
  · simp only [Option.some.injEq] at h
    rwa [← h]
  · rename_i obj hobj
    have hless := hdb.drop (some obj) (fun r => r.object = some obj ∧ r.sent = 0)
      (fun r hobj hsent => ⟨hobj, hsent⟩)
    simp only at h
    split at h
    · simp only [Option.some.injEq] at h
      rw [← h]
      exact hless
    · simp only [Option.some.injEq] at h
      rw [← h]
      exact hless.insert_null _ _ _ _ _ _

theorem deleteObjectRows_inStep (objs : List (Option String)) (hdb : InStep db.changed db.objects) :
    InStep (objs.foldl deleteObjectRows db).changed (objs.foldl deleteObjectRows db).objects := by
  induction objs generalizing db with
  | nil => exact hdb
  | cons obj rest ih => exact ih (hdb.drop obj (fun r => r.object = obj) (fun r hobj _ => hobj))

theorem deleteAll_inStep (src : Int) (conditions : Option (List (String × String)))
    (hdb : InStep db.changed db.objects) (h : deleteAll src conditions db = some db') :
    InStep db'.changed db'.objects := by
  unfold deleteAll at h
  split at h
  · simp only [Option.some.injEq] at h
    rw [← h]
    exact deleteObjectRows_inStep _ hdb
  · simp only [Option.some.injEq] at h
    rw [← h]
    refine hdb.shrink (fun r hr => ((ChangedTable.mem_delete _ _ _).mp hr).1)
      (hdb.unique.delete _) ?_
    intro r hr hsent attrib hattr o ho hat
    refine (ObjectTable.mem_delete _ _ _).mpr ⟨ho, ?_⟩
    rw [hat.2.2]
    exact ((ChangedTable.mem_delete _ _ _).mp hr).2

/-- A question that is shown already makes the INSERT fail. -/
theorem not_at_of_insert {objects objects' : ObjectTable} {row : ObjectValue} {src : Int}
    {obj attrib : String} (hrow : At src (some obj) attrib row)
    (h : objects.insert row = some objects') : ∀ o ∈ objects.rows, ¬At src (some obj) attrib o := by
  unfold ObjectTable.insert at h
  split at h
  · exact absurd h (by simp)
  · rename_i hfree
    intro o ho hat
    refine hfree ⟨o, ho, .inr ⟨⟨?_, ?_⟩, ⟨?_, ?_⟩, ?_⟩⟩
    · rw [hat.1, Option.isSome_some]
    · rw [hat.1, hrow.1]
    · rw [hat.2.1, Option.isSome_some]
    · rw [hat.2.1, hrow.2.1]
    · rw [hat.2.2, hrow.2.2]

/-- The new question comes in under an object that has none. -/
theorem InStep.question {changed : ChangedTable} {objects objects' : ObjectTable}
    (h : InStep changed objects) {src : Int} {object value : String} {id : Int64}
    (hobjects : objects.insert ⟨id, src, some "question", some object, some value, none⟩ =
      some objects') :
    InStep (changed.insert (queued src (some object) (some "question") (some value) none .ask 0))
      objects' := by
  have hnone : ∀ o ∈ objects.rows, ¬At src (some object) "question" o :=
    not_at_of_insert ⟨rfl, rfl, rfl⟩ hobjects
  have hqueue : InStep ((changed.delete (Unsent src (some object) "question")).insert
      (queued src (some object) (some "question") (some value) none .ask 0)) objects' :=
    h.queue (insert_wrote hnone hobjects) (fun hne => absurd rfl hne)
  have hshows : Shows ⟨changed, objects, 0⟩ := InStep.shows h
  have hsame : changed.delete (Unsent src (some object) "question") = changed :=
    (delete_unsent_of_none hshows hnone).2
  rwa [hsame] at hqueue

/-- The unsent ask rows go, and the question of the first ask row goes from the view. -/
theorem InStep.unasked (hdb : InStep db.changed db.objects) {src : Int} {q : ChangedValue}
    (hask : QuestionIsAsk db.changed src) (hq : firstAsk db.changed src = some q) :
    InStep (db.changed.delete
        (fun r => r.sourceId = src ∧ r.updateType = UpdateType.ask ∧ r.sent = 0))
      (db.objects.delete
        (fun r => r.object = q.object ∧ r.attrib = some "question" ∧ r.sourceId = src)) := by
  refine hdb.shrink (fun r hr => ((ChangedTable.mem_delete _ _ _).mp hr).1) (hdb.unique.delete _) ?_
  intro r hr hsent attrib hattr o ho hat
  refine (ObjectTable.mem_delete _ _ _).mpr ⟨ho, ?_⟩
  intro hquestion
  obtain ⟨hobj, hquest, hsrc⟩ := hquestion
  obtain ⟨hrold, hrnot⟩ := (ChangedTable.mem_delete _ _ _).mp hr
  rw [hat.2.2] at hsrc
  have hunsent : Unsent src q.object "question" r := by
    refine ⟨?_, ?_, hsrc, hsent⟩
    · rw [← hat.1, hobj]
    · rw [hattr, ← hat.2.1, hquest]
  exact hrnot ⟨hsrc, hask q hq r hrold hunsent, hsent⟩

theorem ask_inStep (src : Int) (object question : String) (hask : QuestionIsAsk db.changed src)
    (hdb : InStep db.changed db.objects) (h : ask src object question db = some db') :
    InStep db'.changed db'.objects := by
  unfold ask at h
  obtain ⟨objects, hobjects, rfl⟩ := Option.map_eq_some_iff.mp h
  refine InStep.question ?_ hobjects
  split
  · exact hdb
  · rename_i q hq
    exact hdb.unasked hask hq

theorem transaction_inStep {u : UIAction} {f : Db → Option Db} (hf : u.transaction = some f)
    {w : World} (hmeets : AskMeets (.ui u) w) (hw : w.changed = db.changed)
    (hdb : InStep db.changed db.objects) (h : f db = some db') :
    InStep db'.changed db'.objects := by
  cases u with
  | edit e => cases hmeets
  | save o =>
    cases hf
    exact save_inStep o hdb h
  | updateAttributes o attrs =>
    cases hf
    exact updateAttributes_inStep o attrs hdb h
  | destroy o =>
    cases hf
    exact destroy_inStep o hdb h
  | deleteAll src conditions =>
    cases hf
    exact deleteAll_inStep src conditions hdb h
  | ask src object question =>
    cases hf
    have hask : QuestionIsAsk w.changed src := hmeets
    rw [hw] at hask
    exact ask_inStep src object question hask hdb h
  | stopSync => cases hf
  | stopSyncByUser => cases hf
  | exitSync => cases hf
  | setUnlockDB b => cases hf

end Transactions

section Runs

theorem makePushBody_inStep (src : Int) (t : UpdateType) {w : World}
    (h : InStep w.changed w.objects) :
    InStep (step (.makePushBody src t) w).changed (step (.makePushBody src t) w).objects := by
  -- a row that is unsent still is one that was there
  have hold : ∀ r ∈ (step (.makePushBody src t) w).changed.rows, r.sent = 0 →
      r ∈ w.changed.rows := by
    intro r hr hsent
    rw [makePushBody_changed] at hr
    obtain ⟨s, hs, ⟨-, rfl⟩ | ⟨-, rfl⟩⟩ := ChangedTable.mem_setSent hr
    · exact hs
    · exact absurd hsent (by simp)
  refine ⟨h.unique, ?_, ?_⟩
  · intro r hr s hs hrsent hssent
    exact h.single r (hold r hr hrsent) s (hold s hs hssent) hrsent hssent
  · intro r hr hsent
    exact h.shown r (hold r hr hsent) hsent

theorem act_inStep {a : Act} {w w' : World} (hmeets : AskMeets a w) (hstep : a.step w = some w')
    (h : InStep w.changed w.objects) : InStep w'.changed w'.objects := by
  cases a with
  | makePushBody src t =>
    simp only [Act.step, Option.some.injEq] at hstep
    rw [← hstep]
    exact makePushBody_inStep src t h
  | ui u =>
    have hui : uiStep u w = some w' := hstep
    cases hf : u.transaction with
    | none =>
      cases u
      case edit e => cases hmeets
      all_goals
        simp only [uiStep, UIAction.transaction, Option.some.injEq, reduceCtorEq] at hui hf
      all_goals
        subst hui
        exact h
    | some f =>
      rw [uiStep_transaction hf] at hui
      obtain ⟨-, rfl | ⟨db, hdb, rfl⟩⟩ := transaction_cases hui
      · exact h
      · exact transaction_inStep hf hmeets rfl h hdb

/-- In every run from tables that are in step, in which ask is called only where the question
of the first ask row has no unsent row of another type, the two tables agree in every state. -/
theorem view_and_queue_in_step {w w' : World} (h : InStep w.changed w.objects)
    (hrun : Reaches AskMeets w w') : TablesAgree w' := by
  refine InStep.tablesAgree ?_
  induction hrun with
  | refl => exact h
  | tail _ hstep ih =>
    obtain ⟨a, hmeets, ha⟩ := hstep
    exact act_inStep hmeets ha ih

theorem noRows_inStep : InStep noRows.changed noRows.objects := by
  refine ⟨?_, ?_, ?_⟩
  · intro src obj attrib o ho
    cases ho
  · intro r hr
    cases hr
  · intro r hr
    cases hr

theorem view_and_queue_in_step_question : ∃ w', TablesAgree w' ∧ w'.changed.rows.length = 1 := by
  have hmeets : AskMeets (.ui (.ask 7 "x" "where")) noRows := by
    intro q hq
    cases hq
  obtain ⟨w', hw'⟩ : ∃ w', (Act.ui (.ask 7 "x" "where")).step noRows = some w' :=
    Option.isSome_iff_exists.mp (by decide +kernel)
  have hlength : ((Act.ui (.ask 7 "x" "where")).step noRows).map
      (fun w => w.changed.rows.length) = some 1 := by decide +kernel
  rw [hw', Option.map_some, Option.some.injEq] at hlength
  exact ⟨w', view_and_queue_in_step noRows_inStep (.single ⟨_, hmeets, hw'⟩), hlength⟩

/-- The question of a contact becomes an update row, because the first unsent row of the contact
is one by then, and the next ask takes it out of the view. -/
def questionEdits : List Act :=
  [.ui (.ask 7 "x" "where"),
   .ui (.save (contact [("foo", some "1")])),
   .ui (.updateAttributes (contact []) [("bar", some "2")]),
   .ui (.save (contact [("question", some "why")])),
   .ui (.updateAttributes (contact []) [("question", some "who")]),
   .ui (.ask 7 "y" "when")]

theorem ask_hides_unsent_question :
    ∃ w', Reaches (fun a _ => Parameterised a = true) noRows w' ∧ ¬TablesAgree w' := by
  have hhidden : (runActs questionEdits noRows).any (fun w => decide (∃ r ∈ w.changed.rows,
      r.sent = 0 ∧ r.attrib = some "question" ∧
        ∀ o ∈ w.objects.rows, ¬At r.sourceId r.object "question" o)) = true := by
    decide +kernel
  obtain ⟨w', hw', hdecide⟩ := (Option.any_eq_true _ _).mp hhidden
  obtain ⟨r, hr, hsent, hattr, hnone⟩ := of_decide_eq_true hdecide
  have hparams : ∀ a ∈ questionEdits, ∀ x : World, Parameterised a = true :=
    fun a ha _ => List.all_eq_true.mp (by decide : questionEdits.all Parameterised = true) a ha
  refine ⟨w', reaches_of_runActs hparams hw', ?_⟩
  intro hagree
  obtain ⟨-, o, ho, hat, -⟩ := hagree r hr hsent "question" hattr
  exact hnone o ho ((hat o ho).mpr rfl)

end Runs

end Rhodes.ViewInStep
