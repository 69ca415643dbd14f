import Rhodes.Cells
import Rhodes.PageMerge

/-!
An insert entry of a page as an upsert of its row. The INSERT may fail on the primary key as
well as on the unique index, and the UPDATE made then looks at the index alone: where the id is
used by a row of another source, object or attribute, the value of the entry is not stored.
-/
namespace Rhodes.Upsert

open Database Json Statements Interleaving Source ServerChanges Rhom Threads PullRules KeyedRows
  PageEdits PageMerge

/-- One row has the source, object and attribute of the entry, with its id and value, and the
rows of the others are what they were. -/
structure Upserted (T T' : ObjectTable) (row : ObjectValue) : Prop where
  one : T'.rows.filter (fun r => triple r = triple row) = [row]
  others : ∀ r, triple r ≠ triple row → (r ∈ T'.rows ↔ r ∈ T.rows)

/-- The id is not used by a row of another source, object or attribute. -/
def OwnId (T : ObjectTable) (row : ObjectValue) : Prop :=
  ∀ r ∈ T.rows, r.id = row.id → triple r = triple row

instance (T : ObjectTable) (row : ObjectValue) : Decidable (OwnId T row) :=
  inferInstanceAs (Decidable (∀ r ∈ T.rows, _))

/-- What the INSERT and the UPDATE of an entry make of the table. -/
def afterEntry (T : ObjectTable) (row : ObjectValue) : ObjectTable :=
  (T.insert row).getD ((T.update
    (fun s => AtKey row.sourceId row.object row.attrib s.object s.attrib s.sourceId)
    (assignRow row)).getD T)

theorem afterEntry_put {T : ObjectTable} {row : ObjectValue} (hrow : Keyed row)
    (hown : OwnId T row) : (afterEntry T row).rows = put triple T.rows row := by
  unfold afterEntry
  cases hinsert : T.insert row with
  | some T' => exact insert_put hrow hinsert
  | none => exact update_put hrow hinsert hown

/-- A row is in a table once. -/
theorem filter_triple_eq {T : ObjectTable} {row : ObjectValue} (hmem : row ∈ T.rows)
    (hone : ∀ r ∈ T.rows, triple r = triple row → r = row) :
    T.rows.filter (fun r => triple r = triple row) = [row] := by
  have hall : ∀ r ∈ T.rows.filter (fun r => triple r = triple row), r = row := by
    intro r hr
    obtain ⟨hr, hkey⟩ := List.mem_filter.mp hr
    exact hone r hr (of_decide_eq_true hkey)
  have hthere : row ∈ T.rows.filter (fun r => triple r = triple row) :=
    List.mem_filter.mpr ⟨hmem, decide_eq_true rfl⟩
  have hapart := T.keys.filter (fun r => triple r = triple row)
  revert hall hthere hapart
  generalize T.rows.filter (fun r => triple r = triple row) = found
  intro hall hthere hapart
  match found with
  | [] => cases hthere
  | [r] => rw [hall r (by simp)]
  | r :: s :: rest =>
    have hr := hall r (by simp)
    have hs := hall s (by simp)
    exact absurd (Or.inl (by rw [hr, hs])) ((List.pairwise_cons.mp hapart).1 s (by simp))

/-- The entry is upserted just where its id is its own. -/
theorem upserted_iff {T : ObjectTable} {row : ObjectValue} (hrow : Keyed row) :
    Upserted T (afterEntry T row) row ↔ OwnId T row := by
  constructor
  · intro h r hr hid
    by_contra hne
    have hthere : row ∈ (afterEntry T row).rows := by
      have hmem : row ∈ (afterEntry T row).rows.filter (fun r => triple r = triple row) := by
        rw [h.one]
        exact List.mem_singleton_self row
      exact (List.mem_filter.mp hmem).1
    have hkept := (h.others r hne).mpr hr
    exact hne (by rw [Cells.eq_of_id hkept hthere hid])
  · intro hown
    have hmem : ∀ s, s ∈ (afterEntry T row).rows ↔
        s = row ∨ (s ∈ T.rows ∧ triple s ≠ triple row) := by
      intro s
      rw [afterEntry_put hrow hown, mem_put]
    refine ⟨filter_triple_eq ((hmem row).mpr (Or.inl rfl)) ?_, ?_⟩
    · intro r hr hkey
      exact ((hmem r).mp hr).resolve_right (fun h => h.2 hkey)
    · intro r hne
      rw [hmem]
      constructor
      · rintro (rfl | ⟨hr, -⟩)
        · exact absurd rfl hne
        · exact hr
      · exact fun hr => Or.inr ⟨hr, hne⟩

/-- The row that an insert entry stores. -/
def valueRow (nSrcID : Int) (object attrib : String) (value : CValue) : ObjectValue :=
  ⟨value.id.toInt64, nSrcID, some attrib, some object, some value.value, some value.attrType⟩

/-- Inside its transaction the sync thread is alone with the table. -/
def Locked (T : ObjectTable) (w : World) : Prop := w.insideTransaction = true ∧ w.objects = T

theorem locked_frame {T : ObjectTable} {w w' : World} (h : Locked T w) (hframe : Frame w w') :
    Locked T w' :=
  ⟨hframe.insideTransaction.trans h.1, (hframe.locked h.1).2.trans h.2⟩

section Runs

variable {ok : Move Stmt World UIAction → Prop}

theorem locked_stable (T : ObjectTable) : (against ok noGoal).Stable (Locked T) :=
  stable_of_frame (fun _ _ h hframe => locked_frame h hframe)

/-- A statement on neither table nor transaction. -/
theorem locked_execute {T : ObjectTable} {i : Stmt}
    (hi : ∀ w, (step i w).objects = w.objects ∧
      (step i w).insideTransaction = w.insideTransaction) :
    (against ok noGoal).Triple (Locked T) (execute i) (fun _ => Locked T) := by
  refine execute_bind (locked_stable T) (fun w h _ => ⟨trivial, ?_⟩)
    (Discipline.Triple.ret (locked_stable T) (fun _ h => h))
  exact ⟨(hi w).2.trans h.1, (hi w).1.trans h.2⟩

/-- The INSERT of an entry. -/
theorem locked_insert {T : ObjectTable} {row : ObjectValue} {w : World} (h : Locked T w) :
    if (w.objects.insert row).isNone then
      Locked T (step (.insertObject row) w) ∧ T.insert row = none
    else Locked (afterEntry T row) (step (.insertObject row) w) := by
  obtain ⟨hin, rfl⟩ := h
  cases hinsert : w.objects.insert row with
  | none =>
    rw [Option.isNone_none, if_pos rfl]
    exact ⟨⟨hin, by rw [step, hinsert, Option.getD_none]⟩, rfl⟩
  | some T' =>
    rw [Option.isNone_some, if_neg Bool.false_ne_true]
    exact ⟨hin, by rw [step, afterEntry, hinsert, Option.getD_some, Option.getD_some]⟩

theorem insertEntry_stores (T : ObjectTable) (nSrcID : Int) (object attrib : String)
    (value : CValue) :
    (against ok noGoal).Triple (Locked T) (insertEntry nSrcID (some object) attrib value)
      (fun _ => Locked (afterEntry T (valueRow nSrcID object attrib value))) := by
  refine Discipline.Triple.perform_bind (fun nonUnique w => if nonUnique then
      Locked T w ∧ T.insert (valueRow nSrcID object attrib value) = none
    else Locked (afterEntry T (valueRow nSrcID object attrib value)) w) (locked_stable T)
    (fun w h _ => ⟨trivial, locked_insert h⟩) ?_
  intro nonUnique
  refine Discipline.Triple.bind (Q := fun _ => Locked (afterEntry T _)) ?_
    (fun _ => locked_execute (fun _ => ⟨rfl, rfl⟩))
  cases nonUnique with
  | false => exact Discipline.Triple.ret (locked_stable _) (fun _ h => h)
  | true =>
    have hfailed : (against ok noGoal).Stable (fun w =>
        Locked T w ∧ T.insert (valueRow nSrcID object attrib value) = none) :=
      stable_of_frame (fun _ _ h hframe => ⟨locked_frame h.1 hframe, h.2⟩)
    refine execute_bind hfailed ?_ (Discipline.Triple.bind
      (locked_execute (fun _ => ⟨rfl, rfl⟩)) (fun _ => locked_execute (fun _ => ⟨rfl, rfl⟩)))
    rintro w ⟨⟨hin, rfl⟩, hinsert⟩ _
    refine ⟨trivial, hin, ?_⟩
    rw [afterEntry, hinsert, Option.getD_none]
    rfl

end Runs

/-- In every run of an insert entry inside the transaction, whatever the UI thread does, the
entry is upserted just where its id is not used by a row of another source, object or
attribute. -/
theorem insert_entry_upserts_iff (nSrcID : Int) (object attrib : String) (value : CValue)
    {w w' : World} {ms : List (Move Stmt World UIAction)} (hlocked : w.insideTransaction = true)
    (hrun : Run step uiStep (insertEntry nSrcID (some object) attrib value) w ms (.ret ()) w') :
    Upserted w.objects w'.objects (valueRow nSrcID object attrib value) ↔
      OwnId w.objects (valueRow nSrcID object attrib value) := by
  have hstores : (against (fun _ => True) noGoal).wp
      (insertEntry nSrcID (some object) attrib value)
      (fun _ => Locked (afterEntry w.objects (valueRow nSrcID object attrib value))) w :=
    insertEntry_stores w.objects nSrcID object attrib value w ⟨hlocked, rfl⟩
  obtain ⟨-, hend⟩ := Discipline.wp_run hrun hstores (fun _ _ => trivial)
  rw [(hend () rfl).2]
  exact upserted_iff ⟨rfl, rfl⟩

/-- The transaction of a page on the table that a save has left. -/
def pageStart : World := { sampleStart with insideTransaction := true }

/-- A new value for an attribute that is there already. -/
theorem insert_entry_upserts_iff_renamed : ∃ ms w',
    Run step uiStep (insertEntry 1 (some "o1") "name" ⟨"Bob", "", 12⟩) pageStart ms (.ret ()) w' ∧
    Upserted pageStart.objects w'.objects (valueRow 1 "o1" "name" ⟨"Bob", "", 12⟩) := by
  obtain ⟨ms, hrun, -⟩ := run_exec step uiStep
    (insertEntry 1 (some "o1") "name" ⟨"Bob", "", 12⟩) pageStart
  exact ⟨ms, _, hrun, (insert_entry_upserts_iff 1 "o1" "name" ⟨"Bob", "", 12⟩ rfl hrun).mpr
    (by decide)⟩

/-- An entry for a new object under the id that save has given to the name of another one: the
value is not stored. -/
theorem used_id_drops_value :
    (∃ db, save ⟨1, false, [("object", some "o1"), ("name", some "Ann"), ("age", some "4")]⟩
      ⟨.empty, .empty, 9⟩ = some db ∧ db.objects = pageStart.objects) ∧
    ∃ ms w',
      Run step uiStep (insertEntry 1 (some "o2") "name" ⟨"Cid", "", 10⟩) pageStart ms (.ret ()) w' ∧
      w'.objects.rows = sampleTable.rows ∧
      ¬Upserted pageStart.objects w'.objects (valueRow 1 "o2" "name" ⟨"Cid", "", 10⟩) := by
  obtain ⟨ms, hrun, -⟩ := run_exec step uiStep
    (insertEntry 1 (some "o2") "name" ⟨"Cid", "", 10⟩) pageStart
  refine ⟨⟨_, rfl, by rfl⟩, ms, _, hrun, by decide, ?_⟩
  intro h
  exact absurd h.one (by decide)

end Rhodes.Upsert
