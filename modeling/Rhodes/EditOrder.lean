import Rhodes.PushRound

/-!
The order of the records in a body. makePushBody selects ORDER BY sent DESC, and
Rhom replaces only rows that no body has had yet, so after failed pushes several
rows of one attribute are queued. `Queued` relates sent, the insertion number and
the last body of a source and type: a row at sent=0 came in after that body, a row
at sent=1 was in it. So the rows are selected in the order of their insertion; and
because an unsent row of an attribute has its row in object_values, Rhom finds it
there and replaces it. A condition with the word NULL finds no row: an object with
this id is queued anew by every save.
-/
namespace Rhodes.EditOrder

open Database Statements Queue Interleaving Source ClientChanges Rhom Threads PushRound

/-- The attribute an edit is about. -/
def SameAttrib (r s : ChangedValue) : Prop :=
  r.sourceId = s.sourceId ∧ r.object = s.object ∧ r.attrib = s.attrib

instance (r s : ChangedValue) : Decidable (SameAttrib r s) := inferInstanceAs (Decidable (_ ∧ _))

/-- The attribute of the row is shown by a row of object_values. -/
def Shown (objects : ObjectTable) (r : ChangedValue) : Prop :=
  ∃ o ∈ objects.rows, o.object = r.object ∧ o.attrib = r.attrib ∧ o.sourceId = r.sourceId

/-- What holds of the tables, given the insertion number reached at the last body of
each source and type. -/
structure Queued (builds : Int → UpdateType → Nat) (changed : ChangedTable)
    (objects : ObjectTable) : Prop where
  nonneg : ∀ r ∈ changed.rows, 0 ≤ r.sent
  later : ∀ r ∈ changed.rows, r.sent = 0 → builds r.sourceId r.updateType ≤ r.stamp
  built : ∀ r ∈ changed.rows, r.sent = 1 → r.stamp < builds r.sourceId r.updateType
  bound : ∀ src t, builds src t ≤ changed.next
  single : ∀ r ∈ changed.rows, ∀ s ∈ changed.rows, r.sent = 0 → s.sent = 0 → SameAttrib r s → r = s
  shown : ∀ r ∈ changed.rows, r.sent = 0 → r.attrib.isSome → Shown objects r

section Tables

variable {builds : Int → UpdateType → Nat} {changed changed' : ChangedTable}
  {objects objects' : ObjectTable}

/-- Rows may go, as long as what is left is shown still. -/
theorem Queued.shrink (h : Queued builds changed objects)
    (hrows : ∀ r ∈ changed'.rows, r ∈ changed.rows) (hnext : changed'.next = changed.next)
    (hshown : ∀ r ∈ changed'.rows, r.sent = 0 → Shown objects r → Shown objects' r) :
    Queued builds changed' objects' where
  nonneg := fun r hr => h.nonneg r (hrows r hr)
  later := fun r hr => h.later r (hrows r hr)
  built := fun r hr => h.built r (hrows r hr)
  bound := fun src t => hnext ▸ h.bound src t
  single := fun r hr s hs => h.single r (hrows r hr) s (hrows s hs)
  shown := fun r hr hsent hattr => hshown r hr hsent (h.shown r (hrows r hr) hsent hattr)

/-- Rhom queues an edit: no other unsent row is about its attribute. -/
theorem Queued.insert (h : Queued builds changed objects) {src : Int}
    {obj attrib value attribType : Option String} {t : UpdateType} {mainId : Int64}
    (hsingle : ∀ r ∈ changed.rows, r.sent = 0 →
      ¬ SameAttrib r (queued src obj attrib value attribType t mainId))
    (hshown : ∀ r, r.sent = 0 → Shown objects r → Shown objects' r)
    (hnew : attrib.isSome →
      ∃ o ∈ objects'.rows, o.object = obj ∧ o.attrib = attrib ∧ o.sourceId = src) :
    Queued builds (changed.insert (queued src obj attrib value attribType t mainId)) objects' := by
  have hmem : ∀ r ∈ (changed.insert (queued src obj attrib value attribType t mainId)).rows,
      r ∈ changed.rows ∨ r = { queued src obj attrib value attribType t mainId with
        id := ChangedTable.newId changed.rows, stamp := changed.next } :=
    fun r hr => (ChangedTable.mem_insert _ _ _).mp hr
  refine ⟨?_, ?_, ?_, fun src' t' => Nat.le_succ_of_le (h.bound src' t'), ?_, ?_⟩
  · intro r hr
    rcases hmem r hr with hold | rfl
    · exact h.nonneg r hold
    · exact le_rfl
  · intro r hr hsent
    rcases hmem r hr with hold | rfl
    · exact h.later r hold hsent
    · exact h.bound _ _
  · intro r hr hsent
    rcases hmem r hr with hold | rfl
    · exact h.built r hold hsent
    · exact absurd hsent (by simp [queued])
  · intro r hr s hs hrsent hssent hsame
    rcases hmem r hr with hr | rfl <;> rcases hmem s hs with hs | rfl
    · exact h.single r hr s hs hrsent hssent hsame
    · exact absurd hsame (hsingle r hr hrsent)
    · obtain ⟨hsrc, hobj, hattr⟩ := hsame
      exact absurd ⟨hsrc.symm, hobj.symm, hattr.symm⟩ (hsingle s hs hssent)
    · rfl
  · intro r hr hsent hattr
    rcases hmem r hr with hold | rfl
    · exact hshown r hsent (h.shown r hold hsent hattr)
    · exact hnew hattr

/-- An INSERT into object_values keeps what is shown and shows its own row. -/
theorem shown_insert {o : ObjectValue} (h : objects.insert o = some objects') :
    o ∈ objects'.rows ∧ ∀ r, Shown objects r → Shown objects' r := by
  unfold ObjectTable.insert at h
  split at h
  · cases h
  · cases h
    refine ⟨List.mem_append_right _ (List.mem_singleton.mpr rfl), ?_⟩
    rintro r ⟨q, hq, hkey⟩
    exact ⟨q, List.mem_append_left _ hq, hkey⟩

/-- So does an UPDATE of values. -/
theorem shown_setValueText {src : Int} {obj : Option String} {attrib value : String}
    (h : setValueText objects src obj attrib value = some objects') :
    ∀ r, Shown objects r → Shown objects' r := by
  unfold setValueText ObjectTable.update at h
  split at h
  · cases h
    rintro r ⟨q, hq, hkey⟩
    refine ⟨_, List.mem_map_of_mem hq, ?_⟩
    split
    · exact hkey
    · exact hkey
  · cases h

theorem objectRow_some {src : Int} {obj : Option String} {attrib : String} {row : ObjectValue}
    (h : objectRow objects src obj attrib = some row) : row ∈ objects.rows ∧ row.object = obj ∧
      row.attrib = some attrib ∧ row.sourceId = src := by
  refine ⟨List.mem_of_find?_eq_some h, ?_⟩
  simpa using List.find?_some h

/-- Without a row of object_values there is no unsent row of the attribute. -/
theorem Queued.not_unsent (h : Queued builds changed objects) {src : Int} {obj : Option String}
    {attrib : String} (hnone : objectRow objects src obj attrib = none) :
    ∀ r ∈ changed.rows, r.sent = 0 → ¬ Unsent src obj attrib r := by
  rintro r hr hsent ⟨hobj, hattr, hsrc, -⟩
  obtain ⟨o, ho, hobj', hattr', hsrc'⟩ := h.shown r hr hsent (by simp [hattr])
  have hfind := List.find?_eq_none.mp hnone o ho
  rw [hobj] at hobj'
  rw [hattr] at hattr'
  rw [hsrc] at hsrc'
  simp [hobj', hattr', hsrc'] at hfind

theorem not_sameAttrib {src : Int} {obj : Option String} {attrib : String}
    {value attribType : Option String} {t : UpdateType} {mainId : Int64} {r : ChangedValue}
    (hsent : r.sent = 0) (h : ¬ Unsent src obj attrib r) :
    ¬ SameAttrib r (queued src obj (some attrib) value attribType t mainId) :=
  fun hsame => h ⟨hsame.2.1, hsame.2.2, hsame.1, hsent⟩

/-- Rhom replaces the unsent rows of an attribute by one. -/
theorem Queued.replace (h : Queued builds changed objects) {src : Int} {obj : Option String}
    {attrib : String} {value attribType : Option String} {t : UpdateType} {mainId : Int64}
    (hshown : ∀ r, Shown objects r → Shown objects' r)
    (hnew : ∃ o ∈ objects'.rows, o.object = obj ∧ o.attrib = some attrib ∧ o.sourceId = src) :
    Queued builds ((changed.delete (Unsent src obj attrib)).insert
      (queued src obj (some attrib) value attribType t mainId)) objects' := by
  have hless : Queued builds (changed.delete (Unsent src obj attrib)) objects :=
    h.shrink (fun r hr => ((ChangedTable.mem_delete _ _ _).mp hr).1) rfl (fun _ _ _ hs => hs)
  refine hless.insert ?_ (fun r _ => hshown r) (fun _ => hnew)
  intro r hr hsent
  exact not_sameAttrib hsent ((ChangedTable.mem_delete _ _ _).mp hr).2

theorem saveAttribText_queued {src : Int} {obj : Option String} {t : UpdateType} {db db' : Db}
    {var : String × Option String}
    (hvar : methodNameReserved var.1 = false → named obj var.1 = true)
    (hdb : Queued builds db.changed db.objects)
    (h : saveAttribText src obj t db var = some db') : Queued builds db'.changed db'.objects := by
  unfold saveAttribText at h
  split at h
  · cases h
    exact hdb
  · rename_i hreserved
    have hnamed := hvar (Bool.eq_false_of_not_eq_true hreserved)
    simp only [objectRowText_of_named hnamed, deleteUnsentText_of_named hnamed,
      queuedText_of_named hnamed, shownText_of_named hnamed] at h
    cases hrow : objectRow db.objects src obj var.1 with
    | some row =>
      simp only [hrow] at h
      split at h
      · obtain ⟨objects, hobjects, rfl⟩ := Option.map_eq_some_iff.mp h
        have hshown := shown_setValueText hobjects
        obtain ⟨hmem, hkey⟩ := objectRow_some hrow
        exact hdb.replace hshown (hshown (queued src obj (some var.1) none none t 0)
          ⟨row, hmem, hkey⟩)
      · cases h
        exact hdb
    | none =>
      simp only [hrow] at h
      obtain ⟨objects, hobjects, rfl⟩ := Option.map_eq_some_iff.mp h
      obtain ⟨hnew, hshown⟩ := shown_insert hobjects
      refine hdb.insert ?_ (fun r _ => hshown r) (fun _ => ⟨_, hnew, rfl, rfl, rfl⟩)
      exact fun r hr hsent => not_sameAttrib hsent (hdb.not_unsent hrow r hr hsent)

theorem updateAttribText_queued {own : String → Option Sent} {src : Int} {obj : Option String}
    {st st' : UpdateState} {attr : String × Option String}
    (hattr : methodNameReserved (attribName attr.1) = false →
      named obj (attribName attr.1) = true) (hst : Queued builds st.db.changed st.db.objects)
    (h : updateAttribText own src obj st attr = some st') :
    Queued builds st'.db.changed st'.db.objects := by
  unfold updateAttribText at h
  simp only at h
  split at h
  · cases h
    exact hst
  · rename_i hreserved
    have hnamed := hattr (Bool.eq_false_of_not_eq_true hreserved)
    obtain ⟨oldVal, -, h⟩ := Option.bind_eq_some_iff.mp h
    simp only [objectRowText_of_named hnamed, deleteUnsentText_of_named hnamed,
      queuedText_of_named hnamed, shownText_of_named hnamed] at h
    split at h
    · split at h
      · rename_i row hrow
        obtain ⟨objects, hobjects, rfl⟩ := Option.map_eq_some_iff.mp h
        have hshown := shown_setValueText hobjects
        obtain ⟨hmem, hkey⟩ := objectRow_some hrow
        exact hst.replace hshown (hshown (queued src obj (some _) none none .update 0)
          ⟨row, hmem, hkey⟩)
      · obtain ⟨objects, hobjects, rfl⟩ := Option.map_eq_some_iff.mp h
        obtain ⟨hnew, hshown⟩ := shown_insert hobjects
        exact hst.replace hshown ⟨_, hnew, rfl, rfl, rfl⟩
    · cases h
      exact hst

theorem destroy_queued {o : RhomObject} {db db' : Db} (hdb : Queued builds db.changed db.objects)
    (h : destroy o db = some db') : Queued builds db'.changed db'.objects := by
  unfold destroy at h
  split at h
  · cases h
    exact hdb
  · rename_i obj hobj
    have hgone : ∀ r ∈ (db.changed.delete (fun r => r.object = some obj ∧ r.sent = 0)).rows,
        r.sent = 0 → r.object ≠ some obj := by
      intro r hr hsent hkey
      exact ((ChangedTable.mem_delete _ _ _).mp hr).2 ⟨hkey, hsent⟩
    -- what is unsent still is about other objects, which stay
    have hless : Queued builds (db.changed.delete (fun r => r.object = some obj ∧ r.sent = 0))
        (db.objects.delete (fun r => r.object = some obj)) := by
      apply hdb.shrink (fun r hr => ((ChangedTable.mem_delete _ _ _).mp hr).1) rfl
      rintro r hr hsent ⟨q, hq, hkey⟩
      refine ⟨q, (ObjectTable.mem_delete _ _ _).mpr ⟨hq, ?_⟩, hkey⟩
      rw [hkey.1]
      exact hgone r hr hsent
    simp only at h
    split at h
    · cases h
      exact hless
    · cases h
      refine hless.insert ?_ (fun r _ hs => hs) (fun hattr => by cases hattr)
      exact fun r hr hsent hsame => hgone r hr hsent hsame.2.1

end Tables

/-- The user makes edits that meet a condition: save, update_attributes and destroy. The engine
may be stopped and asked for a commit; no file is accepted. -/
def editsOnly (meets : Edit → Bool) : Move Stmt World UIAction → Bool
  | .own (.request (.pushFile ..)) x => !(x.net x.requests).isOK
  | .env (.edit e) _ => meets e
  | .env (.save ..) _ => false
  | .env (.updateAttributes ..) _ => false
  | .env (.destroy ..) _ => false
  | .env (.deleteAll ..) _ => false
  | .env (.ask ..) _ => false
  | _ => true

/-- Neither the object nor an attribute of an edit is the word NULL. -/
def edits : Move Stmt World UIAction → Bool := editsOnly Edit.named

def Edits (m : Move Stmt World UIAction) : Prop := edits m = true

/-- What a body has to look like: it is the text of the records of its rows, the records
of an attribute stand in the order of the edits, at most one is of an edit since the last
body of this type, and no edit that is queued still and is no blob is left out. -/
def Ordered (i : Stmt) (x : World) : Prop :=
  ∀ src t, i = .makePushBody src t →
    (pushBodyOf printUInt64 (selectPush x.changed src t)).IsText printUInt64 ∧
    (pushBodyOf printUInt64 (selectPush x.changed src t)).rows.Pairwise
      (fun r s => SameAttrib r s → r.stamp < s.stamp) ∧
    (∀ r ∈ (pushBodyOf printUInt64 (selectPush x.changed src t)).rows,
      ∀ s ∈ (pushBodyOf printUInt64 (selectPush x.changed src t)).rows, SameAttrib r s →
      x.builds src t ≤ r.stamp → x.builds src t ≤ s.stamp → r = s) ∧
    (∀ r ∈ x.changed.rows, r.sourceId = src → r.updateType = t → NonBlob r → r.sent ≤ 1 →
      r ∈ (pushBodyOf printUInt64 (selectPush x.changed src t)).rows)

def InOrder (w : World) : Prop := Queued w.builds w.changed w.objects

/-- The rows that a body selects stand in the order of their insertion already. -/
theorem selectPush_eq {w : World} (h : InOrder w) (src : Int) (t : UpdateType) :
    selectPush w.changed src t =
      w.changed.rows.filter (fun r => r.sourceId = src ∧ r.updateType = t ∧ r.sent ≤ 1) := by
  apply List.Pairwise.insertionSort_eq
  have hstamps := w.changed.stamps.filter
    (fun r => decide (r.sourceId = src ∧ r.updateType = t ∧ r.sent ≤ 1))
  apply hstamps.imp_of_mem
  intro r s hr hs hlt
  obtain ⟨hrmem, hrsel⟩ := List.mem_filter.mp hr
  obtain ⟨hsmem, hssel⟩ := List.mem_filter.mp hs
  obtain ⟨hrsrc, hrt, hrle⟩ := of_decide_eq_true hrsel
  obtain ⟨hssrc, hst, hsle⟩ := of_decide_eq_true hssel
  by_contra hgt
  have hrsent : r.sent = 0 := by
    have := h.nonneg r hrmem
    omega
  have hssent : s.sent = 1 := by omega
  have hlater := h.later r hrmem hrsent
  have hbuilt := h.built s hsmem hssent
  rw [hrsrc, hrt] at hlater
  rw [hssrc, hst] at hbuilt
  omega

theorem InOrder.ordered {w : World} (h : InOrder w) (src : Int) (t : UpdateType) :
    Ordered (.makePushBody src t) w := by
  rintro src' t' heq
  cases heq
  refine ⟨pushBodyOf_isText _ _, ?_⟩
  rw [pushBodyOf_rows, selectPush_eq h]
  refine ⟨?_, ?_, ?_⟩
  · apply ((w.changed.stamps.filter _).filter _).imp
    intro r s hlt _
    exact hlt
  · intro r hr s hs hsame hrlate hslate
    have hunsent : ∀ q ∈ (w.changed.rows.filter (fun r => r.sourceId = src ∧ r.updateType = t ∧
        r.sent ≤ 1)).filter (fun r => NonBlob r), w.builds src t ≤ q.stamp →
        q ∈ w.changed.rows ∧ q.sent = 0 := by
      intro q hq hlate
      obtain ⟨hmem, hsel⟩ := List.mem_filter.mp (List.mem_filter.mp hq).1
      obtain ⟨hsrc, ht, hle⟩ := of_decide_eq_true hsel
      refine ⟨hmem, ?_⟩
      have hnonneg := h.nonneg q hmem
      by_contra hne
      have hbuilt := h.built q hmem (by omega)
      rw [hsrc, ht] at hbuilt
      omega
    obtain ⟨hr', hr0⟩ := hunsent r hr hrlate
    obtain ⟨hs', hs0⟩ := hunsent s hs hslate
    exact h.single r hr' s hs' hr0 hs0 hsame
  · intro r hr hsrc ht hnon hle
    refine List.mem_filter.mpr ⟨List.mem_filter.mpr ⟨hr, by simp [hsrc, ht, hle]⟩, by simpa
      using hnon⟩

theorem edit_queued {e : Edit} (hnamed : e.named = true) {builds : Int → UpdateType → Nat}
    {db db' : Db} (hdb : Queued builds db.changed db.objects) (h : e.run db = some db') :
    Queued builds db'.changed db'.objects := by
  cases e with
  | save o =>
    exact foldlM_keeps_of_mem (P := fun db : Db => Queued builds db.changed db.objects)
      (fun _ v _ hv ha hstep => saveAttribText_queued (Edit.named_save hnamed v hv) ha hstep)
      hdb h
  | updateAttributes own o attrs =>
    obtain ⟨st, hst, rfl⟩ := Option.map_eq_some_iff.mp h
    exact foldlM_keeps_of_mem
      (P := fun st : UpdateState => Queued builds st.db.changed st.db.objects)
      (fun _ a _ hmem ha hstep =>
        updateAttribText_queued (Edit.named_updateAttributes hnamed a hmem) ha hstep) hdb hst
  | destroy o =>
    have hobj : o.obj ≠ some "NULL" := Edit.object_ne_of_named hnamed
    have hdestroy : destroy o db = some db' := by
      rw [← h, Edit.run, destroyText, if_neg hobj]
    exact destroy_queued hdb hdestroy

theorem transaction_queued {u : UIAction} {f : Db → Option Db} (hf : u.transaction = some f)
    {w : World} (hu : Edits (.env u w)) {builds : Int → UpdateType → Nat} {db db' : Db}
    (hdb : Queued builds db.changed db.objects) (h : f db = some db') :
    Queued builds db'.changed db'.objects := by
  cases u with
  | edit e =>
    obtain ⟨-, rfl⟩ := edit_transaction hf
    exact edit_queued hu hdb h
  | save o => cases hu
  | updateAttributes o attrs => cases hu
  | destroy o => cases hu
  | deleteAll src conditions => cases hu
  | ask src object question => cases hu
  | stopSync => cases hf
  | stopSyncByUser => cases hf
  | exitSync => cases hf
  | setUnlockDB b => cases hf

theorem inOrder_stable : (against Edits Ordered).Stable InOrder := by
  rintro w w' h ⟨u, hu, hok⟩
  have hstep : uiStep u w = some w' := hu
  cases hf : u.transaction with
  | none =>
    cases u
    case edit e => simp [uiStep, hf] at hstep
    all_goals
      simp only [uiStep, UIAction.transaction, Option.some.injEq, reduceCtorEq] at hstep hf
    all_goals
      subst hstep
      exact h
  | some f =>
    rw [uiStep_transaction hf] at hstep
    obtain ⟨-, rfl | ⟨db, hdb, rfl⟩⟩ := transaction_cases hstep
    · exact h
    · have hstart : Queued w.builds (⟨w.changed, w.objects, w.tempId⟩ : Db).changed
          (⟨w.changed, w.objects, w.tempId⟩ : Db).objects := h
      exact transaction_queued hf hok hstart hdb

/-- A statement that leaves object_values alone and moves rows only above sent=1. -/
theorem InOrder.kept {i : Stmt} {w : World} (h : InOrder w)
    (hobjects : (step i w).objects = w.objects) (hbuilds : (step i w).builds = w.builds)
    (hrow : ∀ r, rowUpdate i r = r ∨ (rowUpdate i r).sent > 1) : InOrder (step i w) := by
  have hold : ∀ r ∈ (step i w).changed.rows, 0 ≤ r.sent ∧ (r.sent ≤ 1 → r ∈ w.changed.rows) := by
    intro r hr
    obtain ⟨s, hs, -, rfl⟩ := (mem_step i w r).mp hr
    rcases hrow s with hsame | hgt
    · rw [hsame]
      exact ⟨h.nonneg s hs, fun _ => hs⟩
    · exact ⟨by omega, fun hle => absurd hle (by omega)⟩
  unfold InOrder
  rw [hobjects, hbuilds]
  refine ⟨fun r hr => (hold r hr).1, ?_, ?_, ?_, ?_, ?_⟩
  · exact fun r hr hsent => h.later r ((hold r hr).2 (by omega)) hsent
  · exact fun r hr hsent => h.built r ((hold r hr).2 (by omega)) hsent
  · intro src t
    rw [step_next]
    exact h.bound src t
  · exact fun r hr s hs hr0 hs0 => h.single r ((hold r hr).2 (by omega)) s
      ((hold s hs).2 (by omega))
      hr0 hs0
  · exact fun r hr hsent => h.shown r ((hold r hr).2 (by omega)) hsent

/-- A body takes all unsent rows of its source and type. -/
theorem InOrder.build {src : Int} {t : UpdateType} {w : World} (h : InOrder w) :
    InOrder (step (.makePushBody src t) w) := by
  have hbuilds : ∀ src' t', (step (.makePushBody src t) w).builds src' t' =
      if src' = src ∧ t' = t then w.changed.next else w.builds src' t' := by
    intro src' t'
    by_cases hsrc : src' = src
    · subst hsrc
      by_cases ht : t' = t <;> simp [step, ht]
    · simp [step, hsrc]
  have hrow : ∀ r ∈ (step (.makePushBody src t) w).changed.rows, ∃ s ∈ w.changed.rows,
      (¬ (s.sourceId = src ∧ s.updateType = t ∧ s.sent = 0) ∧ r = s) ∨
      ((s.sourceId = src ∧ s.updateType = t ∧ s.sent = 0) ∧ r = { s with sent := 1 }) := by
    intro r hr
    rw [makePushBody_changed] at hr
    exact ChangedTable.mem_setSent hr
  have hold : ∀ r ∈ (step (.makePushBody src t) w).changed.rows, r.sent = 0 →
      r ∈ w.changed.rows ∧ ¬ (r.sourceId = src ∧ r.updateType = t) := by
    intro r hr hsent
    obtain ⟨s, hs, ⟨hnot, rfl⟩ | ⟨-, rfl⟩⟩ := hrow r hr
    · exact ⟨hs, fun hkey => hnot ⟨hkey.1, hkey.2, hsent⟩⟩
    · exact absurd hsent (by simp)
  refine ⟨?_, ?_, ?_, ?_, ?_, ?_⟩
  · intro r hr
    obtain ⟨s, hs, ⟨-, rfl⟩ | ⟨-, rfl⟩⟩ := hrow r hr
    · exact h.nonneg _ hs
    · exact Int.one_nonneg
  · intro r hr hsent
    obtain ⟨hmem, hnot⟩ := hold r hr hsent
    rw [hbuilds, if_neg hnot]
    exact h.later r hmem hsent
  · intro r hr hsent
    obtain ⟨s, hs, ⟨hnot, rfl⟩ | ⟨hkey, rfl⟩⟩ := hrow r hr
    · rw [hbuilds]
      split
      · exact w.changed.fresh _ hs
      · exact h.built _ hs hsent
    · rw [hbuilds, if_pos ⟨hkey.1, hkey.2.1⟩]
      exact w.changed.fresh s hs
  · intro src' t'
    rw [hbuilds, step_next]
    split
    · exact le_rfl
    · exact h.bound src' t'
  · intro r hr s hs hr0 hs0 hsame
    exact h.single r (hold r hr hr0).1 s (hold s hs hs0).1 hr0 hs0 hsame
  · intro r hr hsent
    exact h.shown r (hold r hr hsent).1 hsent

/-- The statements after a push take rows out, or move them above sent=1. -/
theorem InOrder.confirm {i : Stmt} {w : World} (h : InOrder w) (src : Int) (t : UpdateType)
    (hi : i ∈ [.confirmNonBlob src t, .deleteNonBlob src t, .confirmSent src t,
      .deleteSent src t]) :
    Ordered i w ∧ InOrder (step i w) := by
  simp only [List.mem_cons, List.not_mem_nil, or_false] at hi
  rcases hi with rfl | rfl | rfl | rfl
  · refine ⟨by simp [Ordered], h.kept rfl rfl (fun r => ?_)⟩
    simp only [rowUpdate]
    split
    · exact Or.inr (by simp)
    · exact Or.inl rfl
  · exact ⟨by simp [Ordered], h.kept rfl rfl (fun _ => Or.inl rfl)⟩
  · refine ⟨by simp [Ordered], h.kept rfl rfl (fun r => ?_)⟩
    simp only [rowUpdate]
    split
    · exact Or.inr (by simp)
    · exact Or.inl rfl
  · exact ⟨by simp [Ordered], h.kept rfl rfl (fun _ => Or.inl rfl)⟩

def outline (src : Int) (t : UpdateType) : Outline Edits Ordered src t InOrder InOrder where
  built := fun _ => InOrder
  sent := fun _ => InOrder
  pushing := InOrder
  pushed := fun _ => False
  failed := InOrder
  pre_stable := inOrder_stable
  built_stable := fun _ => inOrder_stable
  sent_stable := fun _ => inOrder_stable
  pushing_stable := inOrder_stable
  pushed_stable := fun _ _ h _ => h
  failed_stable := inOrder_stable
  post_stable := inOrder_stable
  build := fun w h _ => ⟨h.ordered src t, h.build⟩
  send := by
    intro b w url h _ _
    have hkept := h.kept (i := .request (.pushData src t url b.strBody b.rows)) rfl rfl
      (fun _ => Or.inl rfl)
    exact ⟨by simp [Ordered], fun _ => hkept, fun _ => hkept⟩
  skip := fun _ _ h _ => h
  confirmBlobs := by
    rintro b w i h - rfl _
    apply h.confirm src t
    split <;> simp
  confirmBody := by
    rintro b w i h - - rfl _
    apply h.confirm src t
    split <;> simp
  nothing := fun _ _ h _ _ => h
  pushFile := by
    intro w query file row h hok
    have hno : (w.net w.requests).isOK = false := by simpa [Edits, edits, editsOnly] using hok
    refine ⟨by simp [Ordered], ?_, fun _ => h.kept rfl rfl (fun _ => Or.inl rfl)⟩
    intro hyes
    rw [hno] at hyes
    cases hyes
  deleteBlob := fun _ _ h _ => h.elim
  done := fun _ h => h
  fail := fun w h _ => ⟨by simp [Ordered], h.kept rfl rfl (fun _ => Or.inl rfl)⟩

/-- One push after another, of any sources; a failed one leaves the engine stopped, and
the next command starts it again. -/
def pushRounds : List (Engine × SyncSource) → Sync Unit
  | [] => pure ()
  | (e, this) :: rest => do
      execute (.setState .esSyncAllSources)
      let _ ← syncClientChanges e this
      pushRounds rest

theorem pushRounds_inOrder (rounds : List (Engine × SyncSource)) :
    (against Edits Ordered).Triple InOrder (pushRounds rounds) (fun _ => InOrder) := by
  induction rounds with
  | nil => exact Discipline.Triple.ret inOrder_stable (fun _ h => h)
  | cons r rest ih =>
    have hstart : ∀ w, InOrder w → Edits (.own (.setState .esSyncAllSources) w) →
        Ordered (.setState .esSyncAllSources) w ∧ InOrder (step (.setState .esSyncAllSources) w) :=
      fun w h _ => ⟨by simp [Ordered], h.kept rfl rfl (fun _ => Or.inl rfl)⟩
    refine execute_bind inOrder_stable hstart (Discipline.Triple.seq ?_ (fun _ => ih))
    have hloop := Outline.loop_invariant inOrder_stable (fun _ _ => by simp [Ordered]) r.1
      [.create, .update, .delete] r.2 (fun t _ => outline r.2.id t)
    exact hloop.conseq (fun _ h => h) (fun _ _ h => h.2)

/-- Over any edits that do not name NULL and any pushes, every body has the records of an attribute
in the order of the edits, at most one of them newer than the last body of its type, and all
queued records that are no blobs. -/
theorem bodies_keep_edit_order (rounds : List (Engine × SyncSource)) (w w' : World)
    (ms : List (Move Stmt World UIAction)) (p : Sync Unit) (hempty : w.changed.rows = [])
    (hrun : Run step uiStep (pushRounds rounds) { w with builds := fun _ _ => 0 } ms p w')
    (hedits : ∀ m ∈ ms, Edits m) : ∀ i x, Move.own i x ∈ ms → Ordered i x := by
  have hstart : InOrder { w with builds := fun _ _ => 0 } := by
    constructor <;> simp [hempty]
  exact (Discipline.wp_run hrun (pushRounds_inOrder rounds _ hstart) hedits).1

/-- The view of one known object, an empty queue and a server that is down. -/
def offlineWorld : World :=
  World.start .empty
    ⟨[⟨10, 1, some "name", some "7", some "Ann", none⟩], List.pairwise_singleton _ _⟩
    ⟨[], List.nodup_nil⟩ (fun _ => ⟨false, false, none⟩)

def saveName (object name : String) : UIAction :=
  .edit (.save ⟨1, false, [("object", some object), ("name", some name)]⟩)

/-- The bodies of a run, as the values of their records. -/
def bodyValues : Move Stmt World UIAction → Option (List (Option String))
  | .own (.makePushBody src t) x =>
      some ((pushBodyOf printUInt64 (selectPush x.changed src t)).rows.map ChangedValue.value)
  | _ => none

/-- The name is edited, its push fails, and it is edited twice again: the next body has the
first and the last edit. -/
theorem bodies_keep_edit_order_offline : ∃ ms p w',
    Run step uiStep (pushRounds [(sampleEngine, sampleSource), (sampleEngine, sampleSource)])
      { offlineWorld with builds := fun _ _ => 0 } ms p w' ∧
    (∀ m ∈ ms, Edits m) ∧
    ms.filterMap bodyValues = [[], [some "Bob"], [], [some "Bob", some "Dan"]] ∧
    ∀ i x, Move.own i x ∈ ms → Ordered i x := by
  obtain ⟨ms, p, w', hrun, hcheck⟩ := exists_run_of_play step uiStep
    (some (saveName "7" "Bob") :: List.replicate 8 none ++
      some (saveName "7" "Cat") :: some (saveName "7" "Dan") :: List.replicate 5 none)
    (pushRounds [(sampleEngine, sampleSource), (sampleEngine, sampleSource)])
    { offlineWorld with builds := fun _ _ => 0 }
    (fun r => r.1.all edits && r.1.filterMap bodyValues =
      [[], [some "Bob"], [], [some "Bob", some "Dan"]]) (by decide +kernel)
  rw [Bool.and_eq_true, List.all_eq_true] at hcheck
  exact ⟨ms, p, w', hrun, hcheck.1, of_decide_eq_true hcheck.2,
    bodies_keep_edit_order _ offlineWorld _ _ _ rfl hrun hcheck.1⟩

/-- The body has two records of an attribute that came in after the last body. -/
def doublesAttrib : Move Stmt World UIAction → Bool
  | .own (.makePushBody src t) x =>
      let rows := (pushBodyOf printUInt64 (selectPush x.changed src t)).rows
      rows.any (fun r => rows.any (fun s => decide (SameAttrib r s ∧ x.builds src t ≤ r.stamp ∧
        x.builds src t ≤ s.stamp ∧ r ≠ s)))
  | _ => false

theorem exists_not_ordered {m : Move Stmt World UIAction} (h : doublesAttrib m = true) :
    ∃ i x, m = .own i x ∧ ¬ Ordered i x := by
  unfold doublesAttrib at h
  split at h
  · rename_i src t x
    refine ⟨_, x, rfl, fun hordered => ?_⟩
    obtain ⟨-, -, hsingle, -⟩ := hordered src t rfl
    obtain ⟨r, hr, hany⟩ := List.any_eq_true.mp h
    obtain ⟨s, hs, hdouble⟩ := List.any_eq_true.mp hany
    obtain ⟨hsame, hrlate, hslate, hne⟩ := of_decide_eq_true hdouble
    exact hne (hsingle r hr s hs hsame hrlate hslate)
  · cases h

/-- An object with the id NULL is saved twice: both saves are queued, and both are in the body. -/
theorem null_object_is_queued_twice :
    ¬ ∀ (rounds : List (Engine × SyncSource)) (w w' : World) (ms : List (Move Stmt World UIAction))
      (p : Sync Unit), w.changed.rows = [] →
      Run step uiStep (pushRounds rounds) { w with builds := fun _ _ => 0 } ms p w' →
      (∀ m ∈ ms, editsOnly (fun _ => true) m = true) →
      ∀ i x, Move.own i x ∈ ms → Ordered i x := by
  intro h
  obtain ⟨ms, p, w', hrun, hcheck⟩ := exists_run_of_play step uiStep
    (some (saveName "NULL" "Bob") :: some (saveName "NULL" "Cat") :: List.replicate 5 none)
    (pushRounds [(sampleEngine, sampleSource)]) { offlineWorld with builds := fun _ _ => 0 }
    (fun r => r.1.all (editsOnly (fun _ => true)) && r.1.any doublesAttrib) (by decide +kernel)
  rw [Bool.and_eq_true, List.all_eq_true, List.any_eq_true] at hcheck
  obtain ⟨m, hm, hdoubles⟩ := hcheck.2
  obtain ⟨i, x, rfl, hnot⟩ := exists_not_ordered hdoubles
  exact hnot (h _ offlineWorld w' ms p rfl hrun hcheck.1 i x hm)

end Rhodes.EditOrder
