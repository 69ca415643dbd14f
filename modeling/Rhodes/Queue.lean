import Rhodes.Statements

/-!
What each statement does to the single row of changed_values. No statement looks
at two rows at once, so a statement is a condition under which a row goes and a
change of the rows that stay; `mem_step` says once that the table after a
statement consists of these rows, and the invariants of the queue follow from it
row by row. A row keeps its insertion number, and the record of answered requests
tells by these numbers which rows have reached the server.
-/
namespace Rhodes.Queue

open Database Statements

/-- The WHERE clauses of the DELETE statements on changed_values. -/
def Deletes : Stmt → ChangedValue → Prop
  | .deleteNonBlob src t, r => r.sourceId = src ∧ r.updateType = t ∧ NullOrSentNonBlob r
  | .deleteNonBlobJava src t, r => r.sourceId = src ∧ r.updateType = t ∧ NonBlob r ∧ r.sent = 1
  | .deleteSent src t, r => r.sourceId = src ∧ r.updateType = t ∧ r.sent = 1
  | .deleteAsk src _, r => r.sourceId = src ∧ r.updateType = .ask
  | .endOfData src, r => r.sourceId = src ∧ r.sent ≥ 3
  | _, _ => False

/-- The row after the statement, where it stays. -/
def rowUpdate : Stmt → ChangedValue → ChangedValue
  | .makePushBody src t, r =>
      if r.sourceId = src ∧ r.updateType = t ∧ r.sent = 0 then { r with sent := 1 } else r
  | .confirmNonBlob src t, r =>
      if r.sourceId = src ∧ r.updateType = t ∧ NonBlob r ∧ r.sent = 1 then { r with sent := 2 } else r
  | .confirmSent src t, r =>
      if r.sourceId = src ∧ r.updateType = t ∧ r.sent = 1 then { r with sent := 2 } else r
  | .renameChanged src old new, r =>
      if SqlEq r.object old ∧ r.sourceId = src then { r with object := new } else r
  | .bindMainId src object attrib id, r =>
      if AtKey src object attrib r.object r.attrib r.sourceId ∧ r.sent ≤ 1 then
        { r with mainId := id } else r
  | .confirmEntry src object attrib, r =>
      if AtKey src object attrib r.object r.attrib r.sourceId ∧ r.sent > 1 then
        { r with sent := 4 } else r
  | .markDeleted id, r => if r.mainId = id then { r with sent := 3 } else r
  | _, r => r

theorem selectAsk_changed (src : Int) (w : World) :
    (step (.selectAsk src) w).changed = w.changed := by
  simp only [step]
  split <;> rfl

theorem step_next (i : Stmt) (w : World) : (step i w).changed.next = w.changed.next := by
  cases i
  case makePushBody src t => rw [makePushBody_changed]; rfl
  case selectAsk src => rw [selectAsk_changed]
  all_goals rfl

/-- The table after a statement, row by row. -/
theorem mem_step (i : Stmt) (w : World) (r : ChangedValue) :
    r ∈ (step i w).changed.rows ↔ ∃ s ∈ w.changed.rows, ¬ Deletes i s ∧ rowUpdate i s = r := by
  have hsame : r ∈ w.changed.rows ↔ ∃ s ∈ w.changed.rows, ¬ False ∧ s = r := by simp
  have hdelete : ∀ (p : ChangedValue → Prop) [DecidablePred p],
      r ∈ (w.changed.delete p).rows ↔ ∃ s ∈ w.changed.rows, ¬ p s ∧ s = r := by
    intro p _
    simp
  have hupdate : ∀ (p : ChangedValue → Prop) [DecidablePred p] (a : ChangedTable.Assign),
      r ∈ (w.changed.update p a).rows ↔ ∃ s ∈ w.changed.rows, ¬ False ∧ a.on p s = r := by
    intro p _ a
    simp
  cases i
  case makePushBody src t =>
    rw [makePushBody_changed]
    exact hupdate _ _
  case selectAsk src =>
    rw [selectAsk_changed]
    exact hsame
  case confirmNonBlob => exact hupdate _ _
  case confirmSent => exact hupdate _ _
  case renameChanged => exact hupdate _ _
  case bindMainId => exact hupdate _ _
  case confirmEntry => exact hupdate _ _
  case markDeleted => exact hupdate _ _
  case deleteNonBlob src t =>
    exact hdelete (fun r => r.sourceId = src ∧ r.updateType = t ∧ NullOrSentNonBlob r)
  case deleteNonBlobJava src t =>
    exact hdelete (fun r => r.sourceId = src ∧ r.updateType = t ∧ NonBlob r ∧ r.sent = 1)
  case deleteSent src t =>
    exact hdelete (fun r => r.sourceId = src ∧ r.updateType = t ∧ r.sent = 1)
  case deleteAsk src askParams =>
    exact hdelete (fun r => r.sourceId = src ∧ r.updateType = .ask)
  case endOfData src => exact hdelete (fun r => r.sourceId = src ∧ r.sent ≥ 3)
  all_goals exact hsame

/-- The columns that no statement of the sync thread writes. -/
structure SameEdit (r s : ChangedValue) : Prop where
  stamp : s.stamp = r.stamp
  sourceId : s.sourceId = r.sourceId
  attrib : s.attrib = r.attrib
  value : s.value = r.value
  attribType : s.attribType = r.attribType
  updateType : s.updateType = r.updateType

theorem SameEdit.nonBlob {r s : ChangedValue} (h : SameEdit r s) : NonBlob s ↔ NonBlob r := by
  simp only [NonBlob, h.attribType]

theorem rowUpdate_sameEdit (i : Stmt) (r : ChangedValue) : SameEdit r (rowUpdate i r) := by
  cases i
  all_goals
    simp only [rowUpdate]
    try split
  all_goals exact ⟨rfl, rfl, rfl, rfl, rfl, rfl⟩

/-- The statement takes the row out of changed_values. -/
def Removes (i : Stmt) (w : World) (r : ChangedValue) : Prop :=
  r ∈ w.changed.rows ∧ ∀ s ∈ (step i w).changed.rows, s.stamp ≠ r.stamp

instance (i : Stmt) (w : World) (r : ChangedValue) : Decidable (Removes i w r) :=
  inferInstanceAs (Decidable (_ ∧ _))

/-- A row is removed only through the WHERE clause of a DELETE. -/
theorem Removes.deletes {i : Stmt} {w : World} {r : ChangedValue} (h : Removes i w r) :
    Deletes i r := by
  by_contra hnot
  have hstay : rowUpdate i r ∈ (step i w).changed.rows :=
    (mem_step i w _).mpr ⟨r, h.1, hnot, rfl⟩
  exact h.2 _ hstay (rowUpdate_sameEdit i r).stamp

/-- The rows a request carries to the server. -/
def Request.pushed : Request → List ChangedValue
  | .pushData _ _ _ _ rows => rows
  | .pushFile _ _ _ _ row => [row]
  | _ => []

/-- A row that went to the server in a request that returned OK. -/
def Acknowledged (log : List Event) (r : ChangedValue) : Prop :=
  ∃ q, Event.answered q true ∈ log ∧ r.stamp ∈ (Request.pushed q).map ChangedValue.stamp

def Event.acknowledges (r : ChangedValue) : Event → Bool
  | .answered q true => r.stamp ∈ (Request.pushed q).map ChangedValue.stamp
  | _ => false

instance (log : List Event) (r : ChangedValue) : Decidable (Acknowledged log r) :=
  decidable_of_iff (∃ ev ∈ log, Event.acknowledges r ev = true) (by
    constructor
    · rintro ⟨ev, hev, h⟩
      unfold Event.acknowledges at h
      split at h
      · exact ⟨_, hev, by simpa using h⟩
      · cases h
    · rintro ⟨q, hq, h⟩
      exact ⟨_, hq, by simpa [Event.acknowledges] using h⟩)

theorem acknowledged_append (log log' : List Event) (r : ChangedValue) :
    Acknowledged (log ++ log') r ↔ Acknowledged log r ∨ Acknowledged log' r := by
  constructor
  · rintro ⟨q, hq, h⟩
    rcases List.mem_append.mp hq with hq | hq
    · exact Or.inl ⟨q, hq, h⟩
    · exact Or.inr ⟨q, hq, h⟩
  · rintro (⟨q, hq, h⟩ | ⟨q, hq, h⟩)
    · exact ⟨q, List.mem_append_left _ hq, h⟩
    · exact ⟨q, List.mem_append_right _ hq, h⟩

theorem acknowledged_answered (q : Request) (b : Bool) (r : ChangedValue) :
    Acknowledged [.answered q b] r ↔
      b = true ∧ r.stamp ∈ (Request.pushed q).map ChangedValue.stamp := by
  constructor
  · rintro ⟨q', hq, h⟩
    rw [List.mem_singleton] at hq
    cases hq
    exact ⟨rfl, h⟩
  · rintro ⟨rfl, h⟩
    exact ⟨q, List.mem_singleton.mpr rfl, h⟩

theorem request_last {q : Request} {w : World} (h : (w.net w.requests).isOK = true) :
    (step (.request q) w).log.getLast? = some (.answered q true) := by
  simp [step, h]

/-- Events are only ever added. -/
theorem log_step (i : Stmt) (w : World) : w.log <+: (step i w).log := by
  cases i
  case request q => exact List.prefix_append _ _
  case pageProcessed obj token complete => exact List.prefix_append _ _
  case selectAsk src =>
    simp only [step]
    split <;> exact List.prefix_rfl
  all_goals exact List.prefix_rfl

/-- Only the answer to a request adds to the rows that reached the server. -/
theorem acknowledged_step (i : Stmt) (w : World) (r : ChangedValue) :
    Acknowledged (step i w).log r ↔ Acknowledged w.log r ∨
      ∃ q, i = .request q ∧ (w.net w.requests).isOK = true ∧
        r.stamp ∈ (Request.pushed q).map ChangedValue.stamp := by
  cases i
  case request q =>
    simp only [step, acknowledged_append, acknowledged_answered]
    simp
  case pageProcessed obj token complete =>
    have hpage : ¬ Acknowledged [.page obj token complete] r := by simp [Acknowledged]
    simp [step, acknowledged_append, hpage]
  case selectAsk src =>
    simp only [step]
    split <;> simp
  all_goals simp [step]

theorem rowUpdate_gt_one {i : Stmt} {r : ChangedValue} (h : r.sent > 1) :
    (rowUpdate i r).sent > 1 := by
  cases i
  all_goals
    simp only [rowUpdate]
    try split
  all_goals simp_all

theorem rowUpdate_nonneg {i : Stmt} {r : ChangedValue} (h : 0 ≤ r.sent) :
    0 ≤ (rowUpdate i r).sent := by
  cases i
  all_goals
    simp only [rowUpdate]
    try split
  all_goals simp_all

end Rhodes.Queue
