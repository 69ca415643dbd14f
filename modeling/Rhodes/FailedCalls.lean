import Mathlib
import Rhodes.RhomCalls
import Rhodes.StateMoves

/-!
What a failed call of the object mapper leaves behind. No caller can tell it from one that has gone
well: save, update_attributes and destroy return true, and delete_all returns what commit and
rollback return alike. The mutex is released. The tables are as before unless BEGIN is refused or
END leaves the transaction open, and the vars unless update_attributes has changed some of them.
-/
namespace Rhodes.FailedCalls

open Database SqlTables RhomSql RhomCalls StateMoves

section Outcomes

/-- What a call returns, unless it throws, and the connection after it. -/
structure Outcome where
  value : Option Value
  conn : Conn

def outcome (db : Sqlite) (m : Model) (op : Op) (c : Conn) : Outcome :=
  match op.call db m c with
  | .ok v c' => ⟨some v, c'⟩
  | .error _ c' => ⟨none, c'⟩

/-- SQLite has refused a statement of the call, BEGIN and END included. -/
def Failed (db : Sqlite) (m : Model) (op : Op) (c : Conn) : Prop :=
  c.refused < (outcome db m op c).conn.refused

instance (db : Sqlite) (m : Model) (op : Op) (c : Conn) : Decidable (Failed db m op c) :=
  inferInstanceAs (Decidable (_ < _))

inductive Method where
  | save
  | updateAttributes
  | destroy
  | deleteAll
  deriving DecidableEq

def method : Op → Method
  | .save => .save
  | .updateAttributes _ => .updateAttributes
  | .destroy => .destroy
  | .deleteAll _ => .deleteAll

/-- No call of the method that does not fail returns this value. -/
def Told (meth : Method) (value : Option Value) : Prop :=
  ∀ (db : Sqlite) (m : Model) (op : Op) (c : Conn), Lawful db.engine → method op = meth →
    c.began = none → c.insideTransaction = false → ¬Failed db m op c →
    (outcome db m op c).value ≠ value

/-- The call has changed nothing, and its caller can tell. -/
structure Unchanged (meth : Method) (c : Conn) (out : Outcome) : Prop where
  tables : out.conn.tables = c.tables
  vars : out.conn.vars = c.vars
  closed : out.conn.began = none
  unlocked : out.conn.locks = c.locks ∧ out.conn.insideTransaction = false
  told : Told meth out.value

/-- What is as before. -/
structure Restored (db : Sqlite) (meth : Method) (c c' : Conn) : Prop where
  unlocked : c'.locks = c.locks ∧ c'.insideTransaction = false
  closed : c.began = none → db.ends ≠ .busy → c'.began = none
  tables : c.began = none → db.begins = true → db.ends ≠ .busy → c'.tables = c.tables
  vars : meth ≠ .updateAttributes → c'.vars = c.vars

end Outcomes

section Inside

/-- The connection inside a transaction, which nothing but its end leaves. -/
structure Inside (c c' : Conn) : Prop where
  insideTransaction : c.insideTransaction = true → c'.insideTransaction = true
  began : c.insideTransaction = true → c'.began = c.began
  locks : c.insideTransaction = true → c'.locks = c.locks

/-- A statement that is refused inside a transaction ends what is run. -/
def Accepted (c c' : Conn) : Prop :=
  Inside c c' ∧ (c.insideTransaction = true → c'.refused = c.refused)

theorem Inside.refl (c : Conn) : Inside c c := ⟨id, fun _ => rfl, fun _ => rfl⟩

theorem Inside.trans {c c' c'' : Conn} (h : Inside c c') (h' : Inside c' c'') : Inside c c'' :=
  ⟨fun hi => h'.insideTransaction (h.insideTransaction hi),
    fun hi => (h'.began (h.insideTransaction hi)).trans (h.began hi),
    fun hi => (h'.locks (h.insideTransaction hi)).trans (h.locks hi)⟩

theorem composes_inside : Composes Accepted Inside where
  refl c := ⟨Inside.refl c, fun _ => rfl⟩
  trans h h' := ⟨h.1.trans h'.1,
    fun hi => (h'.2 (h.1.insideTransaction hi)).trans (h.2 hi)⟩
  throws h h' := h.1.trans h'

/-- What is thrown inside a transaction because a statement is refused. -/
def Thrown (c c' : Conn) : Prop :=
  Inside c c' ∧ (c.insideTransaction = true → c.refused < c'.refused)

theorem composes_thrown : Composes Accepted Thrown where
  refl := composes_inside.refl
  trans := composes_inside.trans
  throws h h' := ⟨h.1.trans h'.1, fun hi => (h.2 hi) ▸ h'.2 (h.1.insideTransaction hi)⟩

/-- The vars are as before. -/
def SameVars (c c' : Conn) : Prop := c'.vars = c.vars

theorem composes_vars : Composes SameVars SameVars where
  refl _ := rfl
  trans h h' := Eq.trans h' h
  throws h h' := Eq.trans h' h

variable (db : Sqlite) (m : Model)

/-- What a statement leaves alone, and what it counts. -/
theorem execute_cases (sql : String) (args : List (Option String)) (c : Conn) :
    (∃ rows c', execute db sql args c = .ok rows c' ∧
      c' = { c with tables := c'.tables, executed := c.executed + 1 }) ∨
    ∃ c', execute db sql args c = .error .sqlError c' ∧
      c' = { c with executed := c.executed + 1, refused := c.refused + 1 } := by
  unfold execute
  cases (if db.fails c.executed then none else db.engine sql args c.tables) with
  | none => exact Or.inr ⟨_, rfl, rfl⟩
  | some r => exact Or.inl ⟨_, _, rfl, rfl⟩

/-- Inside a transaction a statement is executed without the mutex, and what it throws is thrown
on. -/
theorem executeSql_inside {c : Conn} (h : c.insideTransaction = true) (sql : String)
    (args : List (Option String)) : executeSql db sql args c = execute db sql args c := by
  have hget : ∀ c : Conn, (get : M Conn) c = .ok c c := fun c => rfl
  unfold executeSql
  rcases execute_cases db sql args c with ⟨rows, c', hrun, hc'⟩ | ⟨c', hrun, hc'⟩
  · have hinside : c'.insideTransaction = true := by
      rw [hc']
      exact h
    rw [hrun]
    refine tryCatch_of_ok ?_
    rw [bind_of_ok (hget c), h]
    show (execute db sql args >>= _) c = _
    rw [bind_of_ok hrun, bind_of_ok (hget c'), hinside]
    rfl
  · have hinside : c'.insideTransaction = true := by
      rw [hc']
      exact h
    rw [hrun]
    have hthrown : (do
        if !(← get).insideTransaction then lock
        let result ← execute db sql args
        if !(← get).insideTransaction then unlock
        pure result : M (List Row)) c = .error .sqlError c' := by
      rw [bind_of_ok (hget c), h]
      exact bind_of_error hrun
    refine (tryCatch_of_error hthrown).trans ?_
    rw [bind_of_ok (hget c'), hinside]
    rfl

theorem moves_executeSql_thrown (sql : String) (args : List (Option String)) :
    Moves Accepted Thrown (executeSql db sql args) := by
  intro c
  cases hinside : c.insideTransaction with
  | true =>
    rw [executeSql_inside db hinside]
    rcases execute_cases db sql args c with ⟨rows, c', hrun, hc'⟩ | ⟨c', hrun, hc'⟩
    · rw [hrun, hc']
      exact ⟨⟨id, fun _ => rfl, fun _ => rfl⟩, fun _ => rfl⟩
    · rw [hrun, hc']
      exact ⟨⟨id, fun _ => rfl, fun _ => rfl⟩, fun _ => Nat.lt_succ_self _⟩
  | false =>
    have hnone : ∀ c', Accepted c c' ∧ Thrown c c' := by
      intro c'
      have hc : ∀ {p : Prop}, c.insideTransaction = true → p := by
        intro p h
        rw [hinside] at h
        cases h
      exact ⟨⟨⟨hc, hc, hc⟩, hc⟩, ⟨hc, hc, hc⟩, hc⟩
    cases executeSql db sql args c with
    | ok _ c' => exact (hnone c').1
    | error _ c' => exact (hnone c').2

theorem moves_executeSql (sql : String) (args : List (Option String)) :
    Moves Accepted Inside (executeSql db sql args) :=
  (moves_executeSql_thrown db sql args).mono (fun _ _ h => h) (fun _ _ h => h.1)

theorem moves_executeSql_vars (sql : String) (args : List (Option String)) :
    Moves SameVars SameVars (executeSql db sql args) := by
  have hlock : Moves SameVars SameVars lock := moves_modify (fun c => rfl)
  have hunlock : Moves SameVars SameVars unlock := moves_modify (fun c => rfl)
  have hexecute : Moves SameVars SameVars (execute db sql args) := by
    intro c
    rcases execute_cases db sql args c with ⟨rows, c', hrun, hc'⟩ | ⟨c', hrun, hc'⟩
    · rw [hrun, hc']
      rfl
    · rw [hrun, hc']
      rfl
  refine Moves.tryCatch composes_vars ?_ (fun e => ?_)
  · refine (moves_get composes_vars).bind composes_vars (fun c => ?_)
    have hrest : Moves SameVars SameVars (do
        let result ← execute db sql args
        if !(← get).insideTransaction then unlock
        pure result : M (List Row)) := by
      refine hexecute.bind composes_vars (fun result => ?_)
      refine (moves_get composes_vars).bind composes_vars (fun c => ?_)
      refine moves_ite ?_ (moves_pure composes_vars _)
      exact hunlock.bind composes_vars (fun _ => moves_pure composes_vars _)
    exact moves_ite (hlock.bind composes_vars (fun _ => hrest)) hrest
  · refine (moves_get composes_vars).bind composes_vars (fun c => ?_)
    refine moves_ite (moves_throw (fun c => rfl)) ?_
    exact hunlock.bind composes_vars (fun _ => moves_pure composes_vars _)

end Inside

section Bodies

variable {db : Sqlite} (m : Model) {R E : Conn → Conn → Prop} (h : Composes R E)
  (hexecute : ∀ sql args, Moves R E (executeSql db sql args)) (hid : Moves R E generateId)

include h hexecute

theorem moves_takePending (pending : List (String × Option String)) (obj : Option String)
    (key : String) (updateType : Option String) :
    Moves R E (takePending db m pending obj key updateType) := by
  refine (hexecute _ _).bind h (fun resUpdateType => ?_)
  cases resUpdateType with
  | nil => exact moves_pure h _
  | cons row rest => exact (hexecute _ _).bind h (fun _ => moves_pure h _)

include hid

theorem moves_saveAttrib (obj updateType : Option String) (var : String × Option String) :
    Moves R E (saveAttrib db m obj updateType var) := by
  refine moves_ite (moves_pure h _) ((hexecute _ _).bind h (fun resValue => ?_))
  cases resValue with
  | nil =>
    refine hid.bind h (fun tmpId => ?_)
    exact (hexecute _ _).bind h (fun _ => (hexecute _ _).bind h (fun _ => moves_pure h _))
  | cons row rest =>
    refine moves_ite ?_ (moves_pure h _)
    refine (moves_takePending m h hexecute _ _ _ _).bind h (fun updateType => ?_)
    exact (hexecute _ _).bind h (fun _ => (hexecute _ _).bind h (fun _ => moves_pure h _))

theorem moves_saveBody (obj : Option String) (vars : List (String × Option String)) :
    Moves R E (saveBody db m obj vars) :=
  (hexecute _ _).bind h (fun _ => moves_forM h (moves_saveAttrib m h hexecute hid _ _) vars)

theorem moves_updateBody
    (hvars : ∀ f : List (String × Option String) → List (String × Option String),
      Moves R E (modify (fun c => { c with vars := f c.vars }) : M Unit))
    (obj : Option String) {attrs : List (String × Option String)}
    (hraises : ∀ a ∈ attrs, m.own (Rhom.attribName a.1) = some .raises → ∀ c, E c c) :
    Moves R E (updateBody db m obj attrs) := by
  have hsend : ∀ a ∈ attrs, Moves R E (send m (Rhom.attribName a.1)) := by
    intro a ha
    unfold send
    split
    · refine moves_ite ((hvars (fun vars => assign vars _ none)).bind h
        (fun _ => moves_pure h _)) ?_
      exact (moves_get h).bind h (fun c => moves_pure h _)
    · rename_i hown
      exact moves_throw (hraises a ha hown)
    · exact moves_pure h _
  have hmodified : ∀ attrib newVal updateType,
      Moves R E (updateModified db m obj attrib newVal updateType) := by
    intro attrib newVal updateType
    refine (moves_takePending m h hexecute _ _ _ _).bind h (fun updateType => ?_)
    refine (hexecute _ _).bind h (fun result => ?_)
    have hend : Moves R E (do
        modify (fun c => { c with vars := assign c.vars attrib (some newVal) })
        return updateType : M (Option String)) :=
      (hvars (fun vars => assign vars attrib (some newVal))).bind h (fun _ => moves_pure h _)
    cases result with
    | nil =>
      refine hid.bind h (fun tmpId => ?_)
      exact (hexecute _ _).bind h (fun _ => (hexecute _ _).bind h (fun _ => hend))
    | cons row rest =>
      exact (hexecute _ _).bind h (fun _ => (hexecute _ _).bind h (fun _ => hend))
  refine (moves_foldlM h (fun updateType attr hattr => ?_) _).bind h (fun _ => moves_pure h _)
  refine moves_ite (moves_pure h _) ((hsend attr hattr).bind h (fun oldVal => ?_))
  exact moves_ite (hmodified _ _ _) (moves_pure h _)

omit hid

theorem moves_destroyBody (obj : String) : Moves R E (destroyBody db m obj) := by
  refine (hexecute _ _).bind h (fun _ => (hexecute _ _).bind h (fun resUpdateType => ?_))
  refine (hexecute _ _).bind h (fun _ => ?_)
  cases (if resUpdateType.length > 0 then none else m.updateType .delete) with
  | none => exact moves_pure h _
  | some t => exact (hexecute _ _).bind h (fun _ => moves_pure h _)

theorem moves_deleteAllBody (hthrow : ∀ c, E c c)
    (conditions : Option (Option (List (String × String)))) :
    Moves R E (deleteAllBody db m conditions) := by
  match conditions with
  | none => exact (hexecute _ _).bind h (fun _ => (hexecute _ _).bind h (fun _ => moves_pure h _))
  | some none => exact moves_throw hthrow
  | some (some conditions) =>
    refine (hexecute _ _).bind h (fun delObjects => moves_forM h (fun obj => ?_) delObjects)
    exact (hexecute _ _).bind h (fun _ => (hexecute _ _).bind h (fun _ => moves_pure h _))

end Bodies

section Transactions

variable (db : Sqlite)

/-- The connection after start_transaction. -/
def started (c : Conn) : Conn :=
  Conn.begin db { c with insideTransaction := true, locks := c.locks + 1 }

/-- The connection after commit. -/
def committed (c : Conn) : Conn :=
  let c' := Conn.end db { c with insideTransaction := false }
  { c' with locks := c'.locks - 1 }

/-- The connection after rollback. -/
def rolledBack (c : Conn) : Conn :=
  let c' := Conn.rollback { c with insideTransaction := false }
  { c' with locks := c'.locks - 1 }

/-- A body that returns is committed, and one that throws is rolled back. -/
def after (body : M Unit) (c : Conn) : Conn :=
  match body (started db c) with
  | .ok _ c' => committed db c'
  | .error _ c' => rolledBack c'

theorem transaction_eq (body : M Unit) (c : Conn) :
    transaction db body c = .ok 0 (after db body c) := by
  have hstart : startTransaction db c = .ok () (started db c) := rfl
  unfold after
  cases hbody : body (started db c) with
  | ok _ c' =>
    refine tryCatch_of_ok ?_
    rw [bind_of_ok hstart, bind_of_ok hbody]
    rfl
  | error e c' =>
    have hthrown : (do startTransaction db; body; commit db : M Int) c = .error e c' := by
      rw [bind_of_ok hstart]
      exact bind_of_error hbody
    exact (tryCatch_of_error hthrown).trans rfl

theorem begin_fields (c : Conn) : (Conn.begin db c).insideTransaction = c.insideTransaction ∧
    (Conn.begin db c).locks = c.locks := by
  unfold Conn.begin
  split
  · exact ⟨rfl, rfl⟩
  · split <;> exact ⟨rfl, rfl⟩

theorem end_fields (c : Conn) : (Conn.end db c).insideTransaction = c.insideTransaction ∧
    (Conn.end db c).locks = c.locks := by
  unfold Conn.end
  split <;> exact ⟨rfl, rfl⟩

theorem rollback_fields (c : Conn) : (Conn.rollback c).insideTransaction = c.insideTransaction ∧
    (Conn.rollback c).locks = c.locks := by
  unfold Conn.rollback
  split <;> exact ⟨rfl, rfl⟩

/-- What a transaction leaves: the mutex is released, a transaction is open only where END has left
it open, and the tables of one that has begun are as before where a statement was refused. -/
structure Ended (c c' : Conn) : Prop where
  unlocked : c'.locks = c.locks ∧ c'.insideTransaction = false
  closed : c.began = none → db.ends ≠ .busy → c'.began = none
  tables : c.began = none → db.begins = true → db.ends ≠ .busy → c.refused < c'.refused →
    c'.tables = c.tables

theorem ended_committed {c c' : Conn} (h : Accepted (started db c) c') :
    Ended db c (committed db c') := by
  obtain ⟨hinside, hlocks⟩ := begin_fields db
    { c with insideTransaction := true, locks := c.locks + 1 }
  have hopen : (started db c).insideTransaction = true := hinside
  obtain ⟨hend, hend'⟩ := end_fields db { c' with insideTransaction := false }
  refine ⟨⟨?_, hend⟩, ?_, ?_⟩
  · show (Conn.end db { c' with insideTransaction := false }).locks - 1 = c.locks
    rw [hend']
    show c'.locks - 1 = c.locks
    rw [h.1.locks hopen, started, hlocks]
    exact Nat.add_sub_cancel _ _
  · intro _ hends
    show (Conn.end db { c' with insideTransaction := false }).began = none
    unfold Conn.end
    split
    · assumption
    · rfl
    · rename_i hbusy
      exact absurd hbusy hends
    · rfl
  · intro hbegan hbegins hends hrefused
    have hstarted : started db c = { c with
        insideTransaction := true, locks := c.locks + 1, began := some c.tables } := by
      simp [started, Conn.begin, hbegan, hbegins]
    have hbegan' : c'.began = some c.tables := by
      rw [h.1.began hopen, hstarted]
    have hrefused' : c'.refused = c.refused := by
      rw [h.2 hopen, hstarted]
    cases hends' : db.ends with
    | busy => exact absurd hends' hends
    | committed =>
      have hsame : (committed db c').refused = c.refused := by
        simp [committed, Conn.end, hbegan', hends', hrefused']
      omega
    | rolledBack => simp [committed, Conn.end, hbegan', hends']

theorem ended_rolledBack {c c' : Conn} (h : Inside (started db c) c') :
    Ended db c (rolledBack c') := by
  obtain ⟨hinside, hlocks⟩ := begin_fields db
    { c with insideTransaction := true, locks := c.locks + 1 }
  have hopen : (started db c).insideTransaction = true := hinside
  obtain ⟨hend, hend'⟩ := rollback_fields { c' with insideTransaction := false }
  refine ⟨⟨?_, hend⟩, ?_, ?_⟩
  · show (Conn.rollback { c' with insideTransaction := false }).locks - 1 = c.locks
    rw [hend']
    show c'.locks - 1 = c.locks
    rw [h.locks hopen, started, hlocks]
    exact Nat.add_sub_cancel _ _
  · intro _ _
    show (Conn.rollback { c' with insideTransaction := false }).began = none
    unfold Conn.rollback
    split
    · assumption
    · rfl
  · intro hbegan hbegins _ _
    have hbegan' : c'.began = some c.tables := by
      rw [h.began hopen]
      simp [started, Conn.begin, hbegan, hbegins]
    simp [rolledBack, Conn.rollback, hbegan']

theorem ended_after {body : M Unit} (h : Moves Accepted Inside body) (c : Conn) :
    Ended db c (after db body c) := by
  unfold after
  cases hbody : body (started db c) with
  | ok _ c' => exact ended_committed db (h.of_ok hbody)
  | error _ c' => exact ended_rolledBack db (h.of_error hbody)

/-- What BEGIN and END refuse is counted, and END that is not refused keeps the tables. -/
theorem begin_refused (c : Conn) : c.refused ≤ (Conn.begin db c).refused ∧
    ((Conn.begin db c).refused = c.refused →
      Conn.begin db c = { c with began := some c.tables }) := by
  unfold Conn.begin
  split
  · exact ⟨Nat.le_succ _, fun h => absurd h (Nat.succ_ne_self _)⟩
  · split
    · exact ⟨le_rfl, fun _ => rfl⟩
    · exact ⟨Nat.le_succ _, fun h => absurd h (Nat.succ_ne_self _)⟩

theorem end_refused (c : Conn) : c.refused ≤ (Conn.end db c).refused ∧
    ((Conn.end db c).refused = c.refused → (Conn.end db c).tables = c.tables) := by
  unfold Conn.end
  split
  · exact ⟨Nat.le_succ _, fun _ => rfl⟩
  · exact ⟨le_rfl, fun _ => rfl⟩
  · exact ⟨Nat.le_succ _, fun _ => rfl⟩
  · exact ⟨Nat.le_succ _, fun h => absurd h (Nat.succ_ne_self _)⟩

theorem rollback_refused (c : Conn) : c.refused ≤ (Conn.rollback c).refused := by
  unfold Conn.rollback
  split
  · exact Nat.le_succ _
  · exact le_rfl

/-- A transaction of which nothing is refused has run its body and kept what that wrote. -/
theorem accepted_run {body : M Unit} (hbody : Moves Accepted Thrown body) {c : Conn}
    (h : ¬c.refused < (after db body c).refused) : ∃ c',
      body { c with insideTransaction := true, locks := c.locks + 1, began := some c.tables } =
        .ok () c' ∧ (after db body c).tables = c'.tables := by
  obtain ⟨hbegin, hbegan⟩ := begin_refused db
    { c with insideTransaction := true, locks := c.locks + 1 }
  have hopen : (started db c).insideTransaction = true :=
    (begin_fields db { c with insideTransaction := true, locks := c.locks + 1 }).1
  have hfirst : c.refused ≤ (started db c).refused := hbegin
  unfold after at h ⊢
  cases hrun : body (started db c) with
  | error e c' =>
    have hthrown := (hbody.of_error hrun).2 hopen
    have hrolled : c'.refused ≤ (rolledBack c').refused :=
      rollback_refused { c' with insideTransaction := false }
    rw [hrun] at h
    have hless : ¬c.refused < (rolledBack c').refused := h
    omega
  | ok u c' =>
    obtain ⟨hend, htables⟩ := end_refused db { c' with insideTransaction := false }
    have hsame := (hbody.of_ok hrun).2 hopen
    have hlast : c'.refused ≤ (committed db c').refused := hend
    rw [hrun] at h
    have hless : ¬c.refused < (committed db c').refused := h
    have hstarted := hbegan (show (started db c).refused = c.refused by omega)
    refine ⟨c', ?_, htables (show (committed db c').refused = c'.refused by omega)⟩
    rw [← hrun]
    exact congrArg body hstarted.symm

theorem moves_transaction {body : M Unit} (h : Moves SameVars SameVars body) :
    Moves SameVars SameVars (transaction db body) := by
  have hset : ∀ b, Moves SameVars SameVars
      (modify (fun c : Conn => { c with insideTransaction := b }) : M Unit) :=
    fun b => moves_modify (fun c => rfl)
  have hlock : Moves SameVars SameVars lock := moves_modify (fun c => rfl)
  have hunlock : Moves SameVars SameVars unlock := moves_modify (fun c => rfl)
  have hbegin : Moves SameVars SameVars (modify (Conn.begin db) : M Unit) := by
    refine moves_modify (fun c => ?_)
    unfold Conn.begin
    split
    · rfl
    · split <;> rfl
  have hcommit : Moves SameVars SameVars (modify (Conn.end db) : M Unit) := by
    refine moves_modify (fun c => ?_)
    unfold Conn.end
    split <;> rfl
  have hrollback : Moves SameVars SameVars (modify Conn.rollback : M Unit) := by
    refine moves_modify (fun c => ?_)
    unfold Conn.rollback
    split <;> rfl
  have hfinish : ∀ {act : M Unit}, Moves SameVars SameVars act → Moves SameVars SameVars (do
      modify (fun c : Conn => { c with insideTransaction := false })
      act
      unlock
      return 0 : M Int) := by
    intro act hact
    refine (hset false).bind composes_vars (fun _ => hact.bind composes_vars (fun _ => ?_))
    exact hunlock.bind composes_vars (fun _ => moves_pure composes_vars _)
  refine Moves.tryCatch composes_vars ?_ (fun _ => hfinish hrollback)
  have hstart : Moves SameVars SameVars (startTransaction db) :=
    (hset true).bind composes_vars (fun _ => hlock.bind composes_vars (fun _ => hbegin))
  exact hstart.bind composes_vars (fun _ => h.bind composes_vars (fun _ => hfinish hcommit))

end Transactions

section Calls

variable (db : Sqlite) (m : Model)

/-- What a call of the method returns, whether it fails or not. -/
def returned : Method → Value
  | .deleteAll => .int 0
  | _ => .bool true

/-- The body of the transaction of a call. -/
def body (c : Conn) : Op → Option (M Unit)
  | .save => some (saveBody db m c.obj c.vars)
  | .updateAttributes attrs => some (updateBody db m c.obj attrs)
  | .destroy => c.obj.map (destroyBody db m)
  | .deleteAll conditions => some (deleteAllBody db m conditions)

/-- A call is its transaction, but for destroy of an object without an id. -/
theorem outcome_eq (op : Op) (c : Conn) : outcome db m op c =
    ⟨some (returned (method op)), (body db m c op).elim c (fun p => after db p c)⟩ := by
  have hget : (get : M Conn) c = .ok c c := rfl
  have htrue : ∀ p : M Unit, (do let _ ← transaction db p; return .bool true : M Value) c =
      .ok (.bool true) (after db p c) := fun p => (bind_of_ok (transaction_eq db p c)).trans rfl
  cases op with
  | save =>
    have hrun : (Op.save).call db m c =
        .ok (.bool true) (after db (saveBody db m c.obj c.vars) c) :=
      (bind_of_ok hget).trans (htrue _)
    rw [outcome, hrun]
    rfl
  | updateAttributes attrs =>
    have hrun : (Op.updateAttributes attrs).call db m c =
        .ok (.bool true) (after db (updateBody db m c.obj attrs) c) :=
      (bind_of_ok hget).trans (htrue _)
    rw [outcome, hrun]
    rfl
  | destroy =>
    have hcall : (Op.destroy).call db m c = _ := bind_of_ok hget
    cases hobj : c.obj with
    | none =>
      have hbody : body db m c .destroy = none := by rw [body, hobj]; rfl
      rw [outcome, hcall, hobj, hbody]
      rfl
    | some obj =>
      have hbody : body db m c .destroy = some (destroyBody db m obj) := by
        rw [body, hobj]
        rfl
      have hrun : (Op.destroy).call db m c =
          .ok (.bool true) (after db (destroyBody db m obj) c) := by
        rw [hcall, hobj]
        exact htrue _
      rw [outcome, hrun, hbody]
      rfl
  | deleteAll conditions =>
    have hrun : (Op.deleteAll conditions).call db m c =
        .ok (.int 0) (after db (deleteAllBody db m conditions) c) :=
      (bind_of_ok (transaction_eq db _ c)).trans rfl
    rw [outcome, hrun]
    rfl

/-- What is done to the object and to the ids alone. -/
theorem accepted_of {f : Conn → Conn} (hf : ∀ c, (f c).insideTransaction = c.insideTransaction ∧
    (f c).began = c.began ∧ (f c).locks = c.locks ∧ (f c).refused = c.refused) (c : Conn) :
    Accepted c (f c) := by
  obtain ⟨hinside, hbegan, hlocks, hrefused⟩ := hf c
  exact ⟨⟨fun h => hinside.trans h, fun _ => hbegan, fun _ => hlocks⟩, fun _ => hrefused⟩

theorem moves_generateId {E : Conn → Conn → Prop} : Moves Accepted E generateId := fun c =>
  accepted_of (f := fun c => { c with tempId := c.tempId + 1 }) (fun _ => ⟨rfl, rfl, rfl, rfl⟩) c

theorem moves_setVars {E : Conn → Conn → Prop}
    (f : List (String × Option String) → List (String × Option String)) :
    Moves Accepted E (modify (fun c => { c with vars := f c.vars }) : M Unit) :=
  moves_modify (accepted_of (fun _ => ⟨rfl, rfl, rfl, rfl⟩))

/-- No attribute is the name of a method of the object. -/
def NoMethods (m : Model) : Op → Prop
  | .updateAttributes attrs => ∀ a ∈ attrs, m.own (Rhom.attribName a.1) = none
  | _ => True

/-- Where a transaction of save or update_attributes throws, a statement was refused. -/
theorem body_thrown {op : Op} {c : Conn} {p : M Unit} (h : body db m c op = some p)
    (hop : method op = .save ∨ method op = .updateAttributes) (hown : NoMethods m op) :
    Moves Accepted Thrown p := by
  cases op with
  | save =>
    cases h
    exact moves_saveBody m composes_thrown (moves_executeSql_thrown db) moves_generateId _ _
  | updateAttributes attrs =>
    cases h
    refine moves_updateBody m composes_thrown (moves_executeSql_thrown db) moves_generateId
      moves_setVars _ (fun a ha hraises => ?_)
    rw [hown a ha] at hraises
    cases hraises
  | destroy => simp [method] at hop
  | deleteAll conditions => simp [method] at hop

theorem body_inside {op : Op} {c : Conn} {p : M Unit} (h : body db m c op = some p) :
    Moves Accepted Inside p := by
  have hexecute := moves_executeSql db
  cases op with
  | save =>
    cases h
    exact moves_saveBody m composes_inside hexecute moves_generateId _ _
  | updateAttributes attrs =>
    cases h
    exact moves_updateBody m composes_inside hexecute moves_generateId moves_setVars _
      (fun _ _ _ => Inside.refl)
  | destroy =>
    obtain ⟨obj, -, rfl⟩ := Option.map_eq_some_iff.mp h
    exact moves_destroyBody m composes_inside hexecute obj
  | deleteAll conditions =>
    cases h
    exact moves_deleteAllBody m composes_inside hexecute Inside.refl conditions

theorem body_vars {op : Op} {c : Conn} {p : M Unit} (h : body db m c op = some p)
    (hmethod : method op ≠ .updateAttributes) : Moves SameVars SameVars p := by
  have hexecute := moves_executeSql_vars db
  have hid : Moves SameVars SameVars generateId := fun c => rfl
  cases op with
  | save =>
    cases h
    exact moves_saveBody m composes_vars hexecute hid _ _
  | updateAttributes attrs => exact absurd rfl hmethod
  | destroy =>
    obtain ⟨obj, -, rfl⟩ := Option.map_eq_some_iff.mp h
    exact moves_destroyBody m composes_vars hexecute obj
  | deleteAll conditions =>
    cases h
    exact moves_deleteAllBody m composes_vars hexecute (fun c => rfl) conditions

theorem restored {op : Op} {c : Conn} (h : Failed db m op c) :
    Restored db (method op) c (outcome db m op c).conn := by
  unfold Failed at h
  rw [outcome_eq] at h ⊢
  cases hbody : body db m c op with
  | none =>
    rw [hbody] at h
    exact absurd h (lt_irrefl _)
  | some p =>
    rw [hbody] at h
    obtain ⟨hunlocked, hclosed, htables⟩ := ended_after db (body_inside db m hbody) c
    refine ⟨hunlocked, hclosed, fun hbegan hbegins hends => htables hbegan hbegins hends h, ?_⟩
    intro hmethod
    exact (moves_transaction db (body_vars db m hbody hmethod)).of_ok (transaction_eq db p c)

end Calls

section Hidden

def noTables : Tables where
  objects := .empty
  changed := .emptyFrom 1

/-- A connection to empty tables. -/
def emptyConn (vars : List (String × Option String)) : Conn :=
  ⟨noTables, none, false, 0, 0, 0, 0, vars⟩

/-- A class whose objects have no methods of their own. -/
def plainModel : Model := ⟨1, false, fun _ => none⟩

/-- SQLite that refuses one statement, or none. -/
def refusing (n : Option Nat) : Sqlite := ⟨sqlite, fun k => some k = n, true, .committed⟩

/-- A call of each method that does not fail. -/
def plainCall : Method → Op
  | .save => .save
  | .updateAttributes => .updateAttributes []
  | .destroy => .destroy
  | .deleteAll => .deleteAll none

theorem plainCall_accepted (meth : Method) :
    ¬Failed (refusing none) plainModel (plainCall meth) (emptyConn []) := by
  cases meth <;> decide +kernel

theorem not_told (db : Sqlite) (m : Model) (op : Op) (c : Conn) :
    ¬Told (method op) (outcome db m op c).value := by
  intro h
  refine h (refusing none) plainModel (plainCall (method op)) (emptyConn []) sqlite_lawful ?_ rfl
    rfl (plainCall_accepted _) ?_
  · cases op <;> rfl
  · rw [outcome_eq, outcome_eq]
    cases op <;> rfl

/-- No caller can tell a call that fails from one that does not, so no failed call is one that has
changed nothing; what else is as before is said apart. -/
theorem failure_hidden (db : Sqlite) (m : Model) (op : Op) (c : Conn) (h : Failed db m op c) :
    ¬Unchanged (method op) c (outcome db m op c) ∧
      Restored db (method op) c (outcome db m op c).conn :=
  ⟨fun hunchanged => not_told db m op c hunchanged.told, restored db m h⟩

/-- A save whose first statement is refused. -/
theorem failure_hidden_save : ¬Unchanged .save (emptyConn [("object", some "7")])
    (outcome (refusing (some 0)) plainModel .save (emptyConn [("object", some "7")])) :=
  (failure_hidden (refusing (some 0)) plainModel .save (emptyConn [("object", some "7")])
    (by decide +kernel)).1

/-- Two attributes, the second of which is refused. -/
def refusedUpdate : Outcome :=
  outcome (refusing (some 4)) plainModel (.updateAttributes [("a", some "1"), ("b", some "2")])
    (emptyConn [("object", some "7")])

/-- update_attributes returns true and keeps the first one in the vars. -/
theorem refused_update_hidden :
    (refusedUpdate.conn.refused = 1 ∧ refusedUpdate.value = some (.bool true)) ∧
    ¬Unchanged .updateAttributes (emptyConn [("object", some "7")]) refusedUpdate := by
  have hrun : refusedUpdate.conn.refused = 1 ∧
      refusedUpdate.conn.vars = [("object", some "7"), ("a", some "1")] := by decide +kernel
  refine ⟨⟨hrun.1, ?_⟩, fun h => ?_⟩
  · rw [refusedUpdate, outcome_eq]
    rfl
  · have hvars := h.vars
    rw [hrun.2] at hvars
    cases hvars

end Hidden

end Rhodes.FailedCalls
