import Rhodes.PageEdits
import Rhodes.PullRules

/-!
The merge of a page into object_values. `Upto` says that a page has been merged up
to some edit, and where that is not the last one the engine was stopped from
outside. Each loop of the merge adds its own edits to it, whatever the moments in
which the UI thread asks for a commit. A pass that meets a group of an unknown
source stops the engine, and then nothing is deleted.
-/
namespace Rhodes.PageMerge

open Database Json Statements Interleaving Source ServerChanges Rhom Threads PullRules KeyedRows
  PageEdits

/-- The moves of a delivery: the UI thread asks for a commit, and where `b` holds it
may stop the engine. -/
def isDelivery (b : Bool) : Move Stmt World UIAction → Bool
  | .own _ _ => true
  | .env (.setUnlockDB _) _ => true
  | .env u _ => b && u.stops

def delivery (b : Bool) (m : Move Stmt World UIAction) : Prop := isDelivery b m = true

def noGoal (_ : Stmt) (_ : World) : Prop := True

/-- The engine goes on where it is not stopped from outside. -/
def Going (b : Bool) (w : World) : Prop := b = false → w.syncState.isContinueSync = true

/-- A change of the state that has nothing to do with object_values. -/
structure Beside (b : Bool) (w w' : World) : Prop where
  objects : w'.objects = w.objects
  stopped : Stopped w → Stopped w'
  going : Going b w → Going b w'

theorem Beside.of_eq {b : Bool} {w w' : World} (hobjects : w'.objects = w.objects)
    (hstate : w'.syncState = w.syncState) : Beside b w w' := by
  refine ⟨hobjects, fun h => ?_, fun h hb => ?_⟩
  · rw [Stopped, hstate]
    exact h
  · rw [hstate]
    exact h hb

theorem beside_of_move {b : Bool} {u : UIAction} {w w' : World} (hu : uiStep u w = some w')
    (hok : delivery b (.env u w)) : Beside b w w' := by
  have hstop : b = true ∧ w'.objects = w.objects ∧ Stopped w' → Beside b w w' := by
    rintro ⟨rfl, hobjects, hstopped⟩
    exact ⟨hobjects, fun _ => hstopped, fun _ hb => by cases hb⟩
  cases u
  case setUnlockDB c =>
    cases hu
    exact Beside.of_eq rfl rfl
  case stopSync =>
    cases hu
    exact hstop ⟨by simpa [delivery, isDelivery, UIAction.stops] using hok, rfl, rfl⟩
  case stopSyncByUser =>
    cases hu
    exact hstop ⟨by simpa [delivery, isDelivery, UIAction.stops] using hok, rfl, rfl⟩
  case exitSync =>
    cases hu
    exact hstop ⟨by simpa [delivery, isDelivery, UIAction.stops] using hok, rfl, rfl⟩
  all_goals simp [delivery, isDelivery, UIAction.stops] at hok

/-- A statement that has nothing to do with object_values. -/
def Aside (i : Stmt) : Prop :=
  ∀ w, (step i w).objects = w.objects ∧ (step i w).syncState = w.syncState

theorem Aside.beside {i : Stmt} (h : Aside i) (b : Bool) (w : World) : Beside b w (step i w) :=
  Beside.of_eq (h w).1 (h w).2

/-- An assertion about object_values and the state of the engine. -/
def Settled (b : Bool) (P : World → Prop) : Prop := ∀ w w', P w → Beside b w w' → P w'

section Delivery

variable {b : Bool} {P Q : World → Prop}

theorem Settled.stable (hP : Settled b P) : (against (delivery b) noGoal).Stable P := by
  rintro w w' h ⟨u, hu, hok⟩
  exact hP w w' h (beside_of_move hu hok)

theorem Settled.and (hP : Settled b P) (hQ : Settled b Q) : Settled b (fun w => P w ∧ Q w) :=
  fun w w' h hbeside => ⟨hP w w' h.1 hbeside, hQ w w' h.2 hbeside⟩

theorem Settled.only (hP : Settled b P) {α : Type} {p : Sync α} (hp : p.Only Aside) :
    (against (delivery b) noGoal).Triple P p (fun _ => P) :=
  Discipline.Triple.only hP.stable (fun _ w hi h _ => ⟨trivial, hP w _ h (hi.beside b w)⟩) hp

theorem settled_stopped : Settled b Stopped := fun _ _ h hbeside => hbeside.stopped h

theorem settled_going : Settled b (Going b) := fun _ _ h hbeside => hbeside.going h

/-- All of the edits have been made. -/
def Exactly (b : Bool) (rows : List ObjectValue) (edits : List RowEdit) (w : World) : Prop :=
  w.objects.rows = merged rows edits ∧ Going b w

/-- The edits have been made up to some point; only a stop from outside cuts them. -/
def Upto (b : Bool) (rows : List ObjectValue) (edits : List RowEdit) (w : World) : Prop :=
  ∃ k, w.objects.rows = merged rows (edits.take k) ∧ (k < edits.length → b = true ∧ Stopped w)

variable {rows : List ObjectValue} {edits : List RowEdit}

theorem settled_exactly : Settled b (Exactly b rows edits) := by
  intro w w' h hbeside
  refine ⟨?_, hbeside.going h.2⟩
  rw [hbeside.objects]
  exact h.1

theorem settled_upto : Settled b (Upto b rows edits) := by
  rintro w w' ⟨k, hrows, hcut⟩ hbeside
  refine ⟨k, ?_, fun hk => ⟨(hcut hk).1, hbeside.stopped (hcut hk).2⟩⟩
  rw [hbeside.objects]
  exact hrows

theorem Exactly.upto {w : World} (h : Exactly b rows edits w) :
    Upto b rows edits w ∧ Going b w := by
  refine ⟨⟨edits.length, ?_, fun hk => absurd hk (lt_irrefl _)⟩, h.2⟩
  rw [List.take_length]
  exact h.1

/-- An engine that goes on has made all of the edits. -/
theorem Upto.exactly {w : World} (h : Upto b rows edits w) (hgoing : Going b w)
    (hgo : w.syncState.isContinueSync = true) : Exactly b rows edits w := by
  obtain ⟨k, hrows, hcut⟩ := h
  refine ⟨?_, hgoing⟩
  have hk : edits.length ≤ k := by
    by_contra hlt
    have hstop := (hcut (by omega)).2
    rw [Stopped, hgo] at hstop
    cases hstop
  rw [hrows, List.take_of_length_le hk]

/-- Edits that come after a stop are not made. -/
theorem Upto.stop {w : World} (h : Upto b rows edits w) (hb : b = true) (hstop : Stopped w)
    (more : List RowEdit) : Upto b rows (edits ++ more) w := by
  obtain ⟨k, hrows, -⟩ := h
  refine ⟨min k edits.length, ?_, fun _ => ⟨hb, hstop⟩⟩
  rw [List.take_append_of_le_length (Nat.min_le_right _ _), hrows]
  congr 1
  rcases Nat.le_total k edits.length with hk | hk
  · rw [Nat.min_eq_left hk]
  · rw [Nat.min_eq_right hk, List.take_length, List.take_of_length_le hk]

theorem going_stopped {w : World} (hgoing : Going b w) (hstop : Stopped w) : b = true := by
  cases b with
  | true => rfl
  | false =>
    rw [Stopped, hgoing rfl] at hstop
    cases hstop

theorem exactly_insert {row : ObjectValue} {w : World} (hrow : Keyed row)
    (h : Exactly b rows edits w) :
    if (w.objects.insert row).isNone then
      Exactly b rows edits (step (.insertObject row) w) ∧
        (step (.insertObject row) w).objects.insert row = none
    else Exactly b rows (edits ++ [.put row]) (step (.insertObject row) w) := by
  have hgoing : Going b (step (.insertObject row) w) := h.2
  cases hinsert : w.objects.insert row with
  | none =>
    have hsame : (step (.insertObject row) w).objects = w.objects := by
      simp only [step, hinsert, Option.getD_none]
    simp only [Option.isNone_none, if_true]
    exact ⟨⟨by rw [hsame]; exact h.1, hgoing⟩, by rw [hsame]; exact hinsert⟩
  | some T =>
    simp only [Option.isNone_some, Bool.false_eq_true, if_false]
    refine ⟨?_, hgoing⟩
    simp only [step, hinsert, Option.getD_some]
    rw [insert_put hrow hinsert, h.1, merged, merged, applyAll_concat]
    rfl

theorem exactly_update {page : List ObjectValue} {row : ObjectValue} {w : World} (hrow : Keyed row)
    (hwithin : Within rows page (edits ++ [.put row])) (h : Exactly b rows edits w)
    (hnone : w.objects.insert row = none) (value attribType : String)
    (hvalue : row.value = some value) (htype : row.attribType = some attribType) :
    Exactly b rows (edits ++ [.put row])
      (step (.updateObject row.sourceId row.object row.attrib row.id value attribType) w) := by
  refine ⟨?_, h.2⟩
  have hids : ∀ s ∈ w.objects.rows, s.id = row.id → triple s = triple row := by
    rw [h.1]
    exact hwithin.ids
  have hput := update_put hrow hnone hids
  have hassign : assignRow row = fun s =>
      { s with id := row.id, value := some value, attribType := some attribType } := by
    funext s
    rw [assignRow, hvalue, htype]
  rw [hassign] at hput
  simp only [step]
  rw [hput, h.1, merged, merged, applyAll_concat]
  rfl

theorem exactly_delete {id : Int64} {w : World} (h : Exactly b rows edits w) :
    Exactly b rows (edits ++ [.drop id]) (step (.deleteObject id) w) := by
  refine ⟨?_, h.2⟩
  simp only [step, ObjectTable.delete_rows]
  rw [h.1, merged, merged, applyAll_concat]
  rfl

/-- An insert entry is one edit, whichever of its statements makes it. -/
theorem insertEntry_exactly {page : List ObjectValue} (nSrcID : Int) (object : Option String)
    (hobject : object.isSome) (entry : JsonObject)
    (hwithin : Within rows page (edits ++ [.put (entryRow nSrcID object entry)])) :
    (against (delivery b) noGoal).Triple (Exactly b rows edits)
      (insertEntry nSrcID object (entry.getStr "a") (cValue entry))
      (fun _ => Exactly b rows (edits ++ [.put (entryRow nSrcID object entry)])) := by
  have hrow : Keyed (entryRow nSrcID object entry) := ⟨hobject, rfl⟩
  have hdone : Settled b (Exactly b rows (edits ++ [.put (entryRow nSrcID object entry)])) :=
    settled_exactly
  have haside : ∀ {i : Stmt}, Aside i → (execute i).Only Aside := fun hi => execute_only hi
  refine Discipline.Triple.perform_bind (fun nonUnique w => if nonUnique then
      Exactly b rows edits w ∧ w.objects.insert (entryRow nSrcID object entry) = none
    else Exactly b rows (edits ++ [Edit.put (entryRow nSrcID object entry)]) w)
    settled_exactly.stable (fun w h _ => ⟨trivial, exactly_insert hrow h⟩) ?_
  intro nonUnique
  refine Discipline.Triple.bind (Q := fun _ =>
    Exactly b rows (edits ++ [.put (entryRow nSrcID object entry)])) ?_
    (fun _ => hdone.only (haside (fun _ => ⟨rfl, rfl⟩)))
  cases nonUnique with
  | false => exact Discipline.Triple.ret hdone.stable (fun _ h => h)
  | true =>
    have hfailed : Settled b (fun w => Exactly b rows edits w ∧
        w.objects.insert (entryRow nSrcID object entry) = none) :=
      settled_exactly.and (fun w w' h hbeside => by rw [hbeside.objects]; exact h)
    refine execute_bind hfailed.stable (fun w h _ => ⟨trivial,
      exactly_update hrow hwithin h.1 h.2 _ _ rfl rfl⟩) ?_
    exact Discipline.Triple.bind (hdone.only (haside (fun _ => ⟨rfl, rfl⟩)))
      (fun _ => hdone.only (haside (fun _ => ⟨rfl, rfl⟩)))

/-- A delete entry is one edit; where it finds no row the edit changes nothing. -/
theorem deleteEntry_exactly (id : Int64) :
    (against (delivery b) noGoal).Triple (Exactly b rows edits) (deleteEntry id)
      (fun _ => Exactly b rows (edits ++ [.drop id])) := by
  have hdone : Settled b (Exactly b rows (edits ++ [.drop id])) := settled_exactly
  have haside : ∀ {i : Stmt}, Aside i → (execute i).Only Aside := fun hi => execute_only hi
  refine Discipline.Triple.perform_bind (fun row w => if row = none then
      Exactly b rows (edits ++ [.drop id]) w else Exactly b rows edits w)
    settled_exactly.stable ?_ (fun row => Discipline.Triple.bind
      (Q := fun _ => Exactly b rows (edits ++ [.drop id])) ?_
      (fun _ => hdone.only (haside (fun _ => ⟨rfl, rfl⟩))))
  · intro w h _
    refine ⟨trivial, ?_⟩
    split
    · rename_i hnone
      refine ⟨?_, h.2⟩
      rw [merged, applyAll_concat]
      have hkeep : (merged rows edits).filter (fun s => s.id ≠ id) = merged rows edits := by
        rw [List.filter_eq_self]
        intro s hs
        rw [← h.1] at hs
        simpa using List.find?_eq_none.mp hnone s hs
      exact h.1.trans hkeep.symm
    · exact h
  · cases row with
    | none => exact Discipline.Triple.ret hdone.stable (fun _ h => h)
    | some row =>
      refine execute_bind settled_exactly.stable (fun w h _ => ⟨trivial, exactly_delete h⟩) ?_
      exact hdone.only (haside (fun _ => ⟨rfl, rfl⟩))

/-- What the loops leave alone in the object, and that no download failed. -/
structure Intact (this : SyncSource) (r : Merge) : Prop where
  id : r.this.id = this.id
  name : r.this.name = this.name
  pass : r.this.pass = this.pass
  ok : r.ok = true

/-- The state between two edits. -/
def Between (b : Bool) (rows : List ObjectValue) (edits : List RowEdit) (w : World) : Prop :=
  Upto b rows edits w ∧ Going b w

theorem settled_between : Settled b (Between b rows edits) := settled_upto.and settled_going

variable {page : List ObjectValue}

/-- The test of the engine's state before an edit. -/
theorem between_bind {α : Type} {f : Bool → Sync α} {R : α → World → Prop}
    (hyes : (against (delivery b) noGoal).Triple (Exactly b rows edits) (f true) R)
    (hno : (against (delivery b) noGoal).Triple
      (fun w => Between b rows edits w ∧ b = true ∧ Stopped w) (f false) R) :
    (against (delivery b) noGoal).Triple (Between b rows edits) (isContinueSync.bind f) R := by
  refine continue_bind settled_between.stable ?_ hyes hno
  intro w h _
  exact ⟨trivial, fun hgo => h.1.exactly h.2 hgo, fun hstop => ⟨h, going_stopped h.2 hstop, hstop⟩⟩

/-- The end of a loop that finds the engine stopped. -/
theorem between_stop {more : List RowEdit} {this : SyncSource} {r : Merge} (hr : Intact this r) :
    (against (delivery b) noGoal).Triple
      (fun w => Between b rows edits w ∧ b = true ∧ Stopped w) (.ret r)
      (fun r w => Between b rows (edits ++ more) w ∧ Intact this r) := by
  have hcut : Settled b (fun w => Between b rows edits w ∧ b = true ∧ Stopped w) :=
    fun w w' h hbeside => ⟨settled_between w w' h.1 hbeside, h.2.1, hbeside.stopped h.2.2⟩
  refine Discipline.Triple.ret hcut.stable ?_
  rintro w ⟨h, hb, hstop⟩
  exact ⟨⟨h.1.stop hb hstop more, h.2⟩, hr⟩

theorem between_end {this : SyncSource} {r : Merge} (hr : Intact this r) :
    (against (delivery b) noGoal).Triple (Between b rows edits) (.ret r)
      (fun r w => Between b rows (edits ++ []) w ∧ Intact this r) := by
  rw [List.append_nil]
  exact Discipline.Triple.ret settled_between.stable (fun _ h => ⟨h, hr⟩)

theorem processEntries_between (e : Engine) (nSrcID : Int) (object : Option String)
    (hobject : 0 ≤ nSrcID → object.isSome) (this₀ : SyncSource) (list : List JsonObject)
    (hblob : 0 ≤ nSrcID → ∀ entry ∈ list.filter (fun entry => !entry.isEmpty),
      entry.getStr "t" ≠ "blob.url")
    (hwithin : Within rows page (edits ++
      (list.filter (fun entry => !entry.isEmpty)).map (entryEdit nSrcID object)))
    (this : SyncSource) (updatedOO : Bool) (hthis : Intact this₀ ⟨this, true, true⟩) :
    (against (delivery b) noGoal).Triple (Between b rows edits)
      (processEntries e nSrcID none object this updatedOO list)
      (fun r w => Between b rows (edits ++
        (list.filter (fun entry => !entry.isEmpty)).map (entryEdit nSrcID object)) w ∧
        Intact this₀ r) := by
  induction list generalizing this updatedOO edits with
  | nil => exact between_end ⟨hthis.1, hthis.2, hthis.3, rfl⟩
  | cons entry rest ih =>
    refine between_bind ?_ (between_stop ⟨hthis.1, hthis.2, hthis.3, rfl⟩)
    rw [if_pos rfl]
    by_cases hempty : entry.isEmpty = true
    · rw [List.filter_cons_of_neg (by simp [hempty])] at hblob hwithin ⊢
      rw [if_pos hempty]
      exact (ih hblob hwithin this updatedOO hthis).conseq (fun _ h => h.upto) (fun _ _ h => h)
    · rw [List.filter_cons_of_pos (by simp [hempty])] at hblob hwithin ⊢
      rw [if_neg hempty]
      rw [List.map_cons, List.append_cons] at hwithin ⊢
      by_cases hsrc : nSrcID ≥ 0
      · have hload : downloadBlob e (cValue entry) = .ret (.ok (cValue entry)) :=
          if_pos (hblob hsrc entry (by simp))
        have hedit : entryEdit nSrcID object entry = .put (entryRow nSrcID object entry) :=
          if_pos hsrc
        rw [if_pos hsrc, hload, Prog.bind_eq, Prog.ret_bind]
        rw [hedit] at hwithin ⊢
        refine Discipline.Triple.bind
          (insertEntry_exactly nSrcID object (hobject hsrc) entry hwithin.left) (fun _ => ?_)
        refine Discipline.Triple.conseq (ih ?_ hwithin _ _ ?_) (fun _ h => Exactly.upto h)
          (fun _ _ h => h)
        · exact fun h en hen => hblob h en (List.mem_cons_of_mem _ hen)
        · exact ⟨hthis.1, hthis.2, hthis.3, rfl⟩
      · have hedit : entryEdit nSrcID object entry = .drop (entry.getUInt64 "i").toInt64 :=
          if_neg hsrc
        rw [if_neg hsrc]
        rw [hedit] at hwithin ⊢
        refine Discipline.Triple.bind (deleteEntry_exactly _) (fun _ => ?_)
        refine Discipline.Triple.conseq (ih (fun h => absurd h hsrc) hwithin _ _ ?_)
          (fun _ h => Exactly.upto h) (fun _ _ h => h)
        exact ⟨hthis.1, hthis.2, hthis.3, rfl⟩

theorem processSyncObjectVer1_between (e : Engine) (this₀ this : SyncSource) (json : JsonObject)
    (nSrcID : Int) (hplain : PlainObject nSrcID json) (hthis : Intact this₀ ⟨this, true, true⟩)
    (hwithin : Within rows page (edits ++ objectEdits this₀.pass nSrcID json)) :
    (against (delivery b) noGoal).Triple (Between b rows edits)
      (processSyncObjectVer1 e this json nSrcID)
      (fun r w => Between b rows (edits ++ objectEdits this₀.pass nSrcID json) w ∧
        Intact this₀ r) := by
  have hpass : this.pass = this₀.pass := hthis.pass
  unfold objectEdits at hwithin ⊢
  unfold processSyncObjectVer1
  rw [hpass]
  by_cases hskip : decide (this₀.pass = .edpDeleteObjects) ≠ decide (nSrcID < 0)
  · rw [if_pos hskip, if_pos hskip]
    exact between_end hthis
  · rw [if_neg hskip] at hwithin
    rw [if_neg hskip, if_neg hskip, if_neg (by rw [hplain.noError]; exact Bool.false_ne_true),
      hplain.noOld]
    exact processEntries_between e nSrcID _ hplain.named this₀ _ hplain.noBlob hwithin this
      false hthis

theorem processObjects_between (e : Engine) (nSrcID : Int) (this₀ : SyncSource)
    (objects : List JsonObject) (hplain : ∀ json ∈ objects, PlainObject nSrcID json)
    (hwithin : Within rows page (edits ++ objects.flatMap (objectEdits this₀.pass nSrcID)))
    (this : SyncSource) (hthis : Intact this₀ ⟨this, true, true⟩) :
    (against (delivery b) noGoal).Triple (Between b rows edits)
      (processObjects e nSrcID this objects)
      (fun r w => Between b rows (edits ++ objects.flatMap (objectEdits this₀.pass nSrcID)) w ∧
        Intact this₀ r) := by
  induction objects generalizing this edits with
  | nil => exact between_end hthis
  | cons json rest ih =>
    rw [List.flatMap_cons, ← List.append_assoc] at hwithin ⊢
    refine between_bind ?_ ?_
    · rw [if_pos rfl]
      refine Discipline.Triple.conseq (P := Between b rows edits) ?_ (fun _ h => h.upto)
        (fun _ _ h => h)
      refine Discipline.Triple.bind (settled_between.only ?_) (fun _ => ?_)
      · refine Prog.Only.bind (query_only (fun _ => ⟨rfl, rfl⟩) _) (fun _ => when_only ?_)
        exact Prog.Only.bind (execute_only (fun _ => ⟨rfl, rfl⟩))
          (fun _ => execute_only (fun _ => ⟨rfl, rfl⟩))
      refine Discipline.Triple.bind (processSyncObjectVer1_between e this₀ this json nSrcID
        (hplain json (by simp)) hthis hwithin.left) ?_
      rintro r s ⟨hs, hr⟩
      rw [if_pos hr.ok]
      refine Discipline.Triple.bind (settled_between.only ?_) (fun _ => ?_) s hs
      · refine Prog.Only.ite (Prog.Only.bind (Prog.Only.perform (fun _ => ⟨rfl, rfl⟩) _) ?_) trivial
        exact fun n => when_only (execute_only (fun _ => ⟨rfl, rfl⟩))
      refine Discipline.Triple.bind (ih (fun j hj => hplain j (List.mem_cons_of_mem _ hj)) hwithin _
        ⟨hr.id, hr.name, hr.pass, rfl⟩) ?_
      rintro q t ⟨ht, hq⟩
      refine Discipline.Triple.ret settled_between.stable (fun w h => ⟨h, ?_⟩) t ht
      exact ⟨hq.id, hq.name, hq.pass, hq.ok⟩
    · rw [List.append_assoc]
      exact between_stop ⟨hthis.1, hthis.2, hthis.3, rfl⟩

/-- The state after a pass: it ended at a group of an unknown source and stopped the
engine, or it went through all groups. -/
def AfterPass (b : Bool) (rows : List ObjectValue) (edits : List RowEdit) (known : Prop)
    (w : World) : Prop := Upto b rows edits w ∧ (known → Going b w) ∧ (¬ known → Stopped w)

theorem settled_afterPass {known : Prop} : Settled b (AfterPass b rows edits known) :=
  fun w w' h hbeside => ⟨settled_upto w w' h.1 hbeside, fun hk => hbeside.going (h.2.1 hk),
    fun hk => hbeside.stopped (h.2.2 hk)⟩

theorem stopSync_upto : (against (delivery b) noGoal).Triple (Upto b rows edits) stopSync
    (fun _ w => Upto b rows edits w ∧ Stopped w) := by
  have hstopped : Settled b (fun w => Upto b rows edits w ∧ Stopped w) :=
    settled_upto.and settled_stopped
  have htest : ∀ w, Upto b rows edits w → delivery b (.own .read w) → noGoal .read w ∧
      (w.syncState.isContinueSync = true → Upto b rows edits w) ∧
      (w.syncState.isContinueSync = false → Upto b rows edits w ∧ Stopped w) :=
    fun w h _ => ⟨trivial, fun _ => h, fun hstop => ⟨h, hstop⟩⟩
  refine continue_bind settled_upto.stable htest ?_ ?_
  · apply Discipline.Triple.act settled_upto.stable
    rintro w ⟨k, hrows, hcut⟩ -
    have hend : Upto b rows edits (step (.setState .esStop) w) ∧
        Stopped (step (.setState .esStop) w) :=
      ⟨⟨k, hrows, fun hk => ⟨(hcut hk).1, rfl⟩⟩, rfl⟩
    exact ⟨trivial, fun v hv => hstopped.stable.star hend hv⟩
  · exact Discipline.Triple.ret hstopped.stable (fun _ h => h)

theorem groupSource_congr (e : Engine) {this this₀ : SyncSource} (hid : this.id = this₀.id)
    (hname : this.name = this₀.name) : groupSource e this = groupSource e this₀ := by
  funext strSrcName
  simp only [groupSource, hid, hname]

theorem processServerDataVer1_between (e : Engine) (this₀ : SyncSource) (groups : List JsonObject)
    (hplain : Plain (groupSource e this₀) groups)
    (hwithin : Within rows page (edits ++ passEdits (groupSource e this₀) this₀.pass groups))
    (this : SyncSource) (hthis : Intact this₀ ⟨this, true, true⟩) :
    (against (delivery b) noGoal).Triple (Between b rows edits)
      (processServerDataVer1 e this groups)
      (fun r w => AfterPass b rows (edits ++ passEdits (groupSource e this₀) this₀.pass groups)
        (AllKnown (groupSource e this₀) groups) w ∧ Intact this₀ { r with ok := true }) := by
  induction groups generalizing this edits with
  | nil =>
    refine Discipline.Triple.ret settled_between.stable (fun w h => ⟨⟨?_, fun _ => h.2, ?_⟩, hthis⟩)
    · simpa [passEdits] using h.1
    · exact fun hunknown => absurd (fun group hg => by cases hg) hunknown
  | cons group rest ih =>
    refine between_bind ?_ ?_
    · rw [if_pos rfl, groupSource_congr e hthis.id hthis.name]
      cases hsrc : groupSource e this₀ (group.getStr "s") with
      | none =>
        have hunknown : ¬ AllKnown (groupSource e this₀) (group :: rest) := by
          intro h
          have := h group (by simp)
          rw [hsrc] at this
          cases this
        have hnil : passEdits (groupSource e this₀) this₀.pass (group :: rest) = [] := by
          simp [passEdits, hsrc]
        rw [hnil, List.append_nil]
        refine Discipline.Triple.bind (stopSync_upto.conseq (fun _ h => (Exactly.upto h).1)
          (fun _ _ h => h)) (fun _ => ?_)
        refine Discipline.Triple.ret (settled_upto.and settled_stopped).stable
          (fun w h => ⟨⟨h.1, fun hk => absurd hk hunknown, fun _ => h.2⟩, ?_⟩)
        exact ⟨hthis.1, hthis.2, hthis.3, rfl⟩
      | some nSrcID =>
        have hedits : passEdits (groupSource e this₀) this₀.pass (group :: rest) =
            (group.getArray "ol").flatMap (objectEdits this₀.pass nSrcID) ++
              passEdits (groupSource e this₀) this₀.pass rest := by
          simp [passEdits, hsrc]
        have hrest : AllKnown (groupSource e this₀) (group :: rest) ↔
            AllKnown (groupSource e this₀) rest := by
          simp [AllKnown, hsrc]
        rw [hedits, ← List.append_assoc] at hwithin ⊢
        rw [hrest]
        refine Discipline.Triple.bind ((processObjects_between e nSrcID this₀ _
          (hplain group (by simp) nSrcID hsrc) hwithin.left this hthis).conseq
          (fun _ h => Exactly.upto h) (fun _ _ h => h)) ?_
        rintro r s ⟨hs, hr⟩
        refine Discipline.Triple.bind (ih (fun g hg =>
          hplain g (List.mem_cons_of_mem _ hg)) hwithin _
          ⟨hr.id, hr.name, hr.pass, rfl⟩) ?_ s hs
        rintro q t ⟨ht, hq⟩
        exact Discipline.Triple.ret settled_afterPass.stable
          (fun w h => ⟨h, hq.id, hq.name, hq.pass, rfl⟩) t ht
    · have hcut : Settled b (fun w => Between b rows edits w ∧ b = true ∧ Stopped w) :=
        fun w w' h hbeside => ⟨settled_between w w' h.1 hbeside, h.2.1, hbeside.stopped h.2.2⟩
      refine Discipline.Triple.ret hcut.stable ?_
      rintro w ⟨h, hb, hstop⟩
      exact ⟨⟨h.1.stop hb hstop _, fun _ => h.2, fun _ => hstop⟩, hthis.1, hthis.2, hthis.3, rfl⟩

/-- A pass that finds the engine stopped does nothing. -/
theorem processServerDataVer1_stopped (e : Engine) (this : SyncSource) (groups : List JsonObject)
    (hgroups : groups ≠ []) :
    (against (delivery b) noGoal).Triple (fun w => Upto b rows edits w ∧ Stopped w)
      (processServerDataVer1 e this groups) (fun _ w => Upto b rows edits w ∧ Stopped w) := by
  have hsettled : Settled b (fun w => Upto b rows edits w ∧ Stopped w) :=
    settled_upto.and settled_stopped
  cases groups with
  | nil => exact absurd rfl hgroups
  | cons group rest =>
    have htest : ∀ w, Upto b rows edits w ∧ Stopped w → delivery b (.own .read w) →
        noGoal .read w ∧ (w.syncState.isContinueSync = true → False) ∧
        (w.syncState.isContinueSync = false → Upto b rows edits w ∧ Stopped w) := by
      intro w h _
      refine ⟨trivial, fun hgo => ?_, fun _ => h⟩
      have hstop := h.2
      rw [Stopped, hgo] at hstop
      cases hstop
    apply continue_bind hsettled.stable htest (fun _ h => h.elim)
    exact Discipline.Triple.ret hsettled.stable (fun _ h => h)

theorem mergePage_upto (e : Engine) (this : SyncSource) (groups : List JsonObject)
    (hplain : Plain (groupSource e this) groups)
    (hwithin : Within rows page (pageEdits (groupSource e this) groups)) :
    (against (delivery b) noGoal).Triple (Between b rows []) (mergePage e this groups)
      (fun _ => Upto b rows (pageEdits (groupSource e this) groups)) := by
  by_cases hgroups : groups = []
  · subst hgroups
    rw [mergePage, if_pos rfl]
    refine Discipline.Triple.ret settled_between.stable (fun w h => ?_)
    simpa [pageEdits, passEdits] using h.1
  rw [mergePage, if_neg hgroups]
  refine between_bind ?_ ?_
  · rw [if_pos rfl]
    refine Discipline.Triple.bind (settled_exactly.only (execute_only (fun _ => ⟨rfl, rfl⟩)))
      (fun _ => ?_)
    have hfirst : groupSource e { this with pass := .edpNone } = groupSource e this :=
      groupSource_congr e rfl rfl
    have hputs : Within rows page
        ([] ++ passEdits (groupSource e { this with pass := .edpNone }) .edpNone groups) := by
      rw [hfirst]
      exact hwithin.left
    have hpass := processServerDataVer1_between (b := b) e
      { this with pass := .edpNone } groups (by rw [hfirst]; exact hplain) hputs
      { this with pass := .edpNone } ⟨rfl, rfl, rfl, rfl⟩
    rw [hfirst, List.nil_append] at hpass
    apply Discipline.Triple.bind (hpass.conseq (fun _ h => Exactly.upto h) (fun _ _ h => h))
    rintro r s ⟨hs, hr⟩
    have hend : ∀ (q : Merge), (against (delivery b) noGoal).Triple
        (Upto b rows (pageEdits (groupSource e this) groups))
        ((execute .endTransaction).bind (fun _ => (notify .fireObjectsNotification).bind
          (fun _ => .ret { q with finished := r.finished && q.finished })))
        (fun _ => Upto b rows (pageEdits (groupSource e this) groups)) := by
      intro q
      refine settled_upto.only (Prog.Only.bind (execute_only (fun _ => ⟨rfl, rfl⟩)) (fun _ => ?_))
      exact Prog.Only.bind (execute_only (fun _ => ⟨rfl, rfl⟩)) (fun _ => trivial)
    refine Discipline.Triple.bind (Q := fun _ => Upto b rows
      (pageEdits (groupSource e this) groups))
      ?_ hend s hs
    by_cases hknown : AllKnown (groupSource e this) groups
    · have hsecond : groupSource e { r.this with pass := .edpDeleteObjects } = groupSource e this :=
        groupSource_congr e hr.id hr.name
      have hedits : pageEdits (groupSource e this) groups =
          passEdits (groupSource e this) .edpNone groups ++
            passEdits (groupSource e this) .edpDeleteObjects groups := by
        rw [pageEdits, if_pos hknown]
      rw [hedits, ← hsecond] at hwithin
      rw [hedits]
      have hpass' := processServerDataVer1_between (b := b) e
        { r.this with pass := .edpDeleteObjects } groups (by rw [hsecond]; exact hplain) hwithin
        { r.this with pass := .edpDeleteObjects } ⟨rfl, rfl, rfl, rfl⟩
      rw [hsecond] at hpass'
      exact hpass'.conseq (fun _ h => ⟨h.1, h.2.1 hknown⟩) (fun _ _ h => h.1.1)
    · rw [pageEdits, if_neg hknown, List.append_nil]
      exact (processServerDataVer1_stopped e _ groups hgroups).conseq
        (fun _ h => ⟨h.1, h.2.2 hknown⟩) (fun _ _ h => h.1)
  · have hcut : Settled b (fun w => Between b rows [] w ∧ b = true ∧ Stopped w) :=
      fun w w' h hbeside => ⟨settled_between w w' h.1 hbeside, h.2.1, hbeside.stopped h.2.2⟩
    exact Discipline.Triple.ret hcut.stable (fun w h => h.1.1.stop h.2.1 h.2.2 _)

theorem processToken_returns (this : SyncSource) (token : UInt64) :
    (processToken this token).Returns
      (fun that => that = { this with token, tokenFromDB := false }) := by
  have hend : ∀ _ : Unit, ((execute (.tokenProcessed this.id token)).bind
      (fun _ => Prog.ret { this with token, tokenFromDB := false })).Returns
      (fun that => that = { this with token, tokenFromDB := false }) :=
    fun _ => Prog.Returns.perform_bind _ _ (fun _ => rfl)
  refine Prog.Returns.bind (R := fun _ => True) (Prog.Returns.ite ?_ trivial) (fun a _ => hend a)
  exact fun _ => trivial

theorem processToken_aside (this : SyncSource) (token : UInt64) :
    (processToken this token).Only Aside := by
  refine Prog.Only.bind (when_only (execute_only (fun _ => ⟨rfl, rfl⟩))) (fun _ => ?_)
  exact Prog.Only.bind (execute_only (fun _ => ⟨rfl, rfl⟩)) (fun _ => trivial)

theorem endPage_aside (this : SyncSource) : (endPage this).Only Aside :=
  Prog.Only.bind (when_only (execute_only (fun _ => ⟨rfl, rfl⟩))) (fun _ => trivial)

theorem processPage_upto (e : Engine) (this : SyncSource) (token : UInt64)
    (groups : List JsonObject) (hplain : Plain (groupSource e this) groups)
    (hwithin : Within rows page (pageEdits (groupSource e this) groups)) :
    (against (delivery b) noGoal).Triple (Between b rows []) (processPage e this token groups)
      (fun _ => Upto b rows (pageEdits (groupSource e this) groups)) := by
  refine Discipline.Triple.bind ((settled_between.only (processToken_aside this token)).returns
    (processToken_returns this token)) ?_
  rintro that s ⟨hs, rfl⟩
  have hsame : groupSource e { this with token, tokenFromDB := false } = groupSource e this :=
    groupSource_congr e rfl rfl
  rw [← hsame] at hplain hwithin ⊢
  refine Discipline.Triple.bind (mergePage_upto e _ groups hplain hwithin) (fun r => ?_) s hs
  refine settled_upto.only (Prog.Only.bind (execute_only (fun _ => ⟨rfl, rfl⟩)) (fun _ => ?_))
  exact endPage_aside _

end Delivery

/-- A page of version 1: it is no error, and after its head it has a token and groups. -/
structure IsPage (this : SyncSource) (data : Option JsonObject) (token : UInt64)
    (groups : List JsonObject) : Prop where
  noError : ((data.getD .null).items.headD .null).hasName "error" = false
  body : ∃ element, (readHead this (data.getD .null).items).2 = element :: groups ∧
    element.getUInt64 "token" = token

theorem readHead_this (this : SyncSource) (items : List JsonObject) :
    (readHead this items).1.id = this.id ∧ (readHead this items).1.name = this.name ∧
      (readHead this items).1.token = this.token := by
  unfold readHead
  split
  · exact ⟨rfl, rfl, rfl⟩
  · simp only
    split
    · split <;> exact ⟨rfl, rfl, rfl⟩
    · exact ⟨rfl, rfl, rfl⟩

theorem processServerData_upto {b : Bool} {rows page : List ObjectValue} (e : Engine)
    (this : SyncSource) (data : Option JsonObject) (token : UInt64) (groups : List JsonObject)
    (hpage : IsPage this data token groups) (hplain : Plain (groupSource e this) groups)
    (hwithin : Within rows page (pageEdits (groupSource e this) groups)) :
    (against (delivery b) noGoal).Triple (Between b rows []) (processServerData e this data)
      (fun _ => Upto b rows (pageEdits (groupSource e this) groups)) := by
  obtain ⟨element, hbody, -⟩ := hpage.body
  obtain ⟨hid, hname, -⟩ := readHead_this this (data.getD .null).items
  have hsame : groupSource e (readHead this (data.getD .null).items).1 = groupSource e this :=
    groupSource_congr e hid hname
  unfold processServerData
  rw [if_neg (by rw [hpage.noError]; exact Bool.false_ne_true)]
  refine Discipline.Triple.bind
    (settled_between.only (when_only (execute_only (fun _ => ⟨rfl, rfl⟩)))) (fun _ => ?_)
  rw [hbody]
  rw [← hsame] at hplain hwithin ⊢
  exact processPage_upto e _ _ groups hplain hwithin

/-- A delivery of a page, run to its end. -/
structure Delivery (b : Bool) (e : Engine) (this : SyncSource) (data : Option JsonObject)
    (w w' : World) : Prop where
  run : ∃ ms this', Run step uiStep (processServerData e this data) w ms (.ret this') w' ∧
    ∀ m ∈ ms, delivery b m
  going : w.syncState.isContinueSync = true

/-- A delivery makes the edits of its page up to some point, and all of them where it is
not stopped. -/
theorem Delivery.upto {b : Bool} {e : Engine} {this : SyncSource} {data : Option JsonObject}
    {token : UInt64} {groups : List JsonObject} {w w' : World} (h : Delivery b e this data w w')
    (hpage : IsPage this data token groups) (hplain : Plain (groupSource e this) groups)
    (hids : OneTriple (w.objects.rows ++ inserts (groupSource e this) groups)) :
    Upto b w.objects.rows (pageEdits (groupSource e this) groups) w' := by
  obtain ⟨ms, this', hrun, hms⟩ := h.run
  have htriple := processServerData_upto (b := b) e this data token groups hpage hplain
    (pageEdits_within hids)
  have hstart : Between b w.objects.rows [] w :=
    ⟨⟨0, rfl, fun hk => absurd hk (Nat.not_lt_zero _)⟩, fun _ => h.going⟩
  exact (Discipline.wp_run hrun (htriple w hstart) hms).2 this' rfl

theorem Delivery.merged {e : Engine} {this : SyncSource} {data : Option JsonObject}
    {token : UInt64} {groups : List JsonObject} {w w' : World} (h : Delivery false e this data w w')
    (hpage : IsPage this data token groups) (hplain : Plain (groupSource e this) groups)
    (hids : OneTriple (w.objects.rows ++ inserts (groupSource e this) groups)) :
    w'.objects.rows = merged w.objects.rows (pageEdits (groupSource e this) groups) := by
  obtain ⟨k, hrows, hcut⟩ := h.upto hpage hplain hids
  have hk : (pageEdits (groupSource e this) groups).length ≤ k := by
    by_contra hlt
    exact absurd (hcut (by omega)).1 Bool.false_ne_true
  rw [hrows, List.take_of_length_le hk]

/-- The old table overridden by the insert entries in their order, without the rows
whose ids the page deletes. -/
def pageResult (resolve : String → Option Int) (groups : List JsonObject)
    (rows : List ObjectValue) : List ObjectValue :=
  (putAll triple rows (inserts resolve groups)).filter (fun r => r.id ∉ deletes resolve groups)

/-- A delete group of the page. -/
def isDelete (resolve : String → Option Int) (group : JsonObject) : Bool :=
  (resolve (group.getStr "s")).any (fun nSrcID => nSrcID < 0)

/-- The delete groups stand in other places and in another order. -/
structure DeletesMoved (resolve : String → Option Int) (groups groups' : List JsonObject) :
    Prop where
  inserts : groups'.filter (fun g => !isDelete resolve g) = groups.filter (fun g => !isDelete resolve g)
  deletes : (groups'.filter (isDelete resolve)).Perm (groups.filter (isDelete resolve))

theorem inserts_filter (resolve : String → Option Int) (groups : List JsonObject) :
    inserts resolve groups = inserts resolve (groups.filter (fun g => !isDelete resolve g)) := by
  induction groups with
  | nil => rfl
  | cons group rest ih =>
    cases hsrc : resolve (group.getStr "s") with
    | none => simpa [inserts, isDelete, hsrc] using ih
    | some nSrcID =>
      by_cases hneg : nSrcID < 0
      · have hpos : ¬ 0 ≤ nSrcID := by omega
        simpa [inserts, isDelete, hsrc, hneg, hpos] using ih
      · simpa [inserts, isDelete, hsrc, hneg] using ih

theorem mem_deletes (resolve : String → Option Int) (groups : List JsonObject) (id : Int64) :
    id ∈ deletes resolve groups ↔
      ∃ group ∈ groups.filter (isDelete resolve), id ∈ (group.getArray "ol").flatMap objectIds := by
  simp only [deletes, List.mem_flatMap, List.mem_filter]
  refine exists_congr (fun group => ?_)
  rw [and_assoc]
  refine and_congr_right (fun _ => ?_)
  cases hsrc : resolve (group.getStr "s") with
  | none => simp [isDelete, hsrc]
  | some nSrcID =>
    by_cases hpos : 0 ≤ nSrcID
    · simp [isDelete, hsrc, hpos]
    · have hneg : nSrcID < 0 := by omega
      simp [isDelete, hsrc, hpos, hneg]

/-- Where the delete groups stand does not matter. -/
theorem pageResult_moved {resolve : String → Option Int} {groups groups' : List JsonObject}
    (h : DeletesMoved resolve groups groups') (rows : List ObjectValue) :
    pageResult resolve groups' rows = pageResult resolve groups rows := by
  have hinserts : inserts resolve groups' = inserts resolve groups := by
    rw [inserts_filter, h.inserts, ← inserts_filter]
  have hdeletes : ∀ id, id ∈ deletes resolve groups' ↔ id ∈ deletes resolve groups := by
    intro id
    rw [mem_deletes, mem_deletes]
    exact exists_congr (fun group => and_congr_left (fun _ => h.deletes.mem_iff))
  simp only [pageResult, hinserts, hdeletes]

theorem DeletesMoved.mem {resolve : String → Option Int} {groups groups' : List JsonObject}
    (h : DeletesMoved resolve groups groups') {group : JsonObject} (hg : group ∈ groups') :
    group ∈ groups := by
  cases hdelete : isDelete resolve group with
  | true =>
    have hmem : group ∈ groups.filter (isDelete resolve) :=
      h.deletes.mem_iff.mp (List.mem_filter.mpr ⟨hg, hdelete⟩)
    exact (List.mem_filter.mp hmem).1
  | false =>
    have hmem : group ∈ groups'.filter (fun g => !isDelete resolve g) :=
      List.mem_filter.mpr ⟨hg, by simp [hdelete]⟩
    rw [h.inserts] at hmem
    exact (List.mem_filter.mp hmem).1

theorem Delivery.result {e : Engine} {this : SyncSource} {data : Option JsonObject}
    {token : UInt64} {groups : List JsonObject} {w w' : World} (h : Delivery false e this data w w')
    (hpage : IsPage this data token groups) (hknown : AllKnown (groupSource e this) groups)
    (hplain : Plain (groupSource e this) groups)
    (hids : OneTriple (w.objects.rows ++ inserts (groupSource e this) groups)) :
    w'.objects.rows = pageResult (groupSource e this) groups w.objects.rows := by
  rw [h.merged hpage hplain hids, pageEdits_known hknown, PageEdits.merged, applyAll_batch]
  rfl

/-- A page that is not stopped leaves the old table overridden by its insert entries in
their order, without the rows whose ids it deletes. The result is the same wherever the
delete groups stand and wherever the UI thread asks for a commit, and a row that the page
does not name stays as it was. -/
theorem page_overrides_table (e : Engine) (this : SyncSource) (data : Option JsonObject)
    (token : UInt64) (groups : List JsonObject) (w w' : World)
    (hpage : IsPage this data token groups) (hknown : AllKnown (groupSource e this) groups)
    (hplain : Plain (groupSource e this) groups)
    (hids : OneTriple (w.objects.rows ++ inserts (groupSource e this) groups))
    (hrun : Delivery false e this data w w') :
    w'.objects.rows = pageResult (groupSource e this) groups w.objects.rows ∧
    (∀ data' token' groups' v v', IsPage this data' token' groups' →
      DeletesMoved (groupSource e this) groups groups' → v.objects = w.objects →
      Delivery false e this data' v v' → v'.objects.rows = w'.objects.rows) ∧
    (∀ r, (∀ s ∈ inserts (groupSource e this) groups, triple s ≠ triple r) →
      r.id ∉ deletes (groupSource e this) groups →
      (r ∈ w'.objects.rows ↔ r ∈ w.objects.rows)) := by
  have hresult := hrun.result hpage hknown hplain hids
  refine ⟨hresult, ?_, ?_⟩
  · intro data' token' groups' v v' hpage' hmoved hobjects hrun'
    have hinserts : inserts (groupSource e this) groups' = inserts (groupSource e this) groups := by
      rw [inserts_filter, hmoved.inserts, ← inserts_filter]
    rw [hrun'.result hpage' (fun g hg => hknown g (hmoved.mem hg))
      (fun g hg => hplain g (hmoved.mem hg)) (by rw [hobjects, hinserts]; exact hids), hobjects,
      hresult]
    exact pageResult_moved hmoved _
  · intro r hkey hid
    rw [hresult, pageResult, ← applyAll_batch]
    exact mem_batch_of_unnamed triple ObjectValue.id hkey hid

/-- A page that changes a name, adds an object and deletes an age. -/
def samplePage : Option JsonObject :=
  some (.array [.object [("count", .int 3)], .object [("version", .int 1)],
    .object [("total_count", .int 3)], .object [("token", .int 7)],
    .object [("s", .string "RhoDeleteSource"), ("ol", .array [.object [("o", .string "o1"),
      ("av", .array [.object [("i", .int 11)]])]])],
    .object [("s", .string "Contact"), ("ol", .array [
      .object [("o", .string "o1"),
        ("av", .array [.object [("a", .string "name"), ("i", .int 10), ("v", .string "Bob")]])],
      .object [("o", .string "o2"),
        ("av", .array [.object [("a", .string "name"), ("i", .int 12), ("v", .string "Cid")]])]])]])

def sampleGroups : List JsonObject := (samplePage.getD .null).items.drop 4

def sampleTable : ObjectTable :=
  ⟨[⟨10, 1, some "name", some "o1", some "Ann", none⟩, ⟨11, 1, some "age", some "o1", some "4", none⟩],
    by decide⟩

def sampleStart : World := World.start .empty sampleTable ⟨[], List.nodup_nil⟩ (fun _ => ⟨true, true, none⟩)

/-- The UI thread asks for a commit during the merge. -/
theorem page_overrides_table_sample : ∃ w', Delivery false sampleEngine sampleSource samplePage
      sampleStart w' ∧
    w'.objects.rows = [⟨10, 1, some "name", some "o1", some "Bob", some ""⟩,
      ⟨12, 1, some "name", some "o2", some "Cid", some ""⟩] ∧
    w'.objects.rows = pageResult (groupSource sampleEngine sampleSource) sampleGroups
      sampleTable.rows := by
  obtain ⟨ms, this', w', hrun, hcheck⟩ := exists_complete_run step uiStep
    (List.replicate 6 none ++ [some (.setUnlockDB true)] ++ List.replicate 37 none)
    (processServerData sampleEngine sampleSource samplePage) sampleStart
    (fun ms _ w' => ms.all (isDelivery false) && w'.objects.rows =
      [⟨10, 1, some "name", some "o1", some "Bob", some ""⟩,
        ⟨12, 1, some "name", some "o2", some "Cid", some ""⟩]) (by decide +kernel)
  rw [Bool.and_eq_true, List.all_eq_true] at hcheck
  have hdelivery : Delivery false sampleEngine sampleSource samplePage sampleStart w' :=
    ⟨⟨ms, this', hrun, hcheck.1⟩, rfl⟩
  exact ⟨w', hdelivery, of_decide_eq_true hcheck.2,
    (page_overrides_table sampleEngine sampleSource samplePage 7 sampleGroups sampleStart w'
      ⟨by decide +kernel, _, rfl, by decide +kernel⟩ (by decide +kernel) (by decide +kernel)
      (by decide +kernel) hdelivery).1⟩

end Rhodes.PageMerge
