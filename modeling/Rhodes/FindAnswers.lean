import Rhodes.FindRows
import Mathlib.Data.List.Perm.Basic
import Mathlib.Data.List.Dedup

/-!
What SQLite answers to the texts of the conditions of a hash: the objects that all conditions hold
for, those of the source, and the rows of one condition of several. An object id stands in the
answer to the first two at most once; NULL is no id.
-/
namespace Rhodes.FindAnswers

open Database SqlGrammar SqlTables RhomSql RhomStatements SqlSelects RhomFind FindTexts FindRows

section Objects

variable (db : Tables) (src : Int)

/-- The row of the source has the attribute with this value. -/
def CondRow (src : Int) (c : String × Option String) (r : ObjectValue) : Prop :=
  SqlEq r.attrib (readValue (some c.1)) ∧ r.sourceId = src ∧ SqlEq r.value (readValue c.2)

instance (src : Int) (c : String × Option String) : DecidablePred (CondRow src c) :=
  fun _ => inferInstanceAs (Decidable (_ ∧ _))

theorem selects_items (conds : Items Cond) (r : Cells) :
    Selects (some conds) r ↔ ∀ c ∈ conds.toList, c.Holds r :=
  ⟨fun h => h conds rfl, fun h cs hcs => by cases hcs; exact h⟩

theorem source_holds (r : ObjectValue) :
    (eqCond sourceId (some (toString src))).Holds (objectCells r) ↔ r.sourceId = src := by
  rw [eqCond_holds]
  constructor
  · rintro ⟨-, h⟩
    exact toString_int_injective (Option.some.inj h)
  · rintro rfl
    exact ⟨rfl, rfl⟩

theorem selects_condWhere (c : String × Option String) (r : ObjectValue) :
    Selects (some (readCondWhere c.1 c.2 src)) (objectCells r) ↔ CondRow src c r := by
  rw [selects_items, readCondWhere, Items.toList]
  simp only [List.forall_mem_cons, source_holds]
  rw [eqCond_holds, eqCond_holds]
  exact and_congr Iff.rfl (and_congr Iff.rfl (and_iff_left (List.forall_mem_nil _)))

theorem selects_source (r : ObjectValue) :
    Selects (some (sourceCond src)) (objectCells r) ↔ r.sourceId = src := by
  rw [selects_items, sourceCond, Items.toList]
  exact (List.forall_mem_singleton).trans (source_holds src r)

/-- The objects that one condition holds for. -/
def condObjects (c : String × Option String) : List (Option String) :=
  (db.objects.rows.filter (fun r => CondRow src c r)).map ObjectValue.object

/-- The objects that the other conditions hold for as well. -/
def interObjects (objs : List (Option String)) (cs : List (String × Option String)) :
    List (Option String) :=
  cs.foldl (fun objs c => (objs.filter (fun o => o ∈ condObjects db src c)).dedup) objs

/-- The objects of the source. -/
def sourceObjects : List (Option String) :=
  ((db.objects.rows.filter (fun r => r.sourceId = src)).map ObjectValue.object).dedup

/-- No id stands in the list twice. -/
def Once (objs : List (Option String)) : Prop := objs.Pairwise (fun o o' => ¬SqlEq o o')

theorem once_of_nodup {objs : List (Option String)} (h : objs.Nodup) : Once objs :=
  h.imp (fun hne heq => hne heq.2)

theorem Once.perm {objs objs' : List (Option String)} (h : Once objs) (hperm : objs.Perm objs') :
    Once objs' := by
  refine (hperm.pairwise_iff ?_).mp h
  intro o o' hne heq
  exact hne ⟨heq.2 ▸ heq.1, heq.2.symm⟩

theorem condObjects_once (c : String × Option String) : Once (condObjects db src c) := by
  unfold Once condObjects
  rw [List.pairwise_map]
  refine List.Pairwise.imp_of_mem ?_ (db.objects.keys.filter _)
  intro r s hr hs hconflict heq
  obtain ⟨hra, hrs, -⟩ := of_decide_eq_true (List.mem_filter.mp hr).2
  obtain ⟨hsa, hss, -⟩ := of_decide_eq_true (List.mem_filter.mp hs).2
  exact hconflict (Or.inr ⟨heq, ⟨hra.1, hra.2.trans hsa.2.symm⟩, hrs.trans hss.symm⟩)

theorem interObjects_once (cs : List (String × Option String)) {objs : List (Option String)}
    (h : Once objs) : Once (interObjects db src objs cs) := by
  induction cs generalizing objs with
  | nil => exact h
  | cons c cs ih => exact ih (once_of_nodup (List.nodup_dedup _))

theorem mem_condObjects {c : String × Option String} {o : Option String} :
    o ∈ condObjects db src c ↔ ∃ r ∈ db.objects.rows, CondRow src c r ∧ r.object = o := by
  simp only [condObjects, List.mem_map, List.mem_filter, decide_eq_true_eq, and_assoc]

theorem mem_interObjects (cs : List (String × Option String)) {objs : List (Option String)}
    {o : Option String} :
    o ∈ interObjects db src objs cs ↔ o ∈ objs ∧ ∀ c ∈ cs, o ∈ condObjects db src c := by
  induction cs generalizing objs with
  | nil => simp [interObjects]
  | cons c cs ih =>
    show o ∈ interObjects db src _ cs ↔ _
    rw [ih, List.mem_dedup, List.mem_filter, decide_eq_true_eq, List.forall_mem_cons, and_assoc]

theorem mem_sourceObjects {o : Option String} :
    o ∈ sourceObjects db src ↔ ∃ r ∈ db.objects.rows, r.sourceId = src ∧ r.object = o := by
  simp only [sourceObjects, List.mem_dedup, List.mem_map, List.mem_filter, decide_eq_true_eq,
    and_assoc]

end Objects

section Values

variable (db : Tables) (src : Int)

/-- A row with an object id only. -/
def single (o : Option String) : List (Option String) := [o]

theorem single_injective : Function.Injective single := fun _ _ h => List.head_eq_of_cons_eq h

theorem filter_rows (conds : Items Cond) {p : ObjectValue → Prop} [DecidablePred p]
    (h : ∀ r, Selects (some conds) (objectCells r) ↔ p r) :
    (rowsOf db objectValuesId).filter (fun r => Selects (some conds) r) =
      (db.objects.rows.filter p).map objectCells := by
  have hrows : rowsOf db objectValuesId = db.objects.rows.map objectCells := rfl
  rw [hrows, List.filter_map]
  refine congrArg _ (List.filter_congr (fun r _ => ?_))
  rw [Function.comp_apply, decide_eq_decide, h]

theorem condCore_values (c : String × Option String) :
    (condCore c.1 c.2 src).values (fun r => r) (rowsOf db objectValuesId) =
      (condObjects db src c).map single := by
  show ((rowsOf db objectValuesId).filter (fun r => Selects
    (some (readCondWhere c.1 c.2 src)) r)).map _ = _
  rw [filter_rows db _ (selects_condWhere src c), condObjects, List.map_map, List.map_map]
  rfl

theorem distinctCore_values :
    (distinctCore src).values (fun r => r) (rowsOf db objectValuesId) =
      (sourceObjects db src).map single := by
  show (((rowsOf db objectValuesId).filter (fun r => Selects
    (some (sourceCond src)) r)).map _).dedup = _
  rw [filter_rows db _ (selects_source src), sourceObjects,
    ← List.dedup_map_of_injective single_injective, List.map_map, List.map_map]
  rfl

theorem orCore_values (c : String × Option String) :
    (orCore c.1 c.2 src).values (fun r => r) (rowsOf db objectValuesId) =
      (db.objects.rows.filter (fun r => CondRow src c r)).map
        (fun r => [r.object, r.attrib, r.value]) := by
  show ((rowsOf db objectValuesId).filter (fun r => Selects
    (some (readCondWhere c.1 c.2 src)) r)).map _ = _
  rw [filter_rows db _ (selects_condWhere src c), List.map_map]
  rfl

theorem intersect_values (cs : List (String × Option String)) (objs : List (Option String)) :
    ((cs.map (condBranch src)).map (fun b => (b.op, b.core))).foldl
        (fun vs r => r.1.combine vs (r.2.values (fun r => r) (rowsOf db r.2.table)))
        (objs.map single) =
      (interObjects db src objs cs).map single := by
  induction cs generalizing objs with
  | nil => rfl
  | cons c cs ih =>
    have hcombine : Compound.intersect.combine (objs.map single)
        ((condCore c.1 c.2 src).values (fun r => r) (rowsOf db objectValuesId)) =
        ((objs.filter (fun o => o ∈ condObjects db src c)).dedup).map single := by
      rw [condCore_values, Compound.combine, ← List.dedup_map_of_injective single_injective,
        List.filter_map]
      refine congrArg (fun l => (List.map single l).dedup) (List.filter_congr (fun o _ => ?_))
      rw [Function.comp_apply, decide_eq_decide, List.mem_map_of_injective single_injective]
    show List.foldl _ (Compound.intersect.combine (objs.map single)
      ((condCore c.1 c.2 src).values (fun r => r) (rowsOf db objectValuesId))) _ = _
    rw [hcombine]
    exact ih _

theorem selectOf_values (c : String × Option String) (cs : List (String × Option String)) :
    (selectOf (condCore c.1 c.2 src) (cs.map (condBranch src)) none).values (fun r => r)
        (rowsOf db) =
      (interObjects db src (condObjects db src c) cs).map single := by
  show List.foldl _ ((condCore c.1 c.2 src).values (fun r => r) (rowsOf db objectValuesId)) _ = _
  rw [condCore_values]
  exact intersect_values db src cs _

end Values

section Known

variable (src : Int)

theorem condsKnown_source : CondsKnown .objects (some (sourceCond src)) := by
  rintro cs hcs c hc
  cases hcs
  rw [List.mem_singleton.mp hc]
  refine ⟨(by decide : "source_id" ∈ Table.objects.columns), ?_⟩
  rintro - s hs
  rw [← Option.some.inj hs, asInt_toString]
  rfl

theorem condsKnown_cond (c : String × Option String) :
    CondsKnown .objects (some (readCondWhere c.1 c.2 src)) := by
  have hone : ∀ i v, i.name ∈ Table.objects.columns → i.name ∉ intColumns →
      CondKnown .objects (eqCond i v) := fun i v hcol hint => ⟨hcol, fun h => absurd h hint⟩
  rintro cs hcs cond hc
  cases hcs
  rcases List.mem_cons.mp hc with rfl | hc
  · exact hone attribId _ (by decide) (by decide)
  rcases List.mem_cons.mp hc with rfl | hc
  · exact condsKnown_source src _ rfl _ (List.mem_singleton_self _)
  · rw [List.mem_singleton.mp hc]
    exact hone valueId _ (by decide) (by decide)

theorem condCore_known (c : String × Option String) : CoreKnown (condCore c.1 c.2 src) :=
  ⟨(by decide : ∀ col ∈ (Items.mk objectId []).toList, col.name ∈ Table.objects.columns),
    condsKnown_cond src c⟩

theorem distinctCore_known : CoreKnown (distinctCore src) :=
  ⟨(by decide : ∀ col ∈ (Items.mk objectId []).toList, col.name ∈ Table.objects.columns),
    condsKnown_source src⟩

theorem orCore_known (c : String × Option String) : CoreKnown (orCore c.1 c.2 src) :=
  ⟨(by decide : ∀ col ∈ (Items.mk objectId [attribId, valueId]).toList,
    col.name ∈ Table.objects.columns), condsKnown_cond src c⟩

end Known

section Answers

variable (db : Tables) (src : Int) {E : Engine} (hE : Lawful E)

/-- The rows of listObjs with object ids only. -/
def idRows (objs : List (Option String)) : List Row := objs.map (fun o => [("object", o.map cText)])

theorem rowsWith_single (objs : List (Option String)) :
    rowsWith ["object"] (objs.map single) = idRows objs := by
  rw [rowsWith, List.map_map]
  rfl

theorem exists_of_perm_map {α β : Type} {f : α → β} {ys : List β} {xs : List α}
    (h : ys.Perm (xs.map f)) : ∃ zs : List α, zs.Perm xs ∧ ys = zs.map f := by
  have hcomp := congrFun (congrFun (List.eq_map_comp_perm f) ys) xs
  obtain ⟨zs, hmap, hperm⟩ := hcomp.mpr h
  exact ⟨zs, hperm, hmap⟩

include hE

/-- A text without parameters whose rows are told. -/
theorem execute_values {α : Type} {sql : String} {q : Select} (hspells : Spells sql (.select q))
    (hfits : Fits (.select q)) (hlimit : q.limit = none) (hknown : SelectKnown q)
    {f : α → List (Option String)} {xs : List α}
    (hvalues : q.values (fun r => r) (rowsOf db) = xs.map f) :
    ∃ ys : List α, ys.Perm xs ∧ E sql [] db = some (rowsWith q.names (ys.map f), db) := by
  have hbind : q.bind (bound []) = q := Stmt.select.inj (bindArgs_nil (.select q))
  obtain ⟨values, hperm, hrun⟩ := execute_spelled db hE hspells hfits hlimit (hbind.symm ▸ hknown)
  rw [hbind, hvalues] at hperm
  rw [hbind] at hrun
  obtain ⟨ys, hys, rfl⟩ := exists_of_perm_map hperm
  exact ⟨ys, hys, hrun⟩

/-- The objects of the conditions. -/
theorem execute_intersect {c : String × Option String} {cs : List (String × Option String)}
    (hread : ReadableConds (c :: cs)) (hfew : (c :: cs).length ≤ 500) :
    ∃ objs, objs.Perm (interObjects db src (condObjects db src c) cs) ∧
      E (intersectText (keyed (c :: cs)) (getValueForSqlStmt (some (toString src))) "") [] db =
        some (idRows objs, db) := by
  have hparams : ∀ cs : List (String × Option String),
      ((((cs.map (condBranch src)).map (fun b => (b.op, b.core)))).map
        (fun r => coreParams r.2)).sum = 0 := by
    intro cs
    induction cs with
    | nil => rfl
    | cons c cs ih =>
      rw [List.map_cons, List.map_cons, List.map_cons, List.sum_cons, ih]
      rfl
  have hfits : Fits (.select (selectOf (condCore c.1 c.2 src) (cs.map (condBranch src)) none)) := by
    refine ⟨?_, ?_, fun l hl => by cases hl⟩
    · simpa [selectOf] using hfew
    · show 0 + _ ≤ 999
      rw [show (selectOf (condCore c.1 c.2 src) (cs.map (condBranch src)) none).rest =
        (cs.map (condBranch src)).map (fun b => (b.op, b.core)) from rfl, hparams]
      decide
  have hknown : SelectKnown
      (selectOf (condCore c.1 c.2 src) (cs.map (condBranch src)) none) := by
    refine ⟨condCore_known src c, ?_⟩
    intro r hr
    obtain ⟨b, hb, rfl⟩ := List.mem_map.mp hr
    obtain ⟨c', -, rfl⟩ := List.mem_map.mp hb
    exact ⟨condCore_known src c', rfl⟩
  obtain ⟨objs, hperm, hrun⟩ := execute_values db hE (intersectText_spells src hread) hfits rfl
    hknown (selectOf_values db src c cs)
  refine ⟨objs, hperm, ?_⟩
  rw [hrun, ← rowsWith_single]
  rfl

/-- The objects of the source. -/
theorem execute_distinct :
    ∃ objs, objs.Perm (sourceObjects db src) ∧
      E (distinctText (getValueForSqlStmt (some (toString src))) "") [] db =
        some (idRows objs, db) := by
  have hfits : Fits (.select (selectOf (distinctCore src) [] none)) :=
    ⟨by simp [selectOf], (by decide : 0 + 0 ≤ 999), fun l hl => by cases hl⟩
  have hknown : SelectKnown (selectOf (distinctCore src) [] none) :=
    ⟨distinctCore_known src, fun r hr => by cases hr⟩
  obtain ⟨objs, hperm, hrun⟩ := execute_values db hE (distinctText_spells src none) hfits rfl
    hknown (show (selectOf (distinctCore src) [] none).values (fun r => r) (rowsOf db) =
      (sourceObjects db src).map single from distinctCore_values db src)
  refine ⟨objs, hperm, ?_⟩
  have htext : distinctText (getValueForSqlStmt (some (toString src))) (limitTextOf none) =
      distinctText (getValueForSqlStmt (some (toString src))) "" := rfl
  rw [← htext, hrun, ← rowsWith_single]
  rfl

/-- The row of a condition as Ruby gets it. -/
def orRow (r : ObjectValue) : Row :=
  [("object", r.object.map cText), ("attrib", r.attrib.map cText), ("value", r.value.map cText)]

/-- The rows of one condition of several. -/
theorem execute_or {c : String × Option String} (hkey : Readable (some c.1))
    (hvalue : Readable c.2) :
    ∃ rs : List ObjectValue, rs.Perm (db.objects.rows.filter (fun r => CondRow src c r)) ∧
      E (orText (.attrib c.1, c.2) (getValueForSqlStmt (some (toString src)))) [] db =
        some (rs.map orRow, db) := by
  have hfits : Fits (.select (selectOf (orCore c.1 c.2 src) [] none)) :=
    ⟨by simp [selectOf], (by decide : 0 + 0 ≤ 999), fun l hl => by cases hl⟩
  have hknown : SelectKnown (selectOf (orCore c.1 c.2 src) [] none) :=
    ⟨orCore_known src c, fun r hr => by cases hr⟩
  obtain ⟨rs, hperm, hrun⟩ := execute_values db hE (orText_spells src hkey hvalue) hfits rfl
    hknown (orCore_values db src c)
  refine ⟨rs, hperm, ?_⟩
  rw [hrun, rowsWith, List.map_map]
  rfl

end Answers

end Rhodes.FindAnswers
