import Mathlib
import Rhodes.FindTexts

/-!
What SQLite answers to the two texts with parameters: at most one row for an object, an attribute
and a source, which by_src_object keeps unique. So the null conditions are decided and the object is
fetched for every row of listObjs, with a value for each attribute.
-/
namespace Rhodes.FindRows

open Database SqlGrammar SqlTables RhomSql RhomStatements SqlSelects RhomFind FindTexts

section Attributes

variable (db : Tables) (src : Int)

/-- The row of an attribute of an object. -/
def IsAttrib (src : Int) (object attrib : Option String) (r : ObjectValue) : Prop :=
  SqlEq r.object object ∧ SqlEq r.attrib attrib ∧ r.sourceId = src

instance (src : Int) (object attrib : Option String) : DecidablePred (IsAttrib src object attrib) :=
  fun _ => inferInstanceAs (Decidable (_ ∧ _))

def attribRow (object attrib : Option String) : Option ObjectValue :=
  db.objects.rows.find? (fun r => IsAttrib src object attrib r)

/-- The value of an attribute of an object, or nil. -/
def attribValue (object attrib : Option String) : Option String :=
  (attribRow db src object attrib).bind ObjectValue.value

theorem attribRow_isAttrib {object attrib : Option String} {r : ObjectValue}
    (h : attribRow db src object attrib = some r) : IsAttrib src object attrib r := by
  unfold attribRow at h
  have hfound := List.find?_some h
  exact of_decide_eq_true hfound

theorem filter_isAttrib (object attrib : Option String) :
    db.objects.rows.filter (fun r => IsAttrib src object attrib r) =
      (attribRow db src object attrib).toList := by
  have hunique : (db.objects.rows.filter (fun r => IsAttrib src object attrib r)).Pairwise
      (fun _ _ => False) := by
    refine List.Pairwise.imp_of_mem ?_ (db.objects.keys.filter _)
    intro r s hr hs hconflict
    obtain ⟨hro, hra, hrs⟩ := of_decide_eq_true (List.mem_filter.mp hr).2
    obtain ⟨hso, hsa, hss⟩ := of_decide_eq_true (List.mem_filter.mp hs).2
    exact hconflict (Or.inr ⟨⟨hro.1, hro.2.trans hso.2.symm⟩, ⟨hra.1, hra.2.trans hsa.2.symm⟩,
      hrs.trans hss.symm⟩)
  rw [attribRow, ← List.head?_filter]
  cases hrows : db.objects.rows.filter (fun r => IsAttrib src object attrib r) with
  | nil => rfl
  | cons r rest =>
    rw [hrows] at hunique
    cases rest with
    | nil => rfl
    | cons s rest => exact ((List.pairwise_cons.mp hunique).1 s List.mem_cons_self).elim

/-- The conditions on the parameters when they are bound. -/
def argConds (object attrib source : Option String) : Items Cond :=
  ⟨eqCond objectId object, [eqCond attribId attrib, eqCond sourceId source]⟩

theorem eqCond_holds (i : Ident) (v : Option String) (r : Cells) :
    (eqCond i v).Holds r ↔ SqlEq (r i.name) v := by
  show v ≠ none ∧ r i.name = v ↔ _
  constructor
  · rintro ⟨hv, heq⟩
    exact ⟨by rw [heq]; exact Option.isSome_iff_ne_none.mpr hv, heq⟩
  · rintro ⟨hv, heq⟩
    exact ⟨heq ▸ Option.isSome_iff_ne_none.mp hv, heq⟩

theorem selects_argConds (object attrib : Option String) (r : ObjectValue) :
    Selects (some (argConds object attrib (some (toString src)))) (objectCells r) ↔
      IsAttrib src object attrib r := by
  have hsource : SqlEq (some (toString r.sourceId)) (some (toString src)) ↔ r.sourceId = src := by
    refine ⟨fun h => toString_int_injective (Option.some.inj h.2), ?_⟩
    rintro rfl
    exact ⟨rfl, rfl⟩
  have hlist : Selects (some (argConds object attrib (some (toString src)))) (objectCells r) ↔
      ∀ c ∈ (argConds object attrib (some (toString src))).toList, c.Holds (objectCells r) :=
    ⟨fun h => h _ rfl, fun h cs hcs => by cases hcs; exact h⟩
  rw [hlist, Items.toList, argConds]
  simp only [List.forall_mem_cons, eqCond_holds]
  exact and_congr Iff.rfl (and_congr Iff.rfl ((and_iff_left (List.forall_mem_nil _)).trans hsource))

theorem condsKnown_args (object attrib : Option String) :
    CondsKnown .objects (some (argConds object attrib (some (toString src)))) := by
  rintro cs hcs c hc
  cases hcs
  have hone : ∀ i v, c = eqCond i v → i.name ∈ Table.objects.columns →
      (i.name ∈ intColumns → ∀ s ∈ v, (asInt s).isSome) → CondKnown .objects c := by
    rintro i v rfl hcol hint
    exact ⟨hcol, hint⟩
  rcases List.mem_cons.mp hc with rfl | hc
  · exact hone _ _ rfl (by decide) (fun h => absurd h (by decide))
  rcases List.mem_cons.mp hc with rfl | hc
  · exact hone _ _ rfl (by decide) (fun h => absurd h (by decide))
  rcases List.mem_cons.mp hc with rfl | hc
  · refine hone _ _ rfl (by decide) ?_
    rintro - s hs
    rw [← Option.some.inj hs, asInt_toString]
    rfl
  · cases hc

end Attributes

section Answers

variable (db : Tables) (src : Int)

/-- A SELECT with parameters, bound. -/
def argCore (cols : Items Ident) (object attrib source : Option String) : Core :=
  ⟨false, cols, objectValuesId, some (argConds object attrib source)⟩

theorem bound_args (object attrib : Option String) :
    bound [object, attrib, some (toString src)] =
      [object.map cText, attrib.map cText, some (toString src)] := by
  have hsrc : (some (toString src)).map cText = some (toString src) :=
    map_cText (readable_of_plain (plainValue_int src))
  show [object.map cText, attrib.map cText, (some (toString src)).map cText] = _
  rw [hsrc]

theorem argCore_values (cols : Items Ident) (object attrib : Option String) :
    (argCore cols object attrib (some (toString src))).values (fun r => r)
        (rowsOf db objectValuesId) =
      (attribRow db src object attrib).toList.map
        (fun r => cols.toList.map (fun c => objectCells r c.name)) := by
  have hrows : rowsOf db objectValuesId = db.objects.rows.map objectCells := rfl
  have hfilter : ((rowsOf db objectValuesId).filter (fun r => Selects
      (some (argConds object attrib (some (toString src)))) r)) =
      (attribRow db src object attrib).toList.map objectCells := by
    rw [hrows, List.filter_map, ← filter_isAttrib]
    refine congrArg _ (List.filter_congr (fun r _ => ?_))
    rw [Function.comp_apply, decide_eq_decide, selects_argConds]
  show (((rowsOf db objectValuesId).filter (fun r => Selects
      (some (argConds object attrib (some (toString src)))) r)).map _) = _
  rw [hfilter, List.map_map]
  rfl

theorem coreKnown_args {cols : Items Ident} (hcols : ∀ c ∈ cols.toList,
    c.name ∈ Table.objects.columns) (object attrib : Option String) :
    CoreKnown (argCore cols object attrib (some (toString src))) :=
  ⟨hcols, condsKnown_args src object attrib⟩

/-- The SELECTs of the attributes of an object, bound. -/
def fetchSelect (object source : Option String) (a : String) (attribs : List String) : Select :=
  ⟨argCore ⟨attribId, [valueId]⟩ object (some a) source,
    attribs.map (fun a => (.unionAll, argCore ⟨attribId, [valueId]⟩ object (some a) source)), none⟩

/-- What is bound for the attributes of an object. -/
def fetchArgs (object source : Option String) (attribs : List String) : List (Option String) :=
  attribs.flatMap (fun attr => [object, some attr, source])

theorem bind_fetch (object source : Option String) (a : String) (attribs : List String) :
    (selectOf attribCore (attribs.map (fun _ => attribBranch)) none).bind
      (fetchArgs object source (a :: attribs)) = fetchSelect object source a attribs := by
  have hcore : ∀ b args, attribCore.bind (object :: some b :: source :: args) =
      (argCore ⟨attribId, [valueId]⟩ object (some b) source, args) := fun _ _ => rfl
  have hrest : ∀ attribs : List String, bindAll (fun (r : Compound × Core) args =>
      ((r.1, (r.2.bind args).1), (r.2.bind args).2))
      ((attribs.map (fun _ => attribBranch)).map (fun b => (b.op, b.core)))
      (fetchArgs object source attribs) =
      (attribs.map (fun a => (.unionAll,
        argCore ⟨attribId, [valueId]⟩ object (some a) source)), []) := by
    intro attribs
    induction attribs with
    | nil => rfl
    | cons b attribs ih =>
      show bindAll _ ((Compound.unionAll, attribCore) :: _)
        (object :: some b :: source :: fetchArgs object source attribs) = _
      simp only [bindAll, hcore, ih]
      rfl
  show (⟨(attribCore.bind (object :: some a :: source :: fetchArgs object source attribs)).1,
    (bindAll _ _ (attribCore.bind
      (object :: some a :: source :: fetchArgs object source attribs)).2).1, none⟩ : Select) = _
  rw [hcore]
  show (⟨_, (bindAll _ ((attribs.map (fun _ => attribBranch)).map (fun b => (b.op, b.core)))
    (fetchArgs object source attribs)).1, none⟩ : Select) = _
  rw [hrest]
  rfl

theorem bound_fetchArgs (object : Option String) (attribs : List String) :
    bound (fetchArgs object (some (toString src)) attribs) =
      fetchArgs (object.map cText) (some (toString src)) (attribs.map cText) := by
  have hsrc : (some (toString src)).map cText = some (toString src) :=
    map_cText (readable_of_plain (plainValue_int src))
  unfold bound fetchArgs
  rw [List.map_flatMap, List.flatMap_map]
  refine congrArg (fun f => List.flatMap f attribs) (funext (fun a => ?_))
  show [object.map cText, some (cText a), (some (toString src)).map cText] = _
  rw [hsrc]

theorem values_fetchSelect (object : Option String) (a : String) (attribs : List String) :
    (fetchSelect object (some (toString src)) a attribs).values (fun r => r) (rowsOf db) =
      (a :: attribs).flatMap (fun b => (attribRow db src object (some b)).toList.map
        (fun r => [r.attrib, r.value])) := by
  have hcore : ∀ b, (argCore ⟨attribId, [valueId]⟩ object (some b) (some (toString src))).values
      (fun r => r) (rowsOf db objectValuesId) =
      (attribRow db src object (some b)).toList.map (fun r => [r.attrib, r.value]) :=
    fun b => argCore_values db src _ _ _
  have hrest : ∀ (attribs : List String) (vs : List (List (Option String))),
      (attribs.map (fun b => (Compound.unionAll,
        argCore ⟨attribId, [valueId]⟩ object (some b) (some (toString src))))).foldl
        (fun vs r => r.1.combine vs (r.2.values (fun r => r) (rowsOf db r.2.table))) vs =
      vs ++ attribs.flatMap (fun b => (attribRow db src object (some b)).toList.map
        (fun r => [r.attrib, r.value])) := by
    intro attribs
    induction attribs with
    | nil => exact fun vs => (List.append_nil vs).symm
    | cons b attribs ih =>
      intro vs
      rw [List.map_cons, List.foldl_cons, ih, List.flatMap_cons]
      show (vs ++ (argCore _ _ _ _).values (fun r => r) (rowsOf db objectValuesId)) ++ _ = _
      rw [hcore, List.append_assoc]
  show (attribs.map _).foldl _ ((argCore _ _ _ _).values (fun r => r)
    (rowsOf db objectValuesId)) = _
  rw [hcore, hrest]
  rfl

variable {E : Engine} (hE : Lawful E)

include hE

/-- A SELECT without a limit that is answered. -/
theorem execute_spelled {sql : String} {q : Select} {args : List (Option String)}
    (hspells : Spells sql (.select q)) (hfits : Fits (.select q)) (hlimit : q.limit = none)
    (hknown : SelectKnown (q.bind (bound args))) :
    ∃ values, values.Perm ((q.bind (bound args)).values (fun r => r) (rowsOf db)) ∧
      E sql args db = some (rowsWith (q.bind (bound args)).names values, db) := by
  have hrun : run (bindArgs (.select q) (bound args)) db = some (.rows
      (q.bind (bound args)).names ((q.bind (bound args)).values (fun r => r) (rowsOf db))) := by
    show (if SelectKnown (q.bind (bound args)) then some _ else none) = _
    rw [if_pos hknown]
  exact hE.rows _ _ _ _ _ _ hspells hfits hlimit hrun

theorem execute_null (object attrib : Option String) :
    E nullText [object, attrib, some (toString src)] db =
      some ((attribRow db src (object.map cText) (attrib.map cText)).toList.map
        (fun r => [("value", r.value.map cText)]), db) := by
  have hfits : Fits (.select (selectOf nullCore [] none)) :=
    ⟨by decide, by decide, fun l hl => by cases hl⟩
  have hbind : (selectOf nullCore [] none).bind
      [object.map cText, attrib.map cText, some (toString src)] =
      selectOf (argCore ⟨valueId, []⟩ (object.map cText) (attrib.map cText)
        (some (toString src))) [] none := rfl
  obtain ⟨values, hperm, hrun⟩ := execute_spelled db hE
    nullText_spells hfits rfl (by
      rw [bound_args, hbind]
      exact ⟨coreKnown_args src (by decide) _ _, fun r hr => by cases hr⟩)
  rw [bound_args, hbind] at hperm hrun
  have hvalues : (selectOf (argCore ⟨valueId, []⟩ (object.map cText) (attrib.map cText)
      (some (toString src))) [] none).values (fun r => r) (rowsOf db) =
      (attribRow db src (object.map cText) (attrib.map cText)).toList.map
        (fun r => [r.value]) := by
    show (argCore _ _ _ _).values (fun r => r) (rowsOf db objectValuesId) = _
    rw [argCore_values]
    rfl
  rw [hvalues] at hperm
  rw [hrun]
  cases hrow : attribRow db src (object.map cText) (attrib.map cText) with
  | none =>
    rw [hrow] at hperm
    rw [List.perm_nil.mp hperm]
    rfl
  | some r =>
    rw [hrow] at hperm
    rw [List.perm_singleton.mp hperm]
    rfl

/-- Not more attributes than SQLite has parameters for. -/
def FewAttribs (attribs : List String) : Prop := 3 * attribs.length ≤ 999

omit hE in
/-- Every attribute has three parameters. -/
theorem attribs_params (attribs : List String) :
    (((attribs.map (fun _ => attribBranch)).map (fun b => (b.op, b.core))).map
      (fun r => coreParams r.2)).sum = 3 * attribs.length := by
  induction attribs with
  | nil => rfl
  | cons b attribs ih =>
    rw [List.map_cons, List.map_cons, List.map_cons, List.sum_cons, ih, List.length_cons]
    show 3 + 3 * attribs.length = _
    omega

omit hE in
theorem fits_fetch {a : String} {attribs : List String} (hfew : FewAttribs (a :: attribs)) :
    Fits (.select (selectOf attribCore (attribs.map (fun _ => attribBranch)) none)) := by
  have hlength : 3 * (attribs.length + 1) ≤ 999 := hfew
  have hsum := attribs_params attribs
  refine ⟨?_, ?_, fun l hl => by cases hl⟩
  · simp only [selectOf, List.length_map]
    omega
  · show 3 + _ ≤ 999
    simp only [selectOf]
    omega

theorem execute_attribs (object : Option String) {a : String} {attribs : List String}
    (hfew : FewAttribs (a :: attribs)) : ∃ values : List (List (Option String)),
      values.Perm (((a :: attribs).map cText).flatMap (fun b =>
        (attribRow db src (object.map cText) (some b)).toList.map
          (fun r => [r.attrib, r.value]))) ∧
      E (attribsText (a :: attribs)) (fetchArgs object (some (toString src)) (a :: attribs)) db =
        some (rowsWith ["attrib", "value"] values, db) := by
  have hbind : (selectOf attribCore (attribs.map (fun _ => attribBranch)) none).bind
      (bound (fetchArgs object (some (toString src)) (a :: attribs))) =
      fetchSelect (object.map cText) (some (toString src)) (cText a) (attribs.map cText) := by
    have hmap : attribs.map (fun _ => attribBranch) =
        (attribs.map cText).map (fun _ => attribBranch) := by
      rw [List.map_map]
      rfl
    rw [hmap, bound_fetchArgs, List.map_cons, bind_fetch]
  obtain ⟨values, hperm, hrun⟩ := execute_spelled db hE
    (attribsText_spells a attribs) (fits_fetch hfew) rfl (by
      rw [hbind]
      refine ⟨coreKnown_args src (by decide) _ _, ?_⟩
      intro r hr
      obtain ⟨b, -, rfl⟩ := List.mem_map.mp hr
      exact ⟨coreKnown_args src (by decide) _ _, rfl⟩)
  rw [hbind, values_fetchSelect] at hperm
  rw [hbind] at hrun
  exact ⟨values, hperm, hrun⟩

end Answers

section Merging

open Rhom

theorem getVar_mergeVar (vars : Vars) (name m : String) (v : Option String) :
    getVar (mergeVar vars name v) m = if m = name then v else getVar vars m := by
  unfold getVar mergeVar
  by_cases hany : vars.any (fun w => w.1 = name)
  · rw [if_pos hany]
    induction vars with
    | nil => cases hany
    | cons w vars ih =>
      rw [List.map_cons, List.lookup_cons, List.lookup_cons]
      by_cases hw : w.1 = name
      · rw [if_pos hw]
        by_cases hm : m = name
        · simp [hm]
        · have hne : (m == name) = false := by simpa using hm
          have hne' : (m == w.1) = false := by simpa [hw] using hm
          rw [hne, hne', if_neg hm]
          by_cases hrest : vars.any (fun w => w.1 = name)
          · have h := ih hrest
            rwa [if_neg hm] at h
          · have hsame : vars.map (fun w => if w.1 = name then (name, v) else w) = vars := by
              conv_rhs => rw [← List.map_id vars]
              refine List.map_congr_left (fun w hw => if_neg (fun heq => hrest ?_))
              exact List.any_eq_true.mpr ⟨w, hw, decide_eq_true heq⟩
            rw [hsame]
      · rw [if_neg hw]
        have hrest : vars.any (fun w => w.1 = name) := by
          simpa [hw] using hany
        by_cases hm : m = w.1
        · have heq : (m == w.1) = true := beq_iff_eq.mpr hm
          have hname : ¬m = name := fun h => hw (hm.symm.trans h)
          rw [heq, if_neg hname]
        · have hne : (m == w.1) = false := by simpa using hm
          rw [hne]
          exact ih hrest
  · rw [if_neg hany, List.lookup_append]
    by_cases hm : m = name
    · have hnone : vars.lookup m = none := by
        rw [List.lookup_eq_none_iff]
        intro w hw
        have hne : ¬w.1 = name := fun heq =>
          hany (List.any_eq_true.mpr ⟨w, hw, decide_eq_true heq⟩)
        exact bne_iff_ne.mpr (fun heq => hne (heq.symm.trans hm))
      rw [hnone, if_pos hm, hm]
      simp
    · have hne : (m == name) = false := by simpa using hm
      rw [if_neg hm, List.lookup_cons, hne]
      simp

/-- A loop that sets names to nil. -/
theorem getVar_foldl_nil (names : List String) (vars : Vars) (m : String) :
    getVar (names.foldl (fun vars a => mergeVar vars a none) vars) m =
      if m ∈ names then none else getVar vars m := by
  induction names generalizing vars with
  | nil => simp
  | cons a names ih =>
    rw [List.foldl_cons, ih, getVar_mergeVar]
    by_cases hmem : m ∈ names
    · simp [hmem]
    · by_cases hm : m = a <;> simp [hmem, hm]

/-- The names of the rows of listAttrs. -/
def rowNames (rows : List Row) : List String := rows.filterMap (fun row => cell row "attrib")

/-- The loop over listAttrs, where the value of a row is told by its name. -/
theorem mergeAttribs_eq (value : String → Option String) (rows : List Row)
    (hrows : ∀ row ∈ rows, ∃ b, cell row "attrib" = some b ∧ cell row "value" = value b)
    (vars : Vars) (names : List String) : ∃ vars',
      mergeAttribs rows vars names = some (vars', names.filter (fun a => a ∉ rowNames rows)) ∧
      ∀ m, getVar vars' m = if m ∈ rowNames rows then value m else getVar vars m := by
  induction rows generalizing vars names with
  | nil => exact ⟨vars, by simp [mergeAttribs, rowNames], fun m => by simp [rowNames]⟩
  | cons row rows ih =>
    obtain ⟨⟨b, hb, hvalue⟩, hrest⟩ := List.forall_mem_cons.mp hrows
    obtain ⟨vars', hrun, hvars⟩ := ih hrest (mergeVar vars b (cell row "value"))
      (names.filter (fun a => a ≠ b))
    have hnames : rowNames (row :: rows) = b :: rowNames rows := by
      rw [rowNames, List.filterMap_cons, hb]
      rfl
    refine ⟨vars', ?_, ?_⟩
    · unfold mergeAttribs at hrun ⊢
      rw [List.foldlM_cons, hb, Option.map_some, Option.bind_eq_bind, Option.bind_some, hrun,
        hnames, List.filter_filter]
      have hfilter : ∀ a, (decide (a ∉ rowNames rows) && decide (a ≠ b)) =
          decide (a ∉ b :: rowNames rows) := by
        intro a
        rw [← Bool.decide_and, decide_eq_decide, List.mem_cons, not_or, and_comm]
      simp only [hfilter]
    · intro m
      rw [hvars, getVar_mergeVar, hnames, hvalue]
      by_cases hmem : m ∈ rowNames rows
      · simp [hmem]
      · by_cases hm : m = b <;> simp [hmem, hm]

end Merging

section Fetching

variable {E : Engine} (hE : Lawful E) (src : Int) (db : Tables)

/-- The id by which the rows of an object are found again. -/
def rowObject (obj : Row) : Option String := (cell obj "object").map cText

/-- The object has a value for an attribute that is to have none. -/
def hasValue (obj : Row) (key : CondKey) : Bool :=
  (attribValue db src (rowObject obj) ((keyArg key).map cText)).isSome

include hE

theorem nullsSkip_eq (nulls : Conditions) (obj : Row) :
    nullsSkip E src nulls obj db = some (nulls.any (fun n => hasValue src db obj n.1), db) := by
  induction nulls with
  | nil => rfl
  | cons n nulls ih =>
    obtain ⟨key, v⟩ := n
    have hskip : ((((attribRow db src (rowObject obj) ((keyArg key).map cText)).toList.map
        (fun r => [("value", r.value.map cText)])).head?.bind
        (fun row => cell row "value")).isSome) = hasValue src db obj key := by
      unfold hasValue attribValue
      cases attribRow db src (rowObject obj) ((keyArg key).map cText) with
      | none => rfl
      | some r =>
        cases hvalue : r.value <;> simp [cell, hvalue]
    rw [nullsSkip, execute_null db src hE, Option.bind_eq_bind, Option.bind_some]
    simp only [rowObject] at hskip
    simp only [hskip, ih, List.any_cons]
    cases hasValue src db obj key with
    | true => rfl
    | false => rfl

omit hE in
theorem cText_cText (s : String) : cText (cText s) = cText s := by
  refine cText_eq ?_
  rw [cText, String.toList_ofList]
  exact SqlPieces.not_mem_cut _

omit hE in
theorem attribsText_length (a : String) (attribs : List String) :
    (attribsText (a :: attribs)).length > 0 := by
  have htext : attribsText (a :: attribs) =
      (a :: attribs).foldl (fun sql x => addSelect "\nUNION ALL\n" sql attribText) "" := rfl
  have hne : ∀ _ : String, attribText ≠ "" := fun _ => by decide
  rw [htext, ← String.length_toList, toList_addSelects _ (fun _ => attribText) _ _ hne,
    List.length_append]
  have hpos : attribText.toList.length > 0 := by decide
  omega

/-- The value of an attribute as Ruby gets it. -/
def rubyValue (object : Option String) (a : String) : Option String :=
  (attribValue db src object (some a)).map cText

/-- The rows of the attributes of an object: one for each attribute that it has. -/
structure AttribRows (object : Option String) (attribs : List String) (rows : List Row) : Prop where
  told : ∀ row ∈ rows, ∃ b, cell row "attrib" = some b ∧
    cell row "value" = rubyValue src db object b
  names : ∀ b, b ∈ rowNames rows ↔
    b ∈ attribs.map cText ∧ (attribRow db src object (some b)).isSome

theorem select_attribs {attribs : List String} (hfew : FewAttribs attribs)
    (object : Option String) : ∃ rows,
      executeIfAny E (attribsText attribs) (fetchArgs object (some (toString src)) attribs) db =
        some (rows, db) ∧
      AttribRows src db (object.map cText) attribs rows := by
  cases attribs with
  | nil => exact ⟨[], rfl, ⟨fun row hrow => (List.not_mem_nil hrow).elim,
      fun b => by simp [rowNames]⟩⟩
  | cons a attribs =>
    obtain ⟨values, hperm, hrun⟩ := execute_attribs db src hE object hfew
    refine ⟨rowsWith ["attrib", "value"] values,
      by rw [executeIfAny, if_pos (attribsText_length a attribs), hrun], ?_⟩
    have hmem : ∀ v, v ∈ values ↔ ∃ b ∈ (a :: attribs).map cText,
        ∃ r, attribRow db src (object.map cText) (some b) = some r ∧
          v = [some b, r.value] := by
      intro v
      rw [hperm.mem_iff, List.mem_flatMap]
      refine exists_congr (fun b => and_congr_right (fun _ => ?_))
      rw [List.mem_map]
      refine exists_congr (fun r => ?_)
      rw [Option.mem_toList]
      constructor
      · rintro ⟨hr, rfl⟩
        have hattrib : r.attrib = some b := (attribRow_isAttrib db src hr).2.1.2
        exact ⟨hr, by rw [hattrib]⟩
      · rintro ⟨hr, rfl⟩
        have hattrib : r.attrib = some b := (attribRow_isAttrib db src hr).2.1.2
        exact ⟨hr, by rw [hattrib]⟩
    have hbs : ∀ b ∈ (a :: attribs).map cText, cText b = b := by
      intro b hb
      obtain ⟨c, -, rfl⟩ := List.mem_map.mp hb
      exact cText_cText c
    have hrow : ∀ b w, ["attrib", "value"].zip (List.map (Option.map cText) [some b, w]) =
        [("attrib", some (cText b)), ("value", w.map cText)] := fun _ _ => rfl
    have hcell : ∀ b w, cell [("attrib", some (cText b)), ("value", w)] "attrib" =
        some (cText b) := fun _ _ => rfl
    refine ⟨?_, ?_⟩
    · intro row hrow'
      obtain ⟨v, hv, rfl⟩ := List.mem_map.mp hrow'
      obtain ⟨b, hb, r, hr, rfl⟩ := (hmem v).mp hv
      refine ⟨b, ?_, ?_⟩
      · rw [hrow, hcell, hbs b hb]
      · rw [rubyValue, attribValue, hr]
        rfl
    · intro b
      rw [rowNames, List.mem_filterMap]
      constructor
      · rintro ⟨row, hrow', hb⟩
        obtain ⟨v, hv, rfl⟩ := List.mem_map.mp hrow'
        obtain ⟨b', hb', r, hr, rfl⟩ := (hmem v).mp hv
        rw [hrow, hcell, hbs b' hb'] at hb
        cases hb
        exact ⟨hb', by rw [hr]; rfl⟩
      · rintro ⟨hb, hsome⟩
        obtain ⟨r, hr⟩ := Option.isSome_iff_exists.mp hsome
        refine ⟨_, List.mem_map_of_mem ((hmem _).mpr ⟨b, hb, r, hr, rfl⟩), ?_⟩
        rw [hrow, hcell, hbs b hb]

omit hE in
theorem mem_nonExistAttrs {attribs : List String} {obj : Row} {a : String} :
    a ∈ nonExistAttrs attribs obj ↔ a ∈ attribs ∧ cell obj "attrib" ≠ some a := by
  unfold nonExistAttrs
  cases cell obj "attrib" with
  | none => simp
  | some b =>
    rw [List.mem_filter, decide_eq_true_eq]
    exact and_congr_right (fun _ => ⟨fun h heq => h (Option.some.inj heq).symm,
      fun h heq => h (congrArg some heq.symm)⟩)

/-- Attributes that are C strings. -/
def CAttribs (attribs : List String) : Prop := ∀ a ∈ attribs, '\x00' ∉ a.toList

/-- The vars of a row of listObjs: the attribute of the row as the row has it, every other attribute
of the list with its value or nil, and what the new object had. -/
structure Fetched (attribs : List String) (obj : Row) (vars : Vars) : Prop where
  attrib : ∀ a, cell obj "attrib" = some a → Rhom.getVar vars a = cell obj "value"
  others : ∀ a ∈ nonExistAttrs attribs obj, Rhom.getVar vars a = rubyValue src db (rowObject obj) a
  rest : ∀ a ∉ attribs, cell obj "attrib" ≠ some a →
    Rhom.getVar vars a = Rhom.getVar (newVars src (cell obj "object")) a

/-- Every object is fetched. -/
theorem fetchObject_eq {attribs : List String} (hfew : FewAttribs attribs) (obj : Row) :
    ∃ vars, fetchObject E src attribs obj db = some (vars, db) ∧
      (CAttribs attribs → Fetched src db attribs obj vars) := by
  have hfew' : FewAttribs (nonExistAttrs attribs obj) := by
    have hlength : (nonExistAttrs attribs obj).length ≤ attribs.length := by
      unfold nonExistAttrs
      split
      · exact List.length_filter_le _ _
      · exact le_rfl
    unfold FewAttribs at hfew ⊢
    omega
  obtain ⟨rows, hrun, hrows⟩ := select_attribs hE src db hfew' (cell obj "object")
  obtain ⟨vars, hmerge, hvars⟩ := mergeAttribs_eq (rubyValue src db (rowObject obj)) rows
    hrows.told (objVars src obj) (nonExistAttrs attribs obj)
  refine ⟨((nonExistAttrs attribs obj).filter (fun a => a ∉ rowNames rows)).foldl
    (fun vars a => mergeVar vars a none) vars, ?_, ?_⟩
  · simp only [fetchArgs] at hrun
    simp only [fetchObject, hrun, hmerge, Option.bind_eq_bind, Option.bind_some, Option.pure_def]
  · intro hclean
    have hnames : ∀ b, b ∈ rowNames rows ↔ b ∈ nonExistAttrs attribs obj ∧
        (attribRow db src (rowObject obj) (some b)).isSome := by
      intro b
      have hmap : (nonExistAttrs attribs obj).map cText = nonExistAttrs attribs obj := by
        conv_rhs => rw [← List.map_id (nonExistAttrs attribs obj)]
        exact List.map_congr_left
          (fun a ha => cText_eq (hclean a (mem_nonExistAttrs.mp ha).1))
      have h := hrows.names b
      rwa [hmap] at h
    have hstay : ∀ a ∉ nonExistAttrs attribs obj, Rhom.getVar
        (((nonExistAttrs attribs obj).filter (fun a => a ∉ rowNames rows)).foldl
          (fun vars a => mergeVar vars a none) vars) a = Rhom.getVar (objVars src obj) a := by
      intro a ha
      rw [getVar_foldl_nil, if_neg (fun h => ha (List.mem_filter.mp h).1), hvars,
        if_neg (fun h => ha ((hnames a).mp h).1)]
    refine ⟨?_, ?_, ?_⟩
    · intro a ha
      have hnot : a ∉ nonExistAttrs attribs obj := fun h => (mem_nonExistAttrs.mp h).2 ha
      rw [hstay a hnot, objVars, ha]
      simp only [getVar_mergeVar, if_true]
    · intro a ha
      rw [getVar_foldl_nil, hvars]
      by_cases hmem : a ∈ rowNames rows
      · rw [if_neg (fun h => (of_decide_eq_true (List.mem_filter.mp h).2) hmem), if_pos hmem]
      · rw [if_pos (List.mem_filter.mpr ⟨ha, decide_eq_true hmem⟩)]
        have hnone : attribRow db src (rowObject obj) (some a) = none := by
          rw [← Option.not_isSome_iff_eq_none]
          exact fun hsome => hmem ((hnames a).mpr ⟨ha, hsome⟩)
        rw [rubyValue, attribValue, hnone]
        rfl
    · intro a ha hattrib
      have hnot : a ∉ nonExistAttrs attribs obj := fun h => ha (mem_nonExistAttrs.mp h).1
      rw [hstay a hnot, objVars]
      cases hobj : cell obj "attrib" with
      | none => rfl
      | some b =>
        have hne : a ≠ b := fun h => hattrib (by rw [hobj, h])
        simp only [getVar_mergeVar, if_neg hne]

end Fetching

end Rhodes.FindRows
