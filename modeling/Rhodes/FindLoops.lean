import Rhodes.FindRows

/-!
The loops of find_bycondhash over the rows that are selected. Each object is fetched for itself, so
the loop over listObjs returns a part of the list, and the loop over the conditions of which one is
to hold stops at the front part of what it finds without a limit.
-/
namespace Rhodes.FindLoops

open SqlTables RhomFind FindRows

section Walking

variable {E : Engine} (hE : Lawful E) (src : Int) (db : Tables) {attribs : List String}
  (hfew : FewAttribs attribs)

/-- No attribute that is to have no value has one. -/
def passes (nulls : Conditions) (obj : Row) : Bool := !nulls.any (fun n => hasValue src db obj n.1)

/-- The object of a row. -/
def objectOf (E : Engine) (src : Int) (db : Tables) (attribs : List String) (obj : Row) : Vars :=
  ((fetchObject E src attribs obj db).map Prod.fst).getD []

include hE hfew

theorem fetchObject_objectOf (obj : Row) :
    fetchObject E src attribs obj db = some (objectOf E src db attribs obj, db) := by
  obtain ⟨vars, hrun, -⟩ := fetchObject_eq hE src db hfew obj
  rw [objectOf, hrun]
  rfl

/-- Without a limit, every object that passes is returned. -/
theorem walk_all (nulls : Conditions) (objs ret : List Row) (nIndex nCount : Nat) : ∃ nCount',
    walk E src ⟨attribs, nulls, false, 0, none⟩ objs nIndex
      (ret.map (objectOf E src db attribs)) nCount db =
      some ((ret ++ objs.filter (passes src db nulls)).map (objectOf E src db attribs), nCount',
        db) := by
  induction objs generalizing ret nIndex nCount with
  | nil => exact ⟨nCount, by simp [walk]⟩
  | cons obj objs ih =>
    simp only [walk, Nat.not_lt_zero, if_false, nullsSkip_eq hE, Option.bind_eq_bind,
      Option.bind_some, fetchObject_objectOf hE src db hfew]
    cases hpasses : nulls.any (fun n => hasValue src db obj n.1) with
    | true =>
      obtain ⟨nCount', h⟩ := ih ret (nIndex + 1) nCount
      refine ⟨nCount', ?_⟩
      simp only [if_true, h, List.filter_cons, passes, hpasses]
      rfl
    | false =>
      obtain ⟨nCount', h⟩ := ih (ret ++ [obj]) (nIndex + 1) (nCount + 1)
      refine ⟨nCount', ?_⟩
      simp only [List.map_append, List.map_cons, List.map_nil] at h
      simp only [Bool.false_eq_true, if_false, Option.any_none, h, List.filter_cons, passes,
        hpasses]
      simp

/-- With a limit, a part of the list is returned. -/
theorem walk_page {k : Nat} (skip : Nat) (objs ret : List Row) (hret : ret.length < k)
    (nIndex nCount : Nat) : ∃ nCount',
    walk E src ⟨attribs, [], false, skip, some k⟩ objs nIndex
      (ret.map (objectOf E src db attribs)) nCount db =
      some ((ret ++ (objs.drop (skip - nIndex)).take (k - ret.length)).map
        (objectOf E src db attribs), nCount', db) := by
  induction objs generalizing ret nIndex nCount with
  | nil => exact ⟨nCount, by simp [walk]⟩
  | cons obj objs ih =>
    by_cases hskip : nIndex < skip
    · obtain ⟨nCount', h⟩ := ih ret hret (nIndex + 1) nCount
      refine ⟨nCount', ?_⟩
      have hdrop : skip - nIndex = (skip - (nIndex + 1)) + 1 := by omega
      rw [walk, if_pos hskip, h, hdrop, List.drop_succ_cons]
    · have hzero : ∀ n, nIndex ≤ n → skip - n = 0 := by omega
      have hlength : (ret.map (objectOf E src db attribs) ++
          [objectOf E src db attribs obj]).length = ret.length + 1 := by simp
      have htake : k - ret.length = (k - (ret.length + 1)) + 1 := by omega
      simp only [walk, if_neg hskip, nullsSkip, Option.bind_eq_bind, Option.bind_some,
        fetchObject_objectOf hE src db hfew, Bool.false_eq_true, if_false, hlength,
        Option.any_some, decide_eq_true_eq]
      rw [hzero nIndex le_rfl, List.drop_zero, htake, List.take_succ_cons]
      by_cases hfull : ret.length + 1 ≥ k
      · refine ⟨nCount + 1, ?_⟩
        have hnone : k - (ret.length + 1) = 0 := by omega
        rw [if_pos hfull, hnone]
        simp
      · obtain ⟨nCount', h⟩ := ih (ret ++ [obj]) (by simp; omega) (nIndex + 1) (nCount + 1)
        refine ⟨nCount', ?_⟩
        rw [hzero (nIndex + 1) (Nat.le_succ _), List.drop_zero, List.length_append,
          List.length_singleton, List.map_append, List.map_singleton] at h
        rw [if_neg hfull, h]
        simp

end Walking

section Collecting

/-- The rows with objects that are new. -/
def newRecs (recs listObjs : List Row) : List Row := (addRecs none recs listObjs).1

theorem newRecs_cons (rec : Row) (recs listObjs : List Row) : newRecs (rec :: recs) listObjs =
    newRecs recs (if listObjs.any (fun r => cell r "object" = cell rec "object") then listObjs
      else listObjs ++ [rec]) := by
  unfold newRecs
  rw [addRecs]
  split
  · rfl
  · simp

theorem addRecs_none (recs listObjs : List Row) :
    addRecs none recs listObjs = (newRecs recs listObjs, false) := by
  induction recs generalizing listObjs with
  | nil => rfl
  | cons rec recs ih =>
    rw [newRecs_cons, addRecs]
    split
    · exact ih listObjs
    · simpa using ih (listObjs ++ [rec])

theorem newRecs_extends (recs listObjs : List Row) : listObjs <+: newRecs recs listObjs := by
  induction recs generalizing listObjs with
  | nil => exact List.prefix_rfl
  | cons rec recs ih =>
    rw [newRecs_cons]
    split
    · exact ih listObjs
    · exact (List.prefix_append listObjs [rec]).trans (ih _)

/-- The loop stops with the front part that is enough. -/
theorem addRecs_enough {n : Nat} (recs listObjs : List Row) (h : listObjs.length < n) :
    addRecs (some n) recs listObjs =
      ((newRecs recs listObjs).take n, decide (n ≤ (newRecs recs listObjs).length)) := by
  induction recs generalizing listObjs with
  | nil =>
    have hle : ¬n ≤ listObjs.length := by omega
    show (listObjs, false) = (listObjs.take n, decide (n ≤ listObjs.length))
    rw [decide_eq_false hle, List.take_of_length_le h.le]
  | cons rec recs ih =>
    rw [newRecs_cons, addRecs]
    by_cases hany : listObjs.any (fun r => cell r "object" = cell rec "object")
    · rw [if_pos hany, if_pos hany]
      exact ih listObjs h
    · rw [if_neg hany, if_neg hany]
      simp only [Option.any_some, decide_eq_true_eq]
      by_cases hfull : listObjs.length + 1 ≥ n
      · have hlength : (listObjs ++ [rec]).length = n := by
          rw [List.length_append, List.length_singleton]
          omega
        have hprefix := newRecs_extends recs (listObjs ++ [rec])
        have htake : (newRecs recs (listObjs ++ [rec])).take n = listObjs ++ [rec] := by
          rw [← hlength]
          exact (List.prefix_iff_eq_take.mp hprefix).symm
        have hle : n ≤ (newRecs recs (listObjs ++ [rec])).length := hlength ▸ hprefix.length_le
        rw [if_pos hfull, htake, decide_eq_true hle]
      · rw [if_neg hfull]
        exact ih _ (by rw [List.length_append, List.length_singleton]; omega)

variable {E : Engine} (srcidValue : String) (db : Tables)

/-- Every condition is answered. -/
def OrAnswers (E : Engine) (srcidValue : String) (db : Tables) (conds : Conditions) : Prop :=
  ∀ kv ∈ conds, ∃ rows, E (orText kv srcidValue) [] db = some (rows, db)

theorem orLoop_all {conds : Conditions} (hanswers : OrAnswers E srcidValue db conds)
    (listObjs : List Row) : ∃ all, orLoop E none srcidValue conds listObjs db = some (all, db) ∧
      listObjs <+: all ∧ ∀ n, listObjs.length < n →
        orLoop E (some n) srcidValue conds listObjs db = some (all.take n, db) := by
  induction conds generalizing listObjs with
  | nil =>
    refine ⟨listObjs, rfl, List.prefix_rfl, fun n hn => ?_⟩
    rw [orLoop, List.take_of_length_le hn.le]
  | cons kv conds ih =>
    obtain ⟨⟨rows, hrows⟩, hconds⟩ := List.forall_mem_cons.mp hanswers
    obtain ⟨all, hall, hprefix, hpages⟩ := ih hconds (newRecs rows listObjs)
    refine ⟨all, ?_, (newRecs_extends rows listObjs).trans hprefix, fun n hn => ?_⟩
    · simp only [orLoop, hrows, Option.bind_eq_bind, Option.bind_some, addRecs_none,
        Bool.false_eq_true, if_false, hall]
    · simp only [orLoop, hrows, Option.bind_eq_bind, Option.bind_some,
        addRecs_enough rows listObjs hn, decide_eq_true_eq]
      by_cases hfull : n ≤ (newRecs rows listObjs).length
      · have htake : (newRecs rows listObjs).take n = all.take n := by
          obtain ⟨rest, rfl⟩ := hprefix
          rw [List.take_append_of_le_length hfull]
        rw [if_pos hfull, htake]
      · have hlt : (newRecs rows listObjs).length < n := by omega
        rw [if_neg hfull, List.take_of_length_le hlt.le]
        exact hpages n hlt

end Collecting

end Rhodes.FindLoops
