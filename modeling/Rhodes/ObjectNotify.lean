import Mathlib.Data.List.Pairwise
import Mathlib.Data.Set.Basic
import Rhodes.Notifications

/-!
Object notifications: which objects are watched, which of their changes are still to be
reported, and what fireObjectsNotification puts into its body. `Watch` says what is wanted:
a subscription stays, whichever way it was made, and takes no change away. The tables of
CSyncNotify do the same as long as no step is taken that `Safe` excludes.
-/
namespace Rhodes.ObjectNotify

open Database Statements Source Notifications TwoLevel

/-- The calls, with the loaded sources and the rows of object_values at each of them. -/
inductive ObjectCall where
  | addObjectNotify (nSrcID : Int) (strObject : String)
  | addObjectNotifyByName (strSrcName strObject : String)
  | onObjectChanged (sources : List SyncSource) (nSrcID : Int) (strObject : String)
      (nType : NotifyType)
  | fireObjectsNotification (objects : ObjectTable)

def ObjectCall.run (resolveUrl : String → String) : ObjectCall → SyncNotify → SyncNotify
  | addObjectNotify nSrcID strObject, n => n.addObjectNotify nSrcID strObject
  | addObjectNotifyByName strSrcName strObject, n => n.addObjectNotifyByName strSrcName strObject
  | onObjectChanged sources nSrcID strObject nType, n =>
      n.onObjectChanged sources nSrcID strObject nType
  | fireObjectsNotification objects, n => (n.fireObjectsNotification resolveUrl objects).2

/-- What each fireObjectsNotification of a sequence of calls pushes. -/
def pushes (resolveUrl : String → String) :
    List ObjectCall → SyncNotify → List (Option (String × String))
  | [], _ => []
  | .fireObjectsNotification objects :: calls, n =>
      (n.fireObjectsNotification resolveUrl objects).1 ::
        pushes resolveUrl calls ((ObjectCall.fireObjectsNotification objects).run resolveUrl n)
  | c :: calls, n => pushes resolveUrl calls (c.run resolveUrl n)

/-- The watched objects, those watched by a name that is not looked up yet, and the last
change of each watched object since it was reported. -/
structure Watch where
  watched : Set (Int × String)
  named : List (String × String)
  pending : Int × String → Option NotifyType

/-- No loaded source has the name. -/
def Unloaded (sources : List SyncSource) (p : String × String) : Prop :=
  SyncNotify.findSourceByName sources p.1 = none

instance (sources : List SyncSource) : DecidablePred (Unloaded sources) :=
  fun p => decidable_of_iff (SyncNotify.findSourceByName sources p.1).isNone
    Option.isNone_iff_eq_none

namespace Watch

def start : Watch := ⟨∅, [], fun _ => none⟩

/-- The objects watched by a name that denotes a source. -/
def resolved (w : Watch) (sources : List SyncSource) : Set (Int × String) :=
  fun p => ∃ name src, (name, p.2) ∈ w.named ∧
    SyncNotify.findSourceByName sources name = some src ∧ src.id = p.1

open Classical in
/-- What a call is for. -/
noncomputable def run : ObjectCall → Watch → Watch
  | .addObjectNotify nSrcID strObject, w =>
      { w with watched := insert (nSrcID, strObject) w.watched }
  | .addObjectNotifyByName strSrcName strObject, w =>
      if strSrcName.length = 0 then w
      else { w with named := w.named ++ [(strSrcName, SyncNotify.stripBraces strObject)] }
  | .onObjectChanged sources nSrcID strObject nType, w =>
      let watched := w.watched ∪ w.resolved sources
      ⟨watched, w.named.filter (Unloaded sources), if (nSrcID, strObject) ∈ watched then
        Function.update w.pending (nSrcID, strObject) (some nType) else w.pending⟩
  | .fireObjectsNotification _, w => { w with pending := fun _ => none }

end Watch

/-- The changes that a fireObjectsNotification has to report, with the rows it finds. -/
structure Due where
  pending : Int × String → Option NotifyType
  objects : ObjectTable

/-- A row of the same source and object remains. -/
def Due.Remains (d : Due) (src : Int) (object : String) : Prop :=
  ∃ r ∈ d.objects.rows, r.sourceId = src ∧ r.object = some object

/-- A delete is reported as one if nothing remains of the object. -/
def Due.Reported (d : Due) (c : ObjectChange) : Prop :=
  ∃ t, d.pending (c.src, c.object) = some t ∧
    ((t = .enDelete ∧ d.Remains c.src c.object ∧ c.type = .enUpdate) ∨
      (¬ (t = .enDelete ∧ d.Remains c.src c.object) ∧ c.type = t))

noncomputable def dues : List ObjectCall → Watch → List Due
  | [], _ => []
  | .fireObjectsNotification objects :: calls, w =>
      ⟨w.pending, objects⟩ :: dues calls (w.run (.fireObjectsNotification objects))
  | c :: calls, w => dues calls (w.run c)

/-- The body has every change that is due once, and nothing else. -/
def Complete (url : String) (push : Option (String × String)) (d : Due) : Prop :=
  ∃ changes : List ObjectChange,
    push = (if changes = [] then none else some (url, SyncNotify.objectsBody changes)) ∧
    (changes.map (fun c => (c.src, c.object))).Nodup ∧ ∀ c, c ∈ changes ↔ d.Reported c

def slot (n : SyncNotify) : List (String × String) :=
  if n.strSingleObjectSrcName.length = 0 then []
  else [(n.strSingleObjectSrcName, n.strSingleObjectID)]

/-- The change that is recorded for an object; `none` is enNone or no subscription. -/
def recorded (n : SyncNotify) (src : Int) (object : String) : Option NotifyType :=
  (lookup n.hashSrcIDAndObject src object).join

/-- The steps at which the tables do what is wanted: no subscription is made of an object with a
recorded change (unless that change is overwritten at once), none by name while another one
by name is not looked up, none by name is looked up before its source is loaded, and no delete is
reported while rows of the object remain in other sources only. -/
def Safe : ObjectCall → SyncNotify → Prop
  | .addObjectNotify nSrcID strObject, n => recorded n nSrcID strObject = none
  | .addObjectNotifyByName strSrcName strObject, n =>
      slot n = [] ∨ slot n = [(strSrcName, SyncNotify.stripBraces strObject)]
  | .onObjectChanged sources nSrcID strObject _, n => ∀ name object, (name, object) ∈ slot n →
      ∃ src, SyncNotify.findSourceByName sources name = some src ∧
        (recorded n src.id object = none ∨ (src.id, object) = (nSrcID, strObject))
  | .fireObjectsNotification objects, n => ∀ src object, recorded n src object = some .enDelete →
      SyncNotify.objectRemains objects object = true →
        Due.Remains ⟨fun _ => none, objects⟩ src object

/-- Every call of the sequence is made in a state where it is safe. -/
def SafeRun (resolveUrl : String → String) : List ObjectCall → SyncNotify → Prop
  | [], _ => True
  | c :: calls, n => Safe c n ∧ SafeRun resolveUrl calls (c.run resolveUrl n)

/-- The tables hold what is watched and what is pending. -/
structure Holds (n : SyncNotify) (w : Watch) : Prop where
  watched : ∀ src object, (src, object) ∈ w.watched ↔
    (lookup n.hashSrcIDAndObject src object).isSome = true
  pending : ∀ src object, w.pending (src, object) = recorded n src object
  named : ∀ p, p ∈ w.named ↔ p ∈ slot n

theorem lookup_addObjectNotify (n : SyncNotify) (src src' : Int) (object object' : String) :
    lookup (n.addObjectNotify src object).hashSrcIDAndObject src' object' =
      if src = src' ∧ object = object' then some none
      else lookup n.hashSrcIDAndObject src' object' := lookup_put _ _ _ _ _ _

theorem addObjectNotify_holds {n : SyncNotify} {w : Watch} (h : Holds n w) {src : Int}
    {object : String} (hsafe : recorded n src object = none) :
    Holds (n.addObjectNotify src object) { w with watched := insert (src, object) w.watched } where
  watched := by
    intro src' object'
    rw [lookup_addObjectNotify, Set.mem_insert_iff, h.watched, Prod.mk.injEq]
    by_cases hsame : src = src' ∧ object = object'
    · simp [hsame]
    · have hne : ¬ (src' = src ∧ object' = object) := fun he => hsame ⟨he.1.symm, he.2.symm⟩
      simp [hsame, hne]
  pending := by
    intro src' object'
    rw [h.pending]
    unfold recorded
    rw [lookup_addObjectNotify]
    by_cases hsame : src = src' ∧ object = object'
    · obtain ⟨rfl, rfl⟩ := hsame
      simpa [recorded] using hsafe
    · rw [if_neg hsame]
  named := h.named

theorem addObjectNotifyByName_holds {n : SyncNotify} {w : Watch} (h : Holds n w)
    {strSrcName strObject : String}
    (hsafe : slot n = [] ∨ slot n = [(strSrcName, SyncNotify.stripBraces strObject)]) :
    Holds (n.addObjectNotifyByName strSrcName strObject)
      (w.run (.addObjectNotifyByName strSrcName strObject)) := by
  have hslot : slot (n.addObjectNotifyByName strSrcName strObject) =
      if strSrcName.length = 0 then [] else [(strSrcName, SyncNotify.stripBraces strObject)] := rfl
  have hempty : strSrcName.length = 0 → slot n = [] := by
    intro hlen
    rcases hsafe with hnil | hone
    · exact hnil
    · unfold slot at hone ⊢
      split at hone
      · cases hone
      · rename_i hname
        simp only [List.cons.injEq, Prod.mk.injEq] at hone
        rw [hone.1.1] at hname
        exact absurd hlen hname
  by_cases hlen : strSrcName.length = 0
  · simp only [Watch.run, if_pos hlen]
    refine ⟨h.watched, h.pending, ?_⟩
    intro p
    rw [h.named, hslot, if_pos hlen, hempty hlen]
  · simp only [Watch.run, if_neg hlen]
    refine ⟨h.watched, h.pending, ?_⟩
    intro p
    rw [List.mem_append, h.named, hslot, if_neg hlen]
    rcases hsafe with hnil | hone
    · simp [hnil]
    · simp [hone]

/-- The record of a change, once the subscription by name has been looked up. -/
def record (n : SyncNotify) (src : Int) (object : String) (t : NotifyType) : SyncNotify :=
  match n.hashSrcIDAndObject[src]? with
  | none => n
  | some hashObject =>
      if hashObject.contains object then
        { n with hashSrcIDAndObject :=
            n.hashSrcIDAndObject.insert src (hashObject.insert object (some t)) }
      else n

theorem onObjectChanged_eq (n : SyncNotify) (sources : List SyncSource) (src : Int)
    (object : String) (t : NotifyType) :
    n.onObjectChanged sources src object t = record (n.processSingleObject sources) src object t :=
  rfl

theorem record_table (n : SyncNotify) (src : Int) (object : String) (t : NotifyType) :
    (record n src object t).hashSrcIDAndObject =
      replace n.hashSrcIDAndObject src object (some t) := by
  unfold record replace
  cases n.hashSrcIDAndObject[src]? with
  | none => rfl
  | some inner =>
    dsimp only
    split <;> rfl

theorem lookup_record (n : SyncNotify) (src src' : Int) (object object' : String)
    (t : NotifyType) :
    lookup (record n src object t).hashSrcIDAndObject src' object' =
      if (lookup n.hashSrcIDAndObject src object).isSome = true ∧ src = src' ∧ object = object' then
        some (some t) else lookup n.hashSrcIDAndObject src' object' := by
  rw [record_table]
  exact lookup_replace ..

theorem slot_record (n : SyncNotify) (src : Int) (object : String) (t : NotifyType) :
    slot (record n src object t) = slot n := by
  unfold record
  split
  · rfl
  · split <;> rfl

theorem record_holds {n : SyncNotify} {w : Watch} (h : Holds n w) (src : Int) (object : String)
    (t : NotifyType) [Decidable ((src, object) ∈ w.watched)] :
    Holds (record n src object t) { w with pending :=
      if (src, object) ∈ w.watched then Function.update w.pending (src, object) (some t)
      else w.pending } where
  watched := by
    intro src' object'
    rw [lookup_record, h.watched]
    split
    · rename_i hsame
      obtain ⟨hsome, rfl, rfl⟩ := hsame
      simpa using hsome
    · exact Iff.rfl
  pending := by
    intro src' object'
    unfold recorded
    rw [lookup_record]
    simp only [h.watched]
    by_cases hsome : (lookup n.hashSrcIDAndObject src object).isSome = true
    · simp only [hsome, if_true, true_and]
      by_cases hsame : src = src' ∧ object = object'
      · obtain ⟨rfl, rfl⟩ := hsame
        simp
      · have hne : (src', object') ≠ (src, object) := by
          intro he
          cases he
          exact hsame ⟨rfl, rfl⟩
        rw [if_neg hsame, Function.update_of_ne hne, h.pending]
        rfl
    · simp only [hsome]
      exact h.pending src' object'
  named := by
    intro p
    rw [slot_record]
    exact h.named p

/-- The object watched by a name, if the name denotes a source. -/
theorem processSingleObject_cases (n : SyncNotify) (sources : List SyncSource) :
    slot (n.processSingleObject sources) = [] ∧
      ((∃ name object src, slot n = [(name, object)] ∧
          SyncNotify.findSourceByName sources name = some src ∧
          (n.processSingleObject sources).hashSrcIDAndObject =
            (n.addObjectNotify src.id object).hashSrcIDAndObject) ∨
        ((∀ name object src, (name, object) ∈ slot n →
            SyncNotify.findSourceByName sources name ≠ some src) ∧
          (n.processSingleObject sources).hashSrcIDAndObject = n.hashSrcIDAndObject)) := by
  unfold SyncNotify.processSingleObject slot
  by_cases hlen : n.strSingleObjectSrcName.length = 0
  · simp [hlen]
  · simp only [if_neg hlen]
    cases hfind : SyncNotify.findSourceByName sources n.strSingleObjectSrcName with
    | none =>
      refine ⟨rfl, Or.inr ⟨?_, rfl⟩⟩
      rintro name object src hmem hsome
      cases List.mem_singleton.mp hmem
      rw [hfind] at hsome
      cases hsome
    | some src => exact ⟨rfl, Or.inl ⟨_, _, src, rfl, hfind, rfl⟩⟩

/-- What is looked up is watched, and its recorded change is gone. -/
theorem processSingleObject_holds {n : SyncNotify} {w : Watch} (h : Holds n w)
    {sources : List SyncSource} (hloaded : ∀ p ∈ slot n, ¬Unloaded sources p) :
    Holds (n.processSingleObject sources) ⟨w.watched ∪ w.resolved sources,
      w.named.filter (Unloaded sources),
      fun p => recorded (n.processSingleObject sources) p.1 p.2⟩ := by
  obtain ⟨hslot, hcases⟩ := processSingleObject_cases n sources
  have hnamed : w.named.filter (Unloaded sources) = [] := by
    rw [List.filter_eq_nil_iff]
    intro p hp
    rw [decide_eq_true_eq]
    exact hloaded p ((h.named p).mp hp)
  refine ⟨?_, fun _ _ => rfl, by simp [hslot, hnamed]⟩
  intro src object
  rw [Set.mem_union, h.watched]
  rcases hcases with ⟨name, object', src', hone, hfind, htable⟩ | ⟨hnone, htable⟩
  · have hresolved : (src, object) ∈ w.resolved sources ↔ src'.id = src ∧ object' = object := by
      constructor
      · rintro ⟨name', src'', hmem, hfind', hid⟩
        rw [h.named, hone, List.mem_singleton, Prod.mk.injEq] at hmem
        obtain ⟨rfl, rfl⟩ := hmem
        cases hfind.symm.trans hfind'
        exact ⟨hid, rfl⟩
      · rintro ⟨rfl, rfl⟩
        refine ⟨name, src', ?_, hfind, rfl⟩
        rw [h.named, hone]
        exact List.mem_singleton_self _
    rw [htable, lookup_addObjectNotify, hresolved]
    by_cases hsame : src'.id = src ∧ object' = object
    · simp [hsame]
    · simp [hsame]
  · have hresolved : (src, object) ∉ w.resolved sources := by
      rintro ⟨name, src', hmem, hfind, -⟩
      rw [h.named] at hmem
      exact hnone name object src' hmem hfind
    simp [htable, hresolved]

/-- A change that was there is gone only where the new one takes its place. -/
theorem recorded_processSingleObject {n : SyncNotify} {w : Watch} (h : Holds n w)
    {sources : List SyncSource} {src : Int} {object : String} {t : NotifyType}
    (hsafe : Safe (.onObjectChanged sources src object t) n) (src' : Int) (object' : String)
    (hne : (src', object') ≠ (src, object)) :
    recorded (n.processSingleObject sources) src' object' = w.pending (src', object') := by
  rw [h.pending]
  obtain ⟨-, ⟨name, object'', src'', hone, hfind, htable⟩ | ⟨-, htable⟩⟩ :=
    processSingleObject_cases n sources
  · unfold recorded
    rw [htable, lookup_addObjectNotify]
    split
    · rename_i hsame
      obtain ⟨rfl, rfl⟩ := hsame
      have hmem : (name, object'') ∈ slot n := by
        rw [hone]
        exact List.mem_singleton_self _
      obtain ⟨src₁, hfind₁, hsafe₁⟩ := hsafe name object'' hmem
      cases hfind.symm.trans hfind₁
      rcases hsafe₁ with hnone | heq
      · exact hnone.symm
      · exact absurd heq hne
    · rfl
  · unfold recorded
    rw [htable]

theorem onObjectChanged_holds {n : SyncNotify} {w : Watch} (h : Holds n w)
    {sources : List SyncSource} {src : Int} {object : String} {t : NotifyType}
    (hsafe : Safe (.onObjectChanged sources src object t) n) :
    Holds (n.onObjectChanged sources src object t)
      (w.run (.onObjectChanged sources src object t)) := by
  classical
  have hloaded : ∀ p ∈ slot n, ¬Unloaded sources p := by
    intro p hp hunloaded
    obtain ⟨src', hfind, -⟩ := hsafe p.1 p.2 hp
    rw [hunloaded] at hfind
    cases hfind
  have hlooked := processSingleObject_holds h hloaded
  have hrecord := record_holds hlooked src object t
  rw [onObjectChanged_eq]
  have hpending : (if (src, object) ∈ w.watched ∪ w.resolved sources then
        Function.update (fun p : Int × String => recorded (n.processSingleObject sources) p.1 p.2)
          (src, object) (some t)
      else fun p => recorded (n.processSingleObject sources) p.1 p.2) =
      if (src, object) ∈ w.watched ∪ w.resolved sources then
        Function.update w.pending (src, object) (some t) else w.pending := by
    funext p
    by_cases hp : p = (src, object)
    · subst hp
      by_cases hmem : (src, object) ∈ w.watched ∪ w.resolved sources
      · simp [hmem]
      · have hnot := fun hold => hmem (Or.inl hold)
        rw [h.watched] at hnot
        have hgone := mt (hlooked.watched src object).mpr hmem
        rw [if_neg hmem, if_neg hmem, h.pending]
        unfold recorded
        rw [Option.not_isSome_iff_eq_none.mp hnot, Option.not_isSome_iff_eq_none.mp hgone]
    · split
      · rw [Function.update_of_ne hp, Function.update_of_ne hp]
        exact recorded_processSingleObject h hsafe p.1 p.2 hp
      · exact recorded_processSingleObject h hsafe p.1 p.2 hp
  simp only [Watch.run]
  rw [← hpending]
  exact hrecord

section Fire

variable (objects : ObjectTable)

/-- What an entry of the table adds to the body. -/
def changeOf (e : Int × String × Option NotifyType) : Option ObjectChange :=
  e.2.2.map (fun t => ⟨SyncNotify.reportedType objects e.2.1 t, e.1, e.2.1⟩)

/-- One turn of the two loops. -/
def turn (acc : List ObjectChange × SyncNotify) (e : Int × String × Option NotifyType) :
    List ObjectChange × SyncNotify :=
  SyncNotify.fireObject objects e.1 acc e.2

theorem fireObjects_eq (n : SyncNotify) :
    n.fireObjects objects = (entries n.hashSrcIDAndObject).foldl (turn objects) ([], n) :=
  foldl_entries _ _ _

theorem foldl_turn_changes (es : List (Int × String × Option NotifyType))
    (acc : List ObjectChange × SyncNotify) :
    (es.foldl (turn objects) acc).1 = acc.1 ++ es.filterMap (changeOf objects) := by
  induction es generalizing acc with
  | nil => simp
  | cons e es ih =>
    obtain ⟨src, object, t⟩ := e
    rw [List.foldl_cons, ih]
    cases t with
    | none =>
      rw [List.filterMap_cons_none rfl]
      rfl
    | some t =>
      have hchange : changeOf objects (src, object, some t) =
          some ⟨SyncNotify.reportedType objects object t, src, object⟩ := rfl
      rw [List.filterMap_cons_some hchange]
      exact List.append_assoc _ _ _

open Classical in
/-- The turns reset what they report and leave the rest. -/
theorem foldl_turn_lookup (es : List (Int × String × Option NotifyType))
    (acc : List ObjectChange × SyncNotify) (src : Int) (object : String) :
    lookup (es.foldl (turn objects) acc).2.hashSrcIDAndObject src object =
      if ∃ t, (src, object, some t) ∈ es then some none
      else lookup acc.2.hashSrcIDAndObject src object := by
  induction es generalizing acc with
  | nil => simp
  | cons e es ih =>
    obtain ⟨src', object', t'⟩ := e
    rw [List.foldl_cons, ih]
    by_cases hlater : ∃ t, (src, object, some t) ∈ es
    · have hsome : ∃ t, (src, object, some t) ∈ (src', object', t') :: es :=
        hlater.imp (fun t ht => List.mem_cons_of_mem _ ht)
      rw [if_pos hlater, if_pos hsome]
    · rw [if_neg hlater]
      cases t' with
      | none =>
        have hnone : ¬ ∃ t, (src, object, some t) ∈ (src', object', none) :: es := by
          rintro ⟨t, ht⟩
          rcases List.mem_cons.mp ht with heq | hmem
          · cases heq
          · exact hlater ⟨t, hmem⟩
        rw [if_neg hnone]
        rfl
      | some t' =>
        show lookup (acc.2.addObjectNotify src' object').hashSrcIDAndObject src object = _
        rw [lookup_addObjectNotify]
        by_cases hsame : src' = src ∧ object' = object
        · obtain ⟨rfl, rfl⟩ := hsame
          rw [if_pos ⟨rfl, rfl⟩, if_pos ⟨t', List.mem_cons_self⟩]
        · have hnone : ¬ ∃ t, (src, object, some t) ∈ (src', object', some t') :: es := by
            rintro ⟨t, ht⟩
            rcases List.mem_cons.mp ht with heq | hmem
            · cases heq
              exact hsame ⟨rfl, rfl⟩
            · exact hlater ⟨t, hmem⟩
          rw [if_neg hsame, if_neg hnone]

theorem foldl_turn_rest (es : List (Int × String × Option NotifyType))
    (acc : List ObjectChange × SyncNotify) :
    slot (es.foldl (turn objects) acc).2 = slot acc.2 ∧
      (es.foldl (turn objects) acc).2.strObjectNotifyUrl = acc.2.strObjectNotifyUrl := by
  induction es generalizing acc with
  | nil => exact ⟨rfl, rfl⟩
  | cons e es ih =>
    obtain ⟨src, object, t⟩ := e
    rw [List.foldl_cons]
    cases t with
    | none => exact ih acc
    | some t => exact ih (turn objects acc (src, object, some t))

theorem recorded_fired (n : SyncNotify) (src : Int) (object : String) :
    lookup (n.fireObjects objects).2.hashSrcIDAndObject src object =
      (lookup n.hashSrcIDAndObject src object).map (fun _ => none) := by
  rw [fireObjects_eq, foldl_turn_lookup]
  cases hlook : lookup n.hashSrcIDAndObject src object with
  | none => simp [mem_entries, hlook]
  | some t =>
    cases t with
    | none => simp [mem_entries, hlook]
    | some t => simp [mem_entries, hlook]

theorem fire_holds {n : SyncNotify} {w : Watch} (h : Holds n w) :
    Holds (n.fireObjects objects).2 { w with pending := fun _ => none } where
  watched := by
    intro src object
    rw [recorded_fired, Option.isSome_map, h.watched]
  pending := by
    intro src object
    unfold recorded
    rw [recorded_fired]
    cases lookup n.hashSrcIDAndObject src object <;> rfl
  named := by
    intro p
    rw [fireObjects_eq, (foldl_turn_rest objects _ _).1]
    exact h.named p

theorem mem_fireObjects {n : SyncNotify} {c : ObjectChange} :
    c ∈ (n.fireObjects objects).1 ↔ ∃ t, recorded n c.src c.object = some t ∧
      c.type = SyncNotify.reportedType objects c.object t := by
  rw [fireObjects_eq, foldl_turn_changes, List.nil_append, List.mem_filterMap]
  constructor
  · rintro ⟨⟨src, object, t⟩, hmem, hchange⟩
    obtain ⟨t, rfl, rfl⟩ := Option.map_eq_some_iff.mp hchange
    have hlook := mem_entries.mp hmem
    exact ⟨t, by simp [recorded, hlook], rfl⟩
  · rintro ⟨t, hrec, htype⟩
    refine ⟨(c.src, c.object, some t), mem_entries.mpr ?_, ?_⟩
    · exact Option.join_eq_some_iff.mp hrec
    · show some (⟨_, c.src, c.object⟩ : ObjectChange) = some c
      rw [← htype]

theorem nodup_fireObjects (n : SyncNotify) :
    ((n.fireObjects objects).1.map (fun c => (c.src, c.object))).Nodup := by
  have hsub : ∀ es : List (Int × String × Option NotifyType),
      List.Sublist ((es.filterMap (changeOf objects)).map (fun c => (c.src, c.object)))
        (es.map (fun e => (e.1, e.2.1))) := by
    intro es
    induction es with
    | nil => exact List.Sublist.slnil
    | cons e es ih =>
      obtain ⟨src, object, t⟩ := e
      cases t with
      | none => exact ih.cons _
      | some t => exact ih.cons_cons _
  rw [fireObjects_eq, foldl_turn_changes, List.nil_append]
  exact (nodup_entries n.hashSrcIDAndObject).sublist (hsub _)

/-- Where no object remains in other sources only, the type is the one that is due. -/
theorem fireObjects_reported {n : SyncNotify} {w : Watch} (h : Holds n w)
    (hsafe : Safe (.fireObjectsNotification objects) n) (c : ObjectChange) :
    c ∈ (n.fireObjects objects).1 ↔ Due.Reported ⟨w.pending, objects⟩ c := by
  rw [mem_fireObjects]
  apply exists_congr
  intro t
  rw [← h.pending]
  apply and_congr_right
  intro hpending
  have hremains : t = .enDelete → (SyncNotify.objectRemains objects c.object = true ↔
      Due.Remains ⟨w.pending, objects⟩ c.src c.object) := by
    rintro rfl
    constructor
    · rw [h.pending] at hpending
      exact hsafe c.src c.object hpending
    · rintro ⟨r, hr, -, hobject⟩
      exact List.any_eq_true.mpr ⟨r, hr, by simpa using hobject⟩
  unfold SyncNotify.reportedType
  by_cases hdel : t = .enDelete
  · by_cases hrem : SyncNotify.objectRemains objects c.object = true
    · simp [hdel, hrem, (hremains hdel).mp hrem]
    · simp [hdel, hrem, mt (hremains hdel).mpr hrem]
  · simp [hdel]

end Fire

theorem fireObjectsNotification_eq {n : SyncNotify} (hurl : n.strObjectNotifyUrl.length ≠ 0)
    (resolveUrl : String → String) (objects : ObjectTable) :
    n.fireObjectsNotification resolveUrl objects =
      (if (n.fireObjects objects).1 = [] then none
        else some (resolveUrl n.strObjectNotifyUrl,
          SyncNotify.objectsBody (n.fireObjects objects).1), (n.fireObjects objects).2) := by
  simp only [SyncNotify.fireObjectsNotification, if_neg hurl, List.isEmpty_iff]

/-- One call. -/
theorem run_holds {n : SyncNotify} {w : Watch} (h : Holds n w)
    (hurl : n.strObjectNotifyUrl.length ≠ 0) (resolveUrl : String → String) {c : ObjectCall}
    (hsafe : Safe c n) :
    Holds (c.run resolveUrl n) (w.run c) ∧
      (c.run resolveUrl n).strObjectNotifyUrl = n.strObjectNotifyUrl := by
  cases c with
  | addObjectNotify src object => exact ⟨addObjectNotify_holds h hsafe, rfl⟩
  | addObjectNotifyByName name object => exact ⟨addObjectNotifyByName_holds h hsafe, rfl⟩
  | onObjectChanged sources src object t =>
    refine ⟨onObjectChanged_holds h hsafe, ?_⟩
    show (n.onObjectChanged sources src object t).strObjectNotifyUrl = _
    rw [onObjectChanged_eq]
    unfold record SyncNotify.processSingleObject
    repeat' split
    all_goals rfl
  | fireObjectsNotification objects =>
    simp only [ObjectCall.run, fireObjectsNotification_eq hurl]
    refine ⟨fire_holds objects h, ?_⟩
    rw [fireObjects_eq, (foldl_turn_rest objects _ _).2]

theorem complete_of_holds (resolveUrl : String → String) (url : String) (hurl : url.length ≠ 0)
    (calls : List ObjectCall) (n : SyncNotify) (w : Watch) (h : Holds n w)
    (hn : n.strObjectNotifyUrl = url) (hsafe : SafeRun resolveUrl calls n) :
    List.Forall₂ (Complete (resolveUrl url)) (pushes resolveUrl calls n) (dues calls w) := by
  induction calls generalizing n w with
  | nil => exact List.Forall₂.nil
  | cons c calls ih =>
    obtain ⟨hc, hcalls⟩ := hsafe
    have hurl' : n.strObjectNotifyUrl.length ≠ 0 := hn ▸ hurl
    obtain ⟨hholds, hkeeps⟩ := run_holds h hurl' resolveUrl hc
    have hrest := ih _ _ hholds (hkeeps.trans hn) hcalls
    cases c with
    | fireObjectsNotification objects =>
      refine List.Forall₂.cons ⟨(n.fireObjects objects).1, ?_, nodup_fireObjects objects n,
        fireObjects_reported objects h hc⟩ hrest
      rw [fireObjectsNotification_eq hurl', hn]
    | _ => exact hrest

theorem start_holds (url : String) : Holds { strObjectNotifyUrl := url } Watch.start :=
  ⟨by simp [Watch.start], by simp [Watch.start, recorded], by simp [Watch.start, slot]⟩

/-- Where every call is safe, every change of a watched object since its last report is in
the next notification once, and a delete is a delete there if nothing remains. -/
theorem objects_notified (resolveUrl : String → String) (url : String) (hurl : url.length ≠ 0)
    (calls : List ObjectCall) (hsafe : SafeRun resolveUrl calls { strObjectNotifyUrl := url }) :
    List.Forall₂ (Complete (resolveUrl url))
      (pushes resolveUrl calls { strObjectNotifyUrl := url }) (dues calls Watch.start) :=
  complete_of_holds resolveUrl url hurl calls _ _ (start_holds url) rfl hsafe

theorem not_complete_none {url : String} {d : Due} {c : ObjectChange} (h : d.Reported c) :
    ¬ Complete url none d := by
  rintro ⟨changes, hpush, -, hmem⟩
  have hc := (hmem c).mpr h
  cases changes with
  | nil => cases hc
  | cons c' changes => simp at hpush

/-- A body for one change is its text. -/
theorem Complete.text_eq {url url' body : String} {d : Due} {c : ObjectChange}
    (h : Complete url (some (url', body)) d) (hone : ∀ c', d.Reported c' ↔ c' = c) :
    body = c.text := by
  obtain ⟨changes, hpush, hnodup, hmem⟩ := h
  have hall : ∀ c' ∈ changes, c' = c := fun c' hc' => (hone c').mp ((hmem c').mp hc')
  have hchanges : changes = [c] := by
    cases changes with
    | nil => simp at hpush
    | cons c₁ rest =>
      have hc₁ := hall c₁ List.mem_cons_self
      cases rest with
      | nil => rw [hc₁]
      | cons c₂ rest =>
        have hc₂ := hall c₂ (List.mem_cons_of_mem _ List.mem_cons_self)
        simp [hc₁, hc₂] at hnodup
  rw [hchanges, if_neg (by simp)] at hpush
  exact (Prod.mk.inj (Option.some.inj hpush)).2

/-- A call that pushes nothing has nothing to report. -/
theorem not_complete_silent {calls : List ObjectCall} {d : Due} {c : ObjectChange}
    (hpushes : pushes id calls { strObjectNotifyUrl := "u" } = [none])
    (hdues : dues calls Watch.start = [d]) (hreported : d.Reported c) :
    ¬ List.Forall₂ (Complete "u") (pushes id calls { strObjectNotifyUrl := "u" })
      (dues calls Watch.start) := by
  rw [hpushes, hdues]
  rintro (_ | ⟨hcomplete, -⟩)
  exact not_complete_none hreported hcomplete

/-- A change is recorded, and then the object is watched again. -/
def watchedAgain : List ObjectCall :=
  [.addObjectNotify 1 "a", .onObjectChanged [] 1 "a" .enUpdate, .addObjectNotify 1 "a",
    .fireObjectsNotification .empty]

theorem watchedAgain_not_complete :
    ¬ List.Forall₂ (Complete "u") (pushes id watchedAgain { strObjectNotifyUrl := "u" })
      (dues watchedAgain Watch.start) := by
  refine not_complete_silent (c := ⟨.enUpdate, 1, "a"⟩) (by decide +kernel) rfl ?_
  refine ⟨.enUpdate, ?_, Or.inr ⟨by simp, rfl⟩⟩
  simp [Watch.run, Watch.start]

/-- Two objects are watched by the names of their sources, and the first one changes. -/
def namedTwice : List ObjectCall :=
  [.addObjectNotifyByName "A" "\x7bx\x7d", .addObjectNotifyByName "B" "\x7by\x7d",
    .onObjectChanged [{ sampleSource with name := "A" }] 1 "x" .enUpdate,
    .fireObjectsNotification .empty]

theorem namedTwice_not_complete :
    ¬ List.Forall₂ (Complete "u") (pushes id namedTwice { strObjectNotifyUrl := "u" })
      (dues namedTwice Watch.start) := by
  refine not_complete_silent (c := ⟨.enUpdate, 1, "x"⟩) (by decide +kernel) rfl ?_
  have hwatched : (1, "x") ∈ (∅ ∪ Watch.resolved ⟨∅, [("A", "x"), ("B", "y")], fun _ => none⟩
      [{ sampleSource with name := "A" }] : Set (Int × String)) :=
    Or.inr ⟨"A", { sampleSource with name := "A" }, by simp, rfl, rfl⟩
  have hnamed : Watch.run (.addObjectNotifyByName "B" "\x7by\x7d")
      (Watch.run (.addObjectNotifyByName "A" "\x7bx\x7d") Watch.start) =
      ⟨∅, [("A", "x"), ("B", "y")], fun _ => none⟩ := by
    simp only [Watch.run, Watch.start]
    rfl
  refine ⟨.enUpdate, ?_, Or.inr ⟨by simp, rfl⟩⟩
  rw [hnamed]
  exact (congrFun (if_pos hwatched) _).trans (Function.update_self _ _ _)

/-- An object of source 1 is deleted while source 2 has one of the same id. -/
def deletedInOne : List ObjectCall :=
  [.addObjectNotify 1 "a", .onObjectChanged [] 1 "a" .enDelete,
    .fireObjectsNotification ⟨[⟨1, 2, some "name", some "a", some "v", none⟩], by simp⟩]

theorem deletedInOne_not_complete :
    ¬ List.Forall₂ (Complete "u") (pushes id deletedInOne { strObjectNotifyUrl := "u" })
      (dues deletedInOne Watch.start) := by
  have hpushes : pushes id deletedInOne { strObjectNotifyUrl := "u" } =
      [some ("u", "updated[][object]=a&updated[][source_id]=1")] := by
    decide +kernel
  rw [hpushes]
  rintro (_ | ⟨hcomplete, -⟩)
  have htext := Complete.text_eq (c := ⟨.enDelete, 1, "a"⟩) hcomplete ?_
  · revert htext
    decide +kernel
  · have hpending : ∀ src object, (Watch.run (.onObjectChanged [] 1 "a" .enDelete)
        (Watch.run (.addObjectNotify 1 "a") Watch.start)).pending (src, object) =
        if src = 1 ∧ object = "a" then some .enDelete else none := by
      intro src object
      simp [Watch.run, Watch.start, Function.update_apply]
    rintro ⟨type, src, object⟩
    simp only [Due.Reported, Due.Remains, hpending, ObjectChange.mk.injEq]
    constructor
    · rintro ⟨t, ht, hcases⟩
      split at ht
      · rename_i hkey
        obtain ⟨rfl, rfl⟩ := hkey
        cases ht
        simpa using hcases
      · cases ht
    · rintro ⟨rfl, rfl, rfl⟩
      exact ⟨.enDelete, by simp, by simp⟩

/-- An object is watched by the name of a source that is loaded later only. -/
def namedBefore : List ObjectCall :=
  [.addObjectNotifyByName "B" "\x7bx\x7d", .onObjectChanged [] 1 "z" .enUpdate,
    .onObjectChanged [{ sampleSource with name := "B" }] 1 "x" .enUpdate,
    .fireObjectsNotification .empty]

theorem namedBefore_not_complete :
    ¬ List.Forall₂ (Complete "u") (pushes id namedBefore { strObjectNotifyUrl := "u" })
      (dues namedBefore Watch.start) := by
  refine not_complete_silent (c := ⟨.enUpdate, 1, "x"⟩) (by decide +kernel) rfl ?_
  obtain ⟨w, hw⟩ : ∃ w, w = Watch.run (.onObjectChanged [] 1 "z" .enUpdate)
      (Watch.run (.addObjectNotifyByName "B" "\x7bx\x7d") Watch.start) := ⟨_, rfl⟩
  have hnamed : ("B", "x") ∈ w.named := by
    rw [hw]
    exact List.mem_filter.mpr ⟨List.mem_singleton_self _, by decide⟩
  have hwatched : (1, "x") ∈ w.watched ∪ w.resolved [{ sampleSource with name := "B" }] :=
    Or.inr ⟨"B", { sampleSource with name := "B" }, hnamed, rfl, rfl⟩
  refine ⟨.enUpdate, ?_, Or.inr ⟨by simp, rfl⟩⟩
  rw [← hw]
  exact (congrFun (if_pos hwatched) _).trans (Function.update_self _ _ _)

/-- A subscription takes a recorded change away, one by name takes the place of another or is
dropped before its source is loaded, and a delete is reported as an update because of the object
of another source. -/
theorem changes_not_notified :
    ¬ List.Forall₂ (Complete "u") (pushes id watchedAgain { strObjectNotifyUrl := "u" })
        (dues watchedAgain Watch.start) ∧
    ¬ List.Forall₂ (Complete "u") (pushes id namedTwice { strObjectNotifyUrl := "u" })
        (dues namedTwice Watch.start) ∧
    ¬ List.Forall₂ (Complete "u") (pushes id deletedInOne { strObjectNotifyUrl := "u" })
        (dues deletedInOne Watch.start) ∧
    ¬ List.Forall₂ (Complete "u") (pushes id namedBefore { strObjectNotifyUrl := "u" })
        (dues namedBefore Watch.start) :=
  ⟨watchedAgain_not_complete, namedTwice_not_complete, deletedInOne_not_complete,
    namedBefore_not_complete⟩

/-- An object is watched, changes twice and is reported, and is deleted and reported. -/
def watchedOnce : List ObjectCall :=
  [.addObjectNotifyByName "Contact" "\x7ba\x7d", .onObjectChanged [sampleSource] 1 "a" .enCreate,
    .onObjectChanged [sampleSource] 1 "a" .enUpdate, .fireObjectsNotification .empty,
    .onObjectChanged [sampleSource] 1 "a" .enDelete, .fireObjectsNotification .empty]

theorem objects_notified_one :
    SafeRun id watchedOnce { strObjectNotifyUrl := "u" } ∧
    pushes id watchedOnce { strObjectNotifyUrl := "u" } =
      [some ("u", "updated[][object]=a&updated[][source_id]=1"),
        some ("u", "deleted[][object]=a&deleted[][source_id]=1")] ∧
    List.Forall₂ (Complete "u") (pushes id watchedOnce { strObjectNotifyUrl := "u" })
      (dues watchedOnce Watch.start) := by
  have hsafe : SafeRun id watchedOnce { strObjectNotifyUrl := "u" } := by
    refine ⟨Or.inl rfl, ?_, ?_, ?_, ?_, ?_, trivial⟩
    · rintro name object hmem
      cases List.mem_singleton.mp hmem
      exact ⟨sampleSource, rfl, Or.inr rfl⟩
    · exact fun name object hmem => absurd hmem List.not_mem_nil
    · exact fun src object _ hremains => by cases hremains
    · exact fun name object hmem => absurd hmem List.not_mem_nil
    · exact fun src object _ hremains => by cases hremains
  exact ⟨hsafe, by decide +kernel, objects_notified id "u" (by decide) watchedOnce hsafe⟩

end Rhodes.ObjectNotify
