import Mathlib
import Rhodes.FindExact
import Rhodes.RhomDeletes

/-!
delete_all with conditions and find(:all) with the same hash. delete_all merges the pairs of the
hash to its last one, with nil as the empty text, and deletes both tables by the object ids alone;
find intersects the objects of all pairs of its source. An object is an id that is not NULL.
-/
namespace Rhodes.DeletedFound

open Database SqlPieces SqlTables RhomSql RhomStatements RhomFind FindTexts FindRows FindExact

section Counterparts

/-- The values of a hash as get_conditions_hash takes them, with to_s. -/
def texted (cs : List (String × Option String)) : List (String × String) :=
  cs.map (fun c => (c.1, c.2.getD ""))

variable (E : Engine) (src : Int) (srcAttrs : List String)
  (sort : (Vars → Vars → Int) → List Vars → List Vars) (cs : List (String × Option String))
  (db : Tables)

/-- delete_all(:conditions => cs) -/
def deleteFound : Tables := RhomDeletes.deleteAll E src (some (some (texted cs))) db

/-- find(:all, :conditions => cs) returns the objects that are wanted. -/
def FindsAll (wanted : String → Prop) : Prop := ∃ found,
  (findBycondhash E src srcAttrs sort .all (allArgs none) none (keyed cs) db).2 =
    some (.objects (some found), db) ∧
  Exactly db src srcAttrs (cs.map Prod.fst) wanted found

/-- The row of an object of the source that meets the conditions. -/
def Wanted (sourceId : Int) (object : Option String) : Prop :=
  sourceId = src ∧ ∃ id, object = some id ∧ MeetsAll db src cs id

/-- delete_all removes what find returns, which then returns nothing. -/
structure DeletesFound : Prop where
  found : FindsAll E src srcAttrs sort cs db (MeetsAll db src cs)
  objects : ∀ r, r ∈ (deleteFound E src cs db).objects.rows ↔
    r ∈ db.objects.rows ∧ ¬Wanted src cs db r.sourceId r.object
  changed : ∀ r, r ∈ (deleteFound E src cs db).changed.rows ↔
    r ∈ db.changed.rows ∧ ¬Wanted src cs db r.sourceId r.object
  gone : FindsAll E src srcAttrs sort cs (deleteFound E src cs db) (fun _ => False)

/-- The last pair decides as all pairs do: an object that it selects meets the others too, and a
last nil selects the empty text where the conditions select no object. No object that is deleted has
the id NULL, as a text or as no id, or rows in another source. -/
structure LastDecides : Prop where
  value : ∀ k v, cs.getLast? = some (k, some v) → ∀ id, id ≠ "NULL" → HasValue db src id k v →
    MeetsAll db src cs id
  nil : ∀ k, cs.getLast? = some (k, none) →
    (∀ id, id ≠ "NULL" → ¬HasValue db src id k "") ∧ ∀ id, ¬MeetsAll db src cs id
  text : ∀ id, MeetsAll db src cs id → id ≠ "NULL"
  ids : ∀ r ∈ db.objects.rows, RhomDeletes.Selected (texted cs) src r → r.object ≠ none
  own : ∀ id, MeetsAll db src cs id → RhomDeletes.OwnObject src db (some id)

end Counterparts

section Selecting

variable {src : Int} {cs : List (String × Option String)} {db : Tables}

/-- The last pair selects the object, and its id is a text that the deletes find. -/
def Hit (src : Int) (cs : List (String × Option String)) (db : Tables) (id : String) : Prop :=
  id ≠ "NULL" ∧ ∃ q ∈ db.objects.rows, RhomDeletes.Selected (texted cs) src q ∧
    q.object = some id

theorem deleted_some (id : String) :
    RhomDeletes.Deleted (texted cs) src db (some id) ↔ Hit src cs db id := by
  constructor
  · rintro ⟨q, hq, hselected, hobject, hnull⟩
    exact ⟨fun h => hnull (hobject.symm.trans (congrArg some h)), q, hq, hselected, hobject.symm⟩
  · rintro ⟨hnull, q, hq, hselected, hobject⟩
    refine ⟨q, hq, hselected, hobject.symm, ?_⟩
    rw [hobject]
    exact fun h => hnull (Option.some.inj h)

theorem deleted_none : RhomDeletes.Deleted (texted cs) src db none ↔
    ∃ q ∈ db.objects.rows, RhomDeletes.Selected (texted cs) src q ∧ q.object = none := by
  constructor
  · rintro ⟨q, hq, hselected, hobject, -⟩
    exact ⟨q, hq, hselected, hobject.symm⟩
  · rintro ⟨q, hq, hselected, hobject⟩
    refine ⟨q, hq, hselected, hobject.symm, ?_⟩
    rw [hobject]
    exact nofun

/-- Conditions with attributes and values that SQLite reads as they are. -/
def PlainHash (cs : List (String × Option String)) : Prop :=
  ∀ c ∈ cs, Piece.PlainValue (some c.1) ∧ Piece.PlainValue c.2

theorem PlainHash.conds (h : PlainHash cs) : PlainConds cs := by
  intro c hc
  split
  · exact h c hc
  · exact ((h c hc).1 c.1 rfl).2.2

theorem plain_getD {v : Option String} (h : Piece.PlainValue v) :
    Piece.PlainValue (some (v.getD "")) := by
  rintro s hs
  cases hs
  cases v with
  | none => exact ⟨by decide, by decide, by decide⟩
  | some v => exact h v rfl

theorem getLast_texted (cs : List (String × Option String)) :
    (texted cs).getLast? = cs.getLast?.map (fun c => (c.1, c.2.getD "")) :=
  List.getLast?_map

theorem PlainHash.readable (h : PlainHash cs) : RhomDeletes.ReadableConditions (texted cs) := by
  intro kv hkv
  rw [getLast_texted] at hkv
  obtain ⟨c, hc, rfl⟩ := Option.mem_map.mp hkv
  obtain ⟨hkey, hvalue⟩ := h c (List.mem_of_getLast? hc)
  exact ⟨readable_of_plain hkey, readable_of_plain (plain_getD hvalue)⟩

/-- The objects of the last pair are those with its value. -/
theorem hit_last (hplain : PlainHash cs) {k : String} {v : Option String}
    (hlast : cs.getLast? = some (k, v)) (id : String) :
    Hit src cs db id ↔ id ≠ "NULL" ∧ HasValue db src id k (v.getD "") := by
  obtain ⟨hkey, hvalue⟩ := hplain (k, v) (List.mem_of_getLast? hlast)
  have hselected : ∀ q, RhomDeletes.Selected (texted cs) src q ↔
      (q.attrib = some k ∧ q.value = some (v.getD "")) ∧ q.sourceId = src := by
    intro q
    unfold RhomDeletes.Selected
    rw [getLast_texted, hlast]
    simp [cellIs_iff hkey, cellIs_iff (plain_getD hvalue)]
  refine and_congr_right (fun _ => exists_congr (fun q => and_congr_right (fun _ => ?_)))
  rw [hselected]
  tauto

theorem hit_empty (id : String) :
    Hit src [] db id ↔ id ≠ "NULL" ∧ OfSource db src (some id) := by
  refine and_congr_right (fun _ => exists_congr (fun q => and_congr_right (fun _ => ?_)))
  have hselected : RhomDeletes.Selected (texted []) src q ↔ q.sourceId = src := by
    unfold RhomDeletes.Selected
    simp [texted]
  rw [hselected, and_comm]

/-- The last pair decides as all pairs do just where it selects the same objects. -/
theorem hit_iff_meets (hplain : PlainHash cs) :
    (∀ id, OfSource db src (some id) → (Hit src cs db id ↔ MeetsAll db src cs id)) ↔
      (∀ k v, cs.getLast? = some (k, some v) → ∀ id, id ≠ "NULL" → HasValue db src id k v →
        MeetsAll db src cs id) ∧
      (∀ k, cs.getLast? = some (k, none) →
        (∀ id, id ≠ "NULL" → ¬HasValue db src id k "") ∧ ∀ id, ¬MeetsAll db src cs id) ∧
      ∀ id, MeetsAll db src cs id → id ≠ "NULL" := by
  have hsource : ∀ {id k v}, HasValue db src id k v → OfSource db src (some id) :=
    fun ⟨r, hr, hobject, _, hsrc, _⟩ => ⟨r, hr, hobject, hsrc⟩
  constructor
  · intro h
    refine ⟨fun k v hlast id hnull hvalue => ?_, fun k hlast => ?_, fun id hmeets => ?_⟩
    · exact (h id (hsource hvalue)).mp ((hit_last hplain hlast id).mpr ⟨hnull, hvalue⟩)
    · have hno : ∀ id, MeetsAll db src cs id → ∀ v, ¬HasValue db src id k v :=
        fun id hmeets => hmeets.2 (k, none) (List.mem_of_getLast? hlast)
      refine ⟨fun id hnull hvalue => ?_, fun id hmeets => ?_⟩
      · have hhit := (hit_last hplain hlast id).mpr ⟨hnull, hvalue⟩
        exact hno id ((h id (hsource hvalue)).mp hhit) "" hvalue
      · have hhit := (h id hmeets.1).mpr hmeets
        exact hno id hmeets "" ((hit_last hplain hlast id).mp hhit).2
    · exact ((h id hmeets.1).mpr hmeets).1
  · rintro ⟨hvalue, hnil, htext⟩ id hof
    cases hlast : cs.getLast? with
    | none =>
      cases List.getLast?_eq_none_iff.mp hlast
      rw [hit_empty]
      exact ⟨fun h => ⟨h.2, List.forall_mem_nil _⟩, fun h => ⟨htext id h, h.1⟩⟩
    | some c =>
      obtain ⟨k, v⟩ := c
      rw [hit_last hplain hlast]
      cases v with
      | some v =>
        refine ⟨fun h => hvalue k v hlast id h.1 h.2, fun h => ⟨htext id h, ?_⟩⟩
        exact h.2 (k, some v) (List.mem_of_getLast? hlast)
      | none =>
        obtain ⟨hempty, hno⟩ := hnil k hlast
        exact ⟨fun h => absurd h.2 (hempty id h.1), fun h => absurd h (hno id)⟩

end Selecting

section Deleting

variable {src : Int} {cs : List (String × Option String)} {db : Tables}

/-- A part of the table has the values of the whole for an object whose rows it keeps. -/
theorem not_meets_of_deleted {db' : Tables}
    (hrows : ∀ r, r ∈ db'.objects.rows ↔
      r ∈ db.objects.rows ∧ ¬Wanted src cs db r.sourceId r.object) (id : String) :
    ¬MeetsAll db' src cs id := by
  rintro ⟨⟨r, hr, hobject, hsrc⟩, hmeets⟩
  obtain ⟨hrow, hkept⟩ := (hrows r).mp hr
  have hnot : ¬MeetsAll db src cs id := by
    intro h
    exact hkept ⟨hsrc, id, hobject, h⟩
  have hvalue : ∀ k v, HasValue db' src id k v ↔ HasValue db src id k v := by
    intro k v
    constructor
    · rintro ⟨q, hq, hobject, hrest⟩
      exact ⟨q, ((hrows q).mp hq).1, hobject, hrest⟩
    · rintro ⟨q, hq, hobject, hrest⟩
      refine ⟨q, (hrows q).mpr ⟨hq, ?_⟩, hobject, hrest⟩
      rintro ⟨-, id', hobject', h⟩
      cases hobject.symm.trans hobject'
      exact hnot h
  refine hnot ⟨⟨r, hrow, hobject, hsrc⟩, fun c hc => ?_⟩
  have hc := hmeets c hc
  unfold Meets at hc ⊢
  cases hcond : c.2 with
  | some v =>
    rw [hcond] at hc
    exact (hvalue _ _).mp hc
  | none =>
    rw [hcond] at hc
    exact fun v h => hc v ((hvalue _ _).mpr h)

/-- The rows that delete_all deletes are those of wanted objects just where the last pair decides
and only the source has such objects. -/
theorem deleted_iff_wanted (hplain : PlainHash cs) :
    ((∀ r ∈ db.objects.rows, RhomDeletes.Deleted (texted cs) src db r.object ↔
        Wanted src cs db r.sourceId r.object) ∧
      ∀ r ∈ db.changed.rows, RhomDeletes.Deleted (texted cs) src db r.object ↔
        Wanted src cs db r.sourceId r.object) ↔ LastDecides src cs db := by
  constructor
  · rintro ⟨hobjects, hchanged⟩
    have hmeets : ∀ id, OfSource db src (some id) →
        (Hit src cs db id ↔ MeetsAll db src cs id) := by
      rintro id ⟨r, hr, hobject, hsrc⟩
      have hrow := hobjects r hr
      rw [hobject, deleted_some] at hrow
      rw [hrow]
      constructor
      · rintro ⟨-, id', hid, h⟩
        cases hid
        exact h
      · exact fun h => ⟨hsrc, id, rfl, h⟩
    obtain ⟨hvalue, hnil, htext⟩ := (hit_iff_meets hplain).mp hmeets
    refine ⟨hvalue, hnil, htext, fun r hr hselected hnone => ?_, fun id h => ⟨?_, ?_⟩⟩
    · obtain ⟨-, id, hid, -⟩ := (hobjects r hr).mp (by
        rw [hnone]
        exact deleted_none.mpr ⟨r, hr, hselected, hnone⟩)
      rw [hnone] at hid
      cases hid
    · rintro r hr ⟨hobject, -⟩
      exact ((hobjects r hr).mp (by
        rw [hobject, deleted_some]
        exact (hmeets id h.1).mpr h)).1
    · rintro r hr ⟨hobject, -⟩
      exact ((hchanged r hr).mp (by
        rw [hobject, deleted_some]
        exact (hmeets id h.1).mpr h)).1
  · intro h
    have hmeets := (hit_iff_meets hplain).mpr ⟨h.value, h.nil, h.text⟩
    have hnone : ¬RhomDeletes.Deleted (texted cs) src db none := by
      intro hdeleted
      obtain ⟨q, hq, hselected, hobject⟩ := deleted_none.mp hdeleted
      exact h.ids q hq hselected hobject
    have hhit : ∀ id, Hit src cs db id ↔ MeetsAll db src cs id := by
      intro id
      refine ⟨fun hid => (hmeets id ?_).mp hid, fun hid => (hmeets id hid.1).mpr hid⟩
      obtain ⟨-, q, hq, hselected, hobject⟩ := hid
      exact ⟨q, hq, hobject, hselected.2⟩
    have hrow : ∀ (sourceId : Int) (object : Option String),
        (∀ id, object = some id → MeetsAll db src cs id → sourceId = src) →
        (RhomDeletes.Deleted (texted cs) src db object ↔ Wanted src cs db sourceId object) := by
      intro sourceId object hsource
      cases object with
      | none =>
        refine iff_of_false hnone ?_
        rintro ⟨-, id, hid, -⟩
        cases hid
      | some id =>
        rw [deleted_some, hhit]
        refine ⟨fun hid => ⟨hsource id rfl hid, id, rfl, hid⟩, ?_⟩
        rintro ⟨-, id', hid, h⟩
        cases hid
        exact h
    have hcell : ∀ {id : String} {object : Option String}, MeetsAll db src cs id →
        object = some id → CellIs (some id) object :=
      fun hid hobject => ⟨hobject, fun h' => h.text _ hid (Option.some.inj h')⟩
    exact ⟨fun r hr => hrow _ _ (fun id hobject hid => (h.own id hid).1 r hr (hcell hid hobject)),
      fun r hr => hrow _ _ (fun id hobject hid => (h.own id hid).2 r hr (hcell hid hobject))⟩

variable {E : Engine} (hE : Lawful E) (srcAttrs : List String)
  (sort : (Vars → Vars → Int) → List Vars → List Vars)

include hE

/-- delete_all deletes what find finds just where the last pair decides. -/
theorem deletes_found_iff (hclean : CTable db) (hfew : FewAttribs srcAttrs)
    (hattribs : CAttribs srcAttrs) (hplain : PlainHash cs)
    (hmany : (cs.filter (fun c => c.2.isSome)).length ≤ 500)
    (hids : RhomDeletes.ReadableFound (texted cs) src db) :
    DeletesFound E src srcAttrs sort cs db ↔ LastDecides src cs db := by
  have hdelete : deleteFound E src cs db =
      ⟨db.changed.delete (fun r => RhomDeletes.Deleted (texted cs) src db r.object),
        db.objects.delete (fun r => RhomDeletes.Deleted (texted cs) src db r.object)⟩ := by
    unfold deleteFound RhomDeletes.deleteAll
    rw [RhomDeletes.deleteAllRows_found hE hplain.readable hids]
    rfl
  have hfind : ∀ db, CTable db → FindsAll E src srcAttrs sort cs db (MeetsAll db src cs) :=
    fun db hclean => find_and hE src srcAttrs sort (rfl : (allArgs none).order = none) rfl none db
      hclean hfew hattribs hplain.conds (by decide) hmany
  rw [← deleted_iff_wanted hplain]
  constructor
  · intro h
    have hobjects := h.objects
    have hchanged := h.changed
    rw [hdelete] at hobjects hchanged
    refine ⟨fun r hr => ?_, fun r hr => ?_⟩
    · have hrow := hobjects r
      rw [ObjectTable.mem_delete] at hrow
      tauto
    · have hrow := hchanged r
      rw [ChangedTable.mem_delete] at hrow
      tauto
  · rintro ⟨hobjects, hchanged⟩
    have hrows : ∀ r, r ∈ (deleteFound E src cs db).objects.rows ↔
        r ∈ db.objects.rows ∧ ¬Wanted src cs db r.sourceId r.object := by
      intro r
      rw [hdelete, ObjectTable.mem_delete]
      exact and_congr_right (fun hr => not_congr (hobjects r hr))
    refine ⟨hfind db hclean, hrows, fun r => ?_, ?_⟩
    · rw [hdelete, ChangedTable.mem_delete]
      exact and_congr_right (fun hr => not_congr (hchanged r hr))
    · obtain ⟨found, hrun, hexactly⟩ := hfind (deleteFound E src cs db)
        (fun r hr => hclean r ((hrows r).mp hr).1)
      exact ⟨found, hrun, hexactly.congr src _
        (fun id => iff_of_false (not_meets_of_deleted hrows id) not_false)⟩

end Deleting

section Diverging

/-- The name and the phone of an object. -/
def nameAndPhone : List (String × Option String) := [("name", some "a"), ("phone", some "5")]

/-- Two objects with one name, of which the second has the phone too. -/
theorem deletes_found_iff_name :
    DeletesFound sqlite 1 ["name", "phone"] unsorted nameAndPhone twoNamed ↔
      LastDecides 1 nameAndPhone twoNamed := by
  have hclean : CTable twoNamed := by
    intro r hr
    have htexts : ∀ r ∈ twoNamed.objects.rows, (∀ s ∈ r.object, '\x00' ∉ s.toList) ∧
        ∀ s ∈ r.value, '\x00' ∉ s.toList := by decide
    exact htexts r hr
  have hattribs : CAttribs ["name", "phone"] :=
    List.forall_mem_cons.mpr ⟨by decide, List.forall_mem_singleton.mpr (by decide)⟩
  have hfew : FewAttribs ["name", "phone"] := (by decide : 3 * 2 ≤ 999)
  have hplain : PlainHash nameAndPhone := by
    refine List.forall_mem_cons.mpr ⟨⟨?_, ?_⟩, List.forall_mem_singleton.mpr ⟨?_, ?_⟩⟩
    all_goals
      rintro s hs
      cases hs
      exact ⟨by decide, by decide, by decide⟩
  refine deletes_found_iff sqlite_lawful ["name", "phone"] unsorted hclean hfew hattribs hplain
    (by decide) ?_
  intro r hr _ s hs
  have hids : ∀ r ∈ twoNamed.objects.rows, ∀ s ∈ r.object, Piece.PlainIn '\'' s := by decide
  exact hids r hr s hs

/-- An object with a title. -/
def titled : ObjectValue := ⟨1, 1, some "title", some "7", some "b", none⟩

def titledOnly : Tables where
  objects := ⟨[titled], by decide⟩
  changed := .emptyFrom 1

/-- The object does not meet the first of two conditions but is deleted by the last, and an object
without a name, which a nil condition finds, is not deleted. -/
theorem deletes_by_last_pair :
    ¬DeletesFound sqlite 1 ["title"] unsorted [("name", some "a"), ("title", some "b")]
      titledOnly ∧
    ¬DeletesFound sqlite 1 ["title"] unsorted [("name", none)] titledOnly := by
  have hvalue : ∀ k v, HasValue titledOnly 1 "7" k v → k = "title" := by
    rintro k v ⟨r, hr, -, hattrib, -⟩
    cases List.mem_singleton.mp hr
    exact (Option.some.inj hattrib).symm
  constructor
  · intro h
    have hgone : (deleteFound sqlite 1 [("name", some "a"), ("title", some "b")]
        titledOnly).objects.rows = [] := by decide +kernel
    have hrow := h.objects titled
    rw [hgone] at hrow
    refine List.not_mem_nil (hrow.mpr ⟨List.mem_cons_self, ?_⟩)
    rintro ⟨-, id, hid, -, hmeets⟩
    cases hid
    exact absurd (hvalue _ _ (hmeets ("name", some "a") List.mem_cons_self)) (by decide)
  · intro h
    have hkept : (deleteFound sqlite 1 [("name", none)] titledOnly).objects.rows = [titled] := by
      decide +kernel
    have hrow := h.objects titled
    rw [hkept] at hrow
    refine (hrow.mp List.mem_cons_self).2 ⟨rfl, "7", rfl, ?_⟩
    refine ⟨⟨titled, List.mem_cons_self, rfl, rfl⟩, List.forall_mem_singleton.mpr ?_⟩
    exact fun v hv => absurd (hvalue _ _ hv) (by decide)

end Diverging

end Rhodes.DeletedFound
