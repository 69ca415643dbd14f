import Mathlib
import Rhodes.StoredRows
import Rhodes.LimitedTexts
import Rhodes.AttrIndex

/-!
What is stored is found. save of a new object, or update_attributes, and then find of the object's
id give for each attribute the text that was given, without its braces. What differs by design is in
`savedValue` and `updatedValue`: an empty text does not take the place of nil, and update_attributes
writes only what differs from the object in memory.
-/
namespace Rhodes.StoredFound

open Database SqlGrammar SqlTables RhomSql RhomStatements RhomFind FindRows LimitedTexts RhomCalls
  StateMoves FailedCalls RhomWrites StoredRows AttrManager
open Rhom (attribName)

section Finding

variable (E : Engine) (src : Int) (srcAttrs : List String)
  (sort : (Vars → Vars → Int) → List Vars → List Vars)

/-- The object that find gives for an id, or nil. -/
def foundObject (s : String) (t : Tables) : Option Vars :=
  match (find E src srcAttrs sort (.id s) none none none t).2 with
  | some (.object o, _) => o
  | _ => none

/-- What the found object has for an attribute. -/
def foundValue (s : String) (t : Tables) (a : String) : Option String :=
  (foundObject E src srcAttrs sort s t).bind (fun vars => Rhom.getVar vars a)

variable {E src srcAttrs sort}

/-- The values of a row for a name, where all of them are one. -/
theorem getVar_foldl_row {row : Row} {a : String} {v : Option String}
    (hv : ∀ kv ∈ row, kv.1 = a → kv.2 = v) (vars : Vars) :
    Rhom.getVar (row.foldl (fun vars kv => mergeVar vars kv.1 kv.2) vars) a =
      if a ∈ row.map Prod.fst then v else Rhom.getVar vars a := by
  induction row generalizing vars with
  | nil => simp
  | cons kv row ih =>
    obtain ⟨hkv, hrow⟩ := List.forall_mem_cons.mp hv
    rw [List.foldl_cons, ih hrow, getVar_mergeVar, List.map_cons]
    by_cases hmem : a ∈ row.map Prod.fst
    · rw [if_pos hmem, if_pos (List.mem_cons_of_mem _ hmem)]
    · rw [if_neg hmem]
      by_cases hname : a = kv.1
      · rw [if_pos hname, if_pos (hname ▸ List.mem_cons_self), hkv hname.symm]
      · rw [if_neg hname, if_neg (fun h => (List.mem_cons.mp h).elim hname hmem)]

theorem getVar_newVars {a : String} (hobject : a ≠ "object") (hsource : a ≠ "source_id")
    (id : Option String) : Rhom.getVar (newVars src id) a = none := by
  have hobject' : (a == "object") = false := by simpa using hobject
  have hsource' : (a == "source_id") = false := by simpa using hsource
  simp [newVars, Rhom.getVar, List.lookup_cons, hobject', hsource']

/-- The columns of find's condition on an object. -/
def objectFields (src : Int) (obj : String) : List (Ident × Option String) :=
  [(objectId, some obj), (sourceId, some (toString src))]

theorem matches_objectFields {obj : String} (hobj : PlainText obj) (r : ObjectValue) :
    Matches (objectFields src obj) (objectCells r) ↔ r.object = some obj ∧ r.sourceId = src := by
  rw [objectFields, matches_cons, matches_singleton]
  exact and_congr (cellIs_iff hobj.value _) (intCell _ _)

/-- The greatest value of an attribute is the one that there is. -/
theorem maxText_attrib {obj : String} (hobj : PlainText obj) (t : Tables) (a : String) :
    maxText (((t.objects.rows.filter (fun r => Matches (objectFields src obj)
      (objectCells r))).filter (fun r => r.object = some obj ∧ r.attrib = some a)).map
        ObjectValue.value) = attribValue t src (some obj) (some a) := by
  have hfilter : (t.objects.rows.filter (fun r => Matches (objectFields src obj)
      (objectCells r))).filter (fun r => r.object = some obj ∧ r.attrib = some a) =
      (attribRow t src (some obj) (some a)).toList := by
    rw [← filter_isAttrib, List.filter_filter]
    refine List.filter_congr (fun r _ => ?_)
    rw [← Bool.decide_and, decide_eq_decide, matches_objectFields hobj]
    constructor
    · rintro ⟨⟨hobject, hattrib⟩, -, hsource⟩
      exact ⟨⟨by rw [hobject]; rfl, hobject⟩, ⟨by rw [hattrib]; rfl, hattrib⟩, hsource⟩
    · rintro ⟨hobject, hattrib, hsource⟩
      exact ⟨⟨hobject.2, hattrib.2⟩, hobject.2, hsource⟩
  rw [hfilter, attribValue]
  cases attribRow t src (some obj) (some a) with
  | none => rfl
  | some r => exact rfl

/-- The row of an object, if it has one. -/
theorem pivotValues_object {obj : String} (hobj : PlainText obj) (t : Tables)
    (attribs : List String) : pivotValues attribs (objectFields src obj) t =
      if ∃ r ∈ t.objects.rows, r.object = some obj ∧ r.sourceId = src then
        [some obj :: (attribs.filter isColumn).map
          (fun a => attribValue t src (some obj) (some a))]
      else [] := by
  obtain ⟨found, hfound⟩ : ∃ found, found =
    t.objects.rows.filter (fun r => Matches (objectFields src obj) (objectCells r)) := ⟨_, rfl⟩
  have hmem : ∀ r, r ∈ found ↔ r ∈ t.objects.rows ∧ r.object = some obj ∧ r.sourceId = src := by
    intro r
    rw [hfound, List.mem_filter, decide_eq_true_eq, matches_objectFields hobj]
  have hids : found.map ObjectValue.object = List.replicate found.length (some obj) := by
    refine List.eq_replicate_iff.mpr ⟨List.length_map _, fun o ho => ?_⟩
    obtain ⟨r, hr, rfl⟩ := List.mem_map.mp ho
    exact ((hmem r).mp hr).2.1
  have hvalues : pivotValues attribs (objectFields src obj) t =
      ((found.map ObjectValue.object).dedup).map (fun object => object ::
        (attribs.filter isColumn).map (fun a => maxText ((found.filter (fun r =>
          r.object = object ∧ r.attrib = some a)).map ObjectValue.value))) := by
    rw [hfound, pivotValues]
  rw [hvalues, hids]
  cases hlength : found with
  | nil =>
    rw [if_neg]
    · rfl
    · rintro ⟨r, hr, hkeys⟩
      have hnone := (hmem r).mpr ⟨hr, hkeys⟩
      rw [hlength] at hnone
      cases hnone
  | cons r rest =>
    have hr := (hmem r).mp (hlength ▸ List.mem_cons_self)
    have hsome : found.length ≠ 0 := by
      rw [hlength]
      exact Nat.succ_ne_zero _
    rw [if_pos ⟨r, hr⟩, ← hlength, List.replicate_dedup hsome, List.map_singleton, hfound]
    simp only [maxText_attrib hobj]

variable (hE : Lawful E) {obj : String} (hobj : PlainText obj) {s : String}
  (hs : Rhom.stripBraces s = obj) (hcolumns : PlainColumns srcAttrs) (t : Tables)

include hE hobj hs hcolumns

theorem foundObject_eq : foundObject E src srcAttrs sort s t =
    if ∃ r ∈ t.objects.rows, r.object = some obj ∧ r.sourceId = src then
      some (rowVars src (("object" :: srcAttrs.filter isColumn).zip ((some obj ::
        (srcAttrs.filter isColumn).map (fun a => attribValue t src (some obj) (some a))).map
          (Option.map cText))))
    else none := by
  have hread : ReadableFields (objectFields src obj) :=
    List.forall_mem_cons.mpr ⟨hobj.readable, sourceField_readable src⟩
  have hknown : Known .objects (objectFields src obj) :=
    List.forall_mem_cons.mpr ⟨knownText (by decide) (by decide) _, sourceField_known src⟩
  obtain ⟨stmt, hlimited⟩ := limited_pivot t hcolumns hread hknown none (fun l hl => by cases hl)
  obtain ⟨values, hperm, hall⟩ := hlimited.answered hE
  have hone := hlimited.page hE (l := ⟨1, 0⟩) (by decide) hall
  rw [List.drop_zero] at hone
  have hattrs : srcAttrs.length > 0 := by
    refine List.length_pos_iff.mpr (fun hnil => hcolumns.some_column ?_)
    rw [hnil]
    rfl
  have hrows : genericRows E src srcAttrs (.id s) ⟨none, none, none, none, none, none⟩ none t =
      ((rowsWith ("object" :: srcAttrs.filter isColumn) values).take 1, t) := by
    have hwhere : whereCond src (.id s) = texts (objectFields src obj) := by
      rw [whereCond, hs]
      rfl
    unfold genericRows
    rw [hwhere]
    show (if srcAttrs.length > 0 then executeRescued E (pivotText srcAttrs
      (texts (objectFields src obj)) none (limitText 1 0)) t else ([], t)) = _
    rw [if_pos hattrs, executeRescued]
    exact congrArg (fun r => Option.getD r ([], t)) hone
  have hfind : foundObject E src srcAttrs sort s t =
      (((rowsWith ("object" :: srcAttrs.filter isColumn) values).take 1).map
        (rowVars src)).head? := by
    have hgeneric : findGeneric E src srcAttrs sort (.id s)
        ⟨none, none, none, none, none, none⟩ none t =
        some (.object (((rowsWith ("object" :: srcAttrs.filter isColumn) values).take 1).map
          (rowVars src)).head?, t) := by
      unfold findGeneric
      rw [hrows]
      rfl
    show (match findGeneric E src srcAttrs sort (.id s) ⟨none, none, none, none, none, none⟩ none
      t with | some (.object o, _) => o | _ => none) = _
    rw [hgeneric]
  replace hperm := hperm.trans (List.Perm.of_eq (pivotValues_object hobj t srcAttrs))
  rw [hfind]
  split
  · rename_i hexists
    rw [if_pos hexists] at hperm
    rw [List.perm_singleton.mp hperm]
    rfl
  · rename_i hnone
    rw [if_neg hnone] at hperm
    rw [List.perm_nil.mp hperm]
    rfl

/-- find gives an attribute as it is in the table. -/
theorem foundValue_eq {a : String} (hname : Rhom.methodNameReserved a = false) (hne : a ≠ "")
    (hlisted : ∀ r ∈ t.objects.rows, r.sourceId = src → r.attrib = some a → a ∈ srcAttrs) :
    foundValue E src srcAttrs sort s t a = told src obj t a := by
  have hnone : a ∉ srcAttrs → attribRow t src (some obj) (some a) = none := by
    intro hnot
    cases hrow : attribRow t src (some obj) (some a) with
    | none => rfl
    | some r =>
      have hattrib := attribRow_isAttrib t src hrow
      exact (hnot (hlisted r (List.mem_of_find?_eq_some hrow) hattrib.2.2 hattrib.2.1.2)).elim
  have hobject : a ≠ "object" := by
    rintro rfl
    exact absurd hname (by decide)
  have hsource : a ≠ "source_id" := by
    rintro rfl
    exact absurd hname (by decide)
  rw [foundValue, foundObject_eq hE hobj hs hcolumns]
  split
  · obtain ⟨cols, hcols⟩ : ∃ cols, cols = srcAttrs.filter isColumn := ⟨_, rfl⟩
    have hzip : ("object" :: cols).zip ((some obj :: cols.map
        (fun a => attribValue t src (some obj) (some a))).map (Option.map cText)) =
        ("object", (some obj).map cText) :: cols.map (fun b => (b, told src obj t b)) := by
      rw [List.map_cons, List.zip_cons_cons, List.map_map, ← List.map_prod_left_eq_zip]
      rfl
    have hvalues : ∀ kv ∈ ("object", (some obj).map cText) ::
        cols.map (fun b => (b, told src obj t b)), kv.1 = a → kv.2 = told src obj t a := by
      refine List.forall_mem_cons.mpr ⟨fun h => absurd h.symm hobject, ?_⟩
      rintro kv hkv rfl
      obtain ⟨b, -, rfl⟩ := List.mem_map.mp hkv
      rfl
    rw [← hcols, hzip, Option.bind_some, rowVars, getVar_mergeVar, if_neg hobject,
      getVar_foldl_row hvalues]
    split
    · rfl
    · rename_i hmissing
      have hnot : a ∉ srcAttrs := by
        intro hmem
        refine hmissing (List.mem_cons_of_mem _ ?_)
        rw [List.map_map, hcols]
        refine List.mem_map.mpr ⟨a, List.mem_filter.mpr ⟨hmem, ?_⟩, rfl⟩
        simp [isColumn, hname, hne]
      rw [told, attribValue, hnone hnot, getVar_newVars hobject hsource]
      rfl
  · rename_i hmissing
    rw [told, attribValue]
    cases hrow : attribRow t src (some obj) (some a) with
    | none => rfl
    | some r =>
      have hattrib := attribRow_isAttrib t src hrow
      exact (hmissing ⟨r, List.mem_of_find?_eq_some hrow, hattrib.1.2, hattrib.2.2⟩).elim

end Finding

section Storing

/-- initialize: the object of a hash, with a new id. -/
def create (m : Model) (attrs : List (String × String)) (c : Conn) : Conn :=
  { c with
    tempId := c.tempId + 1
    vars := attrs.foldl
      (fun vars kv => if kv.1.length > 0 then assign vars kv.1 (some kv.2) else vars)
      [("object", some (toString (c.tempId + 1))), ("source_id", some m.src)] }

/-- A new object that is saved, or update_attributes of an object. -/
inductive Storing where
  | created (attrs : List (String × String))
  | updated (attrs : List (String × String))

namespace Storing

def attrs : Storing → List (String × String)
  | created attrs => attrs
  | updated attrs => attrs

/-- The name under which an attribute is stored. -/
def name : Storing → String → String
  | created _, a => a
  | updated _, a => attribName a

/-- What no two names have in common. -/
def key : Storing → String → String
  | created _, a => a
  | updated _, a => withoutEq (attribName a)

/-- The object before the call that stores. -/
def start (m : Model) : Storing → Conn → Conn
  | created attrs, c => create m attrs c
  | updated _, c => c

def op : Storing → Op
  | created _ => .save
  | updated attrs => .updateAttributes (attrs.map (fun kv => (kv.1, some kv.2)))

/-- The connection after the call. -/
def result (db : Sqlite) (m : Model) (st : Storing) (c : Conn) : Conn :=
  (outcome db m st.op (st.start m c)).conn

/-- What find is to give for the attributes. -/
def expected (m : Model) (obj : String) : Storing → Conn → List (String × Option String)
  | created attrs, c => attrs.map
      (fun kv => (kv.1, savedValue m.sourceId obj c.tables kv.1 (Rhom.stripBraces kv.2)))
  | updated attrs, c => attrs.map (fun kv => (attribName kv.1, updatedValue m.sourceId obj c.tables
      (answer c.vars (attribName kv.1)) (attribName kv.1) (Rhom.stripBraces kv.2)))

/-- Attributes with names and texts that are written as they are; no name is one of a method of
the object. -/
structure Plain (st : Storing) (m : Model) (c : Conn) : Prop where
  distinct : (st.attrs.map (fun kv => st.key kv.1)).Nodup
  names : ∀ kv ∈ st.attrs, st.name kv.1 ≠ "" ∧
    Rhom.methodNameReserved (st.name kv.1) = false ∧ PlainText (st.name kv.1)
  texts : ∀ kv ∈ st.attrs, PlainText (Rhom.stripBraces kv.2)
  methods : ∀ kv ∈ st.attrs, m.own (st.name kv.1) = none
  ids : c.tempId + st.attrs.length + 3 < 2 ^ 63

end Storing

variable {m : Model} {attrs : List (String × String)} {c : Conn}

/-- The vars of a new object. -/
theorem create_vars (hdistinct : (attrs.map Prod.fst).Nodup) (hnames : ∀ kv ∈ attrs,
    kv.1 ≠ "" ∧ Rhom.methodNameReserved kv.1 = false) : (create m attrs c).vars =
      [("object", some (toString (c.tempId + 1))), ("source_id", some m.src)] ++
        attrs.map (fun kv => (kv.1, some kv.2)) := by
  have hfold : ∀ (l : List (String × String)) (vars : List (String × Option String)),
      (l.map Prod.fst).Nodup → (∀ kv ∈ l, kv.1 ≠ "" ∧ kv.1 ∉ vars.map Prod.fst) →
      l.foldl (fun vars kv => if kv.1.length > 0 then assign vars kv.1 (some kv.2) else vars) vars =
        vars ++ l.map (fun kv => (kv.1, some kv.2)) := by
    intro l
    induction l with
    | nil => exact fun vars _ _ => (List.append_nil vars).symm
    | cons kv l ih =>
      intro vars hnodup hnew
      obtain ⟨hkv, hl⟩ := List.nodup_cons.mp hnodup
      obtain ⟨⟨hne, hvars⟩, hrest⟩ := List.forall_mem_cons.mp hnew
      have hlength : kv.1.length > 0 := by
        rw [gt_iff_lt, Nat.pos_iff_ne_zero]
        exact fun h => hne (String.length_eq_zero_iff.mp h)
      have hassign : assign vars kv.1 (some kv.2) = vars ++ [(kv.1, some kv.2)] := by
        rw [assign, if_neg]
        rw [List.any_eq_true]
        rintro ⟨v, hv, heq⟩
        exact hvars (List.mem_map.mpr ⟨v, hv, of_decide_eq_true heq⟩)
      rw [List.foldl_cons, if_pos hlength, hassign, ih _ hl, List.append_assoc]
      · rfl
      · intro kv' hkv'
        refine ⟨(hrest kv' hkv').1, ?_⟩
        rw [List.map_append, List.mem_append, List.map_singleton, List.mem_singleton]
        rintro (hmem | heq)
        · exact (hrest kv' hkv').2 hmem
        · exact hkv (List.mem_map.mpr ⟨kv', hkv', heq⟩)
  refine hfold attrs _ hdistinct (fun kv hkv => ?_)
  obtain ⟨hne, hname⟩ := hnames kv hkv
  refine ⟨hne, fun hmem => ?_⟩
  have hreserved : ∀ a ∈ ["object", "source_id"], Rhom.methodNameReserved a = true := by decide
  rw [hreserved kv.1 hmem] at hname
  cases hname

variable {db : Sqlite} (hE : Lawful db.engine)

/-- A call of which nothing is refused has run its body on an open connection. -/
theorem accepted_body {op : Op} {p : M Unit} (hbody : body db m c op = some p)
    (hop : method op = .save ∨ method op = .updateAttributes) (hown : NoMethods m op)
    (h : ¬Failed db m op c) : ∃ c',
      p { c with insideTransaction := true, locks := c.locks + 1, began := some c.tables } =
        .ok () c' ∧ (outcome db m op c).conn.tables = c'.tables := by
  have houtcome : (outcome db m op c).conn = after db p c := by
    rw [outcome_eq, hbody]
    rfl
  rw [Failed, houtcome] at h
  rw [houtcome]
  exact accepted_run db (body_thrown db m hbody hop hown) h

include hE

theorem created_stored (hplain : (Storing.created attrs).Plain m c) {obj : String}
    (hobj : PlainText obj) (hid : (create m attrs c).obj = some obj)
    (haccepted : ¬Failed db m .save (create m attrs c)) :
    Stored m.sourceId obj ((Storing.created attrs).expected m obj c) c.tables
      ((Storing.created attrs).result db m c).tables := by
  have hnames : ∀ kv ∈ attrs, kv.1 ≠ "" ∧ Rhom.methodNameReserved kv.1 = false :=
    fun kv hkv => ⟨(hplain.names kv hkv).1, (hplain.names kv hkv).2.1⟩
  have hvars : (create m attrs c).vars = _ := create_vars hplain.distinct hnames
  have hbody : body db m (create m attrs c) .save =
      some (saveBody db m (some obj) (create m attrs c).vars) := by
    rw [body, hid]
  obtain ⟨c', hrun, htables⟩ := accepted_body hbody (Or.inl rfl) trivial haccepted
  have hreserved : ∀ v ∈ [("object", some (toString (c.tempId + 1))), ("source_id", some m.src)],
      Rhom.methodNameReserved v.1 = true :=
    List.forall_mem_cons.mpr ⟨(by decide : Rhom.methodNameReserved "object" = true),
      List.forall_mem_singleton.mpr (by decide : Rhom.methodNameReserved "source_id" = true)⟩
  have hdistinct : ((create m attrs c).vars.map Prod.fst).Nodup := by
    rw [hvars, List.map_append, List.map_map, List.nodup_append]
    refine ⟨(by decide : ["object", "source_id"].Nodup), hplain.distinct, ?_⟩
    rintro a ha b hb rfl
    obtain ⟨v, hv, rfl⟩ := List.mem_map.mp ha
    obtain ⟨kv, hkv, heq⟩ := List.mem_map.mp hb
    have hname : Rhom.methodNameReserved kv.1 = true := by
      rw [show kv.1 = v.1 from heq]
      exact hreserved v hv
    rw [(hnames kv hkv).2] at hname
    cases hname
  have hplainVars : PlainVars (create m attrs c).vars := by
    rw [hvars]
    refine List.forall_mem_append.mpr ⟨fun v hv hname => ?_, fun v hv _ => ?_⟩
    · rw [hreserved v hv] at hname
      cases hname
    · obtain ⟨kv, hkv, rfl⟩ := List.mem_map.mp hv
      exact ⟨(hplain.names kv hkv).2.2, hplain.texts kv hkv⟩
  have hentries : savedEntries m.sourceId obj c.tables (create m attrs c).vars =
      (Storing.created attrs).expected m obj c := by
    have hkept : ∀ v ∈ attrs.map (fun kv => (kv.1, some kv.2)),
        (!Rhom.methodNameReserved v.1) = true := by
      intro v hv
      obtain ⟨kv, hkv, rfl⟩ := List.mem_map.mp hv
      rw [(hnames kv hkv).2]
      rfl
    rw [savedEntries, hvars, List.filter_append, List.filter_eq_self.mpr hkept,
      List.filter_eq_nil_iff.mpr (fun v hv => by rw [hreserved v hv]; decide), List.nil_append,
      List.map_map]
    rfl
  have hids : c.tempId + 1 + (create m attrs c).vars.length < 2 ^ 63 := by
    have hlimit : c.tempId + attrs.length + 3 < 2 ^ 63 := hplain.ids
    rw [hvars, List.length_append, List.length_map]
    simp only [List.length_cons, List.length_nil]
    omega
  have hwrote := returns_saveBody hE m rfl hobj hdistinct hplainVars hids () c' hrun
  rw [← hentries]
  exact htables ▸ hwrote.stored

theorem updated_stored (hplain : (Storing.updated attrs).Plain m c) {obj : String}
    (hobj : PlainText obj) (hid : c.obj = some obj)
    (haccepted : ¬Failed db m (Storing.updated attrs).op c) :
    Stored m.sourceId obj ((Storing.updated attrs).expected m obj c) c.tables
      ((Storing.updated attrs).result db m c).tables := by
  obtain ⟨values, hvalues⟩ : ∃ values, values = attrs.map (fun kv => (kv.1, some kv.2)) := ⟨_, rfl⟩
  have hbody : body db m c (Storing.updated attrs).op =
      some (updateBody db m (some obj) values) := by
    rw [Storing.op, body, hid, hvalues]
  have hown : ∀ a ∈ values, m.own (attribName a.1) = none := by
    intro a ha
    rw [hvalues] at ha
    obtain ⟨kv, hkv, rfl⟩ := List.mem_map.mp ha
    exact hplain.methods kv hkv
  have hmethods : NoMethods m (Storing.updated attrs).op := by
    rw [Storing.op, ← hvalues]
    exact hown
  obtain ⟨c', hrun, htables⟩ := accepted_body hbody (Or.inr rfl) hmethods haccepted
  have hdistinct : (values.map (fun a => withoutEq (attribName a.1))).Nodup := by
    rw [hvalues, List.map_map]
    exact hplain.distinct
  have hplainAttrs : PlainAttrs values := by
    intro a ha
    rw [hvalues] at ha
    obtain ⟨kv, hkv, rfl⟩ := List.mem_map.mp ha
    exact ⟨(hplain.names kv hkv).2.1, (hplain.names kv hkv).2.2, hplain.texts kv hkv⟩
  have hentries : updatedEntries m.sourceId obj c values =
      (Storing.updated attrs).expected m obj c := by
    rw [updatedEntries, hvalues, List.map_map]
    rfl
  have hids : c.tempId + values.length < 2 ^ 63 := by
    have hlimit : c.tempId + attrs.length + 3 < 2 ^ 63 := hplain.ids
    rw [hvalues, List.length_map]
    omega
  have hwrote := returns_updateBody hE m hobj
    (c := { c with insideTransaction := true, locks := c.locks + 1, began := some c.tables }) rfl
    hown hdistinct hplainAttrs hids () c' hrun
  rw [← hentries]
  exact htables ▸ hwrote.stored

theorem result_stored (st : Storing) (hplain : st.Plain m c) {s : String}
    (hid : Rhom.getVar (st.start m c).vars "object" = some s)
    (hobj : PlainText (Rhom.stripBraces s))
    (haccepted : ¬Failed db m st.op (st.start m c)) :
    Stored m.sourceId (Rhom.stripBraces s) (st.expected m (Rhom.stripBraces s) c) c.tables
      (st.result db m c).tables := by
  have hobject : (st.start m c).obj = some (Rhom.stripBraces s) := by
    rw [Conn.obj, hid]
    rfl
  cases st with
  | created attrs => exact created_stored hE hplain hobj hobject haccepted
  | updated attrs => exact updated_stored hE hplain hobj hobject haccepted

omit hE in
theorem expected_names (st : Storing) (hplain : st.Plain m c) {obj : String}
    {e : String × Option String} (he : e ∈ st.expected m obj c) :
    e.1 ≠ "" ∧ Rhom.methodNameReserved e.1 = false := by
  cases st with
  | created attrs =>
    obtain ⟨kv, hkv, rfl⟩ := List.mem_map.mp he
    exact ⟨(hplain.names kv hkv).1, (hplain.names kv hkv).2.1⟩
  | updated attrs =>
    obtain ⟨kv, hkv, rfl⟩ := List.mem_map.mp he
    exact ⟨(hplain.names kv hkv).1, (hplain.names kv hkv).2.1⟩

/-- What is stored is found, and no other object has changed. The attributes that find looks for are
those of the attribute index. -/
theorem stored_is_found (st : Storing) (hplain : st.Plain m c) {s : String}
    (hid : Rhom.getVar (st.start m c).vars "object" = some s)
    (hobj : PlainText (Rhom.stripBraces s)) (haccepted : ¬Failed db m st.op (st.start m c))
    {index : SrcAttrs} (hindex : AttrIndex.Counts index (st.result db m c).tables.objects.rows)
    (hcolumns : PlainColumns (getAttrsBySrc index m.sourceId))
    (sort : (Vars → Vars → Int) → List Vars → List Vars) :
    (∀ e ∈ st.expected m (Rhom.stripBraces s) c, foundValue db.engine m.sourceId
      (getAttrsBySrc index m.sourceId) sort s (st.result db m c).tables e.1 = e.2) ∧
    (st.result db m c).tables.objects.rows.filter (OfOther m.sourceId (Rhom.stripBraces s)) =
      c.tables.objects.rows.filter (OfOther m.sourceId (Rhom.stripBraces s)) := by
  have hstored := result_stored hE st hplain hid hobj haccepted
  refine ⟨fun e he => ?_, hstored.others⟩
  obtain ⟨hne, hname⟩ := expected_names st hplain he
  rw [foundValue_eq hE hobj rfl hcolumns _ hname hne, hstored.values e he]
  intro r hr hsource hattrib
  rw [AttrIndex.mem_getAttrsBySrc, hindex, AttrIndex.counter_isSome, AttrIndex.rowsOf_pos]
  exact ⟨r, hr, hsource, hattrib⟩

end Storing

section Concrete

/-- The attribute index of rows that were inserted. -/
def indexOf (rows : List ObjectValue) : SrcAttrs :=
  rows.foldl (fun index r => r.attrib.elim index (add index r.sourceId)) ∅

/-- The connection after a call on empty tables. -/
def storedConn (st : Storing) (vars : List (String × Option String)) : Conn :=
  st.result (refusing none) plainModel (emptyConn vars)

/-- What find then gives for an attribute of the object 1. -/
def foundAfter (st : Storing) (vars : List (String × Option String)) (a : String) :
    Option String :=
  foundValue sqlite 1 (getAttrsBySrc (indexOf (storedConn st vars).tables.objects.rows) 1)
    (fun _ l => l) "1" (storedConn st vars).tables a

/-- The row of an object with one attribute. -/
def rowOf (id : Int64) : ObjectValue := ⟨id, 1, some "a", some "1", some "x", none⟩

/-- A new object with a text in braces, as it is stored. -/
theorem created_rows : (storedConn (.created [("a", "\x7bx\x7d")]) []).tables.objects.rows =
      [rowOf 2] ∧
    ¬Failed (refusing none) plainModel (Storing.created [("a", "\x7bx\x7d")]).op
      ((Storing.created [("a", "\x7bx\x7d")]).start plainModel (emptyConn [])) := by
  decide +kernel

/-- A name with @ is stored without it. -/
theorem updated_rows :
    (storedConn (.updated [("@a", "x")]) [("object", some "1")]).tables.objects.rows =
      [rowOf 1] := by
  decide +kernel

theorem indexOf_row (id : Int64) : AttrIndex.Counts (indexOf [rowOf id]) [rowOf id] := by
  have hempty : AttrIndex.Counts ∅ [] := fun src a => by
    simp [TwoLevel.lookup, AttrIndex.rowsOf, AttrIndex.counter]
  exact AttrIndex.counts_add hempty rfl

theorem plainColumns_row (id : Int64) :
    PlainColumns (getAttrsBySrc (indexOf [rowOf id]) 1) := by
  have hattrs : getAttrsBySrc (indexOf [rowOf id]) 1 =
      getAttrsBySrc (indexOf [rowOf 1]) 1 := rfl
  have hone : getAttrsBySrc (indexOf [rowOf 1]) 1 = ["a"] := by
    decide +kernel
  rw [hattrs, hone]
  refine ⟨by decide, ?_, ?_, by decide⟩
  · exact List.forall_mem_singleton.mpr (by decide)
  · exact List.forall_mem_singleton.mpr (by decide)

/-- find gives what is in the row. -/
theorem foundAfter_row {st : Storing} {vars : List (String × Option String)} {id : Int64}
    (hrows : (storedConn st vars).tables.objects.rows = [rowOf id]) {a : String}
    (hname : Rhom.methodNameReserved a = false) (hne : a ≠ "") :
    foundAfter st vars a = told 1 "1" (storedConn st vars).tables a := by
  rw [foundAfter, hrows]
  refine foundValue_eq sqlite_lawful (by decide) rfl (plainColumns_row id) _ hname hne ?_
  intro q hq hsource hattrib
  rw [hrows] at hq
  rw [AttrIndex.mem_getAttrsBySrc, indexOf_row, AttrIndex.counter_isSome, AttrIndex.rowsOf_pos]
  exact ⟨q, hq, hsource, hattrib⟩

/-- A new object with a text in braces. -/
theorem stored_is_found_name : foundAfter (.created [("a", "\x7bx\x7d")]) [] "a" = some "x" := by
  obtain ⟨hrows, haccepted⟩ := created_rows
  obtain ⟨st, hst⟩ : ∃ st, st = Storing.created [("a", "\x7bx\x7d")] := ⟨_, rfl⟩
  rw [← hst] at hrows haccepted
  have hplain : st.Plain plainModel (emptyConn []) := by
    subst hst
    refine ⟨by decide, ?_, ?_, fun _ _ => rfl, by decide⟩
    · exact List.forall_mem_singleton.mpr (by decide)
    · exact List.forall_mem_singleton.mpr (by decide)
  have hindex : AttrIndex.Counts (indexOf (storedConn st []).tables.objects.rows)
      (storedConn st []).tables.objects.rows := by
    rw [hrows]
    exact indexOf_row _
  have hcolumns : PlainColumns
      (getAttrsBySrc (indexOf (storedConn st []).tables.objects.rows) 1) := by
    rw [hrows]
    exact plainColumns_row 2
  have hid : Rhom.getVar (st.start plainModel (emptyConn [])).vars "object" = some "1" := by
    subst hst
    decide +kernel
  have hfound := (stored_is_found sqlite_lawful st hplain hid (by decide) haccepted hindex hcolumns
    (fun _ l => l)).1
  subst hst
  exact hfound ("a", some "x") (by decide +kernel)

/-- Braces are lost; an empty text is not stored for an attribute that the object does not have, and
a name with @ is stored without it. -/
theorem not_read_back :
    foundAfter (.created [("a", "\x7bx\x7d")]) [] "a" ≠ some "\x7bx\x7d" ∧
    foundAfter (.updated [("a", "")]) [("object", some "1")] "a" ≠ some "" ∧
    foundAfter (.updated [("@a", "x")]) [("object", some "1")] "@a" ≠ some "x" := by
  refine ⟨?_, by decide +kernel, ?_⟩
  · rw [foundAfter_row created_rows.1 (by decide) (by decide), told,
      attribValue, attribRow, created_rows.1]
    decide +kernel
  · rw [foundAfter_row updated_rows (by decide) (by decide), told,
      attribValue, attribRow, updated_rows]
    decide +kernel

end Concrete

end Rhodes.StoredFound
