import Rhodes.ClientChanges
import Rhodes.Cut
import Rhodes.PairGrowth

/-!
The fields of a push body and what form decoding makes of each of them: a field is read as a
pair with its key first, and the value of the pair is the text of the field exactly when the
text has no separator, no plus sign and no escape in it.
-/
namespace Rhodes.PushDecoded

open Rhodes.Cut Rhodes.Database Rhodes.ClientChanges Rhodes.PairParser

def nameAttrvals : Text := "attrvals".toList
def nameAttrib : Text := "attrib".toList
def nameObject : Text := "object".toList
def nameId : Text := "id".toList
def nameValue : Text := "value".toList

/-- A field of a record: its name and its text. -/
abbrev Field := Text × Text

def attribOf (r : ChangedValue) : Text := (r.attrib.getD "").toList
def objectOf (r : ChangedValue) : Text := (r.object.getD "").toList
def idOf (r : ChangedValue) : Text := (printUInt64 r.mainId).toList
def valueOf (r : ChangedValue) : Text := (r.value.getD "").toList

/-- What a record has to have for a row. -/
def expected (r : ChangedValue) (key : Option Text) : Option Val :=
  if key = some nameAttrib then some (.str (attribOf r))
  else if key = some nameObject then
    if objectOf r = [] then none else some (.str (objectOf r))
  else if key = some nameId then
    if r.mainId = 0 then none else some (.str (idOf r))
  else if key = some nameValue then some (.str (valueOf r))
  else none

/-- The items under 'attrvals'; a result without them has none. -/
def attrvals (heap : Heap) : Option (List Val) :=
  match heap[(0 : Nat)]? with
  | some (.hash _ fields) => match fields.lookup (some nameAttrvals) with
      | none => some []
      | some (.ref id) => match heap[id]? with
          | some (.array items) => some items
          | _ => none
      | _ => none
  | _ => none

def IsRecord (heap : Heap) (item : Val) (r : ChangedValue) : Prop :=
  ∃ id indifferent fields, item = .ref id ∧ heap[id]? = some (.hash indifferent fields) ∧
    ∀ key, fields.lookup key = expected r key

/-- The body gives one record per row, in order, with exactly the fields of the row. -/
def Decodes (body : Text) (rows : List ChangedValue) : Prop :=
  ∃ heap items, parseQueryParameters rubyScanner body = .ok heap ∧ attrvals heap = some items ∧
    List.Forall₂ (IsRecord heap) items rows

/-- A percent sign with two hexadecimal digits behind it. -/
def HasEscape (t : Text) : Prop :=
  ∃ front a b back, t = front ++ '%' :: a :: b :: back ∧ isHexDigit a = true ∧ isHexDigit b = true

/-- A text that form decoding leaves as it is. -/
structure Plain (t : Text) : Prop where
  separator : '&' ∉ t
  plus : '+' ∉ t
  escape : ¬HasEscape t

section Unescape

theorem length_unescape_le (t : Text) : (unescape t).length ≤ t.length := by
  fun_induction unescape t with
  | case1 a b rest hhex ih =>
    simp only [List.length_cons]
    omega
  | case2 a b rest hhex ih =>
    simp only [List.length_cons] at ih ⊢
    omega
  | case3 c rest hno ih =>
    simp only [List.length_cons]
    omega
  | case4 => simp

theorem hasEscape_cons {c : Char} {t : Text} (h : HasEscape t) : HasEscape (c :: t) := by
  obtain ⟨front, a, b, back, rfl, ha, hb⟩ := h
  exact ⟨c :: front, a, b, back, rfl, ha, hb⟩

theorem unescape_eq_self {t : Text} (h : ¬HasEscape t) : unescape t = t := by
  fun_induction unescape t with
  | case1 a b rest hhex ih => exact absurd ⟨[], a, b, rest, rfl, hhex.1, hhex.2⟩ h
  | case2 a b rest hhex ih => rw [ih (fun hrest => h (hasEscape_cons hrest))]
  | case3 c rest hno ih => rw [ih (fun hrest => h (hasEscape_cons hrest))]
  | case4 => rfl

theorem length_unescape_lt {t : Text} (h : HasEscape t) : (unescape t).length < t.length := by
  fun_induction unescape t with
  | case1 a b rest hhex ih =>
    have hle := length_unescape_le rest
    simp only [List.length_cons]
    omega
  | case2 a b rest hhex ih =>
    have hrest : HasEscape (a :: b :: rest) := by
      obtain ⟨front, a', b', back, heq, ha, hb⟩ := h
      cases front with
      | nil =>
        simp only [List.nil_append, List.cons.injEq, true_and] at heq
        obtain ⟨rfl, rfl, rfl⟩ := heq
        exact absurd ⟨ha, hb⟩ hhex
      | cons c front =>
        simp only [List.cons_append, List.cons.injEq] at heq
        exact ⟨front, a', b', back, heq.2, ha, hb⟩
    have hlt := ih hrest
    simp only [List.length_cons] at hlt ⊢
    omega
  | case3 c rest hno ih =>
    have hrest : HasEscape rest := by
      obtain ⟨front, a', b', back, heq, ha, hb⟩ := h
      cases front with
      | nil =>
        simp only [List.nil_append, List.cons.injEq] at heq
        exact absurd heq.2 (hno a' b' back heq.1)
      | cons c' front =>
        simp only [List.cons_append, List.cons.injEq] at heq
        exact ⟨front, a', b', back, heq.2, ha, hb⟩
    have hlt := ih hrest
    simp only [List.length_cons]
    omega
  | case4 =>
    obtain ⟨front, a, b, back, heq, -⟩ := h
    cases front <;> cases heq

theorem length_unescapeForm_le (t : Text) : (unescapeForm t).length ≤ t.length := by
  have h := length_unescape_le (t.map (fun c => if c = '+' then ' ' else c))
  rwa [List.length_map] at h

theorem map_plus_eq_self {t : Text} (h : '+' ∉ t) :
    t.map (fun c => if c = '+' then ' ' else c) = t := by
  conv_rhs => rw [← List.map_id t]
  refine List.map_congr_left (fun c hc => ?_)
  have hne : c ≠ '+' := fun heq => h (heq ▸ hc)
  rw [if_neg hne]
  rfl

theorem unescapeForm_eq_self_iff (t : Text) :
    unescapeForm t = t ↔ '+' ∉ t ∧ ¬HasEscape t := by
  constructor
  · intro heq
    have hescape : ¬HasEscape (t.map (fun c => if c = '+' then ' ' else c)) := by
      intro hesc
      have hlt := length_unescape_lt hesc
      rw [List.length_map] at hlt
      have hlen := congrArg List.length heq
      unfold unescapeForm at hlen
      omega
    have hmap : t.map (fun c => if c = '+' then ' ' else c) = t := by
      rw [← unescape_eq_self hescape]
      exact heq
    refine ⟨?_, by rwa [hmap] at hescape⟩
    intro hplus
    have hplus' := hplus
    rw [← hmap, List.mem_map] at hplus'
    obtain ⟨c, -, hc⟩ := hplus'
    split at hc
    · exact absurd hc (by decide)
    · contradiction
  · intro ⟨hplus, hescape⟩
    rw [unescapeForm, map_plus_eq_self hplus, unescape_eq_self hescape]

end Unescape

/-- The key of a field in a body. -/
def fieldKey (name : Text) : Text := "attrvals[][".toList ++ name ++ "]".toList

def fieldNames : List Text := [nameAttrib, nameObject, nameId, nameValue]

/-- The fields of a row, in the order in which makePushBody writes them. -/
def recordFields (r : ChangedValue) : List Field :=
  (nameAttrib, attribOf r) :: (if objectOf r = [] then [] else [(nameObject, objectOf r)]) ++
    (if r.mainId = 0 then [] else [(nameId, idOf r)]) ++ [(nameValue, valueOf r)]

/-- The part of a body that a field is. -/
def chunkOf (e : Field) : Text := fieldKey e.1 ++ '=' :: e.2

section Body

theorem keyPlan_fieldKey {name : Text} (h : name ∈ fieldNames) :
    (keyPlan rubyScanner (fieldKey name)).actions
      = [.container nameAttrvals .array, .bind (some name)] := by
  simp only [fieldNames, List.mem_cons, List.not_mem_nil, or_false] at h
  rcases h with rfl | rfl | rfl | rfl <;> decide

theorem unescapeForm_fieldKey {name : Text} (h : name ∈ fieldNames) :
    unescapeForm (fieldKey name) = fieldKey name := by
  simp only [fieldNames, List.mem_cons, List.not_mem_nil, or_false] at h
  rcases h with rfl | rfl | rfl | rfl <;> decide

theorem not_mem_fieldKey {name : Text} (h : name ∈ fieldNames) :
    '&' ∉ fieldKey name ∧ '=' ∉ fieldKey name ∧ fieldKey name ≠ [] := by
  simp only [fieldNames, List.mem_cons, List.not_mem_nil, or_false] at h
  rcases h with rfl | rfl | rfl | rfl <;> decide

theorem mem_recordFields {r : ChangedValue} {e : Field} : e ∈ recordFields r ↔
    e = (nameAttrib, attribOf r) ∨ (objectOf r ≠ [] ∧ e = (nameObject, objectOf r)) ∨
      (r.mainId ≠ 0 ∧ e = (nameId, idOf r)) ∨ e = (nameValue, valueOf r) := by
  unfold recordFields
  simp only [List.mem_append, List.mem_cons, or_assoc]
  by_cases ho : objectOf r = [] <;> by_cases hid : r.mainId = 0 <;> simp [ho, hid]

theorem names_recordFields (r : ChangedValue) : ∀ e ∈ recordFields r, e.1 ∈ fieldNames := by
  intro e he
  rcases mem_recordFields.mp he with rfl | ⟨-, rfl⟩ | ⟨-, rfl⟩ | rfl <;> simp [fieldNames]

/-- The pairs that a chunk of a body is read as. -/
def chunkPairs (e : Field) : List Pair := ((chunkOf e).splitOn '&').filterMap pairOf

/-- The value of the first pair of a chunk. -/
def firstValue (t : Text) : Text := unescapeForm (t.takeWhile (fun c => c ≠ '&'))

theorem pairOf_field {name : Text} (hname : name ∈ fieldNames) (t : Text) :
    pairOf (fieldKey name ++ '=' :: t) = some (fieldKey name, some (unescapeForm t)) := by
  obtain ⟨-, hequals, hne⟩ := not_mem_fieldKey hname
  have hkey : (fieldKey name ++ '=' :: t).takeWhile (fun c => c ≠ '=') = fieldKey name :=
    takeWhile_upTo hequals t
  have hdrop : (fieldKey name ++ '=' :: t).drop ((fieldKey name).length + 1) = t := by simp
  simp only [pairOf, hkey, if_neg hne, hdrop, unescapeForm_fieldKey hname]
  simp

theorem chunkPairs_eq {e : Field} (hname : e.1 ∈ fieldNames) :
    ∃ more, chunkPairs e = (fieldKey e.1, some (firstValue e.2)) :: more ∧
      ('&' ∉ e.2 → more = []) := by
  obtain ⟨hseparator, -, -⟩ := not_mem_fieldKey hname
  unfold chunkPairs chunkOf firstValue
  by_cases hmem : '&' ∈ e.2
  · obtain ⟨front, back, heq, hfront⟩ := List.eq_append_cons_of_mem hmem
    have hassoc : fieldKey e.1 ++ '=' :: e.2 = (fieldKey e.1 ++ '=' :: front) ++ '&' :: back := by
      rw [heq]
      simp
    have hnot : '&' ∉ fieldKey e.1 ++ '=' :: front := by simp [hseparator, hfront]
    have htake : e.2.takeWhile (fun c => c ≠ '&') = front := by
      rw [heq, takeWhile_upTo hfront]
    rw [hassoc, List.splitOn_append_cons_self, List.splitOn_eq_singleton hnot,
      List.singleton_append, List.filterMap_cons, pairOf_field hname, htake]
    exact ⟨_, rfl, fun h => absurd hmem h⟩
  · have hnot : '&' ∉ fieldKey e.1 ++ '=' :: e.2 := by simp [hseparator, hmem]
    rw [List.splitOn_eq_singleton hnot, takeWhile_ne hmem, List.filterMap_cons, pairOf_field hname]
    exact ⟨[], rfl, fun _ => rfl⟩

/-- The first pair has the text of the field exactly when the text is plain. -/
theorem firstValue_eq_iff (t : Text) : firstValue t = t ↔ Plain t := by
  unfold firstValue
  by_cases hmem : '&' ∈ t
  · have hlt : (t.takeWhile (fun c => c ≠ '&')).length < t.length := by
      obtain ⟨front, back, rfl, hfront⟩ := List.eq_append_cons_of_mem hmem
      rw [takeWhile_upTo hfront]
      simp only [List.length_append, List.length_cons]
      omega
    have hle := length_unescapeForm_le (t.takeWhile (fun c => c ≠ '&'))
    constructor
    · intro heq
      have hlen := congrArg List.length heq
      omega
    · intro hplain
      exact absurd hmem hplain.separator
  · rw [takeWhile_ne hmem, unescapeForm_eq_self_iff]
    constructor
    · intro h
      exact ⟨hmem, h.1, h.2⟩
    · intro h
      exact ⟨h.plus, h.escape⟩

end Body

end Rhodes.PushDecoded
