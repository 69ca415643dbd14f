import Rhodes.Database
import Rhodes.Tokenizer
import Rhodes.TwoLevel

/-!
CDBAttrManager of DBAttrManager.cpp: for each source a table of its attributes with a
counter, kept outside of the database, and written to the column source_attribs of sources
as one text. Names and counters are fields of that text joined by commas.
-/
namespace Rhodes.AttrManager

open Std (TreeMap)
open Database TwoLevel Tokenizer

/-- m_mapSrcAttrs. -/
abbrev SrcAttrs := Table Int String Int

def add (m : SrcAttrs) (nSrcID : Int) (szAttr : String) : SrcAttrs :=
  match m[nSrcID]? with
  | some mapAttr => m.insert nSrcID (mapAttr.insert szAttr (mapAttr.getD szAttr 0 + 1))
  | none => m.insert nSrcID ((∅ : TreeMap String Int).insert szAttr 1)

/-- The table of a source stays when its last attribute is removed. -/
def remove (m : SrcAttrs) (nSrcID : Int) (szAttr : String) : SrcAttrs :=
  match m[nSrcID]? with
  | none => m
  | some mapAttr =>
      match mapAttr[szAttr]? with
      | none => m
      | some nCount =>
          if nCount - 1 ≤ 0 then m.insert nSrcID (mapAttr.erase szAttr)
          else m.insert nSrcID (mapAttr.insert szAttr (nCount - 1))

/-- The columns source_id and source_attribs of a row of sources. -/
structure SourceAttribs where
  sourceId : Int
  attribs : Option String
  deriving DecidableEq

def addField (strAttribs : String) (itAttr : String × Int) : String :=
  (if strAttribs.length > 0 then strAttribs ++ "," else strAttribs) ++ itAttr.1 ++ "," ++
    toString itAttr.2

def attribsText (mapAttr : TreeMap String Int) : String := mapAttr.toList.foldl addField ""

/-- UPDATE sources SET source_attribs=? where source_id=? -/
def setAttribs (strAttribs : String) (nSrcID : Int) (sources : List SourceAttribs) :
    List SourceAttribs :=
  sources.map (fun r => if r.sourceId = nSrcID then { r with attribs := some strAttribs } else r)

def save (m : SrcAttrs) (sources : List SourceAttribs) : List SourceAttribs :=
  m.toList.foldl (fun sources it => setAttribs (attribsText it.2) it.1 sources) sources

/-- One turn of the loop over the tokens: strAttr and the table so far. -/
def loadToken (acc : String × TreeMap String Int) (tok : List Char) :
    String × TreeMap String Int :=
  if tok.length = 0 then acc
  else if acc.1.length > 0 then ("", acc.2.insert acc.1 (convertFromString tok))
  else (String.ofList tok, acc.2)

def parseAttribs (strAttribs : String) : TreeMap String Int :=
  ((tokens [','] strAttribs.toList).foldl loadToken ("", ∅)).2

/-- What is in the map already stays where no row brings another table. -/
def load (m : SrcAttrs) (sources : List SourceAttribs) : SrcAttrs :=
  sources.foldl (fun m r =>
    let strAttribs := r.attribs.getD ""
    if strAttribs.length = 0 then m else m.insert r.sourceId (parseAttribs strAttribs)) m

/-- The map and the column are emptied. -/
def reset (sources : List SourceAttribs) : SrcAttrs × List SourceAttribs :=
  (∅, sources.map (fun r => { r with attribs := some "" }))

def getAttrsBySrc (m : SrcAttrs) (nSrcID : Int) : List String :=
  (m.getD nSrcID ∅).toList.map Prod.fst

section Counters

theorem lookup_add (m : SrcAttrs) (src src' : Int) (a a' : String) :
    lookup (add m src a) src' a' =
      if src = src' ∧ a = a' then some ((lookup m src a).getD 0 + 1) else lookup m src' a' := by
  unfold add
  cases hm : m[src]? with
  | none =>
    rw [lookup_insert]
    by_cases hsrc : src = src'
    · subst hsrc
      by_cases ha : a = a' <;> simp [lookup, hm, ha]
    · simp [hsrc]
  | some inner =>
    rw [lookup_insert]
    by_cases hsrc : src = src'
    · subst hsrc
      by_cases ha : a = a' <;>
        simp [lookup, hm, Std.TreeMap.getElem?_insert, Std.TreeMap.getD_eq_getD_getElem?, ha]
    · simp [hsrc]

theorem lookup_remove (m : SrcAttrs) (src src' : Int) (a a' : String) :
    lookup (remove m src a) src' a' =
      if src = src' ∧ a = a' then
        (lookup m src a).bind (fun n => if n - 1 ≤ 0 then none else some (n - 1))
      else lookup m src' a' := by
  by_cases hsame : src = src' ∧ a = a'
  · obtain ⟨rfl, rfl⟩ := hsame
    rw [if_pos ⟨rfl, rfl⟩]
    cases hm : m[src]? with
    | none => simp [remove, lookup, hm]
    | some inner =>
      cases hin : inner[a]? with
      | none => simp [remove, lookup, hm, hin]
      | some n =>
        have hold : lookup m src a = some n := by
          simp [lookup, hm, hin]
        rw [hold, Option.bind_some]
        by_cases hlast : n - 1 ≤ 0
        · rw [if_pos hlast]
          simp only [remove, hm, hin, hlast, if_true]
          rw [lookup_insert]
          simp
        · rw [if_neg hlast]
          simp only [remove, hm, hin, hlast, if_false]
          rw [lookup_insert]
          simp
  · rw [if_neg hsame]
    cases hm : m[src]? with
    | none => simp [remove, hm]
    | some inner =>
      cases hin : inner[a]? with
      | none => simp [remove, hm, hin]
      | some n =>
        -- The entry that changes is another one of the same source, or of another source.
        have hother : ∀ inner' : TreeMap String Int, (a ≠ a' → inner'[a']? = inner[a']?) →
            lookup (m.insert src inner') src' a' = lookup m src' a' := by
          intro inner' hinner'
          rw [lookup_insert]
          by_cases hsrc : src = src'
          · subst hsrc
            have ha : a ≠ a' := fun ha => hsame ⟨rfl, ha⟩
            simp [lookup, hm, hinner' ha]
          · simp [hsrc]
        simp only [remove, hm, hin]
        split
        · exact hother _ (fun ha => by simp [Std.TreeMap.getElem?_erase, ha])
        · exact hother _ (fun ha => by simp [Std.TreeMap.getElem?_insert, ha])

/-- No call takes a source out of the map. -/
theorem isSome_add (m : SrcAttrs) (src src' : Int) (a : String) (h : m[src']?.isSome = true) :
    (add m src a)[src']?.isSome = true := by
  unfold add
  split <;> simp only [Std.TreeMap.getElem?_insert] <;> split <;> simp [h]

theorem isSome_remove (m : SrcAttrs) (src src' : Int) (a : String) (h : m[src']?.isSome = true) :
    (remove m src a)[src']?.isSome = true := by
  unfold remove
  split
  · exact h
  · split
    · exact h
    · split <;> simp only [Std.TreeMap.getElem?_insert] <;> split <;> simp [h]

end Counters

section Codec

/-- The fields of the text: each name is followed by its counter. -/
def fields (es : List (String × Int)) : List (List Char) :=
  es.flatMap (fun e => [e.1.toList, (toString e.2).toList])

theorem toList_addField {text : String} (h : 0 < text.length) (e : String × Int) :
    (addField text e).toList = text.toList ++ (',' :: e.1.toList ++ ',' :: (toString e.2).toList) ∧
      0 < (addField text e).length := by
  unfold addField
  rw [if_pos h]
  constructor
  · simp
  · simp only [String.length_append]
    omega

theorem toList_foldl_addField (es : List (String × Int)) (text : String) (h : 0 < text.length) :
    (es.foldl addField text).toList =
      text.toList ++ es.flatMap (fun e => ',' :: e.1.toList ++ ',' :: (toString e.2).toList) := by
  induction es generalizing text with
  | nil => simp
  | cons e es ih =>
    obtain ⟨htext, hlen⟩ := toList_addField h e
    rw [List.foldl_cons, ih _ hlen, htext, List.flatMap_cons, List.append_assoc]

theorem intercalate_fields (e : String × Int) (es : List (String × Int)) :
    [','].intercalate (fields (e :: es)) = (e.1.toList ++ ',' :: (toString e.2).toList) ++
      es.flatMap (fun e => ',' :: e.1.toList ++ ',' :: (toString e.2).toList) := by
  induction es generalizing e with
  | nil => simp [fields, List.intercalate, List.intersperse]
  | cons e' es ih =>
    have hjoin : [','].intercalate (fields (e :: e' :: es)) =
        e.1.toList ++ ',' :: (toString e.2).toList ++
          ',' :: [','].intercalate (fields (e' :: es)) := by
      simp [fields, List.intercalate, List.intersperse]
    rw [hjoin, ih e']
    simp

theorem toList_attribs (es : List (String × Int)) :
    (es.foldl addField "").toList = [','].intercalate (fields es) := by
  cases es with
  | nil => rfl
  | cons e es =>
    have hfirst : addField "" e = e.1 ++ "," ++ toString e.2 := by
      simp [addField]
    have hlen : 0 < (addField "" e).length := by
      rw [hfirst]
      simp only [String.length_append]
      have hcomma : ",".length = 1 := rfl
      omega
    rw [List.foldl_cons, toList_foldl_addField es _ hlen, intercalate_fields, hfirst]
    simp

/-- Only an empty table has an empty text. -/
theorem getElem?_of_attribsText_empty {m : TreeMap String Int} (h : (attribsText m).length = 0)
    (a : String) : m[a]? = none := by
  cases ha : m[a]? with
  | none => rfl
  | some n =>
    have hmem := Std.TreeMap.mem_toList_iff_getElem?_eq_some.mpr ha
    have htext : (attribsText m).toList = [','].intercalate (fields m.toList) :=
      toList_attribs m.toList
    rw [String.length_eq_zero_iff.mp h] at htext
    cases hes : m.toList with
    | nil =>
      rw [hes] at hmem
      cases hmem
    | cons e es =>
      rw [hes, intercalate_fields] at htext
      simp at htext

/-- The tokens of the fields rebuild the entries, one after the other. -/
theorem foldl_loadToken (es : List (String × Int)) (m : TreeMap String Int)
    (hname : ∀ e ∈ es, e.1.length ≠ 0) (hcount : ∀ e ∈ es, 0 ≤ e.2) :
    (fields es).foldl loadToken ("", m) = ("", es.foldl (fun m e => m.insert e.1 e.2) m) := by
  induction es generalizing m with
  | nil => rfl
  | cons e es ih =>
    obtain ⟨name, count⟩ := e
    have hne := hname _ List.mem_cons_self
    have hpos := hcount _ List.mem_cons_self
    obtain ⟨n, rfl⟩ := Int.eq_ofNat_of_zero_le hpos
    have hdigits : (toString (n : Int)).toList = Nat.toDigits 10 n := Nat.toList_repr
    have hfirst : loadToken ("", m) name.toList = (name, m) := by
      simp only [loadToken, String.length_toList, if_neg hne]
      simp
    have hsecond : loadToken (name, m) (toString (n : Int)).toList = ("", m.insert name n) := by
      have hlen : (Nat.toDigits 10 n).length ≠ 0 := by
        simp [Nat.toDigits_ne_nil]
      have hlong : name.length > 0 := Nat.pos_of_ne_zero hne
      rw [hdigits]
      simp only [loadToken, if_neg hlen, if_pos hlong, convertFromString_toDigits]
    show (fields es).foldl loadToken (loadToken (loadToken ("", m) name.toList)
      (toString (n : Int)).toList) = _
    rw [hfirst, hsecond, ih _ (fun e he => hname e (List.mem_cons_of_mem _ he))
      (fun e he => hcount e (List.mem_cons_of_mem _ he))]
    rfl

theorem getElem?_foldl_insert (es : List (String × Int)) (m : TreeMap String Int) (a : String)
    (hdistinct : es.Pairwise (fun e e' => e.1 ≠ e'.1)) :
    (∀ v, (a, v) ∈ es → (es.foldl (fun m e => m.insert e.1 e.2) m)[a]? = some v) ∧
      ((∀ v, (a, v) ∉ es) → (es.foldl (fun m e => m.insert e.1 e.2) m)[a]? = m[a]?) := by
  induction es generalizing m with
  | nil => exact ⟨fun v hv => absurd hv List.not_mem_nil, fun _ => rfl⟩
  | cons e es ih =>
    obtain ⟨hhead, htail⟩ := List.pairwise_cons.mp hdistinct
    obtain ⟨hin, hout⟩ := ih (m.insert e.1 e.2) htail
    rw [List.foldl_cons]
    constructor
    · intro v hv
      rcases List.mem_cons.mp hv with rfl | hv
      · rw [hout (fun v' hv' => hhead _ hv' rfl)]
        simp
      · exact hin v hv
    · intro hnot
      have hne : e.1 ≠ a := by
        rintro rfl
        exact hnot e.2 List.mem_cons_self
      rw [hout (fun v hv => hnot v (List.mem_cons_of_mem _ hv))]
      simp [Std.TreeMap.getElem?_insert, hne]

/-- A table whose names are tokens and whose counters are not negative comes back. -/
theorem parseAttribs_attribsText (m : TreeMap String Int)
    (hname : ∀ (a : String) (n : Int), m[a]? = some n → IsToken [','] a.toList)
    (hcount : ∀ (a : String) (n : Int), m[a]? = some n → 0 ≤ n) (a : String) :
    (parseAttribs (attribsText m))[a]? = m[a]? := by
  have hmem : ∀ e ∈ m.toList, m[e.1]? = some e.2 := by
    intro e he
    exact Std.TreeMap.mem_toList_iff_getElem?_eq_some.mp he
  have htokens : tokens [','] (attribsText m).toList = fields m.toList := by
    rw [attribsText, toList_attribs]
    apply tokens_intercalate (by simp)
    intro t ht
    obtain ⟨e, he, ht⟩ := List.mem_flatMap.mp ht
    rcases List.mem_cons.mp ht with rfl | ht
    · exact hname e.1 e.2 (hmem e he)
    · rw [List.mem_singleton.mp ht]
      obtain ⟨n, hn⟩ := Int.eq_ofNat_of_zero_le (hcount e.1 e.2 (hmem e he))
      rw [hn, show (toString (n : Int)).toList = Nat.toDigits 10 n from Nat.toList_repr]
      refine ⟨Nat.toDigits_ne_nil, ?_⟩
      intro c hc hcomma
      have hdigit := Nat.isDigit_of_mem_toDigits (by decide) (by decide) hc
      rw [List.mem_singleton.mp hcomma] at hdigit
      exact absurd hdigit (by decide)
  have hdistinct : m.toList.Pairwise (fun e e' => e.1 ≠ e'.1) := by
    apply Std.TreeMap.distinct_keys_toList.imp
    simp
  unfold parseAttribs
  rw [htokens, foldl_loadToken]
  · obtain ⟨hin, hout⟩ := getElem?_foldl_insert m.toList ∅ a hdistinct
    cases ha : m[a]? with
    | none =>
      rw [hout]
      · simp
      · intro v hv
        rw [hmem _ hv] at ha
        cases ha
    | some v => exact hin v (Std.TreeMap.mem_toList_iff_getElem?_eq_some.mpr ha)
  · intro e he hlen
    have hne := (hname e.1 e.2 (hmem e he)).1
    rw [String.length_eq_zero_iff.mp hlen] at hne
    exact hne rfl
  · exact fun e he => hcount e.1 e.2 (hmem e he)

/-- Whatever the text, the names that come out of it are tokens. -/
theorem isToken_of_parseAttribs {text a : String} {n : Int} (h : (parseAttribs text)[a]? = some n) :
    IsToken [','] a.toList := by
  have hall : ∀ toks : List (List Char), (∀ t ∈ toks, IsToken [','] t) →
      ∀ acc : String × TreeMap String Int, (acc.1.length > 0 → IsToken [','] acc.1.toList) →
      (∀ (a : String) (n : Int), acc.2[a]? = some n → IsToken [','] a.toList) →
      ∀ (a : String) (n : Int), (toks.foldl loadToken acc).2[a]? = some n →
        IsToken [','] a.toList := by
    intro toks
    induction toks with
    | nil => exact fun _ acc _ hacc a n ha => hacc a n ha
    | cons t toks ih =>
      intro htoks acc hfirst hacc
      have ht := htoks t List.mem_cons_self
      apply ih (fun t' ht' => htoks t' (List.mem_cons_of_mem _ ht'))
      · simp only [loadToken, List.length_eq_zero_iff, if_neg ht.1]
        split
        · simp
        · intro _
          simpa using ht
      · simp only [loadToken, List.length_eq_zero_iff, if_neg ht.1]
        split
        · rename_i hlong
          intro a n ha
          by_cases heq : acc.1 = a
          · exact heq ▸ hfirst hlong
          · rw [Std.TreeMap.getElem?_insert] at ha
            simp only [Std.LawfulEqOrd.compare_eq_iff_eq, if_neg heq] at ha
            exact hacc a n ha
        · exact hacc
  exact hall _ (fun t ht => isToken_of_mem_tokens ht) ("", ∅) (by simp) (by simp) a n h

end Codec

section Rows

/-- The text of a row; NULL is read as an empty one. -/
def SourceAttribs.text (r : SourceAttribs) : String := r.attribs.getD ""

theorem ids_setAttribs (text : String) (src : Int) (sources : List SourceAttribs) :
    (setAttribs text src sources).map SourceAttribs.sourceId =
      sources.map SourceAttribs.sourceId := by
  unfold setAttribs
  rw [List.map_map]
  apply List.map_congr_left
  intro r _
  by_cases hr : r.sourceId = src <;> simp [hr]

theorem ids_save (m : SrcAttrs) (sources : List SourceAttribs) :
    (save m sources).map SourceAttribs.sourceId = sources.map SourceAttribs.sourceId := by
  have hall : ∀ (es : List (Int × TreeMap String Int)) (sources : List SourceAttribs),
      (es.foldl (fun sources it => setAttribs (attribsText it.2) it.1 sources) sources).map
        SourceAttribs.sourceId = sources.map SourceAttribs.sourceId := by
    intro es
    induction es with
    | nil => exact fun sources => rfl
    | cons e es ih =>
      intro sources
      rw [List.foldl_cons, ih, ids_setAttribs]
  exact hall _ _

/-- A row that is saved holds the text of the table of its source, or is as it was. -/
theorem mem_save {m : SrcAttrs} {sources : List SourceAttribs} {r' : SourceAttribs}
    (h : r' ∈ save m sources) :
    (∃ inner, m[r'.sourceId]? = some inner ∧ r'.text = attribsText inner) ∨
      (m[r'.sourceId]? = none ∧ r' ∈ sources) := by
  have hall : ∀ (es : List (Int × TreeMap String Int)),
      es.Pairwise (fun e e' => e.1 ≠ e'.1) → ∀ (sources : List SourceAttribs),
      ∀ r' ∈ es.foldl (fun sources it => setAttribs (attribsText it.2) it.1 sources) sources,
        (∃ inner, (r'.sourceId, inner) ∈ es ∧ r'.text = attribsText inner) ∨
          ((∀ inner, (r'.sourceId, inner) ∉ es) ∧ r' ∈ sources) := by
    intro es
    induction es with
    | nil => exact fun _ sources r' hr' => Or.inr ⟨fun _ => List.not_mem_nil, hr'⟩
    | cons e es ih =>
      intro hdistinct sources r' hr'
      obtain ⟨hhead, htail⟩ := List.pairwise_cons.mp hdistinct
      rcases ih htail _ r' hr' with ⟨inner, hmem, htext⟩ | ⟨hnot, hmem⟩
      · exact Or.inl ⟨inner, List.mem_cons_of_mem _ hmem, htext⟩
      · obtain ⟨r, hr, rfl⟩ := List.mem_map.mp hmem
        by_cases hid : r.sourceId = e.1
        · rw [if_pos hid]
          exact Or.inl ⟨e.2, by simp [hid], rfl⟩
        · rw [if_neg hid] at hnot ⊢
          refine Or.inr ⟨fun inner hin => ?_, hr⟩
          rcases List.mem_cons.mp hin with heq | hin
          · exact hid (congrArg Prod.fst heq)
          · exact hnot inner hin
  have hdistinct : m.toList.Pairwise (fun e e' => e.1 ≠ e'.1) := by
    apply Std.TreeMap.distinct_keys_toList.imp
    simp
  rcases hall m.toList hdistinct sources r' h with ⟨inner, hmem, htext⟩ | ⟨hnot, hmem⟩
  · exact Or.inl ⟨inner, Std.TreeMap.mem_toList_iff_getElem?_eq_some.mp hmem, htext⟩
  · refine Or.inr ⟨?_, hmem⟩
    cases hm : m[r'.sourceId]? with
    | none => rfl
    | some inner =>
      exact absurd (Std.TreeMap.mem_toList_iff_getElem?_eq_some.mpr hm) (hnot inner)

/-- What load finds for a source comes from the text of one of its rows, or from the map. -/
theorem load_cases (m : SrcAttrs) (sources : List SourceAttribs) (src : Int) :
    (∃ r ∈ sources, r.sourceId = src ∧ r.text.length ≠ 0 ∧
        (load m sources)[src]? = some (parseAttribs r.text)) ∨
      ((∀ r ∈ sources, r.sourceId = src → r.text.length = 0) ∧
        (load m sources)[src]? = m[src]?) := by
  unfold load
  induction sources generalizing m with
  | nil => exact Or.inr ⟨fun r hr => absurd hr List.not_mem_nil, rfl⟩
  | cons r sources ih =>
    rw [List.foldl_cons]
    rcases ih _ with ⟨r', hr', hid, htext, hload⟩ | ⟨hnone, hload⟩
    · exact Or.inl ⟨r', List.mem_cons_of_mem _ hr', hid, htext, hload⟩
    · by_cases hhere : r.sourceId = src ∧ r.text.length ≠ 0
      · obtain ⟨rfl, htext⟩ := hhere
        refine Or.inl ⟨r, List.mem_cons_self, rfl, htext, ?_⟩
        rw [hload]
        simp [SourceAttribs.text] at htext
        simp [SourceAttribs.text, htext]
      · refine Or.inr ⟨?_, ?_⟩
        · intro r' hr' hid
          rcases List.mem_cons.mp hr' with rfl | hr'
          · by_contra htext
            exact hhere ⟨hid, htext⟩
          · exact hnone r' hr' hid
        · rw [hload]
          by_cases htext : r.text.length = 0
          · simp only [SourceAttribs.text] at htext
            simp [htext]
          · have hid : r.sourceId ≠ src := fun hid => hhere ⟨hid, htext⟩
            simp only [SourceAttribs.text] at htext
            simp [htext, Std.TreeMap.getElem?_insert, hid]

end Rows

end Rhodes.AttrManager
