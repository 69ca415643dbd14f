import Rhodes.KeyGrammar
import Rhodes.PushDecoded
import Rhodes.UriDecoding

/-!
Query strings and back. A byte is a plain character or an escape of two digits, which no stage of
the reading takes for anything else; a name without brackets is bound in the result itself.
-/
namespace Rhodes.QueryStrings

open Cut KeyGrammar PairParser PushDecoded Uri UriDecoding

/-- `[a-zA-Z0-9_\\-.]`. -/
def isUnreserved (b : UInt8) : Bool :=
  let c := Char.ofNat b.toNat
  ('a' ≤ c && c ≤ 'z') || ('A' ≤ c && c ≤ 'Z') || ('0' ≤ c && c ≤ '9') ||
    c = '_' || c = '-' || c = '.'

/-- A digit of `%X`. -/
def upperDigit (n : Nat) : Char :=
  Char.ofNat (if n < 10 then '0'.toNat + n else 'A'.toNat + (n - 10))

/-- `sprintf("%%%02X", byte)`. -/
def percentByte (b : UInt8) : Text := ['%', upperDigit (b.toNat / 16), upperDigit (b.toNat % 16)]

def encodedByte (b : UInt8) : Text := if isUnreserved b then asciiText [b] else percentByte b

/-- url_encode of rhosupport.rb, on the bytes of a string. -/
def urlEncode (s : List UInt8) : Text := s.flatMap encodedByte

abbrev Entry := List UInt8 × List UInt8

def entryText (e : Entry) : Text := urlEncode e.1 ++ '=' :: urlEncode e.2

/-- query_to_s, on the entries of the hash in their order. -/
def queryToS (query : List Entry) : Text :=
  query.foldl (fun qstring e =>
    (if 1 < qstring.length then qstring ++ ['&'] else qstring) ++ entryText e) ['?']

/-- A hash whose keys are distinct names. -/
structure Query where
  entries : List Entry
  names : ∀ e ∈ entries, IsName (asciiText e.1)
  distinct : (entries.map Prod.fst).Nodup

section Bytes

/-- The text of a byte is read back, and has no sign that separates. -/
def isQueryText (n : Nat) (t : Text) : Bool :=
  isByteText n t && t.all (fun c => c ≠ '&' && c ≠ '=' && c ≠ '+')

theorem encodedByte_all : ∀ n < 256, isQueryText n (encodedByte (UInt8.ofNat n)) = true := by
  decide +kernel

theorem encodedByte_text (b : UInt8) : isQueryText b.toNat (encodedByte b) = true := by
  have hbyte := encodedByte_all b.toNat (UInt8.toNat_lt b)
  rwa [UInt8.ofNat_toNat] at hbyte

theorem not_mem_urlEncode (s : List UInt8) :
    '&' ∉ urlEncode s ∧ '=' ∉ urlEncode s ∧ '+' ∉ urlEncode s := by
  have hall : ∀ c ∈ urlEncode s, c ≠ '&' ∧ c ≠ '=' ∧ c ≠ '+' := by
    intro c hc
    obtain ⟨b, -, hcb⟩ := List.mem_flatMap.mp hc
    have htext := encodedByte_text b
    simp only [isQueryText, Bool.and_eq_true, List.all_eq_true, decide_eq_true_eq] at htext
    obtain ⟨-, hsigns⟩ := htext
    obtain ⟨⟨hand, hequals⟩, hplus⟩ := hsigns c hcb
    exact ⟨hand, hequals, hplus⟩
  exact ⟨fun h => (hall _ h).1 rfl, fun h => (hall _ h).2.1 rfl, fun h => (hall _ h).2.2 rfl⟩

theorem unescape_urlEncode (s : List UInt8) : unescape (urlEncode s) = asciiText s := by
  induction s with
  | nil => rfl
  | cons b s ih =>
    have htext := encodedByte_text b
    rw [isQueryText, Bool.and_eq_true] at htext
    rw [urlEncode, List.flatMap_cons, (reads_byteText htext.1 _).2]
    exact congrArg _ ih

/-- Every byte string is read back from its text. -/
theorem unescapeForm_urlEncode (s : List UInt8) : unescapeForm (urlEncode s) = asciiText s := by
  rw [unescapeForm, map_plus_eq_self (not_mem_urlEncode s).2.2, unescape_urlEncode]

theorem urlEncode_ne_nil {s : List UInt8} (h : s ≠ []) : urlEncode s ≠ [] := by
  intro hnil
  have htext := unescape_urlEncode s
  rw [hnil] at htext
  exact h (List.map_eq_nil_iff.mp htext.symm)

theorem toNat_byteChar : ∀ n < 256, (Char.ofNat n).toNat = n := by
  decide +kernel

theorem asciiText_injective : Function.Injective asciiText := by
  refine List.map_injective_iff.mpr (fun a b h => ?_)
  have hnat := congrArg Char.toNat h
  rw [toNat_byteChar _ (UInt8.toNat_lt a), toNat_byteChar _ (UInt8.toNat_lt b)] at hnat
  exact UInt8.toNat_inj.mp hnat

end Bytes

section Texts

theorem intercalate_cons_flatMap (t : Text) (ts : List Text) :
    ['&'].intercalate (t :: ts) = t ++ ts.flatMap (fun u => '&' :: u) := by
  induction ts generalizing t with
  | nil => rw [List.intercalate_singleton, List.flatMap_nil, List.append_nil]
  | cons u ts ih =>
    rw [List.intercalate_cons_cons, ih, List.flatMap_cons]
    simp

/-- An entry stands behind a sign, once there is anything behind the question mark. -/
theorem foldl_entries (rest : List Entry) (q : Text) (hq : 1 < q.length) :
    rest.foldl (fun qstring e =>
      (if 1 < qstring.length then qstring ++ ['&'] else qstring) ++ entryText e) q =
      q ++ (rest.map entryText).flatMap (fun u => '&' :: u) := by
  induction rest generalizing q with
  | nil => simp
  | cons e rest ih =>
    rw [List.foldl_cons, if_pos hq, ih _ (by
      rw [List.length_append, List.length_append]
      omega)]
    simp

/-- The part behind the question mark: the entries with signs between them. -/
theorem queryToS_eq (query : List Entry) :
    queryToS query = '?' :: ['&'].intercalate (query.map entryText) := by
  cases query with
  | nil => rfl
  | cons e rest =>
    have hlong : 1 < (['?'] ++ entryText e).length := by
      simp only [entryText, List.length_append, List.length_cons, List.length_nil]
      omega
    unfold queryToS
    rw [List.foldl_cons, if_neg (by decide), foldl_entries rest _ hlong, List.map_cons,
      intercalate_cons_flatMap]
    rfl

theorem pairOf_entryText {e : Entry} (h : e.1 ≠ []) :
    pairOf (entryText e) = some (asciiText e.1, some (asciiText e.2)) := by
  have hkey : (entryText e).takeWhile (fun c => c ≠ '=') = urlEncode e.1 :=
    takeWhile_upTo (not_mem_urlEncode e.1).2.1 _
  have hdrop : (entryText e).drop ((urlEncode e.1).length + 1) = urlEncode e.2 := by
    simp [entryText]
  have hmem : '=' ∈ entryText e := by
    simp [entryText]
  simp only [pairOf, hkey, if_neg (urlEncode_ne_nil h), if_pos hmem, hdrop,
    unescapeForm_urlEncode]

/-- The pairs of a query. -/
theorem pairs_queryToS (q : Query) :
    (((queryToS q.entries).drop 1).splitOn '&').filterMap pairOf =
      q.entries.map (fun e => (asciiText e.1, some (asciiText e.2))) := by
  have hne : ∀ e ∈ q.entries, e.1 ≠ [] := by
    intro e he hnil
    refine (q.names e he).1 ?_
    rw [hnil]
    rfl
  have hdrop : (queryToS q.entries).drop 1 = ['&'].intercalate (q.entries.map entryText) := by
    rw [queryToS_eq]
    rfl
  rw [hdrop]
  cases hentries : q.entries with
  | nil => rfl
  | cons e rest =>
    rw [List.splitOn_intercalate, List.filterMap_map, ← hentries]
    · rw [← List.filterMap_eq_map]
      refine List.filterMap_congr (fun e he => pairOf_entryText (hne e he))
    · intro t ht
      obtain ⟨e', -, rfl⟩ := List.mem_map.mp ht
      have hkey := (not_mem_urlEncode e'.1).1
      have hvalue := (not_mem_urlEncode e'.2).1
      simp [entryText, hkey, hvalue]
    · exact List.cons_ne_nil _ _

end Texts

section Parse

/-- A name is bound to its value in the result. -/
theorem parse_name {name : Text} (hname : IsName name) (r : List Field)
    (hnew : name ∉ r.map Prod.fst) (t : Text) :
    parse rubyScanner [.hash false (fieldsOf r)] (name, some t) =
      .ok [.hash false (fieldsOf (r ++ [(name, t)]))] := by
  have hplan : (keyPlan rubyScanner name).actions = [.bind (some name)] := by
    have hkey := @keyPlan_keyText name [] hname nofun
    rwa [keyText, stepsText, List.flatMap_nil, List.append_nil] at hkey
  have hinsert : (fieldsOf r).insert (some name) (.str t) = fieldsOf (r ++ [(name, t)]) := by
    simp [fieldsOf]
  have hlookup := lookup_fieldsOf_eq_none r hnew
  simp only [parse, hplan, List.foldlM_cons, List.foldlM_nil, perform, PairParser.bind,
    List.getElem?_cons_zero, replaceTop, bindInHash, hlookup, PairParser.valueOf, build,
    List.set_cons_zero, hinsert, Bind.bind, Except.bind, Pure.pure, Except.pure]

theorem parse_names (es r : List Field) (hnames : ∀ e ∈ es, IsName e.1)
    (hnodup : ((r ++ es).map Prod.fst).Nodup) :
    (es.map (fun e => (e.1, some e.2))).foldlM (parse rubyScanner) [.hash false (fieldsOf r)] =
      .ok [.hash false (fieldsOf (r ++ es))] := by
  induction es generalizing r with
  | nil => rw [List.append_nil]; rfl
  | cons e es ih =>
    obtain ⟨hname, hrest⟩ := List.forall_mem_cons.mp hnames
    have hnew : e.1 ∉ r.map Prod.fst := by
      rw [List.map_append, List.nodup_append] at hnodup
      exact fun hmem => hnodup.2.2 _ hmem _ (by simp) rfl
    have hassoc : r ++ e :: es = r ++ [e] ++ es := by simp
    rw [hassoc] at hnodup ⊢
    rw [List.map_cons, List.foldlM_cons, parse_name hname r hnew]
    exact ih (r ++ [e]) hrest hnodup

theorem lookup_fieldsOf_iff {r : List Field} (hnodup : (r.map Prod.fst).Nodup) (key : Option Text)
    (value : Val) : (fieldsOf r).lookup key = some value ↔
      ∃ e ∈ r, key = some e.1 ∧ value = .str e.2 := by
  induction r using List.reverseRecOn with
  | nil => exact ⟨nofun, fun ⟨e, he, _⟩ => absurd he List.not_mem_nil⟩
  | append_singleton r e ih =>
    rw [List.map_append, List.nodup_append] at hnodup
    obtain ⟨hr, -, hnot⟩ := hnodup
    rw [lookup_fieldsOf_concat]
    by_cases hkey : key = some e.1
    · subst hkey
      rw [if_pos rfl]
      constructor
      · intro h
        exact ⟨e, by simp, rfl, (Option.some.inj h).symm⟩
      · rintro ⟨e', he', hsame, rfl⟩
        rcases List.mem_append.mp he' with hmem | hmem
        · exact absurd (Option.some.inj hsame).symm
            (hnot _ (List.mem_map_of_mem hmem) _ (by simp))
        · rw [List.mem_singleton.mp hmem]
    · rw [if_neg hkey, ih hr]
      constructor
      · rintro ⟨e', he', h⟩
        exact ⟨e', List.mem_append_left _ he', h⟩
      · rintro ⟨e', he', hsame, h⟩
        rcases List.mem_append.mp he' with hmem | hmem
        · exact ⟨e', hmem, hsame, h⟩
        · rw [List.mem_singleton.mp hmem] at hsame
          exact absurd hsame hkey

end Parse

/-- The part of a query behind the question mark is parsed to a hash with the same keys and
values, byte for byte. -/
theorem query_roundTrip (q : Query) :
    ∃ fields, parseQueryParameters rubyScanner ((queryToS q.entries).drop 1) =
        .ok [.hash false fields] ∧
      ∀ key value, fields.lookup key = some value ↔
        ∃ e ∈ q.entries, key = some (asciiText e.1) ∧ value = .str (asciiText e.2) := by
  let r : List Field := q.entries.map (fun e => (asciiText e.1, asciiText e.2))
  have hfst : r.map Prod.fst = (q.entries.map Prod.fst).map asciiText := by
    rw [List.map_map, List.map_map]
    rfl
  have hnodup : (r.map Prod.fst).Nodup := by
    rw [hfst]
    exact q.distinct.map asciiText_injective
  have hnames : ∀ e ∈ r, IsName e.1 := by
    intro e he
    obtain ⟨e', he', rfl⟩ := List.mem_map.mp he
    exact q.names e' he'
  refine ⟨fieldsOf r, ?_, fun key value => ?_⟩
  · have hpairs : q.entries.map (fun e => (asciiText e.1, some (asciiText e.2))) =
        r.map (fun e => (e.1, some e.2)) := by
      rw [List.map_map]
      rfl
    rw [parseQueryParameters, pairs_queryToS, hpairs]
    exact parse_names r [] hnames hnodup
  · rw [lookup_fieldsOf_iff hnodup]
    constructor
    · rintro ⟨e, he, h⟩
      obtain ⟨e', he', rfl⟩ := List.mem_map.mp he
      exact ⟨e', he', h⟩
    · rintro ⟨e, he, h⟩
      exact ⟨_, List.mem_map_of_mem he, h⟩

/-- A name with a percent sign, a plus sign and two bytes above 127, and values with the signs of
the format. -/
def signsQuery : Query where
  entries := [([0x61, 0x25, 0x2b, 0xc3, 0xa9], [0x26, 0x3d, 0x25, 0x2b, 0xff]),
    ([0x62], [0x5b, 0x5d, 0x20])]
  names := by
    rw [List.forall_mem_cons, List.forall_mem_singleton]
    exact ⟨⟨by decide, List.all_eq_true.mp (by decide)⟩,
      ⟨by decide, List.all_eq_true.mp (by decide)⟩⟩
  distinct := by decide

theorem query_roundTrip_signs : ∃ fields,
    parseQueryParameters rubyScanner ((queryToS signsQuery.entries).drop 1) =
      .ok [.hash false fields] ∧
    ∀ key value, fields.lookup key = some value ↔
      ∃ e ∈ signsQuery.entries, key = some (asciiText e.1) ∧ value = .str (asciiText e.2) :=
  query_roundTrip signsQuery

end Rhodes.QueryStrings
