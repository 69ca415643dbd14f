import Rhodes.JavaClient
import Rhodes.PushRound

/-!
The two ports of syncClientChanges, run on the same tables against the same answers.
They make the same requests in the same order, but print a negative main_id
differently, the Java port cuts a body that is not ASCII, and after a push with blobs
the C++ port deletes rows that the Java port keeps. A push without an answer stops the
C++ port and leaves the Java port by an exception. `plan` lists what a push of a table
is going to do, as far as the answers let it come; the ports agree exactly when no step
of the plan that is reached is one of these.
-/
namespace Rhodes.Ports

open Database Statements Queue Interleaving Source ClientChanges Rhom PushRound
open JavaClient (getBytes units Pushed)

section Texts

/-! The texts of the two ports, told apart by their minus signs. -/

def dashes (s : String) : Nat := s.toList.count '-'

@[simp] theorem dashes_append (s t : String) : dashes (s ++ t) = dashes s + dashes t := by
  simp [dashes, String.toList_append]

theorem dashes_toString (n : Nat) : dashes (toString n) = 0 := by
  unfold dashes
  rw [List.count_eq_zero]
  intro h
  rw [Nat.toString_eq_ofList_toDigits, String.toList_ofList] at h
  have hdigit := Nat.isDigit_of_mem_toDigits (by decide) (by decide) h
  exact absurd hdigit (by decide)

/-- The minus signs of main_id. -/
def minus (r : ChangedValue) : Nat := if 0 ≤ r.mainId.toInt then 0 else 1

theorem dashes_printLong (n : Int64) :
    dashes (JavaClient.printLong n) = if 0 ≤ n.toInt then 0 else 1 := by
  unfold JavaClient.printLong
  cases n.toInt with
  | ofNat m =>
    have hnonneg : 0 ≤ Int.ofNat m := Int.natCast_nonneg m
    rw [if_pos hnonneg]
    exact dashes_toString m
  | negSucc m =>
    have htext : toString (Int.negSucc m) = "-" ++ toString (m + 1) := rfl
    rw [if_neg (by omega), htext, dashes_append, dashes_toString]
    decide

theorem printUInt64_eq {n : Int64} (h : 0 ≤ n.toInt) : printUInt64 n = JavaClient.printLong n := by
  have hnat : n.toInt = (n.toUInt64.toNat : Int) := by
    have hcond := BitVec.toInt_eq_toNat_cond n.toBitVec
    have hint : n.toInt = n.toBitVec.toInt := rfl
    have hlt := n.toBitVec.isLt
    split at hcond
    · exact hcond
    · omega
  unfold printUInt64 JavaClient.printLong
  rw [hnat]
  rfl

theorem dashes_recordHead (r : ChangedValue) :
    dashes (recordHead JavaClient.printLong r) = dashes (recordHead printUInt64 r) + minus r := by
  have hplain : dashes (printUInt64 r.mainId) = 0 := dashes_toString _
  unfold recordHead
  generalize "attrvals[][attrib]=" ++ r.attrib.getD "" ++
    (if (r.object.getD "").length > 0 then "&attrvals[][object]=" ++
      r.object.getD "" else "") = head
  generalize "&attrvals[][id]=" = key
  by_cases hzero : r.mainId = 0
  · simp [hzero, minus]
  · rw [if_pos hzero, if_pos hzero]
    simp only [dashes_append, hplain, dashes_printLong, minus]
    omega

theorem recordHead_eq {r : ChangedValue} (h : 0 ≤ r.mainId.toInt) :
    recordHead printUInt64 r = recordHead JavaClient.printLong r := by
  unfold recordHead
  rw [printUInt64_eq h]

theorem recordHead_eq_iff (r : ChangedValue) :
    recordHead printUInt64 r = recordHead JavaClient.printLong r ↔ 0 ≤ r.mainId.toInt := by
  refine ⟨fun h => ?_, recordHead_eq⟩
  have hdashes := dashes_recordHead r
  rw [← h] at hdashes
  by_contra hneg
  rw [minus, if_neg hneg] at hdashes
  omega

theorem record_eq {r : ChangedValue} (h : 0 ≤ r.mainId.toInt) :
    record printUInt64 r = record JavaClient.printLong r := by
  rw [record, record, recordHead_eq h]

/-! The bytes of a body. -/

theorem getBytes_append (s t : String) : getBytes (s ++ t) = getBytes s ++ getBytes t := by
  simp [getBytes, String.toList_append]

/-- No digit is a minus sign. -/
theorem getBytes_toString (n : Nat) :
    ∃ b bs, getBytes (toString n) = b :: bs ∧ b ≠ '-'.val.toUInt8 := by
  have htext : (toString n).toList = Nat.toDigits 10 n := by
    rw [Nat.toString_eq_ofList_toDigits, String.toList_ofList]
  cases hdigits : Nat.toDigits 10 n with
  | nil => exact absurd hdigits Nat.toDigits_ne_nil
  | cons d ds =>
    have hdigit : d.isDigit = true :=
      Nat.isDigit_of_mem_toDigits (by decide) (by decide) (hdigits ▸ List.mem_cons_self)
    simp only [Char.isDigit, Bool.and_eq_true, decide_eq_true_eq] at hdigit
    obtain ⟨hlow, hhigh⟩ := hdigit
    have hsize : d.utf8Size = 1 := by
      rw [Char.utf8Size_eq_one_iff]
      exact UInt32.le_trans hhigh (by decide)
    refine ⟨d.val.toUInt8, ds.flatMap String.utf8EncodeChar, ?_, ?_⟩
    · rw [getBytes, htext, hdigits, List.flatMap_cons, String.utf8EncodeChar_eq_singleton hsize]
      rfl
    · intro heq
      have hnat := congrArg UInt8.toNat heq
      have hlow' : 48 ≤ d.val.toNat := UInt32.le_iff_toNat_le.mp hlow
      have hhigh' : d.val.toNat ≤ 57 := UInt32.le_iff_toNat_le.mp hhigh
      have hdash : ('-'.val.toUInt8).toNat = 45 := by decide
      rw [hdash, UInt32.toNat_toUInt8] at hnat
      omega

/-- A negative number begins with a minus sign. -/
theorem getBytes_printLong {n : Int64} (h : ¬ 0 ≤ n.toInt) :
    ∃ bs, getBytes (JavaClient.printLong n) = '-'.val.toUInt8 :: bs := by
  unfold JavaClient.printLong
  cases hint : n.toInt with
  | ofNat m =>
    refine absurd ?_ h
    rw [hint]
    exact Int.natCast_nonneg m
  | negSucc m =>
    have htext : toString (Int.negSucc m) = "-" ++ toString (m + 1) := rfl
    have hdash : getBytes "-" = ['-'.val.toUInt8] := by decide
    refine ⟨getBytes (toString (m + 1)), ?_⟩
    rw [htext, getBytes_append, hdash]
    rfl

/-- Where main_id is negative the records differ behind the key of the id. -/
theorem not_prefix_record {r : ChangedValue} (h : ¬ 0 ≤ r.mainId.toInt) (X Y : List UInt8) :
    ¬ getBytes (record printUInt64 r) ++ X <+: getBytes (record JavaClient.printLong r) ++ Y := by
  have hzero : r.mainId ≠ 0 := by
    intro heq
    rw [heq] at h
    exact h (by decide)
  obtain ⟨b, bs, hbytes, hne⟩ := getBytes_toString r.mainId.toUInt64.toNat
  obtain ⟨bs', hdash⟩ := getBytes_printLong h
  have hplain : getBytes (printUInt64 r.mainId) = b :: bs := hbytes
  unfold record recordHead
  simp only [if_pos hzero, getBytes_append, hplain, hdash, List.append_assoc,
    List.prefix_append_right_inj, List.cons_append, List.cons_prefix_cons]
  exact fun hpre => hne hpre.1

/-- The bytes of one body begin those of the other only if no main_id is negative. -/
theorem nonneg_of_prefix {rows : List ChangedValue}
    (h : getBytes ("&".intercalate (rows.map (record printUInt64))) <+:
      getBytes ("&".intercalate (rows.map (record JavaClient.printLong)))) :
    ∀ r ∈ rows, 0 ≤ r.mainId.toInt := by
  induction rows with
  | nil => exact fun r hr => absurd hr List.not_mem_nil
  | cons r rest ih =>
    have hfirst : 0 ≤ r.mainId.toInt := by
      by_contra hneg
      cases rest with
      | nil =>
        refine not_prefix_record hneg [] [] ?_
        simpa using h
      | cons s rest =>
        simp only [List.map_cons, String.intercalate_cons_cons, getBytes_append,
          List.append_assoc] at h
        exact not_prefix_record hneg _ _ h
    refine List.forall_mem_cons.mpr ⟨hfirst, ?_⟩
    cases rest with
    | nil => exact fun s hs => absurd hs List.not_mem_nil
    | cons s rest =>
      simp only [List.map_cons, String.intercalate_cons_cons, getBytes_append, record_eq hfirst,
        List.append_assoc, List.prefix_append_right_inj] at h
      exact ih h

/-- All characters are ASCII. -/
def Ascii (s : String) : Prop := ∀ c ∈ s.toList, c.toNat < 128

instance : DecidablePred Ascii := fun s =>
  List.decidableBAll (fun c : Char => c.toNat < 128) s.toList

@[simp] theorem ascii_append (s t : String) : Ascii (s ++ t) ↔ Ascii s ∧ Ascii t := by
  simp only [Ascii, String.toList_append, List.forall_mem_append]

theorem ascii_toString (n : Nat) : Ascii (toString n) := by
  intro c hc
  rw [Nat.toString_eq_ofList_toDigits, String.toList_ofList] at hc
  have hdigit := Nat.isDigit_of_mem_toDigits (by decide) (by decide) hc
  simp only [Char.isDigit, Bool.and_eq_true, decide_eq_true_eq] at hdigit
  have hhigh : c.val.toNat ≤ 57 := UInt32.le_iff_toNat_le.mp hdigit.2
  show c.val.toNat < 128
  omega

theorem ascii_intercalate (l : List String) : Ascii ("&".intercalate l) ↔ ∀ s ∈ l, Ascii s := by
  induction l with
  | nil => simp [Ascii]
  | cons s rest ih =>
    cases rest with
    | nil => simp
    | cons t rest =>
      have hsep : Ascii "&" := by decide
      rw [String.intercalate_cons_cons, ascii_append, ascii_append, ih, List.forall_mem_cons]
      simp [hsep]

/-- What the user wrote into the record is ASCII. -/
def AsciiRow (r : ChangedValue) : Prop :=
  Ascii (r.attrib.getD "") ∧ Ascii (r.object.getD "") ∧ Ascii (r.value.getD "")

instance : DecidablePred AsciiRow := fun _ => inferInstanceAs (Decidable (_ ∧ _))

theorem ascii_record (r : ChangedValue) : Ascii (record printUInt64 r) ↔ AsciiRow r := by
  have hattrib : Ascii "attrvals[][attrib]=" := by decide
  have hobject : Ascii "&attrvals[][object]=" := by decide
  have hvalue : Ascii "&attrvals[][value]=" := by decide
  have hid : Ascii (if r.mainId ≠ 0 then "&attrvals[][id]=" ++ printUInt64 r.mainId else "") := by
    split
    · exact (ascii_append _ _).mpr ⟨by decide, ascii_toString _⟩
    · decide
  have hopt : Ascii (if (r.object.getD "").length > 0 then "&attrvals[][object]=" ++
      r.object.getD "" else "") ↔ Ascii (r.object.getD "") := by
    split
    · rw [ascii_append]
      exact and_iff_right hobject
    · rename_i hlen
      have hempty : r.object.getD "" = "" := String.length_eq_zero_iff.mp (by omega)
      rw [hempty]
  unfold record recordHead AsciiRow
  rw [ascii_append, ascii_append, ascii_append, ascii_append, ascii_append, hopt]
  simp only [hattrib, hvalue, hid, true_and, and_true, and_assoc]

/-- A text has as many bytes as units exactly when it is ASCII, and else more. -/
theorem length_getBytes (s : String) :
    JavaClient.length s ≤ (getBytes s).length ∧
      ((getBytes s).length ≤ JavaClient.length s ↔ Ascii s) := by
  have hchar : ∀ c : Char, units c ≤ c.utf8Size ∧ (c.utf8Size ≤ units c ↔ c.toNat < 128) := by
    intro c
    unfold units Char.utf8Size
    simp only [UInt32.le_iff_toNat_le, Char.toNat_val]
    split_ifs <;> simp_all <;> omega
  unfold JavaClient.length getBytes Ascii
  rw [List.length_flatMap]
  simp only [String.length_utf8EncodeChar]
  generalize s.toList = l
  induction l with
  | nil => simp
  | cons c rest ih =>
    obtain ⟨hle, hiff⟩ := hchar c
    obtain ⟨hle', hiff'⟩ := ih
    simp only [List.map_cons, List.sum_cons, List.forall_mem_cons, ← hiff, ← hiff']
    omega

/-- The bodies are the same bytes exactly when no row of them has a negative main_id and all
texts in them are ASCII. -/
theorem bytes_eq_iff (l : List ChangedValue) :
    getBytes (pushBodyOf printUInt64 l).strBody =
        JavaClient.write (pushBodyOf JavaClient.printLong l).strBody ↔
      ∀ r ∈ l.filter (fun r => NonBlob r), 0 ≤ r.mainId.toInt ∧ AsciiRow r := by
  have htext := fun printId => (pushBodyOf_isText printId l).text
  simp only [pushBodyOf_rows] at htext
  rw [htext printUInt64, htext JavaClient.printLong]
  generalize l.filter (fun r => NonBlob r) = rows
  have hsame : (∀ r ∈ rows, 0 ≤ r.mainId.toInt) → rows.map (record JavaClient.printLong) =
      rows.map (record printUInt64) :=
    fun hpos => List.map_congr_left (fun r hr => (record_eq (hpos r hr)).symm)
  have hascii : Ascii ("&".intercalate (rows.map (record printUInt64))) ↔
      ∀ r ∈ rows, AsciiRow r := by
    rw [ascii_intercalate, List.forall_mem_map]
    exact forall₂_congr (fun r _ => ascii_record r)
  constructor
  · intro heq
    have hpos : ∀ r ∈ rows, 0 ≤ r.mainId.toInt :=
      nonneg_of_prefix (heq ▸ List.take_prefix _ _)
    rw [hsame hpos] at heq
    have hlength := congrArg List.length heq
    rw [JavaClient.write, List.length_take] at hlength
    have hrows := hascii.mp ((length_getBytes _).2.mp (by omega))
    exact fun r hr => ⟨hpos r hr, hrows r hr⟩
  · intro h
    rw [hsame (fun r hr => (h r hr).1), JavaClient.write, List.take_of_length_le]
    exact (length_getBytes _).2.mpr (hascii.mpr (fun r hr => (h r hr).2))

end Texts

/-- A request as the server gets it. A file is sent by its contents, so it is named
below the directory in which the port has its files. -/
inductive Wire where
  | data (url : String) (body : List UInt8)
  | file (query : String) (path : List Char)
  | other (q : Request)
  deriving DecidableEq

/-- How a port sends its requests: the directory of its files, and the bytes of a body. -/
structure Port where
  dir : String
  write : String → List UInt8

def cpp (e : Engine) : Port := ⟨e.config.rootPath ++ "apps", getBytes⟩

def java (dirPath : String) : Port := ⟨dirPath, JavaClient.write⟩

def wire (port : Port) : Request → Wire
  | .pushData _ _ url body _ => .data url (port.write body)
  | .pushFile _ _ query file _ => .file query (file.toList.drop port.dir.length)
  | q => .other q

def Event.wire? (dir : Port) : Event → Option Wire
  | .answered q _ => some (wire dir q)
  | .page .. => none

def wires (dir : Port) (log : List Event) : List Wire := log.filterMap (Event.wire? dir)

/-- What the ports are compared in. -/
structure SameOutcome (dir dir' : Port) (c j : World) : Prop where
  requests : wires dir c.log = wires dir' j.log
  changed : c.changed = j.changed
  objects : c.objects = j.objects
  syncState : c.syncState = j.syncState

/-- Two states that differ in their records of requests only, and agree on these. -/
structure Twin (dir dir' : Port) (c j : World) : Prop where
  same : j = { c with log := j.log }
  requests : wires dir c.log = wires dir' j.log

/-- The two programs, executed from the two states, come to the same. -/
def Agreement {α β : Type} (dir dir' : Port) (p : Sync α) (q : Sync β) (c j : World) : Prop :=
  SameOutcome dir dir' (p.exec step c).2 (q.exec step j).2

section Twins

variable {α β : Type} {dir dir' : Port} {c j : World}

theorem Twin.outcome (h : Twin dir dir' c j) : SameOutcome dir dir' c j := by
  have hsame := h.same
  refine ⟨h.requests, ?_, ?_, ?_⟩ <;> rw [hsame]

/-- A statement that makes no request. -/
def Silent (i : Stmt) : Prop := ∀ (w : World) log, step i { w with log } = { step i w with log }

theorem Silent.log {i : Stmt} (hi : Silent i) (w : World) : (step i w).log = w.log := by
  have hsame : step i w = { step i w with log := w.log } := hi w w.log
  rw [hsame]

theorem Twin.silent {i : Stmt} (h : Twin dir dir' c j) (hi : Silent i) :
    Twin dir dir' (step i c) (step i j) := by
  have hj : step i j = { step i c with log := j.log } := by
    conv_lhs => rw [h.same]
    exact hi c j.log
  constructor
  · rw [hi.log j]
    exact hj
  · rw [hi.log c, hi.log j]
    exact h.requests

theorem wires_request (dir : Port) (q : Request) (w : World) :
    wires dir (step (.request q) w).log = wires dir w.log ++ [wire dir q] := by
  simp [wires, step, Event.wire?]

theorem Twin.request {q q' : Request} (h : Twin dir dir' c j) (hq : wire dir q = wire dir' q') :
    Twin dir dir' (step (.request q) c) (step (.request q') j) := by
  constructor
  · have hsame := h.same
    generalize j.log = log at hsame
    subst hsame
    rfl
  · rw [wires_request, wires_request, h.requests, hq]

/-- Requests are only ever added. -/
theorem wires_exec (dir : Port) (p : Sync α) (w : World) :
    wires dir w.log <+: wires dir (p.exec step w).2.log := by
  have hstep : ∀ i (v : World), True → wires dir w.log <+: wires dir v.log →
      wires dir w.log <+: wires dir (step i v).log :=
    fun i v _ h => h.trans (List.IsPrefix.filterMap _ (log_step i v))
  exact Prog.Only.exec (I := fun v : World => wires dir w.log <+: wires dir v.log) hstep
    p.only_true List.prefix_rfl

/-- Once a request has gone out differently, the ports agree no more. -/
theorem not_agreement_of_wire {q q' : Request} (h : Twin dir dir' c j)
    (hq : wire dir q ≠ wire dir' q') (p : Sync α) (p' : Sync β) :
    ¬ Agreement dir dir' p p' (step (.request q) c) (step (.request q') j) := by
  intro hagree
  obtain ⟨more, hc⟩ := wires_exec dir p (step (.request q) c)
  obtain ⟨more', hj⟩ := wires_exec dir' p' (step (.request q') j)
  have hall := hagree.requests
  rw [← hc, ← hj, wires_request, wires_request, h.requests] at hall
  simp only [List.append_assoc, List.append_cancel_left_eq, List.cons_append, List.nil_append,
    List.cons.injEq] at hall
  exact hq hall.1

/-- The answer is the same in both states. -/
theorem Twin.response (h : Twin dir dir' c j) : j.net j.requests = c.net c.requests := by
  rw [h.same]

/-- A request: the ports agree when it is the same text and they agree on the rest. -/
theorem send_agreement {q q' : Request} {f : NetResponse → Sync α} {f' : NetResponse → Sync β}
    {same rest : Prop} (h : Twin dir dir' c j) (hq : wire dir q = wire dir' q' ↔ same)
    (hrest : Twin dir dir' (step (.request q) c) (step (.request q') j) →
      (Agreement dir dir' (f (c.net c.requests)) (f' (c.net c.requests)) (step (.request q) c)
        (step (.request q') j) ↔ rest)) :
    Agreement dir dir' ((send q).bind f) ((send q').bind f') c j ↔ same ∧ rest := by
  have hunfold : Agreement dir dir' ((send q).bind f) ((send q').bind f') c j ↔
      Agreement dir dir' (f (c.net c.requests)) (f' (c.net c.requests)) (step (.request q) c)
        (step (.request q') j) := by
    rw [← h.response]
    nth_rewrite 1 [h.response]
    exact Iff.rfl
  rw [hunfold]
  by_cases hwire : wire dir q = wire dir' q'
  · rw [hrest (h.request hwire)]
    exact ⟨fun hr => ⟨hq.mp hwire, hr⟩, fun hr => hr.2⟩
  · refine ⟨fun hagree => absurd hagree (not_agreement_of_wire h hwire _ _), ?_⟩
    exact fun hr => absurd (hq.mpr hr.1) hwire

end Twins

/-- What a push of a table is going to do where the ports may differ: the bodies and the
files with the rows they carry, and the DELETE after a body that came with blobs, with the
rows of its source and type that have no attrib_type. -/
inductive Item where
  | body (rows : List ChangedValue)
  | file (row : ChangedValue)
  | purge (rows : List ChangedValue)

def bodyRows (T : ChangedTable) (src : Int) (t : UpdateType) : List ChangedValue :=
  (selectPush T src t).filter (fun r => NonBlob r)

def fileRows (T : ChangedTable) (src : Int) (t : UpdateType) : List ChangedValue :=
  (selectPush T src t).filter (fun r => ¬ NonBlob r ∧ (r.value.getD "").length > 0)

def untypedRows (T : ChangedTable) (src : Int) (t : UpdateType) : List ChangedValue :=
  T.rows.filter (fun r => r.sourceId = src ∧ r.updateType = t ∧ r.attribType = none)

/-- What follows the body. -/
def filePlan (T : ChangedTable) (src : Int) (t : UpdateType) : List Item :=
  (if t = .create ∨ fileRows T src t = [] then [] else [.purge (untypedRows T src t)]) ++
    (fileRows T src t).map .file

def typePlan (T : ChangedTable) (src : Int) (t : UpdateType) : List Item :=
  (if bodyRows T src t = [] then [] else [.body (bodyRows T src t)]) ++ filePlan T src t

def plan (T : ChangedTable) (src : Int) (types : List UpdateType) : List Item :=
  types.flatMap (typePlan T src)

/-- The steps of the plan that are reached, beginning with the answer to the k-th
request, are the same in both ports, and each request of them is answered. -/
def Agree (net : Nat → NetResponse) : Nat → List Item → Prop
  | _, [] => True
  | k, .body rows :: rest => (∀ r ∈ rows, 0 ≤ r.mainId.toInt ∧ AsciiRow r) ∧
      JavaClient.throws (net k) = false ∧ ((net k).isOK = true → Agree net (k + 1) rest)
  | k, .file row :: rest => 0 ≤ row.mainId.toInt ∧
      JavaClient.throws (net k) = false ∧ ((net k).isOK = true → Agree net (k + 1) rest)
  | k, .purge rows :: rest => (∀ r ∈ rows, r.sent = 0 ∨ r.sent = 1) ∧ Agree net k rest

instance decidableAgree (net : Nat → NetResponse) :
    (k : Nat) → (items : List Item) → Decidable (Agree net k items)
  | _, [] => .isTrue trivial
  | k, .body _ :: rest =>
      have := decidableAgree net (k + 1) rest
      inferInstanceAs (Decidable (_ ∧ _ ∧ _))
  | k, .file _ :: rest =>
      have := decidableAgree net (k + 1) rest
      inferInstanceAs (Decidable (_ ∧ _ ∧ _))
  | k, .purge _ :: rest =>
      have := decidableAgree net k rest
      inferInstanceAs (Decidable (_ ∧ _))

/-! A push of one type leaves the plan of the others alone. -/

def slice (T : ChangedTable) (src : Int) (t : UpdateType) : List ChangedValue :=
  T.rows.filter (fun r => r.sourceId = src ∧ r.updateType = t)

theorem slice_delete (T : ChangedTable) (p : ChangedValue → Prop) [DecidablePred p] {src : Int}
    {t t' : UpdateType} (hp : ∀ r, p r → r.updateType = t) (hne : t' ≠ t) :
    slice (T.delete p) src t' = slice T src t' := by
  unfold slice
  rw [ChangedTable.delete_rows, List.filter_filter]
  apply List.filter_congr
  intro r _
  by_cases ht : r.updateType = t'
  · have hnot : ¬ p r := fun hr => hne (ht.symm.trans (hp r hr))
    simp [hnot]
  · simp [ht]

theorem slice_update (T : ChangedTable) (p : ChangedValue → Prop) [DecidablePred p] (n : Int)
    {src : Int} {t t' : UpdateType} (hp : ∀ r, p r → r.updateType = t) (hne : t' ≠ t) :
    slice (T.update p (ChangedTable.setSent n)) src t' = slice T src t' := by
  have hkeys : ∀ r, ((ChangedTable.setSent n).on p r).sourceId = r.sourceId ∧
      ((ChangedTable.setSent n).on p r).updateType = r.updateType := by
    intro r
    unfold ChangedTable.Assign.on
    split <;> exact ⟨rfl, rfl⟩
  unfold slice
  rw [ChangedTable.update_rows, List.filter_map]
  have hsame : ∀ r ∈ T.rows.filter (fun r => r.sourceId = src ∧ r.updateType = t'),
      (ChangedTable.setSent n).on p r = r := by
    intro r hr
    obtain ⟨-, ht⟩ := of_decide_eq_true (List.mem_filter.mp hr).2
    exact if_neg (fun hpr => hne (ht.symm.trans (hp r hpr)))
  rw [List.map_congr_left (g := id)]
  · rw [List.map_id]
    apply List.filter_congr
    intro r _
    simp [hkeys r]
  · intro r hr
    apply hsame r
    simpa [hkeys r] using hr

theorem selectPush_slice (T : ChangedTable) (src : Int) (t : UpdateType) :
    selectPush T src t =
      ((slice T src t).filter (fun r => r.sent ≤ 1)).insertionSort
        (fun r s => s.sent ≤ r.sent) := by
  unfold selectPush slice
  rw [List.filter_filter]
  congr 1
  apply List.filter_congr
  intro r _
  simp only [← Bool.decide_and]
  exact decide_eq_decide.mpr (by tauto)

theorem typePlan_congr {T T' : ChangedTable} {src : Int} {t : UpdateType}
    (h : slice T' src t = slice T src t) : typePlan T' src t = typePlan T src t := by
  have huntyped : ∀ T, untypedRows T src t = (slice T src t).filter
    (fun r => r.attribType = none) := by
    intro T
    unfold untypedRows slice
    rw [List.filter_filter]
    apply List.filter_congr
    intro r _
    simp only [← Bool.decide_and]
    exact decide_eq_decide.mpr (by tauto)
  simp only [typePlan, filePlan, bodyRows, fileRows, selectPush_slice, huntyped, h]

/-- The statements of a push of one type on changed_values. -/
def OfType (t : UpdateType) (i : Stmt) : Prop :=
  ∀ (w : World) src t', t' ≠ t → slice (step i w).changed src t' = slice w.changed src t'

theorem OfType.plan {t : UpdateType} {i : Stmt} (hi : OfType t i) (w : World) {src : Int}
    {types : List UpdateType} (ht : t ∉ types) :
    plan (step i w).changed src types = Ports.plan w.changed src types := by
  unfold Ports.plan
  apply List.flatMap_congr
  intro t' ht'
  exact typePlan_congr (hi w src t' (fun heq => ht (heq ▸ ht')))

theorem ofType_makePushBody (src : Int) (t : UpdateType) : OfType t (.makePushBody src t) := by
  intro w src' t' hne
  rw [makePushBody_changed]
  exact slice_update _ _ 1 (fun r hr => hr.2.1) hne

/-- The statement that confirms a push without blobs. -/
theorem ofType_confirmBody (src : Int) (t : UpdateType) :
    OfType t (if t = .create then .confirmSent src t else .deleteSent src t) := by
  intro w src' t' hne
  split
  · exact slice_update _ _ 2 (fun r hr => hr.2.1) hne
  · exact slice_delete _ _ (fun r hr => hr.2.1) hne

theorem ofType_confirmBlobs (src : Int) (t : UpdateType) :
    OfType t (if t = .create then .confirmNonBlob src t else .deleteNonBlob src t) := by
  intro w src' t' hne
  split
  · exact slice_update _ _ 2 (fun r hr => hr.2.1) hne
  · exact slice_delete _ _ (fun r hr => hr.2.1) hne

/-- A statement that takes no row of the type out of changed_values. -/
def Spares (t : UpdateType) (i : Stmt) : Prop := ∀ r, r.updateType = t → ¬ Deletes i r

section Programs

variable {dir dir' : Port} {c j : World} {src : Int} {t : UpdateType} {types : List UpdateType}
  {e : Engine} {dirPath : String} {this : SyncSource} {K : SyncSource → Sync SyncSource}
  {K' : Pushed → Sync Pushed}

/-- The rows that the DELETE after a body with blobs is meant for. -/
def OnlySent (src : Int) (t : UpdateType) (T : ChangedTable) : Prop :=
  ∀ r ∈ T.rows, r.sourceId = src → r.updateType = t → r.attribType = none → r.sent = 1

theorem delete_eq_of_onlySent {T : ChangedTable} (h : OnlySent src t T) :
    T.delete (fun r => r.sourceId = src ∧ r.updateType = t ∧ NullOrSentNonBlob r) =
      T.delete (fun r => r.sourceId = src ∧ r.updateType = t ∧ NonBlob r ∧ r.sent = 1) := by
  refine ChangedTable.ext ?_ rfl
  rw [ChangedTable.delete_rows, ChangedTable.delete_rows]
  apply List.filter_congr
  intro r hr
  refine decide_eq_decide.mpr (not_congr (and_congr_right fun hsrc => and_congr_right fun ht => ?_))
  cases hattr : r.attribType with
  | none => simp [NullOrSentNonBlob, NonBlob, hattr, h r hr hsrc ht hattr]
  | some a => simp [NullOrSentNonBlob, NonBlob, hattr]

theorem Twin.purge (h : Twin dir dir' c j) (hsent : OnlySent src t c.changed) :
    Twin dir dir' (step (.deleteNonBlob src t) c) (step (.deleteNonBlobJava src t) j) := by
  refine ⟨?_, h.requests⟩
  have hsame := h.same
  generalize j.log = log at hsame
  subst hsame
  simp only [step]
  rw [delete_eq_of_onlySent hsent]

/-- A row that has gone does not come back. -/
theorem exec_gone {α : Type} {n : Nat} (p : Sync α) {w : World}
    (h : ∀ s ∈ w.changed.rows, s.stamp ≠ n) :
    ∀ s ∈ (p.exec step w).2.changed.rows, s.stamp ≠ n := by
  refine Prog.Only.exec (I := fun w : World => ∀ s ∈ w.changed.rows, s.stamp ≠ n) ?_ p.only_true h
  intro i v _ hv s hs
  obtain ⟨q, hq, -, rfl⟩ := (mem_step i v s).mp hs
  rw [(rowUpdate_sameEdit i q).stamp]
  exact hv q hq

/-- A row that no statement takes out stays. -/
theorem exec_stays {α : Type} {n : Nat} {p : Sync α} (hp : p.Only (Spares t)) {w : World}
    (h : ∃ s ∈ w.changed.rows, s.stamp = n ∧ s.updateType = t) :
    ∃ s ∈ (p.exec step w).2.changed.rows, s.stamp = n ∧ s.updateType = t := by
  refine Prog.Only.exec (I := fun w : World => ∃ s ∈ w.changed.rows, s.stamp = n ∧ s.updateType = t)
    ?_ hp h
  rintro i v hi ⟨s, hs, hstamp, htype⟩
  have hsame := rowUpdate_sameEdit i s
  exact ⟨_, (mem_step i v _).mpr ⟨s, hs, hi s htype, rfl⟩, hsame.stamp.trans hstamp,
    hsame.updateType.trans htype⟩

/-- The DELETE of the C++ port takes all rows without an attrib_type, that of the Java
port only those at sent=1. -/
theorem not_agreement_of_purge {p : Sync SyncSource} {p' : Sync Pushed} (h : Twin dir dir' c j)
    (hp' : p'.Only (Spares t)) {r : ChangedValue} (hr : r ∈ c.changed.rows)
      (hsrc : r.sourceId = src)
    (ht : r.updateType = t) (hattr : r.attribType = none) (hsent : r.sent ≠ 1) :
    ¬ Agreement dir dir' p p' (step (.deleteNonBlob src t) c)
      (step (.deleteNonBlobJava src t) j) := by
  intro hagree
  have hgone : ∀ s ∈ (step (.deleteNonBlob src t) c).changed.rows, s.stamp ≠ r.stamp := by
    intro s hs hstamp
    obtain ⟨q, hq, hstay, rfl⟩ := (mem_step _ c s).mp hs
    have heq : q = r := c.changed.eq_of_stamp hq hr hstamp
    subst heq
    exact hstay ⟨hsrc, ht, Or.inl hattr⟩
  have hrj : r ∈ j.changed.rows := by
    rw [h.same]
    exact hr
  have hstays : ∃ s ∈ (step (.deleteNonBlobJava src t) j).changed.rows,
      s.stamp = r.stamp ∧ s.updateType = t :=
    ⟨r, (mem_step _ j r).mpr ⟨r, hrj, fun hdel => hsent hdel.2.2.2, rfl⟩, rfl, ht⟩
  obtain ⟨s, hs, hstamp, -⟩ := exec_stays hp' hstays
  rw [← hagree.changed] at hs
  exact exec_gone p hgone s hs hstamp

theorem purge_agreement {p : Sync SyncSource} {p' : Sync Pushed} {rest : Prop}
    (h : Twin dir dir' c j) (hp' : p'.Only (Spares t))
    (hrest : Twin dir dir' (step (.deleteNonBlob src t) c) (step (.deleteNonBlobJava src t) j) →
      (Agreement dir dir' p p' (step (.deleteNonBlob src t) c) (step (.deleteNonBlobJava src t) j) ↔
        rest)) :
    Agreement dir dir' p p' (step (.deleteNonBlob src t) c) (step (.deleteNonBlobJava src t) j) ↔
      OnlySent src t c.changed ∧ rest := by
  by_cases hsent : OnlySent src t c.changed
  · rw [hrest (h.purge hsent)]
    exact ⟨fun hr => ⟨hsent, hr⟩, fun hr => hr.2⟩
  · refine ⟨fun hagree => ?_, fun hr => absurd hr.1 hsent⟩
    unfold OnlySent at hsent
    push Not at hsent
    obtain ⟨r, hr, hsrc, ht, hattr, hne⟩ := hsent
    exact absurd hagree (not_agreement_of_purge h hp' hr hsrc ht hattr hne)

/-- The engine is not started. -/
def NeverStarts (i : Stmt) : Prop := ∀ s, i = .setState s → s.isContinueSync = false

theorem neverStarts_of_pushing {types : List UpdateType} {i : Stmt} (h : Pushing types i) :
    NeverStarts i := by
  rintro s rfl
  have hstop : s = .esStop := h
  rw [hstop]
  rfl

/-- A stopped engine stays stopped. -/
theorem exec_stopped {α : Type} {p : Sync α} (hp : p.Only NeverStarts) {w : World}
    (h : w.syncState.isContinueSync = false) :
    (p.exec step w).2.syncState.isContinueSync = false := by
  refine Prog.Only.exec (I := fun w : World => w.syncState.isContinueSync = false) ?_ hp h
  intro i v hi hv
  cases i
  case setState s => exact hi s rfl
  case selectAsk src =>
    simp only [step]
    split <;> exact hv
  all_goals exact hv

/-- What the rest of a push does: it follows the plan of its types, nothing is done any more
once the engine is stopped, and an exception passes through the Java port. -/
structure Continues (e : Engine) (dirPath : String) (t : UpdateType) (types : List UpdateType)
    (this : SyncSource) (K : SyncSource → Sync SyncSource) (K' : Pushed → Sync Pushed) : Prop where
  go : ∀ c j, Twin (cpp e) (java dirPath) c j → c.syncState.isContinueSync = true →
    (Agreement (cpp e) (java dirPath) (K this) (K' (.ok this)) c j ↔
      Agree c.net c.requests (plan c.changed this.id types))
  stop : ∀ a b c j, Twin (cpp e) (java dirPath) c j → c.syncState.isContinueSync = false →
    Agreement (cpp e) (java dirPath) (K a) (K' (.ok b)) c j
  neverStarts : ∀ a, (K a).Only NeverStarts
  spares : ∀ a, (K' a).Only (Spares t)
  thrown : ∀ a, K' (.error a) = .ret (.error a)
  other : t ∉ types

/-- After a push that failed the ports agree, unless the Java port has thrown. -/
theorem Continues.fail (h : Continues e dirPath t types this K K') (a b x : SyncSource)
    (resp : NetResponse) (hT : Twin (cpp e) (java dirPath) c j)
    (hgo : c.syncState.isContinueSync = true) :
    Agreement (cpp e) (java dirPath)
      (((execute (.setState .esStop)).bind (fun _ => .ret a)).bind K)
      ((if JavaClient.throws resp then .ret (.error x)
        else (execute (.setState .esStop)).bind (fun _ => .ret (.ok b))).bind K') c j ↔
    JavaClient.throws resp = false := by
  cases hthrows : JavaClient.throws resp with
  | false =>
    refine ⟨fun _ => rfl, fun _ => ?_⟩
    rw [if_neg Bool.false_ne_true]
    exact h.stop a b _ _ (hT.silent (i := .setState .esStop) (fun _ _ => rfl)) rfl
  | true =>
    refine ⟨fun hagree => ?_, fun hno => absurd hno (by simp)⟩
    rw [if_pos rfl, Prog.ret_bind, h.thrown] at hagree
    -- the C++ port ends stopped, the Java port as it began
    have hstopped : ((((execute (.setState .esStop)).bind (fun _ => .ret a)).bind K).exec step
        c).2.syncState.isContinueSync = false :=
      exec_stopped (h.neverStarts a) (w := step (.setState .esStop) c) rfl
    rw [hagree.syncState] at hstopped
    have hj : j.syncState = c.syncState := by rw [hT.same]
    have hrunning : j.syncState.isContinueSync = false := hstopped
    rw [hj, hgo] at hrunning
    cases hrunning

theorem wire_file_iff (port port' : Port) (base : String) (src : Int) (t : UpdateType)
    (r : ChangedValue) :
    wire port (.pushFile src t (base ++ "&" ++ (blobOf printUInt64 r).body)
      (port.dir ++ (blobOf printUInt64 r).filePath) (blobOf printUInt64 r).row) =
      wire port' (.pushFile src t (base ++ "&" ++ (blobOf JavaClient.printLong r).body)
        (port'.dir ++ (blobOf JavaClient.printLong r).filePath)
        (blobOf JavaClient.printLong r).row) ↔ 0 ≤ r.mainId.toInt := by
  have hpath : ∀ d path : String, (d ++ path).toList.drop d.length = path.toList := by
    intro d path
    rw [String.toList_append, ← String.length_toList, List.drop_left]
  simp only [wire, blobOf, hpath, Wire.file.injEq, and_true]
  rw [← recordHead_eq_iff, ← String.toList_inj, ← String.toList_inj]
  simp [String.toList_append]

theorem blobs_agreement (base : String) (hK : Continues e dirPath t types this K K')
    (rows : List ChangedValue) (hT : Twin (cpp e) (java dirPath) c j)
    (hgo : c.syncState.isContinueSync = true) :
    Agreement (cpp e) (java dirPath)
      ((syncClientBlobs e this t base (rows.map (blobOf printUInt64))).bind K)
      ((JavaClient.syncClientBlobs dirPath this t base
        (rows.map (blobOf JavaClient.printLong))).bind K')
      c j ↔
    Agree c.net c.requests (rows.map .file ++ plan c.changed this.id types) := by
  induction rows generalizing c j with
  | nil => exact hK.go c j hT hgo
  | cons r rest ih =>
    simp only [List.map_cons, syncClientBlobs, JavaClient.syncClientBlobs, Prog.bind_eq,
      Prog.bind_assoc, Prog.ite_bind]
    refine send_agreement hT (wire_file_iff (cpp e) (java dirPath) base this.id t r) ?_
    intro hT'
    cases hok : (c.net c.requests).isOK with
    | false =>
      simp only [Bool.false_eq_true, if_false, false_implies, and_true]
      have hfail := hK.fail { this with errCode := failCode (c.net c.requests) }
        { this with errCode := .errRemoteServer } { this with errCode := .errNetwork }
        (c.net c.requests) hT' hgo
      simp only [Prog.ite_bind, Prog.bind_assoc] at hfail
      exact hfail
    | true =>
      have hthrows : JavaClient.throws (c.net c.requests) = false := by
        simp [JavaClient.throws, hok]
      simp only [if_true, true_implies, hthrows, true_and]
      exact ih (hT'.silent (i := .deleteBlobObject this.id _) (fun _ _ => rfl)) hgo

theorem files_nonempty (printId : Int64 → String) (T : ChangedTable) (src : Int) (t : UpdateType) :
    0 < (pushBodyOf printId (selectPush T src t)).blobs.length ↔ fileRows T src t ≠ [] := by
  rw [pushBodyOf_blobs, List.length_map, List.length_pos_iff]
  rfl

theorem body_nonempty (printId : Int64 → String) (T : ChangedTable) (src : Int) (t : UpdateType) :
    0 < (pushBodyOf printId (selectPush T src t)).strBody.length ↔ bodyRows T src t ≠ [] := by
  rw [pushBodyOf_strBody, pushBodyOf_rows]
  rfl

/-- makePushBody marks the unsent rows, so the others are left at another number. -/
theorem untypedRows_iff (src : Int) (t : UpdateType) (w : World) :
    OnlySent src t (step (.makePushBody src t) w).changed ↔
      ∀ r ∈ untypedRows w.changed src t, r.sent = 0 ∨ r.sent = 1 := by
  constructor
  · intro h r hr
    obtain ⟨hmem, hkey⟩ := List.mem_filter.mp hr
    obtain ⟨hsrc, ht, hattr⟩ := of_decide_eq_true hkey
    have hsame := rowUpdate_sameEdit (.makePushBody src t) r
    have hsent := h _ ((mem_step _ w _).mpr ⟨r, hmem, id, rfl⟩) (hsame.sourceId.trans hsrc)
      (hsame.updateType.trans ht) (hsame.attribType.trans hattr)
    by_cases hzero : r.sent = 0
    · exact Or.inl hzero
    · rw [rowUpdate, if_neg (fun hp => hzero hp.2.2)] at hsent
      exact Or.inr hsent
  · intro h r hr hsrc ht hattr
    rw [makePushBody_changed] at hr
    obtain ⟨s, hs, ⟨hnot, rfl⟩ | ⟨-, rfl⟩⟩ := ChangedTable.mem_setSent hr
    · have hmem : r ∈ untypedRows w.changed src t :=
        List.mem_filter.mpr ⟨hs, by simp [hsrc, ht, hattr]⟩
      exact (h r hmem).resolve_left (fun hzero => hnot ⟨hsrc, ht, hzero⟩)
    · rfl

theorem syncClientBlobs_spares (dirPath base : String) (this : SyncSource) (t t' : UpdateType)
    (blobs : List SyncBlob) :
    (JavaClient.syncClientBlobs dirPath this t' base blobs).Only (Spares t) := by
  induction blobs with
  | nil => trivial
  | cons blob rest ih =>
    have hsend : ∀ q, Spares t (.request q) := fun _ _ _ => id
    have hdelete : ∀ src file, Spares t (.deleteBlobObject src file) := fun _ _ _ _ => id
    have hstop : Spares t (.setState .esStop) := fun _ _ => id
    refine Prog.Only.bind (Prog.Only.perform (hsend _) _) (fun resp => Prog.Only.ite ?_ ?_)
    · exact Prog.Only.bind (Prog.Only.perform (hdelete _ _) _) (fun _ => ih)
    · exact Prog.Only.ite trivial (Prog.Only.bind (Prog.Only.perform hstop _) (fun _ => trivial))

theorem confirmPush_spares (e : Engine) (dirPath : String) (this : SyncSource) {t t' : UpdateType}
    (hne : t ≠ t') (body : PushBody) :
    (JavaClient.confirmPush e dirPath this t' body).Only (Spares t) := by
  have hblobs : Spares t (if t' = .create then .confirmNonBlob this.id t'
      else .deleteNonBlobJava this.id t') := by
    split
    · exact fun _ _ => id
    · exact fun r hr hdel => hne (hr.symm.trans hdel.2.1)
  have hbody : Spares t (if t' = .create then .confirmSent this.id t'
      else .deleteSent this.id t') := by
    split
    · exact fun _ _ => id
    · exact fun r hr hdel => hne (hr.symm.trans hdel.2.1)
  refine Prog.Only.ite ?_ (Prog.Only.ite ?_ trivial)
  · exact Prog.Only.bind (Prog.Only.perform hblobs _) (fun _ => syncClientBlobs_spares _ _ _ _ _ _)
  · exact Prog.Only.bind (Prog.Only.perform hbody _) (fun _ => trivial)

theorem afterRound_spares {t : UpdateType} {rest : SyncSource → Sync Pushed}
    (h : ∀ this, (rest this).Only (Spares t)) (pushed : Pushed) :
    (JavaClient.afterRound rest pushed).Only (Spares t) := by
  cases pushed with
  | error this => trivial
  | ok this => exact h this

/-- A push of other types takes no row of the type out. -/
theorem pushLoop_spares (e : Engine) (dirPath : String) (this : SyncSource)
    {types : List UpdateType} (ht : t ∉ types) :
    (JavaClient.pushLoop e dirPath this types).Only (Spares t) := by
  induction types generalizing this with
  | nil => trivial
  | cons t' rest ih =>
    obtain ⟨hne, hrest⟩ := not_or.mp (fun h => ht (List.mem_cons.mpr h))
    have hread : Spares t .read := fun _ _ => id
    have hbuild : Spares t (.makePushBody this.id t') := fun _ _ => id
    have hsend : ∀ q, Spares t (.request q) := fun _ _ _ => id
    have hstop : Spares t (.setState .esStop) := fun _ _ => id
    refine Prog.Only.bind (Prog.Only.perform hread _) (fun b => Prog.Only.ite ?_ trivial)
    refine Prog.Only.bind (Prog.Only.bind (Prog.Only.perform hbuild _)
      (fun body => Prog.Only.ite ?_ (confirmPush_spares e dirPath this hne body)))
      (fun pushed => afterRound_spares (fun that => ih that hrest) pushed)
    refine Prog.Only.bind (Prog.Only.perform (hsend _) _)
      (fun resp => Prog.Only.ite (confirmPush_spares e dirPath this hne body) ?_)
    exact Prog.Only.ite trivial (Prog.Only.bind (Prog.Only.perform hstop _) (fun _ => trivial))

/-- Without files, what follows the body is the statement that confirms it. -/
theorem confirmBody_agreement (hK : Continues e dirPath t types this K K') (w : World)
    (hfiles : fileRows w.changed this.id t = [])
    (hT : Twin (cpp e) (java dirPath) c j) (hgo : c.syncState.isContinueSync = true) :
    Agreement (cpp e) (java dirPath)
      ((confirmPush e this t (pushBodyOf printUInt64 (selectPush w.changed this.id t))).bind K)
      ((JavaClient.confirmPush e dirPath this t
        (pushBodyOf JavaClient.printLong (selectPush w.changed this.id t))).bind K') c j ↔
    Agree c.net c.requests (plan c.changed this.id types) := by
  have hblobs : ∀ printId,
      ¬ 0 < (pushBodyOf printId (selectPush w.changed this.id t)).blobs.length :=
    fun printId h => (files_nonempty printId _ _ _).mp h hfiles
  unfold confirmPush JavaClient.confirmPush
  rw [if_neg (hblobs _), if_neg (hblobs _)]
  by_cases hbody : bodyRows w.changed this.id t = []
  · rw [if_neg (fun h => (body_nonempty printUInt64 _ _ _).mp h hbody),
      if_neg (fun h => (body_nonempty JavaClient.printLong _ _ _).mp h hbody)]
    exact hK.go c j hT hgo
  · rw [if_pos ((body_nonempty printUInt64 _ _ _).mpr hbody),
      if_pos ((body_nonempty JavaClient.printLong _ _ _).mpr hbody)]
    have hsilent : Silent (if t = .create then .confirmSent this.id t
        else .deleteSent this.id t) := by
      split <;> exact fun _ _ => rfl
    have hstate : (step (if t = .create then .confirmSent this.id t
        else .deleteSent this.id t) c).syncState.isContinueSync = true := by
      split <;> exact hgo
    have hgoes := hK.go _ _ (hT.silent hsilent) hstate
    rw [(ofType_confirmBody this.id t).plan c hK.other] at hgoes
    apply hgoes.trans
    split <;> exact Iff.rfl

/-- With files, a create is confirmed and other rows are deleted before they go out. -/
theorem confirmFiles_agreement (hK : Continues e dirPath t types this K K') (w : World)
    (hmarked : c.changed = (step (.makePushBody this.id t) w).changed)
    (hfiles : fileRows w.changed this.id t ≠ [])
    (hT : Twin (cpp e) (java dirPath) c j) (hgo : c.syncState.isContinueSync = true) :
    Agreement (cpp e) (java dirPath)
      ((confirmPush e this t (pushBodyOf printUInt64 (selectPush w.changed this.id t))).bind K)
      ((JavaClient.confirmPush e dirPath this t
        (pushBodyOf JavaClient.printLong (selectPush w.changed this.id t))).bind K') c j ↔
    Agree c.net c.requests (filePlan w.changed this.id t ++ plan c.changed this.id types) := by
  have hblobs : ∀ printId,
      0 < (pushBodyOf printId (selectPush w.changed this.id t)).blobs.length :=
    fun printId => (files_nonempty printId _ _ _).mpr hfiles
  have htype := ofType_confirmBlobs this.id t
  unfold confirmPush JavaClient.confirmPush
  rw [if_pos (hblobs _), if_pos (hblobs _), pushBodyOf_blobs, pushBodyOf_blobs]
  by_cases hcreate : t = .create
  · have hfilePlan : filePlan w.changed this.id t =
        (fileRows w.changed this.id t).map .file := by
      simp [filePlan, hcreate]
    rw [if_pos hcreate] at htype
    rw [if_pos hcreate, if_pos hcreate, hfilePlan, ← htype.plan c hK.other]
    exact blobs_agreement _ hK _ (hT.silent (i := .confirmNonBlob this.id t) (fun _ _ => rfl)) hgo
  · have hfilePlan : filePlan w.changed this.id t = .purge (untypedRows w.changed this.id t) ::
        (fileRows w.changed this.id t).map .file := by
      simp [filePlan, hcreate, hfiles]
    rw [if_neg hcreate] at htype
    rw [if_neg hcreate, if_neg hcreate, hfilePlan, List.cons_append, Agree, ← untypedRows_iff,
      ← hmarked, ← htype.plan c hK.other]
    refine purge_agreement hT ?_ (fun hT' => blobs_agreement _ hK _ hT' hgo)
    exact Prog.Only.bind (syncClientBlobs_spares _ _ _ _ _ _) hK.spares

/-- What follows the body, from states in which its rows are marked. -/
theorem confirm_agreement (hK : Continues e dirPath t types this K K') (w : World)
    (hmarked : c.changed = (step (.makePushBody this.id t) w).changed)
    (hT : Twin (cpp e) (java dirPath) c j) (hgo : c.syncState.isContinueSync = true) :
    Agreement (cpp e) (java dirPath)
      ((confirmPush e this t (pushBodyOf printUInt64 (selectPush w.changed this.id t))).bind K)
      ((JavaClient.confirmPush e dirPath this t
        (pushBodyOf JavaClient.printLong (selectPush w.changed this.id t))).bind K') c j ↔
    Agree c.net c.requests (filePlan w.changed this.id t ++ plan w.changed this.id types) := by
  have hplan : plan c.changed this.id types = plan w.changed this.id types := by
    rw [hmarked]
    exact (ofType_makePushBody this.id t).plan w hK.other
  rw [← hplan]
  by_cases hfiles : fileRows w.changed this.id t = []
  · have hfilePlan : filePlan w.changed this.id t = [] := by simp [filePlan, hfiles]
    rw [hfilePlan]
    exact confirmBody_agreement hK w hfiles hT hgo
  · exact confirmFiles_agreement hK w hmarked hfiles hT hgo

theorem perform_agreement {α β : Type} {i : Stmt} {g g' : World → PushBody}
    {f : PushBody → Sync α} {f' : PushBody → Sync β} :
    Agreement dir dir' ((Prog.perform i g).bind f) ((Prog.perform i g').bind f') c j ↔
      Agreement dir dir' (f (g c)) (f' (g' j)) (step i c) (step i j) := Iff.rfl

/-- One round of the ports. -/
theorem round_agreement (hK : Continues e dirPath t types this K K')
    (hT : Twin (cpp e) (java dirPath) c j) (hgo : c.syncState.isContinueSync = true) :
    Agreement (cpp e) (java dirPath) ((pushChanges e this t).bind K)
      ((JavaClient.pushChanges e dirPath this t).bind K') c j ↔
    Agree c.net c.requests (typePlan c.changed this.id t ++ plan c.changed this.id types) := by
  have hT' := hT.silent (i := .makePushBody this.id t) (fun _ _ => rfl)
  have hrows : j.changed = c.changed := by rw [hT.same]
  simp only [pushChanges, JavaClient.pushChanges, makePushBody, JavaClient.makePushBody,
    Prog.bind_eq, Prog.bind_assoc, Prog.ite_bind]
  rw [perform_agreement, hrows]
  by_cases hbody : bodyRows c.changed this.id t = []
  · have hplan : typePlan c.changed this.id t = filePlan c.changed this.id t := by
      simp [typePlan, hbody]
    rw [if_neg (fun h => (body_nonempty printUInt64 _ _ _).mp h hbody),
      if_neg (fun h => (body_nonempty JavaClient.printLong _ _ _).mp h hbody), hplan]
    exact confirm_agreement hK c rfl hT' hgo
  · have hplan : typePlan c.changed this.id t =
        .body (bodyRows c.changed this.id t) :: filePlan c.changed this.id t := by
      simp [typePlan, hbody]
    rw [if_pos ((body_nonempty printUInt64 _ _ _).mpr hbody),
      if_pos ((body_nonempty JavaClient.printLong _ _ _).mpr hbody), hplan, List.cons_append, Agree]
    refine send_agreement hT' ?_ ?_
    · simp only [wire, Wire.data.injEq, true_and]
      exact bytes_eq_iff _
    · intro hT''
      have hnet : ((step (.makePushBody this.id t) c).net
        (step (.makePushBody this.id t) c).requests) =
        c.net c.requests := rfl
      rw [hnet]
      cases hok : (c.net c.requests).isOK with
      | false =>
        simp only [Bool.false_eq_true, if_false, false_implies, and_true]
        have hfail := hK.fail { this with errCode := .errRemoteServer }
          { this with errCode := .errRemoteServer } this (c.net c.requests) hT'' hgo
        simp only [Prog.ite_bind, Prog.bind_assoc] at hfail
        exact hfail
      | true =>
        have hthrows : JavaClient.throws (c.net c.requests) = false := by
          simp [JavaClient.throws, hok]
        simp only [if_true, true_implies, hthrows, true_and]
        exact confirm_agreement hK c rfl hT'' hgo

/-- The loop tests the state and makes a round. -/
theorem loop_cons (e : Engine) (a b : SyncSource) (rest : List UpdateType)
    (hT : Twin dir dir' c j) :
    Agreement dir dir' (pushLoop e a (t :: rest))
        (JavaClient.pushLoop e dirPath b (t :: rest)) c j ↔
      if c.syncState.isContinueSync = true then
        Agreement dir dir' ((pushChanges e a t).bind (fun that => pushLoop e that rest))
          ((JavaClient.pushChanges e dirPath b t).bind
            (JavaClient.afterRound (fun that => JavaClient.pushLoop e dirPath that rest))) c j
      else SameOutcome dir dir' c j := by
  have hstate : j.syncState = c.syncState := by rw [hT.same]
  show Agreement dir dir'
      (if c.syncState.isContinueSync = true then
        (pushChanges e a t).bind (fun that => pushLoop e that rest) else .ret a)
      (if j.syncState.isContinueSync = true then
        (JavaClient.pushChanges e dirPath b t).bind
          (JavaClient.afterRound (fun that => JavaClient.pushLoop e dirPath that rest))
        else .ret (.ok b)) c j ↔ _
  rw [hstate]
  split <;> exact Iff.rfl

theorem loop_stopped (e : Engine) (types : List UpdateType) (a b : SyncSource)
    (hT : Twin dir dir' c j) (hstop : c.syncState.isContinueSync = false) :
    Agreement dir dir' (pushLoop e a types) (JavaClient.pushLoop e dirPath b types) c j := by
  cases types with
  | nil => exact hT.outcome
  | cons t rest =>
    rw [loop_cons e a b rest hT, hstop]
    exact hT.outcome

theorem loop_agreement (types : List UpdateType) (hnodup : types.Nodup)
    (hT : Twin (cpp e) (java dirPath) c j) (hgo : c.syncState.isContinueSync = true) :
    Agreement (cpp e) (java dirPath) (pushLoop e this types)
      (JavaClient.pushLoop e dirPath this types) c j ↔
    Agree c.net c.requests (plan c.changed this.id types) := by
  induction types generalizing c j with
  | nil => exact ⟨fun _ => trivial, fun _ => hT.outcome⟩
  | cons t rest ih =>
    obtain ⟨hother, hrest⟩ := List.nodup_cons.mp hnodup
    have hK : Continues e dirPath t rest this (fun that => pushLoop e that rest)
        (JavaClient.afterRound (fun that => JavaClient.pushLoop e dirPath that rest)) :=
      { go := fun _ _ hT hgo => ih hrest hT hgo
        stop := fun a b _ _ hT hstop => loop_stopped e rest a b hT hstop
        neverStarts := fun a => (pushLoop_only e rest (List.Subset.refl _) a).mono
          (fun _ => neverStarts_of_pushing)
        spares := afterRound_spares (fun a => pushLoop_spares e dirPath a hother)
        thrown := fun _ => rfl
        other := hother }
    rw [loop_cons e this this rest hT, if_pos hgo]
    exact round_agreement hK hT hgo

end Programs

/-- On the same tables and against the same answers the ports make the same requests and
leave the same tables and the same state exactly when the engine is stopped already or
the plan, as far as it is reached, holds nothing in which they differ. -/
theorem ports_agree_iff (e : Engine) (dirPath : String) (this : SyncSource) (w : World) :
    SameOutcome (cpp e) (java dirPath)
      ((syncClientChanges e this).exec step { w with log := [] }).2
      ((JavaClient.syncClientChanges e dirPath this).exec step { w with log := [] }).2 ↔
    (w.syncState.isContinueSync = true →
      Agree w.net w.requests (plan w.changed this.id [.create, .update, .delete])) := by
  have hT : Twin (cpp e) (java dirPath) { w with log := [] } { w with log := [] } :=
    ⟨rfl, rfl⟩
  cases hgo : w.syncState.isContinueSync with
  | true =>
    apply (loop_agreement [.create, .update, .delete] (by decide) hT hgo).trans
    exact ⟨fun h _ => h, fun h => h rfl⟩
  | false =>
    refine ⟨fun _ hyes => absurd hyes Bool.false_ne_true, fun _ => ?_⟩
    exact loop_stopped e [.create, .update, .delete] this this hT hgo

/-- New edits of a name and of a picture are nothing in which the ports differ. -/
example : Agree (fun _ => ⟨true, true, none⟩) 0 (plan
    ((ChangedTable.empty.insert
      (queued 1 (some "7") (some "name") (some "Ann") none .update 12)).insert
      (queued 1 (some "8") (some "image_uri") (some "/p.png") (some "blob.file") .update 0))
    1 [.create, .update, .delete]) := by decide +kernel

/-- An edit that the server has taken back, at sent=3, and a new picture, in front of a
server that accepts everything. -/
def pictureWorld : World :=
  World.start
    ((ChangedTable.empty.insert
      { queued 1 (some "7") (some "name") (some "Ann") none .update 12 with sent := 3 }).insert
      (queued 1 (some "8") (some "image_uri") (some "/p.png") (some "blob.file") .update 0))
    .empty ⟨[], List.nodup_nil⟩ (fun _ => ⟨true, true, none⟩)

/-- The C++ port deletes the edit with the picture's round, the Java port keeps it. -/
theorem ports_differ_after_picture :
    ¬ ∀ (e : Engine) (dirPath : String) (this : SyncSource) (w : World),
      SameOutcome (cpp e) (java dirPath)
        ((syncClientChanges e this).exec step { w with log := [] }).2
        ((JavaClient.syncClientChanges e dirPath this).exec step { w with log := [] }).2 := by
  intro h
  have hchanged := (h sampleEngine "/apps" sampleSource pictureWorld).changed
  have hrows := congrArg (fun T => T.rows.length) hchanged
  revert hrows
  decide +kernel

end Rhodes.Ports
