import Rhodes.KeyedRows
import Rhodes.Notifications

/-!
The create errors that a page brings, and the finish notification that has to pass them on.
CSyncNotify of SyncNotify.cpp puts the errors of the source into the body and clears them.
In SyncNotify.java the body is made without them, and makeCreateObjectErrorBody walks the
table of the registered objects in place of the errors: on the first of its keys, which is
no string, it throws.
-/
namespace Rhodes.CreateErrors

open Std (TreeMap)
open Statements Source Notifications KeyedRows TwoLevel

/-- A call of addCreateObjectError. -/
structure CreateError where
  src : Int
  object : String
  error : String

def CreateError.key (c : CreateError) : Int × String := (c.src, c.object)

/-- The table that the calls leave. -/
def recorded (calls : List CreateError) : Table Int String String :=
  calls.foldl (fun m c => put m c.src c.object c.error) ∅

/-- The last message recorded for an object of a source. -/
def lastError (calls : List CreateError) (src : Int) (object : String) : Option String :=
  (latest CreateError.key calls (src, object)).map CreateError.error

/-- Any state of the notifications in which the calls have been made. -/
def afterCalls (n : SyncNotify) (calls : List CreateError) : SyncNotify :=
  { n with hashCreateObjectErrors := recorded calls }

/-- What an error adds to the body. -/
def errorText (e : String × String) : String :=
  "&create_error[][object]=" ++ e.1 ++ "&create_error[][error_message]=" ++ e.2

def errorsText (pairs : List (String × String)) : String := String.join (pairs.map errorText)

namespace Java

/-- The UTF-16 units of a character. -/
def units (c : Char) : List Nat :=
  if c.toNat < 0x10000 then [c.toNat]
  else [0xD800 + (c.toNat - 0x10000) / 0x400, 0xDC00 + (c.toNat - 0x10000) % 0x400]

def isPlain (c : Nat) : Bool :=
  c = '^'.toNat || c = '_'.toNat || c = '\\'.toNat || c = '-'.toNat || c = '.'.toNat ||
    ('A'.toNat ≤ c && c ≤ 'Z'.toNat) || ('a'.toNat ≤ c && c ≤ 'z'.toNat) ||
    ('0'.toNat ≤ c && c ≤ '9'.toNat)

/-- URI.urlEncode of URI.java. -/
def urlEncode (fullPath : String) : String :=
  String.ofList ((fullPath.toList.flatMap units).flatMap (fun c =>
    if isPlain c then [Char.ofNat c]
    else '%' :: (if c > 15 then [] else ['0']) ++ Nat.toDigits 16 c))

/-- `none` where the cast of a key to a String throws; the errors stay then. -/
def makeCreateObjectErrorBody (n : SyncNotify) (nSrcID : Int) : Option String × SyncNotify :=
  match n.hashCreateObjectErrors[nSrcID]? with
  | none => (some "", n)
  | some _ =>
      if n.hashSrcIDAndObject.isEmpty then
        (some "", { n with hashCreateObjectErrors := n.hashCreateObjectErrors.insert nSrcID ∅ })
      else (none, n)

def statusText (src : SyncSource) (stopped bFinish : Bool) (nErrCode : Nat) : String :=
  if bFinish then
    if nErrCode = ErrCode.errNone.val then "ok"
    else "error&error_code=" ++
      toString (if stopped then ErrCode.errCancelByUser.val else nErrCode) ++
      "&error_message=" ++ urlEncode src.error
  else "in_progress"

/-- The synchronized block of doFireSyncNotification for the registration it finds. -/
def makeSyncBody (n : SyncNotify) (src : SyncSource) (stopped bFinish : Bool) (nErrCode : Nat)
    (sn : SyncNotification) : String × SyncNotify :=
  (n.syncBodyText src (statusText src stopped bFinish nErrCode) ++ SyncNotify.paramsText sn, n)

end Java

/-- The body has each object of the source with an error once, with its last message, and no
other object: between the status and the parameters of the registration stand just the pairs
of these objects. -/
def Reports (calls : List CreateError) (src : Int) (front back body : String) : Prop :=
  ∃ pairs : List (String × String), (pairs.map Prod.fst).Nodup ∧
    (∀ object error, (object, error) ∈ pairs ↔ lastError calls src object = some error) ∧
    body = front ++ errorsText pairs ++ back

/-- The errors of the other sources are still there. -/
def KeepsOthers (calls : List CreateError) (src : Int) (n : SyncNotify) : Prop :=
  ∀ other, other ≠ src → ∀ object,
    lookup n.hashCreateObjectErrors other object = lastError calls other object

/-- A finish notification of a port, which has the body `front ++ back` without errors. -/
def PassesOn (calls : List CreateError) (src : Int) (front back : String)
    (made : String × SyncNotify) : Prop :=
  Reports calls src front back made.1 ∧ KeepsOthers calls src made.2

/-- makeCreateObjectErrorBody returns the same pairs in both ports. -/
def SamePairs (n : SyncNotify) (src : Int) : Prop :=
  ∃ pairs pairs' : List (String × String), pairs.Perm pairs' ∧
    (n.makeCreateObjectErrorBody src).1 = errorsText pairs ∧
    (Java.makeCreateObjectErrorBody n src).1 = some (errorsText pairs')

theorem lookup_recorded (calls : List CreateError) (src : Int) (object : String) :
    lookup (recorded calls) src object = lastError calls src object := by
  induction calls using List.reverseRecOn with
  | nil => simp [recorded, lastError, latest]
  | append_singleton calls c ih =>
    have hstep : recorded (calls ++ [c]) = put (recorded calls) c.src c.object c.error := by
      simp [recorded]
    rw [hstep, lookup_put, ih, lastError, lastError, latest_concat]
    by_cases hkey : c.src = src ∧ c.object = object
    · rw [if_pos hkey, if_pos (by rw [CreateError.key, hkey.1, hkey.2]), Option.map_some]
    · rw [if_neg hkey, if_neg (by simpa [CreateError.key] using hkey)]

theorem recorded_getElem?_eq_none {calls : List CreateError} {src : Int}
    (h : ∀ c ∈ calls, c.src ≠ src) : (recorded calls)[src]? = none := by
  induction calls using List.reverseRecOn with
  | nil => simp [recorded]
  | append_singleton calls c ih =>
    have hstep : recorded (calls ++ [c]) = put (recorded calls) c.src c.object c.error := by
      simp [recorded]
    have hne : c.src ≠ src := h c (by simp)
    have hold := ih (fun d hd => h d (by simp [hd]))
    rw [hstep, TwoLevel.put, TreeMap.getElem?_insert]
    simp [hne, hold]

/-- A source has an error just when one was recorded for it. -/
theorem lastError_isSome_iff (calls : List CreateError) (src : Int) :
    (∃ object error, lastError calls src object = some error) ↔ ∃ c ∈ calls, c.src = src := by
  constructor
  · rintro ⟨object, error, h⟩
    obtain ⟨c, hc, -⟩ := Option.map_eq_some_iff.mp h
    have hkey := key_of_latest CreateError.key hc
    refine ⟨c, ?_, congrArg Prod.fst hkey⟩
    exact List.mem_reverse.mp (List.mem_of_find?_eq_some hc)
  · rintro ⟨c, hc, rfl⟩
    cases hlast : latest CreateError.key calls (c.src, c.object) with
    | none => exact absurd rfl ((latest_eq_none CreateError.key).mp hlast c hc)
    | some d => exact ⟨c.object, d.error, by rw [lastError, hlast, Option.map_some]⟩

theorem errorsText_cons (e : String × String) (pairs : List (String × String)) :
    errorsText (e :: pairs) = errorText e ++ errorsText pairs := by
  simp [errorsText, String.join_cons]

theorem errorText_ne_empty (e : String × String) : errorText e ≠ "" := by
  unfold errorText
  simp only [ne_eq, String.append_eq_empty_iff, String.reduceEq, false_and, not_false_eq_true]

theorem errorsText_eq_empty_iff (pairs : List (String × String)) :
    errorsText pairs = "" ↔ pairs = [] := by
  constructor
  · intro h
    cases pairs with
    | nil => rfl
    | cons e pairs =>
      rw [errorsText_cons, String.append_eq_empty_iff] at h
      exact absurd h.1 (errorText_ne_empty e)
  · rintro rfl
    rfl

theorem append_errorText (strBody : String) (e : String × String) (rest : String) :
    strBody ++ "&create_error[][object]=" ++ e.1 ++ "&create_error[][error_message]=" ++ e.2 ++
      rest = strBody ++ (errorText e ++ rest) := by
  unfold errorText
  simp only [String.append_assoc]

/-- The loop over the errors of a source. -/
theorem foldl_errors (pairs : List (String × String)) (strBody : String) :
    pairs.foldl (fun strBody itError => strBody ++ "&create_error[][object]=" ++ itError.1 ++
      "&create_error[][error_message]=" ++ itError.2) strBody = strBody ++ errorsText pairs := by
  induction pairs generalizing strBody with
  | nil => rw [List.foldl_nil, (errorsText_eq_empty_iff []).mpr rfl, String.append_empty]
  | cons e pairs ih =>
    rw [List.foldl_cons, ih, errorsText_cons]
    exact append_errorText ..

/-- The body is the pairs of the table of the source, in the order of their objects. -/
theorem makeCreateObjectErrorBody_text (n : SyncNotify) (src : Int) :
    (n.makeCreateObjectErrorBody src).1 =
      errorsText (n.hashCreateObjectErrors.getD src ∅).toList := by
  rw [SyncNotify.makeCreateObjectErrorBody, TreeMap.getD_eq_getD_getElem?]
  cases n.hashCreateObjectErrors[src]? with
  | none => rfl
  | some hashErrors =>
    simp only [Option.getD_some]
    rw [foldl_errors, String.empty_append]

theorem makeCreateObjectErrorBody_lookup (n : SyncNotify) {src other : Int} (h : other ≠ src)
    (object : String) :
    lookup (n.makeCreateObjectErrorBody src).2.hashCreateObjectErrors other object =
      lookup n.hashCreateObjectErrors other object := by
  unfold SyncNotify.makeCreateObjectErrorBody
  split
  · rfl
  · rw [lookup_insert, if_neg (Ne.symm h)]

/-- The status of a finish notification without the create errors. -/
def plainStatus (src : SyncSource) (stopped : Bool) (nErrCode : Nat) : String :=
  if nErrCode = ErrCode.errNone.val then "ok"
  else "error&error_code=" ++
    toString (if stopped then ErrCode.errCancelByUser.val else nErrCode) ++
    "&error_message=" ++ Uri.urlEncoded src.error

theorem syncBodyText_append (n : SyncNotify) (src : SyncSource) (a b : String) :
    n.syncBodyText src (a ++ b) = n.syncBodyText src a ++ b := by
  unfold SyncNotify.syncBodyText
  exact (String.append_assoc ..).symm

theorem statusText_finish (n : SyncNotify) (src : SyncSource) (stopped : Bool) (nErrCode : Nat) :
    n.statusText src stopped true nErrCode =
      (plainStatus src stopped nErrCode ++ (n.makeCreateObjectErrorBody src.id).1,
        (n.makeCreateObjectErrorBody src.id).2) := by
  rw [SyncNotify.statusText, if_pos rfl, plainStatus]

theorem makeSyncBody_finish (n : SyncNotify) (src : SyncSource) (stopped : Bool) (nErrCode : Nat)
    (sn : SyncNotification) :
    n.makeSyncBody src stopped true nErrCode sn =
      (n.syncBodyText src (plainStatus src stopped nErrCode) ++
        (n.makeCreateObjectErrorBody src.id).1 ++ SyncNotify.paramsText sn,
        (n.makeCreateObjectErrorBody src.id).2) := by
  rw [SyncNotify.makeSyncBody, statusText_finish, syncBodyText_append]

/-- The finish notification of the C++ port passes the errors of its source on. -/
theorem passesOn_cpp (n : SyncNotify) (calls : List CreateError) (src : SyncSource)
    (stopped : Bool) (nErrCode : Nat) (sn : SyncNotification) :
    PassesOn calls src.id ((afterCalls n calls).syncBodyText src (plainStatus src stopped nErrCode))
      (SyncNotify.paramsText sn)
      ((afterCalls n calls).makeSyncBody src stopped true nErrCode sn) := by
  rw [makeSyncBody_finish]
  constructor
  · refine ⟨((recorded calls).getD src.id ∅).toList, ?_, ?_, ?_⟩
    · rw [List.nodup_iff_pairwise_ne, List.pairwise_map]
      apply TreeMap.distinct_keys_toList.imp
      simp
    · intro object error
      rw [TreeMap.mem_toList_iff_getElem?_eq_some, ← lookup_recorded, lookup,
        TreeMap.getD_eq_getD_getElem?]
      cases (recorded calls)[src.id]? with
      | none => simp
      | some inner => rfl
    · rw [makeCreateObjectErrorBody_text, afterCalls]
  · intro other hother object
    rw [makeCreateObjectErrorBody_lookup _ hother]
    exact lookup_recorded calls other object

/-- The finish notification of the Java port does so where the source has no error. -/
theorem passesOn_java_iff (n : SyncNotify) (calls : List CreateError) (src : SyncSource)
    (stopped : Bool) (nErrCode : Nat) (sn : SyncNotification) :
    PassesOn calls src.id
      ((afterCalls n calls).syncBodyText src (Java.statusText src stopped true nErrCode))
      (SyncNotify.paramsText sn)
      (Java.makeSyncBody (afterCalls n calls) src stopped true nErrCode sn) ↔
    ∀ c ∈ calls, c.src ≠ src.id := by
  have hkeeps : KeepsOthers calls src.id
      (Java.makeSyncBody (afterCalls n calls) src stopped true nErrCode sn).2 :=
    fun other _ object => lookup_recorded calls other object
  constructor
  · rintro ⟨⟨pairs, -, hpairs, hbody⟩, -⟩ c hc hsrc
    obtain ⟨object, error, hlast⟩ := (lastError_isSome_iff calls src.id).mpr ⟨c, hc, hsrc⟩
    have hlen := congrArg String.length hbody
    simp only [Java.makeSyncBody, String.length_append] at hlen
    have hempty : errorsText pairs = "" := String.length_eq_zero_iff.mp (by omega)
    have hmem := (hpairs object error).mpr hlast
    rw [(errorsText_eq_empty_iff pairs).mp hempty] at hmem
    cases hmem
  · intro hnone
    refine ⟨⟨[], by simp, ?_, ?_⟩, hkeeps⟩
    · intro object error
      constructor
      · intro h
        cases h
      · intro h
        obtain ⟨c, hc, hsrc⟩ := (lastError_isSome_iff calls src.id).mp ⟨object, error, h⟩
        exact absurd hsrc (hnone c hc)
    · rw [(errorsText_eq_empty_iff []).mpr rfl, String.append_empty]
      rfl

/-- On every table, makeCreateObjectErrorBody of both ports returns the same pairs where the
source has no table of errors, or an empty one while no object is registered. -/
theorem samePairs_iff (n : SyncNotify) (src : Int) :
    SamePairs n src ↔ ∀ hashErrors, n.hashCreateObjectErrors[src]? = some hashErrors →
      hashErrors.isEmpty = true ∧ n.hashSrcIDAndObject.isEmpty = true := by
  unfold SamePairs Java.makeCreateObjectErrorBody
  rw [makeCreateObjectErrorBody_text, TreeMap.getD_eq_getD_getElem?]
  cases n.hashCreateObjectErrors[src]? with
  | none =>
    simp only [reduceCtorEq, false_implies, implies_true, iff_true]
    exact ⟨[], [], List.Perm.refl _, rfl, rfl⟩
  | some hashErrors =>
    simp only [Option.getD_some, Option.some.injEq]
    constructor
    · rintro ⟨pairs, pairs', hperm, htext, hjava⟩ _ rfl
      split at hjava
      · rename_i hobjects
        cases (errorsText_eq_empty_iff pairs').mp (Option.some.inj hjava).symm
        cases hperm.eq_nil
        have hlist := (errorsText_eq_empty_iff _).mp htext
        exact ⟨by rw [← TreeMap.isEmpty_toList, hlist]; rfl, hobjects⟩
      · cases hjava
    · intro h
      obtain ⟨hempty, hobjects⟩ := h hashErrors rfl
      have hlist : hashErrors.toList = [] := by
        rw [← List.isEmpty_iff, TreeMap.isEmpty_toList]
        exact hempty
      rw [if_pos hobjects, hlist]
      exact ⟨[], [], List.Perm.refl _, rfl, rfl⟩

/-- Both ports pass every create error on, and with the same pairs, just where none was
recorded for the source. -/
theorem create_errors_passed_on_iff (n : SyncNotify) (calls : List CreateError) (src : SyncSource)
    (stopped : Bool) (nErrCode : Nat) (sn : SyncNotification) :
    (PassesOn calls src.id
        ((afterCalls n calls).syncBodyText src (plainStatus src stopped nErrCode))
        (SyncNotify.paramsText sn)
        ((afterCalls n calls).makeSyncBody src stopped true nErrCode sn) ∧
      PassesOn calls src.id
        ((afterCalls n calls).syncBodyText src (Java.statusText src stopped true nErrCode))
        (SyncNotify.paramsText sn)
        (Java.makeSyncBody (afterCalls n calls) src stopped true nErrCode sn) ∧
      SamePairs (afterCalls n calls) src.id) ↔
    ∀ c ∈ calls, c.src ≠ src.id := by
  constructor
  · rintro ⟨-, hjava, -⟩
    exact (passesOn_java_iff n calls src stopped nErrCode sn).mp hjava
  · intro hnone
    refine ⟨passesOn_cpp n calls src stopped nErrCode sn,
      (passesOn_java_iff n calls src stopped nErrCode sn).mpr hnone, ?_⟩
    rw [samePairs_iff]
    intro hashErrors hsome
    exact absurd hsome (by rw [afterCalls, recorded_getElem?_eq_none hnone]; simp)

def rejectedCreate : List CreateError := [⟨1, "7", "Name is taken"⟩]

/-- The server rejects a create of a source while an object of it is registered: the Java body
has nothing of the error, and makeCreateObjectErrorBody fails where the C++ one has the pair. -/
theorem create_error_lost :
    let n := afterCalls (({} : SyncNotify).addObjectNotify 1 "5") rejectedCreate
    ¬PassesOn rejectedCreate 1 (n.syncBodyText sampleSource "ok") ""
        (Java.makeSyncBody n sampleSource false true 0 ⟨0, "/app/notify", ""⟩) ∧
      (n.makeCreateObjectErrorBody 1).1 = errorText ("7", "Name is taken") ∧
      (Java.makeCreateObjectErrorBody n 1).1 = none := by
  refine ⟨?_, by rfl, by rfl⟩
  intro h
  have hnone := (passesOn_java_iff (({} : SyncNotify).addObjectNotify 1 "5") rejectedCreate
    sampleSource false 0 ⟨0, "/app/notify", ""⟩).mp h
  exact hnone _ (List.mem_singleton_self _) rfl

end Rhodes.CreateErrors
