import Rhodes.CreateErrors
import Rhodes.Routes

/-!
An object that a page of the Java port shows. dispatch of RhoConnection.java registers the
braced id of the path, and addObjectNotify of SyncNotify.java takes the last character of the
id away with the braces: substring wants the end of the text, and the C++ port gives substr a
length. A Java text is the list of its UTF-16 units here.
-/
namespace Rhodes.ShownObjects

open Database Statements Source Notifications TwoLevel

abbrev Text := List Nat

def text (s : String) : Text := s.toList.flatMap CreateErrors.Java.units

def openBrace : Nat := '\x7b'.toNat

/-- The fields of SyncNotify.java that the object notifications use; a type `none` is enNone. -/
structure Notify where
  strObjectNotifyUrl : String := ""
  hashSrcIDAndObject : Table Int Text (Option NotifyType) := ∅
  strSingleObjectSrcName : String := ""
  strSingleObjectID : Text := []

/-- `none` where substring throws. -/
def substring (s : Text) (beginIndex endIndex : Int) : Option Text :=
  if 0 ≤ beginIndex ∧ beginIndex ≤ endIndex ∧ endIndex ≤ s.length then
    some ((s.drop beginIndex.toNat).take (endIndex - beginIndex).toNat)
  else none

/-- `strObject.charAt(0) == '\x7b' ? strObject.substring(1,strObject.length()-2) : strObject` -/
def stripBraces (strObject : Text) : Option Text :=
  match strObject with
  | [] => none
  | c :: _ =>
    if c = openBrace then substring strObject 1 (strObject.length - 2) else some strObject

/-- A change as the body of a notification has it. -/
structure Change where
  type : NotifyType
  src : Int
  object : Text
  deriving DecidableEq

def Change.text (c : Change) : Text :=
  let name := match c.type with
    | .enDelete => "deleted"
    | .enUpdate => "updated"
    | .enCreate => "created"
  ShownObjects.text (name ++ "[][object]=") ++ c.object ++
    ShownObjects.text ("&" ++ name ++ "[][source_id]=" ++ toString c.src)

namespace Notify

def addObjectNotify (n : Notify) (nSrcID : Int) (strObject : Text) : Notify :=
  { n with hashSrcIDAndObject := put n.hashSrcIDAndObject nSrcID strObject none }

/-- The flag tells whether the call returns; the name is set before substring throws. -/
def addObjectNotifyByName (n : Notify) (strSrcName : String) (strObject : Text) : Bool × Notify :=
  let n := { n with strSingleObjectSrcName := strSrcName }
  match stripBraces strObject with
  | none => (false, n)
  | some id => (true, { n with strSingleObjectID := id })

def processSingleObject (n : Notify) (sources : List SyncSource) : Notify :=
  if n.strSingleObjectSrcName.length = 0 then n
  else
    let added := match SyncNotify.findSourceByName sources n.strSingleObjectSrcName with
      | some src => n.addObjectNotify src.id n.strSingleObjectID
      | none => n
    { added with strSingleObjectSrcName := "", strSingleObjectID := [] }

/-- `hashObject.put(strObject, nType)` where the object is registered. -/
def record (n : Notify) (nSrcID : Int) (strObject : Text) (nType : NotifyType) : Notify :=
  { n with
    hashSrcIDAndObject := replace n.hashSrcIDAndObject nSrcID strObject (some nType) }

def onObjectChanged (n : Notify) (sources : List SyncSource) (nSrcID : Int) (strObject : Text)
    (nType : NotifyType) : Notify :=
  (n.processSingleObject sources).record nSrcID strObject nType

end Notify

/-- SELECT object FROM object_values where object=? -/
def objectRemains (objects : ObjectTable) (object : Text) : Bool :=
  objects.rows.any (fun r => r.object.map text = some object)

def reportedType (objects : ObjectTable) (object : Text) (nNotifyType : NotifyType) : NotifyType :=
  if nNotifyType = .enDelete ∧ objectRemains objects object = true then .enUpdate else nNotifyType

/-- One turn of the inner loop of fireObjectsNotification. -/
def fireObject (objects : ObjectTable) (acc : List Change × Notify)
    (entry : Int × Text × Option NotifyType) : List Change × Notify :=
  match entry.2.2 with
  | none => acc
  | some nNotifyType =>
    (acc.1 ++ [⟨reportedType objects entry.2.1 nNotifyType, entry.1, entry.2.1⟩],
      acc.2.addObjectNotify entry.1 entry.2.1)

/-- One turn of the loops on strBody. -/
def addChange (strBody : Text) (c : Change) : Text :=
  (if strBody.length > 0 then strBody ++ text "&" else strBody) ++ c.text

def objectsBody (changes : List Change) : Text := changes.foldl addChange []

/-- The order in which the elements of the Hashtables come. -/
abbrev Walk := List (Int × Text × Option NotifyType) → List (Int × Text × Option NotifyType)

namespace Notify

def fireObjects (n : Notify) (walk : Walk) (objects : ObjectTable) : List Change × Notify :=
  (walk (entries n.hashSrcIDAndObject)).foldl (fireObject objects) ([], n)

/-- The URL and the body that are pushed, `none` where nothing is. -/
def fireObjectsNotification (n : Notify) (walk : Walk) (resolveUrl : String → String)
    (objects : ObjectTable) : Option (String × Text) × Notify :=
  if n.strObjectNotifyUrl.length = 0 then (none, n)
  else
    let (changes, fired) := n.fireObjects walk objects
    (if (objectsBody changes).length = 0 then none
      else some (resolveUrl n.strObjectNotifyUrl, objectsBody changes), fired)

end Notify

/-- dispatch of RhoConnection with the object it registers; processRequest is what the
application does with the request, and the flags tell whether the calls return. -/
def dispatch (findClass : String → Bool) (processRequest : Routes.Route → Notify → Bool × Notify)
    (path : String) (n : Notify) : Bool × Notify :=
  match Routes.dispatch findClass path with
  | .thrown => (false, n)
  | .unhandled => (true, n)
  | .extension => (true, n)
  | .request route objectNotify =>
    match processRequest route n, objectNotify with
    | (true, n), some (model, actionid) => n.addObjectNotifyByName model (text actionid)
    | served, _ => served

/-- The calls that come between a dispatch and a change of the object it registers. -/
inductive Call where
  | addObjectNotify (nSrcID : Int) (strObject : Text)
  | onObjectChanged (sources : List SyncSource) (nSrcID : Int) (strObject : Text)
      (nType : NotifyType)
  | fireObjectsNotification (objects : ObjectTable)

def Call.run (walk : Walk) (resolveUrl : String → String) (n : Notify) : Call → Notify
  | addObjectNotify nSrcID strObject => n.addObjectNotify nSrcID strObject
  | onObjectChanged sources nSrcID strObject nType =>
    n.onObjectChanged sources nSrcID strObject nType
  | fireObjectsNotification objects => (n.fireObjectsNotification walk resolveUrl objects).2

def braced (id : String) : String := "\x7b" ++ id ++ "\x7d"

def IsUnbraced (object : String) : Prop := object.toList.head? ≠ some '\x7b'

/-- The object is registered under its source and id. -/
def Watched (n : Notify) (src : Int) (object : Text) : Prop :=
  (lookup n.hashSrcIDAndObject src object).isSome = true

instance (n : Notify) (src : Int) (object : Text) : Decidable (Watched n src object) :=
  inferInstanceAs (Decidable (_ = _))

/-- fireObjectsNotification pushes a body with the change of the object under its id. -/
def Reported (walk : Walk) (resolveUrl : String → String) (objects : ObjectTable) (n : Notify)
    (src : Int) (object : Text) (t : NotifyType) : Prop :=
  (n.fireObjectsNotification walk resolveUrl objects).1 =
      some (resolveUrl n.strObjectNotifyUrl, objectsBody (n.fireObjects walk objects).1) ∧
    ⟨reportedType objects object t, src, object⟩ ∈ (n.fireObjects walk objects).1

/-- addObjectNotify by the name of a source registers the id of the C++ port. -/
def RegistersSame (object : String) : Prop :=
  ∀ (n : Notify) (m : SyncNotify) (strSrcName : String),
    (n.addObjectNotifyByName strSrcName (text object)).1 = true ∧
      (n.addObjectNotifyByName strSrcName (text object)).2.strSingleObjectID =
        text (m.addObjectNotifyByName strSrcName object).strSingleObjectID

section Braces

theorem units_ne_nil (c : Char) : CreateErrors.Java.units c ≠ [] := by
  unfold CreateErrors.Java.units
  split <;> simp

theorem text_ne_nil {s : String} (h : s ≠ "") : text s ≠ [] := by
  unfold text
  cases hs : s.toList with
  | nil => exact absurd (String.toList_eq_nil_iff.mp hs) h
  | cons c rest =>
    intro hnil
    rw [List.flatMap_cons, List.append_eq_nil_iff] at hnil
    exact units_ne_nil c hnil.1

theorem text_append (s t : String) : text (s ++ t) = text s ++ text t := by
  unfold text
  rw [String.toList_append, List.flatMap_append]

theorem text_braced (id : String) :
    text (braced id) = openBrace :: (text id ++ ['\x7d'.toNat]) := by
  unfold braced
  rw [text_append, text_append]
  rfl

/-- The first unit is a brace where the first character is one. -/
theorem head_units_ne {c : Char} (h : c ≠ '\x7b') :
    (CreateErrors.Java.units c).head? ≠ some openBrace := by
  unfold CreateErrors.Java.units
  split
  · intro hhead
    rw [List.head?_cons] at hhead
    exact h (Char.toNat_inj.mp (Option.some.inj hhead))
  · intro hhead
    rw [List.head?_cons] at hhead
    have heq := Option.some.inj hhead
    have hbrace : openBrace = 123 := by decide
    omega

/-- The braces of an id and its last unit are taken away. -/
theorem stripBraces_braced {id : String} (h : id ≠ "") :
    stripBraces (text (braced id)) = some (text id).dropLast := by
  have hpos := List.length_pos_iff.mpr (text_ne_nil h)
  have hlen : (openBrace :: (text id ++ ['\x7d'.toNat])).length = (text id).length + 2 := by
    simp
  have hcount : (((text id).length + 2 : Nat) - 2 - 1 : Int).toNat = (text id).length - 1 := by
    omega
  rw [text_braced, stripBraces, if_pos rfl, substring, hlen, if_pos (by omega), hcount,
    List.dropLast_eq_take]
  exact congrArg some (List.take_append_of_le_length (Nat.sub_le ..))

theorem stripBraces_empty : stripBraces (text (braced "")) = none := by decide

/-- A text without braces stays. -/
theorem stripBraces_unbraced {object : String} (hne : object ≠ "") (h : IsUnbraced object) :
    stripBraces (text object) = some (text object) := by
  have htext := text_ne_nil hne
  unfold IsUnbraced at h
  unfold text at htext ⊢
  cases hs : object.toList with
  | nil => exact absurd (String.toList_eq_nil_iff.mp hs) hne
  | cons c rest =>
    rw [hs, List.head?_cons] at h
    have hhead := head_units_ne (fun hc => h (congrArg some hc))
    rw [List.flatMap_cons]
    cases hu : CreateErrors.Java.units c with
    | nil => exact absurd hu (units_ne_nil c)
    | cons unit units =>
      rw [hu, List.head?_cons] at hhead
      rw [List.cons_append, stripBraces, if_neg (fun hc => hhead (congrArg some hc))]

/-- The C++ port takes the braces away. -/
theorem stripBraces_cpp (id : String) : SyncNotify.stripBraces (braced id) = id := by
  have hlist : (braced id).toList = '\x7b' :: (id.toList ++ ['\x7d']) := by
    unfold braced
    simp
  unfold SyncNotify.stripBraces
  rw [hlist]
  simp

theorem stripBraces_cpp_unbraced {object : String} (h : IsUnbraced object) :
    SyncNotify.stripBraces object = object := by
  unfold SyncNotify.stripBraces
  split
  · rename_i rest heq
    exact absurd (by rw [heq]; rfl) h
  · rfl

theorem registersSame_iff (object : String) :
    RegistersSame object ↔
      stripBraces (text object) = some (text (SyncNotify.stripBraces object)) := by
  have hone : ∀ (n : Notify) (m : SyncNotify) (strSrcName : String),
      ((n.addObjectNotifyByName strSrcName (text object)).1 = true ∧
        (n.addObjectNotifyByName strSrcName (text object)).2.strSingleObjectID =
          text (m.addObjectNotifyByName strSrcName object).strSingleObjectID) ↔
      stripBraces (text object) = some (text (SyncNotify.stripBraces object)) := by
    intro n m strSrcName
    unfold Notify.addObjectNotifyByName SyncNotify.addObjectNotifyByName
    cases stripBraces (text object) <;> simp
  constructor
  · intro h
    exact (hone {} {} "").mp (h {} {} "")
  · intro h n m strSrcName
    exact (hone n m strSrcName).mpr h

/-- No braced id is registered as it is in the C++ port. -/
theorem not_registersSame_braced (id : String) : ¬RegistersSame (braced id) := by
  rw [registersSame_iff, stripBraces_cpp]
  by_cases hid : id = ""
  · subst hid
    rw [stripBraces_empty]
    exact nofun
  · rw [stripBraces_braced hid]
    intro h
    have hpos := List.length_pos_iff.mpr (text_ne_nil hid)
    have hlen := congrArg List.length (Option.some.inj h)
    rw [List.length_dropLast] at hlen
    omega

/-- A braced or unbraced text is registered as it is in the C++ port where it has no braces. -/
theorem registersSame_iff_unbraced {object : String}
    (h : (∃ id, object = braced id) ∨ IsUnbraced object) :
    RegistersSame object ↔ object ≠ "" ∧ IsUnbraced object := by
  constructor
  · intro hsame
    rcases h with ⟨id, rfl⟩ | hunbraced
    · exact absurd hsame (not_registersSame_braced id)
    · refine ⟨?_, hunbraced⟩
      rintro rfl
      rw [registersSame_iff] at hsame
      cases hsame
  · rintro ⟨hne, hunbraced⟩
    rw [registersSame_iff, stripBraces_unbraced hne hunbraced, stripBraces_cpp_unbraced hunbraced]

end Braces

section Watching

variable {n : Notify} {src : Int} {object : Text}

theorem lookup_addObjectNotify (n : Notify) (src src' : Int) (object object' : Text) :
    lookup (n.addObjectNotify src object).hashSrcIDAndObject src' object' =
      if src = src' ∧ object = object' then some none
      else lookup n.hashSrcIDAndObject src' object' := lookup_put _ _ _ _ _ _

theorem watched_addObjectNotify (n : Notify) (src src' : Int) (object object' : Text) :
    Watched (n.addObjectNotify src object) src' object' ↔
      Watched n src' object' ∨ (src = src' ∧ object = object') := by
  unfold Watched
  rw [lookup_addObjectNotify]
  by_cases hsame : src = src' ∧ object = object'
  · simp [hsame]
  · simp [hsame]

/-- The object that is kept by a name is another one. -/
def Apart (n : Notify) (object : Text) : Prop :=
  n.strSingleObjectSrcName.length = 0 ∨ n.strSingleObjectID ≠ object

/-- Looking up the object that is kept by a name does not touch another one. -/
theorem processSingleObject_apart (h : Apart n object) (sources : List SyncSource) (src : Int) :
    lookup (n.processSingleObject sources).hashSrcIDAndObject src object =
        lookup n.hashSrcIDAndObject src object ∧
      (n.processSingleObject sources).strSingleObjectSrcName.length = 0 ∧
      (n.processSingleObject sources).strObjectNotifyUrl = n.strObjectNotifyUrl := by
  unfold Notify.processSingleObject
  split
  · rename_i hname
    exact ⟨rfl, hname, rfl⟩
  · rename_i hname
    have hid := h.resolve_left hname
    split
    · refine ⟨?_, rfl, rfl⟩
      exact (lookup_addObjectNotify ..).trans (if_neg (fun hsame => hid hsame.2))
    · exact ⟨rfl, rfl, rfl⟩

theorem lookup_record (n : Notify) (src src' : Int) (object object' : Text) (t : NotifyType) :
    lookup (n.record src object t).hashSrcIDAndObject src' object' =
      if Watched n src object ∧ src = src' ∧ object = object' then some (some t)
      else lookup n.hashSrcIDAndObject src' object' := lookup_replace ..

theorem watched_record (n : Notify) (src src' : Int) (object object' : Text) (t : NotifyType) :
    Watched (n.record src object t) src' object' ↔ Watched n src' object' := by
  unfold Watched
  rw [lookup_record]
  split
  · rename_i hsame
    obtain ⟨hwatched, rfl, rfl⟩ := hsame
    exact ⟨fun _ => hwatched, fun _ => rfl⟩
  · exact Iff.rfl

end Watching

section Firing

variable (objects : ObjectTable)

/-- What an entry of the table adds to the body. -/
def changeOf (e : Int × Text × Option NotifyType) : Option Change :=
  e.2.2.map (fun t => ⟨reportedType objects e.2.1 t, e.1, e.2.1⟩)

theorem foldl_fireObject_changes (es : List (Int × Text × Option NotifyType))
    (acc : List Change × Notify) :
    (es.foldl (fireObject objects) acc).1 = acc.1 ++ es.filterMap (changeOf objects) := by
  induction es generalizing acc with
  | nil => simp
  | cons e es ih =>
    obtain ⟨src, object, t⟩ := e
    rw [List.foldl_cons, ih]
    cases t with
    | none =>
      rw [List.filterMap_cons_none rfl]
      rfl
    | some t =>
      have hchange : changeOf objects (src, object, some t) =
          some ⟨reportedType objects object t, src, object⟩ := rfl
      rw [List.filterMap_cons_some hchange]
      exact List.append_assoc _ _ _

/-- The turns leave the subscriptions of the entries, and everything else. -/
theorem foldl_fireObject_rest (es : List (Int × Text × Option NotifyType))
    (acc : List Change × Notify) (hes : ∀ e ∈ es, Watched acc.2 e.1 e.2.1) :
    (∀ src object, Watched (es.foldl (fireObject objects) acc).2 src object ↔
      Watched acc.2 src object) ∧
    (es.foldl (fireObject objects) acc).2.strSingleObjectSrcName = acc.2.strSingleObjectSrcName ∧
    (es.foldl (fireObject objects) acc).2.strSingleObjectID = acc.2.strSingleObjectID ∧
    (es.foldl (fireObject objects) acc).2.strObjectNotifyUrl = acc.2.strObjectNotifyUrl := by
  induction es generalizing acc with
  | nil => exact ⟨fun _ _ => Iff.rfl, rfl, rfl, rfl⟩
  | cons e es ih =>
    obtain ⟨src, object, t⟩ := e
    have hfirst := hes _ List.mem_cons_self
    rw [List.foldl_cons]
    cases t with
    | none => exact ih acc (fun e he => hes e (List.mem_cons_of_mem _ he))
    | some t =>
      have hkeeps : ∀ src' object', Watched (acc.2.addObjectNotify src object) src' object' ↔
          Watched acc.2 src' object' := by
        intro src' object'
        rw [watched_addObjectNotify]
        refine or_iff_left_of_imp ?_
        rintro ⟨rfl, rfl⟩
        exact hfirst
      obtain ⟨hwatched, hrest⟩ := ih (fireObject objects acc (src, object, some t))
        (fun e he => (hkeeps _ _).mpr (hes e (List.mem_cons_of_mem _ he)))
      exact ⟨fun src' object' => (hwatched src' object').trans (hkeeps src' object'), hrest⟩

variable {walk : Walk} (hwalk : ∀ es, (walk es).Perm es)

include hwalk in
theorem fireObjects_rest (n : Notify) :
    (∀ src object, Watched (n.fireObjects walk objects).2 src object ↔ Watched n src object) ∧
    (n.fireObjects walk objects).2.strSingleObjectSrcName = n.strSingleObjectSrcName ∧
    (n.fireObjects walk objects).2.strSingleObjectID = n.strSingleObjectID ∧
    (n.fireObjects walk objects).2.strObjectNotifyUrl = n.strObjectNotifyUrl := by
  apply foldl_fireObject_rest
  intro e he
  have hlook := mem_entries.mp ((hwalk _).mem_iff.mp he)
  unfold Watched
  rw [hlook]
  rfl

include hwalk in
/-- The body has the recorded changes. -/
theorem mem_fireObjects {n : Notify} {c : Change} :
    c ∈ (n.fireObjects walk objects).1 ↔ ∃ t,
      lookup n.hashSrcIDAndObject c.src c.object = some (some t) ∧
        c.type = reportedType objects c.object t := by
  unfold Notify.fireObjects
  rw [foldl_fireObject_changes, List.nil_append, List.mem_filterMap]
  constructor
  · rintro ⟨⟨src, object, t⟩, hmem, hchange⟩
    obtain ⟨t, rfl, rfl⟩ := Option.map_eq_some_iff.mp hchange
    exact ⟨t, mem_entries.mp ((hwalk _).mem_iff.mp hmem), rfl⟩
  · rintro ⟨t, hlook, htype⟩
    refine ⟨(c.src, c.object, some t), (hwalk _).mem_iff.mpr (mem_entries.mpr hlook), ?_⟩
    show some (⟨_, c.src, c.object⟩ : Change) = some c
    rw [← htype]

theorem addChange_ne_nil (strBody : Text) (c : Change) : addChange strBody c ≠ [] := by
  have htext : c.text ≠ [] := by
    unfold Change.text
    cases c.type <;> simp [text, CreateErrors.Java.units]
  unfold addChange
  intro hnil
  exact htext (List.append_eq_nil_iff.mp hnil).2

theorem objectsBody_ne_nil {changes : List Change} (h : changes ≠ []) :
    objectsBody changes ≠ [] := by
  unfold objectsBody
  cases changes using List.reverseRecOn with
  | nil => exact absurd rfl h
  | append_singleton changes c =>
    rw [List.foldl_append]
    exact addChange_ne_nil _ c

include hwalk in
/-- A change is reported just where it is recorded and there is a URL. -/
theorem reported_iff (resolveUrl : String → String) (n : Notify) (src : Int) (object : Text)
    (t : NotifyType) :
    Reported walk resolveUrl objects n src object t ↔ n.strObjectNotifyUrl.length ≠ 0 ∧
      ∃ t', lookup n.hashSrcIDAndObject src object = some (some t') ∧
        reportedType objects object t = reportedType objects object t' := by
  unfold Reported
  rw [mem_fireObjects objects hwalk]
  constructor
  · rintro ⟨hpush, hrecorded⟩
    refine ⟨?_, hrecorded⟩
    intro hurl
    rw [Notify.fireObjectsNotification, if_pos hurl] at hpush
    cases hpush
  · rintro ⟨hurl, hrecorded⟩
    refine ⟨?_, hrecorded⟩
    have hmem : ⟨reportedType objects object t, src, object⟩ ∈ (n.fireObjects walk objects).1 :=
      (mem_fireObjects objects hwalk).mpr hrecorded
    have hbody := objectsBody_ne_nil (List.ne_nil_of_mem hmem)
    rw [Notify.fireObjectsNotification, if_neg hurl]
    exact if_neg (List.length_pos_iff.mpr hbody).ne'

end Firing

section Runs

variable {walk : Walk} (hwalk : ∀ es, (walk es).Perm es) (resolveUrl : String → String)
variable {n : Notify} {object : Text}

include hwalk in
/-- A call between watches what it registers, and no object is lost. -/
theorem run_apart (h : Apart n object) (src : Int) (call : Call) :
    Apart (call.run walk resolveUrl n) object ∧
    (Watched (call.run walk resolveUrl n) src object ↔
      Watched n src object ∨ call = .addObjectNotify src object) ∧
    (call.run walk resolveUrl n).strObjectNotifyUrl = n.strObjectNotifyUrl := by
  cases call with
  | addObjectNotify src' object' =>
    refine ⟨h, ?_, rfl⟩
    rw [Call.addObjectNotify.injEq, eq_comm (a := src'), eq_comm (a := object')]
    have hwatched := watched_addObjectNotify n src' src object' object
    rw [eq_comm (a := src'), eq_comm (a := object')] at hwatched
    exact hwatched
  | onObjectChanged sources src' object' t =>
    obtain ⟨hlook, hname, hurl⟩ := processSingleObject_apart h sources src
    refine ⟨Or.inl hname, ?_, hurl⟩
    refine (watched_record ..).trans ?_
    unfold Watched
    rw [hlook]
    simp
  | fireObjectsNotification objects =>
    obtain ⟨hwatched, hname, hid, hurl⟩ := fireObjects_rest objects hwalk n
    simp only [Call.run, Notify.fireObjectsNotification]
    split
    · exact ⟨h, by simp, rfl⟩
    · refine ⟨?_, by simp [hwatched], hurl⟩
      unfold Apart
      rw [hname, hid]
      exact h

include hwalk in
theorem foldl_run_apart (h : Apart n object) (src : Int) (calls : List Call) :
    Apart (calls.foldl (Call.run walk resolveUrl) n) object ∧
    (Watched (calls.foldl (Call.run walk resolveUrl) n) src object ↔
      Watched n src object ∨ .addObjectNotify src object ∈ calls) ∧
    (calls.foldl (Call.run walk resolveUrl) n).strObjectNotifyUrl = n.strObjectNotifyUrl := by
  induction calls generalizing n with
  | nil => exact ⟨h, by simp, rfl⟩
  | cons call calls ih =>
    obtain ⟨happart, hwatched, hurl⟩ := run_apart hwalk resolveUrl h src call
    obtain ⟨happart', hwatched', hurl'⟩ := ih happart
    refine ⟨happart', ?_, hurl'.trans hurl⟩
    rw [List.foldl_cons, hwatched', hwatched, List.mem_cons, or_assoc, eq_comm (a := call)]

/-- The change of an object that is not the one kept by a name is recorded where the object is
watched. -/
theorem lookup_onObjectChanged (h : Apart n object) (sources : List SyncSource) (src : Int)
    (t : NotifyType) :
    lookup (n.onObjectChanged sources src object t).hashSrcIDAndObject src object =
      if Watched n src object then some (some t) else none := by
  obtain ⟨hlook, -⟩ := processSingleObject_apart h sources src
  have hiff : Watched (n.processSingleObject sources) src object ↔ Watched n src object := by
    unfold Watched
    rw [hlook]
  unfold Notify.onObjectChanged
  rw [lookup_record]
  by_cases hwatched : Watched n src object
  · rw [if_pos ⟨hiff.mpr hwatched, rfl, rfl⟩, if_pos hwatched]
  · rw [if_neg (fun h => hwatched (hiff.mp h.1)), if_neg hwatched, hlook]
    exact Option.not_isSome_iff_eq_none.mp hwatched

include hwalk in
theorem reported_apart_iff (h : Apart n object) (between : List Call) (sources : List SyncSource)
    (src : Int) (objects : ObjectTable) (t : NotifyType) :
    Reported walk resolveUrl objects ((between.foldl (Call.run walk resolveUrl) n).onObjectChanged
        sources src object t) src object t ↔
      n.strObjectNotifyUrl.length ≠ 0 ∧
        (Watched n src object ∨ .addObjectNotify src object ∈ between) := by
  obtain ⟨happart, hwatched, hurl⟩ := foldl_run_apart hwalk resolveUrl h src between
  have hurl' : ((between.foldl (Call.run walk resolveUrl) n).onObjectChanged
      sources src object t).strObjectNotifyUrl = n.strObjectNotifyUrl :=
    (processSingleObject_apart happart sources src).2.2.trans hurl
  rw [reported_iff objects hwalk, lookup_onObjectChanged happart, hurl', ← hwatched]
  apply and_congr_right
  intro _
  constructor
  · rintro ⟨t', hrecorded, -⟩
    by_contra hnot
    rw [if_neg hnot] at hrecorded
    cases hrecorded
  · intro hnow
    exact ⟨t, if_pos hnow, rfl⟩

variable {findClass : String → Bool} {processRequest : Routes.Route → Notify → Bool × Notify}
variable {path model id : String} {route : Routes.Route} {n' : Notify}

theorem ne_empty_of_dispatch
    (hserved : Routes.dispatch findClass path = .request route (some (model, braced id))) :
    id ≠ "" := by
  rintro rfl
  have hnot : Routes.isId (braced "").toList = false := by decide
  rw [Routes.isId_of_dispatch hserved] at hnot
  cases hnot

/-- dispatch keeps the id without its last unit. -/
theorem dispatch_shown
    (hserved : Routes.dispatch findClass path = .request route (some (model, braced id)))
    (hreturned : processRequest route n = (true, n')) :
    dispatch findClass processRequest path n = (true, { n' with
      strSingleObjectSrcName := model, strSingleObjectID := (text id).dropLast }) := by
  unfold dispatch
  rw [hserved]
  dsimp only
  rw [hreturned]
  dsimp only
  unfold Notify.addObjectNotifyByName
  rw [stripBraces_braced (ne_empty_of_dispatch hserved)]

include hwalk in
/-- The change of a shown object is reported where the application or another call watches it. -/
theorem shown_reported_iff
    (hserved : Routes.dispatch findClass path = .request route (some (model, braced id)))
    (hreturned : processRequest route n = (true, n')) (between : List Call)
    (sources : List SyncSource) (src : Int) (objects : ObjectTable) (t : NotifyType) :
    Reported walk resolveUrl objects ((between.foldl (Call.run walk resolveUrl)
        (dispatch findClass processRequest path n).2).onObjectChanged sources src (text id) t)
        src (text id) t ↔
      n'.strObjectNotifyUrl.length ≠ 0 ∧
        (Watched n' src (text id) ∨ .addObjectNotify src (text id) ∈ between) := by
  have happart : Apart { n' with
      strSingleObjectSrcName := model, strSingleObjectID := (text id).dropLast } (text id) := by
    refine Or.inr ?_
    intro heq
    have hpos := List.length_pos_iff.mpr (text_ne_nil (ne_empty_of_dispatch hserved))
    have hlen := congrArg List.length heq
    rw [List.length_dropLast] at hlen
    omega
  rw [dispatch_shown hserved hreturned]
  exact reported_apart_iff hwalk resolveUrl happart between sources src objects t

end Runs

/-- A change of the object that a page shows is reported just where the object is watched in
another way, and addObjectNotify registers the id of the C++ port just for a text without
braces. -/
theorem shown_object_watched_iff (walk : Walk) (hwalk : ∀ es, (walk es).Perm es) :
    (∀ (resolveUrl : String → String) (findClass : String → Bool)
      (processRequest : Routes.Route → Notify → Bool × Notify)
      (path model id : String) (route : Routes.Route) (n n' : Notify) (between : List Call)
      (sources : List SyncSource) (src : SyncSource) (objects : ObjectTable) (t : NotifyType),
      Routes.dispatch findClass path = .request route (some (model, braced id)) →
      processRequest route n = (true, n') →
      SyncNotify.findSourceByName sources model = some src →
      (Reported walk resolveUrl objects ((between.foldl (Call.run walk resolveUrl)
          (dispatch findClass processRequest path n).2).onObjectChanged sources src.id (text id) t)
          src.id (text id) t ↔
        n'.strObjectNotifyUrl.length ≠ 0 ∧
          (Watched n' src.id (text id) ∨ .addObjectNotify src.id (text id) ∈ between))) ∧
    ∀ object : String, ((∃ id, object = braced id) ∨ IsUnbraced object) →
      (RegistersSame object ↔ object ≠ "" ∧ IsUnbraced object) := by
  constructor
  · intro resolveUrl findClass processRequest path model id route n n' between sources src objects t
      hserved hreturned _
    exact shown_reported_iff hwalk resolveUrl hserved hreturned between sources src.id objects t
  · intro object h
    exact registersSame_iff_unbraced h

/-- A page shows the object 12 of Contact. -/
def shown (n : Notify) : Notify :=
  (dispatch (fun _ => true) (fun _ n => (true, n)) "/app/Contact/{12}/show" n).2

/-- The page has registered its object by the id of its source as well. -/
theorem shown_object_watched_twice :
    Reported (fun es => es) (fun url => url) .empty
      (([Call.addObjectNotify 1 (text "12")].foldl (Call.run (fun es => es) (fun url => url))
        (shown { strObjectNotifyUrl := "/app/notify" })).onObjectChanged [sampleSource] 1
          (text "12") .enUpdate) 1 (text "12") .enUpdate ∧
    RegistersSame "12" :=
  ⟨((shown_object_watched_iff (fun es => es) (fun es => List.Perm.refl es)).1 (fun url => url)
      (fun _ => true) (fun _ n => (true, n)) "/app/Contact/{12}/show" "Contact" "12"
      ⟨"app", "Contact", some "show", some "{12}"⟩ { strObjectNotifyUrl := "/app/notify" }
      { strObjectNotifyUrl := "/app/notify" } [.addObjectNotify 1 (text "12")] [sampleSource]
      sampleSource .empty .enUpdate (by decide +kernel) rfl rfl).mpr
      ⟨by decide, Or.inr List.mem_cons_self⟩,
    ((shown_object_watched_iff (fun es => es) (fun es => List.Perm.refl es)).2 "12"
      (Or.inr (by unfold IsUnbraced; decide))).mpr
      ⟨by decide, by unfold IsUnbraced; decide⟩⟩

/-- The page shows the object, which changes, and nothing is reported; the id 1 is registered as
the empty text. -/
theorem shown_object_not_reported :
    ¬Reported (fun es => es) (fun url => url) .empty
      ((shown { strObjectNotifyUrl := "/app/notify" }).onObjectChanged [sampleSource] 1
        (text "12") .enUpdate) 1 (text "12") .enUpdate ∧
    ¬RegistersSame "{1}" := by
  constructor
  · rintro ⟨hpush, -⟩
    revert hpush
    decide +kernel
  · intro h
    have hid := (h {} {} "Contact").2
    revert hid
    decide +kernel

end Rhodes.ShownObjects
