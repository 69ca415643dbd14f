import Rhodes.Cut
import Rhodes.Rhom

/-!
The paths that url_for of rhoviewhelpers.rb makes, and the two functions that take them
apart: _GetRoute of Dispatcher.c, which cuts the text at its slashes, and dispatch of
RhoConnection.java, which reads it with a UrlParser. A path has an application, a model and
at most two segments more; both functions tell an id by its braces. A char* is the text in
front of its NUL.
-/
namespace Rhodes.Routes

open Rhom Cut

/-- The keys of the request that url_for fills missing parameters from. -/
structure Request where
  application : String
  model : String

/-- The parameter hash of url_for; a key that is missing is nil. -/
structure UrlParams where
  application : Option String := none
  controller : Option String := none
  model : Option String := none
  action : Option String := none
  id : Option String := none
  query : Option (List (String × String)) := none
  fragment : Option String := none

/-- What url_for is called with: a string or a symbol, a hash, or anything else. -/
inductive UrlArgument where
  | text (s : String)
  | hash (params : UrlParams)
  | other

def applicationOf (request : Request) (params : UrlParams) : String :=
  params.application.getD request.application

def modelOf (request : Request) (params : UrlParams) : String :=
  (params.controller.or params.model).getD request.model

/-- One turn of the loop in query_to_s. -/
def addQuery (qstring : String) (entry : String × String) : String :=
  (if qstring.length > 1 then qstring ++ "&" else qstring) ++ urlEncode entry.1 ++ "=" ++
    urlEncode entry.2

def queryToS : Option (List (String × String)) → String
  | none => ""
  | some query => query.foldl addQuery "?"

def fragmentText : Option String → String
  | none => ""
  | some fragment => "#" ++ fragment

/-- `action.nil? or action == 'create' or action == 'index'` -/
def isDefaultAction : Option String → Bool
  | none => true
  | some action => action = "create" || action = "index"

/-- amurl without the query and the fragment. -/
def urlPath (request : Request) (params : UrlParams) : String :=
  "/" ++ applicationOf request params ++ "/" ++ modelOf request params ++
    (if isDefaultAction params.action then ""
      else "/" ++ match params.id with
        | none => params.action.getD ""
        | some id => id ++ "/" ++ params.action.getD "")

def urlFor (request : Request) : UrlArgument → String
  | .text s => s
  | .hash params => urlPath request params ++ queryToS params.query ++ fragmentText params.fragment
  | .other => "/"

/-- The fields of Route; `none` is the null pointer. -/
structure Route where
  application : String
  model : String
  action : Option String
  id : Option String
  deriving DecidableEq

/-- The test of _isid and of dispatch. -/
def isId (str : List Char) : Bool :=
  decide (str.length > 2) && str.head? = some '\x7b' && str.getLast? = some '\x7d'

/-- The text at the pointer after the cut, and the pointer that _tok returns. -/
def tok (t : List Char) : List Char × Option (List Char) :=
  (t.takeWhile (fun c => c ≠ '/'), match t.dropWhile (fun c => c ≠ '/') with
    | [] => none
    | _ :: s => some s)

/-- _GetRoute; `none` where it returns false. The last _tok cuts the text that the id or the
action points to. -/
def getRoute (url : String) : Option Route :=
  let url := match url.toList with
    | '/' :: rest => rest
    | rest => rest
  match tok url with
  | (_, none) => none
  | (application, some rest) => match tok rest with
    | (model, none) => some ⟨String.ofList application, String.ofList model, none, none⟩
    | (model, some rest) =>
        let (actionorid, next) := tok rest
        let next := next.map (fun next => String.ofList (tok next).1)
        if isId actionorid then
          some ⟨String.ofList application, String.ofList model, next,
            some (String.ofList actionorid)⟩
        else
          some ⟨String.ofList application, String.ofList model,
            some (String.ofList actionorid), next⟩

/-- `none` where charAt(0) throws; else what a new UrlParser has not read. -/
def urlParser (url : String) : Option (List Char) :=
  match url.toList with
  | [] => none
  | '/' :: rest => some rest
  | rest => some rest

/-- UrlParser.next on what is left at nStart; `none` is null. -/
def next (rest : List Char) : Option String × List Char :=
  if rest = [] then (none, [])
  else (some (String.ofList (rest.takeWhile (fun c => c ≠ '/'))),
    (rest.dropWhile (fun c => c ≠ '/')).drop 1)

/-- Character.toLowerCase(Character.toUpperCase(c)), as far as an ASCII letter comes out. -/
def foldCase (c : Char) : Char :=
  if c = '\u017F' then 's' else if c = '\u212A' then 'k'
  else if c = '\u0131' ∨ c = '\u0130' then 'i' else c.toLower

/-- String.equalsIgnoreCase with an ASCII text. -/
def equalsIgnoreCase (s t : String) : Bool := s.toList.map foldCase = t.toList.map foldCase

/-- What dispatch does with a path: it returns false, an extension answers, it throws, or it
calls the framework with a route and then registers an object of the model. -/
inductive Dispatched where
  | unhandled
  | extension
  | thrown
  | request (route : Route) (objectNotify : Option (String × String))
  deriving DecidableEq

/-- checkRhoExtensions -/
def checkRhoExtensions (application model : String) : Bool :=
  equalsIgnoreCase application "AppManager" ||
    equalsIgnoreCase application "system" && equalsIgnoreCase model "geolocation"

def controllerClass (application model : String) : String :=
  "apps/" ++ application ++ "/" ++ model ++ "/controller"

/-- The properties id and action, and the object to be registered. A property that is null is
left out of the hash. -/
def requestOf (application model : String) (actionid actionnext : Option String) : Dispatched :=
  match actionid with
  | none => .request ⟨application, model, none, none⟩ none
  | some actionid =>
      if actionid.length = 0 then .request ⟨application, model, none, none⟩ none
      else if isId actionid.toList then
        .request ⟨application, model, actionnext, some actionid⟩ (some (model, actionid))
      else .request ⟨application, model, some actionid, actionnext⟩ none

/-- dispatch; `findClass` tells which classes there are. -/
def dispatch (findClass : String → Bool) (path : String) : Dispatched :=
  match urlParser path with
  | none => .thrown
  | some rest => match next rest with
    | (none, _) => .thrown
    | (some apps, rest) =>
        let (application, rest) :=
          if equalsIgnoreCase apps "apps" then next rest else (some apps, rest)
        let (model, rest) := next rest
        match application, model with
        | some application, some model =>
            if model.length = 0 then .unhandled
            else if checkRhoExtensions application model then .extension
            else if findClass (controllerClass application model) then
              let (actionid, rest) := next rest
              requestOf application model actionid (next rest).1
            else .unhandled
        | _, _ => .unhandled

/-- Only an id in its braces is registered. -/
theorem isId_of_dispatch {findClass : String → Bool} {path model actionid : String} {route : Route}
    (h : dispatch findClass path = .request route (some (model, actionid))) :
    isId actionid.toList = true := by
  have hrequest : ∀ {application model' : String} {first second : Option String},
      requestOf application model' first second = .request route (some (model, actionid)) →
      isId actionid.toList = true := by
    intro application model' first second hreq
    unfold requestOf at hreq
    split at hreq
    · cases hreq
    · split at hreq
      · cases hreq
      · split at hreq
        · rename_i hid
          cases hreq
          exact hid
        · cases hreq
  unfold dispatch at h
  split at h
  · cases h
  · split at h
    · cases h
    · dsimp only at h
      split at h
      · split at h
        · cases h
        · split at h
          · cases h
          · split at h
            · exact hrequest h
            · cases h
      · cases h

section RoundTrip

/-- A name of an application, a model or an action. -/
structure IsName (s : String) : Prop where
  nonempty : s ≠ ""
  noSlash : '/' ∉ s.toList
  noQuery : '?' ∉ s.toList
  noFragment : '#' ∉ s.toList

/-- The form of an id. -/
def IsBraced (id : String) : Prop :=
  ∃ x : String, x ≠ "" ∧ '/' ∉ x.toList ∧ id = "\x7b" ++ x ++ "\x7d"

/-- An application whose paths dispatch does not take for something else. -/
def IsOrdinary (application : String) : Prop :=
  equalsIgnoreCase application "apps" = false ∧ equalsIgnoreCase application "AppManager" = false ∧
    equalsIgnoreCase application "system" = false

theorem IsName.toList_ne_nil {s : String} (h : IsName s) : s.toList ≠ [] := by
  intro hnil
  exact h.nonempty (String.toList_eq_nil_iff.mp hnil)

theorem IsBraced.isId {id : String} (h : IsBraced id) : isId id.toList = true := by
  obtain ⟨x, hne, -, rfl⟩ := h
  have hlen : 0 < x.toList.length := by
    rw [List.length_pos_iff]
    intro hnil
    exact hne (String.toList_eq_nil_iff.mp hnil)
  have htext : ("\x7b" ++ x ++ "\x7d").toList = '\x7b' :: (x.toList ++ ['\x7d']) := by simp
  have hlast : ('\x7b' :: (x.toList ++ ['\x7d'])).getLast? = some '\x7d' := by
    rw [← List.cons_append, List.getLast?_concat]
  have hlong : ('\x7b' :: (x.toList ++ ['\x7d'])).length > 2 := by
    simp only [List.length_cons, List.length_append, List.length_nil]
    omega
  rw [htext, Routes.isId, hlast, decide_eq_true hlong]
  rfl

theorem IsBraced.noSlash {id : String} (h : IsBraced id) : '/' ∉ id.toList := by
  obtain ⟨x, -, hx, rfl⟩ := h
  simpa using hx

theorem IsBraced.nonempty {id : String} (h : IsBraced id) : id.toList ≠ [] := by
  obtain ⟨x, -, -, rfl⟩ := h
  simp

/-! A segment and what follows it, in both languages. -/

theorem tok_segment {s : List Char} (h : '/' ∉ s) (rest : List Char) :
    tok (s ++ '/' :: rest) = (s, some rest) := by
  rw [tok, takeWhile_upTo h, dropWhile_upTo h]

theorem tok_last {s : List Char} (h : '/' ∉ s) : tok s = (s, none) := by
  have hdrop : s.dropWhile (fun c => c ≠ '/') = [] :=
    List.dropWhile_eq_nil_iff.mpr (keeps_of_not_mem h)
  rw [tok, takeWhile_ne h, hdrop]

theorem next_segment {s : String} (h : '/' ∉ s.toList) (rest : List Char) :
    next (s.toList ++ '/' :: rest) = (some s, rest) := by
  rw [next, if_neg (by simp), takeWhile_upTo h, dropWhile_upTo h, String.ofList_toList]
  rfl

theorem next_last {s : String} (hne : s.toList ≠ []) (h : '/' ∉ s.toList) :
    next s.toList = (some s, []) := by
  have hdrop : s.toList.dropWhile (fun c => c ≠ '/') = [] :=
    List.dropWhile_eq_nil_iff.mpr (keeps_of_not_mem h)
  rw [next, if_neg hne, takeWhile_ne h, hdrop, String.ofList_toList]
  rfl

/-- What url_for is given is a request for a route: the names are names, an action is not of
the form of an id, and an id is. -/
structure Routable (request : Request) (params : UrlParams) : Prop where
  application : IsName (applicationOf request params)
  model : IsName (modelOf request params)
  action : ∀ action, params.action = some action →
    IsName action ∧ isId action.toList = false
  id : ∀ id, params.id = some id → IsBraced id

/-- The route that the path of url_for stands for. -/
def routeOf (request : Request) (params : UrlParams) : Route :=
  if isDefaultAction params.action then
    ⟨applicationOf request params, modelOf request params, none, none⟩
  else ⟨applicationOf request params, modelOf request params, params.action, params.id⟩

/-- The segments behind the model. -/
def tailOf (params : UrlParams) (action : String) : List Char :=
  match params.id with
  | none => action.toList
  | some id => id.toList ++ '/' :: action.toList

/-- The forms of a path: without an action, or with one and what goes before it. -/
theorem urlPath_cases (request : Request) (params : UrlParams) :
    (routeOf request params = ⟨applicationOf request params, modelOf request params, none, none⟩ ∧
      (urlPath request params).toList = '/' :: ((applicationOf request params).toList ++
        '/' :: (modelOf request params).toList)) ∨
    ∃ action, params.action = some action ∧
      routeOf request params =
        ⟨applicationOf request params, modelOf request params, some action, params.id⟩ ∧
      (urlPath request params).toList = '/' :: ((applicationOf request params).toList ++
        '/' :: ((modelOf request params).toList ++ '/' :: tailOf params action)) := by
  cases hdefault : isDefaultAction params.action with
  | true =>
    left
    simp [routeOf, urlPath, hdefault]
  | false =>
    right
    cases haction : params.action with
    | none =>
      rw [haction] at hdefault
      cases hdefault
    | some action =>
      refine ⟨action, rfl, by rw [routeOf, hdefault, haction]; rfl, ?_⟩
      rw [urlPath, hdefault, haction]
      unfold tailOf
      cases params.id <;> simp

/-- _GetRoute takes the path of url_for apart into what it was made of. -/
theorem getRoute_urlPath {request : Request} {params : UrlParams} (h : Routable request params) :
    getRoute (urlPath request params) = some (routeOf request params) := by
  rcases urlPath_cases request params with ⟨hroute, htext⟩ | ⟨action, hname, hroute, htext⟩
  · rw [getRoute, htext, hroute]
    simp only [tok_segment h.application.noSlash, tok_last h.model.noSlash, String.ofList_toList]
  · obtain ⟨hact, hnot⟩ := h.action action hname
    rw [getRoute, htext, hroute]
    simp only [tok_segment h.application.noSlash, tok_segment h.model.noSlash,
      String.ofList_toList]
    unfold tailOf
    cases hid : params.id with
    | none => simp [tok_last hact.noSlash, hnot]
    | some id =>
      have hbraced := h.id id hid
      simp [tok_segment hbraced.noSlash, tok_last hact.noSlash, hbraced.isId]

/-- dispatch behind the part of the path that RhoConnection puts in front. -/
theorem dispatch_mounted {application : String} (h : '/' ∉ application.toList)
    (happs : equalsIgnoreCase application "apps" = false)
    (findClass : String → Bool) {path : String} {rest : List Char}
    (hpath : path.toList = '/' :: (application.toList ++ '/' :: rest)) :
    dispatch findClass ("/apps" ++ path) = dispatch findClass path := by
  have hmounted : ("/apps" ++ path).toList = '/' :: ("apps".toList ++ '/' ::
      (application.toList ++ '/' :: rest)) := by
    rw [String.toList_append, hpath]
    rfl
  have hself : equalsIgnoreCase "apps" "apps" = true := by decide
  have hnoSlash : '/' ∉ "apps".toList := by decide
  simp only [dispatch, urlParser, hmounted, hpath, next_segment hnoSlash, next_segment h, hself,
    happs, if_true, Bool.false_eq_true, if_false]

/-- dispatch calls the framework with the parts that the path of url_for was made of. -/
theorem dispatch_urlPath {request : Request} {params : UrlParams} (h : Routable request params)
    (hord : IsOrdinary (applicationOf request params)) (findClass : String → Bool)
    (hclass : findClass (controllerClass (applicationOf request params) (modelOf request params)) =
      true) :
    dispatch findClass (urlPath request params) = .request (routeOf request params)
      ((routeOf request params).id.map (fun id => (modelOf request params, id))) := by
  obtain ⟨happs, hmanager, hsystem⟩ := hord
  have hmodel : (modelOf request params).length ≠ 0 := by
    rw [← String.length_toList, List.length_eq_zero_iff.ne]
    exact h.model.toList_ne_nil
  have hextension : checkRhoExtensions (applicationOf request params) (modelOf request params) =
      false := by
    rw [checkRhoExtensions, hmanager, hsystem]
    rfl
  have hnil : next [] = (none, []) := rfl
  rcases urlPath_cases request params with ⟨hroute, htext⟩ | ⟨action, hname, hroute, htext⟩
  · simp only [dispatch, urlParser, htext, hroute, next_segment h.application.noSlash, happs,
      next_last h.model.toList_ne_nil h.model.noSlash, hmodel, hextension, hclass, hnil, if_true,
      Bool.false_eq_true, if_false]
    rfl
  · obtain ⟨hact, hnot⟩ := h.action action hname
    have hlen : action.length ≠ 0 := by
      rw [← String.length_toList, List.length_eq_zero_iff.ne]
      exact hact.toList_ne_nil
    simp only [dispatch, urlParser, htext, hroute, next_segment h.application.noSlash, happs,
      next_segment h.model.noSlash, hmodel, hextension, hclass, if_true, Bool.false_eq_true,
      if_false]
    unfold tailOf
    cases hid : params.id with
    | none => simp [next_last hact.toList_ne_nil hact.noSlash, hnil, requestOf, hlen, hnot]
    | some id =>
      have hbraced := h.id id hid
      have hidlen : id.length ≠ 0 := by
        rw [← String.length_toList, List.length_eq_zero_iff.ne]
        exact hbraced.nonempty
      simp [next_segment hbraced.noSlash, next_last hact.toList_ne_nil hact.noSlash, requestOf,
        hidlen, hbraced.isId]

/-- What stands in front of the query and the fragment of a URL. -/
def pathPart (url : String) : String :=
  String.ofList (url.toList.takeWhile (fun c => c ≠ '?' ∧ c ≠ '#'))

theorem queryToS_cases (query : Option (List (String × String))) :
    queryToS query = "" ∨ ∃ rest, (queryToS query).toList = '?' :: rest := by
  cases query with
  | none => exact Or.inl rfl
  | some query =>
    right
    have hfold : ∀ (entries : List (String × String)) (qstring : String),
        (∃ rest, qstring.toList = '?' :: rest) →
        ∃ rest, (entries.foldl addQuery qstring).toList = '?' :: rest := by
      intro entries
      induction entries with
      | nil => exact fun _ h => h
      | cons entry entries ih =>
        rintro qstring ⟨rest, hrest⟩
        apply ih
        unfold addQuery
        split <;> simp [hrest]
    exact hfold query "?" ⟨[], rfl⟩

/-- The query and the fragment are told from the path by their first characters. -/
theorem pathPart_urlFor {request : Request} {params : UrlParams} (h : Routable request params)
    (hid : ∀ id, params.id = some id → '?' ∉ id.toList ∧ '#' ∉ id.toList) :
    pathPart (urlFor request (.hash params)) = urlPath request params := by
  have hpath : ∀ c ∈ (urlPath request params).toList, c ≠ '?' ∧ c ≠ '#' := by
    have hname : ∀ {s : String}, IsName s → ∀ c ∈ s.toList, c ≠ '?' ∧ c ≠ '#' := by
      intro s hs c hc
      exact ⟨fun heq => hs.noQuery (heq ▸ hc), fun heq => hs.noFragment (heq ▸ hc)⟩
    have hslash : '/' ≠ '?' ∧ '/' ≠ '#' := by decide
    rcases urlPath_cases request params with ⟨-, htext⟩ | ⟨action, haction, -, htext⟩
    · rw [htext]
      simp only [List.forall_mem_cons, List.forall_mem_append]
      exact ⟨hslash, hname h.application, hslash, hname h.model⟩
    · have hact := hname (h.action action haction).1
      rw [htext]
      simp only [List.forall_mem_cons, List.forall_mem_append]
      refine ⟨hslash, hname h.application, hslash, hname h.model, hslash, ?_⟩
      unfold tailOf
      cases hgiven : params.id with
      | none => exact hact
      | some id =>
        simp only [List.forall_mem_cons, List.forall_mem_append]
        obtain ⟨hquery, hfragment⟩ := hid id hgiven
        exact ⟨fun c hc => ⟨fun heq => hquery (heq ▸ hc), fun heq => hfragment (heq ▸ hc)⟩,
          hslash, hact⟩
  have hrest : ((queryToS params.query).toList ++ (fragmentText params.fragment).toList).takeWhile
      (fun c => c ≠ '?' ∧ c ≠ '#') = [] := by
    rcases queryToS_cases params.query with hquery | ⟨rest, hquery⟩
    · rw [hquery]
      cases params.fragment <;> simp [fragmentText]
    · rw [hquery]
      simp
  rw [pathPart, urlFor, String.toList_append, String.toList_append, List.append_assoc,
    List.takeWhile_append_of_pos (by simpa using hpath), hrest, List.append_nil,
    String.ofList_toList]

/-- What url_for puts together, _GetRoute and dispatch take apart again, with the part that
RhoConnection puts in front and without it. In a URL with a query and a fragment the path is
what stands in front of these, unless the id has such a character. -/
theorem routes_round_trip (request : Request) (params : UrlParams) (h : Routable request params)
    (hord : IsOrdinary (applicationOf request params)) (findClass : String → Bool)
    (hclass : findClass (controllerClass (applicationOf request params) (modelOf request params)) =
      true) :
    getRoute (urlPath request params) = some (routeOf request params) ∧
    (∀ mount ∈ ["", "/apps"], dispatch findClass (mount ++ urlPath request params) =
      .request (routeOf request params)
        ((routeOf request params).id.map (fun id => (modelOf request params, id)))) ∧
    ((∀ id, params.id = some id → '?' ∉ id.toList ∧ '#' ∉ id.toList) →
      pathPart (urlFor request (.hash params)) = urlPath request params) := by
  have hdispatch := dispatch_urlPath h hord findClass hclass
  refine ⟨getRoute_urlPath h, ?_, pathPart_urlFor h⟩
  have hmounted : dispatch findClass ("/apps" ++ urlPath request params) =
      dispatch findClass (urlPath request params) := by
    rcases urlPath_cases request params with ⟨-, htext⟩ | ⟨action, -, -, htext⟩
    · exact dispatch_mounted h.application.noSlash hord.1 findClass htext
    · exact dispatch_mounted h.application.noSlash hord.1 findClass htext
  intro mount hmount
  simp only [List.mem_cons, List.not_mem_nil, or_false] at hmount
  rcases hmount with rfl | rfl
  · rw [String.empty_append, hdispatch]
  · rw [hmounted, hdispatch]

def sampleRequest : Request := ⟨"store", "Product"⟩

def showParams : UrlParams :=
  { action := some "show", id := some "\x7b12\x7d", query := some [("q", "a b")] }

theorem showParams_routable : Routable sampleRequest showParams := by
  have hname : ∀ s ∈ ["store", "Product", "show"], IsName s := by
    intro s hs
    simp only [List.mem_cons, List.not_mem_nil, or_false] at hs
    rcases hs with rfl | rfl | rfl
    all_goals exact ⟨by decide, by decide, by decide, by decide⟩
  refine ⟨hname _ (by decide), hname _ (by decide), ?_, ?_⟩
  · rintro action ⟨⟩
    exact ⟨hname _ (by decide), by decide⟩
  · rintro id ⟨⟩
    exact ⟨"12", by decide, by decide, by decide⟩

theorem routes_round_trip_show :
    urlFor sampleRequest (.hash showParams) = "/store/Product/\x7b12\x7d/show?q=a%20b" ∧
    getRoute (urlPath sampleRequest showParams) =
      some ⟨"store", "Product", some "show", some "\x7b12\x7d"⟩ ∧
    dispatch (fun c => c = "apps/store/Product/controller")
      ("/apps" ++ urlPath sampleRequest showParams) =
      .request ⟨"store", "Product", some "show", some "\x7b12\x7d"⟩
        (some ("Product", "\x7b12\x7d")) ∧
    pathPart (urlFor sampleRequest (.hash showParams)) = "/store/Product/\x7b12\x7d/show" := by
  obtain ⟨hroute, hdispatch, hpath⟩ := routes_round_trip sampleRequest showParams
    showParams_routable ⟨by decide, by decide, by decide⟩
    (fun c => c = "apps/store/Product/controller") (by decide)
  refine ⟨by decide +kernel, hroute, hdispatch "/apps" (by simp), (hpath ?_).trans (by decide)⟩
  rintro id ⟨⟩
  exact ⟨by decide, by decide⟩

end RoundTrip

end Rhodes.Routes
