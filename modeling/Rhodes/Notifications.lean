import Rhodes.Source
import Rhodes.TwoLevel
import Rhodes.Uri

/-!
CSyncNotify of SyncNotify.cpp. The tables of the class are std::map, so they are walked in
the order of their keys. Each function below is what one synchronized block does; the
statements of a thread that calls several of them stand in `NotifyThread`.
-/
namespace Rhodes.Notifications

open Std (TreeMap)
open Database Statements Source

/-- The fields of CSyncNotification. `obj` is the number of the object, not a field. -/
structure SyncNotification where
  obj : Nat
  url : String
  params : String
  deriving DecidableEq

/-- The fields of CSyncNotify. A type `none` is enNone, and `nextObj` counts the
CSyncNotification objects made so far. -/
structure SyncNotify where
  strObjectNotifyUrl : String := ""
  hashSrcIDAndObject : TwoLevel.Table Int String (Option NotifyType) := ∅
  hashCreateObjectErrors : TwoLevel.Table Int String String := ∅
  strSingleObjectSrcName : String := ""
  strSingleObjectID : String := ""
  hashSrcObjectCount : TreeMap Int Int := ∅
  mapSyncNotifications : TreeMap Int SyncNotification := ∅
  nextObj : Nat := 0

/-- What one object adds to the body of an object notification. -/
structure ObjectChange where
  type : NotifyType
  src : Int
  object : String
  deriving DecidableEq

def ObjectChange.text (c : ObjectChange) : String :=
  let name := match c.type with
    | .enDelete => "deleted"
    | .enUpdate => "updated"
    | .enCreate => "created"
  name ++ "[][object]=" ++ c.object ++ "&" ++ name ++ "[][source_id]=" ++ toString c.src

namespace SyncNotify

def addObjectNotify (n : SyncNotify) (nSrcID : Int) (strObject : String) : SyncNotify :=
  { n with hashSrcIDAndObject := TwoLevel.put n.hashSrcIDAndObject nSrcID strObject none }

/-- `strObject[0] == '\x7b' ? strObject.substr(1,strObject.length()-2) : strObject`; where
only the brace is there, the length wraps and substr takes what is left, which is nothing. -/
def stripBraces (strObject : String) : String :=
  match strObject.toList with
  | '\x7b' :: rest => String.ofList (rest.take (rest.length - 1))
  | _ => strObject

/-- The subscription by the name of a source is kept in one place for both. -/
def addObjectNotifyByName (n : SyncNotify) (strSrcName strObject : String) : SyncNotify :=
  { n with strSingleObjectSrcName := strSrcName, strSingleObjectID := stripBraces strObject }

def cleanObjectNotifications (n : SyncNotify) : SyncNotify :=
  { n with strSingleObjectSrcName := "", strSingleObjectID := "", hashSrcIDAndObject := ∅ }

def cleanCreateObjectErrors (n : SyncNotify) : SyncNotify := { n with hashCreateObjectErrors := ∅ }

/-- CSyncEngine::findSourceByName over the loaded sources. -/
def findSourceByName (sources : List SyncSource) (strSrcName : String) : Option SyncSource :=
  sources.find? (fun src => src.name = strSrcName)

def processSingleObject (n : SyncNotify) (sources : List SyncSource) : SyncNotify :=
  if n.strSingleObjectSrcName.length = 0 then n
  else
    let added := match findSourceByName sources n.strSingleObjectSrcName with
      | some src => n.addObjectNotify src.id n.strSingleObjectID
      | none => n
    { added with strSingleObjectSrcName := "", strSingleObjectID := "" }

def onObjectChanged (n : SyncNotify) (sources : List SyncSource) (nSrcID : Int)
    (strObject : String) (nType : NotifyType) : SyncNotify :=
  let n := n.processSingleObject sources
  match n.hashSrcIDAndObject[nSrcID]? with
  | none => n
  | some hashObject =>
      if hashObject.contains strObject then
        { n with hashSrcIDAndObject :=
            n.hashSrcIDAndObject.insert nSrcID (hashObject.insert strObject (some nType)) }
      else n

/-- SELECT object FROM object_values where object=?, which does not ask for the source. -/
def objectRemains (objects : ObjectTable) (object : String) : Bool :=
  objects.rows.any (fun r => r.object = some object)

/-- The type under which a change is reported. -/
def reportedType (objects : ObjectTable) (object : String) (nNotifyType : NotifyType) :
    NotifyType :=
  if nNotifyType = .enDelete ∧ objectRemains objects object = true then .enUpdate else nNotifyType

/-- One turn of the inner loop of fireObjectsNotification: the body so far and the tables. -/
def fireObject (objects : ObjectTable) (nSrcID : Int) (acc : List ObjectChange × SyncNotify)
    (itObject : String × Option NotifyType) : List ObjectChange × SyncNotify :=
  match itObject.2 with
  | none => acc
  | some nNotifyType =>
      (acc.1 ++ [⟨reportedType objects itObject.1 nNotifyType, nSrcID, itObject.1⟩],
        acc.2.addObjectNotify nSrcID itObject.1)

/-- The parts of the body, and the tables with every reported type reset to enNone. -/
def fireObjects (n : SyncNotify) (objects : ObjectTable) : List ObjectChange × SyncNotify :=
  n.hashSrcIDAndObject.toList.foldl
    (fun acc it => it.2.toList.foldl (fireObject objects it.1) acc) ([], n)

/-- strBody, with an ampersand before every part but the first. -/
def objectsBody (changes : List ObjectChange) : String :=
  "&".intercalate (changes.map ObjectChange.text)

/-- The URL and the body that are pushed, `none` where nothing is. -/
def fireObjectsNotification (n : SyncNotify) (resolveUrl : String → String)
    (objects : ObjectTable) : Option (String × String) × SyncNotify :=
  if n.strObjectNotifyUrl.length = 0 then (none, n)
  else
    let (changes, fired) := n.fireObjects objects
    (if changes.isEmpty then none
      else some (resolveUrl n.strObjectNotifyUrl, objectsBody changes), fired)

def setObjectNotifyUrl (n : SyncNotify) (strUrl : String) : SyncNotify :=
  { n with strObjectNotifyUrl := strUrl }

def addCreateObjectError (n : SyncNotify) (nSrcID : Int) (strObject strError : String) :
    SyncNotify :=
  { n with hashCreateObjectErrors :=
      TwoLevel.put n.hashCreateObjectErrors nSrcID strObject strError }

/-- The errors of the source are cleared, and its table stays. -/
def makeCreateObjectErrorBody (n : SyncNotify) (nSrcID : Int) : String × SyncNotify :=
  match n.hashCreateObjectErrors[nSrcID]? with
  | none => ("", n)
  | some hashErrors =>
      (hashErrors.toList.foldl (fun strBody itError =>
          strBody ++ "&create_error[][object]=" ++ itError.1 ++
            "&create_error[][error_message]=" ++ itError.2) "",
        { n with hashCreateObjectErrors := n.hashCreateObjectErrors.insert nSrcID ∅ })

def cleanLastSyncObjectCount (n : SyncNotify) : SyncNotify := { n with hashSrcObjectCount := ∅ }

def getLastSyncObjectCount (n : SyncNotify) (nSrcID : Int) : Int :=
  n.hashSrcObjectCount.getD nSrcID 0

def incLastSyncObjectCount (n : SyncNotify) (nSrcID : Int) : SyncNotify :=
  { n with hashSrcObjectCount :=
      n.hashSrcObjectCount.insert nSrcID (n.getLastSyncObjectCount nSrcID + 1) }

/-- `m_mapSyncNotifications.put( source_id, new CSyncNotification( strFullUrl, strParams ) )` -/
def putSyncNotification (n : SyncNotify) (strFullUrl strParams : String) (source_id : Int) :
    SyncNotify :=
  { n with
    mapSyncNotifications :=
      n.mapSyncNotifications.insert source_id ⟨n.nextObj, strFullUrl, strParams⟩
    nextObj := n.nextObj + 1 }

/-- `rows` is what SELECT source_id from sources order by source_id finds. -/
def setSyncNotification (n : SyncNotify) (resolveUrl : String → String) (rows : List Int)
    (source_id : Int) (strUrl strParams : String) : SyncNotify :=
  let strFullUrl := resolveUrl strUrl
  if source_id = -1 then
    let cleared := { n with mapSyncNotifications := ∅ }
    if strFullUrl.length > 0 then
      rows.foldl (fun n id => n.putSyncNotification strFullUrl strParams id) cleared
    else cleared
  else if strFullUrl.length > 0 then n.putSyncNotification strFullUrl strParams source_id
  else n

def clearSyncNotification (n : SyncNotify) (source_id : Int) : SyncNotify :=
  { n with mapSyncNotifications := n.mapSyncNotifications.erase source_id }

/-- The status of a sync notification, with the create errors of a source that is done. -/
def statusText (n : SyncNotify) (src : SyncSource) (stopped bFinish : Bool) (nErrCode : Nat) :
    String × SyncNotify :=
  if bFinish then
    let (errors, n) := n.makeCreateObjectErrorBody src.id
    let status :=
      if nErrCode = ErrCode.errNone.val then "ok"
      else "error&error_code=" ++
        toString (if stopped then ErrCode.errCancelByUser.val else nErrCode) ++
        "&error_message=" ++ Uri.urlEncoded src.error
    (status ++ errors, n)
  else ("in_progress", n)

/-- The body of a sync notification up to the parameters of the registration. -/
def syncBodyText (n : SyncNotify) (src : SyncSource) (status : String) : String :=
  "total_count=" ++ toString src.totalCount ++
    "&processed_count=" ++ toString src.curPageCount ++
    "&processed_objects_count=" ++ toString (n.getLastSyncObjectCount src.id) ++
    "&cumulative_count=" ++ toString (src.inserted + src.deleted) ++
    "&source_id=" ++ toString src.id ++
    "&source_name=" ++ src.name ++
    "&status=" ++ status

def paramsText (sn : SyncNotification) : String :=
  if sn.params.length > 0 then "&" ++ sn.params else ""

/-- The synchronized block of doFireSyncNotification for the registration it finds. -/
def makeSyncBody (n : SyncNotify) (src : SyncSource) (stopped bFinish : Bool) (nErrCode : Nat)
    (sn : SyncNotification) : String × SyncNotify :=
  let status := n.statusText src stopped bFinish nErrCode
  (n.syncBodyText src status.1 ++ paramsText sn, status.2)

end SyncNotify

end Rhodes.Notifications
