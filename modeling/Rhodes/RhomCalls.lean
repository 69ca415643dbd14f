import Rhodes.RhomDeletes

/-!
save, update_attributes, destroy and delete_all of rhom_object_factory.rb as calls on the
connection of rhom_db_adapter.rb: the texts that they give to SQLite, any of which may be refused,
the transaction around them, the mutex and the vars of the object. CDBAdapter only logs that BEGIN
or END is refused. update_attributes asks the object for its attributes with self.send, which
calls a method of the object where it has one of this name.
-/
namespace Rhodes.RhomCalls

open Database SqlTables RhomSql

/-- What ends a call early: a statement that SQLite refuses, merge! on nil, or what a method of the
object raises. -/
inductive Exn where
  | sqlError
  | noMethod
  | raised
  deriving DecidableEq

/-- What END does: it may leave the transaction open, or roll it back. -/
inductive Ends where
  | committed
  | busy
  | rolledBack
  deriving DecidableEq

/-- SQLite during a call: the statements that it refuses, by their number, whatever they are, and
how BEGIN and END go. -/
structure Sqlite where
  engine : Engine
  fails : Nat → Bool
  begins : Bool
  ends : Ends

/-- The tables, what they were at BEGIN while a transaction is open, `@@inside_transaction`, how
often the mutex is locked, the statements that were executed and those that were refused,
`@@g_base_temp_id`, and the vars of the object. -/
structure Conn where
  tables : Tables
  began : Option Tables
  insideTransaction : Bool
  locks : Nat
  executed : Nat
  refused : Nat
  tempId : Nat
  vars : List (String × Option String)

abbrev M := EStateM Exn Conn

section Adapter

variable (db : Sqlite)

/-- BEGIN IMMEDIATE, which SQLite refuses inside a transaction. -/
def Conn.begin (c : Conn) : Conn :=
  match c.began with
  | some _ => { c with refused := c.refused + 1 }
  | none => if db.begins then { c with began := some c.tables }
    else { c with refused := c.refused + 1 }

/-- END. -/
def Conn.end (c : Conn) : Conn :=
  match c.began, db.ends with
  | none, _ => { c with refused := c.refused + 1 }
  | some _, .committed => { c with began := none }
  | some _, .busy => { c with refused := c.refused + 1 }
  | some t, .rolledBack => { c with tables := t, began := none, refused := c.refused + 1 }

/-- ROLLBACK, which SQLite refuses outside a transaction. -/
def Conn.rollback (c : Conn) : Conn :=
  match c.began with
  | none => { c with refused := c.refused + 1 }
  | some t => { c with tables := t, began := none }

def lock : M Unit := modify (fun c => { c with locks := c.locks + 1 })

def unlock : M Unit := modify (fun c => { c with locks := c.locks - 1 })

def startTransaction : M Unit := do
  modify (fun c => { c with insideTransaction := true })
  lock
  modify (Conn.begin db)

/-- What rho_db_commitUITransaction returns is always 0. -/
def commit : M Int := do
  modify (fun c => { c with insideTransaction := false })
  modify (Conn.end db)
  unlock
  return 0

def rollback : M Int := do
  modify (fun c => { c with insideTransaction := false })
  modify Conn.rollback
  unlock
  return 0

/-- Database#execute. -/
def execute (sql : String) (args : List (Option String)) : M (List Row) := fun c =>
  match if db.fails c.executed then none else db.engine sql args c.tables with
  | none => .error .sqlError { c with executed := c.executed + 1, refused := c.refused + 1 }
  | some (rows, tables) => .ok rows { c with tables, executed := c.executed + 1 }

def executeSql (sql : String) (args : List (Option String)) : M (List Row) :=
  tryCatch
    (do
      if !(← get).insideTransaction then lock
      let result ← execute db sql args
      if !(← get).insideTransaction then unlock
      pure result)
    (fun e => do
      if (← get).insideTransaction then throw e
      else
        unlock
        pure [])

/-- The statements between start_transaction and commit, rolled back by a rescue: what commit or
rollback returns. -/
def transaction (body : M Unit) : M Int :=
  tryCatch
    (do
      startTransaction db
      body
      commit db)
    (fun _ => rollback)

end Adapter

section Vars

def generateId : M Nat := fun c => .ok (c.tempId + 1) { c with tempId := c.tempId + 1 }

def assign (vars : List (String × Option String)) (name : String) (value : Option String) :
    List (String × Option String) :=
  if vars.any (fun v => v.1 = name) then
    vars.map (fun v => if v.1 = name then (name, value) else v)
  else vars ++ [(name, value)]

/-- method_missing without arguments, which takes a name with = in it for a setter. -/
def methodMissing (name : String) : M (Option String) := do
  let varname := String.ofList (name.toList.filter (fun c => c ≠ '='))
  if '=' ∈ name.toList then
    modify (fun c => { c with vars := assign c.vars varname none })
    return none
  else return Rhom.getVar (← get).vars varname

end Vars

/-- The class of an object: its source, whether that source has the type "ask", and the methods of
its objects. -/
structure Model where
  sourceId : Int
  askSource : Bool
  own : String → Option Rhom.Sent

/-- self.send without arguments. -/
def send (m : Model) (name : String) : M (Option String) :=
  match m.own name with
  | none => methodMissing name
  | some .raises => throw .raised
  | some (.answers value) => return value

/-- get_source_id and get_inst_source_id. -/
def Model.src (m : Model) : String := toString m.sourceId

def Model.updateType (m : Model) (t : UpdateType) : Option String :=
  (Rhom.getUpdateTypeBySource m.askSource t).map UpdateType.text

/-- `inst_strip_braces(self.object)`. -/
def Conn.obj (c : Conn) : Option String := (Rhom.getVar c.vars "object").map Rhom.stripBraces

section Bodies

variable (db : Sqlite) (m : Model)

/-- The condition on the rows of an attribute. -/
def attribRows (obj : Option String) (key : String) : List (String × Option String) :=
  [("object", obj), ("attrib", some key), ("source_id", some m.src)]

/-- Only one update at a time: the update_type of a row that is not sent replaces the one of the
call, and the unsent row of the attribute goes. -/
def takePending (pending : List (String × Option String)) (obj : Option String) (key : String)
    (updateType : Option String) : M (Option String) := do
  let resUpdateType ← executeSql db (selectFromTable "changed_values" "update_type"
    (some (pending ++ [("sent", some "0")])) none []) []
  match resUpdateType with
  | [] => return updateType
  | row :: _ =>
    let _ ← executeSql db (deleteFromTable "changed_values"
      (attribRows m obj key ++ [("sent", some "0")])) []
    return cell row "update_type"

/-- The body of the loop over vars in save. -/
def saveAttrib (obj updateType : Option String) (var : String × Option String) : M Unit := do
  let key := var.1
  if Rhom.methodNameReserved key then return
  let val := Rhom.stripBraces (var.2.getD "")
  let attribType := if key = "image_uri" then [("attrib_type", some "blob.file")] else []
  let fields := [("source_id", some m.src), ("object", obj), ("attrib", some key),
    ("value", some val)]
  let resValue ← executeSql db (selectFromTable "object_values" "value,id"
    (some (attribRows m obj key)) none []) []
  match resValue with
  | row :: _ =>
    if Rhom.isModified (cell row "value") val then
      let updateType ← takePending db m (attribRows m obj key) obj key updateType
      let _ ← executeSql db (insertIntoTable "changed_values"
        (fields ++ [("update_type", updateType)] ++ attribType ++
          [("main_id", cell row "id")])) []
      let _ ← executeSql db (updateIntoTable "object_values" [("value", some val)]
        (some (attribRows m obj key))) []
  | [] =>
    let tmpId ← generateId
    let _ ← executeSql db (insertIntoTable "changed_values"
      (fields ++ [("update_type", updateType)] ++ attribType ++
        [("main_id", some (toString tmpId))])) []
    let _ ← executeSql db (insertIntoTable "object_values"
      (fields ++ attribType ++ [("id", some (toString tmpId))])) []

def saveBody (obj : Option String) (vars : List (String × Option String)) : M Unit := do
  let result ← executeSql db
    "SELECT object FROM object_values WHERE object=? AND source_id=? LIMIT 1 OFFSET 0"
    [obj, some m.src]
  let updateType := if result.length > 0 then m.updateType .update else m.updateType .create
  vars.forM (saveAttrib db m obj updateType)

/-- What update_attributes does with a modified attribute; its result is update_type. -/
def updateModified (obj : Option String) (attrib newVal : String) (updateType : Option String) :
    M (Option String) := do
  let updateType ← takePending db m [("object", obj), ("source_id", some m.src)] obj attrib
    updateType
  let fields := [("source_id", some m.src), ("object", obj), ("attrib", some attrib),
    ("value", some newVal)]
  let result ← executeSql db (selectFromTable "object_values" "id"
    (some (attribRows m obj attrib)) none []) []
  match result with
  | row :: _ =>
    let _ ← executeSql db (updateIntoTable "object_values" [("value", some newVal)]
      (some (attribRows m obj attrib))) []
    let _ ← executeSql db (insertIntoTable "changed_values"
      ([("main_id", cell row "id")] ++ fields ++ [("update_type", updateType)])) []
  | [] =>
    let tmpId ← generateId
    let _ ← executeSql db (insertIntoTable "object_values"
      ([("id", some (toString tmpId))] ++ fields)) []
    let _ ← executeSql db (insertIntoTable "changed_values"
      ([("main_id", some (toString tmpId))] ++ fields ++ [("update_type", updateType)])) []
  modify (fun c => { c with vars := assign c.vars attrib (some newVal) })
  return updateType

/-- The body of the loop over attrs in update_attributes. -/
def updateAttrib (obj updateType : Option String) (attr : String × Option String) :
    M (Option String) := do
  let attrib := Rhom.attribName attr.1
  if Rhom.methodNameReserved attrib then return updateType
  let oldVal ← send m attrib
  let newVal := Rhom.stripBraces (attr.2.getD "")
  if Rhom.isModified oldVal newVal then updateModified db m obj attrib newVal updateType
  else return updateType

def updateBody (obj : Option String) (attrs : List (String × Option String)) : M Unit := do
  let _ ← attrs.foldlM (updateAttrib db m obj) (m.updateType .update)

def destroyBody (obj : String) : M Unit := do
  let _ ← executeSql db (deleteFromTable "object_values" [("object", some obj)]) []
  let resUpdateType ← executeSql db (selectFromTable "changed_values" "update_type" (some
    [("object", some obj), ("update_type", some "create"), ("sent", some "0")]) none []) []
  let updateType := if resUpdateType.length > 0 then none else m.updateType .delete
  let _ ← executeSql db (deleteFromTable "changed_values"
    [("object", some obj), ("sent", some "0")]) []
  match updateType with
  | none => return
  | some t =>
    let _ ← executeSql db (insertIntoTable "changed_values" [("source_id", some m.src),
      ("object", some obj), ("update_type", some t)]) []

def deleteObject (obj : Row) : M Unit := do
  let _ ← executeSql db (deleteFromTable "object_values" [("object", cell obj "object")]) []
  let _ ← executeSql db (deleteFromTable "changed_values" [("object", cell obj "object")]) []

/-- The argument of delete_all may be nil, and so may what it has under :conditions. -/
def deleteAllBody (conditions : Option (Option (List (String × String)))) : M Unit := do
  match conditions with
  | some none => throw .noMethod
  | some (some conditions) =>
    let delObjects ← executeSql db (selectFromTable "object_values" "object"
      (some (RhomDeletes.getConditionsHash conditions ++ [("source_id", some m.src)]))
      (some ⟨true, none⟩) []) []
    delObjects.forM (deleteObject db)
  | none =>
    let _ ← executeSql db (deleteFromTable "object_values" [("source_id", some m.src)]) []
    let _ ← executeSql db (deleteFromTable "changed_values" [("source_id", some m.src)]) []

end Bodies

section Operations

variable (db : Sqlite) (m : Model)

/-- A value of Ruby. -/
inductive Value where
  | bool (b : Bool)
  | int (n : Int)
  deriving DecidableEq

def save : M Value := do
  let c ← get
  let _ ← transaction db (saveBody db m c.obj c.vars)
  return .bool true

def updateAttributes (attrs : List (String × Option String)) : M Value := do
  let c ← get
  let _ ← transaction db (updateBody db m c.obj attrs)
  return .bool true

def destroy : M Value := do
  match (← get).obj with
  | none => return .bool true
  | some obj =>
    let _ ← transaction db (destroyBody db m obj)
    return .bool true

def deleteAll (conditions : Option (Option (List (String × String)))) : M Value := do
  return .int (← transaction db (deleteAllBody db m conditions))

/-- A call, with its arguments. -/
inductive Op where
  | save
  | updateAttributes (attrs : List (String × Option String))
  | destroy
  | deleteAll (conditions : Option (Option (List (String × String))))

def Op.call : Op → M Value
  | .save => RhomCalls.save db m
  | .updateAttributes attrs => RhomCalls.updateAttributes db m attrs
  | .destroy => RhomCalls.destroy db m
  | .deleteAll conditions => RhomCalls.deleteAll db m conditions

end Operations

end Rhodes.RhomCalls
