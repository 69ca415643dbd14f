import Rhodes.RhomSql
import Rhodes.SqlTables
import Rhodes.SortBlock

/-!
find, find_bycondhash and paginate of rhom_object_factory.rb, with the texts that they give to
SQLite. A conditions hash is a list in its order; what a call leaves of the caller's hash is a part
of the result. Conditions that are a text or an array, or that stand beside an object id, are not
modelled.
-/
namespace Rhodes.RhomFind

open Database SqlTables RhomSql

section Objects

/-- The vars of an object in the order of the hash. -/
abbrev Vars := List (String × Option String)

/-- `vars.merge!( { name => value } )`. -/
def mergeVar (vars : Vars) (name : String) (value : Option String) : Vars :=
  if vars.any (fun v => v.1 = name) then vars.map (fun v => if v.1 = name then (name, value) else v)
  else vars ++ [(name, value)]

/-- The object field, always with surrounding braces. -/
def braced (obj : Option String) : String := "\x7b" ++ obj.getD "" ++ "\x7d"

/-- The vars of a new object with this id. -/
def newVars (src : Int) (obj : Option String) : Vars :=
  [("object", some (braced obj)), ("source_id", some (toString src))]

/-- The block of sort!, which calls the block of find. -/
def orderBlock (order dir : String) (block : Option (String → String → Int)) (x y : Vars) : Int :=
  SortBlock.compareVars block dir (Rhom.getVar x order) (Rhom.getVar y order)

/-- Array#slice, which is nil past the end. -/
def slice {α : Type} (l : List α) (start len : Nat) : Option (List α) :=
  if start > l.length then none else some ((l.drop start).take len)

end Objects

section Arguments

/-- The first argument of find. -/
inductive Target where
  | all
  | first
  | count
  | id (object : String)
  deriving DecidableEq

abbrev Conditions := List (CondKey × Option String)

/-- The hash that is the second argument of find, without its conditions. -/
structure FindArgs where
  perPage : Option Nat
  offset : Option Nat
  select : Option (List String)
  order : Option String
  orderdir : Option String
  op : Option String

/-- What find returns: the list may be nil. -/
inductive Found where
  | objects (l : Option (List Vars))
  | object (o : Option Vars)
  | count (n : Nat)

def FindArgs.opText (args : FindArgs) : String := (args.op.map String.toUpper).getD "AND"

def FindArgs.dir (args : FindArgs) : String := (args.orderdir.map String.toUpper).getD ""

/-- The hash after its first loop, which takes nil values out of it when all conditions are to
hold. -/
def afterFind (op : String) (conds : Conditions) : Conditions :=
  if op = "AND" then conds.filter (fun c => c.2.isSome) else conds

def nullsCond (op : String) (conds : Conditions) : Conditions :=
  if op = "AND" then conds.filter (fun c => c.2.isNone) else []

def limitText (limit offset : Nat) : String :=
  " LIMIT " ++ toString limit ++ " OFFSET " ++ toString offset

end Arguments

section Texts

/-- A SELECT behind the ones that are in the text. -/
def addSelect (sep sql select : String) : String :=
  (if sql.length > 0 then sql ++ sep else sql) ++ select

def intersectText (conds : Conditions) (srcidValue strLimit : String) : String :=
  conds.foldl (fun sql kv => addSelect "\nINTERSECT\n" sql
    ("SELECT object FROM object_values WHERE \n" ++ makeCondWhere kv.1 kv.2 srcidValue ++
      strLimit)) ""

def distinctText (srcidValue strLimit : String) : String :=
  "SELECT distinct object FROM object_values WHERE \n" ++ "source_id=" ++ srcidValue ++ strLimit

def orText (kv : CondKey × Option String) (srcidValue : String) : String :=
  "SELECT object,attrib,value FROM object_values WHERE \n" ++ makeCondWhere kv.1 kv.2 srcidValue

def nullText : String :=
  "SELECT value FROM object_values WHERE \n" ++ "object=?" ++ " AND attrib=?" ++ " AND source_id=?"

def attribsText (attribs : List String) : String :=
  attribs.foldl (fun sql _ => addSelect "\nUNION ALL\n" sql
    ("SELECT attrib,value FROM object_values WHERE \n" ++ "object=?" ++ " AND attrib=?" ++
      " AND source_id=?")) ""

/-- `sql.chomp!` and `sql.chop!`. -/
def chompChop (sql : String) : String := upTo sql (sql.length - 3)

def attribColumn (a : String) : String :=
  "MAX(CASE WHEN attrib = '" ++ a ++ "' THEN value ELSE NULL END) AS \"" ++ a ++ "\",\n"

/-- An attribute with a column of its own. -/
def isColumn (a : String) : Bool := !(a.length = 0 || Rhom.methodNameReserved a)

def pivotText (attribs : List String) (whereCond : List (String × Option String))
    (order : Option (String × String)) (strLimit : String) : String :=
  chompChop (attribs.foldl (fun sql a => if isColumn a then sql ++ attribColumn a else sql)
    "SELECT object, \n") ++ " FROM object_values ov \n" ++ "where " ++
    whereStr (some whereCond) [] ++ "\n" ++ "group by object\n" ++
    (match order with
      | none => ""
      | some (attr, dir) => "order by \"" ++ attr ++ "\" " ++ dir) ++ strLimit

end Texts

section ByConditions

variable (E : Engine) (src : Int)

/-- What is bound for a key of the hash: a hash is not bound. -/
def keyArg : CondKey → Option String
  | .attrib name => some name
  | .hash _ _ _ => none

/-- The loop over nulls_cond for one object. -/
def nullsSkip : Conditions → Row → Tables → Option (Bool × Tables)
  | [], _, db => some (false, db)
  | (key, _) :: rest, obj, db => do
    let (attrVal, db) ← E nullText [cell obj "object", keyArg key, some (toString src)] db
    if (attrVal.head?.bind (fun row => cell row "value")).isSome then some (true, db)
    else nullsSkip rest obj db

/-- The loop over listAttrs; a nil has no to_sym. -/
def mergeAttribs (listAttrs : List Row) (vars : Vars) (nonExistAttrs : List String) :
    Option (Vars × List String) :=
  listAttrs.foldlM (fun st row => (cell row "attrib").map (fun attrName =>
    (mergeVar st.1 attrName (cell row "value"), st.2.filter (fun a => a ≠ attrName))))
    (vars, nonExistAttrs)

/-- execute_sql for a text that is not empty. -/
def executeIfAny (sql : String) (values : List (Option String)) (db : Tables) :
    Option (List Row × Tables) :=
  if sql.length > 0 then E sql values db else some ([], db)

/-- The attributes that are fetched: a row may have one already. -/
def nonExistAttrs (attribs : List String) (obj : Row) : List String :=
  match cell obj "attrib" with
  | some a => attribs.filter (fun b => b ≠ a)
  | none => attribs

/-- The new object with what the row has. -/
def objVars (obj : Row) : Vars :=
  match cell obj "attrib" with
  | some a => mergeVar (newVars src (cell obj "object")) a (cell obj "value")
  | none => newVars src (cell obj "object")

/-- The object of a row of listObjs. -/
def fetchObject (attribs : List String) (obj : Row) (db : Tables) : Option (Vars × Tables) := do
  let nonExistAttrs := nonExistAttrs attribs obj
  let sql := attribsText nonExistAttrs
  let values := nonExistAttrs.flatMap
    (fun attr => [cell obj "object", some attr, some (toString src)])
  let (listAttrs, db) ← executeIfAny E sql values db
  let (vars, nonExistAttrs) ← mergeAttribs listAttrs (objVars src obj) nonExistAttrs
  return (nonExistAttrs.foldl (fun vars a => mergeVar vars a none) vars, db)

/-- What the loop over listObjs looks at. -/
structure Loop where
  attribs : List String
  nulls : Conditions
  count : Bool
  /-- The objects in front that are not returned. -/
  skip : Nat
  /-- The number of objects that end the loop. -/
  stop : Option Nat

/-- The loop over listObjs, with nIndex, ret_list and nCount. -/
def walk (cfg : Loop) : List Row → Nat → List Vars → Nat → Tables →
    Option (List Vars × Nat × Tables)
  | [], _, ret, nCount, db => some (ret, nCount, db)
  | obj :: rest, nIndex, ret, nCount, db =>
    if nIndex < cfg.skip then walk cfg rest (nIndex + 1) ret nCount db
    else do
      let (bSkip, db) ← nullsSkip E src cfg.nulls obj db
      if bSkip then walk cfg rest (nIndex + 1) ret nCount db
      else if cfg.count then walk cfg rest (nIndex + 1) ret (nCount + 1) db
      else do
        let (vars, db) ← fetchObject E src cfg.attribs obj db
        let ret := ret ++ [vars]
        if cfg.stop.any (fun limit => ret.length ≥ limit) then some (ret, nCount + 1, db)
        else walk cfg rest (nIndex + 1) ret (nCount + 1) db

/-- The loop over resObjs: objects that are new, up to the number that is enough. -/
def addRecs (enough : Option Nat) : List Row → List Row → List Row × Bool
  | [], listObjs => (listObjs, false)
  | rec :: rest, listObjs =>
    if listObjs.any (fun r => cell r "object" = cell rec "object") then addRecs enough rest listObjs
    else if enough.any (fun n => listObjs.length + 1 ≥ n) then (listObjs ++ [rec], true)
    else addRecs enough rest (listObjs ++ [rec])

/-- The loop over the conditions of which one is to hold. -/
def orLoop (enough : Option Nat) (srcidValue : String) : Conditions → List Row → Tables →
    Option (List Row × Tables)
  | [], listObjs, db => some (listObjs, db)
  | kv :: rest, listObjs, db => do
    let (resObjs, db) ← E (orText kv srcidValue) [] db
    let (listObjs, bStop) := addRecs enough resObjs listObjs
    if bStop then some (listObjs, db) else orLoop enough srcidValue rest listObjs db

/-- The objects before the nil conditions and the paging in Ruby. -/
def selectObjs (op : String) (conds : Conditions) (strLimit : Option String) (enough : Option Nat)
    (db : Tables) : Option (List Row × Tables) :=
  let srcidValue := getValueForSqlStmt (some (toString src))
  if op = "OR" ∧ conds.length > 1 then orLoop E enough srcidValue conds [] db
  else if conds.length > 0 then E (intersectText conds srcidValue (strLimit.getD "")) [] db
  else E (distinctText srcidValue (strLimit.getD "")) [] db

/-- select_arr with the order attribute, or what SyncEngine.get_src_attrs gives. -/
def findAttribs (srcAttrs : List String) (args : FindArgs) : List String :=
  match args.select, args.order with
  | some select, some order => (select ++ [order]).eraseDups
  | some select, none => select
  | none, _ => srcAttrs

/-- The limit that goes into the SQL. -/
def strLimit (args : FindArgs) (limit : Option Nat) (offset : Nat) (conds nulls : Conditions) :
    Option String :=
  match args.order, limit with
  | none, some limit =>
    if conds.length ≤ 1 ∧ nulls.length = 0 then some (limitText limit offset) else none
  | _, _ => none

variable (srcAttrs : List String) (sort : (Vars → Vars → Int) → List Vars → List Vars)

def findLimit (target : Target) (args : FindArgs) : Option Nat :=
  if target = .first then some 1 else args.perPage

def findOffset (args : FindArgs) : Nat :=
  if args.perPage.isSome then args.offset.getD 0 else 0

/-- The transaction of find_bycondhash: ret_list and nCount. -/
def findObjects (target : Target) (args : FindArgs) (conds nulls : Conditions) (db : Tables) :
    Option (List Vars × Nat × Tables) :=
  let limit := findLimit target args
  let offset := findOffset args
  let strLimit := strLimit args limit offset conds nulls
  let unordered := args.order.isNone
  let enough := if unordered ∧ nulls.length = 0 then limit.map (fun l => offset + l) else none
  (selectObjs E src args.opText conds strLimit enough db).bind (fun r =>
    walk E src ⟨findAttribs srcAttrs args, nulls, decide (target = .count),
      if unordered ∧ strLimit.isNone then offset else 0, if unordered then limit else none⟩
      r.1 0 [] 0 r.2)

/-- The sorted list and its page; a nil list is told from one with no objects. -/
def orderPage (order : Option String) (dir : String) (block : Option (String → String → Int))
    (page : Option (Nat × Nat)) (ret : List Vars) : Option (List Vars) :=
  match order, page with
  | some order, some (limit, offset) => slice (sort (orderBlock order dir block) ret) offset limit
  | some order, none => some (sort (orderBlock order dir block) ret)
  | none, _ => some ret

def foundOf (target : Target) (ret : List Vars) (nCount : Nat) : Found :=
  match target with
  | .count => .count nCount
  | .first => .object ret.head?
  | _ => .objects (some ret)

/-- find_bycondhash behind its first loop; the length of a nil list is an exception. -/
def findSelected (target : Target) (args : FindArgs) (block : Option (String → String → Int))
    (conds nulls : Conditions) (db : Tables) : Option (Found × Tables) := do
  let (ret, nCount, db) ← findObjects E src srcAttrs target args conds nulls db
  let ret ← orderPage sort args.order args.dir block
    ((findLimit target args).map (fun limit => (limit, findOffset args))) ret
  return (foundOf target ret nCount, db)

/-- The caller's hash after the call, and the result or an exception. -/
def findBycondhash (target : Target) (args : FindArgs) (block : Option (String → String → Int))
    (conds : Conditions) (db : Tables) : Conditions × Option (Found × Tables) :=
  (afterFind args.opText conds, findSelected E src srcAttrs sort target args block
    (afterFind args.opText conds) (nullsCond args.opText conds) db)

end ByConditions

section Generic

variable (E : Engine) (src : Int) (srcAttrs : List String)
  (sort : (Vars → Vars → Int) → List Vars → List Vars)

/-- The object of a row of the horizontal result. -/
def rowVars (row : Row) : Vars :=
  mergeVar (row.foldl (fun vars kv => mergeVar vars kv.1 kv.2) (newVars src (cell row "object")))
    "object" (some (braced (cell row "object")))

/-- Outside a transaction execute_sql rescues an exception and returns no rows. -/
def executeRescued (sql : String) (db : Tables) : List Row × Tables := (E sql [] db).getD ([], db)

def whereCond (target : Target) : List (String × Option String) :=
  match target with
  | .id object => [("object", some (Rhom.stripBraces object)), ("source_id", some (toString src))]
  | _ => [("source_id", some (toString src))]

def countAll (db : Tables) : Nat :=
  (executeRescued E (selectFromTable "object_values" "object"
    (some [("source_id", some (toString src))]) (some ⟨true, none⟩) []) db).1.length

/-- The limit and the offset of find without conditions. -/
def paging (target : Target) (args : FindArgs) : Option (Nat × Nat) :=
  let offset := args.perPage.map (fun _ => args.offset.getD 0)
  match target with
  | .first => some (1, offset.getD 0)
  | .id _ => some (args.perPage.getD 1, offset.getD 0)
  | _ => args.perPage.map (fun k => (k, offset.getD 0))

/-- The rows of find without conditions. -/
def genericRows (target : Target) (args : FindArgs) (block : Option (String → String → Int))
    (db : Tables) : List Row × Tables :=
  let sorted := block.isSome && args.order.isSome
  let strLimit := if sorted then "" else
    ((paging target args).map (fun p => limitText p.1 p.2)).getD ""
  let attribs := args.select.getD srcAttrs
  let order := if block.isSome then none else args.order.map (fun a => (a, args.dir))
  if attribs.length > 0 then
    executeRescued E (pivotText attribs (whereCond src target) order strLimit) db
  else ([], db)

/-- The sorted list and its page, which may be nil. -/
def genericPage (args : FindArgs) (block : Option (String → String → Int))
    (page : Option (Nat × Nat)) (ret : List Vars) : Option (List Vars) :=
  let ret := match args.order with
    | some a => if block.isSome then sort (orderBlock a args.dir block) ret else ret
    | none => ret
  match args.order, page with
  | some _, some (limit, offset) => slice ret offset limit
  | _, _ => some ret

/-- find without conditions; nil has no length. -/
def findGeneric (target : Target) (args : FindArgs) (block : Option (String → String → Int))
    (db : Tables) : Option (Found × Tables) :=
  let list := genericRows E src srcAttrs target args block db
  let ret := if target = .count then [] else list.1.map (rowVars src)
  let ret := genericPage sort args block (paging target args) ret
  match target with
  | .count =>
    if (args.select.getD srcAttrs).length > 0 then some (.count list.1.length, list.2) else none
  | .all => some (.objects ret, list.2)
  | _ => ret.map (fun ret => (.object ret.head?, list.2))

/-- find with a conditions hash or none. -/
def find (target : Target) (args : Option FindArgs) (block : Option (String → String → Int))
    (conds : Option Conditions) (db : Tables) : Option Conditions × Option (Found × Tables) :=
  match target, args, conds with
  | .count, none, _ => (conds, some (.count (countAll E src db), db))
  | .id _, _, _ => (conds, findGeneric E src srcAttrs sort target
      (args.getD ⟨none, none, none, none, none, none⟩) block db)
  | _, some args, some conds =>
    let r := findBycondhash E src srcAttrs sort target args block conds db
    (some r.1, r.2)
  | _, _, _ => (conds, findGeneric E src srcAttrs sort target
      (args.getD ⟨none, none, none, none, none, none⟩) block db)

/-- paginate: ten objects on a page unless it is given. -/
def paginate (page : Option Nat) (args : FindArgs) (conds : Option Conditions) (db : Tables) :
    Option Conditions × Option (Found × Tables) :=
  let perPage := args.perPage.getD 10
  find E src srcAttrs sort .all
    (some { args with perPage := some perPage, offset := some (page.getD 0 * perPage) }) none
    conds db

end Generic

end Rhodes.RhomFind
