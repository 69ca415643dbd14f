import Mathlib
import Rhodes.Source

/-!
destroy_table of DBAdapter.cpp and rb_destroy_table of DBAdapter.java: every other table is
copied row by row into a new database, which then takes the place of the old one. The C++
copy leaves the column "id" to the new database and compares the names of the tables as
they are written; the Java copy names all columns and ignores the case. Both empty the
attribute index first and the folder of the blobs at the end.
-/
namespace Rhodes.DestroyTable

open Source

/-- What the statements of the program leave in columns of INTEGER and TEXT affinity. -/
inductive Cell where
  | null
  | integer (n : Int)
  | text (s : String)
  deriving DecidableEq

inductive TableName where
  | clientInfo
  | objectValues
  | changedValues
  | sources
  deriving DecidableEq

def TableName.text : TableName → String
  | clientInfo => "client_info"
  | objectValues => "object_values"
  | changedValues => "changed_values"
  | sources => "sources"

/-- The tables in the order in which they are created. -/
def allTables : List TableName := [.clientInfo, .objectValues, .changedValues, .sources]

/-- A row with the names of its columns; a table has its rows in the order of their rowids. -/
abbrev Row := List (String × Cell)

/-- The columns of the tables with their defaults. -/
abbrev Schema := TableName → List (String × Cell)

/-- g_szDbSchema. -/
def cppSchema : Schema
  | .clientInfo => [("client_id", .null), ("token", .null), ("token_sent", .integer 0),
      ("reset", .integer 0), ("port", .null), ("last_sync_success", .null)]
  | .objectValues => [("id", .null), ("source_id", .null), ("attrib", .null), ("object", .null),
      ("value", .null), ("attrib_type", .null)]
  | .changedValues => [("id", .null), ("source_id", .null), ("attrib", .null), ("object", .null),
      ("value", .null), ("attrib_type", .null), ("update_type", .null), ("sent", .integer 0),
      ("main_id", .integer 0)]
  | .sources => [("id", .null), ("token", .null), ("source_id", .integer (-1)),
      ("source_url", .null), ("name", .null), ("session", .null), ("last_updated", .integer 0),
      ("last_inserted_size", .integer 0), ("last_deleted_size", .integer 0),
      ("last_sync_duration", .integer 0), ("last_sync_success", .integer 0),
      ("source_attribs", .null)]

/-- getSqlScript. -/
def javaSchema : Schema
  | .sources => [("source_id", .null), ("name", .null), ("token", .null), ("source_url", .null),
      ("session", .null), ("last_updated", .integer 0), ("last_inserted_size", .integer 0),
      ("last_deleted_size", .integer 0), ("last_sync_duration", .integer 0),
      ("last_sync_success", .integer 0), ("source_attribs", .null)]
  | n => cppSchema n

/-- The rows of a database, each with the columns of its table. -/
structure Content (schema : Schema) where
  rows : TableName → List Row
  shape : ∀ n, ∀ r ∈ rows n, r.map Prod.fst = (schema n).map Prod.fst

def setCell (name : String) (v : Cell) (r : Row) : Row :=
  r.map (fun p => if p.1 = name then (p.1, v) else p)

theorem names_setCell (name : String) (v : Cell) (r : Row) :
    (setCell name v r).map Prod.fst = r.map Prod.fst := by
  unfold setCell
  rw [List.map_map]
  apply List.map_congr_left
  intro p _
  by_cases hp : p.1 = name <;> simp [hp]

/-- CDBAttrManager::reset: UPDATE sources SET source_attribs=? with an empty text. -/
def Content.reset {schema : Schema} (db : Content schema) : Content schema where
  rows
    | .sources => (db.rows .sources).map (setCell "source_attribs" (.text ""))
    | n => db.rows n
  shape := by
    intro n r hr
    cases n with
    | sources =>
      obtain ⟨r', hr', rfl⟩ := List.mem_map.mp hr
      rw [names_setCell]
      exact db.shape .sources r' hr'
    | _ => exact db.shape _ r hr

def idOf (r : Row) : Int :=
  match r.lookup "id" with
  | some (.integer n) => n
  | _ => 0

/-- The rowid of a row that is inserted without one. -/
def nextId (rows : List Row) : Int := (rows.map idOf).foldl max 0 + 1

/-- INSERT INTO with the named columns; the rest gets its default. -/
def insertRow (columns : List (String × Cell)) (rows : List Row) (values : Row) : List Row :=
  rows ++ [columns.map (fun c => (c.1,
    match values.lookup c.1 with
    | some v => v
    | none => if c.1 = "id" then .integer (nextId rows) else c.2))]

/-- `if ( strColName == "id") continue;` -/
def createInsertStatement (r : Row) : Row := r.filter (fun p => p.1 ≠ "id")

/-- The loop over the tables: those that are skipped stay as they are in the new database. -/
def copyTables (schema : Schema) (skips : TableName → Bool) (createInsert : Row → Row)
    (old : TableName → List Row) : TableName → List Row :=
  allTables.foldl (fun new n =>
    if skips n then new
    else (old n).foldl (fun new r =>
      Function.update new n (insertRow (schema n) (new n) (createInsert r))) new) (fun _ => [])

/-- What String.equalsIgnoreCase answers. -/
structure IgnoreCase where
  equalsIgnoreCase : String → String → Bool
  equalsIgnoreCase_self : ∀ s, equalsIgnoreCase s s = true

/-- The answers for letters of ASCII. -/
def asciiCase : IgnoreCase where
  equalsIgnoreCase s t := s.toList.map Char.toLower = t.toList.map Char.toLower
  equalsIgnoreCase_self _ := decide_eq_true rfl

/-- The rows after CDBAdapter::destroy_table. -/
def destroyTable (db : Content cppSchema) (strTable : String) : TableName → List Row :=
  copyTables cppSchema (fun n => n.text = strTable) createInsertStatement db.reset.rows

/-- The rows after rb_destroy_table. -/
def rbDestroyTable (j : IgnoreCase) (db : Content javaSchema) (strTable : String) :
    TableName → List Row :=
  copyTables javaSchema (fun n => j.equalsIgnoreCase n.text strTable) id db.reset.rows

/-- makeBlobFolderName. -/
def makeBlobFolderName (config : Config) : String := config.rootPath ++ config.relativeBlobsPath

/-- The file lies in the folder itself. -/
def inFolder (folder file : String) : Bool :=
  (folder ++ "/").toList.isPrefixOf file.toList &&
    !(file.toList.drop (folder.length + 1)).contains '/'

/-- CRhoFile::deleteFilesInFolder for the folder of the blobs. -/
def deleteBlobs (config : Config) (files : List String) : List String :=
  files.filter (fun f => !inFolder (makeBlobFolderName config) f)

/-- The file that a row of object_values names, as SyncBlob_DeleteCallback finds it. -/
def blobFile (config : Config) (r : Row) : Option String :=
  match r.lookup "attrib_type", r.lookup "value" with
  | some (.text "blob.file"), some (.text value) => some (config.rootPath ++ "apps" ++ value)
  | _, _ => none

section Copy

theorem lookup_of_mem {r : Row} (hnodup : (r.map Prod.fst).Nodup) {name : String} {v : Cell}
    (hmem : (name, v) ∈ r) : r.lookup name = some v := by
  induction r with
  | nil => cases hmem
  | cons p r ih =>
    obtain ⟨hhead, htail⟩ := List.nodup_cons.mp hnodup
    rcases List.mem_cons.mp hmem with rfl | hmem
    · simp [List.lookup]
    · have hne : name ≠ p.1 := by
        rintro rfl
        exact hhead (List.mem_map.mpr ⟨_, hmem, rfl⟩)
      rw [List.lookup_cons, show (name == p.1) = false by simpa using hne]
      exact ih htail hmem

theorem lookup_eq_none {r : Row} {name : String} (h : name ∉ r.map Prod.fst) :
    r.lookup name = none := by
  rw [List.lookup_eq_none_iff]
  intro p hp
  have hne : name ≠ p.1 := by
    rintro rfl
    exact h (List.mem_map_of_mem hp)
  simpa using hne

/-- A row whose columns are named, but for "id" where it is left out, is inserted as it is,
but for its id. -/
theorem insertRow_filter {columns : List (String × Cell)} {r : Row} (keep : String → Bool)
    (hnodup : (columns.map Prod.fst).Nodup) (hr : r.map Prod.fst = columns.map Prod.fst)
    (hkeep : ∀ name, keep name = false → name = "id") (rows : List Row) :
    insertRow columns rows (r.filter (fun p => keep p.1)) = rows ++
      [r.map (fun p => if keep p.1 then p else (p.1, .integer (nextId rows)))] := by
  let cell : String → String × Cell := fun name => (name,
    match (r.filter (fun p => keep p.1)).lookup name with
    | some v => v
    | none => .integer (nextId rows))
  have hfilter : ((r.filter (fun p => keep p.1)).map Prod.fst).Nodup :=
    (hr ▸ hnodup).sublist (List.filter_sublist.map Prod.fst)
  have hlookup : ∀ name v, (name, v) ∈ r → keep name = true →
      (r.filter (fun p => keep p.1)).lookup name = some v := fun name v hmem hname =>
    lookup_of_mem hfilter (List.mem_filter.mpr ⟨hmem, hname⟩)
  have hmissing : ∀ name, keep name = false →
      (r.filter (fun p => keep p.1)).lookup name = none := by
    intro name hname
    apply lookup_eq_none
    intro hmem
    obtain ⟨p, hp, rfl⟩ := List.mem_map.mp hmem
    have hkept := (List.mem_filter.mp hp).2
    rw [hname] at hkept
    cases hkept
  have hcolumns : columns.map (fun c => (c.1,
      match (r.filter (fun p => keep p.1)).lookup c.1 with
      | some v => v
      | none => if c.1 = "id" then .integer (nextId rows) else c.2)) =
      (columns.map Prod.fst).map cell := by
    rw [List.map_map]
    apply List.map_congr_left
    intro c hc
    simp only [Function.comp_apply, cell]
    cases hname : keep c.1 with
    | true =>
      have hmem : c.1 ∈ r.map Prod.fst := hr ▸ List.mem_map_of_mem hc
      obtain ⟨p, hp, hpname⟩ := List.mem_map.mp hmem
      rw [hlookup c.1 p.2 (hpname ▸ hp) hname]
    | false => rw [hmissing c.1 hname, if_pos (hkeep c.1 hname)]
  have hcells : r.map (fun p => if keep p.1 then p else (p.1, .integer (nextId rows))) =
      (r.map Prod.fst).map cell := by
    rw [List.map_map]
    apply List.map_congr_left
    intro p hp
    simp only [Function.comp_apply, cell]
    cases hname : keep p.1 with
    | true =>
      rw [hlookup p.1 p.2 hp hname]
      rfl
    | false =>
      rw [hmissing p.1 hname]
      rfl
  rw [insertRow, hcolumns, hcells, hr]

theorem insertRow_cpp {columns : List (String × Cell)} {r : Row}
    (hnodup : (columns.map Prod.fst).Nodup) (hr : r.map Prod.fst = columns.map Prod.fst)
    (rows : List Row) : insertRow columns rows (createInsertStatement r) =
      rows ++ [setCell "id" (.integer (nextId rows)) r] := by
  have h := insertRow_filter (fun name => name ≠ "id") hnodup hr (by simp) rows
  unfold createInsertStatement setCell
  rw [h]
  simp

theorem insertRow_java {columns : List (String × Cell)} {r : Row}
    (hnodup : (columns.map Prod.fst).Nodup) (hr : r.map Prod.fst = columns.map Prod.fst)
    (rows : List Row) : insertRow columns rows r = rows ++ [r] := by
  have h := insertRow_filter (fun _ => true) hnodup hr (by simp) rows
  simpa using h

/-- The copy of one table leaves the other tables of the new database alone. -/
theorem foldl_update (columns : List (String × Cell)) (f : Row → Row) (n : TableName)
    (rs : List Row) (new : TableName → List Row) :
    rs.foldl (fun new r => Function.update new n (insertRow columns (new n) (f r))) new =
      Function.update new n (rs.foldl (fun rows r => insertRow columns rows (f r)) (new n)) := by
  induction rs generalizing new with
  | nil => simp
  | cons r rs ih => simp [List.foldl_cons, ih]

theorem copyTables_eq (schema : Schema) (skips : TableName → Bool) (f : Row → Row)
    (old : TableName → List Row) (n : TableName) :
    copyTables schema skips f old n = if skips n then []
      else (old n).foldl (fun rows r => insertRow (schema n) rows (f r)) [] := by
  have hall : ∀ (ns : List TableName), ns.Nodup → ∀ new : TableName → List Row,
      (ns.foldl (fun new n => if skips n then new
        else (old n).foldl (fun new r =>
          Function.update new n (insertRow (schema n) (new n) (f r))) new) new) n =
        if n ∈ ns ∧ skips n = false then
          (old n).foldl (fun rows r => insertRow (schema n) rows (f r)) (new n) else new n := by
    intro ns
    induction ns with
    | nil => simp
    | cons n' ns ih =>
      intro hnodup new
      obtain ⟨hhead, htail⟩ := List.nodup_cons.mp hnodup
      rw [List.foldl_cons, ih htail]
      cases hskip : skips n' with
      | true =>
        simp only [if_true]
        by_cases hn : n = n'
        · subst hn
          simp [hhead, hskip]
        · simp [hn]
      | false =>
        simp only [Bool.false_eq_true, if_false]
        rw [foldl_update]
        by_cases hn : n = n'
        · subst hn
          simp [hhead, hskip]
        · simp [hn]
  have hmem : n ∈ allTables := by
    cases n <;> decide
  rw [copyTables, hall allTables (by decide)]
  cases hskip : skips n <;> simp [hmem]

theorem lookup_setCell {r : Row} {name : String} (hmem : name ∈ r.map Prod.fst) (v : Cell) :
    (setCell name v r).lookup name = some v := by
  induction r with
  | nil => cases hmem
  | cons p r ih =>
    by_cases hp : p.1 = name
    · simp [setCell, hp]
    · have hrest : name ∈ r.map Prod.fst := by
        simpa [Ne.symm hp] using hmem
      have hne : (name == p.1) = false := by simpa using Ne.symm hp
      rw [setCell, List.map_cons, if_neg hp, List.lookup_cons, hne]
      exact ih hrest

theorem setCell_eq_self {r : Row} {name : String} {v : Cell} (hnodup : (r.map Prod.fst).Nodup)
    (h : name ∈ r.map Prod.fst → r.lookup name = some v) : setCell name v r = r := by
  unfold setCell
  conv_rhs => rw [← List.map_id r]
  apply List.map_congr_left
  intro p hp
  split
  · rename_i hname
    subst hname
    have hlookup := lookup_of_mem hnodup (show (p.1, p.2) ∈ r from hp)
    rw [h (List.mem_map_of_mem hp)] at hlookup
    rw [Option.some.inj hlookup]
    rfl
  · rfl

/-- The rows as the new database numbers them. -/
def renumber : Nat → List Row → List Row
  | _, [] => []
  | k, r :: rs => setCell "id" (.integer (k + 1)) r :: renumber (k + 1) rs

/-- The rows have the ids 1, 2, 3 and so on. -/
def Numbered (rows : List Row) : Prop :=
  ∀ (i : Nat) (r : Row), rows[i]? = some r → r.lookup "id" = some (.integer (i + 1))

theorem length_renumber (k : Nat) (rs : List Row) : (renumber k rs).length = rs.length := by
  induction rs generalizing k with
  | nil => rfl
  | cons r rs ih => simp [renumber, ih]

theorem getElem?_renumber (k : Nat) (rs : List Row) (i : Nat) :
    (renumber k rs)[i]? = rs[i]?.map (fun r => setCell "id" (.integer (k + i + 1)) r) := by
  induction rs generalizing k i with
  | nil => simp [renumber]
  | cons r rs ih =>
    cases i with
    | zero => simp [renumber]
    | succ i =>
      simp only [renumber, List.getElem?_cons_succ, ih]
      have hsum : ((k + 1 : Nat) : Int) + i + 1 = k + (i + 1 : Nat) + 1 := by omega
      rw [hsum]

theorem nextId_append {rows : List Row} {r : Row} (hid : "id" ∈ r.map Prod.fst)
    (h : nextId rows = rows.length + 1) :
    nextId (rows ++ [setCell "id" (.integer (rows.length + 1)) r]) = rows.length + 2 := by
  unfold nextId at h ⊢
  have hnew : idOf (setCell "id" (.integer (rows.length + 1)) r) = rows.length + 1 := by
    rw [idOf, lookup_setCell hid]
  rw [List.map_append, List.foldl_append, List.map_singleton, hnew]
  simp only [List.foldl_cons, List.foldl_nil]
  omega

/-- The C++ copy of a table with ids. -/
theorem copy_numbers {columns : List (String × Cell)} (hnodup : (columns.map Prod.fst).Nodup)
    (hid : "id" ∈ columns.map Prod.fst) (rs rows : List Row)
    (hrs : ∀ r ∈ rs, r.map Prod.fst = columns.map Prod.fst)
    (hrows : nextId rows = rows.length + 1) :
    rs.foldl (fun rows r => insertRow columns rows (createInsertStatement r)) rows =
      rows ++ renumber rows.length rs := by
  induction rs generalizing rows with
  | nil => simp [renumber]
  | cons r rs ih =>
    have hr := hrs r List.mem_cons_self
    have hstep : insertRow columns rows (createInsertStatement r) =
        rows ++ [setCell "id" (.integer (rows.length + 1)) r] := by
      rw [insertRow_cpp hnodup hr, hrows]
    have hnext := nextId_append (hr ▸ hid) hrows
    rw [List.foldl_cons, hstep, ih _ (fun r' hr' => hrs r' (List.mem_cons_of_mem _ hr'))]
    · simp [renumber]
    · rw [hnext]
      simp only [List.length_append, List.length_singleton]
      omega

/-- A copy that inserts every row as it is. -/
theorem copy_keeps {columns : List (String × Cell)} {f : Row → Row} (rs rows : List Row)
    (h : ∀ r ∈ rs, ∀ rows, insertRow columns rows (f r) = rows ++ [r]) :
    rs.foldl (fun rows r => insertRow columns rows (f r)) rows = rows ++ rs := by
  induction rs generalizing rows with
  | nil => simp
  | cons r rs ih =>
    rw [List.foldl_cons, h r List.mem_cons_self, ih _
      (fun r' hr' => h r' (List.mem_cons_of_mem _ hr'))]
    simp

end Copy

theorem cppSchema_nodup (n : TableName) : ((cppSchema n).map Prod.fst).Nodup := by
  cases n <;> decide

theorem javaSchema_nodup (n : TableName) : ((javaSchema n).map Prod.fst).Nodup := by
  cases n <;> decide

theorem id_mem_cppSchema {n : TableName} : "id" ∈ (cppSchema n).map Prod.fst ↔ n ≠ .clientInfo := by
  cases n <;> decide

/-- What destroy_table leaves of each table. -/
theorem destroyTable_eq (db : Content cppSchema) (strTable : String) (n : TableName) :
    destroyTable db strTable n = if n.text = strTable then []
      else if n = .clientInfo then db.rows n else renumber 0 (db.reset.rows n) := by
  unfold destroyTable
  rw [copyTables_eq]
  by_cases hname : n.text = strTable
  · simp [hname]
  · simp only [decide_eq_true_eq, if_neg hname]
    by_cases hn : n = .clientInfo
    · subst hn
      have hkeeps : ∀ r ∈ db.rows .clientInfo, ∀ rows,
          insertRow (cppSchema .clientInfo) rows (createInsertStatement r) = rows ++ [r] := by
        intro r hr rows
        have hshape := db.shape .clientInfo r hr
        rw [insertRow_cpp (cppSchema_nodup _) hshape, setCell_eq_self]
        · exact hshape ▸ cppSchema_nodup _
        · intro hid
          rw [hshape, id_mem_cppSchema] at hid
          exact absurd rfl hid
      rw [if_pos rfl]
      exact (copy_keeps _ _ hkeeps).trans (List.nil_append _)
    · rw [if_neg hn]
      exact (copy_numbers (cppSchema_nodup n) (id_mem_cppSchema.mpr hn) _ []
        (db.reset.shape n) rfl).trans (List.nil_append _)

theorem rbDestroyTable_eq (j : IgnoreCase) (db : Content javaSchema) (strTable : String)
    (n : TableName) : rbDestroyTable j db strTable n = if j.equalsIgnoreCase n.text strTable then []
      else db.reset.rows n := by
  unfold rbDestroyTable
  rw [copyTables_eq]
  by_cases hname : j.equalsIgnoreCase n.text strTable
  · simp [hname]
  · simp only [if_neg hname]
    have hkeeps : ∀ r ∈ db.reset.rows n, ∀ rows,
        insertRow (javaSchema n) rows (id r) = rows ++ [r] := fun r hr rows =>
      insertRow_java (javaSchema_nodup n) (db.reset.shape n r hr) rows
    exact (copy_keeps _ _ hkeeps).trans (List.nil_append _)

/-- The columns that the two ports give a table in common. -/
def sharedColumns (n : TableName) : List String :=
  ((cppSchema n).map Prod.fst).filter (fun c => c ∈ (javaSchema n).map Prod.fst)

/-- The same values, row by row, in every column that both ports have. -/
def SameRows (n : TableName) (rows rows' : List Row) : Prop :=
  ∀ c ∈ sharedColumns n, rows.map (List.lookup c) = rows'.map (List.lookup c)

/-- The table is empty, every other one has the rows it had, no file of a row that is left is
gone, and the two ports leave the same rows of tables that agree before. -/
structure Frame (j : IgnoreCase) (config : Config) (db : Content cppSchema) (files : List String)
    (strTable : String) : Prop where
  emptied : ∀ n : TableName, j.equalsIgnoreCase n.text strTable → destroyTable db strTable n = []
  kept : ∀ n : TableName, ¬ j.equalsIgnoreCase n.text strTable →
    destroyTable db strTable n = db.rows n
  blobs : ∀ r ∈ destroyTable db strTable .objectValues, ∀ f, blobFile config r = some f →
    f ∈ files → f ∈ deleteBlobs config files
  agree : ∀ (jdb : Content javaSchema) (n : TableName), SameRows n (jdb.rows n) (db.rows n) →
    SameRows n (rbDestroyTable j jdb strTable n) (destroyTable db strTable n)

/-- No table has the name in another spelling and rows, every table that is left has its ids
from 1 on without a gap, the attribute texts are empty, and no row that is left has a file
in the folder of the blobs. -/
structure Unaffected (j : IgnoreCase) (config : Config) (db : Content cppSchema)
    (files : List String) (strTable : String) : Prop where
  spelling : ∀ n : TableName, j.equalsIgnoreCase n.text strTable → n.text ≠ strTable →
    db.rows n = []
  numbered : ∀ n : TableName, ¬ j.equalsIgnoreCase n.text strTable → n ≠ .clientInfo →
    Numbered (db.rows n)
  attribs : ¬ j.equalsIgnoreCase "sources" strTable → ∀ r ∈ db.rows .sources,
    r.lookup "source_attribs" = some (.text "")
  blobs : ¬ j.equalsIgnoreCase "object_values" strTable → ∀ r ∈ db.rows .objectValues, ∀ f,
    blobFile config r = some f → f ∈ files → inFolder (makeBlobFolderName config) f = false

section FrameCondition

theorem reset_rows_eq {schema : Schema} {db : Content schema}
    (hnodup : ∀ n, ((schema n).map Prod.fst).Nodup) {n : TableName}
    (h : n = .sources → ∀ r ∈ db.rows .sources, r.lookup "source_attribs" = some (.text "")) :
    db.reset.rows n = db.rows n := by
  cases n with
  | sources =>
    show (db.rows .sources).map (setCell "source_attribs" (.text "")) = db.rows .sources
    conv_rhs => rw [← List.map_id (db.rows .sources)]
    apply List.map_congr_left
    intro r hr
    exact setCell_eq_self (db.shape .sources r hr ▸ hnodup .sources) (fun _ => h rfl r hr)
  | _ => rfl

theorem length_reset {schema : Schema} (db : Content schema) (n : TableName) :
    (db.reset.rows n).length = (db.rows n).length := by
  cases n with
  | sources => exact List.length_map _
  | _ => rfl

theorem getElem?_renumber_zero (rs : List Row) (i : Nat) :
    (renumber 0 rs)[i]? = rs[i]?.map (fun r => setCell "id" (.integer (i + 1)) r) := by
  have hsum : ((0 : Nat) : Int) + i + 1 = i + 1 := by omega
  rw [getElem?_renumber, hsum]

theorem renumber_eq_self {rs : List Row} (hnodup : ∀ r ∈ rs, (r.map Prod.fst).Nodup)
    (h : Numbered rs) : renumber 0 rs = rs := by
  apply List.ext_getElem?
  intro i
  rw [getElem?_renumber_zero]
  cases hr : rs[i]? with
  | none => rfl
  | some r =>
    have hid := h i r hr
    simp only [Option.map_some, Option.some.injEq]
    exact setCell_eq_self (hnodup r (List.mem_of_getElem? hr)) (fun _ => hid)

theorem numbered_renumber {rs : List Row} (hids : ∀ r ∈ rs, "id" ∈ r.map Prod.fst) :
    Numbered (renumber 0 rs) := by
  intro i r hr
  rw [getElem?_renumber_zero] at hr
  obtain ⟨r', hr', rfl⟩ := Option.map_eq_some_iff.mp hr
  exact lookup_setCell (hids r' (List.mem_of_getElem? hr')) _

theorem lookup_setCell_of_ne {r : Row} {name other : String} (hne : other ≠ name) (v : Cell) :
    (setCell name v r).lookup other = r.lookup other := by
  induction r with
  | nil => rfl
  | cons p r ih =>
    have hcons : setCell name v (p :: r) =
        (p.1, if p.1 = name then v else p.2) :: setCell name v r := by
      by_cases hp : p.1 = name <;> simp [setCell, hp]
    rw [hcons, List.lookup_cons, List.lookup_cons]
    by_cases hother : other = p.1
    · subst hother
      simp [hne]
    · have hfalse : (other == p.1) = false := by simpa using hother
      simp only [hfalse]
      exact ih

/-- The copy of sources has every attribute text empty. -/
theorem lookup_attribs_copy {db : Content cppSchema} {r : Row}
    (hr : r ∈ renumber 0 (db.reset.rows .sources)) :
    r.lookup "source_attribs" = some (.text "") := by
  obtain ⟨i, hi⟩ := List.mem_iff_getElem?.mp hr
  rw [getElem?_renumber_zero] at hi
  obtain ⟨r', hr', rfl⟩ := Option.map_eq_some_iff.mp hi
  obtain ⟨r'', hr'', rfl⟩ := List.mem_map.mp (List.mem_of_getElem? hr')
  have hmem : "source_attribs" ∈ r''.map Prod.fst := by
    rw [db.shape .sources r'' hr'']
    decide
  rw [lookup_setCell_of_ne (by decide), lookup_setCell hmem]

theorem mem_deleteBlobs {config : Config} {files : List String} {f : String} :
    f ∈ deleteBlobs config files ↔
      f ∈ files ∧ inFolder (makeBlobFolderName config) f = false := by
  simp [deleteBlobs]

theorem text_ne_of_not_equals {j : IgnoreCase} {n : TableName} {strTable : String}
    (h : ¬ j.equalsIgnoreCase n.text strTable) : n.text ≠ strTable := by
  rintro rfl
  exact h (j.equalsIgnoreCase_self _)

variable {j : IgnoreCase} {config : Config} {db : Content cppSchema} {files : List String}
  {strTable : String}

theorem Frame.unaffected (h : Frame j config db files strTable) :
    Unaffected j config db files strTable where
  spelling := by
    intro n hlower hname
    have hempty := h.emptied n hlower
    rw [destroyTable_eq, if_neg hname] at hempty
    split at hempty
    · exact hempty
    · have hlength : (renumber 0 (db.reset.rows n)).length = 0 := by
        rw [hempty]
        rfl
      rw [length_renumber, length_reset] at hlength
      exact List.eq_nil_of_length_eq_zero hlength
  numbered := by
    intro n hlower hn
    have hkept := h.kept n hlower
    rw [destroyTable_eq, if_neg (text_ne_of_not_equals hlower), if_neg hn] at hkept
    rw [← hkept]
    apply numbered_renumber
    intro r hr
    rw [db.reset.shape n r hr]
    exact id_mem_cppSchema.mpr hn
  attribs := by
    intro hlower r hr
    have hkept := h.kept .sources hlower
    rw [destroyTable_eq, if_neg (text_ne_of_not_equals (n := .sources) hlower),
      if_neg (by decide)] at hkept
    rw [← hkept] at hr
    exact lookup_attribs_copy hr
  blobs := by
    intro hlower r hr f hf hmem
    rw [← h.kept .objectValues hlower] at hr
    exact (mem_deleteBlobs.mp (h.blobs r hr f hf hmem)).2

theorem Unaffected.destroyTable_kept (h : Unaffected j config db files strTable) {n : TableName}
    (hlower : ¬ j.equalsIgnoreCase n.text strTable) : destroyTable db strTable n = db.rows n := by
  rw [destroyTable_eq, if_neg (text_ne_of_not_equals hlower)]
  split
  · rfl
  · rename_i hn
    have hreset : db.reset.rows n = db.rows n := by
      apply reset_rows_eq cppSchema_nodup
      rintro rfl
      exact h.attribs hlower
    rw [hreset]
    apply renumber_eq_self _ (h.numbered n hlower hn)
    intro r hr
    exact db.shape n r hr ▸ cppSchema_nodup n

theorem Unaffected.destroyTable_emptied (h : Unaffected j config db files strTable)
    {n : TableName} (hlower : j.equalsIgnoreCase n.text strTable) :
    destroyTable db strTable n = [] := by
  rw [destroyTable_eq]
  split
  · rfl
  · rename_i hname
    have hrows := h.spelling n hlower hname
    have hreset : db.reset.rows n = [] := by
      apply List.eq_nil_of_length_eq_zero
      rw [length_reset, hrows]
      rfl
    split
    · exact hrows
    · rw [hreset]
      rfl

/-- The Java port keeps the rows that the condition speaks of too. -/
theorem Unaffected.rbDestroyTable_kept (h : Unaffected j config db files strTable)
    {jdb : Content javaSchema} {n : TableName} (hlower : ¬ j.equalsIgnoreCase n.text strTable)
    (hsame : SameRows n (jdb.rows n) (db.rows n)) :
    rbDestroyTable j jdb strTable n = jdb.rows n := by
  rw [rbDestroyTable_eq, if_neg hlower]
  apply reset_rows_eq javaSchema_nodup
  rintro rfl r hr
  have hcolumn := hsame "source_attribs" (by decide)
  have hmem : r.lookup "source_attribs" ∈
      (db.rows .sources).map (List.lookup "source_attribs") :=
    hcolumn ▸ List.mem_map_of_mem hr
  obtain ⟨r', hr', heq⟩ := List.mem_map.mp hmem
  rw [← heq]
  exact h.attribs hlower r' hr'

theorem Unaffected.frame (h : Unaffected j config db files strTable) :
    Frame j config db files strTable where
  emptied _ hlower := h.destroyTable_emptied hlower
  kept _ hlower := h.destroyTable_kept hlower
  blobs := by
    intro r hr f hf hmem
    apply mem_deleteBlobs.mpr
    by_cases hlower : j.equalsIgnoreCase "object_values" strTable
    · rw [h.destroyTable_emptied (n := .objectValues) hlower] at hr
      cases hr
    · rw [h.destroyTable_kept (n := .objectValues) hlower] at hr
      exact ⟨hmem, h.blobs hlower r hr f hf hmem⟩
  agree := by
    intro jdb n hsame
    by_cases hlower : j.equalsIgnoreCase n.text strTable
    · rw [rbDestroyTable_eq, if_pos hlower, h.destroyTable_emptied hlower]
      intro c _
      rfl
    · rw [h.rbDestroyTable_kept hlower hsame, h.destroyTable_kept hlower]
      exact hsame

end FrameCondition

theorem destroy_table_frame (j : IgnoreCase) (config : Config) (db : Content cppSchema)
    (files : List String) (strTable : String) :
    Frame j config db files strTable ↔ Unaffected j config db files strTable :=
  ⟨Frame.unaffected, Unaffected.frame⟩

/-- One object whose first row was deleted before, with a blob as its value. -/
def photoValues : Content cppSchema where
  rows
    | .objectValues => [[("id", .integer 5), ("source_id", .integer 1), ("attrib", .text "photo"),
        ("object", .text "7"), ("value", .text "/public/db-files/a.jpg"),
        ("attrib_type", .text "blob.file")]]
    | _ => []
  shape := by
    intro n r hr
    cases n with
    | objectValues =>
      rw [List.mem_singleton.mp hr]
      decide
    | _ => cases hr

theorem destroy_client_info_renumbers : ¬ ∀ (config : Config) (db : Content cppSchema)
    (files : List String) (strTable : String), Frame asciiCase config db files strTable := by
  intro h
  have hkept := (h ⟨"/rho/", "apps/public/db-files", "http://server"⟩ photoValues []
    "client_info").kept .objectValues (by decide)
  exact absurd hkept (by decide)

end Rhodes.DestroyTable
