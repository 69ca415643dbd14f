import Rhodes.Source

/-!
The client side of SyncSource.cpp: makePushBody, syncClientBlobs,
syncClientChanges and getAndremoveAsk. The body and the blobs are computed from
the selected rows as the source's loop does; `printId` is the only thing in
which the ports print a row differently.
-/
namespace Rhodes.ClientChanges

open Database Statements Interleaving Source

/-- What follows the last occurrence of a character. -/
def afterLast (c : Char) (cs : List Char) : Option (List Char) :=
  if c ∈ cs then some (cs.reverse.takeWhile (fun d => d ≠ c)).reverse else none

/-- CFilePath::getBaseName. -/
def getBaseName (path : String) : String :=
  match afterLast '/' path.toList with
  | some base => String.ofList base
  | none => match afterLast '\\' path.toList with
    | some base => String.ofList base
    | none => path

/-- A CSyncBlob and the row it was made of. -/
structure SyncBlob where
  body : String
  filePath : String
  row : ChangedValue

/-- What makePushBody leaves: the body with the rows it was made of, and the blobs. -/
structure PushBody where
  strBody : String
  rows : List ChangedValue
  blobs : List SyncBlob

/-- The part of a record before its value; `printId` prints main_id. -/
def recordHead (printId : Int64 → String) (r : ChangedValue) : String :=
  "attrvals[][attrib]=" ++ r.attrib.getD "" ++
    (if (r.object.getD "").length > 0 then "&attrvals[][object]=" ++ r.object.getD "" else "") ++
    (if r.mainId ≠ 0 then "&attrvals[][id]=" ++ printId r.mainId else "")

/-- The body of the loop over the selected rows. -/
def addRow (printId : Int64 → String) (b : PushBody) (r : ChangedValue) : PushBody :=
  let value := r.value.getD ""
  if r.attribType.getD "" = "blob.file" then
    if value.length > 0 then
      { b with
        blobs := b.blobs ++ [⟨recordHead printId r ++ "&attrvals[][value]=" ++ getBaseName value ++
          "&attrvals[][attrib_type]=blob", value, r⟩] }
    else b
  else
    { b with
      strBody := (if b.strBody.length > 0 then b.strBody ++ "&" else b.strBody) ++
        (recordHead printId r ++ "&attrvals[][value]=" ++ value)
      rows := b.rows ++ [r] }

def pushBodyOf (printId : Int64 → String) (rows : List ChangedValue) : PushBody :=
  rows.foldl (addRow printId) ⟨"", [], []⟩

theorem isBlob_iff (r : ChangedValue) : r.attribType.getD "" = "blob.file" ↔ ¬ NonBlob r := by
  cases h : r.attribType <;> simp [NonBlob, h]

/-- The blob that is made of a row. -/
def blobOf (printId : Int64 → String) (r : ChangedValue) : SyncBlob :=
  ⟨recordHead printId r ++ "&attrvals[][value]=" ++ getBaseName (r.value.getD "") ++
    "&attrvals[][attrib_type]=blob", r.value.getD "", r⟩

theorem addRow_blob (printId : Int64 → String) (b : PushBody) (r : ChangedValue)
    (hr : ¬ NonBlob r) : (addRow printId b r).strBody = b.strBody ∧
      (addRow printId b r).rows = b.rows ∧
      (addRow printId b r).blobs = b.blobs ++
        (if (r.value.getD "").length > 0 then [blobOf printId r] else []) := by
  have hblob := (isBlob_iff r).mpr hr
  by_cases hvalue : (r.value.getD "").length > 0
  · simp [addRow, hblob, hvalue, blobOf]
  · simp [addRow, hblob, hvalue]

theorem append_length_pos (s t : String) (h : 0 < s.length) : 0 < (s ++ t).length := by
  rw [String.length_append]
  omega

theorem recordHead_pos (printId : Int64 → String) (r : ChangedValue) :
    0 < (recordHead printId r).length := by
  unfold recordHead
  refine append_length_pos _ _ (append_length_pos _ _ (append_length_pos _ _ ?_))
  decide

theorem addRow_nonBlob (printId : Int64 → String) (b : PushBody) (r : ChangedValue)
    (hr : NonBlob r) : 0 < (addRow printId b r).strBody.length ∧
      (addRow printId b r).rows = b.rows ++ [r] ∧
      (addRow printId b r).blobs = b.blobs := by
  have hblob : ¬ r.attribType.getD "" = "blob.file" := fun h => (isBlob_iff r).mp h hr
  refine ⟨?_, by simp [addRow, hblob], by simp [addRow, hblob]⟩
  simp only [addRow, hblob, if_false]
  rw [String.length_append]
  have hpos := append_length_pos _ (r.value.getD "")
    (append_length_pos _ "&attrvals[][value]=" (recordHead_pos printId r))
  omega

theorem foldl_addRow_rows (printId : Int64 → String) (l : List ChangedValue) (b : PushBody) :
    (l.foldl (addRow printId) b).rows = b.rows ++ l.filter (fun r => NonBlob r) := by
  induction l generalizing b with
  | nil => simp
  | cons r rest ih =>
    rw [List.foldl_cons, ih]
    by_cases hr : NonBlob r
    · rw [(addRow_nonBlob printId b r hr).2.1]
      simp [hr]
    · rw [(addRow_blob printId b r hr).2.1]
      simp [hr]

theorem foldl_addRow_blobs (printId : Int64 → String) (l : List ChangedValue) (b : PushBody) :
    (l.foldl (addRow printId) b).blobs = b.blobs ++
      (l.filter (fun r => ¬ NonBlob r ∧ (r.value.getD "").length > 0)).map (blobOf printId) := by
  induction l generalizing b with
  | nil => simp
  | cons r rest ih =>
    rw [List.foldl_cons, ih]
    by_cases hr : NonBlob r
    · rw [(addRow_nonBlob printId b r hr).2.2]
      simp [hr]
    · rw [(addRow_blob printId b r hr).2.2]
      by_cases hvalue : (r.value.getD "").length > 0
      · simp [hr, hvalue]
      · simp [hr, hvalue]

/-- The record of a row in a body. -/
def record (printId : Int64 → String) (r : ChangedValue) : String :=
  recordHead printId r ++ "&attrvals[][value]=" ++ r.value.getD ""

/-- The text of a body: the records of its rows, in their order. -/
structure PushBody.IsText (printId : Int64 → String) (b : PushBody) : Prop where
  pos : 0 < b.strBody.length ↔ b.rows ≠ []
  text : b.strBody = "&".intercalate (b.rows.map (record printId))

theorem addRow_isText {printId : Int64 → String} {b : PushBody} (hb : b.IsText printId)
    (r : ChangedValue) : (addRow printId b r).IsText printId := by
  by_cases hr : NonBlob r
  · obtain ⟨hpos, hrows, -⟩ := addRow_nonBlob printId b r hr
    refine ⟨by simp [hpos, hrows], ?_⟩
    have hblob : ¬ r.attribType.getD "" = "blob.file" := fun h => (isBlob_iff r).mp h hr
    have htext : (addRow printId b r).strBody =
        (if b.strBody.length > 0 then b.strBody ++ "&" else b.strBody) ++ record printId r := by
      simp [addRow, hblob, record]
    rw [htext, hrows, List.map_append]
    by_cases hempty : b.rows = []
    · have hnone : b.strBody = "" := by simp [hb.text, hempty]
      simp [hempty, hnone]
    · rw [if_pos (hb.pos.mpr hempty), String.intercalate_append_of_ne_nil (by simpa using hempty)
        (by simp), ← hb.text]
      simp
  · obtain ⟨hbody, hrows, -⟩ := addRow_blob printId b r hr
    exact ⟨by rw [hbody, hrows]; exact hb.pos, by rw [hbody, hrows]; exact hb.text⟩

theorem foldl_addRow_isText {printId : Int64 → String} (l : List ChangedValue) {b : PushBody}
    (hb : b.IsText printId) : (l.foldl (addRow printId) b).IsText printId := by
  induction l generalizing b with
  | nil => exact hb
  | cons r rest ih => exact ih (addRow_isText hb r)

/-- The body holds exactly the selected rows that are no blobs. -/
theorem pushBodyOf_rows (printId : Int64 → String) (l : List ChangedValue) :
    (pushBodyOf printId l).rows = l.filter (fun r => NonBlob r) :=
  foldl_addRow_rows printId l _

/-- The blobs are those of the selected blob rows that name a file. -/
theorem pushBodyOf_blobs (printId : Int64 → String) (l : List ChangedValue) :
    (pushBodyOf printId l).blobs =
      (l.filter (fun r => ¬ NonBlob r ∧ (r.value.getD "").length > 0)).map (blobOf printId) :=
  foldl_addRow_blobs printId l _

theorem pushBodyOf_isText (printId : Int64 → String) (l : List ChangedValue) :
    (pushBodyOf printId l).IsText printId := foldl_addRow_isText l ⟨by simp, by simp⟩

/-- A body is sent exactly when a row went into it. -/
theorem pushBodyOf_strBody (printId : Int64 → String) (l : List ChangedValue) :
    0 < (pushBodyOf printId l).strBody.length ↔ (pushBodyOf printId l).rows ≠ [] :=
  (pushBodyOf_isText printId l).pos

/-- convertToStringA of the `uint64` that getUInt64ByIdx returns. -/
def printUInt64 (n : Int64) : String := toString n.toUInt64.toNat

def makePushBody (this : SyncSource) (t : UpdateType) : Sync PushBody :=
  Prog.perform (.makePushBody this.id t)
    (fun w => pushBodyOf printUInt64 (selectPush w.changed this.id t))

def syncClientBlobs (e : Engine) (this : SyncSource) (t : UpdateType) (strBaseQuery : String) :
    List SyncBlob → Sync SyncSource
  | [] => pure this
  | blob :: rest => do
      let strFilePath := e.config.rootPath ++ "apps" ++ blob.filePath
      let resp ← send (.pushFile this.id t (strBaseQuery ++ "&" ++ blob.body) strFilePath blob.row)
      if resp.isOK then
        execute (.deleteBlobObject this.id blob.filePath)
        syncClientBlobs e this t strBaseQuery rest
      else
        execute (.setState .esStop)
        pure { this with errCode := failCode resp }

def pushUrl (this : SyncSource) (t : UpdateType) : String :=
  this.url ++ "/" ++ t.text ++ "objects"

def pushQuery (e : Engine) : String := "?format=json&client_id=" ++ e.clientId

/-- What follows the push of the body in the loop of syncClientChanges. -/
def confirmPush (e : Engine) (this : SyncSource) (t : UpdateType) (body : PushBody) :
    Sync SyncSource :=
  if body.blobs.length > 0 then do
    execute (if t = .create then .confirmNonBlob this.id t else .deleteNonBlob this.id t)
    syncClientBlobs e this t (pushUrl this t ++ pushQuery e) body.blobs
  else if body.strBody.length > 0 then do
    execute (if t = .create then .confirmSent this.id t else .deleteSent this.id t)
    pure this
  else pure this

/-- One round of the loop of syncClientChanges. -/
def pushChanges (e : Engine) (this : SyncSource) (t : UpdateType) : Sync SyncSource := do
  let body ← makePushBody this t
  if body.strBody.length > 0 then
    let resp ← send
      (.pushData this.id t (pushUrl this t ++ pushQuery e) body.strBody body.rows)
    if resp.isOK then confirmPush e this t body
    else
      execute (.setState .esStop)
      pure { this with errCode := .errRemoteServer }
  else confirmPush e this t body

def pushLoop (e : Engine) (this : SyncSource) : List UpdateType → Sync SyncSource
  | [] => pure this
  | t :: rest => do
      if ← isContinueSync then
        let this ← pushChanges e this t
        pushLoop e this rest
      else pure this

def syncClientChanges (e : Engine) (this : SyncSource) : Sync SyncSource :=
  pushLoop e this [.create, .update, .delete]

/-- The text getAndremoveAsk reads. -/
def askText (T : ChangedTable) (src : Int) : String :=
  ((firstAsk T src).bind ChangedValue.value).getD ""

def getAndremoveAsk (this : SyncSource) : Sync SyncSource := do
  let askParams ← Prog.perform (.selectAsk this.id) (fun w => askText w.changed this.id)
  execute (.deleteAsk this.id askParams)
  pure { this with askParams }

def isPendingClientChanges (this : SyncSource) : Sync Bool :=
  query (fun w => w.changed.rows.any
    (fun r => r.sourceId = this.id ∧ r.updateType = .create ∧ r.sent > 1))

end Rhodes.ClientChanges
