import Rhodes.PageMerge

/-!
Delivering a page again. A stop cuts the merge of a page anywhere in its two passes,
with what was merged so far committed and the token stored; the next session asks
for the page with this token, and the server sends it again. The edits of a page
are a batch, so a batch that was cut and then made as a whole leaves what it leaves
when it is made once, and the token is the same each time.
-/
namespace Rhodes.Redelivery

open Database Json Statements Interleaving Source ServerChanges Rhom Threads PullRules KeyedRows
  PageEdits PageMerge

/-- Between two sessions nothing is written to object_values and to the tokens. -/
structure SameTables (w v : World) : Prop where
  objects : v.objects = w.objects
  sources : v.sources = w.sources

/-- The object of a session: it stands for the source `src`, finds the same sources by
their names, and holds the stored token. -/
structure Restored (resolve : String → Option Int) (src : Int) (e : Engine) (this : SyncSource)
    (w : World) : Prop where
  resolve : groupSource e this = resolve
  id : this.id = src
  token : (w.sources.token src).getD 0 = this.token

/-- One or more deliveries of the whole page, each in a session of its own. -/
inductive Deliveries (resolve : String → Option Int) (src : Int) (data : Option JsonObject) :
    World → World → Prop
  | once {w v v' : World} {e : Engine} {this : SyncSource} : SameTables w v →
      Restored resolve src e this v → Delivery false e this data v v' →
      Deliveries resolve src data w v'
  | again {w u v v' : World} {e : Engine} {this : SyncSource} : Deliveries resolve src data w u →
      SameTables u v → Restored resolve src e this v → Delivery false e this data v v' →
      Deliveries resolve src data w v'

theorem readHead_rest (this that : SyncSource) (items : List JsonObject) :
    (readHead this items).2 = (readHead that items).2 := by
  unfold readHead
  split
  · rfl
  · simp only
    split
    · split <;> rfl
    · rfl

theorem IsPage.other {this : SyncSource} {data : Option JsonObject} {token : UInt64}
    {groups : List JsonObject} (h : IsPage this data token groups) (that : SyncSource) :
    IsPage that data token groups := by
  obtain ⟨element, hbody, htoken⟩ := h.body
  exact ⟨h.noError, element, by rw [readHead_rest that this]; exact hbody, htoken⟩

theorem setToken_of_token {T : SourcesTable} {src : Int} {token : UInt64}
    (h : T.token src = some token) : T.setToken src token = T := by
  apply SourcesTable.ext
  simp only [SourcesTable.setToken]
  conv_rhs => rw [← List.map_id' T.rows]
  apply List.map_congr_left
  intro r hr
  by_cases hsrc : r.sourceId = src
  · have htoken : r.token = some token := by rw [← T.token_eq hr, hsrc, h]
    rw [if_pos hsrc, ← htoken]
  · rw [if_neg hsrc]

theorem setToken_setToken (T : SourcesTable) (src : Int) (token : UInt64) :
    (T.setToken src token).setToken src token = T.setToken src token := by
  refine SourcesTable.ext ?_
  simp only [SourcesTable.setToken, List.map_map]
  apply List.map_congr_left
  intro r _
  by_cases hsrc : r.sourceId = src <;> simp [hsrc]

section Token

variable {b : Bool} {T : SourcesTable}

theorem sources_stable : (against (delivery b) noGoal).Stable (fun w => w.sources = T) :=
  stable_of_frame (fun _ _ h hframe => hframe.sources.trans h)

theorem sources_only {α : Type} {p : Sync α}
    (hp : p.Only (fun i => ∀ w, (step i w).sources = w.sources)) :
    (against (delivery b) noGoal).Triple (fun w => w.sources = T) p (fun _ w => w.sources = T) :=
  Discipline.Triple.only sources_stable (fun _ w hi h _ => ⟨trivial, (hi w).trans h⟩) hp

theorem merging_sources {i : Stmt} (h : Merging i) (w : World) :
    (step i w).sources = w.sources := by
  cases i <;> first | exact h.elim | rfl

/-- The token of the object is the stored one, so the UPDATE that processToken skips would
change nothing. -/
theorem processToken_sources (this : SyncSource) (token : UInt64)
    (htoken : (T.token this.id).getD 0 = this.token) :
    (against (delivery b) noGoal).Triple (fun w => w.sources = T) (processToken this token)
      (fun _ w => w.sources = T.setToken this.id token) := by
  refine Discipline.Triple.bind (Q := fun _ w => w.sources = T.setToken this.id token) ?_
    (fun _ => ?_)
  · refine Discipline.Triple.ite (fun _ => ?_) (fun hskip => ?_)
    · refine Discipline.Triple.act sources_stable ?_
      intro w h _
      have hstored : (step (.storeToken this.id token) w).sources = T.setToken this.id token := by
        simp only [step, h]
      exact ⟨trivial, fun v hv => sources_stable.star hstored hv⟩
    · obtain ⟨hgt, heq⟩ := not_not.mp hskip
      have hstored := SourcesTable.token_of_getD (htoken.trans heq) hgt
      exact Discipline.Triple.ret sources_stable
        (fun w h => by rw [h, setToken_of_token hstored])
  · exact sources_only (Prog.Only.bind (execute_only (fun _ => rfl)) (fun _ => trivial))

theorem processServerData_sources (e : Engine) (this : SyncSource) (data : Option JsonObject)
    (token : UInt64) (groups : List JsonObject) (hpage : IsPage this data token groups)
    (htoken : (T.token this.id).getD 0 = this.token) :
    (against (delivery b) noGoal).Triple (fun w => w.sources = T) (processServerData e this data)
      (fun _ w => w.sources = T.setToken this.id token) := by
  obtain ⟨element, hbody, rfl⟩ := hpage.body
  obtain ⟨hid, -, htoken'⟩ := readHead_this this (data.getD .null).items
  unfold processServerData
  rw [if_neg (by rw [hpage.noError]; exact Bool.false_ne_true)]
  refine Discipline.Triple.bind (sources_only (when_only (execute_only (fun _ => rfl))))
    (fun _ => ?_)
  rw [hbody, ← hid]
  refine Discipline.Triple.bind (processToken_sources _ _ (by rw [hid, htoken']; exact htoken))
    (fun _ => ?_)
  refine Discipline.Triple.bind
    (sources_only ((mergePage_only _ _ _).mono (fun _ => merging_sources))) (fun r => ?_)
  refine sources_only (Prog.Only.bind (execute_only (fun _ => rfl)) (fun _ => ?_))
  exact Prog.Only.bind (when_only (execute_only (fun _ => rfl))) (fun _ => trivial)

end Token

/-- A delivery stores the token of its page. -/
theorem delivery_sources {b : Bool} {e : Engine} {this : SyncSource} {data : Option JsonObject}
    {token : UInt64} {groups : List JsonObject} {w w' : World} (h : Delivery b e this data w w')
    (hpage : IsPage this data token groups)
    (htoken : (w.sources.token this.id).getD 0 = this.token) :
    w'.sources = w.sources.setToken this.id token := by
  obtain ⟨ms, this', hrun, hms⟩ := h.run
  have htriple := processServerData_sources (b := b) e this data token groups hpage htoken
  exact (Discipline.wp_run hrun (htriple w rfl) hms).2 this' rfl

/-- After some edits of the page each id still belongs to one triple. -/
theorem oneTriple_merged {resolve : String → Option Int} {groups : List JsonObject}
    {rows : List ObjectValue} {edits : List RowEdit}
    (hids : OneTriple (rows ++ inserts resolve groups))
    (hedits : ∀ r, Edit.put r ∈ edits → r ∈ inserts resolve groups) :
    OneTriple (merged rows edits ++ inserts resolve groups) := by
  have hmem : ∀ r ∈ merged rows edits ++ inserts resolve groups,
      r ∈ rows ++ inserts resolve groups := by
    intro r hr
    rcases List.mem_append.mp hr with hr | hr
    · rcases mem_applyAll triple ObjectValue.id hr with hold | hput
      · exact List.mem_append_left _ hold
      · exact List.mem_append_right _ (hedits r hput)
    · exact List.mem_append_right _ hr
  exact fun r hr s hs => hids r (hmem r hr) s (hmem s hs)

/-- A whole delivery into a table that holds some of the edits already. -/
theorem whole_delivery {resolve : String → Option Int} {src : Int} {e : Engine}
    {this that : SyncSource}
    {data : Option JsonObject} {token : UInt64} {groups : List JsonObject}
    {rows : List ObjectValue} {T : SourcesTable} {k : Nat} {v v' : World}
    (hpage : IsPage that data token groups) (hplain : Plain resolve groups)
    (hids : OneTriple (rows ++ inserts resolve groups)) (hrestored : Restored resolve src e this v)
    (hdelivery : Delivery false e this data v v')
    (hrows : v.objects.rows = merged rows ((pageEdits resolve groups).take k))
    (hsources : v.sources = T ∨ v.sources = T.setToken src token) :
    v'.objects.rows = merged rows (pageEdits resolve groups) ∧
      v'.sources = T.setToken src token := by
  have hwithin := (pageEdits_within hids).2
  obtain ⟨hresolve, hid, htoken⟩ := hrestored
  constructor
  · have hids' : OneTriple (v.objects.rows ++ inserts (groupSource e this) groups) := by
      rw [hresolve, hrows]
      exact oneTriple_merged hids (fun r hr => hwithin r (List.mem_of_mem_take hr))
    rw [hdelivery.merged (IsPage.other hpage this) (by rw [hresolve]; exact hplain) hids', hresolve,
      hrows, pageEdits_eq]
    exact batch_after_cut triple ObjectValue.id rows _ _ k
  · rw [delivery_sources hdelivery (IsPage.other hpage this) (by rw [hid]; exact htoken), hid]
    rcases hsources with h | h
    · rw [h]
    · rw [h, setToken_setToken]

theorem deliveries_settle {resolve : String → Option Int} {src : Int} {that : SyncSource}
    {data : Option JsonObject} {token : UInt64} {groups : List JsonObject}
    {rows : List ObjectValue} {T : SourcesTable} {k : Nat} {w w' : World}
    (hpage : IsPage that data token groups) (hplain : Plain resolve groups)
    (hids : OneTriple (rows ++ inserts resolve groups)) (h : Deliveries resolve src data w w')
    (hrows : w.objects.rows = merged rows ((pageEdits resolve groups).take k))
    (hsources : w.sources = T.setToken src token) :
    w'.objects.rows = merged rows (pageEdits resolve groups) ∧
      w'.sources = T.setToken src token := by
  induction h with
  | once hsame hrestored hdelivery =>
    refine whole_delivery (k := k) hpage hplain hids hrestored hdelivery ?_ (Or.inr ?_)
    · rw [hsame.objects, hrows]
    · rw [hsame.sources, hsources]
  | again _ hsame hrestored hdelivery ih =>
    obtain ⟨hrows', hsources'⟩ := ih
    refine whole_delivery (k := (pageEdits resolve groups).length) hpage hplain hids hrestored
      hdelivery ?_ (Or.inr ?_)
    · rw [hsame.objects, hrows', List.take_length]
    · rw [hsame.sources, hsources']

/-- A page whose delivery is stopped anywhere and that is then delivered as a whole, once or
any number of times, leaves the table and the token that one whole delivery leaves. -/
theorem redelivery_is_harmless (resolve : String → Option Int) (src : Int) (e e' : Engine)
    (this this' : SyncSource) (data : Option JsonObject) (token : UInt64)
    (groups : List JsonObject) (w w₁ w₂ v v' : World) (hpage : IsPage this data token groups)
    (hplain : Plain resolve groups) (hids : OneTriple (w.objects.rows ++ inserts resolve groups))
    (hrestored : Restored resolve src e this w) (hcut : Delivery true e this data w w₁)
    (hagain : Deliveries resolve src data w₁ w₂) (hsame : SameTables w v)
    (hrestored' : Restored resolve src e' this' v) (honce : Delivery false e' this' data v v') :
    w₂.objects = v'.objects ∧ w₂.sources.token src = v'.sources.token src := by
  have hids' : OneTriple (w.objects.rows ++ inserts (groupSource e this) groups) := by
    rw [hrestored.resolve]
    exact hids
  obtain ⟨k, hrows, -⟩ := hcut.upto hpage (by rw [hrestored.resolve]; exact hplain) hids'
  have hsources := delivery_sources hcut hpage (by rw [hrestored.id]; exact hrestored.token)
  rw [hrestored.resolve] at hrows
  rw [hrestored.id] at hsources
  obtain ⟨hmany, hmanyTokens⟩ := deliveries_settle hpage hplain hids hagain hrows hsources
  have hempty : v.objects.rows = merged w.objects.rows ((pageEdits resolve groups).take 0) := by
    rw [hsame.objects]
    rfl
  obtain ⟨hone, honeTokens⟩ := whole_delivery hpage hplain hids hrestored' honce hempty
    (Or.inl hsame.sources)
  exact ⟨ObjectTable.ext (hmany.trans hone.symm), by rw [hmanyTokens, honeTokens]⟩

/-- Left alone, a delivery comes to its end. -/
theorem exists_delivery (e : Engine) (this : SyncSource) (data : Option JsonObject) (w : World)
    (hgo : w.syncState.isContinueSync = true) : ∃ w', Delivery false e this data w w' := by
  obtain ⟨ms, hrun, hown⟩ := run_exec step uiStep (processServerData e this data) w
  refine ⟨_, ⟨⟨ms, _, hrun, fun m hm => ?_⟩, hgo⟩⟩
  obtain ⟨i, x, rfl⟩ := hown m hm
  rfl

def contactStart : World :=
  { sampleStart with
    sources := ⟨[⟨1, some "http://sync/Contact", some "Contact", some 1, some "session"⟩], by decide⟩ }

/-- The merge is stopped after the first insert; the next session gets the page again. -/
theorem redelivery_is_harmless_after_first_insert : ∃ w₁ w₂ v',
    Delivery true sampleEngine sampleSource samplePage contactStart w₁ ∧
    w₁.objects.rows.map ObjectValue.value = [some "Bob", some "4"] ∧
    Deliveries (groupSource sampleEngine sampleSource) 1 samplePage w₁ w₂ ∧
    Delivery false sampleEngine sampleSource samplePage contactStart v' ∧
    w₂.objects = v'.objects ∧ w₂.sources.token 1 = v'.sources.token 1 := by
  obtain ⟨ms, this', w₁, hrun, hcheck⟩ := exists_complete_run step uiStep
    (List.replicate 14 none ++ [some .stopSync] ++ List.replicate 10 none)
    (processServerData sampleEngine sampleSource samplePage) contactStart
    (fun ms _ w₁ => ms.all (isDelivery true) && (w₁.sources.token 1 = some 7 &&
      w₁.objects.rows.map ObjectValue.value = [some "Bob", some "4"])) (by decide +kernel)
  rw [Bool.and_eq_true, Bool.and_eq_true, List.all_eq_true] at hcheck
  obtain ⟨hms, hstored, hvalues⟩ := hcheck
  have hcut : Delivery true sampleEngine sampleSource samplePage contactStart w₁ :=
    ⟨⟨ms, this', hrun, hms⟩, rfl⟩
  obtain ⟨w₂, hwhole⟩ := exists_delivery sampleEngine { sampleSource with token := 7 } samplePage
    { w₁ with syncState := .esSyncAllSources } rfl
  have hrestored : Restored (groupSource sampleEngine sampleSource) 1 sampleEngine
      { sampleSource with token := 7 } { w₁ with syncState := .esSyncAllSources } :=
    ⟨rfl, rfl, by rw [of_decide_eq_true hstored]; rfl⟩
  have hsame : SameTables w₁ { w₁ with syncState := .esSyncAllSources } := ⟨rfl, rfl⟩
  have hagain : Deliveries (groupSource sampleEngine sampleSource) 1 samplePage w₁ w₂ :=
    .once hsame hrestored hwhole
  obtain ⟨v', honce⟩ := exists_delivery sampleEngine sampleSource samplePage contactStart rfl
  have hfirst : Restored (groupSource sampleEngine sampleSource) 1 sampleEngine sampleSource
      contactStart := ⟨rfl, rfl, by decide +kernel⟩
  have hpage : IsPage sampleSource samplePage 7 sampleGroups :=
    ⟨by decide +kernel, _, rfl, by decide +kernel⟩
  exact ⟨w₁, w₂, v', hcut, of_decide_eq_true hvalues, hagain, honce,
    redelivery_is_harmless _ 1 sampleEngine sampleEngine sampleSource sampleSource samplePage 7
      sampleGroups contactStart w₁ w₂ contactStart v' hpage (by decide +kernel) (by decide +kernel)
      hfirst hcut hagain ⟨rfl, rfl⟩ hfirst honce⟩

end Rhodes.Redelivery
