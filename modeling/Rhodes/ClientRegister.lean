import Mathlib
import Rhodes.ClientIds
import Rhodes.GuardedRuns

/-!
The client id and the push token of client_info over any interleaving of the threads. loadClientID
runs under its lock in any number of threads; the thread of the ClientRegister goes on with
doRegister, whose statements are outside of the lock. The user interface asks for a reset, and the
program may end and start again with another device pin between any two statements. The lock of
the database that a result set of doRegister keeps is left out, so that a run of the program is one
of these runs.
-/
namespace Rhodes.ClientRegister

open ClientIds GuardedRuns

section Model

/-- The statement a thread is about to execute. -/
inductive Place where
  | idle
  | locked
  | creating
  | created (clientId : String)
  | cleared (clientId : String)
  | resetting (clientId : String)
  | resetDone (clientId : String)
  | loaded (clientId : String)
  | returned (clientId : String)
  | posting (clientId : String)
  | posted (clientId : String)
  | registered
  deriving DecidableEq

/-- What comes of a request: there is no server to ask, it fails, or it is answered; the answer to
clientcreate has an id. -/
inductive Reply where
  | noServer
  | failed
  | answered (clientId : String)

def Reply.isOK : Reply → Bool
  | .answered _ => true
  | _ => false

/-- What requestClientIDByNet returns. -/
def Reply.createdId : Reply → String
  | .answered clientId => clientId
  | _ => ""

/-- The table, the threads, and what was returned, asked and accepted so far. A request to
clientregister is its client id and device pin; the port and the platform beside them are fixed. -/
structure State (τ : Type*) where
  rows : List ClientRow := []
  lock : Option τ := none
  place : τ → Place := fun _ => .idle
  devicePin : String
  loadedIds : List String := []
  requests : List (String × String) := []
  accepted : List (String × String) := []

/-- Whether the thread is inside the lock of loadClientID. -/
def Place.inside : Place → Bool
  | .idle | .returned _ | .posting _ | .posted _ | .registered => false
  | _ => true

/-- Whether the statement is one of doRegister. -/
def Place.registers : Place → Bool
  | .returned _ | .posting _ | .posted _ | .registered => true
  | _ => false

/-- What loadClientID does with the row it selects. -/
def afterSelect : List ClientRow → Place
  | [] => .creating
  | r :: _ =>
      if r.clientId = "" then .creating
      else if 0 < r.reset.getD 0 then .resetting r.clientId
      else .loaded r.clientId

/-- The token in the table is the one of the device and was sent. -/
def isSent (devicePin : String) : List ClientRow → Bool
  | [] => false
  | r :: _ => devicePin = r.token.getD "" && decide (0 < r.tokenSent.getD 0)

inductive Action (τ : Type*) where
  | run (t : τ) (reply : Reply)
  | fullReset
  | restart (devicePin : String)

variable {τ : Type*} [DecidableEq τ]

def State.goto (s : State τ) (t : τ) (p : Place) : State τ :=
  { s with place := Function.update s.place t p }

/-- One statement of loadClientID, or of doRegister in the thread `me`. -/
def advance (me t : τ) (reply : Reply) (s : State τ) : Option (State τ) :=
  match s.place t with
  | .idle => if s.lock = none then some { s.goto t .locked with lock := some t } else none
  | .locked => some (s.goto t (afterSelect s.rows))
  | .creating => some (s.goto t (.created reply.createdId))
  | .created clientId => some { s.goto t (.cleared clientId) with rows := [] }
  | .cleared clientId =>
      some { s.goto t (.loaded clientId) with rows := s.rows ++ [{ clientId }] }
  -- a clientreset that fails also stops the sync thread, and the id is returned all the same
  | .resetting clientId =>
      some (s.goto t (if reply.isOK then .resetDone clientId else .loaded clientId))
  | .resetDone clientId => some { s.goto t (.loaded clientId) with
      rows := s.rows.map
        (fun r => if r.clientId = clientId then { r with reset := some 0 } else r) }
  | .loaded clientId => some { s.goto t (if t = me then .returned clientId else .idle) with
      lock := none, loadedIds := clientId :: s.loadedIds }
  | .returned clientId => some (s.goto t (if clientId = "" then .idle
      else if isSent s.devicePin s.rows then .registered else .posting clientId))
  | .posting clientId =>
      match reply with
      | .noServer => some (s.goto t .idle)
      | .failed => some { s.goto t .idle with
          requests := (clientId, s.devicePin) :: s.requests }
      | .answered _ => some { s.goto t (.posted clientId) with
          requests := (clientId, s.devicePin) :: s.requests,
          accepted := (clientId, s.devicePin) :: s.accepted }
  | .posted _ => some { s.goto t .registered with
      rows := s.rows.map (fun r => { r with tokenSent := some 1, token := some s.devicePin }) }
  | .registered => none

def next (me : τ) (s : State τ) : Action τ → Option (State τ)
  | .run t reply => advance me t reply s
  | .fullReset => some { s with rows := s.rows.map (fun r => { r with reset := some 1 }) }
  | .restart devicePin => some { s with lock := none, place := fun _ => .idle, devicePin }

end Model

section Invariant

variable {τ : Type*} [DecidableEq τ]

/-- The ids in the table. -/
def State.ids (s : State τ) : List String := s.rows.map ClientRow.clientId

def Stored (ids : List String) (clientId : String) : Prop := clientId ≠ "" ∧ ids = [clientId]

def Vacant (ids : List String) : Prop := ∀ clientId ∈ ids, clientId = ""

/-- What a thread knows of the table at a statement. -/
def Fits (ids : List String) (devicePin : String) (accepted : List (String × String)) :
    Place → Prop
  | .creating | .created _ => Vacant ids
  | .cleared _ => ids = []
  | .resetting clientId | .resetDone clientId | .posting clientId => Stored ids clientId
  | .loaded clientId | .returned clientId => clientId ≠ "" → Stored ids clientId
  | .posted clientId => Stored ids clientId ∧ (clientId, devicePin) ∈ accepted
  | _ => True

/-- A row whose token is told as sent has a token that the server accepted for its id. -/
def Told (accepted : List (String × String)) (r : ClientRow) : Prop :=
  0 < r.tokenSent.getD 0 → ∃ devicePin, r.token = some devicePin ∧
    (r.clientId, devicePin) ∈ accepted

/-- The invariant of all runs. -/
structure Inv (me : τ) (s : State τ) : Prop where
  one : s.ids.length ≤ 1
  owner : ∀ t, (s.place t).inside = true → s.lock = some t
  fits : ∀ t, Fits s.ids s.devicePin s.accepted (s.place t)
  mine : ∀ t, (s.place t).registers = true → t = me
  loaded : ∀ clientId ∈ s.loadedIds, clientId ≠ "" → Stored s.ids clientId
  asked : ∀ p ∈ s.requests, Stored s.ids p.1
  told : ∀ r ∈ s.rows, Told s.accepted r
  unsent : ∀ t clientId, s.place t = .posting clientId → isSent s.devicePin s.rows = false

theorem not_stored_of_vacant {ids : List String} (h : Vacant ids) (clientId : String) :
    ¬Stored ids clientId := by
  rintro ⟨hne, rfl⟩
  exact hne (h clientId (List.mem_singleton_self _))

/-- In a table without an id no thread is in doRegister with one. -/
theorem fits_of_vacant {ids ids' : List String} {devicePin : String}
    {accepted : List (String × String)} {p : Place} (h : Vacant ids) (hp : p.inside = false)
    (hfits : Fits ids devicePin accepted p) : Fits ids' devicePin accepted p := by
  cases p with
  | returned clientId => exact fun hne => absurd (hfits hne) (not_stored_of_vacant h _)
  | posting clientId => exact absurd hfits (not_stored_of_vacant h _)
  | posted clientId => exact absurd hfits.1 (not_stored_of_vacant h _)
  | idle => trivial
  | registered => trivial
  | _ => cases hp

theorem fits_mono {ids : List String} {devicePin : String} {accepted : List (String × String)}
    {p : Place} (q : String × String) (h : Fits ids devicePin accepted p) :
    Fits ids devicePin (q :: accepted) p := by
  cases p with
  | posted clientId => exact ⟨h.1, List.mem_cons_of_mem _ h.2⟩
  | _ => exact h

theorem told_mono {accepted : List (String × String)} {r : ClientRow} (q : String × String)
    (h : Told accepted r) : Told (q :: accepted) r := by
  intro hsent
  obtain ⟨devicePin, htoken, hmem⟩ := h hsent
  exact ⟨devicePin, htoken, List.mem_cons_of_mem _ hmem⟩

variable {me t : τ} {s s' : State τ} {p : Place}

theorem not_registers_of_inside (h : p.inside = true) : p.registers = false := by
  cases p <;> first | rfl | cases h

omit [DecidableEq τ] in
theorem Inv.alone (h : Inv me s) (ht : (s.place t).inside = true) {u : τ} (hu : u ≠ t) :
    (s.place u).inside = false := by
  refine Bool.eq_false_iff.mpr fun hin => hu ?_
  exact Option.some.inj ((h.owner u hin).symm.trans (h.owner t ht))

/-- A thread goes on to another statement. -/
theorem Inv.goto (h : Inv me s) (hin : p.inside = true → s.lock = some t)
    (hfits : Fits s.ids s.devicePin s.accepted p) (hmine : p.registers = true → t = me)
    (hunsent : ∀ clientId, p = .posting clientId → isSent s.devicePin s.rows = false) :
    Inv me (s.goto t p) where
  one := h.one
  owner u hu := by
    by_cases hut : u = t
    · subst hut
      simp only [State.goto, Function.update_self] at hu
      exact hin hu
    · simp only [State.goto, Function.update_of_ne hut] at hu
      exact h.owner u hu
  fits u := by
    by_cases hut : u = t
    · subst hut
      simp only [State.goto, Function.update_self]
      exact hfits
    · simp only [State.goto, Function.update_of_ne hut]
      exact h.fits u
  mine u hu := by
    by_cases hut : u = t
    · subst hut
      simp only [State.goto, Function.update_self] at hu
      exact hmine hu
    · simp only [State.goto, Function.update_of_ne hut] at hu
      exact h.mine u hu
  loaded := h.loaded
  asked := h.asked
  told := h.told
  unsent u clientId hu := by
    by_cases hut : u = t
    · subst hut
      simp only [State.goto, Function.update_self] at hu
      exact hunsent clientId hu
    · simp only [State.goto, Function.update_of_ne hut] at hu
      exact h.unsent u clientId hu

omit [DecidableEq τ] in
/-- The rows change in columns other than the id. -/
theorem Inv.mapRows (h : Inv me s) {f : ClientRow → ClientRow}
    (hid : ∀ r, (f r).clientId = r.clientId)
    (htold : ∀ r ∈ s.rows, Told s.accepted (f r))
    (hunsent : ∀ u clientId, s.place u = .posting clientId →
      isSent s.devicePin (s.rows.map f) = false) :
    Inv me { s with rows := s.rows.map f } := by
  have hids : ({ s with rows := s.rows.map f } : State τ).ids = s.ids := by
    rw [State.ids, List.map_map]
    exact List.map_congr_left fun r _ => hid r
  refine ⟨?_, h.owner, fun u => ?_, h.mine, fun c hc hne => ?_, fun q hq => ?_, fun r hr => ?_,
    hunsent⟩
  · rw [hids]
    exact h.one
  · rw [hids]
    exact h.fits u
  · rw [hids]
    exact h.loaded c hc hne
  · rw [hids]
    exact h.asked q hq
  · obtain ⟨q, hq, rfl⟩ := List.mem_map.mp hr
    exact htold q hq

/-- The thread inside puts other rows in place of rows without an id. -/
theorem Inv.replaceRows (h : Inv me s) (ht : (s.place t).inside = true) (hvacant : Vacant s.ids)
    (hin : p.inside = true) {rows : List ClientRow} (hone : rows.length ≤ 1)
    (htold : ∀ r ∈ rows, Told s.accepted r)
    (hfits : Fits (rows.map ClientRow.clientId) s.devicePin s.accepted p) :
    Inv me { s.goto t p with rows } where
  one := by
    rw [State.ids, List.length_map]
    exact hone
  owner u hu := by
    by_cases hut : u = t
    · subst hut
      exact h.owner u ht
    · simp only [State.goto, Function.update_of_ne hut] at hu
      exact h.owner u hu
  fits u := by
    by_cases hut : u = t
    · subst hut
      simp only [State.goto, Function.update_self]
      exact hfits
    · simp only [State.goto, Function.update_of_ne hut]
      exact fits_of_vacant hvacant (h.alone ht hut) (h.fits u)
  mine u hu := by
    by_cases hut : u = t
    · subst hut
      simp only [State.goto, Function.update_self] at hu
      rw [not_registers_of_inside hin] at hu
      cases hu
    · simp only [State.goto, Function.update_of_ne hut] at hu
      exact h.mine u hu
  loaded c hc hne := absurd (h.loaded c hc hne) (not_stored_of_vacant hvacant c)
  asked q hq := absurd (h.asked q hq) (not_stored_of_vacant hvacant q.1)
  told := htold
  unsent u c hu := by
    by_cases hut : u = t
    · subst hut
      simp only [State.goto, Function.update_self] at hu
      rw [hu] at hin
      cases hin
    · simp only [State.goto, Function.update_of_ne hut] at hu
      have hfit := h.fits u
      rw [hu] at hfit
      exact absurd hfit (not_stored_of_vacant hvacant c)

/-- A thread takes the free lock. -/
theorem Inv.enter (h : Inv me s) (hlock : s.lock = none) :
    Inv me { s.goto t .locked with lock := some t } where
  one := h.one
  owner u hu := by
    by_cases hut : u = t
    · rw [hut]
    · simp only [State.goto, Function.update_of_ne hut] at hu
      have howner := h.owner u hu
      rw [hlock] at howner
      cases howner
  fits u := by
    by_cases hut : u = t
    · subst hut
      simp only [State.goto, Function.update_self]
      trivial
    · simp only [State.goto, Function.update_of_ne hut]
      exact h.fits u
  mine u hu := by
    by_cases hut : u = t
    · subst hut
      simp only [State.goto, Function.update_self] at hu
      cases hu
    · simp only [State.goto, Function.update_of_ne hut] at hu
      exact h.mine u hu
  loaded := h.loaded
  asked := h.asked
  told := h.told
  unsent u c hu := by
    by_cases hut : u = t
    · subst hut
      simp only [State.goto, Function.update_self] at hu
      cases hu
    · simp only [State.goto, Function.update_of_ne hut] at hu
      exact h.unsent u c hu

/-- A thread leaves the lock with the id it has loaded. -/
theorem Inv.leave (h : Inv me s) {c : String} (hp : s.place t = .loaded c) :
    Inv me { s.goto t (if t = me then .returned c else .idle) with
      lock := none, loadedIds := c :: s.loadedIds } := by
  have hfit := h.fits t
  rw [hp] at hfit
  have ht : (s.place t).inside = true := by
    rw [hp]
    rfl
  refine ⟨h.one, fun u hu => ?_, fun u => ?_, fun u hu => ?_, ?_, h.asked, h.told,
    fun u d hu => ?_⟩
  · by_cases hut : u = t
    · subst hut
      simp only [State.goto, Function.update_self] at hu
      split at hu <;> cases hu
    · simp only [State.goto, Function.update_of_ne hut] at hu
      rw [h.alone ht hut] at hu
      cases hu
  · by_cases hut : u = t
    · subst hut
      simp only [State.goto, Function.update_self]
      split
      · exact hfit
      · trivial
    · simp only [State.goto, Function.update_of_ne hut]
      exact h.fits u
  · by_cases hut : u = t
    · subst hut
      simp only [State.goto, Function.update_self] at hu
      split at hu
      · assumption
      · cases hu
    · simp only [State.goto, Function.update_of_ne hut] at hu
      exact h.mine u hu
  · exact List.forall_mem_cons.mpr ⟨hfit, h.loaded⟩
  · by_cases hut : u = t
    · subst hut
      simp only [State.goto, Function.update_self] at hu
      split at hu <;> cases hu
    · simp only [State.goto, Function.update_of_ne hut] at hu
      exact h.unsent u d hu

omit [DecidableEq τ] in
/-- A request is sent. -/
theorem Inv.request (h : Inv me s) {c : String} (hstored : Stored s.ids c) :
    Inv me { s with requests := (c, s.devicePin) :: s.requests } :=
  ⟨h.one, h.owner, h.fits, h.mine, h.loaded, List.forall_mem_cons.mpr ⟨hstored, h.asked⟩, h.told,
    h.unsent⟩

omit [DecidableEq τ] in
/-- The server accepts one. -/
theorem Inv.accept (h : Inv me s) (q : String × String) :
    Inv me { s with accepted := q :: s.accepted } :=
  ⟨h.one, h.owner, fun u => fits_mono q (h.fits u), h.mine, h.loaded, h.asked,
    fun r hr => told_mono q (h.told r hr), h.unsent⟩

theorem Inv.gotoInside (h : Inv me s) (ht : (s.place t).inside = true) (hin : p.inside = true)
    (hfits : Fits s.ids s.devicePin s.accepted p) : Inv me (s.goto t p) := by
  refine h.goto (fun _ => h.owner t ht) hfits (fun hreg => ?_) (fun c hc => ?_)
  · rw [not_registers_of_inside hin] at hreg
    cases hreg
  · rw [hc] at hin
    cases hin

theorem afterSelect_inside (rows : List ClientRow) : (afterSelect rows).inside = true := by
  cases rows with
  | nil => rfl
  | cons r rows =>
    rw [afterSelect]
    split_ifs <;> rfl

theorem fits_afterSelect {rows : List ClientRow} (hone : (rows.map ClientRow.clientId).length ≤ 1)
    (devicePin : String) (accepted : List (String × String)) :
    Fits (rows.map ClientRow.clientId) devicePin accepted (afterSelect rows) := by
  cases rows with
  | nil => exact fun c hc => absurd hc List.not_mem_nil
  | cons r rows =>
    rw [List.map_cons, List.length_cons] at hone
    have hnil : rows.map ClientRow.clientId = [] := List.eq_nil_of_length_eq_zero (by omega)
    rw [List.map_cons, hnil, afterSelect]
    split_ifs with hempty hreset
    · exact List.forall_mem_singleton.mpr hempty
    · exact ⟨hempty, rfl⟩
    · exact fun hne => ⟨hne, rfl⟩

theorem isSent_map {f : ClientRow → ClientRow} (hf : ∀ r, (f r).token = r.token ∧
    (f r).tokenSent = r.tokenSent) (devicePin : String) (rows : List ClientRow) :
    isSent devicePin (rows.map f) = isSent devicePin rows := by
  cases rows with
  | nil => rfl
  | cons r rows => rw [List.map_cons, isSent, isSent, (hf r).1, (hf r).2]

omit [DecidableEq τ] in
/-- A statement that writes only the reset column. -/
theorem Inv.writeReset (h : Inv me s) {f : ClientRow → ClientRow}
    (hf : ∀ r, (f r).clientId = r.clientId ∧ (f r).token = r.token ∧
      (f r).tokenSent = r.tokenSent) : Inv me { s with rows := s.rows.map f } := by
  refine h.mapRows (fun r => (hf r).1) (fun r hr => ?_) (fun u c hu => ?_)
  · have htold := h.told r hr
    rw [Told] at htold ⊢
    rwa [(hf r).1, (hf r).2.1, (hf r).2.2]
  · rw [isSent_map fun r => (hf r).2]
    exact h.unsent u c hu

/-- One statement of a thread keeps the invariant. -/
theorem Inv.advance {reply : Reply} (h : Inv me s)
    (hstep : ClientRegister.advance me t reply s = some s') : Inv me s' := by
  have hfit := h.fits t
  have howns := h.owner t
  have hmine := h.mine t
  unfold ClientRegister.advance at hstep
  cases hp : s.place t with
  | idle =>
    rw [hp] at hstep
    dsimp only at hstep
    split at hstep
    · rename_i hlock
      cases hstep
      exact h.enter hlock
    · cases hstep
  | locked =>
    rw [hp] at hstep
    cases hstep
    exact h.gotoInside (by rw [hp]; rfl) (afterSelect_inside _)
      (fits_afterSelect h.one _ _)
  | creating =>
    rw [hp] at hstep hfit
    cases hstep
    exact h.gotoInside (by rw [hp]; rfl) rfl hfit
  | created c =>
    rw [hp] at hstep hfit
    cases hstep
    exact h.replaceRows (by rw [hp]; rfl) hfit rfl (Nat.zero_le 1)
      (fun r hr => absurd hr List.not_mem_nil) rfl
  | cleared c =>
    rw [hp] at hstep hfit
    cases hstep
    have hrows : s.rows = [] := List.map_eq_nil_iff.mp hfit
    have hids : s.ids = [] := hfit
    rw [hrows, List.nil_append]
    refine h.replaceRows (by rw [hp]; rfl) ?_ rfl le_rfl ?_ (fun hne => ⟨hne, rfl⟩)
    · rw [hids]
      exact fun d hd => absurd hd List.not_mem_nil
    · exact List.forall_mem_singleton.mpr fun hsent => absurd hsent (lt_irrefl 0)
  | resetting c =>
    rw [hp] at hstep hfit
    cases hstep
    have hstored : Stored s.ids c := hfit
    split
    · exact h.gotoInside (by rw [hp]; rfl) rfl hstored
    · exact h.gotoInside (by rw [hp]; rfl) rfl fun _ => hstored
  | resetDone c =>
    rw [hp] at hstep
    cases hstep
    have hwritten := h.writeReset (f := fun r => if r.clientId = c then
      { r with reset := some 0 } else r) (fun r => by split <;> exact ⟨rfl, rfl, rfl⟩)
    have hstored := hwritten.fits t
    simp only [hp] at hstored
    exact hwritten.gotoInside (by rw [show _ = Place.resetDone c from hp]; rfl) rfl
      fun _ => hstored
  | loaded c =>
    rw [hp] at hstep
    cases hstep
    exact h.leave hp
  | returned c =>
    rw [hp] at hstep hfit hmine
    cases hstep
    split_ifs with hempty hsent
    · exact h.goto (fun hin => by cases hin) trivial (fun hreg => by cases hreg)
        (fun d hd => by cases hd)
    · exact h.goto (fun hin => by cases hin) trivial (fun _ => hmine rfl) (fun d hd => by cases hd)
    · exact h.goto (fun hin => by cases hin) (hfit hempty) (fun _ => hmine rfl)
        (fun _ _ => Bool.eq_false_iff.mpr hsent)
  | posting c =>
    rw [hp] at hstep hfit hmine
    have hstored : Stored s.ids c := hfit
    cases reply with
    | noServer =>
      cases hstep
      exact h.goto (fun hin => by cases hin) trivial (fun hreg => by cases hreg)
        (fun d hd => by cases hd)
    | failed =>
      cases hstep
      exact (h.request hstored).goto (fun hin => by cases hin) trivial (fun hreg => by cases hreg)
        (fun d hd => by cases hd)
    | answered _ =>
      cases hstep
      exact ((h.request hstored).accept (c, s.devicePin)).goto (fun hin => by cases hin)
        ⟨hstored, List.mem_cons_self⟩ (fun _ => hmine rfl) (fun d hd => by cases hd)
  | posted c =>
    rw [hp] at hstep hfit hmine
    cases hstep
    obtain ⟨⟨hne, hids⟩, haccepted⟩ := hfit
    refine (h.mapRows (f := fun r => { r with tokenSent := some 1, token := some s.devicePin })
      (fun r => rfl) (fun r hr _ => ⟨s.devicePin, rfl, ?_⟩) (fun u d hu => ?_)).goto
      (fun hin => by cases hin) trivial (fun _ => hmine rfl) (fun d hd => by cases hd)
    · have hid : r.clientId ∈ s.ids := List.mem_map_of_mem hr
      rw [hids, List.mem_singleton] at hid
      show (r.clientId, s.devicePin) ∈ s.accepted
      rwa [hid]
    · have hut : u = t := (h.mine u (by rw [hu]; rfl)).trans (hmine rfl).symm
      rw [hut, hp] at hu
      cases hu
  | registered =>
    rw [hp] at hstep
    cases hstep

/-- So does every step of the system. -/
theorem Inv.next {a : Action τ} (h : Inv me s) (hnext : ClientRegister.next me s a = some s') :
    Inv me s' := by
  cases a with
  | run t reply => exact h.advance hnext
  | fullReset =>
    cases hnext
    exact h.writeReset fun r => ⟨rfl, rfl, rfl⟩
  | restart devicePin =>
    cases hnext
    exact ⟨h.one, (fun u hu => by cases hu), (fun u => trivial), (fun u hu => by cases hu),
      h.loaded, h.asked, h.told, (fun u c hu => by cases hu)⟩

/-- A request is sent only with a token that was not sent. -/
theorem Inv.not_sent {a : Action τ} (h : Inv me s)
    (hnext : ClientRegister.next me s a = some s') (hne : s'.requests ≠ s.requests) :
    isSent s.devicePin s.rows = false := by
  cases a with
  | fullReset =>
    cases hnext
    exact absurd rfl hne
  | restart devicePin =>
    cases hnext
    exact absurd rfl hne
  | run t reply =>
    change ClientRegister.advance me t reply s = some s' at hnext
    unfold ClientRegister.advance at hnext
    cases hp : s.place t with
    | posting c => exact h.unsent t c hp
    | idle =>
      rw [hp] at hnext
      dsimp only at hnext
      split at hnext
      · cases hnext
        exact absurd rfl hne
      · cases hnext
    | registered =>
      rw [hp] at hnext
      cases hnext
    | _ =>
      rw [hp] at hnext
      cases hnext
      exact absurd rfl hne

/-- The device before its first start: no row in client_info and every thread at rest. -/
def State.new (devicePin : String) : State τ := { devicePin }

omit [DecidableEq τ] in
theorem inv_new (devicePin : String) : Inv me (State.new devicePin) where
  one := Nat.zero_le 1
  owner u hu := by cases hu
  fits u := trivial
  mine u hu := by cases hu
  loaded c hc := absurd hc List.not_mem_nil
  asked q hq := absurd hq List.not_mem_nil
  told r hr := absurd hr List.not_mem_nil
  unsent u c hu := by cases hu

end Invariant

section Runs

/-- One thread is inside the lock, the table has every id that was returned or sent, and a token
that is told as sent was accepted. -/
structure Sound {τ : Type*} (s : State τ) : Prop where
  alone : ∀ t u, (s.place t).inside = true → (s.place u).inside = true → t = u
  loaded : ∀ clientId ∈ s.loadedIds, clientId ≠ "" → Stored s.ids clientId
  asked : ∀ p ∈ s.requests, Stored s.ids p.1
  told : ∀ r ∈ s.rows, Told s.accepted r

variable {τ : Type*} [DecidableEq τ]

omit [DecidableEq τ] in
theorem Inv.sound {me : τ} {s : State τ} (h : Inv me s) : Sound s :=
  ⟨fun _ _ ht hu => Option.some.inj ((h.owner _ ht).symm.trans (h.owner _ hu)), h.loaded, h.asked,
    h.told⟩

/-- However the threads, the resets and the restarts follow each other, the device keeps the one
id that it was given, registers only that one, and sends a token only while it is not told as
sent. -/
theorem one_client_id (me : τ) (devicePin : String) (as : List (Action τ)) :
    AllStates (next me) Sound (State.new devicePin) as ∧
      AllSteps (next me) (fun s a => ∀ s', next me s a = some s' → s'.requests ≠ s.requests →
        isSent s.devicePin s.rows = false) (State.new devicePin) as := by
  have hkeeps : ∀ s a s', Inv me s → next me s a = some s' → Inv me s' :=
    fun _ _ _ h hnext => h.next hnext
  constructor
  · exact allStates_of_steps (Q := fun _ _ => True) (fun s a s' h hnext _ => hkeeps s a s' h hnext)
      (fun _ h => h.sound) (inv_new devicePin) (allSteps_of_forall (fun _ _ _ _ => trivial) _ _)
  · exact allSteps_of_inv hkeeps (fun _ _ _ h _ _ hnext hne => h.not_sent hnext hne)
      (inv_new devicePin) as

-- a first start: the id is asked, then the token is sent and told as sent
example : ((List.replicate 9 (Action.run true (.answered "A"))).foldlM (next true)
    (State.new "pin")).map (fun s => (s.rows, s.requests)) =
    some ([{ clientId := "A", token := some "pin", tokenSent := some 1 }], [("A", "pin")]) := by
  decide

end Runs

end Rhodes.ClientRegister
