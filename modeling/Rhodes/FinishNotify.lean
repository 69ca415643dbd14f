import Rhodes.NotifyThread

/-!
A finish notification and the registration it is made for. Whatever the UI calls in between,
a registration that has been read is pushed once and is out of the map afterwards; that no
other registration is removed with it depends on whether a late one is there when the
notification clears.
-/
namespace Rhodes.FinishNotify

open Std (TreeMap)
open Database Statements Interleaving Source SyncEngine Notifications NotifyThread

/-- What a call does to the registrations of each source: it puts a new one, removes the old
one, or leaves it. -/
structure Updates (n n' : SyncNotify) (puts removes : Int → Prop) : Prop where
  grows : n.nextObj ≤ n'.nextObj
  new : ∀ id, puts id → ∃ sn, n'.mapSyncNotifications[id]? = some sn ∧ n.nextObj ≤ sn.obj ∧
    sn.obj < n'.nextObj
  apart : ∀ id id' sn sn', puts id → puts id' → n'.mapSyncNotifications[id]? = some sn →
    n'.mapSyncNotifications[id']? = some sn' → sn.obj = sn'.obj → id = id'
  gone : ∀ id, ¬ puts id → removes id → n'.mapSyncNotifications[id]? = none
  kept : ∀ id, ¬ puts id → ¬ removes id →
    n'.mapSyncNotifications[id]? = n.mapSyncNotifications[id]?

theorem updates_clear (n : SyncNotify) (source_id : Int) :
    Updates n (n.clearSyncNotification source_id) (fun _ => False) (fun id => id = source_id) where
  grows := le_refl _
  new := fun _ h => h.elim
  apart := fun _ _ _ _ h => h.elim
  gone := by
    rintro id - rfl
    simp [SyncNotify.clearSyncNotification]
  kept := by
    intro id _ hne
    simp [SyncNotify.clearSyncNotification, Std.TreeMap.getElem?_erase, Ne.symm hne]

theorem updates_put (n : SyncNotify) (url params : String) (source_id : Int) :
    Updates n (n.putSyncNotification url params source_id) (fun id => id = source_id)
      (fun _ => False) where
  grows := Nat.le_succ _
  new := by
    rintro id rfl
    exact ⟨⟨n.nextObj, url, params⟩, by simp [SyncNotify.putSyncNotification], le_refl _,
      Nat.lt_succ_self _⟩
  apart := fun id id' _ _ h h' _ _ _ => h.trans h'.symm
  gone := fun _ _ h => h.elim
  kept := by
    intro id hne _
    simp [SyncNotify.putSyncNotification, Std.TreeMap.getElem?_insert, Ne.symm hne]

/-- What is registered after a call is new, or was registered before. -/
theorem Updates.registered {n n' : SyncNotify} {puts removes : Int → Prop}
    (h : Updates n n' puts removes) {id : Int} {sn : SyncNotification}
    (hsn : n'.mapSyncNotifications[id]? = some sn) :
    (puts id ∧ n.nextObj ≤ sn.obj ∧ sn.obj < n'.nextObj) ∨
      (¬ puts id ∧ ¬ removes id ∧ n.mapSyncNotifications[id]? = some sn) := by
  by_cases hputs : puts id
  · obtain ⟨sn₀, hsn₀, hlow, hhigh⟩ := h.new id hputs
    cases hsn.symm.trans hsn₀
    exact Or.inl ⟨hputs, hlow, hhigh⟩
  · have hstays : ¬ removes id := by
      intro hremoves
      rw [h.gone id hputs hremoves] at hsn
      cases hsn
    exact Or.inr ⟨hputs, hstays, (h.kept id hputs hstays).symm.trans hsn⟩

/-- A call after a call. -/
theorem Updates.trans {n m k : SyncNotify} {puts removes puts' removes' : Int → Prop}
    (h : Updates n m puts removes) (h' : Updates m k puts' removes') :
    Updates n k (fun id => puts' id ∨ puts id ∧ ¬ removes' id)
      (fun id => removes id ∨ removes' id) where
  grows := le_trans h.grows h'.grows
  new := by
    intro id hputs
    by_cases hsecond : puts' id
    · obtain ⟨sn, hsn, hlow, hhigh⟩ := h'.new id hsecond
      exact ⟨sn, hsn, le_trans h.grows hlow, hhigh⟩
    · obtain ⟨hfirst, hstays⟩ := hputs.resolve_left hsecond
      obtain ⟨sn, hsn, hlow, hhigh⟩ := h.new id hfirst
      exact ⟨sn, (h'.kept id hsecond hstays).trans hsn, hlow, lt_of_lt_of_le hhigh h'.grows⟩
  apart := by
    -- What the first call puts has a lower number than what the second one puts.
    have hbelow : ∀ id sn, puts id → m.mapSyncNotifications[id]? = some sn →
        sn.obj < m.nextObj := by
      intro id sn hfirst hsn
      rcases h.registered hsn with ⟨-, -, hhigh⟩ | ⟨hnot, -, -⟩
      · exact hhigh
      · exact absurd hfirst hnot
    intro id id' sn sn' hid hid' hsn hsn' hobj
    rcases h'.registered hsn with ⟨hsecond, hlow, -⟩ | ⟨hsecond, -, hold⟩ <;>
      rcases h'.registered hsn' with ⟨hsecond', hlow', -⟩ | ⟨hsecond', -, hold'⟩
    · exact h'.apart id id' sn sn' hsecond hsecond' hsn hsn' hobj
    · have hhigh := hbelow id' sn' (hid'.resolve_left hsecond').1 hold'
      omega
    · have hhigh := hbelow id sn (hid.resolve_left hsecond).1 hold
      omega
    · exact h.apart id id' sn sn' (hid.resolve_left hsecond).1 (hid'.resolve_left hsecond').1
        hold hold' hobj
  gone := by
    intro id hputs hremoves
    rw [not_or, not_and, not_not] at hputs
    by_cases hsecond : removes' id
    · exact h'.gone id hputs.1 hsecond
    · have hfirst : ¬ puts id := fun hfirst => hsecond (hputs.2 hfirst)
      rw [h'.kept id hputs.1 hsecond]
      exact h.gone id hfirst (hremoves.resolve_right hsecond)
  kept := by
    intro id hputs hremoves
    rw [not_or] at hputs hremoves
    have hfirst : ¬ puts id := fun hfirst => hputs.2 ⟨hfirst, hremoves.2⟩
    rw [h'.kept id hputs.1 hremoves.2, h.kept id hfirst hremoves.1]

theorem Updates.congr {n n' : SyncNotify} {puts removes puts' removes' : Int → Prop}
    (h : Updates n n' puts removes) (hputs : ∀ id, puts' id ↔ puts id)
    (hremoves : ∀ id, removes' id ↔ removes id) : Updates n n' puts' removes' := by
  rwa [show puts' = puts from funext (fun id => propext (hputs id)),
    show removes' = removes from funext (fun id => propext (hremoves id))]

theorem updates_put_all (url params : String) (rows : List Int) (n : SyncNotify) :
    Updates n (rows.foldl (fun n id => n.putSyncNotification url params id) n)
      (fun id => id ∈ rows) (fun _ => False) := by
  induction rows generalizing n with
  | nil =>
    exact ⟨le_refl _, fun _ h => absurd h (by simp), fun _ _ _ _ h => absurd h (by simp),
      fun _ _ h => h.elim, fun _ _ _ => rfl⟩
  | cons id rows ih =>
    apply ((updates_put n url params id).trans (ih _)).congr
    · intro id'
      simp [or_comm]
    · simp

theorem updates_refl (n : SyncNotify) : Updates n n (fun _ => False) (fun _ => False) :=
  ⟨le_refl _, fun _ h => h.elim, fun _ _ _ _ h => h.elim, fun _ _ h => h.elim, fun _ _ _ => rfl⟩

theorem updates_clear_all (n : SyncNotify) :
    Updates n { n with mapSyncNotifications := ∅ } (fun _ => False) (fun _ => True) :=
  ⟨le_refl _, fun _ h => h.elim, fun _ _ _ _ h => h.elim, fun _ _ _ => by simp,
    fun _ _ h => absurd trivial h⟩

theorem updates_set (app : App) (n : SyncNotify) (rows : List Int) (source_id : Int)
    (strUrl strParams : String) :
    Updates n (n.setSyncNotification app.resolveUrl rows source_id strUrl strParams)
      ((UiCall.setSyncNotification rows source_id strUrl strParams).Registers app)
      (UiCall.setSyncNotification rows source_id strUrl strParams).Unregisters := by
  simp only [SyncNotify.setSyncNotification]
  by_cases hall : source_id = -1 <;> by_cases hurl : (app.resolveUrl strUrl).length > 0
  · simp only [if_pos hall, if_pos hurl]
    apply ((updates_clear_all n).trans (updates_put_all _ _ _ _)).congr
    · simp [UiCall.Registers, hall, hurl]
    · simp [UiCall.Unregisters, hall]
  · simp only [if_pos hall, if_neg hurl]
    apply (updates_clear_all n).congr
    · simp [UiCall.Registers, hall, hurl]
    · simp [UiCall.Unregisters, hall]
  · simp only [if_neg hall, if_pos hurl]
    apply (updates_put n _ _ _).congr
    · simp [UiCall.Registers, hall, hurl]
    · simp [UiCall.Unregisters, hall]
  · simp only [if_neg hall, if_neg hurl]
    apply (updates_refl n).congr
    · simp [UiCall.Registers, hall, hurl]
    · simp [UiCall.Unregisters, hall]

theorem uiStep_updates {app : App} {c : UiCall} {s s' : NotifyState}
    (h : uiStep app c s = some s') :
    Updates s.notify s'.notify (c.Registers app) c.Unregisters ∧
      s'.firing = s.firing.map (fun f : Firing => f.afterCall app c) ∧ s'.fired = s.fired ∧
      s'.pushed = s.pushed := by
  cases c with
  | setSyncNotification rows source_id strUrl strParams =>
    cases h
    exact ⟨updates_set app _ _ _ _ _, rfl, rfl, rfl⟩
  | clearSyncNotification source_id =>
    cases h
    exact ⟨updates_clear _ _, rfl, rfl, rfl⟩
  | setState state =>
    cases h
    exact ⟨updates_refl _, rfl, rfl, rfl⟩
  | setStopByUser stop =>
    cases h
    exact ⟨updates_refl _, rfl, rfl, rfl⟩

/-- The push carries the URL and the parameters of the registration. -/
def Reports (p : Push) (sn : SyncNotification) : Prop :=
  p.obj = sn.obj ∧ p.url = sn.url ∧ ∃ text, p.body = text ++ SyncNotify.paramsText sn

/-- No registration is read by two finish notifications, each one read is pushed once and in
order, and it is out of the map when its notification has cleared it. -/
structure ReportedOnce (s : NotifyState) : Prop where
  once : (s.fired.map SyncNotification.obj).Nodup
  reported : ∃ done, s.fired = done ++ s.awaiting ∧
    List.Forall₂ Reports (s.pushed.filter Push.finish) done
  removed : ∀ sn ∈ s.fired, ∀ id sn', s.registered id = some sn' → sn'.obj = sn.obj →
    ∃ f, s.firing = some f ∧ f.stage = .body ∧ f.src = id

/-- The registrations are told apart by their numbers. -/
structure Numbered (s : NotifyState) : Prop where
  below : ∀ id sn, s.registered id = some sn → sn.obj < s.notify.nextObj
  apart : ∀ id id' sn sn', s.registered id = some sn → s.registered id' = some sn' →
    sn.obj = sn'.obj → id = id'
  fired : ∀ sn ∈ s.fired, sn.obj < s.notify.nextObj

/-- What is registered for the source of a finish notification that is not done. -/
structure Window (s : NotifyState) (f : Firing) : Prop where
  fired : f.sn ∈ s.fired
  late : f.late = true → ∃ sn, s.registered f.src = some sn ∧ f.sn.obj < sn.obj
  own : f.late = false → ∀ sn, s.registered f.src = some sn → f.stage = .body ∧ sn.obj = f.sn.obj

structure Sound (s : NotifyState) : Prop where
  numbered : Numbered s
  once : ReportedOnce s
  window : ∀ f, s.firing = some f → Window s f

theorem Numbered.updates {s s' : NotifyState} {puts removes : Int → Prop} (hs : Numbered s)
    (h : Updates s.notify s'.notify puts removes) (hfired : s'.fired = s.fired) : Numbered s' where
  below := by
    intro id sn hsn
    rcases h.registered hsn with ⟨-, -, hhigh⟩ | ⟨-, -, hold⟩
    · exact hhigh
    · exact lt_of_lt_of_le (hs.below id sn hold) h.grows
  apart := by
    intro id id' sn sn' hsn hsn' hobj
    rcases h.registered hsn with ⟨hputs, hlow, -⟩ | ⟨-, -, hold⟩ <;>
      rcases h.registered hsn' with ⟨hputs', hlow', -⟩ | ⟨-, -, hold'⟩
    · exact h.apart id id' sn sn' hputs hputs' hsn hsn' hobj
    · have hbelow := hs.below id' sn' hold'
      omega
    · have hbelow := hs.below id sn hold
      omega
    · exact hs.apart id id' sn sn' hold hold' hobj
  fired := by
    intro sn hsn
    rw [hfired] at hsn
    exact lt_of_lt_of_le (hs.fired sn hsn) h.grows

/-- A registration that has been read and is still there was there before. -/
theorem Numbered.fired_old {s s' : NotifyState} {puts removes : Int → Prop} (hs : Numbered s)
    (h : Updates s.notify s'.notify puts removes) {sn sn' : SyncNotification} {id : Int}
    (hfired : sn ∈ s.fired) (hsn' : s'.registered id = some sn') (hobj : sn'.obj = sn.obj) :
    ¬ removes id ∧ s.registered id = some sn' := by
  rcases h.registered hsn' with ⟨-, hlow, -⟩ | ⟨-, hstays, hold⟩
  · have hbelow := hs.fired sn hfired
    omega
  · exact ⟨hstays, hold⟩

theorem awaiting_afterCall {app : App} {c : UiCall} {s s' : NotifyState}
    (h : s'.firing = s.firing.map (fun f : Firing => f.afterCall app c)) :
    s'.awaiting = s.awaiting := by
  unfold NotifyState.awaiting
  rw [h]
  cases s.firing <;> rfl

/-- A call of the UI. -/
theorem uiStep_sound {app : App} {c : UiCall} {s s' : NotifyState} (hs : Sound s)
    (h : uiStep app c s = some s') : Sound s' := by
  obtain ⟨hupd, hfiring, hfired, hpushed⟩ := uiStep_updates h
  refine ⟨hs.numbered.updates hupd hfired, ⟨?_, ?_, ?_⟩, ?_⟩
  · rw [hfired]
    exact hs.once.once
  · rw [hfired, hpushed, awaiting_afterCall hfiring]
    exact hs.once.reported
  · intro sn hsn id sn' hsn' hobj
    rw [hfired] at hsn
    have hold := (hs.numbered.fired_old hupd hsn hsn' hobj).2
    obtain ⟨f, hf, hstage, hsrc⟩ := hs.once.removed sn hsn id sn' hold hobj
    exact ⟨f.afterCall app c, by rw [hfiring, hf]; rfl, hstage, hsrc⟩
  · intro f' hf'
    rw [hfiring] at hf'
    obtain ⟨f, hf, rfl⟩ := Option.map_eq_some_iff.mp hf'
    obtain ⟨hmem, hlate, hown⟩ := hs.window f hf
    have hbelow := hs.numbered.fired f.sn hmem
    refine ⟨hfired ▸ hmem, ?_, ?_⟩
    · intro hlate'
      by_cases hputs : c.Registers app f.src
      · obtain ⟨sn, hsn, hlow, -⟩ := hupd.new f.src hputs
        exact ⟨sn, hsn, lt_of_lt_of_le hbelow hlow⟩
      · by_cases hremoves : c.Unregisters f.src
        · simp [Firing.afterCall, hputs, hremoves] at hlate'
        · simp only [Firing.afterCall, if_neg hputs, if_neg hremoves] at hlate'
          obtain ⟨sn, hsn, hlt⟩ := hlate hlate'
          exact ⟨sn, (hupd.kept f.src hputs hremoves).trans hsn, hlt⟩
    · intro hlate' sn hsn
      change s'.registered f.src = some sn at hsn
      rcases hupd.registered hsn with ⟨hputs, -, -⟩ | ⟨hputs, hstays, hold⟩
      · simp [Firing.afterCall, hputs] at hlate'
      · simp only [Firing.afterCall, if_neg hputs, if_neg hstays] at hlate'
        exact hown hlate' sn hold

/-- A step that leaves the registrations and the records. -/
theorem Sound.same {s : NotifyState} (hs : Sound s) {n : SyncNotify}
    (hmap : n.mapSyncNotifications = s.notify.mapSyncNotifications)
    (hnext : n.nextObj = s.notify.nextObj) : Sound { s with notify := n } := by
  have hreg : ∀ id, NotifyState.registered { s with notify := n } id = s.registered id := by
    intro id
    show n.mapSyncNotifications[id]? = _
    rw [hmap]
    rfl
  refine ⟨⟨?_, ?_, ?_⟩, ⟨hs.once.once, hs.once.reported, ?_⟩, ?_⟩
  · intro id sn hsn
    rw [hreg] at hsn
    exact hnext ▸ hs.numbered.below id sn hsn
  · intro id id' sn sn' hsn hsn'
    rw [hreg] at hsn hsn'
    exact hs.numbered.apart id id' sn sn' hsn hsn'
  · exact fun sn hsn => hnext ▸ hs.numbered.fired sn hsn
  · intro sn hsn id sn' hsn'
    rw [hreg] at hsn'
    exact hs.once.removed sn hsn id sn' hsn'
  · intro f hf
    obtain ⟨hmem, hlate, hown⟩ := hs.window f hf
    refine ⟨hmem, ?_, ?_⟩
    · rw [hreg]
      exact hlate
    · rw [hreg]
      exact hown

theorem makeBody_same (s : NotifyState) (src : SyncSource) (bFinish : Bool) (nErrCode : Nat)
    (sn : SyncNotification) :
    (s.makeBody src bFinish nErrCode sn).2.mapSyncNotifications = s.notify.mapSyncNotifications ∧
      (s.makeBody src bFinish nErrCode sn).2.nextObj = s.notify.nextObj := by
  simp only [NotifyState.makeBody, SyncNotify.makeSyncBody, SyncNotify.statusText]
  cases bFinish with
  | false => exact ⟨rfl, rfl⟩
  | true =>
    simp only [SyncNotify.makeCreateObjectErrorBody]
    cases s.notify.hashCreateObjectErrors[src.id]? <;> exact ⟨rfl, rfl⟩

/-- The body that is made for a registration reports it. -/
theorem makeBody_reports (s : NotifyState) (src : SyncSource) (bFinish : Bool) (nErrCode : Nat)
    (sn : SyncNotification) :
    Reports ⟨sn.url, (s.makeBody src bFinish nErrCode sn).1, sn.obj, bFinish⟩ sn :=
  ⟨rfl, rfl, s.notify.syncBodyText src _, rfl⟩

section Steps

variable {app : App} {s : NotifyState}

section MakeBody

variable {src : SyncSource} {sn : SyncNotification}

theorem notifyStep_makeBody (app : App) (hsn : s.registered src.id = some sn) (nErrCode : Nat) :
    notifyStep app (.makeBody src true nErrCode) s =
      { s with
        notify := (s.makeBody src true nErrCode sn).2
        fired := s.fired ++ [sn]
        firing := some ⟨src.id, sn, .body, false⟩ } := by
  simp only [notifyStep, hsn, if_true]

theorem registered_makeBody (app : App) (hsn : s.registered src.id = some sn) (nErrCode : Nat)
    (id : Int) :
    (notifyStep app (.makeBody src true nErrCode) s).registered id = s.registered id := by
  rw [notifyStep_makeBody app hsn]
  show (s.makeBody src true nErrCode sn).2.mapSyncNotifications[id]? = _
  rw [(makeBody_same s src true nErrCode sn).1]
  rfl

theorem makeBody_numbered (app : App) (hs : Sound s) (hsn : s.registered src.id = some sn)
    (nErrCode : Nat) : Numbered (notifyStep app (.makeBody src true nErrCode) s) := by
  obtain ⟨hmap, hnext⟩ := makeBody_same s src true nErrCode sn
  obtain ⟨hnumbered, -, -⟩ := hs.same hmap hnext
  rw [notifyStep_makeBody app hsn]
  refine ⟨hnumbered.below, hnumbered.apart, ?_⟩
  intro sn' hsn'
  rcases List.mem_append.mp hsn' with hold | hnew
  · exact hnumbered.fired sn' hold
  · rw [List.mem_singleton.mp hnew]
    exact hnext ▸ hs.numbered.below src.id sn hsn

theorem makeBody_once (app : App) (hs : Sound s) (hnone : s.firing = none)
    (hsn : s.registered src.id = some sn) (nErrCode : Nat) :
    ReportedOnce (notifyStep app (.makeBody src true nErrCode) s) := by
  have hreg := registered_makeBody app hsn nErrCode
  have hstep := notifyStep_makeBody app hsn nErrCode
  -- A registration that has been read before is out of the map, so this one is new.
  have hgone : ∀ sn' ∈ s.fired, ∀ id sn'', s.registered id = some sn'' → sn''.obj ≠ sn'.obj := by
    intro sn' hsn' id sn'' hsn'' hobj
    obtain ⟨f, hf, -⟩ := hs.once.removed sn' hsn' id sn'' hsn'' hobj
    rw [hnone] at hf
    cases hf
  refine ⟨?_, ?_, ?_⟩
  · rw [hstep]
    show ((s.fired ++ [sn]).map SyncNotification.obj).Nodup
    rw [List.map_append, List.nodup_append]
    refine ⟨hs.once.once, by simp, ?_⟩
    intro k hk k' hk' heq
    obtain ⟨sn', hsn', rfl⟩ := List.mem_map.mp hk
    have hobj : k' = sn.obj := by simpa using hk'
    exact hgone sn' hsn' src.id sn hsn (heq.trans hobj).symm
  · rw [hstep]
    obtain ⟨done, hdone, hreports⟩ := hs.once.reported
    have hawait : s.awaiting = [] := by
      simp only [NotifyState.awaiting, hnone]
    rw [hawait, List.append_nil] at hdone
    exact ⟨done, by rw [← hdone]; rfl, hreports⟩
  · intro sn' hsn' id sn'' hsn'' hobj
    rw [hreg] at hsn''
    rw [hstep] at hsn' ⊢
    rcases List.mem_append.mp hsn' with hold | hnew
    · exact absurd hobj (hgone sn' hold id sn'' hsn'')
    · rw [List.mem_singleton.mp hnew] at hobj
      exact ⟨_, rfl, rfl, hs.numbered.apart _ _ _ _ hsn hsn'' hobj.symm⟩

/-- The body of a finish notification is made while no other one is under way. -/
theorem makeBody_sound (app : App) (hs : Sound s) (hnone : s.firing = none)
    (hsn : s.registered src.id = some sn) (nErrCode : Nat) :
    Sound (notifyStep app (.makeBody src true nErrCode) s) := by
  have hreg := registered_makeBody app hsn nErrCode
  have hstep := notifyStep_makeBody app hsn nErrCode
  refine ⟨makeBody_numbered app hs hsn nErrCode, makeBody_once app hs hnone hsn nErrCode, ?_⟩
  intro f hf
  have hf' : f = ⟨src.id, sn, .body, false⟩ := by
    rw [hstep] at hf
    exact (Option.some.inj hf).symm
  subst hf'
  refine ⟨?_, fun hlate => Bool.noConfusion hlate, ?_⟩
  · rw [hstep]
    exact List.mem_append_right _ (List.mem_singleton_self _)
  · intro _ sn' hsn'
    rw [hreg, hsn] at hsn'
    cases hsn'
    exact ⟨rfl, rfl⟩

end MakeBody

/-- A clear of the source whose finish notification is under way, or of any source. -/
theorem clear_sound (hs : Sound s) {source_id : Int}
    (hsrc : ∀ f, s.firing = some f → f.src = source_id ∧ f.stage ≠ .cleared) :
    Sound (notifyStep app (.clearSyncNotification source_id) s) := by
  have hupd := updates_clear s.notify source_id
  have hawait : (notifyStep app (.clearSyncNotification source_id) s).awaiting = s.awaiting := by
    simp only [NotifyState.awaiting, notifyStep]
    cases hf : s.firing with
    | none => rfl
    | some f =>
      have hstage := (hsrc f hf).2
      cases hstage' : f.stage <;> simp_all [afterClear]
  refine ⟨hs.numbered.updates hupd rfl, ⟨hs.once.once, ?_, ?_⟩, ?_⟩
  · rw [hawait]
    exact hs.once.reported
  · intro sn hsn id sn' hsn' hobj
    obtain ⟨hne, hold⟩ := hs.numbered.fired_old hupd hsn hsn' hobj
    obtain ⟨f, hf, -, hid⟩ := hs.once.removed sn hsn id sn' hold hobj
    exact absurd (hid.symm.trans (hsrc f hf).1) hne
  · intro f' hf'
    cases hf : s.firing with
    | none => simp [notifyStep, hf, afterClear] at hf'
    | some f =>
      simp only [notifyStep, hf, afterClear] at hf'
      split at hf'
      · cases hf'
        refine ⟨(hs.window f hf).fired, fun hlate => Bool.noConfusion hlate, ?_⟩
        intro _ sn hsn
        have hgone := hupd.gone f.src id (hsrc f hf).1
        exact absurd (hgone.symm.trans hsn) (by simp)
      · cases hf'

/-- The finish notification under way is pushed. -/
theorem push_sound (app : App) (hs : Sound s) {f : Firing} (hf : s.firing = some f)
    (hstage : f.stage = .cleared)
    {p : Push} (hp : Reports p f.sn) (hfinish : p.finish = true) :
    Sound (notifyStep app (.pushData p) s) := by
  obtain ⟨hnumbered, ⟨honce, ⟨done, hdone, hreports⟩, hremoved⟩, hwindow⟩ := hs
  have hawait : s.awaiting = [f.sn] := by
    simp [NotifyState.awaiting, hf, hstage]
  have hawait' : (notifyStep app (.pushData p) s).awaiting = [] := by
    simp only [NotifyState.awaiting, notifyStep, hf, Option.map_some]
    split <;> rename_i hsome
    · split at hsome
      · cases hsome
        rfl
      · cases hsome
    · rfl
  refine ⟨⟨hnumbered.below, hnumbered.apart, hnumbered.fired⟩, ⟨honce, ?_, ?_⟩, ?_⟩
  · refine ⟨done ++ [f.sn], ?_, ?_⟩
    · rw [hawait', List.append_nil, ← hawait]
      exact hdone
    · show List.Forall₂ Reports ((s.pushed ++ [p]).filter Push.finish) _
      rw [List.filter_append, List.filter_cons_of_pos hfinish]
      exact List.rel_append hreports (List.Forall₂.cons hp List.Forall₂.nil)
  · intro sn hsn id sn' hsn' hobj
    obtain ⟨f', hf', hbody, -⟩ := hremoved sn hsn id sn' hsn' hobj
    cases hf.symm.trans hf'
    rw [hstage] at hbody
    cases hbody
  · intro f' hf'
    obtain ⟨hmem, hlate, hown⟩ := hwindow f hf
    simp only [notifyStep, hf, Option.map_some] at hf'
    split at hf'
    · cases hf'
      refine ⟨hmem, hlate, ?_⟩
      intro hnot sn hsn
      have hbody := (hown hnot sn hsn).1
      rw [hstage] at hbody
      cases hbody
    · cases hf'

end Steps

/-- Every step keeps `Sound`, and a notification under way clears its own source only. -/
def Good (app : App) (i : NotifyStmt) (s : NotifyState) : Prop :=
  Sound (notifyStep app i s) ∧
    ∀ source_id f, i = .clearSyncNotification source_id → s.firing = some f → f.src = source_id

def notifying (app : App) : Discipline NotifyStmt NotifyState UiCall where
  step := notifyStep app
  env := uiStep app
  ok := fun _ => True
  goal := Good app

/-- No finish notification is under way. -/
def Idle (s : NotifyState) : Prop := Sound s ∧ s.firing = none

/-- The finish notification with this push is under way. -/
def UnderWay (src : Int) (p : Push) (stage : Stage) (s : NotifyState) : Prop :=
  Sound s ∧ ∃ f, s.firing = some f ∧ f.src = src ∧ f.stage = stage ∧ Reports p f.sn

section Programs

variable {app : App}

theorem idle_stable : (notifying app).Stable Idle := by
  rintro s s' ⟨hs, hnone⟩ ⟨c, hc, -⟩
  refine ⟨uiStep_sound hs hc, ?_⟩
  rw [(uiStep_updates hc).2.1, hnone]
  rfl

theorem underWay_stable (src : Int) (p : Push) (stage : Stage) :
    (notifying app).Stable (UnderWay src p stage) := by
  rintro s s' ⟨hs, f, hf, hsrc, hstage, hreports⟩ ⟨c, hc, -⟩
  refine ⟨uiStep_sound hs hc, f.afterCall app c, ?_, hsrc, hstage, hreports⟩
  rw [(uiStep_updates hc).2.1, hf]
  rfl

/-- The statements that leave the registrations alone. -/
def Quiet : NotifyStmt → Prop
  | .makeBody _ _ _ => False
  | .clearSyncNotification _ => False
  | .pushData _ => False
  | _ => True

theorem quiet_idle {i : NotifyStmt} (hi : Quiet i) {s : NotifyState} (hs : Idle s) :
    Good app i s ∧ Idle (notifyStep app i s) := by
  have hidle : Idle (notifyStep app i s) := by
    obtain ⟨hsound, hnone⟩ := hs
    refine ⟨?_, ?_⟩
    · cases i <;> first | exact hi.elim | exact hsound | exact hsound.same rfl rfl
    · cases i <;> first | exact hi.elim | exact hnone
  refine ⟨⟨hidle.1, ?_⟩, hidle⟩
  rintro source_id f rfl -
  exact hi.elim

theorem quiet_triple {i : NotifyStmt} (hi : Quiet i) {α β : Type} (g : NotifyState → α)
    {k : α → Notifying β} (hk : ∀ a, (notifying app).Triple Idle (k a) (fun _ => Idle)) :
    (notifying app).Triple Idle ((Prog.perform i g).bind k) (fun _ => Idle) := by
  apply Discipline.Triple.perform_bind (fun _ => Idle) idle_stable
  · exact fun s hs _ => quiet_idle hi hs
  · exact hk

theorem done_triple : (notifying app).Triple Idle (pure () : Notifying Unit) (fun _ => Idle) :=
  Discipline.Triple.ret idle_stable (fun _ hs => hs)

theorem quiet_execute {i : NotifyStmt} (hi : Quiet i) :
    (notifying app).Triple Idle (execute i) (fun _ => Idle) :=
  quiet_triple hi (fun _ => ()) (k := pure) (fun _ => done_triple)

theorem clear_body_triple (src : Int) (p : Push) :
    (notifying app).Triple (UnderWay src p .body) (execute (.clearSyncNotification src))
      (fun _ => UnderWay src p .cleared) := by
  apply Discipline.Triple.act (underWay_stable src p .body)
  rintro s ⟨hs, f, hf, hsrc, hstage, hreports⟩ -
  have hunder : UnderWay src p .cleared (notifyStep app (.clearSyncNotification src) s) := by
    refine ⟨clear_sound hs ?_, { f with stage := .cleared, late := false }, ?_, hsrc, rfl, hreports⟩
    · intro f' hf'
      cases hf.symm.trans hf'
      exact ⟨hsrc, by rw [hstage]; decide⟩
    · simp [notifyStep, hf, afterClear, hstage]
  refine ⟨⟨hunder.1, ?_⟩, fun s' hs' => (underWay_stable src p .cleared).star hunder hs'⟩
  intro source_id f' hid hf'
  cases hid
  cases hf.symm.trans hf'
  exact hsrc

/-- The clear after the answer "stop", also for a notification of the progress. -/
theorem clear_stop_triple (src : Int) (p : Push) :
    (notifying app).Triple (fun s => Idle s ∨ UnderWay src p .answered s)
      (execute (.clearSyncNotification src)) (fun _ => Idle) := by
  apply Discipline.Triple.act
  · rintro s s' (hs | hs) hr
    · exact Or.inl (idle_stable s s' hs hr)
    · exact Or.inr (underWay_stable src p .answered s s' hs hr)
  · intro s hs _
    have hsrc : Sound s ∧ ∀ f, s.firing = some f → f.src = src ∧ f.stage = .answered := by
      rcases hs with ⟨hs, hnone⟩ | ⟨hs, f, hf, hsrc, hstage, -⟩
      · refine ⟨hs, fun f hf => ?_⟩
        rw [hnone] at hf
        cases hf
      · refine ⟨hs, fun f' hf' => ?_⟩
        cases hf.symm.trans hf'
        exact ⟨hsrc, hstage⟩
    have hidle : Idle (notifyStep app (.clearSyncNotification src) s) := by
      refine ⟨clear_sound hsrc.1 (fun f hf => ⟨(hsrc.2 f hf).1, ?_⟩), ?_⟩
      · rw [(hsrc.2 f hf).2]
        decide
      · cases hf : s.firing with
        | none => simp [notifyStep, hf, afterClear]
        | some f => simp [notifyStep, hf, afterClear, (hsrc.2 f hf).2]
    refine ⟨⟨hidle.1, ?_⟩, fun s' hs' => idle_stable.star hidle hs'⟩
    intro source_id f hid hf
    cases hid
    exact (hsrc.2 f hf).1

/-- What a push leaves, by its answer. -/
def Answered (src : Int) (p : Push) (resp : PushResponse) (s : NotifyState) : Prop :=
  if resp.isStop then Idle s ∨ UnderWay src p .answered s else Idle s

theorem answer_triple (src : Int) (p : Push) (resp : PushResponse) :
    (notifying app).Triple (Answered src p resp)
      (if resp.isStop then execute (.clearSyncNotification src) else pure ()) (fun _ => Idle) := by
  unfold Answered
  cases resp.isStop with
  | true => exact clear_stop_triple src p
  | false => exact done_triple

theorem pushData_finish {src : Int} {p : Push} (hfinish : p.finish = true) {s : NotifyState}
    (hs : UnderWay src p .cleared s) :
    Good app (.pushData p) s ∧
      Answered src p (app.answer (s.pushed ++ [p])) (notifyStep app (.pushData p) s) := by
  obtain ⟨hs, f, hf, hsrc, hstage, hreports⟩ := hs
  have hsound := push_sound app hs hf hstage hreports hfinish
  refine ⟨⟨hsound, fun source_id f hid => by cases hid⟩, ?_⟩
  unfold Answered
  split
  · rename_i hstop
    refine Or.inr ⟨hsound, { f with stage := .answered }, ?_, hsrc, rfl, hreports⟩
    simp [notifyStep, hf, hstop]
  · rename_i hstop
    refine ⟨hsound, ?_⟩
    simp [notifyStep, hstop]

theorem pushData_progress {src : Int} {p : Push} (hprogress : p.finish = false) {s : NotifyState}
    (hs : Idle s) :
    Good app (.pushData p) s ∧
      Answered src p (app.answer (s.pushed ++ [p])) (notifyStep app (.pushData p) s) := by
  obtain ⟨⟨hnumbered, ⟨honce, hreported, hremoved⟩, -⟩, hnone⟩ := hs
  have hfiring : (notifyStep app (.pushData p) s).firing = none := by
    simp [notifyStep, hnone]
  have hsound : Sound (notifyStep app (.pushData p) s) := by
    refine ⟨⟨hnumbered.below, hnumbered.apart, hnumbered.fired⟩, ⟨honce, ?_, ?_⟩, ?_⟩
    · obtain ⟨done, hdone, hreports⟩ := hreported
      refine ⟨done, ?_, ?_⟩
      · simp only [NotifyState.awaiting, hnone, hfiring] at hdone ⊢
        exact hdone
      · show List.Forall₂ Reports ((s.pushed ++ [p]).filter Push.finish) done
        rw [List.filter_append, List.filter_cons_of_neg (by simp [hprogress])]
        simpa using hreports
    · intro sn hsn id sn' hsn' hobj
      obtain ⟨f, hf, -⟩ := hremoved sn hsn id sn' hsn' hobj
      rw [hnone] at hf
      cases hf
    · intro f hf
      rw [hfiring] at hf
      cases hf
  refine ⟨⟨hsound, fun source_id f hid => by cases hid⟩, ?_⟩
  unfold Answered
  split
  · exact Or.inl ⟨hsound, hfiring⟩
  · exact ⟨hsound, hfiring⟩

theorem push_triple (src : SyncSource) (p : Push) (bFinish : Bool) (hp : p.finish = bFinish) :
    (notifying app).Triple (fun s => if bFinish then UnderWay src.id p .body s else Idle s)
      (push app src bFinish p) (fun _ => Idle) := by
  cases bFinish with
  | true =>
    refine Discipline.Triple.bind (clear_body_triple src.id p) (fun _ => ?_)
    apply Discipline.Triple.perform_bind (Answered src.id p) (underWay_stable src.id p .cleared)
    · exact fun s hs _ => pushData_finish hp hs
    · exact answer_triple src.id p
  | false =>
    apply Discipline.Triple.perform_bind (Answered src.id p) idle_stable
    · exact fun s hs _ => pushData_progress hp hs
    · exact answer_triple src.id p

/-- What making a body leaves, by what it returns. -/
def Made (src : SyncSource) (bFinish : Bool) (found : Option Push) (s : NotifyState) : Prop :=
  match found with
  | none => Idle s
  | some p => p.finish = bFinish ∧ if bFinish then UnderWay src.id p .body s else Idle s

theorem makeBody_made {src : SyncSource} {bFinish : Bool} {nErrCode : Nat} {s : NotifyState}
    (hs : Idle s) :
    Good app (.makeBody src bFinish nErrCode) s ∧
      Made src bFinish ((s.registered src.id).map (fun sn =>
        ⟨sn.url, (s.makeBody src bFinish nErrCode sn).1, sn.obj, bFinish⟩))
        (notifyStep app (.makeBody src bFinish nErrCode) s) := by
  have hgood : Sound (notifyStep app (.makeBody src bFinish nErrCode) s) →
      Good app (.makeBody src bFinish nErrCode) s :=
    fun hsound => ⟨hsound, fun source_id f hid => by cases hid⟩
  cases hsn : s.registered src.id with
  | none =>
    have hstep : notifyStep app (.makeBody src bFinish nErrCode) s = s := by
      simp only [notifyStep, hsn]
    rw [hstep] at hgood ⊢
    exact ⟨hgood hs.1, hs⟩
  | some sn =>
    cases bFinish with
    | true =>
      have hsound := makeBody_sound app hs.1 hs.2 hsn nErrCode
      refine ⟨hgood hsound, rfl, hsound, ⟨src.id, sn, .body, false⟩, ?_, rfl, rfl,
        makeBody_reports s src true nErrCode sn⟩
      simp only [notifyStep, hsn, if_true]
    | false =>
      obtain ⟨hmap, hnext⟩ := makeBody_same s src false nErrCode sn
      have hstep : notifyStep app (.makeBody src false nErrCode) s =
          { s with notify := (s.makeBody src false nErrCode sn).2 } := by
        simp only [notifyStep, hsn, Bool.false_eq_true, if_false]
      have hsound := hs.1.same hmap hnext
      rw [hstep] at hgood ⊢
      exact ⟨hgood hsound, rfl, hsound, hs.2⟩

theorem doFire_triple (psrc : Option SyncSource) (bFinish : Bool) (nErrCode : Nat) :
    (notifying app).Triple Idle (doFireSyncNotification app psrc bFinish nErrCode)
      (fun _ => Idle) := by
  cases psrc with
  | none => exact done_triple
  | some src =>
    apply quiet_triple (i := .isStoppedByUser) trivial
    intro stopped
    refine Discipline.Triple.ite (fun _ => done_triple) (fun _ => ?_)
    apply Discipline.Triple.perform_bind (Made src bFinish) idle_stable
    · exact fun s hs _ => makeBody_made hs
    · intro found
      cases found with
      | none => exact done_triple
      | some p =>
        intro s hs
        exact push_triple src p bFinish hs.1 s hs.2

theorem fire_triple (psrc : Option SyncSource) (bFinish : Bool) (nErrCode : Nat) :
    (notifying app).Triple Idle (fireSyncNotification app psrc bFinish nErrCode)
      (fun _ => Idle) := by
  apply quiet_triple (i := .getState) trivial
  intro state
  exact Discipline.Triple.ite (fun _ => done_triple) (fun _ => doFire_triple _ _ _)

theorem fireAll_triple (bFinish : Bool) (nErrCode : Nat) (sources : List SyncSource) :
    (notifying app).Triple Idle (fireAllSyncNotifications app bFinish nErrCode sources)
      (fun _ => Idle) := by
  induction sources with
  | nil => exact done_triple
  | cons src sources ih => exact Discipline.Triple.seq (doFire_triple _ _ _) (fun _ => ih)

theorem call_triple (c : NotifyCall) :
    (notifying app).Triple Idle (c.run app) (fun _ => Idle) := by
  cases c with
  | fireSyncNotification psrc bFinish nErrCode => exact fire_triple psrc bFinish nErrCode
  | onSyncSourceEnd src sources =>
    apply Discipline.Triple.seq (fire_triple _ _ _)
    intro _
    apply quiet_triple (i := .getState) trivial
    intro state
    refine Discipline.Triple.ite (fun _ => ?_) (fun _ => quiet_execute trivial)
    exact Discipline.Triple.seq (fireAll_triple _ _ _) (fun _ => quiet_execute trivial)
  | _ => exact quiet_execute trivial

theorem notifyAll_triple (calls : List NotifyCall) :
    (notifying app).Triple Idle (notifyAll app calls) (fun _ => Idle) := by
  induction calls with
  | nil => exact done_triple
  | cons c calls ih => exact Discipline.Triple.seq (call_triple c) (fun _ => ih)

end Programs

theorem start_idle (state : SyncState) (stopByUser : Bool) :
    Idle (NotifyState.start state stopByUser) := by
  have hnone : ∀ id, (NotifyState.start state stopByUser).registered id = none := by
    intro id
    show (∅ : TreeMap Int SyncNotification)[id]? = none
    simp
  refine ⟨⟨⟨?_, ?_, ?_⟩, ⟨List.nodup_nil, ⟨[], rfl, List.Forall₂.nil⟩, ?_⟩, ?_⟩, rfl⟩
  · intro id sn hsn
    rw [hnone] at hsn
    cases hsn
  · intro id id' sn sn' hsn
    rw [hnone] at hsn
    cases hsn
  · exact fun sn hsn => absurd hsn List.not_mem_nil
  · exact fun sn hsn => absurd hsn List.not_mem_nil
  · exact fun f hf => by cases hf

abbrev NotifyMove := Move NotifyStmt NotifyState UiCall

/-- A clear of a finish notification under way removes no registration but its own. -/
def RemovesOwn : NotifyMove → Prop
  | .own (.clearSyncNotification source_id) s => ∀ f sn, s.firing = some f →
      s.registered source_id = some sn → sn.obj = f.sn.obj
  | _ => True

/-- When a finish notification clears, the last call of the UI for its source since the body
was made, if there is one, does not register. -/
def Undisturbed : NotifyMove → Prop
  | .own (.clearSyncNotification _) s => ∀ f, s.firing = some f → f.late = false
  | _ => True

theorem removesOwn_iff {source_id : Int} {s : NotifyState} (hs : Sound s)
    (hsrc : ∀ f, s.firing = some f → f.src = source_id) :
    RemovesOwn (.own (.clearSyncNotification source_id) s) ↔
      Undisturbed (.own (.clearSyncNotification source_id) s) := by
  constructor
  · intro hown f hf
    cases hlate : f.late with
    | false => rfl
    | true =>
      obtain ⟨sn, hsn, hlt⟩ := (hs.window f hf).late hlate
      rw [hsrc f hf] at hsn
      have heq := hown f sn hf hsn
      omega
  · intro hcalm f sn hf hsn
    rw [← hsrc f hf] at hsn
    exact ((hs.window f hf).own (hcalm f hf) sn hsn).2

/-- Every registration that a finish notification reads is pushed once and removed, and no
other is removed by it, exactly when no late registration is there at its clears. -/
theorem finish_reported_once (app : App) (calls : List NotifyCall) (state : SyncState)
    (stopByUser : Bool) {q : Notifying Unit} {t : NotifyState} {ms : List NotifyMove}
    (hrun : Run (notifyStep app) (uiStep app) (notifyAll app calls)
      (NotifyState.start state stopByUser) ms q t) :
    ((∀ x ∈ ms.map Move.state ++ [t], ReportedOnce x) ∧ (q = .ret () → t.awaiting = []) ∧
      ∀ m ∈ ms, RemovesOwn m) ↔ ∀ m ∈ ms, Undisturbed m := by
  have hstart := start_idle state stopByUser
  obtain ⟨hgood, hend⟩ := Discipline.wp_run (D := notifying app) hrun
    (notifyAll_triple calls _ hstart) (fun _ _ => trivial)
  obtain ⟨hall, hlast⟩ := Run.invariant_of_moves hrun hstart.1 (fun i x hx _ => (hgood i x hx).1)
    (fun _ _ _ _ hu hsound => uiStep_sound hsound hu)
  have hiff : ∀ m ∈ ms, RemovesOwn m ↔ Undisturbed m := by
    intro m hm
    cases m with
    | env c x => exact Iff.rfl
    | own i x =>
      cases i with
      | clearSyncNotification source_id =>
        exact removesOwn_iff (hall _ hm) (fun f => (hgood _ x hm).2 source_id f rfl)
      | _ => exact Iff.rfl
  constructor
  · rintro ⟨-, -, hown⟩ m hm
    exact (hiff m hm).mp (hown m hm)
  · intro hcalm
    refine ⟨?_, ?_, fun m hm => (hiff m hm).mpr (hcalm m hm)⟩
    · intro x hx
      rcases List.mem_append.mp hx with hx | hx
      · obtain ⟨m, hm, rfl⟩ := List.mem_map.mp hx
        exact (hall m hm).once
      · rw [List.mem_singleton.mp hx]
        exact hlast.once
    · intro hq
      simp only [NotifyState.awaiting, (hend () hq).2]

/-- An application that takes every notification. -/
def sampleApp : App := ⟨id, fun _ => ⟨true, none⟩⟩

/-- The end of a sync of one source. -/
def oneFinish : List NotifyCall := [.fireSyncNotification (some sampleSource) true 0]

/-- The clear removes a registration that was not reported. -/
def removesOther : NotifyMove → Bool
  | .own (.clearSyncNotification source_id) s =>
      s.firing.any (fun f => (s.registered source_id).any (fun sn => sn.obj ≠ f.sn.obj))
  | _ => false

theorem removesOther_not_own {m : NotifyMove} (h : removesOther m = true) : ¬ RemovesOwn m := by
  intro hown
  cases m with
  | env c s => cases h
  | own i s =>
    cases i with
    | clearSyncNotification source_id =>
      simp only [removesOther, Option.any_eq_true_iff_get, decide_eq_true_eq] at h
      obtain ⟨hf, hsn, hne⟩ := h
      exact hne (hown _ _ (Option.some_get hf).symm (Option.some_get hsn).symm)
    | _ => cases h

def isLate : NotifyMove → Bool
  | .own (.clearSyncNotification _) s => s.firing.any Firing.late
  | _ => false

theorem undisturbed_of_not_isLate {m : NotifyMove} (h : isLate m = false) : Undisturbed m := by
  cases m with
  | env c s => trivial
  | own i s =>
    cases i with
    | clearSyncNotification source_id =>
      intro f hf
      simpa [isLate, hf] using h
    | _ => trivial

/-- A registration is replaced after the body of its finish notification was made, and the
new one is removed without having been reported. -/
theorem late_registration_removed : ∃ ms t,
    Run (notifyStep sampleApp) (uiStep sampleApp) (notifyAll sampleApp oneFinish)
      (NotifyState.start .esSyncSource false) ms (.ret ()) t ∧
    ¬ ((∀ x ∈ ms.map Move.state ++ [t], ReportedOnce x) ∧ t.awaiting = [] ∧
      ∀ m ∈ ms, RemovesOwn m) ∧
    t.registered 1 = none ∧ t.pushed.map Push.url = ["/app/first"] := by
  obtain ⟨ms, a, t, hrun, hcheck⟩ := exists_complete_run (notifyStep sampleApp) (uiStep sampleApp)
    [some (.setSyncNotification [1] 1 "/app/first" ""), none, none, none,
      some (.setSyncNotification [1] 1 "/app/second" ""), none, none]
    (notifyAll sampleApp oneFinish) (NotifyState.start .esSyncSource false)
    (fun ms _ t => ms.any removesOther && (t.registered 1).isNone &&
      t.pushed.map Push.url = ["/app/first"]) (by decide +kernel)
  simp only [Bool.and_eq_true, List.any_eq_true, Option.isNone_iff_eq_none, decide_eq_true_eq]
    at hcheck
  obtain ⟨⟨⟨m, hm, hother⟩, hgone⟩, hpushed⟩ := hcheck
  refine ⟨ms, t, hrun, ?_, hgone, hpushed⟩
  rintro ⟨-, -, hown⟩
  exact removesOther_not_own hother (hown m hm)

/-- A registration that stays the same until its finish notification. -/
theorem finish_reported_once_alone : ∃ ms t,
    Run (notifyStep sampleApp) (uiStep sampleApp) (notifyAll sampleApp oneFinish)
      (NotifyState.start .esSyncSource false) ms (.ret ()) t ∧
    t.fired.map SyncNotification.url = ["/app/first"] ∧ (∀ m ∈ ms, Undisturbed m) ∧
    ((∀ x ∈ ms.map Move.state ++ [t], ReportedOnce x) ∧
      ((.ret () : Notifying Unit) = .ret () → t.awaiting = []) ∧ ∀ m ∈ ms, RemovesOwn m) := by
  obtain ⟨ms, a, t, hrun, hcheck⟩ := exists_complete_run (notifyStep sampleApp) (uiStep sampleApp)
    [some (.setSyncNotification [1] 1 "/app/first" "a=1"), none, none, none, none, none]
    (notifyAll sampleApp oneFinish) (NotifyState.start .esSyncSource false)
    (fun ms _ t => ms.all (fun m => !isLate m) &&
      t.fired.map SyncNotification.url = ["/app/first"]) (by decide +kernel)
  simp only [Bool.and_eq_true, List.all_eq_true, Bool.not_eq_true', decide_eq_true_eq] at hcheck
  have hcalm : ∀ m ∈ ms, Undisturbed m := fun m hm => undisturbed_of_not_isLate (hcheck.1 m hm)
  exact ⟨ms, t, hrun, hcheck.2, hcalm,
    (finish_reported_once sampleApp oneFinish .esSyncSource false hrun).mpr hcalm⟩

end Rhodes.FinishNotify
