import Rhodes.GuardedRuns
import Rhodes.SyncThread

/-!
The wait of the sync thread and the calls that end it: run and processCommands of
CSyncThread and SyncThread, wait and stopWait of CRhoThread and RhoThread. In C++ the test of
the queue, the flag m_isInWaitState and the wait are separate steps, and a call of
addSyncCommand reads the flag after it has left the lock of the queue. In Java the queue, the
flag and the wait are under one monitor.
-/
namespace Rhodes.WakeUps

open GuardedRuns SyncThread

/-- Who implements the wait: pthread_cond_wait, where a broadcast that nobody waits for is
nothing, the event of Windows, which stays set until a wait takes it, or a monitor. -/
inductive Port where
  | iphone
  | windows
  | java
  deriving DecidableEq

/-- Where the sync thread stands. `top` is the head of the loop of run; `tested`, `flagged`,
`blocked` and `woken` are inside its wait, and the rest is processCommands. -/
inductive Loc where
  | top
  | tested
  | flagged
  | blocked
  | woken
  | first
  | adding
  | added
  | loop
  | removing
  | running
  | exited
  deriving DecidableEq

/-- `pending` calls of stopWait have not read the flag yet, and `signalling` ones have found
it set and not called the implementation. -/
structure State where
  stackCommands : List SyncCommand := []
  isInWaitState : Bool := false
  event : Bool := false
  loc : Loc := .top
  pending : Nat := 0
  signalling : Nat := 0
  deriving DecidableEq

namespace State

/-- The calls of stopWait still to come. -/
def toCome (s : State) : Nat := s.pending + s.signalling

/-- stopWait of the implementation. -/
def signal (port : Port) (s : State) : State :=
  if s.loc = .blocked then { s with loc := .woken }
  else if port = .windows then { s with event := true }
  else s

/-- stopWait in the sync thread itself. -/
def ownStopWait (port : Port) (s : State) : State :=
  if s.isInWaitState then s.signal port else s

/-- The next step of the sync thread, where it has one. -/
def advance (port : Port) (s : State) : Option State :=
  match s.loc with
  | .top => some { s with loc := if s.stackCommands.isEmpty then .tested else .first }
  | .tested => some { s with isInWaitState := true, loc := .flagged }
  | .flagged =>
      some (if s.event then { s with event := false, loc := .woken }
        else { s with loc := .blocked })
  | .blocked => none
  | .woken => some { s with isInWaitState := false, loc := .first }
  | .first => some { s with loc := if s.stackCommands.isEmpty then .adding else .loop }
  | .adding =>
      some { s with stackCommands := addSyncCommand s.stackCommands .scNone, loc := .added }
  | .added => some { s.ownStopWait port with loc := .loop }
  | .loop => some { s with loc := if s.stackCommands.isEmpty then .top else .removing }
  | .removing => some { s with stackCommands := s.stackCommands.tail, loc := .running }
  | .running => some { s with loc := .loop }
  | .exited => none

/-- Whether the sync thread is inside its monitor, which the other threads need. -/
def inMonitor (port : Port) (s : State) : Bool :=
  port = .java && (s.loc = .tested || s.loc = .flagged)

/-- What happens: a step of the sync thread; it goes past the wait (Java: nWait below 0), it
finds the state esExit, its wait ends by itself, a command throws (Java); another thread appends
a command and has stopWait before it, calls stopWait alone, reads the flag in stopWait, or goes
on to the implementation. -/
inductive Action where
  | advance
  | skip
  | exit
  | timeout
  | throw
  | append (c : SyncCommand)
  | stopWait
  | readFlag
  | signal
  deriving DecidableEq

/-- What reading the flag leads to. In Java the notification is inside the same monitor. -/
def readFlag (port : Port) (s : State) : State :=
  if s.isInWaitState then
    if port = .java then { s with pending := s.pending - 1 }.signal port
    else { s with pending := s.pending - 1, signalling := s.signalling + 1 }
  else { s with pending := s.pending - 1 }

def next (port : Port) (s : State) : Action → Option State
  | .advance => s.advance port
  | .skip => if s.loc = .top then some { s with loc := .first } else none
  | .exit => if s.loc = .top ∨ s.loc = .first then some { s with loc := .exited } else none
  | .timeout => if s.loc = .blocked then some { s with loc := .woken } else none
  | .throw => if s.loc = .running ∧ port = .java then some { s with loc := .top } else none
  | .append c =>
      if s.inMonitor port then none
      else some { s with
        stackCommands := addSyncCommand s.stackCommands c, pending := s.pending + 1 }
  | .stopWait => some { s with pending := s.pending + 1 }
  | .readFlag =>
      if s.inMonitor port || s.pending = 0 then none else some (s.readFlag port)
  | .signal =>
      if s.signalling = 0 then none
      else some ({ s with signalling := s.signalling - 1 }.signal port)

/-- The sync thread is blocked with a command in the queue, and nobody is to wake it. -/
def Lost (s : State) : Prop := s.loc = .blocked ∧ s.stackCommands ≠ [] ∧ s.toCome = 0

/-- The steps of the sync thread alone. -/
def alone (port : Port) : Nat → State → Option State
  | 0, s => some s
  | k + 1, s => (s.advance port).bind (alone port k)

/-- No wake-up is lost, neither now nor when the sync thread goes on alone. -/
def Wakeful (port : Port) (s : State) : Prop := ∀ k s', s.alone port k = some s' → ¬s'.Lost

/-- The sync thread has found the queue empty and is not yet in a wait that can be ended. -/
def InWindow (s : State) : Prop := s.loc = .tested ∨ s.loc = .flagged

/-- Whether the action is the end of a call of stopWait that does nothing. -/
def idle (port : Port) (s : State) : Action → Bool
  | .readFlag => !s.isInWaitState
  | .signal => port = .iphone
  | _ => false

/-- The last call of stopWait does not go by in the window when there is a command. -/
def Sound (port : Port) (s : State) (a : Action) : Prop :=
  s.idle port a = true → s.InWindow → s.stackCommands ≠ [] → s.event = true ∨ 2 ≤ s.toCome

/-- The invariant: a command that came after the test has its call of stopWait still to come, or
the event is set. -/
structure Inv (port : Port) (s : State) : Prop where
  flag : s.isInWaitState = true ↔ s.loc = .flagged ∨ s.loc = .blocked ∨ s.loc = .woken
  window : s.InWindow → s.stackCommands ≠ [] → s.event = true ∨ 0 < s.toCome
  blocked : s.loc = .blocked → s.stackCommands ≠ [] → 0 < s.toCome
  monitor : port = .java → s.signalling = 0

/-- Neither in the window nor in the wait. -/
def Outside (l : Loc) : Prop := l ≠ .tested ∧ l ≠ .flagged ∧ l ≠ .blocked ∧ l ≠ .woken

/-- Outside of its wait the sync thread has no flag set and no promise to keep. -/
theorem inv_outside {port : Port} {s : State} (hflag : s.isInWaitState = false)
    (hloc : Outside s.loc) (hmonitor : port = .java → s.signalling = 0) : s.Inv port where
  flag := by
    obtain ⟨-, hflagged, hblocked, hwoken⟩ := hloc
    simp [hflag, hflagged, hblocked, hwoken]
  window h := by
    rcases h with h | h
    · exact absurd h hloc.1
    · exact absurd h hloc.2.1
  blocked h := absurd h hloc.2.2.1
  monitor := hmonitor

theorem Inv.flag_eq_false {port : Port} {s : State} (h : s.Inv port) (hflagged : s.loc ≠ .flagged)
    (hblocked : s.loc ≠ .blocked) (hwoken : s.loc ≠ .woken) : s.isInWaitState = false := by
  rw [← Bool.not_eq_true, h.flag]
  simp [hflagged, hblocked, hwoken]

/-- A step of processCommands. -/
theorem Inv.move {port : Port} {s : State} (h : s.Inv port) (hloc : Outside s.loc)
    (queue : List SyncCommand) {l : Loc} (hl : Outside l) :
    State.Inv port { s with stackCommands := queue, loc := l } :=
  inv_outside (h.flag_eq_false hloc.2.1 hloc.2.2.1 hloc.2.2.2) hl h.monitor

theorem Inv.advance {port : Port} {s s' : State} (h : s.Inv port)
    (hadvance : s.advance port = some s') : s'.Inv port := by
  unfold State.advance at hadvance
  cases hloc : s.loc <;> simp only [hloc, Option.some.injEq, reduceCtorEq] at hadvance <;>
    subst hadvance
  case top =>
    by_cases hempty : s.stackCommands = []
    · have hflag := h.flag_eq_false (by simp [hloc]) (by simp [hloc]) (by simp [hloc])
      exact ⟨by simp [hflag, hempty], fun _ hsome => absurd hempty hsome, by simp [hempty],
        h.monitor⟩
    · exact h.move (by simp [Outside, hloc]) s.stackCommands (by simp [Outside, hempty])
  case tested => exact ⟨by simp, fun _ hsome => h.window (Or.inl hloc) hsome, by simp, h.monitor⟩
  case flagged =>
    have hflag := h.flag.mpr (Or.inl hloc)
    have hwindow := h.window (Or.inr hloc)
    split
    · exact ⟨by simp [hflag], by simp [InWindow], by simp, h.monitor⟩
    · rename_i hevent
      exact ⟨by simp [hflag], by simp [InWindow],
        fun _ hsome => (hwindow hsome).resolve_left hevent, h.monitor⟩
  case woken => exact inv_outside rfl (by simp [Outside]) h.monitor
  case first =>
    exact h.move (by simp [Outside, hloc]) s.stackCommands (by split <;> simp [Outside])
  case adding => exact h.move (by simp [Outside, hloc]) _ (by simp [Outside])
  case added =>
    have hflag := h.flag_eq_false (by simp [hloc]) (by simp [hloc]) (by simp [hloc])
    rw [ownStopWait, if_neg (by simp [hflag])]
    exact h.move (by simp [Outside, hloc]) s.stackCommands (by simp [Outside])
  case loop => exact h.move (by simp [Outside, hloc]) s.stackCommands (by split <;> simp [Outside])
  case removing => exact h.move (by simp [Outside, hloc]) _ (by simp [Outside])
  case running => exact h.move (by simp [Outside, hloc]) s.stackCommands (by simp [Outside])

/-- stopWait of the implementation for a call that is over with it. -/
theorem Inv.signal {port : Port} {s : State} {pending signalling : Nat} (h : s.Inv port)
    (hmonitor : port = .java → signalling = 0)
    (hwindow : s.InWindow → s.stackCommands ≠ [] → port ≠ .windows →
      s.event = true ∨ 0 < pending + signalling) :
    (State.signal port { s with pending, signalling }).Inv port := by
  unfold State.signal
  split
  · rename_i hloc
    have hflag := h.flag.mpr (Or.inr (Or.inl hloc))
    exact ⟨by simp [hflag], by simp [InWindow], by simp, hmonitor⟩
  · rename_i hloc
    split
    · exact ⟨h.flag, fun _ _ => Or.inl rfl, fun hblocked => absurd hblocked hloc, hmonitor⟩
    · rename_i hport
      exact ⟨h.flag, fun hin hsome => hwindow hin hsome hport,
        fun hblocked => absurd hblocked hloc, hmonitor⟩

theorem Inv.next {port : Port} {s s' : State} {a : Action} (h : s.Inv port)
    (hnext : s.next port a = some s') (hsound : s.Sound port a) : s'.Inv port := by
  cases a <;> simp only [State.next, Option.ite_none_right_eq_some,
    Option.ite_none_left_eq_some, Option.some.injEq] at hnext
  case advance => exact h.advance hnext
  case skip =>
    obtain ⟨hloc, rfl⟩ := hnext
    exact h.move (by simp [Outside, hloc]) s.stackCommands (by simp [Outside])
  case exit =>
    obtain ⟨hloc, rfl⟩ := hnext
    have hout : Outside s.loc := by rcases hloc with hloc | hloc <;> simp [Outside, hloc]
    exact h.move hout s.stackCommands (by simp [Outside])
  case timeout =>
    obtain ⟨hloc, rfl⟩ := hnext
    have hflag := h.flag.mpr (Or.inr (Or.inl hloc))
    exact ⟨by simp [hflag], by simp [InWindow], by simp, h.monitor⟩
  case throw =>
    obtain ⟨⟨hloc, -⟩, rfl⟩ := hnext
    exact h.move (by simp [Outside, hloc]) s.stackCommands (by simp [Outside])
  case append c =>
    obtain ⟨-, rfl⟩ := hnext
    have hpending : 0 < s.pending + 1 + s.signalling := by omega
    exact ⟨h.flag, fun _ _ => Or.inr hpending, fun _ _ => hpending, h.monitor⟩
  case stopWait =>
    obtain rfl := hnext
    have hpending : 0 < s.pending + 1 + s.signalling := by omega
    exact ⟨h.flag, fun _ _ => Or.inr hpending, fun _ _ => hpending, h.monitor⟩
  case readFlag =>
    obtain ⟨hcall, rfl⟩ := hnext
    simp only [Bool.or_eq_true, decide_eq_true_eq, not_or, Bool.not_eq_true] at hcall
    obtain ⟨hfree, hpending⟩ := hcall
    unfold State.readFlag
    split
    · split
      · -- Java: outside of the monitor there is no window
        rename_i hport
        refine h.signal h.monitor ?_
        intro hin
        rcases hin with hin | hin <;> simp [inMonitor, hport, hin] at hfree
      · rename_i hport
        have hsame : s.pending - 1 + (s.signalling + 1) = s.toCome := by
          unfold toCome
          omega
        refine ⟨h.flag, ?_, ?_, fun hjava => absurd hjava hport⟩
        · intro hin hsome
          rw [toCome, hsame]
          exact h.window hin hsome
        · intro hin hsome
          rw [toCome, hsame]
          exact h.blocked hin hsome
    · rename_i hflag
      have hidle : s.idle port .readFlag = true := by simpa [idle] using hflag
      refine ⟨h.flag, ?_, ?_, h.monitor⟩
      · intro hin hsome
        have htwo := hsound hidle hin hsome
        unfold toCome at htwo
        show s.event = true ∨ 0 < s.pending - 1 + s.signalling
        exact htwo.imp_right (fun _ => by omega)
      · intro hin
        exact absurd (h.flag.mpr (Or.inr (Or.inl hin))) hflag
  case signal =>
    obtain ⟨hcall, rfl⟩ := hnext
    refine h.signal (fun hport => by rw [h.monitor hport]) ?_
    intro hin hsome hport
    have hiphone : port = .iphone := by
      have hjava : port ≠ .java := fun hport => hcall (h.monitor hport)
      cases port <;> simp_all
    have htwo := hsound (by simp [idle, hiphone]) hin hsome
    unfold toCome at htwo
    exact htwo.imp_right (fun _ => by omega)

theorem Inv.not_lost {port : Port} {s : State} (h : s.Inv port) : ¬s.Lost := by
  rintro ⟨hloc, hsome, hnone⟩
  exact absurd (h.blocked hloc hsome) (by omega)

theorem Inv.wakeful {port : Port} {s : State} (h : s.Inv port) : s.Wakeful port := by
  intro k
  induction k generalizing s with
  | zero =>
    rintro s' ⟨⟩
    exact h.not_lost
  | succ k ih =>
    intro s' halone
    obtain ⟨t, hadvance, hrest⟩ := Option.bind_eq_some_iff.mp halone
    exact ih (h.advance hadvance) s' hrest

/-- In the window with a command and without a call to come, the sync thread falls asleep. -/
theorem not_wakeful {port : Port} {s : State} (hin : s.InWindow) (hsome : s.stackCommands ≠ [])
    (hevent : s.event = false) (hnone : s.toCome = 0) : ¬s.Wakeful port := by
  intro h
  rcases hin with hloc | hloc
  · refine h 2 { s with isInWaitState := true, loc := .blocked } ?_ ⟨rfl, hsome, hnone⟩
    simp [alone, advance, hloc, hevent]
  · refine h 1 { s with loc := .blocked } ?_ ⟨rfl, hsome, hnone⟩
    simp [alone, advance, hloc, hevent]

/-- A step that is not sound has lost the wake-up. -/
theorem Inv.sound_of_next {port : Port} {s s' : State} {a : Action} (h : s.Inv port)
    (hnext : s.next port a = some s') (hwakeful : s'.Wakeful port) : s.Sound port a := by
  intro hidle hin hsome
  by_contra hlast
  obtain ⟨hevent, hfew⟩ := not_or.mp hlast
  rw [Bool.not_eq_true] at hevent
  cases a <;> simp only [idle, reduceCtorEq] at hidle
  case readFlag =>
    simp only [State.next, Option.ite_none_left_eq_some, Option.some.injEq] at hnext
    obtain ⟨hcall, rfl⟩ := hnext
    rw [State.readFlag, if_neg (by simpa using hidle)] at hwakeful
    simp only [Bool.or_eq_true, decide_eq_true_eq, not_or] at hcall
    have hnone : s.pending - 1 + s.signalling = 0 := by
      unfold toCome at hfew
      omega
    have hlost : ¬State.Wakeful port { s with pending := s.pending - 1 } :=
      not_wakeful hin hsome hevent hnone
    exact hlost hwakeful
  case signal =>
    simp only [State.next, Option.ite_none_left_eq_some, Option.some.injEq] at hnext
    obtain ⟨hcall, rfl⟩ := hnext
    have hport : port ≠ .windows := by
      rintro rfl
      simp at hidle
    have hawake : s.loc ≠ .blocked := by
      intro hblocked
      rcases hin with hin | hin <;> rw [hin] at hblocked <;> cases hblocked
    rw [State.signal, if_neg hawake, if_neg hport] at hwakeful
    have hnone : s.pending + (s.signalling - 1) = 0 := by
      unfold toCome at hfew
      omega
    have hlost : ¬State.Wakeful port { s with signalling := s.signalling - 1 } :=
      not_wakeful hin hsome hevent hnone
    exact hlost hwakeful

/-- In Java no other thread reads the flag in the window. -/
theorem sound_java {s s' : State} {a : Action} (hnext : s.next .java a = some s') :
    s.Sound .java a := by
  intro hidle hin
  cases a <;> simp only [idle, reduceCtorEq, decide_false] at hidle
  case readFlag =>
    simp only [State.next, Option.ite_none_left_eq_some] at hnext
    have hmonitor : s.inMonitor .java = true := by
      rcases hin with hin | hin <;> simp [inMonitor, hin]
    simp [hmonitor] at hnext

theorem inv_init (port : Port) : ({} : State).Inv port :=
  inv_outside rfl (by simp [Outside]) (fun _ => rfl)

end State

/-- In Java no run loses a wake-up, and in each port a run loses none just where every step is
sound. -/
theorem wake_ups_kept_iff (port : Port) (actions : List State.Action) :
    (port = .java → AllStates (State.next port) (State.Wakeful port) {} actions) ∧
    (AllStates (State.next port) (State.Wakeful port) {} actions ↔
      AllSteps (State.next port) (State.Sound port) {} actions) := by
  have hiff : AllStates (State.next port) (State.Wakeful port) {} actions ↔
      AllSteps (State.next port) (State.Sound port) {} actions :=
    allStates_iff (fun _ _ _ h hnext hsound => h.next hnext hsound) (fun _ h => h.wakeful)
      (fun _ _ _ h hnext hwakeful => h.sound_of_next hnext hwakeful) (State.inv_init port) actions
  refine ⟨?_, hiff⟩
  rintro rfl
  exact hiff.mpr (allSteps_of_forall (fun _ _ _ hnext => State.sound_java hnext) {} actions)

/-- The sync thread finds the queue empty, a command is added and stopWait finds the flag not
set, and the sync thread goes to sleep. On the iPhone it does so too when stopWait finds the flag
set and broadcasts before pthread_cond_wait. -/
theorem command_sleeps :
    (∀ port : Port, port ≠ .java → ∃ s : State,
      [State.Action.advance, .append .scSyncAll, .readFlag, .advance, .advance].foldlM
        (State.next port) {} = some s ∧ s.Lost) ∧
    ∃ s : State, [State.Action.advance, .append .scSyncAll, .advance, .readFlag, .signal,
      .advance].foldlM (State.next .iphone) {} = some s ∧ s.Lost := by
  constructor
  · intro port hport
    cases port with
    | iphone => exact ⟨_, rfl, rfl, by decide, rfl⟩
    | windows => exact ⟨_, rfl, rfl, by decide, rfl⟩
    | java => exact absurd rfl hport
  · exact ⟨_, rfl, rfl, by decide, rfl⟩

end Rhodes.WakeUps
