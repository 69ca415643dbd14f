import Mathlib.Data.Finset.Card
import Mathlib.Data.Multiset.AddSub
import Rhodes.Arrays
import Rhodes.GuardedRuns

/-!
Mutex.java and RWLock.java, the locks that are written by hand on top of a monitor. A call
that has to wait leaves the monitor in wait and takes the lock when it comes back: either the
test of its loop has failed, or wait has thrown InterruptedException and the test is not made
again. Who is inside the lock stands beside its counters.
-/
namespace Rhodes.JavaLocks

open GuardedRuns
open Arrays (toInt toInt_eq)

variable {τ : Type*} [DecidableEq τ]

/-- A counter that is full goes on from the least int. -/
theorem toInt_wraps {n : Int} (hfull : n = 2147483647) : toInt (n + 1) = -2147483648 := by
  rw [hfull]
  rfl

/-- The fields of Mutex. -/
structure Mutex (τ : Type*) where
  givenLocks : Int := 0
  lockThread : Option τ := none
  deriving DecidableEq

namespace Mutex

def isLocked (m : Mutex τ) (t : τ) : Bool := m.lockThread = some t

/-- The test of the loop in Lock. -/
def taken (m : Mutex τ) : Bool := 0 < m.givenLocks

/-- The end of Lock. -/
def grant (m : Mutex τ) (t : τ) : Mutex τ := ⟨toInt (m.givenLocks + 1), some t⟩

/-- Unlock, which does not ask who calls it. -/
def unlock (m : Mutex τ) : Mutex τ :=
  if m.givenLocks ≤ 0 then m
  else
    { givenLocks := toInt (m.givenLocks - 1)
      lockThread := if toInt (m.givenLocks - 1) = 0 then none else m.lockThread }

/-- What a thread does in one stay in the monitor; `resume` ends a wait. -/
inductive Call where
  | lock
  | tryLock
  | resume (interrupted : Bool)
  | unlock
  deriving DecidableEq

/-- The mutex, the threads that are waiting in Lock, and the returned Locks without Unlock. -/
structure State (τ : Type*) where
  mutex : Mutex τ := {}
  waiting : Finset τ := ∅
  holders : Multiset τ := 0

/-- Whether the call ends with the lock taken. -/
def grants (m : Mutex τ) (t : τ) : Call → Bool
  | .lock => m.isLocked t || !m.taken
  | .tryLock => !m.isLocked t && !m.taken
  | .resume interrupted => interrupted || !m.taken
  | .unlock => false

namespace State

def grant (s : State τ) (t : τ) : State τ := ⟨s.mutex.grant t, s.waiting.erase t, t ::ₘ s.holders⟩

/-- A thread is in one call at a time, and unlocks what it has locked. -/
def enabled (s : State τ) (t : τ) : Call → Bool
  | .lock => t ∉ s.waiting
  | .tryLock => t ∉ s.waiting
  | .resume _ => t ∈ s.waiting
  | .unlock => t ∉ s.waiting && decide (t ∈ s.holders)

/-- What a call does that does not take the lock. -/
def otherwise (s : State τ) (t : τ) : Call → State τ
  | .lock => { s with waiting := insert t s.waiting }
  | .tryLock => if s.mutex.isLocked t then s else { s with waiting := insert t s.waiting }
  | .resume _ => s
  | .unlock => { s with mutex := s.mutex.unlock, holders := s.holders.erase t }

def next (s : State τ) (a : τ × Call) : Option (State τ) :=
  if s.enabled a.1 a.2 then
    some (if s.mutex.grants a.1 a.2 then s.grant a.1 else s.otherwise a.1 a.2)
  else none

/-- One thread is inside the lock at most, and its nested Locks are counted. -/
structure Excludes (s : State τ) : Prop where
  one : ∀ t ∈ s.holders, ∀ u ∈ s.holders, t = u
  counted : s.mutex.givenLocks = s.holders.card

/-- The lock is only given away where it is free or the thread has it already, and the
counter does not wrap. -/
def Sound (s : State τ) (a : τ × Call) : Prop :=
  s.mutex.grants a.1 a.2 = true →
    (s.mutex.isLocked a.1 = true ∨ s.mutex.taken = false) ∧ s.mutex.givenLocks < 2147483647

/-- The invariant: the owner is the thread inside. -/
structure Owned (s : State τ) : Prop where
  owner : ∀ t ∈ s.holders, s.mutex.lockThread = some t
  free : s.holders = 0 → s.mutex.lockThread = none
  counted : s.mutex.givenLocks = s.holders.card
  range : s.mutex.givenLocks ≤ 2147483647

theorem isLocked_iff (m : Mutex τ) (t : τ) : m.isLocked t = true ↔ m.lockThread = some t := by
  simp [isLocked]

omit [DecidableEq τ] in
theorem taken_eq_false_iff {s : State τ} (h : s.Owned) : s.mutex.taken = false ↔ s.holders = 0 := by
  have hcard := h.counted
  rw [taken, decide_eq_false_iff_not, ← Multiset.card_eq_zero]
  omega

omit [DecidableEq τ] in
theorem Owned.excludes {s : State τ} (h : s.Owned) : s.Excludes where
  one t ht u hu := Option.some.inj ((h.owner t ht).symm.trans (h.owner u hu))
  counted := h.counted

/-- Whoever is inside when the lock is free for a thread is this thread. -/
theorem Owned.eq_of_free {s : State τ} (h : s.Owned) {t : τ}
    (hfree : s.mutex.isLocked t = true ∨ s.mutex.taken = false) {u : τ} (hu : u ∈ s.holders) :
    u = t := by
  rcases hfree with hlocked | hfree
  · have howner := h.owner u hu
    rw [(isLocked_iff _ _).mp hlocked] at howner
    exact (Option.some.inj howner).symm
  · rw [(taken_eq_false_iff h).mp hfree] at hu
    exact absurd hu (Multiset.notMem_zero u)

theorem Owned.grant {s : State τ} (h : s.Owned) {t : τ}
    (hfree : s.mutex.isLocked t = true ∨ s.mutex.taken = false)
    (hroom : s.mutex.givenLocks < 2147483647) : (s.grant t).Owned := by
  have hcard := h.counted
  have hcount : (s.grant t).mutex.givenLocks = s.mutex.givenLocks + 1 :=
    toInt_eq (by omega) (by omega)
  refine ⟨?_, ?_, ?_, by omega⟩
  · intro u hu
    rcases Multiset.mem_cons.mp hu with rfl | hu
    · rfl
    · rw [h.eq_of_free hfree hu]
      rfl
  · intro hempty
    exact absurd hempty (Multiset.cons_ne_zero)
  · rw [hcount, hcard]
    exact (by push_cast [State.grant, Multiset.card_cons]; rfl)

/-- A grant that does not keep the lock to one thread or loses count is seen at once. -/
theorem Owned.free_of_grant {s : State τ} (h : s.Owned) {t : τ} (hgrant : (s.grant t).Excludes) :
    (s.mutex.isLocked t = true ∨ s.mutex.taken = false) ∧ s.mutex.givenLocks < 2147483647 := by
  constructor
  · by_cases hempty : s.holders = 0
    · exact Or.inr ((taken_eq_false_iff h).mpr hempty)
    · obtain ⟨u, hu⟩ := Multiset.exists_mem_of_ne_zero hempty
      have hsame : u = t :=
        hgrant.one u (Multiset.mem_cons_of_mem hu) t (Multiset.mem_cons_self t _)
      subst hsame
      exact Or.inl ((isLocked_iff _ _).mpr (h.owner u hu))
  · by_contra hroom
    have hmax : s.mutex.givenLocks = 2147483647 := by
      have := h.range
      omega
    have hcount := hgrant.counted
    have hwraps : (s.grant t).mutex.givenLocks = -2147483648 := toInt_wraps hmax
    omega

theorem Owned.unlock {s : State τ} (h : s.Owned) {t : τ} (ht : t ∈ s.holders) :
    (s.otherwise t .unlock).Owned := by
  have hcard := h.counted
  have hrange := h.range
  have hpos : 0 < s.holders.card := Multiset.card_pos_iff_exists_mem.mpr ⟨t, ht⟩
  have herase : (s.holders.erase t).card = s.holders.card - 1 := Multiset.card_erase_of_mem ht
  have hcount : toInt (s.mutex.givenLocks - 1) = s.mutex.givenLocks - 1 :=
    toInt_eq (by omega) (by omega)
  have hmutex : (s.otherwise t .unlock).mutex = ⟨s.mutex.givenLocks - 1,
      if s.mutex.givenLocks - 1 = 0 then none else s.mutex.lockThread⟩ := by
    show s.mutex.unlock = _
    rw [Mutex.unlock, if_neg (by omega), hcount]
  constructor
  · intro u hu
    have hrest : 0 < (s.holders.erase t).card := Multiset.card_pos_iff_exists_mem.mpr ⟨u, hu⟩
    rw [hmutex, if_neg (by omega)]
    exact h.owner u (Multiset.mem_of_mem_erase hu)
  · intro hempty
    have hlast : (s.holders.erase t).card = 0 := Multiset.card_eq_zero.mpr hempty
    rw [hmutex]
    exact if_pos (by omega)
  · rw [hmutex]
    show s.mutex.givenLocks - 1 = ((s.holders.erase t).card : Int)
    omega
  · rw [hmutex]
    show s.mutex.givenLocks - 1 ≤ 2147483647
    omega

theorem Owned.otherwise {s : State τ} (h : s.Owned) {t : τ} {c : Call}
    (hcall : s.enabled t c = true) : (s.otherwise t c).Owned := by
  cases c with
  | lock => exact ⟨h.owner, h.free, h.counted, h.range⟩
  | tryLock =>
    show (if s.mutex.isLocked t then s else { s with waiting := insert t s.waiting }).Owned
    split
    · exact h
    · exact ⟨h.owner, h.free, h.counted, h.range⟩
  | resume interrupted => exact h
  | unlock =>
    simp only [enabled, Bool.and_eq_true, decide_eq_true_eq] at hcall
    exact h.unlock hcall.2

theorem next_eq {s s' : State τ} {a : τ × Call} (h : next s a = some s') :
    s.enabled a.1 a.2 = true ∧
      s' = if s.mutex.grants a.1 a.2 then s.grant a.1 else s.otherwise a.1 a.2 := by
  unfold next at h
  split at h
  · rename_i hcall
    exact ⟨hcall, (Option.some.inj h).symm⟩
  · cases h

theorem Owned.next {s s' : State τ} {a : τ × Call} (h : s.Owned) (hnext : next s a = some s')
    (hsound : s.Sound a) : s'.Owned := by
  obtain ⟨hcall, rfl⟩ := next_eq hnext
  split
  · rename_i hgrants
    obtain ⟨hfree, hroom⟩ := hsound hgrants
    exact h.grant hfree hroom
  · exact h.otherwise hcall

theorem Owned.sound_of_next {s s' : State τ} {a : τ × Call} (h : s.Owned)
    (hnext : State.next s a = some s') (hexcludes : s'.Excludes) : s.Sound a := by
  obtain ⟨-, rfl⟩ := next_eq hnext
  intro hgrants
  rw [if_pos hgrants] at hexcludes
  exact h.free_of_grant hexcludes

omit [DecidableEq τ] in
theorem owned_init : (({} : State τ)).Owned where
  owner t ht := absurd ht (Multiset.notMem_zero t)
  free _ := rfl
  counted := rfl
  range := show (0 : Int) ≤ 2147483647 by omega

end State

end Mutex

/-- The fields of RWLock. -/
structure RWLock where
  givenLocks : Int := 0
  waitingWriters : Int := 0
  deriving DecidableEq

namespace RWLock

/-- The test of the loop in getReadLock. -/
def readWaits (l : RWLock) : Bool := l.givenLocks = -1 || l.waitingWriters ≠ 0

/-- The test of the loop in getWriteLock. -/
def writeWaits (l : RWLock) : Bool := l.givenLocks ≠ 0

/-- The end of getReadLock. -/
def grantRead (l : RWLock) : RWLock := { l with givenLocks := toInt (l.givenLocks + 1) }

/-- The beginning of getWriteLock. -/
def enterWrite (l : RWLock) : RWLock := { l with waitingWriters := toInt (l.waitingWriters + 1) }

/-- The end of getWriteLock. -/
def grantWrite (l : RWLock) : RWLock := ⟨-1, toInt (l.waitingWriters - 1)⟩

def releaseLock (l : RWLock) : RWLock :=
  if l.givenLocks = 0 then l
  else if l.givenLocks = -1 then { l with givenLocks := 0 }
  else { l with givenLocks := toInt (l.givenLocks - 1) }

/-- What a thread does in one stay in the monitor; the last two end a wait. -/
inductive Call where
  | getReadLock
  | getWriteLock
  | releaseLock
  | resumeRead (interrupted : Bool)
  | resumeWrite (interrupted : Bool)
  deriving DecidableEq

/-- The lock, the threads that are waiting in a call, and the returned calls without
releaseLock. -/
structure State (τ : Type*) where
  lock : RWLock := {}
  waitingToRead : Finset τ := ∅
  waitingToWrite : Finset τ := ∅
  readers : Multiset τ := 0
  writers : Multiset τ := 0

namespace State

def isWaiting (s : State τ) (t : τ) : Bool := t ∈ s.waitingToRead || decide (t ∈ s.waitingToWrite)

def grantRead (s : State τ) (t : τ) : State τ :=
  { s with
    lock := s.lock.grantRead
    waitingToRead := s.waitingToRead.erase t
    readers := t ::ₘ s.readers }

def grantWrite (s : State τ) (t : τ) : State τ :=
  { s with
    lock := s.lock.grantWrite
    waitingToWrite := s.waitingToWrite.erase t
    writers := t ::ₘ s.writers }

/-- A writer that waits has counted itself. -/
def enterWrite (s : State τ) (t : τ) : State τ :=
  { s with lock := s.lock.enterWrite, waitingToWrite := insert t s.waitingToWrite }

/-- A thread is in one call at a time, and releases what it has. -/
def next (s : State τ) (a : τ × Call) : Option (State τ) :=
  match a.2 with
  | .getReadLock =>
      if s.isWaiting a.1 then none
      else if s.lock.readWaits then some { s with waitingToRead := insert a.1 s.waitingToRead }
      else some (s.grantRead a.1)
  | .getWriteLock =>
      if s.isWaiting a.1 then none
      else if s.lock.enterWrite.writeWaits then some (s.enterWrite a.1)
      else some ((s.enterWrite a.1).grantWrite a.1)
  | .releaseLock =>
      if s.isWaiting a.1 then none
      else if a.1 ∈ s.writers then
        some { s with lock := s.lock.releaseLock, writers := s.writers.erase a.1 }
      else if a.1 ∈ s.readers then
        some { s with lock := s.lock.releaseLock, readers := s.readers.erase a.1 }
      else none
  | .resumeRead interrupted =>
      if a.1 ∉ s.waitingToRead then none
      else if interrupted || !s.lock.readWaits then some (s.grantRead a.1)
      else some s
  | .resumeWrite interrupted =>
      if a.1 ∉ s.waitingToWrite then none
      else if interrupted || !s.lock.writeWaits then some (s.grantWrite a.1)
      else some s

/-- A writer is alone inside the lock, and the counters tell who is inside and who waits to
write. -/
structure Excludes (s : State τ) : Prop where
  one : s.writers.card ≤ 1
  alone : s.writers ≠ 0 → s.readers = 0
  given : s.lock.givenLocks = if s.writers = 0 then (s.readers.card : Int) else -1
  waiting : s.lock.waitingWriters = s.waitingToWrite.card

/-- No writer is let in while somebody is inside and no reader while a writer is, and the
counters do not wrap. -/
def Sound (s : State τ) (a : τ × Call) : Prop :=
  match a.2 with
  | .getReadLock => s.lock.readWaits = true ∨ s.lock.givenLocks < 2147483647
  | .getWriteLock => s.lock.writeWaits = true → s.lock.waitingWriters < 2147483647
  | .releaseLock => True
  | .resumeRead interrupted => (interrupted || !s.lock.readWaits) = true →
      s.lock.givenLocks ≠ -1 ∧ s.lock.givenLocks < 2147483647
  | .resumeWrite interrupted => (interrupted || !s.lock.writeWaits) = true →
      s.lock.givenLocks = 0

/-- The invariant: the counters moreover are in the range of an int. -/
structure Inside (s : State τ) : Prop extends Excludes s where
  readersRange : (s.readers.card : Int) ≤ 2147483647
  waitingRange : (s.waitingToWrite.card : Int) ≤ 2147483647

theorem Inside.given_le {s : State τ} (h : s.Inside) : s.lock.givenLocks ≤ 2147483647 := by
  have hgiven := h.given
  have hrange := h.readersRange
  split at hgiven <;> omega

theorem Inside.no_writer {s : State τ} (h : s.Inside) (hread : s.lock.givenLocks ≠ -1) :
    s.writers = 0 := by
  by_contra hwriter
  have hgiven := h.given
  rw [if_neg hwriter] at hgiven
  exact hread hgiven

theorem Inside.grantRead {s : State τ} (h : s.Inside) {t : τ} (hread : s.lock.givenLocks ≠ -1)
    (hroom : s.lock.givenLocks < 2147483647) : (s.grantRead t).Inside := by
  have hnone := h.no_writer hread
  have hgiven := h.given
  rw [if_pos hnone] at hgiven
  have hcount : (s.grantRead t).lock.givenLocks = s.lock.givenLocks + 1 :=
    toInt_eq (by omega) (by omega)
  have hcard : (s.grantRead t).readers.card = s.readers.card + 1 := Multiset.card_cons t _
  refine ⟨⟨h.one, fun hwriter => absurd hnone hwriter, ?_, h.waiting⟩, by omega, h.waitingRange⟩
  rw [if_pos (show (s.grantRead t).writers = 0 from hnone)]
  omega

theorem Inside.free_of_grantRead {s : State τ} (h : s.Inside) {t : τ}
    (hgrant : (s.grantRead t).Excludes) :
    s.lock.givenLocks ≠ -1 ∧ s.lock.givenLocks < 2147483647 := by
  have hnone : s.writers = 0 := by
    by_contra hwriter
    exact Multiset.cons_ne_zero (hgrant.alone hwriter)
  have hgiven := h.given
  rw [if_pos hnone] at hgiven
  refine ⟨by omega, ?_⟩
  by_contra hroom
  have hmax : s.lock.givenLocks = 2147483647 := by
    have := h.given_le
    omega
  have hcount := hgrant.given
  rw [if_pos (show (s.grantRead t).writers = 0 from hnone)] at hcount
  have hwraps : (s.grantRead t).lock.givenLocks = -2147483648 := toInt_wraps hmax
  omega

/-- Nobody is inside. -/
theorem Inside.empty {s : State τ} (h : s.Inside) (hfree : s.lock.givenLocks = 0) :
    s.writers = 0 ∧ s.readers = 0 := by
  have hnone := h.no_writer (by omega)
  have hgiven := h.given
  rw [if_pos hnone] at hgiven
  exact ⟨hnone, Multiset.card_eq_zero.mp (by omega)⟩

/-- The lock after a write is granted, where the other fields say who waits. -/
theorem Inside.granted {s s' : State τ} (h : s.Inside) {t : τ} (hfree : s.lock.givenLocks = 0)
    (hwriters : s'.writers = t ::ₘ s.writers) (hreaders : s'.readers = s.readers)
    (hgiven : s'.lock.givenLocks = -1)
    (hwaiting : s'.lock.waitingWriters = s'.waitingToWrite.card)
    (hrange : (s'.waitingToWrite.card : Int) ≤ 2147483647) : s'.Inside := by
  obtain ⟨hnone, hempty⟩ := h.empty hfree
  rw [hnone] at hwriters
  rw [hempty] at hreaders
  refine ⟨⟨?_, fun _ => hreaders, ?_, hwaiting⟩, ?_, hrange⟩
  · rw [hwriters]
    exact le_of_eq (Multiset.card_singleton t)
  · rw [hwriters, if_neg Multiset.cons_ne_zero, hgiven]
  · rw [hreaders, Multiset.card_zero]
    omega

theorem Inside.grantWrite {s : State τ} (h : s.Inside) {t : τ} (ht : t ∈ s.waitingToWrite)
    (hfree : s.lock.givenLocks = 0) : (s.grantWrite t).Inside := by
  have hwaiting := h.waiting
  have hrange := h.waitingRange
  have hpos : 0 < s.waitingToWrite.card := Finset.card_pos.mpr ⟨t, ht⟩
  have herase : (s.grantWrite t).waitingToWrite.card = s.waitingToWrite.card - 1 :=
    Finset.card_erase_of_mem ht
  have hcount : (s.grantWrite t).lock.waitingWriters = s.lock.waitingWriters - 1 :=
    toInt_eq (by omega) (by omega)
  exact h.granted hfree rfl rfl rfl (by omega) (by omega)

theorem Inside.free_of_grantWrite {s : State τ} (h : s.Inside) {t : τ}
    (hgrant : (s.grantWrite t).Excludes) : s.lock.givenLocks = 0 := by
  have hone := hgrant.one
  have hcard : (s.grantWrite t).writers.card = s.writers.card + 1 := Multiset.card_cons t _
  have hnone : s.writers = 0 := Multiset.card_eq_zero.mp (by omega)
  have hempty : s.readers = 0 := hgrant.alone Multiset.cons_ne_zero
  rw [h.given, if_pos hnone, hempty]
  rfl

theorem card_enterWrite {s : State τ} {t : τ} (ht : t ∉ s.waitingToWrite) :
    (s.enterWrite t).waitingToWrite.card = s.waitingToWrite.card + 1 :=
  Finset.card_insert_of_notMem ht

theorem Inside.enterWrite {s : State τ} (h : s.Inside) {t : τ} (ht : t ∉ s.waitingToWrite)
    (hroom : s.lock.waitingWriters < 2147483647) : (s.enterWrite t).Inside := by
  have hwaiting := h.waiting
  have hcard := card_enterWrite ht
  have hcount : (s.enterWrite t).lock.waitingWriters = s.lock.waitingWriters + 1 :=
    toInt_eq (by omega) (by omega)
  exact ⟨⟨h.one, h.alone, h.given, by omega⟩, h.readersRange, by omega⟩

theorem Inside.room_of_enterWrite {s : State τ} (h : s.Inside) {t : τ} (ht : t ∉ s.waitingToWrite)
    (henter : (s.enterWrite t).Excludes) : s.lock.waitingWriters < 2147483647 := by
  by_contra hroom
  have hwaiting := h.waiting
  have hrange := h.waitingRange
  have hcount := henter.waiting
  have hcard := card_enterWrite ht
  have hwraps : (s.enterWrite t).lock.waitingWriters = -2147483648 := toInt_wraps (by omega)
  omega

theorem toInt_succ_pred {w : Int} (hlow : 0 ≤ w) (hhigh : w ≤ 2147483647) :
    toInt (toInt (w + 1) - 1) = w := by
  by_cases hroom : w < 2147483647
  · have hsucc : toInt (w + 1) = w + 1 := toInt_eq (by omega) (by omega)
    have hpred : w + 1 - 1 = w := by omega
    rw [hsucc, hpred]
    exact toInt_eq (by omega) (by omega)
  · rw [show w = 2147483647 by omega]
    rfl

/-- A writer that does not wait counts itself and takes itself off the count. -/
theorem Inside.enterWrite_grantWrite {s : State τ} (h : s.Inside) {t : τ}
    (ht : t ∉ s.waitingToWrite) (hfree : s.lock.givenLocks = 0) :
    ((s.enterWrite t).grantWrite t).Inside := by
  have hwaiting := h.waiting
  have hrange := h.waitingRange
  have hcount : ((s.enterWrite t).grantWrite t).lock.waitingWriters = s.lock.waitingWriters :=
    toInt_succ_pred (by omega) (by omega)
  have hsame : ((s.enterWrite t).grantWrite t).waitingToWrite = s.waitingToWrite :=
    Finset.erase_insert ht
  refine h.granted hfree rfl rfl rfl ?_ ?_ <;> rw [hsame]
  · rw [hcount, hwaiting]
  · exact hrange

theorem Inside.releaseWrite {s : State τ} (h : s.Inside) {t : τ} (ht : t ∈ s.writers) :
    State.Inside { s with lock := s.lock.releaseLock, writers := s.writers.erase t } := by
  have hwriter : s.writers ≠ 0 := fun hnone => Multiset.notMem_zero t (hnone ▸ ht)
  have hgiven := h.given
  rw [if_neg hwriter] at hgiven
  have hlast : s.writers.erase t = 0 := by
    have hone := h.one
    have herase : (s.writers.erase t).card = s.writers.card - 1 := Multiset.card_erase_of_mem ht
    exact Multiset.card_eq_zero.mp (by omega)
  have hlock : s.lock.releaseLock = { s.lock with givenLocks := 0 } := by
    rw [releaseLock, if_neg (by omega), if_pos hgiven]
  have hempty := h.alone hwriter
  rw [hlast, hlock]
  refine ⟨⟨by simp, fun _ => hempty, ?_, h.waiting⟩, h.readersRange, h.waitingRange⟩
  rw [if_pos rfl, hempty]
  rfl

theorem Inside.releaseRead {s : State τ} (h : s.Inside) {t : τ} (ht : t ∈ s.readers) :
    State.Inside { s with lock := s.lock.releaseLock, readers := s.readers.erase t } := by
  have hnone : s.writers = 0 := by
    by_contra hwriter
    rw [h.alone hwriter] at ht
    exact Multiset.notMem_zero t ht
  have hgiven := h.given
  rw [if_pos hnone] at hgiven
  have hpos : 0 < s.readers.card := Multiset.card_pos_iff_exists_mem.mpr ⟨t, ht⟩
  have hrange := h.readersRange
  have herase : (s.readers.erase t).card = s.readers.card - 1 := Multiset.card_erase_of_mem ht
  have hlock : s.lock.releaseLock = { s.lock with givenLocks := s.lock.givenLocks - 1 } := by
    rw [releaseLock, if_neg (by omega), if_neg (by omega), toInt_eq (by omega) (by omega)]
  rw [hlock]
  refine ⟨⟨h.one, fun hwriter => absurd hnone hwriter, ?_, h.waiting⟩, ?_, h.waitingRange⟩
  · rw [if_pos hnone]
    show s.lock.givenLocks - 1 = ((s.readers.erase t).card : Int)
    omega
  · show ((s.readers.erase t).card : Int) ≤ 2147483647
    omega

theorem isWaiting_eq_false {s : State τ} {t : τ} (h : ¬s.isWaiting t = true) :
    t ∉ s.waitingToRead ∧ t ∉ s.waitingToWrite := by
  simpa [isWaiting] using h

/-- A step keeps the invariant just where it is sound, and a step that is not is seen at once. -/
theorem Inside.next_spec {s s' : State τ} (h : s.Inside) {t : τ} {c : Call}
    (hnext : next s (t, c) = some s') :
    (s.Sound (t, c) → s'.Inside) ∧ (s'.Excludes → s.Sound (t, c)) := by
  cases c with
  | getReadLock =>
    simp only [next, Option.ite_none_left_eq_some] at hnext
    obtain ⟨-, hnext⟩ := hnext
    split at hnext <;> obtain rfl := Option.some.inj hnext
    · rename_i hwaits
      exact ⟨fun _ => ⟨⟨h.one, h.alone, h.given, h.waiting⟩, h.readersRange, h.waitingRange⟩,
        fun _ => Or.inl hwaits⟩
    · rename_i hfree
      have hread : s.lock.givenLocks ≠ -1 := by
        intro hwriter
        exact hfree (by rw [readWaits, decide_eq_true hwriter, Bool.true_or])
      exact ⟨fun hsound => h.grantRead hread (hsound.resolve_left hfree),
        fun hgrant => Or.inr (h.free_of_grantRead hgrant).2⟩
  | getWriteLock =>
    simp only [next, Option.ite_none_left_eq_some] at hnext
    obtain ⟨hcall, hnext⟩ := hnext
    have ht := (isWaiting_eq_false hcall).2
    split at hnext <;> obtain rfl := Option.some.inj hnext
    · rename_i hwaits
      exact ⟨fun hsound => h.enterWrite ht (hsound hwaits),
        fun henter _ => h.room_of_enterWrite ht henter⟩
    · rename_i hfree
      have hzero : s.lock.enterWrite.givenLocks = 0 := by simpa [writeWaits] using hfree
      exact ⟨fun _ => h.enterWrite_grantWrite ht hzero, fun _ hwaits => absurd hwaits hfree⟩
  | releaseLock =>
    simp only [next, Option.ite_none_left_eq_some] at hnext
    obtain ⟨-, hnext⟩ := hnext
    refine ⟨fun _ => ?_, fun _ => trivial⟩
    split at hnext
    · rename_i ht
      obtain rfl := Option.some.inj hnext
      exact h.releaseWrite ht
    · split at hnext
      · rename_i ht
        obtain rfl := Option.some.inj hnext
        exact h.releaseRead ht
      · cases hnext
  | resumeRead interrupted =>
    simp only [next, Option.ite_none_left_eq_some] at hnext
    obtain ⟨-, hnext⟩ := hnext
    split at hnext <;> obtain rfl := Option.some.inj hnext
    · rename_i hgrants
      refine ⟨fun hsound => ?_, fun hgrant _ => h.free_of_grantRead hgrant⟩
      obtain ⟨hread, hroom⟩ := hsound hgrants
      exact h.grantRead hread hroom
    · rename_i hwaits
      exact ⟨fun _ => h, fun _ hgrants => absurd hgrants hwaits⟩
  | resumeWrite interrupted =>
    simp only [next, Option.ite_none_left_eq_some, not_not] at hnext
    obtain ⟨ht, hnext⟩ := hnext
    split at hnext <;> obtain rfl := Option.some.inj hnext
    · rename_i hgrants
      exact ⟨fun hsound => h.grantWrite ht (hsound hgrants),
        fun hgrant _ => h.free_of_grantWrite hgrant⟩
    · rename_i hwaits
      exact ⟨fun _ => h, fun _ hgrants => absurd hgrants hwaits⟩

theorem inside_init : ({} : State τ).Inside where
  one := Nat.zero_le 1
  alone h := absurd rfl h
  given := rfl
  waiting := rfl
  readersRange := show (0 : Int) ≤ 2147483647 by omega
  waitingRange := show (0 : Int) ≤ 2147483647 by omega

end State

end RWLock

/-- In the runs of both locks, with any threads, each state has the exclusion and the counts
just where each step was sound. -/
theorem locks_exclude_iff :
    (∀ calls : List (τ × Mutex.Call), AllStates Mutex.State.next Mutex.State.Excludes {} calls ↔
      AllSteps Mutex.State.next Mutex.State.Sound {} calls) ∧
    (∀ calls : List (τ × RWLock.Call), AllStates RWLock.State.next RWLock.State.Excludes {} calls ↔
      AllSteps RWLock.State.next RWLock.State.Sound {} calls) := by
  constructor
  · exact allStates_iff (fun _ _ _ h hnext hsound => h.next hnext hsound) (fun _ h => h.excludes)
      (fun _ _ _ h hnext hexcludes => h.sound_of_next hnext hexcludes) Mutex.State.owned_init
  · exact allStates_iff (fun _ _ _ h hnext => (h.next_spec hnext).1) (fun _ h => h.toExcludes)
      (fun _ _ _ h hnext => (h.next_spec hnext).2) RWLock.State.inside_init

/-- Thread 1 waits in Lock while thread 0 is inside, and is interrupted: both are inside then.
With RWLock the interrupted writer is inside beside a reader. -/
theorem interrupted_wait_enters :
    (∃ s : Mutex.State Nat,
      [(0, .lock), (1, .lock), (1, .resume true)].foldlM Mutex.State.next {} = some s ∧
        0 ∈ s.holders ∧ 1 ∈ s.holders ∧ ¬s.Excludes) ∧
    (∃ s : RWLock.State Nat,
      [(0, .getReadLock), (1, .getWriteLock), (1, .resumeWrite true)].foldlM RWLock.State.next {} =
        some s ∧ 0 ∈ s.readers ∧ 1 ∈ s.writers ∧ ¬s.Excludes) := by
  refine ⟨⟨_, rfl, by decide, by decide, ?_⟩, ⟨_, rfl, by decide, by decide, ?_⟩⟩
  · intro h
    exact absurd (h.one 0 (by decide) 1 (by decide)) (by decide)
  · intro h
    exact absurd (h.alone (by decide)) (by decide)

end Rhodes.JavaLocks
