import Mathlib
import Rhodes.EditOrder
import Rhodes.JavaLocks
import Rhodes.PageMerge
import Rhodes.Throwing

/-!
The transaction around the merge of a page in the Java port. One catch covers the merge, the
commit and the notification after it, so what the notification throws is answered by a rollback
outside of the transaction, whose Unlock nobody checks. Other threads lock and unlock the same
mutex at any moment.
-/
namespace Rhodes.JavaTransactions

open Interleaving Throwing Throws Json Source JavaLocks

/-- The calls that may throw; `work` stands for those made by the merge of an object. -/
inductive Call (ι : Type) where
  | saveAttributes
  | storageStart
  | storageCommit
  | storageRollback
  | readGroup
  | readObject
  | countObject
  | stopSync
  | fireObjectsNotification
  | work (i : ι)
  deriving DecidableEq

/-- The statements of the sync thread: `lock` is the end of Lock. -/
inductive Stmt (ι : Type) where
  | lock
  | unlock
  | setInsideTransaction (b : Bool)
  | test
  | call (c : Call ι)
  deriving DecidableEq

/-- The shared state. `replies` tells of every call of the sync thread what it throws. -/
structure State (τ δ : Type) where
  lock : Mutex.State τ
  insideTransaction : Bool
  unlockDB : Bool
  data : δ
  replies : Nat → Option Throwable
  calls : Nat

/-- What the calls and the tests make of the data and find in it, and the merge of an object,
which may be any program of calls. -/
structure Client (ι δ : Type) where
  effect : Call ι → δ → δ
  isContinueSync : δ → Bool
  groupSource : JsonObject → δ → Option Int
  processSyncObjectVer1 : ServerDataPass → JsonObject → Int → Prog ι δ Bool

variable {τ ι δ : Type}

def throws : Stmt ι → State τ δ → Option Throwable
  | .call _, s => s.replies s.calls
  | _, _ => none

section Program

variable (C : Client ι δ)

/-- The programs of the sync thread. -/
abbrev Java (ι τ δ α : Type) := Throws (Stmt ι) (State τ δ) α

def done : Java ι τ δ Unit := .ret (.ok ())

def Lock : Java ι τ δ Unit := quietly .lock (fun _ => ())

def Unlock : Java ι τ δ Unit := quietly .unlock (fun _ => ())

def setInsideTransaction (b : Bool) : Java ι τ δ Unit :=
  quietly (.setInsideTransaction b) (fun _ => ())

def invoke (c : Call ι) : Java ι τ δ Unit := call throws (.call c)

def isUnlockDB : Java ι τ δ Bool := quietly .test State.unlockDB

def isContinueSync : Java ι τ δ Bool := quietly .test (fun s => C.isContinueSync s.data)

def startTransaction : Java ι τ δ Unit :=
  Lock.andThen fun _ =>
  (setInsideTransaction true).andThen fun _ =>
  invoke .storageStart

def commit : Java ι τ δ Unit :=
  (invoke .saveAttributes).andThen fun _ =>
  (invoke .storageCommit).andThen fun _ =>
  (setInsideTransaction false).andThen fun _ =>
  Unlock

def endTransaction : Java ι τ δ Unit := commit

def rollback : Java ι τ δ Unit :=
  (invoke .storageRollback).andThen fun _ =>
  (setInsideTransaction false).andThen fun _ =>
  Unlock

/-- A commit lets a waiting UI transaction in. -/
def commitForUI : Java ι τ δ Unit :=
  isUnlockDB.andThen fun b =>
  if b then endTransaction.andThen fun _ => startTransaction else done

def processSyncObjectVer1 (pass : ServerDataPass) (json : JsonObject) (nSrcID : Int) :
    Java ι τ δ Bool :=
  guarded throws (fun i => .call (.work i)) State.data (C.processSyncObjectVer1 pass json nSrcID)

def countObject (pass : ServerDataPass) (nSrcID : Int) : Java ι τ δ Unit :=
  if pass ≠ .edpDeleteObjects ∧ nSrcID ≥ 0 then invoke .countObject else done

/-- The loop over "ol". -/
def processObjects (pass : ServerDataPass) (nSrcID : Int) : List JsonObject → Java ι τ δ Unit
  | [] => done
  | json :: rest =>
      (isContinueSync C).andThen fun go =>
      if go then
        commitForUI.andThen fun _ =>
        (invoke .readObject).andThen fun _ =>
        (processSyncObjectVer1 C pass json nSrcID).andThen fun ok =>
        if ok then
          (countObject pass nSrcID).andThen fun _ => processObjects pass nSrcID rest
        else invoke .stopSync
      else done

/-- A group of an unknown source ends the loop. -/
def processGroup (pass : ServerDataPass) (group : JsonObject) (rest : Java ι τ δ Unit) :
    Option Int → Java ι τ δ Unit
  | none => invoke .stopSync
  | some nSrcID =>
      (processObjects C pass nSrcID (group.getArray "ol")).andThen fun _ => rest

/-- One pass over the groups. -/
def processServerDataVer1 (pass : ServerDataPass) : List JsonObject → Java ι τ δ Unit
  | [] => done
  | group :: rest =>
      (isContinueSync C).andThen fun go =>
      if go then
        (invoke .readGroup).andThen fun _ =>
        (quietly .test (fun s => C.groupSource group s.data)).andThen fun src =>
        processGroup C pass group (processServerDataVer1 pass rest) src
      else done

/-- The body of the try up to the end of the transaction. -/
def mergePage (groups : List JsonObject) : Java ι τ δ Unit :=
  (processServerDataVer1 C .edpNone groups).andThen fun _ =>
  (processServerDataVer1 C .edpDeleteObjects groups).andThen fun _ =>
  endTransaction

def notifiedPage (groups : List JsonObject) : Java ι τ δ Unit :=
  (mergePage C groups).andThen fun _ => invoke .fireObjectsNotification

/-- processServerData from its test of the iterator on: what stands before reads the head of the
page, and no transaction is open then. -/
def processServerData (groups : List JsonObject) : Java ι τ δ Unit :=
  if groups = [] then done
  else
    (isContinueSync C).andThen fun go =>
    if go then
      startTransaction.andThen fun _ => catchException (notifiedPage C groups) rollback
    else done

end Program

section Shape

/-- The statements that the merge of a page is made of. -/
def Apart (i : Stmt ι) : Prop :=
  i ≠ .call .fireObjectsNotification ∧ i ≠ .call .storageRollback

theorem closed_prompt : Prompt throws
    ((setInsideTransaction false).andThen (fun _ => Unlock) : Java ι τ δ Unit) :=
  (prompt_quietly (fun _ => rfl) _).andThen (fun _ => prompt_quietly (fun _ => rfl) _)

theorem startTransaction_prompt : Prompt throws (startTransaction : Java ι τ δ Unit) :=
  (prompt_quietly (fun _ => rfl) _).andThen
    (fun _ => (prompt_quietly (fun _ => rfl) _).andThen (fun _ => prompt_call _))

theorem commit_prompt : Prompt throws (commit : Java ι τ δ Unit) :=
  (prompt_call _).andThen (fun _ => (prompt_call _).andThen (fun _ => closed_prompt))

theorem rollback_prompt : Prompt throws (rollback : Java ι τ δ Unit) :=
  (prompt_call _).andThen (fun _ => closed_prompt)

theorem quietly_apart {α : Type} {i : Stmt ι} (hi : ∀ c, i ≠ .call c) (g : State τ δ → α) :
    (quietly i g).Only Apart := ⟨⟨hi _, hi _⟩, fun _ => trivial⟩

theorem commit_apart : (commit : Java ι τ δ Unit).Only Apart :=
  only_andThen (only_call ⟨by simp, by simp⟩) (fun _ =>
    only_andThen (only_call ⟨by simp, by simp⟩) (fun _ =>
      only_andThen (quietly_apart (by simp) _) (fun _ => quietly_apart (by simp) _)))

theorem startTransaction_apart : (startTransaction : Java ι τ δ Unit).Only Apart :=
  only_andThen (quietly_apart (by simp) _) (fun _ =>
    only_andThen (quietly_apart (by simp) _) (fun _ => only_call ⟨by simp, by simp⟩))

end Shape

variable [DecidableEq τ]

/-- A call that throws leaves the data. Unlock does not ask who calls it. -/
def step (C : Client ι δ) (me : τ) : Stmt ι → State τ δ → State τ δ
  | .lock, s => { s with lock := s.lock.grant me }
  | .unlock, s => { s with unlockDB := false, lock := s.lock.otherwise me .unlock }
  | .setInsideTransaction b, s => { s with insideTransaction := b }
  | .test, s => s
  | .call c, s =>
      { s with
        data := if (s.replies s.calls).isNone then C.effect c s.data else s.data
        calls := s.calls + 1 }

/-- What another thread does: a call of the mutex, its part of a transaction under its lock, or
any change of the data. -/
inductive Other (τ δ : Type) where
  | call (t : τ) (c : Mutex.Call)
  | setInsideTransaction (t : τ) (b : Bool)
  | change (unlockDB : Bool) (data : δ)

def otherStep (me : τ) : Other τ δ → State τ δ → Option (State τ δ)
  | .call t c, s =>
      if t = me then none else (Mutex.State.next s.lock (t, c)).map (fun lock => { s with lock })
  | .setInsideTransaction t b, s =>
      if t = me ∨ t ∉ s.lock.holders then none else some { s with insideTransaction := b }
  | .change unlockDB data, s => some { s with unlockDB, data }

/-- The sync thread gets the lock where it is free or its own already, like the other threads,
and the counter does not wrap. -/
def Sound (me : τ) : Move (Stmt ι) (State τ δ) (Other τ δ) → Prop
  | .own .lock s => (s.lock.mutex.isLocked me = true ∨ s.lock.mutex.taken = false) ∧
      s.lock.mutex.givenLocks < 2147483647
  | .env (.call t c) s => Mutex.State.Sound s.lock (t, c)
  | _ => True

instance (me : τ) (m : Move (Stmt ι) (State τ δ) (Other τ δ)) : Decidable (Sound me m) :=
  match m with
  | .own .lock _ => inferInstanceAs (Decidable ((_ ∨ _) ∧ _))
  | .env (.call _ _) _ => inferInstanceAs (Decidable (_ → (_ ∨ _) ∧ _))
  | .own .unlock _ => isTrue trivial
  | .own (.setInsideTransaction _) _ => isTrue trivial
  | .own .test _ => isTrue trivial
  | .own (.call _) _ => isTrue trivial
  | .env (.setInsideTransaction _ _) _ => isTrue trivial
  | .env (.change _ _) _ => isTrue trivial

/-- The nesting of the thread's Locks. -/
def depth (me : τ) (s : State τ δ) : Nat := s.lock.holders.count me

/-- The thread is inside a transaction of its own. -/
def Inside (me : τ) (s : State τ δ) : Prop := s.insideTransaction = true ∧ me ∈ s.lock.holders

instance (me : τ) (s : State τ δ) : Decidable (Inside me s) := inferInstanceAs (Decidable (_ ∧ _))

/-- What another thread leaves alone. -/
structure Kept (me : τ) (s s' : State τ δ) : Prop where
  owned : s'.lock.Owned
  nested : depth me s' = depth me s
  inside : me ∈ s.lock.holders → s'.insideTransaction = s.insideTransaction
  calls : s'.calls = s.calls

section Steps

variable {C : Client ι δ} {me : τ}

theorem mem_holders_iff (s : State τ δ) : me ∈ s.lock.holders ↔ 0 < depth me s :=
  Multiset.count_pos.symm

theorem next_count {l l' : Mutex.State τ} {t : τ} {c : Mutex.Call} (ht : me ≠ t)
    (hnext : Mutex.State.next l (t, c) = some l') : l'.holders.count me = l.holders.count me := by
  obtain ⟨-, rfl⟩ := Mutex.State.next_eq hnext
  split
  · exact Multiset.count_cons_of_ne ht _
  · cases c with
    | lock => rfl
    | tryLock =>
      let asked : Mutex.State τ := { l with waiting := insert t l.waiting }
      show (if l.mutex.isLocked t then l else asked).holders.count me = _
      split <;> rfl
    | resume interrupted => rfl
    | unlock => exact Multiset.count_erase_of_ne ht _

theorem otherStep_kept {u : Other τ δ} {s s' : State τ δ} (hu : otherStep me u s = some s')
    (hsound : Sound me (.env u s : Move (Stmt ι) (State τ δ) (Other τ δ)))
    (howned : s.lock.Owned) : Kept me s s' := by
  cases u with
  | call t c =>
    simp only [otherStep, Option.ite_none_left_eq_some, Option.map_eq_some_iff] at hu
    obtain ⟨hne, lock, hnext, rfl⟩ := hu
    exact ⟨howned.next hnext hsound, next_count (fun h => hne h.symm) hnext, fun _ => rfl, rfl⟩
  | setInsideTransaction t b =>
    simp only [otherStep, Option.ite_none_left_eq_some, Option.some.injEq, not_or, not_not] at hu
    obtain ⟨⟨hne, ht⟩, rfl⟩ := hu
    refine ⟨howned, rfl, fun hme => ?_, rfl⟩
    exact absurd (howned.excludes.one t ht me hme) hne
  | change unlockDB data =>
    simp only [otherStep, Option.some.injEq] at hu
    subst hu
    exact ⟨howned, rfl, fun _ => rfl, rfl⟩

theorem Kept.inside_iff {s s' : State τ δ} (h : Kept me s s') : Inside me s' ↔ Inside me s := by
  have hmem : me ∈ s'.lock.holders ↔ me ∈ s.lock.holders := by
    rw [mem_holders_iff, mem_holders_iff, h.nested]
  constructor
  · rintro ⟨hin, hme⟩
    exact ⟨(h.inside (hmem.mp hme)).symm.trans hin, hmem.mp hme⟩
  · rintro ⟨hin, hme⟩
    exact ⟨(h.inside hme).trans hin, hmem.mpr hme⟩

/-- The lock is in order, and the thread has locked it so many times. -/
structure Holds (me : τ) (d : Nat) (s : State τ δ) : Prop where
  owned : s.lock.Owned
  nested : depth me s = d

theorem Holds.kept {d : Nat} {s s' : State τ δ} (h : Holds me d s) (hkept : Kept me s s') :
    Holds me d s' := ⟨hkept.owned, hkept.nested.trans h.nested⟩

theorem Holds.mem {d : Nat} {s : State τ δ} (h : Holds me (d + 1) s) : me ∈ s.lock.holders := by
  rw [mem_holders_iff, h.nested]
  exact Nat.succ_pos d

/-- Nobody else is inside the lock. -/
theorem Holds.alone {d : Nat} {s : State τ δ} (h : Holds me (d + 1) s) :
    ∀ t ∈ s.lock.holders, t = me := fun t ht => h.owned.excludes.one t ht me h.mem

theorem Holds.locked {d : Nat} {s : State τ δ} (h : Holds me d s)
    (hsound : Sound me (.own .lock s : Move (Stmt ι) (State τ δ) (Other τ δ))) :
    Holds me (d + 1) (step C me .lock s) where
  owned := h.owned.grant hsound.1 hsound.2
  nested := by
    rw [← h.nested]
    exact Multiset.count_cons_self me _

theorem Holds.unlocked {d : Nat} {s : State τ δ} (h : Holds me (d + 1) s) :
    Holds me d (step C me .unlock s) where
  owned := h.owned.unlock h.mem
  nested := by
    have hcount : depth me (step C me .unlock s) = depth me s - 1 := Multiset.count_erase_self me _
    rw [hcount, h.nested]
    rfl

/-- In a transaction of its own, one Lock deeper. -/
def In (me : τ) (d : Nat) (s : State τ δ) : Prop := Holds me (d + 1) s ∧ Inside me s

def Out (me : τ) (d : Nat) (s : State τ δ) : Prop := Holds me d s ∧ ¬Inside me s

theorem Out.unlocked {d : Nat} {s : State τ δ} (h : Out me (d + 1) s) :
    Out me d (step C me .unlock s) :=
  ⟨h.1.unlocked, fun hin => h.2 ⟨hin.1, Multiset.mem_of_mem_erase hin.2⟩⟩

/-- A rollback is made inside a transaction of the thread, and an Unlock with nobody else inside
the lock. -/
def Decent (me : τ) : Stmt ι → State τ δ → Prop
  | .call .storageRollback, s => Inside me s
  | .unlock, s => ∀ t ∈ s.lock.holders, t = me
  | _, _ => True

end Steps

/-- What is checked of every statement of the sync thread, where the other threads are sound. -/
def against (C : Client ι δ) (me : τ) (goal : Stmt ι → State τ δ → Prop) :
    Discipline (Stmt ι) (State τ δ) (Other τ δ) := ⟨step C me, otherStep me, Sound me, goal⟩

section Parts

variable {C : Client ι δ} {me : τ} {d : Nat} {goal : Stmt ι → State τ δ → Prop}

theorem stable_holds {X : State τ δ → Prop} (hX : ∀ s s', X s → Kept me s s' → X s') :
    (against C me goal).Stable (fun s => Holds me d s ∧ X s) := by
  rintro s s' ⟨hs, hx⟩ ⟨u, hu, hsound⟩
  have hkept := otherStep_kept hu hsound hs.owned
  exact ⟨hs.kept hkept, hX s s' hx hkept⟩

theorem stable_at : (against C me goal).Stable (Holds me d) := by
  rintro s s' hs ⟨u, hu, hsound⟩
  exact hs.kept (otherStep_kept hu hsound hs.owned)

theorem stable_in : (against C me goal).Stable (In me d) :=
  stable_holds (fun _ _ h hkept => hkept.inside_iff.mpr h)

theorem stable_out : (against C me goal).Stable (Out me d) :=
  stable_holds (fun _ _ h hkept hin => h (hkept.inside_iff.mp hin))

/-- In a transaction its statements are decent, and what they throw they throw there. -/
def goalIn (me : τ) (d : Nat) (i : Stmt ι) (s : State τ δ) : Prop :=
  Decent me i s ∧ (throws i s ≠ none → depth me s = d + 1)

theorem goalIn_of_none {i : Stmt ι} {s : State τ δ} (hdecent : Decent me i s)
    (hnone : throws i s = none) : goalIn me d i s :=
  ⟨hdecent, fun hthrow => absurd hnone hthrow⟩

theorem Holds.called {s : State τ δ} (h : Holds me d s) (c : Call ι) :
    Holds me d (step C me (.call c) s) := ⟨h.owned, h.nested⟩

theorem In.called {s : State τ δ} (h : In me d s) (c : Call ι) : In me d (step C me (.call c) s) :=
  ⟨h.1.called c, h.2⟩

theorem In.goal_call {s : State τ δ} (h : In me d s) (c : Call ι) : goalIn me d (.call c) s := by
  refine ⟨?_, fun _ => h.1.nested⟩
  cases c
  case storageRollback => exact h.2
  all_goals trivial

/-- However this part of a merge ends, the transaction is still open. -/
structure Merging {α : Type} (C : Client ι δ) (me : τ) (d : Nat) (p : Java ι τ δ α) : Prop where
  steady : (against C me (goalIn me d)).Triple (In me d) p (fun _ => In me d)
  prompt : Prompt throws p
  apart : p.Only Apart

theorem in_ret {α : Type} (r : Except Throwable α) : (against C me (goalIn me d)).Triple (In me d)
    (.ret r : Java ι τ δ α) (fun _ => In me d) := Discipline.Triple.ret stable_in (fun _ h => h)

theorem merging_ret {α : Type} (a : α) : Merging C me d (.ret (.ok a) : Java ι τ δ α) :=
  ⟨in_ret (.ok a), prompt_ret a, trivial⟩

theorem Merging.andThen {α β : Type} {p : Java ι τ δ α} {f : α → Java ι τ δ β}
    (hp : Merging C me d p) (hf : ∀ a, Merging C me d (f a)) : Merging C me d (p.andThen f) where
  steady := andThen_keeps hp.steady (fun a => (hf a).steady) (fun t => in_ret (.error t))
  prompt := hp.prompt.andThen (fun a => (hf a).prompt)
  apart := only_andThen hp.apart (fun a => (hf a).apart)

theorem Merging.ite {α : Type} {c : Prop} [Decidable c] {p q : Java ι τ δ α}
    (hp : Merging C me d p) (hq : Merging C me d q) : Merging C me d (if c then p else q) := by
  split
  · exact hp
  · exact hq

theorem merging_test {α : Type} (g : State τ δ → α) : Merging C me d (quietly .test g) where
  steady := by
    refine Discipline.Triple.act stable_in (fun s h _ => ?_)
    exact ⟨goalIn_of_none trivial rfl, in_ret _ s h⟩
  prompt := prompt_quietly (fun _ => rfl) g
  apart := quietly_apart (by simp) g

theorem steady_only {α : Type} {p : Java ι τ δ α} (hp : p.Only (fun i => ∃ c, i = .call c)) :
    (against C me (goalIn me d)).Triple (In me d) p (fun _ => In me d) := by
  refine Discipline.Triple.only stable_in ?_ hp
  rintro _ s ⟨c, rfl⟩ h -
  exact ⟨h.goal_call c, h.called c⟩

theorem invoke_post (c : Call ι) : (against C me (goalIn me d)).Triple (In me d)
    (invoke c : Java ι τ δ Unit) (Post (fun _ => In me d) (fun _ => In me d)) :=
  post_same (steady_only (only_call ⟨c, rfl⟩))

theorem merging_invoke {c : Call ι} (hc : Apart (.call c)) :
    Merging C me d (invoke c : Java ι τ δ Unit) :=
  ⟨steady_only (only_call ⟨c, rfl⟩), prompt_call _, only_call hc⟩

theorem merging_object (pass : ServerDataPass) (json : JsonObject) (nSrcID : Int) :
    Merging C me d (processSyncObjectVer1 C pass json nSrcID : Java ι τ δ Bool) where
  steady := steady_only (only_guarded (fun i => ⟨.work i, rfl⟩) _)
  prompt := prompt_guarded _
  apart := only_guarded (fun i => ⟨by simp, by simp⟩) _

theorem startTransaction_post : (against C me (goalIn me d)).Triple (Holds me d)
    (startTransaction : Java ι τ δ Unit) (Post (fun _ => In me d) (fun _ => In me d)) := by
  refine andThen_post (Q := fun _ => Holds me (d + 1)) (fun _ => stable_in)
    (quietly_post stable_at stable_at ?_) (fun _ => ?_)
  · exact fun s h hsound => ⟨goalIn_of_none trivial rfl, h.locked (C := C) hsound⟩
  refine andThen_post (Q := fun _ => In me d) (fun _ => stable_in)
    (quietly_post stable_at stable_in ?_) (fun _ => invoke_post .storageStart)
  exact fun s h _ => ⟨goalIn_of_none trivial rfl, ⟨h.owned, h.nested⟩, rfl, h.mem⟩

/-- The end of a commit and of a rollback. -/
theorem closed_post : (against C me (goalIn me d)).Triple (In me d)
    ((setInsideTransaction false).andThen (fun _ => Unlock) : Java ι τ δ Unit)
    (Post (fun _ => Out me d) (fun _ => In me d)) := by
  refine andThen_post (Q := fun _ => Out me (d + 1)) (fun _ => stable_in)
    (quietly_post stable_in stable_out ?_) (fun _ => quietly_post stable_out stable_out ?_)
  · refine fun s h _ => ⟨goalIn_of_none trivial rfl, ⟨h.1.owned, h.1.nested⟩, ?_⟩
    exact fun hin => Bool.false_ne_true hin.1
  · exact fun s h _ => ⟨goalIn_of_none h.1.alone rfl, h.unlocked (C := C)⟩

theorem commit_post : (against C me (goalIn me d)).Triple (In me d) (commit : Java ι τ δ Unit)
    (Post (fun _ => Out me d) (fun _ => In me d)) := by
  refine andThen_post (fun _ => stable_in) (invoke_post .saveAttributes) (fun _ => ?_)
  refine andThen_post (fun _ => stable_in) (invoke_post .storageCommit) (fun _ => ?_)
  exact closed_post

theorem rollback_post : (against C me (goalIn me d)).Triple (In me d) (rollback : Java ι τ δ Unit)
    (Post (fun _ => Out me d) (fun _ => In me d)) :=
  andThen_post (fun _ => stable_in) (invoke_post .storageRollback) (fun _ => closed_post)

theorem commitForUI_merging : Merging C me d (commitForUI : Java ι τ δ Unit) := by
  refine (merging_test State.unlockDB).andThen (fun b => Merging.ite ?_ (merging_ret ()))
  refine ⟨Discipline.Triple.bind commit_post (fun r => ?_),
    commit_prompt.andThen (fun _ => startTransaction_prompt),
    only_andThen commit_apart (fun _ => startTransaction_apart)⟩
  cases r with
  | ok _ =>
    exact startTransaction_post.conseq (fun s h => h.1) (fun r s h => post_same_iff.mp h)
  | error t => exact in_ret (.error t)

theorem processObjects_merging (pass : ServerDataPass) (nSrcID : Int) (objects : List JsonObject) :
    Merging C me d (processObjects C pass nSrcID objects) := by
  induction objects with
  | nil => exact merging_ret ()
  | cons json rest ih =>
    refine (merging_test _).andThen (fun go => Merging.ite ?_ (merging_ret ()))
    refine commitForUI_merging.andThen (fun _ => ?_)
    refine (merging_invoke ⟨by simp, by simp⟩).andThen (fun _ => ?_)
    refine (merging_object pass json nSrcID).andThen (fun ok => Merging.ite ?_ ?_)
    · refine Merging.andThen (Merging.ite ?_ (merging_ret ())) (fun _ => ih)
      exact merging_invoke ⟨by simp, by simp⟩
    · exact merging_invoke ⟨by simp, by simp⟩

theorem processServerDataVer1_merging (pass : ServerDataPass) (groups : List JsonObject) :
    Merging C me d (processServerDataVer1 C pass groups) := by
  induction groups with
  | nil => exact merging_ret ()
  | cons group rest ih =>
    refine (merging_test _).andThen (fun go => Merging.ite ?_ (merging_ret ()))
    refine (merging_invoke ⟨by simp, by simp⟩).andThen (fun _ => ?_)
    refine (merging_test _).andThen (fun src => ?_)
    cases src with
    | none => exact merging_invoke ⟨by simp, by simp⟩
    | some nSrcID => exact (processObjects_merging pass nSrcID _).andThen (fun _ => ih)

/-- The transaction ends with the page, or is left open by what was thrown. -/
theorem mergePage_post (groups : List JsonObject) : (against C me (goalIn me d)).Triple (In me d)
    (mergePage C groups) (Post (fun _ => Out me d) (fun _ => In me d)) := by
  have hpass : ∀ pass, (against C me (goalIn me d)).Triple (In me d)
      (processServerDataVer1 C pass groups) (Post (fun _ => In me d) (fun _ => In me d)) :=
    fun pass => post_same (processServerDataVer1_merging pass groups).steady
  refine andThen_post (fun _ => stable_in) (hpass .edpNone) (fun _ => ?_)
  exact andThen_post (fun _ => stable_in) (hpass .edpDeleteObjects) (fun _ => commit_post)

end Parts

/-- Nothing was thrown that the call does not answer as it should: by its first call, an error
while it is inside its transaction, or an exception by the notification or a rollback. -/
structure Calm (me : τ) (start : State τ δ) (i : Stmt ι) (x : State τ δ) : Prop where
  begun : throws i x ≠ none → x.calls ≠ start.calls
  errors : throws i x = some .error → depth me x ≤ depth me start
  exceptions : throws i x = some .exception → Apart i

instance [DecidableEq ι] (me : τ) (start : State τ δ) (i : Stmt ι) (x : State τ δ) :
    Decidable (Calm me start i x) :=
  decidable_of_iff ((throws i x ≠ none → x.calls ≠ start.calls) ∧
      (throws i x = some .error → depth me x ≤ depth me start) ∧
      (throws i x = some .exception → i ≠ .call .fireObjectsNotification ∧
        i ≠ .call .storageRollback))
    ⟨fun h => ⟨h.1, h.2.1, h.2.2⟩, fun h => ⟨h.begun, h.errors, h.exceptions⟩⟩

/-- The thread has locked as often as before the call, its rollbacks were inside a transaction of
its own, and no Unlock of it was made with another thread inside the lock. -/
structure Disciplined (me : τ) (s : State τ δ) (ms : List (Move (Stmt ι) (State τ δ) (Other τ δ)))
    (s' : State τ δ) : Prop where
  nested : depth me s' = depth me s
  decent : Each (Decent me) ms

section Runs

variable {C : Client ι δ} {me : τ} {d : Nat} {start u u' : State τ δ}
  {ms : List (Move (Stmt ι) (State τ δ) (Other τ δ))} {r : Except Throwable Unit}

omit [DecidableEq τ] in
theorem throws_call {i : Stmt ι} {x : State τ δ} {t : Throwable} (h : throws i x = some t) :
    ∃ c, i = .call c := by
  cases i with
  | call c => exact ⟨c, rfl⟩
  | lock => cases h
  | unlock => cases h
  | setInsideTransaction b => cases h
  | test => cases h

theorem calm_of_none {i : Stmt ι} {x : State τ δ} (h : throws i x = none) :
    Calm me start i x := by
  refine ⟨fun hthrow => absurd h hthrow, fun hthrow => ?_, fun hthrow => ?_⟩ <;>
    exact absurd (h.symm.trans hthrow) (by simp)

/-- A part of the call is calm where what it has thrown is no harm at its place. -/
theorem calm_iff (harm : Throwable → Prop) {p : Java ι τ δ Unit} (hprompt : Prompt throws p)
    (hrun : Run (step C me) (otherStep me) p u ms (.ret r) u')
    (hharm : ∀ i x t, .own i x ∈ ms → throws i x = some t → (Calm me start i x ↔ ¬harm t)) :
    Each (Calm me start) ms ↔ ∀ t, r = .error t → ¬harm t := by
  have hthrown := hprompt.run hrun
  constructor
  · intro h t hr
    obtain ⟨i, x, hx, ht⟩ := hthrown.comes t hr
    exact (hharm i x t hx ht).mp (h i x hx)
  · intro h i x hx
    cases ht : throws i x with
    | none => exact calm_of_none ht
    | some t => exact (hharm i x t hx ht).mpr (h t (hthrown.ends i x t hx ht))

theorem calm_iff_quiet {p : Java ι τ δ Unit} (hprompt : Prompt throws p)
    (hrun : Run (step C me) (otherStep me) p u ms (.ret r) u')
    (hharm : ∀ i x t, .own i x ∈ ms → throws i x = some t → ¬Calm me start i x) :
    Each (Calm me start) ms ↔ ∀ t, r ≠ .error t := by
  rw [calm_iff (fun _ => True) hprompt hrun
    (fun i x t hx ht => iff_of_false (hharm i x t hx ht) (fun h => h trivial))]
  exact forall_congr' fun t => imp_congr_right fun _ => ⟨fun h => h trivial, fun h _ => h⟩

theorem calm_iff_ne (bad : Throwable) {p : Java ι τ δ Unit} (hprompt : Prompt throws p)
    (hrun : Run (step C me) (otherStep me) p u ms (.ret r) u')
    (hharm : ∀ i x t, .own i x ∈ ms → throws i x = some t → (Calm me start i x ↔ t ≠ bad)) :
    Each (Calm me start) ms ↔ r ≠ .error bad := by
  rw [calm_iff (fun t => t = bad) hprompt hrun hharm]
  constructor
  · exact fun h hr => h bad hr rfl
  · rintro h t hr rfl
    exact h hr

/-- Nothing of the call is left to be executed. -/
theorem returned_run {X : State τ δ → Prop} {q : Except Throwable Unit}
    (hX : (against C me (fun _ _ => True)).Stable X)
    (hrun : Run (step C me) (otherStep me) (.ret q) u ms (.ret r) u') (hu : X u)
    (hsound : ∀ m ∈ ms, Sound me m) :
    X u' ∧ r = q ∧ ∀ Q : Stmt ι → State τ δ → Prop, Each Q ms := by
  obtain ⟨hend, hr, heach⟩ := ret_run hX hrun hu hsound
  exact ⟨hend, Prog.ret.inj hr, heach⟩

/-- The sync thread counts its calls. -/
theorem calls_run {n : Nat} {p q : Java ι τ δ Unit} (hu : n < u.calls)
    (hrun : Run (step C me) (otherStep me) p u ms q u') :
    Each (fun _ x => n < x.calls) ms ∧ n < u'.calls := by
  have hown : ∀ i (x : State τ δ), n < x.calls → n < (step C me i x).calls := by
    intro i x hx
    cases i with
    | call c => exact Nat.lt_succ_of_lt hx
    | lock => exact hx
    | unlock => exact hx
    | setInsideTransaction b => exact hx
    | test => exact hx
  have henv : ∀ v (x x' : State τ δ), otherStep me v x = some x' → n < x.calls → n < x'.calls := by
    intro v x x' hv hx
    have hsame : x'.calls = x.calls := by
      cases v with
      | call t c =>
        simp only [otherStep, Option.ite_none_left_eq_some, Option.map_eq_some_iff] at hv
        obtain ⟨-, lock, -, rfl⟩ := hv
        rfl
      | setInsideTransaction t b =>
        simp only [otherStep, Option.ite_none_left_eq_some, Option.some.injEq] at hv
        obtain ⟨-, rfl⟩ := hv
        rfl
      | change unlockDB data =>
        simp only [otherStep, Option.some.injEq] at hv
        rw [← hv]
    rw [hsame]
    exact hx
  obtain ⟨hall, hend⟩ := Run.invariant hown henv hrun hu
  exact ⟨fun i x hx => hall _ hx, hend⟩

/-- The first call is made with nothing thrown before it. -/
theorem startTransaction_first (n : Nat) : (against C me (fun i x => throws i x ≠ none →
      x.calls = n)).Triple (fun x => Holds me d x ∧ x.calls = n)
    (startTransaction : Java ι τ δ Unit)
    (Post (fun _ x => Holds me (d + 1) x ∧ x.calls = n + 1)
      (fun _ x => Holds me (d + 1) x ∧ x.calls = n + 1)) := by
  have hstable : ∀ k m, (against C me (fun (i : Stmt ι) (x : State τ δ) => throws i x ≠ none →
      x.calls = n)).Stable (fun x => Holds me k x ∧ x.calls = m) :=
    fun k m => stable_holds (fun _ _ h hkept => hkept.calls.trans h)
  refine andThen_post (Q := fun _ x => Holds me (d + 1) x ∧ x.calls = n) (fun _ => hstable _ _)
    (quietly_post (hstable _ _) (hstable _ _) ?_) (fun _ => ?_)
  · exact fun x h hsound => ⟨fun hnone => absurd rfl hnone, h.1.locked (C := C) hsound, h.2⟩
  refine andThen_post (Q := fun _ x => Holds me (d + 1) x ∧ x.calls = n) (fun _ => hstable _ _)
    (quietly_post (hstable _ _) (hstable _ _) ?_) (fun _ => ?_)
  · exact fun x h _ => ⟨fun hnone => absurd rfl hnone, ⟨h.1.owned, h.1.nested⟩, h.2⟩
  refine call_post (hstable _ _) (hstable _ _) (fun _ => hstable _ _) (fun x h _ => ?_)
  have hcalls : (step C me (.call .storageStart) x).calls = n + 1 := congrArg (· + 1) h.2
  exact ⟨fun _ => h.2, fun _ => ⟨h.1.called _, hcalls⟩, fun _ _ => ⟨h.1.called _, hcalls⟩⟩

theorem startTransaction_run (hu : Holds me d u) (hcalls : u.calls = start.calls)
    (hrun : Run (step C me) (otherStep me) startTransaction u ms (.ret r) u')
    (hsound : ∀ m ∈ ms, Sound me m) :
    In me d u' ∧ start.calls < u'.calls ∧ Each (Decent me) ms ∧
      (Each (Calm me start) ms ↔ ∀ t, r ≠ .error t) := by
  obtain ⟨hgoal, hend⟩ := Discipline.wp_run hrun (startTransaction_post u hu) hsound
  obtain ⟨hfirst, hcount⟩ :=
    Discipline.wp_run hrun (startTransaction_first (d := d) start.calls u ⟨hu, hcalls⟩) hsound
  have hin : In me d u' := post_same_iff.mp (hend r rfl)
  have hnext : u'.calls = start.calls + 1 := (post_same_iff.mp (hcount r rfl)).2
  refine ⟨hin, by omega, fun i x hx => (hgoal i x hx).1, ?_⟩
  refine calm_iff_quiet startTransaction_prompt hrun (fun i x t hx ht h => ?_)
  have hthrow : throws i x ≠ none := by rw [ht]; exact Option.some_ne_none t
  exact h.begun hthrow (hfirst i x hx hthrow)

theorem mergePage_run {groups : List JsonObject} (hu : In me d u) (hd : depth me start = d)
    (hcalls : start.calls < u.calls)
    (hrun : Run (step C me) (otherStep me) (mergePage C groups) u ms (.ret r) u')
    (hsound : ∀ m ∈ ms, Sound me m) :
    Post (fun _ => Out me d) (fun _ => In me d) r u' ∧ Each (Decent me) ms ∧
      (Each (Calm me start) ms ↔ r ≠ .error .error) := by
  obtain ⟨hgoal, hend⟩ := Discipline.wp_run hrun (mergePage_post groups u hu) hsound
  have hpass : ∀ pass, Merging C me d (processServerDataVer1 C pass groups) :=
    fun pass => processServerDataVer1_merging pass groups
  have hprompt : Prompt throws (mergePage C groups : Java ι τ δ Unit) :=
    (hpass .edpNone).prompt.andThen
      (fun _ => (hpass .edpDeleteObjects).prompt.andThen (fun _ => commit_prompt))
  have hapart : (mergePage C groups : Java ι τ δ Unit).Only Apart :=
    only_andThen (hpass .edpNone).apart
      (fun _ => only_andThen (hpass .edpDeleteObjects).apart (fun _ => commit_apart))
  refine ⟨hend r rfl, fun i x hx => (hgoal i x hx).1, ?_⟩
  refine calm_iff_ne .error hprompt hrun (fun i x t hx ht => ?_)
  have hdeep : depth me x = d + 1 :=
    (hgoal i x hx).2 (by rw [ht]; exact Option.some_ne_none t)
  have hlater : start.calls < x.calls := (calls_run hcalls hrun).1 i x hx
  constructor
  · rintro h rfl
    have := h.errors ht
    omega
  · intro hne
    refine ⟨fun _ => by omega, fun herror => ?_, fun _ => hrun.only hapart i x hx⟩
    exact absurd (Option.some.inj (ht.symm.trans herror)) hne

/-- The notification comes after the end of the transaction. -/
theorem fireObjectsNotification_run (hu : Out me d u) (hd : depth me start = d)
    (hcalls : start.calls < u.calls)
    (hrun : Run (step C me) (otherStep me) (invoke .fireObjectsNotification) u ms (.ret r) u')
    (hsound : ∀ m ∈ ms, Sound me m) :
    Out me d u' ∧ Each (Decent me) ms ∧ (Each (Calm me start) ms ↔ r ≠ .error .exception) := by
  have htriple : (against C me (fun i x => i = .call .fireObjectsNotification ∧
      depth me x = d)).Triple (Out me d) (invoke .fireObjectsNotification)
      (Post (fun _ => Out me d) (fun _ => Out me d)) :=
    call_post stable_out stable_out (fun _ => stable_out) (fun x h _ => ⟨⟨rfl, h.1.nested⟩,
      fun _ => ⟨h.1.called _, h.2⟩, fun _ _ => ⟨h.1.called _, h.2⟩⟩)
  obtain ⟨hgoal, hend⟩ := Discipline.wp_run hrun (htriple u hu) hsound
  have hout : Out me d u' := post_same_iff.mp (hend r rfl)
  refine ⟨hout, fun i x hx => ?_, ?_⟩
  · rw [(hgoal i x hx).1]
    trivial
  refine calm_iff_ne .exception (prompt_call _) hrun (fun i x t hx ht => ?_)
  obtain ⟨rfl, hdeep⟩ := hgoal i x hx
  have hlater : start.calls < x.calls := (calls_run hcalls hrun).1 _ x hx
  constructor
  · rintro h rfl
    exact (h.exceptions ht).1 rfl
  · intro hne
    refine ⟨fun _ => by omega, fun _ => by omega, fun hexception => ?_⟩
    exact absurd (Option.some.inj (ht.symm.trans hexception)) hne

theorem rollback_run (hu : In me d u) (hd : depth me start = d)
    (hrun : Run (step C me) (otherStep me) rollback u ms (.ret r) u')
    (hsound : ∀ m ∈ ms, Sound me m) :
    Post (fun _ => Out me d) (fun _ => In me d) r u' ∧ Each (Decent me) ms ∧
      (Each (Calm me start) ms ↔ ∀ t, r ≠ .error t) := by
  obtain ⟨hgoal, hend⟩ := Discipline.wp_run hrun (rollback_post u hu) hsound
  have honly : (rollback : Java ι τ δ Unit).Only
      (fun i => ∀ c, i = .call c → i = .call .storageRollback) :=
    only_andThen (only_call (fun _ _ => rfl)) (fun _ =>
      only_andThen ⟨by simp, fun _ => trivial⟩ (fun _ => ⟨by simp, fun _ => trivial⟩))
  refine ⟨hend r rfl, fun i x hx => (hgoal i x hx).1, ?_⟩
  refine calm_iff_quiet rollback_prompt hrun (fun i x t hx ht h => ?_)
  obtain ⟨c, hc⟩ := throws_call ht
  have hi : i = .call .storageRollback := hrun.only honly i x hx c hc
  have hdeep : depth me x = d + 1 :=
    (hgoal i x hx).2 (by rw [ht]; exact Option.some_ne_none t)
  cases t with
  | exception => exact absurd hi (h.exceptions ht).2
  | error =>
    have := h.errors ht
    omega

/-- A rollback that comes too late. -/
theorem rollback_out (hu : Out me d u)
    (hrun : Run (step C me) (otherStep me) rollback u ms (.ret r) u')
    (hsound : ∀ m ∈ ms, Sound me m) : ¬Each (Decent me) ms := by
  obtain ⟨x, hx, hout⟩ := exists_first hrun hu (fun v y y' hv hy hout => by
    have hkept := otherStep_kept hy (hsound _ hv) hout.1.owned
    exact ⟨hout.1.kept hkept, fun hin => hout.2 (hkept.inside_iff.mp hin)⟩)
  exact fun h => hout.2 (h _ x hx)

/-- The body of the try: it ends outside of the transaction, or inside where a step of the merge
or of the commit has thrown. -/
theorem notifiedPage_run {groups : List JsonObject} (hu : In me d u) (hd : depth me start = d)
    (hcalls : start.calls < u.calls)
    (hrun : Run (step C me) (otherStep me) (notifiedPage C groups) u ms (.ret r) u')
    (hsound : ∀ m ∈ ms, Sound me m) :
    Each (Decent me) ms ∧
      ((Out me d u' ∧ (Each (Calm me start) ms ↔ r ≠ .error .exception)) ∨
        (In me d u' ∧ (∃ t, r = .error t) ∧ (Each (Calm me start) ms ↔ r ≠ .error .error))) := by
  obtain ⟨q, ms₁, ms₂, v, rfl, hmerge, hrest⟩ := Run.of_bind_ret hrun
  rw [each_append, each_append]
  obtain ⟨hsound₁, hsound₂⟩ := List.forall_mem_append.mp hsound
  obtain ⟨hend, hdecent, hcalm⟩ := mergePage_run hu hd hcalls hmerge hsound₁
  cases q with
  | ok a =>
    obtain ⟨hout, hdecent₂, hcalm₂⟩ := fireObjectsNotification_run hend hd
      (calls_run hcalls hmerge).2 hrest hsound₂
    have hok : Each (Calm me start) ms₁ := hcalm.mpr (by simp)
    exact ⟨⟨hdecent, hdecent₂⟩, Or.inl ⟨hout, by rw [hcalm₂]; exact and_iff_right hok⟩⟩
  | error t =>
    obtain ⟨hin, rfl, heach⟩ := returned_run stable_in hrest hend hsound₂
    refine ⟨⟨hdecent, heach _⟩, Or.inr ⟨hin, ⟨t, rfl⟩, ?_⟩⟩
    rw [← hcalm]
    exact and_iff_left (heach _)

theorem Out.nested {s : State τ δ} (h : Out me d s) : depth me s = d := h.1.nested

theorem In.not_nested {s : State τ δ} (h : In me d s) : depth me s ≠ d := by
  rw [h.1.nested]
  exact Nat.succ_ne_self d

/-- The handler: a rollback closes the transaction that the body has left open, and is harm where
the body has closed it. -/
theorem caught_run {groups : List JsonObject} (hu : In me d u) (hd : depth me start = d)
    (hcalls : start.calls < u.calls)
    (hrun : Run (step C me) (otherStep me) (catchException (notifiedPage C groups) rollback) u ms
      (.ret r) u')
    (hsound : ∀ m ∈ ms, Sound me m) :
    (depth me u' = d ∧ Each (Decent me) ms) ↔ Each (Calm me start) ms := by
  obtain ⟨q, ms₁, ms₂, v, rfl, hbody, hrest⟩ := Run.of_bind_ret hrun
  rw [each_append, each_append]
  obtain ⟨hsound₁, hsound₂⟩ := List.forall_mem_append.mp hsound
  obtain ⟨hdecent, hbodyEnd⟩ := notifiedPage_run hu hd hcalls hbody hsound₁
  rw [and_iff_right hdecent]
  cases q with
  | ok a =>
    rcases hbodyEnd with ⟨hout, hcalm⟩ | ⟨-, ⟨t, ht⟩, -⟩
    · obtain ⟨hout', -, heach⟩ := returned_run stable_out hrest hout hsound₂
      rw [hcalm]
      exact ⟨fun _ => ⟨by simp, heach _⟩, fun _ => ⟨hout'.nested, heach _⟩⟩
    · cases ht
  | error t =>
    cases t with
    | error =>
      rcases hbodyEnd with ⟨hout, hcalm⟩ | ⟨hin, -, hcalm⟩
      · obtain ⟨hout', -, heach⟩ := returned_run stable_out hrest hout hsound₂
        rw [hcalm]
        exact ⟨fun _ => ⟨by simp, heach _⟩, fun _ => ⟨hout'.nested, heach _⟩⟩
      · obtain ⟨hin', -, -⟩ := returned_run stable_in hrest hin hsound₂
        rw [hcalm]
        exact ⟨fun h => absurd h.1 hin'.not_nested, fun h => absurd rfl h.1⟩
    | exception =>
      obtain ⟨p, ms₃, ms₄, x, rfl, hrollback, hlast⟩ := Run.of_bind_ret hrest
      obtain ⟨hsound₃, hsound₄⟩ := List.forall_mem_append.mp hsound₂
      rw [each_append, each_append]
      rcases hbodyEnd with ⟨hout, hcalm⟩ | ⟨hin, -, hcalm⟩
      · rw [hcalm]
        exact ⟨fun h => absurd h.2.1 (rollback_out hout hrollback hsound₃), fun h => absurd rfl h.1⟩
      · obtain ⟨hend, hdecent₃, hcalm₃⟩ := rollback_run hin hd hrollback hsound₃
        rw [hcalm, hcalm₃, and_iff_right hdecent₃]
        cases p with
        | ok _ =>
          obtain ⟨hout', -, heach⟩ := returned_run stable_out hlast hend hsound₄
          exact ⟨fun _ => ⟨by simp, by simp, heach _⟩, fun _ => ⟨hout'.nested, heach _⟩⟩
        | error t =>
          obtain ⟨hin', -, -⟩ := returned_run stable_in hlast hend hsound₄
          exact ⟨fun h => absurd h.1 hin'.not_nested, fun h => absurd rfl (h.2.1 t)⟩

/-- The transaction with its Lock. -/
theorem transaction_run {groups : List JsonObject} (hu : Holds me d u) (hd : depth me start = d)
    (hcalls : u.calls = start.calls)
    (hrun : Run (step C me) (otherStep me) (startTransaction.andThen
      fun _ => catchException (notifiedPage C groups) rollback) u ms (.ret r) u')
    (hsound : ∀ m ∈ ms, Sound me m) :
    (depth me u' = d ∧ Each (Decent me) ms) ↔ Each (Calm me start) ms := by
  obtain ⟨q, ms₁, ms₂, v, rfl, hstart, hrest⟩ := Run.of_bind_ret hrun
  rw [each_append, each_append]
  obtain ⟨hsound₁, hsound₂⟩ := List.forall_mem_append.mp hsound
  obtain ⟨hin, hlater, hdecent, hcalm⟩ := startTransaction_run hu hcalls hstart hsound₁
  rw [and_iff_right hdecent]
  cases q with
  | ok _ =>
    rw [and_iff_right (hcalm.mpr (by simp))]
    exact caught_run hin hd hlater hrest hsound₂
  | error t =>
    obtain ⟨hin', -, -⟩ := returned_run stable_in hrest hin hsound₂
    rw [hcalm]
    exact ⟨fun h => absurd h.1 hin'.not_nested, fun h => absurd rfl (h.1 t)⟩

end Runs

/-- Whatever the page, the calls that throw and the other threads: where every Lock was free for
the thread that got it, the call keeps the discipline of the lock just where it is calm. -/
theorem lock_discipline_iff (C : Client ι δ) (me : τ) (groups : List JsonObject)
    {s s' : State τ δ} {r : Except Throwable Unit}
    {ms : List (Move (Stmt ι) (State τ δ) (Other τ δ))} (howned : s.lock.Owned)
    (hrun : Run (step C me) (otherStep me) (processServerData C groups) s ms (.ret r) s')
    (hsound : ∀ m ∈ ms, Sound me m) :
    Disciplined me s ms s' ↔ Each (Calm me s) ms := by
  have hs : Holds me (depth me s) s := ⟨howned, rfl⟩
  have hdone : ∀ {u u' ms}, Holds me (depth me s) u → (∀ m ∈ ms, Sound me m) →
      Run (step C me) (otherStep me) done u ms (.ret r) u' →
      ((depth me u' = depth me s ∧ Each (Decent me) ms) ↔ Each (Calm me s) ms) := by
    intro u u' ms hu hsound hrun
    obtain ⟨hu', -, heach⟩ := returned_run stable_at hrun hu hsound
    exact ⟨fun _ => heach _, fun _ => ⟨hu'.nested, heach _⟩⟩
  have hfields : Disciplined me s ms s' ↔ depth me s' = depth me s ∧ Each (Decent me) ms :=
    ⟨fun h => ⟨h.nested, h.decent⟩, fun h => ⟨h.1, h.2⟩⟩
  rw [hfields]
  unfold processServerData at hrun
  split at hrun
  · exact hdone hs hsound hrun
  · obtain ⟨q, ms₁, ms₂, v, rfl, htest, hrest⟩ := Run.of_bind_ret hrun
    obtain ⟨hsound₁, hsound₂⟩ := List.forall_mem_append.mp hsound
    have htriple : (against C me (fun i _ => i = .test)).Triple
        (fun x => Holds me (depth me s) x ∧ x.calls = s.calls) (isContinueSync C)
        (Post (fun _ x => Holds me (depth me s) x ∧ x.calls = s.calls) (fun _ _ => False)) :=
      quietly_post (stable_holds (fun _ _ h hkept => hkept.calls.trans h))
        (stable_holds (fun _ _ h hkept => hkept.calls.trans h)) (fun x h _ => ⟨rfl, h⟩)
    obtain ⟨hgoal, hend⟩ := Discipline.wp_run htest (htriple s ⟨hs, rfl⟩) hsound₁
    have hdecent : Each (Decent me) ms₁ := fun i x hx => by rw [hgoal i x hx]; trivial
    have hcalm : Each (Calm me s) ms₁ := fun i x hx => by rw [hgoal i x hx]; exact calm_of_none rfl
    rw [each_append, each_append, and_iff_right hdecent, and_iff_right hcalm]
    cases q with
    | error t => exact (hend _ rfl).elim
    | ok go =>
      obtain ⟨hv, hcalls⟩ := hend _ rfl
      cases go with
      | false => exact hdone hv hsound₂ hrest
      | true => exact transaction_run hv rfl hcalls hrest hsound₂

/-- The calls on the tables and the engine, and the merge of an object that only inserts. -/
def sampleClient : Client Statements.Stmt Statements.World where
  effect
    | .work i, w => Statements.step i w
    | .stopSync, w => { w with syncState := .esStop }
    | _, w => w
  isContinueSync w := w.syncState.isContinueSync
  groupSource group _ := ServerChanges.groupSource sampleEngine sampleSource (group.getStr "s")
  processSyncObjectVer1 pass json nSrcID :=
    (ServerChanges.processSyncObjectVer1 sampleEngine { sampleSource with pass } json nSrcID).bind
      (fun r => .ret r.ok)

def sampleGroups : List JsonObject :=
  [.object [("s", .string "Contact"), ("ol", .array [.object [("o", .string "o1"),
    ("av", .array [.object [("a", .string "name"), ("i", .int 10), ("v", .string "Bob")]])]])]]

/-- Nobody is inside the lock, and one of the calls throws an exception. -/
def throwingAt (n : Nat) : State Nat Statements.World :=
  ⟨{}, false, false, PageMerge.sampleStart, fun k => if k = n then some .exception else none, 0⟩

/-- A statement of the merge throws while thread 1 waits for the lock. -/
theorem lock_discipline_iff_merge : ∃ ms r s',
    Run (step sampleClient 0) (otherStep 0) (processServerData sampleClient sampleGroups)
      (throwingAt 3) ms (.ret r) s' ∧
    ms.length = 16 ∧ Disciplined 0 (throwingAt 3) ms s' := by
  obtain ⟨ms, r, s', hrun, hcheck⟩ := exists_complete_run (step sampleClient 0) (otherStep 0)
    (List.replicate 5 none ++ [some (.call 1 .lock)] ++ List.replicate 9 none ++
      [some (.call 1 (.resume false))])
    (processServerData sampleClient sampleGroups) (throwingAt 3)
    (fun ms _ _ => ms.length = 16 && (ms.all (fun m => decide (Sound 0 m)) &&
      ms.all (fun m => match m with
        | .own i x => decide (Calm 0 (throwingAt 3) i x)
        | .env _ _ => true))) (by decide +kernel)
  rw [Bool.and_eq_true, Bool.and_eq_true, List.all_eq_true, List.all_eq_true] at hcheck
  obtain ⟨hlength, hsound, hcalm⟩ := hcheck
  have howned : (throwingAt 3).lock.Owned := Mutex.State.owned_init
  have hiff := lock_discipline_iff sampleClient 0 sampleGroups howned hrun
    (fun m hm => of_decide_eq_true (hsound m hm))
  exact ⟨ms, r, s', hrun, of_decide_eq_true hlength,
    hiff.mpr (fun i x hx => of_decide_eq_true (hcalm _ hx))⟩

/-- A rollback that thread 0 makes outside of its transaction. -/
def lateRollback : Move (Stmt Statements.Stmt) (State Nat Statements.World)
    (Other Nat Statements.World) → Bool
  | .own (.call .storageRollback) x => !decide (Inside 0 x)
  | _ => false

/-- The notification throws after the commit, when thread 1 is inside its own transaction: the
rollback is made there, and takes the lock from thread 1. -/
theorem late_rollback_unlocks_other : ∃ ms r s',
    Run (step sampleClient 0) (otherStep 0) (processServerData sampleClient sampleGroups)
      (throwingAt 14) ms (.ret r) s' ∧ (∀ m ∈ ms, Sound 0 m) ∧
    s'.lock.holders = {1} ∧ s'.lock.mutex = {} ∧ ¬Disciplined 0 (throwingAt 14) ms s' := by
  obtain ⟨ms, r, s', hrun, hcheck⟩ := exists_complete_run (step sampleClient 0) (otherStep 0)
    (List.replicate 27 none ++ [some (.call 1 .lock), some (.setInsideTransaction 1 true)] ++
      List.replicate 4 none)
    (processServerData sampleClient sampleGroups) (throwingAt 14)
    (fun ms _ s' => ms.all (fun m => decide (Sound 0 m)) && (s'.lock.holders = {1} &&
      (s'.lock.mutex = {} && ms.any lateRollback)))
    (by decide +kernel)
  rw [Bool.and_eq_true, Bool.and_eq_true, Bool.and_eq_true, List.all_eq_true,
    List.any_eq_true] at hcheck
  obtain ⟨hsound, hholders, hmutex, m, hm, hlate⟩ := hcheck
  refine ⟨ms, r, s', hrun, fun m hm => of_decide_eq_true (hsound m hm), of_decide_eq_true hholders,
    of_decide_eq_true hmutex, fun h => ?_⟩
  unfold lateRollback at hlate
  split at hlate
  · rename_i x
    rw [Bool.not_eq_true', decide_eq_false_iff_not] at hlate
    exact hlate (h.decent _ x hm)
  · cases hlate

end Rhodes.JavaTransactions
