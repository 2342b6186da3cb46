import TTK4145.Rtsystem.Main.Locking

/-! Which thread owns which mutex in the shutdown, read off where the threads stand. -/
namespace TTK4145.Rtsystem
open Lib

/-- The array whose lock `main` holds. -/
def SectionPc.section {α η : Type*} : SectionPc α η → Option α
  | .slot _ a _ | .join a _ _ | .clear a _ _ | .destroy a _ _ | .remove _ _ a _ _
  | .close a _ _ | .unlock _ a => some a
  | .call | .lock _ _ | .poll _ => none

/-- `main` removes a handle from its array in `task_handle_destroy`. -/
def SectionPc.removing {α η : Type*} : SectionPc α η → Bool
  | .remove _ _ _ _ _ => true
  | _ => false

def WorkerPc.section {α η : Type*} : WorkerPc α η → Option α
  | .op .run o | .op .unlock o => some o.array
  | _ => none

/-- In the critical section of `fifo_queue_receive`. -/
def LogLoopPc.receives : LogLoopPc → Bool
  | .receiving _ => true
  | _ => false

namespace Locking
variable {α η κ : Type*} {setup : ShutdownSetup α η κ} {s t : Locking α η κ} {a : α} {h : η}
  {x y : ThreadName η} {m : LockName α} {n calls : ℕ} {outcome : PollOutcome} {ready : Bool}
  {c : WorkerChoice α η}

def sectionOf (s : Locking α η κ) : ThreadName η → Option α
  | .main => s.main.section
  | .log => none
  | .task h => (s.task h).section

/-- A thread between the lock and the unlock of the queue. -/
def UsesQueue (s : Locking α η κ) (x : ThreadName η) : Prop :=
  (s.logger x).sending = true ∨ x = .log ∧ s.log.receives = true

/-- The lock of an array is owned by the thread in its section. -/
def ArrayLocks (s : Locking α η κ) : Prop :=
  ∀ a, OwnedBy (s.owner (.array a)) fun x => s.sectionOf x = some a

/-- The lock of the queue is owned by the thread that sends a message or receives one, and the log
task does not receive in a `LOG` call. -/
structure QueueLock (s : Locking α η κ) : Prop where
  owner : OwnedBy (s.owner .queue) s.UsesQueue
  sending : ∀ x, (s.logger x).sending = true → 0<(s.logger x).calls
  receiving : s.log.receives = true → (s.logger .log).calls = 0

theorem QueueLock.idle (hs : QueueLock s) (hx : (s.logger x).calls = 0) :
    (s.logger x).sending = false := by
  by_contra hsend
  rw [Bool.not_eq_false] at hsend
  exact (hs.sending x hsend).ne' hx

theorem QueueLock.congr (hs : QueueLock s) (howner : t.owner .queue = s.owner .queue)
    (hlogger : t.logger = s.logger) (hlog : t.log.receives = s.log.receives) : QueueLock t := by
  refine ⟨?_,?_,?_⟩
  · rw [howner]
    exact hs.owner.congr fun y => by rw [UsesQueue,UsesQueue,hlogger,hlog]
  · rw [hlogger]
    exact hs.sending
  · rw [hlogger,hlog]
    exact hs.receiving

theorem ArrayLocks.congr (hs : ArrayLocks s) (howner : ∀ a, t.owner (.array a) = s.owner (.array a))
    (hmain : t.main.section = s.main.section)
    (htask : ∀ h, (t.task h).section = (s.task h).section) : ArrayLocks t := by
  have hsection : ∀ x, t.sectionOf x = s.sectionOf x := by
    intro x
    cases x with
    | main => exact hmain
    | log => rfl
    | task h => exact htask h
  intro a
  rw [howner]
  exact (hs a).congr fun x => by rw [hsection]

section Queue
variable [DecidableEq η]

/-- A thread outside of its `LOG` calls gets new ones to make. -/
theorem QueueLock.logs (hs : QueueLock s) (hx : (s.logger x).calls = 0)
    (howner : t.owner .queue = s.owner .queue)
    (hlogger : t.logger = Function.update s.logger x ⟨n,false⟩)
    (hlog : t.log.receives = s.log.receives) (hidle : x = .log → t.log.receives = false) :
    QueueLock t := by
  have hsending : ∀ y, (t.logger y).sending = (s.logger y).sending := by
    intro y
    rw [hlogger]
    by_cases hy : y = x
    · subst hy
      rw [Function.update_self,hs.idle hx]
    · rw [Function.update_of_ne hy]
  refine ⟨?_,fun y hy => ?_,fun hr => ?_⟩
  · rw [howner]
    exact hs.owner.congr fun y => by rw [UsesQueue,UsesQueue,hsending,hlog]
  · rw [hlogger]
    rw [hsending] at hy
    have hyx : y ≠ x := by
      rintro rfl
      rw [hs.idle hx] at hy
      cases hy
    rw [Function.update_of_ne hyx]
    exact hs.sending y hy
  · have hne : ThreadName.log ≠ x := by
      rintro rfl
      rw [hidle rfl] at hr
      cases hr
    rw [hlogger,Function.update_of_ne hne]
    rw [hlog] at hr
    exact hs.receiving hr

/-- Another thread uses the queue as before when the state of `x` in a `LOG` call changes. -/
theorem usesQueue_other {l : Logger} (hlogger : t.logger = Function.update s.logger x l)
    (hlog : t.log = s.log) (hy : y ≠ x) : t.UsesQueue y ↔ s.UsesQueue y := by
  rw [UsesQueue,UsesQueue,hlogger,hlog,Function.update_of_ne hy]

variable [DecidableEq α]

/-- The lock in `fifo_queue_send`. -/
theorem QueueLock.send (hs : QueueLock s) (hfree : s.owner .queue = none)
    (hcalls : 0<(s.logger x).calls) (howner : t.owner = Function.update s.owner .queue (some x))
    (hlogger : t.logger = Function.update s.logger x ⟨(s.logger x).calls,true⟩)
    (hlog : t.log = s.log) : QueueLock t := by
  have hnone := hs.owner
  rw [hfree] at hnone
  have hself : t.logger x = ⟨(s.logger x).calls,true⟩ := by rw [hlogger,Function.update_self]
  refine ⟨?_,fun y hy => ?_,fun hr => ?_⟩
  · rw [howner,Function.update_self]
    exact hnone.enter (.inl (by rw [hself])) fun y hy => usesQueue_other hlogger hlog hy
  · by_cases hyx : y = x
    · subst hyx
      rw [hself]
      exact hcalls
    · rw [hlogger,Function.update_of_ne hyx] at hy
      exact absurd (.inl hy) hnone.outside
  · rw [hlog] at hr
    exact absurd (.inr ⟨rfl,hr⟩) (hnone.outside (t := .log))

/-- The unlock in `fifo_queue_send`. -/
theorem QueueLock.sent (hs : QueueLock s) (hsend : (s.logger x).sending = true)
    (howner : t.owner = Function.update s.owner .queue none)
    (hlogger : t.logger = Function.update s.logger x ⟨n,false⟩)
    (hlog : t.log = s.log) : QueueLock t := by
  have hself : t.logger x = ⟨n,false⟩ := by rw [hlogger,Function.update_self]
  have hnot : s.log.receives = false := by
    by_contra hr
    rw [Bool.not_eq_false] at hr
    obtain rfl : x = .log := hs.owner.exclusive (.inl hsend) (.inr ⟨rfl,hr⟩)
    exact (hs.sending _ hsend).ne' (hs.receiving hr)
  have hout : ¬t.UsesQueue x := by
    rintro (hx | ⟨-,hr⟩)
    · rw [hself] at hx
      cases hx
    · rw [hlog,hnot] at hr
      cases hr
  have hnone : OwnedBy none t.UsesQueue :=
    hs.owner.leave (.inl hsend) hout fun y hy => usesQueue_other hlogger hlog hy
  refine ⟨by rwa [howner,Function.update_self],fun y hy => ?_,fun hr => ?_⟩
  · exact absurd (.inl hy) hnone.outside
  · rw [hlog,hnot] at hr
    cases hr

end Queue

section Receive

/-- Another thread uses the queue as before when the log task takes a step. -/
theorem usesQueue_task (hlogger : t.logger = s.logger) (hy : y ≠ .log) :
    t.UsesQueue y ↔ s.UsesQueue y := by
  rw [UsesQueue,UsesQueue,hlogger]
  simp only [hy,false_and,or_false]

variable [DecidableEq α]

/-- The lock in `fifo_queue_receive`. -/
theorem QueueLock.receive (hs : QueueLock s) (hfree : s.owner .queue = none)
    (hcalls : (s.logger .log).calls = 0) (howner : t.owner = Function.update s.owner .queue (some .log))
    (hlogger : t.logger = s.logger) (hlog : t.log.receives = true) : QueueLock t := by
  have hnone := hs.owner
  rw [hfree] at hnone
  refine ⟨?_,by rw [hlogger]; exact hs.sending,fun _ => by rw [hlogger]; exact hcalls⟩
  rw [howner,Function.update_self]
  exact hnone.enter (.inr ⟨rfl,hlog⟩) fun y hy => usesQueue_task hlogger hy

/-- The unlock in `fifo_queue_receive`. -/
theorem QueueLock.received (hs : QueueLock s) (hr : s.log.receives = true)
    (howner : t.owner = Function.update s.owner .queue none) (hlogger : t.logger = s.logger)
    (hlog : t.log.receives = false) : QueueLock t := by
  have hout : ¬t.UsesQueue .log := by
    rintro (hx | ⟨-,ht⟩)
    · rw [hlogger,hs.idle (hs.receiving hr)] at hx
      cases hx
    · rw [hlog] at ht
      cases ht
  refine ⟨?_,by rw [hlogger]; exact hs.sending,fun ht => by rw [hlog] at ht; cases ht⟩
  rw [howner,Function.update_self]
  exact hs.owner.leave (.inr ⟨rfl,hr⟩) hout fun y hy => usesQueue_task hlogger hy

end Receive

/-- Only the `done_fd`s change when a task marks itself done. -/
theorem signalDone_eq : s.signalDone h = {s with fds := (s.signalDone h).fds} := by
  unfold signalDone
  split <;> rfl

section Visit
variable [DecidableEq η]

/-- A round of the loop over the slots stays inside of the section. -/
theorem visitSlot_locks {f : ArrayFn} {i : ℕ} (hq : QueueLock s) (ha : ArrayLocks s)
    (hidle : (s.logger .main).calls = 0) (hs : s.main = .slot f a i)
    (hn : s.visitSlot setup a i h calls outcome f = some t) : QueueLock t ∧ ArrayLocks t := by
  cases f with
  | stopAll =>
    simp only [visitSlot] at hn
    cases hstop : setup.onStop h with
    | some g =>
      rw [hstop] at hn
      cases hn
      exact ⟨hq.logs hidle rfl rfl rfl nofun,ha.congr (fun _ => rfl) (by rw [hs]; rfl) fun _ => rfl⟩
    | none =>
      rw [hstop] at hn
      cases hn
      exact ⟨hq.logs hidle rfl rfl rfl nofun,ha.congr (fun _ => rfl) (by rw [hs]; rfl) fun _ => rfl⟩
  | pollAll =>
    simp only [visitSlot] at hn
    cases hn
    exact ⟨hq.congr rfl rfl rfl,ha.congr (fun _ => rfl) (by rw [hs]; rfl) fun _ => rfl⟩
  | joinAll =>
    simp only [visitSlot] at hn
    obtain ⟨r,-,rfl⟩ := Option.map_eq_some_iff.mp hn
    split_ifs
    · exact ⟨hq.congr rfl rfl rfl,ha.congr (fun _ => rfl) (by rw [hs]; rfl) fun _ => rfl⟩
    · exact ⟨hq.logs hidle rfl rfl rfl nofun,
        ha.congr (fun _ => rfl) (by rw [hs]; rfl) fun _ => rfl⟩
  | handlesDestroyAll =>
    simp only [visitSlot] at hn
    cases hn
    exact ⟨hq.logs hidle rfl rfl rfl nofun,ha.congr (fun _ => rfl) (by rw [hs]; rfl) fun _ => rfl⟩

end Visit

section Names
variable [DecidableEq α] {v : Option (ThreadName η)}

theorem acquire_eq (h : s.acquire m x = some t) :
    s.owner m = none ∧ t = {s with owner := Function.update s.owner m (some x)} := by
  unfold acquire at h
  split_ifs at h with hm
  cases h
  exact ⟨hm,rfl⟩

theorem owner_array (h : t.owner = Function.update s.owner .queue v) (a : α) :
    t.owner (.array a) = s.owner (.array a) := by
  rw [h,Function.update_of_ne (fun he => by cases he)]

theorem owner_queue (h : t.owner = Function.update s.owner (.array a) v) :
    t.owner .queue = s.owner .queue := by
  rw [h,Function.update_of_ne (fun he => by cases he)]

/-- A thread moves from one section to another, and only one lock changes its owner. -/
theorem ArrayLocks.move (hs : ArrayLocks s)
    (howner : t.owner = Function.update s.owner (.array a) v)
    (ha : OwnedBy v fun y => t.sectionOf y = some a)
    (hx : ∀ b, b ≠ a → (t.sectionOf x = some b ↔ s.sectionOf x = some b))
    (hother : ∀ y, y ≠ x → t.sectionOf y = s.sectionOf y) : ArrayLocks t := by
  intro b
  rw [howner]
  by_cases hb : b = a
  · subst hb
    rw [Function.update_self]
    exact ha
  · rw [Function.update_of_ne fun he => hb (LockName.array.inj he)]
    refine (hs b).congr fun y => ?_
    by_cases hy : y = x
    · subst hy
      exact hx b hb
    · rw [hother y hy]

/-- A thread enters the section of an array. -/
theorem ArrayLocks.enter (hs : ArrayLocks s) (hfree : s.owner (.array a) = none)
    (howner : t.owner = Function.update s.owner (.array a) (some x))
    (hbefore : s.sectionOf x = none) (hx : t.sectionOf x = some a)
    (hother : ∀ y, y ≠ x → t.sectionOf y = s.sectionOf y) : ArrayLocks t := by
  have hnone := hs a
  rw [hfree] at hnone
  apply hs.move howner (hnone.enter hx fun y hy => by rw [hother y hy]) _ hother
  intro b hb
  rw [hbefore,hx,Option.some.injEq]
  exact iff_of_false (fun he => hb he.symm) (by simp)

/-- A thread leaves the section of an array. -/
theorem ArrayLocks.leave (hs : ArrayLocks s)
    (howner : t.owner = Function.update s.owner (.array a) none)
    (hbefore : s.sectionOf x = some a) (hx : t.sectionOf x = none)
    (hother : ∀ y, y ≠ x → t.sectionOf y = s.sectionOf y) : ArrayLocks t := by
  have hleft : OwnedBy none fun y => t.sectionOf y = some a :=
    (hs a).leave hbefore (by rw [hx]; nofun) fun y hy => by rw [hother y hy]
  apply hs.move howner hleft _ hother
  intro b hb
  rw [hbefore,hx,Option.some.injEq]
  exact iff_of_false (by simp) fun he => hb he.symm

end Names

variable [DecidableEq α] [DecidableEq η]

/-- A step in a `LOG` call. -/
theorem stepLog_locks (hq : QueueLock s) (ha : ArrayLocks s) (hn : s.stepLog n x = some t) :
    QueueLock t ∧ ArrayLocks t := by
  unfold stepLog at hn
  by_cases hsend : (s.logger x).sending = true
  · rw [if_pos hsend] at hn
    cases hn
    exact ⟨hq.sent hsend rfl rfl rfl,ha.congr (owner_array rfl) rfl fun _ => rfl⟩
  · rw [if_neg hsend] at hn
    split_ifs at hn with hcalls
    obtain ⟨u,hu,rfl⟩ := Option.map_eq_some_iff.mp hn
    obtain ⟨hfree,rfl⟩ := acquire_eq hu
    exact ⟨hq.send hfree hcalls rfl rfl rfl,
      ha.congr (owner_array rfl) rfl fun _ => rfl⟩

/-- A statement of the log task. -/
theorem stepLogTask_locks (hq : QueueLock s) (ha : ArrayLocks s)
    (hidle : (s.logger .log).calls = 0) (hn : s.stepLogTask ready = some t) :
    QueueLock t ∧ ArrayLocks t := by
  cases hs : s.log with
  | loop =>
    simp only [stepLogTask,hs] at hn
    split_ifs at hn
    · cases hn
      exact ⟨hq.congr rfl rfl (by rw [hs]; rfl),ha.congr (fun _ => rfl) rfl fun _ => rfl⟩
    · cases hn
      exact ⟨hq.logs hidle rfl rfl (by rw [hs]; rfl) fun _ => rfl,
        ha.congr (fun _ => rfl) rfl fun _ => rfl⟩
  | poll =>
    simp only [stepLogTask,hs] at hn
    cases hn
    exact ⟨hq.congr rfl rfl (by rw [hs]; cases ready <;> rfl),
      ha.congr (fun _ => rfl) rfl fun _ => rfl⟩
  | receive drain =>
    simp only [stepLogTask,hs] at hn
    obtain ⟨u,hu,rfl⟩ := Option.map_eq_some_iff.mp hn
    obtain ⟨hfree,rfl⟩ := acquire_eq hu
    exact ⟨hq.receive hfree hidle rfl rfl rfl,
      ha.congr (owner_array rfl) rfl fun _ => rfl⟩
  | receiving drain =>
    have hr : s.log.receives = true := by rw [hs]; rfl
    simp only [stepLogTask,hs] at hn
    by_cases hempty : s.queued = 0
    · rw [if_pos hempty] at hn
      cases hn
      exact ⟨hq.received hr rfl rfl (by cases drain <;> rfl),
        ha.congr (owner_array rfl) rfl fun _ => rfl⟩
    · rw [if_neg hempty] at hn
      cases hn
      exact ⟨hq.received hr rfl rfl rfl,ha.congr (owner_array rfl) rfl fun _ => rfl⟩
  | drain =>
    simp only [stepLogTask,hs] at hn
    cases hn
    exact ⟨hq.congr rfl rfl (by rw [hs]; rfl),ha.congr (fun _ => rfl) rfl fun _ => rfl⟩
  | done =>
    simp only [stepLogTask,hs] at hn
    cases hn
    exact ⟨hq.congr rfl rfl (by rw [hs]; rfl),ha.congr (fun _ => rfl) rfl fun _ => rfl⟩
  | ended =>
    simp only [stepLogTask,hs] at hn
    cases hn

/-- A statement of `main`. -/
theorem stepMain_locks (hq : QueueLock s) (ha : ArrayLocks s)
    (hidle : (s.logger .main).calls = 0) (hremoving : s.main.removing = false)
    (hn : s.stepMain setup calls outcome = some t) : QueueLock t ∧ ArrayLocks t := by
  cases hs : s.main with
  | call =>
    simp only [stepMain,hs] at hn
    split at hn
    · cases hn
    · cases hn
      exact ⟨hq.congr rfl rfl rfl,ha.congr (fun _ => rfl) (by rw [hs]; rfl) fun _ => rfl⟩
    · cases hn
      exact ⟨hq.logs hidle rfl rfl rfl nofun,ha.congr (fun _ => rfl) (by rw [hs]; rfl) fun _ => rfl⟩
    · cases hn
      exact ⟨hq.congr rfl rfl rfl,ha.congr (fun _ => rfl) (by rw [hs]) fun _ => rfl⟩
  | lock f a =>
    simp only [stepMain,hs] at hn
    obtain ⟨u,hu,rfl⟩ := Option.map_eq_some_iff.mp hn
    obtain ⟨hfree,rfl⟩ := acquire_eq hu
    refine ⟨hq.congr (owner_queue rfl) rfl rfl,ha.enter (x := .main) hfree rfl ?_ rfl ?_⟩
    · change s.main.section = none
      rw [hs]
      rfl
    · intro y hy
      cases y with
      | main => exact absurd rfl hy
      | log | task => rfl
  | slot f a i =>
    simp only [stepMain,hs] at hn
    split at hn
    · cases hn
      exact ⟨hq.congr rfl rfl rfl,ha.congr (fun _ => rfl) (by rw [hs]; rfl) fun _ => rfl⟩
    · cases hn
      exact ⟨hq.congr rfl rfl rfl,ha.congr (fun _ => rfl) (by rw [hs]; rfl) fun _ => rfl⟩
    · exact visitSlot_locks hq ha hidle hs hn
  | join a i h =>
    simp only [stepMain,hs] at hn
    split_ifs at hn
    cases hn
    exact ⟨hq.logs hidle rfl rfl rfl nofun,ha.congr (fun _ => rfl) (by rw [hs]; rfl) fun _ => rfl⟩
  | clear a i h =>
    simp only [stepMain,hs] at hn
    cases hn
    exact ⟨hq.congr rfl rfl rfl,ha.congr (fun _ => rfl) (by rw [hs]; rfl) fun _ => rfl⟩
  | destroy a i h =>
    simp only [stepMain,hs] at hn
    split at hn <;> cases hn <;>
      exact ⟨hq.congr rfl rfl rfl,ha.congr (fun _ => rfl) (by rw [hs]; rfl) fun _ => rfl⟩
  | remove stage b a i h =>
    rw [hs] at hremoving
    cases hremoving
  | close a i h =>
    simp only [stepMain,hs] at hn
    cases hn
    exact ⟨hq.logs hidle rfl rfl rfl nofun,ha.congr (fun _ => rfl) (by rw [hs]; rfl) fun _ => rfl⟩
  | unlock f a =>
    have hsection : s.sectionOf .main = some a := by
      change s.main.section = some a
      rw [hs]
      rfl
    have hother : ∀ pc y, y ≠ .main → (s.goto pc).sectionOf y = s.sectionOf y := by
      intro pc y hy
      cases y with
      | main => exact absurd rfl hy
      | log | task => rfl
    simp only [stepMain,hs] at hn
    cases f with
    | pollAll =>
      cases hn
      exact ⟨hq.congr (owner_queue rfl) rfl rfl,
        ha.leave (x := .main) rfl hsection rfl (hother (.poll (s.registry.slots a)))⟩
    | stopAll | joinAll | handlesDestroyAll =>
      cases hn
      exact ⟨hq.logs hidle (owner_queue rfl) rfl rfl nofun,
        ha.leave (x := .main) rfl hsection rfl (hother .call)⟩
  | poll slots =>
    simp only [stepMain,hs] at hn
    obtain ⟨r,-,hr⟩ := Option.bind_eq_some_iff.mp hn
    split_ifs at hr
    cases hr
    exact ⟨hq.congr rfl rfl rfl,ha.congr (fun _ => rfl) (by rw [hs]; rfl) fun _ => rfl⟩

/-- A statement of a task. -/
theorem stepTask_locks (hq : QueueLock s) (ha : ArrayLocks s)
    (hidle : (s.logger (.task h)).calls = 0) (hn : s.stepTask setup h c = some t) :
    QueueLock t ∧ ArrayLocks t := by
  have hother : ∀ pc y, y ≠ .task h → (s.setTask h pc).sectionOf y = s.sectionOf y := by
    intro pc y hy
    cases y with
    | main | log => rfl
    | task x =>
      change (Function.update s.task h pc x).section = (s.task x).section
      rw [Function.update_of_ne fun he => hy (by rw [he])]
  have hsame : ∀ pc : WorkerPc α η, pc.section = (s.task h).section →
      ∀ x, ((s.setTask h pc).task x).section = (s.task x).section := by
    intro pc hpc x
    change (Function.update s.task h pc x).section = _
    by_cases hx : x = h
    · subst hx
      rw [Function.update_self,hpc]
    · rw [Function.update_of_ne hx]
  have hself : ∀ pc : WorkerPc α η, (s.setTask h pc).sectionOf (.task h) = pc.section := by
    intro pc
    change (Function.update s.task h pc h).section = _
    rw [Function.update_self]
  unfold stepTask at hn
  split at hn
  · cases hn
    exact ⟨hq.logs hidle rfl rfl rfl nofun,ha.congr (fun _ => rfl) rfl fun _ => rfl⟩
  · rename_i o hs
    cases hn
    exact ⟨hq.congr rfl rfl rfl,ha.congr (fun _ => rfl) rfl (hsame _ (by rw [hs]; rfl))⟩
  · rename_i hs
    cases hn
    exact ⟨hq.congr rfl rfl rfl,ha.congr (fun _ => rfl) rfl (hsame _ (by rw [hs]; rfl))⟩
  · rename_i o hs
    obtain ⟨u,hu,rfl⟩ := Option.map_eq_some_iff.mp hn
    obtain ⟨hfree,rfl⟩ := acquire_eq hu
    refine ⟨hq.congr (owner_queue rfl) rfl rfl,
      ha.enter (x := .task h) hfree rfl ?_ (hself (.op .run o)) (hother (.op .run o))⟩
    change (s.task h).section = none
    rw [hs]
    rfl
  · rename_i o hs
    split_ifs at hn
    cases hn
    exact ⟨hq.congr rfl rfl rfl,ha.congr (fun _ => rfl) rfl (hsame (.op .unlock o) (by rw [hs]; rfl))⟩
  · rename_i o hs
    cases hn
    refine ⟨hq.logs hidle (owner_queue rfl) rfl rfl nofun,
      ha.leave (x := .task h) rfl ?_ (hself .body) (hother .body)⟩
    change (s.task h).section = some o.array
    rw [hs]
    rfl
  · rename_i hs
    cases hn
    exact ⟨hq.congr rfl rfl rfl,ha.congr (fun _ => rfl) rfl (hsame .markWrite (by rw [hs]; rfl))⟩
  · rename_i hs
    cases hn
    rw [signalDone_eq]
    exact ⟨hq.logs hidle rfl rfl rfl nofun,
      ha.congr (fun _ => rfl) rfl (hsame .tail (by rw [hs]; rfl))⟩
  · cases hn
    exact ⟨hq.logs hidle rfl rfl rfl nofun,ha.congr (fun _ => rfl) rfl fun _ => rfl⟩
  · rename_i hs
    cases hn
    exact ⟨hq.congr rfl rfl rfl,ha.congr (fun _ => rfl) rfl (hsame .ended (by rw [hs]; rfl))⟩
  · cases hn

end Locking
end TTK4145.Rtsystem
