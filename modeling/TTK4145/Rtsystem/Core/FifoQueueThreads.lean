import Mathlib.Logic.Function.Basic
import TTK4145.Lib.Machine
import TTK4145.Rtsystem.Core.FifoQueue

/-! Threads inside `fifo_queue_send` and `fifo_queue_receive`, one statement at a time.
Cancellation is deferred: a request stays pending until the thread reaches `read`, `write` or
`poll`, and the thread then ends there with every mutex it owns still locked. -/
namespace TTK4145.Rtsystem
open Lib

inductive Call where
  | send (item : List UInt8)
  | receive
  deriving DecidableEq, Repr

/-- The statement of a call that is executed next. -/
inductive CallPc where
  | lock
  | test
  | copy
  | index
  | count
  | event
  | unlock (ret : ℤ)
  deriving DecidableEq, Repr

inductive ThreadPc where
  | idle
  | inside (call : Call) (pc : CallPc)
  | dead
  deriving DecidableEq, Repr

/-- `item` is the thread's own buffer for `receive`. `readable` remembers that a `poll` of the
event descriptor reported `POLLIN` and that no `receive` of the thread has returned since. -/
structure Thread where
  pc : ThreadPc
  cancelled : Bool
  readable : Bool
  item : List UInt8
  deriving DecidableEq, Repr

structure QueueThreads (ι : Type*) where
  queue : FifoQueue
  owner : Option ι
  thread : ι → Thread

inductive ThreadAction (ι : Type*) where
  | call (t : ι) (c : Call)
  | step (t : ι)
  | poll (t : ι)
  | exit (t : ι)
  | cancel (t : ι)
  deriving DecidableEq

namespace Call

/-- The capacity test at the top of the critical section. -/
def refused (q : FifoQueue) : Call → Bool
  | .send _ => decide (q.count ≥ q.capacity)
  | .receive => decide (q.count = 0)

def copy (q : FifoQueue) : Call → FifoQueue
  | .send item => q.copyIn item
  | .receive => q

def item (q : FifoQueue) (old : List UInt8) : Call → List UInt8
  | .send _ => old
  | .receive => q.copyOut

def index (q : FifoQueue) : Call → FifoQueue
  | .send _ => q.advanceHead
  | .receive => q.advanceTail

def count (q : FifoQueue) : Call → FifoQueue
  | .send _ => q.countUp
  | .receive => q.countDown

def event (q : FifoQueue) : Call → FifoQueue
  | .send _ => q.eventWrite
  | .receive => q.eventRead

end Call

namespace QueueThreads
variable {ι : Type*} [DecidableEq ι]

def set (s : QueueThreads ι) (t : ι) (th : Thread) : QueueThreads ι :=
  {s with thread := Function.update s.thread t th}

def setPc (s : QueueThreads ι) (t : ι) (pc : ThreadPc) : QueueThreads ι :=
  s.set t {s.thread t with pc := pc}

/-- One statement of a call. The lock blocks while it is owned; the event statement is a
cancellation point. -/
def stepCall (s : QueueThreads ι) (t : ι) (c : Call) : CallPc → Option (QueueThreads ι)
  | .lock => if s.owner = none then some {s.setPc t (.inside c .test) with owner := some t} else none
  | .test => some (s.setPc t (.inside c (if c.refused s.queue then .unlock (-1) else .copy)))
  | .copy => some {s.set t {s.thread t with
      pc := .inside c .index, item := c.item s.queue (s.thread t).item} with queue := c.copy s.queue}
  | .index => some {s.setPc t (.inside c .count) with queue := c.index s.queue}
  | .count => some {s.setPc t (.inside c .event) with queue := c.count s.queue}
  | .event =>
    if (s.thread t).cancelled then some (s.setPc t .dead)
    else some {s.setPc t (.inside c (.unlock 0)) with queue := c.event s.queue}
  | .unlock _ => some {s.set t {s.thread t with
      pc := .idle, readable := decide (c ≠ .receive) && (s.thread t).readable} with owner := none}

def next (s : QueueThreads ι) : ThreadAction ι → Option (QueueThreads ι)
  | .call t c => match (s.thread t).pc with
    | .idle => some (s.setPc t (.inside c .lock))
    | _ => none
  | .step t => match (s.thread t).pc with
    | .inside c pc => s.stepCall t c pc
    | _ => none
  | .poll t => match (s.thread t).pc with
    | .idle =>
      if (s.thread t).cancelled then some (s.setPc t .dead)
      else some (s.set t {s.thread t with
        readable := (s.thread t).readable || s.queue.eventFd.pollIn})
    | _ => none
  | .exit t => match (s.thread t).pc with
    | .idle => some (s.setPc t .dead)
    | _ => none
  | .cancel t => some (s.set t {s.thread t with cancelled := true})

/-- Any number of threads on a queue as `fifo_queue_init` left it. -/
def machine (q : FifoQueue) : Machine (QueueThreads ι) (ThreadAction ι) where
  init s := s.queue = q ∧ s.owner = none ∧
    ∀ t, (s.thread t).pc = .idle ∧ (s.thread t).cancelled = false ∧ (s.thread t).readable = false
  next := next

variable {s s' : QueueThreads ι} {t u : ι} {th : Thread} {pc : ThreadPc} {c : Call}

@[simp] theorem set_queue : (s.set t th).queue = s.queue := rfl
@[simp] theorem set_owner : (s.set t th).owner = s.owner := rfl
@[simp] theorem set_same : (s.set t th).thread t = th := by simp [set]
@[simp] theorem set_other (h : u ≠ t) : (s.set t th).thread u = s.thread u := by simp [set,h]
@[simp] theorem setPc_queue : (s.setPc t pc).queue = s.queue := rfl
@[simp] theorem setPc_owner : (s.setPc t pc).owner = s.owner := rfl
@[simp] theorem setPc_same : (s.setPc t pc).thread t = {s.thread t with pc := pc} := by
  simp [setPc]
@[simp] theorem setPc_other (h : u ≠ t) : (s.setPc t pc).thread u = s.thread u := by
  simp [setPc,h]

end QueueThreads

/-- The thread is between its `pthread_mutex_lock` and its `pthread_mutex_unlock`. -/
def ThreadPc.Critical : ThreadPc → Prop
  | .inside _ pc => pc ≠ .lock
  | _ => False

/-- The next statement is the `write` or `read` of the event descriptor. -/
def ThreadPc.atEvent : ThreadPc → Bool
  | .inside _ .event => true
  | _ => false

/-- How the count and the event counter stand to each other, by the statement that the owner of
the lock executes next. -/
def Phase (q : FifoQueue) : Option ThreadPc → Prop
  | none => q.eventFd.counter = q.count.toNat ∧ q.count.toNat ≤ q.capacity.toNat
  | some (.inside _ .test) | some (.inside _ (.unlock _)) =>
    q.eventFd.counter = q.count.toNat ∧ q.count.toNat ≤ q.capacity.toNat
  | some (.inside (.send _) .copy) | some (.inside (.send _) .index)
  | some (.inside (.send _) .count) =>
    q.eventFd.counter = q.count.toNat ∧ q.count.toNat<q.capacity.toNat
  | some (.inside .receive .copy) | some (.inside .receive .index)
  | some (.inside .receive .count) =>
    q.eventFd.counter = q.count.toNat ∧ q.count.toNat ≤ q.capacity.toNat ∧ 0<q.count.toNat
  | some (.inside (.send _) .event) =>
    q.eventFd.counter+1 = q.count.toNat ∧ q.count.toNat ≤ q.capacity.toNat
  | some (.inside .receive .event) =>
    q.eventFd.counter = q.count.toNat+1 ∧ q.eventFd.counter ≤ q.capacity.toNat
  | some _ => False

/-- A thread in its critical section owns the lock. -/
def Mutex {ι : Type*} (s : QueueThreads ι) : Prop :=
  ∀ t, (s.thread t).pc.Critical → s.owner = some t

/-- The lock is owned by the one thread in its critical section, and the two counters stand as
that thread's next statement says. `small` keeps the event counter below its limit. -/
structure LockInv {ι : Type*} (s : QueueThreads ι) : Prop where
  mutex : Mutex s
  phase : Phase s.queue (s.owner.map fun t => (s.thread t).pc)
  small : s.queue.capacity.toNat<2^64-1

/-- What the owner's phase is while it is inside a call. -/
theorem LockInv.phase_of {ι : Type*} {s : QueueThreads ι} {t : ι} {c : Call} {pc : CallPc}
    (h : LockInv s) (hpc : (s.thread t).pc = .inside c pc) (hne : pc ≠ .lock) :
    s.owner = some t ∧ Phase s.queue (some (.inside c pc)) := by
  have ho : s.owner = some t := h.mutex t (by rw [hpc]; exact hne)
  have hp := h.phase
  rw [ho,Option.map_some,hpc] at hp
  exact ⟨ho,hp⟩

/-- The owner stands inside a call, past its lock statement. -/
theorem LockInv.owner_inside {ι : Type*} {s : QueueThreads ι} {t : ι} (h : LockInv s)
    (ho : s.owner = some t) :
    ∃ c pc, (s.thread t).pc = .inside c pc ∧ pc ≠ .lock := by
  have hp := h.phase
  rw [ho,Option.map_some] at hp
  cases hpc : (s.thread t).pc with
  | idle => rw [hpc] at hp; exact hp.elim
  | dead => rw [hpc] at hp; exact hp.elim
  | inside c pc =>
    refine ⟨c,pc,rfl,?_⟩
    rintro rfl
    rw [hpc] at hp
    cases c <;> exact hp

section Invariant
variable {ι : Type*} [DecidableEq ι] {s s' : QueueThreads ι} {t u : ι} {c : Call} {pc : CallPc}

theorem Phase.copy {q : FifoQueue} (h : Phase q (some (.inside c .copy))) :
    Phase (c.copy q) (some (.inside c .index)) := by
  cases c <;> exact h

theorem Phase.index {q : FifoQueue} (h : Phase q (some (.inside c .index))) :
    Phase (c.index q) (some (.inside c .count)) := by
  cases c <;> exact h

theorem Phase.test {q : FifoQueue} (h : Phase q (some (.inside c .test))) :
    Phase q (some (.inside c (if c.refused q then .unlock (-1) else .copy))) := by
  obtain ⟨he,hle⟩ := h
  cases c with
  | send item =>
    by_cases hr : q.count ≥ q.capacity
    · simp only [Call.refused,hr,decide_true,if_true]
      exact ⟨he,hle⟩
    · simp only [Call.refused,hr,decide_false,Bool.false_eq_true,if_false]
      exact ⟨he,FifoQueue.count_lt_iff.mp hr⟩
  | receive =>
    by_cases hr : q.count = 0
    · simp only [Call.refused,hr,decide_true,if_true]
      exact ⟨he,hle⟩
    · simp only [Call.refused,hr,decide_false,Bool.false_eq_true,if_false]
      exact ⟨he,hle,FifoQueue.count_ne_zero_iff.mp hr⟩

theorem Phase.count {q : FifoQueue} (h : Phase q (some (.inside c .count))) :
    Phase (c.count q) (some (.inside c .event)) := by
  cases c with
  | send item =>
    obtain ⟨he,hlt⟩ := h
    have hn := FifoQueue.countUp_toNat hlt
    change q.eventFd.counter+1 = q.countUp.count.toNat ∧ q.countUp.count.toNat ≤ q.capacity.toNat
    omega
  | receive =>
    obtain ⟨he,hle,hpos⟩ := h
    have hn := FifoQueue.countDown_toNat hpos
    change q.eventFd.counter = q.countDown.count.toNat+1 ∧ q.eventFd.counter ≤ q.capacity.toNat
    omega

/-- The event statement succeeds and makes the counters equal again. -/
theorem Phase.event {q : FifoQueue} {ret : ℤ} (h : Phase q (some (.inside c .event)))
    (small : q.capacity.toNat<2^64-1) : Phase (c.event q) (some (.inside c (.unlock ret))) := by
  cases c with
  | send item =>
    obtain ⟨he,hle⟩ := h
    have hlt : q.eventFd.counter<eventFdMax := by
      unfold eventFdMax
      omega
    simp only [Call.event,FifoQueue.eventWrite,EventFd.write_eq hlt,Option.getD_some]
    exact ⟨he,hle⟩
  | receive =>
    obtain ⟨he,hle⟩ := h
    simp only [Call.event,FifoQueue.eventRead,EventFd.read_eq (show 0<q.eventFd.counter by omega),
      Option.getD_some]
    refine ⟨?_,?_⟩
    · change q.eventFd.counter-1 = q.count.toNat
      omega
    · change q.count.toNat ≤ q.capacity.toNat
      omega

theorem Mutex.set (h : Mutex s) (th : Thread) (own : th.pc.Critical → s.owner = some t)
    (q : FifoQueue) : Mutex {s.set t th with queue := q} := by
  intro u hu
  change ((s.set t th).thread u).pc.Critical at hu
  by_cases hut : u = t
  · subst u
    rw [QueueThreads.set_same] at hu
    exact own hu
  · rw [QueueThreads.set_other hut] at hu
    exact h u hu

theorem Mutex.acquire (h : Mutex s) (ho : s.owner = none) (th : Thread) :
    Mutex {s.set t th with owner := some t} := by
  intro u hu
  change ((s.set t th).thread u).pc.Critical at hu
  by_cases hut : u = t
  · rw [hut]
  · rw [QueueThreads.set_other hut] at hu
    have hown := h u hu
    rw [ho] at hown
    cases hown

theorem Mutex.release (h : Mutex s) (ho : s.owner = some t) {th : Thread}
    (out : ¬ th.pc.Critical) : Mutex {s.set t th with owner := none} := by
  intro u hu
  change ((s.set t th).thread u).pc.Critical at hu
  by_cases hut : u = t
  · subst u
    rw [QueueThreads.set_same] at hu
    exact absurd hu out
  · rw [QueueThreads.set_other hut] at hu
    have hown := h u hu
    rw [ho,Option.some.injEq] at hown
    exact absurd hown.symm hut

/-- A step of a thread outside every critical section, before and after. -/
theorem LockInv.outside (h : LockInv s) {th : Thread} (before : ¬ (s.thread t).pc.Critical)
    (after : ¬ th.pc.Critical) : LockInv (s.set t th) := by
  have hne : ∀ u, s.owner = some u → u ≠ t := by
    rintro u hu rfl
    apply before
    have hp := h.phase
    rw [hu,Option.map_some] at hp
    cases hpc : (s.thread u).pc with
    | inside c pc =>
      intro he
      rw [hpc,he] at hp
      cases c <;> exact hp
    | idle => rw [hpc] at hp; exact hp.elim
    | dead => rw [hpc] at hp; exact hp.elim
  refine ⟨h.mutex.set th (fun hc => absurd hc after) s.queue,?_,h.small⟩
  have hp := h.phase
  cases ho : s.owner with
  | none => simpa [ho] using hp
  | some u => simpa [ho,QueueThreads.set_other (hne u ho)] using hp

/-- A statement inside the critical section. -/
theorem LockInv.critical (h : LockInv s) (ho : s.owner = some t) {q : FifoQueue} {th : Thread}
    (after : Phase q (some th.pc)) (cap : q.capacity = s.queue.capacity) :
    LockInv {s.set t th with queue := q} := by
  refine ⟨h.mutex.set th (fun _ => ho) q,?_,?_⟩
  · change Phase q (s.owner.map fun u => ((s.set t th).thread u).pc)
    rw [ho,Option.map_some,QueueThreads.set_same]
    exact after
  · change q.capacity.toNat<2^64-1
    rw [cap]
    exact h.small

/-- A thread takes the free lock. -/
theorem LockInv.acquire (h : LockInv s) (ho : s.owner = none) {th : Thread}
    (after : Phase s.queue (some th.pc)) : LockInv {s.set t th with owner := some t} := by
  refine ⟨h.mutex.acquire ho th,?_,h.small⟩
  change Phase s.queue (some ((s.set t th).thread t).pc)
  rw [QueueThreads.set_same]
  exact after

/-- The owner gives the lock back. -/
theorem LockInv.release (h : LockInv s) (ho : s.owner = some t) {th : Thread}
    (after : Phase s.queue none) (out : ¬ th.pc.Critical) :
    LockInv {s.set t th with owner := none} := ⟨h.mutex.release ho out,after,h.small⟩

theorem Call.index_capacity (q : FifoQueue) (c : Call) : (c.index q).capacity = q.capacity := by
  cases c <;> rfl

theorem Call.count_capacity (q : FifoQueue) (c : Call) : (c.count q).capacity = q.capacity := by
  cases c <;> rfl

theorem Call.copy_capacity (q : FifoQueue) (c : Call) : (c.copy q).capacity = q.capacity := by
  cases c <;> rfl

theorem Call.event_capacity (q : FifoQueue) (c : Call) : (c.event q).capacity = q.capacity := by
  cases c <;> rfl

/-- One statement of a call keeps the invariant, unless the event statement is cancelled. -/
theorem LockInv.stepCall (h : LockInv s) (hpc : (s.thread t).pc = .inside c pc)
    (live : pc = .event → (s.thread t).cancelled = false)
    (hs : s.stepCall t c pc = some s') : LockInv s' := by
  cases pc with
  | lock =>
    simp only [QueueThreads.stepCall] at hs
    split_ifs at hs with ho
    cases hs
    have hp := h.phase
    rw [ho] at hp
    exact h.acquire ho hp
  | test =>
    obtain ⟨ho,hp⟩ := h.phase_of hpc (by simp)
    cases hs
    exact h.critical ho hp.test rfl
  | copy =>
    obtain ⟨ho,hp⟩ := h.phase_of hpc (by simp)
    cases hs
    exact h.critical ho hp.copy (Call.copy_capacity _ c)
  | index =>
    obtain ⟨ho,hp⟩ := h.phase_of hpc (by simp)
    cases hs
    exact h.critical ho hp.index (Call.index_capacity _ c)
  | count =>
    obtain ⟨ho,hp⟩ := h.phase_of hpc (by simp)
    cases hs
    exact h.critical ho hp.count (Call.count_capacity _ c)
  | event =>
    obtain ⟨ho,hp⟩ := h.phase_of hpc (by simp)
    simp only [QueueThreads.stepCall,live rfl,Bool.false_eq_true,if_false] at hs
    cases hs
    exact h.critical ho (hp.event h.small) (Call.event_capacity _ c)
  | unlock ret =>
    obtain ⟨ho,hp⟩ := h.phase_of hpc (by simp)
    cases hs
    exact h.release ho (by cases c <;> exact hp) (fun hc => hc)

end Invariant

section Steps
variable {ι : Type*} [DecidableEq ι] {s s' : QueueThreads ι}

/-- Everything a step can do: a statement of a call, or a change of one thread that stays outside
its critical section, or a request for cancellation. -/
theorem QueueThreads.next_cases {a : ThreadAction ι} (h : s.next a = some s') :
    (∃ t c pc, a = .step t ∧ (s.thread t).pc = .inside c pc ∧ s.stepCall t c pc = some s') ∨
    (∃ t th, (a = .poll t ∨ a = .exit t ∨ ∃ c, a = .call t c) ∧ (s.thread t).pc = .idle ∧
      ¬ th.pc.Critical ∧ s' = s.set t th) ∨
    (∃ t, a = .cancel t ∧ s' = s.set t {s.thread t with cancelled := true}) := by
  cases a with
  | call t c =>
    right
    left
    cases hpc : (s.thread t).pc <;> simp only [next,hpc] at h <;> cases h
    exact ⟨t,{s.thread t with pc := .inside c .lock},.inr (.inr ⟨c,rfl⟩),hpc,fun hc => hc rfl,rfl⟩
  | step t =>
    left
    cases hpc : (s.thread t).pc <;> simp only [next,hpc] at h
    · cases h
    · exact ⟨t,_,_,rfl,hpc,h⟩
    · cases h
  | poll t =>
    right
    left
    cases hpc : (s.thread t).pc <;> simp only [next,hpc] at h
    · split_ifs at h
      · cases h
        exact ⟨t,{s.thread t with pc := .dead},.inl rfl,hpc,fun hc => hc,rfl⟩
      · cases h
        exact ⟨t,{s.thread t with pc := .idle, readable := _},.inl rfl,hpc,fun hc => hc,rfl⟩
    · cases h
    · cases h
  | exit t =>
    right
    left
    cases hpc : (s.thread t).pc <;> simp only [next,hpc] at h <;> cases h
    exact ⟨t,{s.thread t with pc := .dead},.inr (.inl rfl),hpc,fun hc => hc,rfl⟩
  | cancel t =>
    right
    right
    cases h
    exact ⟨t,rfl,rfl⟩

/-- The event statement of the step is not executed under a pending cancellation. -/
def NoCancelAtEvent (s : QueueThreads ι) (a : ThreadAction ι) : Prop :=
  ∀ t, a = .step t → (s.thread t).pc.atEvent = true → (s.thread t).cancelled = false

instance {n : ℕ} (s : QueueThreads (Fin n)) (a : ThreadAction (Fin n)) :
    Decidable (NoCancelAtEvent s a) :=
  inferInstanceAs (Decidable (∀ t, a = .step t → (s.thread t).pc.atEvent = true →
    (s.thread t).cancelled = false))

theorem cancel_pc (s : QueueThreads ι) (t u : ι) :
    ((s.set t {s.thread t with cancelled := true}).thread u).pc = (s.thread u).pc := by
  by_cases hut : u = t
  · subst u
    rw [QueueThreads.set_same]
  · rw [QueueThreads.set_other hut]

theorem LockInv.cancel (h : LockInv s) (t : ι) :
    LockInv (s.set t {s.thread t with cancelled := true}) := by
  refine ⟨h.mutex.set {s.thread t with cancelled := true} (h.mutex t) s.queue,?_,h.small⟩
  have hp := h.phase
  simpa only [QueueThreads.set_queue,QueueThreads.set_owner,cancel_pc] using hp

/-- Mutual exclusion survives every step, cancellations included. -/
theorem Mutex.next (h : Mutex s) {a : ThreadAction ι} (hs : s.next a = some s') : Mutex s' := by
  rcases QueueThreads.next_cases hs with ⟨t,c,pc,-,hpc,hs⟩ | ⟨t,th,-,-,hout,rfl⟩ | ⟨t,-,rfl⟩
  · have ho : pc ≠ .lock → s.owner = some t := fun hne => h t (by rw [hpc]; exact hne)
    cases pc with
    | lock =>
      simp only [QueueThreads.stepCall] at hs
      split_ifs at hs with hfree
      cases hs
      exact h.acquire hfree _
    | test | copy | index | count =>
      cases hs
      exact h.set _ (fun _ => ho (by simp)) _
    | event =>
      simp only [QueueThreads.stepCall] at hs
      split_ifs at hs <;> cases hs
      · exact h.set {s.thread t with pc := .dead} (fun hc => hc.elim) s.queue
      · exact h.set _ (fun _ => ho (by simp)) _
    | unlock ret =>
      cases hs
      exact h.release (ho (by simp)) (fun hc => hc)
  · exact h.set th (fun hc => absurd hc hout) s.queue
  · exact h.set {s.thread t with cancelled := true} (h t) s.queue

theorem LockInv.next (h : LockInv s) {a : ThreadAction ι} (live : NoCancelAtEvent s a)
    (hs : s.next a = some s') : LockInv s' := by
  rcases QueueThreads.next_cases hs with ⟨t,c,pc,ha,hpc,hs⟩ | ⟨t,th,-,hpc,hout,rfl⟩ | ⟨t,-,rfl⟩
  · exact h.stepCall hpc (fun he => live t ha (by rw [hpc,he]; rfl)) hs
  · exact h.outside (by rw [hpc]; exact fun hc => hc) hout
  · exact h.cancel t

theorem Mutex.init {q : FifoQueue} (hi : (QueueThreads.machine q).init s) : Mutex s := by
  intro t hc
  rw [(hi.2.2 t).1] at hc
  exact hc.elim

theorem LockInv.init {q : FifoQueue} (hi : (QueueThreads.machine q).init s)
    (hq : Phase q none) (small : q.capacity.toNat<2^64-1) : LockInv s := by
  have hm := Mutex.init hi
  obtain ⟨rfl,ho,-⟩ := hi
  exact ⟨hm,by rw [ho]; exact hq,small⟩

/-- All threads idle on a queue. -/
def QueueThreads.idle (q : FifoQueue) : QueueThreads ι := ⟨q,none,fun _ => ⟨.idle,false,false,[]⟩⟩

theorem QueueThreads.idle_init (q : FifoQueue) :
    (QueueThreads.machine q).init (QueueThreads.idle q : QueueThreads ι) :=
  ⟨rfl,rfl,fun _ => ⟨rfl,rfl,rfl⟩⟩

theorem phase_init {malloc : Malloc} {eventfd : Bool} {itemSize capacity : UInt64} {q : FifoQueue}
    (hq : fifoQueueInit malloc eventfd itemSize capacity = some q) :
    Phase q none ∧ q.capacity = capacity := by
  unfold fifoQueueInit at hq
  split at hq
  · cases hq
  · split_ifs at hq
    cases hq
    exact ⟨⟨rfl,Nat.zero_le _⟩,rfl⟩

end Steps

/-- Two slots of one byte, as `fifo_queue_init` leaves them. -/
def twoSlotQueue : FifoQueue := ⟨[0,0],1,2,0,0,0,⟨0⟩⟩

theorem twoSlotQueue_init : fifoQueueInit clearedMalloc true 1 2 = some twoSlotQueue := rfl

end TTK4145.Rtsystem
