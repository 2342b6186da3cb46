import TTK4145.Rtsystem.Core.FifoQueueThreads

/-! Cancellation of threads that use the queue. The event statement lies inside the critical
section and is a cancellation point, so a request that is pending there orphans the lock. -/
namespace TTK4145.Rtsystem
open Lib

/-- The lock is never owned by a terminated thread, its owner is never blocked and unlocks after
at most six own statements unless it is cancelled, and what terminated threads leave behind has
its event counter equal to its count. -/
structure Sound {ι : Type*} [DecidableEq ι] (q : FifoQueue) (s : QueueThreads ι) : Prop where
  live : ∀ t, s.owner = some t → (s.thread t).pc ≠ .dead
  enabled : ∀ t, s.owner = some t → s.next (.step t) ≠ none
  unlocks : ∀ t, s.owner = some t → (s.thread t).cancelled = false → ∃ k ≤ 6, ∃ s',
    (QueueThreads.machine q).run s (List.replicate k (.step t)) = some s' ∧ s'.owner = none
  balanced : ∀ t, (s.thread t).pc = .dead → (∀ u, s.owner = some u → (s.thread u).pc = .dead) →
    s.queue.eventFd.counter = s.queue.count.toNat

/-- The statements that a thread in its critical section still has to execute. -/
def CallPc.rest : CallPc → ℕ
  | .lock => 7
  | .test => 6
  | .copy => 5
  | .index => 4
  | .count => 3
  | .event => 2
  | .unlock _ => 1

section Sound
variable {ι : Type*} [DecidableEq ι] {s s' : QueueThreads ι} {t : ι} {c : Call} {pc : CallPc}
  {q : FifoQueue}

theorem stepCall_enabled (s : QueueThreads ι) (t : ι) (c : Call) (hne : pc ≠ .lock) :
    ∃ s', s.stepCall t c pc = some s' := by
  cases pc with
  | lock => exact absurd rfl hne
  | event =>
    simp only [QueueThreads.stepCall]
    split_ifs <;> exact ⟨_,rfl⟩
  | test | copy | index | count | unlock => exact ⟨_,rfl⟩

/-- One statement of an owner without a pending request unlocks or comes closer to it. -/
theorem stepCall_progress (hne : pc ≠ .lock) (live : (s.thread t).cancelled = false) :
    ∃ s', s.stepCall t c pc = some s' ∧ (s'.owner = none ∨ s'.owner = s.owner ∧
      (s'.thread t).cancelled = false ∧
      ∃ pc', (s'.thread t).pc = .inside c pc' ∧ pc' ≠ .lock ∧ pc'.rest<pc.rest) := by
  cases pc with
  | lock => exact absurd rfl hne
  | event =>
    simp only [QueueThreads.stepCall,live,Bool.false_eq_true,if_false]
    exact ⟨_,rfl,.inr ⟨rfl,by simpa using live,.unlock 0,by simp,by simp,by decide⟩⟩
  | test =>
    refine ⟨_,rfl,.inr ⟨rfl,by simpa using live,_,
      congrArg Thread.pc QueueThreads.setPc_same,?_,?_⟩⟩
    · split_ifs <;> simp
    · split_ifs <;> simp [CallPc.rest]
  | copy => exact ⟨_,rfl,.inr ⟨rfl,by simpa using live,.index,by simp,by simp,by decide⟩⟩
  | index => exact ⟨_,rfl,.inr ⟨rfl,by simpa using live,.count,by simp,by simp,by decide⟩⟩
  | count => exact ⟨_,rfl,.inr ⟨rfl,by simpa using live,.event,by simp,by simp,by decide⟩⟩
  | unlock ret => exact ⟨_,rfl,.inl rfl⟩

theorem unlocks_within (q : FifoQueue) (n : ℕ) (hpc : (s.thread t).pc = .inside c pc)
    (hne : pc ≠ .lock) (live : (s.thread t).cancelled = false) (hn : pc.rest ≤ n) :
    ∃ k ≤ n, ∃ s', (QueueThreads.machine q).run s (List.replicate k (.step t)) = some s' ∧
      s'.owner = none := by
  induction n generalizing s pc with
  | zero => cases pc <;> simp [CallPc.rest] at hn
  | succ n ih =>
    obtain ⟨s₁,hs,hend⟩ := stepCall_progress (c := c) hne live
    have hstep : (QueueThreads.machine q).next s (.step t) = some s₁ := by
      simp only [QueueThreads.machine,QueueThreads.next,hpc]
      exact hs
    rcases hend with hnone | ⟨-,hlive,pc',hpc',hne',hlt⟩
    · refine ⟨1,by omega,s₁,?_,hnone⟩
      simp [Machine.run,hstep]
    · obtain ⟨k,hk,s',hrun,hfree⟩ := ih hpc' hne' hlive (by omega)
      refine ⟨k+1,by omega,s',?_,hfree⟩
      simpa [List.replicate_succ,Machine.run,hstep] using hrun

theorem LockInv.sound (h : LockInv s) (q : FifoQueue) : Sound q s := by
  refine ⟨fun t ho => ?_,fun t ho => ?_,fun t ho live => ?_,fun t _ hdead => ?_⟩
  · obtain ⟨c,pc,hpc,-⟩ := h.owner_inside ho
    rw [hpc]
    simp
  · obtain ⟨c,pc,hpc,hne⟩ := h.owner_inside ho
    obtain ⟨s',hs⟩ := stepCall_enabled s t c hne
    simp only [QueueThreads.next,hpc,hs]
    simp
  · obtain ⟨c,pc,hpc,hne⟩ := h.owner_inside ho
    exact unlocks_within q 6 hpc hne live (by cases pc <;> simp_all [CallPc.rest])
  · cases ho : s.owner with
    | none =>
      have hp := h.phase
      rw [ho] at hp
      exact hp.1
    | some u =>
      obtain ⟨c,pc,hpc,-⟩ := h.owner_inside ho
      rw [hdead u ho] at hpc
      cases hpc

theorem ThreadPc.inside_of_atEvent {p : ThreadPc} (h : p.atEvent = true) :
    ∃ c, p = .inside c .event := by
  cases p with
  | inside c pc => cases pc <;> first | exact ⟨c,rfl⟩ | cases h
  | idle | dead => cases h

/-- A cancelled event statement leaves the lock with the terminated thread. -/
theorem cancelled_event_orphans (h : Mutex s) {a : ThreadAction ι} (hc : ¬ NoCancelAtEvent s a)
    (hs : s.next a = some s') : ¬ Sound q s' := by
  simp only [NoCancelAtEvent,not_forall] at hc
  obtain ⟨t,rfl,hev,hcan⟩ := hc
  obtain ⟨c,hpc⟩ := ThreadPc.inside_of_atEvent hev
  rw [Bool.not_eq_false] at hcan
  have ho : s.owner = some t := h t (by rw [hpc]; simp [ThreadPc.Critical])
  simp only [QueueThreads.next,hpc,QueueThreads.stepCall,hcan,if_true] at hs
  cases hs
  intro sound
  exact sound.live t ho (by simp)

end Sound

section Runs
variable {ι : Type*} [DecidableEq ι] {malloc : Malloc} {eventfd : Bool}
  {itemSize capacity : UInt64} {q : FifoQueue} {tr : List (QueueThreads ι × ThreadAction ι)}
  {s : QueueThreads ι}

/-- A run in which no event statement is executed under a pending cancellation is sound in every
state (the capacity bound keeps the event counter below its limit), and only such runs are. -/
theorem sound_iff_noCancelAtEvent
    (hq : fifoQueueInit malloc eventfd itemSize capacity = some q)
    (run : Exec (QueueThreads.machine q) tr s) :
    (capacity.toNat<2^64-1 → Meets NoCancelAtEvent tr → Always (Sound q) tr s) ∧
    (Always (Sound q) tr s → Meets NoCancelAtEvent tr) := by
  constructor
  · intro hcap meets
    obtain ⟨hphase,rfl⟩ := phase_init hq
    have inv := run.always (I := LockInv) (fun s hs => LockInv.init hs hphase hcap)
      (fun s a t h hc hs => h.next hc hs) meets
    exact inv.mono fun s h => h.sound q
  · intro sound
    exact run.meets_of_always (I := Mutex) (fun s hs => Mutex.init hs)
      (fun s a t h _ hs => h.next hs) (fun s a t h hc hs => cancelled_event_orphans h hc hs) sound

end Runs

/-- The thread sends an item, is cancelled between two calls and ends in its next `poll`. -/
def pollDeathRun : List (ThreadAction (Fin 2)) :=
  List.flatten [.call 0 (.send [7])::List.replicate 7 (.step 0),[.cancel 0,.poll 0]]

theorem sound_iff_noCancelAtEvent_pollDeath :
    ∃ tr, ∃ s : QueueThreads (Fin 2), Exec (QueueThreads.machine twoSlotQueue) tr s ∧
      (s.thread 0).pc = .dead ∧ Always (Sound twoSlotQueue) tr s := by
  have hv : ((QueueThreads.machine twoSlotQueue).run (QueueThreads.idle twoSlotQueue)
      pollDeathRun).map (fun s => (s.thread 0).pc) = some .dead := by decide
  obtain ⟨s,hs,hpc⟩ := Option.map_eq_some_iff.mp hv
  have run := Exec.of_run (QueueThreads.idle_init _) hs
  exact ⟨_,s,run,hpc,(sound_iff_noCancelAtEvent twoSlotQueue_init run).1 (by decide) (by decide)⟩

/-- A sender is cancelled after its count update, just before the event statement. -/
def cancelRun : List (ThreadAction (Fin 2)) :=
  List.flatten [.call 0 (.send [7])::List.replicate 5 (.step 0),
    [.cancel 0,.step 0,.call 1 (.send [8])]]

/-- The terminated sender owns the lock, the counters differ, and another thread that logs is
blocked for good: no step of any thread is able to free the lock. -/
theorem cancelled_send_orphans_lock :
    ∃ tr, ∃ s : QueueThreads (Fin 2), Exec (QueueThreads.machine twoSlotQueue) tr s ∧
      s.owner = some 0 ∧
      (s.thread 0).pc = .dead ∧ s.queue.count = 1 ∧ s.queue.eventFd.counter = 0 ∧
      s.next (.step 1) = none ∧ ¬ Always (Sound twoSlotQueue) tr s := by
  have hv : ((QueueThreads.machine twoSlotQueue).run (QueueThreads.idle twoSlotQueue) cancelRun).map
      (fun s => (s.owner,(s.thread 0).pc,s.queue.count,s.queue.eventFd.counter,
        (s.next (.step 1)).isNone)) = some (some 0,.dead,1,0,true) := by decide
  obtain ⟨s,hs,hr⟩ := Option.map_eq_some_iff.mp hv
  simp only [Prod.mk.injEq] at hr
  obtain ⟨ho,hpc,hcount,hevent,hnone⟩ := hr
  refine ⟨_,s,Exec.of_run (QueueThreads.idle_init _) hs,ho,hpc,hcount,hevent,by simpa using hnone,?_⟩
  intro always
  exact always.2.live 0 ho hpc

end TTK4145.Rtsystem
