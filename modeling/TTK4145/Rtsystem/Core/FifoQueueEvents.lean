import TTK4145.Rtsystem.Core.FifoQueueThreads

/-! The event descriptor of the queue agrees with its contents, and a single consumer that polls
it is neither woken in vain nor left asleep. -/
namespace TTK4145.Rtsystem
open Lib

/-- What a `POLLIN` promises the consumer, by where it stands now. -/
def Promise (q : FifoQueue) : ThreadPc → Prop
  | .inside .receive .event => True
  | .inside .receive (.unlock ret) => ret = 0
  | _ => 0<q.count.toNat

/-- Only `c` is ever inside a `receive`, and it is promised an item once it saw `POLLIN`. -/
structure ConsumerInv {ι : Type*} (c : ι) (s : QueueThreads ι) : Prop extends LockInv s where
  only : ∀ t pc, (s.thread t).pc = .inside .receive pc → t = c
  promise : (s.thread c).readable = true → Promise s.queue (s.thread c).pc

section States
variable {ι : Type*} {s : QueueThreads ι} {c : ι}

/-- While nobody is inside `receive`'s event statement the event counter is not ahead. -/
theorem LockInv.counter_le (h : LockInv s)
    (hno : ∀ t, (s.thread t).pc ≠ .inside .receive .event) :
    s.queue.eventFd.counter ≤ s.queue.count.toNat := by
  have hp := h.phase
  cases ho : s.owner with
  | none =>
    rw [ho] at hp
    exact hp.1.le
  | some t =>
    obtain ⟨call,pc,hpc,-⟩ := h.owner_inside ho
    have ht := hno t
    rw [hpc] at ht
    rw [ho,Option.map_some,hpc] at hp
    cases call <;> cases pc <;> simp only [Phase] at hp <;>
      first | contradiction | omega

theorem ConsumerInv.promise_idle (h : ConsumerInv c s) (hpc : (s.thread c).pc = .idle)
    (hr : (s.thread c).readable = true) : 0<s.queue.count.toNat := by
  have hp := h.promise hr
  rw [hpc] at hp
  exact hp

end States

section Steps
variable {ι : Type*} [DecidableEq ι] {s s' : QueueThreads ι} {t u c : ι} {call : Call}
  {pc : CallPc}

theorem stepCall_other (hut : u ≠ t) (hs : s.stepCall t call pc = some s') :
    s'.thread u = s.thread u := by
  cases pc with
  | lock | event =>
    simp only [QueueThreads.stepCall] at hs
    split_ifs at hs <;> cases hs <;> exact QueueThreads.set_other hut
  | test | copy | index | count | unlock =>
    cases hs
    exact QueueThreads.set_other hut

/-- A statement leaves its thread inside the same call, or outside every call. -/
theorem stepCall_same (hs : s.stepCall t call pc = some s') :
    (∃ pc', (s'.thread t).pc = .inside call pc') ∨ (s'.thread t).pc = .idle ∨
      (s'.thread t).pc = .dead := by
  cases pc with
  | lock =>
    simp only [QueueThreads.stepCall] at hs
    split_ifs at hs
    cases hs
    exact .inl ⟨_,congrArg Thread.pc QueueThreads.setPc_same⟩
  | event =>
    simp only [QueueThreads.stepCall] at hs
    split_ifs at hs <;> cases hs
    · exact .inr (.inr (by simp))
    · exact .inl ⟨_,congrArg Thread.pc QueueThreads.setPc_same⟩
  | test | index | count =>
    cases hs
    exact .inl ⟨_,congrArg Thread.pc QueueThreads.setPc_same⟩
  | copy =>
    cases hs
    exact .inl ⟨_,congrArg Thread.pc QueueThreads.set_same⟩
  | unlock =>
    cases hs
    exact .inr (.inl (by simp))

/-- A thread inside `send` never lowers the count. -/
theorem LockInv.send_count_le (h : LockInv s) {item : List UInt8}
    (hpc : (s.thread t).pc = .inside (.send item) pc)
    (hs : s.stepCall t (.send item) pc = some s') :
    s.queue.count.toNat ≤ s'.queue.count.toNat := by
  cases pc with
  | lock | event =>
    simp only [QueueThreads.stepCall] at hs
    split_ifs at hs <;> cases hs <;> exact le_rfl
  | count =>
    obtain ⟨-,hp⟩ := h.phase_of hpc (by simp)
    have hn := FifoQueue.countUp_toNat hp.2
    cases hs
    exact (Nat.le_succ _).trans hn.ge
  | test | copy | index | unlock =>
    cases hs
    exact le_rfl

theorem Promise.mono {q q' : FifoQueue} {p : ThreadPc} (h : Promise q p)
    (hle : q.count.toNat ≤ q'.count.toNat) : Promise q' p := by
  cases p with
  | inside call pc =>
    cases call <;> cases pc <;> first | exact h | exact Nat.lt_of_lt_of_le h hle
  | idle => exact Nat.lt_of_lt_of_le h hle
  | dead => exact Nat.lt_of_lt_of_le h hle

/-- The consumer's own statements keep the promise; a promised `receive` passes its test. -/
theorem ConsumerInv.receive_step (h : ConsumerInv c s)
    (hpc : (s.thread c).pc = .inside .receive pc)
    (live : pc = .event → (s.thread c).cancelled = false)
    (hs : s.stepCall c .receive pc = some s') (hr : (s'.thread c).readable = true) :
    Promise s'.queue (s'.thread c).pc := by
  have hp := h.promise
  rw [hpc] at hp
  cases pc with
  | lock =>
    simp only [QueueThreads.stepCall] at hs
    split_ifs at hs
    cases hs
    simpa [Promise] using hp (by simpa using hr)
  | test =>
    cases hs
    have hpos : 0<s.queue.count.toNat := hp (by simpa using hr)
    have hne := FifoQueue.count_ne_zero_iff.mpr hpos
    simpa [Call.refused,hne,Promise] using hpos
  | copy | index =>
    cases hs
    simpa [Promise,Call.copy,Call.index,FifoQueue.advanceTail] using hp (by simpa using hr)
  | count =>
    cases hs
    simp [Promise]
  | event =>
    simp only [QueueThreads.stepCall,live rfl,Bool.false_eq_true,if_false] at hs
    cases hs
    simp [Promise]
  | unlock ret =>
    cases hs
    simp at hr

theorem ConsumerInv.send_step (h : ConsumerInv c s) {item : List UInt8}
    (hpc : (s.thread c).pc = .inside (.send item) pc)
    (hs : s.stepCall c (.send item) pc = some s') (hr : (s'.thread c).readable = true) :
    Promise s'.queue (s'.thread c).pc := by
  have hold : (s.thread c).readable = true := by
    cases pc with
    | lock | event =>
      simp only [QueueThreads.stepCall] at hs
      split_ifs at hs <;> cases hs <;> simpa using hr
    | test | copy | index | count | unlock =>
      cases hs
      simpa using hr
  have hpos : 0<s.queue.count.toNat := by
    have hp := h.promise hold
    rw [hpc] at hp
    cases pc <;> exact hp
  have hle := hpos.trans_le (h.toLockInv.send_count_le hpc hs)
  rcases stepCall_same hs with ⟨pc',hpc'⟩ | hpc' | hpc' <;> rw [hpc']
  · cases pc' <;> exact hle
  · exact hle
  · exact hle

theorem ConsumerInv.stepCall (h : ConsumerInv c s) (hpc : (s.thread t).pc = .inside call pc)
    (live : pc = .event → (s.thread t).cancelled = false)
    (hs : s.stepCall t call pc = some s') : ConsumerInv c s' := by
  refine ⟨h.toLockInv.stepCall hpc live hs,fun u p hu => ?_,fun hr => ?_⟩
  · by_cases hut : u = t
    · subst u
      rcases stepCall_same hs with ⟨pc',hpc'⟩ | hpc' | hpc' <;> rw [hpc'] at hu
      · cases hu
        exact h.only t _ hpc
      · cases hu
      · cases hu
    · rw [stepCall_other hut hs] at hu
      exact h.only u p hu
  · by_cases hct : c = t
    · subst t
      cases call with
      | send item => exact h.send_step hpc hs hr
      | receive => exact h.receive_step hpc live hs hr
    · rw [stepCall_other hct hs] at hr ⊢
      cases call with
      | send item => exact (h.promise hr).mono (h.toLockInv.send_count_le hpc hs)
      | receive => exact absurd (h.only t _ hpc).symm hct

/-- Only the consumer calls `receive`. -/
def OnlyConsumer (c : ι) (_ : QueueThreads ι) (a : ThreadAction ι) : Prop :=
  ∀ t, a = .call t .receive → t = c

theorem ConsumerInv.set_idle (h : ConsumerInv c s) {th : Thread}
    (hpc : (s.thread t).pc = .idle) (out : ¬ th.pc.Critical)
    (only : ∀ pc, th.pc = .inside .receive pc → t = c)
    (promise : t = c → th.readable = true → Promise s.queue th.pc) :
    ConsumerInv c (s.set t th) := by
  refine ⟨h.toLockInv.outside (by rw [hpc]; exact fun hc => hc) out,fun u pc hu => ?_,fun hr => ?_⟩
  · by_cases hut : u = t
    · subst u
      rw [QueueThreads.set_same] at hu
      exact only pc hu
    · rw [QueueThreads.set_other hut] at hu
      exact h.only u pc hu
  · by_cases hct : c = t
    · subst c
      rw [QueueThreads.set_same] at hr ⊢
      exact promise rfl hr
    · rw [QueueThreads.set_other hct] at hr ⊢
      exact h.promise hr

theorem ConsumerInv.next (h : ConsumerInv c s) {a : ThreadAction ι} (live : NoCancelAtEvent s a)
    (only : OnlyConsumer c s a) (hs : s.next a = some s') : ConsumerInv c s' := by
  cases a with
  | call t call =>
    cases hpc : (s.thread t).pc <;> simp only [QueueThreads.next,hpc] at hs <;> cases hs
    refine h.set_idle hpc (fun hc => hc rfl) (fun pc he => ?_) (fun htc hr => ?_)
    · cases he
      exact only t rfl
    · subst t
      have hpos := h.promise_idle hpc hr
      cases call <;> exact hpos
  | step t =>
    cases hpc : (s.thread t).pc <;> simp only [QueueThreads.next,hpc] at hs
    · cases hs
    · exact h.stepCall hpc (fun he => live t rfl (by rw [hpc,he]; rfl)) hs
    · cases hs
  | poll t =>
    cases hpc : (s.thread t).pc <;> simp only [QueueThreads.next,hpc] at hs
    · split_ifs at hs <;> cases hs
      · refine h.set_idle hpc (fun hc => hc) (fun pc he => by cases he) (fun htc hr => ?_)
        subst t
        exact h.promise_idle hpc hr
      · refine h.set_idle hpc (fun hc => hc) (fun pc he => by cases he) (fun htc hr => ?_)
        subst t
        rcases Bool.or_eq_true_iff.mp hr with hr | hr
        · exact h.promise_idle hpc hr
        · have hle := h.toLockInv.counter_le (fun u hu => by
            rw [h.only u _ hu,hpc] at hu
            cases hu)
          exact (EventFd.pollIn_iff.mp hr).trans_le hle
    · cases hs
    · cases hs
  | exit t =>
    cases hpc : (s.thread t).pc <;> simp only [QueueThreads.next,hpc] at hs <;> cases hs
    refine h.set_idle hpc (fun hc => hc) (fun pc he => by cases he) (fun htc hr => ?_)
    subst t
    exact h.promise_idle hpc hr
  | cancel t =>
    cases hs
    refine ⟨h.toLockInv.cancel t,fun u pc hu => ?_,fun hr => ?_⟩
    · by_cases hut : u = t
      · subst u
        rw [QueueThreads.set_same] at hu
        exact h.only t pc hu
      · rw [QueueThreads.set_other hut] at hu
        exact h.only u pc hu
    · by_cases hct : c = t
      · subst c
        rw [QueueThreads.set_same] at hr ⊢
        exact h.promise hr
      · rw [QueueThreads.set_other hct] at hr ⊢
        exact h.promise hr

end Steps

/-- No cancellation is requested. -/
def NoCancel {ι : Type*} (_ : QueueThreads ι) (a : ThreadAction ι) : Prop := ∀ t, a ≠ .cancel t

section Runs
variable {ι : Type*} [DecidableEq ι] {malloc : Malloc} {eventfd : Bool}
  {itemSize capacity : UInt64} {q : FifoQueue} {tr : List (QueueThreads ι × ThreadAction ι)}
  {s : QueueThreads ι}

theorem next_cancelled {s' : QueueThreads ι} {a : ThreadAction ι} (h : NoCancel s a)
    (hs : s.next a = some s') (hl : ∀ t, (s.thread t).cancelled = false) :
    ∀ t, (s'.thread t).cancelled = false := by
  intro u
  cases a with
  | cancel t => exact absurd rfl (h t)
  | step t =>
    cases hpc : (s.thread t).pc <;> simp only [QueueThreads.next,hpc] at hs
    · cases hs
    · rename_i call pc
      by_cases hut : u = t
      · subst u
        have ht := hl t
        cases pc with
        | lock | event =>
          simp only [QueueThreads.stepCall] at hs
          split_ifs at hs <;> cases hs <;> simpa using ht
        | test | copy | index | count | unlock =>
          cases hs
          simpa using ht
      · rw [stepCall_other hut hs]
        exact hl u
    · cases hs
  | call t _ | exit t | poll t =>
    have hset : ∀ th : Thread, th.cancelled = false →
        ((s.set t th).thread u).cancelled = false := by
      intro th hth
      by_cases hut : u = t
      · subst u
        rwa [QueueThreads.set_same]
      · rw [QueueThreads.set_other hut]
        exact hl u
    cases hpc : (s.thread t).pc <;> simp only [QueueThreads.next,hpc] at hs <;>
      (try split_ifs at hs) <;> cases hs <;> exact hset _ (hl t)

/-- Without cancellation the invariants hold throughout. -/
theorem lockInv_of_noCancel (hq : fifoQueueInit malloc eventfd itemSize capacity = some q)
    (hcap : capacity.toNat<2^64-1) (run : Exec (QueueThreads.machine q) tr s)
    (hn : Meets NoCancel tr) : LockInv s := by
  obtain ⟨hphase,rfl⟩ := phase_init hq
  refine (run.invariant (I := fun s => LockInv s ∧ ∀ t, (s.thread t).cancelled = false)
    (fun s hs => ⟨LockInv.init hs hphase hcap,fun t => (hs.2.2 t).2.1⟩) (fun s a t hi hc hs => ?_)
    hn).1
  exact ⟨hi.1.next (fun u _ _ => hi.2 u) hs,next_cancelled hc hs hi.2⟩

theorem consumerInv_of_noCancel {c : ι}
    (hq : fifoQueueInit malloc eventfd itemSize capacity = some q)
    (hcap : capacity.toNat<2^64-1) (run : Exec (QueueThreads.machine q) tr s)
    (hn : Meets NoCancel tr) (ho : Meets (OnlyConsumer c) tr) : ConsumerInv c s := by
  obtain ⟨hphase,rfl⟩ := phase_init hq
  refine (run.invariant (I := fun s => ConsumerInv c s ∧ ∀ t, (s.thread t).cancelled = false)
    (C := fun s a => NoCancel s a ∧ OnlyConsumer c s a) (fun s hs => ?_)
    (fun s a t hi hc hs => ?_) (fun p hp => ⟨hn p hp,ho p hp⟩)).1
  · have hidle := hs.2.2
    refine ⟨⟨LockInv.init hs hphase hcap,fun t pc ht => ?_,fun hr => ?_⟩,fun t => (hidle t).2.1⟩
    · rw [(hidle t).1] at ht
      cases ht
    · rw [(hidle c).2.2] at hr
      cases hr
  · exact ⟨hi.1.next (fun u _ _ => hi.2 u) hc.2 hs,next_cancelled hc.1 hs hi.2⟩

/-- Between critical sections the event counter is the count, so `poll` reports `POLLIN` exactly
when an item is held; the event statements never fail; and a single consumer that saw `POLLIN`
receives an item in its next `fifo_queue_receive`. -/
theorem eventFd_agrees (hq : fifoQueueInit malloc eventfd itemSize capacity = some q)
    (hcap : capacity.toNat<2^64-1) (run : Exec (QueueThreads.machine q) tr s)
    (hn : Meets NoCancel tr) :
    ((∀ t, ¬ (s.thread t).pc.Critical) → s.queue.eventFd.counter = s.queue.count.toNat ∧
      (s.queue.eventFd.pollIn = true ↔ 0<s.queue.count.toNat)) ∧
    (∀ t item, (s.thread t).pc = .inside (.send item) .event → s.queue.eventFd.write ≠ none) ∧
    (∀ t, (s.thread t).pc = .inside .receive .event → s.queue.eventFd.read ≠ none) ∧
    ∀ c, Meets (OnlyConsumer c) tr → (s.thread c).readable = true →
      ∀ ret, (s.thread c).pc = .inside .receive (.unlock ret) → ret = 0 := by
  have h := lockInv_of_noCancel hq hcap run hn
  refine ⟨fun hout => ?_,fun t item hpc => ?_,fun t hpc => ?_,fun c ho hr ret hpc => ?_⟩
  · have hp := h.phase
    cases hown : s.owner with
    | none =>
      rw [hown] at hp
      exact ⟨hp.1,by rw [EventFd.pollIn_iff,hp.1]⟩
    | some t =>
      obtain ⟨call,pc,hpc,hne⟩ := h.owner_inside hown
      have ht := hout t
      rw [hpc] at ht
      exact absurd hne ht
  · obtain ⟨-,he,hle⟩ := h.phase_of hpc (by simp)
    have hsmall := h.small
    rw [EventFd.write_eq (by unfold eventFdMax; omega)]
    simp
  · obtain ⟨-,he,hle⟩ := h.phase_of hpc (by simp)
    rw [EventFd.read_eq (by omega)]
    simp
  · have hp := (consumerInv_of_noCancel hq hcap run hn ho).promise hr
    rw [hpc] at hp
    exact hp

end Runs

/-- One item is sent, the consumer polls and receives it up to its unlock. -/
def pollRun : List (ThreadAction (Fin 2)) :=
  List.flatten [.call 0 (.send [7])::List.replicate 7 (.step 0),
    .poll 1::.call 1 .receive::List.replicate 6 (.step 1)]

theorem eventFd_agrees_pollRun :
    ∃ s, (QueueThreads.machine twoSlotQueue).run (QueueThreads.idle twoSlotQueue) pollRun = some s ∧
      (s.thread 1).readable = true ∧
      ∀ ret, (s.thread 1).pc = .inside .receive (.unlock ret) → ret = 0 := by
  have hv : ((QueueThreads.machine twoSlotQueue).run (QueueThreads.idle twoSlotQueue) pollRun).map
      (fun s => (s.thread 1).readable) = some true := by decide
  obtain ⟨s,hs,hr⟩ := Option.map_eq_some_iff.mp hv
  have run := Exec.of_run (QueueThreads.idle_init _) hs
  have hn : ∀ a ∈ pollRun, ∀ t, a ≠ .cancel t := by decide
  have ho : ∀ a ∈ pollRun, ∀ t, a = .call t .receive → t = 1 := by decide
  exact ⟨s,hs,hr,(eventFd_agrees twoSlotQueue_init (by decide) run (meets_trace hn)).2.2.2 1
    (meets_trace ho) hr⟩

end TTK4145.Rtsystem
