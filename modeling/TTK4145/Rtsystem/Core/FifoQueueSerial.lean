import TTK4145.Rtsystem.Core.FifoQueueRefinement
import TTK4145.Rtsystem.Core.FifoQueueThreads

/-! The interleaved calls take effect as if each were executed in one go, in the order in which
they give the lock back. -/
namespace TTK4145.Rtsystem
open Lib

/-- A whole call: the queue, the caller's buffer and the return value. -/
def Call.whole (q : FifoQueue) (old : List UInt8) : Call → FifoQueue × List UInt8 × ℤ
  | .send item => ((fifoQueueSend q item).1,old,(fifoQueueSend q item).2)
  | .receive => fifoQueueReceive q old

/-- The queue after a list of whole calls. -/
def serialQueue (q : FifoQueue) (calls : List Call) : FifoQueue :=
  calls.foldl (fun q c => (c.whole q []).1) q

/-- The call that ends with a statement. -/
def CallPc.ends (c : Call) : CallPc → Option Call
  | .unlock _ => some c
  | _ => none

def unlocked {ι : Type*} (p : QueueThreads ι × ThreadAction ι) : Option Call :=
  match p.2 with
  | .step t => match (p.1.thread t).pc with
    | .inside c pc => pc.ends c
    | _ => none
  | _ => none

/-- The calls that have ended in a trace, in this order. -/
def completed {ι : Type*} (tr : List (QueueThreads ι × ThreadAction ι)) : List Call :=
  tr.filterMap unlocked

/-- What a call that found the queue as `q₀` has done up to a statement. -/
def Call.Partial (q₀ : FifoQueue) (c : Call) (q : FifoQueue) (item : List UInt8) : CallPc → Prop
  | .lock => False
  | .test => q = q₀
  | .copy => c.refused q₀ = false ∧ q = q₀
  | .index => c.refused q₀ = false ∧ q = c.copy q₀ ∧ ∃ old, item = c.item q₀ old
  | .count => c.refused q₀ = false ∧ q = c.index (c.copy q₀) ∧ ∃ old, item = c.item q₀ old
  | .event => c.refused q₀ = false ∧ q = c.count (c.index (c.copy q₀)) ∧
      ∃ old, item = c.item q₀ old
  | .unlock ret => ∃ old, c.whole q₀ old = (q,item,ret)

theorem Call.whole_refused {q : FifoQueue} {c : Call} (h : c.refused q = true)
    (old : List UInt8) : c.whole q old = (q,old,-1) := by
  cases c with
  | send item =>
    have hfull : q.count ≥ q.capacity := of_decide_eq_true h
    simp only [whole,fifoQueueSend,hfull,if_true]
  | receive =>
    have hempty : q.count = 0 := of_decide_eq_true h
    simp only [whole,fifoQueueReceive,hempty,if_true]

/-- A call that is not refused is the composition of its statements. -/
theorem Call.whole_accepted {q : FifoQueue} {c : Call} (h : c.refused q = false)
    (old : List UInt8) :
    c.whole q old = (c.event (c.count (c.index (c.copy q))),c.item q old,0) := by
  cases c with
  | send item =>
    have hroom : ¬ q.count ≥ q.capacity := of_decide_eq_false h
    simp only [whole,fifoQueueSend,hroom,if_false,event,count,index,copy,Call.item]
  | receive =>
    have hne : ¬ q.count = 0 := of_decide_eq_false h
    simp only [whole,fifoQueueReceive,hne,if_false,event,count,index,copy,Call.item]

theorem Call.whole_queue (q : FifoQueue) (c : Call) (old old' : List UInt8) :
    (c.whole q old).1 = (c.whole q old').1 := by
  cases hr : c.refused q with
  | true => rw [c.whole_refused hr,c.whole_refused hr]
  | false => rw [c.whole_accepted hr,c.whole_accepted hr]

theorem serialQueue_append (q : FifoQueue) (calls calls' : List Call) :
    serialQueue q (calls ++ calls') = serialQueue (serialQueue q calls) calls' :=
  List.foldl_append

/-- The free queue is the serial one, and the owner of the lock has done a part of its call. -/
structure Serial {ι : Type*} (q₀ : FifoQueue) (s : QueueThreads ι) : Prop where
  mutex : Mutex s
  free : s.owner = none → s.queue = q₀
  busy : ∀ t c pc, s.owner = some t → (s.thread t).pc = .inside c pc → pc ≠ .lock →
    c.Partial q₀ s.queue (s.thread t).item pc

section Serial
variable {ι : Type*} [DecidableEq ι] {s s' : QueueThreads ι} {q q₀ : FifoQueue} {t : ι} {c : Call}
  {pc : CallPc} {tr : List (QueueThreads ι × ThreadAction ι)} {a : ThreadAction ι}

/-- A statement of the owner inside its critical section. -/
theorem Serial.critical (h : Serial q₀ s) (ho : s.owner = some t) {th : Thread} {d : Call}
    {pd : CallPc} (hth : th.pc = .inside d pd) (part : d.Partial q₀ q th.item pd) :
    Serial q₀ {s.set t th with queue := q} := by
  refine ⟨h.mutex.set th (fun _ => ho) q,fun hf => ?_,fun u e pe hu hpe hne => ?_⟩
  · change s.owner = none at hf
    rw [ho] at hf
    cases hf
  · change s.owner = some u at hu
    rw [ho] at hu
    cases hu
    change ((s.set t th).thread t).pc = _ at hpe
    change e.Partial q₀ q ((s.set t th).thread t).item pe
    rw [QueueThreads.set_same] at hpe ⊢
    rw [hth] at hpe
    cases hpe
    exact part

/-- A change of a thread that stays outside its critical section. -/
theorem Serial.outside (h : Serial q₀ s) {th : Thread} (out : ¬ th.pc.Critical) :
    Serial q₀ (s.set t th) := by
  refine ⟨h.mutex.set th (fun hc => absurd hc out) s.queue,h.free,fun u d pd hu hpd hne => ?_⟩
  by_cases hut : u = t
  · subst u
    rw [QueueThreads.set_same] at hpd
    rw [hpd] at out
    exact absurd hne out
  · rw [QueueThreads.set_other hut] at hpd ⊢
    exact h.busy u d pd hu hpd hne

/-- One statement of a call: the last one ends the call, the others do a part of it. -/
theorem Serial.stepCall (h : Serial q₀ s) (hpc : (s.thread t).pc = .inside c pc)
    (hs : s.stepCall t c pc = some s') : Serial (serialQueue q₀ (pc.ends c).toList) s' := by
  have owned : pc ≠ .lock → s.owner = some t ∧ c.Partial q₀ s.queue (s.thread t).item pc := by
    intro hne
    have ho := h.mutex t (by rw [hpc]; exact hne)
    exact ⟨ho,h.busy t c pc ho hpc hne⟩
  cases pc with
  | lock =>
    simp only [QueueThreads.stepCall] at hs
    split_ifs at hs with ho
    cases hs
    refine ⟨h.mutex.acquire ho _,fun hf => (by cases hf),fun u d pd hu hpd hne => ?_⟩
    cases hu
    change ((s.setPc t (.inside c .test)).thread t).pc = _ at hpd
    rw [QueueThreads.setPc_same] at hpd
    cases hpd
    exact h.free ho
  | test =>
    obtain ⟨ho,hq⟩ := owned (by simp)
    change s.queue = q₀ at hq
    cases hs
    cases hr : c.refused s.queue with
    | true =>
      rw [hq] at hr
      have part : c.Partial q₀ s.queue (s.thread t).item (.unlock (-1)) :=
        ⟨(s.thread t).item,by rw [hq,c.whole_refused hr]⟩
      exact h.critical ho rfl part
    | false =>
      rw [hq] at hr
      have part : c.Partial q₀ s.queue (s.thread t).item .copy := ⟨hr,hq⟩
      exact h.critical ho rfl part
  | copy =>
    obtain ⟨ho,hr,hq⟩ := owned (by simp)
    cases hs
    exact h.critical ho rfl ⟨hr,by rw [hq],(s.thread t).item,by rw [hq]⟩
  | index =>
    obtain ⟨ho,hr,hq,hitem⟩ := owned (by simp)
    cases hs
    exact h.critical ho rfl ⟨hr,by rw [hq],hitem⟩
  | count =>
    obtain ⟨ho,hr,hq,hitem⟩ := owned (by simp)
    cases hs
    exact h.critical ho rfl ⟨hr,by rw [hq],hitem⟩
  | event =>
    obtain ⟨ho,hr,hq,old,hitem⟩ := owned (by simp)
    simp only [QueueThreads.stepCall] at hs
    split_ifs at hs
    · cases hs
      exact h.outside fun hc => hc
    · cases hs
      refine h.critical ho rfl ⟨old,?_⟩
      rw [c.whole_accepted hr,hq,hitem]
  | unlock ret =>
    obtain ⟨ho,old,hwhole⟩ := owned (by simp)
    cases hs
    refine ⟨h.mutex.release ho fun hc => hc,fun _ => ?_,fun u d pd hu => by cases hu⟩
    change s.queue = (c.whole q₀ []).1
    rw [c.whole_queue q₀ [] old,hwhole]

theorem Serial.run (run : Exec (QueueThreads.machine q) tr s) :
    Serial (serialQueue q (completed tr)) s := by
  induction run with
  | init hi =>
    refine ⟨Mutex.init hi,fun _ => hi.1,fun t c pc ho => ?_⟩
    rw [hi.2.1] at ho
    cases ho
  | @step tr s a s' run hs ih =>
    have hdone : completed (tr ++ [(s,a)]) = completed tr ++ (unlocked (s,a)).toList := by
      simp only [completed,List.filterMap_append]
      cases hu : unlocked (s,a) <;> simp [hu]
    rw [hdone,serialQueue_append]
    rcases QueueThreads.next_cases hs with ⟨t,c,pc,rfl,hpc,hs⟩ | ⟨t,th,ha,-,hout,rfl⟩ | ⟨t,rfl,rfl⟩
    · have hu : unlocked (s,.step t) = pc.ends c := by simp only [unlocked,hpc]
      rw [hu]
      exact ih.stepCall hpc hs
    · have hu : unlocked (s,a) = none := by
        rcases ha with rfl | rfl | ⟨c,rfl⟩ <;> rfl
      rw [hu]
      exact ih.outside hout
    · refine ⟨ih.mutex.set {s.thread t with cancelled := true} (ih.mutex t) s.queue,ih.free,
        fun u d pd hu hpd hne => ?_⟩
      rw [cancel_pc] at hpd
      have hitem : ((s.set t {s.thread t with cancelled := true}).thread u).item =
          (s.thread u).item := by
        by_cases hut : u = t
        · subst u
          rw [QueueThreads.set_same]
        · rw [QueueThreads.set_other hut]
      rw [hitem]
      exact ih.busy u d pd hu hpd hne

/-- In every interleaving, cancellations included, the queue is what the calls that have ended make
of it one after the other while the lock is free, and a call that is about to give the lock back
returns what it returns on that queue. -/
theorem calls_serialize (run : Exec (QueueThreads.machine q) tr s) :
    (s.owner = none → s.queue = serialQueue q (completed tr)) ∧
    ∀ t c ret, (s.thread t).pc = .inside c (.unlock ret) →
      ∃ old, c.whole (serialQueue q (completed tr)) old = (s.queue,(s.thread t).item,ret) := by
  have h := Serial.run run
  refine ⟨h.free,fun t c ret hpc => ?_⟩
  have ho := h.mutex t (by rw [hpc]; simp [ThreadPc.Critical])
  exact h.busy t c (.unlock ret) ho hpc (by simp)

end Serial

/-- The call of an operation; `fifo_queue_count` changes nothing. -/
def QueueOp.call {n : ℕ} : QueueOp n → Option Call
  | .send item => some (.send item.val)
  | .receive _ => some .receive
  | .count => none

/-- What is sent has the size of an item. -/
def Call.Sized (n : ℕ) : Call → Prop
  | .send item => item.length = n
  | .receive => True

section Contents
variable {n : ℕ} {q : FifoQueue}

theorem runOps_serial (q : FifoQueue) (ops : List (QueueOp n)) :
    (runOps q ops).1 = serialQueue q (ops.filterMap QueueOp.call) := by
  induction ops generalizing q with
  | nil => rfl
  | cons op ops ih =>
    cases op with
    | send item => exact ih _
    | receive item =>
      change (runOps (fifoQueueReceive q item.val).1 ops).1 = _
      rw [ih]
      have hq := Call.whole_queue q .receive item.val []
      change (fifoQueueReceive q item.val).1 = _ at hq
      rw [hq]
      rfl
    | count => exact ih _

theorem exists_ops {calls : List Call} (h : ∀ c ∈ calls, c.Sized n) :
    ∃ ops : List (QueueOp n), ops.filterMap QueueOp.call = calls := by
  induction calls with
  | nil => exact ⟨[],rfl⟩
  | cons c calls ih =>
    obtain ⟨ops,hops⟩ := ih fun d hd => h d (List.mem_cons_of_mem c hd)
    cases c with
    | send item => exact ⟨.send ⟨item,h (.send item) (by simp)⟩::ops,by simp [QueueOp.call,hops]⟩
    | receive =>
      exact ⟨.receive ⟨List.replicate n 0,List.length_replicate⟩::ops,by simp [QueueOp.call,hops]⟩

/-- While the lock is free, the ring holds what the bounded list holds after the same calls. -/
theorem threads_refine {ι : Type*} [DecidableEq ι] {malloc : Malloc} {eventfd : Bool}
    {itemSize capacity : UInt64} {tr : List (QueueThreads ι × ThreadAction ι)}
    {s : QueueThreads ι} (hq : fifoQueueInit malloc eventfd itemSize capacity = some q)
    (fits : itemSize.toNat*capacity.toNat<2^64) (run : Exec (QueueThreads.machine q) tr s)
    (sized : ∀ c ∈ completed tr, c.Sized itemSize.toNat) (free : s.owner = none) :
    ∃ ops : List (QueueOp itemSize.toNat), ops.filterMap QueueOp.call = completed tr ∧
      s.queue.contents =
        (specOps (BoundedFifo.empty : BoundedFifo (List UInt8) capacity.toNat) ops).1.items := by
  obtain ⟨ops,hops⟩ := exists_ops sized
  refine ⟨ops,hops,?_⟩
  have hqueue := (calls_serialize run).1 free
  rw [hqueue,←hops,←runOps_serial]
  exact (ops_refine (represents_init hq fits) ops).2.contents

end Contents

/-- One thread sends two items; the other receives one between these, is cancelled and ends in its
next `poll`. -/
def serialRun : List (ThreadAction (Fin 2)) :=
  List.flatten [.call 0 (.send [7])::.call 1 .receive::List.replicate 7 (.step 0),
    .call 0 (.send [8])::List.replicate 7 (.step 1),List.replicate 7 (.step 0),[.cancel 1,.poll 1]]

instance (n : ℕ) : (c : Call) → Decidable (c.Sized n)
  | .send item => inferInstanceAs (Decidable (item.length = n))
  | .receive => isTrue trivial

theorem threads_refine_serialRun : ∃ tr, ∃ s : QueueThreads (Fin 2),
    Exec (QueueThreads.machine twoSlotQueue) tr s ∧
    completed tr = [.send [7],.receive,.send [8]] ∧
    ∃ ops : List (QueueOp 1), ops.filterMap QueueOp.call = completed tr ∧
      s.queue.contents =
        (specOps (BoundedFifo.empty : BoundedFifo (List UInt8) 2) ops).1.items := by
  have hv : ((QueueThreads.machine twoSlotQueue).run (QueueThreads.idle twoSlotQueue)
      serialRun).map (fun s => (s.owner,(s.thread 1).pc)) = some (none,.dead) := by decide
  obtain ⟨s,hs,hr⟩ := Option.map_eq_some_iff.mp hv
  have howner : s.owner = none := congrArg Prod.fst hr
  have run := Exec.of_run (QueueThreads.idle_init _) hs
  exact ⟨_,s,run,by decide,threads_refine twoSlotQueue_init (by decide) run (by decide) howner⟩

end TTK4145.Rtsystem
