import TTK4145.Lib.Block
import TTK4145.Lib.EventFd
import TTK4145.Lib.Ring

/-! `rtsystem/src/core/fifo_queue.c`, each operation as the composition of the statements of
its critical section. Sizes and indices are `size_t`, that is `UInt64`. -/
namespace TTK4145.Rtsystem
open Lib

/-- `fifo_queue_t` without its lock; `eventFd` is the kernel counter behind `event_fd`. -/
structure FifoQueue where
  buffer : List UInt8
  itemSize : UInt64
  capacity : UInt64
  head : UInt64
  tail : UInt64
  count : UInt64
  eventFd : EventFd
  deriving DecidableEq, Repr

/-- The answers of `malloc`: `NULL`, or a block of the size that was asked for. -/
abbrev Malloc := (n : UInt64) → Option {b : List UInt8 // b.length = n.toNat}

/-- An allocator that always succeeds, with cleared blocks. -/
def clearedMalloc : Malloc := fun n => some ⟨List.replicate n.toNat 0,List.length_replicate⟩

/-- `fifo_queue_init`. The outcome `none` is the return value -1; `eventfd` says whether the
descriptor could be created. -/
def fifoQueueInit (malloc : Malloc) (eventfd : Bool) (itemSize capacity : UInt64) :
    Option FifoQueue :=
  match malloc (itemSize*capacity) with
  | none => none
  | some buffer =>
    if eventfd then some ⟨buffer.val,itemSize,capacity,0,0,0,⟨0⟩⟩ else none

namespace FifoQueue

/-- `memcpy(dest, item, item_size)` with `dest = buffer + head * item_size`. -/
def copyIn (q : FifoQueue) (item : List UInt8) : FifoQueue :=
  {q with buffer := Block.store q.buffer (q.head*q.itemSize).toNat (item.take q.itemSize.toNat)}

/-- `memcpy(item, src, item_size)` with `src = buffer + tail * item_size`. -/
def copyOut (q : FifoQueue) : List UInt8 :=
  Block.load q.buffer (q.tail*q.itemSize).toNat q.itemSize.toNat

def advanceHead (q : FifoQueue) : FifoQueue := {q with head := (q.head+1)%q.capacity}
def advanceTail (q : FifoQueue) : FifoQueue := {q with tail := (q.tail+1)%q.capacity}
def countUp (q : FifoQueue) : FifoQueue := {q with count := q.count+1}
def countDown (q : FifoQueue) : FifoQueue := {q with count := q.count-1}

/-- `write(event_fd, 1)`; a failure is ignored. -/
def eventWrite (q : FifoQueue) : FifoQueue := {q with eventFd := q.eventFd.write.getD q.eventFd}

/-- `read(event_fd)`; a failure is ignored. -/
def eventRead (q : FifoQueue) : FifoQueue := {q with eventFd := q.eventFd.read.getD q.eventFd}

end FifoQueue

/-- `fifo_queue_send`: the queue afterwards and the return value. -/
def fifoQueueSend (q : FifoQueue) (item : List UInt8) : FifoQueue × ℤ :=
  if q.count ≥ q.capacity then (q,-1)
  else ((q.copyIn item).advanceHead.countUp.eventWrite,0)

/-- `fifo_queue_receive`: the queue and the caller's item afterwards and the return value. -/
def fifoQueueReceive (q : FifoQueue) (item : List UInt8) : FifoQueue × List UInt8 × ℤ :=
  if q.count = 0 then (q,item,-1)
  else (q.advanceTail.countDown.eventRead,q.copyOut,0)

/-- `fifo_queue_count`. -/
def fifoQueueCount (q : FifoQueue) : UInt64 := q.count

/-- The objects which callers hand to `send` and `receive`: exactly `n` bytes. -/
abbrev Item (n : ℕ) := {b : List UInt8 // b.length = n}

/-- One critical section of the queue, with the arguments of the call. -/
inductive QueueOp (n : ℕ) where
  | send (item : Item n)
  | receive (item : Item n)
  | count

inductive QueueResult where
  | sent (ret : ℤ)
  | received (ret : ℤ) (item : List UInt8)
  | counted (n : ℕ)
  deriving DecidableEq, Repr

/-- The calls that report an error. -/
def QueueResult.Failed : QueueResult → Prop
  | .sent ret => ret = -1
  | .received ret _ => ret = -1
  | .counted _ => False

def QueueOp.run {n : ℕ} (q : FifoQueue) : QueueOp n → FifoQueue × QueueResult
  | .send item => ((fifoQueueSend q item.val).1,.sent (fifoQueueSend q item.val).2)
  | .receive item =>
    let r := fifoQueueReceive q item.val
    (r.1,.received r.2.2 r.2.1)
  | .count => (q,.counted (fifoQueueCount q).toNat)

/-- Critical sections one after the other, as the lock orders them. -/
def runOps {n : ℕ} (q : FifoQueue) : List (QueueOp n) → FifoQueue × List QueueResult
  | [] => (q,[])
  | op::ops =>
    let r := op.run q
    let rest := runOps r.1 ops
    (rest.1,r.2::rest.2)

namespace FifoQueue

/-- Where the indices stand relative to each other. With capacity zero nothing is ever held,
and head and tail are never used. -/
structure Indices (q : FifoQueue) : Prop where
  count_le : q.count.toNat ≤ q.capacity.toNat
  tail_lt : 0<q.capacity.toNat → q.tail.toNat<q.capacity.toNat
  head_eq : 0<q.capacity.toNat → q.head.toNat = (q.tail.toNat+q.count.toNat)%q.capacity.toNat

section Fields
variable (q : FifoQueue) (item : List UInt8)

@[simp] theorem copyIn_capacity : (q.copyIn item).capacity = q.capacity := rfl
@[simp] theorem copyIn_itemSize : (q.copyIn item).itemSize = q.itemSize := rfl
@[simp] theorem copyIn_head : (q.copyIn item).head = q.head := rfl
@[simp] theorem copyIn_tail : (q.copyIn item).tail = q.tail := rfl
@[simp] theorem copyIn_count : (q.copyIn item).count = q.count := rfl
@[simp] theorem copyIn_eventFd : (q.copyIn item).eventFd = q.eventFd := rfl
@[simp] theorem copyIn_length : (q.copyIn item).buffer.length = q.buffer.length := by
  simp [copyIn]

end Fields

variable {q : FifoQueue}

theorem count_lt_iff : ¬ q.count ≥ q.capacity ↔ q.count.toNat<q.capacity.toNat := by
  rw [ge_iff_le,UInt64.le_iff_toNat_le,Nat.not_le]

theorem count_ne_zero_iff : q.count ≠ 0 ↔ 0<q.count.toNat := by
  rw [Nat.pos_iff_ne_zero,ne_eq,←UInt64.toNat_inj]
  rfl

theorem Indices.head_lt (h : q.Indices) (hc : 0<q.capacity.toNat) :
    q.head.toNat<q.capacity.toNat := by
  rw [h.head_eq hc]
  exact Nat.mod_lt _ hc

/-- An index below the capacity never wraps in `size_t` before it is reduced. -/
theorem next_index {i n : UInt64} (h : i.toNat<n.toNat) :
    ((i+1)%n).toNat = (i.toNat+1)%n.toNat := by
  have hn := n.toNat_lt
  rw [UInt64.toNat_mod,UInt64.toNat_add,UInt64.toNat_one,Nat.mod_eq_of_lt (a := i.toNat+1)]
  omega

theorem countUp_toNat (h : q.count.toNat<q.capacity.toNat) :
    q.countUp.count.toNat = q.count.toNat+1 := by
  have hc := q.capacity.toNat_lt
  simp only [countUp,UInt64.toNat_add,UInt64.toNat_one]
  omega

theorem countDown_toNat (h : 0<q.count.toNat) :
    q.countDown.count.toNat = q.count.toNat-1 := by
  have hc := q.count.toNat_lt
  simp only [countDown,UInt64.toNat_sub,UInt64.toNat_one]
  omega

/-- The two index updates of `fifo_queue_send`. -/
theorem Indices.send (h : q.Indices) (hc : q.count.toNat<q.capacity.toNat) :
    q.advanceHead.countUp.Indices := by
  have hpos : 0<q.capacity.toNat := by omega
  have hcount := countUp_toNat (q := q.advanceHead) hc
  refine ⟨?_,h.tail_lt,fun _ => ?_⟩
  · rw [hcount]
    exact hc
  · rw [hcount]
    change ((q.head+1)%q.capacity).toNat = (q.tail.toNat+(q.count.toNat+1))%q.capacity.toNat
    rw [next_index (h.head_lt hpos),h.head_eq hpos,Nat.mod_add_mod,Nat.add_assoc]

/-- The two index updates of `fifo_queue_receive`. -/
theorem Indices.receive (h : q.Indices) (hc : 0<q.count.toNat) :
    q.advanceTail.countDown.Indices := by
  have hle := h.count_le
  have hcount := countDown_toNat (q := q.advanceTail) hc
  refine ⟨?_,fun hpos => ?_,fun hpos => ?_⟩
  · rw [hcount]
    exact (Nat.sub_le _ _).trans hle
  · change ((q.tail+1)%q.capacity).toNat<q.capacity.toNat
    rw [next_index (h.tail_lt hpos)]
    exact Nat.mod_lt _ hpos
  · rw [hcount]
    change q.head.toNat = (((q.tail+1)%q.capacity).toNat+(q.count.toNat-1))%q.capacity.toNat
    rw [next_index (h.tail_lt hpos),h.head_eq hpos,Nat.mod_add_mod]
    congr 1
    omega

end FifoQueue
end TTK4145.Rtsystem
