import Mathlib.Data.UInt
import TTK4145.Rtsystem.Core.FifoQueueRefinement

/-! Memory safety of the copies. `fifo_queue_init` multiplies its two arguments without a check,
so the block may be smaller than the slots it is meant to hold. -/
namespace TTK4145.Rtsystem
open Lib

/-- The copy at one index stays inside the block that was allocated, its offset does not wrap,
and the index update after it does not divide by zero. -/
structure CopySafe (q : FifoQueue) (index : UInt64) : Prop where
  offset : index.toNat*q.itemSize.toNat<2^64
  inside : (index*q.itemSize).toNat+q.itemSize.toNat ≤ q.buffer.length
  modulus : q.capacity ≠ 0

/-- What an operation needs of the state it starts in; a refused call copies nothing. -/
def OpSafe {n : ℕ} (q : FifoQueue) : QueueOp n → Prop
  | .send _ => ¬ q.count ≥ q.capacity → CopySafe q q.head
  | .receive _ => q.count ≠ 0 → CopySafe q q.tail
  | .count => True

namespace FifoQueue
variable {q : FifoQueue}

theorem Ready.copySafe (h : q.Ready) {i : UInt64} (hi : i.toNat<q.capacity.toNat) :
    CopySafe q i := by
  have hslot := h.slot_inside hi
  have hblock := h.block
  have hfits := h.fits
  refine ⟨by omega,?_,?_⟩
  · rw [h.offset hi]
    exact hslot
  · intro hc
    rw [hc] at hi
    exact absurd hi (Nat.not_lt_zero _)

theorem Ready.opSafe {n : ℕ} (h : q.Ready) (op : QueueOp n) : OpSafe q op := by
  cases op with
  | send item =>
    intro hc
    have hlt := count_lt_iff.mp hc
    exact h.copySafe (h.head_lt (by omega))
  | receive item =>
    intro hc
    have hpos := count_ne_zero_iff.mp hc
    have hle := h.count_le
    exact h.copySafe (h.tail_lt (by omega))
  | count => trivial

end FifoQueue

section Fill
variable {malloc : Malloc} {eventfd : Bool} {itemSize capacity : UInt64} {q : FifoQueue}

/-- What stays fixed while nothing is received: the slots fill up from index zero. -/
structure Filled (q : FifoQueue) (itemSize capacity : UInt64) (k : ℕ) : Prop where
  size_eq : q.itemSize = itemSize
  capacity_eq : q.capacity = capacity
  count : q.count.toNat = k
  head : k<capacity.toNat → q.head.toNat = k
  block : q.buffer.length = (itemSize*capacity).toNat

theorem filled_init (hq : fifoQueueInit malloc eventfd itemSize capacity = some q) :
    Filled q itemSize capacity 0 := by
  unfold fifoQueueInit at hq
  split at hq
  · cases hq
  · rename_i buffer _
    split_ifs at hq
    cases hq
    exact ⟨rfl,rfl,rfl,fun _ => rfl,buffer.property⟩

theorem filled_send {k : ℕ} (h : Filled q itemSize capacity k) (hk : k<capacity.toNat)
    (item : List UInt8) : Filled (fifoQueueSend q item).1 itemSize capacity (k+1) := by
  have hlt : q.count.toNat<q.capacity.toNat := by
    rw [h.count,h.capacity_eq]
    exact hk
  have hcap := capacity.toNat_lt
  have hfull : ¬ q.count ≥ q.capacity := FifoQueue.count_lt_iff.mpr hlt
  simp only [fifoQueueSend,hfull,if_false]
  refine ⟨h.size_eq,h.capacity_eq,?_,fun hk1 => ?_,?_⟩
  · have hcount := FifoQueue.countUp_toNat (q := (q.copyIn item).advanceHead) hlt
    change (q.copyIn item).advanceHead.countUp.count.toNat = k+1
    rw [hcount,←h.count]
    rfl
  · change ((q.head+1)%q.capacity).toNat = k+1
    rw [h.capacity_eq,FifoQueue.next_index (by rw [h.head hk]; exact hk),h.head hk,Nat.mod_eq_of_lt hk1]
  · exact (FifoQueue.copyIn_length q item).trans h.block

/-- After `k` sends into the fresh queue its head stands at slot `k`. -/
theorem filled_sends {n : ℕ} (item : Item n) {k : ℕ} (h : Filled q itemSize capacity 0)
    (hk : k ≤ capacity.toNat) :
    Filled (runOps q (List.replicate k (.send item : QueueOp n))).1 itemSize capacity k := by
  suffices hs : ∀ (m j : ℕ) (q : FifoQueue), Filled q itemSize capacity j → j+m ≤ capacity.toNat →
      Filled (runOps q (List.replicate m (.send item : QueueOp n))).1 itemSize capacity (j+m) by
    simpa using hs k 0 q h (by omega)
  intro m
  induction m with
  | zero => exact fun j q h _ => h
  | succ m ih =>
    intro j q h hj
    have hr := ih (j+1) (fifoQueueSend q item.val).1 (filled_send h (by omega) item.val) (by omega)
    rw [show j+(m+1) = j+1+m by omega]
    exact hr

/-- When the product wraps, the last slot ends outside the block: filling the queue up to it
makes the next send unsafe. -/
theorem overflow_unsafe (hq : fifoQueueInit malloc eventfd itemSize capacity = some q)
    (hbig : 2^64 ≤ itemSize.toNat*capacity.toNat) (item : Item itemSize.toNat) :
    ¬ OpSafe (runOps q (List.replicate (capacity.toNat-1) (.send item))).1 (.send item) := by
  intro safe
  have hpos : capacity.toNat ≠ 0 := by
    intro h
    rw [h] at hbig
    omega
  obtain ⟨c,hc⟩ := Nat.exists_eq_add_one_of_ne_zero hpos
  have hf := filled_sends item (k := c) (filled_init hq) (by omega)
  rw [hc,Nat.add_sub_cancel] at safe
  have hroom : ¬ (runOps q (List.replicate c (.send item))).1.count ≥
      (runOps q (List.replicate c (.send item))).1.capacity := by
    rw [FifoQueue.count_lt_iff,hf.count,hf.capacity_eq]
    omega
  have hoff := (safe hroom).offset
  have hin := (safe hroom).inside
  rw [hf.size_eq,hf.head (by omega)] at hoff
  rw [hf.size_eq,hf.block,UInt64.toNat_mul,hf.head (by omega),Nat.mod_eq_of_lt hoff,
    UInt64.toNat_mul] at hin
  have hprod : c*itemSize.toNat+itemSize.toNat = itemSize.toNat*capacity.toNat := by
    rw [hc,Nat.mul_comm itemSize.toNat,Nat.succ_mul]
  have hmod := Nat.mod_lt (itemSize.toNat*capacity.toNat) (Nat.two_pow_pos 64)
  omega

theorem fits_safe (hq : fifoQueueInit malloc eventfd itemSize capacity = some q)
    (fits : itemSize.toNat*capacity.toNat<2^64) (ops : List (QueueOp itemSize.toNat))
    (op : QueueOp itemSize.toNat) : OpSafe (runOps q ops).1 op :=
  (ops_refine (represents_init hq fits) ops).2.ready.opSafe op

/-- The operations from a fresh queue are memory safe for every sequence of calls exactly when
the product of the two sizes fits in `size_t`. -/
theorem ops_safe_iff (hq : fifoQueueInit malloc eventfd itemSize capacity = some q) :
    (∀ (ops : List (QueueOp itemSize.toNat)) (op : QueueOp itemSize.toNat),
      OpSafe (runOps q ops).1 op) ↔ itemSize.toNat*capacity.toNat<2^64 := by
  constructor
  · intro safe
    by_contra hbig
    let item : Item itemSize.toNat := ⟨List.replicate itemSize.toNat 0,List.length_replicate⟩
    exact overflow_unsafe hq (Nat.not_lt.mp hbig) item (safe _ _)
  · exact fits_safe hq

end Fill

theorem ops_safe_iff_two_by_three :
    (∀ (ops : List (QueueOp (2 : UInt64).toNat)) (op : QueueOp (2 : UInt64).toNat),
      OpSafe (runOps ⟨List.replicate 6 0,2,3,0,0,0,⟨0⟩⟩ ops).1 op) ↔
        (2 : UInt64).toNat*(3 : UInt64).toNat<2^64 :=
  ops_safe_iff (show fifoQueueInit clearedMalloc true 2 3 = some _ from rfl)

/-- With item size and capacity both `2^32` the product wraps to zero, `malloc(0)` may succeed,
and the first send already copies `2^32` bytes into the empty block. -/
theorem first_send_overflows :
    ∃ q, fifoQueueInit clearedMalloc true (2^32) (2^32) = some q ∧
      ∀ item : Item (2^32 : UInt64).toNat, ¬ OpSafe q (.send item) := by
  refine ⟨_,rfl,fun item safe => ?_⟩
  have h := (safe (by decide)).inside
  revert h
  decide

end TTK4145.Rtsystem
