import TTK4145.Rtsystem.Core.FifoQueue

/-! The queue refines a bounded first-in first-out list of items. -/
namespace TTK4145.Rtsystem
open Lib

namespace FifoQueue

/-- The bytes of slot `i` of the flat buffer. -/
def slot (q : FifoQueue) (i : ℕ) : List UInt8 :=
  Block.load q.buffer (i*q.itemSize.toNat) q.itemSize.toNat

/-- The items held, oldest first. -/
def contents (q : FifoQueue) : List (List UInt8) :=
  Ring.window q.slot q.capacity.toNat q.tail.toNat q.count.toNat

/-- Consistent indices over a block that has room for every slot. -/
structure Ready (q : FifoQueue) : Prop extends q.Indices where
  fits : q.itemSize.toNat*q.capacity.toNat<2^64
  block : q.buffer.length = q.itemSize.toNat*q.capacity.toNat

variable {q : FifoQueue}

@[simp] theorem contents_length : q.contents.length = q.count.toNat := by simp [contents]

/-- The offset of a slot is computed without wrap-around. -/
theorem Ready.offset (h : q.Ready) {i : UInt64} (hi : i.toNat<q.capacity.toNat) :
    (i*q.itemSize).toNat = i.toNat*q.itemSize.toNat := by
  have hm : i.toNat*q.itemSize.toNat ≤ q.capacity.toNat*q.itemSize.toNat :=
    Nat.mul_le_mul_right _ hi.le
  have hf := h.fits
  rw [Nat.mul_comm] at hf
  rw [UInt64.toNat_mul,Nat.mod_eq_of_lt (by omega)]

theorem Ready.slot_inside (h : q.Ready) {i : ℕ} (hi : i<q.capacity.toNat) :
    i*q.itemSize.toNat+q.itemSize.toNat ≤ q.buffer.length := by
  rw [h.block,Nat.mul_comm q.itemSize.toNat]
  exact Block.slot_le hi

theorem slot_copyIn_same (h : q.Ready) (hh : q.head.toNat<q.capacity.toNat)
    {item : List UInt8} (hi : item.length = q.itemSize.toNat) :
    (q.copyIn item).slot q.head.toNat = item := by
  have ht : item.take q.itemSize.toNat = item := by rw [←hi,List.take_length]
  have hs := h.slot_inside hh
  simp only [slot,copyIn_itemSize]
  simp only [copyIn,ht,h.offset hh]
  rw [←hi] at hs ⊢
  exact Block.load_store_same hs

theorem slot_copyIn_other (h : q.Ready) (hh : q.head.toNat<q.capacity.toNat)
    {item : List UInt8} (hi : item.length = q.itemSize.toNat) {i : ℕ} (hne : i ≠ q.head.toNat) :
    (q.copyIn item).slot i = q.slot i := by
  have ht : item.take q.itemSize.toNat = item := by rw [←hi,List.take_length]
  simp only [slot,copyIn_itemSize]
  simp only [copyIn,ht,h.offset hh]
  apply Block.load_store_disjoint
  rw [hi]
  exact Block.slots_disjoint hne

theorem Ready.send (h : q.Ready) (hc : q.count.toNat<q.capacity.toNat) (item : List UInt8) :
    (q.copyIn item).advanceHead.countUp.eventWrite.Ready := by
  have hi := Indices.send (q := q.copyIn item)
    ⟨h.count_le,h.tail_lt,h.head_eq⟩ hc
  exact {
    count_le := hi.count_le
    tail_lt := hi.tail_lt
    head_eq := hi.head_eq
    fits := h.fits
    block := (copyIn_length q item).trans h.block }

theorem Ready.receive (h : q.Ready) (hc : 0<q.count.toNat) :
    q.advanceTail.countDown.eventRead.Ready := by
  have hi := Indices.receive h.toIndices hc
  exact {
    count_le := hi.count_le
    tail_lt := hi.tail_lt
    head_eq := hi.head_eq
    fits := h.fits
    block := h.block }

/-- Writing the free slot appends the item; no byte of a live slot changes. -/
theorem contents_send (h : q.Ready) (hc : q.count.toNat<q.capacity.toNat)
    {item : List UInt8} (hi : item.length = q.itemSize.toNat) :
    (q.copyIn item).advanceHead.countUp.eventWrite.contents = q.contents ++ [item] := by
  have hpos : 0<q.capacity.toNat := by omega
  have hh := h.head_lt hpos
  have hcount := countUp_toNat (q := (q.copyIn item).advanceHead) hc
  have hother : ∀ i, i ≠ (q.tail.toNat+q.count.toNat)%q.capacity.toNat →
      (q.copyIn item).slot i = q.slot i := by
    intro i hne
    rw [←h.head_eq hpos] at hne
    exact slot_copyIn_other h hh hi hne
  have hw := Ring.window_push hc hother
  rw [←h.head_eq hpos,slot_copyIn_same h hh hi] at hw
  change Ring.window (q.copyIn item).slot q.capacity.toNat q.tail.toNat
    (q.copyIn item).advanceHead.countUp.count.toNat = _
  rw [hcount]
  exact hw

/-- The copied bytes are the oldest item, and the rest of the list stays. -/
theorem contents_receive (h : q.Ready) (hc : 0<q.count.toNat) :
    q.contents = q.copyOut::q.advanceTail.countDown.eventRead.contents := by
  have hpos : 0<q.capacity.toNat := by
    have := h.count_le
    omega
  have ht := h.tail_lt hpos
  have hcount := countDown_toNat (q := q.advanceTail) hc
  obtain ⟨n,hn⟩ := Nat.exists_eq_add_one_of_ne_zero hc.ne'
  have hout : q.copyOut = q.slot q.tail.toNat := by
    simp only [copyOut,slot,h.offset ht]
  have hrest : q.advanceTail.countDown.eventRead.contents =
      Ring.window q.slot q.capacity.toNat ((q.tail.toNat+1)%q.capacity.toNat) n := by
    change Ring.window q.slot q.capacity.toNat ((q.tail+1)%q.capacity).toNat
      q.advanceTail.countDown.count.toNat = _
    rw [hcount,next_index ht]
    congr 1
    change q.count.toNat-1 = n
    omega
  rw [hout,hrest,contents,hn]
  exact Ring.window_pop ht

theorem init_ready {malloc : Malloc} {eventfd : Bool} {itemSize capacity : UInt64}
    (hq : fifoQueueInit malloc eventfd itemSize capacity = some q)
    (fits : itemSize.toNat*capacity.toNat<2^64) :
    q.Ready ∧ q.contents = [] ∧ q.itemSize = itemSize ∧ q.capacity = capacity := by
  unfold fifoQueueInit at hq
  split at hq
  · cases hq
  · rename_i buffer _
    split_ifs at hq
    cases hq
    refine ⟨⟨⟨?_,fun h => h,fun h => ?_⟩,fits,?_⟩,rfl,rfl,rfl⟩
    · exact Nat.zero_le _
    · simp
    · exact buffer.property.trans ((UInt64.toNat_mul _ _).trans (Nat.mod_eq_of_lt fits))

end FifoQueue

/-- The operations on the abstract list, with the return values the code documents. -/
def QueueOp.spec {n capacity : ℕ} (f : BoundedFifo (List UInt8) capacity) :
    QueueOp n → BoundedFifo (List UInt8) capacity × QueueResult
  | .send item => match f.send item.val with
    | some g => (g,.sent 0)
    | none => (f,.sent (-1))
  | .receive item => match f.receive with
    | some (x,g) => (g,.received 0 x)
    | none => (f,.received (-1) item.val)
  | .count => (f,.counted f.items.length)

def specOps {n capacity : ℕ} (f : BoundedFifo (List UInt8) capacity) :
    List (QueueOp n) → BoundedFifo (List UInt8) capacity × List QueueResult
  | [] => (f,[])
  | op::ops =>
    let r := op.spec f
    let rest := specOps r.1 ops
    (rest.1,r.2::rest.2)

/-- The abstraction relation between the queue and the list. -/
structure Represents {capacity : ℕ} (n : ℕ) (q : FifoQueue)
    (f : BoundedFifo (List UInt8) capacity) : Prop where
  ready : q.Ready
  itemSize : q.itemSize.toNat = n
  capacity : q.capacity.toNat = capacity
  contents : q.contents = f.items

section Refinement
variable {n capacity : ℕ} {q : FifoQueue} {f : BoundedFifo (List UInt8) capacity}

theorem Represents.count (h : Represents n q f) : f.items.length = q.count.toNat := by
  rw [←h.contents,FifoQueue.contents_length]

/-- One critical section answers as the list does and leads to related states. -/
theorem op_refines (h : Represents n q f) (op : QueueOp n) :
    (op.run q).2 = (op.spec f).2 ∧ Represents n (op.run q).1 (op.spec f).1 := by
  cases op with
  | send item =>
    have hlen : item.val.length = q.itemSize.toNat := by rw [item.property,h.itemSize]
    by_cases hfull : q.count ≥ q.capacity
    · have hspec : f.send item.val = none := by
        rw [BoundedFifo.send_eq_none,h.count,←h.capacity]
        exact UInt64.le_iff_toNat_le.mp hfull
      simp only [QueueOp.run,QueueOp.spec,fifoQueueSend,hfull,if_true,hspec]
      exact ⟨trivial,h⟩
    · have hc := FifoQueue.count_lt_iff.mp hfull
      obtain ⟨g,hg⟩ : ∃ g, f.send item.val = some g := by
        rw [←Option.ne_none_iff_exists',ne_eq,BoundedFifo.send_eq_none,h.count,←h.capacity]
        omega
      simp only [QueueOp.run,QueueOp.spec,fifoQueueSend,hfull,if_false,hg]
      refine ⟨trivial,h.ready.send hc _,h.itemSize,h.capacity,?_⟩
      rw [FifoQueue.contents_send h.ready hc hlen,h.contents]
      exact (BoundedFifo.send_eq_some.mp hg).2.symm
  | receive item =>
    by_cases hempty : q.count = 0
    · have hspec : f.receive = none := by
        rw [BoundedFifo.receive_eq_none,←List.length_eq_zero_iff,h.count,hempty]
        rfl
      simp only [QueueOp.run,QueueOp.spec,fifoQueueReceive,hempty,if_true,hspec]
      exact ⟨trivial,h⟩
    · have hc := FifoQueue.count_ne_zero_iff.mp hempty
      have hitems := FifoQueue.contents_receive h.ready hc
      rw [h.contents] at hitems
      obtain ⟨⟨x,g⟩,hg⟩ : ∃ r, f.receive = some r := by
        rw [←Option.ne_none_iff_exists',ne_eq,BoundedFifo.receive_eq_none,hitems]
        simp
      have hx := BoundedFifo.receive_eq_some.mp hg
      rw [hitems,List.cons.injEq] at hx
      simp only [QueueOp.run,QueueOp.spec,fifoQueueReceive,hempty,if_false,hg]
      exact ⟨by rw [hx.1],h.ready.receive hc,h.itemSize,h.capacity,hx.2⟩
  | count =>
    simp only [QueueOp.run,QueueOp.spec,fifoQueueCount,h.count]
    exact ⟨trivial,h⟩

theorem ops_refine (h : Represents n q f) (ops : List (QueueOp n)) :
    (runOps q ops).2 = (specOps f ops).2 ∧ Represents n (runOps q ops).1 (specOps f ops).1 := by
  induction ops generalizing q f with
  | nil => exact ⟨rfl,h⟩
  | cons op ops ih =>
    obtain ⟨hr,hs⟩ := op_refines h op
    obtain ⟨hrs,hss⟩ := ih hs
    exact ⟨by simp only [runOps,specOps,hr,hrs],hss⟩

/-- A call that reports an error leaves every field of the queue as it was. -/
theorem failed_unchanged (q : FifoQueue) (op : QueueOp n) (h : (op.run q).2.Failed) :
    (op.run q).1 = q := by
  cases op with
  | send item =>
    simp only [QueueOp.run,fifoQueueSend,QueueResult.Failed] at h ⊢
    split_ifs at h ⊢
    rfl
  | receive item =>
    simp only [QueueOp.run,fifoQueueReceive,QueueResult.Failed] at h ⊢
    split_ifs at h ⊢
    rfl
  | count => rfl

end Refinement

theorem represents_init {malloc : Malloc} {eventfd : Bool} {itemSize capacity : UInt64}
    {q : FifoQueue} (hq : fifoQueueInit malloc eventfd itemSize capacity = some q)
    (fits : itemSize.toNat*capacity.toNat<2^64) :
    Represents itemSize.toNat q (BoundedFifo.empty : BoundedFifo (List UInt8) capacity.toNat) := by
  obtain ⟨ready,hempty,hi,hc⟩ := FifoQueue.init_ready hq fits
  exact ⟨ready,by rw [hi],by rw [hc],hempty⟩

/-- From `fifo_queue_init` on, any sequence of critical sections answers exactly as the bounded
list, ends with the same items, and a failing call changes nothing. -/
theorem fifoQueue_refines {malloc : Malloc} {eventfd : Bool} {itemSize capacity : UInt64}
    {q : FifoQueue} (hq : fifoQueueInit malloc eventfd itemSize capacity = some q)
    (fits : itemSize.toNat*capacity.toNat<2^64) (ops : List (QueueOp itemSize.toNat)) :
    (runOps q ops).2 =
      (specOps (BoundedFifo.empty : BoundedFifo (List UInt8) capacity.toNat) ops).2 ∧
    (runOps q ops).1.contents =
      (specOps (BoundedFifo.empty : BoundedFifo (List UInt8) capacity.toNat) ops).1.items ∧
    ∀ op : QueueOp itemSize.toNat, (op.run (runOps q ops).1).2.Failed →
      (op.run (runOps q ops).1).1 = (runOps q ops).1 := by
  obtain ⟨hr,hs⟩ := ops_refine (represents_init hq fits) ops
  exact ⟨hr,hs.contents,fun op => failed_unchanged _ op⟩

/-- A ring of two one-byte slots: the third send is refused and the fourth wraps around. -/
def wrapOps : List (QueueOp (1 : UInt64).toNat) :=
  [.send ⟨[10],rfl⟩,.send ⟨[20],rfl⟩,.send ⟨[30],rfl⟩,.receive ⟨[0],rfl⟩,.send ⟨[40],rfl⟩,.count,
    .receive ⟨[0],rfl⟩,.receive ⟨[0],rfl⟩,.receive ⟨[0],rfl⟩]

theorem fifoQueue_refines_wrapOps :
    (runOps ⟨[0,0],1,2,0,0,0,⟨0⟩⟩ wrapOps).2 =
      [.sent 0,.sent 0,.sent (-1),.received 0 [10],.sent 0,.counted 2,.received 0 [20],
        .received 0 [40],.received (-1) [0]] := by
  have hq : fifoQueueInit clearedMalloc true 1 2 = some ⟨[0,0],1,2,0,0,0,⟨0⟩⟩ := rfl
  exact (fifoQueue_refines hq (by decide) wrapOps).1.trans (by decide)

end TTK4145.Rtsystem
