import TTK4145.Lib.Block
import TTK4145.Rtsystem.AsyncLogHelper
import TTK4145.Rtsystem.Core.FifoQueueRefinement

/-! `g_log_queue` as the ring of `fifo_queue.c` that copies the bytes of a `log_message_t`. -/
namespace TTK4145.Rtsystem
open Lib

def LogLevel.ofCode : ℕ → LogLevel
  | 0 => .debug
  | 1 => .info
  | 2 => .warn
  | 3 => .error
  | _ => .none

theorem LogLevel.ofCode_code (l : LogLevel) : LogLevel.ofCode l.code = l := by
  cases l <;> rfl

/-- Nanoseconds up to the end of `time_t`. -/
def clockEnd : ℕ := 2^63*10^9

namespace LogMessage

/-- The texts fit in their arrays and the seconds in `time_t`. -/
structure Fits (m : LogMessage) : Prop where
  tag : m.tag.length<32 ∧ 0 ∉ m.tag
  message : m.message.length<256 ∧ 0 ∉ m.message
  timestamp : m.timestamp<clockEnd

/-- The struct in memory: `level`, `tag`, `message`, four bytes of padding, `tv_sec`, `tv_nsec`. -/
def bytes (m : LogMessage) : List UInt8 :=
  leBytes 4 m.level.code ++ textField 32 m.tag ++ textField 256 m.message ++ List.replicate 4 0 ++
    leBytes 8 (m.timestamp/10^9) ++ leBytes 8 (m.timestamp%10^9)

def ofBytes (b : List UInt8) : LogMessage where
  level := .ofCode (leNat (Block.load b 0 4))
  tag := (Block.load b 4 32).takeWhile (· ≠ 0)
  message := (Block.load b 36 256).takeWhile (· ≠ 0)
  timestamp := leNat (Block.load b 296 8)*10^9+leNat (Block.load b 304 8)

variable {m : LogMessage}

theorem length_bytes (h : m.Fits) : m.bytes.length = 312 := by
  simp [bytes,length_textField h.tag.1,length_textField h.message.1]

/-- A record that is copied byte by byte is the same record. -/
theorem ofBytes_bytes (h : m.Fits) : ofBytes m.bytes = m := by
  have ht := length_textField h.tag.1
  have hm := length_textField h.message.1
  have hlevel : Block.load m.bytes 0 4 = leBytes 4 m.level.code := by
    simp [bytes,Block.load_head]
  have htag : Block.load m.bytes 4 32 = textField 32 m.tag := by
    simp [bytes,Block.load_skip,Block.load_head,ht]
  have hmessage : Block.load m.bytes 36 256 = textField 256 m.message := by
    simp [-List.reduceReplicate,bytes,Block.load_skip,Block.load_head,ht,hm]
  have hsec : Block.load m.bytes 296 8 = leBytes 8 (m.timestamp/10^9) := by
    simp [-List.reduceReplicate,bytes,Block.load_skip,Block.load_head,ht,hm]
  have hnsec : Block.load m.bytes 304 8 = leBytes 8 (m.timestamp%10^9) := by
    simp [-List.reduceReplicate,bytes,Block.load_skip,Block.load_all,ht,hm]
  have hcode : m.level.code<256^4 := by
    cases m.level <;> decide
  have hend := h.timestamp
  unfold clockEnd at hend
  unfold ofBytes
  rw [hlevel,htag,hmessage,hsec,hnsec,textField_text h.tag.1 h.tag.2,
    textField_text h.message.1 h.message.2,leNat_leBytes hcode,leNat_leBytes (by omega),
    leNat_leBytes (by omega),LogLevel.ofCode_code,Nat.div_add_mod' m.timestamp (10^9)]

end LogMessage

theorem LogCall.record_fits (c : LogCall) {time : ℕ} (h : time<clockEnd) :
    (c.record time).Fits where
  tag := ⟨cutText_length_lt (by decide) c.tag,cutText_no_nul 32 c.tag⟩
  message := ⟨cutText_length_lt (by decide) c.text,cutText_no_nul 256 c.text⟩
  timestamp := h

/-- The queue as `fifo_queue.c` implements it, for items of `sizeof(log_message_t)` bytes. -/
def ringLog : LogQueue FifoQueue where
  send q m := if (fifoQueueSend q m.bytes).2 = 0 then some (fifoQueueSend q m.bytes).1 else none
  receive q :=
    let r := fifoQueueReceive q []
    if r.2.2 = 0 then some (.ofBytes r.2.1,r.1) else none
  readable q := q.eventFd.pollIn

/-- The ring holds the bytes of the list's records, and its eventfd counts them. -/
structure LogRing {capacity : ℕ} (q : FifoQueue) (f : BoundedFifo LogMessage capacity) : Prop where
  ready : q.Ready
  itemSize : q.itemSize.toNat = 312
  capacity : q.capacity.toNat = capacity
  contents : q.contents = f.items.map LogMessage.bytes
  fits : ∀ m ∈ f.items, m.Fits
  event : q.eventFd.counter = q.count.toNat

section Ring
variable {capacity : ℕ} {q : FifoQueue} {f : BoundedFifo LogMessage capacity} {m : LogMessage}

theorem LogRing.count (h : LogRing q f) : q.count.toNat = f.items.length := by
  rw [←FifoQueue.contents_length,h.contents,List.length_map]

/-- A send succeeds in the ring when it does in the list, and the eventfd has room for it. -/
theorem LogRing.send (h : LogRing q f) (hm : m.Fits) :
    (ringLog.send q m = none ∧ fifoLog.send f m = none) ∨
    ∃ q' f', ringLog.send q m = some q' ∧ fifoLog.send f m = some f' ∧ LogRing q' f' := by
  by_cases hfull : q.count ≥ q.capacity
  · refine .inl ⟨by simp [ringLog,fifoQueueSend,hfull],BoundedFifo.send_eq_none.mpr ?_⟩
    rw [←h.count,←h.capacity]
    exact UInt64.le_iff_toNat_le.mp hfull
  · have hc := FifoQueue.count_lt_iff.mp hfull
    obtain ⟨g,hg⟩ : ∃ g, f.send m = some g := by
      rw [←Option.ne_none_iff_exists',ne_eq,BoundedFifo.send_eq_none,←h.count,←h.capacity]
      omega
    have hitems := (BoundedFifo.send_eq_some.mp hg).2
    refine .inr ⟨(q.copyIn m.bytes).advanceHead.countUp.eventWrite,g,
      by simp only [ringLog,fifoQueueSend,hfull,if_false,if_true],hg,
      h.ready.send hc _,h.itemSize,h.capacity,?_,fun x hx => ?_,?_⟩
    · rw [FifoQueue.contents_send h.ready hc ((LogMessage.length_bytes hm).trans h.itemSize.symm),
        h.contents,hitems]
      simp
    · rw [hitems] at hx
      rcases List.mem_append.mp hx with hx | hx
      · exact h.fits x hx
      · rw [List.mem_singleton.mp hx]
        exact hm
    · have hroom : q.eventFd.counter<eventFdMax := by
        have hf := h.ready.fits
        rw [h.itemSize] at hf
        rw [h.event]
        unfold eventFdMax
        omega
      change (q.eventFd.write.getD q.eventFd).counter = q.countUp.count.toNat
      rw [EventFd.write_eq hroom,FifoQueue.countUp_toNat hc,←h.event]
      rfl

/-- A receive yields the list's oldest record, read back from its bytes. -/
theorem LogRing.receive (h : LogRing q f) :
    (ringLog.receive q = none ∧ fifoLog.receive f = none) ∨
    ∃ x q' f', ringLog.receive q = some (x,q') ∧ fifoLog.receive f = some (x,f') ∧
      LogRing q' f' := by
  by_cases hempty : q.count = 0
  · refine .inl ⟨by simp [ringLog,fifoQueueReceive,hempty],BoundedFifo.receive_eq_none.mpr ?_⟩
    rw [←List.length_eq_zero_iff,←h.count,hempty]
    rfl
  · have hc := FifoQueue.count_ne_zero_iff.mp hempty
    obtain ⟨⟨x,g⟩,hg⟩ : ∃ r, f.receive = some r := by
      rw [←Option.ne_none_iff_exists',ne_eq,BoundedFifo.receive_eq_none,←List.length_eq_zero_iff,
        ←h.count]
      omega
    have hitems := BoundedFifo.receive_eq_some.mp hg
    have hcons := FifoQueue.contents_receive h.ready hc
    rw [h.contents,hitems,List.map_cons,List.cons.injEq] at hcons
    have hx : x.Fits := h.fits x (by rw [hitems]; simp)
    refine .inr ⟨x,q.advanceTail.countDown.eventRead,g,?_,hg,h.ready.receive hc,h.itemSize,
      h.capacity,hcons.2.symm,fun y hy => h.fits y (by rw [hitems]; simp [hy]),?_⟩
    · simp only [ringLog,fifoQueueReceive,hempty,if_false,if_true,←hcons.1]
      rw [LogMessage.ofBytes_bytes hx]
    · change (q.eventFd.read.getD q.eventFd).counter = q.countDown.count.toNat
      rw [EventFd.read_eq (by rw [h.event]; exact hc),FifoQueue.countDown_toNat hc,←h.event]
      rfl

theorem LogRing.readable (h : LogRing q f) : ringLog.readable q = fifoLog.readable f := by
  have hcount := h.count
  rw [←h.event] at hcount
  cases hi : f.items <;> simp [ringLog,fifoLog,EventFd.pollIn,hcount,hi]

/-- The queue that `log_task_init` creates holds no records. -/
theorem logRing_init {malloc : Malloc} {eventfd : Bool} {capacity : UInt64}
    (hq : fifoQueueInit malloc eventfd 312 capacity = some q) (fits : 312*capacity.toNat<2^64) :
    LogRing q (BoundedFifo.empty : BoundedFifo LogMessage capacity.toNat) := by
  obtain ⟨ready,hempty,hi,hc⟩ := FifoQueue.init_ready hq fits
  refine ⟨ready,by rw [hi]; rfl,by rw [hc],hempty,fun m hm => (by cases hm),?_⟩
  unfold fifoQueueInit at hq
  split at hq
  · cases hq
  · split_ifs at hq
    cases hq
    rfl

end Ring
end TTK4145.Rtsystem
