import TTK4145.Lib.Ring

/-! `Exercise1/5 - bounded buffer/c/ringbuf.c`. No index, nor an index plus one, passes the capacity,
which is an `int`; naturals stand for the fields. -/
namespace TTK4145.Exercise1
open Lib

structure RingBuffer where
  buffer : List Int32
  capacity : ℕ
  insertIdx : ℕ
  removeIdx : ℕ
  length : ℕ
  deriving DecidableEq, Repr

/-- `rb_new`, where `mem` is what `malloc` left in the buffer. -/
def rbNew (size : ℕ) (mem : List Int32) : RingBuffer := ⟨mem,size,0,0,0⟩

namespace RingBuffer

/-- `buffer[insertIdx] = val`. -/
def store (rb : RingBuffer) (val : Int32) : RingBuffer :=
  {rb with buffer := rb.buffer.set rb.insertIdx val}

/-- `buffer[removeIdx]`. -/
def fetch (rb : RingBuffer) : Int32 := rb.buffer.getD rb.removeIdx 0

def advanceInsert (rb : RingBuffer) : RingBuffer :=
  {rb with insertIdx := (rb.insertIdx+1)%rb.capacity}

def advanceRemove (rb : RingBuffer) : RingBuffer :=
  {rb with removeIdx := (rb.removeIdx+1)%rb.capacity}

def lengthUp (rb : RingBuffer) : RingBuffer := {rb with length := rb.length+1}
def lengthDown (rb : RingBuffer) : RingBuffer := {rb with length := rb.length-1}

end RingBuffer

/-- `rb_push`; `none` is a failed assertion. -/
def rbPush (rb : RingBuffer) (val : Int32) : Option RingBuffer :=
  if rb.length<rb.capacity then some (rb.store val).advanceInsert.lengthUp else none

/-- `rb_pop`. -/
def rbPop (rb : RingBuffer) : Option (Int32 × RingBuffer) :=
  if rb.length>0 then some (rb.fetch,rb.advanceRemove.lengthDown) else none

namespace RingBuffer

/-- The values held, oldest first. -/
def contents (rb : RingBuffer) : List Int32 :=
  Ring.window (rb.buffer.getD · 0) rb.capacity rb.removeIdx rb.length

/-- Consistent indices over a buffer that has room for every slot. -/
structure Ready (rb : RingBuffer) : Prop where
  block : rb.buffer.length = rb.capacity
  remove_lt : rb.removeIdx<rb.capacity
  length_le : rb.length ≤ rb.capacity
  insert_eq : rb.insertIdx = (rb.removeIdx+rb.length)%rb.capacity

/-- Both indices are inside the buffer. -/
def Inside (rb : RingBuffer) : Prop :=
  rb.buffer.length = rb.capacity ∧ rb.insertIdx<rb.capacity ∧ rb.removeIdx<rb.capacity

variable {rb : RingBuffer} {val : Int32} {size : ℕ} {mem : List Int32}

@[simp] theorem length_contents : rb.contents.length = rb.length := by simp [contents]

theorem ready_new (hsize : 1 ≤ size) (hmem : mem.length = size) : (rbNew size mem).Ready where
  block := hmem
  remove_lt := hsize
  length_le := Nat.zero_le _
  insert_eq := (Nat.zero_mod _).symm

theorem Ready.insert_lt (h : rb.Ready) : rb.insertIdx<rb.capacity := by
  rw [h.insert_eq]
  exact Nat.mod_lt _ (Nat.zero_lt_of_lt h.remove_lt)

theorem Ready.inside (h : rb.Ready) : rb.Inside := ⟨h.block,h.insert_lt,h.remove_lt⟩

theorem Inside.store (h : rb.Inside) (val : Int32) : (rb.store val).Inside :=
  ⟨(List.length_set ..).trans h.1,h.2⟩

theorem Inside.advanceInsert (h : rb.Inside) : rb.advanceInsert.Inside :=
  ⟨h.1,Nat.mod_lt _ (Nat.zero_lt_of_lt h.2.1),h.2.2⟩

theorem Inside.advanceRemove (h : rb.Inside) : rb.advanceRemove.Inside :=
  ⟨h.1,h.2.1,Nat.mod_lt _ (Nat.zero_lt_of_lt h.2.1)⟩

theorem Ready.push (h : rb.Ready) (hc : rb.length<rb.capacity) (val : Int32) :
    (rb.store val).advanceInsert.lengthUp.Ready where
  block := (List.length_set ..).trans h.block
  remove_lt := h.remove_lt
  length_le := hc
  insert_eq := by
    change (rb.insertIdx+1)%rb.capacity = (rb.removeIdx+(rb.length+1))%rb.capacity
    rw [h.insert_eq,Nat.mod_add_mod,Nat.add_assoc]

theorem Ready.pop (h : rb.Ready) (hc : 0<rb.length) : rb.advanceRemove.lengthDown.Ready where
  block := h.block
  remove_lt := Nat.mod_lt _ (Nat.zero_lt_of_lt h.remove_lt)
  length_le := (Nat.sub_le _ _).trans h.length_le
  insert_eq := by
    change rb.insertIdx = ((rb.removeIdx+1)%rb.capacity+(rb.length-1))%rb.capacity
    rw [h.insert_eq,Nat.mod_add_mod]
    congr 1
    omega

theorem contents_push (h : rb.Ready) (hc : rb.length<rb.capacity) (val : Int32) :
    (rb.store val).advanceInsert.lengthUp.contents = rb.contents ++ [val] := by
  have hin : rb.insertIdx<rb.buffer.length := by
    rw [h.block]
    exact h.insert_lt
  have hother : ∀ i, i ≠ (rb.removeIdx+rb.length)%rb.capacity →
      (rb.buffer.set rb.insertIdx val).getD i 0 = rb.buffer.getD i 0 := by
    intro i hne
    rw [←h.insert_eq] at hne
    rw [List.getD_eq_getElem?_getD,List.getElem?_set_ne hne.symm,List.getD_eq_getElem?_getD]
  have hw := Ring.window_push hc hother
  rw [←h.insert_eq,List.getD_eq_getElem?_getD,List.getElem?_set_self hin,Option.getD_some] at hw
  exact hw

theorem contents_pop (h : rb.Ready) (hc : 0<rb.length) :
    rb.contents = rb.fetch::rb.advanceRemove.lengthDown.contents := by
  obtain ⟨n,hn⟩ := Nat.exists_eq_add_one_of_ne_zero hc.ne'
  have hw : Ring.window (rb.buffer.getD · 0) rb.capacity rb.removeIdx (n+1) =
      rb.buffer.getD rb.removeIdx 0::
        Ring.window (rb.buffer.getD · 0) rb.capacity ((rb.removeIdx+1)%rb.capacity) n :=
    Ring.window_pop h.remove_lt
  simp only [contents,fetch,advanceRemove,lengthDown,hn,Nat.add_sub_cancel]
  exact hw

/-- The ring implements a bounded list: the assertions fail where the list is full or empty. -/
theorem rbPush_refines (h : rb.Ready) {f : BoundedFifo Int32 rb.capacity}
    (hf : f.items = rb.contents) (val : Int32) :
    (rbPush rb val).map contents = (f.send val).map (·.items) := by
  have hlen : f.items.length = rb.length := by rw [hf,length_contents]
  unfold rbPush
  split_ifs with hc
  · obtain ⟨g,hg⟩ : ∃ g, f.send val = some g := by
      rw [←Option.isSome_iff_exists,Option.isSome_iff_ne_none,ne_eq,BoundedFifo.send_eq_none]
      omega
    rw [hg,Option.map_some,Option.map_some,contents_push h hc,←hf,(BoundedFifo.send_eq_some.mp hg).2]
  · rw [BoundedFifo.send_eq_none.mpr (by omega)]
    rfl

theorem rbPop_refines (h : rb.Ready) {f : BoundedFifo Int32 rb.capacity}
    (hf : f.items = rb.contents) :
    (rbPop rb).map (fun r => (r.1,r.2.contents)) = f.receive.map fun r => (r.1,r.2.items) := by
  have hlen : f.items.length = rb.length := by rw [hf,length_contents]
  unfold rbPop
  split_ifs with hc
  · have hitems := hf.trans (contents_pop h hc)
    cases hr : f.receive with
    | none =>
      rw [BoundedFifo.receive_eq_none.mp hr] at hitems
      cases hitems
    | some r =>
      have hg := hitems.symm.trans (BoundedFifo.receive_eq_some.mp hr)
      obtain ⟨hx,hxs⟩ := List.cons.inj hg
      rw [Option.map_some,Option.map_some,hx,hxs]
  · have hnil : f.items = [] := List.eq_nil_of_length_eq_zero (by omega)
    rw [BoundedFifo.receive_eq_none.mpr hnil]
    rfl

end RingBuffer
end TTK4145.Exercise1
