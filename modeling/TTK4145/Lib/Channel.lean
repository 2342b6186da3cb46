import Mathlib.Data.List.Basic

/-! Buffered channels with blocking senders. A sender that finds no room is parked together with its
value, and a receive that makes room admits the first one parked. -/
namespace TTK4145.Lib

structure Channel (ι β : Type*) where
  capacity : ℕ
  buffer : List β
  parked : List (ι × β)
  bounded : buffer.length ≤ capacity
  full : parked ≠ [] → capacity ≤ buffer.length

namespace Channel
variable {ι β : Type*}

def make (capacity : ℕ) : Channel ι β := ⟨capacity,[],[],Nat.zero_le _,fun h => absurd rfl h⟩

/-- The values that are sent and not yet received, oldest first. -/
def pending (c : Channel ι β) : List β := c.buffer ++ c.parked.map Prod.snd

/-- Whether a sender waits for its value to be taken. -/
def Waits [DecidableEq ι] (c : Channel ι β) (x : ι) : Prop := x ∈ c.parked.map Prod.fst

instance [DecidableEq ι] (c : Channel ι β) (x : ι) : Decidable (c.Waits x) :=
  inferInstanceAs (Decidable (x ∈ _))

def send (c : Channel ι β) (x : ι) (v : β) : Channel ι β :=
  if h : c.buffer.length<c.capacity then
    {c with
      buffer := c.buffer ++ [v]
      bounded := by simpa using Nat.succ_le_of_lt h
      full := fun hp => absurd (c.full hp) (by omega)}
  else
    {c with
      parked := c.parked ++ [(x,v)]
      full := fun _ => by omega}

/-- Without a buffered value only an unbuffered channel has a sender to take the value from. -/
def recv (c : Channel ι β) : Option (β × Channel ι β) :=
  match c with
  | ⟨_,[],[],_,_⟩ => none
  | ⟨n,[],(_,v)::ps,hb,hf⟩ => some (v,⟨n,[],ps,hb,fun _ => hf (List.cons_ne_nil _ _)⟩)
  | ⟨n,b::bs,[],hb,_⟩ =>
    some (b,⟨n,bs,[],Nat.le_trans (Nat.le_succ _) hb,fun h => absurd rfl h⟩)
  | ⟨n,b::bs,(_,v)::ps,hb,hf⟩ =>
    some (b,⟨n,bs ++ [v],ps,by simpa using hb,fun _ => by simpa using hf (List.cons_ne_nil _ _)⟩)

@[simp] theorem pending_make (n : ℕ) : (make n : Channel ι β).pending = [] := rfl

@[simp] theorem pending_send (c : Channel ι β) (x : ι) (v : β) :
    (c.send x v).pending = c.pending ++ [v] := by
  unfold send
  split
  · next h =>
    have hp : c.parked = [] := by
      by_contra hne
      have := c.full hne
      omega
    simp [pending,hp]
  · simp [pending]

theorem recv_eq_none {c : Channel ι β} : c.recv = none ↔ c.pending = [] := by
  obtain ⟨n,_ | ⟨b,bs⟩,_ | ⟨⟨x,v⟩,ps⟩,hb,hf⟩ := c <;> simp [recv,pending]

theorem pending_recv {c d : Channel ι β} {v : β} (h : c.recv = some (v,d)) :
    c.pending = v::d.pending := by
  obtain ⟨n,_ | ⟨b,bs⟩,_ | ⟨⟨x,u⟩,ps⟩,hb,hf⟩ := c <;> cases h <;> simp [pending]

@[simp] theorem capacity_send (c : Channel ι β) (x : ι) (v : β) :
    (c.send x v).capacity = c.capacity := by
  unfold send
  split <;> rfl

theorem capacity_recv {c d : Channel ι β} {v : β} (h : c.recv = some (v,d)) :
    d.capacity = c.capacity := by
  obtain ⟨n,_ | ⟨b,bs⟩,_ | ⟨⟨x,u⟩,ps⟩,hb,hf⟩ := c <;> cases h <;> rfl

theorem parked_send_le (c : Channel ι β) (x : ι) (v : β) :
    (c.send x v).parked.length ≤ c.parked.length+1 := by
  unfold send
  split
  · exact Nat.le_succ _
  · simp

theorem parked_recv_le {c d : Channel ι β} {v : β} (h : c.recv = some (v,d)) :
    d.parked.length ≤ c.parked.length := by
  obtain ⟨n,_ | ⟨b,bs⟩,_ | ⟨⟨x,u⟩,ps⟩,hb,hf⟩ := c <;> cases h <;> simp

/-- A channel with nothing pending parks nobody. -/
theorem not_waits_of_pending [DecidableEq ι] {c : Channel ι β} (h : c.pending = []) (x : ι) :
    ¬ c.Waits x := by
  obtain ⟨-,hp⟩ := List.append_eq_nil_iff.mp h
  simp [Waits,List.map_eq_nil_iff.mp hp]

/-- What is pending beyond the capacity is parked. -/
theorem pending_le (c : Channel ι β) : c.pending.length ≤ c.capacity+c.parked.length := by
  have hb := c.bounded
  rw [pending,List.length_append,List.length_map]
  omega

end Channel
end TTK4145.Lib
