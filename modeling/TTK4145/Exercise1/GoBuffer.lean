import TTK4145.Lib.Machine
import TTK4145.Lib.Channel

/-! The bounded buffer of `Exercise1/5 - bounded buffer/go/main.go`: a producer that sends the
numbers below a bound and a consumer that receives for ever, over one channel. The bound and the
capacity are parameters. Sleeping is not modelled, since a goroutine may be slow in any case. -/
namespace TTK4145.Exercise1
open Lib

namespace GoBuffer

/-- The producer is at the top of its loop, or past its `Printf` with the send before it. -/
inductive ProducerPc where
  | announce (i : ℕ)
  | send (i : ℕ)
  | returned
  deriving DecidableEq, Repr

inductive ConsumerPc where
  | receive
  | print (i : ℕ)
  deriving DecidableEq, Repr

inductive Goroutine where
  | producer
  | consumer
  deriving DecidableEq, Repr

/-- The lines that the two `Printf` calls write. -/
inductive Line where
  | pushing (i : ℕ)
  | got (i : ℕ)
  deriving DecidableEq, Repr

@[simp] def Line.pushed : Line → Option ℕ
  | pushing i => some i
  | got _ => none

@[simp] def Line.popped : Line → Option ℕ
  | pushing _ => none
  | got i => some i

end GoBuffer

structure GoBuffer where
  ch : Channel Unit ℕ
  producer : GoBuffer.ProducerPc
  consumer : GoBuffer.ConsumerPc
  output : List GoBuffer.Line

namespace GoBuffer

def start (capacity : ℕ) : GoBuffer where
  ch := .make capacity
  producer := .announce 0
  consumer := .receive
  output := []

/-- A producer that is parked on the channel goes on only when its value is taken. -/
def stepProducer (count : ℕ) (s : GoBuffer) : Option GoBuffer :=
  if s.ch.Waits () then none else
    match s.producer with
    | .announce i =>
      if i<count then some {s with producer := .send i, output := s.output ++ [.pushing i]}
      else some {s with producer := .returned}
    | .send i => some {s with producer := .announce (i+1), ch := s.ch.send () i}
    | .returned => none

def stepConsumer (s : GoBuffer) : Option GoBuffer :=
  match s.consumer with
  | .receive => s.ch.recv.map fun (i,c) => {s with consumer := .print i, ch := c}
  | .print i => some {s with consumer := .receive, output := s.output ++ [.got i]}

/-- `main` itself is in an empty `select` and takes no step. -/
def next (count : ℕ) (s : GoBuffer) : Goroutine → Option GoBuffer
  | .producer => s.stepProducer count
  | .consumer => s.stepConsumer

def machine (count capacity : ℕ) : Machine GoBuffer Goroutine where
  init s := s = start capacity
  next := next count

/-- The numbers that the producer's lines name, in order. -/
def pushed (s : GoBuffer) : List ℕ := s.output.filterMap Line.pushed

/-- The numbers that the consumer's lines name, in order. -/
def popped (s : GoBuffer) : List ℕ := s.output.filterMap Line.popped

/-- The numbers whose line the producer has written. -/
def ProducerPc.announced (count : ℕ) : ProducerPc → ℕ
  | announce i => i
  | send i => i+1
  | returned => count

/-- The numbers the producer has sent. -/
def ProducerPc.sent (count : ℕ) : ProducerPc → ℕ
  | announce i => i
  | send i => i
  | returned => count

/-- The number that the consumer has taken and not yet printed. -/
def ConsumerPc.held : ConsumerPc → List ℕ
  | receive => []
  | print i => [i]

variable {count capacity : ℕ} {s t : GoBuffer} {g : Goroutine}
  {tr : List (GoBuffer × Goroutine)}

/-- Every number sent is printed, held by the consumer or pending in the channel, in the order of
the sends. A parked producer has announced no further number. -/
structure Flowing (count capacity : ℕ) (s : GoBuffer) : Prop where
  bounds : s.producer.announced count ≤ count
  pushed : s.pushed = List.range (s.producer.announced count)
  flow : s.popped ++ (s.consumer.held ++ s.ch.pending) = List.range (s.producer.sent count)
  capacity : s.ch.capacity = capacity
  parked : s.ch.parked.length+s.producer.announced count ≤ s.producer.sent count+1

theorem start_flowing : Flowing count capacity (start capacity) where
  bounds := Nat.zero_le _
  pushed := rfl
  flow := rfl
  capacity := rfl
  parked := Nat.zero_le _

theorem parked_of_not_waits (h : ¬ s.ch.Waits ()) : s.ch.parked = [] := by
  by_contra hne
  obtain ⟨⟨u,v⟩,hv⟩ := List.exists_mem_of_ne_nil _ hne
  exact h (List.mem_map.mpr ⟨_,hv,rfl⟩)

theorem stepProducer_flowing (h : Flowing count capacity s) (hs : s.stepProducer count = some t) :
    Flowing count capacity t := by
  have hb := h.bounds
  have hp := h.pushed
  have hf := h.flow
  unfold stepProducer at hs
  split at hs
  · cases hs
  next hw =>
  cases hpc : s.producer with
  | announce i =>
    simp only [hpc,ProducerPc.announced,ProducerPc.sent] at hs hb hp hf
    split at hs
    · next hi =>
      cases hs
      refine ⟨hi,?_,?_,h.capacity,?_⟩
      · rw [GoBuffer.pushed] at hp
        simp [GoBuffer.pushed,ProducerPc.announced,hp,List.range_succ]
      · simpa [GoBuffer.popped,ProducerPc.sent,List.filterMap_cons] using hf
      · simp [ProducerPc.announced,ProducerPc.sent,parked_of_not_waits hw]
    · next hi =>
      cases hs
      have he : i = count := by omega
      subst he
      have hk := h.parked
      rw [hpc] at hk
      exact ⟨Nat.le_refl _,hp,hf,h.capacity,hk⟩
  | send i =>
    simp only [hpc,ProducerPc.announced,ProducerPc.sent] at hs hb hp hf
    cases hs
    refine ⟨hb,hp,?_,by simp [h.capacity],?_⟩
    · change s.popped ++ (s.consumer.held ++ (s.ch.send () i).pending) = List.range (i+1)
      rw [Channel.pending_send,List.range_succ,← hf,List.append_assoc,List.append_assoc]
    · have hsend := s.ch.parked_send_le () i
      rw [parked_of_not_waits hw,List.length_nil] at hsend
      change (s.ch.send () i).parked.length+(i+1) ≤ i+1+1
      omega
  | returned =>
    rw [hpc] at hs
    cases hs

theorem stepConsumer_flowing (h : Flowing count capacity s) (hs : s.stepConsumer = some t) :
    Flowing count capacity t := by
  have hf := h.flow
  unfold stepConsumer at hs
  cases hpc : s.consumer with
  | receive =>
    rw [hpc] at hs hf
    obtain ⟨⟨i,c⟩,hc,rfl⟩ := Option.map_eq_some_iff.mp hs
    rw [Channel.pending_recv hc] at hf
    have hk := Channel.parked_recv_le hc
    exact ⟨h.bounds,h.pushed,hf,(Channel.capacity_recv hc).trans h.capacity,
      Nat.le_trans (Nat.add_le_add_right hk _) h.parked⟩
  | print i =>
    rw [hpc] at hs hf
    cases hs
    refine ⟨h.bounds,?_,?_,h.capacity,h.parked⟩
    · simpa [GoBuffer.pushed,List.filterMap_cons] using h.pushed
    · simpa [GoBuffer.popped,ConsumerPc.held,List.filterMap_cons] using hf

theorem exec_flowing (run : Exec (machine count capacity) tr s) : Flowing count capacity s := by
  apply run.invariant (C := fun _ _ => True)
  · rintro s rfl
    exact start_flowing
  · intro s g t h _ hs
    cases g with
    | producer => exact stepProducer_flowing h hs
    | consumer => exact stepConsumer_flowing h hs
  · exact fun _ _ => trivial

theorem sent_le_announced (count : ℕ) (pc : ProducerPc) : pc.sent count ≤ pc.announced count := by
  cases pc with
  | announce i => exact Nat.le_refl i
  | send i => exact Nat.le_succ i
  | returned => exact Nat.le_refl count

theorem held_le (pc : ConsumerPc) : pc.held.length ≤ 1 := by
  cases pc with
  | receive => exact Nat.zero_le 1
  | print i => exact Nat.le_refl 1

theorem prefix_range {l m : List ℕ} {n : ℕ} (h : l ++ m = List.range n) :
    l = List.range l.length ∧ l.length+m.length = n := by
  have hlen := congrArg List.length h
  rw [List.length_append,List.length_range] at hlen
  have htake := congrArg (List.take l.length) h
  rw [List.take_left,List.take_range,Nat.min_eq_left (by omega)] at htake
  exact ⟨htake,hlen⟩

/-- At every moment the consumer has printed the first numbers and the producer announced the first
numbers, each before the consumer prints it, and never more ahead than the channel's room, the
number the consumer holds and the one the producer is about to send or parked with. -/
theorem output_window (run : Exec (machine count capacity) tr s) :
    ∃ k m, s.popped = List.range k ∧ s.pushed = List.range m ∧ k ≤ m ∧ m ≤ k+capacity+2 ∧
      m ≤ count := by
  have h := exec_flowing run
  obtain ⟨hpop,hlen⟩ := prefix_range h.flow
  have hsent := sent_le_announced count s.producer
  have hheld := held_le s.consumer
  have hpend := s.ch.pending_le
  have hpark := h.parked
  rw [h.capacity] at hpend
  rw [List.length_append] at hlen
  exact ⟨_,_,hpop,h.pushed,by omega,by omega,h.bounds⟩

/-- What each part still has to do for every number: a line, a send, a receive and a line. -/
def left (count : ℕ) (s : GoBuffer) : ℕ :=
  (match s.producer with
    | .announce i => 4*(count-i)+1
    | .send i => 4*(count-i)
    | .returned => 0)+
  2*s.ch.pending.length+s.consumer.held.length

theorem stepProducer_left (h : Flowing count capacity s) (hs : s.stepProducer count = some t) :
    left count t<left count s := by
  have hb := h.bounds
  unfold stepProducer at hs
  split at hs
  · cases hs
  cases hpc : s.producer with
  | announce i =>
    simp only [hpc] at hs
    split at hs <;> cases hs <;> simp only [left,hpc] <;> omega
  | send i =>
    simp only [hpc,ProducerPc.announced] at hs hb
    cases hs
    simp only [left,hpc,Channel.pending_send,List.length_append,List.length_singleton]
    omega
  | returned =>
    rw [hpc] at hs
    cases hs

theorem stepConsumer_left (hs : s.stepConsumer = some t) : left count t<left count s := by
  unfold stepConsumer at hs
  cases hpc : s.consumer with
  | receive =>
    rw [hpc] at hs
    obtain ⟨⟨i,c⟩,hc,rfl⟩ := Option.map_eq_some_iff.mp hs
    have hpend := congrArg List.length (Channel.pending_recv hc)
    rw [List.length_cons] at hpend
    simp only [left,hpc,hpend,ConsumerPc.held,List.length_nil,List.length_singleton]
    omega
  | print i =>
    rw [hpc] at hs
    cases hs
    simp only [left,hpc,ConsumerPc.held,List.length_nil,List.length_singleton]
    omega

/-- With nothing enabled the consumer waits on an empty channel and the producer has returned. -/
theorem asleep_of_stuck (hs : (machine count capacity).Stuck s) :
    s.producer = .returned ∧ s.consumer = .receive ∧ s.ch.pending = [] := by
  have hcons : s.stepConsumer = none := hs .consumer
  have hprod : s.stepProducer count = none := hs .producer
  unfold stepConsumer at hcons
  split at hcons
  · next hpc =>
    have hpend := Channel.recv_eq_none.mp (Option.map_eq_none_iff.mp hcons)
    unfold stepProducer at hprod
    rw [if_neg (Channel.not_waits_of_pending hpend ())] at hprod
    split at hprod
    · split at hprod <;> cases hprod
    · cases hprod
    · next hr => exact ⟨hr,hpc,hpend⟩
  · cases hcons

/-- Every run comes, within a fixed number of steps, to where all goroutines are asleep, and by then
every number has been announced and printed, in order: the program never returns and loses
nothing. -/
theorem goBuffer_ends : (machine count capacity).EndsIn
    (fun s => s.producer = .returned ∧ s.consumer = .receive ∧ s.pushed = List.range count ∧
      s.popped = List.range count)
    (4*count+1) where
  bounded tr s run := by
    have h := run.length_add_le (I := Flowing count capacity) (m := left count) (n := 4*count+1)
      (fun s hs => ⟨hs ▸ start_flowing,hs ▸ Nat.le_refl _⟩)
      (fun s g t h hn => by
        cases g with
        | producer => exact ⟨stepProducer_flowing h hn,stepProducer_left h hn⟩
        | consumer => exact ⟨stepConsumer_flowing h hn,stepConsumer_left hn⟩)
    omega
  ends tr s run hs := by
    have h := exec_flowing run
    obtain ⟨hp,hc,hpend⟩ := asleep_of_stuck hs
    have hpush := h.pushed
    have hf := h.flow
    rw [hp] at hpush hf
    rw [hc,hpend] at hf
    exact ⟨hp,hc,hpush,by simpa [ConsumerPc.held,ProducerPc.sent] using hf⟩

/-- An unbuffered channel and one number: the producer is parked until the consumer takes it. -/
theorem output_window_unbuffered : ∃ tr, ∃ s, Exec (machine 1 0) tr s ∧
    s.output = [.pushing 0,.got 0] ∧ ∃ k m, s.popped = List.range k ∧ s.pushed = List.range m ∧
      k ≤ m ∧ m ≤ k+0+2 ∧ m ≤ 1 := by
  obtain ⟨s,hs,hout⟩ : ∃ s, (machine 1 0).run (start 0) [.producer,.producer,.consumer,.consumer] =
      some s ∧ s.output = [.pushing 0,.got 0] := ⟨_,rfl,rfl⟩
  have run := Exec.of_run rfl hs
  exact ⟨_,s,run,hout,output_window run⟩

end GoBuffer
end TTK4145.Exercise1
