import TTK4145.Exercise1.BufferProgramRuns

/-! How the bounded buffer's program ends: always, and in a use of freed memory exactly when the
consumer is past its wait at the time `main` goes on to `buf_destroy`. -/
namespace TTK4145.Exercise1
open Lib
variable {count size : ℕ} {mem : List Int32} {s u : BufferProgram} {t : BufParty}
  {c : BufCall} {stmt : BufStmt} {b : BoundedBuffer BufParty} {rb : RingBuffer} {th : BufThread}
  {tr : List (BufferProgram × BufProgramAction)}

/-- The statements of a call from one on. -/
def BufStmt.left : BufStmt → ℕ
  | .wait => 8
  | .lock => 7
  | .check => 6
  | .access => 5
  | .index => 4
  | .length => 3
  | .unlock => 2
  | .post => 1

/-- The statements of a thread's call that are left. -/
def BufThread.left (th : BufThread) : ℕ :=
  match th.pc with
  | .idle => 0
  | .inside _ stmt => stmt.left

/-- The steps that the producer has before it at most. -/
def producerLeft (count : ℕ) (th : BufThread) : ProducerPc → ℕ
  | .absent => 12*count+13
  | .loop i => 12*(count-i)+12
  | .sleep i => 12*(count-i)+11
  | .report i => 12*(count-i)+10
  | .push i => 12*(count-i)+th.left
  | .returned => 0

/-- The steps that the consumer has before it at most, when `left` values are to be popped. A pop
takes its value two statements before its end. -/
def consumerLeft (left : ℕ) (th : BufThread) : ConsumerPc → ℕ
  | .absent => 12*left+10
  | .enterSleep => 12*left+9
  | .sleeping => 12*left+8
  | .enterWait => 12*left+7
  | .pop => 12*left+if th.posting then th.left+10 else th.left-2
  | .report _ => 12*left+10
  | .cancelled => 0

def BufferProgram.left (count : ℕ) (s : BufferProgram) : ℕ :=
  s.main.left+producerLeft count (s.shared.thread .producer) s.producer+
    consumerLeft (count-s.shared.popped.length) (s.shared.thread .consumer) s.consumer+
    (!s.fault).toNat

section Measure

theorem ProgramInv.main_left (h : ProgramInv count size s) (hn : s.stepMain = some u) :
    u.left count<s.left count := by
  unfold BufferProgram.stepMain at hn
  cases hm : s.main with
  | createProducer =>
    rw [hm] at hn
    cases hn
    simp only [BufferProgram.left,hm,h.created.mpr hm,producerLeft,BufMainPc.left,Nat.sub_zero]
    omega
  | createConsumer =>
    have ha := h.started.mpr (by rw [hm]; decide)
    rw [hm] at hn
    cases hn
    simp only [BufferProgram.left,hm,ha,consumerLeft,BufMainPc.left]
    omega
  | join =>
    rw [hm] at hn
    simp only at hn
    split_ifs at hn
    cases hn
    simp only [BufferProgram.left,hm,BufMainPc.left]
    omega
  | cancel | destroyRing | destroyMutex | destroyNumElements | destroyCapacity | free =>
    rw [hm] at hn
    cases hn
    simp only [BufferProgram.left,hm,BufMainPc.left]
    omega
  | returned =>
    rw [hm] at hn
    cases hn

theorem BufThread.left_after (hpc : th.pc = stmt.after c) : th.left+1 = stmt.left := by
  cases stmt <;> simp [left,hpc,BufStmt.after,BufStmt.succ,BufStmt.left]

theorem ProgramInv.producer_left (h : ProgramInv count size s)
    (hn : s.stepProducer count = some u) : u.left count<s.left count := by
  have hp := h.producer
  unfold BufferProgram.stepProducer at hn
  cases hpc : s.producer with
  | absent | returned =>
    rw [hpc] at hn
    cases hn
  | loop i =>
    rw [hpc] at hn hp
    cases hn
    simp only [BufferProgram.left,hpc]
    split_ifs <;> simp only [producerLeft] <;> omega
  | sleep i =>
    rw [hpc] at hn
    cases hn
    simp only [BufferProgram.left,hpc,producerLeft]
    omega
  | report i =>
    rw [hpc] at hn
    cases hn
    have hother : (s.shared.setPc .producer (.inside (.push (.ofNat i)) .wait)).thread .consumer =
        s.shared.thread .consumer := setPc_thread_ne (by decide) _
    have hown : ((s.shared.setPc .producer (.inside (.push (.ofNat i)) .wait)).thread
        .producer).left = 8 := by
      simp [BufThread.left,BoundedBuffer.setPc,BoundedBuffer.set,BufStmt.left]
    simp only [BufferProgram.left,BufferProgram.begin,hpc,producerLeft,hother,hown]
    exact Nat.add_lt_add_right (Nat.add_lt_add_right (by omega) _) _
  | push i =>
    rw [hpc] at hn hp
    obtain ⟨v,hv,rfl⟩ := Option.map_eq_some_iff.mp hn
    obtain ⟨c,stmt,b,hat,hcall,rfl⟩ := stepBuffer_cases hv
    obtain ⟨rb,hrb⟩ := h.buffer
    obtain ⟨-,hs⟩ := hrb.statement hat hcall
    obtain ⟨hi,⟨stmt',hat'⟩,-⟩ := hp
    rw [hat,BufPc.inside.injEq] at hat'
    obtain ⟨rfl,rfl⟩ := hat'
    have hleft := BufThread.left_after hs.pc
    have hold : (s.shared.thread .producer).left = stmt.left := by rw [BufThread.left,hat]
    have hother := hs.other .consumer (by decide)
    simp only
    split_ifs with hidle
    · have hzero : (b.thread .producer).left = 0 := by rw [BufThread.left,hidle]
      simp only [BufferProgram.left,hpc,producerLeft,hother,hs.popped_push]
      omega
    · simp only [BufferProgram.left,hpc,producerLeft,hother,hs.popped_push]
      omega

/-- A pop that has not taken its value yet finds one that is pushed. -/
theorem ProgramInv.popped_lt (h : ProgramInv count size s)
    (ht : (s.shared.thread .consumer).holdsItem = true) : s.shared.popped.length<count := by
  obtain ⟨rb,hrb⟩ := h.buffer
  obtain ⟨k,hk,hpushed⟩ := h.producer.pushed_eq
  have hpos := hrb.length_pos ht
  have hlen := congrArg List.length hrb.history
  rw [hpushed,length_pushedValues,List.length_append,List.length_map,
    RingBuffer.length_contents] at hlen
  omega

theorem ProgramInv.consumer_left (h : ProgramInv count size s) (hover : ¬s.Over)
    (hn : s.stepConsumer = some u) : u.left count<s.left count := by
  have hc := h.consumer
  unfold BufferProgram.stepConsumer at hn
  cases hpc : s.consumer with
  | absent | cancelled =>
    rw [hpc] at hn
    cases hn
  | enterSleep =>
    rw [hpc] at hn
    simp only at hn
    split_ifs at hn
    cases hn
    simp only [BufferProgram.left,hpc,consumerLeft]
    omega
  | sleeping =>
    rw [hpc] at hn
    cases hn
    simp only [BufferProgram.left,hpc,consumerLeft]
    omega
  | enterWait =>
    rw [hpc] at hn
    simp only at hn
    split_ifs at hn
    cases hn
    have hother : (s.shared.setPc .consumer (.inside .pop .wait)).thread .producer =
        s.shared.thread .producer := setPc_thread_ne (by decide) _
    have hown : ((s.shared.setPc .consumer (.inside .pop .wait)).thread .consumer).pc =
        .inside .pop .wait := by
      simp [BoundedBuffer.setPc,BoundedBuffer.set]
    have hpopped : (s.shared.setPc .consumer (.inside .pop .wait)).popped = s.shared.popped := rfl
    simp [BufferProgram.left,BufferProgram.begin,hpc,consumerLeft,hother,hpopped,BufThread.left,
      BufThread.posting,hown,BufStmt.left]
  | pop =>
    rw [hpc] at hn hc
    simp only at hn
    split_ifs at hn
    · cases hn
      have hf : s.fault = false := by
        by_contra hf
        exact hover (.inr (.inr (by simpa using hf)))
      simp [BufferProgram.left,hpc,hf]
    · obtain ⟨v,hv,rfl⟩ := Option.map_eq_some_iff.mp hn
      obtain ⟨c,stmt,b,hat,hcall,rfl⟩ := stepBuffer_cases hv
      obtain ⟨rb,hrb⟩ := h.buffer
      obtain ⟨-,hs⟩ := hrb.statement hat hcall
      obtain ⟨⟨stmt',hat'⟩,-⟩ := hc
      rw [hat,BufPc.inside.injEq] at hat'
      obtain ⟨rfl,rfl⟩ := hat'
      have hpc' := hs.pc
      have hother := hs.other .producer (by decide)
      have hpopped := congrArg List.length hs.popped
      cases stmt with
      | post =>
        have hidle : (b.thread .consumer).pc = .idle := hpc'
        simp only [hidle,if_true]
        simp [BufferProgram.left,hpc,consumerLeft,hother,hpopped,BufThread.left,BufThread.posting,
          hat,BufStmt.left]
      | length =>
        have hlt := h.popped_lt (BufThread.holds_pop hat rfl).2
        have hunlock : (b.thread .consumer).pc = .inside .pop .unlock := hpc'
        simp [hunlock,BufferProgram.left,hpc,consumerLeft,hother,hpopped,BufThread.left,
          BufThread.posting,hat,BufStmt.left,BufCall.pops]
        omega
      | wait | lock | check | access | index | unlock =>
        simp [hpc',BufStmt.after,BufStmt.succ,BufferProgram.left,hpc,consumerLeft,hother,hpopped,
          BufThread.left,BufThread.posting,hat,BufStmt.left]
  | report val =>
    rw [hpc] at hn
    cases hn
    simp only [BufferProgram.left,hpc,consumerLeft]
    omega

theorem cancelled_left (hn : s.stepCancelled = some u) : u.left count<s.left count := by
  unfold BufferProgram.stepCancelled at hn
  split_ifs at hn with ha
  obtain ⟨-,hat⟩ := ha
  cases hn
  unfold BufferProgram.Cancellable at hat
  cases hpc : s.consumer with
  | absent | cancelled =>
    rw [hpc] at hat
    exact hat.elim
  | pop =>
    rw [hpc] at hat
    have hleft : (s.shared.thread .consumer).posting = false := by
      simp only [BufThread.posting,hat]
    simp [BufferProgram.left,hpc,consumerLeft,hleft,BufThread.left,hat,BufStmt.left]
  | enterSleep | sleeping | enterWait | report =>
    simp only [BufferProgram.left,hpc,consumerLeft]
    omega

theorem ProgramInv.next_left {a : BufProgramAction} (h : ProgramInv count size s)
    (hn : s.next count a = some u) : u.left count<s.left count := by
  unfold BufferProgram.next at hn
  split_ifs at hn with hover
  cases a with
  | main => exact h.main_left hn
  | producer => exact h.producer_left hn
  | consumer => exact h.consumer_left hover hn
  | cancelled => exact cancelled_left hn

end Measure

section End

/-- A thread in a call that cannot go on, while the other one cannot either, is at its wait. -/
theorem BufInv.blocked (h : BufInv size b rb)
    (hblocked : ∀ t, (b.thread t).pc = .idle ∨
      ∃ c stmt, (b.thread t).pc = .inside c stmt ∧ b.stepCall t c stmt = none) (t : BufParty) :
    (boundedBuffer size mem).next b (.step t) = none := by
  simp only [boundedBuffer,h.safe,Bool.false_eq_true,if_false]
  obtain hpc | ⟨c,stmt,hpc,hn⟩ := hblocked t
  · rw [hpc]
  · rw [hpc]
    exact hn

/-- The two threads are never both blocked: the buffer would have to be full and empty. -/
theorem BufInv.not_blocked (h : BufInv size b rb) (hsize : 1 ≤ size) {c c' : BufCall}
    {stmt stmt' : BufStmt} (hp : (b.thread .producer).pc = .inside c stmt) (hpush : c.isPush = true)
    (hc : (b.thread .consumer).pc = .inside c' stmt') (hpop : c'.isPush = false)
    (hnp : b.stepCall .producer c stmt = none) (hnc : b.stepCall .consumer c' stmt' = none) :
    False := by
  have hblocked : ∀ t, (boundedBuffer size []).next b (.step t) = none := by
    refine h.blocked fun t => .inr ?_
    cases t with
    | producer => exact ⟨c,stmt,hp,hnp⟩
    | consumer => exact ⟨c',stmt',hc,hnc⟩
  have hsettled := h.settled hblocked
  have hat : ∀ t c stmt, (b.thread t).pc = .inside c stmt → (b.thread t).pc = .inside c .wait := by
    intro t c stmt hpc
    obtain hi | ⟨d,hw⟩ := hsettled t
    · rw [hi] at hpc
      cases hpc
    · rw [hw,BufPc.inside.injEq] at hpc
      rw [hw,hpc.1]
  have hcapacity := (h.blocked_wait hblocked (hat _ _ _ hp)).1 hpush
  have hvalues := (h.blocked_wait hblocked (hat _ _ _ hc)).2 hpop
  obtain ⟨n,hn,hs⟩ := h.slots
  obtain ⟨m,hm,hi⟩ := h.items
  have := hn.eq_zero fun t => (hsettled t).not_holding.1
  have := hm.eq_zero fun t => (hsettled t).not_holding.2
  omega

theorem stepBuffer_none (h : s.stepBuffer t = none) (hpc : (s.shared.thread t).pc = .inside c stmt) :
    s.shared.stepCall t c stmt = none := by
  unfold BufferProgram.stepBuffer at h
  rw [hpc] at h
  exact Option.map_eq_none_iff.mp h

/-- As long as the program is not over, some thread of it can go on. -/
theorem ProgramInv.ends (h : ProgramInv count size s) (hsize : 1 ≤ size)
    (hstuck : (bufferProgram count size mem).Stuck s) : s.main = .returned ∨ s.fault = true := by
  by_contra hgoing
  rw [not_or] at hgoing
  obtain ⟨rb,hrb⟩ := h.buffer
  have hover : ¬s.Over := by
    rintro (ha | hm | hf)
    · rw [hrb.safe] at ha
      cases ha
    · exact hgoing.1 hm
    · exact hgoing.2 hf
  have hnext : ∀ a, s.next count a = none := hstuck
  simp only [BufferProgram.next,hover,if_false] at hnext
  have hmain : s.stepMain = none := hnext .main
  have hproducer : s.stepProducer count = none := hnext .producer
  have hconsumer : s.stepConsumer = none := hnext .consumer
  -- `main` waits for the producer
  obtain ⟨hjoin,hnr⟩ : s.main = .join ∧ s.producer ≠ .returned := by
    unfold BufferProgram.stepMain at hmain
    cases hm : s.main <;> simp_all
  have hcreated : s.producer ≠ .absent := by
    intro ha
    rw [h.created.mp ha] at hjoin
    cases hjoin
  have hstarted : s.consumer ≠ .absent := by
    intro ha
    have := h.started.mp ha
    rw [hjoin] at this
    exact absurd this (Nat.lt_irrefl _)
  have hnotCancelled : ¬s.Cancelled := by
    rw [BufferProgram.Cancelled,hjoin]
    decide
  have hnotFreed : ¬s.RingFreed := by
    rw [BufferProgram.RingFreed,hjoin]
    decide
  -- so both threads are inside of their calls
  obtain ⟨i,hpush⟩ : ∃ i, s.producer = .push i := by
    unfold BufferProgram.stepProducer at hproducer
    cases hp : s.producer <;> simp_all
  have hpop : s.consumer = .pop := by
    unfold BufferProgram.stepConsumer at hconsumer
    cases hc : s.consumer with
    | pop => rfl
    | absent => exact absurd hc hstarted
    | cancelled => exact absurd (h.cancelled hc) hnotCancelled
    | enterSleep | enterWait | sleeping | report =>
      rw [hc] at hconsumer
      simp [hnotCancelled] at hconsumer
  have hp := h.producer
  have hc := h.consumer
  rw [hpush] at hp
  rw [hpop] at hc
  obtain ⟨-,⟨stmt,hpstmt⟩,-⟩ := hp
  obtain ⟨⟨stmt',hcstmt⟩,-⟩ := hc
  simp only [BufferProgram.stepProducer,hpush,Option.map_eq_none_iff] at hproducer
  simp only [BufferProgram.stepConsumer,hpop,hnotFreed,false_and,if_false,
    Option.map_eq_none_iff] at hconsumer
  exact hrb.not_blocked hsize hpstmt rfl hcstmt rfl (stepBuffer_none hproducer hpstmt)
    (stepBuffer_none hconsumer hcstmt)

/-- Whatever the interleaving, the program ends: `main` returns, or the ring is used after it has
been freed. -/
theorem program_ends (hsize : 1 ≤ size) (hmem : mem.length = size) :
    (bufferProgram count size mem).EndsIn (fun s => s.main = .returned ∨ s.fault = true)
      (24*count+33) where
  bounded tr s run := by
    have hlen := (run.length_add_le (I := ProgramInv count size) (m := BufferProgram.left count)
      (n := 24*count+33) ?_ ?_).2
    · omega
    · rintro s rfl
      refine ⟨programInv_start hsize hmem,?_⟩
      simp only [BufferProgram.left,BufferProgram.start,producerLeft,consumerLeft,BufMainPc.left,
        List.length_nil,Nat.sub_zero,Bool.not_false,Bool.toNat_true]
      omega
    · exact fun s a u h hn => ⟨h.next hn,h.next_left hn⟩
  ends tr s run hstuck := (ProgramInv.run hsize hmem run).ends hsize hstuck

theorem program_ends_one : (bufferProgram 1 1 [0]).Reaches
    (fun s => s.main = .returned ∨ s.fault = true) (.start 1 [0]) := by
  have h : (bufferProgram 1 1 [0]).EndsIn _ _ := program_ends (by decide) rfl
  exact h.reaches (.init rfl)

end End

section Freed

/-- The consumer is in `rb_pop` or will come to it: it is at the lock, or at its wait with a value
there. -/
def BufferProgram.ComesToRing (s : BufferProgram) : Prop :=
  s.consumer = .pop ∧ match (s.shared.thread .consumer).pc with
    | .inside _ stmt => stmt.working = true ∨ stmt = .wait ∧ 0<s.shared.numElements
    | .idle => False

/-- The producer is gone, the consumer has been cancelled, and it will not come to the ring. -/
structure Quiet (count size : ℕ) (s : BufferProgram) : Prop where
  inv : ProgramInv count size s
  main : s.main.left<BufMainPc.cancel.left
  away : ¬s.ComesToRing
  unused : s.fault = false

theorem Quiet.consumer (h : Quiet count size s) (hn : s.stepConsumer = some u) :
    Quiet count size u := by
  have hcancelled : s.Cancelled := h.main
  have hi := h.inv.consumerStep hn
  unfold BufferProgram.stepConsumer at hn
  cases hpc : s.consumer with
  | absent | cancelled =>
    rw [hpc] at hn
    cases hn
  | enterSleep | enterWait =>
    rw [hpc] at hn
    simp [hcancelled] at hn
  | sleeping =>
    rw [hpc] at hn
    cases hn
    exact ⟨hi,h.main,by simp [BufferProgram.ComesToRing],h.unused⟩
  | report val =>
    rw [hpc] at hn
    cases hn
    exact ⟨hi,h.main,by simp [BufferProgram.ComesToRing],h.unused⟩
  | pop =>
    have hc := h.inv.consumer
    have haway := h.away
    rw [hpc] at hn hc
    obtain ⟨⟨stmt,hat⟩,-⟩ := hc
    simp only [BufferProgram.ComesToRing,hpc,hat,true_and,not_or,Bool.not_eq_true,not_and,
      Nat.not_lt] at haway
    have hring : s.atRing .consumer = false := by
      rw [BufferProgram.atRing,hat]
      cases stmt <;> first | rfl | cases haway.1
    simp only [hring,Bool.false_eq_true,and_false,if_false] at hn
    obtain ⟨v,hv,rfl⟩ := Option.map_eq_some_iff.mp hn
    obtain ⟨c,stmt',b,hat',hcall,rfl⟩ := stepBuffer_cases hv
    rw [hat,BufPc.inside.injEq] at hat'
    obtain ⟨rfl,rfl⟩ := hat'
    obtain ⟨rb,hrb⟩ := h.inv.buffer
    obtain ⟨-,hs⟩ := hrb.statement hat hcall
    have hpc' := hs.pc
    cases stmt with
    | lock | check | access | index | length => cases haway.1
    | wait =>
      have hempty := haway.2 rfl
      simp only [BoundedBuffer.stepCall,BoundedBuffer.stepWait] at hcall
      split_ifs at hcall
      omega
    | unlock =>
      have hpost : (b.thread .consumer).pc = .inside .pop .post := hpc'
      simp only [hpost,reduceCtorEq,if_false] at hi ⊢
      refine ⟨hi,h.main,?_,h.unused⟩
      simp [BufferProgram.ComesToRing,hpost,BufStmt.working]
    | post =>
      have hidle : (b.thread .consumer).pc = .idle := hpc'
      simp only [hidle,if_true] at hi ⊢
      exact ⟨hi,h.main,by simp [BufferProgram.ComesToRing],h.unused⟩

theorem Quiet.next {a : BufProgramAction} (h : Quiet count size s)
    (hn : s.next count a = some u) : Quiet count size u := by
  have hi := h.inv.next hn
  have hreturned := h.inv.joined (h.main.trans (by decide))
  unfold BufferProgram.next at hn
  split_ifs at hn
  cases a with
  | main =>
    have hmain := h.main
    simp only [BufferProgram.stepMain] at hn
    cases hm : s.main <;> rw [hm] at hn hmain <;> simp [BufMainPc.left] at hn hmain
    all_goals
      subst hn
      exact ⟨hi,by simp [BufMainPc.left],h.away,h.unused⟩
  | producer =>
    simp [BufferProgram.stepProducer,hreturned] at hn
  | consumer => exact h.consumer hn
  | cancelled =>
    simp only [BufferProgram.stepCancelled] at hn
    split_ifs at hn
    cases hn
    exact ⟨hi,h.main,by simp [BufferProgram.ComesToRing],h.unused⟩

theorem ProgramInv.not_over (h : ProgramInv count size s) (hmain : s.main ≠ .returned)
    (hunused : s.fault = false) : ¬s.Over := by
  obtain ⟨rb,hrb⟩ := h.buffer
  rintro (ha | hm | hf)
  · rw [hrb.safe] at ha
    cases ha
  · exact hmain hm
  · rw [hunused] at hf
    cases hf

/-- A step of the consumer to another statement of its call. -/
theorem consumer_goes {stmt' : BufStmt} (hover : ¬s.Over) (hpop : s.consumer = .pop)
    (hat : (s.shared.thread .consumer).pc = .inside .pop stmt) (hring : stmt.usesRing = false)
    (hcall : s.shared.stepCall .consumer .pop stmt = some b)
    (hpc : (b.thread .consumer).pc = .inside .pop stmt') :
    (bufferProgram count size mem).next s .consumer = some {s with shared := b} := by
  simp only [bufferProgram,BufferProgram.next,hover,if_false,BufferProgram.stepConsumer,hpop,
    BufferProgram.atRing,hat,hring,Bool.false_eq_true,and_false,BufferProgram.stepBuffer,hcall,
    Option.map_some,hpc,reduceCtorEq]

/-- The consumer in the middle of `rb_pop`. -/
theorem ring_use_reaches (hover : ¬s.Over) (hfreed : s.RingFreed) (hpop : s.consumer = .pop)
    (hat : (s.shared.thread .consumer).pc = .inside .pop stmt) (hring : stmt.usesRing = true) :
    (bufferProgram count size mem).Reaches (fun u => u.fault = true) s := by
  have hn : (bufferProgram count size mem).next s .consumer = some {s with fault := true} := by
    simp only [bufferProgram,BufferProgram.next,hover,if_false,BufferProgram.stepConsumer,hpop,
      BufferProgram.atRing,hat,hring,hfreed,and_self,if_true]
  exact .step hn (.here rfl)

/-- The consumer before the lock, which nobody else holds. -/
theorem ProgramInv.lock_reaches (h : ProgramInv count size s) (hmain : s.main ≠ .returned)
    (hunused : s.fault = false) (hfreed : s.RingFreed) (hpop : s.consumer = .pop)
    (hat : (s.shared.thread .consumer).pc = .inside .pop .lock) :
    (bufferProgram count size mem).Reaches (fun u => u.fault = true) s := by
  have hover := h.not_over hmain hunused
  have hp := h.producer
  rw [h.joined (hfreed.trans (by decide))] at hp
  obtain ⟨rb,hrb⟩ := h.buffer
  have hfree : s.shared.mtx = none := by
    cases ho : s.shared.mtx with
    | none => rfl
    | some t =>
      have hcrit := (hrb.mutex t).mpr ho
      cases t with
      | producer => simp [BufThread.critical,hp.1] at hcrit
      | consumer => simp [BufThread.critical,hat] at hcrit
  have hcall : s.shared.stepCall .consumer .pop .lock =
      some {s.shared.setPc .consumer (.inside .pop .check) with mtx := some .consumer} :=
    if_pos hfree
  obtain ⟨⟨rb',hrb'⟩,hs⟩ := hrb.statement hat hcall
  have hn : (bufferProgram count size mem).next s .consumer = some _ :=
    consumer_goes hover hpop hat rfl hcall hs.pc
  exact .step hn (ring_use_reaches ((h.next (a := .consumer) hn).not_over hmain hunused) hfreed hpop
    hs.pc rfl)

/-- With the ring freed, such a consumer uses it. -/
theorem ProgramInv.uses_freed (h : ProgramInv count size s) (hmain : s.main ≠ .returned)
    (hunused : s.fault = false) (hfreed : s.RingFreed) (hpast : s.ComesToRing) :
    (bufferProgram count size mem).Reaches (fun u => u.fault = true) s := by
  have hover := h.not_over hmain hunused
  have hc := h.consumer
  obtain ⟨hpop,hat⟩ := hpast
  rw [hpop] at hc
  obtain ⟨⟨stmt,hpc⟩,-⟩ := hc
  simp only [hpc] at hat
  cases stmt with
  | check | access | index | length => exact ring_use_reaches hover hfreed hpop hpc rfl
  | lock => exact h.lock_reaches hmain hunused hfreed hpop hpc
  | unlock | post => simp [BufStmt.working] at hat
  | wait =>
    have hvalue : 0<s.shared.numElements := by simpa [BufStmt.working] using hat
    have hcall : s.shared.stepCall .consumer .pop .wait =
        some {s.shared.setPc .consumer (.inside .pop .lock) with
          numElements := s.shared.numElements-1} := if_pos hvalue
    obtain ⟨rb,hrb⟩ := h.buffer
    obtain ⟨-,hs⟩ := hrb.statement hpc hcall
    have hn : (bufferProgram count size mem).next s .consumer = some _ :=
      consumer_goes hover hpop hpc rfl hcall hs.pc
    exact .step hn ((h.next (a := .consumer) hn).lock_reaches hmain hunused hfreed hpop hs.pc)

/-- When `main` goes on to `buf_destroy`, the ring may still be used after it has been freed exactly
if the consumer is in `rb_pop` or will come to it: `main` has cancelled it, but does not join it. -/
theorem reaches_use_after_free_iff (hsize : 1 ≤ size) (hmem : mem.length = size)
    (run : Exec (bufferProgram count size mem) tr s) (hmain : s.main = .destroyRing)
    (hunused : s.fault = false) :
    (bufferProgram count size mem).Reaches (fun u => u.fault = true) s ↔ s.ComesToRing := by
  have h := ProgramInv.run hsize hmem run
  constructor
  · intro hreach
    by_contra haway
    obtain ⟨u,hu,hf⟩ := hreach.invariant (I := Quiet count size)
      ⟨h,by rw [hmain]; decide,haway,hunused⟩ fun s a t hs hn => hs.next hn
    rw [hu.unused] at hf
    cases hf
  · intro hpast
    have hover := h.not_over (by rw [hmain]; nofun) hunused
    have hn : (bufferProgram count size mem).next s .main =
        some {s with main := .destroyMutex} := by
      simp only [bufferProgram,BufferProgram.next,hover,if_false,BufferProgram.stepMain,hmain]
    refine .step hn ((h.next (a := .main) hn).uses_freed nofun hunused ?_ hpast)
    simp [BufferProgram.RingFreed,BufMainPc.left]

/-- The producer is joined and the consumer cancelled while it is in `buf_pop`. -/
def cancelledInPopActions : List BufProgramAction :=
  [.main,.main] ++ List.replicate 12 .producer ++ List.replicate 4 .consumer ++ [.main,.main]

theorem reaches_use_after_free_iff_inPop : ∃ tr, ∃ s : BufferProgram,
    Exec (bufferProgram 1 1 [0]) tr s ∧ s.main = .destroyRing ∧
    (bufferProgram 1 1 [0]).Reaches (fun u => u.fault = true) s := by
  have hv : ((bufferProgram 1 1 [0]).run (.start 1 [0]) cancelledInPopActions).map (fun s =>
      (s.main,s.fault,s.consumer,(s.shared.thread .consumer).pc)) =
      some (.destroyRing,false,.pop,.inside .pop .lock) := by decide
  obtain ⟨s,hs,hr⟩ := Option.map_eq_some_iff.mp hv
  simp only [Prod.mk.injEq] at hr
  obtain ⟨hmain,hunused,hpop,hpc⟩ := hr
  have run : Exec (bufferProgram 1 1 [0]) _ s := Exec.of_run rfl hs
  refine ⟨_,s,run,hmain,(reaches_use_after_free_iff (by decide) rfl run hmain hunused).mpr ?_⟩
  exact ⟨hpop,by rw [hpc]; exact .inl rfl⟩

end Freed

end TTK4145.Exercise1
