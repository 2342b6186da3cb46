import TTK4145.Exercise1.BufferProgram

/-! What every run of the bounded buffer's program does: the consumer prints the first values in
their order, the program ends, and only a consumer that is past its wait when it is cancelled may
use the ring behind `buf_destroy`. -/
namespace TTK4145.Exercise1
open Lib
variable {count size : ℕ} {mem : List Int32} {s u : BufferProgram} {t : BufParty}
  {c : BufCall} {stmt : BufStmt} {b : BoundedBuffer BufParty} {rb : RingBuffer} {th : BufThread}

/-- The first values that the producer pushes. -/
def pushedValues (n : ℕ) : List Int32 := (List.range n).map Int32.ofNat

@[simp] theorem length_pushedValues (n : ℕ) : (pushedValues n).length = n := by
  simp [pushedValues]

theorem pushedValues_succ (n : ℕ) : pushedValues (n+1) = pushedValues n ++ [.ofNat n] := by
  simp [pushedValues,List.range_succ]

theorem pushedValues_prefix {n m : ℕ} (h : n ≤ m) : pushedValues n <+: pushedValues m := by
  obtain ⟨k,rfl⟩ := Nat.exists_eq_add_of_le h
  rw [pushedValues,pushedValues,List.range_add,List.map_append]
  exact List.prefix_append _ _

/-- The producer's place in its loop, and what it has pushed. -/
def ProducerAt (count : ℕ) (th : BufThread) (pushed : List Int32) : ProducerPc → Prop
  | .absent => th.pc = .idle ∧ pushed = []
  | .loop i => i ≤ count ∧ th.pc = .idle ∧ pushed = pushedValues i
  | .sleep i | .report i => i<count ∧ th.pc = .idle ∧ pushed = pushedValues i
  | .push i => i<count ∧ (∃ stmt, th.pc = .inside (.push (.ofNat i)) stmt) ∧
      pushed = pushedValues (i+th.posting.toNat)
  | .returned => th.pc = .idle ∧ pushed = pushedValues count

/-- The consumer's place in its loop, and what it has printed of its results. -/
def ConsumerAt (th : BufThread) (printed : List Int32) : ConsumerPc → Prop
  | .absent => th.pc = .idle ∧ th.results = [] ∧ printed = []
  | .enterSleep | .sleeping | .enterWait => th.pc = .idle ∧ printed = th.results
  | .pop => (∃ stmt, th.pc = .inside .pop stmt) ∧ printed = th.results
  | .report val => th.pc = .idle ∧ th.results = printed ++ [val]
  | .cancelled => (th.pc = .idle ∨ th.pc = .inside .pop .wait) ∧
      ∃ last, last.length ≤ 1 ∧ th.results = printed ++ last

structure ProgramInv (count size : ℕ) (s : BufferProgram) : Prop where
  buffer : ∃ rb, BufInv size s.shared rb
  producer : ProducerAt count (s.shared.thread .producer) s.shared.pushed s.producer
  consumer : ConsumerAt (s.shared.thread .consumer) s.printed s.consumer
  popped : s.shared.popped.map Prod.snd =
    (s.shared.thread .consumer).results ++ (s.shared.thread .consumer).pending
  created : s.producer = .absent ↔ s.main = .createProducer
  started : s.consumer = .absent ↔ BufMainPc.join.left<s.main.left
  joined : s.main.left<BufMainPc.join.left → s.producer = .returned
  cancelled : s.consumer = .cancelled → s.Cancelled

section Buffer

theorem setPc_thread_ne {t v : BufParty} (h : v ≠ t) (pc : BufPc) :
    (b.setPc t pc).thread v = b.thread v := Function.update_of_ne h _ _

/-- A call begins in a thread that is idle. -/
theorem BufInv.begin (h : BufInv size b rb) (hpc : (b.thread t).pc = .idle) (c : BufCall) :
    ∃ rb', BufInv size (b.setPc t (.inside c .wait)) rb' := by
  have hn : (boundedBuffer size []).next b (.call t c) = some (b.setPc t (.inside c .wait)) := by
    simp [boundedBuffer,h.safe,hpc]
  exact h.next hn

theorem stepBuffer_cases (h : s.stepBuffer t = some u) : ∃ c stmt b,
    (s.shared.thread t).pc = .inside c stmt ∧ s.shared.stepCall t c stmt = some b ∧
    u = {s with shared := b} := by
  unfold BufferProgram.stepBuffer at h
  split at h
  · cases h
  · rename_i c stmt hpc
    obtain ⟨b,hb,rfl⟩ := Option.map_eq_some_iff.mp h
    exact ⟨c,stmt,b,hpc,hb,rfl⟩

/-- A statement under the invariant of the buffer: that invariant, and its effect. -/
theorem BufInv.statement (h : BufInv size s.shared rb) (hpc : (s.shared.thread t).pc = .inside c stmt)
    (hb : s.shared.stepCall t c stmt = some b) :
    (∃ rb', BufInv size b rb') ∧ Stmt s.shared b t c stmt := by
  obtain ⟨rb',hrb⟩ := h.stepCall hpc hb
  exact ⟨⟨rb',hrb⟩,stepCall_stmt hb hrb.safe⟩

/-- A pop pushes nothing and a push pops nothing. -/
theorem Stmt.pushed_pop {s s' : BoundedBuffer BufParty} (h : Stmt s s' t .pop stmt) :
    s'.pushed = s.pushed := by
  rw [h.pushed]
  split <;> simp [BufCall.pushes]

theorem Stmt.popped_push {s s' : BoundedBuffer BufParty} {val : Int32}
    (h : Stmt s s' t (.push val) stmt) : s'.popped = s.popped := by
  rw [h.popped]
  split <;> simp [BufCall.pops]

/-- The producer in the middle of `buf_push`, or at the end of it. -/
theorem ProducerAt.statement {s s' : BoundedBuffer BufParty} {i : ℕ}
    (h : ProducerAt count (s.thread .producer) s.pushed (.push i))
    (hpc : (s.thread .producer).pc = .inside c stmt) (hs : Stmt s s' .producer c stmt) :
    ProducerAt count (s'.thread .producer) s'.pushed
      (if (s'.thread .producer).pc = .idle then .loop (i+1) else .push i) := by
  obtain ⟨hi,⟨stmt',hpc'⟩,hpushed⟩ := h
  rw [hpc,BufPc.inside.injEq] at hpc'
  obtain ⟨rfl,rfl⟩ := hpc'
  have hpc' := hs.pc
  have hpushed' := hs.pushed
  cases stmt with
  | post =>
    rw [hpc']
    simp only [BufThread.posting,hpc,Bool.toNat_true] at hpushed
    exact ⟨hi,hpc',by simpa [hpushed] using hpushed'⟩
  | length =>
    rw [hpc']
    simp only [BufThread.posting,hpc,Bool.toNat_false,Nat.add_zero] at hpushed
    refine ⟨hi,⟨_,hpc'⟩,?_⟩
    simp only [BufThread.posting,hpc',BufStmt.after,BufStmt.succ,Bool.toNat_true]
    rw [hpushed',hpushed,pushedValues_succ]
    rfl
  | wait | lock | check | access | index | unlock =>
    rw [hpc']
    refine ⟨hi,⟨_,hpc'⟩,?_⟩
    simp only [BufThread.posting,hpc',BufStmt.after,BufStmt.succ]
    simpa [BufThread.posting,hpc,hpushed] using hpushed'

/-- What the consumer has popped is in its results, or about to be. -/
theorem Stmt.popped_pop {s s' : BoundedBuffer BufParty}
    (hpc : (s.thread .consumer).pc = .inside .pop stmt)
    (h : s.popped.map Prod.snd = (s.thread .consumer).results ++ (s.thread .consumer).pending)
    (hs : Stmt s s' .consumer .pop stmt) :
    s'.popped.map Prod.snd = (s'.thread .consumer).results ++ (s'.thread .consumer).pending := by
  have hpc' := hs.pc
  have hpopped := hs.popped
  have hresults := hs.results
  cases stmt with
  | post =>
    simp [BufThread.pending,BufThread.posting,hpc] at h
    simp [BufThread.pending,hpc',BufStmt.after,BufStmt.succ,hpopped,hresults,BufCall.returns,h]
  | length =>
    have hval := hs.val (by simp)
    simp [BufThread.pending,BufThread.posting,hpc] at h
    simp [BufThread.pending,BufThread.posting,hpc',BufStmt.after,BufStmt.succ,hpopped,hresults,
      BufCall.pops,h,hval]
  | unlock =>
    have hval := hs.val (by simp)
    simp [BufThread.pending,BufThread.posting,hpc] at h
    simp [BufThread.pending,BufThread.posting,hpc',BufStmt.after,BufStmt.succ,hpopped,hresults,
      h,hval]
  | wait | lock | check | access | index =>
    simp [BufThread.pending,BufThread.posting,hpc] at h
    simp [BufThread.pending,BufThread.posting,hpc',BufStmt.after,BufStmt.succ,hpopped,hresults,h]

/-- The consumer in the middle of `buf_pop`, or at the end of it. -/
theorem ConsumerAt.statement {s s' : BoundedBuffer BufParty} {printed : List Int32}
    (h : ConsumerAt (s.thread .consumer) printed .pop)
    (hpc : (s.thread .consumer).pc = .inside .pop stmt) (hs : Stmt s s' .consumer .pop stmt) :
    ConsumerAt (s'.thread .consumer) printed
      (if (s'.thread .consumer).pc = .idle then .report (s'.thread .consumer).val else .pop) := by
  obtain ⟨-,hprinted⟩ := h
  have hpc' := hs.pc
  have hresults := hs.results
  cases stmt with
  | post =>
    have hval := hs.val nofun
    rw [hpc']
    refine ⟨hpc',?_⟩
    rw [hresults,hprinted,hval]
    rfl
  | wait | lock | check | access | index | length | unlock =>
    rw [hpc']
    exact ⟨⟨_,hpc'⟩,by simpa [hprinted] using hresults.symm⟩

end Buffer

section Steps

theorem programInv_start (hsize : 1 ≤ size) (hmem : mem.length = size) :
    ProgramInv count size (.start size mem) where
  buffer := ⟨_,BufInv.init hsize hmem ⟨rfl,rfl,rfl,rfl,fun _ => ⟨rfl,rfl⟩,rfl,rfl,rfl⟩⟩
  producer := ⟨rfl,rfl⟩
  consumer := ⟨rfl,rfl,rfl⟩
  popped := rfl
  created := by simp [BufferProgram.start]
  started := by simp [BufferProgram.start,BufMainPc.left]
  joined h := absurd h (by simp [BufferProgram.start,BufMainPc.left])
  cancelled := nofun

theorem ProgramInv.main (h : ProgramInv count size s) (hn : s.stepMain = some u) :
    ProgramInv count size u := by
  have hstarted := h.started
  have hjoined := h.joined
  have hcancelled := h.cancelled
  unfold BufferProgram.stepMain at hn
  cases hm : s.main with
  | createProducer =>
    rw [hm] at hn hstarted
    cases hn
    have hp := h.producer
    rw [h.created.mpr hm] at hp
    refine ⟨h.buffer,⟨Nat.zero_le _,hp⟩,h.consumer,h.popped,by simp,?_,?_,?_⟩
    · simpa [BufMainPc.left] using hstarted
    · simp [BufMainPc.left]
    · simpa [BufferProgram.Cancelled,BufMainPc.left,hm] using hcancelled
  | createConsumer =>
    rw [hm] at hn hstarted
    cases hn
    have hc := h.consumer
    rw [hstarted.mpr (by decide)] at hc
    refine ⟨h.buffer,h.producer,⟨hc.1,hc.2.2.trans hc.2.1.symm⟩,h.popped,?_,?_,?_,nofun⟩
    · simp [h.created,hm]
    · simp [BufMainPc.left]
    · simp [BufMainPc.left]
  | join =>
    rw [hm] at hn hstarted
    simp only at hn
    split_ifs at hn with hr
    cases hn
    refine ⟨h.buffer,h.producer,h.consumer,h.popped,?_,?_,fun _ => hr,?_⟩
    · simp [hr]
    · simpa [BufMainPc.left] using hstarted
    · simpa [BufferProgram.Cancelled,BufMainPc.left,hm] using hcancelled
  | cancel | destroyRing | destroyMutex | destroyNumElements | destroyCapacity | free =>
    rw [hm] at hn hstarted hjoined
    cases hn
    have hr := hjoined (by decide)
    refine ⟨h.buffer,h.producer,h.consumer,h.popped,?_,?_,fun _ => hr,fun _ => ?_⟩
    · simp [hr]
    · simpa [BufMainPc.left] using hstarted
    · simp [BufferProgram.Cancelled,BufMainPc.left]
  | returned =>
    rw [hm] at hn
    cases hn

/-- A step of the producer, whose thread and pushes alone it changes. -/
theorem ProgramInv.producer_moved (h : ProgramInv count size s) (hb : ∃ rb, BufInv size b rb)
    (hother : b.thread .consumer = s.shared.thread .consumer)
    (hpopped : b.popped = s.shared.popped) (pc : ProducerPc) {output : List BufLine}
    (hprinted : output.filterMap BufLine.value = s.printed)
    (hp : ProducerAt count (b.thread .producer) b.pushed pc) (ha : s.producer ≠ .absent)
    (hpc : pc ≠ .absent) (hr : s.producer ≠ .returned) :
    ProgramInv count size {s with shared := b, producer := pc, output := output} := by
  refine ⟨hb,hp,?_,?_,?_,h.started,fun hl => absurd (h.joined hl) hr,h.cancelled⟩
  · change ConsumerAt (b.thread .consumer) (output.filterMap BufLine.value) s.consumer
    rw [hother,hprinted]
    exact h.consumer
  · change b.popped.map Prod.snd = (b.thread .consumer).results ++ (b.thread .consumer).pending
    rw [hother,hpopped]
    exact h.popped
  · exact iff_of_false hpc fun hm => ha (h.created.mpr hm)

theorem ProgramInv.producerStep (h : ProgramInv count size s)
    (hn : s.stepProducer count = some u) : ProgramInv count size u := by
  have hp := h.producer
  unfold BufferProgram.stepProducer at hn
  cases hpc : s.producer with
  | absent | returned =>
    rw [hpc] at hn
    cases hn
  | loop i =>
    rw [hpc] at hn hp
    obtain ⟨hi,hidle,hpushed⟩ := hp
    cases hn
    refine h.producer_moved h.buffer rfl rfl _ rfl ?_ (by simp [hpc]) ?_ (by simp [hpc])
    · split_ifs with hlt
      · exact ⟨hlt,hidle,hpushed⟩
      · exact ⟨hidle,by rwa [show count = i by omega]⟩
    · split_ifs <;> simp
  | sleep i =>
    rw [hpc] at hn hp
    cases hn
    exact h.producer_moved h.buffer rfl rfl (.report i) rfl hp (by simp [hpc]) (by simp) (by simp [hpc])
  | report i =>
    rw [hpc] at hn hp
    obtain ⟨hi,hidle,hpushed⟩ := hp
    obtain ⟨rb,hrb⟩ := h.buffer
    cases hn
    refine h.producer_moved (hrb.begin hidle _) ?_ rfl (.push i) ?_ ⟨hi,⟨.wait,?_⟩,?_⟩
      (by simp [hpc]) (by simp) (by simp [hpc])
    · exact setPc_thread_ne (by decide) _
    · simp [BufferProgram.printed,BufLine.value]
    · simp [BoundedBuffer.setPc,BoundedBuffer.set]
    · simpa [BoundedBuffer.setPc,BoundedBuffer.set,BufThread.posting] using hpushed
  | push i =>
    rw [hpc] at hn hp
    obtain ⟨v,hv,rfl⟩ := Option.map_eq_some_iff.mp hn
    obtain ⟨c,stmt,b,hat,hcall,rfl⟩ := stepBuffer_cases hv
    obtain ⟨rb,hrb⟩ := h.buffer
    obtain ⟨hb,hs⟩ := hrb.statement hat hcall
    obtain ⟨-,⟨stmt',hat'⟩,-⟩ := id hp
    rw [hat,BufPc.inside.injEq] at hat'
    obtain ⟨rfl,rfl⟩ := hat'
    have hp' := ProducerAt.statement hp hat hs
    have hother := hs.other .consumer (by decide)
    have hpopped := hs.popped_push
    simp only
    split_ifs at hp' ⊢
    · exact h.producer_moved hb hother hpopped _ rfl hp' (by simp [hpc]) (by simp) (by simp [hpc])
    · have hi := h.producer_moved hb hother hpopped (.push i) rfl hp' (by simp [hpc]) (by simp)
        (by simp [hpc])
      rw [← hpc] at hi
      exact hi

/-- A step of the consumer, whose thread and prints alone it changes. -/
theorem ProgramInv.consumer_moved (h : ProgramInv count size s) (hb : ∃ rb, BufInv size b rb)
    (hother : b.thread .producer = s.shared.thread .producer)
    (hpushed : b.pushed = s.shared.pushed) (pc : ConsumerPc) {output : List BufLine}
    (hc : ConsumerAt (b.thread .consumer) (output.filterMap BufLine.value) pc)
    (hpopped : b.popped.map Prod.snd =
      (b.thread .consumer).results ++ (b.thread .consumer).pending)
    (ha : s.consumer ≠ .absent) (hpc : pc ≠ .absent)
    (hcancelled : pc = .cancelled → s.Cancelled) (fault : Bool) :
    ProgramInv count size
      {s with shared := b, consumer := pc, output := output, fault := fault} := by
  refine ⟨hb,?_,hc,hpopped,h.created,?_,h.joined,hcancelled⟩
  · change ProducerAt count (b.thread .producer) b.pushed s.producer
    rw [hother,hpushed]
    exact h.producer
  · exact iff_of_false hpc fun hl => ha (h.started.mpr hl)

theorem ProgramInv.consumerStep (h : ProgramInv count size s) (hn : s.stepConsumer = some u) :
    ProgramInv count size u := by
  have hc := h.consumer
  unfold BufferProgram.stepConsumer at hn
  cases hpc : s.consumer with
  | absent | cancelled =>
    rw [hpc] at hn
    cases hn
  | enterSleep =>
    rw [hpc] at hn hc
    simp only at hn
    split_ifs at hn
    cases hn
    exact h.consumer_moved h.buffer rfl rfl .sleeping hc h.popped (by simp [hpc]) (by simp) (by simp)
      s.fault
  | sleeping =>
    rw [hpc] at hn hc
    cases hn
    exact h.consumer_moved h.buffer rfl rfl .enterWait hc h.popped (by simp [hpc]) (by simp) (by simp)
      s.fault
  | enterWait =>
    rw [hpc] at hn hc
    simp only at hn
    split_ifs at hn
    obtain ⟨hidle,hprinted⟩ := hc
    obtain ⟨rb,hrb⟩ := h.buffer
    cases hn
    refine h.consumer_moved (hrb.begin hidle .pop) (setPc_thread_ne (by decide) _) rfl
      .pop (show ConsumerAt _ (s.output.filterMap BufLine.value) .pop from ⟨⟨.wait,?_⟩,?_⟩) ?_
      (by simp [hpc]) (by simp) (by simp) s.fault
    · simp [BoundedBuffer.setPc,BoundedBuffer.set]
    · simpa [BoundedBuffer.setPc,BoundedBuffer.set,BufferProgram.printed] using hprinted
    · have hpopped := h.popped
      simp [BufThread.pending,hidle] at hpopped
      simp [BoundedBuffer.setPc,BoundedBuffer.set,BufThread.pending,BufThread.posting,hpopped]
  | pop =>
    rw [hpc] at hn hc
    simp only at hn
    split_ifs at hn
    · cases hn
      exact h.consumer_moved h.buffer rfl rfl .pop hc h.popped (by simp [hpc]) (by simp) (by simp) true
    · obtain ⟨v,hv,rfl⟩ := Option.map_eq_some_iff.mp hn
      obtain ⟨c,stmt,b,hat,hcall,rfl⟩ := stepBuffer_cases hv
      obtain ⟨rb,hrb⟩ := h.buffer
      obtain ⟨hb,hs⟩ := hrb.statement hat hcall
      obtain ⟨⟨stmt',hat'⟩,-⟩ := id hc
      rw [hat,BufPc.inside.injEq] at hat'
      obtain ⟨rfl,rfl⟩ := hat'
      have hc' := ConsumerAt.statement hc hat hs
      have hother := hs.other .producer (by decide)
      have hpopped := hs.popped_pop hat h.popped
      simp only
      split_ifs at hc' ⊢
      · exact h.consumer_moved hb hother hs.pushed_pop _ hc' hpopped (by simp [hpc]) (by simp) (by simp)
          s.fault
      · have hi := h.consumer_moved hb hother hs.pushed_pop .pop hc' hpopped (by simp [hpc]) (by simp)
          (by simp) s.fault
        rw [← hpc] at hi
        exact hi
  | report val =>
    rw [hpc] at hn hc
    cases hn
    refine h.consumer_moved h.buffer rfl rfl .enterSleep ⟨hc.1,?_⟩ h.popped (by simp [hpc]) (by simp)
      (by simp) s.fault
    rw [hc.2]
    simp [BufferProgram.printed,BufLine.value]

/-- A cancelled consumer has returned nothing that is not printed, but for one value. -/
theorem ProgramInv.cancelledStep (h : ProgramInv count size s) (hn : s.stepCancelled = some u) :
    ProgramInv count size u := by
  have hc := h.consumer
  unfold BufferProgram.stepCancelled at hn
  split_ifs at hn with ha
  obtain ⟨hcancelled,hat⟩ := ha
  cases hn
  refine h.consumer_moved h.buffer rfl rfl .cancelled ?_ h.popped ?_ nofun (fun _ => hcancelled)
    s.fault
  · unfold BufferProgram.Cancellable at hat
    cases hpc : s.consumer with
    | absent | cancelled =>
      rw [hpc] at hat
      exact hat.elim
    | enterSleep | sleeping | enterWait =>
      rw [hpc] at hc
      exact ⟨.inl hc.1,[],by simp,hc.2.symm.trans (List.append_nil _).symm⟩
    | pop =>
      rw [hpc] at hc hat
      exact ⟨.inr hat,[],by simp,hc.2.symm.trans (List.append_nil _).symm⟩
    | report val =>
      rw [hpc] at hc
      exact ⟨.inl hc.1,[val],by simp,hc.2⟩
  · intro hpc
    rw [BufferProgram.Cancellable,hpc] at hat
    exact hat

theorem ProgramInv.next {a : BufProgramAction} (h : ProgramInv count size s)
    (hn : s.next count a = some u) : ProgramInv count size u := by
  unfold BufferProgram.next at hn
  split_ifs at hn
  cases a with
  | main => exact h.main hn
  | producer => exact h.producerStep hn
  | consumer => exact h.consumerStep hn
  | cancelled => exact h.cancelledStep hn

theorem ProgramInv.run {tr : List (BufferProgram × BufProgramAction)} (hsize : 1 ≤ size)
    (hmem : mem.length = size) (run : Exec (bufferProgram count size mem) tr s) :
    ProgramInv count size s := by
  apply run.invariant (C := fun _ _ => True)
  · rintro s rfl
    exact programInv_start hsize hmem
  · intro s a t h _ hn
    exact h.next hn
  · exact fun _ _ => trivial

end Steps

section Order

theorem ProducerAt.pushed_eq {pushed : List Int32} {pc : ProducerPc}
    (h : ProducerAt count th pushed pc) : ∃ k ≤ count, pushed = pushedValues k := by
  cases pc with
  | absent => exact ⟨0,Nat.zero_le _,h.2⟩
  | loop i => exact ⟨i,h.1,h.2.2⟩
  | sleep i | report i => exact ⟨i,h.1.le,h.2.2⟩
  | push i =>
    have hle := Bool.toNat_le th.posting
    have hi := h.1
    exact ⟨_,by omega,h.2.2⟩
  | returned => exact ⟨count,Nat.le_refl _,h.2⟩

/-- At most one value that the consumer has popped is not printed. -/
theorem ConsumerAt.unprinted {printed : List Int32} {pc : ConsumerPc}
    (h : ConsumerAt th printed pc) :
    ∃ last, last.length ≤ 1 ∧ th.results ++ th.pending = printed ++ last := by
  have hidle : th.pc = .idle → th.pending = [] := by
    intro hpc
    simp [BufThread.pending,hpc]
  cases pc with
  | absent => exact ⟨[],Nat.zero_le _,by simp [hidle h.1,h.2.1,h.2.2]⟩
  | enterSleep | sleeping | enterWait => exact ⟨[],Nat.zero_le _,by simp [hidle h.1,h.2]⟩
  | pop =>
    refine ⟨th.pending,?_,by rw [h.2]⟩
    unfold BufThread.pending
    split
    · split_ifs <;> simp
    · exact Nat.zero_le _
  | report val => exact ⟨[val],Nat.le_refl _,by simp [hidle h.1,h.2]⟩
  | cancelled =>
    obtain ⟨hpc,last,hlast,hresults⟩ := h
    refine ⟨last,hlast,?_⟩
    obtain hpc | hpc := hpc
    · rw [hidle hpc,hresults,List.append_nil]
    · simp [BufThread.pending,BufThread.posting,hpc,hresults]

/-- In every run no assertion fails, the consumer prints the values in the order in which they are
pushed, and when the producer has been joined, all but a buffer and one are printed. -/
theorem program_in_order {tr : List (BufferProgram × BufProgramAction)} (hsize : 1 ≤ size)
    (hmem : mem.length = size) (run : Exec (bufferProgram count size mem) tr s) :
    s.shared.aborted = false ∧ s.printed <+: pushedValues count ∧
    (s.main.left<BufMainPc.join.left → count ≤ s.printed.length+size+1) := by
  have h := ProgramInv.run hsize hmem run
  obtain ⟨rb,hrb⟩ := h.buffer
  obtain ⟨k,hk,hpushed⟩ := h.producer.pushed_eq
  obtain ⟨last,hlast,hprinted⟩ := h.consumer.unprinted
  have hhistory : pushedValues k = s.printed ++ (last ++ rb.contents) := by
    rw [←hpushed,hrb.history,h.popped,hprinted,List.append_assoc]
  refine ⟨hrb.safe,?_,fun hl => ?_⟩
  · calc s.printed <+: s.printed ++ (last ++ rb.contents) := List.prefix_append _ _
      _ = pushedValues k := hhistory.symm
      _ <+: pushedValues count := pushedValues_prefix hk
  · have hreturned := h.producer
    rw [h.joined hl] at hreturned
    rw [←hpushed,hreturned.2] at hhistory
    have hlen := congrArg List.length hhistory
    have hroom := hrb.ready.length_le
    rw [length_pushedValues,List.length_append,List.length_append,
      RingBuffer.length_contents] at hlen
    rw [hrb.size_eq] at hroom
    omega

/-- One value through a buffer of one slot, with `main` up to its `pthread_cancel`. -/
def oneValueActions : List BufProgramAction :=
  [.main,.main] ++ List.replicate 12 .producer ++ List.replicate 11 .consumer ++
    [.consumer,.main,.main]

theorem program_in_order_oneValue : ∃ tr, ∃ s : BufferProgram,
    Exec (bufferProgram 1 1 [0]) tr s ∧ s.main = .destroyRing ∧ s.printed <+: [0] := by
  have hv : ((bufferProgram 1 1 [0]).run (.start 1 [0]) oneValueActions).map (·.main) =
      some .destroyRing := by decide
  obtain ⟨s,hs,hr⟩ := Option.map_eq_some_iff.mp hv
  have run : Exec (bufferProgram 1 1 [0]) _ s := Exec.of_run rfl hs
  exact ⟨_,s,run,hr,(program_in_order (by decide) rfl run).2.1⟩

end Order

end TTK4145.Exercise1
