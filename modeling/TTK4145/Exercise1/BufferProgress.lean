import TTK4145.Exercise1.BufferSafety

/-! When the threads on a bounded buffer are blocked: only by a buffer that is full or empty for
want of calls of the other kind. -/
namespace TTK4145.Exercise1
open Lib
variable {ι : Type*} {s s' : BoundedBuffer ι} {t : ι} {th : BufThread} {c : BufCall}
  {stmt : BufStmt} {size : ℕ} {mem : List Int32} {rb : RingBuffer}

def BufCall.isPush : BufCall → Bool
  | push _ => true
  | pop => false

/-- In a call of the given kind that has not entered the histories yet. -/
def BufThread.before (push : Bool) (th : BufThread) : Bool :=
  match th.pc with
  | .inside c _ => (c.isPush == push) && !th.posting
  | .idle => false

/-- The calls of a kind that are in the histories. -/
def BoundedBuffer.finished (push : Bool) (s : BoundedBuffer ι) : ℕ :=
  if push then s.pushed.length else s.popped.length

/-- The calls of a kind that a trace begins. -/
def begun (push : Bool) (tr : List (BoundedBuffer ι × BufAction ι)) : ℕ :=
  tr.countP fun p => match p.2 with
    | .call _ c => c.isPush == push
    | .step _ => false

@[simp] theorem begun_call (push : Bool) (tr : List (BoundedBuffer ι × BufAction ι)) :
    begun push (tr ++ [(s,.call t c)]) = begun push tr+(c.isPush == push).toNat := by
  cases h : c.isPush == push <;> simp [begun,List.countP_append,h]

@[simp] theorem begun_step (push : Bool) (tr : List (BoundedBuffer ι × BufAction ι)) :
    begun push (tr ++ [(s,.step t)]) = begun push tr := by
  simp [begun,List.countP_append]

/-- At the wait of a call, if anywhere. -/
def BufThread.Settled (th : BufThread) : Prop := th.pc = .idle ∨ ∃ c, th.pc = .inside c .wait

theorem BufThread.Settled.not_holding (h : th.Settled) :
    th.holdsSlot = false ∧ th.holdsItem = false := by
  obtain h | ⟨c,h⟩ := h
  · simp [holdsSlot,holdsItem,h]
  · cases c <;> simp [holdsSlot,holdsItem,inFlight,posting,h]

/-- A thread that has settled and has a call before it waits for it. -/
theorem BufThread.Settled.waits {push : Bool} (h : th.Settled) (hb : th.before push = true) :
    ∃ c, c.isPush = push ∧ th.pc = .inside c .wait := by
  obtain h | ⟨c,h⟩ := h
  · simp [before,h] at hb
  · refine ⟨c,?_,h⟩
    simpa [before,posting,h] using hb

variable [DecidableEq ι]

/-- A statement takes at most one call into the histories, its own. -/
theorem stepCall_before (hpc : (s.thread t).pc = .inside c stmt)
    (hn : s.stepCall t c stmt = some s') (push : Bool) :
    ∃ th, s'.thread = Function.update s.thread t th ∧
      s'.finished push+(th.before push).toNat =
        s.finished push+((s.thread t).before push).toNat := by
  cases stmt with
  | wait =>
    cases c with
    | push val =>
      simp only [BoundedBuffer.stepCall,BoundedBuffer.stepWait] at hn
      split_ifs at hn
      cases hn
      exact ⟨_,rfl,by simp [BufThread.before,BufThread.posting,hpc,BoundedBuffer.finished,
        BoundedBuffer.setPc,BoundedBuffer.set]⟩
    | pop =>
      simp only [BoundedBuffer.stepCall,BoundedBuffer.stepWait] at hn
      split_ifs at hn
      cases hn
      exact ⟨_,rfl,by simp [BufThread.before,BufThread.posting,hpc,BoundedBuffer.finished,
        BoundedBuffer.setPc,BoundedBuffer.set]⟩
  | lock =>
    simp only [BoundedBuffer.stepCall] at hn
    split_ifs at hn
    cases hn
    exact ⟨_,rfl,by simp [BufThread.before,BufThread.posting,hpc,BoundedBuffer.finished,
      BoundedBuffer.setPc,BoundedBuffer.set]⟩
  | check =>
    cases hn
    split_ifs
    · exact ⟨_,rfl,by simp [BufThread.before,BufThread.posting,hpc,BoundedBuffer.finished,
        BoundedBuffer.setPc,BoundedBuffer.set]⟩
    · exact ⟨s.thread t,(Function.update_eq_self t s.thread).symm,rfl⟩
  | access | index =>
    cases hn
    exact ⟨_,rfl,by simp [BufThread.before,BufThread.posting,hpc,BoundedBuffer.finished,
      BoundedBuffer.setPc,BoundedBuffer.set]⟩
  | length =>
    cases hn
    cases c with
    | push val =>
      refine ⟨_,rfl,?_⟩
      cases push <;> simp [BufThread.before,BufThread.posting,hpc,BoundedBuffer.finished,
        BoundedBuffer.stepLength,BoundedBuffer.setPc,BoundedBuffer.set,BufCall.isPush]
    | pop =>
      refine ⟨_,rfl,?_⟩
      cases push <;> simp [BufThread.before,BufThread.posting,hpc,BoundedBuffer.finished,
        BoundedBuffer.stepLength,BoundedBuffer.setPc,BoundedBuffer.set,BufCall.isPush]
  | unlock =>
    cases hn
    exact ⟨_,rfl,by simp [BufThread.before,BufThread.posting,hpc,BoundedBuffer.finished,
      BoundedBuffer.setPc,BoundedBuffer.set]⟩
  | post =>
    cases hn
    cases c <;> exact ⟨_,rfl,by simp [BufThread.before,BufThread.posting,hpc,
      BoundedBuffer.finished,BoundedBuffer.stepPost,BoundedBuffer.setPc,BoundedBuffer.set]⟩

/-- Every call begun is in the histories or on its way there. -/
def Begun (push : Bool) (tr : List (BoundedBuffer ι × BufAction ι)) (s : BoundedBuffer ι) : Prop :=
  ∃ n, Tally (BufThread.before push) s.thread n ∧ begun push tr = s.finished push+n

/-- A thread that moves keeps the balance of the calls begun. -/
theorem Begun.move {tr tr' : List (BoundedBuffer ι × BufAction ι)} {push : Bool}
    (h : Begun push tr s) (hthread : s'.thread = Function.update s.thread t th)
    (hbegun : begun push tr'+(s.finished push+((s.thread t).before push).toNat) =
      begun push tr+(s'.finished push+(th.before push).toNat)) : Begun push tr' s' := by
  obtain ⟨n,hn,hb⟩ := h
  have hle : ((s.thread t).before push).toNat ≤ n := by
    cases hp : (s.thread t).before push with
    | false => exact Nat.zero_le _
    | true => exact hn.pos hp
  refine ⟨n+(th.before push).toNat-((s.thread t).before push).toNat,?_,by omega⟩
  rw [hthread]
  exact hn.update (by omega)

theorem boundedBuffer_begun {tr : List (BoundedBuffer ι × BufAction ι)} (push : Bool)
    (run : Exec (boundedBuffer size mem) tr s) : Begun push tr s := by
  induction run with
  | init h =>
    obtain ⟨-,-,-,-,hidle,hpushed,hpopped,-⟩ := h
    refine ⟨0,Tally.zero fun t => by simp [BufThread.before,(hidle t).1],?_⟩
    simp [begun,BoundedBuffer.finished,hpushed,hpopped]
  | step run hn ih =>
    rename_i a s'
    simp only [boundedBuffer] at hn
    split_ifs at hn
    cases a with
    | call t c =>
      simp only at hn
      split at hn
      · rename_i hpc
        cases hn
        refine ih.move (t := t) rfl ?_
        rw [begun_call]
        simp [BufThread.before,BufThread.posting,hpc,BoundedBuffer.finished,BoundedBuffer.setPc,
          BoundedBuffer.set]
        omega
      · cases hn
    | step t =>
      simp only at hn
      split at hn
      · cases hn
      · rename_i c stmt hpc
        obtain ⟨th,hthread,hb⟩ := stepCall_before hpc hn push
        refine ih.move hthread ?_
        rw [begun_step,hb]

/-- Where no thread can go on, the lock is free and only waits are left. -/
theorem BufInv.settled (h : BufInv size s rb)
    (hblocked : ∀ t, (boundedBuffer size mem).next s (.step t) = none) :
    ∀ t, (s.thread t).Settled := by
  have hcall : ∀ t c stmt, (s.thread t).pc = .inside c stmt → s.stepCall t c stmt = none := by
    intro t c stmt hpc
    have hb := hblocked t
    simp only [boundedBuffer,h.safe,Bool.false_eq_true,if_false,hpc] at hb
    exact hb
  -- the owner of the lock can always go on
  have hfree : s.mtx = none := by
    cases ho : s.mtx with
    | none => rfl
    | some u =>
      have hcrit := (h.mutex u).mpr ho
      cases hpc : (s.thread u).pc with
      | idle => simp [BufThread.critical,hpc] at hcrit
      | inside c stmt =>
        have hn := hcall u c stmt hpc
        cases stmt <;> simp [BufThread.critical,hpc,BoundedBuffer.stepCall] at hcrit hn
  intro t
  cases hpc : (s.thread t).pc with
  | idle => exact .inl hpc
  | inside c stmt =>
    have hn := hcall t c stmt hpc
    cases stmt <;> simp [BoundedBuffer.stepCall,hfree] at hn
    exact .inr ⟨c,hpc⟩

/-- A blocked push finds no free slot, and a blocked pop no value. -/
theorem BufInv.blocked_wait (h : BufInv size s rb)
    (hblocked : ∀ t, (boundedBuffer size mem).next s (.step t) = none)
    (hpc : (s.thread t).pc = .inside c .wait) :
    (c.isPush = true → s.capacity = 0) ∧ (c.isPush = false → s.numElements = 0) := by
  have hb := hblocked t
  simp only [boundedBuffer,h.safe,Bool.false_eq_true,if_false,hpc,BoundedBuffer.stepCall] at hb
  cases c with
  | push val =>
    simp only [BoundedBuffer.stepWait] at hb
    split_ifs at hb
    exact ⟨fun _ => by omega,by simp [BufCall.isPush]⟩
  | pop =>
    simp only [BoundedBuffer.stepWait] at hb
    split_ifs at hb
    exact ⟨by simp [BufCall.isPush],fun _ => by omega⟩

/-- When no thread can go on, every call has returned but for the pushes in excess of the pops and
the size, or the pops in excess of the pushes, and these wait. -/
theorem blocked_calls {tr : List (BoundedBuffer ι × BufAction ι)} (hsize : 1 ≤ size)
    (hmem : mem.length = size) (run : Exec (boundedBuffer size mem) tr s)
    (hblocked : ∀ t, (boundedBuffer size mem).next s (.step t) = none) :
    (∀ t, (s.thread t).Settled) ∧
    Tally (BufThread.before true) s.thread (begun true tr-begun false tr-size) ∧
    Tally (BufThread.before false) s.thread (begun false tr-begun true tr) := by
  obtain ⟨rb,h⟩ : ∃ rb, BufInv size s rb := by
    clear hblocked
    induction run with
    | init h => exact ⟨_,BufInv.init hsize hmem h⟩
    | step run hn ih =>
      obtain ⟨rb,hrb⟩ := ih
      exact hrb.next hn
  have hsettled := h.settled hblocked
  obtain ⟨n,hn,hpush⟩ := boundedBuffer_begun true run
  obtain ⟨m,hm,hpop⟩ := boundedBuffer_begun false run
  have hlength : s.pushed.length = s.popped.length+rb.length := by
    rw [h.history,List.length_append,List.length_map,RingBuffer.length_contents]
  -- nothing is in flight, so the semaphores count the slots and the values
  have hcapacity : s.capacity+rb.length = size := by
    obtain ⟨k,hk,hs⟩ := h.slots
    have := hk.eq_zero fun t => (hsettled t).not_holding.1
    omega
  have hvalues : s.numElements = rb.length := by
    obtain ⟨k,hk,hi⟩ := h.items
    have := hk.eq_zero fun t => (hsettled t).not_holding.2
    omega
  have hfull : n ≠ 0 → s.capacity = 0 := by
    intro hne
    obtain ⟨t,ht⟩ := hn.exists hne
    obtain ⟨c,hc,hpc⟩ := (hsettled t).waits ht
    exact (h.blocked_wait hblocked hpc).1 hc
  have hempty : m ≠ 0 → s.numElements = 0 := by
    intro hne
    obtain ⟨t,ht⟩ := hm.exists hne
    obtain ⟨c,hc,hpc⟩ := (hsettled t).waits ht
    exact (h.blocked_wait hblocked hpc).2 hc
  simp only [BoundedBuffer.finished,if_true,Bool.false_eq_true,if_false] at hpush hpop
  have hn' : begun true tr-begun false tr-size = n := by omega
  have hm' : begun false tr-begun true tr = m := by omega
  exact ⟨hsettled,by rwa [hn'],by rwa [hm']⟩

/-- Two pushes on a buffer of one slot. -/
def fillActions : List (BufAction Bool) :=
  .call true (.push 7)::List.replicate 8 (.step true) ++ [.call true (.push 8)]

theorem blocked_calls_fill : ∃ tr, ∃ s : BoundedBuffer Bool,
    Exec (boundedBuffer 1 [0]) tr s ∧ s.buf.length = 1 ∧
    Tally (BufThread.before true) s.thread 1 := by
  have hv : ((boundedBuffer 1 [0]).run oneSlotBuffer fillActions).map (fun s => (s.buf.length,
      decide (∀ t, (boundedBuffer 1 [0]).next s (.step t) |>.isNone))) = some (1,true) := by decide
  obtain ⟨s,hs,hr⟩ := Option.map_eq_some_iff.mp hv
  simp only [Prod.mk.injEq,decide_eq_true_eq,Option.isNone_iff_eq_none] at hr
  have hinit : (boundedBuffer 1 [0]).init oneSlotBuffer := by
    simp [boundedBuffer,oneSlotBuffer]
  exact ⟨_,s,Exec.of_run hinit hs,hr.1,
    (blocked_calls (by decide) rfl (Exec.of_run hinit hs) hr.2).2.1⟩

end TTK4145.Exercise1
