import TTK4145.Rtsystem.LogQueue
import TTK4145.Rtsystem.Tasks.LogDrain

/-! The log task and its callers over the ring of `fifo_queue.c` do what they do over the bounded
list, as long as the clock stays within `time_t`. -/
namespace TTK4145.Rtsystem
open Lib

/-- The same threads over another queue. -/
def AsyncLog.withQueue {ι Q P : Type*} (s : AsyncLog ι Q) (p : P) : AsyncLog ι P :=
  ⟨p,s.running,s.clock,s.alog,s.task,s.done,s.stderr,s.calls,s.sent,s.stopped⟩

/-- What a call has taken from the clock fits in a record. -/
def AlogStep.Timed : AlogStep → Prop
  | .format time _ => time<clockEnd
  | .send msg _ => msg.Fits
  | _ => True

def ClockFits {ι Q : Type*} (s : AsyncLog ι Q) (_ : LogAction ι) : Prop := s.clock<clockEnd

/-- The ring holds the records of the list. -/
structure OverRing {ι : Type*} {capacity : ℕ} (s : AsyncLog ι FifoQueue)
    (f : BoundedFifo LogMessage capacity) : Prop where
  ring : LogRing s.queue f
  timed : ∀ w n c pc, s.alog w = .inside n c pc → pc.Timed

section Refinement
variable {ι : Type*} [DecidableEq ι] {capacity : ℕ} {s s' : AsyncLog ι FifoQueue}
  {f : BoundedFifo LogMessage capacity} {w : Option ι} {n : ℕ} {c : LogCall} {pc : AlogStep}

theorem OverRing.update (h : OverRing s f) {p : AlogPc}
    (hp : ∀ n c pc, p = .inside n c pc → pc.Timed) {v : Option ι}
    (hv : Function.update s.alog w p v = .inside n c pc) : pc.Timed := by
  rcases update_inside hv with ⟨-,hp'⟩ | ⟨-,hv⟩
  · exact hp n c pc hp'
  · exact h.timed v n c pc hv

theorem OverRing.setAlog (h : OverRing s f) {p : AlogPc}
    (hp : ∀ n c pc, p = .inside n c pc → pc.Timed) : OverRing (s.setAlog w p) f :=
  ⟨h.ring,fun _ _ _ _ hv => h.update hp hv⟩

/-- One statement of `ALOG` on the ring and on the list. -/
theorem OverRing.stepAlog (h : OverRing s f) (hpc : s.alog w = .inside n c pc)
    (clock : s.clock<clockEnd) :
    ∃ g, (s.withQueue f).stepAlog fifoLog w n c pc =
        (s.stepAlog ringLog w n c pc).withQueue g ∧ OverRing (s.stepAlog ringLog w n c pc) g := by
  have htimed := h.timed w n c pc hpc
  cases pc with
  | level =>
    refine ⟨f,rfl,h.setAlog fun m d pd hp => ?_⟩
    split_ifs at hp
    cases hp
    trivial
  | warn =>
    cases hr : s.running with
    | true =>
      have hrun : (s.withQueue f).running = true := hr
      simp only [AsyncLog.stepAlog,hr,hrun,if_true]
      exact ⟨f,rfl,h.setAlog fun m d pd hp => by cases hp; trivial⟩
    | false =>
      have hrun : (s.withQueue f).running = false := hr
      simp only [AsyncLog.stepAlog,hr,hrun,Bool.false_eq_true,if_false]
      exact ⟨f,rfl,h.ring,fun _ _ _ _ hv => h.update (fun m d pd hp => by cases hp; trivial) hv⟩
  | clock => exact ⟨f,rfl,h.setAlog fun m d pd hp => by cases hp; exact clock⟩
  | format time mark =>
    exact ⟨f,rfl,h.setAlog fun m d pd hp => by cases hp; exact c.record_fits htimed⟩
  | send msg mark =>
    rcases h.ring.send htimed with ⟨hq,hf⟩ | ⟨q,g,hq,hf,hring⟩
    · have hf' : fifoLog.send (s.withQueue f).queue msg = none := hf
      simp only [AsyncLog.stepAlog,hq,hf']
      exact ⟨f,rfl,h.setAlog fun m d pd hp => by cases hp; trivial⟩
    · have hf' : fifoLog.send (s.withQueue f).queue msg = some g := hf
      simp only [AsyncLog.stepAlog,hq,hf']
      exact ⟨g,rfl,hring,fun _ _ _ _ hv => h.update (fun m d pd hp => by cases hp) hv⟩
  | report => exact ⟨f,rfl,h.ring,fun _ _ _ _ hv => h.update (fun m d pd hp => by cases hp) hv⟩

theorem OverRing.stepTask (h : OverRing s f) (hs : s.stepTask ringLog s.task = some s') :
    ∃ g, (s.withQueue f).stepTask fifoLog s.task = some (s'.withQueue g) ∧ OverRing s' g := by
  cases ht : s.task with
  | announce final =>
    rw [ht] at hs
    cases hs
    exact ⟨f,rfl,h.ring,fun _ _ _ _ hv => h.update (fun m d pd hp => by cases hp; trivial) hv⟩
  | announcing final =>
    rw [ht] at hs
    cases ha : s.alog none with
    | idle =>
      have ha' : (s.withQueue f).alog none = .idle := ha
      simp only [AsyncLog.stepTask,ha] at hs
      cases hs
      simp only [AsyncLog.stepTask,ha']
      exact ⟨f,rfl,h.ring,h.timed⟩
    | inside n c pc =>
      simp only [AsyncLog.stepTask,ha] at hs
      cases hs
  | receive final =>
    rw [ht] at hs
    rcases h.ring.receive with ⟨hq,hf⟩ | ⟨x,q,g,hq,hf,hring⟩
    · have hf' : fifoLog.receive (s.withQueue f).queue = none := hf
      simp only [AsyncLog.stepTask,hq] at hs
      cases hs
      simp only [AsyncLog.stepTask,hf']
      exact ⟨f,rfl,h.ring,h.timed⟩
    · have hf' : fifoLog.receive (s.withQueue f).queue = some (x,g) := hf
      simp only [AsyncLog.stepTask,hq] at hs
      cases hs
      simp only [AsyncLog.stepTask,hf']
      exact ⟨g,rfl,hring,h.timed⟩
  | loop | print | setRunning | clearRunning | signal =>
    rw [ht] at hs
    cases hs
    exact ⟨f,rfl,h.ring,h.timed⟩
  | poll | finished =>
    rw [ht] at hs
    cases hs

omit [DecidableEq ι] in
theorem OverRing.stepPoll (h : OverRing s f) {outcome : PollOutcome}
    (hs : s.stepPoll ringLog outcome = some s') :
    (s.withQueue f).stepPoll fifoLog outcome = some (s'.withQueue f) ∧ OverRing s' f := by
  obtain ⟨r,hr,rfl⟩ := Option.map_eq_some_iff.mp hs
  rw [h.ring.readable] at hr
  have hr' : pollReply [fifoLog.readable (s.withQueue f).queue] outcome = some r := hr
  simp only [AsyncLog.stepPoll,hr',Option.map_some,AsyncLog.afterPoll]
  split_ifs
  · exact ⟨rfl,h.ring,h.timed⟩
  · exact ⟨rfl,h.ring,h.timed⟩
  · exact ⟨rfl,h.ring,h.timed⟩

/-- Every step over the ring is the step with the same label over the list. -/
theorem OverRing.next (h : OverRing s f) {a : LogAction ι} (clock : ClockFits s a)
    (hs : s.next ringLog a = some s') :
    ∃ g, (s.withQueue f).next fifoLog a = some (s'.withQueue g) ∧ OverRing s' g := by
  cases a with
  | call t c =>
    cases ha : s.alog (some t) with
    | idle =>
      have ha' : (s.withQueue f).alog (some t) = .idle := ha
      simp only [AsyncLog.next,ha] at hs
      cases hs
      simp only [AsyncLog.next,ha']
      exact ⟨f,rfl,h.ring,fun _ _ _ _ hv => h.update (fun m d pd hp => by cases hp; trivial) hv⟩
    | inside n d pc =>
      simp only [AsyncLog.next,ha] at hs
      cases hs
  | alog w =>
    cases ha : s.alog w with
    | idle =>
      simp only [AsyncLog.next,ha] at hs
      cases hs
    | inside n c pc =>
      have ha' : (s.withQueue f).alog w = .inside n c pc := ha
      simp only [AsyncLog.next,ha] at hs
      cases hs
      obtain ⟨g,hg,hring⟩ := h.stepAlog ha clock
      simp only [AsyncLog.next,ha']
      exact ⟨g,congrArg some hg,hring⟩
  | task => exact h.stepTask hs
  | poll outcome =>
    obtain ⟨ht,hs⟩ := AsyncLog.next_poll hs
    obtain ⟨hp,hring⟩ := h.stepPoll hs
    have ht' : (s.withQueue f).task = .poll := ht
    simp only [AsyncLog.next,ht']
    exact ⟨f,hp,hring⟩
  | tick d | stop =>
    cases hs
    exact ⟨f,rfl,h.ring,h.timed⟩

variable {tr : List (AsyncLog ι FifoQueue × LogAction ι)} {malloc : Malloc} {eventfd : Bool}
  {capacity : UInt64} {q : FifoQueue}

/-- From `log_task_init` on, a run over the ring is matched by a run over the list whose states
differ in the queue only, and which is as quiet as the first one. -/
theorem log_refines (hq : fifoQueueInit malloc eventfd 312 capacity = some q)
    (fits : 312*capacity.toNat<2^64) (run : Exec (AsyncLog.machine ringLog q) tr s)
    (clock : Meets ClockFits tr) (quiet : Meets QuietStop tr) :
    ∃ tr', ∃ f : BoundedFifo LogMessage capacity.toNat,
      Exec (AsyncLog.machine fifoLog BoundedFifo.empty) tr' (s.withQueue f) ∧
      LogRing s.queue f ∧ Meets QuietStop tr' ∧ tr'.map Prod.snd = tr.map Prod.snd := by
  let N : Machine (AsyncLog ι (BoundedFifo LogMessage capacity.toNat)) (LogAction ι) :=
    AsyncLog.machine fifoLog BoundedFifo.empty
  have start : ∀ s : AsyncLog ι FifoQueue, (AsyncLog.machine ringLog q).init s →
      ∃ t, N.init t ∧ ∃ f, t = s.withQueue f ∧ OverRing s f := by
    rintro s ⟨time,rfl⟩
    refine ⟨_,⟨time,rfl⟩,BoundedFifo.empty,rfl,logRing_init hq fits,?_⟩
    intro w n c pc hpc
    cases hpc
  have next : ∀ (s : AsyncLog ι FifoQueue) a s' t,
      (∃ f, t = s.withQueue f ∧ OverRing s f) → ClockFits s a ∧ QuietStop s a →
      (AsyncLog.machine ringLog q).next s a = some s' →
      QuietStop t a ∧ ∃ t', N.next t a = some t' ∧ ∃ f, t' = s'.withQueue f ∧ OverRing s' f := by
    rintro s a s' t ⟨f,rfl,h⟩ ⟨hc,hquiet⟩ hs
    obtain ⟨g,hg,hring⟩ := h.next hc hs
    refine ⟨?_,_,hg,g,rfl,hring⟩
    cases a <;> exact hquiet
  obtain ⟨tr',t,run',⟨f,rfl,h⟩,hquiet,hlabels⟩ :=
    run.simulate start next fun p hp => ⟨clock p hp,quiet p hp⟩
  exact ⟨tr',f,run',h.ring,hquiet,hlabels⟩

/-- The log task over the ring, too, has printed all that was sent when it signals its end. -/
theorem ring_drained (hq : fifoQueueInit malloc eventfd 312 capacity = some q)
    (fits : 312*capacity.toNat<2^64) (run : Exec (AsyncLog.machine ringLog q) tr s)
    (clock : Meets ClockFits tr) (quiet : Meets QuietStop tr) (done : s.done = true) :
    s.printed = s.sent.map Prod.snd ∧ (s.sent.map Prod.fst ++ s.reported).Nodup ∧
      ∀ n c, s.calls[n]? = some c → c.enabled = true →
        (∃ time, (n,c.record time) ∈ s.sent) ∨ n ∈ s.reported := by
  obtain ⟨tr',f,run',-,quiet',-⟩ := log_refines hq fits run clock quiet
  obtain ⟨inv,drain⟩ := LogInv.draining run' quiet'
  obtain ⟨hprinted,hcalls⟩ := inv.drained drain (drain.done done)
  exact ⟨hprinted,inv.accounts.once,hcalls⟩

end Refinement

instance {ι Q : Type*} (s : AsyncLog ι Q) (a : LogAction ι) : Decidable (ClockFits s a) :=
  inferInstanceAs (Decidable (s.clock<clockEnd))

/-- The queue of one record that `log_task_init(1, …)` makes. -/
def oneSlotRing : FifoQueue := ⟨List.replicate 312 0,312,1,0,0,0,⟨0⟩⟩

theorem ring_drained_fullQueue :
    ∃ tr, ∃ s : AsyncLog (Fin 1) FifoQueue, Exec (AsyncLog.machine ringLog oneSlotRing) tr s ∧
      s.done = true ∧ s.sent.map Prod.fst = [0,3] ∧ s.reported = [1,2] ∧
      s.printed = s.sent.map Prod.snd := by
  have hv : ((AsyncLog.machine ringLog oneSlotRing).run (AsyncLog.start oneSlotRing 0)
      fullQueueRun).map (fun s => (s.done,s.sent.map Prod.fst,s.reported)) =
      some (true,[0,3],[1,2]) := by decide +kernel
  obtain ⟨s,hs,hr⟩ := Option.map_eq_some_iff.mp hv
  simp only [Prod.mk.injEq] at hr
  have run := Exec.of_run (AsyncLog.start_init _ _ 0) hs
  have hq : fifoQueueInit clearedMalloc true 312 1 = some oneSlotRing := rfl
  exact ⟨_,s,run,hr.1,hr.2.1,hr.2.2,(ring_drained hq (by decide) run (by decide +kernel)
    (by decide +kernel) hr.1).1⟩

end TTK4145.Rtsystem
