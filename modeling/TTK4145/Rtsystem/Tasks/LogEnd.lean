import TTK4145.Rtsystem.Tasks.LogDrain

/-! Once `log_task_stop` has been called, the log thread is through after a bounded number of its
own statements, however many messages have gone through the queue before. -/
namespace TTK4145.Rtsystem
open Lib

/-- The statements of the log thread. -/
def LogAction.ofTask {ι : Type*} : LogAction ι → Bool
  | .task | .poll _ | .alog none => true
  | .alog (some _) | .call _ _ | .tick _ | .stop => false

/-- The statements up to the end of an `ALOG` call. Its message, once it is queued, costs a receive
and a print. -/
def AlogStep.cost : AlogStep → ℕ
  | .level => 7
  | .warn => 6
  | .clock => 5
  | .format _ _ => 4
  | .send _ _ => 3
  | .report => 1

def AlogPc.cost : AlogPc → ℕ
  | .idle => 0
  | .inside _ _ pc => pc.cost

/-- The statements up to the end of `log_task` that starts with the flag down and an empty queue. -/
def LogTaskPc.cost : LogTaskPc → ℕ
  | .finished => 0
  | .signal => 1
  | .receive true => 2
  | .print true _ => 3
  | .clearRunning => 3
  | .announcing true => 4
  | .announce true => 12
  | .setRunning => 13
  | .loop => 14
  | .receive false => 15
  | .print false _ => 16
  | .poll => 16
  | .announcing false => 15
  | .announce false => 23

theorem AlogStep.cost_le (pc : AlogStep) : pc.cost ≤ 7 := by
  cases pc <;> simp [cost]

/-- What is left for the log thread, the messages queued included. -/
def AsyncLog.cost {ι : Type*} {capacity : ℕ}
    (s : AsyncLog ι (BoundedFifo LogMessage capacity)) : ℕ :=
  2*s.queue.items.length+s.task.cost+(s.alog none).cost

/-- After the stop the loop test finds the flag down, or it has done so. -/
def LeavesLoop {ι Q : Type*} (s : AsyncLog ι Q) : Prop :=
  s.stopped = true → s.running = false ∨ s.task.late = true

section End
variable {ι : Type*} [DecidableEq ι] {capacity : ℕ}
  {s s' : AsyncLog ι (BoundedFifo LogMessage capacity)} {w : Option ι} {n : ℕ} {c : LogCall}
  {pc : AlogStep} {a : LogAction ι}

omit [DecidableEq ι] in
theorem cost_le (own : OwnCalls s.alog s.task) : s.cost ≤ 2*capacity+23 := by
  have hq := s.queue.bounded
  cases ha : s.alog none with
  | idle =>
    have ht : s.task.cost ≤ 23 := by
      cases s.task with
      | announce final | announcing final | receive final => cases final <;> simp [LogTaskPc.cost]
      | print final msg => cases final <;> simp [LogTaskPc.cost]
      | loop | poll | setRunning | clearRunning | signal | finished => simp [LogTaskPc.cost]
    simp only [AsyncLog.cost,ha,AlogPc.cost]
    omega
  | inside n c pc =>
    obtain ⟨final,hf⟩ := own n c pc ha
    have hpc := pc.cost_le
    have ht : s.task.cost ≤ 15 := by
      rw [hf]
      cases final <;> simp [LogTaskPc.cost]
    simp only [AsyncLog.cost,ha,AlogPc.cost]
    omega

/-- A statement of the log thread's own `ALOG` calls. -/
theorem stepAlog_cost (ha : s.alog none = .inside n c pc) :
    (s.stepAlog fifoLog none n c pc).cost<s.cost := by
  have hset : ∀ (t : AsyncLog ι (BoundedFifo LogMessage capacity)) p,
      (t.setAlog none p).alog none = p := fun t p => by simp [AsyncLog.setAlog]
  cases pc with
  | level =>
    simp only [AsyncLog.stepAlog,AsyncLog.cost,hset,ha]
    split_ifs <;> simp [AsyncLog.setAlog,AlogPc.cost,AlogStep.cost]
  | warn =>
    simp only [AsyncLog.stepAlog,AsyncLog.cost,hset,ha]
    split_ifs <;> simp [AsyncLog.setAlog,AsyncLog.write,AlogPc.cost,AlogStep.cost]
  | send msg mark =>
    simp only [AsyncLog.stepAlog]
    split
    · simp only [AsyncLog.cost,hset,ha]
      simp [AsyncLog.setAlog,AlogPc.cost,AlogStep.cost]
    · next q hq =>
      have hitems := (BoundedFifo.send_eq_some.mp hq).2
      have hidle : (s.accept none n msg q).alog none = .idle := by
        simp [AsyncLog.accept,AsyncLog.setAlog]
      simp only [AsyncLog.cost,hidle,ha]
      simp [AsyncLog.accept,AsyncLog.setAlog,AlogPc.cost,AlogStep.cost,hitems]
      omega
  | clock | format | report =>
    simp only [AsyncLog.stepAlog,AsyncLog.cost,hset,ha]
    simp [AsyncLog.setAlog,AsyncLog.write,AlogPc.cost,AlogStep.cost]

/-- A statement of `log_task`. -/
theorem stepTask_cost (flag : s.running = false ∨ s.task.late = true) (own : OwnCalls s.alog s.task)
    (hs : s.stepTask fifoLog s.task = some s') : s'.cost<s.cost := by
  cases ht : s.task with
  | announce final =>
    have hidle : s.alog none = .idle := own.idle (by simp [ht])
    rw [ht] at hs
    cases hs
    have hin : ((s.enter none (logTaskCall final)).alog none).cost = 7 := by
      simp [AsyncLog.enter,AsyncLog.setAlog,AlogPc.cost,AlogStep.cost]
    change 2*s.queue.items.length+(LogTaskPc.announcing final).cost+
      ((s.enter none (logTaskCall final)).alog none).cost<s.cost
    rw [hin]
    cases final <;> simp [AsyncLog.cost,ht,hidle,LogTaskPc.cost,AlogPc.cost]
  | announcing final =>
    rw [ht] at hs
    simp only [AsyncLog.stepTask] at hs
    split at hs
    · next ha =>
      cases hs
      cases final <;> simp [AsyncLog.cost,ht,ha,LogTaskPc.cost]
    · cases hs
  | loop =>
    have hr : s.running = false := flag.resolve_right (by simp [ht,LogTaskPc.late])
    rw [ht] at hs
    cases hs
    simp [AsyncLog.cost,ht,hr,LogTaskPc.cost]
  | receive final =>
    rw [ht] at hs
    simp only [AsyncLog.stepTask] at hs
    split at hs
    · cases hs
      cases final <;> simp [AsyncLog.cost,ht,LogTaskPc.cost]
    · next msg q hq =>
      have hitems := BoundedFifo.receive_eq_some.mp hq
      cases hs
      cases final <;> simp only [AsyncLog.cost,ht,hitems,LogTaskPc.cost,List.length_cons] <;> omega
  | print final msg =>
    rw [ht] at hs
    cases hs
    cases final <;> simp [AsyncLog.cost,AsyncLog.write,ht,LogTaskPc.cost]
  | poll | finished =>
    rw [ht] at hs
    cases hs
  | setRunning | clearRunning | signal =>
    rw [ht] at hs
    cases hs
    simp [AsyncLog.cost,ht,LogTaskPc.cost]

omit [DecidableEq ι] in
theorem stepPoll_cost (ht : s.task = .poll) {outcome : PollOutcome}
    (hs : s.stepPoll fifoLog outcome = some s') : s'.cost<s.cost := by
  rcases AsyncLog.stepPoll_cases hs with rfl | rfl | rfl <;>
    simp [AsyncLog.cost,AsyncLog.write,ht,LogTaskPc.cost]

theorem LeavesLoop.stepTask (h : LeavesLoop s) (hs : s.stepTask fifoLog s.task = some s') :
    LeavesLoop s' := by
  cases ht : s.task with
  | announce final =>
    rw [ht] at hs
    cases hs
    intro hst
    have hflag := h hst
    rwa [ht] at hflag
  | announcing final =>
    rw [ht] at hs
    simp only [AsyncLog.stepTask] at hs
    split at hs <;> cases hs
    intro hst
    have hflag := h hst
    rw [ht] at hflag
    cases final with
    | false => exact hflag
    | true => exact .inr rfl
  | loop =>
    rw [ht] at hs
    cases hs
    intro hst
    have hr : s.running = false := (h hst).resolve_right (by simp [ht,LogTaskPc.late])
    exact .inl hr
  | receive final =>
    rw [ht] at hs
    simp only [AsyncLog.stepTask] at hs
    have hflag := h
    rw [LeavesLoop,ht] at hflag
    split at hs <;> cases hs <;> cases final
    · exact hflag
    · exact fun _ => .inr rfl
    · exact hflag
    · exact hflag
  | print final msg =>
    rw [ht] at hs
    cases hs
    intro hst
    have hflag := h hst
    rwa [ht] at hflag
  | setRunning | clearRunning | signal =>
    rw [ht] at hs
    cases hs
    exact fun _ => .inr rfl
  | poll | finished =>
    rw [ht] at hs
    cases hs

theorem LeavesLoop.next (h : LeavesLoop s) (hs : s.next fifoLog a = some s') : LeavesLoop s' := by
  cases a with
  | call t c =>
    cases ha : s.alog (some t) <;> simp only [AsyncLog.next,ha] at hs <;> cases hs
    exact h
  | alog w =>
    cases ha : s.alog w with
    | idle => simp [AsyncLog.next,ha] at hs
    | inside n c pc =>
      simp only [AsyncLog.next,ha,Option.some.injEq] at hs
      subst hs
      obtain ⟨htask,hrunning,hstopped,-⟩ := AsyncLog.stepAlog_frame fifoLog s w n c pc
      unfold LeavesLoop
      rwa [htask,hrunning,hstopped]
  | task => exact h.stepTask hs
  | poll outcome =>
    obtain ⟨ht,hs⟩ := AsyncLog.next_poll hs
    have hflag : s.stopped = true → s.running = false := fun hst =>
      (h hst).resolve_right (by simp [ht,LogTaskPc.late])
    rcases AsyncLog.stepPoll_cases hs with rfl | rfl | rfl <;> exact fun hst => .inl (hflag hst)
  | tick d =>
    cases hs
    exact h
  | stop =>
    cases hs
    exact fun _ => .inl rfl

/-- In a stopped system only the log thread's statements do anything for its end, and each brings it
nearer. -/
theorem next_cost (flag : s.running = false ∨ s.task.late = true) (own : OwnCalls s.alog s.task)
    (idle : ∀ t, s.alog (some t) = .idle) (hcall : ∀ t c, a ≠ .call t c)
    (hs : s.next fifoLog a = some s') : s'.cost+a.ofTask.toNat ≤ s.cost := by
  cases a with
  | call t c => exact absurd rfl (hcall t c)
  | alog w =>
    cases w with
    | none =>
      cases ha : s.alog none with
      | idle => simp [AsyncLog.next,ha] at hs
      | inside n c pc =>
        simp only [AsyncLog.next,ha,Option.some.injEq] at hs
        subst hs
        exact stepAlog_cost ha
    | some t => simp [AsyncLog.next,idle t] at hs
  | task => exact stepTask_cost flag own hs
  | poll outcome =>
    obtain ⟨ht,hs⟩ := AsyncLog.next_poll hs
    exact stepPoll_cost ht hs
  | tick d | stop =>
    cases hs
    exact Nat.le_refl _

/-- Something the log thread can do other than fail its `poll`. -/
theorem exists_ofTask (ht : s.task ≠ .finished) :
    ∃ a : LogAction ι, a.ofTask = true ∧ a ≠ .poll .error ∧ (s.next fifoLog a).isSome := by
  cases ha : s.alog none with
  | inside n c pc => exact ⟨.alog none,rfl,by simp,by simp [AsyncLog.next,ha]⟩
  | idle =>
    cases hp : s.task with
    | finished => exact absurd hp ht
    | poll =>
      by_cases hr : LogQueue.readable fifoLog s.queue = true
      · exact ⟨.poll .ready,rfl,by simp,by simp [AsyncLog.next,hp,AsyncLog.stepPoll,pollReply,hr]⟩
      · exact ⟨.poll .timeout,rfl,by simp,by simp [AsyncLog.next,hp,AsyncLog.stepPoll,pollReply,hr]⟩
    | receive final =>
      refine ⟨.task,rfl,by simp,?_⟩
      simp only [AsyncLog.next,hp,AsyncLog.stepTask]
      split <;> rfl
    | announce | announcing | loop | print | setRunning | clearRunning | signal =>
      exact ⟨.task,rfl,by simp,by simp [AsyncLog.next,hp,AsyncLog.stepTask,ha]⟩

variable {tr : List (AsyncLog ι (BoundedFifo LogMessage capacity) × LogAction ι)}

/-- The statements that the log thread has executed since the stop. -/
def sinceStop (tr : List (AsyncLog ι (BoundedFifo LogMessage capacity) × LogAction ι)) : ℕ :=
  tr.countP fun p => p.1.stopped && p.2.ofTask

/-- The log thread ends with its signal. -/
theorem next_finished (h : s.task = .finished → s.done = true) (hs : s.next fifoLog a = some s') :
    s'.task = .finished → s'.done = true := by
  cases a with
  | call t c =>
    cases ha : s.alog (some t) <;> simp only [AsyncLog.next,ha] at hs <;> cases hs
    exact h
  | alog w =>
    cases ha : s.alog w with
    | idle => simp [AsyncLog.next,ha] at hs
    | inside n c pc =>
      simp only [AsyncLog.next,ha,Option.some.injEq] at hs
      subst hs
      obtain ⟨htask,-,-,hdone⟩ := AsyncLog.stepAlog_frame fifoLog s w n c pc
      rwa [htask,hdone]
  | task =>
    have ht : s.stepTask fifoLog s.task = some s' := hs
    cases hp : s.task with
    | signal =>
      rw [hp] at ht
      cases ht
      exact fun _ => rfl
    | poll | finished =>
      rw [hp] at ht
      cases ht
    | announcing final =>
      rw [hp] at ht
      simp only [AsyncLog.stepTask] at ht
      split at ht <;> cases ht
      cases final <;> simp
    | receive final =>
      rw [hp] at ht
      simp only [AsyncLog.stepTask] at ht
      split at ht <;> cases ht
      · cases final <;> simp
      · simp
    | loop =>
      rw [hp] at ht
      cases ht
      intro hf
      change (if s.running then LogTaskPc.poll else .setRunning) = .finished at hf
      split_ifs at hf
    | announce | print | setRunning | clearRunning =>
      rw [hp] at ht
      cases ht
      simp
  | poll outcome =>
    obtain ⟨-,hs⟩ := AsyncLog.next_poll hs
    rcases AsyncLog.stepPoll_cases hs with rfl | rfl | rfl <;> simp
  | tick d | stop =>
    cases hs
    exact h

/-- Nobody takes the stop back. -/
theorem next_stopped (hs : s.next fifoLog a = some s') (h : s.stopped = true) :
    s'.stopped = true := by
  cases a with
  | call t c =>
    cases ha : s.alog (some t) <;> simp only [AsyncLog.next,ha] at hs <;> cases hs
    exact h
  | alog w =>
    cases ha : s.alog w with
    | idle => simp [AsyncLog.next,ha] at hs
    | inside n c pc =>
      simp only [AsyncLog.next,ha,Option.some.injEq] at hs
      subst hs
      rwa [(AsyncLog.stepAlog_frame fifoLog s w n c pc).2.2.1]
  | task =>
    have ht : s.stepTask fifoLog s.task = some s' := hs
    cases hp : s.task <;> rw [hp] at ht <;> simp only [AsyncLog.stepTask] at ht <;>
      (try split at ht) <;> cases ht <;> exact h
  | poll outcome =>
    obtain ⟨-,hs⟩ := AsyncLog.next_poll hs
    rcases AsyncLog.stepPoll_cases hs with rfl | rfl | rfl <;> exact h
  | tick d =>
    cases hs
    exact h
  | stop =>
    cases hs
    rfl

theorem LogInv.sinceStop_le (run : Exec (AsyncLog.machine fifoLog BoundedFifo.empty) tr s)
    (quiet : Meets QuietStop tr) : (s.stopped = false → sinceStop tr = 0) ∧
      (s.stopped = true → sinceStop tr+s.cost ≤ 2*capacity+23) := by
  refine (run.countP_since_le (I := fun s => (LogInv s ∧ Draining s) ∧ LeavesLoop s)
    (m := AsyncLog.cost) (f := fun _ a => a.ofTask) (fun s hi => ?_)
    (fun s a t h hq hs => ?_) quiet).2
  · refine ⟨⟨⟨LogInv.init rfl hi,Draining.init hi⟩,fun hst => ?_⟩,?_⟩ <;>
      obtain ⟨clock,rfl⟩ := hi
    · cases hst
    · rfl
  · obtain ⟨⟨inv,drain⟩,hflag⟩ := h
    have inv' := inv.next hs
    refine ⟨⟨⟨inv',drain.next inv.own hq hs⟩,hflag.next hs⟩,fun _ _ => cost_le inv'.own,
      fun hst => ?_⟩
    refine ⟨next_stopped hs hst,next_cost (hflag hst) inv.own (drain.quiet hst) ?_ hs⟩
    rintro u c rfl
    have hlive : s.stopped = false := hq
    rw [hst] at hlive
    cases hlive

/-- After a quiet stop the log thread executes a bounded number of statements, whatever the other
threads have sent and however the statements interleave, and until it has signalled its end it is
never held up: one of its statements can be executed, in particular without an error of `poll`. -/
theorem log_task_ends (run : Exec (AsyncLog.machine fifoLog BoundedFifo.empty) tr s)
    (quiet : Meets QuietStop tr) :
    sinceStop tr ≤ 2*capacity+23 ∧ (s.done = false → ∃ a : LogAction ι, a.ofTask = true ∧
      a ≠ .poll .error ∧ (s.next fifoLog a).isSome) := by
  obtain ⟨hbefore,hafter⟩ := LogInv.sinceStop_le run quiet
  refine ⟨?_,fun hd => exists_ofTask fun hf => ?_⟩
  · cases hst : s.stopped with
    | true =>
      have := hafter hst
      omega
    | false =>
      rw [hbefore hst]
      exact Nat.zero_le _
  · have hfin : s.task = .finished → s.done = true := by
      refine run.invariant (C := fun _ _ => True) ?_ (fun _ _ _ h _ hs => next_finished h hs)
        fun _ _ => trivial
      rintro s ⟨clock,rfl⟩
      nofun
    rw [hfin hf] at hd
    cases hd

end End

/-- The run over one slot up to its final drain, ten statements after the stop. -/
theorem log_task_ends_fullQueue :
    ∃ tr, ∃ s : AsyncLog (Fin 1) (BoundedFifo LogMessage 1),
      Exec (AsyncLog.machine fifoLog BoundedFifo.empty) tr s ∧ s.stopped = true ∧
      s.done = false ∧ sinceStop tr ≤ 25 ∧ ∃ a : LogAction (Fin 1), a.ofTask = true ∧
        a ≠ .poll .error ∧ (s.next fifoLog a).isSome := by
  have hv : ((AsyncLog.machine fifoLog BoundedFifo.empty).run
      (AsyncLog.start (BoundedFifo.empty : BoundedFifo LogMessage 1) 0)
      (fullQueueRun.take 36)).map (fun s => (s.stopped,s.done)) = some (true,false) := by decide
  obtain ⟨s,hs,hr⟩ := Option.map_eq_some_iff.mp hv
  rw [Prod.mk.injEq] at hr
  have run := Exec.of_run (AsyncLog.start_init _ _ 0) hs
  have h := log_task_ends run (by decide)
  exact ⟨_,s,run,hr.1,hr.2,h.1,h.2 hr.2⟩

end TTK4145.Rtsystem
