import Mathlib.Logic.Function.Basic
import TTK4145.Lib.Machine
import TTK4145.Lib.Poll
import TTK4145.Rtsystem.AsyncLogHelper

/-! The thread of `rtsystem/src/tasks/log_task.c` and any number of threads that call `ALOG`.
The calls of `fifo_queue_send` and `fifo_queue_receive` are atomic under the lock of the queue;
everything between them interleaves. -/
namespace TTK4145.Rtsystem
open Lib

/-- The statement of the `ALOG` macro that is executed next. `mark` is history: how many messages
had been sent when the clock was read. -/
inductive AlogStep where
  | level
  | warn
  | clock
  | format (time mark : ℕ)
  | send (msg : LogMessage) (mark : ℕ)
  | report
  deriving DecidableEq, Repr

/-- A call is known by its number in the list of all calls. -/
inductive AlogPc where
  | idle
  | inside (call : ℕ) (args : LogCall) (pc : AlogStep)
  deriving DecidableEq, Repr

/-- The statements of `log_task`. Its two `LOGD` calls and its two receive loops are told apart
by `final`, which is set after the loop over `g_log_running`. -/
inductive LogTaskPc where
  | announce (final : Bool)
  | announcing (final : Bool)
  | loop
  | poll
  | receive (final : Bool)
  | print (final : Bool) (msg : LogMessage)
  | setRunning
  | clearRunning
  | signal
  | finished
  deriving DecidableEq, Repr

/-- A line on `stderr`. -/
inductive LogLine where
  | message (msg : LogMessage)
  | notRunning (tag : List UInt8)
  | queueFull (call : ℕ) (tag : List UInt8)
  | pollFailed
  deriving DecidableEq, Repr

def LogLine.printed : LogLine → Option LogMessage
  | .message msg => some msg
  | _ => none

def LogLine.full : LogLine → Option ℕ
  | .queueFull call _ => some call
  | _ => none

/-- The caller `none` is the log task itself. `calls`, `sent` and `stopped` are history: every
`ALOG` call begun, the calls whose send returned 0 with their messages, and whether
`log_task_stop` has been called. -/
structure AsyncLog (ι Q : Type*) where
  queue : Q
  running : Bool
  clock : ℕ
  alog : Option ι → AlogPc
  task : LogTaskPc
  done : Bool
  stderr : List LogLine
  calls : List LogCall
  sent : List (ℕ × LogMessage)
  stopped : Bool

inductive LogAction (ι : Type*) where
  | call (t : ι) (args : LogCall)
  | alog (w : Option ι)
  | task
  | poll (outcome : PollOutcome)
  | tick (d : ℕ)
  | stop
  deriving DecidableEq

/-- The two `LOGD` calls of `log_task`. -/
def logTaskCall (final : Bool) : LogCall :=
  .debug "log_task" (if final then "received shutdown signal, draining remaining messages..."
    else "successfully initialized. Logging queue...")

namespace AsyncLog
variable {ι Q : Type*}

/-- The messages printed, in order. -/
def printed (s : AsyncLog ι Q) : List LogMessage := s.stderr.filterMap LogLine.printed

/-- The calls that reported "log queue full". -/
def reported (s : AsyncLog ι Q) : List ℕ := s.stderr.filterMap LogLine.full

def write (s : AsyncLog ι Q) (line : LogLine) : AsyncLog ι Q :=
  {s with stderr := s.stderr ++ [line]}

@[simp] theorem write_printed (s : AsyncLog ι Q) (line : LogLine) :
    (s.write line).printed = s.printed ++ line.printed.toList := by
  cases line <;> simp [printed,write,LogLine.printed]

@[simp] theorem write_reported (s : AsyncLog ι Q) (line : LogLine) :
    (s.write line).reported = s.reported ++ line.full.toList := by
  cases line <;> simp [reported,write,LogLine.full]

variable [DecidableEq ι]

def setAlog (s : AsyncLog ι Q) (w : Option ι) (pc : AlogPc) : AsyncLog ι Q :=
  {s with alog := Function.update s.alog w pc}

/-- A thread begins an `ALOG` call. -/
def enter (s : AsyncLog ι Q) (w : Option ι) (c : LogCall) : AsyncLog ι Q :=
  {s.setAlog w (.inside s.calls.length c .level) with calls := s.calls ++ [c]}

/-- The send returned 0. -/
def accept (s : AsyncLog ι Q) (w : Option ι) (call : ℕ) (msg : LogMessage) (q : Q) : AsyncLog ι Q :=
  {s.setAlog w .idle with queue := q, sent := s.sent ++ [(call,msg)]}

/-- One statement of `ALOG`. -/
def stepAlog (L : LogQueue Q) (s : AsyncLog ι Q) (w : Option ι) (n : ℕ) (c : LogCall) :
    AlogStep → AsyncLog ι Q
  | .level => s.setAlog w (if c.enabled then .inside n c .warn else .idle)
  | .warn => (if s.running then s else s.write (.notRunning c.tag)).setAlog w (.inside n c .clock)
  | .clock => s.setAlog w (.inside n c (.format s.clock s.sent.length))
  | .format time mark => s.setAlog w (.inside n c (.send (c.record time) mark))
  | .send msg _ => match L.send s.queue msg with
    | none => s.setAlog w (.inside n c .report)
    | some q => s.accept w n msg q
  | .report => (s.write (.queueFull n c.tag)).setAlog w .idle

/-- One statement of `log_task` outside its `poll`. -/
def stepTask (L : LogQueue Q) (s : AsyncLog ι Q) : LogTaskPc → Option (AsyncLog ι Q)
  | .announce final => some {s.enter none (logTaskCall final) with task := .announcing final}
  | .announcing final => match s.alog none with
    | .idle => some {s with task := if final then .clearRunning else .loop}
    | .inside .. => none
  | .loop => some {s with task := if s.running then .poll else .setRunning}
  | .poll => none
  | .receive final => match L.receive s.queue with
    | none => some {s with task := if final then .signal else .loop}
    | some (msg,q) => some {s with queue := q, task := .print final msg}
  | .print final msg => some {s.write (.message msg) with task := .receive final}
  | .setRunning => some {s with running := true, task := .announce true}
  | .clearRunning => some {s with running := false, task := .receive true}
  | .signal => some {s with done := true, task := .finished}
  | .finished => none

/-- The rest of the loop body behind `poll`. -/
def afterPoll (s : AsyncLog ι Q) (ret : ℤ) (revents : List Bool) : AsyncLog ι Q :=
  if ret = -1 then {s.write .pollFailed with task := .loop}
  else if ret>0 ∧ revents[0]? = some true then {s with task := .receive false}
  else {s with task := .loop}

def stepPoll (L : LogQueue Q) (s : AsyncLog ι Q) (outcome : PollOutcome) : Option (AsyncLog ι Q) :=
  (pollReply [L.readable s.queue] outcome).map fun r => s.afterPoll r.1 r.2

def next (L : LogQueue Q) (s : AsyncLog ι Q) : LogAction ι → Option (AsyncLog ι Q)
  | .call t c => match s.alog (some t) with
    | .idle => some (s.enter (some t) c)
    | .inside .. => none
  | .alog w => match s.alog w with
    | .idle => none
    | .inside n c pc => some (s.stepAlog L w n c pc)
  | .task => s.stepTask L s.task
  | .poll outcome => match s.task with
    | .poll => s.stepPoll L outcome
    | _ => none
  | .tick d => some {s with clock := s.clock+d}
  | .stop => some {s with running := false, stopped := true}

/-- After `log_task_init`: an empty queue, `g_log_running` at 1 and the thread created. -/
def start (q : Q) (clock : ℕ) : AsyncLog ι Q :=
  ⟨q,true,clock,fun _ => .idle,.announce false,false,[],[],[],false⟩

def machine (L : LogQueue Q) (q : Q) : Machine (AsyncLog ι Q) (LogAction ι) where
  init s := ∃ clock, s = start q clock
  next := next L

theorem start_init (L : LogQueue Q) (q : Q) (clock : ℕ) :
    (machine L q).init (start q clock : AsyncLog ι Q) := ⟨clock,rfl⟩

variable {s : AsyncLog ι Q} {w v : Option ι} {pc : AlogPc}

@[simp] theorem setAlog_other (h : v ≠ w) : (s.setAlog w pc).alog v = s.alog v := by
  simp [setAlog,h]

/-- What a statement of `ALOG` leaves alone. -/
theorem stepAlog_frame (L : LogQueue Q) (s : AsyncLog ι Q) (w : Option ι) (n : ℕ) (c : LogCall)
    (pc : AlogStep) :
    (s.stepAlog L w n c pc).task = s.task ∧ (s.stepAlog L w n c pc).running = s.running ∧
    (s.stepAlog L w n c pc).stopped = s.stopped ∧ (s.stepAlog L w n c pc).done = s.done := by
  cases pc with
  | warn =>
    simp only [stepAlog]
    split_ifs <;> exact ⟨rfl,rfl,rfl,rfl⟩
  | send msg mark =>
    simp only [stepAlog]
    split <;> exact ⟨rfl,rfl,rfl,rfl⟩
  | level | clock | format | report => exact ⟨rfl,rfl,rfl,rfl⟩

theorem stepAlog_other (L : LogQueue Q) (s : AsyncLog ι Q) (n : ℕ) (c : LogCall) (pc : AlogStep)
    (h : v ≠ w) : (s.stepAlog L w n c pc).alog v = s.alog v := by
  cases pc with
  | warn =>
    simp only [stepAlog,setAlog_other h]
    split_ifs <;> rfl
  | send msg mark =>
    simp only [stepAlog]
    split <;> exact setAlog_other h
  | level | clock | format | report => exact setAlog_other h

/-- The log task itself sends nothing; it enters `ALOG` or leaves the calls alone. -/
theorem stepTask_frame {L : LogQueue Q} {s s' : AsyncLog ι Q} (h : s.stepTask L s.task = some s') :
    s'.clock = s.clock ∧ s'.sent = s.sent ∧ (s'.alog = s.alog ∨
      ∃ n c, s'.alog = Function.update s.alog none (.inside n c .level)) := by
  cases ht : s.task with
  | announce final =>
    rw [ht] at h
    cases h
    exact ⟨rfl,rfl,.inr ⟨_,_,rfl⟩⟩
  | announcing final =>
    rw [ht] at h
    simp only [stepTask] at h
    split at h <;> cases h
    exact ⟨rfl,rfl,.inl rfl⟩
  | receive final =>
    rw [ht] at h
    simp only [stepTask] at h
    split at h <;> cases h <;> exact ⟨rfl,rfl,.inl rfl⟩
  | poll | finished =>
    rw [ht] at h
    cases h
  | loop | print | setRunning | clearRunning | signal =>
    rw [ht] at h
    cases h
    exact ⟨rfl,rfl,.inl rfl⟩

omit [DecidableEq ι] in
/-- `poll` has failed, or the log task goes on to receive, or back to its loop test. -/
theorem stepPoll_cases {L : LogQueue Q} {s s' : AsyncLog ι Q} {outcome : PollOutcome}
    (h : s.stepPoll L outcome = some s') :
    s' = {s.write .pollFailed with task := .loop} ∨ s' = {s with task := .receive false} ∨
      s' = {s with task := .loop} := by
  obtain ⟨r,-,rfl⟩ := Option.map_eq_some_iff.mp h
  unfold afterPoll
  split_ifs
  · exact .inl rfl
  · exact .inr (.inl rfl)
  · exact .inr (.inr rfl)

theorem next_poll {L : LogQueue Q} {s s' : AsyncLog ι Q} {outcome : PollOutcome}
    (h : s.next L (.poll outcome) = some s') : s.task = .poll ∧ s.stepPoll L outcome = some s' := by
  cases ht : s.task <;> simp only [next,ht,reduceCtorEq] at h
  exact ⟨rfl,h⟩

end AsyncLog
end TTK4145.Rtsystem
