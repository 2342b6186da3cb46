import TTK4145.Lib.Poll
import TTK4145.Lib.WaitFor
import TTK4145.Rtsystem.Core.TaskArray

/-! The shutdown in `rtsystem/src/main/main.c` with every lock and unlock of a mutex as a step of
its own: those of the task arrays in `task_helper.c`, and that of the log queue in each `LOG` call
and in `log_task.c`. Nothing is cancelled: runs in which `task_array_poll_all` would make `main` do so
are left out. -/
namespace TTK4145.Rtsystem
open Lib

inductive LockName (α : Type*) where
  | array (a : α)
  | queue
  deriving DecidableEq, Repr

inductive ThreadName (η : Type*) where
  | main
  | log
  | task (h : η)
  deriving DecidableEq, Repr

/-- The `LOG` calls which a thread makes before its next statement, and whether it is in the
critical section of `fifo_queue_send`. -/
structure Logger where
  calls : ℕ
  sending : Bool
  deriving DecidableEq, Repr

/-- The functions that go through the slots of an array under its lock. -/
inductive ArrayFn where
  | stopAll
  | pollAll
  | joinAll
  | handlesDestroyAll
  deriving DecidableEq, Repr

inductive MainCall (α : Type*) where
  | array (f : ArrayFn) (a : α)
  | arrayDestroy (a : α)
  | logTaskStop
  deriving DecidableEq, Repr

/-- The loops of `main` over `task_arrays`, unrolled. -/
def mainScript {α : Type*} (arrays : List α) : List (MainCall α) :=
  arrays.map (.array .stopAll) ++ arrays.map (.array .pollAll) ++
    arrays.flatMap (fun a => [.array .joinAll a,.array .handlesDestroyAll a,.arrayDestroy a]) ++
    [.logTaskStop]

inductive ArrayOp (α η : Type*) where
  | add (a : α) (h : η)
  | remove (a : α) (h : η)
  deriving DecidableEq, Repr

/-- Stages of `task_array_add` and `task_array_remove`. -/
inductive OpStage where
  | lock
  | run
  | unlock
  deriving DecidableEq, Repr

/-- The next statement of `main`: between two calls, or in a call for the array `a`, whose loop
stands at slot `i` with the handle `h`. `remove` is the removal from `b` at the start of
`task_handle_destroy`. -/
inductive SectionPc (α η : Type*) where
  | call
  | lock (f : ArrayFn) (a : α)
  | slot (f : ArrayFn) (a : α) (i : ℕ)
  | join (a : α) (i : ℕ) (h : η)
  | clear (a : α) (i : ℕ) (h : η)
  | destroy (a : α) (i : ℕ) (h : η)
  | remove (stage : OpStage) (b a : α) (i : ℕ) (h : η)
  | close (a : α) (i : ℕ) (h : η)
  | unlock (f : ArrayFn) (a : α)
  | poll (slots : List (Option η))
  deriving DecidableEq, Repr

/-- A task in its body, in a call on an array, in `task_handle_mark_done`, or behind it. -/
inductive WorkerPc (α η : Type*) where
  | body
  | op (stage : OpStage) (o : ArrayOp α η)
  | markState
  | markWrite
  | tail
  | ended
  deriving DecidableEq, Repr

/-- The log task; `drain` marks the second of its two loops around `fifo_queue_receive`. -/
inductive LogLoopPc where
  | loop
  | poll
  | receive (drain : Bool)
  | receiving (drain : Bool)
  | drain
  | done
  | ended
  deriving DecidableEq, Repr

/-- What the shutdown starts from: the arrays of `main`, the array of each handle, the `on_stop`
callbacks, which only log, and the capacity of the log queue. -/
structure ShutdownSetup (α η κ : Type*) where
  arrays : List α
  nodup : arrays.Nodup
  home : η → α
  onStop : η → Option κ
  capacity : ℕ

/-- `owner` has the mutexes. `joins` is a history of the calls of `pthread_join` for tasks. -/
structure Locking (α η κ : Type*) where
  registry : Registry α η κ
  fds : ℕ → EventFd
  queued : ℕ
  logRunning : Bool
  owner : LockName α → Option (ThreadName η)
  logger : ThreadName η → Logger
  script : List (MainCall α)
  main : SectionPc α η
  task : η → WorkerPc α η
  log : LogLoopPc
  joins : List η

/-- What a task does next in its body, where it logs, edits an array or comes to its end, and
behind `task_handle_mark_done`. -/
inductive WorkerChoice (α η : Type*) where
  | log
  | op (o : ArrayOp α η)
  | finish
  | go
  deriving DecidableEq, Repr

/-- A step of a thread in a `LOG` call, or at its next statement: `calls` is the number of `LOG`
calls that a callback makes. -/
inductive LockAction (α η : Type*) where
  | log (t : ThreadName η)
  | main (calls : ℕ) (outcome : PollOutcome)
  | task (h : η) (c : WorkerChoice α η)
  | logTask (ready : Bool)
  deriving DecidableEq, Repr

namespace ArrayOp
variable {α η κ : Type*}

def array : ArrayOp α η → α
  | add a _ | remove a _ => a

/-- Each handle is in one array: its home, and at most once. -/
def Allowed (setup : ShutdownSetup α η κ) (s : Registry α η κ) : ArrayOp α η → Prop
  | add a h => (s.handle h).array = none ∧ setup.home h = a
  | remove _ _ => True

variable [DecidableEq α] [DecidableEq η]

instance (setup : ShutdownSetup α η κ) (s : Registry α η κ) :
    (o : ArrayOp α η) → Decidable (o.Allowed setup s)
  | add _ _ => inferInstanceAs (Decidable (_ ∧ _))
  | remove _ _ => isTrue trivial

/-- What happens between the lock and the unlock. -/
def run (s : Registry α η κ) : ArrayOp α η → Registry α η κ
  | add a h => (taskArrayAdd a h s).registry
  | remove a h => (taskArrayRemove a h s).registry

end ArrayOp

namespace Locking
variable {α η κ : Type*} [DecidableEq α] [DecidableEq η]

def goto (s : Locking α η κ) (pc : SectionPc α η) : Locking α η κ := {s with main := pc}

def setTask (s : Locking α η κ) (h : η) (pc : WorkerPc α η) : Locking α η κ :=
  {s with task := Function.update s.task h pc}

/-- The next `n` things that `t` does are `LOG` calls. -/
def logs (s : Locking α η κ) (t : ThreadName η) (n : ℕ) : Locking α η κ :=
  {s with logger := Function.update s.logger t ⟨n,false⟩}

/-- `pthread_mutex_lock`, once the mutex is free. -/
def acquire (s : Locking α η κ) (m : LockName α) (t : ThreadName η) : Option (Locking α η κ) :=
  if s.owner m = none then some {s with owner := Function.update s.owner m (some t)} else none

/-- `pthread_mutex_unlock`. -/
def release (s : Locking α η κ) (m : LockName α) : Locking α η κ :=
  {s with owner := Function.update s.owner m none}

/-- Whether the `done_fd` of a handle is readable. -/
def readable (s : Locking α η κ) (h : η) : Bool :=
  match (s.registry.handle h).doneFd with
  | some fd => (s.fds fd).pollIn
  | none => false

/-- `handle->state = state`. -/
def setState (s : Locking α η κ) (h : η) (state : TaskState) : Locking α η κ :=
  {s with registry := s.registry.setHandle h {s.registry.handle h with state := state}}

/-- `write(handle->done_fd, 1)`; a failure is ignored. -/
def signalDone (s : Locking α η κ) (h : η) : Locking α η κ :=
  match (s.registry.handle h).doneFd with
  | some fd => {s with fds := Function.update s.fds fd ((s.fds fd).write.getD (s.fds fd))}
  | none => s

/-- `fifo_queue_send` in a `LOG` call: the lock, then the message and the unlock. -/
def stepLog (capacity : ℕ) (s : Locking α η κ) (t : ThreadName η) : Option (Locking α η κ) :=
  if (s.logger t).sending then
    some {(s.release .queue).logs t ((s.logger t).calls-1) with
      queued := if s.queued ≥ capacity then s.queued else s.queued+1}
  else if 0<(s.logger t).calls then
    (s.acquire .queue t).map fun u =>
      {u with logger := Function.update u.logger t ⟨(u.logger t).calls,true⟩}
  else none

/-- A round of the loop over the slots. -/
def visitSlot (setup : ShutdownSetup α η κ) (s : Locking α η κ) (a : α) (i : ℕ) (h : η)
    (calls : ℕ) (outcome : PollOutcome) : ArrayFn → Option (Locking α η κ)
  | .stopAll => some (match setup.onStop h with
      | some _ => (s.logs .main (calls+1)).goto (.slot .stopAll a (i+1))
      | none => ((s.setState h .stopping).logs .main 1).goto (.slot .stopAll a (i+1)))
  | .pollAll => some (s.goto (.slot .pollAll a (i+1)))
  | .joinAll => (pollReply [s.readable h] outcome).map fun r =>
      if 0<r.1 ∧ r.2[0]? = some true then {s.goto (.join a i h) with joins := s.joins ++ [h]}
      else (s.logs .main 1).goto (.slot .joinAll a (i+1))
  | .handlesDestroyAll => some ((s.logs .main
      (if (s.registry.handle h).onCleanup.isSome then calls else 0)).goto (.clear a i h))

/-- The statements of `main`. -/
def stepMain (setup : ShutdownSetup α η κ) (s : Locking α η κ) (calls : ℕ)
    (outcome : PollOutcome) : Option (Locking α η κ) :=
  match s.main with
  | .call => match s.script with
    | [] => none
    | .array f a::rest => some {s.goto (.lock f a) with script := rest}
    | .arrayDestroy a::rest => some ({s with
        script := rest
        registry := {s.registry with
          slots := Function.update s.registry.slots a []}}.logs .main 1)
    | .logTaskStop::rest => some {s with script := rest, logRunning := false}
  | .lock f a => (s.acquire (.array a) .main).map fun u => u.goto (.slot f a 0)
  | .slot f a i => match (s.registry.slots a)[i]? with
    | none => some (s.goto (.unlock f a))
    | some none => some (s.goto (.slot f a (i+1)))
    | some (some h) => s.visitSlot setup a i h calls outcome f
  | .join a i h => if s.task h = .ended then
      some ((s.logs .main 1).goto (.slot .joinAll a (i+1))) else none
  | .clear a i h => some {s.goto (.destroy a i h) with registry := s.registry.clear a i h}
  | .destroy a i h => some (match (s.registry.handle h).array with
      | some b => s.goto (.remove .lock b a i h)
      | none => s.goto (.close a i h))
  | .remove .lock b a i h =>
      (s.acquire (.array b) .main).map fun u => u.goto (.remove .run b a i h)
  | .remove .run b a i h => some {s.goto (.remove .unlock b a i h) with
      registry := (taskArrayRemove b h s.registry).registry}
  | .remove .unlock b a i h =>
      some (((s.release (.array b)).logs .main 1).goto (.close a i h))
  | .close a i h => some {(s.logs .main 1).goto (.slot .handlesDestroyAll a (i+1)) with
      registry := closeHandle h s.registry}
  | .unlock f a => some (match f with
      | .pollAll => (s.release (.array a)).goto (.poll (s.registry.slots a))
      | _ => ((s.release (.array a)).logs .main 1).goto .call)
  | .poll slots => (pollReply ((occupied slots).map s.readable ++ [false]) outcome).bind fun r =>
      if 0 ≤ taskArrayPollAll slots true true r.1 r.2 then some (s.goto .call) else none

/-- The statements of a task. -/
def stepTask (setup : ShutdownSetup α η κ) (s : Locking α η κ) (h : η)
    (c : WorkerChoice α η) : Option (Locking α η κ) :=
  match s.task h,c with
  | .body,.log => some (s.logs (.task h) 1)
  | .body,.op o => some (s.setTask h (.op .lock o))
  | .body,.finish => some (s.setTask h .markState)
  | .op .lock o,.go => (s.acquire (.array o.array) (.task h)).map fun u =>
      u.setTask h (.op .run o)
  | .op .run o,.go => if o.Allowed setup s.registry then
      some {s.setTask h (.op .unlock o) with registry := o.run s.registry} else none
  | .op .unlock o,.go =>
      some (((s.release (.array o.array)).logs (.task h) 1).setTask h .body)
  | .markState,.go => some ((s.setState h .stopped).setTask h .markWrite)
  | .markWrite,.go => some (((s.signalDone h).logs (.task h) 1).setTask h .tail)
  | .tail,.log => some (s.logs (.task h) 1)
  | .tail,.finish => some (s.setTask h .ended)
  | _,_ => none

/-- The statements of the log task; `ready` is the result of its `poll`. -/
def stepLogTask (s : Locking α η κ) (ready : Bool) : Option (Locking α η κ) :=
  match s.log with
  | .loop => some (if s.logRunning then {s with log := .poll}
      else {s.logs .log 1 with log := .drain, logRunning := true})
  | .poll => some {s with log := if ready then .receive false else .loop}
  | .receive drain => (s.acquire .queue .log).map fun u => {u with log := .receiving drain}
  | .receiving drain => some (if s.queued = 0
      then {s.release .queue with log := if drain then .done else .loop}
      else {s.release .queue with log := .receive drain, queued := s.queued-1})
  | .drain => some {s with log := .receive true, logRunning := false}
  | .done => some {s with log := .ended}
  | .ended => none

def next (setup : ShutdownSetup α η κ) (s : Locking α η κ) :
    LockAction α η → Option (Locking α η κ)
  | .log t => s.stepLog setup.capacity t
  | .main calls outcome =>
      if (s.logger .main).calls = 0 then s.stepMain setup calls outcome else none
  | .task h c => if (s.logger (.task h)).calls = 0 then s.stepTask setup h c else none
  | .logTask ready => if (s.logger .log).calls = 0 then s.stepLogTask ready else none

end Locking

/-- The slots agree with the handles: a handle stands in one slot at most, of its home, and points to
that array. -/
structure Housed {α η κ : Type*} (setup : ShutdownSetup α η κ) (s : Registry α η κ) : Prop where
  single : Slots.Single s.slots
  pointer : ∀ h a, some h ∈ s.slots a → (s.handle h).array = some a
  home : ∀ h a, some h ∈ s.slots a → setup.home h = a

namespace Locking
variable {α η κ : Type*} [DecidableEq α] [DecidableEq η]

/-- The first SIGINT has been read. The tasks run, each with a `done_fd` of its own that nobody has
written, and no mutex is locked. -/
def machine (setup : ShutdownSetup α η κ) : Machine (Locking α η κ) (LockAction α η) where
  init s := Housed setup s.registry ∧
    (∀ h fd, (s.registry.handle h).doneFd = some fd → (s.fds fd).counter = 0) ∧
    (∀ h x fd, (s.registry.handle h).doneFd = some fd → (s.registry.handle x).doneFd = some fd →
      h = x) ∧
    (∀ m, s.owner m = none) ∧ (∀ t, (s.logger t).sending = false) ∧ (s.logger .main).calls = 1 ∧
    s.script = mainScript setup.arrays ∧ s.main = .call ∧ (∀ h, s.task h = .body) ∧
    s.log = .loop ∧ s.logRunning = true ∧ s.joins = []
  next := next setup

end Locking

/-- What the next statement of `main` waits for. -/
def SectionPc.wants {α η : Type*} : SectionPc α η → Option (Wait (LockName α) (ThreadName η))
  | .lock _ a => some (.mutex (.array a))
  | .join _ _ h => some (.join (.task h))
  | .remove .lock b _ _ _ => some (.mutex (.array b))
  | _ => none

def WorkerPc.wants {α η : Type*} : WorkerPc α η → Option (Wait (LockName α) (ThreadName η))
  | .op .lock o => some (.mutex (.array o.array))
  | _ => none

def LogLoopPc.wants {α η : Type*} : LogLoopPc → Option (Wait (LockName α) (ThreadName η))
  | .receive _ => some (.mutex .queue)
  | _ => none

/-- A task that has written its `done_fd` in `task_handle_mark_done`. -/
def WorkerPc.marked {α η : Type*} : WorkerPc α η → Bool
  | .tail | .ended => true
  | _ => false

namespace Locking
variable {α η κ : Type*}

def pcWants (s : Locking α η κ) : ThreadName η → Option (Wait (LockName α) (ThreadName η))
  | .main => s.main.wants
  | .log => s.log.wants
  | .task h => (s.task h).wants

/-- What a thread waits for: the queue if it has a message to send. -/
def wants (s : Locking α η κ) (t : ThreadName η) : Option (Wait (LockName α) (ThreadName η)) :=
  if (s.logger t).sending then none
  else if 0<(s.logger t).calls then some (.mutex .queue)
  else s.pcWants t

def Ended (s : Locking α η κ) : ThreadName η → Prop
  | .main => s.main = .call ∧ s.script = []
  | .log => s.log = .ended
  | .task h => s.task h = .ended

def waiting (s : Locking α η κ) : WaitState (LockName α) (ThreadName η) :=
  ⟨s.owner,s.wants,s.Ended⟩

/-- No thread locks a mutex which it holds, no threads wait in a circle, and `pthread_join` has been
called at most once for a handle, after its task had marked itself done. -/
structure DeadlockFree (s : Locking α η κ) : Prop where
  no_relock : ∀ t m, s.wants t = some (.mutex m) → s.owner m ≠ some t
  no_cycle : ∀ t, ¬Relation.TransGen s.waiting.HeldUpBy t t
  joined_once : s.joins.Nodup
  joined_marked : ∀ h ∈ s.joins, (s.task h).marked = true

end Locking
end TTK4145.Rtsystem
