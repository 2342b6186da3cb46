import TTK4145.Lib.Lifecycle
import TTK4145.Rtsystem.Core.TaskArray

/-! `stdin_task_init` (`rtsystem/src/tasks/stdin_task.c`) with the functions of `task_helper.c` that
it calls, over the static variables of the task. Blocks, descriptors and threads are numbered in
the order in which they are made. -/
namespace TTK4145.Rtsystem
open Lib

inductive MutexName where
  | taskArray
  | logQueue
  deriving DecidableEq, Repr

inductive StdinResource where
  | block (p : ℕ)
  | fd (n : ℕ)
  deriving DecidableEq, Repr

/-- The static `handle`; `array` and `onCleanup` say whether the pointers are set. -/
structure StdinHandle where
  thread : ℕ
  doneFd : Option ℕ
  state : TaskState
  onCleanup : Bool
  array : Bool
  deriving DecidableEq, Repr

/-- `g_stdin_tasks` without its lock, `handle`, `line` and `buf_size_arg`. A slot is `true` where
it points to `handle`; `none` is `NULL`. -/
structure StdinStatics where
  slots : Option (ℕ × List Bool)
  capacity : ℕ
  handle : StdinHandle
  line : Option ℕ
  bufSizeArg : UInt64
  deriving DecidableEq, Repr

/-- `threads` lists the threads made, with their `SCHED_FIFO` priority if they have one, and
`destroyed` counts the calls of `task_handle_destroy`. -/
structure StdinWorld extends StdinStatics where
  fresh : ℕ
  threads : List (ℕ × Option ℤ)
  destroyed : ℕ
  events : List (ResourceEvent MutexName StdinResource)
  logs : List LogCall

/-- Which calls of the system succeed, and the text of the error that the others report. -/
structure InitOutcome where
  calloc : Bool
  eventfd : Bool
  malloc : Bool
  pthreadCreate : Bool
  strerror : List UInt8
  deriving DecidableEq, Repr

def InitOutcome.AllSucceed (env : InitOutcome) : Prop :=
  env.calloc = true ∧ env.eventfd = true ∧ env.malloc = true ∧ env.pthreadCreate = true

instance (env : InitOutcome) : Decidable env.AllSucceed :=
  inferInstanceAs (Decidable (_ ∧ _ ∧ _ ∧ _))

namespace StdinWorld

def event (s : StdinWorld) (e : ResourceEvent MutexName StdinResource) : StdinWorld :=
  {s with events := s.events ++ [e]}

/-- An `ALOG` call, which locks and unlocks the queue. -/
def log (s : StdinWorld) (c : LogCall) : StdinWorld :=
  {(s.event (.lock .logQueue)).event (.unlock .logQueue) with logs := s.logs ++ [c]}

def setHandle (s : StdinWorld) (h : StdinHandle) : StdinWorld := {s with handle := h}

def name : List UInt8 := cBytes "stdin"

/-- `task_array_init(&g_stdin_tasks, capacity)`. -/
def taskArrayInit (capacity : ℕ) (env : InitOutcome) (s : StdinWorld) : ℤ × StdinWorld :=
  if env.calloc then
    let s := {s.event (.acquire (.block s.fresh)) with
      slots := some (s.fresh,List.replicate capacity false)
      capacity := capacity
      fresh := s.fresh+1}
    (0,(s.event (.init .taskArray)).log
      (taskLog .debug s!"initialized task array with capacity {capacity}" [] ""))
  else (-1,{s with slots := none}.log
    (taskLog .error s!"failed to allocate task array of capacity {capacity}" [] ""))

/-- `task_handle_init(&handle, "stdin")`. -/
def taskHandleInit (env : InitOutcome) (s : StdinWorld) : ℤ × StdinWorld :=
  let handle : StdinHandle := ⟨0,none,.init,false,false⟩
  if env.eventfd then
    let s := {s.event (.acquire (.fd s.fresh)) with
      handle := {handle with doneFd := some s.fresh}
      fresh := s.fresh+1}
    (0,s.log (taskLog .debug "initialized handle for task '" name "'"))
  else
    let text := cBytes "': : " ++ env.strerror
    (-1,(s.setHandle handle).log
      ⟨.debug,.error,cBytes "task_helper",cBytes "eventfd failed for task '" ++ name ++ text⟩)

def cells (s : StdinWorld) : List Bool := s.slots.elim [] (·.2)

/-- Store into a slot of `g_stdin_tasks`, and into `handle.array` whether it points back. -/
def setSlot (s : StdinWorld) (i : ℕ) (held : Bool) : StdinWorld :=
  {s with
    slots := s.slots.map fun p => (p.1,p.2.set i held)
    handle := {s.handle with array := held}}

/-- `task_array_add(&g_stdin_tasks, &handle)`. -/
def taskArrayAdd (s : StdinWorld) : ℤ × StdinWorld :=
  let s := s.event (.lock .taskArray)
  match (s.cells.take s.capacity).findIdx? (· = false) with
  | some i => (0,((s.setSlot i true).event (.unlock .taskArray)).log
      (taskLog .debug "added task '" name s!"' to array at slot {i}"))
  | none => (-1,(s.event (.unlock .taskArray)).log
      (taskLog .error "task array full, cannot add task '" name "'"))

/-- `task_array_remove(&g_stdin_tasks, &handle)`. -/
def taskArrayRemove (s : StdinWorld) : StdinWorld :=
  let s := s.event (.lock .taskArray)
  match (s.cells.take s.capacity).findIdx? (· = true) with
  | some i => ((s.setSlot i false).event (.unlock .taskArray)).log
      (taskLog .debug "removed task '" name s!"' from array slot {i}")
  | none => (s.event (.unlock .taskArray)).log (taskLog .warn "task '" name "' not found in array")

/-- `close(done_fd); done_fd = -1`, unless it is -1. -/
def closeDone (s : StdinWorld) : StdinWorld :=
  match s.handle.doneFd with
  | some fd => (s.event (.release (.fd fd))).setHandle {s.handle with doneFd := none}
  | none => s

def markDestroyed (s : StdinWorld) : StdinWorld :=
  {s with handle := {s.handle with state := .stopped}, destroyed := s.destroyed+1}

/-- `task_handle_destroy(&handle)`. -/
def taskHandleDestroy (s : StdinWorld) : StdinWorld :=
  let s := (if s.handle.array then s.taskArrayRemove else s).closeDone
  s.markDestroyed.log (taskLog .debug "destroyed handle for task '" name "'")

/-- `free(slots); slots = NULL; capacity = 0`. -/
def freeSlots (s : StdinWorld) : StdinWorld :=
  let t := match s.slots with
    | some (p,_) => s.event (.release (.block p))
    | none => s
  {t with slots := none, capacity := 0}

/-- `task_array_destroy(&g_stdin_tasks)`. -/
def taskArrayDestroy (s : StdinWorld) : StdinWorld :=
  (s.event (.destroy .taskArray)).freeSlots.log (taskLog .debug "destroyed task array" [] "")

/-- `free(line); line = NULL`. -/
def freeLine (s : StdinWorld) : StdinWorld :=
  let t := match s.line with
    | some p => s.event (.release (.block p))
    | none => s
  {t with line := none}

def stdinLog (level : LogLevel) (text : List UInt8) : LogCall :=
  ⟨.debug,level,cBytes "stdin_task",text⟩

/-- What the two late failures have in common. -/
def undo (s : StdinWorld) : ℤ × StdinWorld := (-1,s.taskHandleDestroy.taskArrayDestroy)

/-- A successful `pthread_create(&handle.thread, …)`. -/
def createThread (priority : ℤ) (s : StdinWorld) : StdinWorld :=
  {s with
    handle := {s.handle with thread := s.fresh}
    threads := s.threads ++ [(s.fresh,if priority>0 then some priority else none)]
    fresh := s.fresh+1}

/-- `stdin_task_init(buf_size, priority)` behind a successful `task_array_add`. -/
def startThread (bufSize : UInt64) (priority : ℤ) (env : InitOutcome) (s : StdinWorld) :
    ℤ × StdinWorld :=
  if env.malloc then
    let s := {s.event (.acquire (.block s.fresh)) with line := some s.fresh, fresh := s.fresh+1}
    let s := {s with bufSizeArg := bufSize}
    if env.pthreadCreate then (0,s.createThread priority)
    else
      (s.log (stdinLog .error (cBytes "pthread_create failed: : " ++ env.strerror))).freeLine.undo
  else
    let s := {s with line := none}
    (s.log (stdinLog .error (cBytes s!"malloc failed for buffer of size {bufSize.toNat}"))).undo

/-- `stdin_task_init(buf_size, priority)`. -/
def stdinTaskInit (bufSize : UInt64) (priority : ℤ) (env : InitOutcome) (s : StdinWorld) :
    ℤ × StdinWorld :=
  let a := s.taskArrayInit 1 env
  if a.1 ≠ 0 then (-1,a.2.log (stdinLog .error (cBytes "failed to initialize task array")))
  else
    let h := a.2.taskHandleInit env
    if h.1 ≠ 0 then
      (-1,(h.2.log (stdinLog .error (cBytes "failed to initialize task handle"))).taskArrayDestroy)
    else
      let r := (h.2.setHandle {h.2.handle with onCleanup := true}).taskArrayAdd
      if r.1 ≠ 0 then (r.2.log (stdinLog .error (cBytes "stdin task already exists"))).undo
      else r.2.startThread bufSize priority env

/-- The static variables before the first call: zeros, so that `done_fd` is 0. The log task has
initialised its queue. -/
def Initial (s : StdinWorld) : Prop :=
  s.toStdinStatics = ⟨none,0,⟨0,some 0,.init,false,false⟩,none,0⟩ ∧ 0<s.fresh ∧
    s.events = [.init .logQueue]

/-- A successful call has handed its `buf_size` to the thread. -/
theorem stdinTaskInit_bufSizeArg {s : StdinWorld} {bufSize : UInt64} {priority : ℤ}
    {env : InitOutcome} (h : (s.stdinTaskInit bufSize priority env).1 = 0) :
    (s.stdinTaskInit bufSize priority env).2.bufSizeArg = bufSize := by
  obtain ⟨calloc,eventfd,malloc,pthreadCreate,strerror⟩ := env
  cases calloc with
  | false => cases h
  | true =>
    cases eventfd with
    | false => cases h
    | true =>
      cases malloc with
      | false => cases h
      | true =>
        cases pthreadCreate with
        | false => cases h
        | true => rfl

end StdinWorld

/-- The world of the program when `main` calls `stdin_task_init`. -/
def freshWorld : StdinWorld :=
  ⟨⟨none,0,⟨0,some 0,.init,false,false⟩,none,0⟩,4,[],0,[.init .logQueue],[]⟩

theorem freshWorld_initial : freshWorld.Initial := ⟨rfl,by decide,rfl⟩

end TTK4145.Rtsystem
