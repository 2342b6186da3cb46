import TTK4145.Lib.EventFd
import TTK4145.Lib.Poll

/-! The functions of `rtsystem/src/core/task_helper.c` on a single task handle, and
`task_array_poll_all` on the slots of an array. -/
namespace TTK4145.Rtsystem
open Lib

inductive TaskState where
  | init
  | running
  | stopping
  | stopped
  deriving DecidableEq, Repr

/-- The order of the enumeration. -/
def TaskState.toNat : TaskState → ℕ
  | .init => 0
  | .running => 1
  | .stopping => 2
  | .stopped => 3

/-- `task_handle_t` with an open `done_fd`. Callbacks are named by `κ`; `none` is `NULL`. -/
structure TaskHandle (κ : Type*) where
  state : TaskState
  doneFd : EventFd
  onStop : Option κ
  onCleanup : Option κ
  deriving DecidableEq, Repr

section Handle
variable {κ : Type*}

/-- `task_handle_init` after a successful `eventfd(0, EFD_NONBLOCK)`. -/
def taskHandleInit : TaskHandle κ := ⟨.init,⟨0⟩,none,none⟩

namespace TaskHandle

def setState (h : TaskHandle κ) (state : TaskState) : TaskHandle κ := {h with state := state}

/-- `write(done_fd, 1)`; a failure is ignored. -/
def signalDone (h : TaskHandle κ) : TaskHandle κ := {h with doneFd := h.doneFd.write.getD h.doneFd}

end TaskHandle

/-- `task_handle_mark_done`. -/
def taskHandleMarkDone (h : TaskHandle κ) : TaskHandle κ := (h.setState .stopped).signalDone

/-- `task_stop`, where `call` says which state a callback leaves in the handle. -/
def taskStop (call : κ → TaskState → TaskState) (h : TaskHandle κ) : TaskHandle κ :=
  match h.onStop with
  | some f => h.setState (call f h.state)
  | none => h.setState .stopping

/-- `done_fd` is readable once a task has marked itself done, and stays so. -/
theorem signalDone_readable (h : TaskHandle κ) : h.signalDone.doneFd.pollIn = true := by
  simp only [TaskHandle.signalDone,EventFd.write,EventFd.pollIn_iff]
  split_ifs with hlt
  · exact Nat.succ_pos _
  · simp only [Option.getD_none]
    unfold eventFdMax at hlt
    omega

@[simp] theorem taskStop_doneFd (call : κ → TaskState → TaskState) (h : TaskHandle κ) :
    (taskStop call h).doneFd = h.doneFd := by
  unfold taskStop
  split <;> rfl

@[simp] theorem taskStop_onStop (call : κ → TaskState → TaskState) (h : TaskHandle κ) :
    (taskStop call h).onStop = h.onStop := by
  unfold taskStop
  split <;> rfl

end Handle

section Array
variable {τ : Type*}

/-- The occupied slots of a task array, in order. -/
def occupied (slots : List (Option τ)) : List τ := slots.filterMap id

/-- `task_array_poll_all`: `sig` says whether `sig_fd` is valid, `malloc` whether the allocation
succeeds, and `ret` and `revents` are the answer of `poll` for the `done_fd`s of the occupied
slots in order, with `sig_fd` last. -/
def taskArrayPollAll (slots : List (Option τ)) (sig malloc : Bool) (ret : ℤ)
    (revents : List Bool) : ℤ :=
  let count := (occupied slots).length
  if count = 0 then 0
  else if !malloc then -1
  else
    let nfds := count+(if sig then 1 else 0)
    if sig ∧ ret>0 ∧ revents[nfds-1]? = some true then -2
    else
      let completed := if ret>0 then (revents.take count).count true else 0
      if ret = 0 then -1 else completed

end Array
end TTK4145.Rtsystem
