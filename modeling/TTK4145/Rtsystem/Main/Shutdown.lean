import Mathlib.Logic.Function.Basic
import TTK4145.Lib.Machine
import TTK4145.Rtsystem.Core.TaskHelper

/-! The shutdown in `rtsystem/src/main/main.c` over any number of task arrays, interleaved with the
task threads and the log thread. Cancellation is deferred: a cancelled thread ends at one of its
cancellation points and does not write its `done_fd` there. -/
namespace TTK4145.Rtsystem
open Lib

/-- A task thread in the body of its loop, in `task_handle_mark_done`, or ended. -/
inductive TaskPc where
  | body
  | markState
  | markDone
  | markLog
  | terminated
  deriving DecidableEq, Repr

/-- `released` is set when the cleanup callback has run and the handle has been destroyed. -/
structure Task (κ : Type*) where
  handle : TaskHandle κ
  pc : TaskPc
  cancelled : Bool
  released : Bool

inductive LogThreadPc where
  | running
  | signalled
  | terminated
  deriving DecidableEq, Repr

/-- The log thread with `g_log_running` and `g_log_done_fd`. -/
structure LogThread where
  pc : LogThreadPc
  running : Bool
  doneFd : EventFd
  cancelled : Bool
  deriving DecidableEq, Repr

/-- The statements of `main` behind its signal loop; `i` is the array and `j` the slot which the
loop at hand looks at next. -/
inductive MainPc where
  | stop (i j : ℕ)
  | poll (i : ℕ)
  | cancel (i j : ℕ)
  | join (i j : ℕ)
  | joinWait (i j : ℕ)
  | destroy (i j : ℕ)
  | arrayDestroy (i : ℕ)
  | logStop
  | logPoll
  | logCancel
  | logJoin
  | logCleanup
  | exited
  deriving DecidableEq, Repr

/-- What the threads share. `fault` remembers that a thread has used its input buffer, its
`done_fd` or the log queue after the release. -/
structure Shutdown (τ κ : Type*) where
  arrays : List (List (Option τ))
  task : τ → Task κ
  log : LogThread
  main : MainPc
  force : Bool
  sigint : Bool
  logReleased : Bool
  fault : Bool

/-- What a task uses in its loop. -/
inductive Resource where
  | buffer
  | logQueue
  deriving DecidableEq, Repr

inductive ShutdownAction (τ : Type*) where
  | main
  | poll (malloc : Bool) (outcome : PollOutcome)
  | check (outcome : PollOutcome)
  | use (t : τ) (r : Resource)
  | leave (t : τ)
  | step (t : τ)
  | die (t : τ)
  | logUse
  | logDone
  | logReturn
  | logDie
  | sigint
  deriving DecidableEq

/-- What a loop over the slots of the arrays finds at its indices. -/
inductive Visit (τ : Type*) where
  | noArray
  | endOfArray
  | empty
  | task (t : τ)

def visit {τ : Type*} (arrays : List (List (Option τ))) (i j : ℕ) : Visit τ :=
  match arrays[i]? with
  | none => .noArray
  | some slots => match slots[j]? with
    | none => .endOfArray
    | some none => .empty
    | some (some t) => .task t

section Visit
variable {τ : Type*} {arrays : List (List (Option τ))} {i j : ℕ} {t : τ}

theorem visit_noArray (h : visit arrays i j = .noArray) : arrays[i]? = none := by
  unfold visit at h
  split at h
  · assumption
  · split at h <;> cases h

theorem visit_endOfArray (h : visit arrays i j = .endOfArray) :
    ∃ slots, arrays[i]? = some slots ∧ slots.length ≤ j := by
  unfold visit at h
  split at h
  · cases h
  · rename_i slots hi
    split at h
    · rename_i hj
      exact ⟨slots,hi,List.getElem?_eq_none_iff.mp hj⟩
    · cases h
    · cases h

theorem visit_task (h : visit arrays i j = .task t) :
    ∃ slots, arrays[i]? = some slots ∧ slots[j]? = some (some t) := by
  unfold visit at h
  split at h
  · cases h
  · rename_i slots hi
    split at h
    · cases h
    · cases h
    · rename_i u hj
      cases h
      exact ⟨slots,hi,hj⟩

theorem visit_of_task {slots : List (Option τ)} (hi : arrays[i]? = some slots)
    (hj : slots[j]? = some (some t)) : visit arrays i j = .task t := by
  simp only [visit,hi,hj]

end Visit

namespace Shutdown
variable {τ κ : Type*}

def readable (s : Shutdown τ κ) (t : τ) : Bool := (s.task t).handle.doneFd.pollIn

/-- The descriptors of `task_array_poll_all`: the `done_fd`s of the occupied slots and `sig_fd`. -/
def pollFds (s : Shutdown τ κ) (slots : List (Option τ)) : List Bool :=
  (occupied slots).map s.readable ++ [s.sigint]

/-- The branches of `main` on the result of `task_array_poll_all`. -/
def afterPoll (s : Shutdown τ κ) (i : ℕ) (ret : ℤ) : Shutdown τ κ :=
  if ret = -2 then {s with force := true, main := .cancel i 0}
  else if ret = -1 then {s with main := .cancel i 0}
  else {s with main := .poll (i+1)}

/-- The branches of `main` on its wait for the log task, for `g_log_done_fd` and `sig_fd`. -/
def afterLogPoll (s : Shutdown τ κ) (ret : ℤ) (revents : List Bool) : Shutdown τ κ :=
  if ret<0 then {s with main := .exited}
  else if ret = 0 then {s with main := .logCancel}
  else if revents[0]? = some true then {s with main := .logJoin}
  else if revents[1]? = some true then {s with main := .logCancel}
  else {s with main := .logJoin}

def stepPoll (s : Shutdown τ κ) (malloc : Bool) (outcome : PollOutcome) : Option (Shutdown τ κ) :=
  match s.main with
  | .poll i => match s.arrays[i]? with
    | none => none
    | some slots => if s.force then none else
      (pollReply (s.pollFds slots) outcome).map fun r =>
        s.afterPoll i (taskArrayPollAll slots true malloc r.1 r.2)
  | .logPoll => (pollReply [s.log.doneFd.pollIn,s.sigint] outcome).map fun r =>
      s.afterLogPoll r.1 r.2
  | _ => none

/-- The `poll` of `task_array_join_all` on one `done_fd`, and its two branches. -/
def stepCheck (s : Shutdown τ κ) (outcome : PollOutcome) : Option (Shutdown τ κ) :=
  match s.main with
  | .join i j => match visit s.arrays i j with
    | .task t => (pollReply [s.readable t] outcome).map fun r =>
        {s with main := if (0 : ℤ)<r.1 ∧ r.2[0]? = some true then .joinWait i j else .join i (j+1)}
    | _ => none
  | _ => none

/-- A check of `task_array_join_all` waits for the thread or skips it. -/
theorem stepCheck_cases {s s' : Shutdown τ κ} {outcome : PollOutcome}
    (h : s.stepCheck outcome = some s') :
    ∃ i j t, s.main = .join i j ∧ visit s.arrays i j = .task t ∧
      (outcome = .ready ∧ s' = {s with main := .joinWait i j} ∨
        outcome ≠ .ready ∧ s' = {s with main := .join i (j+1)}) := by
  cases hm : s.main with
  | join i j =>
    simp only [stepCheck,hm] at h
    split at h
    · rename_i t hv
      obtain ⟨r,hr,rfl⟩ := Option.map_eq_some_iff.mp h
      refine ⟨i,j,t,rfl,hv,?_⟩
      split_ifs with hready
      · exact .inl ⟨pollReply_pos hr hready.1,rfl⟩
      · refine .inr ⟨?_,rfl⟩
        rintro rfl
        obtain ⟨hmem,hpos,hrev⟩ := pollReply_ready hr
        apply hready
        rw [hrev]
        exact ⟨hpos,by simpa using hmem⟩
    · cases h
  | stop | poll | cancel | joinWait | destroy | arrayDestroy | logStop | logPoll | logCancel |
    logJoin | logCleanup | exited =>
    simp only [stepCheck,hm] at h
    cases h

variable [DecidableEq τ]

def setTask (s : Shutdown τ κ) (t : τ) (th : Task κ) : Shutdown τ κ :=
  {s with task := Function.update s.task t th}

/-- The body of the loop in `task_array_handles_destroy_all` for the slot that holds `t`. -/
def release (s : Shutdown τ κ) (i j : ℕ) (t : τ) : Shutdown τ κ :=
  {s.setTask t {s.task t with handle := (s.task t).handle.setState .stopped, released := true} with
    arrays := s.arrays.modify i fun slots => slots.set j none, main := .destroy i (j+1)}

/-- The statements of `main` besides its polls. -/
def stepMain (call : κ → TaskState → TaskState) (s : Shutdown τ κ) :
    MainPc → Option (Shutdown τ κ)
  | .stop i j => match visit s.arrays i j with
    | .noArray => some {s with main := .poll 0}
    | .endOfArray => some {s with main := .stop (i+1) 0}
    | .empty => some {s with main := .stop i (j+1)}
    | .task t => some {s.setTask t {s.task t with handle := taskStop call (s.task t).handle} with
        main := .stop i (j+1)}
  | .poll i => match s.arrays[i]? with
    | none => some {s with main := .join 0 0}
    | some _ => if s.force then some {s with main := .cancel i 0} else none
  | .cancel i j => match visit s.arrays i j with
    | .noArray => none
    | .endOfArray => some {s with main := .poll (i+1)}
    | .empty => some {s with main := .cancel i (j+1)}
    | .task t => some {s.setTask t {s.task t with cancelled := true} with main := .cancel i (j+1)}
  | .join i j => match visit s.arrays i j with
    | .noArray => some {s with main := .logStop}
    | .endOfArray => some {s with main := .destroy i 0}
    | .empty => some {s with main := .join i (j+1)}
    | .task _ => none
  | .joinWait i j => match visit s.arrays i j with
    | .task t => if (s.task t).pc = .terminated then some {s with main := .join i (j+1)} else none
    | _ => none
  | .destroy i j => match visit s.arrays i j with
    | .noArray => none
    | .endOfArray => some {s with main := .arrayDestroy i}
    | .empty => some {s with main := .destroy i (j+1)}
    | .task t => some (s.release i j t)
  | .arrayDestroy i => some {s with arrays := s.arrays.set i [], main := .join (i+1) 0}
  | .logStop => some {s with log := {s.log with running := false}, main := .logPoll}
  | .logPoll => none
  | .logCancel => some {s with log := {s.log with cancelled := true}, main := .logJoin}
  | .logJoin => if s.log.pc = .terminated then some {s with main := .logCleanup} else none
  | .logCleanup => some {s with logReleased := true, main := .exited}
  | .exited => none

/-- One statement of `task_handle_mark_done`. The `write` of the `done_fd` is a cancellation point;
the message at the end uses the log queue. -/
def stepTask (s : Shutdown τ κ) (t : τ) : TaskPc → Option (Shutdown τ κ)
  | .markState => some (s.setTask t {s.task t with
      handle := (s.task t).handle.setState .stopped, pc := .markDone})
  | .markDone => if (s.task t).cancelled then none else
      some {s.setTask t {s.task t with handle := (s.task t).handle.signalDone, pc := .markLog} with
        fault := s.fault || (s.task t).released}
  | .markLog => some {s.setTask t {s.task t with pc := .terminated} with
      fault := s.fault || s.logReleased}
  | .body | .terminated => none

def next (call : κ → TaskState → TaskState) (s : Shutdown τ κ) :
    ShutdownAction τ → Option (Shutdown τ κ)
  | .main => s.stepMain call s.main
  | .poll malloc outcome => s.stepPoll malloc outcome
  | .check outcome => s.stepCheck outcome
  | .use t r => if (s.task t).pc = .body then
      some {s with fault := s.fault || match r with
        | .buffer => (s.task t).released
        | .logQueue => s.logReleased}
    else none
  | .leave t => if (s.task t).pc = .body then
      some (s.setTask t {s.task t with pc := .markState}) else none
  | .step t => s.stepTask t (s.task t).pc
  | .die t => if (s.task t).cancelled = true ∧ (s.task t).pc ≠ .markState ∧
      (s.task t).pc ≠ .terminated then some (s.setTask t {s.task t with pc := .terminated})
    else none
  | .logUse => if s.log.pc = .running then some {s with fault := s.fault || s.logReleased} else none
  | .logDone => if s.log.pc = .running ∧ s.log.running = false then
      some {s with log := {s.log with
        pc := .signalled, doneFd := s.log.doneFd.write.getD s.log.doneFd}} else none
  | .logReturn => if s.log.pc = .signalled then
      some {s with log := {s.log with pc := .terminated}} else none
  | .logDie => if s.log.pc = .running ∧ s.log.cancelled = true then
      some {s with log := {s.log with pc := .terminated}} else none
  | .sigint => some {s with sigint := true}

/-- `t` is registered in one of the arrays. -/
def Registered (arrays : List (List (Option τ))) (t : τ) : Prop :=
  ∃ slots ∈ arrays, some t ∈ slots

instance (arrays : List (List (Option τ))) (t : τ) : Decidable (Registered arrays t) :=
  inferInstanceAs (Decidable (∃ slots ∈ arrays, some t ∈ slots))

/-- The first SIGINT has been read. All registered threads have been created, and no others. -/
def machine (call : κ → TaskState → TaskState) (arrays : List (List (Option τ))) :
    Machine (Shutdown τ κ) (ShutdownAction τ) where
  init s := s.arrays = arrays ∧ s.main = .stop 0 0 ∧ s.force = false ∧ s.logReleased = false ∧
    s.fault = false ∧ s.log = ⟨.running,true,⟨0⟩,false⟩ ∧
    ∀ t, (s.task t).cancelled = false ∧ (s.task t).released = false ∧
      (s.task t).handle.doneFd.counter = 0 ∧
      (Registered arrays t ∧ (s.task t).pc = .body ∨
        ¬ Registered arrays t ∧ (s.task t).pc = .terminated)
  next := next call

/-- All tasks in their loops, with handles that have no callbacks. -/
def start (arrays : List (List (Option τ))) : Shutdown τ κ :=
  ⟨arrays,fun _ => ⟨taskHandleInit.setState .running,.body,false,false⟩,⟨.running,true,⟨0⟩,false⟩,
    .stop 0 0,false,false,false,false⟩

theorem start_init (call : κ → TaskState → TaskState) {arrays : List (List (Option τ))}
    (h : ∀ t, Registered arrays t) : (machine call arrays).init (start arrays) :=
  ⟨rfl,rfl,rfl,rfl,rfl,rfl,fun t => ⟨rfl,rfl,rfl,.inl ⟨h t,rfl⟩⟩⟩

section Tasks
variable {s : Shutdown τ κ} {t u : τ} {th : Task κ}

@[simp] theorem setTask_same : (s.setTask t th).task t = th := by simp [setTask]
@[simp] theorem setTask_other (h : u ≠ t) : (s.setTask t th).task u = s.task u := by
  simp [setTask,h]

/-- A property of all tasks that holds of the new one. -/
theorem setTask_forall {P : τ → Task κ → Prop} (h : ∀ u, P u (s.task u)) (ht : P t th) (u : τ) :
    P u ((s.setTask t th).task u) := by
  by_cases hut : u = t
  · subst u
    rw [setTask_same]
    exact ht
  · rw [setTask_other hut]
    exact h u

theorem release_same {i j : ℕ} : (s.release i j t).task t = {s.task t with
    handle := (s.task t).handle.setState .stopped, released := true} := setTask_same

theorem release_pc {i j : ℕ} (u : τ) : ((s.release i j t).task u).pc = (s.task u).pc := by
  by_cases hut : u = t
  · subst u
    rw [release_same]
  · exact congrArg Task.pc (setTask_other hut)

end Tasks

/-- What a step of a task thread, of the log thread or of the terminal may change. -/
structure ThreadStep (s s' : Shutdown τ κ) : Prop where
  arrays : s'.arrays = s.arrays
  main : s'.main = s.main
  force : s'.force = s.force
  logReleased : s'.logReleased = s.logReleased
  cancelled : ∀ t, (s'.task t).cancelled = (s.task t).cancelled
  released : ∀ t, (s'.task t).released = (s.task t).released
  readable : ∀ t, s.readable t = true → s'.readable t = true
  terminated : ∀ t, (s.task t).pc = .terminated → (s'.task t).pc = .terminated
  logTerminated : s.log.pc = .terminated → s'.log.pc = .terminated
  fault : s'.fault = true → s.fault = true ∨
    (∃ t, (s.task t).pc ≠ .terminated ∧ ((s.task t).released = true ∨ s.logReleased = true)) ∨
    s.log.pc ≠ .terminated ∧ s.logReleased = true

variable {call : κ → TaskState → TaskState} {s s' : Shutdown τ κ} {a : ShutdownAction τ}

/-- A live thread moves on. -/
theorem ThreadStep.setTask {t : τ} {th : Task κ} {fault : Bool} (live : (s.task t).pc ≠ .terminated)
    (hc : th.cancelled = (s.task t).cancelled) (hr : th.released = (s.task t).released)
    (hd : s.readable t = true → th.handle.doneFd.pollIn = true)
    (hf : fault = true → s.fault = true ∨ (s.task t).released = true ∨ s.logReleased = true) :
    ThreadStep s {s.setTask t th with fault := fault} where
  arrays := rfl
  main := rfl
  force := rfl
  logReleased := rfl
  cancelled := setTask_forall (P := fun u th => th.cancelled = (s.task u).cancelled)
    (fun _ => rfl) hc
  released := setTask_forall (P := fun u th => th.released = (s.task u).released) (fun _ => rfl) hr
  readable := setTask_forall (P := fun u th => s.readable u = true → th.handle.doneFd.pollIn = true)
    (fun _ h => h) hd
  terminated := setTask_forall (P := fun u th => (s.task u).pc = .terminated → th.pc = .terminated)
    (fun _ h => h) (fun h => absurd h live)
  logTerminated := id
  fault h := (hf h).imp_right fun h => .inl ⟨t,live,h⟩

omit [DecidableEq τ] in
/-- Only what the log thread, the terminal and the uses of released objects leave behind. -/
theorem ThreadStep.setLog {log : LogThread} {sigint fault : Bool}
    (hl : s.log.pc = .terminated → log.pc = .terminated)
    (hf : fault = true → s.fault = true ∨
      (∃ t, (s.task t).pc ≠ .terminated ∧ ((s.task t).released = true ∨ s.logReleased = true)) ∨
      s.log.pc ≠ .terminated ∧ s.logReleased = true) :
    ThreadStep s {s with log := log, sigint := sigint, fault := fault} where
  arrays := rfl
  main := rfl
  force := rfl
  logReleased := rfl
  cancelled _ := rfl
  released _ := rfl
  readable _ h := h
  terminated _ h := h
  logTerminated := hl
  fault := hf

theorem ThreadStep.of_stepTask {t : τ} (h : s.stepTask t (s.task t).pc = some s') :
    ThreadStep s s' := by
  cases hpc : (s.task t).pc with
  | body | terminated =>
    rw [hpc] at h
    cases h
  | markState =>
    rw [hpc] at h
    cases h
    exact ThreadStep.setTask (by rw [hpc]; simp) rfl rfl id .inl
  | markDone =>
    rw [hpc] at h
    simp only [stepTask] at h
    split_ifs at h
    cases h
    refine ThreadStep.setTask (by rw [hpc]; simp) rfl rfl (fun _ => signalDone_readable _) ?_
    intro hf
    exact (Bool.or_eq_true_iff.mp hf).imp_right .inl
  | markLog =>
    rw [hpc] at h
    cases h
    refine ThreadStep.setTask (by rw [hpc]; simp) rfl rfl id ?_
    intro hf
    exact (Bool.or_eq_true_iff.mp hf).imp_right .inr

/-- The first two statements are `task_handle_mark_done` on the handle. -/
theorem markDone_handle {u : Shutdown τ κ} {t : τ} (hu : s.stepTask t .markState = some u)
    (h : u.stepTask t .markDone = some s') :
    (s'.task t).handle = taskHandleMarkDone (s.task t).handle := by
  cases hu
  simp only [stepTask] at h
  split_ifs at h
  cases h
  simp [taskHandleMarkDone]

/-- Everything a step can be: a statement of `main`, or a step of another thread. -/
theorem next_cases (h : s.next call a = some s') :
    (a = .main ∧ s.stepMain call s.main = some s') ∨
    (∃ malloc outcome, a = .poll malloc outcome ∧ s.stepPoll malloc outcome = some s') ∨
    (∃ outcome, a = .check outcome ∧ s.stepCheck outcome = some s') ∨ ThreadStep s s' := by
  cases a with
  | main => exact .inl ⟨rfl,h⟩
  | poll malloc outcome => exact .inr (.inl ⟨malloc,outcome,rfl,h⟩)
  | check outcome => exact .inr (.inr (.inl ⟨outcome,rfl,h⟩))
  | step t => exact .inr (.inr (.inr (ThreadStep.of_stepTask h)))
  | use t r =>
    simp only [next] at h
    split_ifs at h with hpc
    cases h
    have live : (s.task t).pc ≠ .terminated := by
      rw [hpc]
      simp
    refine .inr (.inr (.inr (ThreadStep.setLog id fun hf => ?_)))
    refine (Bool.or_eq_true_iff.mp hf).imp_right fun hr => .inl ⟨t,live,?_⟩
    cases r with
    | buffer => exact .inl hr
    | logQueue => exact .inr hr
  | leave t =>
    simp only [next] at h
    split_ifs at h with hpc
    cases h
    exact .inr (.inr (.inr (ThreadStep.setTask (by rw [hpc]; simp) rfl rfl id .inl)))
  | die t =>
    simp only [next] at h
    split_ifs at h with hpc
    cases h
    exact .inr (.inr (.inr (ThreadStep.setTask hpc.2.2 rfl rfl id .inl)))
  | logUse =>
    simp only [next] at h
    split_ifs at h with hpc
    cases h
    refine .inr (.inr (.inr (ThreadStep.setLog id fun hf => ?_)))
    exact (Bool.or_eq_true_iff.mp hf).imp_right fun hr => .inr ⟨by rw [hpc]; simp,hr⟩
  | logDone =>
    simp only [next] at h
    split_ifs at h with hpc
    cases h
    exact .inr (.inr (.inr (ThreadStep.setLog (fun ht => by rw [hpc.1] at ht; cases ht) .inl)))
  | logReturn | logDie =>
    simp only [next] at h
    split_ifs at h
    cases h
    exact .inr (.inr (.inr (ThreadStep.setLog (fun _ => rfl) .inl)))
  | sigint =>
    cases h
    exact .inr (.inr (.inr (ThreadStep.setLog id .inl)))

end Shutdown
end TTK4145.Rtsystem
