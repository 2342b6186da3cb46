import TTK4145.Lib.Machine
import TTK4145.Lib.Slots
import TTK4145.Rtsystem.Core.TaskHelper
import TTK4145.Rtsystem.AsyncLogHelper

/-! The task arrays of `rtsystem/src/core/task_helper.c` as a registry of handles: the slots of any
number of arrays, and in each handle the pointer back to its array. -/
namespace TTK4145.Rtsystem
open Lib

/-- What the functions on arrays use of a `task_handle_t`; `none` stands for `NULL`, and for -1 in
`doneFd`. -/
structure ArrayHandle (α κ : Type*) where
  name : List UInt8
  array : Option α
  doneFd : Option ℕ
  state : TaskState
  onCleanup : Option κ
  deriving DecidableEq, Repr

/-- What a destruction does outside of the registry. -/
inductive HandleEffect (η κ : Type*) where
  | cleanup (f : κ) (h : η)
  | close (fd : ℕ)
  deriving DecidableEq, Repr

structure Registry (α η κ : Type*) where
  slots : α → List (Option η)
  handle : η → ArrayHandle α κ
  effects : List (HandleEffect η κ)

/-- The return value of a function, its `LOG` calls and the registry that it leaves. -/
structure ArrayCall (α η κ : Type*) where
  ret : ℤ
  logs : List LogCall
  registry : Registry α η κ

/-- A `LOG` call with the name of a task in its format. -/
def taskLog (level : LogLevel) (before : String) (name : List UInt8) (after : String) : LogCall :=
  ⟨.debug,level,cBytes "task_helper",cBytes before ++ name ++ cBytes after⟩

variable {α η κ : Type*} [DecidableEq α] [DecidableEq η]

namespace Registry

def setHandle (s : Registry α η κ) (h : η) (c : ArrayHandle α κ) : Registry α η κ :=
  {s with handle := Function.update s.handle h c}

def effect (s : Registry α η κ) (e : HandleEffect η κ) : Registry α η κ :=
  {s with effects := s.effects ++ [e]}

/-- `slots[i] = handle; handle->array = arr`. -/
def put (s : Registry α η κ) (a : α) (i : ℕ) (h : η) : Registry α η κ :=
  {s with
    slots := Slots.setSlot s.slots a i (some h)
    handle := Function.update s.handle h {s.handle h with array := some a}}

/-- `slots[i] = NULL; handle->array = NULL`. -/
def clear (s : Registry α η κ) (a : α) (i : ℕ) (h : η) : Registry α η κ :=
  {s with
    slots := Slots.setSlot s.slots a i none
    handle := Function.update s.handle h {s.handle h with array := none}}

end Registry

/-- `task_array_add`. -/
def taskArrayAdd (a : α) (h : η) (s : Registry α η κ) : ArrayCall α η κ :=
  match Slots.firstSlot (s.slots a) none with
  | some i => ⟨0,[taskLog .debug "added task '" (s.handle h).name s!"' to array at slot {i}"],
      s.put a i h⟩
  | none => ⟨-1,[taskLog .error "task array full, cannot add task '" (s.handle h).name "'"],s⟩

/-- `task_array_remove`. -/
def taskArrayRemove (a : α) (h : η) (s : Registry α η κ) : ArrayCall α η κ :=
  match Slots.firstSlot (s.slots a) (some h) with
  | some i => ⟨0,[taskLog .debug "removed task '" (s.handle h).name s!"' from array slot {i}"],
      s.clear a i h⟩
  | none => ⟨-1,[taskLog .warn "task '" (s.handle h).name "' not found in array"],s⟩

/-- The part of `task_handle_destroy` behind the removal: close `done_fd`, set the state. -/
def closeHandle (h : η) (s : Registry α η κ) : Registry α η κ :=
  let s := match (s.handle h).doneFd with
    | some fd => (s.effect (.close fd)).setHandle h {s.handle h with doneFd := none}
    | none => s
  s.setHandle h {s.handle h with state := .stopped}

/-- `task_handle_destroy`, which returns nothing. -/
def taskHandleDestroy (h : η) (s : Registry α η κ) : ArrayCall α η κ :=
  let removal := match (s.handle h).array with
    | some a => taskArrayRemove a h s
    | none => ⟨0,[],s⟩
  ⟨0,removal.logs ++ [taskLog .debug "destroyed handle for task '" (s.handle h).name "'"],
    closeHandle h removal.registry⟩

/-- One round of the loop in `task_array_handles_destroy_all`, which counts in `ret`. -/
def destroySlot (a : α) (c : ArrayCall α η κ) (i : ℕ) : ArrayCall α η κ :=
  match (c.registry.slots a)[i]? with
  | some (some h) =>
    let s := match (c.registry.handle h).onCleanup with
      | some f => c.registry.effect (.cleanup f h)
      | none => c.registry
    let d := taskHandleDestroy h (s.clear a i h)
    ⟨c.ret+1,c.logs ++ d.logs,d.registry⟩
  | _ => c

/-- `task_array_handles_destroy_all`, which returns nothing. -/
def taskArrayHandlesDestroyAll (a : α) (s : Registry α η κ) : ArrayCall α η κ :=
  let c := (List.range (s.slots a).length).foldl (destroySlot a) ⟨0,[],s⟩
  ⟨0,c.logs ++ [taskLog .debug s!"destroyed {c.ret} task handle(s) in array" [] ""],c.registry⟩

/-- The calls that a program makes on its registry. -/
inductive RegistryOp (α η : Type*) where
  | add (a : α) (h : η)
  | remove (a : α) (h : η)
  | handleDestroy (h : η)
  | handlesDestroyAll (a : α)
  deriving DecidableEq, Repr

def RegistryOp.call (s : Registry α η κ) : RegistryOp α η → ArrayCall α η κ
  | .add a h => taskArrayAdd a h s
  | .remove a h => taskArrayRemove a h s
  | .handleDestroy h => taskHandleDestroy h s
  | .handlesDestroyAll a => taskArrayHandlesDestroyAll a s

/-- Only a handle whose `array` is `NULL` is added. -/
def RegistryOp.Allowed (s : Registry α η κ) : RegistryOp α η → Prop
  | .add _ h => (s.handle h).array = none
  | _ => True

instance (s : Registry α η κ) (op : RegistryOp α η) : Decidable (op.Allowed s) := by
  cases op <;> unfold RegistryOp.Allowed <;> infer_instance

/-- Arrays fresh from `task_array_init` and handles fresh from `task_handle_init`, then any
sequence of calls. -/
def registry : Machine (Registry α η κ) (RegistryOp α η) where
  init s := (∀ a, ∀ x ∈ s.slots a, x = none) ∧ ∀ h, (s.handle h).array = none
  next s op := if op.Allowed s then some (op.call s).registry else none

end TTK4145.Rtsystem
