import TTK4145.Lib.Machine
import TTK4145.Rtsystem.Core.TaskHelper

/-! The lifecycle of the stdin task: its thread (`rtsystem/src/tasks/stdin_task.c`) and any number
of threads that call `task_stop` on its handle, or `task_array_stop_all` on its array, write the
state of the handle without looking at it. -/
namespace TTK4145.Rtsystem
open Lib

/-- The statements of `stdin_task`. The body of the loop does not touch the handle. -/
inductive StdinPc where
  | created
  | ready
  | testRunning
  | testState
  | body
  | exiting
  | markState
  | markDone
  | markLog
  | finished
  deriving DecidableEq, Repr

/-- The statements of `task_stop` and `task_array_stop_all`. With `all` the caller holds the lock
of the array and has found the handle in its slot. -/
inductive StopPc where
  | idle
  | lock
  | assign (all : Bool)
  | log (all : Bool)
  | unlock
  deriving DecidableEq, Repr

structure StdinLife (ι κ : Type*) where
  handle : TaskHandle κ
  running : Bool
  pc : StdinPc
  owner : Option ι
  caller : ι → StopPc

inductive StdinAction (ι : Type*) where
  | task
  | stop (t : ι)
  | stopAll (t : ι)
  | step (t : ι)
  | clearRunning
  deriving DecidableEq

namespace StdinLife
variable {ι κ : Type*} [DecidableEq ι]

/-- One statement of the task thread. -/
def stepTask (s : StdinLife ι κ) : StdinPc → Option (StdinLife ι κ)
  | .created => some {s with handle := s.handle.setState .running, pc := .ready}
  | .ready => some {s with pc := .testRunning}
  | .testRunning => some {s with pc := if s.running then .testState else .exiting}
  | .testState => some {s with pc := if s.handle.state = .running then .body else .exiting}
  | .body => some {s with pc := .testRunning}
  | .exiting => some {s with pc := .markState}
  | .markState => some {s with handle := s.handle.setState .stopped, pc := .markDone}
  | .markDone => some {s with handle := s.handle.signalDone, pc := .markLog}
  | .markLog => some {s with pc := .finished}
  | .finished => none

def setCaller (s : StdinLife ι κ) (t : ι) (pc : StopPc) : StdinLife ι κ :=
  {s with caller := Function.update s.caller t pc}

/-- One statement of a caller. -/
def stepCaller (call : κ → TaskState → TaskState) (s : StdinLife ι κ) (t : ι) :
    StopPc → Option (StdinLife ι κ)
  | .idle => none
  | .lock => if s.owner = none then some {s.setCaller t (.assign true) with owner := some t} else none
  | .assign all => some {s.setCaller t (.log all) with handle := taskStop call s.handle}
  | .log all => some (s.setCaller t (if all then .unlock else .idle))
  | .unlock => some {s.setCaller t .idle with owner := none}

def next (call : κ → TaskState → TaskState) (s : StdinLife ι κ) :
    StdinAction ι → Option (StdinLife ι κ)
  | .task => s.stepTask s.pc
  | .stop t => if s.caller t = .idle then some (s.setCaller t (.assign false)) else none
  | .stopAll t => if s.caller t = .idle then some (s.setCaller t .lock) else none
  | .step t => s.stepCaller call t (s.caller t)
  | .clearRunning => some {s with running := false}

/-- The handle as `stdin_task_init` leaves it, with the thread created and not run yet. -/
def start (cleanup : κ) : StdinLife ι κ :=
  ⟨{taskHandleInit with onCleanup := some cleanup},true,.created,none,fun _ => .idle⟩

def machine (call : κ → TaskState → TaskState) : Machine (StdinLife ι κ) (StdinAction ι) where
  init s := ∃ cleanup, s = start cleanup
  next := next call

theorem start_init (call : κ → TaskState → TaskState) (cleanup : κ) :
    (machine call).init (start cleanup : StdinLife ι κ) := ⟨cleanup,rfl⟩

end StdinLife

/-- How far the thread has come with the state of its handle. -/
inductive StdinPhase where
  | unstarted
  | live
  | marked
  deriving DecidableEq

def StdinPc.phase : StdinPc → StdinPhase
  | .created => .unstarted
  | .markDone | .markLog | .finished => .marked
  | _ => .live

/-- The next statement of the caller writes the state of the handle. -/
def StopPc.assigns : StopPc → Bool
  | .assign _ => true
  | _ => false

section Forward
variable {ι κ : Type*} {call : κ → TaskState → TaskState} {s s' : StdinLife ι κ}
  {a : StdinAction ι} {tr : List (StdinLife ι κ × StdinAction ι)}

/-- The states which the handle has gone through, in order, never go back. -/
def Forward (tr : List (StdinLife ι κ × StdinAction ι)) (s : StdinLife ι κ) : Prop :=
  (tr.map (fun p => p.1.handle.state.toNat) ++ [s.handle.state.toNat]).Pairwise (· ≤ ·)

/-- A stop request is written between the first statement of the thread and its last own state. -/
def Timely (s : StdinLife ι κ) : StdinAction ι → Prop
  | .step t => (s.caller t).assigns = true → s.pc.phase = .live
  | _ => True

instance (s : StdinLife ι κ) : (a : StdinAction ι) → Decidable (Timely s a)
  | .step t => inferInstanceAs (Decidable ((s.caller t).assigns = true → s.pc.phase = .live))
  | .task | .stop _ | .stopAll _ | .clearRunning => isTrue trivial

theorem forward_snoc {t : StdinLife ι κ} :
    Forward (tr ++ [(s,a)]) t ↔ Forward tr s ∧ s.handle.state.toNat ≤ t.handle.state.toNat := by
  simp only [Forward,List.map_append,List.map_cons,List.map_nil,List.pairwise_append]
  constructor
  · rintro ⟨hp,-,hle⟩
    exact ⟨hp,hle _ (by simp) _ (by simp)⟩
  · rintro ⟨hp,hle⟩
    refine ⟨hp,List.pairwise_singleton _ _,fun x hx y hy => ?_⟩
    rw [List.mem_singleton.mp hy]
    rcases List.mem_append.mp hx with hx | hx
    · exact Nat.le_trans (hp.2.2 x hx _ (by simp)) hle
    · rw [List.mem_singleton.mp hx]
      exact hle

/-- What the phase of the thread says about the state of the handle. -/
structure LifeInv (s : StdinLife ι κ) : Prop where
  unstarted : s.pc.phase = .unstarted → s.handle.state = .init ∨ s.handle.state = .stopping
  live : s.pc.phase = .live → s.handle.state = .running ∨ s.handle.state = .stopping
  marked : s.pc.phase = .marked → s.handle.state = .stopped ∨ s.handle.state = .stopping
  default : s.handle.onStop = none

/-- Without a callback a stop request writes `STOPPING`. -/
theorem LifeInv.stop_state (h : LifeInv s) : (taskStop call s.handle).state = .stopping := by
  unfold taskStop
  rw [h.default]
  rfl

/-- What a run says about the order of the states so far, besides `LifeInv`. -/
structure LifeRun (tr : List (StdinLife ι κ × StdinAction ι)) (s : StdinLife ι κ) : Prop where
  inv : LifeInv s
  unstarted : s.pc.phase = .unstarted → Forward tr s ∧ (s.handle.state = .init ↔ Meets Timely tr)
  started : s.pc.phase ≠ .unstarted → (Forward tr s ↔ Meets Timely tr)
  marked : s.pc.phase = .marked → Meets Timely tr → s.handle.state = .stopped

/-- The thread starts: it goes back to `RUNNING` exactly when a request has come before. -/
theorem LifeRun.start (h : LifeRun tr s) (inv : LifeInv s') (hu : s.pc.phase = .unstarted)
    (hp : s'.pc.phase = .live) (hh : s'.handle.state = .running) (ht : Timely s a) :
    LifeRun (tr ++ [(s,a)]) s' := by
  obtain ⟨hf,hi⟩ := h.unstarted hu
  refine ⟨inv,fun hn => ?_,fun _ => ?_,fun hm => ?_⟩
  · rw [hp] at hn
    cases hn
  · rw [forward_snoc,meets_snoc,hh,←hi]
    rcases h.inv.unstarted hu with hst | hst <;> simp [hst,hf,ht,TaskState.toNat]
  · rw [hp] at hm
    cases hm

/-- The thread stops: that is the last state of all. -/
theorem LifeRun.mark (h : LifeRun tr s) (inv : LifeInv s') (hl : s.pc.phase = .live)
    (hp : s'.pc.phase = .marked) (hh : s'.handle.state = .stopped) (ht : Timely s a) :
    LifeRun (tr ++ [(s,a)]) s' := by
  have hiff := h.started (by rw [hl]; simp)
  refine ⟨inv,fun hn => ?_,fun _ => ?_,fun _ _ => hh⟩
  · rw [hp] at hn
    cases hn
  · rw [forward_snoc,meets_snoc,hh,hiff]
    cases s.handle.state <;> simp [ht,TaskState.toNat]

/-- A request moves forward unless the task has marked itself done. -/
theorem LifeRun.assign (h : LifeRun tr s) (inv : LifeInv s') (hp : s'.pc = s.pc)
    (hh : s'.handle.state = .stopping) (ht : Timely s a ↔ s.pc.phase = .live) :
    LifeRun (tr ++ [(s,a)]) s' := by
  refine ⟨inv,fun hu => ?_,fun hne => ?_,fun hm hmeets => ?_⟩
  · rw [hp] at hu
    obtain ⟨hf,-⟩ := h.unstarted hu
    rw [forward_snoc,meets_snoc,hh,ht,hu]
    rcases h.inv.unstarted hu with hst | hst <;> simp [hst,hf,TaskState.toNat]
  · rw [hp] at hne
    have hiff := h.started hne
    rw [forward_snoc,meets_snoc,hh,ht]
    cases hph : s.pc.phase with
    | unstarted => exact absurd hph hne
    | live => rcases h.inv.live hph with hst | hst <;> simp [hst,hiff,TaskState.toNat]
    | marked =>
      have hst := h.marked hph
      constructor
      · rintro ⟨hf,hle⟩
        rw [hst (hiff.mp hf)] at hle
        exact absurd hle (by decide)
      · rintro ⟨-,hl⟩
        cases hl
  · rw [hp] at hm
    rw [meets_snoc,ht,hm] at hmeets
    cases hmeets.2

/-- A step that leaves the state and the phase alone. -/
theorem LifeRun.stay (h : LifeRun tr s) (inv : LifeInv s') (ht : Timely s a)
    (hp : s'.pc.phase = s.pc.phase) (hh : s'.handle.state = s.handle.state) :
    LifeRun (tr ++ [(s,a)]) s' := by
  have hf : Forward (tr ++ [(s,a)]) s' ↔ Forward tr s := by
    rw [forward_snoc,hh]
    exact and_iff_left (Nat.le_refl _)
  have hm : Meets Timely (tr ++ [(s,a)]) ↔ Meets Timely tr := by
    rw [meets_snoc]
    exact and_iff_left ht
  refine ⟨inv,?_,?_,?_⟩ <;> rw [hp,hm]
  · rw [hf,hh]
    exact h.unstarted
  · rw [hf]
    exact h.started
  · rw [hh]
    exact h.marked

variable [DecidableEq ι]

/-- Everything a step can do to the handle: the two assignments of the thread, a stop request, or
nothing. -/
theorem StdinLife.next_cases (h : s.next call a = some s') :
    (a = .task ∧ s.pc.phase = .unstarted ∧ s'.pc.phase = .live ∧
      s'.handle = s.handle.setState .running) ∨
    (a = .task ∧ s.pc.phase = .live ∧ s'.pc.phase = .marked ∧
      s'.handle = s.handle.setState .stopped) ∨
    (∃ t, a = .step t ∧ (s.caller t).assigns = true ∧ s'.pc = s.pc ∧
      s'.handle = taskStop call s.handle) ∨
    (Timely s a ∧ s'.pc.phase = s.pc.phase ∧ s'.handle.state = s.handle.state ∧
      s'.handle.onStop = s.handle.onStop) := by
  cases a with
  | task =>
    simp only [next] at h
    cases hpc : s.pc with
    | created =>
      rw [hpc] at h
      cases h
      exact .inl ⟨rfl,rfl,rfl,rfl⟩
    | markState =>
      rw [hpc] at h
      cases h
      exact .inr (.inl ⟨rfl,rfl,rfl,rfl⟩)
    | testRunning | testState =>
      rw [hpc] at h
      cases h
      exact .inr (.inr (.inr ⟨trivial,by split_ifs <;> rfl,rfl,rfl⟩))
    | ready | body | exiting | markDone | markLog =>
      rw [hpc] at h
      cases h
      exact .inr (.inr (.inr ⟨trivial,rfl,rfl,rfl⟩))
    | finished =>
      rw [hpc] at h
      cases h
  | stop t | stopAll t =>
    simp only [next] at h
    split_ifs at h
    cases h
    exact .inr (.inr (.inr ⟨trivial,rfl,rfl,rfl⟩))
  | step t =>
    simp only [next] at h
    cases hc : s.caller t with
    | idle =>
      rw [hc] at h
      cases h
    | assign all =>
      rw [hc] at h
      cases h
      exact .inr (.inr (.inl ⟨t,rfl,by rw [hc]; rfl,rfl,rfl⟩))
    | lock =>
      rw [hc] at h
      simp only [stepCaller] at h
      split_ifs at h
      cases h
      exact .inr (.inr (.inr ⟨fun ha => (by rw [hc] at ha; cases ha),rfl,rfl,rfl⟩))
    | log all | unlock =>
      rw [hc] at h
      cases h
      exact .inr (.inr (.inr ⟨fun ha => (by rw [hc] at ha; cases ha),rfl,rfl,rfl⟩))
  | clearRunning =>
    cases h
    exact .inr (.inr (.inr ⟨trivial,rfl,rfl,rfl⟩))

theorem LifeInv.next (h : LifeInv s) (hs : s.next call a = some s') : LifeInv s' := by
  rcases StdinLife.next_cases hs with ⟨-,-,hp,hh⟩ | ⟨-,-,hp,hh⟩ | ⟨t,-,-,hp,hh⟩ | ⟨-,hp,hh,hd⟩
  · refine ⟨fun hu => ?_,fun _ => .inl (by rw [hh]; rfl),fun hm => ?_,by rw [hh]; exact h.default⟩
    · rw [hp] at hu
      cases hu
    · rw [hp] at hm
      cases hm
  · refine ⟨fun hu => ?_,fun hl => ?_,fun _ => .inl (by rw [hh]; rfl),by rw [hh]; exact h.default⟩
    · rw [hp] at hu
      cases hu
    · rw [hp] at hl
      cases hl
  · have hst : s'.handle.state = .stopping := by rw [hh]; exact h.stop_state
    exact ⟨fun _ => .inr hst,fun _ => .inr hst,fun _ => .inr hst,
      by rw [hh,taskStop_onStop]; exact h.default⟩
  · refine ⟨?_,?_,?_,hd.trans h.default⟩ <;> rw [hp,hh]
    · exact h.unstarted
    · exact h.live
    · exact h.marked

theorem LifeRun.next (h : LifeRun tr s) (hs : s.next call a = some s') :
    LifeRun (tr ++ [(s,a)]) s' := by
  have inv := h.inv.next hs
  rcases StdinLife.next_cases hs with
    ⟨rfl,hu,hp,hh⟩ | ⟨rfl,hl,hp,hh⟩ | ⟨t,rfl,ha,hp,hh⟩ | ⟨ht,hp,hh,-⟩
  · exact h.start inv hu hp (by rw [hh]; rfl) trivial
  · exact h.mark inv hl hp (by rw [hh]; rfl) trivial
  · exact h.assign inv hp (by rw [hh]; exact h.inv.stop_state) (by simp [Timely,ha])
  · exact h.stay inv ht hp hh

/-- The states never go back exactly when every stop request is timely, or the thread has not
begun. Where they do not, a request is never followed by `RUNNING` and `STOPPED` is final. -/
theorem forward_iff_timely (run : Exec (StdinLife.machine call) tr s) :
    (Forward tr s ↔ s.pc.phase = .unstarted ∨ Meets Timely tr) ∧
    (Forward tr s → ∀ p ∈ tr, (p.1.handle.state = .stopping → s.handle.state ≠ .running) ∧
      (p.1.handle.state = .stopped → s.handle.state = .stopped)) := by
  have h : LifeRun tr s := by
    induction run with
    | init hi =>
      obtain ⟨cleanup,rfl⟩ := hi
      exact ⟨⟨fun _ => .inl rfl,fun hl => (by cases hl),fun hm => (by cases hm),rfl⟩,
        fun _ => ⟨List.pairwise_singleton _ _,by simp [StdinLife.start,taskHandleInit]⟩,
        fun hne => absurd rfl hne,fun hm => by cases hm⟩
    | step run hs ih => exact ih.next hs
  refine ⟨?_,fun hf p hp => ?_⟩
  · by_cases hu : s.pc.phase = .unstarted
    · simp [hu,(h.unstarted hu).1]
    · simp [hu,h.started hu]
  · have hle := (List.pairwise_append.mp hf).2.2 _ (List.mem_map_of_mem hp) _
      (List.mem_singleton_self _)
    refine ⟨fun hst hr => ?_,fun hst => ?_⟩
    · rw [hst,hr] at hle
      exact absurd hle (by decide)
    · rw [hst] at hle
      cases hs : s.handle.state <;> rw [hs] at hle <;> first | rfl | exact absurd hle (by decide)

end Forward

/-- The thread is in its loop when both callers stop it, one through the array. -/
def timelyRun : List (StdinAction (Fin 2)) :=
  List.flatten [[.task,.task,.task,.stop 0,.stopAll 1],
    [.step 0,.step 1,.step 1,.step 0,.step 1,.step 1],List.replicate 5 .task]

/-- A request between `pthread_create` and the first statement of the thread. -/
def lostStopRun : List (StdinAction (Fin 1)) := [.stop 0,.step 0,.task,.task,.task,.task]

theorem forward_iff_timely_inLoop :
    ∃ tr, ∃ s : StdinLife (Fin 2) Unit, Exec (StdinLife.machine fun _ => id) tr s ∧
      s.pc = .finished ∧ s.handle.state = .stopped ∧ Forward tr s := by
  have hv : ((StdinLife.machine fun _ => id).run (StdinLife.start ()) timelyRun).map
      (fun s : StdinLife (Fin 2) Unit => (s.pc,s.handle.state)) = some (.finished,.stopped) := by
    decide
  obtain ⟨s,hs,hr⟩ := Option.map_eq_some_iff.mp hv
  simp only [Prod.mk.injEq] at hr
  have run := Exec.of_run (StdinLife.start_init _ ()) hs
  exact ⟨_,s,run,hr.1,hr.2,((forward_iff_timely run).1).2 (.inr (by decide))⟩

/-- The early request is overwritten: the thread runs its loop as if it had never been stopped. -/
theorem early_stop_is_lost :
    ∃ tr, ∃ s : StdinLife (Fin 1) Unit, Exec (StdinLife.machine fun _ => id) tr s ∧
      (∃ p ∈ tr, p.1.handle.state = .stopping) ∧ s.handle.state = .running ∧ s.pc = .body ∧
      ¬ Forward tr s := by
  have hv : ((StdinLife.machine fun _ => id).run (StdinLife.start ()) lostStopRun).map
      (fun s : StdinLife (Fin 1) Unit => (s.handle.state,s.pc)) = some (.running,.body) := by decide
  obtain ⟨s,hs,hr⟩ := Option.map_eq_some_iff.mp hv
  simp only [Prod.mk.injEq] at hr
  refine ⟨_,s,Exec.of_run (StdinLife.start_init _ ()) hs,by decide,hr.1,hr.2,fun hf => ?_⟩
  rw [Forward,hr.1] at hf
  exact absurd hf (by decide)

end TTK4145.Rtsystem
