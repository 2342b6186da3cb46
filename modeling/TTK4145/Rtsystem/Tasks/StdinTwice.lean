import TTK4145.Lib.Machine
import TTK4145.Rtsystem.Tasks.StdinShutdown

/-! Further calls of `stdin_task_init` while a stdin task exists, at any point of the life of that
task and of the shutdown. -/
namespace TTK4145.Rtsystem
open Lib ResourceEvent

/-- `started` is the number of handles destroyed when a `stdin_task_init` last succeeded, and
`again` remembers a later call of it. -/
structure StdinProcess where
  world : StdinWorld
  started : Option ℕ
  again : Bool

inductive StdinProcessAction where
  | init (bufSize : UInt64) (priority : ℤ) (env : InitOutcome)
  | threadRuns
  | threadMarks
  | stop
  | stopAll
  | pollAll (c : ShutdownChoice)
  | cancelAll
  | joinAll (c : ShutdownChoice)
  | handlesDestroyAll
  | arrayDestroy

namespace StdinWorld

/-- No loop over the slots reads through `NULL`. -/
def Mapped (s : StdinWorld) : Prop := s.slots ≠ none ∨ s.capacity = 0

instance (s : StdinWorld) : Decidable s.Mapped := inferInstanceAs (Decidable (_ ∨ _))

/-- Where the lock of `g_stdin_tasks` is in its life. -/
def lockLife (s : StdinWorld) : Life := life .taskArray s.events

/-- The handle, the contents of `g_stdin_tasks` and the input buffer. -/
def observed (s : StdinWorld) :=
  (s.handle,s.slots,s.capacity,s.lockLife,s.line)

end StdinWorld

namespace StdinProcess

/-- An earlier `stdin_task_init` succeeded and its handle has not been destroyed. -/
def Live (s : StdinProcess) : Prop := s.started = some s.world.destroyed

instance (s : StdinProcess) : Decidable s.Live := inferInstanceAs (Decidable (_ = _))

def initAgain (bufSize : UInt64) (priority : ℤ) (env : InitOutcome) (s : StdinProcess) :
    StdinProcess :=
  let r := s.world.stdinTaskInit bufSize priority env
  ⟨r.2,if r.1 = 0 then some r.2.destroyed else s.started,decide s.Live⟩

/-- A loop of the shutdown, as long as it does not read through `NULL`. -/
def bulk (f : StdinWorld → StdinWorld) (s : StdinProcess) : Option StdinProcess :=
  if s.world.Mapped then some {s with world := f s.world} else none

/-- A thread of the task only writes the state of the handle; `main` destroys an array after the
handles in it. -/
def next (s : StdinProcess) : StdinProcessAction → Option StdinProcess
  | .init bufSize priority env => some (s.initAgain bufSize priority env)
  | .threadRuns => if s.world.threads ≠ [] then
      some {s with world := s.world.setHandle {s.world.handle with state := .running}} else none
  | .threadMarks => if s.world.threads ≠ [] then
      some {s with world := s.world.setHandle {s.world.handle with state := .stopped}} else none
  | .stop => some {s with world := s.world.taskStop}
  | .stopAll => s.bulk StdinWorld.taskArrayStopAll
  | .pollAll c => s.bulk fun w => (w.taskArrayPollAll c).2
  | .cancelAll => s.bulk StdinWorld.taskArrayCancelAll
  | .joinAll c => s.bulk (StdinWorld.taskArrayJoinAll c)
  | .handlesDestroyAll => s.bulk StdinWorld.taskArrayHandlesDestroyAll
  | .arrayDestroy => if s.world.occupiedSlots = 0 then
      some {s with world := s.world.taskArrayDestroy} else none

/-- The program from its start on, with any calls in any order. -/
def machine : Machine StdinProcess StdinProcessAction where
  init s := s.world.Initial ∧ s.started = none ∧ s.again = false
  next := next

end StdinProcess

/-- A call of `stdin_task_init` returns -1 and changes nothing. -/
def Refused (s : StdinWorld) (bufSize : UInt64) (priority : ℤ) (env : InitOutcome) : Prop :=
  (s.stdinTaskInit bufSize priority env).1 = -1 ∧
    (s.stdinTaskInit bufSize priority env).2.observed = s.observed

/-- An earlier call has left the array without slots, and this one fails before it can change
anything else, or finds everything as its own failure leaves it. -/
def AlreadyWrecked (s : StdinWorld) (env : InitOutcome) : Prop :=
  s.slots = none ∧ (env.calloc = false ∨ env.eventfd = false ∧ s.capacity = 0 ∧
    s.lockLife = .destroyed ∧ s.handle = ⟨0,none,.init,false,false⟩)

section Life
variable {s : StdinWorld}

@[simp] theorem lockLife_log {c : LogCall} : (s.log c).lockLife = s.lockLife := by
  simp only [StdinWorld.lockLife,StdinWorld.log,StdinWorld.event,life_snoc]
  rfl

@[simp] theorem lockLife_taskArrayDestroy : s.taskArrayDestroy.lockLife = .destroyed := by
  rw [StdinWorld.taskArrayDestroy,lockLife_log]
  unfold StdinWorld.freeSlots StdinWorld.lockLife
  cases (s.event (.destroy .taskArray)).slots with
  | none => exact life_snoc
  | some p => exact life_snoc.trans life_snoc

/-- What each failure leaves behind, and that a success opens a new descriptor. -/
theorem stdinTaskInit_result (s : StdinWorld) (bufSize : UInt64) (priority : ℤ)
    (env : InitOutcome) :
    (env.calloc = false ∧ (s.stdinTaskInit bufSize priority env).1 = -1 ∧
      (s.stdinTaskInit bufSize priority env).2.toStdinStatics =
        {s.toStdinStatics with slots := none} ∧
      (s.stdinTaskInit bufSize priority env).2.lockLife = s.lockLife ∧
      (s.stdinTaskInit bufSize priority env).2.destroyed = s.destroyed) ∨
    (env.calloc = true ∧ env.eventfd = false ∧ (s.stdinTaskInit bufSize priority env).1 = -1 ∧
      (s.stdinTaskInit bufSize priority env).2.toStdinStatics =
        {s.toStdinStatics with slots := none, capacity := 0, handle := ⟨0,none,.init,false,false⟩} ∧
      (s.stdinTaskInit bufSize priority env).2.lockLife = .destroyed ∧
      (s.stdinTaskInit bufSize priority env).2.destroyed = s.destroyed) ∨
    (env.calloc = true ∧ env.eventfd = true ∧ (s.stdinTaskInit bufSize priority env).1 = -1 ∧
      (s.stdinTaskInit bufSize priority env).2.handle = ⟨0,none,.stopped,true,false⟩ ∧
      (s.stdinTaskInit bufSize priority env).2.destroyed = s.destroyed+1) ∨
    (env.calloc = true ∧ env.eventfd = true ∧ (s.stdinTaskInit bufSize priority env).1 = 0 ∧
      (∃ p, (s.stdinTaskInit bufSize priority env).2.slots = some (p,[true])) ∧
      (s.stdinTaskInit bufSize priority env).2.capacity = 1 ∧
      (s.stdinTaskInit bufSize priority env).2.handle.doneFd ≠ none ∧
      (s.stdinTaskInit bufSize priority env).2.destroyed = s.destroyed) := by
  obtain ⟨calloc,eventfd,malloc,pthreadCreate,strerror⟩ := env
  cases calloc with
  | false => exact .inl ⟨rfl,rfl,rfl,lockLife_log.trans lockLife_log,rfl⟩
  | true =>
    cases eventfd with
    | false => exact .inr (.inl ⟨rfl,rfl,rfl,rfl,lockLife_taskArrayDestroy,rfl⟩)
    | true =>
      cases malloc with
      | false => exact .inr (.inr (.inl ⟨rfl,rfl,rfl,rfl,rfl⟩))
      | true =>
        cases pthreadCreate with
        | false => exact .inr (.inr (.inl ⟨rfl,rfl,rfl,rfl,rfl⟩))
        | true => exact .inr (.inr (.inr ⟨rfl,rfl,rfl,⟨_,rfl⟩,rfl,nofun,rfl⟩))

/-- What holds of every process: while a task lives, its handle has a descriptor unless a later
call has reset it, and it stands in its slot unless there was a later call. -/
structure TwiceInv (s : StdinProcess) : Prop where
  started_le : ∀ n, s.started = some n → n ≤ s.world.destroyed
  fd : s.Live → s.world.handle.doneFd = none → s.world.handle.onCleanup = false
  slot : s.Live → s.again = false → ∃ p, s.world.slots = some (p,[true]) ∧ s.world.capacity = 1

/-- In a living process a call is refused without a trace only where nothing was left to lose. -/
theorem TwiceInv.refused_iff {s : StdinProcess} (h : TwiceInv s) (hlive : s.Live)
    (bufSize : UInt64) (priority : ℤ) (env : InitOutcome) :
    Refused s.world bufSize priority env ↔ AlreadyWrecked s.world env := by
  unfold Refused AlreadyWrecked StdinWorld.observed
  obtain ⟨hc,hret,hs,hl,-⟩ | ⟨hc,he,hret,hs,hl,-⟩ | ⟨hc,he,-,hh,-⟩ | ⟨hc,he,hret,-⟩ :=
    stdinTaskInit_result s.world bufSize priority env
  · simp only [hc,hret,hs,hl,Prod.mk.injEq,true_and,and_true,true_or]
    exact eq_comm
  · simp only [hc,he,hret,hs,hl,Prod.mk.injEq,true_and,and_true,Bool.true_eq_false,false_or]
    constructor
    · rintro ⟨hhandle,hslots,hcap,hlock⟩
      exact ⟨hslots.symm,hcap.symm,hlock.symm,hhandle.symm⟩
    · rintro ⟨hslots,hcap,hlock,hhandle⟩
      exact ⟨hhandle.symm,hslots.symm,hcap.symm,hlock.symm⟩
  · simp only [hc,he,hh,Prod.mk.injEq,Bool.true_eq_false,false_and,or_self,and_false,iff_false]
    rintro ⟨-,hhandle,-⟩
    have hcleanup := h.fd hlive (by rw [←hhandle])
    rw [←hhandle] at hcleanup
    cases hcleanup
  · simp [hc,he,hret]

theorem TwiceInv.not_wrecked {s : StdinProcess} (h : TwiceInv s) (hlive : s.Live)
    (hagain : s.again = false) (env : InitOutcome) : ¬AlreadyWrecked s.world env := by
  rintro ⟨hslots,-⟩
  obtain ⟨p,hp,-⟩ := h.slot hlive hagain
  rw [hp] at hslots
  cases hslots

theorem StdinProcess.Live.congr {s t : StdinProcess} (h : t.Live) (hs : t.started = s.started)
    (hd : t.world.destroyed = s.world.destroyed) : s.Live := by
  rwa [StdinProcess.Live,hs,hd] at h

/-- The array is kept, and of the handle what the invariant reads. -/
structure Keeps (w w' : StdinWorld) : Prop where
  destroyed : w'.destroyed = w.destroyed
  doneFd : w'.handle.doneFd = w.handle.doneFd
  onCleanup : w'.handle.onCleanup = w.handle.onCleanup
  slots : w'.slots = w.slots
  capacity : w'.capacity = w.capacity

theorem TwiceInv.keep {s : StdinProcess} {w : StdinWorld} (h : TwiceInv s)
    (hw : Keeps s.world w) : TwiceInv {s with world := w} := by
  obtain ⟨hd,hfd,hcleanup,hslots,hcap⟩ := hw
  refine ⟨fun n hn => ?_,fun hl => ?_,fun hl => ?_⟩
  · rw [hd]
    exact h.started_le n hn
  · rw [hfd,hcleanup]
    exact h.fd (hl.congr rfl hd)
  · rw [hslots,hcap]
    exact h.slot (hl.congr rfl hd)

/-- A step behind which no task lives. -/
theorem TwiceInv.die {s : StdinProcess} {w : StdinWorld} (h : TwiceInv s)
    (hd : s.world.destroyed<w.destroyed) : TwiceInv {s with world := w} := by
  have hdead : ¬StdinProcess.Live {s with world := w} := by
    intro hl
    have hle : w.destroyed ≤ s.world.destroyed := h.started_le _ hl
    omega
  exact ⟨fun n hn => (h.started_le n hn).trans hd.le,fun hl => absurd hl hdead,
    fun hl => absurd hl hdead⟩

theorem TwiceInv.init_step {s : StdinProcess} (h : TwiceInv s) (bufSize : UInt64) (priority : ℤ)
    (env : InitOutcome) : TwiceInv (s.initAgain bufSize priority env) := by
  have hresult := stdinTaskInit_result s.world bufSize priority env
  simp only [StdinProcess.initAgain]
  generalize s.world.stdinTaskInit bufSize priority env = r at hresult ⊢
  obtain ⟨-,hret,hs,-,hd⟩ | ⟨-,-,hret,hs,-,hd⟩ | ⟨-,-,hret,-,hd⟩ |
    ⟨-,-,hret,hslots,hcap,hfd,hd⟩ := hresult
  · simp only [hret]
    refine ⟨fun n hn => (h.started_le n hn).trans hd.ge,fun hl hfd => ?_,fun hl hagain => ?_⟩
    · simp only [hs] at hfd ⊢
      exact h.fd (hl.congr rfl hd) hfd
    · have hdead : ¬s.Live := of_decide_eq_false hagain
      exact (hdead (hl.congr rfl hd)).elim
  · simp only [hret]
    refine ⟨fun n hn => (h.started_le n hn).trans hd.ge,fun hl hfd => ?_,fun hl hagain => ?_⟩
    · simp only [hs]
    · have hdead : ¬s.Live := of_decide_eq_false hagain
      exact (hdead (hl.congr rfl hd)).elim
  · simp only [hret]
    have hdie := h.die (w := r.2) (by omega)
    exact ⟨hdie.started_le,hdie.fd,fun hl _ => absurd (h.started_le _ hl) (by simp only; omega)⟩
  · simp only [hret,if_true]
    refine ⟨fun n hn => ?_,fun _ hnone => absurd hnone hfd,fun _ _ => ?_⟩
    · cases hn
      exact Nat.le_refl _
    · obtain ⟨p,hp⟩ := hslots
      exact ⟨p,hp,hcap⟩

section Loops
variable {w w' : StdinWorld} (c : ShutdownChoice)

theorem Keeps.refl (w : StdinWorld) : Keeps w w := ⟨rfl,rfl,rfl,rfl,rfl⟩

theorem Keeps.event {e : ResourceEvent MutexName StdinResource} (h : Keeps w w') :
    Keeps w (w'.event e) := ⟨h.destroyed,h.doneFd,h.onCleanup,h.slots,h.capacity⟩

theorem Keeps.log {call : LogCall} (h : Keeps w w') : Keeps w (w'.log call) :=
  ⟨h.destroyed,h.doneFd,h.onCleanup,h.slots,h.capacity⟩

theorem Keeps.setState {st : TaskState} (h : Keeps w w') :
    Keeps w (w'.setHandle {w'.handle with state := st}) :=
  ⟨h.destroyed,h.doneFd,h.onCleanup,h.slots,h.capacity⟩

theorem Keeps.forSlots {body : ℕ → StdinWorld → StdinWorld} (h : Keeps w w')
    (hbody : ∀ i v, Keeps w v → Keeps w (body i v)) : Keeps w (w'.forSlots body) :=
  forSlots_keeps hbody h

theorem Keeps.stopAll : Keeps w w.taskArrayStopAll :=
  ((Keeps.refl w).event.forSlots fun _ _ h => h.setState.log).event.log

theorem Keeps.cancelAll : Keeps w w.taskArrayCancelAll :=
  ((Keeps.refl w).event.forSlots fun _ _ h => h.log).event.log

theorem Keeps.joinAll : Keeps w (w.taskArrayJoinAll c) :=
  ((Keeps.refl w).event.forSlots fun _ _ h => h.log).event.log

theorem Keeps.pollAll : Keeps w (w.taskArrayPollAll c).2 := by
  have h : Keeps w (w.event (.lock .taskArray)) := (Keeps.refl w).event
  simp only [StdinWorld.taskArrayPollAll]
  split_ifs
  · exact h.event
  · exact h.event.log
  · exact ⟨h.destroyed,h.doneFd,h.onCleanup,h.slots,h.capacity⟩

@[simp] theorem taskHandleDestroy_destroyed : w.taskHandleDestroy.destroyed = w.destroyed+1 := by
  have hclose : ∀ v : StdinWorld, v.closeDone.destroyed = v.destroyed := by
    intro v
    unfold StdinWorld.closeDone
    cases v.handle.doneFd <;> rfl
  have hremove : w.taskArrayRemove.destroyed = w.destroyed := by
    simp only [StdinWorld.taskArrayRemove]
    split <;> rfl
  change (if w.handle.array then w.taskArrayRemove else w).closeDone.destroyed+1 = _
  rw [hclose]
  split_ifs
  · rw [hremove]
  · rfl

theorem destroySlot_destroyed (i : ℕ) : (w.destroySlot i).destroyed = w.destroyed+1 := by
  unfold StdinWorld.destroySlot StdinWorld.stdinCleanup StdinWorld.freeLine
  rw [taskHandleDestroy_destroyed]
  cases w.handle.onCleanup with
  | false => rfl
  | true => cases w.line <;> rfl

/-- Either the loop found no handle, or one has been destroyed. -/
theorem handlesDestroyAll_cases : Keeps w w.taskArrayHandlesDestroyAll ∨
    w.destroyed<w.taskArrayHandlesDestroyAll.destroyed := by
  let P : StdinWorld → Prop := fun v => Keeps w v ∨ w.destroyed<v.destroyed
  have hbody : ∀ i v, P v → P (v.destroySlot i) := by
    intro i v hv
    right
    rw [destroySlot_destroyed]
    obtain h | h := hv
    · rw [h.destroyed]
      exact Nat.lt_succ_self _
    · exact Nat.lt_succ_of_lt h
  have hloop : P ((w.event (.lock .taskArray)).forSlots StdinWorld.destroySlot) :=
    forSlots_keeps hbody (.inl (Keeps.refl w).event)
  obtain h | h := hloop
  · exact .inl h.event.log
  · exact .inr h

end Loops

theorem TwiceInv.arrayDestroy {s : StdinProcess} (h : TwiceInv s)
    (hempty : s.world.occupiedSlots = 0) :
    TwiceInv {s with world := s.world.taskArrayDestroy} := by
  have hd : s.world.taskArrayDestroy.destroyed = s.world.destroyed ∧
      s.world.taskArrayDestroy.handle = s.world.handle := by
    unfold StdinWorld.taskArrayDestroy StdinWorld.freeSlots
    cases (s.world.event (.destroy .taskArray)).slots <;> exact ⟨rfl,rfl⟩
  refine ⟨fun n hn => (h.started_le n hn).trans hd.1.ge,fun hl => ?_,fun hl hagain => ?_⟩
  · rw [hd.2]
    exact h.fd (hl.congr rfl hd.1)
  obtain ⟨p,hp,hcap⟩ := h.slot (hl.congr rfl hd.1) hagain
  simp [StdinWorld.occupiedSlots,StdinWorld.cells,hp,hcap] at hempty

theorem TwiceInv.next {s t : StdinProcess} {a : StdinProcessAction} (h : TwiceInv s)
    (hn : s.next a = some t) : TwiceInv t := by
  have hbulk : ∀ {f : StdinWorld → StdinWorld}, Keeps s.world (f s.world) →
      s.bulk f = some t → TwiceInv t := by
    intro f hf hb
    unfold StdinProcess.bulk at hb
    split_ifs at hb
    cases hb
    exact h.keep hf
  cases a with
  | init bufSize priority env =>
    cases hn
    exact h.init_step bufSize priority env
  | threadRuns =>
    simp only [StdinProcess.next] at hn
    split_ifs at hn
    cases hn
    exact h.keep (Keeps.refl _).setState
  | threadMarks =>
    simp only [StdinProcess.next] at hn
    split_ifs at hn
    cases hn
    exact h.keep (Keeps.refl _).setState
  | stop =>
    cases hn
    exact h.keep (Keeps.refl _).setState.log
  | stopAll => exact hbulk Keeps.stopAll hn
  | pollAll c => exact hbulk (f := fun w => (w.taskArrayPollAll c).2) (Keeps.pollAll c) hn
  | cancelAll => exact hbulk Keeps.cancelAll hn
  | joinAll c => exact hbulk (Keeps.joinAll c) hn
  | handlesDestroyAll =>
    obtain hk | hd := handlesDestroyAll_cases (w := s.world)
    · exact hbulk hk hn
    · simp only [StdinProcess.next,StdinProcess.bulk] at hn
      split_ifs at hn
      cases hn
      exact h.die hd
  | arrayDestroy =>
    simp only [StdinProcess.next] at hn
    split_ifs at hn with hempty
    cases hn
    exact h.arrayDestroy hempty

theorem TwiceInv.init {s : StdinProcess} (h : StdinProcess.machine.init s) : TwiceInv s := by
  obtain ⟨-,hstarted,-⟩ := h
  have hdead : ¬s.Live := by
    rw [StdinProcess.Live,hstarted]
    exact nofun
  refine ⟨fun n hn => ?_,fun hl => absurd hl hdead,fun hl => absurd hl hdead⟩
  rw [hstarted] at hn
  cases hn

theorem TwiceInv.run {tr : List (StdinProcess × StdinProcessAction)} {s : StdinProcess}
    (run : Exec StdinProcess.machine tr s) : TwiceInv s := by
  induction run with
  | init h => exact .init h
  | step run hn ih => exact ih.next hn

/-- While a stdin task exists, a further `stdin_task_init` is refused and changes nothing exactly
where an earlier repeated call has left nothing to change. The first repeated call never is. -/
theorem repeated_init_refused_iff {tr : List (StdinProcess × StdinProcessAction)}
    {s : StdinProcess} (run : Exec StdinProcess.machine tr s) (hlive : s.Live) (bufSize : UInt64)
    (priority : ℤ) (env : InitOutcome) :
    (Refused s.world bufSize priority env ↔ AlreadyWrecked s.world env) ∧
      (s.again = false → ¬Refused s.world bufSize priority env) := by
  have h := TwiceInv.run run
  have hiff := h.refused_iff hlive bufSize priority env
  exact ⟨hiff,fun hagain => hiff.not.mpr (h.not_wrecked hlive hagain env)⟩

end Life

/-- The process when `main` calls `stdin_task_init`. -/
def freshProcess : StdinProcess := ⟨freshWorld,none,false⟩

theorem freshProcess_init : StdinProcess.machine.init freshProcess := ⟨freshWorld_initial,rfl,rfl⟩

/-- The one call of `main`, in which nothing fails, and the first statement of the task. -/
def startOnce : List StdinProcessAction :=
  [.init 256 12 ⟨true,true,true,true,[]⟩,.threadRuns]

theorem repeated_init_refused_iff_startOnce : ∃ tr s,
    Exec StdinProcess.machine tr s ∧ s.Live ∧
    ∀ bufSize priority env, ¬Refused s.world bufSize priority env := by
  have hv : (StdinProcess.machine.run freshProcess startOnce).map
      (fun s => (decide s.Live,s.again)) = some (true,false) := by decide
  obtain ⟨s,hs,hr⟩ := Option.map_eq_some_iff.mp hv
  simp only [Prod.mk.injEq,decide_eq_true_eq] at hr
  have run := Exec.of_run freshProcess_init hs
  exact ⟨_,s,run,hr.1,fun bufSize priority env =>
    (repeated_init_refused_iff run hr.1 bufSize priority env).2 hr.2⟩

/-- Called once more, `stdin_task_init` succeeds: it has a new handle, new slots, a new buffer and
a second thread, and what the first task had is lost. -/
theorem second_init_succeeds : ∃ tr s, Exec StdinProcess.machine tr s ∧ s.Live ∧
    (s.world.stdinTaskInit 256 12 ⟨true,true,true,true,[]⟩).1 = 0 ∧
    s.world.slots = some (4,[true]) ∧ s.world.line = some 6 ∧
    (s.world.stdinTaskInit 256 12 ⟨true,true,true,true,[]⟩).2.slots = some (8,[true]) ∧
    (s.world.stdinTaskInit 256 12 ⟨true,true,true,true,[]⟩).2.line = some 10 ∧
    ¬Refused s.world 256 12 ⟨true,true,true,true,[]⟩ := by
  have hv : (StdinProcess.machine.run freshProcess startOnce).map
      (fun s => (decide s.Live,(s.world.stdinTaskInit 256 12 ⟨true,true,true,true,[]⟩).1,
        s.world.slots,s.world.line,
        (s.world.stdinTaskInit 256 12 ⟨true,true,true,true,[]⟩).2.slots,
        (s.world.stdinTaskInit 256 12 ⟨true,true,true,true,[]⟩).2.line)) =
      some (true,0,some (4,[true]),some 6,some (8,[true]),some 10) := by rfl
  obtain ⟨s,hs,hr⟩ := Option.map_eq_some_iff.mp hv
  simp only [Prod.mk.injEq,decide_eq_true_eq] at hr
  obtain ⟨hlive,hret,hslots,hline,hslots',hline'⟩ := hr
  refine ⟨_,s,Exec.of_run freshProcess_init hs,hlive,hret,hslots,hline,hslots',hline',
    fun hrefused => ?_⟩
  rw [Refused,hret] at hrefused
  exact absurd hrefused.1 (by decide)

end TTK4145.Rtsystem
