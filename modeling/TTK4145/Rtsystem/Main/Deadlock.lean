import TTK4145.Rtsystem.Main.JoinOrder

/-! The shutdown does not deadlock: locks of arrays come before the ends of tasks, and these before
the lock of the log queue. -/
namespace TTK4145.Rtsystem
open Lib
variable {α η κ : Type*} {setup : ShutdownSetup α η κ}

/-- The order in which the threads of the shutdown wait. -/
def waitRank : Wait (LockName α) (ThreadName η) → ℕ
  | .mutex (.array _) => 0
  | .join _ => 1
  | .mutex .queue => 2

theorem mainScript_joins (arrays : List α) :
    (mainScript arrays).filterMap MainCall.joins = arrays := by
  have hother : ∀ f : ArrayFn, f ≠ .joinAll →
      (arrays.map (MainCall.array f)).filterMap MainCall.joins = [] := by
    intro f hf
    rw [List.filterMap_map,List.filterMap_eq_nil_iff]
    intro a _
    cases f with
    | joinAll => exact absurd rfl hf
    | stopAll | pollAll | handlesDestroyAll => rfl
  have hjoin : (arrays.flatMap fun a =>
      [MainCall.array .joinAll a,.array .handlesDestroyAll a,.arrayDestroy a]).filterMap
      MainCall.joins = arrays := by
    clear hother
    induction arrays with
    | nil => rfl
    | cons a arrays ih =>
      rw [List.flatMap_cons,List.filterMap_append,ih]
      rfl
  rw [mainScript,List.filterMap_append,List.filterMap_append,List.filterMap_append,
    hother .stopAll (by decide),hother .pollAll (by decide),hjoin]
  exact List.append_nil _

namespace Locking
variable {s t : Locking α η κ} {x y : ThreadName η} {a : LockAction α η}
  {tr : List (Locking α η κ × LockAction α η)} {w : Wait (LockName α) (ThreadName η)}

/-- A thread waits for the queue in its `LOG` calls, and otherwise as its next statement says. -/
theorem wants_cases (hx : s.wants x = some w) : w = .mutex .queue ∨ s.pcWants x = some w := by
  unfold wants at hx
  split_ifs at hx
  · exact .inl (Option.some.inj hx).symm
  · exact .inr hx

/-- Who uses the queue waits for nothing. -/
theorem QueueLock.wants (hq : QueueLock s) (hx : s.UsesQueue x) : s.wants x = none := by
  obtain hsend | ⟨rfl,hr⟩ := hx
  · unfold Locking.wants
    rw [if_pos hsend]
  · unfold Locking.wants
    have hcalls := hq.receiving hr
    rw [hq.idle hcalls,hcalls]
    change s.log.wants = none
    cases hlog : s.log with
    | receiving => rfl
    | loop | poll | receive | drain | done | ended =>
      rw [hlog] at hr
      cases hr

/-- In the section of an array a thread waits for the end of a task or for the queue. -/
theorem JoinInv.wants_section (hj : JoinInv setup s) {b : α} (hx : s.sectionOf x = some b)
    (hw : s.wants x = some w) : 0<waitRank w := by
  obtain rfl | hw := wants_cases hw
  · exact Nat.zero_lt_two
  cases x with
  | main =>
    change s.main.section = some b at hx
    change s.main.wants = some w at hw
    cases hpc : s.main with
    | join a i h =>
      rw [hpc] at hw
      cases hw
      exact Nat.zero_lt_one
    | remove =>
      have hno := hj.main
      rw [hpc] at hno
      exact hno.elim
    | call | lock | poll =>
      rw [hpc] at hx
      cases hx
    | slot | clear | destroy | close | unlock =>
      rw [hpc] at hw
      cases hw
  | log => cases hx
  | task h =>
    change (s.task h).section = some b at hx
    change (s.task h).wants = some w at hw
    cases hpc : s.task h with
    | op stage o =>
      rw [hpc] at hx hw
      cases stage with
      | lock => cases hx
      | run | unlock => cases hw
    | body | markState | markWrite | tail | ended =>
      rw [hpc] at hx
      cases hx

/-- A task that has marked itself done waits for the queue only. -/
theorem wants_marked {h : η} (hm : (s.task h).marked = true) (hw : s.wants (.task h) = some w) :
    w = .mutex .queue := by
  obtain rfl | hw := wants_cases hw
  · rfl
  change (s.task h).wants = some w at hw
  cases hpc : s.task h with
  | tail | ended =>
    rw [hpc] at hw
    cases hw
  | body | op | markState | markWrite =>
    rw [hpc] at hm
    cases hm

/-- Only `main` waits for the end of a thread, and that is a task which has marked itself done. -/
theorem JoinInv.wants_join (hj : JoinInv setup s) (hw : s.wants x = some (.join y)) :
    ∃ h, y = .task h ∧ (s.task h).marked = true := by
  obtain he | hw := wants_cases hw
  · cases he
  cases x with
  | main =>
    have hready := hj.main
    change s.main.wants = some (.join y) at hw
    cases hpc : s.main with
    | join a i h =>
      rw [hpc] at hw hready
      cases hw
      exact ⟨h,rfl,hready.2⟩
    | remove => rw [hpc] at hready; exact hready.elim
    | call | lock | slot | clear | destroy | close | unlock | poll =>
      rw [hpc] at hw
      cases hw
  | log =>
    change s.log.wants = some (.join y) at hw
    cases hpc : s.log <;> rw [hpc] at hw <;> cases hw
  | task h =>
    change (s.task h).wants = some (.join y) at hw
    cases hpc : s.task h with
    | op stage o =>
      rw [hpc] at hw
      cases stage <;> cases hw
    | body | markState | markWrite | tail | ended =>
      rw [hpc] at hw
      cases hw

/-- The lock order. -/
theorem waiting_ordered (hq : QueueLock s) (ha : ArrayLocks s) (hj : JoinInv setup s) :
    s.waiting.Ordered waitRank := by
  refine ⟨fun x m w howner hw => ?_,fun x y w hjoin _ hw => ?_⟩
  · change s.owner m = some x at howner
    change s.wants x = some w at hw
    cases m with
    | array b => exact hj.wants_section ((ha b x).mp howner) hw
    | queue =>
      rw [hq.wants ((hq.owner x).mp howner)] at hw
      cases hw
  · change s.wants x = some (.join y) at hjoin
    change s.wants y = some w at hw
    obtain ⟨h,rfl,hm⟩ := hj.wants_join hjoin
    rw [wants_marked hm hw]
    exact Nat.one_lt_two

theorem deadlockFree (hq : QueueLock s) (ha : ArrayLocks s) (hj : JoinInv setup s) :
    DeadlockFree s := by
  have hordered := waiting_ordered hq ha hj
  exact ⟨fun x m hw => hordered.not_relock hw,hordered.acyclic,hj.once,
    fun h hh => (hj.joined h hh).1⟩

variable [DecidableEq α] [DecidableEq η]

/-- The three parts of the invariant. -/
def Orderly (setup : ShutdownSetup α η κ) (s : Locking α η κ) : Prop :=
  QueueLock s ∧ ArrayLocks s ∧ JoinInv setup s

theorem Orderly.init (h : (machine setup).init s) : Orderly setup s := by
  obtain ⟨hhoused,hcounter,hfd,howner,hsending,-,hscript,hmain,htask,hlog,-,hjoins⟩ := h
  refine ⟨⟨fun x => ?_,fun x hx => ?_,fun hr => ?_⟩,fun a x => ?_,
    ⟨hhoused,fun h fd hh hpos => ?_,hfd,?_,?_,?_,?_⟩⟩
  · rw [howner,UsesQueue,hsending,hlog]
    simp [LogLoopPc.receives]
  · rw [hsending] at hx
    cases hx
  · rw [hlog] at hr
    cases hr
  · rw [howner]
    refine ⟨fun ho => (by cases ho),fun hx => ?_⟩
    cases x with
    | main =>
      change s.main.section = some a at hx
      rw [hmain] at hx
      cases hx
    | log => cases hx
    | task h =>
      change (s.task h).section = some a at hx
      rw [htask] at hx
      cases hx
  · rw [hcounter h fd hh] at hpos
    cases hpos
  · rw [hmain]
    trivial
  · rw [toJoin,hmain,hscript,mainScript_joins]
    exact setup.nodup
  · rw [hjoins]
    exact List.nodup_nil
  · intro h hh
    rw [hjoins] at hh
    cases hh

/-- One step of any thread. -/
theorem Orderly.next (h : Orderly setup s) (hn : s.next setup a = some t) : Orderly setup t := by
  obtain ⟨hq,ha,hj⟩ := h
  cases a with
  | log x =>
    obtain ⟨hqt,hat⟩ := stepLog_locks hq ha hn
    exact ⟨hqt,hat,hj.stepLog hn⟩
  | main calls outcome =>
    simp only [Locking.next] at hn
    split_ifs at hn with hidle
    obtain ⟨hqt,hat⟩ := stepMain_locks hq ha hidle hj.removing hn
    exact ⟨hqt,hat,hj.stepMain hn⟩
  | task h c =>
    simp only [Locking.next] at hn
    split_ifs at hn with hidle
    obtain ⟨hqt,hat⟩ := stepTask_locks hq ha hidle hn
    exact ⟨hqt,hat,hj.stepTask ha hn⟩
  | logTask ready =>
    simp only [Locking.next] at hn
    split_ifs at hn with hidle
    obtain ⟨hqt,hat⟩ := stepLogTask_locks hq ha hidle hn
    exact ⟨hqt,hat,hj.stepLogTask hn⟩

/-- For any arrays and tasks and any interleaving: no thread ever locks a mutex that it holds, no
threads ever wait in a circle, and `task_array_join_all` calls `pthread_join` at most once for a
handle, and only after its task has marked itself done. -/
theorem shutdown_deadlockFree (run : Exec (machine setup) tr s) : DeadlockFree s := by
  have h : Orderly setup s := run.invariant (C := fun _ _ => True) (fun s hs => .init hs)
    (fun s a t hs _ hn => hs.next hn) fun _ _ => trivial
  exact deadlockFree h.1 h.2.1 h.2.2

/-- Two arrays, and a task in the first. -/
def oneTaskSetup : ShutdownSetup Bool Unit Unit :=
  ⟨[false,true],by decide,fun _ => false,fun _ => none,4⟩

def oneTask : Locking Bool Unit Unit where
  registry := ⟨fun a => if a then [none] else [some ()],
    fun _ => ⟨cBytes "worker",some false,some 3,.running,none⟩,[]⟩
  fds _ := ⟨0⟩
  queued := 0
  logRunning := true
  owner _ := none
  logger t := ⟨if t = .main then 1 else 0,false⟩
  script := mainScript [false,true]
  main := .call
  task _ := .body
  log := .loop
  joins := []

theorem oneTask_init : (machine oneTaskSetup).init oneTask := by
  have hslot : ∀ x a i, Slots.Holds oneTask.registry.slots a i x → a = false ∧ i = 0 := by
    intro x a i h
    cases a with
    | true => cases i <;> cases h
    | false =>
      cases i with
      | zero => exact ⟨rfl,rfl⟩
      | succ i => cases h
  have hmem : ∀ h a, some h ∈ oneTask.registry.slots a → a = false := by
    intro h a hm
    obtain ⟨i,hi⟩ := Slots.mem_iff_holds.mp hm
    exact (hslot h a i hi).1
  refine ⟨⟨fun x a b i j ha hb => ?_,fun h a hm => ?_,fun h a hm => (hmem h a hm).symm⟩,
    fun _ _ _ => rfl,fun _ _ _ _ _ => rfl,fun _ => rfl,fun _ => rfl,rfl,rfl,rfl,fun _ => rfl,rfl,
    rfl,rfl⟩
  · obtain ⟨rfl,rfl⟩ := hslot x a i ha
    obtain ⟨rfl,rfl⟩ := hslot x b j hb
    exact ⟨rfl,rfl⟩
  · rw [hmem h a hm]
    rfl

/-- `main` stops both arrays, the task marks itself done, `main` polls both and joins the task,
which sends its last message while the log task comes for the lock. -/
def joinRun : List (LockAction Bool Unit) :=
  let step := LockAction.main 0 .ready
  let send := [LockAction.log .main,.log .main]
  send ++ [step,step,step] ++ send ++ [step,step] ++ send ++ [step,step,step,step,step] ++ send ++
    [.task () .finish,.task () .go,.task () .go] ++ [step,step,step,step,step,step] ++
    [step,step,step,step,step,.main 0 .error] ++ [step,step,step] ++
    [.log (.task ()),.logTask true,.logTask true]

theorem shutdown_deadlockFree_joinRun : ∃ tr, ∃ s : Locking Bool Unit Unit,
    Exec (machine oneTaskSetup) tr s ∧ s.joins = [()] ∧
      s.waiting.HeldUpBy .main (.task ()) ∧ s.waiting.HeldUpBy .log (.task ()) ∧
      DeadlockFree s := by
  have hv : ((machine oneTaskSetup).run oneTask joinRun).map
      (fun s => (s.joins,s.wants .main,s.wants .log,s.owner .queue,s.task ())) =
      some ([()],some (.join (.task ())),some (.mutex .queue),some (.task ()),.tail) := by rfl
  obtain ⟨s,hs,hr⟩ := Option.map_eq_some_iff.mp hv
  simp only [Prod.mk.injEq] at hr
  obtain ⟨hjoins,hmain,hlog,howner,htask⟩ := hr
  have run := Exec.of_run oneTask_init hs
  refine ⟨_,s,run,hjoins,?_,?_,shutdown_deadlockFree run⟩
  · simp only [WaitState.HeldUpBy,waiting,hmain,Ended,htask]
    refine ⟨trivial,fun hd => ?_⟩
    cases hd
  · simp only [WaitState.HeldUpBy,waiting,hlog,howner]

end Locking
end TTK4145.Rtsystem
