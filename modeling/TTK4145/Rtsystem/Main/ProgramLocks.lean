import TTK4145.Rtsystem.Main.Program

/-! When `main` uses the lock of the log queue and that of `g_stdin_tasks` only between their
initialisation and their destruction. -/
namespace TTK4145.Rtsystem
open Lib ResourceEvent

/-- Nothing in `stdin_task_init` fails. -/
def StdinStarts (_ : Program) : ProgramAction → Prop
  | .stdinTaskInit env => env.AllSucceed
  | _ => True

instance (s : Program) : (a : ProgramAction) → Decidable (StdinStarts s a)
  | .stdinTaskInit env => inferInstanceAs (Decidable env.AllSucceed)
  | .signalfd _ | .logTaskInit _ | .test | .poll _ _ _ | .shutdown _ | .logPoll _ | .logJoin =>
    isTrue trivial

/-- `main` has not left its signal loop for the shutdown. -/
def NoShutdown (_ : Program) : ProgramAction → Prop
  | .shutdown _ => False
  | _ => True

instance (s : Program) : (a : ProgramAction) → Decidable (NoShutdown s a)
  | .shutdown _ => isFalse id
  | .signalfd _ | .logTaskInit _ | .stdinTaskInit _ | .test | .poll _ _ _ | .logPoll _ | .logJoin =>
    isTrue trivial

section Locks
variable {s t : Program} {a : ProgramAction} {tr : List (Program × ProgramAction)} {l : Life}
  {es : List (ResourceEvent MutexName StdinResource)}

theorem MutexSafe.programRelease {r : ℕ → StdinResource} {n : Option ℕ}
    (h : MutexSafe s.world.events) : MutexSafe (s.release r n).world.events := by
  cases n with
  | none => exact h
  | some n => exact mutexSafe_release h

theorem LockSound.programRelease {r : ℕ → StdinResource} {n : Option ℕ}
    (h : LockSound l s.world) : LockSound l (s.release r n).world := by
  cases n with
  | none => exact h
  | some n => exact LockSound.release _ h

/-- The queue is destroyed with its lock initialised. -/
theorem LockSound.fifoQueueDestroy (h : LockSound l s.world) :
    MutexSafe s.fifoQueueDestroy.world.events := by
  have hb : LockSound l (s.release .block s.queueBuffer).world := h.programRelease
  have hf : LockSound l (({s.release .block s.queueBuffer with queueBuffer := none} : Program).release
      .fd (s.release .block s.queueBuffer).queueFd).world := LockSound.programRelease hb
  refine mutexSafe_snoc.mpr ⟨hf.safe,fun m hm => ?_⟩
  cases hm
  exact hf.queue

theorem LockSound.close (h : LockSound l s.world) :
    MutexSafe s.logTaskCleanup.closeSig.world.events :=
  MutexSafe.programRelease (MutexSafe.programRelease h.fifoQueueDestroy)

/-- `fifo_queue_init` initialises the lock of the queue, and destroys it where it fails behind that. -/
theorem logTaskInit_locks (env : LogInitOutcome) (h : MutexSafe s.world.events)
    (harray : life .taskArray s.world.events = .raw) :
    ((s.logTaskInit env).1 = 0 ∧ LockSound .raw (s.logTaskInit env).2.world) ∨
    (s.logTaskInit env).1 = -1 ∧ MutexSafe (s.logTaskInit env).2.world.events := by
  obtain ⟨malloc,queueEventfd,eventfd,pthreadCreate⟩ := env
  have hb : LockSound .raw ((s.acquire .block).world.event (.init .logQueue)) := by
    refine ⟨mutexSafe_snoc.mpr ⟨mutexSafe_snoc.mpr ⟨h,fun _ hm => hm.elim⟩,fun _ hm => hm.elim⟩,
      life_snoc,?_⟩
    exact life_snoc.trans (life_snoc.trans harray)
  have hq : LockSound .raw (s.fifoQueueInit ⟨true,true,eventfd,pthreadCreate⟩).2.world :=
    (hb.acquire (.fd (s.world.fresh+1))).congr rfl
  cases malloc with
  | false => exact .inr ⟨rfl,h⟩
  | true =>
    cases queueEventfd with
    | false =>
      refine .inr ⟨rfl,mutexSafe_snoc.mpr ⟨mutexSafe_release hb.safe,fun m hm => ?_⟩⟩
      cases hm
      exact (hb.release _).queue
    | true =>
      cases eventfd with
      | false => exact .inr ⟨rfl,LockSound.fifoQueueDestroy hq⟩
      | true =>
        have hd : LockSound .raw
            ((s.fifoQueueInit ⟨true,true,true,pthreadCreate⟩).2.acquire .fd).world :=
          (hq.acquire (.fd (s.world.fresh+1+1))).congr rfl
        cases pthreadCreate with
        | false => exact .inr ⟨rfl,LockSound.fifoQueueDestroy (hd.release _)⟩
        | true => exact .inl ⟨rfl,hd⟩

/-- In the signal loop the lock of the array is initialised, unless `stdin_task_init` has failed. -/
def GuardsLoop (tr : List (Program × ProgramAction)) (w : StdinWorld) : Prop :=
  Meets NoShutdown tr ∧ (Meets StdinStarts tr ∧ LockSound .live w ∨
    ¬Meets StdinStarts tr ∧ w.capacity = 0 ∧ ∃ l, l ≠ .live ∧ LockSound l w)

/-- Behind the shutdown it has been destroyed, or used where it should not be. -/
def GuardsEnd (tr : List (Program × ProgramAction)) (w : StdinWorld) : Prop :=
  ¬Meets NoShutdown tr ∧ (Meets StdinStarts tr ∧ LockSound .destroyed w ∨
    ¬Meets StdinStarts tr ∧ ¬MutexSafe w.events)

/-- Where the locks are in their lives at each statement of `main`. -/
def Guards (tr : List (Program × ProgramAction)) (s : Program) : Prop :=
  match s.pc with
  | .signalfd | .logTaskInit => MutexSafe s.world.events ∧
      life .taskArray s.world.events = .raw ∧ s.world.capacity = 0 ∧ Meets StdinStarts tr ∧
      Meets NoShutdown tr
  | .stdinTaskInit => LockSound .raw s.world ∧ s.world.capacity = 0 ∧ Meets StdinStarts tr ∧
      Meets NoShutdown tr
  | .test | .poll | .shutdown => GuardsLoop tr s.world
  | .logPoll | .logJoin => GuardsEnd tr s.world
  | .exited _ => MutexSafe s.world.events ↔ Meets StdinStarts tr ∨ Meets NoShutdown tr

theorem GuardsLoop.snoc {w : StdinWorld} (h : GuardsLoop tr w) (hstarts : StdinStarts s a)
    (hbefore : NoShutdown s a) : GuardsLoop (tr ++ [(s,a)]) w := by
  rw [GuardsLoop,meets_snoc,meets_snoc,and_iff_left hstarts,and_iff_left hbefore]
  exact h

theorem GuardsEnd.snoc {w : StdinWorld} (h : GuardsEnd tr w) (hstarts : StdinStarts s a)
    (hbefore : NoShutdown s a) : GuardsEnd (tr ++ [(s,a)]) w := by
  rw [GuardsEnd,meets_snoc,meets_snoc,and_iff_left hstarts,and_iff_left hbefore]
  exact h

/-- A `main` that returns from its signal loop has used the locks well. -/
theorem GuardsLoop.safe {w : StdinWorld} {c : LogCall} (h : GuardsLoop tr w) :
    MutexSafe (w.log c).events := by
  obtain ⟨-,⟨-,hlive⟩ | ⟨-,-,l,-,hsound⟩⟩ := h
  · exact hlive.log.safe
  · exact hsound.log.safe

/-- What follows the shutdown decides nothing. -/
theorem GuardsEnd.exit {w : StdinWorld} (h : GuardsEnd tr w)
    (hmore : ∃ more, es = w.events ++ more) (hsafe : LockSound .destroyed w → MutexSafe es) :
    MutexSafe es ↔ Meets StdinStarts tr ∨ Meets NoShutdown tr := by
  obtain ⟨more,rfl⟩ := hmore
  obtain ⟨hafter,⟨hstarts,hsound⟩ | ⟨hstarts,hbreaks⟩⟩ := h
  · exact iff_of_true (hsafe hsound) (.inl hstarts)
  · exact iff_of_false (fun hall => hbreaks (mutexSafe_of_append hall)) (not_or.mpr ⟨hstarts,hafter⟩)

theorem Guards.stepLogTaskInit {env : LogInitOutcome} (h : MutexSafe s.world.events)
    (harray : life .taskArray s.world.events = .raw) (hcap : s.world.capacity = 0)
    (hstarts : Meets StdinStarts tr) (hbefore : Meets NoShutdown tr) :
    Guards tr (s.stepLogTaskInit env) := by
  have hstatics := (logTaskInit_others (s := s) env).2
  obtain ⟨hret,hsound⟩ | ⟨hret,hsafe⟩ := logTaskInit_locks env h harray
  · simp only [Program.stepLogTaskInit,hret,ne_eq,not_true_eq_false,if_false]
    exact ⟨hsound.log,(congrArg StdinStatics.capacity hstatics).trans hcap,hstarts,hbefore⟩
  · simp only [Program.stepLogTaskInit,hret]
    exact iff_of_true (MutexSafe.programRelease hsafe) (.inl hstarts)

theorem LockSound.stepStdinTaskInit (env : InitOutcome) (h : LockSound .raw s.world)
    (hcap : s.world.capacity = 0) :
    env.AllSucceed ∧ LockSound .live (s.stepStdinTaskInit env).world ∨
    ¬env.AllSucceed ∧ (s.stepStdinTaskInit env).world.capacity = 0 ∧
      ∃ l, l ≠ .live ∧ LockSound l (s.stepStdinTaskInit env).world := by
  obtain ⟨hall,hret,hlive⟩ | ⟨hall,hret,hempty,l,hl,hsound⟩ :=
    stdinTaskInit_spec 256 12 env h (by decide) hcap
  · simp only [Program.stepStdinTaskInit,hret,ne_eq,not_true_eq_false,if_false]
    exact .inl ⟨hall,hlive⟩
  · simp only [Program.stepStdinTaskInit,hret]
    exact .inr ⟨hall,hempty,l,hl,hsound.log⟩

/-- The shutdown of an empty array begins with its lock, which is not initialised. -/
theorem shutdown_breaks {w : StdinWorld} (c : ShutdownChoice) (h : LockSound l w) (hl : l ≠ .live)
    (hcap : w.capacity = 0) : ¬MutexSafe (w.shutdown c).events := by
  obtain ⟨rest,hevents⟩ := shutdown_empty c hcap
  intro hsafe
  have hlive := hsafe _ _ _ MutexName.taskArray hevents rfl
  have harray := (h.log (c := StdinWorld.mainLog .debug "")).array
  simp only [StdinWorld.log,StdinWorld.event,List.append_assoc] at harray hlive
  exact hl (harray.symm.trans hlive)

/-- What `main` does last only adds events. -/
theorem close_events : ∃ more, s.logTaskCleanup.closeSig.world.events = s.world.events ++ more := by
  have hrelease : ∀ (s : Program) (r : ℕ → StdinResource) n,
      ∃ more, (s.release r n).world.events = s.world.events ++ more := by
    intro s r n
    cases n with
    | none => exact ⟨[],(List.append_nil _).symm⟩
    | some n => exact ⟨_,rfl⟩
  obtain ⟨e₁,h₁⟩ := hrelease s .block s.queueBuffer
  obtain ⟨e₂,h₂⟩ := hrelease {s.release .block s.queueBuffer with queueBuffer := none} .fd
    (s.release .block s.queueBuffer).queueFd
  obtain ⟨e₃,h₃⟩ := hrelease s.fifoQueueDestroy .fd s.fifoQueueDestroy.logDoneFd
  obtain ⟨e₄,h₄⟩ := hrelease s.logTaskCleanup .fd s.logTaskCleanup.sigFd
  refine ⟨e₁ ++ e₂ ++ [.destroy .logQueue] ++ e₃ ++ e₄,?_⟩
  have hdestroy : s.fifoQueueDestroy.world.events = s.world.events ++ e₁ ++ e₂ ++
      [.destroy .logQueue] := by
    rw [←h₁]
    exact congrArg (· ++ _) h₂
  rw [hdestroy] at h₃
  have hcleanup : s.logTaskCleanup.world.events = _ := h₃
  rw [hcleanup] at h₄
  exact h₄.trans (by simp only [List.append_assoc])

theorem Guards.next (h : Guards tr s) (hn : s.next a = some t) : Guards (tr ++ [(s,a)]) t := by
  cases a with
  | signalfd ok =>
    simp only [Program.next] at hn
    split_ifs at hn with hpc
    cases hn
    rw [Guards,hpc] at h
    obtain ⟨hsafe,harray,hcap,hstarts,hbefore⟩ := h
    have hstarts' : Meets StdinStarts (tr ++ [(s,.signalfd ok)]) := meets_snoc.mpr ⟨hstarts,trivial⟩
    have hbefore' : Meets NoShutdown (tr ++ [(s,.signalfd ok)]) := meets_snoc.mpr ⟨hbefore,trivial⟩
    cases ok with
    | false => exact iff_of_true hsafe (.inl hstarts')
    | true =>
      exact ⟨mutexSafe_snoc.mpr ⟨hsafe,fun _ hm => hm.elim⟩,life_snoc.trans harray,hcap,hstarts',
        hbefore'⟩
  | logTaskInit env =>
    simp only [Program.next] at hn
    split_ifs at hn with hpc
    cases hn
    rw [Guards,hpc] at h
    obtain ⟨hsafe,harray,hcap,hstarts,hbefore⟩ := h
    exact Guards.stepLogTaskInit hsafe harray hcap (meets_snoc.mpr ⟨hstarts,trivial⟩)
      (meets_snoc.mpr ⟨hbefore,trivial⟩)
  | stdinTaskInit env =>
    simp only [Program.next] at hn
    split_ifs at hn with hpc
    cases hn
    rw [Guards,hpc] at h
    obtain ⟨hsound,hcap,hstarts,hbefore⟩ := h
    refine ⟨meets_snoc.mpr ⟨hbefore,trivial⟩,?_⟩
    rw [meets_snoc]
    obtain ⟨hall,hlive⟩ | ⟨hall,hempty⟩ := LockSound.stepStdinTaskInit env hsound hcap
    · exact .inl ⟨⟨hstarts,hall⟩,hlive⟩
    · exact .inr ⟨fun hmeets => hall hmeets.2,hempty⟩
  | test =>
    by_cases hpc : s.pc = .test
    · simp only [Program.next,if_pos hpc] at hn
      cases hn
      rw [Guards,hpc] at h
      have hloop := GuardsLoop.snoc (s := s) (a := .test) h trivial trivial
      cases s.running <;> exact hloop
    · simp only [Program.next,if_neg hpc] at hn
      cases hn
  | poll ret pollIn strerror =>
    simp only [Program.next] at hn
    split_ifs at hn with hpc
    cases hn
    rw [Guards,hpc] at h
    have hloop := GuardsLoop.snoc (s := s) (a := .poll ret pollIn strerror) h trivial trivial
    simp only [Program.stepPoll]
    split_ifs
    · exact iff_of_true hloop.safe (.inr hloop.1)
    · exact hloop
    · exact hloop
  | shutdown c =>
    simp only [Program.next] at hn
    split_ifs at hn with hpc
    cases hn
    rw [Guards,hpc] at h
    obtain ⟨hbefore,hrest⟩ := h
    refine ⟨fun hmeets => (meets_snoc.mp hmeets).2,?_⟩
    simp only [meets_snoc,StdinStarts,and_true]
    obtain ⟨hstarts,hlive⟩ | ⟨hstarts,hcap,l,hl,hsound⟩ := hrest
    · exact .inl ⟨hstarts,hlive.shutdown c⟩
    · exact .inr ⟨hstarts,shutdown_breaks c hsound hl hcap⟩
  | logPoll ret =>
    simp only [Program.next] at hn
    split_ifs at hn with hpc
    cases hn
    rw [Guards,hpc] at h
    have hend := GuardsEnd.snoc (s := s) (a := .logPoll ret) h trivial trivial
    simp only [Program.stepLogPoll]
    split_ifs
    · exact hend.exit ⟨[],(List.append_nil _).symm⟩ fun hsound => hsound.safe
    · exact hend
  | logJoin =>
    simp only [Program.next] at hn
    split_ifs at hn with hpc
    cases hn
    rw [Guards,hpc] at h
    have hend := GuardsEnd.snoc (s := s) (a := .logJoin) h trivial trivial
    exact hend.exit close_events fun hsound => hsound.close

/-- `main` locks, unlocks and destroys its two locks only while they are initialised, if and only if
nothing in `stdin_task_init` fails or it returns before its shutdown. -/
theorem program_locks_iff (run : Exec Program.machine tr s) :
    MutexSafe s.world.events ↔ Meets StdinStarts tr ∨ Meets NoShutdown tr := by
  have h : Guards tr s := by
    induction run with
    | init h =>
      obtain ⟨fresh,-,rfl⟩ := h
      exact ⟨mutexSafe_nil,rfl,rfl,meets_nil,meets_nil⟩
    | step run hn ih => exact ih.next hn
  cases hpc : s.pc with
  | signalfd | logTaskInit =>
    rw [Guards,hpc] at h
    exact iff_of_true h.1 (.inl h.2.2.2.1)
  | stdinTaskInit =>
    rw [Guards,hpc] at h
    exact iff_of_true h.1.safe (.inl h.2.2.1)
  | test | poll | shutdown =>
    rw [Guards,hpc] at h
    refine iff_of_true ?_ (.inr h.1)
    obtain ⟨-,⟨-,hlive⟩ | ⟨-,-,l,-,hsound⟩⟩ := h
    · exact hlive.safe
    · exact hsound.safe
  | logPoll | logJoin =>
    rw [Guards,hpc] at h
    exact GuardsEnd.exit h ⟨[],(List.append_nil _).symm⟩ fun hsound => hsound.safe
  | exited status =>
    rw [Guards,hpc] at h
    exact h

end Locks

theorem program_locks_iff_quiet : ∃ tr, ∃ s : Program, Exec Program.machine tr s ∧
    s.pc = .exited 0 ∧ ¬MutexSafe s.world.events := by
  have hv : (Program.machine.run (.start 3) quietProgram).map (·.pc) = some (.exited 0) := by decide
  obtain ⟨s,hs,hpc⟩ := Option.map_eq_some_iff.mp hv
  have run : Exec Program.machine _ s := Exec.of_run ⟨3,by decide,rfl⟩ hs
  exact ⟨_,s,run,hpc,(program_locks_iff run).not.mpr (by decide)⟩

end TTK4145.Rtsystem
