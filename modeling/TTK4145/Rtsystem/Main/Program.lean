import TTK4145.Lib.Machine
import TTK4145.Rtsystem.Tasks.StdinOwned

/-! `main` (`rtsystem/src/main/main.c`) from its first statement to its last, with
`log_task_init`, `log_task_cleanup`, `fifo_queue_init` and `fifo_queue_destroy`: every call that may
fail, every early return, and what has been acquired and released by then. -/
namespace TTK4145.Rtsystem
open Lib ResourceEvent

/-- Which calls of `log_task_init` succeed: `malloc` and `eventfd` in `fifo_queue_init`, then
`eventfd` and `pthread_create`. -/
structure LogInitOutcome where
  malloc : Bool
  queueEventfd : Bool
  eventfd : Bool
  pthreadCreate : Bool
  deriving DecidableEq, Repr

/-- The next statement of `main`. -/
inductive ProgramPc where
  | signalfd
  | logTaskInit
  | stdinTaskInit
  | test
  | poll
  | shutdown
  | logPoll
  | logJoin
  | exited (status : ℕ)
  deriving DecidableEq, Repr

/-- `sig_fd`, `g_log_queue` without its items, `g_log_done_fd` and `g_running`, with the world of
the stdin task. -/
structure Program where
  world : StdinWorld
  sigFd : Option ℕ
  queueBuffer : Option ℕ
  queueFd : Option ℕ
  logDoneFd : Option ℕ
  running : Bool
  pc : ProgramPc

inductive ProgramAction where
  | signalfd (ok : Bool)
  | logTaskInit (env : LogInitOutcome)
  | stdinTaskInit (env : InitOutcome)
  | test
  | poll (ret : ℤ) (pollIn : Bool) (strerror : List UInt8)
  | shutdown (c : ShutdownChoice)
  | logPoll (ret : ℤ)
  | logJoin

namespace Program

def event (s : Program) (e : ResourceEvent MutexName StdinResource) : Program :=
  {s with world := s.world.event e}

def log (s : Program) (c : LogCall) : Program := {s with world := s.world.log c}

def goto (s : Program) (pc : ProgramPc) : Program := {s with pc := pc}

/-- A new block or descriptor. -/
def acquire (s : Program) (r : ℕ → StdinResource) : Program :=
  {s with world := {s.world.event (.acquire (r s.world.fresh)) with fresh := s.world.fresh+1}}

/-- `free` or `close` of a pointer or a descriptor, if there is one. -/
def release (s : Program) (r : ℕ → StdinResource) : Option ℕ → Program
  | some n => s.event (.release (r n))
  | none => s

/-- `fifo_queue_init(&g_log_queue, …)`. -/
def fifoQueueInit (env : LogInitOutcome) (s : Program) : ℤ × Program :=
  if env.malloc then
    let s := ({s.acquire .block with queueBuffer := some s.world.fresh}).event (.init .logQueue)
    if env.queueEventfd then (0,{s.acquire .fd with queueFd := some s.world.fresh})
    else (-1,(({s with queueFd := none}).release .block s.queueBuffer).event (.destroy .logQueue))
  else (-1,{s with queueBuffer := none})

/-- `fifo_queue_destroy(&g_log_queue)`. -/
def fifoQueueDestroy (s : Program) : Program :=
  let s := {s.release .block s.queueBuffer with queueBuffer := none}
  let s := {s.release .fd s.queueFd with queueFd := none}
  s.event (.destroy .logQueue)

/-- `log_task_init(queue_size, priority)`. -/
def logTaskInit (env : LogInitOutcome) (s : Program) : ℤ × Program :=
  let q := s.fifoQueueInit env
  if q.1 ≠ 0 then (-1,q.2)
  else if env.eventfd then
    let s := {q.2.acquire .fd with logDoneFd := some q.2.world.fresh}
    if env.pthreadCreate then (0,s) else (-1,(s.release .fd s.logDoneFd).fifoQueueDestroy)
  else (-1,({q.2 with logDoneFd := none}).fifoQueueDestroy)

/-- `log_task_cleanup()`. -/
def logTaskCleanup (s : Program) : Program :=
  let s := s.fifoQueueDestroy
  {s.release .fd s.logDoneFd with logDoneFd := none}

def closeSig (s : Program) : Program := s.release .fd s.sigFd

def stepSignalfd (s : Program) (ok : Bool) : Program :=
  if ok then ({s.acquire .fd with sigFd := some s.world.fresh}).goto .logTaskInit
  else ({s with sigFd := none}).goto (.exited 1)

def stepLogTaskInit (s : Program) (env : LogInitOutcome) : Program :=
  let r := s.logTaskInit env
  if r.1 ≠ 0 then r.2.closeSig.goto (.exited 1)
  else (r.2.log (StdinWorld.mainLog .debug "rtsystem started")).goto .stdinTaskInit

/-- A failure is logged and otherwise ignored. -/
def stepStdinTaskInit (s : Program) (env : InitOutcome) : Program :=
  let r := s.world.stdinTaskInit 256 12 env
  ({s with world := if r.1 ≠ 0 then
    r.2.log (StdinWorld.mainLog .error "failed to initialize stdin_task") else r.2}).goto .test

/-- The body of the signal loop. -/
def stepPoll (s : Program) (ret : ℤ) (pollIn : Bool) (strerror : List UInt8) : Program :=
  if ret<0 then
    (s.log ⟨.debug,.error,cBytes "main",
      cBytes "Failed to poll signal file descriptor, SHOULD NOT HAPPEN: : " ++ strerror⟩).goto
      (.exited 1)
  else if ret>0 ∧ pollIn then ({s with running := false}).goto .test
  else s.goto .test

/-- The wait for the log task; whether it is cancelled then makes no difference here. -/
def stepLogPoll (s : Program) (ret : ℤ) : Program :=
  if ret<0 then s.goto (.exited 0) else s.goto .logJoin

def next (s : Program) : ProgramAction → Option Program
  | .signalfd ok => if s.pc = .signalfd then some (s.stepSignalfd ok) else none
  | .logTaskInit env => if s.pc = .logTaskInit then some (s.stepLogTaskInit env) else none
  | .stdinTaskInit env => if s.pc = .stdinTaskInit then some (s.stepStdinTaskInit env) else none
  | .test => if s.pc = .test then some (s.goto (if s.running then .poll else .shutdown)) else none
  | .poll ret pollIn strerror => if s.pc = .poll then some (s.stepPoll ret pollIn strerror) else none
  | .shutdown c => if s.pc = .shutdown then
      some (({s with world := s.world.shutdown c}).goto .logPoll) else none
  | .logPoll ret => if s.pc = .logPoll then some (s.stepLogPoll ret) else none
  | .logJoin => if s.pc = .logJoin then some (s.logTaskCleanup.closeSig.goto (.exited 0)) else none

/-- The static variables when the program starts: zeros, but -1 in `sig_fd` and `g_log_done_fd`. -/
def start (fresh : ℕ) : Program :=
  ⟨⟨⟨none,0,⟨0,some 0,.init,false,false⟩,none,0⟩,fresh,[],0,[],[]⟩,none,none,some 0,none,true,
    .signalfd⟩

def machine : Machine Program ProgramAction where
  init s := ∃ fresh, 0<fresh ∧ s = start fresh
  next := next

end Program

/-- The two calls of `poll` in `main` do not fail. -/
def PollsWork (_ : Program) : ProgramAction → Prop
  | .poll ret _ _ | .logPoll ret => 0 ≤ ret
  | _ => True

instance (s : Program) : (a : ProgramAction) → Decidable (PollsWork s a)
  | .poll ret _ _ | .logPoll ret => inferInstanceAs (Decidable (0 ≤ ret))
  | .signalfd _ | .logTaskInit _ | .stdinTaskInit _ | .test | .shutdown _ | .logJoin => isTrue trivial

section Ownership
variable {s t : Program} {a : ProgramAction} {tr : List (Program × ProgramAction)}
  {m : Multiset StdinResource} {n b f d : ℕ}

/-- The queue is given back as `fifo_queue_init` made it. -/
theorem Owns.fifoQueueDestroy (h : Owns (.fd f ::ₘ .block b ::ₘ m) s.world)
    (hbuffer : s.queueBuffer = some b) (hfd : s.queueFd = some f) :
    Owns m s.fifoQueueDestroy.world := by
  rw [Multiset.cons_swap] at h
  have hb : Owns (.fd f ::ₘ m) (s.world.event (.release (.block b))) := h.release
  have hworld : s.fifoQueueDestroy.world =
      ((s.world.event (.release (.block b))).event (.release (.fd f))).event
        (.destroy .logQueue) := by
    simp [Program.fifoQueueDestroy,Program.release,Program.event,hbuffer,hfd]
  rw [hworld]
  exact hb.release.mutex rfl

@[simp] theorem fifoQueueDestroy_logDoneFd : s.fifoQueueDestroy.logDoneFd = s.logDoneFd := by
  cases hb : s.queueBuffer <;> cases hf : s.queueFd <;>
    simp [Program.fifoQueueDestroy,Program.release,Program.event,hb,hf]

/-- `log_task_init` acquires three resources, or none. -/
theorem Owns.logTaskInit (env : LogInitOutcome) (h : Owns m s.world) :
    ((s.logTaskInit env).1 = 0 ∧ ∃ b f d, (s.logTaskInit env).2.queueBuffer = some b ∧
      (s.logTaskInit env).2.queueFd = some f ∧ (s.logTaskInit env).2.logDoneFd = some d ∧
      Owns (.fd d ::ₘ .fd f ::ₘ .block b ::ₘ m) (s.logTaskInit env).2.world) ∨
    (s.logTaskInit env).1 = -1 ∧ Owns m (s.logTaskInit env).2.world := by
  obtain ⟨malloc,queueEventfd,eventfd,pthreadCreate⟩ := env
  have hb : Owns (.block s.world.fresh ::ₘ m)
      ((s.acquire .block).world.event (.init .logQueue)) :=
    Owns.mutex (h.acquire rfl rfl rfl) rfl
  have hq : Owns (.fd (s.world.fresh+1) ::ₘ .block s.world.fresh ::ₘ m)
      (s.fifoQueueInit ⟨true,true,eventfd,pthreadCreate⟩).2.world := hb.acquire rfl rfl rfl
  cases malloc with
  | false => exact .inr ⟨rfl,h⟩
  | true =>
    cases queueEventfd with
    | false => exact .inr ⟨rfl,Owns.mutex hb.release rfl⟩
    | true =>
      cases eventfd with
      | false => exact .inr ⟨rfl,Owns.fifoQueueDestroy hq rfl rfl⟩
      | true =>
        have hd : Owns (.fd (s.world.fresh+1+1) ::ₘ .fd (s.world.fresh+1) ::ₘ
            .block s.world.fresh ::ₘ m)
            ((s.fifoQueueInit ⟨true,true,true,pthreadCreate⟩).2.acquire .fd).world :=
          hq.acquire rfl rfl rfl
        cases pthreadCreate with
        | false => exact .inr ⟨rfl,Owns.fifoQueueDestroy hd.release rfl rfl⟩
        | true => exact .inl ⟨rfl,_,_,_,rfl,rfl,rfl,hd⟩

/-- The pointers that `log_task_init` leaves alone. -/
theorem logTaskInit_others (env : LogInitOutcome) :
    (s.logTaskInit env).2.sigFd = s.sigFd ∧
      (s.logTaskInit env).2.world.toStdinStatics = s.world.toStdinStatics := by
  obtain ⟨malloc,queueEventfd,eventfd,pthreadCreate⟩ := env
  cases malloc <;> cases queueEventfd <;> cases eventfd <;> cases pthreadCreate <;> exact ⟨rfl,rfl⟩

/-- `sig_fd`, the log queue and `g_log_done_fd` are `m`. -/
def Up (m : Multiset StdinResource) (s : Program) : Prop :=
  ∃ g b f d, s.sigFd = some g ∧ s.queueBuffer = some b ∧ s.queueFd = some f ∧
    s.logDoneFd = some d ∧ m = .fd d ::ₘ .fd f ::ₘ .block b ::ₘ {.fd g}

/-- `main` owns what its pointers say at each of its statements. -/
def Balances (s : Program) : Prop :=
  match s.pc with
  | .signalfd => Owns 0 s.world ∧ s.world.capacity = 0
  | .logTaskInit => (∃ g, s.sigFd = some g ∧ Owns {.fd g} s.world) ∧ s.world.capacity = 0
  | .stdinTaskInit => (∃ m, Up m s ∧ Owns m s.world) ∧ s.world.capacity = 0
  | .test | .poll | .shutdown => ∃ m, Up m s ∧ (Started m s.world ∨
      s.world.slots = none ∧ s.world.capacity = 0 ∧ Owns m s.world)
  | .logPoll | .logJoin => ∃ m, Up m s ∧ Owns m s.world
  | .exited _ => Owns 0 s.world

theorem Balances.stepSignalfd {ok : Bool} (h : Owns 0 s.world) (hcap : s.world.capacity = 0) :
    Balances (s.stepSignalfd ok) := by
  cases ok with
  | false => exact h
  | true => exact ⟨⟨s.world.fresh,rfl,h.acquire rfl rfl rfl⟩,hcap⟩

theorem Balances.stepLogTaskInit {env : LogInitOutcome} {g : ℕ} (hsig : s.sigFd = some g)
    (h : Owns {.fd g} s.world) (hcap : s.world.capacity = 0) :
    Balances (s.stepLogTaskInit env) := by
  obtain ⟨hsig',hstatics⟩ := logTaskInit_others (s := s) env
  rw [hsig] at hsig'
  obtain ⟨hret,b,f,d,hbuffer,hqueue,hdone,howns⟩ | ⟨hret,howns⟩ := h.logTaskInit env
  · simp only [Program.stepLogTaskInit,hret,ne_eq,not_true_eq_false,if_false]
    refine ⟨⟨_,⟨g,b,f,d,hsig',hbuffer,hqueue,hdone,rfl⟩,howns.log⟩,?_⟩
    exact (congrArg StdinStatics.capacity hstatics).trans hcap
  · have hclose : Owns 0 ((s.logTaskInit env).2.closeSig).world := by
      simp only [Program.closeSig,Program.release,hsig']
      exact Owns.release howns
    simp only [Program.stepLogTaskInit,hret]
    exact hclose

theorem Started.log {w : StdinWorld} {c : LogCall} (h : Started m w) : Started m (w.log c) := by
  obtain ⟨p,n,l,hs,hfd,hl,howns⟩ := h.owns
  exact ⟨h.capacity,h.onCleanup,p,n,l,hs,hfd,hl,howns.log⟩

theorem Balances.stepStdinTaskInit {env : InitOutcome} (hup : Up m s) (h : Owns m s.world)
    (hcap : s.world.capacity = 0) : Balances (s.stepStdinTaskInit env) := by
  refine ⟨m,hup,?_⟩
  simp only [Program.stepStdinTaskInit,Program.goto]
  obtain ⟨-,hstarted⟩ | ⟨-,hslots,hcap',howns⟩ := h.stdinTaskInit 256 12 env hcap
  · split_ifs
    · exact .inl hstarted.log
    · exact .inl hstarted
  · split_ifs
    · exact .inr ⟨hslots,hcap',howns.log⟩
    · exact .inr ⟨hslots,hcap',howns⟩

/-- The end of `main` releases what was acquired before the stdin task. -/
theorem Up.close (hup : Up m s) (h : Owns m s.world) :
    Owns 0 s.logTaskCleanup.closeSig.world := by
  obtain ⟨g,b,f,d,hsig,hbuffer,hqueue,hdone,rfl⟩ := hup
  have hrest : Owns (.fd d ::ₘ {.fd g}) s.fifoQueueDestroy.world := by
    rw [Multiset.cons_swap (StdinResource.fd d),Multiset.cons_swap (StdinResource.fd d)] at h
    exact h.fifoQueueDestroy hbuffer hqueue
  have hworld : s.logTaskCleanup.closeSig.world =
      (s.fifoQueueDestroy.world.event (.release (.fd d))).event (.release (.fd g)) := by
    have hsig' : s.fifoQueueDestroy.sigFd = some g := by
      simp [Program.fifoQueueDestroy,Program.release,Program.event,hbuffer,hqueue,hsig]
    simp [Program.logTaskCleanup,Program.closeSig,Program.release,Program.event,hdone,hsig']
  rw [hworld]
  exact hrest.release.release

/-- A step keeps the balance, or a `poll` fails and `main` returns without releasing anything. -/
theorem Balances.next (h : Balances s) (hn : s.next a = some t) :
    PollsWork s a ∧ Balances t ∨
    ¬PollsWork s a ∧ (∃ status, t.pc = .exited status) ∧
      ∃ m, m ≠ 0 ∧ owned t.world.events = some m := by
  cases a with
  | signalfd ok =>
    simp only [Program.next] at hn
    split_ifs at hn with hpc
    cases hn
    rw [Balances,hpc] at h
    exact .inl ⟨trivial,Balances.stepSignalfd h.1 h.2⟩
  | logTaskInit env =>
    simp only [Program.next] at hn
    split_ifs at hn with hpc
    cases hn
    rw [Balances,hpc] at h
    obtain ⟨⟨g,hsig,howns⟩,hcap⟩ := h
    exact .inl ⟨trivial,Balances.stepLogTaskInit hsig howns hcap⟩
  | stdinTaskInit env =>
    simp only [Program.next] at hn
    split_ifs at hn with hpc
    cases hn
    rw [Balances,hpc] at h
    obtain ⟨⟨m,hup,howns⟩,hcap⟩ := h
    exact .inl ⟨trivial,Balances.stepStdinTaskInit hup howns hcap⟩
  | test =>
    simp only [Program.next] at hn
    by_cases hpc : s.pc = .test
    · rw [if_pos hpc] at hn
      cases hn
      rw [Balances,hpc] at h
      refine .inl ⟨trivial,?_⟩
      cases s.running <;> exact h
    · rw [if_neg hpc] at hn
      cases hn
  | poll ret pollIn strerror =>
    simp only [Program.next] at hn
    split_ifs at hn with hpc
    cases hn
    rw [Balances,hpc] at h
    simp only [Program.stepPoll]
    split_ifs with hret
    · refine .inr ⟨Int.not_le.mpr hret,⟨1,rfl⟩,?_⟩
      obtain ⟨m,⟨g,b,f,d,-,-,-,-,rfl⟩,⟨-,-,p,n,l,-,-,-,howns⟩ | ⟨-,-,howns⟩⟩ := h
      · exact ⟨_,Multiset.cons_ne_zero,howns.log.owned⟩
      · exact ⟨_,Multiset.cons_ne_zero,howns.log.owned⟩
    · exact .inl ⟨Int.not_lt.mp hret,h⟩
    · exact .inl ⟨Int.not_lt.mp hret,h⟩
  | shutdown c =>
    simp only [Program.next] at hn
    split_ifs at hn with hpc
    cases hn
    rw [Balances,hpc] at h
    obtain ⟨m,hup,hstarted | ⟨hslots,hcap,howns⟩⟩ := h
    · exact .inl ⟨trivial,m,hup,hstarted.shutdown c⟩
    · exact .inl ⟨trivial,m,hup,howns.shutdown_empty c hslots hcap⟩
  | logPoll ret =>
    simp only [Program.next] at hn
    split_ifs at hn with hpc
    cases hn
    rw [Balances,hpc] at h
    simp only [Program.stepLogPoll]
    split_ifs with hret
    · obtain ⟨m,⟨g,b,f,d,-,-,-,-,rfl⟩,howns⟩ := h
      exact .inr ⟨Int.not_le.mpr hret,⟨0,rfl⟩,_,Multiset.cons_ne_zero,howns.owned⟩
    · exact .inl ⟨Int.not_lt.mp hret,h⟩
  | logJoin =>
    simp only [Program.next] at hn
    split_ifs at hn with hpc
    cases hn
    rw [Balances,hpc] at h
    obtain ⟨m,hup,howns⟩ := h
    exact .inl ⟨trivial,hup.close howns⟩

theorem Balances.owned (h : Balances s) : ∃ m, ResourceEvent.owned s.world.events = some m ∧
    ((∃ status, s.pc = .exited status) → m = 0) := by
  cases hpc : s.pc with
  | signalfd =>
    rw [Balances,hpc] at h
    exact ⟨0,h.1.owned,fun _ => rfl⟩
  | logTaskInit =>
    rw [Balances,hpc] at h
    obtain ⟨⟨g,-,howns⟩,-⟩ := h
    exact ⟨_,howns.owned,nofun⟩
  | stdinTaskInit =>
    rw [Balances,hpc] at h
    obtain ⟨⟨m,-,howns⟩,-⟩ := h
    exact ⟨m,howns.owned,nofun⟩
  | test | poll | shutdown =>
    rw [Balances,hpc] at h
    obtain ⟨m,-,⟨-,-,p,n,l,-,-,-,howns⟩ | ⟨-,-,howns⟩⟩ := h
    · exact ⟨_,howns.owned,nofun⟩
    · exact ⟨m,howns.owned,nofun⟩
  | logPoll | logJoin =>
    rw [Balances,hpc] at h
    obtain ⟨m,-,howns⟩ := h
    exact ⟨m,howns.owned,nofun⟩
  | exited status =>
    rw [Balances,hpc] at h
    exact ⟨0,Owns.owned h,fun _ => rfl⟩

/-- Behind its return `main` does nothing. -/
theorem next_exited {status : ℕ} (hpc : s.pc = .exited status) : s.next a ≠ some t := by
  cases a <;> simp [Program.next,hpc]

/-- Whatever fails and whenever `main` returns: it closes no descriptor and frees no block twice or
without having made it, and when it returns everything is released, unless one of its two calls of
`poll` has failed. -/
theorem program_releases (run : Exec Program.machine tr s) :
    ∃ m, owned s.world.events = some m ∧
      ((∃ status, s.pc = .exited status) → (m = 0 ↔ Meets PollsWork tr)) := by
  have h : Meets PollsWork tr ∧ Balances s ∨ ¬Meets PollsWork tr ∧
      (∃ status, s.pc = .exited status) ∧ ∃ m, m ≠ 0 ∧ owned s.world.events = some m := by
    induction run with
    | init h =>
      obtain ⟨fresh,-,rfl⟩ := h
      exact .inl ⟨meets_nil,⟨rfl,nofun⟩,rfl⟩
    | step run hn ih =>
      rw [meets_snoc]
      obtain ⟨hmeets,hbalances⟩ | ⟨-,⟨status,hpc⟩,-⟩ := ih
      · obtain ⟨hpoll,ht⟩ | ⟨hpoll,hrest⟩ := hbalances.next hn
        · exact .inl ⟨⟨hmeets,hpoll⟩,ht⟩
        · exact .inr ⟨fun hall => hpoll hall.2,hrest⟩
      · exact absurd hn (next_exited hpc)
  obtain ⟨hmeets,hbalances⟩ | ⟨hmeets,-,m,hm,howned⟩ := h
  · obtain ⟨m,howned,hzero⟩ := hbalances.owned
    exact ⟨m,howned,fun hexited => iff_of_true (hzero hexited) hmeets⟩
  · exact ⟨m,howned,fun _ => iff_of_false hm hmeets⟩

end Ownership

/-- Without the thread of the stdin task, and with a first `poll` that brings nothing. -/
def quietProgram : List ProgramAction := [.signalfd true,.logTaskInit ⟨true,true,true,true⟩,
  .stdinTaskInit ⟨true,true,true,false,[]⟩,.test,.poll 0 false [],.test,.poll 1 true [],.test,
  .shutdown lateTask,.logPoll 1,.logJoin]

theorem program_releases_quiet : ∃ tr, ∃ s : Program, Exec Program.machine tr s ∧
    s.pc = .exited 0 ∧ owned s.world.events = some 0 := by
  have hv : (Program.machine.run (.start 3) quietProgram).map (·.pc) = some (.exited 0) := by decide
  obtain ⟨s,hs,hpc⟩ := Option.map_eq_some_iff.mp hv
  have run : Exec Program.machine _ s := Exec.of_run ⟨3,by decide,rfl⟩ hs
  obtain ⟨m,howned,hzero⟩ := program_releases run
  have hm : m = 0 := (hzero ⟨0,hpc⟩).mpr (by decide)
  exact ⟨_,s,run,hpc,hm ▸ howned⟩

end TTK4145.Rtsystem
