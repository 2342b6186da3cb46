import TTK4145.Rtsystem.Main.ShutdownEnd

/-! The shutdown with the lock of the log queue, which every `LOG` call takes and gives back. A
thread that is cancelled at an event statement of the queue keeps it for ever. -/
namespace TTK4145.Rtsystem
open Lib

/-- Who takes the lock of the log queue. -/
inductive LogUser (τ : Type*) where
  | main
  | task (t : τ)
  | log
  deriving DecidableEq, Repr

/-- `calls` are the `LOG` calls that `main` makes before it goes on. -/
structure LoggedShutdown (τ κ : Type*) where
  shutdown : Shutdown τ κ
  owner : Option (LogUser τ)
  calls : ℕ

inductive LoggedShutdownAction (τ : Type*) where
  | shutdown (a : ShutdownAction τ)
  | lock (u : LogUser τ)
  | unlock (u : LogUser τ)
  deriving DecidableEq

namespace Shutdown
variable {τ κ : Type*} (logs : κ → ℕ)

/-- The `LOG` calls in a callback. -/
def callbackCalls (callback : Option κ) : ℕ := callback.elim 0 logs

/-- The `LOG` calls in a statement of `main` besides its polls. -/
def mainCalls (s : Shutdown τ κ) : MainPc → ℕ
  | .stop i j => match visit s.arrays i j with
    | .task t => callbackCalls logs (s.task t).handle.onStop+1
    | .endOfArray => 1
    | .noArray | .empty => 0
  | .cancel i j | .join i j => match visit s.arrays i j with
    | .task _ | .endOfArray => 1
    | .noArray | .empty => 0
  | .destroy i j => match visit s.arrays i j with
    | .task t => callbackCalls logs (s.task t).handle.onCleanup+1
    | .endOfArray => 1
    | .noArray | .empty => 0
  | .joinWait _ _ | .arrayDestroy _ => 1
  | .poll _ | .logStop | .logPoll | .logCancel | .logJoin | .logCleanup | .exited => 0

/-- The `LOG` calls in a poll of an array: of `task_array_poll_all` if `malloc` fails, and of `main`
before it cancels the tasks, which brings it to `pc`. -/
def pollCalls (slots : List (Option τ)) (malloc : Bool) (pc : MainPc) : ℕ :=
  (if occupied slots ≠ [] ∧ malloc = false then 1 else 0)+
    match pc with
    | .cancel _ _ => 1
    | _ => 0

/-- The `LOG` calls of `main` in its step to `t`. -/
def logCalls (s t : Shutdown τ κ) : ShutdownAction τ → ℕ
  | .main => s.mainCalls logs s.main
  | .poll malloc _ => match s.main with
    | .poll i => pollCalls (s.arrays.getD i []) malloc t.main
    | _ => 0
  | .check _ => match t.main with
    | .joinWait _ _ => 0
    | _ => 1
  | _ => 0

variable {logs} {s t : Shutdown τ κ} {a : ShutdownAction τ} {c : ℕ}

theorem callbackCalls_le (hc : ∀ k, logs k ≤ c) (callback : Option κ) :
    callbackCalls logs callback ≤ c := by
  cases callback with
  | none => exact Nat.zero_le c
  | some k => exact hc k

theorem mainCalls_le (hc : ∀ k, logs k ≤ c) (pc : MainPc) : s.mainCalls logs pc ≤ c+1 := by
  cases pc with
  | stop i j =>
    simp only [mainCalls]
    split
    · exact Nat.succ_le_succ (callbackCalls_le hc _)
    all_goals omega
  | destroy i j =>
    simp only [mainCalls]
    split
    · exact Nat.succ_le_succ (callbackCalls_le hc _)
    all_goals omega
  | cancel i j | join i j =>
    simp only [mainCalls]
    split <;> omega
  | joinWait | arrayDestroy | poll | logStop | logPoll | logCancel | logJoin | logCleanup |
    exited =>
    simp only [mainCalls]
    omega

theorem pollCalls_le (slots : List (Option τ)) (malloc : Bool) (pc : MainPc) :
    pollCalls slots malloc pc ≤ 2 := by
  unfold pollCalls
  split <;> split <;> omega

theorem logCalls_le (hc : ∀ k, logs k ≤ c) : logCalls logs s t a ≤ c+2 := by
  cases a with
  | main => exact Nat.le_succ_of_le (mainCalls_le hc _)
  | poll malloc outcome =>
    simp only [logCalls]
    split
    · exact Nat.le_trans (pollCalls_le _ _ _) (Nat.le_add_left 2 c)
    · exact Nat.zero_le _
  | check outcome =>
    simp only [logCalls]
    split <;> omega
  | use | leave | step | die | logUse | logDone | logReturn | logDie | sigint => exact Nat.zero_le _

theorem logCalls_other (ha : a.ofMain = false) : logCalls logs s t a = 0 := by
  cases a with
  | main | poll malloc outcome | check outcome => cases ha
  | use | leave | step | die | logUse | logDone | logReturn | logDie | sigint => rfl

theorem forward_of_main [DecidableEq τ] (ha : a.ofMain = true) : s.forward a = true := by
  cases a with
  | main | poll malloc outcome | check outcome => rfl
  | use | leave | step | die | logUse | logDone | logReturn | logDie | sigint => cases ha

end Shutdown

namespace LoggedShutdown
variable {τ κ : Type*} [DecidableEq τ]

/-- A thread that may come to a `LOG` call, or the log thread to its next `fifo_queue_receive`. -/
def Wants (s : LoggedShutdown τ κ) : LogUser τ → Prop
  | .main => 0<s.calls
  | .task t => (s.shutdown.task t).pc = .body ∨ (s.shutdown.task t).pc = .markLog
  | .log => s.shutdown.log.pc = .running

/-- The steps of a thread outside of the lock. `main` makes its `LOG` calls before its next
statement. Before it writes its `done_fd` the log thread has found the queue empty. -/
def Allows (s : LoggedShutdown τ κ) : ShutdownAction τ → Prop
  | .main | .poll _ _ | .check _ => s.calls = 0
  | .use t .buffer | .leave t => s.owner ≠ some (.task t)
  | .step t => (s.shutdown.task t).pc ≠ .markLog
  | .logDone => s.owner = none
  | .use _ .logQueue | .logUse => False
  | .die _ | .logReturn | .logDie | .sigint => True

instance (s : LoggedShutdown τ κ) : (u : LogUser τ) → Decidable (s.Wants u)
  | .main => inferInstanceAs (Decidable (_<_))
  | .task _ => inferInstanceAs (Decidable (_ ∨ _))
  | .log => inferInstanceAs (Decidable (_ = _))

instance (s : LoggedShutdown τ κ) : (a : ShutdownAction τ) → Decidable (s.Allows a)
  | .main | .poll _ _ | .check _ => inferInstanceAs (Decidable (_ = _))
  | .use _ .buffer | .leave _ | .step _ => inferInstanceAs (Decidable (¬_))
  | .logDone => inferInstanceAs (Decidable (_ = _))
  | .use _ .logQueue | .logUse => isFalse id
  | .die _ | .logReturn | .logDie | .sigint => isTrue trivial

/-- What a task does with the log queue while it has the lock. -/
def queueUse (s : LoggedShutdown τ κ) (t : τ) : ShutdownAction τ :=
  if (s.shutdown.task t).pc = .markLog then .step t else .use t .logQueue

/-- The end of a `LOG` call or of a `fifo_queue_receive`. -/
def stepUnlock (call : κ → TaskState → TaskState) (s : LoggedShutdown τ κ) :
    LogUser τ → Option (LoggedShutdown τ κ)
  | .main => some {s with owner := none, calls := s.calls-1}
  | .task t => (s.shutdown.next call (s.queueUse t)).map fun v =>
      {s with shutdown := v, owner := none}
  | .log => (s.shutdown.next call .logUse).map fun v => {s with shutdown := v, owner := none}

def next (call : κ → TaskState → TaskState) (logs : κ → ℕ) (s : LoggedShutdown τ κ) :
    LoggedShutdownAction τ → Option (LoggedShutdown τ κ)
  | .shutdown a => if s.Allows a then (s.shutdown.next call a).map fun v =>
      {s with shutdown := v, calls := s.calls+Shutdown.logCalls logs s.shutdown v a} else none
  | .lock u => if s.owner = none ∧ s.Wants u then some {s with owner := some u} else none
  | .unlock u => if s.owner = some u then s.stepUnlock call u else none

/-- `main` begins with its message about the signal. Another thread may have the lock. -/
def machine (call : κ → TaskState → TaskState) (logs : κ → ℕ) (arrays : List (List (Option τ))) :
    Machine (LoggedShutdown τ κ) (LoggedShutdownAction τ) where
  init s := (Shutdown.machine call arrays).init s.shutdown ∧ s.calls = 1 ∧
    ∀ u, s.owner = some u → u ≠ .main ∧ s.Wants u
  next := next call logs

/-- No thread is cancelled at an event statement, where it has the lock. -/
def NoCancelAtEvent (s : LoggedShutdown τ κ) : LoggedShutdownAction τ → Prop
  | .shutdown (.die t) => s.owner ≠ some (.task t)
  | .shutdown .logDie => s.owner ≠ some .log
  | _ => True

instance (s : LoggedShutdown τ κ) : (a : LoggedShutdownAction τ) → Decidable (NoCancelAtEvent s a)
  | .shutdown (.die _) | .shutdown .logDie => inferInstanceAs (Decidable (¬_))
  | .shutdown .main | .shutdown (.poll _ _) | .shutdown (.check _) | .shutdown (.use _ _) |
    .shutdown (.leave _) | .shutdown (.step _) | .shutdown .logUse | .shutdown .logDone |
    .shutdown .logReturn | .shutdown .sigint | .lock _ | .unlock _ => isTrue trivial

/-- The steps which `main` takes, or for which it waits at a join. -/
def forward (s : LoggedShutdown τ κ) : LoggedShutdownAction τ → Bool
  | .shutdown a => s.shutdown.forward a
  | .lock .main | .unlock .main => true
  | .lock (.task t) | .unlock (.task t) => decide (s.shutdown.awaited = some t)
  | .lock .log | .unlock .log => false

/-- The owner of the lock is alive. -/
structure Held (L : List ℕ) (s : LoggedShutdown τ κ) : Prop where
  onTrack : s.shutdown.OnTrack L
  wants : ∀ u, s.owner = some u → s.Wants u

/-- The lock is not with `main`, nor with a thread that `main` joins. -/
def free (s : LoggedShutdown τ κ) : ℕ :=
  match s.owner with
  | some .main => 0
  | some (.task t) => if s.shutdown.awaited = some t then 0 else 1
  | some .log | none => 1

/-- All that is left: of the shutdown, and of `main`'s `LOG` calls. -/
def remaining (L : List ℕ) (c : ℕ) (s : LoggedShutdown τ κ) : ℕ :=
  (2*c+6)*s.shutdown.remaining L+2*s.calls+s.free

variable {call : κ → TaskState → TaskState} {logs : κ → ℕ} {s t : LoggedShutdown τ κ}
  {a : LoggedShutdownAction τ} {L : List ℕ} {c : ℕ}

/-- Without its `LOG` calls and the lock, a run is a run of the shutdown. -/
theorem shutdown_run {arrays : List (List (Option τ))}
    {tr : List (LoggedShutdown τ κ × LoggedShutdownAction τ)}
    (run : Exec (machine call logs arrays) tr s) :
    ∃ tr', Exec (Shutdown.machine call arrays) tr' s.shutdown := by
  have hproject : ∃ tr', Exec (Shutdown.machine call arrays) tr' s.shutdown ∧
      Meets (fun _ _ => True) tr' := by
    refine run.project (C := fun _ _ => True) shutdown (fun _ h => h.1) (fun u a v _ hn => ?_)
      fun _ _ => trivial
    cases a with
    | shutdown a =>
      simp only [machine,LoggedShutdown.next] at hn
      split_ifs at hn
      obtain ⟨w,hw,rfl⟩ := Option.map_eq_some_iff.mp hn
      exact .inr ⟨a,trivial,hw⟩
    | lock x =>
      simp only [machine,LoggedShutdown.next] at hn
      split_ifs at hn
      cases hn
      exact .inl rfl
    | unlock x =>
      simp only [machine,LoggedShutdown.next] at hn
      split_ifs at hn
      cases x with
      | main =>
        cases hn
        exact .inl rfl
      | task x =>
        obtain ⟨w,hw,rfl⟩ := Option.map_eq_some_iff.mp hn
        exact .inr ⟨u.queueUse x,trivial,hw⟩
      | log =>
        obtain ⟨w,hw,rfl⟩ := Option.map_eq_some_iff.mp hn
        exact .inr ⟨.logUse,trivial,hw⟩
  obtain ⟨tr',run',-⟩ := hproject
  exact ⟨tr',run'⟩

section Owner

omit [DecidableEq τ] in
/-- `main` goes on when it has made its `LOG` calls. -/
theorem Allows.calls {a : ShutdownAction τ} (hal : s.Allows a) (ha : a.ofMain = true) :
    s.calls = 0 := by
  cases a with
  | main | poll malloc outcome | check outcome => exact hal
  | use | leave | step | die | logUse | logDone | logReturn | logDie | sigint => cases ha

/-- The steps of `main` leave the other threads where they are. -/
theorem stepMain_pc {u v : Shutdown τ κ} {pc : MainPc} (hn : u.stepMain call pc = some v) :
    (∀ x, (v.task x).pc = (u.task x).pc) ∧ v.log.pc = u.log.pc := by
  have same (th : Task κ) (x : τ) (hth : th.pc = (u.task x).pc) (y : τ) :
      ((u.setTask x th).task y).pc = (u.task y).pc :=
    Shutdown.setTask_forall (P := fun y th => th.pc = (u.task y).pc) (fun _ => rfl) hth y
  cases pc with
  | stop i j =>
    simp only [Shutdown.stepMain] at hn
    split at hn <;> cases hn
    · exact ⟨fun _ => rfl,rfl⟩
    · exact ⟨fun _ => rfl,rfl⟩
    · exact ⟨fun _ => rfl,rfl⟩
    · exact ⟨same _ _ rfl,rfl⟩
  | cancel i j =>
    simp only [Shutdown.stepMain] at hn
    split at hn <;> cases hn
    · exact ⟨fun _ => rfl,rfl⟩
    · exact ⟨fun _ => rfl,rfl⟩
    · exact ⟨same _ _ rfl,rfl⟩
  | destroy i j =>
    simp only [Shutdown.stepMain] at hn
    split at hn <;> cases hn
    · exact ⟨fun _ => rfl,rfl⟩
    · exact ⟨fun _ => rfl,rfl⟩
    · exact ⟨Shutdown.release_pc,rfl⟩
  | poll i =>
    simp only [Shutdown.stepMain] at hn
    split at hn
    · cases hn
      exact ⟨fun _ => rfl,rfl⟩
    · split_ifs at hn
      cases hn
      exact ⟨fun _ => rfl,rfl⟩
  | join i j =>
    simp only [Shutdown.stepMain] at hn
    split at hn <;> cases hn <;> exact ⟨fun _ => rfl,rfl⟩
  | joinWait i j =>
    simp only [Shutdown.stepMain] at hn
    split at hn
    · split_ifs at hn
      cases hn
      exact ⟨fun _ => rfl,rfl⟩
    · cases hn
  | logJoin =>
    simp only [Shutdown.stepMain] at hn
    split_ifs at hn
    cases hn
    exact ⟨fun _ => rfl,rfl⟩
  | logPoll | exited => cases hn
  | arrayDestroy | logStop | logCancel | logCleanup =>
    cases hn
    exact ⟨fun _ => rfl,rfl⟩

theorem main_pc {u v : Shutdown τ κ} {a : ShutdownAction τ} (ha : a.ofMain = true)
    (hn : u.next call a = some v) :
    (∀ x, (v.task x).pc = (u.task x).pc) ∧ v.log.pc = u.log.pc := by
  cases a with
  | main => exact stepMain_pc hn
  | poll malloc outcome =>
    obtain ⟨i,slots,hm,hi⟩ | ⟨-,pc,-,rfl⟩ := stepPoll_main hn
    · obtain ⟨-,-,force,rfl⟩ | ⟨-,rfl⟩ := (stepPoll_cases hm hi hn).2
      · exact ⟨fun _ => rfl,rfl⟩
      · exact ⟨fun _ => rfl,rfl⟩
    · exact ⟨fun _ => rfl,rfl⟩
  | check outcome =>
    obtain ⟨i,j,x,-,-,⟨-,rfl⟩ | ⟨-,rfl⟩⟩ := Shutdown.stepCheck_cases hn
    · exact ⟨fun _ => rfl,rfl⟩
    · exact ⟨fun _ => rfl,rfl⟩
  | use | leave | step | die | logUse | logDone | logReturn | logDie | sigint => cases ha

/-- A thread without the lock goes on: its owner stays in its call. -/
theorem wants_setTask {x : τ} {th : Task κ} {fault : Bool} {n : ℕ}
    (h : ∀ u, s.owner = some u → s.Wants u) (hx : s.owner ≠ some (.task x)) (hn : n = s.calls)
    (u : LogUser τ) (hu : s.owner = some u) :
    Wants {s with shutdown := {s.shutdown.setTask x th with fault := fault}, calls := n} u := by
  subst hn
  cases u with
  | main => exact h .main hu
  | log => exact h .log hu
  | task y =>
    have hy : y ≠ x := by
      rintro rfl
      exact hx hu
    change ((s.shutdown.setTask x th).task y).pc = .body ∨
      ((s.shutdown.setTask x th).task y).pc = .markLog
    rw [Shutdown.setTask_other hy]
    exact h (.task y) hu

/-- What the other threads do outside of the lock. -/
theorem wants_thread {v : Shutdown τ κ} {a : ShutdownAction τ} {n : ℕ} (ha : a.ofMain = false)
    (h : ∀ u, s.owner = some u → s.Wants u) (hal : s.Allows a)
    (hc : NoCancelAtEvent s (.shutdown a)) (hn : s.shutdown.next call a = some v)
    (hcalls : n = s.calls) (u : LogUser τ) (hu : s.owner = some u) :
    Wants {s with shutdown := v, calls := n} u := by
  cases a with
  | main | poll malloc outcome | check outcome => cases ha
  | logUse => exact hal.elim
  | use x r =>
    cases r with
    | logQueue => exact hal.elim
    | buffer =>
      simp only [Shutdown.next] at hn
      split_ifs at hn
      cases hn
      subst hcalls
      cases u <;> exact h _ hu
  | leave x =>
    simp only [Shutdown.next] at hn
    split_ifs at hn
    cases hn
    exact wants_setTask h hal hcalls u hu
  | step x =>
    have hx : s.owner ≠ some (.task x) := by
      intro hx
      obtain hpc | hpc := h _ hx
      · simp only [Shutdown.next,hpc] at hn
        cases hn
      · exact hal hpc
    cases hpc : (s.shutdown.task x).pc with
    | body | terminated =>
      simp only [Shutdown.next,hpc] at hn
      cases hn
    | markLog => exact absurd hpc hal
    | markState =>
      simp only [Shutdown.next,hpc] at hn
      cases hn
      exact wants_setTask h hx hcalls u hu
    | markDone =>
      simp only [Shutdown.next,hpc,Shutdown.stepTask] at hn
      split_ifs at hn
      cases hn
      exact wants_setTask h hx hcalls u hu
  | die x =>
    simp only [Shutdown.next] at hn
    split_ifs at hn
    cases hn
    exact wants_setTask h hc hcalls u hu
  | logDone =>
    rw [show s.owner = none from hal] at hu
    cases hu
  | logReturn =>
    simp only [Shutdown.next] at hn
    split_ifs at hn with hpc
    cases hn
    subst hcalls
    cases u with
    | log =>
      have hrunning : s.shutdown.log.pc = .running := h .log hu
      rw [hpc] at hrunning
      cases hrunning
    | main | task => exact h _ hu
  | logDie =>
    simp only [Shutdown.next] at hn
    split_ifs at hn
    cases hn
    subst hcalls
    cases u with
    | log => exact absurd hu hc
    | main | task => exact h _ hu
  | sigint =>
    cases hn
    subst hcalls
    cases u <;> exact h _ hu

end Owner

section Returns

theorem free_le (s : LoggedShutdown τ κ) : s.free ≤ 1 := by
  unfold free
  split
  · exact Nat.zero_le 1
  · split_ifs <;> omega
  · exact Nat.le_refl 1
  · exact Nat.le_refl 1

theorem free_none (h : s.owner = none) : s.free = 1 := by
  simp only [free,h]

/-- Steps of the shutdown: those of `main` pay for the `LOG` calls behind them. -/
theorem Held.shutdown {a : ShutdownAction τ} (hlogs : ∀ k, logs k ≤ c) (h : Held L s)
    (hc : NoCancelAtEvent s (.shutdown a)) (hn : s.next call logs (.shutdown a) = some t) :
    Held L t ∧ t.remaining L c+(s.forward (.shutdown a)).toNat ≤ s.remaining L c := by
  simp only [LoggedShutdown.next] at hn
  split_ifs at hn with hal
  obtain ⟨v,hv,rfl⟩ := Option.map_eq_some_iff.mp hn
  obtain ⟨hon,hle⟩ := h.onTrack.next hv
  have hmul := Nat.mul_le_mul_left (2*c+6) hle
  rw [Nat.mul_add] at hmul
  cases ha : a.ofMain with
  | true =>
    have hcalls := hal.calls ha
    have hforward : s.shutdown.forward a = true := Shutdown.forward_of_main ha
    obtain ⟨hpc,hlog⟩ := main_pc ha hv
    refine ⟨⟨hon,fun u hu => ?_⟩,?_⟩
    · cases u with
      | main =>
        have hpos : 0<s.calls := h.wants .main hu
        omega
      | task x =>
        change (v.task x).pc = .body ∨ (v.task x).pc = .markLog
        rw [hpc x]
        exact h.wants (.task x) hu
      | log => exact hlog.trans (h.wants .log hu)
    · have hnew := Shutdown.logCalls_le (s := s.shutdown) (t := v) (a := a) hlogs
      have hfree := free_le {s with
        shutdown := v, calls := s.calls+Shutdown.logCalls logs s.shutdown v a}
      simp only [remaining,forward,hforward,Bool.toNat_true] at hmul ⊢
      omega
  | false =>
    have hzero : Shutdown.logCalls logs s.shutdown v a = 0 := Shutdown.logCalls_other ha
    rw [hzero]
    refine ⟨⟨hon,wants_thread (s := s) ha h.wants hal hc hv rfl⟩,?_⟩
    have hfree : free {s with shutdown := v, calls := s.calls+0} = s.free := by
      simp only [free,(Shutdown.next_thread ha hv).awaited]
    have hone : (s.shutdown.forward a).toNat ≤ (2*c+6)*(s.shutdown.forward a).toNat :=
      Nat.le_mul_of_pos_left _ (by omega)
    simp only [remaining,forward,hfree]
    omega

theorem Held.lock {u : LogUser τ} (h : Held L s) (hn : s.next call logs (.lock u) = some t) :
    Held L t ∧ t.remaining L c+(s.forward (.lock u)).toNat ≤ s.remaining L c := by
  simp only [LoggedShutdown.next] at hn
  split_ifs at hn with hu
  cases hn
  refine ⟨⟨h.onTrack,fun w hw => ?_⟩,?_⟩
  · cases hw
    cases u <;> exact hu.2
  · have hfree := free_none hu.1
    rw [remaining,remaining,hfree]
    cases u with
    | main | log => simp [forward,free]
    | task x =>
      by_cases hx : s.shutdown.awaited = some x
      · simp [forward,free,hx]
      · simp [forward,free,hx]

omit [DecidableEq τ] in
/-- No step sets the shutdown back. -/
theorem weigh_le {u v : Shutdown τ κ} {b : Bool} (h : v.remaining L+b.toNat ≤ u.remaining L) :
    (2*c+6)*v.remaining L ≤ (2*c+6)*u.remaining L :=
  Nat.mul_le_mul_left _ (Nat.le_trans (Nat.le_add_right _ _) h)

/-- The use of the log queue under the lock brings the shutdown on if `main` waits for it. -/
theorem Held.unlock {u : LogUser τ} (h : Held L s) (hn : s.next call logs (.unlock u) = some t) :
    Held L t ∧ t.remaining L c+(s.forward (.unlock u)).toNat ≤ s.remaining L c := by
  simp only [LoggedShutdown.next] at hn
  split_ifs at hn with hu
  cases u with
  | main =>
    cases hn
    have hpos : 0<s.calls := h.wants .main hu
    refine ⟨⟨h.onTrack,fun w hw => by cases hw⟩,?_⟩
    simp only [remaining,forward,free,hu,Bool.toNat_true]
    omega
  | task x =>
    obtain ⟨v,hv,rfl⟩ := Option.map_eq_some_iff.mp hn
    obtain ⟨hon,hle⟩ := h.onTrack.next hv
    have hmul := Nat.mul_le_mul_left (2*c+6) hle
    refine ⟨⟨hon,fun w hw => by cases hw⟩,?_⟩
    by_cases hx : s.shutdown.awaited = some x
    · have hpc : (s.shutdown.task x).pc = .markLog := by
        refine (h.onTrack.awaited_marked hx).resolve_right fun ht => ?_
        have hwants : _ ∨ _ := h.wants _ hu
        rw [ht] at hwants
        obtain hwants | hwants := hwants <;> cases hwants
      have hforward : s.shutdown.forward (s.queueUse x) = true := by
        rw [queueUse,if_pos hpc]
        exact decide_eq_true hx
      rw [hforward,Bool.toNat_true,Nat.mul_add] at hmul
      simp only [remaining,forward,free,hu,hx,decide_true,Bool.toNat_true,if_true]
      omega
    · have hmore := weigh_le (c := c) hle
      simp only [remaining,forward,free,hu,hx,decide_false,Bool.toNat_false,if_false]
      omega
  | log =>
    obtain ⟨v,hv,rfl⟩ := Option.map_eq_some_iff.mp hn
    obtain ⟨hon,hle⟩ := h.onTrack.next hv
    have hmore := weigh_le (c := c) hle
    refine ⟨⟨hon,fun w hw => by cases hw⟩,?_⟩
    simp only [remaining,forward,free,hu,Bool.toNat_false]
    omega

/-- One step without a cancellation at an event statement. -/
theorem Held.next (hlogs : ∀ k, logs k ≤ c) (h : Held L s) (hc : NoCancelAtEvent s a)
    (hn : s.next call logs a = some t) :
    Held L t ∧ t.remaining L c+(s.forward a).toNat ≤ s.remaining L c := by
  cases a with
  | shutdown a => exact h.shutdown hlogs hc hn
  | lock u => exact h.lock hn
  | unlock u => exact h.unlock hn

/-- No error of `poll`, and no failing `malloc`. -/
def Works : LoggedShutdownAction τ → Bool
  | .shutdown a => Shutdown.Works a
  | .lock _ | .unlock _ => true

/-- Somebody can always go on: the owner of the lock, or else `main` or a thread that it joins. -/
theorem Held.enabled (h : Held L s) : s.shutdown.main = .exited ∨
    ∃ a, (s.forward a = true ∨ ∃ u, a = .unlock u) ∧ Works a = true ∧
      (s.next call logs a).isSome = true := by
  cases ho : s.owner with
  | some u =>
    refine .inr ⟨.unlock u,.inr ⟨u,rfl⟩,rfl,?_⟩
    have hwants := h.wants u ho
    rw [LoggedShutdown.next,if_pos ho]
    cases u with
    | main => rfl
    | task x =>
      rw [stepUnlock,Option.isSome_map,queueUse]
      obtain hpc | hpc := (show _ ∨ _ from hwants)
      · simp [Shutdown.next,hpc]
      · simp [Shutdown.next,hpc,Shutdown.stepTask]
    | log =>
      rw [stepUnlock,Option.isSome_map]
      simp [Shutdown.next,show s.shutdown.log.pc = .running from hwants]
  | none =>
    obtain hcalls | hcalls := Nat.eq_zero_or_pos s.calls
    · have hshutdown : s.shutdown.main = .exited ∨ ∃ a, s.shutdown.forward a = true ∧
          Shutdown.Works a = true ∧ (s.shutdown.next call a).isSome = true := h.onTrack.enabled
      obtain hexited | ⟨a,hf,hw,hn⟩ := hshutdown
      · exact .inl hexited
      right
      have ready (hal : s.Allows a) : ∃ a, (s.forward a = true ∨ ∃ u, a = .unlock u) ∧
          Works a = true ∧ (s.next call logs a).isSome = true :=
        ⟨.shutdown a,.inl hf,hw,by rwa [LoggedShutdown.next,if_pos hal,Option.isSome_map]⟩
      cases a with
      | main | poll malloc outcome | check outcome => exact ready hcalls
      | die | logReturn | logDie => exact ready trivial
      | logDone => exact ready ho
      | step x =>
        by_cases hpc : (s.shutdown.task x).pc = .markLog
        · exact ⟨.lock (.task x),.inl hf,rfl,by
            rw [LoggedShutdown.next,if_pos ⟨ho,.inr hpc⟩]
            rfl⟩
        · exact ready hpc
      | use | leave | logUse | sigint => cases hf
    · exact .inr ⟨.lock .main,.inl rfl,rfl,by
        rw [LoggedShutdown.next,if_pos ⟨ho,hcalls⟩]
        rfl⟩

end Returns

section Stranded

/-- `x` has died in its `LOG` call, and `main` is at one of its own. -/
structure Stranded (x : τ) (s : LoggedShutdown τ κ) : Prop where
  owner : s.owner = some (.task x)
  dead : (s.shutdown.task x).pc = .terminated
  calls : 0<s.calls

/-- `main` never gets the lock. -/
theorem Stranded.next {x : τ} (h : Stranded x s) (hn : s.next call logs a = some t) :
    Stranded x t ∧ t.shutdown.main = s.shutdown.main := by
  have hcalls := h.calls
  cases a with
  | lock u =>
    have hu : ¬(s.owner = none ∧ s.Wants u) := by
      rintro ⟨hnone,-⟩
      rw [h.owner] at hnone
      cases hnone
    rw [LoggedShutdown.next,if_neg hu] at hn
    cases hn
  | unlock u =>
    simp only [LoggedShutdown.next,h.owner] at hn
    split_ifs at hn with hu
    cases hu
    simp [stepUnlock,queueUse,Shutdown.next,h.dead] at hn
  | shutdown a =>
    simp only [LoggedShutdown.next] at hn
    split_ifs at hn with hal
    obtain ⟨v,hv,rfl⟩ := Option.map_eq_some_iff.mp hn
    cases ha : a.ofMain with
    | true => exact absurd (hal.calls ha) (Nat.ne_of_gt hcalls)
    | false =>
      have hs := Shutdown.next_thread ha hv
      exact ⟨⟨h.owner,hs.terminated x h.dead,Nat.lt_of_lt_of_le hcalls (Nat.le_add_right _ _)⟩,
        hs.main⟩

/-- So a shutdown in which a task is cancelled at an event statement need not end. -/
theorem Stranded.run {x : τ} {arrays : List (List (Option τ))} {as : List (LoggedShutdownAction τ)}
    (h : Stranded x s) (hrun : (machine call logs arrays).run s as = some t) :
    t.shutdown.main = s.shutdown.main := by
  induction as generalizing s with
  | nil =>
    cases hrun
    rfl
  | cons a as ih =>
    obtain ⟨u,hu,hrun⟩ := Option.bind_eq_some_iff.mp hrun
    obtain ⟨hstranded,hmain⟩ := h.next hu
    exact (ih hstranded hrun).trans hmain

end Stranded

end LoggedShutdown
end TTK4145.Rtsystem
