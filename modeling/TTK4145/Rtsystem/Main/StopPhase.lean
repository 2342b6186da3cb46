import TTK4145.Rtsystem.Main.Shutdown

/-! The loop of `main` that waits for the task arrays or cancels them. `task_array_poll_all` returns
as soon as one task is done, and also when `poll` fails, and `main` then goes on. -/
namespace TTK4145.Rtsystem
open Lib

/-- How many of `n` arrays the loop has moved on from. -/
def MainPc.passed (n : ℕ) : MainPc → ℕ
  | .stop _ _ => 0
  | .poll i | .cancel i _ => i
  | _ => n

/-- The array whose tasks `main` polls. -/
def MainPc.polling : MainPc → Option ℕ
  | .poll i => some i
  | _ => none

/-- The statements before the first handle is destroyed. -/
def MainPc.early : MainPc → Bool
  | .stop _ _ | .poll _ | .cancel _ _ => true
  | _ => false

theorem MainPc.polling_eq {pc : MainPc} {i : ℕ} : pc.polling = some i ↔ pc = .poll i := by
  cases pc <;> simp [polling]

section Poll
variable {τ κ : Type*} {s s' : Shutdown τ κ} {slots : List (Option τ)} {i : ℕ} {malloc : Bool}
  {outcome : PollOutcome}

/-- The outcomes on which `task_array_poll_all` reports a timeout or a signal. -/
def GaveUp (s : Shutdown τ κ) (malloc : Bool) (outcome : PollOutcome) : Prop :=
  malloc = false ∨ outcome = .timeout ∨ outcome = .ready ∧ s.sigint = true

instance : Decidable (GaveUp s malloc outcome) :=
  inferInstanceAs (Decidable (malloc = false ∨ outcome = .timeout ∨
    outcome = .ready ∧ s.sigint = true))

/-- The result of `task_array_poll_all` is negative exactly when the array has tasks and the
outcome is one of those. -/
theorem taskArrayPollAll_cases {r : ℤ × List Bool}
    (hr : pollReply (s.pollFds slots) outcome = some r) :
    (occupied slots ≠ [] ∧ GaveUp s malloc outcome ∧
      (taskArrayPollAll slots true malloc r.1 r.2 = -1 ∨
        taskArrayPollAll slots true malloc r.1 r.2 = -2)) ∨
    ((occupied slots = [] ∨ ¬ GaveUp s malloc outcome) ∧
      0 ≤ taskArrayPollAll slots true malloc r.1 r.2) := by
  by_cases hne : occupied slots = []
  · exact .inr ⟨.inl hne,by simp [taskArrayPollAll,hne]⟩
  have hcount : (occupied slots).length ≠ 0 := fun h => hne (List.length_eq_zero_iff.mp h)
  cases malloc with
  | false => exact .inl ⟨hne,.inl rfl,.inl (by simp [taskArrayPollAll,hcount])⟩
  | true =>
    cases outcome with
    | error =>
      cases hr
      refine .inr ⟨.inr (by simp [GaveUp]),?_⟩
      simp [taskArrayPollAll,hcount]
    | timeout =>
      simp only [pollReply] at hr
      split_ifs at hr
      cases hr
      exact .inl ⟨hne,.inr (.inl rfl),.inl (by simp [taskArrayPollAll,hcount])⟩
    | ready =>
      obtain ⟨ret,revents⟩ := r
      obtain ⟨-,hpos,rfl⟩ := pollReply_ready hr
      have hlast : (s.pollFds slots)[(occupied slots).length]? = some s.sigint := by
        simp [Shutdown.pollFds]
      cases hsig : s.sigint with
      | true =>
        refine .inl ⟨hne,.inr (.inr ⟨rfl,hsig⟩),.inr ?_⟩
        simp [taskArrayPollAll,hcount,hlast,hsig,hpos]
      | false =>
        refine .inr ⟨.inr (by simp [GaveUp,hsig]),?_⟩
        have hz : ret ≠ 0 := by omega
        simp [taskArrayPollAll,hcount,hlast,hsig,hpos,hz]

/-- `main` polls in two places: for an array, and for the log task. -/
theorem stepPoll_main (hs : s.stepPoll malloc outcome = some s') :
    (∃ i slots, s.main = .poll i ∧ s.arrays[i]? = some slots) ∨
    s.main = .logPoll ∧ ∃ pc, (pc = .exited ∨ pc = .logCancel ∨ pc = .logJoin) ∧
      s' = {s with main := pc} := by
  cases hm : s.main with
  | poll i =>
    simp only [Shutdown.stepPoll,hm] at hs
    split at hs
    · cases hs
    · rename_i slots hi
      exact .inl ⟨i,slots,rfl,hi⟩
  | logPoll =>
    simp only [Shutdown.stepPoll,hm] at hs
    obtain ⟨r,-,rfl⟩ := Option.map_eq_some_iff.mp hs
    refine .inr ⟨rfl,?_⟩
    unfold Shutdown.afterLogPoll
    split_ifs <;> exact ⟨_,by simp,rfl⟩
  | stop | cancel | join | joinWait | destroy | arrayDestroy | logStop | logCancel | logJoin |
    logCleanup | exited =>
    simp only [Shutdown.stepPoll,hm] at hs
    cases hs

/-- The two ways on from the poll of an array: to cancel its tasks, or to the next array. -/
theorem stepPoll_cases (hm : s.main = .poll i) (ha : s.arrays[i]? = some slots)
    (hs : s.stepPoll malloc outcome = some s') :
    s.force = false ∧
    (occupied slots ≠ [] ∧ GaveUp s malloc outcome ∧
      (∃ force, s' = {s with force := force, main := .cancel i 0}) ∨
    (occupied slots = [] ∨ ¬ GaveUp s malloc outcome) ∧ s' = {s with main := .poll (i+1)}) := by
  simp only [Shutdown.stepPoll,hm,ha] at hs
  split_ifs at hs with hf
  obtain ⟨r,hr,rfl⟩ := Option.map_eq_some_iff.mp hs
  refine ⟨by simpa using hf,?_⟩
  unfold Shutdown.afterPoll
  rcases taskArrayPollAll_cases hr with ⟨hne,hg,h | h⟩ | ⟨hg,hpos⟩
  · exact .inl ⟨hne,hg,s.force,by rw [h]; rfl⟩
  · exact .inl ⟨hne,hg,true,by rw [h]; rfl⟩
  · refine .inr ⟨hg,?_⟩
    rw [if_neg (by omega),if_neg (by omega)]

end Poll

section Settled
variable {τ κ : Type*} {arrays : List (List (Option τ))} {s s' : Shutdown τ κ}

/-- The task has marked itself done or has been cancelled. -/
def Settled (s : Shutdown τ κ) (t : τ) : Prop :=
  s.readable t = true ∨ (s.task t).cancelled = true

/-- All tasks of the arrays which the loop has moved on from are settled. -/
def AllSettled (arrays : List (List (Option τ))) (s : Shutdown τ κ) : Prop :=
  ∀ (i : ℕ) slots, arrays[i]? = some slots → i<s.main.passed arrays.length →
    ∀ t, some t ∈ slots → Settled s t

/-- A poll that ends neither with a timeout nor with a signal nor for lack of memory ends with all
tasks of the array settled. -/
def PollsAll (s : Shutdown τ κ) : ShutdownAction τ → Prop
  | .poll malloc outcome => ∀ i ∈ s.main.polling, ¬ GaveUp s malloc outcome →
    ∀ slots ∈ s.arrays[i]?, ∀ t, some t ∈ slots → Settled s t
  | _ => True

instance (s : Shutdown τ κ) (t : τ) : Decidable (Settled s t) :=
  inferInstanceAs (Decidable (s.readable t = true ∨ (s.task t).cancelled = true))

instance {n : ℕ} (s : Shutdown (Fin n) κ) : (a : ShutdownAction (Fin n)) → Decidable (PollsAll s a)
  | .poll malloc outcome => inferInstanceAs (Decidable (∀ i ∈ s.main.polling,
      ¬ GaveUp s malloc outcome → ∀ slots ∈ s.arrays[i]?, ∀ t, some t ∈ slots → Settled s t))
  | .main | .check _ | .use _ _ | .leave _ | .step _ | .die _ | .logUse | .logDone | .logReturn |
    .logDie | .sigint => isTrue trivial

/-- What holds in the stop phase: before the first destroy the arrays are untouched, and the
cancel loop has cancelled what it has passed. -/
structure StopInv (arrays : List (List (Option τ))) (s : Shutdown τ κ) : Prop where
  settled : AllSettled arrays s
  same : s.main.early = true → s.arrays = arrays
  cancelled : ∀ i j, s.main = .cancel i j → ∀ slots, arrays[i]? = some slots →
    ∀ k t, k<j → slots[k]? = some (some t) → (s.task t).cancelled = true

theorem mem_occupied {slots : List (Option τ)} {t : τ} : t ∈ occupied slots ↔ some t ∈ slots := by
  simp [occupied]

/-- Tasks stay settled when their threads go on. -/
theorem AllSettled.mono (h : AllSettled arrays s)
    (hp : s'.main.passed arrays.length ≤ s.main.passed arrays.length)
    (ht : ∀ t, Settled s t → Settled s' t) : AllSettled arrays s' :=
  fun i slots hi hlt t hm => ht t (h i slots hi (by omega) t hm)

/-- One more array is passed. -/
theorem AllSettled.succ (h : AllSettled arrays s) {i : ℕ} (hm : s.main.passed arrays.length = i)
    (hp : s'.main.passed arrays.length ≤ i+1) (ht : ∀ t, Settled s t → Settled s' t)
    (hi : ∀ slots, arrays[i]? = some slots → ∀ t, some t ∈ slots → Settled s' t) :
    AllSettled arrays s' := by
  intro k slots hk hlt t hmem
  rcases Nat.lt_or_ge k i with hki | hki
  · exact ht t (h k slots hk (by omega) t hmem)
  · have hke : k = i := by omega
    subst k
    exact hi slots hk t hmem

variable [DecidableEq τ]

omit [DecidableEq τ] in
theorem StopInv.thread (h : StopInv arrays s) (hs : Shutdown.ThreadStep s s') :
    StopInv arrays s' where
  settled := h.settled.mono (Nat.le_of_eq (by rw [hs.main])) fun t ht =>
    ht.imp (hs.readable t) fun hc => by
    rw [hs.cancelled]
    exact hc
  same he := by
    rw [hs.main] at he
    rw [hs.arrays]
    exact h.same he
  cancelled i j hm slots hi k t hk hkt := by
    rw [hs.main] at hm
    rw [hs.cancelled]
    exact h.cancelled i j hm slots hi k t hk hkt

variable {call : κ → TaskState → TaskState} {a : ShutdownAction τ}

/-- `main` itself takes nothing back: a stop request leaves `done_fd` alone. -/
theorem stepMain_settled {pc : MainPc} (hs : s.stepMain call pc = some s') (t : τ)
    (ht : Settled s t) : Settled s' t := by
  have keep : ∀ (u : τ) (th : Task κ), (s.readable u = true → th.handle.doneFd.pollIn = true) →
      ((s.task u).cancelled = true → th.cancelled = true) → Settled (s.setTask u th) t :=
    fun u th hr hc => Shutdown.setTask_forall
      (P := fun u th => Settled s u → th.handle.doneFd.pollIn = true ∨ th.cancelled = true)
      (fun _ h => h) (fun h => h.imp hr hc) t ht
  cases pc with
  | stop i j =>
    simp only [Shutdown.stepMain] at hs
    split at hs <;> cases hs
    · exact ht
    · exact ht
    · exact ht
    · exact keep _ _ (fun hr => by rw [taskStop_doneFd]; exact hr) id
  | cancel i j =>
    simp only [Shutdown.stepMain] at hs
    split at hs <;> cases hs
    · exact ht
    · exact ht
    · exact keep _ _ id (fun _ => rfl)
  | destroy i j =>
    simp only [Shutdown.stepMain] at hs
    split at hs <;> cases hs
    · exact ht
    · exact ht
    · exact keep _ _ id id
  | join i j =>
    simp only [Shutdown.stepMain] at hs
    split at hs <;> cases hs <;> exact ht
  | poll i =>
    simp only [Shutdown.stepMain] at hs
    split at hs
    · cases hs
      exact ht
    · split_ifs at hs
      cases hs
      exact ht
  | joinWait i j =>
    simp only [Shutdown.stepMain] at hs
    split at hs
    · split_ifs at hs
      cases hs
      exact ht
    · cases hs
  | logJoin =>
    simp only [Shutdown.stepMain] at hs
    split_ifs at hs
    cases hs
    exact ht
  | arrayDestroy i | logStop | logCancel | logCleanup =>
    cases hs
    exact ht
  | logPoll | exited => cases hs

theorem MainPc.passed_late {n : ℕ} {pc : MainPc} (h : pc.early = false) : pc.passed n = n := by
  cases pc <;> first | rfl | cases h

/-- From the joins on `main` does not come back to the loop. -/
theorem stepMain_late {pc : MainPc} (he : pc.early = false)
    (hs : s.stepMain call pc = some s') : s'.main.early = false := by
  cases pc with
  | stop i j | poll i | cancel i j => cases he
  | join i j | destroy i j =>
    simp only [Shutdown.stepMain] at hs
    split at hs <;> cases hs <;> rfl
  | joinWait i j =>
    simp only [Shutdown.stepMain] at hs
    split at hs
    · split_ifs at hs
      cases hs
      rfl
    · cases hs
  | logJoin =>
    simp only [Shutdown.stepMain] at hs
    split_ifs at hs
    cases hs
    rfl
  | arrayDestroy i | logStop | logCancel | logCleanup =>
    cases hs
    rfl
  | logPoll | exited => cases hs

omit [DecidableEq τ] in
theorem StopInv.late (h : StopInv arrays s) (he : s.main.early = false)
    (he' : s'.main.early = false) (keep : ∀ t, Settled s t → Settled s' t) :
    StopInv arrays s' := by
  refine ⟨h.settled.mono ?_ keep,fun ht => ?_,fun i j hc => ?_⟩
  · exact Nat.le_of_eq ((MainPc.passed_late he').trans (MainPc.passed_late he).symm)
  · rw [he'] at ht
    cases ht
  · rw [hc] at he'
    cases he'

theorem StopInv.main (h : StopInv arrays s) (hs : s.stepMain call s.main = some s') :
    StopInv arrays s' := by
  have keep := stepMain_settled hs
  have hset := h.settled
  have hsame := h.same
  cases hm : s.main with
  | stop i j =>
    rw [hm] at hs hsame
    simp only [Shutdown.stepMain] at hs
    split at hs <;> cases hs <;>
      exact ⟨hset.mono (Nat.zero_le _) keep,fun _ => hsame rfl,fun i j hc => by cases hc⟩
  | poll i =>
    rw [hm] at hs hsame
    simp only [Shutdown.stepMain] at hs
    split at hs
    · rename_i hi
      cases hs
      refine ⟨?_,fun he => (by cases he),fun i j hc => by cases hc⟩
      have hlen : arrays.length ≤ i := by
        rw [←hsame rfl]
        exact List.getElem?_eq_none_iff.mp hi
      exact hset.mono (by rw [hm]; exact hlen) keep
    · split_ifs at hs
      cases hs
      refine ⟨hset.mono (by rw [hm]; exact Nat.le_refl i) keep,fun _ => hsame rfl,?_⟩
      intro i j hc slots _ k t hk
      cases hc
      omega
  | cancel i j =>
    have hcan := h.cancelled i j hm
    rw [hm] at hs hsame
    simp only [Shutdown.stepMain] at hs
    split at hs
    · cases hs
    · rename_i hv
      cases hs
      refine ⟨hset.succ (i := i) (by rw [hm]; rfl) (Nat.le_refl _) keep ?_,fun _ => hsame rfl,
        fun i j hc => by cases hc⟩
      intro slots hi t hmem
      obtain ⟨slots',hi',hlen⟩ := visit_endOfArray hv
      rw [hsame rfl,hi] at hi'
      cases hi'
      obtain ⟨k,hk,hkt⟩ := List.getElem_of_mem hmem
      exact .inr (hcan slots hi k t (by omega) (by rw [List.getElem?_eq_getElem hk,hkt]))
    · rename_i hv
      cases hs
      refine ⟨hset.mono (by rw [hm]; exact Nat.le_refl i) keep,fun _ => hsame rfl,?_⟩
      intro i' j' hc slots hi k t hk hkt
      cases hc
      rcases Nat.lt_or_ge k j with hlt | hge
      · exact hcan slots hi k t hlt hkt
      · obtain rfl : k = j := by omega
        rw [hsame rfl] at hv
        cases hv.symm.trans (visit_of_task hi hkt)
    · rename_i u hv
      cases hs
      refine ⟨hset.mono (by rw [hm]; exact Nat.le_refl i) keep,fun _ => hsame rfl,?_⟩
      intro i' j' hc slots hi k t hk hkt
      cases hc
      have hmono : (s.task t).cancelled = true →
          ((s.setTask u {s.task u with cancelled := true}).task t).cancelled = true :=
        Shutdown.setTask_forall (P := fun v th => (s.task v).cancelled = true → th.cancelled = true)
          (fun _ h => h) (fun _ => rfl) t
      rcases Nat.lt_or_ge k j with hlt | hge
      · exact hmono (hcan slots hi k t hlt hkt)
      · obtain rfl : k = j := by omega
        rw [hsame rfl] at hv
        cases hv.symm.trans (visit_of_task hi hkt)
        exact congrArg Task.cancelled Shutdown.setTask_same
  | join | joinWait | destroy | arrayDestroy | logStop | logPoll | logCancel | logJoin |
    logCleanup | exited =>
    have he : s.main.early = false := by rw [hm]; rfl
    exact h.late he (stepMain_late he hs) keep

omit [DecidableEq τ] in
theorem StopInv.poll (h : StopInv arrays s) {malloc : Bool} {outcome : PollOutcome}
    (all : PollsAll s (.poll malloc outcome)) (hs : s.stepPoll malloc outcome = some s') :
    StopInv arrays s' := by
  rcases stepPoll_main hs with ⟨i,slots,hm,hi⟩ | ⟨hm,pc,hpc,rfl⟩
  · have hsame : s.arrays = arrays := h.same (by rw [hm]; rfl)
    have hp : s.main.passed arrays.length = i := by rw [hm]; rfl
    rcases (stepPoll_cases hm hi hs).2 with ⟨-,-,force,rfl⟩ | ⟨hg,rfl⟩
    · refine ⟨h.settled.mono (Nat.le_of_eq hp.symm) fun _ ht => ht,fun _ => hsame,?_⟩
      intro i' j hc slots _ k t hk
      cases hc
      omega
    · refine ⟨h.settled.succ hp (Nat.le_refl _) (fun _ ht => ht) ?_,fun _ => hsame,
        fun i j hc => by cases hc⟩
      intro slots' hi' t hmem
      rw [hsame,hi'] at hi
      cases hi
      rcases hg with hempty | hg
      · rw [←mem_occupied,hempty] at hmem
        cases hmem
      · exact all i (by rw [hm]; rfl) hg slots (by rw [hsame]; exact hi') t hmem
  · refine h.late (by rw [hm]; rfl) ?_ fun _ ht => ht
    rcases hpc with rfl | rfl | rfl <;> rfl

omit [DecidableEq τ] in
theorem StopInv.check (h : StopInv arrays s) {outcome : PollOutcome}
    (hs : s.stepCheck outcome = some s') : StopInv arrays s' := by
  obtain ⟨i,j,t,hm,-,⟨-,rfl⟩ | ⟨-,rfl⟩⟩ := Shutdown.stepCheck_cases hs <;>
    exact h.late (by rw [hm]; rfl) rfl fun _ ht => ht

theorem StopInv.next (h : StopInv arrays s) (all : PollsAll s a) (hs : s.next call a = some s') :
    StopInv arrays s' := by
  rcases Shutdown.next_cases hs with ⟨-,hs⟩ | ⟨malloc,outcome,rfl,hs⟩ | ⟨outcome,-,hs⟩ | hs
  · exact h.main hs
  · exact h.poll all hs
  · exact h.check hs
  · exact h.thread hs

theorem StopInv.init (hi : (Shutdown.machine call arrays).init s) : StopInv arrays s := by
  obtain ⟨ha,hm,-⟩ := hi
  refine ⟨fun i slots _ hlt => ?_,fun _ => ha,fun i j hc => ?_⟩
  · rw [hm] at hlt
    exact absurd hlt (Nat.not_lt_zero i)
  · rw [hm] at hc
    cases hc

/-- A poll that returns early lets `main` move on from an unsettled task. -/
theorem StopInv.unsettled (h : StopInv arrays s) (hn : ¬ PollsAll s a)
    (hs : s.next call a = some s') : ¬ AllSettled arrays s' := by
  cases a with
  | poll malloc outcome =>
    simp only [PollsAll,not_forall] at hn
    obtain ⟨i,hp,hg,slots,hi,t,hmem,ht⟩ := hn
    have hm := MainPc.polling_eq.mp hp
    rcases (stepPoll_cases hm hi hs).2 with ⟨-,hgave,-⟩ | ⟨-,rfl⟩
    · exact absurd hgave hg
    · intro hall
      rw [h.same (by rw [hm]; rfl)] at hi
      exact ht (hall i slots hi (Nat.lt_succ_self i) t hmem)
  | main | check | use | leave | step | die | logUse | logDone | logReturn | logDie | sigint =>
    exact absurd trivial hn

/-- Every task of every array that the loop has moved on from has marked itself done or has been
cancelled, in all states of a run, exactly when every poll that does not give up waits for all
tasks of its array. -/
theorem settled_iff_pollsAll {tr : List (Shutdown τ κ × ShutdownAction τ)}
    (run : Exec (Shutdown.machine call arrays) tr s) :
    Always (AllSettled arrays) tr s ↔ Meets PollsAll tr := by
  constructor
  · exact run.meets_of_always (fun s => StopInv.init) (fun s a t h hc hs => h.next hc hs)
      (fun s a t h hc hs => h.unsettled hc hs)
  · intro all
    have inv := run.always (fun s => StopInv.init) (fun s a t h hc hs => h.next hc hs) all
    exact inv.mono fun s h => h.settled

end Settled

/-- The task of the first array does not finish and is cancelled after the timeout; the one of the
second array marks itself done. -/
def timeoutRun : List (ShutdownAction (Fin 2)) :=
  List.flatten [List.replicate 6 .main,
    [.poll true .timeout,.main,.main,.main,.leave 1,.step 1,.step 1,.poll true .ready,.main]]

theorem settled_iff_pollsAll_timeout :
    ∃ tr, ∃ s : Shutdown (Fin 2) Empty,
      Exec (Shutdown.machine Empty.elim [[some 0,none],[some 1]]) tr s ∧
      s.main = .join 0 0 ∧ s.readable 0 = false ∧ s.readable 1 = true ∧
      Always (AllSettled [[some 0,none],[some 1]]) tr s := by
  have hv : ((Shutdown.machine Empty.elim [[some 0,none],[some 1]]).run
      (Shutdown.start [[some 0,none],[some 1]]) timeoutRun).map
      (fun s => (s.main,s.readable 0,s.readable 1)) = some (.join 0 0,false,true) := by decide
  obtain ⟨s,hs,hr⟩ := Option.map_eq_some_iff.mp hv
  simp only [Prod.mk.injEq] at hr
  have run := Exec.of_run (Shutdown.start_init _ (by decide)) hs
  exact ⟨_,s,run,hr.1,hr.2.1,hr.2.2,(settled_iff_pollsAll run).2 (by decide)⟩

/-- Two tasks in one array, of which one marks itself done. -/
def oneDoneRun : List (ShutdownAction (Fin 2)) :=
  List.flatten [List.replicate 4 .main,[.leave 0,.step 0,.step 0,.poll true .ready,.main]]

/-- The poll returns 1, and `main` goes on to the joins without the other task. -/
theorem one_done_leaves_other :
    ∃ tr, ∃ s : Shutdown (Fin 2) Empty, Exec (Shutdown.machine Empty.elim [[some 0,some 1]]) tr s ∧
      s.main = .join 0 0 ∧ (s.task 1).pc = .body ∧ ¬ Settled s 1 ∧
      ¬ Always (AllSettled [[some 0,some 1]]) tr s := by
  have hv : ((Shutdown.machine Empty.elim [[some 0,some 1]]).run
      (Shutdown.start [[some 0,some 1]]) oneDoneRun).map
      (fun s : Shutdown (Fin 2) Empty => (s.main,(s.task 1).pc,decide (Settled s 1))) =
      some (.join 0 0,.body,false) := by decide
  obtain ⟨s,hs,hr⟩ := Option.map_eq_some_iff.mp hv
  simp only [Prod.mk.injEq,decide_eq_false_iff_not] at hr
  obtain ⟨hm,hpc,hn⟩ := hr
  refine ⟨_,s,Exec.of_run (Shutdown.start_init _ (by decide)) hs,hm,hpc,hn,fun always => hn ?_⟩
  exact always.2 0 [some 0,some 1] rfl (by rw [hm]; decide) 1 (by decide)

end TTK4145.Rtsystem
