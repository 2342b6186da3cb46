import TTK4145.Rtsystem.Main.StopPhase

/-! What `main` releases at the end: the buffers and handles of the tasks, and the log queue.
`task_array_join_all` skips a task whose `done_fd` is not readable, and the handle is destroyed
all the same. -/
namespace TTK4145.Rtsystem
open Lib

/-- The loops of `main` still have to destroy array `k`. -/
def MainPc.Awaits : MainPc → ℕ → Prop
  | .stop _ _,_ | .poll _,_ | .cancel _ _,_ => True
  | .join i _,k | .joinWait i _,k => i ≤ k
  | .destroy i _,k | .arrayDestroy i,k => i<k
  | .logStop,_ | .logPoll,_ | .logCancel,_ | .logJoin,_ | .logCleanup,_ | .exited,_ => False

section Release
variable {τ κ : Type*} {arrays : List (List (Option τ))} {s s' : Shutdown τ κ}

/-- Nothing is released before the threads that use it have terminated, and no thread has used
anything after its release. -/
structure SafeRelease (s : Shutdown τ κ) : Prop where
  handles : ∀ t, (s.task t).released = true → (s.task t).pc = .terminated
  logQueue : s.logReleased = true → (∀ t, (s.task t).pc = .terminated) ∧ s.log.pc = .terminated
  unused : s.fault = false

/-- The task whose `done_fd` the join loop is about to poll. -/
def Shutdown.joining (s : Shutdown τ κ) : Option τ :=
  match s.main with
  | .join i j => match visit s.arrays i j with
    | .task t => some t
    | _ => none
  | _ => none

/-- The join loop finds the `done_fd` readable, or the thread has terminated before. -/
def NoneStuck (s : Shutdown τ κ) : ShutdownAction τ → Prop
  | .check outcome => ∀ t ∈ s.joining, outcome = .ready ∨ (s.task t).pc = .terminated
  | _ => True

instance (s : Shutdown τ κ) : (a : ShutdownAction τ) → Decidable (NoneStuck s a)
  | .check outcome => inferInstanceAs (Decidable (∀ t ∈ s.joining,
      outcome = .ready ∨ (s.task t).pc = .terminated))
  | .main | .poll _ _ | .use _ _ | .leave _ | .step _ | .die _ | .logUse | .logDone | .logReturn |
    .logDie | .sigint => isTrue trivial

/-- The threads of the first `j` slots of array `i` have terminated. -/
def JoinedBelow (s : Shutdown τ κ) (i j : ℕ) : Prop :=
  ∀ slots, s.arrays[i]? = some slots → ∀ k t, k<j → slots[k]? = some (some t) →
    (s.task t).pc = .terminated

/-- The thread has terminated, or the loops of `main` at `pc` still have to destroy its array. -/
def Pending (s : Shutdown τ κ) (pc : MainPc) (t : τ) : Prop :=
  (s.task t).pc = .terminated ∨ ∃ k slots, pc.Awaits k ∧ s.arrays[k]? = some slots ∧ some t ∈ slots

/-- What `main` has waited for when it is at `pc`. -/
def WaitedFor (s : Shutdown τ κ) : MainPc → Prop
  | .join i j | .joinWait i j => JoinedBelow s i j
  | .destroy i _ => ∀ slots, s.arrays[i]? = some slots → ∀ t, some t ∈ slots →
      (s.task t).pc = .terminated
  | .logCleanup => s.log.pc = .terminated
  | _ => True

structure ReleaseInv (s : Shutdown τ κ) : Prop where
  safe : SafeRelease s
  pending : ∀ t, Pending s s.main t
  waited : WaitedFor s s.main

/-- No thread comes back to life, and the arrays, the releases and the queue stay. -/
structure KeepsReleased (s s' : Shutdown τ κ) : Prop where
  arrays : s'.arrays = s.arrays
  terminated : ∀ t, (s.task t).pc = .terminated → (s'.task t).pc = .terminated
  logTerminated : s.log.pc = .terminated → s'.log.pc = .terminated
  released : ∀ t, (s'.task t).released = (s.task t).released
  logReleased : s'.logReleased = s.logReleased

theorem KeepsReleased.safe (k : KeepsReleased s s') (h : SafeRelease s) (hf : s'.fault = false) :
    SafeRelease s' where
  handles t hr := by
    rw [k.released] at hr
    exact k.terminated t (h.handles t hr)
  logQueue hr := by
    rw [k.logReleased] at hr
    obtain ⟨ht,hl⟩ := h.logQueue hr
    exact ⟨fun t => k.terminated t (ht t),k.logTerminated hl⟩
  unused := hf

theorem KeepsReleased.pending (k : KeepsReleased s s') {pc : MainPc} {t : τ}
    (h : Pending s pc t) : Pending s' pc t := by
  unfold Pending
  rw [k.arrays]
  exact h.imp_left (k.terminated t)

theorem KeepsReleased.waited (k : KeepsReleased s s') {pc : MainPc} (h : WaitedFor s pc) :
    WaitedFor s' pc := by
  cases pc with
  | join i j | joinWait i j =>
    intro slots hi n t hn ht
    rw [k.arrays] at hi
    exact k.terminated t (h slots hi n t hn ht)
  | destroy i j =>
    intro slots hi t ht
    rw [k.arrays] at hi
    exact k.terminated t (h slots hi t ht)
  | logCleanup => exact k.logTerminated h
  | stop | poll | cancel | arrayDestroy | logStop | logPoll | logCancel | logJoin | exited =>
    trivial

/-- The control of `main` and the fields of the log thread besides its position. -/
theorem KeepsReleased.control {pc : MainPc} {force : Bool} {log : LogThread}
    (hl : log.pc = s.log.pc) :
    KeepsReleased s {s with main := pc, force := force, log := log} :=
  ⟨rfl,fun _ => id,hl.trans,fun _ => rfl,rfl⟩

/-- A step that releases nothing: what remains is to look at where `main` goes. -/
theorem ReleaseInv.keep (h : ReleaseInv s) (k : KeepsReleased s s') (hf : s'.fault = false)
    (pending : ∀ t, Pending s s'.main t) (waited : WaitedFor s s'.main) : ReleaseInv s' :=
  ⟨k.safe h.safe hf,fun t => k.pending (pending t),k.waited waited⟩

/-- Only the position of `main` changes. -/
theorem ReleaseInv.goto (h : ReleaseInv s) {pc : MainPc} (pending : ∀ t, Pending s pc t)
    (waited : WaitedFor s pc) : ReleaseInv {s with main := pc} :=
  h.keep (.control rfl) h.safe.unused pending waited

theorem ReleaseInv.thread (h : ReleaseInv s) (hs : Shutdown.ThreadStep s s') : ReleaseInv s' := by
  refine h.keep ⟨hs.arrays,hs.terminated,hs.logTerminated,hs.released,hs.logReleased⟩ ?_ ?_ ?_
  · rw [Bool.eq_false_iff]
    intro hf
    rcases hs.fault hf with hf | ⟨t,live,hr | hr⟩ | ⟨live,hr⟩
    · rw [h.safe.unused] at hf
      cases hf
    · exact live (h.safe.handles t hr)
    · exact live ((h.safe.logQueue hr).1 t)
    · exact live (h.safe.logQueue hr).2
  · rw [hs.main]
    exact h.pending
  · rw [hs.main]
    exact h.waited

theorem JoinedBelow.zero (i : ℕ) : JoinedBelow s i 0 :=
  fun _ _ k _ hk => absurd hk (Nat.not_lt_zero k)

theorem JoinedBelow.succ {i j : ℕ} (h : JoinedBelow s i j)
    (hj : ∀ t, visit s.arrays i j = .task t → (s.task t).pc = .terminated) : JoinedBelow s i (j+1) := by
  intro slots hi k t hk hkt
  rcases Nat.lt_succ_iff_lt_or_eq.mp hk with hlt | rfl
  · exact h slots hi k t hlt hkt
  · exact hj t (visit_of_task hi hkt)

/-- At the end of the slots the whole array is joined. -/
theorem JoinedBelow.all {i j : ℕ} (h : JoinedBelow s i j) {slots : List (Option τ)}
    (hi : s.arrays[i]? = some slots) (hlen : slots.length ≤ j) (t : τ) (hmem : some t ∈ slots) :
    (s.task t).pc = .terminated := by
  obtain ⟨k,hk,hkt⟩ := List.getElem_of_mem hmem
  exact h slots hi k t (by omega) (by rw [List.getElem?_eq_getElem hk,hkt])

/-- Without an array left to join, all threads have terminated. -/
theorem Pending.terminated {pc : MainPc} {t : τ} (h : Pending s pc t) (hn : ∀ k, ¬ pc.Awaits k) :
    (s.task t).pc = .terminated :=
  h.resolve_right fun ⟨k,_,hk,_⟩ => hn k hk

theorem MainPc.early_cases {pc : MainPc} (hm : pc.early = true) :
    (∃ i j, pc = .stop i j) ∨ (∃ i, pc = .poll i) ∨ ∃ i j, pc = .cancel i j := by
  cases pc with
  | stop i j => exact .inl ⟨i,j,rfl⟩
  | poll i => exact .inr (.inl ⟨i,rfl⟩)
  | cancel i j => exact .inr (.inr ⟨i,j,rfl⟩)
  | join | joinWait | destroy | arrayDestroy | logStop | logPoll | logCancel | logJoin |
    logCleanup | exited => cases hm

/-- From an early position everything is still to be destroyed, and so at the first join. -/
theorem MainPc.awaits_early {pc : MainPc} (k : ℕ) (hm : pc.early = true ∨ pc = .join 0 0) :
    pc.Awaits k := by
  rcases hm with hm | rfl
  · rcases early_cases hm with ⟨i,j,rfl⟩ | ⟨i,rfl⟩ | ⟨i,j,rfl⟩ <;> trivial
  · exact Nat.zero_le k

theorem WaitedFor.early {pc : MainPc} (hm : pc.early = true ∨ pc = .join 0 0) :
    WaitedFor s pc := by
  rcases hm with hm | rfl
  · rcases MainPc.early_cases hm with ⟨i,j,rfl⟩ | ⟨i,rfl⟩ | ⟨i,j,rfl⟩ <;> trivial
  · exact .zero 0

/-- The statements before the first join. -/
theorem ReleaseInv.early (h : ReleaseInv s) (k : KeepsReleased s s') (hf : s'.fault = s.fault)
    (hm : s'.main.early = true ∨ s'.main = .join 0 0) : ReleaseInv s' := by
  refine h.keep k (hf.trans h.safe.unused) (fun t => ?_) (.early hm)
  exact (h.pending t).imp_right fun ⟨n,slots,_,hs⟩ => ⟨n,slots,MainPc.awaits_early n hm,hs⟩

/-- The join loop passes one more slot. -/
theorem ReleaseInv.next_slot (h : ReleaseInv s) {i j : ℕ}
    (hm : s.main = .join i j ∨ s.main = .joinWait i j)
    (hj : ∀ t, visit s.arrays i j = .task t → (s.task t).pc = .terminated) :
    ReleaseInv {s with main := .join i (j+1)} := by
  have hp := h.pending
  have hw := h.waited
  rcases hm with hm | hm <;> rw [hm] at hp hw <;> exact h.goto hp (JoinedBelow.succ hw hj)

theorem ReleaseInv.poll (h : ReleaseInv s) {malloc : Bool} {outcome : PollOutcome}
    (hs : s.stepPoll malloc outcome = some s') : ReleaseInv s' := by
  rcases stepPoll_main hs with ⟨i,slots,hm,hi⟩ | ⟨hm,pc,hpc,rfl⟩
  · rcases (stepPoll_cases hm hi hs).2 with ⟨-,-,force,rfl⟩ | ⟨-,rfl⟩
    · exact h.early (.control rfl) rfl (.inl rfl)
    · exact h.early (.control rfl) rfl (.inl rfl)
  · have hall := fun t => (h.pending t).terminated (by rw [hm]; exact fun _ => id)
    rcases hpc with rfl | rfl | rfl <;> exact h.goto (fun t => .inl (hall t)) trivial

theorem joining_eq {t : τ} : s.joining = some t ↔
    ∃ i j, s.main = .join i j ∧ visit s.arrays i j = .task t := by
  unfold Shutdown.joining
  cases hm : s.main with
  | join i j => cases hv : visit s.arrays i j <;> simp [hv]
  | stop | poll | cancel | joinWait | destroy | arrayDestroy | logStop | logPoll | logCancel |
    logJoin | logCleanup | exited => simp

theorem ReleaseInv.check (h : ReleaseInv s) {outcome : PollOutcome}
    (stuck : NoneStuck s (.check outcome)) (hs : s.stepCheck outcome = some s') :
    ReleaseInv s' := by
  obtain ⟨i,j,t,hm,hv,⟨-,rfl⟩ | ⟨hne,rfl⟩⟩ := Shutdown.stepCheck_cases hs
  · have hp := h.pending
    have hw := h.waited
    rw [hm] at hp hw
    exact h.goto hp hw
  · apply h.next_slot (.inl hm)
    intro u hu
    cases hv.symm.trans hu
    exact (stuck t (joining_eq.mpr ⟨i,j,hm,hv⟩)).resolve_left hne

variable [DecidableEq τ] {call : κ → TaskState → TaskState} {a : ShutdownAction τ}

/-- A statement that leaves the task alone, or writes its handle or its cancellation. -/
theorem KeepsReleased.setTask {t : τ} {th : Task κ} {pc : MainPc}
    (hpc : th.pc = (s.task t).pc) (hr : th.released = (s.task t).released) :
    KeepsReleased s {s.setTask t th with main := pc} where
  arrays := rfl
  terminated := Shutdown.setTask_forall
    (P := fun u th => (s.task u).pc = .terminated → th.pc = .terminated) (fun _ => id) hpc.trans
  logTerminated := id
  released := Shutdown.setTask_forall (P := fun u th => th.released = (s.task u).released)
    (fun _ => rfl) hr
  logReleased := rfl

/-- The loop body of the destroy pass releases a task whose thread has terminated. -/
theorem ReleaseInv.release (h : ReleaseInv s) {i j : ℕ} {t : τ} (hm : s.main = .destroy i j)
    (ht : (s.task t).pc = .terminated) : ReleaseInv (s.release i j t) := by
  have hp := h.pending
  have hw := h.waited
  rw [hm] at hp hw
  have hmod : (s.release i j t).arrays = s.arrays.modify i fun slots => slots.set j none := rfl
  refine ⟨⟨?_,?_,h.safe.unused⟩,?_,?_⟩
  · exact Shutdown.setTask_forall (P := fun _ th => th.released = true → th.pc = .terminated)
      h.safe.handles (fun _ => ht)
  · intro hr
    obtain ⟨hall,hl⟩ := h.safe.logQueue hr
    exact ⟨fun u => (Shutdown.release_pc u).trans (hall u),hl⟩
  · intro u
    apply (hp u).imp (Shutdown.release_pc u).trans
    rintro ⟨k,slots,hk,hslots,hmem⟩
    refine ⟨k,slots,hk,?_,hmem⟩
    rw [hmod,List.getElem?_modify_ne _ _ (Nat.ne_of_lt hk)]
    exact hslots
  · intro slots hslots u hmem
    rw [hmod,List.getElem?_modify_eq] at hslots
    obtain ⟨old,hold,rfl⟩ := Option.map_eq_some_iff.mp hslots
    rw [Shutdown.release_pc]
    apply hw old hold u
    rcases List.mem_or_eq_of_mem_set hmem with hmem | hmem
    · exact hmem
    · cases hmem

/-- The join loop at its end: on to the next statement of `main` with the whole array joined. -/
theorem ReleaseInv.join (h : ReleaseInv s) {i j : ℕ} (hm : s.main = .join i j)
    (hs : s.stepMain call (.join i j) = some s') : ReleaseInv s' := by
  have hp := h.pending
  have hw : JoinedBelow s i j := by
    have := h.waited
    rw [hm] at this
    exact this
  rw [hm] at hp
  simp only [Shutdown.stepMain] at hs
  cases hv : visit s.arrays i j with
  | noArray =>
    rw [hv] at hs
    cases hs
    refine h.goto (fun t => .inl ?_) trivial
    rcases hp t with ht | ⟨k,slots,hk,hslots,-⟩
    · exact ht
    · have hle : i ≤ k := hk
      have hlen := List.getElem?_eq_none_iff.mp (visit_noArray hv)
      have hlt := (List.getElem?_eq_some_iff.mp hslots).1
      omega
  | endOfArray =>
    rw [hv] at hs
    cases hs
    obtain ⟨slots,hi,hlen⟩ := visit_endOfArray hv
    have hall := fun t => hw.all hi hlen t
    refine h.goto (fun t => ?_) (fun slots' hi' => ?_)
    · rcases hp t with ht | ⟨k,slots',hk,hslots,hmem⟩
      · exact .inl ht
      · rcases Nat.lt_or_eq_of_le hk with hlt | rfl
        · exact .inr ⟨k,slots',hlt,hslots,hmem⟩
        · rw [hi] at hslots
          cases hslots
          exact .inl (hall t hmem)
    · rw [hi] at hi'
      cases hi'
      exact hall
  | empty =>
    rw [hv] at hs
    cases hs
    apply h.next_slot (.inl hm)
    intro t ht
    cases hv.symm.trans ht
  | task t =>
    rw [hv] at hs
    cases hs

theorem ReleaseInv.destroy (h : ReleaseInv s) {i j : ℕ} (hm : s.main = .destroy i j)
    (hs : s.stepMain call (.destroy i j) = some s') : ReleaseInv s' := by
  have hp := h.pending
  have hw := h.waited
  rw [hm] at hp hw
  simp only [Shutdown.stepMain] at hs
  cases hv : visit s.arrays i j with
  | noArray =>
    rw [hv] at hs
    cases hs
  | endOfArray =>
    rw [hv] at hs
    cases hs
    exact h.goto hp trivial
  | empty =>
    rw [hv] at hs
    cases hs
    exact h.goto hp hw
  | task t =>
    rw [hv] at hs
    cases hs
    obtain ⟨slots,hi,hj⟩ := visit_task hv
    exact h.release hm (hw slots hi t (List.mem_of_getElem? hj))

theorem ReleaseInv.main (h : ReleaseInv s) (hs : s.stepMain call s.main = some s') :
    ReleaseInv s' := by
  have hp := h.pending
  have hw := h.waited
  cases hm : s.main with
  | stop i j =>
    rw [hm] at hs
    simp only [Shutdown.stepMain] at hs
    split at hs <;> cases hs
    · exact h.early (.control rfl) rfl (.inl rfl)
    · exact h.early (.control rfl) rfl (.inl rfl)
    · exact h.early (.control rfl) rfl (.inl rfl)
    · exact h.early (.setTask rfl rfl) rfl (.inl rfl)
  | poll i =>
    rw [hm] at hs
    simp only [Shutdown.stepMain] at hs
    split at hs
    · cases hs
      exact h.early (.control rfl) rfl (.inr rfl)
    · split_ifs at hs
      cases hs
      exact h.early (.control rfl) rfl (.inl rfl)
  | cancel i j =>
    rw [hm] at hs
    simp only [Shutdown.stepMain] at hs
    split at hs <;> cases hs
    · exact h.early (.control rfl) rfl (.inl rfl)
    · exact h.early (.control rfl) rfl (.inl rfl)
    · exact h.early (.setTask rfl rfl) rfl (.inl rfl)
  | join i j =>
    rw [hm] at hs
    exact h.join hm hs
  | joinWait i j =>
    rw [hm] at hs
    simp only [Shutdown.stepMain] at hs
    split at hs
    · rename_i u hv
      split_ifs at hs with ht
      cases hs
      apply h.next_slot (.inr hm)
      intro t hu
      cases hv.symm.trans hu
      exact ht
    · cases hs
  | destroy i j =>
    rw [hm] at hs
    exact h.destroy hm hs
  | arrayDestroy i =>
    rw [hm] at hs hp
    cases hs
    refine ⟨⟨h.safe.handles,h.safe.logQueue,h.safe.unused⟩,fun t => ?_,.zero _⟩
    apply (hp t).imp_right
    rintro ⟨k,slots,hk,hslots,hmem⟩
    refine ⟨k,slots,hk,?_,hmem⟩
    rw [List.getElem?_set_ne (Nat.ne_of_lt hk)]
    exact hslots
  | logStop | logCancel =>
    have hall := fun t => (hp t).terminated (by rw [hm]; exact fun _ => id)
    rw [hm] at hs
    cases hs
    exact h.keep (.control rfl) h.safe.unused (fun t => .inl (hall t)) trivial
  | logJoin =>
    have hall := fun t => (hp t).terminated (by rw [hm]; exact fun _ => id)
    rw [hm] at hs
    simp only [Shutdown.stepMain] at hs
    split_ifs at hs with hl
    cases hs
    exact h.goto (fun t => .inl (hall t)) hl
  | logCleanup =>
    have hall := fun t => (hp t).terminated (by rw [hm]; exact fun _ => id)
    rw [hm] at hs hw
    cases hs
    exact ⟨⟨h.safe.handles,fun _ => ⟨hall,hw⟩,h.safe.unused⟩,fun t => .inl (hall t),trivial⟩
  | logPoll | exited =>
    rw [hm] at hs
    cases hs

theorem ReleaseInv.next (h : ReleaseInv s) (stuck : NoneStuck s a) (hs : s.next call a = some s') :
    ReleaseInv s' := by
  rcases Shutdown.next_cases hs with ⟨-,hs⟩ | ⟨malloc,outcome,-,hs⟩ | ⟨outcome,rfl,hs⟩ | hs
  · exact h.main hs
  · exact h.poll hs
  · exact h.check stuck hs
  · exact h.thread hs

theorem ReleaseInv.init (hi : (Shutdown.machine call arrays).init s) : ReleaseInv s := by
  obtain ⟨ha,hm,-,hr,hf,-,ht⟩ := hi
  refine ⟨⟨fun t hrel => ?_,fun hrel => ?_,hf⟩,fun t => ?_,?_⟩
  · rw [(ht t).2.1] at hrel
    cases hrel
  · rw [hr] at hrel
    cases hrel
  · rcases (ht t).2.2.2 with ⟨⟨slots,hs,hmem⟩,-⟩ | ⟨-,hpc⟩
    · obtain ⟨k,hk,hkt⟩ := List.getElem_of_mem hs
      refine .inr ⟨k,slots,by rw [hm]; trivial,?_,hmem⟩
      rw [ha,List.getElem?_eq_getElem hk,hkt]
    · exact .inl hpc
  · rw [hm]
    trivial

/-- The destroy pass reaches the handle of a thread that has not terminated. -/
theorem reaches_release {i j k : ℕ} {slots : List (Option τ)} {t : τ} (hm : s.main = .destroy i k)
    (hi : s.arrays[i]? = some slots) (hk : k ≤ j) (hj : slots[j]? = some (some t))
    (live : (s.task t).pc ≠ .terminated) :
    (Shutdown.machine call arrays).Reaches (fun u => ¬ SafeRelease u) s := by
  induction hn : j-k generalizing s k slots with
  | zero =>
    obtain rfl : k = j := by omega
    have hv : visit s.arrays i k = .task t := visit_of_task hi hj
    have hs : s.next call .main = some (s.release i k t) := by
      simp only [Shutdown.next,hm,Shutdown.stepMain,hv]
    refine .step (a := .main) hs (.here fun safe => live ?_)
    have hrel : ((s.release i k t).task t).released = true := by rw [Shutdown.release_same]
    have hpc := safe.handles t hrel
    rw [Shutdown.release_pc] at hpc
    exact hpc
  | succ n ih =>
    have hlt : k<slots.length := by
      have := (List.getElem?_eq_some_iff.mp hj).1
      omega
    cases hs : slots[k] with
    | none =>
      have hv : visit s.arrays i k = .empty := by
        simp only [visit,hi,List.getElem?_eq_getElem hlt,hs]
      have hnext : s.next call .main = some {s with main := .destroy i (k+1)} := by
        simp only [Shutdown.next,hm,Shutdown.stepMain,hv]
      exact .step (a := .main) hnext (ih rfl hi (by omega) hj live (by omega))
    | some v =>
      have hv : visit s.arrays i k = .task v := by
        simp only [visit,hi,List.getElem?_eq_getElem hlt,hs]
      have hnext : s.next call .main = some (s.release i k v) := by
        simp only [Shutdown.next,hm,Shutdown.stepMain,hv]
      have hi' : (s.release i k v).arrays[i]? = some (slots.set k none) := by
        change (s.arrays.modify i fun slots => slots.set k none)[i]? = _
        rw [List.getElem?_modify_eq,hi]
        rfl
      have hj' : (slots.set k none)[j]? = some (some t) := by
        rw [List.getElem?_set_ne (by omega),hj]
      have live' : ((s.release i k v).task t).pc ≠ .terminated := by
        rw [Shutdown.release_pc]
        exact live
      exact .step (a := .main) hnext (ih rfl hi' (by omega) hj' live' (by omega))

/-- Nothing keeps `main` from the destroy pass of the array: each join can be skipped. -/
theorem reaches_destroy {i j : ℕ} {slots : List (Option τ)} {P : Shutdown τ κ → Prop}
    (hm : s.main = .join i j) (hi : s.arrays[i]? = some slots)
    (h : (Shutdown.machine call arrays).Reaches P {s with main := .destroy i 0}) :
    (Shutdown.machine call arrays).Reaches P s := by
  induction hn : slots.length-j generalizing s j with
  | zero =>
    have hv : visit s.arrays i j = .endOfArray := by
      simp only [visit,hi,List.getElem?_eq_none (show slots.length ≤ j by omega)]
    have hs : s.next call .main = some {s with main := .destroy i 0} := by
      simp only [Shutdown.next,hm,Shutdown.stepMain,hv]
    exact .step (a := .main) hs h
  | succ n ih =>
    have hj : j<slots.length := by omega
    have skip : ∃ a, s.next call a = some {s with main := .join i (j+1)} := by
      cases hs : slots[j] with
      | none =>
        have hv : visit s.arrays i j = .empty := by
          simp only [visit,hi,List.getElem?_eq_getElem hj,hs]
        exact ⟨.main,by simp only [Shutdown.next,hm,Shutdown.stepMain,hv]⟩
      | some t =>
        have hv : visit s.arrays i j = .task t := by
          simp only [visit,hi,List.getElem?_eq_getElem hj,hs]
        exact ⟨.check .error,by simp [Shutdown.next,Shutdown.stepCheck,hm,hv,pollReply]⟩
    obtain ⟨a,ha⟩ := skip
    exact .step ha (ih (s := {s with main := .join i (j+1)}) rfl hi h (by omega))

/-- A skipped join of a live thread can end in the release of what that thread uses. -/
theorem reaches_of_stuck (stuck : ¬ NoneStuck s a) (hs : s.next call a = some s') :
    (Shutdown.machine call arrays).Reaches (fun u => ¬ SafeRelease u) s' := by
  cases a with
  | check outcome =>
    simp only [NoneStuck,not_forall,not_or] at stuck
    obtain ⟨t,hjoin,hne,live⟩ := stuck
    obtain ⟨i,j,u,hm,hv,⟨he,-⟩ | ⟨-,rfl⟩⟩ := Shutdown.stepCheck_cases hs
    · exact absurd he hne
    · rw [Option.mem_def,joining_eq.mpr ⟨i,j,hm,hv⟩] at hjoin
      cases hjoin
      obtain ⟨slots,hi,hj⟩ := visit_task hv
      exact reaches_destroy rfl hi (reaches_release rfl hi (Nat.zero_le j) hj live)
  | main | poll | use | leave | step | die | logUse | logDone | logReturn | logDie | sigint =>
    exact absurd trivial stuck

/-- As long as no join of a live thread is skipped, nothing is released under a thread that may use
it; a skipped one can always be followed by such a release. -/
theorem safeRelease_of_noneStuck (call : κ → TaskState → TaskState) (arrays : List (List (Option τ)))
    {tr : List (Shutdown τ κ × ShutdownAction τ)} (run : Exec (Shutdown.machine call arrays) tr s) :
    (Meets NoneStuck tr → Always SafeRelease tr s) ∧
    ∀ a s', ¬ NoneStuck s a → s.next call a = some s' →
      (Shutdown.machine call arrays).Reaches (fun u => ¬ SafeRelease u) s' := by
  refine ⟨fun meets => ?_,fun a s' stuck hs => reaches_of_stuck stuck hs⟩
  have inv : Always ReleaseInv tr s := run.always (fun _ hi => ReleaseInv.init hi)
    (fun _ _ _ h stuck hs => h.next stuck hs) meets
  exact inv.mono fun _ h => h.safe

end Release

/-- One task is cancelled and dies before the join loop skips it, the other one marks itself done
and is joined; the log thread drains its queue. -/
def joinedRun : List (ShutdownAction (Fin 2)) :=
  List.flatten [List.replicate 6 .main,
    [.poll true .timeout,.main,.main,.main,.leave 1,.step 1,.step 1],
    [.poll true .ready,.main,.die 0,.step 1,.check .timeout],List.replicate 6 .main,
    [.check .ready],List.replicate 7 .main,[.logDone,.poll true .ready,.logReturn,.main,.main]]

theorem safeRelease_of_noneStuck_joined :
    ∃ tr, ∃ s : Shutdown (Fin 2) Empty,
      Exec (Shutdown.machine Empty.elim [[some 0,none],[some 1]]) tr s ∧
      s.main = .exited ∧ (s.task 0).released = true ∧ (s.task 1).released = true ∧
      s.logReleased = true ∧ Always SafeRelease tr s := by
  have hv : ((Shutdown.machine Empty.elim [[some 0,none],[some 1]]).run
      (Shutdown.start [[some 0,none],[some 1]]) joinedRun).map
      (fun s => (s.main,(s.task 0).released,(s.task 1).released,s.logReleased)) =
      some (.exited,true,true,true) := by decide
  obtain ⟨s,hs,hr⟩ := Option.map_eq_some_iff.mp hv
  simp only [Prod.mk.injEq] at hr
  have run := Exec.of_run (Shutdown.start_init _ (by decide)) hs
  exact ⟨_,s,run,hr.1,hr.2.1,hr.2.2.1,hr.2.2.2,(safeRelease_of_noneStuck _ _ run).1 (by decide)⟩

/-- The task of the only array does not get to a cancellation point. -/
def stuckRun : List (ShutdownAction (Fin 1)) :=
  List.flatten [List.replicate 3 .main,
    [.poll true .timeout,.main,.main,.main,.check .timeout,.main,.main,.use 0 .buffer]]

/-- The join is skipped, the handle is destroyed, and the thread goes on to use its buffer. -/
theorem stuck_task_uses_released :
    ∃ tr, ∃ s : Shutdown (Fin 1) Empty, Exec (Shutdown.machine Empty.elim [[some 0]]) tr s ∧
      (s.task 0).released = true ∧ (s.task 0).pc = .body ∧ s.fault = true ∧
      ¬ Always SafeRelease tr s := by
  have hv : ((Shutdown.machine Empty.elim [[some 0]]).run (Shutdown.start [[some 0]]) stuckRun).map
      (fun s : Shutdown (Fin 1) Empty => ((s.task 0).released,(s.task 0).pc,s.fault)) =
      some (true,.body,true) := by decide
  obtain ⟨s,hs,hr⟩ := Option.map_eq_some_iff.mp hv
  simp only [Prod.mk.injEq] at hr
  obtain ⟨hrel,hpc,hf⟩ := hr
  refine ⟨_,s,Exec.of_run (Shutdown.start_init _ (by decide)) hs,hrel,hpc,hf,fun always => ?_⟩
  have ht := always.2.handles 0 hrel
  rw [hpc] at ht
  cases ht

end TTK4145.Rtsystem
