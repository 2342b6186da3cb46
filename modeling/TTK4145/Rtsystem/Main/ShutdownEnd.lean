import Mathlib.Algebra.GroupWithZero.Nat
import Mathlib.Data.List.GetD
import TTK4145.Rtsystem.Main.Release

/-! That the shutdown ends: `main` has a bounded number of statements left, and waits only for
threads that can go on. -/
namespace TTK4145.Rtsystem
open Lib

/-- The length of an array. -/
def slotsAt (L : List ℕ) (i : ℕ) : ℕ := L.getD i 0

/-- The slots of the arrays from the given one on. -/
def slotsFrom (L : List ℕ) (i : ℕ) : ℕ := (L.drop i).sum

theorem slotsFrom_eq (L : List ℕ) (i : ℕ) : slotsFrom L i = slotsAt L i+slotsFrom L (i+1) := by
  unfold slotsFrom slotsAt
  by_cases h : i<L.length
  · rw [List.drop_eq_getElem_cons h,List.sum_cons,List.getD_eq_getElem _ _ h]
  · rw [List.drop_eq_nil_of_le (by omega),List.drop_eq_nil_of_le (by omega),
      List.getD_eq_default _ _ (by omega)]
    rfl

/-- The statements that `main` has left at most, with arrays of the given lengths. A join counts for
the check, the wait, and the thread's last statement. -/
def MainPc.left (L : List ℕ) : MainPc → ℕ
  | .stop i j => slotsAt L i-j+slotsFrom L (i+1)+(L.length-i)+(5*slotsFrom L 0+5*L.length+10)
  | .poll i => slotsFrom L i+2*(L.length-i)+(4*slotsFrom L 0+3*L.length+9)
  | .cancel i j => slotsAt L i-j+slotsFrom L (i+1)+2*(L.length-(i+1))+1+
      (4*slotsFrom L 0+3*L.length+9)
  | .join i j => 3*(slotsAt L i-j)+slotsAt L i+4*slotsFrom L (i+1)+3*(L.length-i)+8
  | .joinWait i j => 3*(slotsAt L i-(j+1))+slotsAt L i+4*slotsFrom L (i+1)+3*(L.length-i)+9
  | .destroy i j => slotsAt L i-j+2+4*slotsFrom L (i+1)+3*(L.length-(i+1))+8
  | .arrayDestroy i => 1+4*slotsFrom L (i+1)+3*(L.length-(i+1))+8
  | .logStop => 7
  | .logPoll => 6
  | .logCancel => 5
  | .logJoin => 2
  | .logCleanup => 1
  | .exited => 0

/-- The statements that the log thread has left once it is told to stop. -/
def LogThreadPc.left : LogThreadPc → ℕ
  | .running => 2
  | .signalled => 1
  | .terminated => 0

/-- The arrays that have not been destroyed at a statement. -/
def MainPc.Standing : MainPc → ℕ → Prop
  | .stop _ _,_ | .poll _,_ | .cancel _ _,_ => True
  | .join i _,k | .joinWait i _,k | .destroy i _,k => i ≤ k
  | .arrayDestroy i,k => i<k
  | .logStop,_ | .logPoll,_ | .logCancel,_ | .logJoin,_ | .logCleanup,_ | .exited,_ => False

/-- Statements for which only the arrays matter. -/
def MainPc.plain : MainPc → Bool
  | .cancel _ _ | .destroy _ _ | .joinWait _ _ | .logPoll | .logCancel | .logJoin => false
  | _ => true

section Lengths
variable {τ : Type*} {arrays : List (List (Option τ))} {L : List ℕ} {i j : ℕ}

theorem length_of_visit (h : arrays[i]?.map List.length = L[i]?) {slots : List (Option τ)}
    (hi : arrays[i]? = some slots) : i<L.length ∧ slotsAt L i = slots.length := by
  rw [hi] at h
  obtain ⟨hlt,hget⟩ := List.getElem?_eq_some_iff.mp h.symm
  refine ⟨hlt,?_⟩
  rw [slotsAt,List.getD_eq_getElem _ _ hlt]
  exact hget

theorem noArray_bound (h : arrays[i]?.map List.length = L[i]?) (hi : arrays[i]? = none) :
    L.length ≤ i := by
  rw [hi] at h
  exact List.getElem?_eq_none_iff.mp h.symm

theorem endOfArray_bound (h : arrays[i]?.map List.length = L[i]?)
    (hv : visit arrays i j = .endOfArray) : i<L.length ∧ slotsAt L i ≤ j := by
  obtain ⟨slots,hi,hj⟩ := visit_endOfArray hv
  obtain ⟨hlt,hslots⟩ := length_of_visit h hi
  exact ⟨hlt,by rw [hslots]; exact hj⟩

theorem slot_bound (h : arrays[i]?.map List.length = L[i]?)
    (hv : visit arrays i j = .empty ∨ ∃ t, visit arrays i j = .task t) :
    i<L.length ∧ j<slotsAt L i := by
  unfold visit at hv
  split at hv
  · obtain hv | ⟨t,hv⟩ := hv <;> cases hv
  · rename_i slots hi
    obtain ⟨hlt,hslots⟩ := length_of_visit h hi
    refine ⟨hlt,?_⟩
    rw [hslots]
    by_contra hj
    rw [List.getElem?_eq_none_iff.mpr (Nat.not_lt.mp hj)] at hv
    obtain hv | ⟨t,hv⟩ := hv <;> cases hv

theorem length_modify_set {k : ℕ} : (arrays.modify i fun slots => slots.set j none)[k]?.map
    List.length = arrays[k]?.map List.length := by
  rw [List.getElem?_modify]
  split_ifs
  · cases arrays[k]? <;> simp
  · cases arrays[k]? <;> rfl

end Lengths

/-- The steps of `main` itself. -/
def ShutdownAction.ofMain {τ : Type*} : ShutdownAction τ → Bool
  | .main | .poll _ _ | .check _ => true
  | _ => false

namespace Shutdown
variable {τ κ : Type*}

/-- The thread in whose join `main` is. -/
def awaited (s : Shutdown τ κ) : Option τ :=
  match s.main with
  | .joinWait i j => match visit s.arrays i j with
    | .task t => some t
    | _ => none
  | _ => none

/-- The statements left to the thread for which `main` waits. -/
def pending (s : Shutdown τ κ) : ℕ :=
  match s.main with
  | .joinWait _ _ => match s.awaited with
    | some t => if (s.task t).pc = .terminated then 0 else 1
    | none => 0
  | .logJoin => s.log.pc.left
  | _ => 0

/-- The steps which `main` takes, or for which it waits. -/
def forward [DecidableEq τ] (s : Shutdown τ κ) : ShutdownAction τ → Bool
  | .main | .poll _ _ | .check _ => true
  | .step t | .die t => decide (s.awaited = some t)
  | .logDone | .logReturn | .logDie => decide (s.main = .logJoin)
  | .use _ _ | .leave _ | .logUse | .sigint => false

/-- All that is left of the shutdown. -/
def remaining (L : List ℕ) (s : Shutdown τ κ) : ℕ := s.main.left L+s.pending

/-- A thread that has written its `done_fd` has nothing left but its message. -/
def Marked (s : Shutdown τ κ) : Prop :=
  ∀ t, s.readable t = true → (s.task t).pc = .markLog ∨ (s.task t).pc = .terminated

/-- The lengths of the arrays that are not yet destroyed, the loops that are only entered for an
array, and what is known of the threads for which `main` waits. -/
structure OnTrack (L : List ℕ) (s : Shutdown τ κ) : Prop where
  lengths : ∀ k, s.main.Standing k → s.arrays[k]?.map List.length = L[k]?
  inside : ∀ i j, s.main = .cancel i j ∨ s.main = .destroy i j → i<L.length
  waits : ∀ i j, s.main = .joinWait i j → ∃ t, s.awaited = some t ∧ s.readable t = true
  stopped : s.main = .logPoll ∨ s.main = .logCancel ∨ s.main = .logJoin → s.log.running = false
  marked : s.Marked

variable {L : List ℕ} {s s' : Shutdown τ κ} {call : κ → TaskState → TaskState}
  {a : ShutdownAction τ} {pc pc' : MainPc}

theorem pending_joinWait {i j : ℕ} (hm : s.main = .joinWait i j) : s.pending ≤ 1 := by
  simp only [pending,hm]
  split
  · split_ifs <;> omega
  · omega

theorem pending_logJoin (hm : s.main = .logJoin) : s.pending ≤ 2 := by
  simp only [pending,hm]
  cases s.log.pc <;> simp [LogThreadPc.left]

theorem awaited_main {t : τ} (ht : s.awaited = some t) : ∃ i j, s.main = .joinWait i j := by
  unfold awaited at ht
  split at ht
  · rename_i i j hm
    exact ⟨i,j,hm⟩
  · cases ht

theorem pending_awaited {t : τ} (ht : s.awaited = some t) :
    s.pending = if (s.task t).pc = .terminated then 0 else 1 := by
  obtain ⟨i,j,hm⟩ := awaited_main ht
  simp only [pending,hm,ht]

/-- `main` waits only for a thread that has written its `done_fd`. -/
theorem OnTrack.awaited_marked (h : OnTrack L s) {t : τ} (ht : s.awaited = some t) :
    (s.task t).pc = .markLog ∨ (s.task t).pc = .terminated := by
  obtain ⟨i,j,hm⟩ := awaited_main ht
  obtain ⟨u,hu,hr⟩ := h.waits i j hm
  cases ht.symm.trans hu
  exact h.marked t hr

theorem pending_other (hj : ∀ i j, s.main ≠ .joinWait i j) (hl : s.main ≠ .logJoin) :
    s.pending = 0 := by
  unfold pending
  split
  · rename_i i j hm
    exact absurd hm (hj i j)
  · rename_i hm
    exact absurd hm hl
  · rfl

/-- A step that brings the shutdown on. -/
structure Advances (L : List ℕ) (s s' : Shutdown τ κ) : Prop where
  onTrack : OnTrack L s'
  lower : s'.remaining L<s.remaining L

/-- `main` comes to a statement at which it waits for nothing. -/
theorem Advances.goto (hm : s.main = pc) (hm' : s'.main = pc') (hp : pc'.plain = true)
    (hl : ∀ k, pc'.Standing k → s'.arrays[k]?.map List.length = L[k]?)
    (hmark : s'.Marked)
    (hlt : pc'.left L<pc.left L) : Advances L s s' := by
  subst hm hm'
  refine ⟨⟨hl,fun i j hm => ?_,fun i j hm => ?_,fun hm => ?_,hmark⟩,?_⟩
  · obtain hm | hm := hm <;> rw [hm] at hp <;> cases hp
  · rw [hm] at hp
    cases hp
  · obtain hm | hm | hm := hm <;> rw [hm] at hp <;> cases hp
  · have hzero : s'.pending = 0 := by
      apply pending_other
      · intro i j hm
        rw [hm] at hp
        cases hp
      · intro hm
        rw [hm] at hp
        cases hp
    unfold remaining
    omega

/-- `main` comes to a loop over the slots of an array. -/
theorem Advances.enter {i j : ℕ} (hm : s.main = pc) (hm' : s'.main = pc')
    (hpc : pc' = .cancel i j ∨ pc' = .destroy i j) (hi : i<L.length)
    (hl : ∀ k, pc'.Standing k → s'.arrays[k]?.map List.length = L[k]?)
    (hmark : s'.Marked)
    (hlt : pc'.left L<pc.left L) : Advances L s s' := by
  subst hm hm'
  refine ⟨⟨hl,fun i' j' hm => ?_,fun i' j' hm => ?_,fun hm => ?_,hmark⟩,?_⟩
  · obtain hpc | hpc := hpc <;> rw [hpc] at hm <;> obtain hm | hm := hm <;> cases hm <;> exact hi
  · obtain hpc | hpc := hpc <;> rw [hpc] at hm <;> cases hm
  · obtain hpc | hpc := hpc <;> rw [hpc] at hm <;> obtain hm | hm | hm := hm <;> cases hm
  · have hzero : s'.pending = 0 := by
      apply pending_other
      · intro i' j' hm
        obtain hpc | hpc := hpc <;> rw [hpc] at hm <;> cases hm
      · intro hm
        obtain hpc | hpc := hpc <;> rw [hpc] at hm <;> cases hm
    unfold remaining
    omega

/-- `main` comes to a statement about the log thread. -/
theorem Advances.log (hm : s.main = pc) (hm' : s'.main = pc')
    (hpc : pc' = .logPoll ∨ pc' = .logCancel ∨ pc' = .logJoin) (hr : s'.log.running = false)
    (hmark : s'.Marked)
    (hlt : pc'.left L+s'.pending<pc.left L) : Advances L s s' := by
  subst hm hm'
  refine ⟨⟨fun k hk => ?_,fun i j hm => ?_,fun i j hm => ?_,fun _ => hr,hmark⟩,?_⟩
  · obtain hpc | hpc | hpc := hpc <;> rw [hpc] at hk <;> exact hk.elim
  · obtain hpc | hpc | hpc := hpc <;> rw [hpc] at hm <;> obtain hm | hm := hm <;> cases hm
  · obtain hpc | hpc | hpc := hpc <;> rw [hpc] at hm <;> cases hm
  · unfold remaining
    omega

theorem OnTrack.stepPoll (h : OnTrack L s) {malloc : Bool} {outcome : PollOutcome}
    (hs : s.stepPoll malloc outcome = some s') : Advances L s s' := by
  obtain ⟨i,slots,hm,hv⟩ | ⟨hm,pc,hpc,rfl⟩ := stepPoll_main hs
  · have hl := h.lengths
    rw [hm] at hl
    have hlt := (length_of_visit (hl i trivial) hv).1
    have hi := slotsFrom_eq L i
    obtain ⟨-,-,force,rfl⟩ | ⟨-,rfl⟩ := (stepPoll_cases hm hv hs).2
    · exact .enter hm rfl (.inl rfl) hlt hl h.marked (by simp only [MainPc.left]; omega)
    · exact .goto hm rfl rfl hl h.marked (by simp only [MainPc.left]; omega)
  · have hstop := h.stopped (.inl hm)
    obtain rfl | rfl | rfl := hpc
    · exact .goto hm rfl rfl (fun _ hk => hk.elim) h.marked (by simp [MainPc.left])
    · exact .log hm rfl (.inr (.inl rfl)) hstop h.marked (by simp [MainPc.left,pending])
    · refine .log hm rfl (.inr (.inr rfl)) hstop h.marked ?_
      exact Nat.lt_of_le_of_lt (Nat.add_le_add_left (pending_logJoin rfl) _) (by simp [MainPc.left])

theorem stepCheck_ready {t : τ} {i j : ℕ} (hm : s.main = .join i j)
    (hv : visit s.arrays i j = .task t) (hs : (s.stepCheck .ready).isSome) :
    s.readable t = true := by
  simp only [Shutdown.stepCheck,hm,hv,pollReply,List.mem_singleton,Option.isSome_map] at hs
  split_ifs at hs with hr
  · exact hr.symm
  · cases hs

theorem OnTrack.stepCheck (h : OnTrack L s) {outcome : PollOutcome}
    (hs : s.stepCheck outcome = some s') : Advances L s s' := by
  obtain ⟨i,j,t,hm,hv,hcase⟩ := stepCheck_cases hs
  have hl := h.lengths
  rw [hm] at hl
  have hslot := (slot_bound (hl i (Nat.le_refl i)) (.inr ⟨t,hv⟩)).2
  obtain ⟨rfl,rfl⟩ | ⟨-,rfl⟩ := hcase
  · have hr := stepCheck_ready hm hv (by rw [hs]; rfl)
    have ht : awaited {s with main := .joinWait i j} = some t := by simp only [awaited,hv]
    refine ⟨⟨hl,fun i' j' hm' => ?_,fun i' j' _ => ⟨t,ht,hr⟩,fun hm' => ?_,h.marked⟩,?_⟩
    · obtain hm' | hm' := hm' <;> cases hm'
    · obtain hm' | hm' | hm' := hm' <;> cases hm'
    · have hp : pending {s with main := .joinWait i j} ≤ 1 := pending_joinWait rfl
      simp only [remaining,hm,MainPc.left]
      omega
  · exact .goto hm rfl rfl hl h.marked (by simp only [MainPc.left]; omega)

variable [DecidableEq τ]

/-- A thread which is still the same at its statement and its `done_fd`. -/
theorem OnTrack.setTask_marked (h : OnTrack L s) {t : τ} {th : Task κ}
    (hpc : th.pc = (s.task t).pc) (hd : th.handle.doneFd = (s.task t).handle.doneFd) :
    (s.setTask t th).Marked := by
  refine setTask_forall (P := fun u th => th.handle.doneFd.pollIn = true →
    th.pc = .markLog ∨ th.pc = .terminated) h.marked fun hr => ?_
  rw [hpc]
  exact h.marked t (by rw [readable,← hd]; exact hr)

/-- `task_array_stop_all` for the arrays in their order. -/
theorem OnTrack.stop (h : OnTrack L s) {i j : ℕ} (hm : s.main = .stop i j)
    (hs : s.stepMain call (.stop i j) = some s') : Advances L s s' := by
  have hl := h.lengths
  rw [hm] at hl
  have hbound := hl i trivial
  have hi := slotsFrom_eq L (i+1)
  have h0 := slotsFrom_eq L 0
  simp only [Shutdown.stepMain] at hs
  split at hs <;> cases hs
  · rename_i hv
    have hend := noArray_bound hbound (visit_noArray hv)
    exact .goto hm rfl rfl hl h.marked (by simp only [MainPc.left]; omega)
  · rename_i hv
    obtain ⟨hlt,hle⟩ := endOfArray_bound hbound hv
    exact .goto hm rfl rfl hl h.marked (by simp only [MainPc.left]; omega)
  · rename_i hv
    obtain ⟨hlt,hslot⟩ := slot_bound hbound (.inl hv)
    exact .goto hm rfl rfl hl h.marked (by simp only [MainPc.left]; omega)
  · rename_i t hv
    obtain ⟨hlt,hslot⟩ := slot_bound hbound (.inr ⟨t,hv⟩)
    refine .goto hm rfl rfl hl ?_ (by simp only [MainPc.left]; omega)
    exact h.setTask_marked rfl (taskStop_doneFd _ _)

theorem OnTrack.poll (h : OnTrack L s) {i : ℕ} (hm : s.main = .poll i)
    (hs : s.stepMain call (.poll i) = some s') : Advances L s s' := by
  have hl := h.lengths
  rw [hm] at hl
  have hbound := hl i trivial
  have hi := slotsFrom_eq L i
  have h0 := slotsFrom_eq L 0
  simp only [Shutdown.stepMain] at hs
  split at hs
  · rename_i hv
    cases hs
    have hend := noArray_bound hbound hv
    exact .goto hm rfl rfl (fun k _ => hl k trivial) h.marked (by simp only [MainPc.left]; omega)
  · rename_i slots hv
    split_ifs at hs
    cases hs
    have hlt := (length_of_visit hbound hv).1
    exact .enter hm rfl (.inl rfl) hlt hl h.marked (by simp only [MainPc.left]; omega)

theorem OnTrack.cancel (h : OnTrack L s) {i j : ℕ} (hm : s.main = .cancel i j)
    (hs : s.stepMain call (.cancel i j) = some s') : Advances L s s' := by
  have hl := h.lengths
  rw [hm] at hl
  have hlt := h.inside i j (.inl hm)
  have hbound := hl i trivial
  simp only [Shutdown.stepMain] at hs
  split at hs <;> cases hs
  · exact .goto hm rfl rfl hl h.marked (by simp only [MainPc.left]; omega)
  · rename_i hv
    have hslot := (slot_bound hbound (.inl hv)).2
    exact .enter hm rfl (.inl rfl) hlt hl h.marked (by simp only [MainPc.left]; omega)
  · rename_i t hv
    have hslot := (slot_bound hbound (.inr ⟨t,hv⟩)).2
    refine .enter hm rfl (.inl rfl) hlt hl ?_ (by simp only [MainPc.left]; omega)
    exact h.setTask_marked rfl rfl

theorem OnTrack.join (h : OnTrack L s) {i j : ℕ} (hm : s.main = .join i j)
    (hs : s.stepMain call (.join i j) = some s') : Advances L s s' := by
  have hl := h.lengths
  rw [hm] at hl
  have hbound := hl i (Nat.le_refl i)
  simp only [Shutdown.stepMain] at hs
  split at hs <;> cases hs
  · exact .goto hm rfl rfl (fun _ hk => hk.elim) h.marked (by simp only [MainPc.left]; omega)
  · rename_i hv
    have hlt := (endOfArray_bound hbound hv).1
    exact .enter hm rfl (.inr rfl) hlt hl h.marked (by simp only [MainPc.left]; omega)
  · rename_i hv
    have hslot := (slot_bound hbound (.inl hv)).2
    exact .goto hm rfl rfl hl h.marked (by simp only [MainPc.left]; omega)

/-- `task_array_handles_destroy_all`: the slots are cleared, and the array keeps its length. -/
theorem OnTrack.destroy (h : OnTrack L s) {i j : ℕ} (hm : s.main = .destroy i j)
    (hs : s.stepMain call (.destroy i j) = some s') : Advances L s s' := by
  have hl := h.lengths
  rw [hm] at hl
  have hlt := h.inside i j (.inr hm)
  have hbound := hl i (Nat.le_refl i)
  simp only [Shutdown.stepMain] at hs
  split at hs <;> cases hs
  · exact .goto hm rfl rfl (fun k hk => hl k (Nat.le_of_lt hk)) h.marked
      (by simp only [MainPc.left]; omega)
  · rename_i hv
    have hslot := (slot_bound hbound (.inl hv)).2
    exact .enter hm rfl (.inr rfl) hlt hl h.marked (by simp only [MainPc.left]; omega)
  · rename_i t hv
    have hslot := (slot_bound hbound (.inr ⟨t,hv⟩)).2
    have hm' : (s.release i j t).main = .destroy i (j+1) := rfl
    refine .enter hm hm' (.inr rfl) hlt (fun k hk => ?_) ?_ (by simp only [MainPc.left]; omega)
    · rw [← hl k hk]
      exact length_modify_set
    · exact h.setTask_marked rfl rfl

/-- Every statement of `main` brings the shutdown on. -/
theorem OnTrack.stepMain (h : OnTrack L s) (hs : s.stepMain call s.main = some s') :
    Advances L s s' := by
  cases hm : s.main with
  | stop i j => exact h.stop hm (hm ▸ hs)
  | poll i => exact h.poll hm (hm ▸ hs)
  | cancel i j => exact h.cancel hm (hm ▸ hs)
  | join i j => exact h.join hm (hm ▸ hs)
  | joinWait i j =>
    have hl := h.lengths
    rw [hm] at hs hl
    simp only [Shutdown.stepMain] at hs
    split at hs
    · split_ifs at hs
      cases hs
      exact .goto hm rfl rfl hl h.marked (by simp only [MainPc.left]; omega)
    · cases hs
  | destroy i j => exact h.destroy hm (hm ▸ hs)
  | arrayDestroy i =>
    have hl := h.lengths
    rw [hm] at hs hl
    cases hs
    have hi := slotsFrom_eq L (i+1)
    refine .goto hm rfl rfl (fun k hk => ?_) h.marked (by simp only [MainPc.left]; omega)
    rw [List.getElem?_set_ne (Nat.ne_of_lt hk)]
    exact hl k hk
  | logStop =>
    rw [hm] at hs
    cases hs
    exact .log hm rfl (.inl rfl) rfl h.marked (by simp [MainPc.left,pending])
  | logPoll =>
    rw [hm] at hs
    cases hs
  | logCancel =>
    rw [hm] at hs
    cases hs
    refine .log hm rfl (.inr (.inr rfl)) (h.stopped (.inr (.inl hm))) h.marked ?_
    exact Nat.lt_of_le_of_lt (Nat.add_le_add_left (pending_logJoin rfl) _) (by simp [MainPc.left])
  | logJoin =>
    rw [hm] at hs
    simp only [Shutdown.stepMain] at hs
    split_ifs at hs
    cases hs
    exact .goto hm rfl rfl (fun _ hk => hk.elim) h.marked (by simp only [MainPc.left]; omega)
  | logCleanup =>
    rw [hm] at hs
    cases hs
    exact .goto hm rfl rfl (fun _ hk => hk.elim) h.marked (by simp only [MainPc.left]; omega)
  | exited =>
    rw [hm] at hs
    cases hs

/-- What the steps of the other threads do to the shutdown. -/
structure Moves (s s' : Shutdown τ κ) : Prop where
  step : ThreadStep s s'
  running : s'.log.running = s.log.running
  log : s'.log.pc.left ≤ s.log.pc.left
  marked : s.Marked → s'.Marked

omit [DecidableEq τ] in
theorem ThreadStep.awaited (h : ThreadStep s s') : s'.awaited = s.awaited := by
  simp only [Shutdown.awaited,h.main,h.arrays]

omit [DecidableEq τ] in
theorem Moves.onTrack (hs : Moves s s') (h : OnTrack L s) : OnTrack L s' where
  lengths k hk := by
    rw [hs.step.main] at hk
    rw [hs.step.arrays]
    exact h.lengths k hk
  inside i j hm := by
    rw [hs.step.main] at hm
    exact h.inside i j hm
  waits i j hm := by
    rw [hs.step.main] at hm
    obtain ⟨t,ht,hr⟩ := h.waits i j hm
    exact ⟨t,hs.step.awaited.trans ht,hs.step.readable t hr⟩
  stopped hm := by
    rw [hs.step.main] at hm
    rw [hs.running]
    exact h.stopped hm
  marked := hs.marked h.marked

omit [DecidableEq τ] in
theorem Moves.remaining_le (hs : Moves s s') : s'.remaining L ≤ s.remaining L := by
  have hpending : s'.pending ≤ s.pending := by
    simp only [pending,hs.step.main,hs.step.awaited]
    split
    · split
      · rename_i t _
        by_cases hpc : (s.task t).pc = .terminated
        · rw [if_pos (hs.step.terminated t hpc)]
          exact Nat.zero_le _
        · rw [if_neg hpc]
          split_ifs <;> omega
      · exact Nat.le_refl 0
    · exact hs.log
    · exact Nat.le_refl 0
  simp only [remaining,hs.step.main]
  omega

/-- A task thread goes from one statement of `task_handle_mark_done` to the next. -/
theorem Moves.setTask {t : τ} {th : Task κ} {fault : Bool} (hpc : (s.task t).pc ≠ .terminated)
    (hs : ThreadStep s {s.setTask t th with fault := fault})
    (hth : ((s.task t).handle.doneFd.pollIn = true → (s.task t).pc = .markLog) →
      th.handle.doneFd.pollIn = true → th.pc = .markLog ∨ th.pc = .terminated) :
    Moves s {s.setTask t th with fault := fault} where
  step := hs
  running := rfl
  log := Nat.le_refl _
  marked h := setTask_forall (P := fun _ th => th.handle.doneFd.pollIn = true →
    th.pc = .markLog ∨ th.pc = .terminated) h (hth fun hr => (h t hr).resolve_right hpc)

theorem Moves.of_stepTask {t : τ} (hn : s.stepTask t (s.task t).pc = some s') : Moves s s' := by
  have hs := ThreadStep.of_stepTask hn
  cases hpc : (s.task t).pc with
  | body | terminated =>
    rw [hpc] at hn
    cases hn
  | markState =>
    rw [hpc] at hn
    cases hn
    refine .setTask (by rw [hpc]; simp) hs fun h hr => ?_
    have hlog := h hr
    rw [hpc] at hlog
    cases hlog
  | markDone =>
    rw [hpc] at hn
    simp only [stepTask] at hn
    split_ifs at hn
    cases hn
    exact .setTask (by rw [hpc]; simp) hs fun _ _ => .inl rfl
  | markLog =>
    rw [hpc] at hn
    cases hn
    exact .setTask (by rw [hpc]; simp) hs fun _ _ => .inr rfl

omit [DecidableEq τ] in
/-- The log thread, the terminal, and the uses of the loops leave the tasks alone. -/
theorem Moves.setLog {log : LogThread} {sigint fault : Bool}
    (hs : ThreadStep s {s with log := log, sigint := sigint, fault := fault})
    (hr : log.running = s.log.running) (hl : log.pc.left ≤ s.log.pc.left) :
    Moves s {s with log := log, sigint := sigint, fault := fault} where
  step := hs
  running := hr
  log := hl
  marked h := h

omit [DecidableEq τ] in
/-- The thread for which `main` waits ends. -/
theorem Moves.joined (hs : Moves s s') {t : τ} (ht : s.awaited = some t)
    (hpc : (s.task t).pc ≠ .terminated) (hpc' : (s'.task t).pc = .terminated) :
    s'.remaining L<s.remaining L := by
  have hbefore := pending_awaited ht
  have hafter := pending_awaited (hs.step.awaited.trans ht)
  rw [if_neg hpc] at hbefore
  rw [if_pos hpc'] at hafter
  simp only [remaining,hs.step.main]
  omega

omit [DecidableEq τ] in
/-- The log thread goes on while `main` waits for it. -/
theorem Moves.logJoined (hs : Moves s s') (hm : s.main = .logJoin)
    (hl : s'.log.pc.left<s.log.pc.left) : s'.remaining L<s.remaining L := by
  simp only [remaining,hs.step.main,pending,hm]
  omega

theorem next_thread (ha : a.ofMain = false) (hn : s.next call a = some s') : ThreadStep s s' := by
  obtain ⟨rfl,-⟩ | ⟨malloc,outcome,rfl,-⟩ | ⟨outcome,rfl,-⟩ | hs := next_cases hn
  · cases ha
  · cases ha
  · cases ha
  · exact hs

/-- The steps of the other threads; those for which `main` waits lower the measure. -/
theorem OnTrack.next_other (h : OnTrack L s) (ha : a.ofMain = false)
    (hn : s.next call a = some s') :
    Moves s s' ∧ (s.forward a = true → s'.remaining L<s.remaining L) := by
  have hs := next_thread ha hn
  cases a with
  | main | poll malloc outcome | check outcome => cases ha
  | use t r =>
    simp only [Shutdown.next] at hn
    split_ifs at hn
    cases hn
    exact ⟨.setLog hs rfl (Nat.le_refl _),fun hf => by cases hf⟩
  | leave t =>
    simp only [Shutdown.next] at hn
    split_ifs at hn with hpc
    cases hn
    refine ⟨.setTask (by rw [hpc]; simp) hs fun hmark hr => ?_,fun hf => by cases hf⟩
    have hlog := hmark hr
    rw [hpc] at hlog
    cases hlog
  | step t =>
    have hmove := Moves.of_stepTask hn
    refine ⟨hmove,fun hf => ?_⟩
    have ht : s.awaited = some t := of_decide_eq_true hf
    obtain hpc | hpc := h.awaited_marked ht
    · simp only [Shutdown.next,hpc] at hn
      cases hn
      exact hmove.joined ht (by rw [hpc]; simp) (by simp)
    · simp only [Shutdown.next,hpc] at hn
      cases hn
  | die t =>
    simp only [Shutdown.next] at hn
    split_ifs at hn with hpc
    cases hn
    have hmove : Moves s _ := .setTask hpc.2.2 hs fun _ _ => .inr rfl
    refine ⟨hmove,fun hf => ?_⟩
    exact hmove.joined (of_decide_eq_true hf) hpc.2.2 (by simp)
  | logUse =>
    simp only [Shutdown.next] at hn
    split_ifs at hn
    cases hn
    exact ⟨.setLog hs rfl (Nat.le_refl _),fun hf => by cases hf⟩
  | logDone =>
    simp only [Shutdown.next] at hn
    split_ifs at hn with hpc
    cases hn
    have hlt : LogThreadPc.left .signalled<s.log.pc.left := by simp [hpc.1,LogThreadPc.left]
    have hmove : Moves s _ := .setLog hs rfl (Nat.le_of_lt hlt)
    exact ⟨hmove,fun hf => hmove.logJoined (of_decide_eq_true hf) hlt⟩
  | logReturn | logDie =>
    simp only [Shutdown.next] at hn
    split_ifs at hn with hpc
    cases hn
    have hlt : LogThreadPc.left .terminated<s.log.pc.left := by simp [hpc,LogThreadPc.left]
    have hmove : Moves s _ := .setLog hs rfl (Nat.le_of_lt hlt)
    exact ⟨hmove,fun hf => hmove.logJoined (of_decide_eq_true hf) hlt⟩
  | sigint =>
    cases hn
    exact ⟨.setLog hs rfl (Nat.le_refl _),fun hf => by cases hf⟩

/-- One step: what `main` takes or waits for lowers the measure, and nothing else raises it. -/
theorem OnTrack.next (h : OnTrack L s) (hn : s.next call a = some s') :
    OnTrack L s' ∧ s'.remaining L+(s.forward a).toNat ≤ s.remaining L := by
  have main (hs : Advances L s s') :
      OnTrack L s' ∧ s'.remaining L+(s.forward a).toNat ≤ s.remaining L := by
    have hlt := hs.lower
    have hone := Bool.toNat_le (s.forward a)
    exact ⟨hs.onTrack,by omega⟩
  cases ha : a.ofMain with
  | false =>
    obtain ⟨hs,hf⟩ := h.next_other ha hn
    refine ⟨hs.onTrack h,?_⟩
    cases hfw : s.forward a with
    | true => exact hf hfw
    | false => exact hs.remaining_le
  | true =>
    cases a with
    | main => exact main (h.stepMain hn)
    | poll malloc outcome => exact main (h.stepPoll hn)
    | check outcome => exact main (h.stepCheck hn)
    | use | leave | step | die | logUse | logDone | logReturn | logDie | sigint => cases ha

theorem OnTrack.init {arrays : List (List (Option τ))} (hi : (machine call arrays).init s) :
    OnTrack (arrays.map List.length) s ∧ s.remaining (arrays.map List.length) =
      6*(arrays.map List.length).sum+6*arrays.length+10 := by
  obtain ⟨harrays,hm,-,-,-,-,htask⟩ := hi
  refine ⟨⟨fun k _ => ?_,fun i j h => ?_,fun i j h => ?_,fun h => ?_,fun t hr => ?_⟩,?_⟩
  · rw [harrays,List.getElem?_map]
  · rw [hm] at h
    obtain h | h := h <;> cases h
  · rw [hm] at h
    cases h
  · rw [hm] at h
    obtain h | h | h := h <;> cases h
  · have hzero := (htask t).2.2.1
    rw [readable,EventFd.pollIn_iff,hzero] at hr
    cases hr
  · have h0 := slotsFrom_eq (arrays.map List.length) 0
    have hsum : slotsFrom (arrays.map List.length) 0 = (arrays.map List.length).sum := rfl
    have hp : s.pending = 0 := by simp only [pending,hm]
    simp only [remaining,hm,hp,MainPc.left,List.length_map]
    omega

/-- A poll that works: no error, and memory for its descriptors. -/
def Works : ShutdownAction τ → Bool
  | .poll malloc outcome => malloc && decide (outcome ≠ .error)
  | .check outcome => decide (outcome ≠ .error)
  | _ => true

/-- Something that `main` takes or waits for can be done until it returns. -/
theorem OnTrack.enabled (h : OnTrack L s) : s.main = .exited ∨
    ∃ a, s.forward a = true ∧ Works a = true ∧ (s.next call a).isSome = true := by
  have main (hs : (s.stepMain call s.main).isSome = true) :
      ∃ a, s.forward a = true ∧ Works a = true ∧ (s.next call a).isSome = true :=
    ⟨.main,rfl,rfl,hs⟩
  have hl := h.lengths
  cases hm : s.main with
  | stop i j =>
    refine .inr (main ?_)
    simp only [Shutdown.stepMain,hm]
    split <;> rfl
  | poll i =>
    cases hv : s.arrays[i]? with
    | none => exact .inr (main (by simp [Shutdown.stepMain,hm,hv]))
    | some slots =>
      cases hf : s.force with
      | true => exact .inr (main (by simp [Shutdown.stepMain,hm,hv,hf]))
      | false =>
        obtain ⟨outcome,hne,hans⟩ := pollReply_answers (s.pollFds slots)
        exact .inr ⟨.poll true outcome,rfl,by simpa [Works] using hne,
          by simpa [Shutdown.next,Shutdown.stepPoll,hm,hv,hf] using hans⟩
  | cancel i j =>
    rw [hm] at hl
    have hlt := h.inside i j (.inl hm)
    refine .inr (main ?_)
    simp only [Shutdown.stepMain,hm]
    split
    · rename_i hv
      have hend := noArray_bound (hl i trivial) (visit_noArray hv)
      omega
    all_goals rfl
  | join i j =>
    cases hv : visit s.arrays i j with
    | noArray | endOfArray | empty => exact .inr (main (by simp [Shutdown.stepMain,hm,hv]))
    | task t =>
      obtain ⟨outcome,hne,hans⟩ := pollReply_answers [s.readable t]
      exact .inr ⟨.check outcome,rfl,by simpa [Works] using hne,
        by simpa [Shutdown.next,Shutdown.stepCheck,hm,hv] using hans⟩
  | joinWait i j =>
    obtain ⟨t,ht,-⟩ := h.waits i j hm
    obtain hpc | hpc := h.awaited_marked ht
    · exact .inr ⟨.step t,by simpa [forward] using ht,rfl,by simp [Shutdown.next,hpc,stepTask]⟩
    · have hv : visit s.arrays i j = .task t := by
        simp only [awaited,hm] at ht
        split at ht <;> cases ht
        assumption
      exact .inr (main (by simp [Shutdown.stepMain,hm,hv,hpc]))
  | destroy i j =>
    rw [hm] at hl
    have hlt := h.inside i j (.inr hm)
    refine .inr (main ?_)
    simp only [Shutdown.stepMain,hm]
    split
    · rename_i hv
      have hend := noArray_bound (hl i (Nat.le_refl i)) (visit_noArray hv)
      omega
    all_goals rfl
  | logPoll =>
    obtain ⟨outcome,hne,hans⟩ := pollReply_answers [s.log.doneFd.pollIn,s.sigint]
    exact .inr ⟨.poll true outcome,rfl,by simpa [Works] using hne,
      by simpa [Shutdown.next,Shutdown.stepPoll,hm] using hans⟩
  | logJoin =>
    have hf : decide (s.main = .logJoin) = true := by simpa using hm
    cases hpc : s.log.pc with
    | running =>
      have hr := h.stopped (.inr (.inr hm))
      exact .inr ⟨.logDone,hf,rfl,by simp [Shutdown.next,hpc,hr]⟩
    | signalled => exact .inr ⟨.logReturn,hf,rfl,by simp [Shutdown.next,hpc]⟩
    | terminated => exact .inr (main (by simp [Shutdown.stepMain,hm,hpc]))
  | arrayDestroy | logStop | logCancel | logCleanup =>
    exact .inr (main (by simp [Shutdown.stepMain,hm]))
  | exited => exact .inl rfl

end Shutdown
end TTK4145.Rtsystem
