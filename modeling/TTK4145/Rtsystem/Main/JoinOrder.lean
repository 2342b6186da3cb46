import Mathlib.Data.List.Nodup
import TTK4145.Rtsystem.Core.TaskRegistry
import TTK4145.Rtsystem.Main.LockOwners

/-! Which threads `task_array_join_all` waits for in the shutdown, and that the destruction of a
handle finds it out of its array. -/
namespace TTK4145.Rtsystem
open Lib

section Registry
variable {α η κ : Type*} {setup : ShutdownSetup α η κ} {s t : Registry α η κ} {a : α} {h : η} {i : ℕ}

theorem Housed.congr (hs : Housed setup s) (hslots : t.slots = s.slots)
    (harray : ∀ h, (t.handle h).array = (s.handle h).array) : Housed setup t := by
  refine ⟨?_,fun h a hm => ?_,fun h a hm => ?_⟩
  · rw [hslots]
    exact hs.single
  · rw [hslots] at hm
    rw [harray]
    exact hs.pointer h a hm
  · rw [hslots] at hm
    exact hs.home h a hm

section Free
variable [DecidableEq α]

/-- The slots that are freed with an array. -/
theorem Housed.arrayDestroy (hs : Housed setup s) :
    Housed setup {s with slots := Function.update s.slots a []} := by
  have hmem : ∀ x b, some x ∈ Function.update s.slots a [] b → some x ∈ s.slots b := by
    intro x b hx
    by_cases hb : b = a
    · subst hb
      rw [Function.update_self] at hx
      cases hx
    · rwa [Function.update_of_ne hb] at hx
  have hwithin : Slots.Within (Function.update s.slots a []) s.slots := by
    intro x b j hj
    by_cases hb : b = a
    · subst hb
      rw [Slots.Holds,Function.update_self] at hj
      cases hj
    · rwa [Slots.Holds,Function.update_of_ne hb] at hj
  exact ⟨fun x b c j k hj hk => hs.single x b c j k (hwithin x b j hj) (hwithin x c k hk),
    fun x b hx => hs.pointer x b (hmem x b hx),fun x b hx => hs.home x b (hmem x b hx)⟩

end Free

variable [DecidableEq η]

@[simp] theorem closeHandle_doneFd_self : ((closeHandle h s).handle h).doneFd = none := by
  unfold closeHandle
  cases hfd : (s.handle h).doneFd <;> simp [Registry.setHandle,Registry.effect,hfd]

theorem closeHandle_doneFd_other {x : η} (hx : x ≠ h) :
    ((closeHandle h s).handle x).doneFd = (s.handle x).doneFd := by
  unfold closeHandle
  cases (s.handle h).doneFd <;> simp [Registry.setHandle,Registry.effect,hx]

variable [DecidableEq α]

theorem clear_handle_other {x : η} (hx : x ≠ h) : (s.clear a i h).handle x = s.handle x :=
  Function.update_of_ne hx _ _

theorem put_handle_other {x : η} (hx : x ≠ h) : (s.put a i h).handle x = s.handle x :=
  Function.update_of_ne hx _ _

theorem clear_handle_self :
    (s.clear a i h).handle h = {s.handle h with array := none} := Function.update_self ..

theorem put_handle_self :
    (s.put a i h).handle h = {s.handle h with array := some a} := Function.update_self ..

@[simp] theorem clear_doneFd {x : η} :
    ((s.clear a i h).handle x).doneFd = (s.handle x).doneFd := by
  by_cases hx : x = h
  · subst hx
    rw [clear_handle_self]
  · rw [clear_handle_other hx]

@[simp] theorem put_doneFd {x : η} :
    ((s.put a i h).handle x).doneFd = (s.handle x).doneFd := by
  by_cases hx : x = h
  · subst hx
    rw [put_handle_self]
  · rw [put_handle_other hx]

theorem Housed.clear (hs : Housed setup s) (hi : Slots.Holds s.slots a i h) :
    Housed setup (s.clear a i h) := by
  have hmem : ∀ x b, some x ∈ (s.clear a i h).slots b → some x ∈ s.slots b ∧ x ≠ h := by
    intro x b hx
    obtain ⟨j,hj⟩ := Slots.mem_iff_holds.mp hx
    obtain ⟨hold,hne⟩ := (Slots.holds_clear hi).mp hj
    refine ⟨hold.mem,?_⟩
    rintro rfl
    exact hne (hs.single x b a j i hold hi)
  refine ⟨hs.single.clear hi,fun x b hx => ?_,fun x b hx => hs.home x b (hmem x b hx).1⟩
  obtain ⟨hb,hxh⟩ := hmem x b hx
  rw [clear_handle_other hxh]
  exact hs.pointer x b hb

theorem Housed.put (hs : Housed setup s) (harray : (s.handle h).array = none)
    (hhome : setup.home h = a) (hi : (s.slots a)[i]? = some none) : Housed setup (s.put a i h) := by
  have habsent : Slots.Absent s.slots h := by
    intro b hb
    rw [hs.pointer h b hb] at harray
    cases harray
  have hmem : ∀ x b, some x ∈ (s.put a i h).slots b → b = a ∧ x = h ∨ some x ∈ s.slots b := by
    intro x b hx
    obtain ⟨j,hj⟩ := Slots.mem_iff_holds.mp hx
    obtain ⟨hb,-,hxh⟩ | hj := (Slots.holds_put hi).mp hj
    · exact .inl ⟨hb,hxh⟩
    · exact .inr hj.mem
  refine ⟨hs.single.put habsent hi,fun x b hx => ?_,fun x b hx => ?_⟩
  · obtain ⟨rfl,rfl⟩ | hb := hmem x b hx
    · rw [put_handle_self]
    · have hxh : x ≠ h := by
        rintro rfl
        exact habsent b hb
      rw [put_handle_other hxh]
      exact hs.pointer x b hb
  · obtain ⟨rfl,rfl⟩ | hb := hmem x b hx
    · exact hhome
    · exact hs.home x b hb

/-- What a call of a task on an array does: the slots agree with the handles again, and nothing
happens to other arrays and their handles, nor to any `done_fd`. -/
structure EditsHome (setup : ShutdownSetup α η κ) (a : α) (s t : Registry α η κ) : Prop where
  housed : Housed setup t
  slots : ∀ b, b ≠ a → t.slots b = s.slots b
  array : ∀ h, setup.home h ≠ a → (t.handle h).array = (s.handle h).array
  doneFd : ∀ h, (t.handle h).doneFd = (s.handle h).doneFd

theorem ArrayOp.run_edits (hs : Housed setup s) {o : ArrayOp α η} (ho : o.Allowed setup s) :
    EditsHome setup o.array s (o.run s) := by
  cases o with
  | add a x =>
    obtain ⟨harray,hhome⟩ := ho
    change EditsHome setup a s (taskArrayAdd a x s).registry
    obtain ⟨-,-,he⟩ | ⟨j,hj,-,he⟩ := taskArrayAdd_cases a x s
    · rw [he]
      exact ⟨hs,fun _ _ => rfl,fun _ _ => rfl,fun _ => rfl⟩
    · rw [he]
      refine ⟨hs.put harray hhome hj,fun b hb => Function.update_of_ne hb _ _,fun y hy => ?_,
        fun _ => put_doneFd⟩
      have hyx : y ≠ x := by
        rintro rfl
        exact hy hhome
      rw [put_handle_other hyx]
  | remove a x =>
    change EditsHome setup a s (taskArrayRemove a x s).registry
    obtain ⟨-,-,he⟩ | ⟨j,hj,-,he⟩ := taskArrayRemove_cases a x s
    · rw [he]
      exact ⟨hs,fun _ _ => rfl,fun _ _ => rfl,fun _ => rfl⟩
    · rw [he]
      refine ⟨hs.clear hj,fun b hb => Function.update_of_ne hb _ _,fun y hy => ?_,fun _ => clear_doneFd⟩
      have hyx : y ≠ x := by
        rintro rfl
        exact hy (hs.home y a hj.mem)
      rw [clear_handle_other hyx]

end Registry

/-- The call of `task_array_join_all` that `main` is in. -/
def SectionPc.joining {α η : Type*} : SectionPc α η → List α
  | .lock .joinAll a | .slot .joinAll a _ | .join a _ _ => [a]
  | _ => []

def MainCall.joins {α : Type*} : MainCall α → Option α
  | .array .joinAll a => some a
  | _ => none

/-- What `main` has made sure of for its next statement. -/
def SectionPc.Ready {α η κ : Type*} (setup : ShutdownSetup α η κ) (s : Registry α η κ)
    (task : η → WorkerPc α η) : SectionPc α η → Prop
  | .join a i h => Slots.Holds s.slots a i h ∧ (task h).marked = true
  | .clear a i h => Slots.Holds s.slots a i h
  | .destroy a _ h => (s.handle h).array = none ∧ setup.home h = a
  | .remove _ _ _ _ _ => False
  | _ => True

/-- `main` does not come to the slot of `h` in its array `a` again. -/
def SectionPc.Passed {α η : Type*} (slots : α → List (Option η)) (a : α) (h : η) :
    SectionPc α η → Prop
  | .lock .joinAll b => b ≠ a
  | .slot .joinAll b j => b = a → ∃ i<j, Slots.Holds slots b i h
  | .join b j _ => b = a → ∃ i ≤ j, Slots.Holds slots b i h
  | _ => True

namespace Locking
variable {α η κ : Type*} {setup : ShutdownSetup α η κ} {s t : Locking α η κ} {a : α} {h : η}
  {x : ThreadName η} {n calls : ℕ} {outcome : PollOutcome} {ready : Bool}
  {c : WorkerChoice α η}

/-- The arrays whose tasks are still to be joined. -/
def toJoin (s : Locking α η κ) : List α := s.main.joining ++ s.script.filterMap MainCall.joins

theorem toJoin_call {call : MainCall α} {rest : List (MainCall α)} (hpc : s.main = .call)
    (hscript : s.script = call::rest) : s.toJoin = (call::rest).filterMap MainCall.joins := by
  rw [toJoin,hpc,hscript]
  rfl

/-- A readable `done_fd` is that of a task which has marked itself done; each handle joined was one
of those, and is not come to again. -/
structure JoinInv (setup : ShutdownSetup α η κ) (s : Locking α η κ) : Prop where
  housed : Housed setup s.registry
  readable : ∀ h fd, (s.registry.handle h).doneFd = some fd → 0<(s.fds fd).counter →
    (s.task h).marked = true
  descriptor : ∀ h x fd, (s.registry.handle h).doneFd = some fd →
    (s.registry.handle x).doneFd = some fd → h = x
  main : s.main.Ready setup s.registry s.task
  arrays : s.toJoin.Nodup
  once : s.joins.Nodup
  joined : ∀ h ∈ s.joins, (s.task h).marked = true ∧
    setup.home h ∉ s.script.filterMap MainCall.joins ∧
    s.main.Passed s.registry.slots (setup.home h) h

theorem JoinInv.removing (hs : JoinInv setup s) : s.main.removing = false := by
  have hm := hs.main
  cases hmain : s.main with
  | remove => rw [hmain] at hm; exact hm.elim
  | call | lock | slot | join | clear | destroy | close | unlock | poll => rfl

/-- Steps of the others: they leave alone the array in whose section `main` is, and the handles at
home there. -/
theorem JoinInv.other (hs : JoinInv setup s) (hmain : t.main = s.main) (hscript : t.script = s.script)
    (hjoins : t.joins = s.joins) (hhoused : Housed setup t.registry)
    (hslots : ∀ a, s.main.section = some a → t.registry.slots a = s.registry.slots a)
    (harray : ∀ h, s.main.section = some (setup.home h) →
      (t.registry.handle h).array = (s.registry.handle h).array)
    (hdone : ∀ h, (t.registry.handle h).doneFd = (s.registry.handle h).doneFd)
    (hmarked : ∀ h, (s.task h).marked = true → (t.task h).marked = true)
    (hreadable : ∀ h fd, (t.registry.handle h).doneFd = some fd → 0<(t.fds fd).counter →
      (t.task h).marked = true) : JoinInv setup t := by
  have hholds : ∀ a i h, s.main.section = some a →
      (Slots.Holds t.registry.slots a i h ↔ Slots.Holds s.registry.slots a i h) := by
    intro a i h ha
    rw [Slots.Holds,Slots.Holds,hslots a ha]
  refine ⟨hhoused,hreadable,?_,?_,?_,?_,fun h hh => ?_⟩
  · intro h x fd
    rw [hdone,hdone]
    exact hs.descriptor h x fd
  · have hm := hs.main
    rw [hmain]
    cases hpc : s.main with
    | join a i h =>
      rw [hpc] at hm
      exact ⟨(hholds a i h (by rw [hpc]; rfl)).mpr hm.1,hmarked h hm.2⟩
    | clear a i h =>
      rw [hpc] at hm
      exact (hholds a i h (by rw [hpc]; rfl)).mpr hm
    | destroy a i h =>
      rw [hpc] at hm
      obtain ⟨hnone,rfl⟩ := hm
      exact ⟨(harray h (by rw [hpc]; rfl)).trans hnone,rfl⟩
    | remove => rw [hpc] at hm; exact hm.elim
    | call | lock | slot | close | unlock | poll => trivial
  · rw [toJoin,hmain,hscript]
    exact hs.arrays
  · rw [hjoins]
    exact hs.once
  · rw [hjoins] at hh
    obtain ⟨hmark,hnot,hpassed⟩ := hs.joined h hh
    rw [hmain,hscript]
    refine ⟨hmarked h hmark,hnot,?_⟩
    cases hpc : s.main with
    | lock f b =>
      rw [hpc] at hpassed
      cases f with
      | joinAll => exact hpassed
      | stopAll | pollAll | handlesDestroyAll => trivial
    | slot f b j =>
      rw [hpc] at hpassed
      cases f with
      | joinAll =>
        intro hb
        obtain ⟨i,hi,hold⟩ := hpassed hb
        exact ⟨i,hi,(hholds b i h (by rw [hpc]; rfl)).mpr hold⟩
      | stopAll | pollAll | handlesDestroyAll => trivial
    | join b j y =>
      rw [hpc] at hpassed
      intro hb
      obtain ⟨i,hi,hold⟩ := hpassed hb
      exact ⟨i,hi,(hholds b i h (by rw [hpc]; rfl)).mpr hold⟩
    | call | clear | destroy | remove | close | unlock | poll => trivial

/-- A step that touches neither handles nor `main`. -/
theorem JoinInv.congr (hs : JoinInv setup s) (hregistry : t.registry = s.registry)
    (hfds : t.fds = s.fds) (hmain : t.main = s.main) (hscript : t.script = s.script)
    (hjoins : t.joins = s.joins)
    (hmarked : ∀ h, (s.task h).marked = true → (t.task h).marked = true) : JoinInv setup t := by
  refine hs.other hmain hscript hjoins ?_ ?_ ?_ ?_ hmarked ?_
  · rw [hregistry]
    exact hs.housed
  · rw [hregistry]
    exact fun _ _ => rfl
  · rw [hregistry]
    exact fun _ _ => rfl
  · rw [hregistry]
    exact fun _ => rfl
  · rw [hregistry,hfds]
    exact fun h fd hfd hpos => hmarked h (hs.readable h fd hfd hpos)

/-- A `done_fd` that became readable is that of the task which has written it. -/
theorem signalDone_readable_of {y : η} {fd : ℕ} (hs : JoinInv setup s)
    (hfd : (s.registry.handle y).doneFd = some fd) (hpos : 0<((s.signalDone h).fds fd).counter) :
    y = h ∨ (s.task y).marked = true := by
  unfold signalDone at hpos
  split at hpos
  · rename_i own hown
    by_cases he : fd = own
    · subst he
      exact .inl (hs.descriptor y h fd hfd hown)
    · change 0<(Function.update s.fds own _ fd).counter at hpos
      rw [Function.update_of_ne he] at hpos
      exact .inr (hs.readable y fd hfd hpos)
  · exact .inr (hs.readable y fd hfd hpos)

/-- A step of `main` that does not call `pthread_join`. -/
theorem JoinInv.step (hs : JoinInv setup s) (htask : t.task = s.task) (hfds : t.fds = s.fds)
    (hjoins : t.joins = s.joins) (hhoused : Housed setup t.registry)
    (hdone : ∀ h fd, (t.registry.handle h).doneFd = some fd →
      (s.registry.handle h).doneFd = some fd)
    (hready : t.main.Ready setup t.registry t.task) (harrays : t.toJoin.Sublist s.toJoin)
    (hpassed : ∀ h ∈ s.joins, setup.home h ∉ s.script.filterMap MainCall.joins →
      s.main.Passed s.registry.slots (setup.home h) h →
      setup.home h ∉ t.script.filterMap MainCall.joins ∧
        t.main.Passed t.registry.slots (setup.home h) h) : JoinInv setup t := by
  refine ⟨hhoused,fun h fd hfd hpos => ?_,fun h x fd hh hx => ?_,hready,hs.arrays.sublist harrays,
    ?_,fun h hh => ?_⟩
  · rw [htask]
    rw [hfds] at hpos
    exact hs.readable h fd (hdone h fd hfd) hpos
  · exact hs.descriptor h x fd (hdone h fd hh) (hdone x fd hx)
  · rw [hjoins]
    exact hs.once
  · rw [hjoins] at hh
    obtain ⟨hmark,hnot,hpass⟩ := hs.joined h hh
    rw [htask]
    exact ⟨hmark,hpassed h hh hnot hpass⟩

/-- The step stays within a call. -/
theorem JoinInv.moves (hs : JoinInv setup s) (htask : t.task = s.task) (hfds : t.fds = s.fds)
    (hscript : t.script = s.script) (hjoins : t.joins = s.joins)
    (hhoused : Housed setup t.registry)
    (hdone : ∀ h fd, (t.registry.handle h).doneFd = some fd →
      (s.registry.handle h).doneFd = some fd)
    (hready : t.main.Ready setup t.registry t.task)
    (hjoining : t.main.joining.Sublist s.main.joining)
    (hpassed : ∀ a h, s.main.Passed s.registry.slots a h → t.main.Passed t.registry.slots a h) :
    JoinInv setup t := by
  refine hs.step htask hfds hjoins hhoused hdone hready ?_ fun h _ hnot hpass => ?_
  · rw [toJoin,hscript]
    exact hjoining.append_right _
  · rw [hscript]
    exact ⟨hnot,hpassed _ h hpass⟩

/-- The loop of `task_array_join_all` comes to the next slot. -/
theorem Passed.next {slots : α → List (Option η)} {b : α} {y : η} {i : ℕ}
    (hp : SectionPc.Passed slots b y (.slot .joinAll a i)) :
    SectionPc.Passed slots b y (.slot .joinAll a (i+1)) := by
  intro hb
  obtain ⟨j,hj,hold⟩ := hp hb
  exact ⟨j,hj.trans (Nat.lt_succ_self i),hold⟩

/-- `pthread_join` is called for the handle in the slot at hand, for the first time. -/
theorem JoinInv.join (hs : JoinInv setup s) {i : ℕ} (hpc : s.main = .slot .joinAll a i)
    (hi : Slots.Holds s.registry.slots a i h) (hread : s.readable h = true) :
    JoinInv setup {s.goto (.join a i h) with joins := s.joins ++ [h]} := by
  have hmarked : (s.task h).marked = true := by
    unfold Locking.readable at hread
    split at hread
    · rename_i fd hfd
      exact hs.readable h fd hfd (EventFd.pollIn_iff.mp hread)
    · cases hread
  have harrays := hs.arrays
  rw [toJoin,hpc] at harrays
  have hhome : setup.home h = a := hs.housed.home h a hi.mem
  have hnew : h ∉ s.joins := by
    intro hh
    obtain ⟨-,-,hpassed⟩ := hs.joined h hh
    rw [hpc] at hpassed
    obtain ⟨j,hj,hold⟩ := hpassed hhome.symm
    exact hj.ne (hs.housed.single h a a j i hold hi).2
  refine ⟨hs.housed,hs.readable,hs.descriptor,⟨hi,hmarked⟩,harrays,?_,fun y hy => ?_⟩
  · exact hs.once.append (List.nodup_singleton h) (List.disjoint_singleton.mpr hnew)
  · obtain hy | hy := List.mem_append.mp hy
    · obtain ⟨hmark,hnot,hpassed⟩ := hs.joined y hy
      refine ⟨hmark,hnot,fun hb => ?_⟩
      rw [hpc] at hpassed
      obtain ⟨j,hj,hold⟩ := hpassed hb
      exact ⟨j,hj.le,hold⟩
    · rw [List.mem_singleton] at hy
      subst hy
      refine ⟨hmarked,?_,fun _ => ⟨i,Nat.le_refl i,hi⟩⟩
      rw [hhome]
      exact (List.nodup_cons.mp harrays).1

variable [DecidableEq η]

/-- A task moves on, and not away from being done. -/
theorem marked_setTask {pc : WorkerPc α η} (hpc : (s.task h).marked = true → pc.marked = true)
    (y : η) (hy : (s.task y).marked = true) : ((s.setTask h pc).task y).marked = true := by
  change (Function.update s.task h pc y).marked = true
  by_cases hyh : y = h
  · subst hyh
    rw [Function.update_self]
    exact hpc hy
  · rwa [Function.update_of_ne hyh]

theorem setState_array {state : TaskState} {y : η} :
    ((s.setState h state).registry.handle y).array = (s.registry.handle y).array := by
  change (Function.update s.registry.handle h {s.registry.handle h with state := state} y).array = _
  by_cases hy : y = h
  · subst hy
    rw [Function.update_self]
  · rw [Function.update_of_ne hy]

theorem setState_doneFd {state : TaskState} {y : η} :
    ((s.setState h state).registry.handle y).doneFd = (s.registry.handle y).doneFd := by
  change (Function.update s.registry.handle h {s.registry.handle h with state := state} y).doneFd = _
  by_cases hy : y = h
  · subst hy
    rw [Function.update_self]
  · rw [Function.update_of_ne hy]

/-- An assignment to a handle's state. -/
theorem JoinInv.setState (hs : JoinInv setup s) (h : η) (state : TaskState) :
    JoinInv setup (s.setState h state) :=
  hs.other rfl rfl rfl (hs.housed.congr rfl fun _ => setState_array) (fun _ _ => rfl)
    (fun _ _ => setState_array) (fun _ => setState_doneFd) (fun _ hm => hm)
    fun y fd hfd hpos => hs.readable y fd (by rwa [←setState_doneFd]) hpos

/-- A round of the loop over the slots. -/
theorem JoinInv.visitSlot {f : ArrayFn} {i : ℕ} (hs : JoinInv setup s) (hpc : s.main = .slot f a i)
    (hi : Slots.Holds s.registry.slots a i h)
    (hn : s.visitSlot setup a i h calls outcome f = some t) : JoinInv setup t := by
  cases f with
  | stopAll =>
    simp only [Locking.visitSlot] at hn
    cases hstop : setup.onStop h with
    | some g =>
      rw [hstop] at hn
      cases hn
      exact hs.moves rfl rfl rfl rfl hs.housed (fun _ _ hfd => hfd) trivial (List.nil_sublist _)
        fun _ _ _ => trivial
    | none =>
      rw [hstop] at hn
      cases hn
      exact (hs.setState h .stopping).moves rfl rfl rfl rfl (hs.setState h .stopping).housed
        (fun _ _ hfd => hfd) trivial (List.nil_sublist _) fun _ _ _ => trivial
  | pollAll =>
    simp only [Locking.visitSlot] at hn
    cases hn
    exact hs.moves rfl rfl rfl rfl hs.housed (fun _ _ hfd => hfd) trivial (List.nil_sublist _)
      fun _ _ _ => trivial
  | joinAll =>
    simp only [Locking.visitSlot] at hn
    obtain ⟨⟨ret,revents⟩,hr,rfl⟩ := Option.map_eq_some_iff.mp hn
    split_ifs with hready
    · refine hs.join hpc hi ?_
      obtain rfl := pollReply_pos hr hready.1
      exact (List.mem_singleton.mp (pollReply_ready hr).1).symm
    · refine hs.moves rfl rfl rfl rfl hs.housed (fun _ _ hfd => hfd) trivial ?_ fun b y hp => ?_
      · rw [hpc]
        exact List.Sublist.refl _
      · rw [hpc] at hp
        exact Passed.next hp
  | handlesDestroyAll =>
    simp only [Locking.visitSlot] at hn
    cases hn
    exact hs.moves rfl rfl rfl rfl hs.housed (fun _ _ hfd => hfd) hi (List.nil_sublist _)
      fun _ _ _ => trivial

variable [DecidableEq α]

/-- A statement of a task. -/
theorem JoinInv.stepTask (hs : JoinInv setup s) (ha : ArrayLocks s)
    (hn : s.stepTask setup h c = some t) : JoinInv setup t := by
  unfold Locking.stepTask at hn
  split at hn
  · cases hn
    exact hs.congr rfl rfl rfl rfl rfl fun _ hm => hm
  · rename_i o hpc
    cases hn
    exact hs.congr rfl rfl rfl rfl rfl (marked_setTask (by rw [hpc]; nofun))
  · rename_i hpc
    cases hn
    exact hs.congr rfl rfl rfl rfl rfl (marked_setTask (by rw [hpc]; nofun))
  · rename_i o hpc
    obtain ⟨u,hu,rfl⟩ := Option.map_eq_some_iff.mp hn
    obtain ⟨-,rfl⟩ := acquire_eq hu
    exact hs.congr rfl rfl rfl rfl rfl (marked_setTask (by rw [hpc]; nofun))
  · rename_i o hpc
    split_ifs at hn with ho
    cases hn
    have hedit := ArrayOp.run_edits hs.housed ho
    have hmarked : ∀ y, (s.task y).marked = true →
        ((s.setTask h (.op .unlock o)).task y).marked = true :=
      marked_setTask (by rw [hpc]; nofun)
    -- the section of the task is not the one of `main`
    have hother : ∀ b, s.main.section = some b → b ≠ o.array := by
      rintro b hb rfl
      have htask : s.sectionOf (.task h) = some o.array := by
        change (s.task h).section = some o.array
        rw [hpc]
        rfl
      have hmain : s.sectionOf .main = some o.array := hb
      cases (ha o.array).exclusive hmain htask
    exact hs.other rfl rfl rfl hedit.housed (fun b hb => hedit.slots b (hother b hb))
      (fun y hy => hedit.array y (hother _ hy)) hedit.doneFd hmarked
      fun y fd hfd hpos => hmarked y (hs.readable y fd (by rwa [←hedit.doneFd]) hpos)
  · rename_i o hpc
    cases hn
    exact hs.congr rfl rfl rfl rfl rfl (marked_setTask (by rw [hpc]; nofun))
  · rename_i hpc
    cases hn
    exact (hs.setState h .stopped).congr rfl rfl rfl rfl rfl
      (marked_setTask (by change (s.task h).marked = true → _; rw [hpc]; nofun))
  · rename_i hpc
    cases hn
    have hmarked : ∀ y, (s.task y).marked = true → ((s.setTask h .tail).task y).marked = true :=
      marked_setTask fun _ => rfl
    rw [signalDone_eq]
    refine hs.other rfl rfl rfl hs.housed (fun _ _ => rfl) (fun _ _ => rfl) (fun _ => rfl) hmarked
      fun y fd hfd hpos => ?_
    obtain rfl | hm := signalDone_readable_of hs hfd hpos
    · change (Function.update s.task y .tail y).marked = true
      rw [Function.update_self]
      rfl
    · exact hmarked y hm
  · cases hn
    exact hs.congr rfl rfl rfl rfl rfl fun _ hm => hm
  · rename_i hpc
    cases hn
    exact hs.congr rfl rfl rfl rfl rfl (marked_setTask fun _ => rfl)
  · cases hn

theorem JoinInv.stepLog (hs : JoinInv setup s) (hn : s.stepLog n x = some t) : JoinInv setup t := by
  unfold Locking.stepLog at hn
  by_cases hsend : (s.logger x).sending = true
  · rw [if_pos hsend] at hn
    cases hn
    exact hs.congr rfl rfl rfl rfl rfl fun _ hm => hm
  · rw [if_neg hsend] at hn
    split_ifs at hn
    obtain ⟨u,hu,rfl⟩ := Option.map_eq_some_iff.mp hn
    obtain ⟨-,rfl⟩ := acquire_eq hu
    exact hs.congr rfl rfl rfl rfl rfl fun _ hm => hm

/-- The log task has nothing to do with handles. -/
theorem JoinInv.stepLogTask (hs : JoinInv setup s) (hn : s.stepLogTask ready = some t) :
    JoinInv setup t := by
  cases hpc : s.log with
  | receive drain =>
    simp only [Locking.stepLogTask,hpc] at hn
    obtain ⟨u,hu,rfl⟩ := Option.map_eq_some_iff.mp hn
    obtain ⟨-,rfl⟩ := acquire_eq hu
    exact hs.congr rfl rfl rfl rfl rfl fun _ hm => hm
  | loop =>
    simp only [Locking.stepLogTask,hpc] at hn
    split_ifs at hn <;> cases hn <;> exact hs.congr rfl rfl rfl rfl rfl fun _ hm => hm
  | receiving drain =>
    simp only [Locking.stepLogTask,hpc] at hn
    by_cases hempty : s.queued = 0
    · rw [if_pos hempty] at hn
      cases hn
      exact hs.congr rfl rfl rfl rfl rfl fun _ hm => hm
    · rw [if_neg hempty] at hn
      cases hn
      exact hs.congr rfl rfl rfl rfl rfl fun _ hm => hm
  | poll | drain | done =>
    simp only [Locking.stepLogTask,hpc] at hn
    cases hn
    exact hs.congr rfl rfl rfl rfl rfl fun _ hm => hm
  | ended =>
    simp only [Locking.stepLogTask,hpc] at hn
    cases hn

/-- The next call of `main`'s script. -/
theorem JoinInv.stepScript (hs : JoinInv setup s) (hpc : s.main = .call)
    (hn : s.stepMain setup calls outcome = some t) : JoinInv setup t := by
  simp only [Locking.stepMain,hpc] at hn
  split at hn
  · cases hn
  · rename_i f a rest hscript
    cases hn
    refine hs.step rfl rfl rfl hs.housed (fun _ _ hfd => hfd) trivial ?_
      fun h hh hnot hpass => ?_
    · rw [toJoin_call hpc hscript]
      cases f <;> exact List.Sublist.refl _
    · rw [hscript] at hnot
      cases f with
      | joinAll =>
        exact ⟨List.not_mem_of_not_mem_cons hnot,fun he => List.ne_of_not_mem_cons hnot he.symm⟩
      | stopAll | pollAll | handlesDestroyAll => exact ⟨hnot,trivial⟩
  · rename_i a rest hscript
    cases hn
    refine hs.step rfl rfl rfl hs.housed.arrayDestroy (fun _ _ hfd => hfd) trivial ?_
      fun h hh hnot hpass => ?_
    · rw [toJoin_call hpc hscript]
      exact List.Sublist.refl _
    · rw [hscript] at hnot
      exact ⟨hnot,trivial⟩
  · rename_i rest hscript
    cases hn
    refine hs.step rfl rfl rfl hs.housed (fun _ _ hfd => hfd) trivial ?_ fun h hh hnot hpass => ?_
    · rw [toJoin_call hpc hscript]
      exact List.Sublist.refl _
    · rw [hscript] at hnot
      exact ⟨hnot,trivial⟩

/-- A statement of `main`. -/
theorem JoinInv.stepMain (hs : JoinInv setup s)
    (hn : s.stepMain setup calls outcome = some t) : JoinInv setup t := by
  cases hpc : s.main with
  | call => exact hs.stepScript hpc hn
  | lock f a =>
    simp only [Locking.stepMain,hpc] at hn
    obtain ⟨u,hu,rfl⟩ := Option.map_eq_some_iff.mp hn
    obtain ⟨-,rfl⟩ := acquire_eq hu
    refine hs.moves rfl rfl rfl rfl hs.housed (fun _ _ hfd => hfd) trivial ?_ fun b y hp => ?_
    · rw [hpc]
      cases f <;> exact List.Sublist.refl _
    · rw [hpc] at hp
      cases f with
      | joinAll => exact fun hb => absurd hb hp
      | stopAll | pollAll | handlesDestroyAll => trivial
  | slot f a i =>
    simp only [Locking.stepMain,hpc] at hn
    split at hn
    · cases hn
      exact hs.moves rfl rfl rfl rfl hs.housed (fun _ _ hfd => hfd) trivial (List.nil_sublist _)
        fun _ _ _ => trivial
    · cases hn
      refine hs.moves rfl rfl rfl rfl hs.housed (fun _ _ hfd => hfd) trivial ?_ fun b y hp => ?_
      · rw [hpc]
        cases f <;> exact List.Sublist.refl _
      · rw [hpc] at hp
        cases f with
        | joinAll => exact Passed.next hp
        | stopAll | pollAll | handlesDestroyAll => trivial
    · rename_i h hi
      exact hs.visitSlot hpc hi hn
  | join a i h =>
    simp only [Locking.stepMain,hpc] at hn
    split_ifs at hn
    cases hn
    refine hs.moves rfl rfl rfl rfl hs.housed (fun _ _ hfd => hfd) trivial ?_ fun b y hp => ?_
    · rw [hpc]
      exact List.Sublist.refl _
    · rw [hpc] at hp
      intro hb
      obtain ⟨j,hj,hold⟩ := hp hb
      exact ⟨j,Nat.lt_succ_of_le hj,hold⟩
  | clear a i h =>
    have hi := hs.main
    rw [hpc] at hi
    simp only [Locking.stepMain,hpc] at hn
    cases hn
    refine hs.moves rfl rfl rfl rfl (hs.housed.clear hi)
      (fun x fd hfd => by rwa [clear_doneFd] at hfd) ⟨?_,hs.housed.home h a hi.mem⟩
      (List.nil_sublist _) fun _ _ _ => trivial
    exact congrArg ArrayHandle.array clear_handle_self
  | destroy a i h =>
    have hnone := hs.main
    rw [hpc] at hnone
    simp only [Locking.stepMain,hpc,hnone.1] at hn
    cases hn
    exact hs.moves rfl rfl rfl rfl hs.housed (fun _ _ hfd => hfd) trivial (List.nil_sublist _)
      fun _ _ _ => trivial
  | remove =>
    have hno := hs.main
    rw [hpc] at hno
    exact hno.elim
  | close a i h =>
    simp only [Locking.stepMain,hpc] at hn
    cases hn
    refine hs.moves rfl rfl rfl rfl
      (hs.housed.congr closeHandle_slots fun _ => closeHandle_array) (fun x fd hfd => ?_) trivial
      (List.nil_sublist _) fun _ _ _ => trivial
    by_cases hx : x = h
    · subst hx
      rw [closeHandle_doneFd_self] at hfd
      cases hfd
    · rwa [closeHandle_doneFd_other hx] at hfd
  | unlock f a =>
    simp only [Locking.stepMain,hpc] at hn
    cases f <;> cases hn <;>
      exact hs.moves rfl rfl rfl rfl hs.housed (fun _ _ hfd => hfd) trivial (List.nil_sublist _)
        fun _ _ _ => trivial
  | poll slots =>
    simp only [Locking.stepMain,hpc] at hn
    obtain ⟨r,-,hr⟩ := Option.bind_eq_some_iff.mp hn
    split_ifs at hr
    cases hr
    exact hs.moves rfl rfl rfl rfl hs.housed (fun _ _ hfd => hfd) trivial (List.nil_sublist _)
      fun _ _ _ => trivial

end Locking

end TTK4145.Rtsystem
