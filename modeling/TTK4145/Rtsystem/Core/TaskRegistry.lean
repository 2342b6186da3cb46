import TTK4145.Rtsystem.Core.TaskArray

/-! The slots of all task arrays and the `array` fields of all handles agree after any sequence of
calls, and no slot points to a destroyed handle. -/
namespace TTK4145.Rtsystem
open Lib
variable {α η κ : Type*} {s t : Registry α η κ} {a b : α} {h x : η} {i : ℕ}

/-- A handle stands in at most one slot, and points to the array of that slot. -/
structure Registered (s : Registry α η κ) : Prop where
  single : Slots.Single s.slots
  pointer : ∀ h a, (s.handle h).array = some a ↔ some h ∈ s.slots a

theorem Registered.array_none (hs : Registered s) :
    (s.handle h).array = none ↔ Slots.Absent s.slots h := by
  rw [Option.eq_none_iff_forall_ne_some]
  exact forall_congr' fun a => not_congr (hs.pointer h a)

/-- Fields of a handle other than `array` do not matter. -/
theorem Registered.congr (hs : Registered s) (hslots : t.slots = s.slots)
    (harray : ∀ h, (t.handle h).array = (s.handle h).array) : Registered t := by
  refine ⟨?_,fun h a => ?_⟩
  · rw [hslots]
    exact hs.single
  · rw [hslots,harray]
    exact hs.pointer h a

variable [DecidableEq η]

@[simp] theorem closeHandle_slots : (closeHandle h s).slots = s.slots := by
  unfold closeHandle
  cases (s.handle h).doneFd <;> rfl

@[simp] theorem closeHandle_array : ((closeHandle h s).handle x).array = (s.handle x).array := by
  unfold closeHandle
  cases hfd : (s.handle h).doneFd with
  | none =>
    by_cases hx : x = h
    · subst hx
      simp [Registry.setHandle]
    · simp [Registry.setHandle,hx]
  | some fd =>
    by_cases hx : x = h
    · subst hx
      simp [Registry.setHandle,Registry.effect]
    · simp [Registry.setHandle,Registry.effect,hx]

theorem Registered.closeHandle (hs : Registered s) : Registered (closeHandle h s) :=
  hs.congr closeHandle_slots fun _ => closeHandle_array

variable [DecidableEq α] {op : RegistryOp α η} {tr : List (Registry α η κ × RegistryOp α η)}

/-- A call fails with -1 exactly under a condition and then changes nothing; a call that returns 0
changes one slot of the array, in which the handle stood, or stands now. -/
structure ArrayCall.Meets (s : Registry α η κ) (c : ArrayCall α η κ) (a : α) (fails : Prop)
    (here : ℕ → Prop) : Prop where
  failure : c.ret = -1 ↔ fails
  success : c.ret = 0 ↔ ¬fails
  unchanged : c.ret = -1 → c.registry = s
  changed : c.ret = 0 → ∃ i, here i ∧ Slots.OneSlot s.slots c.registry.slots a i

/-- The handles that a call destroys. -/
def RegistryOp.Destroys (s : Registry α η κ) : RegistryOp α η → η → Prop
  | .handleDestroy h,x => x = h
  | .handlesDestroyAll a,x => some x ∈ s.slots a
  | _,_ => False

/-- A call destroyed the handle and no later one added it. -/
def Destroyed (tr : List (Registry α η κ × RegistryOp α η)) (x : η) : Prop :=
  ∃ tr₁ p tr₂, tr = tr₁ ++ p::tr₂ ∧ p.2.Destroys p.1 x ∧
    ∀ q ∈ tr₂, ∀ a, q.2 = .add a x → (q.2.call q.1).ret ≠ 0

theorem Registered.put (hs : Registered s) (ha : (s.handle h).array = none)
    (hi : (s.slots a)[i]? = some none) : Registered (s.put a i h) := by
  have habs := hs.array_none.mp ha
  refine ⟨hs.single.put habs hi,fun x b => ?_⟩
  have hmem : some x ∈ (s.put a i h).slots b ↔ b = a ∧ x = h ∨ some x ∈ s.slots b := by
    simp only [Slots.mem_iff_holds,Registry.put,Slots.holds_put hi,exists_or]
    simp
  rw [hmem,←hs.pointer]
  by_cases hx : x = h
  · subst hx
    simp [Registry.put,ha,eq_comm]
  · simp [Registry.put,hx]

theorem Registered.clear (hs : Registered s) (hi : Slots.Holds s.slots a i h) :
    Registered (s.clear a i h) := by
  refine ⟨hs.single.clear hi,fun x b => ?_⟩
  have hmem : some x ∈ (s.clear a i h).slots b ↔ some x ∈ s.slots b ∧ x ≠ h := by
    simp only [Slots.mem_iff_holds,Registry.clear,Slots.holds_clear hi]
    constructor
    · rintro ⟨j,hj,hne⟩
      refine ⟨⟨j,hj⟩,?_⟩
      rintro rfl
      exact hne (hs.single x b a j i hj hi)
    · rintro ⟨⟨j,hj⟩,hx⟩
      refine ⟨j,hj,?_⟩
      rintro ⟨rfl,rfl⟩
      exact hx (hj.unique hi)
  rw [hmem,←hs.pointer]
  by_cases hx : x = h
  · subst hx
    simp [Registry.clear]
  · simp [Registry.clear,hx]

theorem taskArrayAdd_cases (a : α) (h : η) (s : Registry α η κ) :
    none ∉ s.slots a ∧ (taskArrayAdd a h s).ret = -1 ∧ (taskArrayAdd a h s).registry = s ∨
    ∃ i, (s.slots a)[i]? = some none ∧ (taskArrayAdd a h s).ret = 0 ∧
      (taskArrayAdd a h s).registry = s.put a i h := by
  unfold taskArrayAdd
  cases hf : Slots.firstSlot (s.slots a) none with
  | none => exact .inl ⟨Slots.firstSlot_eq_none.mp hf,rfl,rfl⟩
  | some i => exact .inr ⟨i,Slots.firstSlot_get hf,rfl,rfl⟩

theorem taskArrayRemove_cases (a : α) (h : η) (s : Registry α η κ) :
    some h ∉ s.slots a ∧ (taskArrayRemove a h s).ret = -1 ∧ (taskArrayRemove a h s).registry = s ∨
    ∃ i, Slots.Holds s.slots a i h ∧ (taskArrayRemove a h s).ret = 0 ∧
      (taskArrayRemove a h s).registry = s.clear a i h := by
  unfold taskArrayRemove
  cases hf : Slots.firstSlot (s.slots a) (some h) with
  | none => exact .inl ⟨Slots.firstSlot_eq_none.mp hf,rfl,rfl⟩
  | some i => exact .inr ⟨i,Slots.firstSlot_get hf,rfl,rfl⟩

theorem Registered.handleDestroy (hs : Registered s) :
    Registered (taskHandleDestroy h s).registry ∧
      Slots.Within (taskHandleDestroy h s).registry.slots s.slots ∧
      Slots.Absent (taskHandleDestroy h s).registry.slots h := by
  simp only [taskHandleDestroy,closeHandle_slots]
  cases ha : (s.handle h).array with
  | none => exact ⟨hs.closeHandle,fun _ _ _ => id,hs.array_none.mp ha⟩
  | some a =>
    simp only
    obtain ⟨hm,-⟩ | ⟨i,hi,-,hr⟩ := taskArrayRemove_cases a h s
    · exact absurd ((hs.pointer h a).mp ha) hm
    · rw [hr]
      exact ⟨(hs.clear hi).closeHandle,Slots.within_clear hi,hs.single.absent_clear hi⟩

/-- The slot is empty afterwards, and no other one gained a handle. -/
theorem Registered.destroySlot {c : ArrayCall α η κ} (hs : Registered c.registry) (a : α) (i : ℕ) :
    Registered (destroySlot a c i).registry ∧
      Slots.Within (destroySlot a c i).registry.slots c.registry.slots ∧
      ∀ x, ¬Slots.Holds (destroySlot a c i).registry.slots a i x := by
  unfold Rtsystem.destroySlot
  split
  · rename_i h hi
    have key : ∀ s : Registry α η κ, s.slots = c.registry.slots → s.handle = c.registry.handle →
        Registered (taskHandleDestroy h (s.clear a i h)).registry ∧
          Slots.Within (taskHandleDestroy h (s.clear a i h)).registry.slots c.registry.slots ∧
          ∀ x, ¬Slots.Holds (taskHandleDestroy h (s.clear a i h)).registry.slots a i x := by
      intro s hslots hhandle
      have hreg : Registered s := hs.congr hslots (fun x => by rw [hhandle])
      rw [←hslots] at hi ⊢
      obtain ⟨hr,hw,-⟩ := (hreg.clear hi).handleDestroy (h := h)
      refine ⟨hr,hw.trans (Slots.within_clear hi),fun x hx => ?_⟩
      exact ((Slots.holds_clear hi).mp (hw x a i hx)).2 ⟨rfl,rfl⟩
    cases (c.registry.handle h).onCleanup with
    | none => exact key _ rfl rfl
    | some f => exact key _ rfl rfl
  · rename_i hne
    exact ⟨hs,fun _ _ _ => id,fun x hx => hne x hx⟩

/-- The loop over the indices `is`: each of these slots is empty behind it. -/
theorem Registered.destroySlots (a : α) (is : List ℕ) {c : ArrayCall α η κ}
    (hs : Registered c.registry) :
    Registered (is.foldl (Rtsystem.destroySlot a) c).registry ∧
      Slots.Within (is.foldl (Rtsystem.destroySlot a) c).registry.slots c.registry.slots ∧
      ∀ i ∈ is, ∀ x, ¬Slots.Holds (is.foldl (Rtsystem.destroySlot a) c).registry.slots a i x := by
  induction is generalizing c with
  | nil => exact ⟨hs,fun _ _ _ => id,fun i hi => by cases hi⟩
  | cons i is ih =>
    obtain ⟨hr,hw,hempty⟩ := hs.destroySlot a i
    obtain ⟨hr',hw',hempty'⟩ := ih hr
    refine ⟨hr',hw'.trans hw,fun j hj x hx => ?_⟩
    cases hj with
    | head => exact hempty x (hw' x a i hx)
    | tail _ hj => exact hempty' j hj x hx

theorem Registered.handlesDestroyAll (hs : Registered s) (a : α) :
    Registered (taskArrayHandlesDestroyAll a s).registry ∧
      Slots.Within (taskArrayHandlesDestroyAll a s).registry.slots s.slots ∧
      ∀ x, some x ∈ s.slots a → Slots.Absent (taskArrayHandlesDestroyAll a s).registry.slots x := by
  obtain ⟨hr,hw,hempty⟩ := Registered.destroySlots a (List.range (s.slots a).length)
    (c := ⟨0,[],s⟩) hs
  refine ⟨hr,hw,fun x hx b hb => ?_⟩
  obtain ⟨i,hi⟩ := Slots.mem_iff_holds.mp hx
  obtain ⟨j,hj⟩ := Slots.mem_iff_holds.mp hb
  obtain ⟨rfl,rfl⟩ := hs.single x b a j i (hw x b j hj) hi
  exact hempty j (List.mem_range.mpr (List.getElem?_eq_some_iff.mp hi).1) x hj

theorem Registered.call (hs : Registered s) (hop : op.Allowed s) :
    Registered (op.call s).registry := by
  cases op with
  | add a h =>
    obtain ⟨-,-,hr⟩ | ⟨i,hi,-,hr⟩ := taskArrayAdd_cases a h s
    · rwa [RegistryOp.call,hr]
    · rw [RegistryOp.call,hr]
      exact hs.put hop hi
  | remove a h =>
    obtain ⟨-,-,hr⟩ | ⟨i,hi,-,hr⟩ := taskArrayRemove_cases a h s
    · rwa [RegistryOp.call,hr]
    · rw [RegistryOp.call,hr]
      exact hs.clear hi
  | handleDestroy h => exact hs.handleDestroy.1
  | handlesDestroyAll a => exact (hs.handlesDestroyAll a).1

/-- Only a successful addition brings a handle into the arrays. -/
theorem Registered.absent_call (hs : Registered s) (hx : Slots.Absent s.slots x)
    (hop : ∀ a, op = .add a x → (op.call s).ret ≠ 0) :
    Slots.Absent (op.call s).registry.slots x := by
  cases op with
  | add a h =>
    obtain ⟨-,-,hr⟩ | ⟨i,hi,hret,hr⟩ := taskArrayAdd_cases a h s
    · rwa [RegistryOp.call,hr]
    · have hne : x ≠ h := by
        rintro rfl
        exact hop a rfl hret
      rw [RegistryOp.call,hr]
      intro b hb
      obtain ⟨j,hj⟩ := Slots.mem_iff_holds.mp hb
      obtain ⟨-,-,he⟩ | hj := (Slots.holds_put hi).mp hj
      · exact hne he
      · exact hx b hj.mem
  | remove a h =>
    obtain ⟨-,-,hr⟩ | ⟨i,hi,-,hr⟩ := taskArrayRemove_cases a h s
    · rwa [RegistryOp.call,hr]
    · rw [RegistryOp.call,hr]
      exact (Slots.within_clear hi).absent hx
  | handleDestroy h => exact hs.handleDestroy.2.1.absent hx
  | handlesDestroyAll a => exact (hs.handlesDestroyAll a).2.1.absent hx

theorem Registered.destroys (hs : Registered s) (hx : op.Destroys s x) :
    Slots.Absent (op.call s).registry.slots x := by
  cases op with
  | add a h => cases hx
  | remove a h => cases hx
  | handleDestroy h =>
    cases hx
    exact hs.handleDestroy.2.2
  | handlesDestroyAll a => exact (hs.handlesDestroyAll a).2.2 x hx

theorem taskArrayAdd_meets (a : α) (h : η) (s : Registry α η κ) :
    (taskArrayAdd a h s).Meets s a (none ∉ s.slots a)
      (Slots.Holds (taskArrayAdd a h s).registry.slots a · h) := by
  obtain ⟨hm,hret,hr⟩ | ⟨i,hi,hret,hr⟩ := taskArrayAdd_cases a h s
  · refine ⟨?_,?_,fun _ => hr,?_⟩ <;> rw [hret] <;> simp [hm]
  · have hm : none ∈ s.slots a := List.mem_iff_getElem?.mpr ⟨i,hi⟩
    refine ⟨?_,?_,?_,fun _ => ⟨i,?_,?_⟩⟩
    · simp [hret,hm]
    · simp [hret,hm]
    · simp [hret]
    · rw [hr]
      exact (Slots.holds_put hi).mpr (.inl ⟨rfl,rfl,rfl⟩)
    · rw [hr]
      exact Slots.oneSlot_setSlot hi (by simp)

theorem taskArrayRemove_meets (a : α) (h : η) (s : Registry α η κ) :
    (taskArrayRemove a h s).Meets s a (some h ∉ s.slots a) (Slots.Holds s.slots a · h) := by
  obtain ⟨hm,hret,hr⟩ | ⟨i,hi,hret,hr⟩ := taskArrayRemove_cases a h s
  · refine ⟨?_,?_,fun _ => hr,?_⟩ <;> rw [hret] <;> simp [hm]
  · refine ⟨?_,?_,?_,fun _ => ⟨i,hi,?_⟩⟩
    · simp [hret,hi.mem]
    · simp [hret,hi.mem]
    · simp [hret]
    · rw [hr]
      exact Slots.oneSlot_setSlot hi (by simp)

theorem registry_next (h : registry.next s op = some t) :
    op.Allowed s ∧ t = (op.call s).registry := by
  simp only [registry] at h
  split_ifs at h with hop
  cases h
  exact ⟨hop,rfl⟩

theorem Registered.run (run : Exec registry tr s) : Registered s := by
  induction run with
  | init h =>
    refine ⟨fun x a b i j hx => ?_,fun x a => ?_⟩
    · cases h.1 a _ hx.mem
    · rw [h.2 x]
      exact ⟨(by cases ·),fun hm => by cases h.1 a _ hm⟩
  | step run h ih =>
    obtain ⟨hop,rfl⟩ := registry_next h
    exact ih.call hop

theorem destroyed_snoc {p : Registry α η κ × RegistryOp α η} (h : Destroyed (tr ++ [p]) x) :
    p.2.Destroys p.1 x ∨ Destroyed tr x ∧ ∀ a, p.2 = .add a x → (p.2.call p.1).ret ≠ 0 := by
  obtain ⟨tr₁,q,tr₂,he,hq,hlater⟩ := h
  obtain rfl | ⟨tr₃,r,rfl⟩ := List.eq_nil_or_concat' tr₂
  · obtain ⟨-,he⟩ := List.append_inj' he rfl
    cases he
    exact .inl hq
  · rw [←List.cons_append,←List.append_assoc] at he
    obtain ⟨rfl,hp⟩ := List.append_inj' he rfl
    cases hp
    exact .inr ⟨⟨tr₁,q,tr₃,rfl,hq,fun r hr => hlater r (by simp [hr])⟩,hlater p (by simp)⟩

theorem Destroyed.absent (run : Exec registry tr s) (h : Destroyed tr x) :
    Slots.Absent s.slots x := by
  induction run with
  | init =>
    obtain ⟨tr₁,q,tr₂,he,-⟩ := h
    simp at he
  | step run hn ih =>
    obtain ⟨hop,rfl⟩ := registry_next hn
    obtain hx | ⟨hx,hadd⟩ := destroyed_snoc h
    · exact (Registered.run run).destroys hx
    · exact (Registered.run run).absent_call (ih hx) hadd

/-- After any sequence of calls: a handle occupies at most one slot, points to the array that holds
it, addition and removal fail only for the full and the missing slot, and no slot points to a
destroyed handle. -/
theorem registry_consistent (run : Exec registry tr s) :
    Slots.Single s.slots ∧
    (∀ h a, (s.handle h).array = some a ↔ some h ∈ s.slots a) ∧
    (∀ a h, (taskArrayAdd a h s).Meets s a (none ∉ s.slots a)
      (Slots.Holds (taskArrayAdd a h s).registry.slots a · h)) ∧
    (∀ a h, (taskArrayRemove a h s).Meets s a (some h ∉ s.slots a) (Slots.Holds s.slots a · h)) ∧
    ∀ h, Destroyed tr h → Slots.Absent s.slots h := by
  have hs := Registered.run run
  exact ⟨hs.single,hs.pointer,fun a h => taskArrayAdd_meets a h s,
    fun a h => taskArrayRemove_meets a h s,fun h hd => hd.absent run⟩

/-- Two arrays of one slot each and nameless handles without callbacks. -/
def twoArrays : Registry (Fin 2) (Fin 2) Empty :=
  ⟨fun _ => [none],fun _ => ⟨[],none,some 3,.init,none⟩,[]⟩

/-- The second handle takes the slot of the first after its destruction. -/
def reuseOps : List (RegistryOp (Fin 2) (Fin 2)) :=
  [.add 0 0,.add 0 1,.remove 1 0,.handleDestroy 0,.add 0 1]

theorem registry_consistent_reuse : ∃ s, registry.run twoArrays reuseOps = some s ∧
    Slots.Single s.slots ∧ Destroyed (registry.trace twoArrays reuseOps) 0 ∧
    Slots.Absent s.slots 0 := by
  have hrun : ∃ s, registry.run twoArrays reuseOps = some s :=
    Option.isSome_iff_exists.mp (by decide)
  obtain ⟨s,hs⟩ := hrun
  have hspec := registry_consistent (Exec.of_run (by simp [registry,twoArrays]) hs)
  have hd : Destroyed (registry.trace twoArrays reuseOps) 0 :=
    ⟨(registry.trace twoArrays reuseOps).take 3,(registry.trace twoArrays reuseOps)[3],
      (registry.trace twoArrays reuseOps).drop 4,rfl,rfl,by decide⟩
  exact ⟨s,hs,hspec.1,hd,hspec.2.2.2.2 0 hd⟩

end TTK4145.Rtsystem
