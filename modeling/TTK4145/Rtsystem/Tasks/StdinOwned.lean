import TTK4145.Lib.Ledger
import TTK4145.Rtsystem.Tasks.StdinShutdown

/-! What `main` owns while `stdin_task_init` and the shutdown of its task run. -/
namespace TTK4145.Rtsystem
open Lib ResourceEvent

/-- The events so far are in order and leave `m`, and a new resource is none of these. -/
structure Owns (m : Multiset StdinResource) (s : StdinWorld) : Prop where
  owned : owned s.events = some m
  below : ∀ r ∈ m, r.id<s.fresh

section Owns
variable {s t : StdinWorld} {m : Multiset StdinResource} {r : StdinResource}
  {e : ResourceEvent MutexName StdinResource} {p n l : ℕ} {cells : List Bool}

theorem Owns.congr (h : Owns m s) (hevents : t.events = s.events) (hfresh : s.fresh ≤ t.fresh) :
    Owns m t :=
  ⟨by rw [hevents]; exact h.owned,fun r hr => Nat.lt_of_lt_of_le (h.below r hr) hfresh⟩

/-- An event of a mutex. -/
theorem Owns.mutex (h : Owns m s) (he : charge m e = some m) : Owns m (s.event e) := by
  refine ⟨?_,h.below⟩
  rw [StdinWorld.event,owned_snoc,h.owned]
  exact he

theorem Owns.acquire (h : Owns m s) (hr : r.id = s.fresh)
    (hevents : t.events = s.events ++ [.acquire r]) (hfresh : t.fresh = s.fresh+1) :
    Owns (r ::ₘ m) t := by
  have hnew : r ∉ m := fun hm => by
    have := h.below r hm
    omega
  refine ⟨by rw [hevents]; exact owned_acquire h.owned hnew,fun q hq => ?_⟩
  obtain rfl | hq := Multiset.mem_cons.mp hq
  · omega
  · have := h.below q hq
    omega

theorem Owns.release (h : Owns (r ::ₘ m) s) : Owns m (s.event (.release r)) :=
  ⟨owned_release h.owned,fun q hq => h.below q (Multiset.mem_cons_of_mem hq)⟩

theorem Owns.log {c : LogCall} (h : Owns m s) : Owns m (s.log c) :=
  ((h.mutex rfl : Owns m (s.event (.lock .logQueue))).mutex (e := .unlock .logQueue) rfl).congr rfl
    (Nat.le_refl _)

theorem Owns.closeDone (h : Owns (.fd n ::ₘ m) s) (hfd : s.handle.doneFd = some n) :
    Owns m s.closeDone := by
  rw [StdinWorld.closeDone]
  split
  · rename_i fd hn
    cases hfd.symm.trans hn
    exact h.release.congr rfl (Nat.le_refl _)
  · rename_i hn
    cases hfd.symm.trans hn

theorem Owns.freeLine (h : Owns (.block l ::ₘ m) s) (hl : s.line = some l) : Owns m s.freeLine := by
  simp only [StdinWorld.freeLine,hl]
  exact h.release.congr rfl (Nat.le_refl _)

theorem Owns.taskArrayDestroy (h : Owns (.block p ::ₘ m) s) (hs : s.slots = some (p,cells)) :
    Owns m s.taskArrayDestroy := by
  have hd : Owns (.block p ::ₘ m) (s.event (.destroy .taskArray)) := h.mutex rfl
  have hf : Owns m (s.event (.destroy .taskArray)).freeSlots := by
    have hslots : (s.event (.destroy .taskArray)).slots = some (p,cells) := hs
    simp only [StdinWorld.freeSlots,hslots]
    exact hd.release.congr rfl (Nat.le_refl _)
  exact hf.log

/-- An array without slots has nothing to be freed. -/
theorem Owns.taskArrayDestroy_empty (h : Owns m s) (hs : s.slots = none) :
    Owns m s.taskArrayDestroy := by
  have hd : Owns m (s.event (.destroy .taskArray)) := h.mutex rfl
  have hf : Owns m (s.event (.destroy .taskArray)).freeSlots := by
    have hslots : (s.event (.destroy .taskArray)).slots = none := hs
    simp only [StdinWorld.freeSlots,hslots]
    exact hd.congr rfl (Nat.le_refl _)
  exact hf.log

theorem Owns.taskArrayAdd (h : Owns m s) : Owns m s.taskArrayAdd.2 := by
  have hl : Owns m (s.event (.lock .taskArray)) := h.mutex rfl
  simp only [StdinWorld.taskArrayAdd]
  split
  · exact Owns.log (Owns.mutex (hl.congr rfl (Nat.le_refl _)) rfl)
  · exact (hl.mutex rfl).log

theorem Owns.taskArrayRemove (h : Owns m s) : Owns m s.taskArrayRemove := by
  have hl : Owns m (s.event (.lock .taskArray)) := h.mutex rfl
  simp only [StdinWorld.taskArrayRemove]
  split
  · exact Owns.log (Owns.mutex (hl.congr rfl (Nat.le_refl _)) rfl)
  · exact (hl.mutex rfl).log

@[simp] theorem taskArrayRemove_statics :
    s.taskArrayRemove.handle.doneFd = s.handle.doneFd ∧ s.taskArrayRemove.line = s.line := by
  simp only [StdinWorld.taskArrayRemove]
  split <;> exact ⟨rfl,rfl⟩

theorem taskArrayRemove_slots (hs : s.slots = some (p,cells)) :
    ∃ cells', s.taskArrayRemove.slots = some (p,cells') := by
  simp only [StdinWorld.taskArrayRemove]
  split
  · exact ⟨_,congrArg (Option.map _) hs⟩
  · exact ⟨cells,hs⟩

@[simp] theorem closeDone_slots : s.closeDone.slots = s.slots := by
  unfold StdinWorld.closeDone
  split <;> rfl

theorem taskHandleDestroy_slots (hs : s.slots = some (p,cells)) :
    ∃ cells', s.taskHandleDestroy.slots = some (p,cells') := by
  change ∃ cells', (if s.handle.array then s.taskArrayRemove else s).closeDone.slots = some (p,cells')
  rw [closeDone_slots]
  split_ifs
  · exact taskArrayRemove_slots hs
  · exact ⟨cells,hs⟩

theorem Owns.taskHandleDestroy (h : Owns (.fd n ::ₘ m) s) (hfd : s.handle.doneFd = some n) :
    Owns m s.taskHandleDestroy := by
  have hc : Owns m (if s.handle.array then s.taskArrayRemove else s).closeDone := by
    split_ifs
    · exact h.taskArrayRemove.closeDone (taskArrayRemove_statics.1.trans hfd)
    · exact h.closeDone hfd
  exact Owns.log (hc.congr rfl (Nat.le_refl _))

theorem Owns.undo (h : Owns (.fd n ::ₘ .block p ::ₘ m) s) (hfd : s.handle.doneFd = some n)
    (hs : s.slots = some (p,cells)) : Owns m s.undo.2 := by
  obtain ⟨cells',hs'⟩ := taskHandleDestroy_slots hs
  exact (h.taskHandleDestroy hfd).taskArrayDestroy hs'

/-- What a successful `stdin_task_init` leaves and the shutdown ends. -/
structure Started (m : Multiset StdinResource) (s : StdinWorld) : Prop where
  capacity : s.capacity = 1
  onCleanup : s.handle.onCleanup = true
  owns : ∃ p n l, s.slots = some (p,[true]) ∧ s.handle.doneFd = some n ∧ s.line = some l ∧
    Owns (.block l ::ₘ .fd n ::ₘ .block p ::ₘ m) s

theorem Owns.taskArrayInit (capacity : ℕ) {env : InitOutcome} (h : Owns m s)
    (henv : env.calloc = true) : Owns (.block s.fresh ::ₘ m) (s.taskArrayInit capacity env).2 := by
  simp only [StdinWorld.taskArrayInit,henv,if_true]
  exact Owns.log (Owns.mutex (h.acquire rfl rfl rfl) rfl)

theorem Owns.taskHandleInit {env : InitOutcome} (h : Owns m s) (henv : env.eventfd = true) :
    Owns (.fd s.fresh ::ₘ m) (s.taskHandleInit env).2 := by
  simp only [StdinWorld.taskHandleInit,henv,if_true]
  exact Owns.log (h.acquire rfl rfl rfl)

/-- `malloc` and `pthread_create` succeed, or what the earlier calls acquired is released. -/
theorem Owns.startThread (bufSize : UInt64) (priority : ℤ) (env : InitOutcome)
    (h : Owns (.fd n ::ₘ .block p ::ₘ m) s) (hs : s.slots = some (p,[true]))
    (hcap : s.capacity = 1) (hfd : s.handle.doneFd = some n) (hclean : s.handle.onCleanup = true) :
    env.malloc = true ∧ env.pthreadCreate = true ∧
      Started m (s.startThread bufSize priority env).2 ∨
    ¬(env.malloc = true ∧ env.pthreadCreate = true) ∧
      (s.startThread bufSize priority env).2.slots = none ∧
      (s.startThread bufSize priority env).2.capacity = 0 ∧
      Owns m (s.startThread bufSize priority env).2 := by
  have hnull : Owns (.fd n ::ₘ .block p ::ₘ m) {s with line := none} := h.congr rfl (Nat.le_refl _)
  have hline : Owns (.block s.fresh ::ₘ .fd n ::ₘ .block p ::ₘ m)
      {s.event (.acquire (.block s.fresh)) with
        line := some s.fresh, fresh := s.fresh+1, bufSizeArg := bufSize} :=
    h.acquire rfl rfl rfl
  unfold StdinWorld.startThread
  cases hmalloc : env.malloc with
  | false => exact .inr ⟨by simp,rfl,rfl,hnull.log.undo hfd hs⟩
  | true =>
    cases hcreate : env.pthreadCreate with
    | false => exact .inr ⟨by simp,rfl,rfl,(hline.log.freeLine rfl).undo hfd hs⟩
    | true =>
      exact .inl ⟨rfl,rfl,hcap,hclean,p,n,s.fresh,hs,hfd,rfl,hline.congr rfl (Nat.le_succ _)⟩

/-- The pointers when `stdin_task_init` has added its handle. -/
theorem taskArrayAdd_statics {env : InitOutcome} (hcalloc : env.calloc = true)
    (henv : env.eventfd = true) :
    let a := (s.taskArrayInit 1 env).2
    let h := (a.taskHandleInit env).2
    let t := (h.setHandle {h.handle with onCleanup := true}).taskArrayAdd.2
    t.slots = some (s.fresh,[true]) ∧ t.capacity = 1 ∧ t.handle.doneFd = some a.fresh ∧
      t.handle.onCleanup = true := by
  simp [StdinWorld.taskArrayInit,StdinWorld.taskHandleInit,hcalloc,henv,StdinWorld.log,
    StdinWorld.event,StdinWorld.setHandle,StdinWorld.taskArrayAdd,StdinWorld.setSlot,
    StdinWorld.cells]

/-- `stdin_task_init` acquires three resources, or none. -/
theorem Owns.stdinTaskInit (bufSize : UInt64) (priority : ℤ) (env : InitOutcome) (h : Owns m s)
    (hcap : s.capacity = 0) :
    env.AllSucceed ∧ Started m (s.stdinTaskInit bufSize priority env).2 ∨
    ¬env.AllSucceed ∧ (s.stdinTaskInit bufSize priority env).2.slots = none ∧
      (s.stdinTaskInit bufSize priority env).2.capacity = 0 ∧
      Owns m (s.stdinTaskInit bufSize priority env).2 := by
  simp only [StdinWorld.stdinTaskInit,taskArrayInit_ret,taskHandleInit_ret]
  cases hcalloc : env.calloc with
  | false =>
    have hnull : Owns m {s with slots := none} := h.congr rfl (Nat.le_refl _)
    refine .inr ⟨by simp [InitOutcome.AllSucceed,hcalloc],?_,?_,Owns.log ?_⟩
    · simp [StdinWorld.taskArrayInit,hcalloc,StdinWorld.log,StdinWorld.event]
    · simpa [StdinWorld.taskArrayInit,hcalloc,StdinWorld.log,StdinWorld.event] using hcap
    · simp only [StdinWorld.taskArrayInit,hcalloc,Bool.false_eq_true,if_false]
      exact hnull.log
  | true =>
    have ha := h.taskArrayInit 1 hcalloc
    cases heventfd : env.eventfd with
    | false =>
      have hh : Owns (.block s.fresh ::ₘ m) ((s.taskArrayInit 1 env).2.taskHandleInit env).2 := by
        simp only [StdinWorld.taskHandleInit,heventfd,Bool.false_eq_true,if_false]
        exact Owns.log (ha.congr rfl (Nat.le_refl _))
      refine .inr ⟨by simp [InitOutcome.AllSucceed,heventfd],rfl,rfl,
        hh.log.taskArrayDestroy (?_ : _ = some (s.fresh,[false]))⟩
      simp [StdinWorld.taskArrayInit,StdinWorld.taskHandleInit,hcalloc,heventfd,StdinWorld.log,
        StdinWorld.event,StdinWorld.setHandle]
    | true =>
      have hh := ha.taskHandleInit heventfd
      have hadd := taskArrayAdd_fresh (s := s) hcalloc heventfd fun k => {k with onCleanup := true}
      have hset : Owns _ (((s.taskArrayInit 1 env).2.taskHandleInit env).2.setHandle
          {((s.taskArrayInit 1 env).2.taskHandleInit env).2.handle with onCleanup := true}) :=
        hh.congr rfl (Nat.le_refl _)
      have hr := hset.taskArrayAdd
      simp only [if_true,ne_eq,not_true_eq_false,if_false,hadd]
      obtain ⟨hs,hcap',hfd,hclean⟩ := taskArrayAdd_statics (s := s) hcalloc heventfd
      obtain ⟨hmalloc,hcreate,hstarted⟩ | ⟨hfailed,hrest⟩ :=
        hr.startThread bufSize priority env hs hcap' hfd hclean
      · exact .inl ⟨⟨hcalloc,heventfd,hmalloc,hcreate⟩,hstarted⟩
      · exact .inr ⟨fun hall => hfailed hall.2.2,hrest⟩

/-- What the shutdown reads to find what it has to release. -/
def StdinWorld.pointers (s : StdinWorld) :=
  (s.slots,s.capacity,s.handle.doneFd,s.handle.onCleanup,s.line)

/-- `t` owns what `s` owns, with the same pointers. -/
structure Retains (s t : StdinWorld) : Prop where
  pointers : t.pointers = s.pointers
  owns : ∀ m, Owns m s → Owns m t

theorem Retains.refl (s : StdinWorld) : Retains s s := ⟨rfl,fun _ h => h⟩

theorem Retains.log {c : LogCall} (h : Retains s t) : Retains s (t.log c) :=
  ⟨h.pointers,fun m hm => (h.owns m hm).log⟩

theorem Retains.mutex (h : Retains s t) (he : ∀ m, charge m e = some m) : Retains s (t.event e) :=
  ⟨h.pointers,fun m hm => (h.owns m hm).mutex (he m)⟩

theorem Retains.forSlots {body : ℕ → StdinWorld → StdinWorld} (h : Retains s t)
    (hbody : ∀ i t, Retains s t → Retains s (body i t)) : Retains s (t.forSlots body) :=
  forSlots_keeps hbody h

theorem Retains.taskArrayStopAll (h : Retains s t) : Retains s t.taskArrayStopAll := by
  refine Retains.log (Retains.mutex (Retains.forSlots (h.mutex fun _ => rfl) fun i u hu => ?_)
    fun _ => rfl)
  exact Retains.log ⟨hu.pointers,fun m hm => (hu.owns m hm).congr rfl (Nat.le_refl _)⟩

theorem Retains.taskArrayCancelAll (h : Retains s t) : Retains s t.taskArrayCancelAll :=
  (((h.mutex fun _ => rfl).forSlots fun _ _ hu => hu.log).mutex fun _ => rfl).log

theorem Retains.taskArrayJoinAll (c : ShutdownChoice) (h : Retains s t) :
    Retains s (t.taskArrayJoinAll c) :=
  (((h.mutex fun _ => rfl).forSlots fun _ _ hu => hu.log).mutex fun _ => rfl).log

/-- The `pollfd` array is freed where it was allocated. -/
theorem Retains.taskArrayPollAll (c : ShutdownChoice) (h : Retains s t) :
    Retains s (t.taskArrayPollAll c).2 := by
  have hl : Retains s (t.event (.lock .taskArray)) := h.mutex fun _ => rfl
  simp only [StdinWorld.taskArrayPollAll]
  split_ifs
  · exact hl.mutex fun _ => rfl
  · exact (hl.mutex fun _ => rfl).log
  · refine ⟨hl.pointers,fun m hm => Owns.release (Owns.mutex ?_ rfl)⟩
    exact (hl.owns m hm).acquire rfl rfl rfl

theorem Retains.cancelUnlessDone {r : ℤ × StdinWorld} (h : Retains s r.2) :
    Retains s (StdinWorld.cancelUnlessDone r) := by
  unfold StdinWorld.cancelUnlessDone
  split_ifs
  · exact h.log.taskArrayCancelAll
  · exact h.log.taskArrayCancelAll
  · exact h

/-- The shutdown before it destroys the handles. -/
def StdinWorld.shutdownTasks (c : ShutdownChoice) (s : StdinWorld) : StdinWorld :=
  let s := (s.log (mainLog .debug "received SIGINT, shutting down...")).taskArrayStopAll
  (cancelUnlessDone (s.taskArrayPollAll c)).taskArrayJoinAll c

theorem shutdown_eq (c : ShutdownChoice) :
    s.shutdown c = (s.shutdownTasks c).taskArrayHandlesDestroyAll.taskArrayDestroy := rfl

theorem retains_shutdownTasks (c : ShutdownChoice) : Retains s (s.shutdownTasks c) :=
  ((((Retains.refl s).log.taskArrayStopAll).taskArrayPollAll c).cancelUnlessDone).taskArrayJoinAll c

/-- The shutdown of an empty array acquires and releases nothing. -/
theorem Owns.shutdown_empty (c : ShutdownChoice) (h : Owns m s) (hs : s.slots = none)
    (hcap : s.capacity = 0) : Owns m (s.shutdown c) := by
  have hretains := retains_shutdownTasks (s := s) c
  have hp := hretains.pointers
  simp only [StdinWorld.pointers,Prod.mk.injEq,hs,hcap] at hp
  obtain ⟨hslots,hcapacity,-⟩ := hp
  have howns := hretains.owns m h
  rw [shutdown_eq]
  generalize s.shutdownTasks c = t at hslots hcapacity howns
  have hall : t.taskArrayHandlesDestroyAll = ((t.event (.lock .taskArray)).event
      (.unlock .taskArray)).log (taskLog .debug s!"destroyed {t.occupiedSlots} task handle(s) in array"
        [] "") := by
    rw [StdinWorld.taskArrayHandlesDestroyAll,forSlots_empty (s := t.event _) hcapacity]
  rw [hall]
  have hlock : Owns m (t.event (.lock .taskArray)) := howns.mutex rfl
  exact Owns.taskArrayDestroy_empty (Owns.log (hlock.mutex rfl)) hslots

/-- The cleanup callback and the destruction of the handle release the buffer and the descriptor. -/
theorem Owns.destroySlot (i : ℕ) (h : Owns (.block l ::ₘ .fd n ::ₘ m) s) (hl : s.line = some l)
    (hfd : s.handle.doneFd = some n) (hclean : s.handle.onCleanup = true) :
    Owns m (s.destroySlot i) := by
  have hline : Owns (.fd n ::ₘ m) s.stdinCleanup := by
    simp only [StdinWorld.stdinCleanup,hl,Option.isSome_some,if_true]
    exact (h.freeLine hl).log
  have hfd' : s.stdinCleanup.handle.doneFd = some n := by
    simp only [StdinWorld.stdinCleanup,hl,Option.isSome_some,if_true]
    simpa [StdinWorld.freeLine,hl,StdinWorld.log,StdinWorld.event] using hfd
  simp only [StdinWorld.destroySlot,hclean,if_true]
  exact Owns.taskHandleDestroy (hline.congr rfl (Nat.le_refl _)) hfd'

theorem stdinCleanup_slots : s.stdinCleanup.slots = s.slots := by
  unfold StdinWorld.stdinCleanup StdinWorld.freeLine
  split
  · split <;> rfl
  · rfl

theorem destroySlot_slots (i : ℕ) (hs : s.slots = some (p,cells)) :
    ∃ cells', (s.destroySlot i).slots = some (p,cells') := by
  refine taskHandleDestroy_slots (?_ : _ = some (p,cells.set i false))
  change Option.map _ (if s.handle.onCleanup then s.stdinCleanup else s).slots = _
  split_ifs
  · rw [stdinCleanup_slots,hs]
    rfl
  · rw [hs]
    rfl

/-- The shutdown releases what `stdin_task_init` acquired. -/
theorem Started.shutdown (c : ShutdownChoice) (h : Started m s) : Owns m (s.shutdown c) := by
  have hretains := retains_shutdownTasks (s := s) c
  obtain ⟨p,n,l,hs,hfd,hl,howns⟩ := h.owns
  have hp := hretains.pointers
  simp only [StdinWorld.pointers,Prod.mk.injEq,hs,hfd,hl,h.capacity,h.onCleanup] at hp
  obtain ⟨hslots,hcap,hdone,hclean,hline⟩ := hp
  have howns := hretains.owns _ howns
  rw [shutdown_eq]
  generalize s.shutdownTasks c = t at hslots hcap hdone hclean hline howns
  have hone : (t.event (.lock .taskArray)).forSlots StdinWorld.destroySlot =
      (t.event (.lock .taskArray)).destroySlot 0 := by
    simp [StdinWorld.forSlots,StdinWorld.event,StdinWorld.cells,hcap,hslots]
  have hlock : Owns (.block l ::ₘ .fd n ::ₘ .block p ::ₘ m) (t.event (.lock .taskArray)) :=
    howns.mutex rfl
  have hdestroyed := hlock.destroySlot 0 hline hdone hclean
  obtain ⟨cells,hcells⟩ := destroySlot_slots (s := t.event (.lock .taskArray)) 0 hslots
  rw [StdinWorld.taskArrayHandlesDestroyAll,hone]
  exact Owns.taskArrayDestroy (Owns.log (hdestroyed.mutex rfl)) hcells

end Owns
end TTK4145.Rtsystem
