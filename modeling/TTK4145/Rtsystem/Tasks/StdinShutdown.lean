import TTK4145.Rtsystem.Tasks.StdinInit

/-! `main` behind `stdin_task_init`, up to `task_array_destroy`: the life of the lock of
`g_stdin_tasks`, of its slots, of the input buffer and of the descriptor. -/
namespace TTK4145.Rtsystem
open Lib ResourceEvent

/-- The answers of the system during the shutdown: whether the `pollfd` array can be allocated, the
result of `poll`, and whether the `done_fd` is readable when the task is to be joined. -/
structure ShutdownChoice where
  malloc : Bool
  ret : ℤ
  revents : List Bool
  done : Bool

namespace StdinWorld

/-- A loop over the slots of `g_stdin_tasks` that are not `NULL`. -/
def forSlots (body : ℕ → StdinWorld → StdinWorld) (s : StdinWorld) : StdinWorld :=
  (List.range s.capacity).foldl (fun s i => if s.cells[i]? = some true then body i s else s) s

def occupiedSlots (s : StdinWorld) : ℕ := (s.cells.take s.capacity).count true

/-- `task_stop(&handle)`: `on_stop` is `NULL`. -/
def taskStop (s : StdinWorld) : StdinWorld :=
  (s.setHandle {s.handle with state := .stopping}).log
    (taskLog .debug "stop signal sent to task '" name "'")

/-- `task_array_stop_all(&g_stdin_tasks)`. -/
def taskArrayStopAll (s : StdinWorld) : StdinWorld :=
  (((s.event (.lock .taskArray)).forSlots fun _ => taskStop).event (.unlock .taskArray)).log
    (taskLog .debug s!"sent stop signal to {s.occupiedSlots} task(s) in array" [] "")

/-- `task_array_poll_all(&g_stdin_tasks, sig_fd, timeout)`. -/
def taskArrayPollAll (c : ShutdownChoice) (s : StdinWorld) : ℤ × StdinWorld :=
  let slots := (s.cells.take s.capacity).map fun held => if held then some () else none
  let ret := Rtsystem.taskArrayPollAll slots true c.malloc c.ret c.revents
  let s := s.event (.lock .taskArray)
  if s.occupiedSlots = 0 then (ret,s.event (.unlock .taskArray))
  else if !c.malloc then (ret,(s.event (.unlock .taskArray)).log
    (taskLog .error "failed to allocate pollfd array" [] ""))
  else
    let fds := StdinResource.block s.fresh
    let s := {s.event (.acquire fds) with fresh := s.fresh+1}
    (ret,(s.event (.unlock .taskArray)).event (.release fds))

/-- `task_array_cancel_all(&g_stdin_tasks)`. -/
def taskArrayCancelAll (s : StdinWorld) : StdinWorld :=
  (((s.event (.lock .taskArray)).forSlots fun _ s =>
    s.log (taskLog .warn "cancelled task '" name "'")).event (.unlock .taskArray)).log
    (taskLog .warn s!"cancelled {s.occupiedSlots} task(s) in array" [] "")

/-- `task_array_join_all(&g_stdin_tasks)`. -/
def taskArrayJoinAll (c : ShutdownChoice) (s : StdinWorld) : StdinWorld :=
  let count := s.occupiedSlots
  (((s.event (.lock .taskArray)).forSlots fun _ s =>
    s.log (if c.done then taskLog .debug "joined task '" name "'"
      else taskLog .warn "task '" name "' stuck, skipping join")).event (.unlock .taskArray)).log
    (if !c.done ∧ count>0 then
      taskLog .warn s!"joined 0 task(s), skipped {count} stuck task(s)" [] ""
    else taskLog .debug s!"joined {count} task(s) in array" [] "")

/-- `stdin_cleanup`. -/
def stdinCleanup (s : StdinWorld) : StdinWorld :=
  if s.line.isSome then s.freeLine.log (stdinLog .debug (cBytes "freed input buffer")) else s

/-- The body of the loop in `task_array_handles_destroy_all`. -/
def destroySlot (i : ℕ) (s : StdinWorld) : StdinWorld :=
  ((if s.handle.onCleanup then s.stdinCleanup else s).setSlot i false).taskHandleDestroy

/-- `task_array_handles_destroy_all(&g_stdin_tasks)`. -/
def taskArrayHandlesDestroyAll (s : StdinWorld) : StdinWorld :=
  (((s.event (.lock .taskArray)).forSlots destroySlot).event (.unlock .taskArray)).log
    (taskLog .debug s!"destroyed {s.occupiedSlots} task handle(s) in array" [] "")

def mainLog (level : LogLevel) (text : String) : LogCall := ⟨.debug,level,cBytes "main",cBytes text⟩

/-- What `main` does about the result of `task_array_poll_all`. -/
def cancelUnlessDone (p : ℤ × StdinWorld) : StdinWorld :=
  if p.1 = -2 then
    (p.2.log (mainLog .warn "forced shutdown, cancelling all tasks")).taskArrayCancelAll
  else if p.1 = -1 then
    (p.2.log (mainLog .warn "task array 0 timeout, cancelling")).taskArrayCancelAll
  else p.2

/-- `main` from its signal loop to the end of its task arrays, of which `g_stdin_tasks` is the
only one. -/
def shutdown (c : ShutdownChoice) (s : StdinWorld) : StdinWorld :=
  let s := (s.log (mainLog .debug "received SIGINT, shutting down...")).taskArrayStopAll
  let s := cancelUnlessDone (s.taskArrayPollAll c)
  (s.taskArrayJoinAll c).taskArrayHandlesDestroyAll.taskArrayDestroy

/-- `main` from `stdin_task_init` on; a failure is logged and otherwise ignored. -/
def mainFromInit (bufSize : UInt64) (priority : ℤ) (env : InitOutcome) (c : ShutdownChoice)
    (s : StdinWorld) : StdinWorld :=
  let r := s.stdinTaskInit bufSize priority env
  (if r.1 ≠ 0 then r.2.log (mainLog .error "failed to initialize stdin_task") else r.2).shutdown c

/-- What a world owns: the slots, the input buffer and the descriptor. -/
def held (s : StdinWorld) : List StdinResource :=
  (s.slots.map fun p => .block p.1).toList ++ (s.line.map .block).toList ++
    (s.handle.doneFd.map .fd).toList

/-- How often a resource has been released or is still owned. -/
def uses (s : StdinWorld) (r : StdinResource) : ℕ := (releases s.events).count r+s.held.count r

end StdinWorld

def StdinResource.id : StdinResource → ℕ
  | .block p => p
  | .fd n => n

/-- Every resource was made before and is released or owned once at most. -/
structure Tidy (s : StdinWorld) : Prop where
  once : ∀ r, s.uses r ≤ 1
  below : ∀ r, 0<s.uses r → r.id<s.fresh

/-- `t` releases no more than `s` owns. -/
structure Spends (s t : StdinWorld) : Prop where
  uses_le : ∀ r, t.uses r ≤ s.uses r
  fresh_le : s.fresh ≤ t.fresh

/-- The locks have been used well so far, and that of the array is at the given point of its
life. -/
structure LockSound (l : Life) (s : StdinWorld) : Prop where
  safe : MutexSafe s.events
  queue : life .logQueue s.events = .live
  array : life .taskArray s.events = l

/-- What the body of a loop over the slots keeps, the loop keeps. -/
theorem forSlots_keeps {P : StdinWorld → Prop} {body : ℕ → StdinWorld → StdinWorld}
    (hbody : ∀ i s, P s → P (body i s)) {s : StdinWorld} (h : P s) : P (s.forSlots body) := by
  unfold StdinWorld.forSlots
  generalize List.range s.capacity = is
  induction is generalizing s with
  | nil => exact h
  | cons i is ih =>
    apply ih
    beta_reduce
    split_ifs
    · exact hbody i s h
    · exact h

section Resources
variable {s t u : StdinWorld} {r : StdinResource} {e : ResourceEvent MutexName StdinResource}

theorem count_held : s.held.count r =
    (s.slots.map fun p => StdinResource.block p.1).toList.count r+
      (s.line.map StdinResource.block).toList.count r+
      (s.handle.doneFd.map StdinResource.fd).toList.count r := by
  simp only [StdinWorld.held,List.count_append]

theorem Spends.refl (s : StdinWorld) : Spends s s := ⟨fun _ => Nat.le_refl _,Nat.le_refl _⟩

theorem Spends.trans (h : Spends s t) (h' : Spends t u) : Spends s u :=
  ⟨fun r => (h'.uses_le r).trans (h.uses_le r),h.fresh_le.trans h'.fresh_le⟩

theorem Tidy.spend (h : Tidy s) (hst : Spends s t) : Tidy t :=
  ⟨fun r => (hst.uses_le r).trans (h.once r),fun r hr =>
    (h.below r (hr.trans_le (hst.uses_le r))).trans_le hst.fresh_le⟩

/-- A new resource has a number of its own. -/
theorem Tidy.acquire (h : Tidy s) (hnew : r.id = s.fresh) (hfresh : t.fresh = s.fresh+1)
    (huses : ∀ q, t.uses q ≤ s.uses q+[r].count q) : Tidy t := by
  refine ⟨fun q => ?_,fun q hq => ?_⟩
  · have hu := huses q
    by_cases hqr : q = r
    · subst hqr
      have : s.uses q = 0 := by
        by_contra hne
        have := h.below q (Nat.pos_of_ne_zero hne)
        omega
      rw [List.count_singleton_self] at hu
      omega
    · rw [List.count_eq_zero.mpr (List.mem_singleton.not.mpr hqr)] at hu
      exact hu.trans (h.once q)
  · have hu := huses q
    by_cases hqr : q = r
    · rw [hqr]
      omega
    · rw [List.count_eq_zero.mpr (List.mem_singleton.not.mpr hqr)] at hu
      have := h.below q (by omega)
      omega

theorem Tidy.own (h : Tidy s) (hnew : r.id = s.fresh) (hfresh : t.fresh = s.fresh+1)
    (hevents : t.events = s.events ++ [.acquire r])
    (hheld : ∀ q, t.held.count q ≤ s.held.count q+[r].count q) : Tidy t := by
  refine h.acquire hnew hfresh fun q => ?_
  have hr : releases t.events = releases s.events := by
    rw [hevents,releases_snoc]
    exact List.append_nil _
  rw [StdinWorld.uses,StdinWorld.uses,hr,Nat.add_assoc]
  exact Nat.add_le_add_left (hheld q) _

/-- A resource that is released was owned. -/
theorem Spends.release (h : Spends s t) (hfresh : u.fresh = t.fresh)
    (hevents : u.events = t.events ++ [.release r]) (hheld : t.held.Perm (r::u.held)) :
    Spends s u := by
  refine h.trans ⟨fun q => ?_,hfresh.ge⟩
  rw [StdinWorld.uses,StdinWorld.uses,hevents,releases_snoc,hheld.count_eq,List.count_append,
    ←List.singleton_append,List.count_append,ResourceEvent.released,Option.toList_some,
    Nat.add_assoc]

/-- A pointer that is overwritten is only lost. -/
theorem Spends.lose (h : Spends s t) (hfresh : u.fresh = t.fresh) (hevents : u.events = t.events)
    (hheld : u.held.Sublist t.held) : Spends s u := by
  refine h.trans ⟨fun q => ?_,hfresh.ge⟩
  rw [StdinWorld.uses,StdinWorld.uses,hevents]
  exact Nat.add_le_add_left (hheld.count_le q) _

theorem uses_event (he : e.released = none) : (s.event e).uses r = s.uses r := by
  simp [StdinWorld.uses,StdinWorld.held,StdinWorld.event,releases,he]

theorem Spends.event (h : Spends s t) (he : e.released = none) : Spends s (t.event e) :=
  h.trans ⟨fun _ => (uses_event he).le,Nat.le_refl _⟩

theorem Spends.log {c : LogCall} (h : Spends s t) : Spends s (t.log c) := by
  have hq : Spends s ((t.event (.lock .logQueue)).event (.unlock .logQueue)) :=
    (h.event rfl).event rfl
  exact hq.trans ⟨fun _ => Nat.le_refl _,Nat.le_refl _⟩

theorem Spends.setHandle {k : StdinHandle} (h : Spends s t) (hfd : k.doneFd = t.handle.doneFd) :
    Spends s (t.setHandle k) := by
  refine h.trans ⟨fun r => ?_,Nat.le_refl _⟩
  simp [StdinWorld.uses,StdinWorld.held,StdinWorld.setHandle,hfd]

theorem Spends.setSlot {i : ℕ} {held : Bool} (h : Spends s t) : Spends s (t.setSlot i held) := by
  refine h.trans ⟨fun r => ?_,Nat.le_refl _⟩
  cases hs : t.slots <;> simp [StdinWorld.uses,StdinWorld.held,StdinWorld.setSlot,hs]

theorem Spends.closeDone (h : Spends s t) : Spends s t.closeDone := by
  unfold StdinWorld.closeDone
  split
  · rename_i fd hfd
    refine h.release (r := .fd fd) rfl rfl ?_
    simp only [StdinWorld.held,hfd]
    exact List.perm_append_comm.trans (.cons _ (.of_eq (List.append_nil _).symm))
  · exact h

theorem Spends.freeLine (h : Spends s t) : Spends s t.freeLine := by
  unfold StdinWorld.freeLine
  cases hl : t.line with
  | none =>
    refine h.lose rfl rfl ?_
    simp only [StdinWorld.held,hl]
    exact .refl _
  | some p =>
    refine h.release (r := .block p) rfl rfl ?_
    simp only [StdinWorld.held,hl]
    exact List.perm_middle.append_right _

theorem Spends.freeSlots (h : Spends s t) : Spends s t.freeSlots := by
  unfold StdinWorld.freeSlots
  cases hl : t.slots with
  | none =>
    refine h.lose rfl rfl ?_
    simp only [StdinWorld.held,hl]
    exact .refl _
  | some p =>
    refine h.release (r := .block p.1) rfl rfl ?_
    simp only [StdinWorld.held,hl]
    exact .refl _

theorem Spends.taskArrayAdd (h : Spends s t) : Spends s t.taskArrayAdd.2 := by
  simp only [StdinWorld.taskArrayAdd]
  split
  · exact ((h.event rfl).setSlot.event rfl).log
  · exact ((h.event rfl).event rfl).log

theorem Spends.taskArrayRemove (h : Spends s t) : Spends s t.taskArrayRemove := by
  simp only [StdinWorld.taskArrayRemove]
  split
  · exact ((h.event rfl).setSlot.event rfl).log
  · exact ((h.event rfl).event rfl).log

theorem Spends.markDestroyed (h : Spends s t) : Spends s t.markDestroyed :=
  h.trans ⟨fun _ => Nat.le_refl _,Nat.le_refl _⟩

theorem Spends.taskHandleDestroy (h : Spends s t) : Spends s t.taskHandleDestroy := by
  unfold StdinWorld.taskHandleDestroy
  refine Spends.log (Spends.markDestroyed (Spends.closeDone ?_))
  split_ifs
  · exact h.taskArrayRemove
  · exact h

theorem Spends.taskArrayDestroy (h : Spends s t) : Spends s t.taskArrayDestroy :=
  (h.event rfl).freeSlots.log

theorem Spends.undo (h : Spends s t) : Spends s t.undo.2 := h.taskHandleDestroy.taskArrayDestroy

theorem Spends.forSlots {body : ℕ → StdinWorld → StdinWorld} (h : Spends s t)
    (hbody : ∀ i t, Spends s t → Spends s (body i t)) : Spends s (t.forSlots body) :=
  forSlots_keeps hbody h

theorem Spends.taskArrayStopAll (h : Spends s t) : Spends s t.taskArrayStopAll := by
  refine Spends.log (Spends.event (Spends.forSlots (h.event rfl) fun i t ht => ?_) rfl)
  exact Spends.log (ht.setHandle rfl)

theorem Spends.taskArrayCancelAll (h : Spends s t) : Spends s t.taskArrayCancelAll :=
  (((h.event rfl).forSlots fun _ _ ht => ht.log).event rfl).log

theorem Spends.taskArrayJoinAll (c : ShutdownChoice) (h : Spends s t) :
    Spends s (t.taskArrayJoinAll c) :=
  (((h.event rfl).forSlots fun _ _ ht => ht.log).event rfl).log

theorem Spends.destroySlot (i : ℕ) (h : Spends s t) : Spends s (t.destroySlot i) := by
  unfold StdinWorld.destroySlot StdinWorld.stdinCleanup
  refine Spends.taskHandleDestroy (Spends.setSlot ?_)
  split_ifs
  · exact h.freeLine.log
  · exact h
  · exact h

theorem Spends.taskArrayHandlesDestroyAll (h : Spends s t) :
    Spends s t.taskArrayHandlesDestroyAll :=
  (((h.event rfl).forSlots fun i _ ht => ht.destroySlot i).event rfl).log

theorem Spends.cancelUnlessDone {p : ℤ × StdinWorld} (h : Spends s p.2) :
    Spends s (StdinWorld.cancelUnlessDone p) := by
  unfold StdinWorld.cancelUnlessDone
  split_ifs
  · exact h.log.taskArrayCancelAll
  · exact h.log.taskArrayCancelAll
  · exact h

theorem Tidy.taskArrayInit (capacity : ℕ) (env : InitOutcome) (h : Tidy s) :
    Tidy (s.taskArrayInit capacity env).2 := by
  unfold StdinWorld.taskArrayInit
  split_ifs
  · refine Tidy.spend (Tidy.own (r := .block s.fresh) h rfl rfl rfl fun q => ?_)
      (Spends.log ((Spends.refl _).event rfl))
    simp only [count_held,StdinWorld.event,Option.map_some,Option.toList_some]
    omega
  · refine h.spend (Spends.log ((Spends.refl s).lose rfl rfl ?_))
    exact ((List.nil_sublist _).append_right _).append_right _

theorem Tidy.taskHandleInit (env : InitOutcome) (h : Tidy s) : Tidy (s.taskHandleInit env).2 := by
  unfold StdinWorld.taskHandleInit
  split_ifs
  · refine Tidy.spend (Tidy.own (r := .fd s.fresh) h rfl rfl rfl fun q => ?_)
      (Spends.log (Spends.refl _))
    simp only [count_held,StdinWorld.event,Option.map_some,Option.toList_some]
    omega
  · refine h.spend (Spends.log ((Spends.refl s).lose rfl rfl ?_))
    exact (List.nil_sublist _).append_left _

theorem Tidy.startThread (bufSize : UInt64) (priority : ℤ) (env : InitOutcome) (h : Tidy s) :
    Tidy (s.startThread bufSize priority env).2 := by
  have hline : Tidy {s.event (.acquire (.block s.fresh)) with
      line := some s.fresh, fresh := s.fresh+1, bufSizeArg := bufSize} := by
    refine Tidy.own (r := .block s.fresh) h rfl rfl rfl fun q => ?_
    simp only [count_held,StdinWorld.event,Option.map_some,Option.toList_some]
    omega
  unfold StdinWorld.startThread
  split_ifs
  · exact hline.spend ⟨fun r => Nat.le_refl _,Nat.le_succ _⟩
  · exact hline.spend (Spends.undo (Spends.freeLine (Spends.log (Spends.refl _))))
  · refine h.spend (Spends.undo (Spends.log ((Spends.refl s).lose rfl rfl ?_)))
    exact ((List.nil_sublist _).append_left _).append_right _

theorem Tidy.stdinTaskInit (bufSize : UInt64) (priority : ℤ) (env : InitOutcome) (h : Tidy s) :
    Tidy (s.stdinTaskInit bufSize priority env).2 := by
  have ha := h.taskArrayInit 1 env
  have hh := ha.taskHandleInit env
  have hr := hh.spend (Spends.taskArrayAdd (Spends.setHandle
    (k := {(s.taskArrayInit 1 env).2.taskHandleInit env |>.2.handle with onCleanup := true})
    (Spends.refl _) rfl))
  simp only [StdinWorld.stdinTaskInit]
  split_ifs
  · exact ha.spend (Spends.refl _).log
  · exact hh.spend (Spends.refl _).log.taskArrayDestroy
  · exact hr.spend (Spends.refl _).log.undo
  · exact hr.startThread bufSize priority env

theorem Tidy.taskArrayPollAll (c : ShutdownChoice) (h : Tidy s) :
    Tidy (s.taskArrayPollAll c).2 := by
  simp only [StdinWorld.taskArrayPollAll]
  split_ifs
  · exact h.spend (((Spends.refl s).event rfl).event rfl)
  · exact h.spend (((Spends.refl s).event rfl).event rfl).log
  · refine Tidy.acquire (r := .block s.fresh) h rfl rfl fun q => ?_
    simp only [StdinWorld.uses,count_held,StdinWorld.event,releases_snoc,ResourceEvent.released,
      Option.toList_none,Option.toList_some,List.append_nil,List.count_append]
    omega

theorem Tidy.shutdown (c : ShutdownChoice) (h : Tidy s) : Tidy (s.shutdown c) :=
  ((h.spend (Spends.refl s).log.taskArrayStopAll).taskArrayPollAll c).spend
    ((Spends.refl _).cancelUnlessDone.taskArrayJoinAll
      c).taskArrayHandlesDestroyAll.taskArrayDestroy

end Resources

section Locks
variable {s t : StdinWorld} {l : Life}

theorem LockSound.congr (h : LockSound l s) (ht : t.events = s.events) : LockSound l t := by
  refine ⟨?_,?_,?_⟩ <;> rw [ht]
  exacts [h.safe,h.queue,h.array]

/-- An event that needs no dead lock and does not end or begin the life of one. -/
theorem LockSound.event {e : ResourceEvent MutexName StdinResource} (h : LockSound l s)
    (hneeds : ∀ m, e.Needs m → life m s.events = .live)
    (hafter : ∀ m l, ResourceEvent.after m l e = l) : LockSound l (s.event e) := by
  refine ⟨mutexSafe_snoc.mpr ⟨h.safe,hneeds⟩,?_,?_⟩
  · rw [StdinWorld.event,life_snoc,hafter,h.queue]
  · rw [StdinWorld.event,life_snoc,hafter,h.array]

theorem LockSound.log {c : LogCall} (h : LockSound l s) : LockSound l (s.log c) := by
  have hl : LockSound l (s.event (.lock .logQueue)) := by
    refine h.event (fun m hm => ?_) fun _ _ => rfl
    cases hm
    exact h.queue
  have hu : LockSound l ((s.event (.lock .logQueue)).event (.unlock .logQueue)) := by
    refine hl.event (fun m hm => ?_) fun _ _ => rfl
    cases hm
    exact hl.queue
  exact hu.congr rfl

theorem LockSound.lock (h : LockSound .live s) : LockSound .live (s.event (.lock .taskArray)) := by
  refine h.event (fun m hm => ?_) fun _ _ => rfl
  cases hm
  exact h.array

theorem LockSound.unlock (h : LockSound .live s) : LockSound .live (s.event (.unlock .taskArray)) := by
  refine h.event (fun m hm => ?_) fun _ _ => rfl
  cases hm
  exact h.array

theorem LockSound.acquire (r : StdinResource) (h : LockSound l s) :
    LockSound l (s.event (.acquire r)) :=
  h.event (fun _ hm => hm.elim) fun _ _ => rfl

theorem LockSound.release (r : StdinResource) (h : LockSound l s) :
    LockSound l (s.event (.release r)) :=
  h.event (fun _ hm => hm.elim) fun _ _ => rfl

theorem LockSound.closeDone (h : LockSound l s) : LockSound l s.closeDone := by
  unfold StdinWorld.closeDone
  split
  · exact (h.release _).congr rfl
  · exact h

theorem LockSound.freeLine (h : LockSound l s) : LockSound l s.freeLine := by
  unfold StdinWorld.freeLine
  split
  · exact (h.release _).congr rfl
  · exact h.congr rfl

theorem LockSound.freeSlots (h : LockSound l s) : LockSound l s.freeSlots := by
  unfold StdinWorld.freeSlots
  split
  · exact (h.release _).congr rfl
  · exact h.congr rfl

theorem LockSound.taskArrayAdd (h : LockSound .live s) : LockSound .live s.taskArrayAdd.2 := by
  simp only [StdinWorld.taskArrayAdd]
  split
  · exact (h.lock.congr (t := (s.event (.lock .taskArray)).setSlot _ true) rfl).unlock.log
  · exact h.lock.unlock.log

theorem LockSound.taskArrayRemove (h : LockSound .live s) : LockSound .live s.taskArrayRemove := by
  simp only [StdinWorld.taskArrayRemove]
  split
  · exact (h.lock.congr (t := (s.event (.lock .taskArray)).setSlot _ false) rfl).unlock.log
  · exact h.lock.unlock.log

theorem LockSound.taskHandleDestroy (h : LockSound .live s) : LockSound .live s.taskHandleDestroy := by
  unfold StdinWorld.taskHandleDestroy
  refine LockSound.log (LockSound.congr
    (LockSound.closeDone (s := if s.handle.array then _ else s) ?_) rfl)
  split_ifs
  · exact h.taskArrayRemove
  · exact h

theorem LockSound.taskArrayDestroy (h : LockSound .live s) :
    LockSound .destroyed s.taskArrayDestroy := by
  have hd : LockSound .destroyed (s.event (.destroy .taskArray)) := by
    refine ⟨mutexSafe_snoc.mpr ⟨h.safe,fun m hm => ?_⟩,?_,?_⟩
    · cases hm
      exact h.array
    · rw [StdinWorld.event,life_snoc,h.queue]
      rfl
    · rw [StdinWorld.event,life_snoc]
      rfl
  exact hd.freeSlots.log

theorem LockSound.undo (h : LockSound .live s) : LockSound .destroyed s.undo.2 :=
  h.taskHandleDestroy.taskArrayDestroy

theorem LockSound.taskArrayInit (capacity : ℕ) (env : InitOutcome) (h : LockSound l s) :
    LockSound (if env.calloc then .live else l) (s.taskArrayInit capacity env).2 := by
  unfold StdinWorld.taskArrayInit
  split_ifs
  · have ha := h.acquire (.block s.fresh)
    refine LockSound.log ⟨mutexSafe_snoc.mpr ⟨ha.safe,fun m hm => hm.elim⟩,?_,?_⟩
    · exact life_snoc.trans ha.queue
    · exact life_snoc
  · exact LockSound.log (h.congr rfl)

theorem LockSound.taskHandleInit (env : InitOutcome) (h : LockSound l s) :
    LockSound l (s.taskHandleInit env).2 := by
  unfold StdinWorld.taskHandleInit
  split_ifs
  · exact LockSound.log ((h.acquire (.fd s.fresh)).congr rfl)
  · exact LockSound.log (h.congr rfl)

theorem LockSound.startThread (bufSize : UInt64) (priority : ℤ) (env : InitOutcome)
    (h : LockSound .live s) : LockSound (if env.malloc ∧ env.pthreadCreate then .live else .destroyed)
      (s.startThread bufSize priority env).2 := by
  have hnull : LockSound .live {s with line := none} := h.congr rfl
  have hline : LockSound .live {s.event (.acquire (.block s.fresh)) with
      line := some s.fresh, fresh := s.fresh+1, bufSizeArg := bufSize} :=
    (h.acquire (.block s.fresh)).congr rfl
  unfold StdinWorld.startThread
  cases hm : env.malloc with
  | false => exact hnull.log.undo
  | true =>
    cases hc : env.pthreadCreate with
    | false => exact hline.log.freeLine.undo
    | true => exact hline.congr rfl

theorem LockSound.forSlots {body : ℕ → StdinWorld → StdinWorld} (h : LockSound l s)
    (hbody : ∀ i s, LockSound l s → LockSound l (body i s)) : LockSound l (s.forSlots body) :=
  forSlots_keeps hbody h

theorem LockSound.taskArrayStopAll (h : LockSound .live s) : LockSound .live s.taskArrayStopAll := by
  refine LockSound.log (LockSound.unlock (h.lock.forSlots fun _ t ht => ?_))
  exact LockSound.log (ht.congr rfl)

theorem LockSound.taskArrayPollAll (c : ShutdownChoice) (h : LockSound .live s) :
    LockSound .live (s.taskArrayPollAll c).2 := by
  simp only [StdinWorld.taskArrayPollAll]
  split_ifs
  · exact h.lock.unlock
  · exact h.lock.unlock.log
  · exact LockSound.release _ (LockSound.unlock ((h.lock.acquire _).congr rfl))

theorem LockSound.taskArrayCancelAll (h : LockSound .live s) : LockSound .live s.taskArrayCancelAll :=
  (h.lock.forSlots fun _ _ ht => ht.log).unlock.log

theorem LockSound.taskArrayJoinAll (c : ShutdownChoice) (h : LockSound .live s) :
    LockSound .live (s.taskArrayJoinAll c) :=
  (h.lock.forSlots fun _ _ ht => ht.log).unlock.log

theorem LockSound.destroySlot (i : ℕ) (h : LockSound .live s) : LockSound .live (s.destroySlot i) := by
  unfold StdinWorld.destroySlot StdinWorld.stdinCleanup
  refine LockSound.taskHandleDestroy (LockSound.congr (s := if s.handle.onCleanup then _ else s) ?_ rfl)
  split_ifs
  · exact h.freeLine.log
  · exact h
  · exact h

theorem LockSound.taskArrayHandlesDestroyAll (h : LockSound .live s) :
    LockSound .live s.taskArrayHandlesDestroyAll :=
  (h.lock.forSlots fun i _ ht => ht.destroySlot i).unlock.log

theorem LockSound.cancelUnlessDone {p : ℤ × StdinWorld} (h : LockSound .live p.2) :
    LockSound .live (StdinWorld.cancelUnlessDone p) := by
  unfold StdinWorld.cancelUnlessDone
  split_ifs
  · exact h.log.taskArrayCancelAll
  · exact h.log.taskArrayCancelAll
  · exact h

/-- With the lock initialised the whole shutdown uses it well. -/
theorem LockSound.shutdown (c : ShutdownChoice) (h : LockSound .live s) :
    LockSound .destroyed (s.shutdown c) :=
  ((((h.log.taskArrayStopAll.taskArrayPollAll c).cancelUnlessDone).taskArrayJoinAll
    c).taskArrayHandlesDestroyAll).taskArrayDestroy

end Locks

section Init
variable {s : StdinWorld} {env : InitOutcome} {l : Life}

/-- The handle finds room in an array which `task_array_init` has just made. -/
theorem taskArrayAdd_fresh (hcalloc : env.calloc = true) (henv : env.eventfd = true)
    (h : StdinHandle → StdinHandle) :
    ((((s.taskArrayInit 1 env).2.taskHandleInit env).2.setHandle
      (h ((s.taskArrayInit 1 env).2.taskHandleInit env).2.handle)).taskArrayAdd).1 = 0 := by
  simp [StdinWorld.taskArrayInit,StdinWorld.taskHandleInit,hcalloc,henv,StdinWorld.taskArrayAdd,
    StdinWorld.cells,StdinWorld.event,StdinWorld.log,StdinWorld.setHandle]

theorem taskArrayInit_ret (capacity : ℕ) :
    (s.taskArrayInit capacity env).1 = if env.calloc then 0 else -1 := by
  unfold StdinWorld.taskArrayInit
  split_ifs <;> rfl

theorem taskHandleInit_ret : (s.taskHandleInit env).1 = if env.eventfd then 0 else -1 := by
  unfold StdinWorld.taskHandleInit
  split_ifs <;> rfl

@[simp] theorem taskArrayDestroy_capacity : s.taskArrayDestroy.capacity = 0 := rfl

/-- `stdin_task_init` succeeds exactly when all calls of the system do. A failure leaves an array
of capacity 0, whose lock has been destroyed or was never initialised. -/
theorem stdinTaskInit_spec (bufSize : UInt64) (priority : ℤ) (env : InitOutcome)
    (h : LockSound l s) (hl : l ≠ .live) (hcap : s.capacity = 0) :
    env.AllSucceed ∧ (s.stdinTaskInit bufSize priority env).1 = 0 ∧
      LockSound .live (s.stdinTaskInit bufSize priority env).2 ∨
    ¬env.AllSucceed ∧ (s.stdinTaskInit bufSize priority env).1 = -1 ∧
      (s.stdinTaskInit bufSize priority env).2.capacity = 0 ∧
      ∃ l', l' ≠ .live ∧ LockSound l' (s.stdinTaskInit bufSize priority env).2 := by
  have ha := h.taskArrayInit 1 env
  simp only [StdinWorld.stdinTaskInit,taskArrayInit_ret,taskHandleInit_ret]
  cases hcalloc : env.calloc with
  | false =>
    rw [hcalloc] at ha
    refine .inr ⟨by simp [InitOutcome.AllSucceed,hcalloc],rfl,?_,l,hl,ha.log⟩
    simpa [StdinWorld.taskArrayInit,hcalloc,StdinWorld.log,StdinWorld.event] using hcap
  | true =>
    rw [hcalloc] at ha
    have hh := ha.taskHandleInit env
    cases heventfd : env.eventfd with
    | false =>
      exact .inr ⟨by simp [InitOutcome.AllSucceed,heventfd],rfl,rfl,.destroyed,nofun,
        hh.log.taskArrayDestroy⟩
    | true =>
      have hset := hh.congr (t := ((s.taskArrayInit 1 env).2.taskHandleInit env).2.setHandle
        {((s.taskArrayInit 1 env).2.taskHandleInit env).2.handle with onCleanup := true}) rfl
      have hstart := hset.taskArrayAdd.startThread bufSize priority env
      have hadd := taskArrayAdd_fresh (s := s) hcalloc heventfd
        fun k => {k with onCleanup := true}
      simp only [if_true,ne_eq,not_true_eq_false,if_false,hadd]
      cases hmalloc : env.malloc with
      | false =>
        rw [hmalloc] at hstart
        refine .inr ⟨by simp [InitOutcome.AllSucceed,hmalloc],?_,?_,.destroyed,nofun,hstart⟩
        · simp [StdinWorld.startThread,hmalloc,StdinWorld.undo]
        · simp [StdinWorld.startThread,hmalloc,StdinWorld.undo]
      | true =>
        cases hcreate : env.pthreadCreate with
        | false =>
          rw [hmalloc,hcreate] at hstart
          refine .inr ⟨by simp [InitOutcome.AllSucceed,hcreate],?_,?_,.destroyed,nofun,hstart⟩
          · simp [StdinWorld.startThread,hmalloc,hcreate,StdinWorld.undo]
          · simp [StdinWorld.startThread,hmalloc,hcreate,StdinWorld.undo]
        | true =>
          rw [hmalloc,hcreate] at hstart
          refine .inl ⟨⟨hcalloc,heventfd,hmalloc,hcreate⟩,?_,hstart⟩
          simp [StdinWorld.startThread,hmalloc,hcreate]

@[simp] theorem forSlots_empty {body : ℕ → StdinWorld → StdinWorld} (hcap : s.capacity = 0) :
    s.forSlots body = s := by
  simp [StdinWorld.forSlots,hcap]

/-- The shutdown of an empty array: its lock is still locked and unlocked by each of the loops, and
then destroyed. -/
theorem shutdown_empty (c : ShutdownChoice) (hcap : s.capacity = 0) :
    ∃ rest, (s.shutdown c).events =
      s.events ++ [.lock .logQueue,.unlock .logQueue] ++ .lock .taskArray::rest := by
  let s₁ := (s.log (StdinWorld.mainLog .debug "received SIGINT, shutting down...")).taskArrayStopAll
  let p := s₁.taskArrayPollAll c
  have hstop : s₁.events = s.events ++ [.lock .logQueue,.unlock .logQueue] ++
      [.lock .taskArray,.unlock .taskArray,.lock .logQueue,.unlock .logQueue] ∧
      s₁.capacity = 0 := by
    simp [s₁,StdinWorld.taskArrayStopAll,StdinWorld.log,StdinWorld.event,hcap]
  have hpoll : StdinWorld.cancelUnlessDone p = p.2 ∧ p.2.capacity = 0 ∧
      p.2.events = s₁.events ++ [.lock .taskArray,.unlock .taskArray] := by
    simp [p,StdinWorld.taskArrayPollAll,StdinWorld.occupiedSlots,StdinWorld.event,hstop.2,
      taskArrayPollAll,occupied,StdinWorld.cancelUnlessDone]
  have hrest : ∀ u : StdinWorld, u.capacity = 0 → ∃ rest,
      ((u.taskArrayJoinAll c).taskArrayHandlesDestroyAll.taskArrayDestroy).events =
        u.events ++ rest := by
    intro u hu
    cases hs : u.slots <;>
      simp [StdinWorld.taskArrayJoinAll,StdinWorld.taskArrayHandlesDestroyAll,
        StdinWorld.taskArrayDestroy,StdinWorld.freeSlots,StdinWorld.log,StdinWorld.event,hu,hs]
  obtain ⟨rest,hr⟩ := hrest p.2 hpoll.2.1
  refine ⟨.unlock .taskArray::.lock .logQueue::.unlock .logQueue::.lock .taskArray::
    .unlock .taskArray::rest,?_⟩
  change (((StdinWorld.cancelUnlessDone p).taskArrayJoinAll
    c).taskArrayHandlesDestroyAll.taskArrayDestroy).events = _
  rw [hpoll.1,hr,hpoll.2.2,hstop.1]
  simp

theorem initial_sound (h : s.Initial) : LockSound .raw s := by
  obtain ⟨-,-,he⟩ := h
  refine ⟨?_,by rw [he]; rfl,by rw [he]; rfl⟩
  rw [he,←List.nil_append [_]]
  exact mutexSafe_snoc.mpr ⟨mutexSafe_nil,fun _ hm => by cases hm⟩

theorem initial_tidy (h : s.Initial) : Tidy s := by
  obtain ⟨hstatics,hfresh,he⟩ := h
  have huses : ∀ r, s.uses r = [StdinResource.fd 0].count r := by
    intro r
    have hr : releases s.events = [] := by
      rw [he]
      rfl
    simp [StdinWorld.uses,StdinWorld.held,hstatics,hr]
  refine ⟨fun r => ?_,fun r hr => ?_⟩
  · rw [huses]
    exact List.nodup_iff_count_le_one.mp (List.nodup_singleton _) r
  · rw [huses,List.count_pos_iff,List.mem_singleton] at hr
    rw [hr]
    exact hfresh

/-- Whatever fails, no block is freed and no descriptor closed twice. -/
theorem main_releases_nodup (bufSize : UInt64) (priority : ℤ) (env : InitOutcome)
    (c : ShutdownChoice) (h : s.Initial) :
    (releases (s.mainFromInit bufSize priority env c).events).Nodup := by
  have htidy := (initial_tidy h).stdinTaskInit bufSize priority env
  have hmain : Tidy (s.mainFromInit bufSize priority env c) := by
    simp only [StdinWorld.mainFromInit]
    split_ifs
    · exact (htidy.spend (Spends.refl _).log).shutdown c
    · exact htidy.shutdown c
  exact List.nodup_iff_count_le_one.mpr fun r => (Nat.le_add_right _ _).trans (hmain.once r)

/-- The six operations of the shutdown use the locks only while they are initialised, free every
block once at most and close every descriptor once at most, if and only if nothing in
`stdin_task_init` failed. -/
theorem shutdown_safe_iff (bufSize : UInt64) (priority : ℤ) (env : InitOutcome)
    (c : ShutdownChoice) (h : s.Initial) :
    MutexSafe (s.mainFromInit bufSize priority env c).events ∧
      (releases (s.mainFromInit bufSize priority env c).events).Nodup ↔ env.AllSucceed := by
  have hcap : s.capacity = 0 := by rw [h.1]
  rw [and_iff_left (main_releases_nodup bufSize priority env c h)]
  obtain ⟨henv,hret,hsound⟩ | ⟨henv,hret,hempty,l,hl,hsound⟩ :=
    stdinTaskInit_spec bufSize priority env (initial_sound h) (by decide) hcap
  · simp only [StdinWorld.mainFromInit,hret,ne_eq,not_true_eq_false,if_false,henv,iff_true]
    exact (hsound.shutdown c).safe
  · simp only [henv,iff_false]
    intro hsafe
    obtain ⟨rest,hevents⟩ := shutdown_empty c
      (s := (s.stdinTaskInit bufSize priority env).2.log
        (StdinWorld.mainLog .error "failed to initialize stdin_task")) hempty
    have hmain : s.mainFromInit bufSize priority env c =
        ((s.stdinTaskInit bufSize priority env).2.log
          (StdinWorld.mainLog .error "failed to initialize stdin_task")).shutdown c := by
      simp [StdinWorld.mainFromInit,hret]
    rw [hmain] at hsafe
    have hlive := hsafe _ _ _ MutexName.taskArray hevents rfl
    have hlog := (hsound.log (c := StdinWorld.mainLog .error "failed to initialize stdin_task")).log
      (c := StdinWorld.mainLog .debug "received SIGINT, shutting down...")
    have harray := hlog.array
    simp only [StdinWorld.log,StdinWorld.event,List.append_assoc] at harray hlive
    exact hl (harray.symm.trans hlive)

end Init

/-- The poll of the shutdown runs into its timeout, then the task has ended. -/
def lateTask : ShutdownChoice := ⟨true,0,[false,false],true⟩

theorem shutdown_safe_iff_lateTask :
    MutexSafe (freshWorld.mainFromInit 256 12 ⟨true,true,true,true,[]⟩ lateTask).events ∧
      ¬MutexSafe (freshWorld.mainFromInit 256 12 ⟨false,true,true,true,[]⟩ lateTask).events := by
  have hok := shutdown_safe_iff 256 12 ⟨true,true,true,true,[]⟩ lateTask freshWorld_initial
  have hfail := shutdown_safe_iff 256 12 ⟨false,true,true,true,[]⟩ lateTask freshWorld_initial
  refine ⟨(hok.mpr (by decide)).1,fun hsafe => ?_⟩
  exact absurd (hfail.mp ⟨hsafe,main_releases_nodup _ _ _ _ freshWorld_initial⟩) (by decide)

/-- Without memory for the input buffer, `main` locks a lock which `stdin_task_init` destroyed. -/
theorem failed_malloc_breaks_shutdown :
    freshWorld.Initial ∧
      (freshWorld.stdinTaskInit 256 12 ⟨true,true,false,true,[]⟩).1 = -1 ∧
      ¬MutexSafe (freshWorld.mainFromInit 256 12 ⟨true,true,false,true,[]⟩ lateTask).events := by
  refine ⟨freshWorld_initial,by decide,fun hsafe => ?_⟩
  have hlife := hsafe
    ((freshWorld.mainFromInit 256 12 ⟨true,true,false,true,[]⟩ lateTask).events.take 29)
    (.lock .taskArray)
    ((freshWorld.mainFromInit 256 12 ⟨true,true,false,true,[]⟩ lateTask).events.drop 30)
    .taskArray (by decide) rfl
  revert hlife
  decide

end TTK4145.Rtsystem
