import Mathlib.Algebra.Group.Int.Defs
import Mathlib.Algebra.Group.Nat.Defs
import Mathlib.Logic.Function.Basic
import TTK4145.Rtsystem.Core.TaskHelper

/-! `task_array_poll_all` of `rtsystem/src/core/task_helper.c` with its two loops over the slots and
the block of `struct pollfd` which it fills. -/
namespace TTK4145.Rtsystem
open Lib

/-- The slots of the array and the locals of the function. `fds` is the memory from the first entry
of the block on, `writes` the entries stored to so far. -/
structure PollFrame (τ : Type*) where
  slots : List (Option τ)
  count : ℕ
  fds : ℕ → PollFd
  fdIdx : ℕ
  writes : List ℕ

namespace PollFrame
variable {τ : Type*}

/-- `if (arr->slots[i] != NULL)` with its body. -/
def visit (body : τ → PollFrame τ → PollFrame τ) (s : PollFrame τ) (i : ℕ) : PollFrame τ :=
  match s.slots[i]? with
  | some (some h) => body h s
  | _ => s

/-- `for (size_t i = 0; i < arr->capacity; i++)`. -/
def forSlots (body : τ → PollFrame τ → PollFrame τ) (s : PollFrame τ) : PollFrame τ :=
  (List.range s.slots.length).foldl (visit body) s

def countSlots (s : PollFrame τ) : PollFrame τ :=
  s.forSlots fun _ s => {s with count := s.count+1}

/-- The number of entries for the block, `sig_fd` included if it is valid. -/
def nfds (s : PollFrame τ) (sigFd : Int32) : ℕ := s.count+if 0 ≤ sigFd then 1 else 0

/-- `fds[i].fd = fd; fds[i].events = POLLIN`. -/
def setFd (s : PollFrame τ) (i : ℕ) (fd : Int32) : PollFrame τ :=
  {s with
    fds := Function.update s.fds i {s.fds i with fd := fd, events := pollIn}
    writes := s.writes ++ [i]}

def fillTask (doneFd : τ → Int32) (h : τ) (s : PollFrame τ) : PollFrame τ :=
  {s.setFd s.fdIdx (doneFd h) with fdIdx := s.fdIdx+1}

/-- The loop behind the allocation and the entry for `sig_fd`. -/
def fill (doneFd : τ → Int32) (sigFd : Int32) (s : PollFrame τ) : PollFrame τ :=
  let s := s.forSlots (fillTask doneFd)
  if 0 ≤ sigFd then s.setFd s.fdIdx sigFd else s

/-- The frame in which `poll` is called. The block holds anything before it is filled. -/
def beforePoll (slots : List (Option τ)) (doneFd : τ → Int32) (sigFd : Int32)
    (memory : ℕ → PollFd) : PollFrame τ :=
  (countSlots ⟨slots,0,memory,0,[]⟩).fill doneFd sigFd

/-- The first `n` entries. -/
def entries (s : PollFrame τ) (n : ℕ) : List PollFd := (List.range n).map s.fds

/-- `poll` stores its answer in the entries. -/
def answered (s : PollFrame τ) (revents : List Int16) : PollFrame τ :=
  {s with fds := fun i => {s.fds i with revents := revents.getD i (s.fds i).revents}}

/-- The loop over the entries of the tasks. -/
def completed (s : PollFrame τ) : Int32 :=
  (List.range s.count).foldl (fun completed i =>
    if hasPollIn (s.fds i).revents then completed+1 else completed) 0

/-- The statements behind the call of `poll`. -/
def result (s : PollFrame τ) (sigFd ret : Int32) : Int32 :=
  if 0 ≤ sigFd ∧ 0<ret ∧ hasPollIn (s.fds (s.nfds sigFd-1)).revents then -2
  else
    let completed := if 0<ret then s.completed else 0
    if ret = 0 then -1 else completed

/-- `task_array_poll_all`, where `ret` and `revents` answer the call of `poll`. -/
def taskArrayPollAll (slots : List (Option τ)) (doneFd : τ → Int32) (sigFd : Int32)
    (malloc : Bool) (memory : ℕ → PollFd) (ret : Int32) (revents : List Int16) :
    Int32 × PollFrame τ :=
  let s := countSlots ⟨slots,0,memory,0,[]⟩
  if s.count = 0 then (0,s)
  else if !malloc then (-1,s)
  else
    let s := (s.fill doneFd sigFd).answered revents
    (s.result sigFd ret,s)

/-- What `poll` is asked for: the descriptors of the tasks in the order of their slots, then
`sig_fd`. -/
def descriptors (slots : List (Option τ)) (doneFd : τ → Int32) (sigFd : Int32) : List Int32 :=
  (occupied slots).map doneFd ++ if 0 ≤ sigFd then [sigFd] else []

section Loops
variable {body : τ → PollFrame τ → PollFrame τ} {s : PollFrame τ} {doneFd : τ → Int32}
  {sigFd : Int32} {l : List Int32}

theorem occupied_append (a b : List (Option τ)) : occupied (a ++ b) = occupied a ++ occupied b :=
  List.filterMap_append

/-- What each run of the body leaves alone is left alone by all of them. -/
theorem foldl_keeps {β : Type*} (field : PollFrame τ → β)
    (hbody : ∀ h s, field (body h s) = field s) (hs : List τ) (s : PollFrame τ) :
    field (hs.foldl (fun s h => body h s) s) = field s := by
  induction hs generalizing s with
  | nil => rfl
  | cons h hs ih =>
    rw [List.foldl_cons,ih,hbody]

/-- A body that does not store to the slots is run for the occupied ones, in their order. -/
theorem forSlots_eq (hbody : ∀ h s, (body h s).slots = s.slots) (s : PollFrame τ) :
    s.forSlots body = (occupied s.slots).foldl (fun s h => body h s) s := by
  have scan : ∀ n, (List.range n).foldl (visit body) s =
      (occupied (s.slots.take n)).foldl (fun s h => body h s) s := by
    intro n
    induction n with
    | zero => rfl
    | succ n ih =>
      rw [List.range_succ,List.foldl_append,ih,List.take_add_one,occupied_append,List.foldl_append]
      change visit body _ n = _
      rw [visit,foldl_keeps slots hbody]
      cases s.slots[n]? with
      | none => rfl
      | some x => cases x <;> rfl
  rw [forSlots,scan,List.take_length]

theorem countSlots_eq (s : PollFrame τ) :
    s.countSlots = {s with count := s.count+(occupied s.slots).length} := by
  have count : ∀ (hs : List τ) (v : PollFrame τ),
      hs.foldl (fun s _ => {s with count := s.count+1}) v = {v with count := v.count+hs.length} := by
    intro hs
    induction hs with
    | nil => exact fun v => rfl
    | cons h hs ih =>
      intro v
      rw [List.foldl_cons,ih,List.length_cons,Nat.add_comm hs.length 1,← Nat.add_assoc]
  rw [countSlots,forSlots_eq (by intro h s; rfl),count]

/-- The entries below `fd_idx` hold the descriptors of `l`, and no other has been stored to. -/
structure Filled (l : List Int32) (s : PollFrame τ) : Prop where
  fdIdx : s.fdIdx = l.length
  fds : (s.entries s.fdIdx).map PollFd.fd = l
  events : ∀ p ∈ s.entries s.fdIdx, p.events = pollIn
  writes : s.writes = List.range s.fdIdx

theorem entries_setFd (s : PollFrame τ) (n : ℕ) (fd : Int32) :
    (s.setFd n fd).entries (n+1) = s.entries n ++ [{s.fds n with fd := fd, events := pollIn}] := by
  rw [entries,List.range_succ,List.map_append,List.map_singleton,entries]
  congr 1
  · apply List.map_congr_left
    intro i hi
    have hin : i ≠ n := Nat.ne_of_lt (List.mem_range.mp hi)
    exact Function.update_of_ne hin _ _
  · exact congrArg (fun p => [p]) (Function.update_self ..)

/-- One more entry is filled. -/
theorem Filled.setFd (h : Filled l s) (fd : Int32) :
    Filled (l ++ [fd]) {s.setFd s.fdIdx fd with fdIdx := s.fdIdx+1} := by
  have he : ({s.setFd s.fdIdx fd with fdIdx := s.fdIdx+1} : PollFrame τ).entries (s.fdIdx+1) =
      s.entries s.fdIdx ++ [{s.fds s.fdIdx with fd := fd, events := pollIn}] := entries_setFd s _ fd
  refine ⟨?_,?_,?_,?_⟩
  · simpa using h.fdIdx
  · change List.map _ (entries _ (s.fdIdx+1)) = _
    rw [he,List.map_append,h.fds]
    rfl
  · change ∀ p ∈ entries _ (s.fdIdx+1),_
    rw [he]
    intro p hp
    rcases List.mem_append.mp hp with hp | hp
    · exact h.events p hp
    · rw [List.mem_singleton.mp hp]
  · change s.writes ++ [s.fdIdx] = List.range (s.fdIdx+1)
    rw [h.writes,List.range_succ]

/-- The loop that fills the block appends the descriptors of the occupied slots. -/
theorem Filled.forSlots (h : Filled l s) :
    Filled (l ++ (occupied s.slots).map doneFd) (s.forSlots (fillTask doneFd)) := by
  rw [forSlots_eq (by intro h s; rfl)]
  generalize occupied s.slots = hs
  induction hs generalizing l s with
  | nil => simpa using h
  | cons x hs ih =>
    have hx := ih (h.setFd (doneFd x))
    rw [List.append_assoc] at hx
    exact hx

theorem forSlots_keeps {β : Type*} (field : PollFrame τ → β)
    (hslots : ∀ h s, (body h s).slots = s.slots) (hbody : ∀ h s, field (body h s) = field s)
    (s : PollFrame τ) : field (s.forSlots body) = field s := by
  rw [forSlots_eq hslots]
  exact foldl_keeps field hbody _ s

end Loops

section Poll
variable {slots : List (Option τ)} {doneFd : τ → Int32} {sigFd : Int32} {memory : ℕ → PollFd}
  {s : PollFrame τ} {readable : Int32 → Bool} {ret : Int32} {revents : List Int16}

theorem fill_slots (s : PollFrame τ) : (s.fill doneFd sigFd).slots = s.slots := by
  have h : (s.forSlots (fillTask doneFd)).slots = s.slots :=
    forSlots_keeps PollFrame.slots (by intro h s; rfl) (by intro h s; rfl) s
  unfold fill
  split
  · exact h
  · exact h

theorem fill_count (s : PollFrame τ) : (s.fill doneFd sigFd).count = s.count := by
  have h : (s.forSlots (fillTask doneFd)).count = s.count :=
    forSlots_keeps PollFrame.count (by intro h s; rfl) (by intro h s; rfl) s
  unfold fill
  split
  · exact h
  · exact h

theorem beforePoll_slots : (beforePoll slots doneFd sigFd memory).slots = slots := by
  rw [beforePoll,fill_slots,countSlots_eq]

theorem beforePoll_count :
    (beforePoll slots doneFd sigFd memory).count = (occupied slots).length := by
  rw [beforePoll,fill_count,countSlots_eq]
  exact Nat.zero_add _

/-- The counting loop and the filling loop agree: every entry of the block is stored to once, and
together the entries hold the descriptors in order. -/
theorem beforePoll_block (slots : List (Option τ)) (doneFd : τ → Int32) (sigFd : Int32)
    (memory : ℕ → PollFd) :
    let s := beforePoll slots doneFd sigFd memory
    (s.entries (s.nfds sigFd)).map PollFd.fd = descriptors slots doneFd sigFd ∧
      (∀ p ∈ s.entries (s.nfds sigFd),p.events = pollIn) ∧
      s.writes = List.range (s.nfds sigFd) := by
  intro s
  let v : PollFrame τ := countSlots ⟨slots,0,memory,0,[]⟩
  have hv : v.slots = slots := by rw [show v = _ from countSlots_eq _]
  have hstart : Filled [] v := by
    rw [show v = _ from countSlots_eq _]
    exact ⟨rfl,rfl,by simp [entries],rfl⟩
  have htasks : Filled ((occupied slots).map doneFd) (v.forSlots (fillTask doneFd)) := by
    have h : Filled ([] ++ (occupied v.slots).map doneFd) (v.forSlots (fillTask doneFd)) :=
      hstart.forSlots
    rwa [hv] at h
  have hidx := htasks.fdIdx
  rw [List.length_map] at hidx
  have hcount : s.count = (occupied slots).length := beforePoll_count
  by_cases hsig : 0 ≤ sigFd
  · have hs : s = (v.forSlots (fillTask doneFd)).setFd (v.forSlots (fillTask doneFd)).fdIdx sigFd :=
      if_pos hsig
    have hn : s.nfds sigFd = (v.forSlots (fillTask doneFd)).fdIdx+1 := by
      rw [nfds,if_pos hsig,hcount,hidx]
    have h := htasks.setFd sigFd
    rw [hn,hs,descriptors,if_pos hsig]
    exact ⟨h.fds,h.events,h.writes⟩
  · have hs : s = v.forSlots (fillTask doneFd) := if_neg hsig
    have hn : s.nfds sigFd = (v.forSlots (fillTask doneFd)).fdIdx := by
      rw [nfds,if_neg hsig,hcount,hidx,Nat.add_zero]
    rw [hn,hs,descriptors,if_neg hsig,List.append_nil]
    exact ⟨htasks.fds,htasks.events,htasks.writes⟩

theorem hasPollIn_answered {i : ℕ} (hi : i<revents.length) :
    hasPollIn ((s.answered revents).fds i).revents = (revents.map hasPollIn).getD i false := by
  simp [answered,hi]

/-- The last loop counts the entries with `POLLIN`, as an `int`. -/
theorem completed_answered (hn : s.count ≤ revents.length) :
    (s.answered revents).completed =
      .ofInt (((revents.map hasPollIn).take s.count).count true) := by
  have count : ∀ n ≤ revents.length,
      (List.range n).foldl (fun completed i =>
        if hasPollIn ((s.answered revents).fds i).revents then completed+1 else completed) 0 =
        Int32.ofInt (((revents.map hasPollIn).take n).count true) := by
    intro n hn
    induction n with
    | zero => rfl
    | succ n ih =>
      have hlt : n<(revents.map hasPollIn).length := by simpa using Nat.lt_of_succ_le hn
      rw [List.range_succ,List.foldl_append,ih (Nat.le_of_succ_le hn),List.take_add_one,
        List.getElem?_eq_getElem hlt,List.count_append,Option.toList_some]
      simp only [List.foldl_cons,List.foldl_nil]
      rw [hasPollIn_answered hn,List.getD_eq_getElem?_getD,List.getElem?_eq_getElem hlt,
        Option.getD_some]
      cases (revents.map hasPollIn)[n] with
      | false => rfl
      | true =>
        push_cast
        rw [Int32.ofInt_add]
        rfl
  exact count s.count hn

theorem length_entries (s : PollFrame τ) (n : ℕ) : (s.entries n).length = n := by
  simp [entries]

/-- The statements behind the call of `poll`, read off the bits of its answer. -/
theorem result_answered (hpos : 0<s.nfds sigFd) (hlen : revents.length = s.nfds sigFd)
    (hret : (((revents.map hasPollIn).take s.count).count true : ℤ) ≤ ret.toInt) :
    ((s.answered revents).result sigFd ret).toInt =
      if 0 ≤ sigFd ∧ 0<ret.toInt ∧ (revents.map hasPollIn)[s.nfds sigFd-1]? = some true then (-2 : ℤ)
      else if ret.toInt = 0 then -1
      else if 0<ret.toInt then (((revents.map hasPollIn).take s.count).count true : ℤ) else 0 := by
  have hlast : s.nfds sigFd-1<revents.length := by omega
  have hle : s.count ≤ revents.length := by
    rw [hlen]
    exact Nat.le_add_right _ _
  have hbit : hasPollIn ((s.answered revents).fds (s.nfds sigFd-1)).revents = true ↔
      (revents.map hasPollIn)[s.nfds sigFd-1]? = some true := by
    rw [hasPollIn_answered hlast,List.getD_eq_getElem?_getD]
    simp [hlast]
  have hpos : 0<ret ↔ 0<ret.toInt := Int32.lt_iff_toInt_lt
  have hzero : ret = 0 ↔ ret.toInt = 0 := Int32.toInt_inj.symm
  have hcompleted : (s.answered revents).completed.toInt =
      ((revents.map hasPollIn).take s.count).count true := by
    have hmax := ret.toInt_lt
    rw [completed_answered hle]
    exact Int32.toInt_ofInt_of_le (by omega) (by omega)
  unfold result
  change (if 0 ≤ sigFd ∧ 0<ret ∧ hasPollIn ((s.answered revents).fds (s.nfds sigFd-1)).revents
    then (-2 : Int32) else _).toInt = _
  simp only [hbit,hpos,hzero]
  split_ifs
  · rfl
  · rfl
  · exact hcompleted
  · rfl

/-- The code refines the function on the bits of the answer, also when the allocation fails. -/
theorem taskArrayPollAll_refines (malloc : Bool)
    (hpoll : malloc = true → occupied slots ≠ [] →
      PollAnswer readable ((beforePoll slots doneFd sigFd memory).entries
        ((beforePoll slots doneFd sigFd memory).nfds sigFd)) ret revents) :
    (taskArrayPollAll slots doneFd sigFd malloc memory ret revents).1.toInt =
      TTK4145.Rtsystem.taskArrayPollAll slots (decide (0 ≤ sigFd)) malloc ret.toInt
        (revents.map hasPollIn) := by
  have hc : (countSlots ⟨slots,0,memory,0,[]⟩).count = (occupied slots).length := by
    rw [countSlots_eq]
    exact Nat.zero_add _
  simp only [taskArrayPollAll,TTK4145.Rtsystem.taskArrayPollAll,hc]
  by_cases hzero : (occupied slots).length = 0
  · rw [if_pos hzero,if_pos hzero]
    rfl
  · rw [if_neg hzero,if_neg hzero]
    cases malloc with
    | false => rfl
    | true =>
      have answer := hpoll rfl fun h => hzero (by rw [h]; rfl)
      have hcount : (beforePoll slots doneFd sigFd memory).count = (occupied slots).length :=
        beforePoll_count
      have hlen := answer.entries.length_eq
      rw [length_entries] at hlen
      have hr := result_answered (s := beforePoll slots doneFd sigFd memory)
        (by rw [nfds,hcount]; omega) hlen.symm (answer.count_le _)
      simp only [nfds,hcount] at hr
      change (((beforePoll slots doneFd sigFd memory).answered revents).result sigFd ret).toInt = _
      rw [hr]
      simp only [Bool.not_true,Bool.false_eq_true,if_false,decide_eq_true_eq,gt_iff_lt]
      split_ifs <;> rfl

/-- The bits of the tasks and, if `sig_fd` is valid, its own behind them. -/
theorem bits_eq (h : PollAnswer readable ((beforePoll slots doneFd sigFd memory).entries
      ((beforePoll slots doneFd sigFd memory).nfds sigFd)) ret revents) :
    revents.map hasPollIn = (occupied slots).map (fun h => polledReady readable (doneFd h)) ++
      if 0 ≤ sigFd then [readable sigFd] else [] := by
  obtain ⟨hfds,hin,-⟩ := beforePoll_block slots doneFd sigFd memory
  rw [h.bits hin,hfds,descriptors,List.map_append,List.map_map]
  congr 1
  split_ifs with hsig
  · rw [List.map_singleton,polledReady,decide_eq_true hsig,Bool.true_and]
  · rfl

/-- The results in terms of what is ready, once the bits are those of the tasks and of `sig_fd`. -/
theorem taskArrayPollAll_ready {bits : List Bool} {sig : Bool} {ready : τ → Bool} {r : ℤ}
    (hbits : bits = (occupied slots).map ready ++ if 0 ≤ sigFd then [sig] else [])
    (hne : occupied slots ≠ []) (hr : true ∈ bits → 0<r) (hr0 : 0 ≤ r) :
    TTK4145.Rtsystem.taskArrayPollAll slots (decide (0 ≤ sigFd)) true r bits =
      if 0 ≤ sigFd ∧ sig = true then (-2 : ℤ)
      else if r = 0 then -1
      else ((occupied slots).countP ready : ℤ) := by
  have hpos : 0<(occupied slots).length := List.length_pos_iff.mpr hne
  have htasks : (bits.take (occupied slots).length).count true = (occupied slots).countP ready := by
    rw [hbits,List.take_append_of_le_length (by simp),List.take_of_length_le (by simp),List.count,
      List.countP_map]
    congr 1
    funext h
    exact beq_true _
  simp only [TTK4145.Rtsystem.taskArrayPollAll,if_neg (Nat.ne_of_gt hpos),htasks]
  by_cases hsig : 0 ≤ sigFd
  · have hlast : bits[(occupied slots).length]? = some sig := by
      rw [hbits,if_pos hsig,List.getElem?_append_right (by simp)]
      simp
    have hmem : sig = true → 0<r := by
      rintro rfl
      exact hr (List.mem_of_getElem? hlast)
    simp only [hsig,decide_true,if_true,Nat.add_sub_cancel,hlast,true_and,Option.some.injEq]
    cases sig with
    | true => simp [hmem rfl]
    | false =>
      by_cases hz : r = 0
      · simp [hz]
      · simp [hz,show 0<r by omega]
  · by_cases hz : r = 0
    · simp [hsig,hz]
    · simp [hsig,hz,show 0<r by omega]

/-- The result of a call that polls, by what is readable. -/
theorem taskArrayPollAll_result (hne : occupied slots ≠ [])
    (answer : PollAnswer readable ((beforePoll slots doneFd sigFd memory).entries
      ((beforePoll slots doneFd sigFd memory).nfds sigFd)) ret revents) :
    (taskArrayPollAll slots doneFd sigFd true memory ret revents).1.toInt =
      if 0 ≤ sigFd ∧ readable sigFd = true then (-2 : ℤ)
      else if ret.toInt = 0 then -1
      else ((occupied slots).countP fun h => polledReady readable (doneFd h) : ℤ) := by
  rw [taskArrayPollAll_refines true fun _ _ => answer]
  apply taskArrayPollAll_ready (bits_eq answer) hne _ answer.ret_nonneg
  intro hmem
  have hcount := answer.count_le revents.length
  rw [List.take_of_length_le (by simp)] at hcount
  have := List.count_pos_iff.mpr hmem
  omega

/-- A readable `sig_fd` is an event. -/
theorem ret_ne_zero_of_signal
    (answer : PollAnswer readable ((beforePoll slots doneFd sigFd memory).entries
      ((beforePoll slots doneFd sigFd memory).nfds sigFd)) ret revents)
    (hsig : 0 ≤ sigFd ∧ readable sigFd = true) : ret.toInt ≠ 0 := by
  intro hzero
  have hbits := bits_eq answer
  rw [if_pos hsig.1,hsig.2] at hbits
  have hmem : true ∈ revents.map hasPollIn := by
    rw [hbits]
    exact List.mem_append_right _ (List.mem_singleton_self _)
  obtain ⟨r,hr,hin⟩ := List.mem_map.mp hmem
  exact hasPollIn_ne_zero hin (answer.ret_eq_zero.mp hzero r hr)

/-- The frame that a call with an occupied slot leaves. -/
theorem taskArrayPollAll_frame (ret : Int32) (hne : occupied slots ≠ []) :
    (taskArrayPollAll slots doneFd sigFd true memory ret revents).2 =
      (beforePoll slots doneFd sigFd memory).answered revents := by
  rw [taskArrayPollAll,beforePoll,countSlots_eq]
  simp [hne]

/-- Whatever the slots and the answer of `poll` are, the stores stay inside the block, its entries
are the descriptors in order, and the result tells the signal, the timeout and the number of tasks
that are ready apart. The slots are left alone. -/
theorem taskArrayPollAll_correct {result : Int32}
    (hpoll : occupied slots ≠ [] → PollAnswer readable
      ((beforePoll slots doneFd sigFd memory).entries
        ((beforePoll slots doneFd sigFd memory).nfds sigFd)) ret revents)
    (hrun : taskArrayPollAll slots doneFd sigFd true memory ret revents = (result,s)) :
    s.slots = slots ∧
    (∀ i ∈ s.writes,i<s.nfds sigFd) ∧
    (occupied slots = [] → result = 0) ∧
    (occupied slots ≠ [] →
      (s.entries (s.nfds sigFd)).map PollFd.fd =
        (occupied slots).map doneFd ++ (if 0 ≤ sigFd then [sigFd] else []) ∧
      (result = -2 ↔ 0 ≤ sigFd ∧ readable sigFd = true) ∧
      (result = -1 ↔ ∀ r ∈ revents,r = 0) ∧
      (result ≠ -2 → result ≠ -1 →
        result.toInt = (occupied slots).countP fun h => polledReady readable (doneFd h))) := by
  by_cases hempty : occupied slots = []
  · rw [taskArrayPollAll,countSlots_eq] at hrun
    simp only [hempty,List.length_nil,Nat.add_zero,if_true] at hrun
    cases hrun
    exact ⟨rfl,fun i hi => absurd hi List.not_mem_nil,fun _ => rfl,fun h => absurd hempty h⟩
  · have answer := hpoll hempty
    obtain ⟨hfds,-,hwrites⟩ := beforePoll_block slots doneFd sigFd memory
    have hs : s = (beforePoll slots doneFd sigFd memory).answered revents := by
      rw [← taskArrayPollAll_frame ret hempty,hrun]
    have hresult := taskArrayPollAll_result hempty answer
    rw [hrun] at hresult
    change result.toInt = _ at hresult
    have hminus2 : result = -2 ↔ result.toInt = -2 := Int32.toInt_inj.symm
    have hminus1 : result = -1 ↔ result.toInt = -1 := Int32.toInt_inj.symm
    subst hs
    refine ⟨beforePoll_slots,?_,fun h => absurd h hempty,fun _ => ⟨?_,?_,?_,?_⟩⟩
    · intro i hi
      change i ∈ (beforePoll slots doneFd sigFd memory).writes at hi
      rw [hwrites] at hi
      exact List.mem_range.mp hi
    · rw [← descriptors,← hfds]
      simp [entries,answered,nfds]
    · rw [hminus2,hresult]
      split_ifs with hready hzero
      · exact iff_of_true rfl hready
      · exact iff_of_false (by simp) hready
      · exact iff_of_false (by simp) hready
    · rw [hminus1,hresult,← answer.ret_eq_zero]
      split_ifs with hready hzero
      · exact iff_of_false (by simp) (ret_ne_zero_of_signal answer hready)
      · exact iff_of_true rfl hzero
      · exact iff_of_false (by simp) hzero
    · rw [Ne,hminus2,Ne,hminus1,hresult]
      split_ifs with hready hzero
      · exact fun h _ => absurd rfl h
      · exact fun _ h => absurd rfl h
      · exact fun _ _ => rfl

/-- The tasks of two slots around an empty one, with descriptors 5 and 7 of which 5 is readable, and
no event at the signal descriptor 3. -/
theorem taskArrayPollAll_correct_gap :
    ∃ s, taskArrayPollAll [some 5,none,some 7] id 3 true (fun _ => ⟨9,9,9⟩) 1 [1,0,0] = (1,s) ∧
      (∀ i ∈ s.writes,i<s.nfds 3) ∧ (s.entries (s.nfds 3)).map PollFd.fd = [5,7,3] := by
  have answer : PollAnswer (· == 5)
      ((beforePoll [some 5,none,some 7] id 3 (fun _ => ⟨9,9,9⟩)).entries 3) 1 [1,0,0] :=
    ⟨.cons (by decide) (.cons (by decide) (.cons (by decide) .nil)),by decide⟩
  have hrun : taskArrayPollAll [some 5,none,some 7] id 3 true (fun _ => ⟨9,9,9⟩) 1 [1,0,0] =
      (1,_) := rfl
  have hspec := taskArrayPollAll_correct (fun _ => answer) hrun
  exact ⟨_,hrun,hspec.2.1,(hspec.2.2.2 (by decide)).1⟩

end Poll
end PollFrame
end TTK4145.Rtsystem
