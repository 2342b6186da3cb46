import TTK4145.Rtsystem.Tasks.StdinTask

/-! The bytes of the input buffer that `stdin_task` uses, and the length that it passes to `read`. -/
namespace TTK4145.Rtsystem
open Lib
variable {s t : StdinTask} {bufSize : UInt64} {n q k : ℕ} {a : StdinInput}
  {tr : List (StdinTask × StdinInput)}

/-- Every byte used is inside the buffer, and `line_buf_size - 1` was computed without
wrap-around. -/
def InBounds (s : StdinTask) : Prop :=
  (∀ i ∈ s.line.accessed, i<s.bufSize.toNat) ∧ ∀ r ∈ s.requests, r.toNat+1 = s.bufSize.toNat

/-- `n` bytes in the buffer leave room for the terminator. -/
structure BoundsInv (s : StdinTask) : Prop where
  inBounds : InBounds s
  room : s.room.toNat+1 = s.bufSize.toNat
  flush : ∀ n q, s.stage = .flush n q → n ≤ s.room.toNat

theorem room_add_one (h : 1 ≤ bufSize.toNat) : (bufSize-1).toNat+1 = bufSize.toNat := by
  rw [UInt64.toNat_sub_of_le bufSize 1 (UInt64.le_iff_toNat_le.mpr h)]
  exact Nat.sub_add_cancel h

theorem stripNewline_accessed (b : ByteBuf) (n : ℕ) :
    ∃ new, (StdinTask.stripNewline b n).1.accessed = b.accessed ++ new ∧ ∀ i ∈ new, i ≤ n := by
  unfold StdinTask.stripNewline
  split_ifs
  · refine ⟨[n-1,n-1],by simp,?_⟩
    intro i hi
    have : i = n-1 := by simpa using hi
    omega
  · refine ⟨[n-1],rfl,?_⟩
    intro i hi
    have : i = n-1 := by simpa using hi
    omega

theorem stripNewline_le (b : ByteBuf) (n : ℕ) : (StdinTask.stripNewline b n).2 ≤ n := by
  unfold StdinTask.stripNewline
  split_ifs
  · exact Nat.sub_le n 1
  · exact Nat.le_refl n

/-- The end of the loop body uses no index above the number of bytes. -/
theorem finish_accessed (s : StdinTask) (n : ℕ) :
    ∃ new, (s.finish n).line.accessed = s.line.accessed ++ new ∧ ∀ i ∈ new, i ≤ n := by
  obtain ⟨new,hacc,hle⟩ := stripNewline_accessed s.line n
  have hn := stripNewline_le s.line n
  simp only [StdinTask.finish]
  split_ifs
  · exact ⟨new,hacc,hle⟩
  · have htext := ByteBuf.length_text_le (b := (StdinTask.stripNewline s.line n).1)
      (n := (StdinTask.stripNewline s.line n).2)
    refine ⟨new ++ List.range (((StdinTask.stripNewline s.line n).1.text
      (StdinTask.stripNewline s.line n).2).length+1),?_,fun i hi => ?_⟩
    · rw [←List.append_assoc,←hacc]
      rfl
    · obtain hi | hi := List.mem_append.mp hi
      · exact hle i hi
      · rw [List.mem_range] at hi
        omega

theorem InBounds.finish (h : InBounds s) (hn : n<s.bufSize.toNat) : InBounds (s.finish n) := by
  obtain ⟨new,hacc,hle⟩ := finish_accessed s n
  refine ⟨fun i hi => ?_,fun r hr => ?_⟩
  · rw [StdinTask.finish_bufSize]
    rw [hacc] at hi
    obtain hi | hi := List.mem_append.mp hi
    · exact h.1 i hi
    · have := hle i hi
      omega
  · rw [StdinTask.finish_bufSize]
    rw [StdinTask.finish_requests] at hr
    exact h.2 r hr

theorem InBounds.takeIn (h : InBounds s) (hn : k<s.bufSize.toNat) (h0 : 0<k)
    (hk : k ≤ s.unread.length) : InBounds (s.takeIn k) := by
  obtain ⟨b,extra,-,hacc,hextra,hcases⟩ := StdinTask.takeIn_cases h0 hk
  have htaking : InBounds (s.taking k b) := by
    refine ⟨fun i hi => ?_,h.2⟩
    change i ∈ b.accessed at hi
    rw [hacc,List.mem_append,List.mem_append,List.mem_cons,List.mem_range] at hi
    obtain hi | hi | hi | hi := hi
    · exact h.1 i hi
    · exact hi.trans hn
    · exact hi.trans_lt hn
    · have := hextra i hi
      change i<s.bufSize.toNat
      omega
  obtain ⟨-,ht⟩ | ⟨-,ht⟩ := hcases
  · rw [ht]
    exact htaking
  · rw [ht]
    exact htaking.finish hn

/-- The end of the loop body leaves no bytes to flush. -/
theorem BoundsInv.of_finish (hin : InBounds (s.finish n))
    (hroom : s.room.toNat+1 = s.bufSize.toNat) : BoundsInv (s.finish n) := by
  refine ⟨hin,?_,fun n q hstage => ?_⟩
  · rw [StdinTask.room,StdinTask.finish_bufSize]
    exact hroom
  · rw [StdinTask.finish_stage] at hstage
    cases hstage

theorem BoundsInv.next (h : BoundsInv s) (hn : s.next a = some t) : BoundsInv t := by
  have hroom := h.room
  obtain ⟨hq,-,-⟩ | ⟨k,rfl,-,h0,hk,hlen,rfl⟩ | ⟨n,q,hs,-,rfl⟩ | ⟨n,q,k,hs,-,h0,-,hlen,rfl⟩ :=
    StdinTask.next_cases hn
  · refine ⟨⟨?_,?_⟩,?_,?_⟩
    · rw [hq.line,hq.bufSize]
      exact h.inBounds.1
    · rw [hq.bufSize]
      obtain hr | hr := hq.requests
      · rw [hr]
        exact h.inBounds.2
      · rw [hr]
        intro r hmem
        obtain hmem | hmem := List.mem_append.mp hmem
        · exact h.inBounds.2 r hmem
        · rw [List.mem_singleton.mp hmem]
          exact hroom
    · rw [StdinTask.room,hq.bufSize]
      exact hroom
    · intro n q hstage
      rw [StdinTask.room,hq.bufSize]
      obtain hst | ⟨-,hst⟩ := hq.stage
      · exact h.flush n q (hst ▸ hstage)
      · rw [hstage] at hst
        cases hst
  · have hreq : InBounds {s with requests := s.requests ++ [s.room]} := by
      refine ⟨h.inBounds.1,fun r hr => ?_⟩
      obtain hr | hr := List.mem_append.mp hr
      · exact h.inBounds.2 r hr
      · rw [List.mem_singleton.mp hr]
        exact hroom
    have hin := hreq.takeIn (k := k) (by change k<s.bufSize.toNat; omega) h0 hlen
    obtain ⟨b,extra,-,-,-,hcases⟩ := StdinTask.takeIn_cases
      (s := {s with requests := s.requests ++ [s.room]}) h0 hlen
    obtain ⟨ho,ht⟩ | ⟨-,ht⟩ := hcases
    · rw [ht] at hin ⊢
      refine ⟨hin,hroom,fun n q hstage => ?_⟩
      cases hstage
      exact hk
    · rw [ht] at hin ⊢
      exact .of_finish hin hroom
  · have hle := h.flush n q hs
    exact .of_finish (h.inBounds.finish (by omega)) hroom
  · have hle := h.flush n q hs
    simp only [StdinTask.discard]
    split_ifs
    · exact .of_finish (InBounds.finish h.inBounds (by change n<s.bufSize.toNat; omega)) hroom
    · exact ⟨h.inBounds,hroom,h.flush⟩

theorem BoundsInv.run (h1 : 1 ≤ bufSize.toNat)
    (run : Exec (StdinTask.machine bufSize) tr s) : BoundsInv s := by
  induction run with
  | init h =>
    obtain ⟨mem,stream,rfl⟩ := StdinTask.machine_init h
    exact ⟨⟨nofun,nofun⟩,room_add_one h1,nofun⟩
  | step run hn ih => exact ih.next hn

/-- The first `read` of a task with a buffer of no bytes. -/
def firstRead : List StdinInput := [.test,.poll .ready [],.read (.bytes 0)]

/-- A task stays inside its buffer in every run, and never wraps around, exactly when its buffer
has a byte at all. -/
theorem buffer_in_bounds_iff (bufSize : UInt64) :
    (∀ tr s, Exec (StdinTask.machine bufSize) tr s → InBounds s) ↔ 1 ≤ bufSize.toNat := by
  refine ⟨fun hall => ?_,fun h1 tr s run => (BoundsInv.run h1 run).inBounds⟩
  by_contra h0
  have hzero : bufSize = 0 := UInt64.toNat_inj.mp (by simpa using h0)
  subst hzero
  have hrun : ((StdinTask.machine 0).run (.start 0 (fun _ => 0) []) firstRead).map
      (·.requests) = some [0-1] := by rfl
  obtain ⟨s,hs,hr⟩ := Option.map_eq_some_iff.mp hrun
  have hspec := hall _ s (Exec.of_run (StdinTask.start_init 0 _ []) hs)
  have hwrap := hspec.2 (0-1) (by rw [hr]; exact List.mem_singleton_self _)
  have hsize := (s.bufSize).toNat_lt
  rw [←hwrap] at hsize
  revert hsize
  decide

/-- `stdin_task_init(0, …)` succeeds when `malloc(0)` is not `NULL`. The task then asks for
`2^64 - 1` bytes, and the first byte that comes is outside of its buffer. -/
theorem zero_size_overruns : ∃ tr s, Exec (StdinTask.machine 0) tr s ∧ s.bufSize.toNat = 0 ∧
    s.requests.map UInt64.toNat = [2^64-1] ∧ 0 ∈ s.line.accessed ∧ ¬InBounds s := by
  have hrun : ((StdinTask.machine 0).run (.start 0 (fun _ => 0) (cBytes "x"))
      [.test,.poll .ready [],.read (.bytes 1)]).map
      (fun s => (s.bufSize.toNat,s.requests.map UInt64.toNat,decide (0 ∈ s.line.accessed))) =
      some (0,[2^64-1],true) := by decide
  obtain ⟨s,hs,hr⟩ := Option.map_eq_some_iff.mp hrun
  simp only [Prod.mk.injEq,decide_eq_true_eq] at hr
  obtain ⟨hsize,hreq,hacc⟩ := hr
  refine ⟨_,s,Exec.of_run (StdinTask.start_init 0 _ _) hs,hsize,hreq,hacc,fun h => ?_⟩
  have := h.1 0 hacc
  omega

end TTK4145.Rtsystem
