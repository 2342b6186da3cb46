import TTK4145.Rtsystem.Tasks.StdinTruncation

/-! What is left to do for `stdin_task` when it is stopped. Its loop tests for that in front of each
`poll`; the flush loop in it does not. -/
namespace TTK4145.Rtsystem
open Lib
variable {s t : StdinTask} {bufSize : UInt64} {n q k : ℕ} {a : StdinInput}
  {tr : List (StdinTask × StdinInput)}

namespace StdinTask

/-- A statement of the loop, outside of the flush loop. -/
def inLoop (s : StdinTask) : StdinInput → Bool
  | .stop => false
  | .test | .poll _ _ | .read _ => !s.stage.flushing

/-- The start of a line is taken in. -/
def begins (s : StdinTask) : StdinInput → Bool
  | .read (.bytes k) => !s.stage.flushing && decide (0<k)
  | _ => false

/-- A `read` of the flush loop. -/
def flushes (s : StdinTask) : StdinInput → Bool
  | .read _ => s.stage.flushing
  | .stop | .test | .poll _ _ => false

/-- The statements of the loop that are left once it has been stopped. -/
def left (s : StdinTask) : ℕ :=
  match s.stage with
  | .poll => 3
  | .read => 2
  | .test | .flush _ _ => 1
  | .exited => 0

/-- The lines that it may still begin to take in. -/
def linesLeft (s : StdinTask) : ℕ :=
  match s.stage with
  | .poll | .read => 1
  | .test | .flush _ _ | .exited => 0

/-- The calls of `read` by which it may still flush: each but the last one takes a byte. -/
def readsLeft (s : StdinTask) : ℕ :=
  match s.stage with
  | .poll | .read => s.unread.length
  | .flush _ _ => s.unread.length+1
  | .test | .exited => 0

theorem left_le (s : StdinTask) :
    s.left ≤ 3 ∧ s.linesLeft ≤ 1 ∧ s.readsLeft ≤ s.unread.length+1 := by
  unfold left linesLeft readsLeft
  refine ⟨?_,?_,?_⟩ <;> split <;> omega

theorem left_pos (h : s.stage ≠ .exited) : 0 < s.left := by
  unfold left
  split
  · exact Nat.succ_pos 2
  · exact Nat.succ_pos 1
  · exact Nat.succ_pos 0
  · exact Nat.succ_pos 0
  · rename_i hs
    exact absurd hs h

@[simp] theorem finish_running : (s.finish n).running = s.running := by
  simp only [finish]
  split_ifs <;> rfl

/-- The bytes of a line end in the buffer, or the flush loop begins behind them. -/
theorem takeIn_ends (h0 : 0<k) (hk : k ≤ s.unread.length) :
    (s.takeIn k).running = s.running ∧ (s.takeIn k).unread = s.unread.drop k ∧
      ((s.takeIn k).stage = .test ∨ ∃ q, (s.takeIn k).stage = .flush k q) := by
  obtain ⟨b,extra,-,-,-,⟨-,ht⟩ | ⟨-,ht⟩⟩ := takeIn_cases h0 hk
  · rw [ht]
    exact ⟨rfl,rfl,.inr ⟨_,rfl⟩⟩
  · rw [ht]
    exact ⟨finish_running,finish_unread,.inl finish_stage⟩

theorem discard_ends (hs : s.stage = .flush n q) :
    (s.discard n q k).running = s.running ∧ (s.discard n q k).unread = s.unread.drop k ∧
      ((s.discard n q k).stage = .test ∨ (s.discard n q k).stage = .flush n q) := by
  simp only [discard]
  split_ifs
  · exact ⟨finish_running,finish_unread,.inl finish_stage⟩
  · exact ⟨rfl,rfl,.inr hs⟩

/-- Nobody starts the task again, and every statement is one of those left. -/
theorem next_stopped (hr : s.running = false) (hn : s.next a = some t) : t.running = false ∧
    t.left+(s.inLoop a).toNat ≤ s.left ∧ t.linesLeft+(s.begins a).toNat ≤ s.linesLeft ∧
      t.readsLeft+(s.flushes a).toNat ≤ s.readsLeft := by
  cases a with
  | stop =>
    cases hn
    exact ⟨rfl,Nat.le_refl _,Nat.le_refl _,Nat.le_refl _⟩
  | test =>
    simp only [next] at hn
    split_ifs at hn with hs hrun
    · rw [hr] at hrun
      cases hrun
    · cases hn
      simp [hr,report,goto,left,linesLeft,readsLeft,hs,inLoop,begins,flushes,StdinStage.flushing]
  | poll outcome err =>
    simp only [next] at hn
    split_ifs at hn with hs
    cases hn
    cases outcome <;>
      simp [hr,report,goto,left,linesLeft,readsLeft,hs,inLoop,begins,flushes,StdinStage.flushing]
  | read r =>
    simp only [next,stepRead] at hn
    split at hn
    · rename_i hs
      cases r with
      | error err =>
        cases hn
        simp [hr,report,goto,left,linesLeft,readsLeft,hs,inLoop,begins,flushes,StdinStage.flushing]
      | bytes k =>
        simp only at hn
        split_ifs at hn with hk h0
        · cases hn
          simp [hr,goto,left,linesLeft,readsLeft,hs,h0,inLoop,begins,flushes,StdinStage.flushing]
        · have hpos := Nat.pos_of_ne_zero h0
          have hends := takeIn_ends (s := {s with requests := s.requests ++ [s.room]}) hpos hk.2
          rw [Option.some.inj hn] at hends
          obtain ⟨hrun,hunread,hstage⟩ := hends
          refine ⟨hrun.trans hr,?_⟩
          obtain hstage | ⟨q,hstage⟩ := hstage <;>
            simp only [left,linesLeft,readsLeft,hs,hstage,hunread,inLoop,begins,flushes,
              StdinStage.flushing,List.length_drop,hpos,decide_true,Bool.not_false,Bool.and_self,
              Bool.toNat_true,Bool.toNat_false] <;>
            omega
    · rename_i n q hs
      cases r with
      | error err =>
        cases hn
        simp [hr,left,linesLeft,readsLeft,hs,inLoop,begins,flushes,StdinStage.flushing]
      | bytes k =>
        simp only at hn
        split_ifs at hn with hk h0
        · cases hn
          simp [hr,left,linesLeft,readsLeft,hs,inLoop,begins,flushes,StdinStage.flushing]
        · cases hn
          obtain ⟨hrun,hunread,hstage⟩ := discard_ends (k := k) hs
          refine ⟨hrun.trans hr,?_⟩
          obtain hstage | hstage := hstage <;>
            simp only [left,linesLeft,readsLeft,hs,hstage,hunread,inLoop,begins,flushes,
              StdinStage.flushing,List.length_drop,Bool.not_true,Bool.false_and,Bool.toNat_true,
              Bool.toNat_false] <;>
            omega
    · cases hn

end StdinTask

/-- Once it is stopped the task stays so, and it has this much left to do. -/
theorem StdinTask.next_left (hn : s.next a = some t) :
    ((!t.running) = true → t.left ≤ 3 ∧ t.linesLeft ≤ 1 ∧ t.readsLeft ≤ t.unread.length+1) ∧
    ((!s.running) = true → (!t.running) = true ∧ t.left+(s.inLoop a).toNat ≤ s.left ∧
      t.linesLeft+(s.begins a).toNat ≤ s.linesLeft ∧
      t.readsLeft+(s.flushes a).toNat ≤ s.readsLeft) := by
  refine ⟨fun _ => t.left_le,fun hr => ?_⟩
  rw [Bool.not_eq_true'] at hr ⊢
  exact next_stopped hr hn

theorem StdinTask.running_init (h : (machine bufSize).init s) : (!s.running) = false := by
  obtain ⟨mem,stream,rfl⟩ := machine_init h
  rfl

/-- The flush loop gets its bytes from what has not been read when the task is stopped. -/
theorem StdinTask.flushes_le (run : Exec (machine bufSize) tr s) :
    tr.countP (fun p => !p.1.running && p.1.flushes p.2) ≤ (s.taken ++ s.unread).length+1 := by
  obtain ⟨s₀,hinit,run⟩ := run.started
  have h : s.taken ++ s.unread = s₀.taken ++ s₀.unread ∧ _ :=
    run.countP_since_le (c := fun u => !u.running) (m := readsLeft) (f := flushes)
      (n := (s₀.taken ++ s₀.unread).length+1) (C := fun _ _ => True)
      (I := fun u => u.taken ++ u.unread = s₀.taken ++ s₀.unread)
      (fun u hu => by
        subst hu
        exact ⟨rfl,running_init hinit⟩)
      (fun u a t hi _ hn => by
        have h := next_left hn
        have hi' := (next_input hn).trans hi
        have hle : t.unread.length ≤ (s₀.taken ++ s₀.unread).length := by
          rw [← hi',List.length_append]
          exact Nat.le_add_left _ _
        exact ⟨hi',fun _ ht => (h.1 ht).2.2.trans (Nat.succ_le_succ hle),
          fun hr => ⟨(h.2 hr).1,(h.2 hr).2.2.2⟩⟩)
      fun _ _ => trivial
  obtain ⟨hinput,hbefore,hafter⟩ := h
  rw [hinput]
  cases hr : !s.running with
  | false => exact (hbefore hr).trans_le (Nat.zero_le _)
  | true => exact (Nat.le_add_right _ _).trans (hafter hr)

/-- However long the input: once the task has been stopped, at most three statements of its loop
are executed, which begin at most one line, and the flush loop, which does not test for the stop,
does not call `read` more often than there are bytes for it, and once more. -/
theorem stdin_task_ends (run : Exec (StdinTask.machine bufSize) tr s) :
    tr.countP (fun p => !p.1.running && p.1.inLoop p.2) ≤ 3 ∧
    (s.stage ≠ .exited → tr.countP (fun p => !p.1.running && p.1.inLoop p.2)<3) ∧
    tr.countP (fun p => !p.1.running && p.1.begins p.2) ≤ 1 ∧
    tr.countP (fun p => !p.1.running && p.1.flushes p.2) ≤ (s.taken ++ s.unread).length+1 := by
  obtain ⟨hall,hlt⟩ := run.countP_since_lt (c := fun s => !s.running) (m := StdinTask.left)
    (f := StdinTask.inLoop) (n := 3) (fun _ => StdinTask.running_init) (by decide) fun s a t hn =>
      have h := StdinTask.next_left hn
      ⟨fun _ ht => (h.1 ht).1,fun hr => ⟨(h.2 hr).1,(h.2 hr).2.1⟩⟩
  obtain ⟨hone,-⟩ := run.countP_since_lt (c := fun s => !s.running) (m := StdinTask.linesLeft)
    (f := StdinTask.begins) (n := 1) (fun _ => StdinTask.running_init) (by decide) fun s a t hn =>
      have h := StdinTask.next_left hn
      ⟨fun _ ht => (h.1 ht).2.1,fun hr => ⟨(h.2 hr).1,(h.2 hr).2.2.1⟩⟩
  exact ⟨hall,fun hs => hlt (StdinTask.left_pos hs),hone,StdinTask.flushes_le run⟩

/-- The stop comes before `poll`; the line that is typed then is flushed before the task exits. -/
theorem stdin_task_ends_flushing : ∃ tr s, Exec (StdinTask.machine 5) tr s ∧
    s.stage = .exited ∧ s.log = [.ready,.overflow,.received (cBytes "shut"),.exiting,.markedDone] ∧
    tr.countP (fun p => !p.1.running && p.1.inLoop p.2) = 3 ∧
    tr.countP (fun p => !p.1.running && p.1.flushes p.2) = 2 ∧
    tr.countP (fun p => !p.1.running && p.1.begins p.2) ≤ 1 := by
  have hv : ((StdinTask.machine 5).run (.start 5 (fun _ => 0) (cBytes "shutdown\n"))
      [.test,.stop,.poll .ready [],.read (.bytes 4),.read (.bytes 3),.read (.bytes 2),.test]).map
      (fun s => (s.stage,s.log)) =
      some (.exited,[.ready,.overflow,.received (cBytes "shut"),.exiting,.markedDone]) := by decide
  obtain ⟨s,hs,hr⟩ := Option.map_eq_some_iff.mp hv
  rw [Prod.mk.injEq] at hr
  have run := Exec.of_run (StdinTask.start_init 5 _ _) hs
  exact ⟨_,s,run,hr.1,hr.2,by decide,by decide,(stdin_task_ends run).2.2.1⟩

end TTK4145.Rtsystem
