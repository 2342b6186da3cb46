import Mathlib.Algebra.Group.Int.Defs
import Mathlib.Algebra.Group.Nat.Defs
import Mathlib.Data.List.Perm.Basic
import TTK4145.Lib.Machine
import TTK4145.Lib.Channel

/-! The number server of `Exercise1/3 - shared variable/go/foo.go`: two workers send requests, one
server applies them to `i`. The numbers of requests and the capacities are parameters. -/
namespace TTK4145.Exercise1
open Lib

inductive Worker where
  | incrementing
  | decrementing
  deriving DecidableEq, Repr

/-- A worker has `left` rounds of its loop before it, then the send on `doneChan`. -/
inductive WorkerPc where
  | loop (left : ℕ)
  | returned
  deriving DecidableEq, Repr

/-- The outer `select`, the one that drains, and the end of `main`. -/
inductive ServerPc where
  | serve
  | drain
  | returned
  deriving DecidableEq, Repr

/-- `ch .incrementing` is `iChan` and `ch .decrementing` is `dChan`. The histories `sent` and
`applied` list the requests in the order in which they are sent and taken. -/
structure NumberServer where
  i : Int64
  done : ℤ
  ch : Worker → Channel Worker Bool
  doneChan : Channel Worker Bool
  worker : Worker → WorkerPc
  pc : ServerPc
  printed : List Int64
  sent : List Worker
  applied : List Worker

inductive ServerAction where
  | work (w : Worker)
  | request (w : Worker)
  | done
  | default
  deriving DecidableEq, Repr

/-- The variable `i` as it is declared. -/
def initialNumber : Int64 := -1

/-- What `main` does with `i` for one request of a worker. -/
def Worker.apply (i : Int64) : Worker → Int64
  | incrementing => i+1
  | decrementing => i-1

namespace NumberServer

def start (sends capacity : Worker → ℕ) (doneCapacity : ℕ) : NumberServer where
  i := initialNumber
  done := 2
  ch := fun w => .make (capacity w)
  doneChan := .make doneCapacity
  worker := fun w => .loop (sends w)
  pc := .serve
  printed := []
  sent := []
  applied := []

/-- A parked worker goes on only when its value is taken. -/
def Blocked (s : NumberServer) (w : Worker) : Prop := (s.ch w).Waits w ∨ s.doneChan.Waits w

instance (s : NumberServer) (w : Worker) : Decidable (s.Blocked w) :=
  inferInstanceAs (Decidable (_ ∨ _))

def setWorker (s : NumberServer) (w : Worker) (pc : WorkerPc) : NumberServer :=
  {s with worker := Function.update s.worker w pc}

def setChan (s : NumberServer) (w : Worker) (c : Channel Worker Bool) : NumberServer :=
  {s with ch := Function.update s.ch w c}

/-- One statement of `incrementing` or `decrementing`. -/
def stepWorker (s : NumberServer) (w : Worker) : Option NumberServer :=
  if s.Blocked w then none else
    match s.worker w with
    | .loop (left+1) => some {(s.setWorker w (.loop left)).setChan w ((s.ch w).send w true) with
        sent := s.sent ++ [w]}
    | .loop 0 => some {s.setWorker w .returned with doneChan := s.doneChan.send w true}
    | .returned => none

/-- The cases for `iChan` and `dChan`, the same in both `select` statements. -/
def stepRequest (s : NumberServer) (w : Worker) : Option NumberServer :=
  (s.ch w).recv.map fun (_,c) => {s.setChan w c with
    i := w.apply s.i
    applied := s.applied ++ [w]}

/-- The case for `doneChan`, which only the outer `select` has. -/
def stepDone (s : NumberServer) : Option NumberServer :=
  if s.pc = .serve then
    s.doneChan.recv.map fun (_,c) => {s with
      doneChan := c
      done := s.done-1
      pc := if s.done-1 = 0 then .drain else .serve}
  else none

/-- The default of the inner `select` is taken when neither channel has a value. -/
def stepDefault (s : NumberServer) : Option NumberServer :=
  if s.pc = .drain ∧ ∀ w ∈ [Worker.incrementing,.decrementing], (s.ch w).recv.isNone then
    some {s with printed := s.printed ++ [s.i], pc := .returned}
  else none

/-- Any ready party may go on, and `select` may take any ready case. The return of `main` ends the
program. -/
def next (s : NumberServer) (a : ServerAction) : Option NumberServer :=
  if s.pc = .returned then none else
    match a with
    | .work w => s.stepWorker w
    | .request w => s.stepRequest w
    | .done => s.stepDone
    | .default => s.stepDefault

def machine (sends capacity : Worker → ℕ) (doneCapacity : ℕ) :
    Machine NumberServer ServerAction where
  init s := s = start sends capacity doneCapacity
  next := next

end NumberServer

/-- The requests a worker still has to send. -/
def WorkerPc.left : WorkerPc → ℕ
  | loop left => left
  | returned => 0

/-- The messages a worker has sent on `doneChan`. -/
def WorkerPc.dones : WorkerPc → ℕ
  | loop _ => 0
  | returned => 1

theorem WorkerPc.dones_le (pc : WorkerPc) : pc.dones ≤ 1 := by
  cases pc with
  | loop left => exact Nat.zero_le 1
  | returned => exact Nat.le_refl 1

theorem WorkerPc.left_eq_zero {pc : WorkerPc} (h : pc.dones = 1) : pc.left = 0 := by
  cases pc with
  | loop left => cases h
  | returned => rfl

theorem count_snoc (l : List Worker) (v w : Worker) :
    (l ++ [w]).count v = l.count v+if v = w then 1 else 0 := by
  rw [List.count_append,List.count_singleton]
  by_cases h : v = w
  · simp [h]
  · simp [h,Ne.symm h]

/-- The increments of a list of requests less its decrements. -/
def balance (l : List Worker) : ℤ := l.count .incrementing-l.count .decrementing

theorem apply_balance (i : Int64) (l : List Worker) (w : Worker) :
    w.apply (i+.ofInt (balance l)) = i+.ofInt (balance (l ++ [w])) := by
  cases w with
  | incrementing =>
    have hb : balance (l ++ [.incrementing]) = balance l+1 := by
      rw [balance,count_snoc,count_snoc,if_pos rfl,if_neg (by decide),balance]
      omega
    rw [hb,Int64.ofInt_add,← Int64.add_assoc]
    rfl
  | decrementing =>
    have hb : balance (l ++ [.decrementing]) = balance l-1 := by
      rw [balance,count_snoc,count_snoc,if_pos rfl,if_neg (by decide),balance]
      omega
    rw [hb,Int64.ofInt_sub,Int64.sub_eq_add_neg,← Int64.add_assoc,← Int64.sub_eq_add_neg]
    rfl

namespace NumberServer
variable {sends capacity : Worker → ℕ} {doneCapacity : ℕ} {s t : NumberServer} {w : Worker}
  {a : ServerAction} {tr : List (NumberServer × ServerAction)}

/-- Every request is still to be sent, in its channel or applied, and every message of a worker that
has returned is in `doneChan` or subtracted from `done`. -/
structure Accounted (sends : Worker → ℕ) (s : NumberServer) : Prop where
  sent : ∀ w, s.sent.count w+(s.worker w).left = sends w
  requests : ∀ w, s.applied.count w+(s.ch w).pending.length = s.sent.count w
  number : s.i = initialNumber+.ofInt (balance s.applied)
  dones : 2-s.done+s.doneChan.pending.length =
    (s.worker .incrementing).dones+(s.worker .decrementing).dones
  drain : s.pc ≠ .serve → s.done = 0
  printed : ∀ v ∈ s.printed, s.pc = .returned ∧ v = s.i ∧ ∀ w, (s.ch w).pending = []

theorem start_accounted : Accounted sends (start sends capacity doneCapacity) where
  sent w := by simp [start,WorkerPc.left]
  requests w := by simp [start]
  number := by simp [start,balance]
  dones := by simp [start,WorkerPc.dones]
  drain h := absurd rfl h
  printed := by simp [start]

/-- `main` prints only at its return. -/
theorem Accounted.not_printed (h : Accounted sends s) (hr : s.pc ≠ .returned) : s.printed = [] := by
  apply List.eq_nil_iff_forall_not_mem.mpr
  intro v hv
  exact hr (h.printed v hv).1

/-- A drain begins with both messages taken, so both workers have sent all their requests. -/
theorem Accounted.left_eq_zero (h : Accounted sends s) (hd : s.done = 0) (w : Worker) :
    (s.worker w).left = 0 := by
  have hs := h.dones
  have hi := (s.worker .incrementing).dones_le
  have hdec := (s.worker .decrementing).dones_le
  apply WorkerPc.left_eq_zero
  cases w <;> omega

/-- What is counted of one of the two channels or workers changes with that one only. -/
theorem update_measure {β : Type} (m : β → ℕ) (f : Worker → β) {x : β} {d e : ℕ}
    (hx : m x+e = m (f w)+d) (v : Worker) :
    m (Function.update f w x v)+(if v = w then e else 0) = m (f v)+if v = w then d else 0 := by
  by_cases h : v = w
  · subst h
    simpa using hx
  · simp [h]

theorem stepSend_accounted {left : ℕ} (h : Accounted sends s) (hr : s.pc ≠ .returned)
    (hw : s.worker w = .loop (left+1)) :
    Accounted sends {(s.setWorker w (.loop left)).setChan w ((s.ch w).send w true) with
      sent := s.sent ++ [w]} := by
  have hp := h.not_printed hr
  refine ⟨fun v => ?_,fun v => ?_,h.number,?_,h.drain,by simp [hp,setChan,setWorker]⟩
  · have hv := h.sent v
    have hleft : (WorkerPc.loop left).left+1 = (s.worker w).left+0 := by
      rw [hw]
      rfl
    have hl := update_measure WorkerPc.left s.worker hleft v
    change (s.sent ++ [w]).count v+(Function.update s.worker w (.loop left) v).left = sends v
    rw [ite_self] at hl
    rw [count_snoc]
    omega
  · have hv := h.requests v
    have hsend : ((s.ch w).send w true).pending.length+0 = (s.ch w).pending.length+1 := by simp
    have hc := update_measure (fun c => c.pending.length) s.ch hsend v
    change s.applied.count v+(Function.update s.ch w ((s.ch w).send w true) v).pending.length =
      (s.sent ++ [w]).count v
    rw [ite_self] at hc
    rw [count_snoc]
    omega
  · have hd := h.dones
    cases w <;> simpa [setChan,setWorker,hw,WorkerPc.dones] using hd

theorem stepFinish_accounted (h : Accounted sends s) (hr : s.pc ≠ .returned)
    (hw : s.worker w = .loop 0) :
    Accounted sends {s.setWorker w .returned with doneChan := s.doneChan.send w true} := by
  have hp := h.not_printed hr
  refine ⟨fun v => ?_,h.requests,h.number,?_,h.drain,by simp [hp,setWorker]⟩
  · have hv := h.sent v
    have hleft : WorkerPc.returned.left+0 = (s.worker w).left+0 := by
      rw [hw]
      rfl
    have hl := update_measure WorkerPc.left s.worker hleft v
    change s.sent.count v+(Function.update s.worker w .returned v).left = sends v
    rw [ite_self] at hl
    omega
  · have hd := h.dones
    cases w <;> simp [setWorker,hw,WorkerPc.dones] at hd ⊢ <;> omega

theorem stepWorker_accounted (h : Accounted sends s) (hr : s.pc ≠ .returned)
    (hs : s.stepWorker w = some t) : Accounted sends t := by
  unfold stepWorker at hs
  split at hs
  · cases hs
  · cases hw : s.worker w with
    | returned =>
      rw [hw] at hs
      cases hs
    | loop left =>
      rw [hw] at hs
      cases left with
      | zero =>
        cases hs
        exact stepFinish_accounted h hr hw
      | succ left =>
        cases hs
        exact stepSend_accounted h hr hw

theorem stepRequest_accounted (h : Accounted sends s) (hr : s.pc ≠ .returned)
    (hs : s.stepRequest w = some t) : Accounted sends t := by
  have hp := h.not_printed hr
  obtain ⟨⟨b,c⟩,hc,ht⟩ := Option.map_eq_some_iff.mp hs
  have hpend := Channel.pending_recv hc
  subst ht
  refine ⟨h.sent,fun v => ?_,?_,h.dones,h.drain,by simp [hp,setChan]⟩
  · have hv := h.requests v
    have hrecv : c.pending.length+1 = (s.ch w).pending.length+0 := by
      rw [hpend]
      rfl
    have hl := update_measure (fun c => c.pending.length) s.ch hrecv v
    change (s.applied ++ [w]).count v+(Function.update s.ch w c v).pending.length = s.sent.count v
    rw [ite_self] at hl
    rw [count_snoc]
    omega
  · have hn := h.number
    change w.apply s.i = initialNumber+.ofInt (balance (s.applied ++ [w]))
    rw [hn,apply_balance]

theorem stepDone_accounted (h : Accounted sends s) (hr : s.pc ≠ .returned)
    (hs : s.stepDone = some t) : Accounted sends t := by
  have hp := h.not_printed hr
  unfold stepDone at hs
  split at hs
  · obtain ⟨⟨b,c⟩,hc,ht⟩ := Option.map_eq_some_iff.mp hs
    have hd := h.dones
    rw [Channel.pending_recv hc,List.length_cons] at hd
    subst ht
    refine ⟨h.sent,h.requests,h.number,?_,?_,by simp [hp]⟩
    · change 2-(s.done-1)+c.pending.length =
        (s.worker .incrementing).dones+(s.worker .decrementing).dones
      push_cast at hd
      omega
    · intro hpc
      by_contra hne
      exact hpc (if_neg hne)
  · cases hs

theorem stepDefault_accounted (h : Accounted sends s) (hr : s.pc ≠ .returned)
    (hs : s.stepDefault = some t) : Accounted sends t := by
  have hp := h.not_printed hr
  unfold stepDefault at hs
  split at hs
  · next hd =>
    cases hs
    refine ⟨h.sent,h.requests,h.number,h.dones,fun _ => h.drain (by simp [hd.1]),?_⟩
    intro v hv
    rw [hp] at hv
    refine ⟨rfl,List.mem_singleton.mp hv,fun w => ?_⟩
    apply Channel.recv_eq_none.mp
    apply Option.isNone_iff_eq_none.mp
    exact hd.2 w (by cases w <;> simp)
  · cases hs

theorem next_accounted (h : Accounted sends s) (hs : next s a = some t) : Accounted sends t := by
  unfold next at hs
  split at hs
  · cases hs
  · next hr =>
    cases a with
    | work w => exact stepWorker_accounted h hr hs
    | request w => exact stepRequest_accounted h hr hs
    | done => exact stepDone_accounted h hr hs
    | default => exact stepDefault_accounted h hr hs

theorem exec_accounted (run : Exec (machine sends capacity doneCapacity) tr s) :
    Accounted sends s := by
  apply run.invariant (C := fun _ _ => True)
  · rintro s rfl
    exact start_accounted
  · intro s a t h _ hs
    exact next_accounted h hs
  · exact fun _ _ => trivial

/-- Whatever `select` chooses, `main` prints the number with every request that was sent applied
exactly once. For counts that an `int` can hold the number does not wrap. -/
theorem printed_exact (run : Exec (machine sends capacity doneCapacity) tr s) :
    ∀ v ∈ s.printed,
      v = initialNumber+.ofInt (sends .incrementing-sends .decrementing) ∧
      (sends .incrementing<2^63 → sends .decrementing<2^63 →
        v.toInt = initialNumber.toInt+sends .incrementing-sends .decrementing) ∧
      (∀ w, s.sent.count w = sends w) ∧
      s.applied.Perm s.sent := by
  have h := exec_accounted run
  intro v hv
  obtain ⟨hpc,rfl,hempty⟩ := h.printed v hv
  have hd : s.done = 0 := h.drain (by simp [hpc])
  have hsent : ∀ w, s.sent.count w = sends w := by
    intro w
    have hs := h.sent w
    rw [h.left_eq_zero hd w] at hs
    exact hs
  have happlied : ∀ w, s.applied.count w = s.sent.count w := by
    intro w
    have hr := h.requests w
    rw [hempty w] at hr
    exact hr
  have hnumber : s.i = initialNumber+.ofInt (sends .incrementing-sends .decrementing) := by
    rw [h.number,balance,happlied,happlied,hsent,hsent]
  refine ⟨hnumber,fun hi hdec => ?_,hsent,List.perm_iff_count.mpr happlied⟩
  have hfold : initialNumber+.ofInt (sends .incrementing-sends .decrementing) =
      Int64.ofInt (-1+(sends .incrementing-sends .decrementing)) := by
    rw [Int64.ofInt_add]
    rfl
  rw [hnumber,hfold,Int64.toInt_ofInt_of_le (by omega) (by omega)]
  change -1+(sends .incrementing-sends .decrementing : ℤ) = -1+_-_
  omega

/-- Two increments and one decrement. -/
def twoOne : Worker → ℕ
  | .incrementing => 2
  | .decrementing => 1

/-- Both workers end and `main` takes both messages, of which one was parked, before it takes any
of the three requests. -/
def drainRun : List ServerAction :=
  [.work .incrementing,.work .incrementing,.work .incrementing,.work .decrementing,
    .work .decrementing,.done,.done,.request .incrementing,.request .decrementing,
    .request .incrementing,.default]

theorem printed_exact_drain : ∃ tr, ∃ s, Exec (machine twoOne twoOne 1) tr s ∧
    s.printed = [0] ∧ s.applied.Perm s.sent := by
  obtain ⟨s,hs,hprinted⟩ : ∃ s, (machine twoOne twoOne 1).run (start twoOne twoOne 1) drainRun =
      some s ∧ s.printed = [0] := ⟨_,rfl,rfl⟩
  have run := Exec.of_run rfl hs
  have hspec := printed_exact run 0 (by simp [hprinted])
  exact ⟨_,s,run,hprinted,hspec.2.2.2⟩

end NumberServer
end TTK4145.Exercise1
