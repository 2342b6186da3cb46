import Mathlib.Data.List.Range
import TTK4145.Exercise1.BufferProgress

/-! The whole program of `Exercise1/5 - bounded buffer/c/main.c`: `producer`, `consumer` and `main`
with its calls of `pthread_join`, `pthread_cancel` and `buf_destroy`. The rounds of the producer are
a parameter. -/
namespace TTK4145.Exercise1
open Lib

inductive BufParty where
  | producer
  | consumer
  deriving DecidableEq, Repr

/-- The next statement of `producer`; `i` is its loop variable. -/
inductive ProducerPc where
  | absent
  | loop (i : ℕ)
  | sleep (i : ℕ)
  | report (i : ℕ)
  | push (i : ℕ)
  | returned
  deriving DecidableEq, Repr

/-- The next statement of `consumer`. Both `nanosleep` and `sem_wait` look for a cancellation at
their start, `enterSleep` and `enterWait`. -/
inductive ConsumerPc where
  | absent
  | enterSleep
  | sleeping
  | enterWait
  | pop
  | report (val : Int32)
  | cancelled
  deriving DecidableEq, Repr

/-- The next statement of `main`, with those of `buf_destroy`. -/
inductive BufMainPc where
  | createProducer
  | createConsumer
  | join
  | cancel
  | destroyRing
  | destroyMutex
  | destroyNumElements
  | destroyCapacity
  | free
  | returned
  deriving DecidableEq, Repr

/-- The statements that `main` has before it. -/
def BufMainPc.left : BufMainPc → ℕ
  | createProducer => 9
  | createConsumer => 8
  | join => 7
  | cancel => 6
  | destroyRing => 5
  | destroyMutex => 4
  | destroyNumElements => 3
  | destroyCapacity => 2
  | free => 1
  | returned => 0

inductive BufLine where
  | pushing (i : ℕ)
  | consumed (val : Int32)
  deriving DecidableEq, Repr

def BufLine.value : BufLine → Option Int32
  | consumed val => some val
  | pushing _ => none

/-- `fault` is a use of the ring behind `rb_destroy`. Uses of the mutex and the semaphores behind their
`destroy`, and of the struct behind `free`, are not counted: the thread goes on as before. -/
structure BufferProgram where
  shared : BoundedBuffer BufParty
  producer : ProducerPc
  consumer : ConsumerPc
  main : BufMainPc
  output : List BufLine
  fault : Bool

/-- `cancelled` ends the consumer where it may be cancelled. -/
inductive BufProgramAction where
  | main
  | producer
  | consumer
  | cancelled
  deriving DecidableEq, Repr

/-- The statements that use the ring itself. -/
def BufStmt.usesRing : BufStmt → Bool
  | .check | .access | .index | .length => true
  | _ => false

namespace BufferProgram

def Cancelled (s : BufferProgram) : Prop := s.main.left<BufMainPc.cancel.left

instance (s : BufferProgram) : Decidable s.Cancelled := inferInstanceAs (Decidable (_<_))

def RingFreed (s : BufferProgram) : Prop := s.main.left<BufMainPc.destroyRing.left

instance (s : BufferProgram) : Decidable s.RingFreed := inferInstanceAs (Decidable (_<_))

/-- What the consumer has printed. -/
def printed (s : BufferProgram) : List Int32 := s.output.filterMap BufLine.value

/-- A call of `buf_push` or `buf_pop` begins. -/
def begin (s : BufferProgram) (t : BufParty) (c : BufCall) : BufferProgram :=
  {s with shared := s.shared.setPc t (.inside c .wait)}

/-- A statement of the call in which a thread is; the thread is idle when it was the last one. -/
def stepBuffer (s : BufferProgram) (t : BufParty) : Option BufferProgram :=
  match (s.shared.thread t).pc with
  | .idle => none
  | .inside c stmt => (s.shared.stepCall t c stmt).map fun b => {s with shared := b}

/-- Whether the statement that a thread is at uses the ring. -/
def atRing (s : BufferProgram) (t : BufParty) : Bool :=
  match (s.shared.thread t).pc with
  | .idle => false
  | .inside _ stmt => stmt.usesRing

def stepProducer (count : ℕ) (s : BufferProgram) : Option BufferProgram :=
  match s.producer with
  | .absent | .returned => none
  | .loop i => some {s with producer := if i<count then .sleep i else .returned}
  | .sleep i => some {s with producer := .report i}
  | .report i => some {s.begin .producer (.push (.ofNat i)) with
      producer := .push i, output := s.output ++ [.pushing i]}
  | .push i => (s.stepBuffer .producer).map fun u =>
      if (u.shared.thread .producer).pc = .idle then {u with producer := .loop (i+1)} else u

def stepConsumer (s : BufferProgram) : Option BufferProgram :=
  match s.consumer with
  | .absent | .cancelled => none
  | .enterSleep => if s.Cancelled then none else some {s with consumer := .sleeping}
  | .sleeping => some {s with consumer := .enterWait}
  | .enterWait => if s.Cancelled then none else some {s.begin .consumer .pop with consumer := .pop}
  | .pop =>
    if s.RingFreed ∧ s.atRing .consumer = true then some {s with fault := true}
    else (s.stepBuffer .consumer).map fun u =>
      if (u.shared.thread .consumer).pc = .idle then
        {u with consumer := .report (u.shared.thread .consumer).val} else u
  | .report val => some {s with consumer := .enterSleep, output := s.output ++ [.consumed val]}

/-- A cancellation may be acted upon in `nanosleep`, in a blocked `sem_wait` and in `printf`. -/
def Cancellable (s : BufferProgram) : Prop :=
  match s.consumer with
  | .enterSleep | .sleeping | .enterWait | .report _ => True
  | .pop => (s.shared.thread .consumer).pc = .inside .pop .wait
  | .absent | .cancelled => False

instance (s : BufferProgram) : Decidable s.Cancellable := by
  unfold Cancellable
  split <;> infer_instance

def stepCancelled (s : BufferProgram) : Option BufferProgram :=
  if s.Cancelled ∧ s.Cancellable then some {s with consumer := .cancelled} else none

/-- `free(buf)` and the return of `main` are one step. -/
def stepMain (s : BufferProgram) : Option BufferProgram :=
  match s.main with
  | .createProducer => some {s with producer := .loop 0, main := .createConsumer}
  | .createConsumer => some {s with consumer := .enterSleep, main := .join}
  | .join => if s.producer = .returned then some {s with main := .cancel} else none
  | .cancel => some {s with main := .destroyRing}
  | .destroyRing => some {s with main := .destroyMutex}
  | .destroyMutex => some {s with main := .destroyNumElements}
  | .destroyNumElements => some {s with main := .destroyCapacity}
  | .destroyCapacity => some {s with main := .free}
  | .free => some {s with main := .returned}
  | .returned => none

/-- A failed assertion, the return of `main` and a use of freed memory end the program. -/
def Over (s : BufferProgram) : Prop :=
  s.shared.aborted = true ∨ s.main = .returned ∨ s.fault = true

instance (s : BufferProgram) : Decidable s.Over := inferInstanceAs (Decidable (_ ∨ _ ∨ _))

def next (count : ℕ) (s : BufferProgram) (a : BufProgramAction) : Option BufferProgram :=
  if s.Over then none else match a with
    | .main => s.stepMain
    | .producer => s.stepProducer count
    | .consumer => s.stepConsumer
    | .cancelled => s.stepCancelled

def start (size : ℕ) (mem : List Int32) : BufferProgram where
  shared := ⟨rbNew size mem,none,0,size,fun _ => ⟨.idle,0,[]⟩,[],[],false⟩
  producer := .absent
  consumer := .absent
  main := .createProducer
  output := []
  fault := false

end BufferProgram

/-- The program with `count` rounds of its producer, on a buffer of any size. -/
def bufferProgram (count size : ℕ) (mem : List Int32) : Machine BufferProgram BufProgramAction where
  init s := s = .start size mem
  next := BufferProgram.next count

/-- The statement behind another one of a call. -/
def BufStmt.succ : BufStmt → Option BufStmt
  | .wait => some .lock
  | .lock => some .check
  | .check => some .access
  | .access => some .index
  | .index => some .length
  | .length => some .unlock
  | .unlock => some .post
  | .post => none

/-- Where a thread is behind a statement of its call. -/
def BufStmt.after (c : BufCall) (stmt : BufStmt) : BufPc :=
  match stmt.succ with
  | some stmt' => .inside c stmt'
  | none => .idle

/-- What a call adds to the values pushed. -/
def BufCall.pushes : BufCall → List Int32
  | push val => [val]
  | pop => []

/-- What a call by `t` adds to the values popped. -/
def BufCall.pops {ι : Type*} (t : ι) (val : Int32) : BufCall → List (ι × Int32)
  | push _ => []
  | pop => [(t,val)]

/-- What a call adds to the results of its thread. -/
def BufCall.returns (val : Int32) : BufCall → List Int32
  | push _ => []
  | pop => [val]

/-- The effect of a statement on the threads and the histories. -/
structure Stmt {ι : Type*} (s s' : BoundedBuffer ι) (t : ι) (c : BufCall) (stmt : BufStmt) :
    Prop where
  other : ∀ u, u ≠ t → s'.thread u = s.thread u
  pc : (s'.thread t).pc = stmt.after c
  pushed : s'.pushed = s.pushed ++ if stmt = .length then c.pushes else []
  popped : s'.popped = s.popped ++ if stmt = .length then c.pops t (s.thread t).val else []
  results : (s'.thread t).results =
    (s.thread t).results ++ if stmt = .post then c.returns (s.thread t).val else []
  val : stmt ≠ .access → (s'.thread t).val = (s.thread t).val

section Statements
variable {ι : Type*} [DecidableEq ι] {s s' : BoundedBuffer ι} {t : ι} {th : BufThread}
  {c : BufCall} {stmt : BufStmt}

/-- A statement that reaches neither the histories nor the results. -/
theorem Stmt.silent (hthread : s'.thread = Function.update s.thread t th)
    (hpc : th.pc = stmt.after c) (hresults : th.results = (s.thread t).results)
    (hpushed : s'.pushed = s.pushed) (hpopped : s'.popped = s.popped) (hl : stmt ≠ .length)
    (hp : stmt ≠ .post) (hval : stmt ≠ .access → th.val = (s.thread t).val) :
    Stmt s s' t c stmt where
  other u hu := by rw [hthread,Function.update_of_ne hu]
  pc := by rw [hthread,Function.update_self,hpc]
  pushed := by rw [if_neg hl,List.append_nil,hpushed]
  popped := by rw [if_neg hl,List.append_nil,hpopped]
  results := by rw [hthread,Function.update_self,if_neg hp,List.append_nil,hresults]
  val ha := by rw [hthread,Function.update_self,hval ha]

theorem stepCall_stmt (hn : s.stepCall t c stmt = some s') (hsafe : s'.aborted = false) :
    Stmt s s' t c stmt := by
  cases stmt with
  | wait =>
    cases c <;> simp only [BoundedBuffer.stepCall,BoundedBuffer.stepWait] at hn
    all_goals
      split_ifs at hn
      cases hn
      exact .silent rfl rfl rfl rfl rfl (by simp) (by simp) fun _ => rfl
  | lock =>
    simp only [BoundedBuffer.stepCall] at hn
    split_ifs at hn
    cases hn
    exact .silent rfl rfl rfl rfl rfl (by simp) (by simp) fun _ => rfl
  | check =>
    cases hn
    split_ifs at hsafe ⊢
    exact .silent rfl rfl rfl rfl rfl (by simp) (by simp) fun _ => rfl
  | access =>
    cases hn
    exact .silent rfl rfl rfl rfl rfl (by simp) (by simp) fun h => absurd rfl h
  | index | unlock =>
    cases hn
    exact .silent rfl rfl rfl rfl rfl (by simp) (by simp) fun _ => rfl
  | length =>
    cases hn
    have hother : ∀ u, u ≠ t → (s.stepLength t c).thread u = s.thread u := by
      intro u hu
      cases c <;> exact Function.update_of_ne hu _ _
    refine ⟨hother,?_,?_,?_,?_,fun _ => ?_⟩ <;> cases c <;>
      simp [BoundedBuffer.stepLength,BoundedBuffer.setPc,BoundedBuffer.set,BufStmt.after,
        BufStmt.succ,BufCall.pushes,BufCall.pops]
  | post =>
    cases hn
    have hother : ∀ u, u ≠ t → (s.stepPost t c).thread u = s.thread u := by
      intro u hu
      cases c <;> exact Function.update_of_ne hu _ _
    refine ⟨hother,?_,?_,?_,?_,fun _ => ?_⟩ <;> cases c <;>
      simp [BoundedBuffer.stepPost,BoundedBuffer.setPc,BoundedBuffer.set,BufStmt.after,
        BufStmt.succ,BufCall.returns]

end Statements
end TTK4145.Exercise1
