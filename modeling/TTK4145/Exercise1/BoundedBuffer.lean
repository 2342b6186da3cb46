import TTK4145.Lib.Machine
import TTK4145.Lib.Tally
import TTK4145.Exercise1.RingBuf

/-! Threads in `buf_push` and `buf_pop` of `Exercise1/5 - bounded buffer/c/main.c`. Each statement is
a step, those of `rb_push` and `rb_pop` included. -/
namespace TTK4145.Exercise1
open Lib

inductive BufCall where
  | push (val : Int32)
  | pop
  deriving DecidableEq, Repr

/-- The statement of a call that is executed next; `check` to `length` are those of the ring. -/
inductive BufStmt where
  | wait
  | lock
  | check
  | access
  | index
  | length
  | unlock
  | post
  deriving DecidableEq, Repr

/-- The statements behind the wait, up to the one that changes the length of the ring. -/
def BufStmt.working : BufStmt → Bool
  | .lock | .check | .access | .index | .length => true
  | _ => false

inductive BufPc where
  | idle
  | inside (call : BufCall) (stmt : BufStmt)
  deriving DecidableEq, Repr

/-- `val` is the variable of `buf_pop`, `results` what its calls have returned so far. -/
structure BufThread where
  pc : BufPc
  val : Int32
  results : List Int32
  deriving DecidableEq, Repr

/-- `pushed` and `popped` list the operations on the ring in the order of their locks. -/
structure BoundedBuffer (ι : Type*) where
  buf : RingBuffer
  mtx : Option ι
  numElements : ℕ
  capacity : ℕ
  thread : ι → BufThread
  pushed : List Int32
  popped : List (ι × Int32)
  aborted : Bool

namespace BufCall

/-- The assertion at the top of `rb_push` and `rb_pop`. -/
def check (rb : RingBuffer) : BufCall → Bool
  | push _ => decide (rb.length<rb.capacity)
  | pop => decide (rb.length>0)

def access (rb : RingBuffer) : BufCall → RingBuffer
  | push val => rb.store val
  | pop => rb

def value (rb : RingBuffer) (old : Int32) : BufCall → Int32
  | push _ => old
  | pop => rb.fetch

def index (rb : RingBuffer) : BufCall → RingBuffer
  | push _ => rb.advanceInsert
  | pop => rb.advanceRemove

def length (rb : RingBuffer) : BufCall → RingBuffer
  | push _ => rb.lengthUp
  | pop => rb.lengthDown

/-- The statements in a row are `rb_push`. -/
theorem push_eq (rb : RingBuffer) (val : Int32) :
    rbPush rb val = if (push val).check rb then
      some ((push val).length ((push val).index ((push val).access rb))) else none := by
  simp [rbPush,check,access,index,length]

theorem pop_eq (rb : RingBuffer) (old : Int32) :
    rbPop rb = if pop.check rb then
      some (pop.value rb old,pop.length (pop.index (pop.access rb))) else none := by
  simp [rbPop,check,access,index,length,value]

end BufCall

namespace BoundedBuffer
variable {ι : Type*} [DecidableEq ι]

def set (s : BoundedBuffer ι) (t : ι) (th : BufThread) : BoundedBuffer ι :=
  {s with thread := Function.update s.thread t th}

def setPc (s : BoundedBuffer ι) (t : ι) (pc : BufPc) : BoundedBuffer ι :=
  s.set t {s.thread t with pc := pc}

def stepWait (s : BoundedBuffer ι) (t : ι) : BufCall → Option (BoundedBuffer ι)
  | .push val => if 0<s.capacity then
      some {s.setPc t (.inside (.push val) .lock) with capacity := s.capacity-1} else none
  | .pop => if 0<s.numElements then
      some {s.setPc t (.inside .pop .lock) with numElements := s.numElements-1} else none

/-- The last statement of the ring operation, at which it enters the histories. -/
def stepLength (s : BoundedBuffer ι) (t : ι) : BufCall → BoundedBuffer ι
  | .push val => {s.setPc t (.inside (.push val) .unlock) with
      buf := s.buf.lengthUp, pushed := s.pushed ++ [val]}
  | .pop => {s.setPc t (.inside .pop .unlock) with
      buf := s.buf.lengthDown, popped := s.popped ++ [(t,(s.thread t).val)]}

def stepPost (s : BoundedBuffer ι) (t : ι) : BufCall → BoundedBuffer ι
  | .push _ => {s.setPc t .idle with numElements := s.numElements+1}
  | .pop => {s.set t {s.thread t with
      pc := .idle, results := (s.thread t).results ++ [(s.thread t).val]} with
      capacity := s.capacity+1}

/-- One statement of a call. The wait and the lock block. -/
def stepCall (s : BoundedBuffer ι) (t : ι) (c : BufCall) : BufStmt → Option (BoundedBuffer ι)
  | .wait => s.stepWait t c
  | .lock => if s.mtx = none then some {s.setPc t (.inside c .check) with mtx := some t} else none
  | .check => some (if c.check s.buf then s.setPc t (.inside c .access) else {s with aborted := true})
  | .access => some {s.set t {s.thread t with
      pc := .inside c .index, val := c.value s.buf (s.thread t).val} with buf := c.access s.buf}
  | .index => some {s.setPc t (.inside c .length) with buf := c.index s.buf}
  | .length => some (s.stepLength t c)
  | .unlock => some {s.setPc t (.inside c .post) with mtx := none}
  | .post => some (s.stepPost t c)

end BoundedBuffer

inductive BufAction (ι : Type*) where
  | call (t : ι) (c : BufCall)
  | step (t : ι)
  deriving DecidableEq, Repr

/-- Any number of threads on a buffer from `buf_new`. A failed assertion ends the program. -/
def boundedBuffer {ι : Type*} [DecidableEq ι] (size : ℕ) (mem : List Int32) :
    Machine (BoundedBuffer ι) (BufAction ι) where
  init s := s.buf = rbNew size mem ∧ s.mtx = none ∧ s.numElements = 0 ∧ s.capacity = size ∧
    (∀ t, (s.thread t).pc = .idle ∧ (s.thread t).results = []) ∧
    s.pushed = [] ∧ s.popped = [] ∧ s.aborted = false
  next s a := if s.aborted then none else match a with
    | .call t c => match (s.thread t).pc with
      | .idle => some (s.setPc t (.inside c .wait))
      | _ => none
    | .step t => match (s.thread t).pc with
      | .idle => none
      | .inside c stmt => s.stepCall t c stmt

namespace BufThread

/-- Between the lock and the unlock. -/
def critical (th : BufThread) : Bool :=
  match th.pc with
  | .inside _ .check | .inside _ .access | .inside _ .index | .inside _ .length
  | .inside _ .unlock => true
  | _ => false

/-- Between the wait and the post. -/
def inFlight (th : BufThread) : Bool :=
  match th.pc with
  | .idle | .inside _ .wait => false
  | _ => true

/-- The length of the ring has been changed, but the post has not been made. -/
def posting (th : BufThread) : Bool :=
  match th.pc with
  | .inside _ .unlock | .inside _ .post => true
  | _ => false

/-- A push that took a free slot and has not filled it, or a pop that freed one and has not said
so. -/
def holdsSlot (th : BufThread) : Bool :=
  match th.pc with
  | .inside (.push _) _ => th.inFlight && !th.posting
  | .inside .pop _ => th.posting
  | .idle => false

/-- A pop that was promised a value and has not taken it, or a push that has not yet reported
one. -/
def holdsItem (th : BufThread) : Bool :=
  match th.pc with
  | .inside .pop _ => th.inFlight && !th.posting
  | .inside (.push _) _ => th.posting
  | .idle => false

theorem inFlight_eq (th : BufThread) : th.inFlight = (th.holdsSlot || th.holdsItem) := by
  obtain ⟨pc,val,results⟩ := th
  rcases pc with _ | ⟨_ | _,_ | _⟩ <;> rfl

theorem holds_exclusive (th : BufThread) : (th.holdsSlot && th.holdsItem) = false := by
  obtain ⟨pc,val,results⟩ := th
  rcases pc with _ | ⟨_ | _,_ | _⟩ <;> rfl

/-- The ring as the owner of the lock has changed it so far, from `rb` on. -/
def During (th : BufThread) (rb buf : RingBuffer) : Prop :=
  match th.pc with
  | .inside (.push val) .index => buf = rb.store val
  | .inside (.push val) .length => buf = (rb.store val).advanceInsert
  | .inside .pop .index => buf = rb ∧ th.val = rb.fetch
  | .inside .pop .length => buf = rb.advanceRemove ∧ th.val = rb.fetch
  | _ => buf = rb

/-- What a pop has taken and not returned. -/
def pending (th : BufThread) : List Int32 :=
  match th.pc with
  | .inside .pop _ => if th.posting then [th.val] else []
  | _ => []

section Holds
variable {th th' : BufThread} {c : BufCall} {stmt stmt' : BufStmt} {val : Int32}
  {rb buf : RingBuffer}

theorem holds_push (hpc : th.pc = .inside (.push val) stmt) (hw : stmt.working = true) :
    th.holdsSlot = true ∧ th.holdsItem = false := by
  cases stmt <;> cases hw <;> simp [holdsSlot,holdsItem,inFlight,posting,hpc]

theorem holds_pop (hpc : th.pc = .inside .pop stmt) (hw : stmt.working = true) :
    th.holdsSlot = false ∧ th.holdsItem = true := by
  cases stmt <;> cases hw <;> simp [holdsSlot,holdsItem,inFlight,posting,hpc]

/-- What a thread holds changes at none of these statements. -/
theorem holds_working (hpc : th.pc = .inside c stmt) (hw : stmt.working = true)
    (hpc' : th'.pc = .inside c stmt') (hw' : stmt'.working = true) :
    th'.holdsSlot = th.holdsSlot ∧ th'.holdsItem = th.holdsItem := by
  cases c with
  | push val =>
    obtain ⟨hs,hi⟩ := holds_push hpc hw
    obtain ⟨hs',hi'⟩ := holds_push hpc' hw'
    exact ⟨hs'.trans hs.symm,hi'.trans hi.symm⟩
  | pop =>
    obtain ⟨hs,hi⟩ := holds_pop hpc hw
    obtain ⟨hs',hi'⟩ := holds_pop hpc' hw'
    exact ⟨hs'.trans hs.symm,hi'.trans hi.symm⟩

theorem During.of_pc {pc : BufPc} (h : th.During rb buf) (hpc : th.pc = pc) :
    During ⟨pc,th.val,th.results⟩ rb buf := by
  rw [←hpc]
  exact h

end Holds

end BufThread

end TTK4145.Exercise1
