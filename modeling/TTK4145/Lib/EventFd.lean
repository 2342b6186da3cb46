import Mathlib.Algebra.Group.Nat.Defs

/-! The counter behind a nonblocking `eventfd` in semaphore mode. -/
namespace TTK4145.Lib

/-- The largest value the kernel keeps in the 64-bit counter. -/
def eventFdMax : ℕ := 2^64-2

structure EventFd where
  counter : ℕ
  deriving DecidableEq, Repr

namespace EventFd

/-- `write` of the value one; `none` is the failure `EAGAIN` of a full counter. -/
def write (e : EventFd) : Option EventFd :=
  if e.counter<eventFdMax then some ⟨e.counter+1⟩ else none

/-- `read` in semaphore mode; `none` is the failure `EAGAIN` of a zero counter. -/
def read (e : EventFd) : Option EventFd :=
  if e.counter=0 then none else some ⟨e.counter-1⟩

/-- What `poll` reports for `POLLIN`. -/
def pollIn (e : EventFd) : Bool := decide (0<e.counter)

variable {e : EventFd}

theorem write_eq (h : e.counter<eventFdMax) : e.write = some ⟨e.counter+1⟩ := by
  simp [write,h]

theorem read_eq (h : 0<e.counter) : e.read = some ⟨e.counter-1⟩ := by
  simp [read,Nat.pos_iff_ne_zero.mp h]

@[simp] theorem pollIn_iff : e.pollIn = true ↔ 0<e.counter := by simp [pollIn]

end EventFd
end TTK4145.Lib
