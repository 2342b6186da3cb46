import Mathlib.Data.Int.Notation
import Mathlib.Data.List.Basic
import Mathlib.Data.List.Forall2

/-! The answers of `poll` on descriptors which are asked for `POLLIN`. -/
namespace TTK4145.Lib

/-- How a call of `poll` ends. -/
inductive PollOutcome where
  | error
  | timeout
  | ready
  deriving DecidableEq, Repr

/-- The return value and the `POLLIN` bits of `revents`, where `fds` says which descriptors are
readable. The call fails at any time, runs into its timeout only while nothing is readable, and
otherwise returns the number of readable descriptors. -/
def pollReply (fds : List Bool) : PollOutcome → Option (ℤ × List Bool)
  | .error => some (-1,fds.map fun _ => false)
  | .timeout => if true ∈ fds then none else some (0,fds)
  | .ready => if true ∈ fds then some (fds.count true,fds) else none

theorem pollReply_ready {fds revents : List Bool} {ret : ℤ}
    (h : pollReply fds .ready = some (ret,revents)) :
    true ∈ fds ∧ 0<ret ∧ revents = fds := by
  simp only [pollReply] at h
  split_ifs at h with hr
  cases h
  exact ⟨hr,Int.natCast_pos.mpr (List.count_pos_iff.mpr hr),rfl⟩

theorem pollReply_pos {fds revents : List Bool} {ret : ℤ} {outcome : PollOutcome}
    (h : pollReply fds outcome = some (ret,revents)) (hpos : 0<ret) : outcome = .ready := by
  cases outcome with
  | error =>
    cases h
    cases hpos
  | timeout =>
    simp only [pollReply] at h
    split_ifs at h
    cases h
    cases hpos
  | ready => rfl

/-- A call that does not fail returns: something is readable, or the timeout passes. -/
theorem pollReply_answers (fds : List Bool) :
    ∃ outcome, outcome ≠ .error ∧ (pollReply fds outcome).isSome = true := by
  by_cases h : true ∈ fds
  · exact ⟨.ready,by simp,by simp [pollReply,h]⟩
  · exact ⟨.timeout,by simp,by simp [pollReply,h]⟩

/-- `struct pollfd`. -/
structure PollFd where
  fd : Int32
  events : Int16
  revents : Int16
  deriving DecidableEq, Repr

/-- `POLLIN`. -/
def pollIn : Int16 := 1

/-- `events & POLLIN` as a condition. -/
def hasPollIn (events : Int16) : Bool := events &&& pollIn != 0

/-- The descriptors below zero are ignored by `poll`. -/
def polledReady (readable : Int32 → Bool) (fd : Int32) : Bool := decide (0 ≤ fd) && readable fd

/-- What is promised of a call of `poll` that does not fail: it returns the number of entries with
any event, and sets `POLLIN` where that was asked for and the descriptor is readable. Other bits of
`revents`, such as those for errors, are left open. -/
structure PollAnswer (readable : Int32 → Bool) (fds : List PollFd) (ret : Int32)
    (revents : List Int16) : Prop where
  entries : List.Forall₂
    (fun p r => hasPollIn r = (hasPollIn p.events && polledReady readable p.fd)) fds revents
  ret_eq : ret.toInt = revents.countP (· != 0)

section Answer
variable {readable : Int32 → Bool} {fds : List PollFd} {ret : Int32} {revents : List Int16}

@[simp] theorem hasPollIn_pollIn : hasPollIn pollIn = true := by decide

theorem hasPollIn_ne_zero {r : Int16} (h : hasPollIn r = true) : r ≠ 0 := by
  rintro rfl
  cases h

/-- When every entry asks for `POLLIN`, the bits returned are the readiness of the descriptors. -/
theorem PollAnswer.bits (h : PollAnswer readable fds ret revents)
    (hin : ∀ p ∈ fds, p.events = pollIn) :
    revents.map hasPollIn = (fds.map PollFd.fd).map (polledReady readable) := by
  obtain ⟨he,-⟩ := h
  induction he with
  | nil => rfl
  | @cons p r fds revents hp hrest ih =>
    have hr : hasPollIn r = polledReady readable p.fd := by
      rw [hp,hin p List.mem_cons_self,hasPollIn_pollIn,Bool.true_and]
    rw [List.map_cons,List.map_cons,List.map_cons,hr,
      ih (fun q hq => hin q (List.mem_cons_of_mem _ hq))]

theorem PollAnswer.ret_nonneg (h : PollAnswer readable fds ret revents) : 0 ≤ ret.toInt := by
  rw [h.ret_eq]
  exact Int.natCast_nonneg _

/-- A timeout is a call that finds no event. -/
theorem PollAnswer.ret_eq_zero (h : PollAnswer readable fds ret revents) :
    ret.toInt = 0 ↔ ∀ r ∈ revents, r = 0 := by
  rw [h.ret_eq,Int.natCast_eq_zero,List.countP_eq_zero]
  simp

/-- No more entries have the bit than have any event. -/
theorem PollAnswer.count_le (h : PollAnswer readable fds ret revents) (n : ℕ) :
    (((revents.map hasPollIn).take n).count true : ℤ) ≤ ret.toInt := by
  have hbits : ((revents.map hasPollIn).take n).count true = (revents.take n).countP hasPollIn := by
    rw [← List.map_take,List.count,List.countP_map]
    congr 1
    funext r
    exact beq_true _
  have hsub : (revents.take n).countP hasPollIn ≤ revents.countP hasPollIn :=
    (List.take_sublist n revents).countP_le
  have hne : revents.countP hasPollIn ≤ revents.countP (· != 0) := by
    apply List.countP_mono_left
    intro r _ hr
    simpa using hasPollIn_ne_zero hr
  rw [hbits,h.ret_eq]
  exact Int.ofNat_le.mpr (Nat.le_trans hsub hne)

end Answer
end TTK4145.Lib
