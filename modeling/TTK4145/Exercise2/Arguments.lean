import TTK4145.Lib.CNumber
import TTK4145.Lib.CText

/-! The argument parsers of `Exercise2/udp_receiver/src/udp_receiver.c`, which
`Exercise2/tcp_receiver/src/tcp_receiver.c` repeats. Values are C `int`s. -/
namespace TTK4145.Exercise2
open Lib

/-- A decimal argument between `lo` and `hi` with nothing behind it, or the error value. -/
def parseBounded (lo hi err : ℤ) (str : List UInt8) : ℤ :=
  let r := strtol str
  if r.erange ∨ r.consumed = 0 ∨ r.consumed<str.length then err
  else if r.value>hi ∨ r.value<lo then err
  else r.value

def parsePort (str : List UInt8) : ℤ := cInt (parseBounded 1 65535 (-1) str)
def parseSize (str : List UInt8) : ℤ := cInt (parseBounded 1 65507 (-1) str)
def parseRepetitions (str : List UInt8) : ℤ := cInt (parseBounded (-1) intMax (-2) str)

/-- Whatever a parser returns besides its error value lies within its bounds. -/
theorem parseBounded_bounds {lo hi err : ℤ} {str : List UInt8} (h : parseBounded lo hi err str ≠ err) :
    lo ≤ parseBounded lo hi err str ∧ parseBounded lo hi err str ≤ hi := by
  unfold parseBounded at h ⊢
  simp only at h ⊢
  split_ifs at h ⊢ with h₁ h₂
  · exact absurd rfl h
  · exact absurd rfl h
  · omega

/-- What a parser returns besides its error value is what `strtol` has read. -/
theorem parseBounded_value {lo hi err : ℤ} {str : List UInt8} (h : parseBounded lo hi err str ≠ err) :
    parseBounded lo hi err str = (strtol str).value := by
  unfold parseBounded at h ⊢
  simp only at h ⊢
  split_ifs at h ⊢
  · exact absurd rfl h
  · exact absurd rfl h
  · rfl

/-- A bound that an `int` can hold makes the cast of a parser harmless. -/
theorem cInt_parseBounded {lo hi err : ℤ} {str : List UInt8} (hlo : -2^31 ≤ lo)
    (hhi : hi<2^31) (h : parseBounded lo hi err str ≠ err) :
    cInt (parseBounded lo hi err str) = (strtol str).value ∧
      lo ≤ (strtol str).value ∧ (strtol str).value ≤ hi := by
  have hb := parseBounded_bounds h
  rw [parseBounded_value h] at hb ⊢
  exact ⟨cInt_of_bounds (by omega) (by omega),hb⟩

/-- The arguments of the options `-s` and `-r`, where they are given. -/
structure ReceiverArgs where
  size : Option (List UInt8)
  repetitions : Option (List UInt8)

namespace ReceiverArgs

def bufferSize (a : ReceiverArgs) : ℤ := a.size.elim 1024 parseSize
def repetitionCount (a : ReceiverArgs) : ℤ := a.repetitions.elim (-1) parseRepetitions

/-- The `CHECK`s of `main` on the two values. -/
def Accepted (a : ReceiverArgs) : Prop := 0 ≤ a.bufferSize ∧ -1 ≤ a.repetitionCount

instance (a : ReceiverArgs) : Decidable a.Accepted :=
  inferInstanceAs (Decidable (0 ≤ a.bufferSize ∧ -1 ≤ a.repetitionCount))

theorem Accepted.bufferSize_bounds {a : ReceiverArgs} (h : a.Accepted) :
    1 ≤ a.bufferSize ∧ a.bufferSize ≤ 65507 := by
  have hpos := h.1
  unfold bufferSize at hpos ⊢
  cases ha : a.size with
  | none => decide
  | some str =>
    rw [ha] at hpos
    have hne : parseBounded 1 65507 (-1) str ≠ -1 := by
      intro herr
      change 0 ≤ cInt (parseBounded 1 65507 (-1) str) at hpos
      rw [herr] at hpos
      exact absurd hpos (by decide)
    obtain ⟨hvalue,hbounds⟩ := cInt_parseBounded (by decide) (by decide) hne
    change 1 ≤ cInt (parseBounded 1 65507 (-1) str) ∧ cInt (parseBounded 1 65507 (-1) str) ≤ 65507
    rwa [hvalue]

end ReceiverArgs
end TTK4145.Exercise2
