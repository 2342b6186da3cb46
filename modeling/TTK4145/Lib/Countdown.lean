import Mathlib.Algebra.Order.Group.Int
import Mathlib.Logic.Function.Iterate
import Mathlib.Order.Lattice

/-! The counter of a loop that ends after a given number of rounds, and never for a negative one:
`if (n > 0) n--; if (n == 0) break;` at the end of each round. -/
namespace TTK4145.Lib

def tick (n : ℤ) : ℤ := if n>0 then n-1 else n

/-- What a loop for `r` rounds has to meet after `n` of them: no round too many, no end too early,
and an end with the last round. -/
structure CountsExactly (r : ℤ) (n : ℕ) (ended : Prop) : Prop where
  bounded : 0 ≤ r → n ≤ r ∧ (ended → n = r) ∧ (0<n → n = r → ended)
  forever : r<0 → ¬ended

/-- The invariant of such a loop with the counter `left`. -/
structure Counting (r left : ℤ) (n : ℕ) (ended : Prop) : Prop where
  left_eq : left = tick^[n] r
  ended_iff : ended ↔ left = 0
  le : 0 ≤ r → n ≤ r

variable {r left : ℤ} {n : ℕ} {ended : Prop}

theorem iterate_tick_of_nonneg (h : 0 ≤ r) (n : ℕ) : tick^[n] r = max (r-n) 0 := by
  induction n with
  | zero => simp [h]
  | succ n ih =>
    rw [Function.iterate_succ_apply',ih,tick]
    push_cast
    split_ifs with hpos
    · omega
    · omega

theorem iterate_tick_of_neg (h : r<0) (n : ℕ) : tick^[n] r = r := by
  induction n with
  | zero => rfl
  | succ n ih => rw [Function.iterate_succ_apply',ih,tick,if_neg (by omega)]

theorem iterate_tick_eq_zero : tick^[n] r = 0 ↔ 0 ≤ r ∧ r ≤ n := by
  rcases lt_or_ge r 0 with h | h
  · rw [iterate_tick_of_neg h]
    omega
  · rw [iterate_tick_of_nonneg h]
    omega

theorem Counting.start (h : r ≠ 0) : Counting r r 0 False :=
  ⟨rfl,iff_of_false id h,fun h => h⟩

/-- One more round, which ends the loop when the counter comes to zero. -/
theorem Counting.round (h : Counting r left n ended) (hgoing : ¬ended) :
    Counting r (tick left) (n+1) (tick left = 0) := by
  refine ⟨?_,Iff.rfl,fun hr => ?_⟩
  · rw [h.left_eq,Function.iterate_succ_apply']
  · have hn := h.le hr
    have hne : ¬(0 ≤ r ∧ r ≤ n) := by
      rw [← iterate_tick_eq_zero,← h.left_eq,← h.ended_iff]
      exact hgoing
    omega

theorem Counting.congr {q : Prop} (h : Counting r left n ended) (hq : q ↔ ended) :
    Counting r left n q := ⟨h.left_eq,hq.trans h.ended_iff,h.le⟩

theorem Counting.exact (h : Counting r left n ended) : CountsExactly r n ended := by
  have hended : ended ↔ 0 ≤ r ∧ r ≤ n := by
    rw [h.ended_iff,h.left_eq,iterate_tick_eq_zero]
  refine ⟨fun hr => ⟨h.le hr,fun he => ?_,fun _ hn => ?_⟩,fun hr he => ?_⟩
  · have hn := h.le hr
    have hle := (hended.mp he).2
    omega
  · exact hended.mpr ⟨hr,by omega⟩
  · have hge := (hended.mp he).1
    omega

/-- No round has been counted where none is to be. -/
theorem CountsExactly.none : CountsExactly 0 0 ended := by
  refine ⟨fun _ => ⟨le_refl 0,fun _ => rfl,fun h => ?_⟩,fun h => ?_⟩
  · exact absurd h (lt_irrefl 0)
  · exact absurd h (lt_irrefl 0)

/-- One round is too many for none. -/
theorem not_countsExactly_zero_one : ¬CountsExactly 0 1 ended := by
  intro h
  have := (h.bounded (le_refl 0)).1
  omega

end TTK4145.Lib
