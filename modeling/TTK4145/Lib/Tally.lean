import Mathlib.Data.Finset.Card
import Mathlib.Logic.Function.Basic

/-! Counting the parties of a system whose local state has some property. -/
namespace TTK4145.Lib
variable {ι τ : Type*} {p q r : τ → Bool} {f : ι → τ} {n m : ℕ}

/-- Exactly `n` parties have a local state with `p`. -/
def Tally (p : τ → Bool) (f : ι → τ) (n : ℕ) : Prop :=
  ∃ F : Finset ι, (∀ t, t ∈ F ↔ p (f t) = true) ∧ F.card = n

theorem Tally.zero (h : ∀ t, p (f t) = false) : Tally p f 0 := ⟨∅,by simp [h],rfl⟩

theorem Tally.pos {t : ι} (h : Tally p f n) (ht : p (f t) = true) : 0<n := by
  obtain ⟨F,hF,rfl⟩ := h
  exact Finset.card_pos.mpr ⟨t,(hF t).mpr ht⟩

theorem Tally.exists (h : Tally p f n) (hn : n ≠ 0) : ∃ t, p (f t) = true := by
  obtain ⟨F,hF,rfl⟩ := h
  obtain ⟨t,ht⟩ := Finset.card_ne_zero.mp hn
  exact ⟨t,(hF t).mp ht⟩

theorem Tally.eq_zero (h : Tally p f n) (hf : ∀ t, p (f t) = false) : n = 0 := by
  by_contra hn
  obtain ⟨t,ht⟩ := h.exists hn
  rw [hf t] at ht
  cases ht

/-- The tallies of two properties that exclude each other add up. -/
theorem Tally.add [DecidableEq ι] (hq : Tally q f n) (hr : Tally r f m)
    (h : ∀ x, p x = (q x || r x)) (hqr : ∀ x, (q x && r x) = false) : Tally p f (n+m) := by
  obtain ⟨F,hF,rfl⟩ := hq
  obtain ⟨G,hG,rfl⟩ := hr
  refine ⟨F ∪ G,fun t => by simp [hF,hG,h],Finset.card_union_of_disjoint ?_⟩
  rw [Finset.disjoint_left]
  intro t htF htG
  have := hqr (f t)
  simp [(hF t).mp htF,(hG t).mp htG] at this

/-- One party moves: its old state no longer counts, its new one does. -/
theorem Tally.update [DecidableEq ι] {t : ι} {x : τ} (h : Tally p f n)
    (hm : n+(p x).toNat = m+(p (f t)).toNat) : Tally p (Function.update f t x) m := by
  obtain ⟨F,hF,rfl⟩ := h
  cases hx : p x with
  | true =>
    refine ⟨insert t F,fun u => ?_,?_⟩
    · by_cases hu : u = t
      · subst hu
        simp [hx]
      · simp [hu,hF]
    · cases ht : p (f t) with
      | true =>
        rw [Finset.insert_eq_of_mem ((hF t).mpr ht)]
        simpa [hx,ht] using hm
      | false =>
        rw [Finset.card_insert_of_notMem (by simp [hF,ht])]
        simpa [hx,ht] using hm
  | false =>
    refine ⟨F.erase t,fun u => ?_,?_⟩
    · by_cases hu : u = t
      · subst hu
        simp [hx]
      · simp [hu,hF]
    · cases ht : p (f t) with
      | true =>
        rw [Finset.card_erase_of_mem ((hF t).mpr ht)]
        simp only [hx,ht,Bool.toNat_false,Bool.toNat_true] at hm
        omega
      | false =>
        rw [Finset.erase_eq_of_notMem (by simp [hF,ht])]
        simpa [hx,ht] using hm

end TTK4145.Lib
