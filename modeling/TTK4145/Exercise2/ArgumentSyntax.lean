import TTK4145.Lib.Numeral
import TTK4145.Exercise2.SenderArguments

/-! The texts which the argument parsers of the three programs of `Exercise2` take. -/
namespace TTK4145.Exercise2
open Lib
variable {lo hi err n : ℤ} {str : List UInt8}

theorem parseBounded_eq : parseBounded lo hi err str =
    if (strtol str).Clean str ∧ lo ≤ (strtol str).value ∧ (strtol str).value ≤ hi then
      (strtol str).value
    else err := by
  unfold parseBounded
  simp only
  by_cases hc : (strtol str).Clean str
  · rw [if_neg hc]
    by_cases hb : lo ≤ (strtol str).value ∧ (strtol str).value ≤ hi
    · rw [if_neg (by omega),if_pos ⟨hc,hb⟩]
    · rw [if_pos (by omega),if_neg (fun h => hb h.2)]
  · rw [if_pos (Decidable.not_not.mp hc),if_neg (fun h => hc h.1)]

/-- A value other than the error is that of a numeral within the bounds. -/
theorem parseBounded_eq_iff (hlo : longMin ≤ lo) (hhi : hi ≤ longMax) (hn : n ≠ err) :
    parseBounded lo hi err str = n ↔ Numeral str n ∧ lo ≤ n ∧ n ≤ hi := by
  rw [parseBounded_eq]
  constructor
  · intro h
    split_ifs at h with hc
    · obtain ⟨hclean,hge,hle⟩ := hc
      subst h
      exact ⟨(numeral_of_clean hclean).1,hge,hle⟩
    · exact absurd h.symm hn
  · rintro ⟨h,hge,hle⟩
    obtain ⟨hclean,rfl⟩ := strtol_clean_iff.mpr ⟨h,hlo.trans hge,hle.trans hhi⟩
    rw [if_pos ⟨hclean,hge,hle⟩]

/-- The check of `main` on a parser's result lets the values from `least` on pass. -/
theorem parseBounded_accepts {least : ℤ} (hlo : longMin ≤ lo) (hhi : hi ≤ longMax)
    (herr : err<least) (hle : least ≤ lo) :
    least ≤ parseBounded lo hi err str ∧ parseBounded lo hi err str = n ↔
      Numeral str n ∧ lo ≤ n ∧ n ≤ hi := by
  constructor
  · rintro ⟨hge,rfl⟩
    exact (parseBounded_eq_iff hlo hhi (by omega)).mp rfl
  · rintro ⟨h,hge,hle'⟩
    have he := (parseBounded_eq_iff hlo hhi (show n ≠ err by omega)).mpr ⟨h,hge,hle'⟩
    exact ⟨by omega,he⟩

/-- The same with the cast to `int`, which the bounds make harmless. -/
theorem cInt_parseBounded_accepts {least : ℤ} (hlo : -2^31 ≤ lo) (hhi : hi<2^31)
    (hbounds : lo ≤ hi) (herr : err<least) (hle : least ≤ lo) (hleast : -2^31 ≤ err) :
    least ≤ cInt (parseBounded lo hi err str) ∧ cInt (parseBounded lo hi err str) = n ↔
      Numeral str n ∧ lo ≤ n ∧ n ≤ hi := by
  have hcast : cInt (parseBounded lo hi err str) = parseBounded lo hi err str := by
    by_cases h : parseBounded lo hi err str = err
    · rw [h,cInt_of_bounds hleast (by omega)]
    · have := parseBounded_bounds h
      exact cInt_of_bounds (by omega) (by omega)
  rw [hcast]
  exact parseBounded_accepts (by simp only [longMin]; omega) (by simp only [longMax]; omega) herr hle

theorem parsePeriod_accepts :
    0 ≤ Sender.parsePeriod str ∧ Sender.parsePeriod str = n ↔
      Numeral str n ∧ 0 ≤ n ∧ n ≤ longMax := by
  have h : Sender.parsePeriod str = parseBounded 0 longMax (-1) str := by
    rw [parseBounded_eq]
    unfold Sender.parsePeriod
    simp only
    by_cases hc : (strtol str).Clean str
    · have hle := (numeral_of_clean hc).2.2
      rw [if_neg hc]
      by_cases hneg : (strtol str).value<0
      · rw [if_pos hneg,if_neg (fun h => by omega)]
      · rw [if_neg hneg,if_pos ⟨hc,by omega,hle⟩]
    · rw [if_pos (Decidable.not_not.mp hc),if_neg (fun h => hc h.1)]
  rw [h]
  exact parseBounded_accepts (by decide) (le_refl _) (by decide) (le_refl _)

/-- Each parser returns a value that `main` accepts for the numerals within its bounds, and this
value is the number written: no other text is taken for a number, and none of these is refused. -/
theorem parsers_exact (str : List UInt8) (n : ℤ) :
    (0 ≤ parsePort str ∧ parsePort str = n ↔ Numeral str n ∧ 1 ≤ n ∧ n ≤ 65535) ∧
    (0 ≤ parseSize str ∧ parseSize str = n ↔ Numeral str n ∧ 1 ≤ n ∧ n ≤ 65507) ∧
    (-1 ≤ parseRepetitions str ∧ parseRepetitions str = n ↔
      Numeral str n ∧ -1 ≤ n ∧ n ≤ intMax) ∧
    (0 ≤ Sender.parsePort str ∧ Sender.parsePort str = n ↔ Numeral str n ∧ 1 ≤ n ∧ n ≤ 65535) ∧
    (0 ≤ Sender.parseSize str ∧ Sender.parseSize str = n ↔ Numeral str n ∧ 0 ≤ n ∧ n ≤ 65507) ∧
    (-1 ≤ Sender.parseRepetitions str ∧ Sender.parseRepetitions str = n ↔
      Numeral str n ∧ -1 ≤ n ∧ n ≤ intMax) ∧
    (0 ≤ Sender.parsePeriod str ∧ Sender.parsePeriod str = n ↔
      Numeral str n ∧ 0 ≤ n ∧ n ≤ longMax) :=
  ⟨cInt_parseBounded_accepts (by decide) (by decide) (by decide) (by decide) (by decide) (by decide),
    cInt_parseBounded_accepts (by decide) (by decide) (by decide) (by decide) (by decide) (by decide),
    cInt_parseBounded_accepts (by decide) (by decide) (by decide) (by decide) (by decide) (by decide),
    cInt_parseBounded_accepts (by decide) (by decide) (by decide) (by decide) (by decide) (by decide),
    cInt_parseBounded_accepts (by decide) (by decide) (by decide) (by decide) (by decide) (by decide),
    cInt_parseBounded_accepts (by decide) (by decide) (by decide) (by decide) (by decide) (by decide),
    parsePeriod_accepts⟩

end TTK4145.Exercise2
