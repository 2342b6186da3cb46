import TTK4145.Lib.CText

/-! Conversions between the integer types of C, with 32 bits for `int` and 64 for `long` and
`size_t`, and the text of `%d`. -/
namespace TTK4145.Lib

/-- A conversion to `int`. -/
def cInt (n : ℤ) : ℤ := (n+2^31)%2^32-2^31

/-- A conversion to `unsigned`. -/
def cUnsigned (n : ℤ) : ℕ := (n%2^32).toNat

/-- A conversion to `size_t`. -/
def cSize (n : ℤ) : ℕ := (n%2^64).toNat

section Conversions
variable {n : ℤ}

theorem cInt_bounds (n : ℤ) : -2^31 ≤ cInt n ∧ cInt n<2^31 := by
  have hlo := Int.emod_nonneg (n+2^31) (b := 2^32) (by decide)
  have hhi := Int.emod_lt_of_pos (n+2^31) (b := 2^32) (by decide)
  unfold cInt
  omega

theorem cInt_of_bounds (hlo : -2^31 ≤ n) (hhi : n<2^31) : cInt n = n := by
  rw [cInt,Int.emod_eq_of_lt (by omega) (by omega)]
  omega

theorem cUnsigned_eq_iff (h : 0 ≤ n) : (cUnsigned n : ℤ) = n ↔ n<2^32 := by
  have hlo := Int.emod_nonneg n (b := 2^32) (by decide)
  have hhi := Int.emod_lt_of_pos n (b := 2^32) (by decide)
  rw [cUnsigned,Int.toNat_of_nonneg hlo]
  constructor
  · intro hn
    omega
  · intro hn
    exact Int.emod_eq_of_lt h hn

theorem cSize_of_nonneg (h : 0 ≤ n) (hhi : n<2^64) : (cSize n : ℤ) = n := by
  rw [cSize,Int.emod_eq_of_lt h hhi,Int.toNat_of_nonneg h]

/-- What is negative becomes larger than any `int`. -/
theorem le_cSize_of_neg (hlo : -2^31 ≤ n) (h : n<0) : (2^63 : ℤ) ≤ cSize n := by
  have hn : n%2^64 = n+2^64 := by
    rw [← Int.add_emod_right]
    exact Int.emod_eq_of_lt (by omega) (by omega)
  rw [cSize,hn,Int.toNat_of_nonneg (by omega)]
  omega

end Conversions

/-- The decimal digits of a number, the highest first. -/
def natDecimal (n : ℕ) : List UInt8 := (Nat.toDigits 10 n).map fun c => c.toNat.toUInt8

/-- The text of `%d` and `%ld`. -/
def decimal (n : ℤ) : List UInt8 := if n<0 then 45::natDecimal n.natAbs else natDecimal n.natAbs

section Decimal
variable {n : ℕ}

theorem natDecimal_eq_if (n : ℕ) :
    natDecimal n = if n<10 then [(48+n).toUInt8] else natDecimal (n/10) ++ [(48+n%10).toUInt8] := by
  have digit : ∀ d : Fin 10, (Nat.digitChar d).toNat.toUInt8 = (48+d.val).toUInt8 := by decide
  unfold natDecimal
  rw [Nat.toDigits_eq_if (by decide)]
  split_ifs with h
  · exact congrArg (fun b => [b]) (digit ⟨n,h⟩)
  · rw [List.map_append]
    congr 1
    exact congrArg (fun b => [b]) (digit ⟨n%10,Nat.mod_lt n (by decide)⟩)

theorem natDecimal_ne_nil (n : ℕ) : natDecimal n ≠ [] := by
  rw [natDecimal,Ne,List.map_eq_nil_iff]
  exact Nat.toDigits_ne_nil

theorem length_natDecimal_le {k : ℕ} (hk : 0<k) : (natDecimal n).length ≤ k ↔ n<10^k := by
  rw [natDecimal,List.length_map]
  exact Nat.length_toDigits_le_iff (by decide) hk

theorem toUInt8_digit {d : ℕ} (h : d<10) :
    isDigit (48+d).toUInt8 = true ∧ (((48+d).toUInt8.toNat : ℤ)-48) = d := by
  have all : ∀ d : Fin 10,
      isDigit (48+d.val).toUInt8 = true ∧ (((48+d.val).toUInt8.toNat : ℤ)-48) = d.val := by decide
  exact all ⟨d,h⟩

theorem isDigit_of_mem_natDecimal {b : UInt8} (h : b ∈ natDecimal n) : isDigit b = true := by
  induction n using Nat.strong_induction_on with
  | _ n ih =>
    rw [natDecimal_eq_if] at h
    split_ifs at h with hn
    · rw [List.mem_singleton.mp h]
      exact (toUInt8_digit hn).1
    · rcases List.mem_append.mp h with h | h
      · exact ih (n/10) (by omega) h
      · rw [List.mem_singleton.mp h]
        exact (toUInt8_digit (Nat.mod_lt n (by decide))).1

theorem digitsValue_append (l : List UInt8) (d : UInt8) :
    digitsValue (l ++ [d]) = 10*digitsValue l+((d.toNat : ℤ)-48) := by
  simp [digitsValue]

theorem digitsValue_natDecimal (n : ℕ) : digitsValue (natDecimal n) = n := by
  induction n using Nat.strong_induction_on with
  | _ n ih =>
    rw [natDecimal_eq_if]
    split_ifs with hn
    · have h := digitsValue_append [] (48+n).toUInt8
      rw [(toUInt8_digit hn).2] at h
      simpa [digitsValue] using h
    · rw [digitsValue_append,ih (n/10) (by omega),(toUInt8_digit (Nat.mod_lt n (by decide))).2]
      omega

theorem not_isSpace_of_isDigit {b : UInt8} (h : isDigit b = true) : isSpace b = false := by
  have hb := of_decide_eq_true h
  apply decide_eq_false
  rintro (rfl | ⟨-,hle⟩)
  · exact absurd hb.1 (by decide)
  · exact absurd (UInt8.le_trans hb.1 hle) (by decide)

theorem splitSign_digit {b : UInt8} (h : isDigit b = true) (l : List UInt8) :
    splitSign (b::l) = (1,b::l) := by
  unfold splitSign
  split
  · next heq =>
    cases heq
    cases h
  · next heq =>
    cases heq
    cases h
  · rfl

/-- `strtol` reads the text of any `long` back, to its end. -/
theorem strtol_decimal {n : ℤ} (hlo : longMin ≤ n) (hhi : n ≤ longMax) :
    strtol (decimal n) = ⟨n,false,(decimal n).length⟩ := by
  obtain ⟨b,l,hl⟩ := List.exists_cons_of_ne_nil (natDecimal_ne_nil n.natAbs)
  have hall : ∀ b ∈ natDecimal n.natAbs, isDigit b = true := fun b => isDigit_of_mem_natDecimal
  have hb : isDigit b = true := hall b (by rw [hl]; exact List.mem_cons_self)
  have hdigits : (natDecimal n.natAbs).takeWhile isDigit = natDecimal n.natAbs :=
    List.takeWhile_eq_self_iff.mpr hall
  have hvalue : digitsValue (natDecimal n.natAbs) = n.natAbs := digitsValue_natDecimal _
  by_cases hn : n<0
  · have hsplit : splitSign ((decimal n).dropWhile isSpace) = (-1,natDecimal n.natAbs) := by
      rw [decimal,if_pos hn]
      rfl
    have hv : (-1)*(n.natAbs : ℤ) = n := by omega
    rw [strtol,hsplit]
    simp only [hdigits,hvalue,hv,if_neg (natDecimal_ne_nil _),if_neg (Int.not_lt.mpr hlo),
      if_neg (Int.not_lt.mpr hhi),Nat.sub_self,Nat.sub_zero]
  · have hsplit : splitSign ((decimal n).dropWhile isSpace) = (1,natDecimal n.natAbs) := by
      rw [decimal,if_neg hn,hl,List.dropWhile_cons_of_neg (by rw [not_isSpace_of_isDigit hb]; decide)]
      exact splitSign_digit hb l
    have hv : 1*(n.natAbs : ℤ) = n := by omega
    rw [strtol,hsplit]
    simp only [hdigits,hvalue,hv,if_neg (natDecimal_ne_nil _),if_neg (Int.not_lt.mpr hlo),
      if_neg (Int.not_lt.mpr hhi),Nat.sub_self,Nat.sub_zero]

/-- A text of fewer bytes than the buffer is not cut. -/
theorem cutText_decimal {size : ℕ} {n : ℤ} (h : (decimal n).length<size) :
    cutText size (decimal n) = decimal n := by
  have hz : ∀ b ∈ decimal n, b ≠ 0 := by
    intro b hb
    have hd : b = 45 ∨ b ∈ natDecimal n.natAbs := by
      unfold decimal at hb
      split_ifs at hb
      · exact List.mem_cons.mp hb
      · exact .inr hb
    rintro rfl
    obtain hd | hd := hd
    · cases hd
    · cases isDigit_of_mem_natDecimal hd
  rw [cutText,List.takeWhile_eq_self_iff.mpr (by simpa using hz),List.take_of_length_le (by omega)]

end Decimal
end TTK4145.Lib
