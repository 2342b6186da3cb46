import TTK4145.Lib.CNumber

/-! The numerals of `strtol` with base 10, and that it reads all of a text exactly if this is one. -/
namespace TTK4145.Lib

inductive Sign where
  | absent
  | plus
  | minus
  deriving DecidableEq, Repr

def Sign.text : Sign → List UInt8
  | absent => []
  | plus => [43]
  | minus => [45]

def Sign.factor : Sign → ℤ
  | absent => 1
  | plus => 1
  | minus => -1

/-- Blanks, a sign or none, and digits, with nothing behind them. -/
def Numeral (str : List UInt8) (n : ℤ) : Prop :=
  ∃ blanks sign digits, str = blanks ++ (Sign.text sign ++ digits) ∧
    (∀ b ∈ blanks, isSpace b = true) ∧ digits ≠ [] ∧ (∀ b ∈ digits, isDigit b = true) ∧
    n = sign.factor*digitsValue digits

section Numeral
variable {str digits rest : List UInt8} {sign : Sign} {n m : ℤ}

theorem splitSign_text (hne : digits ≠ []) (hd : ∀ b ∈ digits, isDigit b = true) (sign : Sign) :
    splitSign (sign.text ++ digits) = (sign.factor,digits) := by
  cases sign with
  | absent =>
    obtain ⟨b,l,rfl⟩ := List.exists_cons_of_ne_nil hne
    exact splitSign_digit (hd b List.mem_cons_self) l
  | plus | minus => rfl

theorem splitSign_eq (str : List UInt8) :
    ∃ sign : Sign, str = sign.text ++ (splitSign str).2 ∧ (splitSign str).1 = sign.factor := by
  unfold splitSign
  split
  · exact ⟨.minus,rfl,rfl⟩
  · exact ⟨.plus,rfl,rfl⟩
  · exact ⟨.absent,rfl,rfl⟩

/-- No blank begins with a sign or a digit. -/
theorem dropWhile_blanks {blanks : List UInt8} (hb : ∀ b ∈ blanks, isSpace b = true)
    (hne : digits ≠ []) (hd : ∀ b ∈ digits, isDigit b = true) (sign : Sign) :
    (blanks ++ (sign.text ++ digits)).dropWhile isSpace = sign.text ++ digits := by
  obtain ⟨d,l,rfl⟩ := List.exists_cons_of_ne_nil hne
  have hdigit := not_isSpace_of_isDigit (hd d List.mem_cons_self)
  rw [List.dropWhile_append_of_pos hb]
  cases sign with
  | absent => exact List.dropWhile_cons_of_neg (by simp [hdigit])
  | plus | minus => rfl

/-- `endptr` stands at the end of the text, behind a number, and `errno` is not set. -/
def Strtol.Clean (r : Strtol) (str : List UInt8) : Prop :=
  ¬(r.erange = true ∨ r.consumed = 0 ∨ r.consumed<str.length)

instance (r : Strtol) (str : List UInt8) : Decidable (r.Clean str) :=
  inferInstanceAs (Decidable (¬_))

theorem strtol_numeral (h : Numeral str n) (hlo : longMin ≤ n) (hhi : n ≤ longMax) :
    strtol str = ⟨n,false,str.length⟩ := by
  obtain ⟨blanks,sign,digits,rfl,hb,hne,hd,rfl⟩ := h
  rw [strtol,dropWhile_blanks hb hne hd,splitSign_text hne hd]
  simp only [List.takeWhile_eq_self_iff.mpr hd,if_neg hne,if_neg (Int.not_lt.mpr hlo),
    if_neg (Int.not_lt.mpr hhi),Nat.sub_self,Nat.sub_zero]

theorem numeral_of_clean (h : (strtol str).Clean str) :
    Numeral str (strtol str).value ∧ longMin ≤ (strtol str).value ∧
      (strtol str).value ≤ longMax := by
  obtain ⟨sign,hsplit,hfactor⟩ := splitSign_eq (str.dropWhile isSpace)
  have hstr : str.takeWhile isSpace ++ str.dropWhile isSpace = str :=
    List.takeWhile_append_dropWhile
  generalize hrest : (splitSign (str.dropWhile isSpace)).2 = rest at hsplit
  rw [Strtol.Clean,not_or,not_or] at h
  obtain ⟨herange,hconsumed,hend⟩ := h
  have hread : strtol str = ⟨sign.factor*digitsValue (rest.takeWhile isDigit),false,
      str.length-(rest.length-(rest.takeWhile isDigit).length)⟩ ∧ rest.takeWhile isDigit ≠ [] ∧
      longMin ≤ sign.factor*digitsValue (rest.takeWhile isDigit) ∧
      sign.factor*digitsValue (rest.takeWhile isDigit) ≤ longMax := by
    simp only [strtol,hfactor,hrest] at herange hconsumed ⊢
    split_ifs at herange hconsumed ⊢ with hnil hlo hhi
    · exact absurd rfl hconsumed
    · exact absurd rfl herange
    · exact absurd rfl herange
    · exact ⟨rfl,hnil,Int.not_lt.mp hlo,Int.not_lt.mp hhi⟩
  obtain ⟨hread,hne,hlo,hhi⟩ := hread
  rw [hread] at hend ⊢
  refine ⟨⟨str.takeWhile isSpace,sign,rest.takeWhile isDigit,?_,fun b => List.mem_takeWhile_imp,hne,
    fun b => List.mem_takeWhile_imp,rfl⟩,hlo,hhi⟩
  -- `endptr` at the end of the text leaves no room behind the digits
  have hall : rest.takeWhile isDigit = rest := by
    have hprefix := List.takeWhile_prefix isDigit (l := rest)
    have hle := hprefix.length_le
    have hlen : rest.length ≤ str.length := by
      have := congrArg List.length hstr
      rw [hsplit,List.length_append,List.length_append] at this
      omega
    change ¬str.length-(rest.length-(rest.takeWhile isDigit).length)<str.length at hend
    exact hprefix.eq_of_length (by omega)
  rw [hall,←hsplit,hstr]

/-- `strtol` has read a text to its end, without an error, exactly if it is a numeral of a `long`. -/
theorem strtol_clean_iff :
    (strtol str).Clean str ∧ (strtol str).value = n ↔
      Numeral str n ∧ longMin ≤ n ∧ n ≤ longMax := by
  constructor
  · rintro ⟨h,rfl⟩
    exact numeral_of_clean h
  · rintro ⟨h,hlo,hhi⟩
    have hlen : str.length ≠ 0 := by
      obtain ⟨blanks,sign,digits,rfl,-,hne,-,-⟩ := h
      have := List.length_pos_iff.mpr hne
      simp only [List.length_append]
      omega
    rw [strtol_numeral h hlo hhi]
    exact ⟨by simp [Strtol.Clean,hlen],rfl⟩

end Numeral
end TTK4145.Lib
