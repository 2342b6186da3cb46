import Mathlib.Algebra.Group.Int.Defs
import Mathlib.Algebra.Group.Nat.Defs
import Mathlib.Data.List.TakeWhile
import Mathlib.Data.Int.Order.Basic

/-! Texts of C programs as the bytes before their NUL, the fields of a C struct as bytes, and the
decimal `strtol`. -/
namespace TTK4145.Lib

/-- The bytes of an ASCII string constant. -/
def cBytes (s : String) : List UInt8 := s.toList.map fun c => c.toNat.toUInt8

/-- What a copy into a buffer of `size` bytes leaves of a text, NUL excluded. -/
def cutText (size : ℕ) (text : List UInt8) : List UInt8 :=
  (text.takeWhile (· ≠ 0)).take (size-1)

section Fields
variable {size n k : ℕ} {text : List UInt8}

theorem cutText_length_lt (h : 0<size) (text : List UInt8) : (cutText size text).length<size := by
  have hlen := List.length_take_le (size-1) (text.takeWhile (· ≠ 0))
  unfold cutText
  omega

theorem cutText_no_nul (size : ℕ) (text : List UInt8) : 0 ∉ cutText size text := by
  intro h
  have hp := List.mem_takeWhile_imp (List.mem_of_mem_take h)
  simp at hp

/-- A text in an array of `size` bytes, filled up with NULs. -/
def textField (size : ℕ) (text : List UInt8) : List UInt8 :=
  text ++ List.replicate (size-text.length) 0

theorem length_textField (h : text.length<size) : (textField size text).length = size := by
  simp only [textField,List.length_append,List.length_replicate]
  omega

/-- The text stands before the first NUL of its array. -/
theorem textField_text (h : text.length<size) (hz : 0 ∉ text) :
    (textField size text).takeWhile (· ≠ 0) = text := by
  obtain ⟨m,hm⟩ : ∃ m, size-text.length = m+1 := ⟨size-text.length-1,by omega⟩
  rw [textField,hm,List.takeWhile_append_of_pos]
  · simp [List.replicate_succ]
  · intro b hb
    simp only [ne_eq,decide_not,Bool.not_eq_eq_eq_not,Bool.not_true,decide_eq_false_iff_not]
    rintro rfl
    exact hz hb

/-- The `k` bytes of a number, the lowest first. -/
def leBytes : ℕ → ℕ → List UInt8
  | 0,_ => []
  | k+1,n => (n%256).toUInt8::leBytes k (n/256)

def leNat : List UInt8 → ℕ
  | [] => 0
  | b::bs => b.toNat+256*leNat bs

@[simp] theorem length_leBytes (k n : ℕ) : (leBytes k n).length = k := by
  induction k generalizing n with
  | zero => rfl
  | succ k ih => rw [leBytes,List.length_cons,ih]

theorem leNat_leBytes (h : n<256^k) : leNat (leBytes k n) = n := by
  induction k generalizing n with
  | zero =>
    have : n = 0 := by simpa using h
    rw [this]
    rfl
  | succ k ih =>
    rw [leBytes,leNat,ih (Nat.div_lt_of_lt_mul (by rwa [Nat.pow_succ'] at h))]
    have hb : (n%256).toUInt8.toNat = n%256 := by
      simp [Nat.toUInt8]
    rw [hb]
    exact Nat.mod_add_div n 256

end Fields

/-- `isspace` of the C locale. -/
def isSpace (b : UInt8) : Bool := b = 32 ∨ 9 ≤ b ∧ b ≤ 13

def isDigit (b : UInt8) : Bool := 48 ≤ b ∧ b ≤ 57

def digitsValue (ds : List UInt8) : ℤ := ds.foldl (fun v d => 10*v+((d.toNat : ℤ)-48)) 0

def longMax : ℤ := 2^63-1
def longMin : ℤ := -2^63
def intMax : ℤ := 2^31-1

/-- The outcome of `strtol(str, &endptr, 10)` with `errno` cleared before: the value, whether
`errno` was set, and `endptr - str`. -/
structure Strtol where
  value : ℤ
  erange : Bool
  consumed : ℕ
  deriving DecidableEq, Repr

/-- The sign of a number and what stands behind it. -/
def splitSign : List UInt8 → ℤ × List UInt8
  | 45::rest => (-1,rest)
  | 43::rest => (1,rest)
  | rest => (1,rest)

def strtol (str : List UInt8) : Strtol :=
  let (sign,rest) := splitSign (str.dropWhile isSpace)
  let digits := rest.takeWhile isDigit
  let value := sign*digitsValue digits
  if digits = [] then ⟨0,false,0⟩
  else if value<longMin then ⟨longMin,true,str.length-(rest.length-digits.length)⟩
  else if longMax<value then ⟨longMax,true,str.length-(rest.length-digits.length)⟩
  else ⟨value,false,str.length-(rest.length-digits.length)⟩

end TTK4145.Lib
