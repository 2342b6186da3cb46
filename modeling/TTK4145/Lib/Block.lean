import Mathlib.Data.List.Basic
import Mathlib.Data.List.Indexes

/-! Flat blocks of memory cells with ranged copies. A block keeps its size; cells of a range
that lie outside the block are not stored, so that the bounds of a copy are a separate fact. -/
namespace TTK4145.Lib
variable {β : Type*}

namespace Block

/-- The cells `off`, ..., `off+n-1` of a block. -/
def load (b : List β) (off n : ℕ) : List β := (b.drop off).take n

/-- Overwrite the cells from `off` on with the cells of `src`. -/
def store (b : List β) (off : ℕ) (src : List β) : List β :=
  b.mapIdx fun i x => (if off ≤ i then src[i-off]? else none).getD x

@[simp] theorem length_store (b : List β) (off : ℕ) (src : List β) :
    (store b off src).length = b.length := by simp [store]

theorem load_all {b : List β} {n : ℕ} (h : b.length = n) : load b 0 n = b := by
  simp [load,←h]

theorem load_head {a b : List β} {n : ℕ} (h : a.length = n) : load (a ++ b) 0 n = a := by
  simp [load,←h]

theorem load_skip {a b : List β} {off n : ℕ} (h : a.length ≤ off) :
    load (a ++ b) off n = load b (off-a.length) n := by
  simp [load,List.drop_append,List.drop_eq_nil_of_le h]

theorem getElem?_load (b : List β) (off n i : ℕ) :
    (load b off n)[i]? = if i<n then b[off+i]? else none := by
  simp [load,List.getElem?_take]

theorem getElem?_store (b : List β) (off : ℕ) (src : List β) (i : ℕ) :
    (store b off src)[i]? =
      b[i]?.map fun x => (if off ≤ i then src[i-off]? else none).getD x := by
  simp [store,List.getElem?_mapIdx]

/-- What was stored inside the block is loaded back. -/
theorem load_store_same {b : List β} {off : ℕ} {src : List β}
    (h : off+src.length ≤ b.length) : load (store b off src) off src.length = src := by
  apply List.ext_getElem?
  intro i
  rw [getElem?_load,getElem?_store]
  by_cases hi : i<src.length
  · have hb : off+i<b.length := by omega
    simp [hi,hb]
  · simp [hi]

/-- A store leaves every disjoint range as it was. -/
theorem load_store_disjoint {b : List β} {off o n : ℕ} {src : List β}
    (h : o+n ≤ off ∨ off+src.length ≤ o) : load (store b off src) o n = load b o n := by
  apply List.ext_getElem?
  intro i
  rw [getElem?_load,getElem?_load,getElem?_store]
  split_ifs with hi ho
  · have hs : src[o+i-off]? = none := List.getElem?_eq_none (by omega)
    simp [hs]
  · simp
  · rfl

end Block

namespace Block
variable {w : ℕ}

/-- Two different slots of width `w` do not overlap. -/
theorem slots_disjoint {i j : ℕ} (h : i ≠ j) : i*w+w ≤ j*w ∨ j*w+w ≤ i*w := by
  rcases Nat.lt_or_gt_of_ne h with h | h
  · left
    have := Nat.mul_le_mul_right w (Nat.succ_le_of_lt h)
    simpa [Nat.succ_mul] using this
  · right
    have := Nat.mul_le_mul_right w (Nat.succ_le_of_lt h)
    simpa [Nat.succ_mul] using this

theorem slot_le {i n : ℕ} (h : i<n) : i*w+w ≤ n*w := by
  have := Nat.mul_le_mul_right w (Nat.succ_le_of_lt h)
  simpa [Nat.succ_mul] using this

end Block
end TTK4145.Lib
