import Mathlib.Data.List.TakeWhile
import Mathlib.Logic.Function.Basic

/-! A block of bytes in memory with the indices at which a program has used it. -/
namespace TTK4145.Lib

/-- The memory from the first byte of the block on, also behind its end. -/
structure ByteBuf where
  mem : ℕ → UInt8
  accessed : List ℕ

namespace ByteBuf

def write (b : ByteBuf) (i : ℕ) (v : UInt8) : ByteBuf :=
  ⟨Function.update b.mem i v,b.accessed ++ [i]⟩

def touch (b : ByteBuf) (i : ℕ) : ByteBuf := {b with accessed := b.accessed ++ [i]}

/-- Bytes stored from the start of the block on. -/
def fill (b : ByteBuf) (bytes : List UInt8) : ByteBuf :=
  ⟨fun i => bytes.getD i (b.mem i),b.accessed ++ List.range bytes.length⟩

/-- The text before the first NUL of the first `n` bytes. -/
def text (b : ByteBuf) (n : ℕ) : List UInt8 := ((List.range n).map b.mem).takeWhile (· ≠ 0)

/-- What `%s` prints of a block with a NUL at index `n`; the first NUL is read too. -/
def print (b : ByteBuf) (n : ℕ) : ByteBuf × List UInt8 :=
  ({b with accessed := b.accessed ++ List.range ((b.text n).length+1)},b.text n)

variable {b : ByteBuf} {i n : ℕ} {v : UInt8} {bytes : List UInt8}

theorem write_mem_other {j : ℕ} (h : j ≠ i) : (b.write i v).mem j = b.mem j :=
  Function.update_of_ne h _ _

@[simp] theorem write_accessed : (b.write i v).accessed = b.accessed ++ [i] := rfl
@[simp] theorem touch_mem : (b.touch i).mem = b.mem := rfl
@[simp] theorem touch_accessed : (b.touch i).accessed = b.accessed ++ [i] := rfl
@[simp] theorem fill_accessed :
    (b.fill bytes).accessed = b.accessed ++ List.range bytes.length := rfl
@[simp] theorem print_text : (b.print n).2 = b.text n := rfl
@[simp] theorem touch_text : (b.touch i).text n = b.text n := rfl

theorem text_congr {c : ByteBuf} (h : b.mem = c.mem) (n : ℕ) : b.text n = c.text n := by
  rw [text,h,text]

/-- The length of a text is at most that of its block. -/
theorem length_text_le : (b.text n).length ≤ n := by
  unfold text
  refine (List.takeWhile_sublist _).length_le.trans ?_
  rw [List.length_map,List.length_range]

/-- A store behind the text does not change it. -/
theorem write_text (h : n ≤ i) : (b.write i v).text n = b.text n := by
  unfold text
  congr 1
  apply List.map_congr_left
  intro j hj
  rw [List.mem_range] at hj
  exact write_mem_other (by omega)

theorem fill_mem (h : i<bytes.length) : (b.fill bytes).mem i = bytes[i] := by
  simp [fill,List.getD_eq_getElem?_getD,List.getElem?_eq_getElem h]

/-- The text of stored bytes without NUL is a prefix of them. -/
theorem fill_text (hn : n ≤ bytes.length) (h0 : 0 ∉ bytes) :
    (b.fill bytes).text n = bytes.take n := by
  have hmap : (List.range n).map (b.fill bytes).mem = bytes.take n := by
    apply List.ext_getElem
    · simp [hn]
    · intro i hi _
      rw [List.length_map,List.length_range] at hi
      rw [List.getElem_map,List.getElem_range,fill_mem (hi.trans_le hn),List.getElem_take]
  rw [text,hmap,List.takeWhile_eq_self_iff]
  intro x hx
  rw [decide_eq_true_eq]
  rintro rfl
  exact h0 (List.mem_of_mem_take hx)

end ByteBuf
end TTK4145.Lib
