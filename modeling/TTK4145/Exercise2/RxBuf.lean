import Mathlib.Data.List.DropRight
import Mathlib.Logic.Function.Basic

/-! The receive buffer of `Exercise2/udp_receiver/src/udp_receiver.c` and
`Exercise2/tcp_receiver/src/tcp_receiver.c`, with what both programs do to it: the same loop strips
line ends, and the same `%s` prints the rest. -/
namespace TTK4145.Exercise2

/-- The memory from the first byte of the block on, also behind its end, and the indices read or
written so far. -/
structure RxBuf where
  mem : ℕ → UInt8
  accessed : List ℕ

namespace RxBuf

def write (b : RxBuf) (i : ℕ) (v : UInt8) : RxBuf :=
  ⟨Function.update b.mem i v,b.accessed ++ [i]⟩

def touch (b : RxBuf) (i : ℕ) : RxBuf := {b with accessed := b.accessed ++ [i]}

/-- `recvfrom(socket, rx_buf, room, MSG_TRUNC, …)` of a datagram, with its return value. -/
def recvfrom (b : RxBuf) (room : ℕ) (payload : List UInt8) : RxBuf × ℕ :=
  (⟨fun i => (payload.take room).getD i (b.mem i),
    b.accessed ++ List.range (payload.take room).length⟩,payload.length)

/-- `recv(client_fd, rx_buf, …)` that brings `bytes`, with its return value. -/
def recv (b : RxBuf) (bytes : List UInt8) : RxBuf × ℕ :=
  (⟨fun i => bytes.getD i (b.mem i),b.accessed ++ List.range bytes.length⟩,bytes.length)

/-- The loop that overwrites line ends from the back of the first `n` bytes. -/
def strip (b : RxBuf) : ℕ → RxBuf × ℕ
  | 0 => (b,0)
  | n+1 => if b.mem n = 10 ∨ b.mem n = 13 then ((b.touch n).write n 0).strip n else (b.touch n,n+1)

/-- The first NUL from index `i` on, looked for in `n` bytes. -/
def findNul (b : RxBuf) (i : ℕ) : ℕ → ℕ
  | 0 => i
  | n+1 => if b.mem i = 0 then i else b.findNul (i+1) n

/-- The length of the string at the start of a buffer that has a NUL at index `n`. -/
def strlen (b : RxBuf) (n : ℕ) : ℕ := b.findNul 0 n

/-- What `%s` prints: the bytes before the first NUL, which is read too. -/
def print (b : RxBuf) (n : ℕ) : RxBuf × List UInt8 :=
  ({b with accessed := b.accessed ++ List.range (b.strlen n+1)},(List.range (b.strlen n)).map b.mem)

/-- The bytes in front of index `n`. -/
def first (b : RxBuf) (n : ℕ) : List UInt8 := (List.range n).map b.mem

/-- A byte that the strip loop overwrites. -/
def isLineEnd (c : UInt8) : Bool := c = 10 ∨ c = 13

variable (b : RxBuf) (n : ℕ)

theorem strip_le : (b.strip n).2 ≤ n := by
  induction n generalizing b with
  | zero => exact Nat.le_refl 0
  | succ n ih =>
    rw [strip]
    split_ifs
    · exact Nat.le_succ_of_le (ih _)
    · exact Nat.le_refl (n+1)

/-- The strip loop only uses indices below its start. -/
theorem strip_accessed : ∃ new, (b.strip n).1.accessed = b.accessed ++ new ∧ ∀ i ∈ new, i<n := by
  induction n generalizing b with
  | zero => exact ⟨[],by simp [strip],by simp⟩
  | succ n ih =>
    rw [strip]
    split_ifs
    · obtain ⟨new,hacc,hlt⟩ := ih ((b.touch n).write n 0)
      refine ⟨[n,n] ++ new,?_,fun i hi => ?_⟩
      · rw [hacc]
        simp [touch,write]
      · rcases List.mem_append.mp hi with hi | hi
        · have : i = n := by simpa using hi
          omega
        · exact Nat.lt_succ_of_lt (hlt i hi)
    · exact ⟨[n],rfl,by simp⟩

theorem findNul_le (i : ℕ) : b.findNul i n ≤ i+n := by
  induction n generalizing i with
  | zero => exact Nat.le_refl i
  | succ n ih =>
    rw [findNul]
    split_ifs
    · omega
    · have := ih (i+1)
      omega

/-- Behind a terminator at index `n`, stripping and printing use indices up to it. -/
theorem print_accessed : let r := (b.write n 0).strip n
    ∃ new, (r.1.print r.2).1.accessed = b.accessed ++ n::new ∧ ∀ i ∈ new, i ≤ n := by
  intro r
  obtain ⟨new,hacc,hlt⟩ := (b.write n 0).strip_accessed n
  have hle : r.2 ≤ n := (b.write n 0).strip_le n
  have hstr : r.1.strlen r.2 ≤ 0+r.2 := r.1.findNul_le r.2 0
  refine ⟨new ++ List.range (r.1.strlen r.2+1),?_,fun i hi => ?_⟩
  · change r.1.accessed ++ _ = _
    rw [hacc]
    simp [write]
  · obtain hi | hi := List.mem_append.mp hi
    · exact (hlt i hi).le
    · rw [List.mem_range] at hi
      omega

section First
variable {b : RxBuf} {n : ℕ}

@[simp] theorem length_first : (b.first n).length = n := by simp [first]

theorem first_succ : b.first (n+1) = b.first n ++ [b.mem n] := by
  rw [first,List.range_succ,List.map_append]
  rfl

theorem first_congr {c : RxBuf} (h : ∀ i<n, b.mem i = c.mem i) : b.first n = c.first n :=
  List.map_congr_left fun i hi => h i (List.mem_range.mp hi)

/-- A store behind the first bytes does not change them. -/
theorem write_first {i : ℕ} {v : UInt8} (h : n ≤ i) : (b.write i v).first n = b.first n := by
  apply first_congr
  intro j hj
  exact Function.update_of_ne (by omega) _ _

/-- The bytes received stand at the start of the buffer. -/
theorem recv_first (bytes : List UInt8) : (b.recv bytes).1.first bytes.length = bytes := by
  apply List.ext_getElem
  · rw [length_first]
  · intro i _ hi
    simp [first,recv,List.getD_eq_getElem?_getD,List.getElem?_eq_getElem hi]

/-- The strip loop leaves the bytes in front of the trailing line ends. -/
theorem strip_first : (b.strip n).1.first (b.strip n).2 = (b.first n).rdropWhile isLineEnd := by
  induction n generalizing b with
  | zero => rfl
  | succ n ih =>
    rw [first_succ,List.rdropWhile_concat,strip]
    by_cases h : b.mem n = 10 ∨ b.mem n = 13
    · rw [if_pos h,if_pos (by rwa [isLineEnd,decide_eq_true_eq]),ih,write_first (Nat.le_refl n)]
      rfl
    · rw [if_neg h,if_neg (by rwa [isLineEnd,decide_eq_true_eq]),←first_succ]
      rfl

theorem le_findNul (i : ℕ) : i ≤ b.findNul i n := by
  induction n generalizing i with
  | zero => exact Nat.le_refl i
  | succ n ih =>
    rw [findNul]
    split_ifs
    · exact Nat.le_refl i
    · exact (Nat.le_succ i).trans (ih (i+1))

/-- The search from index `i` on stops behind the bytes that are not NUL. -/
theorem findNul_eq (i : ℕ) : (List.range (b.findNul i n-i)).map (fun j => b.mem (i+j)) =
    ((List.range n).map fun j => b.mem (i+j)).takeWhile (· ≠ 0) := by
  induction n generalizing i with
  | zero => simp [findNul]
  | succ n ih =>
    have hshift : ∀ m, (List.range (m+1)).map (fun j => b.mem (i+j)) =
        b.mem i::(List.range m).map fun j => b.mem (i+1+j) := by
      intro m
      rw [List.range_succ_eq_map,List.map_cons,List.map_map]
      exact congrArg _ (List.map_congr_left fun j _ => congrArg b.mem (by
        simp only [Nat.succ_eq_add_one]
        omega))
    rw [findNul,hshift]
    by_cases h : b.mem i = 0
    · rw [if_pos h,Nat.sub_self,h]
      rfl
    · have hge := le_findNul (b := b) (n := n) (i+1)
      rw [if_neg h,List.takeWhile_cons_of_pos (by rwa [decide_eq_true_eq]),←ih,
        ←hshift,show b.findNul (i+1) n-(i+1)+1 = b.findNul (i+1) n-i by omega]

/-- What `%s` prints of a buffer are the bytes in front of the first NUL among the first `n`. -/
theorem print_first : (b.print n).2 = (b.first n).takeWhile (· ≠ 0) := by
  have h := findNul_eq (b := b) (n := n) 0
  simp only [Nat.sub_zero,Nat.zero_add] at h
  exact h

/-- The line ends of received bytes are stripped, and the rest is printed up to a NUL. -/
theorem print_received (bytes : List UInt8) :
    let r := ((b.recv bytes).1.write bytes.length 0).strip bytes.length
    (r.1.print r.2).2 = (bytes.rdropWhile isLineEnd).takeWhile (· ≠ 0) := by
  intro r
  rw [print_first,strip_first,write_first (Nat.le_refl _),recv_first]

/-- Nothing is missing of a text without NUL. -/
theorem print_received_iff (bytes : List UInt8) :
    (bytes.rdropWhile isLineEnd).takeWhile (· ≠ 0) = bytes.rdropWhile isLineEnd ↔ 0 ∉ bytes := by
  rw [List.takeWhile_eq_self_iff]
  constructor
  · intro h h0
    rw [←List.rdropWhile_append_rtakeWhile (p := isLineEnd) (l := bytes),List.mem_append] at h0
    obtain h0 | h0 := h0
    · exact absurd (h 0 h0) (by decide)
    · exact absurd (List.mem_rtakeWhile_imp h0) (by decide)
  · intro h x hx
    rw [decide_eq_true_eq]
    rintro rfl
    exact h ((List.rdropWhile_prefix isLineEnd bytes).subset hx)

end First

end RxBuf

end TTK4145.Exercise2
