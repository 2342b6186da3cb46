import Mathlib.Data.List.Basic
import Mathlib.Data.List.Range
import Mathlib.Data.Nat.ModEq

/-! Rings of slots read as bounded first-in first-out lists. -/
namespace TTK4145.Lib
variable {α : Type*}

/-- A list that never holds more than `capacity` items. -/
@[ext] structure BoundedFifo (α : Type*) (capacity : ℕ) where
  items : List α
  bounded : items.length ≤ capacity

namespace BoundedFifo
variable {capacity : ℕ}

def empty : BoundedFifo α capacity := ⟨[],Nat.zero_le _⟩

/-- Append an item, unless the list is full. -/
def send (f : BoundedFifo α capacity) (x : α) : Option (BoundedFifo α capacity) :=
  if h : f.items.length<capacity then some ⟨f.items ++ [x],by simpa using Nat.succ_le_of_lt h⟩ else none

/-- Take the oldest item. -/
def receive (f : BoundedFifo α capacity) : Option (α × BoundedFifo α capacity) :=
  match h : f.items with
  | [] => none
  | x::xs => some (x,⟨xs,by have := f.bounded; rw [h] at this; simp at this; omega⟩)

theorem send_eq_none {f : BoundedFifo α capacity} {x : α} :
    f.send x = none ↔ capacity ≤ f.items.length := by
  simp [send]

theorem send_eq_some {f g : BoundedFifo α capacity} {x : α} :
    f.send x = some g ↔ f.items.length<capacity ∧ g.items = f.items ++ [x] := by
  unfold send
  split_ifs with h
  · rw [Option.some.injEq]
    exact ⟨fun e => ⟨h,by rw [←e]⟩,fun e => by cases g; simp_all⟩
  · simp [h]

theorem receive_eq_none {f : BoundedFifo α capacity} : f.receive = none ↔ f.items = [] := by
  unfold receive
  split <;> simp_all

theorem receive_eq_some {f g : BoundedFifo α capacity} {x : α} :
    f.receive = some (x,g) ↔ f.items = x::g.items := by
  unfold receive
  split
  · simp_all
  · rename_i y ys h
    simp only [Option.some.injEq,Prod.mk.injEq,h,List.cons.injEq]
    refine and_congr_right fun _ => ⟨fun e => by rw [←e],fun e => by cases g; simp_all⟩

end BoundedFifo

namespace Ring

/-- The `count` items from slot `tail` on, around a ring of `n` slots. -/
def window (slot : ℕ → α) (n tail count : ℕ) : List α :=
  (List.range count).map fun i => slot ((tail+i)%n)

variable {slot slot' : ℕ → α} {n tail count : ℕ}

@[simp] theorem length_window : (window slot n tail count).length = count := by simp [window]

/-- Distinct offsets below the number of slots reach distinct slots. -/
theorem offset_ne {i j : ℕ} (hij : i<j) (hj : j<n) : (tail+i)%n ≠ (tail+j)%n := by
  intro h
  have hd : n ∣ j-i := by
    have := (Nat.modEq_iff_dvd' (Nat.add_le_add_left hij.le tail)).mp h
    rwa [Nat.add_sub_add_left] at this
  exact absurd (Nat.le_of_dvd (by omega) hd) (by omega)

/-- Filling the slot behind the window appends its item and leaves the window as it was. -/
theorem window_push (hc : count<n) (h : ∀ i, i ≠ (tail+count)%n → slot' i = slot i) :
    window slot' n tail (count+1) = window slot n tail count ++ [slot' ((tail+count)%n)] := by
  simp only [window,List.range_succ,List.map_append,List.map_cons,List.map_nil]
  congr 1
  apply List.map_congr_left
  intro i hi
  exact h _ (offset_ne (List.mem_range.mp hi) hc)

/-- Moving the tail by one slot drops the oldest item. -/
theorem window_pop (ht : tail<n) :
    window slot n tail (count+1) = slot tail::window slot n ((tail+1)%n) count := by
  simp only [window,List.range_succ_eq_map,List.map_cons,List.map_map,Nat.add_zero,
    Nat.mod_eq_of_lt ht,List.cons.injEq,true_and]
  apply List.map_congr_left
  intro i _
  simp only [Function.comp,Nat.mod_add_mod]
  congr 2
  omega

end Ring
end TTK4145.Lib
