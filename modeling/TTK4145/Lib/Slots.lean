import Mathlib.Data.List.Basic
import Mathlib.Logic.Function.Basic

/-! Several tables of slots, each slot empty or holding an item. -/
namespace TTK4145.Lib.Slots
variable {α η : Type*}

/-- Slot `i` of table `a` holds the item `x`. -/
def Holds (slots : α → List (Option η)) (a : α) (i : ℕ) (x : η) : Prop :=
  (slots a)[i]? = some (some x)

/-- No item stands in two slots, be they of one table or of two. -/
def Single (slots : α → List (Option η)) : Prop :=
  ∀ x a b i j, Holds slots a i x → Holds slots b j x → a = b ∧ i = j

/-- No slot of any table holds the item. -/
def Absent (slots : α → List (Option η)) (x : η) : Prop := ∀ a, some x ∉ slots a

/-- Every item of the first tables stands in the same slot of the second ones. -/
def Within (slots' slots : α → List (Option η)) : Prop :=
  ∀ x a i, Holds slots' a i x → Holds slots a i x

/-- The tables differ in the slot `i` of table `a` and nowhere else. -/
def OneSlot (slots slots' : α → List (Option η)) (a : α) (i : ℕ) : Prop :=
  ∀ b j, (slots' b)[j]? ≠ (slots b)[j]? ↔ b = a ∧ j = i

/-- The first slot that holds `x`, as a loop over the indices finds it. -/
def firstSlot [DecidableEq η] (table : List (Option η)) (x : Option η) : Option ℕ :=
  table.findIdx? (· = x)

section Scan
variable [DecidableEq η] {table : List (Option η)} {x : Option η} {i : ℕ}

theorem firstSlot_eq_none : firstSlot table x = none ↔ x ∉ table := by
  rw [firstSlot,List.findIdx?_eq_none_iff]
  refine ⟨fun h hx => ?_,fun h y hy => ?_⟩
  · simpa using h x hx
  · rw [decide_eq_false_iff_not]
    rintro rfl
    exact h hy

theorem firstSlot_get (h : firstSlot table x = some i) : table[i]? = some x := by
  obtain ⟨hi,hx,-⟩ := List.findIdx?_eq_some_iff_getElem.mp h
  rw [List.getElem?_eq_getElem hi,of_decide_eq_true hx]

end Scan

theorem mem_iff_holds {slots : α → List (Option η)} {a : α} {x : η} :
    some x ∈ slots a ↔ ∃ i, Holds slots a i x := List.mem_iff_getElem?

theorem Holds.mem {slots : α → List (Option η)} {a : α} {x : η} {i : ℕ} (h : Holds slots a i x) :
    some x ∈ slots a := mem_iff_holds.mpr ⟨i,h⟩

theorem Holds.unique {slots : α → List (Option η)} {a : α} {i : ℕ} {x y : η}
    (hx : Holds slots a i x) (hy : Holds slots a i y) : x = y := by
  simpa [Holds,Option.some.injEq] using hx.symm.trans hy

theorem Within.trans {s t u : α → List (Option η)} (h : Within s t) (h' : Within t u) :
    Within s u := fun x a i hx => h' x a i (h x a i hx)

theorem Within.absent {slots' slots : α → List (Option η)} {x : η} (h : Within slots' slots)
    (hx : Absent slots x) : Absent slots' x := by
  intro a hm
  obtain ⟨i,hi⟩ := mem_iff_holds.mp hm
  exact hx a (h x a i hi).mem

variable [DecidableEq α]

/-- Store into one slot. -/
def setSlot (slots : α → List (Option η)) (a : α) (i : ℕ) (x : Option η) : α → List (Option η) :=
  Function.update slots a ((slots a).set i x)

variable {slots : α → List (Option η)} {a b : α} {i j : ℕ} {x y : η}

theorem getElem?_setSlot (v : Option η) (hi : i<(slots a).length) :
    (setSlot slots a i v b)[j]? = if b = a ∧ j = i then some v else (slots b)[j]? := by
  by_cases hb : b = a
  · subst hb
    rw [setSlot,Function.update_self,List.getElem?_set]
    by_cases hj : i = j
    · subst hj
      simp [hi]
    · simp [hj,Ne.symm hj]
  · rw [setSlot,Function.update_of_ne hb,if_neg (fun h => hb h.1)]

theorem oneSlot_setSlot {u v : Option η} (h : (slots a)[i]? = some u) (hv : v ≠ u) :
    OneSlot slots (setSlot slots a i v) a i := by
  have hi : i<(slots a).length := (List.getElem?_eq_some_iff.mp h).1
  intro b j
  rw [getElem?_setSlot v hi]
  split_ifs with hbj
  · obtain ⟨rfl,rfl⟩ := hbj
    simp [h,hv]
  · simp [hbj]

/-- What the tables hold after an item has been put into an empty slot. -/
theorem holds_put (h : (slots a)[i]? = some none) :
    Holds (setSlot slots a i (some x)) b j y ↔ b = a ∧ j = i ∧ y = x ∨ Holds slots b j y := by
  have hi : i<(slots a).length := (List.getElem?_eq_some_iff.mp h).1
  rw [Holds,getElem?_setSlot _ hi]
  split_ifs with hbj
  · obtain ⟨rfl,rfl⟩ := hbj
    simp [Holds,h,eq_comm]
  · simp only [Holds]
    tauto

/-- What the tables hold after a slot has been emptied. -/
theorem holds_clear (h : Holds slots a i x) :
    Holds (setSlot slots a i none) b j y ↔ Holds slots b j y ∧ ¬(b = a ∧ j = i) := by
  have hi : i<(slots a).length := (List.getElem?_eq_some_iff.mp h).1
  rw [Holds,getElem?_setSlot _ hi]
  split_ifs with hbj
  · simp [hbj]
  · simp [Holds,hbj]

theorem within_clear (h : Holds slots a i x) : Within (setSlot slots a i none) slots :=
  fun _ _ _ hy => ((holds_clear h).mp hy).1

theorem Single.put (hs : Single slots) (hx : Absent slots x) (h : (slots a)[i]? = some none) :
    Single (setSlot slots a i (some x)) := by
  intro y b c j k hb hc
  rw [holds_put h] at hb hc
  rcases hb with ⟨rfl,rfl,rfl⟩ | hb
  · rcases hc with ⟨rfl,rfl,-⟩ | hc
    · exact ⟨rfl,rfl⟩
    · exact absurd hc.mem (hx _)
  · rcases hc with ⟨rfl,rfl,rfl⟩ | hc
    · exact absurd hb.mem (hx _)
    · exact hs y b c j k hb hc

theorem Single.clear (hs : Single slots) (h : Holds slots a i x) :
    Single (setSlot slots a i none) := by
  intro y b c j k hb hc
  exact hs y b c j k ((holds_clear h).mp hb).1 ((holds_clear h).mp hc).1

/-- Emptying its one slot takes an item out of all tables. -/
theorem Single.absent_clear (hs : Single slots) (h : Holds slots a i x) :
    Absent (setSlot slots a i none) x := by
  intro b hm
  obtain ⟨j,hj⟩ := mem_iff_holds.mp hm
  obtain ⟨hj,hne⟩ := (holds_clear h).mp hj
  exact hne (hs x b a j i hj h)

end TTK4145.Lib.Slots
