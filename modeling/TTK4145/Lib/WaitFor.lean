import Mathlib.Logic.Relation
import Mathlib.Order.Basic

/-! Threads that own mutexes, wait for them and wait for the ends of other threads, and the lock
order that keeps them from waiting in a circle. -/
namespace TTK4145.Lib

/-- A mutex is owned by the one thread in its critical section, or by none. -/
def OwnedBy {θ : Type*} (owner : Option θ) (inside : θ → Prop) : Prop :=
  ∀ t, owner = some t ↔ inside t

namespace OwnedBy
variable {θ : Type*} {owner : Option θ} {inside inside' : θ → Prop} {t u : θ}

theorem exclusive (h : OwnedBy owner inside) (ht : inside t) (hu : inside u) : t = u :=
  Option.some.inj (((h t).mpr ht).symm.trans ((h u).mpr hu))

theorem outside (h : OwnedBy none inside) : ¬inside t := fun ht => by cases (h t).mpr ht

theorem congr (h : OwnedBy owner inside) (hsame : ∀ u, inside' u ↔ inside u) :
    OwnedBy owner inside' := fun u => (h u).trans (hsame u).symm

/-- A thread locks the free mutex. -/
theorem enter (h : OwnedBy none inside) (ht : inside' t)
    (hother : ∀ u, u ≠ t → (inside' u ↔ inside u)) : OwnedBy (some t) inside' := by
  intro u
  rw [Option.some.injEq]
  refine ⟨fun he => he ▸ ht,fun hu => ?_⟩
  by_contra hne
  exact h.outside ((hother u fun he => hne he.symm).mp hu)

/-- The thread inside unlocks the mutex. -/
theorem leave (h : OwnedBy owner inside) (ht : inside t) (hout : ¬inside' t)
    (hother : ∀ u, u ≠ t → (inside' u ↔ inside u)) : OwnedBy none inside' := by
  intro u
  refine ⟨nofun,fun hu => ?_⟩
  by_cases hut : u = t
  · exact absurd (hut ▸ hu) hout
  · exact absurd (h.exclusive ((hother u hut).mp hu) ht) hut

end OwnedBy

/-- What a blocking call waits for. -/
inductive Wait (μ θ : Type*) where
  | mutex (m : μ)
  | join (t : θ)
  deriving DecidableEq, Repr

/-- A moment of a run: who owns each mutex, what the next call of each thread waits for, and which
threads have ended. -/
structure WaitState (μ θ : Type*) where
  owner : μ → Option θ
  wants : θ → Option (Wait μ θ)
  ended : θ → Prop

namespace WaitState
variable {μ θ ι : Type*} {w : WaitState μ θ} {t u v : θ} {m : μ}

/-- The mutex that `t` waits for is owned by `u`, or `u` is to end and has not. -/
def HeldUpBy (w : WaitState μ θ) (t u : θ) : Prop :=
  match w.wants t with
  | some (.mutex m) => w.owner m = some u
  | some (.join v) => v = u ∧ ¬w.ended u
  | none => False

/-- Waits are ranked: who owns a mutex waits only for what comes later, and so does a thread that
is waited for. -/
structure Ordered [Preorder ι] (w : WaitState μ θ) (rank : Wait μ θ → ι) : Prop where
  owner : ∀ t m x, w.owner m = some t → w.wants t = some x → rank (.mutex m)<rank x
  joined : ∀ t u x, w.wants t = some (.join u) → ¬w.ended u → w.wants u = some x →
    rank (.join u)<rank x

variable [Preorder ι] {rank : Wait μ θ → ι}

theorem HeldUpBy.wants (h : w.HeldUpBy t u) : ∃ x, w.wants t = some x := by
  unfold HeldUpBy at h
  split at h
  · rename_i m hm
    exact ⟨.mutex m,hm⟩
  · rename_i v hv
    exact ⟨.join v,hv⟩
  · exact h.elim

/-- Along two waits the rank goes up. -/
theorem Ordered.lt (h : w.Ordered rank) (htu : w.HeldUpBy t u) {x y : Wait μ θ}
    (hx : w.wants t = some x) (hy : w.wants u = some y) : rank x<rank y := by
  simp only [HeldUpBy,hx] at htu
  cases x with
  | mutex m => exact h.owner u m y htu hy
  | join v =>
    obtain ⟨rfl,hended⟩ := htu
    exact h.joined t v y hx hended hy

/-- No thread waits for a mutex that it owns. -/
theorem Ordered.not_relock (h : w.Ordered rank) (hm : w.wants t = some (.mutex m)) :
    w.owner m ≠ some t := fun ho => lt_irrefl _ (h.owner t m _ ho hm)

theorem Ordered.lt_of_path (h : w.Ordered rank) (hpath : Relation.TransGen w.HeldUpBy t u)
    {x y : Wait μ θ} (hx : w.wants t = some x) (hy : w.wants u = some y) : rank x<rank y := by
  induction hpath generalizing y with
  | single htu => exact h.lt htu hx hy
  | tail _ hbc ih =>
    obtain ⟨z,hz⟩ := hbc.wants
    exact (ih hz).trans (h.lt hbc hz hy)

/-- No threads wait in a circle. -/
theorem Ordered.acyclic (h : w.Ordered rank) (t : θ) : ¬Relation.TransGen w.HeldUpBy t t := by
  intro hpath
  obtain ⟨u,htu,-⟩ := Relation.TransGen.head'_iff.mp hpath
  obtain ⟨x,hx⟩ := htu.wants
  exact lt_irrefl _ (h.lt_of_path hpath hx hx)

end WaitState
end TTK4145.Lib
