import Mathlib.Data.List.Nodup

/-! Life cycles of mutexes and of resources that are acquired and released, read off a sequence of
events. -/
namespace TTK4145.Lib

/-- What a program does with mutexes `μ` and with resources `ρ`. -/
inductive ResourceEvent (μ ρ : Type*) where
  | init (m : μ)
  | lock (m : μ)
  | unlock (m : μ)
  | destroy (m : μ)
  | acquire (r : ρ)
  | release (r : ρ)
  deriving DecidableEq, Repr

inductive Life where
  | raw
  | live
  | destroyed
  deriving DecidableEq, Repr

variable {μ ρ : Type*}

namespace ResourceEvent

/-- The event needs the mutex to be initialised and not destroyed. -/
def Needs (m : μ) : ResourceEvent μ ρ → Prop
  | lock k | unlock k | destroy k => k = m
  | _ => False

def released : ResourceEvent μ ρ → Option ρ
  | release r => some r
  | _ => none

/-- The resources released, in order. -/
def releases (es : List (ResourceEvent μ ρ)) : List ρ := es.filterMap released

@[simp] theorem releases_snoc {es : List (ResourceEvent μ ρ)} {e : ResourceEvent μ ρ} :
    releases (es ++ [e]) = releases es ++ e.released.toList := by
  cases h : e.released <;> simp [releases,h]

variable [DecidableEq μ]

/-- The life of a mutex behind an event. -/
def after (m : μ) (l : Life) : ResourceEvent μ ρ → Life
  | init k => if k = m then .live else l
  | destroy k => if k = m then .destroyed else l
  | _ => l

/-- The life of a mutex behind a sequence of events. -/
def life (m : μ) (es : List (ResourceEvent μ ρ)) : Life := es.foldl (after m) .raw

/-- Every mutex is initialised and not yet destroyed where it is locked, unlocked or destroyed. -/
def MutexSafe (es : List (ResourceEvent μ ρ)) : Prop :=
  ∀ pre e post m, es = pre ++ e::post → e.Needs m → life m pre = .live

variable {es es' : List (ResourceEvent μ ρ)} {e : ResourceEvent μ ρ} {m : μ}

@[simp] theorem life_snoc : life m (es ++ [e]) = after m (life m es) e := by
  simp [life]

theorem mutexSafe_nil : MutexSafe ([] : List (ResourceEvent μ ρ)) := by
  intro pre e post m h
  simp at h

theorem mutexSafe_snoc :
    MutexSafe (es ++ [e]) ↔ MutexSafe es ∧ ∀ m, e.Needs m → life m es = .live := by
  constructor
  · refine fun h => ⟨fun pre x post m he hx => ?_,fun m hm => h es e [] m rfl hm⟩
    exact h pre x (post ++ [e]) m (by rw [he,List.append_assoc,List.cons_append]) hx
  · rintro ⟨hs,he⟩ pre x post m heq hx
    obtain rfl | ⟨post,y,rfl⟩ := List.eq_nil_or_concat' post
    · obtain ⟨rfl,hxe⟩ := List.append_inj' heq rfl
      cases hxe
      exact he m hx
    · rw [←List.cons_append,←List.append_assoc] at heq
      obtain ⟨hpre,-⟩ := List.append_inj' heq rfl
      exact hs pre x post m hpre hx

theorem mutexSafe_of_append (h : MutexSafe (es ++ es')) : MutexSafe es := by
  intro pre e post m he hneeds
  refine h pre e (post ++ es') m ?_ hneeds
  rw [he,List.append_assoc,List.cons_append]

theorem mutexSafe_release {r : ρ} (h : MutexSafe es) : MutexSafe (es ++ [.release r]) :=
  mutexSafe_snoc.mpr ⟨h,fun _ hm => hm.elim⟩

end ResourceEvent
end TTK4145.Lib
