import Mathlib.Data.Multiset.AddSub
import TTK4145.Lib.Lifecycle

/-! What is owned behind a sequence of events, for programs that acquire nothing twice and release
only what they own. -/
namespace TTK4145.Lib.ResourceEvent
variable {μ ρ : Type*} [DecidableEq ρ]

/-- What is owned behind an event, where the event is in order. -/
def charge (m : Multiset ρ) : ResourceEvent μ ρ → Option (Multiset ρ)
  | acquire r => if r ∈ m then none else some (r ::ₘ m)
  | release r => if r ∈ m then some (m.erase r) else none
  | _ => some m

/-- What is owned behind a sequence of events, where all of them are in order. -/
def owned (es : List (ResourceEvent μ ρ)) : Option (Multiset ρ) := es.foldlM charge 0

variable {es : List (ResourceEvent μ ρ)} {e : ResourceEvent μ ρ} {m : Multiset ρ} {r : ρ}

@[simp] theorem owned_snoc : owned (es ++ [e]) = (owned es).bind (charge · e) := by
  simp [owned]

theorem owned_acquire (h : owned es = some m) (hr : r ∉ m) :
    owned (es ++ [acquire r]) = some (r ::ₘ m) := by
  rw [owned_snoc,h]
  exact if_neg hr

theorem owned_release (h : owned es = some (r ::ₘ m)) : owned (es ++ [release r]) = some m := by
  rw [owned_snoc,h,Option.bind_some,charge,if_pos (Multiset.mem_cons_self r m),
    Multiset.erase_cons_head]

end TTK4145.Lib.ResourceEvent
