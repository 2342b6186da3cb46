import Mathlib.Data.List.Basic

/-! Labelled machines with a partial executable step. A label carries every choice that the
environment makes, so a list of labels determines the execution. -/
namespace TTK4145.Lib

/-- Concrete executions name one or two threads by the literals of `Fin 1` and `Fin 2`. -/
instance neZero_one : @NeZero ℕ Zero.ofOfNat0 1 := ⟨Nat.succ_ne_zero 0⟩

instance neZero_two : @NeZero ℕ Zero.ofOfNat0 2 := ⟨Nat.succ_ne_zero 1⟩

structure Machine (σ α : Type*) where
  init : σ → Prop
  next : σ → α → Option σ

/-- Finite executions. The trace lists each state that was left with the label taken there. -/
inductive Exec {σ α : Type*} (M : Machine σ α) : List (σ × α) → σ → Prop
  | init {s} (start : M.init s) : Exec M [] s
  | step {tr s a t} (run : Exec M tr s) (next : M.next s a = some t) : Exec M (tr ++ [(s,a)]) t

/-- Every step of a trace meets a condition on the state it leaves and on its label. -/
def Meets {σ α : Type*} (C : σ → α → Prop) (tr : List (σ × α)) : Prop :=
  ∀ p ∈ tr, C p.1 p.2

instance {σ α : Type*} {C : σ → α → Prop} [∀ s a, Decidable (C s a)] (tr : List (σ × α)) :
    Decidable (Meets C tr) := inferInstanceAs (Decidable (∀ p ∈ tr, C p.1 p.2))

/-- A predicate of every state which an execution passes through, its last one included. -/
def Always {σ α : Type*} (P : σ → Prop) (tr : List (σ × α)) (s : σ) : Prop :=
  (∀ p ∈ tr, P p.1) ∧ P s

namespace Machine

/-- Take the steps of a list of labels in order. -/
def run {σ α : Type*} (M : Machine σ α) : σ → List α → Option σ
  | s,[] => some s
  | s,a::as => (M.next s a).bind fun t => M.run t as

/-- The trace of `run`, cut at the first label whose step is not enabled. -/
def trace {σ α : Type*} (M : Machine σ α) : σ → List α → List (σ × α)
  | _,[] => []
  | s,a::as => (s,a) :: match M.next s a with
    | none => []
    | some t => M.trace t as

/-- Some continuation of `s` leads to a state with `P`. -/
def Reaches {σ α : Type*} (M : Machine σ α) (P : σ → Prop) (s : σ) : Prop :=
  ∃ as t, M.run s as = some t ∧ P t

end Machine

variable {σ α : Type*} {M : Machine σ α} {P I : σ → Prop} {C : σ → α → Prop}
  {tr : List (σ × α)} {s t : σ} {a : α}

theorem Machine.Reaches.here (h : P s) : M.Reaches P s := ⟨[],s,rfl,h⟩

theorem Machine.Reaches.step (hs : M.next s a = some t) (h : M.Reaches P t) : M.Reaches P s := by
  obtain ⟨as,u,hu,hP⟩ := h
  refine ⟨a::as,u,?_,hP⟩
  rw [Machine.run,hs]
  exact hu

/-- What a continuation leads to keeps an invariant. -/
theorem Machine.Reaches.invariant (h : M.Reaches P s) (hs : I s)
    (next : ∀ s a t, I s → M.next s a = some t → I t) : ∃ t, I t ∧ P t := by
  obtain ⟨as,t,ht,hP⟩ := h
  refine ⟨t,?_,hP⟩
  clear hP
  induction as generalizing s with
  | nil =>
    cases ht
    exact hs
  | cons a as ih =>
    obtain ⟨u,hu,ht⟩ := Option.bind_eq_some_iff.mp ht
    exact ih (next s a u hs hu) ht

@[simp] theorem meets_nil : Meets C ([] : List (σ × α)) := by simp [Meets]

@[simp] theorem meets_snoc : Meets C (tr ++ [(s,a)]) ↔ Meets C tr ∧ C s a := by
  simp [Meets,or_imp,forall_and]

@[simp] theorem always_nil : Always P ([] : List (σ × α)) s ↔ P s := by simp [Always]

@[simp] theorem always_snoc : Always P (tr ++ [(s,a)]) t ↔ Always P tr s ∧ P t := by
  simp [Always,or_imp,forall_and]

theorem Always.mono {Q : σ → Prop} (h : ∀ s, P s → Q s) (hP : Always P tr s) :
    Always Q tr s := ⟨fun p hp => h _ (hP.1 p hp),h _ hP.2⟩

/-- An invariant of the steps that meet a condition holds after every execution made of them. -/
theorem Exec.invariant (run : Exec M tr s) (start : ∀ s, M.init s → I s)
    (next : ∀ s a t, I s → C s a → M.next s a = some t → I t) (meets : Meets C tr) : I s := by
  induction run with
  | init h => exact start _ h
  | step run h ih =>
    obtain ⟨hm,hc⟩ := meets_snoc.mp meets
    exact next _ _ _ (ih hm) hc h

/-- The same invariant read at every state on the way. -/
theorem Exec.always (run : Exec M tr s) (start : ∀ s, M.init s → I s)
    (next : ∀ s a t, I s → C s a → M.next s a = some t → I t) (meets : Meets C tr) :
    Always I tr s := by
  induction run with
  | init h => exact always_nil.mpr (start _ h)
  | step run h ih =>
    obtain ⟨hm,hc⟩ := meets_snoc.mp meets
    exact always_snoc.mpr ⟨ih hm,next _ _ _ (ih hm).2 hc h⟩

/-- If a step outside the condition always leads out of `P`, then staying in `P` forces the
condition on every step. -/
theorem Exec.meets_of_always (run : Exec M tr s) (start : ∀ s, M.init s → I s)
    (next : ∀ s a t, I s → C s a → M.next s a = some t → I t)
    (breaks : ∀ s a t, I s → ¬ C s a → M.next s a = some t → ¬ P t)
    (always : Always P tr s) : Meets C tr := by
  induction run with
  | init h => exact meets_nil
  | step run h ih =>
    obtain ⟨ha,ht⟩ := always_snoc.mp always
    have hm := ih ha
    refine meets_snoc.mpr ⟨hm,?_⟩
    by_contra hc
    exact breaks _ _ _ (run.invariant start next hm) hc h ht

/-- Forward simulation: an execution whose steps meet a condition is matched label by label by one
of the other machine, whose steps meet another condition. -/
theorem Exec.simulate {τ : Type*} {N : Machine τ α} {R : σ → τ → Prop} {D : τ → α → Prop}
    (run : Exec M tr s) (start : ∀ s, M.init s → ∃ t, N.init t ∧ R s t)
    (next : ∀ s a s' t, R s t → C s a → M.next s a = some s' →
      D t a ∧ ∃ t', N.next t a = some t' ∧ R s' t')
    (meets : Meets C tr) :
    ∃ tr' t, Exec N tr' t ∧ R s t ∧ Meets D tr' ∧ tr'.map Prod.snd = tr.map Prod.snd := by
  induction run with
  | init h =>
    obtain ⟨t,ht,hR⟩ := start _ h
    exact ⟨[],t,.init ht,hR,meets_nil,rfl⟩
  | step run h ih =>
    obtain ⟨hm,hc⟩ := meets_snoc.mp meets
    obtain ⟨tr',t,run',hR,hD,hl⟩ := ih hm
    obtain ⟨hd,t',ht',hR'⟩ := next _ _ _ _ hR hc h
    exact ⟨_,t',run'.step ht',hR',meets_snoc.mpr ⟨hD,hd⟩,by simp [hl]⟩

/-- A part of a machine goes through an execution of its own: each step is one of the part, or it
leaves the part alone. -/
theorem Exec.project {τ β : Type*} {N : Machine τ β} {D : τ → β → Prop} (f : σ → τ)
    (run : Exec M tr s) (start : ∀ s, M.init s → N.init (f s))
    (next : ∀ s a t, C s a → M.next s a = some t →
      f t = f s ∨ ∃ b, D (f s) b ∧ N.next (f s) b = some (f t))
    (meets : Meets C tr) : ∃ tr', Exec N tr' (f s) ∧ Meets D tr' := by
  induction run with
  | init h => exact ⟨[],.init (start _ h),meets_nil⟩
  | step run h ih =>
    obtain ⟨hm,hc⟩ := meets_snoc.mp meets
    obtain ⟨tr',run',hD⟩ := ih hm
    obtain he | ⟨b,hb,hn⟩ := next _ _ _ hc h
    · exact ⟨tr',he ▸ run',hD⟩
    · exact ⟨_,run'.step hn,meets_snoc.mpr ⟨hD,hb⟩⟩

/-- Running a list of labels continues an execution by its trace. -/
theorem Exec.run {as : List α} (run : Exec M tr s) (h : M.run s as = some t) :
    Exec M (tr ++ M.trace s as) t := by
  induction as generalizing tr s with
  | nil =>
    cases h
    simpa [Machine.trace] using run
  | cons a as ih =>
    obtain ⟨u,hu,ht⟩ := Option.bind_eq_some_iff.mp h
    have hr := ih (run.step hu) ht
    simpa [Machine.trace,hu] using hr

theorem Exec.of_run {as : List α} (start : M.init s) (h : M.run s as = some t) :
    Exec M (M.trace s as) t := by
  simpa using (Exec.init start).run h

/-- A condition on labels alone is met by a trace when it holds of every label run. -/
theorem meets_trace {D : α → Prop} {as : List α} (h : ∀ a ∈ as, D a) :
    Meets (fun _ a => D a) (M.trace s as) := by
  induction as generalizing s with
  | nil => exact meets_nil
  | cons a as ih =>
    intro p hp
    rcases List.mem_cons.mp hp with rfl | hp
    · exact h a (by simp)
    · cases hn : M.next s a with
      | none =>
        rw [hn] at hp
        cases hp
      | some t =>
        rw [hn] at hp
        exact ih (fun b hb => h b (by simp [hb])) p hp

theorem countP_snoc {p : σ × α → Bool} :
    (tr ++ [(s,a)]).countP p = tr.countP p+(p (s,a)).toNat := by
  rw [List.countP_append,List.countP_singleton]
  cases p (s,a) <;> rfl

/-- A measure that no step raises bounds the number of steps that lower it. -/
theorem Exec.countP_add_le {m : σ → ℕ} {n : ℕ} {f : σ → α → Bool} (run : Exec M tr s)
    (start : ∀ s, M.init s → I s ∧ m s ≤ n)
    (next : ∀ s a t, I s → M.next s a = some t → I t ∧ m t+(f s a).toNat ≤ m s) :
    I s ∧ tr.countP (fun p => f p.1 p.2)+m s ≤ n := by
  induction run with
  | init h =>
    obtain ⟨hi,hm⟩ := start _ h
    exact ⟨hi,by simpa using hm⟩
  | step run h ih =>
    obtain ⟨hi,hm⟩ := ih
    obtain ⟨hi',hle⟩ := next _ _ _ hi h
    refine ⟨hi',?_⟩
    simp only [countP_snoc]
    omega

/-- An execution is one of the machine that has no initial state but the one it began with. -/
theorem Exec.started (run : Exec M tr s) :
    ∃ s₀, M.init s₀ ∧ Exec {M with init := (· = s₀)} tr s := by
  induction run with
  | @init s h => exact ⟨s,h,.init rfl⟩
  | step run h ih =>
    obtain ⟨s₀,hs₀,ih⟩ := ih
    exact ⟨s₀,hs₀,.step ih h⟩

/-- The same from the moment on at which a flag is set that nobody takes back. -/
theorem Exec.countP_since_le {m : σ → ℕ} {n : ℕ} {c : σ → Bool} {f : σ → α → Bool}
    (run : Exec M tr s) (start : ∀ s, M.init s → I s ∧ c s = false)
    (next : ∀ s a t, I s → C s a → M.next s a = some t →
      I t ∧ (c s = false → c t = true → m t ≤ n) ∧
        (c s = true → c t = true ∧ m t+(f s a).toNat ≤ m s))
    (meets : Meets C tr) :
    I s ∧ (c s = false → tr.countP (fun p => c p.1 && f p.1 p.2) = 0) ∧
      (c s = true → tr.countP (fun p => c p.1 && f p.1 p.2)+m s ≤ n) := by
  induction run with
  | init h =>
    obtain ⟨hi,hc⟩ := start _ h
    refine ⟨hi,fun _ => rfl,fun h => ?_⟩
    rw [hc] at h
    cases h
  | @step tr s a t run h ih =>
    obtain ⟨hm,hC⟩ := meets_snoc.mp meets
    obtain ⟨hi,hbefore,hafter⟩ := ih hm
    obtain ⟨hi',hset,hkeep⟩ := next _ _ _ hi hC h
    refine ⟨hi',fun ht => ?_,fun ht => ?_⟩
    · cases hc : c s with
      | false => simp only [countP_snoc,hbefore hc,hc,Bool.false_and,Bool.toNat_false]
      | true =>
        rw [(hkeep hc).1] at ht
        cases ht
    · simp only [countP_snoc]
      cases hc : c s with
      | false =>
        have hle := hset hc ht
        have hzero := hbefore hc
        simpa [hzero] using hle
      | true =>
        have hle := (hkeep hc).2
        have hsum := hafter hc
        rw [Bool.true_and]
        omega

/-- Where the measure is used up only at an end, that many steps bring the end. -/
theorem Exec.countP_since_lt {m : σ → ℕ} {n : ℕ} {c : σ → Bool} {f : σ → α → Bool}
    (run : Exec M tr s) (start : ∀ s, M.init s → c s = false) (hn : 0<n)
    (next : ∀ s a t, M.next s a = some t → (c s = false → c t = true → m t ≤ n) ∧
      (c s = true → c t = true ∧ m t+(f s a).toNat ≤ m s)) :
    tr.countP (fun p => c p.1 && f p.1 p.2) ≤ n ∧
      (0 < m s → tr.countP (fun p => c p.1 && f p.1 p.2)<n) := by
  obtain ⟨-,hbefore,hafter⟩ := run.countP_since_le (I := fun _ => True) (C := fun _ _ => True)
    (fun s hi => ⟨trivial,start s hi⟩) (fun s a t _ _ h => ⟨trivial,next s a t h⟩)
    fun _ _ => trivial
  cases hc : c s with
  | false =>
    have hzero := hbefore hc
    exact ⟨by omega,fun _ => by omega⟩
  | true =>
    have hle := hafter hc
    exact ⟨by omega,fun _ => by omega⟩

/-- A measure that every step lowers bounds the length of an execution. -/
theorem Exec.length_add_le {m : σ → ℕ} {n : ℕ} (run : Exec M tr s)
    (start : ∀ s, M.init s → I s ∧ m s ≤ n)
    (next : ∀ s a t, I s → M.next s a = some t → I t ∧ m t < m s) :
    I s ∧ tr.length+m s ≤ n := by
  have h := run.countP_add_le (f := fun _ _ => true) start next
  rwa [List.countP_true] at h

namespace Machine

/-- No label is enabled. -/
def Stuck (M : Machine σ α) (s : σ) : Prop := ∀ a, M.next s a = none

/-- However its steps are chosen, the machine stops after at most `bound` of them, with `P`. -/
structure EndsIn (M : Machine σ α) (P : σ → Prop) (bound : ℕ) : Prop where
  bounded : ∀ tr s, Exec M tr s → tr.length ≤ bound
  ends : ∀ tr s, Exec M tr s → M.Stuck s → P s

/-- So the end can be reached from everywhere. -/
theorem EndsIn.reaches {bound : ℕ} (h : M.EndsIn P bound) (run : Exec M tr s) :
    M.Reaches P s := by
  obtain ⟨n,hn⟩ : ∃ n, bound = tr.length+n := Nat.exists_eq_add_of_le (h.bounded tr s run)
  induction n generalizing tr s with
  | zero =>
    refine .here (h.ends tr s run fun a => ?_)
    by_contra hne
    obtain ⟨t,ht⟩ := Option.ne_none_iff_exists'.mp hne
    have hlen := h.bounded _ t (run.step ht)
    rw [List.length_append,List.length_singleton] at hlen
    omega
  | succ n ih =>
    by_cases hs : M.Stuck s
    · exact .here (h.ends tr s run hs)
    · obtain ⟨a,ha⟩ := not_forall.mp hs
      obtain ⟨t,ht⟩ := Option.ne_none_iff_exists'.mp ha
      refine .step ht (ih (run.step ht) ?_)
      rw [List.length_append,List.length_singleton]
      omega

end Machine

end TTK4145.Lib
