import Mathlib.Algebra.Order.Group.Int
import TTK4145.Lib.Machine
import TTK4145.Exercise1.NumberServer

/-! The two threads of `Exercise1/3 - shared variable/c/foo.c` that change `i` under a mutex, with the
load and the store of each change as steps. The rounds of their loops are parameters; `i` is an
integer, and `shared_in_range` tells how far it gets. -/
namespace TTK4145.Exercise1
open Lib

/-- The next statement of a thread in its round `j`; `temp` is the value loaded. -/
inductive CounterPc where
  | absent
  | loop (j : ℕ)
  | lock (j : ℕ)
  | load (j : ℕ)
  | store (j : ℕ) (temp : ℤ)
  | unlock (j : ℕ)
  | returned
  deriving DecidableEq, Repr

/-- The next statement of `main`, behind `pthread_mutex_init`. -/
inductive CounterMainPc where
  | create (w : Worker)
  | join (w : Worker)
  | destroy
  | print
  | returned
  deriving DecidableEq, Repr

/-- The threads run `incrementingThreadFunction` and `decrementingThreadFunction`. -/
structure SharedVariable where
  i : ℤ
  mutex : Option Worker
  worker : Worker → CounterPc
  main : CounterMainPc
  printed : List ℤ

/-- What a round of a thread adds to `i`. -/
def Worker.delta : Worker → ℤ
  | incrementing => 1
  | decrementing => -1

inductive CounterAction where
  | main
  | work (w : Worker)
  deriving DecidableEq, Repr

namespace SharedVariable

def setWorker (s : SharedVariable) (w : Worker) (pc : CounterPc) : SharedVariable :=
  {s with worker := Function.update s.worker w pc}

def start : SharedVariable := ⟨-1,none,fun _ => .absent,.create .incrementing,[]⟩

/-- One statement of a thread; its function is the same for both but for `delta`. -/
def stepWorker (count : Worker → ℕ) (s : SharedVariable) (w : Worker) : Option SharedVariable :=
  match s.worker w with
  | .absent | .returned => none
  | .loop j => some (s.setWorker w (if j<count w then .lock j else .returned))
  | .lock j => if s.mutex = none then some {s.setWorker w (.load j) with mutex := some w} else none
  | .load j => some (s.setWorker w (.store j s.i))
  | .store j temp => some {s.setWorker w (.unlock j) with i := temp+w.delta}
  | .unlock j => some {s.setWorker w (.loop (j+1)) with mutex := none}

def stepMain (s : SharedVariable) : Option SharedVariable :=
  match s.main with
  | .create .incrementing =>
    some {s.setWorker .incrementing (.loop 0) with main := .create .decrementing}
  | .create .decrementing =>
    some {s.setWorker .decrementing (.loop 0) with main := .join .incrementing}
  | .join .incrementing => if s.worker .incrementing = .returned then
      some {s with main := .join .decrementing} else none
  | .join .decrementing => if s.worker .decrementing = .returned then
      some {s with main := .destroy} else none
  | .destroy => some {s with main := .print}
  | .print => some {s with main := .returned, printed := s.printed ++ [s.i]}
  | .returned => none

/-- The return of `main` ends the program. -/
def next (count : Worker → ℕ) (s : SharedVariable) (a : CounterAction) : Option SharedVariable :=
  if s.main = .returned then none else
    match a with
    | .main => s.stepMain
    | .work w => s.stepWorker count w

end SharedVariable

/-- The program for any numbers of rounds. -/
def sharedVariable (count : Worker → ℕ) : Machine SharedVariable CounterAction where
  init s := s = .start
  next := SharedVariable.next count

/-- The rounds of a thread whose change has been stored. -/
def CounterPc.rounds (count : ℕ) : CounterPc → ℕ
  | absent => 0
  | loop j | lock j | load j | store j _ => j
  | unlock j => j+1
  | returned => count

/-- Between the lock and the unlock. -/
def CounterPc.critical : CounterPc → Bool
  | load _ | store _ _ | unlock _ => true
  | _ => false

/-- A thread in a round has not done all of them, and a value loaded is that of `i`. -/
def CounterPc.Within (count : ℕ) (i : ℤ) : CounterPc → Prop
  | absent | returned => True
  | loop j => j ≤ count
  | lock j | load j | unlock j => j<count
  | store j temp => j<count ∧ temp = i

/-- The statements of `main` from one on. -/
def CounterMainPc.left : CounterMainPc → ℕ
  | create .incrementing => 6
  | create .decrementing => 5
  | join .incrementing => 4
  | join .decrementing => 3
  | destroy => 2
  | print => 1
  | returned => 0

section Invariant
variable {count : Worker → ℕ} {s t : SharedVariable} {w : Worker} {a : CounterAction}
  {tr : List (SharedVariable × CounterAction)}

/-- What the program will have printed. -/
def finalNumber (count : Worker → ℕ) : ℤ := -1+count .incrementing-count .decrementing

structure SharedInv (count : Worker → ℕ) (s : SharedVariable) : Prop where
  number : s.i = -1+(s.worker .incrementing).rounds (count .incrementing)-
    (s.worker .decrementing).rounds (count .decrementing)
  within : ∀ w, (s.worker w).Within (count w) s.i
  mutex : ∀ w, (s.worker w).critical = true ↔ s.mutex = some w
  absent : ∀ w, s.worker w = .absent ↔ (CounterMainPc.create w).left ≤ s.main.left
  joined : ∀ w, s.main.left<(CounterMainPc.join w).left → s.worker w = .returned
  printed : s.printed = if s.main = .returned then [finalNumber count] else []

theorem CounterPc.rounds_le {i : ℤ} {n : ℕ} {pc : CounterPc} (h : pc.Within n i) :
    pc.rounds n ≤ n := by
  cases pc with
  | absent => exact Nat.zero_le n
  | loop j => exact h
  | lock j | load j => exact Nat.le_of_lt h
  | store j temp => exact Nat.le_of_lt h.1
  | unlock j => exact h
  | returned => exact Nat.le_refl n

theorem sharedInv_start : SharedInv count .start where
  number := by simp [SharedVariable.start,CounterPc.rounds]
  within w := trivial
  mutex w := by simp [SharedVariable.start,CounterPc.critical]
  absent w := by cases w <;> simp [SharedVariable.start,CounterMainPc.left]
  joined w h := by cases w <;> simp [SharedVariable.start,CounterMainPc.left] at h
  printed := by simp [SharedVariable.start]

/-- A thread moves. It changes `i` only as much as its rounds, and only as the owner of the mutex. -/
theorem SharedInv.move (h : SharedInv count s) {pc : CounterPc} {i : ℤ} {mutex : Option Worker}
    (ha : s.worker w ≠ .absent) (hr : s.worker w ≠ .returned)
    (hpc : pc ≠ .absent)
    (hnumber : i = s.i+w.delta*(pc.rounds (count w)-(s.worker w).rounds (count w)))
    (hwithin : pc.Within (count w) i) (hi : i = s.i ∨ s.mutex = some w)
    (hmutex : ∀ v, (if v = w then pc.critical else (s.worker v).critical) = true ↔
      mutex = some v) :
    SharedInv count {s.setWorker w pc with i := i, mutex := mutex} := by
  have hself : (s.setWorker w pc).worker w = pc := Function.update_self ..
  have hother : ∀ v, v ≠ w → (s.setWorker w pc).worker v = s.worker v :=
    fun v hv => Function.update_of_ne hv ..
  refine ⟨?_,fun v => ?_,fun v => ?_,fun v => ?_,fun v hl => ?_,?_⟩
  · have hn := h.number
    cases w with
    | incrementing =>
      simp only [hself,hother .decrementing nofun,hnumber,Worker.delta]
      omega
    | decrementing =>
      simp only [hself,hother .incrementing nofun,hnumber,Worker.delta]
      omega
  · by_cases hv : v = w
    · subst hv
      simpa [hself] using hwithin
    · simp only [hother v hv]
      have hw := h.within v
      obtain rfl | ho := hi
      · exact hw
      · -- another thread is not in the section, and has no loaded value
        have hc : (s.worker v).critical = false := by
          by_contra hc
          have hm := (h.mutex v).mp (by simpa using hc)
          rw [ho] at hm
          exact hv (Option.some.inj hm).symm
        cases hp : s.worker v <;> rw [hp] at hw hc <;> first | exact hw | cases hc
  · have hm := hmutex v
    by_cases hv : v = w
    · subst hv
      simpa [hself] using hm
    · simpa [hother v hv,hv] using hm
  · have hl := h.absent v
    by_cases hv : v = w
    · subst hv
      simp only [hself]
      exact iff_of_false hpc fun hle => ha (hl.mpr hle)
    · change (s.setWorker w pc).worker v = .absent ↔ _
      rw [hother v hv]
      exact hl
  · have hj := h.joined v hl
    have hv : v ≠ w := by
      rintro rfl
      exact hr hj
    simpa [hother v hv] using hj
  · exact h.printed

/-- The mutex is not touched. -/
theorem SharedInv.critical_keep (h : SharedInv count s) {pc : CounterPc}
    (hc : pc.critical = (s.worker w).critical) (v : Worker) :
    (if v = w then pc.critical else (s.worker v).critical) = true ↔ s.mutex = some v := by
  split_ifs with hv
  · rw [hc,hv]
    exact h.mutex w
  · exact h.mutex v

theorem SharedInv.worker (h : SharedInv count s) (hn : s.stepWorker count w = some t) :
    SharedInv count t := by
  have hw := h.within w
  unfold SharedVariable.stepWorker at hn
  cases hpc : s.worker w with
  | absent | returned =>
    rw [hpc] at hn
    cases hn
  | loop j =>
    rw [hpc] at hn hw
    cases hn
    refine h.move (by simp [hpc]) (by simp [hpc]) ?_ ?_ ?_ (.inl rfl)
      (h.critical_keep ?_)
    · split_ifs <;> nofun
    · split_ifs with hj
      · simp [hpc,CounterPc.rounds]
      · have : j = count w := Nat.le_antisymm hw (by omega)
        simp [hpc,CounterPc.rounds,this]
    · split_ifs with hj
      · exact hj
      · trivial
    · rw [hpc]
      split_ifs <;> rfl
  | lock j =>
    rw [hpc] at hn hw
    simp only at hn
    split_ifs at hn with hm
    cases hn
    refine h.move (by simp [hpc]) (by simp [hpc]) nofun ?_ hw (.inl rfl) fun v => ?_
    · simp [hpc,CounterPc.rounds,SharedVariable.setWorker]
    · split_ifs with hv
      · simp [hv,CounterPc.critical]
      · rw [h.mutex v,hm]
        simp [Ne.symm hv]
  | load j =>
    rw [hpc] at hn hw
    cases hn
    refine h.move (by simp [hpc]) (by simp [hpc]) nofun ?_ ⟨hw,rfl⟩ (.inl rfl)
      (h.critical_keep (by rw [hpc]; rfl))
    simp [hpc,CounterPc.rounds]
  | store j temp =>
    rw [hpc] at hn hw
    obtain ⟨hj,rfl⟩ := hw
    cases hn
    have howner : s.mutex = some w := (h.mutex w).mp (by simp [hpc,CounterPc.critical])
    refine h.move (by simp [hpc]) (by simp [hpc]) nofun ?_ hj (.inr howner)
      (h.critical_keep (by rw [hpc]; rfl))
    simp [hpc,CounterPc.rounds]
  | unlock j =>
    rw [hpc] at hn hw
    cases hn
    have howner : s.mutex = some w := (h.mutex w).mp (by simp [hpc,CounterPc.critical])
    refine h.move (by simp [hpc]) (by simp [hpc]) nofun ?_ hw (.inl rfl) fun v => ?_
    · simp [hpc,CounterPc.rounds,SharedVariable.setWorker]
    · split_ifs with hv
      · simp [CounterPc.critical]
      · rw [h.mutex v,howner]
        simp [Ne.symm hv]

/-- A step of `main` that leaves the threads alone. -/
theorem SharedInv.main_keep (h : SharedInv count s) {pc : CounterMainPc} {printed : List ℤ}
    (hlate : s.main.left<5) (hleft : pc.left<s.main.left)
    (hjoined : ∀ w, pc.left<(CounterMainPc.join w).left → s.worker w = .returned)
    (hprinted : printed = if pc = .returned then [finalNumber count] else []) :
    SharedInv count {s with main := pc, printed := printed} := by
  refine ⟨h.number,h.within,h.mutex,fun w => ?_,hjoined,hprinted⟩
  rw [h.absent w]
  change _ ↔ (CounterMainPc.create w).left ≤ pc.left
  have hcreate : 5 ≤ (CounterMainPc.create w).left := by cases w <;> decide
  omega

/-- A step of `main` that creates a thread. -/
theorem SharedInv.create (h : SharedInv count s) {pc : CounterMainPc} (hm : s.main = .create w)
    (hleft : pc.left+1 = s.main.left) :
    SharedInv count {s.setWorker w (.loop 0) with main := pc} := by
  have ha : s.worker w = .absent := (h.absent w).mpr (by rw [hm])
  have hself : Function.update s.worker w (.loop 0) w = .loop 0 := Function.update_self ..
  have hother : ∀ v, v ≠ w → Function.update s.worker w (.loop 0) v = s.worker v :=
    fun v hv => Function.update_of_ne hv ..
  have hpc : pc ≠ .returned := by
    rintro rfl
    rw [hm] at hleft
    cases w <;> cases hleft
  rw [hm] at hleft
  simp only [SharedVariable.setWorker]
  refine ⟨?_,fun v => ?_,fun v => ?_,fun v => ?_,fun v hl => ?_,?_⟩
  · have hn := h.number
    cases w with
    | incrementing => simpa [ha,CounterPc.rounds] using hn
    | decrementing => simpa [ha,CounterPc.rounds] using hn
  · by_cases hv : v = w
    · subst hv
      simp [CounterPc.Within]
    · simpa [hother v hv] using h.within v
  · have hmutex := h.mutex v
    by_cases hv : v = w
    · subst hv
      rw [ha] at hmutex
      simpa [CounterPc.critical] using hmutex
    · simpa [hother v hv] using hmutex
  · have hl := h.absent v
    rw [hm] at hl
    simp only
    by_cases hv : v = w
    · subst hv
      rw [hself]
      exact iff_of_false nofun (by omega)
    · rw [hother v hv,hl]
      cases v <;> cases w <;> simp [CounterMainPc.left] at hv hleft ⊢ <;> omega
  · simp only at hl
    cases v <;> cases w <;> simp [CounterMainPc.left] at hl hleft <;> omega
  · have hp := h.printed
    rw [if_neg (by rw [hm]; nofun)] at hp
    rw [if_neg hpc]
    exact hp

theorem SharedInv.main (h : SharedInv count s) (hn : s.stepMain = some t) :
    SharedInv count t := by
  have hjoined := h.joined
  have hprinted := h.printed
  unfold SharedVariable.stepMain at hn
  cases hm : s.main with
  | create w =>
    rw [hm] at hn
    cases w <;> cases hn <;> exact h.create hm (by rw [hm]; rfl)
  | join w =>
    rw [hm] at hn hjoined hprinted
    cases w with
    | incrementing =>
      simp only at hn
      split_ifs at hn with hr
      cases hn
      refine h.main_keep (by simp [hm,CounterMainPc.left]) (by simp [hm,CounterMainPc.left])
        (fun v hl => ?_) hprinted
      cases v with
      | incrementing => exact hr
      | decrementing => simp [CounterMainPc.left] at hl
    | decrementing =>
      simp only at hn
      split_ifs at hn with hr
      cases hn
      refine h.main_keep (by simp [hm,CounterMainPc.left]) (by simp [hm,CounterMainPc.left])
        (fun v hl => ?_) hprinted
      cases v with
      | incrementing => exact hjoined _ (by decide)
      | decrementing => exact hr
  | destroy =>
    rw [hm] at hn hjoined hprinted
    cases hn
    exact h.main_keep (by simp [hm,CounterMainPc.left]) (by simp [hm,CounterMainPc.left])
      (fun v _ => hjoined v (by cases v <;> decide)) hprinted
  | print =>
    rw [hm] at hn hjoined hprinted
    cases hn
    refine h.main_keep (by simp [hm,CounterMainPc.left]) (by simp [hm,CounterMainPc.left])
      (fun v _ => hjoined v (by cases v <;> decide)) ?_
    have hnumber := h.number
    rw [hjoined .incrementing (by decide),hjoined .decrementing (by decide)] at hnumber
    rw [hprinted,hnumber]
    rfl
  | returned =>
    rw [hm] at hn
    cases hn

theorem SharedInv.next (h : SharedInv count s) (hn : s.next count a = some t) :
    SharedInv count t := by
  unfold SharedVariable.next at hn
  split_ifs at hn
  cases a with
  | main => exact h.main hn
  | work w => exact h.worker hn

theorem SharedInv.run (run : Exec (sharedVariable count) tr s) : SharedInv count s := by
  apply run.invariant (C := fun _ _ => True)
  · rintro s rfl
    exact sharedInv_start
  · intro s a t h _ hn
    exact h.next hn
  · exact fun _ _ => trivial

/-- At no time is `i` further from its first value than the numbers of rounds, and a thread between
its load and its store works on the value that `i` has. -/
theorem shared_in_range (run : Exec (sharedVariable count) tr s) :
    -1-(count .decrementing : ℤ) ≤ s.i ∧ s.i ≤ -1+(count .incrementing : ℤ) ∧
    (∀ w j temp, s.worker w = .store j temp → temp = s.i) ∧
    ∀ v w, (s.worker v).critical = true → (s.worker w).critical = true → v = w := by
  have h := SharedInv.run run
  have hi := CounterPc.rounds_le (h.within .incrementing)
  have hd := CounterPc.rounds_le (h.within .decrementing)
  have hn := h.number
  refine ⟨by omega,by omega,fun w j temp hw => ?_,fun v w hv hw => ?_⟩
  · have hwithin := h.within w
    rw [hw] at hwithin
    exact hwithin.2
  · exact Option.some.inj (((h.mutex v).mp hv).symm.trans ((h.mutex w).mp hw))

/-- One thread has loaded `i` while the other one waits for the mutex. -/
def contendedActions : List CounterAction :=
  [.main,.main,.work .incrementing,.work .incrementing,.work .decrementing,.work .incrementing]

theorem shared_in_range_contended : ∃ tr s, Exec (sharedVariable fun _ => 1) tr s ∧
    s.worker .incrementing = .store 0 s.i ∧ -2 ≤ s.i ∧ s.i ≤ 0 := by
  have hv : ((sharedVariable fun _ => 1).run .start contendedActions).map
      (fun s => s.worker .incrementing) = some (.store 0 (-1)) := by decide
  obtain ⟨s,hs,hr⟩ := Option.map_eq_some_iff.mp hv
  have run : Exec (sharedVariable fun _ => 1) _ s := Exec.of_run rfl hs
  obtain ⟨hlow,hhigh,hload,-⟩ := shared_in_range run
  have hi : -1 = s.i := hload .incrementing 0 (-1) hr
  exact ⟨_,s,run,by rw [hr,hi],hlow,hhigh⟩

end Invariant

section End
variable {count : Worker → ℕ} {s t : SharedVariable} {w : Worker} {a : CounterAction}

/-- The statements that a thread has before it. -/
def CounterPc.left (count : ℕ) : CounterPc → ℕ
  | absent => 5*count+2
  | loop j => 5*(count-j)+1
  | lock j => 5*(count-j)
  | load j => 5*(count-j)-1
  | store j _ => 5*(count-j)-2
  | unlock j => 5*(count-j)-3
  | returned => 0

def SharedVariable.left (count : Worker → ℕ) (s : SharedVariable) : ℕ :=
  s.main.left+(s.worker .incrementing).left (count .incrementing)+
    (s.worker .decrementing).left (count .decrementing)

/-- A thread that goes on brings the program closer to its end. -/
theorem SharedVariable.worker_left {pc : CounterPc} (hw : t.worker = Function.update s.worker w pc)
    (hm : t.main.left ≤ s.main.left) (hlt : pc.left (count w)<(s.worker w).left (count w)) :
    t.left count<s.left count := by
  cases w <;> simp [SharedVariable.left,hw] <;> omega

theorem SharedInv.next_left (h : SharedInv count s) (hn : s.next count a = some t) :
    t.left count<s.left count := by
  unfold SharedVariable.next at hn
  split_ifs at hn
  cases a with
  | main =>
    have habsent := h.absent
    simp only [SharedVariable.stepMain] at hn
    cases hm : s.main with
    | create w =>
      have ha := (habsent w).mpr (by rw [hm])
      rw [hm] at hn
      cases w <;> cases hn <;>
        exact SharedVariable.worker_left rfl (by rw [hm]; simp [CounterMainPc.left])
          (by simp [ha,CounterPc.left])
    | join w =>
      rw [hm] at hn
      cases w <;> simp only at hn <;> split_ifs at hn <;> cases hn <;>
        simp [SharedVariable.left,hm,CounterMainPc.left]
    | destroy | print =>
      rw [hm] at hn
      cases hn
      simp [SharedVariable.left,hm,CounterMainPc.left]
    | returned =>
      rw [hm] at hn
      cases hn
  | work w =>
    have hw := h.within w
    simp only [SharedVariable.stepWorker] at hn
    cases hpc : s.worker w with
    | absent | returned =>
      rw [hpc] at hn
      cases hn
    | loop j =>
      rw [hpc] at hn
      cases hn
      refine SharedVariable.worker_left rfl (Nat.le_refl _) ?_
      rw [hpc]
      split_ifs <;> simp only [CounterPc.left] <;> omega
    | lock j =>
      rw [hpc] at hn hw
      simp only at hn
      split_ifs at hn
      cases hn
      have hj : j<count w := hw
      refine SharedVariable.worker_left rfl (Nat.le_refl _) ?_
      simp only [hpc,CounterPc.left]
      omega
    | load j | unlock j =>
      rw [hpc] at hn hw
      cases hn
      have hj : j<count w := hw
      refine SharedVariable.worker_left rfl (Nat.le_refl _) ?_
      simp only [hpc,CounterPc.left]
      omega
    | store j temp =>
      rw [hpc] at hn hw
      cases hn
      have hj : j<count w := hw.1
      refine SharedVariable.worker_left rfl (Nat.le_refl _) ?_
      simp only [hpc,CounterPc.left]
      omega

/-- A thread that is not at its lock can go on, and the owner of the mutex is not at its lock. -/
theorem SharedInv.stuck_returned (h : SharedInv count s)
    (hstuck : ∀ w, s.stepWorker count w = none) (hpc : s.worker w ≠ .absent) :
    s.worker w = .returned := by
  have hfree : s.mutex = none := by
    cases ho : s.mutex with
    | none => rfl
    | some v =>
      have hc := (h.mutex v).mpr ho
      have hv := hstuck v
      unfold SharedVariable.stepWorker at hv
      cases hp : s.worker v <;> simp [hp,CounterPc.critical] at hc hv
  have hw := hstuck w
  unfold SharedVariable.stepWorker at hw
  cases hp : s.worker w with
  | absent => exact absurd hp hpc
  | returned => rfl
  | lock j => simp [hp,hfree] at hw
  | loop | load | store | unlock => simp [hp] at hw

/-- Whatever the interleaving, the program ends, and it prints the number with every round of both
threads counted. -/
theorem shared_variable_exact (count : Worker → ℕ) : (sharedVariable count).EndsIn
    (fun s => s.main = .returned ∧ s.printed = [finalNumber count])
    (5*count .incrementing+5*count .decrementing+10) where
  bounded tr s run := by
    have hlen := (run.length_add_le (I := SharedInv count) (m := SharedVariable.left count)
      (n := 5*count .incrementing+5*count .decrementing+10) ?_ ?_).2
    · omega
    · rintro s rfl
      refine ⟨sharedInv_start,?_⟩
      simp only [SharedVariable.left,SharedVariable.start,CounterPc.left,CounterMainPc.left]
      omega
    · exact fun s a t h hn => ⟨h.next hn,h.next_left hn⟩
  ends tr s run hstuck := by
    have h := SharedInv.run run
    by_cases hr : s.main = .returned
    · exact ⟨hr,by rw [h.printed,if_pos hr]⟩
    · exfalso
      have hnext : ∀ a, s.next count a = none := hstuck
      simp only [SharedVariable.next,hr,if_false] at hnext
      have hmain : s.stepMain = none := hnext .main
      unfold SharedVariable.stepMain at hmain
      cases hm : s.main with
      | create w => cases w <;> simp [hm] at hmain
      | join w =>
        have hpc : s.worker w ≠ .absent := by
          intro ha
          have hl := (h.absent w).mp ha
          rw [hm] at hl
          cases w <;> simp [CounterMainPc.left] at hl
        have hreturned := h.stuck_returned (fun w => hnext (.work w)) hpc
        cases w <;> simp [hm,hreturned] at hmain
      | destroy | print => simp [hm] at hmain
      | returned => exact hr hm

end End

end TTK4145.Exercise1
