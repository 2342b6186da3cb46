import TTK4145.Exercise1.NumberServer

/-! Every run of the number server ends, with one number printed. -/
namespace TTK4145.Exercise1.NumberServer
open Lib
variable {sends capacity : Worker → ℕ} {doneCapacity : ℕ} {s t : NumberServer} {w : Worker}
  {a : ServerAction}

/-- `main` serves as long as a worker's last message is out, and prints once at its return. -/
structure Concluding (s : NumberServer) : Prop where
  serving : s.pc = .serve → s.done ≠ 0
  printed : s.printed = if s.pc = .returned then [s.i] else []

theorem start_concluding : Concluding (start sends capacity doneCapacity) :=
  ⟨by simp [start],by simp [start]⟩

theorem Concluding.next (h : Concluding s) (hn : next s a = some t) : Concluding t := by
  have hp := h.printed
  unfold NumberServer.next at hn
  split_ifs at hn with hr
  rw [if_neg hr] at hp
  cases a with
  | work w =>
    simp only [stepWorker] at hn
    split_ifs at hn
    split at hn <;> cases hn <;>
      exact ⟨h.serving,by simp [hp,setChan,setWorker,hr]⟩
  | request w =>
    obtain ⟨r,-,rfl⟩ := Option.map_eq_some_iff.mp hn
    exact ⟨h.serving,by simp [hp,setChan,hr]⟩
  | done =>
    replace hn : s.stepDone = some t := hn
    unfold stepDone at hn
    split at hn
    · obtain ⟨r,-,rfl⟩ := Option.map_eq_some_iff.mp hn
      refine ⟨fun hs hd => ?_,?_⟩
      · rw [if_pos hd] at hs
        cases hs
      · by_cases hd : s.done-1 = 0
        · simp [hp,hd]
        · simp [hp,hd]
    · cases hn
  | default =>
    simp only [stepDefault] at hn
    split_ifs at hn
    cases hn
    exact ⟨by simp,by simp [hp]⟩

/-- What a worker does before it returns: a send and the receive of it for every request, and for
its message. -/
def workerLeft : WorkerPc → ℕ
  | .loop left => 2*left+2
  | .returned => 0

/-- What `main` does besides its receives. -/
def serverLeft : ServerPc → ℕ
  | .serve => 2
  | .drain => 1
  | .returned => 0

/-- What is left of one worker and of its channel. -/
def partLeft (s : NumberServer) (w : Worker) : ℕ :=
  workerLeft (s.worker w)+(s.ch w).pending.length

def left (s : NumberServer) : ℕ :=
  serverLeft s.pc+s.doneChan.pending.length+partLeft s .incrementing+partLeft s .decrementing

/-- A step of one worker or channel leaves the other part as it is. -/
theorem left_lt_of_part (hpart : ∀ v, v ≠ w → partLeft t v = partLeft s v)
    (hlt : serverLeft t.pc+t.doneChan.pending.length+partLeft t w<
      serverLeft s.pc+s.doneChan.pending.length+partLeft s w) : left t<left s := by
  cases w with
  | incrementing =>
    have := hpart .decrementing (by decide)
    unfold left
    omega
  | decrementing =>
    have := hpart .incrementing (by decide)
    unfold left
    omega

theorem stepWorker_left (hs : s.stepWorker w = some t) : left t<left s := by
  unfold stepWorker at hs
  split_ifs at hs
  apply left_lt_of_part (w := w)
  · intro v hv
    split at hs <;> cases hs <;> simp [partLeft,setChan,setWorker,hv]
  · split at hs
    · next left hw =>
      cases hs
      simp [partLeft,setChan,setWorker,hw,workerLeft]
      omega
    · next hw =>
      cases hs
      simp [partLeft,setWorker,hw,workerLeft]
      omega
    · cases hs

theorem stepRequest_left (hs : s.stepRequest w = some t) : left t<left s := by
  obtain ⟨⟨b,c⟩,hc,rfl⟩ := Option.map_eq_some_iff.mp hs
  have hpend := Channel.pending_recv hc
  apply left_lt_of_part (w := w)
  · intro v hv
    simp [partLeft,setChan,hv]
  · simp [partLeft,setChan,hpend]

theorem stepDone_left (hs : s.stepDone = some t) : left t<left s := by
  unfold stepDone at hs
  split at hs
  · next hp =>
    obtain ⟨⟨b,c⟩,hc,rfl⟩ := Option.map_eq_some_iff.mp hs
    have hpend := Channel.pending_recv hc
    have hpc : serverLeft (if s.done-1 = 0 then .drain else .serve) ≤ serverLeft s.pc := by
      rw [hp]
      split_ifs <;> simp [serverLeft]
    simp only [left,partLeft,hpend,List.length_cons]
    omega
  · cases hs

theorem stepDefault_left (hs : s.stepDefault = some t) : left t<left s := by
  unfold stepDefault at hs
  split_ifs at hs with hd
  cases hs
  simp only [left,partLeft,hd.1,serverLeft]
  omega

theorem next_left (hn : next s a = some t) : left t<left s := by
  unfold NumberServer.next at hn
  split_ifs at hn
  cases a with
  | work w => exact stepWorker_left hn
  | request w => exact stepRequest_left hn
  | done => exact stepDone_left hn
  | default => exact stepDefault_left hn

theorem left_start : left (start sends capacity doneCapacity) =
    2*sends .incrementing+2*sends .decrementing+6 := by
  simp [left,partLeft,start,serverLeft,workerLeft]
  omega

/-- Where no request can be taken, none is pending. -/
theorem pending_of_stepRequest (h : s.stepRequest w = none) : (s.ch w).pending = [] :=
  Channel.recv_eq_none.mp (Option.map_eq_none_iff.mp h)

/-- A worker that nothing holds up goes on until it has returned. -/
theorem returned_of_stepWorker (hb : ¬ s.Blocked w) (h : s.stepWorker w = none) :
    s.worker w = .returned := by
  unfold stepWorker at h
  rw [if_neg hb] at h
  split at h
  · cases h
  · cases h
  · assumption

/-- `main` cannot be left waiting: a serving `main` with no ready case has both messages, and a
draining one has its default. -/
theorem returned_of_stuck (h : Accounted sends s) (hc : Concluding s)
    (hs : (machine sends capacity doneCapacity).Stuck s) : s.pc = .returned := by
  by_contra hr
  have step : ∀ a, NumberServer.next s a = none := hs
  unfold NumberServer.next at step
  simp only [if_neg hr] at step
  have hch : ∀ w, (s.ch w).pending = [] := fun w => pending_of_stepRequest (step (.request w))
  cases hpc : s.pc with
  | serve =>
    have hdone : s.doneChan.pending = [] := by
      have hd : s.stepDone = none := step .done
      unfold stepDone at hd
      rw [if_pos hpc] at hd
      exact Channel.recv_eq_none.mp (Option.map_eq_none_iff.mp hd)
    have hret : ∀ w, s.worker w = .returned := by
      intro w
      refine returned_of_stepWorker ?_ (step (.work w))
      rintro (hw | hw)
      · exact Channel.not_waits_of_pending (hch w) w hw
      · exact Channel.not_waits_of_pending hdone w hw
    have hd := h.dones
    rw [hdone,hret,hret] at hd
    have hne := hc.serving hpc
    simp [WorkerPc.dones] at hd
    omega
  | drain =>
    have hd : s.stepDefault = none := step .default
    unfold stepDefault at hd
    have hnone : ∀ w ∈ [Worker.incrementing,.decrementing], (s.ch w).recv.isNone := by
      intro w _
      rw [Channel.recv_eq_none.mpr (hch w)]
      rfl
    rw [if_pos ⟨hpc,hnone⟩] at hd
    cases hd
  | returned => exact hr hpc

/-- At the return every request has been sent and applied. -/
theorem returned_number (h : Accounted sends s) (hr : s.pc = .returned)
    (hempty : ∀ w, (s.ch w).pending = []) :
    s.i = initialNumber+.ofInt (sends .incrementing-sends .decrementing) := by
  have hd : s.done = 0 := h.drain (by simp [hr])
  have happlied : ∀ w, s.applied.count w = sends w := by
    intro w
    have hs := h.sent w
    have hq := h.requests w
    rw [h.left_eq_zero hd w] at hs
    rw [hempty w] at hq
    exact hq.trans hs
  rw [h.number,balance,happlied,happlied]

/-- Whatever the capacities, the numbers of requests and the choices of `select` and of the
scheduler, the program comes to its end within a fixed number of steps, and it has printed one
number there, the exact one. -/
theorem numberServer_ends : (machine sends capacity doneCapacity).EndsIn
    (fun s => s.pc = .returned ∧
      s.printed = [initialNumber+.ofInt (sends .incrementing-sends .decrementing)])
    (2*sends .incrementing+2*sends .decrementing+6) where
  bounded tr s run := by
    have h := run.length_add_le (I := fun _ => True) (m := left)
      (n := 2*sends .incrementing+2*sends .decrementing+6)
      (fun s hs => ⟨trivial,hs ▸ Nat.le_of_eq left_start⟩)
      (fun s a t _ hn => ⟨trivial,next_left hn⟩)
    omega
  ends tr s run hs := by
    have h := exec_accounted run
    have hc : Concluding s := by
      refine run.invariant (C := fun _ _ => True) ?_ (fun _ _ _ hc _ hn => hc.next hn)
        fun _ _ => trivial
      rintro s rfl
      exact start_concluding
    have hr := returned_of_stuck h hc hs
    have hp := hc.printed
    rw [if_pos hr] at hp
    obtain ⟨-,-,hempty⟩ := h.printed s.i (by simp [hp])
    exact ⟨hr,by rw [hp,returned_number h hr hempty]⟩

end TTK4145.Exercise1.NumberServer
