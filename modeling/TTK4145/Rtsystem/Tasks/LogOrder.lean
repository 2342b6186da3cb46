import TTK4145.Rtsystem.Tasks.LogDrain

/-! The order of the timestamps in the log. `ALOG` reads the clock before it enters the queue, so
between the two a call can be overtaken by another one that has read a later time. -/
namespace TTK4145.Rtsystem
open Lib

/-- Printed in chronological order, as the header of `ALOG` has it. -/
def Chronological (msgs : List LogMessage) : Prop :=
  msgs.Pairwise fun a b => a.timestamp ≤ b.timestamp

instance (msgs : List LogMessage) : Decidable (Chronological msgs) :=
  inferInstanceAs (Decidable (msgs.Pairwise fun a b => a.timestamp ≤ b.timestamp))

/-- The time that a call has read, with its mark. -/
def AlogStep.stamp : AlogStep → Option (ℕ × ℕ)
  | .format time mark => some (time,mark)
  | .send msg mark => some (msg.timestamp,mark)
  | _ => none

def AlogPc.stamp : AlogPc → Option (ℕ × ℕ)
  | .inside _ _ pc => pc.stamp
  | .idle => none

/-- The record which a call is about to send, with its mark. -/
def AlogPc.sending : AlogPc → Option (LogMessage × ℕ)
  | .inside _ _ (.send msg mark) => some (msg,mark)
  | _ => none

/-- A record that the queue takes is not later in the queue than a record which was sent after
the clock had been read for it and carries a greater time. -/
def NotOvertaken {ι : Type*} {capacity : ℕ} (s : AsyncLog ι (BoundedFifo LogMessage capacity)) :
    LogAction ι → Prop
  | .alog w => ∀ r ∈ (s.alog w).sending, s.queue.items.length<capacity →
    ∀ p ∈ s.sent.drop r.2, p.2.timestamp ≤ r.1.timestamp
  | _ => True

instance {ι : Type*} {capacity : ℕ} (s : AsyncLog ι (BoundedFifo LogMessage capacity)) :
    (a : LogAction ι) → Decidable (NotOvertaken s a)
  | .alog w => inferInstanceAs (Decidable (∀ r ∈ (s.alog w).sending,
      s.queue.items.length<capacity → ∀ p ∈ s.sent.drop r.2, p.2.timestamp ≤ r.1.timestamp))
  | .call _ _ | .task | .poll _ | .tick _ | .stop => isTrue trivial

/-- Everything sent and every time read lies in the past, and a time read is at least as late as
the records sent before its mark. -/
structure Stamped {ω : Type*} (clock : ℕ) (alog : ω → AlogPc) (sent : List (ℕ × LogMessage)) :
    Prop where
  past : ∀ p ∈ sent, p.2.timestamp ≤ clock
  read : ∀ w time mark, (alog w).stamp = some (time,mark) →
    time ≤ clock ∧ mark ≤ sent.length ∧ ∀ p ∈ sent.take mark, p.2.timestamp ≤ time

section Stamped
variable {ω : Type*} {clock : ℕ} {alog : ω → AlogPc} {sent : List (ℕ × LogMessage)} {w : ω}
  {p : AlogPc} {time mark : ℕ}

theorem Stamped.tick (h : Stamped clock alog sent) (d : ℕ) : Stamped (clock+d) alog sent := by
  refine ⟨fun p hp => (h.past p hp).trans (Nat.le_add_right _ _),fun w time mark hw => ?_⟩
  obtain ⟨ht,hm,hp⟩ := h.read w time mark hw
  exact ⟨ht.trans (Nat.le_add_right _ _),hm,hp⟩

theorem Stamped.append (h : Stamped clock alog sent) {x : ℕ × LogMessage}
    (hx : x.2.timestamp ≤ clock) : Stamped clock alog (sent ++ [x]) := by
  refine ⟨fun p hp => ?_,fun w time mark hw => ?_⟩
  · rcases List.mem_append.mp hp with hp | hp
    · exact h.past p hp
    · rw [List.mem_singleton.mp hp]
      exact hx
  · obtain ⟨ht,hm,hp⟩ := h.read w time mark hw
    refine ⟨ht,by simp; omega,?_⟩
    rw [List.take_append_of_le_length hm]
    exact hp

variable [DecidableEq ω]

/-- A statement of one `ALOG` call that leaves it with a time as the law wants it. -/
theorem Stamped.set (h : Stamped clock alog sent)
    (hp : ∀ time mark, p.stamp = some (time,mark) →
      time ≤ clock ∧ mark ≤ sent.length ∧ ∀ q ∈ sent.take mark, q.2.timestamp ≤ time) :
    Stamped clock (Function.update alog w p) sent := by
  refine ⟨h.past,fun v time mark hv => ?_⟩
  by_cases hvw : v = w
  · subst v
    rw [Function.update_self] at hv
    exact hp time mark hv
  · rw [Function.update_of_ne hvw] at hv
    exact h.read v time mark hv

/-- A statement that keeps the time it has read or drops it. -/
theorem Stamped.update (h : Stamped clock alog sent)
    (hp : ∀ r, p.stamp = some r → (alog w).stamp = some r) :
    Stamped clock (Function.update alog w p) sent :=
  h.set fun time mark ht => h.read w time mark (hp _ ht)

/-- The statement that reads the clock. -/
theorem Stamped.readClock (h : Stamped clock alog sent) (hp : p.stamp = some (clock,sent.length)) :
    Stamped clock (Function.update alog w p) sent := by
  apply h.set
  intro time mark ht
  rw [hp] at ht
  cases ht
  exact ⟨le_rfl,le_rfl,fun p hp => h.past p (List.mem_of_mem_take hp)⟩

end Stamped

section Runs
variable {ι : Type*} [DecidableEq ι] {capacity : ℕ}
  {s s' : AsyncLog ι (BoundedFifo LogMessage capacity)} {a : LogAction ι}

theorem Stamped.stepAlog (h : Stamped s.clock s.alog s.sent) {w : Option ι} {n : ℕ} {c : LogCall}
    {pc : AlogStep} (hpc : s.alog w = .inside n c pc) :
    Stamped (s.stepAlog fifoLog w n c pc).clock (s.stepAlog fifoLog w n c pc).alog
      (s.stepAlog fifoLog w n c pc).sent := by
  cases pc with
  | level =>
    apply h.update
    intro r hr
    split_ifs at hr <;> cases hr
  | warn =>
    simp only [AsyncLog.stepAlog]
    split_ifs <;> exact h.update fun r hr => by cases hr
  | clock => exact h.readClock rfl
  | format time mark => exact h.update fun r hr => by rw [hpc]; exact hr
  | send msg mark =>
    have hr := h.read w msg.timestamp mark (by rw [hpc]; rfl)
    cases hq : s.queue.send msg with
    | none =>
      simp only [AsyncLog.stepAlog,fifoLog,hq]
      exact h.update fun r hr => by cases hr
    | some q =>
      simp only [AsyncLog.stepAlog,fifoLog,hq]
      exact (h.append (x := (n,msg)) hr.1).update fun r hr => by cases hr
  | report => exact h.update fun r hr => by cases hr

theorem Stamped.next (h : Stamped s.clock s.alog s.sent) (hs : s.next fifoLog a = some s') :
    Stamped s'.clock s'.alog s'.sent := by
  cases a with
  | call t c =>
    cases ha : s.alog (some t) <;> simp only [AsyncLog.next,ha] at hs <;> cases hs
    exact h.update fun r hr => by cases hr
  | alog w =>
    cases ha : s.alog w <;> simp only [AsyncLog.next,ha] at hs <;> cases hs
    exact h.stepAlog ha
  | task =>
    obtain ⟨hclock,hsent,halog⟩ := AsyncLog.stepTask_frame hs
    rw [hclock,hsent]
    rcases halog with halog | ⟨n,c,halog⟩
    · rw [halog]
      exact h
    · rw [halog]
      exact h.update fun r hr => by cases hr
  | poll outcome =>
    obtain ⟨-,hs⟩ := AsyncLog.next_poll hs
    rcases AsyncLog.stepPoll_cases hs with rfl | rfl | rfl <;> exact h
  | tick d =>
    cases hs
    exact h.tick d
  | stop =>
    cases hs
    exact h

/-- A step sends nothing, or it is the send of a record into a queue with room. -/
theorem next_sent (hs : s.next fifoLog a = some s') :
    (s'.sent = s.sent ∧ NotOvertaken s a) ∨
    ∃ w n c msg mark, a = .alog w ∧ s.alog w = .inside n c (.send msg mark) ∧
      s.queue.items.length<capacity ∧ s'.sent = s.sent ++ [(n,msg)] := by
  cases a with
  | call t c =>
    cases ha : s.alog (some t) <;> simp only [AsyncLog.next,ha] at hs <;> cases hs
    exact .inl ⟨rfl,trivial⟩
  | alog w =>
    cases ha : s.alog w <;> simp only [AsyncLog.next,ha] at hs <;> cases hs
    rename_i n c pc
    cases pc with
    | send msg mark =>
      cases hq : s.queue.send msg with
      | none =>
        left
        simp only [AsyncLog.stepAlog,fifoLog,hq]
        exact ⟨rfl,fun r hr hlt => absurd hlt (Nat.not_lt.mpr (BoundedFifo.send_eq_none.mp hq))⟩
      | some q =>
        right
        simp only [AsyncLog.stepAlog,fifoLog,hq]
        exact ⟨w,n,c,msg,mark,rfl,ha,(BoundedFifo.send_eq_some.mp hq).1,rfl⟩
    | warn =>
      left
      refine ⟨?_,fun r hr => by rw [ha] at hr; cases hr⟩
      simp only [AsyncLog.stepAlog]
      split_ifs <;> rfl
    | level | clock | format | report => exact .inl ⟨rfl,fun r hr => by rw [ha] at hr; cases hr⟩
  | task => exact .inl ⟨(AsyncLog.stepTask_frame hs).2.1,trivial⟩
  | poll outcome =>
    left
    rcases AsyncLog.stepPoll_cases (AsyncLog.next_poll hs).2 with rfl | rfl | rfl <;>
      exact ⟨rfl,trivial⟩
  | tick d | stop =>
    cases hs
    exact .inl ⟨rfl,trivial⟩

/-- One more record keeps the order exactly when it is not overtaken. -/
theorem chronological_append_iff {sent : List LogMessage} {msg : LogMessage} :
    Chronological (sent ++ [msg]) ↔
      Chronological sent ∧ ∀ m ∈ sent, m.timestamp ≤ msg.timestamp := by
  simp [Chronological,List.pairwise_append]

theorem Chronological.next (h : Chronological (s.sent.map Prod.snd))
    (stamped : Stamped s.clock s.alog s.sent) (fair : NotOvertaken s a)
    (hs : s.next fifoLog a = some s') : Chronological (s'.sent.map Prod.snd) := by
  rcases next_sent hs with ⟨hsent,-⟩ | ⟨w,n,c,msg,mark,rfl,hw,hlt,hsent⟩
  · rw [hsent]
    exact h
  · rw [hsent,List.map_append]
    refine chronological_append_iff.mpr ⟨h,fun m hm => ?_⟩
    obtain ⟨p,hp,rfl⟩ := List.mem_map.mp hm
    rw [←List.take_append_drop mark s.sent] at hp
    rcases List.mem_append.mp hp with hp | hp
    · exact (stamped.read w msg.timestamp mark (by rw [hw]; rfl)).2.2 p hp
    · exact fair (msg,mark) (by rw [hw]; rfl) hlt p hp

theorem Chronological.of_next (h : Chronological (s'.sent.map Prod.snd))
    (hs : s.next fifoLog a = some s') :
    Chronological (s.sent.map Prod.snd) ∧ NotOvertaken s a := by
  rcases next_sent hs with ⟨hsent,hfair⟩ | ⟨w,n,c,msg,mark,rfl,hw,hlt,hsent⟩
  · rw [hsent] at h
    exact ⟨h,hfair⟩
  · rw [hsent,List.map_append] at h
    obtain ⟨hc,hall⟩ := chronological_append_iff.mp h
    refine ⟨hc,fun r hr _ p hp => ?_⟩
    rw [hw] at hr
    cases hr
    exact hall _ (List.mem_map_of_mem (List.mem_of_mem_drop hp))

variable {tr : List (AsyncLog ι (BoundedFifo LogMessage capacity) × LogAction ι)}

/-- The printed messages are in chronological order in every state of a run without overtaking,
and a run whose messages have all been printed in chronological order is one without. -/
theorem chronological_of_notOvertaken
    (run : Exec (AsyncLog.machine fifoLog BoundedFifo.empty) tr s) :
    (Meets NotOvertaken tr → Always (fun s => Chronological s.printed) tr s) ∧
    (s.printed = s.sent.map Prod.snd → Chronological s.printed → Meets NotOvertaken tr) := by
  constructor
  · intro fair
    have inv := run.always
      (I := fun s => LogInv s ∧ Stamped s.clock s.alog s.sent ∧ Chronological (s.sent.map Prod.snd))
      (fun s hi => ⟨LogInv.init rfl hi,by
        obtain ⟨clock,rfl⟩ := hi
        exact ⟨⟨by simp [AsyncLog.start],fun w time mark hw => by cases hw⟩,List.Pairwise.nil⟩⟩)
      (fun s a t h hf hs => ⟨h.1.next hs,h.2.1.next hs,h.2.2.next h.2.1 hf hs⟩) fair
    apply inv.mono
    rintro s ⟨hl,_,hc⟩
    rw [←hl.conserved,List.append_assoc] at hc
    exact (List.pairwise_append.mp hc).1
  · intro hall hc
    rw [hall] at hc
    clear hall
    induction run with
    | init h => exact meets_nil
    | step run hs ih =>
      obtain ⟨hc,hf⟩ := hc.of_next hs
      exact meets_snoc.mpr ⟨ih hc,hf⟩

end Runs

/-- The log task is ready. Producer 0 reads the clock at time 1, producer 1 reads it at time 2 and
sends first. -/
def overtakingRun : List (LogAction (Fin 2)) :=
  List.flatten [.task::List.replicate 5 (.alog none),[.task,.task,.tick 1],
    .call 0 (.debug "stdin_task" "input received: a")::List.replicate 3 (.alog (some 0)),
    .tick 1::.call 1 (.debug "main" "received SIGINT, shutting down...")::
      List.replicate 5 (.alog (some 1)),
    List.replicate 2 (.alog (some 0)),.poll .ready::List.replicate 6 .task]

/-- In the same order the first producer gets through before the second one reads the clock. -/
def orderlyRun : List (LogAction (Fin 2)) :=
  List.flatten [.task::List.replicate 5 (.alog none),[.task,.task,.tick 1],
    .call 0 (.debug "stdin_task" "input received: a")::List.replicate 5 (.alog (some 0)),
    .tick 1::.call 1 (.debug "main" "received SIGINT, shutting down...")::
      List.replicate 5 (.alog (some 1)),
    .poll .ready::List.replicate 6 .task]

theorem chronological_of_notOvertaken_orderly :
    ∃ tr, ∃ s : AsyncLog (Fin 2) (BoundedFifo LogMessage 64),
      Exec (AsyncLog.machine fifoLog BoundedFifo.empty) tr s ∧
      s.printed.map LogMessage.timestamp = [0,1,2] ∧
      Always (fun s => Chronological s.printed) tr s := by
  have hv : ((AsyncLog.machine fifoLog BoundedFifo.empty).run
      (AsyncLog.start (BoundedFifo.empty : BoundedFifo LogMessage 64) 0) orderlyRun).map
      (fun s => s.printed.map LogMessage.timestamp) = some [0,1,2] := by decide
  obtain ⟨s,hs,hr⟩ := Option.map_eq_some_iff.mp hv
  have run := Exec.of_run (AsyncLog.start_init _ _ 0) hs
  exact ⟨_,s,run,hr,(chronological_of_notOvertaken run).1 (by decide)⟩

/-- Two producers between clock and send print the later time first. -/
theorem overtaken_prints_backwards :
    ∃ tr, ∃ s : AsyncLog (Fin 2) (BoundedFifo LogMessage 64),
      Exec (AsyncLog.machine fifoLog BoundedFifo.empty) tr s ∧
      s.printed.map LogMessage.timestamp = [0,2,1] ∧ ¬ Chronological s.printed := by
  have hv : ((AsyncLog.machine fifoLog BoundedFifo.empty).run
      (AsyncLog.start (BoundedFifo.empty : BoundedFifo LogMessage 64) 0) overtakingRun).map
      (fun s => (s.printed.map LogMessage.timestamp,decide (Chronological s.printed))) =
      some ([0,2,1],false) := by decide
  obtain ⟨s,hs,hr⟩ := Option.map_eq_some_iff.mp hv
  simp only [Prod.mk.injEq,decide_eq_false_iff_not] at hr
  exact ⟨_,s,Exec.of_run (AsyncLog.start_init _ _ 0) hs,hr.1,hr.2⟩

end TTK4145.Rtsystem
