import Mathlib.Data.List.Nodup
import TTK4145.Rtsystem.Tasks.LogTask

/-! No log message is lost or repeated up to the end of the log task: what is printed, in the
hand of the log task and queued is at all times what has been sent. -/
namespace TTK4145.Rtsystem
open Lib

/-- The message that `log_task` has received and not printed yet. -/
def LogTaskPc.inHand : LogTaskPc → List LogMessage
  | .print _ msg => [msg]
  | _ => []

/-- What a statement of `ALOG` may rely on. -/
def AlogStep.Fits (c : LogCall) : AlogStep → Prop
  | .level => True
  | .send msg _ => c.enabled = true ∧ ∃ time, msg = c.record time
  | _ => c.enabled = true

/-- Every enabled call is still running, or it has been sent, or it has reported a full queue,
and no call is settled twice. -/
structure Accounts {ω : Type*} (alog : ω → AlogPc) (calls : List LogCall)
    (sent : List (ℕ × LogMessage)) (reported : List ℕ) : Prop where
  known : ∀ w n c pc, alog w = .inside n c pc → calls[n]? = some c ∧ pc.Fits c
  apart : ∀ w v n c d pc pd, alog w = .inside n c pc → alog v = .inside n d pd → w = v
  settled : ∀ n ∈ sent.map Prod.fst ++ reported,
    n<calls.length ∧ ∀ w c pc, alog w ≠ .inside n c pc
  once : (sent.map Prod.fst ++ reported).Nodup
  accounted : ∀ n c, calls[n]? = some c → c.enabled = true →
    (∃ time, (n,c.record time) ∈ sent) ∨ n ∈ reported ∨ ∃ w d pc, alog w = .inside n d pc

section Accounts
variable {ω : Type*} [DecidableEq ω] {alog : ω → AlogPc} {calls : List LogCall}
  {sent sent' : List (ℕ × LogMessage)} {reported reported' : List ℕ} {w v : ω} {n m : ℕ}
  {c d : LogCall} {pc pd : AlogStep} {p : AlogPc}

omit [DecidableEq ω] in
theorem Accounts.start : Accounts (fun _ : ω => .idle) [] [] [] := by
  constructor <;> simp

omit [DecidableEq ω] in
/-- A running call is not settled yet. -/
theorem Accounts.fresh (h : Accounts alog calls sent reported) (hpc : alog w = .inside n c pc) :
    n ∉ sent.map Prod.fst ++ reported := fun hn => (h.settled n hn).2 w c pc hpc

theorem update_inside (h : Function.update alog w p v = .inside n c pc) :
    v = w ∧ p = .inside n c pc ∨ v ≠ w ∧ alog v = .inside n c pc := by
  by_cases hvw : v = w
  · subst v
    rw [Function.update_self] at h
    exact .inl ⟨rfl,h⟩
  · rw [Function.update_of_ne hvw] at h
    exact .inr ⟨hvw,h⟩

/-- The next statement of a call that goes on. -/
theorem Accounts.move (h : Accounts alog calls sent reported) (hpc : alog w = .inside n c pc)
    (fits : pd.Fits c) :
    Accounts (Function.update alog w (.inside n c pd)) calls sent reported := by
  refine ⟨fun v m d pe hv => ?_,fun v u m d e pe pf hv hu => ?_,fun m hm => ?_,h.once,
    fun m d hm hd => ?_⟩
  · rcases update_inside hv with ⟨-,hp⟩ | ⟨-,hv⟩
    · cases hp
      exact ⟨(h.known w n c pc hpc).1,fits⟩
    · exact h.known v m d pe hv
  · rcases update_inside hv with ⟨rfl,hp⟩ | ⟨-,hv'⟩ <;>
      rcases update_inside hu with ⟨rfl,hq⟩ | ⟨-,hu'⟩
    · rfl
    · cases hp
      exact h.apart _ _ _ _ _ _ _ hpc hu'
    · cases hq
      exact h.apart _ _ _ _ _ _ _ hv' hpc
    · exact h.apart _ _ _ _ _ _ _ hv' hu'
  · obtain ⟨hlt,hout⟩ := h.settled m hm
    refine ⟨hlt,fun v d pe hv => ?_⟩
    rcases update_inside hv with ⟨-,hp⟩ | ⟨-,hv⟩
    · cases hp
      exact hout w c pc hpc
    · exact hout v d pe hv
  · rcases h.accounted m d hm hd with hs | hr | ⟨v,e,pe,hv⟩
    · exact .inl hs
    · exact .inr (.inl hr)
    · refine .inr (.inr ?_)
      by_cases hvw : v = w
      · subst v
        rw [hpc] at hv
        cases hv
        exact ⟨w,c,pd,Function.update_self ..⟩
      · exact ⟨v,e,pe,by rwa [Function.update_of_ne hvw]⟩

/-- A call that ends with an outcome: it was disabled, or it is now among the settled ones. -/
theorem Accounts.finish (h : Accounts alog calls sent reported) (hpc : alog w = .inside n c pc)
    (settled : ∀ m ∈ sent'.map Prod.fst ++ reported', m = n ∨ m ∈ sent.map Prod.fst ++ reported)
    (once : (sent'.map Prod.fst ++ reported').Nodup) (keepS : sent ⊆ sent')
    (keepR : reported ⊆ reported')
    (out : c.enabled = true → (∃ time, (n,c.record time) ∈ sent') ∨ n ∈ reported') :
    Accounts (Function.update alog w .idle) calls sent' reported' := by
  refine ⟨fun v m d pe hv => ?_,fun v u m d e pe pf hv hu => ?_,fun m hm => ?_,once,
    fun m d hm hd => ?_⟩
  · rcases update_inside hv with ⟨-,hp⟩ | ⟨-,hv⟩
    · cases hp
    · exact h.known v m d pe hv
  · rcases update_inside hv with ⟨-,hp⟩ | ⟨-,hv⟩
    · cases hp
    · rcases update_inside hu with ⟨-,hq⟩ | ⟨-,hu⟩
      · cases hq
      · exact h.apart _ _ _ _ _ _ _ hv hu
  · have hlt : m<calls.length := by
      rcases settled m hm with rfl | hm
      · exact (List.getElem?_eq_some_iff.mp (h.known w m c pc hpc).1).1
      · exact (h.settled m hm).1
    refine ⟨hlt,fun v d pe hv => ?_⟩
    rcases update_inside hv with ⟨-,hp⟩ | ⟨hne,hv⟩
    · cases hp
    · rcases settled m hm with rfl | hm
      · exact hne (h.apart _ _ _ _ _ _ _ hv hpc)
      · exact (h.settled m hm).2 v d pe hv
  · rcases h.accounted m d hm hd with ⟨time,hs⟩ | hr | ⟨v,e,pe,hv⟩
    · exact .inl ⟨time,keepS hs⟩
    · exact .inr (.inl (keepR hr))
    · by_cases hvw : v = w
      · subst v
        rw [hpc] at hv
        cases hv
        have hc := (h.known w n c pc hpc).1
        rw [hc] at hm
        cases hm
        rcases out hd with hs | hr
        · exact .inl hs
        · exact .inr (.inl hr)
      · exact .inr (.inr ⟨v,e,pe,by rwa [Function.update_of_ne hvw]⟩)

theorem Accounts.disabled (h : Accounts alog calls sent reported)
    (hpc : alog w = .inside n c pc) (hc : c.enabled = false) :
    Accounts (Function.update alog w .idle) calls sent reported :=
  h.finish hpc (fun _ hm => .inr hm) h.once (List.Subset.refl _) (List.Subset.refl _)
    (fun he => by rw [hc] at he; cases he)

theorem Accounts.send (h : Accounts alog calls sent reported) {time : ℕ}
    (hpc : alog w = .inside n c pc) :
    Accounts (Function.update alog w .idle) calls (sent ++ [(n,c.record time)]) reported := by
  have hp : ((sent ++ [(n,c.record time)]).map Prod.fst ++ reported).Perm
      (n::(sent.map Prod.fst ++ reported)) := by
    rw [List.map_append,List.append_assoc]
    exact List.perm_middle
  refine h.finish hpc (fun m hm => ?_) ?_ (List.subset_append_left _ _) (List.Subset.refl _)
    (fun _ => .inl ⟨time,by simp⟩)
  · simpa using hp.mem_iff.mp hm
  · rw [hp.nodup_iff]
    exact List.nodup_cons.mpr ⟨h.fresh hpc,h.once⟩

theorem Accounts.report (h : Accounts alog calls sent reported) (hpc : alog w = .inside n c pc) :
    Accounts (Function.update alog w .idle) calls sent (reported ++ [n]) := by
  have hp : (sent.map Prod.fst ++ (reported ++ [n])).Perm (n::(sent.map Prod.fst ++ reported)) := by
    rw [←List.append_assoc]
    exact List.perm_append_singleton _ _
  refine h.finish hpc (fun m hm => ?_) ?_ (List.Subset.refl _) (List.subset_append_left _ _)
    (fun _ => .inr (by simp))
  · simpa using hp.mem_iff.mp hm
  · rw [hp.nodup_iff]
    exact List.nodup_cons.mpr ⟨h.fresh hpc,h.once⟩

theorem Accounts.enter (h : Accounts alog calls sent reported) (hpc : alog w = .idle) :
    Accounts (Function.update alog w (.inside calls.length c .level)) (calls ++ [c]) sent
      reported := by
  have old : ∀ v m d pe, alog v = .inside m d pe → m<calls.length := fun v m d pe hv =>
    (List.getElem?_eq_some_iff.mp (h.known v m d pe hv).1).1
  refine ⟨fun v m d pe hv => ?_,fun v u m d e pe pf hv hu => ?_,fun m hm => ?_,h.once,
    fun m d hm hd => ?_⟩
  · rcases update_inside hv with ⟨-,hp⟩ | ⟨-,hv⟩
    · cases hp
      exact ⟨by simp,trivial⟩
    · rw [List.getElem?_append_left (old v m d pe hv)]
      exact h.known v m d pe hv
  · rcases update_inside hv with ⟨rfl,hp⟩ | ⟨-,hv'⟩ <;>
      rcases update_inside hu with ⟨rfl,hq⟩ | ⟨-,hu'⟩
    · rfl
    · cases hp
      exact absurd (old _ _ _ _ hu') (lt_irrefl _)
    · cases hq
      exact absurd (old _ _ _ _ hv') (lt_irrefl _)
    · exact h.apart _ _ _ _ _ _ _ hv' hu'
  · obtain ⟨hlt,hout⟩ := h.settled m hm
    refine ⟨by simp; omega,fun v d pe hv => ?_⟩
    rcases update_inside hv with ⟨-,hp⟩ | ⟨-,hv⟩
    · cases hp
      exact lt_irrefl _ hlt
    · exact hout v d pe hv
  · by_cases hlt : m<calls.length
    · rw [List.getElem?_append_left hlt] at hm
      rcases h.accounted m d hm hd with hs | hr | ⟨v,e,pe,hv⟩
      · exact .inl hs
      · exact .inr (.inl hr)
      · have hne : v ≠ w := by
          rintro rfl
          rw [hpc] at hv
          cases hv
        exact .inr (.inr ⟨v,e,pe,by rwa [Function.update_of_ne hne]⟩)
    · have hlen := (List.getElem?_eq_some_iff.mp hm).1
      simp only [List.length_append,List.length_singleton] at hlen
      have hme : m = calls.length := by omega
      subst m
      exact .inr (.inr ⟨w,c,.level,Function.update_self ..⟩)

end Accounts

/-- The log task is inside `ALOG` only at its own two calls. -/
def OwnCalls {ι : Type*} (alog : Option ι → AlogPc) (task : LogTaskPc) : Prop :=
  ∀ n c pc, alog none = .inside n c pc → ∃ final, task = .announcing final

/-- Printed, in hand and queued is sent, in this order, and all calls are accounted for. -/
structure LogInv {ι : Type*} {capacity : ℕ}
    (s : AsyncLog ι (BoundedFifo LogMessage capacity)) : Prop where
  conserved : s.printed ++ s.task.inHand ++ s.queue.items = s.sent.map Prod.snd
  accounts : Accounts s.alog s.calls s.sent s.reported
  own : OwnCalls s.alog s.task

section Runs
variable {ι : Type*} [DecidableEq ι] {capacity : ℕ}
  {s s' : AsyncLog ι (BoundedFifo LogMessage capacity)} {w : Option ι} {n : ℕ} {c : LogCall}
  {pc : AlogStep}

theorem OwnCalls.update {alog : Option ι → AlogPc} {task : LogTaskPc} (h : OwnCalls alog task)
    (hpc : alog w = .inside n c pc) (p : AlogPc) : OwnCalls (Function.update alog w p) task := by
  intro m d pd hd
  rcases update_inside hd with ⟨rfl,-⟩ | ⟨-,hd⟩
  · exact h n c pc hpc
  · exact h m d pd hd

omit [DecidableEq ι] in
theorem OwnCalls.task {alog : Option ι → AlogPc} (h : alog none = .idle) (task : LogTaskPc) :
    OwnCalls alog task := by
  intro n c pc hpc
  rw [h] at hpc
  cases hpc

omit [DecidableEq ι] in
theorem OwnCalls.idle {alog : Option ι → AlogPc} {task : LogTaskPc} (h : OwnCalls alog task)
    (ht : ∀ final, task ≠ .announcing final) : alog none = .idle := by
  cases ha : alog none with
  | idle => rfl
  | inside n c pc =>
    obtain ⟨final,hf⟩ := h n c pc ha
    exact absurd hf (ht final)

theorem LogInv.setAlog (h : LogInv s) (hpc : s.alog w = .inside n c pc) {p : AlogPc}
    (ha : Accounts (Function.update s.alog w p) s.calls s.sent s.reported) :
    LogInv (s.setAlog w p) := ⟨h.conserved,ha,h.own.update hpc p⟩

omit [DecidableEq ι] in
/-- A line which is neither a message nor a report of a full queue. -/
theorem LogInv.write (h : LogInv s) {line : LogLine} (hp : line.printed = none)
    (hf : line.full = none) : LogInv (s.write line) := by
  refine ⟨?_,?_,h.own⟩
  · rw [AsyncLog.write_printed,hp,Option.toList_none,List.append_nil]
    exact h.conserved
  · rw [AsyncLog.write_reported,hf,Option.toList_none,List.append_nil]
    exact h.accounts

theorem LogInv.stepAlog (h : LogInv s) (hpc : s.alog w = .inside n c pc) :
    LogInv (s.stepAlog fifoLog w n c pc) := by
  obtain ⟨-,fits⟩ := h.accounts.known w n c pc hpc
  cases pc with
  | level =>
    cases hc : c.enabled with
    | false =>
      simp only [AsyncLog.stepAlog,hc,Bool.false_eq_true,if_false]
      exact h.setAlog hpc (h.accounts.disabled hpc hc)
    | true =>
      simp only [AsyncLog.stepAlog,hc,if_true]
      exact h.setAlog hpc (h.accounts.move hpc hc)
  | warn =>
    simp only [AsyncLog.stepAlog]
    split_ifs
    · exact h.setAlog hpc (h.accounts.move hpc fits)
    · have hw : LogInv (s.write (.notRunning c.tag)) := h.write rfl rfl
      exact hw.setAlog hpc (hw.accounts.move hpc fits)
  | clock => exact h.setAlog hpc (h.accounts.move hpc fits)
  | format time mark => exact h.setAlog hpc (h.accounts.move hpc ⟨fits,time,rfl⟩)
  | send msg mark =>
    obtain ⟨hen,time,rfl⟩ := fits
    cases hq : s.queue.send (c.record time) with
    | none =>
      simp only [AsyncLog.stepAlog,fifoLog,hq]
      exact h.setAlog hpc (h.accounts.move hpc hen)
    | some q =>
      simp only [AsyncLog.stepAlog,fifoLog,hq]
      refine ⟨?_,h.accounts.send hpc,h.own.update hpc _⟩
      have hitems := (BoundedFifo.send_eq_some.mp hq).2
      change s.printed ++ s.task.inHand ++ q.items = (s.sent ++ [(n,c.record time)]).map Prod.snd
      rw [hitems,List.map_append,←h.conserved]
      simp
  | report =>
    refine ⟨?_,?_,h.own.update hpc _⟩
    · change (s.write (.queueFull n c.tag)).printed ++ s.task.inHand ++ s.queue.items =
        s.sent.map Prod.snd
      rw [AsyncLog.write_printed]
      simpa [LogLine.printed] using h.conserved
    · change Accounts _ s.calls s.sent (s.write (.queueFull n c.tag)).reported
      rw [AsyncLog.write_reported]
      exact h.accounts.report hpc

theorem LogInv.stepTask (h : LogInv s) (hs : s.stepTask fifoLog s.task = some s') : LogInv s' := by
  have hcons := h.conserved
  cases ht : s.task with
  | announce final =>
    rw [ht] at hs hcons
    cases hs
    have hidle := h.own.idle (by rw [ht]; simp)
    exact ⟨hcons,h.accounts.enter hidle,fun _ _ _ _ => ⟨final,rfl⟩⟩
  | announcing final =>
    rw [ht] at hs hcons
    cases ha : s.alog none <;> simp only [AsyncLog.stepTask,ha] at hs <;> cases hs
    exact ⟨by cases final <;> exact hcons,h.accounts,OwnCalls.task ha _⟩
  | loop =>
    rw [ht] at hs hcons
    cases hs
    have hidle := h.own.idle (by rw [ht]; simp)
    exact ⟨by split_ifs <;> exact hcons,h.accounts,OwnCalls.task hidle _⟩
  | poll =>
    rw [ht] at hs
    cases hs
  | receive final =>
    rw [ht] at hs hcons
    have hidle := h.own.idle (by rw [ht]; simp)
    cases hq : s.queue.receive with
    | none =>
      simp only [AsyncLog.stepTask,fifoLog,hq] at hs
      cases hs
      exact ⟨by cases final <;> exact hcons,h.accounts,OwnCalls.task hidle _⟩
    | some r =>
      obtain ⟨msg,q⟩ := r
      simp only [AsyncLog.stepTask,fifoLog,hq] at hs
      cases hs
      refine ⟨?_,h.accounts,OwnCalls.task hidle _⟩
      rw [BoundedFifo.receive_eq_some.mp hq] at hcons
      change s.printed ++ [msg] ++ q.items = s.sent.map Prod.snd
      simpa [LogTaskPc.inHand] using hcons
  | print final msg =>
    rw [ht] at hs hcons
    cases hs
    have hidle := h.own.idle (by rw [ht]; simp)
    refine ⟨?_,?_,OwnCalls.task hidle _⟩
    · change (s.write (.message msg)).printed ++ [] ++ s.queue.items = s.sent.map Prod.snd
      rw [AsyncLog.write_printed]
      simpa [LogLine.printed,LogTaskPc.inHand] using hcons
    · change Accounts s.alog s.calls s.sent (s.write (.message msg)).reported
      rw [AsyncLog.write_reported]
      simpa [LogLine.full] using h.accounts
  | setRunning | clearRunning | signal =>
    rw [ht] at hs hcons
    cases hs
    exact ⟨hcons,h.accounts,OwnCalls.task (h.own.idle (by rw [ht]; simp)) _⟩
  | finished =>
    rw [ht] at hs
    cases hs

omit [DecidableEq ι] in
theorem LogInv.stepPoll (h : LogInv s) (ht : s.task = .poll) {outcome : PollOutcome}
    (hs : s.stepPoll fifoLog outcome = some s') : LogInv s' := by
  have hcons := h.conserved
  have hidle := h.own.idle (by rw [ht]; simp)
  rw [ht] at hcons
  rcases AsyncLog.stepPoll_cases hs with rfl | rfl | rfl
  · have hw : LogInv (s.write .pollFailed) := h.write rfl rfl
    have hwc := hw.conserved
    change (s.write .pollFailed).printed ++ s.task.inHand ++ s.queue.items = _ at hwc
    rw [ht] at hwc
    exact ⟨hwc,hw.accounts,OwnCalls.task hidle _⟩
  · exact ⟨hcons,h.accounts,OwnCalls.task hidle _⟩
  · exact ⟨hcons,h.accounts,OwnCalls.task hidle _⟩

theorem LogInv.next (h : LogInv s) {a : LogAction ι} (hs : s.next fifoLog a = some s') :
    LogInv s' := by
  cases a with
  | call t c =>
    cases ha : s.alog (some t) <;> simp only [AsyncLog.next,ha] at hs <;> cases hs
    refine ⟨h.conserved,h.accounts.enter ha,fun n d pc hpc => ?_⟩
    change Function.update s.alog (some t) (.inside s.calls.length c .level) none = _ at hpc
    rw [Function.update_of_ne (by simp)] at hpc
    exact h.own n d pc hpc
  | alog w =>
    cases ha : s.alog w <;> simp only [AsyncLog.next,ha] at hs <;> cases hs
    exact h.stepAlog ha
  | task => exact h.stepTask hs
  | poll outcome =>
    obtain ⟨ht,hs⟩ := AsyncLog.next_poll hs
    exact h.stepPoll ht hs
  | tick d | stop =>
    cases hs
    exact ⟨h.conserved,h.accounts,h.own⟩

theorem LogInv.init {q : BoundedFifo LogMessage capacity} (hq : q.items = [])
    (hi : (AsyncLog.machine fifoLog q).init s) : LogInv s := by
  obtain ⟨clock,rfl⟩ := hi
  refine ⟨?_,Accounts.start,OwnCalls.task rfl _⟩
  change [] ++ [] ++ q.items = []
  rw [hq]
  rfl

end Runs

/-- `log_task_stop` is called while no other thread is inside `ALOG`, and none enters it later. -/
def QuietStop {ι Q : Type*} (s : AsyncLog ι Q) : LogAction ι → Prop
  | .stop => ∀ t, s.alog (some t) = .idle
  | .call _ _ => s.stopped = false
  | _ => True

instance {n : ℕ} {Q : Type*} (s : AsyncLog (Fin n) Q) : (a : LogAction (Fin n)) →
    Decidable (QuietStop s a)
  | .stop => inferInstanceAs (Decidable (∀ t, s.alog (some t) = .idle))
  | .call _ _ => inferInstanceAs (Decidable (s.stopped = false))
  | .alog _ | .task | .poll _ | .tick _ => isTrue trivial

/-- The statements after the loop over `g_log_running`. -/
def LogTaskPc.late : LogTaskPc → Bool
  | .announce final | .announcing final | .receive final | .print final _ => final
  | .loop | .poll => false
  | .setRunning | .clearRunning | .signal | .finished => true

/-- The statements after the final drain. -/
def LogTaskPc.over : LogTaskPc → Bool
  | .signal | .finished => true
  | _ => false

theorem LogTaskPc.late_of_over {task : LogTaskPc} (h : task.over = true) : task.late = true := by
  cases task <;> first | rfl | cases h

/-- The shutdown as far as it has come: with the flag down all other threads are out of `ALOG`,
and behind the final drain the queue is empty. -/
structure Draining {ι : Type*} {capacity : ℕ}
    (s : AsyncLog ι (BoundedFifo LogMessage capacity)) : Prop where
  quiet : s.stopped = true → ∀ t, s.alog (some t) = .idle
  flag : s.running = false → s.stopped = true
  late : s.task.late = true → s.stopped = true
  empty : s.task.over = true → s.queue.items = []
  done : s.done = true → s.task.over = true

section Shutdown
variable {ι : Type*} [DecidableEq ι] {capacity : ℕ}
  {s s' : AsyncLog ι (BoundedFifo LogMessage capacity)} {w : Option ι} {n : ℕ} {c : LogCall}
  {pc : AlogStep}

omit [DecidableEq ι] in
/-- A drained log task is not followed by any statement of `ALOG`. -/
theorem Draining.over_idle (h : Draining s) (own : OwnCalls s.alog s.task)
    (hover : s.task.over = true) (w : Option ι) : s.alog w = .idle := by
  cases w with
  | none =>
    apply own.idle
    intro final hf
    rw [hf] at hover
    cases hover
  | some t => exact h.quiet (h.late (LogTaskPc.late_of_over hover)) t

theorem Draining.stepAlog (h : Draining s) (own : OwnCalls s.alog s.task)
    (hpc : s.alog w = .inside n c pc) : Draining (s.stepAlog fifoLog w n c pc) := by
  obtain ⟨htask,hrunning,hstopped,hdone⟩ := AsyncLog.stepAlog_frame fifoLog s w n c pc
  refine ⟨fun hs t => ?_,?_,?_,fun hover => ?_,?_⟩
  · rw [hstopped] at hs
    have hw : some t ≠ w := by
      rintro rfl
      rw [h.quiet hs t] at hpc
      cases hpc
    rw [AsyncLog.stepAlog_other fifoLog s n c pc hw]
    exact h.quiet hs t
  · rw [hrunning,hstopped]
    exact h.flag
  · rw [htask,hstopped]
    exact h.late
  · rw [htask] at hover
    rw [h.over_idle own hover w] at hpc
    cases hpc
  · rw [hdone,htask]
    exact h.done

theorem Draining.stepTask (h : Draining s) (hs : s.stepTask fifoLog s.task = some s') :
    Draining s' := by
  have hlate := h.late
  have hdone := h.done
  cases ht : s.task with
  | announce final =>
    rw [ht] at hs hlate hdone
    cases hs
    refine ⟨fun hst t => ?_,h.flag,hlate,fun hover => (by cases hover),hdone⟩
    change (s.setAlog none (.inside s.calls.length (logTaskCall final) .level)).alog (some t) = .idle
    rw [AsyncLog.setAlog_other (by simp)]
    exact h.quiet hst t
  | announcing final =>
    rw [ht] at hs hlate hdone
    cases ha : s.alog none <;> simp only [AsyncLog.stepTask,ha] at hs <;> cases hs
    refine ⟨h.quiet,h.flag,fun hl => hlate ?_,fun hover => ?_,fun hd => by cases hdone hd⟩
    · cases final with
      | false => cases hl
      | true => rfl
    · cases final <;> cases hover
  | loop =>
    rw [ht] at hs hdone
    simp only [AsyncLog.stepTask] at hs
    cases hr : s.running with
    | true =>
      simp only [hr,if_true] at hs
      cases hs
      exact ⟨h.quiet,fun hf => (by cases hf),fun hl => (by cases hl),fun hover => (by cases hover),
        fun hd => by cases hdone hd⟩
    | false =>
      simp only [hr,Bool.false_eq_true,if_false] at hs
      cases hs
      exact ⟨h.quiet,fun _ => h.flag hr,fun _ => h.flag hr,fun hover => (by cases hover),
        fun hd => by cases hdone hd⟩
  | poll =>
    rw [ht] at hs
    cases hs
  | receive final =>
    rw [ht] at hs hlate hdone
    cases hq : s.queue.receive with
    | none =>
      simp only [AsyncLog.stepTask,fifoLog,hq] at hs
      cases hs
      refine ⟨h.quiet,h.flag,fun hl => hlate ?_,fun _ => BoundedFifo.receive_eq_none.mp hq,
        fun hd => by cases hdone hd⟩
      cases final with
      | false => cases hl
      | true => rfl
    | some r =>
      simp only [AsyncLog.stepTask,fifoLog,hq] at hs
      cases hs
      exact ⟨h.quiet,h.flag,hlate,fun hover => (by cases hover),fun hd => by cases hdone hd⟩
  | print final msg =>
    rw [ht] at hs hlate hdone
    cases hs
    exact ⟨h.quiet,h.flag,hlate,fun hover => (by cases hover),fun hd => by cases hdone hd⟩
  | setRunning =>
    rw [ht] at hs hlate hdone
    cases hs
    exact ⟨h.quiet,fun hf => (by cases hf),hlate,fun hover => (by cases hover),
      fun hd => by cases hdone hd⟩
  | clearRunning =>
    rw [ht] at hs hlate hdone
    cases hs
    exact ⟨h.quiet,fun _ => hlate rfl,hlate,fun hover => (by cases hover),
      fun hd => by cases hdone hd⟩
  | signal =>
    have hempty := h.empty
    rw [ht] at hs hlate hempty
    cases hs
    exact ⟨h.quiet,h.flag,hlate,hempty,fun _ => rfl⟩
  | finished =>
    rw [ht] at hs
    cases hs

omit [DecidableEq ι] in
theorem Draining.stepPoll (h : Draining s) (ht : s.task = .poll) {outcome : PollOutcome}
    (hs : s.stepPoll fifoLog outcome = some s') : Draining s' := by
  have hdone := h.done
  rw [ht] at hdone
  rcases AsyncLog.stepPoll_cases hs with rfl | rfl | rfl <;>
    exact ⟨h.quiet,h.flag,fun hl => (by cases hl),fun hover => (by cases hover),
      fun hd => by cases hdone hd⟩

theorem Draining.next (h : Draining s) (own : OwnCalls s.alog s.task) {a : LogAction ι}
    (quiet : QuietStop s a) (hs : s.next fifoLog a = some s') : Draining s' := by
  cases a with
  | call t c =>
    cases ha : s.alog (some t) <;> simp only [AsyncLog.next,ha] at hs <;> cases hs
    refine ⟨fun hst => ?_,h.flag,h.late,h.empty,h.done⟩
    have hlive : s.stopped = false := quiet
    rw [show (s.enter (some t) c).stopped = s.stopped from rfl,hlive] at hst
    cases hst
  | alog w =>
    cases ha : s.alog w <;> simp only [AsyncLog.next,ha] at hs <;> cases hs
    exact h.stepAlog own ha
  | task => exact h.stepTask hs
  | poll outcome =>
    obtain ⟨ht,hs⟩ := AsyncLog.next_poll hs
    exact h.stepPoll ht hs
  | tick d =>
    cases hs
    exact ⟨h.quiet,h.flag,h.late,h.empty,h.done⟩
  | stop =>
    cases hs
    exact ⟨fun _ => quiet,fun _ => rfl,fun _ => rfl,h.empty,h.done⟩

theorem Draining.init {q : BoundedFifo LogMessage capacity}
    (hi : (AsyncLog.machine fifoLog q).init s) : Draining s := by
  obtain ⟨clock,rfl⟩ := hi
  exact ⟨fun h => (by cases h),fun h => (by cases h),fun h => (by cases h),fun h => (by cases h),
    fun h => (by cases h)⟩

variable {tr : List (AsyncLog ι (BoundedFifo LogMessage capacity) × LogAction ι)}

theorem LogInv.draining (run : Exec (AsyncLog.machine fifoLog BoundedFifo.empty) tr s)
    (quiet : Meets QuietStop tr) : LogInv s ∧ Draining s :=
  run.invariant (I := fun s => LogInv s ∧ Draining s)
    (fun _ hi => ⟨LogInv.init rfl hi,Draining.init hi⟩)
    (fun _ _ _ h hq hs => ⟨h.1.next hs,h.2.next h.1.own hq hs⟩) quiet

omit [DecidableEq ι] in
/-- Behind the final drain nothing is in hand or queued, and no call is running. -/
theorem LogInv.drained (inv : LogInv s) (drain : Draining s) (hover : s.task.over = true) :
    s.printed = s.sent.map Prod.snd ∧ ∀ n c, s.calls[n]? = some c → c.enabled = true →
      (∃ time, (n,c.record time) ∈ s.sent) ∨ n ∈ s.reported := by
  refine ⟨?_,fun n c hn hc => ?_⟩
  · have hcons := inv.conserved
    have hhand : s.task.inHand = [] := by
      cases ht : s.task <;> first | rfl | (rw [ht] at hover; cases hover)
    rw [hhand,drain.empty hover] at hcons
    simpa using hcons
  · rcases inv.accounts.accounted n c hn hc with hs | hr | ⟨w,d,pc,hw⟩
    · exact .inl hs
    · exact .inr hr
    · rw [drain.over_idle inv.own hover w] at hw
      cases hw

/-- When the log task signals its end after a quiet stop, it has printed exactly what was sent,
in the order of the sends, and each enabled call has sent its record or reported a full queue. -/
theorem drained_when_done (run : Exec (AsyncLog.machine fifoLog BoundedFifo.empty) tr s)
    (quiet : Meets QuietStop tr) (done : s.done = true) :
    s.printed = s.sent.map Prod.snd ∧ (s.sent.map Prod.fst ++ s.reported).Nodup ∧
    ∀ n c, s.calls[n]? = some c → c.enabled = true →
      (∃ time, (n,c.record time) ∈ s.sent) ∨ n ∈ s.reported := by
  obtain ⟨inv,drain⟩ := LogInv.draining run quiet
  obtain ⟨hprinted,hcalls⟩ := inv.drained drain (drain.done done)
  exact ⟨hprinted,inv.accounts.once,hcalls⟩

end Shutdown

/-- One slot. The producer fills it, the first record of the log task and the second one of the
producer find it full, and after the stop the log task sends and drains its own last record. -/
def fullQueueRun : List (LogAction (Fin 1)) :=
  List.flatten [
    .call 0 (.debug "stdin_task" "ready for input...")::List.replicate 5 (.alog (some 0)),
    .task::List.replicate 6 (.alog none),
    .call 0 (.debug "stdin_task" "exiting...")::List.replicate 6 (.alog (some 0)),
    [.task,.task,.poll .ready,.task,.task,.task,.stop,.task,.task,.task],
    List.replicate 5 (.alog none),List.replicate 6 .task]

theorem drained_when_done_fullQueue :
    ∃ tr, ∃ s : AsyncLog (Fin 1) (BoundedFifo LogMessage 1),
      Exec (AsyncLog.machine fifoLog BoundedFifo.empty) tr s ∧ s.done = true ∧
      s.sent.map Prod.fst = [0,3] ∧ s.reported = [1,2] ∧ s.printed = s.sent.map Prod.snd := by
  have hv : ((AsyncLog.machine fifoLog BoundedFifo.empty).run
      (AsyncLog.start (BoundedFifo.empty : BoundedFifo LogMessage 1) 0) fullQueueRun).map
      (fun s => (s.done,s.sent.map Prod.fst,s.reported)) = some (true,[0,3],[1,2]) := by decide
  obtain ⟨s,hs,hr⟩ := Option.map_eq_some_iff.mp hv
  simp only [Prod.mk.injEq] at hr
  have run := Exec.of_run (AsyncLog.start_init _ _ 0) hs
  exact ⟨_,s,run,hr.1,hr.2.1,hr.2.2,(drained_when_done run (by decide) hr.1).1⟩

end TTK4145.Rtsystem
