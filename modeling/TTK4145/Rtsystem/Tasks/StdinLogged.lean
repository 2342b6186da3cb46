import Mathlib.Data.List.Infix
import TTK4145.Rtsystem.Tasks.LogOrder
import TTK4145.Rtsystem.Tasks.StdinFraming

/-! The stdin task and the log task together: what is typed, taken in and logged by one thread, and
printed by the other, while any number of further threads log as well. -/
namespace TTK4145.Rtsystem
open Lib

/-- The logging thread `none` is the stdin task. `mine` is a history: the numbers of the calls that
it has begun, one for each of its records. -/
structure LoggedStdin (ι : Type*) (capacity : ℕ) where
  task : StdinTask
  log : AsyncLog (Option ι) (BoundedFifo LogMessage capacity)
  mine : List ℕ

/-- A step of the stdin task outside of `ALOG`, its entry into `ALOG` for the next record, or a step
of the log task and of the other threads. -/
inductive LoggedAction (ι : Type*) where
  | stdin (a : StdinInput)
  | enter
  | log (a : LogAction (Option ι))
  deriving DecidableEq

/-- A record without its time. -/
def LogMessage.untimed (m : LogMessage) : LogMessage := {m with timestamp := 0}

namespace LoggedStdin
variable {ι : Type*} [DecidableEq ι] {capacity : ℕ}

/-- The stdin task goes on when it is through with the records logged so far. Anybody may tell it to
stop. -/
def next (M : Machine StdinTask StdinInput) (s : LoggedStdin ι capacity) :
    LoggedAction ι → Option (LoggedStdin ι capacity)
  | .stdin a =>
    if a = .stop ∨ s.mine.length = s.task.log.length ∧ s.log.alog (some none) = .idle then
      (M.next s.task a).map fun task => {s with task := task}
    else none
  | .enter => match s.task.log[s.mine.length]?,s.log.alog (some none) with
    | some r,.idle => some {s with
        log := s.log.enter (some none) (r.call s.task.bufSize)
        mine := s.mine ++ [s.log.calls.length]}
    | _,_ => none
  | .log (.call none _) => none
  | .log a => (s.log.next fifoLog a).map fun log => {s with log := log}

def machine (M : Machine StdinTask StdinInput) :
    Machine (LoggedStdin ι capacity) (LoggedAction ι) where
  init s := M.init s.task ∧ (AsyncLog.machine fifoLog BoundedFifo.empty).init s.log ∧ s.mine = []
  next := next M

/-- The records of the stdin task that have been sent, with the numbers of their calls. -/
def sent (s : LoggedStdin ι capacity) : List (ℕ × LogMessage) :=
  s.log.sent.filter (·.1 ∈ s.mine)

/-- The calls of the stdin task that have found the queue full. -/
def dropped (s : LoggedStdin ι capacity) : List ℕ := s.log.reported.filter (· ∈ s.mine)

/-- The stop of the log task is quiet: the stdin task is one of the threads that do not log then. -/
def Quiet (s : LoggedStdin ι capacity) : LoggedAction ι → Prop
  | .log a => QuietStop s.log a
  | .enter => s.log.stopped = false
  | .stdin _ => True

/-- Every `read` of the loop that brings bytes brings a whole line or fills the buffer, and none of
the flush loop fails or brings nothing. -/
def ReadsWhole (s : LoggedStdin ι capacity) : LoggedAction ι → Prop
  | .stdin a => Whole s.task a
  | _ => True

end LoggedStdin

namespace LoggedStdin
variable {ι : Type*} [DecidableEq ι] {capacity : ℕ} {M : Machine StdinTask StdinInput}
  {s t : LoggedStdin ι capacity} {a : LoggedAction ι}

omit [DecidableEq ι] in
/-- What a step does to the two parts. -/
theorem next_cases [DecidableEq ι] (h : next M s a = some t) :
    (∃ b, a = .stdin b ∧ M.next s.task b = some t.task ∧ t.log = s.log ∧ t.mine = s.mine) ∨
    (∃ r, a = .enter ∧ s.task.log[s.mine.length]? = some r ∧ s.log.alog (some none) = .idle ∧
      t.task = s.task ∧ t.log = s.log.enter (some none) (r.call s.task.bufSize) ∧
      t.mine = s.mine ++ [s.log.calls.length]) ∨
    ∃ b, a = .log b ∧ (∀ c, b ≠ .call none c) ∧ s.log.next fifoLog b = some t.log ∧
      t.task = s.task ∧ t.mine = s.mine := by
  unfold next at h
  split at h
  · split_ifs at h
    obtain ⟨task,htask,rfl⟩ := Option.map_eq_some_iff.mp h
    exact .inl ⟨_,rfl,htask,rfl,rfl⟩
  · split at h
    · next r hr hidle =>
      cases h
      exact .inr (.inl ⟨r,rfl,hr,hidle,rfl,rfl,rfl⟩)
    · cases h
  · cases h
  · next b hb =>
    obtain ⟨log,hlog,rfl⟩ := Option.map_eq_some_iff.mp h
    exact .inr (.inr ⟨b,rfl,fun c hc => hb c (by rw [hc]),hlog,rfl,rfl⟩)

variable {tr : List (LoggedStdin ι capacity × LoggedAction ι)}

/-- The log task's part of a run. -/
theorem exec_log (run : Exec (machine M) tr s) (quiet : Meets Quiet tr) :
    ∃ tr', Exec (AsyncLog.machine fifoLog BoundedFifo.empty) tr' s.log ∧ Meets QuietStop tr' := by
  refine run.project LoggedStdin.log (fun s hs => hs.2.1) (fun s a t hq hn => ?_) quiet
  obtain ⟨b,-,-,hlog,-⟩ | ⟨r,rfl,-,hidle,-,hlog,-⟩ | ⟨b,rfl,-,hlog,-,-⟩ := next_cases hn
  · exact .inl hlog
  · refine .inr ⟨.call none (r.call s.task.bufSize),hq,?_⟩
    change s.log.next fifoLog (.call none (r.call s.task.bufSize)) = _
    rw [AsyncLog.next,hidle,hlog]
  · exact .inr ⟨b,hq,hlog⟩

/-- The stdin task's part of a run. -/
theorem exec_task (run : Exec (machine M) tr s) (whole : Meets ReadsWhole tr) :
    ∃ tr', Exec M tr' s.task ∧ Meets Whole tr' := by
  refine run.project LoggedStdin.task (fun s hs => hs.1) (fun s a t hw hn => ?_) whole
  obtain ⟨b,rfl,htask,-,-⟩ | ⟨r,-,-,-,htask,-,-⟩ | ⟨b,-,-,-,htask,-⟩ := next_cases hn
  · exact .inr ⟨b,hw,htask⟩
  · exact .inl htask
  · exact .inl htask

end LoggedStdin

section Parts
variable {s t : StdinTask} {n k : ℕ} {a : StdinInput}

theorem StdinTask.finish_grows : s.log <+: (s.finish n).log := by
  simp only [finish]
  split_ifs
  · exact List.prefix_refl _
  · exact List.prefix_append _ _

theorem StdinTask.takeIn_prefix (h0 : 0<k) (hk : k ≤ s.unread.length) :
    s.log <+: (s.takeIn k).log ∧ (s.takeIn k).bufSize = s.bufSize := by
  obtain ⟨b,extra,-,-,-,⟨-,ht⟩ | ⟨-,ht⟩⟩ := takeIn_cases h0 hk
  · rw [ht]
    exact ⟨List.prefix_append _ _,rfl⟩
  · rw [ht]
    exact ⟨finish_grows (s := s.taking k b),finish_bufSize⟩

theorem StdinTask.discard_prefix {q : ℕ} :
    s.log <+: (s.discard n q k).log ∧ (s.discard n q k).bufSize = s.bufSize := by
  simp only [discard]
  split_ifs
  · exact ⟨finish_grows (s := {s.deliver k with discards := _}),finish_bufSize⟩
  · exact ⟨List.prefix_refl _,rfl⟩

/-- The task only adds to its log. -/
theorem StdinTask.next_prefix (h : s.next a = some t) : s.log <+: t.log ∧ t.bufSize = s.bufSize := by
  cases a with
  | stop =>
    cases h
    exact ⟨List.prefix_refl _,rfl⟩
  | test =>
    simp only [next] at h
    split_ifs at h <;> cases h
    · exact ⟨List.prefix_refl _,rfl⟩
    · exact ⟨(List.prefix_append _ _).trans (List.prefix_append _ _),rfl⟩
  | poll outcome err =>
    simp only [next] at h
    split_ifs at h
    cases h
    cases outcome with
    | error => exact ⟨List.prefix_append _ _,rfl⟩
    | timeout | ready => exact ⟨List.prefix_refl _,rfl⟩
  | read r =>
    simp only [next,stepRead] at h
    split at h
    · cases r with
      | error err =>
        cases h
        exact ⟨List.prefix_append _ _,rfl⟩
      | bytes k =>
        simp only at h
        split_ifs at h with hk h0
        · cases h
          exact ⟨List.prefix_refl _,rfl⟩
        · cases h
          exact takeIn_prefix (s := {s with requests := s.requests ++ [s.room]})
            (Nat.pos_of_ne_zero h0) hk.2
    · cases r with
      | error err =>
        cases h
        exact ⟨finish_grows,finish_bufSize⟩
      | bytes k =>
        simp only at h
        split_ifs at h
        · cases h
          exact ⟨finish_grows,finish_bufSize⟩
        · cases h
          exact discard_prefix
    · cases h

end Parts

section Calls
variable {ι : Type*} [DecidableEq ι] {capacity : ℕ}
  {s t : AsyncLog ι (BoundedFifo LogMessage capacity)} {a : LogAction ι} {v w : Option ι} {n m : ℕ}
  {c d : LogCall} {pc pd : AlogStep}

/-- A statement of `ALOG` stays inside of its call or leaves it. -/
theorem stepAlog_inside (ha : s.alog w = .inside m d pd)
    (hv : (s.stepAlog fifoLog w m d pd).alog v = .inside n c pc) : ∃ pe, s.alog v = .inside n c pe := by
  by_cases hvw : v = w
  · subst hvw
    have hset : ∀ (u : AsyncLog ι (BoundedFifo LogMessage capacity)) p,
        (u.setAlog v p).alog v = p := fun u p => by simp [AsyncLog.setAlog]
    cases pd with
    | level =>
      simp only [AsyncLog.stepAlog,hset] at hv
      split_ifs at hv
      cases hv
      exact ⟨_,ha⟩
    | send msg mark =>
      simp only [AsyncLog.stepAlog] at hv
      split at hv
      · rw [hset] at hv
        cases hv
        exact ⟨_,ha⟩
      · simp [AsyncLog.accept,AsyncLog.setAlog] at hv
    | warn | clock | format | report =>
      simp only [AsyncLog.stepAlog,hset] at hv
      cases hv <;> exact ⟨_,ha⟩
  · rw [AsyncLog.stepAlog_other fifoLog s m d pd hvw] at hv
    exact ⟨pc,hv⟩

theorem stepAlog_calls : (s.stepAlog fifoLog w m d pd).calls = s.calls := by
  cases pd with
  | warn =>
    simp only [AsyncLog.stepAlog]
    split_ifs <;> rfl
  | send msg mark =>
    simp only [AsyncLog.stepAlog]
    split <;> rfl
  | level | clock | format | report => rfl

theorem enter_inside (hv : (s.enter w d).alog v = .inside n c pc) :
    s.alog v = .inside n c pc ∨ n = s.calls.length ∧ v = w := by
  obtain ⟨rfl,hp⟩ | ⟨-,hv⟩ :=
    update_inside (show Function.update s.alog w _ v = _ from hv)
  · cases hp
    exact .inr ⟨rfl,rfl⟩
  · exact .inl hv

theorem stepTask_calls (hs : s.stepTask fifoLog s.task = some t) :
    t.calls = s.calls ∧ t.alog = s.alog ∨ ∃ d, t.calls = s.calls ++ [d] ∧
      t.alog = (s.enter none d).alog := by
  cases hp : s.task with
  | announce final =>
    rw [hp] at hs
    cases hs
    exact .inr ⟨_,rfl,rfl⟩
  | announcing final | receive final =>
    rw [hp] at hs
    simp only [AsyncLog.stepTask] at hs
    split at hs <;> cases hs <;> exact .inl ⟨rfl,rfl⟩
  | poll | finished =>
    rw [hp] at hs
    cases hs
  | loop | print | setRunning | clearRunning | signal =>
    rw [hp] at hs
    cases hs
    exact .inl ⟨rfl,rfl⟩

/-- A call is begun by its own thread, with the next number. -/
theorem next_inside (hs : s.next fifoLog a = some t) (hv : t.alog v = .inside n c pc) :
    (∃ pd, s.alog v = .inside n c pd) ∨
      n = s.calls.length ∧ (v = none ∨ ∃ u c, v = some u ∧ a = .call u c) := by
  cases a with
  | call u d =>
    cases ha : s.alog (some u) <;> simp only [AsyncLog.next,ha] at hs <;> cases hs
    obtain hv | ⟨rfl,rfl⟩ := enter_inside hv
    · exact .inl ⟨_,hv⟩
    · exact .inr ⟨rfl,.inr ⟨_,_,rfl,rfl⟩⟩
  | alog w =>
    cases ha : s.alog w <;> simp only [AsyncLog.next,ha] at hs <;> cases hs
    exact .inl (stepAlog_inside ha hv)
  | task =>
    obtain ⟨-,halog⟩ | ⟨d,-,halog⟩ := stepTask_calls hs
    · exact .inl ⟨_,halog ▸ hv⟩
    · rw [halog] at hv
      obtain hv | ⟨rfl,rfl⟩ := enter_inside hv
      · exact .inl ⟨_,hv⟩
      · exact .inr ⟨rfl,.inl rfl⟩
  | poll outcome =>
    rcases AsyncLog.stepPoll_cases (AsyncLog.next_poll hs).2 with rfl | rfl | rfl <;>
      exact .inl ⟨_,hv⟩
  | tick e | stop =>
    cases hs
    exact .inl ⟨_,hv⟩

theorem next_calls (hs : s.next fifoLog a = some t) : s.calls <+: t.calls := by
  cases a with
  | call u d =>
    cases ha : s.alog (some u) <;> simp only [AsyncLog.next,ha] at hs <;> cases hs
    exact List.prefix_append _ _
  | alog w =>
    cases ha : s.alog w <;> simp only [AsyncLog.next,ha] at hs <;> cases hs
    rw [stepAlog_calls]
  | task =>
    obtain ⟨hcalls,-⟩ | ⟨d,hcalls,-⟩ := stepTask_calls hs
    · rw [hcalls]
    · rw [hcalls]
      exact List.prefix_append _ _
  | poll outcome =>
    rcases AsyncLog.stepPoll_cases (AsyncLog.next_poll hs).2 with rfl | rfl | rfl <;>
      exact List.prefix_refl _
  | tick e | stop =>
    cases hs
    exact List.prefix_refl _

end Calls

/-- What is known of the calls of the stdin task: they are those of its first records, in order, and
no other thread is inside of one. -/
structure Mine {ι : Type*} [DecidableEq ι] {capacity : ℕ} (s : LoggedStdin ι capacity) : Prop where
  calls : ∀ i n : ℕ, s.mine[i]? = some n → ∃ r : StdinRecord,
    s.task.log[i]? = some r ∧ s.log.calls[n]? = some (r.call s.task.bufSize)
  apart : ∀ w n c pc, s.log.alog w = .inside n c pc → n ∈ s.mine → w = some none
  last : ∀ n c pc, s.log.alog (some none) = .inside n c pc → s.mine.getLast? = some n
  order : (s.sent.map Prod.fst).Sublist s.mine
  nodup : s.mine.Nodup

section Mine
variable {ι : Type*} [DecidableEq ι] {capacity : ℕ} {s t : LoggedStdin ι capacity}
  {a : LoggedAction ι}

theorem Mine.lt (h : Mine s) {n : ℕ} (hn : n ∈ s.mine) : n<s.log.calls.length := by
  obtain ⟨i,hi⟩ := List.mem_iff_getElem?.mp hn
  obtain ⟨r,-,hr⟩ := h.calls i n hi
  exact (List.getElem?_eq_some_iff.mp hr).1

theorem prefix_getElem? {α : Type*} {l m : List α} {i : ℕ} {x : α} (h : l <+: m)
    (hx : l[i]? = some x) : m[i]? = some x := by
  obtain ⟨r,rfl⟩ := h
  rw [List.getElem?_append_left (List.getElem?_eq_some_iff.mp hx).1,hx]

/-- Records and calls that are added leave the known ones as they are. -/
theorem Mine.grow (h : Mine s) (htask : s.task.log <+: t.task.log)
    (hsize : t.task.bufSize = s.task.bufSize) (hcalls : s.log.calls <+: t.log.calls)
    {i n : ℕ} (hi : s.mine[i]? = some n) : ∃ r : StdinRecord, t.task.log[i]? = some r ∧
      t.log.calls[n]? = some (r.call t.task.bufSize) := by
  obtain ⟨r,hr,hc⟩ := h.calls i n hi
  exact ⟨r,prefix_getElem? htask hr,by rw [hsize]; exact prefix_getElem? hcalls hc⟩

/-- The stdin task begins the call of its next record. -/
theorem Mine.enter (h : Mine s) (inv : LogInv s.log) {r : StdinRecord}
    (hr : s.task.log[s.mine.length]? = some r) (htask : t.task = s.task)
    (hlog : t.log = s.log.enter (some none) (r.call s.task.bufSize))
    (hmine : t.mine = s.mine ++ [s.log.calls.length]) : Mine t := by
  have hfresh : s.log.calls.length ∉ s.mine := fun hn => Nat.lt_irrefl _ (h.lt hn)
  have hcalls : t.log.calls = s.log.calls ++ [r.call s.task.bufSize] := by
    rw [hlog]
    rfl
  refine ⟨fun i n hi => ?_,fun w n c pc hw hn => ?_,fun n c pc hw => ?_,?_,?_⟩
  · rw [hmine] at hi
    by_cases hlt : i<s.mine.length
    · rw [List.getElem?_append_left hlt] at hi
      exact h.grow (by rw [htask]) (by rw [htask])
        (by rw [hcalls]; exact List.prefix_append _ _) hi
    · obtain rfl : i = s.mine.length := by
        have := (List.getElem?_eq_some_iff.mp hi).1
        rw [List.length_append,List.length_singleton] at this
        omega
      rw [List.getElem?_concat_length,Option.some.injEq] at hi
      subst hi
      rw [htask,hcalls,List.getElem?_concat_length]
      exact ⟨r,hr,rfl⟩
  · rw [hlog] at hw
    rw [hmine,List.mem_append,List.mem_singleton] at hn
    obtain hw | ⟨-,rfl⟩ := enter_inside hw
    · obtain hn | rfl := hn
      · exact h.apart w n c pc hw hn
      · have := (List.getElem?_eq_some_iff.mp (inv.accounts.known w _ c pc hw).1).1
        exact absurd this (Nat.lt_irrefl _)
    · rfl
  · rw [hlog] at hw
    have hin : (s.log.enter (some none) (r.call s.task.bufSize)).alog (some none) =
        .inside s.log.calls.length (r.call s.task.bufSize) .level := by
      simp [AsyncLog.enter,AsyncLog.setAlog]
    rw [hin] at hw
    cases hw
    rw [hmine,List.getLast?_concat]
  · have hsent : t.sent = s.sent := by
      have hkeep : t.log.sent = s.log.sent := by
        rw [hlog]
        rfl
      rw [LoggedStdin.sent,LoggedStdin.sent,hkeep,hmine]
      refine List.filter_congr fun p hp => ?_
      have hlt := (inv.accounts.settled p.1 (List.mem_append_left _ (List.mem_map_of_mem hp))).1
      simp [Nat.ne_of_lt hlt]
    rw [hsent,hmine]
    exact h.order.trans (List.sublist_append_left _ _)
  · rw [hmine]
    refine List.nodup_append.mpr ⟨h.nodup,List.nodup_singleton _,fun n hn m hm => ?_⟩
    rw [List.mem_singleton.mp hm]
    rintro rfl
    exact hfresh hn

theorem Mine.sent_snoc (h : Mine s) (inv : LogInv s.log) {w : Option (Option ι)} {n mark : ℕ}
    {c : LogCall} {msg : LogMessage} (hw : s.log.alog w = .inside n c (.send msg mark)) :
    (((s.log.sent ++ [(n,msg)]).filter (·.1 ∈ s.mine)).map Prod.fst).Sublist s.mine := by
  rw [List.filter_append]
  by_cases hn : n ∈ s.mine
  · obtain rfl := h.apart w n c _ hw hn
    obtain ⟨front,hfront⟩ := List.getLast?_eq_some_iff.mp (h.last n c _ hw)
    have hfresh : n ∉ s.sent.map Prod.fst := fun hm => inv.accounts.fresh hw
      (List.mem_append_left _ (List.map_subset _ List.filter_sublist.subset hm))
    have hnot : n ∉ front := by
      have hnodup := h.nodup
      rw [hfront] at hnodup
      exact fun hm => (List.nodup_append.mp hnodup).2.2 n hm n (List.mem_singleton_self n) rfl
    -- the call is the last one begun, so what was sent before is of the calls in front of it
    have hbefore : (s.sent.map Prod.fst).Sublist front := by
      have hsub := h.order.filter (· ≠ n)
      rw [hfront,List.filter_append,List.filter_eq_self.mpr fun m hm => ?_,
        List.filter_eq_self.mpr fun m hm => ?_] at hsub
      · simpa using hsub
      · exact decide_eq_true fun he => hnot (he ▸ hm)
      · exact decide_eq_true fun he => hfresh (he ▸ hm)
    have hgoal := hbefore.append (List.Sublist.refl [n])
    rw [←hfront] at hgoal
    simpa [hn,LoggedStdin.sent] using hgoal
  · simpa [hn,LoggedStdin.sent] using h.order

theorem Mine.log (h : Mine s) (inv : LogInv s.log) {b : LogAction (Option ι)}
    (hb : ∀ c, b ≠ .call none c) (hs : s.log.next fifoLog b = some t.log) (htask : t.task = s.task)
    (hmine : t.mine = s.mine) : Mine t := by
  refine ⟨fun i n hi => ?_,fun w n c pc hw hn => ?_,fun n c pc hw => ?_,?_,by rw [hmine]; exact h.nodup⟩
  · exact h.grow (by rw [htask]) (by rw [htask]) (next_calls hs)
      (hmine ▸ hi)
  · rw [hmine] at hn
    obtain ⟨pd,hw⟩ | ⟨rfl,-⟩ := next_inside hs hw
    · exact h.apart w n c pd hw hn
    · exact absurd (h.lt hn) (Nat.lt_irrefl _)
  · rw [hmine]
    obtain ⟨pd,hw⟩ | ⟨-,hnone | ⟨u,d,hu,rfl⟩⟩ := next_inside hs hw
    · exact h.last n c pd hw
    · cases hnone
    · cases hu
      exact absurd rfl (hb d)
  · rw [LoggedStdin.sent,hmine]
    obtain ⟨hsent,-⟩ | ⟨w,n,c,msg,mark,rfl,hw,-,hsent⟩ := next_sent hs
    · rw [hsent]
      exact h.order
    · rw [hsent]
      exact h.sent_snoc inv hw

theorem Mine.next {M : Machine StdinTask StdinInput}
    (hM : ∀ s a t, M.next s a = some t → s.log <+: t.log ∧ t.bufSize = s.bufSize) (h : Mine s)
    (inv : LogInv s.log) (hs : LoggedStdin.next M s a = some t) : Mine t := by
  obtain ⟨b,-,htask,hlog,hmine⟩ | ⟨r,-,hr,-,htask,hlog,hmine⟩ | ⟨b,-,hb,hlog,htask,hmine⟩ :=
    LoggedStdin.next_cases hs
  · obtain ⟨hpre,hsize⟩ := hM _ _ _ htask
    refine ⟨fun i n hi => ?_,by rw [hlog,hmine]; exact h.apart,by rw [hlog,hmine]; exact h.last,
      by rw [LoggedStdin.sent,hlog,hmine]; exact h.order,by rw [hmine]; exact h.nodup⟩
    exact h.grow hpre hsize (by rw [hlog]) (hmine ▸ hi)
  · exact h.enter inv hr htask hlog hmine
  · exact h.log inv hb hlog htask hmine

end Mine

section Printed
variable {ι : Type*} [DecidableEq ι] {capacity : ℕ} {s : LoggedStdin ι capacity}
  {tr : List (LoggedStdin ι capacity × LoggedAction ι)} {lines : List (List UInt8)}
  {bufSize : UInt64}

theorem terminal_prefix (s : StdinTask) (a : StdinInput) (t : StdinTask)
    (h : (terminal lines bufSize).next s a = some t) : s.log <+: t.log ∧ t.bufSize = s.bufSize := by
  simp only [terminal] at h
  split_ifs at h
  exact StdinTask.next_prefix h

theorem Mine.run (run : Exec (LoggedStdin.machine (terminal lines bufSize)) tr s)
    (quiet : Meets LoggedStdin.Quiet tr) : Mine s := by
  induction run with
  | init h =>
    obtain ⟨-,⟨clock,hclock⟩,hmine⟩ := h
    refine ⟨fun i n hi => ?_,fun w n c pc hw => ?_,fun n c pc hw => ?_,?_,?_⟩
    · rw [hmine] at hi
      cases hi
    · rw [hclock] at hw
      cases hw
    · rw [hclock] at hw
      cases hw
    · rw [LoggedStdin.sent,hclock]
      exact List.nil_sublist _
    · rw [hmine]
      exact List.nodup_nil
  | step run hs ih =>
    have hquiet := (meets_snoc.mp quiet).1
    obtain ⟨tr',run',quiet'⟩ := LoggedStdin.exec_log run hquiet
    exact (ih hquiet).next terminal_prefix (LogInv.draining run' quiet').1 hs

theorem Mine.length_le (h : Mine s) : s.mine.length ≤ s.task.log.length := by
  cases hm : s.mine.length with
  | zero => exact Nat.zero_le _
  | succ m =>
    obtain ⟨n,hn⟩ : ∃ n, s.mine[m]? = some n := ⟨_,List.getElem?_eq_getElem (by omega)⟩
    obtain ⟨r,hr,-⟩ := h.calls m n hn
    exact (List.getElem?_eq_some_iff.mp hr).1

/-- Lists that agree under two maps agree under two others, where the maps tell these. -/
theorem map_eq_of_map_eq {α β γ δ : Type*} {f : α → γ} {g : β → γ} {F : α → δ} {G : β → δ}
    {l : List α} {m : List β} (h : l.map f = m.map g)
    (hF : ∀ x ∈ l, ∀ y ∈ m, f x = g y → F x = G y) : l.map F = m.map G := by
  induction l generalizing m with
  | nil =>
    rw [List.map_nil,eq_comm,List.map_eq_nil_iff] at h
    rw [h]
    rfl
  | cons x l ih =>
    cases m with
    | nil => cases h
    | cons y m =>
      simp only [List.map_cons,List.cons.injEq] at h ⊢
      exact ⟨hF x List.mem_cons_self y List.mem_cons_self h.1,ih h.2 fun x hx y hy =>
        hF x (List.mem_cons_of_mem _ hx) y (List.mem_cons_of_mem _ hy)⟩

theorem StdinRecord.enabled (r : StdinRecord) : (r.call bufSize).enabled = true := by
  cases r <;> rfl

/-- Each call of the stdin task is among those sent or among those dropped. -/
theorem Mine.settled (h : Mine s) (inv : LogInv s.log) (drain : Draining s.log)
    (done : s.log.done = true) : s.sent.length+s.dropped.length = s.mine.length := by
  have hfst : s.sent.map Prod.fst = (s.log.sent.map Prod.fst).filter (· ∈ s.mine) := by
    rw [LoggedStdin.sent,List.filter_map]
    rfl
  have hperm : (s.sent.map Prod.fst ++ s.dropped).Perm s.mine := by
    have hall : s.sent.map Prod.fst ++ s.dropped =
        (s.log.sent.map Prod.fst ++ s.log.reported).filter (· ∈ s.mine) := by
      rw [List.filter_append,hfst,LoggedStdin.dropped]
    rw [hall]
    refine (List.perm_ext_iff_of_nodup (inv.accounts.once.filter _) h.nodup).mpr fun n => ?_
    rw [List.mem_filter,decide_eq_true_eq]
    refine and_iff_right_of_imp fun hn => ?_
    obtain ⟨i,hi⟩ := List.mem_iff_getElem?.mp hn
    obtain ⟨r,-,hr⟩ := h.calls i n hi
    obtain ⟨time,hsent⟩ | hdropped :=
      (inv.drained drain (drain.done done)).2 n _ hr (StdinRecord.enabled r)
    · exact List.mem_append_left _ (List.mem_map_of_mem hsent)
    · exact List.mem_append_right _ hdropped
  have hlen := hperm.length_eq
  rwa [List.length_append,List.length_map] at hlen

/-- A call that was sent is sent as its record. -/
theorem LogInv.sent_eq {κ : Type*} [DecidableEq κ]
    {s : AsyncLog κ (BoundedFifo LogMessage capacity)} (inv : LogInv s) (drain : Draining s)
    (done : s.done = true) {n : ℕ} {c : LogCall} {msg : LogMessage} (hn : (n,msg) ∈ s.sent)
    (hc : s.calls[n]? = some c) (hen : c.enabled = true) : msg.untimed = c.record 0 := by
  have honce := List.nodup_append.mp inv.accounts.once
  obtain ⟨time,hsent⟩ | hdropped := (inv.drained drain (drain.done done)).2 n c hc hen
  · have he := List.inj_on_of_nodup_map honce.1 hn hsent rfl
    cases he
    rfl
  · exact absurd rfl (honce.2.2 n (List.mem_map_of_mem (f := Prod.fst) hn) n hdropped)

/-- When the log task has ended, what the stdin task has logged is printed in its order, but for the
records that found the queue full, which are counted; and what it has logged tells, line by line, of
what was typed. -/
theorem typed_lines_printed (hsize : 2 ≤ bufSize.toNat) (hlines : ∀ l ∈ lines, 0 ∉ l ∧ 10 ∉ l)
    (run : Exec (LoggedStdin.machine (terminal lines bufSize)) tr s)
    (quiet : Meets LoggedStdin.Quiet tr) (whole : Meets LoggedStdin.ReadsWhole tr)
    (done : s.log.done = true) :
    Framed lines s.task ∧ s.log.printed = s.log.sent.map Prod.snd ∧
    ∃ kept : List StdinRecord, kept.Sublist (s.task.log.take s.mine.length) ∧
      s.sent.map (·.2.untimed) = kept.map (fun r => (r.call s.task.bufSize).record 0) ∧
      kept.length+s.dropped.length = s.mine.length := by
  have h := Mine.run run quiet
  obtain ⟨tr',run',quiet'⟩ := LoggedStdin.exec_log run quiet
  obtain ⟨inv,drain⟩ := LogInv.draining run' quiet'
  obtain ⟨tr'',run'',whole''⟩ := LoggedStdin.exec_task run whole
  have hframed : FramingInv lines bufSize s.task :=
    run''.invariant (fun _ hs => .init hs) (fun _ _ _ h hw hn => (h.next hsize hlines hn).1 hw)
      whole''
  refine ⟨hframed.framed,(inv.drained drain (drain.done done)).1,?_⟩
  have hlen : s.mine.length = (s.task.log.take s.mine.length).length := by
    rw [List.length_take_of_le h.length_le]
  have hfst : (s.mine.zip (s.task.log.take s.mine.length)).map Prod.fst = s.mine :=
    List.map_fst_zip hlen.le
  have hsnd : (s.mine.zip (s.task.log.take s.mine.length)).map Prod.snd =
      s.task.log.take s.mine.length := List.map_snd_zip hlen.ge
  obtain ⟨kept,hkept,hmap⟩ := List.sublist_map_iff.mp (hfst.symm ▸ h.order)
  refine ⟨kept.map Prod.snd,hsnd ▸ hkept.map Prod.snd,?_,?_⟩
  · rw [List.map_map]
    refine map_eq_of_map_eq hmap fun p hp q hq he => ?_
    obtain ⟨i,hi⟩ := List.mem_iff_getElem?.mp (hkept.subset hq)
    obtain ⟨hmine,hlog⟩ := List.getElem?_zip_eq_some.mp hi
    obtain ⟨r,hr,hc⟩ := h.calls i q.1 hmine
    have hq2 : q.2 = r := by
      have hlt : i<s.mine.length := (List.getElem?_eq_some_iff.mp hmine).1
      rw [List.getElem?_take_of_lt hlt,hr,Option.some.injEq] at hlog
      exact hlog.symm
    rw [←he,←hq2] at hc
    exact inv.sent_eq drain done (List.mem_of_mem_filter hp) hc (StdinRecord.enabled q.2)
  · have hsent := congrArg List.length hmap
    rw [List.length_map,List.length_map] at hsent
    rw [List.length_map,←hsent]
    exact h.settled inv drain done

end Printed

instance {n capacity : ℕ} (s : LoggedStdin (Fin n) capacity) : (a : LoggedAction (Fin n)) →
    Decidable (s.Quiet a)
  | .log .stop => decidable_of_iff (s.log.alog (some none) = .idle ∧
      ∀ t, s.log.alog (some (some t)) = .idle)
      (Option.forall (p := fun t => s.log.alog (some t) = .idle)).symm
  | .log (.call _ _) | .enter => inferInstanceAs (Decidable (s.log.stopped = false))
  | .log (.alog _) | .log .task | .log (.poll _) | .log (.tick _) | .stdin _ => isTrue trivial

instance {n capacity : ℕ} (s : LoggedStdin (Fin n) capacity) : (a : LoggedAction (Fin n)) →
    Decidable (s.ReadsWhole a)
  | .stdin a => inferInstanceAs (Decidable (Whole s.task a))
  | .log _ | .enter => isTrue trivial

/-- A line is typed and taken in. The queue has room for the four records of the stdin task and one of
the log task. -/
def oneLineRun : List (LoggedAction (Fin 1)) :=
  let logged := .enter::List.replicate 5 (.log (.alog (some none)))
  List.flatten [logged,[.stdin .test,.stdin (.poll .ready []),.stdin (.read (.bytes 3))],
    logged,[.stdin .stop,.stdin .test],logged,logged,[.log .stop,.log .task],
    List.replicate 5 (.log (.alog none)),List.replicate 4 (.log .task),
    List.replicate 6 (.log (.alog none)),List.replicate 14 (.log .task)]

def oneLine : LoggedStdin (Fin 1) 5 :=
  ⟨.start 5 (fun _ => 0) (typed [cBytes "hi"]),.start BoundedFifo.empty 0,[]⟩

theorem typed_lines_printed_oneLine : ∃ tr, ∃ s : LoggedStdin (Fin 1) 5,
    Exec (LoggedStdin.machine (terminal [cBytes "hi"] 5)) tr s ∧ s.log.done = true ∧
    s.task.log = [.ready,.received (cBytes "hi"),.exiting,.markedDone] ∧ s.dropped = [] ∧
    ∃ kept : List StdinRecord, kept.Sublist (s.task.log.take s.mine.length) ∧
      kept.length+s.dropped.length = s.mine.length := by
  have hv : ((LoggedStdin.machine (terminal [cBytes "hi"] 5)).run oneLine oneLineRun).map
      (fun s => (s.log.done,s.task.log,s.dropped)) =
      some (true,[.ready,.received (cBytes "hi"),.exiting,.markedDone],[]) := by decide +kernel
  obtain ⟨s,hs,hr⟩ := Option.map_eq_some_iff.mp hv
  simp only [Prod.mk.injEq] at hr
  have run := Exec.of_run (M := LoggedStdin.machine (terminal [cBytes "hi"] 5))
    ⟨terminal_init _ _,AsyncLog.start_init _ _ 0,rfl⟩ hs
  obtain ⟨-,-,kept,hkept,-,hlen⟩ :=
    typed_lines_printed (by decide) (by decide) run (by decide +kernel) (by decide +kernel) hr.1
  exact ⟨_,s,run,hr.1,hr.2.1,hr.2.2,kept,hkept,hlen⟩

end TTK4145.Rtsystem
