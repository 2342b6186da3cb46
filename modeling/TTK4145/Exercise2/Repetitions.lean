import TTK4145.Lib.Countdown
import TTK4145.Exercise2.SenderWidths
import TTK4145.Exercise2.UdpReceiver
import TTK4145.Exercise2.TcpReceiver

/-! The repetition counter in the loops of `udp_tcp_sender`, `udp_receiver` and `tcp_receiver`: how
many messages each handles in runs without a signal and without an error, where calls may still be
interrupted. -/
namespace TTK4145.Exercise2
open Lib

namespace UdpTcpSender

/-- No signal, and no failure but an interrupted `send`. -/
def Quiet : SenderAction → Prop
  | .signal | .send .error => False
  | .resolve err => err = 0
  | .setup ok => ok = true
  | _ => True

/-- The law of the program for `r` repetitions. -/
def Counts (r : ℤ) (s : UdpTcpSender) : Prop := CountsExactly r s.sentCount s.Exited

end UdpTcpSender

namespace UdpReceiver

def Quiet : ReceiverAction → Prop
  | .signal | .recv .error => False
  | _ => True

/-- The datagrams handled so far. -/
def handledCount (s : UdpReceiver) : ℕ := s.log.countP ReceiverLine.isReceived

def Exited (s : UdpReceiver) : Prop := s.pc.isExited = true

def Counts (r : ℤ) (s : UdpReceiver) : Prop := CountsExactly r s.handledCount s.Exited

end UdpReceiver

namespace TcpReceiver

def Quiet : TcpAction → Prop
  | .signal | .accept .error | .recv .error => False
  | _ => True

/-- The chunks handled so far, of all clients. -/
def handledCount (s : TcpReceiver) : ℕ := (s.connections.flatMap (·.chunks)).length

/-- The program is over, or about to fail the test of its outer loop. -/
def Over (s : TcpReceiver) : Prop := s.stage = .exited ∨ s.stage = .test ∧ s.running = false

def Counts (r : ℤ) (s : TcpReceiver) : Prop := CountsExactly r s.handledCount s.Over

end TcpReceiver

/-- The values of `tcp_receiver` that decide about its loops. -/
structure TcpValues where
  bufferSize : ℤ
  repetitions : ℤ
  handled : ℕ
  running : Bool

def TcpReceiver.values (s : TcpReceiver) : TcpValues :=
  ⟨s.bufferSize,s.repetitions,s.handledCount,s.running⟩

section Sender
variable {opts : List SenderOption} {c : SenderConfig} {r : ℤ}
  {tr : List (UdpTcpSender × SenderAction)} {s t : UdpTcpSender} {a : SenderAction}

/-- The invariant of a quiet run for `r` repetitions. -/
structure UdpTcpSender.Repeats (r : ℤ) (s : UdpTcpSender) : Prop where
  running : s.running = true
  counting : Counting r s.repetitions s.sentCount s.Exited

theorem sender_start_repeats (h : c.repetitions ≠ 0) :
    (UdpTcpSender.start c).Repeats c.repetitions := by
  refine ⟨rfl,?_⟩
  rw [start_sentCount]
  apply (Counting.start h).congr
  exact iff_of_false Bool.false_ne_true id

/-- A quiet step that sends nothing goes on. -/
theorem sender_quiet_going (hr : s.running = true) (hq : UdpTcpSender.Quiet a)
    (hsent : ∀ bytes, a ≠ .send (.sent bytes)) (hs : s.next a = some t) :
    t.running = true ∧ ¬s.Exited ∧ ¬t.Exited := by
  have going : ∀ {u : UdpTcpSender} {stage : SenderStage}, u.stage = stage →
      stage.isExited = false → ¬u.Exited := by
    intro u stage hu hstage hexited
    rw [UdpTcpSender.Exited,hu,hstage] at hexited
    cases hexited
  cases a with
  | signal => cases hq
  | resolve err =>
    change err = 0 at hq
    subst hq
    simp only [UdpTcpSender.next] at hs
    split_ifs at hs with hstage
    cases hs
    exact ⟨hr,going hstage rfl,going rfl rfl⟩
  | setup ok =>
    change ok = true at hq
    subst hq
    simp only [UdpTcpSender.next] at hs
    split at hs
    · next hstage =>
      cases hs
      simp only [UdpTcpSender.stepSocket,Bool.not_true,Bool.false_eq_true,if_false]
      split
      · exact ⟨hr,going hstage rfl,going rfl rfl⟩
      · exact ⟨hr,going hstage rfl,going rfl rfl⟩
    · next hstage =>
      cases hs
      exact ⟨hr,going hstage rfl,going rfl rfl⟩
    · next hstage =>
      cases hs
      exact ⟨hr,going hstage rfl,going rfl rfl⟩
    · cases hs
  | test =>
    simp only [UdpTcpSender.next,hr,if_true] at hs
    split_ifs at hs with hstage
    cases hs
    exact ⟨hr,going hstage rfl,going rfl rfl⟩
  | send r =>
    simp only [UdpTcpSender.next] at hs
    split_ifs at hs with hstage
    cases hs
    cases r with
    | sent bytes => exact absurd rfl (hsent bytes)
    | interrupted => exact ⟨hr,going hstage rfl,going rfl rfl⟩
    | error => cases hq
  | wake =>
    simp only [UdpTcpSender.next] at hs
    split_ifs at hs with hstage
    cases hs
    exact ⟨hr,going hstage rfl,going rfl rfl⟩

theorem UdpTcpSender.Repeats.handle (h : s.Repeats r) (hgoing : ¬s.Exited) (bytes : ℕ) :
    (s.handle bytes).Repeats r := by
  obtain ⟨-,hrepetitions,hcount,hrunning,hexited,-⟩ := UdpTcpSender.handle_spec s bytes
  refine ⟨hrunning.trans h.running,?_⟩
  rw [hrepetitions,hcount]
  exact (h.counting.round hgoing).congr hexited

theorem UdpTcpSender.Repeats.next (h : s.Repeats r) (hq : UdpTcpSender.Quiet a)
    (hs : s.next a = some t) : t.Repeats r := by
  by_cases hsent : ∃ bytes, a = .send (.sent bytes)
  · obtain ⟨bytes,rfl⟩ := hsent
    simp only [UdpTcpSender.next] at hs
    split_ifs at hs with hstage
    cases hs
    have hgoing : ¬s.Exited := by
      rw [UdpTcpSender.Exited,hstage]
      exact Bool.false_ne_true
    have hcall : (s.call (.send s.config.protocol (cSize s.config.msgSize))).Repeats r :=
      ⟨h.running,h.counting⟩
    exact hcall.handle hgoing bytes
  · have hne : ∀ bytes, a ≠ .send (.sent bytes) := fun bytes ha => hsent ⟨bytes,ha⟩
    obtain ⟨hrunning,hse,hte⟩ := sender_quiet_going h.running hq hne hs
    rcases UdpTcpSender.next_cases hs with ⟨bytes,ha,-⟩ | hst
    · exact absurd ha (hne bytes)
    · refine ⟨hrunning,?_⟩
      rw [hst.repetitions,hst.sentCount]
      exact h.counting.congr (iff_of_false hte hse)

theorem sender_counts_iff (h : SenderConfig.default.options opts = .ok c) :
    (∀ tr s, Exec (UdpTcpSender.machine opts) tr s → Meets (fun _ => UdpTcpSender.Quiet) tr →
      s.Counts c.repetitions) ↔ c.repetitions ≠ 0 := by
  constructor
  · intro hall hzero
    obtain ⟨s,hs,-,hcount,-,-⟩ := run_firstMessage opts c
    have hquiet : ∀ a ∈ firstMessage, UdpTcpSender.Quiet a := by
      simp [firstMessage,UdpTcpSender.Quiet]
    have hcounts := hall _ s (Exec.of_run ⟨c,h,rfl⟩ hs) (meets_trace hquiet)
    rw [hzero,UdpTcpSender.Counts,hcount] at hcounts
    exact not_countsExactly_zero_one hcounts
  · intro hne tr s run quiet
    have hrepeats : s.Repeats c.repetitions := by
      apply run.invariant _ _ quiet
      · rintro s ⟨d,hd,rfl⟩
        rw [h] at hd
        cases hd
        exact sender_start_repeats hne
      · intro s a t hr hq hs
        exact hr.next hq hs
    exact hrepeats.counting.exact

end Sender

section Udp
variable {args : ReceiverArgs} {r : ℤ} {tr : List (UdpReceiver × ReceiverAction)}
  {s t : UdpReceiver} {a : ReceiverAction}

structure UdpReceiver.Repeats (r : ℤ) (s : UdpReceiver) : Prop where
  running : s.running = true
  counting : Counting r s.repetitions s.handledCount s.Exited

/-- A datagram counts down, and ends the loop or not. -/
theorem udp_handle_spec (s : UdpReceiver) (payload : List UInt8) :
    (s.handle payload).repetitions = tick s.repetitions ∧
    (s.handle payload).handledCount = s.handledCount+1 ∧
    (s.handle payload).running = s.running ∧
    ((s.handle payload).Exited ↔ tick s.repetitions = 0) := by
  obtain ⟨-,-,hrepetitions,hrunning,hpc,hcount⟩ := handle_spec s payload
  refine ⟨hrepetitions,hcount,hrunning,?_⟩
  rw [UdpReceiver.Exited,hpc]
  change (if tick s.repetitions = 0 then ReceiverPc.exited 0 else .test).isExited = true ↔ _
  split_ifs with h
  · exact iff_of_true rfl h
  · exact iff_of_false Bool.false_ne_true h

theorem UdpReceiver.Repeats.next (h : s.Repeats r) (hq : UdpReceiver.Quiet a)
    (hs : s.next a = some t) : t.Repeats r := by
  cases a with
  | signal => cases hq
  | test =>
    simp only [UdpReceiver.next,h.running,if_true] at hs
    split_ifs at hs with hpc
    cases hs
    refine ⟨rfl,h.counting.congr (iff_of_false Bool.false_ne_true ?_)⟩
    rw [UdpReceiver.Exited,hpc]
    exact Bool.false_ne_true
  | recv outcome =>
    simp only [UdpReceiver.next] at hs
    split_ifs at hs with hpc
    have hgoing : ¬s.Exited := by
      rw [UdpReceiver.Exited,hpc]
      exact Bool.false_ne_true
    cases outcome with
    | datagram payload =>
      cases hs
      obtain ⟨hrepetitions,hcount,hrunning,hexited⟩ := udp_handle_spec s payload
      refine ⟨hrunning.trans h.running,?_⟩
      rw [hrepetitions,hcount]
      exact (h.counting.round hgoing).congr hexited
    | interrupted =>
      cases hs
      exact ⟨h.running,h.counting.congr (iff_of_false Bool.false_ne_true hgoing)⟩
    | error => cases hq

theorem udp_counts_iff (h : args.Accepted) :
    (∀ tr s, Exec (UdpReceiver.machine args) tr s → Meets (fun _ => UdpReceiver.Quiet) tr →
      s.Counts args.repetitionCount) ↔ args.repetitionCount ≠ 0 := by
  constructor
  · intro hall hzero
    have hrun : (UdpReceiver.machine args).run (.cleared args) [.test,.recv (.datagram [])] =
        some ({UdpReceiver.cleared args with pc := .recv}.handle []) := rfl
    have hquiet : ∀ a ∈ [ReceiverAction.test,.recv (.datagram [])], UdpReceiver.Quiet a := by
      simp [UdpReceiver.Quiet]
    have hcounts := hall _ _ (Exec.of_run (cleared_init h) hrun) (meets_trace hquiet)
    obtain ⟨-,hcount,-,-⟩ := udp_handle_spec {UdpReceiver.cleared args with pc := .recv} []
    rw [hzero,UdpReceiver.Counts,hcount] at hcounts
    exact not_countsExactly_zero_one hcounts
  · intro hne tr s run quiet
    have hrepeats : s.Repeats args.repetitionCount := by
      apply run.invariant _ _ quiet
      · rintro s ⟨-,mem,rfl⟩
        exact ⟨rfl,(Counting.start hne).congr (iff_of_false Bool.false_ne_true id)⟩
      · intro s a t hr hq hs
        exact hr.next hq hs
    exact hrepeats.counting.exact

end Udp

section Tcp
variable {args : ReceiverArgs} {r : ℤ} {tr : List (TcpReceiver × TcpAction)}
  {s t : TcpReceiver} {a : TcpAction} {c : Connection} {k : ℕ} {P : TcpValues → Prop}

/-- The chunks of the earlier clients and of the present one. -/
theorem handledCount_eq (client : List Connection) (hs : s.stage.client = client) :
    s.handledCount = (s.past.flatMap (·.chunks)).length+(client.flatMap (·.chunks)).length := by
  rw [TcpReceiver.handledCount,TcpReceiver.connections,hs,List.flatMap_append,List.length_append]

theorem handledCount_leave (s : TcpReceiver) (c : Connection) (e : Ending) :
    (s.leave c e).handledCount = (s.past.flatMap (·.chunks)).length+c.chunks.length := by
  rw [handledCount_eq [] rfl]
  simp [TcpReceiver.leave,TcpReceiver.goto]

/-- What is said of the values of the loops, beside the law that the loops are left when they are
stopped, and only then. -/
structure TcpReceiver.Loops (P : TcpValues → Prop) (s : TcpReceiver) : Prop where
  values : P s.values
  stopped : s.running = false → s.stage = .test ∨ s.stage = .exited
  exited : s.stage = .exited → s.running = false

namespace TcpReceiver.Loops

theorem over_iff (h : s.Loops P) : s.Over ↔ s.running = false := by
  constructor
  · rintro (hexited | ⟨-,hrunning⟩)
    · exact h.exited hexited
    · exact hrunning
  · intro hrunning
    rcases h.stopped hrunning with htest | hexited
    · exact .inr ⟨htest,hrunning⟩
    · exact .inl hexited

/-- Inside of the loops nothing has stopped them. -/
theorem running (h : s.Loops P) (htest : s.stage ≠ .test) (hexited : s.stage ≠ .exited) :
    s.running = true := by
  rw [← Bool.not_eq_false]
  intro hrunning
  rcases h.stopped hrunning with hs | hs
  · exact htest hs
  · exact hexited hs

/-- A step inside of the loops that handles no chunk. -/
theorem keep (h : s.Loops P) (hs : s.running = true) (hvalues : t.values = s.values)
    (ht : t.stage ≠ .exited) : t.Loops P := by
  have htrue : t.running = true := (congrArg TcpValues.running hvalues).trans hs
  refine ⟨hvalues.symm ▸ h.values,fun hfalse => ?_,fun hexited => absurd hexited ht⟩
  rw [htrue] at hfalse
  cases hfalse

/-- Another statement is next, with the chunks of the present client as they are. -/
theorem goto {stage : TcpStage} (h : s.Loops P) (hs : s.running = true)
    (hchunks : stage.client.flatMap (·.chunks) = s.stage.client.flatMap (·.chunks))
    (hexited : stage ≠ .exited) : (s.goto stage).Loops P := by
  have hcount : (s.goto stage).handledCount = s.handledCount := by
    rw [handledCount_eq stage.client rfl,handledCount_eq _ rfl,hchunks]
    rfl
  exact h.keep hs (by rw [TcpReceiver.values,hcount]; rfl) hexited

theorem report (h : s.Loops P) (line : TcpLine) : (s.report line).Loops P :=
  ⟨h.values,h.stopped,h.exited⟩

/-- A client is left, without a chunk, while the loops run. -/
theorem leave (h : s.Loops P) (hclient : s.stage.client = [c]) (hrunning : s.running = true)
    (e : Ending) : (s.leave c e).Loops P := by
  have hcount : (s.leave c e).handledCount = s.handledCount := by
    rw [handledCount_leave,handledCount_eq _ hclient]
    simp
  exact h.keep hrunning (by rw [TcpReceiver.values,hcount]; rfl)
    (by simp [TcpReceiver.leave,TcpReceiver.goto])

theorem finish (h : s.Loops P) (hs : s.stage = .test) (hrunning : s.running = false) :
    s.finish.Loops P := by
  have hfinish : s.finish = (s.goto .exited).report .shutdown := by
    rw [TcpReceiver.finish,hrunning]
    rfl
  have hcount : s.finish.handledCount = s.handledCount := by
    rw [hfinish,handledCount_eq [] rfl,handledCount_eq [] (by rw [hs]; rfl)]
    rfl
  have hvalues : s.finish.values = s.values := by
    rw [TcpReceiver.values,hcount,hfinish]
    rfl
  exact ⟨hvalues.symm ▸ h.values,fun _ => .inr (by rw [hfinish]; rfl),
    fun _ => by rw [hfinish]; exact hrunning⟩

theorem test (h : s.Loops P) (hs : s.next .test = some t) : t.Loops P := by
  cases hstage : s.stage with
  | test =>
    simp only [TcpReceiver.next,hstage,Option.some.injEq] at hs
    subst hs
    cases hrunning : s.running with
    | true => exact (h.goto hrunning (by rw [hstage]; rfl) (by simp)).report _
    | false => exact h.finish hstage hrunning
  | innerTest c =>
    have hrunning : s.running = true := h.running (by rw [hstage]; simp) (by rw [hstage]; simp)
    simp only [TcpReceiver.next,hstage,hrunning,if_true,Option.some.injEq] at hs
    subst hs
    exact h.goto hrunning (by rw [hstage]; rfl) (by simp)
  | accept | recv c | exited =>
    simp only [TcpReceiver.next,hstage] at hs
    cases hs

theorem accept {outcome : AcceptOutcome} (h : s.Loops P) (hq : outcome ≠ .error)
    (hs : s.next (.accept outcome) = some t) : t.Loops P := by
  cases hstage : s.stage with
  | accept =>
    have hrunning : s.running = true := h.running (by rw [hstage]; simp) (by rw [hstage]; simp)
    cases outcome with
    | connected =>
      simp only [TcpReceiver.next,hstage,Option.some.injEq] at hs
      subst hs
      exact (h.goto hrunning (by rw [hstage]; rfl) (by simp)).report _
    | interrupted =>
      simp only [TcpReceiver.next,hstage,Option.some.injEq] at hs
      subst hs
      exact h.goto hrunning (by rw [hstage]; rfl) (by simp)
    | error => exact absurd rfl hq
  | test | innerTest c | recv c | exited =>
    simp only [TcpReceiver.next,hstage] at hs
    cases hs

theorem client {e : ClientEvent} (h : s.Loops P) (hs : s.next (.client e) = some t) :
    t.Loops P := by
  have hchunks : ∀ c : Connection, (c.event e).chunks = c.chunks := by
    intro c
    cases e <;> rfl
  cases hstage : s.stage with
  | innerTest c | recv c =>
    have hrunning : s.running = true := h.running (by rw [hstage]; simp) (by rw [hstage]; simp)
    simp only [TcpReceiver.next,hstage] at hs
    split_ifs at hs
    cases hs
    exact h.goto hrunning (by rw [hstage]; simp [TcpStage.client,hchunks]) (by simp)
  | test | accept | exited =>
    simp only [TcpReceiver.next,hstage] at hs
    cases hs

theorem recv {outcome : RecvOutcome} (h : s.Loops P)
    (hhandle : ∀ c k, s.stage = .recv c → c.Recv s.room k → k ≠ 0 → (s.handle c k).Loops P)
    (hq : outcome ≠ .error) (hs : s.next (.recv outcome) = some t) : t.Loops P := by
  cases hstage : s.stage with
  | recv c =>
    have hclient : s.stage.client = [c] := by rw [hstage]; rfl
    have hrunning : s.running = true := h.running (by rw [hstage]; simp) (by rw [hstage]; simp)
    cases outcome with
    | bytes k =>
      simp only [TcpReceiver.next,hstage] at hs
      split_ifs at hs with hrecv hzero
      · cases hs
        exact (h.report .disconnected).leave hclient hrunning .disconnected
      · cases hs
        exact hhandle c k hstage hrecv hzero
    | interrupted =>
      simp only [TcpReceiver.next,hstage,Option.some.injEq] at hs
      subst hs
      exact h.goto hrunning (by rw [hstage]; rfl) (by simp)
    | error => exact absurd rfl hq
  | test | accept | innerTest c | exited =>
    simp only [TcpReceiver.next,hstage] at hs
    cases hs

/-- A quiet step keeps what the handling of a chunk keeps. -/
theorem next (h : s.Loops P)
    (hhandle : ∀ c k, s.stage = .recv c → c.Recv s.room k → k ≠ 0 → (s.handle c k).Loops P)
    (hq : TcpReceiver.Quiet a) (hs : s.next a = some t) : t.Loops P := by
  cases a with
  | signal => cases hq
  | test => exact h.test hs
  | accept outcome =>
    apply h.accept _ hs
    rintro rfl
    cases hq
  | client e => exact h.client hs
  | recv outcome =>
    apply h.recv hhandle _ hs
    rintro rfl
    cases hq

end TcpReceiver.Loops

/-- A chunk is one more handled, and only the counter at zero stops the loops. -/
theorem tcp_handle_spec (s : TcpReceiver) (hs : s.stage = .recv c) (k : ℕ) :
    (s.handle c k).handledCount = s.handledCount+1 ∧
    (s.handle c k).stage ≠ .exited ∧
    (((s.handle c k).repetitions = 0 ∧ (s.handle c k).running = false ∧
      (s.handle c k).stage = .test) ∨
    ((s.handle c k).repetitions ≠ 0 ∧ (s.handle c k).running = s.running)) := by
  have hcount : s.handledCount+1 =
      (s.past.flatMap (·.chunks)).length+(c.receive k).chunks.length := by
    rw [handledCount_eq [c] (by rw [hs]; rfl)]
    simp [Connection.receive]
    omega
  rw [hcount]
  rcases s.handle_cases c k with ⟨hzero,hstage,hpast,hrunning⟩ | ⟨hzero,hstage,hpast,hrunning⟩
  · rw [handledCount_eq [] (by rw [hstage]; rfl),hpast,hstage]
    exact ⟨by simp,by simp,.inl ⟨hzero,hrunning,rfl⟩⟩
  · rw [handledCount_eq [c.receive k] (by rw [hstage]; rfl),hpast,hstage]
    exact ⟨by simp,by simp,.inr ⟨hzero,hrunning⟩⟩

/-- The values of a quiet run for `r` repetitions. -/
def TcpValues.Repeat (r : ℤ) (v : TcpValues) : Prop :=
  Counting r v.repetitions v.handled (v.running = false)

theorem TcpReceiver.Loops.handle (h : s.Loops (TcpValues.Repeat r)) (hs : s.stage = .recv c)
    (k : ℕ) : (s.handle c k).Loops (TcpValues.Repeat r) := by
  obtain ⟨hcount,hexited,hcase⟩ := tcp_handle_spec s hs k
  have hrepetitions : (s.handle c k).repetitions = tick s.repetitions :=
    (s.handle_fields c k).2.2.2
  have hrunning : s.running = true := h.running (by rw [hs]; simp) (by rw [hs]; simp)
  have hgoing : ¬s.values.running = false := by
    change ¬s.running = false
    rw [hrunning]
    decide
  have hround := h.values.round hgoing
  change Counting r (tick s.repetitions) (s.handledCount+1) (tick s.repetitions = 0) at hround
  rw [← hrepetitions,← hcount] at hround
  rcases hcase with ⟨hzero,hstopped,htest⟩ | ⟨hne,hsame⟩
  · exact ⟨hround.congr (iff_of_true hstopped hzero),fun _ => .inl htest,
      fun he => absurd he hexited⟩
  · have hgoes : (s.handle c k).running = true := hsame.trans hrunning
    refine ⟨hround.congr (iff_of_false ?_ hne),fun hfalse => ?_,fun he => absurd he hexited⟩
    · exact fun hfalse => Bool.false_ne_true (hfalse.symm.trans hgoes)
    · exact absurd (hfalse.symm.trans hgoes) Bool.false_ne_true

/-- With a buffer of one byte there is no room for a chunk. -/
theorem TcpReceiver.no_chunk (hsize : s.bufferSize = 1) (hrecv : c.Recv s.room k) : k = 0 := by
  have hroom : s.room = 0 := by rw [TcpReceiver.room,hsize]; rfl
  have hk := hrecv.1
  rw [hroom] at hk
  exact Nat.le_zero.mp hk

theorem tcp_start_loops {v : TcpReceiver} (hv : (TcpReceiver.machine args).init v)
    (hP : P ⟨args.bufferSize,args.repetitionCount,0,true⟩) : v.Loops P := by
  obtain ⟨-,mem,rfl⟩ := hv
  refine ⟨hP,fun hfalse => ?_,fun hexited => ?_⟩
  · cases hfalse
  · cases hexited

/-- The client sends one byte, which is received. -/
def oneChunk : List TcpAction :=
  [.test,.accept .connected,.client (.send [0]),.test,.recv (.bytes 1)]

theorem run_oneChunk (h : 2 ≤ args.bufferSize) :
    ∃ s, (TcpReceiver.machine args).run (.fresh args) oneChunk = some s ∧ s.handledCount = 1 := by
  let c : Connection := Connection.opened.event (.send [0])
  let u : TcpReceiver := (((((TcpReceiver.fresh args).goto .accept).report .waiting).goto
    (.innerTest .opened)).report .connected).goto (.recv c)
  have hrecv : c.Recv u.room 1 := by
    refine ⟨?_,by decide,fun hzero => ?_⟩
    · change 1 ≤ (args.bufferSize-1).toNat
      omega
    · cases hzero
  have hrun : (TcpReceiver.machine args).run (.fresh args) oneChunk =
      (if c.Recv u.room 1 then some (u.handle c 1) else none).bind some := rfl
  obtain ⟨hcount,-,-⟩ := tcp_handle_spec u rfl 1
  rw [if_pos hrecv] at hrun
  exact ⟨_,hrun,hcount⟩

theorem tcp_counts_iff (h : args.Accepted) :
    (∀ tr s, Exec (TcpReceiver.machine args) tr s → Meets (fun _ => TcpReceiver.Quiet) tr →
      s.Counts args.repetitionCount) ↔ args.repetitionCount ≠ 0 ∨ args.bufferSize = 1 := by
  constructor
  · intro hall
    by_contra hcon
    obtain ⟨hzero,hsize⟩ := not_or.mp hcon
    have hroom : 2 ≤ args.bufferSize := by
      have := h.bufferSize_bounds.1
      omega
    obtain ⟨s,hs,hcount⟩ := run_oneChunk hroom
    have hquiet : ∀ a ∈ oneChunk, TcpReceiver.Quiet a := by
      simp [oneChunk,TcpReceiver.Quiet]
    have hcounts := hall _ s (Exec.of_run (fresh_init h) hs) (meets_trace hquiet)
    rw [not_not.mp hzero,TcpReceiver.Counts,hcount] at hcounts
    exact not_countsExactly_zero_one hcounts
  · intro hor tr s run quiet
    by_cases hne : args.repetitionCount = 0
    · have hloops : s.Loops fun v => v.bufferSize = 1 ∧ v.handled = 0 := by
        apply run.invariant _ _ quiet
        · intro s hs
          exact tcp_start_loops hs ⟨hor.resolve_left (not_not.mpr hne),rfl⟩
        · intro s a t hl hq hs
          apply hl.next _ hq hs
          intro c k _ hrecv hk
          exact absurd (TcpReceiver.no_chunk hl.values.1 hrecv) hk
      have hcount : s.handledCount = 0 := hloops.values.2
      rw [hne,TcpReceiver.Counts,hcount]
      exact CountsExactly.none
    · have hloops : s.Loops (TcpValues.Repeat args.repetitionCount) := by
        apply run.invariant _ _ quiet
        · intro s hs
          exact tcp_start_loops hs ((Counting.start hne).congr (iff_of_false (by simp) id))
        · intro s a t hl hq hs
          exact hl.next (fun c k hc _ _ => hl.handle hc k) hq hs
      have hcounting : Counting args.repetitionCount s.repetitions s.handledCount s.Over :=
        Counting.congr hloops.values hloops.over_iff
      exact hcounting.exact

end Tcp

/-- In quiet runs each program handles as many messages as it is told to, exactly if that is not
none; `tcp_receiver` also if its buffer has no room for a message. -/
theorem repetitions_iff {opts : List SenderOption} {c : SenderConfig} {args : ReceiverArgs}
    (hsender : SenderConfig.default.options opts = .ok c) (hreceiver : args.Accepted) :
    ((∀ tr s, Exec (UdpTcpSender.machine opts) tr s → Meets (fun _ => UdpTcpSender.Quiet) tr →
      s.Counts c.repetitions) ↔ c.repetitions ≠ 0) ∧
    ((∀ tr s, Exec (UdpReceiver.machine args) tr s → Meets (fun _ => UdpReceiver.Quiet) tr →
      s.Counts args.repetitionCount) ↔ args.repetitionCount ≠ 0) ∧
    ((∀ tr s, Exec (TcpReceiver.machine args) tr s → Meets (fun _ => TcpReceiver.Quiet) tr →
      s.Counts args.repetitionCount) ↔ args.repetitionCount ≠ 0 ∨ args.bufferSize = 1) :=
  ⟨sender_counts_iff hsender,udp_counts_iff hreceiver,tcp_counts_iff hreceiver⟩

/-- The receivers started with `-r 2`. -/
def twiceArgs : ReceiverArgs := ⟨none,some (cBytes "2")⟩

/-- Two datagrams with an interrupted call between them. -/
def twoDatagrams : List ReceiverAction :=
  [.test,.recv (.datagram (cBytes "a")),.test,.recv .interrupted,.test,.recv (.datagram (cBytes "b"))]

theorem repetitions_iff_twice :
    (∀ tr s, Exec (UdpTcpSender.machine [.r (cBytes "2")]) tr s →
      Meets (fun _ => UdpTcpSender.Quiet) tr → s.Counts 2) ∧
    (∀ tr s, Exec (TcpReceiver.machine twiceArgs) tr s →
      Meets (fun _ => TcpReceiver.Quiet) tr → s.Counts 2) ∧
    ∃ tr, ∃ s : UdpReceiver, Exec (UdpReceiver.machine twiceArgs) tr s ∧
      s.pc = .exited 0 ∧ s.handledCount = 2 ∧ s.Counts 2 := by
  have hc : SenderConfig.default.options [.r (cBytes "2")] =
      .ok {SenderConfig.default with repetitions := 2} := by decide
  have hargs : twiceArgs.Accepted := by decide
  have hrep : twiceArgs.repetitionCount = 2 := by decide
  obtain ⟨hsender,hudp,htcp⟩ := repetitions_iff hc hargs
  rw [hrep] at hudp htcp
  have hv : ((UdpReceiver.machine twiceArgs).run (.cleared twiceArgs) twoDatagrams).map
      (fun s => (s.pc,s.handledCount)) = some (.exited 0,2) := by decide
  obtain ⟨s,hs,hr⟩ := Option.map_eq_some_iff.mp hv
  simp only [Prod.mk.injEq] at hr
  have run := Exec.of_run (cleared_init hargs) hs
  have hquiet : ∀ a ∈ twoDatagrams, UdpReceiver.Quiet a := by
    simp [twoDatagrams,UdpReceiver.Quiet]
  exact ⟨hsender.2 (by decide),htcp.2 (.inl (by decide)),_,s,run,hr.1,hr.2,
    hudp.2 (by decide) _ s run (meets_trace hquiet)⟩

/-- With `-r 0` one message is sent, one datagram and one chunk are handled before the end. -/
theorem zero_repetitions_handle_one :
    (∃ tr, ∃ s : UdpTcpSender, Exec (UdpTcpSender.machine [.r (cBytes "0")]) tr s ∧
      Meets (fun _ => UdpTcpSender.Quiet) tr ∧ s.sentCount = 1 ∧ ¬ s.Counts 0) ∧
    (∃ tr, ∃ s : UdpReceiver, Exec (UdpReceiver.machine ⟨none,some (cBytes "0")⟩) tr s ∧
      Meets (fun _ => UdpReceiver.Quiet) tr ∧ s.pc = .exited 0 ∧ s.handledCount = 1 ∧
      ¬ s.Counts 0) ∧
    (∃ tr, ∃ s : TcpReceiver, Exec (TcpReceiver.machine ⟨none,some (cBytes "0")⟩) tr s ∧
      Meets (fun _ => TcpReceiver.Quiet) tr ∧ s.handledCount = 1 ∧ ¬ s.Counts 0) := by
  have hc : SenderConfig.default.options [.r (cBytes "0")] =
      .ok {SenderConfig.default with repetitions := 0} := by decide
  refine ⟨?_,?_,?_⟩
  · obtain ⟨s,hs,-,hcount,-,-⟩ := run_firstMessage [.r (cBytes "0")]
      {SenderConfig.default with repetitions := 0}
    have hinit : (UdpTcpSender.machine [.r (cBytes "0")]).init (UdpTcpSender.start _) := ⟨_,hc,rfl⟩
    refine ⟨_,s,Exec.of_run hinit hs,meets_trace (by simp [firstMessage,UdpTcpSender.Quiet]),hcount,
      ?_⟩
    rw [UdpTcpSender.Counts,hcount]
    exact not_countsExactly_zero_one
  · have hv : ((UdpReceiver.machine ⟨none,some (cBytes "0")⟩).run
        (.cleared ⟨none,some (cBytes "0")⟩) [.test,.recv (.datagram (cBytes "a"))]).map
        (fun s => (s.pc,s.handledCount)) = some (.exited 0,1) := by decide
    obtain ⟨s,hs,hr⟩ := Option.map_eq_some_iff.mp hv
    simp only [Prod.mk.injEq] at hr
    refine ⟨_,s,Exec.of_run (cleared_init (by decide)) hs,
      meets_trace (by simp [UdpReceiver.Quiet]),hr.1,hr.2,?_⟩
    rw [UdpReceiver.Counts,hr.2]
    exact not_countsExactly_zero_one
  · have hroom : 2 ≤ (ReceiverArgs.mk none (some (cBytes "0"))).bufferSize := by decide
    obtain ⟨s,hs,hcount⟩ := run_oneChunk hroom
    refine ⟨_,s,Exec.of_run (fresh_init (by decide)) hs,
      meets_trace (by simp [oneChunk,TcpReceiver.Quiet]),hcount,?_⟩
    rw [TcpReceiver.Counts,hcount]
    exact not_countsExactly_zero_one

end TTK4145.Exercise2
