import TTK4145.Lib.Machine
import TTK4145.Exercise2.Arguments
import TTK4145.Exercise2.RxBuf

/-! The receive loop of `Exercise2/udp_receiver/src/udp_receiver.c` with the indices of `rx_buf`
that it uses. With `MSG_TRUNC` the result of `recvfrom` is the length of the datagram, which may
be more than has been copied. -/
namespace TTK4145.Exercise2
open Lib

inductive Received where
  | datagram (payload : List UInt8)
  | interrupted
  | error
  deriving DecidableEq

inductive ReceiverPc where
  | test
  | recv
  | exited (status : ℕ)
  deriving DecidableEq, Repr

def ReceiverPc.isExited : ReceiverPc → Bool
  | .exited _ => true
  | _ => false

/-- The lines that the loop logs, without the address of the peer. -/
inductive ReceiverLine where
  | recvFailed
  | truncated (received room : ℤ)
  | received (bytes : ℕ) (message : List UInt8)
  | shutdown
  deriving DecidableEq, Repr

def ReceiverLine.isReceived : ReceiverLine → Bool
  | .received _ _ => true
  | _ => false

structure UdpReceiver where
  bufferSize : ℤ
  repetitions : ℤ
  running : Bool
  pc : ReceiverPc
  rxBuf : RxBuf
  log : List ReceiverLine

inductive ReceiverAction where
  | signal
  | test
  | recv (r : Received)
  deriving DecidableEq

namespace UdpReceiver

/-- The statements behind the loop. -/
def finish (s : UdpReceiver) : UdpReceiver :=
  {s with pc := .exited 0, log := s.log ++ if s.running then [] else [.shutdown]}

/-- The rest of the loop body for a datagram. -/
def handle (s : UdpReceiver) (payload : List UInt8) : UdpReceiver :=
  let copied := s.rxBuf.recvfrom (s.bufferSize-1).toNat payload
  let warning := if copied.2>s.bufferSize-1 then
    [ReceiverLine.truncated copied.2 (s.bufferSize-1)] else []
  let stripped := (copied.1.write copied.2 0).strip copied.2
  let printed := stripped.1.print stripped.2
  let repetitions := if s.repetitions>0 then s.repetitions-1 else s.repetitions
  let t := {s with
    rxBuf := printed.1
    log := s.log ++ warning ++ [ReceiverLine.received stripped.2 printed.2]
    repetitions := repetitions}
  if repetitions = 0 then t.finish else {t with pc := .test}

def next (s : UdpReceiver) : ReceiverAction → Option UdpReceiver
  | .signal => some {s with running := false}
  | .test => if s.pc = .test then some (if s.running then {s with pc := .recv} else s.finish) else none
  | .recv r => if s.pc = .recv then
      match r with
      | .datagram payload => some (s.handle payload)
      | .interrupted => some {s with pc := .test}
      | .error => some {s with pc := .exited 1, log := s.log ++ [.recvFailed]}
    else none

/-- The program behind `malloc`, with the values of its arguments and an arbitrary block. -/
def machine (args : ReceiverArgs) : Machine UdpReceiver ReceiverAction where
  init s := args.Accepted ∧
    ∃ mem, s = ⟨args.bufferSize,args.repetitionCount,true,.test,⟨mem,[]⟩,[]⟩
  next := next

end UdpReceiver

section Accesses
variable {args : ReceiverArgs} {tr : List (UdpReceiver × ReceiverAction)} {s t : UdpReceiver}
  {a : ReceiverAction}

/-- The datagram leaves room for the terminator. -/
def FitsBuffer (s : UdpReceiver) : ReceiverAction → Prop
  | .recv (.datagram payload) => payload.length<s.bufferSize
  | _ => True

instance (s : UdpReceiver) : (a : ReceiverAction) → Decidable (FitsBuffer s a)
  | .recv (.datagram payload) => inferInstanceAs (Decidable (payload.length<s.bufferSize))
  | .recv .interrupted | .recv .error | .signal | .test => isTrue trivial

/-- What the loop body does for a datagram, whatever it logs about its length. -/
theorem handle_spec (s : UdpReceiver) (payload : List UInt8) :
    let copied := s.rxBuf.recvfrom (s.bufferSize-1).toNat payload
    let stripped := (copied.1.write copied.2 0).strip copied.2
    let repetitions := if s.repetitions>0 then s.repetitions-1 else s.repetitions
    (s.handle payload).bufferSize = s.bufferSize ∧
    (s.handle payload).rxBuf = (stripped.1.print stripped.2).1 ∧
    (s.handle payload).repetitions = repetitions ∧
    (s.handle payload).running = s.running ∧
    (s.handle payload).pc = (if repetitions = 0 then .exited 0 else .test) ∧
    (s.handle payload).log.countP ReceiverLine.isReceived =
      s.log.countP ReceiverLine.isReceived+1 := by
  simp only [UdpReceiver.handle,UdpReceiver.finish]
  split_ifs <;> exact ⟨rfl,rfl,rfl,rfl,rfl,by simp [ReceiverLine.isReceived,List.countP_cons]⟩

/-- Handling a datagram uses no index above its length, and uses that index. -/
theorem handle_accessed (s : UdpReceiver) (payload : List UInt8) :
    (s.handle payload).bufferSize = s.bufferSize ∧ ∃ new,
      (s.handle payload).rxBuf.accessed = s.rxBuf.accessed ++ new ∧
      payload.length ∈ new ∧ ∀ i ∈ new, i ≤ payload.length := by
  obtain ⟨hsize,hbuf,-⟩ := handle_spec s payload
  refine ⟨hsize,?_⟩
  let copied := s.rxBuf.recvfrom (s.bufferSize-1).toNat payload
  obtain ⟨new,hacc,hle⟩ := copied.1.print_accessed copied.2
  refine ⟨List.range (payload.take (s.bufferSize-1).toNat).length ++ payload.length::new,?_,
    by simp,fun i hi => ?_⟩
  · rw [hbuf,←List.append_assoc]
    exact hacc
  · simp only [List.mem_append,List.mem_range,List.mem_cons,List.length_take] at hi
    obtain hi | hi | hi := hi
    · omega
    · exact hi.le
    · exact hle i hi

/-- One step uses indices of the buffer only, exactly when it is no datagram that is too long. -/
theorem next_accessed (h : s.next a = some t) :
    t.bufferSize = s.bufferSize ∧ ∃ new, t.rxBuf.accessed = s.rxBuf.accessed ++ new ∧
      ((∀ i ∈ new, i<s.bufferSize) ↔ FitsBuffer s a) := by
  cases a with
  | signal =>
    cases h
    exact ⟨rfl,[],by simp,by simp [FitsBuffer]⟩
  | test =>
    simp only [UdpReceiver.next] at h
    split_ifs at h <;> cases h <;> exact ⟨rfl,[],by simp [UdpReceiver.finish],by simp [FitsBuffer]⟩
  | recv r =>
    simp only [UdpReceiver.next] at h
    split_ifs at h
    cases r with
    | interrupted | error =>
      cases h
      exact ⟨rfl,[],by simp,by simp [FitsBuffer]⟩
    | datagram payload =>
      cases h
      obtain ⟨hsize,new,hacc,hmem,hle⟩ := handle_accessed s payload
      refine ⟨hsize,new,hacc,fun hall => hall _ hmem,fun hfit i hi => ?_⟩
      change (payload.length : ℤ)<s.bufferSize at hfit
      have := hle i hi
      omega

/-- All indices of `rx_buf` used in a run are below the buffer size exactly when every datagram
handled is shorter than the buffer. -/
theorem accessed_lt_iff (run : Exec (UdpReceiver.machine args) tr s) :
    (∀ i ∈ s.rxBuf.accessed, i<s.bufferSize) ↔ Meets FitsBuffer tr := by
  induction run with
  | init h =>
    obtain ⟨-,mem,rfl⟩ := h
    simp
  | step run h ih =>
    obtain ⟨hsize,new,hacc,hnew⟩ := next_accessed h
    rw [meets_snoc,←ih,←hnew,hsize,hacc]
    simp only [List.mem_append,or_imp,forall_and]

end Accesses

/-- The program started with `-s 8 -r 1` receives `hi` with a line end. -/
def eightByteArgs : ReceiverArgs := ⟨some (cBytes "8"),some (cBytes "1")⟩

def UdpReceiver.cleared (args : ReceiverArgs) : UdpReceiver :=
  ⟨args.bufferSize,args.repetitionCount,true,.test,⟨fun _ => 0,[]⟩,[]⟩

theorem cleared_init {args : ReceiverArgs} (h : args.Accepted) :
    (UdpReceiver.machine args).init (.cleared args) := ⟨h,fun _ => 0,rfl⟩

theorem accessed_lt_iff_greeting :
    ∃ tr, ∃ s : UdpReceiver, Exec (UdpReceiver.machine eightByteArgs) tr s ∧
      s.log = [.received 2 (cBytes "hi")] ∧ s.pc = .exited 0 ∧
      ∀ i ∈ s.rxBuf.accessed, i<s.bufferSize := by
  have hv : ((UdpReceiver.machine eightByteArgs).run (.cleared eightByteArgs)
      [.test,.recv (.datagram (cBytes "hi\r\n"))]).map (fun s => (s.log,s.pc)) =
      some ([.received 2 (cBytes "hi")],.exited 0) := by decide
  obtain ⟨s,hs,hr⟩ := Option.map_eq_some_iff.mp hv
  simp only [Prod.mk.injEq] at hr
  have run := Exec.of_run (cleared_init (by decide)) hs
  exact ⟨_,s,run,hr.1,hr.2,(accessed_lt_iff run).2 (by decide)⟩

/-- With `-s 4` a datagram of six bytes is cut to three, and its terminator is written at index 6. -/
theorem long_datagram_overruns :
    ∃ tr, ∃ s : UdpReceiver, Exec (UdpReceiver.machine ⟨some (cBytes "4"),none⟩) tr s ∧
      s.bufferSize = 4 ∧ 6 ∈ s.rxBuf.accessed ∧
      ¬ ∀ i ∈ s.rxBuf.accessed, i<s.bufferSize := by
  have hv : ((UdpReceiver.machine ⟨some (cBytes "4"),none⟩).run (.cleared ⟨some (cBytes "4"),none⟩)
      [.test,.recv (.datagram (cBytes "abcdef"))]).map
      (fun s => (s.bufferSize,decide (6 ∈ s.rxBuf.accessed))) = some (4,true) := by decide
  obtain ⟨s,hs,hr⟩ := Option.map_eq_some_iff.mp hv
  simp only [Prod.mk.injEq,decide_eq_true_eq] at hr
  refine ⟨_,s,Exec.of_run (cleared_init (by decide)) hs,hr.1,hr.2,fun hall => ?_⟩
  have := hall 6 hr.2
  omega

end TTK4145.Exercise2
