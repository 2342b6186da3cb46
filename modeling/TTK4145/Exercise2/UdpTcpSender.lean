import TTK4145.Lib.Machine
import TTK4145.Lib.Countdown
import TTK4145.Exercise2.SenderArguments

/-! `Exercise2/udp_tcp_sender/src/udp_tcp_sender.c` behind its options: the calls that set up the
socket, and the send loop. -/
namespace TTK4145.Exercise2
open Lib

/-- The next call, the test of the loop, or the end with its status. -/
inductive SenderStage where
  | resolve
  | socket
  | broadcast
  | connect
  | test
  | send
  | sleep
  | exited (status : ℕ)
  deriving DecidableEq, Repr

def SenderStage.isExited : SenderStage → Bool
  | .exited _ => true
  | _ => false

/-- The system calls with the arguments that depend on the command line. -/
inductive SenderCall where
  | getaddrinfo (host port : List UInt8)
  | socket (protocol : Protocol)
  | setsockopt
  | connect
  | send (protocol : Protocol) (length : ℕ)
  | sleep (seconds : ℕ)
  | close
  | freeaddrinfo
  deriving DecidableEq

inductive SendOutcome where
  | sent (bytes : ℕ)
  | interrupted
  | error
  deriving DecidableEq, Repr

/-- `setup` says whether `socket`, `setsockopt` or `connect` succeeds, `resolve` what `getaddrinfo`
returns, and `wake` ends a `sleep`. -/
inductive SenderAction where
  | signal
  | resolve (err : ℤ)
  | setup (ok : Bool)
  | test
  | send (r : SendOutcome)
  | wake
  deriving DecidableEq, Repr

structure UdpTcpSender where
  config : SenderConfig
  repetitions : ℤ
  running : Bool
  stage : SenderStage
  log : List SenderLine
  calls : List SenderCall

namespace UdpTcpSender

def start (c : SenderConfig) : UdpTcpSender where
  config := c
  repetitions := c.repetitions
  running := true
  stage := .resolve
  log := if c.strlenMessage>c.maxMsgSize then [.truncated c.strlenMessage c.maxMsgSize] else []
  calls := []

def goto (s : UdpTcpSender) (stage : SenderStage) : UdpTcpSender := {s with stage := stage}

def report (s : UdpTcpSender) (line : SenderLine) : UdpTcpSender := {s with log := s.log ++ [line]}

def call (s : UdpTcpSender) (c : SenderCall) : UdpTcpSender := {s with calls := s.calls ++ [c]}

/-- `close(sockfd)`, `freeaddrinfo(res)` and the return. -/
def cleanup (s : UdpTcpSender) (status : ℕ) : UdpTcpSender :=
  ((s.call .close).call .freeaddrinfo).goto (.exited status)

/-- The statements behind the loop. -/
def finish (s : UdpTcpSender) : UdpTcpSender :=
  (if s.running then s else s.report .shutdown).cleanup 0

/-- The handlers are installed and the loop begins. -/
def enter (s : UdpTcpSender) : UdpTcpSender :=
  (s.report (.sending s.config.protocol s.config.destHost s.config.destPort)).goto .test

def stepResolve (s : UdpTcpSender) (err : ℤ) : UdpTcpSender :=
  let s := s.call (.getaddrinfo s.config.destHost s.config.portStr)
  if err ≠ 0 then (s.report (.resolveFailed err)).goto (.exited 1) else s.goto .socket

def stepSocket (s : UdpTcpSender) (ok : Bool) : UdpTcpSender :=
  let s := s.call (.socket s.config.protocol)
  if !ok then ((s.report .socketFailed).call .freeaddrinfo).goto (.exited 1)
  else match s.config.protocol with
    | .udp => s.goto .broadcast
    | .tcp => (s.report (.created .tcp)).goto .connect

def stepBroadcast (s : UdpTcpSender) (ok : Bool) : UdpTcpSender :=
  let s := s.call .setsockopt
  if !ok then (s.report .broadcastFailed).cleanup 1 else (s.report (.created .udp)).enter

def stepConnect (s : UdpTcpSender) (ok : Bool) : UdpTcpSender :=
  let s := s.call .connect
  if !ok then (s.report .connectFailed).cleanup 1
  else (s.report (.connected s.config.destHost s.config.destPort)).enter

/-- What `%.*s` prints with `msg_size`: a negative precision is taken as none. -/
def printed (s : UdpTcpSender) : List UInt8 :=
  if s.config.msgSize<0 then s.config.message else s.config.message.take s.config.msgSize.toNat

/-- The rest of the loop body after a message has been sent. -/
def handle (s : UdpTcpSender) (bytes : ℕ) : UdpTcpSender :=
  let repetitions := if s.repetitions>0 then s.repetitions-1 else s.repetitions
  let t := {s.report (.sent s.config.protocol bytes s.printed) with repetitions := repetitions}
  if repetitions = 0 then t.finish
  else (t.call (.sleep (cUnsigned s.config.sleepPeriod))).goto .sleep

def stepSend (s : UdpTcpSender) (r : SendOutcome) : UdpTcpSender :=
  let s := s.call (.send s.config.protocol (cSize s.config.msgSize))
  match r with
  | .sent bytes => s.handle bytes
  | .interrupted => s.goto .test
  | .error => (s.report .sendFailed).cleanup 1

/-- Before the loop a signal is not handled: it ends the process, and so the run. -/
def next (s : UdpTcpSender) : SenderAction → Option UdpTcpSender
  | .signal => if s.stage = .test ∨ s.stage = .send ∨ s.stage = .sleep then
      some {s with running := false} else none
  | .resolve err => if s.stage = .resolve then some (s.stepResolve err) else none
  | .setup ok => match s.stage with
    | .socket => some (s.stepSocket ok)
    | .broadcast => some (s.stepBroadcast ok)
    | .connect => some (s.stepConnect ok)
    | _ => none
  | .test => if s.stage = .test then some (if s.running then s.goto .send else s.finish) else none
  | .send r => if s.stage = .send then some (s.stepSend r) else none
  | .wake => if s.stage = .sleep then some (s.goto .test) else none

/-- The program with the options of its command line, where it accepts them. -/
def machine (opts : List SenderOption) : Machine UdpTcpSender SenderAction where
  init s := ∃ c, SenderConfig.default.options opts = .ok c ∧ s = start c
  next := next

/-- The messages sent so far. -/
def sentCount (s : UdpTcpSender) : ℕ := s.log.countP SenderLine.isSent

def Exited (s : UdpTcpSender) : Prop := s.stage.isExited = true

end UdpTcpSender

/-- The calls other than `sleep` that the program makes with its values. -/
def SenderConfig.Makes (c : SenderConfig) : SenderCall → Prop
  | .getaddrinfo _ port => port = c.portStr
  | .send _ length => length = cSize c.msgSize
  | .sleep _ => False
  | _ => True

namespace UdpTcpSender

/-- What separates two states between which no message is sent. -/
structure Silent (s t : UdpTcpSender) : Prop where
  config : t.config = s.config
  repetitions : t.repetitions = s.repetitions
  sentCount : t.sentCount = s.sentCount
  calls : ∃ new, t.calls = s.calls ++ new ∧ ∀ c ∈ new, s.config.Makes c

section Steps
variable {s t : UdpTcpSender} {a : SenderAction} {c : SenderCall} {line : SenderLine}

theorem Silent.refl (s : UdpTcpSender) : Silent s s := ⟨rfl,rfl,rfl,[],by simp,by simp⟩

theorem Silent.trans {u : UdpTcpSender} (h : Silent s t) (h' : Silent t u) : Silent s u := by
  obtain ⟨new,hnew,hmakes⟩ := h.calls
  obtain ⟨more,hmore,hmakes'⟩ := h'.calls
  refine ⟨h'.config.trans h.config,h'.repetitions.trans h.repetitions,
    h'.sentCount.trans h.sentCount,new ++ more,?_,fun c hc => ?_⟩
  · rw [hmore,hnew,List.append_assoc]
  · rcases List.mem_append.mp hc with hc | hc
    · exact hmakes c hc
    · rw [← h.config]
      exact hmakes' c hc

theorem Silent.goto (h : Silent s t) (stage : SenderStage) : Silent s (t.goto stage) :=
  ⟨h.config,h.repetitions,h.sentCount,h.calls⟩

theorem Silent.report (h : Silent s t) (hline : line.isSent = false) : Silent s (t.report line) := by
  refine ⟨h.config,h.repetitions,?_,h.calls⟩
  rw [← h.sentCount]
  simp [UdpTcpSender.sentCount,UdpTcpSender.report,hline]

theorem Silent.call (h : Silent s t) (hc : s.config.Makes c) : Silent s (t.call c) := by
  obtain ⟨new,hnew,hmakes⟩ := h.calls
  refine ⟨h.config,h.repetitions,h.sentCount,new ++ [c],?_,fun d hd => ?_⟩
  · rw [← List.append_assoc,← hnew]
    rfl
  · rcases List.mem_append.mp hd with hd | hd
    · exact hmakes d hd
    · rw [List.mem_singleton.mp hd]
      exact hc

theorem Silent.cleanup (h : Silent s t) (status : ℕ) : Silent s (t.cleanup status) := by
  have hclose : Silent s (t.call .close) := h.call trivial
  have hfree : Silent s ((t.call .close).call .freeaddrinfo) := hclose.call trivial
  exact hfree.goto _

theorem Silent.finish (h : Silent s t) : Silent s t.finish := by
  unfold UdpTcpSender.finish
  split
  · exact h.cleanup 0
  · exact (h.report rfl).cleanup 0

theorem Silent.enter (h : Silent s t) : Silent s t.enter := (h.report rfl).goto _

theorem stepResolve_silent (s : UdpTcpSender) (err : ℤ) : Silent s (s.stepResolve err) := by
  have h : Silent s (s.call (.getaddrinfo s.config.destHost s.config.portStr)) :=
    (Silent.refl s).call rfl
  simp only [stepResolve]
  split
  · exact (h.report rfl).goto _
  · exact h.goto _

theorem stepSocket_silent (s : UdpTcpSender) (ok : Bool) : Silent s (s.stepSocket ok) := by
  have h : Silent s (s.call (.socket s.config.protocol)) := (Silent.refl s).call trivial
  cases ok with
  | false =>
    have hfree : Silent s (((s.call (.socket s.config.protocol)).report .socketFailed).call
      .freeaddrinfo) := (h.report rfl).call trivial
    exact hfree.goto _
  | true =>
    simp only [stepSocket,Bool.not_true,Bool.false_eq_true,if_false]
    split
    · exact h.goto _
    · exact (h.report rfl).goto _

theorem stepBroadcast_silent (s : UdpTcpSender) (ok : Bool) : Silent s (s.stepBroadcast ok) := by
  have h : Silent s (s.call .setsockopt) := (Silent.refl s).call trivial
  cases ok with
  | false => exact (h.report rfl).cleanup 1
  | true => exact (h.report rfl).enter

theorem stepConnect_silent (s : UdpTcpSender) (ok : Bool) : Silent s (s.stepConnect ok) := by
  have h : Silent s (s.call .connect) := (Silent.refl s).call trivial
  cases ok with
  | false => exact (h.report rfl).cleanup 1
  | true => exact (h.report rfl).enter

/-- A step sends a message or is silent. -/
theorem next_cases (h : s.next a = some t) :
    (∃ bytes, a = .send (.sent bytes) ∧
      t = (s.call (.send s.config.protocol (cSize s.config.msgSize))).handle bytes) ∨
    Silent s t := by
  cases a with
  | signal =>
    simp only [next] at h
    split_ifs at h
    cases h
    exact .inr ⟨rfl,rfl,rfl,[],by simp,by simp⟩
  | resolve err =>
    simp only [next] at h
    split_ifs at h
    cases h
    exact .inr (stepResolve_silent s err)
  | setup ok =>
    simp only [next] at h
    split at h
    · cases h
      exact .inr (stepSocket_silent s ok)
    · cases h
      exact .inr (stepBroadcast_silent s ok)
    · cases h
      exact .inr (stepConnect_silent s ok)
    · cases h
  | test =>
    simp only [next] at h
    split_ifs at h
    · cases h
      exact .inr ((Silent.refl s).goto _)
    · cases h
      exact .inr (Silent.refl s).finish
  | send r =>
    simp only [next] at h
    split_ifs at h
    cases h
    have hcall : Silent s (s.call (.send s.config.protocol (cSize s.config.msgSize))) :=
      (Silent.refl s).call rfl
    cases r with
    | sent bytes => exact .inl ⟨bytes,rfl,rfl⟩
    | interrupted => exact .inr (hcall.goto _)
    | error => exact .inr ((hcall.report rfl).cleanup 1)
  | wake =>
    simp only [next] at h
    split_ifs at h
    cases h
    exact .inr ((Silent.refl s).goto _)

theorem finish_spec (t : UdpTcpSender) :
    Silent t t.finish ∧ t.finish.running = t.running ∧ t.finish.Exited ∧
      t.finish.calls = t.calls ++ [.close,.freeaddrinfo] := by
  refine ⟨(Silent.refl t).finish,?_,rfl,?_⟩
  · unfold finish
    split <;> rfl
  · unfold finish
    split
    · exact List.append_assoc _ _ _
    · exact List.append_assoc _ _ _

/-- A message counts down, and ends the loop or is followed by a `sleep`. -/
theorem handle_spec (s : UdpTcpSender) (bytes : ℕ) :
    (s.handle bytes).config = s.config ∧
    (s.handle bytes).repetitions = tick s.repetitions ∧
    (s.handle bytes).sentCount = s.sentCount+1 ∧
    (s.handle bytes).running = s.running ∧
    ((s.handle bytes).Exited ↔ tick s.repetitions = 0) ∧
    (s.handle bytes).calls = s.calls ++ if tick s.repetitions = 0 then [.close,.freeaddrinfo]
      else [.sleep (cUnsigned s.config.sleepPeriod)] := by
  let t := {s.report (.sent s.config.protocol bytes s.printed) with
    repetitions := tick s.repetitions}
  have hcount : t.sentCount = s.sentCount+1 := by
    simp [t,sentCount,report,SenderLine.isSent]
  by_cases h : tick s.repetitions = 0
  · have ht : s.handle bytes = t.finish := if_pos h
    obtain ⟨hsilent,hrunning,hexited,hcalls⟩ := finish_spec t
    rw [ht,if_pos h]
    refine ⟨hsilent.config,hsilent.repetitions,?_,hrunning,iff_of_true hexited h,hcalls⟩
    rw [hsilent.sentCount,hcount]
  · have ht : s.handle bytes = (t.call (.sleep (cUnsigned s.config.sleepPeriod))).goto .sleep :=
      if_neg h
    rw [ht,if_neg h]
    exact ⟨rfl,rfl,hcount,rfl,iff_of_false Bool.false_ne_true h,rfl⟩

end Steps
end UdpTcpSender
end TTK4145.Exercise2
