import TTK4145.Exercise2.UdpReceiver
import TTK4145.Exercise2.UdpTcpSender

/-! `udp_tcp_sender` and `udp_receiver` with a network between them that loses, repeats and reorders
datagrams. -/
namespace TTK4145.Exercise2
open Lib

/-- `lost` and `repeated` count what the network has done. -/
structure UdpLink where
  sender : UdpTcpSender
  receiver : UdpReceiver
  flight : List (List UInt8)
  lost : ℕ
  repeated : ℕ

/-- A datagram of the network is known by its place in `flight`. -/
inductive UdpLinkAction where
  | sender (a : SenderAction)
  | receiver (a : ReceiverAction)
  | deliver (i : ℕ)
  | lose (i : ℕ)
  | repeat (i : ℕ)
  deriving DecidableEq

/-- The `msg_size` bytes that are sent. -/
def SenderConfig.payload (c : SenderConfig) : List UInt8 := c.message.take (cSize c.msgSize)

/-- The longest payload of a datagram. -/
def udpMax : ℕ := 65507

namespace UdpLink

/-- `sendto` sends a datagram as a whole, if it is not too long for one. -/
def stepSender (s : UdpLink) (a : SenderAction) : Option UdpLink :=
  match a with
  | .send (.sent bytes) =>
    if bytes = cSize s.sender.config.msgSize ∧ bytes ≤ udpMax then
      (s.sender.next a).map fun t => {s with sender := t, flight := s.flight ++ [t.config.payload]}
    else none
  | a => (s.sender.next a).map fun t => {s with sender := t}

/-- Any datagram on its way may come next. -/
def stepDeliver (s : UdpLink) (i : ℕ) : Option UdpLink :=
  s.flight[i]?.bind fun payload =>
    (s.receiver.next (.recv (.datagram payload))).map fun t =>
      {s with receiver := t, flight := s.flight.eraseIdx i}

def next (s : UdpLink) : UdpLinkAction → Option UdpLink
  | .sender a => s.stepSender a
  | .receiver (.recv (.datagram _)) => none
  | .receiver a => (s.receiver.next a).map fun t => {s with receiver := t}
  | .deliver i => s.stepDeliver i
  | .lose i => s.flight[i]?.map fun _ => {s with flight := s.flight.eraseIdx i, lost := s.lost+1}
  | .repeat i => s.flight[i]?.map fun payload =>
      {s with flight := s.flight ++ [payload], repeated := s.repeated+1}

/-- The sender with the options of its command line, in its mode for UDP. -/
def machine (opts : List SenderOption) (args : ReceiverArgs) : Machine UdpLink UdpLinkAction where
  init s := (UdpTcpSender.machine opts).init s.sender ∧ s.sender.config.protocol = .udp ∧
    (UdpReceiver.machine args).init s.receiver ∧ s.flight = [] ∧ s.lost = 0 ∧ s.repeated = 0
  next := next

/-- The line that the receiver logs for a datagram with room in its buffer. -/
def receivedLine (payload : List UInt8) : ReceiverLine :=
  let text := payload.rdropWhile RxBuf.isLineEnd
  .received text.length (text.takeWhile (· ≠ 0))

end UdpLink

section Receive
variable {b : RxBuf} {s t : UdpReceiver} {payload : List UInt8} {room : ℕ} {a : ReceiverAction}

/-- A datagram with room in the buffer is received like a chunk. -/
theorem recvfrom_eq_recv (h : payload.length ≤ room) : b.recvfrom room payload = b.recv payload := by
  simp only [RxBuf.recvfrom,RxBuf.recv,List.take_of_length_le h]

theorem strip_received :
    ((((b.recv payload).1.write payload.length 0).strip payload.length).2) =
      (payload.rdropWhile RxBuf.isLineEnd).length := by
  have h := RxBuf.strip_first (b := (b.recv payload).1.write payload.length 0) (n := payload.length)
  rw [RxBuf.write_first (Nat.le_refl _),RxBuf.recv_first] at h
  rw [←h,RxBuf.length_first]

/-- A datagram with room in the buffer is logged without its line ends. -/
theorem handle_received (h : payload.length<s.bufferSize) :
    (s.handle payload).log.filter ReceiverLine.isReceived =
      s.log.filter ReceiverLine.isReceived ++ [UdpLink.receivedLine payload] := by
  have hroom : payload.length ≤ (s.bufferSize-1).toNat := by omega
  have hline : ReceiverLine.received
      (((s.rxBuf.recv payload).1.write payload.length 0).strip payload.length).2
      ((((s.rxBuf.recv payload).1.write payload.length 0).strip payload.length).1.print
        (((s.rxBuf.recv payload).1.write payload.length 0).strip payload.length).2).2 =
      UdpLink.receivedLine payload := by
    rw [UdpLink.receivedLine,←strip_received (b := s.rxBuf),←RxBuf.print_received (b := s.rxBuf)]
  have hcopied := recvfrom_eq_recv (b := s.rxBuf) hroom
  have hlength : (s.rxBuf.recv payload).2 = payload.length := rfl
  simp only [UdpReceiver.handle,UdpReceiver.finish,hcopied,hlength,hline]
  split_ifs <;> simp [List.filter_cons,ReceiverLine.isReceived,UdpLink.receivedLine]

/-- The receiver logs a datagram only where it handles one. -/
theorem next_received (hn : s.next a = some t) (ha : ∀ payload, a ≠ .recv (.datagram payload)) :
    t.log.filter ReceiverLine.isReceived = s.log.filter ReceiverLine.isReceived ∧
      t.bufferSize = s.bufferSize := by
  cases a with
  | signal =>
    cases hn
    exact ⟨rfl,rfl⟩
  | test =>
    simp only [UdpReceiver.next] at hn
    split_ifs at hn <;> cases hn
    · exact ⟨rfl,rfl⟩
    · exact ⟨by cases s.running <;> simp [UdpReceiver.finish,ReceiverLine.isReceived],rfl⟩
  | recv r =>
    simp only [UdpReceiver.next] at hn
    split_ifs at hn
    cases r with
    | datagram payload => exact absurd rfl (ha payload)
    | interrupted =>
      cases hn
      exact ⟨rfl,rfl⟩
    | error =>
      cases hn
      exact ⟨by simp [ReceiverLine.isReceived],rfl⟩

end Receive

namespace UdpTcpSender
variable {s t : UdpTcpSender} {a : SenderAction}

theorem next_sent {bytes : ℕ} (hn : s.next (.send (.sent bytes)) = some t) :
    t.config = s.config ∧ t.sentCount = s.sentCount+1 := by
  simp only [next] at hn
  split_ifs at hn
  cases hn
  have h := handle_spec (s.call (.send s.config.protocol (cSize s.config.msgSize))) bytes
  exact ⟨h.1,h.2.2.1⟩

theorem next_unsent (hn : s.next a = some t) (ha : ∀ bytes, a ≠ .send (.sent bytes)) :
    t.config = s.config ∧ t.sentCount = s.sentCount := by
  obtain ⟨bytes,rfl,-⟩ | h := next_cases hn
  · exact absurd rfl (ha bytes)
  · exact ⟨h.config,h.sentCount⟩

end UdpTcpSender

namespace UdpLink
variable {s t : UdpLink} {a : UdpLinkAction} {opts : List SenderOption} {args : ReceiverArgs}
  {tr : List (UdpLink × UdpLinkAction)}

/-- The datagrams that have been handled. -/
def receivedCount (s : UdpLink) : ℕ := s.receiver.log.countP ReceiverLine.isReceived

/-- Nothing but the message is on its way or logged, and each datagram that was sent or repeated is
handled, lost or on its way. -/
structure Carries (s : UdpLink) : Prop where
  flight : ∀ p ∈ s.flight, p = s.sender.config.payload
  conserved : s.receivedCount+s.flight.length+s.lost = s.sender.sentCount+s.repeated
  logged : s.sender.config.payload.length<s.receiver.bufferSize →
    s.receiver.log.filter ReceiverLine.isReceived =
      List.replicate s.receivedCount (receivedLine s.sender.config.payload)

theorem Carries.stepSender {b : SenderAction} (h : Carries s) (hn : s.stepSender b = some t) :
    Carries t := by
  unfold UdpLink.stepSender at hn
  split at hn
  · split_ifs at hn
    obtain ⟨sender,hs,rfl⟩ := Option.map_eq_some_iff.mp hn
    obtain ⟨hconfig,hsent⟩ := UdpTcpSender.next_sent hs
    have hc := h.conserved
    refine ⟨fun p hp => ?_,?_,?_⟩
    · obtain hp | hp := List.mem_append.mp hp
      · rw [hconfig]
        exact h.flight p hp
      · exact List.mem_singleton.mp hp
    · change s.receivedCount+(s.flight ++ [sender.config.payload]).length+s.lost =
        sender.sentCount+s.repeated
      rw [List.length_append,List.length_singleton,hsent]
      omega
    · rw [hconfig]
      exact h.logged
  · next hb =>
    obtain ⟨sender,hs,rfl⟩ := Option.map_eq_some_iff.mp hn
    obtain ⟨hconfig,hsent⟩ := UdpTcpSender.next_unsent hs hb
    refine ⟨by rw [hconfig]; exact h.flight,?_,by rw [hconfig]; exact h.logged⟩
    change s.receivedCount+s.flight.length+s.lost = sender.sentCount+s.repeated
    rw [hsent]
    exact h.conserved

theorem Carries.stepDeliver {i : ℕ} (h : Carries s) (hn : s.stepDeliver i = some t) :
    Carries t := by
  obtain ⟨payload,hp,hn⟩ := Option.bind_eq_some_iff.mp hn
  obtain ⟨receiver,hr,rfl⟩ := Option.map_eq_some_iff.mp hn
  obtain ⟨hi,hget⟩ := List.getElem?_eq_some_iff.mp hp
  have hpayload : payload = s.sender.config.payload :=
    h.flight payload (List.mem_of_getElem? hp)
  rw [hpayload] at hr
  simp only [UdpReceiver.next] at hr
  split_ifs at hr
  cases hr
  obtain ⟨hsize,-,-,-,-,hcount⟩ := handle_spec s.receiver s.sender.config.payload
  have hc := h.conserved
  refine ⟨fun p hp => h.flight p (List.mem_of_mem_eraseIdx hp),?_,fun hlen => ?_⟩
  · change (s.receiver.handle _).log.countP _+(s.flight.eraseIdx i).length+s.lost =
      s.sender.sentCount+s.repeated
    rw [hcount,List.length_eraseIdx_of_lt hi]
    change s.receivedCount+1+(s.flight.length-1)+s.lost = s.sender.sentCount+s.repeated
    omega
  · have hroom : (s.sender.config.payload.length : ℤ)<s.receiver.bufferSize := hsize ▸ hlen
    change (s.receiver.handle s.sender.config.payload).log.filter ReceiverLine.isReceived =
      List.replicate ((s.receiver.handle s.sender.config.payload).log.countP
        ReceiverLine.isReceived) (receivedLine s.sender.config.payload)
    rw [hcount]
    calc (s.receiver.handle s.sender.config.payload).log.filter ReceiverLine.isReceived
      _ = List.replicate s.receivedCount (receivedLine s.sender.config.payload) ++
          [receivedLine s.sender.config.payload] := by rw [handle_received hroom,h.logged hroom]
      _ = List.replicate (s.receivedCount+1) (receivedLine s.sender.config.payload) :=
        List.replicate_succ'.symm

theorem Carries.next (h : Carries s) (hn : UdpLink.next s a = some t) : Carries t := by
  unfold UdpLink.next at hn
  split at hn
  · exact h.stepSender hn
  · cases hn
  · next b hb =>
    obtain ⟨receiver,hr,rfl⟩ := Option.map_eq_some_iff.mp hn
    obtain ⟨hlog,hsize⟩ := next_received hr hb
    have hcount : receiver.log.countP ReceiverLine.isReceived = s.receivedCount := by
      rw [List.countP_eq_length_filter,hlog,←List.countP_eq_length_filter]
      rfl
    refine ⟨h.flight,?_,fun hlen => ?_⟩
    · change receiver.log.countP _+s.flight.length+s.lost = s.sender.sentCount+s.repeated
      rw [hcount]
      exact h.conserved
    · change receiver.log.filter _ = List.replicate (receiver.log.countP _) _
      rw [hlog,hcount]
      exact h.logged (by rw [←hsize]; exact hlen)
  · exact h.stepDeliver hn
  · next i =>
    obtain ⟨payload,hp,rfl⟩ := Option.map_eq_some_iff.mp hn
    have hi := (List.getElem?_eq_some_iff.mp hp).1
    have hc := h.conserved
    refine ⟨fun p hp => h.flight p (List.mem_of_mem_eraseIdx hp),?_,h.logged⟩
    change s.receivedCount+(s.flight.eraseIdx i).length+(s.lost+1) = s.sender.sentCount+s.repeated
    rw [List.length_eraseIdx_of_lt hi]
    omega
  · next i =>
    obtain ⟨payload,hp,rfl⟩ := Option.map_eq_some_iff.mp hn
    obtain ⟨hi,hget⟩ := List.getElem?_eq_some_iff.mp hp
    have hc := h.conserved
    refine ⟨fun p hp => ?_,?_,h.logged⟩
    · obtain hp | hp := List.mem_append.mp hp
      · exact h.flight p hp
      · rw [List.mem_singleton.mp hp,←hget]
        exact h.flight _ (List.getElem_mem hi)
    · change s.receivedCount+(s.flight ++ [payload]).length+s.lost =
        s.sender.sentCount+(s.repeated+1)
      rw [List.length_append,List.length_singleton]
      omega

/-- Whatever the network does with the datagrams, and however the two programs are started: what the
receiver logs is the message, without the line ends at its end, once for each datagram handled, and
these and the lost ones and those on their way are the sent and the repeated ones. -/
theorem received_message (run : Exec (machine opts args) tr s) :
    (s.sender.config.payload.length<s.receiver.bufferSize →
      s.receiver.log.filter ReceiverLine.isReceived =
        List.replicate s.receivedCount (receivedLine s.sender.config.payload)) ∧
    s.receivedCount+s.flight.length+s.lost = s.sender.sentCount+s.repeated := by
  have h : Carries s := by
    refine run.invariant (C := fun _ _ => True) ?_ (fun _ _ _ h _ hn => h.next hn)
      fun _ _ => trivial
    rintro s ⟨⟨c,-,hsender⟩,-,⟨-,mem,hreceiver⟩,hflight,hlost,hrepeated⟩
    have hsent : s.sender.sentCount = 0 := by
      rw [hsender,UdpTcpSender.sentCount,UdpTcpSender.start]
      split_ifs <;> rfl
    have hlog : s.receiver.log = [] := by rw [hreceiver]
    refine ⟨by simp [hflight],?_,fun _ => ?_⟩
    · rw [receivedCount,hlog,hflight,hlost,hsent,hrepeated]
      rfl
    · rw [receivedCount,hlog]
      rfl
  exact ⟨h.logged,h.conserved⟩

/-- `-m` with a line end. -/
def greetingOptions : List SenderOption := [.m (cBytes "hi\n")]

def greetingLink : UdpLink :=
  ⟨.start {SenderConfig.default with message := cBytes "hi\n"},.cleared eightByteArgs,[],0,0⟩

/-- Of two messages sent one is repeated and one of the three datagrams lost; the receiver ends with
the first. -/
def greetingRun : List UdpLinkAction := [.sender (.resolve 0),.sender (.setup true),
  .sender (.setup true),.sender .test,.sender (.send (.sent 3)),.repeat 0,.sender .wake,
  .sender .test,.sender (.send (.sent 3)),.lose 2,.receiver .test,.deliver 1]

theorem received_message_greeting : ∃ tr, ∃ s : UdpLink,
    Exec (machine greetingOptions eightByteArgs) tr s ∧ s.sender.sentCount = 2 ∧
    s.receiver.pc = .exited 0 ∧ s.flight.length = 1 ∧
    s.receiver.log.filter ReceiverLine.isReceived = [.received 2 (cBytes "hi")] := by
  have hc : SenderConfig.default.options greetingOptions =
      .ok {SenderConfig.default with message := cBytes "hi\n"} := by decide
  have hv : ((machine greetingOptions eightByteArgs).run greetingLink greetingRun).map
      (fun s => ((s.sender.sentCount,s.receiver.pc,s.flight.length),s.receivedCount,
        s.receiver.bufferSize,s.sender.config.payload)) =
      some ((2,.exited 0,1),1,8,cBytes "hi\n") := by decide
  obtain ⟨s,hs,hr⟩ := Option.map_eq_some_iff.mp hv
  simp only [Prod.mk.injEq] at hr
  obtain ⟨⟨hsent,hpc,hflight⟩,hcount,hsize,hpayload⟩ := hr
  have hinit : (machine greetingOptions eightByteArgs).init greetingLink :=
    ⟨⟨_,hc,rfl⟩,rfl,cleared_init (by decide),rfl,rfl,rfl⟩
  have run := Exec.of_run hinit hs
  have hlog := (received_message run).1 (by rw [hpayload,hsize]; decide)
  rw [hcount,hpayload] at hlog
  exact ⟨_,s,run,hsent,hpc,hflight,hlog.trans (by decide)⟩

end UdpLink
end TTK4145.Exercise2
