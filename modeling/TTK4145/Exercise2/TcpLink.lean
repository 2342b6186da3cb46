import TTK4145.Exercise2.TcpReceiver
import TTK4145.Exercise2.UdpLink

/-! `udp_tcp_sender -T` connected to `tcp_receiver`. The connection keeps the order of the bytes and
none of the boundaries between messages. -/
namespace TTK4145.Exercise2
open Lib

/-- `wire` holds the bytes that `send` has taken and that are not yet with the receiver's kernel.
`stream` is a history: all bytes that `send` has taken. -/
structure TcpLink where
  sender : UdpTcpSender
  receiver : TcpReceiver
  accepted : Bool
  wire : List UInt8
  stream : List UInt8

inductive TcpLinkAction where
  | sender (a : SenderAction)
  | receiver (a : TcpAction)
  | accept
  | transfer (k : ℕ)
  | close
  deriving DecidableEq

/-- The line that the sender logs behind `connect`. -/
def SenderLine.isConnected : SenderLine → Bool
  | .connected _ _ => true
  | _ => false

namespace TcpLink

/-- `send` takes any part of the message. -/
def stepSender (s : TcpLink) (a : SenderAction) : Option TcpLink :=
  match a with
  | .send (.sent bytes) =>
    if bytes ≤ cSize s.sender.config.msgSize ∧ bytes ≤ s.sender.config.message.length then
      (s.sender.next a).map fun t => {s with
        sender := t
        wire := s.wire ++ t.config.message.take bytes
        stream := s.stream ++ t.config.message.take bytes}
    else none
  | a => (s.sender.next a).map fun t => {s with sender := t}

def stepReceiver (s : TcpLink) (a : TcpAction) : Option TcpLink :=
  (s.receiver.next a).map fun t => {s with receiver := t}

/-- The one connection is accepted behind the sender's `connect`. Its end comes behind all bytes, when
the sender has closed its socket. -/
def next (s : TcpLink) : TcpLinkAction → Option TcpLink
  | .sender a => s.stepSender a
  | .receiver (.accept .connected) | .receiver (.client _) => none
  | .receiver a => s.stepReceiver a
  | .accept =>
    if s.accepted = false ∧ s.sender.log.any SenderLine.isConnected = true then
      ({s with accepted := true} : TcpLink).stepReceiver (.accept .connected)
    else none
  | .transfer k =>
    ({s with wire := s.wire.drop k} : TcpLink).stepReceiver (.client (.send (s.wire.take k)))
  | .close =>
    if s.wire = [] ∧ s.sender.stage.isExited = true then s.stepReceiver (.client .close) else none

def machine (opts : List SenderOption) (args : ReceiverArgs) : Machine TcpLink TcpLinkAction where
  init s := (UdpTcpSender.machine opts).init s.sender ∧ s.sender.config.protocol = .tcp ∧
    (TcpReceiver.machine args).init s.receiver ∧ s.accepted = false ∧ s.wire = [] ∧ s.stream = []
  next := next

end TcpLink

section Ends
variable {s t : TcpReceiver} {a : TcpAction} {c : Connection} {e : ClientEvent} {k : ℕ}

/-- What a client has done, without what the receiver has made of it. -/
def Connection.side (c : Connection) : List UInt8 × Bool := (c.sent,c.closed)

namespace TcpReceiver

def ends (s : TcpReceiver) : List (List UInt8 × Bool) := s.connections.map Connection.side

theorem ends_eq_append :
    s.ends = s.past.map Connection.side ++ s.stage.client.map Connection.side :=
  List.map_append

/-- The client that is served is given up, and stays what it was. -/
theorem ends_left {d : Connection} (hs : s.stage.client = [c]) (hpast : t.past = s.past ++ [d])
    (hd : d.side = c.side) (ht : t.stage.client = []) : t.ends = s.ends := by
  rw [ends_eq_append,ends_eq_append,hs,hpast,ht,List.map_append,List.map_singleton,hd]
  exact List.append_nil _

theorem ends_kept (hpast : t.past = s.past)
    (hclient : t.stage.client.map Connection.side = s.stage.client.map Connection.side) :
    t.ends = s.ends := by
  rw [ends_eq_append,ends_eq_append,hpast,hclient]

theorem ends_finish (hs : s.stage.client = []) : s.finish.ends = s.ends := by
  have hfinish : s.finish.stage = .exited ∧ s.finish.past = s.past := by
    simp only [finish]
    split_ifs <;> exact ⟨rfl,rfl⟩
  exact ends_kept hfinish.2 (by rw [hs,hfinish.1]; rfl)

theorem ends_handle (hs : s.stage = .recv c) : (s.handle c k).ends = s.ends := by
  obtain ⟨-,hstage,hpast,-⟩ | ⟨-,hstage,hpast,-⟩ := s.handle_cases c k
  · exact ends_left (c := c) (by rw [hs]; rfl) hpast rfl (by rw [hstage]; rfl)
  · exact ends_kept hpast (by rw [hstage,hs]; rfl)

theorem ends_accept (hn : s.next (.accept .connected) = some t) :
    t.ends = s.ends ++ [([],false)] ∧ t.bufferSize = s.bufferSize := by
  simp only [next] at hn
  split at hn
  · rename_i hs _
    cases hn
    refine ⟨?_,rfl⟩
    rw [ends_eq_append,ends_eq_append,hs]
    exact congrArg (· ++ _) (List.append_nil _).symm
  all_goals simp_all

/-- Only the last connection is still open to its client. -/
theorem ends_client (hn : s.next (.client e) = some t) :
    ∃ front c, c.closed = false ∧ s.ends = front ++ [Connection.side c] ∧
      t.ends = front ++ [(c.event e).side] ∧ t.bufferSize = s.bufferSize := by
  simp only [next] at hn
  split at hn
  · rename_i c hs
    split_ifs at hn with hclosed
    cases hn
    exact ⟨_,c,Bool.not_eq_true _ ▸ hclosed,by rw [ends_eq_append,hs]; rfl,ends_eq_append,rfl⟩
  · rename_i c hs
    split_ifs at hn with hclosed
    cases hn
    exact ⟨_,c,Bool.not_eq_true _ ▸ hclosed,by rw [ends_eq_append,hs]; rfl,ends_eq_append,rfl⟩
  · cases hn

theorem ends_test (hn : s.next .test = some t) :
    t.ends = s.ends ∧ t.bufferSize = s.bufferSize := by
  simp only [next] at hn
  split at hn
  · rename_i hs
    have hclient : s.stage.client = [] := by rw [hs]; rfl
    split_ifs at hn
    · cases hn
      exact ⟨ends_kept rfl (by rw [hs]; rfl),rfl⟩
    · cases hn
      refine ⟨ends_finish hclient,?_⟩
      simp only [finish]
      split_ifs
      rfl
  · rename_i c hs
    split_ifs at hn
    · cases hn
      exact ⟨ends_kept rfl (by rw [hs]; rfl),rfl⟩
    · cases hn
      exact ⟨ends_left (c := c) (by rw [hs]; rfl) rfl rfl rfl,rfl⟩
  · cases hn

theorem ends_recv {r : RecvOutcome} (hn : s.next (.recv r) = some t) :
    t.ends = s.ends ∧ t.bufferSize = s.bufferSize := by
  simp only [next] at hn
  split at hn
  · rename_i c k hs
    split_ifs at hn
    · cases hn
      exact ⟨ends_left (c := c) (by rw [hs]; rfl) rfl rfl rfl,rfl⟩
    · cases hn
      exact ⟨ends_handle hs,(s.handle_fields c k).1⟩
  · rename_i c hs
    cases hn
    exact ⟨ends_kept rfl (by rw [hs]; rfl),rfl⟩
  · rename_i c hs
    cases hn
    exact ⟨ends_left (c := c) (by rw [hs]; rfl) rfl rfl rfl,rfl⟩
  · cases hn

/-- The connections change by what the clients do, and by nothing else. -/
theorem ends_eq (hn : s.next a = some t) (haccept : a ≠ .accept .connected)
    (hclient : ∀ e, a ≠ .client e) : t.ends = s.ends ∧ t.bufferSize = s.bufferSize := by
  cases a with
  | signal =>
    cases hn
    exact ⟨rfl,rfl⟩
  | test => exact ends_test hn
  | recv r => exact ends_recv hn
  | client e => exact absurd rfl (hclient e)
  | accept r =>
    simp only [next] at hn
    split at hn
    · exact absurd rfl haccept
    · rename_i hs
      cases hn
      exact ⟨ends_kept rfl (by rw [hs]; rfl),rfl⟩
    · rename_i hs
      cases hn
      have hclient : s.stage.client = [] := by rw [hs]; rfl
      refine ⟨(ends_finish hclient : (s.report .acceptFailed).finish.ends = _),?_⟩
      simp only [finish]
      split_ifs <;> rfl
    · cases hn

end TcpReceiver
end Ends

namespace TcpLink
variable {s t : TcpLink} {a : TcpLinkAction} {opts : List SenderOption} {args : ReceiverArgs}
  {tr : List (TcpLink × TcpLinkAction)}

/-- The one connection of the receiver is the stream up to what is on the wire, and ends with it. -/
def Joined (s : TcpLink) : Prop :=
  s.accepted = false ∧ s.receiver.ends = [] ∧ s.wire = s.stream ∨
  ∃ sent closed, s.accepted = true ∧ s.receiver.ends = [(sent,closed)] ∧
    sent ++ s.wire = s.stream ∧ (closed = true → s.wire = [] ∧ s.sender.Exited)

/-- The stream is made of one start of the message for each message sent. -/
def Sized (s : TcpLink) : Prop :=
  ∃ sizes : List ℕ, sizes.length = s.sender.sentCount ∧
    (∀ k ∈ sizes, k ≤ cSize s.sender.config.msgSize) ∧
    s.stream = sizes.flatMap (s.sender.config.message.take ·)

/-- A stream of texts is a text. -/
theorem Sized.text (h : Sized s) (htext : 0 ∉ s.sender.config.message) : 0 ∉ s.stream := by
  obtain ⟨sizes,-,-,hstream⟩ := h
  rw [hstream,List.mem_flatMap]
  rintro ⟨k,-,hk⟩
  exact htext (List.mem_of_mem_take hk)

/-- What is served to the receiver belongs to the stream. -/
theorem Joined.unread {c : Connection} (h : Joined s) (hserving : Serving s.receiver)
    (hc : c ∈ s.receiver.stage.client) : ∀ x ∈ c.unread, x ∈ s.stream := by
  intro x hx
  have hmem : c.side ∈ s.receiver.ends :=
    List.mem_map_of_mem (List.mem_append_right _ hc)
  have hsent : x ∈ c.sent := by
    rw [←(hserving.client c hc).1]
    exact List.mem_append_right _ hx
  obtain ⟨-,hends,-⟩ | ⟨sent,closed,-,hends,hstream,-⟩ := h
  · rw [hends] at hmem
    cases hmem
  · rw [hends,List.mem_singleton] at hmem
    rw [←hstream]
    exact List.mem_append_left _ ((Prod.mk.inj hmem).1 ▸ hsent)

structure Linked (s : TcpLink) : Prop where
  serving : Serving s.receiver
  delivers : 0 ∉ s.sender.config.message → 2 ≤ s.receiver.bufferSize → Delivers s.receiver
  joined : Joined s
  sized : Sized s

theorem receivesText {b : TcpAction} (h : Linked s) (htext : 0 ∉ s.sender.config.message)
    (hsize : 2 ≤ s.receiver.bufferSize) : ReceivesText s.receiver b := by
  cases b with
  | recv r =>
    cases r with
    | bytes k =>
      intro c hc
      refine ⟨.inl hsize,fun h0 => h.sized.text htext ?_⟩
      exact h.joined.unread h.serving hc 0 (List.mem_of_mem_take h0)
    | interrupted => trivial
    | error => trivial
  | _ => trivial

/-- A step of the receiver after which the connection is what the network says. -/
theorem Linked.receive {receiver : TcpReceiver} {b : TcpAction} (h : Linked s)
    (hr : s.receiver.next b = some receiver) (hsize : receiver.bufferSize = s.receiver.bufferSize)
    (hjoined : Joined t) (ht : t.receiver = receiver) (hsender : t.sender = s.sender)
    (hstream : t.stream = s.stream) : Linked t := by
  obtain ⟨hserving,hdelivers⟩ := h.serving.next hr
  refine ⟨by rwa [ht],?_,hjoined,?_⟩
  · rw [ht,hsender,hsize]
    exact fun htext hroom => hdelivers.mpr ⟨h.delivers htext hroom,receivesText h htext hroom⟩
  · rw [Sized,hsender,hstream]
    exact h.sized

theorem exited_stuck {s t : UdpTcpSender} {b : SenderAction} (h : s.Exited) :
    s.next b ≠ some t := by
  have hstage : ∃ status, s.stage = .exited status := by
    unfold UdpTcpSender.Exited at h
    cases hs : s.stage with
    | exited status => exact ⟨status,rfl⟩
    | _ => rw [hs] at h; cases h
  obtain ⟨status,hstage⟩ := hstage
  cases b with
  | signal | resolve | test | send | wake => simp [UdpTcpSender.next,hstage]
  | setup ok => simp [UdpTcpSender.next,hstage]

theorem Linked.stepSender {b : SenderAction} (h : Linked s) (hn : s.stepSender b = some t) :
    Linked t := by
  unfold TcpLink.stepSender at hn
  split at hn
  · next bytes =>
    split_ifs at hn with hbytes
    obtain ⟨sender,hs,rfl⟩ := Option.map_eq_some_iff.mp hn
    obtain ⟨hconfig,hsent⟩ := UdpTcpSender.next_sent hs
    obtain ⟨sizes,hlength,hbound,hstream⟩ := h.sized
    refine ⟨h.serving,by rw [hconfig]; exact h.delivers,?_,sizes ++ [bytes],?_,?_,?_⟩
    · obtain ⟨hacc,hends,hwire⟩ | ⟨sent,closed,hacc,hends,hstream,hclosed⟩ := h.joined
      · exact .inl ⟨hacc,hends,by rw [hwire]⟩
      · refine .inr ⟨sent,closed,hacc,hends,by rw [←hstream,List.append_assoc],fun hc => ?_⟩
        exact absurd hs (exited_stuck (hclosed hc).2)
    · rw [List.length_append,hlength,hsent]
      rfl
    · rw [hconfig]
      intro k hk
      obtain hk | hk := List.mem_append.mp hk
      · exact hbound k hk
      · exact List.mem_singleton.mp hk ▸ hbytes.1
    · rw [hstream,hconfig,List.flatMap_append,List.flatMap_singleton]
  · next hb =>
    obtain ⟨sender,hs,rfl⟩ := Option.map_eq_some_iff.mp hn
    obtain ⟨hconfig,hsent⟩ := UdpTcpSender.next_unsent hs hb
    refine ⟨h.serving,by rw [hconfig]; exact h.delivers,?_,?_⟩
    · obtain hbefore | ⟨sent,closed,hacc,hends,hstream,hclosed⟩ := h.joined
      · exact .inl hbefore
      · refine .inr ⟨sent,closed,hacc,hends,hstream,fun hc => ?_⟩
        exact absurd hs (exited_stuck (hclosed hc).2)
    · change ∃ sizes : List ℕ, sizes.length = sender.sentCount ∧
        (∀ k ∈ sizes, k ≤ cSize sender.config.msgSize) ∧
        s.stream = sizes.flatMap (sender.config.message.take ·)
      rw [hconfig,hsent]
      exact h.sized

/-- The client of the receiver is the connection that was accepted. -/
theorem Joined.client {receiver : TcpReceiver} {e : ClientEvent} (h : Joined s)
    (hr : s.receiver.next (.client e) = some receiver) :
    ∃ c : Connection, s.accepted = true ∧ c.closed = false ∧ c.sent ++ s.wire = s.stream ∧
      receiver.ends = [(c.event e).side] ∧ receiver.bufferSize = s.receiver.bufferSize := by
  obtain ⟨front,c,hclosed,hbefore,hafter,hsize⟩ := TcpReceiver.ends_client hr
  obtain ⟨-,hends,-⟩ | ⟨sent,closed,hacc,hends,hstream,-⟩ := h
  · rw [hends] at hbefore
    exact absurd hbefore.symm (by simp)
  · rw [hends] at hbefore
    have hlast : front ++ [c.side] = [] ++ [(sent,closed)] := hbefore.symm
    obtain ⟨hfront,hend⟩ := List.append_inj' hlast rfl
    rw [hfront] at hafter
    rw [List.singleton_inj] at hend
    obtain ⟨hsent,-⟩ := Prod.mk.inj hend
    exact ⟨c,hacc,hclosed,by rw [←hstream,←hsent],hafter,hsize⟩

theorem Linked.next (h : Linked s) (hn : TcpLink.next s a = some t) : Linked t := by
  unfold TcpLink.next at hn
  split at hn
  · exact h.stepSender hn
  · cases hn
  · cases hn
  · next b haccept hclient =>
    obtain ⟨receiver,hr,rfl⟩ := Option.map_eq_some_iff.mp hn
    obtain ⟨hends,hsize⟩ := TcpReceiver.ends_eq hr haccept hclient
    refine h.receive hr hsize ?_ rfl rfl rfl
    rw [Joined,hends]
    exact h.joined
  · split_ifs at hn with hwhen
    obtain ⟨receiver,hr,rfl⟩ := Option.map_eq_some_iff.mp hn
    obtain ⟨hends,hsize⟩ := TcpReceiver.ends_accept hr
    refine h.receive hr hsize (.inr ⟨[],false,rfl,?_,?_,nofun⟩) rfl rfl rfl
    · obtain ⟨-,hnone,-⟩ | ⟨_,_,hacc,-⟩ := h.joined
      · exact hends.trans (by rw [hnone]; rfl)
      · rw [hwhen.1] at hacc
        cases hacc
    · obtain ⟨-,-,hwire⟩ | ⟨_,_,hacc,-⟩ := h.joined
      · exact hwire
      · rw [hwhen.1] at hacc
        cases hacc
  · next k =>
    obtain ⟨receiver,hr,rfl⟩ := Option.map_eq_some_iff.mp hn
    obtain ⟨c,hacc,hclosed,hstream,hends,hsize⟩ := h.joined.client hr
    refine h.receive hr hsize (.inr ⟨_,c.closed,hacc,hends,?_,?_⟩) rfl rfl rfl
    · rw [←hstream]
      change c.sent ++ s.wire.take k ++ s.wire.drop k = _
      rw [List.append_assoc,List.take_append_drop]
    · rw [hclosed]
      nofun
  · split_ifs at hn with hwhen
    obtain ⟨receiver,hr,rfl⟩ := Option.map_eq_some_iff.mp hn
    obtain ⟨c,hacc,-,hstream,hends,hsize⟩ := h.joined.client hr
    exact h.receive hr hsize (.inr ⟨_,true,hacc,hends,hstream,fun _ => hwhen⟩) rfl rfl rfl

/-- Whatever sizes `send` takes, the wire brings and `recv` splits off: what the receiver logs are
pieces of what the sender has sent, in its order and with nothing left out, each without the line
ends at its end. When the receiver says that the client has disconnected, it is all that was sent
and the sender is done. -/
theorem received_stream (run : Exec (machine opts args) tr s)
    (htext : 0 ∉ s.sender.config.message) (hroom : 2 ≤ s.receiver.bufferSize) :
    ∃ (sizes : List ℕ) (chunks : List (List UInt8)),
      sizes.length = s.sender.sentCount ∧ (∀ k ∈ sizes, k ≤ cSize s.sender.config.msgSize) ∧
      s.stream = sizes.flatMap (s.sender.config.message.take ·) ∧
      s.receiver.log.filterMap TcpLine.message = chunks.map (·.rdropWhile RxBuf.isLineEnd) ∧
      chunks.flatten <+: s.stream ∧
      ((∃ c ∈ s.receiver.connections, c.ending = some .disconnected) →
        chunks.flatten = s.stream ∧ s.sender.Exited) := by
  have h : Linked s := by
    refine run.invariant (C := fun _ _ => True) ?_ (fun _ _ _ h _ hn => h.next hn)
      fun _ _ => trivial
    rintro s ⟨⟨c,-,hsender⟩,-,⟨hargs,mem,hreceiver⟩,hacc,hwire,hstream⟩
    have hsent : s.sender.sentCount = 0 := by
      rw [hsender,UdpTcpSender.sentCount,UdpTcpSender.start]
      split_ifs <;> rfl
    refine ⟨?_,fun _ _ => ?_,.inl ⟨hacc,by rw [hreceiver]; rfl,by rw [hwire,hstream]⟩,[],?_⟩
    · rw [hreceiver]
      exact ⟨hargs.bufferSize_bounds.1,by simp [TcpStage.client]⟩
    · rw [hreceiver]
      exact ⟨fun _ h => absurd h List.not_mem_nil,rfl,fun _ h => absurd h List.not_mem_nil⟩
    · exact ⟨hsent.symm,by simp,hstream⟩
  obtain ⟨sizes,hlength,hbound,hstream⟩ := h.sized
  have hdelivers := h.delivers htext hroom
  refine ⟨sizes,s.receiver.connections.flatMap (·.chunks),hlength,hbound,hstream,
    hdelivers.logged,?_⟩
  obtain ⟨-,hends,-⟩ | ⟨sent,closed,-,hends,hpre,hclosed⟩ := h.joined
  · have hnone : s.receiver.connections = [] := List.map_eq_nil_iff.mp hends
    rw [hnone]
    exact ⟨List.nil_prefix,by rintro ⟨c,hc,-⟩; cases hc⟩
  · obtain ⟨c,hone,hend⟩ := List.map_eq_singleton_iff.mp hends
    obtain ⟨hsent,hc⟩ := Prod.mk.inj hend
    obtain ⟨hunread,hconcluded⟩ := hdelivers.faithful c (by rw [hone]; exact List.mem_singleton_self c)
    rw [hone,List.flatMap_singleton]
    refine ⟨⟨c.unread ++ s.wire,?_⟩,?_⟩
    · rw [←List.append_assoc,hunread,hsent,hpre]
    · rintro ⟨d,hd,hending⟩
      rw [List.mem_singleton.mp hd] at hending
      obtain ⟨hdone,hall⟩ := hconcluded hending
      obtain ⟨hwire,hexited⟩ := hclosed (hc ▸ hdone)
      refine ⟨?_,hexited⟩
      rw [hall,hsent,←hpre,hwire,List.append_nil]

/-- `-T` and `-m` with a line end. -/
def streamOptions : List SenderOption := [.T,.m (cBytes "hi\n")]

def streamConfig : SenderConfig :=
  {SenderConfig.default with protocol := .tcp, message := cBytes "hi\n"}

def streamArgs : ReceiverArgs := ⟨some (cBytes "8"),none⟩

def streamLink : TcpLink := ⟨.start streamConfig,.fresh streamArgs,false,[],[]⟩

/-- Of two messages the first is taken in part by `send`, and the second comes in one chunk with the
rest of the wire before the sender is stopped. -/
def streamRun : List TcpLinkAction := [.sender (.resolve 0),.sender (.setup true),
  .sender (.setup true),.sender .test,.sender (.send (.sent 2)),.receiver .test,.accept,
  .transfer 1,.receiver .test,.receiver (.recv (.bytes 1)),.sender .wake,.sender .test,
  .sender (.send (.sent 3)),.transfer 4,.receiver .test,.receiver (.recv (.bytes 4)),
  .sender .signal,.sender .wake,.sender .test,.close,.receiver .test,.receiver (.recv (.bytes 0))]

theorem received_stream_twoMessages : ∃ tr, ∃ s : TcpLink,
    Exec (machine streamOptions streamArgs) tr s ∧ s.sender.sentCount = 2 ∧
    s.receiver.log.filterMap TcpLine.message = [cBytes "h",cBytes "ihi"] ∧
    ∃ chunks : List (List UInt8), [cBytes "h",cBytes "ihi"] = chunks.map (·.rdropWhile RxBuf.isLineEnd) ∧
      chunks.flatten = cBytes "hihi\n" := by
  have hc : SenderConfig.default.options streamOptions = .ok streamConfig := by decide
  have hv : ((machine streamOptions streamArgs).run streamLink streamRun).map
      (fun s => ((s.sender.sentCount,s.stream,s.sender.config.message),
        (s.receiver.bufferSize,s.receiver.log.filterMap TcpLine.message),
        s.receiver.connections.map (·.ending))) =
      some ((2,cBytes "hihi\n",cBytes "hi\n"),(8,[cBytes "h",cBytes "ihi"]),
        [some .disconnected]) := by decide
  obtain ⟨s,hs,hr⟩ := Option.map_eq_some_iff.mp hv
  simp only [Prod.mk.injEq] at hr
  obtain ⟨⟨hsent,hstream,hmessage⟩,⟨hsize,hlog⟩,hending⟩ := hr
  have hinit : (machine streamOptions streamArgs).init streamLink :=
    ⟨⟨_,hc,rfl⟩,rfl,fresh_init (by decide),rfl,rfl,rfl⟩
  have run := Exec.of_run hinit hs
  obtain ⟨-,chunks,-,-,-,hpieces,-,hall⟩ := received_stream run (by rw [hmessage]; decide)
    (by rw [hsize]; decide)
  obtain ⟨c,hone,hc⟩ := List.map_eq_singleton_iff.mp hending
  have hdone := hall ⟨c,by rw [hone]; exact List.mem_singleton_self c,hc⟩
  exact ⟨_,s,run,hsent,hlog,chunks,by rw [←hlog]; exact hpieces,by rw [hdone.1,hstream]⟩

end TcpLink
end TTK4145.Exercise2
