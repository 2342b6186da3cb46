import TTK4145.Lib.Machine
import TTK4145.Exercise2.Arguments
import TTK4145.Exercise2.RxBuf

/-! The accept and receive loops of `Exercise2/tcp_receiver/src/tcp_receiver.c`, with clients that
send and close whenever they like, and any way in which `recv` splits what they send. -/
namespace TTK4145.Exercise2
open Lib

/-- Why the receive loop of a client was left. -/
inductive Ending where
  | disconnected
  | recvFailed
  | stopped
  deriving DecidableEq, Repr

/-- A connection: what the client has sent, whether it has closed its side, the bytes that wait in
the kernel, and, as a history, the chunks that `recv` brought. -/
structure Connection where
  sent : List UInt8
  closed : Bool
  unread : List UInt8
  chunks : List (List UInt8)
  ending : Option Ending
  deriving DecidableEq

inductive ClientEvent where
  | send (bytes : List UInt8)
  | close
  deriving DecidableEq

namespace Connection

def opened : Connection := ⟨[],false,[],[],none⟩

/-- The client sends, or closes its side. -/
def event (c : Connection) : ClientEvent → Connection
  | .send bytes => {c with sent := c.sent ++ bytes, unread := c.unread ++ bytes}
  | .close => {c with closed := true}

/-- `recv` takes the next `k` bytes. -/
def receive (c : Connection) (k : ℕ) : Connection :=
  {c with unread := c.unread.drop k, chunks := c.chunks ++ [c.unread.take k]}

/-- With room for `room` bytes `recv` returns at most these, and 0 only without room or at the end
of the stream. -/
def Recv (c : Connection) (room k : ℕ) : Prop :=
  k ≤ room ∧ k ≤ c.unread.length ∧ (k = 0 → room = 0 ∨ c.closed = true ∧ c.unread = [])

instance (c : Connection) (room k : ℕ) : Decidable (c.Recv room k) :=
  inferInstanceAs (Decidable (_ ∧ _ ∧ _))

end Connection

/-- The next statement: the tests of the two loops, `accept` and `recv`. -/
inductive TcpStage where
  | test
  | accept
  | innerTest (c : Connection)
  | recv (c : Connection)
  | exited
  deriving DecidableEq

/-- The client being served, if any. -/
def TcpStage.client : TcpStage → List Connection
  | .innerTest c | .recv c => [c]
  | _ => []

/-- The lines of the log, without the address of the client. -/
inductive TcpLine where
  | waiting
  | acceptFailed
  | connected
  | recvFailed
  | disconnected
  | received (bytes : ℕ) (message : List UInt8)
  | shutdown
  deriving DecidableEq, Repr

def TcpLine.message : TcpLine → Option (List UInt8)
  | .received _ message => some message
  | _ => none

inductive AcceptOutcome where
  | connected
  | interrupted
  | error
  deriving DecidableEq, Repr

inductive RecvOutcome where
  | bytes (k : ℕ)
  | interrupted
  | error
  deriving DecidableEq, Repr

inductive TcpAction where
  | signal
  | test
  | accept (r : AcceptOutcome)
  | client (e : ClientEvent)
  | recv (r : RecvOutcome)
  deriving DecidableEq

structure TcpReceiver where
  bufferSize : ℤ
  repetitions : ℤ
  running : Bool
  stage : TcpStage
  rxBuf : RxBuf
  log : List TcpLine
  past : List Connection

namespace TcpReceiver

/-- `buffer_size - 1`, as a `size_t`. -/
def room (s : TcpReceiver) : ℕ := (s.bufferSize-1).toNat

/-- All clients so far. -/
def connections (s : TcpReceiver) : List Connection := s.past ++ s.stage.client

def report (s : TcpReceiver) (line : TcpLine) : TcpReceiver := {s with log := s.log ++ [line]}

def goto (s : TcpReceiver) (stage : TcpStage) : TcpReceiver := {s with stage := stage}

/-- The statements behind the accept loop. -/
def finish (s : TcpReceiver) : TcpReceiver :=
  if s.running then s.goto .exited else (s.goto .exited).report .shutdown

/-- Out of the receive loop, to `close(client_fd)` and back to the accept loop. -/
def leave (s : TcpReceiver) (c : Connection) (ending : Ending) : TcpReceiver :=
  {s.goto .test with past := s.past ++ [{c with ending := some ending}]}

/-- The rest of the receive loop's body for `k` bytes. -/
def handle (s : TcpReceiver) (c : Connection) (k : ℕ) : TcpReceiver :=
  let received := s.rxBuf.recv (c.unread.take k)
  let stripped := (received.1.write received.2 0).strip received.2
  let printed := stripped.1.print stripped.2
  let repetitions := if s.repetitions>0 then s.repetitions-1 else s.repetitions
  let t := {s.report (.received stripped.2 printed.2) with
    rxBuf := printed.1, repetitions := repetitions}
  if repetitions = 0 then {t with running := false}.leave (c.receive k) .stopped
  else t.goto (.innerTest (c.receive k))

def next (s : TcpReceiver) : TcpAction → Option TcpReceiver
  | .signal => some {s with running := false}
  | .test => match s.stage with
    | .test => some (if s.running then (s.goto .accept).report .waiting else s.finish)
    | .innerTest c => some (if s.running then s.goto (.recv c) else s.leave c .stopped)
    | _ => none
  | .accept r => match s.stage,r with
    | .accept,.connected => some ((s.goto (.innerTest .opened)).report .connected)
    | .accept,.interrupted => some (s.goto .test)
    | .accept,.error => some (s.report .acceptFailed).finish
    | _,_ => none
  | .client e => match s.stage with
    | .innerTest c => if c.closed then none else some (s.goto (.innerTest (c.event e)))
    | .recv c => if c.closed then none else some (s.goto (.recv (c.event e)))
    | _ => none
  | .recv r => match s.stage,r with
    | .recv c,.bytes k => if c.Recv s.room k then
        some (if k = 0 then (s.report .disconnected).leave c .disconnected else s.handle c k)
      else none
    | .recv c,.interrupted => some (s.goto (.innerTest c))
    | .recv c,.error => some ((s.report .recvFailed).leave c .recvFailed)
    | _,_ => none

/-- The program behind `malloc`, with the values of its arguments and an arbitrary block. -/
def machine (args : ReceiverArgs) : Machine TcpReceiver TcpAction where
  init s := args.Accepted ∧
    ∃ mem, s = ⟨args.bufferSize,args.repetitionCount,true,.test,⟨mem,[]⟩,[],[]⟩
  next := next

end TcpReceiver

/-- What was received of a client is the start of what it sent, and all of it where the client is
said to have disconnected, which it then did. -/
structure Connection.Faithful (c : Connection) : Prop where
  stream : c.chunks.flatten ++ c.unread = c.sent
  concluded : c.ending = some .disconnected → c.closed = true ∧ c.chunks.flatten = c.sent

/-- The law of the receiver: faithful connections, messages that are the chunks received without
their trailing line ends, and a buffer used within its bounds. -/
structure Delivers (s : TcpReceiver) : Prop where
  faithful : ∀ c ∈ s.connections, c.Faithful
  logged : s.log.filterMap TcpLine.message =
    (s.connections.flatMap (·.chunks)).map (·.rdropWhile RxBuf.isLineEnd)
  indices : ∀ i ∈ s.rxBuf.accessed, (i : ℤ)<s.bufferSize

/-- There is room for a byte, unless the client is done, and no NUL among the bytes received. -/
def ReceivesText (s : TcpReceiver) : TcpAction → Prop
  | .recv (.bytes k) => ∀ c ∈ s.stage.client,
    (2 ≤ s.bufferSize ∨ c.closed = true ∧ c.unread = []) ∧ 0 ∉ c.unread.take k
  | _ => True

instance (s : TcpReceiver) : (a : TcpAction) → Decidable (ReceivesText s a)
  | .recv (.bytes k) => inferInstanceAs (Decidable (∀ c ∈ s.stage.client,
      (2 ≤ s.bufferSize ∨ c.closed = true ∧ c.unread = []) ∧ 0 ∉ c.unread.take k))
  | .recv .interrupted | .recv .error | .signal | .test | .accept _ | .client _ => isTrue trivial

section Delivery
variable {args : ReceiverArgs} {tr : List (TcpReceiver × TcpAction)} {s t : TcpReceiver}
  {a : TcpAction} {c : Connection} {k : ℕ}

/-- No client being served has been given up, nothing of its stream is lost, and the buffer has a
byte. -/
structure Serving (s : TcpReceiver) : Prop where
  size : 1 ≤ s.bufferSize
  client : ∀ c ∈ s.stage.client, c.chunks.flatten ++ c.unread = c.sent ∧ c.ending = none

theorem Serving.faithful (h : Serving s) : ∀ c ∈ s.stage.client, c.Faithful := by
  intro c hc
  obtain ⟨hstream,hending⟩ := h.client c hc
  refine ⟨hstream,fun he => ?_⟩
  rw [hending] at he
  cases he

/-- A step that leaves the earlier clients alone, and brings the present one chunks and the log
messages. -/
theorem delivers_iff {client : List Connection} {more messages : List (List UInt8)} {used : List ℕ}
    (hs : ∀ c ∈ s.stage.client, c.Faithful) (hconnections : t.connections = s.past ++ client)
    (hchunks : client.flatMap (·.chunks) = s.stage.client.flatMap (·.chunks) ++ more)
    (hlog : t.log.filterMap TcpLine.message = s.log.filterMap TcpLine.message ++ messages)
    (hlength : messages.length = more.length) (hsize : t.bufferSize = s.bufferSize)
    (haccessed : t.rxBuf.accessed = s.rxBuf.accessed ++ used)
    (hused : ∀ i ∈ used, (i : ℤ)<s.bufferSize) :
    Delivers t ↔ Delivers s ∧ (∀ c ∈ client, c.Faithful) ∧
      messages = more.map (·.rdropWhile RxBuf.isLineEnd) := by
  have hlogged : t.log.filterMap TcpLine.message =
      (t.connections.flatMap (·.chunks)).map (·.rdropWhile RxBuf.isLineEnd) ↔
      s.log.filterMap TcpLine.message =
        (s.connections.flatMap (·.chunks)).map (·.rdropWhile RxBuf.isLineEnd) ∧
      messages = more.map (·.rdropWhile RxBuf.isLineEnd) := by
    rw [hlog,hconnections,TcpReceiver.connections,List.flatMap_append,List.flatMap_append,hchunks,
      ←List.append_assoc,List.map_append]
    refine ⟨fun h => List.append_inj' h ?_,fun h => by rw [h.1,h.2]⟩
    rw [hlength,List.length_map]
  constructor
  · intro h
    have hl := hlogged.mp h.logged
    refine ⟨⟨fun c hc => ?_,hl.1,fun i hi => ?_⟩,fun c hc => ?_,hl.2⟩
    · obtain hc | hc := List.mem_append.mp hc
      · exact h.faithful c (by rw [hconnections]; exact List.mem_append_left _ hc)
      · exact hs c hc
    · rw [←hsize]
      exact h.indices i (by rw [haccessed]; exact List.mem_append_left _ hi)
    · exact h.faithful c (by rw [hconnections]; exact List.mem_append_right _ hc)
  · rintro ⟨h,hclient,hmessages⟩
    refine ⟨fun c hc => ?_,hlogged.mpr ⟨h.logged,hmessages⟩,fun i hi => ?_⟩
    · rw [hconnections] at hc
      obtain hc | hc := List.mem_append.mp hc
      · exact h.faithful c (List.mem_append_left _ hc)
      · exact hclient c hc
    · rw [haccessed] at hi
      rw [hsize]
      obtain hi | hi := List.mem_append.mp hi
      · exact h.indices i hi
      · exact hused i hi

/-- A step that receives nothing, and neither loses the present client nor takes it for
disconnected. -/
theorem delivers_of_silent {client : List Connection} (h : Serving s)
    (hconnections : t.connections = s.past ++ client)
    (hchunks : client.flatMap (·.chunks) = s.stage.client.flatMap (·.chunks))
    (hlog : t.log.filterMap TcpLine.message = s.log.filterMap TcpLine.message)
    (hsize : t.bufferSize = s.bufferSize) (hbuf : t.rxBuf = s.rxBuf) :
    Delivers t ↔ Delivers s ∧ ∀ c ∈ client, c.Faithful := by
  have hmore : client.flatMap (·.chunks) = s.stage.client.flatMap (·.chunks) ++ [] := by
    rw [hchunks,List.append_nil]
  have hmessages : t.log.filterMap TcpLine.message = s.log.filterMap TcpLine.message ++ [] := by
    rw [hlog,List.append_nil]
  have hused : t.rxBuf.accessed = s.rxBuf.accessed ++ [] := by rw [hbuf,List.append_nil]
  rw [delivers_iff h.faithful hconnections hmore hmessages rfl hsize hused nofun,List.map_nil,
    eq_self_iff_true,and_true]

/-- The statements behind the loops receive nothing. -/
theorem Serving.finish (h : Serving s) (hclient : s.stage.client = []) :
    Serving s.finish ∧ (Delivers s.finish ↔ Delivers s) := by
  have hconnections : s.finish.connections = s.past ++ [] := by
    simp only [TcpReceiver.finish]
    split_ifs <;> rfl
  have hlog : s.finish.log.filterMap TcpLine.message = s.log.filterMap TcpLine.message := by
    simp only [TcpReceiver.finish]
    split_ifs
    · rfl
    · simp [TcpReceiver.report,TcpReceiver.goto,TcpLine.message]
  have hrest : s.finish.bufferSize = s.bufferSize ∧ s.finish.rxBuf = s.rxBuf ∧
      s.finish.stage = .exited := by
    simp only [TcpReceiver.finish]
    split_ifs <;> exact ⟨rfl,rfl,rfl⟩
  obtain ⟨hsize,hbuf,hstage⟩ := hrest
  refine ⟨⟨by rw [hsize]; exact h.size,by rw [hstage]; nofun⟩,?_⟩
  rw [delivers_of_silent h hconnections (by rw [hclient]) hlog hsize hbuf,and_iff_left nofun]

/-- The receive loop is left for another reason than a `recv` that returned 0. -/
theorem Serving.leave (h : Serving s) (hs : s.stage.client = [c]) {e : Ending}
    (he : e ≠ .disconnected) : Serving (s.leave c e) ∧ (Delivers (s.leave c e) ↔ Delivers s) := by
  have hconnections : (s.leave c e).connections = s.past ++ [{c with ending := some e}] :=
    List.append_nil _
  refine ⟨⟨h.size,nofun⟩,?_⟩
  rw [delivers_of_silent h hconnections (by rw [hs]; rfl) rfl rfl rfl,and_iff_left]
  intro c' hc'
  rw [List.mem_singleton] at hc'
  subst hc'
  obtain ⟨hstream,-⟩ := h.client c (by rw [hs]; exact List.mem_singleton_self c)
  exact ⟨hstream,fun hd => absurd (Option.some.inj hd) he⟩

/-- A `recv` that returned 0 is right about a client that is done. -/
theorem Serving.disconnect (h : Serving s) (hs : s.stage = .recv c) (hrecv : c.Recv s.room 0) :
    Serving ((s.report .disconnected).leave c .disconnected) ∧
      (Delivers ((s.report .disconnected).leave c .disconnected) ↔
        Delivers s ∧ (2 ≤ s.bufferSize ∨ c.closed = true ∧ c.unread = [])) := by
  have hclient : s.stage.client = [c] := by rw [hs]; rfl
  have hconnections : ((s.report .disconnected).leave c .disconnected).connections =
      s.past ++ [{c with ending := some .disconnected}] := List.append_nil _
  obtain ⟨hstream,-⟩ := h.client c (by rw [hclient]; exact List.mem_singleton_self c)
  refine ⟨⟨h.size,nofun⟩,?_⟩
  have hdone : (∀ c' ∈ [{c with ending := some Ending.disconnected}], c'.Faithful) ↔
      2 ≤ s.bufferSize ∨ c.closed = true ∧ c.unread = [] := by
    rw [List.forall_mem_singleton]
    constructor
    · intro hf
      obtain ⟨hclosed,hall⟩ := hf.concluded rfl
      refine .inr ⟨hclosed,?_⟩
      change c.chunks.flatten = c.sent at hall
      rwa [←hstream,List.self_eq_append_right] at hall
    · intro hc
      obtain ⟨hclosed,hunread⟩ : c.closed = true ∧ c.unread = [] := by
        obtain hsize | hc := hc
        · refine (hrecv.2.2 rfl).resolve_left fun hroom => ?_
          have : (s.bufferSize-1).toNat = 0 := hroom
          omega
        · exact hc
      refine ⟨hstream,fun _ => ⟨hclosed,?_⟩⟩
      rw [hunread,List.append_nil] at hstream
      exact hstream
  rw [delivers_of_silent h hconnections (by rw [hclient]; rfl) ?_ rfl rfl,hdone]
  simp [TcpReceiver.leave,TcpReceiver.goto,TcpReceiver.report,TcpLine.message]

/-- What the loop body does with the buffer, the log and the counter, whether it goes on or not. -/
theorem TcpReceiver.handle_fields (s : TcpReceiver) (c : Connection) (k : ℕ) :
    let received := (s.rxBuf.recv (c.unread.take k)).1.write (c.unread.take k).length 0
    let stripped := received.strip (c.unread.take k).length
    (s.handle c k).bufferSize = s.bufferSize ∧
    (s.handle c k).rxBuf = (stripped.1.print stripped.2).1 ∧
    (s.handle c k).log = s.log ++ [.received stripped.2 (stripped.1.print stripped.2).2] ∧
    (s.handle c k).repetitions = if s.repetitions>0 then s.repetitions-1 else s.repetitions := by
  simp only [TcpReceiver.handle]
  generalize (if s.repetitions>0 then s.repetitions-1 else s.repetitions) = repetitions
  split_ifs <;> exact ⟨rfl,rfl,rfl,rfl⟩

/-- The chunk that brings the counter to zero stops both loops, and any other leaves the client to
the next `recv`. -/
theorem TcpReceiver.handle_cases (s : TcpReceiver) (c : Connection) (k : ℕ) :
    (s.handle c k).repetitions = 0 ∧ (s.handle c k).stage = .test ∧
      (s.handle c k).past = s.past ++ [{c.receive k with ending := some .stopped}] ∧
      (s.handle c k).running = false ∨
    (s.handle c k).repetitions ≠ 0 ∧ (s.handle c k).stage = .innerTest (c.receive k) ∧
      (s.handle c k).past = s.past ∧ (s.handle c k).running = s.running := by
  simp only [TcpReceiver.handle]
  generalize (if s.repetitions>0 then s.repetitions-1 else s.repetitions) = repetitions
  split_ifs with hzero
  · exact .inl ⟨hzero,rfl,rfl,rfl⟩
  · exact .inr ⟨hzero,rfl,rfl,rfl⟩

/-- A chunk is logged in full if it holds no NUL. -/
theorem Serving.handle (h : Serving s) (hs : s.stage = .recv c) (hrecv : c.Recv s.room k) :
    Serving (s.handle c k) ∧
      (Delivers (s.handle c k) ↔ Delivers s ∧ 0 ∉ c.unread.take k) := by
  have hclient : s.stage.client = [c] := by rw [hs]; rfl
  obtain ⟨hstream,hending⟩ := h.client c (by rw [hclient]; exact List.mem_singleton_self c)
  have hlen : (c.unread.take k).length = k := List.length_take_of_le hrecv.2.1
  have hstream' : (c.receive k).chunks.flatten ++ (c.receive k).unread = c.sent := by
    simp only [Connection.receive,List.flatten_append,List.flatten_singleton,List.append_assoc,
      List.take_append_drop]
    exact hstream
  obtain ⟨hsize,hbuf,hlog,-⟩ := s.handle_fields c k
  obtain ⟨e,he,hconnections,hcurrent⟩ : ∃ e, e ≠ some Ending.disconnected ∧
      (s.handle c k).connections = s.past ++ [{c.receive k with ending := e}] ∧
      ((s.handle c k).stage.client = [c.receive k] ∨ (s.handle c k).stage.client = []) := by
    rcases s.handle_cases c k with ⟨-,hstage,hpast,-⟩ | ⟨-,hstage,hpast,-⟩
    · refine ⟨some .stopped,by decide,?_,.inr (by rw [hstage]; rfl)⟩
      rw [TcpReceiver.connections,hstage,hpast]
      exact List.append_nil _
    · refine ⟨c.ending,by rw [hending]; decide,?_,.inl (by rw [hstage]; rfl)⟩
      rw [TcpReceiver.connections,hstage,hpast]
      rfl
  have hmessage := RxBuf.print_received (b := s.rxBuf) (c.unread.take k)
  obtain ⟨used,hacc,hused⟩ := (s.rxBuf.recv (c.unread.take k)).1.print_accessed
    (c.unread.take k).length
  refine ⟨⟨by rw [hsize]; exact h.size,fun c' hc' => ?_⟩,?_⟩
  · obtain hcur | hcur := hcurrent
    · rw [hcur,List.mem_singleton] at hc'
      subst hc'
      exact ⟨hstream',hending⟩
    · rw [hcur] at hc'
      cases hc'
  · have hfaithful : ∀ c' ∈ [{c.receive k with ending := e}], c'.Faithful := by
      rw [List.forall_mem_singleton]
      exact ⟨hstream',fun hd => absurd hd he⟩
    have hmore : [{c.receive k with ending := e}].flatMap (·.chunks) =
        s.stage.client.flatMap (·.chunks) ++ [c.unread.take k] := by
      rw [hclient]
      simp [Connection.receive]
    have hmessages : (s.handle c k).log.filterMap TcpLine.message =
        s.log.filterMap TcpLine.message ++
          [((c.unread.take k).rdropWhile RxBuf.isLineEnd).takeWhile (· ≠ 0)] := by
      rw [hlog,List.filterMap_append,←hmessage]
      rfl
    have haccessed : (s.handle c k).rxBuf.accessed = s.rxBuf.accessed ++
        (List.range (c.unread.take k).length ++ (c.unread.take k).length::used) := by
      rw [hbuf,←List.append_assoc]
      exact hacc
    have hbound : ∀ i ∈ List.range (c.unread.take k).length ++ (c.unread.take k).length::used,
        (i : ℤ)<s.bufferSize := by
      intro i hi
      have hroom : k ≤ (s.bufferSize-1).toNat := hrecv.1
      have hsize := h.size
      have hle : i ≤ k := by
        rw [hlen] at hi hused
        obtain hi | hi | hi := by
          simpa only [List.mem_append,List.mem_range,List.mem_cons] using hi
        · exact hi.le
        · exact hi.le
        · exact hused i hi
      omega
    rw [delivers_iff h.faithful hconnections hmore hmessages rfl hsize haccessed hbound,
      and_iff_right hfaithful,List.map_singleton,List.singleton_inj,RxBuf.print_received_iff]

/-- Another present client, or none, with the same chunks. -/
theorem Serving.silent (h : Serving s) (hpast : t.past = s.past)
    (hchunks : t.stage.client.flatMap (·.chunks) = s.stage.client.flatMap (·.chunks))
    (hclient : ∀ c ∈ t.stage.client, c.chunks.flatten ++ c.unread = c.sent ∧ c.ending = none)
    (hlog : t.log.filterMap TcpLine.message = s.log.filterMap TcpLine.message)
    (hsize : t.bufferSize = s.bufferSize) (hbuf : t.rxBuf = s.rxBuf) :
    Serving t ∧ (Delivers t ↔ Delivers s) := by
  have ht : Serving t := ⟨by rw [hsize]; exact h.size,hclient⟩
  refine ⟨ht,?_⟩
  rw [delivers_of_silent h (by rw [TcpReceiver.connections,hpast]) hchunks hlog hsize hbuf,
    and_iff_left ht.faithful]

theorem Serving.sameClient (h : Serving s) (hpast : t.past = s.past)
    (hclient : t.stage.client = s.stage.client)
    (hlog : t.log.filterMap TcpLine.message = s.log.filterMap TcpLine.message)
    (hsize : t.bufferSize = s.bufferSize) (hbuf : t.rxBuf = s.rxBuf) :
    Serving t ∧ (Delivers t ↔ Delivers s) :=
  h.silent hpast (by rw [hclient]) (by rw [hclient]; exact h.client) hlog hsize hbuf

/-- An event at the client's side loses nothing. -/
theorem Serving.event (h : Serving s) (hs : s.stage.client = [c]) (e : ClientEvent)
    (hpast : t.past = s.past) (ht : t.stage.client = [c.event e]) (hlog : t.log = s.log)
    (hsize : t.bufferSize = s.bufferSize) (hbuf : t.rxBuf = s.rxBuf) :
    Serving t ∧ (Delivers t ↔ Delivers s) := by
  obtain ⟨hstream,hending⟩ := h.client c (by rw [hs]; exact List.mem_singleton_self c)
  refine h.silent hpast (by rw [hs,ht]; cases e <;> rfl) (fun c' hc' => ?_) (by rw [hlog]) hsize
    hbuf
  rw [ht] at hc'
  rw [List.mem_singleton.mp hc']
  cases e with
  | send bytes => exact ⟨by simp only [Connection.event,←List.append_assoc,hstream],hending⟩
  | close => exact ⟨hstream,hending⟩

theorem Serving.stepTest (h : Serving s) (hn : s.next .test = some t) :
    Serving t ∧ (Delivers t ↔ Delivers s) := by
  simp only [TcpReceiver.next] at hn
  split at hn
  · rename_i hs
    have hclient : s.stage.client = [] := by rw [hs]; rfl
    split_ifs at hn
    · cases hn
      exact h.sameClient rfl hclient.symm
        (by simp [TcpReceiver.report,TcpReceiver.goto,TcpLine.message]) rfl rfl
    · cases hn
      exact h.finish hclient
  · rename_i c hs
    have hclient : s.stage.client = [c] := by rw [hs]; rfl
    split_ifs at hn
    · cases hn
      exact h.sameClient rfl hclient.symm rfl rfl rfl
    · cases hn
      exact h.leave hclient (by decide)
  · cases hn

theorem Serving.stepAccept {r : AcceptOutcome} (h : Serving s) (hn : s.next (.accept r) = some t) :
    Serving t ∧ (Delivers t ↔ Delivers s) := by
  simp only [TcpReceiver.next] at hn
  split at hn
  · rename_i hs
    have hclient : s.stage.client = [] := by rw [hs]; rfl
    cases hn
    refine h.silent rfl (by rw [hclient]; rfl) (fun c hc => ?_)
      (by simp [TcpReceiver.report,TcpReceiver.goto,TcpLine.message]) rfl rfl
    rw [List.mem_singleton.mp hc]
    exact ⟨rfl,rfl⟩
  · rename_i hs
    have hclient : s.stage.client = [] := by rw [hs]; rfl
    cases hn
    exact h.sameClient rfl hclient.symm rfl rfl rfl
  · rename_i hs
    have hclient : s.stage.client = [] := by rw [hs]; rfl
    cases hn
    have hreport := h.sameClient (t := s.report .acceptFailed) rfl rfl
      (by simp [TcpReceiver.report,TcpLine.message]) rfl rfl
    obtain ⟨hserving,hiff⟩ := hreport.1.finish hclient
    exact ⟨hserving,hiff.trans hreport.2⟩
  · cases hn

theorem Serving.stepClient {e : ClientEvent} (h : Serving s) (hn : s.next (.client e) = some t) :
    Serving t ∧ (Delivers t ↔ Delivers s) := by
  simp only [TcpReceiver.next] at hn
  split at hn
  · rename_i c hs
    have hclient : s.stage.client = [c] := by rw [hs]; rfl
    split_ifs at hn
    cases hn
    exact h.event hclient e rfl rfl rfl rfl rfl
  · rename_i c hs
    have hclient : s.stage.client = [c] := by rw [hs]; rfl
    split_ifs at hn
    cases hn
    exact h.event hclient e rfl rfl rfl rfl rfl
  · cases hn

theorem Serving.stepRecv {r : RecvOutcome} (h : Serving s) (hn : s.next (.recv r) = some t) :
    Serving t ∧ (Delivers t ↔ Delivers s ∧ ReceivesText s (.recv r)) := by
  simp only [TcpReceiver.next] at hn
  split at hn
  · rename_i c k hs
    have htext : ReceivesText s (.recv (.bytes k)) ↔
        (2 ≤ s.bufferSize ∨ c.closed = true ∧ c.unread = []) ∧ 0 ∉ c.unread.take k := by
      rw [ReceivesText,hs]
      exact List.forall_mem_singleton
    split_ifs at hn with hrecv h0
    · cases hn
      subst h0
      rw [htext,List.take_zero,and_iff_left List.not_mem_nil]
      exact h.disconnect hs hrecv
    · cases hn
      have hsize : 2 ≤ s.bufferSize ∨ c.closed = true ∧ c.unread = [] := by
        have hroom : k ≤ (s.bufferSize-1).toNat := hrecv.1
        omega
      rw [htext,and_iff_right hsize]
      exact h.handle hs hrecv
  · rename_i c hs
    have hclient : s.stage.client = [c] := by rw [hs]; rfl
    cases hn
    rw [and_iff_left (by trivial : ReceivesText s (.recv .interrupted))]
    exact h.sameClient rfl hclient.symm rfl rfl rfl
  · rename_i c hs
    have hclient : s.stage.client = [c] := by rw [hs]; rfl
    cases hn
    have hreport := h.sameClient (t := s.report .recvFailed) rfl rfl
      (by simp [TcpReceiver.report,TcpLine.message]) rfl rfl
    obtain ⟨hserving,hiff⟩ := hreport.1.leave (e := .recvFailed) hclient (by decide)
    rw [and_iff_left (by trivial : ReceivesText s (.recv .error))]
    exact ⟨hserving,hiff.trans hreport.2⟩
  · cases hn

/-- One step, and when it keeps the law. -/
theorem Serving.next (h : Serving s) (hn : s.next a = some t) :
    Serving t ∧ (Delivers t ↔ Delivers s ∧ ReceivesText s a) := by
  cases a with
  | signal =>
    cases hn
    rw [and_iff_left (by trivial : ReceivesText s .signal)]
    exact h.sameClient rfl rfl rfl rfl rfl
  | test =>
    rw [and_iff_left (by trivial : ReceivesText s .test)]
    exact h.stepTest hn
  | accept r =>
    rw [and_iff_left (by trivial : ReceivesText s (.accept r))]
    exact h.stepAccept hn
  | client e =>
    rw [and_iff_left (by trivial : ReceivesText s (.client e))]
    exact h.stepClient hn
  | recv r => exact h.stepRecv hn

/-- For every accepted buffer size, every stream of every client and every way of splitting it: the
receiver delivers what its clients send if and only if its buffer holds a byte besides the
terminator, or the client is done by its first `recv`, and no chunk holds a NUL. -/
theorem delivers_iff_receivesText (run : Exec (TcpReceiver.machine args) tr s) :
    Delivers s ↔ Meets ReceivesText tr := by
  have h : Serving s ∧ (Delivers s ↔ Meets ReceivesText tr) := by
    induction run with
    | init h =>
      obtain ⟨hargs,mem,rfl⟩ := h
      exact ⟨⟨hargs.bufferSize_bounds.1,nofun⟩,iff_of_true ⟨nofun,rfl,nofun⟩ meets_nil⟩
    | step run hn ih =>
      obtain ⟨hserving,hiff⟩ := ih.1.next hn
      exact ⟨hserving,by rw [hiff,ih.2,meets_snoc]⟩
  exact h.2

theorem TcpReceiver.finish_keeps (s : TcpReceiver) :
    s.finish.running = s.running ∧ s.finish.repetitions = s.repetitions ∧ s.finish.past = s.past := by
  simp only [finish]
  split_ifs <;> exact ⟨rfl,rfl,rfl⟩

/-- Only a signal and the last repetition clear `running`, and the counter stays at zero. -/
theorem TcpReceiver.next_running (hn : s.next a = some t) :
    (t.running = false → s.running = false ∨ a = .signal ∨ t.repetitions = 0) ∧
    (s.repetitions = 0 → t.repetitions = 0) := by
  have keep {u : TcpReceiver} (hrun : u.running = s.running) (hrep : u.repetitions = s.repetitions) :
      (u.running = false → s.running = false ∨ a = .signal ∨ u.repetitions = 0) ∧
      (s.repetitions = 0 → u.repetitions = 0) :=
    ⟨fun h => .inl (hrun.symm.trans h),fun h => hrep.trans h⟩
  obtain ⟨hfinish,hfinish',-⟩ := s.finish_keeps
  cases ha : a with
  | signal =>
    rw [ha] at hn
    cases hn
    exact ⟨fun _ => .inr (.inl rfl),id⟩
  | test =>
    rw [ha] at hn keep
    simp only [next] at hn
    split at hn
    · split_ifs at hn <;> cases hn
      · exact keep rfl rfl
      · exact keep hfinish hfinish'
    · split_ifs at hn <;> cases hn <;> exact keep rfl rfl
    · cases hn
  | accept r =>
    rw [ha] at hn keep
    simp only [next] at hn
    split at hn <;> cases hn
    · exact keep rfl rfl
    · exact keep rfl rfl
    · obtain ⟨hfinish,hfinish',-⟩ := (s.report .acceptFailed).finish_keeps
      exact keep hfinish hfinish'
  | client e =>
    rw [ha] at hn keep
    simp only [next] at hn
    split at hn
    · split_ifs at hn
      cases hn
      exact keep rfl rfl
    · split_ifs at hn
      cases hn
      exact keep rfl rfl
    · cases hn
  | recv r =>
    rw [ha] at hn keep
    simp only [next] at hn
    split at hn
    · rename_i c k hs
      split_ifs at hn with hrecv h0
      · cases hn
        exact keep rfl rfl
      · cases hn
        have hzero : s.repetitions = 0 → (s.handle c k).repetitions = 0 := by
          intro h
          rw [(s.handle_fields c k).2.2.2,if_neg (by omega),h]
        obtain ⟨hlimit,-⟩ | ⟨-,-,-,hrun⟩ := s.handle_cases c k
        · exact ⟨fun _ => .inr (.inr hlimit),hzero⟩
        · exact ⟨fun h => .inl (hrun.symm.trans h),hzero⟩
    · cases hn
      exact keep rfl rfl
    · cases hn
      exact keep rfl rfl
    · cases hn

/-- Where a client is left, and why. -/
theorem TcpReceiver.next_past (hn : s.next a = some t) : t.past = s.past ∨
    ∃ (c : Connection) (e : Ending), t.past = s.past ++ [{c with ending := some e}] ∧
      (e = .disconnected ∨ e = .recvFailed ∧ a = .recv .error ∨
        e = .stopped ∧ (s.running = false ∨ t.repetitions = 0)) := by
  cases a with
  | signal =>
    cases hn
    exact .inl rfl
  | test =>
    simp only [next] at hn
    split at hn <;> cases hn <;> split_ifs with hrun
    · exact .inl rfl
    · exact .inl s.finish_keeps.2.2
    · exact .inl rfl
    · exact .inr ⟨_,_,rfl,.inr (.inr ⟨rfl,.inl (Bool.not_eq_true _ ▸ hrun)⟩)⟩
  | accept r =>
    simp only [next] at hn
    split at hn <;> cases hn
    · exact .inl rfl
    · exact .inl rfl
    · exact .inl (s.report .acceptFailed).finish_keeps.2.2
  | client e =>
    simp only [next] at hn
    split at hn
    · split_ifs at hn
      cases hn
      exact .inl rfl
    · split_ifs at hn
      cases hn
      exact .inl rfl
    · cases hn
  | recv r =>
    simp only [next] at hn
    split at hn
    · rename_i c k hs
      split_ifs at hn with hrecv h0
      · cases hn
        exact .inr ⟨c,_,rfl,.inl rfl⟩
      · cases hn
        obtain ⟨hlimit,-,hpast,-⟩ | ⟨-,-,hpast,-⟩ := s.handle_cases c k
        · exact .inr ⟨_,_,hpast,.inr (.inr ⟨rfl,.inr hlimit⟩)⟩
        · exact .inl hpast
    · cases hn
      exact .inl rfl
    · rename_i c hs
      cases hn
      exact .inr ⟨c,_,rfl,.inr (.inl ⟨rfl,rfl⟩)⟩
    · cases hn

/-- A client is left before it has disconnected only at an error of `recv`, after a signal or at
the last repetition. -/
theorem TcpReceiver.left_early (run : Exec (TcpReceiver.machine args) tr s) : ∀ c ∈ s.past,
    c.ending = some .disconnected ∨
    c.ending = some .recvFailed ∧ (∃ p ∈ tr, p.2 = .recv .error) ∨
    c.ending = some .stopped ∧ ((∃ p ∈ tr, p.2 = .signal) ∨ s.repetitions = 0) := by
  suffices h : (s.running = false → (∃ p ∈ tr, p.2 = .signal) ∨ s.repetitions = 0) ∧ _ from h.2
  induction run with
  | init h =>
    obtain ⟨-,mem,rfl⟩ := h
    exact ⟨fun h => (by cases h),fun c hc => absurd hc List.not_mem_nil⟩
  | @step tr s a t run hn ih =>
    obtain ⟨hstop,hpast⟩ := ih
    obtain ⟨hrun,hzero⟩ := TcpReceiver.next_running hn
    have before {b : TcpAction} (h : ∃ p ∈ tr, p.2 = b) : ∃ p ∈ tr ++ [(s,a)], p.2 = b := by
      obtain ⟨p,hp,hb⟩ := h
      exact ⟨p,List.mem_append_left _ hp,hb⟩
    have now {b : TcpAction} (h : a = b) : ∃ p ∈ tr ++ [(s,a)], p.2 = b :=
      ⟨(s,a),List.mem_append_right _ (List.mem_singleton_self _),h⟩
    have stopped (h : (∃ p ∈ tr, p.2 = .signal) ∨ s.repetitions = 0) :
        (∃ p ∈ tr ++ [(s,a)], p.2 = .signal) ∨ t.repetitions = 0 := h.imp before hzero
    refine ⟨fun h => ?_,fun c hc => ?_⟩
    · obtain h | h | h := hrun h
      · exact stopped (hstop h)
      · exact .inl (now h)
      · exact .inr h
    · have old (hc : c ∈ s.past) := (hpast c hc).imp_right
        (Or.imp (And.imp_right before) (And.imp_right stopped))
      obtain h | ⟨d,e,h,he⟩ := TcpReceiver.next_past hn
      · exact old (h ▸ hc)
      · rw [h,List.mem_append,List.mem_singleton] at hc
        obtain hc | rfl := hc
        · exact old hc
        · obtain rfl | ⟨rfl,ha⟩ | ⟨rfl,hr⟩ := he
          · exact .inl rfl
          · exact .inr (.inl ⟨rfl,now ha⟩)
          · exact .inr (.inr ⟨rfl,hr.elim (fun h => stopped (hstop h)) .inr⟩)

end Delivery

def TcpReceiver.fresh (args : ReceiverArgs) : TcpReceiver :=
  ⟨args.bufferSize,args.repetitionCount,true,.test,⟨fun _ => 0,[]⟩,[],[]⟩

theorem fresh_init {args : ReceiverArgs} (h : args.Accepted) :
    (TcpReceiver.machine args).init (.fresh args) := ⟨h,fun _ => 0,rfl⟩

/-- A client sends two chunks, one with a line end, and closes; its end is found by the third
`recv`. -/
def twoChunks : List TcpAction := [.test,.accept .connected,.client (.send (cBytes "hi\r\nyou")),
  .test,.recv (.bytes 4),.client .close,.test,.recv .interrupted,.test,.recv (.bytes 3),
  .test,.recv (.bytes 0)]

theorem delivers_iff_receivesText_twoChunks :
    ∃ tr s, Exec (TcpReceiver.machine ⟨some (cBytes "8"),none⟩) tr s ∧
      s.log = [.waiting,.connected,.received 2 (cBytes "hi"),.received 3 (cBytes "you"),
        .disconnected] ∧ Delivers s := by
  have hv : ((TcpReceiver.machine ⟨some (cBytes "8"),none⟩).run
      (.fresh ⟨some (cBytes "8"),none⟩) twoChunks).map (·.log) =
      some [.waiting,.connected,.received 2 (cBytes "hi"),.received 3 (cBytes "you"),
        .disconnected] := by decide
  obtain ⟨s,hs,hr⟩ := Option.map_eq_some_iff.mp hv
  have run := Exec.of_run (fresh_init (by decide)) hs
  exact ⟨_,s,run,hr,(delivers_iff_receivesText run).mpr (by decide)⟩

/-- With `-s 1` the first `recv` asks for no bytes, and its result is taken for the end of a stream
of which nothing was read. -/
theorem one_byte_buffer_disconnects :
    ∃ tr s, Exec (TcpReceiver.machine ⟨some (cBytes "1"),none⟩) tr s ∧
      s.log = [.waiting,.connected,.disconnected] ∧
      s.connections = [⟨cBytes "hi",false,cBytes "hi",[],some .disconnected⟩] ∧ ¬Delivers s := by
  have hv : ((TcpReceiver.machine ⟨some (cBytes "1"),none⟩).run
      (.fresh ⟨some (cBytes "1"),none⟩)
      [.test,.accept .connected,.client (.send (cBytes "hi")),.test,.recv (.bytes 0)]).map
      (fun s => (s.log,s.connections)) = some ([.waiting,.connected,.disconnected],
        [⟨cBytes "hi",false,cBytes "hi",[],some .disconnected⟩]) := by decide
  obtain ⟨s,hs,hr⟩ := Option.map_eq_some_iff.mp hv
  simp only [Prod.mk.injEq] at hr
  obtain ⟨hlog,hconnections⟩ := hr
  refine ⟨_,s,Exec.of_run (fresh_init (by decide)) hs,hlog,hconnections,fun h => ?_⟩
  have hclient := h.faithful ⟨cBytes "hi",false,cBytes "hi",[],some .disconnected⟩
    (by rw [hconnections]; exact List.mem_singleton_self _)
  exact absurd (hclient.concluded rfl).1 (by decide)

end TTK4145.Exercise2
