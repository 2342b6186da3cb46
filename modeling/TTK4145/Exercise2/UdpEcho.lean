import Mathlib.Data.List.Perm.Basic
import TTK4145.Exercise2.UdpLink

/-! `UDPEchoer` of `Exercise2/server_wfh/server_wfh.d` on any number of machines, which also answer
one another, with a network between them that loses, repeats and reorders datagrams. -/
namespace TTK4145.Exercise2
open Lib

structure Datagram (ι : Type*) where
  source : ι
  dest : ι
  port : ℕ
  payload : List UInt8
  deriving DecidableEq

inductive EchoLine (ι : Type*) where
  | receiveError
  | received (source : ι) (text : List UInt8)
  deriving DecidableEq

/-- The datagrams on their way between the machines `ι`, the servers whose thread has ended with an
exception, and the lines that the servers write. `sent` and `repeated` count the datagrams to the
port of the servers which the clients have sent and the network has copied, `echoed` the answers. -/
structure UdpEcho (ι : Type*) where
  flight : List (Datagram ι)
  ended : List ι
  sent : ℕ
  repeated : ℕ
  echoed : ℕ
  log : List (EchoLine ι)

/-- A datagram of the network is known by its place in `flight`. Without a buffer `receiveFrom`
returns 0 at once. -/
inductive UdpEchoAction (ι : Type*) where
  | client (d : Datagram ι)
  | receiveNothing (server : ι)
  | deliver (i : ℕ)
  | lose (i : ℕ)
  | repeat (i : ℕ)
  deriving DecidableEq

/-- `symmetric` and `bufferSize`, which the options of the command line set. -/
structure EchoOptions where
  symmetric : Bool
  bufferSize : ℕ
  deriving DecidableEq

def udpRecvPort : ℕ := 20000

namespace EchoOptions

/-- `udpSendPort`. -/
def udpSendPort (o : EchoOptions) : ℕ := if o.symmetric then udpRecvPort else 20001

/-- What `receiveFrom` leaves in the cleared buffer. -/
def buf (o : EchoOptions) (payload : List UInt8) : List UInt8 :=
  payload.take o.bufferSize ++ List.replicate (o.bufferSize-payload.length) 0

theorem buf_length (o : EchoOptions) (payload : List UInt8) :
    (o.buf payload).length = o.bufferSize := by
  rw [buf,List.length_append,List.length_take,List.length_replicate]
  omega

/-- `!symmetric || !buf.startsWith("You said")`. -/
def answers (o : EchoOptions) (payload : List UInt8) : Bool :=
  !o.symmetric || !(cBytes "You said").isPrefixOf (o.buf payload)

/-- The number of bytes that `receiveFrom` returns. -/
def received (o : EchoOptions) (payload : List UInt8) : ℕ := min payload.length o.bufferSize

/-- `format("You said: %s", buf[0..r])`, back to where the datagram came from. -/
def reply {ι : Type*} (o : EchoOptions) (d : Datagram ι) : Datagram ι :=
  ⟨d.dest,d.source,o.udpSendPort,
    cBytes "You said: " ++ (o.buf d.payload).take (o.received d.payload)⟩

end EchoOptions

section Strip

/-- The first code point of a text can be decoded. -/
def frontDecodes (text : List UInt8) : Bool := (text.toByteArray.utf8DecodeChar? 0).isSome

/-- How far before the end the last code point begins: at most four bytes. -/
def strideBack (text : List UInt8) : Option ℕ :=
  ((text.reverse.take 4).findIdx? fun b => b<0x80 ∨ 0xc0 ≤ b).map (·+1)

/-- The last code point of a text can be decoded. -/
def backDecodes (text : List UInt8) : Bool :=
  (strideBack text).any fun n => frontDecodes (text.drop (text.length-n))

/-- `strip('\0')` at both ends. It decodes the first and the last code point that stay, and throws
where these are no UTF-8. -/
def strip (text : List UInt8) : Option (List UInt8) :=
  let left := text.dropWhile (· = 0)
  let right := left.rdropWhile (· = 0)
  if right = [] ∨ frontDecodes left ∧ backDecodes right then some right else none

variable {text : List UInt8} {b : UInt8}

theorem frontDecodes_ascii (hb : b<0x80) : frontDecodes (b::text) = true := by
  have hlt : b.toNat<128 := UInt8.lt_iff_toNat_lt.mp hb
  have hval : (Char.ofNat b.toNat).val.toNat = b.toNat := by
    rw [Char.ofNat,dif_pos (Or.inl (by omega))]
    rfl
  have hencode : String.utf8EncodeChar (Char.ofNat b.toNat) = [b] := by
    rw [String.utf8EncodeChar]
    simp only [hval]
    rw [if_pos (by omega),UInt8.ofNat_toNat]
  have hsplit : (b::text).toByteArray =
      (String.utf8EncodeChar (Char.ofNat b.toNat)).toByteArray ++ text.toByteArray := by
    rw [hencode,←List.toByteArray_append,List.singleton_append]
  rw [frontDecodes,hsplit,ByteArray.utf8DecodeChar?_utf8EncodeChar_append]
  rfl

theorem backDecodes_ascii (hb : b<0x80) : backDecodes (text ++ [b]) = true := by
  have hstride : strideBack (text ++ [b]) = some 1 := by
    simp [strideBack,List.findIdx?_cons,hb]
  rw [backDecodes,hstride,Option.any_some,List.length_append,List.length_singleton,
    Nat.add_sub_cancel,List.drop_left]
  exact frontDecodes_ascii hb

/-- ASCII text is stripped without an exception. -/
theorem strip_ascii (h : ∀ b ∈ text, b<0x80) : ∃ stripped, strip text = some stripped := by
  rw [strip]
  by_cases hnil : (text.dropWhile (· = 0)).rdropWhile (· = 0) = []
  · exact ⟨_,if_pos (.inl hnil)⟩
  have hright := List.rdropWhile_prefix (· = 0) (text.dropWhile (· = 0))
  have hleft : ∀ b ∈ text.dropWhile (· = 0), b<0x80 := fun b hb =>
    h b ((List.dropWhile_sublist _).mem hb)
  refine ⟨_,if_pos (.inr ⟨?_,?_⟩)⟩
  · cases hl : text.dropWhile (· = 0) with
    | nil => exact absurd (List.prefix_nil.mp (hl ▸ hright)) hnil
    | cons b rest => exact frontDecodes_ascii (hleft b (by rw [hl]; exact List.mem_cons_self))
  · rw [←List.dropLast_append_getLast hnil]
    exact backDecodes_ascii (hleft _ (hright.mem (List.getLast_mem hnil)))

end Strip

namespace UdpEcho
variable {ι : Type*} (o : EchoOptions)

/-- The body of the loop of `UDPEchoer`, on the machine to which the datagram comes. A reply that is
too long for a datagram is not sent. -/
def handle (s : UdpEcho ι) (d : Datagram ι) : UdpEcho ι :=
  if o.received d.payload = 0 then {s with log := s.log ++ [.receiveError]}
  else if o.answers d.payload then
    match strip (o.buf d.payload) with
    | some text => {s with
        log := s.log ++ [.received d.source text]
        flight := s.flight ++ if (o.reply d).payload.length ≤ udpMax then [o.reply d] else []
        echoed := s.echoed+1}
    | none => {s with ended := d.dest::s.ended}
  else s

/-- One datagram, if it goes to a server. -/
def toServer (d : Datagram ι) : ℕ := if d.port = udpRecvPort then 1 else 0

def next [DecidableEq ι] (s : UdpEcho ι) : UdpEchoAction ι → Option (UdpEcho ι)
  | .client d => if d.payload.length ≤ udpMax then
      some {s with flight := s.flight ++ [d], sent := s.sent+toServer d} else none
  | .receiveNothing server => if o.bufferSize = 0 ∧ server ∉ s.ended then
      some {s with log := s.log ++ [.receiveError]} else none
  | .deliver i => s.flight[i]?.bind fun d =>
    if d.port = udpRecvPort ∧ 0<o.bufferSize ∧ d.dest ∉ s.ended then
      some ({s with flight := s.flight.eraseIdx i}.handle o d) else none
  | .lose i => s.flight[i]?.map fun _ => {s with flight := s.flight.eraseIdx i}
  | .repeat i => s.flight[i]?.map fun d =>
    {s with flight := s.flight ++ [d], repeated := s.repeated+toServer d}

def machine [DecidableEq ι] : Machine (UdpEcho ι) (UdpEchoAction ι) where
  init s := s = ⟨[],[],0,0,0,[]⟩
  next := next o

variable {o} {s t : UdpEcho ι} {d : Datagram ι} {a : UdpEchoAction ι}
  {tr : List (UdpEcho ι × UdpEchoAction ι)}

/-- A server that receives the datagram answers it. -/
def Echoable (o : EchoOptions) (d : Datagram ι) : Bool :=
  decide (d.port = udpRecvPort) && decide (o.received d.payload ≠ 0) && o.answers d.payload

/-- The servers do not listen where they answer, or know an answer by its start. -/
def Tells (o : EchoOptions) : Prop := o.symmetric = false ∨ o.bufferSize = 0 ∨ 8 ≤ o.bufferSize

theorem youSaid_prefix (hsize : 8 ≤ o.bufferSize) (text : List UInt8) :
    cBytes "You said" <+: o.buf (cBytes "You said: " ++ text) := by
  have hsplit : cBytes "You said: " = cBytes "You said" ++ cBytes ": " := by decide
  have htake : (cBytes "You said").take o.bufferSize = cBytes "You said" :=
    List.take_of_length_le hsize
  rw [EchoOptions.buf,hsplit,List.append_assoc,List.take_append,htake,List.append_assoc]
  exact List.prefix_append _ _

/-- No server answers an answer. -/
theorem reply_not_echoable (ho : Tells o) (d : Datagram ι) : Echoable o (o.reply d) = false := by
  by_cases hsymmetric : o.symmetric = true
  · obtain hfalse | hsize | hsize := ho
    · rw [hfalse] at hsymmetric
      cases hsymmetric
    · simp [Echoable,EchoOptions.received,hsize]
    · have hprefix := youSaid_prefix hsize ((o.buf d.payload).take (o.received d.payload))
      have hanswers : o.answers (o.reply d).payload = false := by
        rw [EchoOptions.answers,hsymmetric]
        exact congrArg not (List.isPrefixOf_iff_prefix.mpr hprefix)
      rw [Echoable,hanswers,Bool.and_false]
  · have hport : (o.reply d).port ≠ udpRecvPort := by
      simp [EchoOptions.reply,EchoOptions.udpSendPort,hsymmetric,udpRecvPort]
    simp [Echoable,hport]

/-- Each answer was caused by a datagram of a client, or a copy that the network made, that is not
on its way any more. -/
def Caused (o : EchoOptions) (s : UdpEcho ι) : Prop :=
  s.echoed+s.flight.countP (Echoable o) ≤ s.sent+s.repeated

theorem countP_eraseIdx {i : ℕ} (hi : s.flight[i]? = some d) :
    s.flight.countP (Echoable o) =
      (s.flight.eraseIdx i).countP (Echoable o)+if Echoable o d then 1 else 0 := by
  obtain ⟨hlt,hget⟩ := List.getElem?_eq_some_iff.mp hi
  have hperm : (d::s.flight.eraseIdx i).Perm s.flight := hget ▸ List.getElem_cons_eraseIdx_perm hlt
  rw [←hperm.countP_eq,List.countP_cons]

theorem countP_le_toServer (d : Datagram ι) : [d].countP (Echoable o) ≤ toServer d := by
  by_cases hport : d.port = udpRecvPort
  · rw [toServer,if_pos hport]
    exact List.countP_le_length
  · simp [toServer,Echoable,hport]

theorem Caused.handle (ho : Tells o) (hport : d.port = udpRecvPort)
    (h : s.echoed+s.flight.countP (Echoable o)+(if Echoable o d then 1 else 0) ≤
      s.sent+s.repeated) : Caused o (s.handle o d) := by
  have hs : s.echoed+s.flight.countP (Echoable o) ≤ s.sent+s.repeated := by omega
  by_cases hreceived : o.received d.payload = 0
  · rw [UdpEcho.handle,if_pos hreceived]
    exact hs
  by_cases hanswers : o.answers d.payload = true
  · have hd : Echoable o d = true := by simp [Echoable,hport,hreceived,hanswers]
    have hreply : (if (o.reply d).payload.length ≤ udpMax then [o.reply d] else []).countP
        (Echoable o) = 0 := by
      split_ifs
      · simp [reply_not_echoable ho]
      · rfl
    rw [hd,if_pos rfl] at h
    rw [UdpEcho.handle,if_neg hreceived,if_pos hanswers]
    split
    · rw [Caused,List.countP_append,hreply]
      change s.echoed+1+(s.flight.countP (Echoable o)+0) ≤ s.sent+s.repeated
      omega
    · exact hs
  · rw [UdpEcho.handle,if_neg hreceived,if_neg hanswers]
    exact hs

variable [DecidableEq ι]

theorem Caused.next (ho : Tells o) (h : Caused o s) (hn : s.next o a = some t) : Caused o t := by
  cases a with
  | client d =>
    simp only [UdpEcho.next] at hn
    split_ifs at hn
    cases hn
    have hone := countP_le_toServer (o := o) d
    change s.echoed+(s.flight ++ [d]).countP (Echoable o) ≤ s.sent+toServer d+s.repeated
    rw [List.countP_append]
    have hs : s.echoed+s.flight.countP (Echoable o) ≤ s.sent+s.repeated := h
    omega
  | receiveNothing server =>
    simp only [UdpEcho.next] at hn
    split_ifs at hn
    cases hn
    exact h
  | deliver i =>
    obtain ⟨d,hi,hn⟩ := Option.bind_eq_some_iff.mp hn
    split_ifs at hn with hserver
    cases hn
    refine Caused.handle ho hserver.1 ?_
    have hs : s.echoed+s.flight.countP (Echoable o) ≤ s.sent+s.repeated := h
    rw [countP_eraseIdx hi] at hs
    change s.echoed+(s.flight.eraseIdx i).countP (Echoable o)+_ ≤ s.sent+s.repeated
    omega
  | lose i =>
    obtain ⟨d,hi,rfl⟩ := Option.map_eq_some_iff.mp hn
    have hs : s.echoed+s.flight.countP (Echoable o) ≤ s.sent+s.repeated := h
    rw [countP_eraseIdx hi] at hs
    change s.echoed+(s.flight.eraseIdx i).countP (Echoable o) ≤ s.sent+s.repeated
    omega
  | «repeat» i =>
    obtain ⟨d,hi,rfl⟩ := Option.map_eq_some_iff.mp hn
    have hone := countP_le_toServer (o := o) d
    have hs : s.echoed+s.flight.countP (Echoable o) ≤ s.sent+s.repeated := h
    change s.echoed+(s.flight ++ [d]).countP (Echoable o) ≤ s.sent+(s.repeated+toServer d)
    rw [List.countP_append]
    omega

section Storm

/-- One datagram of ASCII text goes round. -/
structure Circles (o : EchoOptions) (n : ℕ) (s : UdpEcho ι) : Prop where
  flight : ∃ d, s.flight = [d] ∧ d.port = udpRecvPort ∧ d.payload ≠ [] ∧ ∀ b ∈ d.payload, b<0x80
  ended : s.ended = []
  counts : s.sent = 1 ∧ s.repeated = 0 ∧ s.echoed = n

theorem buf_ascii {payload : List UInt8} (h : ∀ b ∈ payload, b<0x80) :
    ∀ b ∈ o.buf payload, b<0x80 := by
  intro b hb
  rw [EchoOptions.buf,List.mem_append] at hb
  obtain hb | hb := hb
  · exact h b (List.mem_of_mem_take hb)
  · rw [List.eq_of_mem_replicate hb]
    decide

/-- A server that answers at its own port, and can not tell an answer, answers answers. -/
theorem Circles.step {n : ℕ} (hsymmetric : o.symmetric = true) (hpos : 0<o.bufferSize)
    (hsize : o.bufferSize<8) (h : Circles o n s) :
    ∃ t, s.next o (.deliver 0) = some t ∧ Circles o (n+1) t := by
  obtain ⟨⟨d,hflight,hport,hnil,hascii⟩,hended,hsent,hrepeated,hechoed⟩ := h
  have hlen := List.length_pos_iff.mpr hnil
  have hreceived : o.received d.payload ≠ 0 := by
    rw [EchoOptions.received]
    omega
  have hanswers : o.answers d.payload = true := by
    rw [EchoOptions.answers,Bool.or_eq_true]
    right
    rw [Bool.not_eq_true',←Bool.not_eq_true,List.isPrefixOf_iff_prefix]
    intro hprefix
    have hle : 8 ≤ (o.buf d.payload).length := hprefix.length_le
    rw [o.buf_length] at hle
    omega
  have hmax : (o.reply d).payload.length ≤ udpMax := by
    have hhead : (cBytes "You said: ").length = 10 := by decide
    rw [EchoOptions.reply,List.length_append,List.length_take,hhead,o.buf_length]
    unfold udpMax
    omega
  have hn : s.next o (.deliver 0) = some ({s with flight := []}.handle o d) := by
    simp only [UdpEcho.next,hflight,List.getElem?_cons_zero,Option.bind_some,hport,hpos,hended,
      List.not_mem_nil,not_false_eq_true,and_self,if_true,List.eraseIdx_cons_zero]
  obtain ⟨text,htext⟩ := strip_ascii (buf_ascii (o := o) hascii)
  refine ⟨_,hn,?_⟩
  rw [UdpEcho.handle,if_neg hreceived,if_pos hanswers,htext,if_pos hmax]
  refine ⟨⟨o.reply d,rfl,?_,?_,fun b hb => ?_⟩,hended,hsent,hrepeated,congrArg (·+1) hechoed⟩
  · rw [EchoOptions.reply,EchoOptions.udpSendPort,if_pos hsymmetric]
  · exact List.append_ne_nil_of_left_ne_nil (by decide) _
  · obtain hb | hb := List.mem_append.mp hb
    · have hhead : (cBytes "You said: ").all (· < 0x80) = true := by decide
      exact of_decide_eq_true (List.all_eq_true.mp hhead b hb)
    · exact buf_ascii hascii b (List.mem_of_mem_take hb)

/-- One datagram of a client is answered again and again. -/
theorem storm [Nonempty ι] (hsymmetric : o.symmetric = true) (hpos : 0<o.bufferSize)
    (hsize : o.bufferSize<8) (n : ℕ) :
    ∃ tr, ∃ s : UdpEcho ι, Exec (machine o) tr s ∧ Circles o n s := by
  induction n with
  | zero =>
    obtain ⟨i⟩ := ‹Nonempty ι›
    have hascii : ∀ b ∈ [(120 : UInt8)], b<0x80 := by
      intro b hb
      rw [List.mem_singleton.mp hb]
      decide
    exact ⟨_,_,.step (.init rfl) (a := .client ⟨i,i,udpRecvPort,[120]⟩) rfl,
      ⟨_,rfl,rfl,List.cons_ne_nil _ _,hascii⟩,rfl,rfl,rfl,rfl⟩
  | succ n ih =>
    obtain ⟨tr,s,run,hs⟩ := ih
    obtain ⟨t,hn,ht⟩ := hs.step hsymmetric hpos hsize
    have hn : (machine o).next s (.deliver 0) = some t := hn
    exact ⟨_,t,.step run hn,ht⟩

end Storm

/-- For any number of servers, and whatever the clients and the network do: the servers send no more
answers than datagrams are sent to them and copied on the way, if and only if they answer at another
port than their own, or have no buffer, or have one in which the start of an answer fits. Otherwise
one datagram can be answered any number of times. -/
theorem echoed_le_iff [Nonempty ι] :
    ((∀ tr, ∀ s : UdpEcho ι, Exec (machine o) tr s → s.echoed ≤ s.sent+s.repeated) ↔
      o.symmetric = false ∨ o.bufferSize = 0 ∨ 8 ≤ o.bufferSize) ∧
    (o.symmetric = true → 0<o.bufferSize → o.bufferSize<8 → ∀ n, ∃ tr, ∃ s : UdpEcho ι,
      Exec (machine o) tr s ∧ s.sent = 1 ∧ s.repeated = 0 ∧ s.echoed = n) := by
  refine ⟨⟨?_,?_⟩,?_⟩
  · intro hall
    by_contra ho
    simp only [not_or,Bool.not_eq_false] at ho
    obtain ⟨hsymmetric,hpos,hsize⟩ := ho
    obtain ⟨tr,s,run,-,-,hsent,hrepeated,hechoed⟩ := storm (ι := ι) hsymmetric
      (Nat.pos_of_ne_zero hpos) (Nat.not_le.mp hsize) 2
    have hle := hall tr s run
    omega
  · intro ho tr s run
    have h : Caused o s := by
      refine run.invariant (C := fun _ _ => True) ?_ (fun _ _ _ h _ hn => h.next ho hn)
        fun _ _ => trivial
      rintro s rfl
      exact Nat.le_refl 0
    exact Nat.le_trans (Nat.le_add_right _ _) h
  · intro hsymmetric hpos hsize n
    obtain ⟨tr,s,run,hs⟩ := storm (ι := ι) hsymmetric hpos hsize n
    exact ⟨tr,s,run,hs.counts⟩

/-- `-s` alone, and with `-b 4`. -/
theorem echoed_le_iff_symmetric :
    (∀ tr, ∀ s : UdpEcho Unit, Exec (machine ⟨true,1024⟩) tr s → s.echoed ≤ s.sent+s.repeated) ∧
    ∀ n, ∃ tr, ∃ s : UdpEcho Unit, Exec (machine ⟨true,4⟩) tr s ∧
      s.sent = 1 ∧ s.repeated = 0 ∧ s.echoed = n :=
  ⟨echoed_le_iff.1.mpr (by decide),echoed_le_iff.2 rfl (by decide) (by decide)⟩

end UdpEcho
end TTK4145.Exercise2
