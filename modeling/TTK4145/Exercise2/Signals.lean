import TTK4145.Exercise2.Repetitions

/-! What a signal does to the loops of the three programs. Each of them tests `running` before it
waits in a call, and the handler may clear it in between. -/
namespace TTK4145.Exercise2
open Lib

/-- Statements of the program, other than the handler. -/
def ReceiverAction.own : ReceiverAction → Bool
  | .signal => false
  | .test | .recv _ => true

/-- A datagram is handled. -/
def ReceiverAction.handles : ReceiverAction → Bool
  | .recv (.datagram _) => true
  | _ => false

def TcpAction.own : TcpAction → Bool
  | .signal | .client _ => false
  | .test | .accept _ | .recv _ => true

/-- A chunk is handled. -/
def TcpAction.handles : TcpAction → Bool
  | .recv (.bytes k) => decide (0<k)
  | _ => false

def SenderAction.own : SenderAction → Bool
  | .signal => false
  | .resolve _ | .setup _ | .test | .send _ | .wake => true

/-- A message is sent. -/
def SenderAction.handles : SenderAction → Bool
  | .send (.sent _) => true
  | _ => false

namespace UdpReceiver
variable {s t : UdpReceiver} {a : ReceiverAction}

/-- The statements left once `running` is cleared. -/
def left (s : UdpReceiver) : ℕ :=
  match s.pc with
  | .recv => 2
  | .test => 1
  | .exited _ => 0

/-- The datagrams that are handled once `running` is cleared. -/
def handlesLeft (s : UdpReceiver) : ℕ := if s.pc = .recv then 1 else 0

theorem left_le (s : UdpReceiver) : s.left ≤ 2 ∧ s.handlesLeft ≤ 1 := by
  unfold left handlesLeft
  constructor
  · split <;> omega
  · split_ifs <;> omega

/-- Nobody sets `running` again, and every statement is one of those left. -/
theorem next_stopped (hr : s.running = false) (hn : s.next a = some t) : t.running = false ∧
    t.left+a.own.toNat ≤ s.left ∧ t.handlesLeft+a.handles.toNat ≤ s.handlesLeft := by
  cases a with
  | signal =>
    cases hn
    exact ⟨rfl,Nat.le_refl _,Nat.le_refl _⟩
  | test =>
    simp only [next] at hn
    split_ifs at hn with hpc hrun
    · rw [hr] at hrun
      cases hrun
    · cases hn
      simp [finish,hr,left,handlesLeft,hpc,ReceiverAction.own,ReceiverAction.handles]
  | recv r =>
    simp only [next] at hn
    split_ifs at hn with hpc
    cases r with
    | datagram payload =>
      cases hn
      obtain ⟨-,-,-,hrun,hpc',-⟩ := handle_spec s payload
      simp only [left,handlesLeft,hrun,hr,hpc,hpc',ReceiverAction.own,ReceiverAction.handles]
      split_ifs <;> simp_all
    | interrupted | error =>
      cases hn
      simp [hr,left,handlesLeft,hpc,ReceiverAction.own,ReceiverAction.handles]

theorem left_pos (h : ¬s.Exited) : 0<s.left := by
  unfold left
  split
  · exact Nat.succ_pos 1
  · exact Nat.succ_pos 0
  · rename_i status hs
    exact absurd (by rw [Exited,hs]; rfl) h

end UdpReceiver

namespace TcpReceiver
variable {s t : TcpReceiver} {a : TcpAction}

def left (s : TcpReceiver) : ℕ :=
  match s.stage with
  | .accept | .recv _ => 3
  | .innerTest _ => 2
  | .test => 1
  | .exited => 0

def handlesLeft (s : TcpReceiver) : ℕ :=
  match s.stage with
  | .recv _ => 1
  | _ => 0

theorem left_le (s : TcpReceiver) : s.left ≤ 3 ∧ s.handlesLeft ≤ 1 := by
  unfold left handlesLeft
  constructor <;> split <;> omega

theorem next_stopped (hr : s.running = false) (hn : s.next a = some t) : t.running = false ∧
    t.left+a.own.toNat ≤ s.left ∧ t.handlesLeft+a.handles.toNat ≤ s.handlesLeft := by
  cases a with
  | signal =>
    cases hn
    exact ⟨rfl,Nat.le_refl _,Nat.le_refl _⟩
  | test =>
    simp only [next] at hn
    split at hn <;> cases hn
    · rename_i hs
      simp [finish,hr,goto,report,left,handlesLeft,hs,TcpAction.own,TcpAction.handles]
    · rename_i c hs
      simp [leave,hr,goto,left,handlesLeft,hs,TcpAction.own,TcpAction.handles]
  | accept r =>
    simp only [next] at hn
    split at hn <;> cases hn
    · rename_i hs
      simp [hr,goto,report,left,handlesLeft,hs,TcpAction.own,TcpAction.handles]
    · rename_i hs
      simp [hr,goto,left,handlesLeft,hs,TcpAction.own,TcpAction.handles]
    · rename_i hs
      simp [finish,hr,goto,report,left,handlesLeft,hs,TcpAction.own,TcpAction.handles]
  | client e =>
    simp only [next] at hn
    split at hn
    · rename_i c hs
      split_ifs at hn
      cases hn
      simp [hr,goto,left,handlesLeft,hs,TcpAction.own,TcpAction.handles]
    · rename_i c hs
      split_ifs at hn
      cases hn
      simp [hr,goto,left,handlesLeft,hs,TcpAction.own,TcpAction.handles]
    · cases hn
  | recv r =>
    cases hs : s.stage with
    | recv c =>
      cases r with
      | bytes k =>
        have hone := Bool.toNat_le (TcpAction.recv (.bytes k)).handles
        simp only [next,hs] at hn
        split_ifs at hn
        · cases hn
          refine ⟨hr,?_,?_⟩
          · simp [leave,goto,report,left,hs,TcpAction.own]
          · simpa [leave,goto,report,handlesLeft,hs] using hone
        · cases hn
          obtain ⟨-,hstage,-,hrun⟩ | ⟨-,hstage,-,hrun⟩ := s.handle_cases c k
          · refine ⟨hrun,?_,?_⟩
            · simp [left,hs,hstage,TcpAction.own]
            · simpa [handlesLeft,hs,hstage] using hone
          · refine ⟨hrun.trans hr,?_,?_⟩
            · simp [left,hs,hstage,TcpAction.own]
            · simpa [handlesLeft,hs,hstage] using hone
      | interrupted | error =>
        simp only [next,hs] at hn
        cases hn
        simp [leave,hr,goto,report,left,handlesLeft,hs,TcpAction.own,TcpAction.handles]
    | test | accept | innerTest | exited =>
      simp only [next,hs] at hn
      cases hn

theorem left_pos (h : s.stage ≠ .exited) : 0<s.left := by
  unfold left
  split
  · exact Nat.succ_pos 2
  · exact Nat.succ_pos 2
  · exact Nat.succ_pos 1
  · exact Nat.succ_pos 0
  · rename_i hs
    exact absurd hs h

end TcpReceiver

namespace UdpTcpSender
variable {s t : UdpTcpSender} {a : SenderAction}

/-- Before the loop a signal ends the process. -/
def left (s : UdpTcpSender) : ℕ :=
  match s.stage with
  | .resolve => 6
  | .socket => 5
  | .broadcast | .connect => 4
  | .send => 3
  | .sleep => 2
  | .test => 1
  | .exited _ => 0

def handlesLeft (s : UdpTcpSender) : ℕ :=
  match s.stage with
  | .resolve | .socket | .broadcast | .connect | .send => 1
  | .sleep | .test | .exited _ => 0

/-- A message is followed by a `sleep`, or it was the last one. -/
theorem stepSend_sent (s : UdpTcpSender) (bytes : ℕ) :
    (s.stepSend (.sent bytes)).running = s.running ∧
    ((s.stepSend (.sent bytes)).stage = .sleep ∨ (s.stepSend (.sent bytes)).stage = .exited 0) := by
  simp only [stepSend,handle]
  generalize (if (s.call _).repetitions>0 then (s.call _).repetitions-1
    else (s.call _).repetitions) = repetitions
  split_ifs with h
  · exact ⟨(finish_spec _).2.1,.inr (by simp [finish,cleanup,goto])⟩
  · exact ⟨rfl,.inl rfl⟩

/-- Every statement leaves `running` as it is, and there are fewer of them left behind it, unless it
is the test that goes on to another round. -/
theorem next_own (ha : a.own = true) (hn : s.next a = some t) : t.running = s.running ∧
    (s.running = true ∨
      t.left+1 ≤ s.left ∧ t.handlesLeft+a.handles.toNat ≤ s.handlesLeft) := by
  cases a with
  | signal => cases ha
  | resolve err =>
    simp only [next,stepResolve] at hn
    split_ifs at hn with hs <;> cases hn <;> refine ⟨rfl,.inr ?_⟩ <;>
      simp [report,call,goto,left,handlesLeft,hs,SenderAction.handles]
  | setup ok =>
    simp only [next] at hn
    split at hn <;> cases hn <;> rename_i hs <;> cases ok
    · exact ⟨rfl,.inr (by
        simp [stepSocket,report,call,goto,left,handlesLeft,hs,SenderAction.handles])⟩
    · cases hp : s.config.protocol <;>
        simp [stepSocket,report,call,goto,left,handlesLeft,hs,hp,SenderAction.handles]
    · exact ⟨rfl,.inr (by
        simp [stepBroadcast,cleanup,report,call,goto,left,handlesLeft,hs,SenderAction.handles])⟩
    · exact ⟨rfl,.inr (by
        simp [stepBroadcast,enter,report,call,goto,left,handlesLeft,hs,SenderAction.handles])⟩
    · exact ⟨rfl,.inr (by
        simp [stepConnect,cleanup,report,call,goto,left,handlesLeft,hs,SenderAction.handles])⟩
    · exact ⟨rfl,.inr (by
        simp [stepConnect,enter,report,call,goto,left,handlesLeft,hs,SenderAction.handles])⟩
  | test =>
    simp only [next] at hn
    split_ifs at hn with hs hrun
    · cases hn
      exact ⟨rfl,.inl hrun⟩
    · cases hn
      refine ⟨(finish_spec s).2.1,.inr ?_⟩
      simp [finish,cleanup,report,call,goto,left,handlesLeft,hs,hrun,SenderAction.handles]
  | send r =>
    simp only [next] at hn
    split_ifs at hn with hs
    cases hn
    cases r with
    | sent bytes =>
      obtain ⟨hrun,hstage⟩ := stepSend_sent s bytes
      refine ⟨hrun,.inr ?_⟩
      obtain hstage | hstage := hstage <;>
        simp [left,handlesLeft,hs,hstage,SenderAction.handles]
    | interrupted | error =>
      refine ⟨rfl,.inr ?_⟩
      simp [stepSend,cleanup,report,call,goto,left,handlesLeft,hs,SenderAction.handles]
  | wake =>
    simp only [next] at hn
    split_ifs at hn with hs
    cases hn
    refine ⟨rfl,.inr ?_⟩
    simp [goto,left,handlesLeft,hs,SenderAction.handles]

theorem next_stopped (hr : s.running = false) (hn : s.next a = some t) : t.running = false ∧
    t.left+a.own.toNat ≤ s.left ∧ t.handlesLeft+a.handles.toNat ≤ s.handlesLeft := by
  cases ha : a.own with
  | true =>
    obtain ⟨hrun,hgoes | ⟨hleft,hhandles⟩⟩ := next_own ha hn
    · rw [hr] at hgoes
      cases hgoes
    · exact ⟨hrun.trans hr,hleft,hhandles⟩
  | false =>
    cases a with
    | signal =>
      simp only [next] at hn
      split_ifs at hn
      cases hn
      exact ⟨rfl,Nat.le_refl _,Nat.le_refl _⟩
    | resolve | setup | test | send | wake => cases ha

theorem left_pos (h : ¬s.Exited) : 0<s.left := by
  unfold left
  split
  · exact Nat.succ_pos 5
  · exact Nat.succ_pos 4
  · exact Nat.succ_pos 3
  · exact Nat.succ_pos 3
  · exact Nat.succ_pos 2
  · exact Nat.succ_pos 1
  · exact Nat.succ_pos 0
  · rename_i status hs
    exact absurd (by rw [Exited,hs]; rfl) h

/-- A signal is only handled in the loop. -/
theorem next_signalled (hr : s.running = true) (hn : s.next a = some t)
    (ht : t.running = false) : t.left ≤ 3 ∧ t.handlesLeft ≤ 1 := by
  cases ha : a.own with
  | true =>
    rw [(next_own ha hn).1,hr] at ht
    cases ht
  | false =>
    cases a with
    | signal =>
      simp only [next] at hn
      split_ifs at hn with hs
      cases hn
      obtain hs | hs | hs := hs <;> simp [left,handlesLeft,hs]
    | resolve | setup | test | send | wake => cases ha

end UdpTcpSender

/-- While `c` holds a step leaves at most `n` statements and one message, and afterwards it uses one
of them up. -/
theorem stops_within {σ α : Type} {M : Machine σ α} {tr : List (σ × α)} {s : σ} {c : σ → Bool}
    {m d : σ → ℕ} {f g : α → Bool} {n : ℕ} (run : Exec M tr s) (hn : 0<n)
    (start : ∀ s, M.init s → c s = true)
    (running : ∀ s a t, c s = true → M.next s a = some t → c t = false → m t ≤ n ∧ d t ≤ 1)
    (stopped : ∀ s a t, c s = false → M.next s a = some t →
      c t = false ∧ m t+(f a).toNat ≤ m s ∧ d t+(g a).toNat ≤ d s) :
    tr.countP (fun p => !c p.1 && g p.2) ≤ 1 ∧ tr.countP (fun p => !c p.1 && f p.2) ≤ n ∧
      (0 < m s → tr.countP (fun p => !c p.1 && f p.2)<n) := by
  have start' (s) (hi : M.init s) : (!c s) = false := by rw [start s hi]; rfl
  have hone := run.countP_since_lt (c := fun s => !c s) (m := d) (f := fun _ a => g a) (n := 1)
    start' Nat.one_pos fun s a t h => by
      simp only [Bool.not_eq_false',Bool.not_eq_true']
      exact ⟨fun hs ht => (running s a t hs h ht).2,
        fun hs => ⟨(stopped s a t hs h).1,(stopped s a t hs h).2.2⟩⟩
  have hall := run.countP_since_lt (c := fun s => !c s) (m := m) (f := fun _ a => f a) (n := n)
    start' hn fun s a t h => by
      simp only [Bool.not_eq_false',Bool.not_eq_true']
      exact ⟨fun hs ht => (running s a t hs h ht).1,
        fun hs => ⟨(stopped s a t hs h).1,(stopped s a t hs h).2.1⟩⟩
  exact ⟨hone.1,hall⟩

/-- However often and whenever it is signalled, and whatever calls are interrupted: once a program
has seen a signal, it returns after at most two or three more statements, and handles or sends at
most one more message, one which it was about to wait for. -/
theorem signal_ends (opts : List SenderOption) (args : ReceiverArgs) :
    (∀ tr s, Exec (UdpTcpSender.machine opts) tr s →
      tr.countP (fun p => !p.1.running && p.2.handles) ≤ 1 ∧
      tr.countP (fun p => !p.1.running && p.2.own) ≤ 3 ∧
      (¬s.Exited → tr.countP (fun p => !p.1.running && p.2.own)<3)) ∧
    (∀ tr s, Exec (UdpReceiver.machine args) tr s →
      tr.countP (fun p => !p.1.running && p.2.handles) ≤ 1 ∧
      tr.countP (fun p => !p.1.running && p.2.own) ≤ 2 ∧
      (¬s.Exited → tr.countP (fun p => !p.1.running && p.2.own)<2)) ∧
    ∀ tr s, Exec (TcpReceiver.machine args) tr s →
      tr.countP (fun p => !p.1.running && p.2.handles) ≤ 1 ∧
      tr.countP (fun p => !p.1.running && p.2.own) ≤ 3 ∧
      (s.stage ≠ .exited → tr.countP (fun p => !p.1.running && p.2.own)<3) := by
  refine ⟨fun tr s run => ?_,fun tr s run => ?_,fun tr s run => ?_⟩
  · have h := stops_within run (c := UdpTcpSender.running) (n := 3) (by decide)
      (by rintro s ⟨c,-,rfl⟩; rfl) (fun _ _ _ => UdpTcpSender.next_signalled)
      fun _ _ _ => UdpTcpSender.next_stopped
    exact ⟨h.1,h.2.1,fun hs => h.2.2 (UdpTcpSender.left_pos hs)⟩
  · have h := stops_within run (c := UdpReceiver.running) (n := 2) (by decide)
      (by rintro s ⟨-,mem,rfl⟩; rfl) (fun _ _ t _ _ _ => t.left_le)
      fun _ _ _ => UdpReceiver.next_stopped
    exact ⟨h.1,h.2.1,fun hs => h.2.2 (UdpReceiver.left_pos hs)⟩
  · have h := stops_within run (c := TcpReceiver.running) (n := 3) (by decide)
      (by rintro s ⟨-,mem,rfl⟩; rfl) (fun _ _ t _ _ _ => t.left_le)
      fun _ _ _ => TcpReceiver.next_stopped
    exact ⟨h.1,h.2.1,fun hs => h.2.2 (TcpReceiver.left_pos hs)⟩

/-- Both bounds are met: the signal comes between the test and `recvfrom`, a datagram after it. -/
theorem signal_ends_in_recv :
    ∃ tr, ∃ s : UdpReceiver, Exec (UdpReceiver.machine ⟨some (cBytes "8"),none⟩) tr s ∧
      tr.countP (fun p => !p.1.running && p.2.handles) = 1 ∧
      tr.countP (fun p => !p.1.running && p.2.own) = 2 ∧ s.Exited := by
  have hv : ((UdpReceiver.machine ⟨some (cBytes "8"),none⟩).run (.cleared ⟨some (cBytes "8"),none⟩)
      [.test,.signal,.recv (.datagram (cBytes "hi")),.test]).isSome = true := by decide
  obtain ⟨s,hs⟩ := Option.isSome_iff_exists.mp hv
  have run := Exec.of_run (cleared_init (by decide)) hs
  refine ⟨_,s,run,by decide,by decide,?_⟩
  by_contra h
  exact absurd (((signal_ends [] _).2.1 _ s run).2.2 h) (by decide)

end TTK4145.Exercise2
