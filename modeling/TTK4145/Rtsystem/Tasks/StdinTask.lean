import TTK4145.Lib.ByteBuf
import TTK4145.Lib.Machine
import TTK4145.Lib.Poll
import TTK4145.Rtsystem.Tasks.StdinInit

/-! The loop of `stdin_task` (`rtsystem/src/tasks/stdin_task.c`) over any stream of input bytes, split
by the kernel into the results of its calls of `read`. -/
namespace TTK4145.Rtsystem
open Lib

/-- What the task logs, in its own statements and, with the last one, in `task_handle_mark_done`. -/
inductive StdinRecord where
  | ready
  | pollFailed (strerror : List UInt8)
  | readFailed (strerror : List UInt8)
  | overflow
  | received (line : List UInt8)
  | exiting
  | markedDone
  deriving DecidableEq, Repr

namespace StdinRecord

/-- The `LOG` call of a record, in a task with a buffer of `bufSize` bytes. -/
def call (bufSize : UInt64) : StdinRecord → LogCall
  | ready => StdinWorld.stdinLog .debug (cBytes "ready for input...")
  | pollFailed err => StdinWorld.stdinLog .warn (cBytes "could not poll STDIN: : " ++ err)
  | readFailed err => StdinWorld.stdinLog .warn (cBytes "failed to read input: : " ++ err)
  | overflow => StdinWorld.stdinLog .warn
      (cBytes s!"input >= {(bufSize-1).toNat} bytes, flushing rest of data")
  | received line => StdinWorld.stdinLog .debug (cBytes "input received: " ++ line)
  | exiting => StdinWorld.stdinLog .debug (cBytes "exiting...")
  | markedDone => taskLog .debug "task '" StdinWorld.name "' marked done"

/-- The records which a line of input gives rise to. -/
def aboutInput : StdinRecord → Bool
  | overflow | received _ => true
  | _ => false

end StdinRecord

/-- The next statement: the test of the loop, its `poll`, its `read`, or the `read` of the flush
loop. That loop remembers `bytes_read`, and here also the position of the last byte that went into
the buffer. -/
inductive StdinStage where
  | test
  | poll
  | read
  | flush (n q : ℕ)
  | exited
  deriving DecidableEq, Repr

inductive ReadOutcome where
  | error (strerror : List UInt8)
  | bytes (k : ℕ)
  deriving DecidableEq, Repr

inductive StdinInput where
  | stop
  | test
  | poll (outcome : PollOutcome) (strerror : List UInt8)
  | read (r : ReadOutcome)
  deriving DecidableEq, Repr

/-- The task with the bytes that it has taken from its input and those that it has not. `piece`,
`records` and `discards` are a history: where in its input the bytes stand that were read into the
buffer last, from the first up to behind the last one, what was logged about each such piece, and the
positions of the bytes that the flush loop threw away, each with the position of the last byte in
the buffer. -/
structure StdinTask where
  bufSize : UInt64
  running : Bool
  stage : StdinStage
  line : ByteBuf
  taken : List UInt8
  unread : List UInt8
  log : List StdinRecord
  requests : List UInt64
  piece : ℕ × ℕ
  records : List ((ℕ × ℕ) × StdinRecord)
  discards : List (ℕ × ℕ)

namespace StdinTask

/-- `line_buf_size - 1`. -/
def room (s : StdinTask) : UInt64 := s.bufSize-1

def goto (s : StdinTask) (stage : StdinStage) : StdinTask := {s with stage := stage}

def report (s : StdinTask) (r : StdinRecord) : StdinTask := {s with log := s.log ++ [r]}

/-- A report on the bytes in the buffer. -/
def record (s : StdinTask) (r : StdinRecord) : StdinTask :=
  {s.report r with records := s.records ++ [(s.piece,r)]}

/-- The kernel hands over the next `k` bytes. -/
def deliver (s : StdinTask) (k : ℕ) : StdinTask :=
  {s with taken := s.taken ++ s.unread.take k, unread := s.unread.drop k}

/-- Strip the newline from the first `n` bytes of the buffer; the rest of the text, and its length. -/
def stripNewline (b : ByteBuf) (n : ℕ) : ByteBuf × ℕ :=
  if b.mem (n-1) = 10 then ((b.touch (n-1)).write (n-1) 0,n-1) else (b.touch (n-1),n)

/-- The end of the loop body, from the stripping of the newline on. -/
def finish (s : StdinTask) (n : ℕ) : StdinTask :=
  let stripped := stripNewline s.line n
  if stripped.2 = 0 then {s.goto .test with line := stripped.1}
  else
    let printed := stripped.1.print stripped.2
    {s.goto .test with line := printed.1}.record (.received printed.2)

/-- The loop body behind a `read` of `k > 0` bytes. -/
def takeIn (s : StdinTask) (k : ℕ) : StdinTask :=
  let bytes := s.unread.take k
  let n := bytes.length
  let b := (s.line.fill bytes).write n 0
  let t := {s.deliver k with piece := (s.taken.length,s.taken.length+n), line := b}
  if n = s.room.toNat then
    let t := {t with line := b.touch (n-1)}
    if b.mem (n-1) ≠ 10 then (t.goto (.flush n (t.taken.length-1))).record .overflow
    else t.finish n
  else t.finish n

/-- The size of `flush_buf`. -/
def flushSize : ℕ := 64

/-- A block of the flush loop: it is thrown away, and a newline in it ends the loop. -/
def discard (s : StdinTask) (n q k : ℕ) : StdinTask :=
  let bytes := s.unread.take k
  let t := {s.deliver k with
    discards := s.discards ++ (List.range bytes.length).map fun i => (s.taken.length+i,q)}
  if 10 ∈ bytes then t.finish n else t

/-- The calls of `read`. No more bytes come than were asked for, nor than there are. -/
def stepRead (s : StdinTask) (r : ReadOutcome) : Option StdinTask :=
  match s.stage with
  | .read =>
    let t := {s with requests := s.requests ++ [s.room]}
    match r with
    | .error err => some ((t.goto .test).report (.readFailed err))
    | .bytes k =>
      if k ≤ s.room.toNat ∧ k ≤ s.unread.length then
        some (if k = 0 then t.goto .test else t.takeIn k)
      else none
  | .flush n q =>
    match r with
    | .error _ => some (s.finish n)
    | .bytes k =>
      if k ≤ flushSize ∧ k ≤ s.unread.length then
        some (if k = 0 then s.finish n else s.discard n q k)
      else none
  | _ => none

def next (s : StdinTask) : StdinInput → Option StdinTask
  | .stop => some {s with running := false}
  | .test => if s.stage = .test then
      some (if s.running then s.goto .poll
        else ((s.goto .exited).report .exiting).report .markedDone) else none
  | .poll outcome err => if s.stage = .poll then
      some (match outcome with
        | .error => (s.goto .test).report (.pollFailed err)
        | .timeout => s.goto .test
        | .ready => s.goto .read) else none
  | .read r => s.stepRead r

/-- The thread at the test of its loop, with an arbitrary buffer and an arbitrary stream. -/
def start (bufSize : UInt64) (mem : ℕ → UInt8) (stream : List UInt8) : StdinTask :=
  ⟨bufSize,true,.test,⟨mem,[]⟩,[],stream,[.ready],[],(0,0),[],[]⟩

/-- The task that a successful `stdin_task_init` has created. -/
def machine (bufSize : UInt64) : Machine StdinTask StdinInput where
  init s := ∃ w priority env mem stream, StdinWorld.Initial w ∧
    (w.stdinTaskInit bufSize priority env).1 = 0 ∧
    s = start (w.stdinTaskInit bufSize priority env).2.bufSizeArg mem stream
  next := next

variable {s t : StdinTask} {bufSize : UInt64} {n q k : ℕ}

theorem machine_init (h : (machine bufSize).init s) :
    ∃ mem stream, s = start bufSize mem stream := by
  obtain ⟨w,priority,env,mem,stream,-,hret,rfl⟩ := h
  exact ⟨mem,stream,by rw [StdinWorld.stdinTaskInit_bufSizeArg hret]⟩

/-- Every buffer size and every stream occurs. -/
theorem start_init (bufSize : UInt64) (mem : ℕ → UInt8) (stream : List UInt8) :
    (machine bufSize).init (start bufSize mem stream) :=
  ⟨freshWorld,0,⟨true,true,true,true,[]⟩,mem,stream,freshWorld_initial,rfl,rfl⟩

end StdinTask

/-- In the flush loop. -/
def StdinStage.flushing : StdinStage → Bool
  | .flush _ _ => true
  | _ => false

namespace StdinTask
variable {s t : StdinTask} {n q k : ℕ} {a : StdinInput}

/-- A step that takes in and logs nothing of the input. -/
structure Quiet (s t : StdinTask) : Prop where
  bufSize : t.bufSize = s.bufSize
  line : t.line = s.line
  taken : t.taken = s.taken
  unread : t.unread = s.unread
  piece : t.piece = s.piece
  records : t.records = s.records
  discards : t.discards = s.discards
  log : t.log.filter StdinRecord.aboutInput = s.log.filter StdinRecord.aboutInput
  requests : t.requests = s.requests ∨ t.requests = s.requests ++ [s.room]
  stage : t.stage = s.stage ∨ s.stage.flushing = false ∧ t.stage.flushing = false

/-- A step is quiet, or it takes in the start of a line, or it ends the flush loop at a failed or
empty `read`, or it throws away a block. -/
theorem next_cases (h : s.next a = some t) :
    (Quiet s t ∧ (a = .stop ∨ s.stage.flushing = false) ∧
      ∀ k, a = .read (.bytes k) → k = 0) ∨
    (∃ k, a = .read (.bytes k) ∧ s.stage = .read ∧ 0<k ∧ k ≤ s.room.toNat ∧
      k ≤ s.unread.length ∧ t = {s with requests := s.requests ++ [s.room]}.takeIn k) ∨
    (∃ n q, s.stage = .flush n q ∧
      ((∃ err, a = .read (.error err)) ∨ a = .read (.bytes 0)) ∧ t = s.finish n) ∨
    ∃ n q k, s.stage = .flush n q ∧ a = .read (.bytes k) ∧ 0<k ∧ k ≤ flushSize ∧
      k ≤ s.unread.length ∧ t = s.discard n q k := by
  cases a with
  | stop =>
    cases h
    exact .inl ⟨⟨rfl,rfl,rfl,rfl,rfl,rfl,rfl,rfl,.inl rfl,.inl rfl⟩,.inl rfl,nofun⟩
  | test =>
    simp only [next] at h
    split_ifs at h with hs hr
    · cases h
      exact .inl ⟨⟨rfl,rfl,rfl,rfl,rfl,rfl,rfl,rfl,.inl rfl,.inr ⟨by rw [hs]; rfl,rfl⟩⟩,
        .inr (by rw [hs]; rfl),nofun⟩
    · cases h
      exact .inl ⟨⟨rfl,rfl,rfl,rfl,rfl,rfl,rfl,by simp [report,goto,StdinRecord.aboutInput],
        .inl rfl,.inr ⟨by rw [hs]; rfl,rfl⟩⟩,.inr (by rw [hs]; rfl),nofun⟩
  | poll outcome err =>
    simp only [next] at h
    split_ifs at h with hs
    cases h
    refine .inl ⟨?_,.inr (by rw [hs]; rfl),nofun⟩
    cases outcome with
    | error => exact ⟨rfl,rfl,rfl,rfl,rfl,rfl,rfl,by simp [report,goto,StdinRecord.aboutInput],
        .inl rfl,.inr ⟨by rw [hs]; rfl,rfl⟩⟩
    | timeout => exact ⟨rfl,rfl,rfl,rfl,rfl,rfl,rfl,rfl,.inl rfl,.inr ⟨by rw [hs]; rfl,rfl⟩⟩
    | ready => exact ⟨rfl,rfl,rfl,rfl,rfl,rfl,rfl,rfl,.inl rfl,.inr ⟨by rw [hs]; rfl,rfl⟩⟩
  | read r =>
    simp only [next,stepRead] at h
    split at h
    · rename_i hs
      cases r with
      | error err =>
        cases h
        exact .inl ⟨⟨rfl,rfl,rfl,rfl,rfl,rfl,rfl,by simp [report,goto,StdinRecord.aboutInput],
          .inr rfl,.inr ⟨by rw [hs]; rfl,rfl⟩⟩,.inr (by rw [hs]; rfl),nofun⟩
      | bytes k =>
        simp only at h
        split_ifs at h with hk h0
        · cases h
          refine .inl ⟨⟨rfl,rfl,rfl,rfl,rfl,rfl,rfl,rfl,.inr rfl,.inr ⟨by rw [hs]; rfl,rfl⟩⟩,
            .inr (by rw [hs]; rfl),fun k' he => ?_⟩
          cases he
          exact h0
        · cases h
          exact .inr (.inl ⟨k,rfl,hs,Nat.pos_of_ne_zero h0,hk.1,hk.2,rfl⟩)
    · rename_i n q hs
      cases r with
      | error err =>
        cases h
        exact .inr (.inr (.inl ⟨n,q,hs,.inl ⟨err,rfl⟩,rfl⟩))
      | bytes k =>
        simp only at h
        split_ifs at h with hk h0
        · cases h
          subst h0
          exact .inr (.inr (.inl ⟨n,q,hs,.inr rfl,rfl⟩))
        · cases h
          exact .inr (.inr (.inr ⟨n,q,k,hs,rfl,Nat.pos_of_ne_zero h0,hk.1,hk.2,rfl⟩))
    · cases h

section Finish

@[simp] theorem finish_bufSize : (s.finish n).bufSize = s.bufSize := by
  simp only [finish]
  split_ifs <;> rfl

@[simp] theorem finish_taken : (s.finish n).taken = s.taken := by
  simp only [finish]
  split_ifs <;> rfl

@[simp] theorem finish_unread : (s.finish n).unread = s.unread := by
  simp only [finish]
  split_ifs <;> rfl

@[simp] theorem finish_piece : (s.finish n).piece = s.piece := by
  simp only [finish]
  split_ifs <;> rfl

@[simp] theorem finish_discards : (s.finish n).discards = s.discards := by
  simp only [finish]
  split_ifs <;> rfl

@[simp] theorem finish_requests : (s.finish n).requests = s.requests := by
  simp only [finish]
  split_ifs <;> rfl

@[simp] theorem finish_stage : (s.finish n).stage = .test := by
  simp only [finish]
  split_ifs <;> rfl

/-- What the end of the loop body logs about the first `n` bytes of the buffer. -/
def reported (b : ByteBuf) (n : ℕ) : List StdinRecord :=
  if b.mem (n-1) = 10 then (if n-1 = 0 then [] else [.received (b.text (n-1))])
  else [.received (b.text n)]

theorem finish_reports (h0 : 0<n) :
    (s.finish n).log = s.log ++ reported s.line n ∧
      (s.finish n).records = s.records ++ (reported s.line n).map (s.piece,·) := by
  by_cases hnl : s.line.mem (n-1) = 10
  · have htext : ((s.line.touch (n-1)).write (n-1) 0).text (n-1) = s.line.text (n-1) :=
      ByteBuf.write_text (Nat.le_refl _)
    simp only [finish,stripNewline,reported,if_pos hnl]
    split_ifs with hn
    · simp [goto]
    · simp [record,report,goto,htext]
  · simp only [finish,stripNewline,reported,if_neg hnl,if_neg h0.ne']
    simp [record,report,goto]

theorem reported_aboutInput (b : ByteBuf) (n : ℕ) :
    (reported b n).filter StdinRecord.aboutInput = reported b n := by
  unfold reported
  split_ifs <;> rfl

theorem finish_log (h0 : 0<n) : (s.finish n).log.filter StdinRecord.aboutInput =
    s.log.filter StdinRecord.aboutInput ++ reported s.line n := by
  rw [(finish_reports h0).1,List.filter_append,reported_aboutInput]

end Finish

/-- The buffer behind a `read` of `k` bytes and its terminator. -/
def filled (s : StdinTask) (k : ℕ) : ByteBuf := (s.line.fill (s.unread.take k)).write k 0

/-- The next `k` bytes taken as the piece in the buffer. -/
def taking (s : StdinTask) (k : ℕ) (b : ByteBuf) : StdinTask :=
  {s.deliver k with piece := (s.taken.length,s.taken.length+k), line := b}

theorem filled_mem (h0 : 0<k) (hk : k ≤ s.unread.length) :
    s.unread[k-1]? = some ((s.filled k).mem (k-1)) := by
  have hlen : (s.unread.take k).length = k := List.length_take_of_le hk
  have hne : k-1 ≠ k := by omega
  rw [filled,ByteBuf.write_mem_other hne,ByteBuf.fill_mem (by omega),
    List.getElem_take,List.getElem?_eq_getElem]

/-- The buffer holds the bytes read. -/
theorem filled_text (h0 : 0 ∉ s.unread.take k) (hn : n ≤ k) (hk : k ≤ s.unread.length) :
    (s.filled k).text n = (s.unread.take k).take n := by
  have hlen : (s.unread.take k).length = k := List.length_take_of_le hk
  rw [filled,ByteBuf.write_text hn,ByteBuf.fill_text (by omega) h0]

/-- The overflow test: the bytes fill the room and do not end with a newline. -/
def Overflows (s : StdinTask) (k : ℕ) : Prop := k = s.room.toNat ∧ s.unread[k-1]? ≠ some 10

/-- Whether the line overflows or not, the buffer holds its first bytes, and the test has read at
most the last of them. -/
theorem takeIn_cases (h0 : 0<k) (hk : k ≤ s.unread.length) :
    ∃ b extra, b.mem = (s.filled k).mem ∧
      b.accessed = s.line.accessed ++ (List.range k ++ k::extra) ∧ (∀ i ∈ extra, i = k-1) ∧
      (Overflows s k ∧ s.takeIn k =
        ((s.taking k b).goto (.flush k (s.taken.length+k-1))).record .overflow ∨
      ¬Overflows s k ∧ s.takeIn k = (s.taking k b).finish k) := by
  have hlen : (s.unread.take k).length = k := List.length_take_of_le hk
  have hacc : (s.filled k).accessed = s.line.accessed ++ (List.range k ++ [k]) := by
    simp only [filled,ByteBuf.write_accessed,ByteBuf.fill_accessed,hlen,List.append_assoc]
  have hlast := filled_mem h0 hk
  by_cases hroom : k = s.room.toNat
  · refine ⟨(s.filled k).touch (k-1),[k-1],rfl,?_,by simp,?_⟩
    · rw [ByteBuf.touch_accessed,hacc]
      simp
    · by_cases hnl : (s.filled k).mem (k-1) = 10
      · refine .inr ⟨fun ho => ho.2 (by rw [hlast,hnl]),?_⟩
        unfold filled at hnl
        simp only [takeIn,hlen,if_pos hroom,hnl,ne_eq,not_true_eq_false,if_false]
        rfl
      · refine .inl ⟨⟨hroom,by rwa [hlast,ne_eq,Option.some.injEq]⟩,?_⟩
        unfold filled at hnl
        simp only [takeIn,hlen,if_pos hroom,hnl,ne_eq,not_false_eq_true,if_true]
        simp only [taking,deliver,goto,List.length_append,hlen]
        rfl
  · refine ⟨s.filled k,[],rfl,hacc,by simp,.inr ⟨fun ho => hroom ho.1,?_⟩⟩
    simp only [takeIn,hlen,if_neg hroom]
    rfl

end StdinTask
end TTK4145.Rtsystem
