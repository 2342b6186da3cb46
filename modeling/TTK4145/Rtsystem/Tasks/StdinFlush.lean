import TTK4145.Rtsystem.Tasks.StdinTask

/-! What the flush loop of `stdin_task` throws away, for any input and any way in which the kernel
splits it. -/
namespace TTK4145.Rtsystem
open Lib
variable {s t : StdinTask} {bufSize : UInt64} {n q k : ℕ} {a : StdinInput}
  {tr : List (StdinTask × StdinInput)}

/-- The number of the line in which a position of the stream stands: the newlines before it. -/
def lineNumber (stream : List UInt8) (i : ℕ) : ℕ := (stream.take i).count 10

/-- Every byte that the flush loop threw away belongs to the line whose bytes had overflowed. -/
def FlushesOneLine (s : StdinTask) : Prop :=
  ∀ d ∈ s.discards, lineNumber s.taken d.1 = lineNumber s.taken d.2

/-- A block of the flush loop has no newline in front of its last byte. -/
def EndsAtNewline (s : StdinTask) : StdinInput → Prop
  | .read (.bytes k) => s.stage.flushing = true → 10 ∉ (s.unread.take k).dropLast
  | _ => True

instance (s : StdinTask) : (a : StdinInput) → Decidable (EndsAtNewline s a)
  | .read (.bytes _) => inferInstanceAs (Decidable (s.stage.flushing = true → _))
  | .read (.error _) | .stop | .test | .poll _ _ => isTrue trivial

section Lines
variable {stream more : List UInt8} {i : ℕ}

theorem lineNumber_append (h : i ≤ stream.length) :
    lineNumber (stream ++ more) i = lineNumber stream i := by
  rw [lineNumber,lineNumber,List.take_append_of_le_length h]

theorem lineNumber_behind :
    lineNumber (stream ++ more) (stream.length+i) =
      lineNumber stream stream.length+(more.take i).count 10 := by
  rw [lineNumber,lineNumber,List.take_length_add_append,List.count_append,List.take_length]

/-- All bytes of a block are on the line in front of it exactly if no newline stands before its
last byte. -/
theorem block_on_line (block : List UInt8) :
    (∀ i<block.length, (block.take i).count 10 = 0) ↔ 10 ∉ block.dropLast := by
  simp only [List.count_eq_zero]
  rw [List.dropLast_eq_take]
  constructor
  · intro h hm
    by_cases h0 : block.length = 0
    · rw [List.eq_nil_of_length_eq_zero h0] at hm
      cases hm
    · exact h (block.length-1) (by omega) hm
  · intro h i hi hm
    refine h (List.mem_of_mem_take (i := i) ?_)
    rwa [List.take_take,Nat.min_eq_left (by omega)]

end Lines

/-- While the flush loop runs, the bytes behind the buffer hold no newline, and every position
noted is a position of the stream so far. -/
structure FlushInv (s : StdinTask) : Prop where
  inside : ∀ d ∈ s.discards, d.1<s.taken.length ∧ d.2<s.taken.length
  flush : ∀ n q, s.stage = .flush n q → q<s.taken.length ∧
    lineNumber s.taken q = lineNumber s.taken s.taken.length

/-- More input leaves the line numbers of the positions noted. -/
theorem flushesOneLine_append (h : FlushInv s) (htaken : ∃ more, t.taken = s.taken ++ more)
    (hdiscards : t.discards = s.discards) : FlushesOneLine t ↔ FlushesOneLine s := by
  obtain ⟨more,hmore⟩ := htaken
  unfold FlushesOneLine
  rw [hdiscards,hmore]
  refine forall₂_congr fun d hd => ?_
  obtain ⟨h1,h2⟩ := h.inside d hd
  rw [lineNumber_append h1.le,lineNumber_append h2.le]

theorem FlushInv.append (h : FlushInv s) (htaken : ∃ more, t.taken = s.taken ++ more)
    (hdiscards : t.discards = s.discards) (hstage : t.stage.flushing = false) : FlushInv t := by
  obtain ⟨more,hmore⟩ := htaken
  refine ⟨fun d hd => ?_,fun n q hs => ?_⟩
  · rw [hdiscards] at hd
    have := h.inside d hd
    rw [hmore,List.length_append]
    omega
  · rw [hs] at hstage
    cases hstage

/-- The step that takes in the start of a line. -/
theorem FlushInv.takeIn (h : FlushInv s) (h0 : 0<k) (hk : k ≤ s.unread.length) :
    FlushInv (s.takeIn k) ∧ (FlushesOneLine (s.takeIn k) ↔ FlushesOneLine s) := by
  have hlen : (s.unread.take k).length = k := List.length_take_of_le hk
  obtain ⟨b,extra,-,-,-,⟨⟨-,hlast⟩,ht⟩ | ⟨-,ht⟩⟩ := StdinTask.takeIn_cases h0 hk
  · rw [ht]
    refine ⟨⟨fun d hd => ?_,fun n q hs => ?_⟩,flushesOneLine_append h ⟨_,rfl⟩ rfl⟩
    · have := h.inside d hd
      change d.1<(s.taken ++ s.unread.take k).length ∧ d.2<(s.taken ++ s.unread.take k).length
      rw [List.length_append]
      omega
    · cases hs
      change s.taken.length+k-1<(s.taken ++ s.unread.take k).length ∧
        lineNumber (s.taken ++ s.unread.take k) (s.taken.length+k-1) =
          lineNumber (s.taken ++ s.unread.take k) (s.taken ++ s.unread.take k).length
      rw [List.length_append,hlen,Nat.add_sub_assoc h0,lineNumber_behind,lineNumber_behind]
      refine ⟨by omega,?_⟩
      obtain ⟨m,rfl⟩ : ∃ m, k = m+1 := ⟨k-1,by omega⟩
      rw [Nat.add_sub_cancel] at hlast ⊢
      rw [List.take_take,List.take_take,Nat.min_eq_left (Nat.le_succ m),Nat.min_self,
        List.take_add_one,List.count_append]
      have hcount : (s.unread[m]?.toList).count 10 = 0 := by
        rw [List.count_eq_zero]
        intro hm
        rw [Option.mem_toList] at hm
        exact hlast hm
      rw [hcount,Nat.add_zero]
  · rw [ht]
    exact ⟨h.append ⟨s.unread.take k,StdinTask.finish_taken⟩ StdinTask.finish_discards
        (by rw [StdinTask.finish_stage]; rfl),
      flushesOneLine_append h ⟨s.unread.take k,StdinTask.finish_taken⟩ StdinTask.finish_discards⟩

/-- A block: its bytes are on the overflowed line exactly if no newline stands before its last
byte. -/
theorem FlushInv.discard (h : FlushInv s) (hs : s.stage = .flush n q) (h0 : 0<k)
    (hk : k ≤ s.unread.length) :
    FlushInv (s.discard n q k) ∧
      (FlushesOneLine (s.discard n q k) ↔
        FlushesOneLine s ∧ 10 ∉ (s.unread.take k).dropLast) := by
  obtain ⟨hq,hline⟩ := h.flush n q hs
  have hlen : (s.unread.take k).length = k := List.length_take_of_le hk
  let u : StdinTask := {s.deliver k with
    discards := s.discards ++
      (List.range (s.unread.take k).length).map fun i => (s.taken.length+i,q)}
  have hinside : ∀ d ∈ u.discards, d.1<u.taken.length ∧ d.2<u.taken.length := by
    intro d hd
    change d.1<(s.taken ++ s.unread.take k).length ∧ d.2<(s.taken ++ s.unread.take k).length
    rw [List.length_append,hlen]
    obtain hd | hd := List.mem_append.mp hd
    · have := h.inside d hd
      omega
    · obtain ⟨i,hi,rfl⟩ := List.mem_map.mp hd
      rw [List.mem_range,hlen] at hi
      simp only
      omega
  have hspec : FlushesOneLine u ↔ FlushesOneLine s ∧ 10 ∉ (s.unread.take k).dropLast := by
    rw [←flushesOneLine_append (t := {s.deliver k with discards := s.discards}) h ⟨_,rfl⟩ rfl,
      ←block_on_line]
    have hnew : ∀ i, lineNumber u.taken (s.taken.length+i) = lineNumber u.taken q ↔
        ((s.unread.take k).take i).count 10 = 0 := by
      intro i
      change lineNumber (s.taken ++ s.unread.take k) (s.taken.length+i) =
        lineNumber (s.taken ++ s.unread.take k) q ↔ _
      rw [lineNumber_behind,lineNumber_append hq.le,hline]
      omega
    constructor
    · refine fun hall => ⟨fun d hd => hall d (List.mem_append_left _ hd),fun i hi => ?_⟩
      exact (hnew i).mp (hall _ (List.mem_append_right _
        (List.mem_map_of_mem (List.mem_range.mpr hi))))
    · rintro ⟨hold,hblock⟩ d hd
      obtain hd | hd := List.mem_append.mp hd
      · exact hold d hd
      · obtain ⟨i,hi,rfl⟩ := List.mem_map.mp hd
        exact (hnew i).mpr (hblock i (List.mem_range.mp hi))
  simp only [StdinTask.discard]
  split_ifs with hnl
  · refine ⟨⟨fun d hd => ?_,fun n q hstage => ?_⟩,?_⟩
    · rw [StdinTask.finish_discards] at hd
      rw [StdinTask.finish_taken]
      exact hinside d hd
    · rw [StdinTask.finish_stage] at hstage
      cases hstage
    · rw [←hspec]
      unfold FlushesOneLine
      rw [StdinTask.finish_discards,StdinTask.finish_taken]
  · refine ⟨⟨hinside,fun n' q' hstage => ?_⟩,hspec⟩
    obtain ⟨hq',hline'⟩ := h.flush n' q' hstage
    change q'<(s.taken ++ s.unread.take k).length ∧ lineNumber (s.taken ++ s.unread.take k) q' =
      lineNumber (s.taken ++ s.unread.take k) (s.taken ++ s.unread.take k).length
    rw [List.length_append,lineNumber_behind,lineNumber_append hq'.le,hline',List.take_length,
      List.count_eq_zero_of_not_mem hnl]
    exact ⟨by omega,rfl⟩

theorem endsAtNewline_empty (h : ∀ k, a = .read (.bytes k) → k = 0) : EndsAtNewline s a := by
  unfold EndsAtNewline
  split
  · rw [h _ rfl]
    exact fun _ => List.not_mem_nil
  · trivial

/-- One step, and when it keeps the law. -/
theorem FlushInv.next (h : FlushInv s) (hn : s.next a = some t) :
    FlushInv t ∧ (FlushesOneLine t ↔ FlushesOneLine s ∧ EndsAtNewline s a) := by
  obtain ⟨hq,-,hread⟩ | ⟨k,rfl,hs,h0,-,hlen,rfl⟩ | ⟨n,q,hs,ha,rfl⟩ |
    ⟨n,q,k,hs,rfl,h0,-,hlen,rfl⟩ := StdinTask.next_cases hn
  · rw [and_iff_left (endsAtNewline_empty hread)]
    refine ⟨⟨?_,fun n q hstage => ?_⟩,
      flushesOneLine_append h ⟨[],by rw [hq.taken,List.append_nil]⟩ hq.discards⟩
    · rw [hq.discards,hq.taken]
      exact h.inside
    · rw [hq.taken]
      obtain hst | ⟨-,hst⟩ := hq.stage
      · exact h.flush n q (hst ▸ hstage)
      · rw [hstage] at hst
        cases hst
  · have hend : EndsAtNewline s (.read (.bytes k)) := by
      intro hf
      rw [hs] at hf
      cases hf
    rw [and_iff_left hend]
    exact FlushInv.takeIn (s := {s with requests := s.requests ++ [s.room]}) ⟨h.inside,h.flush⟩ h0
      hlen
  · have hend : EndsAtNewline s a := by
      refine endsAtNewline_empty fun k hk => ?_
      obtain ⟨err,rfl⟩ | rfl := ha <;> cases hk
      rfl
    rw [and_iff_left hend]
    have htaken : ∃ more, (s.finish n).taken = s.taken ++ more :=
      ⟨[],by rw [StdinTask.finish_taken,List.append_nil]⟩
    exact ⟨h.append htaken StdinTask.finish_discards (by rw [StdinTask.finish_stage]; rfl),
      flushesOneLine_append h htaken StdinTask.finish_discards⟩
  · have hend : EndsAtNewline s (.read (.bytes k)) ↔ 10 ∉ (s.unread.take k).dropLast := by
      simp only [EndsAtNewline,hs,StdinStage.flushing,true_implies]
    rw [hend]
    exact h.discard hs h0 hlen

/-- In every run, for every stream and every way of splitting it: the flush loop throws away bytes
of overflowed lines only if and only if none of its blocks has a newline before its last byte. -/
theorem flushesOneLine_iff (run : Exec (StdinTask.machine bufSize) tr s) :
    FlushesOneLine s ↔ Meets EndsAtNewline tr := by
  have h : FlushInv s ∧ (FlushesOneLine s ↔ Meets EndsAtNewline tr) := by
    induction run with
    | init h =>
      obtain ⟨mem,stream,rfl⟩ := StdinTask.machine_init h
      exact ⟨⟨nofun,nofun⟩,iff_of_true nofun meets_nil⟩
    | step run hn ih =>
      obtain ⟨hinv,hiff⟩ := ih.1.next hn
      exact ⟨hinv,by rw [hiff,ih.2,meets_snoc]⟩
  exact h.2

/-- Two lines through a pipe, of which the first fills a buffer of five bytes. -/
def pipedLines : List UInt8 := cBytes "stop\nstart\n"

/-- The buffer takes four bytes; the flush gets the newline alone. -/
def splitAtNewline : List StdinInput :=
  [.test,.poll .ready [],.read (.bytes 4),.read (.bytes 1)]

theorem flushesOneLine_iff_splitAtNewline : ∃ tr s, Exec (StdinTask.machine 5) tr s ∧
    s.discards = [(4,3)] ∧ FlushesOneLine s := by
  have hv : ((StdinTask.machine 5).run (.start 5 (fun _ => 0) pipedLines) splitAtNewline).map
      (·.discards) = some [(4,3)] := by decide
  obtain ⟨s,hs,hr⟩ := Option.map_eq_some_iff.mp hv
  have run := Exec.of_run (StdinTask.start_init 5 _ _) hs
  exact ⟨_,s,run,hr,(flushesOneLine_iff run).mpr (by decide)⟩

/-- When the pipe hands over all that it has, the flush throws the second line away. -/
theorem flush_swallows_next_line : ∃ tr s, Exec (StdinTask.machine 5) tr s ∧
    s.unread = [] ∧ s.log = [.ready,.overflow,.received (cBytes "stop")] ∧
    (5,3) ∈ s.discards ∧ s.taken[5]? = some 115 ∧ ¬FlushesOneLine s := by
  have hv : ((StdinTask.machine 5).run (.start 5 (fun _ => 0) pipedLines)
      [.test,.poll .ready [],.read (.bytes 4),.read (.bytes 7)]).map
      (fun s => (s.unread,s.log,decide ((5,3) ∈ s.discards),s.taken)) =
      some ([],[.ready,.overflow,.received (cBytes "stop")],true,pipedLines) := by decide
  obtain ⟨s,hs,hr⟩ := Option.map_eq_some_iff.mp hv
  simp only [Prod.mk.injEq,decide_eq_true_eq] at hr
  obtain ⟨hunread,hlog,hdiscard,htaken⟩ := hr
  refine ⟨_,s,Exec.of_run (StdinTask.start_init 5 _ _) hs,hunread,hlog,hdiscard,?_,fun h => ?_⟩
  · rw [htaken]
    decide
  · have hline := h _ hdiscard
    rw [htaken] at hline
    revert hline
    decide

end TTK4145.Rtsystem
