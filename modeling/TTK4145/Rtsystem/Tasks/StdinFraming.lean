import TTK4145.Rtsystem.Tasks.StdinTask

/-! `stdin_task` on a terminal: the lines typed, and what the task makes of them. -/
namespace TTK4145.Rtsystem
open Lib
variable {s t : StdinTask} {bufSize : UInt64} {n q k m j : ℕ} {a : StdinInput}
  {tr : List (StdinTask × StdinInput)} {lines : List (List UInt8)} {l rest more : List UInt8}

/-- The input that a sequence of lines is. -/
def typed (lines : List (List UInt8)) : List UInt8 := lines.flatMap (· ++ [10])

/-- A `read` from a terminal never crosses a newline. It may bring nothing. -/
def OnTerminal (s : StdinTask) : StdinInput → Prop
  | .read (.bytes k) => 10 ∉ (s.unread.take k).dropLast
  | _ => True

instance (s : StdinTask) : (a : StdinInput) → Decidable (OnTerminal s a)
  | .read (.bytes k) => inferInstanceAs (Decidable (10 ∉ (s.unread.take k).dropLast))
  | .read (.error _) | .stop | .test | .poll _ _ => isTrue trivial

/-- The task with these lines typed. -/
def terminal (lines : List (List UInt8)) (bufSize : UInt64) : Machine StdinTask StdinInput where
  init s := (StdinTask.machine bufSize).init s ∧ s.unread = typed lines
  next s a := if OnTerminal s a then s.next a else none

/-- What is to be logged about a line: a warning if it fills the buffer, and its first bytes unless
it is empty. -/
def lineLog (bufSize : UInt64) (l : List UInt8) : List StdinRecord :=
  (if bufSize.toNat-1 ≤ l.length then [.overflow] else []) ++
    if l = [] then [] else [.received (l.take (bufSize.toNat-1))]

/-- Outside of the flush loop the input has been taken up to the end of a line, and the log tells
of the lines before it. -/
def Framed (lines : List (List UInt8)) (s : StdinTask) : Prop :=
  s.stage.flushing = false → ∃ m ≤ lines.length, s.taken = typed (lines.take m) ∧
    s.log.filter StdinRecord.aboutInput = (lines.take m).flatMap (lineLog s.bufSize)

/-- The `read` of the loop brings nothing, the rest of a line, or what there is room for, and no `read`
of the flush loop fails or brings nothing. -/
def Whole (s : StdinTask) : StdinInput → Prop
  | .read (.bytes k) => if s.stage.flushing = true then 0<k
    else k = 0 ∨ k = s.room.toNat ∨ 10 ∈ s.unread.take k
  | .read (.error _) => s.stage.flushing = false
  | _ => True

instance (s : StdinTask) : (a : StdinInput) → Decidable (Whole s a)
  | .read (.bytes _) => inferInstanceAs (Decidable (if s.stage.flushing = true then _ else _))
  | .read (.error _) => inferInstanceAs (Decidable (s.stage.flushing = false))
  | .stop | .test | .poll _ _ => isTrue trivial

section Typed

theorem typed_take_drop (lines : List (List UInt8)) (m : ℕ) :
    typed (lines.take m) ++ typed (lines.drop m) = typed lines := by
  rw [typed,typed,←List.flatMap_append,List.take_append_drop]
  rfl

theorem typed_succ (h : lines[m]? = some l) :
    typed (lines.take (m+1)) = typed (lines.take m) ++ (l ++ [10]) := by
  rw [typed,List.take_add_one,h,List.flatMap_append]
  simp [typed]

theorem typed_drop (h : lines[m]? = some l) :
    typed (lines.drop m) = l ++ 10::typed (lines.drop (m+1)) := by
  obtain ⟨hm,rfl⟩ := List.getElem?_eq_some_iff.mp h
  rw [List.drop_eq_getElem_cons hm,typed,List.flatMap_cons,List.append_assoc]
  rfl

/-- A piece of a line behind whole lines is no sequence of lines. -/
theorem typed_ne (h10 : 10 ∉ l) (hj : 0<j) (hne : l ≠ []) (before after : List (List UInt8)) :
    typed before ++ l.take j ≠ typed after := by
  intro h
  have hpiece : l.take j ≠ [] := by
    rw [ne_eq,List.take_eq_nil_iff]
    rintro (h0 | h0)
    · omega
    · exact hne h0
  obtain rfl | ⟨ls,x,rfl⟩ := List.eq_nil_or_concat' after
  · exact hpiece (List.append_eq_nil_iff.mp h).2
  · have hlast := congrArg List.getLast? h
    rw [List.getLast?_append_of_ne_nil _ hpiece,typed,List.flatMap_append,List.flatMap_singleton,
      ←List.append_assoc,List.getLast?_append_cons] at hlast
    exact h10 (List.mem_of_mem_take (List.mem_of_getLast? hlast))

/-- What a `read` of a terminal brings of a line: a piece of it, or all of it with its newline. -/
theorem read_cases (h10 : 10 ∉ rest) (hk : k ≤ (rest ++ 10::more).length)
    (hread : 10 ∉ ((rest ++ 10::more).take k).dropLast) :
    (k ≤ rest.length ∧ (rest ++ 10::more).take k = rest.take k ∧
      10 ∉ (rest ++ 10::more).take k) ∨
    k = rest.length+1 ∧ (rest ++ 10::more).take k = rest ++ [10] := by
  by_cases hle : k ≤ rest.length
  · have htake : (rest ++ 10::more).take k = rest.take k := List.take_append_of_le_length hle
    exact .inl ⟨hle,htake,by rw [htake]; exact fun hm => h10 (List.mem_of_mem_take hm)⟩
  · obtain ⟨i,rfl⟩ : ∃ i, k = rest.length+1+i := ⟨k-(rest.length+1),by omega⟩
    have htake : (rest ++ 10::more).take (rest.length+1+i) = rest ++ 10::more.take i := by
      rw [Nat.add_assoc,List.take_length_add_append,Nat.add_comm 1 i,List.take_succ_cons]
    cases i with
    | zero => exact .inr ⟨rfl,htake⟩
    | succ i =>
      rw [htake,List.dropLast_append_of_ne_nil (List.cons_ne_nil _ _)] at hread
      refine absurd (List.mem_append_right _ ?_) hread
      have hlen : more.take (i+1) ≠ [] := by
        rw [ne_eq,List.take_eq_nil_iff]
        rintro (h0 | h0)
        · omega
        · rw [h0] at hk
          simp only [List.length_append,List.length_cons,List.length_nil] at hk
          omega
      rw [List.dropLast_cons_of_ne_nil hlen]
      exact List.mem_cons_self

end Typed

/-- The input splits at the position reached, and in the flush loop the task is inside of a line
that fills the buffer, which holds its first bytes. -/
structure FramingInv (lines : List (List UInt8)) (bufSize : UInt64) (s : StdinTask) : Prop where
  size : s.bufSize = bufSize
  input : s.taken ++ s.unread = typed lines
  framed : Framed lines s
  flush : ∀ n q, s.stage = .flush n q → ∃ m l j, lines[m]? = some l ∧ n = bufSize.toNat-1 ∧
    n ≤ j ∧ j ≤ l.length ∧ s.taken = typed (lines.take m) ++ l.take j ∧
    s.line.mem (n-1) ≠ 10 ∧ s.line.text n = l.take n ∧
    s.log.filter StdinRecord.aboutInput =
      (lines.take m).flatMap (lineLog bufSize) ++ [.overflow]

section Steps

theorem room_toNat (h : 1 ≤ s.bufSize.toNat) : s.room.toNat = s.bufSize.toNat-1 :=
  UInt64.toNat_sub_of_le _ 1 (UInt64.le_iff_toNat_le.mpr h)

/-- A line that leaves room for its newline. -/
theorem lineLog_short (h : l.length<bufSize.toNat-1) :
    lineLog bufSize l = if l = [] then [] else [.received l] := by
  rw [lineLog,if_neg (by omega),List.nil_append,List.take_of_length_le h.le]

/-- A line that fills the buffer. -/
theorem lineLog_long (h : bufSize.toNat-1 ≤ l.length) (hsize : 2 ≤ bufSize.toNat) :
    lineLog bufSize l = [.overflow,.received (l.take (bufSize.toNat-1))] := by
  have hne : l ≠ [] := by
    rintro rfl
    simp only [List.length_nil] at h
    omega
  rw [lineLog,if_pos h,if_neg hne]
  rfl

theorem flatMap_succ {f : List UInt8 → List StdinRecord} (h : lines[m]? = some l) :
    (lines.take (m+1)).flatMap f = (lines.take m).flatMap f ++ f l := by
  rw [List.take_add_one,h,List.flatMap_append]
  simp

/-- The line that the unread input starts with, when something is left to read. -/
theorem next_line (htaken : s.taken = typed (lines.take m))
    (hinput : s.taken ++ s.unread = typed lines) (h0 : 0<k) (hk : k ≤ s.unread.length) :
    ∃ l, lines[m]? = some l ∧ s.unread = l ++ 10::typed (lines.drop (m+1)) := by
  rw [htaken,←typed_take_drop lines m] at hinput
  have hunread := List.append_cancel_left hinput
  cases hm : lines[m]? with
  | none =>
    rw [List.getElem?_eq_none_iff] at hm
    rw [hunread,List.drop_eq_nil_of_le hm] at hk
    simp only [typed,List.flatMap_nil,List.length_nil] at hk
    omega
  | some l => exact ⟨l,rfl,hunread.trans (typed_drop hm)⟩

/-- The loop's `read` brings a whole line: it is reported at once. -/
theorem FramingInv.takeLine (h : FramingInv lines bufSize s) (h0 : 0 ∉ l)
    (hsize : 2 ≤ bufSize.toNat) (hl : lines[m]? = some l)
    (htaken : s.taken = typed (lines.take m))
    (hlog : s.log.filter StdinRecord.aboutInput = (lines.take m).flatMap (lineLog s.bufSize))
    (hk : k = l.length+1) (hroom : k ≤ s.room.toNat) (hlen : k ≤ s.unread.length)
    (hread : s.unread.take k = l ++ [10]) : FramingInv lines bufSize (s.takeIn k) := by
  have hpos : 0<k := by omega
  have hbytes : 0 ∉ s.unread.take k := by
    rw [hread]
    simpa using h0
  have hroom' : s.room.toNat = bufSize.toNat-1 := by
    rw [←h.size]
    exact room_toNat (by rw [h.size]; omega)
  have hlast : s.unread[k-1]? = some 10 := by
    rw [←List.getElem?_take_of_lt (show k-1<k by omega),hread,hk,Nat.add_sub_cancel,
      List.getElem?_append_right (Nat.le_refl _),Nat.sub_self]
    rfl
  have hfilled := StdinTask.filled_mem hpos hlen
  rw [hlast,Option.some.injEq] at hfilled
  obtain ⟨b,extra,hmem,-,-,⟨ho,-⟩ | ⟨-,ht⟩⟩ := StdinTask.takeIn_cases hpos hlen
  · exact absurd hlast ho.2
  have hlogt : (s.takeIn k).log.filter StdinRecord.aboutInput =
      (lines.take (m+1)).flatMap (lineLog bufSize) := by
    have htext : (s.taking k b).line.text (k-1) = l := by
      rw [show (s.taking k b).line = b from rfl,ByteBuf.text_congr hmem,
        StdinTask.filled_text hbytes (Nat.sub_le k 1) hlen,hread,hk,Nat.add_sub_cancel]
      exact List.take_left' rfl
    have hnl : (s.taking k b).line.mem (k-1) = 10 := by
      rw [show (s.taking k b).line = b from rfl,hmem,hfilled]
    rw [ht,StdinTask.finish_log hpos,StdinTask.reported,if_pos hnl,htext,flatMap_succ hl,
      lineLog_short (by omega),←h.size,←hlog,hk,Nat.add_sub_cancel]
    simp only [List.length_eq_zero_iff]
    rfl
  have htakent : (s.takeIn k).taken = typed (lines.take (m+1)) := by
    rw [ht,StdinTask.finish_taken,typed_succ hl,←htaken,←hread]
    rfl
  refine ⟨by rw [ht,StdinTask.finish_bufSize]; exact h.size,?_,fun _ => ⟨m+1,?_,htakent,?_⟩,?_⟩
  · rw [ht,StdinTask.finish_taken,StdinTask.finish_unread,←h.input]
    change s.taken ++ s.unread.take k ++ s.unread.drop k = _
    rw [List.append_assoc,List.take_append_drop]
  · have := (List.getElem?_eq_some_iff.mp hl).1
    omega
  · rw [hlogt,ht,StdinTask.finish_bufSize]
    exact congrArg (fun b => (lines.take (m+1)).flatMap (lineLog b)) h.size.symm
  · intro n q hstage
    rw [ht,StdinTask.finish_stage] at hstage
    cases hstage

/-- The loop's `read` fills the buffer with a piece of a line. -/
theorem FramingInv.overflow (h : FramingInv lines bufSize s) (h0 : 0 ∉ l) (h10 : 10 ∉ l)
    (hsize : 2 ≤ bufSize.toNat) (hl : lines[m]? = some l)
    (htaken : s.taken = typed (lines.take m))
    (hlog : s.log.filter StdinRecord.aboutInput = (lines.take m).flatMap (lineLog s.bufSize))
    (hk : k ≤ l.length) (hroom : k = s.room.toNat) (hlen : k ≤ s.unread.length)
    (hread : s.unread.take k = l.take k) : FramingInv lines bufSize (s.takeIn k) := by
  have hroom' : s.room.toNat = bufSize.toNat-1 := by
    rw [←h.size]
    exact room_toNat (by rw [h.size]; omega)
  have hpos : 0<k := by omega
  have hlast : s.unread[k-1]? ≠ some 10 := by
    rw [←List.getElem?_take_of_lt (show k-1<k by omega),hread]
    intro he
    exact h10 (List.mem_of_mem_take (List.mem_of_getElem? he))
  have hfilled := StdinTask.filled_mem hpos hlen
  obtain ⟨b,extra,hmem,-,-,⟨-,ht⟩ | ⟨ho,-⟩⟩ := StdinTask.takeIn_cases hpos hlen
  swap
  · exact absurd ⟨hroom,hlast⟩ ho
  rw [ht]
  refine ⟨h.size,?_,nofun,?_⟩
  · rw [←h.input]
    change s.taken ++ s.unread.take k ++ s.unread.drop k = _
    rw [List.append_assoc,List.take_append_drop]
  · intro n q hstage
    cases hstage
    refine ⟨m,l,k,hl,by omega,Nat.le_refl _,hk,?_,?_,?_,?_⟩
    · rw [←htaken,←hread]
      rfl
    · change b.mem (k-1) ≠ 10
      rw [hmem]
      intro he
      rw [he] at hfilled
      exact hlast hfilled
    · change b.text k = l.take k
      have hnul : 0 ∉ s.unread.take k := by
        rw [hread]
        exact fun hm => h0 (List.mem_of_mem_take hm)
      rw [ByteBuf.text_congr hmem,StdinTask.filled_text hnul (Nat.le_refl k) hlen,hread,
        List.take_take,Nat.min_self]
    · rw [←h.size,←hlog]
      simp [StdinTask.record,StdinTask.report,StdinTask.goto,StdinTask.taking,StdinTask.deliver,
        StdinRecord.aboutInput]

/-- In the middle of a line the task is not behind a newline. -/
theorem unframed (h10 : 10 ∉ l) (hj : 0<j) (hjl : j ≤ l.length)
    (htaken : t.taken = typed (lines.take m) ++ l.take j) (hstage : t.stage.flushing = false) :
    ¬Framed lines t := by
  intro hf
  obtain ⟨m',-,htaken',-⟩ := hf hstage
  have hne : l ≠ [] := by
    rintro rfl
    simp only [List.length_nil] at hjl
    omega
  exact typed_ne h10 hj hne _ _ (htaken.symm.trans htaken')

/-- A `read` of the flush loop fails or brings nothing: the line is reported with its rest still
unread. -/
theorem FramingInv.flush_fails (h : FramingInv lines bufSize s) (hsize : 2 ≤ bufSize.toNat)
    (hlines : ∀ l ∈ lines, 0 ∉ l ∧ 10 ∉ l) (hs : s.stage = .flush n q) :
    ¬Framed lines (s.finish n) := by
  obtain ⟨m,l,j,hl,hn,hnj,hjl,htaken,-⟩ := h.flush n q hs
  refine unframed (m := m) (hlines l (List.mem_of_getElem? hl)).2 (by omega) hjl ?_ ?_
  · rw [StdinTask.finish_taken,htaken]
  · rw [StdinTask.finish_stage]
    rfl

/-- A block of the flush loop: more of the line, or its end. -/
theorem FramingInv.block (h : FramingInv lines bufSize s) (hsize : 2 ≤ bufSize.toNat)
    (hlines : ∀ l ∈ lines, 0 ∉ l ∧ 10 ∉ l) (hs : s.stage = .flush n q)
    (hlen : k ≤ s.unread.length) (hterm : 10 ∉ (s.unread.take k).dropLast) :
    FramingInv lines bufSize (s.discard n q k) := by
  obtain ⟨m,l,j,hl,hn,hnj,hjl,htaken,hmem,htext,hlog⟩ := h.flush n q hs
  obtain ⟨-,h10⟩ := hlines l (List.mem_of_getElem? hl)
  have hunread : s.unread = l.drop j ++ 10::typed (lines.drop (m+1)) := by
    have hinput := h.input
    rw [htaken,←typed_take_drop lines m,List.append_assoc] at hinput
    have hrest := List.append_cancel_left hinput
    rw [typed_drop hl] at hrest
    nth_rewrite 2 [←List.take_append_drop j l] at hrest
    rw [List.append_assoc] at hrest
    exact List.append_cancel_left hrest
  have hdrop : 10 ∉ l.drop j := fun hm => h10 (List.mem_of_mem_drop hm)
  have hinputt : s.taken ++ s.unread.take k ++ s.unread.drop k = typed lines := by
    rw [List.append_assoc,List.take_append_drop,h.input]
  obtain ⟨hk,htake,hnl⟩ | ⟨-,htake⟩ := read_cases (k := k) hdrop (by rwa [←hunread])
    (by rwa [←hunread])
  · rw [←hunread] at htake hnl
    simp only [StdinTask.discard,if_neg hnl]
    refine ⟨h.size,hinputt,fun hstage => ?_,fun n' q' hstage => ?_⟩
    · change s.stage.flushing = false at hstage
      rw [hs] at hstage
      cases hstage
    · change s.stage = _ at hstage
      rw [hs] at hstage
      cases hstage
      rw [List.length_drop] at hk
      refine ⟨m,l,j+k,hl,hn,by omega,by omega,?_,hmem,htext,hlog⟩
      change s.taken ++ s.unread.take k = _
      rw [htaken,htake,List.append_assoc,List.take_add]
  · rw [←hunread] at htake
    have hnl : 10 ∈ s.unread.take k := by
      rw [htake]
      simp
    simp only [StdinTask.discard,if_pos hnl]
    refine ⟨by rw [StdinTask.finish_bufSize]; exact h.size,?_,fun _ => ⟨m+1,?_,?_,?_⟩,?_⟩
    · rw [StdinTask.finish_taken,StdinTask.finish_unread]
      exact hinputt
    · have := (List.getElem?_eq_some_iff.mp hl).1
      omega
    · rw [StdinTask.finish_taken,typed_succ hl]
      change s.taken ++ s.unread.take k = _
      rw [htaken,htake,List.append_assoc,←List.append_assoc (l.take j),List.take_append_drop]
    · rw [StdinTask.finish_log (by omega),StdinTask.finish_bufSize,flatMap_succ hl]
      change s.log.filter StdinRecord.aboutInput ++ StdinTask.reported s.line n =
        (lines.take m).flatMap (lineLog s.bufSize) ++ lineLog s.bufSize l
      rw [StdinTask.reported,if_neg hmem,htext,hlog,h.size,lineLog_long (by omega) hsize,hn,
        List.append_assoc]
      rfl
    · intro n' q' hstage
      rw [StdinTask.finish_stage] at hstage
      cases hstage

/-- The loop's `read`, in full: what it needs to bring, and what comes of it. -/
theorem FramingInv.read (h : FramingInv lines bufSize s) (hsize : 2 ≤ bufSize.toNat)
    (hlines : ∀ l ∈ lines, 0 ∉ l ∧ 10 ∉ l) (hs : s.stage = .read) (hpos : 0<k)
    (hroom : k ≤ s.room.toNat) (hlen : k ≤ s.unread.length)
    (hterm : 10 ∉ (s.unread.take k).dropLast) :
    (Whole s (.read (.bytes k)) → FramingInv lines bufSize (s.takeIn k)) ∧
      (¬Whole s (.read (.bytes k)) → ¬Framed lines (s.takeIn k)) := by
  have hloop : ¬s.stage.flushing = true := by
    rw [hs]
    decide
  obtain ⟨m,-,htaken,hlog⟩ := h.framed (by rw [hs]; rfl)
  obtain ⟨l,hl,hunread⟩ := next_line htaken h.input hpos hlen
  obtain ⟨h0,h10⟩ := hlines l (List.mem_of_getElem? hl)
  obtain ⟨hk,htake,hnl⟩ | ⟨hk,htake⟩ := read_cases (k := k) h10 (by rwa [←hunread])
    (by rwa [←hunread])
  · rw [←hunread] at htake hnl
    constructor
    · intro hwhole
      rw [Whole,if_neg hloop] at hwhole
      obtain hzero | hfull | hm := hwhole
      · omega
      · exact h.overflow h0 h10 hsize hl htaken hlog hk hfull hlen htake
      · exact absurd hm hnl
    · intro hshort
      rw [Whole,if_neg hloop] at hshort
      have hne : k ≠ s.room.toNat := fun he => hshort (.inr (.inl he))
      obtain ⟨b,extra,-,-,-,⟨ho,-⟩ | ⟨-,ht⟩⟩ := StdinTask.takeIn_cases hpos hlen
      · exact absurd ho.1 hne
      · refine unframed (m := m) h10 hpos hk ?_ ?_
        · rw [ht,StdinTask.finish_taken,←htaken,←htake]
          rfl
        · rw [ht,StdinTask.finish_stage]
          rfl
  · rw [←hunread] at htake
    refine ⟨fun _ => h.takeLine h0 hsize hl htaken hlog hk hroom hlen htake,fun hshort => ?_⟩
    rw [Whole,if_neg hloop] at hshort
    refine absurd (.inr (.inr ?_)) hshort
    rw [htake]
    simp

end Steps

theorem FramingInv.quiet (h : FramingInv lines bufSize s) (hq : StdinTask.Quiet s t) :
    FramingInv lines bufSize t := by
  refine ⟨hq.bufSize.trans h.size,?_,fun hstage => ?_,fun n q hstage => ?_⟩
  · rw [hq.taken,hq.unread,h.input]
  · rw [hq.taken,hq.log,hq.bufSize]
    obtain hst | ⟨hst,-⟩ := hq.stage
    · exact h.framed (hst ▸ hstage)
    · exact h.framed hst
  · rw [hq.taken,hq.log,hq.line]
    obtain hst | ⟨-,hst⟩ := hq.stage
    · exact h.flush n q (hst ▸ hstage)
    · rw [hstage] at hst
      cases hst

/-- The steps that meet the condition keep the invariant; the others leave the task in the middle
of a line. -/
theorem FramingInv.next (h : FramingInv lines bufSize s) (hsize : 2 ≤ bufSize.toNat)
    (hlines : ∀ l ∈ lines, 0 ∉ l ∧ 10 ∉ l) (hn : (terminal lines bufSize).next s a = some t) :
    (Whole s a → FramingInv lines bufSize t) ∧ (¬Whole s a → ¬Framed lines t) := by
  simp only [terminal] at hn
  split_ifs at hn with hterm
  obtain ⟨hq,hstop,hread⟩ | ⟨k,rfl,hs,h0,hroom,hlen,rfl⟩ | ⟨n,q,hs,ha,rfl⟩ |
    ⟨n,q,k,hs,rfl,h0,-,hlen,rfl⟩ := StdinTask.next_cases hn
  · refine ⟨fun _ => h.quiet hq,fun hbad => absurd ?_ hbad⟩
    unfold Whole
    split
    · rename_i k
      obtain he | hf := hstop
      · cases he
      · rw [if_neg (by rw [hf]; decide)]
        exact .inl (hread k rfl)
    · obtain he | hf := hstop
      · cases he
      · exact hf
    · trivial
  · exact FramingInv.read (s := {s with requests := s.requests ++ [s.room]})
      ⟨h.size,h.input,h.framed,h.flush⟩ hsize hlines hs h0 hroom hlen hterm
  · have hflush : s.stage.flushing = true := by
      rw [hs]
      rfl
    refine ⟨fun hwhole => ?_,fun _ => h.flush_fails hsize hlines hs⟩
    obtain ⟨err,rfl⟩ | rfl := ha
    · change s.stage.flushing = false at hwhole
      rw [hflush] at hwhole
      cases hwhole
    · rw [Whole,if_pos hflush] at hwhole
      exact absurd hwhole (Nat.lt_irrefl 0)
  · refine ⟨fun _ => h.block hsize hlines hs hlen hterm,fun hbad => absurd ?_ hbad⟩
    rw [Whole,if_pos (by rw [hs]; rfl)]
    exact h0

theorem FramingInv.init (h : (terminal lines bufSize).init s) : FramingInv lines bufSize s := by
  obtain ⟨hinit,htyped⟩ := h
  obtain ⟨mem,stream,rfl⟩ := StdinTask.machine_init hinit
  exact ⟨rfl,htyped,fun _ => ⟨0,Nat.zero_le _,rfl,rfl⟩,nofun⟩

/-- On a terminal, the task stands behind a line and has reported exactly the lines before it
whenever it is not flushing, if and only if every `read` of its loop that brings bytes brings a whole
line or fills the buffer and no `read` of its flush loop fails or brings nothing. -/
theorem framed_iff_whole (hsize : 2 ≤ bufSize.toNat) (hlines : ∀ l ∈ lines, 0 ∉ l ∧ 10 ∉ l)
    (run : Exec (terminal lines bufSize) tr s) : Always (Framed lines) tr s ↔ Meets Whole tr := by
  constructor
  · exact run.meets_of_always (I := FramingInv lines bufSize) (fun s hs => .init hs)
      (fun s a t h hw hn => (h.next hsize hlines hn).1 hw)
      fun s a t h hw hn => (h.next hsize hlines hn).2 hw
  · intro hmeets
    exact (run.always (I := FramingInv lines bufSize) (fun s hs => .init hs)
      (fun s a t h hw hn => (h.next hsize hlines hn).1 hw) hmeets).mono fun s h => h.framed

/-- A short, an empty and a long line. -/
def threeLines : List (List UInt8) := [cBytes "hi",[],cBytes "shutdown"]

theorem terminal_init (lines : List (List UInt8)) (bufSize : UInt64) :
    (terminal lines bufSize).init (.start bufSize (fun _ => 0) (typed lines)) :=
  ⟨StdinTask.start_init _ _ _,rfl⟩

/-- The last line comes in four bytes for the buffer, two for the flush, and the rest. A poll and a
read fail in between. -/
def threeLinesRun : List StdinInput := [.test,.poll .ready [],.read (.bytes 3),
  .test,.poll .error [],.test,.poll .ready [],.read (.error []),
  .test,.poll .ready [],.read (.bytes 1),.test,.poll .timeout [],
  .test,.poll .ready [],.read (.bytes 4),.read (.bytes 2),.read (.bytes 3)]

theorem framed_iff_whole_threeLines : ∃ tr s, Exec (terminal threeLines 5) tr s ∧
    s.unread = [] ∧ Always (Framed threeLines) tr s := by
  have hv : ((terminal threeLines 5).run (.start 5 (fun _ => 0) (typed threeLines))
      threeLinesRun).map (·.unread) = some [] := by decide
  obtain ⟨s,hs,hr⟩ := Option.map_eq_some_iff.mp hv
  have run := Exec.of_run (terminal_init _ _) hs
  exact ⟨_,s,run,hr,(framed_iff_whole (by decide) (by decide) run).mpr (by decide)⟩

/-- After a failed `read` in the flush loop the rest of the line is taken for a line. -/
theorem flush_error_splits_line : ∃ tr s, Exec (terminal [cBytes "shutdown"] 5) tr s ∧
    s.unread = [] ∧ s.log.filter StdinRecord.aboutInput =
      [.overflow,.received (cBytes "shut"),.overflow,.received (cBytes "down")] ∧
    ¬Always (Framed [cBytes "shutdown"]) tr s := by
  have hv : ((terminal [cBytes "shutdown"] 5).run
      (.start 5 (fun _ => 0) (typed [cBytes "shutdown"]))
      [.test,.poll .ready [],.read (.bytes 4),.read (.error []),
        .test,.poll .ready [],.read (.bytes 4),.read (.bytes 1)]).map
      (fun s => (s.unread,s.log.filter StdinRecord.aboutInput,s.stage.flushing)) =
      some ([],[.overflow,.received (cBytes "shut"),.overflow,.received (cBytes "down")],
        false) := by decide
  obtain ⟨s,hs,hr⟩ := Option.map_eq_some_iff.mp hv
  simp only [Prod.mk.injEq] at hr
  obtain ⟨hunread,hlog,hstage⟩ := hr
  refine ⟨_,s,Exec.of_run (terminal_init _ _) hs,hunread,hlog,fun h => ?_⟩
  obtain ⟨m,-,-,hlines⟩ := h.2 hstage
  -- the one line gives at most two records, and there are four
  have hlen := congrArg List.length (hlog.symm.trans hlines)
  have hle : ((([cBytes "shutdown"].take m).flatMap (lineLog s.bufSize)).length) ≤ 2 := by
    cases m with
    | zero => exact Nat.zero_le _
    | succ m =>
      simp only [List.take_succ_cons,List.take_nil,List.flatMap_cons,List.flatMap_nil,
        List.append_nil,lineLog,List.length_append]
      split_ifs <;> simp
  rw [←hlen] at hle
  exact absurd hle (by decide)

end TTK4145.Rtsystem
