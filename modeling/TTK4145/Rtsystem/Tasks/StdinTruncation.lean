import TTK4145.Rtsystem.Tasks.StdinTask

/-! What the log records of `stdin_task` keep of a line: the buffer, the overflow test and the
`message` field of a record each have a limit of their own. -/
namespace TTK4145.Rtsystem
open Lib
variable {s t : StdinTask} {bufSize : UInt64} {n q k i p timestamp : ℕ} {a : StdinInput}
  {tr : List (StdinTask × StdinInput)} {l stream : List UInt8} {new : List StdinRecord}

/-- The record's message is the complete text about a line. -/
def Tells (bufSize : UInt64) (timestamp : ℕ) (l : List UInt8) (r : StdinRecord) : Prop :=
  ((r.call bufSize).record timestamp).message = cBytes "input received: " ++ l

/-- A line of the stream starts at `p`. -/
def LineStart (stream : List UInt8) (p : ℕ) : Prop := p = 0 ∨ stream[p-1]? = some 10

/-- The line that starts at `p`, without its newline. -/
def lineAt (stream : List UInt8) (p : ℕ) : List UInt8 := (stream.drop p).takeWhile (· ≠ 10)

/-- The first record about the piece of input in which the byte at `p` came into the buffer. -/
def recordAt (s : StdinTask) (p : ℕ) : Option StdinRecord :=
  (s.records.find? fun x => x.1.1 ≤ p ∧ p<x.1.2).map Prod.snd

/-- A record about a piece that begins with the line at `p` carries it in full, or the first record
about the piece in which it starts warns that the input was too long. -/
def Told (timestamp : ℕ) (s : StdinTask) (p : ℕ) : Prop :=
  (∃ q r, ((p,q),r) ∈ s.records ∧ Tells s.bufSize timestamp (lineAt (s.taken ++ s.unread) p) r) ∨
    recordAt s p = some .overflow

/-- Every line of the stream of which a byte has been taken is told. -/
def NoneTruncated (timestamp : ℕ) (s : StdinTask) : Prop :=
  ∀ p<s.taken.length, LineStart s.taken p → Told timestamp s p

/-- The `read` of the loop overflows the buffer, or a `read` brings nothing behind the end of a line,
and where the loop's `read` begins with a line it brings all of it, and the line is not empty and
fits into a record. -/
def FitsRecord (s : StdinTask) : StdinInput → Prop
  | .read (.bytes k) => s.stage = .read ∧ s.Overflows k ∨ 10 ∉ (s.unread.take k).dropLast ∧
    (s.stage = .read → 0<k → LineStart s.taken s.taken.length →
      0<(s.unread.takeWhile (· ≠ 10)).length ∧ (s.unread.takeWhile (· ≠ 10)).length ≤ k ∧
        (s.unread.takeWhile (· ≠ 10)).length ≤ 239)
  | _ => True

instance (stream : List UInt8) (p : ℕ) : Decidable (LineStart stream p) :=
  inferInstanceAs (Decidable (_ ∨ _))

instance (s : StdinTask) (k : ℕ) : Decidable (s.Overflows k) :=
  inferInstanceAs (Decidable (_ ∧ _))

instance (s : StdinTask) : (a : StdinInput) → Decidable (FitsRecord s a)
  | .read (.bytes _) => inferInstanceAs (Decidable (_ ∨ _ ∧ _))
  | .read (.error _) | .stop | .test | .poll _ _ => isTrue trivial

section Message

theorem take_prefix_eq (p : List UInt8) (m : ℕ) :
    (p ++ l.take k).take m = p ++ l ↔ l.length ≤ k ∧ p.length+l.length ≤ m := by
  constructor
  · intro h
    have hlen := congrArg List.length h
    simp only [List.length_take,List.length_append] at hlen
    omega
  · rintro ⟨hk,hm⟩
    rw [List.take_of_length_le hk,List.take_of_length_le (by rwa [List.length_append])]

/-- The message of a report: it is complete if the piece of the line is, and if it fits behind the
words in front of it. -/
theorem received_tells (h0 : 0 ∉ l) :
    Tells bufSize timestamp l (.received (l.take k)) ↔ l.length ≤ k ∧ l.length ≤ 239 := by
  have hnul : (cBytes "input received: " ++ l.take k).takeWhile (· ≠ 0) =
      cBytes "input received: " ++ l.take k := by
    rw [List.takeWhile_eq_self_iff]
    intro x hx
    rw [decide_eq_true_eq]
    rintro rfl
    obtain hx | hx := List.mem_append.mp hx
    · revert hx
      decide
    · exact h0 (List.mem_of_mem_take hx)
  have hlen : (cBytes "input received: ").length = 16 := by decide
  have hmessage : (((StdinRecord.received (l.take k)).call bufSize).record timestamp).message =
      (cBytes "input received: " ++ l.take k).take 255 := by
    change ((cBytes "input received: " ++ l.take k).takeWhile (· ≠ 0)).take 255 = _
    rw [hnul]
  rw [Tells,hmessage,take_prefix_eq,hlen]
  omega

end Message

section Records
variable {more : List UInt8} {span : ℕ × ℕ}

theorem lineStart_append (h : i ≤ stream.length) :
    LineStart (stream ++ more) i ↔ LineStart stream i := by
  obtain rfl | hpos := Nat.eq_zero_or_pos i
  · exact iff_of_true (.inl rfl) (.inl rfl)
  · rw [LineStart,LineStart,List.getElem?_append_left (by omega)]

/-- The lines that start within new bytes: at their first one, or behind a newline among them. -/
theorem lineStart_behind (hi : 0 < i) : LineStart (stream ++ more) (stream.length+i) ↔
    more[i-1]? = some 10 := by
  rw [LineStart,or_iff_right (by omega),Nat.add_sub_assoc hi,
    List.getElem?_append_right (Nat.le_add_right _ _),Nat.add_sub_cancel_left]

/-- No line starts behind the first of the new bytes if and only if no newline stands before the
last of them. -/
theorem newline_inside : (∃ i, 0 < i ∧ i < more.length ∧ more[i-1]? = some 10) ↔
    10 ∈ more.dropLast := by
  rw [List.dropLast_eq_take,List.mem_iff_getElem?]
  constructor
  · rintro ⟨i,hi,hlt,hnl⟩
    exact ⟨i-1,by rw [List.getElem?_take_of_lt (by omega),hnl]⟩
  · rintro ⟨i,hi⟩
    have hlt : i < more.length-1 := by
      have := (List.getElem?_eq_some_iff.mp hi).1
      rw [List.length_take] at this
      omega
    rw [List.getElem?_take_of_lt hlt] at hi
    exact ⟨i+1,Nat.succ_pos i,by omega,hi⟩

/-- The records are about pieces of what has been taken. While the flush loop runs, the piece in the
buffer has its warning, and the input stands inside of a line. -/
structure TellInv (s : StdinTask) : Prop where
  records : ∀ x ∈ s.records, x.1.1<x.1.2 ∧ x.1.2 ≤ s.taken.length
  flush : ∀ n q, s.stage = .flush n q → 0<n ∧ s.piece.1<s.piece.2 ∧ s.piece.2 ≤ s.taken.length ∧
    (∀ p, s.piece.1 ≤ p → p<s.piece.2 → recordAt s p = some .overflow) ∧
    ¬LineStart s.taken s.taken.length

/-- There are no records about what has not been taken. -/
theorem TellInv.unseen (h : TellInv s) (hp : s.taken.length ≤ p) :
    (s.records.find? fun x => x.1.1 ≤ p ∧ p<x.1.2) = none := by
  rw [List.find?_eq_none]
  intro x hx he
  rw [decide_eq_true_eq] at he
  have := (h.records x hx).2
  omega

/-- Records about other pieces, and later records about a piece with a warning, change nothing. -/
theorem told_append (hsize : t.bufSize = s.bufSize)
    (hinput : t.taken ++ t.unread = s.taken ++ s.unread)
    (hrecords : t.records = s.records ++ new.map (span,·)) (hspan : span.1<span.2)
    (hnew : span.1 ≤ p → p<span.2 → recordAt s p = some .overflow) :
    Told timestamp t p ↔ Told timestamp s p := by
  by_cases hp : span.1 ≤ p ∧ p<span.2
  · have hwarned := hnew hp.1 hp.2
    refine iff_of_true (.inr ?_) (.inr hwarned)
    obtain ⟨x,hx,hwarning⟩ := Option.map_eq_some_iff.mp hwarned
    rw [recordAt,hrecords,List.find?_append,hx,Option.some_or]
    exact congrArg some hwarning
  · have hat : recordAt t p = recordAt s p := by
      have hnone : (new.map (span,·)).find? (fun x => x.1.1 ≤ p ∧ p<x.1.2) = none := by
        rw [List.find?_eq_none]
        intro x hx he
        obtain ⟨r,-,rfl⟩ := List.mem_map.mp hx
        exact hp (of_decide_eq_true he)
      rw [recordAt,recordAt,hrecords,List.find?_append,hnone,Option.or_none]
    have hmem (q : ℕ) (r : StdinRecord) : ((p,q),r) ∈ t.records ↔ ((p,q),r) ∈ s.records := by
      rw [hrecords,List.mem_append,or_iff_left]
      intro hr
      obtain ⟨r',-,he⟩ := List.mem_map.mp hr
      have hstart : span.1 = p := congrArg (fun x => x.1.1) he
      exact hp ⟨hstart.le,hstart ▸ hspan⟩
    simp only [Told,hat,hmem,hsize,hinput]

/-- The first record about what is new. -/
theorem TellInv.recordAt_new (h : TellInv s)
    (hrecords : t.records = s.records ++ new.map (span,·)) (hstart : span.1 = s.taken.length)
    (hp : span.1 ≤ p) (hlt : p<span.2) : recordAt t p = new.head? := by
  rw [recordAt,hrecords,List.find?_append,h.unseen (hstart ▸ hp),Option.none_or]
  cases new with
  | nil => rfl
  | cons r new => simp [hp,hlt]

/-- The lines that start in the piece read last. -/
theorem TellInv.told_new (h : TellInv s) (hrecords : t.records = s.records ++ new.map (span,·))
    (hstart : span.1 = s.taken.length) (hp : span.1 ≤ p) (hlt : p<span.2) :
    Told timestamp t p ↔
      (p = span.1 ∧ ∃ r ∈ new, Tells t.bufSize timestamp (lineAt (t.taken ++ t.unread) p) r) ∨
        new.head? = some .overflow := by
  have hmem (q : ℕ) (r : StdinRecord) : ((p,q),r) ∈ t.records ↔ (p,q) = span ∧ r ∈ new := by
    rw [hrecords,List.mem_append,or_iff_right fun hr => ?_]
    · simp only [List.mem_map,Prod.mk.injEq]
      exact ⟨fun ⟨r',hr',he,hr⟩ => ⟨he.symm,hr ▸ hr'⟩,fun ⟨he,hr⟩ => ⟨r,hr,he.symm,rfl⟩⟩
    · have := h.records _ hr
      simp only at this
      omega
  rw [Told,h.recordAt_new hrecords hstart hp hlt]
  refine or_congr_left ⟨?_,?_⟩
  · rintro ⟨q,r,hr,htells⟩
    obtain ⟨hq,hr⟩ := (hmem q r).mp hr
    exact ⟨congrArg Prod.fst hq,r,hr,htells⟩
  · rintro ⟨rfl,r,hr,htells⟩
    exact ⟨span.2,r,(hmem _ r).mpr ⟨rfl,hr⟩,htells⟩

/-- More input: the old lines, and those that start in what is new. -/
theorem noneTruncated_more (htaken : t.taken = s.taken ++ more)
    (hold : ∀ p<s.taken.length, Told timestamp t p ↔ Told timestamp s p) :
    NoneTruncated timestamp t ↔ NoneTruncated timestamp s ∧
      ∀ i < more.length, LineStart t.taken (s.taken.length+i) →
        Told timestamp t (s.taken.length+i) := by
  have hlen : t.taken.length = s.taken.length+more.length := by
    rw [htaken,List.length_append]
  constructor
  · refine fun hall => ⟨fun p hp hl => ?_,fun i hi => hall _ (by omega)⟩
    refine (hold p hp).mp (hall p (by omega) ?_)
    rw [htaken]
    exact (lineStart_append hp.le).mpr hl
  · rintro ⟨hall,hnew⟩ p hp hl
    by_cases hlt : p<s.taken.length
    · rw [htaken] at hl
      exact (hold p hlt).mpr (hall p hlt ((lineStart_append hlt.le).mp hl))
    · obtain ⟨i,rfl⟩ : ∃ i, p = s.taken.length+i := ⟨p-s.taken.length,by omega⟩
      exact hnew i (by omega) hl

/-- New bytes with the first records about them: nothing is cut if these begin with a warning, or if
the bytes stay on one line, which one of the records carries in full if it begins with them. -/
theorem TellInv.grow (h : TellInv s) (hmore : 0 < more.length) (hsize : t.bufSize = s.bufSize)
    (htaken : t.taken = s.taken ++ more) (hinput : t.taken ++ t.unread = s.taken ++ s.unread)
    (hrecords : t.records =
      s.records ++ new.map ((s.taken.length,s.taken.length+more.length),·)) :
    (∀ x ∈ t.records, x.1.1<x.1.2 ∧ x.1.2 ≤ t.taken.length) ∧
    (NoneTruncated timestamp t ↔ NoneTruncated timestamp s ∧ (new.head? = some .overflow ∨
      10 ∉ more.dropLast ∧ (LineStart s.taken s.taken.length →
        ∃ r ∈ new, Tells t.bufSize timestamp (lineAt (t.taken ++ t.unread) s.taken.length) r))) := by
  have hlen : t.taken.length = s.taken.length+more.length := by
    rw [htaken,List.length_append]
  refine ⟨fun x hx => ?_,?_⟩
  · rw [hrecords,List.mem_append] at hx
    obtain hx | hx := hx
    · exact ⟨(h.records x hx).1,(h.records x hx).2.trans (by omega)⟩
    · obtain ⟨r,-,rfl⟩ := List.mem_map.mp hx
      exact ⟨Nat.lt_add_of_pos_right hmore,hlen.ge⟩
  rw [noneTruncated_more htaken fun p hp => told_append hsize hinput hrecords
    (Nat.lt_add_of_pos_right hmore) fun hle => absurd hle (Nat.not_le_of_lt hp)]
  have htold (i : ℕ) (hi : i < more.length) : Told timestamp t (s.taken.length+i) ↔ _ :=
    h.told_new hrecords rfl (Nat.le_add_right _ _) (Nat.add_lt_add_left hi _)
  refine and_congr_right fun _ => ?_
  by_cases hwarned : new.head? = some .overflow
  · exact iff_of_true (fun i hi _ => (htold i hi).mpr (.inr hwarned)) (.inl hwarned)
  rw [or_iff_right hwarned,←newline_inside]
  have hstart : LineStart t.taken (s.taken.length+0) ↔ LineStart s.taken s.taken.length := by
    rw [htaken]
    exact lineStart_append (Nat.le_refl _)
  constructor
  · refine fun hall => ⟨?_,fun hl => ?_⟩
    · rintro ⟨i,hi,hlt,hnl⟩
      obtain ⟨hzero,-⟩ | hhead := (htold i hlt).mp
        (hall i hlt (by rw [htaken]; exact (lineStart_behind hi).mpr hnl))
      · simp only at hzero
        omega
      · exact hwarned hhead
    · obtain ⟨-,hr⟩ | hhead := (htold 0 hmore).mp (hall 0 hmore (hstart.mpr hl))
      · exact hr
      · exact absurd hhead hwarned
  · rintro ⟨hinside,hfirst⟩ i hi hl
    obtain rfl | hpos := Nat.eq_zero_or_pos i
    · exact (htold 0 hmore).mpr (.inl ⟨rfl,hfirst (hstart.mp hl)⟩)
    · rw [htaken] at hl
      exact absurd ⟨i,hpos,hi,(lineStart_behind hpos).mp hl⟩ hinside

end Records

section Steps

/-- What has been read and what has not is the stream. -/
theorem StdinTask.next_input (h : s.next a = some t) :
    t.taken ++ t.unread = s.taken ++ s.unread := by
  have hdeliver : ∀ k, (s.taken ++ s.unread.take k) ++ s.unread.drop k = s.taken ++ s.unread := by
    intro k
    rw [List.append_assoc,List.take_append_drop]
  obtain ⟨hq,-,-⟩ | ⟨k,rfl,hs,hpos,-,hlen,rfl⟩ | ⟨n,q,hs,-,rfl⟩ |
    ⟨n,q,k,hs,rfl,hpos,-,hlen,rfl⟩ := StdinTask.next_cases h
  · rw [hq.taken,hq.unread]
  · obtain ⟨b,extra,-,-,-,⟨-,ht⟩ | ⟨-,ht⟩⟩ := StdinTask.takeIn_cases
      (s := {s with requests := s.requests ++ [s.room]}) hpos hlen
    · rw [ht]
      exact hdeliver k
    · rw [ht,StdinTask.finish_taken,StdinTask.finish_unread]
      exact hdeliver k
  · rw [StdinTask.finish_taken,StdinTask.finish_unread]
  · simp only [StdinTask.discard]
    split_ifs
    · rw [StdinTask.finish_taken,StdinTask.finish_unread]
      exact hdeliver k
    · exact hdeliver k

/-- A `read` within a line: all of it with its newline, or a piece of it. -/
theorem read_within (hk : k ≤ s.unread.length) (h0 : 0<k)
    (hwithin : 10 ∉ (s.unread.take k).dropLast) :
    (s.unread[k-1]? = some 10 ∧ s.unread.takeWhile (· ≠ 10) = s.unread.take (k-1)) ∨
      s.unread[k-1]? ≠ some 10 ∧
        ∃ rest, s.unread.takeWhile (· ≠ 10) = s.unread.take k ++ rest := by
  obtain ⟨m,rfl⟩ : ∃ m, k = m+1 := ⟨k-1,by omega⟩
  rw [List.dropLast_eq_take,List.length_take_of_le hk,Nat.add_sub_cancel,List.take_take,
    Nat.min_eq_left (Nat.le_succ m)] at hwithin
  have hbefore : ∀ x ∈ s.unread.take m, decide (x ≠ 10) = true := by
    intro x hx
    rw [decide_eq_true_eq]
    rintro rfl
    exact hwithin hx
  have hsplit : s.unread.take (m+1) = s.unread.take m ++ [s.unread[m]] := by
    rw [List.take_add_one,List.getElem?_eq_getElem hk]
    rfl
  have hunread := List.take_append_drop (m+1) s.unread
  rw [Nat.add_sub_cancel,List.getElem?_eq_getElem hk,ne_eq,Option.some.injEq]
  by_cases hnl : s.unread[m] = 10
  · refine .inl ⟨hnl,?_⟩
    nth_rewrite 1 [←hunread]
    rw [hsplit,hnl,List.append_assoc,List.takeWhile_append_of_pos hbefore]
    exact List.append_nil _
  · refine .inr ⟨hnl,(s.unread.drop (m+1)).takeWhile (· ≠ 10),?_⟩
    nth_rewrite 1 [←hunread]
    refine List.takeWhile_append_of_pos fun x hx => ?_
    rw [hsplit,List.mem_append,List.mem_singleton] at hx
    obtain hx | rfl := hx
    · exact hbefore x hx
    · exact decide_eq_true hnl

/-- The records that the end of the loop body makes of a line which does not overflow. -/
theorem reported_tells (h0 : 0 ∉ s.unread) (hpos : 0<k) (hk : k ≤ s.unread.length)
    (hwithin : 10 ∉ (s.unread.take k).dropLast) {b : ByteBuf} (hb : b.mem = (s.filled k).mem) :
    (∃ r ∈ StdinTask.reported b k, Tells bufSize timestamp (s.unread.takeWhile (· ≠ 10)) r) ↔
      0<(s.unread.takeWhile (· ≠ 10)).length ∧ (s.unread.takeWhile (· ≠ 10)).length ≤ k ∧
        (s.unread.takeWhile (· ≠ 10)).length ≤ 239 := by
  have hline : 0 ∉ s.unread.takeWhile (· ≠ 10) := fun hm => h0 ((List.takeWhile_sublist _).mem hm)
  have hbytes : 0 ∉ s.unread.take k := fun hm => h0 (List.mem_of_mem_take hm)
  have hlast := StdinTask.filled_mem hpos hk
  rw [StdinTask.reported,hb]
  obtain ⟨hnl,hl⟩ | ⟨hnl,rest,hl⟩ := read_within hk hpos hwithin
  · rw [hlast,Option.some.injEq] at hnl
    rw [if_pos hnl]
    have hlen : (s.unread.takeWhile (· ≠ 10)).length = k-1 := by
      rw [hl,List.length_take_of_le (by omega)]
    split_ifs with hempty
    · have hzero : ¬0<(s.unread.takeWhile (· ≠ 10)).length := by omega
      simp only [List.not_mem_nil,false_and,exists_false,hzero]
    · have htext : b.text (k-1) = (s.unread.takeWhile (· ≠ 10)).take (k-1) := by
        rw [ByteBuf.text_congr hb,StdinTask.filled_text hbytes (Nat.sub_le k 1) hk,hl,
          List.take_take,List.take_take,Nat.min_eq_left (Nat.sub_le k 1),Nat.min_self]
      simp only [List.mem_singleton,exists_eq_left,htext,received_tells hline]
      omega
  · rw [hlast,ne_eq,Option.some.injEq] at hnl
    rw [if_neg hnl]
    have hlen : k ≤ (s.unread.takeWhile (· ≠ 10)).length := by
      rw [hl,List.length_append,List.length_take_of_le hk]
      omega
    have htext : b.text k = (s.unread.takeWhile (· ≠ 10)).take k := by
      rw [ByteBuf.text_congr hb,StdinTask.filled_text hbytes (Nat.le_refl k) hk,hl,List.take_take,
        Nat.min_self,List.take_left' (List.length_take_of_le hk)]
    simp only [List.mem_singleton,exists_eq_left,htext,received_tells hline]
    omega

theorem reported_head (b : ByteBuf) (n : ℕ) :
    (StdinTask.reported b n).head? ≠ some .overflow := by
  unfold StdinTask.reported
  split_ifs <;> simp

/-- The line that the unread input begins with. -/
theorem lineAt_unread : lineAt (s.taken ++ s.unread) s.taken.length =
    s.unread.takeWhile (· ≠ 10) := by
  rw [lineAt,List.drop_left]

/-- The step that takes in a piece of the input. -/
theorem TellInv.takeIn (h : TellInv s) (hs : s.stage = .read) (h0 : 0 ∉ s.unread) (hpos : 0<k)
    (hk : k ≤ s.unread.length) :
    TellInv (s.takeIn k) ∧ (NoneTruncated timestamp (s.takeIn k) ↔
      NoneTruncated timestamp s ∧ FitsRecord s (.read (.bytes k))) := by
  have hlen : (s.unread.take k).length = k := List.length_take_of_le hk
  have hmore : 0<(s.unread.take k).length := by rwa [hlen]
  have hdeliver : s.taken ++ s.unread.take k ++ s.unread.drop k = s.taken ++ s.unread := by
    rw [List.append_assoc,List.take_append_drop]
  obtain ⟨b,extra,hb,-,-,⟨ho,ht⟩ | ⟨ho,ht⟩⟩ := StdinTask.takeIn_cases hpos hk
  · have hnew : (s.takeIn k).records = s.records ++
        [StdinRecord.overflow].map ((s.taken.length,s.taken.length+(s.unread.take k).length),·) := by
      rw [ht,hlen]
      rfl
    have htaken : (s.takeIn k).taken = s.taken ++ s.unread.take k := by
      rw [ht]
      rfl
    obtain ⟨hrecords,hiff⟩ := h.grow hmore (t := s.takeIn k) (by rw [ht]; rfl) htaken
      (by rw [ht]; exact hdeliver) hnew
    refine ⟨⟨hrecords,fun n q hstage => ?_⟩,?_⟩
    · have hpiece : (s.takeIn k).piece = (s.taken.length,s.taken.length+k) := by
        rw [ht]
        rfl
      rw [ht] at hstage
      cases hstage
      rw [hpiece,htaken,List.length_append,hlen]
      refine ⟨hpos,Nat.lt_add_of_pos_right hpos,Nat.le_refl _,fun p hp hlt => ?_,fun hl => ?_⟩
      · exact h.recordAt_new hnew rfl hp (by rwa [hlen])
      · rw [lineStart_behind hpos,List.getElem?_take_of_lt (Nat.sub_lt hpos Nat.one_pos)] at hl
        exact ho.2 hl
    · have hfits : FitsRecord s (.read (.bytes k)) := Or.inl ⟨hs,ho⟩
      rw [hiff,and_iff_left hfits]
      exact and_iff_left (Or.inl rfl)
  · obtain ⟨hrecords,hiff⟩ := h.grow hmore (t := s.takeIn k)
      (by rw [ht,StdinTask.finish_bufSize]; rfl)
      (by rw [ht,StdinTask.finish_taken]; rfl)
      (by rw [ht,StdinTask.finish_taken,StdinTask.finish_unread]; exact hdeliver)
      (by rw [ht,(StdinTask.finish_reports hpos).2,hlen]; rfl)
    refine ⟨⟨hrecords,fun n q hstage => ?_⟩,?_⟩
    · rw [ht,StdinTask.finish_stage] at hstage
      cases hstage
    · have hinput : (s.takeIn k).taken ++ (s.takeIn k).unread = s.taken ++ s.unread := by
        rw [ht,StdinTask.finish_taken,StdinTask.finish_unread]
        exact hdeliver
      rw [hiff,show (s.taking k b).line = b from rfl,or_iff_right (reported_head b k),FitsRecord,
        or_iff_right fun hor => ho hor.2,hinput,lineAt_unread]
      refine and_congr_right fun _ => and_congr_right fun hwithin => ?_
      rw [reported_tells h0 hpos hk hwithin hb]
      exact ⟨fun hl _ _ => hl,fun hl => hl hs hpos⟩

/-- The end of the loop body behind the flush loop: one more record behind a warning. -/
theorem TellInv.finish (records : ∀ x ∈ s.records, x.1.1<x.1.2 ∧ x.1.2 ≤ s.taken.length)
    (hn : 0<n) (hspan : s.piece.1<s.piece.2) (hle : s.piece.2 ≤ s.taken.length)
    (hwarned : ∀ p, s.piece.1 ≤ p → p<s.piece.2 → recordAt s p = some .overflow) :
    TellInv (s.finish n) ∧
      (NoneTruncated timestamp (s.finish n) ↔ NoneTruncated timestamp s) := by
  have hrecords := (StdinTask.finish_reports hn (s := s)).2
  refine ⟨⟨fun x hx => ?_,fun n' q' hstage => ?_⟩,?_⟩
  · rw [hrecords,List.mem_append] at hx
    rw [StdinTask.finish_taken]
    obtain hx | hx := hx
    · exact records x hx
    · obtain ⟨r,-,rfl⟩ := List.mem_map.mp hx
      exact ⟨hspan,hle⟩
  · rw [StdinTask.finish_stage] at hstage
    cases hstage
  · unfold NoneTruncated
    rw [StdinTask.finish_taken]
    refine forall₃_congr fun p _ _ =>
      told_append StdinTask.finish_bufSize ?_ hrecords hspan (hwarned p)
    rw [StdinTask.finish_taken,StdinTask.finish_unread]

/-- A block of the flush loop. -/
theorem TellInv.discard (h : TellInv s) (hs : s.stage = .flush n q) (hpos : 0<k)
    (hk : k ≤ s.unread.length) :
    TellInv (s.discard n q k) ∧ (NoneTruncated timestamp (s.discard n q k) ↔
      NoneTruncated timestamp s ∧ FitsRecord s (.read (.bytes k))) := by
  obtain ⟨hn,hspan,hle,hwarned,hinside⟩ := h.flush n q hs
  have hlen : (s.unread.take k).length = k := List.length_take_of_le hk
  have hmore : 0<(s.unread.take k).length := by rwa [hlen]
  let d := {s.deliver k with
    discards := s.discards ++ (List.range (s.unread.take k).length).map
      fun i => (s.taken.length+i,q)}
  have hdtaken : d.taken = s.taken ++ s.unread.take k := rfl
  have hdlen : d.taken.length = s.taken.length+k := by
    rw [hdtaken,List.length_append,hlen]
  have hpiece : s.piece.2 ≤ d.taken.length := hle.trans (by omega)
  obtain ⟨hrecords,hiff⟩ : _ ∧ (NoneTruncated timestamp d ↔ _) := h.grow hmore rfl hdtaken
    (by
      change s.taken ++ s.unread.take k ++ s.unread.drop k = _
      rw [List.append_assoc,List.take_append_drop])
    (show d.records = s.records ++ [].map _ from (List.append_nil s.records).symm)
  have hd : NoneTruncated timestamp d ↔
      NoneTruncated timestamp s ∧ FitsRecord s (.read (.bytes k)) := by
    rw [hiff,FitsRecord,hs]
    simp [hinside]
  by_cases hnl : 10 ∈ s.unread.take k
  · rw [show s.discard n q k = d.finish n from if_pos hnl,←hd]
    exact TellInv.finish hrecords hn hspan hpiece hwarned
  · rw [show s.discard n q k = d from if_neg hnl]
    refine ⟨⟨hrecords,fun n' q' hstage => ?_⟩,hd⟩
    have he : n = n' := by
      have := hs.symm.trans hstage
      cases this
      rfl
    refine ⟨he ▸ hn,hspan,hpiece,hwarned,fun hl => hnl ?_⟩
    rw [hdlen,hdtaken,lineStart_behind hpos] at hl
    exact List.mem_of_getElem? hl

/-- One step, and when it leaves every line told. -/
theorem TellInv.next (timestamp : ℕ) (h : TellInv s) (h0 : 0 ∉ s.unread) (hn : s.next a = some t) :
    TellInv t ∧ (NoneTruncated timestamp t ↔ NoneTruncated timestamp s ∧ FitsRecord s a) := by
  obtain ⟨hq,-,hread⟩ | ⟨k,rfl,hs,hpos,-,hlen,rfl⟩ | ⟨n,q,hs,ha,rfl⟩ |
    ⟨n,q,k,hs,rfl,hpos,-,hlen,rfl⟩ := StdinTask.next_cases hn
  · have hfits : FitsRecord s a := by
      unfold FitsRecord
      split
      · rw [hread _ rfl]
        exact .inr ⟨List.not_mem_nil,fun _ hpos => absurd hpos (Nat.lt_irrefl 0)⟩
      · trivial
    have hat (p : ℕ) : recordAt t p = recordAt s p := by rw [recordAt,recordAt,hq.records]
    refine ⟨⟨?_,fun n q hstage => ?_⟩,?_⟩
    · rw [hq.records,hq.taken]
      exact h.records
    · rw [hq.piece,hq.taken]
      simp only [hat]
      obtain hst | ⟨-,hst⟩ := hq.stage
      · exact h.flush n q (hst ▸ hstage)
      · rw [hstage] at hst
        cases hst
    · rw [and_iff_left hfits]
      simp only [NoneTruncated,Told,hat,hq.records,hq.taken,hq.unread,hq.bufSize]
  · exact TellInv.takeIn (s := {s with requests := s.requests ++ [s.room]})
      ⟨h.records,h.flush⟩ hs h0 hpos hlen
  · have hfits : FitsRecord s a := by
      obtain ⟨err,rfl⟩ | rfl := ha
      · trivial
      · exact .inr ⟨List.not_mem_nil,fun _ hpos => absurd hpos (Nat.lt_irrefl 0)⟩
    obtain ⟨hn,hspan,hle,hwarned,-⟩ := h.flush n q hs
    rw [and_iff_left hfits]
    exact TellInv.finish h.records hn hspan hle hwarned
  · exact h.discard hs hpos hlen

end Steps

/-- For every buffer size, every stream without NUL and every mix of results of the system calls:
each line taken in is in the log in full or behind a warning, if and only if no `read` brings bytes
behind the end of a line and each `read` with which a line begins brings all of a line of 1 to 239
bytes, but for those that overflow the buffer. -/
theorem noneTruncated_iff (run : Exec (StdinTask.machine bufSize) tr s)
    (h0 : 0 ∉ s.taken ++ s.unread) : NoneTruncated timestamp s ↔ Meets FitsRecord tr := by
  have h : TellInv s ∧ (NoneTruncated timestamp s ↔ Meets FitsRecord tr) := by
    induction run with
    | init h =>
      obtain ⟨mem,stream,rfl⟩ := StdinTask.machine_init h
      refine ⟨⟨fun x hx => ?_,fun n q hs => ?_⟩,iff_of_true (fun p hp => ?_) meets_nil⟩
      · cases hx
      · cases hs
      · cases hp
    | step run hn ih =>
      rw [StdinTask.next_input hn] at h0
      obtain ⟨hinv,hiff⟩ := ih h0
      obtain ⟨hinvt,hifft⟩ := hinv.next timestamp (fun hm => h0 (List.mem_append_right _ hm)) hn
      exact ⟨hinvt,by rw [hifft,hiff,meets_snoc]⟩
  exact h.2

/-- A short line and one that overflows a buffer of five bytes. -/
def shortAndLong : List UInt8 := cBytes "hi\nshutdown\n"

/-- The newline of the first line comes in a `read` of its own. -/
theorem noneTruncated_iff_shortAndLong : ∃ tr s, Exec (StdinTask.machine 5) tr s ∧
    s.unread = [] ∧ NoneTruncated 0 s := by
  have hv : ((StdinTask.machine 5).run (.start 5 (fun _ => 0) shortAndLong)
      [.test,.poll .ready [],.read (.bytes 2),.test,.poll .ready [],.read (.bytes 1),
        .test,.poll .ready [],.read (.bytes 4),.read (.bytes 5)]).map
      (fun s => (s.taken,s.unread)) = some (shortAndLong,[]) := by decide
  obtain ⟨s,hs,hr⟩ := Option.map_eq_some_iff.mp hv
  rw [Prod.mk.injEq] at hr
  have run := Exec.of_run (StdinTask.start_init 5 _ _) hs
  exact ⟨_,s,run,hr.2,(noneTruncated_iff run (by rw [hr.1,hr.2]; decide)).mpr (by decide)⟩

/-- A line of 240 bytes in the buffer of 256 that `main` asks for: no warning, and the record lacks
its last byte. -/
theorem last_byte_truncated : ∃ tr s, Exec (StdinTask.machine 256) tr s ∧
    s.taken = List.replicate 240 120 ++ [10] ∧ s.unread = [] ∧
    s.log = [.ready,.received (List.replicate 240 120)] ∧
    (((StdinRecord.received (List.replicate 240 120)).call 256).record 0).message =
      cBytes "input received: " ++ List.replicate 239 120 ∧ ¬NoneTruncated 0 s := by
  have hv : ((StdinTask.machine 256).run (.start 256 (fun _ => 0) (List.replicate 240 120 ++ [10]))
      [.test,.poll .ready [],.read (.bytes 241)]).map
      (fun s => ((s.taken,s.unread),s.log,s.records)) =
      some ((List.replicate 240 120 ++ [10],[]),[.ready,.received (List.replicate 240 120)],
        [((0,241),.received (List.replicate 240 120))]) := by decide +kernel
  obtain ⟨s,hs,hr⟩ := Option.map_eq_some_iff.mp hv
  simp only [Prod.mk.injEq] at hr
  obtain ⟨⟨htaken,hunread⟩,hlog,hrecords⟩ := hr
  refine ⟨_,s,Exec.of_run (StdinTask.start_init 256 _ _) hs,htaken,hunread,hlog,by decide +kernel,
    fun h => ?_⟩
  obtain ⟨q,r,hr,htells⟩ | hat := h 0 (by
    rw [htaken,List.length_append]
    exact Nat.add_pos_right _ Nat.one_pos) (.inl rfl)
  · rw [hrecords,List.mem_singleton] at hr
    cases hr
    have hline : lineAt (s.taken ++ s.unread) 0 = List.replicate 240 120 := by
      rw [htaken,hunread]
      decide +kernel
    rw [hline] at htells
    have hfits := (received_tells (k := 240) (by decide +kernel)).mp htells
    exact absurd hfits.2 (by decide +kernel)
  · rw [recordAt,hrecords] at hat
    revert hat
    decide +kernel

end TTK4145.Rtsystem
