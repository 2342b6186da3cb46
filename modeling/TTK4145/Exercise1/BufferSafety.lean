import TTK4145.Exercise1.BoundedBuffer

/-! The two semaphores count the free slots and the values of the ring, apart from the calls in
flight. So no assertion fails, and the ring is a queue. -/
namespace TTK4145.Exercise1
open Lib
variable {ι : Type*} {s s' : BoundedBuffer ι} {t : ι} {th : BufThread} {c : BufCall}
  {size : ℕ} {mem : List Int32} {rb rb' : RingBuffer}

/-- What the ring is without the statements of the section under way. -/
def Changing (s : BoundedBuffer ι) (rb : RingBuffer) : Prop :=
  match s.mtx with
  | none => s.buf = rb
  | some t => (s.thread t).During rb s.buf

/-- `rb` is the ring as the finished operations left it. -/
structure BufInv (size : ℕ) (s : BoundedBuffer ι) (rb : RingBuffer) : Prop where
  safe : s.aborted = false
  mutex : ∀ t, (s.thread t).critical = true ↔ s.mtx = some t
  ready : rb.Ready
  size_eq : rb.capacity = size
  ring : Changing s rb
  history : s.pushed = s.popped.map Prod.snd ++ rb.contents
  slots : ∃ n, Tally BufThread.holdsSlot s.thread n ∧ s.capacity+n+rb.length = size
  items : ∃ n, Tally BufThread.holdsItem s.thread n ∧ s.numElements+n = rb.length

theorem BufInv.owner (h : BufInv size s rb) (ht : (s.thread t).critical = true) :
    s.mtx = some t ∧ (s.thread t).During rb s.buf := by
  have ho := (h.mutex t).mp ht
  have hr := h.ring
  unfold Changing at hr
  rw [ho] at hr
  exact ⟨ho,hr⟩

theorem BufInv.length_lt (h : BufInv size s rb) (ht : (s.thread t).holdsSlot = true) :
    rb.length<rb.capacity := by
  obtain ⟨n,hn,hs⟩ := h.slots
  have := hn.pos ht
  have := h.size_eq
  omega

theorem BufInv.length_pos (h : BufInv size s rb) (ht : (s.thread t).holdsItem = true) :
    0<rb.length := by
  obtain ⟨n,hn,hi⟩ := h.items
  have := hn.pos ht
  omega

/-- The assertion of the owner holds: it was let in by a semaphore. -/
theorem BufInv.check_holds (h : BufInv size s rb) (hpc : (s.thread t).pc = .inside c .check) :
    c.check s.buf = true := by
  obtain ⟨-,hduring⟩ := h.owner (t := t) (by simp [BufThread.critical,hpc])
  cases c with
  | push val =>
    have hbuf : s.buf = rb := hduring.of_pc hpc
    have := h.length_lt (BufThread.holds_push hpc rfl).1
    simpa [BufCall.check,hbuf] using this
  | pop =>
    have hbuf : s.buf = rb := hduring.of_pc hpc
    have := h.length_pos (BufThread.holds_pop hpc rfl).2
    simpa [BufCall.check,hbuf] using this

/-- In the middle of an operation too, the indices of the ring are inside its buffer. -/
theorem BufThread.During.inside {buf : RingBuffer} (h : th.During rb buf) (hready : rb.Ready) :
    buf.Inside ∧ buf.capacity = rb.capacity := by
  have hsettled : buf = rb → buf.Inside ∧ buf.capacity = rb.capacity := by
    rintro rfl
    exact ⟨hready.inside,rfl⟩
  obtain ⟨pc,val,results⟩ := th
  cases pc with
  | idle => exact hsettled h
  | inside c stmt =>
    cases c with
    | push val =>
      cases stmt with
      | index =>
        have hbuf : buf = rb.store val := h
        rw [hbuf]
        exact ⟨hready.inside.store _,rfl⟩
      | length =>
        have hbuf : buf = (rb.store val).advanceInsert := h
        rw [hbuf]
        exact ⟨(hready.inside.store _).advanceInsert,rfl⟩
      | wait | lock | check | access | unlock | post => exact hsettled h
    | pop =>
      cases stmt with
      | index => exact hsettled h.1
      | length =>
        have hbuf : buf = rb.advanceRemove := h.1
        rw [hbuf]
        exact ⟨hready.inside.advanceRemove,rfl⟩
      | wait | lock | check | access | unlock | post => exact hsettled h

theorem BufInv.inside_buffer (h : BufInv size s rb) : s.buf.Inside ∧ s.buf.capacity = size := by
  have hr := h.ring
  rw [←h.size_eq]
  unfold Changing at hr
  split at hr
  · rw [hr]
    exact ⟨h.ready.inside,rfl⟩
  · exact hr.inside h.ready

variable [DecidableEq ι]

/-- The lock is taken while it is free, or released by its owner. -/
theorem BufInv.mutex_pass (h : BufInv size s rb) (hother : ∀ u, u ≠ t → s.mtx ≠ some u) (u : ι) :
    (Function.update s.thread t th u).critical = true ↔
      (if th.critical then some t else none) = some u := by
  by_cases hu : u = t
  · subst hu
    rw [Function.update_self]
    split_ifs with hc
    · exact iff_of_true hc rfl
    · exact iff_of_false hc nofun
  · rw [Function.update_of_ne hu,h.mutex u]
    refine iff_of_false (hother u hu) fun he => ?_
    split_ifs at he
    exact hu (Option.some.inj he).symm

/-- A step of one thread: what it gives up it passes on to a semaphore or to the ring. -/
theorem BufInv.move (h : BufInv size s rb) (hthread : s'.thread = Function.update s.thread t th)
    (hsafe : s'.aborted = false)
    (hmutex : ∀ u, (Function.update s.thread t th u).critical = true ↔ s'.mtx = some u)
    (hready : rb'.Ready) (hcap : rb'.capacity = size) (hring : Changing s' rb')
    (hhistory : s'.pushed = s'.popped.map Prod.snd ++ rb'.contents)
    (hslot : s'.capacity+th.holdsSlot.toNat+rb'.length =
      s.capacity+(s.thread t).holdsSlot.toNat+rb.length)
    (hitem : s'.numElements+th.holdsItem.toNat+rb.length =
      s.numElements+(s.thread t).holdsItem.toNat+rb'.length) : BufInv size s' rb' := by
  refine ⟨hsafe,?_,hready,hcap,hring,hhistory,?_,?_⟩
  · rwa [hthread]
  · obtain ⟨n,hn,hs⟩ := h.slots
    have hle : (s.thread t).holdsSlot.toNat ≤ n := by
      cases hb : (s.thread t).holdsSlot with
      | false => exact Nat.zero_le _
      | true => exact hn.pos hb
    refine ⟨n+th.holdsSlot.toNat-(s.thread t).holdsSlot.toNat,?_,by omega⟩
    rw [hthread]
    exact hn.update (by omega)
  · obtain ⟨n,hn,hi⟩ := h.items
    have hle : (s.thread t).holdsItem.toNat ≤ n := by
      cases hb : (s.thread t).holdsItem with
      | false => exact Nat.zero_le _
      | true => exact hn.pos hb
    refine ⟨n+th.holdsItem.toNat-(s.thread t).holdsItem.toNat,?_,by omega⟩
    rw [hthread]
    exact hn.update (by omega)

/-- The lock is as before, and so is the thread's place inside or outside of it. -/
theorem BufInv.mutex_keep (h : BufInv size s rb) (hth : th.critical = (s.thread t).critical)
    (u : ι) : (Function.update s.thread t th u).critical = true ↔ s.mtx = some u := by
  by_cases hu : u = t
  · subst hu
    rw [Function.update_self,hth]
    exact h.mutex u
  · rw [Function.update_of_ne hu]
    exact h.mutex u

/-- A thread outside of the lock does not touch the ring. -/
theorem Changing.outside (h : Changing s rb) (ht : s.mtx ≠ some t) (hbuf : s'.buf = s.buf)
    (hmtx : s'.mtx = s.mtx) (hthread : s'.thread = Function.update s.thread t th) :
    Changing s' rb := by
  unfold Changing at h ⊢
  rw [hmtx,hbuf,hthread]
  cases ho : s.mtx with
  | none =>
    rw [ho] at h
    exact h
  | some u =>
    rw [ho] at h ht
    have hu : u ≠ t := by
      rintro rfl
      exact ht rfl
    simp only [Function.update_of_ne hu]
    exact h

/-- A step outside of the lock, to a place that is outside too. -/
theorem BufInv.outside (h : BufInv size s rb) (numElements capacity : ℕ)
    (hold : (s.thread t).critical = false) (hnew : th.critical = false)
    (hslot : capacity+th.holdsSlot.toNat = s.capacity+(s.thread t).holdsSlot.toNat)
    (hitem : numElements+th.holdsItem.toNat = s.numElements+(s.thread t).holdsItem.toNat) :
    BufInv size {s.set t th with numElements := numElements, capacity := capacity} rb := by
  have hne : s.mtx ≠ some t := by
    intro ho
    rw [(h.mutex t).mpr ho] at hold
    cases hold
  refine h.move rfl h.safe (h.mutex_keep (by rw [hold,hnew])) h.ready h.size_eq
    (h.ring.outside hne rfl rfl rfl) h.history ?_ ?_
  · change capacity+th.holdsSlot.toNat+rb.length = _
    omega
  · change numElements+th.holdsItem.toNat+rb.length = _
    omega

/-- A step of the owner within its section that does not finish its operation. -/
theorem BufInv.inside (h : BufInv size s rb) (hold : (s.thread t).critical = true)
    (hnew : th.critical = true) {stmt stmt' : BufStmt} (hpc : (s.thread t).pc = .inside c stmt)
    (hw : stmt.working = true) (hpc' : th.pc = .inside c stmt') (hw' : stmt'.working = true)
    {buf : RingBuffer} (hduring : th.During rb buf) :
    BufInv size {s.set t th with buf := buf} rb := by
  have ho := (h.owner hold).1
  obtain ⟨hslot,hitem⟩ := BufThread.holds_working hpc hw hpc' hw'
  refine h.move rfl h.safe (h.mutex_keep (by rw [hold,hnew])) h.ready h.size_eq ?_ h.history ?_ ?_
  · unfold Changing
    simp only [BoundedBuffer.set,ho,Function.update_self]
    exact hduring
  · rw [hslot]
    rfl
  · rw [hitem]
    rfl

theorem BufInv.wait (h : BufInv size s rb) (hpc : (s.thread t).pc = .inside c .wait)
    (hn : s.stepWait t c = some s') : BufInv size s' rb := by
  have hold : (s.thread t).critical = false := by simp [BufThread.critical,hpc]
  cases c with
  | push val =>
    simp only [BoundedBuffer.stepWait] at hn
    split_ifs at hn with hc
    cases hn
    refine h.outside s.numElements (s.capacity-1) hold rfl ?_ ?_
    · simp [BufThread.holdsSlot,BufThread.inFlight,BufThread.posting,hpc]
      omega
    · simp [BufThread.holdsItem,BufThread.posting,hpc]
  | pop =>
    simp only [BoundedBuffer.stepWait] at hn
    split_ifs at hn with hc
    cases hn
    refine h.outside (s.numElements-1) s.capacity hold rfl ?_ ?_
    · simp [BufThread.holdsSlot,BufThread.posting,hpc]
    · simp [BufThread.holdsItem,BufThread.inFlight,BufThread.posting,hpc]
      omega

theorem BufInv.post (h : BufInv size s rb) (hpc : (s.thread t).pc = .inside c .post) :
    BufInv size (s.stepPost t c) rb := by
  have hold : (s.thread t).critical = false := by simp [BufThread.critical,hpc]
  cases c with
  | push val =>
    refine h.outside (s.numElements+1) s.capacity hold rfl ?_ ?_
    · simp [BufThread.holdsSlot,BufThread.inFlight,BufThread.posting,hpc]
    · simp [BufThread.holdsItem,BufThread.posting,hpc]
  | pop =>
    refine h.outside s.numElements (s.capacity+1) hold rfl ?_ ?_
    · simp [BufThread.holdsSlot,BufThread.posting,hpc]
    · simp [BufThread.holdsItem,BufThread.inFlight,BufThread.posting,hpc]

theorem BufInv.lock (h : BufInv size s rb) (hpc : (s.thread t).pc = .inside c .lock)
    (hm : s.mtx = none) : BufInv size {s.setPc t (.inside c .check) with mtx := some t} rb := by
  have hring := h.ring
  unfold Changing at hring
  rw [hm] at hring
  let th : BufThread := {s.thread t with pc := .inside c .check}
  obtain ⟨hslot,hitem⟩ : th.holdsSlot = (s.thread t).holdsSlot ∧
      th.holdsItem = (s.thread t).holdsItem := BufThread.holds_working hpc rfl rfl rfl
  have hother : ∀ u, u ≠ t → s.mtx ≠ some u := by
    intro u _ ho
    rw [hm] at ho
    cases ho
  refine h.move rfl h.safe (h.mutex_pass hother) h.ready h.size_eq ?_ h.history ?_ ?_
  · unfold Changing
    simp only [BoundedBuffer.setPc,BoundedBuffer.set,Function.update_self]
    cases c <;> exact hring
  · rw [hslot]
    rfl
  · rw [hitem]
    rfl

theorem BufInv.unlock (h : BufInv size s rb) (hpc : (s.thread t).pc = .inside c .unlock) :
    BufInv size {s.setPc t (.inside c .post) with mtx := none} rb := by
  obtain ⟨ho,hduring⟩ := h.owner (t := t) (by simp [BufThread.critical,hpc])
  have hother : ∀ u, u ≠ t → s.mtx ≠ some u := by
    intro u hu hmtx
    exact hu (Option.some.inj (hmtx.symm.trans ho))
  refine h.move rfl h.safe (h.mutex_pass hother) h.ready h.size_eq ?_ h.history ?_ ?_
  · have hduring := hduring.of_pc hpc
    cases c <;> exact hduring
  · simp only [BoundedBuffer.setPc,BoundedBuffer.set]
    cases c <;> simp [BufThread.holdsSlot,BufThread.inFlight,BufThread.posting,hpc]
  · simp only [BoundedBuffer.setPc,BoundedBuffer.set]
    cases c <;> simp [BufThread.holdsItem,BufThread.inFlight,BufThread.posting,hpc]

theorem BufInv.check (h : BufInv size s rb) (hpc : (s.thread t).pc = .inside c .check) :
    BufInv size (s.setPc t (.inside c .access)) rb := by
  have hold : (s.thread t).critical = true := by simp [BufThread.critical,hpc]
  have hduring := (h.owner hold).2.of_pc hpc
  refine h.inside hold rfl hpc rfl rfl rfl ?_
  cases c <;> exact hduring

theorem BufInv.access (h : BufInv size s rb) (hpc : (s.thread t).pc = .inside c .access) :
    BufInv size {s.set t {s.thread t with
      pc := .inside c .index, val := c.value s.buf (s.thread t).val} with
      buf := c.access s.buf} rb := by
  have hold : (s.thread t).critical = true := by simp [BufThread.critical,hpc]
  have hduring := (h.owner hold).2.of_pc hpc
  refine h.inside hold rfl hpc rfl rfl rfl ?_
  cases c with
  | push val => exact congrArg (RingBuffer.store · val) hduring
  | pop => exact ⟨hduring,congrArg RingBuffer.fetch hduring⟩

theorem BufInv.index (h : BufInv size s rb) (hpc : (s.thread t).pc = .inside c .index) :
    BufInv size {s.setPc t (.inside c .length) with buf := c.index s.buf} rb := by
  have hold : (s.thread t).critical = true := by simp [BufThread.critical,hpc]
  have hduring := (h.owner hold).2.of_pc hpc
  refine h.inside hold rfl hpc rfl rfl rfl ?_
  cases c with
  | push val => exact congrArg RingBuffer.advanceInsert hduring
  | pop => exact ⟨congrArg RingBuffer.advanceRemove hduring.1,hduring.2⟩

/-- The last statement of the ring operation moves its value into or out of the queue. -/
theorem BufInv.length (h : BufInv size s rb) (hpc : (s.thread t).pc = .inside c .length) :
    ∃ rb', BufInv size (s.stepLength t c) rb' := by
  have hold : (s.thread t).critical = true := by simp [BufThread.critical,hpc]
  obtain ⟨ho,hduring⟩ := h.owner hold
  cases c with
  | push val =>
    have hbuf : s.buf = (rb.store val).advanceInsert := hduring.of_pc hpc
    obtain ⟨hslot,hitem⟩ := BufThread.holds_push hpc rfl
    have hc := h.length_lt hslot
    refine ⟨_,h.move rfl h.safe (h.mutex_keep (by rw [hold]; rfl)) (h.ready.push hc val) h.size_eq
      ?_ ?_ ?_ ?_⟩
    · simp only [Changing,BoundedBuffer.stepLength,BoundedBuffer.setPc,BoundedBuffer.set,ho,
        Function.update_self]
      exact congrArg RingBuffer.lengthUp hbuf
    · simp only [BoundedBuffer.stepLength,BoundedBuffer.setPc,BoundedBuffer.set,
        RingBuffer.contents_push h.ready hc]
      rw [h.history,List.append_assoc]
    · rw [hslot]
      change s.capacity+0+(rb.length+1) = s.capacity+1+rb.length
      omega
    · rw [hitem]
      change s.numElements+1+rb.length = s.numElements+0+(rb.length+1)
      omega
  | pop =>
    obtain ⟨hbuf,hval⟩ : s.buf = rb.advanceRemove ∧ (s.thread t).val = rb.fetch :=
      hduring.of_pc hpc
    obtain ⟨hslot,hitem⟩ := BufThread.holds_pop hpc rfl
    have hc := h.length_pos hitem
    refine ⟨_,h.move rfl h.safe (h.mutex_keep (by rw [hold]; rfl)) (h.ready.pop hc) h.size_eq
      ?_ ?_ ?_ ?_⟩
    · simp only [Changing,BoundedBuffer.stepLength,BoundedBuffer.setPc,BoundedBuffer.set,ho,
        Function.update_self]
      exact congrArg RingBuffer.lengthDown hbuf
    · simp only [BoundedBuffer.stepLength,BoundedBuffer.setPc,BoundedBuffer.set,List.map_append,
        List.map_cons,List.map_nil]
      rw [h.history,RingBuffer.contents_pop h.ready hc,hval,List.append_assoc]
      rfl
    · rw [hslot]
      change s.capacity+1+(rb.length-1) = s.capacity+0+rb.length
      omega
    · rw [hitem]
      change s.numElements+0+rb.length = s.numElements+1+(rb.length-1)
      omega

theorem BufInv.stepCall {stmt : BufStmt} (h : BufInv size s rb)
    (hpc : (s.thread t).pc = .inside c stmt) (hn : s.stepCall t c stmt = some s') :
    ∃ rb', BufInv size s' rb' := by
  cases stmt with
  | wait => exact ⟨rb,h.wait hpc hn⟩
  | lock =>
    simp only [BoundedBuffer.stepCall] at hn
    split_ifs at hn with hm
    cases hn
    exact ⟨rb,h.lock hpc hm⟩
  | check =>
    simp only [BoundedBuffer.stepCall,h.check_holds hpc,if_true] at hn
    cases hn
    exact ⟨rb,h.check hpc⟩
  | access =>
    cases hn
    exact ⟨rb,h.access hpc⟩
  | index =>
    cases hn
    exact ⟨rb,h.index hpc⟩
  | length =>
    cases hn
    exact h.length hpc
  | unlock =>
    cases hn
    exact ⟨rb,h.unlock hpc⟩
  | post =>
    cases hn
    exact ⟨rb,h.post hpc⟩

/-- A step is the start of a call by an idle thread or a statement of a call. -/
theorem boundedBuffer_next_cases {a : BufAction ι}
    (hn : (boundedBuffer size mem).next s a = some s') :
    (∃ t c, (s.thread t).pc = .idle ∧ s' = s.setPc t (.inside c .wait)) ∨
    ∃ t c stmt, (s.thread t).pc = .inside c stmt ∧ s.stepCall t c stmt = some s' := by
  simp only [boundedBuffer] at hn
  split_ifs at hn
  cases a with
  | call t c =>
    simp only at hn
    split at hn
    · rename_i hpc
      cases hn
      exact .inl ⟨t,c,hpc,rfl⟩
    · cases hn
  | step t =>
    simp only at hn
    split at hn
    · cases hn
    · rename_i c stmt hpc
      exact .inr ⟨t,c,stmt,hpc,hn⟩

theorem BufInv.next {a : BufAction ι} (h : BufInv size s rb)
    (hn : (boundedBuffer size mem).next s a = some s') : ∃ rb', BufInv size s' rb' := by
  obtain ⟨t,c,hpc,rfl⟩ | ⟨t,c,stmt,hpc,hn⟩ := boundedBuffer_next_cases hn
  · refine ⟨rb,h.outside s.numElements s.capacity (t := t) ?_ ?_ ?_ ?_⟩
    · simp [BufThread.critical,hpc]
    · rfl
    · cases c <;> simp [BufThread.holdsSlot,BufThread.inFlight,BufThread.posting,hpc]
    · cases c <;> simp [BufThread.holdsItem,BufThread.inFlight,BufThread.posting,hpc]
  · exact h.stepCall hpc hn

theorem BufInv.init (hsize : 1 ≤ size) (hmem : mem.length = size)
    (h : (boundedBuffer size mem).init s) : BufInv size s (rbNew size mem) := by
  obtain ⟨hbuf,hmtx,hnum,hcap,hidle,hpushed,hpopped,hsafe⟩ := h
  refine ⟨hsafe,fun t => ?_,RingBuffer.ready_new hsize hmem,rfl,?_,?_,⟨0,?_,?_⟩,⟨0,?_,?_⟩⟩
  · simp [BufThread.critical,(hidle t).1,hmtx]
  · unfold Changing
    rw [hmtx]
    exact hbuf
  · rw [hpushed,hpopped]
    rfl
  · exact Tally.zero fun t => by simp [BufThread.holdsSlot,(hidle t).1]
  · rw [hcap]
    rfl
  · exact Tally.zero fun t => by simp [BufThread.holdsItem,(hidle t).1]
  · rw [hnum]
    rfl

/-- Each thread has returned the values that it took, up to the one of its call under way. -/
def Returned (s : BoundedBuffer ι) : Prop :=
  ∀ t, (s.popped.filter (·.1 = t)).map Prod.snd = (s.thread t).results ++ (s.thread t).pending

theorem Returned.keep (h : Returned s) (hpopped : s'.popped = s.popped)
    (hthread : s'.thread = Function.update s.thread t th)
    (hth : th.results ++ th.pending = (s.thread t).results ++ (s.thread t).pending) :
    Returned s' := by
  intro u
  rw [hpopped,hthread]
  by_cases hu : u = t
  · subst hu
    rw [Function.update_self,hth]
    exact h u
  · rw [Function.update_of_ne hu]
    exact h u

theorem Returned.length (h : Returned s) (hpc : (s.thread t).pc = .inside c .length) :
    Returned (s.stepLength t c) := by
  have hp : (s.thread t).pending = [] := by
    cases c <;> simp [BufThread.pending,BufThread.posting,hpc]
  cases c with
  | push val =>
    refine h.keep rfl rfl ?_
    rw [hp]
    rfl
  | pop =>
    intro u
    have hu := h u
    simp only [BoundedBuffer.stepLength,BoundedBuffer.setPc,BoundedBuffer.set,List.filter_append,
      List.map_append]
    by_cases hut : u = t
    · subst hut
      rw [hp,List.append_nil] at hu
      rw [hu,Function.update_self]
      simp [BufThread.pending,BufThread.posting]
    · rw [hu,Function.update_of_ne hut]
      simp [Ne.symm hut]

theorem Returned.stepCall {stmt : BufStmt} (h : Returned s)
    (hpc : (s.thread t).pc = .inside c stmt) (hn : s.stepCall t c stmt = some s') :
    Returned s' := by
  cases stmt with
  | wait =>
    cases c with
    | push val =>
      simp only [BoundedBuffer.stepCall,BoundedBuffer.stepWait] at hn
      split_ifs at hn
      cases hn
      exact h.keep (t := t) rfl rfl (by simp [BufThread.pending,hpc])
    | pop =>
      simp only [BoundedBuffer.stepCall,BoundedBuffer.stepWait] at hn
      split_ifs at hn
      cases hn
      exact h.keep (t := t) rfl rfl (by simp [BufThread.pending,BufThread.posting,hpc])
  | lock =>
    simp only [BoundedBuffer.stepCall] at hn
    split_ifs at hn
    cases hn
    exact h.keep (t := t) rfl rfl (by cases c <;> simp [BufThread.pending,BufThread.posting,hpc])
  | check =>
    cases hn
    split_ifs
    · exact h.keep (t := t) rfl rfl (by cases c <;> simp [BufThread.pending,BufThread.posting,hpc])
    · exact h
  | access =>
    cases hn
    exact h.keep (t := t) rfl rfl (by cases c <;> simp [BufThread.pending,BufThread.posting,hpc])
  | index =>
    cases hn
    exact h.keep (t := t) rfl rfl (by cases c <;> simp [BufThread.pending,BufThread.posting,hpc])
  | length =>
    cases hn
    exact h.length hpc
  | unlock =>
    cases hn
    exact h.keep (t := t) rfl rfl (by cases c <;> simp [BufThread.pending,BufThread.posting,hpc])
  | post =>
    cases hn
    cases c with
    | push val => exact h.keep (t := t) rfl rfl (by simp [BufThread.pending,hpc])
    | pop => exact h.keep (t := t) rfl rfl (by simp [BufThread.pending,BufThread.posting,hpc])

theorem Returned.next {a : BufAction ι} (h : Returned s)
    (hn : (boundedBuffer size mem).next s a = some s') : Returned s' := by
  obtain ⟨t,c,hpc,rfl⟩ | ⟨t,c,stmt,hpc,hn⟩ := boundedBuffer_next_cases hn
  · exact h.keep (t := t) rfl rfl (by cases c <;> simp [BufThread.pending,BufThread.posting,hpc])
  · exact h.stepCall hpc hn

theorem Returned.init (h : (boundedBuffer size mem).init s) : Returned s := by
  obtain ⟨-,-,-,-,hidle,-,hpopped,-⟩ := h
  intro t
  rw [hpopped,(hidle t).2]
  simp [BufThread.pending,(hidle t).1]

/-- Every interleaving of any calls of any number of threads: no assertion fails, the indices stay
inside the buffer, the values popped are a prefix of those pushed, each thread has returned the
values that it took, and the semaphores with the calls in flight add up to the size. -/
theorem boundedBuffer_safe {tr : List (BoundedBuffer ι × BufAction ι)} (hsize : 1 ≤ size)
    (hmem : mem.length = size) (run : Exec (boundedBuffer size mem) tr s) :
    s.aborted = false ∧ s.buf.Inside ∧ s.buf.capacity = size ∧
    s.popped.map Prod.snd <+: s.pushed ∧ Returned s ∧
    ∃ n, Tally BufThread.inFlight s.thread n ∧ s.capacity+s.numElements+n = size := by
  have hinv : (∃ rb, BufInv size s rb) ∧ Returned s := by
    induction run with
    | init h => exact ⟨⟨_,BufInv.init hsize hmem h⟩,Returned.init h⟩
    | step run hn ih =>
      obtain ⟨⟨rb,hrb⟩,hret⟩ := ih
      exact ⟨hrb.next hn,hret.next hn⟩
  obtain ⟨⟨rb,h⟩,hret⟩ := hinv
  obtain ⟨n,hn,hs⟩ := h.slots
  obtain ⟨m,hm,hi⟩ := h.items
  refine ⟨h.safe,h.inside_buffer.1,h.inside_buffer.2,⟨rb.contents,h.history.symm⟩,hret,n+m,
    hn.add hm BufThread.inFlight_eq BufThread.holds_exclusive,by omega⟩

/-- A buffer of one slot whose memory held a zero. -/
def oneSlotBuffer : BoundedBuffer Bool :=
  ⟨rbNew 1 [0],none,0,1,fun _ => ⟨.idle,0,[]⟩,[],[],false⟩

/-- One thread pushes twice and waits for the other one, which pops in between. -/
def handoverActions : List (BufAction Bool) := List.flatten [
  .call false .pop::.call true (.push 7)::List.replicate 8 (.step true),
  List.replicate 8 (.step false),
  .call true (.push 8)::List.replicate 5 (.step true)]

theorem boundedBuffer_safe_handover : ∃ s,
    (boundedBuffer 1 [0]).run oneSlotBuffer handoverActions = some s ∧ s.aborted = false ∧
    s.popped.map Prod.snd <+: s.pushed := by
  have hrun : ∃ s, (boundedBuffer 1 [0]).run oneSlotBuffer handoverActions = some s :=
    Option.isSome_iff_exists.mp (by decide)
  obtain ⟨s,hs⟩ := hrun
  have hinit : (boundedBuffer 1 [0]).init oneSlotBuffer := by
    simp [boundedBuffer,oneSlotBuffer]
  have hspec := boundedBuffer_safe (by decide) rfl (Exec.of_run hinit hs)
  exact ⟨s,hs,hspec.1,hspec.2.2.2.1⟩

end TTK4145.Exercise1
