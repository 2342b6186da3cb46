import TTK4145.Exercise2.UdpTcpSender

/-! The numbers of a command line of `udp_tcp_sender` at the calls which use them, against what
`strtol` reads. -/
namespace TTK4145.Exercise2
open Lib

/-- A call gets the number that was read: the port as text, the shorter of message and size limit
as length, the period in seconds. -/
def SenderCall.Exact (n : SenderNumbers) (messageLength : ℕ) : SenderCall → Prop
  | .getaddrinfo _ port => strtol port = ⟨n.port,false,port.length⟩
  | .send _ length => (length : ℤ) = min (messageLength : ℤ) n.size
  | .sleep seconds => (seconds : ℤ) = n.period
  | _ => True

/-- Every number used so far is the one that was read, and the counter has come down from it by one
for each message. -/
structure UdpTcpSender.UsesExact (n : SenderNumbers) (s : UdpTcpSender) : Prop where
  calls : ∀ c ∈ s.calls, c.Exact n s.config.message.length
  counter : s.repetitions = tick^[s.sentCount] n.repetitions

/-- The message has a length that an `int` holds, or loses no more by the conversion than the size
limit takes, and the period fits `unsigned` unless no `sleep` is reached. -/
def SenderConfig.FitsUse (c : SenderConfig) : Prop :=
  ((c.message.length : ℤ)<2^31 ∨ c.maxMsgSize ≤ cInt c.message.length) ∧
  (c.sleepPeriod<2^32 ∨ c.repetitions = 0 ∨ c.repetitions = 1)

instance (c : SenderConfig) : Decidable c.FitsUse := inferInstanceAs (Decidable (_ ∧ _))

section Widths
variable {opts : List SenderOption} {c : SenderConfig} {n : SenderNumbers}
  {tr : List (UdpTcpSender × SenderAction)} {s t : UdpTcpSender} {a : SenderAction}

/-- A length that an `int` holds is passed on, or cut to the size limit. -/
theorem SenderConfig.Holds.length_of_short (h : c.Holds n)
    (hlt : (c.message.length : ℤ)<2^31) :
    (cSize c.msgSize : ℤ) = min (c.message.length : ℤ) n.size := by
  obtain ⟨hsize,hlo,hhi⟩ := h.size
  have hlen : c.strlenMessage = c.message.length := cInt_of_bounds (by omega) hlt
  have hmsg : c.msgSize = min (c.message.length : ℤ) n.size := by
    rw [SenderConfig.msgSize,hlen,hsize]
    split_ifs with hgt
    · exact (min_eq_right (by omega)).symm
    · exact (min_eq_left (by omega)).symm
  rw [hmsg,cSize_of_nonneg (by omega) (by omega)]

/-- A longer message has to be cut, which is done as long as its length converts to a number that
is not below the limit. -/
theorem SenderConfig.Holds.length_of_long (h : c.Holds n)
    (hge : (2^31 : ℤ) ≤ c.message.length) :
    (cSize c.msgSize : ℤ) = min (c.message.length : ℤ) n.size ↔
      c.maxMsgSize ≤ cInt c.message.length := by
  obtain ⟨hsize,hlo,hhi⟩ := h.size
  have hbounds := cInt_bounds c.message.length
  rw [min_eq_right (by omega),hsize,SenderConfig.msgSize,SenderConfig.strlenMessage,hsize]
  split_ifs with hgt
  · rw [cSize_of_nonneg hlo (by omega)]
    exact iff_of_true rfl (by omega)
  · rcases lt_or_ge (cInt c.message.length) 0 with hneg | hnn
    · have hbig := le_cSize_of_neg hbounds.1 hneg
      exact iff_of_false (by omega) (by omega)
    · rw [cSize_of_nonneg hnn (by omega)]
      omega

/-- The length passed to `send` is the shorter one exactly under the first condition. -/
theorem SenderConfig.Holds.length_iff (h : c.Holds n) :
    (cSize c.msgSize : ℤ) = min (c.message.length : ℤ) n.size ↔
      (c.message.length : ℤ)<2^31 ∨ c.maxMsgSize ≤ cInt c.message.length := by
  rcases lt_or_ge (c.message.length : ℤ) (2^31) with hlt | hge
  · exact iff_of_true (h.length_of_short hlt) (.inl hlt)
  · rw [h.length_of_long hge,or_iff_right (by omega)]

/-- The calls made with the values of `main` are exact, but for the length and the period. -/
theorem SenderConfig.Holds.exact_of_makes {call : SenderCall} (h : c.Holds n) (hfits : c.FitsUse)
    (hcall : c.Makes call) : call.Exact n c.message.length := by
  cases call with
  | getaddrinfo host port =>
    obtain ⟨-,hlo,hhi⟩ := h.port
    change port = c.portStr at hcall
    rw [hcall,h.portStr]
    exact strtol_decimal (by unfold longMin; omega) (by unfold longMax; omega)
  | send protocol length =>
    change length = cSize c.msgSize at hcall
    rw [hcall]
    exact h.length_iff.mpr hfits.1
  | sleep seconds => cases hcall
  | socket protocol | setsockopt | connect | close | freeaddrinfo => trivial

/-- The invariant of a run with values that fit: its state holds the numbers and uses them. -/
structure UdpTcpSender.Runs (n : SenderNumbers) (s : UdpTcpSender) : Prop where
  holds : s.config.Holds n
  fits : s.config.FitsUse
  exact : s.UsesExact n

theorem start_sentCount (c : SenderConfig) : (UdpTcpSender.start c).sentCount = 0 := by
  simp only [UdpTcpSender.start,UdpTcpSender.sentCount]
  split_ifs <;> rfl

theorem start_runs (h : c.Holds n) (hfits : c.FitsUse) :
    UdpTcpSender.Runs n (UdpTcpSender.start c) := by
  refine ⟨h,hfits,fun call hcall => absurd hcall List.not_mem_nil,?_⟩
  rw [start_sentCount]
  exact h.repetitions.1

/-- A `sleep` comes behind a message that is not the last one, so the counter has been above 1 or
below 0. -/
theorem UdpTcpSender.Runs.period (h : UdpTcpSender.Runs n s) (hne : tick s.repetitions ≠ 0) :
    (cUnsigned s.config.sleepPeriod : ℤ) = n.period := by
  obtain ⟨hperiod,hnn⟩ := h.holds.period
  have hleft : ¬(0 ≤ n.repetitions ∧ n.repetitions ≤ (s.sentCount+1 : ℕ)) := by
    rw [← iterate_tick_eq_zero,Function.iterate_succ_apply',← h.exact.counter]
    exact hne
  have hfit := h.fits.2
  rw [h.holds.repetitions.1] at hfit
  rw [hperiod] at hfit ⊢
  rw [cUnsigned_eq_iff hnn]
  push_cast at hleft
  omega

theorem UdpTcpSender.Runs.handle (h : UdpTcpSender.Runs n s) (bytes : ℕ) :
    UdpTcpSender.Runs n (s.handle bytes) := by
  obtain ⟨hconfig,hrepetitions,hcount,-,-,hcalls⟩ := UdpTcpSender.handle_spec s bytes
  refine ⟨hconfig.symm ▸ h.holds,hconfig.symm ▸ h.fits,fun call hcall => ?_,?_⟩
  · rw [hcalls] at hcall
    rw [hconfig]
    rcases List.mem_append.mp hcall with hcall | hcall
    · exact h.exact.calls call hcall
    · split_ifs at hcall with hzero
      · simp only [List.mem_cons,List.not_mem_nil,or_false] at hcall
        rcases hcall with rfl | rfl <;> trivial
      · rw [List.mem_singleton.mp hcall]
        exact h.period hzero
  · rw [hcount,hrepetitions,Function.iterate_succ_apply',← h.exact.counter]

theorem UdpTcpSender.Runs.silent (h : UdpTcpSender.Runs n s) (hst : UdpTcpSender.Silent s t) :
    UdpTcpSender.Runs n t := by
  obtain ⟨new,hcalls,hmakes⟩ := hst.calls
  refine ⟨hst.config.symm ▸ h.holds,hst.config.symm ▸ h.fits,fun call hcall => ?_,?_⟩
  · rw [hcalls] at hcall
    rw [hst.config]
    rcases List.mem_append.mp hcall with hcall | hcall
    · exact h.exact.calls call hcall
    · exact h.holds.exact_of_makes h.fits (hmakes call hcall)
  · rw [hst.repetitions,hst.sentCount]
    exact h.exact.counter

theorem UdpTcpSender.Runs.next (h : UdpTcpSender.Runs n s) (hs : s.next a = some t) :
    UdpTcpSender.Runs n t := by
  rcases UdpTcpSender.next_cases hs with ⟨bytes,-,rfl⟩ | hst
  · have hcall : UdpTcpSender.Silent s
        (s.call (.send s.config.protocol (cSize s.config.msgSize))) :=
      (UdpTcpSender.Silent.refl s).call rfl
    exact (h.silent hcall).handle bytes
  · exact h.silent hst

/-- Every call succeeds up to the first message. -/
def firstMessage : List SenderAction :=
  [.resolve 0,.setup true,.setup true,.test,.send (.sent 0)]

theorem run_firstMessage (opts : List SenderOption) (c : SenderConfig) :
    ∃ s : UdpTcpSender,
      (UdpTcpSender.machine opts).run (UdpTcpSender.start c) firstMessage = some s ∧
      s.config = c ∧ s.sentCount = 1 ∧
      SenderCall.send c.protocol (cSize c.msgSize) ∈ s.calls ∧
      (tick c.repetitions ≠ 0 → SenderCall.sleep (cUnsigned c.sleepPeriod) ∈ s.calls) := by
  obtain ⟨u,hu,hconfig,hcount,hrepetitions,hsend⟩ : ∃ u : UdpTcpSender,
      (UdpTcpSender.machine opts).run (UdpTcpSender.start c) firstMessage = some (u.handle 0) ∧
      u.config = c ∧ u.sentCount = 0 ∧ u.repetitions = c.repetitions ∧
      SenderCall.send c.protocol (cSize c.msgSize) ∈ u.calls := by
    let v := ((UdpTcpSender.start c).stepResolve 0).stepSocket true
    have hv : UdpTcpSender.Silent (UdpTcpSender.start c) v :=
      (UdpTcpSender.stepResolve_silent _ 0).trans (UdpTcpSender.stepSocket_silent _ true)
    have hcall : ∀ w, UdpTcpSender.Silent v w → UdpTcpSender.Silent (UdpTcpSender.start c)
        ((w.goto .send).call (.send c.protocol (cSize c.msgSize))) := by
      intro w hw
      exact ((hv.trans hw).goto _).call rfl
    have hcount : ∀ u, UdpTcpSender.Silent (UdpTcpSender.start c) u → u.sentCount = 0 := by
      intro u hu
      rw [hu.sentCount,start_sentCount]
    obtain ⟨port,host,period,repetitions,size,message,protocol⟩ := c
    cases protocol with
    | udp =>
      have hu := hcall _ (UdpTcpSender.stepBroadcast_silent v true)
      exact ⟨_,rfl,hu.config,hcount _ hu,hu.repetitions,
        List.mem_append_right _ (List.mem_singleton_self _)⟩
    | tcp =>
      have hu := hcall _ (UdpTcpSender.stepConnect_silent v true)
      exact ⟨_,rfl,hu.config,hcount _ hu,hu.repetitions,
        List.mem_append_right _ (List.mem_singleton_self _)⟩
  obtain ⟨hconfig',-,hcount',-,-,hcalls⟩ := UdpTcpSender.handle_spec u 0
  refine ⟨u.handle 0,hu,hconfig'.trans hconfig,by rw [hcount',hcount],?_,fun hne => ?_⟩
  · rw [hcalls]
    exact List.mem_append_left _ hsend
  · rw [hcalls,hrepetitions,if_neg hne,hconfig]
    exact List.mem_append_right _ (List.mem_singleton_self _)

/-- For options that `main` accepts: in every run each number is used as it was read, exactly if the
values fit. -/
theorem usesExact_iff (h : SenderConfig.default.options opts = .ok c) :
    (∀ tr s, Exec (UdpTcpSender.machine opts) tr s → s.UsesExact (.given opts)) ↔ c.FitsUse := by
  have hholds := options_hold h
  constructor
  · intro hall
    obtain ⟨s,hs,hconfig,-,hsend,hsleep⟩ := run_firstMessage opts c
    have hexact := hall _ s (Exec.of_run ⟨c,h,rfl⟩ hs)
    constructor
    · have hlength := hexact.calls _ hsend
      rw [hconfig] at hlength
      exact hholds.length_iff.mp hlength
    · by_cases hzero : tick c.repetitions = 0
      · right
        unfold tick at hzero
        split_ifs at hzero
        · omega
        · omega
      · left
        have hperiod := hexact.calls _ (hsleep hzero)
        change (cUnsigned c.sleepPeriod : ℤ) = _ at hperiod
        rw [← hholds.period.1] at hperiod
        exact (cUnsigned_eq_iff (by rw [hholds.period.1]; exact hholds.period.2)).mp hperiod
  · intro hfits tr s run
    have hruns : UdpTcpSender.Runs (.given opts) s := by
      apply run.invariant (C := fun _ _ => True)
      · rintro s ⟨d,hd,rfl⟩
        rw [h] at hd
        cases hd
        exact start_runs hholds hfits
      · intro s a t hr _ hs
        exact hr.next hs
      · exact fun _ _ => trivial
    exact hruns.exact

end Widths

/-- The program started with `-T -p 9000 -m hi -s 1 -r 3 -t 4294967295`. -/
def longestSleep : List SenderOption :=
  [.T,.p (cBytes "9000"),.m (cBytes "hi"),.s (cBytes "1"),.r (cBytes "3"),.t (cBytes "4294967295")]

theorem usesExact_iff_longestSleep :
    ∃ tr, ∃ s : UdpTcpSender, Exec (UdpTcpSender.machine longestSleep) tr s ∧
      SenderCall.send .tcp 1 ∈ s.calls ∧ SenderCall.sleep 4294967295 ∈ s.calls ∧
      s.UsesExact (.given longestSleep) := by
  let c : SenderConfig := ⟨9000,cBytes "127.0.0.1",4294967295,3,1,cBytes "hi",.tcp⟩
  have hc : SenderConfig.default.options longestSleep = .ok c := by decide
  obtain ⟨s,hs,-,-,hsend,hsleep⟩ := run_firstMessage longestSleep c
  have hinit : (UdpTcpSender.machine longestSleep).init (UdpTcpSender.start c) := ⟨c,hc,rfl⟩
  have run := Exec.of_run hinit hs
  have hlength : cSize c.msgSize = 1 := by decide
  have hseconds : cUnsigned c.sleepPeriod = 4294967295 := by decide
  rw [hlength] at hsend
  rw [hseconds] at hsleep
  exact ⟨_,s,run,hsend,hsleep (by decide),(usesExact_iff hc).2 (by decide) _ _ run⟩

/-- With `-t 4294967296` the program does not wait at all between its messages. -/
theorem long_period_wraps :
    ∃ tr, ∃ s : UdpTcpSender,
      Exec (UdpTcpSender.machine [.t (cBytes "4294967296")]) tr s ∧
      (SenderNumbers.given [.t (cBytes "4294967296")]).period = 4294967296 ∧
      SenderCall.sleep 0 ∈ s.calls ∧
      ¬ s.UsesExact (.given [.t (cBytes "4294967296")]) := by
  let c : SenderConfig := {SenderConfig.default with sleepPeriod := 4294967296}
  have hc : SenderConfig.default.options [.t (cBytes "4294967296")] = .ok c := by decide
  obtain ⟨s,hs,-,-,-,hsleep⟩ := run_firstMessage [.t (cBytes "4294967296")] c
  have hinit : (UdpTcpSender.machine [.t (cBytes "4294967296")]).init (UdpTcpSender.start c) :=
    ⟨c,hc,rfl⟩
  have hseconds : cUnsigned c.sleepPeriod = 0 := by decide
  rw [hseconds] at hsleep
  have hzero : SenderCall.sleep 0 ∈ s.calls := hsleep (by decide)
  refine ⟨_,s,Exec.of_run hinit hs,by decide,hzero,fun hexact => ?_⟩
  have hcall := hexact.calls _ hzero
  change ((0 : ℕ) : ℤ) = (SenderNumbers.given [.t (cBytes "4294967296")]).period at hcall
  exact absurd hcall (by decide)

end TTK4145.Exercise2
