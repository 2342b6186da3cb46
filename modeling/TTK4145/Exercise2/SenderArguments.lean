import TTK4145.Exercise2.Arguments

/-! The arguments of `Exercise2/udp_tcp_sender/src/udp_tcp_sender.c`, from the options that `getopt`
finds to the values which `main` goes on with. -/
namespace TTK4145.Exercise2
open Lib

inductive Protocol where
  | udp
  | tcp
  deriving DecidableEq, Repr

/-- What `getopt` returns, with `optarg` or, for the last two, `optopt`. -/
inductive SenderOption where
  | T
  | p (optarg : List UInt8)
  | m (optarg : List UInt8)
  | s (optarg : List UInt8)
  | a (optarg : List UInt8)
  | r (optarg : List UInt8)
  | t (optarg : List UInt8)
  | h
  | unknown (optopt : UInt8)
  | other (optopt : UInt8)
  deriving DecidableEq

/-- The lines that the program logs. -/
inductive SenderLine where
  | help
  | invalidPort (optarg : List UInt8)
  | invalidSize (optarg : List UInt8)
  | invalidRepetition (optarg : List UInt8)
  | invalidPeriod (optarg : List UInt8)
  | disallowed (optopt : UInt8)
  | defaultBranch (optopt : UInt8)
  | truncated (size room : ℤ)
  | resolveFailed (err : ℤ)
  | socketFailed
  | broadcastFailed
  | created (protocol : Protocol)
  | connectFailed
  | connected (host : List UInt8) (port : ℤ)
  | sending (protocol : Protocol) (host : List UInt8) (port : ℤ)
  | sendFailed
  | sent (protocol : Protocol) (bytes : ℕ) (message : List UInt8)
  | shutdown
  deriving DecidableEq

def SenderLine.isSent : SenderLine → Bool
  | .sent _ _ _ => true
  | _ => false

/-- The status and the lines of a program that ends at its arguments. -/
structure SenderExit where
  status : ℕ
  log : List SenderLine
  deriving DecidableEq

namespace Sender

def parsePort (str : List UInt8) : ℤ := cInt (parseBounded 1 65535 (-1) str)
def parseSize (str : List UInt8) : ℤ := cInt (parseBounded 0 65507 (-1) str)
def parseRepetitions (str : List UInt8) : ℤ := cInt (parseBounded (-1) intMax (-2) str)

/-- `parse_period`, with a `long` for its result and no upper bound. -/
def parsePeriod (str : List UInt8) : ℤ :=
  let r := strtol str
  if r.erange ∨ r.consumed = 0 ∨ r.consumed<str.length then -1
  else if r.value<0 then -1
  else r.value

end Sender

/-- The locals of `main` behind its options. -/
structure SenderConfig where
  destPort : ℤ
  destHost : List UInt8
  sleepPeriod : ℤ
  repetitions : ℤ
  maxMsgSize : ℤ
  message : List UInt8
  protocol : Protocol
  deriving DecidableEq

namespace SenderConfig

def default : SenderConfig where
  destPort := 8080
  destHost := cBytes "127.0.0.1"
  sleepPeriod := 5
  repetitions := -1
  maxMsgSize := 65507
  message := []
  protocol := .udp

/-- One turn of the `switch` with its `CHECK`. -/
def option (c : SenderConfig) : SenderOption → Except SenderExit SenderConfig
  | .T => .ok {c with protocol := .tcp}
  | .p optarg =>
    let destPort := Sender.parsePort optarg
    if destPort<0 then .error ⟨1,[.invalidPort optarg]⟩ else .ok {c with destPort := destPort}
  | .m optarg => .ok {c with message := optarg}
  | .s optarg =>
    let maxMsgSize := Sender.parseSize optarg
    if maxMsgSize<0 then .error ⟨1,[.invalidSize optarg]⟩ else .ok {c with maxMsgSize := maxMsgSize}
  | .a optarg => .ok {c with destHost := optarg}
  | .r optarg =>
    let repetitions := Sender.parseRepetitions optarg
    if repetitions ≠ -1 ∧ repetitions<0 then .error ⟨1,[.invalidRepetition optarg]⟩
    else .ok {c with repetitions := repetitions}
  | .t optarg =>
    let sleepPeriod := Sender.parsePeriod optarg
    if sleepPeriod<0 then .error ⟨1,[.invalidPeriod optarg]⟩
    else .ok {c with sleepPeriod := sleepPeriod}
  | .h => .error ⟨0,[.help]⟩
  | .unknown optopt => .error ⟨1,[.disallowed optopt,.help]⟩
  | .other optopt => .error ⟨1,[.defaultBranch optopt,.help]⟩

/-- The loop over `getopt`. -/
def options (c : SenderConfig) (opts : List SenderOption) : Except SenderExit SenderConfig :=
  opts.foldlM option c

/-- `msg_size = strlen(message)`, an `int`. -/
def strlenMessage (c : SenderConfig) : ℤ := cInt c.message.length

/-- `msg_size` behind the comparison with `max_msg_size`. -/
def msgSize (c : SenderConfig) : ℤ :=
  if c.strlenMessage>c.maxMsgSize then c.maxMsgSize else c.strlenMessage

/-- `snprintf(port_str, sizeof(port_str), "%d", dest_port)`. -/
def portStr (c : SenderConfig) : List UInt8 := cutText 6 (decimal c.destPort)

end SenderConfig

/-- The options of a command line with the numbers that `strtol` reads from their arguments: the
last argument counts, or without one the default. -/
structure SenderNumbers where
  port : ℤ
  size : ℤ
  repetitions : ℤ
  period : ℤ
  deriving DecidableEq

namespace SenderNumbers

def default : SenderNumbers := ⟨8080,65507,-1,5⟩

def read (n : SenderNumbers) : SenderOption → SenderNumbers
  | .p optarg => {n with port := (strtol optarg).value}
  | .s optarg => {n with size := (strtol optarg).value}
  | .r optarg => {n with repetitions := (strtol optarg).value}
  | .t optarg => {n with period := (strtol optarg).value}
  | _ => n

/-- The numbers on a command line. -/
def given (opts : List SenderOption) : SenderNumbers := opts.foldl read default

end SenderNumbers

/-- The values of `main` are the numbers read, each within the bounds of its parser. -/
structure SenderConfig.Holds (c : SenderConfig) (n : SenderNumbers) : Prop where
  port : c.destPort = n.port ∧ 1 ≤ n.port ∧ n.port ≤ 65535
  size : c.maxMsgSize = n.size ∧ 0 ≤ n.size ∧ n.size ≤ 65507
  repetitions : c.repetitions = n.repetitions ∧ -1 ≤ n.repetitions ∧ n.repetitions ≤ intMax
  period : c.sleepPeriod = n.period ∧ 0 ≤ n.period

section Values
variable {c d : SenderConfig} {n : SenderNumbers} {str : List UInt8}

theorem parsePort_value (h : ¬Sender.parsePort str<0) :
    Sender.parsePort str = (strtol str).value ∧ 1 ≤ (strtol str).value ∧
      (strtol str).value ≤ 65535 := by
  apply cInt_parseBounded (by decide) (by decide)
  intro herr
  exact h (by rw [Sender.parsePort,herr]; decide)

theorem parseSize_value (h : ¬Sender.parseSize str<0) :
    Sender.parseSize str = (strtol str).value ∧ 0 ≤ (strtol str).value ∧
      (strtol str).value ≤ 65507 := by
  apply cInt_parseBounded (by decide) (by decide)
  intro herr
  exact h (by rw [Sender.parseSize,herr]; decide)

theorem parseRepetitions_value
    (h : ¬(Sender.parseRepetitions str ≠ -1 ∧ Sender.parseRepetitions str<0)) :
    Sender.parseRepetitions str = (strtol str).value ∧ -1 ≤ (strtol str).value ∧
      (strtol str).value ≤ intMax := by
  apply cInt_parseBounded (by decide) (by decide)
  intro herr
  exact h (by rw [Sender.parseRepetitions,herr]; decide)

theorem parsePeriod_value (h : ¬Sender.parsePeriod str<0) :
    Sender.parsePeriod str = (strtol str).value ∧ 0 ≤ (strtol str).value := by
  unfold Sender.parsePeriod at h ⊢
  simp only at h ⊢
  split_ifs at h ⊢
  · exact absurd (by decide) h
  · exact absurd (by decide) h
  · exact ⟨rfl,by omega⟩

theorem default_holds : SenderConfig.default.Holds .default :=
  ⟨by decide,by decide,by decide,by decide⟩

theorem SenderConfig.Holds.option {o : SenderOption} (h : c.Holds n) (ho : c.option o = .ok d) :
    d.Holds (n.read o) := by
  cases o with
  | T | m optarg | a optarg =>
    cases ho
    exact ⟨h.port,h.size,h.repetitions,h.period⟩
  | p optarg =>
    simp only [SenderConfig.option] at ho
    split_ifs at ho with hneg
    cases ho
    exact ⟨parsePort_value hneg,h.size,h.repetitions,h.period⟩
  | s optarg =>
    simp only [SenderConfig.option] at ho
    split_ifs at ho with hneg
    cases ho
    exact ⟨h.port,parseSize_value hneg,h.repetitions,h.period⟩
  | r optarg =>
    simp only [SenderConfig.option] at ho
    split_ifs at ho with hneg
    cases ho
    exact ⟨h.port,h.size,parseRepetitions_value hneg,h.period⟩
  | t optarg =>
    simp only [SenderConfig.option] at ho
    split_ifs at ho with hneg
    cases ho
    exact ⟨h.port,h.size,h.repetitions,parsePeriod_value hneg⟩
  | h | unknown optopt | other optopt => cases ho

theorem SenderConfig.Holds.options {opts : List SenderOption} (h : c.Holds n)
    (ho : c.options opts = .ok d) : d.Holds (opts.foldl SenderNumbers.read n) := by
  induction opts generalizing c n with
  | nil =>
    cases ho
    exact h
  | cons o opts ih =>
    rw [SenderConfig.options,List.foldlM_cons] at ho
    cases hc : c.option o with
    | error e =>
      rw [hc] at ho
      cases ho
    | ok c' =>
      rw [hc] at ho
      exact ih (h.option hc) ho

/-- Whatever the options are that `main` accepts, its values are the numbers read from them. -/
theorem options_hold {opts : List SenderOption} (h : SenderConfig.default.options opts = .ok c) :
    c.Holds (.given opts) := default_holds.options h

/-- The buffer of six bytes holds every port. -/
theorem SenderConfig.Holds.portStr (h : c.Holds n) : c.portStr = decimal n.port := by
  obtain ⟨hport,hlo,hhi⟩ := h.port
  rw [SenderConfig.portStr,hport]
  apply cutText_decimal
  have hlen : (natDecimal n.port.natAbs).length ≤ 5 :=
    (length_natDecimal_le (by decide)).mpr (by omega)
  rw [decimal,if_neg (by omega)]
  omega

end Values
end TTK4145.Exercise2
