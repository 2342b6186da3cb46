import TTK4145.Lib.CText
import TTK4145.Lib.Ring

/-! `rtsystem/include/rtsystem/async_log_helper.h`: the arguments of an `ALOG` call, the record
that it builds from them, and what it uses of the queue. Texts are the bytes before the NUL. -/
namespace TTK4145.Rtsystem
open Lib

inductive LogLevel where
  | debug
  | info
  | warn
  | error
  | none
  deriving DecidableEq, Repr

/-- The values of `LOG_LEVEL_DEBUG` to `LOG_LEVEL_NONE`. -/
def LogLevel.code : LogLevel → ℕ
  | .debug => 0
  | .info => 1
  | .warn => 2
  | .error => 3
  | .none => 4

/-- `log_message_t`. The timestamp is the `timespec` in nanoseconds. -/
structure LogMessage where
  level : LogLevel
  tag : List UInt8
  message : List UInt8
  timestamp : ℕ
  deriving DecidableEq, Repr

/-- The arguments of an `ALOG` call: `text` is what its format and values expand to, and
`threshold` the `LOG_LEVEL` of the file in which the call stands. -/
structure LogCall where
  threshold : LogLevel
  level : LogLevel
  tag : List UInt8
  text : List UInt8
  deriving DecidableEq, Repr

namespace LogCall

/-- `_level >= LOG_LEVEL`. -/
def enabled (c : LogCall) : Bool := decide (c.level.code ≥ c.threshold.code)

/-- The record that is sent: the tag cut to `char[32]` and the text to `char[256]`. -/
def record (c : LogCall) (timestamp : ℕ) : LogMessage :=
  ⟨c.level,cutText 32 c.tag,cutText 256 c.text,timestamp⟩

/-- `LOGD` in a file with `LOG_LEVEL` set to `LOG_LEVEL_DEBUG`. -/
def debug (tag text : String) : LogCall := ⟨.debug,.debug,cBytes tag,cBytes text⟩

end LogCall

/-- The operations of `g_log_queue`; `none` stands for the return value -1. -/
structure LogQueue (Q : Type*) where
  send : Q → LogMessage → Option Q
  receive : Q → Option (LogMessage × Q)
  readable : Q → Bool

/-- The queue as the bounded list which `fifo_queue.c` implements. -/
def fifoLog {capacity : ℕ} : LogQueue (BoundedFifo LogMessage capacity) where
  send := BoundedFifo.send
  receive := BoundedFifo.receive
  readable q := !q.items.isEmpty

end TTK4145.Rtsystem
