import DbAgent.RawCommand
import DbAgent.RedactionCompleteness

/-! What the probe sends back for a raw command, and what the redaction filter would have
replaced in the output of the command. -/
namespace DbAgent.RawCmd

open Config Redact Scan List

section Dispatch

/-- The map that is marshalled; its strings are Go strings. -/
structure Payload where
  stdout : List UInt8
  stderr : List UInt8
  exitCode : ℤ

structure TaskOutcome where
  payload : Option Payload
  exitCode : ℤ
  truncated : Bool
  redacted : Bool
  error : Text

/-- The cap on the output, as `HandleTask` sets it. -/
def outputCap (maxOutputBytes : ℤ) : ℤ := if maxOutputBytes ≤ 0 then 2 ^ 20 else maxOutputBytes

variable {ε : Type} (errorText : Rejection ⊕ ε → Text)
  (exec : List Text → ℤ → Except ε ExecResult)

end Dispatch

section Values

variable (U : Unicode) {α : Type} (A : Alphabet α)

variable {U A}

variable [DecidableEq α] {line : List α} (hdistinct : Distinct A line)

include hdistinct

end Values

section Leaks

variable (U : Unicode) (D : Utf8)

variable {U D}

def bytesOf (t : String) : List UInt8 := t.toList.map fun c => UInt8.ofNat c.toNat

end Leaks

end DbAgent.RawCmd
