/-!
Why decoding one instruction fails, and how a disassembler can be misconfigured. The wording of
both lives here.
-/

namespace X86

/-- The reason a single instruction could not be decoded. It is recorded on the instruction. -/
inductive Fault
  | unknownOpcode
  | truncated
  | invalidIn64BitMode
  | invalidOperand
  | invalidSegmentRegister
  | tooLong
  deriving DecidableEq

def Fault.message : Fault → String
  | .unknownOpcode => "undefined opcode"
  | .truncated => "unexpected end of input"
  | .invalidIn64BitMode => "instruction invalid in 64-bit mode"
  | .invalidOperand => "operand encoding not permitted for this instruction"
  | .invalidSegmentRegister => "invalid segment register"
  | .tooLong => "instruction exceeds 15 bytes"

/-- A configuration that is refused before anything is decoded. -/
inductive Misuse
  | emptySource
  | offsetOutOfRange (offset length : Nat)
  | invalidMode (bits : Nat)
  deriving DecidableEq

def Misuse.message : Misuse → String
  | .emptySource => "byte source is empty"
  | .offsetOutOfRange offset length =>
      s!"start offset {offset} is outside the source (length {length})"
  | .invalidMode bits => s!"invalid architecture mode: {bits} (expected 16, 32 or 64)"

end X86
