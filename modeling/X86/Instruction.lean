import X86.EntryFlags
import X86.Fault
import X86.Mnemonic
import X86.Opcode
import X86.Operand
import X86.Prefix

/-! The decoded instruction. -/

namespace X86

/-- The four operand slots of an instruction without operands. -/
def noOperands : Vector Operand 4 :=
  #v[.absent, .absent, .absent, .absent]

/-- One decoded instruction, or the record of a failed attempt to decode one. -/
structure Instruction where
  mnemonic : Mnemonic := .INVALID
  opcode : Opcode := {}
  /-- The address of the first byte. -/
  offset : UInt64 := 0
  /-- The number of bytes, at least one even if decoding failed. -/
  length : Nat := 0
  mode : Mode := .bits32
  operandSize : Nat := 0
  addressSize : Nat := 0
  prefixes : Prefixes := {}
  operands : Vector Operand 4 := noOperands
  isFar : Bool := false
  isNear : Bool := false
  flags : EntryFlags := {}
  error : Option Fault := none
  /-- The bytes read, if they were to be kept. -/
  bytes : Option (List UInt8) := none
  deriving DecidableEq

namespace Instruction

/-- The address of the next instruction. -/
def next (i : Instruction) : UInt64 :=
  i.offset + UInt64.ofNat i.length

def isError (i : Instruction) : Bool :=
  i.error.isSome

/-- The operands up to the first unused slot. -/
def activeOperands (i : Instruction) : List Operand :=
  i.operands.toList.takeWhile (!·.isAbsent)

def operandCount (i : Instruction) : Nat :=
  i.activeOperands.length

def hasMemoryOperand (i : Instruction) : Bool :=
  i.operands.toList.any (·.isMemory)

end Instruction
end X86
