import X86.Register

/-! Operand templates: how an instruction definition says that an operand is encoded. -/

namespace X86

/-- The width of an operand. `v` is the operand size; `z` is the operand size but at most 32; `y` is
64 under a 64-bit operand size and 32 otherwise; `p` is the offset of a far pointer in memory;
`native` is 64 in 64-bit mode and 32 otherwise. -/
inductive Width
  | unsized
  | b | w | d | q | t | dq
  | v | z | y | p
  | native
  deriving DecidableEq

namespace Width

def followsOperandSize : Width → Bool
  | v | z | y | p => true
  | _ => false

/-- The width in bits, given the operand size and whether the mode is the 64-bit one. -/
def bits (operandSize : Nat) (mode64 : Bool) : Width → Nat
  | unsized => 0
  | b => 8
  | w => 16
  | d => 32
  | q => 64
  | t => 80
  | dq => 128
  | v | p => operandSize
  | z => if operandSize = 16 then 16 else 32
  | y => if operandSize = 64 then 64 else 32
  | native => if mode64 then 64 else 32

end Width

/-- How one operand is encoded. -/
inductive Template
  | absent
  /-- A general register or memory, from the r/m field. -/
  | regMem (width : Width)
  /-- Memory only, from the r/m field. -/
  | mem (width : Width)
  /-- A general register, from the reg field. -/
  | reg (width : Width)
  /-- A general register, from the r/m field whatever the mod field says. -/
  | rmReg (width : Width)
  | imm (width : Width)
  /-- A constant that is widened with its sign. -/
  | immSigned (width : Width)
  | relative (width : Width)
  /-- Memory at a bare address of the address size. -/
  | offset (width : Width)
  | farPointer
  | segment
  | control
  | debug
  | mmxReg
  | mmxRegMem (width : Width)
  | mmxRm
  | xmmReg
  | xmmRegMem (width : Width)
  | xmmRm
  | st0
  | stRm
  | fixed (r : Register)
  /-- A general register with a fixed number, which REX does not extend. -/
  | sized (n : UInt8) (width : Width)
  /-- A general register, from the low three bits of the opcode. -/
  | opcodeReg (width : Width)
  | constant (n : UInt8)
  deriving DecidableEq

namespace Template

def usesModRM : Template → Bool
  | regMem _ | mem _ | reg _ | rmReg _ | segment | control | debug => true
  | mmxReg | mmxRegMem _ | mmxRm | xmmReg | xmmRegMem _ | xmmRm | stRm => true
  | _ => false

def mayAddressMemory : Template → Bool
  | regMem _ | mem _ | mmxRegMem _ | xmmRegMem _ | offset _ => true
  | _ => false

def followsOperandSize : Template → Bool
  | regMem size | mem size | reg size | rmReg size => size.followsOperandSize
  | imm size | immSigned size | relative size | offset size => size.followsOperandSize
  | sized _ size | opcodeReg size => size.followsOperandSize
  | farPointer => true
  | _ => false

end Template
end X86
