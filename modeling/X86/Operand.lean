import X86.Register
import X86.Word

/-! Decoded operands. -/

namespace X86

/-- An effective address and the size of the data there. The scale is 1, 2, 4 or 8 with an index
and 0 without; a displacement size of 0 means that none was encoded. Sizes are in bits. -/
structure MemoryOperand where
  base : Option Register := none
  index : Option Register := none
  scale : Nat := 0
  displacement : Int := 0
  displacementSize : Nat := 0
  size : Nat := 0
  deriving DecidableEq

namespace MemoryOperand

/-- Whether the address is a bare displacement. -/
def isAbsolute (m : MemoryOperand) : Bool :=
  m.base.isNone && m.index.isNone

/-- The displacement as it was encoded, without its sign. -/
def unsignedDisplacement (m : MemoryOperand) : Nat :=
  Word.zeroExtend m.displacementSize m.displacement

end MemoryOperand

/-- An encoded constant: its raw value, its width, and whether it is widened with its sign when
executed. -/
structure Immediate where
  value : Nat
  size : Nat
  signExtended : Bool
  deriving DecidableEq

/-- A branch displacement, the width of the instruction pointer it acts on, and where it leads. -/
structure RelativeTarget where
  displacement : Int
  size : Nat
  target : UInt64 := 0
  deriving DecidableEq

/-- A direct pointer into another segment; `size` is the width of the offset. -/
structure FarPointer where
  segment : UInt16
  offset : UInt32
  size : Nat
  deriving DecidableEq

/-- An operand of an instruction, or an unused operand slot. -/
inductive Operand
  | absent
  | register (r : Register)
  | memory (m : MemoryOperand)
  | immediate (i : Immediate)
  | constant (value : Nat)
  | relative (r : RelativeTarget)
  | far (p : FarPointer)
  deriving DecidableEq

namespace Operand

def isAbsent : Operand → Bool
  | absent => true
  | _ => false

def isMemory : Operand → Bool
  | memory _ => true
  | _ => false

def isRegister : Operand → Bool
  | register _ => true
  | _ => false

/-- Whether the operand is an encoded or an implied constant. -/
def isImmediate : Operand → Bool
  | immediate _ | constant _ => true
  | _ => false

def register? : Operand → Option Register
  | register r => some r
  | _ => none

def memory? : Operand → Option MemoryOperand
  | memory m => some m
  | _ => none

/-- The size of the operand in bits. -/
def size : Operand → Nat
  | absent => 0
  | register r => r.size
  | memory m => m.size
  | immediate i => i.size
  | constant _ => 8
  | relative r => r.size
  | far p => p.size + 16

def base : Operand → Option Register
  | register r => some r
  | memory m => m.base
  | _ => none

def index (o : Operand) : Option Register :=
  o.memory?.bind (·.index)

def scale : Operand → Nat
  | memory m => m.scale
  | _ => 0

/-- The number in the operand, signed at the width it is encoded in. -/
def value : Operand → Int
  | absent | register _ => 0
  | memory m => m.displacement
  | immediate i => Word.signExtend i.size i.value
  | constant n => Word.signExtend 64 n
  | relative r => r.displacement
  | far p => p.offset.toNat

end Operand
end X86
