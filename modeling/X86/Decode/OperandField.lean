import X86.Address
import X86.Decode.State
import X86.Template

/-!
Operands from their templates: the fields of ModRM, the opcode and REX, and the bytes that follow.
-/

namespace X86
namespace Decode

/-- What is settled about an instruction before its operands are read. -/
structure Frame where
  mode : Mode
  operandSize : Nat
  addressSize : Nat
  rex : Rex
  opcode : Opcode

namespace Frame

/-- The width of an operand in bits. -/
def bits (f : Frame) (width : Width) : Nat :=
  width.bits f.operandSize f.mode.is64

/-- The general register that a three-bit field names under a REX bit. -/
def gpr (f : Frame) (width : Width) (bit : Bool) (n : Fin 8) : Register :=
  .gpr (f.bits width) (Rex.extend bit n) f.rex.present

def memory (f : Frame) (m : ModRM) (width : Width) : Decode Operand := do
  pure (.memory (← read (Read.memory m f.rex f.addressSize f.mode.is64 (f.bits width))))

/-- A register in the register form of ModRM, memory otherwise. -/
def registerOrMemory (f : Frame) (width : Width) (r : ModRM → Register) : Decode Operand := do
  let m ← modRM
  if m.isRegister then pure (.register (r m)) else f.memory m width

/-- A register from ModRM. -/
def registerField (r : ModRM → Register) : Decode Operand := do
  pure (.register (r (← modRM)))

/-- A register that only the register form of ModRM may name. -/
def registerOnly (r : ModRM → Register) : Decode Operand := do
  let m ← modRM
  if m.isRegister then pure (.register (r m)) else throw .invalidOperand

def memoryOnly (f : Frame) (width : Width) : Decode Operand := do
  let m ← modRM
  if m.isRegister then throw .invalidOperand else f.memory m width

def immediate (f : Frame) (width : Width) (signExtended : Bool) : Decode Operand := do
  let size := f.bits width
  let value ← read (Read.unsigned (size / 8))
  pure (.immediate { value, size, signExtended })

/-- The number of bytes of a branch displacement of the given width. -/
def relativeBytes : Nat → Nat
  | 8 => 1
  | 16 => 2
  | _ => 4

def relative (f : Frame) (width : Width) : Decode Operand := do
  let displacement ← read (Read.signed (relativeBytes (f.bits width)))
  pure (.relative { displacement, size := f.operandSize })

/-- Memory at a bare address, which is as wide as addresses are. -/
def bareAddress (f : Frame) (width : Width) : Decode Operand := do
  let raw ← read (Read.unsigned (f.addressSize / 8))
  pure (.memory {
    displacement := Word.signExtend f.addressSize raw
    displacementSize := f.addressSize
    size := f.bits width })

def farPointer (f : Frame) : Decode Operand := do
  let size := if f.operandSize = 16 then 16 else 32
  let offset ← read (Read.unsigned (size / 8))
  let segment ← read (Read.unsigned 2)
  pure (.far { segment := UInt16.ofNat segment, offset := UInt32.ofNat offset, size })

def segmentRegister : Decode Operand := do
  match Segment.ofNumber? (← modRM).reg with
  | some s => pure (.register (.segment s))
  | none => throw .invalidSegmentRegister

/-- Read one operand. A 32-bit immediate under a 64-bit operand size is widened with its sign. -/
def operand (f : Frame) : Template → Decode Operand
  | .absent => pure .absent
  | .regMem width => f.registerOrMemory width fun m => f.gpr width f.rex.b m.rm
  | .mem width => f.memoryOnly width
  | .reg width => registerField fun m => f.gpr width f.rex.r m.reg
  | .rmReg width => registerField fun m => f.gpr width f.rex.b m.rm
  | .imm width => f.immediate width (width = .z ∧ f.operandSize = 64)
  | .immSigned width => f.immediate width true
  | .relative width => f.relative width
  | .offset width => f.bareAddress width
  | .farPointer => f.farPointer
  | .segment => segmentRegister
  | .control => registerField fun m => .control (Rex.extend f.rex.r m.reg)
  | .debug => registerField fun m => .debug (Rex.extend f.rex.r m.reg)
  | .mmxReg => registerField fun m => .mmx m.reg
  | .mmxRegMem width => f.registerOrMemory width fun m => .mmx m.rm
  | .mmxRm => registerOnly fun m => .mmx m.rm
  | .xmmReg => registerField fun m => .xmm (Rex.extend f.rex.r m.reg)
  | .xmmRegMem width => f.registerOrMemory width fun m => .xmm (Rex.extend f.rex.b m.rm)
  | .xmmRm => registerOnly fun m => .xmm (Rex.extend f.rex.b m.rm)
  | .st0 => pure (.register (.x87 0))
  | .stRm => registerField fun m => .x87 m.rm
  | .fixed r => pure (.register r)
  | .sized n width => pure (.register (.gpr (f.bits width) (Fin.ofNat 16 n.toNat) false))
  | .opcodeReg width => pure (.register (f.gpr width f.rex.b (Fin.ofNat 8 f.opcode.byte.toNat)))
  | .constant n => pure (.constant n.toNat)

end Frame
end Decode
end X86
