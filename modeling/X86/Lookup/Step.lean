/-!
The steps of an encoding path: opcode bytes, and selectors on the other things that tell two
instructions with the same opcode bytes apart.
-/

namespace X86
namespace Lookup

/-- What a lookup table branches on. -/
inductive Axis
  /-- The next opcode byte. -/
  | opcode
  /-- The mandatory prefix: none, 66, F2 or F3. -/
  | mandatory
  | reg
  /-- Memory or register form of the r/m field. -/
  | mod
  | rm
  /-- Outside or inside 64-bit mode. -/
  | mode
  /-- Operand size 16, 32 or 64. -/
  | operandSize
  /-- Address size 16, 32 or 64. -/
  | addressSize
  /-- AMD or Intel. -/
  | vendor
  deriving DecidableEq

namespace Axis

/-- All axes, in the order in which a path branches on them. -/
def all : List Axis :=
  [opcode, mandatory, reg, mod, rm, mode, operandSize, addressSize, vendor]

def slotCount : Axis → Nat
  | opcode => 256
  | mandatory => 4
  | reg | rm => 8
  | mod | mode | vendor => 2
  | operandSize | addressSize => 3

/-- Whether a path that does not branch on this axis applies to slot `i`. A path without a mandatory
prefix belongs under "none" only, where lookup falls back to; on every other axis it applies
everywhere. -/
def coversByDefault : Axis → Nat → Bool
  | mandatory, i => i == 0
  | _, _ => true

def isModRM : Axis → Bool
  | reg | mod | rm => true
  | _ => false

end Axis

/-- One branch of a path: an axis and the slot taken on it. -/
structure Step where
  axis : Axis
  index : Fin axis.slotCount
  deriving DecidableEq

namespace Step

def byte (b : UInt8) : Step := ⟨.opcode, b.toFin⟩
def mandatory (n : Fin 4) : Step := ⟨.mandatory, n⟩
def reg (n : Fin 8) : Step := ⟨.reg, n⟩
def mod (n : Fin 2) : Step := ⟨.mod, n⟩
def rm (n : Fin 8) : Step := ⟨.rm, n⟩
def mode (n : Fin 2) : Step := ⟨.mode, n⟩
def operandSize (n : Fin 3) : Step := ⟨.operandSize, n⟩
def addressSize (n : Fin 3) : Step := ⟨.addressSize, n⟩
def vendor (n : Fin 2) : Step := ⟨.vendor, n⟩

/-- The steps in branching order. Steps on one axis keep their order, so the opcode bytes come
first, as written. -/
def inOrder (steps : List Step) : List Step :=
  Axis.all.flatMap fun a => steps.filter (·.axis = a)

/-- Take the first step on the given axis out of a path. -/
def takeFirst? (a : Axis) : List Step → Option (Nat × List Step)
  | [] => none
  | s :: rest =>
    if s.axis = a then some (s.index, rest)
    else (takeFirst? a rest).map fun (i, rest') => (i, s :: rest')

end Step
end Lookup
end X86
