import X86.Cursor
import X86.ModRM
import X86.Operand
import X86.Prefix

/-!
Effective addresses. `Read.memory` reads the SIB byte and the displacement that a ModRM byte asks
for and builds the memory operand.
-/

namespace X86

namespace ModRM

/-- The base and index registers of 16-bit addressing, by the r/m field. -/
def registers16 : Fin 8 → Register × Option Register
  | 0 => (.bx, some .si)
  | 1 => (.bx, some .di)
  | 2 => (.bp, some .si)
  | 3 => (.bp, some .di)
  | 4 => (.si, none)
  | 5 => (.di, none)
  | 6 => (.bp, none)
  | 7 => (.bx, none)

end ModRM

namespace Read

/-- Complete a memory operand with a displacement of `width` bytes. -/
def displaced (width : Nat) (m : MemoryOperand) : Read MemoryOperand :=
  if width = 0 then pure m
  else do
    let d ← signed width
    pure { m with displacement := d, displacementSize := 8 * width }

def memory16 (m : ModRM) (size : Nat) : Read MemoryOperand :=
  if m.mod = 0 ∧ m.rm = 6 then displaced m.displacement16 { size }
  else
    let (base, index) := ModRM.registers16 m.rm
    displaced m.displacement16
      { base := some base, index, scale := if index.isSome then 1 else 0, size }

/-- The address a SIB byte describes. Index four without REX.X stands for no index, and base five
under `mod` zero for a displacement in place of the base. -/
def memorySib (m : ModRM) (rex : Rex) (addressSize size : Nat) : Read MemoryOperand := do
  let sib := Sib.ofByte (← byte)
  let number := Rex.extend rex.x sib.index
  let indexed : MemoryOperand :=
    if number = 4 then { size }
    else { index := some (.gpr addressSize number false), scale := sib.scale, size }
  if sib.base = 5 ∧ m.mod = 0 then displaced 4 indexed
  else
    displaced m.displacement32
      { indexed with base := some (.gpr addressSize (Rex.extend rex.b sib.base) false) }

/-- The memory operand of a ModRM byte. In 64-bit mode the bare 32-bit displacement counts from
the instruction pointer. -/
def memory (m : ModRM) (rex : Rex) (addressSize : Nat) (mode64 : Bool) (size : Nat) :
    Read MemoryOperand :=
  if addressSize = 16 then memory16 m size
  else if m.hasSib addressSize then memorySib m rex addressSize size
  else if m.mod = 0 ∧ m.rm = 5 then
    let base := if mode64 then some (if addressSize = 32 then .eip else .rip) else none
    displaced m.displacement32 { base, size }
  else
    displaced m.displacement32
      { base := some (.gpr addressSize (Rex.extend rex.b m.rm) false), size }

end Read
end X86
