import X86.Decode.State
import X86.Lookup.Node
import X86.Mode

/-!
Opcode resolution: the descent from a node of the lookup tree to the number of an entry, reading
opcode bytes and the ModRM byte as the branchings ask for them.
-/

namespace X86
namespace Decode

open Lookup (Axis Node)

/-- The slot of a size on the size axes. -/
def sizeSlot : Nat → Nat
  | 16 => 0
  | 32 => 1
  | _ => 2

def repeatSlot : Repeat → Nat
  | .f2 => 2
  | .f3 => 3

/-- The slot to take on an axis. The mandatory prefix and the vendor leave a choice that depends on
what the slots hold, and are dealt with in `resolve`. -/
def slotOn (t : Target) : Axis → Decode Nat
  | .opcode => do
    let b ← read Read.byte
    modify fun s => { s with opcode := s.opcode.advance b }
    pure b.toNat
  | .reg => do pure (← modRM).reg.val
  | .mod => do pure (if (← modRM).isRegister then 1 else 0)
  | .rm => do pure (← modRM).rm.val
  | .mode => pure (if t.mode.is64 then 1 else 0)
  | .operandSize => do
    let p := (← get).prefixes
    pure (sizeSlot (t.mode.operandSize p.rex.w p.operandSize))
  | .addressSize => do
    pure (sizeSlot (t.mode.addressSize (← get).prefixes.addressSize))
  | .mandatory | .vendor => pure 0

/-- Without a vendor filter the AMD slot is preferred unless it is free. -/
def vendorSlot (v : Vendor) (slots : List Node) : Nat :=
  match v with
  | .amd => 0
  | .intel => 1
  | .any => if (slots.getD 0 .empty).isEmpty then 1 else 0

mutual

/-- Descend to an entry. On the mandatory prefix the last F2 or F3 is tried first, then 66, then no
prefix; a prefix counts as consumed only if its slot leads to an entry. -/
def resolve (t : Target) : Node → Decode Nat
  | .empty => throw .unknownOpcode
  | .leaf entry => pure entry
  | .table axis slots =>
    match axis with
    | .mandatory => do
      let plain := resolveSlot t slots 0
      let sized := do
        if (← get).prefixes.operandSize then
          orElse
            (do
              modify (setPrefixes fun p => { p with operandSize := false })
              resolveSlot t slots 1)
            (fun p => { p with operandSize := true })
            plain
        else plain
      match (← get).prefixes.repeated with
      | some r =>
        orElse
          (do
            modify (setPrefixes fun p => { p with repeated := none })
            resolveSlot t slots (repeatSlot r))
          (fun p => { p with repeated := some r })
          sized
      | none => sized
    | .vendor => resolveSlot t slots (vendorSlot t.vendor slots)
    | axis => do
      let i ← slotOn t axis
      resolveSlot t slots i

/-- Descend through the slot with the given number. -/
def resolveSlot (t : Target) : List Node → Nat → Decode Nat
  | [], _ => throw .unknownOpcode
  | n :: _, 0 => resolve t n
  | _ :: ns, i + 1 => resolveSlot t ns i

end

end Decode
end X86
