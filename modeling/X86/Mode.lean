import X86.Fault

/-! Processor modes, the vendor filter, and the widths that the size overrides select. -/

namespace X86

/-- The processor mode that code is decoded for. -/
inductive Mode
  | bits16
  | bits32
  | bits64
  deriving DecidableEq

namespace Mode

def bits : Mode → Nat
  | bits16 => 16
  | bits32 => 32
  | bits64 => 64

def is64 : Mode → Bool
  | bits64 => true
  | _ => false

def ofBits : Nat → Except Misuse Mode
  | 16 => .ok bits16
  | 32 => .ok bits32
  | 64 => .ok bits64
  | n => .error (.invalidMode n)

def describe (m : Mode) : String :=
  s!"{m.bits}-bit"

@[simp] theorem ofBits_bits (m : Mode) : ofBits m.bits = .ok m := by
  cases m <;> rfl

/-- The operand size in bits under REX.W and the 66 override, before any 64-bit default. -/
def operandSize : Mode → (wide override : Bool) → Nat
  | bits64, true, _ => 64
  | bits64, false, override => if override then 16 else 32
  | bits32, _, override => if override then 16 else 32
  | bits16, _, override => if override then 32 else 16

/-- The address size in bits under the 67 override. -/
def addressSize : Mode → (override : Bool) → Nat
  | bits64, override => if override then 32 else 64
  | bits32, override => if override then 16 else 32
  | bits16, override => if override then 32 else 16

end Mode

/-- Which vendor-specific instructions may be recognised. -/
inductive Vendor
  | any
  | amd
  | intel
  deriving DecidableEq

/-- What code is decoded for. -/
structure Target where
  mode : Mode
  vendor : Vendor
  deriving DecidableEq

end X86
