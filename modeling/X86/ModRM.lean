import X86.Instances

/-! The ModRM and SIB bytes. -/

namespace X86

structure ModRM where
  mod : Fin 4
  reg : Fin 8
  rm : Fin 8
  deriving DecidableEq

namespace ModRM

def ofByte (b : UInt8) : ModRM where
  mod := Fin.ofNat 4 (b.toNat / 64)
  reg := Fin.ofNat 8 (b.toNat / 8)
  rm := Fin.ofNat 8 b.toNat

/-- Whether the r/m field names a register rather than memory. -/
def isRegister (m : ModRM) : Bool :=
  m.mod == 3

/-- Whether a SIB byte follows. -/
def hasSib (m : ModRM) (addressSize : Nat) : Bool :=
  addressSize != 16 && !m.isRegister && m.rm == 4

/-- The number of displacement bytes under 16-bit addressing. -/
def displacement16 (m : ModRM) : Nat :=
  match m.mod with
  | 0 => if m.rm = 6 then 2 else 0
  | 1 => 1
  | 2 => 2
  | 3 => 0

/-- The number of displacement bytes under wider addressing, apart from those that a SIB byte asks
for. -/
def displacement32 (m : ModRM) : Nat :=
  match m.mod with
  | 0 => if m.rm = 5 then 4 else 0
  | 1 => 1
  | 2 => 4
  | 3 => 0

end ModRM

structure Sib where
  scale : Nat
  index : Fin 8
  base : Fin 8
  deriving DecidableEq

def Sib.ofByte (b : UInt8) : Sib where
  scale := 2 ^ (b.toNat / 64)
  index := Fin.ofNat 8 (b.toNat / 8)
  base := Fin.ofNat 8 b.toNat

end X86
