/-! Attributes of a table entry. -/

namespace X86

/-- The attribute word of a table entry. -/
structure EntryFlags where
  bits : UInt16 := 0
  deriving DecidableEq

namespace EntryFlags

/-- The operand size is 64 by default in 64-bit mode. -/
def default64Bit : UInt16 := 0x01

/-- The instruction does not exist in 64-bit mode. -/
def invalid64Bit : UInt16 := 0x02

/-- The operand-size prefix matters to the instruction. -/
def operandSizeBit : UInt16 := 0x04

/-- The address-size prefix matters to the instruction. -/
def addressSizeBit : UInt16 := 0x08

/-- A string move: its F3 prefix reads `rep`, not `repe`. -/
def stringBit : UInt16 := 0x10

def farBit : UInt16 := 0x20
def nearBit : UInt16 := 0x40
def modRMBit : UInt16 := 0x80

def default64 (f : EntryFlags) : Bool :=
  f.bits &&& default64Bit != 0

def invalid64 (f : EntryFlags) : Bool :=
  f.bits &&& invalid64Bit != 0

def usesOperandSize (f : EntryFlags) : Bool :=
  f.bits &&& operandSizeBit != 0

def usesAddressSize (f : EntryFlags) : Bool :=
  f.bits &&& addressSizeBit != 0

def isString (f : EntryFlags) : Bool :=
  f.bits &&& stringBit != 0

def isFar (f : EntryFlags) : Bool :=
  f.bits &&& farBit != 0

def isNear (f : EntryFlags) : Bool :=
  f.bits &&& nearBit != 0

def hasModRM (f : EntryFlags) : Bool :=
  f.bits &&& modRMBit != 0

end EntryFlags
end X86
