import X86.Mode
import X86.Register

/-!
Instruction prefixes. `PrefixState` is what a run of prefix bytes amounts to while it is being
read; `Prefixes` is the flag word that a decoded instruction reports.
-/

namespace X86

namespace PrefixFlag

def lock : UInt32 := 0x0100
def rep : UInt32 := 0x0200
def repe : UInt32 := 0x0400
def repne : UInt32 := 0x0800
def operandSize : UInt32 := 0x2000
def addressSize : UInt32 := 0x4000

/-- The bits of all six segment overrides. -/
def anySegment : UInt32 := 0x00FC

/-- The bits of the three repeat prefixes. -/
def anyRepeat : UInt32 := 0x0E00

end PrefixFlag

namespace Segment

/-- The segment a segment-override byte selects. -/
def ofOverride? : UInt8 → Option Segment
  | 0x26 => some es
  | 0x2E => some cs
  | 0x36 => some ss
  | 0x3E => some ds
  | 0x64 => some fs
  | 0x65 => some gs
  | _ => none

def flag : Segment → UInt32
  | es => 0x04
  | cs => 0x08
  | ss => 0x10
  | ds => 0x20
  | fs => 0x40
  | gs => 0x80

end Segment

/-- The REX byte in effect; zero stands for none. -/
structure Rex where
  byte : UInt8 := 0
  deriving DecidableEq

namespace Rex

def present (r : Rex) : Bool :=
  r.byte != 0

def w (r : Rex) : Bool :=
  r.byte.toNat.testBit 3

def r (r : Rex) : Bool :=
  r.byte.toNat.testBit 2

def x (r : Rex) : Bool :=
  r.byte.toNat.testBit 1

def b (r : Rex) : Bool :=
  r.byte.toNat.testBit 0

/-- A three-bit register number with a REX bit on top. -/
def extend (bit : Bool) (n : Fin 8) : Fin 16 :=
  if bit then ⟨n.val + 8, by omega⟩ else ⟨n.val, by omega⟩

end Rex

/-- The prefixes an instruction reports. Mandatory prefixes that selected the opcode are not among
them. -/
structure Prefixes where
  flags : UInt32 := 0
  rex : Rex := {}
  deriving DecidableEq

namespace Prefixes

/-- Whether any of the given bits is set. -/
def has (p : Prefixes) (mask : UInt32) : Bool :=
  p.flags &&& mask != 0

/-- The overriding segment, if exactly one is marked. -/
def segment (p : Prefixes) : Option Segment :=
  Segment.all.find? fun s => p.flags &&& PrefixFlag.anySegment == s.flag

def lock (p : Prefixes) : Bool :=
  p.has PrefixFlag.lock

def rep (p : Prefixes) : Bool :=
  p.has PrefixFlag.rep

def repe (p : Prefixes) : Bool :=
  p.has PrefixFlag.repe

def repne (p : Prefixes) : Bool :=
  p.has PrefixFlag.repne

def operandSize (p : Prefixes) : Bool :=
  p.has PrefixFlag.operandSize

def addressSize (p : Prefixes) : Bool :=
  p.has PrefixFlag.addressSize

end Prefixes

/-- The two repeat prefix bytes. -/
inductive Repeat
  | f2
  | f3
  deriving DecidableEq

/-- What the prefix bytes read so far amount to. The last byte of each group counts, and a REX
byte only while no other prefix follows it. -/
structure PrefixState where
  operandSize : Bool := false
  addressSize : Bool := false
  lock : Bool := false
  segment : Option Segment := none
  repeated : Option Repeat := none
  rex : Rex := {}
  deriving DecidableEq

namespace PrefixState

/-- The state after one more byte, or nothing if the byte is no prefix in this mode. -/
def absorb? (mode : Mode) (p : PrefixState) (b : UInt8) : Option PrefixState :=
  if mode.is64 && 0x40 ≤ b && b ≤ 0x4F then some { p with rex := ⟨b⟩ }
  else if b = 0x66 then some { p with operandSize := true, rex := {} }
  else if b = 0x67 then some { p with addressSize := true, rex := {} }
  else if b = 0xF0 then some { p with lock := true, rex := {} }
  else if b = 0xF2 then some { p with repeated := some .f2, rex := {} }
  else if b = 0xF3 then some { p with repeated := some .f3, rex := {} }
  else (Segment.ofOverride? b).map fun s => { p with segment := some s, rex := {} }

/-- The flag word of the prefixes other than the repeat prefixes, whose name depends on the
instruction. -/
def flags (p : PrefixState) : UInt32 :=
  (if p.operandSize then PrefixFlag.operandSize else 0)
    ||| (if p.addressSize then PrefixFlag.addressSize else 0)
    ||| (if p.lock then PrefixFlag.lock else 0)
    ||| (match p.segment with
      | some s => s.flag
      | none => 0)

end PrefixState
end X86
