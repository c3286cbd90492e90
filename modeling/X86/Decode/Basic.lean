import X86.Decode.OperandField
import X86.Decode.Resolve
import X86.Instruction
import X86.Lookup.Table
import X86.Opcodes.Shared

/-!
Decoding one instruction: prefixes, opcode resolution, operands, and the settling of branch targets,
repeat prefixes and the two readings of opcode 90.
-/

namespace X86
namespace Decode

open Lookup (Entry Table)

/-- The operand size of an instruction. In 64-bit mode REX.W wins over 66, and 66 over a 64-bit
default. -/
def operandSizeOf (mode : Mode) (p : PrefixState) (flags : EntryFlags) : Nat :=
  if mode = .bits64 ∧ !p.rex.w ∧ !p.operandSize ∧ flags.default64 then 64
  else mode.operandSize p.rex.w p.operandSize

/-- An address cut to a width in bits. -/
def truncate (address : UInt64) (size : Nat) : UInt64 :=
  match size with
  | 8 => address % 2 ^ (8 : Nat)
  | 16 => address % 2 ^ (16 : Nat)
  | 32 => address % 2 ^ (32 : Nat)
  | _ => address

/-- Where a relative operand leads, counted from the end of the instruction. -/
def settleTarget (finish : UInt64) : Operand → Operand
  | .relative r =>
    .relative { r with target := truncate (finish + UInt64.ofInt r.displacement) r.size }
  | o => o

/-- The flag of a repeat prefix that was not consumed as a mandatory one. -/
def repeatFlag (flags : EntryFlags) : Option Repeat → UInt32
  | some .f3 => if flags.isString then PrefixFlag.rep else PrefixFlag.repe
  | some .f2 => PrefixFlag.repne
  | none => 0

/-- The prefixes that an instruction with the given attributes reports. -/
def reportedPrefixes (flags : EntryFlags) (p : PrefixState) : Prefixes :=
  ⟨p.flags ||| repeatFlag flags p.repeated, p.rex⟩

/-- Whether an exchange is the one-byte exchange of the accumulator with itself. In its 64-bit form
and in its two-byte form that exchange does something. -/
def isIdleExchange (mnemonic : Mnemonic) (opcode : Opcode) (operands : Vector Operand 4) : Bool :=
  mnemonic = .XCHG ∧ opcode = Opcode.ofByte 0x90 ∧
    ((operands[0] = .register .ax ∧ operands[1] = .register .ax) ∨
      (operands[0] = .register .eax ∧ operands[1] = .register .eax))

/-- The idle exchange reads `nop`, without operands. -/
def foldNop (i : Instruction) : Instruction :=
  if isIdleExchange i.mnemonic i.opcode i.operands then
    { i with mnemonic := .NOP, operands := noOperands }
  else i

/-- A repeated `nop` reads `pause`. -/
def foldPause (i : Instruction) : Instruction :=
  if i.mnemonic = .NOP ∧ i.prefixes.repe then
    { i with
      mnemonic := .PAUSE
      prefixes := { i.prefixes with flags := i.prefixes.flags &&& ~~~PrefixFlag.repe } }
  else i

def operands (f : Frame) (templates : Vector Template 4) : Decode (Vector Operand 4) := do
  let first ← f.operand templates[0]
  let second ← f.operand templates[1]
  let third ← f.operand templates[2]
  let fourth ← f.operand templates[3]
  pure #v[first, second, third, fourth]

/-- The entry that the prefixes and opcode bytes select. -/
def entry (table : Table) (t : Target) : Decode Entry := do
  let first ← scanPrefixes t.mode maxLength
  modify fun s => { s with opcode := Opcode.ofByte first }
  let number ← resolve t (table.root.child first.toNat)
  match table.entries[number]? with
  | some entry => pure entry
  | none => throw .unknownOpcode

/-- Read the operands of an entry and put the instruction together. -/
def complete (t : Target) (pc : UInt64) (entry : Entry) : Decode Instruction := do
  if t.mode.is64 && entry.flags.invalid64 then throw .invalidIn64BitMode
  let s ← get
  let f : Frame := {
    mode := t.mode
    operandSize := operandSizeOf t.mode s.prefixes entry.flags
    addressSize := t.mode.addressSize s.prefixes.addressSize
    rex := s.prefixes.rex
    opcode := s.opcode }
  if entry.flags.hasModRM then discard modRM
  let operands ← operands f entry.operands
  let length := (← get).cursor.consumed
  let finish := pc + UInt64.ofNat length
  pure <| foldPause <| foldNop {
    mnemonic := entry.mnemonic
    opcode := s.opcode
    offset := pc
    length
    mode := t.mode
    operandSize := f.operandSize
    addressSize := f.addressSize
    prefixes := reportedPrefixes entry.flags s.prefixes
    operands := operands.map (settleTarget finish)
    isFar := entry.flags.isFar
    isNear := entry.flags.isNear
    flags := entry.flags }

/-- Decode one instruction at the cursor, located at address `pc`. -/
def instruction (table : Table) (t : Target) (pc : UInt64) : Decode Instruction := do
  let e ← entry table t
  let i ← complete t pc e
  if maxLength < (← get).cursor.consumed then throw .tooLong
  pure i

/-- The record of a failed decode. -/
def failure (t : Target) (pc : UInt64) (fault : Fault) (s : State) : Instruction where
  opcode := s.opcode
  offset := pc
  length := max s.cursor.consumed 1
  mode := t.mode
  error := some fault

/-- The outcome of a decode that begins in a state: the instruction, and the state where it stops. -/
def conclude (table : Table) (t : Target) (pc : UInt64) (s : State) : Instruction × State :=
  match instruction table t pc s with
  | .ok i s => (i, s)
  | .error fault s => (failure t pc fault s, s)

/-- The outcome of a decode: the instruction, and the cursor where reading stopped. -/
def run (table : Table) (t : Target) (source : Source) (offset : Nat) (pc : UInt64) :
    Instruction × Cursor :=
  let (i, s) := conclude table t pc { cursor := .ofStart source offset }
  (i, s.cursor)

end Decode

/-- A decoder for a target. What it knew of the last instruction stays behind in it. -/
structure Decoder where
  target : Target
  scratch : Decode.Scratch := {}

namespace Decoder

def ofTarget (t : Target) : Decoder where
  target := t

/-- Decode the instruction at `offset` in the source, located at address `pc`. There is always an
instruction of at least one byte; a failure is recorded on it. -/
def decode (d : Decoder) (source : Source) (offset : Nat) (pc : UInt64) (keep : Bool) :
    Instruction × Decoder :=
  let d : Decoder := { d with scratch := {} }
  let (i, s) := Decode.conclude instructionTable d.target pc
    { d.scratch with cursor := .ofStart source offset }
  (if keep then { i with bytes := some s.cursor.consumedBytes } else i,
    { d with scratch := s.toScratch })

end Decoder

/-- What a new decoder makes of the instruction at `offset`. -/
def decodeAt (t : Target) (source : Source) (offset : Nat) (pc : UInt64) (keep : Bool) :
    Instruction :=
  ((Decoder.ofTarget t).decode source offset pc keep).1

namespace Decoder

theorem decode_target (d : Decoder) (source : Source) (offset : Nat) (pc : UInt64) (keep : Bool) :
    (d.decode source offset pc keep).2.target = d.target :=
  rfl

/-- Nothing that earlier decodes have left behind shows in a decode. -/
theorem decode_eq_ofTarget (d : Decoder) (source : Source) (offset : Nat) (pc : UInt64) (keep : Bool) :
    d.decode source offset pc keep = (ofTarget d.target).decode source offset pc keep :=
  rfl

end Decoder

/-- Decode the instruction at the start of a byte list, and keep its bytes. -/
def decode (t : Target) (bytes : Array UInt8) (pc : UInt64) : Instruction :=
  decodeAt t (.ofArray bytes) 0 pc true

/-- The line that reports a failed decode at `offset`. -/
def failureReport? (t : Target) (source : Source) (offset : Nat) (pc : UInt64) : Option String :=
  let (i, cursor) := Decode.run instructionTable t source offset pc
  i.error.map fun fault =>
    s!"decode failed at {Text.hex pc.toNat} after {cursor.consumed} byte(s): {fault.message}"

end X86
