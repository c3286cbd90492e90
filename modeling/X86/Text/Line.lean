import X86.Instruction
import X86.Text.Numeral
import X86.Text.Options
import X86.Text.Token

/-!
The parts of a line that both syntaxes share: the address and byte columns, the words for prefixes,
immediates, displacements and branch targets.
-/

namespace X86
namespace Text

/-- The address column: eight digits, or sixteen in 64-bit mode, and a blank. -/
def addressColumn (i : Instruction) : Piece :=
  .text (paddedHex (if i.mode.is64 then 16 else 8) i.offset.toNat ++ " ")

/-- The byte column: the kept bytes, filled up to sixteen places, and a blank. -/
def binaryColumn (i : Instruction) : List Piece :=
  match i.bytes with
  | none => []
  | some bs =>
    let digits := hexBytes bs
    let fill := String.ofList (List.replicate (16 - digits.length) ' ')
    [.text (digits ++ fill ++ " ")]

def columns (o : Options) (i : Instruction) : List Piece :=
  (if o.address then [addressColumn i] else []) ++ (if o.binary then binaryColumn i else [])

/-- A prefix word and the blank after it. -/
def prefixPieces (s : String) : List Piece :=
  [.prefixWord s, .space]

/-- Words for size prefixes that the instruction has no use for. -/
def sizeWords (i : Instruction) : List Piece :=
  (if i.prefixes.operandSize && !i.flags.usesOperandSize then
    prefixPieces (if i.mode = .bits16 then "o32" else "o16") else [])
  ++ (if i.prefixes.addressSize && !i.flags.usesAddressSize then
    prefixPieces (if i.mode = .bits32 then "a16" else "a32") else [])

/-- A segment override stands on its own if no memory operand takes it. -/
def segmentWord (i : Instruction) : List Piece :=
  match i.prefixes.segment with
  | some s => if i.hasMemoryOperand then [] else prefixPieces s.name
  | none => []

def lockWord (i : Instruction) : List Piece :=
  if i.prefixes.lock then prefixPieces "lock" else []

def repeatWord (i : Instruction) : List Piece :=
  if i.prefixes.rep then prefixPieces "rep"
  else if i.prefixes.repe then prefixPieces "repe"
  else if i.prefixes.repne then prefixPieces "repne"
  else []

/-- The words before the mnemonic, each followed by a blank. -/
def prefixWords (i : Instruction) : List Piece :=
  sizeWords i ++ segmentWord i ++ lockWord i ++ repeatWord i

/-- An immediate as it is executed: if it is widened with its sign, then to the operand size. -/
def immediateValue (i : Instruction) (imm : Immediate) : Nat :=
  if imm.signExtended ∧ imm.size ≠ i.operandSize then
    let wide := Word.zeroExtend 64 (Word.signExtend imm.size imm.value)
    (Word.keepLow 64 i.operandSize wide).toNat
  else imm.value

/-- A displacement. A bare address is written without sign or by its name; added to a register, a
displacement is written with its sign, the plus only if asked for. -/
def displacementPieces (o : Options) (m : MemoryOperand) (plus : Bool) : List Piece :=
  if m.displacementSize = 0 then []
  else if m.isAbsolute then
    match o.resolve (UInt64.ofNat m.unsignedDisplacement) with
    | some name => [.operand name]
    | none => [.displacement (hex m.unsignedDisplacement)]
  else if m.displacement < 0 then
    [.symbol "-", .displacement (hex m.displacement.natAbs)]
  else if 0 < m.displacement then
    (if plus then [.symbol "+"] else []) ++ [.displacement (hex m.displacement.natAbs)]
  else []

/-- A branch target, by its name if it has one. -/
def targetPieces (o : Options) (target : UInt64) : List Piece :=
  match o.resolve target with
  | some name => [.operand name]
  | none => [.pointer (hex target.toNat)]

/-- The offset of a far pointer at its width. -/
def farOffset (p : FarPointer) : Nat :=
  if p.size = 16 then p.offset.toNat % 2 ^ 16 else p.offset.toNat

/-- Put a comma and a blank between the operands. -/
def commaSeparated : List (List Piece) → List Piece
  | [] => []
  | [ps] => ps
  | ps :: rest => ps ++ [.separator ",", .space] ++ commaSeparated rest

end Text
end X86
