import X86.Text.Line

/-!
AT&T syntax: the source comes first, registers and immediates carry a mark, memory reads
`disp(base,index,scale)`, and with a memory operand the mnemonic gets a size suffix.
-/

namespace X86
namespace Text
namespace Att

def sizeSuffix : Nat → String
  | 8 => "b"
  | 16 => "w"
  | 32 => "l"
  | 64 => "q"
  | 80 => "t"
  | _ => ""

/-- The name of a mnemonic; far branches and returns have names of their own. -/
def baseName (i : Instruction) : String :=
  match i.mnemonic with
  | .RETF => "lret"
  | .JMP | .CALL => if i.isFar then "l" ++ i.mnemonic.name else i.mnemonic.name
  | m => m.name

def suffix (i : Instruction) : String :=
  if !i.isFar && !i.mnemonic.keepsOperandOrder && i.hasMemoryOperand then
    sizeSuffix (i.operands.get 0).size
  else ""

def mnemonic (o : Options) (i : Instruction) : List Piece :=
  [.mnemonic (o.mnemonicCase (baseName i ++ suffix i))]

def register (name : String) : List Piece :=
  [.symbol "%", .register name]

def immediate (s : String) : List Piece :=
  [.symbol "$", .immediate s]

/-- Whether the instruction branches to where a register or memory says. -/
def isIndirectBranch (i : Instruction) : Bool :=
  (i.mnemonic.isJump || i.mnemonic.isCall)
    && ((i.operands.get 0).isRegister || (i.operands.get 0).isMemory)

def segmentPieces (i : Instruction) : List Piece :=
  match i.prefixes.segment with
  | some s => register s.name ++ [.separator ":"]
  | none => []

def basePieces (m : MemoryOperand) : List Piece :=
  match m.base with
  | some r => register r.name
  | none => []

def indexPieces (m : MemoryOperand) : List Piece :=
  match m.index with
  | some r =>
    [.separator ","] ++ register r.name
      ++ (if 1 < m.scale then [.separator ",", .displacement (toString m.scale)] else [])
  | none => []

def memory (o : Options) (i : Instruction) (m : MemoryOperand) : List Piece :=
  segmentPieces i ++ displacementPieces o m false
    ++ (if m.isAbsolute then []
      else [.separator "("] ++ basePieces m ++ indexPieces m ++ [.separator ")"])

def operand (o : Options) (i : Instruction) : Operand → List Piece
  | .absent => []
  | .register r => register r.name
  | .memory m => memory o i m
  | .immediate imm => immediate (hex (immediateValue i imm))
  | .constant n => immediate (hex n)
  | .relative r => targetPieces o r.target
  | .far p =>
    immediate (hex p.segment.toNat) ++ [.separator ",", .space] ++ immediate (hex (farOffset p))

def operands (o : Options) (i : Instruction) : List Piece :=
  let ordered :=
    if i.mnemonic.keepsOperandOrder then i.activeOperands else i.activeOperands.reverse
  (if isIndirectBranch i then [.symbol "*"] else []) ++ commaSeparated (ordered.map (operand o i))

end Att
end Text
end X86
