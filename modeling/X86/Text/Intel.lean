import X86.Text.Line

/-!
Intel syntax: the destination comes first, memory reads `[base+index*scale+disp]`, and a size
keyword stands only where the other operands do not imply the size.
-/

namespace X86
namespace Text
namespace Intel

def mnemonic (o : Options) (i : Instruction) : List Piece :=
  [.mnemonic (o.mnemonicCase i.mnemonic.name)]

/-- Whether the operand in slot `n` needs a size keyword. -/
def needsKeyword (i : Instruction) (n : Nat) : Bool :=
  let op := i.operands.get
  match n with
  | 0 =>
    (op 0).isMemory &&
      ((op 1).isAbsent || (op 1).isImmediate
        || ((op 0).size != (op 1).size && !(op 1).isRegister)
        || (op 1 = .register .cl && i.mnemonic.isShiftOrRotate))
  | 1 =>
    (op 1).isMemory && (op 0).size != (op 1).size
      && !((op 0).register?.any Register.isSegment)
  | 2 => (op 2).isMemory && (op 2).size != (op 1).size
  | _ => false

/-- The keyword of a size, and `far` before that of a far branch. -/
def keyword (i : Instruction) (size : Nat) : List Piece :=
  (if i.isFar then [.text "far", .space] else [])
  ++ (match size with
    | 8 => [.text "byte", .space]
    | 16 => [.text "word", .space]
    | 32 => [.text "dword", .space]
    | 64 => [.text "qword", .space]
    | 80 => [.text "tword", .space]
    | 128 => [.text "oword", .space]
    | _ => [])

def basePieces (m : MemoryOperand) : List Piece :=
  match m.base with
  | some r => [.register r.name]
  | none => []

def indexPieces (m : MemoryOperand) : List Piece :=
  match m.index with
  | some r =>
    (if m.base.isSome then [.symbol "+"] else []) ++ [.register r.name]
      ++ (if 1 < m.scale then [.symbol "*", .displacement (toString m.scale)] else [])
  | none => []

def segmentPieces (i : Instruction) : List Piece :=
  match i.prefixes.segment with
  | some s => [.register s.name, .separator ":"]
  | none => []

def memory (o : Options) (i : Instruction) (m : MemoryOperand) : List Piece :=
  [.separator "["] ++ segmentPieces i ++ basePieces m ++ indexPieces m
    ++ displacementPieces o m true ++ [.separator "]"]

def operand (o : Options) (i : Instruction) (sized : Bool) : Operand → List Piece
  | .absent => []
  | .register r => [.register r.name]
  | .memory m => (if sized then keyword i m.size else []) ++ memory o i m
  | .immediate imm => [.immediate (hex (immediateValue i imm))]
  | .constant n => (if sized then keyword i 8 else []) ++ [.immediate (toString n)]
  | .relative r => targetPieces o r.target
  | .far p =>
    [.text (if p.size = 16 then "word" else "dword"), .space,
      .immediate (hex p.segment.toNat), .separator ":", .immediate (hex (farOffset p))]

def operands (o : Options) (i : Instruction) : List Piece :=
  commaSeparated (i.activeOperands.zipIdx.map fun (op, n) => operand o i (needsKeyword i n) op)

end Intel
end Text
end X86
