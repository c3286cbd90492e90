import X86.Text.Numeral

/-! The opcode record: which map the final opcode byte belongs to, and that byte. -/

namespace X86

/-- The opcode maps, named by the escape bytes that lead to them. -/
inductive OpcodeMap
  | primary
  | ext0F
  | ext0F38
  | ext0F3A
  deriving DecidableEq

def OpcodeMap.escape : OpcodeMap → List UInt8
  | .primary => []
  | .ext0F => [0x0F]
  | .ext0F38 => [0x0F, 0x38]
  | .ext0F3A => [0x0F, 0x3A]

structure Opcode where
  map : OpcodeMap := .primary
  byte : UInt8 := 0
  deriving DecidableEq

namespace Opcode

def ofByte (b : UInt8) : Opcode :=
  ⟨.primary, b⟩

/-- Fold in the next opcode byte. An escape byte moves on to its map; any other byte replaces the
final one. -/
def advance (o : Opcode) (b : UInt8) : Opcode :=
  match o.map with
  | .primary =>
      if o.byte = 0x0F then
        ⟨if b = 0x38 then .ext0F38 else if b = 0x3A then .ext0F3A else .ext0F, b⟩
      else ⟨.primary, b⟩
  | m => ⟨m, b⟩

/-- The bytes that spell the opcode. -/
def bytes (o : Opcode) : List UInt8 :=
  o.map.escape ++ [o.byte]

/-- The opcode bytes in uppercase hex, separated by blanks. -/
def describe (o : Opcode) : String :=
  String.intercalate " " (o.bytes.map Text.upperHexByte)

end Opcode
end X86
