import X86.Opcodes.FloatingPoint
import X86.Opcodes.OneByte
import X86.Opcodes.ThreeByte
import X86.Opcodes.TwoByte

/-! All instruction definitions, and the table that decoding looks them up in. -/

namespace X86

/-- Every supported instruction. -/
def definitions : List Lookup.Definition :=
  Opcodes.oneByte ++ Opcodes.floatingPoint ++ Opcodes.twoByte ++ Opcodes.vector ++ Opcodes.threeByte

/-- The table of every supported instruction. -/
def instructionTable : Lookup.Table :=
  Lookup.Table.ofDefinitions definitions

end X86
