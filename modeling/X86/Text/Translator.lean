import X86.Text.Att
import X86.Text.Intel

/-! Whole lines in either syntax. -/

namespace X86
namespace Text

inductive Dialect
  | intel
  | att
  deriving DecidableEq

/-- A syntax together with the choices left open in it. -/
structure Translator where
  dialect : Dialect := .intel
  options : Options := {}

namespace Translator

def mnemonic (t : Translator) (i : Instruction) : List Piece :=
  match t.dialect with
  | .intel => Intel.mnemonic t.options i
  | .att => Att.mnemonic t.options i

def operands (t : Translator) (i : Instruction) : List Piece :=
  match t.dialect with
  | .intel => Intel.operands t.options i
  | .att => Att.operands t.options i

/-- The prefix words, the mnemonic and the operands. -/
def body (t : Translator) (i : Instruction) : List Piece :=
  prefixWords i ++ t.mnemonic i
    ++ (if i.operandCount = 0 then [] else .space :: t.operands i)

/-- A line: the columns asked for, then the instruction or the mark of one that is invalid. -/
def pieces (t : Translator) (i : Instruction) : List Piece :=
  columns t.options i
    ++ (if i.isError || i.mnemonic = .INVALID then [.invalid] else t.body i)

/-- An instruction as text. -/
def translate (t : Translator) (i : Instruction) : String :=
  flatten (t.pieces i)

/-- Instructions as text, one per line. -/
def translateAll (t : Translator) (is : List Instruction) : String :=
  String.intercalate "\n" (is.map t.translate)

end Translator
end Text
end X86
