import X86.EntryFlags
import X86.Lookup.Node
import X86.Mnemonic
import X86.Template

/-!
Instruction tables. A definition names a path, a mnemonic, operand templates and attributes; a table
holds the entries of its definitions and the tree that finds them.
-/

namespace X86
namespace Lookup

/-- An instruction as its definition states it. -/
structure Definition where
  steps : List Step
  mnemonic : Mnemonic
  operands : List Template
  flags : UInt16 := 0
  deriving DecidableEq

/-- What a lookup finds. -/
structure Entry where
  mnemonic : Mnemonic
  operands : Vector Template 4
  flags : EntryFlags
  deriving DecidableEq

namespace Definition

def usesModRM (d : Definition) : Bool :=
  d.operands.any Template.usesModRM || d.steps.any (·.axis.isModRM)

def followsOperandSize (d : Definition) : Bool :=
  d.operands.any Template.followsOperandSize || d.steps.any (·.axis = .operandSize)

def followsAddressSize (d : Definition) : Bool :=
  d.operands.any Template.mayAddressMemory || d.steps.any (·.axis = .addressSize)

/-- The attributes as given, and those that follow from the operands and the path. -/
def entryFlags (d : Definition) : EntryFlags :=
  ⟨d.flags ||| (if d.usesModRM then EntryFlags.modRMBit else 0)
    ||| (if d.followsOperandSize then EntryFlags.operandSizeBit else 0)
    ||| (if d.followsAddressSize then EntryFlags.addressSizeBit else 0)⟩

/-- The entry of a definition. An entry has room for four operands. -/
def entry (d : Definition) : Entry where
  mnemonic := d.mnemonic
  operands := Vector.ofFn fun i => d.operands.getD i .absent
  flags := d.entryFlags

/-- Whether the path contains an opcode byte, without which nothing can be looked up. -/
def hasOpcode (d : Definition) : Bool :=
  d.steps.any (·.axis = .opcode)

end Definition

structure Table where
  root : Node
  entries : Array Entry

namespace Table

/-- The table without entries: the first opcode byte has nowhere to lead. -/
def empty : Table where
  root := .table .opcode (List.replicate 256 .empty)
  entries := #[]

/-- Add a definition. Its entry is kept even if its path leads nowhere. -/
def insert (t : Table) (d : Definition) : Table where
  root := if d.hasOpcode then t.root.insert t.entries.size (Step.inOrder d.steps) else t.root
  entries := t.entries.push d.entry

/-- The number of existing leaves that hide the definition's entry. -/
def clashes (t : Table) (d : Definition) : Nat :=
  if d.hasOpcode then t.root.clashes (Step.inOrder d.steps) else 0

def ofDefinitions (ds : List Definition) : Table :=
  ds.foldl insert empty

/-- The number of lookup tables in the tree. -/
def tableCount (t : Table) : Nat :=
  t.root.tableCount

/-- The line that reports a finished table. -/
def report (t : Table) : String :=
  s!"instruction table built: {t.tableCount} lookup tables, {t.entries.size} entries"

end Table
end Lookup
end X86
