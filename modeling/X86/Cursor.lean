import X86.Fault
import X86.Source
import X86.Word

/-!
A reading position in a byte source. Reads are little-endian and fail with `Fault.truncated` at
the end of the source; bytes read before the failure stay consumed.
-/

namespace X86

structure Cursor where
  source : Source
  start : Nat
  position : Nat

/-- A read moves the cursor, also when it fails. -/
abbrev Read := EStateM Fault Cursor

namespace Cursor

def ofStart (source : Source) (start : Nat) : Cursor :=
  ⟨source, start, start⟩

def consumed (c : Cursor) : Nat :=
  c.position - c.start

def consumedBytes (c : Cursor) : List UInt8 :=
  c.source.slice c.start c.position

def advance (c : Cursor) : Cursor :=
  { c with position := c.position + 1 }

end Cursor

namespace Read

def byte : Read UInt8 := fun c =>
  match c.source.get? c.position with
  | some b => .ok b c.advance
  | none => .error .truncated c

def bytes : Nat → Read (List UInt8)
  | 0 => pure []
  | n + 1 => do
      let b ← byte
      let bs ← bytes n
      pure (b :: bs)

/-- An unsigned number of `width` bytes. No number is wider than eight bytes. -/
def unsigned (width : Nat) : Read Nat := do
  pure (Word.littleEndian (← bytes (min width 8)))

/-- A two's-complement number of `width` bytes. -/
def signed (width : Nat) : Read Int := do
  pure (Word.signExtend (8 * width) (← unsigned width))

end Read
end X86
