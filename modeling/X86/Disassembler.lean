import X86.Decode.Basic

/-!
Disassembly of a whole source: one instruction after the other from a start offset on. A last
instruction that the end of the source cuts short is returned but does not count as decoded.
-/

namespace X86

namespace Disassembler

structure Options where
  target : Target := ⟨.bits32, .any⟩
  /-- The address of the byte at the start offset. -/
  address : UInt64 := 0
  /-- Whether each instruction keeps its bytes. -/
  keepBytes : Bool := false
  start : Nat := 0

end Disassembler

structure Disassembler where
  source : Source
  options : Disassembler.Options
  decoder : Decoder
  position : Nat
  /-- The number of bytes in the complete instructions returned since the last restart. -/
  decoded : Nat
  target_eq : decoder.target = options.target

namespace Disassembler

def atStart (source : Source) (options : Options) : Disassembler where
  source
  options
  decoder := .ofTarget options.target
  position := options.start
  decoded := 0
  target_eq := rfl

/-- A disassembler needs at least one byte from the start offset on. -/
def new (source : Source) (options : Options) : Except Misuse Disassembler :=
  if source.isEmpty then .error .emptySource
  else if source.length ≤ options.start then
    .error (.offsetOutOfRange options.start source.length)
  else .ok (atStart source options)

theorem new_eq_ok_iff {source : Source} {options : Options} {d : Disassembler} :
    new source options = .ok d ↔ options.start < source.length ∧ d = atStart source options := by
  by_cases h : options.start < source.length
  · have hne : source.isEmpty = false := by
      simp only [Source.isEmpty, beq_eq_false_iff_ne]
      omega
    simp [new, hne, Nat.not_le.mpr h, h, eq_comm]
  · by_cases hempty : source.isEmpty = true
    · simp [new, hempty, h]
    · simp [new, hempty, Nat.not_lt.mp h, h]

theorem new_of_lt {source : Source} {options : Options} (h : options.start < source.length) :
    new source options = .ok (atStart source options) :=
  new_eq_ok_iff.mpr ⟨h, rfl⟩

/-- Start over at the start offset. The decoder stays as it is. -/
def reset (d : Disassembler) : Disassembler :=
  { d with position := d.options.start, decoded := 0 }

/-- The address of the byte at the position. -/
def pc (d : Disassembler) : UInt64 :=
  d.options.address + UInt64.ofNat (d.position - d.options.start)

theorem target_next (d : Disassembler) :
    (d.decoder.decode d.source d.position d.pc d.options.keepBytes).2.target = d.options.target :=
  (d.decoder.decode_target ..).trans d.target_eq

/-- The instruction at the position, and the disassembler past it; nothing at the end. -/
def next? (d : Disassembler) : Option (Instruction × Disassembler) :=
  if d.source.length ≤ d.position then none
  else
    let result := d.decoder.decode d.source d.position d.pc d.options.keepBytes
    let i := result.1
    let counted := if i.error = some .truncated then 0 else i.length
    some (i, { d with
      decoder := result.2
      position := d.position + i.length
      decoded := d.decoded + counted
      target_eq := d.target_next })

/-- Up to `n` further instructions, each with the number of bytes decoded by then. -/
def pull : Nat → Disassembler → List (Instruction × Nat) × Disassembler
  | 0, d => ([], d)
  | n + 1, d =>
    match d.next? with
    | none => ([], d)
    | some (i, d') =>
      let (rest, d'') := pull n d'
      ((i, d'.decoded) :: rest, d'')

/-- All instructions from the start offset on. No instruction is empty, so there are at most as many
as there are bytes. -/
def disassemble (d : Disassembler) : List (Instruction × Nat) × Disassembler :=
  d.reset.pull d.source.length

end Disassembler
end X86
