import X86.Cursor
import X86.ModRM
import X86.Opcode
import X86.Prefix

/-!
The state of decoding one instruction, and the steps that every stage is built from. A step that
fails leaves the state as far as it had come, because a failed instruction still reports the bytes
and the opcode that were read.
-/

namespace X86

namespace Decode

/-- What is known of an instruction while it is decoded. -/
structure Scratch where
  /-- The prefixes read, less a mandatory prefix that selected the opcode. -/
  prefixes : PrefixState := {}
  /-- The ModRM byte, once it has been read. -/
  modRM : Option ModRM := none
  opcode : Opcode := {}

structure State extends Scratch where
  cursor : Cursor

end Decode

abbrev Decode := EStateM Fault Decode.State

namespace Decode

/-- Perform a read at the cursor. -/
def read (m : Read α) : Decode α := fun s =>
  match m s.cursor with
  | .ok a c => .ok a { s with cursor := c }
  | .error e c => .error e { s with cursor := c }

def setPrefixes (f : PrefixState → PrefixState) (s : State) : State :=
  { s with prefixes := f s.prefixes }

/-- Run `m`; if it finds no entry, restore what it had changed about the prefixes and go on with
`next`. Bytes that `m` read stay read. -/
def orElse (m : Decode α) (restore : PrefixState → PrefixState) (next : Decode α) : Decode α :=
  fun s =>
    match m s with
    | .error .unknownOpcode s' => next (setPrefixes restore s')
    | result => result

/-- The ModRM byte, which is read at most once. -/
def modRM : Decode ModRM := do
  match (← get).modRM with
  | some m => pure m
  | none =>
    let m := ModRM.ofByte (← read Read.byte)
    modify fun s => { s with modRM := some m }
    pure m

/-- The longest encoding that a processor accepts. -/
def maxLength : Nat := 15

/-- Read prefixes up to the first byte of the opcode, within a budget of bytes. -/
def scanPrefixes (mode : Mode) : (budget : Nat) → Decode UInt8
  | 0 => throw .tooLong
  | budget + 1 => do
    let b ← read Read.byte
    match PrefixState.absorb? mode (← get).prefixes b with
    | some p => do
      modify (setPrefixes fun _ => p)
      scanPrefixes mode budget
    | none => pure b

end Decode
end X86
