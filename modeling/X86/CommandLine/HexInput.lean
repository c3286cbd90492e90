import X86.Text.Numeral
import X86.Text.Utf8

/-! Machine code written as hexadecimal text. Blanks may stand anywhere, also inside a byte. -/

namespace X86
namespace CommandLine

/-- Why text is not machine code. -/
inductive InputFault
  /-- The input is not UTF-8 text at all. -/
  | notText
  | oddDigits (count : Nat)
  /-- A pair of bytes cuts a character in two. -/
  | splitCharacter (fault : Text.Utf8Fault)
  | badPair (first second : UInt8)
  deriving DecidableEq

namespace InputFault

def message : InputFault → String
  | notText => "Failed to read stdin"
  | oddDigits count => s!"Odd number of hex digits ({count})"
  | splitCharacter _ => "Input is not valid text"
  | badPair first second =>
    "Invalid hex byte '" ++ (String.fromUTF8? ⟨#[first, second]⟩).getD "" ++ "'"

/-- What lies behind a fault, where there is something. -/
def cause? : InputFault → Option String
  | notText => some "stream did not contain valid UTF-8"
  | oddDigits _ => none
  | splitCharacter fault => some fault.message
  | badPair _ _ => some "invalid digit found in string"

end InputFault

/-- The blanks of ASCII: space, tab, line feed, form feed and carriage return. -/
def isInputBlank (b : UInt8) : Bool :=
  b == 0x20 || b == 0x09 || b == 0x0A || b == 0x0C || b == 0x0D

/-- The byte that two characters denote. A plus sign may take the place of the first digit. -/
def pairByte (first second : UInt8) : Except InputFault UInt8 :=
  match Text.utf8Fault? 0 [first, second] with
  | some fault => .error (.splitCharacter fault)
  | none =>
    match Text.unsigned? 16 256 [Char.ofNat first.toNat, Char.ofNat second.toNat] with
    | some n => .ok (UInt8.ofNat n)
    | none => .error (.badPair first second)

/-- The bytes that pairs of characters denote, up to the first fault. -/
def pairBytes : List UInt8 → Except InputFault (List UInt8)
  | first :: second :: rest => do
    let b ← pairByte first second
    let bs ← pairBytes rest
    pure (b :: bs)
  | _ => .ok []

/-- Machine code from text: blanks are dropped, then each pair of characters is a byte. -/
def parseHexBytes (input : List UInt8) : Except InputFault (List UInt8) :=
  let digits := input.filter (!isInputBlank ·)
  if digits.length % 2 ≠ 0 then .error (.oddDigits digits.length) else pairBytes digits

/-- Machine code from the bytes of an input that should be text. -/
def readInput (input : List UInt8) : Except InputFault (List UInt8) :=
  match Text.utf8Fault? 0 input with
  | some _ => .error .notText
  | none => parseHexBytes input

end CommandLine
end X86
