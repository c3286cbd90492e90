/-! Where a byte list stops being UTF-8 text. -/

namespace X86
namespace Text

/-- Why bytes are not text: they end inside a character, or `count` bytes at `index` start none. -/
inductive Utf8Fault
  | incomplete (index : Nat)
  | invalid (count index : Nat)
  deriving DecidableEq

namespace Utf8Fault

def message : Utf8Fault → String
  | incomplete index => s!"incomplete utf-8 byte sequence from index {index}"
  | invalid count index => s!"invalid utf-8 sequence of {count} bytes from index {index}"

end Utf8Fault

/-- For the first byte of a character of several bytes: how many bytes follow, and the range of the
first of these. -/
def followers? (b : UInt8) : Option (Nat × UInt8 × UInt8) :=
  if 0xC2 ≤ b ∧ b ≤ 0xDF then some (1, 0x80, 0xBF)
  else if b = 0xE0 then some (2, 0xA0, 0xBF)
  else if b = 0xED then some (2, 0x80, 0x9F)
  else if 0xE1 ≤ b ∧ b ≤ 0xEF then some (2, 0x80, 0xBF)
  else if b = 0xF0 then some (3, 0x90, 0xBF)
  else if 0xF1 ≤ b ∧ b ≤ 0xF3 then some (3, 0x80, 0xBF)
  else if b = 0xF4 then some (3, 0x80, 0x8F)
  else none

def isContinuation (b : UInt8) : Bool :=
  0x80 ≤ b && b ≤ 0xBF

/-- The first fault in the bytes, which start at the given index; none if they are text. -/
def utf8Fault? (index : Nat) : List UInt8 → Option Utf8Fault
  | [] => none
  | b :: rest =>
    if b < 0x80 then utf8Fault? (index + 1) rest
    else
      match followers? b with
      | none => some (.invalid 1 index)
      | some (n, low, high) =>
        match rest with
        | [] => some (.incomplete index)
        | c :: rest =>
          if c < low ∨ high < c then some (.invalid 1 index)
          else if n = 1 then utf8Fault? (index + 2) rest
          else
            match rest with
            | [] => some (.incomplete index)
            | d :: rest =>
              if !isContinuation d then some (.invalid 2 index)
              else if n = 2 then utf8Fault? (index + 3) rest
              else
                match rest with
                | [] => some (.incomplete index)
                | e :: rest =>
                  if !isContinuation e then some (.invalid 3 index)
                  else utf8Fault? (index + 4) rest

end Text
end X86
