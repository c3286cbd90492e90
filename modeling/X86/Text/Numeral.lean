/-! Numbers as text: hexadecimal output, and unsigned numerals with an optional plus sign. -/

namespace X86
namespace Text

/-- Lowercase hexadecimal digits, without leading zeros. -/
def hexDigits (n : Nat) : String :=
  String.ofList (Nat.toDigits 16 n)

/-- Hexadecimal with the usual mark, `0x1f`. -/
def hex (n : Nat) : String :=
  "0x" ++ hexDigits n

/-- Exactly two lowercase hexadecimal digits. -/
def hexByte (b : UInt8) : String :=
  String.ofList [Nat.digitChar (b.toNat / 16), Nat.digitChar (b.toNat % 16)]

def upperHexByte (b : UInt8) : String :=
  String.ofList [(Nat.digitChar (b.toNat / 16)).toUpper, (Nat.digitChar (b.toNat % 16)).toUpper]

def hexBytes (bs : List UInt8) : String :=
  String.join (bs.map hexByte)

/-- At least `width` hexadecimal digits, filled up with zeros on the left. -/
def paddedHex (width n : Nat) : String :=
  let digits := Nat.toDigits 16 n
  String.ofList (List.replicate (width - digits.length) '0' ++ digits)

/-- The value of a digit in bases up to sixteen, either case. -/
def digitValue? (base : Nat) (c : Char) : Option Nat :=
  let value? :=
    if '0' ≤ c ∧ c ≤ '9' then some (c.toNat - '0'.toNat)
    else if 'a' ≤ c ∧ c ≤ 'f' then some (c.toNat - 'a'.toNat + 10)
    else if 'A' ≤ c ∧ c ≤ 'F' then some (c.toNat - 'A'.toNat + 10)
    else none
  value?.filter (· < base)

/-- The number a non-empty list of digits denotes, most significant first. -/
def digitsValue? (base : Nat) : List Char → Option Nat
  | [] => none
  | cs => cs.foldlM (fun n c => (digitValue? base c).map (n * base + ·)) 0

/-- An unsigned numeral below `limit`. One plus sign may stand in front. -/
def unsigned? (base limit : Nat) (cs : List Char) : Option Nat :=
  let digits :=
    match cs with
    | '+' :: rest => rest
    | _ => cs
  (digitsValue? base digits).filter (· < limit)

end Text
end X86
