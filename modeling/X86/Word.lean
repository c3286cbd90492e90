import X86.Instances

/-! Fixed-width readings of numbers: sign extension, low bits, little-endian byte lists. -/

namespace X86
namespace Word

/-- The low `bits` of `value` read as a signed number; widths other than 8, 16 and 32 read all
64 bits. -/
def signExtend (bits value : Nat) : Int :=
  match bits with
  | 8 => Int.bmod value (2 ^ 8)
  | 16 => Int.bmod value (2 ^ 16)
  | 32 => Int.bmod value (2 ^ 32)
  | _ => Int.bmod value (2 ^ 64)

/-- The two's-complement pattern of `value` in the given width; widths other than 8, 16 and 32
give 64 bits. -/
def zeroExtend (bits : Nat) (value : Int) : Nat :=
  match bits with
  | 8 => (value % 2 ^ 8).toNat
  | 16 => (value % 2 ^ 16).toNat
  | 32 => (value % 2 ^ 32).toNat
  | _ => (value % 2 ^ 64).toNat

/-- Keep the low `bits` of a number `width` bits wide. Nothing is dropped when `bits` is zero or
not below the width. -/
def keepLow (width bits : Nat) (value : Int) : Int :=
  if bits = 0 ∨ width ≤ bits then value else value % 2 ^ bits

/-- The number whose base-256 digits are the bytes, least significant first. -/
def littleEndian : List UInt8 → Nat
  | [] => 0
  | b :: bs => b.toNat + 256 * littleEndian bs

@[simp] theorem littleEndian_nil : littleEndian [] = 0 := rfl

@[simp] theorem littleEndian_cons (b : UInt8) (bs : List UInt8) :
    littleEndian (b :: bs) = b.toNat + 256 * littleEndian bs := rfl

theorem littleEndian_lt (bs : List UInt8) : littleEndian bs < 256 ^ bs.length := by
  induction bs with
  | nil => simp
  | cons b bs ih =>
    have hb : b.toNat < 256 := b.toNat_lt
    simp only [littleEndian_cons, List.length_cons, Nat.pow_succ]
    omega

end Word
end X86
