/-!
The instances behind the literals, the sums and the powers of the development. Fixing them at the
bottom of the import graph makes a term mean the same whatever library a module imports besides.
-/

namespace X86

-- Above the priority that an algebraic hierarchy gives its own zeros and powers.
instance (priority := 20000) zeroNat : Zero Nat := ⟨0⟩

@[default_instance 20000]
instance (priority := 20000) powNat {α : Type u} [NatPow α] : Pow α Nat := instPowNat

instance (priority := 20000) powUInt64 : Pow UInt64 Nat := instPowUInt64Nat

-- The ranges of the bit fields and of the selectors, whose literals need an inhabited range.
instance neZero_two : NeZero 2 := ⟨by decide⟩
instance neZero_three : NeZero 3 := ⟨by decide⟩
instance neZero_four : NeZero 4 := ⟨by decide⟩
instance neZero_eight : NeZero 8 := ⟨by decide⟩
instance neZero_sixteen : NeZero 16 := ⟨by decide⟩

end X86
