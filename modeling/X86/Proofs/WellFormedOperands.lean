import X86.Proofs.Layout

/-!
Decoded instructions are well formed. What an operand may be depends on the mode, the operand size
and the address size; each template gives such an operand only, whatever the bytes are, except for
registers of 64 bits, which are left to definitions that cannot be found outside 64-bit mode.
-/

namespace X86

namespace Register

def isLegacy : Register → Bool
  | low8 n => n.val < 4
  | gpr16 n | gpr32 n | control n | debug n | xmm n => n.val < 8
  | high8 _ | segment _ | x87 _ | mmx _ | ip => true
  | gpr64 _ | eip | rip => false

def isStackPointer : Register → Bool
  | gpr16 n | gpr32 n | gpr64 n => n.val = 4
  | _ => false

theorem isLegacy_gpr {size : Nat} (hsize : size ∈ [8, 16, 32]) {n : Fin 16} (hn : n.val < 8) :
    (gpr size n false).isLegacy = true := by
  simp only [List.mem_cons, List.not_mem_nil, or_false] at hsize
  rcases hsize with rfl | rfl | rfl
  · simp only [gpr, Bool.false_eq_true, ↓reduceIte]
    split
    · next h => simp [isLegacy, Nat.mod_eq_of_lt hn] at h ⊢; omega
    · rfl
  · simpa [gpr, isLegacy] using hn
  · simpa [gpr, isLegacy] using hn

theorem size_gpr {size : Nat} (h : size ∈ [16, 32, 64]) (n : Fin 16) (rex : Bool) :
    (gpr size n rex).size = size := by
  simp only [List.mem_cons, List.not_mem_nil, or_false] at h
  rcases h with rfl | rfl | rfl
  · rfl
  · rfl
  · rfl

theorem isStackPointer_gpr {size : Nat} (h : size ∈ [16, 32, 64]) {n : Fin 16} (hn : n ≠ 4)
    (rex : Bool) : (gpr size n rex).isStackPointer = false := by
  have hval : n.val ≠ 4 := fun he => hn (Fin.ext he)
  simp only [List.mem_cons, List.not_mem_nil, or_false] at h
  rcases h with rfl | rfl | rfl
  · simpa [gpr, isStackPointer] using hval
  · simpa [gpr, isStackPointer] using hval
  · simpa [gpr, isStackPointer] using hval

end Register

theorem Mode.is64_eq_false {mode : Mode} (h : mode ≠ .bits64) : mode.is64 = false := by
  cases mode with
  | bits16 | bits32 => rfl
  | bits64 => exact absurd rfl h

theorem Rex.extend_false_lt (n : Fin 8) : (Rex.extend false n).val < 8 := by
  simp [Rex.extend]

namespace Word

/-- The number lies in the signed range of the given number of bits; no bits leave zero. -/
def InRange (bits : Nat) (v : Int) : Prop :=
  if bits = 0 then v = 0 else -(2 ^ (bits - 1)) ≤ v ∧ v < 2 ^ (bits - 1)

theorem inRange_bmod {bits : Nat} (h : 0 < bits) (n : Int) : InRange bits (n.bmod (2 ^ bits)) := by
  obtain ⟨k, rfl⟩ : ∃ k, bits = k + 1 := ⟨bits - 1, by omega⟩
  have hpos : 0 < 2 ^ k := Nat.two_pow_pos k
  have hlow := @Int.le_bmod n (2 ^ (k + 1)) (by omega)
  have hhigh := @Int.bmod_lt n (2 ^ (k + 1)) (by omega)
  have hcast : ((2 ^ k : Nat) : Int) = 2 ^ k := by simp
  rw [InRange, if_neg (by omega), Nat.add_sub_cancel, ← hcast]
  omega

theorem inRange_signExtend {width : Nat} (h : width ∈ [1, 2, 4, 8]) (n : Nat) :
    InRange (8 * width) (signExtend (8 * width) n) := by
  have hpow : 256 ^ width = 2 ^ (8 * width) := by rw [Nat.pow_mul]
  have hpos : 0 < 8 * width := by
    simp only [List.mem_cons, List.not_mem_nil, or_false] at h
    omega
  rw [signExtend_eq_bmod h, hpow]
  exact inRange_bmod hpos n

end Word

namespace MemoryOperand

/-- The registers of an address are as wide as addresses are, and the scale goes with the index. -/
structure Addresses (m : MemoryOperand) (mode : Mode) (addressSize : Nat) : Prop where
  base : ∀ r ∈ m.base, r.size = addressSize
  index : ∀ r ∈ m.index, r.size = addressSize ∧ r.isStackPointer = false
  scale : if m.index.isSome then m.scale ∈ [1, 2, 4, 8] else m.scale = 0
  legacy : mode ≠ .bits64 → ∀ r, r ∈ m.base ∨ r ∈ m.index → r.isLegacy = true

/-- An address that can be encoded: a displacement is there if nothing else is. -/
structure IsWellFormed (m : MemoryOperand) (mode : Mode) (addressSize : Nat) : Prop where
  addresses : m.Addresses mode addressSize
  displacement : Word.InRange m.displacementSize m.displacement
  absolute : m.isAbsolute = true → 0 < m.displacementSize

end MemoryOperand

namespace Read

variable {c c' : Cursor} {mode : Mode} {addressSize : Nat}

theorem signed_inRange {w : Nat} {v : Int} (hw : w ∈ [1, 2, 4, 8]) (h : signed w c = .ok v c') :
    Word.InRange (8 * w) v := by
  rw [signed, bind_ok] at h
  obtain ⟨n, c₁, -, h⟩ := h
  obtain ⟨rfl, -⟩ := pure_ok.mp h
  exact Word.inRange_signExtend hw n

/-- A displacement completes an address, which may be bare only if there is one. -/
theorem displaced_isWellFormed {w : Nat} {m m' : MemoryOperand} (hw : w ∈ [0, 1, 2, 4])
    (hm : m.Addresses mode addressSize) (hd : m.displacement = 0) (hs : m.displacementSize = 0)
    (habsolute : m.isAbsolute = true → 0 < w) (h : displaced w m c = .ok m' c') :
    m'.IsWellFormed mode addressSize := by
  unfold displaced at h
  split at h
  · next h0 =>
    obtain ⟨rfl, rfl⟩ := pure_ok.mp h
    refine ⟨hm, ?_, ?_⟩
    · rw [hd, hs]
      rfl
    · intro ha
      have := habsolute ha
      omega
  · next h0 =>
    obtain ⟨v, c₁, hv, h⟩ := bind_ok.mp h
    obtain ⟨rfl, rfl⟩ := pure_ok.mp h
    have hw' : w ∈ [1, 2, 4, 8] := by
      simp only [List.mem_cons, List.not_mem_nil, or_false] at hw ⊢
      omega
    refine ⟨⟨hm.base, hm.index, hm.scale, hm.legacy⟩, signed_inRange hw' hv, ?_⟩
    intro _
    change 0 < 8 * w
    omega

theorem registers16_sound : ∀ rm : Fin 8,
    (ModRM.registers16 rm).1.size = 16 ∧ (ModRM.registers16 rm).1.isLegacy = true ∧
      ∀ r ∈ (ModRM.registers16 rm).2,
        r.size = 16 ∧ r.isStackPointer = false ∧ r.isLegacy = true := by
  decide

theorem memory16_isWellFormed {m : ModRM} {size : Nat} {o : MemoryOperand}
    (h : memory16 m size c = .ok o c') : o.IsWellFormed mode 16 := by
  unfold memory16 at h
  split at h
  · next hbare =>
    refine displaced_isWellFormed (displacement16_mem m) ?_ rfl rfl ?_ h
    · exact ⟨by simp, by simp, rfl, by simp⟩
    · intro _
      simp [ModRM.displacement16, hbare.1, hbare.2]
  · have hsound := registers16_sound m.rm
    refine displaced_isWellFormed (displacement16_mem m) ?_ rfl rfl (by simp [MemoryOperand.isAbsolute]) h
    refine ⟨?_, ?_, ?_, ?_⟩
    · intro r hr
      rw [← Option.some.inj hr]
      exact hsound.1
    · intro r hr
      exact ⟨(hsound.2.2 r hr).1, (hsound.2.2 r hr).2.1⟩
    · dsimp only
      split <;> simp
    · rintro - r (hr | hr)
      · rw [← Option.some.inj hr]
        exact hsound.2.1
      · exact (hsound.2.2 r hr).2.2

end Read

namespace Decode.Frame

/-- The sizes are those of the mode, and REX is there in 64-bit mode only. -/
structure IsSound (f : Frame) : Prop where
  operandSize : f.operandSize ∈ [16, 32, 64]
  operandSize64 : f.operandSize = 64 → f.mode = .bits64
  addressSize : f.addressSize ∈ [16, 32, 64]
  addressSize64 : f.addressSize = 64 → f.mode = .bits64
  addressSize16 : f.addressSize = 16 → f.mode ≠ .bits64
  rex : f.mode ≠ .bits64 → f.rex = {}

variable {f : Frame}

theorem IsSound.addressSize_legacy (h : f.IsSound) (hmode : f.mode ≠ .bits64) :
    f.addressSize ∈ [8, 16, 32] := by
  have hmem := h.addressSize
  have h64 := mt h.addressSize64 hmode
  simp only [List.mem_cons, List.not_mem_nil, or_false] at hmem ⊢
  omega

theorem IsSound.extend_lt (hf : f.IsSound) (hmode : f.mode ≠ .bits64) (g : Rex → Bool)
    (hg : g {} = false) (n : Fin 8) : (Rex.extend (g f.rex) n).val < 8 := by
  rw [hf.rex hmode, hg]
  exact Rex.extend_false_lt n

theorem IsSound.isLegacy_address (h : f.IsSound) (hmode : f.mode ≠ .bits64) (g : Rex → Bool)
    (hg : g {} = false) (n : Fin 8) :
    (Register.gpr f.addressSize (Rex.extend (g f.rex) n) false).isLegacy = true :=
  Register.isLegacy_gpr (h.addressSize_legacy hmode) (h.extend_lt hmode g hg n)

theorem IsSound.addresses (hf : f.IsSound) {m : MemoryOperand}
    (hbase : ∀ r ∈ m.base, ∃ n, r = .gpr f.addressSize (Rex.extend f.rex.b n) false)
    (hindex : ∀ r ∈ m.index, ∃ n, Rex.extend f.rex.x n ≠ 4 ∧
      r = .gpr f.addressSize (Rex.extend f.rex.x n) false)
    (hscale : if m.index.isSome then m.scale ∈ [1, 2, 4, 8] else m.scale = 0) :
    m.Addresses f.mode f.addressSize := by
  refine ⟨?_, ?_, hscale, ?_⟩
  · intro r hr
    obtain ⟨n, rfl⟩ := hbase r hr
    exact Register.size_gpr hf.addressSize _ _
  · intro r hr
    obtain ⟨n, hn, rfl⟩ := hindex r hr
    exact ⟨Register.size_gpr hf.addressSize _ _, Register.isStackPointer_gpr hf.addressSize hn _⟩
  · rintro hmode r (hr | hr)
    · obtain ⟨n, rfl⟩ := hbase r hr
      exact hf.isLegacy_address hmode Rex.b rfl n
    · obtain ⟨n, -, rfl⟩ := hindex r hr
      exact hf.isLegacy_address hmode Rex.x rfl n

theorem exists_of_mem_base (n : Fin 8) :
    ∀ r ∈ some (Register.gpr f.addressSize (Rex.extend f.rex.b n) false),
      ∃ n, r = .gpr f.addressSize (Rex.extend f.rex.b n) false := by
  intro r hr
  exact ⟨n, (Option.some.inj hr).symm⟩

theorem scale_mem (b : UInt8) : (Sib.ofByte b).scale ∈ [1, 2, 4, 8] := by
  have hb : b.toNat < 256 := b.toNat_lt
  have hq : b.toNat / 64 = 0 ∨ b.toNat / 64 = 1 ∨ b.toNat / 64 = 2 ∨ b.toNat / 64 = 3 := by omega
  rw [Sib.ofByte]
  rcases hq with hq | hq | hq | hq <;> simp [hq]

theorem IsSound.memorySib_isWellFormed (hf : f.IsSound) {m : ModRM} {size : Nat} {o : MemoryOperand}
    {c c' : Cursor} (h : Read.memorySib m f.rex f.addressSize size c = .ok o c') :
    o.IsWellFormed f.mode f.addressSize := by
  rw [Read.memorySib, bind_ok] at h
  obtain ⟨b, c₁, -, h⟩ := h
  have hscale := scale_mem b
  generalize Sib.ofByte b = sib at h hscale
  by_cases hnone : Rex.extend f.rex.x sib.index = 4
  · simp only [hnone, ↓reduceIte] at h
    split at h
    · refine Read.displaced_isWellFormed (by decide) ?_ rfl rfl (by simp) h
      exact hf.addresses (by simp) (by simp) rfl
    · refine Read.displaced_isWellFormed (Read.displacement32_mem m) ?_ rfl rfl
        (by simp [MemoryOperand.isAbsolute]) h
      exact hf.addresses (exists_of_mem_base sib.base) (by simp) rfl
  · simp only [hnone, ↓reduceIte] at h
    have hindex : ∀ r ∈ some (Register.gpr f.addressSize (Rex.extend f.rex.x sib.index) false),
        ∃ n, Rex.extend f.rex.x n ≠ 4 ∧ r = .gpr f.addressSize (Rex.extend f.rex.x n) false := by
      intro r hr
      exact ⟨sib.index, hnone, (Option.some.inj hr).symm⟩
    split at h
    · refine Read.displaced_isWellFormed (by decide) ?_ rfl rfl (by simp) h
      exact hf.addresses (by simp) hindex hscale
    · refine Read.displaced_isWellFormed (Read.displacement32_mem m) ?_ rfl rfl
        (by simp [MemoryOperand.isAbsolute]) h
      exact hf.addresses (exists_of_mem_base sib.base) hindex hscale

theorem IsSound.memory_isWellFormed (hf : f.IsSound) {m : ModRM} {size : Nat} {o : MemoryOperand}
    {c c' : Cursor} (h : Read.memory m f.rex f.addressSize f.mode.is64 size c = .ok o c') :
    o.IsWellFormed f.mode f.addressSize := by
  unfold Read.memory at h
  split at h
  · next h16 =>
    rw [h16]
    exact Read.memory16_isWellFormed h
  · next h16 =>
    split at h
    · exact hf.memorySib_isWellFormed h
    · split at h
      · next hbare =>
        refine Read.displaced_isWellFormed (Read.displacement32_mem m) ?_ rfl rfl ?_ h
        · have hmem := hf.addressSize
          simp only [List.mem_cons, List.not_mem_nil, or_false, h16, false_or] at hmem
          cases hmode : f.mode with
          | bits16 | bits32 => exact ⟨by simp [Mode.is64], by simp, rfl, by simp [Mode.is64]⟩
          | bits64 =>
            rcases hmem with h32 | h64
            · rw [h32]
              exact ⟨by simp [Mode.is64, Register.size], by simp, rfl, by simp⟩
            · rw [h64]
              exact ⟨by simp [Mode.is64, Register.size], by simp, rfl, by simp⟩
        · intro _
          simp [ModRM.displacement32, hbare.1, hbare.2]
      · refine Read.displaced_isWellFormed (Read.displacement32_mem m) ?_ rfl rfl
          (by simp [MemoryOperand.isAbsolute]) h
        exact hf.addresses (exists_of_mem_base m.rm) (by simp) rfl

end Decode.Frame

/-- What an operand may be in a mode, under an operand size and an address size. -/
def Operand.IsWellFormed (mode : Mode) (operandSize addressSize : Nat) : Operand → Prop
  | .absent => True
  | .register r => mode ≠ .bits64 → r.isLegacy = true
  | .memory m => m.IsWellFormed mode addressSize
  | .immediate i => i.value < 2 ^ i.size
  | .constant n => n < 2 ^ 8
  | .relative r => r.size = operandSize ∧ r.target.toNat < 2 ^ r.size
  | .far _ => mode ≠ .bits64

def Width.isLegacy : Width → Bool
  | unsized | q | t | dq => false
  | b | w | d | v | z | y | p | native => true

def Template.isLegacy : Template → Bool
  | regMem width | reg width | rmReg width | opcodeReg width => width.isLegacy
  | fixed r => r.isLegacy
  | sized n width => n < 8 && width.isLegacy
  | _ => true

def Template.isAbsent : Template → Bool
  | absent => true
  | _ => false

namespace Decode.Frame

variable {f : Frame} {s s' : State} {o : Operand} {width : Width}

theorem IsSound.bits_legacy (hf : f.IsSound) (hmode : f.mode ≠ .bits64)
    (hw : width.isLegacy = true) : f.bits width ∈ [8, 16, 32] := by
  have hmem := hf.operandSize
  have h64 := mt hf.operandSize64 hmode
  simp only [List.mem_cons, List.not_mem_nil, or_false] at hmem
  rw [bits, Mode.is64_eq_false hmode]
  cases width with
  | unsized | q | t | dq => cases hw
  | b | w | d | native => simp [Width.bits]
  | v | p =>
    simp only [Width.bits, List.mem_cons, List.not_mem_nil, or_false]
    omega
  | z | y =>
    simp only [Width.bits, List.mem_cons, List.not_mem_nil, or_false]
    split <;> omega

theorem IsSound.isLegacy_gpr (hf : f.IsSound) (hmode : f.mode ≠ .bits64)
    (hw : width.isLegacy = true) (g : Rex → Bool) (hg : g {} = false) (n : Fin 8) :
    (f.gpr width (g f.rex) n).isLegacy = true := by
  have hbits := hf.bits_legacy hmode hw
  rw [gpr, hf.rex hmode, hg]
  exact Register.isLegacy_gpr hbits (Rex.extend_false_lt n)

/-- The operand is there, and is one that the frame allows. -/
def Gives (f : Frame) (o : Operand) : Prop :=
  o.IsWellFormed f.mode f.operandSize f.addressSize ∧ o.isAbsent = false

theorem gives_memory (hf : f.IsSound) {m : ModRM} (h : f.memory m width s = .ok o s') :
    f.Gives o := by
  rw [memory, bind_ok] at h
  obtain ⟨mem, s₁, hread, h⟩ := h
  obtain ⟨rfl, -⟩ := pure_ok.mp h
  obtain ⟨c, hc, -⟩ := read_ok.mp hread
  exact ⟨hf.memory_isWellFormed hc, rfl⟩

theorem gives_memoryOnly (hf : f.IsSound) (h : f.memoryOnly width s = .ok o s') : f.Gives o := by
  rw [memoryOnly, bind_ok] at h
  obtain ⟨m, s₁, -, h⟩ := h
  split at h
  · exact absurd h (by simp)
  · exact gives_memory hf h

section register

variable {r : ModRM → Register} (hr : f.mode ≠ .bits64 → ∀ m, (r m).isLegacy = true)

include hr

theorem gives_registerField (h : registerField r s = .ok o s') : f.Gives o := by
  rw [registerField, bind_ok] at h
  obtain ⟨m, s₁, -, h⟩ := h
  obtain ⟨rfl, -⟩ := pure_ok.mp h
  exact ⟨fun hmode => hr hmode m, rfl⟩

theorem gives_registerOnly (h : registerOnly r s = .ok o s') : f.Gives o := by
  rw [registerOnly, bind_ok] at h
  obtain ⟨m, s₁, -, h⟩ := h
  split at h
  · obtain ⟨rfl, -⟩ := pure_ok.mp h
    exact ⟨fun hmode => hr hmode m, rfl⟩
  · exact absurd h (by simp)

theorem gives_registerOrMemory (hf : f.IsSound) (h : f.registerOrMemory width r s = .ok o s') :
    f.Gives o := by
  rw [registerOrMemory, bind_ok] at h
  obtain ⟨m, s₁, -, h⟩ := h
  split at h
  · obtain ⟨rfl, -⟩ := pure_ok.mp h
    exact ⟨fun hmode => hr hmode m, rfl⟩
  · exact gives_memory hf h

end register

theorem gives_segmentRegister (h : segmentRegister s = .ok o s') : f.Gives o := by
  rw [segmentRegister, bind_ok] at h
  obtain ⟨m, s₁, -, h⟩ := h
  cases hseg : Segment.ofNumber? m.reg with
  | some r =>
    rw [hseg] at h
    obtain ⟨rfl, -⟩ := pure_ok.mp h
    exact ⟨fun _ => rfl, rfl⟩
  | none =>
    rw [hseg] at h
    exact absurd h (by simp)

theorem gives_immediate {signExtended : Bool} (hw : f.bits width ≤ 64)
    (h : f.immediate width signExtended s = .ok o s') : f.Gives o := by
  rw [immediate, bind_ok] at h
  obtain ⟨v, s₁, hread, h⟩ := h
  obtain ⟨rfl, -⟩ := pure_ok.mp h
  obtain ⟨c, hc, -⟩ := read_ok.mp hread
  have hlt := (Read.unsigned_ok (by omega) hc).2
  refine ⟨?_, rfl⟩
  calc
    v < 256 ^ (f.bits width / 8) := hlt
    _ = 2 ^ (8 * (f.bits width / 8)) := by rw [Nat.pow_mul]
    _ ≤ 2 ^ f.bits width := Nat.pow_le_pow_right (by decide) (by omega)

/-- The target of a branch is left open until its length is known. -/
theorem gives_relative (h : f.relative width s = .ok o s') : f.Gives o := by
  rw [relative, bind_ok] at h
  obtain ⟨d, s₁, -, h⟩ := h
  obtain ⟨rfl, -⟩ := pure_ok.mp h
  exact ⟨⟨rfl, Nat.two_pow_pos _⟩, rfl⟩

theorem gives_bareAddress (hf : f.IsSound) (h : f.bareAddress width s = .ok o s') : f.Gives o := by
  rw [bareAddress, bind_ok] at h
  obtain ⟨v, s₁, -, h⟩ := h
  obtain ⟨rfl, -⟩ := pure_ok.mp h
  have hmem := hf.addressSize
  simp only [List.mem_cons, List.not_mem_nil, or_false] at hmem
  refine ⟨⟨hf.addresses (by simp) (by simp) rfl, ?_, ?_⟩, rfl⟩
  · obtain ⟨w, hw, hsize⟩ : ∃ w ∈ [1, 2, 4, 8], f.addressSize = 8 * w := by
      rcases hmem with h | h | h
      · exact ⟨2, by decide, h⟩
      · exact ⟨4, by decide, h⟩
      · exact ⟨8, by decide, h⟩
    change Word.InRange f.addressSize (Word.signExtend f.addressSize v)
    rw [hsize]
    exact Word.inRange_signExtend hw v
  · intro _
    change 0 < f.addressSize
    omega

theorem gives_farPointer (hmode : f.mode ≠ .bits64) (h : f.farPointer s = .ok o s') :
    f.Gives o := by
  rw [farPointer, bind_ok] at h
  obtain ⟨offset, s₁, -, h⟩ := h
  obtain ⟨segment, s₂, -, h⟩ := bind_ok.mp h
  obtain ⟨rfl, -⟩ := pure_ok.mp h
  exact ⟨hmode, rfl⟩

/-- The template gives no operand that the mode does not have. -/
structure Permits (f : Frame) (τ : Template) : Prop where
  legacy : f.mode ≠ .bits64 → τ.isLegacy = true
  far : τ = .farPointer → f.mode ≠ .bits64

/-- What a template gives is well formed, and is an operand unless the template is absent. -/
theorem IsSound.operand_isWellFormed (hf : f.IsSound) {τ : Template} {hasModRM : Bool}
    (hτ : f.Permits τ) (hsuits : τ.suits hasModRM = true) (h : f.operand τ s = .ok o s') :
    o.IsWellFormed f.mode f.operandSize f.addressSize ∧ o.isAbsent = τ.isAbsent := by
  have hle : f.operandSize ≤ 64 := by
    have hmem := hf.operandSize
    simp only [List.mem_cons, List.not_mem_nil, or_false] at hmem
    omega
  cases τ with
  | absent =>
    obtain ⟨rfl, -⟩ := pure_ok.mp h
    exact ⟨trivial, rfl⟩
  | constant n =>
    obtain ⟨rfl, -⟩ := pure_ok.mp h
    exact ⟨n.toNat_lt, rfl⟩
  | regMem width =>
    refine gives_registerOrMemory ?_ hf h
    exact fun hmode m => hf.isLegacy_gpr hmode (hτ.legacy hmode) Rex.b rfl m.rm
  | mmxRegMem => exact gives_registerOrMemory (fun _ _ => rfl) hf h
  | xmmRegMem =>
    refine gives_registerOrMemory ?_ hf h
    exact fun hmode m => decide_eq_true (hf.extend_lt hmode Rex.b rfl m.rm)
  | mem => exact gives_memoryOnly hf h
  | offset => exact gives_bareAddress hf h
  | reg width =>
    refine gives_registerField ?_ h
    exact fun hmode m => hf.isLegacy_gpr hmode (hτ.legacy hmode) Rex.r rfl m.reg
  | rmReg width =>
    refine gives_registerField ?_ h
    exact fun hmode m => hf.isLegacy_gpr hmode (hτ.legacy hmode) Rex.b rfl m.rm
  | control | debug | xmmReg =>
    refine gives_registerField ?_ h
    exact fun hmode m => decide_eq_true (hf.extend_lt hmode Rex.r rfl m.reg)
  | mmxReg | stRm => exact gives_registerField (fun _ _ => rfl) h
  | mmxRm => exact gives_registerOnly (fun _ _ => rfl) h
  | xmmRm =>
    refine gives_registerOnly ?_ h
    exact fun hmode m => decide_eq_true (hf.extend_lt hmode Rex.b rfl m.rm)
  | segment => exact gives_segmentRegister h
  | imm width | immSigned width => exact gives_immediate (Width.bits_le hsuits hle) h
  | relative => exact gives_relative h
  | farPointer => exact gives_farPointer (hτ.far rfl) h
  | st0 =>
    obtain ⟨rfl, -⟩ := pure_ok.mp h
    exact ⟨fun _ => rfl, rfl⟩
  | fixed r =>
    obtain ⟨rfl, -⟩ := pure_ok.mp h
    exact ⟨hτ.legacy, rfl⟩
  | opcodeReg width =>
    obtain ⟨rfl, -⟩ := pure_ok.mp h
    exact ⟨fun hmode => hf.isLegacy_gpr hmode (hτ.legacy hmode) Rex.b rfl _, rfl⟩
  | sized n width =>
    obtain ⟨rfl, -⟩ := pure_ok.mp h
    refine ⟨fun hmode => ?_, rfl⟩
    have hlegacy := hτ.legacy hmode
    rw [Template.isLegacy, Bool.and_eq_true, decide_eq_true_eq] at hlegacy
    have hn : n.toNat < 8 := hlegacy.1
    refine Register.isLegacy_gpr (hf.bits_legacy hmode hlegacy.2) ?_
    rw [Fin.val_ofNat]
    omega

theorem Yields.isWellFormed {τs : List Template} {os : List Operand} {hasModRM : Bool}
    (h : Yields f τs s os s') (hf : f.IsSound) (hτs : ∀ τ ∈ τs, f.Permits τ)
    (hsuits : τs.all (Template.suits hasModRM) = true) :
    (∀ o ∈ os, o.IsWellFormed f.mode f.operandSize f.addressSize) ∧
      os.map Operand.isAbsent = τs.map Template.isAbsent := by
  induction h with
  | nil => simp
  | cons head tail ih =>
    rw [List.all_cons, Bool.and_eq_true] at hsuits
    rw [List.forall_mem_cons] at hτs
    obtain ⟨hos, habsent⟩ := ih hτs.2 hsuits.2
    obtain ⟨ho, habsent'⟩ := hf.operand_isWellFormed hτs.1 hsuits.1 head
    exact ⟨List.forall_mem_cons.mpr ⟨ho, hos⟩, by simp [habsent, habsent']⟩

end Decode.Frame

namespace Operand

variable {mode : Mode} {operandSize addressSize : Nat}

theorem isAbsent_settleTarget (finish : UInt64) (o : Operand) :
    (Decode.settleTarget finish o).isAbsent = o.isAbsent := by
  cases o <;> rfl

theorem truncate_lt {size : Nat} (h : size ∈ [16, 32, 64]) (a : UInt64) :
    (Decode.truncate a size).toNat < 2 ^ size := by
  simp only [List.mem_cons, List.not_mem_nil, or_false] at h
  rcases h with rfl | rfl | rfl
  · exact Nat.mod_lt _ (by decide)
  · exact Nat.mod_lt _ (by decide)
  · exact a.toNat_lt

theorem IsWellFormed.settle {o : Operand} (h : o.IsWellFormed mode operandSize addressSize)
    (hsize : operandSize ∈ [16, 32, 64]) (finish : UInt64) :
    (Decode.settleTarget finish o).IsWellFormed mode operandSize addressSize := by
  cases o with
  | relative r =>
    obtain ⟨hr, -⟩ := h
    exact ⟨hr, truncate_lt (hr ▸ hsize) _⟩
  | absent | register | memory | immediate | constant | far => exact h

end Operand

end X86
