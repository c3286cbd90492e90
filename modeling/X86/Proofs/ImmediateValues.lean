import Mathlib.Data.Int.ModEq
import Mathlib.Tactic.Positivity
import X86.Proofs.MemoryPlacement
import X86.Proofs.Rendering
import X86.Proofs.WellFormed

/-!
Immediates are written as they are executed. A constant that is widened with its sign is written as
the number below the operand size that it is congruent to, and any other constant as it is encoded.
Which constants are widened is decided by their templates.
-/

namespace X86

open Lookup Text

namespace Word

theorem signExtend_modEq {bits : Nat} (h : bits ≤ 64) (n : Nat) :
    (n : Int) ≡ signExtend bits n [ZMOD 2 ^ bits] := by
  unfold signExtend
  split
  · exact Int.bmod_emod.symm
  · exact Int.bmod_emod.symm
  · exact Int.bmod_emod.symm
  · have hdvd : (2 : Int) ^ bits ∣ 2 ^ 64 := pow_dvd_pow 2 h
    exact Int.ModEq.of_dvd hdvd Int.bmod_emod.symm

theorem keepLow_zeroExtend {bits : Nat} (h : bits ∈ [16, 32, 64]) (v : Int) :
    keepLow 64 bits (zeroExtend 64 v) = v % 2 ^ bits := by
  have hcast : (zeroExtend 64 v : Int) = v % 2 ^ 64 :=
    Int.toNat_of_nonneg (Int.emod_nonneg v (by decide))
  rw [hcast, keepLow]
  simp only [List.mem_cons, List.not_mem_nil, or_false] at h
  obtain rfl | rfl | rfl := h
  · exact Int.emod_emod_of_dvd v (by decide)
  · exact Int.emod_emod_of_dvd v (by decide)
  · rfl

theorem eq_emod_iff {n bits : Nat} {v : Int} :
    (n : Int) = v % 2 ^ bits ↔ n < 2 ^ bits ∧ (n : Int) ≡ v [ZMOD 2 ^ bits] := by
  have hcast : ((2 ^ bits : Nat) : Int) = 2 ^ bits := by simp
  constructor
  · intro h
    have hlt : v % 2 ^ bits < 2 ^ bits := Int.emod_lt_of_pos v (by positivity)
    refine ⟨?_, ?_⟩
    · rw [← h, ← hcast] at hlt
      exact Int.ofNat_lt.mp hlt
    · rw [h]
      exact Int.mod_modEq v _
  · rintro ⟨hlt, hmod⟩
    have hlt' : (n : Int) < 2 ^ bits := hcast ▸ Int.ofNat_lt.mpr hlt
    rw [← hmod.eq, Int.emod_eq_of_lt (Int.natCast_nonneg n) hlt']

end Word

namespace Text

variable {i : Instruction} {imm : Immediate}

/-- A widened constant is written as its low bits in the operand size. -/
theorem immediateValue_widened (hsize : i.operandSize ∈ [16, 32, 64])
    (hlt : imm.value < 2 ^ imm.size) (hle : imm.size ≤ 64) (h : imm.signExtended = true) :
    (immediateValue i imm : Int) = (Operand.immediate imm).value % 2 ^ i.operandSize := by
  by_cases hsame : imm.size = i.operandSize
  · rw [immediateValue, if_neg (fun hwide => hwide.2 hsame), ← hsame]
    exact Word.eq_emod_iff.mpr ⟨hlt, Word.signExtend_modEq hle imm.value⟩
  · have hnonneg : 0 ≤ (Operand.immediate imm).value % 2 ^ i.operandSize :=
      Int.emod_nonneg _ (by positivity)
    rw [immediateValue, if_pos ⟨h, hsame⟩]
    show ((Word.keepLow 64 i.operandSize
      (Word.zeroExtend 64 (Word.signExtend imm.size imm.value))).toNat : Int) = _
    rw [Word.keepLow_zeroExtend hsize]
    exact Int.toNat_of_nonneg hnonneg

theorem immediateValue_plain (h : imm.signExtended = false) : immediateValue i imm = imm.value :=
  if_neg (by simp [h])

theorem immediateValue_lt (hsize : i.operandSize ∈ [16, 32, 64]) (hlt : imm.value < 2 ^ imm.size)
    (hle : imm.size ≤ 64) : immediateValue i imm < 2 ^ max i.operandSize imm.size := by
  cases hsigned : imm.signExtended with
  | true =>
    have hvalue := immediateValue_widened hsize hlt hle hsigned
    calc immediateValue i imm
      _ < 2 ^ i.operandSize := (Word.eq_emod_iff.mp hvalue).1
      _ ≤ 2 ^ max i.operandSize imm.size := Nat.pow_le_pow_right (by decide) (Nat.le_max_left _ _)
  | false =>
    calc immediateValue i imm
      _ = imm.value := immediateValue_plain hsigned
      _ < 2 ^ imm.size := hlt
      _ ≤ 2 ^ max i.operandSize imm.size := Nat.pow_le_pow_right (by decide) (Nat.le_max_right _ _)

end Text

theorem Operand.Packed.mem_takeWhile {os : List Operand} (h : Packed os) {o : Operand} (ho : o ∈ os)
    (hpresent : o.isAbsent = false) : o ∈ os.takeWhile (!·.isAbsent) := by
  induction os with
  | nil => cases ho
  | cons o' os ih =>
    obtain ⟨hhead, htail⟩ := List.pairwise_cons.mp h
    have hpresent' : o'.isAbsent = false := by
      rw [← Bool.not_eq_true]
      intro habsent
      obtain rfl | ho := List.mem_cons.mp ho
      · exact absurd habsent (by simp [hpresent])
      · exact absurd (hhead o ho habsent) (by simp [hpresent])
    rw [List.takeWhile_cons_of_pos (by simp [hpresent'])]
    obtain rfl | ho := List.mem_cons.mp ho
    · exact List.mem_cons_self
    · exact List.mem_cons_of_mem _ (ih htail ho)

namespace Text

theorem immediate_mem_tokens {i : Instruction} (t : Translator) {imm : Immediate}
    (herror : i.error = none) (hmnemonic : i.mnemonic ≠ .INVALID)
    (h : .immediate imm ∈ i.activeOperands) :
    Token.word .immediate (hex (immediateValue i imm)) ∈ tokens (t.pieces i) := by
  have hvalid : ¬ (i.isError = true ∨ i.mnemonic = .INVALID) := by
    simp [Instruction.isError, herror, hmnemonic]
  have hwritten : Token.word .immediate (hex (immediateValue i imm)) ∈ content (t.operands i) := by
    cases hd : t.dialect with
    | intel =>
      simp only [Translator.operands, hd, content_intel_operands]
      exact List.mem_flatten.mpr ⟨_, List.mem_map.mpr ⟨_, h, rfl⟩, List.mem_singleton_self _⟩
    | att =>
      simp only [Translator.operands, hd, content_att_operands]
      refine List.mem_flatten.mpr
        ⟨content (Att.operand t.options i (.immediate imm)), ?_, List.mem_singleton_self _⟩
      refine List.mem_map.mpr ⟨.immediate imm, ?_, rfl⟩
      split
      · exact h
      · exact List.mem_reverse.mpr h
  have hcontent : Token.word .immediate (hex (immediateValue i imm)) ∈ content (t.pieces i) := by
    rw [content_pieces, if_neg hvalid]
    exact List.mem_append_right _ hwritten
  exact List.mem_of_mem_filter hcontent

end Text

/-- The immediate is one that the template gives under an operand size. It is as wide as the template
says, and it is widened with its sign if the template says so, or if the operand size is 64 bits
where no more than 32 are encoded. -/
structure Immediate.EncodedAs (imm : Immediate) (τ : Template) (width : Width) (operandSize : Nat)
    (mode64 : Bool) : Prop where
  template : τ = .imm width ∨ τ = .immSigned width
  size : imm.size = width.bits operandSize mode64
  signExtended : imm.signExtended = true ↔ τ = .immSigned width ∨ width = .z ∧ operandSize = 64

theorem Immediate.EncodedAs.widened {imm : Immediate} {τ : Template} {mode64 : Bool}
    (h : imm.EncodedAs τ .z 64 mode64) : imm.size = 32 ∧ imm.signExtended = true :=
  ⟨h.size, h.signExtended.mpr (Or.inr ⟨rfl, rfl⟩)⟩

namespace Decode

namespace Frame

variable {f : Frame} {s s' : State}

theorem Yields.exists_operand {τs : List Template} {os : List Operand} (h : Yields f τs s os s')
    {k : Nat} {o : Operand} (ho : os[k]? = some o) :
    ∃ τ s₁ s₂, τs[k]? = some τ ∧ f.operand τ s₁ = .ok o s₂ := by
  induction h generalizing k with
  | nil => simp at ho
  | @cons τ τs s s₁ s' o₀ os head tail ih =>
    cases k with
    | zero =>
      obtain rfl : o₀ = o := by simpa using ho
      exact ⟨τ, s, s₁, rfl, head⟩
    | succ k => exact ih ho

theorem operand_immediate {τ : Template} {imm : Immediate}
    (h : f.operand τ s = .ok (.immediate imm) s') :
    ∃ width, imm.EncodedAs τ width f.operandSize f.mode.is64 := by
  have hkind : τ.isConstant = true := operand_fits h
  cases τ with
  | imm width =>
    obtain ⟨v, s₁, -, h⟩ := bind_ok.mp h
    obtain ⟨heq, -⟩ := pure_ok.mp h
    obtain rfl := Operand.immediate.inj heq
    exact ⟨width, Or.inl rfl, rfl, by simp⟩
  | immSigned width =>
    obtain ⟨v, s₁, -, h⟩ := bind_ok.mp h
    obtain ⟨heq, -⟩ := pure_ok.mp h
    obtain rfl := Operand.immediate.inj heq
    exact ⟨width, Or.inr rfl, rfl, by simp⟩
  | constant n =>
    obtain ⟨heq, -⟩ := pure_ok.mp h
    cases heq
  | _ => cases hkind

end Frame

theorem getElem?_toList_get (v : Vector α 4) (k : Fin 4) : v.toList[k.val]? = some (v.get k) := by
  rw [List.getElem?_eq_getElem (by simp)]
  rfl

theorem settleTarget_eq_immediate {finish : UInt64} {o : Operand} {imm : Immediate} :
    settleTarget finish o = .immediate imm ↔ o = .immediate imm := by
  cases o with
  | relative r => simp [settleTarget]
  | _ => rfl

theorem get_of_assemble {t : Target} {pc : UInt64} {e : Entry} {s : State} {ops : Vector Operand 4}
    {n : Nat} {k : Fin 4} {imm : Immediate}
    (h : (assemble t pc e s ops n).operands.get k = .immediate imm) : ops.get k = .immediate imm := by
  obtain heq | ⟨-, heq⟩ := assemble_operands t pc e s ops n
  · have hsettled : settleTarget (pc + UInt64.ofNat n) (ops.get k) = .immediate imm := by
      rw [heq] at h
      simpa [Vector.get] using h
    exact settleTarget_eq_immediate.mp hsettled
  · have habsent : ∀ k, noOperands.get k = .absent := by decide
    rw [heq, habsent] at h
    cases h

theorem isWord_of_template {d : Definition} (hd : d ∈ definitions) {k : Fin 4} {width : Width}
    (h : d.entry.operands.get k = .imm width ∨ d.entry.operands.get k = .immSigned width) :
    width.isWord = true := by
  have horderly := List.all_eq_true.mp definitions_isOrderly d hd
  simp only [Definition.isOrderly, Bool.and_eq_true] at horderly
  have hmem := List.mem_of_getElem? (getElem?_toList_get d.entry.operands k)
  rw [Definition.toList_entry_operands] at hmem
  have hsuits := List.all_eq_true.mp horderly.1.2 _ hmem
  obtain h | h := h
  · rwa [h] at hsuits
  · rwa [h] at hsuits

/-- An immediate is encoded as the template in its slot of the entry says. -/
theorem instruction_immediate {t : Target} {pc : UInt64} {s s' : State} {i : Instruction}
    (hs : s.modRM = none) (h : instruction instructionTable t pc s = .ok i s') {k : Fin 4}
    {imm : Immediate} (himm : i.operands.get k = .immediate imm) :
    imm.size ≤ 64 ∧ ∃ e s₁ width, entry instructionTable t s = .ok e s₁ ∧
      imm.EncodedAs (e.operands.get k) width i.operandSize i.mode.is64 := by
  obtain ⟨e, s₁, he, hc, -⟩ := instruction_ok.mp h
  obtain ⟨-, s₂, ops, -, hops, rfl⟩ := complete_ok.mp hc
  have hread : ops.toList[k.val]? = some (.immediate imm) := by
    rw [getElem?_toList_get, get_of_assemble himm]
  obtain ⟨τ, s₃, s₄, hτ, hoperand⟩ := (operands_ok hops).exists_operand hread
  rw [getElem?_toList_get, Option.some.injEq] at hτ
  subst hτ
  obtain ⟨width, hencoded⟩ := Frame.operand_immediate hoperand
  obtain ⟨first, s₅, n, d, -, hd, rfl, -, -⟩ := found_of_entry hs he
  have hword := isWord_of_template (List.mem_of_getElem? hd) hencoded.template
  refine ⟨?_, d.entry, s₁, width, he, ?_⟩
  · rw [hencoded.size]
    exact Width.bits_le hword (operandSizeOf_le t.mode s₁.prefixes d.entry.flags)
  · rw [assemble_operandSize, assemble_mode]
    exact hencoded

end Decode

theorem decodeAt_immediate {t : Target} {source : Source} {offset : Nat} {pc : UInt64} {keep : Bool}
    (h : (decodeAt t source offset pc keep).error = none) {k : Fin 4} {imm : Immediate}
    (himm : (decodeAt t source offset pc keep).operands.get k = .immediate imm) :
    (decodeAt t source offset pc keep).IsWellFormed ∧ imm.size ≤ 64 ∧
    ∃ e s width, Decode.entry instructionTable t { cursor := .ofStart source offset } = .ok e s ∧
      imm.EncodedAs (e.operands.get k) width (decodeAt t source offset pc keep).operandSize
        (decodeAt t source offset pc keep).mode.is64 := by
  rw [decodeAt_error] at h
  obtain ⟨i, s, hi, hrun⟩ := Decode.instruction_of_run h
  obtain ⟨-, hwell⟩ := Decode.instruction_isWellFormed rfl rfl hi
  cases keep with
  | true =>
    rw [decodeAt_keep, hrun] at himm ⊢
    exact ⟨hwell.keeping _, Decode.instruction_immediate rfl hi himm⟩
  | false =>
    rw [decodeAt_drop, hrun] at himm ⊢
    exact ⟨hwell, Decode.instruction_immediate rfl hi himm⟩

/-- Each immediate of a decoded instruction is written in both syntaxes as it is executed. The number
has no more bits than the operand size or its own size. If the immediate is marked as widened with
its sign, it is the only number of the operand size that is congruent to the signed value of the
operand; otherwise it is the raw value, congruent to the signed one in its own size. The template
decides: what a template of width `z` gives under a 64-bit operand size is a widened number of 32
bits. -/
theorem decodeAt_immediate_executed (t : Target) (source : Source) (offset : Nat) (pc : UInt64)
    (keep : Bool) (h : (decodeAt t source offset pc keep).error = none) {k : Fin 4} {imm : Immediate}
    (himm : (decodeAt t source offset pc keep).operands.get k = .immediate imm) :
    let i := decodeAt t source offset pc keep
    (∀ tr : Translator,
      Token.word .immediate (hex (immediateValue i imm)) ∈ tokens (tr.pieces i)) ∧
    immediateValue i imm < 2 ^ max i.operandSize imm.size ∧
    (imm.signExtended = true → ∀ n : Nat, n = immediateValue i imm ↔
      n < 2 ^ i.operandSize ∧ (n : Int) ≡ (Operand.immediate imm).value [ZMOD 2 ^ i.operandSize]) ∧
    (imm.signExtended = false → immediateValue i imm = imm.value ∧
      (imm.value : Int) ≡ (Operand.immediate imm).value [ZMOD 2 ^ imm.size]) ∧
    ∃ e s width, Decode.entry instructionTable t { cursor := .ofStart source offset } = .ok e s ∧
      (e.operands.get k = .imm width ∨ e.operands.get k = .immSigned width) ∧
      (width = .z → i.operandSize = 64 → imm.size = 32 ∧ imm.signExtended = true) := by
  intro i
  obtain ⟨hwell, hle, e, s, width, hentry, hencoded⟩ := decodeAt_immediate h himm
  have hmem : .immediate imm ∈ i.operands.toList :=
    List.mem_of_getElem? (himm ▸ Decode.getElem?_toList_get i.operands k)
  have hlt : imm.value < 2 ^ imm.size := hwell.operands _ hmem
  have hactive : .immediate imm ∈ i.activeOperands := hwell.packed.mem_takeWhile hmem rfl
  refine ⟨fun tr => immediate_mem_tokens tr h hwell.mnemonic hactive,
    immediateValue_lt hwell.operandSize hlt hle, ?_, ?_,
    e, s, width, hentry, hencoded.template, ?_⟩
  · intro hsigned n
    rw [← Word.eq_emod_iff, ← immediateValue_widened hwell.operandSize hlt hle hsigned]
    exact Int.natCast_inj.symm
  · intro hplain
    exact ⟨immediateValue_plain hplain, Word.signExtend_modEq hle imm.value⟩
  · rintro rfl hsize
    rw [hsize] at hencoded
    exact hencoded.widened

/-- In 64-bit mode, an addition of a negative constant of 32 bits to a register of 64 bits. -/
def wideAdd : Array UInt8 :=
  #[0x48, 0x81, 0xC0, 0xF7, 0xFF, 0xFF, 0xFF]

theorem decodeAt_wideAdd :
    (decodeAt ⟨.bits64, .any⟩ (.ofArray wideAdd) 0 0 true).error = none ∧
      (decodeAt ⟨.bits64, .any⟩ (.ofArray wideAdd) 0 0 true).operandSize = 64 ∧
      (decodeAt ⟨.bits64, .any⟩ (.ofArray wideAdd) 0 0 true).operands.get 1 =
        .immediate ⟨0xFFFFFFF7, 32, true⟩ :=
  Decode.decodeAt_of_delivers
    (P := fun i => i.error = none ∧ i.operandSize = 64 ∧
      i.operands.get 1 = .immediate ⟨0xFFFFFFF7, 32, true⟩)
    (by decide +kernel)

theorem decodeAt_immediate_executed_wideAdd :
    (decodeAt ⟨.bits64, .any⟩ (.ofArray wideAdd) 0 0 true).error = none ∧
      (decodeAt ⟨.bits64, .any⟩ (.ofArray wideAdd) 0 0 true).operands.get 1 =
        .immediate ⟨0xFFFFFFF7, 32, true⟩ ∧
      ∀ tr : Translator, Token.word .immediate (hex 0xFFFFFFFFFFFFFFF7) ∈
        tokens (tr.pieces (decodeAt ⟨.bits64, .any⟩ (.ofArray wideAdd) 0 0 true)) := by
  obtain ⟨herror, hsize, himm⟩ := decodeAt_wideAdd
  obtain ⟨htokens, -, hwidened, -⟩ :=
    decodeAt_immediate_executed ⟨.bits64, .any⟩ (.ofArray wideAdd) 0 0 true herror himm
  have hvalue := (hwidened rfl 0xFFFFFFFFFFFFFFF7).mpr (by rw [hsize]; decide)
  rw [← hvalue] at htokens
  exact ⟨herror, himm, htokens⟩

end X86
