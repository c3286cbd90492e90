import Mathlib.Data.List.Forall2
import X86.Proofs.InertPrefixes

/-!
Where memory stands among the operands. An instruction addresses memory in its first operand, or in
the second behind a register. Two instructions of one mnemonic that have memory in the same place,
beside the same register, have memory of the same size, but for a few definitions: those that store a
segment register, and those that widen or convert what they load.
-/

namespace X86

open Lookup

theorem Register.size_gpr_eq (size : Nat) (n : Fin 16) (rex : Bool) :
    (gpr size n rex).size = (gpr size 0 false).size := by
  unfold gpr
  split
  · split
    · rfl
    · split <;> rfl
  · rfl
  · rfl
  · rfl

theorem Register.isSegment_gpr (size : Nat) (n : Fin 16) (rex : Bool) :
    (gpr size n rex).isSegment = false := by
  unfold gpr
  split
  · split
    · rfl
    · split <;> rfl
  · rfl
  · rfl
  · rfl

namespace Template

def memoryWidth? : Template → Option Width
  | regMem width | mem width | mmxRegMem width | xmmRegMem width | offset width => some width
  | _ => none

/-- For an operand that can only be a register: whether it is a segment register, and its size. -/
def registerKind? (operandSize : Nat) (mode64 : Bool) : Template → Option (Bool × Nat)
  | reg width | rmReg width | sized _ width | opcodeReg width =>
    some (false, (Register.gpr (width.bits operandSize mode64) 0 false).size)
  | segment => some (true, 16)
  | control | debug | mmxReg | mmxRm => some (false, 64)
  | xmmReg | xmmRm => some (false, 128)
  | st0 | stRm => some (false, 80)
  | fixed r => some (r.isSegment, r.size)
  | _ => none

def isConstant : Template → Bool
  | imm _ | immSigned _ | constant _ => true
  | _ => false

/-- The operand is one that the template can stand for under an operand size, as far as its kind and
its size go. -/
def Fits (operandSize : Nat) (mode64 : Bool) (τ : Template) : Operand → Prop
  | .absent => τ = absent
  | .register r => τ.mayAddressMemory = true ∨
      τ.registerKind? operandSize mode64 = some (r.isSegment, r.size) ∧ ∀ r', τ = fixed r' → r = r'
  | .memory m => ∃ width, τ.memoryWidth? = some width ∧ m.size = width.bits operandSize mode64
  | .immediate _ | .constant _ => τ.isConstant = true
  | .relative _ => ∃ width, τ = relative width
  | .far _ => τ = farPointer

theorem Fits.settle {operandSize : Nat} {mode64 : Bool} {τ : Template} {o : Operand}
    (h : τ.Fits operandSize mode64 o) (finish : UInt64) :
    τ.Fits operandSize mode64 (Decode.settleTarget finish o) := by
  cases o with
  | _ => exact h

end Template

namespace Read

variable {c c' : Cursor} {o : MemoryOperand}

theorem displaced_size {width : Nat} {m : MemoryOperand} (h : displaced width m c = .ok o c') :
    o.size = m.size := by
  unfold displaced at h
  split at h
  · rw [(pure_ok.mp h).1]
  · obtain ⟨v, c₁, -, h⟩ := bind_ok.mp h
    rw [← (pure_ok.mp h).1]

theorem memory_size {m : ModRM} {rex : Rex} {addressSize size : Nat} {mode64 : Bool}
    (h : memory m rex addressSize mode64 size c = .ok o c') : o.size = size := by
  unfold memory at h
  split at h
  · unfold memory16 at h
    split at h
    · exact displaced_size h
    · exact displaced_size h
  split at h
  · obtain ⟨b, c₁, -, h⟩ := bind_ok.mp h
    by_cases hnone : Rex.extend rex.x (Sib.ofByte b).index = 4
    all_goals
      simp only [hnone, ↓reduceIte] at h
      split at h
      · exact displaced_size h
      · exact displaced_size h
  split at h
  · exact displaced_size h
  · exact displaced_size h

end Read

namespace Decode.Frame

variable {f : Frame} {s s' : State} {o : Operand} {τ : Template}

theorem fits_memory {m : ModRM} {width : Width} (hτ : τ.memoryWidth? = some width)
    (h : f.memory m width s = .ok o s') : τ.Fits f.operandSize f.mode.is64 o := by
  obtain ⟨a, s₁, hread, h⟩ := bind_ok.mp h
  obtain ⟨rfl, -⟩ := pure_ok.mp h
  obtain ⟨c, hc, -⟩ := read_ok.mp hread
  exact ⟨width, hτ, Read.memory_size hc⟩

theorem fits_registerOrMemory {width : Width} {r : ModRM → Register}
    (hτ : τ.memoryWidth? = some width) (hmay : τ.mayAddressMemory = true)
    (h : f.registerOrMemory width r s = .ok o s') : τ.Fits f.operandSize f.mode.is64 o := by
  obtain ⟨m, s₁, -, h⟩ := bind_ok.mp h
  split at h
  · obtain ⟨rfl, -⟩ := pure_ok.mp h
    exact Or.inl hmay
  · exact fits_memory hτ h

section Register

variable {r : ModRM → Register}
  (hr : ∀ m, τ.registerKind? f.operandSize f.mode.is64 = some ((r m).isSegment, (r m).size))
  (hfixed : ∀ r', τ ≠ .fixed r')

include hr hfixed

theorem fits_register (m : ModRM) : τ.Fits f.operandSize f.mode.is64 (.register (r m)) :=
  Or.inr ⟨hr m, fun r' h => absurd h (hfixed r')⟩

theorem fits_registerField (h : registerField r s = .ok o s') :
    τ.Fits f.operandSize f.mode.is64 o := by
  obtain ⟨m, s₁, -, h⟩ := bind_ok.mp h
  obtain ⟨rfl, -⟩ := pure_ok.mp h
  exact fits_register hr hfixed m

theorem fits_registerOnly (h : registerOnly r s = .ok o s') :
    τ.Fits f.operandSize f.mode.is64 o := by
  obtain ⟨m, s₁, -, h⟩ := bind_ok.mp h
  split at h
  · obtain ⟨rfl, -⟩ := pure_ok.mp h
    exact fits_register hr hfixed m
  · exact absurd h (by simp)

end Register

theorem kind_gpr (width : Width) (n : Fin 16) (rex : Bool) :
    some (false, (Register.gpr (width.bits f.operandSize f.mode.is64) 0 false).size) =
      some ((Register.gpr (f.bits width) n rex).isSegment,
        (Register.gpr (f.bits width) n rex).size) := by
  rw [Register.isSegment_gpr, Register.size_gpr_eq (f.bits width) n rex]
  rfl

theorem operand_fits (h : f.operand τ s = .ok o s') : τ.Fits f.operandSize f.mode.is64 o := by
  cases τ with
  | absent =>
    obtain ⟨rfl, -⟩ := pure_ok.mp h
    exact rfl
  | constant n =>
    obtain ⟨rfl, -⟩ := pure_ok.mp h
    exact rfl
  | regMem | mmxRegMem | xmmRegMem => exact fits_registerOrMemory rfl rfl h
  | mem width =>
    obtain ⟨m, s₁, -, h⟩ := bind_ok.mp h
    split at h
    · exact absurd h (by simp)
    · exact fits_memory rfl h
  | offset width =>
    obtain ⟨v, s₁, -, h⟩ := bind_ok.mp h
    obtain ⟨rfl, -⟩ := pure_ok.mp h
    exact ⟨width, rfl, rfl⟩
  | reg | rmReg => exact fits_registerField (fun _ => kind_gpr ..) (by simp) h
  | control | debug | mmxReg | xmmReg | stRm => exact fits_registerField (fun _ => rfl) (by simp) h
  | mmxRm | xmmRm => exact fits_registerOnly (fun _ => rfl) (by simp) h
  | segment =>
    obtain ⟨m, s₁, -, h⟩ := bind_ok.mp h
    cases hseg : Segment.ofNumber? m.reg with
    | some g =>
      rw [hseg] at h
      obtain ⟨rfl, -⟩ := pure_ok.mp h
      exact Or.inr ⟨rfl, by simp⟩
    | none =>
      rw [hseg] at h
      exact absurd h (by simp)
  | imm width | immSigned width =>
    obtain ⟨v, s₁, -, h⟩ := bind_ok.mp h
    obtain ⟨rfl, -⟩ := pure_ok.mp h
    exact rfl
  | relative width =>
    obtain ⟨v, s₁, -, h⟩ := bind_ok.mp h
    obtain ⟨rfl, -⟩ := pure_ok.mp h
    exact ⟨width, rfl⟩
  | farPointer =>
    obtain ⟨v, s₁, -, h⟩ := bind_ok.mp h
    obtain ⟨w, s₂, -, h⟩ := bind_ok.mp h
    obtain ⟨rfl, -⟩ := pure_ok.mp h
    exact rfl
  | st0 =>
    obtain ⟨rfl, -⟩ := pure_ok.mp h
    exact Or.inr ⟨rfl, by simp⟩
  | fixed r =>
    obtain ⟨rfl, -⟩ := pure_ok.mp h
    exact Or.inr ⟨rfl, fun r' h => Template.fixed.inj h⟩
  | sized | opcodeReg =>
    obtain ⟨rfl, -⟩ := pure_ok.mp h
    exact Or.inr ⟨kind_gpr .., by simp⟩

theorem Yields.fits {τs : List Template} {os : List Operand} (h : Yields f τs s os s') :
    List.Forall₂ (Template.Fits f.operandSize f.mode.is64) τs os := by
  induction h with
  | nil => exact .nil
  | cons head tail ih => exact .cons (operand_fits head) ih

end Decode.Frame

/-- Mnemonics that load memory of more than one size into the same register. There are conversions of
64-bit numbers in 64-bit mode only. -/
def Mnemonic.mixesSizes (mode64 : Bool) : Mnemonic → Bool
  | MOVZX | MOVSX | CRC32 => true
  | CVTSI2SS | CVTSI2SD => mode64
  | _ => false

/-- A memory operand beside a register. -/
structure Placement where
  /-- Whether memory is the second operand, behind the register, and not the first. -/
  second : Bool
  isSegment : Bool
  registerSize : Nat
  memorySize : Nat
  mode64 : Bool
  deriving DecidableEq

namespace Placement

/-- Whether the register leaves the size of the memory open: a segment register that is stored, or a
register whose load goes with more than one size. -/
def isOpen (p p' : Placement) (m : Mnemonic) : Bool :=
  if p.second then !p.isSegment && m.mixesSizes (p.mode64 || p'.mode64) else p.isSegment

def isLike (p p' : Placement) : Bool :=
  p.second == p'.second && p.isSegment == p'.isSegment && p.registerSize == p'.registerSize

theorem isLike_comm (p p' : Placement) : p.isLike p' = p'.isLike p := by
  simp only [isLike, BEq.comm]

theorem isOpen_comm {p p' : Placement} (h : p.isLike p' = true) (m : Mnemonic) :
    p.isOpen p' m = p'.isOpen p m := by
  simp only [isLike, Bool.and_eq_true, beq_iff_eq] at h
  rw [isOpen, isOpen, h.1.1, h.1.2, Bool.or_comm]

end Placement

def Template.placement? (second : Bool) (operandSize : Nat) (mode64 : Bool)
    (memory register : Template) : Option Placement :=
  match memory.memoryWidth?, register.registerKind? operandSize mode64 with
  | some width, some (isSegment, size) =>
    some ⟨second, isSegment, size, width.bits operandSize mode64, mode64⟩
  | _, _ => none

/-- The operand sizes there are, each with whether the mode is the 64-bit one. -/
def sizedModes : List (Nat × Bool) :=
  [(16, false), (32, false), (16, true), (32, true), (64, true)]

namespace Lookup.Definition

/-- Whether the definition can be found under the operand size. A size that defaults to 64 bits comes
up only behind the search. -/
def admitsSize (d : Definition) (size : Nat) : Bool :=
  (d.steps.all fun s => s.axis != .operandSize || Decode.sizeSlot size == s.index.val) ||
    d.entryFlags.default64

/-- The placements under an operand size. A shift of memory by `cl` is none: the count tells nothing
of what is shifted. -/
def placementsAt (d : Definition) (operandSize : Nat) (mode64 : Bool) : List Placement :=
  let first := d.operands.getD 0 .absent
  let second := d.operands.getD 1 .absent
  (if d.mnemonic.isShiftOrRotate ∧ second = .fixed .cl then none
    else Template.placement? false operandSize mode64 first second).toList ++
  (Template.placement? true operandSize mode64 second first).toList

def placements (d : Definition) : List Placement :=
  (sizedModes.filter fun x => d.admitsSize x.1).flatMap fun x => d.placementsAt x.1 x.2

/-- Whether like placements in two definitions of one mnemonic have memory of the same size. -/
def placesAlike (d d' : Definition) : Bool :=
  d.mnemonic != d'.mnemonic ||
    d.placements.all fun p => d'.placements.all fun p' =>
      !p.isLike p' || p.isOpen p' d.mnemonic || p.memorySize == p'.memorySize

/-- Whether memory is the first operand, with a register, a constant or nothing behind it, or the
second behind a register. Mnemonics whose text has a form of its own have no memory with a size. -/
def laysMemory (d : Definition) : Bool :=
  let first := d.operands.getD 0 .absent
  let second := d.operands.getD 1 .absent
  (d.operands.drop 2).all (!·.mayAddressMemory) && !d.operands.contains .farPointer &&
    (if second.mayAddressMemory then (first.registerKind? 16 false).isSome
      else (second.registerKind? 16 false).isSome || second.isConstant || second.isAbsent) &&
    (!(d.mnemonic == .RETF || d.mnemonic.keepsOperandOrder) ||
      d.operands.all (·.memoryWidth?.all (· == .unsized)))

/-- Whether the operands are laid out for memory if one of them can be memory. What `nop` addresses
stands alone. -/
def placesMemory (d : Definition) : Bool :=
  (d.operands.all (!·.mayAddressMemory) || d.laysMemory) &&
    (d.mnemonic != .NOP || (d.operands.getD 1 .absent).isAbsent)

end Lookup.Definition

theorem definitions_placesMemory : definitions.all Definition.placesMemory = true := by
  decide +kernel

theorem definitions_placesAlike :
    (definitions.all (fun d => d.placesAlike d) &&
      pairsByKey (fun d : Definition => d.mnemonic.ctorIdx) Definition.placesAlike 10 definitions) =
      true := by
  decide +kernel

/-- Like placements under one mnemonic have memory of the same size, unless the register leaves that
open. -/
theorem memorySize_of_isLike {d d' : Definition} (hd : d ∈ definitions) (hd' : d' ∈ definitions)
    (hmnemonic : d.mnemonic = d'.mnemonic) {p p' : Placement} (hp : p ∈ d.placements)
    (hp' : p' ∈ d'.placements) (hlike : p.isLike p' = true)
    (hopen : p.isOpen p' d.mnemonic = false) : p.memorySize = p'.memorySize := by
  let R (d d' : Definition) : Prop := d.mnemonic = d'.mnemonic →
    ∀ p ∈ d.placements, ∀ p' ∈ d'.placements, p.isLike p' = true →
      p.isOpen p' d.mnemonic = false → p.memorySize = p'.memorySize
  have hread {d d' : Definition} (h : d.placesAlike d' = true) : R d d' := by
    intro hmnemonic p hp p' hp' hlike hopen
    rw [Definition.placesAlike, hmnemonic, bne_self_eq_false, Bool.false_or, ← hmnemonic] at h
    have hall := List.all_eq_true.mp (List.all_eq_true.mp h p hp) p' hp'
    simpa [hlike, hopen] using hall
  have hswap {d d' : Definition} (h : R d d') : R d' d := by
    intro hmnemonic p hp p' hp' hlike hopen
    have hlike' := (Placement.isLike_comm p' p).trans hlike
    rw [Placement.isOpen_comm hlike, hmnemonic] at hopen
    exact (h hmnemonic.symm p' hp' p hp hlike' hopen).symm
  obtain ⟨hself, hpairs⟩ := Bool.and_eq_true_iff.mp definitions_placesAlike
  have hpair : definitions.Pairwise R := by
    refine pairwise_of_pairsByKey ?_ (fun _ _ => hread) hpairs
    intro d d' hne hmnemonic
    exact absurd (congrArg Mnemonic.ctorIdx hmnemonic) hne
  have hall : ∀ d ∈ definitions, ∀ d' ∈ definitions, R d d' := by
    have : Std.Symm R := ⟨fun _ _ => hswap⟩
    exact hpair.forall_of_forall (fun d hd => hread (List.all_eq_true.mp hself d hd))
  exact hall d hd d' hd' hmnemonic p hp p' hp' hlike hopen

/-- The instruction is one that the definition stands for, as far as the kinds and the sizes of its
operands go. -/
structure Instruction.Follows (i : Instruction) (d : Definition) : Prop where
  mnemonic : i.mnemonic = d.mnemonic ∨ d.mnemonic = .NOP ∧ i.mnemonic = .PAUSE
  admitsSize : d.admitsSize i.operandSize = true
  fits : List.Forall₂ (Template.Fits i.operandSize i.mode.is64) d.templates i.operands.toList

namespace Decode

theorem Heading.admitsSize {t : Target} {s s₁ s₂ : State} {first : UInt8} {n : Nat} {d : Definition}
    {c : Fin 4} (h : Heading t s first s₁ n d c s₂) :
    d.admitsSize (frameOf t d.entry (s₂.spend c)).operandSize = true := by
  have hprefixes : (s₂.spend c).prefixes = s₁.prefixes.without c := by
    rw [State.spend_prefixes, (State.past?_eq_some h.past).2.1]
  rw [Definition.admitsSize, Bool.or_eq_true]
  by_cases hdefault : d.entryFlags.default64 = true
  · exact Or.inr hdefault
  · left
    have hsize : (frameOf t d.entry (s₂.spend c)).operandSize =
        t.mode.operandSize s₁.prefixes.rex.w (s₁.prefixes.without c).operandSize := by
      show operandSizeOf t.mode (s₂.spend c).prefixes d.entryFlags = _
      rw [operandSizeOf, if_neg (fun h => hdefault h.2.2.2), hprefixes, PrefixState.without_rex]
    have hdescribes := h.describes
    rw [Definition.describes, Bool.and_eq_true, Setting.admits, Bool.and_eq_true] at hdescribes
    rw [List.all_eq_true]
    intro step hstep
    by_cases haxis : step.axis = .operandSize
    · have hagrees := List.all_eq_true.mp hdescribes.2.1 step hstep
      simp only [Setting.agrees, haxis, Setting.operandSize] at hagrees
      rw [hsize, hagrees, Bool.or_true]
    · rw [bne_iff_ne.mpr haxis, Bool.true_or]

theorem instruction_follows {t : Target} {pc : UInt64} {s s' : State} {i : Instruction}
    (hs : s.modRM = none) (h : instruction instructionTable t pc s = .ok i s')
    (hmemory : i.hasMemoryOperand = true) : ∃ d ∈ definitions, i.Follows d := by
  obtain ⟨first, s₁, n, d, c, s₂, hheading, hcomplete, -⟩ := (instruction_iff_heading hs).mp h
  obtain ⟨-, s₃, ops, -, hops, rfl⟩ := complete_ok.mp hcomplete
  have hbusy : isIdleExchange d.entry.mnemonic (s₂.spend c).opcode ops = false := by
    rw [← Bool.not_eq_true]
    intro hidle
    have hnone : (assemble t pc d.entry (s₂.spend c) ops s'.cursor.consumed).operands =
        noOperands := by
      rw [assemble_operands_eq]
      exact if_pos hidle
    rw [Instruction.hasMemoryOperand, hnone] at hmemory
    exact absurd hmemory (by decide)
  refine ⟨d, hheading.mem, ?_, ?_, ?_⟩
  · simp only [assemble_mnemonic_eq, hbusy, Bool.false_eq_true, if_false]
    split
    · next hnop => exact Or.inr ⟨hnop.1, rfl⟩
    · exact Or.inl rfl
  · rw [assemble_operandSize]
    exact hheading.admitsSize
  · have hread := (operands_ok hops).fits
    rw [Definition.toList_entry_operands] at hread
    rw [assemble_operands_eq, assemble_operandSize, assemble_mode, hbusy, if_neg Bool.false_ne_true,
      Vector.toList_map, List.forall₂_map_right_iff]
    exact hread.imp fun τ o ho => ho.settle _

end Decode

/-- What is decoded follows one of the definitions, if it addresses memory. -/
theorem decodeAt_follows {t : Target} {source : Source} {offset : Nat} {pc : UInt64} {keep : Bool}
    (h : (decodeAt t source offset pc keep).error = none)
    (hmemory : (decodeAt t source offset pc keep).hasMemoryOperand = true) :
    ∃ d ∈ definitions, (decodeAt t source offset pc keep).Follows d := by
  rw [decodeAt_error] at h
  obtain ⟨i, s, hi, hrun⟩ := Decode.instruction_of_run h
  cases keep with
  | false =>
    rw [decodeAt_drop, hrun] at hmemory ⊢
    exact Decode.instruction_follows rfl hi hmemory
  | true =>
    rw [decodeAt_keep, hrun] at hmemory ⊢
    obtain ⟨d, hd, hfollows⟩ := Decode.instruction_follows rfl hi hmemory
    exact ⟨d, hd, hfollows.mnemonic, hfollows.admitsSize, hfollows.fits⟩

namespace Template

theorem mayAddressMemory_of_memoryWidth? {τ : Template} {width : Width}
    (h : τ.memoryWidth? = some width) : τ.mayAddressMemory = true := by
  cases τ with
  | regMem | mem | mmxRegMem | xmmRegMem | offset => rfl
  | _ => cases h

theorem Fits.register {n size : Nat} {b mode64 : Bool} {τ : Template} {o : Operand}
    (h : (τ.registerKind? n b).isSome = true) (ho : τ.Fits size mode64 o) :
    ∃ r, o = .register r ∧ τ.registerKind? size mode64 = some (r.isSegment, r.size) ∧
      ∀ r', τ = fixed r' → r = r' := by
  cases o with
  | register r =>
    refine ⟨r, rfl, ho.resolve_left ?_⟩
    cases τ with
    | regMem | mem | mmxRegMem | xmmRegMem | offset => cases h
    | _ => exact Bool.false_ne_true
  | memory m =>
    obtain ⟨width, hwidth, -⟩ := ho
    cases τ with
    | regMem | mem | mmxRegMem | xmmRegMem | offset => cases h
    | _ => cases hwidth
  | absent | far =>
    cases ho
    cases h
  | relative =>
    obtain ⟨width, rfl⟩ := ho
    cases h
  | immediate | constant =>
    have hconstant : τ.isConstant = true := ho
    cases τ with
    | imm | immSigned | constant => cases h
    | _ => cases hconstant

theorem Fits.absent {size : Nat} {mode64 : Bool} {o : Operand}
    (h : Template.absent.Fits size mode64 o) : o = .absent := by
  cases o with
  | absent => rfl
  | register r =>
    obtain hmay | ⟨hkind, -⟩ := h
    · cases hmay
    · cases hkind
  | memory m =>
    obtain ⟨width, hwidth, -⟩ := h
    cases hwidth
  | relative =>
    obtain ⟨width, hwidth⟩ := h
    cases hwidth
  | immediate | constant | far => cases h

theorem Fits.constant {size : Nat} {mode64 : Bool} {τ : Template} {o : Operand}
    (h : τ.isConstant = true ∨ τ.isAbsent = true) (ho : τ.Fits size mode64 o) :
    o.isAbsent = true ∨ o.isImmediate = true := by
  cases o with
  | absent => exact Or.inl rfl
  | immediate | constant => exact Or.inr rfl
  | register r =>
    obtain hmay | ⟨hkind, -⟩ := ho
    all_goals
      cases τ with
      | imm | immSigned | constant | absent => contradiction
      | _ => simp [isConstant, isAbsent] at h
  | memory m =>
    obtain ⟨width, hwidth, -⟩ := ho
    cases τ with
    | imm | immSigned | constant | absent => cases hwidth
    | _ => simp [isConstant, isAbsent] at h
  | relative =>
    obtain ⟨width, rfl⟩ := ho
    simp [isConstant, isAbsent] at h
  | far =>
    cases ho
    simp [isConstant, isAbsent] at h

end Template

/-- Where the memory operand of an instruction stands: alone or before a constant, shifted by `cl`,
or beside a register in a placement of the definition. -/
inductive Instruction.Places (i : Instruction) (d : Definition) (m : MemoryOperand) : Prop
  | alone (first : i.operands.get 0 = .memory m)
      (second : (i.operands.get 1).isAbsent = true ∨ (i.operands.get 1).isImmediate = true)
  | shifted (first : i.operands.get 0 = .memory m) (second : i.operands.get 1 = .register .cl)
      (shift : i.mnemonic.isShiftOrRotate = true)
  | before (r : Register) (first : i.operands.get 0 = .memory m)
      (second : i.operands.get 1 = .register r) (mnemonic : i.mnemonic = d.mnemonic)
      (placement : ⟨false, r.isSegment, r.size, m.size, i.mode.is64⟩ ∈ d.placements)
  | behind (r : Register) (first : i.operands.get 0 = .register r)
      (second : i.operands.get 1 = .memory m) (mnemonic : i.mnemonic = d.mnemonic)
      (placement : ⟨true, r.isSegment, r.size, m.size, i.mode.is64⟩ ∈ d.placements)

theorem Instruction.IsWellFormed.mem_sizedModes {i : Instruction} (h : i.IsWellFormed) :
    (i.operandSize, i.mode.is64) ∈ sizedModes := by
  have hsize := h.operandSize
  simp only [List.mem_cons, List.not_mem_nil, or_false] at hsize
  obtain hsize | hsize | hsize := hsize
  · rw [hsize]
    cases i.mode.is64 <;> decide
  · rw [hsize]
    cases i.mode.is64 <;> decide
  · rw [hsize, h.operandSize64 hsize]
    decide

theorem Lookup.Definition.mem_placements {d : Definition} {size : Nat} {mode64 : Bool} {p : Placement}
    (hsize : (size, mode64) ∈ sizedModes) (hadmits : d.admitsSize size = true)
    (hp : p ∈ d.placementsAt size mode64) : p ∈ d.placements :=
  List.mem_flatMap.mpr ⟨(size, mode64), List.mem_filter.mpr ⟨hsize, hadmits⟩, hp⟩

theorem Template.placement?_eq {second : Bool} {size : Nat} {mode64 : Bool} {τ τ' : Template}
    {m : MemoryOperand} {r : Register} (hm : τ.Fits size mode64 (.memory m))
    (hr : τ'.registerKind? size mode64 = some (r.isSegment, r.size)) :
    placement? second size mode64 τ τ' = some ⟨second, r.isSegment, r.size, m.size, mode64⟩ := by
  obtain ⟨width, hwidth, hbits⟩ := hm
  rw [placement?, hwidth, hr, hbits]

namespace Lookup.Definition

variable {d : Definition}

theorem mem_operands_of_mayAddressMemory {k : Nat}
    (h : (d.operands.getD k .absent).mayAddressMemory = true) :
    d.operands.getD k .absent ∈ d.operands := by
  by_cases hk : k < d.operands.length
  · rw [List.getD_eq_getElem _ _ hk]
    exact List.getElem_mem hk
  · rw [List.getD_eq_default _ _ (Nat.not_lt.mp hk)] at h
    cases h

theorem laysMemory_of_mem (hd : d ∈ definitions) {τ : Template} (hτ : τ ∈ d.operands)
    (hmay : τ.mayAddressMemory = true) : d.laysMemory = true := by
  have hplaces := List.all_eq_true.mp definitions_placesMemory d hd
  rw [placesMemory, Bool.and_eq_true, Bool.or_eq_true] at hplaces
  refine hplaces.1.resolve_left ?_
  intro hnone
  have hnot := List.all_eq_true.mp hnone τ hτ
  rw [hmay] at hnot
  cases hnot

theorem lt_two_of_mayAddressMemory (hd : d ∈ definitions) {k : Nat}
    (h : (d.operands.getD k .absent).mayAddressMemory = true) : k < 2 := by
  by_contra hk
  obtain ⟨j, rfl⟩ : ∃ j, k = 2 + j := ⟨k - 2, by omega⟩
  have hmem := mem_operands_of_mayAddressMemory h
  have hlays := laysMemory_of_mem hd hmem h
  simp only [laysMemory, Bool.and_eq_true] at hlays
  have hlength : 2 + j < d.operands.length := by
    by_contra hle
    rw [List.getD_eq_default _ _ (Nat.not_lt.mp hle)] at h
    cases h
  have hdrop : d.operands.getD (2 + j) .absent ∈ d.operands.drop 2 := by
    rw [List.getD_eq_getElem _ _ hlength, List.mem_iff_getElem]
    exact ⟨j, by rw [List.length_drop]; omega, List.getElem_drop⟩
  have hnot := List.all_eq_true.mp hlays.1.1.1 _ hdrop
  rw [h] at hnot
  cases hnot

/-- Before memory stands a register, and behind it a register, a constant or nothing. -/
theorem beside_memory (hd : d ∈ definitions) :
    ((d.operands.getD 1 .absent).mayAddressMemory = true →
      ((d.operands.getD 0 .absent).registerKind? 16 false).isSome = true) ∧
    ((d.operands.getD 0 .absent).mayAddressMemory = true →
      ((d.operands.getD 1 .absent).registerKind? 16 false).isSome = true ∨
        (d.operands.getD 1 .absent).isConstant = true ∨
        (d.operands.getD 1 .absent).isAbsent = true) := by
  constructor
  · intro h
    have hlays := laysMemory_of_mem hd (mem_operands_of_mayAddressMemory h) h
    simp only [laysMemory, Bool.and_eq_true, if_pos h] at hlays
    exact hlays.1.2
  · intro h
    have hlays := laysMemory_of_mem hd (mem_operands_of_mayAddressMemory h) h
    simp only [laysMemory, Bool.and_eq_true] at hlays
    obtain ⟨⟨-, hbeside⟩, -⟩ := hlays
    split at hbeside
    · generalize d.operands.getD 0 .absent = τ at h hbeside
      cases τ with
      | regMem | mem | mmxRegMem | xmmRegMem | offset => cases hbeside
      | _ => cases h
    · simpa only [Bool.or_eq_true, or_assoc] using hbeside

theorem ne_nop_of_second (hd : d ∈ definitions) (h : (d.operands.getD 1 .absent).isAbsent = false) :
    d.mnemonic ≠ .NOP := by
  intro hnop
  have hplaces := List.all_eq_true.mp definitions_placesMemory d hd
  rw [placesMemory, hnop, h, Bool.and_eq_true] at hplaces
  cases hplaces.2

end Lookup.Definition

theorem Instruction.Follows.places {i : Instruction} {d : Definition} (h : i.Follows d)
    (hd : d ∈ definitions) (hwell : i.IsWellFormed) {m : MemoryOperand}
    (hm : .memory m ∈ i.operands.toList) : i.Places d m := by
  have hfits := h.fits
  rw [Decode.toList_of_four] at hm hfits
  simp only [Definition.templates, List.forall₂_cons, List.forall₂_nil_right_iff, and_true] at hfits
  obtain ⟨hfits₀, hfits₁, hfits₂, hfits₃⟩ := hfits
  have hmay {k : Nat} (hk : (d.operands.getD k .absent).Fits i.operandSize i.mode.is64 (.memory m)) :
      (d.operands.getD k .absent).mayAddressMemory = true := by
    obtain ⟨width, hwidth, -⟩ := hk
    exact Template.mayAddressMemory_of_memoryWidth? hwidth
  have hmnemonic (hτ : (d.operands.getD 1 .absent).isAbsent = false) : i.mnemonic = d.mnemonic :=
    h.mnemonic.resolve_right fun hnop => Definition.ne_nop_of_second hd hτ hnop.1
  have hmem (p : Placement) (hp : p ∈ d.placementsAt i.operandSize i.mode.is64) : p ∈ d.placements :=
    Definition.mem_placements hwell.mem_sizedModes h.admitsSize hp
  simp only [List.mem_cons, List.not_mem_nil, or_false] at hm
  obtain hm | hm | hm | hm := hm
  · rw [← hm] at hfits₀
    obtain hkind | hother := (Definition.beside_memory hd).2 (hmay hfits₀)
    · obtain ⟨r, hr, hkind, hfixed⟩ := hfits₁.register hkind
      have hsecond : (d.operands.getD 1 .absent).isAbsent = false := by
        generalize d.operands.getD 1 .absent = τ at hkind
        cases τ with
        | absent => cases hkind
        | _ => rfl
      by_cases hshift : d.mnemonic.isShiftOrRotate = true ∧ d.operands.getD 1 .absent = .fixed .cl
      · obtain rfl := hfixed _ hshift.2
        exact .shifted hm.symm hr (by rw [hmnemonic hsecond]; exact hshift.1)
      · refine .before r hm.symm hr (hmnemonic hsecond) (hmem _ ?_)
        rw [Definition.placementsAt, List.mem_append]
        left
        rw [if_neg hshift, Template.placement?_eq hfits₀ hkind]
        exact List.mem_singleton_self _
    · exact .alone hm.symm (hfits₁.constant hother)
  · rw [← hm] at hfits₁
    obtain ⟨r, hr, hkind, -⟩ := hfits₀.register ((Definition.beside_memory hd).1 (hmay hfits₁))
    have hsecond : (d.operands.getD 1 .absent).isAbsent = false := by
      have hmemory := hmay hfits₁
      generalize d.operands.getD 1 .absent = τ at hmemory
      cases τ with
      | absent => cases hmemory
      | _ => rfl
    refine .behind r hr hm.symm (hmnemonic hsecond) (hmem _ ?_)
    rw [Definition.placementsAt, List.mem_append]
    right
    rw [Template.placement?_eq hfits₁ hkind]
    exact List.mem_singleton_self _
  · rw [← hm] at hfits₂
    exact absurd (Definition.lt_two_of_mayAddressMemory hd (hmay hfits₂)) (by decide)
  · rw [← hm] at hfits₃
    exact absurd (Definition.lt_two_of_mayAddressMemory hd (hmay hfits₃)) (by decide)

theorem Instruction.Follows.exists_fits {i : Instruction} {d : Definition} (h : i.Follows d)
    {o : Operand} (ho : o ∈ i.operands.toList) (habsent : o.isAbsent = false) :
    ∃ τ ∈ d.operands, τ.Fits i.operandSize i.mode.is64 o := by
  obtain ⟨k, hk, rfl⟩ := List.mem_iff_getElem.mp ho
  have hlength := h.fits.length_eq
  have hfits := h.fits.get (hlength ▸ hk) hk
  obtain hmem | hnone := Definition.mem_templates (List.get_mem d.templates ⟨k, hlength ▸ hk⟩)
  · exact ⟨_, hmem, hfits⟩
  · rw [hnone] at hfits
    rw [show i.operands.toList[k] = .absent from hfits.absent] at habsent
    cases habsent

/-- With memory that has a size, the mnemonic is none of those whose text has a form of its own, and
no operand is a far pointer. -/
theorem Instruction.Follows.regular {i : Instruction} {d : Definition} (h : i.Follows d)
    (hd : d ∈ definitions) {m : MemoryOperand} (hm : .memory m ∈ i.operands.toList)
    (hsize : m.size ≠ 0) :
    i.mnemonic ≠ .RETF ∧ i.mnemonic.keepsOperandOrder = false ∧ ∀ p, .far p ∉ i.operands.toList := by
  obtain ⟨τ, hτ, width, hwidth, hbits⟩ := h.exists_fits hm rfl
  have hlays := Definition.laysMemory_of_mem hd hτ (Template.mayAddressMemory_of_memoryWidth? hwidth)
  simp only [Definition.laysMemory, Bool.and_eq_true, Bool.or_eq_true] at hlays
  obtain ⟨⟨⟨-, hfar⟩, -⟩, hform⟩ := hlays
  have hsized : ¬ d.operands.all (·.memoryWidth?.all (· == .unsized)) = true := by
    intro hall
    have hunsized := List.all_eq_true.mp hall τ hτ
    rw [hwidth, Option.all_some, beq_iff_eq] at hunsized
    rw [hunsized] at hbits
    exact hsize hbits
  have hplain : d.mnemonic ≠ .RETF ∧ d.mnemonic.keepsOperandOrder = false := by
    simpa using hform.resolve_right hsized
  have hmnemonic : i.mnemonic ≠ .RETF ∧ i.mnemonic.keepsOperandOrder = false := by
    obtain heq | ⟨-, heq⟩ := h.mnemonic
    · rw [heq]
      exact hplain
    · rw [heq]
      decide
  refine ⟨hmnemonic.1, hmnemonic.2, ?_⟩
  intro p hp
  obtain ⟨τ', hτ', rfl⟩ := h.exists_fits hp rfl
  simp [hτ'] at hfar

section Sizes

variable {d d' : Definition} {m m' : MemoryOperand} {r : Register} {mode64 mode64' : Bool}

theorem size_eq_of_before (hd : d ∈ definitions) (hd' : d' ∈ definitions)
    (hmnemonic : d.mnemonic = d'.mnemonic) (hr : r.isSegment = false)
    (hp : ⟨false, r.isSegment, r.size, m.size, mode64⟩ ∈ d.placements)
    (hp' : ⟨false, r.isSegment, r.size, m'.size, mode64'⟩ ∈ d'.placements) : m.size = m'.size :=
  memorySize_of_isLike hd hd' hmnemonic hp hp' (by simp [Placement.isLike]) hr

theorem size_eq_of_behind (hd : d ∈ definitions) (hd' : d' ∈ definitions)
    (hmnemonic : d.mnemonic = d'.mnemonic)
    (hr : r.isSegment = true ∨ d.mnemonic.mixesSizes (mode64 || mode64') = false)
    (hp : ⟨true, r.isSegment, r.size, m.size, mode64⟩ ∈ d.placements)
    (hp' : ⟨true, r.isSegment, r.size, m'.size, mode64'⟩ ∈ d'.placements) : m.size = m'.size := by
  refine memorySize_of_isLike hd hd' hmnemonic hp hp' (by simp [Placement.isLike]) ?_
  obtain hr | hr := hr
  · simp [Placement.isOpen, hr]
  · simp [Placement.isOpen, hr]

end Sizes

/-- A decoded instruction with a memory operand, and the definition that it follows. -/
structure Instruction.Accesses (i : Instruction) (m : MemoryOperand) (d : Definition) : Prop where
  error : i.error = none
  wellFormed : i.IsWellFormed
  memory : .memory m ∈ i.operands.toList
  definition : d ∈ definitions
  follows : i.Follows d
  places : i.Places d m

theorem exists_accesses {t : Target} {b : Array UInt8} {pc : UInt64} {m : MemoryOperand}
    (h : (decode t b pc).error = none) (hm : .memory m ∈ (decode t b pc).operands.toList) :
    ∃ d, (decode t b pc).Accesses m d := by
  have hwell : (decode t b pc).IsWellFormed := by
    rw [decode, decodeAt_keep]
    exact (Decode.run_isWellFormed ((decodeAt_error ..).symm.trans h)).2.keeping _
  obtain ⟨d, hd, hfollows⟩ := decodeAt_follows h (List.any_eq_true.mpr ⟨_, hm, rfl⟩)
  exact ⟨d, h, hwell, hm, hd, hfollows, hfollows.places hd hwell hm⟩

namespace Instruction.Places

variable {i : Instruction} {d : Definition} {m : MemoryOperand}

theorem first (h : i.Places d m) :
    i.operands.get 0 = .memory m ∨ ∃ r, i.operands.get 0 = .register r := by
  cases h with
  | alone first | shifted first | before _ first => exact Or.inl first
  | behind r first => exact Or.inr ⟨r, first⟩

theorem present (h : i.Places d m) : (i.operands.get 0).isAbsent = false := by
  obtain hfirst | ⟨r, hfirst⟩ := h.first
  all_goals
    rw [hfirst]
    rfl

theorem behind_of_register (h : i.Places d m) {r : Register}
    (hr : i.operands.get 0 = .register r) :
    i.operands.get 1 = .memory m ∧ i.mnemonic = d.mnemonic ∧
      ⟨true, r.isSegment, r.size, m.size, i.mode.is64⟩ ∈ d.placements := by
  cases h with
  | alone first | shifted first | before _ first => cases hr.symm.trans first
  | behind r' first second mnemonic placement =>
    cases hr.symm.trans first
    exact ⟨second, mnemonic, placement⟩

end Instruction.Places

section ActiveOperands

variable {i : Instruction} (h : (i.operands.get 0).isAbsent = false)

include h

theorem Instruction.activeOperands_zero : i.activeOperands[0]? = some (i.operands.get 0) := by
  rw [activeOperands, Decode.toList_of_four, List.takeWhile_cons_of_pos (by simp [h])]
  rfl

theorem Instruction.operandCount_ne_zero : i.operandCount ≠ 0 := by
  intro hzero
  have hfirst := activeOperands_zero h
  rw [List.length_eq_zero_iff.mp hzero] at hfirst
  cases hfirst

theorem Instruction.activeOperands_one : i.activeOperands[1]? =
    if (i.operands.get 1).isAbsent then none else some (i.operands.get 1) := by
  rw [activeOperands, Decode.toList_of_four, List.takeWhile_cons_of_pos (by simp [h])]
  by_cases hsecond : (i.operands.get 1).isAbsent = true
  · rw [List.takeWhile_cons_of_neg (by simp [hsecond]), if_pos hsecond]
    rfl
  · rw [List.takeWhile_cons_of_pos (by simp [hsecond]), if_neg hsecond]
    rfl

end ActiveOperands

end X86
