import X86.Proofs.WellFormedOperands

/-!
Every instruction that is decoded without an error is well formed. Registers of 64 bits are named
only by definitions that select a 64-bit operand size or 64-bit mode, and far pointers only by
definitions that are invalid in 64-bit mode; outside that mode no REX byte is in effect.
-/

namespace X86

open Lookup

namespace Lookup.Definition

/-- Whether the definition can be found in 64-bit mode only. -/
def isLong (d : Definition) : Bool :=
  d.steps.any fun s =>
    (s.axis == .operandSize && s.index.val == 2) || (s.axis == .mode && s.index.val == 1)

/-- The entry has a name, its operands stand in the first slots, and it asks for no operand that the
modes it can be found in do not have. -/
def isSound (d : Definition) : Bool :=
  d.mnemonic != .INVALID &&
    decide (d.templates.Pairwise fun τ τ' => (!τ.isAbsent || τ'.isAbsent) = true) &&
    (d.isLong || d.templates.all Template.isLegacy) &&
    (!d.templates.contains .farPointer || d.entryFlags.invalid64)

end Lookup.Definition

theorem definitions_isSound : definitions.all Definition.isSound = true := by
  decide +kernel

namespace Mode

theorem operandSize_mem (mode : Mode) (wide override : Bool) :
    mode.operandSize wide override ∈ [16, 32, 64] := by
  cases mode <;> cases wide <;> cases override <;> decide

theorem eq_bits64_of_operandSize {mode : Mode} {wide override : Bool}
    (h : mode.operandSize wide override = 64) : mode = .bits64 := by
  cases mode with
  | bits16 | bits32 => cases override <;> cases h
  | bits64 => rfl

theorem eq_bits64_of_addressSize {mode : Mode} {override : Bool}
    (h : mode.addressSize override = 64) : mode = .bits64 := by
  cases mode with
  | bits16 | bits32 => cases override <;> cases h
  | bits64 => rfl

theorem ne_bits64_of_addressSize {mode : Mode} {override : Bool}
    (h : mode.addressSize override = 16) : mode ≠ .bits64 := by
  rintro rfl
  cases override <;> cases h

end Mode

theorem PrefixState.absorb?_rex {mode : Mode} {p p' : PrefixState} {b : UInt8}
    (hmode : mode.is64 = false) (h : p.absorb? mode b = some p') : p'.rex = {} := by
  simp only [absorb?, hmode, Bool.false_and, Bool.false_eq_true, ↓reduceIte] at h
  split at h
  · exact Option.some.inj h ▸ rfl
  split at h
  · exact Option.some.inj h ▸ rfl
  split at h
  · exact Option.some.inj h ▸ rfl
  split at h
  · exact Option.some.inj h ▸ rfl
  split at h
  · exact Option.some.inj h ▸ rfl
  obtain ⟨segment, -, rfl⟩ := Option.map_eq_some_iff.mp h
  rfl

theorem Setting.mode_of_isLong {v : Setting} {d : Definition} (hd : d.isLong = true)
    (h : v.admits d.steps = true) : v.target.mode = .bits64 := by
  rw [Definition.isLong, List.any_eq_true] at hd
  obtain ⟨s, hs, hlong⟩ := hd
  rw [admits, Bool.and_eq_true] at h
  have hagrees := List.all_eq_true.mp h.1 s hs
  simp only [Bool.or_eq_true, Bool.and_eq_true, beq_iff_eq] at hlong
  obtain ⟨haxis, hindex⟩ | ⟨haxis, hindex⟩ := hlong
  · -- The third slot is that of a 64-bit operand size, which other modes do not have.
    simp only [agrees, haxis, hindex, beq_iff_eq, operandSize] at hagrees
    have hmem := v.target.mode.operandSize_mem v.prefixes.rex.w
      (v.prefixes.without v.choice).operandSize
    simp only [List.mem_cons, List.not_mem_nil, or_false] at hmem
    obtain h | h | h := hmem
    · rw [h] at hagrees
      cases hagrees
    · rw [h] at hagrees
      cases hagrees
    · exact Mode.eq_bits64_of_operandSize h
  · simp only [agrees, haxis, hindex, beq_iff_eq] at hagrees
    by_contra hmode
    rw [Mode.is64_eq_false hmode] at hagrees
    cases hagrees

def Operand.Packed (os : List Operand) : Prop :=
  os.Pairwise fun o o' => o.isAbsent = true → o'.isAbsent = true

/-- A decoded instruction as it should be: it has a name, its operands stand in the first slots, its
sizes go with its mode, and its operands with both. -/
structure Instruction.IsWellFormed (i : Instruction) : Prop where
  mnemonic : i.mnemonic ≠ .INVALID
  packed : Operand.Packed i.operands.toList
  memory : i.operands.toList.countP Operand.isMemory ≤ 1
  operandSize : i.operandSize ∈ [16, 32, 64]
  operandSize64 : i.operandSize = 64 → i.mode = .bits64
  addressSize : i.addressSize ∈ [16, 32, 64]
  addressSize64 : i.addressSize = 64 → i.mode = .bits64
  addressSize16 : i.addressSize = 16 → i.mode ≠ .bits64
  operands : ∀ o ∈ i.operands.toList, o.IsWellFormed i.mode i.operandSize i.addressSize
  valid64 : i.mode = .bits64 → i.flags.invalid64 = false

theorem Instruction.IsWellFormed.keeping {i : Instruction} (h : i.IsWellFormed) (bs : List UInt8) :
    (i.keeping bs).IsWellFormed :=
  ⟨h.mnemonic, h.packed, h.memory, h.operandSize, h.operandSize64, h.addressSize, h.addressSize64,
    h.addressSize16, h.operands, h.valid64⟩

namespace Decode

theorem scanPrefixes_rex {mode : Mode} {budget : Nat} {s s' : State} {first : UInt8}
    (hmode : mode.is64 = false) (hs : s.prefixes.rex = {})
    (h : scanPrefixes mode budget s = .ok first s') : s'.prefixes.rex = {} := by
  induction budget generalizing s with
  | zero => exact absurd h (by simp [scanPrefixes])
  | succ budget ih =>
    obtain ⟨b, -, h⟩ := scanPrefixes_succ_ok.mp h
    cases hp : PrefixState.absorb? mode s.prefixes b with
    | some p =>
      rw [hp] at h
      exact ih (PrefixState.absorb?_rex hmode hp) h
    | none =>
      rw [hp] at h
      obtain ⟨-, rfl⟩ := h
      exact hs

theorem Found.rex_eq {s s' : State} {first : UInt8} {n : Nat} (h : Found s first n s') :
    s'.prefixes.rex = s.prefixes.rex := by
  obtain ⟨d, bs, s₁, -, -, hpast, m, -, hs'⟩ := h
  obtain ⟨-, hp, -, -⟩ := State.past?_eq_some hpast
  obtain rfl | ⟨rfl, -⟩ := hs'
  · rw [State.spend_prefixes, PrefixState.without_rex, hp]
  · rw [State.spend_prefixes, PrefixState.without_rex, State.fetched_prefixes, hp]

/-- Outside 64-bit mode an entry is found without REX, and its definition is not a long one. -/
theorem entry_legacy {t : Target} {s s' : State} {e : Entry} (hs : s.modRM = none)
    (hrex : s.prefixes.rex = {}) (h : entry instructionTable t s = .ok e s') :
    ∃ d ∈ definitions, e = d.entry ∧ (d.isLong = true → t.mode = .bits64) ∧
      (t.mode ≠ .bits64 → s'.prefixes.rex = {}) := by
  obtain ⟨first, s₁, n, d, hprefixes, hd, rfl, hscan, hfound⟩ := found_of_entry hs h
  refine ⟨d, List.mem_of_getElem? hd, rfl, ?_, ?_⟩
  · intro hlong
    obtain ⟨m, -, hdescribes⟩ := describes_of_scan hscan hd
    rw [Definition.describes, Bool.and_eq_true] at hdescribes
    exact Setting.mode_of_isLong hlong hdescribes.2
  · intro hmode
    have hrex₁ := scanPrefixes_rex (Mode.is64_eq_false hmode) hrex hprefixes
    exact hfound.rex_eq.trans hrex₁

theorem frameOf_isSound {t : Target} {e : Entry} {s : State}
    (hrex : t.mode ≠ .bits64 → s.prefixes.rex = {}) : (frameOf t e s).IsSound := by
  have hsize : operandSizeOf t.mode s.prefixes e.flags ∈ [16, 32, 64] ∧
      (operandSizeOf t.mode s.prefixes e.flags = 64 → t.mode = .bits64) := by
    unfold operandSizeOf
    split
    · next h => exact ⟨by decide, fun _ => h.1⟩
    · exact ⟨t.mode.operandSize_mem _ _, Mode.eq_bits64_of_operandSize⟩
  exact ⟨hsize.1, hsize.2, addressSize_mem _ _, Mode.eq_bits64_of_addressSize,
    Mode.ne_bits64_of_addressSize, hrex⟩

theorem permits_of_isSound {t : Target} {d : Definition} {s : State} (hd : d.isSound = true)
    (hlong : d.isLong = true → t.mode = .bits64)
    (hvalid : (t.mode.is64 && d.entry.flags.invalid64) = false) :
    ∀ τ ∈ d.templates, (frameOf t d.entry s).Permits τ := by
  simp only [Definition.isSound, Bool.and_eq_true, Bool.or_eq_true, Bool.not_eq_true'] at hd
  obtain ⟨⟨-, hlegacy⟩, hfar⟩ := hd
  intro τ hτ
  refine ⟨?_, ?_⟩
  · intro hmode
    have hall := hlegacy.resolve_left (mt hlong hmode)
    exact List.all_eq_true.mp hall τ hτ
  · rintro rfl hmode
    have hinvalid := hfar.resolve_left (by simpa using hτ)
    rw [show t.mode = .bits64 from hmode] at hvalid
    exact absurd hinvalid (by simpa [Mode.is64, Definition.entry] using hvalid)

theorem operands_isWellFormed {t : Target} {d : Definition} {s s₁ s' : State}
    {ops : Vector Operand 4} (hd : d ∈ definitions) (hlong : d.isLong = true → t.mode = .bits64)
    (hvalid : (t.mode.is64 && d.entry.flags.invalid64) = false)
    (hf : (frameOf t d.entry s).IsSound)
    (h : operands (frameOf t d.entry s) d.entry.operands s₁ = .ok ops s') :
    (∀ o ∈ ops.toList, o.IsWellFormed t.mode (frameOf t d.entry s).operandSize
      (frameOf t d.entry s).addressSize) ∧ Operand.Packed ops.toList := by
  have hsound := List.all_eq_true.mp definitions_isSound d hd
  have horderly := List.all_eq_true.mp definitions_isOrderly d hd
  have hyields := operands_ok h
  rw [Definition.toList_entry_operands] at hyields
  simp only [Definition.isOrderly, Bool.and_eq_true] at horderly
  obtain ⟨hops, habsent⟩ :=
    hyields.isWellFormed hf (permits_of_isSound hsound hlong hvalid) horderly.1.2
  refine ⟨hops, ?_⟩
  simp only [Definition.isSound, Bool.and_eq_true, decide_eq_true_eq] at hsound
  have hslots : d.templates.Pairwise fun τ τ' => τ.isAbsent = true → τ'.isAbsent = true := by
    refine hsound.1.1.2.imp ?_
    intro τ τ' h hτ
    rwa [hτ, Bool.not_true, Bool.false_or] at h
  have hpacked := (List.pairwise_map (R := fun a b : Bool => a = true → b = true)).mpr hslots
  rw [← habsent] at hpacked
  exact List.pairwise_map.mp hpacked

theorem assemble_isWellFormed {t : Target} {e : Entry} {s : State} {ops : Vector Operand 4}
    (pc : UInt64) (n : Nat) (hf : (frameOf t e s).IsSound)
    (hops : ∀ o ∈ ops.toList, o.IsWellFormed t.mode (frameOf t e s).operandSize
      (frameOf t e s).addressSize) (hpacked : Operand.Packed ops.toList) :
    (∀ o ∈ (assemble t pc e s ops n).operands.toList,
      o.IsWellFormed t.mode (frameOf t e s).operandSize (frameOf t e s).addressSize) ∧
    Operand.Packed (assemble t pc e s ops n).operands.toList := by
  obtain heq | ⟨-, heq⟩ := assemble_operands t pc e s ops n
  · rw [heq, Vector.toList_map]
    refine ⟨?_, ?_⟩
    · rw [List.forall_mem_map]
      exact fun o ho => (hops o ho).settle hf.operandSize _
    · simpa only [Operand.Packed, List.pairwise_map, Operand.isAbsent_settleTarget] using hpacked
  · rw [heq]
    refine ⟨?_, by unfold Operand.Packed; decide⟩
    intro o ho
    obtain rfl : o = .absent := by simpa [noOperands] using ho
    trivial

theorem instruction_isWellFormed {t : Target} {pc : UInt64} {s s' : State} {i : Instruction}
    (hs : s.modRM = none) (hrex : s.prefixes.rex = {})
    (h : instruction instructionTable t pc s = .ok i s') : i.mode = t.mode ∧ i.IsWellFormed := by
  obtain ⟨l, hfits, -⟩ := instruction_layout hs h
  obtain ⟨e, s₁, he, hc, -⟩ := instruction_ok.mp h
  obtain ⟨hvalid, s₂, ops, -, hops, rfl⟩ := complete_ok.mp hc
  obtain ⟨d, hd, rfl, hlong, hrex₁⟩ := entry_legacy hs hrex he
  have hf : (frameOf t d.entry s₁).IsSound := frameOf_isSound hrex₁
  obtain ⟨hread, hslots⟩ := operands_isWellFormed hd hlong hvalid hf hops
  obtain ⟨hoperands, hpacked⟩ := assemble_isWellFormed pc s'.cursor.consumed hf hread hslots
  refine ⟨assemble_mode .., ?_, hpacked, hfits.memory, ?_, ?_, ?_, ?_, ?_, ?_, ?_⟩
  · have hsound := List.all_eq_true.mp definitions_isSound d hd
    simp only [Definition.isSound, Bool.and_eq_true, bne_iff_ne] at hsound
    obtain h | h | h := assemble_mnemonic t pc d.entry s₁ ops s'.cursor.consumed
    · rw [h]
      exact hsound.1.1.1
    · simp [h]
    · simp [h]
  all_goals simp only [assemble_mode, assemble_operandSize, assemble_addressSize, assemble_flags]
  · exact hf.operandSize
  · exact hf.operandSize64
  · exact hf.addressSize
  · exact hf.addressSize64
  · exact hf.addressSize16
  · exact hoperands
  · intro hmode
    simpa [hmode, Mode.is64] using hvalid

theorem run_isWellFormed {t : Target} {source : Source} {offset : Nat} {pc : UInt64}
    (h : (run instructionTable t source offset pc).1.error = none) :
    (run instructionTable t source offset pc).1.mode = t.mode ∧
      (run instructionTable t source offset pc).1.IsWellFormed := by
  obtain ⟨i, s, hi, hrun⟩ := instruction_of_run h
  rw [hrun]
  exact instruction_isWellFormed rfl rfl hi

end Decode

/-- An instruction that is decoded without an error is well formed, for the mode that it was decoded
in. -/
theorem decodeAt_isWellFormed (t : Target) (source : Source) (offset : Nat) (pc : UInt64)
    (keep : Bool) (h : (decodeAt t source offset pc keep).error = none) :
    (decodeAt t source offset pc keep).mode = t.mode ∧
      (decodeAt t source offset pc keep).IsWellFormed := by
  rw [decodeAt_error] at h
  obtain ⟨hmode, hwell⟩ := Decode.run_isWellFormed h
  cases keep with
  | true =>
    rw [decodeAt_keep]
    exact ⟨hmode, hwell.keeping _⟩
  | false =>
    rw [decodeAt_drop]
    exact ⟨hmode, hwell⟩

theorem decodeAt_isWellFormed_lockedAdd :
    (decodeAt ⟨.bits32, .any⟩ (.ofArray lockedAdd) 0 0 true).error = none ∧
      (decodeAt ⟨.bits32, .any⟩ (.ofArray lockedAdd) 0 0 true).mode = .bits32 ∧
      (decodeAt ⟨.bits32, .any⟩ (.ofArray lockedAdd) 0 0 true).IsWellFormed :=
  ⟨decode_lockedAdd.1, decodeAt_isWellFormed ⟨.bits32, .any⟩ _ 0 0 true decode_lockedAdd.1⟩

end X86
