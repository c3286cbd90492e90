import X86.Proofs.InertPrefixes

/-!
Instructions that read `nop` and `pause`. The one-byte exchange of the accumulator with itself does,
and so does opcode 0F 1F; which of the two words it is depends on the last repeat prefix alone.
-/

namespace X86

open Lookup

/-- The word for an instruction that does nothing, by the last repeat prefix in front of it. -/
def idleName (last : Option Repeat) : Mnemonic :=
  if last = some .f3 then .PAUSE else .NOP

theorem idleName_eq_pause {last : Option Repeat} : idleName last = .PAUSE ↔ last = some .f3 := by
  unfold idleName
  split <;> simp_all

/-- The readings of a decoded instruction. Either it is the idle exchange, which loses its operands,
or it has opcode 0F 1F, or it reads otherwise and is no idle exchange. -/
inductive Instruction.Reading (last : Option Repeat) (i : Instruction) : Prop
  | idle (opcode : i.opcode = Opcode.ofByte 0x90) (mnemonic : i.mnemonic = idleName last)
      (operands : i.operands = noOperands)
  | hint (opcode : i.opcode = ⟨.ext0F, 0x1F⟩) (mnemonic : i.mnemonic = idleName last)
  | busy (opcode : i.opcode ≠ ⟨.ext0F, 0x1F⟩) (notNop : i.mnemonic ≠ .NOP)
      (notPause : i.mnemonic ≠ .PAUSE)
      (operands : Decode.isIdleExchange i.mnemonic i.opcode i.operands = false)

namespace Lookup.Definition

/-- Whether nothing but the fold can make the definition read `nop` or `pause`, opcode 0F 1F apart. A
definition that the fold can reach leaves repeat prefixes alone. -/
def isFoldable (d : Definition) : Bool :=
  (d.mnemonic = .NOP ↔ d.opcode = ⟨.ext0F, 0x1F⟩) &&
    (d.opcode != Opcode.ofByte 0x90 && d.opcode != ⟨.ext0F, 0x1F⟩ ||
      !d.entryFlags.isString && d.steps.all (·.axis != .mandatory))

end Lookup.Definition

theorem definitions_isFoldable : definitions.all Definition.isFoldable = true := by
  decide +kernel

theorem mnemonic_eq_nop_iff {d : Definition} (hd : d ∈ definitions) :
    d.mnemonic = .NOP ↔ d.opcode = ⟨.ext0F, 0x1F⟩ := by
  have h := List.all_eq_true.mp definitions_isFoldable d hd
  rw [Definition.isFoldable, Bool.and_eq_true, decide_eq_true_eq] at h
  exact h.1

namespace Decode

theorem eq_zero_of_describes {d : Definition} {t : Target} {p : PrefixState} {m : Fin 4}
    {bytes : List UInt8} (h : d.describes t p m bytes = true)
    (hd : d.steps.all (·.axis != .mandatory) = true) : m = 0 := by
  by_contra hm
  have hmem := (Definition.mandatory_mem_iff h hm).mpr rfl
  exact absurd (List.all_eq_true.mp hd _ hmem) (by simp [Step.mandatory])

/-- Under the opcodes that can read `nop`, the flag for F3 is set exactly if F3 is the last repeat
prefix. -/
theorem repe_iff {d : Definition} {t : Target} {p : PrefixState} {m : Fin 4} {bytes : List UInt8}
    (hd : d ∈ definitions) (hdescribes : d.describes t p m bytes = true)
    (hopcode : d.opcode = Opcode.ofByte 0x90 ∨ d.opcode = ⟨.ext0F, 0x1F⟩) :
    (reportedPrefixes d.entryFlags (p.without m)).repe = true ↔ p.repeated = some .f3 := by
  have hfoldable := List.all_eq_true.mp definitions_isFoldable d hd
  rw [Definition.isFoldable, Bool.and_eq_true, Bool.or_eq_true, Bool.and_eq_true, Bool.and_eq_true,
    bne_iff_ne, bne_iff_ne, Bool.not_eq_true'] at hfoldable
  obtain ⟨hstring, hsteps⟩ := hfoldable.2.resolve_left fun hne =>
    hopcode.elim (fun h => hne.1 h) fun h => hne.2 h
  obtain rfl := eq_zero_of_describes hdescribes hsteps
  rw [reportedPrefixes_repe, beq_iff_eq]
  show repeatFlag d.entryFlags p.repeated = _ ↔ _
  cases hr : p.repeated with
  | none => exact iff_of_false (show (0 : UInt32) ≠ PrefixFlag.repe by decide) (by simp)
  | some r =>
    cases r with
    | f2 => exact iff_of_false (show PrefixFlag.repne ≠ PrefixFlag.repe by decide) (by simp)
    | f3 => simp [repeatFlag, hstring]

theorem Heading.opcode_eq {t : Target} {s s₁ s₂ : State} {first : UInt8} {n : Nat} {d : Definition}
    {m : Fin 4} (h : Heading t s first s₁ n d m s₂) : (s₂.spend m).opcode = d.opcode := by
  rw [State.spend_opcode, (State.past?_eq_some h.past).2.2.2, Definition.opcode, h.opcodeBytes_eq]
  rfl

theorem Heading.reading {t : Target} {s s₁ s₂ : State} {first : UInt8} {n : Nat} {d : Definition}
    {m : Fin 4} (h : Heading t s first s₁ n d m s₂) (pc : UInt64) (ops : Vector Operand 4)
    (length : Nat) :
    (assemble t pc d.entry (s₂.spend m) ops length).Reading s₁.prefixes.repeated := by
  have hprefixes : (s₂.spend m).prefixes = s₁.prefixes.without m := by
    rw [State.spend_prefixes, (State.past?_eq_some h.past).2.1]
  have hnop := mnemonic_eq_nop_iff h.mem
  have hmnemonic := assemble_mnemonic_eq t pc d.entry (s₂.spend m) ops length
  have hoperands := assemble_operands_eq t pc d.entry (s₂.spend m) ops length
  have hopcode : (assemble t pc d.entry (s₂.spend m) ops length).opcode = d.opcode := by
    rw [assemble_opcode, h.opcode_eq]
  rw [h.opcode_eq] at hmnemonic hoperands
  rw [hprefixes] at hmnemonic
  -- where the instruction is idle, the repeat flag alone decides on its name
  have hname (hidle : d.opcode = Opcode.ofByte 0x90 ∨ d.opcode = ⟨.ext0F, 0x1F⟩) :
      (if Mnemonic.NOP = .NOP ∧ (reportedPrefixes d.entryFlags (s₁.prefixes.without m)).repe = true
        then Mnemonic.PAUSE else .NOP) = idleName s₁.prefixes.repeated := by
    simp only [repe_iff h.mem h.describes hidle, true_and, idleName]
  cases hidle : isIdleExchange d.entry.mnemonic d.opcode ops with
  | true =>
    rw [hidle] at hmnemonic hoperands
    have h90 : d.opcode = Opcode.ofByte 0x90 := by
      rw [isIdleExchange, decide_eq_true_eq] at hidle
      exact hidle.2.1
    exact .idle (hopcode.trans h90) (hmnemonic.trans (hname (Or.inl h90))) hoperands
  | false =>
    rw [hidle] at hmnemonic hoperands
    by_cases hlong : d.opcode = ⟨.ext0F, 0x1F⟩
    · have hd : d.entry.mnemonic = .NOP := hnop.mpr hlong
      rw [hd] at hmnemonic
      exact .hint (hopcode.trans hlong) (hmnemonic.trans (hname (Or.inr hlong)))
    · have hd : d.entry.mnemonic ≠ .NOP := fun he => hlong (hnop.mp he)
      have hkeeps : (assemble t pc d.entry (s₂.spend m) ops length).mnemonic = d.entry.mnemonic :=
        hmnemonic.trans (if_neg fun he => hd he.1)
      refine .busy (hopcode ▸ hlong) (hkeeps ▸ hd) (hkeeps ▸ mnemonic_ne_pause h.mem) ?_
      rw [hkeeps, hopcode, hoperands, if_neg Bool.false_ne_true, isIdleExchange_settle, hidle]

end Decode

namespace Instruction.Reading

variable {last : Option Repeat} {i : Instruction}

theorem keeping (h : i.Reading last) (bs : List UInt8) : (i.keeping bs).Reading last := by
  cases h with
  | idle opcode mnemonic operands => exact .idle opcode mnemonic operands
  | hint opcode mnemonic => exact .hint opcode mnemonic
  | busy opcode notNop notPause operands => exact .busy opcode notNop notPause operands

theorem opcode_of_nop (h : i.Reading last) (hi : i.mnemonic = .NOP ∨ i.mnemonic = .PAUSE) :
    i.mnemonic = idleName last ∧ (i.opcode = Opcode.ofByte 0x90 ∧ i.operands = noOperands ∨
      i.opcode = ⟨.ext0F, 0x1F⟩) := by
  cases h with
  | idle opcode mnemonic operands => exact ⟨mnemonic, Or.inl ⟨opcode, operands⟩⟩
  | hint opcode mnemonic => exact ⟨mnemonic, Or.inr opcode⟩
  | busy _ notNop notPause _ => exact (hi.elim notNop notPause).elim

end Instruction.Reading

theorem decodeAt_reading {t : Target} {source : Source} {offset : Nat} {pc : UInt64} {keep : Bool}
    (h : (decodeAt t source offset pc keep).error = none) :
    let run := (source.slice offset source.length).takeWhile (isPrefixByte t.mode)
    (decodeAt t source offset pc keep).Reading (run.filterMap Repeat.ofByte?).getLast? ∧
      ∃ d, (decodeAt t source offset pc keep).ReportsPrefixes t.mode run d := by
  intro run
  rw [decodeAt_error] at h
  obtain ⟨i, s, hi, hrun⟩ := Decode.instruction_of_run h
  obtain ⟨first, s₁, n, d, m, s₂, hheading, hcomplete, -⟩ :=
    (Decode.instruction_iff_heading rfl).mp hi
  obtain ⟨-, _, ops, -, -, rfl⟩ := Decode.complete_ok.mp hcomplete
  have hprefixes : s₁.prefixes = .ofBytes t.mode run :=
    congrArg (·.prefixes) hheading.run_eq.1
  have hreading := hheading.reading pc ops s.cursor.consumed
  have hdescribes := hheading.describes
  have hm := hheading.mem_choices
  rw [hprefixes] at hreading hdescribes hm
  have hs₂ : (s₂.spend m).prefixes = (PrefixState.ofBytes t.mode run).without m := by
    rw [Decode.State.spend_prefixes, (Decode.State.past?_eq_some hheading.past).2.1, hprefixes]
  have hreports := Decode.reportsPrefixes_assemble pc ops s.cursor.consumed hheading.mem hdescribes
    hm hs₂
  cases keep with
  | true =>
    rw [decodeAt_keep, hrun]
    exact ⟨hreading.keeping _, d, hreports.keeping _⟩
  | false =>
    rw [decodeAt_drop, hrun]
    exact ⟨hreading, d, hreports⟩

/-- An instruction reads `pause` only if the last repeat prefix is F3, and then reports no repeat
prefix; `nop` and `pause` are read only under opcode 90, without operands, and under 0F 1F. Under
opcode 0F 1F the last repeat prefix alone decides between the two, whatever the operand. What has
opcode 90 and stays an exchange does not exchange AX or EAX with itself. -/
theorem decodeAt_nop_and_pause (t : Target) (source : Source) (offset : Nat) (pc : UInt64)
    (keep : Bool) (h : (decodeAt t source offset pc keep).error = none) :
    let i := decodeAt t source offset pc keep
    let run := (source.slice offset source.length).takeWhile (isPrefixByte t.mode)
    let last := (run.filterMap Repeat.ofByte?).getLast?
    (i.mnemonic = .PAUSE → last = some .f3 ∧ i.prefixes.flags &&& PrefixFlag.anyRepeat = 0 ∧
      (i.opcode = Opcode.ofByte 0x90 ∧ i.operands = noOperands ∨ i.opcode = ⟨.ext0F, 0x1F⟩)) ∧
    (i.mnemonic = .NOP →
      i.opcode = Opcode.ofByte 0x90 ∧ i.operands = noOperands ∨ i.opcode = ⟨.ext0F, 0x1F⟩) ∧
    (i.opcode = ⟨.ext0F, 0x1F⟩ → i.mnemonic = if last = some .f3 then .PAUSE else .NOP) ∧
    (i.opcode = Opcode.ofByte 0x90 → i.mnemonic = .XCHG →
      ¬ (i.operands.get 0 = .register .ax ∧ i.operands.get 1 = .register .ax) ∧
      ¬ (i.operands.get 0 = .register .eax ∧ i.operands.get 1 = .register .eax)) := by
  intro i run last
  obtain ⟨hreading, d, hreports⟩ := decodeAt_reading h
  refine ⟨fun hpause => ?_, fun hnop => ?_, fun hlong => ?_, fun h90 hxchg => ?_⟩
  · obtain ⟨hname, hopcode⟩ := hreading.opcode_of_nop (Or.inr hpause)
    have hlast : last = some .f3 := idleName_eq_pause.mp (hname.symm.trans hpause)
    refine ⟨hlast, ?_, hopcode⟩
    rw [hreports.repeated]
    show i.repeatFlag d last = 0
    rw [hlast, Instruction.repeatFlag, if_pos (Or.inr hpause)]
  · exact (hreading.opcode_of_nop (Or.inl hnop)).2
  · cases hreading with
    | idle opcode _ _ => exact absurd (hlong.symm.trans opcode) (by decide)
    | hint _ mnemonic => exact mnemonic
    | busy opcode _ _ _ => exact absurd hlong opcode
  · cases hreading with
    | idle _ mnemonic _ =>
      rw [hxchg, idleName] at mnemonic
      split at mnemonic <;> cases mnemonic
    | hint opcode _ => exact absurd (h90.symm.trans opcode) (by decide)
    | busy _ _ _ operands =>
      rw [Decode.isIdleExchange, decide_eq_false_iff_not] at operands
      exact ⟨fun hax => operands ⟨hxchg, h90, Or.inl hax⟩,
        fun heax => operands ⟨hxchg, h90, Or.inr heax⟩⟩

/-- In 64-bit mode, the exchange of AX with itself behind both repeat prefixes. -/
def spinHint : Array UInt8 :=
  #[0xF2, 0x66, 0xF3, 0x90]

theorem decode_spinHint :
    (decodeAt ⟨.bits64, .any⟩ (.ofArray spinHint) 0 0 true).error = none ∧
    (decodeAt ⟨.bits64, .any⟩ (.ofArray spinHint) 0 0 true).mnemonic = .PAUSE ∧
    (decodeAt ⟨.bits64, .any⟩ (.ofArray spinHint) 0 0 true).opcode = Opcode.ofByte 0x90 :=
  Decode.decodeAt_of_delivers
    (P := fun i => i.error = none ∧ i.mnemonic = .PAUSE ∧ i.opcode = Opcode.ofByte 0x90)
    (by decide +kernel)

theorem decodeAt_nop_and_pause_spinHint :
    (decodeAt ⟨.bits64, .any⟩ (.ofArray spinHint) 0 0 true).error = none ∧
    (decodeAt ⟨.bits64, .any⟩ (.ofArray spinHint) 0 0 true).mnemonic = .PAUSE ∧
    (decodeAt ⟨.bits64, .any⟩ (.ofArray spinHint) 0 0 true).prefixes.flags &&& PrefixFlag.anyRepeat = 0 ∧
    (decodeAt ⟨.bits64, .any⟩ (.ofArray spinHint) 0 0 true).operands = noOperands := by
  obtain ⟨herror, hmnemonic, hopcode⟩ := decode_spinHint
  obtain ⟨-, hflags, hfolded⟩ :=
    (decodeAt_nop_and_pause ⟨.bits64, .any⟩ (.ofArray spinHint) 0 0 true herror).1 hmnemonic
  refine ⟨herror, hmnemonic, hflags, ?_⟩
  obtain ⟨-, hoperands⟩ | hlong := hfolded
  · exact hoperands
  · exact absurd (hopcode.symm.trans hlong) (by decide)

/-- F3 also makes `pause` of opcode 0F 1F, which keeps its operand. -/
theorem decodeAt_pause_with_operand :
    let i := decodeAt ⟨.bits32, .any⟩ (.ofArray #[0xF3, 0x0F, 0x1F, 0x00]) 0 0 true
    i.error = none ∧ i.mnemonic = .PAUSE ∧ i.opcode ≠ Opcode.ofByte 0x90 ∧
      i.hasMemoryOperand = true :=
  Decode.decodeAt_of_delivers
    (P := fun i => i.error = none ∧ i.mnemonic = .PAUSE ∧ i.opcode ≠ Opcode.ofByte 0x90 ∧
      i.hasMemoryOperand = true)
    (by decide +kernel)

end X86
