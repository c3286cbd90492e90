import X86.Proofs.InertPrefixes

/-!
Operand-size overrides that are reported as unused. Without such an override the same operands are
read, except for a short branch, whose target is cut to the operand size although its entry is not
said to follow it.
-/

namespace X86

open Lookup

/-- Whether the operand size matters for nothing but the size that a branch target is cut to. -/
def Template.ignoresOperandSize : Template → Bool
  | mmxRegMem width | xmmRegMem width => !width.followsOperandSize
  | τ => !τ.followsOperandSize

theorem definitions_ignoreOperandSize : (definitions.all fun d =>
    d.followsOperandSize || d.templates.all Template.ignoresOperandSize) = true := by
  decide +kernel

def Operand.resized (size : Nat) : Operand → Operand
  | .relative r => .relative { r with size := size }
  | o => o

namespace Operand

@[simp] theorem resized_eq_register {size : Nat} {o : Operand} {r : Register} :
    o.resized size = .register r ↔ o = .register r := by
  cases o <;> simp [resized]

@[simp] theorem settleTarget_resized_settleTarget (finish : UInt64) (size : Nat) (o : Operand) :
    Decode.settleTarget finish ((Decode.settleTarget finish o).resized size) =
      Decode.settleTarget finish (o.resized size) := by
  cases o <;> rfl

theorem settleTarget_resized_of_not_isRelative {o : Operand} (h : o.isRelative = false)
    (finish : UInt64) (size : Nat) : Decode.settleTarget finish (o.resized size) = o := by
  cases o with
  | relative r => cases h
  | _ => rfl

end Operand

namespace Decode

namespace Frame

variable {f : Frame} {τ : Template}

theorem bits_operandSize {width : Width} (h : (!width.followsOperandSize) = true) (size : Nat) :
    bits { f with operandSize := size } width = f.bits width := by
  cases width with
  | v | z | y | p => cases h
  | _ => rfl

/-- A template that ignores the operand size gives the same operand under every one, except that a
branch remembers its size. -/
theorem operand_operandSize (h : τ.ignoresOperandSize = true) (size : Nat) :
    operand { f with operandSize := size } τ = Operand.resized size <$> f.operand τ := by
  have hbits {width : Width} (hw : (!width.followsOperandSize) = true) :=
    bits_operandSize (f := f) hw size
  have hite {c : Prop} [Decidable c] (a b : Decode Operand) :
      Operand.resized size <$> (if c then a else b) =
        if c then Operand.resized size <$> a else Operand.resized size <$> b :=
    apply_ite _ c a b
  cases τ with
  | farPointer => cases h
  | regMem width | mmxRegMem width | xmmRegMem width =>
    simp only [operand, registerOrMemory, memory, gpr, hbits h, hite, Operand.resized, map_bind,
      map_pure]
  | mem width =>
    simp only [operand, memoryOnly, memory, hbits h, hite, Operand.resized, map_bind, map_pure]
    rfl
  | reg width | rmReg width | sized n width | opcodeReg width =>
    simp only [operand, registerField, gpr, hbits h, Operand.resized, map_bind, map_pure]
  | immSigned width =>
    simp only [operand, immediate, hbits h, Operand.resized, map_bind, map_pure]
  | imm width =>
    have hz : width ≠ .z := by
      rintro rfl
      cases h
    simp only [operand, immediate, hbits h, Operand.resized, map_bind, map_pure, hz, false_and]
  | relative width => simp only [operand, relative, hbits h, Operand.resized, map_bind, map_pure]
  | offset width => simp only [operand, bareAddress, hbits h, Operand.resized, map_bind, map_pure]
  | segment =>
    simp only [operand, segmentRegister, map_bind]
    congr 1
    funext m
    cases Segment.ofNumber? m.reg with
    | none => rfl
    | some g => rfl
  | control | debug | mmxReg | xmmReg | stRm =>
    simp only [operand, registerField, Operand.resized, map_bind, map_pure]
  | mmxRm | xmmRm =>
    simp only [operand, registerOnly, hite, Operand.resized, map_bind, map_pure]
    rfl
  | absent | st0 | fixed | constant => rfl

end Frame

open PrefixState (ofBytes)

theorem operands_operandSize {f : Frame} {τs : Vector Template 4}
    (h : τs.toList.all Template.ignoresOperandSize = true) (size : Nat) :
    operands { f with operandSize := size } τs =
      (fun ops => ops.map (Operand.resized size)) <$> operands f τs := by
  have hslot (k : Nat) (hk : k < 4) :
      Frame.operand { f with operandSize := size } τs[k] =
        Operand.resized size <$> f.operand τs[k] :=
    Frame.operand_operandSize (List.all_eq_true.mp h τs[k] (by simp)) size
  have hmap (a b c d : Operand) : #v[a, b, c, d].map (Operand.resized size) =
      #v[a.resized size, b.resized size, c.resized size, d.resized size] := by
    simp
  simp only [operands, hslot, bind_map_left, map_bind, map_pure, hmap]

theorem isIdleExchange_resized (m : Mnemonic) (opcode : Opcode) (ops : Vector Operand 4) (size : Nat) :
    isIdleExchange m opcode (ops.map (Operand.resized size)) = isIdleExchange m opcode ops := by
  simp [isIdleExchange]

theorem operands_unsized {t : Target} {d : Definition} (hd : d ∈ definitions)
    (hfollows : d.followsOperandSize = false) {s s' : State} (hopcode : s'.opcode = s.opcode)
    (hrex : s'.prefixes.rex = s.prefixes.rex)
    (ha : s'.prefixes.addressSize = s.prefixes.addressSize) :
    operands (frameOf t d.entry s') d.entry.operands =
      (fun ops => ops.map (Operand.resized (frameOf t d.entry s').operandSize)) <$>
        operands (frameOf t d.entry s) d.entry.operands := by
  have hframe : frameOf t d.entry s' = { frameOf t d.entry s with
      operandSize := (frameOf t d.entry s').operandSize } := by
    simp only [frameOf, hopcode, hrex, ha]
  rw [hframe]
  refine operands_operandSize ?_ _
  rw [Definition.toList_entry_operands]
  simpa [hfollows] using List.all_eq_true.mp definitions_ignoreOperandSize d hd

/-- A 66 that selects nothing and that the definition does not follow can be left out, but for the
size that a branch target is cut to. -/
theorem instruction_unsized {t : Target} {source : Source} {o : Nat} (hx : source.get? o = some 0x66)
    {pc : UInt64} {i : Instruction} {s' : State}
    (hi : instruction instructionTable t pc { cursor := .ofStart source o } = .ok i s')
    (hsized : i.prefixes.operandSize = true) (hunused : i.flags.usesOperandSize = false) :
    ∃ i' s'', instruction instructionTable t (pc + 1) { cursor := .ofStart source (o + 1) } =
        .ok i' s'' ∧ i'.mnemonic = i.mnemonic ∧ i'.length + 1 = i.length ∧
      i'.operands = i.operands.map fun op =>
        settleTarget (pc + UInt64.ofNat i.length) (op.resized i'.operandSize) := by
  obtain ⟨first, s₁, n, d, c, s₂, hheading, hcomplete, hlength⟩ := (instruction_iff_heading rfl).mp hi
  obtain ⟨bs, hbs⟩ : ∃ bs, (source.slice (o + 1) source.length).takeWhile (isPrefixByte t.mode) = bs :=
    ⟨_, rfl⟩
  have hplain : isPlainPrefix 0x66 = true := rfl
  have hbyte := isPrefixByte_of_isPlainPrefix hplain t.mode
  obtain ⟨hstart, hposition⟩ := hheading.extent hcomplete
  rw [takeWhile_front hx hbyte hbs, List.length_cons] at hposition
  rw [Cursor.consumed] at hlength
  obtain ⟨hs₁, hscan⟩ := hheading.scanPrefixes_tail hx hbyte hbs
  have hs₂ : (s₂.spend c).prefixes = s₁.prefixes.without c := by
    rw [State.spend_prefixes, (State.past?_eq_some hheading.past).2.1]
  obtain ⟨-, _, ops', -, -, hassemble⟩ := complete_ok.mp hcomplete
  have hfollows : d.followsOperandSize = false := by
    rw [← hassemble, assemble_flags] at hunused
    exact Definition.followsOperandSize_eq_false hunused
  have hc : c ≠ 1 := by
    rw [← hassemble, assemble_sized _ _ _ _ _ (mnemonic_ne_pause hheading.mem), hs₂,
      PrefixState.without_operandSize, Bool.and_eq_true] at hsized
    exact bne_iff_ne.mp hsized.2
  have hserves : (ofBytes t.mode bs).Serves s₁.prefixes d := by
    rw [hs₁, PrefixState.ofBytes_cons hplain]
    refine ⟨rfl, rfl, ?_, Or.inl rfl⟩
    cases (ofBytes t.mode bs).operandSize with
    | true => exact Or.inl rfl
    | false => exact Or.inr ⟨rfl, hfollows⟩
  have hrex : ((ofBytes t.mode bs).without c).rex = (s₂.spend c).prefixes.rex := by
    rw [hs₂, PrefixState.without_rex, PrefixState.without_rex, hserves.rex]
  have haddress : ((ofBytes t.mode bs).without c).addressSize =
      (s₂.spend c).prefixes.addressSize := by
    rw [hs₂, PrefixState.without_addressSize, PrefixState.without_addressSize, hs₁,
      PrefixState.ofBytes_cons hplain]
    rfl
  have hops := operands_unsized (t := t) hheading.mem hfollows
    (State.recast_opcode (o + 1) ((ofBytes t.mode bs).without c) (s₂.spend c)) hrex haddress
  obtain ⟨ops, rfl, hi'⟩ := hheading.decodes hcomplete hscan hserves
    (hserves.mem_choices hheading.mem_choices fun h => absurd h hc) hops (by omega) (pc + 1)
  have hcount : s'.cursor.position - s'.cursor.start = s'.cursor.position - (o + 1) + 1 := by omega
  refine ⟨_, _, hi', ?_, ?_, ?_⟩
  · rw [assemble_mnemonic_eq, assemble_mnemonic_eq, isIdleExchange_resized, reportedPrefixes_repe,
      reportedPrefixes_repe, State.recast_opcode, State.recast_prefixes, hs₂,
      PrefixState.without_repeated, PrefixState.without_repeated, hserves.repeated]
  · rw [assemble_length, assemble_length, hcount]
  · rw [assemble_operandSize, assemble_length, assemble_operands_eq, assemble_operands_eq,
      isIdleExchange_resized, State.recast_opcode, hcount, finish_succ]
    split
    · simp [noOperands, Operand.resized, settleTarget]
    · simp only [Vector.map_map, Function.comp_def, Operand.settleTarget_resized_settleTarget]

end Decode

theorem Instruction.map_resized_eq_self_iff {i : Instruction} {finish : UInt64}
    (h : ∀ r, .relative r ∈ i.operands.toList → r.size = i.operandSize ∧
      r.target = Decode.truncate (finish + UInt64.ofInt r.displacement) r.size) (size : Nat) :
    (i.operands.map fun o => Decode.settleTarget finish (o.resized size)) = i.operands ↔
      size = i.operandSize ∨ ∀ r, .relative r ∉ i.operands.toList := by
  rw [← Vector.toList_inj, Vector.toList_map]
  nth_rewrite 2 [← List.map_id i.operands.toList]
  rw [List.map_inj_left]
  constructor
  · intro hall
    by_contra hne
    rw [not_or, not_forall] at hne
    obtain ⟨hsize, r, hr⟩ := hne
    have hr := not_not.mp hr
    have hcut := Operand.relative.inj (hall _ hr)
    exact hsize ((congrArg RelativeTarget.size hcut).trans (h r hr).1)
  · rintro hor o ho
    cases hrelative : o.isRelative with
    | false => exact Operand.settleTarget_resized_of_not_isRelative hrelative finish size
    | true =>
      cases o with
      | relative r =>
        obtain rfl : size = i.operandSize := hor.resolve_right fun hno => hno r ho
        obtain ⟨hsize, htarget⟩ := h r ho
        rw [id_eq, Operand.resized, Decode.settleTarget, ← hsize, ← htarget]
      | absent | register | memory | immediate | constant | far => cases hrelative

/-- A 66 that an instruction reports and does not use can be left out: from the next byte on, the same
mnemonic is decoded, with the same operands, except that a branch is cut to the operand size without
the 66. So all operands are the same exactly if there is no branch or the operand size is the same. -/
theorem decode_unused_operandSize (t : Target) (b : Array UInt8) (pc : UInt64)
    (h : (decode t (#[0x66] ++ b) pc).error = none)
    (hsized : (decode t (#[0x66] ++ b) pc).prefixes.operandSize = true)
    (hunused : (decode t (#[0x66] ++ b) pc).flags.usesOperandSize = false) :
    let i := decode t (#[0x66] ++ b) pc
    let i' := decode t b (pc + 1)
    i'.error = none ∧ i'.mnemonic = i.mnemonic ∧ i'.length + 1 = i.length ∧
      (i'.operands = i.operands.map fun o =>
        Decode.settleTarget (pc + UInt64.ofNat i.length) (o.resized i'.operandSize)) ∧
      (i'.operands = i.operands ↔
        i'.operandSize = i.operandSize ∨ ∀ r, .relative r ∉ i.operands.toList) := by
  intro i i'
  obtain ⟨j, s, hj, hrun⟩ := Decode.instruction_of_run ((decodeAt_error ..).symm.trans h)
  have hi : decode t (#[0x66] ++ b) pc = j.keeping s.cursor.consumedBytes := by
    rw [decode, decodeAt_keep, hrun]
  -- a branch is cut to the operand size, and leads on from the end of the instruction
  have hbranches (r : RelativeTarget) (hr : .relative r ∈ i.operands.toList) :
      r.size = i.operandSize ∧
        r.target = Decode.truncate (pc + UInt64.ofNat i.length + UInt64.ofInt r.displacement) r.size := by
    refine ⟨(decodeAt_branches h hr).size, ?_⟩
    rw [show i = _ from hi] at hr ⊢
    exact (Decode.instruction_relative rfl hj hr).1
  have hsame := Instruction.map_resized_eq_self_iff hbranches i'.operandSize
  rw [hi] at hsized hunused
  obtain ⟨j', s', hj', hmnemonic, hlength, hoperands⟩ := Decode.instruction_unsized
    (get?_front 0x66 b) hj hsized hunused
  have hi' : i' = j'.keeping s'.cursor.consumedBytes := by
    show decode t b (pc + 1) = _
    rw [decode_behind 0x66, decodeAt_keep, Decode.run_of_ok hj']
  rw [show i = _ from hi, hi'] at hsame ⊢
  refine ⟨(Decode.instruction_ok_fields hj').1, hmnemonic, hlength, hoperands, ?_⟩
  rw [← hsame]
  exact (Eq.congr_left hoperands.symm).symm

theorem decode_shortJump_sized :
    (decode ⟨.bits32, .any⟩ (#[0x66] ++ shortJump) 0x10000).error = none ∧
      (decode ⟨.bits32, .any⟩ (#[0x66] ++ shortJump) 0x10000).prefixes.operandSize = true ∧
      (decode ⟨.bits32, .any⟩ (#[0x66] ++ shortJump) 0x10000).flags.usesOperandSize = false ∧
      (decode ⟨.bits32, .any⟩ (#[0x66] ++ shortJump) 0x10000).operands.get 0 =
        .relative { displacement := 0, size := 16, target := 0x3 } :=
  Decode.decodeAt_of_delivers
    (P := fun i => i.error = none ∧ i.prefixes.operandSize = true ∧ i.flags.usesOperandSize = false ∧
      i.operands.get 0 = .relative { displacement := 0, size := 16, target := 0x3 })
    (by decide +kernel)

theorem decode_unused_operandSize_shortJump :
    (decode ⟨.bits32, .any⟩ (#[0x66] ++ shortJump) 0x10000).error = none ∧
    (decode ⟨.bits32, .any⟩ (#[0x66] ++ shortJump) 0x10000).prefixes.operandSize = true ∧
    (decode ⟨.bits32, .any⟩ (#[0x66] ++ shortJump) 0x10000).flags.usesOperandSize = false ∧
    (decode ⟨.bits32, .any⟩ shortJump 0x10001).error = none ∧
    (decode ⟨.bits32, .any⟩ shortJump 0x10001).mnemonic =
      (decode ⟨.bits32, .any⟩ (#[0x66] ++ shortJump) 0x10000).mnemonic ∧
    (decode ⟨.bits32, .any⟩ shortJump 0x10001).operandSize ≠
      (decode ⟨.bits32, .any⟩ (#[0x66] ++ shortJump) 0x10000).operandSize := by
  obtain ⟨herror, hsized, hunused, hjump⟩ := decode_shortJump_sized
  obtain ⟨-, -, -, hjump'⟩ := decode_shortJump
  obtain ⟨herror', hmnemonic, -, -, hsame⟩ :=
    decode_unused_operandSize ⟨.bits32, .any⟩ shortJump 0x10000 herror hsized hunused
  refine ⟨herror, hsized, hunused, herror', hmnemonic, ?_⟩
  intro hsize
  have hoperands := congrArg (fun ops => ops.get 0) (hsame.mpr (Or.inl hsize))
  have hne := hjump'.symm.trans (hoperands.trans hjump)
  exact absurd hne (by decide)

/-- The jump reports the 66 as unused, and yet leads elsewhere without it. -/
theorem decode_unused_operandSize_retargets :
    (decode ⟨.bits32, .any⟩ (#[0x66] ++ shortJump) 0x10000).error = none ∧
    (decode ⟨.bits32, .any⟩ (#[0x66] ++ shortJump) 0x10000).prefixes.operandSize = true ∧
    (decode ⟨.bits32, .any⟩ (#[0x66] ++ shortJump) 0x10000).flags.usesOperandSize = false ∧
    (decode ⟨.bits32, .any⟩ (#[0x66] ++ shortJump) 0x10000).operands.get 0 =
      .relative { displacement := 0, size := 16, target := 0x3 } ∧
    (decode ⟨.bits32, .any⟩ shortJump 0x10001).error = none ∧
    (decode ⟨.bits32, .any⟩ shortJump 0x10001).operands.get 0 =
      .relative { displacement := 0, size := 32, target := 0x10003 } := by
  obtain ⟨herror, hsized, hunused, hjump⟩ := decode_shortJump_sized
  obtain ⟨herror', -, -, hjump'⟩ := decode_shortJump
  exact ⟨herror, hsized, hunused, hjump, herror', hjump'⟩

end X86
