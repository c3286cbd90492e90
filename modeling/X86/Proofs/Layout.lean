import X86.Proofs.Entry
import X86.Proofs.Operands
import X86.Proofs.SelfDelimiting

/-!
The layout of an instruction. A decoded instruction accounts for every byte that was read for it:
prefixes, the opcode it records, a ModRM byte, a SIB byte, the displacement of its memory operand and
the numbers in its other operands stand in this order, and nothing else does.
-/

namespace X86

/-- The parts of an encoding, in the order in which they stand. -/
structure Layout where
  prefixes : List UInt8
  opcode : List UInt8
  modRM : List UInt8
  sib : List UInt8
  displacement : List UInt8
  numbers : List UInt8

namespace Layout

def bytes (l : Layout) : List UInt8 :=
  l.prefixes ++ l.opcode ++ l.modRM ++ l.sib ++ l.displacement ++ l.numbers

/-- The parts are what the instruction says of itself. The prefixes are all that stand in front of
the opcode, and there is at most one memory operand. -/
structure Fits (l : Layout) (mode : Mode) (i : Instruction) : Prop where
  prefixes : l.prefixes.all (isPrefixByte mode) = true
  first : l.opcode.head?.all (!isPrefixByte mode ·) = true
  opcode : l.opcode = i.opcode.bytes
  modRM : l.modRM.length = if i.flags.hasModRM then 1 else 0
  sib : l.sib.length =
    if i.hasMemoryOperand ∧ i.addressSize ≠ 16 ∧ l.modRM.any (fun b => (ModRM.ofByte b).rm = 4) then 1
    else 0
  memory : i.operands.toList.countP Operand.isMemory ≤ 1
  displacement : l.displacement = i.operands.toList.flatMap Operand.displacementBytes
  numbers : Operand.Spelled i.operands.toList l.numbers

theorem Fits.keeping {l : Layout} {mode : Mode} {i : Instruction} (h : l.Fits mode i)
    (bs : List UInt8) : l.Fits mode (i.keeping bs) :=
  ⟨h.prefixes, h.first, h.opcode, h.modRM, h.sib, h.memory, h.displacement, h.numbers⟩

end Layout

namespace Lookup.Definition

def templates (d : Definition) : List Template :=
  [d.operands.getD 0 .absent, d.operands.getD 1 .absent, d.operands.getD 2 .absent,
    d.operands.getD 3 .absent]

theorem toList_entry_operands (d : Definition) : d.entry.operands.toList = d.templates := by
  rw [Decode.toList_of_four]
  rfl

/-- The operands can be read in the order in which they are given, and an exchange has no more than
two that take part in it. -/
def isOrderly (d : Definition) : Bool :=
  Template.orderly d.templates && d.templates.all (Template.suits d.entryFlags.hasModRM) &&
    (d.mnemonic != .XCHG ||
      (d.templates.drop 2).all fun τ => !(τ.isTrailing || τ.mayAddressMemory))

end Lookup.Definition

theorem definitions_isOrderly : definitions.all Lookup.Definition.isOrderly = true := by
  decide +kernel

namespace Decode

open Lookup

theorem addressSize_mem (mode : Mode) (override : Bool) :
    mode.addressSize override ∈ [16, 32, 64] := by
  cases mode <;> cases override <;> decide

theorem operandSizeOf_le (mode : Mode) (p : PrefixState) (flags : EntryFlags) :
    operandSizeOf mode p flags ≤ 64 := by
  have hmode : ∀ wide override, mode.operandSize wide override ≤ 64 := by
    intro wide override
    cases mode <;> cases wide <;> cases override <;> decide
  unfold operandSizeOf
  split
  · exact Nat.le_refl 64
  · exact hmode _ _

theorem all_isSilent_of_idle {m : Mnemonic} {o : Opcode} {ops : Vector Operand 4}
    (h : isIdleExchange m o ops = true)
    (hrest : m = .XCHG → (ops.toList.drop 2).all Operand.isSilent = true) :
    ops.toList.all Operand.isSilent = true := by
  simp only [isIdleExchange, decide_eq_true_eq] at h
  obtain ⟨hm, -, hregs⟩ := h
  have hrest := hrest hm
  change (ops.get 0 = _ ∧ ops.get 1 = _) ∨ (ops.get 0 = _ ∧ ops.get 1 = _) at hregs
  rw [toList_of_four] at hrest ⊢
  obtain ⟨h₀, h₁⟩ | ⟨h₀, h₁⟩ := hregs
  · simpa [h₀, h₁, Operand.isSilent, Operand.isMemory, Operand.isTrailing] using hrest
  · simpa [h₀, h₁, Operand.isSilent, Operand.isMemory, Operand.isTrailing] using hrest

theorem Accounts.assemble {t : Target} {pc : UInt64} {e : Entry} {s s₁ s' : State}
    {ops : Vector Operand 4} {n addressSize : Nat} (h : Accounts addressSize s₁ ops.toList s')
    (hrest : e.mnemonic = .XCHG → (ops.toList.drop 2).all Operand.isSilent = true) :
    Accounts addressSize s₁ (Decode.assemble t pc e s ops n).operands.toList s' := by
  have hsettled : Accounts addressSize s₁ (ops.map (settleTarget (pc + UInt64.ofNat n))).toList s' := by
    rw [Vector.toList_map]
    exact h.settle _
  obtain heq | ⟨hidle, heq⟩ := assemble_operands t pc e s ops n
  · rwa [heq]
  · rw [heq]
    have hsilent := all_isSilent_of_idle hidle fun hm => by
      rw [Vector.toList_map, ← List.map_drop, List.all_map]
      simpa [Function.comp_def] using hrest hm
    exact (accounts_of_all_isSilent (by decide)).mpr ((accounts_of_all_isSilent hsilent).mp hsettled)

theorem accounts_of_operands {t : Target} {pc : UInt64} {d : Definition} {s s₁ s' : State}
    {ops : Vector Operand 4} {n : Nat} (hd : d ∈ definitions)
    (hmodRM : s₁.modRM.isSome = d.entryFlags.hasModRM)
    (h : operands (frameOf t d.entry s) d.entry.operands s₁ = .ok ops s') :
    Accounts (frameOf t d.entry s).addressSize s₁
      (Decode.assemble t pc d.entry s ops n).operands.toList s' := by
  have horderly := List.all_eq_true.mp definitions_isOrderly d hd
  simp only [Definition.isOrderly, Bool.and_eq_true, ← hmodRM] at horderly
  obtain ⟨⟨horder, hsuits⟩, hxchg⟩ := horderly
  have hyields := operands_ok h
  rw [Definition.toList_entry_operands] at hyields
  have haddress := addressSize_mem t.mode s.prefixes.addressSize
  have hsize := operandSizeOf_le t.mode s.prefixes d.entry.flags
  have hacc := hyields.accounts haddress hsize hsuits horder
  refine hacc.assemble ?_
  intro hmnemonic
  refine hyields.all_isSilent_drop haddress hsize hsuits 2 ?_
  simpa [show d.mnemonic = .XCHG from hmnemonic] using hxchg

theorem instruction_layout {t : Target} {pc : UInt64} {s s' : State} {i : Instruction}
    (hs : s.modRM = none) (h : instruction instructionTable t pc s = .ok i s') :
    ∃ l : Layout, l.Fits t.mode i ∧ s.cursor.Reads l.bytes s'.cursor := by
  obtain ⟨e, s₁, he, hc, -⟩ := instruction_ok.mp h
  obtain ⟨-, s₂, ops, hm, hops, rfl⟩ := complete_ok.mp hc
  obtain ⟨d, hd, rfl, prefixes, modRM, hprefixes, hfirst, hsome, hmodRM, hread⟩ := heading_ok hs he hm
  have hpresent : s₂.modRM.isSome = d.entryFlags.hasModRM := by
    rw [hmodRM, Option.isSome_map]
    exact hsome
  obtain ⟨-, hcount, sib, numbers, hsib, hnumbers, hreads⟩ := accounts_of_operands hd hpresent hops
  refine ⟨⟨prefixes, s₁.opcode.bytes, modRM.toList, sib, _, numbers⟩,
    ⟨hprefixes, hfirst, ?_, ?_, ?_, hcount, rfl, hnumbers⟩, ?_⟩
  · rw [assemble_opcode]
  · rw [assemble_flags, ← hsome]
    cases modRM with
    | none => rfl
    | some b => rfl
  · -- The ModRM byte in the layout is the one that the address was built from.
    have hany : modRM.toList.any (fun b => (ModRM.ofByte b).rm = 4) = s₂.modRM.any (·.rm = 4) := by
      rw [hmodRM]
      cases modRM with
      | none => rfl
      | some b => simp
    rw [hsib, hany, assemble_addressSize, ModRM.sibCount, Instruction.hasMemoryOperand]
    grind
  · rw [Layout.bytes, List.append_assoc, List.append_assoc]
    refine Cursor.reads_append.mpr ⟨s₂.cursor, hread, ?_⟩
    rw [← List.append_assoc]
    exact hreads

theorem run_layout {t : Target} {source : Source} {offset : Nat} {pc : UInt64}
    (h : (run instructionTable t source offset pc).1.error = none) :
    ∃ l : Layout, l.Fits t.mode (run instructionTable t source offset pc).1 ∧
      (Cursor.ofStart source offset).Reads l.bytes (run instructionTable t source offset pc).2 ∧
      (run instructionTable t source offset pc).1.length = l.bytes.length := by
  obtain ⟨i, s, hi, hrun⟩ := instruction_of_run h
  obtain ⟨l, hfits, hreads⟩ := instruction_layout rfl hi
  obtain ⟨-, -, hlength, -⟩ := instruction_ok_fields hi
  rw [hrun]
  exact ⟨l, hfits, hreads, hlength.trans hreads.consumed_eq⟩

end Decode

/-- A decoded instruction accounts for every byte of its encoding: the bytes at its offset, as many
as its length says, are its prefixes, the opcode it records, a ModRM byte if its attributes have one,
a SIB byte if a memory operand calls for one, the displacement and the numbers of its operands. -/
theorem decodeAt_layout (t : Target) (source : Source) (offset : Nat) (pc : UInt64) (keep : Bool)
    (h : (decodeAt t source offset pc keep).error = none) :
    ∃ l : Layout, l.Fits t.mode (decodeAt t source offset pc keep) ∧
      source.slice offset (offset + (decodeAt t source offset pc keep).length) = l.bytes ∧
      (keep = true → (decodeAt t source offset pc keep).bytes = some l.bytes) ∧
      (decodeAt t source offset pc keep).length =
        l.prefixes.length + l.opcode.length + l.modRM.length + l.sib.length +
          l.displacement.length + l.numbers.length := by
  have hrun : (Decode.run instructionTable t source offset pc).1.error = none := by
    cases keep with
    | true => rwa [decodeAt_keep, Instruction.keeping_error] at h
    | false => rwa [decodeAt_drop] at h
  obtain ⟨l, hfits, hreads, hlength⟩ := Decode.run_layout hrun
  have hslice : source.slice offset (offset + l.bytes.length) = l.bytes := by
    have hposition : (Decode.run instructionTable t source offset pc).2.position =
        offset + l.bytes.length := hreads.position_eq
    rw [← hposition]
    exact hreads.slice_eq
  have hsum : l.bytes.length = l.prefixes.length + l.opcode.length + l.modRM.length + l.sib.length +
      l.displacement.length + l.numbers.length := by
    simp only [Layout.bytes, List.length_append]
  cases keep with
  | true =>
    rw [decodeAt_keep, hreads.consumedBytes_eq, Instruction.keeping_length, hlength]
    exact ⟨l, hfits.keeping _, hslice, fun _ => rfl, hsum⟩
  | false =>
    rw [decodeAt_drop, hlength]
    exact ⟨l, hfits, hslice, by simp, hsum⟩

theorem decodeAt_layout_lockedAdd :
    (decodeAt ⟨.bits32, .any⟩ (.ofArray lockedAdd) 0 0 true).error = none ∧
    ∃ l : Layout, l.Fits .bits32 (decodeAt ⟨.bits32, .any⟩ (.ofArray lockedAdd) 0 0 true) ∧
      (decodeAt ⟨.bits32, .any⟩ (.ofArray lockedAdd) 0 0 true).bytes = some l.bytes ∧
      12 = l.prefixes.length + l.opcode.length + l.modRM.length + l.sib.length +
        l.displacement.length + l.numbers.length := by
  obtain ⟨herror, hlength⟩ := decode_lockedAdd
  obtain ⟨l, hfits, -, hbytes, hsum⟩ :=
    decodeAt_layout ⟨.bits32, .any⟩ (.ofArray lockedAdd) 0 0 true herror
  exact ⟨herror, l, hfits, hbytes rfl, hlength.symm.trans hsum⟩

end X86
