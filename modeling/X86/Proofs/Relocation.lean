import X86.Proofs.WellFormed

/-!
Decoding at another address. The address of an instruction enters its decoding in two places only:
the address it reports, and the target of a branch, which is counted from the end of the
instruction. Code that is moved is decoded as before, and its branch targets move along.
-/

namespace X86

open Lookup

namespace Operand

@[simp] theorem settleTarget_eq_register {finish : UInt64} {o : Operand} {r : Register} :
    Decode.settleTarget finish o = .register r ↔ o = .register r := by
  cases o with
  | register r' => rfl
  | absent | memory | immediate | constant | relative | far => simp [Decode.settleTarget]

theorem settleTarget_eq_relative {finish : UInt64} {o : Operand} {r : RelativeTarget}
    (h : Decode.settleTarget finish o = .relative r) :
    ∃ r' : RelativeTarget, o = .relative r' ∧ r'.displacement = r.displacement ∧ r'.size = r.size ∧
      r.target = Decode.truncate (finish + UInt64.ofInt r.displacement) r.size := by
  cases o with
  | relative r' =>
    injection h with h
    subst h
    exact ⟨r', rfl, rfl, rfl, rfl⟩
  | absent | register | memory | immediate | constant | far => cases h

end Operand

namespace Instruction

end Instruction

namespace Decode

theorem isIdleExchange_settle (m : Mnemonic) (o : Opcode) (ops : Vector Operand 4) (finish : UInt64) :
    isIdleExchange m o (ops.map (settleTarget finish)) = isIdleExchange m o ops := by
  simp [isIdleExchange]

end Decode

theorem Word.toNat_add_ofInt (a : UInt64) (v : Int) :
    ((a + UInt64.ofInt v).toNat : Int) = (a.toNat + v) % 2 ^ 64 := by
  have hv : (UInt64.ofInt v).toNat = (v % 2 ^ 64).toNat := by
    refine UInt64.toNat_ofNat_of_lt' ?_
    show (v % 2 ^ 64).toNat < 2 ^ 64
    omega
  rw [UInt64.toNat_add, hv]
  omega

namespace Decode

theorem toNat_truncate {size : Nat} (h : size ∈ [16, 32, 64]) (a : UInt64) :
    (truncate a size).toNat = a.toNat % 2 ^ size := by
  simp only [List.mem_cons, List.not_mem_nil, or_false] at h
  rcases h with rfl | rfl | rfl
  · rfl
  · rfl
  · exact (Nat.mod_eq_of_lt a.toNat_lt).symm

/-- Only the low bits of the place matter, so that it makes no difference where the sum wraps. -/
theorem toNat_target {size : Nat} (h : size ∈ [16, 32, 64]) (pc : UInt64) (n : Nat) (v : Int) :
    ((truncate (pc + UInt64.ofNat n + UInt64.ofInt v) size).toNat : Int) =
      (pc.toNat + n + v) % 2 ^ size := by
  have hn : ((pc + UInt64.ofNat n).toNat : Int) = (pc.toNat + n) % 2 ^ 64 := by
    rw [UInt64.toNat_add, UInt64.toNat_ofNat']
    omega
  have hdvd : (2 ^ size : Int) ∣ 2 ^ 64 := by
    simp only [List.mem_cons, List.not_mem_nil, or_false] at h
    rcases h with rfl | rfl | rfl
    · decide
    · decide
    · decide
  rw [toNat_truncate h, Int.natCast_emod, Int.natCast_pow, Word.toNat_add_ofInt, hn,
    Int.emod_add_emod]
  exact Int.emod_emod_of_dvd _ hdvd

end Decode

/-- A branch in an instruction that consists of the given bytes leads to the end of the instruction
plus its displacement, cut to the operand size. The displacement is the number that the last bytes
spell, with its sign. -/
structure Instruction.Branches (i : Instruction) (bytes : List UInt8) (r : RelativeTarget) : Prop where
  size : r.size = i.operandSize
  operandSize : i.operandSize ∈ [16, 32, 64]
  target : (r.target.toNat : Int) = (i.offset.toNat + i.length + r.displacement) % 2 ^ i.operandSize
  displacement : ∃ encoded : List UInt8, encoded <:+ bytes ∧
    (encoded.length = 1 ∨ encoded.length = if i.operandSize = 16 then 2 else 4) ∧
    r.displacement = Word.signExtend (8 * encoded.length) (Word.littleEndian encoded)

def Operand.isRelative : Operand → Bool
  | relative _ => true
  | _ => false

def Template.isRelative : Template → Bool
  | relative _ => true
  | _ => false

/-- Whether a branch displacement is the only operand, of one byte or as wide as operands are. -/
def Template.branchesAlone : List Template → Bool
  | .relative width :: rest => (width = .b || width = .z) && rest.all (· = .absent)
  | τs => τs.all (!·.isRelative)

theorem definitions_branchesAlone :
    definitions.all (fun d => Template.branchesAlone d.templates) = true := by
  decide +kernel

namespace Decode

namespace Frame

variable {f : Frame} {s s' : State} {o : Operand} {width : Width} {τs : List Template}
  {os : List Operand}

theorem relative_reads (h : f.relative width s = .ok o s') :
    ∃ bs : List UInt8, bs.length = relativeBytes (f.bits width) ∧ s.cursor.Reads bs s'.cursor ∧
      o = .relative {
        displacement := Word.signExtend (8 * bs.length) (Word.littleEndian bs)
        size := f.operandSize } := by
  have hbytes : relativeBytes (f.bits width) ≤ 8 := by
    unfold relativeBytes
    split <;> decide
  rw [relative, bind_ok] at h
  obtain ⟨v, s₁, hread, h⟩ := h
  obtain ⟨rfl, rfl⟩ := pure_ok.mp h
  obtain ⟨c, hc, rfl⟩ := read_ok.mp hread
  rw [Read.signed, bind_ok] at hc
  obtain ⟨n, c₁, hn, h⟩ := hc
  obtain ⟨rfl, rfl⟩ := pure_ok.mp h
  rw [Read.unsigned, bind_ok] at hn
  obtain ⟨bs, c₂, hbs, h⟩ := hn
  obtain ⟨rfl, rfl⟩ := pure_ok.mp h
  obtain ⟨hlen, hreads⟩ := Read.bytes_ok hbs
  rw [Nat.min_eq_left hbytes] at hlen
  exact ⟨bs, hlen, hreads, by rw [hlen]⟩

theorem Yields.of_absent (h : Yields f τs s os s') (hτs : τs.all (· = .absent) = true) :
    s' = s ∧ os.all (!·.isRelative) = true := by
  induction h with
  | nil s => exact ⟨rfl, rfl⟩
  | @cons τ τs s s₁ s' o os head tail ih =>
    rw [List.all_cons, Bool.and_eq_true, decide_eq_true_eq] at hτs
    obtain ⟨rfl, hτs⟩ := hτs
    obtain ⟨rfl, rfl⟩ := pure_ok.mp head
    obtain ⟨hs, hos⟩ := ih hτs
    exact ⟨hs, by rw [List.all_cons, hos]; rfl⟩

theorem Yields.not_relative (h : Yields f τs s os s') (ha : f.addressSize ∈ [16, 32, 64])
    (hsize : f.operandSize ≤ 64) (hsuits : τs.all (Template.suits s.modRM.isSome) = true)
    (hτs : τs.all (!·.isRelative) = true) : os.all (!·.isRelative) = true := by
  induction h with
  | nil s => rfl
  | @cons τ τs s s₁ s' o os head tail ih =>
    rw [List.all_cons, Bool.and_eq_true] at hsuits hτs
    obtain ⟨hallow, hacc⟩ := operand_ok ha hsize hsuits.1 head
    rw [List.all_cons, ih (hacc.1 ▸ hsuits.2) hτs.2, Bool.and_true]
    cases o with
    | relative r =>
      have htrailing : τ.isTrailing = true := by
        simpa [Template.allows, Operand.isTrailing, Operand.isMemory] using hallow
      cases τ with
      | imm | immSigned =>
        obtain ⟨v, s₂, -, hv⟩ := bind_ok.mp head
        cases (pure_ok.mp hv).1
      | farPointer =>
        obtain ⟨x, s₂, -, hx⟩ := bind_ok.mp head
        obtain ⟨y, s₃, -, hy⟩ := bind_ok.mp hx
        cases (pure_ok.mp hy).1
      | relative => cases hτs.1
      | _ => cases htrailing
    | absent | register | memory | immediate | constant | far => rfl

end Frame

theorem relativeBytes_of_branchesAlone {f : Frame} {width : Width} (h : width = .b ∨ width = .z) :
    Frame.relativeBytes (f.bits width) = 1 ∨
      Frame.relativeBytes (f.bits width) = if f.operandSize = 16 then 2 else 4 := by
  rcases h with rfl | rfl
  · exact Or.inl rfl
  · right
    by_cases h16 : f.operandSize = 16
    · simp [Frame.bits, Width.bits, h16, Frame.relativeBytes]
    · simp [Frame.bits, Width.bits, h16, Frame.relativeBytes]

theorem operands_relative {t : Target} {d : Definition} {s s₁ s' : State} {ops : Vector Operand 4}
    {r : RelativeTarget} (hd : d ∈ definitions)
    (hmodRM : s₁.modRM.isSome = d.entryFlags.hasModRM)
    (h : operands (frameOf t d.entry s) d.entry.operands s₁ = .ok ops s')
    (hr : .relative r ∈ ops.toList) :
    ∃ bs : List UInt8, (bs.length = 1 ∨
        bs.length = if (frameOf t d.entry s).operandSize = 16 then 2 else 4) ∧
      s₁.cursor.Reads bs s'.cursor ∧
      r.displacement = Word.signExtend (8 * bs.length) (Word.littleEndian bs) := by
  have halone := List.all_eq_true.mp definitions_branchesAlone d hd
  have horderly := List.all_eq_true.mp definitions_isOrderly d hd
  have hyields := operands_ok h
  rw [Definition.toList_entry_operands] at hyields
  simp only [Definition.isOrderly, Bool.and_eq_true, ← hmodRM] at horderly
  obtain ⟨⟨-, hsuits⟩, -⟩ := horderly
  generalize d.templates = τs at halone hyields hsuits
  generalize ops.toList = os at hyields hr
  have hother (hτs : τs.all (!·.isRelative) = true) : False := by
    have hall := hyields.not_relative (addressSize_mem t.mode s.prefixes.addressSize)
      (operandSizeOf_le t.mode s.prefixes d.entry.flags) hsuits hτs
    exact absurd (List.all_eq_true.mp hall _ hr) (by simp [Operand.isRelative])
  unfold Template.branchesAlone at halone
  split at halone
  · next width rest =>
    rw [Bool.and_eq_true, Bool.or_eq_true, decide_eq_true_eq, decide_eq_true_eq] at halone
    cases hyields with
    | cons head tail =>
      obtain ⟨hs', hos⟩ := tail.of_absent halone.2
      obtain ⟨bs, hlen, hreads, ho⟩ := Frame.relative_reads head
      subst hs'
      obtain heq | hmem := List.mem_cons.mp hr
      · rw [ho] at heq
        injection heq with heq
        refine ⟨bs, ?_, hreads, by rw [heq]⟩
        rw [hlen]
        exact relativeBytes_of_branchesAlone halone.1
      · exact absurd (List.all_eq_true.mp hos _ hmem) (by simp [Operand.isRelative])
  · exact (hother halone).elim

/-- The displacement of a branch is the number that its last bytes spell, and its target is counted
from behind them. -/
theorem instruction_relative {t : Target} {pc : UInt64} {s s' : State} {i : Instruction}
    {r : RelativeTarget} (hs : s.modRM = none) (h : instruction instructionTable t pc s = .ok i s')
    (hr : .relative r ∈ i.operands.toList) :
    r.target = truncate (pc + UInt64.ofNat i.length + UInt64.ofInt r.displacement) r.size ∧
    ∃ front bs : List UInt8, (bs.length = 1 ∨ bs.length = if i.operandSize = 16 then 2 else 4) ∧
      s.cursor.Reads (front ++ bs) s'.cursor ∧
      r.displacement = Word.signExtend (8 * bs.length) (Word.littleEndian bs) := by
  obtain ⟨e, s₁, he, hc, -⟩ := instruction_ok.mp h
  obtain ⟨-, s₂, ops, hm, hops, rfl⟩ := complete_ok.mp hc
  obtain ⟨d, hd, rfl, prefixes, modRM, -, -, hsome, hmodRM, hfront⟩ := heading_ok hs he hm
  have hpresent : s₂.modRM.isSome = d.entryFlags.hasModRM := by
    rw [hmodRM, Option.isSome_map]
    exact hsome
  obtain heq | ⟨-, heq⟩ := assemble_operands t pc d.entry s₁ ops s'.cursor.consumed
  · rw [heq, Vector.toList_map, List.mem_map] at hr
    obtain ⟨o, ho, hsettle⟩ := hr
    obtain ⟨r', rfl, hdisplacement, hsize, htarget⟩ := Operand.settleTarget_eq_relative hsettle
    obtain ⟨bs, hlen, hreads, hvalue⟩ := operands_relative hd hpresent hops ho
    rw [assemble_length, assemble_operandSize]
    refine ⟨htarget, prefixes ++ s₁.opcode.bytes ++ modRM.toList, bs, hlen, ?_, ?_⟩
    · exact Cursor.reads_append.mpr ⟨s₂.cursor, hfront, hreads⟩
    · rw [← hdisplacement, hvalue]
  · rw [heq] at hr
    simp [noOperands] at hr

theorem run_branches {t : Target} {source : Source} {offset : Nat} {pc : UInt64} {r : RelativeTarget}
    (h : (run instructionTable t source offset pc).1.error = none)
    (hr : .relative r ∈ (run instructionTable t source offset pc).1.operands.toList) :
    (run instructionTable t source offset pc).1.Branches
      (source.slice offset (offset + (run instructionTable t source offset pc).1.length)) r := by
  obtain ⟨-, hwell⟩ := run_isWellFormed h
  have hsize : r.size = (run instructionTable t source offset pc).1.operandSize :=
    (hwell.operands _ hr).1
  have hmem := hwell.operandSize
  obtain ⟨i, s, hi, hrun⟩ := instruction_of_run h
  rw [hrun] at hr hsize hmem ⊢
  obtain ⟨htarget, front, bs, hlen, hreads, hvalue⟩ := instruction_relative rfl hi hr
  obtain ⟨-, hoffset, hlength, -⟩ := instruction_ok_fields hi
  refine ⟨hsize, hmem, ?_, bs, ?_, hlen, hvalue⟩
  · rw [htarget, hsize, hoffset]
    exact toNat_target hmem pc i.length r.displacement
  · have hposition : s.cursor.position = offset + (front ++ bs).length := hreads.position_eq
    have hslice : source.slice offset s.cursor.position = front ++ bs := hreads.slice_eq
    show bs <:+ source.slice offset (offset + i.length)
    rw [hlength, hreads.consumed_eq, ← hposition, hslice]
    exact List.suffix_append _ _

end Decode

theorem decodeAt_branches {t : Target} {source : Source} {offset : Nat} {pc : UInt64} {keep : Bool}
    {r : RelativeTarget} (h : (decodeAt t source offset pc keep).error = none)
    (hr : .relative r ∈ (decodeAt t source offset pc keep).operands.toList) :
    (decodeAt t source offset pc keep).Branches
      (source.slice offset (offset + (decodeAt t source offset pc keep).length)) r := by
  rw [decodeAt_error] at h
  cases keep with
  | true =>
    have hbranches := Decode.run_branches h hr
    exact ⟨hbranches.size, hbranches.operandSize, hbranches.target, hbranches.displacement⟩
  | false => exact Decode.run_branches h hr

end X86
