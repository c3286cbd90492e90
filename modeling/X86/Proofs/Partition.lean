import X86.Disassembler
import X86.Proofs.SelfDelimiting

/-!
Disassembly cuts its source into consecutive pieces, one for each instruction. `Sweep` describes such
a cutting from a position on; one step of a disassembler adds a piece to it, and a whole run reaches
the end of the source.
-/

namespace X86

namespace Decode

open Lookup (Table)

theorem run_offset (table : Table) (t : Target) (source : Source) (offset : Nat) (pc : UInt64) :
    (run table t source offset pc).1.offset = pc := by
  cases h : instruction table t pc { cursor := .ofStart source offset } with
  | ok i s =>
    rw [run_of_ok h]
    exact (instruction_ok_fields h).2.1
  | error fault s =>
    rw [run_of_error h]
    rfl

theorem run_bytes (table : Table) (t : Target) (source : Source) (offset : Nat) (pc : UInt64) :
    (run table t source offset pc).1.bytes = none := by
  cases h : instruction table t pc { cursor := .ofStart source offset } with
  | ok i s =>
    rw [run_of_ok h]
    exact (instruction_ok_fields h).2.2.2
  | error fault s =>
    rw [run_of_error h]
    rfl

variable {table : Table} {t : Target} {pc : UInt64} {source : Source} {offset : Nat} {bs : List UInt8}

theorem Settles.ne_nil (h : Settles table t pc source offset bs) (ho : offset < source.length) :
    bs ≠ [] := by
  rintro rfl
  have hend := h.ends h.error_of_nil
  rw [Cursor.reads_nil.mp h.reads, Cursor.atEnd_iff] at hend
  exact absurd ho (Nat.not_lt.mpr hend)

/-- Within the source, a decode reads at least one byte and stays within the source; it reports
exactly the bytes it read, and `Fault.truncated` only at the end. -/
theorem run_extent (table : Table) (t : Target) (pc : UInt64) (ho : offset < source.length) :
    0 < (run table t source offset pc).1.length ∧
    offset + (run table t source offset pc).1.length ≤ source.length ∧
    ((run table t source offset pc).1.error = some .truncated →
      offset + (run table t source offset pc).1.length = source.length) ∧
    (run table t source offset pc).2.consumedBytes =
      source.slice offset (offset + (run table t source offset pc).1.length) := by
  obtain ⟨bs, h⟩ := exists_settles table t pc source offset
  have hpos : 0 < bs.length := List.length_pos_iff.mpr (h.ne_nil ho)
  have hlen : (run table t source offset pc).1.length = bs.length := by
    rw [h.length_eq]
    omega
  have hposition : (run table t source offset pc).2.position = offset + bs.length := h.reads.position_eq
  have hle : (run table t source offset pc).2.position ≤ source.length :=
    h.reads.position_le (Nat.le_of_lt ho)
  rw [hlen, ← hposition]
  refine ⟨hpos, hle, fun he => ?_, ?_⟩
  · have hend := Cursor.atEnd_iff.mp (h.ends he)
    rw [h.reads.source_eq] at hend
    exact Nat.le_antisymm hle hend
  · rw [h.reads.consumedBytes_eq]
    exact h.reads.slice_eq.symm

end Decode

theorem decodeAt_extent (t : Target) {source : Source} {offset : Nat} (pc : UInt64) (keep : Bool)
    (ho : offset < source.length) :
    0 < (decodeAt t source offset pc keep).length ∧
    offset + (decodeAt t source offset pc keep).length ≤ source.length ∧
    ((decodeAt t source offset pc keep).error = some .truncated →
      offset + (decodeAt t source offset pc keep).length = source.length) ∧
    (decodeAt t source offset pc keep).offset = pc ∧
    (decodeAt t source offset pc keep).bytes =
      if keep then
        some (source.slice offset (offset + (decodeAt t source offset pc keep).length))
      else none := by
  obtain ⟨hpos, hle, hcut, hbytes⟩ := Decode.run_extent instructionTable t pc ho
  cases keep with
  | false =>
    rw [decodeAt_drop]
    exact ⟨hpos, hle, hcut, Decode.run_offset .., Decode.run_bytes ..⟩
  | true =>
    rw [decodeAt_keep]
    exact ⟨hpos, hle, hcut, Decode.run_offset .., congrArg some hbytes⟩

namespace Disassembler

def totalLength (is : List Instruction) : Nat :=
  (is.map (·.length)).sum

@[simp] theorem totalLength_nil : totalLength [] = 0 := rfl

@[simp] theorem totalLength_cons (i : Instruction) (is : List Instruction) :
    totalLength (i :: is) = i.length + totalLength is := rfl

def instructionAt (source : Source) (o : Options) (position : Nat) : Instruction :=
  decodeAt o.target source position (o.address + UInt64.ofNat (position - o.start)) o.keepBytes

/-- From `position` on, the source is cut into the given instructions. -/
def Sweep (source : Source) (o : Options) : Nat → List Instruction → Prop
  | position, [] => position = source.length
  | position, i :: is =>
    position < source.length ∧ i = instructionAt source o position ∧ Sweep source o (position + i.length) is

section Sweep

variable {source : Source} {o : Options} {position : Nat} {is : List Instruction}

theorem Sweep.totalLength_eq (h : Sweep source o position is) :
    position + totalLength is = source.length := by
  induction is generalizing position with
  | nil => exact h
  | cons i is ih =>
    rw [totalLength_cons, ← Nat.add_assoc]
    exact ih h.2.2

theorem Sweep.length_pos (h : Sweep source o position is) : ∀ i ∈ is, 1 ≤ i.length := by
  induction is generalizing position with
  | nil => simp
  | cons i is ih =>
    intro j hj
    obtain rfl | hj := List.mem_cons.mp hj
    · obtain ⟨hlt, rfl, -⟩ := h
      exact (decodeAt_extent _ _ _ hlt).1
    · exact ih h.2.2 j hj

theorem Sweep.getElem_eq (h : Sweep source o position is) {j : Nat} (hj : j < is.length) :
    is[j] = instructionAt source o (position + totalLength (is.take j)) ∧
      position + totalLength (is.take j) < source.length := by
  induction is generalizing position j with
  | nil => exact absurd hj (Nat.not_lt_zero j)
  | cons i is ih =>
    obtain ⟨hlt, hi, hrest⟩ := h
    cases j with
    | zero => exact ⟨hi, hlt⟩
    | succ j =>
      have := ih hrest (Nat.lt_of_succ_lt_succ hj)
      rwa [Nat.add_assoc] at this

theorem Sweep.eq_nil_of_truncated {i : Instruction} (h : Sweep source o position (i :: is))
    (he : i.error = some .truncated) : is = [] := by
  obtain ⟨hlt, rfl, hrest⟩ := h
  have hend := (decodeAt_extent _ _ _ hlt).2.2.1 he
  cases is with
  | nil => rfl
  | cons j is => exact absurd hrest.1 (Nat.not_lt.mpr (Nat.le_of_eq hend.symm))

theorem Sweep.truncated_last (h : Sweep source o position is) {j : Nat} (hj : j < is.length)
    (he : is[j].error = some .truncated) : j + 1 = is.length := by
  induction is generalizing position j with
  | nil => exact absurd hj (Nat.not_lt_zero j)
  | cons i is ih =>
    cases j with
    | zero => simp [h.eq_nil_of_truncated he]
    | succ j => exact congrArg (· + 1) (ih h.2.2 (Nat.lt_of_succ_lt_succ hj) he)

theorem Sweep.kept (h : Sweep source o position is) (hk : o.keepBytes = true) :
    ∃ kept : List (List UInt8), is.map (·.bytes) = kept.map some ∧
      kept.flatten = source.slice position source.length := by
  induction is generalizing position with
  | nil =>
    obtain rfl : position = source.length := h
    exact ⟨[], rfl, by simp⟩
  | cons i is ih =>
    obtain ⟨hlt, rfl, hrest⟩ := h
    obtain ⟨_, hle, _, _, hbytes⟩ := decodeAt_extent o.target
      (o.address + UInt64.ofNat (position - o.start)) o.keepBytes hlt
    obtain ⟨kept, hmap, hflat⟩ := ih hrest
    rw [if_pos hk] at hbytes
    refine ⟨source.slice position (position + (instructionAt source o position).length) :: kept, ?_, ?_⟩
    · rw [List.map_cons, List.map_cons, hmap]
      exact congrArg (· :: _) hbytes
    · rw [List.flatten_cons, hflat]
      exact source.slice_append (Nat.le_add_right _ _) hle

end Sweep

/-- The number of bytes in the instructions that are not truncated. -/
def countedLength (is : List Instruction) : Nat :=
  totalLength (is.filter fun i => i.error ≠ some .truncated)

theorem countedLength_cons (i : Instruction) (is : List Instruction) :
    countedLength (i :: is) =
      (if i.error = some .truncated then 0 else i.length) + countedLength is := by
  by_cases h : i.error = some .truncated
  · simp [countedLength, h]
  · simp [countedLength, h]

theorem next?_of_le {d : Disassembler} (h : d.source.length ≤ d.position) : d.next? = none :=
  if_pos h

def past (d : Disassembler) (i : Instruction) : Disassembler :=
  { d with
    decoder := (d.decoder.decode d.source d.position d.pc d.options.keepBytes).2
    position := d.position + i.length
    decoded := d.decoded + if i.error = some .truncated then 0 else i.length
    target_eq := d.target_next }

/-- Whatever earlier decodes have left behind, the next instruction is what a new decoder gives. -/
theorem next?_of_lt {d : Disassembler} (h : d.position < d.source.length) :
    d.next? = some (instructionAt d.source d.options d.position,
      d.past (instructionAt d.source d.options d.position)) := by
  have hfresh : (d.decoder.decode d.source d.position d.pc d.options.keepBytes).1 =
      instructionAt d.source d.options d.position := by
    rw [Decoder.decode_eq_ofTarget, d.target_eq]
    rfl
  rw [← hfresh]
  exact if_neg (Nat.not_le.mpr h)

theorem next?_congr {d d' : Disassembler} (hsource : d.source = d'.source)
    (hoptions : d.options = d'.options) (hposition : d.position = d'.position)
    (hdecoded : d.decoded = d'.decoded) : d.next? = d'.next? := by
  obtain ⟨source, options, ⟨t, scratch⟩, position, decoded, ht⟩ := d
  obtain ⟨source', options', ⟨t', scratch'⟩, position', decoded', ht'⟩ := d'
  obtain rfl : source = source' := hsource
  obtain rfl : options = options' := hoptions
  obtain rfl : position = position' := hposition
  obtain rfl : decoded = decoded' := hdecoded
  obtain rfl : t = options.target := ht
  obtain rfl : t' = options.target := ht'
  rfl

theorem pull_of_none {d : Disassembler} (h : d.next? = none) (n : Nat) : pull n d = ([], d) := by
  cases n with
  | zero => rfl
  | succ n => rw [pull, h]

/-- With enough pulls a disassembler sweeps the rest of its source, counts the instructions that are
not truncated, and has nothing more to return. -/
theorem pull_sweep (n : Nat) (d : Disassembler) (hp : d.position ≤ d.source.length)
    (hn : d.source.length ≤ d.position + n) :
    Sweep d.source d.options d.position ((pull n d).1.map Prod.fst) ∧
    (pull n d).2.decoded = d.decoded + countedLength ((pull n d).1.map Prod.fst) ∧
    (pull n d).2.next? = none := by
  induction n generalizing d with
  | zero => exact ⟨Nat.le_antisymm hp hn, rfl, next?_of_le hn⟩
  | succ n ih =>
    obtain heq | hlt := Nat.eq_or_lt_of_le hp
    · have hnone : d.next? = none := next?_of_le (Nat.le_of_eq heq.symm)
      rw [pull_of_none hnone]
      exact ⟨heq, rfl, hnone⟩
    · have hext := decodeAt_extent d.options.target d.pc d.options.keepBytes hlt
      have hpos : 0 < (instructionAt d.source d.options d.position).length := hext.1
      have hle : d.position + (instructionAt d.source d.options d.position).length ≤ d.source.length :=
        hext.2.1
      obtain ⟨hsweep, hcount, hnext⟩ := ih (d.past (instructionAt d.source d.options d.position)) hle
        (show d.source.length ≤
          d.position + (instructionAt d.source d.options d.position).length + n by omega)
      rw [pull, next?_of_lt hlt]
      refine ⟨⟨hlt, rfl, hsweep⟩, ?_, hnext⟩
      rw [List.map_cons, countedLength_cons, ← Nat.add_assoc]
      exact hcount

/-- The instructions that a disassembler returns from the start offset on. -/
def instructions (d : Disassembler) : List Instruction :=
  d.disassemble.1.map Prod.fst

theorem disassemble_atStart {d : Disassembler} (h : d.options.start < d.source.length) :
    (atStart d.source d.options).disassemble = d.disassemble := by
  obtain ⟨n, hn⟩ : ∃ n, d.source.length = n + 1 := ⟨d.source.length - 1, by omega⟩
  have hnext : (atStart d.source d.options).reset.next? = d.reset.next? := next?_congr rfl rfl rfl rfl
  have hsome := next?_of_lt (d := d.reset) h
  rw [hsome] at hnext
  show pull d.source.length (atStart d.source d.options).reset = pull d.source.length d.reset
  rw [hn, pull, pull, hsome, hnext]

/-- Disassembling to the end cuts the source, from the start offset on, into consecutive instructions
of at least one byte. Each is what decoding alone gives at its place. Only the last can be truncated,
and is then not counted. The kept bytes spell the source. -/
theorem disassemble_partitions (d : Disassembler) (h : d.options.start < d.source.length) :
    (∃ d', new d.source d.options = .ok d' ∧ d'.disassemble = d.disassemble) ∧
    d.disassemble.2.next? = none ∧
    (∀ i ∈ d.instructions, 1 ≤ i.length) ∧
    totalLength d.instructions = d.source.length - d.options.start ∧
    (∀ j (hj : j < d.instructions.length),
      (d.instructions[j]).offset =
        d.options.address + UInt64.ofNat (totalLength (d.instructions.take j)) ∧
      d.instructions[j] = decodeAt d.options.target d.source
        (d.options.start + totalLength (d.instructions.take j))
        (d.options.address + UInt64.ofNat (totalLength (d.instructions.take j)))
        d.options.keepBytes ∧
      ((d.instructions[j]).error = some .truncated → j + 1 = d.instructions.length)) ∧
    d.disassemble.2.decoded =
      totalLength (d.instructions.filter fun i => i.error ≠ some .truncated) ∧
    (d.options.keepBytes = true →
      ∃ kept : List (List UInt8), d.instructions.map (·.bytes) = kept.map some ∧
        kept.flatten = d.source.slice d.options.start d.source.length) := by
  obtain ⟨hsweep, hcount, hnext⟩ := pull_sweep d.source.length d.reset (Nat.le_of_lt h)
    (Nat.le_add_left _ _)
  change Sweep d.source d.options d.options.start d.instructions at hsweep
  refine ⟨⟨_, new_of_lt h, disassemble_atStart h⟩, hnext, hsweep.length_pos, ?_, ?_, ?_, hsweep.kept⟩
  · have := hsweep.totalLength_eq
    omega
  · intro j hj
    obtain ⟨heq, hlt⟩ := hsweep.getElem_eq hj
    have hat : d.instructions[j] = decodeAt d.options.target d.source
        (d.options.start + totalLength (d.instructions.take j))
        (d.options.address + UInt64.ofNat (totalLength (d.instructions.take j)))
        d.options.keepBytes := by
      rw [heq, instructionAt, Nat.add_sub_cancel_left]
    refine ⟨?_, hat, hsweep.truncated_last hj⟩
    rw [hat]
    exact (decodeAt_extent _ _ _ hlt).2.2.2.1
  · rw [← Nat.zero_add (totalLength _)]
    exact hcount

/-- From offset one on, the first two of these bytes are an instruction each and the third begins
one. -/
theorem disassemble_partitions_tail :
    let d : Disassembler := {
      source := .ofArray #[0xCC, 0x90, 0xC3, 0x0F]
      options := { keepBytes := true, start := 1 }
      decoder := { target := ⟨.bits32, .any⟩, scratch := { opcode := .ofByte 0x90 } }
      position := 3
      decoded := 1
      target_eq := rfl }
    (1 < 4 ∧ d.options.keepBytes = true) ∧ totalLength d.instructions = 3 ∧
      ∃ kept : List (List UInt8), d.instructions.map (·.bytes) = kept.map some ∧
        kept.flatten = d.source.slice 1 4 := by
  intro d
  have h := disassemble_partitions d (show 1 < 4 by decide)
  exact ⟨⟨by decide, rfl⟩, h.2.2.2.1, h.2.2.2.2.2.2 rfl⟩

end Disassembler
end X86
