import Mathlib.Logic.Function.Iterate
import X86.Proofs.Partition

/-!
A disassembler in use. Instructions can be asked for one by one or through a sequence that starts
over, and a sequence can be given up midway; whatever is done, the disassembler stands behind the
instructions returned since it last started over, and these begin the full sequence.
-/

namespace X86
namespace Disassembler

section Sweep

variable {source : Source} {o : Options} {position : Nat}

theorem Sweep.of_append {is js : List Instruction} (h : Sweep source o position (is ++ js)) :
    Sweep source o (position + totalLength is) js := by
  induction is generalizing position with
  | nil => exact h
  | cons i is ih =>
    have hrest := ih h.2.2
    rwa [totalLength_cons, ← Nat.add_assoc]

theorem Sweep.unique {is js : List Instruction} (h : Sweep source o position is)
    (h' : Sweep source o position js) : is = js := by
  induction is generalizing position js with
  | nil =>
    cases js with
    | nil => rfl
    | cons j js => exact absurd h'.1 (Nat.not_lt.mpr (Nat.le_of_eq (Eq.symm h)))
  | cons i is ih =>
    cases js with
    | nil => exact absurd h.1 (Nat.not_lt.mpr (Nat.le_of_eq (Eq.symm h')))
    | cons j js =>
      obtain ⟨-, hi, hrest⟩ := h
      obtain ⟨-, hj, hrest'⟩ := h'
      obtain rfl : i = j := hi.trans hj.symm
      rw [ih hrest hrest']

end Sweep

theorem totalLength_append (is js : List Instruction) :
    totalLength (is ++ js) = totalLength is + totalLength js := by
  simp only [totalLength, List.map_append, List.sum_append_nat]

theorem countedLength_append (is js : List Instruction) :
    countedLength (is ++ js) = countedLength is + countedLength js := by
  simp only [countedLength, List.filter_append, totalLength_append]

theorem countedLength_eq {is : List Instruction} (h : ∀ i ∈ is, i.error ≠ some .truncated) :
    countedLength is = totalLength is := by
  have hall : is.filter (fun i => i.error ≠ some .truncated) = is := by
    rw [List.filter_eq_self]
    intro i hi
    exact decide_eq_true (h i hi)
  rw [countedLength, hall]

theorem sweep_instructions {d : Disassembler} (h : d.options.start < d.source.length) :
    Sweep d.source d.options d.options.start d.instructions :=
  (pull_sweep d.source.length d.reset (Nat.le_of_lt h) (Nat.le_add_left _ _)).1

theorem instructions_atStart {source : Source} {o : Options} {is : List Instruction}
    (hstart : o.start < source.length) (h : Sweep source o o.start is) :
    (atStart source o).instructions = is :=
  (sweep_instructions (d := atStart source o) hstart).unique h

inductive Operation
  | next
  | reset
  /-- Start over, and take up to `pulls` instructions from the sequence before giving it up. -/
  | disassemble (pulls : Nat)
  deriving DecidableEq

/-- How many instructions have been asked for since the last restart, if `n` had been before. -/
def Operation.asked (n : Nat) : Operation → Nat
  | .next => n + 1
  | .reset => 0
  | .disassemble pulls => pulls

/-- A disassembler, and the instructions it has returned since it last started over. -/
structure Session where
  disassembler : Disassembler
  returned : List Instruction

namespace Session

def ofStart (d : Disassembler) : Session where
  disassembler := d
  returned := []

def next (s : Session) : Session :=
  match s.disassembler.next? with
  | none => s
  | some (i, d) => ⟨d, s.returned ++ [i]⟩

def pull (n : Nat) (s : Session) : Session where
  disassembler := (s.disassembler.pull n).2
  returned := s.returned ++ (s.disassembler.pull n).1.map Prod.fst

def perform (s : Session) : Operation → Session
  | .next => s.next
  | .reset => ofStart s.disassembler.reset
  | .disassemble pulls => (ofStart s.disassembler.reset).pull pulls

def performAll (s : Session) (ops : List Operation) : Session :=
  ops.foldl perform s

variable {s : Session}

theorem next_of_none (h : s.disassembler.next? = none) : s.next = s := by
  rw [next, h]

theorem next_of_some {i : Instruction} {d : Disassembler} (h : s.disassembler.next? = some (i, d)) :
    s.next = ⟨d, s.returned ++ [i]⟩ := by
  rw [next, h]

theorem pull_eq_iterate (n : Nat) (s : Session) : s.pull n = next^[n] s := by
  induction n generalizing s with
  | zero => simp [pull, Disassembler.pull]
  | succ n ih =>
    rw [Function.iterate_succ_apply]
    cases hnext : s.disassembler.next? with
    | none =>
      rw [next_of_none hnext, Function.iterate_fixed (next_of_none hnext)]
      simp [pull, pull_of_none hnext]
    | some x =>
      rw [next_of_some hnext, ← ih]
      simp [pull, Disassembler.pull, hnext]

/-- The disassembler goes back to `origin`. Of the full sequence, the instructions asked for have been
returned as far as there are so many; the disassembler stands behind them, and has counted those that
are not truncated. -/
structure Consistent (origin : Disassembler) (asked : Nat) (s : Session) : Prop where
  start_lt : origin.options.start < origin.source.length
  source : s.disassembler.source = origin.source
  options : s.disassembler.options = origin.options
  returned : s.returned = origin.instructions.take asked
  position : s.disassembler.position = origin.options.start + totalLength s.returned
  decoded : s.disassembler.decoded = countedLength s.returned

section Consistent

variable {origin : Disassembler} {asked : Nat}

theorem Consistent.restart (h : Consistent origin asked s) :
    Consistent origin 0 (ofStart s.disassembler.reset) where
  start_lt := h.start_lt
  source := h.source
  options := h.options
  returned := List.take_zero.symm
  position := congrArg Options.start h.options
  decoded := rfl

theorem Consistent.append_rest (h : Consistent origin asked s) :
    s.returned ++ origin.instructions.drop asked = origin.instructions := by
  rw [h.returned, List.take_append_drop]

theorem Consistent.sweep_rest (h : Consistent origin asked s) :
    Sweep origin.source origin.options s.disassembler.position (origin.instructions.drop asked) := by
  have hsweep := sweep_instructions h.start_lt
  rw [← h.append_rest] at hsweep
  rw [h.position]
  exact hsweep.of_append

theorem Consistent.next (h : Consistent origin asked s) : Consistent origin (asked + 1) s.next := by
  have hsweep := h.sweep_rest
  have htake : origin.instructions.take (asked + 1) =
      s.returned ++ (origin.instructions.drop asked).take 1 := by
    rw [List.take_add, h.returned]
  cases hrest : origin.instructions.drop asked with
  | nil =>
    rw [hrest] at hsweep htake
    have hend : s.disassembler.source.length ≤ s.disassembler.position := by
      rw [h.source]
      exact Nat.le_of_eq (Eq.symm hsweep)
    rw [List.take_nil, List.append_nil] at htake
    rw [next_of_none (next?_of_le hend)]
    exact { h with returned := htake.symm }
  | cons i rest =>
    rw [hrest] at hsweep htake
    obtain ⟨hlt, hi, -⟩ := hsweep
    rw [← h.source] at hlt hi
    rw [← h.options] at hi
    have hnext := next?_of_lt hlt
    rw [← hi] at hnext
    rw [next_of_some hnext]
    refine ⟨h.start_lt, h.source, h.options, htake.symm, ?_, ?_⟩
    · show s.disassembler.position + i.length = origin.options.start + totalLength (s.returned ++ [i])
      rw [totalLength_append, h.position, Nat.add_assoc]
      rfl
    · show s.disassembler.decoded + _ = countedLength (s.returned ++ [i])
      rw [countedLength_append, countedLength_cons, h.decoded]
      rfl

theorem Consistent.iterate (h : Consistent origin asked s) (n : Nat) :
    Consistent origin (asked + n) (Session.next^[n] s) := by
  induction n generalizing s asked with
  | zero => exact h
  | succ n ih =>
    rw [Nat.add_comm n 1, ← Nat.add_assoc, Nat.add_comm 1 n]
    exact ih h.next

/-- An operation keeps to the full sequence, and moves on in it by what it asks for. -/
theorem Consistent.perform (h : Consistent origin asked s) (op : Operation) :
    Consistent origin (op.asked asked) (s.perform op) := by
  cases op with
  | next => exact h.next
  | reset => exact h.restart
  | disassemble pulls =>
    show Consistent origin pulls ((ofStart s.disassembler.reset).pull pulls)
    have hpulled := h.restart.iterate pulls
    rwa [Nat.zero_add, ← pull_eq_iterate] at hpulled

theorem Consistent.performAll (h : Consistent origin asked s) (ops : List Operation) :
    Consistent origin (ops.foldl Operation.asked asked) (s.performAll ops) := by
  induction ops generalizing s asked with
  | nil => exact h
  | cons op ops ih => exact ih (h.perform op)

theorem Consistent.position_le (h : Consistent origin asked s) :
    s.disassembler.position ≤ origin.source.length := by
  have htotal := h.sweep_rest.totalLength_eq
  omega

theorem Consistent.of_truncated (h : Consistent origin asked s) {j : Nat} (hj : j < s.returned.length)
    (he : s.returned[j].error = some .truncated) :
    j + 1 = s.returned.length ∧ s.disassembler.position = origin.source.length := by
  have hall := sweep_instructions h.start_lt
  have hsweep := h.sweep_rest
  rw [← h.append_rest] at hall
  generalize origin.instructions.drop asked = rest at hall hsweep
  have hlast : j + 1 = (s.returned ++ rest).length := by
    refine hall.truncated_last (by rw [List.length_append]; omega) ?_
    rwa [List.getElem_append_left hj]
  rw [List.length_append] at hlast
  have hnil : rest = [] := List.length_eq_zero_iff.mp (by omega)
  rw [hnil] at hsweep
  exact ⟨by omega, hsweep⟩

theorem Consistent.position_of_truncated (h : Consistent origin asked s) {i : Instruction}
    (hlast : s.returned.getLast? = some i) (he : i.error = some .truncated) :
    s.disassembler.position = origin.source.length := by
  rw [List.getLast?_eq_getElem?] at hlast
  obtain ⟨hj, rfl⟩ := List.getElem?_eq_some_iff.mp hlast
  exact (h.of_truncated hj he).2

theorem Consistent.decoded_eq (h : Consistent origin asked s)
    (hlast : ∀ i, s.returned.getLast? = some i → i.error ≠ some .truncated) :
    s.disassembler.decoded = s.disassembler.position - origin.options.start := by
  have hnone : ∀ i ∈ s.returned, i.error ≠ some .truncated := by
    intro i hi he
    obtain ⟨j, hj, rfl⟩ := List.getElem_of_mem hi
    have hj' : s.returned.length - 1 = j := by
      have := (h.of_truncated hj he).1
      omega
    refine hlast _ ?_ he
    rw [List.getLast?_eq_getElem?, hj', List.getElem?_eq_getElem hj]
  have hdecoded := h.decoded
  have hposition := h.position
  rw [countedLength_eq hnone] at hdecoded
  omega

theorem Consistent.next?_eq_none_iff (h : Consistent origin asked s) :
    s.disassembler.next? = none ↔ s.disassembler.position = origin.source.length := by
  have hle := h.position_le
  rw [← h.source] at hle ⊢
  constructor
  · intro hnone
    by_contra hne
    have hlt : s.disassembler.position < s.disassembler.source.length := by omega
    rw [next?_of_lt hlt] at hnone
    cases hnone
  · intro heq
    exact next?_of_le (Nat.le_of_eq heq.symm)

end Consistent

end Session

/-- Whatever is asked of a disassembler, its position stays within the source from the start offset
on, the instructions returned since it last started over are as many of the full sequence as were asked
for, or all of it, and the number of bytes decoded is the length of those that are not truncated. That
is how far the position has come, unless the last instruction was truncated, behind which there is
nothing. At the end of the source, and only there, there is nothing to return, and asking for more
changes nothing. -/
theorem performAll_bookkeeping {source : Source} {options : Options} {d : Disassembler}
    (h : new source options = .ok d) (ops : List Operation) :
    let s := (Session.ofStart d).performAll ops
    (options.start ≤ s.disassembler.position ∧ s.disassembler.position ≤ source.length) ∧
    s.returned = d.instructions.take (ops.foldl Operation.asked 0) ∧
    (∀ j (hj : j < s.returned.length), d.instructions[j]? = some s.returned[j]) ∧
    s.disassembler.decoded =
      totalLength (s.returned.filter fun i => i.error ≠ some .truncated) ∧
    ((∀ i, s.returned.getLast? = some i → i.error ≠ some .truncated) →
      s.disassembler.decoded = s.disassembler.position - options.start) ∧
    (∀ i, s.returned.getLast? = some i → i.error = some .truncated →
      s.disassembler.position = source.length) ∧
    (s.disassembler.next? = none ↔ s.disassembler.position = source.length) ∧
    (s.disassembler.position = source.length →
      s.perform .next = s ∧ ∀ n, s.disassembler.pull n = ([], s.disassembler)) := by
  intro s
  obtain ⟨hstart, rfl⟩ := new_eq_ok_iff.mp h
  have hbegin : Session.Consistent (atStart source options) 0 (.ofStart (atStart source options)) :=
    ⟨hstart, rfl, rfl, List.take_zero.symm, rfl, rfl⟩
  have hs : Session.Consistent (atStart source options) (ops.foldl Operation.asked 0) s :=
    hbegin.performAll ops
  have hnext := hs.next?_eq_none_iff
  have hposition : s.disassembler.position = options.start + totalLength s.returned := hs.position
  refine ⟨⟨by omega, hs.position_le⟩, hs.returned, ?_, hs.decoded, hs.decoded_eq,
    fun i => hs.position_of_truncated, hnext, ?_⟩
  · have hbegins : s.returned <+: (atStart source options).instructions := by
      rw [hs.returned]
      exact List.take_prefix ..
    exact List.prefix_iff_getElem?.mp hbegins
  · intro hend
    have hnone := hnext.mpr hend
    exact ⟨Session.next_of_none hnone, pull_of_none hnone⟩

/-- The second sequence is given up before the end. The next call returns the prefix there, which
nothing follows, and the last one returns nothing. -/
theorem performAll_bookkeeping_tail :
    let source := Source.ofArray #[0xCC, 0x90, 0xC3, 0x67]
    let options : Options := { start := 1 }
    ∃ d s, new source options = .ok d ∧
      s = (Session.ofStart d).performAll [.next, .disassemble 2, .next, .next] ∧
      s.returned.map (fun i => (i.mnemonic, i.length, i.error)) =
        [(.NOP, 1, none), (.RET, 1, none), (.INVALID, 1, some .truncated)] ∧
      s.disassembler.position = 4 ∧ s.disassembler.decoded = 2 ∧ s.disassembler.next? = none := by
  intro source options
  have hnew : new source options = .ok (atStart source options) := new_of_lt (by decide)
  have hnop : (instructionAt source options 1).mnemonic = .NOP ∧
      (instructionAt source options 1).length = 1 ∧ (instructionAt source options 1).error = none :=
    Decode.decodeAt_of_delivers (P := fun i => i.mnemonic = .NOP ∧ i.length = 1 ∧ i.error = none)
      (by decide +kernel)
  have hret : (instructionAt source options 2).mnemonic = .RET ∧
      (instructionAt source options 2).length = 1 ∧ (instructionAt source options 2).error = none :=
    Decode.decodeAt_of_delivers (P := fun i => i.mnemonic = .RET ∧ i.length = 1 ∧ i.error = none)
      (by decide +kernel)
  have hcut (table : Lookup.Table) : (Decode.run table options.target source 3 2).1 =
      { offset := 2, length := 1, mode := .bits32, error := some .truncated } := rfl
  have hlast : instructionAt source options 3 = _ :=
    (decodeAt_drop ..).trans (hcut instructionTable)
  have hsweep : Sweep source options 1 [instructionAt source options 1,
      instructionAt source options 2, instructionAt source options 3] := by
    refine ⟨by decide, rfl, ?_⟩
    rw [hnop.2.1]
    refine ⟨by decide, rfl, ?_⟩
    rw [hret.2.1]
    refine ⟨by decide, rfl, ?_⟩
    rw [hlast]
    rfl
  have hall := instructions_atStart (by decide) hsweep
  obtain ⟨-, hreturned, -, hdecoded, -, hend, hnone, -⟩ :=
    performAll_bookkeeping hnew [.next, .disassemble 2, .next, .next]
  rw [hall] at hreturned
  have hposition := hend (instructionAt source options 3) (by rw [hreturned]; rfl) (by rw [hlast])
  refine ⟨_, _, hnew, rfl, ?_, hposition, ?_, hnone.mpr hposition⟩
  · rw [hreturned]
    simp [Operation.asked, hnop, hret, hlast]
  · rw [hdecoded, hreturned]
    simp [Operation.asked, totalLength, hnop, hret, hlast]

end Disassembler
end X86
