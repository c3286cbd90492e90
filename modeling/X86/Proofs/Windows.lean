import X86.Proofs.Partition

/-!
Windows onto a source. A cursor over a window stands for a cursor over the source itself, further on
by the offset of the window. The two see the same bytes and the same end, so decoding and
disassembling through a window come to the same as doing so in the source.
-/

namespace X86

namespace Source

@[simp] theorem length_window (s : Source) (v : Nat) : (s.window v).length = s.length - v := rfl

@[simp] theorem get?_window (s : Source) (v i : Nat) : (s.window v).get? i = s.get? (v + i) :=
  Window.get?_toSource ⟨s, v⟩ i

theorem length_window_window (s : Source) (a b : Nat) :
    ((s.window a).window b).length = (s.window (a + b)).length :=
  Nat.sub_sub s.length a b

theorem get?_window_window (s : Source) (a b i : Nat) :
    ((s.window a).window b).get? i = (s.window (a + b)).get? i := by
  rw [get?_window, get?_window, get?_window, Nat.add_assoc]

end Source

namespace Cursor

/-- The place in the source that a cursor over its window at `v` stands at. -/
def outward (s : Source) (v : Nat) (c : Cursor) : Cursor :=
  ⟨s, v + c.start, v + c.position⟩

variable {s : Source} {v : Nat} {c c' : Cursor}

theorem Reads.outward {bs : List UInt8} (h : c.Reads bs c') (hc : c.source = s.window v) :
    (c.outward s v).Reads bs (c'.outward s v) := by
  induction bs generalizing c with
  | nil => rw [reads_nil.mp h, reads_nil]
  | cons b bs ih =>
    obtain ⟨hb, hrest⟩ := h
    rw [hc, Source.get?_window] at hb
    exact ⟨hb, ih hrest hc⟩

theorem AtEnd.outward (h : c.AtEnd) (hc : c.source = s.window v) : (c.outward s v).AtEnd := by
  rw [AtEnd, hc, Source.get?_window] at h
  exact h

end Cursor

namespace Decode

open Lookup (Table)

/-- A run through a window is the run at the place that the window shows. -/
theorem run_window (table : Table) (t : Target) (s : Source) (v offset : Nat) (pc : UInt64) :
    run table t s (v + offset) pc =
      ((run table t (s.window v) offset pc).1,
        (run table t (s.window v) offset pc).2.outward s v) := by
  obtain ⟨bs, h⟩ := exists_settles table t pc (s.window v) offset
  have hsource : (run table t (s.window v) offset pc).2.source = s.window v := h.reads.source_eq
  apply h.replays
  · exact h.reads.outward rfl
  · intro he
    exact (h.ends he).outward hsource

theorem consumedBytes_run_window (table : Table) (t : Target) (s : Source) (v offset : Nat)
    (pc : UInt64) :
    (run table t s (v + offset) pc).2.consumedBytes =
      (run table t (s.window v) offset pc).2.consumedBytes := by
  obtain ⟨bs, h⟩ := exists_settles table t pc (s.window v) offset
  have hreads : (Cursor.ofStart s (v + offset)).Reads bs (run table t s (v + offset) pc).2 := by
    rw [run_window]
    exact h.reads.outward rfl
  rw [hreads.consumedBytes_eq, h.reads.consumedBytes_eq]

end Decode

theorem decodeAt_window (t : Target) (s : Source) (v offset : Nat) (pc : UInt64) (keep : Bool) :
    decodeAt t (s.window v) offset pc keep = decodeAt t s (v + offset) pc keep := by
  cases keep with
  | false => rw [decodeAt_drop, decodeAt_drop, Decode.run_window]
  | true =>
    rw [decodeAt_keep, decodeAt_keep, Decode.consumedBytes_run_window, Decode.run_window]

namespace Disassembler

/-- `d` stands in the window at `v` where `d'` stands in the source. -/
structure Outward (s : Source) (v : Nat) (d d' : Disassembler) : Prop where
  window : d.source = s.window v
  source : d'.source = s
  options : d'.options = { d.options with start := v + d.options.start }
  position : d'.position = v + d.position
  decoded : d'.decoded = d.decoded

section Outward

variable {s : Source} {v : Nat} {d d' : Disassembler}

theorem Outward.instructionAt_eq (h : Outward s v d d') :
    instructionAt d'.source d'.options d'.position = instructionAt d.source d.options d.position := by
  have hpc : v + d.position - (v + d.options.start) = d.position - d.options.start := by omega
  rw [instructionAt, instructionAt, h.window, decodeAt_window, h.source, h.options, h.position, hpc]

theorem Outward.next? (h : Outward s v d d') :
    (d.next? = none ∧ d'.next? = none) ∨
      ∃ i e e', d.next? = some (i, e) ∧ d'.next? = some (i, e') ∧ Outward s v e e' := by
  have hlength : d.source.length = s.length - v := by rw [h.window, Source.length_window]
  have hposition := h.position
  by_cases hlt : d.position < d.source.length
  · have hlt' : d'.position < d'.source.length := by
      rw [h.source]
      omega
    have hnext' := next?_of_lt hlt'
    rw [h.instructionAt_eq] at hnext'
    refine .inr ⟨_, _, _, next?_of_lt hlt, hnext', h.window, h.source, h.options, ?_, ?_⟩
    · simp only [past, hposition, Nat.add_assoc]
    · simp only [past, h.decoded]
  · have hle' : d'.source.length ≤ d'.position := by
      rw [h.source]
      omega
    exact .inl ⟨next?_of_le (Nat.not_lt.mp hlt), next?_of_le hle'⟩

theorem Outward.pull (n : Nat) (h : Outward s v d d') :
    (d.pull n).1 = (d'.pull n).1 ∧ Outward s v (d.pull n).2 (d'.pull n).2 := by
  induction n generalizing d d' with
  | zero => exact ⟨rfl, h⟩
  | succ n ih =>
    rw [Disassembler.pull, Disassembler.pull]
    obtain ⟨hnone, hnone'⟩ | ⟨i, e, e', hnext, hnext', he⟩ := h.next?
    · rw [hnone, hnone']
      exact ⟨rfl, h⟩
    · obtain ⟨hrest, houtward⟩ := ih he
      rw [hnext, hnext']
      simp only [he.decoded, hrest]
      exact ⟨trivial, houtward⟩

end Outward

theorem pull_of_exhausted {n m : Nat} {d : Disassembler} (h : (d.pull n).2.next? = none)
    (hnm : n ≤ m) : d.pull m = d.pull n := by
  induction n generalizing d m with
  | zero => exact pull_of_none h m
  | succ n ih =>
    obtain ⟨m, rfl⟩ : ∃ k, m = k + 1 := ⟨m - 1, by omega⟩
    rw [pull] at h
    rw [pull, pull]
    cases hnext : d.next? with
    | none => rfl
    | some x =>
      obtain ⟨i, d'⟩ := x
      rw [hnext] at h
      simp only [ih h (Nat.le_of_succ_le_succ hnm)]

/-- A window decodes like the source from its offset on, and a window of a window like one window. A
disassembler over a window gives the same instructions as one that starts in the source where the
window does, and has decoded the same number of bytes after each of them. -/
theorem window_transparent (s : Source) :
    (∀ (v offset : Nat) (t : Target) (pc : UInt64) (keep : Bool),
      decodeAt t (s.window v) offset pc keep = decodeAt t s (v + offset) pc keep) ∧
    (∀ a b : Nat, ((s.window a).window b).length = (s.window (a + b)).length ∧
      ∀ i, ((s.window a).window b).get? i = (s.window (a + b)).get? i) ∧
    ∀ (v : Nat) (options : Options), v < s.length →
      ∃ d d', new (s.window v) { options with start := 0 } = .ok d ∧
        new s { options with start := v } = .ok d' ∧
        d.disassemble.1 = d'.disassemble.1 ∧
        ∀ n, (d.pull n).1 = (d'.pull n).1 ∧ (d.pull n).2.decoded = (d'.pull n).2.decoded := by
  refine ⟨?_, ?_, ?_⟩
  · intro v offset t pc keep
    exact decodeAt_window t s v offset pc keep
  · intro a b
    exact ⟨s.length_window_window a b, s.get?_window_window a b⟩
  · intro v options hv
    let d := atStart (s.window v) { options with start := 0 }
    let d' := atStart s { options with start := v }
    have houtward : Outward s v d d' := ⟨rfl, rfl, rfl, rfl, rfl⟩
    refine ⟨d, d', new_of_lt (Nat.sub_pos_of_lt hv), new_of_lt hv, ?_, ?_⟩
    · -- the whole source has more bytes to pull for than the window, but nothing is left by then
      have hend : (d.pull (s.length - v)).2.next? = none :=
        (pull_sweep (s.length - v) d (Nat.zero_le _) (Nat.le_add_left _ _)).2.2
      show (d.pull (s.length - v)).1 = (d'.pull s.length).1
      rw [← pull_of_exhausted hend (Nat.sub_le s.length v)]
      exact (houtward.pull s.length).1
    · intro n
      obtain ⟨hpulled, hafter⟩ := houtward.pull n
      exact ⟨hpulled, hafter.decoded.symm⟩

/-- Two instructions behind two bytes that are left out. -/
theorem window_transparent_tail :
    let s := Source.ofArray #[0xCC, 0xCC, 0xB8, 0x34, 0x12, 0x00, 0x00, 0x90]
    2 < s.length ∧
      ∃ d d', new (s.window 2) { address := 0x1000, start := 0 } = .ok d ∧
        new s { address := 0x1000, start := 2 } = .ok d' ∧ d.disassemble.1 = d'.disassemble.1 := by
  intro s
  have hlt : 2 < s.length := by decide
  obtain ⟨-, -, hdisassemble⟩ := window_transparent s
  obtain ⟨d, d', hnew, hnew', hall, -⟩ := hdisassemble 2 { address := 0x1000 } hlt
  exact ⟨hlt, d, d', hnew, hnew', hall⟩

end Disassembler
end X86
