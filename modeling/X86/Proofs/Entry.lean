import X86.Proofs.Encoding
import X86.Proofs.Resolution
import X86.Proofs.Stages

/-!
The first half of a decode: a run of prefixes, the opcode and the ModRM byte. The entry found is that
of the definition which the scan finds, and the bytes read up to its operands are the prefixes, the
opcode that the state records, and the ModRM byte of an entry that has one.
-/

namespace X86

/-- Whether a byte is a prefix. In 64-bit mode the bytes 40 to 4F are, too. -/
def isPrefixByte (mode : Mode) (b : UInt8) : Bool :=
  [0x26, 0x2E, 0x36, 0x3E, 0x64, 0x65, 0x66, 0x67, 0xF0, 0xF2, 0xF3].contains b ||
    (mode.is64 && 0x40 ≤ b && b ≤ 0x4F)

theorem Segment.ofOverride?_isSome (b : UInt8) :
    (ofOverride? b).isSome = [0x26, 0x2E, 0x36, 0x3E, 0x64, 0x65].contains b := by
  unfold ofOverride?
  split
  all_goals simp_all

theorem PrefixState.absorb?_isSome (mode : Mode) (p : PrefixState) (b : UInt8) :
    (p.absorb? mode b).isSome = isPrefixByte mode b := by
  unfold absorb? isPrefixByte
  cases hrex : mode.is64 && 0x40 ≤ b && b ≤ 0x4F with
  | true => simp
  | false =>
    have hsegment := Segment.ofOverride?_isSome b
    simp only [Bool.false_eq_true, ↓reduceIte, Bool.or_false]
    by_cases h66 : b = 0x66
    · simp [h66]
    by_cases h67 : b = 0x67
    · simp [h67]
    by_cases hF0 : b = 0xF0
    · simp [hF0]
    by_cases hF2 : b = 0xF2
    · simp [hF2]
    by_cases hF3 : b = 0xF3
    · simp [hF3]
    simp only [h66, h67, hF0, hF2, hF3, ↓reduceIte, Option.isSome_map, hsegment]
    simp [h66, h67, hF0, hF2, hF3]

namespace Decode

open Lookup

theorem scanPrefixes_succ_ok {mode : Mode} {budget : Nat} {s s' : State} {first : UInt8} :
    scanPrefixes mode (budget + 1) s = .ok first s' ↔
      ∃ b, s.cursor.source.get? s.cursor.position = some b ∧
        match s.prefixes.absorb? mode b with
        | some p =>
          scanPrefixes mode budget { s with cursor := s.cursor.advance, prefixes := p } = .ok first s'
        | none => b = first ∧ { s with cursor := s.cursor.advance } = s' := by
  rw [scanPrefixes, bind_run, read_byte_run]
  cases s.cursor.source.get? s.cursor.position with
  | none => simp
  | some b =>
    simp only [Option.some.injEq, exists_eq_left']
    change (match s.prefixes.absorb? mode b with
      | some p => (do modify (setPrefixes fun _ => p); scanPrefixes mode budget : Decode UInt8)
      | none => pure b) { s with cursor := s.cursor.advance } = _ ↔ _
    cases s.prefixes.absorb? mode b with
    | some p => rfl
    | none => exact pure_ok

/-- The bytes in front of the opcode are prefixes, and the first byte of the opcode is none. -/
theorem scanPrefixes_ok {mode : Mode} {budget : Nat} {s s' : State} {first : UInt8}
    (h : scanPrefixes mode budget s = .ok first s') :
    s'.modRM = s.modRM ∧ isPrefixByte mode first = false ∧
      ∃ bs, bs.all (isPrefixByte mode) = true ∧ s.cursor.Reads (bs ++ [first]) s'.cursor := by
  induction budget generalizing s with
  | zero => exact absurd h (by simp [scanPrefixes])
  | succ budget ih =>
    obtain ⟨b, hb, h⟩ := scanPrefixes_succ_ok.mp h
    have habsorb := PrefixState.absorb?_isSome mode s.prefixes b
    cases hp : PrefixState.absorb? mode s.prefixes b with
    | some p =>
      rw [hp] at h habsorb
      obtain ⟨hm, hfirst, bs, hbs, hr⟩ := ih h
      refine ⟨hm, hfirst, b :: bs, ?_, hb, hr⟩
      rw [List.all_cons, ← habsorb, hbs]
      rfl
    | none =>
      rw [hp] at h habsorb
      obtain ⟨rfl, rfl⟩ := h
      exact ⟨rfl, habsorb.symm, [], rfl, hb, rfl⟩

theorem entry_ok {table : Table} {t : Target} {s s' : State} {e : Entry} :
    entry table t s = .ok e s' ↔
      ∃ first s₁ n, scanPrefixes t.mode maxLength s = .ok first s₁ ∧
        resolve t (table.root.child first.toNat) { s₁ with opcode := Opcode.ofByte first } = .ok n s' ∧
        table.entries[n]? = some e := by
  unfold entry
  simp only [bind_ok, modify_ok]
  constructor
  · rintro ⟨first, s₁, hscan, _, s₂, rfl, n, s₃, hres, h⟩
    cases he : table.entries[n]? with
    | none =>
      rw [he] at h
      exact absurd h (by simp)
    | some e' =>
      rw [he] at h
      obtain ⟨rfl, rfl⟩ := pure_ok.mp h
      exact ⟨first, s₁, n, hscan, hres, he⟩
  · rintro ⟨first, s₁, n, hscan, hres, he⟩
    refine ⟨first, s₁, hscan, (), _, rfl, n, s', hres, ?_⟩
    rw [he]
    rfl

/-- An entry is that of the definition which the scan finds, in the state that follows the prefixes
and the opcode of this definition, less its mandatory prefix. -/
theorem chosen_of_entry {t : Target} {s s' : State} {e : Entry} (hs : s.modRM = none)
    (h : entry instructionTable t s = .ok e s') :
    ∃ first s₁ n d, scanPrefixes t.mode maxLength s = .ok first s₁ ∧ definitions[n]? = some d ∧
      e = d.entry ∧ scan t s₁.prefixes (first :: s₁.cursor.rest) = some n ∧
      Chosen t { s₁ with opcode := Opcode.ofByte first } first n s' := by
  obtain ⟨first, s₁, n, hscan, hres, he⟩ := entry_ok.mp h
  rw [instructionTable_entries, Option.map_eq_some_iff] at he
  obtain ⟨d, hd, rfl⟩ := he
  have hm : s₁.modRM = none := (scanPrefixes_ok hscan).1.trans hs
  have hreports := resolve_chosen t
    (s := { s₁ with opcode := Opcode.ofByte first }) hm first
  rw [hres] at hreports
  cases hreports with
  | entry hn hchosen => exact ⟨first, s₁, n, d, hscan, hd, rfl, hn, hchosen⟩

theorem found_of_entry {t : Target} {s s' : State} {e : Entry} (hs : s.modRM = none)
    (h : entry instructionTable t s = .ok e s') :
    ∃ first s₁ n d, scanPrefixes t.mode maxLength s = .ok first s₁ ∧ definitions[n]? = some d ∧
      e = d.entry ∧ scan t s₁.prefixes (first :: s₁.cursor.rest) = some n ∧
      Found { s₁ with opcode := Opcode.ofByte first } first n s' := by
  obtain ⟨first, s₁, n, d, hscan, hd, he, hn, hchosen⟩ := chosen_of_entry hs h
  exact ⟨first, s₁, n, d, hscan, hd, he, hn, hchosen.found⟩

/-- What the scan finds is found by the descent, unless the bytes end too early. -/
theorem entry_of_scan {t : Target} {s s₁ : State} {first : UInt8} {n : Nat} {d : Definition}
    (hs : s.modRM = none) (hprefixes : scanPrefixes t.mode maxLength s = .ok first s₁)
    (hscan : scan t s₁.prefixes (first :: s₁.cursor.rest) = some n) (hd : definitions[n]? = some d)
    (hbytes : ¬ Unfinished (first :: s₁.cursor.rest)) :
    ∃ s', entry instructionTable t s = .ok d.entry s' ∧
      Chosen t { s₁ with opcode := Opcode.ofByte first } first n s' := by
  have hm : s₁.modRM = none := (scanPrefixes_ok hprefixes).1.trans hs
  have hreports := resolve_chosen t
    (s := { s₁ with opcode := Opcode.ofByte first }) hm first
  have hentry : instructionTable.entries[n]? = some d.entry := by
    rw [instructionTable_entries, hd, Option.map_some]
  cases hres : resolve t (instructionTable.root.child first.toNat)
      { s₁ with opcode := Opcode.ofByte first } with
  | ok n' s' =>
    rw [hres] at hreports
    cases hreports with
    | entry hn hchosen =>
      obtain rfl : n = n' := Option.some.inj (hscan.symm.trans hn)
      exact ⟨s', entry_ok.mpr ⟨first, s₁, n, hprefixes, hres, hentry⟩, hchosen⟩
  | error fault s' =>
    rw [hres] at hreports
    cases hreports with
    | unknown hn => exact absurd (hscan.symm.trans hn) (by simp)
    | truncated _ hshort => exact absurd hshort hbytes

theorem hasModRM_of_usesModRM {d : Definition} (h : d.usesModRM = true) :
    d.entry.flags.hasModRM = true := by
  have hbit : ∀ a b c : UInt16,
      (a ||| EntryFlags.modRMBit ||| b ||| c) &&& EntryFlags.modRMBit ≠ 0 := by
    intro a b c hz
    have hseven := congrArg (fun x : UInt16 => x.toBitVec.getLsbD 7) hz
    simp [EntryFlags.modRMBit] at hseven
  simpa [EntryFlags.hasModRM, Definition.entry, Definition.entryFlags, h] using hbit d.flags _ _

theorem State.reads_fetched_of_peek {s : State} {m : ModRM} (hs : s.modRM = none)
    (h : s.peek = some m) : ∃ b, ModRM.ofByte b = m ∧ s.cursor.Reads [b] s.fetched.cursor := by
  rw [State.peek, hs] at h
  obtain ⟨b, hb, rfl⟩ := Option.map_eq_some_iff.mp h
  refine ⟨b, rfl, hb, ?_⟩
  simp [State.fetched, hs, hb]

theorem discard_ok {m : Decode α} {s s' : State} {u : Unit} :
    (discard m : Decode Unit) s = .ok u s' ↔ ∃ a, m s = .ok a s' := by
  change EStateM.map _ m s = _ ↔ _
  unfold EStateM.map
  cases m s with
  | ok a s₁ => simp
  | error e s₁ => simp

theorem fetchModRM_fetched_ok {e : Entry} {s s' : State} (h : e.flags.hasModRM = true) :
    fetchModRM e s.fetched = .ok () s' ↔ fetchModRM e s = .ok () s' := by
  rw [fetchModRM, if_pos h, discard_ok, discard_ok, modRM_run, modRM_run, State.peek_fetched,
    State.fetched_fetched]
  cases s.peek with
  | none => simp
  | some x => simp

theorem complete_fetched_ok {t : Target} {pc : UInt64} {e : Entry} {s s' : State} {i : Instruction}
    (h : e.flags.hasModRM = true) :
    complete t pc e s.fetched = .ok i s' ↔ complete t pc e s = .ok i s' := by
  have hframe : frameOf t e s.fetched = frameOf t e s := by
    simp only [frameOf, State.fetched_prefixes, State.fetched_opcode]
  have hassemble (ops : Vector Operand 4) (n : Nat) :
      assemble t pc e s.fetched ops n = assemble t pc e s ops n := by
    simp only [assemble, hframe, State.fetched_prefixes, State.fetched_opcode]
  simp only [complete_ok, fetchModRM_fetched_ok h, hframe, hassemble]

/-- What a decode that starts in `s` goes through up to its operands. The prefixes have been read in
`s₁`, with `first` behind them; the scan finds definition `n`, which describes the bytes under the
mandatory prefix `m`; and the opcode has been read in `s₂`. -/
structure Heading (t : Target) (s : State) (first : UInt8) (s₁ : State) (n : Nat) (d : Definition)
    (m : Fin 4) (s₂ : State) : Prop where
  prefixes : scanPrefixes t.mode maxLength s = .ok first s₁
  scan : scan t s₁.prefixes (first :: s₁.cursor.rest) = some n
  definition : definitions[n]? = some d
  describes : d.describes t s₁.prefixes m (first :: s₁.cursor.rest) = true
  past : State.past? { s₁ with opcode := Opcode.ofByte first } d.opcodeBytes.tail = some s₂

/-- Where a definition describes the bytes they can end too early only before its ModRM byte. -/
theorem eq_opcodeBytes_of_unfinished {t : Target} {p : PrefixState} {m : Fin 4} {bytes : List UInt8}
    {d : Definition} (hd : d ∈ definitions) (hdescribes : d.describes t p m bytes = true)
    (h : Unfinished bytes) : bytes = d.opcodeBytes ∧ d.usesModRM = true := by
  obtain ⟨d', hd', hle, hor⟩ := h
  rw [Definition.describes, Bool.and_eq_true, List.isPrefixOf_iff_prefix] at hdescribes
  obtain ⟨hfinal, hbytes, -⟩ := Definition.isProper_iff.mp (isProper_of_mem hd)
  obtain ⟨hfinal', hbytes', -⟩ := Definition.isProper_iff.mp (isProper_of_mem hd')
  have heq : d.opcodeBytes = d'.opcodeBytes := by
    by_contra hne
    rw [← hbytes, ← hbytes'] at hne
    have hparted := Opcode.parted_bytes hfinal hfinal' hne
    rw [hbytes, hbytes', not_parted (hdescribes.1.trans hle) List.prefix_rfl] at hparted
    cases hparted
  rw [← heq] at hle
  have hsame : bytes = d.opcodeBytes := hle.eq_of_length_le hdescribes.1.length_le
  rw [← heq] at hor
  exact ⟨hsame, usesModRM_of_selectsModRM hd hd' heq (hor.resolve_left (not_not_intro hsame))⟩

namespace Heading

variable {t : Target} {s first s₁ n d m s₂}

theorem mem (h : Heading t s first s₁ n d m s₂) : d ∈ definitions :=
  List.mem_of_getElem? h.definition

theorem opcodeBytes_eq (h : Heading t s first s₁ n d m s₂) :
    d.opcodeBytes = first :: d.opcodeBytes.tail := by
  have hdescribes := h.describes
  rw [Definition.describes, Bool.and_eq_true, List.isPrefixOf_iff_prefix] at hdescribes
  cases hbytes : d.opcodeBytes with
  | nil => exact absurd hbytes (opcodeBytes_ne_nil h.mem)
  | cons b bs =>
    rw [hbytes, List.cons_prefix_cons] at hdescribes
    rw [hdescribes.1.1, List.tail_cons]

theorem mem_choices (h : Heading t s first s₁ n d m s₂) : m ∈ s₁.prefixes.choices := by
  obtain ⟨m', hm', hdescribes⟩ := describes_of_scan h.scan h.definition
  rwa [Definition.choice_unique h.describes hdescribes]

theorem not_unfinished {pc : UInt64} {s' : State} {i : Instruction} (hs : s.modRM = none)
    (h : Heading t s first s₁ n d m s₂) (hc : complete t pc d.entry (s₂.spend m) = .ok i s') :
    ¬ Unfinished (first :: s₁.cursor.rest) := by
  intro hshort
  obtain ⟨hbytes, huses⟩ := eq_opcodeBytes_of_unfinished h.mem h.describes hshort
  obtain ⟨hreads, -, hmodRM, -⟩ := State.past?_eq_some h.past
  have hrest : s₂.cursor.rest = [] := by
    have hsplit : s₁.cursor.rest = d.opcodeBytes.tail ++ s₂.cursor.rest := hreads.rest_eq
    rw [h.opcodeBytes_eq, List.cons.injEq] at hbytes
    rw [hbytes.2] at hsplit
    exact List.self_eq_append_right.mp hsplit
  have hnone : s₂.modRM = none := hmodRM.trans ((scanPrefixes_ok h.prefixes).1.trans hs)
  have hpeek : (s₂.spend m).peek = none := by
    rw [State.peek_spend, State.peek_eq hnone, hrest]
    rfl
  obtain ⟨-, s₃, -, hfetch, -⟩ := complete_ok.mp hc
  rw [fetchModRM, if_pos (hasModRM_of_usesModRM huses), discard_ok, modRM_run, hpeek] at hfetch
  obtain ⟨x, hx⟩ := hfetch
  cases hx

end Heading

theorem complete_spend_ok {t : Target} {pc : UInt64} {d : Definition} {m : Fin 4} {s₂ s₃ s' : State}
    {i : Instruction} (h : s₃ = s₂.spend m ∨ s₃ = s₂.fetched.spend m ∧ d.usesModRM = true) :
    complete t pc d.entry s₃ = .ok i s' ↔ complete t pc d.entry (s₂.spend m) = .ok i s' := by
  obtain rfl | ⟨rfl, huses⟩ := h
  · rfl
  · rw [← State.fetched_spend]
    exact complete_fetched_ok (hasModRM_of_usesModRM huses)

theorem Heading.exists_entry {t : Target} {pc : UInt64} {s s₁ s₂ s' : State} {first : UInt8} {n : Nat}
    {d : Definition} {m : Fin 4} {i : Instruction} (hs : s.modRM = none)
    (h : Heading t s first s₁ n d m s₂) (hc : complete t pc d.entry (s₂.spend m) = .ok i s') :
    ∃ s₃, entry instructionTable t s = .ok d.entry s₃ ∧ complete t pc d.entry s₃ = .ok i s' := by
  obtain ⟨s₃, hentry, d', bs, s₂', hd', hbytes, hpast, m', -, hdescribes, hs₃⟩ :=
    entry_of_scan hs h.prefixes h.scan h.definition (h.not_unfinished hs hc)
  obtain rfl : d = d' := Option.some.inj (h.definition.symm.trans hd')
  obtain rfl : m = m' := Definition.choice_unique h.describes hdescribes
  have htail : d.opcodeBytes.tail = bs := congrArg List.tail hbytes
  rw [← htail, h.past] at hpast
  obtain rfl : s₂ = s₂' := Option.some.inj hpast
  exact ⟨s₃, hentry, (complete_spend_ok hs₃).mpr hc⟩

/-- An instruction is decoded exactly where a definition is found and its operands can be read. -/
theorem instruction_iff_heading {t : Target} {pc : UInt64} {s s' : State} {i : Instruction}
    (hs : s.modRM = none) :
    instruction instructionTable t pc s = .ok i s' ↔
      ∃ first s₁ n d m s₂, Heading t s first s₁ n d m s₂ ∧
        complete t pc d.entry (s₂.spend m) = .ok i s' ∧ s'.cursor.consumed ≤ maxLength := by
  rw [instruction_ok]
  constructor
  · rintro ⟨e, s₃, hentry, hc, hlength⟩
    obtain ⟨first, s₁, n, d, hprefixes, hd, rfl, hscan, hchosen⟩ := chosen_of_entry hs hentry
    obtain ⟨d', bs, s₂, hd', hbytes, hpast, m, -, hdescribes, hs₃⟩ := hchosen
    obtain rfl : d = d' := Option.some.inj (hd.symm.trans hd')
    have htail : d.opcodeBytes.tail = bs := congrArg List.tail hbytes
    rw [← htail] at hpast
    exact ⟨first, s₁, n, d, m, s₂, ⟨hprefixes, hscan, hd, hdescribes, hpast⟩,
      (complete_spend_ok hs₃).mp hc, hlength⟩
  · rintro ⟨first, s₁, n, d, m, s₂, h, hc, hlength⟩
    obtain ⟨s₃, hentry, hc'⟩ := h.exists_entry hs hc
    exact ⟨d.entry, s₃, hentry, hc', hlength⟩

/-- The definition that the scan finds for the bytes ahead, and the state behind its opcode. -/
def heading? (t : Target) (s : State) : Option (Definition × State) :=
  match scanPrefixes t.mode maxLength s with
  | .error _ _ => none
  | .ok first s₁ => do
    let bytes := first :: s₁.cursor.rest
    let n ← scan t s₁.prefixes bytes
    let d ← definitions[n]?
    let m ← s₁.prefixes.choices.find? fun m => d.describes t s₁.prefixes m bytes
    let s₂ ← State.past? { s₁ with opcode := Opcode.ofByte first } d.opcodeBytes.tail
    pure (d, s₂.spend m)

theorem exists_heading {t : Target} {s s' : State} {d : Definition}
    (h : heading? t s = some (d, s')) :
    ∃ first s₁ n m s₂, Heading t s first s₁ n d m s₂ ∧ s₂.spend m = s' := by
  unfold heading? at h
  cases hprefixes : scanPrefixes t.mode maxLength s with
  | error fault s₁ =>
    rw [hprefixes] at h
    cases h
  | ok first s₁ =>
    rw [hprefixes] at h
    simp only [Option.bind_eq_bind, Option.bind_eq_some_iff] at h
    obtain ⟨n, hscan, d', hd, m, hm, s₂, hpast, heq⟩ := h
    obtain ⟨rfl, rfl⟩ := Prod.mk.inj (Option.some.inj heq)
    have hdescribes := List.find?_some hm
    exact ⟨first, s₁, n, m, s₂, ⟨hprefixes, hscan, hd, hdescribes, hpast⟩, rfl⟩

theorem Heading.heading?_eq {t : Target} {s s₁ s₂ : State} {first : UInt8} {n : Nat} {d : Definition}
    {m : Fin 4} (h : Heading t s first s₁ n d m s₂) : heading? t s = some (d, s₂.spend m) := by
  have hsome : (s₁.prefixes.choices.find? fun m =>
      d.describes t s₁.prefixes m (first :: s₁.cursor.rest)).isSome = true :=
    List.find?_isSome.mpr ⟨m, h.mem_choices, h.describes⟩
  obtain ⟨m', hm'⟩ := Option.isSome_iff_exists.mp hsome
  have hdescribes := List.find?_some hm'
  obtain rfl : m = m' := Definition.choice_unique h.describes hdescribes
  simp only [heading?, h.prefixes, h.scan, h.definition, hm', h.past, Option.bind_eq_bind,
    Option.bind_some]
  rfl

/-- The instruction that the definitions give, found by the scan and not by the table. -/
def scanned? (t : Target) (pc : UInt64) (s : State) : Option (Instruction × State) :=
  match heading? t s with
  | none => none
  | some (d, s₁) =>
    match complete t pc d.entry s₁ with
    | .ok i s₂ => some (i, s₂)
    | .error _ _ => none

/-- Where the operands are complete only the length can still be refused, by a run that stays there. -/
theorem instruction_of_complete {table : Table} {t : Target} {pc : UInt64} {e : Entry} {i : Instruction}
    {s s₁ s₂ : State} (he : entry table t s = .ok e s₁) (hc : complete t pc e s₁ = .ok i s₂) :
    instruction table t pc s =
      if maxLength < s₂.cursor.consumed then .error .tooLong s₂ else .ok i s₂ := by
  rw [instruction, bind_run, he]
  simp only [bind_run, hc, get_run]
  split
  · rfl
  · rfl

theorem instruction_of_scanned? {t : Target} {pc : UInt64} {s s' : State} {i : Instruction}
    (hs : s.modRM = none) (h : scanned? t pc s = some (i, s')) :
    instruction instructionTable t pc s =
      if maxLength < s'.cursor.consumed then .error .tooLong s' else .ok i s' := by
  unfold scanned? at h
  cases hheading : heading? t s with
  | none =>
    rw [hheading] at h
    cases h
  | some x =>
    obtain ⟨d, s₁⟩ := x
    obtain ⟨first, s₂, n, m, s₃, hfound, rfl⟩ := exists_heading hheading
    rw [hheading] at h
    cases hc : complete t pc d.entry (s₃.spend m) with
    | error fault s₄ =>
      simp only [hc] at h
      cases h
    | ok j s₄ =>
      simp only [hc] at h
      obtain ⟨rfl, rfl⟩ := Prod.mk.inj (Option.some.inj h)
      obtain ⟨s₅, hentry, hcomplete⟩ := hfound.exists_entry hs hc
      exact instruction_of_complete hentry hcomplete

theorem fetchModRM_ok {e : Entry} {s s₁ s' : State} {m : Fin 4} (hs : s.modRM = none)
    (h₁ : s₁ = s.spend m ∨ s₁ = s.fetched.spend m ∧ e.flags.hasModRM = true)
    (h : fetchModRM e s₁ = .ok () s') :
    ∃ modRM : Option UInt8, modRM.isSome = e.flags.hasModRM ∧
      s'.modRM = modRM.map ModRM.ofByte ∧ s.cursor.Reads modRM.toList s'.cursor := by
  unfold fetchModRM at h
  cases hflag : e.flags.hasModRM with
  | false =>
    rw [hflag, if_neg Bool.false_ne_true] at h
    obtain ⟨-, rfl⟩ := pure_ok.mp h
    obtain rfl | ⟨-, htrue⟩ := h₁
    · exact ⟨none, rfl, hs, rfl⟩
    · rw [hflag] at htrue
      cases htrue
  | true =>
    rw [hflag, if_pos rfl] at h
    obtain ⟨x, hx⟩ := discard_ok.mp h
    have hpeek : s₁.peek = s.peek := by
      obtain rfl | ⟨rfl, -⟩ := h₁
      · rfl
      · rw [State.peek_spend, State.peek_fetched]
    have hfetched : s₁.fetched = s.fetched.spend m := by
      obtain rfl | ⟨rfl, -⟩ := h₁
      · exact State.fetched_spend m s
      · rw [State.fetched_spend, State.fetched_fetched]
    rw [modRM_run, hpeek] at hx
    cases hp : s.peek with
    | none =>
      rw [hp] at hx
      cases hx
    | some y =>
      rw [hp] at hx
      obtain ⟨rfl, rfl⟩ : y = x ∧ s₁.fetched = s' := by simpa using hx
      obtain ⟨b, hb, hreads⟩ := State.reads_fetched_of_peek hs hp
      refine ⟨some b, rfl, ?_, ?_⟩
      · rw [hfetched]
        change s.fetched.modRM = _
        rw [State.fetched_modRM, hp, ← hb]
        rfl
      · rw [hfetched]
        exact hreads

/-- Up to its operands an instruction consists of prefixes, the opcode that the state records, and
the ModRM byte of an entry that has one. -/
theorem heading_ok {t : Target} {s s₁ s' : State} {e : Entry} (hs : s.modRM = none)
    (he : entry instructionTable t s = .ok e s₁) (hm : fetchModRM e s₁ = .ok () s') :
    ∃ d ∈ definitions, e = d.entry ∧ ∃ (prefixes : List UInt8) (modRM : Option UInt8),
      prefixes.all (isPrefixByte t.mode) = true ∧
      s₁.opcode.bytes.head?.all (!isPrefixByte t.mode ·) = true ∧
      modRM.isSome = e.flags.hasModRM ∧ s'.modRM = modRM.map ModRM.ofByte ∧
      s.cursor.Reads (prefixes ++ s₁.opcode.bytes ++ modRM.toList) s'.cursor := by
  obtain ⟨first, s₂, n, d, hscan, hd, rfl, -, hfound⟩ := found_of_entry hs he
  obtain ⟨hmodRM, hfirst, prefixes, hprefixes, hread⟩ := scanPrefixes_ok hscan
  obtain ⟨d', hd', -, hopcode, -⟩ := opcode_of_found rfl hfound
  obtain ⟨d'', bs, s₃, hd'', hbytes, hpast, m, -, hs₁⟩ := hfound
  obtain rfl : d = d' := Option.some.inj (hd.symm.trans hd')
  obtain rfl : d = d'' := Option.some.inj (hd.symm.trans hd'')
  obtain ⟨hopread, -, hmodRM', -⟩ := State.past?_eq_some hpast
  have hnone : s₃.modRM = none := hmodRM'.trans (hmodRM.trans hs)
  have hs₁' : s₁ = s₃.spend m ∨ s₁ = s₃.fetched.spend m ∧ d.entry.flags.hasModRM = true :=
    hs₁.imp_right fun h => ⟨h.1, hasModRM_of_usesModRM h.2⟩
  obtain ⟨modRM, hsome, hmodRM₂, hmread⟩ := fetchModRM_ok hnone hs₁' hm
  refine ⟨d, List.mem_of_getElem? hd, rfl, prefixes, modRM, hprefixes, ?_, hsome, hmodRM₂, ?_⟩
  · rw [hopcode, hbytes]
    simp [hfirst]
  · rw [hopcode, hbytes]
    refine Cursor.reads_append.mpr ⟨s₃.cursor, ?_, hmread⟩
    rw [List.append_cons]
    exact Cursor.reads_append.mpr ⟨s₂.cursor, hread, hopread⟩

end Decode
end X86
