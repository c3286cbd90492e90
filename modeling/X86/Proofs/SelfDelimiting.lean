import X86.Proofs.Entry

/-!
Decoding is self-delimiting. The bytes that a decode reads settle its outcome: what follows them does
not matter, and if they are cut short the outcome is `Fault.truncated`.
-/

namespace X86

namespace Cursor

theorem reads_ofArray {bytes : Array UInt8} {start position : Nat} {bs : List UInt8} {c : Cursor} :
    (Cursor.mk (.ofArray bytes) start position).Reads bs c ↔
      bs <+: bytes.toList.drop position ∧ c = ⟨.ofArray bytes, start, position + bs.length⟩ := by
  induction bs generalizing position with
  | nil => simp
  | cons b bs ih =>
    simp only [reads_cons, advance, ih, Source.get?_ofArray, ← Array.getElem?_toList,
      List.length_cons]
    rw [Nat.add_right_comm, Nat.add_assoc, ← and_assoc]
    refine and_congr_left fun _ => ?_
    by_cases h : position < bytes.toList.length
    · rw [List.getElem?_eq_getElem h, List.drop_eq_getElem_cons h, List.cons_prefix_cons,
        Option.some.injEq, eq_comm]
    · rw [List.getElem?_eq_none (Nat.not_lt.mp h), List.drop_eq_nil_of_le (Nat.not_lt.mp h)]
      simp

end Cursor

namespace Decode

open Lookup (Table)

/-- The bytes `bs` at `offset` settle the decode there. -/
structure Settles (table : Table) (t : Target) (pc : UInt64) (source : Source) (offset : Nat)
    (bs : List UInt8) : Prop where
  reads : (Cursor.ofStart source offset).Reads bs (run table t source offset pc).2
  ends : (run table t source offset pc).1.error = some .truncated →
    (run table t source offset pc).2.AtEnd
  replays : ∀ {source' : Source} {offset' : Nat} {d : Cursor},
    (Cursor.ofStart source' offset').Reads bs d →
    ((run table t source offset pc).1.error = some .truncated → d.AtEnd) →
    run table t source' offset' pc = ((run table t source offset pc).1, d)
  cuts : ∀ {source' : Source} {offset' : Nat} {d : Cursor} {u v : List UInt8}, bs = u ++ v → v ≠ [] →
    (Cursor.ofStart source' offset').Reads u d → d.AtEnd →
    ∃ s : State, s.cursor = d ∧ run table t source' offset' pc = (failure t pc .truncated s, d)

section Run

variable {table : Table} {t : Target} {pc : UInt64} {source : Source} {offset : Nat}

theorem instruction_of_run (h : (run table t source offset pc).1.error = none) :
    ∃ i s, instruction table t pc { cursor := .ofStart source offset } = .ok i s ∧
      run table t source offset pc = (i, s.cursor) := by
  cases hi : instruction table t pc { cursor := .ofStart source offset } with
  | ok i s => exact ⟨i, s, rfl, run_of_ok hi⟩
  | error fault s =>
    rw [run_of_error hi] at h
    cases h

theorem instruction_ok_fields {s s' : State} {i : Instruction}
    (h : instruction table t pc s = .ok i s') :
    i.error = none ∧ i.offset = pc ∧ i.length = s'.cursor.consumed ∧ i.bytes = none := by
  obtain ⟨e, s₁, _, hc, _⟩ := instruction_ok.mp h
  obtain ⟨_, s₂, ops, _, _, rfl⟩ := complete_ok.mp hc
  simp

/-- Whether the scan leads to an instruction of allowed length of which `P` holds. -/
def delivers (t : Target) (source : Source) (offset : Nat) (pc : UInt64) (keep : Bool)
    (P : Instruction → Prop) [DecidablePred P] : Bool :=
  match scanned? t pc { cursor := .ofStart source offset } with
  | some (i, s) =>
    s.cursor.consumed ≤ maxLength && P (if keep then i.keeping s.cursor.consumedBytes else i)
  | none => false

/-- A decode can be evaluated without the table. -/
theorem decodeAt_of_delivers {keep : Bool} {P : Instruction → Prop} [DecidablePred P]
    (h : delivers t source offset pc keep P = true) : P (decodeAt t source offset pc keep) := by
  unfold delivers at h
  cases hscanned : scanned? t pc { cursor := .ofStart source offset } with
  | none =>
    rw [hscanned] at h
    cases h
  | some x =>
    obtain ⟨i, s⟩ := x
    rw [hscanned] at h
    simp only [Bool.and_eq_true, decide_eq_true_eq] at h
    have hi := instruction_of_scanned? rfl hscanned
    rw [if_neg (Nat.not_lt.mpr h.1)] at hi
    cases keep with
    | true =>
      rw [decodeAt_keep, run_of_ok hi]
      exact h.2
    | false =>
      rw [decodeAt_drop, run_of_ok hi]
      exact h.2

theorem decodeAt_error_of_heading? (keep : Bool)
    (h : heading? t { cursor := .ofStart source offset } = none) :
    (decodeAt t source offset pc keep).error ≠ none := by
  intro herror
  obtain ⟨i, s, hi, -⟩ := instruction_of_run ((decodeAt_error ..).symm.trans herror)
  obtain ⟨first, s₁, n, d, m, s₂, hheading, -⟩ := (instruction_iff_heading rfl).mp hi
  rw [hheading.heading?_eq] at h
  cases h

/-- Every decode is settled by the bytes it reads. -/
theorem exists_settles (table : Table) (t : Target) (pc : UInt64) (source : Source) (offset : Nat) :
    ∃ bs, Settles table t pc source offset bs := by
  have habreast (source' : Source) (offset' : Nat) :
      (Cursor.ofStart source offset).Abreast (.ofStart source' offset') := ⟨0, rfl, rfl⟩
  obtain ⟨bs, h⟩ := Streams.instruction table t pc { cursor := .ofStart source offset }
  have hcuts : ∀ {source' : Source} {offset' : Nat} {d : Cursor} {u v : List UInt8},
      bs = u ++ v → v ≠ [] → (Cursor.ofStart source' offset').Reads u d → d.AtEnd →
      ∃ s : State, s.cursor = d ∧ run table t source' offset' pc = (failure t pc .truncated s, d) := by
    intro source' offset' d u v he hv hr hend
    obtain ⟨s, hs, rfl⟩ := h.cuts he hv (habreast source' offset') hr hend
    exact ⟨s, rfl, run_of_error hs⟩
  refine ⟨bs, ?_⟩
  cases hr : instruction table t pc { cursor := .ofStart source offset } with
  | ok i s =>
    have hreads := h.reads
    rw [hr, stop_ok] at hreads
    obtain ⟨herr, -⟩ := instruction_ok_fields hr
    refine ⟨?_, ?_, ?_, hcuts⟩
    · rw [run_of_ok hr]
      exact hreads
    · simp [run_of_ok hr, herr]
    · intro source' offset' d hd _
      have hm := h.replays (habreast source' offset') hd (by simp [hr])
      rw [hr] at hm
      rw [run_of_ok hm, run_of_ok hr]
      rfl
  | error e s =>
    have hreads := h.reads
    have hends := h.ends
    rw [hr, stop_error] at hreads hends
    refine ⟨?_, ?_, ?_, hcuts⟩
    · rw [run_of_error hr]
      exact hreads
    · rw [run_of_error hr]
      intro he
      exact hends (cut_error.mpr (Option.some.inj he))
    · intro source' offset' d hd hend
      rw [run_of_error hr] at hend ⊢
      have hm := h.replays (habreast source' offset') hd fun hcut => by
        rw [hr] at hcut
        exact hend (congrArg some (cut_error.mp hcut))
      rw [hr] at hm
      rw [run_of_error hm]
      simp [failure, hreads.consumed_eq, hd.consumed_eq]

theorem run_empty (table : Table) (t : Target) (pc : UInt64) :
    (run table t (.ofArray #[]) 0 pc).1.error = some .truncated := rfl

variable {bs : List UInt8}

theorem Settles.error_of_nil (h : Settles table t pc source offset []) :
    (run table t source offset pc).1.error = some .truncated := by
  have hr : run table t (.ofArray #[]) 0 pc = _ :=
    h.replays (d := .ofStart (.ofArray #[]) 0) rfl fun _ => rfl
  have he := run_empty table t pc
  rwa [hr] at he

theorem Settles.length_eq (h : Settles table t pc source offset bs) :
    (run table t source offset pc).1.length = max bs.length 1 := by
  have hconsumed := h.reads.consumed_eq
  cases hr : instruction table t pc { cursor := .ofStart source offset } with
  | ok i s =>
    obtain ⟨herr, -, hlen, -⟩ := instruction_ok_fields hr
    rw [run_of_ok hr] at hconsumed ⊢
    have hne : bs ≠ [] := by
      rintro rfl
      have := h.error_of_nil
      rw [run_of_ok hr, herr] at this
      cases this
    have hpos : 0 < bs.length := List.length_pos_iff.mpr hne
    change i.length = _
    rw [hlen, hconsumed]
    omega
  | error e s =>
    rw [run_of_error hr] at hconsumed ⊢
    change max s.cursor.consumed 1 = _
    rw [hconsumed]

end Run

theorem exists_decode_settles (t : Target) (bytes : Array UInt8) (pc : UInt64) :
    ∃ bs, Settles instructionTable t pc (.ofArray bytes) 0 bs ∧ bs <+: bytes.toList ∧
      decode t bytes pc = (run instructionTable t (.ofArray bytes) 0 pc).1.keeping bs := by
  obtain ⟨bs, h⟩ := exists_settles instructionTable t pc (.ofArray bytes) 0
  refine ⟨bs, h, (Cursor.reads_ofArray.mp h.reads).1, ?_⟩
  rw [decode, decodeAt_keep, h.reads.consumedBytes_eq]

theorem reads_beginning {bytes : Array UInt8} {bs : List UInt8} (h : bs <+: bytes.toList) :
    (Cursor.ofStart (.ofArray bytes) 0).Reads bs ⟨.ofArray bytes, 0, bs.length⟩ :=
  Cursor.reads_ofArray.mpr ⟨h, by rw [Nat.zero_add]⟩

/-- An array that starts with the bytes a decode reads is decoded alike, unless the decode met the end
of its source. -/
theorem decode_congr {t : Target} {source : Source} {offset : Nat} {bytes : Array UInt8} {pc : UInt64}
    {bs : List UInt8} (h : Settles instructionTable t pc source offset bs) (hbs : bs <+: bytes.toList)
    (hcut : (run instructionTable t source offset pc).1.error ≠ some .truncated) :
    decode t bytes pc = (run instructionTable t source offset pc).1.keeping bs := by
  have hr := h.replays (reads_beginning hbs) fun he => absurd he hcut
  rw [decode, decodeAt_keep, hr, (reads_beginning hbs).consumedBytes_eq]

/-- An array that ends within the bytes a decode reads is decoded up to its end. -/
theorem decode_cut {t : Target} {source : Source} {bytes : Array UInt8} {pc : UInt64}
    {u v : List UInt8} (h : Settles instructionTable t pc source 0 (u ++ v)) (hv : v ≠ [])
    (hu : bytes.toList = u) :
    (decode t bytes pc).error = some .truncated ∧ (decode t bytes pc).length = max u.length 1 ∧
      (decode t bytes pc).bytes = some u := by
  have hreads : (Cursor.ofStart (.ofArray bytes) 0).Reads u ⟨.ofArray bytes, 0, u.length⟩ :=
    reads_beginning (hu ▸ List.prefix_rfl)
  have hend : (Cursor.mk (.ofArray bytes) 0 u.length).AtEnd := by
    rw [Cursor.atEnd_iff, ← hu, Array.length_toList]
    exact Nat.le_refl _
  obtain ⟨s, hs, hr⟩ := h.cuts rfl hv hreads hend
  rw [decode, decodeAt_keep, hr, hreads.consumedBytes_eq]
  refine ⟨rfl, ?_, rfl⟩
  change max s.cursor.consumed 1 = _
  rw [hs, hreads.consumed_eq]

end Decode

open Decode

theorem toList_take (b : Array UInt8) (k : Nat) : (b.take k).toList = b.toList.take k := by
  simp

theorem decode_append {t : Target} {b : Array UInt8} {pc : UInt64}
    (h : (decode t b pc).error ≠ some .truncated) (s : Array UInt8) :
    decode t (b ++ s) pc = decode t b pc := by
  obtain ⟨bs, hset, hbs, heq⟩ := exists_decode_settles t b pc
  rw [heq] at h ⊢
  refine decode_congr hset (hbs.trans ?_) h
  rw [Array.toList_append]
  exact List.prefix_append _ _

theorem decode_take_length {t : Target} {b : Array UInt8} {pc : UInt64}
    (h : (decode t b pc).error = none) :
    decode t (b.take (decode t b pc).length) pc = decode t b pc := by
  obtain ⟨bs, hset, hbs, heq⟩ := exists_decode_settles t b pc
  rw [heq, Instruction.keeping_error] at h
  rw [heq, Instruction.keeping_length, hset.length_eq]
  refine decode_congr hset ?_ (by simp [h])
  rw [toList_take]
  exact List.prefix_take_iff.mpr ⟨hbs, Nat.le_max_left _ _⟩

theorem decode_take_of_lt {t : Target} {b : Array UInt8} {pc : UInt64}
    (h : (decode t b pc).error = none) {k : Nat} (hk : k < (decode t b pc).length) :
    (decode t (b.take k) pc).error = some .truncated ∧
      (decode t (b.take k) pc).length = max k 1 ∧
      (decode t (b.take k) pc).bytes = some (b.toList.take k) := by
  obtain ⟨bs, hset, ⟨rest, hrest⟩, heq⟩ := exists_decode_settles t b pc
  rw [heq, Instruction.keeping_error] at h
  rw [heq, Instruction.keeping_length, hset.length_eq] at hk
  have hne : bs ≠ [] := by
    rintro rfl
    have he := hset.error_of_nil
    rw [h] at he
    cases he
  have hpos : 0 < bs.length := List.length_pos_iff.mpr hne
  have hkl : k < bs.length := by omega
  have htake : b.toList.take k = bs.take k := by
    rw [← hrest, List.take_append_of_le_length (Nat.le_of_lt hkl)]
  have hdrop : bs.drop k ≠ [] := by simp [hkl]
  have hcut := decode_cut ((List.take_append_drop k bs).symm ▸ hset) hdrop
    (show (b.take k).toList = bs.take k by rw [toList_take, htake])
  rwa [List.length_take, Nat.min_eq_left (Nat.le_of_lt hkl), ← htake] at hcut

/-- A byte string that is exactly one instruction. -/
def IsEncoding (t : Target) (pc : UInt64) (bytes : Array UInt8) : Prop :=
  (decode t bytes pc).error = none ∧ (decode t bytes pc).length = bytes.size

theorem IsEncoding.eq_of_beginning {t : Target} {pc : UInt64} {b b' : Array UInt8}
    (h : IsEncoding t pc b) (h' : IsEncoding t pc b') (hp : b.toList <+: b'.toList) : b = b' := by
  have hle : b.size ≤ b'.size := hp.length_le
  have htake : b'.take b.size = b := by
    apply Array.toList_inj.mp
    rw [toList_take]
    exact (List.prefix_iff_eq_take.mp hp).symm
  obtain hlt | heq := Nat.lt_or_eq_of_le hle
  · have hcut := (decode_take_of_lt h'.1 (h'.2.symm ▸ hlt)).1
    rw [htake, h.1] at hcut
    cases hcut
  · rw [← htake, heq]
    simp

/-- In 32-bit mode, a locked addition of a constant to memory. Its encoding has every part that an
encoding can have. -/
def lockedAdd : Array UInt8 :=
  #[0xF0, 0x81, 0x84, 0x88, 0x78, 0x56, 0x34, 0x12, 0xEF, 0xBE, 0xAD, 0xDE]

theorem decode_lockedAdd :
    (decode ⟨.bits32, .any⟩ lockedAdd 0).error = none ∧
      (decode ⟨.bits32, .any⟩ lockedAdd 0).length = 12 :=
  decodeAt_of_delivers (P := fun i => i.error = none ∧ i.length = 12) (by decide +kernel)

/-- A decode that did not meet the end of its bytes does not depend on what follows them. A decoded
instruction needs exactly its own bytes, and any shorter beginning of them is reported as
truncated. Hence no encoding is the beginning of another one. -/
theorem decode_self_delimiting (t : Target) (b : Array UInt8) (pc : UInt64) :
    ((decode t b pc).error ≠ some .truncated → ∀ s, decode t (b ++ s) pc = decode t b pc) ∧
    ((decode t b pc).error = none →
      decode t (b.take (decode t b pc).length) pc = decode t b pc ∧
      ∀ k < (decode t b pc).length,
        (decode t (b.take k) pc).error = some .truncated ∧
        (decode t (b.take k) pc).length = max k 1 ∧
        (decode t (b.take k) pc).bytes = some (b.toList.take k)) ∧
    (IsEncoding t pc b → ∀ b', IsEncoding t pc b' → b.toList <+: b'.toList → b = b') := by
  refine ⟨decode_append, fun h => ⟨decode_take_length h, fun k hk => decode_take_of_lt h hk⟩, ?_⟩
  intro h b' h' hp
  exact h.eq_of_beginning h' hp

theorem decode_self_delimiting_lockedAdd :
    (decode ⟨.bits32, .any⟩ lockedAdd 0).error = none ∧ IsEncoding ⟨.bits32, .any⟩ 0 lockedAdd ∧
    (∀ s, decode ⟨.bits32, .any⟩ (lockedAdd ++ s) 0 = decode ⟨.bits32, .any⟩ lockedAdd 0) ∧
    (∀ k < 12, (decode ⟨.bits32, .any⟩ (lockedAdd.take k) 0).error = some .truncated ∧
      (decode ⟨.bits32, .any⟩ (lockedAdd.take k) 0).length = max k 1 ∧
      (decode ⟨.bits32, .any⟩ (lockedAdd.take k) 0).bytes = some (lockedAdd.toList.take k)) ∧
    ∀ b', IsEncoding ⟨.bits32, .any⟩ 0 b' → lockedAdd.toList <+: b'.toList → lockedAdd = b' := by
  obtain ⟨herror, hlength⟩ := decode_lockedAdd
  have hencoding : IsEncoding ⟨.bits32, .any⟩ 0 lockedAdd := ⟨herror, hlength⟩
  obtain ⟨happend, htake, hunique⟩ := decode_self_delimiting ⟨.bits32, .any⟩ lockedAdd 0
  refine ⟨herror, hencoding, happend (by simp [herror]), ?_, hunique hencoding⟩
  intro k hk
  exact (htake herror).2 k (hlength ▸ hk)

end X86
