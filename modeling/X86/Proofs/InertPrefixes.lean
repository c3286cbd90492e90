import X86.Proofs.Substitution
import X86.Proofs.Windows

/-!
Prefixes without effect. A lock or a segment override shows in nothing but the flag word, and so does
an address-size override that the entry does not use: an instruction is decoded alike with such a
prefix in front of it and without.
-/

namespace X86

open Lookup

/-- Whether a byte is a prefix other than REX and the repeat prefixes. -/
def isPlainPrefix (x : UInt8) : Bool :=
  [0x26, 0x2E, 0x36, 0x3E, 0x64, 0x65, 0x66, 0x67, 0xF0].contains x

section PlainPrefix

variable {x : UInt8} (hx : isPlainPrefix x = true)

include hx

theorem isPrefixByte_of_isPlainPrefix (mode : Mode) : isPrefixByte mode x = true := by
  have hmem : x ∈ [0x26, 0x2E, 0x36, 0x3E, 0x64, 0x65, 0x66, 0x67, 0xF0, 0xF2, 0xF3] := by
    simp only [isPlainPrefix, List.contains_iff_mem, List.mem_cons] at hx ⊢
    tauto
  rw [isPrefixByte, List.contains_iff_mem.mpr hmem, Bool.true_or]

theorem isRexByte_of_isPlainPrefix (mode : Mode) : isRexByte mode x = false := by
  rw [← Bool.not_eq_true]
  intro hrex
  obtain ⟨h66, h67, hF0, hsegment, -⟩ := isRexByte_legacy hrex
  have hnone := Segment.ofOverride?_isSome x
  rw [hsegment] at hnone
  simp_all [isPlainPrefix]

theorem repeat_of_isPlainPrefix : Repeat.ofByte? x = none := by
  unfold Repeat.ofByte?
  split
  · cases hx
  · cases hx
  · rfl

/-- In front of other prefixes, a plain prefix counts if there is no other one of its group. -/
theorem PrefixState.ofBytes_cons (mode : Mode) (bs : List UInt8) :
    ofBytes mode (x :: bs) = { ofBytes mode bs with
      operandSize := 0x66 == x || (ofBytes mode bs).operandSize
      addressSize := 0x67 == x || (ofBytes mode bs).addressSize
      lock := 0xF0 == x || (ofBytes mode bs).lock
      segment := (ofBytes mode bs).segment.or (Segment.ofOverride? x) } := by
  have hsegment : ((x :: bs).filterMap Segment.ofOverride?).getLast? =
      ((bs.filterMap Segment.ofOverride?).getLast?).or (Segment.ofOverride? x) := by
    cases hg : Segment.ofOverride? x with
    | none => rw [List.filterMap_cons_none hg, Option.or_none]
    | some g =>
      rw [List.filterMap_cons_some hg, List.getLast?_cons]
      cases (bs.filterMap Segment.ofOverride?).getLast? <;> rfl
  have hrepeat : ((x :: bs).filterMap Repeat.ofByte?) = bs.filterMap Repeat.ofByte? :=
    List.filterMap_cons_none (repeat_of_isPlainPrefix hx)
  have hrex : (x :: bs).getLast?.filter (isRexByte mode) = bs.getLast?.filter (isRexByte mode) := by
    cases bs with
    | nil =>
      rw [List.getLast?_singleton, Option.filter_some, isRexByte_of_isPlainPrefix hx]
      rfl
    | cons b bs => rw [List.getLast?_cons_cons]
  simp only [ofBytes, List.contains_cons, hsegment, hrepeat, hrex]

end PlainPrefix

theorem PrefixState.ofBytes_cons_operandSize {x : UInt8} (hx : isPlainPrefix x = true)
    (h66 : x ≠ 0x66) (mode : Mode) (bs : List UInt8) :
    (ofBytes mode (x :: bs)).operandSize = (ofBytes mode bs).operandSize := by
  rw [ofBytes_cons hx, beq_false_of_ne h66.symm, Bool.false_or]

/-- Whether of two prefix bytes only the last one counts. -/
def samePrefixGroup (x y : UInt8) : Bool :=
  x == y || (Segment.ofOverride? x).isSome && (Segment.ofOverride? y).isSome ||
    (Repeat.ofByte? x).isSome && (Repeat.ofByte? y).isSome

namespace PrefixFlag

def ofByte (x : UInt8) : UInt32 :=
  if x = 0x66 then operandSize
  else if x = 0x67 then addressSize
  else if x = 0xF0 then lock
  else (Segment.ofOverride? x).elim 0 Segment.flag

def wordOf (p : PrefixState) (r : UInt32) : UInt32 :=
  word p.operandSize p.addressSize p.lock (p.segment.elim 0 Segment.flag) r

end PrefixFlag

theorem any_samePrefixGroup {x : UInt8} (hs : Segment.ofOverride? x = none)
    (hr : Repeat.ofByte? x = none) (bs : List UInt8) :
    bs.any (samePrefixGroup x) = bs.contains x := by
  have hgroup : samePrefixGroup x = (x == ·) := by
    funext y
    simp [samePrefixGroup, hs, hr]
  rw [hgroup, List.contains_eq_any_beq]

theorem any_samePrefixGroup_segment {x : UInt8} (hs : (Segment.ofOverride? x).isSome = true)
    (hr : Repeat.ofByte? x = none) (bs : List UInt8) :
    bs.any (samePrefixGroup x) = ((bs.filterMap Segment.ofOverride?).getLast?).isSome := by
  have hgroup : samePrefixGroup x = fun y => (Segment.ofOverride? y).isSome := by
    funext y
    cases hy : Segment.ofOverride? y with
    | some g => simp [samePrefixGroup, hs, hy]
    | none =>
      have hne : x ≠ y := by
        rintro rfl
        simp [hy] at hs
      simp [samePrefixGroup, hr, hy, hne]
  rw [hgroup, Bool.eq_iff_iff, List.getLast?_isSome]
  simp [List.filterMap_eq_nil_iff, Option.isSome_iff_ne_none]

namespace PrefixFlag

variable (o a l : Bool) (g r : UInt32)

theorem word_addressSize : word o true l g r = word o false l g r ||| addressSize := by
  simp only [word, ↓reduceIte, Bool.false_eq_true, UInt32.or_zero]
  ac_rfl

theorem word_lock : word o a true g r = word o a false g r ||| lock := by
  simp only [word, ↓reduceIte, Bool.false_eq_true, UInt32.or_zero]
  ac_rfl

theorem word_segment : word o a l g r = word o a l 0 r ||| g := by
  simp only [word, UInt32.or_zero]
  ac_rfl

theorem wordOf_cons {x : UInt8} (hx : isPlainPrefix x = true) (h66 : x ≠ 0x66) (mode : Mode)
    (bs : List UInt8) (c : Fin 4) :
    wordOf ((PrefixState.ofBytes mode (x :: bs)).without c) r =
      if bs.any (samePrefixGroup x) then wordOf ((PrefixState.ofBytes mode bs).without c) r
      else wordOf ((PrefixState.ofBytes mode bs).without c) r ||| ofByte x := by
  have hsize : ((PrefixState.ofBytes mode (x :: bs)).without c).operandSize =
      ((PrefixState.ofBytes mode bs).without c).operandSize := by
    rw [PrefixState.without_operandSize, PrefixState.without_operandSize,
      PrefixState.ofBytes_cons_operandSize hx h66]
  rw [wordOf, wordOf, hsize]
  simp only [PrefixState.without_addressSize, PrefixState.without_lock, PrefixState.without_segment,
    PrefixState.ofBytes_cons hx, ofByte, if_neg h66]
  by_cases h67 : x = 0x67
  · have hnone : Segment.ofOverride? x = none := by rw [h67]; rfl
    have hfollows : bs.any (samePrefixGroup x) = (PrefixState.ofBytes mode bs).addressSize := by
      rw [any_samePrefixGroup hnone (by rw [h67]; rfl), h67]
      rfl
    rw [hfollows, if_pos h67, hnone, Option.or_none, h67]
    cases (PrefixState.ofBytes mode bs).addressSize with
    | true => rfl
    | false => exact word_addressSize ..
  by_cases hF0 : x = 0xF0
  · have hnone : Segment.ofOverride? x = none := by rw [hF0]; rfl
    have hfollows : bs.any (samePrefixGroup x) = (PrefixState.ofBytes mode bs).lock := by
      rw [any_samePrefixGroup hnone (by rw [hF0]; rfl), hF0]
      rfl
    rw [hfollows, if_neg h67, if_pos hF0, hnone, Option.or_none, hF0]
    cases (PrefixState.ofBytes mode bs).lock with
    | true => rfl
    | false => exact word_lock ..
  · have hsome : (Segment.ofOverride? x).isSome = true := by
      rw [Segment.ofOverride?_isSome]
      simpa [isPlainPrefix, h66, h67, hF0] using hx
    have hfollows : bs.any (samePrefixGroup x) = (PrefixState.ofBytes mode bs).segment.isSome :=
      any_samePrefixGroup_segment hsome (repeat_of_isPlainPrefix hx) bs
    rw [hfollows, if_neg h67, if_neg hF0, beq_false_of_ne (Ne.symm h67),
      beq_false_of_ne (Ne.symm hF0), Bool.false_or, Bool.false_or]
    cases (PrefixState.ofBytes mode bs).segment with
    | some g => rfl
    | none => exact word_segment ..

end PrefixFlag

theorem PrefixState.serves_cons {x : UInt8} (hx : isPlainPrefix x = true) (h66 : x ≠ 0x66)
    {d : Definition} (h67 : x = 0x67 → d.followsAddressSize = false) (mode : Mode)
    (bs : List UInt8) :
    (ofBytes mode (x :: bs)).Serves (ofBytes mode bs) d ∧
      (ofBytes mode bs).Serves (ofBytes mode (x :: bs)) d := by
  have hsize := ofBytes_cons_operandSize hx h66 mode bs
  have haddress : (ofBytes mode (x :: bs)).addressSize = (ofBytes mode bs).addressSize ∨
      d.followsAddressSize = false := by
    by_cases h : x = 0x67
    · exact Or.inr (h67 h)
    · rw [ofBytes_cons hx, beq_false_of_ne (Ne.symm h), Bool.false_or]
      exact Or.inl rfl
  rw [ofBytes_cons hx] at hsize haddress ⊢
  exact ⟨⟨rfl, rfl, .inl hsize, haddress⟩,
    ⟨rfl, rfl, .inl hsize.symm, haddress.imp_left Eq.symm⟩⟩

/-- Instruction `i'` is `i` with the prefix `x` in front, where `i` itself has the prefixes `bs`. The
prefix shows in its own bit of the flag word, unless one of its group follows it, and 67 in the
address size. -/
structure Instruction.PrefixedBy (x : UInt8) (bs : List UInt8) (i i' : Instruction) : Prop where
  mnemonic : i'.mnemonic = i.mnemonic
  opcode : i'.opcode = i.opcode
  operands : i'.operands = i.operands
  operandSize : i'.operandSize = i.operandSize
  addressSize : x ≠ 0x67 → i'.addressSize = i.addressSize
  flags : i'.flags = i.flags
  rex : i'.prefixes.rex = i.prefixes.rex
  isFar : i'.isFar = i.isFar
  isNear : i'.isNear = i.isNear
  length : i'.length = i.length + 1
  prefixes : i'.prefixes.flags =
    if bs.any (samePrefixGroup x) then i.prefixes.flags
    else i.prefixes.flags ||| PrefixFlag.ofByte x

theorem Instruction.PrefixedBy.keeping {x : UInt8} {bs : List UInt8} {i i' : Instruction}
    (h : PrefixedBy x bs i i') (kept kept' : List UInt8) :
    PrefixedBy x bs (i.keeping kept) (i'.keeping kept') :=
  ⟨h.mnemonic, h.opcode, h.operands, h.operandSize, h.addressSize, h.flags, h.rex, h.isFar, h.isNear,
    h.length, h.prefixes⟩

namespace Decode

open PrefixState (ofBytes)

section Assemble

variable (t : Target) (pc : UInt64) (e : Entry) (s : State) (ops : Vector Operand 4) (n : Nat)

theorem assemble_isFar : (assemble t pc e s ops n).isFar = e.flags.isFar := by
  unfold assemble foldPause foldNop
  split <;> split <;> rfl

theorem assemble_isNear : (assemble t pc e s ops n).isNear = e.flags.isNear := by
  unfold assemble foldPause foldNop
  split <;> split <;> rfl

theorem assemble_operands_eq : (assemble t pc e s ops n).operands =
    if isIdleExchange e.mnemonic s.opcode ops then noOperands
    else ops.map (settleTarget (pc + UInt64.ofNat n)) := by
  rw [← isIdleExchange_settle e.mnemonic s.opcode ops (pc + UInt64.ofNat n)]
  unfold assemble foldPause foldNop
  split <;> split <;> rfl

theorem assemble_mnemonic_eq : (assemble t pc e s ops n).mnemonic =
    let m := if isIdleExchange e.mnemonic s.opcode ops then .NOP else e.mnemonic
    if m = .NOP ∧ (reportedPrefixes e.flags s.prefixes).repe then .PAUSE else m := by
  rw [← isIdleExchange_settle e.mnemonic s.opcode ops (pc + UInt64.ofNat n)]
  unfold assemble foldPause foldNop
  dsimp only
  split
  · split <;> rfl
  · split <;> rfl

end Assemble

theorem finish_succ (pc : UInt64) (n : Nat) :
    pc + 1 + UInt64.ofNat n = pc + UInt64.ofNat (n + 1) := by
  rw [UInt64.ofNat_add, UInt64.add_assoc, UInt64.add_comm 1]
  rfl

theorem prefixedBy_assemble {t : Target} {d : Definition} {s s' : State} {x : UInt8} {bs : List UInt8}
    {c : Fin 4} (hd : d ∈ definitions) (hx : isPlainPrefix x = true) (h66 : x ≠ 0x66)
    (hopcode : s'.opcode = s.opcode) (hs : s.prefixes = (ofBytes t.mode bs).without c)
    (hs' : s'.prefixes = (ofBytes t.mode (x :: bs)).without c) (pc : UInt64) (ops : Vector Operand 4)
    (n : Nat) :
    Instruction.PrefixedBy x bs (assemble t (pc + 1) d.entry s ops n)
      (assemble t pc d.entry s' ops (n + 1)) := by
  have hrex : s'.prefixes.rex = s.prefixes.rex := by
    rw [hs, hs', PrefixState.without_rex, PrefixState.without_rex, PrefixState.ofBytes_cons hx]
  have hrepeated : s'.prefixes.repeated = s.prefixes.repeated := by
    rw [hs, hs', PrefixState.without_repeated, PrefixState.without_repeated,
      PrefixState.ofBytes_cons hx]
  have hsize : s'.prefixes.operandSize = s.prefixes.operandSize := by
    rw [hs, hs', PrefixState.without_operandSize, PrefixState.without_operandSize,
      PrefixState.ofBytes_cons_operandSize hx h66]
  have hmnemonic : (assemble t pc d.entry s' ops (n + 1)).mnemonic =
      (assemble t (pc + 1) d.entry s ops n).mnemonic := by
    rw [assemble_mnemonic_eq, assemble_mnemonic_eq, reportedPrefixes_repe, reportedPrefixes_repe,
      hopcode, hrepeated]
  obtain ⟨hprefixes, -⟩ := assemble_prefixes t (pc + 1) s ops n (mnemonic_ne_pause hd)
  obtain ⟨hprefixes', -⟩ := assemble_prefixes t pc s' ops (n + 1) (mnemonic_ne_pause hd)
  refine {
    mnemonic := hmnemonic
    opcode := ?_
    operands := ?_
    operandSize := ?_
    addressSize := ?_
    flags := ?_
    rex := ?_
    isFar := ?_
    isNear := ?_
    length := ?_
    prefixes := ?_ }
  · rw [assemble_opcode, assemble_opcode, hopcode]
  · rw [assemble_operands_eq, assemble_operands_eq, hopcode, finish_succ]
  · rw [assemble_operandSize, assemble_operandSize]
    simp only [frameOf, operandSizeOf, hrex, hsize]
  · intro h67
    rw [assemble_addressSize, assemble_addressSize]
    simp only [frameOf, hs, hs', PrefixState.without_addressSize, PrefixState.ofBytes_cons hx,
      beq_false_of_ne h67.symm, Bool.false_or]
  · rw [assemble_flags, assemble_flags]
  · rw [hprefixes, hprefixes']
    exact hrex
  · rw [assemble_isFar, assemble_isFar]
  · rw [assemble_isNear, assemble_isNear]
  · rw [assemble_length, assemble_length]
  · rw [hprefixes, hprefixes', hmnemonic, hrepeated, hs, hs']
    exact PrefixFlag.wordOf_cons _ hx h66 t.mode bs c

end Decode

theorem Source.slice_cons {source : Source} {o : Nat} {x : UInt8} (h : source.get? o = some x) :
    source.slice o source.length = x :: source.slice (o + 1) source.length := by
  have hreads : (Cursor.ofStart source o).Reads [x] (Cursor.ofStart source o).advance := ⟨h, rfl⟩
  exact hreads.rest_eq

namespace Decode

open PrefixState (ofBytes)

section Front

variable {t : Target} {source : Source} {o : Nat} {x : UInt8} (hx : source.get? o = some x)
  (hbyte : isPrefixByte t.mode x = true) {first : UInt8} {s₁ s₂ : State} {n : Nat} {d : Definition}
  {c : Fin 4} {bs : List UInt8}
  (hbs : (source.slice (o + 1) source.length).takeWhile (isPrefixByte t.mode) = bs)

include hx hbyte hbs

theorem takeWhile_front :
    (source.slice o source.length).takeWhile (isPrefixByte t.mode) = x :: bs := by
  rw [Source.slice_cons hx, List.takeWhile_cons_of_pos hbyte, hbs]

theorem Heading.scanPrefixes_tail
    (h : Heading t { cursor := .ofStart source o } first s₁ n d c s₂) :
    s₁.prefixes = ofBytes t.mode (x :: bs) ∧
      scanPrefixes t.mode maxLength { cursor := .ofStart source (o + 1) } =
        .ok first (s₁.recast (o + 1) (ofBytes t.mode bs)) := by
  obtain ⟨hs₁, -, hfirst, hlength, hreads⟩ := h.run_eq
  rw [takeWhile_front hx hbyte hbs] at hs₁ hlength hreads
  refine ⟨congrArg (·.prefixes) hs₁, (scanPrefixes_iff [] rfl).mpr ⟨bs, _, ?_, hfirst,
    Nat.lt_of_succ_lt hlength, hreads.2.restart (o + 1), ?_⟩⟩
  · rw [← hbs]
    exact List.all_takeWhile
  · rw [hs₁]
    rfl

theorem Heading.scanPrefixes_cons
    (h : Heading t { cursor := .ofStart source (o + 1) } first s₁ n d c s₂)
    (hroom : bs.length + 1 < maxLength) :
    s₁.prefixes = ofBytes t.mode bs ∧
      scanPrefixes t.mode maxLength { cursor := .ofStart source o } =
        .ok first (s₁.recast o (ofBytes t.mode (x :: bs))) := by
  obtain ⟨hs₁, -, hfirst, -, hreads⟩ := h.run_eq
  rw [hbs] at hs₁ hreads
  refine ⟨congrArg (·.prefixes) hs₁, (scanPrefixes_iff [] rfl).mpr ⟨x :: bs, _, ?_, hfirst, hroom,
    ⟨hx, hreads.restart o⟩, ?_⟩⟩
  · rw [List.all_cons, hbyte, Bool.true_and, ← hbs]
    exact List.all_takeWhile
  · rw [hs₁]
    rfl

end Front

section Inert

variable {t : Target} {source : Source} {o : Nat} {x : UInt8} (hx : source.get? o = some x)
  (hplain : isPlainPrefix x = true) (h66 : x ≠ 0x66) {pc : UInt64} {i : Instruction} {s' : State}
  {bs : List UInt8}
  (hbs : (source.slice (o + 1) source.length).takeWhile (isPrefixByte t.mode) = bs)

include hx hplain h66 hbs

/-- An instruction is decoded with a lock or an override in front that it does not follow. -/
theorem instruction_prefixed
    (hi : instruction instructionTable t (pc + 1) { cursor := .ofStart source (o + 1) } = .ok i s')
    (hlength : i.length < maxLength) (h67 : x = 0x67 → i.flags.usesAddressSize = false) :
    ∃ i' s'', instruction instructionTable t pc { cursor := .ofStart source o } = .ok i' s'' ∧
      i.PrefixedBy x bs i' := by
  obtain ⟨first, s₁, n, d, c, s₂, hheading, hcomplete, -⟩ := (instruction_iff_heading rfl).mp hi
  obtain ⟨hstart, hposition⟩ := hheading.extent hcomplete
  have hconsumed := (instruction_ok_fields hi).2.2.1
  rw [hbs] at hposition
  rw [hconsumed, Cursor.consumed] at hlength
  obtain ⟨hs₁, hscan⟩ := hheading.scanPrefixes_cons hx (isPrefixByte_of_isPlainPrefix hplain _) hbs
    (by omega)
  have hunused : x = 0x67 → d.followsAddressSize = false := by
    obtain ⟨-, _, ops, -, -, rfl⟩ := complete_ok.mp hcomplete
    rw [assemble_flags] at h67
    exact fun he => Definition.followsAddressSize_eq_false (h67 he)
  obtain ⟨hserves, -⟩ := PrefixState.serves_cons hplain h66 hunused t.mode bs
  have hsize := PrefixState.ofBytes_cons_operandSize hplain h66 t.mode bs
  rw [← hs₁] at hserves hsize
  obtain ⟨ops, rfl, hi'⟩ := hheading.decodes_alike hcomplete hscan hserves hsize (by omega) pc
  have hprefixes : (s₂.spend c).prefixes = (ofBytes t.mode bs).without c := by
    rw [State.spend_prefixes, (State.past?_eq_some hheading.past).2.1, hs₁]
  have hcount : s'.cursor.position - o = s'.cursor.position - s'.cursor.start + 1 := by omega
  rw [hcount] at hi'
  exact ⟨_, _, hi', prefixedBy_assemble hheading.mem hplain h66 (State.recast_opcode ..) hprefixes
    (State.recast_prefixes ..) pc ops _⟩

/-- A lock or an override that an instruction does not follow can be left out. -/
theorem instruction_unprefixed
    (hi : instruction instructionTable t pc { cursor := .ofStart source o } = .ok i s')
    (h67 : x = 0x67 → i.flags.usesAddressSize = false) :
    ∃ i' s'', instruction instructionTable t (pc + 1) { cursor := .ofStart source (o + 1) } =
      .ok i' s'' ∧ i'.PrefixedBy x bs i := by
  obtain ⟨first, s₁, n, d, c, s₂, hheading, hcomplete, hlength⟩ := (instruction_iff_heading rfl).mp hi
  have hbyte := isPrefixByte_of_isPlainPrefix hplain t.mode
  obtain ⟨hstart, hposition⟩ := hheading.extent hcomplete
  rw [takeWhile_front hx hbyte hbs, List.length_cons] at hposition
  rw [Cursor.consumed] at hlength
  obtain ⟨hs₁, hscan⟩ := hheading.scanPrefixes_tail hx hbyte hbs
  have hunused : x = 0x67 → d.followsAddressSize = false := by
    obtain ⟨-, _, ops, -, -, rfl⟩ := complete_ok.mp hcomplete
    rw [assemble_flags] at h67
    exact fun he => Definition.followsAddressSize_eq_false (h67 he)
  obtain ⟨-, hserves⟩ := PrefixState.serves_cons hplain h66 hunused t.mode bs
  have hsize := (PrefixState.ofBytes_cons_operandSize hplain h66 t.mode bs).symm
  rw [← hs₁] at hserves hsize
  obtain ⟨ops, rfl, hi'⟩ := hheading.decodes_alike hcomplete hscan hserves hsize (by omega) (pc + 1)
  have hprefixes : (s₂.spend c).prefixes = (ofBytes t.mode (x :: bs)).without c := by
    rw [State.spend_prefixes, (State.past?_eq_some hheading.past).2.1, hs₁]
  have hcount : s'.cursor.position - s'.cursor.start = s'.cursor.position - (o + 1) + 1 := by omega
  rw [hcount]
  exact ⟨_, _, hi', prefixedBy_assemble hheading.mem hplain h66 (State.recast_opcode ..).symm
    (State.recast_prefixes ..) hprefixes pc ops _⟩

end Inert

end Decode

theorem Source.window_ofArray_append (a b : Array UInt8) :
    (ofArray (a ++ b)).window a.size = ofArray b := by
  have hext {s s' : Source} (hlength : s.length = s'.length) (hget : ∀ i, s.get? i = s'.get? i) :
      s = s' := by
    obtain ⟨n, f⟩ := s
    obtain ⟨n', f'⟩ := s'
    obtain rfl : n = n' := hlength
    congr 1
    funext i
    simpa [get?, i.isLt] using hget i.val
  refine hext ?_ ?_
  · rw [length_window]
    simp [ofArray]
  · intro i
    rw [get?_window, get?_ofArray, get?_ofArray, Array.getElem?_append_right (Nat.le_add_right _ _),
      Nat.add_sub_cancel_left]

theorem decode_eq_decodeAt_append (t : Target) (a b : Array UInt8) (pc : UInt64) :
    decode t b pc = decodeAt t (.ofArray (a ++ b)) a.size pc true := by
  rw [decode, ← Source.window_ofArray_append a b, decodeAt_window, Nat.add_zero]

section Behind

variable (x : UInt8) (b : Array UInt8)

theorem get?_front : (Source.ofArray (#[x] ++ b)).get? 0 = some x := by
  rw [Source.get?_ofArray, ← Array.getElem?_toList, Array.toList_append]
  rfl

theorem slice_behind :
    (Source.ofArray (#[x] ++ b)).slice (0 + 1) (Source.ofArray (#[x] ++ b)).length = b.toList := by
  have hcons := slice_ofArray (#[x] ++ b)
  rw [Source.slice_cons (get?_front x b), Array.toList_append] at hcons
  exact (List.cons.inj hcons).2

theorem decode_behind (t : Target) (pc : UInt64) :
    decode t b pc = decodeAt t (.ofArray (#[x] ++ b)) (0 + 1) pc true :=
  decode_eq_decodeAt_append t #[x] b pc

end Behind

/-- Whether the instruction takes no notice of a prefix: of a lock and a segment override never, and
of an address-size override if its entry does not. -/
def Instruction.Ignores (i : Instruction) (x : UInt8) : Prop :=
  x = 0xF0 ∨ (Segment.ofOverride? x).isSome = true ∨ x = 0x67 ∧ i.flags.usesAddressSize = false

theorem Instruction.Ignores.isPlainPrefix {i : Instruction} {x : UInt8} (h : i.Ignores x) :
    isPlainPrefix x = true ∧ x ≠ 0x66 ∧ (x = 0x67 → i.flags.usesAddressSize = false) := by
  obtain rfl | hsegment | ⟨rfl, hflag⟩ := h
  · exact ⟨rfl, by decide, fun h => absurd h (by decide)⟩
  · rw [Segment.ofOverride?_isSome] at hsegment
    simp only [List.contains_iff_mem, List.mem_cons, List.not_mem_nil, or_false] at hsegment
    obtain rfl | rfl | rfl | rfl | rfl | rfl := hsegment <;>
      exact ⟨rfl, by decide, fun h => absurd h (by decide)⟩
  · exact ⟨rfl, by decide, fun _ => hflag⟩

/-- A prefix of which the instruction takes no notice has no effect. Put in front of an instruction
that leaves room for it, it gives the same one with its own bit set; and where it stands, it can be
left out. -/
theorem decode_prefix_inert (t : Target) (x : UInt8) (b : Array UInt8) (pc : UInt64) :
    let i := decode t b (pc + 1)
    let i' := decode t (#[x] ++ b) pc
    let bs := b.toList.takeWhile (isPrefixByte t.mode)
    (i.error = none → i.length ≤ 14 → i.Ignores x → i'.error = none ∧ i.PrefixedBy x bs i') ∧
      (i'.error = none → i'.Ignores x → i.error = none ∧ i.PrefixedBy x bs i') := by
  intro i i' bs
  have hx := get?_front x b
  have hbs : ((Source.ofArray (#[x] ++ b)).slice (0 + 1)
      (Source.ofArray (#[x] ++ b)).length).takeWhile (isPrefixByte t.mode) = bs := by
    rw [slice_behind]
  have hi : i = decodeAt t (.ofArray (#[x] ++ b)) (0 + 1) (pc + 1) true := decode_behind x b t (pc + 1)
  constructor
  · intro herror hlength hignores
    rw [hi, decodeAt_keep] at herror hlength hignores ⊢
    obtain ⟨j, s, hj, hrun⟩ := Decode.instruction_of_run herror
    rw [hrun] at hlength hignores ⊢
    obtain ⟨hplain, h66, h67⟩ := hignores.isPlainPrefix
    obtain ⟨j', s', hj', hprefixed⟩ := Decode.instruction_prefixed hx hplain h66 hbs hj
      (Nat.lt_succ_of_le hlength) h67
    have hi' : i' = j'.keeping s'.cursor.consumedBytes := by
      show decodeAt t _ 0 pc true = _
      rw [decodeAt_keep, Decode.run_of_ok hj']
    rw [hi']
    exact ⟨(Decode.instruction_ok_fields hj').1, hprefixed.keeping _ _⟩
  · intro herror hignores
    have hi' : i' = decodeAt t (.ofArray (#[x] ++ b)) 0 pc true := rfl
    rw [hi', decodeAt_keep] at herror hignores ⊢
    obtain ⟨j', s', hj', hrun⟩ := Decode.instruction_of_run herror
    rw [hrun] at hignores ⊢
    obtain ⟨hplain, h66, h67⟩ := hignores.isPlainPrefix
    obtain ⟨j, s, hj, hprefixed⟩ := Decode.instruction_unprefixed hx hplain h66 hbs hj' h67
    rw [hi, decodeAt_keep, Decode.run_of_ok hj]
    exact ⟨(Decode.instruction_ok_fields hj).1, hprefixed.keeping _ _⟩

def shortJump : Array UInt8 :=
  #[0xEB, 0x00]

theorem decode_shortJump :
    (decode ⟨.bits32, .any⟩ shortJump 0x10001).error = none ∧
      (decode ⟨.bits32, .any⟩ shortJump 0x10001).length = 2 ∧
      (decode ⟨.bits32, .any⟩ shortJump 0x10001).flags.usesAddressSize = false ∧
      (decode ⟨.bits32, .any⟩ shortJump 0x10001).operands.get 0 =
        .relative { displacement := 0, size := 32, target := 0x10003 } :=
  Decode.decodeAt_of_delivers
    (P := fun i => i.error = none ∧ i.length = 2 ∧ i.flags.usesAddressSize = false ∧
      i.operands.get 0 = .relative { displacement := 0, size := 32, target := 0x10003 })
    (by decide +kernel)

/-- An address-size override before the jump, and what is left without it. -/
theorem decode_prefix_inert_shortJump :
    (decode ⟨.bits32, .any⟩ shortJump 0x10001).error = none ∧
    (decode ⟨.bits32, .any⟩ shortJump 0x10001).length ≤ 14 ∧
    (decode ⟨.bits32, .any⟩ shortJump 0x10001).Ignores 0x67 ∧
    (decode ⟨.bits32, .any⟩ (#[0x67] ++ shortJump) 0x10000).error = none ∧
    (decode ⟨.bits32, .any⟩ (#[0x67] ++ shortJump) 0x10000).Ignores 0x67 ∧
    (decode ⟨.bits32, .any⟩ shortJump 0x10001).PrefixedBy 0x67 []
      (decode ⟨.bits32, .any⟩ (#[0x67] ++ shortJump) 0x10000) ∧
    (decode ⟨.bits32, .any⟩ (#[0x67] ++ shortJump) 0x10000).operands.get 0 =
      .relative { displacement := 0, size := 32, target := 0x10003 } := by
  obtain ⟨herror, hlength, hflag, hjump⟩ := decode_shortJump
  obtain ⟨hadd, hdrop⟩ := decode_prefix_inert ⟨.bits32, .any⟩ 0x67 shortJump 0x10000
  have hle : (decode ⟨.bits32, .any⟩ shortJump 0x10001).length ≤ 14 := by
    rw [hlength]
    decide
  have hignores : (decode ⟨.bits32, .any⟩ shortJump 0x10001).Ignores 0x67 := .inr (.inr ⟨rfl, hflag⟩)
  obtain ⟨herror', hprefixed⟩ := hadd herror hle hignores
  have hignores' : (decode ⟨.bits32, .any⟩ (#[0x67] ++ shortJump) 0x10000).Ignores 0x67 :=
    .inr (.inr ⟨rfl, by rw [hprefixed.flags]; exact hflag⟩)
  refine ⟨herror, hle, hignores, herror', hignores', (hdrop herror' hignores').2, ?_⟩
  rw [hprefixed.operands]
  exact hjump

end X86
