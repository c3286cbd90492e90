import X86.Proofs.SelfDelimiting

/-!
What becomes of the prefixes. Of a run of prefix bytes the last one of each group counts; the prefix
that the definition found asks for is taken out; and the flag word that the instruction reports
accounts for all the others.
-/

namespace X86

open Lookup

def Repeat.ofByte? : UInt8 → Option Repeat
  | 0xF2 => some .f2
  | 0xF3 => some .f3
  | _ => none

def isRexByte (mode : Mode) (b : UInt8) : Bool :=
  mode.is64 && 0x40 ≤ b && b ≤ 0x4F

theorem isRexByte_legacy {mode : Mode} {b : UInt8} (h : isRexByte mode b = true) :
    b ≠ 0x66 ∧ b ≠ 0x67 ∧ b ≠ 0xF0 ∧ Segment.ofOverride? b = none ∧ Repeat.ofByte? b = none := by
  rw [isRexByte, Bool.and_eq_true, Bool.and_eq_true, decide_eq_true_eq, decide_eq_true_eq] at h
  obtain ⟨⟨-, hlow⟩, hhigh⟩ := h
  refine ⟨?_, ?_, ?_, ?_, ?_⟩
  · rintro rfl
    exact absurd hhigh (by decide)
  · rintro rfl
    exact absurd hhigh (by decide)
  · rintro rfl
    exact absurd hhigh (by decide)
  · unfold Segment.ofOverride?
    split <;> first | rfl | simp_all
  · unfold Repeat.ofByte?
    split <;> first | rfl | simp_all

theorem getLast?_filterMap_concat {α β : Type} (f : α → Option β) (xs : List α) (x : α) :
    ((xs ++ [x]).filterMap f).getLast? = (f x).or (xs.filterMap f).getLast? := by
  rw [List.filterMap_append]
  cases h : f x with
  | none => simp [h]
  | some y => simp [h]

namespace PrefixState

/-- What a run of prefix bytes amounts to. -/
def ofBytes (mode : Mode) (bs : List UInt8) : PrefixState where
  operandSize := bs.contains 0x66
  addressSize := bs.contains 0x67
  lock := bs.contains 0xF0
  segment := (bs.filterMap Segment.ofOverride?).getLast?
  repeated := (bs.filterMap Repeat.ofByte?).getLast?
  rex := ⟨(bs.getLast?.filter (isRexByte mode)).getD 0⟩

@[simp] theorem ofBytes_nil (mode : Mode) : ofBytes mode [] = {} := rfl

/-- One more prefix byte takes the place of an earlier one of its group, and of a REX byte. -/
theorem absorb?_eq {mode : Mode} {b : UInt8} (h : isPrefixByte mode b = true) (p : PrefixState) :
    p.absorb? mode b = some {
      operandSize := p.operandSize || 0x66 == b
      addressSize := p.addressSize || 0x67 == b
      lock := p.lock || 0xF0 == b
      segment := (Segment.ofOverride? b).or p.segment
      repeated := (Repeat.ofByte? b).or p.repeated
      rex := ⟨if isRexByte mode b then b else 0⟩ } := by
  unfold absorb?
  cases hrex : isRexByte mode b with
  | true =>
    obtain ⟨h66, h67, hF0, hsegment, hrepeat⟩ := isRexByte_legacy hrex
    rw [isRexByte] at hrex
    simp [hrex, h66.symm, h67.symm, hF0.symm, hsegment, hrepeat]
  | false =>
    rw [isRexByte] at hrex
    simp only [hrex, Bool.false_eq_true, ↓reduceIte]
    split
    · next hb => simp [hb, Segment.ofOverride?, Repeat.ofByte?]
    split
    · next hb => simp [hb, Segment.ofOverride?, Repeat.ofByte?]
    split
    · next hb => simp [hb, Segment.ofOverride?, Repeat.ofByte?]
    split
    · next hb => simp [hb, Segment.ofOverride?, Repeat.ofByte?]
    split
    · next hb => simp [hb, Segment.ofOverride?, Repeat.ofByte?]
    next h66 h67 hF0 hF2 hF3 =>
    have hsome : (Segment.ofOverride? b).isSome = true := by
      rw [Segment.ofOverride?_isSome]
      simpa [isPrefixByte, hrex, h66, h67, hF0, hF2, hF3] using h
    obtain ⟨g, hg⟩ := Option.isSome_iff_exists.mp hsome
    have hrepeat : Repeat.ofByte? b = none := by
      unfold Repeat.ofByte?
      split <;> first | rfl | simp_all
    simp [hg, hrepeat, Ne.symm h66, Ne.symm h67, Ne.symm hF0]

theorem absorb?_eq_none {mode : Mode} {b : UInt8} (h : isPrefixByte mode b = false)
    (p : PrefixState) : p.absorb? mode b = none := by
  rw [← Option.not_isSome_iff_eq_none, absorb?_isSome, h]
  exact Bool.false_ne_true

theorem absorb?_ofBytes {mode : Mode} {b : UInt8} (h : isPrefixByte mode b = true) (bs : List UInt8) :
    (ofBytes mode bs).absorb? mode b = some (ofBytes mode (bs ++ [b])) := by
  have hrex : (if isRexByte mode b then b else 0) = ((some b).filter (isRexByte mode)).getD 0 := by
    rw [Option.filter_some]
    cases isRexByte mode b <;> rfl
  rw [absorb?_eq h, hrex]
  simp only [ofBytes, List.contains_append, List.contains_cons, List.contains_nil, Bool.or_false,
    getLast?_filterMap_concat, List.getLast?_concat]

theorem without_operandSize (p : PrefixState) (m : Fin 4) :
    (p.without m).operandSize = (p.operandSize && m != 1) := by
  match m with
  | 0 | 2 | 3 => exact (Bool.and_true _).symm
  | 1 => exact (Bool.and_false _).symm

@[simp] theorem without_lock (p : PrefixState) (m : Fin 4) : (p.without m).lock = p.lock := by
  unfold without
  split <;> rfl

@[simp] theorem without_segment (p : PrefixState) (m : Fin 4) :
    (p.without m).segment = p.segment := by
  unfold without
  split <;> rfl

theorem repeated_of_mem_choices {p : PrefixState} {m : Fin 4} (h : m ∈ p.choices) :
    match p.repeated with
    | some .f2 => m ≠ 3 ∧ (p.without m).repeated = if m = 2 then none else some .f2
    | some .f3 => m ≠ 2 ∧ (p.without m).repeated = if m = 3 then none else some .f3
    | none => m ≠ 2 ∧ m ≠ 3 ∧ (p.without m).repeated = none := by
  obtain ⟨o, a, l, g, r, x⟩ := p
  match r, m with
  | some .f2, 0 | some .f2, 1 | some .f2, 2 => simp [without]
  | some .f2, 3 => cases o <;> simp [choices] at h
  | some .f3, 0 | some .f3, 1 | some .f3, 3 => simp [without]
  | some .f3, 2 => cases o <;> simp [choices] at h
  | none, 0 | none, 1 => simp [without]
  | none, 2 | none, 3 => cases o <;> simp [choices] at h

end PrefixState

/-- A flag word, put together from its groups of bits. -/
def PrefixFlag.word (sized addressed locked : Bool) (segment repeated : UInt32) : UInt32 :=
  (if sized then operandSize else 0) ||| (if addressed then addressSize else 0) |||
    (if locked then lock else 0) ||| segment ||| repeated

theorem Segment.elim_flag_mem (g : Option Segment) :
    g.elim 0 Segment.flag ∈ 0 :: Segment.all.map Segment.flag := by
  cases g with
  | none => exact List.mem_cons_self
  | some g => cases g <;> decide

/-- Whether each group of bits can be told from a flag word. -/
def PrefixFlag.readable (o a l : Bool) (g r : UInt32) : Bool :=
  (word o a l g r &&& operandSize != 0) == o && (word o a l g r &&& addressSize != 0) == a &&
  (word o a l g r &&& lock != 0) == l && word o a l g r &&& anySegment == g &&
  word o a l g r &&& anyRepeat == r && (word o a l g r &&& repe != 0) == (r == repe) &&
  word o a l g r &&& ~~~(operandSize ||| addressSize ||| lock ||| anySegment ||| anyRepeat) == 0 &&
  word o a l g r &&& ~~~repe == word o a l g (if r = repe then 0 else r)

theorem PrefixFlag.word_readable : ∀ o a l : Bool,
    ((0 :: Segment.all.map Segment.flag).all fun g =>
      [0, rep, repe, repne].all fun r => readable o a l g r) = true := by
  decide +kernel

theorem PrefixFlag.word_groups (o a l : Bool) (g : UInt32)
    (hg : g ∈ 0 :: Segment.all.map Segment.flag) (r : UInt32) (hr : r ∈ [0, rep, repe, repne]) :
    (word o a l g r &&& operandSize != 0) = o ∧ (word o a l g r &&& addressSize != 0) = a ∧
    (word o a l g r &&& lock != 0) = l ∧ word o a l g r &&& anySegment = g ∧
    word o a l g r &&& anyRepeat = r ∧ (word o a l g r &&& repe != 0) = (r == repe) ∧
    word o a l g r &&& ~~~(operandSize ||| addressSize ||| lock ||| anySegment ||| anyRepeat) = 0 ∧
    word o a l g r &&& ~~~repe = word o a l g (if r = repe then 0 else r) := by
  have hreadable := List.all_eq_true.mp (List.all_eq_true.mp (word_readable o a l) g hg) r hr
  simpa only [readable, Bool.and_eq_true, beq_iff_eq, and_assoc] using hreadable

namespace Decode

open PrefixState (ofBytes)

theorem scanPrefixes_iff {mode : Mode} {budget : Nat} {s s' : State} {first : UInt8}
    (before : List UInt8) (hs : s.prefixes = ofBytes mode before) :
    scanPrefixes mode budget s = .ok first s' ↔
      ∃ bs c, bs.all (isPrefixByte mode) = true ∧ isPrefixByte mode first = false ∧
        bs.length < budget ∧ s.cursor.Reads (bs ++ [first]) c ∧
        s' = { s with cursor := c, prefixes := ofBytes mode (before ++ bs) } := by
  induction budget generalizing s before with
  | zero => simp [scanPrefixes]
  | succ budget ih =>
    rw [scanPrefixes_succ_ok, hs]
    constructor
    · rintro ⟨b, hb, h⟩
      cases hprefix : isPrefixByte mode b with
      | true =>
        rw [PrefixState.absorb?_ofBytes hprefix] at h
        obtain ⟨bs, c, hbs, hfirst, hlength, hreads, rfl⟩ := (ih _ rfl).mp h
        refine ⟨b :: bs, c, ?_, hfirst, Nat.succ_lt_succ hlength, ⟨hb, hreads⟩, ?_⟩
        · rw [List.all_cons, hprefix, hbs]
          rfl
        · rw [List.append_cons before b bs]
      | false =>
        rw [PrefixState.absorb?_eq_none hprefix] at h
        obtain ⟨rfl, rfl⟩ := h
        refine ⟨[], s.cursor.advance, rfl, hprefix, Nat.succ_pos budget, ⟨hb, rfl⟩, ?_⟩
        rw [List.append_nil, ← hs]
    · rintro ⟨bs, c, hbs, hfirst, hlength, hreads, rfl⟩
      cases bs with
      | nil =>
        obtain ⟨hb, rfl⟩ := hreads
        refine ⟨first, hb, ?_⟩
        rw [PrefixState.absorb?_eq_none hfirst, List.append_nil, ← hs]
        exact ⟨rfl, rfl⟩
      | cons b bs =>
        obtain ⟨hb, hreads⟩ := hreads
        rw [List.all_cons, Bool.and_eq_true] at hbs
        refine ⟨b, hb, ?_⟩
        rw [PrefixState.absorb?_ofBytes hbs.1]
        refine (ih _ rfl).mpr ⟨bs, c, hbs.2, hfirst, Nat.lt_of_succ_lt_succ hlength, hreads, ?_⟩
        rw [List.append_cons before b bs]

theorem Heading.run_eq {t : Target} {source : Source} {offset : Nat} {first s₁ n d m s₂}
    (h : Heading t { cursor := .ofStart source offset } first s₁ n d m s₂) :
    let bytes := source.slice offset source.length
    let bs := bytes.takeWhile (isPrefixByte t.mode)
    s₁ = { cursor := s₁.cursor, prefixes := ofBytes t.mode bs } ∧
      first :: s₁.cursor.rest = bytes.drop bs.length ∧ isPrefixByte t.mode first = false ∧
      bs.length < maxLength ∧ (Cursor.ofStart source offset).Reads (bs ++ [first]) s₁.cursor := by
  intro bytes bs
  obtain ⟨bs', c, hbs', hfirst, hlength, hreads, rfl⟩ :=
    (scanPrefixes_iff [] (PrefixState.ofBytes_nil t.mode).symm).mp h.prefixes
  have hbytes : bytes = bs' ++ first :: c.rest := by
    show (Cursor.ofStart source offset).rest = _
    rw [hreads.rest_eq, List.append_assoc, List.singleton_append]
  have hrun : bs = bs' := by
    show bytes.takeWhile _ = _
    rw [hbytes, List.takeWhile_append_of_pos (List.all_eq_true.mp hbs'),
      List.takeWhile_cons_of_neg (by simp [hfirst]), List.append_nil]
  rw [hrun, hbytes, List.drop_left]
  exact ⟨rfl, rfl, hfirst, hlength, hreads⟩

theorem reportedPrefixes_eq (flags : EntryFlags) (p : PrefixState) :
    reportedPrefixes flags p =
      ⟨PrefixFlag.word p.operandSize p.addressSize p.lock (p.segment.elim 0 Segment.flag)
        (repeatFlag flags p.repeated), p.rex⟩ := by
  obtain ⟨o, a, l, g, r, x⟩ := p
  cases g <;> rfl

theorem repeatFlag_mem (flags : EntryFlags) (r : Option Repeat) :
    repeatFlag flags r ∈ [0, PrefixFlag.rep, PrefixFlag.repe, PrefixFlag.repne] := by
  unfold repeatFlag
  split
  · split <;> simp
  · simp
  · simp

theorem ite_repeatFlag_mem (c : Prop) [Decidable c] (flags : EntryFlags) (r : Option Repeat) :
    (if c then 0 else repeatFlag flags r) ∈
      [0, PrefixFlag.rep, PrefixFlag.repe, PrefixFlag.repne] := by
  split
  · exact List.mem_cons_self
  · exact repeatFlag_mem flags r

theorem reportedPrefixes_repe (flags : EntryFlags) (p : PrefixState) :
    (reportedPrefixes flags p).repe = (repeatFlag flags p.repeated == PrefixFlag.repe) := by
  obtain ⟨-, -, -, -, -, hrepe, -⟩ := PrefixFlag.word_groups p.operandSize p.addressSize p.lock
    _ (Segment.elim_flag_mem p.segment) _ (repeatFlag_mem flags p.repeated)
  rw [reportedPrefixes_eq, Prefixes.repe, Prefixes.has, hrepe]

@[simp] theorem foldNop_prefixes (i : Instruction) : (foldNop i).prefixes = i.prefixes := by
  unfold foldNop
  split <;> rfl

theorem foldNop_mnemonic (i : Instruction) :
    (foldNop i).mnemonic = i.mnemonic ∨ (foldNop i).mnemonic = .NOP ∧ i.mnemonic = .XCHG := by
  unfold foldNop
  split
  · next h =>
    rw [isIdleExchange, decide_eq_true_eq] at h
    exact Or.inr ⟨rfl, h.1⟩
  · exact Or.inl rfl

theorem foldPause_foldNop_prefixes {i : Instruction} {flags : EntryFlags} {p : PrefixState}
    (hi : i.prefixes = reportedPrefixes flags p) (h : i.mnemonic ≠ .PAUSE) :
    (foldPause (foldNop i)).prefixes =
      ⟨PrefixFlag.word p.operandSize p.addressSize p.lock (p.segment.elim 0 Segment.flag)
        (if (foldPause (foldNop i)).mnemonic = .PAUSE then 0 else repeatFlag flags p.repeated), p.rex⟩ ∧
    ((foldPause (foldNop i)).mnemonic = .PAUSE →
      (i.mnemonic = .NOP ∨ i.mnemonic = .XCHG) ∧ repeatFlag flags p.repeated = PrefixFlag.repe) := by
  have hprefixes : (foldNop i).prefixes = reportedPrefixes flags p := by
    rw [foldNop_prefixes, hi]
  have hrepe := reportedPrefixes_repe flags p
  rw [← hprefixes] at hrepe
  rw [reportedPrefixes_eq] at hprefixes
  obtain ⟨-, -, -, -, -, -, -, hclear⟩ := PrefixFlag.word_groups p.operandSize p.addressSize p.lock
    _ (Segment.elim_flag_mem p.segment) _ (repeatFlag_mem flags p.repeated)
  have hmnemonic := foldNop_mnemonic i
  unfold foldPause
  split
  · next hpause =>
    rw [hrepe, beq_iff_eq] at hpause
    refine ⟨?_, fun _ => ⟨?_, hpause.2⟩⟩
    · rw [hprefixes, hclear, if_pos hpause.2, if_pos rfl]
    · exact hmnemonic.imp (fun he => he.symm.trans hpause.1) And.right
  · have hne : (foldNop i).mnemonic ≠ .PAUSE := by
      obtain he | ⟨he, -⟩ := hmnemonic
      · rwa [he]
      · rw [he]
        decide
    rw [if_neg hne, hprefixes]
    exact ⟨rfl, fun he => absurd he hne⟩

theorem assemble_prefixes (t : Target) (pc : UInt64) {e : Entry} (s : State) (ops : Vector Operand 4)
    (n : Nat) (h : e.mnemonic ≠ .PAUSE) :
    (assemble t pc e s ops n).prefixes =
      ⟨PrefixFlag.word s.prefixes.operandSize s.prefixes.addressSize s.prefixes.lock
        (s.prefixes.segment.elim 0 Segment.flag)
        (if (assemble t pc e s ops n).mnemonic = .PAUSE then 0
          else repeatFlag e.flags s.prefixes.repeated), s.prefixes.rex⟩ ∧
    ((assemble t pc e s ops n).mnemonic = .PAUSE →
      (e.mnemonic = .NOP ∨ e.mnemonic = .XCHG) ∧
        repeatFlag e.flags s.prefixes.repeated = PrefixFlag.repe) :=
  foldPause_foldNop_prefixes rfl h

end Decode

/-- The repeat flag that is due to the last repeat prefix in front of an instruction. -/
def Instruction.repeatFlag (i : Instruction) (d : Definition) : Option Repeat → UInt32
  | none => 0
  | some .f2 => if Step.mandatory 2 ∈ d.steps then 0 else PrefixFlag.repne
  | some .f3 =>
    if Step.mandatory 3 ∈ d.steps ∨ i.mnemonic = .PAUSE then 0
    else if i.flags.isString then PrefixFlag.rep
    else PrefixFlag.repe

/-- How an instruction with definition `d` reports the prefix bytes in front of its opcode. -/
structure Instruction.ReportsPrefixes (i : Instruction) (mode : Mode) (bs : List UInt8)
    (d : Definition) : Prop where
  operandSize : i.prefixes.operandSize = true ↔ 0x66 ∈ bs ∧ Step.mandatory 1 ∉ d.steps
  addressSize : i.prefixes.addressSize = true ↔ 0x67 ∈ bs
  lock : i.prefixes.lock = true ↔ 0xF0 ∈ bs
  segment : i.prefixes.flags &&& PrefixFlag.anySegment =
    (bs.filterMap Segment.ofOverride?).getLast?.elim 0 Segment.flag
  repeated : i.prefixes.flags &&& PrefixFlag.anyRepeat =
    i.repeatFlag d (bs.filterMap Repeat.ofByte?).getLast?
  /-- No other bit is set. -/
  others : i.prefixes.flags &&& ~~~(PrefixFlag.operandSize ||| PrefixFlag.addressSize |||
    PrefixFlag.lock ||| PrefixFlag.anySegment ||| PrefixFlag.anyRepeat) = 0
  /-- It is F3 that makes `pause` of `nop`. -/
  pause : i.mnemonic = .PAUSE → (d.mnemonic = .NOP ∨ d.mnemonic = .XCHG) ∧
    (bs.filterMap Repeat.ofByte?).getLast? = some .f3 ∧ Step.mandatory 3 ∉ d.steps
  rex : i.prefixes.rex.byte = (bs.getLast?.filter (isRexByte mode)).getD 0

theorem Instruction.ReportsPrefixes.keeping {i : Instruction} {mode : Mode} {bs : List UInt8}
    {d : Definition} (h : i.ReportsPrefixes mode bs d) (kept : List UInt8) :
    (i.keeping kept).ReportsPrefixes mode bs d :=
  ⟨h.operandSize, h.addressSize, h.lock, h.segment, h.repeated, h.others, h.pause, h.rex⟩

theorem definitions_ne_pause : definitions.all (·.mnemonic != .PAUSE) = true := by
  decide +kernel

theorem mnemonic_ne_pause {d : Definition} (h : d ∈ definitions) : d.entry.mnemonic ≠ .PAUSE := by
  show d.mnemonic ≠ .PAUSE
  simpa using List.all_eq_true.mp definitions_ne_pause d h

namespace Decode

open PrefixState (ofBytes)

/-- The repeat prefix that is left over is reported, except where it makes `pause` of `nop`. -/
theorem repeatFlag_without {t : Target} {p : PrefixState} {m : Fin 4} {bytes : List UInt8}
    {d : Definition} {i : Instruction} (hdescribes : d.describes t p m bytes = true)
    (hm : m ∈ p.choices)
    (hpause : i.mnemonic = .PAUSE → repeatFlag i.flags (p.without m).repeated = PrefixFlag.repe) :
    (if i.mnemonic = .PAUSE then 0 else repeatFlag i.flags (p.without m).repeated) =
      i.repeatFlag d p.repeated := by
  have hchoice := PrefixState.repeated_of_mem_choices hm
  have hmandatory {k : Fin 4} (hk : k ≠ 0) := Definition.mandatory_mem_iff hdescribes hk
  cases hr : p.repeated with
  | none =>
    rw [hr] at hchoice
    rw [hchoice.2.2]
    exact ite_self 0
  | some r =>
    rw [hr] at hchoice
    cases r with
    | f2 =>
      simp only [Instruction.repeatFlag, hmandatory (show (2 : Fin 4) ≠ 0 by decide)]
      rw [hchoice.2] at hpause ⊢
      by_cases htwo : m = 2
      · rw [if_pos htwo, if_pos htwo]
        exact ite_self 0
      · have hne : i.mnemonic ≠ .PAUSE := by
          intro he
          rw [if_neg htwo] at hpause
          exact absurd (hpause he) (show PrefixFlag.repne ≠ PrefixFlag.repe by decide)
        rw [if_neg htwo, if_neg htwo, if_neg hne]
        rfl
    | f3 =>
      simp only [Instruction.repeatFlag, hmandatory (show (3 : Fin 4) ≠ 0 by decide)]
      rw [hchoice.2]
      by_cases hthree : m = 3
      · rw [if_pos hthree, if_pos (Or.inl hthree)]
        exact ite_self 0
      · by_cases he : i.mnemonic = .PAUSE
        · rw [if_pos he, if_pos (Or.inr he)]
        · rw [if_neg he, if_neg hthree, if_neg (not_or.mpr ⟨hthree, he⟩)]
          rfl

theorem eq_f3_of_repeatFlag {p : PrefixState} {m : Fin 4} {flags : EntryFlags} (hm : m ∈ p.choices)
    (h : repeatFlag flags (p.without m).repeated = PrefixFlag.repe) :
    p.repeated = some .f3 ∧ m ≠ 3 := by
  have hchoice := PrefixState.repeated_of_mem_choices hm
  cases hr : p.repeated with
  | none =>
    rw [hr] at hchoice
    rw [hchoice.2.2] at h
    exact absurd h (show (0 : UInt32) ≠ PrefixFlag.repe by decide)
  | some r =>
    rw [hr] at hchoice
    cases r with
    | f2 =>
      rw [hchoice.2] at h
      split at h
      · exact absurd h (show (0 : UInt32) ≠ PrefixFlag.repe by decide)
      · exact absurd h (show PrefixFlag.repne ≠ PrefixFlag.repe by decide)
    | f3 =>
      refine ⟨rfl, ?_⟩
      rintro rfl
      rw [hchoice.2] at h
      exact absurd h (show (0 : UInt32) ≠ PrefixFlag.repe by decide)

theorem reportsPrefixes_assemble {t : Target} (pc : UInt64) {d : Definition} {s : State} {m : Fin 4}
    (ops : Vector Operand 4) (n : Nat) {bs bytes : List UInt8} (hd : d ∈ definitions)
    (hdescribes : d.describes t (ofBytes t.mode bs) m bytes = true)
    (hm : m ∈ (ofBytes t.mode bs).choices) (hs : s.prefixes = (ofBytes t.mode bs).without m) :
    (assemble t pc d.entry s ops n).ReportsPrefixes t.mode bs d := by
  have hflags : (assemble t pc d.entry s ops n).flags = d.entry.flags := assemble_flags ..
  obtain ⟨hprefixes, hpause⟩ := assemble_prefixes t pc s ops n (mnemonic_ne_pause hd)
  rw [hs, ← hflags] at hprefixes hpause
  generalize assemble t pc d.entry s ops n = i at hprefixes hpause ⊢
  have hdue := repeatFlag_without hdescribes hm fun he => (hpause he).2
  obtain ⟨ho, ha, hl, hg, hr, -, hothers, -⟩ := PrefixFlag.word_groups
    ((ofBytes t.mode bs).without m).operandSize ((ofBytes t.mode bs).without m).addressSize
    ((ofBytes t.mode bs).without m).lock _
    (Segment.elim_flag_mem ((ofBytes t.mode bs).without m).segment) _
    (ite_repeatFlag_mem (i.mnemonic = .PAUSE) i.flags ((ofBytes t.mode bs).without m).repeated)
  have hword := congrArg Prefixes.flags hprefixes
  have hmandatory {k : Fin 4} (hk : k ≠ 0) := Definition.mandatory_mem_iff hdescribes hk
  refine {
    operandSize := ?_
    addressSize := ?_
    lock := ?_
    segment := ?_
    repeated := ?_
    others := ?_
    pause := ?_
    rex := ?_ }
  · rw [Prefixes.operandSize, Prefixes.has, hword, ho, PrefixState.without_operandSize,
      hmandatory (by decide), Bool.and_eq_true, bne_iff_ne, ofBytes, List.contains_iff_mem]
  · rw [Prefixes.addressSize, Prefixes.has, hword, ha, PrefixState.without_addressSize, ofBytes,
      List.contains_iff_mem]
  · rw [Prefixes.lock, Prefixes.has, hword, hl, PrefixState.without_lock, ofBytes,
      List.contains_iff_mem]
  · rw [hword, hg, PrefixState.without_segment]
    rfl
  · rw [hword, hr, hdue]
    rfl
  · rw [hword, hothers]
  · intro he
    obtain ⟨hnop, hrepe⟩ := hpause he
    refine ⟨hnop, ?_⟩
    rw [hmandatory (by decide)]
    exact eq_f3_of_repeatFlag hm hrepe
  · rw [hprefixes, PrefixState.without_rex]
    rfl

end Decode

/-- No prefix is lost, and none counts twice. With the run of prefix bytes at the start of the source
and the definition that the scan finds behind it, the instruction reports each group of prefixes by
its last byte, except for a prefix that the definition asks for and for one that makes `pause` of
`nop`. -/
theorem decodeAt_reports_prefixes (t : Target) (source : Source) (offset : Nat) (pc : UInt64)
    (keep : Bool) (h : (decodeAt t source offset pc keep).error = none) :
    let bytes := source.slice offset source.length
    let bs := bytes.takeWhile (isPrefixByte t.mode)
    ∃ n d, scan t (.ofBytes t.mode bs) (bytes.drop bs.length) = some n ∧ definitions[n]? = some d ∧
      (∃ s, Decode.entry instructionTable t { cursor := .ofStart source offset } = .ok d.entry s) ∧
      (decodeAt t source offset pc keep).flags = d.entry.flags ∧
      (decodeAt t source offset pc keep).ReportsPrefixes t.mode bs d := by
  intro bytes bs
  rw [decodeAt_error] at h
  obtain ⟨i, s, hi, hrun⟩ := Decode.instruction_of_run h
  obtain ⟨first, s₁, n, d, m, s₂, hheading, hcomplete, -⟩ :=
    (Decode.instruction_iff_heading rfl).mp hi
  obtain ⟨s₃, hentry, -⟩ := Decode.entry_of_scan rfl hheading.prefixes hheading.scan
    hheading.definition (hheading.not_unfinished rfl hcomplete)
  obtain ⟨hs₁, hrest, -⟩ := hheading.run_eq
  have hprefixes := congrArg (·.prefixes) hs₁
  have hscan := hheading.scan
  have hdescribes := hheading.describes
  have hm := hheading.mem_choices
  rw [hprefixes, hrest] at hscan hdescribes
  rw [hprefixes] at hm
  have hs₂ : (s₂.spend m).prefixes = (PrefixState.ofBytes t.mode bs).without m := by
    rw [Decode.State.spend_prefixes, (Decode.State.past?_eq_some hheading.past).2.1, hprefixes]
  obtain ⟨-, _, ops, -, -, rfl⟩ := Decode.complete_ok.mp hcomplete
  have hreports := Decode.reportsPrefixes_assemble pc ops s.cursor.consumed hheading.mem hdescribes
    hm hs₂
  refine ⟨n, d, hscan, hheading.definition, ⟨s₃, hentry⟩, ?_⟩
  cases keep with
  | true =>
    rw [decodeAt_keep, hrun]
    exact ⟨Decode.assemble_flags .., hreports.keeping _⟩
  | false =>
    rw [decodeAt_drop, hrun]
    exact ⟨Decode.assemble_flags .., hreports⟩

/-- In 64-bit mode, an addition of scalars that F2 selects. Two segment overrides, 66 and REX.W
precede it. -/
def scalarAdd : Array UInt8 :=
  #[0x2E, 0x66, 0x64, 0xF2, 0x48, 0x0F, 0x58, 0xC1]

theorem decode_scalarAdd :
    (decodeAt ⟨.bits64, .any⟩ (.ofArray scalarAdd) 0 0 true).error = none :=
  Decode.decodeAt_of_delivers (P := fun i => i.error = none) (by decide +kernel)

/-- The last segment override counts, 66 is left over, and F2 is part of the opcode. -/
theorem decodeAt_reports_prefixes_scalarAdd :
    (decodeAt ⟨.bits64, .any⟩ (.ofArray scalarAdd) 0 0 true).error = none ∧
    (decodeAt ⟨.bits64, .any⟩ (.ofArray scalarAdd) 0 0 true).prefixes.operandSize = true ∧
    (decodeAt ⟨.bits64, .any⟩ (.ofArray scalarAdd) 0 0 true).prefixes.flags &&& PrefixFlag.anySegment =
      Segment.fs.flag ∧
    (decodeAt ⟨.bits64, .any⟩ (.ofArray scalarAdd) 0 0 true).prefixes.flags &&& PrefixFlag.anyRepeat = 0 ∧
    (decodeAt ⟨.bits64, .any⟩ (.ofArray scalarAdd) 0 0 true).prefixes.rex.byte = 0x48 := by
  obtain ⟨n, d, hscan, hd, -, -, hreports⟩ := decodeAt_reports_prefixes ⟨.bits64, .any⟩
    (.ofArray scalarAdd) 0 0 true decode_scalarAdd
  have hn : scan ⟨.bits64, .any⟩ (.ofBytes .bits64 [0x2E, 0x66, 0x64, 0xF2, 0x48]) [0x0F, 0x58, 0xC1] =
      some 681 := by
    decide +kernel
  obtain rfl : n = 681 := Option.some.inj (hscan.symm.trans hn)
  obtain rfl : Opcodes.row [0x0F, 0x58] [.mandatory 2] .ADDSD [Opcodes.Vx, Opcodes.Wq] = d := by
    refine Option.some.inj (Eq.trans ?_ hd)
    decide +kernel
  refine ⟨decode_scalarAdd, hreports.operandSize.mpr ?_, hreports.segment, ?_, hreports.rex⟩
  · decide +kernel
  · rw [hreports.repeated]
    show Instruction.repeatFlag _ _ (some .f2) = 0
    rw [Instruction.repeatFlag, if_pos (by decide)]

end X86
