import X86.Proofs.Prefixes

/-!
The duality of 16-bit and 32-bit mode. Behind both size overrides, a decode in one of these modes
sees the operand size and the address size that the other mode starts from, and nothing else about
the mode; so it comes to the same as a decode without the overrides in the other mode.
-/

namespace X86

open Lookup

/-- 16-bit and 32-bit mode, in either order. -/
def Mode.IsDual (m m' : Mode) : Prop :=
  m = .bits16 ∧ m' = .bits32 ∨ m = .bits32 ∧ m' = .bits16

namespace Mode.IsDual

variable {m m' : Mode} (h : m.IsDual m')

include h

theorem is64_left : m.is64 = false := by
  obtain ⟨rfl, -⟩ | ⟨rfl, -⟩ := h <;> rfl

theorem is64_right : m'.is64 = false := by
  obtain ⟨-, rfl⟩ | ⟨-, rfl⟩ := h <;> rfl

theorem operandSize_eq (wide : Bool) : m'.operandSize wide false = m.operandSize wide true := by
  obtain ⟨rfl, rfl⟩ | ⟨rfl, rfl⟩ := h <;> rfl

theorem addressSize_eq : m'.addressSize false = m.addressSize true := by
  obtain ⟨rfl, rfl⟩ | ⟨rfl, rfl⟩ := h <;> rfl

theorem isPrefixByte_eq : isPrefixByte m' = isPrefixByte m := by
  funext b
  simp only [isPrefixByte, h.is64_left, h.is64_right]

end Mode.IsDual

theorem Cursor.Reads.restart {c c' : Cursor} {bs : List UInt8} (h : c.Reads bs c') (start : Nat) :
    Reads { c with start := start } bs { c' with start := start } := by
  induction bs generalizing c with
  | nil => rw [reads_nil.mp h]; rfl
  | cons b bs ih => exact ⟨h.1, ih h.2⟩

namespace PrefixState

def unsized (p : PrefixState) : PrefixState :=
  { p with operandSize := false, addressSize := false }

theorem unsized_without (p : PrefixState) (c : Fin 4) : (p.without c).unsized = p.unsized.without c := by
  match c with
  | 0 | 1 | 2 | 3 => rfl

theorem ofBytes_unsized {m m' : Mode} (h : m.IsDual m') {bs : List UInt8}
    (hbs : ∀ b ∈ bs, b ≠ 0x66 ∧ b ≠ 0x67) :
    ofBytes m' bs = (ofBytes m (0x66 :: 0x67 :: bs)).unsized := by
  have h66 : bs.contains 0x66 = false := by
    simpa using fun hmem => (hbs _ hmem).1 rfl
  have h67 : bs.contains 0x67 = false := by
    simpa using fun hmem => (hbs _ hmem).2 rfl
  have hrex (mode : Mode) (hmode : mode.is64 = false) : isRexByte mode = fun _ => false := by
    funext b
    rw [isRexByte, hmode, Bool.false_and, Bool.false_and]
  have hnone (x : Option UInt8) : x.filter (fun _ => false) = none := by
    cases x <;> rfl
  simp only [unsized, ofBytes, h66, h67, hrex m h.is64_left, hrex m' h.is64_right, hnone]
  rfl

theorem choices_unsized {p : PrefixState} (h : p.operandSize = true) :
    ∃ before, (∀ c ∈ before, c ≠ 1) ∧ p.choices = before ++ [1, 0] ∧
      p.unsized.choices = before ++ [0] := by
  obtain ⟨o, a, l, g, r, x⟩ := p
  obtain rfl : o = true := h
  match r with
  | none => exact ⟨[], by decide, rfl, rfl⟩
  | some .f2 => exact ⟨[2], by decide, rfl, rfl⟩
  | some .f3 => exact ⟨[3], by decide, rfl, rfl⟩

end PrefixState

section Scan

variable {m m' : Mode} (h : m.IsDual m') (v : Vendor) {p : PrefixState} (ho : p.operandSize = true)
  (ha : p.addressSize = true)

include h ho ha

/-- Behind the size overrides all selectors agree as they do without them in the dual mode, as long as
66 is not the mandatory prefix. -/
theorem agrees_dual {c : Fin 4} (hc : c ≠ 1) (x : Option ModRM) :
    Setting.agrees ⟨⟨m', v⟩, c, p.unsized, x⟩ = Setting.agrees ⟨⟨m, v⟩, c, p, x⟩ := by
  have hsize : Setting.operandSize ⟨⟨m', v⟩, c, p.unsized, x⟩ = Setting.operandSize ⟨⟨m, v⟩, c, p, x⟩ := by
    have hleft : (p.without c).operandSize = true := by
      rw [PrefixState.without_operandSize, ho, Bool.true_and]
      exact bne_iff_ne.mpr hc
    have hright : (p.unsized.without c).operandSize = false := by
      rw [PrefixState.without_operandSize]
      rfl
    rw [Setting.operandSize, Setting.operandSize, hleft, hright]
    exact h.operandSize_eq _
  have haddress : Setting.addressSize ⟨⟨m', v⟩, c, p.unsized, x⟩ =
      Setting.addressSize ⟨⟨m, v⟩, c, p, x⟩ := by
    rw [Setting.addressSize, Setting.addressSize, ha]
    exact h.addressSize_eq
  funext s
  obtain ⟨a, i⟩ := s
  cases a with
  | mode => simp only [Setting.agrees, h.is64_left, h.is64_right]
  | operandSize => simp only [Setting.agrees, hsize]
  | addressSize => simp only [Setting.agrees, haddress]
  | _ => rfl

theorem describes_dual {c : Fin 4} (hc : c ≠ 1) (d : Definition) (bytes : List UInt8) :
    d.describes ⟨m', v⟩ p.unsized c bytes = d.describes ⟨m, v⟩ p c bytes := by
  simp only [Definition.describes, Setting.admits, agrees_dual h v ho ha hc]

theorem scan_dual {bytes : List UInt8} {n : Nat} {d : Definition} {c : Fin 4}
    (hscan : scan ⟨m, v⟩ p bytes = some n) (hd : definitions[n]? = some d)
    (hdescribes : d.describes ⟨m, v⟩ p c bytes = true) (hc : c ≠ 1) :
    scan ⟨m', v⟩ p.unsized bytes = some n := by
  let find (c : Fin 4) : Option Nat := definitions.findIdx? fun d => d.describes ⟨m, v⟩ p c bytes
  have hdual {c : Fin 4} (hc : c ≠ 1) :
      (definitions.findIdx? fun d => d.describes ⟨m', v⟩ p.unsized c bytes) = find c := by
    simp only [describes_dual h v ho ha hc, find]
  obtain ⟨before, hbefore, hchoices, hchoices'⟩ := PrefixState.choices_unsized ho
  rw [scan, hchoices] at hscan
  change (before ++ [1, 0]).findSome? find = some n at hscan
  rw [List.findSome?_append] at hscan
  rw [scan, hchoices', List.findSome?_append, findSome?_congr fun c hmem => hdual (hbefore c hmem)]
  cases hfound : before.findSome? find with
  | some k =>
    rw [hfound, Option.some_or] at hscan
    rw [Option.some_or, hscan]
  | none =>
    rw [hfound, Option.none_or, List.findSome?_cons] at hscan
    rw [Option.none_or, List.findSome?_singleton, hdual (by decide)]
    -- the definition was not found under 66, so it was found in the last turn
    cases hone : find 1 with
    | none =>
      rw [hone] at hscan
      simpa using hscan
    | some k =>
      rw [hone] at hscan
      obtain rfl : k = n := Option.some.inj hscan
      have hfound' : d.describes ⟨m, v⟩ p 1 bytes = true := describes_of_findIdx? hone hd
      exact absurd (Definition.choice_unique hdescribes hfound') hc

end Scan

/-- The instruction as it is decoded in another mode, elsewhere, from other prefixes. -/
def Instruction.viewed (i : Instruction) (mode : Mode) (offset : UInt64) (length : Nat)
    (prefixes : Prefixes) : Instruction :=
  { i with mode := mode, offset := offset, length := length, prefixes := prefixes }

/-- Two instructions that differ at most in their mode, their place and their size overrides. -/
structure Instruction.Matches (i i' : Instruction) : Prop where
  mnemonic : i'.mnemonic = i.mnemonic
  opcode : i'.opcode = i.opcode
  operands : i'.operands = i.operands
  operandSize : i'.operandSize = i.operandSize
  addressSize : i'.addressSize = i.addressSize
  flags : i'.flags = i.flags
  isFar : i'.isFar = i.isFar
  isNear : i'.isNear = i.isNear
  repeated : i'.prefixes.flags &&& PrefixFlag.anyRepeat = i.prefixes.flags &&& PrefixFlag.anyRepeat
  segment : i'.prefixes.flags &&& PrefixFlag.anySegment = i.prefixes.flags &&& PrefixFlag.anySegment
  lock : i'.prefixes.lock = i.prefixes.lock

theorem Instruction.Matches.keeping {i i' : Instruction} (h : i.Matches i') (bs bs' : List UInt8) :
    (i.keeping bs).Matches (i'.keeping bs') :=
  ⟨h.mnemonic, h.opcode, h.operands, h.operandSize, h.addressSize, h.flags, h.isFar, h.isNear,
    h.repeated, h.segment, h.lock⟩

namespace Decode

/-- The state of a decode that started elsewhere and has met other prefixes. -/
def State.recast (start : Nat) (p : PrefixState) (s : State) : State :=
  { s with cursor := { s.cursor with start := start }, prefixes := p }

@[simp] theorem State.recast_prefixes (start : Nat) (p : PrefixState) (s : State) :
    (s.recast start p).prefixes = p := rfl

def recastResult (start : Nat) (p : PrefixState) :
    EStateM.Result Fault State α → EStateM.Result Fault State α
  | .ok a s => .ok a (s.recast start p)
  | .error e s => .error e (s.recast start p)

section Recast

variable (start : Nat) (p : PrefixState)

@[simp] theorem State.peek_recast (s : State) : (s.recast start p).peek = s.peek := rfl

@[simp] theorem State.fetched_recast (s : State) :
    (s.recast start p).fetched = s.fetched.recast start p := by
  obtain ⟨⟨q, x, o⟩, c⟩ := s
  cases x with
  | some m => rfl
  | none =>
    cases hb : c.source.get? c.position with
    | none => simp [State.fetched, State.recast, hb]
    | some b => simp [State.fetched, State.recast, hb, Cursor.advance]

theorem State.past?_recast {s s₁ : State} {bs : List UInt8} (h : s.past? bs = some s₁) :
    (s.recast start p).past? bs = some (s₁.recast start p) := by
  induction bs generalizing s with
  | nil =>
    obtain rfl : s = s₁ := Option.some.inj h
    rfl
  | cons b bs ih =>
    rw [State.past?] at h ⊢
    split at h
    · next hb =>
      rw [if_pos (show (s.recast start p).cursor.source.get? (s.recast start p).cursor.position = some b
        from hb)]
      exact ih h
    · cases h

theorem recast_composes :
    Composes fun _ m => ∀ s : State, m (s.recast start p) = recastResult start p (m s) where
  pure a s := rfl
  throw _ s := rfl
  bind {α β m f} hm hf s := by
    rw [bind_run, bind_run, hm]
    cases m s with
    | ok a s₁ => exact hf a s₁
    | error e s₁ => rfl
  byte s := by
    have hget : (s.recast start p).cursor.source.get? (s.recast start p).cursor.position =
        s.cursor.source.get? s.cursor.position := rfl
    rw [read_byte_run, read_byte_run, hget]
    cases s.cursor.source.get? s.cursor.position <;> rfl
  modRM s := by
    rw [modRM_run, modRM_run, State.fetched_recast, State.peek_recast]
    cases s.peek <;> rfl

theorem fetchModRM_recast {e : Entry} {s s' : State} (h : fetchModRM e s = .ok () s') :
    fetchModRM e (s.recast start p) = .ok () (s'.recast start p) := by
  unfold fetchModRM at h ⊢
  split at h
  · next hflag =>
    obtain ⟨x, hx⟩ := discard_ok.mp h
    rw [if_pos hflag, discard_ok]
    refine ⟨x, ?_⟩
    rw [(recast_composes start p).modRM, hx]
    rfl
  · next hflag =>
    obtain ⟨-, rfl⟩ := pure_ok.mp h
    rw [if_neg hflag]
    rfl

end Recast

theorem operands_mode {mode : Mode} {f : Frame} (h : mode.is64 = f.mode.is64)
    (templates : Vector Template 4) :
    operands { f with mode := mode } templates = operands f templates := by
  have hbits (width : Width) : Frame.bits { f with mode := mode } width = f.bits width := by
    rw [Frame.bits, h]
    rfl
  have hoperand : Frame.operand { f with mode := mode } = f.operand := by
    funext τ
    cases τ <;>
      simp only [Frame.operand, Frame.registerOrMemory, Frame.memoryOnly, Frame.memory, Frame.immediate,
        Frame.relative, Frame.bareAddress, Frame.farPointer, Frame.gpr, hbits, h]
  rw [operands, operands, hoperand]

/-- The instruction of an entry before an idle exchange is recognised in it. -/
def draft (t : Target) (pc : UInt64) (e : Entry) (s : State) (operands : Vector Operand 4)
    (length : Nat) : Instruction where
  mnemonic := e.mnemonic
  opcode := s.opcode
  offset := pc
  length := length
  mode := t.mode
  operandSize := (frameOf t e s).operandSize
  addressSize := (frameOf t e s).addressSize
  prefixes := reportedPrefixes e.flags s.prefixes
  operands := operands.map (settleTarget (pc + UInt64.ofNat length))
  isFar := e.flags.isFar
  isNear := e.flags.isNear
  flags := e.flags

theorem assemble_eq (t : Target) (pc : UInt64) (e : Entry) (s : State) (ops : Vector Operand 4)
    (n : Nat) : assemble t pc e s ops n = foldPause (foldNop (draft t pc e s ops n)) := rfl

theorem fold_viewed (i : Instruction) (mode : Mode) (offset : UInt64) (length : Nat) {p : Prefixes}
    (hp : p.repe = i.prefixes.repe) :
    ∃ q, foldPause (foldNop (i.viewed mode offset length p)) =
      (foldPause (foldNop i)).viewed mode offset length q := by
  have hnop : foldNop (i.viewed mode offset length p) = (foldNop i).viewed mode offset length p := by
    unfold foldNop
    show (if isIdleExchange i.mnemonic i.opcode i.operands then _ else _) = _
    split <;> rfl
  rw [hnop, foldPause, foldPause]
  show ∃ q, (if (foldNop i).mnemonic = .NOP ∧ p.repe = true then _ else _) = _
  rw [hp, foldNop_prefixes]
  split
  · exact ⟨_, rfl⟩
  · exact ⟨_, rfl⟩

section Complete

variable {m m' : Mode} (h : m.IsDual m') {v : Vendor} {s : State}
  (ho : s.prefixes.operandSize = true) (ha : s.prefixes.addressSize = true)

include h ho ha

theorem frameOf_dual (e : Entry) (start : Nat) :
    frameOf ⟨m', v⟩ e (s.recast start s.prefixes.unsized) = { frameOf ⟨m, v⟩ e s with mode := m' } := by
  have hne {mode : Mode} (hmode : mode.is64 = false) : mode ≠ .bits64 := by
    rintro rfl
    cases hmode
  have hsize : operandSizeOf m' s.prefixes.unsized e.flags = operandSizeOf m s.prefixes e.flags := by
    rw [operandSizeOf, operandSizeOf, if_neg fun h' => hne h.is64_right h'.1,
      if_neg fun h' => hne h.is64_left h'.1, ho]
    exact h.operandSize_eq _
  have haddress : m'.addressSize s.prefixes.unsized.addressSize = m.addressSize s.prefixes.addressSize := by
    rw [ha]
    exact h.addressSize_eq
  simp only [frameOf, State.recast, hsize, haddress]
  rfl

theorem assemble_dual {e : Entry} (he : e.mnemonic ≠ .PAUSE) (pc : UInt64) (ops : Vector Operand 4)
    (start n : Nat) :
    (assemble ⟨m, v⟩ pc e s ops (n + 2)).Matches
      (assemble ⟨m', v⟩ (pc + 2) e (s.recast start s.prefixes.unsized) ops n) := by
  have hfinish : pc + 2 + UInt64.ofNat n = pc + UInt64.ofNat (n + 2) := by
    rw [UInt64.ofNat_add, UInt64.add_assoc, UInt64.add_comm 2]
    rfl
  have hdraft : draft ⟨m', v⟩ (pc + 2) e (s.recast start s.prefixes.unsized) ops n =
      (draft ⟨m, v⟩ pc e s ops (n + 2)).viewed m' (pc + 2) n
        (reportedPrefixes e.flags s.prefixes.unsized) := by
    simp only [draft, Instruction.viewed, frameOf_dual h ho ha, hfinish]
    rfl
  have hrepe : (reportedPrefixes e.flags s.prefixes.unsized).repe =
      (reportedPrefixes e.flags s.prefixes).repe := by
    rw [reportedPrefixes_repe, reportedPrefixes_repe]
    rfl
  obtain ⟨q, hq⟩ := fold_viewed (draft ⟨m, v⟩ pc e s ops (n + 2)) m' (pc + 2) n hrepe
  rw [← hdraft, ← assemble_eq, ← assemble_eq] at hq
  have hprefixes := (assemble_prefixes ⟨m, v⟩ pc s ops (n + 2) he).1
  have hprefixes' :=
    (assemble_prefixes ⟨m', v⟩ (pc + 2) (s.recast start s.prefixes.unsized) ops n he).1
  rw [State.recast_prefixes] at hprefixes'
  generalize assemble ⟨m', v⟩ (pc + 2) e (s.recast start s.prefixes.unsized) ops n = i' at hq hprefixes' ⊢
  generalize assemble ⟨m, v⟩ pc e s ops (n + 2) = i at hq hprefixes ⊢
  have hmem := ite_repeatFlag_mem (i.mnemonic = .PAUSE) e.flags s.prefixes.repeated
  obtain ⟨-, -, hl, hg, hr, -⟩ := PrefixFlag.word_groups s.prefixes.operandSize s.prefixes.addressSize
    s.prefixes.lock _ (Segment.elim_flag_mem s.prefixes.segment) _ hmem
  obtain ⟨-, -, hl', hg', hr', -⟩ := PrefixFlag.word_groups false false s.prefixes.lock _
    (Segment.elim_flag_mem s.prefixes.segment) _ hmem
  subst hq
  refine ⟨rfl, rfl, rfl, rfl, rfl, rfl, rfl, rfl, ?_, ?_, ?_⟩
  · rw [hprefixes, hprefixes']
    exact hr'.trans hr.symm
  · rw [hprefixes, hprefixes']
    exact hg'.trans hg.symm
  · rw [hprefixes, hprefixes']
    exact hl'.trans hl.symm

theorem complete_dual {e : Entry} {pc : UInt64} {i : Instruction} {s' : State} {start : Nat}
    (he : e.mnemonic ≠ .PAUSE) (hc : complete ⟨m, v⟩ pc e s = .ok i s')
    (hconsumed : s'.cursor.consumed = (s'.recast start s.prefixes.unsized).cursor.consumed + 2) :
    ∃ i', complete ⟨m', v⟩ (pc + 2) e (s.recast start s.prefixes.unsized) =
        .ok i' (s'.recast start s.prefixes.unsized) ∧ i.Matches i' := by
  obtain ⟨-, s₁, ops, hfetch, hops, rfl⟩ := complete_ok.mp hc
  refine ⟨_, complete_ok.mpr ⟨?_, s₁.recast start s.prefixes.unsized, ops, ?_, ?_, rfl⟩, ?_⟩
  · show (m'.is64 && _) = false
    rw [h.is64_right, Bool.false_and]
  · exact fetchModRM_recast _ _ hfetch
  · have hmode : m'.is64 = m.is64 := h.is64_right.trans h.is64_left.symm
    rw [frameOf_dual h ho ha, operands_mode (f := frameOf ⟨m, v⟩ e s) hmode,
      (recast_composes _ _).operands, hops]
    rfl
  · rw [hconsumed]
    exact assemble_dual h ho ha he pc ops start _

end Complete

theorem assemble_sized (t : Target) (pc : UInt64) {e : Entry} (s : State) (ops : Vector Operand 4)
    (n : Nat) (he : e.mnemonic ≠ .PAUSE) :
    (assemble t pc e s ops n).prefixes.operandSize = s.prefixes.operandSize := by
  obtain ⟨ho, -⟩ := PrefixFlag.word_groups s.prefixes.operandSize s.prefixes.addressSize
    s.prefixes.lock _ (Segment.elim_flag_mem s.prefixes.segment) _
    (ite_repeatFlag_mem ((assemble t pc e s ops n).mnemonic = .PAUSE) e.flags s.prefixes.repeated)
  rw [(assemble_prefixes t pc s ops n he).1]
  exact ho

section Overrides

variable {m m' : Mode} (h : m.IsDual m') {v : Vendor} {source : Source} {offset : Nat}
  {bs : List UInt8}
  (hrun : (source.slice offset source.length).takeWhile (isPrefixByte m) = 0x66 :: 0x67 :: bs)
  (hbs : ∀ b ∈ bs, b ≠ 0x66 ∧ b ≠ 0x67)

include h hrun hbs

/-- From behind the size overrides, the dual mode finds the same definition. -/
theorem Heading.dual {first s₁ n d c s₂} (hc : c ≠ 1)
    (hheading : Heading ⟨m, v⟩ { cursor := .ofStart source offset } first s₁ n d c s₂) :
    Heading ⟨m', v⟩ { cursor := .ofStart source (offset + 2) } first
      (s₁.recast (offset + 2) s₁.prefixes.unsized) n d c
      (s₂.recast (offset + 2) s₁.prefixes.unsized) := by
  obtain ⟨hs₁, -, hfirst, hlength, hreads⟩ := hheading.run_eq
  rw [hrun] at hs₁ hlength hreads
  have hprefixes : s₁.prefixes = .ofBytes m (0x66 :: 0x67 :: bs) := congrArg (·.prefixes) hs₁
  have ho : s₁.prefixes.operandSize = true := by
    rw [hprefixes]
    simp [PrefixState.ofBytes]
  have ha : s₁.prefixes.addressSize = true := by
    rw [hprefixes]
    simp [PrefixState.ofBytes]
  refine {
    prefixes := ?_
    scan := scan_dual h v ho ha hheading.scan hheading.definition hheading.describes hc
    definition := hheading.definition
    describes := (describes_dual h v ho ha hc d _).trans hheading.describes
    past := State.past?_recast _ _ hheading.past }
  rw [scanPrefixes_iff [] rfl, h.isPrefixByte_eq]
  have hall : bs.all (isPrefixByte m) = true := by
    have hrunall := List.all_takeWhile (p := isPrefixByte m)
      (l := source.slice offset source.length)
    rw [hrun, List.all_cons, List.all_cons, Bool.and_eq_true, Bool.and_eq_true] at hrunall
    exact hrunall.2.2
  refine ⟨bs, { s₁.cursor with start := offset + 2 }, hall, hfirst, ?_, ?_, ?_⟩
  · exact Nat.lt_of_succ_lt (Nat.lt_of_succ_lt hlength)
  · obtain ⟨-, -, hreads⟩ := hreads
    exact hreads.restart (offset + 2)
  · rw [List.nil_append, PrefixState.ofBytes_unsized h hbs, ← hprefixes, hs₁]
    rfl

/-- Behind both size overrides a decode goes as from behind them in the dual mode, unless 66 becomes
the mandatory prefix. -/
theorem instruction_dual {pc : UInt64} {i : Instruction} {s' : State}
    (hi : instruction instructionTable ⟨m, v⟩ pc { cursor := .ofStart source offset } = .ok i s')
    (hsized : i.prefixes.operandSize = true) :
    ∃ i' s'', instruction instructionTable ⟨m', v⟩ (pc + 2)
        { cursor := .ofStart source (offset + 2) } = .ok i' s'' ∧
      i.Matches i' ∧ i'.length + 2 = i.length := by
  obtain ⟨first, s₁, n, d, c, s₂, hheading, hcomplete, hlength⟩ :=
    (instruction_iff_heading rfl).mp hi
  have hne := mnemonic_ne_pause hheading.mem
  obtain ⟨hs₁, -, -, -, hreads⟩ := hheading.run_eq
  obtain ⟨hopcode, hprefixes, -, -⟩ := State.past?_eq_some hheading.past
  obtain ⟨rest, hrest⟩ := Streams.complete ⟨m, v⟩ pc d.entry (s₂.spend c)
  have ho : (s₂.spend c).prefixes.operandSize = true := by
    obtain ⟨-, _, ops, -, -, rfl⟩ := complete_ok.mp hcomplete
    rwa [assemble_sized _ _ _ _ _ hne] at hsized
  have hc : c ≠ 1 := by
    rw [State.spend_prefixes, PrefixState.without_operandSize, Bool.and_eq_true] at ho
    exact bne_iff_ne.mp ho.2
  have ha : (s₂.spend c).prefixes.addressSize = true := by
    rw [State.spend_prefixes, PrefixState.without_addressSize, hprefixes, hs₁, hrun]
    simp [PrefixState.ofBytes]
  have hcast : (s₂.spend c).recast (offset + 2) (s₂.spend c).prefixes.unsized =
      (s₂.recast (offset + 2) s₁.prefixes.unsized).spend c := by
    rw [State.spend_prefixes, PrefixState.unsized_without, hprefixes]
    rfl
  have hconsumed : s'.cursor.consumed =
      (s'.recast (offset + 2) (s₂.spend c).prefixes.unsized).cursor.consumed + 2 := by
    have hread := hrest.reads
    rw [hcomplete, stop_ok] at hread
    rw [hrun] at hreads
    have hstart : s'.cursor.start = offset := by
      rw [hread.start_eq, State.spend_cursor, hopcode.start_eq, hreads.start_eq]
      rfl
    have hposition : offset + 2 ≤ s'.cursor.position := by
      rw [hread.position_eq, State.spend_cursor, hopcode.position_eq, hreads.position_eq]
      show offset + 2 ≤ offset + _ + _ + _
      rw [List.cons_append, List.cons_append, List.length_cons, List.length_cons]
      omega
    show s'.cursor.position - s'.cursor.start = s'.cursor.position - (offset + 2) + 2
    omega
  obtain ⟨i', hcomplete', hmatches⟩ := complete_dual h ho ha hne hcomplete hconsumed
  rw [hcast] at hcomplete'
  have hlength' : (s'.recast (offset + 2) (s₂.spend c).prefixes.unsized).cursor.consumed ≤ maxLength := by
    omega
  have hi' := (instruction_iff_heading rfl).mpr
    ⟨first, _, n, d, c, _, hheading.dual h hrun hbs hc, hcomplete', hlength'⟩
  refine ⟨i', _, hi', hmatches, ?_⟩
  rw [(instruction_ok_fields hi).2.2.1, (instruction_ok_fields hi').2.2.1, hconsumed]

end Overrides

end Decode

theorem slice_ofArray (bytes : Array UInt8) :
    (Source.ofArray bytes).slice 0 (Source.ofArray bytes).length = bytes.toList := by
  have hreads := Decode.reads_beginning (List.prefix_refl bytes.toList)
  exact hreads.slice_eq

/-- 16-bit and 32-bit mode are dual. What is decoded in one of them behind both size overrides is
decoded without them, two bytes on, in the other one: with the same operands and sizes, at the same
branch targets, from two bytes less. -/
theorem decode_dual {m m' : Mode} (hmodes : m.IsDual m') (v : Vendor) (b : Array UInt8) (pc : UInt64)
    (hb : ∀ x ∈ b.toList.takeWhile (isPrefixByte m), x ≠ 0x66 ∧ x ≠ 0x67)
    (h : (decode ⟨m, v⟩ (#[0x66, 0x67] ++ b) pc).error = none)
    (hsized : (decode ⟨m, v⟩ (#[0x66, 0x67] ++ b) pc).prefixes.operandSize = true) :
    (decode ⟨m', v⟩ b (pc + 2)).error = none ∧
    (decode ⟨m, v⟩ (#[0x66, 0x67] ++ b) pc).Matches (decode ⟨m', v⟩ b (pc + 2)) ∧
    (decode ⟨m', v⟩ b (pc + 2)).length + 2 = (decode ⟨m, v⟩ (#[0x66, 0x67] ++ b) pc).length := by
  have hrun : ((Source.ofArray (#[0x66, 0x67] ++ b)).slice 0
      (Source.ofArray (#[0x66, 0x67] ++ b)).length).takeWhile (isPrefixByte m) =
      0x66 :: 0x67 :: b.toList.takeWhile (isPrefixByte m) := by
    have hbytes : (#[0x66, 0x67] ++ b).toList = 0x66 :: 0x67 :: b.toList := by
      rw [Array.toList_append]
      rfl
    rw [slice_ofArray, hbytes, List.takeWhile_cons_of_pos rfl, List.takeWhile_cons_of_pos rfl]
  obtain ⟨i, s, hi, hleft⟩ := Decode.instruction_of_run ((decodeAt_error ..).symm.trans h)
  have hdecode : decode ⟨m, v⟩ (#[0x66, 0x67] ++ b) pc = i.keeping s.cursor.consumedBytes := by
    rw [decode, decodeAt_keep, hleft]
  rw [hdecode] at hsized
  obtain ⟨i', s', hi', hmatches, hlength⟩ := Decode.instruction_dual hmodes hrun hb hi hsized
  obtain ⟨bs, hsettles⟩ := Decode.exists_settles instructionTable ⟨m', v⟩ (pc + 2)
    (.ofArray (#[0x66, 0x67] ++ b)) (0 + 2)
  have hbs : bs <+: b.toList := by
    have hbehind := (Cursor.reads_ofArray.mp hsettles.reads).1
    rwa [Array.toList_append] at hbehind
  have hright := Decode.run_of_ok hi'
  have herror : i'.error = none := (Decode.instruction_ok_fields hi').1
  have hdecode' : decode ⟨m', v⟩ b (pc + 2) = i'.keeping bs := by
    rw [Decode.decode_congr hsettles hbs, hright]
    rw [hright, herror]
    simp
  rw [hdecode, hdecode']
  exact ⟨herror, hmatches.keeping _ _, hlength⟩

def baseLoad : Array UInt8 :=
  #[0x8B, 0x46, 0x05]

theorem decode_baseLoad :
    (decode ⟨.bits32, .any⟩ (#[0x66, 0x67] ++ baseLoad) 0).error = none ∧
      (decode ⟨.bits32, .any⟩ (#[0x66, 0x67] ++ baseLoad) 0).prefixes.operandSize = true ∧
      (decode ⟨.bits32, .any⟩ (#[0x66, 0x67] ++ baseLoad) 0).length = 5 :=
  Decode.decodeAt_of_delivers
    (P := fun i => i.error = none ∧ i.prefixes.operandSize = true ∧ i.length = 5) (by decide +kernel)

theorem decode_dual_baseLoad :
    (decode ⟨.bits32, .any⟩ (#[0x66, 0x67] ++ baseLoad) 0).error = none ∧
    (decode ⟨.bits32, .any⟩ (#[0x66, 0x67] ++ baseLoad) 0).prefixes.operandSize = true ∧
    (decode ⟨.bits16, .any⟩ baseLoad 2).error = none ∧
    (decode ⟨.bits32, .any⟩ (#[0x66, 0x67] ++ baseLoad) 0).Matches (decode ⟨.bits16, .any⟩ baseLoad 2) ∧
    (decode ⟨.bits16, .any⟩ baseLoad 2).length = 3 := by
  obtain ⟨herror, hsized, hlength⟩ := decode_baseLoad
  have hrun : baseLoad.toList.takeWhile (isPrefixByte .bits32) = [] := rfl
  obtain ⟨herror', hmatches, hshorter⟩ := decode_dual (.inr ⟨rfl, rfl⟩) .any baseLoad 0
    (by simp [hrun]) herror hsized
  rw [hlength] at hshorter
  exact ⟨herror, hsized, herror', hmatches, Nat.add_right_cancel hshorter⟩

end X86
