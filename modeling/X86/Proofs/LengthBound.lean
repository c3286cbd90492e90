import X86.Proofs.Layout
import X86.Proofs.Partition
import X86.Proofs.PrefixRuns

/-!
How far one decode can get. A scan of prefixes stops after fifteen bytes, but what follows it is read
before its length is looked at. Each stage is given the number of bytes it reads at most; the ModRM
byte is read once by whichever stage comes first, and so is counted ahead of all stages. Over all
definitions the stages behind the prefixes come to ten bytes.
-/

namespace X86

open Lookup

namespace Width

def byteLimit : Width → Nat
  | unsized => 0
  | b => 1
  | w => 2
  | d | z => 4
  | q | t | dq | v | y | p | native => 8

theorem bits_div_le (width : Width) (operandSize : Nat) (mode64 : Bool) :
    min (width.bits operandSize mode64 / 8) 8 ≤ width.byteLimit := by
  cases width with
  | z =>
    simp only [bits, byteLimit]
    split <;> decide
  | unsized | b | w | d => simp [bits, byteLimit]
  | q | t | dq | v | y | p | native => exact Nat.min_le_right _ _

end Width

def Template.byteLimit : Template → Nat
  | regMem _ | mem _ | mmxRegMem _ | xmmRegMem _ => 5
  | imm width | immSigned width => width.byteLimit
  | relative _ => 4
  | offset _ => 8
  | farPointer => 6
  | _ => 0

theorem Template.hasModRM_of_suits {hasModRM : Bool} {τ : Template}
    (h : τ.suits hasModRM = true) (huses : τ.usesModRM = true) : hasModRM = true := by
  cases τ <;> simp_all [suits, usesModRM]

/-- Whether an encoding has eleven bytes at most, prefixes apart, and three of them in the opcode. -/
def Lookup.Definition.isBounded (d : Definition) : Bool :=
  d.opcodeBytes.length ≤ 3 &&
    d.opcodeBytes.length + (if d.entryFlags.hasModRM then 1 else 0) +
      (d.templates.map Template.byteLimit).sum ≤ 11

theorem definitions_isBounded : definitions.all Definition.isBounded = true := by
  decide +kernel

namespace Decode

/-- The position behind the ModRM byte, if one is due, whether it has been read yet or not. -/
def State.reach (due : Bool) (s : State) : Nat :=
  s.cursor.position + if due && s.modRM.isNone then 1 else 0

theorem State.position_le_reach (due : Bool) (s : State) : s.cursor.position ≤ s.reach due :=
  Nat.le_add_right _ _

theorem State.reach_fetched (s : State) : s.fetched.reach true ≤ s.reach true := by
  obtain ⟨⟨p, x, o⟩, c⟩ := s
  cases x with
  | some m => exact Nat.le_refl _
  | none =>
    cases h : c.source.get? c.position with
    | none => simp [fetched, h]
    | some b => simp [fetched, h, reach, Cursor.advance]

/-- A computation reads `k` bytes at most, apart from a ModRM byte that is due, and finds no fault with
the length of the instruction. -/
structure Within (due : Bool) (k : Nat) (m : Decode α) : Prop where
  reach (s : State) : (stop (m s)).reach due ≤ s.reach due + k
  fault (s s' : State) : m s ≠ .error .tooLong s'

namespace Within

variable {due : Bool} {k l : Nat}

theorem pure (a : α) : Within due 0 (pure a) :=
  ⟨fun _ => Nat.le_refl _, fun _ _ h => by cases h⟩

theorem throw {e : Fault} (he : e ≠ .tooLong) : Within due 0 (throw e : Decode α) :=
  ⟨fun _ => Nat.le_refl _, fun _ _ h => he (EStateM.Result.error.inj h).1⟩

theorem mono {m : Decode α} (h : Within due k m) (hkl : k ≤ l) : Within due l m :=
  ⟨fun s => Nat.le_trans (h.reach s) (Nat.add_le_add_left hkl _), h.fault⟩

theorem modify {f : State → State} (hf : ∀ s, (f s).reach due = s.reach due) :
    Within due 0 (modify f) :=
  ⟨fun s => Nat.le_of_eq (hf s), fun _ _ h => by cases h⟩

theorem get {m : State → Decode α} (h : ∀ s, Within due k (m s)) : Within due k (get >>= m) :=
  ⟨fun s => (h s).reach s, fun s s' => (h s).fault s s'⟩

theorem bind {m : Decode α} {f : α → Decode β} (hm : Within due k m) (hf : ∀ a, Within due l (f a)) :
    Within due (k + l) (m >>= f) := by
  refine ⟨fun s => ?_, fun s s' h => ?_⟩
  · have hms := hm.reach s
    rw [bind_run]
    cases hr : m s with
    | ok a s₁ =>
      rw [hr, stop_ok] at hms
      have hfs := (hf a).reach s₁
      show (stop (f a s₁)).reach due ≤ _
      omega
    | error e s₁ =>
      rw [hr, stop_error] at hms
      show s₁.reach due ≤ _
      omega
  · rw [bind_run] at h
    cases hr : m s with
    | ok a s₁ =>
      rw [hr] at h
      exact (hf a).fault s₁ s' h
    | error e s₁ =>
      rw [hr] at h
      exact hm.fault s s₁ ((EStateM.Result.error.inj h).1 ▸ hr)

theorem ite {p : Prop} [Decidable p] {m n : Decode α} (hm : Within due k m) (hn : Within due k n) :
    Within due k (if p then m else n) := by
  split
  · exact hm
  · exact hn

theorem orElse {m next : Decode α} {restore : PrefixState → PrefixState} (hm : Within due k m)
    (hn : Within due l next) : Within due (k + l) (orElse m restore next) := by
  have hcases (s : State) : Decode.orElse m restore next s = m s ∨
      ∃ s₁, m s = .error .unknownOpcode s₁ ∧
        Decode.orElse m restore next s = next (setPrefixes restore s₁) := by
    unfold Decode.orElse
    split
    · next s₁ h => exact Or.inr ⟨s₁, h, rfl⟩
    · exact Or.inl rfl
  refine ⟨fun s => ?_, fun s s' => ?_⟩
  · have hms := hm.reach s
    obtain h | ⟨s₁, hfail, h⟩ := hcases s
    · rw [h]
      omega
    · rw [hfail, stop_error] at hms
      have hns : (stop (next (setPrefixes restore s₁))).reach due ≤ s₁.reach due + l :=
        hn.reach (setPrefixes restore s₁)
      rw [h]
      omega
  · obtain h | ⟨s₁, -, h⟩ := hcases s
    · rw [h]
      exact hm.fault s s'
    · rw [h]
      exact hn.fault _ s'

theorem read_byte : Within due 1 (read Read.byte) := by
  refine ⟨fun s => ?_, fun s s' => ?_⟩
  · rw [read_byte_run]
    cases s.cursor.source.get? s.cursor.position with
    | none => exact Nat.le_add_right _ 1
    | some b =>
      show s.cursor.position + 1 + _ ≤ s.cursor.position + _ + 1
      rw [Nat.add_right_comm]
      exact Nat.le_refl _
  · rw [read_byte_run]
    cases s.cursor.source.get? s.cursor.position with
    | none => simp
    | some b => simp

theorem modRM : Within true 0 modRM := by
  refine ⟨fun s => ?_, fun s s' => ?_⟩
  · rw [modRM_run]
    cases s.peek with
    | none => exact Nat.le_refl _
    | some m => exact s.reach_fetched
  · rw [modRM_run]
    cases s.peek with
    | none => simp
    | some m => simp

/-! Reads behind the opcode. -/

theorem read_bind {m : Read α} {f : α → Read β} (hm : Within due k (read m))
    (hf : ∀ a, Within due l (read (f a))) : Within due (k + l) (read (m >>= f)) := by
  rw [read_bind_eq]
  exact hm.bind hf

theorem read_pure (a : α) : Within due 0 (read (Pure.pure a)) :=
  pure a

theorem read_bytes (n : Nat) : Within due n (read (Read.bytes n)) := by
  induction n with
  | zero => exact read_pure []
  | succ n ih =>
    refine (read_bind read_byte fun b => read_bind ih fun bs => read_pure (b :: bs)).mono ?_
    omega

theorem read_unsigned (width : Nat) : Within due (min width 8) (read (Read.unsigned width)) :=
  read_bind (read_bytes _) fun bs => read_pure (Word.littleEndian bs)

theorem read_signed {width : Nat} (h : width ≤ k) : Within due k (read (Read.signed width)) :=
  (read_bind (read_unsigned width) fun n => read_pure (Word.signExtend (8 * width) n)).mono
    (Nat.le_trans (Nat.min_le_left _ _) h)

theorem read_displaced {width : Nat} (h : width ∈ [0, 1, 2, 4]) (m : MemoryOperand) :
    Within due 4 (read (Read.displaced width m)) := by
  have hle : width ≤ 4 := by
    simp only [List.mem_cons, List.not_mem_nil, or_false] at h
    omega
  unfold Read.displaced
  split
  · exact (read_pure m).mono (Nat.zero_le 4)
  · exact read_bind (read_signed hle) fun d => read_pure _

/-- An address takes a SIB byte and four bytes of displacement at most. -/
theorem read_memory (m : ModRM) (rex : Rex) (addressSize : Nat) (mode64 : Bool) (size : Nat) :
    Within due 5 (read (Read.memory m rex addressSize mode64 size)) := by
  have h16 (o : MemoryOperand) : Within due 5 (read (Read.displaced m.displacement16 o)) :=
    (read_displaced (Read.displacement16_mem m) o).mono (by decide)
  have h32 (o : MemoryOperand) : Within due 4 (read (Read.displaced m.displacement32 o)) :=
    read_displaced (Read.displacement32_mem m) o
  unfold Read.memory Read.memory16
  split
  · split <;> exact h16 _
  · split
    · refine (read_bind (l := 4) read_byte fun b => ?_)
      dsimp only
      split
      · exact read_displaced (by decide) _
      · exact h32 _
    · split <;> exact (h32 _).mono (by decide)

theorem memory (f : Frame) (m : ModRM) (width : Width) : Within due 5 (f.memory m width) :=
  (read_memory _ _ _ _ _).bind fun _ => pure _

theorem registerOrMemory (f : Frame) (width : Width) (r : ModRM → Register) :
    Within true 5 (f.registerOrMemory width r) :=
  (modRM.bind fun m => ite ((pure _).mono (by decide)) (memory f m width)).mono (by decide)

theorem registerField (r : ModRM → Register) : Within true 0 (Frame.registerField r) :=
  modRM.bind fun _ => pure _

theorem registerOnly (r : ModRM → Register) : Within true 0 (Frame.registerOnly r) :=
  modRM.bind fun _ => ite (pure _) (throw (by decide))

theorem segmentRegister : Within true 0 Frame.segmentRegister := by
  refine modRM.bind (l := 0) fun m => ?_
  split
  · exact pure _
  · exact throw (by decide)

theorem immediate (f : Frame) (width : Width) (signExtended : Bool) :
    Within due width.byteLimit (f.immediate width signExtended) :=
  ((read_unsigned _).bind fun _ => pure _).mono (width.bits_div_le f.operandSize f.mode.is64)

theorem relative (f : Frame) (width : Width) : Within due 4 (f.relative width) := by
  have hle : Frame.relativeBytes (f.bits width) ≤ 4 := by
    unfold Frame.relativeBytes
    split <;> decide
  exact (read_signed hle).bind fun _ => pure _

theorem farPointer (f : Frame) : Within due 6 f.farPointer := by
  refine ((read_unsigned _).bind fun _ => (read_unsigned 2).bind fun _ => pure _).mono ?_
  split <;> decide

theorem operand (f : Frame) {τ : Template} (h : τ.usesModRM = true → due = true) :
    Within due τ.byteLimit (f.operand τ) := by
  cases τ with
  | absent | st0 | fixed | sized | opcodeReg | constant => exact pure _
  | imm | immSigned => exact immediate f _ _
  | relative => exact relative f _
  | offset => exact ((read_unsigned _).bind fun _ => pure _).mono (Nat.min_le_right _ _)
  | farPointer => exact farPointer f
  | regMem | mmxRegMem | xmmRegMem =>
    obtain rfl := h rfl
    exact registerOrMemory f _ _
  | mem width =>
    obtain rfl := h rfl
    exact (modRM.bind fun m => ite ((throw (by decide)).mono (by decide)) (memory f m width)).mono
      (Nat.le_refl 5)
  | reg | rmReg | control | debug | mmxReg | xmmReg | stRm =>
    obtain rfl := h rfl
    exact registerField _
  | mmxRm | xmmRm =>
    obtain rfl := h rfl
    exact registerOnly _
  | segment =>
    obtain rfl := h rfl
    exact segmentRegister

theorem operands (f : Frame) {τs : Vector Template 4}
    (h : ∀ τ ∈ τs.toList, τ.usesModRM = true → due = true) :
    Within due (τs.toList.map Template.byteLimit).sum (operands f τs) := by
  rw [toList_of_four] at h ⊢
  simp only [List.forall_mem_cons] at h
  obtain ⟨h₀, h₁, h₂, h₃, -⟩ := h
  refine ((operand f h₀).bind fun _ => (operand f h₁).bind fun _ => (operand f h₂).bind fun _ =>
    (operand f h₃).bind fun _ => pure _).mono ?_
  simp

theorem complete (t : Target) (pc : UInt64) {e : Entry}
    (h : ∀ τ ∈ e.operands.toList, τ.usesModRM = true → e.flags.hasModRM = true) :
    Within e.flags.hasModRM (e.operands.toList.map Template.byteLimit).sum (complete t pc e) := by
  have hfetch : Within e.flags.hasModRM 0 (fetchModRM e) := by
    unfold fetchModRM
    split
    · next hflag =>
      rw [hflag]
      exact modRM.bind fun _ => pure _
    · exact pure _
  have hrest (s : State) := hfetch.bind fun _ => (operands (frameOf t e s) h).bind fun ops =>
    get fun s' => pure (assemble t pc e s ops s'.cursor.consumed)
  refine ⟨fun s => ?_, fun s s' => ?_⟩
  · rw [complete_run]
    split
    · exact Nat.le_add_right _ _
    · exact Nat.le_trans ((hrest s).reach s) (by omega)
  · rw [complete_run]
    split
    · simp
    · exact (hrest s).fault s s'

/-! The descent. -/

theorem slotOn_opcode (t : Target) : Within true 1 (slotOn t .opcode) :=
  mono (bind read_byte fun _ => bind (modify fun _ => rfl) fun _ => pure _) (Nat.le_refl 1)

theorem slotOn (t : Target) {a : Axis} (h : a ≠ .opcode) : Within true 0 (slotOn t a) := by
  cases a with
  | opcode => exact absurd rfl h
  | reg | mod | rm => exact modRM.bind fun m => pure _
  | operandSize | addressSize => exact get fun s => pure _
  | mode | mandatory | vendor => exact pure _

/-- Below a node only the opcode bytes of its routes are read, also by a descent that fails. -/
theorem resolve {n : Node} {rs : List Route} (h : branching.Holds n rs)
    (hk : ∀ r ∈ rs, (Step.opcodeBytes r.steps).length ≤ k) (t : Target) :
    Within true k (resolve t n) := by
  induction h generalizing k with
  | empty =>
    rw [resolve_empty]
    exact (throw (by decide)).mono (Nat.zero_le k)
  | leaf e =>
    rw [resolve_leaf]
    exact (pure e).mono (Nat.zero_le k)
  | @table a slots rs width fit clear cause slot ih =>
    have hslot (i : Nat) {l : Nat}
        (hl : ∀ r ∈ Route.through a i rs, (Step.opcodeBytes r.steps).length ≤ l) :
        Within true l (Decode.resolve t (slots.getD i .empty)) := by
      by_cases hi : i < a.slotCount
      · exact ih i hi hl
      · have hnone : slots[i]? = none := List.getElem?_eq_none (width ▸ Nat.not_lt.mp hi)
        rw [List.getD_eq_getElem?_getD, hnone, Option.getD_none, resolve_empty]
        exact (throw (by decide)).mono (Nat.zero_le l)
    by_cases ho : a = .opcode
    · subst ho
      obtain ⟨r, hr, hsel⟩ := cause
      have hpos : 0 < k := by
        have hne := Route.selects_opcode.mp hsel
        exact Nat.lt_of_lt_of_le (List.length_pos_iff.mpr hne) (hk r hr)
      rw [resolve_axis t slots (by decide) (by decide)]
      refine ((slotOn_opcode t).bind fun i => hslot i (l := k - 1) fun r' hr' => ?_).mono (by omega)
      obtain ⟨r, hr, ht⟩ := Route.mem_through.mp hr'
      have hle := hk r hr
      obtain heq | ⟨hnil, rfl⟩ := Route.opcodeBytes_through_opcode ht
      · rw [heq, List.length_cons] at hle
        omega
      · rw [hnil]
        exact Nat.zero_le _
    · -- no opcode byte is left, so every slot reads nothing but ModRM
      have hsub (i : Nat) : Within true 0 (Decode.resolve t (slots.getD i .empty)) := by
        refine hslot i fun r' hr' => ?_
        obtain ⟨r, hr, ht⟩ := Route.mem_through.mp hr'
        have hnone := clear r hr .opcode (Axis.closes_opcode ho)
        rw [Route.selects_opcode, ne_eq, not_not] at hnone
        rw [Route.opcodeBytes_through ht ho, hnone]
        exact Nat.le_refl 0
      refine mono ?_ (Nat.zero_le k)
      cases a with
      | opcode => exact absurd rfl ho
      | mandatory =>
        have hsized : Within true 0 (resolveSized t slots) :=
          get fun s => ite (mono (orElse (bind (modify fun _ => rfl) fun _ => hsub 1) (hsub 0))
            (Nat.le_refl 0)) (hsub 0)
        rw [resolve_mandatory]
        refine get fun s => ?_
        split
        · exact mono (orElse (bind (modify fun _ => rfl) fun _ => hsub _) hsized) (Nat.le_refl 0)
        · exact hsized
      | vendor =>
        rw [resolve_vendor]
        exact hsub _
      | reg | mod | rm | mode | operandSize | addressSize =>
        rw [resolve_axis t slots (by decide) (by decide)]
        exact (slotOn t (by decide)).bind hsub

end Within

theorem within_child (t : Target) (first : UInt8) :
    Within true 2 (resolve t (instructionTable.root.child first.toNat)) := by
  refine Within.resolve (instructionTable_child_holds first) (fun r' hr' => ?_) t
  obtain ⟨d, hd, hbytes, -⟩ := exists_definition hr'
  have hbounded := List.all_eq_true.mp definitions_isBounded d (List.mem_of_getElem? hd)
  rw [Definition.isBounded, Bool.and_eq_true, decide_eq_true_eq, hbytes, List.length_cons] at hbounded
  omega

/-- A scan of prefixes keeps to its budget, and finds the instruction too long only if the budget is
used up. -/
theorem scanPrefixes_reach (mode : Mode) (budget : Nat) (s : State) :
    (stop (scanPrefixes mode budget s)).cursor.position ≤ s.cursor.position + budget ∧
    ∀ s', scanPrefixes mode budget s = .error .tooLong s' →
      s'.cursor.position = s.cursor.position + budget := by
  induction budget generalizing s with
  | zero =>
    refine ⟨Nat.le_refl _, fun s' h => ?_⟩
    obtain ⟨-, rfl⟩ := EStateM.Result.error.inj h
    rfl
  | succ budget ih =>
    cases hb : s.cursor.source.get? s.cursor.position with
    | none =>
      have hrun : scanPrefixes mode (budget + 1) s = .error .truncated s := by
        rw [scanPrefixes, bind_run, read_byte_run, hb]
      rw [hrun]
      exact ⟨Nat.le_add_right _ _, fun s' h => by cases h⟩
    | some b =>
      cases hp : s.prefixes.absorb? mode b with
      | some p =>
        rw [scanPrefixes_absorb hb hp]
        obtain ⟨hle, heq⟩ := ih { s with cursor := s.cursor.advance, prefixes := p }
        refine ⟨Nat.le_trans hle ?_, fun s' h => (heq s' h).trans ?_⟩
        · show s.cursor.position + 1 + budget ≤ _
          omega
        · show s.cursor.position + 1 + budget = _
          omega
      | none =>
        have hrun : scanPrefixes mode (budget + 1) s = .ok b (s.on s.cursor.advance) := by
          rw [scanPrefixes, bind_run, read_byte_run, hb]
          simp only [bind_run, get_run, State.on_prefixes, hp]
          rfl
        rw [hrun]
        refine ⟨?_, fun s' h => by cases h⟩
        show s.cursor.position + 1 ≤ _
        omega

section Instruction

variable {t : Target} {pc : UInt64} {s : State}

theorem exists_search {table : Table}
    (hchild : ∀ first : UInt8, Within true 2 (resolve t (table.root.child first.toNat))) :
    ∃ search : UInt8 → Decode Entry, (∀ first, Within true 2 (search first)) ∧
      entry table t = scanPrefixes t.mode maxLength >>= search := by
  refine ⟨_, fun first => ?_, rfl⟩
  refine .mono (.bind (.modify fun _ => rfl) fun _ => .bind (l := 0) (hchild first) fun n => ?_)
    (Nat.le_refl 2)
  split
  · exact .pure _
  · exact .throw (by decide)

/-- Up to where an entry is found, or is missing, three bytes are read behind the prefixes at most. Only
the prefixes can be too long. -/
theorem entry_reach {table : Table}
    (hchild : ∀ first : UInt8, Within true 2 (resolve t (table.root.child first.toNat)))
    (hs : s.modRM = none) :
    (stop (entry table t s)).cursor.position ≤ s.cursor.position + maxLength + 3 ∧
    ∀ s', entry table t s = .error .tooLong s' →
      s'.cursor.position = s.cursor.position + maxLength := by
  obtain ⟨hscan, hlong⟩ := scanPrefixes_reach t.mode maxLength s
  obtain ⟨search, hsearch, hentry⟩ := exists_search hchild
  rw [hentry, bind_run]
  cases hfirst : scanPrefixes t.mode maxLength s with
  | error e s₁ =>
    rw [hfirst, stop_error] at hscan
    refine ⟨Nat.le_trans hscan (Nat.le_add_right _ 3), fun s' h => hlong s' ?_⟩
    obtain ⟨rfl, rfl⟩ := EStateM.Result.error.inj h
    exact hfirst
  | ok first s₁ =>
    rw [hfirst, stop_ok] at hscan
    have hdue : s₁.reach true = s₁.cursor.position + 1 := by
      rw [State.reach, (scanPrefixes_ok hfirst).1, hs]
      rfl
    refine ⟨Nat.le_trans (State.position_le_reach true _)
      (Nat.le_trans ((hsearch first).reach s₁) ?_), ?_⟩
    · omega
    · exact fun s' h => absurd h ((hsearch first).fault s₁ s')

theorem complete_reach (pc : UInt64) {e : Entry} {s₁ : State} (hs : s.modRM = none)
    (he : entry instructionTable t s = .ok e s₁) :
    (stop (complete t pc e s₁)).cursor.position ≤ s.cursor.position + 25 ∧
      ∀ s', complete t pc e s₁ ≠ .error .tooLong s' := by
  obtain ⟨first, s₀, n, d, hscan, hd, rfl, -, hfound⟩ := found_of_entry hs he
  obtain ⟨d', bs, s₂, hd', hbytes, hpast, m, -, hs₁⟩ := hfound
  obtain rfl : d = d' := Option.some.inj (hd.symm.trans hd')
  have hmem := List.mem_of_getElem? hd
  have hprefixes := (scanPrefixes_reach t.mode maxLength s).1
  rw [hscan, stop_ok] at hprefixes
  obtain ⟨hreads, -, hmodRM, -⟩ := State.past?_eq_some hpast
  have hposition : s₂.cursor.position = s₀.cursor.position + bs.length := hreads.position_eq
  have hreach : s₁.reach d.entry.flags.hasModRM ≤
      s₂.cursor.position + if d.entry.flags.hasModRM then 1 else 0 := by
    have hnone : s₂.modRM = none := hmodRM.trans ((scanPrefixes_ok hscan).1.trans hs)
    have hs₂ : s₂.reach d.entry.flags.hasModRM =
        s₂.cursor.position + if d.entry.flags.hasModRM then 1 else 0 := by
      rw [State.reach, hnone, Option.isNone_none, Bool.and_true]
    rw [← hs₂]
    obtain rfl | ⟨rfl, huses⟩ := hs₁
    · exact Nat.le_refl _
    · rw [hasModRM_of_usesModRM huses]
      exact s₂.reach_fetched
  have hsuits : ∀ τ ∈ d.entry.operands.toList,
      τ.usesModRM = true → d.entry.flags.hasModRM = true := by
    intro τ hτ huses
    have horderly := List.all_eq_true.mp definitions_isOrderly d hmem
    simp only [Definition.isOrderly, Bool.and_eq_true] at horderly
    rw [Definition.toList_entry_operands] at hτ
    have hτsuits := List.all_eq_true.mp horderly.1.2 τ hτ
    exact Template.hasModRM_of_suits hτsuits huses
  have hwithin := Within.complete t pc hsuits
  refine ⟨?_, hwithin.fault s₁⟩
  have hbounded := List.all_eq_true.mp definitions_isBounded d hmem
  rw [Definition.isBounded, Bool.and_eq_true, decide_eq_true_eq, decide_eq_true_eq, hbytes,
    List.length_cons, ← Definition.toList_entry_operands] at hbounded
  have hcomplete := Nat.le_trans (State.position_le_reach d.entry.flags.hasModRM _)
    (hwithin.reach s₁)
  have hflags : d.entry.flags = d.entryFlags := rfl
  have : maxLength = 15 := rfl
  rw [hflags] at hreach hcomplete
  omega

theorem instruction_reach (t : Target) (pc : UInt64) (hs : s.modRM = none) :
    (stop (instruction instructionTable t pc s)).cursor.position ≤ s.cursor.position + 25 ∧
    ∀ s', instruction instructionTable t pc s = .error .tooLong s' →
      s'.cursor.position = s.cursor.position + maxLength ∨ maxLength < s'.cursor.consumed := by
  cases he : entry instructionTable t s with
  | error fault s₁ =>
    have hrun : instruction instructionTable t pc s = .error fault s₁ := by
      rw [instruction, bind_run, he]
    obtain ⟨hle, hlong⟩ := entry_reach (within_child t) hs
    rw [he] at hle hlong
    rw [hrun]
    refine ⟨Nat.le_trans hle ?_, fun s' h => .inl (hlong s' ?_)⟩
    · show s.cursor.position + 15 + 3 ≤ _
      omega
    · obtain ⟨rfl, rfl⟩ := EStateM.Result.error.inj h
      rfl
  | ok e s₁ =>
    obtain ⟨hle, hshort⟩ := complete_reach pc hs he
    cases hc : complete t pc e s₁ with
    | error fault s₂ =>
      have hrun : instruction instructionTable t pc s = .error fault s₂ := by
        rw [instruction, bind_run, he]
        simp only [bind_run, hc]
      rw [hc] at hle hshort
      rw [hrun]
      refine ⟨hle, fun s' h => absurd ?_ (hshort s')⟩
      obtain ⟨rfl, rfl⟩ := EStateM.Result.error.inj h
      rfl
    | ok i s₂ =>
      rw [hc] at hle
      rw [instruction_of_complete he hc]
      split
      · next hlong =>
        refine ⟨hle, fun s' h => .inr ?_⟩
        obtain ⟨-, rfl⟩ := EStateM.Result.error.inj h
        exact hlong
      · exact ⟨hle, fun s' h => by cases h⟩

end Instruction

section Run

variable {t : Target} {pc : UInt64} {source : Source} {offset : Nat}

theorem position_run_le (t : Target) (source : Source) (offset : Nat) (pc : UInt64) :
    (run instructionTable t source offset pc).2.position ≤ offset + 25 := by
  have hle := (instruction_reach (s := { cursor := .ofStart source offset }) t pc rfl).1
  cases hi : instruction instructionTable t pc { cursor := .ofStart source offset } with
  | ok i s =>
    rw [run_of_ok hi]
    rwa [hi] at hle
  | error fault s =>
    rw [run_of_error hi]
    rwa [hi] at hle

theorem consumed_run_le (h : (run instructionTable t source offset pc).1.error = none) :
    (run instructionTable t source offset pc).2.consumed ≤ maxLength := by
  obtain ⟨i, s, hi, hrun⟩ := instruction_of_run h
  obtain ⟨-, -, -, -, hle⟩ := instruction_ok.mp hi
  rw [hrun]
  exact hle

theorem le_consumed_run (h : (run instructionTable t source offset pc).1.error = some .tooLong) :
    maxLength ≤ (run instructionTable t source offset pc).2.consumed := by
  obtain ⟨bs, hsettles⟩ := exists_settles instructionTable t pc source offset
  have hconsumed := hsettles.reads.consumed_eq
  have hposition := hsettles.reads.position_eq
  cases hi : instruction instructionTable t pc { cursor := .ofStart source offset } with
  | ok i s =>
    rw [run_of_ok hi, (instruction_ok_fields hi).1] at h
    cases h
  | error fault s =>
    rw [run_of_error hi] at h hconsumed hposition ⊢
    obtain rfl : fault = .tooLong := Option.some.inj h
    obtain hstop | hstop := (instruction_reach t pc rfl).2 s hi
    · have : s.cursor.position = offset + maxLength := hstop
      have : s.cursor.position = offset + bs.length := hposition
      show maxLength ≤ s.cursor.consumed
      have : s.cursor.consumed = bs.length := hconsumed
      omega
    · exact Nat.le_of_lt hstop

/-- Whether the scan leads to an instruction of the given length, which is not an allowed one. -/
def overruns (t : Target) (source : Source) (offset : Nat) (pc : UInt64) (length : Nat) : Bool :=
  match scanned? t pc { cursor := .ofStart source offset } with
  | some (_, s) => maxLength < s.cursor.consumed && s.cursor.consumed = length
  | none => false

theorem run_of_overruns {length : Nat} (h : overruns t source offset pc length = true) :
    (run instructionTable t source offset pc).1.error = some .tooLong ∧
      (run instructionTable t source offset pc).2.consumed = length := by
  unfold overruns at h
  cases hscanned : scanned? t pc { cursor := .ofStart source offset } with
  | none =>
    rw [hscanned] at h
    cases h
  | some x =>
    obtain ⟨i, s⟩ := x
    rw [hscanned] at h
    simp only [Bool.and_eq_true, decide_eq_true_eq] at h
    have hrun := instruction_of_scanned? rfl hscanned
    rw [if_pos h.1] at hrun
    rw [run_of_error hrun]
    exact ⟨rfl, h.2⟩

end Run

end Decode

/-- One decode is bounded. Its length is the number of bytes that it reads, all of them in the source,
and at most 25; an instruction has fifteen at most, only what has at least fifteen is too long, and
only what ends with the source is truncated. -/
theorem decodeAt_bounded (t : Target) {source : Source} {offset : Nat} (pc : UInt64) (keep : Bool)
    (h : offset < source.length) :
    let i := decodeAt t source offset pc keep
    i.length = (Decode.run instructionTable t source offset pc).2.consumed ∧
    offset + i.length ≤ source.length ∧ i.length ≤ 25 ∧
    (i.error = none → i.length ≤ 15) ∧
    (i.error = some .tooLong → 15 ≤ i.length) ∧
    (i.error = some .truncated → offset + i.length = source.length) := by
  intro i
  obtain ⟨bs, hsettles⟩ := Decode.exists_settles instructionTable t pc source offset
  have hconsumed := hsettles.reads.consumed_eq
  have hposition : (Decode.run instructionTable t source offset pc).2.position = offset + bs.length :=
    hsettles.reads.position_eq
  have hlength : i.length = (Decode.run instructionTable t source offset pc).2.consumed := by
    have hpos : 0 < bs.length := List.length_pos_iff.mpr (hsettles.ne_nil h)
    rw [decodeAt_length, hsettles.length_eq, hconsumed]
    omega
  obtain ⟨-, hle, htruncated, -⟩ := decodeAt_extent t pc keep h
  refine ⟨hlength, hle, ?_, fun he => ?_, fun he => ?_, htruncated⟩
  · have := Decode.position_run_le t source offset pc
    omega
  · rw [decodeAt_error] at he
    exact hlength ▸ Decode.consumed_run_le he
  · rw [decodeAt_error] at he
    exact hlength ▸ Decode.le_consumed_run he

/-- In 32-bit mode, an addition with a displacement and an immediate of four bytes each, behind as many
prefixes as a scan admits. -/
def overlongAdd : Array UInt8 :=
  #[0x2E, 0x2E, 0x2E, 0x2E, 0x2E, 0x2E, 0x2E, 0x2E, 0x2E, 0x2E, 0x2E, 0x2E, 0x2E, 0x2E,
    0x81, 0x84, 0x88, 0x78, 0x56, 0x34, 0x12, 0xEF, 0xBE, 0xAD, 0xDE]

/-- The bound of 25 bytes is reached. -/
theorem decodeAt_bounded_overlongAdd :
    0 < Source.length (.ofArray overlongAdd) ∧
    (decodeAt ⟨.bits32, .any⟩ (.ofArray overlongAdd) 0 0 true).error = some .tooLong ∧
    (decodeAt ⟨.bits32, .any⟩ (.ofArray overlongAdd) 0 0 true).length = 25 ∧
    15 ≤ (decodeAt ⟨.bits32, .any⟩ (.ofArray overlongAdd) 0 0 true).length := by
  obtain ⟨herror, hconsumed⟩ := Decode.run_of_overruns
    (show Decode.overruns ⟨.bits32, .any⟩ (.ofArray overlongAdd) 0 0 25 = true by decide +kernel)
  have hpos : 0 < Source.length (.ofArray overlongAdd) := by decide
  obtain ⟨hlength, -, -, -, hlong, -⟩ := decodeAt_bounded ⟨.bits32, .any⟩ 0 true hpos
  rw [decodeAt_error] at hlong ⊢
  exact ⟨hpos, herror, hlength.trans hconsumed, hlong herror⟩

end X86
