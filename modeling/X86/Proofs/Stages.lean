import X86.Proofs.Streaming

/-!
The stages of a successful decode: an entry is found, its ModRM byte and its operands are read, and
the instruction is put together from what they left behind.
-/

namespace X86

namespace Instruction

def keeping (i : Instruction) (bs : List UInt8) : Instruction :=
  { i with bytes := some bs }

@[simp] theorem keeping_error (i : Instruction) (bs : List UInt8) :
    (i.keeping bs).error = i.error := rfl
@[simp] theorem keeping_length (i : Instruction) (bs : List UInt8) :
    (i.keeping bs).length = i.length := rfl
@[simp] theorem keeping_offset (i : Instruction) (bs : List UInt8) :
    (i.keeping bs).offset = i.offset := rfl
@[simp] theorem keeping_bytes (i : Instruction) (bs : List UInt8) :
    (i.keeping bs).bytes = some bs := rfl

end Instruction

theorem decodeAt_keep (t : Target) (source : Source) (offset : Nat) (pc : UInt64) :
    decodeAt t source offset pc true =
      (Decode.run instructionTable t source offset pc).1.keeping
        (Decode.run instructionTable t source offset pc).2.consumedBytes := rfl

theorem decodeAt_drop (t : Target) (source : Source) (offset : Nat) (pc : UInt64) :
    decodeAt t source offset pc false = (Decode.run instructionTable t source offset pc).1 := rfl

theorem decodeAt_error (t : Target) (source : Source) (offset : Nat) (pc : UInt64) (keep : Bool) :
    (decodeAt t source offset pc keep).error =
      (Decode.run instructionTable t source offset pc).1.error := by
  cases keep with
  | true => rw [decodeAt_keep, Instruction.keeping_error]
  | false => rw [decodeAt_drop]

theorem decodeAt_length (t : Target) (source : Source) (offset : Nat) (pc : UInt64) (keep : Bool) :
    (decodeAt t source offset pc keep).length =
      (Decode.run instructionTable t source offset pc).1.length := by
  cases keep with
  | true => rw [decodeAt_keep, Instruction.keeping_length]
  | false => rw [decodeAt_drop]

namespace Decode

open Lookup (Entry Table)

@[simp] theorem throw_ok {s s' : State} {e : Fault} {b : α} :
    (throw e : Decode α) s = .ok b s' ↔ False := by
  change EStateM.Result.error e s = .ok b s' ↔ _
  simp

@[simp] theorem get_ok {s s' s'' : State} : (get : Decode State) s = .ok s' s'' ↔ s = s' ∧ s = s'' := by
  change EStateM.Result.ok s s = .ok s' s'' ↔ _
  simp

@[simp] theorem modify_ok {f : State → State} {s s' : State} {u : Unit} :
    (modify f : Decode Unit) s = .ok u s' ↔ f s = s' := by
  change EStateM.Result.ok () (f s) = .ok u s' ↔ _
  simp

theorem read_ok {m : Read α} {s s' : State} {a : α} :
    read m s = .ok a s' ↔ ∃ c, m s.cursor = .ok a c ∧ s' = { s with cursor := c } := by
  unfold read
  cases m s.cursor with
  | ok b c =>
    simp only [EStateM.Result.ok.injEq]
    constructor
    · rintro ⟨rfl, rfl⟩
      exact ⟨c, ⟨rfl, rfl⟩, rfl⟩
    · rintro ⟨_, ⟨rfl, rfl⟩, rfl⟩
      exact ⟨rfl, rfl⟩
  | error e c => simp

def frameOf (t : Target) (e : Entry) (s : State) : Frame where
  mode := t.mode
  operandSize := operandSizeOf t.mode s.prefixes e.flags
  addressSize := t.mode.addressSize s.prefixes.addressSize
  rex := s.prefixes.rex
  opcode := s.opcode

def assemble (t : Target) (pc : UInt64) (e : Entry) (s : State) (operands : Vector Operand 4)
    (length : Nat) : Instruction :=
  foldPause <| foldNop {
    mnemonic := e.mnemonic
    opcode := s.opcode
    offset := pc
    length
    mode := t.mode
    operandSize := (frameOf t e s).operandSize
    addressSize := (frameOf t e s).addressSize
    prefixes := reportedPrefixes e.flags s.prefixes
    operands := operands.map (settleTarget (pc + UInt64.ofNat length))
    isFar := e.flags.isFar
    isNear := e.flags.isNear
    flags := e.flags }

/-- The ModRM byte of an entry is read before its operands. -/
def fetchModRM (e : Entry) : Decode Unit :=
  if e.flags.hasModRM then discard modRM else pure ()

theorem complete_run (t : Target) (pc : UInt64) (e : Entry) (s : State) :
    complete t pc e s =
      if t.mode.is64 && e.flags.invalid64 then .error .invalidIn64BitMode s
      else (do
        fetchModRM e
        let ops ← operands (frameOf t e s) e.operands
        pure (assemble t pc e s ops (← get).cursor.consumed)) s := by
  unfold complete fetchModRM
  cases t.mode.is64 && e.flags.invalid64 with
  | true => rfl
  | false =>
    cases e.flags.hasModRM with
    | true => rfl
    | false => rfl

theorem complete_ok {t : Target} {pc : UInt64} {e : Entry} {s s' : State} {i : Instruction} :
    complete t pc e s = .ok i s' ↔
      (t.mode.is64 && e.flags.invalid64) = false ∧
      ∃ s₁ ops, fetchModRM e s = .ok () s₁ ∧ operands (frameOf t e s) e.operands s₁ = .ok ops s' ∧
        assemble t pc e s ops s'.cursor.consumed = i := by
  rw [complete_run]
  cases t.mode.is64 && e.flags.invalid64 with
  | true => simp
  | false =>
    simp only [Bool.false_eq_true, ↓reduceIte, bind_ok, get_ok, pure_ok, true_and]
    constructor
    · rintro ⟨_, s₁, hm, ops, _, hops, _, _, ⟨rfl, rfl⟩, rfl, rfl⟩
      exact ⟨s₁, ops, hm, hops, rfl⟩
    · rintro ⟨s₁, ops, hm, hops, rfl⟩
      exact ⟨(), s₁, hm, ops, s', hops, s', s', ⟨rfl, rfl⟩, rfl, rfl⟩

theorem instruction_ok {table : Table} {t : Target} {pc : UInt64} {s s' : State} {i : Instruction} :
    instruction table t pc s = .ok i s' ↔
      ∃ e s₁, entry table t s = .ok e s₁ ∧ complete t pc e s₁ = .ok i s' ∧
        s'.cursor.consumed ≤ maxLength := by
  unfold instruction
  simp only [bind_ok, get_ok]
  constructor
  · rintro ⟨e, s₁, he, j, s₂, hc, _, _, ⟨rfl, rfl⟩, h⟩
    by_cases hl : maxLength < s₂.cursor.consumed
    · simp only [hl, ↓reduceIte, bind_ok, throw_ok, false_and, exists_false] at h
    · obtain ⟨rfl, rfl⟩ : j = i ∧ s₂ = s' := by simpa only [hl, ↓reduceIte, pure_ok] using h
      exact ⟨e, s₁, he, hc, Nat.not_lt.mp hl⟩
  · rintro ⟨e, s₁, he, hc, hl⟩
    refine ⟨e, s₁, he, i, s', hc, s', s', ⟨rfl, rfl⟩, ?_⟩
    simp only [Nat.not_lt.mpr hl, ↓reduceIte, pure_ok, and_self]

section Assemble

variable (t : Target) (pc : UInt64) (e : Entry) (s : State) (ops : Vector Operand 4) (n : Nat)

@[simp] theorem assemble_error : (assemble t pc e s ops n).error = none := by
  unfold assemble foldPause foldNop
  split <;> split <;> rfl

@[simp] theorem assemble_length : (assemble t pc e s ops n).length = n := by
  unfold assemble foldPause foldNop
  split <;> split <;> rfl

@[simp] theorem assemble_offset : (assemble t pc e s ops n).offset = pc := by
  unfold assemble foldPause foldNop
  split <;> split <;> rfl

@[simp] theorem assemble_bytes : (assemble t pc e s ops n).bytes = none := by
  unfold assemble foldPause foldNop
  split <;> split <;> rfl

@[simp] theorem assemble_opcode : (assemble t pc e s ops n).opcode = s.opcode := by
  unfold assemble foldPause foldNop
  split <;> split <;> rfl

@[simp] theorem assemble_flags : (assemble t pc e s ops n).flags = e.flags := by
  unfold assemble foldPause foldNop
  split <;> split <;> rfl

@[simp] theorem assemble_mode : (assemble t pc e s ops n).mode = t.mode := by
  unfold assemble foldPause foldNop
  split <;> split <;> rfl

@[simp] theorem assemble_operandSize :
    (assemble t pc e s ops n).operandSize = (frameOf t e s).operandSize := by
  unfold assemble foldPause foldNop
  split <;> split <;> rfl

@[simp] theorem assemble_addressSize :
    (assemble t pc e s ops n).addressSize = (frameOf t e s).addressSize := by
  unfold assemble foldPause foldNop
  split <;> split <;> rfl

theorem assemble_mnemonic :
    (assemble t pc e s ops n).mnemonic = e.mnemonic ∨ (assemble t pc e s ops n).mnemonic = .NOP ∨
      (assemble t pc e s ops n).mnemonic = .PAUSE := by
  unfold assemble foldPause foldNop
  split <;> split <;> simp

/-- The operands are those read, with their targets settled, unless the instruction is the idle
exchange. -/
theorem assemble_operands :
    (assemble t pc e s ops n).operands = ops.map (settleTarget (pc + UInt64.ofNat n)) ∨
    (isIdleExchange e.mnemonic s.opcode (ops.map (settleTarget (pc + UInt64.ofNat n))) = true ∧
      (assemble t pc e s ops n).operands = noOperands) := by
  unfold assemble foldPause foldNop
  split
  · next h =>
    right
    refine ⟨h, ?_⟩
    split <;> rfl
  · left
    split <;> rfl

end Assemble

section Run

variable {table : Table} {t : Target} {pc : UInt64} {source : Source} {offset : Nat}

theorem run_of_ok {i : Instruction} {s : State}
    (h : instruction table t pc { cursor := .ofStart source offset } = .ok i s) :
    run table t source offset pc = (i, s.cursor) := by
  simp [run, conclude, h]

theorem run_of_error {e : Fault} {s : State}
    (h : instruction table t pc { cursor := .ofStart source offset } = .error e s) :
    run table t source offset pc = (failure t pc e s, s.cursor) := by
  simp [run, conclude, h]

end Run

theorem run_mode (table : Table) (t : Target) (source : Source) (offset : Nat) (pc : UInt64) :
    (run table t source offset pc).1.mode = t.mode := by
  cases hi : instruction table t pc { cursor := .ofStart source offset } with
  | ok i s =>
    obtain ⟨e, s₁, -, hc, -⟩ := instruction_ok.mp hi
    obtain ⟨-, s₂, ops, -, -, rfl⟩ := complete_ok.mp hc
    rw [run_of_ok hi]
    exact assemble_mode ..
  | error fault s =>
    rw [run_of_error hi]
    rfl

end Decode

theorem decodeAt_mode (t : Target) (source : Source) (offset : Nat) (pc : UInt64) (keep : Bool) :
    (decodeAt t source offset pc keep).mode = t.mode := by
  cases keep with
  | true => exact Decode.run_mode ..
  | false => exact Decode.run_mode ..

end X86
