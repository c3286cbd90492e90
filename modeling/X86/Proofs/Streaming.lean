import X86.Decode.Basic
import X86.Proofs.Descent
import X86.Proofs.Reading

/-!
Decoding as a run over bytes. A computation streams if the bytes it reads settle what it does: over
another source with these bytes ahead it does the same, and over a source that ends within them it
stops at that end with `Fault.truncated`. Every stage of the decoder streams.
-/

namespace X86
namespace Decode

def State.on (s : State) (c : Cursor) : State :=
  { s with cursor := c }

@[simp] theorem State.on_cursor (s : State) (c : Cursor) : (s.on c).cursor = c := rfl
@[simp] theorem State.on_prefixes (s : State) (c : Cursor) : (s.on c).prefixes = s.prefixes := rfl
@[simp] theorem State.on_modRM (s : State) (c : Cursor) : (s.on c).modRM = s.modRM := rfl
@[simp] theorem State.on_opcode (s : State) (c : Cursor) : (s.on c).opcode = s.opcode := rfl

def stop : EStateM.Result Fault State α → State
  | .ok _ s => s
  | .error _ s => s

def moved (c : Cursor) : EStateM.Result Fault State α → EStateM.Result Fault State α
  | .ok a s => .ok a (s.on c)
  | .error e s => .error e (s.on c)

def Cut (r : EStateM.Result Fault State α) : Prop :=
  ∃ s, r = .error .truncated s

@[simp] theorem stop_ok (a : α) (s : State) : stop (.ok a s) = s := rfl
@[simp] theorem stop_error (e : Fault) (s : State) : stop (.error e s : EStateM.Result _ _ α) = s := rfl
@[simp] theorem moved_ok (c : Cursor) (a : α) (s : State) : moved c (.ok a s) = .ok a (s.on c) := rfl
@[simp] theorem moved_error (c : Cursor) (e : Fault) (s : State) :
    moved c (.error e s : EStateM.Result _ _ α) = .error e (s.on c) := rfl

@[simp] theorem not_cut_ok (a : α) (s : State) : ¬ Cut (.ok a s) := by
  simp [Cut]

@[simp] theorem cut_error {e : Fault} {s : State} :
    Cut (.error e s : EStateM.Result _ _ α) ↔ e = .truncated := by
  simp [Cut]

theorem bind_run (m : Decode α) (f : α → Decode β) (s : State) :
    (m >>= f) s = match m s with
      | .ok a s' => f a s'
      | .error e s' => .error e s' := by
  change EStateM.bind m f s = _
  unfold EStateM.bind
  cases m s <;> rfl

theorem get_run (s : State) : (get : Decode State) s = .ok s s := rfl

theorem read_bind_eq (m : Read α) (f : α → Read β) :
    read (m >>= f) = read m >>= fun a => read (f a) := by
  funext s
  rw [bind_run]
  change read (EStateM.bind m f) s = _
  simp only [read, EStateM.bind]
  cases m s.cursor <;> rfl

/-- What holds of reading a byte and of the ModRM byte, and of whatever is composed of them. -/
structure Composes (Q : (α : Type) → Decode α → Prop) : Prop where
  pure {α : Type} (a : α) : Q α (pure a)
  throw {α : Type} {e : Fault} : e ≠ .truncated → Q α (throw e)
  bind {α β : Type} {m : Decode α} {f : α → Decode β} :
    Q α m → (∀ a, Q β (f a)) → Q β (m >>= f)
  byte : Q UInt8 (read Read.byte)
  modRM : Q ModRM modRM

/-! Operands are composed of reads and of the ModRM byte. -/

namespace Composes

variable {Q : (α : Type) → Decode α → Prop}

theorem ite {p : Prop} [Decidable p] {m n : Decode α} (hm : Q α m) (hn : Q α n) :
    Q α (if p then m else n) := by
  split
  · exact hm
  · exact hn

variable (h : Composes Q)

include h

theorem read_pure (a : α) : Q α (read (Pure.pure a)) :=
  h.pure a

theorem read_bind {m : Read α} {f : α → Read β} (hm : Q α (read m)) (hf : ∀ a, Q β (read (f a))) :
    Q β (read (m >>= f)) := by
  rw [read_bind_eq]
  exact h.bind hm hf

theorem read_bytes (n : Nat) : Q _ (read (Read.bytes n)) := by
  induction n with
  | zero => exact h.read_pure []
  | succ n ih => exact h.read_bind h.byte fun b => h.read_bind ih fun bs => h.read_pure (b :: bs)

theorem read_unsigned (width : Nat) : Q _ (read (Read.unsigned width)) :=
  h.read_bind (h.read_bytes _) fun bs => h.read_pure (Word.littleEndian bs)

theorem read_signed (width : Nat) : Q _ (read (Read.signed width)) :=
  h.read_bind (h.read_unsigned width) fun n => h.read_pure (Word.signExtend (8 * width) n)

theorem read_displaced (width : Nat) (m : MemoryOperand) : Q _ (read (Read.displaced width m)) := by
  unfold Read.displaced
  split
  · exact h.read_pure m
  · exact h.read_bind (h.read_signed width) fun d => h.read_pure _

theorem read_memorySib (m : ModRM) (rex : Rex) (addressSize size : Nat) :
    Q _ (read (Read.memorySib m rex addressSize size)) := by
  refine h.read_bind h.byte fun b => ?_
  dsimp only
  split
  · exact h.read_displaced _ _
  · exact h.read_displaced _ _

theorem read_memory (m : ModRM) (rex : Rex) (addressSize : Nat) (mode64 : Bool) (size : Nat) :
    Q _ (read (Read.memory m rex addressSize mode64 size)) := by
  unfold Read.memory Read.memory16
  split
  · split <;> exact h.read_displaced _ _
  · split
    · exact h.read_memorySib m rex addressSize size
    · split <;> exact h.read_displaced _ _

theorem memory (f : Frame) (m : ModRM) (width : Width) : Q _ (f.memory m width) :=
  h.bind (h.read_memory _ _ _ _ _) fun _ => h.pure _

theorem registerOrMemory (f : Frame) (width : Width) (r : ModRM → Register) :
    Q _ (f.registerOrMemory width r) :=
  h.bind h.modRM fun m => ite (h.pure _) (h.memory f m width)

theorem registerField (r : ModRM → Register) : Q _ (Frame.registerField r) :=
  h.bind h.modRM fun _ => h.pure _

theorem registerOnly (r : ModRM → Register) : Q _ (Frame.registerOnly r) :=
  h.bind h.modRM fun _ => ite (h.pure _) (h.throw (by decide))

theorem immediate (f : Frame) (width : Width) (signExtended : Bool) :
    Q _ (f.immediate width signExtended) :=
  h.bind (h.read_unsigned _) fun _ => h.pure _

theorem segmentRegister : Q _ Frame.segmentRegister := by
  refine h.bind h.modRM fun m => ?_
  split
  · exact h.pure _
  · exact h.throw (by decide)

theorem operand (f : Frame) (template : Template) : Q _ (f.operand template) := by
  cases template with
  | absent | st0 | fixed | sized | opcodeReg | constant => exact h.pure _
  | regMem | mmxRegMem | xmmRegMem => exact h.registerOrMemory f _ _
  | mem width => exact h.bind h.modRM fun m => ite (h.throw (by decide)) (h.memory f m width)
  | reg | rmReg | control | debug | mmxReg | xmmReg | stRm => exact h.registerField _
  | mmxRm | xmmRm => exact h.registerOnly _
  | imm | immSigned => exact h.immediate f _ _
  | relative => exact h.bind (h.read_signed _) fun _ => h.pure _
  | offset => exact h.bind (h.read_unsigned _) fun _ => h.pure _
  | farPointer =>
    exact h.bind (h.read_unsigned _) fun _ => h.bind (h.read_unsigned 2) fun _ => h.pure _
  | segment => exact h.segmentRegister

theorem operands (f : Frame) (templates : Vector Template 4) : Q _ (operands f templates) :=
  h.bind (h.operand f _) fun _ => h.bind (h.operand f _) fun _ => h.bind (h.operand f _) fun _ =>
    h.bind (h.operand f _) fun _ => h.pure _

end Composes

/-- The run of `m` from `s` reads `bs`, and `bs` settles it. -/
structure Follows (m : Decode α) (s : State) (bs : List UInt8) : Prop where
  reads : s.cursor.Reads bs (stop (m s)).cursor
  ends : Cut (m s) → (stop (m s)).cursor.AtEnd
  replays : ∀ {d d' : Cursor}, s.cursor.Abreast d → d.Reads bs d' → (Cut (m s) → d'.AtEnd) →
    m (s.on d) = moved d' (m s)
  cuts : ∀ {d d' : Cursor} {u v : List UInt8}, bs = u ++ v → v ≠ [] → s.cursor.Abreast d →
    d.Reads u d' → d'.AtEnd → ∃ s', m (s.on d) = .error .truncated s' ∧ s'.cursor = d'

/-- Every run of `m` is settled by the bytes it reads. -/
def Streams (m : Decode α) : Prop :=
  ∀ s, ∃ bs, Follows m s bs

theorem follows_nil {m : Decode α} {s : State} (hs : (stop (m s)).cursor = s.cursor)
    (hcut : ¬ Cut (m s)) (hm : ∀ d, s.cursor.Abreast d → m (s.on d) = moved d (m s)) :
    Follows m s [] where
  reads := hs
  ends h := absurd h hcut
  replays hd hr _ := by
    rw [Cursor.reads_nil.mp hr]
    exact hm _ hd
  cuts he hv := absurd (List.append_eq_nil_iff.mp he.symm).2 hv

theorem Follows.andThen {m : Decode α} {m' n : Decode β} {s s₁ : State} {bs cs : List UInt8}
    (hm : Follows m s bs) (hs : (stop (m s)).cursor = s₁.cursor) (hcut : ¬ Cut (m s))
    (hn : Follows n s₁ cs) (hrun : m' s = n s₁)
    (hmove : ∀ d d', m (s.on d) = moved d' (m s) → m' (s.on d) = n (s₁.on d'))
    (hstop : ∀ d s', m (s.on d) = .error .truncated s' → m' (s.on d) = .error .truncated s') :
    Follows m' s (bs ++ cs) where
  reads := by
    rw [hrun]
    exact Cursor.reads_append.mpr ⟨s₁.cursor, hs ▸ hm.reads, hn.reads⟩
  ends h := by
    rw [hrun] at h ⊢
    exact hn.ends h
  replays {d d'} hd hr hend := by
    obtain ⟨d₁, hr₁, hr₂⟩ := Cursor.reads_append.mp hr
    have hd₁ : s₁.cursor.Abreast d₁ := hs ▸ hd.reads hm.reads hr₁
    rw [hmove d d₁ (hm.replays hd hr₁ fun h => absurd h hcut), hrun]
    exact hn.replays hd₁ hr₂ (hrun ▸ hend)
  cuts {d d' u v} he hv hd hr hend := by
    obtain ⟨w, rfl, hw⟩ | ⟨w, rfl, rfl⟩ := List.append_eq_append_iff.mp he.symm
    · cases w with
      | nil =>
        obtain rfl : cs = v := by simpa using hw.symm
        have hd₁ : s₁.cursor.Abreast d' := hs ▸ hd.reads hm.reads (by simpa using hr)
        rw [hmove d d' (hm.replays hd (by simpa using hr) fun h => absurd h hcut)]
        exact hn.cuts (u := []) rfl hv hd₁ rfl hend
      | cons b w =>
        obtain ⟨s', hs', hc⟩ := hm.cuts rfl (by simp) hd hr hend
        exact ⟨s', hstop d s' hs', hc⟩
    · obtain ⟨d₁, hr₁, hr₂⟩ := Cursor.reads_append.mp hr
      have hd₁ : s₁.cursor.Abreast d₁ := hs ▸ hd.reads hm.reads hr₁
      rw [hmove d d₁ (hm.replays hd hr₁ fun h => absurd h hcut)]
      exact hn.cuts rfl hv hd₁ hr₂ hend

theorem Follows.keep {m : Decode α} {m' : Decode β} {s : State} {bs : List UInt8}
    (hm : Follows m s bs) (hs : (stop (m' s)).cursor = (stop (m s)).cursor)
    (hcut : Cut (m' s) ↔ Cut (m s))
    (hmove : ∀ d d', m (s.on d) = moved d' (m s) → m' (s.on d) = moved d' (m' s))
    (hstop : ∀ d s', m (s.on d) = .error .truncated s' → m' (s.on d) = .error .truncated s') :
    Follows m' s bs where
  reads := hs ▸ hm.reads
  ends h := hs ▸ hm.ends (hcut.mp h)
  replays hd hr hend := hmove _ _ (hm.replays hd hr fun h => hend (hcut.mpr h))
  cuts he hv hd hr hend := by
    obtain ⟨s', hs', hc⟩ := hm.cuts he hv hd hr hend
    exact ⟨s', hstop _ s' hs', hc⟩

namespace Streams

theorem pure (a : α) : Streams (pure a) := fun _ =>
  ⟨[], follows_nil rfl (not_cut_ok a _) fun _ _ => rfl⟩

theorem throw {e : Fault} (he : e ≠ .truncated) : Streams (throw e : Decode α) := fun s =>
  ⟨[], follows_nil rfl (fun h => he ((cut_error (s := s)).mp h)) fun _ _ => rfl⟩

theorem modify {f : State → State} (hc : ∀ s, (f s).cursor = s.cursor)
    (hf : ∀ s c, f (s.on c) = (f s).on c) : Streams (modify f) := fun s =>
  ⟨[], follows_nil (hc s) (not_cut_ok _ _) fun d _ => congrArg (EStateM.Result.ok _) (hf s d)⟩

/-- What the state holds besides the cursor, and how many bytes are consumed, may decide how to go
on. -/
theorem get {k : State → Decode α} (hk : ∀ s d, s.cursor.Abreast d → k (s.on d) = k s)
    (hs : ∀ s, Streams (k s)) : Streams (get >>= k) := by
  intro s
  obtain ⟨bs, h⟩ := hs s s
  refine ⟨bs, h.reads, h.ends, ?_, ?_⟩
  · intro d d' hd hr hend
    change k (s.on d) (s.on d) = _
    rw [hk s d hd]
    exact h.replays hd hr hend
  · intro d d' u v he hv hd hr hend
    change ∃ s', k (s.on d) (s.on d) = _ ∧ _
    rw [hk s d hd]
    exact h.cuts he hv hd hr hend

theorem bind {m : Decode α} {f : α → Decode β} (hm : Streams m) (hf : ∀ a, Streams (f a)) :
    Streams (m >>= f) := by
  intro s
  obtain ⟨bs, h⟩ := hm s
  cases hr : m s with
  | ok a s₁ =>
    obtain ⟨cs, h'⟩ := hf a s₁
    refine ⟨bs ++ cs, h.andThen (by simp [hr]) (by simp [hr]) h' (by simp [bind_run, hr]) ?_ ?_⟩
    · intro d d' hd
      simp [bind_run, hd, hr]
    · intro d s' hd
      simp [bind_run, hd]
  | error e s₁ =>
    refine ⟨bs, h.keep (by simp [bind_run, hr]) (by simp [bind_run, hr]) ?_ ?_⟩
    · intro d d' hd
      simp [bind_run, hd, hr]
    · intro d s' hd
      simp [bind_run, hd]

theorem ite {p : Prop} [Decidable p] {m n : Decode α} (hm : Streams m) (hn : Streams n) :
    Streams (if p then m else n) := by
  split
  · exact hm
  · exact hn

/-- Trying `m` first: only a missing entry leads on to `next`. -/
theorem orElse {m next : Decode α} {restore : PrefixState → PrefixState} (hm : Streams m)
    (hn : Streams next) : Streams (orElse m restore next) := by
  intro s
  obtain ⟨bs, h⟩ := hm s
  have hstop (d : Cursor) (s' : State) (hd : m (s.on d) = .error .truncated s') :
      Decode.orElse m restore next (s.on d) = .error .truncated s' := by
    simp [Decode.orElse, hd]
  by_cases hu : ∃ s₁, m s = .error .unknownOpcode s₁
  · obtain ⟨s₁, hr⟩ := hu
    obtain ⟨cs, h'⟩ := hn (setPrefixes restore s₁)
    refine ⟨bs ++ cs, h.andThen (by simp [hr, setPrefixes]) (by simp [hr]) h'
      (by simp [Decode.orElse, hr]) ?_ hstop⟩
    intro d d' hd
    rw [hr, moved_error] at hd
    simp only [Decode.orElse, hd]
    rfl
  · have keep (x : State) (hx : ∀ x', m x ≠ .error .unknownOpcode x') :
        Decode.orElse m restore next x = m x := by
      unfold Decode.orElse
      split
      · next x' hx' => exact absurd hx' (hx x')
      · rfl
    have hs := keep s (fun x' hx' => hu ⟨x', hx'⟩)
    refine ⟨bs, h.keep (by rw [hs]) (by rw [hs]) ?_ hstop⟩
    intro d d' hd
    rw [hs, ← hd]
    apply keep
    intro x' hx'
    rw [hd] at hx'
    cases hr : m s with
    | ok a s₁ => simp [hr] at hx'
    | error e s₁ =>
      rw [hr, moved_error] at hx'
      injection hx' with he
      exact hu ⟨s₁, he ▸ hr⟩

theorem read_byte : Streams (read Read.byte) := by
  intro s
  cases hb : s.cursor.source.get? s.cursor.position with
  | none =>
    have run : read Read.byte s = .error .truncated s := by simp [read, Read.byte, hb]
    refine ⟨[], ?_, ?_, ?_, ?_⟩
    · rw [run]
      rfl
    · intro _
      rw [run]
      exact hb
    · intro d d' _ hr hend
      obtain rfl := Cursor.reads_nil.mp hr
      have hd : d'.source.get? d'.position = none := hend (by rw [run]; exact ⟨s, rfl⟩)
      rw [run]
      simp [read, Read.byte, State.on, hd]
    · intro d d' u v he hv
      exact absurd (List.append_eq_nil_iff.mp he.symm).2 hv
  | some b =>
    have run (x : State) (hx : x.cursor.source.get? x.cursor.position = some b) :
        read Read.byte x = .ok b (x.on x.cursor.advance) := by
      simp [read, Read.byte, hx, State.on]
    refine ⟨[b], ?_, ?_, ?_, ?_⟩
    · rw [run s hb]
      exact ⟨hb, rfl⟩
    · intro h
      rw [run s hb] at h
      exact absurd h (not_cut_ok _ _)
    · intro d d' _ hr _
      obtain ⟨hd, rfl⟩ := hr
      rw [run (s.on d) hd, run s hb]
      rfl
    · intro d d' u v he hv _ hr hend
      obtain rfl : u = [] := by
        cases u with
        | nil => rfl
        | cons c u => simp_all
      obtain rfl := Cursor.reads_nil.mp hr
      have hd : d'.source.get? d'.position = none := hend
      exact ⟨s.on d', by simp [read, Read.byte, State.on, hd], rfl⟩

/-! The stages of decoding. -/

theorem modRM : Streams modRM := by
  refine get (fun _ _ _ => rfl) fun s => ?_
  split
  · exact pure _
  · exact bind read_byte fun b => bind (modify (fun _ => rfl) fun _ _ => rfl) fun _ => pure _

theorem scanPrefixes (mode : Mode) (budget : Nat) : Streams (scanPrefixes mode budget) := by
  induction budget with
  | zero => exact throw (by decide)
  | succ n ih =>
    refine bind read_byte fun b => get (fun _ _ _ => rfl) fun s => ?_
    split
    · exact bind (modify (fun _ => rfl) fun _ _ => rfl) fun _ => ih
    · exact pure b

theorem slotOn (t : Target) (a : Lookup.Axis) : Streams (slotOn t a) := by
  cases a with
  | opcode => exact bind read_byte fun b => bind (modify (fun _ => rfl) fun _ _ => rfl) fun _ => pure _
  | reg | mod | rm => exact bind modRM fun m => pure _
  | operandSize | addressSize => exact get (fun _ _ _ => rfl) fun s => pure _
  | mode | mandatory | vendor => exact pure _

/-- The descent goes by tables; below a mandatory-prefix table three descents are tried in turn. -/
theorem resolve (t : Target) (n : Lookup.Node) : Streams (resolve t n) := by
  induction n using Lookup.Node.bySlots with
  | empty =>
    rw [resolve_empty]
    exact throw (by decide)
  | leaf e =>
    rw [resolve_leaf]
    exact pure e
  | table a slots ih =>
    cases a with
    | mandatory =>
      have hsized : Streams (resolveSized t slots) := by
        refine get (fun _ _ _ => rfl) fun s => ite (orElse ?_ (ih 0)) (ih 0)
        exact bind (modify (fun _ => rfl) fun _ _ => rfl) fun _ => ih 1
      rw [resolve_mandatory]
      refine get (fun _ _ _ => rfl) fun s => ?_
      split
      · exact orElse (bind (modify (fun _ => rfl) fun _ _ => rfl) fun _ => ih _) hsized
      · exact hsized
    | vendor =>
      rw [resolve_vendor]
      exact ih _
    | opcode | reg | mod | rm | mode | operandSize | addressSize =>
      rw [resolve_axis t slots (by decide) (by decide)]
      exact bind (slotOn t _) ih

theorem composes : Composes fun _ m => Streams m :=
  ⟨pure, throw, bind, read_byte, modRM⟩

theorem entry (table : Lookup.Table) (t : Target) : Streams (entry table t) := by
  refine bind (scanPrefixes _ _) fun first => bind (modify (fun _ => rfl) fun _ _ => rfl) fun _ =>
    bind (resolve t _) fun number => ?_
  split
  · exact pure _
  · exact throw (by decide)

theorem complete (t : Target) (pc : UInt64) (e : Lookup.Entry) : Streams (complete t pc e) := by
  unfold Decode.complete
  extract_lets rest
  have hrest (u : Unit) : Streams (rest u) := by
    refine get (fun _ _ _ => rfl) fun s => ?_
    extract_lets f after
    have hafter (u : Unit) : Streams (after u) := by
      refine bind (composes.operands f e.operands) fun ops => get (fun s d hd => ?_) fun s => pure _
      simp only [State.on_cursor, hd.consumed_eq]
    exact ite (bind (bind modRM fun _ => pure _) hafter) (hafter ())
  exact ite (bind (throw (by decide)) hrest) (hrest ())

theorem instruction (table : Lookup.Table) (t : Target) (pc : UInt64) :
    Streams (instruction table t pc) := by
  refine bind (entry table t) fun e => bind (complete t pc e) fun i => get (fun s d hd => ?_) fun s => ?_
  · simp only [State.on_cursor, hd.consumed_eq]
  · exact ite (bind (throw (by decide)) fun _ => pure i) (pure i)

end Streams
end Decode
end X86
