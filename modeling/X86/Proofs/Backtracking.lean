import X86.Proofs.Selection

/-!
Backtracking. A mandatory-prefix table sets a prefix aside before it tries the slot of the prefix, and
puts it back if the slot leads to no entry, while bytes that were read stay read. So a descent that
fails has spent no prefix, and one that ends at an entry has spent the prefixes of the slots on its
path.
-/

namespace X86

open Lookup (Axis Node)

/-- What prefixes lose on a path, as axes and slots: 66, and the last F2 or F3, if the path leads
through the slot of that prefix on the mandatory-prefix axis. -/
structure PrefixState.Spent (p : PrefixState) (path : List (Axis × Nat)) (p' : PrefixState) :
    Prop where
  others : p' = { p with operandSize := p'.operandSize, repeated := p'.repeated }
  operandSize : p'.operandSize = p.operandSize ∨ p'.operandSize = false
  repeated : p'.repeated = p.repeated ∨ p'.repeated = none
  operandSize_iff : p.operandSize = true ∧ p'.operandSize = false ↔ (Axis.mandatory, 1) ∈ path
  repeated_iff (r : Repeat) :
    p.repeated = some r ∧ p'.repeated = none ↔ (Axis.mandatory, Decode.repeatSlot r) ∈ path

namespace Decode

theorem repeatSlot_inj {r r' : Repeat} : repeatSlot r = repeatSlot r' ↔ r = r' := by
  cases r <;> cases r' <;> decide

theorem two_le_repeatSlot (r : Repeat) : 2 ≤ repeatSlot r := by
  cases r <;> decide

inductive Taken
  | opcode (b : UInt8)
  | modRM (b : UInt8)

namespace Taken

def byte : Taken → UInt8
  | opcode b | modRM b => b

def opcode? : Taken → Option UInt8
  | opcode b => some b
  | modRM _ => none

def modRM? : Taken → Option UInt8
  | opcode _ => none
  | modRM b => some b

end Taken

/-- The second state is the first one with the given bytes taken. Opcode bytes go into the opcode; a
ModRM byte is taken once, if there is none at hand, and is at hand from then on. -/
structure Takes (s : State) (bytes : List Taken) (s' : State) : Prop where
  reads : s.cursor.Reads (bytes.map Taken.byte) s'.cursor
  opcode : s'.opcode = (bytes.filterMap Taken.opcode?).foldl Opcode.advance s.opcode
  modRM : bytes.filterMap Taken.modRM? = [] ∧ s'.modRM = s.modRM ∨
    ∃ b, bytes.filterMap Taken.modRM? = [b] ∧ s.modRM = none ∧ s'.modRM = some (ModRM.ofByte b)

namespace Takes

theorem refl (s : State) : Takes s [] s :=
  ⟨rfl, rfl, Or.inl ⟨rfl, rfl⟩⟩

theorem trans {s s₁ s₂ : State} {xs ys : List Taken} (h : Takes s xs s₁) (h' : Takes s₁ ys s₂) :
    Takes s (xs ++ ys) s₂ := by
  refine ⟨?_, ?_, ?_⟩
  · rw [List.map_append, Cursor.reads_append]
    exact ⟨s₁.cursor, h.reads, h'.reads⟩
  · rw [h'.opcode, h.opcode, List.filterMap_append, List.foldl_append]
  · rw [List.filterMap_append]
    obtain ⟨hx, hm⟩ | ⟨b, hx, hnone, hm⟩ := h.modRM
    · rw [hx, List.nil_append, ← hm]
      exact h'.modRM
    · obtain ⟨hy, hm'⟩ | ⟨b', -, hnone', -⟩ := h'.modRM
      · exact Or.inr ⟨b, by rw [hx, hy, List.append_nil], hnone, hm'.trans hm⟩
      · rw [hm] at hnone'
        cases hnone'

theorem step {s : State} {b : UInt8} (hb : s.cursor.source.get? s.cursor.position = some b) :
    Takes s [.opcode b] (s.step b) :=
  ⟨⟨hb, rfl⟩, rfl, Or.inl ⟨rfl, rfl⟩⟩

theorem fetched (s : State) : ∃ bytes, Takes s bytes s.fetched := by
  obtain ⟨⟨p, x, o⟩, c⟩ := s
  cases x with
  | some m => exact ⟨[], refl _⟩
  | none =>
    cases hb : c.source.get? c.position with
    | none =>
      refine ⟨[], ?_⟩
      simp only [State.fetched, hb]
      exact refl _
    | some b =>
      refine ⟨[.modRM b], ?_⟩
      simp only [State.fetched, hb]
      exact ⟨⟨hb, rfl⟩, rfl, Or.inr ⟨b, rfl, rfl, rfl⟩⟩

end Takes

/-- Bytes may have been taken, but the prefixes are what they were. -/
def Unspent (s s' : State) : Prop :=
  s'.prefixes = s.prefixes ∧ ∃ bytes, Takes s bytes s'

namespace Unspent

theorem refl (s : State) : Unspent s s :=
  ⟨rfl, [], .refl s⟩

theorem trans {s s₁ s₂ : State} (h : Unspent s s₁) (h' : Unspent s₁ s₂) : Unspent s s₂ := by
  obtain ⟨hp, xs, hx⟩ := h
  obtain ⟨hp', ys, hy⟩ := h'
  exact ⟨hp'.trans hp, xs ++ ys, hx.trans hy⟩

theorem restored {s s₁ : State} {spend restore : PrefixState → PrefixState}
    (h : Unspent (setPrefixes spend s) s₁) (hback : restore (spend s.prefixes) = s.prefixes) :
    Unspent s (setPrefixes restore s₁) := by
  obtain ⟨hp, bytes, hbytes⟩ := h
  refine ⟨?_, bytes, hbytes.reads, hbytes.opcode, hbytes.modRM⟩
  exact (congrArg restore hp).trans hback

end Unspent

theorem slotOn_unspent (t : Target) (a : Axis) (s : State) :
    slotOn t a s = .error .truncated s ∨ ∃ i s₁, slotOn t a s = .ok i s₁ ∧ Unspent s s₁ := by
  by_cases ho : a = .opcode
  · subst ho
    rw [slotOn_opcode_run]
    cases hb : s.cursor.source.get? s.cursor.position with
    | none => exact Or.inl rfl
    | some b => exact Or.inr ⟨b.toNat, s.step b, rfl, rfl, _, .step hb⟩
  by_cases hm : a = .mandatory
  · exact Or.inr ⟨0, s, hm ▸ rfl, .refl s⟩
  by_cases hv : a = .vendor
  · exact Or.inr ⟨0, s, hv ▸ rfl, .refl s⟩
  obtain ⟨herror, -⟩ | ⟨i, s₁, hok, -, rfl | ⟨rfl, -⟩, -⟩ := settled_slotOn t ho hm hv s
  · exact Or.inl herror
  · exact Or.inr ⟨i, s₁, hok, .refl s₁⟩
  · exact Or.inr ⟨i, s.fetched, hok, State.fetched_prefixes s, Takes.fetched s⟩

theorem unspent_of_slotOn {t : Target} {a : Axis} {s s₁ : State} {i : Nat}
    (h : slotOn t a s = .ok i s₁) : Unspent s s₁ := by
  obtain herror | ⟨j, s₂, hok, hs₂⟩ := slotOn_unspent t a s
  · rw [h] at herror
    cases herror
  · rw [h] at hok
    cases hok
    exact hs₂

/-- A slot that is tried for the sake of a prefix, and how the prefix is set aside and put back. -/
structure Trial where
  slot : Nat
  spend : PrefixState → PrefixState
  restore : PrefixState → PrefixState

namespace Trial

def ofRepeat (r : Repeat) : Trial :=
  ⟨repeatSlot r, fun p => { p with repeated := none }, fun p => { p with repeated := some r }⟩

def ofSize : Trial :=
  ⟨1, fun p => { p with operandSize := false }, fun p => { p with operandSize := true }⟩

def repeated? (p : PrefixState) : Option Trial :=
  p.repeated.map ofRepeat

def sized? (p : PrefixState) : Option Trial :=
  if p.operandSize then some ofSize else none

theorem repeated?_eq_some {p : PrefixState} {a : Trial} :
    repeated? p = some a ↔ ∃ r, p.repeated = some r ∧ ofRepeat r = a :=
  Option.map_eq_some_iff

theorem sized?_eq_some {p : PrefixState} {a : Trial} :
    sized? p = some a ↔ p.operandSize = true ∧ ofSize = a := by
  simp [sized?]

theorem restore_repeated {p : PrefixState} {a : Trial} (h : repeated? p = some a) :
    a.restore (a.spend p) = p := by
  obtain ⟨r, hr, rfl⟩ := repeated?_eq_some.mp h
  rw [ofRepeat, ← hr]

theorem restore_sized {p : PrefixState} {a : Trial} (h : sized? p = some a) :
    a.restore (a.spend p) = p := by
  obtain ⟨hp, rfl⟩ := sized?_eq_some.mp h
  rw [ofSize, ← hp]

end Trial

theorem modify_run (f : State → State) (m : Decode Nat) (s : State) :
    (do modify f; m : Decode Nat) s = m (f s) := rfl

theorem orElse_of_ne {m next : Decode Nat} {restore : PrefixState → PrefixState} {s : State}
    (h : ∀ s', m s ≠ .error .unknownOpcode s') : orElse m restore next s = m s := by
  unfold orElse
  split
  · next s' heq => exact absurd heq (h s')
  · rfl

section Trying

variable {t : Target} {slots : List Node} {trial : PrefixState → Option Trial} {next : Decode Nat}
  {s s' : State}

/-- Nothing comes of a trial: there is no prefix for it, or its slot leads to no entry. -/
inductive Misses (t : Target) (slots : List Node) (trial : PrefixState → Option Trial) (s : State) :
    State → Prop
  | absent : trial s.prefixes = none → Misses t slots trial s s
  | failed {a : Trial} {s₁ : State} : trial s.prefixes = some a →
      resolve t (slots.getD a.slot .empty) (setPrefixes a.spend s) = .error .unknownOpcode s₁ →
      Misses t slots trial s (setPrefixes a.restore s₁)

def attempt (t : Target) (slots : List Node) (trial : PrefixState → Option Trial)
    (next : Decode Nat) : Decode Nat := do
  match trial (← get).prefixes with
  | some a =>
    orElse
      (do
        modify (setPrefixes a.spend)
        resolve t (slots.getD a.slot .empty))
      a.restore next
  | none => next

theorem attempt_none (h : trial s.prefixes = none) : attempt t slots trial next s = next s := by
  simp only [attempt, bind_run, get_run, h]

theorem attempt_some {a : Trial} (h : trial s.prefixes = some a) :
    attempt t slots trial next s =
      orElse
        (do
          modify (setPrefixes a.spend)
          resolve t (slots.getD a.slot .empty))
        a.restore next s := by
  simp only [attempt, bind_run, get_run, h]

theorem resolveSized_eq (t : Target) (slots : List Node) (s : State) :
    resolveSized t slots s = attempt t slots Trial.sized? (resolve t (slots.getD 0 .empty)) s := by
  cases h : s.prefixes.operandSize with
  | false => rw [resolveSized_false t slots h, attempt_none (by simp [Trial.sized?, h])]
  | true =>
    rw [resolveSized_true t slots h, attempt_some (Trial.sized?_eq_some.mpr ⟨h, rfl⟩)]
    rfl

theorem resolveMandatory_eq (t : Target) (slots : List Node) (s : State) :
    resolveMandatory t slots s = attempt t slots Trial.repeated? (resolveSized t slots) s := by
  cases h : s.prefixes.repeated with
  | none => rw [resolveMandatory_none t slots h, attempt_none (by simp [Trial.repeated?, h])]
  | some r =>
    rw [resolveMandatory_some t slots h, attempt_some (Trial.repeated?_eq_some.mpr ⟨r, h, rfl⟩)]
    rfl

theorem attempt_of_misses {s₁ : State} (h : Misses t slots trial s s₁) (next : Decode Nat) :
    attempt t slots trial next s = next s₁ := by
  cases h with
  | absent htrial => exact attempt_none htrial
  | failed htrial hslot =>
    rw [attempt_some htrial]
    simp only [orElse, modify_run, hslot]

theorem attempt_of_ok {a : Trial} {e : Nat} (htrial : trial s.prefixes = some a)
    (hslot : resolve t (slots.getD a.slot .empty) (setPrefixes a.spend s) = .ok e s')
    (next : Decode Nat) : attempt t slots trial next s = .ok e s' := by
  rw [attempt_some htrial]
  simp only [orElse, modify_run, hslot]

theorem attempt_cases (t : Target) (slots : List Node) (trial : PrefixState → Option Trial)
    (next : Decode Nat) (s : State) :
    (∃ s₁, Misses t slots trial s s₁) ∨
      ∃ a, trial s.prefixes = some a ∧
        attempt t slots trial next s = resolve t (slots.getD a.slot .empty) (setPrefixes a.spend s) ∧
        ∀ s₁, attempt t slots trial next s ≠ .error .unknownOpcode s₁ := by
  cases htrial : trial s.prefixes with
  | none => exact Or.inl ⟨s, .absent htrial⟩
  | some a =>
    by_cases hslot : ∃ s₁, resolve t (slots.getD a.slot .empty) (setPrefixes a.spend s) =
        .error .unknownOpcode s₁
    · obtain ⟨s₁, hslot⟩ := hslot
      exact Or.inl ⟨_, .failed htrial hslot⟩
    · have hne := not_exists.mp hslot
      have hrun : attempt t slots trial next s =
          resolve t (slots.getD a.slot .empty) (setPrefixes a.spend s) := by
        rw [attempt_some htrial]
        exact orElse_of_ne hne
      refine Or.inr ⟨a, rfl, hrun, ?_⟩
      rw [hrun]
      exact hne

/-- Where nothing comes of a trial, its prefix is back, if no slot that leads nowhere spends one. -/
theorem Misses.unspent {s₁ : State} (h : Misses t slots trial s s₁)
    (hslots : ∀ i s s', resolve t (slots.getD i .empty) s = .error .unknownOpcode s' → Unspent s s')
    (hback : ∀ a, trial s.prefixes = some a → a.restore (a.spend s.prefixes) = s.prefixes) :
    Unspent s s₁ := by
  cases h with
  | absent _ => exact .refl s
  | failed htrial hslot => exact (hslots _ _ _ hslot).restored (hback _ htrial)

end Trying

/-- A descent that leads to no entry has spent no prefix. -/
theorem resolve_unknownOpcode (t : Target) (n : Node) (s s' : State)
    (h : resolve t n s = .error .unknownOpcode s') : Unspent s s' := by
  induction n using Node.bySlots generalizing s s' with
  | empty =>
    rw [resolve_empty] at h
    cases h
    exact .refl s
  | leaf e =>
    rw [resolve_leaf] at h
    cases h
  | table a slots ih =>
    by_cases hm : a = .mandatory
    · subst hm
      rw [resolve_mandatory, resolveMandatory_eq] at h
      obtain ⟨s₁, hrepeat⟩ | ⟨_, -, -, hne⟩ :=
        attempt_cases t slots Trial.repeated? (resolveSized t slots) s
      · rw [attempt_of_misses hrepeat, resolveSized_eq] at h
        obtain ⟨s₂, hsize⟩ | ⟨_, -, -, hne⟩ :=
          attempt_cases t slots Trial.sized? (resolve t (slots.getD 0 .empty)) s₁
        · rw [attempt_of_misses hsize] at h
          exact ((hrepeat.unspent ih fun _ => Trial.restore_repeated).trans
            (hsize.unspent ih fun _ => Trial.restore_sized)).trans (ih 0 s₂ s' h)
        · exact absurd h (hne s')
      · exact absurd h (hne s')
    by_cases hv : a = .vendor
    · subst hv
      rw [resolve_vendor] at h
      exact ih _ s s' h
    · rw [resolve_axis t slots hm hv, bind_run] at h
      obtain herror | ⟨i, s₁, hslot, hs₁⟩ := slotOn_unspent t a s
      · rw [herror] at h
        cases h
      · rw [hslot] at h
        exact hs₁.trans (ih i s₁ s' h)

theorem Misses.prefixes_repeated {t : Target} {slots : List Node} {s s₁ : State}
    (h : Misses t slots Trial.repeated? s s₁) : s₁.prefixes = s.prefixes :=
  (h.unspent (fun _ => resolve_unknownOpcode t _) fun _ => Trial.restore_repeated).1

theorem Misses.prefixes_sized {t : Target} {slots : List Node} {s s₁ : State}
    (h : Misses t slots Trial.sized? s s₁) : s₁.prefixes = s.prefixes :=
  (h.unspent (fun _ => resolve_unknownOpcode t _) fun _ => Trial.restore_sized).1

/-- A descent to an entry, with the path that it takes. The slots of a mandatory-prefix table are
tried in turn: the slot of the last F2 or F3, the slot of 66, and the plain one. -/
inductive Descends (t : Target) : Node → State → List (Axis × Nat) → Nat → State → Prop
  | leaf (e : Nat) (s : State) : Descends t (.leaf e) s [] e s
  | slot {a : Axis} {slots : List Node} {s s₁ s' : State} {i e : Nat} {path : List (Axis × Nat)} :
      a ≠ .mandatory → a ≠ .vendor → slotOn t a s = .ok i s₁ →
      Descends t (slots.getD i .empty) s₁ path e s' →
      Descends t (.table a slots) s ((a, i) :: path) e s'
  | vendor {slots : List Node} {s s' : State} {e : Nat} {path : List (Axis × Nat)} :
      Descends t (slots.getD (vendorSlot t.vendor slots) .empty) s path e s' →
      Descends t (.table .vendor slots) s ((.vendor, vendorSlot t.vendor slots) :: path) e s'
  | repeated {slots : List Node} {s s' : State} {r : Repeat} {e : Nat} {path : List (Axis × Nat)} :
      s.prefixes.repeated = some r →
      Descends t (slots.getD (repeatSlot r) .empty)
        (setPrefixes (fun p => { p with repeated := none }) s) path e s' →
      Descends t (.table .mandatory slots) s ((.mandatory, repeatSlot r) :: path) e s'
  | sized {slots : List Node} {s s₁ s' : State} {e : Nat} {path : List (Axis × Nat)} :
      Misses t slots Trial.repeated? s s₁ → s₁.prefixes.operandSize = true →
      Descends t (slots.getD 1 .empty)
        (setPrefixes (fun p => { p with operandSize := false }) s₁) path e s' →
      Descends t (.table .mandatory slots) s ((.mandatory, 1) :: path) e s'
  | plain {slots : List Node} {s s₁ s₂ s' : State} {e : Nat} {path : List (Axis × Nat)} :
      Misses t slots Trial.repeated? s s₁ → Misses t slots Trial.sized? s₁ s₂ →
      Descends t (slots.getD 0 .empty) s₂ path e s' →
      Descends t (.table .mandatory slots) s ((.mandatory, 0) :: path) e s'

theorem resolve_of_descends {t : Target} {n : Node} {s s' : State} {path : List (Axis × Nat)}
    {e : Nat} (h : Descends t n s path e s') : resolve t n s = .ok e s' := by
  induction h with
  | leaf e s =>
    rw [resolve_leaf]
    rfl
  | slot hm hv hslot _ ih =>
    rw [resolve_axis t _ hm hv, bind_ok]
    exact ⟨_, _, hslot, ih⟩
  | vendor _ ih => rw [resolve_vendor, ih]
  | repeated hr _ ih =>
    rw [resolve_mandatory, resolveMandatory_eq]
    exact attempt_of_ok (Trial.repeated?_eq_some.mpr ⟨_, hr, rfl⟩) ih _
  | sized hrepeat hsize _ ih =>
    rw [resolve_mandatory, resolveMandatory_eq, attempt_of_misses hrepeat, resolveSized_eq]
    exact attempt_of_ok (Trial.sized?_eq_some.mpr ⟨hsize, rfl⟩) ih _
  | plain hrepeat hsize _ ih =>
    rw [resolve_mandatory, resolveMandatory_eq, attempt_of_misses hrepeat, resolveSized_eq,
      attempt_of_misses hsize, ih]

theorem exists_descends {t : Target} {n : Node} {s s' : State} {e : Nat}
    (h : resolve t n s = .ok e s') : ∃ path, Descends t n s path e s' := by
  induction n using Node.bySlots generalizing s s' with
  | empty =>
    rw [resolve_empty] at h
    cases h
  | leaf e' =>
    rw [resolve_leaf] at h
    cases h
    exact ⟨[], .leaf e s⟩
  | table a slots ih =>
    by_cases hm : a = .mandatory
    · subst hm
      rw [resolve_mandatory, resolveMandatory_eq] at h
      obtain ⟨s₁, hrepeat⟩ | ⟨a, htrial, hrun, -⟩ :=
        attempt_cases t slots Trial.repeated? (resolveSized t slots) s
      · rw [attempt_of_misses hrepeat, resolveSized_eq] at h
        obtain ⟨s₂, hsize⟩ | ⟨a, htrial, hrun, -⟩ :=
          attempt_cases t slots Trial.sized? (resolve t (slots.getD 0 .empty)) s₁
        · rw [attempt_of_misses hsize] at h
          obtain ⟨path, hpath⟩ := ih 0 h
          exact ⟨_, .plain hrepeat hsize hpath⟩
        · obtain ⟨hsize, rfl⟩ := Trial.sized?_eq_some.mp htrial
          obtain ⟨path, hpath⟩ := ih 1 (hrun.symm.trans h)
          exact ⟨_, .sized hrepeat hsize hpath⟩
      · obtain ⟨r, hr, rfl⟩ := Trial.repeated?_eq_some.mp htrial
        obtain ⟨path, hpath⟩ := ih (repeatSlot r) (hrun.symm.trans h)
        exact ⟨_, .repeated hr hpath⟩
    by_cases hv : a = .vendor
    · subst hv
      rw [resolve_vendor] at h
      obtain ⟨path, hpath⟩ := ih _ h
      exact ⟨_, .vendor hpath⟩
    · rw [resolve_axis t slots hm hv, bind_ok] at h
      obtain ⟨i, s₁, hslot, h⟩ := h
      obtain ⟨path, hpath⟩ := ih i h
      exact ⟨_, .slot hm hv hslot hpath⟩

end Decode

namespace PrefixState.Spent

open Decode (repeatSlot repeatSlot_inj two_le_repeatSlot)

variable {p p' : PrefixState} {path : List (Axis × Nat)}

theorem refl (p : PrefixState) : p.Spent [] p where
  others := rfl
  operandSize := Or.inl rfl
  repeated := Or.inl rfl
  operandSize_iff := by simp
  repeated_iff r := by
    simp only [List.not_mem_nil, iff_false, not_and]
    intro hr
    rw [hr]
    exact Option.some_ne_none r

theorem skip (h : p.Spent path p') {a : Axis} {i : Nat} (hi : a = .mandatory → i = 0) :
    p.Spent ((a, i) :: path) p' where
  others := h.others
  operandSize := h.operandSize
  repeated := h.repeated
  operandSize_iff := by
    have hne : (Axis.mandatory, 1) ≠ (a, i) := by
      intro heq
      cases heq
      exact absurd (hi rfl) (by decide)
    simp [h.operandSize_iff, hne]
  repeated_iff r := by
    have hne : (Axis.mandatory, repeatSlot r) ≠ (a, i) := by
      intro heq
      cases heq
      have := two_le_repeatSlot r
      exact absurd (hi rfl) (by omega)
    simp [h.repeated_iff, hne]

theorem spendSize (hp : p.operandSize = true) (h : Spent { p with operandSize := false } path p') :
    p.Spent ((.mandatory, 1) :: path) p' where
  others := h.others
  operandSize := Or.inr (h.operandSize.elim id id)
  repeated := h.repeated
  operandSize_iff := by simp [hp, h.operandSize.elim id id]
  repeated_iff r := by
    have hne : (Axis.mandatory, repeatSlot r) ≠ (.mandatory, 1) := by
      intro heq
      have := two_le_repeatSlot r
      simp only [Prod.mk.injEq] at heq
      omega
    simp [← h.repeated_iff, hne]

theorem spendRepeat {r : Repeat} (hp : p.repeated = some r)
    (h : Spent { p with repeated := none } path p') :
    p.Spent ((.mandatory, repeatSlot r) :: path) p' where
  others := h.others
  operandSize := h.operandSize
  repeated := Or.inr (h.repeated.elim id id)
  operandSize_iff := by
    have hne : (Axis.mandatory, 1) ≠ (.mandatory, repeatSlot r) := by
      intro heq
      have := two_le_repeatSlot r
      simp only [Prod.mk.injEq] at heq
      omega
    simp [← h.operandSize_iff, hne]
  repeated_iff r' := by
    have hnone : p'.repeated = none := h.repeated.elim id id
    have hpath : (Axis.mandatory, repeatSlot r') ∉ path := by
      rw [← h.repeated_iff]
      simp
    simp [hp, hnone, hpath, repeatSlot_inj, eq_comm]

end PrefixState.Spent

namespace Decode

/-- The slots on the path account for what the prefixes have lost. -/
theorem Descends.spent {t : Target} {n : Node} {s s' : State} {path : List (Axis × Nat)} {e : Nat}
    (h : Descends t n s path e s') : s.prefixes.Spent path s'.prefixes := by
  induction h with
  | leaf e s => exact .refl s.prefixes
  | slot hm _ hslot _ ih =>
    obtain ⟨hprefixes, -⟩ := unspent_of_slotOn hslot
    rw [hprefixes] at ih
    exact ih.skip fun ha => absurd ha hm
  | vendor _ ih => exact ih.skip fun ha => absurd ha (by decide)
  | repeated hr _ ih => exact .spendRepeat hr ih
  | sized hrepeat hsize _ ih =>
    rw [hrepeat.prefixes_repeated] at hsize
    refine .spendSize hsize ?_
    rw [← hrepeat.prefixes_repeated]
    exact ih
  | plain hrepeat hsize _ ih =>
    rw [hsize.prefixes_sized, hrepeat.prefixes_repeated] at ih
    exact ih.skip fun _ => rfl

end Decode

/-- A descent that leads to no entry leaves the prefixes as they were; it has taken opcode bytes and
at most one ModRM byte, which is at hand. A descent that leads to an entry takes a path, and of the
prefixes it has spent 66 if the path leads through the slot of 66 in a mandatory-prefix table, and the
last F2 or F3 if the path leads through the slot of that prefix. -/
theorem resolve_spends_path (t : Target) (n : Node) (s : Decode.State) :
    (∀ s', Decode.resolve t n s = .error .unknownOpcode s' →
      s'.prefixes = s.prefixes ∧ ∃ bytes, Decode.Takes s bytes s') ∧
    (∀ e s', Decode.resolve t n s = .ok e s' ↔ ∃ path, Decode.Descends t n s path e s') ∧
    ∀ path e s', Decode.Descends t n s path e s' → s.prefixes.Spent path s'.prefixes := by
  refine ⟨?_, ?_, ?_⟩
  · intro s' h
    exact Decode.resolve_unknownOpcode t n s s' h
  · intro e s'
    refine ⟨Decode.exists_descends, ?_⟩
    rintro ⟨path, hpath⟩
    exact Decode.resolve_of_descends hpath
  · intro path e s' hpath
    exact hpath.spent

/-- A table that asks for the ModRM byte and leads nowhere. -/
def fruitless : Node :=
  .table .reg [.empty, .empty, .empty, .empty, .empty, .empty, .empty, .empty]

def behindPrefixes : Decode.State where
  cursor := .ofStart (.ofArray #[0xC8]) 0
  prefixes := { operandSize := true, repeated := some .f2 }

/-- A table in the slot of F2 leads nowhere. Without an entry elsewhere both prefixes are left; with
one below the slot of 66 only F2 is left. -/
theorem resolve_spends_path_nested :
    let t : Target := ⟨.bits32, .any⟩
    let s := behindPrefixes
    let inner : Node := .table .mandatory [.leaf 5, .empty, .empty, .empty]
    (∃ s', Decode.resolve t (.table .mandatory [.empty, .empty, fruitless, .empty]) s =
        .error .unknownOpcode s' ∧
      s'.prefixes = s.prefixes ∧ s'.cursor.position = 1 ∧ ∃ bytes, Decode.Takes s bytes s') ∧
    ∃ s' path, Decode.resolve t (.table .mandatory [.empty, inner, fruitless, .empty]) s = .ok 5 s' ∧
      s'.prefixes.operandSize = false ∧ s'.prefixes.repeated = some .f2 ∧
      s.prefixes.Spent path s'.prefixes ∧ (Axis.mandatory, 1) ∈ path := by
  obtain ⟨hfails, -⟩ :=
    resolve_spends_path ⟨.bits32, .any⟩ (.table .mandatory [.empty, .empty, fruitless, .empty])
      behindPrefixes
  obtain ⟨-, hends, hspent⟩ :=
    resolve_spends_path ⟨.bits32, .any⟩ (.table .mandatory [.empty,
      .table .mandatory [.leaf 5, .empty, .empty, .empty], fruitless, .empty]) behindPrefixes
  obtain ⟨hprefixes, htakes⟩ := hfails _ rfl
  obtain ⟨path, hpath⟩ := (hends 5 _).mp rfl
  have h := hspent path 5 _ hpath
  exact ⟨⟨_, rfl, hprefixes, rfl, htakes⟩, _, path, rfl, rfl, rfl, h, h.operandSize_iff.mp ⟨rfl, rfl⟩⟩

end X86
