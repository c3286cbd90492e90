import X86.Proofs.Scan
import X86.Proofs.Streaming

/-!
What a table selects on. The opcode bytes, the ModRM byte and the prefixes of a decoding state are
what routes are held against; `leads` says whether a route leads to its entry from there, and passing
a table in the slot that the state selects changes nothing about that.
-/

namespace X86
namespace Decode

open Lookup

namespace State

/-- The ModRM byte, whether it has been read yet or not. -/
def peek (s : State) : Option ModRM :=
  match s.modRM with
  | some m => some m
  | none => (s.cursor.source.get? s.cursor.position).map ModRM.ofByte

def fetched (s : State) : State :=
  match s.modRM, s.cursor.source.get? s.cursor.position with
  | none, some b => { s with cursor := s.cursor.advance, modRM := some (ModRM.ofByte b) }
  | _, _ => s

def step (s : State) (b : UInt8) : State :=
  { s with cursor := s.cursor.advance, opcode := s.opcode.advance b }

/-- The state in which the given opcode bytes have been read, if they are the next ones. -/
def past? (s : State) : List UInt8 → Option State
  | [] => some s
  | b :: bs => if s.cursor.source.get? s.cursor.position = some b then (s.step b).past? bs else none

/-- The state in which a prefix has served as mandatory prefix. -/
def spend (m : Fin 4) (s : State) : State :=
  setPrefixes (·.without m) s

def setting (s : State) (t : Target) (m : Fin 4) : Setting :=
  ⟨t, m, s.prefixes, s.peek⟩

@[simp] theorem past?_nil (s : State) : s.past? [] = some s := rfl

theorem past?_eq_some {s s₁ : State} {bs : List UInt8} (h : s.past? bs = some s₁) :
    s.cursor.Reads bs s₁.cursor ∧ s₁.prefixes = s.prefixes ∧ s₁.modRM = s.modRM ∧
      s₁.opcode = bs.foldl Opcode.advance s.opcode := by
  induction bs generalizing s with
  | nil =>
    obtain rfl : s = s₁ := Option.some.inj h
    exact ⟨rfl, rfl, rfl, rfl⟩
  | cons b bs ih =>
    rw [past?] at h
    split at h
    · next hb =>
      obtain ⟨hr, hp, hm, ho⟩ := ih h
      exact ⟨⟨hb, hr⟩, hp, hm, ho⟩
    · cases h

theorem past?_isSome {s : State} {bs : List UInt8} (h : bs <+: s.cursor.rest) :
    (s.past? bs).isSome = true := by
  induction bs generalizing s with
  | nil => rfl
  | cons b bs ih =>
    cases hb : s.cursor.source.get? s.cursor.position with
    | none =>
      rw [Cursor.rest_of_atEnd hb] at h
      exact absurd (List.prefix_nil.mp h) (by simp)
    | some b' =>
      rw [Cursor.rest_of_get? hb, List.cons_prefix_cons] at h
      obtain ⟨rfl, h⟩ := h
      rw [past?, if_pos hb]
      exact ih h

theorem peek_eq {s : State} (h : s.modRM = none) : s.peek = s.cursor.rest.head?.map ModRM.ofByte := by
  have hhead : s.cursor.rest.head? = s.cursor.source.get? s.cursor.position := by
    cases hb : s.cursor.source.get? s.cursor.position with
    | none => rw [Cursor.rest_of_atEnd hb, List.head?_nil]
    | some b => rw [Cursor.rest_of_get? hb, List.head?_cons]
  rw [peek, h, hhead]

@[simp] theorem fetched_prefixes (s : State) : s.fetched.prefixes = s.prefixes := by
  unfold fetched
  split <;> rfl

@[simp] theorem fetched_opcode (s : State) : s.fetched.opcode = s.opcode := by
  unfold fetched
  split <;> rfl

theorem reads_fetched (s : State) : ∃ bs, bs.length ≤ 1 ∧ s.cursor.Reads bs s.fetched.cursor := by
  unfold fetched
  split
  · next b _ hb => exact ⟨[b], by simp, hb, rfl⟩
  · exact ⟨[], by simp, rfl⟩

@[simp] theorem peek_fetched (s : State) : s.fetched.peek = s.peek := by
  obtain ⟨⟨p, x, o⟩, c⟩ := s
  cases x with
  | some m => rfl
  | none =>
    cases h : c.source.get? c.position with
    | none => simp [fetched, h]
    | some b => simp [fetched, peek, h]

theorem peek_eq_none {s : State} (h : s.peek = none) : s.modRM = none ∧ s.cursor.AtEnd := by
  unfold peek at h
  split at h
  · cases h
  · next hm => exact ⟨hm, by simpa [Cursor.AtEnd] using h⟩

theorem fetched_modRM (s : State) : s.fetched.modRM = s.peek := by
  obtain ⟨⟨p, x, o⟩, c⟩ := s
  cases x with
  | some m => rfl
  | none =>
    cases h : c.source.get? c.position with
    | none => simp [fetched, peek, h]
    | some b => simp [fetched, peek, h]

theorem fetched_of_peek_eq_none {s : State} (h : s.peek = none) : s.fetched = s := by
  obtain ⟨hm, hend⟩ := peek_eq_none h
  rw [Cursor.AtEnd] at hend
  simp [fetched, hm, hend]

@[simp] theorem fetched_fetched (s : State) : s.fetched.fetched = s.fetched := by
  obtain ⟨⟨p, x, o⟩, c⟩ := s
  cases x with
  | some m => rfl
  | none =>
    cases h : c.source.get? c.position with
    | none => simp [fetched, h]
    | some b => simp [fetched, h]

@[simp] theorem spend_zero (s : State) : s.spend 0 = s := rfl

@[simp] theorem peek_spend (m : Fin 4) (s : State) : (s.spend m).peek = s.peek := rfl

@[simp] theorem spend_cursor (m : Fin 4) (s : State) : (s.spend m).cursor = s.cursor := rfl

@[simp] theorem spend_opcode (m : Fin 4) (s : State) : (s.spend m).opcode = s.opcode := rfl

@[simp] theorem spend_prefixes (m : Fin 4) (s : State) :
    (s.spend m).prefixes = s.prefixes.without m := rfl

theorem fetched_spend (m : Fin 4) (s : State) : (s.spend m).fetched = s.fetched.spend m := by
  obtain ⟨⟨p, x, o⟩, c⟩ := s
  cases x with
  | some m => rfl
  | none =>
    cases h : c.source.get? c.position with
    | none => simp [fetched, spend, setPrefixes, h]
    | some b => simp [fetched, spend, setPrefixes, h]

@[simp] theorem setting_fetched (s : State) (t : Target) (m : Fin 4) :
    s.fetched.setting t m = s.setting t m := by
  simp [setting]

end State

theorem read_byte_run (s : State) :
    read Read.byte s = match s.cursor.source.get? s.cursor.position with
      | some b => .ok b (s.on s.cursor.advance)
      | none => .error .truncated s := by
  unfold read Read.byte
  cases s.cursor.source.get? s.cursor.position with
  | none => rfl
  | some b => rfl

theorem modRM_run (s : State) :
    modRM s = match s.peek with
      | some m => .ok m s.fetched
      | none => .error .truncated s := by
  obtain ⟨⟨p, x, o⟩, c⟩ := s
  cases x with
  | some m => rfl
  | none =>
    change (read Read.byte >>= fun b => (do
      modify fun s => { s with modRM := some (ModRM.ofByte b) }
      pure (ModRM.ofByte b))) ⟨⟨p, none, o⟩, c⟩ = _
    rw [bind_run, read_byte_run]
    cases h : c.source.get? c.position with
    | none => simp [State.peek, h]
    | some b =>
      simp only [State.peek, State.fetched, h, Option.map_some]
      rfl

theorem slotOn_opcode_run (t : Target) (s : State) :
    slotOn t .opcode s = match s.cursor.source.get? s.cursor.position with
      | some b => .ok b.toNat (s.step b)
      | none => .error .truncated s := by
  change (read Read.byte >>= fun b => (do
    modify fun s => { s with opcode := s.opcode.advance b }
    pure b.toNat)) s = _
  rw [bind_run, read_byte_run]
  cases s.cursor.source.get? s.cursor.position with
  | none => rfl
  | some b => rfl

/-- The slot on an axis that one field of the state settles: the slot that selectors agree with. -/
def Settled (t : Target) (a : Axis) (s : State) (r : EStateM.Result Fault State Nat) : Prop :=
  (r = .error .truncated s ∧ s.peek = none ∧ a.isModRM = true) ∨
    ∃ i s', r = .ok i s' ∧ i < a.slotCount ∧ (s' = s ∨ s' = s.fetched ∧ a.isModRM = true) ∧
      ∀ m, (a = .operandSize → m = 0) → ∀ x : Step, x.axis = a →
        (s.setting t m).agrees x = (i == x.index.val)

theorem settled_modRM (t : Target) {a : Axis} (ha : a.isModRM = true) (g : ModRM → Nat)
    (hg : ∀ x, g x < a.slotCount) (s : State)
    (hag : ∀ m (x : Step), x.axis = a →
      (s.setting t m).agrees x = s.peek.any fun y => g y == x.index.val) :
    Settled t a s ((modRM >>= fun x => pure (g x)) s) := by
  rw [bind_run, modRM_run]
  cases hp : s.peek with
  | none => exact Or.inl ⟨rfl, hp, ha⟩
  | some y =>
    refine Or.inr ⟨g y, s.fetched, rfl, hg y, Or.inr ⟨rfl, ha⟩, ?_⟩
    intro m _ x hx
    rw [hag m x hx, hp, Option.any_some]

theorem sizeSlot_lt (n : Nat) : sizeSlot n < 3 := by
  unfold sizeSlot
  split <;> decide

theorem settled_slotOn (t : Target) {a : Axis} (ho : a ≠ .opcode) (hm : a ≠ .mandatory)
    (hv : a ≠ .vendor) (s : State) : Settled t a s (slotOn t a s) := by
  cases a with
  | opcode => exact absurd rfl ho
  | mandatory => exact absurd rfl hm
  | vendor => exact absurd rfl hv
  | reg =>
    refine settled_modRM t rfl (·.reg.val) ?_ s ?_
    · intro x
      exact x.reg.isLt
    · rintro m ⟨_, i⟩ rfl
      rfl
  | mod =>
    refine settled_modRM t rfl (fun x => if x.isRegister then 1 else 0) ?_ s ?_
    · intro x
      cases x.isRegister <;> decide
    · rintro m ⟨_, i⟩ rfl
      rfl
  | rm =>
    refine settled_modRM t rfl (·.rm.val) ?_ s ?_
    · intro x
      exact x.rm.isLt
    · rintro m ⟨_, i⟩ rfl
      rfl
  | mode =>
    refine Or.inr ⟨if t.mode.is64 then 1 else 0, s, rfl, ?_, Or.inl rfl, ?_⟩
    · cases t.mode.is64 <;> decide
    · rintro m _ ⟨_, i⟩ rfl
      rfl
  | operandSize =>
    refine Or.inr ⟨_, s, rfl, sizeSlot_lt _, Or.inl rfl, ?_⟩
    rintro m h0 ⟨_, i⟩ rfl
    rw [h0 rfl]
    rfl
  | addressSize =>
    refine Or.inr ⟨_, s, rfl, sizeSlot_lt _, Or.inl rfl, ?_⟩
    rintro m _ ⟨_, i⟩ rfl
    rfl

def leads (t : Target) (s : State) (m : Fin 4) (r : Route) : Option Nat :=
  (s.past? (Step.opcodeBytes r.steps)).bind fun s₁ =>
    if (s₁.setting t m).admits r.steps then some r.entry else none

/-- The entry that the first of the routes to lead anywhere leads to. -/
def sought (t : Target) (s : State) (m : Fin 4) (rs : List Route) : Option Nat :=
  rs.findSome? (leads t s m)

theorem findSome?_through {a : Axis} {i : Nat} {rs : List Route} {f g : Route → Option Nat}
    (h : ∀ r ∈ rs, (r.through? a i).bind f = g r) :
    (Route.through a i rs).findSome? f = rs.findSome? g := by
  induction rs with
  | nil => rfl
  | cons r rs ih =>
    have ih' := ih fun q hq => h q (List.mem_cons_of_mem r hq)
    rw [Route.through] at ih' ⊢
    rw [List.findSome?_cons, ← h r List.mem_cons_self, List.filterMap_cons]
    cases r.through? a i with
    | none => simpa using ih'
    | some r' =>
      rw [Option.bind_some, List.findSome?_cons]
      cases f r' with
      | none => simpa using ih'
      | some e => rfl

theorem sought_through {t : Target} {s s' : State} {m m' : Fin 4} {a : Axis} {i : Nat}
    {rs : List Route}
    (h : ∀ r ∈ rs, (r.through? a i).bind (leads t s' m') = leads t s m r) :
    sought t s' m' (Route.through a i rs) = sought t s m rs :=
  findSome?_through h

theorem sought_congr {t : Target} {s s' : State} {m : Fin 4} {rs : List Route}
    (h : ∀ r ∈ rs, leads t s' m r = leads t s m r) : sought t s' m rs = sought t s m rs :=
  findSome?_congr h

theorem sought_eq_none {t : Target} {s : State} {m : Fin 4} {rs : List Route}
    (h : ∀ r ∈ rs, leads t s m r = none) : sought t s m rs = none := by
  simpa [sought] using h

section Admits

variable {v : Setting} {steps rest : List Step} {i : Nat}

theorem admits_takeFirst? {a : Axis} (h : Step.takeFirst? a steps = some (i, rest))
    (ha : a ≠ .mandatory) :
    ∃ x ∈ steps, x.axis = a ∧ x.index.val = i ∧ v.admits steps = (v.agrees x && v.admits rest) := by
  obtain ⟨before, x, after, rfl, rfl, _, rfl, hi⟩ := Step.takeFirst?_some h
  refine ⟨x, by simp, rfl, hi, ?_⟩
  simp only [Setting.admits, List.all_append, List.all_cons, List.any_append, List.any_cons, ha,
    decide_false, Bool.false_or]
  cases v.agrees x <;> simp

theorem admits_mandatory (h : Step.takeFirst? .mandatory steps = some (i, rest)) :
    v.admits steps = ((v.choice.val == i) && rest.all v.agrees) := by
  obtain ⟨before, x, after, rfl, rfl, _, hx, rfl⟩ := Step.takeFirst?_some h
  have hag : v.agrees x = (v.choice.val == x.index.val) := by
    simp [Setting.agrees, hx]
  simp only [Setting.admits, List.all_append, List.all_cons, List.any_append, List.any_cons, hx,
    decide_true, Bool.true_or, Bool.or_true, Bool.and_true, hag]
  cases v.choice.val == x.index.val <;> simp

theorem admits_of_no_mandatory (h : Step.takeFirst? .mandatory steps = none) :
    v.admits steps = (steps.all v.agrees && v.choice == 0) := by
  have hany : steps.any (·.axis = .mandatory) = false := by
    simpa using Step.takeFirst?_none.mp h
  rw [Setting.admits, hany, Bool.or_false]

end Admits

section Leads

variable {t : Target} {s s' : State} {m : Fin 4} {r : Route}

theorem leads_plain (hb : Step.opcodeBytes r.steps = []) :
    leads t s m r = if (s.setting t m).admits r.steps then some r.entry else none := by
  rw [leads, hb]
  rfl

theorem leads_eq_none (hm : m ≠ 0) (hr : ¬ r.Selects .mandatory) : leads t s m r = none := by
  have hadm (s₁ : State) : (s₁.setting t m).admits r.steps = false := by
    rw [admits_of_no_mandatory (Route.not_selects.mp hr)]
    simp [State.setting, hm]
  simp [leads, hadm]

theorem leads_selector {a : Axis} {i : Nat} (ho : a ≠ .opcode) (hm : a ≠ .mandatory)
    (hb : Step.opcodeBytes r.steps = []) (hs : s'.setting t m = s.setting t m)
    (hag : ∀ x ∈ r.steps, x.axis = a → Step.slot? a r.steps = some x.index.val →
      (s.setting t m).agrees x = (i == x.index.val)) :
    (r.through? a i).bind (leads t s' m) = leads t s m r := by
  rw [leads_plain hb]
  cases hf : Step.takeFirst? a r.steps with
  | none =>
    have hcover : a.coversByDefault i = true := by
      cases a <;> simp_all [Axis.coversByDefault]
    rw [Route.through?_of_none hf, if_pos hcover, Option.bind_some, leads_plain hb, hs]
  | some p =>
    obtain ⟨j, rest⟩ := p
    obtain ⟨x, hx, hxa, hj, hadm⟩ := admits_takeFirst? (v := s.setting t m) hf hm
    have hslot : Step.slot? a r.steps = some x.index.val := by
      rw [hj]
      exact Step.slot?_of_takeFirst? hf
    rw [Route.through?_of_some hf, hadm, hag x hx hxa hslot, hj]
    by_cases hji : j = i
    · have hrest : Step.opcodeBytes rest = [] := (Step.opcodeBytes_rest hf ho).trans hb
      simp [hji, leads_plain, hrest, hs]
    · simp [hji, Ne.symm hji]

/-- Through a table on the mandatory prefix, a route leads on where that prefix is the one chosen. -/
theorem leads_mandatory (hr : Step.Ordered r.steps) (hb : Step.opcodeBytes r.steps = []) :
    (r.through? .mandatory m.val).bind (leads t (s.spend m) 0) = leads t s m r := by
  have hall {steps : List Step} (h : Step.takeFirst? .mandatory steps = none) :
      steps.all ((s.spend m).setting t 0).agrees = steps.all (s.setting t m).agrees := by
    rw [Bool.eq_iff_iff, List.all_eq_true, List.all_eq_true]
    constructor
    · intro hx x hxs
      exact (Setting.agrees_without t m _ _ (Step.takeFirst?_none.mp h x hxs)) ▸ hx x hxs
    · intro hx x hxs
      exact (Setting.agrees_without t m _ _ (Step.takeFirst?_none.mp h x hxs)).symm ▸ hx x hxs
  rw [leads_plain hb]
  cases hf : Step.takeFirst? .mandatory r.steps with
  | none =>
    rw [Route.through?_of_none hf, admits_of_no_mandatory hf]
    by_cases hm : m = 0
    · subst hm
      simp [Axis.coversByDefault, leads_plain hb, admits_of_no_mandatory hf, State.setting]
    · have hm' : ¬ m.val = 0 := fun h => hm (Fin.ext h)
      simp [Axis.coversByDefault, hm', hm, State.setting]
  | some p =>
    obtain ⟨j, rest⟩ := p
    have hthrough := Route.through?_of_some (i := m.val) (r := r) hf
    rw [hthrough, admits_mandatory hf]
    by_cases hj : j = m.val
    · rw [if_pos hj] at hthrough ⊢
      have hnone : Step.takeFirst? .mandatory rest = none :=
        Route.not_selects.mp (Route.not_selects_through hr hthrough (by decide))
      have hrest : Step.opcodeBytes rest = [] :=
        (Step.opcodeBytes_rest hf (by decide)).trans hb
      rw [Option.bind_some, leads_plain hrest, admits_of_no_mandatory hnone, hall hnone]
      simp only [hj, State.setting, beq_self_eq_true, Bool.and_true, Bool.true_and]
    · simp [hj, Ne.symm hj, State.setting]

theorem leads_opcode {b : UInt8} (hr : r.Selects .opcode)
    (hb : s.cursor.source.get? s.cursor.position = some b) :
    (r.through? .opcode b.toNat).bind (leads t (s.step b) m) = leads t s m r := by
  cases hf : Step.takeFirst? .opcode r.steps with
  | none => exact absurd hr (Route.not_selects.mpr hf)
  | some p =>
    obtain ⟨j, rest⟩ := p
    have hj : j < 256 := Step.takeFirst?_lt hf
    have hadm (v : Setting) : v.admits r.steps = v.admits rest := by
      obtain ⟨x, _, hx, _, hadm⟩ := admits_takeFirst? (v := v) hf (by decide)
      have hag : v.agrees x = true := by simp [Setting.agrees, hx]
      rw [hadm, hag, Bool.true_and]
    have hbyte : b = UInt8.ofNat j ↔ j = b.toNat := by
      constructor
      · rintro rfl
        exact (UInt8.toNat_ofNat_of_lt hj).symm
      · rintro rfl
        exact (UInt8.ofNat_toNat).symm
    rw [Route.through?_of_some hf, leads, Step.opcodeBytes_takeFirst? hf, State.past?, hb]
    by_cases hjb : j = b.toNat
    · have hjb' := hbyte.mpr hjb
      simp only [if_pos hjb, Option.bind_some, ← hjb', ↓reduceIte, hadm]
      rfl
    · have hjb' : ¬ b = UInt8.ofNat j := fun h => hjb (hbyte.mp h)
      simp [hjb, hjb']

end Leads

end Decode
end X86
