import X86.Proofs.Branching

/-!
Keys. A key settles everything that a table can branch on: opcode bytes without end, and a slot on
every other axis. It has one way through the lookup tree. Inserting a path changes where a key ends
only if the path stays on the key's way to its end; there it takes over if the key ended nowhere, or
if steps of the path are left that go on past the leaf.
-/

namespace X86
namespace Lookup

namespace Step

/-- The path without its first step on an axis. -/
def without (a : Axis) (steps : List Step) : List Step :=
  match takeFirst? a steps with
  | some (_, rest) => rest
  | none => steps

/-- What is left of a path behind tables on the given axes, each of which takes a step of its own. -/
def beyond : List Axis → List Step → List Step
  | [], steps => steps
  | a :: trail, steps => beyond trail (without a steps)

theorem mem_of_takeFirst? {a : Axis} {steps rest : List Step} {i : Nat}
    (h : takeFirst? a steps = some (i, rest)) :
    ∃ s, s.axis = a ∧ s.index.val = i ∧ ∀ x, x ∈ steps ↔ x = s ∨ x ∈ rest := by
  obtain ⟨before, s, after, rfl, rfl, -, hs, hi⟩ := takeFirst?_some h
  refine ⟨s, hs, hi, ?_⟩
  intro x
  simp only [List.mem_append, List.mem_cons]
  constructor
  · rintro (h | rfl | h)
    · exact Or.inr (Or.inl h)
    · exact Or.inl rfl
    · exact Or.inr (Or.inr h)
  · rintro (rfl | h | h)
    · exact Or.inr (Or.inl rfl)
    · exact Or.inl h
    · exact Or.inr (Or.inr h)

theorem without_sublist (a : Axis) (steps : List Step) : (without a steps).Sublist steps := by
  unfold without
  split
  · next i rest h =>
    obtain ⟨before, s, after, rfl, rfl, -⟩ := takeFirst?_some h
    exact (List.sublist_cons_self s after).append_left before
  · exact List.Sublist.refl steps

theorem Distinct.rest {steps : List Step} (h : Distinct steps) (a : Axis) :
    Distinct (without a steps) :=
  h.sublist (without_sublist a steps)

theorem mem_without {a : Axis} {steps : List Step} {s : Step} (hs : s ∈ steps) (ha : s.axis ≠ a) :
    s ∈ without a steps := by
  unfold without
  split
  · next i rest h =>
    obtain ⟨x, hx, -, hmem⟩ := mem_of_takeFirst? h
    obtain rfl | hrest := (hmem s).mp hs
    · exact absurd hx ha
    · exact hrest
  · exact hs

theorem Distinct.axis_ne {steps : List Step} (h : Distinct steps) {a : Axis} (ha : a ≠ .opcode)
    {s : Step} (hs : s ∈ without a steps) : s.axis ≠ a := by
  unfold without at hs
  split at hs
  · next i rest hf =>
    obtain ⟨before, x, after, rfl, rfl, hb, hx, -⟩ := takeFirst?_some hf
    rw [Distinct, List.pairwise_append, List.pairwise_cons] at h
    obtain hs | hs := List.mem_append.mp hs
    · exact hb s hs
    · intro hsa
      exact ha (hx.symm.trans (h.2.1.1 s hs (hx.trans hsa.symm)))
  · next hf => exact takeFirst?_none.mp hf s hs

theorem Distinct.ordered {steps : List Step} (h : Distinct steps) : Distinct (inOrder steps) := by
  refine h.ordered_inOrder.imp ?_
  intro x y hxy heq
  obtain hlt | ⟨hx, -⟩ := hxy
  · rw [heq] at hlt
    exact absurd hlt (Nat.lt_irrefl _)
  · exact hx

theorem length_opcodeBytes_without (a : Axis) (steps : List Step) :
    (opcodeBytes (without a steps)).length =
      (opcodeBytes steps).length - if a = .opcode then 1 else 0 := by
  unfold without
  cases hf : takeFirst? a steps with
  | none =>
    by_cases ha : a = .opcode
    · subst ha
      simp [opcodeBytes_eq_nil.mpr hf]
    · simp [ha]
  | some p =>
    obtain ⟨i, rest⟩ := p
    by_cases ha : a = .opcode
    · subst ha
      simp [opcodeBytes_takeFirst? hf]
    · simp [ha, opcodeBytes_rest hf ha]

/-- A path is used up if there is a table for each of its opcode bytes and one on the axis of each
of its selectors. -/
theorem Distinct.beyond_eq_nil {steps : List Step} (h : Distinct steps) {trail : List Axis} :
    beyond trail steps = [] ↔
      (opcodeBytes steps).length ≤ trail.count .opcode ∧
        ∀ s ∈ steps, s.axis ≠ .opcode → s.axis ∈ trail := by
  induction trail generalizing steps with
  | nil =>
    rw [beyond]
    constructor
    · rintro rfl
      simp [opcodeBytes]
    · rintro ⟨hb, hs⟩
      rw [List.eq_nil_iff_forall_not_mem]
      intro s hmem
      by_cases ho : s.axis = .opcode
      · have hnil : opcodeBytes steps = [] := by simpa using hb
        exact takeFirst?_none.mp (opcodeBytes_eq_nil.mp hnil) s hmem ho
      · exact absurd (hs s hmem ho) List.not_mem_nil
  | cons a trail ih =>
    rw [beyond, ih (h.rest a), length_opcodeBytes_without, List.count_cons]
    refine and_congr ?_ ?_
    · by_cases ha : a = .opcode
      · simp [ha]
      · simp [ha]
    · constructor
      · intro hs s hmem ho
        by_cases ha : s.axis = a
        · exact ha ▸ List.mem_cons_self
        · exact List.mem_cons_of_mem a (hs s (mem_without hmem ha) ho)
      · intro hs s hmem ho
        have hin := hs s ((without_sublist a steps).subset hmem) ho
        refine (List.mem_cons.mp hin).resolve_left ?_
        rintro rfl
        exact h.axis_ne ho hmem rfl

theorem Distinct.mem_trail {steps : List Step} (h : Distinct steps) {trail : List Axis}
    (hend : beyond trail steps = []) {s : Step} (hs : s ∈ steps) : s.axis ∈ trail := by
  obtain ⟨hb, hsel⟩ := h.beyond_eq_nil.mp hend
  by_cases ho : s.axis = .opcode
  · have hne : opcodeBytes steps ≠ [] := by
      rw [ne_eq, opcodeBytes_eq_nil, takeFirst?_none]
      exact fun hnone => hnone s hs ho
    rw [ho, ← List.count_pos_iff]
    exact Nat.lt_of_lt_of_le (List.length_pos_iff.mpr hne) hb
  · exact hsel s hs ho

theorem beyond_eq_nil_mono {steps : List Step} (h : Distinct steps) {trail trail' : List Axis}
    (hsub : trail <+: trail') (hend : beyond trail steps = []) : beyond trail' steps = [] := by
  rw [h.beyond_eq_nil] at hend ⊢
  refine ⟨Nat.le_trans hend.1 (hsub.sublist.count_le _), ?_⟩
  intro s hs ho
  exact hsub.subset (hend.2 s hs ho)

/-- The path is used up by the last of the tables, and not before. -/
def Exhausts : List Axis → List Step → Prop
  | [], steps => steps = []
  | a :: trail, steps => steps ≠ [] ∧ Exhausts trail (without a steps)

theorem Exhausts.beyond_eq_nil {trail : List Axis} {steps : List Step} (h : Exhausts trail steps) :
    beyond trail steps = [] := by
  induction trail generalizing steps with
  | nil => exact h
  | cons a trail ih => exact ih h.2

end Step

/-- What a table is asked for: the opcode bytes ahead, and the slot on every other axis. The slot
given for the opcode does not count. -/
structure Key where
  bytes : Nat → UInt8
  selected : (a : Axis) → Fin a.slotCount

namespace Key

def slot (k : Key) : Axis → Nat
  | .opcode => (k.bytes 0).toNat
  | a => k.selected a

/-- What the key is below a table: an opcode byte has been used up. -/
def below (k : Key) : Axis → Key
  | .opcode => { k with bytes := fun i => k.bytes (i + 1) }
  | _ => k

/-- The opcode bytes of the path start those of the key, and its selectors have the key's slots. -/
structure Carries (k : Key) (steps : List Step) : Prop where
  bytes : ∀ i b, (Step.opcodeBytes steps)[i]? = some b → k.bytes i = b
  selectors : ∀ s ∈ steps, s.axis ≠ .opcode → k.selected s.axis = s.index

/-- The key carries the path. A path that leaves the mandatory prefix open counts only where there
is none. -/
def Matches (k : Key) (steps : List Step) : Prop :=
  k.Carries steps ∧ (k.slot .mandatory = 0 ∨ ∃ s ∈ steps, s.axis = .mandatory)

/-- The key matches what is left of a path below tables on the given axes. The mandatory prefix is
settled once there was a table on it. -/
def Enters (k : Key) (used : List Axis) (steps : List Step) : Prop :=
  k.Carries steps ∧
    (.mandatory ∈ used ∨ k.slot .mandatory = 0 ∨ ∃ s ∈ steps, s.axis = .mandatory)

theorem enters_nil {k : Key} {steps : List Step} : k.Enters [] steps ↔ k.Matches steps := by
  simp [Enters, Matches]

/-- The key was led by tables on the given axes to the end of a path. -/
structure Ends (k : Key) (trail : List Axis) (steps : List Step) : Prop where
  carries : k.Carries steps
  usedUp : Step.beyond trail steps = []
  settled : .mandatory ∈ trail → k.slot .mandatory = 0 ∨ ∃ s ∈ steps, s.axis = .mandatory

theorem slot_of_ne (k : Key) {a : Axis} (h : a ≠ .opcode) : k.slot a = (k.selected a).val := by
  cases a with
  | opcode => exact absurd rfl h
  | _ => rfl

theorem below_of_ne (k : Key) {a : Axis} (h : a ≠ .opcode) : k.below a = k := by
  cases a with
  | opcode => exact absurd rfl h
  | _ => rfl

theorem slot_lt (k : Key) (a : Axis) : k.slot a < a.slotCount := by
  by_cases h : a = .opcode
  · subst h
    exact (k.bytes 0).toNat_lt
  · rw [slot_of_ne k h]
    exact (k.selected a).isLt

@[simp] theorem below_selected (k : Key) (a : Axis) : (k.below a).selected = k.selected := by
  cases a <;> rfl

@[simp] theorem below_slot_mandatory (k : Key) (a : Axis) :
    (k.below a).slot .mandatory = k.slot .mandatory := by
  cases a <;> rfl

def taking (k : Key) (a : Axis) (i : Fin a.slotCount) : Key :=
  { k with selected := Function.update k.selected a i }

def behind (k : Key) (b : UInt8) : Key :=
  { k with
    bytes := fun
      | 0 => b
      | i + 1 => k.bytes i }

theorem taking_selected (k : Key) (a : Axis) (i : Fin a.slotCount) :
    (k.taking a i).selected a = i :=
  Function.update_self ..

theorem taking_selected_of_ne (k : Key) {a c : Axis} (i : Fin a.slotCount) (h : c ≠ a) :
    (k.taking a i).selected c = k.selected c :=
  Function.update_of_ne h ..

theorem below_behind (k : Key) (b : UInt8) : (k.behind b).below .opcode = k :=
  rfl

theorem carries_of_opcode {k : Key} {steps rest : List Step} {i : Nat}
    (h : Step.takeFirst? .opcode steps = some (i, rest)) :
    k.Carries steps ↔ i = k.slot .opcode ∧ (k.below .opcode).Carries rest := by
  obtain ⟨s, hsa, -, hmem⟩ := Step.mem_of_takeFirst? h
  have hi : i < 256 := Step.takeFirst?_lt h
  have hcons := Step.opcodeBytes_takeFirst? h
  have hfirst : k.bytes 0 = UInt8.ofNat i ↔ i = k.slot .opcode := by
    constructor
    · intro h
      rw [slot, h]
      exact (UInt8.toNat_ofNat_of_lt hi).symm
    · rintro rfl
      exact UInt8.ofNat_toNat.symm
  constructor
  · rintro ⟨hb, hs⟩
    refine ⟨hfirst.mp (hb 0 _ (by rw [hcons]; rfl)), ?_, ?_⟩
    · intro j b hj
      exact hb (j + 1) b (by rw [hcons]; exact hj)
    · intro x hx hxo
      exact hs x ((hmem x).mpr (Or.inr hx)) hxo
  · rintro ⟨hslot, hb, hs⟩
    refine ⟨?_, ?_⟩
    · intro j b hj
      rw [hcons] at hj
      cases j with
      | zero => exact (hfirst.mpr hslot).trans (by simpa using hj)
      | succ j => exact hb j b (by simpa using hj)
    · intro x hx hxo
      obtain rfl | hx := (hmem x).mp hx
      · exact absurd hsa hxo
      · exact hs x hx hxo

theorem carries_of_selector {k : Key} {a : Axis} {steps rest : List Step} {i : Nat}
    (ha : a ≠ .opcode) (h : Step.takeFirst? a steps = some (i, rest)) :
    k.Carries steps ↔ i = k.slot a ∧ k.Carries rest := by
  obtain ⟨s, rfl, hsi, hmem⟩ := Step.mem_of_takeFirst? h
  have hbytes := Step.opcodeBytes_rest h ha
  rw [slot_of_ne k ha]
  constructor
  · rintro ⟨hb, hs⟩
    refine ⟨?_, ?_, ?_⟩
    · rw [hs s ((hmem s).mpr (Or.inl rfl)) ha, hsi]
    · rwa [hbytes]
    · intro x hx
      exact hs x ((hmem x).mpr (Or.inr hx))
  · rintro ⟨hslot, hb, hs⟩
    refine ⟨by rwa [hbytes] at hb, ?_⟩
    intro x hx hxo
    obtain rfl | hx := (hmem x).mp hx
    · exact Fin.ext (hslot.symm.trans hsi.symm)
    · exact hs x hx hxo

theorem carries_of_none {k : Key} {a : Axis} {steps : List Step}
    (h : Step.takeFirst? a steps = none) : k.Carries steps ↔ (k.below a).Carries steps := by
  by_cases ha : a = .opcode
  · subst ha
    have hnil := Step.opcodeBytes_eq_nil.mpr h
    constructor
    · rintro ⟨-, hs⟩
      exact ⟨by simp [hnil], hs⟩
    · rintro ⟨-, hs⟩
      exact ⟨by simp [hnil], hs⟩
  · rw [below_of_ne k ha]

/-- A path is carried step by step: the step that a table takes has the key's slot, and below the
table the key carries the rest. -/
theorem carries_iff {k : Key} {steps : List Step} (a : Axis) :
    k.Carries steps ↔
      (∀ i rest, Step.takeFirst? a steps = some (i, rest) → i = k.slot a) ∧
        (k.below a).Carries (Step.without a steps) := by
  unfold Step.without
  cases hf : Step.takeFirst? a steps with
  | none => simpa using carries_of_none hf
  | some p =>
    obtain ⟨i, rest⟩ := p
    have htaken : (∀ j rest', some (i, rest) = some (j, rest') → j = k.slot a) ↔ i = k.slot a := by
      simp
    rw [htaken]
    by_cases ha : a = .opcode
    · subst ha
      exact carries_of_opcode hf
    · rw [below_of_ne k ha]
      exact carries_of_selector ha hf

theorem carries_cons {k : Key} {s : Step} {rest : List Step} :
    k.Carries (s :: rest) ↔ s.index.val = k.slot s.axis ∧ (k.below s.axis).Carries rest := by
  rw [carries_iff s.axis]
  simp [Step.without, Step.takeFirst?]

theorem carries_nil (k : Key) : k.Carries [] :=
  ⟨by simp [Step.opcodeBytes], by simp⟩

end Key

theorem Axis.slotCount_pos (a : Axis) : 0 < a.slotCount := by
  cases a <;> decide

theorem Axis.coversByDefault_iff {a : Axis} {i : Nat} :
    a.coversByDefault i = true ↔ (a = .mandatory → i = 0) := by
  cases a <;> simp [coversByDefault]

namespace Route

theorem through?_eq_some_iff {a : Axis} {i : Nat} {r q : Route} :
    r.through? a i = some q ↔
      q = ⟨Step.without a r.steps, r.entry⟩ ∧
        (∀ j rest, Step.takeFirst? a r.steps = some (j, rest) → j = i) ∧
        (Step.takeFirst? a r.steps = none → a.coversByDefault i = true) := by
  unfold Step.without
  cases hf : Step.takeFirst? a r.steps with
  | none =>
    rw [through?_of_none hf]
    by_cases hc : a.coversByDefault i = true
    · simp [hc, @eq_comm _ q]
    · simp [hc]
  | some p =>
    obtain ⟨j, rest⟩ := p
    rw [through?_of_some hf]
    by_cases hj : j = i
    · simp [hj, @eq_comm _ q]
    · simp [hj]

end Route

namespace Key

variable {k : Key} {used : List Axis} {steps : List Step}

theorem enters_iff {a : Axis} (fresh : a = .opcode ∨ a ∉ used) (e : Nat) :
    k.Enters used steps ↔
      Route.through? a (k.slot a) ⟨steps, e⟩ = some ⟨Step.without a steps, e⟩ ∧
        (k.below a).Enters (a :: used) (Step.without a steps) := by
  have hselects : a ≠ .mandatory →
      ((∃ s ∈ Step.without a steps, s.axis = .mandatory) ↔ ∃ s ∈ steps, s.axis = .mandatory) := by
    intro ha
    constructor
    · rintro ⟨s, hs, hm⟩
      exact ⟨s, (Step.without_sublist a steps).subset hs, hm⟩
    · rintro ⟨s, hs, hm⟩
      exact ⟨s, Step.mem_without hs (by rw [hm]; exact ha.symm), hm⟩
  have htaken : Step.takeFirst? a steps = none ↔ ¬ ∃ s ∈ steps, s.axis = a := by
    simp [Step.takeFirst?_none]
  simp only [Enters, Route.through?_eq_some_iff, true_and, Axis.coversByDefault_iff,
    below_slot_mandatory, List.mem_cons]
  rw [carries_iff a]
  by_cases hm : a = .mandatory
  · subst hm
    have hfresh : .mandatory ∉ used := fresh.resolve_left (by decide)
    simp only [hfresh, false_or, htaken, forall_const, true_or, and_true, ← or_iff_not_imp_left,
      or_comm (a := ∃ s ∈ steps, s.axis = .mandatory)]
    exact and_right_comm
  · simp only [hm, Ne.symm hm, false_implies, implies_true, and_true, false_or, hselects hm]
    exact and_assoc

end Key

namespace Node

mutual

/-- The axes of the tables that a key passes, and the entry that it reaches. -/
def way : Node → Key → List Axis × Option Nat
  | empty, _ => ([], none)
  | leaf e, _ => ([], some e)
  | table a slots, k =>
    let w := waySlot slots (k.slot a) (k.below a)
    (a :: w.1, w.2)

def waySlot : List Node → Nat → Key → List Axis × Option Nat
  | [], _, _ => ([], none)
  | n :: _, 0, k => way n k
  | _ :: ns, i + 1, k => waySlot ns i k

end

def descend (n : Node) (k : Key) : Option Nat :=
  (n.way k).2

def trail (n : Node) (k : Key) : List Axis :=
  (n.way k).1

theorem waySlot_eq (slots : List Node) (i : Nat) (k : Key) :
    waySlot slots i k = (slots.getD i .empty).way k := by
  induction slots generalizing i with
  | nil => simp [waySlot, way]
  | cons n ns ih =>
    cases i with
    | zero => rw [waySlot, List.getD_cons_zero]
    | succ i => rw [waySlot, ih, List.getD_cons_succ]

section Way

variable (k : Key)

@[simp] theorem descend_empty : empty.descend k = none := by
  rw [descend, way]

@[simp] theorem descend_leaf (e : Nat) : (leaf e).descend k = some e := by
  rw [descend, way]

@[simp] theorem trail_empty : empty.trail k = [] := by
  rw [trail, way]

@[simp] theorem trail_leaf (e : Nat) : (leaf e).trail k = [] := by
  rw [trail, way]

theorem descend_table (a : Axis) (slots : List Node) :
    (table a slots).descend k = (slots.getD (k.slot a) .empty).descend (k.below a) := by
  rw [descend, way, waySlot_eq, descend]

theorem trail_table (a : Axis) (slots : List Node) :
    (table a slots).trail k = a :: (slots.getD (k.slot a) .empty).trail (k.below a) := by
  rw [trail, way, waySlot_eq, trail]

@[simp] theorem descend_ofLeaf (e : Option Nat) : (ofLeaf? e).descend k = e := by
  cases e <;> simp [Node.ofLeaf?]

@[simp] theorem trail_ofLeaf (e : Option Nat) : (ofLeaf? e).trail k = [] := by
  cases e <;> simp [Node.ofLeaf?]

end Way

end Node

end Lookup
end X86
