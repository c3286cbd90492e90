import X86.Proofs.Keys

/-!
Insertion along keys. Each lemma says what inserting one path does to the way of one key: whether the
new entry takes the key over, and which tables the key passes afterwards.
-/

namespace X86
namespace Lookup

namespace Node

theorem getD_of_le {slots : List Node} {i : Nat} (h : slots.length ≤ i) :
    slots.getD i .empty = .empty := by
  rw [List.getD_eq_getElem?_getD, List.getElem?_eq_none h, Option.getD_none]

theorem getD_branch_slot (e : Nat) (fallback : Option Nat) (s : Step) (rest : List Step) (k : Key) :
    ∃ slots, branch e fallback (s :: rest) = .table s.axis slots ∧
      slots.getD (k.slot s.axis) .empty =
        if s.index.val = k.slot s.axis then
          branch e (if s.axis.coversByDefault (k.slot s.axis) then fallback else none) rest
        else ofLeaf? (if s.axis.coversByDefault (k.slot s.axis) then fallback else none) := by
  rw [branch]
  exact ⟨_, rfl, getD_branch e fallback s rest (k.slot_lt s.axis)⟩

section Branch

variable {e : Nat} {fallback : Option Nat} {steps : List Step} {k : Key}

theorem descend_branch_of_carries (h : k.Carries steps) :
    (branch e fallback steps).descend k = some e := by
  induction steps generalizing fallback k with
  | nil => rw [branch, descend_leaf]
  | cons s rest ih =>
    obtain ⟨hs, hrest⟩ := Key.carries_cons.mp h
    obtain ⟨slots, hb, hget⟩ := getD_branch_slot e fallback s rest k
    rw [hb, descend_table, hget, if_pos hs]
    exact ih hrest

/-- A key that does not carry the path keeps the default, if it is not lost on the mandatory prefix. -/
theorem descend_branch_of_not_carries (h : ¬ k.Carries steps)
    (hm : k.slot .mandatory = 0 ∨ ∀ s ∈ steps, s.axis ≠ .mandatory) :
    (branch e fallback steps).descend k = fallback := by
  induction steps generalizing k with
  | nil => exact absurd k.carries_nil h
  | cons s rest ih =>
    rw [Key.carries_cons, not_and] at h
    obtain ⟨slots, hb, hget⟩ := getD_branch_slot e fallback s rest k
    have hcover : s.axis.coversByDefault (k.slot s.axis) = true := by
      rw [Axis.coversByDefault_iff]
      intro hs
      obtain hm | hm := hm
      · rwa [hs]
      · exact absurd hs (hm s List.mem_cons_self)
    rw [hb, descend_table, hget, if_pos hcover]
    by_cases hs : s.index.val = k.slot s.axis
    · rw [if_pos hs]
      refine ih (h hs) ?_
      obtain hm | hm := hm
      · exact Or.inl (by rwa [Key.below_slot_mandatory])
      · exact Or.inr fun x hx => hm x (List.mem_cons_of_mem s hx)
    · rw [if_neg hs, descend_ofLeaf]

theorem beyond_trail_branch (h : k.Carries steps) :
    Step.beyond ((branch e fallback steps).trail k) steps = [] := by
  induction steps generalizing fallback k with
  | nil => rw [branch, trail_leaf, Step.beyond]
  | cons s rest ih =>
    obtain ⟨hs, hrest⟩ := Key.carries_cons.mp h
    obtain ⟨slots, hb, hget⟩ := getD_branch_slot e fallback s rest k
    have hwithout : Step.without s.axis (s :: rest) = rest := by
      simp [Step.without, Step.takeFirst?]
    rw [hb, trail_table, hget, if_pos hs, Step.beyond, hwithout]
    exact ih hrest

theorem of_descend_branch {x : Nat} (h : (branch e fallback steps).descend k = some x) :
    x = e ∧ k.Carries steps ∨
      fallback = some x ∧
        (.mandatory ∈ (branch e fallback steps).trail k → k.slot .mandatory = 0) := by
  induction steps generalizing fallback k with
  | nil =>
    rw [branch, descend_leaf, Option.some.injEq] at h
    exact Or.inl ⟨h.symm, k.carries_nil⟩
  | cons s rest ih =>
    obtain ⟨slots, hb, hget⟩ := getD_branch_slot e fallback s rest k
    rw [hb, trail_table, hget]
    rw [hb, descend_table, hget] at h
    by_cases hs : s.index.val = k.slot s.axis
    · rw [if_pos hs] at h ⊢
      obtain ⟨rfl, hrest⟩ | ⟨hx, hm⟩ := ih h
      · exact Or.inl ⟨rfl, Key.carries_cons.mpr ⟨hs, hrest⟩⟩
      · obtain ⟨hc, hx⟩ := Option.ite_none_right_eq_some.mp hx
        refine Or.inr ⟨hx, ?_⟩
        intro hmem
        obtain hmem | hmem := List.mem_cons.mp hmem
        · rw [hmem]
          exact Axis.coversByDefault_iff.mp hc hmem.symm
        · simpa using hm hmem
    · rw [if_neg hs, descend_ofLeaf] at h
      obtain ⟨hc, hx⟩ := Option.ite_none_right_eq_some.mp h
      refine Or.inr ⟨hx, ?_⟩
      rw [if_neg hs, trail_ofLeaf, List.mem_singleton]
      intro hmem
      rw [hmem]
      exact Axis.coversByDefault_iff.mp hc hmem.symm

theorem trail_branch_subset {a : Axis} (h : a ∈ (branch e fallback steps).trail k) :
    ∃ s ∈ steps, s.axis = a := by
  induction steps generalizing fallback k with
  | nil => simp [branch] at h
  | cons s rest ih =>
    obtain ⟨slots, hb, hget⟩ := getD_branch_slot e fallback s rest k
    rw [hb, trail_table, hget] at h
    obtain rfl | h := List.mem_cons.mp h
    · exact ⟨s, List.mem_cons_self, rfl⟩
    · split at h
      · obtain ⟨x, hx, hxa⟩ := ih h
        exact ⟨x, List.mem_cons_of_mem s hx, hxa⟩
      · simp at h

theorem ends_branch (h : k.Carries steps) : k.Ends ((branch e fallback steps).trail k) steps :=
  ⟨h, beyond_trail_branch h, fun hm => Or.inr (trail_branch_subset hm)⟩

end Branch

/-- Every table has as many slots as its axis, and a selector that was branched on above, or on one
of the given axes, is not branched on again. -/
inductive Shaped : List Axis → Node → Prop
  | empty (used : List Axis) : Shaped used .empty
  | leaf (used : List Axis) (e : Nat) : Shaped used (.leaf e)
  | table {used : List Axis} {a : Axis} {slots : List Node} (width : slots.length = a.slotCount)
      (fresh : a = .opcode ∨ a ∉ used) (slot : ∀ i, Shaped (a :: used) (slots.getD i .empty)) :
      Shaped used (.table a slots)

theorem shaped_ofLeaf (used : List Axis) (e : Option Nat) : Shaped used (ofLeaf? e) := by
  cases e with
  | none => exact .empty used
  | some e => exact .leaf used e

end Node

def Step.Fresh (used : List Axis) (steps : List Step) : Prop :=
  ∀ s ∈ steps, s.axis = .opcode ∨ s.axis ∉ used

theorem Step.Fresh.below {used : List Axis} {steps : List Step} (h : Fresh used steps)
    (hd : Distinct steps) (a : Axis) : Fresh (a :: used) (without a steps) := by
  intro s hs
  by_cases ho : s.axis = .opcode
  · exact Or.inl ho
  · right
    have hused := (h s ((without_sublist a steps).subset hs)).resolve_left ho
    have hne : s.axis ≠ a := by
      rintro rfl
      exact hd.axis_ne ho hs rfl
    simp [hne, hused]

namespace Node

theorem shaped_branch {used : List Axis} {steps : List Step} (hd : Step.Distinct steps)
    (hf : Step.Fresh used steps) (e : Nat) (fallback : Option Nat) :
    Shaped used (branch e fallback steps) := by
  induction steps generalizing used fallback with
  | nil =>
    rw [branch]
    exact .leaf used e
  | cons s rest ih =>
    have hrest : Step.Fresh (s.axis :: used) rest := by
      simpa [Step.without, Step.takeFirst?] using hf.below hd s.axis
    rw [branch]
    refine .table (by simp) (hf s List.mem_cons_self) ?_
    intro i
    by_cases hi : i < s.axis.slotCount
    · rw [getD_branch e fallback s rest hi]
      split
      · exact ih (List.pairwise_cons.mp hd).2 hrest _
      · exact shaped_ofLeaf _ _
    · rw [getD_of_le (by simpa using hi)]
      exact .empty _

theorem Shaped.insert {used : List Axis} {n : Node} (h : Shaped used n) {steps : List Step}
    (hd : Step.Distinct steps) (hf : Step.Fresh used steps) (e : Nat) :
    Shaped used (n.insert e steps) := by
  induction h generalizing steps with
  | empty used =>
    rw [Node.insert]
    exact shaped_branch hd hf e none
  | leaf used old =>
    cases steps with
    | nil =>
      rw [Node.insert]
      exact .leaf used old
    | cons s rest =>
      rw [Node.insert]
      exact shaped_branch hd hf e (some old)
  | @table used a slots width fresh slot ih =>
    obtain ⟨slots', hinsert, hwidth, hget⟩ := insert_table e steps width
    rw [hinsert]
    refine .table hwidth fresh ?_
    intro i
    by_cases hi : i < a.slotCount
    · rw [hget i hi]
      cases hq : Route.through? a i ⟨steps, e⟩ with
      | none => exact slot i
      | some q =>
        obtain ⟨rfl, -⟩ := Route.through?_eq_some_iff.mp hq
        exact ih i (hd.rest a) (hf.below hd a)
    · rw [getD_of_le (by omega)]
      exact .empty _

section InsertTable

variable {e : Nat} {a : Axis} {slots : List Node} {steps : List Step} {k : Key}

theorem way_insert_of_none (width : slots.length = a.slotCount)
    (h : Route.through? a (k.slot a) ⟨steps, e⟩ = none) :
    ((table a slots).insert e steps).descend k = (table a slots).descend k ∧
      ((table a slots).insert e steps).trail k = (table a slots).trail k := by
  obtain ⟨slots', hinsert, -, hget⟩ := insert_table e steps width
  have hslot := hget (k.slot a) (k.slot_lt a)
  rw [h] at hslot
  rw [hinsert, descend_table, descend_table, trail_table, trail_table, hslot]
  exact ⟨rfl, rfl⟩

theorem way_insert_of_some (width : slots.length = a.slotCount) {q : Route}
    (h : Route.through? a (k.slot a) ⟨steps, e⟩ = some q) :
    ((table a slots).insert e steps).descend k =
        ((slots.getD (k.slot a) .empty).insert e (Step.without a steps)).descend (k.below a) ∧
      ((table a slots).insert e steps).trail k =
        a :: ((slots.getD (k.slot a) .empty).insert e (Step.without a steps)).trail (k.below a) := by
  obtain ⟨slots', hinsert, -, hget⟩ := insert_table e steps width
  have hslot := hget (k.slot a) (k.slot_lt a)
  rw [h] at hslot
  obtain ⟨rfl, -⟩ := Route.through?_eq_some_iff.mp h
  rw [hinsert, descend_table, trail_table, hslot]
  exact ⟨rfl, rfl⟩

end InsertTable

section Insert

variable {used : List Axis} {n : Node} {e : Nat} {steps : List Step} {k : Key}

/-- A path that a key matches takes over if the key reached nothing, or if the path goes on past the
leaf that the key reached. -/
theorem Shaped.descend_insert (h : Shaped used n) (hk : k.Enters used steps) :
    (n.insert e steps).descend k =
      if n.descend k = none ∨ Step.beyond (n.trail k) steps ≠ [] then some e else n.descend k := by
  induction h generalizing steps k with
  | empty used =>
    rw [Node.insert, descend_branch_of_carries hk.1]
    simp
  | leaf used old =>
    cases steps with
    | nil =>
      rw [Node.insert]
      simp [Step.beyond]
    | cons s rest =>
      rw [Node.insert, descend_branch_of_carries hk.1]
      simp [Step.beyond]
  | @table used a slots width fresh slot ih =>
    obtain ⟨hthrough, hbelow⟩ := (Key.enters_iff fresh e).mp hk
    rw [(way_insert_of_some width hthrough).1, descend_table, trail_table, Step.beyond]
    exact ih _ hbelow

/-- A path that a key does not match leaves the key where it is, unless it is the first on its way to
branch on a mandatory prefix. -/
theorem Shaped.descend_insert_of_not_enters (h : Shaped used n) (hk : ¬ k.Enters used steps)
    (hd : Step.Distinct steps) (hf : Step.Fresh used steps)
    (hm : k.slot .mandatory = 0 ∨ .mandatory ∈ used ∨ .mandatory ∈ n.trail k) {old : Nat}
    (hold : n.descend k = some old) : (n.insert e steps).descend k = some old := by
  induction h generalizing steps k with
  | empty used => simp at hold
  | leaf used _ =>
    cases steps with
    | nil => rwa [Node.insert]
    | cons s rest =>
      rw [trail_leaf] at hm
      have hcarries : ¬ k.Carries (s :: rest) := by
        intro hc
        refine hk ⟨hc, ?_⟩
        obtain hm | hm | hm := hm
        · exact Or.inr (Or.inl hm)
        · exact Or.inl hm
        · cases hm
      have hlost : k.slot .mandatory = 0 ∨ ∀ x ∈ s :: rest, x.axis ≠ .mandatory := by
        obtain hm | hm | hm := hm
        · exact Or.inl hm
        · right
          intro x hx hxm
          have hused := (hf x hx).resolve_left (by rw [hxm]; decide)
          rw [hxm] at hused
          exact hused hm
        · cases hm
      rw [Node.insert, descend_branch_of_not_carries hcarries hlost]
      simpa using hold
  | @table used a slots width fresh slot ih =>
    cases hq : Route.through? a (k.slot a) ⟨steps, e⟩ with
    | none => rwa [(way_insert_of_none width hq).1]
    | some q =>
      have hbelow : ¬ (k.below a).Enters (a :: used) (Step.without a steps) := by
        intro hb
        obtain ⟨rfl, -⟩ := Route.through?_eq_some_iff.mp hq
        exact hk ((Key.enters_iff fresh e).mpr ⟨hq, hb⟩)
      rw [(way_insert_of_some width hq).1]
      rw [descend_table] at hold
      refine ih _ hbelow (hd.rest a) (hf.below hd a) ?_ hold
      rw [trail_table, List.mem_cons] at hm
      obtain hm | hm | rfl | hm := hm
      · exact Or.inl (by rwa [Key.below_slot_mandatory])
      · exact Or.inr (Or.inl (List.mem_cons_of_mem a hm))
      · exact Or.inr (Or.inl List.mem_cons_self)
      · exact Or.inr (Or.inr hm)

theorem Shaped.trail_insert (h : Shaped used n) : n.trail k <+: (n.insert e steps).trail k := by
  induction h generalizing steps k with
  | empty used => simp
  | leaf used old => simp
  | @table used a slots width fresh slot ih =>
    cases hq : Route.through? a (k.slot a) ⟨steps, e⟩ with
    | none => exact (way_insert_of_none width hq).2 ▸ List.prefix_rfl
    | some q =>
      rw [(way_insert_of_some width hq).2, trail_table]
      exact List.cons_prefix_cons.mpr ⟨rfl, ih _⟩

theorem Shaped.beyond_trail_insert (h : Shaped used n) (hk : k.Enters used steps) :
    Step.beyond ((n.insert e steps).trail k) steps = [] := by
  induction h generalizing steps k with
  | empty used =>
    rw [Node.insert]
    exact beyond_trail_branch hk.1
  | leaf used old =>
    cases steps with
    | nil =>
      rw [Node.insert, trail_leaf, Step.beyond]
    | cons s rest =>
      rw [Node.insert]
      exact beyond_trail_branch hk.1
  | @table used a slots width fresh slot ih =>
    obtain ⟨hthrough, hbelow⟩ := (Key.enters_iff fresh e).mp hk
    rw [(way_insert_of_some width hthrough).2, Step.beyond]
    exact ih _ hbelow

theorem Shaped.of_descend_insert (h : Shaped used n) {x : Nat}
    (hx : (n.insert e steps).descend k = some x) :
    x = e ∧ k.Ends ((n.insert e steps).trail k) steps ∨
      n.descend k = some x ∧
        (.mandatory ∈ (n.insert e steps).trail k →
          k.slot .mandatory = 0 ∨ .mandatory ∈ n.trail k) := by
  induction h generalizing steps k with
  | empty used =>
    rw [Node.insert] at hx ⊢
    obtain ⟨rfl, hc⟩ | ⟨hn, -⟩ := of_descend_branch hx
    · exact Or.inl ⟨rfl, ends_branch hc⟩
    · cases hn
  | leaf used old =>
    cases steps with
    | nil =>
      rw [Node.insert] at hx ⊢
      exact Or.inr ⟨hx, Or.inr⟩
    | cons s rest =>
      rw [Node.insert] at hx ⊢
      obtain ⟨rfl, hc⟩ | ⟨hold, hm⟩ := of_descend_branch hx
      · exact Or.inl ⟨rfl, ends_branch hc⟩
      · rw [descend_leaf]
        exact Or.inr ⟨hold, fun h => Or.inl (hm h)⟩
  | @table used a slots width fresh slot ih =>
    cases hq : Route.through? a (k.slot a) ⟨steps, e⟩ with
    | none =>
      rw [(way_insert_of_none width hq).1] at hx
      rw [(way_insert_of_none width hq).2]
      exact Or.inr ⟨hx, Or.inr⟩
    | some q =>
      obtain ⟨-, htaken, hcover⟩ := Route.through?_eq_some_iff.mp hq
      rw [(way_insert_of_some width hq).1] at hx
      rw [(way_insert_of_some width hq).2, descend_table, trail_table]
      obtain ⟨rfl, hends⟩ | ⟨hold, hm⟩ := ih _ hx
      · refine Or.inl ⟨rfl, (Key.carries_iff a).mpr ⟨htaken, hends.carries⟩, hends.usedUp, ?_⟩
        intro hmem
        obtain rfl | hmem := List.mem_cons.mp hmem
        · by_cases hs : ∃ s ∈ steps, s.axis = .mandatory
          · exact Or.inr hs
          · have hnone : Step.takeFirst? .mandatory steps = none :=
              Step.takeFirst?_none.mpr fun s hs' ha => hs ⟨s, hs', ha⟩
            exact Or.inl (Axis.coversByDefault_iff.mp (hcover hnone) rfl)
        · obtain hm | ⟨s, hs, ha⟩ := hends.settled hmem
          · exact Or.inl (by rwa [Key.below_slot_mandatory] at hm)
          · exact Or.inr ⟨s, (Step.without_sublist a steps).subset hs, ha⟩
      · refine Or.inr ⟨hold, ?_⟩
        intro hmem
        obtain rfl | hmem := List.mem_cons.mp hmem
        · exact Or.inr List.mem_cons_self
        · obtain hm | hm := hm hmem
          · exact Or.inl (by rwa [Key.below_slot_mandatory] at hm)
          · exact Or.inr (List.mem_cons_of_mem a hm)

end Insert

section Clash

theorem clashesAt_eq (slots : List Node) (i : Nat) (steps : List Step) :
    clashesAt slots i steps = (slots.getD i .empty).clashes steps := by
  induction slots generalizing i with
  | nil => simp [clashesAt, clashes]
  | cons n ns ih =>
    cases i with
    | zero => rw [clashesAt, List.getD_cons_zero]
    | succ i => rw [clashesAt, ih, List.getD_cons_succ]

theorem clashesAll_ne_zero {a : Axis} {slots : List Node} {first : Nat} {steps : List Step} :
    clashesAll a slots first steps ≠ 0 ↔
      ∃ i < slots.length, a.coversByDefault (first + i) = true ∧
        ¬ (steps = [] ∧ (slots.getD i .empty).isLeaf = true) ∧
        (slots.getD i .empty).clashes steps ≠ 0 := by
  induction slots generalizing first with
  | nil => simp [clashesAll]
  | cons n ns ih =>
    have hrest : clashesAll a ns (first + 1) steps ≠ 0 ↔
        ∃ i, i + 1 < (n :: ns).length ∧ a.coversByDefault (first + (i + 1)) = true ∧
          ¬ (steps = [] ∧ ((n :: ns).getD (i + 1) .empty).isLeaf = true) ∧
          ((n :: ns).getD (i + 1) .empty).clashes steps ≠ 0 := by
      simpa [Nat.add_assoc, Nat.add_comm 1] using @ih (first + 1)
    rw [clashesAll, ← Nat.or_exists_add_one, ← hrest, ne_eq, Nat.add_eq_zero_iff, not_and_or]
    refine or_congr_left ?_
    simp [imp_iff_not_or, and_assoc]

/-- A path clashes below a table if what is left of it clashes in a slot that it passes. A leaf that
the finished path is passed down to is no clash. -/
theorem clashes_table_ne_zero {a : Axis} {slots : List Node} (width : slots.length = a.slotCount)
    {steps : List Step} :
    (table a slots).clashes steps ≠ 0 ↔
      ∃ i < a.slotCount,
        Route.through? a i ⟨steps, 0⟩ = some ⟨Step.without a steps, 0⟩ ∧
        ¬ (steps = [] ∧ (slots.getD i .empty).isLeaf = true) ∧
        (slots.getD i .empty).clashes (Step.without a steps) ≠ 0 := by
  rw [clashes]
  cases hf : Step.takeFirst? a steps with
  | some p =>
    obtain ⟨j, rest⟩ := p
    have hwithout : Step.without a steps = rest := by simp [Step.without, hf]
    have hne : steps ≠ [] := by
      rintro rfl
      simp [Step.takeFirst?] at hf
    simp only [Route.through?_of_some (r := ⟨steps, 0⟩) hf, clashesAt_eq, hwithout]
    constructor
    · intro hc
      exact ⟨j, Step.takeFirst?_lt hf, if_pos rfl, fun h => hne h.1, hc⟩
    · rintro ⟨i, -, hi, -, hc⟩
      obtain ⟨rfl, -⟩ := Option.ite_none_right_eq_some.mp hi
      exact hc
  | none =>
    have hwithout : Step.without a steps = steps := by simp [Step.without, hf]
    simp [Route.through?_of_none (r := ⟨steps, 0⟩) hf, clashesAll_ne_zero, hwithout, width]

theorem ne_nil_of_exhausts {n : Node} {a : Axis} {steps : List Step} {k : Key}
    (hleaf : ¬ (steps = [] ∧ n.isLeaf = true)) (hc : n.clashes (Step.without a steps) ≠ 0)
    (hk : Step.Exhausts (n.trail k) (Step.without a steps)) : steps ≠ [] := by
  rintro rfl
  cases n with
  | empty => simp [clashes] at hc
  | leaf e => exact hleaf ⟨rfl, rfl⟩
  | table c inner =>
    rw [trail_table] at hk
    exact hk.1 (by simp [Step.without, Step.takeFirst?])

theorem Shaped.exists_key_of_clashes {used : List Axis} {n : Node} (h : Shaped used n)
    {steps : List Step} (hd : Step.Distinct steps) (hf : Step.Fresh used steps)
    (hc : n.clashes steps ≠ 0) (above : Key) :
    ∃ k : Key, (∀ a ∈ used, a ≠ .opcode → k.selected a = above.selected a) ∧
      k.Enters used steps ∧ n.descend k ≠ none ∧ Step.Exhausts (n.trail k) steps := by
  induction h generalizing steps above with
  | empty used => simp [clashes] at hc
  | leaf used e =>
    cases steps with
    | cons s rest => simp [clashes] at hc
    | nil =>
      by_cases hm : .mandatory ∈ used
      · exact ⟨above, fun _ _ _ => rfl, ⟨above.carries_nil, Or.inl hm⟩, by simp,
          by simp [Step.Exhausts]⟩
      · refine ⟨above.taking .mandatory ⟨0, by decide⟩, ?_, ⟨Key.carries_nil _, ?_⟩, by simp,
          by simp [Step.Exhausts]⟩
        · intro a ha _
          exact Key.taking_selected_of_ne _ _ (by rintro rfl; exact hm ha)
        · right
          left
          rw [Key.slot_of_ne _ (by decide), Key.taking_selected]
  | @table used a slots width fresh slot ih =>
    obtain ⟨i, hi, hthrough, hleaf, hslot⟩ := (clashes_table_ne_zero width).mp hc
    -- The key below the table, put together with the slot, is the key above it.
    have hlift (k below : Key) (hki : k.slot a = i) (hkb : k.below a = below)
        (henters : below.Enters (a :: used) (Step.without a steps))
        (hreach : (slots.getD i .empty).descend below ≠ none)
        (hends : Step.Exhausts ((slots.getD i .empty).trail below) (Step.without a steps)) :
        k.Enters used steps ∧ (Node.table a slots).descend k ≠ none ∧
          Step.Exhausts ((Node.table a slots).trail k) steps := by
      subst hkb
      rw [descend_table, trail_table, hki]
      exact ⟨(Key.enters_iff fresh 0).mpr ⟨hki.symm ▸ hthrough, henters⟩, hreach,
        ne_nil_of_exhausts hleaf hslot hends, hends⟩
    by_cases ha : a = .opcode
    · subst ha
      obtain ⟨below, hab, henters, hreach, hends⟩ := ih i (hd.rest _) (hf.below hd _) hslot above
      refine ⟨below.behind (UInt8.ofNat i), ?_, hlift _ _ ?_ (below.below_behind _) henters hreach hends⟩
      · intro c hused hco
        exact hab c (List.mem_cons_of_mem _ hused) hco
      · exact UInt8.toNat_ofNat_of_lt hi
    · obtain ⟨below, hab, henters, hreach, hends⟩ :=
        ih i (hd.rest _) (hf.below hd _) hslot (above.taking a ⟨i, hi⟩)
      refine ⟨below, ?_, hlift _ _ ?_ (below.below_of_ne ha) henters hreach hends⟩
      · intro c hused hco
        have hca : c ≠ a := by
          rintro rfl
          exact fresh.resolve_left ha hused
        rw [hab c (List.mem_cons_of_mem a hused) hco, Key.taking_selected_of_ne _ _ hca]
      · rw [below.slot_of_ne ha, hab a List.mem_cons_self ha, Key.taking_selected]

/-- A path clashes if it is used up exactly where the way of one of its keys ends in a leaf. -/
theorem Shaped.clashes_ne_zero {used : List Axis} {n : Node} (h : Shaped used n) {steps : List Step}
    (hd : Step.Distinct steps) (hf : Step.Fresh used steps) :
    n.clashes steps ≠ 0 ↔
      ∃ k : Key, k.Enters used steps ∧ n.descend k ≠ none ∧ Step.Exhausts (n.trail k) steps := by
  constructor
  · intro hc
    obtain ⟨k, -, hk⟩ := h.exists_key_of_clashes hd hf hc ⟨fun _ => 0, fun a => ⟨0, a.slotCount_pos⟩⟩
    exact ⟨k, hk⟩
  · rintro ⟨k, hk, hreach, hends⟩
    induction h generalizing steps k with
    | empty used => simp at hreach
    | leaf used e =>
      rw [trail_leaf] at hends
      subst hends
      simp [clashes]
    | @table used a slots width fresh slot ih =>
      obtain ⟨hthrough, hbelow⟩ := (Key.enters_iff fresh 0).mp hk
      rw [descend_table] at hreach
      rw [trail_table] at hends
      refine (clashes_table_ne_zero width).mpr ⟨k.slot a, k.slot_lt a, hthrough, ?_, ?_⟩
      · exact fun hleaf => hends.1 hleaf.1
      · exact ih _ (hd.rest a) (hf.below hd a) _ hbelow hreach hends.2

end Clash

end Node

end Lookup
end X86
