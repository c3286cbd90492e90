import X86.Proofs.Arena

/-!
Places that are taken. Inserting a path takes every place that the path leads to, and what is inserted
later leaves none of them free: it may split up a place that an entry has taken, but then it hands the
entry on to every part that the path leads to. So a path that is inserted once more finds nothing to
do, in the tree and in its layout.
-/

namespace X86
namespace Lookup

namespace Step

def enters (a : Axis) (i : Nat) (steps : List Step) : Bool :=
  match takeFirst? a steps with
  | some (j, _) => j == i
  | none => a.coversByDefault i

theorem enters_of_some {a : Axis} {steps rest : List Step} {j : Nat}
    (h : takeFirst? a steps = some (j, rest)) (i : Nat) : enters a i steps = (j == i) := by
  rw [enters, h]

theorem enters_of_none {a : Axis} {steps : List Step} (h : takeFirst? a steps = none) (i : Nat) :
    enters a i steps = a.coversByDefault i := by
  rw [enters, h]

theorem without_of_some {a : Axis} {steps rest : List Step} {j : Nat}
    (h : takeFirst? a steps = some (j, rest)) : without a steps = rest := by
  rw [without, h]

theorem without_of_none {a : Axis} {steps : List Step} (h : takeFirst? a steps = none) :
    without a steps = steps := by
  rw [without, h]

theorem takeFirst?_cons_self (s : Step) (rest : List Step) :
    takeFirst? s.axis (s :: rest) = some (s.index.val, rest) := by
  rw [takeFirst?, if_pos rfl]

end Step

namespace Node

theorem insertAt_of_le (e : Nat) {slots : List Node} {i : Nat} (steps : List Step)
    (hi : slots.length ≤ i) : insertAt e slots i steps = slots := by
  induction slots generalizing i with
  | nil => rw [insertAt]
  | cons n ns ih =>
    obtain ⟨i, rfl⟩ := Nat.exists_eq_add_of_le' (Nat.le_trans (Nat.le_add_left 1 _) hi)
    rw [insertAt, ih (Nat.le_of_succ_le_succ hi)]

theorem insert_slots (e : Nat) (a : Axis) (slots : List Node) (steps : List Step) :
    ∃ slots', insert e (.table a slots) steps = .table a slots' ∧ slots'.length = slots.length ∧
      ∀ i < slots.length, slots'.getD i .empty =
        if Step.enters a i steps then insert e (slots.getD i .empty) (Step.without a steps)
        else slots.getD i .empty := by
  rw [insert]
  cases hfirst : Step.takeFirst? a steps with
  | some p =>
    obtain ⟨j, rest⟩ := p
    refine ⟨_, rfl, length_insertAt e slots j rest, ?_⟩
    intro i hi
    rw [Step.enters_of_some hfirst, Step.without_of_some hfirst]
    by_cases hj : j < slots.length
    · simp only [getD_insertAt e rest i hj, beq_iff_eq]
    · have hji : j ≠ i := by
        rintro rfl
        exact hj hi
      rw [insertAt_of_le e rest (Nat.le_of_not_lt hj)]
      simp [hji]
  | none =>
    refine ⟨_, rfl, length_insertAll e a slots 0 steps, ?_⟩
    intro i hi
    rw [Step.enters_of_none hfirst, Step.without_of_none hfirst, getD_insertAll e a 0 steps hi,
      Nat.zero_add]

/-- The node is closed to a path: every place that the path leads to is taken by an entry. -/
inductive Closed : Node → List Step → Prop
  | leaf (e : Nat) : Closed (.leaf e) []
  | table {a : Axis} {slots : List Node} {steps : List Step}
      (slot : ∀ i < slots.length, Step.enters a i steps = true →
        Closed (slots.getD i .empty) (Step.without a steps)) :
      Closed (.table a slots) steps

theorem closed_branch (e : Nat) (fallback : Option Nat) (steps : List Step) :
    Closed (branch e fallback steps) steps := by
  induction steps generalizing fallback with
  | nil =>
    rw [branch]
    exact .leaf e
  | cons s rest ih =>
    have hfirst := Step.takeFirst?_cons_self s rest
    rw [branch]
    refine .table fun i hi henters => ?_
    rw [Step.enters_of_some hfirst, beq_iff_eq] at henters
    rw [List.length_map, List.length_range] at hi
    rw [Step.without_of_some hfirst, getD_branch e fallback s rest hi, if_pos henters]
    exact ih _

/-- A place that is split up is handed on: wherever a path without further steps leads, the old entry
or the new one stands. -/
theorem closed_branch_nil (e old : Nat) (steps : List Step) :
    Closed (branch e (some old) steps) [] := by
  induction steps with
  | nil =>
    rw [branch]
    exact .leaf e
  | cons s rest ih =>
    rw [branch]
    refine .table fun i hi henters => ?_
    have hcovers : s.axis.coversByDefault i = true := henters
    rw [List.length_map, List.length_range] at hi
    rw [getD_branch e (some old) s rest hi, if_pos hcovers]
    split
    · exact ih
    · exact .leaf old

theorem closed_insert (e : Nat) (n : Node) (steps : List Step) : Closed (n.insert e steps) steps := by
  induction n using Node.bySlots generalizing steps with
  | empty =>
    rw [insert]
    exact closed_branch e none steps
  | leaf old =>
    cases steps with
    | nil =>
      rw [insert]
      exact .leaf old
    | cons s rest =>
      rw [insert]
      exact closed_branch e (some old) (s :: rest)
  | table a slots ih =>
    obtain ⟨slots', hinsert, hlen, hslot⟩ := insert_slots e a slots steps
    rw [hinsert]
    refine .table fun i hi henters => ?_
    rw [hlen] at hi
    rw [hslot i hi, if_pos henters]
    exact ih i _

namespace Closed

variable {n : Node} {steps : List Step}

theorem insert (h : Closed n steps) (e : Nat) (others : List Step) :
    Closed (n.insert e others) steps := by
  induction h generalizing others with
  | leaf old =>
    cases others with
    | nil =>
      rw [Node.insert]
      exact .leaf old
    | cons s rest =>
      rw [Node.insert]
      exact closed_branch_nil e old (s :: rest)
  | @table a slots steps hslot ih =>
    obtain ⟨slots', hinsert, hlen, hslot'⟩ := insert_slots e a slots others
    rw [hinsert]
    refine .table fun i hi henters => ?_
    rw [hlen] at hi
    rw [hslot' i hi]
    split
    · exact ih i hi henters _
    · exact hslot i hi henters

theorem insert_eq (h : Closed n steps) (e : Nat) : n.insert e steps = n := by
  induction h with
  | leaf old => rw [Node.insert]
  | @table a slots steps _ ih =>
    obtain ⟨slots', hinsert, hlen, hslot'⟩ := insert_slots e a slots steps
    rw [hinsert, ext_getD hlen .empty]
    intro i hi
    rw [hlen] at hi
    rw [hslot' i hi]
    split
    · next henters => exact ih i hi henters
    · rfl

end Closed

end Node

namespace Blocks

theorem write?_self {bs : Blocks} {t i : Nat} {s : Slot} (h : slot? bs t i = some s) :
    write? bs t i s = some bs := by
  obtain ⟨b, hb, hs⟩ := Option.bind_eq_some_iff.mp h
  obtain ⟨ht, rfl⟩ := Array.getElem?_eq_some_iff.mp hb
  obtain ⟨hi, rfl⟩ := List.getElem?_eq_some_iff.mp hs
  rw [write?, hb, Option.bind_some, if_pos hi, List.set_getElem_self,
    Array.setIfInBounds, dif_pos ht]
  exact congrArg some (Array.set_getElem_self ht)

section Same

variable {place : Blocks → Slot → List Step → Option (Blocks × Slot)} {bs : Blocks} {t : Nat}
  {steps : List Step}

theorem placeAt_self {i : Nat} {child : Slot} (hslot : slot? bs t i = some child)
    (hplace : place bs child steps = some (bs, child)) : placeAt place bs t i steps = some bs := by
  rw [placeAt, hslot, Option.bind_eq_bind, Option.bind_some, hplace]
  exact write?_self hslot

theorem fill_self {is : List Nat}
    (h : ∀ i ∈ is, ∃ child, slot? bs t i = some child ∧ place bs child steps = some (bs, child)) :
    fill place bs t steps is = some bs := by
  induction is with
  | nil => rw [fill]
  | cons i is ih =>
    obtain ⟨⟨child, hslot, hplace⟩, his⟩ := List.forall_mem_cons.mp h
    rw [fill, hslot, Option.bind_eq_bind, Option.bind_some, placeAt_self hslot hplace, ite_self]
    exact ih his

end Same

/-- Placing an entry in a layout of a node that is closed to its path changes no block. -/
theorem place_of_closed {n : Node} {steps : List Step} (h : n.Closed steps) {bound : Nat}
    {bs : Blocks} {s : Slot} {F : Set Nat} (hlays : Lays bound bs s n F) (entry : Nat) {depth : Nat}
    (hdepth : n.tableCount < depth) : place entry depth bs s steps = some (bs, s) := by
  induction h generalizing s F depth with
  | leaf old =>
    obtain ⟨depth, rfl⟩ := Nat.exists_eq_succ_of_ne_zero (Nat.ne_zero_of_lt hdepth)
    cases hlays
    rw [place]
  | @table a slots steps _ ih =>
    obtain ⟨depth, rfl⟩ := Nat.exists_eq_succ_of_ne_zero (Nat.ne_zero_of_lt hdepth)
    obtain ⟨t, b, rfl, hstored, rfl⟩ := hlays.exists_block
    have hslot : ∀ i < b.axis.slotCount, Step.enters b.axis i steps = true →
        ∃ child, slot? bs t i = some child ∧
          place entry depth bs child (Step.without b.axis steps) = some (bs, child) := by
      intro i hi henters
      obtain ⟨child, G, hchild, hlays', -⟩ := hlays.replace hi
      have hlt := Node.tableCount_slot_lt b.axis slots i
      exact ⟨child, hchild, ih i (hlays.length ▸ hi) henters hlays' (by omega)⟩
    rw [place, hstored, Option.bind_eq_bind, Option.bind_some]
    cases hfirst : Step.takeFirst? b.axis steps with
    | some p =>
      obtain ⟨i, rest⟩ := p
      obtain ⟨child, hchild, hplace⟩ := hslot i (Step.takeFirst?_lt hfirst)
        ((Step.enters_of_some hfirst i).trans (beq_self_eq_true i))
      rw [Step.without_of_some hfirst] at hplace
      simp [placeAt_self hchild hplace]
    | none =>
      have hfill : fill (place entry depth) bs t steps
          ((List.range b.axis.slotCount).filter b.axis.coversByDefault) = some bs := by
        refine fill_self fun i hi => ?_
        obtain ⟨hi, hcovers⟩ := List.mem_filter.mp hi
        have hslot := hslot i (List.mem_range.mp hi) ((Step.enters_of_none hfirst i).trans hcovers)
        rwa [Step.without_of_none hfirst] at hslot
      simp [hfill]

end Blocks

namespace Table

def ClosedTo (t : Table) (d : Definition) : Prop :=
  d.hasOpcode = true → t.root.Closed (Step.inOrder d.steps)

theorem ClosedTo.root_insert {t : Table} {d : Definition} (h : t.ClosedTo d) :
    (t.insert d).root = t.root := by
  rw [insert]
  split
  · next ho => exact (h ho).insert_eq t.entries.size
  · rfl

theorem ClosedTo.insert {t : Table} {d : Definition} (h : t.ClosedTo d) (d' : Definition) :
    (t.insert d').ClosedTo d := by
  intro ho
  rw [Table.insert]
  split
  · exact (h ho).insert t.entries.size (Step.inOrder d'.steps)
  · exact h ho

theorem closedTo_ofDefinitions {ds : List Definition} {d : Definition} (hd : d ∈ ds) :
    (ofDefinitions ds).ClosedTo d := by
  induction ds using List.reverseRecOn with
  | nil => cases hd
  | append_singleton ds d' ih =>
    rw [ofDefinitions_concat]
    obtain hd | hd := List.mem_append.mp hd
    · exact (ih hd).insert d'
    · obtain rfl := List.mem_singleton.mp hd
      intro ho
      rw [insert, if_pos ho]
      exact Node.closed_insert _ _ _

theorem ClosedTo.congr {t : Table} {d d' : Definition} (h : t.ClosedTo d)
    (hsteps : Step.inOrder d'.steps = Step.inOrder d.steps) : t.ClosedTo d' := by
  intro ho
  rw [hsteps]
  apply h
  rw [Definition.hasOpcode, List.any_eq_true] at ho ⊢
  obtain ⟨s, hs, haxis⟩ := ho
  exact ⟨s, Step.mem_inOrder.mp (hsteps ▸ Step.mem_inOrder.mpr hs), haxis⟩

theorem root_foldl_of_closed {t : Table} {ds : List Definition} (h : ∀ d ∈ ds, t.ClosedTo d) :
    (ds.foldl insert t).root = t.root := by
  induction ds generalizing t with
  | nil => rfl
  | cons d ds ih =>
    obtain ⟨hd, hds⟩ := List.forall_mem_cons.mp h
    rw [List.foldl_cons, ih fun d' hd' => (hds d' hd').insert d, hd.root_insert]

end Table

namespace Arena

open Blocks

theorem Represents.insert_of_closed {a : Arena} {t : Table} (h : a.Represents t) {d : Definition}
    (hd : t.ClosedTo d) : a.insert? d = some ⟨a.blocks, a.entries.push d.entry⟩ := by
  by_cases ho : d.hasOpcode = true
  · obtain ⟨s, rest, hs, haxis⟩ : ∃ s rest, Step.inOrder d.steps = s :: rest ∧ s.axis = .opcode :=
      Step.inOrder_of_opcode (by simpa [Definition.hasOpcode] using ho)
    obtain ⟨ns, hroot⟩ := h.opcode
    have hi : s.index.val < Axis.opcode.slotCount := haxis ▸ s.index.isLt
    have hfirst : Step.takeFirst? .opcode (s :: rest) = some (s.index.val, rest) :=
      haxis ▸ Step.takeFirst?_cons_self s rest
    have hlays := h.lays
    have hclosed := hd ho
    rw [hroot] at hlays hclosed
    rw [hs] at hclosed
    cases hclosed with
    | table slot =>
    have hslot := slot s.index (hlays.length ▸ hi)
      ((Step.enters_of_some hfirst s.index).trans (beq_self_eq_true _))
    rw [Step.without_of_some hfirst] at hslot
    have hdepth : (ns.getD s.index .empty).tableCount < a.blocks.size + rest.length := by
      rw [h.size_eq, Table.tableCount, hroot]
      exact Nat.lt_add_right _ (Node.tableCount_slot_lt _ ns _)
    obtain ⟨child, G, hchild, hlays', -⟩ := hlays.replace hi
    have hplace := place_of_closed hslot hlays' a.entries.size hdepth
    simp [insert?, hs, haxis, placeAt_self hchild hplace]
  · rw [insert?]
    split
    · rfl
    · next s rest hs => rw [if_neg (Step.inOrder_of_not_hasOpcode ho hs)]

theorem Represents.insert_all_of_closed {a : Arena} {t : Table} (h : a.Represents t)
    {ds : List Definition} (hds : ∀ d ∈ ds, t.ClosedTo d) :
    ∃ a', ds.foldlM insert? a = some a' ∧ a'.blocks = a.blocks := by
  induction ds generalizing a t with
  | nil => exact ⟨a, rfl, rfl⟩
  | cons d ds ih =>
    obtain ⟨hd, hds⟩ := List.forall_mem_cons.mp hds
    obtain ⟨a', hinsert, ha'⟩ := h.insert d
    rw [List.foldlM_cons, hinsert]
    rw [h.insert_of_closed hd] at hinsert
    cases hinsert
    exact ih ha' fun d' hd' => (hds d' hd').insert d

end Arena

end Lookup
end X86
