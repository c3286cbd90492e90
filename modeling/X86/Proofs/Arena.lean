import Mathlib.Data.List.Nodup
import Mathlib.Data.Set.Basic
import X86.Proofs.Additions

/-!
The lookup tree laid out in one array. Each table is a block of the array, and a slot that leads to
another table holds the number of its block. Insertion reads a slot, works on what it found there,
which may put new blocks at the end of the array, and writes the result back. An access out of range
gives `none`, and so does a descent that passes more tables than there can be. The main statement is
that neither can happen, and that what is laid out is the lookup tree.
-/

namespace X86
namespace Lookup

/-- The content of a slot: nothing, an entry, or the number of another block. -/
inductive Slot
  | empty
  | leaf (entry : Nat)
  | table (number : Nat)
  deriving DecidableEq

namespace Slot

def isLeaf : Slot → Bool
  | leaf _ => true
  | _ => false

def ofOption : Option Nat → Slot
  | some entry => leaf entry
  | none => empty

end Slot

/-- A table as it is stored. -/
structure Block where
  axis : Axis
  slots : List Slot

/-- A new table. The default stands wherever a path applies that selects no slot. -/
def Block.fresh (axis : Axis) (fallback : Option Nat) : Block where
  axis := axis
  slots := (List.range axis.slotCount).map fun i =>
    Slot.ofOption (if axis.coversByDefault i then fallback else none)

abbrev Blocks := Array Block

namespace Blocks

def slot? (bs : Blocks) (t i : Nat) : Option Slot :=
  bs[t]?.bind (·.slots[i]?)

def write? (bs : Blocks) (t i : Nat) (s : Slot) : Option Blocks :=
  bs[t]?.bind fun b =>
    if i < b.slots.length then some (bs.setIfInBounds t { b with slots := b.slots.set i s })
    else none

section Place

variable (place : Blocks → Slot → List Step → Option (Blocks × Slot))

def placeAt (bs : Blocks) (t i : Nat) (steps : List Step) : Option Blocks := do
  let child ← slot? bs t i
  let (bs', placed) ← place bs child steps
  write? bs' t i placed

/-- Change what stands in some slots of a block, except that a path does not go on to where an entry
stands at its end. -/
def fill (bs : Blocks) (t : Nat) (steps : List Step) : List Nat → Option Blocks
  | [] => some bs
  | i :: is => do
    let child ← slot? bs t i
    let bs' ← (if steps.isEmpty && child.isLeaf then some bs else placeAt place bs t i steps)
    fill bs' t steps is

end Place

/-- Put an entry at the end of a path below the given content of a slot, passing at most as many
tables as the depth says. The new content is returned and still has to be written. -/
def place (entry : Nat) : (depth : Nat) → Blocks → Slot → List Step → Option (Blocks × Slot)
  | 0, _, _, _ => none
  | _ + 1, bs, .empty, [] => some (bs, .leaf entry)
  | depth + 1, bs, .empty, s :: rest => do
    let bs' ← placeAt (place entry depth) (bs.push (.fresh s.axis none)) bs.size s.index rest
    some (bs', .table bs.size)
  | _ + 1, bs, .leaf old, [] => some (bs, .leaf old)
  | depth + 1, bs, .leaf old, s :: rest => do
    let bs' := bs.push (.fresh s.axis (some old))
    -- The selected slot holds a copy of the default at most, which gives way.
    let bs'' ←
      (if rest.isEmpty then write? bs' bs.size s.index (.leaf entry)
      else placeAt (place entry depth) bs' bs.size s.index rest)
    some (bs'', .table bs.size)
  | depth + 1, bs, .table t, steps => do
    let b ← bs[t]?
    let bs' ←
      (match Step.takeFirst? b.axis steps with
      | some (i, rest) => placeAt (place entry depth) bs t i rest
      | none =>
        fill (place entry depth) bs t steps
          ((List.range b.axis.slotCount).filter b.axis.coversByDefault))
    some (bs', .table t)

end Blocks

/-- All blocks and the entries that they lead to. -/
structure Arena where
  blocks : Blocks
  entries : Array Entry

namespace Arena

open Blocks

def empty : Arena where
  blocks := #[.fresh .opcode none]
  entries := #[]

/-- Add a definition. The first opcode byte is looked up in the first block. A descent can pass each
block once, and make one for each step. -/
def insert? (a : Arena) (d : Definition) : Option Arena := do
  let entries := a.entries.push d.entry
  match Step.inOrder d.steps with
  | [] => some ⟨a.blocks, entries⟩
  | s :: rest =>
    if s.axis = .opcode then
      let depth := a.blocks.size + rest.length
      let blocks ← placeAt (place a.entries.size depth) a.blocks 0 s.index rest
      some ⟨blocks, entries⟩
    else some ⟨a.blocks, entries⟩

def build? (as : List Addition) : Option Arena :=
  (defined as).foldlM insert? empty

end Arena

/-- The blocks with the numbers in a set are a layout of a node; the entries have numbers below a
bound. Blocks come after the block that leads to them, and what two slots lead to is apart. -/
inductive Lays (bound : Nat) (bs : Blocks) : Slot → Node → Set Nat → Prop
  | empty : Lays bound bs .empty .empty ∅
  | leaf {e : Nat} (lt : e < bound) : Lays bound bs (.leaf e) (.leaf e) ∅
  | table {t : Nat} {b : Block} {ns : List Node} {F : Nat → Set Nat} (stored : bs[t]? = some b)
      (width : b.slots.length = b.axis.slotCount) (length : ns.length = b.axis.slotCount)
      (lays : ∀ i, Lays bound bs (b.slots.getD i .empty) (ns.getD i .empty) (F i))
      (above : ∀ i, ∀ u ∈ F i, t < u) (apart : ∀ i j, ∀ u ∈ F i, u ∈ F j → i = j) :
      Lays bound bs (.table t) (.table b.axis ns) {u | u = t ∨ ∃ i, u ∈ F i}

namespace Lays

variable {bound : Nat} {bs : Blocks} {s : Slot} {n : Node} {F : Set Nat}

/-- A layout depends on its own blocks only. -/
theorem frame (h : Lays bound bs s n F) {bs' : Blocks} (hkept : ∀ u ∈ F, bs'[u]? = bs[u]?) :
    Lays bound bs' s n F := by
  induction h with
  | empty => exact .empty
  | leaf lt => exact .leaf lt
  | table stored width length _ above apart ih =>
    refine .table ((hkept _ (Or.inl rfl)).trans stored) width length ?_ above apart
    intro i
    exact ih i fun u hu => hkept u (Or.inr ⟨i, hu⟩)

theorem mono (h : Lays bound bs s n F) {bound' : Nat} (hle : bound ≤ bound') :
    Lays bound' bs s n F := by
  induction h with
  | empty => exact .empty
  | leaf lt => exact .leaf (Nat.lt_of_lt_of_le lt hle)
  | table stored width length _ above apart ih => exact .table stored width length ih above apart

theorem lt_size (h : Lays bound bs s n F) {u : Nat} (hu : u ∈ F) : u < bs.size := by
  induction h with
  | empty => exact hu.elim
  | leaf => exact hu.elim
  | table stored _ _ _ _ _ ih =>
    obtain rfl | ⟨i, hi⟩ := hu
    · exact (Array.getElem?_eq_some_iff.mp stored).1
    · exact ih i hi

theorem length {t : Nat} {axis : Axis} {ns : List Node}
    (h : Lays bound bs (.table t) (.table axis ns) F) : ns.length = axis.slotCount := by
  cases h with
  | table _ _ length => exact length

theorem exists_block {axis : Axis} {ns : List Node} (h : Lays bound bs s (.table axis ns) F) :
    ∃ t b, s = .table t ∧ bs[t]? = some b ∧ axis = b.axis := by
  cases h with
  | @table t b _ _ stored => exact ⟨t, b, rfl, stored, rfl⟩

theorem insert_of_isLeaf (h : Lays bound bs s n F) (hs : s.isLeaf = true) (entry : Nat) :
    n.insert entry [] = n := by
  cases h with
  | empty => cases hs
  | leaf => rw [Node.insert]
  | table => cases hs

end Lays

/-- What an operation on the layout with the blocks `F` may do: its blocks are afterwards those and
the new ones, and no other block has changed. -/
structure Grows (bs bs' : Blocks) (F F' : Set Nat) : Prop where
  size_le : bs.size ≤ bs'.size
  mem_iff : ∀ u, u ∈ F' ↔ u ∈ F ∨ bs.size ≤ u ∧ u < bs'.size
  kept : ∀ u < bs.size, u ∉ F → bs'[u]? = bs[u]?

namespace Grows

theorem refl (bs : Blocks) (F : Set Nat) : Grows bs bs F F where
  size_le := Nat.le_refl _
  mem_iff u := by
    rw [or_iff_left]
    rintro ⟨hle, hlt⟩
    exact absurd hlt (Nat.not_lt_of_le hle)
  kept _ _ _ := rfl

theorem trans {bs bs' bs'' : Blocks} {F F' F'' : Set Nat} (h : Grows bs bs' F F')
    (h' : Grows bs' bs'' F' F'') : Grows bs bs'' F F'' where
  size_le := Nat.le_trans h.size_le h'.size_le
  mem_iff u := by
    have hle := h.size_le
    have hle' := h'.size_le
    rw [h'.mem_iff, h.mem_iff, or_assoc]
    refine or_congr_right ?_
    omega
  kept u hu hF := by
    have hF' : u ∉ F' := by
      rw [h.mem_iff]
      rintro (hu' | ⟨hle, -⟩)
      · exact hF hu'
      · exact absurd hu (Nat.not_lt_of_le hle)
    rw [h'.kept u (Nat.lt_of_lt_of_le hu h.size_le) hF', h.kept u hu hF]

theorem write {bs bs' : Blocks} {F F' : Set Nat} (h : Grows bs bs' F F') {t : Nat} (ht : t ∈ F)
    (b : Block) : Grows bs (bs'.setIfInBounds t b) F F' where
  size_le := by
    rw [Array.size_setIfInBounds]
    exact h.size_le
  mem_iff u := by
    rw [Array.size_setIfInBounds]
    exact h.mem_iff u
  kept u hu hF := by
    have htu : t ≠ u := fun he => hF (he ▸ ht)
    rw [Array.getElem?_setIfInBounds_ne htu, h.kept u hu hF]

theorem under {bs bs' : Blocks} {F : Nat → Set Nat} {i : Nat} {G : Set Nat}
    (h : Grows bs bs' (F i) G) (t : Nat) :
    Grows bs bs' {u | u = t ∨ ∃ j, u ∈ F j} {u | u = t ∨ ∃ j, u ∈ Function.update F i G j} where
  size_le := h.size_le
  mem_iff u := by
    have hsome : (∃ j, u ∈ F j) ↔ u ∈ F i ∨ ∃ j, j ≠ i ∧ u ∈ F j := by
      rw [← Function.exists_update_iff F (p := fun _ G => u ∈ G), Function.update_eq_self]
    simp only [Set.mem_ofPred_eq, Function.exists_update_iff F (p := fun _ G => u ∈ G), hsome,
      h.mem_iff]
    rw [or_right_comm, ← or_assoc]
  kept u hu hF := h.kept u hu fun hui => hF (Or.inr ⟨i, hui⟩)

end Grows

theorem getD_set {α : Type} {l : List α} {i : Nat} (hi : i < l.length) (x d : α) (j : Nat) :
    (l.set i x).getD j d = if i = j then x else l.getD j d := by
  rw [List.getD_eq_getElem?_getD, List.getElem?_set, if_pos hi, List.getD_eq_getElem?_getD]
  split
  · rfl
  · rfl

theorem ext_getD {α : Type} {l l' : List α} (hlen : l.length = l'.length) (d : α)
    (h : ∀ i < l.length, l.getD i d = l'.getD i d) : l = l' := by
  refine List.ext_getElem hlen ?_
  intro i hi hi'
  rw [← List.getD_eq_getElem l d hi, ← List.getD_eq_getElem l' d hi', h i hi]

open Blocks

variable {bound : Nat} {bs : Blocks}

/-- The operation succeeds, and block `t` is afterwards a layout of the node. -/
def Updates (bound : Nat) (bs : Blocks) (F : Set Nat) (t : Nat) (n : Node)
    (result : Option Blocks) : Prop :=
  ∃ bs' F', result = some bs' ∧ Lays bound bs' (.table t) n F' ∧ Grows bs bs' F F'

/-- The content of a slot can be taken out of a layout, changed, and put back. -/
theorem Lays.replace {t : Nat} {axis : Axis} {ns : List Node} {F : Set Nat}
    (h : Lays bound bs (.table t) (.table axis ns) F) {i : Nat} (hi : i < axis.slotCount) :
    ∃ s G, slot? bs t i = some s ∧ Lays bound bs s (ns.getD i .empty) G ∧
      ∀ {bs' s' n' G'}, Lays bound bs' s' n' G' → Grows bs bs' G G' →
        Updates bound bs F t (.table axis (ns.set i n')) (write? bs' t i s') := by
  cases h with
  | @table _ b _ G stored width length lays above apart =>
  have hib : i < b.slots.length := width ▸ hi
  have hin : i < ns.length := length ▸ hi
  have ht : t < bs.size := (Array.getElem?_eq_some_iff.mp stored).1
  refine ⟨b.slots.getD i .empty, G i, ?_, lays i, ?_⟩
  · rw [slot?, stored, Option.bind_some, List.getElem?_eq_getElem hib, List.getD_eq_getElem _ _ hib]
  intro bs' s' n' G' hlays hgrows
  have htG : t ∉ G i := fun hmem => Nat.lt_irrefl t (above i t hmem)
  have hstored : bs'[t]? = some b := (hgrows.kept t ht htG).trans stored
  have haboveG' : ∀ u ∈ G', t < u := by
    intro u hu
    obtain hu | ⟨hle, -⟩ := (hgrows.mem_iff u).mp hu
    · exact above i u hu
    · exact Nat.lt_of_lt_of_le ht hle
  -- What another slot leads to is neither below this slot nor new.
  have hother : ∀ j ≠ i, ∀ u ∈ G j, u < bs.size ∧ u ∉ G i ∧ u ∉ G' := by
    intro j hj u hu
    have hlt := (lays j).lt_size hu
    have hui : u ∉ G i := fun hu' => hj (apart j i u hu hu')
    refine ⟨hlt, hui, ?_⟩
    rw [hgrows.mem_iff]
    rintro (hu' | ⟨hle, -⟩)
    · exact hui hu'
    · exact Nat.not_lt_of_le hle hlt
  have hwrite : write? bs' t i s' =
      some (bs'.setIfInBounds t { b with slots := b.slots.set i s' }) := by
    rw [write?, hstored, Option.bind_some, if_pos hib]
  have hkept : ∀ u, t < u →
      (bs'.setIfInBounds t { b with slots := b.slots.set i s' })[u]? = bs'[u]? :=
    fun u hu => Array.getElem?_setIfInBounds_ne (Nat.ne_of_lt hu)
  refine ⟨_, _, hwrite, ?_, (hgrows.under t).write (Or.inl rfl) _⟩
  refine Lays.table (b := { b with slots := b.slots.set i s' }) ?_ ?_ ?_ ?_ ?_ ?_
  · rw [Array.getElem?_setIfInBounds_self_of_lt (Nat.lt_of_lt_of_le ht hgrows.size_le)]
  · rw [List.length_set, width]
  · rw [List.length_set, length]
  · intro j
    rw [getD_set hib, getD_set hin]
    by_cases hj : i = j
    · subst hj
      rw [if_pos rfl, if_pos rfl, Function.update_self]
      exact hlays.frame fun u hu => hkept u (haboveG' u hu)
    · rw [if_neg hj, if_neg hj, Function.update_of_ne (Ne.symm hj)]
      refine (lays j).frame fun u hu => ?_
      obtain ⟨hlt, hui, -⟩ := hother j (Ne.symm hj) u hu
      rw [hkept u (above j u hu), hgrows.kept u hlt hui]
  · exact (Function.forall_update_iff G (p := fun _ X => ∀ u ∈ X, t < u)).mpr
      ⟨haboveG', fun j _ => above j⟩
  · intro j k u hj hk
    by_cases hji : j = i
    · by_cases hki : k = i
      · rw [hji, hki]
      · subst hji
        rw [Function.update_self] at hj
        rw [Function.update_of_ne hki] at hk
        exact absurd hj (hother k hki u hk).2.2
    · rw [Function.update_of_ne hji] at hj
      by_cases hki : k = i
      · subst hki
        rw [Function.update_self] at hk
        exact absurd hk (hother j hji u hj).2.2
      · rw [Function.update_of_ne hki] at hk
        exact apart j k u hj hk

namespace Node

def freshSlot (axis : Axis) (fallback : Option Nat) (i : Nat) : Node :=
  ofLeaf? (if axis.coversByDefault i then fallback else none)

section Fresh

variable {axis : Axis} {fallback : Option Nat} {i : Nat}

theorem freshSlot_none (axis : Axis) (i : Nat) : freshSlot axis none i = .empty := by
  rw [freshSlot, ite_self]
  rfl

theorem insert_freshSlot (entry : Nat) (s : Step) (rest : List Step) :
    (freshSlot axis fallback i).insert entry (s :: rest) =
      branch entry (if axis.coversByDefault i then fallback else none) (s :: rest) := by
  rw [freshSlot]
  cases (if axis.coversByDefault i then fallback else none) with
  | none =>
    show insert entry .empty (s :: rest) = _
    rw [insert]
  | some e =>
    show insert entry (.leaf e) (s :: rest) = _
    rw [insert]

def freshSlots (axis : Axis) (fallback : Option Nat) : List Node :=
  (List.range axis.slotCount).map (freshSlot axis fallback)

theorem getD_freshSlots (fallback : Option Nat) (hi : i < axis.slotCount) :
    (freshSlots axis fallback).getD i .empty = freshSlot axis fallback i := by
  simp [freshSlots, List.getD_eq_getElem?_getD, hi]

theorem freshSlots_none (axis : Axis) :
    freshSlots axis none = List.replicate axis.slotCount .empty := by
  refine List.eq_replicate_iff.mpr ⟨by simp [freshSlots], ?_⟩
  intro n hn
  obtain ⟨i, -, rfl⟩ := List.mem_map.mp hn
  exact freshSlot_none axis i

theorem branch_eq (entry : Nat) (fallback : Option Nat) (s : Step) (rest : List Step) :
    branch entry fallback (s :: rest) =
      .table s.axis ((freshSlots s.axis fallback).set s.index
        (branch entry (if s.axis.coversByDefault s.index then fallback else none) rest)) := by
  rw [branch]
  congr 1
  refine List.ext_getElem (by simp [freshSlots]) ?_
  intro i hi _
  by_cases h : s.index.val = i
  · simp [h]
  · simp [h, Ne.symm h, freshSlots, freshSlot]

end Fresh

end Node

open Node

section Fresh

variable {axis : Axis} {fallback : Option Nat} {i : Nat}

theorem lays_freshSlot (h : ∀ e ∈ fallback, e < bound) (hi : i < axis.slotCount) :
    Lays bound bs ((Block.fresh axis fallback).slots.getD i .empty) (freshSlot axis fallback i) ∅ := by
  have hslot : (Block.fresh axis fallback).slots.getD i .empty =
      Slot.ofOption (if axis.coversByDefault i then fallback else none) := by
    simp [Block.fresh, List.getD_eq_getElem?_getD, hi]
  rw [hslot, freshSlot]
  split
  · cases fallback with
    | none => exact .empty
    | some e => exact .leaf (h e rfl)
  · exact .empty

theorem Lays.eq_empty {s : Slot} {F : Set Nat} (h : Lays bound bs s (freshSlot axis fallback i) F) :
    F = ∅ := by
  rw [freshSlot] at h
  generalize (if axis.coversByDefault i then fallback else none) = e at h
  cases e with
  | none =>
    cases h
    rfl
  | some e =>
    cases h
    rfl

end Fresh

theorem lays_push (bound : Nat) (bs : Blocks) (axis : Axis) (fallback : Option Nat)
    (h : ∀ e ∈ fallback, e < bound) :
    ∃ F, Lays bound (bs.push (.fresh axis fallback)) (.table bs.size)
        (.table axis (freshSlots axis fallback)) F ∧
      Grows bs (bs.push (.fresh axis fallback)) ∅ F := by
  refine ⟨_, Lays.table (b := .fresh axis fallback) (F := fun _ => ∅) Array.getElem?_push_size
    (by simp [Block.fresh]) (by simp [freshSlots, Block.fresh]) ?_ (by simp) (by simp), ?_⟩
  · intro i
    by_cases hi : i < axis.slotCount
    · rw [getD_freshSlots fallback hi]
      exact lays_freshSlot h hi
    · rw [List.getD_eq_default _ _ (by simpa [Block.fresh] using hi),
        List.getD_eq_default _ _ (by simpa [freshSlots] using hi)]
      exact .empty
  · refine ⟨by simp, ?_, ?_⟩
    · intro u
      simp only [Set.mem_ofPred_eq, Set.mem_empty_iff_false, exists_false, or_false, false_or,
        Array.size_push]
      omega
    · intro u hu _
      rw [Array.getElem?_push_lt hu, Array.getElem?_eq_getElem hu]

/-- The operation inserts an entry in every layout of the node. -/
def Inserts (place : Blocks → Slot → List Step → Option (Blocks × Slot)) (bound entry : Nat)
    (n : Node) (steps : List Step) : Prop :=
  ∀ {bs s F}, Lays bound bs s n F →
    ∃ bs' s' F', place bs s steps = some (bs', s') ∧
      Lays bound bs' s' (n.insert entry steps) F' ∧ Grows bs bs' F F'

section Table

variable {place : Blocks → Slot → List Step → Option (Blocks × Slot)} {entry t i : Nat} {axis : Axis} {ns : List Node} {F : Set Nat} {steps : List Step}
  (h : Lays bound bs (.table t) (.table axis ns) F)

include h

theorem updates_placeAt (hi : i < axis.slotCount)
    (hplace : Inserts place bound entry (ns.getD i .empty) steps) :
    Updates bound bs F t (.table axis (ns.set i ((ns.getD i .empty).insert entry steps)))
      (placeAt place bs t i steps) := by
  obtain ⟨s, G, hslot, hlays, hback⟩ := h.replace hi
  obtain ⟨bs', s', G', hplaced, hlays', hgrows⟩ := hplace hlays
  rw [placeAt, hslot, Option.bind_eq_bind, Option.bind_some, hplaced]
  exact hback hlays' hgrows

/-- One round of a fill. Where an entry stands at the end of the path nothing changes, and insertion
changes nothing there either. -/
theorem updates_fill_one (hi : i < axis.slotCount)
    (hplace : Inserts place bound entry (ns.getD i .empty) steps) :
    ∃ child, slot? bs t i = some child ∧
      Updates bound bs F t (.table axis (ns.set i ((ns.getD i .empty).insert entry steps)))
        (if steps.isEmpty && child.isLeaf then some bs else placeAt place bs t i steps) := by
  obtain ⟨s, G, hslot, hlays, -⟩ := h.replace hi
  refine ⟨s, hslot, ?_⟩
  split
  · next hskip =>
    rw [Bool.and_eq_true, List.isEmpty_iff] at hskip
    obtain ⟨rfl, hleaf⟩ := hskip
    have hin : i < ns.length := h.length ▸ hi
    rw [hlays.insert_of_isLeaf hleaf, List.getD_eq_getElem _ _ hin, List.set_getElem_self]
    exact ⟨bs, F, rfl, h, .refl bs F⟩
  · exact updates_placeAt h hi hplace

theorem updates_fill {is : List Nat}
    (his : ∀ i ∈ is, i < axis.slotCount ∧ Inserts place bound entry (ns.getD i .empty) steps)
    (hnodup : is.Nodup) :
    ∃ ns', Updates bound bs F t (.table axis ns') (fill place bs t steps is) ∧
      ns'.length = ns.length ∧
      ∀ j, ns'.getD j .empty =
        if j ∈ is then (ns.getD j .empty).insert entry steps else ns.getD j .empty := by
  induction is generalizing bs ns F with
  | nil =>
    rw [fill]
    exact ⟨ns, ⟨bs, F, rfl, h, .refl bs F⟩, rfl, by simp⟩
  | cons i is ih =>
    obtain ⟨hi, his⟩ := List.forall_mem_cons.mp his
    obtain ⟨hnot, hnodup⟩ := List.nodup_cons.mp hnodup
    obtain ⟨child, hchild, bs', F', hround, hlays, hgrows⟩ := updates_fill_one h hi.1 hi.2
    have hset := getD_set (l := ns) (h.length ▸ hi.1) ((ns.getD i .empty).insert entry steps) .empty
    have hstill : ∀ j ∈ is, j < axis.slotCount ∧ Inserts place bound entry
        ((ns.set i ((ns.getD i .empty).insert entry steps)).getD j .empty) steps := by
      intro j hj
      have hij : i ≠ j := by
        rintro rfl
        exact hnot hj
      rw [hset, if_neg hij]
      exact his j hj
    obtain ⟨ns', ⟨bs'', F'', hrest, hlays', hgrows'⟩, hlen, hget⟩ := ih hlays hstill hnodup
    refine ⟨ns', ⟨bs'', F'', ?_, hlays', hgrows.trans hgrows'⟩, ?_, ?_⟩
    · rw [fill, hchild, Option.bind_eq_bind, Option.bind_some, hround]
      exact hrest
    · rw [hlen, List.length_set]
    · intro j
      rw [hget, hset]
      by_cases hij : i = j
      · subst hij
        simp [hnot]
      · simp [hij, Ne.symm hij]

end Table

namespace Node

theorem tableCounts_eq (ns : List Node) :
    tableCounts ns = ((List.range ns.length).map fun i => (ns.getD i .empty).tableCount).sum := by
  induction ns with
  | nil => rfl
  | cons n ns ih =>
    rw [tableCounts, ih, List.length_cons, List.range_succ_eq_map, List.map_cons, List.sum_cons,
      List.map_map]
    rfl

theorem tableCount_slot_lt (axis : Axis) (ns : List Node) (i : Nat) :
    (ns.getD i .empty).tableCount < (table axis ns).tableCount := by
  rw [tableCount, Nat.add_comm, Nat.lt_succ_iff]
  induction ns generalizing i with
  | nil => exact Nat.zero_le _
  | cons n ns ih =>
    rw [tableCounts]
    cases i with
    | zero => exact Nat.le_add_right _ _
    | succ i => exact Nat.le_trans (ih i) (Nat.le_add_left _ _)

theorem insertAt_eq_set (entry : Nat) {ns : List Node} {i : Nat} (steps : List Step)
    (hi : i < ns.length) :
    insertAt entry ns i steps = ns.set i ((ns.getD i .empty).insert entry steps) := by
  refine ext_getD (length_insertAt .. |>.trans List.length_set.symm) .empty ?_
  intro j _
  rw [getD_insertAt entry steps j hi, getD_set hi]
  split
  · next hij => rw [hij]
  · rfl

theorem insertAll_eq {entry : Nat} {axis : Axis} {ns ns' : List Node} {steps : List Step}
    (hlen : ns.length = axis.slotCount) (hlen' : ns'.length = ns.length)
    (h : ∀ j, ns'.getD j .empty =
      if j ∈ (List.range axis.slotCount).filter axis.coversByDefault then
        (ns.getD j .empty).insert entry steps
      else ns.getD j .empty) :
    insertAll entry axis ns 0 steps = ns' := by
  refine ext_getD (length_insertAll .. |>.trans hlen'.symm) .empty ?_
  intro j hj
  rw [length_insertAll] at hj
  rw [getD_insertAll entry axis 0 steps hj, Nat.zero_add, h]
  simp [← hlen, hj]

end Node

theorem Step.length_takeFirst? {a : Axis} {steps rest : List Step} {i : Nat}
    (h : takeFirst? a steps = some (i, rest)) : steps.length = rest.length + 1 := by
  obtain ⟨before, s, after, rfl, rfl, -⟩ := takeFirst?_some h
  simp [Nat.add_assoc]

/-- Going on below a new table. Its selected slot is free or holds the default. -/
theorem lays_branch {place : Blocks → Slot → List Step → Option (Blocks × Slot)} {entry : Nat}
    {fallback : Option Nat} (hf : ∀ e ∈ fallback, e < bound) {s : Step} {rest : List Step}
    (bs : Blocks) (hplace : Inserts place bound entry (freshSlot s.axis fallback s.index) rest) :
    ∃ bs' F', placeAt place (bs.push (.fresh s.axis fallback)) bs.size s.index rest = some bs' ∧
      Lays bound bs' (.table bs.size) (.table s.axis ((freshSlots s.axis fallback).set s.index
        ((freshSlot s.axis fallback s.index).insert entry rest))) F' ∧ Grows bs bs' ∅ F' := by
  obtain ⟨F, hlays, hgrows⟩ := lays_push bound bs s.axis fallback hf
  rw [← getD_freshSlots fallback s.index.isLt] at hplace ⊢
  obtain ⟨bs', F', hplaced, hlays', hgrows'⟩ := updates_placeAt hlays s.index.isLt hplace
  exact ⟨bs', F', hplaced, hlays', hgrows.trans hgrows'⟩

section Placing

variable {entry : Nat} (he : entry < bound)

include he

theorem inserts_empty {depth : Nat} {steps : List Step} (hdepth : steps.length < depth) :
    Inserts (place entry depth) bound entry .empty steps := by
  induction steps generalizing depth with
  | nil =>
    obtain ⟨depth, rfl⟩ := Nat.exists_eq_succ_of_ne_zero (Nat.ne_of_gt hdepth)
    intro bs s F h
    cases h
    rw [place, Node.insert, Node.branch]
    exact ⟨bs, .leaf entry, ∅, rfl, .leaf he, .refl bs ∅⟩
  | cons s rest ih =>
    obtain ⟨depth, rfl⟩ := Nat.exists_eq_succ_of_ne_zero (Nat.ne_zero_of_lt hdepth)
    intro bs s' F h
    cases h
    have hplace : Inserts (place entry depth) bound entry (freshSlot s.axis none s.index) rest := by
      rw [freshSlot_none]
      exact ih (Nat.lt_of_succ_lt_succ hdepth)
    obtain ⟨bs', F', hplaced, hlays, hgrows⟩ := lays_branch (by simp) bs hplace
    refine ⟨bs', .table bs.size, F', ?_, ?_, hgrows⟩
    · rw [place, hplaced]
      rfl
    · rw [freshSlot_none, Node.insert] at hlays
      rwa [Node.insert, branch_eq, ite_self]

theorem inserts_leaf {old depth : Nat} {steps : List Step} (hdepth : steps.length < depth) :
    Inserts (place entry depth) bound entry (.leaf old) steps := by
  induction steps generalizing depth with
  | nil =>
    obtain ⟨depth, rfl⟩ := Nat.exists_eq_succ_of_ne_zero (Nat.ne_of_gt hdepth)
    intro bs s F h
    cases h with
    | leaf lt =>
    rw [place, Node.insert]
    exact ⟨bs, .leaf old, ∅, rfl, .leaf lt, .refl bs ∅⟩
  | cons s rest ih =>
    obtain ⟨depth, rfl⟩ := Nat.exists_eq_succ_of_ne_zero (Nat.ne_zero_of_lt hdepth)
    have hdepth' : rest.length < depth := Nat.lt_of_succ_lt_succ hdepth
    intro bs s' F h
    cases h with
    | leaf lt =>
    have hold : ∀ e ∈ some old, e < bound := by simpa using lt
    rw [Node.insert, branch_eq, place]
    cases rest with
    | nil =>
      obtain ⟨F, hlays, hgrows⟩ := lays_push bound bs s.axis (some old) hold
      obtain ⟨s', G, -, hslot, hback⟩ := hlays.replace s.index.isLt
      rw [getD_freshSlots _ s.index.isLt] at hslot
      obtain rfl := hslot.eq_empty
      obtain ⟨bs', F', hwrite, hlays', hgrows'⟩ := hback (.leaf he) (.refl _ ∅)
      refine ⟨bs', .table bs.size, F', ?_, ?_, hgrows.trans hgrows'⟩
      · rw [List.isEmpty_nil, if_pos rfl, hwrite]
        rfl
      · rwa [Node.branch]
    | cons s'' rest =>
      have hplace : Inserts (place entry depth) bound entry (freshSlot s.axis (some old) s.index)
          (s'' :: rest) := by
        rw [freshSlot]
        split
        · exact ih hdepth'
        · exact inserts_empty he hdepth'
      obtain ⟨bs', F', hplaced, hlays, hgrows⟩ := lays_branch hold bs hplace
      refine ⟨bs', .table bs.size, F', ?_, ?_, hgrows⟩
      · rw [List.isEmpty_cons, if_neg Bool.false_ne_true, hplaced]
        rfl
      · rwa [insert_freshSlot] at hlays

/-- Placing an entry is inserting it. A descent passes a table of the node, or makes one for a step of
the path, so their numbers bound its depth. -/
theorem inserts_place {n : Node} {depth : Nat} {steps : List Step}
    (hdepth : n.tableCount + steps.length < depth) :
    Inserts (place entry depth) bound entry n steps := by
  induction n using Node.bySlots generalizing depth steps with
  | empty => exact inserts_empty he (Nat.lt_of_le_of_lt (Nat.le_add_left _ _) hdepth)
  | leaf old => exact inserts_leaf he (Nat.lt_of_le_of_lt (Nat.le_add_left _ _) hdepth)
  | table axis ns ih =>
    obtain ⟨depth, rfl⟩ := Nat.exists_eq_succ_of_ne_zero (Nat.ne_zero_of_lt hdepth)
    intro bs s F h
    obtain ⟨t, b, rfl, hstored, rfl⟩ := h.exists_block
    rw [place, hstored, Option.bind_eq_bind, Option.bind_some, Node.insert]
    cases hfirst : Step.takeFirst? b.axis steps with
    | some p =>
      obtain ⟨i, rest⟩ := p
      have hi := Step.takeFirst?_lt hfirst
      have hslot : (ns.getD i .empty).tableCount + rest.length < depth := by
        have hlt := tableCount_slot_lt b.axis ns i
        have hlen := Step.length_takeFirst? hfirst
        omega
      obtain ⟨bs', F', hplaced, hlays, hgrows⟩ := updates_placeAt h hi (ih i hslot)
      refine ⟨bs', .table t, F', ?_, ?_, hgrows⟩
      · simp [hplaced]
      · dsimp only
        rwa [insertAt_eq_set _ _ (h.length ▸ hi)]
    | none =>
      have hwild : ∀ i ∈ (List.range b.axis.slotCount).filter b.axis.coversByDefault,
          i < b.axis.slotCount ∧
            Inserts (place entry depth) bound entry (ns.getD i .empty) steps := by
        intro i hi
        have hlt := tableCount_slot_lt b.axis ns i
        exact ⟨List.mem_range.mp (List.mem_filter.mp hi).1, ih i (by omega)⟩
      obtain ⟨ns', ⟨bs', F', hfilled, hlays, hgrows⟩, hlen, hget⟩ :=
        updates_fill h hwild (List.nodup_range.filter _)
      refine ⟨bs', .table t, F', ?_, ?_, hgrows⟩
      · simp [hfilled]
      · dsimp only
        rwa [insertAll_eq h.length hlen hget]

end Placing

theorem Step.inOrder_of_not_hasOpcode {d : Definition} (h : ¬ d.hasOpcode = true) {s : Step}
    {rest : List Step} (hs : inOrder d.steps = s :: rest) : s.axis ≠ .opcode := by
  intro ho
  have hmem : s ∈ d.steps := mem_inOrder.mp (hs ▸ List.mem_cons_self)
  exact h (List.any_eq_true.mpr ⟨s, hmem, by simpa using ho⟩)

theorem Lays.exists_list {s : Slot} {n : Node} {F : Set Nat} (h : Lays bound bs s n F) :
    ∃ l : List Nat, l.Nodup ∧ l.length = n.tableCount ∧ ∀ u, u ∈ l ↔ u ∈ F := by
  induction h with
  | empty => exact ⟨[], by simp, by rw [Node.tableCount]; rfl, by simp⟩
  | leaf => exact ⟨[], by simp, by rw [Node.tableCount]; rfl, by simp⟩
  | @table t b ns F _ _ length _ above apart ih =>
    choose l hnodup hlen hmem using ih
    have hfree : ∀ i, ns.length ≤ i → l i = [] := by
      intro i hi
      rw [List.eq_nil_iff_length_eq_zero, hlen, Node.getD_of_le hi, Node.tableCount]
    refine ⟨t :: (List.range ns.length).flatMap l, ?_, ?_, ?_⟩
    · rw [List.nodup_cons, List.nodup_flatMap]
      refine ⟨?_, fun i _ => hnodup i, ?_⟩
      · rw [List.mem_flatMap]
        rintro ⟨i, -, hi⟩
        exact Nat.lt_irrefl t (above i t ((hmem i t).mp hi))
      · refine List.nodup_range.imp ?_
        intro i j hij u hi hj
        exact hij (apart i j u ((hmem i u).mp hi) ((hmem j u).mp hj))
    · rw [List.length_cons, List.length_flatMap, Node.tableCount, Node.tableCounts_eq, Nat.add_comm]
      simp only [hlen]
    · intro u
      rw [List.mem_cons, List.mem_flatMap]
      refine or_congr_right (exists_congr fun i => ?_)
      rw [← hmem, and_iff_right_iff_imp, List.mem_range]
      intro hi
      by_contra hle
      rw [hfree i (Nat.le_of_not_lt hle)] at hi
      cases hi

namespace Arena

/-- The blocks, all of them, are a layout of a table's tree. -/
structure Represents (a : Arena) (t : Table) : Prop where
  lays : Lays a.entries.size a.blocks (.table 0) t.root {u | u < a.blocks.size}
  opcode : ∃ ns, t.root = .table .opcode ns
  entries : a.entries = t.entries

theorem Represents.size_eq {a : Arena} {t : Table} (h : a.Represents t) :
    a.blocks.size = t.tableCount := by
  obtain ⟨l, hnodup, hlen, hmem⟩ := h.lays.exists_list
  have hperm : l.Perm (List.range a.blocks.size) := by
    rw [List.perm_ext_iff_of_nodup hnodup List.nodup_range]
    intro u
    rw [hmem, List.mem_range]
    rfl
  rw [Table.tableCount, ← hlen, hperm.length_eq, List.length_range]

theorem represents_empty : empty.Represents .empty where
  lays := by
    obtain ⟨F, hlays, hgrows⟩ := lays_push 0 #[] .opcode none (by simp)
    have hF : F = {u | u < 1} := by
      ext u
      simp [hgrows.mem_iff]
    have hfree : freshSlots .opcode none = List.replicate 256 .empty := freshSlots_none .opcode
    rw [hF, hfree] at hlays
    exact hlays
  opcode := ⟨_, rfl⟩
  entries := rfl

/-- Adding a definition succeeds and keeps in step with the table. -/
theorem Represents.insert {a : Arena} {t : Table} (h : a.Represents t) (d : Definition) :
    ∃ a', a.insert? d = some a' ∧ a'.Represents (t.insert d) := by
  have hlays : Lays (a.entries.size + 1) a.blocks (.table 0) t.root {u | u < a.blocks.size} :=
    h.lays.mono (Nat.le_succ _)
  have hentries : a.entries.push d.entry = (t.insert d).entries := by
    rw [Table.insert, h.entries]
  obtain ⟨ns, hroot⟩ := h.opcode
  by_cases ho : d.hasOpcode = true
  · obtain ⟨s, rest, hs, haxis⟩ : ∃ s rest, Step.inOrder d.steps = s :: rest ∧ s.axis = .opcode :=
      Step.inOrder_of_opcode (by simpa [Definition.hasOpcode] using ho)
    have hi : s.index.val < Axis.opcode.slotCount := haxis ▸ s.index.isLt
    rw [hroot] at hlays
    have hdepth : (ns.getD s.index .empty).tableCount + rest.length < a.blocks.size + rest.length := by
      rw [h.size_eq, Table.tableCount, hroot]
      exact Nat.add_lt_add_right (tableCount_slot_lt _ ns _) _
    obtain ⟨blocks, F, hplaced, hlays', hgrows⟩ :=
      updates_placeAt hlays hi (inserts_place (Nat.lt_succ_self a.entries.size) hdepth)
    have hinsert : (t.insert d).root =
        .table .opcode (ns.set s.index ((ns.getD s.index .empty).insert a.entries.size rest)) := by
      rw [Table.insert, if_pos ho, hs, hroot, Node.insert, Step.takeFirst?, if_pos haxis]
      dsimp only
      rw [Node.insertAt_eq_set _ _ (hlays.length ▸ hi), h.entries]
    have hF : F = {u | u < blocks.size} := by
      ext u
      have hle := hgrows.size_le
      simp only [hgrows.mem_iff, Set.mem_ofPred_eq]
      omega
    refine ⟨⟨blocks, a.entries.push d.entry⟩, ?_, ?_, ⟨_, hinsert⟩, hentries⟩
    · simp [insert?, hs, haxis, hplaced]
    · rw [hinsert, ← hF, Array.size_push]
      exact hlays'
  · have hinsert : (t.insert d).root = t.root := by
      rw [Table.insert, if_neg ho]
    refine ⟨⟨a.blocks, a.entries.push d.entry⟩, ?_, ?_, ⟨ns, hinsert.trans hroot⟩, hentries⟩
    · rw [insert?]
      split
      · rfl
      · next s rest hs => rw [if_neg (Step.inOrder_of_not_hasOpcode ho hs)]
    · rw [hinsert, Array.size_push]
      exact hlays

theorem Represents.insert_all {a : Arena} {t : Table} (h : a.Represents t) (ds : List Definition) :
    ∃ a', ds.foldlM insert? a = some a' ∧ a'.Represents (ds.foldl Table.insert t) := by
  induction ds generalizing a t with
  | nil => exact ⟨a, rfl, h⟩
  | cons d ds ih =>
    obtain ⟨a', hinsert, h'⟩ := h.insert d
    rw [List.foldlM_cons, hinsert]
    exact ih h'

/-- No run of additions fails, and it lays out the tree of its table. -/
theorem build?_represents (as : List Addition) :
    ∃ a, build? as = some a ∧ a.Represents (Table.build as).1 := by
  rw [Table.fst_build]
  exact represents_empty.insert_all (defined as)

end Arena

end Lookup
end X86
