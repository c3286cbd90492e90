import X86.Proofs.Arena
import X86.Proofs.Selection

/-!
What the layout of a lookup tree means for single blocks. Every block but the first is led to by one
slot of one block, which comes before it. So a descent by block numbers is a descent through the tree:
every slot that it asks for is there, and it ends.
-/

namespace X86
namespace Lookup

open Blocks

variable {bound : Nat} {bs : Blocks}

theorem Blocks.slot?_eq_some {t i : Nat} {s : Slot} {b : Block} (ht : bs[t]? = some b) :
    slot? bs t i = some s ↔ i < b.slots.length ∧ b.slots.getD i .empty = s := by
  rw [slot?, ht, Option.bind_some, List.getElem?_eq_some_iff]
  constructor
  · rintro ⟨hi, rfl⟩
    exact ⟨hi, List.getD_eq_getElem _ _ hi⟩
  · rintro ⟨hi, rfl⟩
    exact ⟨hi, (List.getD_eq_getElem _ _ hi).symm⟩

theorem Blocks.lt_size_of_slot? {t i : Nat} {s : Slot} (h : slot? bs t i = some s) :
    t < bs.size := by
  obtain ⟨b, hb, -⟩ := Option.bind_eq_some_iff.mp h
  exact (Array.getElem?_eq_some_iff.mp hb).1

namespace Lays

variable {s : Slot} {n : Node} {F : Set Nat} {t u i : Nat}

theorem mem_self (h : Lays bound bs (.table t) n F) : t ∈ F := by
  cases h
  exact Or.inl rfl

theorem entry_lt {e : Nat} (h : Lays bound bs (.leaf e) n F) : e < bound := by
  cases h with
  | leaf lt => exact lt

theorem eq_empty_iff (h : Lays bound bs s n F) : s = .empty ↔ n.isEmpty = true := by
  cases h <;> simp [Node.isEmpty]

theorem le_of_mem (h : Lays bound bs (.table t) n F) (hu : u ∈ F) : t ≤ u := by
  cases h with
  | table _ _ _ _ above =>
  obtain rfl | ⟨i, hi⟩ := hu
  · exact Nat.le_refl _
  · exact Nat.le_of_lt (above i u hi)

theorem within (h : Lays bound bs s n F) (ht : t ∈ F) :
    ∃ n' F', Lays bound bs (.table t) n' F' ∧ F' ⊆ F := by
  induction h with
  | empty => exact ht.elim
  | leaf => exact ht.elim
  | table stored width length lays above apart ih =>
    obtain rfl | ⟨i, hi⟩ := ht
    · exact ⟨_, _, .table stored width length lays above apart, subset_rfl⟩
    · obtain ⟨n', F', h', hsub⟩ := ih i hi
      exact ⟨n', F', h', fun u hu => Or.inr ⟨i, hsub hu⟩⟩

theorem slot (h : Lays bound bs (.table t) n F) (hs : slot? bs t i = some s) :
    ∃ G, Lays bound bs s (n.child i) G ∧ G ⊆ F ∧ ∀ u ∈ G, t < u := by
  cases h with
  | @table _ b ns G stored _ _ lays above =>
  obtain ⟨-, rfl⟩ := (slot?_eq_some stored).mp hs
  exact ⟨G i, lays i, fun u hu => Or.inr ⟨i, hu⟩, above i⟩

theorem ascends (h : Lays bound bs s n F) (ht : t ∈ F) (hs : slot? bs t i = some (.table u)) :
    t < u ∧ u ∈ F := by
  obtain ⟨n', F', h', hsub⟩ := h.within ht
  obtain ⟨G, hG, hGF, habove⟩ := h'.slot hs
  exact ⟨habove u hG.mem_self, hsub (hGF hG.mem_self)⟩

theorem exists_reference (h : Lays bound bs s n F) (hu : u ∈ F) :
    s = .table u ∨ ∃ t i, slot? bs t i = some (.table u) := by
  induction h with
  | empty => exact hu.elim
  | leaf => exact hu.elim
  | @table t b ns F stored width _ _ _ _ ih =>
    obtain rfl | ⟨i, hi⟩ := hu
    · exact Or.inl rfl
    · right
      obtain hslot | href := ih i hi
      · refine ⟨t, i, (slot?_eq_some stored).mpr ⟨?_, hslot⟩⟩
        by_contra hle
        rw [List.getD_eq_default _ _ (Nat.le_of_not_lt hle)] at hslot
        cases hslot
      · exact href

/-- No block is led to twice. The two references stand below different slots of some block, in which
case what they lead to is apart, or one of them is above the other, in which case it leads further
down. -/
theorem reference_unique (h : Lays bound bs s n F) {t' i' : Nat} (ht : t ∈ F) (ht' : t' ∈ F)
    (hs : slot? bs t i = some (.table u)) (hs' : slot? bs t' i' = some (.table u)) :
    t = t' ∧ i = i' := by
  induction h with
  | empty => exact ht.elim
  | leaf => exact ht.elim
  | @table r b ns F stored _ _ lays _ apart ih =>
    -- A block to which the first block leads is not led to from further down.
    have hroot : ∀ {k j v l}, slot? bs r k = some (.table u) → v ∈ F j →
        slot? bs v l ≠ some (.table u) := by
      intro k j v l hk hv hsv
      obtain ⟨-, hk⟩ := (slot?_eq_some stored).mp hk
      have hlays := lays k
      rw [hk] at hlays
      obtain ⟨hlt, hu⟩ := (lays j).ascends hv hsv
      obtain rfl := apart k j u hlays.mem_self hu
      exact Nat.not_lt_of_le (hlays.le_of_mem hv) hlt
    obtain rfl | ⟨j, hj⟩ := ht
    · obtain rfl | ⟨k, hk⟩ := ht'
      · refine ⟨rfl, ?_⟩
        have hi := lays i
        have hi' := lays i'
        rw [((slot?_eq_some stored).mp hs).2] at hi
        rw [((slot?_eq_some stored).mp hs').2] at hi'
        exact apart i i' u hi.mem_self hi'.mem_self
      · exact absurd hs' (hroot hs hk)
    · obtain rfl | ⟨k, hk⟩ := ht'
      · exact absurd hs (hroot hs' hj)
      · obtain rfl := apart j k u ((lays j).ascends hj hs).2 ((lays k).ascends hk hs').2
        exact ih j hj hk

end Lays

namespace Blocks

def Refers (bs : Blocks) (t u : Nat) : Prop :=
  ∃ i, slot? bs t i = some (.table u)

def selectors (bs : Blocks) (ts : List Nat) : List Axis :=
  (ts.filterMap fun t => bs[t]?.map (·.axis)).filter (· ≠ .opcode)

theorem selectors_cons {t : Nat} {b : Block} (ht : bs[t]? = some b) (ts : List Nat) :
    selectors bs (t :: ts) =
      if b.axis = .opcode then selectors bs ts else b.axis :: selectors bs ts := by
  rw [selectors, List.filterMap_cons_some (b := b.axis) (by rw [ht]; rfl), List.filter_cons]
  by_cases ho : b.axis = .opcode
  · simp [ho, selectors]
  · simp [ho, selectors]

theorem nodup_selectors {n : Node} {used : List Axis} (hn : Node.Shaped used n) {t : Nat}
    {F : Set Nat} (h : Lays bound bs (.table t) n F) {ts : List Nat}
    (hts : (t :: ts).IsChain (Refers bs)) :
    (selectors bs (t :: ts)).Nodup ∧ ∀ a ∈ selectors bs (t :: ts), a ∉ used := by
  induction ts generalizing n used t F with
  | nil =>
    cases h with
    | table stored =>
    cases hn with
    | table _ fresh =>
    rw [selectors_cons stored]
    split
    · simp [selectors]
    · next ho => simpa [selectors, ho] using fresh
  | cons u ts ih =>
    obtain ⟨⟨i, hi⟩, hts⟩ := List.isChain_cons_cons.mp hts
    obtain ⟨G, hG, -, -⟩ := h.slot hi
    cases h with
    | table stored =>
    cases hn with
    | table _ fresh hslot =>
    obtain ⟨hnodup, hfresh⟩ := ih (hslot i) hG hts
    simp only [List.mem_cons, not_or] at hfresh
    rw [selectors_cons stored]
    split
    · exact ⟨hnodup, fun a ha => (hfresh a ha).2⟩
    · next ho =>
      refine ⟨List.nodup_cons.mpr ⟨fun hmem => (hfresh _ hmem).1 rfl, hnodup⟩, ?_⟩
      rw [List.forall_mem_cons]
      exact ⟨fresh.resolve_left ho, fun a ha => (hfresh a ha).2⟩

open Decode (State setPrefixes repeatSlot slotOn)

/-- The descent below a block on the mandatory prefix once F2 and F3 are out of the question. -/
def walkSized (walk : Slot → State → Option (EStateM.Result Fault State Nat)) (b : Block)
    (s : State) : Option (EStateM.Result Fault State Nat) := do
  let plain ← b.slots[0]?
  if s.prefixes.operandSize then
    let next ← b.slots[1]?
    let result ← walk next (setPrefixes (fun p => { p with operandSize := false }) s)
    match result with
    | .error .unknownOpcode s' =>
      walk plain (setPrefixes (fun p => { p with operandSize := true }) s')
    | result => some result
  else walk plain s

/-- Descend to an entry by block numbers, passing fewer blocks than the depth says. -/
def walk (bs : Blocks) (t : Target) :
    (depth : Nat) → Slot → State → Option (EStateM.Result Fault State Nat)
  | 0, _, _ => none
  | _ + 1, .empty, s => some (.error .unknownOpcode s)
  | _ + 1, .leaf entry, s => some (.ok entry s)
  | depth + 1, .table number, s => do
    let b ← bs[number]?
    if b.axis = .mandatory then
      match s.prefixes.repeated with
      | some r => do
        let next ← b.slots[repeatSlot r]?
        let result ← walk bs t depth next (setPrefixes (fun p => { p with repeated := none }) s)
        match result with
        | .error .unknownOpcode s' =>
          walkSized (walk bs t depth) b (setPrefixes (fun p => { p with repeated := some r }) s')
        | result => some result
      | none => walkSized (walk bs t depth) b s
    else if b.axis = .vendor then do
      let first ← b.slots[0]?
      let second ← b.slots[1]?
      match t.vendor with
      | .amd => walk bs t depth first s
      | .intel => walk bs t depth second s
      | .any => walk bs t depth (if first = .empty then second else first) s
    else
      match slotOn t b.axis s with
      | .ok i s' => do
        let next ← b.slots[i]?
        walk bs t depth next s'
      | .error e s' => some (.error e s')

end Blocks

end Lookup

namespace Decode

open Lookup

theorem slotOn_lt (t : Target) {a : Axis} (hm : a ≠ .mandatory) (hv : a ≠ .vendor) {s s' : State}
    {i : Nat} (h : slotOn t a s = .ok i s') : i < a.slotCount := by
  by_cases ho : a = .opcode
  · subst ho
    rw [slotOn_opcode_run] at h
    split at h
    · next b _ =>
      cases h
      exact b.toNat_lt
    · cases h
  · obtain ⟨herror, -⟩ | ⟨j, s₁, hok, hj, -⟩ := settled_slotOn t ho hm hv s
    · rw [herror] at h
      cases h
    · rw [hok] at h
      cases h
      exact hj

theorem orElse_modify_run {m next : Decode Nat} {spend restore : PrefixState → PrefixState}
    {s : State} {g : State → Option (EStateM.Result Fault State Nat)}
    (hg : ∀ s', g s' = some (next (setPrefixes restore s'))) :
    (match m (setPrefixes spend s) with
      | .error .unknownOpcode s' => g s'
      | result => some result) =
    some (orElse (do modify (setPrefixes spend); m) restore next s) := by
  have hrun : (do modify (setPrefixes spend); m : Decode Nat) s = m (setPrefixes spend s) := rfl
  rw [orElse, hrun]
  cases m (setPrefixes spend s) with
  | ok e s' => rfl
  | error f s' =>
    cases f with
    | unknownOpcode => exact hg s'
    | _ => rfl

section Walk

variable {bs : Blocks} {t : Target} {depth : Nat} {b : Block} {ns : List Node}
  (hslots : ∀ i < b.axis.slotCount, b.slots[i]? = some (b.slots.getD i .empty))
  (hwalk : ∀ i s, bs.walk t depth (b.slots.getD i .empty) s = some (resolve t (ns.getD i .empty) s))

include hslots hwalk

theorem walkSized_eq (haxis : b.axis = .mandatory) (s : State) :
    Blocks.walkSized (bs.walk t depth) b s = some (resolveSized t ns s) := by
  rw [haxis] at hslots
  rw [Blocks.walkSized, hslots 0 (by decide), hslots 1 (by decide)]
  simp only [Option.bind_eq_bind, Option.bind_some, hwalk]
  cases hsize : s.prefixes.operandSize with
  | false =>
    rw [resolveSized_false t ns hsize]
    rfl
  | true =>
    rw [resolveSized_true t ns hsize, if_pos rfl]
    exact orElse_modify_run fun s' => rfl

theorem walk_mandatory {number : Nat} (hb : bs[number]? = some b) (haxis : b.axis = .mandatory)
    (s : State) : bs.walk t (depth + 1) (.table number) s = some (resolveMandatory t ns s) := by
  have hsized := walkSized_eq hslots hwalk haxis
  rw [Blocks.walk, hb, Option.bind_eq_bind, Option.bind_some, if_pos haxis]
  rw [haxis] at hslots
  cases hrep : s.prefixes.repeated with
  | none =>
    rw [resolveMandatory_none t ns hrep]
    exact hsized s
  | some r =>
    have hr : repeatSlot r < Axis.mandatory.slotCount := by
      cases r <;> decide
    rw [resolveMandatory_some t ns hrep]
    simp only [hslots _ hr, Option.bind_eq_bind, Option.bind_some, hwalk]
    exact orElse_modify_run fun s' => hsized _

theorem walk_vendor {number : Nat} (hb : bs[number]? = some b) (haxis : b.axis = .vendor)
    (hempty : b.slots.getD 0 .empty = .empty ↔ (ns.getD 0 .empty).isEmpty = true) (s : State) :
    bs.walk t (depth + 1) (.table number) s =
      some (resolve t (ns.getD (vendorSlot t.vendor ns) .empty) s) := by
  have hm : b.axis ≠ .mandatory := by
    rw [haxis]
    decide
  rw [haxis] at hslots
  rw [Blocks.walk, hb, Option.bind_eq_bind, Option.bind_some, if_neg hm, if_pos haxis,
    hslots 0 (by decide), hslots 1 (by decide)]
  simp only [Option.bind_eq_bind, Option.bind_some, vendorSlot]
  cases t.vendor with
  | amd => exact hwalk 0 s
  | intel => exact hwalk 1 s
  | any =>
    by_cases he : b.slots.getD 0 .empty = .empty
    · simp only [if_pos he, if_pos (hempty.mp he)]
      exact hwalk 1 s
    · simp only [if_neg he, if_neg (mt hempty.mpr he)]
      exact hwalk 0 s

theorem walk_axis {number : Nat} (hb : bs[number]? = some b) (hm : b.axis ≠ .mandatory)
    (hv : b.axis ≠ .vendor) (s : State) :
    bs.walk t (depth + 1) (.table number) s =
      some ((slotOn t b.axis >>= fun i => resolve t (ns.getD i .empty)) s) := by
  rw [Blocks.walk, hb, Option.bind_eq_bind, Option.bind_some, if_neg hm, if_neg hv, bind_run]
  cases hslot : slotOn t b.axis s with
  | ok i s' =>
    simp only [hslots i (slotOn_lt t hm hv hslot), Option.bind_eq_bind, Option.bind_some]
    exact hwalk i s'
  | error e s' => rfl

end Walk

/-- A descent by block numbers through a layout is a descent through the node. It passes each table of
the node once at most. -/
theorem walk_eq {bound : Nat} {bs : Blocks} {slot : Slot} {n : Node} {F : Set Nat}
    (h : Lays bound bs slot n F) {depth : Nat} (hdepth : n.tableCount < depth) (t : Target)
    (s : State) : bs.walk t depth slot s = some (resolve t n s) := by
  induction h generalizing depth s with
  | empty =>
    obtain ⟨depth, rfl⟩ := Nat.exists_eq_succ_of_ne_zero (Nat.ne_zero_of_lt hdepth)
    rw [Blocks.walk, resolve_empty]
    rfl
  | leaf =>
    obtain ⟨depth, rfl⟩ := Nat.exists_eq_succ_of_ne_zero (Nat.ne_zero_of_lt hdepth)
    rw [Blocks.walk, resolve_leaf]
    rfl
  | @table number b ns _ stored width _ lays _ _ ih =>
    obtain ⟨depth, rfl⟩ := Nat.exists_eq_succ_of_ne_zero (Nat.ne_zero_of_lt hdepth)
    have hslots : ∀ i < b.axis.slotCount, b.slots[i]? = some (b.slots.getD i .empty) := by
      intro i hi
      rw [← width] at hi
      rw [List.getElem?_eq_getElem hi, List.getD_eq_getElem _ _ hi]
    have hwalk (i : Nat) (s : State) :
        bs.walk t depth (b.slots.getD i .empty) s = some (resolve t (ns.getD i .empty) s) :=
      ih i (Nat.lt_of_lt_of_le (Node.tableCount_slot_lt b.axis ns i) (Nat.le_of_lt_succ hdepth)) s
    by_cases hm : b.axis = .mandatory
    · rw [walk_mandatory hslots hwalk stored hm, hm, resolve_mandatory]
    by_cases hv : b.axis = .vendor
    · rw [walk_vendor hslots hwalk stored hv (lays 0).eq_empty_iff, hv, resolve_vendor]
    · rw [walk_axis hslots hwalk stored hm hv, resolve_axis t ns hm hv]

end Decode

namespace Lookup
namespace Arena

open Blocks

/-- The blocks form one tree under the first block. -/
structure IsTree (a : Arena) : Prop where
  root : ∃ b, a.blocks[0]? = some b ∧ b.axis = .opcode
  width : ∀ (t : Nat) (b : Block), a.blocks[t]? = some b → b.slots.length = b.axis.slotCount
  leaf_lt : ∀ t i e, a.blocks.slot? t i = some (.leaf e) → e < a.entries.size
  ascends : ∀ t i u, a.blocks.slot? t i = some (.table u) → t < u ∧ u < a.blocks.size
  referenced : ∀ u, 0 < u → u < a.blocks.size →
    ∃! p : Nat × Nat, a.blocks.slot? p.1 p.2 = some (.table u)

namespace Represents

variable {a : Arena} {t : Table} (h : a.Represents t)

include h

theorem isTree : a.IsTree where
  root := by
    obtain ⟨ns, hroot⟩ := h.opcode
    have hlays := h.lays
    rw [hroot] at hlays
    obtain ⟨u, b, hu, hstored, haxis⟩ := hlays.exists_block
    cases hu
    exact ⟨b, hstored, haxis.symm⟩
  width u b hu := by
    obtain ⟨n, F, hlays, -⟩ := h.lays.within (Array.getElem?_eq_some_iff.mp hu).1
    cases hlays with
    | table stored width =>
    rw [stored] at hu
    cases hu
    exact width
  leaf_lt u i e hs := by
    obtain ⟨n, F, hlays, -⟩ := h.lays.within (lt_size_of_slot? hs)
    obtain ⟨G, hleaf, -⟩ := hlays.slot hs
    exact hleaf.entry_lt
  ascends u i v hs := h.lays.ascends (lt_size_of_slot? hs) hs
  referenced u hpos hu := by
    obtain hroot | ⟨v, i, hs⟩ := h.lays.exists_reference hu
    · cases hroot
      exact absurd hpos (Nat.lt_irrefl 0)
    · refine ⟨(v, i), hs, ?_⟩
      rintro ⟨v', i'⟩ hs'
      obtain ⟨rfl, rfl⟩ :=
        h.lays.reference_unique (lt_size_of_slot? hs') (lt_size_of_slot? hs) hs' hs
      rfl

theorem walk_first {i : Nat} (hi : i < 256) :
    ∃ slot, a.blocks.slot? 0 i = some slot ∧
      ∀ depth, a.blocks.size ≤ depth → ∀ (target : Target) (s : Decode.State),
        a.blocks.walk target depth slot s =
          some (Decode.resolve target (t.root.child i) s) := by
  have hsize := h.size_eq
  have hlays := h.lays
  obtain ⟨ns, hroot⟩ := h.opcode
  rw [Table.tableCount, hroot] at hsize
  rw [hroot] at hlays ⊢
  obtain ⟨slot, G, hslot, hchild, -⟩ := hlays.replace (i := i) hi
  refine ⟨slot, hslot, fun depth hdepth => Decode.walk_eq hchild ?_⟩
  have hlt := Node.tableCount_slot_lt .opcode ns i
  omega

end Represents

/-- Every run of additions lays out a tree, whatever the paths say. The tree is that of the table;
if no path selects twice on one axis, no way down branches twice on one; and the descent from any
first byte finds every slot it asks for and ends before it has passed as many blocks as there are,
with the same result as in the tree. -/
theorem exists_tree_of_additions (as : List Addition) :
    ∃ a, build? as = some a ∧ a.IsTree ∧ a.Represents (Table.build as).1 ∧
      a.blocks.size = (Table.build as).1.tableCount ∧
      ((∀ d ∈ defined as, Step.Distinct d.steps) →
        ∀ ts, (0 :: ts).IsChain a.blocks.Refers → (a.blocks.selectors (0 :: ts)).Nodup) ∧
      ∀ i < 256, ∃ slot, a.blocks.slot? 0 i = some slot ∧
        ∀ depth, a.blocks.size ≤ depth → ∀ (target : Target) (s : Decode.State),
          a.blocks.walk target depth slot s =
            some (Decode.resolve target ((Table.build as).1.root.child i) s) := by
  obtain ⟨a, hbuild, h⟩ := build?_represents as
  refine ⟨a, hbuild, h.isTree, h, h.size_eq, ?_, fun i hi => h.walk_first hi⟩
  intro hdistinct ts hts
  have hshaped : Node.Shaped [] (Table.build as).1.root := by
    rw [Table.fst_build]
    exact Table.shaped_of_distinct hdistinct
  exact (nodup_selectors hshaped h.lays hts).1

/-- Two paths that share their opcode bytes, one without an opcode byte and one that cannot be read. -/
def sharedAdditions : List Addition :=
  [⟨"0f c7 /sse=66 /reg=6 /mod=mem", .VMCLEAR, [], 0⟩, ⟨"0f c7 /reg=6 /vendor=amd", .VMPTRLD, [], 0⟩,
    ⟨"/reg=1", .NOP, [], 0⟩, ⟨"0f /x=1", .NOP, [], 0⟩]

theorem exists_tree_of_sharedAdditions :
    (∀ d ∈ defined sharedAdditions, Step.Distinct d.steps) ∧
      ∃ a, build? sharedAdditions = some a ∧ a.IsTree ∧ a.blocks.size = 7 ∧
        [0, 1, 2, 5, 6].IsChain a.blocks.Refers ∧ (a.blocks.selectors [0, 1, 2, 5, 6]).Nodup ∧
        ∀ (target : Target) (s : Decode.State), a.blocks.walk target 7 (.table 1) s =
          some (Decode.resolve target ((Table.build sharedAdditions).1.root.child 0x0f) s) := by
  have hdistinct : ∀ d ∈ defined sharedAdditions, Step.Distinct d.steps := by
    decide +kernel
  obtain ⟨a, hbuild, htree, -, hsize, hselectors, hwalk⟩ := exists_tree_of_additions sharedAdditions
  have hseven : a.blocks.size = 7 := by
    rw [hsize]
    decide +kernel
  have hslot {t i : Nat} {s : Slot}
      (h : (build? sharedAdditions).bind (·.blocks.slot? t i) = some s) :
      a.blocks.slot? t i = some s := by
    rwa [hbuild, Option.bind_some] at h
  have hfirst : a.blocks.slot? 0 0x0f = some (.table 1) := hslot (by decide +kernel)
  have hchain : [0, 1, 2, 5, 6].IsChain a.blocks.Refers := by
    refine .cons_cons ⟨0x0f, hfirst⟩ (.cons_cons ⟨0xc7, hslot ?_⟩
      (.cons_cons ⟨0, hslot ?_⟩ (.cons_cons ⟨6, hslot ?_⟩ (.singleton 6))))
    all_goals decide +kernel
  obtain ⟨slot, hfound, hdescent⟩ := hwalk 0x0f (by decide)
  obtain rfl : slot = .table 1 := Option.some.inj (hfound.symm.trans hfirst)
  exact ⟨hdistinct, a, hbuild, htree, hseven, hchain, hselectors hdistinct _ hchain,
    hdescent 7 (Nat.le_of_eq hseven)⟩

end Arena
end Lookup
end X86
