import X86.Decode.Resolve

/-!
The descent through the lookup tree, one table at a time. Lists of slots are read through
`List.getD`, so that facts about nodes need no companion about lists of nodes.
-/

namespace X86

namespace Lookup

/-- What holds of a free place and of leaves, and of a table if it holds of what its slots lead to,
holds of every node. -/
@[elab_as_elim]
theorem Node.bySlots {P : Node → Prop} (empty : P .empty) (leaf : ∀ e, P (.leaf e))
    (table : ∀ a slots, (∀ i, P (slots.getD i .empty)) → P (.table a slots)) (n : Node) : P n := by
  refine @Node.rec P (fun slots => ∀ i, P (slots.getD i .empty)) empty leaf table ?_ ?_ n
  · intro i
    simpa using empty
  · intro n ns hn hns i
    cases i with
    | zero => exact hn
    | succ i => exact hns i

end Lookup

namespace Decode

open Lookup (Axis Node)

theorem resolve_empty (t : Target) : resolve t .empty = throw .unknownOpcode := by
  rw [resolve]

theorem resolve_leaf (t : Target) (e : Nat) : resolve t (.leaf e) = pure e := by
  rw [resolve]

theorem resolveSlot_eq (t : Target) (slots : List Node) (i : Nat) :
    resolveSlot t slots i = resolve t (slots.getD i .empty) := by
  induction slots generalizing i with
  | nil => rw [resolveSlot, List.getD_nil, resolve_empty]
  | cons n ns ih =>
    cases i with
    | zero => rw [resolveSlot, List.getD_cons_zero]
    | succ i => rw [resolveSlot, ih, List.getD_cons_succ]

/-- The descent below a mandatory-prefix table once F2 and F3 are out of the question. -/
def resolveSized (t : Target) (slots : List Node) : Decode Nat := do
  if (← get).prefixes.operandSize then
    orElse
      (do
        modify (setPrefixes fun p => { p with operandSize := false })
        resolve t (slots.getD 1 .empty))
      (fun p => { p with operandSize := true })
      (resolve t (slots.getD 0 .empty))
  else resolve t (slots.getD 0 .empty)

theorem resolveSized_false (t : Target) (slots : List Node) {s : State}
    (h : s.prefixes.operandSize = false) :
    resolveSized t slots s = resolve t (slots.getD 0 .empty) s := by
  change (if s.prefixes.operandSize then _ else _ : Decode Nat) s = _
  rw [h]
  rfl

theorem resolveSized_true (t : Target) (slots : List Node) {s : State}
    (h : s.prefixes.operandSize = true) :
    resolveSized t slots s =
      orElse
        (do
          modify (setPrefixes fun p => { p with operandSize := false })
          resolve t (slots.getD 1 .empty))
        (fun p => { p with operandSize := true })
        (resolve t (slots.getD 0 .empty)) s := by
  change (if s.prefixes.operandSize then _ else _ : Decode Nat) s = _
  rw [h]
  rfl

def resolveMandatory (t : Target) (slots : List Node) : Decode Nat := do
  match (← get).prefixes.repeated with
  | some r =>
    orElse
      (do
        modify (setPrefixes fun p => { p with repeated := none })
        resolve t (slots.getD (repeatSlot r) .empty))
      (fun p => { p with repeated := some r })
      (resolveSized t slots)
  | none => resolveSized t slots

theorem resolveMandatory_none (t : Target) (slots : List Node) {s : State}
    (h : s.prefixes.repeated = none) : resolveMandatory t slots s = resolveSized t slots s := by
  obtain ⟨⟨p, m, o⟩, c⟩ := s
  obtain ⟨⟩ := p
  subst h
  rfl

theorem resolveMandatory_some (t : Target) (slots : List Node) {s : State} {r : Repeat}
    (h : s.prefixes.repeated = some r) :
    resolveMandatory t slots s =
      orElse
        (do
          modify (setPrefixes fun p => { p with repeated := none })
          resolve t (slots.getD (repeatSlot r) .empty))
        (fun p => { p with repeated := some r })
        (resolveSized t slots) s := by
  obtain ⟨⟨p, m, o⟩, c⟩ := s
  obtain ⟨⟩ := p
  subst h
  rfl

theorem resolve_mandatory (t : Target) (slots : List Node) :
    resolve t (.table .mandatory slots) = resolveMandatory t slots := by
  rw [resolve]
  simp only [resolveSlot_eq]
  rfl

theorem resolve_vendor (t : Target) (slots : List Node) :
    resolve t (.table .vendor slots) = resolve t (slots.getD (vendorSlot t.vendor slots) .empty) := by
  rw [resolve, resolveSlot_eq]

theorem resolve_axis (t : Target) {a : Axis} (slots : List Node) (hm : a ≠ .mandatory)
    (hv : a ≠ .vendor) :
    resolve t (.table a slots) = slotOn t a >>= fun i => resolve t (slots.getD i .empty) := by
  rw [resolve]
  · simp only [resolveSlot_eq]
  · exact hm
  · exact hv

end Decode
end X86
