import X86.Decode.Resolve
import X86.Proofs.Definitions

/-!
Opcode lookup without tables. A definition describes a run of bytes if its opcode bytes start the
run and all its selectors agree with what follows; `scan` tries the mandatory prefixes in turn and
goes through the list of definitions for each. No two definitions describe the same bytes.
-/

namespace X86

open Lookup

namespace PrefixState

/-- The mandatory prefixes that can be made of the prefixes read, by their slots, in the order in
which they are tried: the last F2 or F3, 66, none. -/
def choices (p : PrefixState) : List (Fin 4) :=
  let repeated : List (Fin 4) :=
    match p.repeated with
    | some .f2 => [2]
    | some .f3 => [3]
    | none => []
  let sized : List (Fin 4) := if p.operandSize then [1] else []
  repeated ++ (sized ++ [0])

theorem choices_eq (p : PrefixState) : ∃ before, p.choices = before ++ [0] ∧ ∀ m ∈ before, m ≠ 0 := by
  unfold choices
  refine ⟨_, (List.append_assoc ..).symm, ?_⟩
  intro m hm
  obtain hm | hm := List.mem_append.mp hm
  · split at hm <;> simp_all
  · split at hm <;> simp_all

/-- The prefixes that are left when one of them has served as mandatory prefix. -/
def without (p : PrefixState) : Fin 4 → PrefixState
  | 0 => p
  | 1 => { p with operandSize := false }
  | 2 | 3 => { p with repeated := none }

@[simp] theorem without_rex (p : PrefixState) (m : Fin 4) : (p.without m).rex = p.rex := by
  unfold without
  split <;> rfl

@[simp] theorem without_addressSize (p : PrefixState) (m : Fin 4) :
    (p.without m).addressSize = p.addressSize := by
  unfold without
  split <;> rfl

end PrefixState

/-- What the selectors of a path are held against. -/
structure Setting where
  target : Target
  /-- The mandatory prefix, by its slot. -/
  choice : Fin 4
  prefixes : PrefixState
  modRM : Option ModRM

namespace Setting

/-- The operand size does not count 66 where that is the mandatory prefix. -/
def operandSize (v : Setting) : Nat :=
  v.target.mode.operandSize v.prefixes.rex.w (v.prefixes.without v.choice).operandSize

def addressSize (v : Setting) : Nat :=
  v.target.mode.addressSize v.prefixes.addressSize

/-- Whether a selector agrees with the setting. Opcode bytes are compared elsewhere. -/
def agrees (v : Setting) (s : Step) : Bool :=
  match s.axis with
  | .opcode => true
  | .mandatory => v.choice.val == s.index.val
  | .reg => v.modRM.any fun m => m.reg.val == s.index.val
  | .mod => v.modRM.any fun m => (if m.isRegister then 1 else 0) == s.index.val
  | .rm => v.modRM.any fun m => m.rm.val == s.index.val
  | .mode => (if v.target.mode.is64 then 1 else 0) == s.index.val
  | .operandSize => Decode.sizeSlot v.operandSize == s.index.val
  | .addressSize => Decode.sizeSlot v.addressSize == s.index.val
  | .vendor =>
    match v.target.vendor with
    | .any => true
    | .amd => s.index.val == 0
    | .intel => s.index.val == 1

/-- Whether all selectors agree with the setting. A path that leaves the mandatory prefix open counts
only where there is none. -/
def admits (v : Setting) (steps : List Step) : Bool :=
  steps.all v.agrees && (v.choice == 0 || steps.any (·.axis = .mandatory))

theorem index_eq_of_agrees {v : Setting} {s s' : Step} (hs : v.agrees s = true)
    (hs' : v.agrees s' = true) (h : s.axis = s'.axis) (ho : s.axis ≠ .opcode)
    (hv : s.axis ≠ .vendor) : s.index.val = s'.index.val := by
  obtain ⟨t, m, p, x⟩ := v
  obtain ⟨a, i⟩ := s
  obtain ⟨a', i'⟩ := s'
  obtain rfl : a = a' := h
  cases x <;> cases a <;> simp_all [agrees]

/-- Where a prefix has served as mandatory prefix, the other selectors see the prefixes that are
left. -/
theorem agrees_without (t : Target) (m : Fin 4) (p : PrefixState) (y : Option ModRM) {s : Step}
    (hs : s.axis ≠ .mandatory) :
    agrees ⟨t, 0, p.without m, y⟩ s = agrees ⟨t, m, p, y⟩ s := by
  obtain ⟨a, i⟩ := s
  cases a with
  | mandatory => exact absurd rfl hs
  | operandSize =>
    simp only [agrees, operandSize, PrefixState.without_rex]
    rfl
  | addressSize => simp only [agrees, addressSize, PrefixState.without_addressSize]
  | _ => rfl

end Setting

namespace Lookup.Definition

/-- Whether the definition describes an instruction that starts with the given opcode bytes, under
the given mandatory prefix. The ModRM byte is the one after the opcode bytes. -/
def describes (d : Definition) (t : Target) (p : PrefixState) (m : Fin 4) (bytes : List UInt8) :
    Bool :=
  d.opcodeBytes.isPrefixOf bytes &&
    Setting.admits ⟨t, m, p, (bytes.drop d.opcodeBytes.length).head?.map ModRM.ofByte⟩ d.steps

theorem mandatory_mem_iff {d : Definition} {t : Target} {p : PrefixState} {m : Fin 4}
    {bytes : List UInt8} (h : d.describes t p m bytes = true) {k : Fin 4} (hk : k ≠ 0) :
    Step.mandatory k ∈ d.steps ↔ m = k := by
  rw [describes, Bool.and_eq_true, Setting.admits, Bool.and_eq_true, List.all_eq_true] at h
  obtain ⟨-, hagrees, hmandatory⟩ := h
  constructor
  · intro hmem
    exact Fin.ext (beq_iff_eq.mp (hagrees _ hmem))
  · rintro rfl
    rw [Bool.or_eq_true, beq_iff_eq, List.any_eq_true] at hmandatory
    obtain ⟨⟨a, i⟩, hmem, ha⟩ := hmandatory.resolve_left hk
    obtain rfl : a = .mandatory := of_decide_eq_true ha
    have hi : m = i := Fin.ext (beq_iff_eq.mp (hagrees _ hmem))
    rw [hi]
    exact hmem

theorem choice_unique {d : Definition} {t t' : Target} {p p' : PrefixState} {m m' : Fin 4}
    {bytes bytes' : List UInt8} (h : d.describes t p m bytes = true)
    (h' : d.describes t' p' m' bytes' = true) : m = m' := by
  by_cases hm : m = 0
  · by_contra hne
    rw [hm] at hne
    have hmem := (mandatory_mem_iff h' (Ne.symm hne)).mpr rfl
    exact hne (hm.symm.trans ((mandatory_mem_iff h (Ne.symm hne)).mp hmem))
  · have hmem := (mandatory_mem_iff h hm).mpr rfl
    exact ((mandatory_mem_iff h' hm).mp hmem).symm

end Lookup.Definition

/-- The number of the first definition that describes the bytes under the first mandatory prefix for
which there is one. -/
def scan (t : Target) (p : PrefixState) (bytes : List UInt8) : Option Nat :=
  p.choices.findSome? fun m => definitions.findIdx? fun d => d.describes t p m bytes

theorem findSome?_congr {α β : Type} {f g : α → Option β} {l : List α} (h : ∀ a ∈ l, f a = g a) :
    l.findSome? f = l.findSome? g := by
  induction l with
  | nil => rfl
  | cons a l ih =>
    rw [List.findSome?_cons, List.findSome?_cons, h a List.mem_cons_self,
      ih fun b hb => h b (List.mem_cons_of_mem a hb)]

theorem describes_of_findIdx? {t : Target} {p : PrefixState} {m : Fin 4} {bytes : List UInt8}
    {n : Nat} {d : Definition} (h : (definitions.findIdx? fun d => d.describes t p m bytes) = some n)
    (hd : definitions[n]? = some d) : d.describes t p m bytes = true := by
  obtain ⟨hn, hdescribes, -⟩ := List.findIdx?_eq_some_iff_getElem.mp h
  obtain ⟨-, rfl⟩ := List.getElem?_eq_some_iff.mp hd
  exact hdescribes

theorem describes_of_scan {t : Target} {p : PrefixState} {bytes : List UInt8} {n : Nat}
    {d : Definition} (h : scan t p bytes = some n) (hd : definitions[n]? = some d) :
    ∃ m ∈ p.choices, d.describes t p m bytes = true := by
  obtain ⟨m, hm, hfind⟩ := List.exists_of_findSome?_eq_some h
  exact ⟨m, hm, describes_of_findIdx? hfind hd⟩

theorem Lookup.not_parted {xs ys bytes : List UInt8} (hx : xs <+: bytes) (hy : ys <+: bytes) :
    parted xs ys = false := by
  induction xs generalizing ys bytes with
  | nil => rfl
  | cons x xs ih =>
    cases ys with
    | nil => rfl
    | cons y ys =>
      obtain ⟨b, bytes, rfl⟩ : ∃ b bs, bytes = b :: bs := by
        obtain ⟨rest, rfl⟩ := hx
        exact ⟨x, xs ++ rest, rfl⟩
      rw [List.cons_prefix_cons] at hx hy
      simp [parted, hx.1, hy.1, ih hx.2 hy.2]

theorem Lookup.Step.mem_of_slot? {a : Axis} {steps : List Step} {i : Nat}
    (h : Step.slot? a steps = some i) : ∃ s ∈ steps, s.axis = a ∧ s.index.val = i := by
  rw [Step.slot?, Option.map_eq_some_iff] at h
  obtain ⟨s, hs, rfl⟩ := h
  exact ⟨s, List.mem_of_find?_eq_some hs, by simpa using List.find?_some hs, rfl⟩

theorem not_describes_both {d d' : Definition} (hd : d.isProper = true) (hd' : d'.isProper = true)
    (h : d.suits d' = true) (t : Target) (p : PrefixState) (m : Fin 4) (bytes : List UInt8) :
    ¬ (d.describes t p m bytes = true ∧ d'.describes t p m bytes = true) := by
  rintro ⟨h₁, h₂⟩
  rw [Definition.describes, Bool.and_eq_true, List.isPrefixOf_iff_prefix] at h₁ h₂
  have hap := Definition.apart_of_suits hd hd' h 0 0
  rw [Route.Apart, Definition.opcodeBytes_inOrder, Definition.opcodeBytes_inOrder] at hap
  obtain hap | hap := hap
  · rw [not_parted h₁.1 h₂.1] at hap
    cases hap
  · have hbytes : d.opcodeBytes = d'.opcodeBytes := by
      simpa using hap.bytes
    obtain ⟨c, hco, hcv, i, j, hi, hj, hij⟩ := hap.differ
    rw [Step.slot?_inOrder] at hi hj
    obtain ⟨x, hx, rfl, rfl⟩ := Step.mem_of_slot? hi
    obtain ⟨y, hy, hyx, rfl⟩ := Step.mem_of_slot? hj
    rw [hbytes, Setting.admits, Bool.and_eq_true, List.all_eq_true] at h₁
    rw [Setting.admits, Bool.and_eq_true, List.all_eq_true] at h₂
    exact hij (Setting.index_eq_of_agrees (h₁.2.1 x hx) (h₂.2.1 y hy) hyx.symm hco hcv)

theorem countP_le_one {α : Type} {l : List α} {q : α → Bool}
    (h : l.Pairwise fun a b => ¬ (q a = true ∧ q b = true)) : l.countP q ≤ 1 := by
  induction l with
  | nil => simp
  | cons a l ih =>
    rw [List.pairwise_cons] at h
    by_cases ha : q a = true
    · have hrest : l.countP q = 0 := by
        rw [List.countP_eq_zero]
        intro b hb hq
        exact h.1 b hb ⟨ha, hq⟩
      simp [ha, hrest]
    · simpa [ha] using ih h.2

/-- At most one definition describes the bytes under a mandatory prefix. -/
theorem countP_describes_le_one (t : Target) (p : PrefixState) (m : Fin 4) (bytes : List UInt8) :
    definitions.countP (fun d => d.describes t p m bytes) ≤ 1 := by
  refine countP_le_one (definitions_suits.imp_of_mem ?_)
  intro d d' hd hd' h
  exact not_describes_both (isProper_of_mem hd) (isProper_of_mem hd') h t p m bytes

end X86
