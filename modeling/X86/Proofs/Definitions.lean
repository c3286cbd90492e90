import Mathlib.Data.List.Pairwise
import X86.Opcodes.Shared
import X86.Proofs.Branching

/-!
Facts about the list of definitions that the kernel computes, and what follows from them about the
tree of the instruction table. Definitions are compared in pairs only if they share their opcode;
the others are kept apart by splitting the list on the bits of the opcode's number.
-/

namespace X86

section Pairs

variable {α : Type} {key : α → Nat} {ok : α → α → Bool}

def allPairs (ok : α → α → Bool) : List α → Bool
  | [] => true
  | a :: l => l.all (ok a) && allPairs ok l

/-- Compare the elements of a list whose keys agree on all but the lowest `n` bits. -/
def pairsByKey (key : α → Nat) (ok : α → α → Bool) : (n : Nat) → List α → Bool
  | 0, l => allPairs ok l
  | n + 1, l =>
    pairsByKey key ok n (l.filter fun a => (key a).testBit n) &&
      pairsByKey key ok n (l.filter fun a => !(key a).testBit n)

theorem allPairs_iff {l : List α} : allPairs ok l = true ↔ l.Pairwise fun a b => ok a b = true := by
  induction l with
  | nil => simp [allPairs]
  | cons a l ih => simp [allPairs, ih]

theorem pairwise_of_pairsByKey {R : α → α → Prop} (hkey : ∀ a b, key a ≠ key b → R a b)
    (hok : ∀ a b, ok a b = true → R a b) {n : Nat} {l : List α}
    (h : pairsByKey key ok n l = true) : l.Pairwise R := by
  induction n generalizing l with
  | zero => exact (allPairs_iff.mp h).imp (hok _ _)
  | succ n ih =>
    rw [pairsByKey, Bool.and_eq_true] at h
    have hset := List.pairwise_filter.mp (ih h.1)
    have hclear := List.pairwise_filter.mp (ih h.2)
    refine (hset.and hclear).imp ?_
    rintro a b ⟨h₁, h₂⟩
    by_cases hab : (key a).testBit n = (key b).testBit n
    · cases hb : (key b).testBit n with
      | true => exact h₁ (hab.trans hb) hb
      | false => exact h₂ (by simp [hab, hb]) (by simp [hb])
    · exact hkey a b fun he => hab (by rw [he])

end Pairs

namespace Opcode

def ofBytes : List UInt8 → Opcode
  | [] => {}
  | b :: bs => bs.foldl advance (ofByte b)

/-- The last byte is no escape to another map. -/
def isFinal (o : Opcode) : Bool :=
  match o.map with
  | .primary => o.byte != 0x0F
  | .ext0F => o.byte != 0x38 && o.byte != 0x3A
  | .ext0F38 | .ext0F3A => true

def number (o : Opcode) : Nat :=
  o.byte.toNat + 256 *
    match o.map with
    | .primary => 0
    | .ext0F => 1
    | .ext0F38 => 2
    | .ext0F3A => 3

/-- No opcode is the beginning of another one. -/
theorem parted_bytes {o o' : Opcode} (h : o.isFinal = true) (h' : o'.isFinal = true)
    (hne : o.bytes ≠ o'.bytes) : Lookup.parted o.bytes o'.bytes = true := by
  obtain ⟨m, b⟩ := o
  obtain ⟨m', b'⟩ := o'
  cases m <;> cases m' <;>
    grind [isFinal, bytes, OpcodeMap.escape, Lookup.parted]

end Opcode

namespace Lookup

open Step (slot?)

def differs (c : Axis) (p q : List Step) : Bool :=
  match slot? c p, slot? c q with
  | some i, some j => i != j
  | _, _ => false

/-- The condition of `Route.Contrast`, over the steps that are there. -/
def contrasts (p q : List Step) : Bool :=
  p.any (fun s => s.axis != .opcode && s.axis != .vendor && differs s.axis p q) &&
  p.all fun s =>
    p.any (fun x => s.axis.closes x.axis && differs x.axis p q) ||
      q.all fun x => !s.axis.closes x.axis || (slot? x.axis p).isSome

theorem differ_of_differs {c : Axis} {p q : List Step} (h : differs c p q = true) (m n : Nat) :
    Route.Differ c ⟨Step.inOrder p, m⟩ ⟨Step.inOrder q, n⟩ := by
  unfold differs at h
  split at h
  · next i j hi hj =>
    exact ⟨i, j, (Step.slot?_inOrder c p).trans hi, (Step.slot?_inOrder c q).trans hj, by simpa using h⟩
  · cases h

theorem selects_inOrder {a : Axis} {steps : List Step} {n : Nat} :
    Route.Selects ⟨Step.inOrder steps, n⟩ a ↔ ∃ s ∈ steps, s.axis = a := by
  simp [Route.Selects, Step.mem_inOrder]

theorem contrast_of_contrasts {p q : List Step} (hb : Step.opcodeBytes p = Step.opcodeBytes q)
    (h : contrasts p q = true) (m n : Nat) :
    Route.Contrast ⟨Step.inOrder p, m⟩ ⟨Step.inOrder q, n⟩ := by
  rw [contrasts, Bool.and_eq_true, List.any_eq_true, List.all_eq_true] at h
  obtain ⟨⟨s, _, hs⟩, hall⟩ := h
  simp only [Bool.and_eq_true, bne_iff_ne] at hs
  refine ⟨?_, ⟨s.axis, hs.1.1, hs.1.2, differ_of_differs hs.2 m n⟩, ?_⟩
  · rw [Step.opcodeBytes_inOrder, Step.opcodeBytes_inOrder, hb]
  · intro a ha
    obtain ⟨s, hs, rfl⟩ := selects_inOrder.mp ha
    obtain h | h := Bool.or_eq_true _ _ ▸ hall s hs
    · obtain ⟨x, _, hx⟩ := List.any_eq_true.mp h
      rw [Bool.and_eq_true] at hx
      exact Or.inl ⟨x.axis, hx.1, differ_of_differs hx.2 m n⟩
    · refine Or.inr ?_
      intro c hc hq
      obtain ⟨x, hx, rfl⟩ := selects_inOrder.mp hq
      have hsome : (slot? x.axis p).isSome = true := by
        simpa [hc] using List.all_eq_true.mp h x hx
      rw [Route.selects_iff, Step.slot?_inOrder]
      exact Option.isSome_iff_ne_none.mp hsome

namespace Definition

def opcodeBytes (d : Definition) : List UInt8 :=
  Step.opcodeBytes d.steps

@[simp] theorem opcodeBytes_inOrder (d : Definition) :
    Step.opcodeBytes (Step.inOrder d.steps) = d.opcodeBytes :=
  Step.opcodeBytes_inOrder d.steps

def opcode (d : Definition) : Opcode :=
  Opcode.ofBytes d.opcodeBytes

def selectsModRM (d : Definition) : Bool :=
  d.steps.any (·.axis.isModRM)

/-- The opcode bytes spell an opcode, and no selector is given twice. -/
def isProper (d : Definition) : Bool :=
  d.opcode.isFinal && d.opcode.bytes == d.opcodeBytes &&
    allPairs (fun x y => x.axis != y.axis || x.axis == .opcode) d.steps

/-- Two definitions of one opcode contrast, and if either branches on ModRM both have that byte. -/
def suits (d d' : Definition) : Bool :=
  d.opcodeBytes != d'.opcodeBytes ||
    contrasts d.steps d'.steps && (!d.selectsModRM || d'.usesModRM) &&
      (!d'.selectsModRM || d.usesModRM)

theorem isProper_iff {d : Definition} :
    d.isProper = true ↔
      d.opcode.isFinal = true ∧ d.opcode.bytes = d.opcodeBytes ∧ Step.Distinct d.steps := by
  simp only [isProper, Bool.and_eq_true, beq_iff_eq, allPairs_iff, Step.Distinct, Bool.or_eq_true,
    bne_iff_ne, and_assoc, ← imp_iff_not_or]

theorem suits_of_number_ne {d d' : Definition} (h : d.opcode.number ≠ d'.opcode.number) :
    d.suits d' = true := by
  have hne : d.opcodeBytes ≠ d'.opcodeBytes := fun he => h (by rw [opcode, opcode, he])
  simp [suits, hne]

theorem apart_of_suits {d d' : Definition} (hd : d.isProper = true) (hd' : d'.isProper = true)
    (h : d.suits d' = true) (m n : Nat) :
    Route.Apart ⟨Step.inOrder d.steps, m⟩ ⟨Step.inOrder d'.steps, n⟩ := by
  obtain ⟨hfinal, hbytes, _⟩ := isProper_iff.mp hd
  obtain ⟨hfinal', hbytes', _⟩ := isProper_iff.mp hd'
  by_cases he : d.opcodeBytes = d'.opcodeBytes
  · have hc : contrasts d.steps d'.steps = true := by
      simp only [suits, he, bne_self_eq_false, Bool.false_or, Bool.and_eq_true] at h
      exact h.1.1
    exact Or.inr (contrast_of_contrasts he hc m n)
  · left
    rw [opcodeBytes_inOrder, opcodeBytes_inOrder, ← hbytes, ← hbytes']
    rw [← hbytes, ← hbytes'] at he
    exact Opcode.parted_bytes hfinal hfinal' he

theorem hasOpcode_of_isProper {d : Definition} (h : d.isProper = true) : d.hasOpcode = true := by
  have hne : d.opcodeBytes ≠ [] := by
    rw [← (isProper_iff.mp h).2.1, Opcode.bytes]
    simp
  have hsel : Route.Selects ⟨d.steps, 0⟩ .opcode := Route.selects_opcode.mpr hne
  simpa [hasOpcode, Route.Selects] using hsel

end Definition

section Table

variable {ds : List Definition} (hproper : ∀ d ∈ ds, d.isProper = true)
  (hsuits : ds.Pairwise fun d d' => d.suits d' = true)

include hproper

theorem routes_ordered : ∀ r ∈ Table.routes ds, Step.Ordered r.steps := by
  intro r hr
  obtain ⟨d, hd, hr⟩ := Table.mem_routes.mp hr
  rw [hr]
  exact (Definition.isProper_iff.mp (hproper d (List.mem_of_getElem? hd))).2.2.ordered_inOrder

include hsuits

theorem routes_apart : (Table.routes ds).Pairwise Route.Apart := by
  rw [List.pairwise_iff_getElem] at hsuits ⊢
  intro i j hi hj hij
  rw [Table.routes, List.length_mapIdx] at hi hj
  simp only [Table.routes, List.getElem_mapIdx]
  exact Definition.apart_of_suits (hproper _ (List.getElem_mem hi)) (hproper _ (List.getElem_mem hj))
    (hsuits i j hi hj hij) i j

theorem holds_of_suits (hne : ds ≠ []) :
    branching.Holds (Table.ofDefinitions ds).root (Table.routes ds) :=
  Discipline.holds_ofDefinitions hne (fun d hd => Definition.hasOpcode_of_isProper (hproper d hd))
    (routes_ordered hproper) (routes_apart hproper hsuits)

end Table

end Lookup

open Lookup

theorem definitions_isProper : definitions.all Definition.isProper = true := by
  decide +kernel

theorem definitions_pairsByKey :
    pairsByKey (fun d : Definition => d.opcode.number) Definition.suits 10 definitions = true := by
  decide +kernel

theorem isProper_of_mem {d : Definition} (h : d ∈ definitions) : d.isProper = true :=
  List.all_eq_true.mp definitions_isProper d h

theorem definitions_suits : definitions.Pairwise fun d d' => d.suits d' = true := by
  refine pairwise_of_pairsByKey ?_ ?_ definitions_pairsByKey
  · intro d d' h
    exact Definition.suits_of_number_ne h
  · intro d d' h
    exact h

theorem usesModRM_of_selectsModRM {d d' : Definition} (hd : d ∈ definitions)
    (hd' : d' ∈ definitions) (hb : d.opcodeBytes = d'.opcodeBytes) (h : d'.selectsModRM = true) :
    d.usesModRM = true := by
  let R (d d' : Definition) : Prop := d.opcodeBytes = d'.opcodeBytes →
    (d.selectsModRM = true → d'.usesModRM = true) ∧ (d'.selectsModRM = true → d.usesModRM = true)
  have hsymm : Std.Symm R := ⟨fun _ _ h hb => (h hb.symm).symm⟩
  have hrefl : ∀ x ∈ definitions, R x x := by
    intro x _ _
    have hx : x.selectsModRM = true → x.usesModRM = true := by
      intro hx
      rw [Definition.usesModRM, Bool.or_eq_true]
      exact Or.inr hx
    exact ⟨hx, hx⟩
  have hpair : definitions.Pairwise R := by
    refine definitions_suits.imp ?_
    intro x y hxy hb
    simp only [Definition.suits, hb, bne_self_eq_false, Bool.false_or, Bool.and_eq_true,
      Bool.or_eq_true, Bool.not_eq_true'] at hxy
    refine ⟨fun hx => ?_, fun hy => ?_⟩
    · simpa [hx] using hxy.1.2
    · simpa [hy] using hxy.2
  exact (hpair.forall_of_forall hrefl hd hd' hb).2 h

theorem definitions_ne_nil : definitions ≠ [] := by
  intro h
  have hlen : definitions.isEmpty = true := by rw [h]; rfl
  exact absurd hlen (by decide +kernel)

/-- The instruction table holds the routes of the definitions and nothing else. -/
theorem instructionTable_holds :
    branching.Holds instructionTable.root (Table.routes definitions) :=
  holds_of_suits (fun _ h => isProper_of_mem h) definitions_suits definitions_ne_nil

theorem instructionTable_entries (n : Nat) :
    instructionTable.entries[n]? = definitions[n]?.map Definition.entry := by
  rw [instructionTable, Table.entries_ofDefinitions]
  simp

end X86
