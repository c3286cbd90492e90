import X86.Proofs.Routes

/-!
The discipline of the instruction table. Any two paths with the same opcode bytes take different
slots on an axis that both of them write out. Opcode bytes stand above everything else in the tree,
the mandatory prefix and the reg field above the operand size, and the vendor below everything else,
although the paths may be inserted in any order.
-/

namespace X86
namespace Lookup

namespace Axis

def rank : Axis → Nat
  | opcode => 0
  | mandatory => 1
  | reg => 2
  | mod => 3
  | rm => 4
  | mode => 5
  | operandSize => 6
  | addressSize => 7
  | vendor => 8

theorem all_pairwise : all.Pairwise fun a b => a.rank < b.rank := by
  decide

/-- Below a table on the first axis nothing branches on the second one any more. -/
def closes : Axis → Axis → Bool
  | opcode, _ => false
  | _, opcode => true
  | operandSize, c => c = mandatory || c = reg
  | vendor, c => c ≠ vendor
  | _, _ => false

theorem rank_lt_of_closes {a c : Axis} (h : a.closes c = true) : c.rank < a.rank := by
  revert h
  cases a <;> cases c <;> decide

theorem closes_opcode {a : Axis} (h : a ≠ .opcode) : a.closes .opcode = true := by
  revert h
  cases a <;> decide

end Axis

namespace Step

def slot? (a : Axis) (steps : List Step) : Option Nat :=
  (steps.find? (·.axis = a)).map (·.index.val)

def byte? (s : Step) : Option UInt8 :=
  if s.axis = .opcode then some (UInt8.ofNat s.index) else none

def opcodeBytes (steps : List Step) : List UInt8 :=
  steps.filterMap byte?

theorem slot?_eq_none {a : Axis} {steps : List Step} :
    slot? a steps = none ↔ ∀ s ∈ steps, s.axis ≠ a := by
  simp [slot?]

theorem slot?_of_takeFirst? {a : Axis} {steps rest : List Step} {i : Nat}
    (h : takeFirst? a steps = some (i, rest)) : slot? a steps = some i := by
  obtain ⟨before, s, after, rfl, _, hb, hs, rfl⟩ := takeFirst?_some h
  have hnone : before.find? (·.axis = a) = none := by simpa using hb
  simp [slot?, List.find?_append, hnone, hs]

theorem slot?_rest {a c : Axis} {steps rest : List Step} {i : Nat}
    (h : takeFirst? a steps = some (i, rest)) (hc : c ≠ a) : slot? c rest = slot? c steps := by
  obtain ⟨before, s, after, rfl, rfl, _, rfl, _⟩ := takeFirst?_some h
  simp [slot?, List.find?_append, Ne.symm hc]

theorem opcodeBytes_rest {a : Axis} {steps rest : List Step} {i : Nat}
    (h : takeFirst? a steps = some (i, rest)) (ha : a ≠ .opcode) :
    opcodeBytes rest = opcodeBytes steps := by
  obtain ⟨before, s, after, rfl, rfl, _, rfl, _⟩ := takeFirst?_some h
  simp [opcodeBytes, byte?, ha]

theorem opcodeBytes_eq_nil {steps : List Step} :
    opcodeBytes steps = [] ↔ takeFirst? .opcode steps = none := by
  simp [opcodeBytes, byte?, takeFirst?_none]

theorem opcodeBytes_takeFirst? {steps rest : List Step} {i : Nat}
    (h : takeFirst? .opcode steps = some (i, rest)) :
    opcodeBytes steps = UInt8.ofNat i :: opcodeBytes rest := by
  obtain ⟨before, s, after, rfl, rfl, hb, hs, rfl⟩ := takeFirst?_some h
  have hnone : before.filterMap byte? = [] := by
    simpa [byte?] using hb
  simp [opcodeBytes, hnone, byte?, hs]

/-- Steps in branching order, with one step at most on every axis but the opcode. -/
def Ordered (steps : List Step) : Prop :=
  steps.Pairwise fun x y => x.axis.rank < y.axis.rank ∨ x.axis = .opcode ∧ y.axis = .opcode

theorem filter_inOrder (a : Axis) (steps : List Step) :
    (inOrder steps).filter (·.axis = a) = steps.filter (·.axis = a) := by
  rw [inOrder, List.filter_flatMap]
  have hkeep (c : Axis) : (steps.filter (·.axis = c)).filter (·.axis = a) =
      if c = a then steps.filter (·.axis = a) else [] := by
    by_cases h : c = a
    · simp [h]
    · simp only [List.filter_filter, h, ↓reduceIte, List.filter_eq_nil_iff]
      intro s _ hs
      simp only [Bool.and_eq_true, decide_eq_true_eq] at hs
      exact h (hs.2.symm.trans hs.1)
  simp only [hkeep]
  cases a <;> simp [Axis.all]

theorem slot?_inOrder (a : Axis) (steps : List Step) : slot? a (inOrder steps) = slot? a steps := by
  rw [slot?, slot?, ← List.head?_filter, ← List.head?_filter, filter_inOrder]

theorem opcodeBytes_eq_filter (steps : List Step) :
    opcodeBytes steps = (steps.filter (·.axis = .opcode)).map fun s => UInt8.ofNat s.index := by
  induction steps with
  | nil => rfl
  | cons s rest ih =>
    by_cases h : s.axis = .opcode
    · simpa [opcodeBytes, byte?, h] using ih
    · simpa [opcodeBytes, byte?, h] using ih

theorem opcodeBytes_inOrder (steps : List Step) : opcodeBytes (inOrder steps) = opcodeBytes steps := by
  rw [opcodeBytes_eq_filter, opcodeBytes_eq_filter, filter_inOrder]

/-- No axis but the opcode is selected twice. -/
def Distinct (steps : List Step) : Prop :=
  steps.Pairwise fun x y => x.axis = y.axis → x.axis = .opcode

theorem Distinct.ordered_inOrder {steps : List Step} (h : Distinct steps) :
    Ordered (inOrder steps) := by
  unfold Ordered inOrder
  rw [List.pairwise_flatMap]
  constructor
  · intro a _
    refine List.Pairwise.imp_of_mem ?_ (h.filter _)
    intro x y hx hy hxy
    have hxa : x.axis = a := by simpa using (List.mem_filter.mp hx).2
    have hya : y.axis = a := by simpa using (List.mem_filter.mp hy).2
    have ho := hxy (hxa.trans hya.symm)
    exact Or.inr ⟨ho, hya.trans (hxa.symm.trans ho)⟩
  · refine Axis.all_pairwise.imp ?_
    intro a b hab x hx y hy
    have hxa : x.axis = a := by simpa using (List.mem_filter.mp hx).2
    have hyb : y.axis = b := by simpa using (List.mem_filter.mp hy).2
    exact Or.inl (by rwa [hxa, hyb])

end Step

/-- The two byte lists part at a position that both of them have. -/
def parted : List UInt8 → List UInt8 → Bool
  | x :: xs, y :: ys => x != y || parted xs ys
  | _, _ => false

namespace Route

open Step (slot? opcodeBytes)

theorem selects_iff {r : Route} {a : Axis} : r.Selects a ↔ slot? a r.steps ≠ none := by
  simp [Selects, Step.slot?_eq_none]

theorem selects_opcode {r : Route} : r.Selects .opcode ↔ opcodeBytes r.steps ≠ [] := by
  rw [ne_eq, Step.opcodeBytes_eq_nil, ← not_selects, Classical.not_not]

section Through

variable {a : Axis} {i : Nat} {r r' : Route}

theorem slot?_through (h : r.through? a i = some r') {c : Axis} (hc : c ≠ a) :
    slot? c r'.steps = slot? c r.steps := by
  obtain ⟨_, hs | ⟨_, _, rfl⟩⟩ := through?_eq h
  · exact Step.slot?_rest hs hc
  · rfl

theorem eq_of_slot?_through (h : r.through? a i = some r') {j : Nat}
    (hj : slot? a r.steps = some j) : j = i := by
  obtain ⟨_, hs | ⟨hs, _, _⟩⟩ := through?_eq h
  · exact Option.some.inj (hj.symm.trans (Step.slot?_of_takeFirst? hs))
  · rw [Step.slot?_eq_none.mpr (Step.takeFirst?_none.mp hs)] at hj
    cases hj

theorem opcodeBytes_through (h : r.through? a i = some r') (ha : a ≠ .opcode) :
    opcodeBytes r'.steps = opcodeBytes r.steps := by
  obtain ⟨_, hs | ⟨_, _, rfl⟩⟩ := through?_eq h
  · exact Step.opcodeBytes_rest hs ha
  · rfl

theorem opcodeBytes_through_opcode (h : r.through? .opcode i = some r') :
    opcodeBytes r.steps = UInt8.ofNat i :: opcodeBytes r'.steps ∨
      opcodeBytes r.steps = [] ∧ r' = r := by
  obtain ⟨_, hs | ⟨hs, _, rfl⟩⟩ := through?_eq h
  · exact Or.inl (Step.opcodeBytes_takeFirst? hs)
  · exact Or.inr ⟨Step.opcodeBytes_eq_nil.mpr hs, rfl⟩

theorem not_selects_through (hr : Step.Ordered r.steps) (h : r.through? a i = some r')
    (ha : a ≠ .opcode) : ¬ r'.Selects a := by
  obtain ⟨_, hs | ⟨hs, _, rfl⟩⟩ := through?_eq h
  · obtain ⟨before, s, after, hr', hr'', hb, hsa, _⟩ := Step.takeFirst?_some hs
    rw [Step.Ordered, hr', List.pairwise_append, List.pairwise_cons] at hr
    rintro ⟨x, hx, hxa⟩
    rw [hr''] at hx
    obtain hx | hx := List.mem_append.mp hx
    · exact hb x hx hxa
    · obtain hlt | ⟨ho, _⟩ := hr.2.1.1 x hx
      · rw [hsa, hxa] at hlt
        exact Nat.lt_irrefl _ hlt
      · exact ha (hsa.symm.trans ho)
  · exact not_selects.mpr hs

end Through

def Differ (c : Axis) (p q : Route) : Prop :=
  ∃ i j, slot? c p.steps = some i ∧ slot? c q.steps = some j ∧ i ≠ j

/-- How routes with the same opcode bytes are told apart, whichever table on the way of the first
one the second one meets. -/
structure Contrast (p q : Route) : Prop where
  bytes : opcodeBytes p.steps = opcodeBytes q.steps
  differ : ∃ c, c ≠ .opcode ∧ c ≠ .vendor ∧ Differ c p q
  closed : ∀ a, p.Selects a → (∃ c, a.closes c = true ∧ Differ c p q) ∨
    ∀ c, a.closes c = true → q.Selects c → p.Selects c

/-- The second route can be inserted beside the first. -/
def Apart (p q : Route) : Prop :=
  parted (opcodeBytes p.steps) (opcodeBytes q.steps) = true ∨ Contrast p q

section Through

variable {a : Axis} {i : Nat} {p q p' q' : Route}

theorem Differ.through {c : Axis} (h : Differ c p q) (hp : p.through? a i = some p')
    (hq : q.through? a i = some q') : c ≠ a ∧ Differ c p' q' := by
  obtain ⟨j, k, hj, hk, hjk⟩ := h
  have hc : c ≠ a := by
    rintro rfl
    exact hjk ((eq_of_slot?_through hp hj).trans (eq_of_slot?_through hq hk).symm)
  exact ⟨hc, j, k, (slot?_through hp hc).trans hj, (slot?_through hq hc).trans hk, hjk⟩

theorem parted_through (h : parted (opcodeBytes p.steps) (opcodeBytes q.steps) = true)
    (hp : p.through? a i = some p') (hq : q.through? a i = some q') :
    parted (opcodeBytes p'.steps) (opcodeBytes q'.steps) = true := by
  by_cases ha : a = .opcode
  · subst ha
    obtain hp | ⟨hp, _⟩ := opcodeBytes_through_opcode hp
    · obtain hq | ⟨hq, _⟩ := opcodeBytes_through_opcode hq
      · simpa [parted, hp, hq] using h
      · simp [parted, hq] at h
    · simp [parted, hp] at h
  · rwa [opcodeBytes_through hp ha, opcodeBytes_through hq ha]

theorem bytes_through (h : opcodeBytes p.steps = opcodeBytes q.steps)
    (hp : p.through? a i = some p') (hq : q.through? a i = some q') :
    opcodeBytes p'.steps = opcodeBytes q'.steps := by
  by_cases ha : a = .opcode
  · subst ha
    obtain hp | ⟨hp, rfl⟩ := opcodeBytes_through_opcode hp
    · obtain hq | ⟨hq, _⟩ := opcodeBytes_through_opcode hq
      · rw [hp, hq] at h
        exact (List.cons.inj h).2
      · simp [hp, hq] at h
    · obtain hq | ⟨hq, rfl⟩ := opcodeBytes_through_opcode hq
      · simp [hp, hq] at h
      · exact h
  · rw [opcodeBytes_through hp ha, opcodeBytes_through hq ha, h]

theorem Selects.of_through {c : Axis} (h : p'.Selects c) (hp : p.through? a i = some p') :
    p.Selects c := by
  obtain ⟨s, hs, hc⟩ := h
  exact ⟨s, (through?_sublist hp).subset hs, hc⟩

theorem Contrast.through (h : Contrast p q) (hfit : Step.Ordered q.steps)
    (hp : p.through? a i = some p') (hq : q.through? a i = some q') : Contrast p' q' := by
  have hbytes := bytes_through h.bytes hp hq
  refine ⟨hbytes, ?_, ?_⟩
  · obtain ⟨c, hco, hcv, hd⟩ := h.differ
    exact ⟨c, hco, hcv, (hd.through hp hq).2⟩
  · intro b hb
    obtain ⟨c, hc, hd⟩ | hall := h.closed b (hb.of_through hp)
    · exact Or.inl ⟨c, hc, (hd.through hp hq).2⟩
    · refine Or.inr ?_
      intro c hc hqc
      by_cases hca : c = a
      · subst hca
        by_cases hco : c = .opcode
        · subst hco
          rw [selects_opcode] at hqc ⊢
          rwa [hbytes]
        · exact absurd hqc (not_selects_through hfit hq hco)
      · have hpc := hall c hc (hqc.of_through hq)
        rw [selects_iff] at hpc ⊢
        rwa [slot?_through hp hca]

end Through

/-- No table that the first route branches on has closed what the second one still needs. -/
theorem Apart.clear {p q : Route} {a : Axis} (h : Apart p q) (hp : p.Selects a)
    (hclear : ∀ c, a.closes c = true → ¬ p.Selects c) (c : Axis) (hc : a.closes c = true) :
    ¬ q.Selects c := by
  intro hq
  obtain h | h := h
  · -- The opcode bytes part, so that the first route still has some, and so has the table.
    have hpo : p.Selects .opcode := by
      rw [selects_opcode]
      intro hnil
      simp [hnil, parted] at h
    by_cases ha : a = .opcode
    · subst ha
      cases hc
    · exact hclear .opcode (Axis.closes_opcode ha) hpo
  · obtain ⟨d, hd, i, _, hi, _⟩ | hall := h.closed a hp
    · exact hclear d hd (selects_iff.mpr (by simp [hi]))
    · exact hclear c hc (hall c hc hq)

theorem not_apart_nil {e : Nat} {q : Route} : ¬ Apart ⟨[], e⟩ q := by
  rintro (h | h)
  · simp [Step.opcodeBytes, parted] at h
  · obtain ⟨c, _, _, i, _, hi, _⟩ := h.differ
    simp [slot?] at hi

end Route

/-- The discipline that the paths of the instruction table keep to. -/
def branching : Discipline where
  Fit r := Step.Ordered r.steps
  Clear a r := ∀ c, a.closes c = true → ¬ r.Selects c
  Apart := Route.Apart
  fit_through h ht := h.sublist (Route.through?_sublist ht)
  clear_nil a e := by
    rintro c _ ⟨s, hs, _⟩
    cases hs
  clear_head := by
    rintro s rest e h c hc ⟨x, hx, rfl⟩
    have hlt := Axis.rank_lt_of_closes hc
    obtain rfl | hx := List.mem_cons.mp hx
    · exact Nat.lt_irrefl _ hlt
    · obtain hr | ⟨hs, _⟩ := (List.pairwise_cons.mp h).1 x hx
      · exact Nat.lt_asymm hlt hr
      · rw [hs] at hlt
        exact Nat.not_lt_zero _ hlt
  apart_through := by
    rintro a i p q p' q' _ hq (h | h) hpt hqt
    · exact Or.inl (Route.parted_through h hpt hqt)
    · exact Or.inr (h.through hq hpt hqt)
  apart_clear h hp hclear := h.clear hp hclear
  apart_nil h := absurd h Route.not_apart_nil

end Lookup
end X86
