import Mathlib.Data.List.GetD
import X86.Proofs.Insertion

/-!
Tables made of many definitions. Whatever a key reaches, the key was led to the end of a definition
it carries. A definition that a key matches takes the key over from those inserted before it or does
not, and definitions inserted later leave the key where it is if they ask for nothing more.
-/

namespace X86
namespace Lookup

namespace Key

variable {k : Key} {steps : List Step}

theorem carries_inOrder : k.Carries (Step.inOrder steps) ↔ k.Carries steps := by
  constructor
  · rintro ⟨hb, hs⟩
    rw [Step.opcodeBytes_inOrder] at hb
    exact ⟨hb, fun s h => hs s (Step.mem_inOrder.mpr h)⟩
  · rintro ⟨hb, hs⟩
    refine ⟨?_, fun s h => hs s (Step.mem_inOrder.mp h)⟩
    rwa [Step.opcodeBytes_inOrder]

theorem enters_inOrder : k.Enters [] (Step.inOrder steps) ↔ k.Matches steps := by
  simp only [enters_nil, Matches, carries_inOrder, Step.mem_inOrder]

/-- Further tables on the way leave the key at the end of the path, if it was not lost at a mandatory
prefix that the path does not select. -/
theorem Ends.mono {trail trail' : List Axis} (h : k.Ends trail steps) (hd : Step.Distinct steps)
    (hsub : trail <+: trail')
    (hm : .mandatory ∈ trail' → k.slot .mandatory = 0 ∨ .mandatory ∈ trail) :
    k.Ends trail' steps := by
  refine ⟨h.carries, Step.beyond_eq_nil_mono hd hsub h.usedUp, ?_⟩
  intro hmem
  obtain hm | hm := hm hmem
  · exact Or.inl hm
  · exact h.settled hm

theorem matches_inOrder : k.Matches (Step.inOrder steps) ↔ k.Matches steps := by
  rw [← enters_nil, enters_inOrder]

/-- A path that a key was led to the end of without matching it leaves the mandatory prefix open, and
a path that the key does match selects it. -/
theorem Ends.exists_not_mem {trail : List Axis} {steps' : List Step} (h : k.Ends trail steps)
    (hk : ¬ k.Matches steps) (hk' : k.Matches steps') : ∃ s ∈ steps', s.axis ∉ trail := by
  obtain ⟨hm, hs⟩ := not_or.mp fun hm => hk ⟨h.carries, hm⟩
  obtain ⟨s, hmem, hsm⟩ := hk'.2.resolve_left hm
  refine ⟨s, hmem, ?_⟩
  rw [hsm]
  exact fun htrail => (h.settled htrail).elim hm hs

end Key

namespace Definition

/-- There is an opcode byte, and nothing is selected twice. -/
structure IsWellFormed (d : Definition) : Prop where
  hasOpcode : d.hasOpcode = true
  distinct : Step.Distinct d.steps

instance (steps : List Step) : Decidable (Step.Distinct steps) :=
  inferInstanceAs (Decidable (steps.Pairwise fun x y : Step => x.axis = y.axis → x.axis = .opcode))

instance (d : Definition) : Decidable d.IsWellFormed :=
  decidable_of_iff (d.hasOpcode = true ∧ Step.Distinct d.steps)
    ⟨fun h => ⟨h.1, h.2⟩, fun h => ⟨h.hasOpcode, h.distinct⟩⟩

def selectors (d : Definition) : List Step :=
  d.steps.filter (·.axis ≠ .opcode)

/-- The definition has the opcode bytes of another one, all its selectors and some more. -/
def Refines (d d' : Definition) : Prop :=
  Step.opcodeBytes d.steps = Step.opcodeBytes d'.steps ∧
    d'.selectors ⊆ d.selectors ∧ ¬ d.selectors ⊆ d'.selectors

instance (d d' : Definition) : Decidable (d.Refines d') :=
  inferInstanceAs (Decidable (_ ∧ _ ∧ _))

theorem mem_selectors {d : Definition} {s : Step} :
    s ∈ d.selectors ↔ s ∈ d.steps ∧ s.axis ≠ .opcode := by
  simp [selectors]

theorem Refines.beyond_eq_nil {d d' : Definition} (h : d.Refines d') (hd : Step.Distinct d.steps)
    (hd' : Step.Distinct d'.steps) {trail : List Axis}
    (hend : Step.beyond trail (Step.inOrder d.steps) = []) :
    Step.beyond trail (Step.inOrder d'.steps) = [] := by
  rw [hd.ordered.beyond_eq_nil, Step.opcodeBytes_inOrder] at hend
  rw [hd'.ordered.beyond_eq_nil, Step.opcodeBytes_inOrder, ← h.1]
  refine ⟨hend.1, ?_⟩
  intro s hs ho
  have hmem := h.2.1 (mem_selectors.mpr ⟨Step.mem_inOrder.mp hs, ho⟩)
  exact hend.2 s (Step.mem_inOrder.mpr (mem_selectors.mp hmem).1) ho

end Definition

namespace Table

theorem size_ofDefinitions (ds : List Definition) : (ofDefinitions ds).entries.size = ds.length := by
  simp [entries_ofDefinitions]

theorem root_concat (ds : List Definition) {d : Definition} (h : d.hasOpcode = true) :
    (ofDefinitions (ds ++ [d])).root =
      (ofDefinitions ds).root.insert ds.length (Step.inOrder d.steps) := by
  rw [ofDefinitions_concat, insert, if_pos h, size_ofDefinitions]

theorem shaped_of_distinct {ds : List Definition} (h : ∀ d ∈ ds, Step.Distinct d.steps) :
    Node.Shaped [] (ofDefinitions ds).root := by
  induction ds using List.reverseRecOn with
  | nil =>
    refine .table List.length_replicate (Or.inl rfl) ?_
    intro i
    rw [List.getD_eq_getElem?_getD, List.getElem?_getD_replicate_default_eq]
    exact .empty _
  | append_singleton ds d ih =>
    have hds := ih fun x hx => h x (by simp [hx])
    by_cases ho : d.hasOpcode = true
    · rw [root_concat ds ho]
      exact hds.insert (h d (by simp)).ordered (by simp [Step.Fresh]) _
    · rwa [ofDefinitions_concat, insert, if_neg ho]

theorem shaped_ofDefinitions {ds : List Definition} (h : ∀ d ∈ ds, d.IsWellFormed) :
    Node.Shaped [] (ofDefinitions ds).root :=
  shaped_of_distinct fun d hd => (h d hd).distinct

theorem ends_of_descend {ds : List Definition} (h : ∀ d ∈ ds, d.IsWellFormed) {k : Key} {n : Nat}
    (hn : (ofDefinitions ds).root.descend k = some n) :
    ∃ d, ds[n]? = some d ∧ k.Ends ((ofDefinitions ds).root.trail k) (Step.inOrder d.steps) := by
  induction ds using List.reverseRecOn with
  | nil =>
    rw [ofDefinitions, List.foldl_nil, empty, Node.descend_table,
      List.getD_eq_getElem?_getD, List.getElem?_getD_replicate_default_eq] at hn
    simp at hn
  | append_singleton ds d ih =>
    have hds : ∀ x ∈ ds, x.IsWellFormed := fun x hx => h x (by simp [hx])
    have hd := h d (by simp)
    have hshaped := shaped_ofDefinitions hds
    rw [root_concat ds hd.hasOpcode] at hn ⊢
    obtain ⟨rfl, hends⟩ | ⟨hold, hm⟩ := hshaped.of_descend_insert hn
    · exact ⟨d, by simp, hends⟩
    · obtain ⟨x, hx, hends⟩ := ih hds hold
      have hlt : n < ds.length := (List.getElem?_eq_some_iff.mp hx).1
      refine ⟨x, by rwa [List.getElem?_append_left hlt], ?_⟩
      exact hends.mono (hds x (List.mem_of_getElem? hx)).distinct.ordered hshaped.trail_insert hm

section Insertion

variable {before : List Definition} {d : Definition} {k : Key}
  (hbefore : ∀ x ∈ before, x.IsWellFormed) (hd : d.IsWellFormed) (hk : k.Matches d.steps)

include hbefore hd hk

theorem descend_concat :
    (ofDefinitions (before ++ [d])).root.descend k =
      if (ofDefinitions before).root.descend k = none ∨
          Step.beyond ((ofDefinitions before).root.trail k) (Step.inOrder d.steps) ≠ [] then
        some before.length
      else (ofDefinitions before).root.descend k := by
  rw [root_concat before hd.hasOpcode]
  exact (shaped_ofDefinitions hbefore).descend_insert (Key.enters_inOrder.mpr hk)

theorem beyond_trail_concat :
    Step.beyond ((ofDefinitions (before ++ [d])).root.trail k) (Step.inOrder d.steps) = [] := by
  rw [root_concat before hd.hasOpcode]
  exact (shaped_ofDefinitions hbefore).beyond_trail_insert (Key.enters_inOrder.mpr hk)

/-- Definitions that ask for no more than one that a key was led to the end of leave the key where it
is. -/
theorem descend_append {after : List Definition} (hafter : ∀ x ∈ after, x.IsWellFormed)
    (hmost : ∀ x ∈ after, k.Matches x.steps → d.Refines x)
    (hend : Step.beyond ((ofDefinitions before).root.trail k) (Step.inOrder d.steps) = [])
    {n : Nat} (hn : (ofDefinitions before).root.descend k = some n) :
    (ofDefinitions (before ++ after)).root.descend k = some n := by
  induction after generalizing before with
  | nil => rwa [List.append_nil]
  | cons x after ih =>
    have hx := hafter x List.mem_cons_self
    have hshaped := shaped_ofDefinitions hbefore
    have hroot := root_concat before hx.hasOpcode
    rw [List.append_cons]
    refine ih ?_ (fun y hy => hafter y (List.mem_cons_of_mem x hy))
      (fun y hy => hmost y (List.mem_cons_of_mem x hy)) ?_ ?_
    · intro y hy
      obtain hy | hy := List.mem_append.mp hy
      · exact hbefore y hy
      · rwa [List.mem_singleton.mp hy]
    · rw [hroot]
      exact Step.beyond_eq_nil_mono hd.distinct.ordered hshaped.trail_insert hend
    · by_cases hkx : k.Matches x.steps
      · have hused := (hmost x List.mem_cons_self hkx).beyond_eq_nil hd.distinct hx.distinct hend
        rw [descend_concat hbefore hx hkx, hn]
        simp [hused]
      · -- The key's mandatory prefix is settled, so the new path cannot lose the key.
        have hm : k.slot .mandatory = 0 ∨ .mandatory ∈ (ofDefinitions before).root.trail k := by
          obtain hm | ⟨s, hs, hsm⟩ := hk.2
          · exact Or.inl hm
          · right
            rw [← hsm]
            exact hd.distinct.ordered.mem_trail hend (Step.mem_inOrder.mpr hs)
        rw [hroot]
        refine hshaped.descend_insert_of_not_enters (mt Key.enters_inOrder.mp hkx) hx.distinct.ordered
          (by simp [Step.Fresh]) ?_ hn
        exact hm.imp_right Or.inr

theorem descend_of_refines {after : List Definition} (hafter : ∀ x ∈ after, x.IsWellFormed)
    (hmost : ∀ x ∈ after, k.Matches x.steps → d.Refines x) :
    (ofDefinitions (before ++ d :: after)).root.descend k =
      if (ofDefinitions before).root.descend k = none ∨
          Step.beyond ((ofDefinitions before).root.trail k) (Step.inOrder d.steps) ≠ [] then
        some before.length
      else (ofDefinitions before).root.descend k := by
  have hconcat := descend_concat hbefore hd hk
  have hwf : ∀ x ∈ before ++ [d], x.IsWellFormed := by
    intro x hx
    obtain hx | hx := List.mem_append.mp hx
    · exact hbefore x hx
    · rwa [List.mem_singleton.mp hx]
  rw [List.append_cons, ← hconcat]
  have hsome : ∃ n, (ofDefinitions (before ++ [d])).root.descend k = some n := by
    rw [hconcat]
    split
    · exact ⟨_, rfl⟩
    · next h => exact Option.ne_none_iff_exists'.mp (not_or.mp h).1
  obtain ⟨n, hn⟩ := hsome
  rw [hn]
  exact descend_append hwf hd hk hafter hmost (beyond_trail_concat hbefore hd hk) hn

theorem descend_of_first {after : List Definition} (hafter : ∀ x ∈ after, x.IsWellFormed)
    (hfirst : ∀ x ∈ before, ¬ k.Matches x.steps)
    (hmost : ∀ x ∈ after, k.Matches x.steps → d.Refines x) :
    (ofDefinitions (before ++ d :: after)).root.descend k = some before.length := by
  rw [descend_of_refines hbefore hd hk hafter hmost, if_pos]
  rw [or_iff_not_imp_left, ← ne_eq, Option.ne_none_iff_exists']
  rintro ⟨n, hn⟩ hend
  obtain ⟨x, hx, hends⟩ := ends_of_descend hbefore hn
  have hxk := mt Key.matches_inOrder.mp (hfirst x (List.mem_of_getElem? hx))
  obtain ⟨s, hs, hnot⟩ := hends.exists_not_mem hxk (Key.matches_inOrder.mpr hk)
  exact hnot (hd.distinct.ordered.mem_trail hend hs)

/-- The most specific definition that a key matches gets the key if the key reached nothing before, or
if it selects something that the key's way was not branched on. -/
theorem descend_eq_iff {after : List Definition} (hafter : ∀ x ∈ after, x.IsWellFormed)
    (hmost : ∀ x ∈ before ++ after, k.Matches x.steps → d.Refines x) :
    (ofDefinitions (before ++ d :: after)).root.descend k = some before.length ↔
      (ofDefinitions before).root.descend k = none ∨
        ∃ s ∈ d.steps, s.axis ∉ (ofDefinitions before).root.trail k := by
  rw [descend_of_refines hbefore hd hk hafter fun x hx => hmost x (List.mem_append_right _ hx)]
  cases hn : (ofDefinitions before).root.descend k with
  | none => simp
  | some n =>
    obtain ⟨x, hx, hends⟩ := ends_of_descend hbefore hn
    have hlt : n ≠ before.length := Nat.ne_of_lt (List.getElem?_eq_some_iff.mp hx).1
    have hmem := List.mem_of_getElem? hx
    have hused : Step.beyond ((ofDefinitions before).root.trail k) (Step.inOrder d.steps) = [] ↔
        ∀ s ∈ d.steps, s.axis ∈ (ofDefinitions before).root.trail k := by
      constructor
      · intro hend s hs
        exact hd.distinct.ordered.mem_trail hend (Step.mem_inOrder.mpr hs)
      · intro hall
        -- The key was led along the opcode bytes of the definition that it reached before.
        have hkx : k.Matches x.steps := by
          by_contra hkx
          obtain ⟨s, hs, hnot⟩ := hends.exists_not_mem (mt Key.matches_inOrder.mp hkx) hk
          exact hnot (hall s hs)
        have hbytes := (hmost x (List.mem_append_left after hmem) hkx).1
        have hlength := ((hbefore x hmem).distinct.ordered.beyond_eq_nil.mp hends.usedUp).1
        rw [hd.distinct.ordered.beyond_eq_nil, Step.opcodeBytes_inOrder, hbytes,
          ← Step.opcodeBytes_inOrder]
        exact ⟨hlength, fun s hs _ => hall s (Step.mem_inOrder.mp hs)⟩
    simp [hused, hlt]

end Insertion

theorem clashes_ne_zero {before : List Definition} {d : Definition}
    (hbefore : ∀ x ∈ before, x.IsWellFormed) (hd : d.IsWellFormed) :
    (ofDefinitions before).clashes d ≠ 0 ↔
      ∃ k : Key, k.Matches d.steps ∧ (ofDefinitions before).root.descend k ≠ none ∧
        Step.Exhausts ((ofDefinitions before).root.trail k) (Step.inOrder d.steps) := by
  rw [clashes, if_pos hd.hasOpcode,
    (shaped_ofDefinitions hbefore).clashes_ne_zero hd.distinct.ordered (by simp [Step.Fresh])]
  simp only [Key.enters_inOrder]

theorem clashes_eq_zero {before : List Definition} {d : Definition}
    (hbefore : ∀ x ∈ before, x.IsWellFormed) (hd : d.IsWellFormed)
    (happart : ∀ x ∈ before, ∀ k : Key, ¬ (k.Matches x.steps ∧ k.Matches d.steps)) :
    (ofDefinitions before).clashes d = 0 := by
  by_contra hc
  obtain ⟨k, hk, hreach, hends'⟩ := (clashes_ne_zero hbefore hd).mp hc
  obtain ⟨n, hn⟩ := Option.ne_none_iff_exists'.mp hreach
  obtain ⟨x, hx, hends⟩ := ends_of_descend hbefore hn
  have hxk : ¬ k.Matches x.steps := fun h => happart x (List.mem_of_getElem? hx) k ⟨h, hk⟩
  obtain ⟨s, hs, hnot⟩ :=
    hends.exists_not_mem (mt Key.matches_inOrder.mp hxk) (Key.matches_inOrder.mpr hk)
  exact hnot (hd.distinct.ordered.mem_trail hends'.beyond_eq_nil hs)

end Table

end Lookup
end X86
