import X86.Lookup.Path
import X86.Proofs.Overrides

/-!
Tables made from paths given as text. A run of additions makes the table of all the definitions that
the paths can be read as. If no key matches two of them, every key finds the one it matches and no
warning is given. If some refine others, a definition gets the keys for which it is the most specific
one only while its place has not been split up for another.
-/

namespace X86
namespace Lookup

/-- An entry to be added under a path. -/
structure Addition where
  path : String
  mnemonic : Mnemonic
  operands : List Template := []
  flags : UInt16 := 0

namespace Addition

def readings (a : Addition) : List Path.Reading :=
  Path.readings a.path false [] (Text.words a.path.toList)

def definition? (a : Addition) : Path.Reading → Option Definition
  | .badRow _ => none
  | .path _ tokens =>
    match Path.steps tokens with
    | .error _ => none
    | .ok steps => some ⟨steps, a.mnemonic, a.operands, a.flags⟩

def definitions (a : Addition) : List Definition :=
  a.readings.filterMap a.definition?

/-- Every reading of the path has an opcode byte and selects nothing twice. -/
def IsWellFormed (a : Addition) : Prop :=
  ∀ r ∈ a.readings, ∃ d ∈ a.definition? r, d.IsWellFormed

instance (a : Addition) : Decidable a.IsWellFormed :=
  inferInstanceAs (Decidable (∀ r ∈ a.readings, ∃ d ∈ a.definition? r, d.IsWellFormed))

end Addition

/-- The definitions of a run of additions, by the numbers of their entries. -/
def defined (as : List Addition) : List Definition :=
  as.flatMap Addition.definitions

theorem defined_cons (a : Addition) (as : List Addition) :
    defined (a :: as) = a.readings.filterMap a.definition? ++ defined as :=
  List.flatMap_cons

namespace Table

def addAll (made : Table × List Warning) (as : List Addition) : Table × List Warning :=
  as.foldl
    (fun (t, warnings) a =>
      let (t', more) := t.insertPath a.path a.mnemonic a.operands a.flags
      (t', warnings ++ more))
    made

def build (as : List Addition) : Table × List Warning :=
  addAll (empty, []) as

/-- No definition clashes with what was inserted before it. -/
def Quiet : Table → List Definition → Prop
  | _, [] => True
  | t, d :: ds => t.clashes d = 0 ∧ Quiet (t.insert d) ds

theorem quiet_append {t : Table} {ds ds' : List Definition} :
    t.Quiet (ds ++ ds') ↔ t.Quiet ds ∧ (ds.foldl insert t).Quiet ds' := by
  induction ds generalizing t with
  | nil => simp [Quiet]
  | cons d ds ih => simp [Quiet, ih, and_assoc]

theorem quiet_iff {t : Table} {ds : List Definition} :
    t.Quiet ds ↔
      ∀ before d after, ds = before ++ d :: after → (before.foldl insert t).clashes d = 0 := by
  constructor
  · rintro h before d after rfl
    exact (quiet_append.mp h).2.1
  · intro h
    induction ds generalizing t with
    | nil => trivial
    | cons d ds ih =>
      refine ⟨h [] d ds rfl, ih ?_⟩
      rintro before x after rfl
      exact h (d :: before) x after rfl

theorem insertReading_eq (t : Table) (a : Addition) {r : Path.Reading} {d : Definition}
    (hd : a.definition? r = some d) :
    (t.insertReading a.mnemonic a.operands a.flags r).1 = t.insert d ∧
      (d.hasOpcode = true →
        ((t.insertReading a.mnemonic a.operands a.flags r).2 = [] ↔ t.clashes d = 0)) := by
  cases r with
  | badRow text => cases hd
  | path text tokens =>
    cases hs : Path.steps tokens with
    | error token => simp [Addition.definition?, hs] at hd
    | ok steps =>
      obtain rfl : ⟨steps, a.mnemonic, a.operands, a.flags⟩ = d := by
        simpa [Addition.definition?, hs] using hd
      rw [insertReading, hs]
      refine ⟨rfl, ?_⟩
      intro ho
      have hne : steps.isEmpty = false := by
        cases steps with
        | nil => cases ho
        | cons s rest => rfl
      simp [hne, ho]

theorem insertReading_of_none (t : Table) (a : Addition) {r : Path.Reading}
    (hd : a.definition? r = none) :
    (t.insertReading a.mnemonic a.operands a.flags r).1 = t := by
  cases r with
  | badRow text => rfl
  | path text tokens =>
    cases hs : Path.steps tokens with
    | error token => rw [insertReading, hs]
    | ok steps => simp [Addition.definition?, hs] at hd

def addReadings (a : Addition) (made : Table × List Warning) (rs : List Path.Reading) :
    Table × List Warning :=
  rs.foldl
    (fun (t, warnings) reading =>
      let (t', more) := t.insertReading a.mnemonic a.operands a.flags reading
      (t', warnings ++ more))
    made

theorem addReadings_cons (a : Addition) (t : Table) (warnings : List Warning) (r : Path.Reading)
    (rs : List Path.Reading) :
    addReadings a (t, warnings) (r :: rs) =
      addReadings a ((t.insertReading a.mnemonic a.operands a.flags r).1,
        warnings ++ (t.insertReading a.mnemonic a.operands a.flags r).2) rs :=
  rfl

theorem fst_addReadings (a : Addition) (t : Table) (warnings : List Warning)
    (rs : List Path.Reading) :
    (addReadings a (t, warnings) rs).1 = (rs.filterMap a.definition?).foldl insert t := by
  induction rs generalizing t warnings with
  | nil => rfl
  | cons r rs ih =>
    rw [addReadings_cons, ih]
    cases hd : a.definition? r with
    | none => rw [List.filterMap_cons_none hd, insertReading_of_none t a hd]
    | some d => rw [List.filterMap_cons_some hd, List.foldl_cons, (insertReading_eq t a hd).1]

theorem snd_addReadings (a : Addition) (t : Table) (warnings : List Warning)
    {rs : List Path.Reading} (h : ∀ r ∈ rs, ∃ d ∈ a.definition? r, d.IsWellFormed) :
    (addReadings a (t, warnings) rs).2 = [] ↔
      warnings = [] ∧ t.Quiet (rs.filterMap a.definition?) := by
  induction rs generalizing t warnings with
  | nil => simp [addReadings, Quiet]
  | cons r rs ih =>
    obtain ⟨d, hd, hwf⟩ := h r List.mem_cons_self
    have hrs : ∀ r ∈ rs, ∃ d ∈ a.definition? r, d.IsWellFormed := by
      intro r hr
      exact h r (List.mem_cons_of_mem _ hr)
    obtain ⟨htable, hquiet⟩ := insertReading_eq t a hd
    rw [addReadings_cons, ih _ _ hrs, List.append_eq_nil_iff, htable, hquiet hwf.hasOpcode,
      List.filterMap_cons_some hd, Quiet, and_assoc]

theorem addAll_cons (t : Table) (warnings : List Warning) (a : Addition) (as : List Addition) :
    addAll (t, warnings) (a :: as) =
      addAll ((addReadings a (t, []) a.readings).1,
        warnings ++ (addReadings a (t, []) a.readings).2) as :=
  rfl

theorem fst_addAll (t : Table) (warnings : List Warning) (as : List Addition) :
    (addAll (t, warnings) as).1 = (defined as).foldl insert t := by
  induction as generalizing t warnings with
  | nil => rfl
  | cons a as ih =>
    rw [addAll_cons, ih, fst_addReadings, defined_cons, List.foldl_append]

theorem snd_addAll (t : Table) (warnings : List Warning) {as : List Addition}
    (h : ∀ a ∈ as, a.IsWellFormed) :
    (addAll (t, warnings) as).2 = [] ↔ warnings = [] ∧ t.Quiet (defined as) := by
  induction as generalizing t warnings with
  | nil => simp [addAll, Quiet, defined]
  | cons a as ih =>
    have has : ∀ a ∈ as, a.IsWellFormed := fun x hx => h x (List.mem_cons_of_mem a hx)
    have ha := snd_addReadings a t [] (h a List.mem_cons_self)
    rw [addAll_cons, ih _ _ has, List.append_eq_nil_iff, ha, fst_addReadings, defined_cons,
      quiet_append]
    simp only [true_and, and_assoc]

theorem fst_build (as : List Addition) : (build as).1 = ofDefinitions (defined as) :=
  fst_addAll empty [] as

theorem snd_build {as : List Addition} (h : ∀ a ∈ as, a.IsWellFormed) :
    (build as).2 = [] ↔
      ∀ before d after, defined as = before ++ d :: after → (ofDefinitions before).clashes d = 0 := by
  rw [build, snd_addAll empty [] h, quiet_iff]
  simp only [true_and]
  rfl

theorem isWellFormed_of_mem_defined {as : List Addition} (h : ∀ a ∈ as, a.IsWellFormed)
    {d : Definition} (hd : d ∈ defined as) : d.IsWellFormed := by
  obtain ⟨a, ha, hd⟩ := List.mem_flatMap.mp hd
  obtain ⟨r, hr, hd⟩ := List.mem_filterMap.mp hd
  obtain ⟨x, hx, hwf⟩ := h a ha r hr
  obtain rfl : x = d := Option.some.inj (hx.symm.trans hd)
  exact hwf

theorem isWellFormed_of_defined_eq {as : List Addition} (h : ∀ a ∈ as, a.IsWellFormed)
    {before after : List Definition} {d : Definition} (hds : defined as = before ++ d :: after) :
    (∀ x ∈ before, x.IsWellFormed) ∧ d.IsWellFormed ∧ ∀ x ∈ after, x.IsWellFormed := by
  have hwf : ∀ x ∈ defined as, x.IsWellFormed := fun x => isWellFormed_of_mem_defined h
  rwa [hds, List.forall_mem_append, List.forall_mem_cons] at hwf

theorem getElem?_entries_build {as : List Addition} {n : Nat} {d : Definition}
    (hn : (defined as)[n]? = some d) : (build as).1.entries[n]? = some d.entry := by
  rw [fst_build, entries_ofDefinitions, List.getElem?_toArray, List.getElem?_map, hn, Option.map_some]

theorem exists_append_of_getElem? {ds : List Definition} {n : Nat} {d : Definition}
    (h : ds[n]? = some d) : ∃ before after, ds = before ++ d :: after ∧ before.length = n := by
  obtain ⟨hn, rfl⟩ := List.getElem?_eq_some_iff.mp h
  refine ⟨ds.take n, ds.drop (n + 1), ?_, by simp; omega⟩
  rw [List.getElem_cons_drop, List.take_append_drop]

/-- Whatever a key finds is an entry whose path the key carries. If no key matches two of the paths,
every key that matches a path finds its entry, and there is no warning. -/
theorem build_faithful (as : List Addition) (h : ∀ a ∈ as, a.IsWellFormed) :
    (∀ (k : Key) (n : Nat), (build as).1.root.descend k = some n →
      ∃ d, (defined as)[n]? = some d ∧ (build as).1.entries[n]? = some d.entry ∧
        k.Carries d.steps) ∧
    ((defined as).Pairwise (fun d d' => ∀ k : Key, ¬ (k.Matches d.steps ∧ k.Matches d'.steps)) →
      (build as).2 = [] ∧
      ∀ (k : Key) (n : Nat) (d : Definition), (defined as)[n]? = some d → k.Matches d.steps →
        (build as).1.root.descend k = some n ∧ (build as).1.entries[n]? = some d.entry) := by
  refine ⟨?_, ?_⟩
  · intro k n hn
    rw [fst_build] at hn
    obtain ⟨d, hd, hends⟩ := ends_of_descend (fun d => isWellFormed_of_mem_defined h) hn
    exact ⟨d, hd, getElem?_entries_build hd, Key.carries_inOrder.mp hends.carries⟩
  · intro hapart
    constructor
    · rw [snd_build h]
      intro before d after hds
      obtain ⟨hbefore, hd, -⟩ := isWellFormed_of_defined_eq h hds
      rw [hds, List.pairwise_append] at hapart
      refine clashes_eq_zero hbefore hd ?_
      intro x hx
      exact hapart.2.2 x hx d List.mem_cons_self
    · intro k n d hd hk
      refine ⟨?_, getElem?_entries_build hd⟩
      obtain ⟨before, after, hds, rfl⟩ := exists_append_of_getElem? hd
      obtain ⟨hbefore, hwf, hafter⟩ := isWellFormed_of_defined_eq h hds
      rw [hds, List.pairwise_append, List.pairwise_cons] at hapart
      rw [fst_build, hds]
      refine descend_of_first hbefore hwf hk hafter ?_ ?_
      · intro x hx hkx
        exact hapart.2.2 x hx d List.mem_cons_self k ⟨hkx, hk⟩
      · intro x hx hkx
        exact absurd ⟨hk, hkx⟩ (hapart.2.1.1 x hx k)

/-- Two instructions that a mandatory prefix tells apart, although only one path mentions it. -/
def vmxAdditions : List Addition :=
  [⟨"0f c7 /sse=66 /reg=6 /mod=mem", .VMCLEAR, [], 0⟩, ⟨"0f c7 /reg=6 /mod=mem", .VMPTRLD, [], 0⟩]

def vmxKey (m : Fin 4) : Key where
  bytes
    | 0 => 0x0f
    | _ => 0xc7
  selected
    | .mandatory => m
    | .reg => ⟨6, by decide⟩
    | a => ⟨0, a.slotCount_pos⟩

theorem build_faithful_vmx :
    (∀ a ∈ vmxAdditions, a.IsWellFormed) ∧
      (defined vmxAdditions).Pairwise
        (fun d d' => ∀ k : Key, ¬ (k.Matches d.steps ∧ k.Matches d'.steps)) ∧
      (build vmxAdditions).2 = [] ∧
      (build vmxAdditions).1.root.descend (vmxKey 1) = some 0 ∧
      (build vmxAdditions).1.root.descend (vmxKey 0) = some 1 := by
  have hdefined : defined vmxAdditions =
      [⟨[.byte 0x0f, .byte 0xc7, .mandatory 1, .reg 6, .mod 0], .VMCLEAR, [], 0⟩,
        ⟨[.byte 0x0f, .byte 0xc7, .reg 6, .mod 0], .VMPTRLD, [], 0⟩] := by
    decide +kernel
  have hwf : ∀ a ∈ vmxAdditions, a.IsWellFormed := by
    decide +kernel
  have hapart : (defined vmxAdditions).Pairwise
      (fun d d' => ∀ k : Key, ¬ (k.Matches d.steps ∧ k.Matches d'.steps)) := by
    rw [hdefined, List.pairwise_pair]
    rintro k ⟨hk, hk'⟩
    have hone : k.selected .mandatory = (1 : Fin 4) :=
      hk.1.selectors (.mandatory 1) (by decide) (by decide)
    have hnone : k.slot .mandatory = 0 := hk'.2.resolve_right (by decide)
    rw [Key.slot_of_ne k (by decide), hone] at hnone
    cases hnone
  obtain ⟨-, hexact⟩ := build_faithful vmxAdditions hwf
  obtain ⟨hquiet, hreach⟩ := hexact hapart
  refine ⟨hwf, hapart, hquiet, ?_, ?_⟩
  · refine (hreach (vmxKey 1) 0 _ (by rw [hdefined]; rfl) ⟨?_, Or.inr ⟨.mandatory 1, by decide, rfl⟩⟩).1
    repeat refine Key.carries_cons.mpr ⟨rfl, ?_⟩
    exact Key.carries_nil _
  · refine (hreach (vmxKey 0) 1 _ (by rw [hdefined]; rfl) ⟨?_, Or.inl rfl⟩).1
    repeat refine Key.carries_cons.mpr ⟨rfl, ?_⟩
    exact Key.carries_nil _

/-- A definition gets the keys for which it is the most specific one if they reached nothing before,
or if it selects something that their way was not branched on; a warning is given exactly if a path
is used up where one of its keys has ended. If paths come before those that they refine, every key
finds the most specific path that it matches. -/
theorem build_refinements (as : List Addition) (h : ∀ a ∈ as, a.IsWellFormed) :
    (∀ (k : Key) before d after, defined as = before ++ d :: after → k.Matches d.steps →
      (∀ x ∈ before ++ after, k.Matches x.steps → d.Refines x) →
      ((build as).1.root.descend k = some before.length ↔
        (ofDefinitions before).root.descend k = none ∨
          ∃ s ∈ d.steps, s.axis ∉ (ofDefinitions before).root.trail k)) ∧
    ((build as).2 = [] ↔
      ∀ (k : Key) before d after, defined as = before ++ d :: after → k.Matches d.steps →
        (ofDefinitions before).root.descend k ≠ none →
        ¬ Step.Exhausts ((ofDefinitions before).root.trail k) (Step.inOrder d.steps)) ∧
    ((defined as).Pairwise
        (fun d d' => ∀ k : Key, k.Matches d.steps → k.Matches d'.steps → d.Refines d') →
      ∀ (k : Key) before d after, defined as = before ++ d :: after → k.Matches d.steps →
        (∀ x ∈ before ++ after, k.Matches x.steps → d.Refines x) →
        (build as).1.root.descend k = some before.length) := by
  refine ⟨?_, ?_, ?_⟩
  · intro k before d after hds hk hmost
    obtain ⟨hbefore, hd, hafter⟩ := isWellFormed_of_defined_eq h hds
    rw [fst_build, hds]
    exact descend_eq_iff hbefore hd hk hafter hmost
  · rw [snd_build h]
    constructor
    · intro hquiet k before d after hds hk hreach hends
      obtain ⟨hbefore, hd, -⟩ := isWellFormed_of_defined_eq h hds
      have hclash := (clashes_ne_zero hbefore hd).mpr ⟨k, hk, hreach, hends⟩
      exact hclash (hquiet before d after hds)
    · intro hnone before d after hds
      obtain ⟨hbefore, hd, -⟩ := isWellFormed_of_defined_eq h hds
      by_contra hclash
      obtain ⟨k, hk, hreach, hends⟩ := (clashes_ne_zero hbefore hd).mp hclash
      exact hnone k before d after hds hk hreach hends
  · intro horder k before d after hds hk hmost
    obtain ⟨hbefore, hd, hafter⟩ := isWellFormed_of_defined_eq h hds
    rw [hds, List.pairwise_append] at horder
    rw [fst_build, hds]
    refine descend_of_first hbefore hd hk hafter ?_
      fun x hx => hmost x (List.mem_append_right before hx)
    intro x hx hkx
    have hforth := horder.2.2 x hx d List.mem_cons_self k hkx hk
    have hback := hmost x (List.mem_append_left after hx) hkx
    exact hback.2.2 hforth.2.1

/-- Opcode 63 with an instruction for all modes, and one for either mode that overrides it. -/
def overrides63 : List Addition :=
  [⟨"63", .ARPL, [], 0⟩, ⟨"63 /m=!64", .MOV, [], 0⟩, ⟨"63 /m=64", .MOVSXD, [], 0⟩]

def key63 (mode : Fin 2) : Key where
  bytes _ := 0x63
  selected
    | .mode => mode
    | a => ⟨0, a.slotCount_pos⟩

theorem not_matches_both_modes {k : Key} {steps steps' : List Step} (h : .mode 0 ∈ steps)
    (h' : .mode 1 ∈ steps') : ¬ (k.Matches steps ∧ k.Matches steps') := by
  rintro ⟨hk, hk'⟩
  have hzero : k.selected .mode = (0 : Fin 2) := hk.1.selectors (.mode 0) h (by decide)
  have hone : k.selected .mode = (1 : Fin 2) := hk'.1.selectors (.mode 1) h' (by decide)
  rw [hzero] at hone
  cases hone

theorem key63_matches : (key63 1).Matches [.byte 0x63, .mode 1] := by
  refine ⟨?_, Or.inl rfl⟩
  repeat refine Key.carries_cons.mpr ⟨rfl, ?_⟩
  exact Key.carries_nil _

/-- With the overrides first, each is found. -/
theorem build_refinements_opcode63 :
    (∀ a ∈ overrides63.reverse, a.IsWellFormed) ∧
      (build overrides63.reverse).1.root.descend (key63 1) = some 0 := by
  have hdefined : defined overrides63.reverse = [] ++ ⟨[.byte 0x63, .mode 1], .MOVSXD, [], 0⟩ ::
      [⟨[.byte 0x63, .mode 0], .MOV, [], 0⟩, ⟨[.byte 0x63], .ARPL, [], 0⟩] := by
    decide +kernel
  have hwf : ∀ a ∈ overrides63.reverse, a.IsWellFormed := by
    decide +kernel
  obtain ⟨-, -, hfirst⟩ := build_refinements overrides63.reverse hwf
  refine ⟨hwf, hfirst ?_ (key63 1) _ _ _ hdefined key63_matches ?_⟩
  · rw [hdefined, List.nil_append, List.pairwise_cons, List.pairwise_pair]
    constructor
    · intro d hd k hk hk'
      rw [List.mem_cons, List.mem_singleton] at hd
      rcases hd with rfl | rfl
      · exact absurd ⟨hk', hk⟩ (not_matches_both_modes (by decide) (by decide))
      · decide
    · intro k _ _
      decide
  · intro d hd hk
    rw [List.nil_append, List.mem_cons, List.mem_singleton] at hd
    rcases hd with rfl | rfl
    · exact absurd ⟨hk, key63_matches⟩ (not_matches_both_modes (by decide) (by decide))
    · decide

/-- Of two overrides the second is lost: the first one has split up the place of the default, and the
copy of the default that is left there stands in the way. -/
theorem build_second_override_lost :
    (∀ a ∈ overrides63, a.IsWellFormed) ∧
      (defined overrides63).Pairwise (fun d d' => ∀ k : Key, k.Matches d.steps →
        k.Matches d'.steps → d.Refines d' ∨ d'.Refines d) ∧
      (∃ d, (defined overrides63)[2]? = some d ∧ (key63 1).Matches d.steps ∧
        ∀ x ∈ (defined overrides63).take 2, (key63 1).Matches x.steps → d.Refines x) ∧
      (build overrides63).1.root.descend (key63 1) = some 0 ∧
      (build overrides63).2 = [.duplicate "63 /m=64"] := by
  have hdefined : defined overrides63 =
      [⟨[.byte 0x63], .ARPL, [], 0⟩, ⟨[.byte 0x63, .mode 0], .MOV, [], 0⟩,
        ⟨[.byte 0x63, .mode 1], .MOVSXD, [], 0⟩] := by
    decide +kernel
  refine ⟨by decide +kernel, ?_, ?_, by decide +kernel, by decide +kernel⟩
  · rw [hdefined, List.pairwise_cons, List.pairwise_pair]
    constructor
    · intro d hd k _ _
      right
      rw [List.mem_cons, List.mem_singleton] at hd
      rcases hd with rfl | rfl
      · decide
      · decide
    · intro k hk hk'
      exact absurd ⟨hk, hk'⟩ (not_matches_both_modes (by decide) (by decide))
  · rw [hdefined]
    refine ⟨_, rfl, key63_matches, ?_⟩
    intro d hd hk
    rw [List.take_succ_cons, List.take_succ_cons, List.take_zero, List.mem_cons,
      List.mem_singleton] at hd
    rcases hd with rfl | rfl
    · decide
    · exact absurd ⟨hk, key63_matches⟩ (not_matches_both_modes (by decide) (by decide))

end Table

end Lookup
end X86
