import Mathlib.Data.List.GetD
import X86.Proofs.Duality
import X86.Proofs.Relocation

/-!
Other prefixes in front of the same opcode. Where two runs of prefixes differ only in what a
definition does not follow, the scan finds the same definition behind them, and its operands can be
read alike.
-/

namespace X86

open Lookup

namespace Lookup.Definition

theorem followsOperandSize_eq_false {d : Definition} (h : d.entryFlags.usesOperandSize = false) :
    d.followsOperandSize = false := by
  rw [← Bool.not_eq_true]
  intro hd
  have hbit : ∀ a b c : UInt16,
      (a ||| b ||| EntryFlags.operandSizeBit ||| c) &&& EntryFlags.operandSizeBit ≠ 0 := by
    intro a b c hz
    have htwo := congrArg (fun x : UInt16 => x.toBitVec.getLsbD 2) hz
    simp [EntryFlags.operandSizeBit] at htwo
  rw [EntryFlags.usesOperandSize, entryFlags, if_pos hd, bne_eq_false_iff_eq] at h
  exact hbit _ _ _ h

theorem followsAddressSize_eq_false {d : Definition} (h : d.entryFlags.usesAddressSize = false) :
    d.followsAddressSize = false := by
  rw [← Bool.not_eq_true]
  intro hd
  have hbit : ∀ a b c : UInt16,
      (a ||| b ||| c ||| EntryFlags.addressSizeBit) &&& EntryFlags.addressSizeBit ≠ 0 := by
    intro a b c hz
    have hthree := congrArg (fun x : UInt16 => x.toBitVec.getLsbD 3) hz
    simp [EntryFlags.addressSizeBit] at hthree
  rw [EntryFlags.usesAddressSize, entryFlags, if_pos hd, bne_eq_false_iff_eq] at h
  exact hbit _ _ _ h

/-- Whether a mandatory prefix leaves no say to the size overrides: the path selects neither on the
address size nor, unless the prefix is 66 itself, on the operand size. -/
def isFirm (d : Definition) : Bool :=
  d.steps.all fun s =>
    s.axis != .mandatory || s.index.val == 0 || d.steps.all fun s' =>
      s'.axis != .addressSize && (s.index.val == 1 || s'.axis != .operandSize)

end Lookup.Definition

theorem definitions_isFirm : definitions.all Definition.isFirm = true := by
  decide +kernel

namespace PrefixState

theorem mem_choices_iff {p : PrefixState} {c : Fin 4} :
    c ∈ p.choices ↔ c = 0 ∨ c = 1 ∧ p.operandSize = true ∨ c = 2 ∧ p.repeated = some .f2 ∨
      c = 3 ∧ p.repeated = some .f3 := by
  obtain ⟨o, a, l, g, r, x⟩ := p
  match r with
  | none | some .f2 | some .f3 => cases o <;> simp [choices, or_comm, or_assoc]

theorem choices_pairwise (p : PrefixState) : p.choices.Pairwise (· > ·) := by
  obtain ⟨o, a, l, g, r, x⟩ := p
  match r with
  | none | some .f2 | some .f3 => cases o <;> simp [choices]

/-- For the definition, `p'` does as well as `p`. They may differ in lock and segment, and in the
sizes that the definition does not follow; but 66 may only be left out, for it could become a
mandatory prefix. -/
structure Serves (p' p : PrefixState) (d : Definition) : Prop where
  rex : p'.rex = p.rex
  repeated : p'.repeated = p.repeated
  operandSize : p'.operandSize = p.operandSize ∨
    p'.operandSize = false ∧ d.followsOperandSize = false
  addressSize : p'.addressSize = p.addressSize ∨ d.followsAddressSize = false

end PrefixState

section Describes

variable {t : Target} {p p' : PrefixState} {c : Fin 4} {d : Definition} {bytes : List UInt8}

theorem Setting.agrees_congr {x : Option ModRM} {s : Step} (hrex : p'.rex = p.rex)
    (ho : s.axis = .operandSize → (p'.without c).operandSize = (p.without c).operandSize)
    (ha : s.axis = .addressSize → p'.addressSize = p.addressSize) :
    Setting.agrees ⟨t, c, p', x⟩ s = Setting.agrees ⟨t, c, p, x⟩ s := by
  obtain ⟨a, i⟩ := s
  cases a with
  | operandSize => simp only [Setting.agrees, Setting.operandSize, hrex, ho rfl]
  | addressSize => simp only [Setting.agrees, Setting.addressSize, ha rfl]
  | _ => rfl

theorem Lookup.Definition.describes_congr (hrex : p'.rex = p.rex)
    (ho : ∀ s ∈ d.steps, s.axis = .operandSize →
      (p'.without c).operandSize = (p.without c).operandSize)
    (ha : ∀ s ∈ d.steps, s.axis = .addressSize → p'.addressSize = p.addressSize) :
    d.describes t p' c bytes = d.describes t p c bytes := by
  have hall (x : Option ModRM) : d.steps.all (Setting.agrees ⟨t, c, p', x⟩) =
      d.steps.all (Setting.agrees ⟨t, c, p, x⟩) := by
    rw [Bool.eq_iff_iff, List.all_eq_true, List.all_eq_true]
    refine forall₂_congr fun s hs => ?_
    rw [Setting.agrees_congr hrex (ho s hs) (ha s hs)]
  simp only [Definition.describes, Setting.admits, hall]

theorem Lookup.Definition.describes_serves (h : p'.Serves p d) :
    d.describes t p' c bytes = d.describes t p c bytes := by
  refine Definition.describes_congr h.rex ?_ ?_
  · intro s hs haxis
    obtain ho | ⟨-, hd⟩ := h.operandSize
    · rw [PrefixState.without_operandSize, PrefixState.without_operandSize, ho]
    · rw [Definition.followsOperandSize, Bool.or_eq_false_iff] at hd
      exact absurd (decide_eq_true haxis) (List.any_eq_false.mp hd.2 s hs)
  · intro s hs haxis
    obtain ha | hd := h.addressSize
    · exact ha
    · rw [Definition.followsAddressSize, Bool.or_eq_false_iff] at hd
      exact absurd (decide_eq_true haxis) (List.any_eq_false.mp hd.2 s hs)

/-- Under a mandatory prefix the size overrides select nothing. -/
theorem Lookup.Definition.describes_mandatory (hd : d ∈ definitions) (hc : c ≠ 0)
    (hrex : p'.rex = p.rex) (h : d.describes t p' c bytes = true) :
    d.describes t p c bytes = true := by
  have hfirm := List.all_eq_true.mp definitions_isFirm d hd
  have hmem := (Definition.mandatory_mem_iff h hc).mpr rfl
  have hsteps : ∀ s ∈ d.steps, s.axis ≠ .addressSize ∧ (c = 1 ∨ s.axis ≠ .operandSize) := by
    intro s hs
    have hself := List.all_eq_true.mp hfirm _ hmem
    have hzero : (Step.mandatory c).index.val ≠ 0 := fun h0 => hc (Fin.ext h0)
    simp only [Bool.or_eq_true, beq_iff_eq, hzero, or_false] at hself
    have hsize := List.all_eq_true.mp (hself.resolve_left (by simp [Step.mandatory])) s hs
    rw [Bool.and_eq_true, Bool.or_eq_true, bne_iff_ne, bne_iff_ne, beq_iff_eq] at hsize
    exact ⟨hsize.1, hsize.2.imp_left fun h1 => Fin.ext h1⟩
  rw [← h]
  refine (Definition.describes_congr hrex ?_ ?_).symm
  · intro s hs haxis
    obtain rfl | hne := (hsteps s hs).2
    · rfl
    · exact absurd haxis hne
  · intro s hs haxis
    exact absurd haxis (hsteps s hs).1

end Describes

section Scan

variable {t : Target} {p p' : PrefixState} {c : Fin 4} {d : Definition} {bytes : List UInt8} {n : Nat}

theorem findIdx?_of_describes (hd : definitions[n]? = some d)
    (h : d.describes t p c bytes = true) :
    (definitions.findIdx? fun d => d.describes t p c bytes) = some n := by
  obtain ⟨hn, hget⟩ := List.getElem?_eq_some_iff.mp hd
  refine List.findIdx?_eq_some_iff_getElem.mpr ⟨hn, ?_, ?_⟩
  · rw [hget]
    exact h
  · intro j hj hdescribes
    have hsuits := List.pairwise_iff_getElem.mp definitions_suits j n (Nat.lt_trans hj hn) hn hj
    rw [hget] at hsuits
    exact not_describes_both (isProper_of_mem (List.getElem_mem _))
      (isProper_of_mem (List.mem_of_getElem? hd)) hsuits t p c bytes ⟨hdescribes, h⟩

theorem findSome?_of_pairwise {α : Type} {f : Fin 4 → Option α} {l : List (Fin 4)} {a : α}
    (hl : l.Pairwise (· > ·)) :
    l.findSome? f = some a ↔
      ∃ c ∈ l, f c = some a ∧ ∀ c' ∈ l, c < c' → f c' = none := by
  induction l with
  | nil => simp
  | cons b l ih =>
    rw [List.pairwise_cons] at hl
    rw [List.findSome?_cons]
    cases hb : f b with
    | some a' =>
      simp only [Option.some.injEq]
      constructor
      · rintro rfl
        refine ⟨b, List.mem_cons_self, hb, ?_⟩
        intro c' hc' hlt
        obtain rfl | hmem := List.mem_cons.mp hc'
        · exact absurd hlt (Nat.lt_irrefl _)
        · exact absurd hlt (Nat.lt_asymm (hl.1 c' hmem))
      · rintro ⟨c, hc, hf, hbefore⟩
        obtain rfl | hmem := List.mem_cons.mp hc
        · exact Option.some.inj (hb.symm.trans hf)
        · rw [hbefore b List.mem_cons_self (hl.1 c hmem)] at hb
          cases hb
    | none =>
      simp only [ih hl.2]
      constructor
      · rintro ⟨c, hc, hf, hbefore⟩
        refine ⟨c, List.mem_cons_of_mem b hc, hf, ?_⟩
        intro c' hc' hlt
        obtain rfl | hmem := List.mem_cons.mp hc'
        · exact hb
        · exact hbefore c' hmem hlt
      · rintro ⟨c, hc, hf, hbefore⟩
        obtain rfl | hmem := List.mem_cons.mp hc
        · rw [hb] at hf
          cases hf
        · exact ⟨c, hmem, hf, fun c' hc' => hbefore c' (List.mem_cons_of_mem b hc')⟩

/-- With other prefixes that serve the definition found, the scan finds it again. -/
theorem scan_serves (hscan : scan t p bytes = some n) (hd : definitions[n]? = some d)
    (hdescribes : d.describes t p c bytes = true) (h : p'.Serves p d) (hc : c ∈ p'.choices) :
    scan t p' bytes = some n := by
  obtain ⟨c', -, hfind, hbefore⟩ := (findSome?_of_pairwise p.choices_pairwise).mp hscan
  obtain rfl : c = c' := Definition.choice_unique hdescribes (describes_of_findIdx? hfind hd)
  refine (findSome?_of_pairwise p'.choices_pairwise).mpr ⟨c, hc, ?_, ?_⟩
  · exact findIdx?_of_describes hd ((Definition.describes_serves h).trans hdescribes)
  · intro k hk hlt
    have hk0 : k ≠ 0 := by
      rintro rfl
      exact absurd hlt (Fin.not_lt_zero c)
    have hmem : k ∈ p.choices := by
      rw [PrefixState.mem_choices_iff, h.repeated] at hk
      rw [PrefixState.mem_choices_iff]
      refine hk.imp_right fun hk => hk.imp_left ?_
      rintro ⟨hk1, hsized⟩
      obtain ho | ⟨hfalse, -⟩ := h.operandSize
      · exact ⟨hk1, ho.symm.trans hsized⟩
      · rw [hfalse] at hsized
        cases hsized
    have hnone := hbefore k hmem hlt
    rw [List.findIdx?_eq_none_iff] at hnone ⊢
    intro d' hd'
    rw [← Bool.not_eq_true]
    intro hdescribes'
    have hother := Definition.describes_mandatory hd' hk0 h.rex hdescribes'
    rw [hnone d' hd'] at hother
    cases hother

end Scan

theorem PrefixState.Serves.mem_choices {p p' : PrefixState} {d : Definition} {c : Fin 4}
    (h : p'.Serves p d) (hc : c ∈ p.choices) (hone : c = 1 → p'.operandSize = p.operandSize) :
    c ∈ p'.choices := by
  rw [mem_choices_iff] at hc ⊢
  rw [h.repeated]
  refine hc.imp_right fun hc => hc.imp_left ?_
  rintro ⟨rfl, hsized⟩
  exact ⟨rfl, (hone rfl).trans hsized⟩

theorem PrefixState.without_repeated (p : PrefixState) (c : Fin 4) :
    (p.without c).repeated = if c = 2 ∨ c = 3 then none else p.repeated := by
  match c with
  | 0 | 1 | 2 | 3 => rfl

theorem Lookup.Definition.mem_templates {d : Definition} {τ : Template} (h : τ ∈ d.templates) :
    τ ∈ d.operands ∨ τ = .absent := by
  have hgetD (k : Nat) : d.operands.getD k .absent ∈ d.operands ∨ d.operands.getD k .absent = .absent := by
    by_cases hk : k < d.operands.length
    · rw [List.getD_eq_getElem _ _ hk]
      exact Or.inl (List.getElem_mem hk)
    · exact Or.inr (List.getD_eq_default _ _ (Nat.not_lt.mp hk))
  simp only [templates, List.mem_cons, List.not_mem_nil, or_false] at h
  obtain rfl | rfl | rfl | rfl := h
  · exact hgetD 0
  · exact hgetD 1
  · exact hgetD 2
  · exact hgetD 3

namespace Decode
namespace Frame

variable {f : Frame} {τ : Template}

theorem operand_addressSize (h : τ.mayAddressMemory = false) (size : Nat) :
    operand { f with addressSize := size } τ = f.operand τ := by
  cases τ with
  | regMem | mem | mmxRegMem | xmmRegMem | offset => cases h
  | _ => rfl

end Frame

theorem operands_addressSize {f : Frame} {τs : Vector Template 4}
    (h : τs.toList.all (!·.mayAddressMemory) = true) (size : Nat) :
    operands { f with addressSize := size } τs = operands f τs := by
  have hslot (k : Nat) (hk : k < 4) :
      Frame.operand { f with addressSize := size } τs[k] = f.operand τs[k] := by
    have hτ := List.all_eq_true.mp h τs[k] (by simp)
    exact Frame.operand_addressSize (by simpa using hτ) size
  simp only [operands, hslot]

theorem operands_serves {t : Target} {d : Definition} {s s' : State} {p p' : PrefixState} {c : Fin 4}
    (h : p'.Serves p d) (ho : p'.operandSize = p.operandSize) (hopcode : s'.opcode = s.opcode)
    (hs : s.prefixes = p.without c) (hs' : s'.prefixes = p'.without c) :
    operands (frameOf t d.entry s') d.entry.operands =
      operands (frameOf t d.entry s) d.entry.operands := by
  have hframe : frameOf t d.entry s' = { frameOf t d.entry s with
      addressSize := t.mode.addressSize p'.addressSize } := by
    simp only [frameOf, operandSizeOf, hopcode, hs, hs', PrefixState.without_rex,
      PrefixState.without_operandSize, PrefixState.without_addressSize, h.rex, ho]
  rw [hframe]
  obtain ha | ha := h.addressSize
  · simp only [frameOf, hs, PrefixState.without_addressSize, ha]
  · refine operands_addressSize ?_ _
    rw [Definition.followsAddressSize, Bool.or_eq_false_iff] at ha
    rw [Definition.toList_entry_operands, List.all_eq_true]
    intro τ hτ
    obtain hmem | rfl := Definition.mem_templates hτ
    · simpa using List.any_eq_false.mp ha.1 τ hmem
    · rfl

theorem map_ok {m : Decode α} {g : α → β} {s s' : State} {b : β} :
    (g <$> m) s = .ok b s' ↔ ∃ a, m s = .ok a s' ∧ g a = b := by
  change EStateM.map g m s = _ ↔ _
  unfold EStateM.map
  cases m s with
  | ok a s₁ => simp [and_comm]
  | error e s₁ => simp

@[simp] theorem State.recast_opcode (start : Nat) (p : PrefixState) (s : State) :
    (s.recast start p).opcode = s.opcode := rfl

section Recast

variable {t : Target} {pc : UInt64} {source : Source} {o o' : Nat} {first : UInt8} {n : Nat}
  {d : Definition} {c : Fin 4} {s₁ s₂ s' : State} {p' : PrefixState} {i : Instruction}

theorem Heading.recast (h : Heading t { cursor := .ofStart source o } first s₁ n d c s₂)
    (hprefixes : scanPrefixes t.mode maxLength { cursor := .ofStart source o' } =
      .ok first (s₁.recast o' p'))
    (hserves : p'.Serves s₁.prefixes d) (hc : c ∈ p'.choices) :
    Heading t { cursor := .ofStart source o' } first (s₁.recast o' p') n d c (s₂.recast o' p') where
  prefixes := hprefixes
  scan := scan_serves h.scan h.definition h.describes hserves hc
  definition := h.definition
  describes := (Definition.describes_serves hserves).trans h.describes
  past := State.past?_recast o' p' h.past

/-- If the operands come out as `g` of what they were, an instruction can be put together from
them. -/
theorem complete_recast {e : Entry} {s : State} {start : Nat}
    {g : Vector Operand 4 → Vector Operand 4} (hc : complete t pc e s = .ok i s')
    (hops : operands (frameOf t e (s.recast start p')) e.operands =
      g <$> operands (frameOf t e s) e.operands) (pc' : UInt64) :
    ∃ ops, assemble t pc e s ops s'.cursor.consumed = i ∧
      complete t pc' e (s.recast start p') =
        .ok (assemble t pc' e (s.recast start p') (g ops) (s'.recast start p').cursor.consumed)
          (s'.recast start p') := by
  obtain ⟨hmode, s₁, ops, hfetch, hread, rfl⟩ := complete_ok.mp hc
  refine ⟨ops, rfl, complete_ok.mpr ⟨hmode, s₁.recast start p', g ops, ?_, ?_, rfl⟩⟩
  · exact fetchModRM_recast start p' hfetch
  · rw [hops, map_ok]
    refine ⟨ops, ?_, rfl⟩
    rw [(recast_composes start p').operands, hread]
    rfl

theorem Heading.extent (h : Heading t { cursor := .ofStart source o } first s₁ n d c s₂)
    (hc : complete t pc d.entry (s₂.spend c) = .ok i s') :
    s'.cursor.start = o ∧
      o + ((source.slice o source.length).takeWhile (isPrefixByte t.mode)).length <
        s'.cursor.position := by
  obtain ⟨-, -, -, -, hreads⟩ := h.run_eq
  obtain ⟨hopcode, -⟩ := State.past?_eq_some h.past
  obtain ⟨rest, hrest⟩ := Streams.complete t pc d.entry (s₂.spend c)
  have hread := hrest.reads
  rw [hc, stop_ok] at hread
  constructor
  · rw [hread.start_eq, State.spend_cursor, hopcode.start_eq, hreads.start_eq]
    rfl
  · rw [hread.position_eq, State.spend_cursor, hopcode.position_eq, hreads.position_eq,
      List.length_append]
    show _ < o + _ + _ + _
    rw [List.length_singleton]
    omega

end Recast

/-- With other prefixes that serve its definition an instruction is decoded again, from operands that
are `g` of what they were. -/
theorem Heading.decodes {t : Target} {source : Source} {o o' : Nat} {pc : UInt64} {first : UInt8}
    {s₁ s₂ s' : State} {n : Nat} {d : Definition} {c : Fin 4} {p' : PrefixState} {i : Instruction}
    {g : Vector Operand 4 → Vector Operand 4}
    (h : Heading t { cursor := .ofStart source o } first s₁ n d c s₂)
    (hc : complete t pc d.entry (s₂.spend c) = .ok i s')
    (hscan : scanPrefixes t.mode maxLength { cursor := .ofStart source o' } =
      .ok first (s₁.recast o' p'))
    (hserves : p'.Serves s₁.prefixes d) (hchoice : c ∈ p'.choices)
    (hops : operands (frameOf t d.entry ((s₂.spend c).recast o' (p'.without c))) d.entry.operands =
      g <$> operands (frameOf t d.entry (s₂.spend c)) d.entry.operands)
    (hlength : s'.cursor.position - o' ≤ maxLength) (pc' : UInt64) :
    ∃ ops, assemble t pc d.entry (s₂.spend c) ops (s'.cursor.position - s'.cursor.start) = i ∧
      instruction instructionTable t pc' { cursor := .ofStart source o' } =
        .ok (assemble t pc' d.entry ((s₂.spend c).recast o' (p'.without c)) (g ops)
          (s'.cursor.position - o')) (s'.recast o' (p'.without c)) := by
  obtain ⟨ops, rfl, hcomplete⟩ := complete_recast hc hops pc'
  exact ⟨ops, rfl, (instruction_iff_heading rfl).mpr
    ⟨first, _, n, d, c, _, h.recast hscan hserves hchoice, hcomplete, hlength⟩⟩

theorem Heading.decodes_alike {t : Target} {source : Source} {o o' : Nat} {pc : UInt64}
    {first : UInt8} {s₁ s₂ s' : State} {n : Nat} {d : Definition} {c : Fin 4} {p' : PrefixState}
    {i : Instruction} (h : Heading t { cursor := .ofStart source o } first s₁ n d c s₂)
    (hc : complete t pc d.entry (s₂.spend c) = .ok i s')
    (hscan : scanPrefixes t.mode maxLength { cursor := .ofStart source o' } =
      .ok first (s₁.recast o' p'))
    (hserves : p'.Serves s₁.prefixes d) (hsize : p'.operandSize = s₁.prefixes.operandSize)
    (hlength : s'.cursor.position - o' ≤ maxLength) (pc' : UInt64) :
    ∃ ops, assemble t pc d.entry (s₂.spend c) ops (s'.cursor.position - s'.cursor.start) = i ∧
      instruction instructionTable t pc' { cursor := .ofStart source o' } =
        .ok (assemble t pc' d.entry ((s₂.spend c).recast o' (p'.without c)) ops
          (s'.cursor.position - o')) (s'.recast o' (p'.without c)) := by
  have hs₂ : (s₂.spend c).prefixes = s₁.prefixes.without c := by
    rw [State.spend_prefixes, (State.past?_eq_some h.past).2.1]
  have hops : operands (frameOf t d.entry ((s₂.spend c).recast o' (p'.without c))) d.entry.operands =
      id <$> operands (frameOf t d.entry (s₂.spend c)) d.entry.operands := by
    rw [id_map]
    exact operands_serves hserves hsize rfl hs₂ rfl
  exact h.decodes hc hscan hserves (hserves.mem_choices h.mem_choices fun _ => hsize) hops hlength pc'

end Decode
end X86
