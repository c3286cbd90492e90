import Mathlib.Data.List.Perm.Basic
import X86.Proofs.Ownership
import X86.Proofs.TakenPlaces

/-!
Paths stated again. A path is read token by token, so the readings of two paths with the same words
are the same, and the selectors of a path may change places as long as no two of them select on one
axis. A path that a table was made with, stated again, adds nothing to the table: the first entry of a
path wins.
-/

namespace X86
namespace Lookup

def Step.isSelector (s : Step) : Bool :=
  s.axis ≠ .opcode

namespace Path

/-- How a token may be written out: as it stands, or as a byte of the row that it marks. -/
def WrittenOut (token written : List Char) : Prop :=
  match rowBase? token with
  | none => written = token
  | some start => ∃ b i, byte? start = some b ∧ i < 8 ∧
      written = (Text.hexByte (b + UInt8.ofNat i)).toList

def Means (token : List Char) (s : Step) : Prop :=
  ∃ written, WrittenOut token written ∧ step? written = some s

theorem writtenOut_of_none {token written : List Char} (h : rowBase? token = none) :
    WrittenOut token written ↔ written = token := by
  rw [WrittenOut, h]

theorem writtenOut_of_some {token start written : List Char} (h : rowBase? token = some start) :
    WrittenOut token written ↔ ∃ b i, byte? start = some b ∧ i < 8 ∧
      written = (Text.hexByte (b + UInt8.ofNat i)).toList := by
  rw [WrittenOut, h]

theorem mem_readings {text : String} {rowSeen : Bool} {read tokens written : List (List Char)} :
    (∃ text', Reading.path text' written ∈ readings text rowSeen read tokens) ↔
      ∃ rest, List.Forall₂ WrittenOut tokens rest ∧ written = read.reverse ++ rest := by
  induction tokens generalizing rowSeen read with
  | nil => simp [readings]
  | cons token tokens ih =>
    simp only [List.forall₂_cons_left_iff]
    rw [readings]
    cases hrow : rowBase? token with
    | none =>
      simp only [ih, writtenOut_of_none hrow, List.reverse_cons, List.append_assoc]
      simp
    | some start =>
      simp only [writtenOut_of_some hrow]
      cases hbyte : byte? start with
      | none => simp
      | some b =>
        simp only [List.mem_flatMap, List.mem_range]
        constructor
        · rintro ⟨text', i, hi, hmem⟩
          obtain ⟨rest, hrest, rfl⟩ := ih.mp ⟨text', hmem⟩
          exact ⟨_, ⟨_, rest, ⟨b, i, rfl, hi, rfl⟩, hrest, rfl⟩, by simp⟩
        · rintro ⟨_, ⟨_, rest, ⟨b', i, hb', hi, rfl⟩, hrest, rfl⟩, rfl⟩
          obtain rfl := Option.some.inj hb'
          have hjoin := List.append_cons read.reverse (Text.hexByte (b + UInt8.ofNat i)).toList rest
          rw [← List.reverse_cons] at hjoin
          obtain ⟨text', hmem⟩ := ih.mpr ⟨rest, hrest, hjoin⟩
          exact ⟨text', i, hi, hmem⟩

theorem steps_eq_ok {tokens : List (List Char)} {ss : List Step} :
    steps tokens = .ok ss ↔ List.Forall₂ (fun token s => step? token = some s) tokens ss := by
  induction tokens generalizing ss with
  | nil => simp [steps, eq_comm]
  | cons token tokens ih =>
    rw [steps, List.forall₂_cons_left_iff]
    cases step? token with
    | none => simp
    | some s =>
      simp only [← ih]
      cases steps tokens with
      | error e => simp [Except.map]
      | ok rest => simp [Except.map, eq_comm]

theorem forall₂_means {tokens : List (List Char)} {ss : List Step} :
    List.Forall₂ Means tokens ss ↔
      ∃ written, List.Forall₂ WrittenOut tokens written ∧ steps written = .ok ss := by
  simp only [steps_eq_ok]
  induction tokens generalizing ss with
  | nil => simp
  | cons token tokens ih =>
    simp only [List.forall₂_cons_left_iff, ih]
    constructor
    · rintro ⟨s, _, ⟨w, hw, hs⟩, ⟨ws, hws, hss⟩, rfl⟩
      exact ⟨w :: ws, ⟨w, ws, hw, hws, rfl⟩, .cons hs hss⟩
    · rintro ⟨_, ⟨w, ws, hw, hws, rfl⟩, hsteps⟩
      obtain ⟨s, ss', hs, hss, rfl⟩ := List.forall₂_cons_left_iff.mp hsteps
      exact ⟨s, ss', ⟨w, hw, hs⟩, ⟨ws, hws, hss⟩, rfl⟩

def isSelector (token : List Char) : Bool :=
  token.head? == some '/'

theorem exists_of_isSelector {token : List Char} (h : isSelector token = true) :
    ∃ cs, token = '/' :: cs := by
  cases token with
  | nil => cases h
  | cons c cs =>
    obtain rfl : c = '/' := by simpa [isSelector] using h
    exact ⟨cs, rfl⟩

theorem byte?_slash (cs : List Char) : byte? ('/' :: cs) = none := rfl

theorem strip_concat_slash (l : List Char) : ∃ l', rowBase?.strip (l ++ ['/']) = l' ++ ['/'] := by
  induction l using rowBase?.strip.induct with
  | case1 rest ih =>
    rw [List.cons_append, List.cons_append, rowBase?.strip]
    exact ih
  | case2 rest hne =>
    refine ⟨rest, ?_⟩
    rw [rowBase?.strip]
    intro rest' heq
    rcases rest with _ | ⟨c, _ | ⟨d, l⟩⟩
    · simp at heq
    · simp at heq
    · simp only [List.cons_append, List.cons.injEq] at heq
      obtain ⟨rfl, rfl, -⟩ := heq
      exact hne l rfl

theorem byte?_rowBase {cs start : List Char} (h : rowBase? ('/' :: cs) = some start) :
    byte? start = none := by
  rw [rowBase?] at h
  split at h
  · obtain ⟨l, hl⟩ := strip_concat_slash cs.reverse
    rw [List.reverse_cons, hl, List.reverse_concat] at h
    obtain rfl := Option.some.inj h
    exact byte?_slash l.reverse
  · cases h

theorem isSelector_of_selector? {key value : List Char} {s : Step}
    (h : selector? key value = some s) : s.isSelector = true := by
  unfold selector? at h
  split at h
  all_goals
    first
    | obtain ⟨_, -, rfl⟩ := Option.map_eq_some_iff.mp h
    | cases h
  all_goals rfl

theorem isSelector_of_step? {token : List Char} {s : Step} (h : step? token = some s) :
    isSelector token = s.isSelector := by
  unfold step? at h
  split at h
  · next selector =>
    split at h
    · exact (isSelector_of_selector? h).symm
    · cases h
  · next hslash =>
    obtain ⟨b, -, rfl⟩ := Option.map_eq_some_iff.mp h
    refine Bool.eq_false_iff.mpr fun hselector => ?_
    obtain ⟨cs, rfl⟩ := exists_of_isSelector hselector
    exact hslash cs rfl

theorem isSelector_hexByte (b : UInt8) : isSelector (Text.hexByte b).toList = false := by
  have hdigit : ∀ n < 16, Nat.digitChar n ≠ '/' := by decide
  have hb := b.toNat_lt
  have hne := hdigit (b.toNat / 16) (by omega)
  simp [isSelector, Text.hexByte, hne]

theorem Means.isSelector_eq {token : List Char} {s : Step} (h : Means token s) :
    isSelector token = s.isSelector := by
  obtain ⟨written, hwritten, hs⟩ := h
  rw [← isSelector_of_step? hs]
  cases hrow : rowBase? token with
  | none => rw [(writtenOut_of_none hrow).mp hwritten]
  | some start =>
    obtain ⟨b, i, hb, -, rfl⟩ := (writtenOut_of_some hrow).mp hwritten
    rw [isSelector_hexByte]
    refine Bool.eq_false_iff.mpr fun hselector => ?_
    obtain ⟨cs, rfl⟩ := exists_of_isSelector hselector
    rw [byte?_rowBase hrow] at hb
    cases hb

end Path

namespace Step

/-- Opcode bytes keep their order, and no two selectors are on one axis. So the order of branching
does not depend on the order of the selectors. -/
theorem Distinct.inOrder_eq {ss ss' : List Step} (h : Distinct ss)
    (hbytes : ss'.filter (!·.isSelector) = ss.filter (!·.isSelector))
    (hselectors : (ss'.filter isSelector).Perm (ss.filter isSelector)) :
    inOrder ss' = inOrder ss := by
  have haxis : ∀ a, ss'.filter (·.axis = a) = ss.filter (·.axis = a) := by
    intro a
    by_cases ha : a = .opcode
    · subst ha
      simpa [isSelector] using hbytes
    have hsub : ∀ l : List Step,
        (l.filter isSelector).filter (·.axis = a) = l.filter (·.axis = a) := by
      intro l
      rw [List.filter_filter]
      refine List.filter_congr fun s _ => ?_
      by_cases hs : s.axis = a
      · simp [isSelector, hs, ha]
      · simp [hs]
    have hperm := hselectors.filter (·.axis = a)
    rw [hsub, hsub] at hperm
    have hone : (ss.filter (·.axis = a)).Pairwise fun _ _ => False := by
      refine (h.filter _).imp_of_mem fun {x y} hx hy hxy => ha ?_
      have hx : x.axis = a := by simpa using (List.mem_filter.mp hx).2
      have hy : y.axis = a := by simpa using (List.mem_filter.mp hy).2
      exact hx ▸ hxy (hx.trans hy.symm)
    rcases hl : ss.filter (·.axis = a) with _ | ⟨x, _ | ⟨y, l⟩⟩
    · rw [hl] at hperm ⊢
      exact hperm.eq_nil
    · rw [hl] at hperm ⊢
      exact List.perm_singleton.mp hperm
    · rw [hl] at hone
      exact (List.rel_of_pairwise_cons hone List.mem_cons_self).elim
  simp only [inOrder, haxis]

end Step

theorem exists_merge {α β : Type} {r : α → β → Prop} {p : α → Bool} {q : β → Bool}
    (hpq : ∀ a b, r a b → p a = q b) {l : List α} {ys zs : List β}
    (hys : List.Forall₂ r (l.filter (!p ·)) ys) (hzs : List.Forall₂ r (l.filter p) zs) :
    ∃ bs, List.Forall₂ r l bs ∧ bs.filter (!q ·) = ys ∧ bs.filter q = zs := by
  induction l generalizing ys zs with
  | nil =>
    cases hys
    cases hzs
    exact ⟨[], .nil, rfl, rfl⟩
  | cons a l ih =>
    cases hp : p a with
    | true =>
      rw [List.filter_cons_of_pos hp, List.forall₂_cons_left_iff] at hzs
      rw [List.filter_cons_of_neg (by simp [hp])] at hys
      obtain ⟨b, zs', hab, hrest, rfl⟩ := hzs
      obtain ⟨bs, hbs, rfl, rfl⟩ := ih hys hrest
      have hq : q b = true := hpq a b hab ▸ hp
      exact ⟨b :: bs, .cons hab hbs, by simp [hq], by simp [hq]⟩
    | false =>
      rw [List.filter_cons_of_neg (by simp [hp])] at hzs
      rw [List.filter_cons_of_pos (by simp [hp]), List.forall₂_cons_left_iff] at hys
      obtain ⟨b, ys', hab, hrest, rfl⟩ := hys
      obtain ⟨bs, hbs, rfl, rfl⟩ := ih hrest hzs
      have hq : q b = false := hpq a b hab ▸ hp
      exact ⟨b :: bs, .cons hab hbs, by simp [hq], by simp [hq]⟩

namespace Path

/-- The tokens that are no selectors are the same in the same order, and the selectors are the same in
some order. -/
def Rearranges (tokens' tokens : List (List Char)) : Prop :=
  tokens'.filter (!isSelector ·) = tokens.filter (!isSelector ·) ∧
    (tokens'.filter isSelector).Perm (tokens.filter isSelector)

instance (tokens' tokens : List (List Char)) : Decidable (Rearranges tokens' tokens) :=
  inferInstanceAs (Decidable (_ ∧ _))

theorem Rearranges.exists_means {tokens tokens' : List (List Char)} (h : Rearranges tokens' tokens)
    {ss' : List Step} (hss' : List.Forall₂ Means tokens' ss') :
    ∃ ss, List.Forall₂ Means tokens ss ∧
      ss'.filter (!·.isSelector) = ss.filter (!·.isSelector) ∧
      (ss'.filter Step.isSelector).Perm (ss.filter Step.isSelector) := by
  obtain ⟨hbytes, hselectors⟩ := h
  have hys : List.Forall₂ Means (tokens.filter (!isSelector ·)) (ss'.filter (!·.isSelector)) := by
    rw [← hbytes]
    exact List.rel_filter (fun _ _ hm => by simp [hm.isSelector_eq]) hss'
  have hxs : List.Forall₂ Means (tokens'.filter isSelector) (ss'.filter Step.isSelector) :=
    List.rel_filter (fun _ _ hm => by simp [hm.isSelector_eq]) hss'
  obtain ⟨zs, hzs, hperm⟩ := List.perm_comp_forall₂ hselectors.symm hxs
  obtain ⟨ss, hss, hbytes, rfl⟩ := exists_merge (fun _ _ hm => hm.isSelector_eq) hys hzs
  exact ⟨ss, hss, hbytes.symm, hperm.symm⟩

end Path

namespace Addition

def words (a : Addition) : List (List Char) :=
  Text.words a.path.toList

theorem exists_definition_iff {a : Addition} {ss : List Step} :
    (∃ d ∈ a.definitions, d.steps = ss) ↔ List.Forall₂ Path.Means a.words ss := by
  have hread : ∀ written, (∃ text', Path.Reading.path text' written ∈ a.readings) ↔
      List.Forall₂ Path.WrittenOut a.words written := by
    intro written
    rw [readings, Path.mem_readings]
    simp [words]
  rw [Path.forall₂_means]
  constructor
  · rintro ⟨d, hd, rfl⟩
    obtain ⟨r, hr, hdef⟩ := List.mem_filterMap.mp hd
    cases r with
    | badRow text => cases hdef
    | path text written =>
      refine ⟨written, (hread written).mp ⟨text, hr⟩, ?_⟩
      cases hsteps : Path.steps written with
      | error token => simp [definition?, hsteps] at hdef
      | ok ss =>
        obtain rfl : ⟨ss, a.mnemonic, a.operands, a.flags⟩ = d := by
          simpa [definition?, hsteps] using hdef
        rfl
  · rintro ⟨written, hwritten, hsteps⟩
    obtain ⟨text, hr⟩ := (hread written).mpr hwritten
    refine ⟨⟨ss, a.mnemonic, a.operands, a.flags⟩, List.mem_filterMap.mpr ⟨_, hr, ?_⟩, rfl⟩
    simp [definition?, hsteps]

/-- No reading of the path selects twice on one axis. -/
def SelectsOnce (a : Addition) : Prop :=
  ∀ d ∈ a.definitions, Step.Distinct d.steps

/-- The path of an addition is stated again, whatever is to be added under it. Selectors may be in
another order if none of them selects on the axis of another. -/
def Restates (a' a : Addition) : Prop :=
  a'.words = a.words ∨ a.SelectsOnce ∧ Path.Rearranges a'.words a.words

/-- What a path that is stated again defines, has been defined in the same place. -/
theorem Restates.exists_definition {a a' : Addition} (h : a'.Restates a) {d' : Definition}
    (hd' : d' ∈ a'.definitions) :
    ∃ d ∈ a.definitions, Step.inOrder d'.steps = Step.inOrder d.steps := by
  have hmeans := exists_definition_iff.mp ⟨d', hd', rfl⟩
  obtain hwords | ⟨honce, hrearranges⟩ := h
  · rw [hwords] at hmeans
    obtain ⟨d, hd, hsteps⟩ := exists_definition_iff.mpr hmeans
    exact ⟨d, hd, by rw [hsteps]⟩
  · obtain ⟨ss, hss, hbytes, hselectors⟩ := hrearranges.exists_means hmeans
    obtain ⟨d, hd, rfl⟩ := exists_definition_iff.mpr hss
    exact ⟨d, hd, (honce d hd).inOrder_eq hbytes hselectors⟩

end Addition

theorem defined_append (as bs : List Addition) : defined (as ++ bs) = defined as ++ defined bs :=
  List.flatMap_append

theorem defined_singleton (a : Addition) : defined [a] = a.definitions :=
  List.flatMap_singleton _ a

theorem Table.closedTo_build {as : List Addition} {a a' : Addition} (ha : a ∈ as) (h : a'.Restates a)
    {d' : Definition} (hd' : d' ∈ a'.definitions) : (build as).1.ClosedTo d' := by
  obtain ⟨d, hd, hsteps⟩ := h.exists_definition hd'
  have hmem : d ∈ defined as := List.mem_flatMap.mpr ⟨a, ha, hd⟩
  rw [fst_build]
  exact (closedTo_ofDefinitions hmem).congr hsteps

theorem Table.entries_build_append (as bs : List Addition) :
    (build (as ++ bs)).1.entries =
      (build as).1.entries ++ ((defined bs).map Definition.entry).toArray := by
  rw [fst_build, fst_build, entries_ofDefinitions, entries_ofDefinitions, defined_append,
    List.map_append, List.append_toArray]

namespace Arena

/-- The first entry of a path wins. A path that was added at any time before may be added again, with
any entry and with its selectors in any order: the tree stays as it is, and so does every block of its
layout and every entry that a block leads to. -/
theorem restated_path_changes_nothing (as : List Addition) (a a' : Addition) (ha : a ∈ as)
    (h : a'.Restates a) :
    (Table.build (as ++ [a'])).1.root = (Table.build as).1.root ∧
      ∃ made made', build? as = some made ∧ build? (as ++ [a']) = some made' ∧
        made'.blocks = made.blocks ∧
        ∀ t i e, made.blocks.slot? t i = some (.leaf e) →
          ∃ entry, made.entries[e]? = some entry ∧ made'.entries[e]? = some entry := by
  have hclosed : ∀ d ∈ a'.definitions, (Table.build as).1.ClosedTo d :=
    fun d hd => Table.closedTo_build ha h hd
  have hdefined : defined (as ++ [a']) = defined as ++ a'.definitions := by
    rw [defined_append, defined_singleton]
  refine ⟨?_, ?_⟩
  · rw [Table.fst_build] at hclosed ⊢
    rw [Table.fst_build, hdefined, Table.ofDefinitions, List.foldl_append]
    exact Table.root_foldl_of_closed hclosed
  · obtain ⟨made, hmade, hrep⟩ := build?_represents as
    obtain ⟨made', hmade', hrep'⟩ := build?_represents (as ++ [a'])
    obtain ⟨again, hagain, hblocks⟩ := hrep.insert_all_of_closed hclosed
    obtain rfl : again = made' := by
      rw [build?, hdefined, List.foldlM_append] at hmade'
      rw [build?] at hmade
      rw [hmade, Option.bind_eq_bind, Option.bind_some, hagain] at hmade'
      exact Option.some.inj hmade'
    refine ⟨made, again, hmade, hmade', hblocks, ?_⟩
    intro t i e hleaf
    have he := hrep.isTree.leaf_lt t i e hleaf
    refine ⟨made.entries[e], Array.getElem?_eq_getElem he, ?_⟩
    rw [hrep'.entries, Table.entries_build_append, ← hrep.entries, Array.getElem?_append_left he,
      Array.getElem?_eq_getElem he]

/-- A path whose place has been split up on three axes since it was added, a row, and a path that
cannot be read. -/
def restatableAdditions : List Addition :=
  [⟨"0f c7 /reg=6 /mod=mem", .VMPTRLD, [], 0⟩, ⟨"50+r", .PUSH, [], 0⟩, ⟨"0f /x=1", .NOP, [], 0⟩,
    ⟨"0f c7 /sse=66 /reg=6 /mod=mem", .VMCLEAR, [], 0⟩,
    ⟨"0f c7 /reg=6 /mod=mem /m=64 /vendor=amd", .NOP, [], 0⟩]

theorem restated_path_changes_nothing_vmx :
    Addition.Restates ⟨"0f /mod=mem c7 /reg=6", .NOP, [], 0⟩
        ⟨"0f c7 /reg=6 /mod=mem", .VMPTRLD, [], 0⟩ ∧
      (Table.build (restatableAdditions ++ [⟨"0f /mod=mem c7 /reg=6", .NOP, [], 0⟩])).1.root =
        (Table.build restatableAdditions).1.root ∧
      (Table.build (restatableAdditions ++ [⟨" 50+r", .POP, [], 0⟩])).1.root =
        (Table.build restatableAdditions).1.root ∧
      (Table.build (restatableAdditions ++ [⟨"/x=1 0f", .POP, [], 0⟩])).1.root =
        (Table.build restatableAdditions).1.root := by
  have hselectors : Addition.Restates ⟨"0f /mod=mem c7 /reg=6", .NOP, [], 0⟩
      ⟨"0f c7 /reg=6 /mod=mem", .VMPTRLD, [], 0⟩ :=
    Or.inr ⟨by unfold Addition.SelectsOnce; decide +kernel, by decide +kernel⟩
  have hrow : Addition.Restates ⟨" 50+r", .POP, [], 0⟩ ⟨"50+r", .PUSH, [], 0⟩ :=
    Or.inl (by decide +kernel)
  have hunread : Addition.Restates ⟨"/x=1 0f", .POP, [], 0⟩ ⟨"0f /x=1", .NOP, [], 0⟩ :=
    Or.inr ⟨by unfold Addition.SelectsOnce; decide +kernel, by decide +kernel⟩
  refine ⟨hselectors, ?_, ?_, ?_⟩
  · exact (restated_path_changes_nothing restatableAdditions _ _ (.head _) hselectors).1
  · exact (restated_path_changes_nothing restatableAdditions _ _ (.tail _ (.head _)) hrow).1
  · exact (restated_path_changes_nothing restatableAdditions _ _ (.tail _ (.tail _ (.head _)))
      hunread).1

end Arena

end Lookup
end X86
