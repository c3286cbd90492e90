import X86.Proofs.MemoryPlacement
import X86.Proofs.Wording

/-!
What Intel syntax tells of the size of memory. Two instructions with the same text have the same
mnemonic and operands that are written alike. A size keyword is in both texts or in neither; without
one the size goes with the register beside the memory, except where a segment register is stored.
-/

namespace X86

def Instruction.storesSegment (i : Instruction) : Bool :=
  (i.operands.get 0).isMemory && (i.operands.get 1).register?.any Register.isSegment

namespace Text
namespace Intel

def marks : List Char :=
  [' ', '[', ']', ':', '+', '-', '*']

def keywordSizes : List Nat :=
  [8, 16, 32, 64, 80, 128]

theorem spells_keyword (i : Instruction) (size : Nat) : Spells [' '] (chars (keyword i size)) := by
  have hfar : Spells [' '] (chars (if i.isFar then [.text "far", .space] else [])) := by
    exact spells_ite (spells_of_all (by decide)) spells_nil
  unfold keyword
  rw [chars_append, spells_append]
  refine ⟨hfar, ?_⟩
  split
  all_goals exact spells_of_all (by decide)

theorem keyword_ne_nil {size : Nat} (h : size ∈ keywordSizes) (i : Instruction) :
    chars (keyword i size) ≠ [] := by
  have hall : ∀ far : Bool, ∀ size ∈ keywordSizes, chars (keyword { isFar := far } size) ≠ [] := by
    decide
  exact hall i.isFar size h

theorem keyword_inj {size size' : Nat} (hsize : size ∈ keywordSizes) (hsize' : size' ∈ keywordSizes)
    {i i' : Instruction} (h : chars (keyword i size) = chars (keyword i' size')) : size = size' := by
  have hall : ∀ far far' : Bool, ∀ size ∈ keywordSizes, ∀ size' ∈ keywordSizes,
      chars (keyword { isFar := far } size) = chars (keyword { isFar := far' } size') →
        size = size' := by
    decide
  exact hall i.isFar i'.isFar size hsize size' hsize' h

theorem spells_memory (i : Instruction) (m : MemoryOperand) :
    Spells marks (chars (memory {} i m)) := by
  have hmark {c : Char} (h : c ∈ marks) : Spells marks [c] := spells_mark h
  have hsegment : Spells marks (chars (segmentPieces i)) := by
    unfold segmentPieces
    cases i.prefixes.segment with
    | none => exact spells_nil
    | some g =>
      rw [chars_cons, spells_append]
      exact ⟨(Register.segment g).isPlain_name.spells, hmark (by decide)⟩
  have hbase : Spells marks (chars (basePieces m)) := by
    unfold basePieces
    cases m.base with
    | none => exact spells_nil
    | some r => exact spells_register r
  have hindex : Spells marks (chars (indexPieces m)) := by
    unfold indexPieces
    cases m.index with
    | none => exact spells_nil
    | some r =>
      rw [chars_append, chars_append, spells_append, spells_append]
      refine ⟨⟨spells_ite (hmark (by decide)) spells_nil, spells_register r⟩, ?_⟩
      refine spells_ite ?_ spells_nil
      rw [chars_cons, chars_cons, spells_append, spells_append]
      exact ⟨hmark (by decide), (isPlain_toString m.scale).spells, spells_nil⟩
  have hdisplacement : Spells marks (chars (displacementPieces {} m true)) :=
    spells_displacement m true (by decide) fun _ => by decide
  rw [memory]
  simp only [chars_append, spells_append]
  exact ⟨⟨⟨⟨⟨hmark (by decide), hsegment⟩, hbase⟩, hindex⟩, hdisplacement⟩, hmark (by decide)⟩

theorem spells_operand (i : Instruction) (sized : Bool) (op : Operand) :
    Spells marks (chars (operand {} i sized op)) := by
  have hkeyword (size : Nat) : Spells marks (chars (if sized then keyword i size else [])) := by
    refine spells_ite ?_ spells_nil
    intro c hc
    refine (spells_keyword i size c hc).imp_right fun hblank => ?_
    rw [List.mem_singleton.mp hblank]
    decide
  cases op with
  | absent => exact spells_nil
  | register r => exact spells_register r
  | memory m =>
    rw [operand, chars_append, spells_append]
    exact ⟨hkeyword m.size, spells_memory i m⟩
  | immediate imm =>
    rw [operand, chars_cons, spells_append]
    exact ⟨(isPlain_hex _).spells, spells_nil⟩
  | constant n =>
    rw [operand, chars_append, spells_append, chars_cons, spells_append]
    exact ⟨hkeyword 8, (isPlain_toString n).spells, spells_nil⟩
  | relative r => exact spells_target r.target
  | far p =>
    have hword : Spells marks (if p.size = 16 then "word" else "dword").toList := by
      split
      all_goals exact spells_of_all (by decide)
    simp only [operand, chars_cons, chars_nil, spells_append]
    exact ⟨hword, spells_mark (by decide), (isPlain_hex _).spells, spells_mark (by decide),
      (isPlain_hex _).spells, spells_nil⟩

def operandTexts (i : Instruction) : List (List Char) :=
  i.activeOperands.zipIdx.map fun x => chars (operand {} i (needsKeyword i x.2) x.1)

theorem chars_operands (i : Instruction) :
    chars (operands {} i) = [',', ' '].intercalate (operandTexts i) := by
  rw [operands, chars_commaSeparated, List.map_map]
  rfl

theorem getElem?_operandTexts (i : Instruction) (k : Nat) : (operandTexts i)[k]? =
    i.activeOperands[k]?.map fun op => chars (operand {} i (needsKeyword i k) op) := by
  simp [operandTexts, Function.comp_def]

theorem notMem_operandTexts (i : Instruction) : ∀ cs ∈ operandTexts i, ',' ∉ cs := by
  intro cs hcs
  obtain ⟨x, -, rfl⟩ := List.mem_map.mp hcs
  exact (spells_operand i _ x.1).notMem (by decide) (by decide)

theorem chars_mnemonic (i : Instruction) : chars (mnemonic {} i) = i.mnemonic.lowerName := by
  simp [mnemonic, Piece.mnemonic, Piece.toText, Options.mnemonicCase, Mnemonic.lowerName]

section Reading

variable {i i' : Instruction} {m m' : MemoryOperand}

theorem translate_inj (herror : i.error = none) (herror' : i'.error = none)
    (hmnemonic : i.mnemonic ≠ .INVALID) (hmnemonic' : i'.mnemonic ≠ .INVALID)
    (hcount : i.operandCount ≠ 0) (hcount' : i'.operandCount ≠ 0)
    (h : Translator.translate ⟨.intel, {}⟩ i = Translator.translate ⟨.intel, {}⟩ i') :
    i.mnemonic = i'.mnemonic ∧ operandTexts i = operandTexts i' := by
  have hchars := congrArg String.toList h
  rw [toList_translate .intel herror hmnemonic hcount,
    toList_translate .intel herror' hmnemonic' hcount'] at hchars
  change chars (prefixWords i) ++ (chars (mnemonic {} i) ++ ' ' :: chars (operands {} i)) =
    chars (prefixWords i') ++ (chars (mnemonic {} i') ++ ' ' :: chars (operands {} i')) at hchars
  rw [chars_mnemonic, chars_mnemonic] at hchars
  obtain ⟨hname, hoperands⟩ := leading_inj (arePrefixes_prefixWords i) (arePrefixes_prefixWords i')
    i.mnemonic.lowerName_notMem i'.mnemonic.lowerName_notMem
    (i.mnemonic.isPlain_lowerName.notMem (by decide))
    (i'.mnemonic.isPlain_lowerName.notMem (by decide)) hchars
  have hne {i : Instruction} (hcount : i.operandCount ≠ 0) : operandTexts i ≠ [] := by
    intro hnil
    have hlength := congrArg List.length hnil
    rw [operandTexts, List.length_map, List.length_zipIdx] at hlength
    exact hcount hlength
  rw [chars_operands, chars_operands] at hoperands
  exact ⟨Mnemonic.lowerName_injective hmnemonic hmnemonic' hname,
    intercalate_inj (u := []) (v := [' ']) List.not_mem_nil (notMem_operandTexts i)
      (notMem_operandTexts i') (hne hcount) (hne hcount') hoperands⟩

theorem chars_operand_memory (i : Instruction) (sized : Bool) (m : MemoryOperand) :
    ∃ rest, chars (operand {} i sized (.memory m)) =
      chars (if sized then keyword i m.size else []) ++ '[' :: rest := by
  refine ⟨chars (segmentPieces i ++ basePieces m ++ indexPieces m ++ displacementPieces {} m true
    ++ [.separator "]"]), ?_⟩
  rw [operand, chars_append]
  simp [memory, Piece.toText]

/-- Memory that is written alike has a keyword both times or not at all, and with one it has the same
size. -/
theorem keyword_of_text (hsize : m.size ∈ keywordSizes) (hsize' : m'.size ∈ keywordSizes)
    {sized sized' : Bool} (h : chars (operand {} i sized (.memory m)) =
      chars (operand {} i' sized' (.memory m'))) :
    sized = sized' ∧ (sized = true → m.size = m'.size) := by
  have hbracket (i : Instruction) (sized : Bool) (m : MemoryOperand) :
      '[' ∉ chars (if sized then keyword i m.size else []) := by
    cases sized with
    | false => exact List.not_mem_nil
    | true => exact (spells_keyword i m.size).notMem (by decide) (by decide)
  obtain ⟨rest, hrest⟩ := chars_operand_memory i sized m
  obtain ⟨rest', hrest'⟩ := chars_operand_memory i' sized' m'
  rw [hrest, hrest'] at h
  obtain ⟨hkeyword, -⟩ := append_cons_inj (hbracket i sized m) (hbracket i' sized' m') h
  cases sized with
  | false =>
    cases sized' with
    | false => exact ⟨rfl, fun hsized => absurd hsized Bool.false_ne_true⟩
    | true => exact absurd hkeyword.symm (keyword_ne_nil hsize' i')
  | true =>
    cases sized' with
    | false => exact absurd hkeyword (keyword_ne_nil hsize i)
    | true => exact ⟨rfl, fun _ => keyword_inj hsize hsize' hkeyword⟩

theorem register_ne_memory {r : Register} {sized sized' : Bool} :
    chars (operand {} i sized (.register r)) ≠ chars (operand {} i' sized' (.memory m)) := by
  intro h
  obtain ⟨rest, hrest⟩ := chars_operand_memory i' sized' m
  have hbracket : '[' ∈ chars (operand {} i sized (.register r)) := by
    rw [h, hrest]
    simp
  have hregister : Spells [] (chars (operand {} i sized (.register r))) := spells_register r
  exact hregister.notMem (by decide) List.not_mem_nil hbracket

theorem register_inj {r r' : Register} {sized sized' : Bool}
    (h : chars (operand {} i sized (.register r)) = chars (operand {} i' sized' (.register r'))) :
    r = r' := by
  have hname : r.name.toList = r'.name.toList := by
    simpa [operand, Piece.register, Piece.toText] using h
  exact Register.name_injective (String.toList_inj.mp hname)

variable {d d' : Lookup.Definition}

theorem exists_before (h : i.Places d m) (hfirst : i.operands.get 0 = .memory m)
    (hnone : needsKeyword i 0 = false) :
    ∃ r, i.operands.get 1 = .register r ∧ i.mnemonic = d.mnemonic ∧
      ⟨false, r.isSegment, r.size, m.size, i.mode.is64⟩ ∈ d.placements := by
  simp only [needsKeyword, hfirst, Operand.isMemory, Bool.true_and, Bool.or_eq_false_iff] at hnone
  cases h with
  | alone _ second =>
    obtain habsent | himmediate := second
    · rw [hnone.1.1.1] at habsent
      cases habsent
    · rw [hnone.1.1.2] at himmediate
      cases himmediate
  | shifted _ second shift => simp [second, shift] at hnone
  | before r _ second hmnemonic placement => exact ⟨r, second, hmnemonic, placement⟩
  | behind r first => cases hfirst.symm.trans first

theorem operandTexts_eq (hi : i.Places d m) (hi' : i'.Places d' m')
    (h : operandTexts i = operandTexts i') :
    chars (operand {} i (needsKeyword i 0) (i.operands.get 0)) =
      chars (operand {} i' (needsKeyword i' 0) (i'.operands.get 0)) ∧
    ((i.operands.get 1).isAbsent = false → (i'.operands.get 1).isAbsent = false →
      chars (operand {} i (needsKeyword i 1) (i.operands.get 1)) =
        chars (operand {} i' (needsKeyword i' 1) (i'.operands.get 1))) := by
  constructor
  · have hzero := congrArg (·[0]?) h
    simp only [getElem?_operandTexts, Instruction.activeOperands_zero hi.present,
      Instruction.activeOperands_zero hi'.present, Option.map_some] at hzero
    exact Option.some.inj hzero
  · intro hsecond hsecond'
    have hone := congrArg (·[1]?) h
    simp only [getElem?_operandTexts, Instruction.activeOperands_one hi.present,
      Instruction.activeOperands_one hi'.present, hsecond, hsecond', Bool.false_eq_true, if_false,
      Option.map_some] at hone
    exact Option.some.inj hone

/-- Memory that comes first both times: without a keyword, a register follows it. -/
theorem size_eq_of_first (hd : d ∈ definitions) (hd' : d' ∈ definitions)
    (hplaces : i.Places d m) (hplaces' : i'.Places d' m') (hsize : m.size ∈ keywordSizes)
    (hsize' : m'.size ∈ keywordSizes) (hfirst : i.operands.get 0 = .memory m)
    (hfirst' : i'.operands.get 0 = .memory m') (hmnemonic : i.mnemonic = i'.mnemonic)
    (htexts : operandTexts i = operandTexts i') (hstore : i.storesSegment = false) :
    m.size = m'.size := by
  obtain ⟨hzero, hone⟩ := operandTexts_eq hplaces hplaces' htexts
  rw [hfirst, hfirst'] at hzero
  obtain ⟨hsame, hkeyword⟩ := keyword_of_text hsize hsize' hzero
  cases hneeds : needsKeyword i 0 with
  | true => exact hkeyword hneeds
  | false =>
    obtain ⟨r, hr, hname, hplace⟩ := exists_before hplaces hfirst hneeds
    obtain ⟨r', hr', hname', hplace'⟩ := exists_before hplaces' hfirst' (hsame.symm.trans hneeds)
    rw [hr, hr'] at hone
    obtain rfl := register_inj (hone rfl rfl)
    have hsegment : r.isSegment = false := by
      simpa [Instruction.storesSegment, hfirst, hr, Operand.isMemory, Operand.register?] using hstore
    have hsame : d.mnemonic = d'.mnemonic := hname.symm.trans (hmnemonic.trans hname')
    exact size_eq_of_before hd hd' hsame hsegment hplace hplace'

/-- Memory that comes behind a register both times: without a keyword, it has the size of the
register, unless that is a segment register. -/
theorem size_eq_of_second (hd : d ∈ definitions) (hd' : d' ∈ definitions)
    (hplaces : i.Places d m) (hplaces' : i'.Places d' m') (hsize : m.size ∈ keywordSizes)
    (hsize' : m'.size ∈ keywordSizes) {r r' : Register} (hfirst : i.operands.get 0 = .register r)
    (hfirst' : i'.operands.get 0 = .register r') (hmnemonic : i.mnemonic = i'.mnemonic)
    (htexts : operandTexts i = operandTexts i') : m.size = m'.size := by
  obtain ⟨hzero, hone⟩ := operandTexts_eq hplaces hplaces' htexts
  rw [hfirst, hfirst'] at hzero
  obtain rfl := register_inj hzero
  obtain ⟨hsecond, hname, hplace⟩ := hplaces.behind_of_register hfirst
  obtain ⟨hsecond', hname', hplace'⟩ := hplaces'.behind_of_register hfirst'
  rw [hsecond, hsecond'] at hone
  obtain ⟨hsame, hkeyword⟩ := keyword_of_text hsize hsize' (hone rfl rfl)
  have hneeds : needsKeyword i 1 = (r.size != m.size && !r.isSegment) := by
    simp [needsKeyword, hfirst, hsecond, Operand.isMemory, Operand.size, Operand.register?]
  have hneeds' : needsKeyword i' 1 = (r.size != m'.size && !r.isSegment) := by
    simp [needsKeyword, hfirst', hsecond', Operand.isMemory, Operand.size, Operand.register?]
  cases hsegment : r.isSegment with
  | true =>
    exact size_eq_of_behind hd hd' (hname.symm.trans (hmnemonic.trans hname')) (Or.inl hsegment)
      hplace hplace'
  | false =>
    rw [hsegment, Bool.not_false, Bool.and_true] at hneeds hneeds'
    cases hsized : needsKeyword i 1 with
    | true => exact hkeyword hsized
    | false =>
      have hr : r.size = m.size := by simpa [hsized] using hneeds
      have hr' : r.size = m'.size := by simpa [← hsame, hsized] using hneeds'
      exact hr.symm.trans hr'

end Reading

end Intel
end Text

open Text

/-- Instructions with the same Intel text have memory of the same size, as far as the sizes have a
keyword, unless they store a segment register. -/
theorem intel_text_memory_size (t t' : Target) (b b' : Array UInt8) (pc pc' : UInt64)
    (m m' : MemoryOperand) (h : (decode t b pc).error = none) (h' : (decode t' b' pc').error = none)
    (hm : .memory m ∈ (decode t b pc).operands.toList)
    (hm' : .memory m' ∈ (decode t' b' pc').operands.toList)
    (hsize : m.size ∈ [8, 16, 32, 64, 80, 128]) (hsize' : m'.size ∈ [8, 16, 32, 64, 80, 128])
    (htext : Translator.translate ⟨.intel, {}⟩ (decode t b pc) =
      Translator.translate ⟨.intel, {}⟩ (decode t' b' pc'))
    (hstore : (decode t b pc).storesSegment = false) : m.size = m'.size := by
  obtain ⟨d, hi⟩ := exists_accesses h hm
  obtain ⟨d', hi'⟩ := exists_accesses h' hm'
  obtain ⟨hmnemonic, htexts⟩ := Intel.translate_inj h h' hi.wellFormed.mnemonic
    hi'.wellFormed.mnemonic (Instruction.operandCount_ne_zero hi.places.present)
    (Instruction.operandCount_ne_zero hi'.places.present) htext
  obtain ⟨hzero, -⟩ := Intel.operandTexts_eq hi.places hi'.places htexts
  -- Memory is told from a register by its bracket, so it comes first or second both times.
  obtain hfirst | ⟨r, hfirst⟩ := hi.places.first
  · obtain hfirst' | ⟨r', hfirst'⟩ := hi'.places.first
    · exact Intel.size_eq_of_first hi.definition hi'.definition hi.places hi'.places hsize hsize'
        hfirst hfirst' hmnemonic htexts hstore
    · rw [hfirst, hfirst'] at hzero
      exact absurd hzero.symm Intel.register_ne_memory
  · obtain hfirst' | ⟨r', hfirst'⟩ := hi'.places.first
    · rw [hfirst, hfirst'] at hzero
      exact absurd hzero Intel.register_ne_memory
    · exact Intel.size_eq_of_second hi.definition hi'.definition hi.places hi'.places hsize hsize'
        hfirst hfirst' hmnemonic htexts

section Encodings

open Decode

def plainLoad : Array UInt8 :=
  #[0x8B, 0x00]

def displacedLoad : Array UInt8 :=
  #[0x8B, 0x40, 0x00]

theorem decode_loads :
    ((decode ⟨.bits32, .any⟩ plainLoad 0).error = none ∧
      (decode ⟨.bits32, .any⟩ plainLoad 0).isFar = false ∧
      (decode ⟨.bits32, .any⟩ plainLoad 0).mnemonic = .MOV ∧
      (decode ⟨.bits32, .any⟩ plainLoad 0).operands =
        #v[.register .eax, .memory { base := some .eax, size := 32 }, .absent, .absent] ∧
      Translator.translate ⟨.intel, {}⟩ (decode ⟨.bits32, .any⟩ plainLoad 0) = "mov eax, [eax]") ∧
    (decode ⟨.bits32, .any⟩ displacedLoad 0).error = none ∧
      (decode ⟨.bits32, .any⟩ displacedLoad 0).isFar = false ∧
      (decode ⟨.bits32, .any⟩ displacedLoad 0).mnemonic = .MOV ∧
      (decode ⟨.bits32, .any⟩ displacedLoad 0).operands =
        #v[.register .eax, .memory { base := some .eax, displacementSize := 8, size := 32 },
          .absent, .absent] ∧
      Translator.translate ⟨.intel, {}⟩ (decode ⟨.bits32, .any⟩ displacedLoad 0) =
        "mov eax, [eax]" :=
  ⟨decode_writes (by decide +kernel), decode_writes (by decide +kernel)⟩

theorem intel_text_memory_size_load :
    (decode ⟨.bits32, .any⟩ plainLoad 0).error = none ∧
    (decode ⟨.bits32, .any⟩ displacedLoad 0).error = none ∧
    .memory { base := some .eax, size := 32 } ∈ (decode ⟨.bits32, .any⟩ plainLoad 0).operands.toList ∧
    .memory { base := some .eax, displacementSize := 8, size := 32 } ∈
      (decode ⟨.bits32, .any⟩ displacedLoad 0).operands.toList ∧
    Translator.translate ⟨.intel, {}⟩ (decode ⟨.bits32, .any⟩ plainLoad 0) =
      Translator.translate ⟨.intel, {}⟩ (decode ⟨.bits32, .any⟩ displacedLoad 0) ∧
    (decode ⟨.bits32, .any⟩ plainLoad 0).storesSegment = false ∧
    ({ base := some .eax, size := 32 } : MemoryOperand).size =
      ({ base := some .eax, displacementSize := 8, size := 32 } : MemoryOperand).size := by
  obtain ⟨⟨herror, -, -, hoperands, htext⟩, herror', -, -, hoperands', htext'⟩ := decode_loads
  have hm : .memory { base := some .eax, size := 32 } ∈
      (decode ⟨.bits32, .any⟩ plainLoad 0).operands.toList := by
    rw [hoperands]
    simp
  have hm' : .memory { base := some .eax, displacementSize := 8, size := 32 } ∈
      (decode ⟨.bits32, .any⟩ displacedLoad 0).operands.toList := by
    rw [hoperands']
    simp
  have hstore : (decode ⟨.bits32, .any⟩ plainLoad 0).storesSegment = false := by
    rw [Instruction.storesSegment, hoperands]
    rfl
  exact ⟨herror, herror', hm, hm', htext.trans htext'.symm, hstore,
    intel_text_memory_size ⟨.bits32, .any⟩ ⟨.bits32, .any⟩ plainLoad displacedLoad 0 0 _ _ herror
      herror' hm hm' (by decide) (by decide) (htext.trans htext'.symm) hstore⟩

def segmentStore : Array UInt8 :=
  #[0x8C, 0x00]

def sizedSegmentStore : Array UInt8 :=
  #[0x66, 0x8C, 0x00]

theorem decode_segmentStores :
    ((decode ⟨.bits32, .any⟩ segmentStore 0).error = none ∧
      (decode ⟨.bits32, .any⟩ segmentStore 0).isFar = false ∧
      (decode ⟨.bits32, .any⟩ segmentStore 0).mnemonic = .MOV ∧
      (decode ⟨.bits32, .any⟩ segmentStore 0).operands =
        #v[.memory { base := some .eax, size := 32 }, .register (.segment .es), .absent, .absent] ∧
      Translator.translate ⟨.intel, {}⟩ (decode ⟨.bits32, .any⟩ segmentStore 0) = "mov [eax], es") ∧
    (decode ⟨.bits32, .any⟩ sizedSegmentStore 0).error = none ∧
      (decode ⟨.bits32, .any⟩ sizedSegmentStore 0).isFar = false ∧
      (decode ⟨.bits32, .any⟩ sizedSegmentStore 0).mnemonic = .MOV ∧
      (decode ⟨.bits32, .any⟩ sizedSegmentStore 0).operands =
        #v[.memory { base := some .eax, size := 16 }, .register (.segment .es), .absent, .absent] ∧
      Translator.translate ⟨.intel, {}⟩ (decode ⟨.bits32, .any⟩ sizedSegmentStore 0) =
        "mov [eax], es" :=
  ⟨decode_writes (by decide +kernel), decode_writes (by decide +kernel)⟩

/-- Stores of a segment register with one text and memory of two sizes. -/
theorem intel_text_segmentStore :
    ∃ m m' : MemoryOperand, m.size = 32 ∧ m'.size = 16 ∧
      (decode ⟨.bits32, .any⟩ segmentStore 0).error = none ∧
      (decode ⟨.bits32, .any⟩ sizedSegmentStore 0).error = none ∧
      .memory m ∈ (decode ⟨.bits32, .any⟩ segmentStore 0).operands.toList ∧
      .memory m' ∈ (decode ⟨.bits32, .any⟩ sizedSegmentStore 0).operands.toList ∧
      Translator.translate ⟨.intel, {}⟩ (decode ⟨.bits32, .any⟩ segmentStore 0) =
        Translator.translate ⟨.intel, {}⟩ (decode ⟨.bits32, .any⟩ sizedSegmentStore 0) := by
  obtain ⟨⟨herror, -, -, hoperands, htext⟩, herror', -, -, hoperands', htext'⟩ := decode_segmentStores
  refine ⟨{ base := some .eax, size := 32 }, { base := some .eax, size := 16 }, rfl, rfl, herror,
    herror', ?_, ?_, htext.trans htext'.symm⟩
  · rw [hoperands]
    simp
  · rw [hoperands']
    simp

end Encodings

end X86
