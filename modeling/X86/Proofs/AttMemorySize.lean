import X86.Proofs.MemoryPlacement
import X86.Proofs.Wording

/-!
What AT&T syntax tells of the size of memory. The suffix of a mnemonic is the size of the first
operand. Two near instructions with the same text have the same first operand, as far as it is
written, and the same suffix; if the memory comes second its size goes with the register before it,
except under the few mnemonics that load more than one size into a register.
-/

namespace X86
namespace Text

theorem spells_intercalate {marks sep : List Char} {css : List (List Char)} (hsep : Spells marks sep)
    (h : ∀ cs ∈ css, Spells marks cs) : Spells marks (sep.intercalate css) := by
  induction css with
  | nil => exact spells_nil
  | cons cs css ih =>
    rw [List.forall_mem_cons] at h
    cases css with
    | nil =>
      rw [List.intercalate_singleton]
      exact h.1
    | cons cs' css =>
      rw [List.intercalate_cons_cons, spells_append, spells_append]
      exact ⟨⟨h.1, hsep⟩, ih h.2⟩

namespace Att

def marks : List Char :=
  ['%', '$', '(', ')', ',', ':', '-']

/-- The sizes that have a suffix and that a general register can have. -/
def suffixSizes : List Nat :=
  [8, 16, 32, 64]

theorem chars_register (name : String) : chars (register name) = '%' :: name.toList := by
  simp [register, Piece.register, Piece.toText]

theorem spells_register {cs : List Char} (h : '%' ∈ cs) (r : Register) :
    Spells cs (chars (register r.name)) := by
  rw [chars_register]
  exact spells_append.mpr ⟨spells_mark h, r.isPlain_name.spells⟩

theorem spells_immediate (n : Nat) : Spells marks (chars (immediate (hex n))) := by
  rw [immediate, chars_cons, chars_cons, spells_append, spells_append]
  exact ⟨spells_mark (by decide), (isPlain_hex n).spells, spells_nil⟩

theorem spells_memory (i : Instruction) (m : MemoryOperand) :
    Spells marks (chars (memory {} i m)) := by
  have hmark {c : Char} (h : c ∈ marks) : Spells marks [c] := spells_mark h
  have hregister (r : Register) : Spells marks (chars (register r.name)) :=
    spells_register (by decide) r
  have hsegment : Spells marks (chars (segmentPieces i)) := by
    unfold segmentPieces
    cases i.prefixes.segment with
    | none => exact spells_nil
    | some g =>
      rw [chars_append, spells_append]
      exact ⟨hregister (.segment g), hmark (by decide)⟩
  have hbase : Spells marks (chars (basePieces m)) := by
    unfold basePieces
    cases m.base with
    | none => exact spells_nil
    | some r => exact hregister r
  have hindex : Spells marks (chars (indexPieces m)) := by
    unfold indexPieces
    cases m.index with
    | none => exact spells_nil
    | some r =>
      rw [chars_append, chars_append, spells_append, spells_append]
      refine ⟨⟨hmark (by decide), hregister r⟩, spells_ite ?_ spells_nil⟩
      rw [chars_cons, chars_cons, spells_append, spells_append]
      exact ⟨hmark (by decide), (isPlain_toString m.scale).spells, spells_nil⟩
  have hdisplacement : Spells marks (chars (displacementPieces {} m false)) :=
    spells_displacement m false (by decide) (by simp)
  rw [memory, chars_append, chars_append, spells_append, spells_append]
  refine ⟨⟨hsegment, hdisplacement⟩, spells_ite spells_nil ?_⟩
  simp only [chars_append, spells_append]
  exact ⟨⟨⟨hmark (by decide), hbase⟩, hindex⟩, hmark (by decide)⟩

/-- Only a far pointer is written with a blank. -/
theorem spells_operand (i : Instruction) {op : Operand} (h : ∀ p, op ≠ .far p) :
    Spells marks (chars (operand {} i op)) := by
  cases op with
  | absent => exact spells_nil
  | register r => exact spells_register (by decide) r
  | memory m => exact spells_memory i m
  | immediate imm => exact spells_immediate _
  | constant n => exact spells_immediate n
  | relative r => exact spells_target r.target
  | far p => exact absurd rfl (h p)

/-- The operands as they are written, one by one, in the order of their slots. -/
def operandTexts (i : Instruction) : List (List Char) :=
  i.activeOperands.map fun op => chars (operand {} i op)

variable {i i' : Instruction} {m m' : MemoryOperand}

theorem spells_operandTexts (h : ∀ p, .far p ∉ i.operands.toList) :
    ∀ cs ∈ operandTexts i, Spells marks cs := by
  intro cs hcs
  obtain ⟨op, hop, rfl⟩ := List.mem_map.mp hcs
  refine spells_operand i ?_
  rintro p rfl
  exact h p ((List.takeWhile_sublist _).mem hop)

theorem chars_operands (h : i.mnemonic.keepsOperandOrder = false) :
    chars (operands {} i) = chars (if isIndirectBranch i then [.symbol "*"] else []) ++
      [',', ' '].intercalate (operandTexts i).reverse := by
  rw [operands, h, chars_append, chars_commaSeparated, operandTexts, ← List.map_reverse, List.map_map]
  rfl

theorem operandTexts_inj (hkeeps : i.mnemonic.keepsOperandOrder = false)
    (hkeeps' : i'.mnemonic.keepsOperandOrder = false) (hfar : ∀ p, .far p ∉ i.operands.toList)
    (hfar' : ∀ p, .far p ∉ i'.operands.toList) (hcount : i.operandCount ≠ 0)
    (hcount' : i'.operandCount ≠ 0) (h : chars (operands {} i) = chars (operands {} i')) :
    operandTexts i = operandTexts i' := by
  have hreverse {i : Instruction} (hfar : ∀ p, .far p ∉ i.operands.toList) :
      ∀ cs ∈ (operandTexts i).reverse, Spells marks cs := by
    intro cs hcs
    exact spells_operandTexts hfar cs (List.mem_reverse.mp hcs)
  have hblank {i : Instruction} (hfar : ∀ p, .far p ∉ i.operands.toList) :
      ∀ cs ∈ (operandTexts i).reverse, ' ' ∉ cs := by
    intro cs hcs
    exact (hreverse hfar cs hcs).notMem (by decide) (by decide)
  have hunmarked {i : Instruction} (hkeeps : i.mnemonic.keepsOperandOrder = false)
      (hfar : ∀ p, .far p ∉ i.operands.toList) : (chars (operands {} i)).filter (· != '*') =
        [',', ' '].intercalate (operandTexts i).reverse := by
    have hspells : Spells (' ' :: marks) ([',', ' '].intercalate (operandTexts i).reverse) := by
      refine spells_intercalate (spells_of_all (by decide)) fun cs hcs => ?_
      intro c hc
      exact (hreverse hfar cs hcs c hc).imp_right (List.mem_cons_of_mem ' ')
    have hkept : ([',', ' '].intercalate (operandTexts i).reverse).filter (· != '*') =
        [',', ' '].intercalate (operandTexts i).reverse := by
      rw [List.filter_eq_self]
      intro c hc
      rw [bne_iff_ne]
      rintro rfl
      exact hspells.notMem (by decide) (by decide) hc
    rw [chars_operands hkeeps, List.filter_append, hkept]
    cases isIndirectBranch i with
    | true => rfl
    | false => rfl
  have hne {i : Instruction} (hcount : i.operandCount ≠ 0) : (operandTexts i).reverse ≠ [] := by
    intro hnil
    have hlength := congrArg List.length hnil
    rw [List.length_reverse, operandTexts, List.length_map] at hlength
    exact hcount hlength
  have htexts : [',', ' '].intercalate (operandTexts i).reverse =
      [',', ' '].intercalate (operandTexts i').reverse := by
    rw [← hunmarked hkeeps hfar, h, hunmarked hkeeps' hfar']
  exact List.reverse_inj.mp (intercalate_inj (u := [',']) (v := []) (by decide) (hblank hfar)
    (hblank hfar') (hne hcount) (hne hcount') htexts)

theorem chars_mnemonic (hnear : i.isFar = false) (hret : i.mnemonic ≠ .RETF)
    (hkeeps : i.mnemonic.keepsOperandOrder = false) (hmemory : i.hasMemoryOperand = true) :
    chars (mnemonic {} i) =
      i.mnemonic.lowerName ++ (sizeSuffix (i.operands.get 0).size).toList := by
  have hname : baseName i = i.mnemonic.name := by
    unfold baseName
    split
    · next hretf => exact absurd hretf hret
    · rw [hnear]
      rfl
    · rw [hnear]
      rfl
    · rfl
  have hsuffix : suffix i = sizeSuffix (i.operands.get 0).size := by
    rw [suffix, hnear, hkeeps, hmemory]
    rfl
  have hlower (n : Nat) : (sizeSuffix n).toList.map Char.toLower = (sizeSuffix n).toList := by
    unfold sizeSuffix
    split
    all_goals decide
  rw [mnemonic, hname, hsuffix]
  simp [Piece.mnemonic, Piece.toText, Options.mnemonicCase, Mnemonic.lowerName, hlower]

theorem isPlain_sizeSuffix (n : Nat) : IsPlain (sizeSuffix n).toList := by
  unfold sizeSuffix
  split
  all_goals exact isPlain_of_codes (by decide)

/-- A suffix does not turn a mnemonic into a word for a prefix, none of which ends like a suffix. -/
theorem suffixed_notMem (m : Mnemonic) (n : Nat) :
    m.lowerName ++ (sizeSuffix n).toList ∉ prefixVocabulary.map String.toList := by
  let letters : List Char := ['b', 'w', 'l', 'q', 't']
  have hends :
      (prefixVocabulary.all fun w => w.toList.getLast?.all (!letters.contains ·)) = true := by
    decide
  have hletters : (sizeSuffix n).toList.all (letters.contains ·) = true := by
    unfold sizeSuffix
    split
    all_goals decide
  intro hmem
  obtain ⟨w, hw, heq⟩ := List.mem_map.mp hmem
  cases hlast : (sizeSuffix n).toList.getLast? with
  | none =>
    rw [List.getLast?_eq_none_iff.mp hlast, List.append_nil] at hmem
    exact m.lowerName_notMem hmem
  | some c =>
    have hend := List.all_eq_true.mp hends w hw
    rw [heq, List.getLast?_append, hlast, Option.some_or, Option.all_some] at hend
    rw [List.all_eq_true.mp hletters c (List.mem_of_getLast? hlast)] at hend
    cases hend

section Reading

theorem translate_inj {d d' : Lookup.Definition} (hi : i.Accesses m d) (hi' : i'.Accesses m' d')
    (hsize : m.size ≠ 0) (hsize' : m'.size ≠ 0) (hnear : i.isFar = false) (hnear' : i'.isFar = false)
    (h : Translator.translate ⟨.att, {}⟩ i = Translator.translate ⟨.att, {}⟩ i') :
    i.mnemonic.lowerName ++ (sizeSuffix (i.operands.get 0).size).toList =
        i'.mnemonic.lowerName ++ (sizeSuffix (i'.operands.get 0).size).toList ∧
      operandTexts i = operandTexts i' := by
  obtain ⟨hret, hkeeps, hfar⟩ := hi.follows.regular hi.definition hi.memory hsize
  obtain ⟨hret', hkeeps', hfar'⟩ := hi'.follows.regular hi'.definition hi'.memory hsize'
  have hcount := Instruction.operandCount_ne_zero hi.places.present
  have hcount' := Instruction.operandCount_ne_zero hi'.places.present
  have hchars := congrArg String.toList h
  rw [toList_translate .att hi.error hi.wellFormed.mnemonic hcount,
    toList_translate .att hi'.error hi'.wellFormed.mnemonic hcount'] at hchars
  change chars (prefixWords i) ++ (chars (mnemonic {} i) ++ ' ' :: chars (operands {} i)) =
    chars (prefixWords i') ++ (chars (mnemonic {} i') ++ ' ' :: chars (operands {} i')) at hchars
  rw [chars_mnemonic hnear hret hkeeps (List.any_eq_true.mpr ⟨_, hi.memory, rfl⟩),
    chars_mnemonic hnear' hret' hkeeps' (List.any_eq_true.mpr ⟨_, hi'.memory, rfl⟩)] at hchars
  have hblank (m : Mnemonic) (n : Nat) : ' ' ∉ m.lowerName ++ (sizeSuffix n).toList :=
    (m.isPlain_lowerName.append (isPlain_sizeSuffix n)).notMem (by decide)
  obtain ⟨hname, hoperands⟩ := leading_inj (arePrefixes_prefixWords i) (arePrefixes_prefixWords i')
    (suffixed_notMem _ _) (suffixed_notMem _ _) (hblank _ _) (hblank _ _) hchars
  exact ⟨hname, operandTexts_inj hkeeps hkeeps' hfar hfar' hcount hcount' hoperands⟩

/-- A register is not written like memory, which has parentheses or a colon or begins with a
digit. -/
theorem register_ne_memory {r : Register} {mode : Mode} {addressSize : Nat}
    (hm : m.IsWellFormed mode addressSize) :
    chars (operand {} i (.register r)) ≠ chars (operand {} i' (.memory m)) := by
  intro h
  have hregister : Spells ['%'] (chars (operand {} i (.register r))) :=
    spells_register (by decide) r
  rw [h] at hregister
  have hcolon : ':' ∉ chars (memory {} i' m) := hregister.notMem (by decide) (by decide)
  have hparen : '(' ∉ chars (memory {} i' m) := hregister.notMem (by decide) (by decide)
  rw [memory, chars_append, chars_append] at hcolon hparen
  cases hsegment : i'.prefixes.segment with
  | some g => simp [segmentPieces, hsegment, Piece.toText] at hcolon
  | none =>
    cases habsolute : m.isAbsolute with
    | false => simp [habsolute, Piece.toText] at hparen
    | true =>
      have hsize : m.displacementSize ≠ 0 := Nat.pos_iff_ne_zero.mp (hm.absolute habsolute)
      have hbare : chars (operand {} i' (.memory m)) =
          (hex m.unsignedDisplacement).toList := by
        simp [operand, memory, segmentPieces, hsegment, displacementPieces, hsize, habsolute,
          Options.resolve, Piece.displacement, Piece.toText]
      rw [hbare, toList_hex, operand, chars_register] at h
      cases h

theorem register_inj {r r' : Register}
    (h : chars (operand {} i (.register r)) = chars (operand {} i' (.register r'))) : r = r' := by
  rw [operand, operand, chars_register, chars_register] at h
  exact Register.name_injective (String.toList_inj.mp (List.cons.inj h).2)

theorem sizeSuffix_inj {size size' : Nat} (h : size ∈ suffixSizes) (h' : size' ∈ suffixSizes)
    {cs cs' : List Char} (heq : cs ++ (sizeSuffix size).toList = cs' ++ (sizeSuffix size').toList) :
    size = size' := by
  have hlength : ∀ size ∈ suffixSizes, (sizeSuffix size).toList.length = 1 := by decide
  have hinj : ∀ size ∈ suffixSizes, ∀ size' ∈ suffixSizes,
      (sizeSuffix size).toList = (sizeSuffix size').toList → size = size' := by decide
  refine hinj size h size' h' (List.append_inj_right' heq ?_)
  rw [hlength size h, hlength size' h']

end Reading

end Att
end Text

open Text

/-- Near instructions with the same AT&T text have memory of the same size, as far as the sizes are
those of general registers, unless the mnemonic loads more than one size into a register in one of the
modes. -/
theorem att_text_memory_size (t t' : Target) (b b' : Array UInt8) (pc pc' : UInt64)
    (m m' : MemoryOperand) (h : (decode t b pc).error = none) (h' : (decode t' b' pc').error = none)
    (hnear : (decode t b pc).isFar = false) (hnear' : (decode t' b' pc').isFar = false)
    (hm : .memory m ∈ (decode t b pc).operands.toList)
    (hm' : .memory m' ∈ (decode t' b' pc').operands.toList)
    (hsize : m.size ∈ [8, 16, 32, 64]) (hsize' : m'.size ∈ [8, 16, 32, 64])
    (htext : Translator.translate ⟨.att, {}⟩ (decode t b pc) =
      Translator.translate ⟨.att, {}⟩ (decode t' b' pc'))
    (hmixes : (decode t b pc).mnemonic.mixesSizes (t.mode.is64 || t'.mode.is64) = false) :
    m.size = m'.size := by
  obtain ⟨d, hi⟩ := exists_accesses h hm
  obtain ⟨d', hi'⟩ := exists_accesses h' hm'
  have hsized : ∀ size ∈ [8, 16, 32, 64], size ≠ 0 := by decide
  obtain ⟨hname, htexts⟩ := Att.translate_inj hi hi' (hsized _ hsize) (hsized _ hsize') hnear hnear'
    htext
  have hzero : chars (Att.operand {} (decode t b pc) ((decode t b pc).operands.get 0)) =
      chars (Att.operand {} (decode t' b' pc') ((decode t' b' pc').operands.get 0)) := by
    have hhead := congrArg (·[0]?) htexts
    simp only [Att.operandTexts, List.getElem?_map, Instruction.activeOperands_zero hi.places.present,
      Instruction.activeOperands_zero hi'.places.present, Option.map_some] at hhead
    exact Option.some.inj hhead
  have hwell := hi.wellFormed.operands _ hm
  have hwell' := hi'.wellFormed.operands _ hm'
  obtain hfirst | ⟨r, hfirst⟩ := hi.places.first
  · obtain hfirst' | ⟨r', hfirst'⟩ := hi'.places.first
    · -- Memory comes first both times, so the suffixes are those of its sizes.
      rw [hfirst, hfirst'] at hname
      exact Att.sizeSuffix_inj hsize hsize' hname
    · rw [hfirst, hfirst'] at hzero
      exact absurd hzero.symm (Att.register_ne_memory hwell)
  · obtain hfirst' | ⟨r', hfirst'⟩ := hi'.places.first
    · rw [hfirst, hfirst'] at hzero
      exact absurd hzero (Att.register_ne_memory hwell')
    · -- Memory comes behind the same register, and so under the same suffix and mnemonic.
      rw [hfirst, hfirst'] at hzero
      obtain rfl := Att.register_inj hzero
      rw [hfirst, hfirst'] at hname
      have hmnemonic := Mnemonic.lowerName_injective hi.wellFormed.mnemonic hi'.wellFormed.mnemonic
        (List.append_cancel_right hname)
      obtain ⟨-, hdefined, hplace⟩ := hi.places.behind_of_register hfirst
      obtain ⟨-, hdefined', hplace'⟩ := hi'.places.behind_of_register hfirst'
      have hmode : (decode t b pc).mode = t.mode := decodeAt_mode ..
      have hmode' : (decode t' b' pc').mode = t'.mode := decodeAt_mode ..
      rw [hdefined] at hmixes
      rw [hmode] at hplace
      rw [hmode'] at hplace'
      exact size_eq_of_behind hi.definition hi'.definition
        (hdefined.symm.trans (hmnemonic.trans hdefined')) (Or.inr hmixes) hplace hplace'

section Encodings

open Decode

def plainStore : Array UInt8 :=
  #[0x89, 0x00]

def displacedStore : Array UInt8 :=
  #[0x89, 0x40, 0x00]

theorem decode_stores :
    ((decode ⟨.bits32, .any⟩ plainStore 0).error = none ∧
      (decode ⟨.bits32, .any⟩ plainStore 0).isFar = false ∧
      (decode ⟨.bits32, .any⟩ plainStore 0).mnemonic = .MOV ∧
      (decode ⟨.bits32, .any⟩ plainStore 0).operands =
        #v[.memory { base := some .eax, size := 32 }, .register .eax, .absent, .absent] ∧
      Translator.translate ⟨.att, {}⟩ (decode ⟨.bits32, .any⟩ plainStore 0) = "movl %eax, (%eax)") ∧
    (decode ⟨.bits32, .any⟩ displacedStore 0).error = none ∧
      (decode ⟨.bits32, .any⟩ displacedStore 0).isFar = false ∧
      (decode ⟨.bits32, .any⟩ displacedStore 0).mnemonic = .MOV ∧
      (decode ⟨.bits32, .any⟩ displacedStore 0).operands =
        #v[.memory { base := some .eax, displacementSize := 8, size := 32 },
          .register .eax, .absent, .absent] ∧
      Translator.translate ⟨.att, {}⟩ (decode ⟨.bits32, .any⟩ displacedStore 0) =
        "movl %eax, (%eax)" :=
  ⟨decode_writes (by decide +kernel), decode_writes (by decide +kernel)⟩

theorem att_text_memory_size_store :
    (decode ⟨.bits32, .any⟩ plainStore 0).error = none ∧
    (decode ⟨.bits32, .any⟩ displacedStore 0).error = none ∧
    (decode ⟨.bits32, .any⟩ plainStore 0).isFar = false ∧
    (decode ⟨.bits32, .any⟩ displacedStore 0).isFar = false ∧
    .memory { base := some .eax, size := 32 } ∈
      (decode ⟨.bits32, .any⟩ plainStore 0).operands.toList ∧
    .memory { base := some .eax, displacementSize := 8, size := 32 } ∈
      (decode ⟨.bits32, .any⟩ displacedStore 0).operands.toList ∧
    Translator.translate ⟨.att, {}⟩ (decode ⟨.bits32, .any⟩ plainStore 0) =
      Translator.translate ⟨.att, {}⟩ (decode ⟨.bits32, .any⟩ displacedStore 0) ∧
    (decode ⟨.bits32, .any⟩ plainStore 0).mnemonic.mixesSizes false = false ∧
    ({ base := some .eax, size := 32 } : MemoryOperand).size =
      ({ base := some .eax, displacementSize := 8, size := 32 } : MemoryOperand).size := by
  obtain ⟨⟨herror, hnear, hmnemonic, hoperands, htext⟩, herror', hnear', -, hoperands', htext'⟩ :=
    decode_stores
  have hm : .memory { base := some .eax, size := 32 } ∈
      (decode ⟨.bits32, .any⟩ plainStore 0).operands.toList := by
    rw [hoperands]
    simp
  have hm' : .memory { base := some .eax, displacementSize := 8, size := 32 } ∈
      (decode ⟨.bits32, .any⟩ displacedStore 0).operands.toList := by
    rw [hoperands']
    simp
  have hmixes : (decode ⟨.bits32, .any⟩ plainStore 0).mnemonic.mixesSizes false = false := by
    rw [hmnemonic]
    rfl
  exact ⟨herror, herror', hnear, hnear', hm, hm', htext.trans htext'.symm, hmixes,
    att_text_memory_size ⟨.bits32, .any⟩ ⟨.bits32, .any⟩ plainStore displacedStore 0 0 _ _ herror
      herror' hnear hnear' hm hm' (by decide) (by decide) (htext.trans htext'.symm) hmixes⟩

def widenByte : Array UInt8 :=
  #[0x0F, 0xB6, 0x00]

def widenWord : Array UInt8 :=
  #[0x0F, 0xB7, 0x00]

/-- The suffix is that of the register, whatever is widened. -/
theorem decode_widenings :
    ((decode ⟨.bits32, .any⟩ widenByte 0).error = none ∧
      (decode ⟨.bits32, .any⟩ widenByte 0).isFar = false ∧
      (decode ⟨.bits32, .any⟩ widenByte 0).mnemonic = .MOVZX ∧
      (decode ⟨.bits32, .any⟩ widenByte 0).operands =
        #v[.register .eax, .memory { base := some .eax, size := 8 }, .absent, .absent] ∧
      Translator.translate ⟨.att, {}⟩ (decode ⟨.bits32, .any⟩ widenByte 0) =
        "movzxl (%eax), %eax") ∧
    (decode ⟨.bits32, .any⟩ widenWord 0).error = none ∧
      (decode ⟨.bits32, .any⟩ widenWord 0).isFar = false ∧
      (decode ⟨.bits32, .any⟩ widenWord 0).mnemonic = .MOVZX ∧
      (decode ⟨.bits32, .any⟩ widenWord 0).operands =
        #v[.register .eax, .memory { base := some .eax, size := 16 }, .absent, .absent] ∧
      Translator.translate ⟨.att, {}⟩ (decode ⟨.bits32, .any⟩ widenWord 0) =
        "movzxl (%eax), %eax" :=
  ⟨decode_writes (by decide +kernel), decode_writes (by decide +kernel)⟩

/-- Widening loads with one text and memory of two sizes. -/
theorem att_text_widening :
    ∃ m m' : MemoryOperand, m.size = 8 ∧ m'.size = 16 ∧
      (decode ⟨.bits32, .any⟩ widenByte 0).error = none ∧
      (decode ⟨.bits32, .any⟩ widenWord 0).error = none ∧
      (decode ⟨.bits32, .any⟩ widenByte 0).isFar = false ∧
      (decode ⟨.bits32, .any⟩ widenWord 0).isFar = false ∧
      .memory m ∈ (decode ⟨.bits32, .any⟩ widenByte 0).operands.toList ∧
      .memory m' ∈ (decode ⟨.bits32, .any⟩ widenWord 0).operands.toList ∧
      Translator.translate ⟨.att, {}⟩ (decode ⟨.bits32, .any⟩ widenByte 0) =
        Translator.translate ⟨.att, {}⟩ (decode ⟨.bits32, .any⟩ widenWord 0) := by
  obtain ⟨⟨herror, hnear, -, hoperands, htext⟩, herror', hnear', -, hoperands', htext'⟩ :=
    decode_widenings
  refine ⟨{ base := some .eax, size := 8 }, { base := some .eax, size := 16 }, rfl, rfl, herror,
    herror', hnear, hnear', ?_, ?_, htext.trans htext'.symm⟩
  · rw [hoperands]
    simp
  · rw [hoperands']
    simp

end Encodings

end X86
