import Mathlib.Data.List.Forall2
import X86.Text.Translator

/-!
What the two syntaxes write. Whatever is written, to a stream of tokens or as plain text, the tokens
spell the text. Of an instruction both syntaxes write the same content: the same prefixes and, for
each operand, the same words in an order of their own.
-/

namespace X86
namespace Text

section Sinks

def writeToken (ts : List Token) (p : Piece) : List Token :=
  ts ++ [p.toToken]

def writeText (s : String) (p : Piece) : String :=
  s ++ p.toText

theorem foldl_writeToken (ts : List Token) (ps : List Piece) :
    ps.foldl writeToken ts = ts ++ tokens ps := by
  induction ps generalizing ts with
  | nil => simp [tokens]
  | cons p ps ih =>
    rw [List.foldl_cons, ih, writeToken, List.append_assoc]
    rfl

theorem flatten_cons (p : Piece) (ps : List Piece) : flatten (p :: ps) = p.toText ++ flatten ps := by
  simp [flatten]

theorem foldl_writeText (s : String) (ps : List Piece) : ps.foldl writeText s = s ++ flatten ps := by
  induction ps generalizing s with
  | nil => simp [flatten]
  | cons p ps ih => rw [List.foldl_cons, ih, writeText, flatten_cons, String.append_assoc]

theorem spell_writeToken (ts : List Token) (p : Piece) :
    spell (writeToken ts p) = writeText (spell ts) p := by
  simp [spell, writeToken, writeText]

theorem spell_foldl_writeToken (ts : List Token) (ps : List Piece) :
    spell (ps.foldl writeToken ts) = ps.foldl writeText (spell ts) := by
  induction ps generalizing ts with
  | nil => rfl
  | cons p ps ih => rw [List.foldl_cons, List.foldl_cons, ih, spell_writeToken]

theorem spell_tokens (ps : List Piece) : spell (tokens ps) = flatten ps := by
  have hspell := spell_foldl_writeToken [] ps
  rw [foldl_writeToken, List.nil_append, foldl_writeText] at hspell
  rw [hspell]
  exact String.empty_append

/-- The tokens of a line spell its text. So does any stream of tokens that is written piece by piece
along with a text; each piece adds one token, which spells what the piece adds to the text. -/
theorem stream_spells_text :
    (∀ (t : Translator) (i : Instruction),
      (t.pieces i).foldl writeToken [] = tokens (t.pieces i) ∧
        spell (tokens (t.pieces i)) = t.translate i) ∧
    ∀ ps : List Piece, spell (ps.foldl writeToken []) = ps.foldl writeText "" ∧
      (ps.foldl writeToken []).map Token.text = ps.map Piece.toText := by
  refine ⟨?_, ?_⟩
  · intro t i
    exact ⟨foldl_writeToken [] _, spell_tokens _⟩
  · intro ps
    refine ⟨spell_foldl_writeToken [] ps, ?_⟩
    rw [foldl_writeToken, List.nil_append, tokens, List.map_map]
    apply List.map_congr_left
    intro p _
    exact Piece.text_toToken p

end Sinks

/-- The tokens with content of their own, in the order in which they are written. -/
def content (ps : List Piece) : List Token :=
  (tokens ps).filter Token.isSemantic

section Content

theorem isSemantic_ofSeparator (s : String) : (Token.ofSeparator s).isSemantic = false := by
  unfold Token.ofSeparator
  split
  case h_7 =>
    split
    · rfl
    · split <;> rfl
  all_goals rfl

theorem isSemantic_ofSymbol (s : String) : (Token.ofSymbol s).isSemantic = false := by
  unfold Token.ofSymbol
  split <;> rfl

@[simp] theorem content_nil : content [] = [] := rfl

@[simp] theorem content_append (ps qs : List Piece) : content (ps ++ qs) = content ps ++ content qs := by
  simp only [content, tokens, List.map_append, List.filter_append]

@[simp] theorem content_text (s : String) (ps : List Piece) : content (.text s :: ps) = content ps := rfl

@[simp] theorem content_word (r : Role) (s : String) (ps : List Piece) :
    content (.word r s :: ps) = .word r s :: content ps := rfl

@[simp] theorem content_separator (s : String) (ps : List Piece) :
    content (.separator s :: ps) = content ps := by
  show ((Token.ofSeparator s) :: tokens ps).filter Token.isSemantic = _
  rw [List.filter_cons_of_neg (by rw [isSemantic_ofSeparator]; decide)]
  rfl

@[simp] theorem content_symbol (s : String) (ps : List Piece) :
    content (.symbol s :: ps) = content ps := by
  show ((Token.ofSymbol s) :: tokens ps).filter Token.isSemantic = _
  rw [List.filter_cons_of_neg (by rw [isSemantic_ofSymbol]; decide)]
  rfl

@[simp] theorem content_space (ps : List Piece) : content (.space :: ps) = content ps :=
  content_separator " " ps

theorem content_commaSeparated (gs : List (List Piece)) :
    content (commaSeparated gs) = (gs.map content).flatten := by
  induction gs with
  | nil => rfl
  | cons g gs ih =>
    cases gs with
    | nil => simp [commaSeparated]
    | cons h gs =>
      show content (g ++ [.separator ",", .space] ++ commaSeparated (h :: gs)) = _
      rw [content_append, content_append, ih]
      simp

end Content

def segmentContent (i : Instruction) : List Token :=
  i.prefixes.segment.toList.map fun s => .word .register s.name

def baseContent (m : MemoryOperand) : List Token :=
  m.base.toList.map fun r => .word .register r.name

def indexContent (m : MemoryOperand) : List Token :=
  m.index.toList.flatMap fun r => .word .register r.name ::
    if 1 < m.scale then [.word .displacement (toString m.scale)] else []

/-- A bare address by its name or its number; what is added to a register by its amount, unless that
is zero. -/
def displacementContent (o : Options) (m : MemoryOperand) : List Token :=
  if m.displacementSize = 0 then []
  else if m.isAbsolute then
    match o.resolve (UInt64.ofNat m.unsignedDisplacement) with
    | some name => [.word .operand name]
    | none => [.word .displacement (hex m.unsignedDisplacement)]
  else if m.displacement = 0 then []
  else [.word .displacement (hex m.displacement.natAbs)]

def targetContent (o : Options) (target : UInt64) : List Token :=
  match o.resolve target with
  | some name => [.word .operand name]
  | none => [.word .pointer (hex target.toNat)]

/-- What there is to say about an operand. An implied constant is said in decimal here. -/
def operandContent (o : Options) (i : Instruction) : Operand → List Token
  | .absent => []
  | .register r => [.word .register r.name]
  | .memory m => segmentContent i ++ baseContent m ++ indexContent m ++ displacementContent o m
  | .immediate imm => [.word .immediate (hex (immediateValue i imm))]
  | .constant n => [.word .immediate (toString n)]
  | .relative r => targetContent o r.target
  | .far p => [.word .immediate (hex p.segment.toNat), .word .immediate (hex (farOffset p))]

section Operands

variable (o : Options) (i : Instruction) (m : MemoryOperand)

theorem content_displacementPieces (plus : Bool) :
    content (displacementPieces o m plus) = displacementContent o m := by
  unfold displacementPieces displacementContent
  by_cases hsize : m.displacementSize = 0
  · simp [hsize]
  · by_cases habsolute : m.isAbsolute = true
    · simp only [hsize, habsolute, if_true, if_false]
      cases o.resolve (UInt64.ofNat m.unsignedDisplacement) <;> rfl
    · simp only [hsize, habsolute, if_false, Bool.false_eq_true]
      obtain hneg | hzero | hpos := Int.lt_trichotomy m.displacement 0
      · rw [if_pos hneg, if_neg (by omega)]
        rfl
      · simp [hzero]
      · have hne : m.displacement ≠ 0 := by omega
        have hnot : ¬ m.displacement < 0 := by omega
        simp only [hnot, hpos, hne, if_true, if_false]
        cases plus <;> rfl

theorem content_targetPieces (target : UInt64) :
    content (targetPieces o target) = targetContent o target := by
  unfold targetPieces targetContent
  cases o.resolve target <;> rfl

theorem content_intel_keyword (size : Nat) : content (Intel.keyword i size) = [] := by
  unfold Intel.keyword
  rw [content_append]
  by_cases hfar : i.isFar = true
  · rw [if_pos hfar]
    split <;> rfl
  · rw [if_neg hfar]
    split <;> rfl

theorem content_intel_segment : content (Intel.segmentPieces i) = segmentContent i := by
  unfold Intel.segmentPieces segmentContent
  cases i.prefixes.segment <;> rfl

theorem content_intel_base : content (Intel.basePieces m) = baseContent m := by
  unfold Intel.basePieces baseContent
  cases m.base <;> rfl

theorem content_intel_index : content (Intel.indexPieces m) = indexContent m := by
  unfold Intel.indexPieces indexContent
  cases m.index with
  | none => rfl
  | some r =>
    by_cases hscale : 1 < m.scale
    · simp only [hscale, if_true]
      cases m.base <;> rfl
    · simp only [hscale, if_false]
      cases m.base <;> rfl

theorem content_intel_operand (sized : Bool) (op : Operand) :
    content (Intel.operand o i sized op) = operandContent o i op := by
  cases op with
  | absent | register | immediate | far => rfl
  | relative r => exact content_targetPieces o r.target
  | memory m =>
    have hmemory : content (Intel.memory o i m) = operandContent o i (.memory m) := by
      simp [Intel.memory, content_intel_segment, content_intel_base, content_intel_index,
        content_displacementPieces, operandContent]
    rw [Intel.operand, content_append, hmemory]
    cases sized with
    | false => rfl
    | true => rw [if_pos rfl, content_intel_keyword, List.nil_append]
  | constant n =>
    rw [Intel.operand, content_append]
    cases sized with
    | false => rfl
    | true => rw [if_pos rfl, content_intel_keyword]; rfl

theorem content_att_segment : content (Att.segmentPieces i) = segmentContent i := by
  unfold Att.segmentPieces segmentContent
  cases i.prefixes.segment <;> rfl

theorem content_att_base : content (Att.basePieces m) = baseContent m := by
  unfold Att.basePieces baseContent
  cases m.base <;> rfl

theorem content_att_index : content (Att.indexPieces m) = indexContent m := by
  unfold Att.indexPieces indexContent
  cases m.index with
  | none => rfl
  | some r =>
    by_cases hscale : 1 < m.scale
    · simp only [hscale, if_true]
      rfl
    · simp only [hscale, if_false]
      rfl

/-- A bare address is written without parentheses, but it has nothing to put between them either. -/
theorem content_att_registers :
    content (if m.isAbsolute then []
      else [.separator "("] ++ Att.basePieces m ++ Att.indexPieces m ++ [.separator ")"]) =
    baseContent m ++ indexContent m := by
  by_cases habsolute : m.isAbsolute = true
  · have hnone : m.base = none ∧ m.index = none := by
      simpa [MemoryOperand.isAbsolute] using habsolute
    rw [if_pos habsolute, baseContent, indexContent, hnone.1, hnone.2]
    rfl
  · rw [if_neg habsolute]
    simp [content_att_base, content_att_index]

theorem content_att_operand {op : Operand} (h : ∀ n, op ≠ .constant n) :
    (content (Att.operand o i op)).Perm (operandContent o i op) := by
  cases op with
  | absent | register | immediate | far => exact List.Perm.refl _
  | relative r => exact List.Perm.of_eq (content_targetPieces o r.target)
  | memory m =>
    have hmemory : content (Att.operand o i (.memory m)) =
        segmentContent i ++ (displacementContent o m ++ (baseContent m ++ indexContent m)) := by
      rw [Att.operand, Att.memory, content_append, content_append, content_att_registers,
        content_att_segment, content_displacementPieces, List.append_assoc]
    have hcontent : operandContent o i (.memory m) =
        segmentContent i ++ ((baseContent m ++ indexContent m) ++ displacementContent o m) := by
      simp only [operandContent, List.append_assoc]
    rw [hmemory, hcontent]
    exact List.perm_append_comm.append_left _
  | constant n => exact absurd rfl (h n)

end Operands

section Lines

variable (o : Options) (i : Instruction)

theorem content_columns : content (columns o i) = [] := by
  have hbinary : content (binaryColumn i) = [] := by
    unfold binaryColumn
    cases i.bytes <;> rfl
  rw [columns, content_append]
  by_cases ha : o.address = true
  · by_cases hb : o.binary = true
    · rw [if_pos ha, if_pos hb, hbinary]
      rfl
    · rw [if_pos ha, if_neg hb]
      rfl
  · by_cases hb : o.binary = true
    · rw [if_neg ha, if_pos hb, hbinary]
      rfl
    · rw [if_neg ha, if_neg hb]
      rfl

/-- Some pieces whose content is prefix words. -/
def SaysPrefixes (ps : List Piece) : Prop :=
  ∃ names : List String, content ps = names.map (.word .prefixWord)

theorem saysPrefixes_nil : SaysPrefixes [] :=
  ⟨[], rfl⟩

theorem saysPrefixes_prefixPieces (s : String) : SaysPrefixes (prefixPieces s) :=
  ⟨[s], rfl⟩

theorem SaysPrefixes.append {ps qs : List Piece} (hp : SaysPrefixes ps) (hq : SaysPrefixes qs) :
    SaysPrefixes (ps ++ qs) := by
  obtain ⟨xs, hx⟩ := hp
  obtain ⟨ys, hy⟩ := hq
  exact ⟨xs ++ ys, by rw [content_append, hx, hy, List.map_append]⟩

theorem SaysPrefixes.ite {p : Prop} [Decidable p] {ps qs : List Piece} (hp : SaysPrefixes ps)
    (hq : SaysPrefixes qs) : SaysPrefixes (if p then ps else qs) := by
  split
  · exact hp
  · exact hq

theorem saysPrefixes_prefixWords : SaysPrefixes (prefixWords i) := by
  have hsegment : SaysPrefixes (segmentWord i) := by
    unfold segmentWord
    cases i.prefixes.segment with
    | none => exact saysPrefixes_nil
    | some s => exact saysPrefixes_nil.ite (saysPrefixes_prefixPieces _)
  have hsize : SaysPrefixes (sizeWords i) :=
    ((saysPrefixes_prefixPieces _).ite saysPrefixes_nil).append
      ((saysPrefixes_prefixPieces _).ite saysPrefixes_nil)
  have hlock : SaysPrefixes (lockWord i) := (saysPrefixes_prefixPieces _).ite saysPrefixes_nil
  have hrepeat : SaysPrefixes (repeatWord i) :=
    (saysPrefixes_prefixPieces _).ite ((saysPrefixes_prefixPieces _).ite
      ((saysPrefixes_prefixPieces _).ite saysPrefixes_nil))
  exact ((hsize.append hsegment).append hlock).append hrepeat

theorem content_intel_operands :
    content (Intel.operands o i) = (i.activeOperands.map (operandContent o i)).flatten := by
  rw [Intel.operands, content_commaSeparated, List.map_map]
  congr 1
  have hgroup : content ∘ (fun p : Operand × Nat => Intel.operand o i (Intel.needsKeyword i p.2) p.1) =
      operandContent o i ∘ Prod.fst := by
    funext p
    exact content_intel_operand o i _ p.1
  rw [hgroup, ← List.map_map, List.zipIdx_map_fst]

theorem keepsOperandOrder_iff {m : Mnemonic} :
    m.keepsOperandOrder = true ↔ m = .ENTER ∨ m = .BOUND := by
  unfold Mnemonic.keepsOperandOrder
  split
  · exact iff_of_true rfl (Or.inl rfl)
  · exact iff_of_true rfl (Or.inr rfl)
  · next henter hbound =>
    refine iff_of_false (by decide) ?_
    rintro (rfl | rfl)
    · exact henter rfl
    · exact hbound rfl

theorem content_att_operands :
    content (Att.operands o i) =
      ((if i.mnemonic = .ENTER ∨ i.mnemonic = .BOUND then i.activeOperands
        else i.activeOperands.reverse).map fun op => content (Att.operand o i op)).flatten := by
  have hmark : content (if Att.isIndirectBranch i then [.symbol "*"] else []) = [] := by
    split
    · exact content_symbol "*" []
    · rfl
  simp only [Att.operands, content_append, hmark, List.nil_append, content_commaSeparated,
    List.map_map, keepsOperandOrder_iff]
  rfl

theorem content_pieces (t : Translator) :
    content (t.pieces i) =
      if i.isError = true ∨ i.mnemonic = .INVALID then [.word .mnemonic "invalid"]
      else content (prefixWords i) ++ content (t.mnemonic i) ++ content (t.operands i) := by
  rw [Translator.pieces, content_append, content_columns, List.nil_append]
  by_cases hinvalid : i.isError = true ∨ i.mnemonic = .INVALID
  · rw [if_pos hinvalid, if_pos (by simpa using hinvalid)]
    rfl
  · rw [if_neg hinvalid, if_neg (by simpa using hinvalid), Translator.body, content_append,
      content_append]
    congr 1
    by_cases hnone : i.operandCount = 0
    · have hactive : i.activeOperands = [] := List.length_eq_zero_iff.mp hnone
      rw [if_pos hnone]
      cases hd : t.dialect with
      | intel => simp [Translator.operands, hd, content_intel_operands, hactive]
      | att => simp [Translator.operands, hd, content_att_operands, hactive]
    · rw [if_neg hnone, content_space]

/-- Both syntaxes write the same prefix words, then the mnemonic, and then a group of words for each
operand. AT&T syntax reverses the groups, except for two mnemonics, and arranges the words of a group
in its own way; only an implied constant is another word. What cannot be decoded is the same single
word in both. -/
theorem dialects_say_the_same :
    (i.isError = true ∨ i.mnemonic = .INVALID →
      content (Translator.pieces ⟨.intel, o⟩ i) = [.word .mnemonic "invalid"] ∧
        content (Translator.pieces ⟨.att, o⟩ i) = [.word .mnemonic "invalid"]) ∧
    (¬ (i.isError = true ∨ i.mnemonic = .INVALID) →
      (∀ op ∈ i.activeOperands, ∀ n, op ≠ .constant n) →
      ∃ (names : List String) (intelGroups attGroups : List (List Token)),
        content (Translator.pieces ⟨.intel, o⟩ i) = names.map (.word .prefixWord) ++
          .word .mnemonic (o.mnemonicCase i.mnemonic.name) :: intelGroups.flatten ∧
        content (Translator.pieces ⟨.att, o⟩ i) = names.map (.word .prefixWord) ++
          .word .mnemonic (o.mnemonicCase (Att.baseName i ++ Att.suffix i)) :: attGroups.flatten ∧
        intelGroups = i.activeOperands.map (operandContent o i) ∧
        List.Forall₂ List.Perm
          (if i.mnemonic = .ENTER ∨ i.mnemonic = .BOUND then attGroups else attGroups.reverse)
          intelGroups) := by
  refine ⟨?_, ?_⟩
  · intro hinvalid
    rw [content_pieces, content_pieces, if_pos hinvalid, if_pos hinvalid]
    exact ⟨rfl, rfl⟩
  · intro hvalid h
    obtain ⟨names, hnames⟩ := saysPrefixes_prefixWords i
    let written (op : Operand) : List Token := content (Att.operand o i op)
    have hgroups : List.Forall₂ List.Perm (i.activeOperands.map written)
        (i.activeOperands.map (operandContent o i)) := by
      rw [List.forall₂_map_left_iff, List.forall₂_map_right_iff, List.forall₂_same]
      intro op hop
      exact content_att_operand o i (h op hop)
    rw [content_pieces, content_pieces, if_neg hvalid, if_neg hvalid, hnames, List.append_assoc,
      List.append_assoc]
    refine ⟨names, _, (if i.mnemonic = .ENTER ∨ i.mnemonic = .BOUND then i.activeOperands
      else i.activeOperands.reverse).map written, ?_, ?_, rfl, ?_⟩
    · rw [← content_intel_operands]
      rfl
    · rw [← content_att_operands]
      rfl
    · by_cases horder : i.mnemonic = .ENTER ∨ i.mnemonic = .BOUND
      · simpa only [if_pos horder] using hgroups
      · simpa only [if_neg horder, List.map_reverse, List.reverse_reverse] using hgroups

end Lines

/-- A load from `fs` that uses every part of an address. -/
def segmentLoad : Instruction where
  mnemonic := .MOV
  length := 4
  operandSize := 32
  addressSize := 32
  prefixes := ⟨Segment.fs.flag, {}⟩
  operands := #v[.register .eax,
    .memory ⟨some (.gpr32 3), some (.gpr32 6), 4, -16, 8, 32⟩, .absent, .absent]

theorem dialects_say_the_same_segmentLoad :
    (∀ op ∈ segmentLoad.activeOperands, ∀ n, op ≠ .constant n) ∧
      ¬ (segmentLoad.isError = true ∨ segmentLoad.mnemonic = .INVALID) ∧
      ∃ (names : List String) (attGroups : List (List Token)),
        content (Translator.pieces ⟨.att, {}⟩ segmentLoad) = names.map (.word .prefixWord) ++
          .word .mnemonic (Options.mnemonicCase {} (Att.baseName segmentLoad ++ Att.suffix segmentLoad))
            :: attGroups.flatten ∧
        List.Forall₂ List.Perm attGroups.reverse
          [[.word .register "eax"],
            [.word .register "fs", .word .register "ebx", .word .register "esi",
              .word .displacement "4", .word .displacement "0x10"]] ∧
      content (Translator.pieces ⟨.att, {}⟩ { segmentLoad with mnemonic := .INVALID }) =
        [.word .mnemonic "invalid"] := by
  have hactive : segmentLoad.activeOperands = [.register .eax,
      .memory ⟨some (.gpr32 3), some (.gpr32 6), 4, -16, 8, 32⟩] := by
    decide +kernel
  have hconstant : ∀ op ∈ segmentLoad.activeOperands, ∀ n, op ≠ .constant n := by
    rw [hactive]
    simp
  have hvalid : ¬ (segmentLoad.isError = true ∨ segmentLoad.mnemonic = .INVALID) := by
    decide
  have hcontent : segmentLoad.activeOperands.map (operandContent {} segmentLoad) =
      [[.word .register "eax"],
        [.word .register "fs", .word .register "ebx", .word .register "esi",
          .word .displacement "4", .word .displacement "0x10"]] := by
    decide +kernel
  obtain ⟨-, hsame⟩ := dialects_say_the_same {} segmentLoad
  obtain ⟨names, intelGroups, attGroups, -, hatt, rfl, hgroups⟩ := hsame hvalid hconstant
  rw [hcontent] at hgroups
  obtain ⟨hinvalid, -⟩ := dialects_say_the_same {} { segmentLoad with mnemonic := .INVALID }
  exact ⟨hconstant, hvalid, names, attGroups, hatt, hgroups, (hinvalid (Or.inr rfl)).2⟩

end Text
end X86
