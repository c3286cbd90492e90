import X86.Proofs.Rendering

/-!
Names in place of addresses. A resolver is asked only for branch targets and for addresses that stand
alone: what a line says depends on it at these addresses only, and the names in the line are those
that it has for them.
-/

namespace X86

/-- The address that a name can stand for in the text of an operand: the target of a branch, or a
displacement without a register, read without its sign. -/
def Operand.symbolAddress? : Operand → Option UInt64
  | .relative r => some r.target
  | .memory m =>
    if m.base = none ∧ m.index = none ∧ m.displacementSize ≠ 0 then
      some (UInt64.ofNat m.unsignedDisplacement)
    else none
  | _ => none

/-- The addresses that names can stand for, by operand. Slots behind an unused one do not count. -/
def Instruction.symbolAddresses (i : Instruction) : List UInt64 :=
  i.activeOperands.filterMap Operand.symbolAddress?

theorem MemoryOperand.isAbsolute_iff {m : MemoryOperand} :
    m.isAbsolute = true ↔ m.base = none ∧ m.index = none := by
  simp [isAbsolute]

theorem Operand.symbolAddress?_memory {m : MemoryOperand} (hsize : m.displacementSize ≠ 0)
    (habsolute : m.isAbsolute = true) :
    (Operand.memory m).symbolAddress? = some (UInt64.ofNat m.unsignedDisplacement) := by
  obtain ⟨hbase, hindex⟩ := MemoryOperand.isAbsolute_iff.mp habsolute
  exact if_pos ⟨hbase, hindex, hsize⟩

namespace Text

section Congruence

variable {o o' : Options} {i : Instruction}

/-- Two resolvers that give an operand the same name, if any. -/
def AgreeOn (o o' : Options) (op : Operand) : Prop :=
  ∀ a ∈ op.symbolAddress?, o.resolve a = o'.resolve a

theorem displacementPieces_congr {m : MemoryOperand} (h : AgreeOn o o' (.memory m)) (plus : Bool) :
    displacementPieces o m plus = displacementPieces o' m plus := by
  unfold displacementPieces
  by_cases hsize : m.displacementSize = 0
  · rw [if_pos hsize, if_pos hsize]
  · by_cases habsolute : m.isAbsolute = true
    · rw [h _ (Operand.symbolAddress?_memory hsize habsolute)]
    · simp only [hsize, habsolute, if_false, Bool.false_eq_true]

theorem targetPieces_congr {r : RelativeTarget} (h : AgreeOn o o' (.relative r)) :
    targetPieces o r.target = targetPieces o' r.target := by
  rw [targetPieces, targetPieces, h _ rfl]

theorem intel_operand_congr {op : Operand} (h : AgreeOn o o' op) (sized : Bool) :
    Intel.operand o i sized op = Intel.operand o' i sized op := by
  cases op with
  | absent | register | immediate | constant | far => rfl
  | relative r => exact targetPieces_congr h
  | memory m =>
    rw [Intel.operand, Intel.operand, Intel.memory, Intel.memory, displacementPieces_congr h]

theorem att_operand_congr {op : Operand} (h : AgreeOn o o' op) :
    Att.operand o i op = Att.operand o' i op := by
  cases op with
  | absent | register | immediate | constant | far => rfl
  | relative r => exact targetPieces_congr h
  | memory m => rw [Att.operand, Att.operand, Att.memory, Att.memory, displacementPieces_congr h]

theorem intel_operands_congr (h : ∀ op ∈ i.activeOperands, AgreeOn o o' op) :
    Intel.operands o i = Intel.operands o' i := by
  unfold Intel.operands
  congr 1
  apply List.map_congr_left
  intro x hx
  exact intel_operand_congr (h x.1 (List.fst_mem_of_mem_zipIdx hx)) _

theorem att_operands_congr (h : ∀ op ∈ i.activeOperands, AgreeOn o o' op) :
    Att.operands o i = Att.operands o' i := by
  have hmap : i.activeOperands.map (Att.operand o i) = i.activeOperands.map (Att.operand o' i) :=
    List.map_congr_left fun op hop => att_operand_congr (h op hop)
  by_cases horder : i.mnemonic.keepsOperandOrder = true
  · simp only [Att.operands, if_pos horder, hmap]
  · simp only [Att.operands, if_neg horder, List.map_reverse, hmap]

end Congruence

def Translator.resolving (t : Translator) (r : Option (UInt64 → Option String)) : Translator :=
  { t with options := { t.options with resolver := r } }

theorem pieces_resolving_congr {t : Translator} {i : Instruction}
    {r r' : Option (UInt64 → Option String)}
    (h : ∀ a ∈ i.symbolAddresses, r.bind (· a) = r'.bind (· a)) :
    (t.resolving r).pieces i = (t.resolving r').pieces i := by
  have hagree : ∀ op ∈ i.activeOperands,
      AgreeOn (t.resolving r).options (t.resolving r').options op := by
    intro op hop a ha
    exact h a (List.mem_filterMap.mpr ⟨op, hop, ha⟩)
  have hoperands : (t.resolving r).operands i = (t.resolving r').operands i := by
    cases hd : t.dialect with
    | intel => simpa [Translator.operands, Translator.resolving, hd] using intel_operands_congr hagree
    | att => simpa [Translator.operands, Translator.resolving, hd] using att_operands_congr hagree
  unfold Translator.pieces Translator.body
  rw [hoperands]
  rfl

def Token.name? : Token → Option String
  | word .operand s => some s
  | _ => none

def names (ps : List Piece) : List String :=
  (tokens ps).filterMap Token.name?

section Names

variable (o : Options) (i : Instruction)

theorem names_eq_content (ps : List Piece) : names ps = (content ps).filterMap Token.name? := by
  rw [content, List.filterMap_filter]
  apply List.filterMap_congr
  intro x _
  cases x with
  | word role s => rfl
  | _ => rfl

theorem names_displacementContent (m : MemoryOperand) :
    (displacementContent o m).filterMap Token.name? =
      ((Operand.memory m).symbolAddress?.bind o.resolve).toList := by
  unfold displacementContent
  by_cases hsize : m.displacementSize = 0
  · simp [hsize, Operand.symbolAddress?]
  · by_cases habsolute : m.isAbsolute = true
    · rw [if_neg hsize, if_pos habsolute, Operand.symbolAddress?_memory hsize habsolute,
        Option.bind_some]
      cases o.resolve (UInt64.ofNat m.unsignedDisplacement) <;> rfl
    · have hnone : (Operand.memory m).symbolAddress? = none :=
        if_neg fun h => habsolute (MemoryOperand.isAbsolute_iff.mpr ⟨h.1, h.2.1⟩)
      rw [if_neg hsize, if_neg habsolute, hnone]
      split <;> rfl

theorem names_registers (m : MemoryOperand) :
    (segmentContent i ++ baseContent m ++ indexContent m).filterMap Token.name? = [] := by
  have hsegment : (segmentContent i).filterMap Token.name? = [] := by
    unfold segmentContent
    cases i.prefixes.segment <;> rfl
  have hbase : (baseContent m).filterMap Token.name? = [] := by
    unfold baseContent
    cases m.base <;> rfl
  have hindex : (indexContent m).filterMap Token.name? = [] := by
    unfold indexContent
    cases m.index with
    | none => rfl
    | some r => by_cases hscale : 1 < m.scale <;> simp [hscale, Token.name?]
  rw [List.filterMap_append, List.filterMap_append, hsegment, hbase, hindex]
  rfl

theorem names_operandContent (op : Operand) :
    (operandContent o i op).filterMap Token.name? = (op.symbolAddress?.bind o.resolve).toList := by
  cases op with
  | absent | register | immediate | constant | far => rfl
  | relative r =>
    show (targetContent o r.target).filterMap Token.name? = (o.resolve r.target).toList
    unfold targetContent
    cases o.resolve r.target <;> rfl
  | memory m =>
    rw [operandContent, List.filterMap_append, names_registers, names_displacementContent,
      List.nil_append]

theorem names_att_operand (op : Operand) :
    (content (Att.operand o i op)).filterMap Token.name? =
      (op.symbolAddress?.bind o.resolve).toList := by
  by_cases hconstant : ∃ n, op = .constant n
  · obtain ⟨n, rfl⟩ := hconstant
    rfl
  · have hperm := (content_att_operand o i fun n h => hconstant ⟨n, h⟩).filterMap Token.name?
    rw [names_operandContent] at hperm
    cases hname : op.symbolAddress?.bind o.resolve with
    | none =>
      rw [hname] at hperm
      exact List.perm_nil.mp hperm
    | some name =>
      rw [hname] at hperm
      exact List.perm_singleton.mp hperm

theorem filterMap_flatten_names {ops : List Operand} {g : Operand → List Token}
    (h : ∀ op, (g op).filterMap Token.name? = (op.symbolAddress?.bind o.resolve).toList) :
    (ops.map g).flatten.filterMap Token.name? =
      (ops.filterMap Operand.symbolAddress?).filterMap o.resolve := by
  induction ops with
  | nil => rfl
  | cons op ops ih =>
    rw [List.map_cons, List.flatten_cons, List.filterMap_append, h, ih, List.filterMap_cons]
    cases op.symbolAddress? with
    | none => rfl
    | some a =>
      rw [List.filterMap_cons, Option.bind_some]
      cases o.resolve a <;> rfl

end Names

/-- A list in operand order, in the order in which the translator writes the operands. -/
def Translator.inOrder (t : Translator) (i : Instruction) (l : List α) : List α :=
  if t.dialect = .intel ∨ i.mnemonic = .ENTER ∨ i.mnemonic = .BOUND then l else l.reverse

theorem names_operands (t : Translator) (i : Instruction) :
    names (t.operands i) = (t.inOrder i i.symbolAddresses).filterMap t.options.resolve := by
  rw [names_eq_content]
  cases hd : t.dialect with
  | intel =>
    rw [Translator.inOrder, if_pos (Or.inl hd)]
    simp only [Translator.operands, hd, content_intel_operands]
    exact filterMap_flatten_names _ (names_operandContent _ i)
  | att =>
    simp only [Translator.operands, hd, content_att_operands]
    rw [filterMap_flatten_names _ (names_att_operand _ i)]
    simp only [Translator.inOrder, hd, reduceCtorEq, false_or]
    split
    · rfl
    · rw [List.filterMap_reverse, Instruction.symbolAddresses, List.filterMap_reverse]

theorem names_pieces (t : Translator) (i : Instruction) :
    names (t.pieces i) = if i.isError = true ∨ i.mnemonic = .INVALID then []
      else (t.inOrder i i.symbolAddresses).filterMap t.options.resolve := by
  rw [names_eq_content, content_pieces]
  split
  · rfl
  · have hprefixes : (content (prefixWords i)).filterMap Token.name? = [] := by
      obtain ⟨words, hwords⟩ := saysPrefixes_prefixWords i
      rw [hwords, List.filterMap_map]
      exact List.filterMap_eq_nil_iff.mpr fun _ _ => rfl
    have hmnemonic : (content (t.mnemonic i)).filterMap Token.name? = [] := by
      cases hd : t.dialect with
      | intel => simp [Translator.mnemonic, hd, Intel.mnemonic, Piece.mnemonic, Token.name?]
      | att => simp [Translator.mnemonic, hd, Att.mnemonic, Piece.mnemonic, Token.name?]
    rw [List.filterMap_append, List.filterMap_append, hprefixes, hmnemonic, ← names_eq_content,
      names_operands]
    rfl

/-- A resolver has a say only about branch targets and addresses that stand alone. Resolvers that
agree on these give the same text and the same tokens, and one that has no name for them gives what
is written without any. Nothing else in a line is looked up: its names are those of these addresses,
in the order of the operands. -/
theorem resolver_names_addresses (t : Translator) (i : Instruction) :
    (∀ r r' : UInt64 → Option String, (∀ a ∈ i.symbolAddresses, r a = r' a) →
      (t.resolving r).translate i = (t.resolving r').translate i ∧
        tokens ((t.resolving r).pieces i) = tokens ((t.resolving r').pieces i)) ∧
    (∀ r : UInt64 → Option String, (∀ a ∈ i.symbolAddresses, r a = none) →
      (t.resolving r).translate i = (t.resolving none).translate i ∧
        tokens ((t.resolving r).pieces i) = tokens ((t.resolving none).pieces i)) ∧
    ∀ r : UInt64 → Option String, names ((t.resolving r).pieces i) =
      if i.isError = true ∨ i.mnemonic = .INVALID then []
      else (t.inOrder i i.symbolAddresses).filterMap r := by
  refine ⟨?_, ?_, ?_⟩
  · intro r r' h
    have hpieces : (t.resolving r).pieces i = (t.resolving r').pieces i := pieces_resolving_congr h
    exact ⟨congrArg flatten hpieces, congrArg tokens hpieces⟩
  · intro r h
    have hpieces : (t.resolving r).pieces i = (t.resolving none).pieces i := pieces_resolving_congr h
    exact ⟨congrArg flatten hpieces, congrArg tokens hpieces⟩
  · intro r
    exact names_pieces (t.resolving r) i

def topLoad : Instruction where
  mnemonic := .MOV
  length := 4
  operandSize := 32
  addressSize := 16
  operands := #v[.register .eax, .memory { displacement := -1, displacementSize := 16, size := 32 },
    .absent, .absent]

theorem resolver_names_addresses_topLoad :
    let t : Translator := { dialect := .att }
    let r : UInt64 → Option String := fun a => if a = 0xFFFF then some "top" else none
    let r' : UInt64 → Option String := fun _ => some "top"
    let blind : UInt64 → Option String := fun _ => none
    (∀ a ∈ topLoad.symbolAddresses, r a = r' a) ∧
      (t.resolving r).translate topLoad = (t.resolving r').translate topLoad ∧
      (∀ a ∈ topLoad.symbolAddresses, blind a = none) ∧
      (t.resolving blind).translate topLoad = (t.resolving none).translate topLoad ∧
      names ((t.resolving r).pieces topLoad) = ["top"] := by
  intro t r r' blind
  have haddresses : topLoad.symbolAddresses = [0xFFFF] := by decide
  obtain ⟨hsame, hnone, hnames⟩ := resolver_names_addresses t topLoad
  have hagree : ∀ a ∈ topLoad.symbolAddresses, r a = r' a := by
    rw [haddresses]
    simp [r, r']
  have hblind : ∀ a ∈ topLoad.symbolAddresses, blind a = none := fun _ _ => rfl
  refine ⟨hagree, (hsame r r' hagree).1, hblind, (hnone blind hblind).1, ?_⟩
  rw [hnames r, haddresses]
  decide

end Text
end X86
