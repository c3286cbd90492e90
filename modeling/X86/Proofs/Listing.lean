import X86.CommandLine.Listing
import X86.Proofs.AttMemorySize
import X86.Proofs.HexInput
import X86.Proofs.IntelMemorySize
import X86.Proofs.Partition

/-!
What the command prints. A line consists of letters, digits and a few marks, so the output falls apart
into its lines again; and a column has no blank inside, so a line falls apart into its fields. The byte
column is read back as the bytes of the instruction and the address column as its address.
-/

namespace X86
namespace Text

def IsLowerHex (cs : List Char) : Prop :=
  ∀ c ∈ cs, c ∈ CommandLine.hexAlphabet

/-- A hexadecimal numeral of at least `width` digits, with zeros in front only to fill that width. -/
structure IsNumeral (width : Nat) (cs : List Char) (n : Nat) : Prop where
  lower : IsLowerHex cs
  value : digitsValue? 16 cs = some n
  width_le : width ≤ cs.length
  tight : width < cs.length → 16 ^ (cs.length - 1) ≤ n

section Numerals

theorem IsLowerHex.append {cs cs' : List Char} (h : IsLowerHex cs) (h' : IsLowerHex cs') :
    IsLowerHex (cs ++ cs') :=
  List.forall_mem_append.mpr ⟨h, h'⟩

theorem IsLowerHex.isPlain {cs : List Char} (h : IsLowerHex cs) : IsPlain cs := by
  have halphabet : IsPlain CommandLine.hexAlphabet := isPlain_of_codes (by decide)
  exact fun c hc => halphabet c (h c hc)

theorem digitChar_computed : ∀ k : Fin 16, Nat.digitChar k ∈ CommandLine.hexAlphabet ∧
    digitValue? 16 (Nat.digitChar k) = some k.val := by
  decide

theorem isLowerHex_digitChar {k : Nat} (h : k < 16) : IsLowerHex [Nat.digitChar k] := by
  intro c hc
  rw [List.mem_singleton.mp hc]
  exact (digitChar_computed ⟨k, h⟩).1

theorem isLowerHex_toDigits (n : Nat) : IsLowerHex (Nat.toDigits 16 n) :=
  forall_mem_toDigits (fun k => (digitChar_computed k).1) n

theorem digitsValue?_eq {cs : List Char} (h : cs ≠ []) :
    digitsValue? 16 cs = cs.foldlM (fun n c => (digitValue? 16 c).map (n * 16 + ·)) 0 := by
  cases cs with
  | nil => exact absurd rfl h
  | cons c cs => rfl

theorem digitsValue?_toDigits (n : Nat) : digitsValue? 16 (Nat.toDigits 16 n) = some n := by
  rw [digitsValue?_eq Nat.toDigits_ne_nil]
  induction n using Nat.strongRecOn with
  | _ n ih =>
    rw [Nat.toDigits_eq_if (by decide)]
    split
    · next h => simp [(digitChar_computed ⟨n, h⟩).2]
    · rw [List.foldlM_append, ih (n / 16) (by omega)]
      have hlast := (digitChar_computed ⟨n % 16, Nat.mod_lt n (by decide)⟩).2
      simp [hlast]
      omega

theorem digitsValue?_zeros (k : Nat) {cs : List Char} (h : cs ≠ []) :
    digitsValue? 16 (List.replicate k '0' ++ cs) = digitsValue? 16 cs := by
  induction k with
  | zero => rfl
  | succ k ih =>
    have hne : List.replicate k '0' ++ cs ≠ [] := by simp [h]
    rw [← ih, List.replicate_succ, List.cons_append, digitsValue?_eq (List.cons_ne_nil _ _),
      digitsValue?_eq hne, List.foldlM_cons]
    rfl

theorem paddedHex_isNumeral {width : Nat} (h : 0 < width) (n : Nat) :
    IsNumeral width (paddedHex width n).toList n := by
  have htext : (paddedHex width n).toList =
      List.replicate (width - (Nat.toDigits 16 n).length) '0' ++ Nat.toDigits 16 n :=
    String.toList_ofList
  rw [htext]
  refine ⟨?_, ?_, ?_, ?_⟩
  · refine IsLowerHex.append ?_ (isLowerHex_toDigits n)
    intro c hc
    rw [List.eq_of_mem_replicate hc]
    decide
  · rw [digitsValue?_zeros _ Nat.toDigits_ne_nil, digitsValue?_toDigits]
  · rw [List.length_append, List.length_replicate]
    omega
  · rw [List.length_append, List.length_replicate]
    intro hlong
    -- no zeros stand in front then, and the digits of a number are as few as can be
    have hdigits := @Nat.length_toDigits_le_iff 16 n ((Nat.toDigits 16 n).length - 1) (by decide)
      (by omega)
    have hnot : ¬ n < 16 ^ ((Nat.toDigits 16 n).length - 1) := by
      rw [← hdigits]
      omega
    have hzero : width - (Nat.toDigits 16 n).length = 0 := by omega
    rw [hzero, Nat.zero_add]
    exact Nat.not_lt.mp hnot

theorem IsNumeral.length_eq {width n : Nat} {cs : List Char} (h : IsNumeral width cs n)
    (hn : n < 16 ^ width) : cs.length = width := by
  refine Nat.le_antisymm (Nat.not_lt.mp fun hlong => ?_) h.width_le
  have hpow : 16 ^ width ≤ 16 ^ (cs.length - 1) := Nat.pow_le_pow_right (by decide) (by omega)
  exact absurd (Nat.lt_of_lt_of_le hn hpow) (Nat.not_lt.mpr (h.tight hlong))

end Numerals

section Bytes

theorem toList_hexBytes (bs : List UInt8) :
    (hexBytes bs).toList = bs.flatMap fun b => (hexByte b).toList := by
  rw [hexBytes, String.toList_join, List.flatMap_map]

theorem toList_hexByte (b : UInt8) :
    (hexByte b).toList = [Nat.digitChar (b.toNat / 16), Nat.digitChar (b.toNat % 16)] :=
  String.toList_ofList

theorem hexBytes_denotes (bs : List UInt8) :
    CommandLine.Denotes (hexBytes bs).toList bs ∧ IsLowerHex (hexBytes bs).toList := by
  have hdigit {k : Nat} (hk : k < 16) : Token.isHexDigit (Nat.digitChar k) = true ∧
      CommandLine.hexValue (Nat.digitChar k) = k :=
    CommandLine.digitValue?_eq_some.mp (digitChar_computed ⟨k, hk⟩).2
  rw [toList_hexBytes]
  induction bs with
  | nil => exact ⟨⟨rfl, rfl, rfl⟩, fun c hc => absurd hc List.not_mem_nil⟩
  | cons b bs ih =>
    have hb : b.toNat < 256 := b.toNat_lt
    have hhigh : b.toNat / 16 < 16 := by omega
    have hlow : b.toNat % 16 < 16 := by omega
    rw [List.flatMap_cons, toList_hexByte]
    refine ⟨CommandLine.denotes_cons_cons.mpr ⟨⟨(hdigit hhigh).1, (hdigit hlow).1, ?_⟩, ih.1⟩,
      ((isLowerHex_digitChar hhigh).append (isLowerHex_digitChar hlow)).append ih.2⟩
    rw [(hdigit hhigh).2, (hdigit hlow).2, Nat.div_add_mod, UInt8.ofNat_toNat]

end Bytes

/-- The part of a line before its first blank. -/
def firstField (line : List Char) : List Char :=
  line.takeWhile (· != ' ')

section Fields

theorem firstField_append {cs : List Char} (h : ' ' ∉ cs) (rest : List Char) :
    firstField (cs ++ ' ' :: rest) = cs := by
  have hcs : ∀ c ∈ cs, (c != ' ') = true := by
    intro c hc
    rw [bne_iff_ne]
    rintro rfl
    exact h hc
  rw [firstField, List.takeWhile_append_of_pos hcs, List.takeWhile_cons_of_neg (by decide),
    List.append_nil]

variable (t : Translator) (i : Instruction)

theorem chars_pieces : (t.translate i).toList = chars (columns t.options i) ++
    chars (if i.isError || i.mnemonic = .INVALID then [.invalid] else t.body i) :=
  chars_append _ _

theorem chars_addressColumn : chars [addressColumn i] =
    (paddedHex (if i.mode.is64 then 16 else 8) i.offset.toNat).toList ++ [' '] := by
  simp [addressColumn, Piece.toText]

/-- The blank behind the column is one with those that fill it, so the first of them ends the digits. -/
theorem chars_binaryColumn {bs : List UInt8} (h : i.bytes = some bs) : chars (binaryColumn i) =
    (hexBytes bs).toList ++ ' ' :: List.replicate (16 - (hexBytes bs).length) ' ' := by
  simp [binaryColumn, h, Piece.toText, ← List.replicate_succ', ← List.replicate_succ]

theorem firstField_address (h : t.options.address = true) :
    IsNumeral (if i.mode.is64 then 16 else 8) (firstField (t.translate i).toList) i.offset.toNat := by
  have hnumeral : IsNumeral (if i.mode.is64 then 16 else 8)
      (paddedHex (if i.mode.is64 then 16 else 8) i.offset.toNat).toList i.offset.toNat :=
    paddedHex_isNumeral (by split <;> decide) _
  rw [chars_pieces, columns, if_pos h, chars_append, chars_addressColumn, List.append_assoc,
    List.append_assoc, List.singleton_append, firstField_append]
  · exact hnumeral
  · exact hnumeral.lower.isPlain.notMem (by decide)

theorem firstField_bytes {bs : List UInt8} (haddress : t.options.address = false)
    (hbinary : t.options.binary = true) (h : i.bytes = some bs) :
    firstField (t.translate i).toList = (hexBytes bs).toList := by
  have hblank : ' ' ∉ (hexBytes bs).toList := (hexBytes_denotes bs).2.isPlain.notMem (by decide)
  have hcolumns : columns t.options i = binaryColumn i := by
    simp [columns, haddress, hbinary]
  rw [chars_pieces, hcolumns, chars_binaryColumn i h, List.append_assoc, List.cons_append,
    firstField_append hblank]

theorem flatten_firstField (haddress : t.options.address = false) (hbinary : t.options.binary = true)
    {is : List Instruction} {kept : List (List UInt8)} (h : is.map (·.bytes) = kept.map some) :
    (is.map fun i => firstField (t.translate i).toList).flatten = (hexBytes kept.flatten).toList := by
  induction is generalizing kept with
  | nil =>
    cases kept with
    | nil => rfl
    | cons bs kept => cases h
  | cons i is ih =>
    cases kept with
    | nil => cases h
    | cons bs kept =>
      obtain ⟨hi, hrest⟩ := List.cons.inj h
      rw [List.map_cons, List.flatten_cons, firstField_bytes t i haddress hbinary hi, ih hrest]
      simp only [toList_hexBytes, List.flatten_cons, List.flatMap_append]

end Fields

def lineMarks : List Char :=
  Intel.marks ++ Att.marks

section Lines

variable (i : Instruction)

theorem Spells.mono {marks marks' cs : List Char} (h : Spells marks cs) (hsub : marks ⊆ marks') :
    Spells marks' cs :=
  fun c hc => (h c hc).imp_right fun hmark => hsub hmark

theorem spells_columns (o : Options) : Spells lineMarks (chars (columns o i)) := by
  have haddress : Spells lineMarks (chars [addressColumn i]) := by
    rw [chars_addressColumn, spells_append]
    exact ⟨(paddedHex_isNumeral (by split <;> decide) _).lower.isPlain.spells, spells_mark (by decide)⟩
  have hbinary : Spells lineMarks (chars (binaryColumn i)) := by
    cases hbytes : i.bytes with
    | none =>
      rw [binaryColumn, hbytes]
      exact spells_nil
    | some bs =>
      rw [chars_binaryColumn i hbytes, spells_append, ← List.replicate_succ]
      refine ⟨(hexBytes_denotes bs).2.isPlain.spells, fun c hc => .inr ?_⟩
      rw [List.eq_of_mem_replicate hc]
      decide
  rw [columns, chars_append, spells_append]
  exact ⟨spells_ite haddress spells_nil, spells_ite hbinary spells_nil⟩

theorem spells_prefixWords : Spells lineMarks (chars (prefixWords i)) := by
  obtain ⟨ws, hws, heq⟩ := arePrefixes_prefixWords i
  rw [heq]
  clear heq
  induction ws with
  | nil => exact spells_nil
  | cons w ws ih =>
    rw [List.cons_subset] at hws
    rw [List.flatMap_cons, chars_append, spells_append]
    refine ⟨?_, ih hws.2⟩
    rw [prefixPieces, chars_cons, spells_append]
    exact ⟨(isPlain_word hws.1).spells, spells_mark (by decide)⟩

theorem spells_commaSeparated {pss : List (List Piece)}
    (h : ∀ ps ∈ pss, Spells lineMarks (chars ps)) : Spells lineMarks (chars (commaSeparated pss)) := by
  rw [chars_commaSeparated]
  refine spells_intercalate (spells_of_all (by decide)) fun cs hcs => ?_
  obtain ⟨ps, hps, rfl⟩ := List.mem_map.mp hcs
  exact h ps hps

theorem Intel.spells_operands : Spells lineMarks (chars (operands {} i)) := by
  refine spells_commaSeparated fun ps hps => ?_
  obtain ⟨x, -, rfl⟩ := List.mem_map.mp hps
  exact (spells_operand i _ x.1).mono (List.subset_append_left _ _)

theorem Att.spells_operands : Spells lineMarks (chars (operands {} i)) := by
  have hsub : marks ⊆ lineMarks := List.subset_append_right _ _
  have hoperand (op : Operand) : Spells lineMarks (chars (operand {} i op)) := by
    by_cases hfar : ∃ p, op = .far p
    · obtain ⟨p, rfl⟩ := hfar
      rw [operand, chars_append, chars_append, spells_append, spells_append]
      exact ⟨⟨(spells_immediate _).mono hsub, spells_of_all (by decide)⟩, (spells_immediate _).mono hsub⟩
    · exact (spells_operand i fun p hp => hfar ⟨p, hp⟩).mono hsub
  rw [operands, chars_append, spells_append]
  refine ⟨spells_ite (spells_of_all (by decide)) spells_nil, spells_commaSeparated fun ps hps => ?_⟩
  obtain ⟨op, -, rfl⟩ := List.mem_map.mp hps
  exact hoperand op

theorem Att.isPlain_mnemonic : IsPlain (chars (mnemonic {} i)) := by
  have hname : IsPlain ((baseName i).toList.map Char.toLower) := by
    have hlong : IsPlain (("l" ++ i.mnemonic.name).toList.map Char.toLower) := by
      rw [String.toList_append, List.map_append]
      exact IsPlain.append (isPlain_of_codes (by decide)) i.mnemonic.isPlain_lowerName
    unfold baseName
    split
    · exact isPlain_of_codes (by decide)
    · split
      · exact hlong
      · exact i.mnemonic.isPlain_lowerName
    · split
      · exact hlong
      · exact i.mnemonic.isPlain_lowerName
    · exact i.mnemonic.isPlain_lowerName
  have hsuffix : IsPlain ((suffix i).toList.map Char.toLower) := by
    unfold suffix
    split
    · unfold sizeSuffix
      split
      all_goals exact isPlain_of_codes (by decide)
    · exact isPlain_of_codes (by decide)
  have hchars : chars (mnemonic {} i) =
      (baseName i).toList.map Char.toLower ++ (suffix i).toList.map Char.toLower := by
    simp [mnemonic, Piece.mnemonic, Piece.toText, Options.mnemonicCase]
  rw [hchars]
  exact hname.append hsuffix

theorem spells_body (dialect : Dialect) : Spells lineMarks (chars (Translator.body ⟨dialect, {}⟩ i)) := by
  have hmnemonic : Spells lineMarks (chars (Translator.mnemonic ⟨dialect, {}⟩ i)) := by
    cases dialect with
    | intel => exact (Intel.chars_mnemonic i ▸ i.mnemonic.isPlain_lowerName).spells
    | att => exact (Att.isPlain_mnemonic i).spells
  have hoperands : Spells lineMarks (chars (Translator.operands ⟨dialect, {}⟩ i)) := by
    cases dialect with
    | intel => exact Intel.spells_operands i
    | att => exact Att.spells_operands i
  rw [Translator.body, chars_append, chars_append, spells_append, spells_append]
  refine ⟨⟨spells_prefixWords i, hmnemonic⟩, spells_ite spells_nil ?_⟩
  rw [chars_cons, spells_append]
  exact ⟨spells_mark (by decide), hoperands⟩

theorem spells_translate (dialect : Dialect) (address binary : Bool) :
    Spells lineMarks (Translator.translate ⟨dialect, { address, binary }⟩ i).toList := by
  rw [chars_pieces, spells_append]
  refine ⟨spells_columns i _, spells_ite (spells_of_all (by decide)) ?_⟩
  exact spells_body i dialect

end Lines

end Text

namespace CommandLine

open Text Disassembler

def Arguments.disassembler (a : Arguments) (mode : Mode) (code : List UInt8) : Disassembler :=
  .atStart (.ofArray code.toArray) {
    target := ⟨mode, a.vendor⟩
    address := a.address
    keepBytes := !a.noBinary }

section Command

variable (a : Arguments) (mode : Mode) {code : List UInt8}

theorem listing_eq (h : code ≠ []) : listing a mode code =
    .ok ((a.disassembler mode code).instructions.map a.translator.translate) := by
  have hstart : 0 < (Source.ofArray code.toArray).length := List.length_pos_iff.mpr h
  have hlisting : listing a mode code =
      (Disassembler.new (a.disassembler mode code).source (a.disassembler mode code).options).map
        fun d => d.disassemble.1.map fun x => a.translator.translate x.1 := rfl
  rw [hlisting, new_of_lt hstart, instructions, List.map_map]
  rfl

theorem disassembler_sweep (code : List UInt8) : Sweep (.ofArray code.toArray)
    (a.disassembler mode code).options 0 (a.disassembler mode code).instructions :=
  (pull_sweep code.toArray.size (a.disassembler mode code) (Nat.zero_le _) (Nat.le_add_left _ _)).1

theorem instructions_getElem? {k : Nat} {i : Instruction}
    (hi : (a.disassembler mode code).instructions[k]? = some i) :
    i.mode = mode ∧ i.offset =
      a.address + UInt64.ofNat (totalLength ((a.disassembler mode code).instructions.take k)) := by
  obtain ⟨hk, rfl⟩ := List.getElem?_eq_some_iff.mp hi
  obtain ⟨heq, hlt⟩ := (disassembler_sweep a mode code).getElem_eq hk
  rw [heq]
  refine ⟨decodeAt_mode _ _ _ _ _, ?_⟩
  rw [instructionAt, (decodeAt_extent _ _ _ hlt).2.2.2.1, Nat.zero_add]
  rfl

theorem instructions_bytes (code : List UInt8) (h : a.noBinary = false) : ∃ kept : List (List UInt8),
    (a.disassembler mode code).instructions.map (·.bytes) = kept.map some ∧ kept.flatten = code := by
  have hkeep : (a.disassembler mode code).options.keepBytes = true := by
    simp [Arguments.disassembler, atStart, h]
  obtain ⟨kept, hkept, hcode⟩ := (disassembler_sweep a mode code).kept hkeep
  exact ⟨kept, hkept, hcode.trans (slice_ofArray code.toArray)⟩

theorem splitOn_listed {ls : List String} (h : ∀ l ∈ ls, '\n' ∉ l.toList) :
    (Outcome.listed ls).stdout.toList.splitOn '\n' = ls.map String.toList ++ [[]] := by
  have hstdout (ls : List String) : (Outcome.listed ls).stdout.toList =
      ls.flatMap fun l => l.toList ++ ['\n'] := by
    simp [Outcome.listed, String.toList_join, List.flatMap_map]
  rw [hstdout]
  induction ls with
  | nil => rfl
  | cons l ls ih =>
    rw [List.forall_mem_cons] at h
    rw [List.flatMap_cons, List.append_assoc, List.singleton_append,
      List.splitOn_append_cons_self_of_not_mem h.1, ih h.2]
    rfl

theorem runWith_eq_listed {parse : List String → Except Stop Arguments} {args : List String}
    {input : List UInt8} {a : Arguments} {mode : Mode} (hargs : parse args = .ok a) (hmode : Mode.ofBits a.mode = .ok mode)
    (hinput : readInput input = .ok code) (h : code ≠ []) :
    runWith parse args input =
      .listed ((a.disassembler mode code).instructions.map a.translator.translate) := by
  have hlines : lines a mode input =
      .ok ((a.disassembler mode code).instructions.map a.translator.translate) := by
    rw [lines, hinput]
    show (listing a mode code).mapError Failure.misuse = _
    rw [listing_eq a mode h]
    rfl
  simp only [runWith, prepare, hargs, Except.mapError, bind, Except.bind, hmode, pure, Except.pure, hlines]

end Command

/-- The listing loses no byte, however the arguments are parsed. Machine code that the command reads is
printed as one line for each of its instructions. If lines begin with the bytes, the parts of the lines
before their first blanks make up the machine code in hexadecimal; if they begin with the address, that
part is the sum of the given address and the lengths of the instructions before, in eight digits or
more, or in sixteen. -/
theorem run_lists_every_byte (parse : List String → Except Stop Arguments) (args : List String)
    (input : List UInt8) {a : Arguments} {mode : Mode} {code : List UInt8} (hargs : parse args = .ok a)
    (hmode : Mode.ofBits a.mode = .ok mode) (hinput : readInput input = .ok code) (h : code ≠ []) :
    let is := (a.disassembler mode code).instructions
    let lines := is.map fun i => (a.translator.translate i).toList
    (runWith parse args input).status = 0 ∧ (runWith parse args input).stderr = "" ∧
    (runWith parse args input).stdout.toList.splitOn '\n' = lines ++ [[]] ∧
    (a.noAddress = true → a.noBinary = false →
      Denotes (lines.map firstField).flatten code ∧ IsLowerHex (lines.map firstField).flatten) ∧
    (a.noAddress = false → ∀ k line, lines[k]? = some line →
      IsNumeral (if mode.is64 then 16 else 8) (firstField line)
        (a.address + UInt64.ofNat (totalLength (is.take k))).toNat ∧
      (mode.is64 = true → (firstField line).length = 16)) := by
  intro is lines
  have hlines : ∀ l ∈ is.map a.translator.translate, '\n' ∉ l.toList := by
    intro l hl
    obtain ⟨i, -, rfl⟩ := List.mem_map.mp hl
    exact (spells_translate i _ _ _).notMem (by decide) (by decide)
  rw [runWith_eq_listed hargs hmode hinput h, splitOn_listed hlines, List.map_map]
  refine ⟨rfl, rfl, rfl, fun haddress hbinary => ?_, fun haddress k line hline => ?_⟩
  · obtain ⟨kept, hkept, hcode⟩ := instructions_bytes a mode code hbinary
    have hfields := flatten_firstField a.translator (by simp [Arguments.translator, haddress])
      (by simp [Arguments.translator, hbinary]) hkept
    rw [List.map_map, ← hcode]
    exact hfields ▸ hexBytes_denotes kept.flatten
  · rw [List.getElem?_map, Option.map_eq_some_iff] at hline
    obtain ⟨i, hi, rfl⟩ := hline
    obtain ⟨hi64, hoffset⟩ := instructions_getElem? a mode hi
    have hnumeral := firstField_address a.translator i (by simp [Arguments.translator, haddress])
    rw [hi64, hoffset] at hnumeral
    refine ⟨hnumeral, fun h64 => ?_⟩
    rw [if_pos h64] at hnumeral
    exact hnumeral.length_eq (UInt64.toNat_lt _)

/-- A no-op and the beginning of another instruction, at the end of the address space. -/
theorem run_lists_every_byte_wrapping :
    let input := "90 0f".toUTF8.data.toList
    readInput input = .ok [0x90, 0x0F] ∧
    Denotes (((run ["64", "--no-address"] input).stdout.toList.splitOn '\n').map firstField).flatten
      [0x90, 0x0F] ∧
    ∀ line ∈ (run ["64", "-a", "ffffffffffffffff"] input).stdout.toList.splitOn '\n',
      line ≠ [] → (firstField line).length = 16 := by
  intro input
  have hinput : readInput "90 0f".toUTF8.data.toList = .ok [0x90, 0x0F] := rfl
  refine ⟨hinput, ?_, ?_⟩
  · have hargs : Arguments.parse ["64", "--no-address"] = .ok { mode := 64, noAddress := true } := rfl
    obtain ⟨-, -, hsplit, hbytes, -⟩ := run_lists_every_byte Arguments.parse _ input hargs rfl hinput (by decide)
    rw [run, hsplit, List.map_append, List.flatten_append]
    simpa [firstField] using (hbytes rfl rfl).1
  · have hargs : Arguments.parse ["64", "-a", "ffffffffffffffff"] =
        .ok { mode := 64, address := 0xFFFFFFFFFFFFFFFF } := rfl
    obtain ⟨-, -, hsplit, -, haddress⟩ := run_lists_every_byte Arguments.parse _ input hargs rfl hinput (by decide)
    intro line hline hne
    rw [run, hsplit, List.mem_append, List.mem_singleton] at hline
    obtain ⟨k, hk⟩ := List.mem_iff_getElem?.mp (hline.resolve_right hne)
    exact (haddress rfl k line hk).2 rfl

end CommandLine
end X86
