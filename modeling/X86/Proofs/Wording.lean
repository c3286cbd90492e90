import Mathlib.Data.List.Nodup
import X86.Proofs.Rendering
import X86.Proofs.SelfDelimiting

/-!
Lines read back. The names of registers and mnemonics consist of letters and digits and are all
different, and no mnemonic is spelled like a word for a prefix. So a line falls apart in one way only
into the words before the mnemonic, the mnemonic, and the texts of the operands.
-/

namespace X86
namespace Text

section Splitting

variable {α : Type}

/-- A list ends in one place only before an element that it does not have. -/
theorem append_inj_of_stop {a b x y : List α} {c : α} (ha : c ∉ a) (hb : c ∉ b)
    (hx : ∀ e ∈ x.head?, e = c) (hy : ∀ e ∈ y.head?, e = c) (h : a ++ x = b ++ y) :
    a = b ∧ x = y := by
  induction a generalizing b with
  | nil =>
    cases b with
    | nil => exact ⟨rfl, h⟩
    | cons e b =>
      rw [List.nil_append, List.cons_append] at h
      obtain rfl : e = c := hx e (by rw [h]; rfl)
      exact absurd List.mem_cons_self hb
  | cons e a ih =>
    cases b with
    | nil =>
      rw [List.nil_append, List.cons_append] at h
      obtain rfl : e = c := hy e (by rw [← h]; rfl)
      exact absurd List.mem_cons_self ha
    | cons e' b =>
      obtain ⟨rfl, htail⟩ := List.cons.inj h
      obtain ⟨rfl, hrest⟩ :=
        ih (mt (List.mem_cons_of_mem e) ha) (mt (List.mem_cons_of_mem e) hb) htail
      exact ⟨rfl, hrest⟩

theorem append_cons_inj {a b x y : List α} {c : α} (ha : c ∉ a) (hb : c ∉ b)
    (h : a ++ c :: x = b ++ c :: y) : a = b ∧ x = y := by
  obtain ⟨hab, hxy⟩ := append_inj_of_stop ha hb (by simp) (by simp) h
  exact ⟨hab, (List.cons.inj hxy).2⟩

/-- Texts with a separator between them can be told apart if a character of the separator occurs in
none of them. -/
theorem intercalate_inj {c : α} {u v : List α} (hu : c ∉ u) {as bs : List (List α)}
    (has : ∀ a ∈ as, c ∉ a) (hbs : ∀ b ∈ bs, c ∉ b) (hne : as ≠ []) (hne' : bs ≠ [])
    (h : (u ++ c :: v).intercalate as = (u ++ c :: v).intercalate bs) : as = bs := by
  induction as generalizing bs with
  | nil => exact absurd rfl hne
  | cons a as ih =>
    obtain ⟨b, bs, rfl⟩ := List.exists_cons_of_ne_nil hne'
    rw [List.forall_mem_cons] at has hbs
    have hau : c ∉ a ++ u := by simp [has.1, hu]
    have hbu : c ∉ b ++ u := by simp [hbs.1, hu]
    cases as with
    | nil =>
      cases bs with
      | nil => simpa using h
      | cons b' bs =>
        rw [List.intercalate_singleton, List.intercalate_cons_cons] at h
        exact absurd (by simp [h]) has.1
    | cons a' as =>
      cases bs with
      | nil =>
        rw [List.intercalate_singleton, List.intercalate_cons_cons] at h
        exact absurd (by simp [← h]) hbs.1
      | cons b' bs =>
        rw [List.intercalate_cons_cons, List.intercalate_cons_cons] at h
        have hsplit : (a ++ u) ++ c :: (v ++ (u ++ c :: v).intercalate (a' :: as)) =
            (b ++ u) ++ c :: (v ++ (u ++ c :: v).intercalate (b' :: bs)) := by
          simpa using h
        obtain ⟨hhead, htail⟩ := append_cons_inj hau hbu hsplit
        have hrest := ih has.2 hbs.2 (List.cons_ne_nil _ _) (List.cons_ne_nil _ _)
          (List.append_cancel_left htail)
        rw [List.append_cancel_right hhead, hrest]

end Splitting

def chars (ps : List Piece) : List Char :=
  (flatten ps).toList

@[simp] theorem chars_nil : chars [] = [] := rfl

@[simp] theorem chars_cons (p : Piece) (ps : List Piece) :
    chars (p :: ps) = p.toText.toList ++ chars ps := by
  rw [chars, flatten_cons, String.toList_append, chars]

@[simp] theorem chars_append (ps qs : List Piece) : chars (ps ++ qs) = chars ps ++ chars qs := by
  induction ps with
  | nil => rfl
  | cons p ps ih => simp [ih]

theorem chars_commaSeparated (pss : List (List Piece)) :
    chars (commaSeparated pss) = [',', ' '].intercalate (pss.map chars) := by
  fun_induction commaSeparated pss with
  | case1 => rfl
  | case2 ps => simp
  | case3 ps rest hne ih =>
    obtain ⟨qs, rest, rfl⟩ := List.exists_cons_of_ne_nil hne
    simp only [chars_append, ih, List.map_cons, List.intercalate_cons_cons]
    rfl

section Codes

/-- The bytes of a text as numbers. They are cheaper to compute with than its characters. -/
def codes (s : String) : List Nat :=
  s.toByteArray.data.toList.map UInt8.toNat

def isPlainCode (n : Nat) : Bool :=
  (48 ≤ n && n ≤ 57) || (97 ≤ n && n ≤ 122)

def lowerCode (n : Nat) : Nat :=
  if 65 ≤ n ∧ n ≤ 90 then n + 32 else n

/-- Codes as one number, which orders them as a dictionary does as far as `places` go. -/
def rank : (places : Nat) → List Nat → Nat
  | places + 1, n :: ns => n * 256 ^ places + rank places ns
  | _, _ => 0

theorem codes_eq_flatMap (s : String) :
    codes s = s.toList.flatMap fun c => (String.utf8EncodeChar c).map UInt8.toNat := by
  rw [codes, ← String.utf8Encode_toList, List.utf8Encode, List.data_toByteArray, List.map_flatMap]

theorem encode_ascii {c : Char} (h : ∀ n ∈ (String.utf8EncodeChar c).map UInt8.toNat, n < 128) :
    (String.utf8EncodeChar c).map UInt8.toNat = [c.toNat] := by
  unfold String.utf8EncodeChar at h ⊢
  dsimp only at h ⊢
  by_cases hascii : c.val.toNat ≤ 127
  · have hbyte : (UInt8.ofNat c.val.toNat).toNat = c.val.toNat :=
      UInt8.toNat_ofNat_of_lt' (Nat.lt_of_le_of_lt hascii (by decide))
    rw [if_pos hascii, List.map_singleton, hbyte]
    rfl
  · rw [if_neg hascii] at h
    have hhead {n : Nat} {bs : List UInt8} (hn : 128 ≤ n ∧ n < 256)
        (hbs : ∀ k ∈ (UInt8.ofNat n :: bs).map UInt8.toNat, k < 128) : False := by
      have hlt := hbs _ List.mem_cons_self
      rw [UInt8.toNat_ofNat_of_lt' hn.2] at hlt
      omega
    split at h
    · exact (hhead (by omega) h).elim
    · split at h
      · exact (hhead (by omega) h).elim
      · exact (hhead (by omega) h).elim

theorem codes_eq {s : String} (h : ∀ n ∈ codes s, n < 128) : codes s = s.toList.map Char.toNat := by
  rw [codes_eq_flatMap] at h ⊢
  generalize s.toList = cs at h ⊢
  induction cs with
  | nil => rfl
  | cons c cs ih =>
    rw [List.flatMap_cons, List.forall_mem_append] at h
    rw [List.flatMap_cons, encode_ascii h.1, ih h.2, List.map_cons, List.singleton_append]

theorem toNat_toLower (c : Char) : c.toLower.toNat = lowerCode c.toNat := by
  unfold Char.toLower lowerCode
  by_cases h : c.val ≥ 'A'.val ∧ c.val ≤ 'Z'.val
  · have h' : 65 ≤ c.toNat ∧ c.toNat ≤ 90 := h
    rw [dif_pos h, if_pos h']
    show (c.val + 32).toNat = c.toNat + 32
    have hlt : c.val.toNat + 32 < 2 ^ 32 :=
      Nat.lt_of_le_of_lt (Nat.add_le_add_right h'.2 32) (by decide)
    exact (UInt32.toNat_add c.val 32).trans (Nat.mod_eq_of_lt hlt)
  · have h' : ¬ (65 ≤ c.toNat ∧ c.toNat ≤ 90) := h
    rw [dif_neg h, if_neg h']

def IsPlain (cs : List Char) : Prop :=
  ∀ c ∈ cs, c.isAlphanum = true

theorem IsPlain.append {cs cs' : List Char} (h : IsPlain cs) (h' : IsPlain cs') :
    IsPlain (cs ++ cs') :=
  List.forall_mem_append.mpr ⟨h, h'⟩

theorem IsPlain.notMem {cs : List Char} (h : IsPlain cs) {c : Char} (hc : c.isAlphanum = false) :
    c ∉ cs := by
  intro hmem
  rw [h c hmem] at hc
  cases hc

theorem isAlphanum_of_isPlainCode {c : Char} (h : isPlainCode c.toNat = true) :
    c.isAlphanum = true := by
  simp only [isPlainCode, Bool.or_eq_true, Bool.and_eq_true, decide_eq_true_eq] at h
  show (c.isUpper || c.isLower || c.isDigit) = true
  obtain ⟨hlow, hhigh⟩ | ⟨hlow, hhigh⟩ := h
  · have hdigit : c.isDigit = true :=
      Bool.and_eq_true_iff.mpr ⟨decide_eq_true hlow, decide_eq_true hhigh⟩
    rw [hdigit, Bool.or_true]
  · have hletter : c.isLower = true :=
      Bool.and_eq_true_iff.mpr ⟨decide_eq_true hlow, decide_eq_true hhigh⟩
    rw [hletter, Bool.or_true, Bool.true_or]

theorem isPlain_of_codes {cs : List Char} (h : (cs.map Char.toNat).all isPlainCode = true) :
    IsPlain cs := by
  intro c hc
  exact isAlphanum_of_isPlainCode (List.all_eq_true.mp h _ (List.mem_map_of_mem hc))

theorem isPlainCode_lt {n : Nat} (h : isPlainCode n = true) : n < 128 := by
  simp only [isPlainCode, Bool.or_eq_true, Bool.and_eq_true, decide_eq_true_eq] at h
  omega

end Codes

section Numerals

theorem forall_mem_toDigits {p : Char → Prop} (h : ∀ k : Fin 16, p (Nat.digitChar k)) (n : Nat) :
    ∀ c ∈ Nat.toDigits 16 n, p c := by
  have hdigit {k : Nat} (hk : k < 16) : ∀ c ∈ [Nat.digitChar k], p c := by
    intro c hc
    rw [List.mem_singleton.mp hc]
    exact h ⟨k, hk⟩
  induction n using Nat.strongRecOn with
  | _ n ih =>
    rw [Nat.toDigits_eq_if (by decide)]
    split
    · next hlt => exact hdigit hlt
    · exact List.forall_mem_append.mpr ⟨ih (n / 16) (by omega), hdigit (Nat.mod_lt n (by decide))⟩

theorem isPlain_toDigits (n : Nat) : IsPlain (Nat.toDigits 16 n) :=
  forall_mem_toDigits (by decide) n

theorem toList_hex (n : Nat) : (hex n).toList = '0' :: 'x' :: Nat.toDigits 16 n := by
  rw [hex, hexDigits, String.toList_append, String.toList_ofList (l := Nat.toDigits 16 n)]
  rfl

theorem isPlain_hex (n : Nat) : IsPlain (hex n).toList := by
  rw [toList_hex]
  have hmark : IsPlain ['0', 'x'] := isPlain_of_codes (by decide)
  exact hmark.append (isPlain_toDigits n)

theorem isPlain_toString (n : Nat) : IsPlain (toString n).toList := by
  intro c hc
  rw [Nat.toString_eq_repr, Nat.toList_repr] at hc
  have hdigit := Nat.isDigit_of_mem_toDigits (by decide) (by decide) hc
  rw [Char.isAlphanum, hdigit, Bool.or_true]

end Numerals

end Text

namespace Text

def prefixVocabulary : List String :=
  ["o16", "o32", "a16", "a32", "es", "cs", "ss", "ds", "fs", "gs", "lock", "rep", "repe", "repne"]

theorem prefixVocabulary_codes :
    (prefixVocabulary.all fun w => (codes w).all isPlainCode) = true := by
  decide

theorem codes_word {w : String} (h : w ∈ prefixVocabulary) : codes w = w.toList.map Char.toNat :=
  codes_eq fun n hn =>
    isPlainCode_lt (List.all_eq_true.mp (List.all_eq_true.mp prefixVocabulary_codes w h) n hn)

theorem isPlain_word {w : String} (h : w ∈ prefixVocabulary) : IsPlain w.toList := by
  apply isPlain_of_codes
  rw [← codes_word h]
  exact List.all_eq_true.mp prefixVocabulary_codes w h

end Text

def Mnemonic.lowerCodes (m : Mnemonic) : List Nat :=
  (Text.codes m.name).map Text.lowerCode

open Text in
/-- What has to be computed about names. Registers and mnemonics have plain names; no mnemonic is
spelled like a prefix word; the names of registers are distinct, and mnemonics are declared in the
order of their names, behind the one that stands for none. -/
theorem names_computed :
    (Register.all.all fun r => (codes r.name).all isPlainCode) = true ∧
      (Register.all.map fun r => rank 5 (codes r.name)).Nodup ∧
      (Mnemonic.all.all fun m => m.lowerCodes.all isPlainCode &&
        !(prefixVocabulary.map codes).contains m.lowerCodes) = true ∧
      ((Mnemonic.all.drop 1).map fun m => rank 20 m.lowerCodes).IsChain (· < ·) := by
  decide +kernel

namespace Register

open Text

theorem isPlain_name (r : Register) : IsPlain r.name.toList := by
  have hcodes := List.all_eq_true.mp names_computed.1 r (mem_all r)
  apply isPlain_of_codes
  rwa [← codes_eq fun n hn => isPlainCode_lt (List.all_eq_true.mp hcodes n hn)]

theorem name_injective {r r' : Register} (h : r.name = r'.name) : r = r' :=
  List.inj_on_of_nodup_map names_computed.2.1 (mem_all r) (mem_all r') (by rw [h])

end Register

namespace Mnemonic

open Text

def lowerName (m : Mnemonic) : List Char :=
  m.name.toList.map Char.toLower

theorem mem_all (m : Mnemonic) : m ∈ all := by
  have hlt : m.ctorIdx < 617 := by cases m <;> decide
  exact List.mem_map.mpr ⟨m.ctorIdx, List.mem_range.mpr hlt, ofNat_ctorIdx m⟩

variable {m m' : Mnemonic}

theorem all_eq_cons : all = .INVALID :: all.drop 1 := by
  rw [all, show List.range 617 = 0 :: (List.range 616).map Nat.succ from List.range_succ_eq_map]
  rfl

theorem lowerCodes_eq (m : Mnemonic) : m.lowerCodes = m.lowerName.map Char.toNat := by
  have hall := List.all_eq_true.mp names_computed.2.2.1 m (mem_all m)
  rw [Bool.and_eq_true] at hall
  have hascii : ∀ n ∈ codes m.name, n < 128 := by
    intro n hn
    have hlt := isPlainCode_lt (List.all_eq_true.mp hall.1 _ (List.mem_map_of_mem hn))
    unfold lowerCode at hlt
    split at hlt
    · omega
    · exact hlt
  rw [lowerCodes, codes_eq hascii, lowerName, List.map_map, List.map_map]
  exact List.map_congr_left fun c _ => (toNat_toLower c).symm

theorem isPlain_lowerName (m : Mnemonic) : IsPlain m.lowerName := by
  have hall := List.all_eq_true.mp names_computed.2.2.1 m (mem_all m)
  rw [Bool.and_eq_true, lowerCodes_eq] at hall
  exact isPlain_of_codes hall.1

theorem lowerName_notMem (m : Mnemonic) : m.lowerName ∉ prefixVocabulary.map String.toList := by
  intro hmem
  obtain ⟨w, hw, heq⟩ := List.mem_map.mp hmem
  have hall := List.all_eq_true.mp names_computed.2.2.1 m (mem_all m)
  rw [Bool.and_eq_true, lowerCodes_eq, ← heq, ← codes_word hw, Bool.not_eq_true',
    ← Bool.not_eq_true, List.contains_iff_mem] at hall
  exact hall.2 (List.mem_map_of_mem hw)

theorem lowerName_injective (hm : m ≠ .INVALID) (hm' : m' ≠ .INVALID)
    (h : m.lowerName = m'.lowerName) : m = m' := by
  have hmem {m : Mnemonic} (hm : m ≠ .INVALID) : m ∈ all.drop 1 := by
    have hm' := mem_all m
    rw [all_eq_cons, List.mem_cons] at hm'
    exact hm'.resolve_left hm
  have hnodup : ((all.drop 1).map fun m => rank 20 m.lowerCodes).Nodup :=
    (List.isChain_iff_pairwise.mp names_computed.2.2.2).imp fun hlt => Nat.ne_of_lt hlt
  refine List.inj_on_of_nodup_map hnodup (hmem hm) (hmem hm') ?_
  rw [lowerCodes_eq, lowerCodes_eq, h]

end Mnemonic

namespace Text

section Lines

/-- Some pieces that are words for prefixes, each with the blank after it. -/
def ArePrefixes (ps : List Piece) : Prop :=
  ∃ ws, ws ⊆ prefixVocabulary ∧ ps = ws.flatMap prefixPieces

theorem arePrefixes_nil : ArePrefixes [] :=
  ⟨[], List.nil_subset _, rfl⟩

theorem arePrefixes_prefixPieces {w : String} (h : w ∈ prefixVocabulary) :
    ArePrefixes (prefixPieces w) :=
  ⟨[w], List.cons_subset.mpr ⟨h, List.nil_subset _⟩, by simp⟩

theorem ArePrefixes.append {ps qs : List Piece} (hp : ArePrefixes ps) (hq : ArePrefixes qs) :
    ArePrefixes (ps ++ qs) := by
  obtain ⟨ws, hws, rfl⟩ := hp
  obtain ⟨ws', hws', rfl⟩ := hq
  exact ⟨ws ++ ws', List.append_subset.mpr ⟨hws, hws'⟩, List.flatMap_append.symm⟩

theorem ArePrefixes.ite {p : Prop} [Decidable p] {ps qs : List Piece} (hp : ArePrefixes ps)
    (hq : ArePrefixes qs) : ArePrefixes (if p then ps else qs) := by
  split
  · exact hp
  · exact hq

theorem arePrefixes_prefixWords (i : Instruction) : ArePrefixes (prefixWords i) := by
  have hone {w : String} (h : w ∈ prefixVocabulary) {p : Prop} [Decidable p] {qs : List Piece}
      (hq : ArePrefixes qs) : ArePrefixes (if p then prefixPieces w else qs) :=
    (arePrefixes_prefixPieces h).ite hq
  have hsize : ArePrefixes (sizeWords i) := by
    refine (ArePrefixes.ite (arePrefixes_prefixPieces ?_) arePrefixes_nil).append
      (ArePrefixes.ite (arePrefixes_prefixPieces ?_) arePrefixes_nil)
    · split <;> decide
    · split <;> decide
  have hsegment : ArePrefixes (segmentWord i) := by
    unfold segmentWord
    cases i.prefixes.segment with
    | none => exact arePrefixes_nil
    | some g =>
      refine arePrefixes_nil.ite (arePrefixes_prefixPieces ?_)
      cases g <;> decide
  have hlock : ArePrefixes (lockWord i) := hone (by decide) arePrefixes_nil
  have hrepeat : ArePrefixes (repeatWord i) :=
    hone (by decide) (hone (by decide) (hone (by decide) arePrefixes_nil))
  exact ((hsize.append hsegment).append hlock).append hrepeat

/-- What a line begins with: the words before the mnemonic, and the mnemonic, which is none of these
words. -/
theorem leading_inj {ps ps' : List Piece} (hp : ArePrefixes ps) (hp' : ArePrefixes ps')
    {w w' x x' : List Char} (hw : w ∉ prefixVocabulary.map String.toList)
    (hw' : w' ∉ prefixVocabulary.map String.toList) (hblank : ' ' ∉ w) (hblank' : ' ' ∉ w')
    (h : chars ps ++ (w ++ ' ' :: x) = chars ps' ++ (w' ++ ' ' :: x')) : w = w' ∧ x = x' := by
  have hvocabulary : ∀ v ∈ prefixVocabulary, ' ' ∉ v.toList := by
    intro v hv
    exact (isPlain_word hv).notMem (by decide)
  have hfirst (v : String) (ws : List String) : chars ((v :: ws).flatMap prefixPieces) =
      v.toList ++ ' ' :: chars (ws.flatMap prefixPieces) := by
    rw [List.flatMap_cons, chars_append]
    simp [prefixPieces, Piece.prefixWord, Piece.space, Piece.toText]
  obtain ⟨ws, hws, rfl⟩ := hp
  obtain ⟨ws', hws', rfl⟩ := hp'
  -- The words are compared one by one; the mnemonic cannot be taken for one more of them.
  induction ws generalizing ws' with
  | nil =>
    cases ws' with
    | nil => exact append_cons_inj hblank hblank' h
    | cons v ws' =>
      rw [List.cons_subset] at hws'
      rw [hfirst, List.append_assoc, List.cons_append] at h
      obtain ⟨heq, -⟩ := append_cons_inj hblank (hvocabulary v hws'.1) h
      exact absurd (heq ▸ List.mem_map_of_mem hws'.1) hw
  | cons v ws ih =>
    rw [List.cons_subset] at hws
    rw [hfirst, List.append_assoc, List.cons_append] at h
    cases ws' with
    | nil =>
      obtain ⟨heq, -⟩ := append_cons_inj (hvocabulary v hws.1) hblank' h
      exact absurd (heq ▸ List.mem_map_of_mem hws.1) hw'
    | cons v' ws' =>
      rw [List.cons_subset] at hws'
      rw [hfirst, List.append_assoc, List.cons_append] at h
      obtain ⟨-, hrest⟩ := append_cons_inj (hvocabulary v hws.1) (hvocabulary v' hws'.1) h
      exact ih hws.2 ws' hws'.2 hrest

theorem toList_translate {i : Instruction} (dialect : Dialect) (herror : i.error = none)
    (hmnemonic : i.mnemonic ≠ .INVALID) (hcount : i.operandCount ≠ 0) :
    (Translator.translate ⟨dialect, {}⟩ i).toList = chars (prefixWords i) ++
      (chars (Translator.mnemonic ⟨dialect, {}⟩ i) ++
        ' ' :: chars (Translator.operands ⟨dialect, {}⟩ i)) := by
  have hvalid : (i.isError || i.mnemonic = .INVALID) = false := by
    simp [Instruction.isError, herror, hmnemonic]
  show chars (Translator.pieces _ i) = _
  rw [Translator.pieces, hvalid, Translator.body, if_neg hcount]
  simp [columns, Piece.space, Piece.toText]

end Lines

section Spelling

def Spells (marks cs : List Char) : Prop :=
  ∀ c ∈ cs, c.isAlphanum = true ∨ c ∈ marks

variable {marks cs cs' : List Char}

@[simp] theorem spells_nil : Spells marks [] :=
  fun _ h => absurd h List.not_mem_nil

@[simp] theorem spells_append : Spells marks (cs ++ cs') ↔ Spells marks cs ∧ Spells marks cs' :=
  List.forall_mem_append

theorem IsPlain.spells (h : IsPlain cs) : Spells marks cs :=
  fun c hc => Or.inl (h c hc)

theorem spells_mark {c : Char} (h : c ∈ marks) : Spells marks [c] :=
  fun _ hc => Or.inr (List.mem_singleton.mp hc ▸ h)

theorem spells_of_all (h : (cs.all fun c => c.isAlphanum || marks.contains c) = true) :
    Spells marks cs := by
  intro c hc
  simpa using List.all_eq_true.mp h c hc

theorem Spells.notMem (h : Spells marks cs) {c : Char} (hplain : c.isAlphanum = false)
    (hmarks : c ∉ marks) : c ∉ cs := by
  intro hc
  obtain hc' | hc' := h c hc
  · rw [hplain] at hc'
    cases hc'
  · exact hmarks hc'

theorem spells_ite {p : Prop} [Decidable p] {ps qs : List Piece} (hp : Spells marks (chars ps))
    (hq : Spells marks (chars qs)) : Spells marks (chars (if p then ps else qs)) := by
  split
  · exact hp
  · exact hq

theorem spells_displacement (m : MemoryOperand) (plus : Bool) (hminus : '-' ∈ marks)
    (hplus : plus = true → '+' ∈ marks) : Spells marks (chars (displacementPieces {} m plus)) := by
  have hhex (n : Nat) : Spells marks (chars [.displacement (hex n)]) := by
    simpa [Piece.displacement, Piece.toText] using (isPlain_hex n).spells
  unfold displacementPieces
  refine spells_ite spells_nil (spells_ite ?_ (spells_ite ?_ (spells_ite ?_ spells_nil)))
  · exact hhex _
  · rw [chars_cons, spells_append]
    exact ⟨spells_mark hminus, hhex _⟩
  · rw [chars_append, spells_append]
    refine ⟨?_, hhex _⟩
    cases plus with
    | false => exact spells_nil
    | true => exact spells_mark (hplus rfl)

theorem spells_target (a : UInt64) : Spells marks (chars (targetPieces {} a)) := by
  show Spells marks (chars [.pointer (hex a.toNat)])
  simpa [Piece.pointer, Piece.toText] using (isPlain_hex a.toNat).spells

theorem spells_register (r : Register) : Spells marks (chars [.register r.name]) := by
  simpa [Piece.register, Piece.toText] using r.isPlain_name.spells

end Spelling

end Text

theorem decode_writes {t : Target} {b : Array UInt8} {pc : UInt64} {mnemonic : Mnemonic}
    {ops : Vector Operand 4} {translator : Text.Translator} {text : String}
    (h : Decode.delivers t (.ofArray b) 0 pc true fun i => i.error = none ∧ i.isFar = false ∧
      i.mnemonic = mnemonic ∧ i.operands = ops ∧ translator.translate i = text) :
    (decode t b pc).error = none ∧ (decode t b pc).isFar = false ∧
      (decode t b pc).mnemonic = mnemonic ∧ (decode t b pc).operands = ops ∧
      translator.translate (decode t b pc) = text :=
  Decode.decodeAt_of_delivers h

end X86
