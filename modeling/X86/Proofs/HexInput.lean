import X86.CommandLine.HexInput
import X86.Text.Token

/-!
Which texts are machine code. Without its blanks such a text is a sequence of pairs of hexadecimal
digits, and each pair is read as the byte that it denotes; in the first place of a pair a plus sign
stands for zero. Text is read as bytes, so the theory starts with bytes and ends with characters.
-/

namespace X86
namespace CommandLine

open Text (digitValue? digitsValue? unsigned? utf8Fault?)
open Text.Token (isHexDigit)

def hexAlphabet : List Char :=
  ['0', '1', '2', '3', '4', '5', '6', '7', '8', '9', 'a', 'b', 'c', 'd', 'e', 'f']

def hexValue (c : Char) : Nat :=
  hexAlphabet.idxOf c.toLower

/-- The bytes that pairs of digits denote, the high digit first. -/
def denoted : List Char → List UInt8
  | high :: low :: rest => UInt8.ofNat (16 * hexValue high + hexValue low) :: denoted rest
  | _ => []

structure Denotes (cs : List Char) (bs : List UInt8) : Prop where
  even : cs.length % 2 = 0
  digits : cs.all isHexDigit = true
  bytes : bs = denoted cs

/-- The characters with zero for each plus sign in the first place of a pair. -/
def unsign : List Char → List Char
  | first :: second :: rest => (if first = '+' then '0' else first) :: second :: unsign rest
  | cs => cs

def isAsciiBlank (c : Char) : Bool :=
  [' ', '\t', '\n', '\x0C', '\r'].contains c

def charOf (b : UInt8) : Char :=
  Char.ofNat b.toNat

theorem toNat_charOf (b : UInt8) : (charOf b).toNat = b.toNat := by
  have hb : b.toNat < 256 := b.toNat_lt
  have hvalid : b.toNat.isValidChar := Or.inl (by omega)
  rw [charOf, Char.ofNat, dif_pos hvalid]
  rfl

theorem of_ascii {p : Char → Bool} (h : (List.range 128).all (fun n => p (Char.ofNat n)) = true)
    {c : Char} (hc : c.toNat < 128) : p c = true := by
  have hn := List.all_eq_true.mp h c.toNat (List.mem_range.mpr hc)
  rwa [Char.ofNat_toNat] at hn

theorem unsign_of_not_mem {cs : List Char} (h : '+' ∉ cs) : unsign cs = cs := by
  fun_induction unsign cs with
  | case1 first second rest ih =>
    simp only [List.mem_cons, not_or] at h
    rw [if_neg (Ne.symm h.1), ih h.2.2]
  | case2 cs hshort => rfl

theorem length_unsign (cs : List Char) : (unsign cs).length = cs.length := by
  fun_induction unsign cs with
  | case1 first second rest ih => simp [ih]
  | case2 cs hshort => rfl

theorem denotes_cons_cons {high low : Char} {cs : List Char} {b : UInt8} {bs : List UInt8} :
    Denotes (high :: low :: cs) (b :: bs) ↔
      (isHexDigit high = true ∧ isHexDigit low = true ∧
        b = UInt8.ofNat (16 * hexValue high + hexValue low)) ∧ Denotes cs bs := by
  constructor
  · rintro ⟨heven, hdigits, hbytes⟩
    simp only [List.length_cons, List.all_cons, Bool.and_eq_true] at heven hdigits
    rw [denoted, List.cons.injEq] at hbytes
    exact ⟨⟨hdigits.1, hdigits.2.1, hbytes.1⟩, by omega, hdigits.2.2, hbytes.2⟩
  · rintro ⟨⟨hhigh, hlow, rfl⟩, heven, hdigits, rfl⟩
    refine ⟨?_, ?_, rfl⟩
    · simp only [List.length_cons]
      omega
    · simp [hhigh, hlow, hdigits]

section Digits

theorem isHexDigit_iff {c : Char} : isHexDigit c = true ↔
    ('0' ≤ c ∧ c ≤ '9') ∨ ('a' ≤ c ∧ c ≤ 'f') ∨ ('A' ≤ c ∧ c ≤ 'F') := by
  simp [isHexDigit, or_assoc]

theorem lt_of_isHexDigit {c : Char} (h : isHexDigit c = true) : c.toNat < 128 := by
  have hle {d : Char} (hd : c ≤ d) (hlt : d.toNat < 128) : c.toNat < 128 :=
    Nat.lt_of_le_of_lt (UInt32.le_iff_toNat_le.mp hd) hlt
  obtain h | h | h := isHexDigit_iff.mp h
  · exact hle h.2 (by decide)
  · exact hle h.2 (by decide)
  · exact hle h.2 (by decide)

theorem digitValue?_of_not_isHexDigit {c : Char} (h : isHexDigit c = false) :
    digitValue? 16 c = none := by
  have hno := mt isHexDigit_iff.mpr (Bool.eq_false_iff.mp h)
  simp only [not_or] at hno
  rw [digitValue?, if_neg hno.1, if_neg hno.2.1, if_neg hno.2.2]
  rfl

theorem digitValue?_of_isHexDigit {c : Char} (h : isHexDigit c = true) :
    digitValue? 16 c = some (hexValue c) := by
  have hc := of_ascii (p := fun c => !isHexDigit c || digitValue? 16 c == some (hexValue c))
    (by decide +kernel) (lt_of_isHexDigit h)
  rwa [h, Bool.not_true, Bool.false_or, beq_iff_eq] at hc

theorem digitValue?_eq_some {c : Char} {n : Nat} :
    digitValue? 16 c = some n ↔ isHexDigit c = true ∧ hexValue c = n := by
  cases h : isHexDigit c with
  | true => simp [digitValue?_of_isHexDigit h]
  | false => simp [digitValue?_of_not_isHexDigit h]

theorem hexValue_lt {c : Char} (h : isHexDigit c = true) : hexValue c < 16 := by
  have hvalue := digitValue?_of_isHexDigit h
  rw [digitValue?, Option.filter_eq_some_iff] at hvalue
  simpa using hvalue.2

theorem digitsValue?_pair {c d : Char} {n : Nat} : digitsValue? 16 [c, d] = some n ↔
    isHexDigit c = true ∧ isHexDigit d = true ∧ n = 16 * hexValue c + hexValue d := by
  simp only [digitsValue?, List.foldlM_cons, List.foldlM_nil, Option.bind_eq_bind,
    Option.bind_eq_some_iff, Option.map_eq_some_iff, Option.pure_def, Option.some.injEq,
    digitValue?_eq_some]
  constructor
  · rintro ⟨_, ⟨_, ⟨hc, rfl⟩, rfl⟩, _, ⟨_, ⟨hd, rfl⟩, rfl⟩, rfl⟩
    exact ⟨hc, hd, by omega⟩
  · rintro ⟨hc, hd, rfl⟩
    exact ⟨_, ⟨_, ⟨hc, rfl⟩, rfl⟩, _, ⟨_, ⟨hd, rfl⟩, rfl⟩, by omega⟩

theorem digitsValue?_single {d : Char} : digitsValue? 16 [d] = digitsValue? 16 ['0', d] := by
  simp only [digitsValue?, List.foldlM_cons, digitValue?_of_isHexDigit (show isHexDigit '0' = true by decide)]
  rfl

/-- Two characters are a numeral if they are digits, where a plus sign in front reads as zero. -/
theorem unsigned?_pair {c d : Char} {n : Nat} : unsigned? 16 256 [c, d] = some n ↔
    isHexDigit (if c = '+' then '0' else c) = true ∧ isHexDigit d = true ∧
      n = 16 * hexValue (if c = '+' then '0' else c) + hexValue d := by
  have hdigits : unsigned? 16 256 [c, d] =
      (digitsValue? 16 [if c = '+' then '0' else c, d]).filter (· < 256) := by
    by_cases hc : c = '+'
    · subst hc
      rw [if_pos rfl, ← digitsValue?_single]
      rfl
    · rw [if_neg hc, unsigned?]
      intro rest h
      exact hc (List.cons.inj h).1
  rw [hdigits, Option.filter_eq_some_iff, digitsValue?_pair, decide_eq_true_eq]
  constructor
  · exact And.left
  · rintro ⟨hc, hd, rfl⟩
    have := hexValue_lt hc
    have := hexValue_lt hd
    exact ⟨⟨hc, hd, rfl⟩, by omega⟩

end Digits

section Bytes

theorem utf8Fault?_pair {x y : UInt8} (hx : x.toNat < 128) (hy : y.toNat < 128) :
    utf8Fault? 0 [x, y] = none := by
  have hx' : x < 0x80 := UInt8.lt_iff_toNat_lt.mpr hx
  have hy' : y < 0x80 := UInt8.lt_iff_toNat_lt.mpr hy
  rw [utf8Fault?, if_pos hx', utf8Fault?, if_pos hy', utf8Fault?]

theorem pairByte_eq_ok {x y b : UInt8} : pairByte x y = .ok b ↔
    isHexDigit (if charOf x = '+' then '0' else charOf x) = true ∧ isHexDigit (charOf y) = true ∧
      b = UInt8.ofNat (16 * hexValue (if charOf x = '+' then '0' else charOf x) +
        hexValue (charOf y)) := by
  unfold pairByte
  constructor
  · intro h
    split at h
    · cases h
    · split at h
      · next n hn =>
        obtain ⟨hx, hy, rfl⟩ := unsigned?_pair.mp hn
        exact ⟨hx, hy, (Except.ok.inj h).symm⟩
      · cases h
  · rintro ⟨hx, hy, rfl⟩
    have hx' : x.toNat < 128 := by
      rw [← toNat_charOf]
      by_cases hplus : charOf x = '+'
      · rw [hplus]
        decide
      · rw [if_neg hplus] at hx
        exact lt_of_isHexDigit hx
    have hy' : y.toNat < 128 := toNat_charOf y ▸ lt_of_isHexDigit hy
    have hn : unsigned? 16 256 [Char.ofNat x.toNat, Char.ofNat y.toNat] = some _ :=
      unsigned?_pair.mpr ⟨hx, hy, rfl⟩
    rw [utf8Fault?_pair hx' hy', hn]
    rfl

theorem pairBytes_eq_ok {ds bs : List UInt8} (heven : ds.length % 2 = 0) :
    pairBytes ds = .ok bs ↔ Denotes (unsign (ds.map charOf)) bs := by
  fun_induction pairBytes ds generalizing bs with
  | case1 first second rest ih =>
    have hrest : rest.length % 2 = 0 := by
      simp only [List.length_cons] at heven
      omega
    have hbind : (do
        let b ← pairByte first second
        let bs ← pairBytes rest
        pure (b :: bs)) = Except.ok bs ↔
          ∃ b cs, pairByte first second = .ok b ∧ pairBytes rest = .ok cs ∧ b :: cs = bs := by
      cases pairByte first second with
      | error e => simp [bind, Except.bind]
      | ok b => cases pairBytes rest <;> simp [bind, Except.bind, pure, Except.pure]
    rw [hbind]
    constructor
    · rintro ⟨b, cs, hb, hcs, rfl⟩
      exact denotes_cons_cons.mpr ⟨pairByte_eq_ok.mp hb, (ih hrest).mp hcs⟩
    · intro h
      cases bs with
      | nil => cases h.bytes
      | cons b cs =>
        obtain ⟨hb, hcs⟩ := denotes_cons_cons.mp h
        exact ⟨b, cs, pairByte_eq_ok.mpr hb, (ih hrest).mpr hcs, rfl⟩
  | case2 ds hshort =>
    obtain rfl : ds = [] := by
      cases ds with
      | nil => rfl
      | cons x ds =>
        cases ds with
        | nil => cases heven
        | cons y ds => exact absurd rfl (hshort x y ds)
    constructor
    · intro h
      exact ⟨rfl, rfl, (Except.ok.inj h).symm⟩
    · rintro ⟨-, -, rfl⟩
      rfl

/-- Input is machine code exactly if its characters other than blanks denote it. -/
theorem parseHexBytes_eq_ok {input bs : List UInt8} : parseHexBytes input = .ok bs ↔
    Denotes (unsign ((input.filter (!isInputBlank ·)).map charOf)) bs := by
  unfold parseHexBytes
  dsimp only
  split
  · next hodd =>
    refine iff_of_false (by simp) fun h => hodd ?_
    simpa [length_unsign] using h.even
  · next heven => exact pairBytes_eq_ok (Decidable.not_not.mp heven)

end Bytes

section Characters

theorem data_toUTF8 (text : String) :
    text.toUTF8.data.toList = text.toList.flatMap String.utf8EncodeChar := by
  rw [String.toUTF8, ← String.utf8Encode_toList, List.utf8Encode]
  simp

theorem utf8EncodeChar_ascii {c : Char} (h : c.toNat < 128) :
    String.utf8EncodeChar c = [UInt8.ofNat c.toNat] :=
  if_pos (Nat.le_of_lt_succ h)

theorem exists_utf8EncodeChar {c : Char} (h : ¬ c.toNat < 128) :
    ∃ b ∈ String.utf8EncodeChar c, ¬ b.toNat < 128 := by
  have hle : ¬ c.val.toNat ≤ 127 := fun hle => h (Nat.lt_succ_of_le hle)
  refine ⟨UInt8.ofNat (c.val.toNat % 64 + 128), ?_, ?_⟩
  · unfold String.utf8EncodeChar
    dsimp only
    rw [if_neg hle]
    split
    · simp only [List.mem_cons, true_or, or_true]
    · split <;> simp only [List.mem_cons, true_or, or_true]
  · rw [UInt8.toNat_ofNat']
    omega

theorem lt_of_unsign {cs : List Char} (h : (unsign cs).all isHexDigit = true)
    (heven : cs.length % 2 = 0) : ∀ c ∈ cs, c.toNat < 128 := by
  fun_induction unsign cs with
  | case1 first second rest ih =>
    simp only [List.all_cons, Bool.and_eq_true] at h
    have hrest := ih h.2.2 (by simp only [List.length_cons] at heven; omega)
    have hfirst : first.toNat < 128 := by
      by_cases hplus : first = '+'
      · rw [hplus]
        decide
      · rw [if_neg hplus] at h
        exact lt_of_isHexDigit h.1
    simpa only [List.mem_cons, forall_eq_or_imp] using ⟨hfirst, lt_of_isHexDigit h.2.1, hrest⟩
  | case2 cs hshort => exact fun c hc => lt_of_isHexDigit (List.all_eq_true.mp h c hc)

theorem isInputBlank_ofNat {c : Char} (h : c.toNat < 128) :
    isInputBlank (UInt8.ofNat c.toNat) = isAsciiBlank c := by
  have hc := of_ascii (p := fun c => isInputBlank (UInt8.ofNat c.toNat) == isAsciiBlank c)
    (by decide +kernel) h
  exact beq_iff_eq.mp hc

theorem lt_of_isInputBlank {b : UInt8} (h : isInputBlank b = true) : b.toNat < 128 := by
  simp only [isInputBlank, Bool.or_eq_true, beq_iff_eq] at h
  obtain (((rfl | rfl) | rfl) | rfl) | rfl := h <;> decide

theorem lt_of_isAsciiBlank {c : Char} (h : isAsciiBlank c = true) : c.toNat < 128 := by
  simp only [isAsciiBlank, List.contains_iff_mem, List.mem_cons, List.not_mem_nil, or_false] at h
  obtain rfl | rfl | rfl | rfl | rfl := h <;> decide

theorem map_charOf_ascii {cs : List Char} (h : ∀ c ∈ cs, c.toNat < 128) :
    ((cs.flatMap String.utf8EncodeChar).filter (!isInputBlank ·)).map charOf =
      cs.filter (!isAsciiBlank ·) := by
  induction cs with
  | nil => rfl
  | cons c cs ih =>
    rw [List.forall_mem_cons] at h
    have hchar : charOf (UInt8.ofNat c.toNat) = c := by
      have hmod : c.toNat % 2 ^ 8 = c.toNat := Nat.mod_eq_of_lt (Nat.lt_trans h.1 (by decide))
      rw [charOf, UInt8.toNat_ofNat', hmod, Char.ofNat_toNat]
    rw [List.flatMap_cons, utf8EncodeChar_ascii h.1, List.singleton_append, List.filter_cons,
      List.filter_cons, isInputBlank_ofNat h.1]
    split
    · rw [List.map_cons, hchar, ih h.2]
    · exact ih h.2

theorem parseHexBytes_text {text : String} {bs : List UInt8} :
    parseHexBytes text.toUTF8.data.toList = .ok bs ↔
      Denotes (unsign (text.toList.filter (!isAsciiBlank ·))) bs := by
  rw [parseHexBytes_eq_ok, data_toUTF8]
  by_cases hascii : ∀ c ∈ text.toList, c.toNat < 128
  · rw [map_charOf_ascii hascii]
  · -- neither a character beyond ASCII nor its last byte is a digit or a blank
    obtain ⟨c, hc, hlarge⟩ : ∃ c ∈ text.toList, ¬ c.toNat < 128 := by
      simpa only [Classical.not_forall, exists_prop] using hascii
    refine iff_of_false (fun h => ?_) fun h => ?_
    · obtain ⟨b, hb, hb'⟩ := exists_utf8EncodeChar hlarge
      refine hb' (toNat_charOf b ▸ lt_of_unsign h.digits (length_unsign _ ▸ h.even) _ ?_)
      refine List.mem_map_of_mem (List.mem_filter.mpr ⟨List.mem_flatMap.mpr ⟨c, hc, hb⟩, ?_⟩)
      exact Bool.not_eq_true' _ ▸ Bool.eq_false_iff.mpr fun hblank => hb' (lt_of_isInputBlank hblank)
    · refine hlarge (lt_of_unsign h.digits (length_unsign _ ▸ h.even) _ (List.mem_filter.mpr ⟨hc, ?_⟩))
      exact Bool.not_eq_true' _ ▸ Bool.eq_false_iff.mpr fun hblank => hlarge (lt_of_isAsciiBlank hblank)

end Characters

/-- Text is machine code exactly if, without its blanks, it consists of pairs of hexadecimal digits in
either case, where a plus sign in the first place of a pair counts as zero; it is then the bytes that
the pairs denote. A text without plus signs is therefore read if it has an even number of characters
besides blanks and all of them are hexadecimal digits, and is a fault in every other case. -/
theorem parseHexBytes_accepts (text : String) :
    let digits := text.toList.filter (!isAsciiBlank ·)
    let result := parseHexBytes text.toUTF8.data.toList
    (∀ bs, result = .ok bs ↔ Denotes (unsign digits) bs) ∧
    ('+' ∉ digits →
      (∀ bs, result = .ok bs ↔
        digits.length % 2 = 0 ∧ digits.all isHexDigit = true ∧ bs = denoted digits) ∧
      ((∃ fault, result = .error fault) ↔
        ¬ (digits.length % 2 = 0 ∧ digits.all isHexDigit = true))) := by
  intro digits result
  refine ⟨fun bs => parseHexBytes_text, fun hplus => ?_⟩
  have hok (bs : List UInt8) : result = .ok bs ↔
      digits.length % 2 = 0 ∧ digits.all isHexDigit = true ∧ bs = denoted digits := by
    refine parseHexBytes_text.trans ?_
    rw [unsign_of_not_mem hplus]
    exact ⟨fun h => ⟨h.even, h.digits, h.bytes⟩, fun h => ⟨h.1, h.2.1, h.2.2⟩⟩
  refine ⟨hok, ?_⟩
  cases hresult : result with
  | ok bs =>
    obtain ⟨heven, hdigits, -⟩ := (hok bs).mp hresult
    exact iff_of_false (by simp) (not_not_intro ⟨heven, hdigits⟩)
  | error fault =>
    refine iff_of_true ⟨fault, rfl⟩ fun h => ?_
    cases hresult.symm.trans ((hok _).mpr ⟨h.1, h.2, rfl⟩)

/-- A blank may stand inside a pair, and both cases are read. -/
theorem parseHexBytes_accepts_splitPair :
    '+' ∉ "B8 3\n4f".toList.filter (!isAsciiBlank ·) ∧
      "B8 3\n4f".toList.filter (!isAsciiBlank ·) = ['B', '8', '3', '4', 'f'] ∧
      (∃ fault, parseHexBytes "B8 3\n4f".toUTF8.data.toList = .error fault) ∧
      parseHexBytes "B8 3\n4".toUTF8.data.toList = .ok [0xB8, 0x34] := by
  refine ⟨by decide, by decide, ?_, ?_⟩
  · exact ((parseHexBytes_accepts "B8 3\n4f").2 (by decide)).2.mpr (by decide)
  · exact (((parseHexBytes_accepts "B8 3\n4").2 (by decide)).1 _).mpr ⟨by decide, by decide, by decide⟩

/-- A plus sign is no hexadecimal digit, and yet it is read in front of one. -/
theorem parseHexBytes_reads_plus :
    parseHexBytes "+f".toUTF8.data.toList = .ok [0x0F] ∧
      ("+f".toList.filter (!isAsciiBlank ·)).all isHexDigit = false :=
  ⟨rfl, by decide⟩

end CommandLine
end X86
