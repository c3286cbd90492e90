import X86.Proofs.Encoding

/-!
Effective addresses by the addressing tables. `EncodedAddress` says how many bytes an address takes
behind its ModRM byte, and what it adds up to when the registers have values. The main statement is
that a memory operand is read from exactly these bytes and has this address.
-/

namespace X86

namespace Word

/-- The number that some bytes spell in two's complement; no bytes spell zero. -/
def signed (bs : List UInt8) : Int :=
  (littleEndian bs : Int).bmod (256 ^ bs.length)

theorem zeroExtend_eq_emod {width : Nat} (h : width ∈ [1, 2, 4, 8]) (v : Int) :
    zeroExtend (8 * width) v = (v % 256 ^ width).toNat := by
  simp only [List.mem_cons, List.not_mem_nil, or_false] at h
  rcases h with rfl | rfl | rfl | rfl
  · rfl
  · rfl
  · rfl
  · rfl

theorem zeroExtend_signed {bs : List UInt8} (h : bs.length ∈ [0, 1, 2, 4]) :
    zeroExtend (8 * bs.length) (signed bs) = littleEndian bs := by
  cases bs with
  | nil => decide
  | cons b bs =>
    have hwidth : (b :: bs).length ∈ [1, 2, 4, 8] := by
      simp only [List.length_cons, List.mem_cons, List.not_mem_nil, or_false] at h ⊢
      omega
    have hbmod : signed (b :: bs) % 256 ^ (b :: bs).length = littleEndian (b :: bs) := by
      have hlt := Int.ofNat_lt.mpr (littleEndian_lt (b :: bs))
      have hmod := Int.bmod_emod (x := (littleEndian (b :: bs) : Int)) (m := 256 ^ (b :: bs).length)
      rw [Int.emod_eq_of_lt (Int.natCast_nonneg _) hlt, Int.natCast_pow] at hmod
      exact hmod
    rw [zeroExtend_eq_emod hwidth, hbmod, Int.toNat_natCast]

end Word

namespace MemoryOperand

def address (m : MemoryOperand) (value : Register → Int) : Int :=
  m.base.elim 0 value + m.index.elim 0 value * m.scale + m.displacement

end MemoryOperand

/-- What an address is encoded in: the ModRM byte, the REX byte or zero, the address size, the mode,
and the byte behind ModRM, which is the SIB byte of an address that has one. -/
structure EncodedAddress where
  modRM : UInt8
  rex : UInt8
  addressSize : Nat
  mode64 : Bool
  next : UInt8

namespace EncodedAddress

variable (e : EncodedAddress)

def mod : Nat := e.modRM.toNat / 64
def rm : Nat := e.modRM.toNat % 8

def scale : Nat := 2 ^ (e.next.toNat / 64)
def index : Nat := e.next.toNat / 8 % 8
def base : Nat := e.next.toNat % 8

/-- Register numbers are extended by a bit of the REX byte: bit 0 for a base, bit 1 for an index. -/
def extended (bit n : Nat) : Nat :=
  e.rex.toNat / 2 ^ bit % 2 * 8 + n

def register (n : Nat) : Register :=
  if e.addressSize = 32 then .gpr32 (Fin.ofNat 16 n) else .gpr64 (Fin.ofNat 16 n)

def sibBytes : Nat :=
  if e.addressSize ≠ 16 ∧ e.rm = 4 then 1 else 0

def displacementBytes : Nat :=
  if e.addressSize = 16 then
    if e.mod = 0 ∧ e.rm = 6 then 2 else if e.mod = 1 then 1 else if e.mod = 2 then 2 else 0
  else
    if e.mod = 0 ∧ (e.rm = 5 ∨ e.rm = 4 ∧ e.base = 5) then 4
    else if e.mod = 1 then 1 else if e.mod = 2 then 4 else 0

def registers16 : List (List Register) :=
  [[.bx, .si], [.bx, .di], [.bp, .si], [.bp, .di], [.si], [.di], [.bp], [.bx]]

variable (value : Register → Int)

/-- What the registers of 16-bit addressing add up to. There are none where `mod` is zero and r/m is
six. -/
def sum16 : Int :=
  if e.mod = 0 ∧ e.rm = 6 then 0 else (registers16.getD e.rm []).foldr (value · + ·) 0

/-- What the registers of a SIB byte add up to. Index four without REX.X is none, and base five is none
where `mod` is zero, whatever REX.B says. -/
def sumSib : Int :=
  (if e.mod = 0 ∧ e.base = 5 then 0 else value (e.register (e.extended 0 e.base))) +
    (if e.extended 1 e.index = 4 then 0 else e.scale * value (e.register (e.extended 1 e.index)))

def sumWide : Int :=
  if e.rm = 4 then e.sumSib value
  else if e.mod = 0 ∧ e.rm = 5 then
    if e.mode64 then value (if e.addressSize = 32 then .eip else .rip) else 0
  else value (e.register (e.extended 0 e.rm))

def address (displacement : Int) : Int :=
  (if e.addressSize = 16 then e.sum16 value else e.sumWide value) + displacement

end EncodedAddress

namespace MemoryOperand

def displacedBy (m : MemoryOperand) (bs : List UInt8) : MemoryOperand :=
  { m with displacement := Word.signed bs, displacementSize := 8 * bs.length }

def sum (m : MemoryOperand) (value : Register → Int) : Int :=
  m.base.elim 0 value + m.index.elim 0 value * m.scale

theorem address_displacedBy (m : MemoryOperand) (bs : List UInt8) (value : Register → Int) :
    (m.displacedBy bs).address value = m.sum value + Word.signed bs := rfl

theorem unsignedDisplacement_displacedBy (m : MemoryOperand) {bs : List UInt8}
    (h : bs.length ∈ [0, 1, 2, 4]) : (m.displacedBy bs).unsignedDisplacement = Word.littleEndian bs :=
  Word.zeroExtend_signed h

end MemoryOperand

namespace Read

variable {c : Cursor}

theorem bytes_of_le {n : Nat} (h : n ≤ c.rest.length) :
    ∃ c', c.Reads (c.rest.take n) c' ∧ bytes n c = .ok (c.rest.take n) c' := by
  induction n generalizing c with
  | zero => exact ⟨c, rfl, rfl⟩
  | succ n ih =>
    cases hb : c.source.get? c.position with
    | none =>
      rw [Cursor.rest_of_atEnd hb] at h
      cases h
    | some b =>
      rw [Cursor.rest_of_get? hb, List.length_cons, Nat.add_le_add_iff_right] at h
      obtain ⟨c', hreads, hbytes⟩ := ih h
      rw [Cursor.rest_of_get? hb, List.take_succ_cons]
      refine ⟨c', ⟨hb, hreads⟩, ?_⟩
      rw [bytes, bind_ok]
      exact ⟨b, c.advance, byte_ok.mpr ⟨hb, rfl⟩, bind_ok.mpr ⟨_, c', hbytes, rfl⟩⟩

theorem bind_error {m : Read α} {f : α → Read β} {e : Fault} {c c' : Cursor}
    (h : m c = .error e c') : (m >>= f) c = .error e c' := by
  change EStateM.bind m f c = _
  rw [EStateM.bind, h]

theorem bind_of_ok {m : Read α} {f : α → Read β} {a : α} {c c' : Cursor}
    (h : m c = .ok a c') : (m >>= f) c = f a c' := by
  change EStateM.bind m f c = _
  rw [EStateM.bind, h]

theorem byte_of_atEnd (h : c.AtEnd) : byte c = .error .truncated c := by
  rw [Cursor.AtEnd] at h
  rw [byte, h]

theorem bytes_of_lt {n : Nat} (h : c.rest.length < n) :
    ∃ c', c.Reads c.rest c' ∧ c'.AtEnd ∧ bytes n c = .error .truncated c' := by
  induction n generalizing c with
  | zero => cases h
  | succ n ih =>
    cases hb : c.source.get? c.position with
    | none =>
      refine ⟨c, ?_, hb, bind_error (byte_of_atEnd hb)⟩
      rw [Cursor.rest_of_atEnd hb]
      rfl
    | some b =>
      rw [Cursor.rest_of_get? hb, List.length_cons, Nat.add_lt_add_iff_right] at h
      obtain ⟨c', hreads, hend, hbytes⟩ := ih h
      rw [Cursor.rest_of_get? hb]
      refine ⟨c', ⟨hb, hreads⟩, hend, ?_⟩
      exact (bind_of_ok (byte_ok.mpr ⟨hb, rfl⟩)).trans (bind_error hbytes)

/-- The outcome of reading an address that takes `n` bytes and a displacement of `w` bytes. If they are
not all there, everything that is there is read. -/
structure Delivers (n w : Nat) (m : MemoryOperand) (c : Cursor)
    (r : EStateM.Result Fault Cursor MemoryOperand) : Prop where
  short : c.rest.length < n + w → ∃ c', c'.AtEnd ∧ r = .error .truncated c'
  whole : n + w ≤ c.rest.length → ∃ c', c.Reads (c.rest.take (n + w)) c' ∧
    r = .ok (m.displacedBy ((c.rest.drop n).take w)) c'

theorem displaced_delivers {w : Nat} (hw : w ∈ [0, 1, 2, 4]) {m : MemoryOperand}
    (hm : m.displacement = 0) (hm' : m.displacementSize = 0) :
    Delivers 0 w m c (displaced w m c) := by
  unfold displaced
  split
  · next hzero =>
    subst hzero
    refine ⟨fun h => absurd h (by omega), fun _ => ⟨c, rfl, ?_⟩⟩
    have hsame : m.displacedBy [] = m := by
      obtain ⟨base, index, scale, d, ds, size⟩ := m
      subst hm hm'
      rfl
    rw [List.take_zero, hsame]
    rfl
  · next hne =>
    have hwidth : w ∈ [1, 2, 4, 8] := by
      simp only [List.mem_cons, List.not_mem_nil, or_false] at hw ⊢
      omega
    have hmin : min w 8 = w := by
      simp only [List.mem_cons, List.not_mem_nil, or_false] at hw
      omega
    constructor
    · intro h
      rw [Nat.zero_add] at h
      obtain ⟨c', -, hend, hbytes⟩ := bytes_of_lt h
      refine ⟨c', hend, bind_error (bind_error (bind_error ?_))⟩
      rw [hmin]
      exact hbytes
    · intro h
      rw [Nat.zero_add] at h
      obtain ⟨c', hreads, hbytes⟩ := bytes_of_le h
      rw [Nat.zero_add, List.drop_zero]
      refine ⟨c', hreads, ?_⟩
      have hlength : (c.rest.take w).length = w := List.length_take_of_le h
      have hsigned : signed w c = .ok (Word.signed (c.rest.take w)) c' := by
        rw [Word.signed, hlength, ← Word.signExtend_eq_bmod hwidth, signed, unsigned, hmin]
        exact bind_ok.mpr ⟨_, c', bind_ok.mpr ⟨_, c', hbytes, rfl⟩, rfl⟩
      rw [bind_of_ok hsigned, MemoryOperand.displacedBy, hlength]
      rfl

theorem Delivers.behind {b : UInt8} {w : Nat} {m : MemoryOperand}
    {r : EStateM.Result Fault Cursor MemoryOperand}
    (hb : c.source.get? c.position = some b) (h : Delivers 0 w m c.advance r) :
    Delivers 1 w m c r := by
  have hrest := Cursor.rest_of_get? hb
  constructor
  · intro hlt
    refine h.short ?_
    rw [hrest, List.length_cons] at hlt
    omega
  · intro hle
    rw [hrest, List.length_cons] at hle
    obtain ⟨c', hreads, hr⟩ := h.whole (by omega)
    refine ⟨c', ?_, ?_⟩
    · rw [hrest, Nat.add_comm 1 w, List.take_succ_cons]
      rw [Nat.zero_add] at hreads
      exact ⟨hb, hreads⟩
    · rw [hrest, List.drop_one, List.tail_cons]
      exact hr

end Read

section Fields

variable (b : UInt8)

theorem ModRM.mod_ofByte : (ModRM.ofByte b).mod.val = b.toNat / 64 := by
  have hb := b.toNat_lt
  show b.toNat / 64 % 4 = _
  omega

theorem ModRM.rm_ofByte : (ModRM.ofByte b).rm.val = b.toNat % 8 := rfl

theorem Sib.base_ofByte : (Sib.ofByte b).base.val = b.toNat % 8 := rfl

theorem Rex.val_extend (bit : Bool) (n : Fin 8) : (Rex.extend bit n).val = bit.toNat * 8 + n := by
  cases bit with
  | false => simp [Rex.extend]
  | true => simp [Rex.extend, Nat.add_comm]

end Fields

namespace EncodedAddress

variable {e : EncodedAddress}

theorem mod_eq_iff {k : Nat} (hk : k < 4) : (ModRM.ofByte e.modRM).mod = ⟨k, hk⟩ ↔ e.mod = k := by
  rw [Fin.ext_iff, ModRM.mod_ofByte, mod]

theorem rm_eq_iff {k : Nat} (hk : k < 8) : (ModRM.ofByte e.modRM).rm = ⟨k, hk⟩ ↔ e.rm = k := by
  rw [Fin.ext_iff, ModRM.rm_ofByte, rm]

theorem base_eq_iff {k : Nat} (hk : k < 8) : (Sib.ofByte e.next).base = ⟨k, hk⟩ ↔ e.base = k := by
  rw [Fin.ext_iff, Sib.base_ofByte, base]

theorem direct16_iff :
    (ModRM.ofByte e.modRM).mod = 0 ∧ (ModRM.ofByte e.modRM).rm = 6 ↔ e.mod = 0 ∧ e.rm = 6 :=
  and_congr (mod_eq_iff (by decide)) (rm_eq_iff (by decide))

theorem direct32_iff :
    (ModRM.ofByte e.modRM).mod = 0 ∧ (ModRM.ofByte e.modRM).rm = 5 ↔ e.mod = 0 ∧ e.rm = 5 :=
  and_congr (mod_eq_iff (by decide)) (rm_eq_iff (by decide))

theorem displacementBytes_mem (e : EncodedAddress) : e.displacementBytes ∈ [0, 1, 2, 4] := by
  unfold displacementBytes
  split
  · split
    · decide
    · split
      · decide
      · split <;> decide
  · split
    · decide
    · split
      · decide
      · split <;> decide

theorem displacement16_eq (h : e.addressSize = 16) :
    (ModRM.ofByte e.modRM).displacement16 = e.displacementBytes := by
  have hrm : (ModRM.ofByte e.modRM).rm = 6 ↔ e.rm = 6 := rm_eq_iff (by decide)
  rw [displacementBytes, if_pos h]
  unfold ModRM.displacement16
  split
  · next hmod =>
    have hmod : e.mod = 0 := (mod_eq_iff (by decide)).mp hmod
    simp [hmod, hrm]
  · next hmod =>
    have hmod : e.mod = 1 := (mod_eq_iff (by decide)).mp hmod
    simp [hmod]
  · next hmod =>
    have hmod : e.mod = 2 := (mod_eq_iff (by decide)).mp hmod
    simp [hmod]
  · next hmod =>
    have hmod : e.mod = 3 := (mod_eq_iff (by decide)).mp hmod
    simp [hmod]

theorem displacement32_eq (h : e.addressSize ≠ 16) (hbase : ¬ (e.mod = 0 ∧ e.rm = 4 ∧ e.base = 5)) :
    (ModRM.ofByte e.modRM).displacement32 = e.displacementBytes := by
  have hrm : (ModRM.ofByte e.modRM).rm = 5 ↔ e.rm = 5 := rm_eq_iff (by decide)
  rw [displacementBytes, if_neg h]
  unfold ModRM.displacement32
  split
  · next hmod =>
    have hmod : e.mod = 0 := (mod_eq_iff (by decide)).mp hmod
    have hbase : ¬ (e.rm = 4 ∧ e.base = 5) := fun h => hbase ⟨hmod, h⟩
    simp [hmod, hrm, hbase]
  · next hmod =>
    have hmod : e.mod = 1 := (mod_eq_iff (by decide)).mp hmod
    simp [hmod]
  · next hmod =>
    have hmod : e.mod = 2 := (mod_eq_iff (by decide)).mp hmod
    simp [hmod]
  · next hmod =>
    have hmod : e.mod = 3 := (mod_eq_iff (by decide)).mp hmod
    simp [hmod]

theorem extended_eq (bit n : Nat) :
    e.extended bit n = (e.rex.toNat.testBit bit).toNat * 8 + n := by
  rw [extended, Nat.toNat_testBit]

theorem register_eq (h : e.addressSize = 32 ∨ e.addressSize = 64) (n : Fin 16) :
    Register.gpr e.addressSize n false = e.register n := by
  rcases h with h | h
  · rw [register, h, if_pos rfl, Fin.ofNat_val_eq_self]
    rfl
  · rw [register, h, if_neg (by decide), Fin.ofNat_val_eq_self]
    rfl

theorem base_register_eq (h : e.addressSize = 32 ∨ e.addressSize = 64) (n : Fin 8) :
    Register.gpr e.addressSize (Rex.extend (Rex.b ⟨e.rex⟩) n) false = e.register (e.extended 0 n) := by
  rw [register_eq h, Rex.val_extend, extended_eq]
  rfl

theorem index_register_eq (h : e.addressSize = 32 ∨ e.addressSize = 64) (n : Fin 8) :
    Register.gpr e.addressSize (Rex.extend (Rex.x ⟨e.rex⟩) n) false = e.register (e.extended 1 n) := by
  rw [register_eq h, Rex.val_extend, extended_eq]
  rfl

end EncodedAddress

theorem ModRM.registers16_eq (r : Fin 8) :
    (registers16 r).1 :: (registers16 r).2.toList = EncodedAddress.registers16.getD r [] := by
  revert r
  decide

namespace Read

open EncodedAddress

variable {c : Cursor} {e : EncodedAddress} {size : Nat}

/-- The outcome of reading an address is what the tables say: it takes their number of bytes, and the
registers add up to their sum. -/
structure Meets (e : EncodedAddress) (size : Nat) (c : Cursor) (sum : (Register → Int) → Int)
    (r : EStateM.Result Fault Cursor MemoryOperand) : Prop where
  short : c.rest.length < e.sibBytes + e.displacementBytes → ∃ c', c'.AtEnd ∧ r = .error .truncated c'
  whole : e.sibBytes + e.displacementBytes ≤ c.rest.length →
    ∃ (m : MemoryOperand) (c' : Cursor), m.size = size ∧ (∀ value, m.sum value = sum value) ∧
      c.Reads (c.rest.take (e.sibBytes + e.displacementBytes)) c' ∧
      r = .ok (m.displacedBy ((c.rest.drop e.sibBytes).take e.displacementBytes)) c'

theorem Delivers.meets {n w : Nat} {m : MemoryOperand} {sum : (Register → Int) → Int}
    {r : EStateM.Result Fault Cursor MemoryOperand} (h : Delivers n w m c r)
    (hn : e.sibBytes = n) (hw : e.displacementBytes = w) (hsum : ∀ value, m.sum value = sum value) :
    Meets e m.size c sum r := by
  subst hn hw
  refine ⟨h.short, fun hle => ?_⟩
  obtain ⟨c', hreads, hr⟩ := h.whole hle
  exact ⟨m, c', rfl, hsum, hreads, hr⟩

theorem memory16_meets (h : e.addressSize = 16) :
    Meets e size c e.sum16 (memory16 (.ofByte e.modRM) size c) := by
  have hsib : e.sibBytes = 0 := if_neg fun hne => hne.1 h
  have hwidth := (displacement16_eq h).symm
  have hmem := displacement16_mem (.ofByte e.modRM)
  unfold memory16
  split
  · next hdirect =>
    refine Delivers.meets (m := { size }) (displaced_delivers hmem rfl rfl) hsib hwidth fun value => ?_
    rw [sum16, if_pos (direct16_iff.mp hdirect)]
    simp [MemoryOperand.sum]
  · next hdirect =>
    have htable := ModRM.registers16_eq (ModRM.ofByte e.modRM).rm
    cases hregisters : ModRM.registers16 (ModRM.ofByte e.modRM).rm with
    | mk base index =>
    rw [hregisters, ModRM.rm_ofByte] at htable
    let m : MemoryOperand :=
      { base := some base, index, scale := if index.isSome then 1 else 0, size }
    refine Delivers.meets (m := m) (displaced_delivers hmem rfl rfl) hsib hwidth fun value => ?_
    rw [sum16, if_neg (mt direct16_iff.mpr hdirect), rm, ← htable]
    cases index with
    | none => simp [m, MemoryOperand.sum]
    | some i => simp [m, MemoryOperand.sum]

structure Indexed (e : EncodedAddress) (m : MemoryOperand) : Prop where
  base : m.base = none
  displacement : m.displacement = 0
  displacementSize : m.displacementSize = 0
  index : ∀ value : Register → Int, m.index.elim 0 value * m.scale =
    if e.extended 1 e.index = 4 then 0 else e.scale * value (e.register (e.extended 1 e.index))

theorem based_meets (h : e.addressSize = 32 ∨ e.addressSize = 64) (hrm : e.rm = 4)
    (hb : c.source.get? c.position = some e.next) {m : MemoryOperand} (hm : Indexed e m) :
    Meets e m.size c e.sumSib
      ((if (Sib.ofByte e.next).base = 5 ∧ (ModRM.ofByte e.modRM).mod = 0 then displaced 4 m
        else
          displaced (ModRM.ofByte e.modRM).displacement32
            { m with base := some (.gpr e.addressSize
                (Rex.extend (Rex.b ⟨e.rex⟩) (Sib.ofByte e.next).base) false) }) c.advance) := by
  have h16 : e.addressSize ≠ 16 := by omega
  have hsib : e.sibBytes = 1 := if_pos ⟨h16, hrm⟩
  have hbare : (Sib.ofByte e.next).base = 5 ∧ (ModRM.ofByte e.modRM).mod = 0 ↔
      e.base = 5 ∧ e.mod = 0 :=
    and_congr (base_eq_iff (by decide)) (mod_eq_iff (by decide))
  split
  · next hbase =>
    obtain ⟨hbase, hmod⟩ := hbare.mp hbase
    have hwidth : e.displacementBytes = 4 := by
      simp [displacementBytes, h16, hmod, hrm, hbase]
    have hdelivers := displaced_delivers (c := c.advance) (w := 4) (by decide) hm.displacement
      hm.displacementSize
    refine (hdelivers.behind hb).meets hsib hwidth fun value => ?_
    have hnone : e.mod = 0 ∧ e.base = 5 := ⟨hmod, hbase⟩
    rw [MemoryOperand.sum, hm.base, hm.index, sumSib, if_pos hnone]
    rfl
  · next hbase =>
    have hbase : ¬ (e.mod = 0 ∧ e.base = 5) := fun hne => hbase (hbare.mpr ⟨hne.2, hne.1⟩)
    have hwidth : e.displacementBytes = (ModRM.ofByte e.modRM).displacement32 :=
      (displacement32_eq h16 fun hne => hbase ⟨hne.1, hne.2.2⟩).symm
    let m' : MemoryOperand := { m with base := some (.gpr e.addressSize
      (Rex.extend (Rex.b ⟨e.rex⟩) (Sib.ofByte e.next).base) false) }
    have hdelivers : Delivers 0 _ m' c.advance _ :=
      displaced_delivers (displacement32_mem (.ofByte e.modRM)) hm.displacement hm.displacementSize
    refine (hdelivers.behind hb).meets hsib hwidth fun value => ?_
    show value _ + m.index.elim 0 value * m.scale = _
    rw [hm.index, base_register_eq h, sumSib, if_neg hbase]
    rfl

theorem memorySib_meets (h : e.addressSize = 32 ∨ e.addressSize = 64) (hrm : e.rm = 4)
    (hnext : c.rest.headD 0 = e.next) :
    Meets e size c e.sumSib (memorySib (.ofByte e.modRM) ⟨e.rex⟩ e.addressSize size c) := by
  have h16 : e.addressSize ≠ 16 := by omega
  have hsib : e.sibBytes = 1 := if_pos ⟨h16, hrm⟩
  cases hb : c.source.get? c.position with
  | none =>
    refine ⟨fun _ => ⟨c, hb, bind_error (byte_of_atEnd hb)⟩, fun hle => ?_⟩
    rw [hsib, Cursor.rest_of_atEnd hb, List.length_nil] at hle
    omega
  | some b =>
    obtain rfl : b = e.next := by
      rwa [Cursor.rest_of_get? hb, List.headD_cons] at hnext
    have hfour : Rex.extend (Rex.x ⟨e.rex⟩) (Sib.ofByte e.next).index = 4 ↔
        e.extended 1 e.index = 4 := by
      rw [Fin.ext_iff, Rex.val_extend, extended_eq]
      rfl
    rw [memorySib, bind_of_ok (byte_ok.mpr ⟨hb, rfl⟩)]
    by_cases hindex : e.extended 1 e.index = 4
    · have hm : Indexed e { size } := by
        refine ⟨rfl, rfl, rfl, fun value => ?_⟩
        rw [if_pos hindex]
        exact Int.zero_mul _
      rw [if_pos (hfour.mpr hindex)]
      exact based_meets h hrm hb hm
    · let m : MemoryOperand :=
        { index := some (.gpr e.addressSize (Rex.extend (Rex.x ⟨e.rex⟩) (Sib.ofByte e.next).index)
            false)
          scale := (Sib.ofByte e.next).scale
          size }
      have hm : Indexed e m := by
        refine ⟨rfl, rfl, rfl, fun value => ?_⟩
        rw [if_neg hindex, Int.mul_comm]
        show _ * value (.gpr _ _ _) = _
        rw [index_register_eq h]
        rfl
      rw [if_neg (mt hfour.mp hindex)]
      exact based_meets h hrm hb hm

theorem memoryPlain_meets (h : e.addressSize = 32 ∨ e.addressSize = 64) (hrm : e.rm ≠ 4) :
    Meets e size c e.sumWide
      ((if (ModRM.ofByte e.modRM).mod = 0 ∧ (ModRM.ofByte e.modRM).rm = 5 then
          displaced (ModRM.ofByte e.modRM).displacement32
            { base := if e.mode64 then some (if e.addressSize = 32 then .eip else .rip) else none, size }
        else
          displaced (ModRM.ofByte e.modRM).displacement32
            { base := some (.gpr e.addressSize
                (Rex.extend (Rex.b ⟨e.rex⟩) (ModRM.ofByte e.modRM).rm) false), size }) c) := by
  have h16 : e.addressSize ≠ 16 := by omega
  have hsib : e.sibBytes = 0 := if_neg fun hne => hrm hne.2
  have hwidth : e.displacementBytes = (ModRM.ofByte e.modRM).displacement32 :=
    (displacement32_eq h16 fun hne => hrm hne.2.1).symm
  have hmem := displacement32_mem (.ofByte e.modRM)
  split
  · next hdirect =>
    let m : MemoryOperand :=
      { base := if e.mode64 then some (if e.addressSize = 32 then .eip else .rip) else none, size }
    refine Delivers.meets (m := m) (displaced_delivers hmem rfl rfl) hsib hwidth fun value => ?_
    rw [sumWide, if_neg hrm, if_pos (direct32_iff.mp hdirect)]
    cases hmode : e.mode64 with
    | false => simp [m, MemoryOperand.sum, hmode]
    | true => simp [m, MemoryOperand.sum, hmode]
  · next hdirect =>
    let m : MemoryOperand :=
      { base := some (.gpr e.addressSize (Rex.extend (Rex.b ⟨e.rex⟩) (ModRM.ofByte e.modRM).rm) false)
        size }
    refine Delivers.meets (m := m) (displaced_delivers hmem rfl rfl) hsib hwidth fun value => ?_
    have hbase := base_register_eq h (ModRM.ofByte e.modRM).rm
    rw [ModRM.rm_ofByte, ← rm] at hbase
    rw [sumWide, if_neg hrm, if_neg (mt direct32_iff.mpr hdirect), ← hbase]
    simp [m, MemoryOperand.sum]

theorem memory_meets (hmod : e.mod ≠ 3)
    (h : e.addressSize = 16 ∨ e.addressSize = 32 ∨ e.addressSize = 64)
    (hnext : c.rest.headD 0 = e.next) :
    Meets e size c (if e.addressSize = 16 then e.sum16 else e.sumWide)
      (memory (.ofByte e.modRM) ⟨e.rex⟩ e.addressSize e.mode64 size c) := by
  have hregister : (ModRM.ofByte e.modRM).isRegister = false :=
    beq_eq_false_iff_ne.mpr (mt (mod_eq_iff (by decide)).mp hmod)
  have hfour : (ModRM.ofByte e.modRM).rm = 4 ↔ e.rm = 4 := rm_eq_iff (by decide)
  by_cases h16 : e.addressSize = 16
  · rw [if_pos h16, memory, if_pos h16]
    exact memory16_meets h16
  have hwide : e.addressSize = 32 ∨ e.addressSize = 64 := h.resolve_left h16
  rw [if_neg h16, memory, if_neg h16]
  by_cases hrm : e.rm = 4
  · have hsib : (ModRM.ofByte e.modRM).hasSib e.addressSize = true := by
      simp [ModRM.hasSib, hregister, h16, hfour, hrm]
    have hsum : e.sumWide = e.sumSib := funext fun value => if_pos hrm
    rw [if_pos hsib, hsum]
    exact memorySib_meets hwide hrm hnext
  · have hsib : ¬ (ModRM.ofByte e.modRM).hasSib e.addressSize = true := by
      simp [ModRM.hasSib, hfour, hrm]
    rw [if_neg hsib]
    exact memoryPlain_meets hwide hrm

end Read

/-- A memory operand is read as the addressing tables say. It takes the SIB byte and the displacement
bytes of the tables, and reading fails with `Fault.truncated` exactly where there are fewer. For all
values of the registers its address is that of the tables, with the displacement that the bytes
spell, in its sign-extended and in its encoded form. -/
theorem memory_effective_address (modRM rex : UInt8) (addressSize : Nat) (mode64 : Bool) (size : Nat)
    (c : Cursor) (hmod : modRM.toNat / 64 ≠ 3)
    (h : addressSize = 16 ∨ addressSize = 32 ∨ addressSize = 64) :
    let e : EncodedAddress := ⟨modRM, rex, addressSize, mode64, c.rest.headD 0⟩
    let outcome := Read.memory (.ofByte modRM) ⟨rex⟩ addressSize mode64 size c
    let encoded := (c.rest.drop e.sibBytes).take e.displacementBytes
    ((∃ c', outcome = .error .truncated c') ↔ c.rest.length < e.sibBytes + e.displacementBytes) ∧
    (e.sibBytes + e.displacementBytes ≤ c.rest.length → ∃ o c', outcome = .ok o c' ∧
      c.Reads (c.rest.take (e.sibBytes + e.displacementBytes)) c' ∧
      c'.position = c.position + (e.sibBytes + e.displacementBytes) ∧
      (∀ value, o.address value = e.address value (Word.signed encoded)) ∧
      o.displacement = Word.signed encoded ∧ o.unsignedDisplacement = Word.littleEndian encoded ∧
      o.displacementSize = 8 * e.displacementBytes ∧ o.size = size) := by
  intro e outcome encoded
  obtain ⟨hshort, hwhole⟩ : Read.Meets e size c _ outcome := Read.memory_meets hmod h rfl
  refine ⟨⟨?_, ?_⟩, ?_⟩
  · rintro ⟨c', hc'⟩
    refine Nat.lt_of_not_le fun hle => ?_
    obtain ⟨m, c'', -, -, -, hok⟩ := hwhole hle
    rw [hok] at hc'
    cases hc'
  · intro hlt
    obtain ⟨c', -, hc'⟩ := hshort hlt
    exact ⟨c', hc'⟩
  · intro hle
    obtain ⟨m, c', hsize, hsum, hreads, hok⟩ := hwhole hle
    have hlength : encoded.length = e.displacementBytes := by
      rw [List.length_take, List.length_drop]
      omega
    have hwidth : encoded.length ∈ [0, 1, 2, 4] := hlength ▸ e.displacementBytes_mem
    refine ⟨_, c', hok, hreads, ?_, ?_, rfl, ?_, ?_, hsize⟩
    · rw [hreads.position_eq, List.length_take_of_le hle]
    · intro value
      rw [MemoryOperand.address_displacedBy, hsum, EncodedAddress.address]
      split
      · rfl
      · rfl
    · exact m.unsignedDisplacement_displacedBy hwidth
    · exact congrArg (8 * ·) hlength

/-- The address `[r12 + r13 * 2 - 16]`: REX.B makes base four `r12`, and REX.X makes index five
`r13`. -/
theorem memory_effective_address_indexed :
    let c := Cursor.ofStart (.ofArray #[0x6C, 0xF0, 0x90]) 0
    ∃ o c', Read.memory (.ofByte 0x44) ⟨0x43⟩ 64 true 32 c = .ok o c' ∧ c'.position = 2 ∧
      (∀ value, o.address value = value (.gpr64 12) + 2 * value (.gpr64 13) + -16) ∧
      o.unsignedDisplacement = 0xF0 := by
  intro c
  have hrest : c.rest = [0x6C, 0xF0, 0x90] := by decide
  obtain ⟨-, hwhole⟩ := memory_effective_address 0x44 0x43 64 true 32 c (by decide) (by decide)
  rw [hrest] at hwhole
  obtain ⟨o, c', hok, -, hposition, haddress, -, hunsigned, -⟩ := hwhole (by decide)
  refine ⟨o, c', hok, hposition.trans (by decide), fun value => ?_, hunsigned.trans (by decide)⟩
  exact haddress value

end X86
