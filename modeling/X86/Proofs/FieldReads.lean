import Mathlib.Algebra.BigOperators.Fin
import Mathlib.Tactic.Ring
import X86.Proofs.EffectiveAddress

/-!
Numbers read at a cursor. Whatever was read before, successfully or not, a number of some width is
read exactly where that many bytes remain, and is the sum of these bytes by their places. Otherwise
the cursor stops at the end of its source. The bytes consumed are those between the start and the
position.
-/

namespace X86

namespace Source

theorem slice_eq_ofFn (s : Source) {first n : Nat} (h : first + n ≤ s.length) :
    s.slice first (first + n) = List.ofFn fun k : Fin n => s.byte ⟨first + k, by omega⟩ := by
  induction n generalizing first with
  | zero => simp
  | succ n ih =>
    have hfirst : s.get? first = some (s.byte ⟨first, by omega⟩) := dif_pos (by omega)
    have hsum : first + (n + 1) = first + 1 + n := by omega
    rw [slice_succ hfirst (by omega), hsum, ih (by omega), List.ofFn_succ]
    simp [Nat.add_assoc, Nat.add_comm 1]

end Source

/-- A number is the sum of its bytes, each times the value of its place. -/
theorem Word.littleEndian_ofFn {n : Nat} (f : Fin n → UInt8) :
    littleEndian (List.ofFn f) = ∑ k, (f k).toNat * 256 ^ k.val := by
  induction n with
  | zero => simp
  | succ n ih =>
    rw [List.ofFn_succ, littleEndian_cons, ih, Fin.sum_univ_succ, Finset.mul_sum]
    congr 1
    · simp
    · refine Finset.sum_congr rfl fun k _ => ?_
      rw [Fin.val_succ, pow_succ]
      ring

namespace Cursor

def remaining (c : Cursor) : Nat :=
  c.source.length - c.position

def past (c : Cursor) (n : Nat) : Cursor :=
  { c with position := c.position + n }

/-- The cursor at the end of its source; a cursor that is further on stays where it is. -/
def exhausted (c : Cursor) : Cursor :=
  { c with position := max c.position c.source.length }

def withSource (c : Cursor) (s : Source) : Cursor :=
  { c with source := s }

/-- The unsigned number in the next `n` bytes, the least significant first. -/
def number (c : Cursor) (n : Nat) (h : n ≤ c.remaining) : Nat :=
  ∑ k : Fin n, (c.source.byte ⟨c.position + k, by unfold remaining at h; omega⟩).toNat * 256 ^ k.val

theorem length_rest (c : Cursor) : c.rest.length = c.remaining := by
  obtain hle | hlt := Nat.le_total c.source.length c.position
  · rw [rest_of_atEnd (atEnd_iff.mpr hle), remaining, Nat.sub_eq_zero_of_le hle]
    rfl
  · have hsum : c.position + (c.source.length - c.position) = c.source.length := by omega
    rw [rest, ← hsum, Source.slice_eq_ofFn _ (by omega), List.length_ofFn, remaining]

theorem littleEndian_take_rest {c : Cursor} {n : Nat} (h : n ≤ c.remaining) :
    Word.littleEndian (c.rest.take n) = c.number n h := by
  have hlength : (c.rest.take n).length = n := List.length_take_of_le (c.length_rest ▸ h)
  obtain ⟨c', hreads, -⟩ := exists_reads (List.take_append_drop n c.rest).symm
  have hslice := hreads.slice_eq
  rw [hreads.position_eq, hlength] at hslice
  cases n with
  | zero => simp [number]
  | succ n =>
    unfold remaining at h
    rw [← hslice, Source.slice_eq_ofFn _ (by omega), Word.littleEndian_ofFn]
    rfl

end Cursor

namespace Read

variable (c : Cursor)

theorem bytes_eq (n : Nat) :
    bytes n c = if n ≤ c.remaining then .ok (c.rest.take n) (c.past n)
      else .error .truncated c.exhausted := by
  split
  · next h =>
    have hle : n ≤ c.rest.length := c.length_rest ▸ h
    obtain ⟨c', hreads, hbytes⟩ := bytes_of_le hle
    rw [hbytes, hreads.eq, List.length_take_of_le hle]
    rfl
  · next h =>
    have hlt : c.rest.length < n := by rw [c.length_rest]; omega
    obtain ⟨c', hreads, -, hbytes⟩ := bytes_of_lt hlt
    have hend : c.position + c.remaining = max c.position c.source.length := by
      unfold Cursor.remaining
      omega
    rw [hbytes, hreads.eq, c.length_rest, hend]
    rfl

theorem unsigned_eq (width : Nat) :
    unsigned width c = if h : min width 8 ≤ c.remaining
      then .ok (c.number (min width 8) h) (c.past (min width 8))
      else .error .truncated c.exhausted := by
  have hbytes := bytes_eq c (min width 8)
  split
  · next h =>
    rw [if_pos h] at hbytes
    rw [unsigned, bind_of_ok hbytes, Cursor.littleEndian_take_rest h]
    rfl
  · next h =>
    rw [if_neg h] at hbytes
    exact bind_error hbytes

theorem signed_eq {width : Nat} (hw : width ∈ [1, 2, 4]) :
    signed width c = if h : width ≤ c.remaining
      then .ok (BitVec.ofNat (8 * width) (c.number width h)).toInt (c.past width)
      else .error .truncated c.exhausted := by
  have hmin : min width 8 = width := by
    simp only [List.mem_cons, List.not_mem_nil, or_false] at hw
    omega
  have hextend (n : Nat) : Word.signExtend (8 * width) n = (BitVec.ofNat (8 * width) n).toInt := by
    have hmem : width ∈ [1, 2, 4, 8] := by
      simp only [List.mem_cons, List.not_mem_nil, or_false] at hw ⊢
      omega
    rw [BitVec.toInt_ofNat', Word.signExtend_eq_bmod hmem, Nat.pow_mul]
  have hunsigned := unsigned_eq c width
  simp only [hmin] at hunsigned
  split
  · next h =>
    rw [dif_pos h] at hunsigned
    rw [signed, bind_of_ok hunsigned, hextend]
    rfl
  · next h =>
    rw [dif_neg h] at hunsigned
    exact bind_error hunsigned

def outcome (m : Read α) (c : Cursor) : Except Fault α × Nat :=
  match m c with
  | .ok a c' => (.ok a, c'.position)
  | .error e c' => (.error e, c'.position)

theorem outcome_unsigned_withSource {width : Nat} {other : Source}
    (hlength : other.length = c.source.length)
    (h : ∀ k, c.position ≤ k → k < c.position + min width 8 → other.get? k = c.source.get? k) :
    outcome (unsigned width) (c.withSource other) = outcome (unsigned width) c := by
  have hremaining : (c.withSource other).remaining = c.remaining := by
    show other.length - c.position = c.source.length - c.position
    rw [hlength]
  unfold outcome
  rw [unsigned_eq, unsigned_eq]
  by_cases hle : min width 8 ≤ c.remaining
  · rw [dif_pos hle, dif_pos (hremaining ▸ hle)]
    have hnumber : (c.withSource other).number (min width 8) (hremaining ▸ hle) =
        c.number (min width 8) hle := by
      unfold Cursor.remaining at hle
      refine Finset.sum_congr rfl fun k _ => ?_
      have hk := h (c.position + k) (by omega) (by omega)
      rw [Source.get?, Source.get?, dif_pos (by omega), dif_pos (by omega), Option.some.injEq] at hk
      rw [← hk]
      rfl
    rw [hnumber]
    rfl
  · rw [dif_neg hle, dif_neg (hremaining ▸ hle)]
    show ((.error .truncated : Except Fault Nat), max c.position other.length) = _
    rw [hlength]
    rfl

def finish (m : Read α) (c : Cursor) : Cursor :=
  match m c with
  | .ok _ c' | .error _ c' => c'

theorem finish_of_ok {m : Read α} {c c' : Cursor} {a : α} (h : m c = .ok a c') :
    m.finish c = c' := by
  rw [finish, h]

theorem finish_of_error {m : Read α} {c c' : Cursor} {e : Fault} (h : m c = .error e c') :
    m.finish c = c' := by
  rw [finish, h]

theorem finish_bind_pure (m : Read α) (f : α → β) :
    (m >>= fun a => pure (f a)).finish c = m.finish c := by
  cases h : m c with
  | ok a c' =>
    have hbind : (m >>= fun a => pure (f a)) c = .ok (f a) c' := bind_of_ok h
    rw [finish_of_ok h, finish_of_ok hbind]
  | error e c' => rw [finish_of_error h, finish_of_error (bind_error h)]

theorem reads_finish_byte : ∃ bs, c.Reads bs (byte.finish c) := by
  cases hb : c.source.get? c.position with
  | some b =>
    have hreads : c.Reads [b] c.advance := ⟨hb, rfl⟩
    exact ⟨[b], finish_of_ok (byte_ok.mpr hreads) ▸ hreads⟩
  | none => exact ⟨[], finish_of_error (byte_of_atEnd hb)⟩

theorem reads_finish_bytes (n : Nat) : ∃ bs, c.Reads bs ((bytes n).finish c) := by
  obtain hlt | hle := Nat.lt_or_ge c.rest.length n
  · obtain ⟨c', hreads, -, hbytes⟩ := bytes_of_lt hlt
    exact ⟨_, finish_of_error hbytes ▸ hreads⟩
  · obtain ⟨c', hreads, hbytes⟩ := bytes_of_le hle
    exact ⟨_, finish_of_ok hbytes ▸ hreads⟩

end Read

namespace Cursor

/-- A read that can be asked of a cursor: a byte, or a number of some width. -/
inductive Request
  | byte
  | unsigned (width : Nat)
  | signed (width : Nat)
  deriving DecidableEq

def perform (c : Cursor) : Request → Cursor
  | .byte => Read.byte.finish c
  | .unsigned width => (Read.unsigned width).finish c
  | .signed width => (Read.signed width).finish c

def performAll (c : Cursor) (requests : List Request) : Cursor :=
  requests.foldl perform c

theorem reads_perform (c : Cursor) (r : Request) : ∃ bs, c.Reads bs (c.perform r) := by
  cases r with
  | byte => exact Read.reads_finish_byte c
  | unsigned width =>
    rw [perform, Read.unsigned, Read.finish_bind_pure]
    exact Read.reads_finish_bytes c _
  | signed width =>
    rw [perform, Read.signed, Read.finish_bind_pure, Read.unsigned, Read.finish_bind_pure]
    exact Read.reads_finish_bytes c _

theorem reads_performAll (c : Cursor) (requests : List Request) :
    ∃ bs, c.Reads bs (c.performAll requests) := by
  induction requests generalizing c with
  | nil => exact ⟨[], rfl⟩
  | cons r requests ih =>
    obtain ⟨bs, hreads⟩ := c.reads_perform r
    obtain ⟨bs', hreads'⟩ := ih (c.perform r)
    exact ⟨bs ++ bs', reads_append.mpr ⟨_, hreads, hreads'⟩⟩

theorem Reads.consumedBytes_get? {source : Source} {start : Nat} {c : Cursor} {bs : List UInt8}
    (h : (ofStart source start).Reads bs c) {k : Nat} (hk : k < c.consumed) :
    ∃ hlt : start + k < source.length,
      c.consumedBytes[k]? = some (source.byte ⟨start + k, hlt⟩) := by
  have hposition : c.position = start + bs.length := h.position_eq
  have hconsumed : c.consumed = bs.length := h.consumed_eq
  have hstart : start < source.length := by
    cases bs with
    | nil => exact absurd hk (by simp [hconsumed])
    | cons b bs => exact Source.get?_isSome.mp (Option.isSome_of_eq_some h.1)
  have hend : c.position ≤ source.length := h.position_le (Nat.le_of_lt hstart)
  refine ⟨by omega, ?_⟩
  have hslice : c.consumedBytes = source.slice start (start + bs.length) := by
    rw [consumedBytes, h.source_eq, h.start_eq, hposition]
    rfl
  rw [hslice, source.slice_eq_ofFn (by omega), List.getElem?_ofFn, dif_pos (by omega)]

/-- Reads at a cursor are exact, after any reads before. A number of up to eight bytes is read if and
only if its bytes remain. It is then the sum of the bytes by their places, and the cursor stands
behind them; otherwise the input is truncated, and the cursor stands at the end. Numbers of one, two
and four bytes can be read in two's complement. Only the number's own bytes matter. What has been
consumed are the bytes of the source from the start up to the position. That nothing at or past the end
is accessed needs no clause: `Source.byte` takes indices below the length only. -/
theorem reads_exactly (source : Source) (start : Nat) (before : List Request) (width : Nat) :
    let c := (ofStart source start).performAll before
    (c.source = source ∧ c.start = start ∧ c.position = start + c.consumed) ∧
    (Read.unsigned width c = if h : min width 8 ≤ c.remaining
      then .ok (c.number (min width 8) h) (c.past (min width 8))
      else .error .truncated c.exhausted) ∧
    (width ∈ [1, 2, 4] → Read.signed width c = if h : width ≤ c.remaining
      then .ok (BitVec.ofNat (8 * width) (c.number width h)).toInt (c.past width)
      else .error .truncated c.exhausted) ∧
    (∀ other : Source, other.length = source.length →
      (∀ k, c.position ≤ k → k < c.position + min width 8 → other.get? k = source.get? k) →
      Read.outcome (Read.unsigned width) (c.withSource other) =
        Read.outcome (Read.unsigned width) c) ∧
    c.consumedBytes.length = c.consumed ∧
    ∀ k < c.consumed, ∃ h : start + k < source.length,
      c.consumedBytes[k]? = some (source.byte ⟨start + k, h⟩) := by
  intro c
  obtain ⟨bs, hreads⟩ := (ofStart source start).reads_performAll before
  have hsource : c.source = source := hreads.source_eq
  have hposition : c.position = start + bs.length := hreads.position_eq
  have hconsumed : c.consumed = bs.length := hreads.consumed_eq
  refine ⟨⟨hsource, hreads.start_eq, hconsumed ▸ hposition⟩, Read.unsigned_eq c width,
    fun hw => Read.signed_eq c hw, ?_, ?_, fun k hk => hreads.consumedBytes_get? hk⟩
  · intro other hlength h
    exact Read.outcome_unsigned_withSource c (hsource ▸ hlength) (hsource ▸ h)
  · rw [hconsumed, hreads.consumedBytes_eq]

def wordAndNumber : Source :=
  .ofArray #[0x34, 0x12, 0xF7, 0xFF, 0xFF, 0xFF]

theorem reads_exactly_wordAndNumber :
    let c := (ofStart wordAndNumber 0).performAll [.unsigned 2]
    let other := Source.ofArray #[0x00, 0x00, 0xF7, 0xFF, 0xFF, 0xFF]
    4 ∈ [1, 2, 4] ∧ Read.signed 4 c = .ok (-9) (c.past 4) ∧ other.length = wordAndNumber.length ∧
      (∀ k, c.position ≤ k → k < c.position + min 4 8 → other.get? k = wordAndNumber.get? k) ∧
      Read.outcome (Read.unsigned 4) (c.withSource other) = Read.outcome (Read.unsigned 4) c := by
  intro c other
  obtain ⟨-, -, hsigned, hother, -⟩ := reads_exactly wordAndNumber 0 [.unsigned 2] 4
  have hremaining : 4 ≤ c.remaining := by decide
  have hnumber : c.number 4 (by decide) = 0xFFFFFFF7 := by decide
  have hvalue := hsigned (by decide)
  rw [dif_pos hremaining, hnumber] at hvalue
  have hagree : ∀ k, c.position ≤ k → k < c.position + min 4 8 →
      other.get? k = wordAndNumber.get? k := by
    have hposition : c.position = 2 := by decide
    intro k hle hlt
    obtain rfl | rfl | rfl | rfl : k = 2 ∨ k = 3 ∨ k = 4 ∨ k = 5 := by omega
    all_goals decide
  exact ⟨by decide, hvalue, rfl, hagree, hother other rfl hagree⟩

end Cursor
end X86
