import X86.Address
import X86.Proofs.Reading

/-!
Numbers as bytes. What a read returns, written out again in little-endian two's complement, is the
run of bytes that the read passed over.
-/

namespace X86

namespace Word

/-- The low `width` bytes of a number in two's complement, least significant first. -/
def encode : (width : Nat) → Int → List UInt8
  | 0, _ => []
  | width + 1, v => UInt8.ofNat (v % 256).toNat :: encode width (v / 256)

@[simp] theorem length_encode (width : Nat) (v : Int) : (encode width v).length = width := by
  induction width generalizing v with
  | zero => rfl
  | succ width ih => rw [encode, List.length_cons, ih]

theorem encode_add_mul (width : Nat) (v k : Int) : encode width (v + 256 ^ width * k) = encode width v := by
  induction width generalizing v with
  | zero => rfl
  | succ width ih =>
    have hsplit : v + 256 ^ (width + 1) * k = v + 256 * (256 ^ width * k) := by
      rw [Int.pow_succ, Int.mul_comm (256 ^ width) 256, Int.mul_assoc]
    rw [hsplit, encode, encode, Int.add_mul_emod_self_left,
      Int.add_mul_ediv_left _ _ (by decide), ih]

theorem encode_bmod (width : Nat) (v : Int) : encode width (v.bmod (256 ^ width)) = encode width v := by
  have h : v.bmod (256 ^ width) + 256 ^ width * v.bdiv (256 ^ width) = v := by
    simpa using Int.bmod_add_bdiv v (256 ^ width)
  rw [← encode_add_mul width (v.bmod (256 ^ width)) (v.bdiv (256 ^ width)), h]

theorem encode_littleEndian (bs : List UInt8) : encode bs.length (littleEndian bs) = bs := by
  induction bs with
  | nil => rfl
  | cons b bs ih =>
    have hb : b.toNat < 256 := b.toNat_lt
    have hlow : ((littleEndian (b :: bs) : Int) % 256).toNat = b.toNat := by
      rw [littleEndian_cons]
      omega
    have hhigh : (littleEndian (b :: bs) : Int) / 256 = littleEndian bs := by
      rw [littleEndian_cons]
      omega
    rw [List.length_cons, encode, hlow, hhigh, ih, UInt8.ofNat_toNat]

theorem signExtend_eq_bmod {width : Nat} (h : width ∈ [1, 2, 4, 8]) (n : Nat) :
    signExtend (8 * width) n = (n : Int).bmod (256 ^ width) := by
  have hpow : 2 ^ (8 * width) = 256 ^ width := by rw [Nat.pow_mul]
  simp only [List.mem_cons, List.not_mem_nil, or_false] at h
  rw [← hpow, signExtend.eq_def]
  split
  · next h8 => rw [h8]
  · next h16 => rw [h16]
  · next h32 => rw [h32]
  · next h8 h16 h32 =>
    obtain rfl | rfl | rfl | rfl := h
    · exact absurd rfl h8
    · exact absurd rfl h16
    · exact absurd rfl h32
    · rfl

/-- A signed number is spelled by the bytes it was read from. -/
theorem encode_signExtend {bs : List UInt8} (h : bs.length ∈ [1, 2, 4, 8]) :
    encode bs.length (signExtend (8 * bs.length) (littleEndian bs)) = bs := by
  rw [signExtend_eq_bmod h, encode_bmod, encode_littleEndian]

end Word

def MemoryOperand.displacementBytes (m : MemoryOperand) : List UInt8 :=
  Word.encode (m.displacementSize / 8) m.displacement

namespace Read

variable {c c' : Cursor}

theorem byte_ok {b : UInt8} : byte c = .ok b c' ↔ c.Reads [b] c' := by
  unfold byte
  cases h : c.source.get? c.position with
  | none => simp [h]
  | some b' => simp [h, eq_comm]

theorem bytes_ok {n : Nat} {bs : List UInt8} (h : bytes n c = .ok bs c') :
    bs.length = n ∧ c.Reads bs c' := by
  induction n generalizing c bs with
  | zero =>
    obtain ⟨rfl, rfl⟩ := pure_ok.mp h
    exact ⟨rfl, rfl⟩
  | succ n ih =>
    rw [bytes, bind_ok] at h
    obtain ⟨b, c₁, hb, h⟩ := h
    obtain ⟨bs', c₂, hbs, h⟩ := bind_ok.mp h
    obtain ⟨rfl, rfl⟩ := pure_ok.mp h
    obtain ⟨hlen, hreads⟩ := ih hbs
    refine ⟨by rw [List.length_cons, hlen], ?_⟩
    exact Cursor.reads_append.mpr ⟨c₁, byte_ok.mp hb, hreads⟩

theorem unsigned_ok {w v : Nat} (hw : w ≤ 8) (h : unsigned w c = .ok v c') :
    c.Reads (Word.encode w v) c' ∧ v < 256 ^ w := by
  rw [unsigned, bind_ok] at h
  obtain ⟨bs, c₁, hbs, h⟩ := h
  obtain ⟨rfl, rfl⟩ := pure_ok.mp h
  obtain ⟨hlen, hreads⟩ := bytes_ok hbs
  rw [Nat.min_eq_left hw] at hlen
  subst hlen
  rw [Word.encode_littleEndian]
  exact ⟨hreads, Word.littleEndian_lt bs⟩

theorem signed_ok {w : Nat} {v : Int} (hw : w ∈ [1, 2, 4, 8]) (h : signed w c = .ok v c') :
    c.Reads (Word.encode w v) c' := by
  rw [signed, bind_ok] at h
  obtain ⟨n, c₁, hn, h⟩ := h
  obtain ⟨rfl, rfl⟩ := pure_ok.mp h
  rw [unsigned, bind_ok] at hn
  obtain ⟨bs, c₂, hbs, h⟩ := hn
  obtain ⟨rfl, rfl⟩ := pure_ok.mp h
  obtain ⟨hlen, hreads⟩ := bytes_ok hbs
  have hw8 : w ≤ 8 := by
    simp only [List.mem_cons, List.not_mem_nil, or_false] at hw
    omega
  rw [Nat.min_eq_left hw8] at hlen
  subst hlen
  rwa [Word.encode_signExtend hw]

theorem displaced_ok {w : Nat} {m m' : MemoryOperand} (hw : w ∈ [0, 1, 2, 4])
    (hm : m.displacementSize = 0) (h : displaced w m c = .ok m' c') :
    c.Reads m'.displacementBytes c' := by
  unfold displaced at h
  split at h
  · obtain ⟨rfl, rfl⟩ := pure_ok.mp h
    simp [MemoryOperand.displacementBytes, hm, Word.encode]
  · next hw0 =>
    obtain ⟨v, c₁, hv, h⟩ := bind_ok.mp h
    obtain ⟨rfl, rfl⟩ := pure_ok.mp h
    have hw' : w ∈ [1, 2, 4, 8] := by
      simp only [List.mem_cons, List.not_mem_nil, or_false] at hw ⊢
      omega
    have hsize : 8 * w / 8 = w := by omega
    rw [MemoryOperand.displacementBytes, hsize]
    exact signed_ok hw' hv

theorem displacement16_mem (m : ModRM) : m.displacement16 ∈ [0, 1, 2, 4] := by
  unfold ModRM.displacement16
  split
  · split <;> decide
  · decide
  · decide
  · decide

theorem displacement32_mem (m : ModRM) : m.displacement32 ∈ [0, 1, 2, 4] := by
  unfold ModRM.displacement32
  split
  · split <;> decide
  · decide
  · decide
  · decide

/-- A memory operand is spelled by a SIB byte, if there is one, and its displacement. -/
theorem memory_ok {m : ModRM} {rex : Rex} {addressSize size : Nat} {mode64 : Bool}
    {o : MemoryOperand} (h : memory m rex addressSize mode64 size c = .ok o c') :
    ∃ sib, sib.length = (if m.hasSib addressSize then 1 else 0) ∧
      c.Reads (sib ++ o.displacementBytes) c' := by
  unfold memory at h
  split at h
  · next h16 =>
    have hno : m.hasSib addressSize = false := by simp [ModRM.hasSib, h16]
    refine ⟨[], by simp [hno], ?_⟩
    unfold memory16 at h
    split at h
    · exact displaced_ok (displacement16_mem m) rfl h
    · exact displaced_ok (displacement16_mem m) rfl h
  · split at h
    · next hsib =>
      rw [memorySib, bind_ok] at h
      obtain ⟨b, c₁, hb, h⟩ := h
      have hrest : c₁.Reads o.displacementBytes c' := by
        split at h
        · refine displaced_ok (by decide) ?_ h
          split <;> rfl
        · refine displaced_ok (displacement32_mem m) ?_ h
          split <;> rfl
      exact ⟨[b], by simp [hsib], Cursor.reads_append.mpr ⟨c₁, byte_ok.mp hb, hrest⟩⟩
    · next hsib =>
      refine ⟨[], by simp [hsib], ?_⟩
      split at h
      · exact displaced_ok (displacement32_mem m) rfl h
      · exact displaced_ok (displacement32_mem m) rfl h

end Read
end X86
