import X86.Cursor

/-!
Runs of reads. `Cursor.Reads` says which bytes lie between two positions of a cursor, so that a read
is described by the bytes it passes over, whatever source they come from.
-/

namespace X86

theorem bind_ok {σ α β : Type} {m : EStateM Fault σ α} {f : α → EStateM Fault σ β} {s s' : σ} {b : β} :
    (m >>= f) s = .ok b s' ↔ ∃ a s₁, m s = .ok a s₁ ∧ f a s₁ = .ok b s' := by
  change EStateM.bind m f s = _ ↔ _
  unfold EStateM.bind
  cases m s with
  | ok a s₁ =>
    constructor
    · intro h
      exact ⟨a, s₁, rfl, h⟩
    · rintro ⟨a', s₂, h, h'⟩
      injection h with ha hs
      exact ha ▸ hs ▸ h'
  | error e s₁ => simp

@[simp] theorem pure_ok {σ α : Type} {s s' : σ} {a b : α} :
    (pure a : EStateM Fault σ α) s = .ok b s' ↔ a = b ∧ s = s' := by
  change EStateM.Result.ok a s = .ok b s' ↔ _
  simp

namespace Source

theorem slice_succ {s : Source} {first last : Nat} {b : UInt8} (hb : s.get? first = some b)
    (h : first < last) : s.slice first last = b :: s.slice (first + 1) last := by
  obtain ⟨n, hn⟩ : ∃ n, last - first = n + 1 := ⟨last - first - 1, by omega⟩
  have hn' : last - (first + 1) = n := by omega
  simp [slice, hn, hn', List.range'_succ, hb]

theorem slice_append (s : Source) {first middle last : Nat} (h₁ : first ≤ middle)
    (h₂ : middle ≤ last) : s.slice first middle ++ s.slice middle last = s.slice first last := by
  have hsum : last - first = (middle - first) + (last - middle) := by omega
  have hmid : first + 1 * (middle - first) = middle := by omega
  rw [slice, slice, slice, ← List.filterMap_append, hsum, ← List.range'_append, hmid]

end Source

namespace Cursor

/-- The bytes `bs` lie ahead of `c`, and `c'` stands right behind them. -/
def Reads (c : Cursor) : List UInt8 → Cursor → Prop
  | [], c' => c' = c
  | b :: bs, c' => c.source.get? c.position = some b ∧ c.advance.Reads bs c'

def AtEnd (c : Cursor) : Prop :=
  c.source.get? c.position = none

@[simp] theorem reads_nil {c c' : Cursor} : c.Reads [] c' ↔ c' = c := Iff.rfl

@[simp] theorem reads_cons {c c' : Cursor} {b : UInt8} {bs : List UInt8} :
    c.Reads (b :: bs) c' ↔ c.source.get? c.position = some b ∧ c.advance.Reads bs c' := Iff.rfl

theorem atEnd_iff {c : Cursor} : c.AtEnd ↔ c.source.length ≤ c.position := by
  rw [AtEnd, ← Option.not_isSome_iff_eq_none, Source.get?_isSome, Nat.not_lt]

theorem reads_append {c c'' : Cursor} {xs ys : List UInt8} :
    c.Reads (xs ++ ys) c'' ↔ ∃ c', c.Reads xs c' ∧ c'.Reads ys c'' := by
  induction xs generalizing c with
  | nil => simp
  | cons b xs ih => simp [ih, and_assoc]

theorem Reads.eq {c c' : Cursor} {bs : List UInt8} (h : c.Reads bs c') :
    c' = { c with position := c.position + bs.length } := by
  induction bs generalizing c with
  | nil => simpa using h
  | cons b bs ih =>
    rw [ih h.2]
    simp only [advance, List.length_cons, Nat.add_assoc, Nat.add_comm 1]

theorem Reads.source_eq {c c' : Cursor} {bs : List UInt8} (h : c.Reads bs c') :
    c'.source = c.source := by
  rw [h.eq]

theorem Reads.start_eq {c c' : Cursor} {bs : List UInt8} (h : c.Reads bs c') :
    c'.start = c.start := by
  rw [h.eq]

theorem Reads.position_eq {c c' : Cursor} {bs : List UInt8} (h : c.Reads bs c') :
    c'.position = c.position + bs.length := by
  rw [h.eq]

theorem Reads.slice_eq {c c' : Cursor} {bs : List UInt8} (h : c.Reads bs c') :
    c.source.slice c.position c'.position = bs := by
  induction bs generalizing c with
  | nil => simp [reads_nil.mp h]
  | cons b bs ih =>
    have hlt : c.position < c'.position := by
      have := h.position_eq
      simp only [List.length_cons] at this
      omega
    rw [Source.slice_succ h.1 hlt]
    exact congrArg (b :: ·) (ih h.2)

theorem Reads.position_le {c c' : Cursor} {bs : List UInt8} (h : c.Reads bs c')
    (hc : c.position ≤ c.source.length) : c'.position ≤ c.source.length := by
  induction bs generalizing c with
  | nil => rw [reads_nil.mp h]; exact hc
  | cons b bs ih =>
    have hlt : c.position < c.source.length := Source.get?_isSome.mp (by simp [h.1])
    exact ih (c := c.advance) h.2 hlt

theorem Reads.consumedBytes_eq {source : Source} {start : Nat} {c' : Cursor} {bs : List UInt8}
    (h : (ofStart source start).Reads bs c') : c'.consumedBytes = bs := by
  rw [consumedBytes, h.source_eq, h.start_eq]
  exact h.slice_eq

theorem Reads.consumed_eq {source : Source} {start : Nat} {c' : Cursor} {bs : List UInt8}
    (h : (ofStart source start).Reads bs c') : c'.consumed = bs.length := by
  rw [consumed, h.start_eq, h.position_eq]
  simp [ofStart]

def rest (c : Cursor) : List UInt8 :=
  c.source.slice c.position c.source.length

theorem rest_of_atEnd {c : Cursor} (h : c.AtEnd) : c.rest = [] := by
  have hz : c.source.length - c.position = 0 := Nat.sub_eq_zero_of_le (atEnd_iff.mp h)
  simp [rest, Source.slice, hz]

theorem rest_of_get? {c : Cursor} {b : UInt8} (h : c.source.get? c.position = some b) :
    c.rest = b :: c.advance.rest := by
  have hlt : c.position < c.source.length := Source.get?_isSome.mp (by simp [h])
  rw [rest, Source.slice_succ h hlt]
  rfl

theorem Reads.rest_eq {c c' : Cursor} {bs : List UInt8} (h : c.Reads bs c') :
    c.rest = bs ++ c'.rest := by
  induction bs generalizing c with
  | nil => simp [reads_nil.mp h]
  | cons b bs ih => rw [rest_of_get? h.1, List.cons_append, ih h.2]

theorem atEnd_iff_rest {c : Cursor} : c.AtEnd ↔ c.rest = [] := by
  refine ⟨rest_of_atEnd, fun h => ?_⟩
  cases hb : c.source.get? c.position with
  | none => exact hb
  | some b =>
    rw [rest_of_get? hb] at h
    cases h

theorem exists_reads {c : Cursor} {bs after : List UInt8} (h : c.rest = bs ++ after) :
    ∃ c', c.Reads bs c' ∧ c'.rest = after := by
  induction bs generalizing c with
  | nil => exact ⟨c, rfl, h⟩
  | cons b bs ih =>
    cases hb : c.source.get? c.position with
    | none =>
      rw [rest_of_atEnd hb] at h
      cases h
    | some b' =>
      rw [rest_of_get? hb, List.cons_append, List.cons.injEq] at h
      obtain ⟨rfl, h⟩ := h
      obtain ⟨c', hreads, hrest⟩ := ih h
      exact ⟨c', ⟨hb, hreads⟩, hrest⟩

/-- Two cursors that are equally far from where they started. -/
def Abreast (c d : Cursor) : Prop :=
  ∃ k, c.position = c.start + k ∧ d.position = d.start + k

theorem Abreast.consumed_eq {c d : Cursor} (h : c.Abreast d) : d.consumed = c.consumed := by
  obtain ⟨k, hc, hd⟩ := h
  simp [consumed, hc, hd]

theorem Abreast.reads {c d c' d' : Cursor} {bs : List UInt8} (h : c.Abreast d)
    (hc : c.Reads bs c') (hd : d.Reads bs d') : c'.Abreast d' := by
  obtain ⟨k, hk, hk'⟩ := h
  refine ⟨k + bs.length, ?_, ?_⟩
  · rw [hc.position_eq, hc.start_eq, hk, Nat.add_assoc]
  · rw [hd.position_eq, hd.start_eq, hk', Nat.add_assoc]

end Cursor
end X86
