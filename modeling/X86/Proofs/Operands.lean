import X86.Proofs.Encoding
import X86.Proofs.Stages

/-!
The bytes of operands. Each operand template reads nothing, or the address of a memory operand, or
the bytes of a constant; in a list of templates that puts the address first, the bytes read are a
SIB byte, a displacement and the constants in operand order.
-/

namespace X86

namespace Operand

/-- Whether the operand is a number that stands behind the address bytes. -/
def isTrailing : Operand → Bool
  | immediate _ | relative _ | far _ => true
  | _ => false

def displacementBytes : Operand → List UInt8
  | memory m => m.displacementBytes
  | _ => []

/-- The bytes spell the number in the operand, and are none if it has none. A branch displacement
does not record its width, which is 1, 2 or 4 bytes. -/
def SpelledBy : Operand → List UInt8 → Prop
  | immediate i, bs => bs = Word.encode (i.size / 8) i.value
  | relative r, bs => ∃ width ∈ [1, 2, 4], bs = Word.encode width r.displacement
  | far p, bs => bs = Word.encode (p.size / 8) p.offset.toNat ++ Word.encode 2 p.segment.toNat
  | _, bs => bs = []

/-- Whether no byte behind the opcode and ModRM belongs to the operand. -/
def isSilent (o : Operand) : Bool :=
  !o.isMemory && !o.isTrailing

theorem spelledBy_of_not_isTrailing {o : Operand} (h : o.isTrailing = false) {bs : List UInt8} :
    o.SpelledBy bs ↔ bs = [] := by
  cases o with
  | absent | register | memory | constant => rfl
  | immediate | relative | far => cases h

theorem displacementBytes_of_not_isMemory {o : Operand} (h : o.isMemory = false) :
    o.displacementBytes = [] := by
  cases o with
  | memory => cases h
  | absent | register | constant | immediate | relative | far => rfl

theorem flatMap_displacementBytes {os : List Operand} (h : os.any isMemory = false) :
    os.flatMap displacementBytes = [] := by
  simp only [List.any_eq_false, Bool.not_eq_true] at h
  rw [List.flatMap_eq_nil_iff]
  intro o ho
  exact displacementBytes_of_not_isMemory (h o ho)

theorem isTrailing_of_isMemory {o : Operand} (h : o.isMemory = true) : o.isTrailing = false := by
  cases o with
  | memory => rfl
  | absent | register | constant | immediate | relative | far => cases h

def Spelled : List Operand → List UInt8 → Prop
  | [], bs => bs = []
  | o :: os, bs => ∃ xs ys, bs = xs ++ ys ∧ o.SpelledBy xs ∧ Spelled os ys

theorem Spelled.cons {o : Operand} {os : List Operand} {xs ys : List UInt8} (hx : o.SpelledBy xs)
    (hy : Spelled os ys) : Spelled (o :: os) (xs ++ ys) :=
  ⟨xs, ys, rfl, hx, hy⟩

theorem Spelled.cons_of_not_isTrailing {o : Operand} {os : List Operand} {ys : List UInt8}
    (ho : o.isTrailing = false) (hy : Spelled os ys) : Spelled (o :: os) ys :=
  ⟨[], ys, rfl, (spelledBy_of_not_isTrailing ho).mpr rfl, hy⟩

theorem Spelled.singleton {o : Operand} {xs : List UInt8} (h : o.SpelledBy xs) : Spelled [o] xs :=
  ⟨xs, [], by simp, h, rfl⟩

theorem spelled_of_all_isSilent {os : List Operand} (h : os.all isSilent = true) {bs : List UInt8} :
    Spelled os bs ↔ bs = [] := by
  induction os generalizing bs with
  | nil => rfl
  | cons o os ih =>
    simp only [List.all_cons, Bool.and_eq_true, isSilent, Bool.not_eq_true'] at h
    simp [Spelled, spelledBy_of_not_isTrailing h.1.2, ih h.2]

theorem any_isMemory_of_all_isSilent {os : List Operand} (h : os.all isSilent = true) :
    os.any isMemory = false := by
  simp only [List.any_eq_false, Bool.not_eq_true]
  intro o ho
  have hsilent := List.all_eq_true.mp h o ho
  simp only [isSilent, Bool.and_eq_true, Bool.not_eq_true'] at hsilent
  exact hsilent.1

@[simp] theorem isMemory_settleTarget (finish : UInt64) (o : Operand) :
    (Decode.settleTarget finish o).isMemory = o.isMemory := by
  cases o with
  | _ => rfl

@[simp] theorem displacementBytes_settleTarget (finish : UInt64) (o : Operand) :
    (Decode.settleTarget finish o).displacementBytes = o.displacementBytes := by
  cases o with
  | _ => rfl

@[simp] theorem spelledBy_settleTarget (finish : UInt64) (o : Operand) (bs : List UInt8) :
    (Decode.settleTarget finish o).SpelledBy bs ↔ o.SpelledBy bs := by
  cases o with
  | _ => rfl

@[simp] theorem isSilent_settleTarget (finish : UInt64) (o : Operand) :
    (Decode.settleTarget finish o).isSilent = o.isSilent := by
  cases o with
  | _ => rfl

theorem Spelled.settle {os : List Operand} {bs : List UInt8} (h : Spelled os bs) (finish : UInt64) :
    Spelled (os.map (Decode.settleTarget finish)) bs := by
  induction os generalizing bs with
  | nil => exact h
  | cons o os ih =>
    obtain ⟨xs, ys, rfl, hx, hy⟩ := h
    exact .cons ((spelledBy_settleTarget finish o xs).mpr hx) (ih hy)

end Operand

namespace ModRM

/-- The number of SIB bytes in front of the displacement of a memory operand, given the ModRM byte of
the instruction if it has one. -/
def sibCount (m : Option ModRM) (addressSize : Nat) : Nat :=
  if addressSize ≠ 16 ∧ m.any (·.rm = 4) then 1 else 0

theorem hasSib_iff {m : ModRM} (h : m.isRegister = false) {addressSize : Nat} :
    m.hasSib addressSize = true ↔ addressSize ≠ 16 ∧ m.rm = 4 := by
  simp [hasSib, h]

end ModRM

namespace Decode

/-- Between two states, the bytes of the given operands were read: the SIB byte and displacement of a
memory operand, then the numbers. -/
def Accounts (addressSize : Nat) (s : State) (os : List Operand) (s' : State) : Prop :=
  s'.modRM = s.modRM ∧ os.countP Operand.isMemory ≤ 1 ∧
  ∃ sib numbers, sib.length = (if os.any Operand.isMemory then ModRM.sibCount s.modRM addressSize else 0) ∧
    Operand.Spelled os numbers ∧
    s.cursor.Reads (sib ++ os.flatMap Operand.displacementBytes ++ numbers) s'.cursor

section accounts

variable {addressSize : Nat} {s s₁ s' : State} {o : Operand} {os : List Operand}

theorem accounts_nil : Accounts addressSize s [] s :=
  ⟨rfl, Nat.zero_le _, [], [], rfl, rfl, rfl⟩

theorem accounts_silent (h : o.isSilent = true) : Accounts addressSize s [o] s := by
  simp only [Operand.isSilent, Bool.and_eq_true, Bool.not_eq_true'] at h
  refine ⟨rfl, List.countP_le_length, [], [], by simp [h.1], ?_, ?_⟩
  · exact .singleton ((Operand.spelledBy_of_not_isTrailing h.2).mpr rfl)
  · simp [Operand.displacementBytes_of_not_isMemory h.1]

theorem accounts_number {bs : List UInt8} (h : o.isTrailing = true) (hbs : o.SpelledBy bs)
    (hm : s'.modRM = s.modRM) (hr : s.cursor.Reads bs s'.cursor) : Accounts addressSize s [o] s' := by
  have hno : o.isMemory = false := by
    cases hmem : o.isMemory with
    | false => rfl
    | true => simp [Operand.isTrailing_of_isMemory hmem] at h
  refine ⟨hm, List.countP_le_length, [], bs, by simp [hno], .singleton hbs, ?_⟩
  simpa [Operand.displacementBytes_of_not_isMemory hno] using hr

theorem accounts_memory {m : MemoryOperand} {sib : List UInt8}
    (hsib : sib.length = ModRM.sibCount s.modRM addressSize) (hm : s'.modRM = s.modRM)
    (hr : s.cursor.Reads (sib ++ m.displacementBytes) s'.cursor) :
    Accounts addressSize s [.memory m] s' := by
  refine ⟨hm, List.countP_le_length, sib, [], by simp [hsib, Operand.isMemory], .singleton rfl, ?_⟩
  simpa [Operand.displacementBytes] using hr

theorem Accounts.numbers (h : Accounts addressSize s os s') (hos : os.any Operand.isMemory = false) :
    ∃ numbers, Operand.Spelled os numbers ∧ s.cursor.Reads numbers s'.cursor := by
  obtain ⟨-, -, sib, numbers, hsib, hspell, hr⟩ := h
  rw [hos, if_neg Bool.false_ne_true, List.length_eq_zero_iff] at hsib
  refine ⟨numbers, hspell, ?_⟩
  simpa [hsib, Operand.flatMap_displacementBytes hos] using hr

theorem Accounts.cons_silent (h₁ : Accounts addressSize s [o] s₁) (h : Accounts addressSize s₁ os s')
    (ho : o.isSilent = true) : Accounts addressSize s (o :: os) s' := by
  have hsilent : [o].all Operand.isSilent = true := by simpa using ho
  simp only [Operand.isSilent, Bool.and_eq_true, Bool.not_eq_true'] at ho
  have hcursor : s₁.cursor = s.cursor := by
    obtain ⟨numbers, hspell, hr⟩ := h₁.numbers (by simp [ho.1])
    rw [Operand.spelled_of_all_isSilent hsilent] at hspell
    simpa [hspell] using hr
  obtain ⟨hm, hcount, sib, numbers, hsib, hspell, hr⟩ := h
  rw [h₁.1] at hm hsib
  rw [hcursor] at hr
  refine ⟨hm, by simpa [ho.1] using hcount, sib, numbers, by simpa [ho.1] using hsib,
    .cons_of_not_isTrailing ho.2 hspell, ?_⟩
  simpa [Operand.displacementBytes_of_not_isMemory ho.1] using hr

theorem Accounts.cons (h₁ : Accounts addressSize s [o] s₁) (h : Accounts addressSize s₁ os s')
    (hos : os.any Operand.isMemory = false) : Accounts addressSize s (o :: os) s' := by
  obtain ⟨rest, hrest, hread⟩ := h.numbers hos
  obtain ⟨hm, -, sib, numbers, hsib, ⟨xs, ys, rfl, hxs, rfl⟩, hr⟩ := h₁
  have hnone : os.countP Operand.isMemory = 0 := by
    simpa [List.countP_eq_zero] using hos
  refine ⟨h.1.trans hm, ?_, sib, xs ++ rest, ?_, .cons hxs hrest, ?_⟩
  · rw [List.countP_cons, hnone]
    split <;> omega
  · simpa [hos] using hsib
  · rw [List.flatMap_cons, Operand.flatMap_displacementBytes hos, List.append_nil, ← List.append_assoc]
    refine Cursor.reads_append.mpr ⟨s₁.cursor, ?_, hread⟩
    simpa using hr

theorem accounts_of_all_isSilent (hos : os.all Operand.isSilent = true) :
    Accounts addressSize s os s' ↔ s'.modRM = s.modRM ∧ s'.cursor = s.cursor := by
  have hno := Operand.any_isMemory_of_all_isSilent hos
  constructor
  · intro h
    obtain ⟨numbers, hspell, hr⟩ := h.numbers hno
    rw [Operand.spelled_of_all_isSilent hos] at hspell
    refine ⟨h.1, ?_⟩
    simpa [hspell] using hr
  · rintro ⟨hm, hc⟩
    have hcount : os.countP Operand.isMemory = 0 := by
      simpa [List.countP_eq_zero] using hno
    refine ⟨hm, by omega, [], [], by simp [hno], (Operand.spelled_of_all_isSilent hos).mpr rfl, ?_⟩
    simpa [Operand.flatMap_displacementBytes hno] using hc

theorem Accounts.settle (h : Accounts addressSize s os s') (finish : UInt64) :
    Accounts addressSize s (os.map (settleTarget finish)) s' := by
  obtain ⟨hm, hcount, sib, numbers, hsib, hspell, hr⟩ := h
  refine ⟨hm, ?_, sib, numbers, ?_, Operand.Spelled.settle hspell finish, ?_⟩
  · simpa [List.countP_map, Function.comp_def] using hcount
  · simpa [List.any_map, Function.comp_def] using hsib
  · simpa [List.flatMap_map, Function.comp_def] using hr

end accounts

theorem modRM_of_some {s : State} {m : ModRM} (h : s.modRM = some m) : modRM s = .ok m s := by
  obtain ⟨⟨p, x, o⟩, c⟩ := s
  subst h
  rfl

end Decode

namespace Width

def isWord : Width → Bool
  | t | dq => false
  | _ => true

theorem bits_le {width : Width} (h : width.isWord = true) {operandSize : Nat}
    (hsize : operandSize ≤ 64) {mode64 : Bool} : width.bits operandSize mode64 ≤ 64 := by
  cases width with
  | t | dq => cases h
  | unsized | b | w | d | q => simp [bits]
  | v | p => exact hsize
  | z | y | native =>
    simp only [bits]
    split <;> decide

end Width

namespace Template

/-- Whether the template stands for a number behind the address bytes. -/
def isTrailing : Template → Bool
  | imm _ | immSigned _ | relative _ | farPointer => true
  | _ => false

/-- Whether the template can be read in an instruction with or without a ModRM byte: the fields of
ModRM need one, and a bare address stands only where there is none. -/
def suits (hasModRM : Bool) : Template → Bool
  | imm width | immSigned width => width.isWord
  | offset _ => !hasModRM
  | τ => !τ.usesModRM || hasModRM

def allows (τ : Template) (o : Operand) : Bool :=
  (!o.isMemory || τ.mayAddressMemory) && (!o.isTrailing || τ.isTrailing)

theorem allows_isMemory {τ : Template} {o : Operand} (h : τ.allows o = true)
    (hτ : τ.mayAddressMemory = false) : o.isMemory = false := by
  simpa [allows, hτ] using (Bool.and_eq_true_iff.mp h).1

theorem allows_isSilent {τ : Template} {o : Operand} (h : τ.allows o = true)
    (hτ : (τ.isTrailing || τ.mayAddressMemory) = false) : o.isSilent = true := by
  obtain ⟨htrail, hmem⟩ := Bool.or_eq_false_iff.mp hτ
  simpa [allows, Operand.isSilent, htrail, hmem] using h

/-- Whether at most one of the templates addresses memory and it stands in front of all numbers. -/
def orderly : List Template → Bool
  | [] => true
  | τ :: τs =>
    if τ.isTrailing || τ.mayAddressMemory then τs.all (!·.mayAddressMemory) else orderly τs

theorem orderly_of_all {τs : List Template} (h : τs.all (!·.mayAddressMemory) = true) :
    orderly τs = true := by
  induction τs with
  | nil => rfl
  | cons τ τs ih =>
    rw [List.all_cons, Bool.and_eq_true] at h
    rw [orderly]
    split
    · exact h.2
    · exact ih h.2

end Template

namespace Decode
namespace Frame

variable {f : Frame} {s s' : State} {o : Operand} {width : Width} {m : ModRM}

theorem registerField_ok {r : ModRM → Register} (hm : s.modRM = some m)
    (h : registerField r s = .ok o s') : o = .register (r m) ∧ s' = s := by
  rw [registerField, bind_ok] at h
  obtain ⟨m', s₁, hm', h⟩ := h
  obtain ⟨rfl, rfl⟩ := pure_ok.mp h
  rw [modRM_of_some hm] at hm'
  cases hm'
  exact ⟨rfl, rfl⟩

theorem registerOnly_ok {r : ModRM → Register} (hm : s.modRM = some m)
    (h : registerOnly r s = .ok o s') : o = .register (r m) ∧ s' = s := by
  rw [registerOnly, bind_ok] at h
  obtain ⟨m', s₁, hm', h⟩ := h
  rw [modRM_of_some hm] at hm'
  cases hm'
  split at h
  · obtain ⟨rfl, rfl⟩ := pure_ok.mp h
    exact ⟨rfl, rfl⟩
  · exact absurd h (by simp)

theorem segmentRegister_ok (hm : s.modRM = some m) (h : segmentRegister s = .ok o s') :
    ∃ r, o = .register r ∧ s' = s := by
  rw [segmentRegister, bind_ok] at h
  obtain ⟨m', s₁, hm', h⟩ := h
  rw [modRM_of_some hm] at hm'
  cases hm'
  cases hseg : Segment.ofNumber? m.reg with
  | some r =>
    rw [hseg] at h
    obtain ⟨rfl, rfl⟩ := pure_ok.mp h
    exact ⟨_, rfl, rfl⟩
  | none =>
    rw [hseg] at h
    exact absurd h (by simp)

theorem memory_ok (hm : s.modRM = some m) (hreg : m.isRegister = false)
    (h : f.memory m width s = .ok o s') :
    o.isMemory = true ∧ Accounts f.addressSize s [o] s' := by
  rw [memory, bind_ok] at h
  obtain ⟨mem, s₁, hread, h⟩ := h
  obtain ⟨rfl, rfl⟩ := pure_ok.mp h
  obtain ⟨c, hc, rfl⟩ := read_ok.mp hread
  obtain ⟨sib, hsib, hr⟩ := Read.memory_ok hc
  refine ⟨rfl, accounts_memory ?_ rfl hr⟩
  simpa [ModRM.sibCount, hm, ModRM.hasSib_iff hreg] using hsib

theorem memoryOnly_ok (hm : s.modRM = some m) (h : f.memoryOnly width s = .ok o s') :
    o.isMemory = true ∧ Accounts f.addressSize s [o] s' := by
  rw [memoryOnly, bind_ok] at h
  obtain ⟨m', s₁, hm', h⟩ := h
  rw [modRM_of_some hm] at hm'
  cases hm'
  split at h
  · exact absurd h (by simp)
  · next hreg => exact memory_ok hm (Bool.not_eq_true _ |>.mp hreg) h

theorem registerOrMemory_ok {r : ModRM → Register} (hm : s.modRM = some m)
    (h : f.registerOrMemory width r s = .ok o s') :
    o.isTrailing = false ∧ Accounts f.addressSize s [o] s' := by
  rw [registerOrMemory, bind_ok] at h
  obtain ⟨m', s₁, hm', h⟩ := h
  rw [modRM_of_some hm] at hm'
  cases hm'
  split at h
  · obtain ⟨rfl, rfl⟩ := pure_ok.mp h
    exact ⟨rfl, accounts_silent rfl⟩
  · next hreg =>
    obtain ⟨hmem, hacc⟩ := memory_ok hm (Bool.not_eq_true _ |>.mp hreg) h
    exact ⟨Operand.isTrailing_of_isMemory hmem, hacc⟩

theorem immediate_ok {signExtended : Bool} (hw : f.bits width ≤ 64)
    (h : f.immediate width signExtended s = .ok o s') :
    o.isMemory = false ∧ Accounts f.addressSize s [o] s' := by
  rw [immediate, bind_ok] at h
  obtain ⟨v, s₁, hread, h⟩ := h
  obtain ⟨rfl, rfl⟩ := pure_ok.mp h
  obtain ⟨c, hc, rfl⟩ := read_ok.mp hread
  have hr := (Read.unsigned_ok (by omega) hc).1
  exact ⟨rfl, accounts_number rfl rfl rfl hr⟩

theorem relative_ok (h : f.relative width s = .ok o s') :
    o.isMemory = false ∧ Accounts f.addressSize s [o] s' := by
  rw [relative, bind_ok] at h
  obtain ⟨v, s₁, hread, h⟩ := h
  obtain ⟨rfl, rfl⟩ := pure_ok.mp h
  obtain ⟨c, hc, rfl⟩ := read_ok.mp hread
  have hw : relativeBytes (f.bits width) ∈ [1, 2, 4] := by
    unfold relativeBytes
    split <;> decide
  have hw' : relativeBytes (f.bits width) ∈ [1, 2, 4, 8] := by
    simp only [List.mem_cons, List.not_mem_nil, or_false] at hw ⊢
    omega
  exact ⟨rfl, accounts_number rfl ⟨_, hw, rfl⟩ rfl (Read.signed_ok hw' hc)⟩

theorem farPointer_ok (h : f.farPointer s = .ok o s') :
    o.isMemory = false ∧ Accounts f.addressSize s [o] s' := by
  rw [farPointer, bind_ok] at h
  obtain ⟨offset, s₁, hoffset, h⟩ := h
  obtain ⟨segment, s₂, hsegment, h⟩ := bind_ok.mp h
  obtain ⟨rfl, rfl⟩ := pure_ok.mp h
  obtain ⟨c₁, hc₁, rfl⟩ := read_ok.mp hoffset
  obtain ⟨c₂, hc₂, rfl⟩ := read_ok.mp hsegment
  obtain ⟨hr₁, hlt₁⟩ := Read.unsigned_ok (by split <;> decide) hc₁
  obtain ⟨hr₂, hlt₂⟩ := Read.unsigned_ok (by decide) hc₂
  have h₁ : (UInt32.ofNat offset).toNat = offset := by
    refine UInt32.toNat_ofNat_of_lt' (Nat.lt_of_lt_of_le hlt₁ ?_)
    split <;> decide
  have h₂ : (UInt16.ofNat segment).toNat = segment := UInt16.toNat_ofNat_of_lt' hlt₂
  refine ⟨rfl, accounts_number rfl rfl rfl ?_⟩
  rw [h₁, h₂]
  exact Cursor.reads_append.mpr ⟨c₁, hr₁, hr₂⟩

theorem bareAddress_ok (ha : f.addressSize ∈ [16, 32, 64]) (hm : s.modRM = none)
    (h : f.bareAddress width s = .ok o s') :
    o.isTrailing = false ∧ Accounts f.addressSize s [o] s' := by
  rw [bareAddress, bind_ok] at h
  obtain ⟨v, s₁, hread, h⟩ := h
  obtain ⟨rfl, rfl⟩ := pure_ok.mp h
  obtain ⟨c, hc, rfl⟩ := read_ok.mp hread
  have hsib : ([] : List UInt8).length = ModRM.sibCount s.modRM f.addressSize := by
    simp [ModRM.sibCount, hm]
  refine ⟨rfl, accounts_memory hsib rfl ?_⟩
  obtain ⟨w, hw, hsize⟩ : ∃ w ∈ [1, 2, 4, 8], f.addressSize = 8 * w := by
    simp only [List.mem_cons, List.not_mem_nil, or_false] at ha
    obtain h | h | h := ha
    · exact ⟨2, by decide, h⟩
    · exact ⟨4, by decide, h⟩
    · exact ⟨8, by decide, h⟩
  have hbytes : f.addressSize / 8 = w := by omega
  have hw8 : w ≤ 8 := by
    simp only [List.mem_cons, List.not_mem_nil, or_false] at hw
    omega
  rw [hbytes] at hc
  rw [List.nil_append, MemoryOperand.displacementBytes, hbytes, hsize, Word.signExtend_eq_bmod hw,
    Word.encode_bmod]
  exact (Read.unsigned_ok hw8 hc).1

inductive Yields (f : Frame) : List Template → State → List Operand → State → Prop
  | nil (s : State) : Yields f [] s [] s
  | cons {τ : Template} {τs : List Template} {s s₁ s' : State} {o : Operand} {os : List Operand}
      (head : f.operand τ s = .ok o s₁) (tail : Yields f τs s₁ os s') :
      Yields f (τ :: τs) s (o :: os) s'

section reading

variable {τs : List Template} {os : List Operand}
variable (ha : f.addressSize ∈ [16, 32, 64]) (hsize : f.operandSize ≤ 64)

include ha hsize

/-- What each template reads is accounted for by the operand it gives. -/
theorem operand_ok {τ : Template} (hτ : τ.suits s.modRM.isSome = true)
    (h : f.operand τ s = .ok o s') : τ.allows o = true ∧ Accounts f.addressSize s [o] s' := by
  have hfield : τ.usesModRM = true → ∃ m, s.modRM = some m := by
    intro huse
    refine Option.isSome_iff_exists.mp ?_
    cases τ with
    | _ => simp_all [Template.suits, Template.usesModRM]
  have hregister : ∀ {r : Register}, o = .register r ∧ s' = s →
      τ.allows o = true ∧ Accounts f.addressSize s [o] s' := by
    rintro r ⟨rfl, rfl⟩
    exact ⟨rfl, accounts_silent rfl⟩
  have hnumber : τ.isTrailing = true → o.isMemory = false ∧ Accounts f.addressSize s [o] s' →
      τ.allows o = true ∧ Accounts f.addressSize s [o] s' := by
    rintro hkind ⟨ho, hacc⟩
    exact ⟨by simp [Template.allows, ho, hkind], hacc⟩
  have haddress : τ.mayAddressMemory = true →
      o.isTrailing = false ∧ Accounts f.addressSize s [o] s' →
      τ.allows o = true ∧ Accounts f.addressSize s [o] s' := by
    rintro hkind ⟨ho, hacc⟩
    exact ⟨by simp [Template.allows, ho, hkind], hacc⟩
  cases τ with
  | absent | st0 | fixed | sized | opcodeReg | constant =>
    obtain ⟨rfl, rfl⟩ := pure_ok.mp h
    exact ⟨rfl, accounts_silent rfl⟩
  | reg | rmReg | control | debug | mmxReg | xmmReg | stRm =>
    obtain ⟨m, hm⟩ := hfield rfl
    exact hregister (registerField_ok hm h)
  | mmxRm | xmmRm =>
    obtain ⟨m, hm⟩ := hfield rfl
    exact hregister (registerOnly_ok hm h)
  | segment =>
    obtain ⟨m, hm⟩ := hfield rfl
    obtain ⟨r, hr⟩ := segmentRegister_ok hm h
    exact hregister hr
  | regMem | mmxRegMem | xmmRegMem =>
    obtain ⟨m, hm⟩ := hfield rfl
    exact haddress rfl (registerOrMemory_ok hm h)
  | mem =>
    obtain ⟨m, hm⟩ := hfield rfl
    obtain ⟨ho, hacc⟩ := memoryOnly_ok hm h
    exact haddress rfl ⟨Operand.isTrailing_of_isMemory ho, hacc⟩
  | offset =>
    have hm : s.modRM = none := by simpa [Template.suits] using hτ
    exact haddress rfl (bareAddress_ok ha hm h)
  | imm width | immSigned width =>
    have hw : f.bits width ≤ 64 := Width.bits_le hτ hsize
    exact hnumber rfl (immediate_ok hw h)
  | relative => exact hnumber rfl (relative_ok h)
  | farPointer => exact hnumber rfl (farPointer_ok h)

theorem Yields.allows (h : Yields f τs s os s')
    (hτs : τs.all (Template.suits s.modRM.isSome) = true) {k : Nat}
    {o : Operand} (ho : os[k]? = some o) : ∃ τ, τs[k]? = some τ ∧ τ.allows o = true := by
  induction h generalizing k with
  | nil => simp at ho
  | @cons τ τs s s₁ s' o₀ os head tail ih =>
    rw [List.all_cons, Bool.and_eq_true] at hτs
    obtain ⟨hallow, hacc⟩ := operand_ok ha hsize hτs.1 head
    cases k with
    | zero =>
      obtain rfl : o₀ = o := by simpa using ho
      exact ⟨τ, rfl, hallow⟩
    | succ k => exact ih (hacc.1 ▸ hτs.2) ho

theorem Yields.any_isMemory (h : Yields f τs s os s')
    (hτs : τs.all (Template.suits s.modRM.isSome) = true)
    (hno : τs.all (!·.mayAddressMemory) = true) : os.any Operand.isMemory = false := by
  simp only [List.any_eq_false, Bool.not_eq_true]
  intro o ho
  obtain ⟨k, hk⟩ := List.mem_iff_getElem?.mp ho
  obtain ⟨τ, hτ, hallow⟩ := h.allows ha hsize hτs hk
  have hplain := List.all_eq_true.mp hno τ (List.mem_of_getElem? hτ)
  exact Template.allows_isMemory hallow (by simpa using hplain)

theorem Yields.all_isSilent_drop (h : Yields f τs s os s')
    (hτs : τs.all (Template.suits s.modRM.isSome) = true) (n : Nat)
    (hno : (τs.drop n).all (fun τ => !(τ.isTrailing || τ.mayAddressMemory)) = true) :
    (os.drop n).all Operand.isSilent = true := by
  rw [List.all_eq_true]
  intro o ho
  obtain ⟨k, hk⟩ := List.mem_iff_getElem?.mp ho
  rw [List.getElem?_drop] at hk
  obtain ⟨τ, hτ, hallow⟩ := h.allows ha hsize hτs hk
  rw [← List.getElem?_drop] at hτ
  have hplain := List.all_eq_true.mp hno τ (List.mem_of_getElem? hτ)
  exact Template.allows_isSilent hallow (by simpa using hplain)

/-- What an orderly list of templates reads is accounted for by the operands. -/
theorem Yields.accounts (h : Yields f τs s os s')
    (hτs : τs.all (Template.suits s.modRM.isSome) = true)
    (horder : Template.orderly τs = true) : Accounts f.addressSize s os s' := by
  induction h with
  | nil => exact accounts_nil
  | @cons τ τs s s₁ s' o os head tail ih =>
    rw [List.all_cons, Bool.and_eq_true] at hτs
    obtain ⟨hallow, hacc⟩ := operand_ok ha hsize hτs.1 head
    have hτs' : τs.all (Template.suits s₁.modRM.isSome) = true := hacc.1 ▸ hτs.2
    rw [Template.orderly] at horder
    -- Behind an address or a number no address may follow; anything else reads nothing.
    split at horder
    · have hno := tail.any_isMemory ha hsize hτs' horder
      exact hacc.cons (ih hτs' (Template.orderly_of_all horder)) hno
    · next hsilent =>
      have ho := Template.allows_isSilent hallow (Bool.not_eq_true _ |>.mp hsilent)
      exact hacc.cons_silent (ih hτs' horder) ho

end reading

end Frame

theorem toList_of_four (v : Vector α 4) : v.toList = [v.get 0, v.get 1, v.get 2, v.get 3] := by
  apply List.ext_getElem
  · simp
  · intro i h _
    rw [Vector.length_toList] at h
    obtain rfl | rfl | rfl | rfl : i = 0 ∨ i = 1 ∨ i = 2 ∨ i = 3 := by omega
    all_goals rfl

theorem operands_ok {f : Frame} {τs : Vector Template 4} {ops : Vector Operand 4} {s s' : State}
    (h : operands f τs s = .ok ops s') : f.Yields τs.toList s ops.toList s' := by
  rw [operands, bind_ok] at h
  obtain ⟨o₀, s₀, h₀, h⟩ := h
  obtain ⟨o₁, s₁, h₁, h⟩ := bind_ok.mp h
  obtain ⟨o₂, s₂, h₂, h⟩ := bind_ok.mp h
  obtain ⟨o₃, s₃, h₃, h⟩ := bind_ok.mp h
  obtain ⟨rfl, rfl⟩ := pure_ok.mp h
  rw [toList_of_four]
  exact .cons h₀ (.cons h₁ (.cons h₂ (.cons h₃ (.nil _))))

end Decode
end X86
