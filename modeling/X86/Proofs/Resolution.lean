import Mathlib.Data.List.Pairwise
import X86.Proofs.Selection

/-!
Resolution against the tree and the scan of the definitions give the same answer. The descent is
described by the routes that a node holds: each table passes on the routes that agree with the state
there, so that the entry found is that of the route that agrees with the state throughout.
-/

namespace X86
namespace Decode

open Lookup

/-- The state is `s`, or `s` with the ModRM byte that a route with the opcode bytes `bs` asks for. -/
def Beside (rs : List Route) (bs : List UInt8) (s s' : State) : Prop :=
  s' = s ∨ s' = s.fetched ∧
    ∃ q ∈ rs, Step.opcodeBytes q.steps = bs ∧ ∃ a : Axis, a.isModRM = true ∧ q.Selects a

/-- Behind the opcode bytes of a route to the entry, and beside what follows them. -/
def Arrives (rs : List Route) (s : State) (e : Nat) (s' : State) : Prop :=
  ∃ r ∈ rs, r.entry = e ∧ ∃ s₁, s.past? (Step.opcodeBytes r.steps) = some s₁ ∧
    Beside rs (Step.opcodeBytes r.steps) s₁ s'

/-- No bytes were read but ModRM, if the routes have no opcode bytes left. -/
def Stays (rs : List Route) (s s' : State) : Prop :=
  (∀ r ∈ rs, Step.opcodeBytes r.steps = []) → Beside rs [] s s'

/-- The bytes ahead end within the opcode bytes of a route, or right before its ModRM byte. -/
def Short (rs : List Route) (s : State) : Prop :=
  ∃ r ∈ rs, s.cursor.rest <+: Step.opcodeBytes r.steps ∧
    (s.cursor.rest ≠ Step.opcodeBytes r.steps ∨
      s.modRM = none ∧ ∃ a : Axis, a.isModRM = true ∧ r.Selects a)

/-- How a descent ends that tries the mandatory prefixes `ms` in turn to find one of the routes. -/
inductive Ends (t : Target) (rs : List Route) (s : State) :
    List (Fin 4) → EStateM.Result Fault State Nat → Prop
  | found {m ms e s'} (sought : sought t s m rs = some e) (arrives : Arrives rs s e s') :
      Ends t rs s (m :: ms) (.ok e (s'.spend m))
  | next {m ms r} (sought : sought t s m rs = none) (ends : Ends t rs s ms r) :
      Ends t rs s (m :: ms) r
  | unknown {s'} (stays : Stays rs s s') : Ends t rs s [] (.error .unknownOpcode s')
  | truncated {ms s'} (atEnd : s'.cursor.AtEnd) (short : Short rs s) :
      Ends t rs s ms (.error .truncated s')

/-- A result that reports what was found, in a state of which `P` holds, or, where `Q` does, that the
bytes ran out. -/
inductive Reports (found : Option Nat) (P : Nat → State → Prop) (Q : Prop) :
    EStateM.Result Fault State Nat → Prop
  | entry {n s'} (eq : found = some n) (state : P n s') : Reports found P Q (.ok n s')
  | unknown {s'} (eq : found = none) : Reports found P Q (.error .unknownOpcode s')
  | truncated {s'} (atEnd : s'.cursor.AtEnd) (short : Q) : Reports found P Q (.error .truncated s')

theorem Reports.imp {found : Option Nat} {P P' : Nat → State → Prop} {Q : Prop}
    {res : EStateM.Result Fault State Nat} (h : Reports found P Q res)
    (himp : ∀ n s', P n s' → P' n s') : Reports found P' Q res := by
  cases h with
  | entry hfound hstate => exact .entry hfound (himp _ _ hstate)
  | unknown hfound => exact .unknown hfound
  | truncated he hshort => exact .truncated he hshort

section Ends

variable {t : Target} {rs rs' : List Route} {s s' : State} {ms : List (Fin 4)}
  {res : EStateM.Result Fault State Nat}

theorem Ends.transport (h : Ends t rs' s' ms res)
    (hsought : ∀ m ∈ ms, sought t s' m rs' = sought t s m rs)
    (harrives : ∀ {e s''}, Arrives rs' s' e s'' → Arrives rs s e s'')
    (hstays : ∀ {s''}, Stays rs' s' s'' → Stays rs s s'') (hshort : Short rs' s' → Short rs s) :
    Ends t rs s ms res := by
  induction h with
  | found hs ha => exact .found ((hsought _ List.mem_cons_self).symm.trans hs) (harrives ha)
  | next hs _ ih =>
    exact .next ((hsought _ List.mem_cons_self).symm.trans hs)
      (ih fun m hm => hsought m (List.mem_cons_of_mem _ hm))
  | unknown hs => exact .unknown (hstays hs)
  | truncated he hshort' => exact .truncated he (hshort hshort')

theorem ends_unknown (hs : ∀ m ∈ ms, sought t s m rs = none) (h : Stays rs s s') :
    Ends t rs s ms (.error .unknownOpcode s') := by
  induction ms with
  | nil => exact .unknown h
  | cons m ms ih =>
    exact .next (hs m List.mem_cons_self) (ih fun m' hm => hs m' (List.mem_cons_of_mem m hm))

theorem ends_append {pre : List (Fin 4)} (h : ∀ m ∈ pre, sought t s m rs = none) :
    Ends t rs s (pre ++ ms) res ↔ Ends t rs s ms res := by
  induction pre with
  | nil => rfl
  | cons m pre ih =>
    have hm := h m List.mem_cons_self
    rw [← ih fun m' hm' => h m' (List.mem_cons_of_mem m hm')]
    constructor
    · intro he
      cases he with
      | found hs _ => simp [hm] at hs
      | next _ he => exact he
      | truncated he hshort => exact .truncated he hshort
    · exact .next hm

theorem ends_choices (hm : ∀ r ∈ rs, ¬ r.Selects .mandatory) (p : PrefixState) :
    Ends t rs s p.choices res ↔ Ends t rs s [0] res := by
  obtain ⟨before, hp, hne⟩ := p.choices_eq
  rw [hp]
  refine ends_append ?_
  intro m hmem
  exact sought_eq_none fun r hr => leads_eq_none (hne m hmem) (hm r hr)

theorem Beside.trans {bs : List UInt8} {s'' : State} (h : Beside rs bs s s')
    (h' : Beside rs bs s' s'') : Beside rs bs s s'' := by
  obtain rfl | ⟨rfl, hq⟩ := h
  · exact h'
  · obtain rfl | ⟨rfl, _⟩ := h'
    · exact Or.inr ⟨rfl, hq⟩
    · exact Or.inr ⟨s.fetched_fetched, hq⟩

theorem Beside.of_through {a : Axis} {i : Nat} {bs : List UInt8} (ha : a ≠ .opcode)
    (h : Beside (Route.through a i rs) bs s s') : Beside rs bs s s' := by
  obtain h | ⟨h, q', hq', hb, c, hc, hsel⟩ := h
  · exact Or.inl h
  · obtain ⟨q, hq, ht⟩ := Route.mem_through.mp hq'
    exact Or.inr ⟨h, q, hq, (Route.opcodeBytes_through ht ha).symm.trans hb, c, hc, hsel.of_through ht⟩

theorem Beside.prefixes_eq {bs : List UInt8} (h : Beside rs bs s s') : s'.prefixes = s.prefixes := by
  obtain rfl | ⟨rfl, _⟩ := h
  · rfl
  · exact s.fetched_prefixes

theorem Beside.setting_eq {bs : List UInt8} (h : Beside rs bs s s') (t : Target) (m : Fin 4) :
    s'.setting t m = s.setting t m := by
  obtain rfl | ⟨rfl, _⟩ := h
  · rfl
  · exact s.setting_fetched t m

theorem opcodeBytes_of_mem_through {a : Axis} {i : Nat} (ha : a ≠ .opcode)
    (hb : ∀ r ∈ rs, Step.opcodeBytes r.steps = []) :
    ∀ r ∈ Route.through a i rs, Step.opcodeBytes r.steps = [] := by
  intro r' hr'
  obtain ⟨r, hr, ht⟩ := Route.mem_through.mp hr'
  exact (Route.opcodeBytes_through ht ha).trans (hb r hr)

theorem arrives_iff (hb : ∀ r ∈ rs, Step.opcodeBytes r.steps = []) {e : Nat} :
    Arrives rs s e s' ↔ (∃ r ∈ rs, r.entry = e) ∧ Beside rs [] s s' := by
  constructor
  · rintro ⟨r, hr, he, s₁, hs, h⟩
    rw [hb r hr] at hs h
    obtain rfl : s = s₁ := Option.some.inj hs
    exact ⟨⟨r, hr, he⟩, h⟩
  · rintro ⟨⟨r, hr, he⟩, h⟩
    rw [← hb r hr] at h
    exact ⟨r, hr, he, s, by rw [hb r hr]; rfl, h⟩

theorem short_iff (hb : ∀ r ∈ rs, Step.opcodeBytes r.steps = []) :
    Short rs s ↔ s.cursor.rest = [] ∧ s.modRM = none ∧
      ∃ r ∈ rs, ∃ a : Axis, a.isModRM = true ∧ r.Selects a := by
  constructor
  · rintro ⟨r, hr, hrest, h⟩
    rw [hb r hr] at hrest h
    have hnil := List.prefix_nil.mp hrest
    obtain h | ⟨hm, ha⟩ := h
    · exact absurd hnil h
    · exact ⟨hnil, hm, r, hr, ha⟩
  · rintro ⟨hnil, hm, r, hr, ha⟩
    exact ⟨r, hr, hnil ▸ List.nil_prefix, Or.inr ⟨hm, ha⟩⟩

theorem Short.of_beside (hb : ∀ r ∈ rs, Step.opcodeBytes r.steps = []) (hs : Beside rs [] s s')
    (h : Short rs s') : Short rs s := by
  obtain rfl | ⟨rfl, _⟩ := hs
  · exact h
  · have hm := ((short_iff hb).mp h).2.1
    rw [State.fetched_modRM] at hm
    rwa [State.fetched_of_peek_eq_none hm] at h

theorem Short.of_through {a : Axis} {i : Nat} (ha : a ≠ .opcode)
    (h : Short (Route.through a i rs) s) : Short rs s := by
  obtain ⟨r', hr', hrest, h⟩ := h
  obtain ⟨r, hr, ht⟩ := Route.mem_through.mp hr'
  rw [Route.opcodeBytes_through ht ha] at hrest h
  refine ⟨r, hr, hrest, ?_⟩
  obtain h | ⟨hm, c, hc, hsel⟩ := h
  · exact Or.inl h
  · exact Or.inr ⟨hm, c, hc, hsel.of_through ht⟩

theorem Ends.of_beside (hb : ∀ r ∈ rs, Step.opcodeBytes r.steps = []) (hs : Beside rs [] s s')
    (h : Ends t rs s' ms res) : Ends t rs s ms res := by
  refine h.transport ?_ ?_ ?_ (·.of_beside hb hs)
  · intro m _
    refine sought_congr ?_
    intro r hr
    rw [leads_plain (hb r hr), leads_plain (hb r hr), hs.setting_eq]
  · intro e s'' ha
    rw [arrives_iff hb] at ha ⊢
    exact ⟨ha.1, hs.trans ha.2⟩
  · intro s'' hstay hnil
    exact hs.trans (hstay hnil)

theorem Ends.of_through {a : Axis} {i : Nat} (ha : a ≠ .opcode)
    (hb : ∀ r ∈ rs, Step.opcodeBytes r.steps = []) (hs : Beside rs [] s s')
    (hsought : ∀ m ∈ ms, sought t s' m (Route.through a i rs) = sought t s m rs)
    (h : Ends t (Route.through a i rs) s' ms res) : Ends t rs s ms res := by
  have hb' := opcodeBytes_of_mem_through (i := i) ha hb
  refine h.transport hsought ?_ ?_ fun hshort => (hshort.of_through ha).of_beside hb hs
  · intro e s'' harr
    rw [arrives_iff hb'] at harr
    rw [arrives_iff hb]
    obtain ⟨⟨r', hr', he⟩, hbeside⟩ := harr
    obtain ⟨r, hr, ht⟩ := Route.mem_through.mp hr'
    exact ⟨⟨r, hr, (Route.through?_eq ht).1.symm.trans he⟩, hs.trans (hbeside.of_through ha)⟩
  · intro s'' hstay _
    exact hs.trans ((hstay hb').of_through ha)

theorem Beside.of_spend {m : Fin 4} (h : Beside (Route.through .mandatory m.val rs) [] (s.spend m) s') :
    ∃ s'', Beside rs [] s s'' ∧ s' = s''.spend m := by
  obtain rfl | ⟨rfl, hq⟩ := h.of_through (by decide)
  · exact ⟨s, Or.inl rfl, rfl⟩
  · exact ⟨s.fetched, Or.inr ⟨rfl, hq⟩, s.fetched_spend m⟩

theorem ends_orElse {m : Fin 4} {n : Node} {restore : PrefixState → PrefixState} {next : Decode Nat}
    (hr : ∀ r ∈ rs, Step.Ordered r.steps) (hb : ∀ r ∈ rs, Step.opcodeBytes r.steps = [])
    (hn : ∀ s₁, Ends t (Route.through .mandatory m.val rs) s₁ [0] (resolve t n s₁))
    (hrestore : restore (s.prefixes.without m) = s.prefixes)
    (hnext : ∀ s', s'.prefixes = s.prefixes → Ends t rs s' ms (next s')) :
    Ends t rs s (m :: ms)
      (orElse (do modify (setPrefixes (·.without m)); resolve t n) restore next s) := by
  have hsought : sought t (s.spend m) 0 (Route.through .mandatory m.val rs) = sought t s m rs :=
    sought_through fun r hmem => leads_mandatory (hr r hmem) (hb r hmem)
  have hb' : ∀ r ∈ Route.through .mandatory m.val rs, Step.opcodeBytes r.steps = [] :=
    opcodeBytes_of_mem_through (by decide) hb
  have hrun : (do modify (setPrefixes (·.without m)); resolve t n : Decode Nat) s =
      resolve t n (s.spend m) := by
    rw [bind_run]
    rfl
  have h := hn (s.spend m)
  unfold orElse
  rw [hrun]
  generalize resolve t n (s.spend m) = r at h
  cases h with
  | found hs harr =>
    obtain ⟨⟨r', hr', he⟩, hbeside⟩ := (arrives_iff hb').mp harr
    obtain ⟨q, hq, ht⟩ := Route.mem_through.mp hr'
    obtain ⟨s'', hs'', rfl⟩ := hbeside.of_spend
    refine .found (hsought.symm.trans hs) ((arrives_iff hb).mpr ⟨⟨q, hq, ?_⟩, hs''⟩)
    exact (Route.through?_eq ht).1.symm.trans he
  | next hs hend =>
    cases hend with
    | unknown hstay =>
      obtain ⟨s'', hs'', rfl⟩ := (hstay hb').of_spend
      have hp : s''.prefixes = s.prefixes := hs''.prefixes_eq
      have hback : setPrefixes restore (s''.spend m) = s'' := by
        have hrestore' : restore (s''.prefixes.without m) = s''.prefixes := by rw [hp, hrestore]
        change { s'' with prefixes := restore (s''.prefixes.without m) } = s''
        rw [hrestore']
      refine .next (hsought.symm.trans hs) (.of_beside hb hs'' ?_)
      simpa only [hback] using hnext s'' hp
    | truncated he hshort => exact .truncated he (hshort.of_through (by decide))
  | truncated he hshort => exact .truncated he (hshort.of_through (by decide))

theorem ends_mandatory {slots : List Node} (hr : ∀ r ∈ rs, Step.Ordered r.steps)
    (hb : ∀ r ∈ rs, Step.opcodeBytes r.steps = [])
    (hn : ∀ (m : Fin 4) s₁, Ends t (Route.through .mandatory m.val rs) s₁ [0]
      (resolve t (slots.getD m.val .empty) s₁)) :
    Ends t rs s s.prefixes.choices (resolveMandatory t slots s) := by
  have hplain (s₁ : State) : Ends t rs s₁ [0] (resolve t (slots.getD 0 .empty) s₁) := by
    refine (hn 0 s₁).of_through (by decide) hb (Or.inl rfl) ?_
    intro m hm
    obtain rfl := List.mem_singleton.mp hm
    exact sought_through fun r hmem => leads_mandatory (hr r hmem) (hb r hmem)
  have hsized (s₁ : State) :
      Ends t rs s₁ ((if s₁.prefixes.operandSize then [1] else []) ++ [0])
        (resolveSized t slots s₁) := by
    change Ends t rs s₁ _ ((if s₁.prefixes.operandSize then _ else _ : Decode Nat) s₁)
    cases ho : s₁.prefixes.operandSize with
    | false => exact hplain s₁
    | true =>
      refine ends_orElse (m := 1) hr hb (hn 1) ?_ fun s' _ => hplain s'
      simp [PrefixState.without, ← ho]
  have hnext (s' : State) (hp : s'.prefixes = s.prefixes) :
      Ends t rs s' ((if s.prefixes.operandSize then [1] else []) ++ [0]) (resolveSized t slots s') :=
    hp ▸ hsized s'
  unfold PrefixState.choices
  cases hrep : s.prefixes.repeated with
  | none =>
    rw [resolveMandatory_none t slots hrep]
    exact hsized s
  | some r =>
    rw [resolveMandatory_some t slots hrep]
    cases r with
    | f2 =>
      refine ends_orElse (m := 2) hr hb (hn 2) ?_ hnext
      simp [PrefixState.without, ← hrep]
    | f3 =>
      refine ends_orElse (m := 3) hr hb (hn 3) ?_ hnext
      simp [PrefixState.without, ← hrep]

theorem selects_opcode_of_apart (hap : rs.Pairwise Route.Apart)
    (hcause : ∃ p ∈ rs, p.Selects .opcode) : ∀ r ∈ rs, r.Selects .opcode := by
  have hpair : rs.Pairwise fun p q =>
      (Step.opcodeBytes p.steps = [] ↔ Step.opcodeBytes q.steps = []) := by
    refine hap.imp ?_
    rintro p q (h | h)
    · constructor
      · intro hp
        simp [hp, parted] at h
      · intro hq
        simp [hq, parted] at h
    · rw [h.bytes]
  obtain ⟨p, hp, hpo⟩ := hcause
  intro r hr
  have hsymm : Std.Symm fun p q : Route =>
      (Step.opcodeBytes p.steps = [] ↔ Step.opcodeBytes q.steps = []) := ⟨fun _ _ => Iff.symm⟩
  have hiff := hpair.forall_of_forall (by simp) hp hr
  rw [Route.selects_opcode] at hpo ⊢
  exact fun h => hpo (hiff.mpr h)

theorem apart_through {a : Axis} (i : Nat) (hfit : ∀ r ∈ rs, Step.Ordered r.steps)
    (hap : rs.Pairwise Route.Apart) : (Route.through a i rs).Pairwise Route.Apart := by
  rw [Route.through, List.pairwise_filterMap]
  refine hap.imp_of_mem ?_
  intro p q hp hq h p' hp' q' hq'
  exact branching.apart_through (hfit p hp) (hfit q hq) h hp' hq'

theorem ends_opcode {slots : List Node} (hsel : ∀ r ∈ rs, r.Selects .opcode) (hne : rs ≠ [])
    (hn : ∀ (b : UInt8) s₁, Ends t (Route.through .opcode b.toNat rs) s₁ s₁.prefixes.choices
      (resolve t (slots.getD b.toNat .empty) s₁)) :
    Ends t rs s s.prefixes.choices (resolve t (.table .opcode slots) s) := by
  rw [resolve_axis t slots (by decide) (by decide), bind_run, slotOn_opcode_run]
  obtain ⟨p, hp⟩ := List.exists_mem_of_ne_nil rs hne
  cases hb : s.cursor.source.get? s.cursor.position with
  | none =>
    refine .truncated hb ⟨p, hp, ?_⟩
    rw [Cursor.rest_of_atEnd hb]
    exact ⟨List.nil_prefix, Or.inl (Route.selects_opcode.mp (hsel p hp)).symm⟩
  | some b =>
    have hbytes {r r' : Route} (hr : r ∈ rs) (ht : r.through? .opcode b.toNat = some r') :
        Step.opcodeBytes r.steps = b :: Step.opcodeBytes r'.steps := by
      obtain h | ⟨h, _⟩ := Route.opcodeBytes_through_opcode ht
      · rwa [UInt8.ofNat_toNat] at h
      · exact absurd h (Route.selects_opcode.mp (hsel r hr))
    have hrest : s.cursor.rest = b :: (s.step b).cursor.rest := Cursor.rest_of_get? hb
    refine (hn b (s.step b)).transport ?_ ?_ ?_ ?_
    · intro m _
      exact sought_through fun r hr => leads_opcode (hsel r hr) hb
    · rintro e s'' ⟨r', hr', he, s₁, hs₁, hbeside⟩
      obtain ⟨r, hr, ht⟩ := Route.mem_through.mp hr'
      refine ⟨r, hr, (Route.through?_eq ht).1.symm.trans he, s₁, ?_, ?_⟩
      · rw [hbytes hr ht, State.past?, if_pos hb]
        exact hs₁
      · rw [hbytes hr ht]
        obtain h | ⟨h, q', hq', hqb, c, hc, hqc⟩ := hbeside
        · exact Or.inl h
        · obtain ⟨q, hq, hqt⟩ := Route.mem_through.mp hq'
          exact Or.inr ⟨h, q, hq, by rw [hbytes hq hqt, hqb], c, hc, hqc.of_through hqt⟩
    · intro s'' _ hnil
      exact absurd (hnil p hp) (Route.selects_opcode.mp (hsel p hp))
    · rintro ⟨r', hr', hrest', h⟩
      obtain ⟨r, hr, ht⟩ := Route.mem_through.mp hr'
      refine ⟨r, hr, ?_, ?_⟩
      · rw [hbytes hr ht, hrest]
        exact List.cons_prefix_cons.mpr ⟨rfl, hrest'⟩
      · rw [hbytes hr ht, hrest]
        obtain h | ⟨hm, c, hc, hsel⟩ := h
        · exact Or.inl (by simpa using h)
        · exact Or.inr ⟨hm, c, hc, hsel.of_through ht⟩

theorem isEmpty_iff {n : Node} (h : branching.Holds n rs) : n.isEmpty = true ↔ rs = [] := by
  cases h with
  | empty => simp [Node.isEmpty]
  | leaf e => simp [Node.isEmpty]
  | table _ _ _ cause _ =>
    obtain ⟨r, hr, _⟩ := cause
    simp only [Node.isEmpty, Bool.false_eq_true, false_iff]
    rintro rfl
    cases hr

theorem eq_of_mem_vendor (hap : rs.Pairwise Route.Apart)
    (hclear : ∀ r ∈ rs, branching.Clear .vendor r) {r : Route} (hr : r ∈ rs) : rs = [r] := by
  cases rs with
  | nil => cases hr
  | cons p rest =>
    cases rest with
    | nil => rw [List.mem_singleton.mp hr]
    | cons q rest =>
      have hp := hclear p List.mem_cons_self
      have hb : Step.opcodeBytes p.steps = [] := by
        by_contra hne
        exact hp .opcode rfl (Route.selects_opcode.mpr hne)
      obtain h | h := (List.pairwise_cons.mp hap).1 q List.mem_cons_self
      · simp [hb, parted] at h
      · obtain ⟨c, hco, hcv, i, j, hi, _, _⟩ := h.differ
        have hcl : Axis.vendor.closes c = true := by
          revert hcv
          cases c <;> decide
        exact absurd (Route.selects_iff.mpr (by simp [hi])) (hp c hcl)

/-- The vendor slot that is taken is that of the route, unless the vendor filter excludes it. -/
theorem agrees_vendor {slots : List Node} {r : Route} {x : Step} {m : Fin 4}
    (hslot : branching.Holds (slots.getD 0 .empty) (Route.through .vendor 0 [r]))
    (hx : x.axis = .vendor) (hxr : Step.slot? .vendor r.steps = some x.index.val) :
    (s.setting t m).agrees x = (vendorSlot t.vendor slots == x.index.val) := by
  obtain ⟨a, i⟩ := x
  obtain rfl : a = .vendor := hx
  obtain ⟨mode, v⟩ := t
  cases v with
  | amd => exact Bool.beq_comm
  | intel => exact Bool.beq_comm
  | any =>
    have hempty := isEmpty_iff hslot
    cases hf : Step.takeFirst? .vendor r.steps with
    | none =>
      rw [Step.slot?_eq_none.mpr (Step.takeFirst?_none.mp hf)] at hxr
      cases hxr
    | some p =>
      obtain ⟨j, rest⟩ := p
      obtain rfl : j = i.val := Option.some.inj ((Step.slot?_of_takeFirst? hf).symm.trans hxr)
      have hthrough : Route.through .vendor 0 [r] = [] ↔ i.val ≠ 0 := by
        rw [Route.through, List.filterMap_cons, Route.through?_of_some hf]
        by_cases h0 : i.val = 0
        · simp [h0]
        · simp [h0]
      rw [hthrough] at hempty
      have hlt : i.val < 2 := i.isLt
      change true = ((if (slots.getD 0 .empty).isEmpty then 1 else 0) == i.val)
      by_cases h0 : i.val = 0
      · have hne : ¬ (slots.getD 0 .empty).isEmpty = true := fun he => hempty.mp he h0
        rw [if_neg hne, h0]
        rfl
      · rw [if_pos (hempty.mpr h0)]
        have h1 : i.val = 1 := by omega
        simp [h1]

theorem ends_vendor {slots : List Node} (hap : rs.Pairwise Route.Apart)
    (hclear : ∀ r ∈ rs, branching.Clear .vendor r) (hb : ∀ r ∈ rs, Step.opcodeBytes r.steps = [])
    (hslot : branching.Holds (slots.getD 0 .empty) (Route.through .vendor 0 rs))
    (hn : ∀ i < 2, Ends t (Route.through .vendor i rs) s s.prefixes.choices
      (resolve t (slots.getD i .empty) s)) :
    Ends t rs s s.prefixes.choices (resolve t (.table .vendor slots) s) := by
  have hi : vendorSlot t.vendor slots < 2 := by
    unfold vendorSlot
    split
    · decide
    · decide
    · split <;> decide
  rw [resolve_vendor]
  refine (hn _ hi).of_through (by decide) hb (Or.inl rfl) ?_
  intro m _
  refine sought_through ?_
  intro r hr
  have hone := eq_of_mem_vendor hap hclear hr
  refine leads_selector (by decide) (by decide) (hb r hr) rfl ?_
  intro x _ hx hxr
  exact agrees_vendor (hone ▸ hslot) hx hxr

theorem ends_selector {a : Axis} {slots : List Node} (ho : a ≠ .opcode) (hm : a ≠ .mandatory)
    (hv : a ≠ .vendor) (hclear : ∀ r ∈ rs, branching.Clear a r)
    (hb : ∀ r ∈ rs, Step.opcodeBytes r.steps = []) (hcause : ∃ r ∈ rs, r.Selects a)
    (hn : ∀ i < a.slotCount, ∀ s₁, Ends t (Route.through a i rs) s₁ s₁.prefixes.choices
      (resolve t (slots.getD i .empty) s₁)) :
    Ends t rs s s.prefixes.choices (resolve t (.table a slots) s) := by
  obtain ⟨r₀, hr₀, hsel⟩ := hcause
  rw [resolve_axis t slots hm hv, bind_run]
  obtain ⟨hrun, hpeek, ha⟩ | ⟨i, s', hrun, hi, hs', hag⟩ := settled_slotOn t ho hm hv s
  · obtain ⟨hnone, hend⟩ := State.peek_eq_none hpeek
    rw [hrun]
    exact .truncated hend ((short_iff hb).mpr
      ⟨Cursor.rest_of_atEnd hend, hnone, r₀, hr₀, a, ha, hsel⟩)
  · rw [hrun]
    have hbeside : Beside rs [] s s' := by
      obtain h | ⟨h, ha⟩ := hs'
      · exact Or.inl h
      · exact Or.inr ⟨h, r₀, hr₀, hb r₀ hr₀, a, ha, hsel⟩
    have hends := hn i hi s'
    rw [hbeside.prefixes_eq] at hends
    refine hends.of_through ho hb hbeside ?_
    intro m _
    refine sought_through ?_
    intro r hr
    by_cases h0 : a = .operandSize → m = 0
    · exact leads_selector ho hm (hb r hr) (hbeside.setting_eq t m) fun x _ hx _ => hag m h0 x hx
    · obtain ⟨rfl, hm0⟩ := Classical.not_imp.mp h0
      have hno : ¬ r.Selects .mandatory := hclear r hr .mandatory rfl
      rw [leads_eq_none hm0 hno]
      cases ht : r.through? .operandSize i with
      | none => rfl
      | some r' => exact leads_eq_none hm0 fun h => hno (h.of_through ht)

/-- The descent finds what the routes lead to. -/
theorem ends_of_holds {n : Node} (h : branching.Holds n rs) (hap : rs.Pairwise Route.Apart)
    (t : Target) (s : State) : Ends t rs s s.prefixes.choices (resolve t n s) := by
  induction h generalizing s with
  | empty =>
    rw [resolve_empty]
    exact ends_unknown (fun m _ => rfl) fun _ => Or.inl rfl
  | leaf e =>
    rw [resolve_leaf, ends_choices (by simp [Route.Selects])]
    have hnil : ∀ r ∈ [(⟨[], e⟩ : Route)], Step.opcodeBytes r.steps = [] := by simp [Step.opcodeBytes]
    have harr : Arrives [⟨[], e⟩] s e s := (arrives_iff hnil).mpr ⟨by simp, Or.inl rfl⟩
    refine .found ?_ harr
    simp [sought, leads, Step.opcodeBytes, Setting.admits, State.setting]
  | @table a slots rs width fit clear cause slot ih =>
    have ih' (i : Nat) (hi : i < a.slotCount) := ih i hi (apart_through i fit hap)
    by_cases ho : a = .opcode
    · subst ho
      have hne : rs ≠ [] := by
        rintro rfl
        obtain ⟨r, hr, _⟩ := cause
        cases hr
      exact ends_opcode (selects_opcode_of_apart hap cause) hne fun b => ih' b.toNat b.toNat_lt
    · have hb : ∀ r ∈ rs, Step.opcodeBytes r.steps = [] := by
        intro r hr
        by_contra hne
        exact clear r hr .opcode (Axis.closes_opcode ho) (Route.selects_opcode.mpr hne)
      by_cases hm : a = .mandatory
      · subst hm
        rw [resolve_mandatory]
        refine ends_mandatory fit hb fun m s₁ => ?_
        refine (ends_choices ?_ s₁.prefixes).mp (ih' m.val m.isLt s₁)
        intro r' hr'
        obtain ⟨r, hr, ht⟩ := Route.mem_through.mp hr'
        exact Route.not_selects_through (fit r hr) ht (by decide)
      · by_cases hv : a = .vendor
        · subst hv
          exact ends_vendor hap clear hb (slot 0 (by decide)) fun i hi => ih' i hi s
        · exact ends_selector ho hm hv clear hb cause ih'

theorem Ends.reports (h : Ends t rs s ms res) :
    Reports (ms.findSome? (sought t s · rs))
      (fun e s' => ∃ m ∈ ms, sought t s m rs = some e ∧ ∃ s₁, Arrives rs s e s₁ ∧ s' = s₁.spend m)
      (Short rs s) res := by
  induction h with
  | @found m ms e s₁ hs ha =>
    exact .entry (by simp [hs]) ⟨m, List.mem_cons_self, hs, s₁, ha, rfl⟩
  | @next m ms res hs _ ih =>
    rw [List.findSome?_cons, hs]
    cases ih with
    | entry hfound hstate =>
      obtain ⟨m', hm', hstate⟩ := hstate
      exact .entry hfound ⟨m', List.mem_cons_of_mem m hm', hstate⟩
    | unknown hfound => exact .unknown hfound
    | truncated he hshort => exact .truncated he hshort
  | unknown _ => exact .unknown rfl
  | truncated he hshort => exact .truncated he hshort

end Ends

section Root

theorem holds_child {root : Node} {rs : List Route} (h : branching.Holds root rs) (hne : rs ≠ [])
    (hsel : ∀ r ∈ rs, r.Selects .opcode) (b : UInt8) :
    branching.Holds (root.child b.toNat) (Route.through .opcode b.toNat rs) := by
  cases h with
  | empty => exact absurd rfl hne
  | leaf e =>
    obtain ⟨x, hx, _⟩ := hsel _ List.mem_cons_self
    cases hx
  | @table a slots _ width fit clear cause slot =>
    obtain ⟨r, hr, _⟩ := cause
    by_cases ha : a = .opcode
    · subst ha
      exact slot b.toNat b.toNat_lt
    · exact absurd (hsel r hr) (clear r hr .opcode (Axis.closes_opcode ha))

theorem admits_inOrder (v : Setting) (steps : List Step) :
    v.admits (Step.inOrder steps) = v.admits steps := by
  rw [Bool.eq_iff_iff]
  simp [Setting.admits, Step.mem_inOrder]

/-- From its first byte on, the route of a definition leads to it if the definition describes what
is read. -/
theorem leads_describes {t : Target} {s : State} {m : Fin 4} {d : Definition} {first : UInt8}
    (hs : s.modRM = none) (hd : d.opcodeBytes ≠ []) (n : Nat) :
    (Route.through? .opcode first.toNat ⟨Step.inOrder d.steps, n⟩).bind (leads t s m) =
      if d.describes t s.prefixes m (first :: s.cursor.rest) then some n else none := by
  have hbytes := d.opcodeBytes_inOrder
  cases hf : Step.takeFirst? .opcode (Step.inOrder d.steps) with
  | none =>
    rw [Step.opcodeBytes_eq_nil.mpr hf] at hbytes
    exact absurd hbytes.symm hd
  | some x =>
    obtain ⟨j, rest⟩ := x
    have hj : j < 256 := Step.takeFirst?_lt hf
    rw [Step.opcodeBytes_takeFirst? hf] at hbytes
    have hadm (v : Setting) : v.admits d.steps = v.admits rest := by
      obtain ⟨y, _, hy, _, hadm⟩ := admits_takeFirst? (v := v) hf (by decide)
      have hag : v.agrees y = true := by simp [Setting.agrees, hy]
      rw [← admits_inOrder, hadm, hag, Bool.true_and]
    rw [Route.through?_of_some hf, Definition.describes, ← hbytes]
    by_cases hjb : j = first.toNat
    · obtain rfl : UInt8.ofNat j = first := by rw [hjb, UInt8.ofNat_toNat]
      rw [if_pos hjb, Option.bind_some, leads]
      simp only [List.isPrefixOf, beq_self_eq_true, Bool.true_and, List.length_cons,
        List.drop_succ_cons]
      cases hpast : s.past? (Step.opcodeBytes rest) with
      | none =>
        have hno : (Step.opcodeBytes rest).isPrefixOf s.cursor.rest = false := by
          rw [Bool.eq_false_iff, ne_eq, List.isPrefixOf_iff_prefix]
          intro h
          have hsome := State.past?_isSome h
          rw [hpast] at hsome
          cases hsome
        rw [hno]
        rfl
      | some s₁ =>
        obtain ⟨hr, hp, hm, _⟩ := State.past?_eq_some hpast
        have hrest := hr.rest_eq
        have hyes : (Step.opcodeBytes rest).isPrefixOf s.cursor.rest = true := by
          rw [List.isPrefixOf_iff_prefix, hrest]
          exact List.prefix_append _ _
        have hset : s₁.setting t m = ⟨t, m, s.prefixes,
            (s.cursor.rest.drop (Step.opcodeBytes rest).length).head?.map ModRM.ofByte⟩ := by
          rw [State.setting, hp, State.peek_eq (hm.trans hs), hrest, List.drop_left]
        rw [Option.bind_some, hset, hyes, Bool.true_and, hadm]
    · have hne : (UInt8.ofNat j == first) = false := by
        rw [beq_eq_false_iff_ne]
        rintro rfl
        exact hjb (UInt8.toNat_ofNat_of_lt hj).symm
      rw [if_neg hjb]
      simp [List.isPrefixOf, hne]

theorem findSome?_routes {ds : List Definition} {f : Route → Option Nat} {q : Definition → Bool}
    (h : ∀ d ∈ ds, ∀ n, f ⟨Step.inOrder d.steps, n⟩ = if q d then some n else none) :
    (Table.routes ds).findSome? f = ds.findIdx? q := by
  induction ds using List.reverseRecOn with
  | nil => rfl
  | append_singleton ds d ih =>
    rw [Table.routes_concat, List.findSome?_append, List.findIdx?_append,
      ih fun x hx => h x (by simp [hx])]
    have hd := h d (by simp) ds.length
    cases hq : q d with
    | true => simp [hd, hq]
    | false => simp [hd, hq]

theorem selects_opcode_of_mem_routes {ds : List Definition} (hds : ∀ d ∈ ds, d.opcodeBytes ≠ [])
    {r : Route} (hr : r ∈ Table.routes ds) : r.Selects .opcode := by
  obtain ⟨d, hd, hsteps⟩ := Table.mem_routes.mp hr
  rw [Route.selects_opcode, hsteps, Definition.opcodeBytes_inOrder]
  exact hds d (List.mem_of_getElem? hd)

theorem holds_child_routes {ds : List Definition} {root : Node}
    (hroot : branching.Holds root (Table.routes ds)) (hds : ∀ d ∈ ds, d.opcodeBytes ≠ [])
    (hne : ds ≠ []) (first : UInt8) :
    branching.Holds (root.child first.toNat)
      (Route.through .opcode first.toNat (Table.routes ds)) := by
  have hrne : Table.routes ds ≠ [] := by
    intro h
    have hlen := congrArg List.length h
    rw [Table.routes, List.length_mapIdx] at hlen
    exact hne (List.length_eq_zero_iff.mp hlen)
  exact holds_child hroot hrne (fun _ hr => selects_opcode_of_mem_routes hds hr) first

/-- Below a root that holds the routes of definitions, resolution reports the first definition found
under the mandatory prefixes in turn. -/
theorem reports_of_holds {ds : List Definition} {root : Node}
    (hroot : branching.Holds root (Table.routes ds)) (hap : (Table.routes ds).Pairwise Route.Apart)
    (hfit : ∀ r ∈ Table.routes ds, Step.Ordered r.steps) (hds : ∀ d ∈ ds, d.opcodeBytes ≠ [])
    (hne : ds ≠ []) (t : Target) {s : State} (hs : s.modRM = none) (first : UInt8) :
    Reports
      (s.prefixes.choices.findSome? fun m =>
        ds.findIdx? fun d => d.describes t s.prefixes m (first :: s.cursor.rest))
      (fun n s' => ∃ m ∈ s.prefixes.choices,
        (ds.findIdx? fun d => d.describes t s.prefixes m (first :: s.cursor.rest)) = some n ∧ ∃ s₁,
        Arrives (Route.through .opcode first.toNat (Table.routes ds)) s n s₁ ∧ s' = s₁.spend m)
      (Short (Route.through .opcode first.toNat (Table.routes ds)) s)
      (resolve t (root.child first.toNat) s) := by
  have hscan (m : Fin 4) :
      sought t s m (Route.through .opcode first.toNat (Table.routes ds)) =
        ds.findIdx? fun d => d.describes t s.prefixes m (first :: s.cursor.rest) := by
    rw [sought, findSome?_through fun _ _ => rfl]
    exact findSome?_routes fun d hd n => leads_describes hs (hds d hd) n
  have h := (ends_of_holds (holds_child_routes hroot hds hne first) (apart_through first.toNat hfit hap)
    t s).reports
  simpa only [hscan] using h

theorem opcodeBytes_ne_nil {d : Definition} (h : d ∈ definitions) : d.opcodeBytes ≠ [] := by
  rw [← (Definition.isProper_iff.mp (isProper_of_mem h)).2.1, Opcode.bytes]
  simp

theorem instructionTable_child_holds (first : UInt8) :
    branching.Holds (instructionTable.root.child first.toNat)
      (Route.through .opcode first.toNat (Table.routes definitions)) :=
  holds_child_routes instructionTable_holds (fun _ h => opcodeBytes_ne_nil h) definitions_ne_nil first

/-- The state in which entry `n` is found: behind the opcode bytes of its definition, and behind the
ModRM byte only if the definition has one. -/
def Found (s : State) (first : UInt8) (n : Nat) (s' : State) : Prop :=
  ∃ d bs s₁, definitions[n]? = some d ∧ d.opcodeBytes = first :: bs ∧ s.past? bs = some s₁ ∧
    ∃ m ∈ s.prefixes.choices,
      s' = s₁.spend m ∨ s' = s₁.fetched.spend m ∧ d.usesModRM = true

/-- The state in which entry `n` is found, as `Found` says, under the mandatory prefix under which its
definition describes the bytes. -/
def Chosen (t : Target) (s : State) (first : UInt8) (n : Nat) (s' : State) : Prop :=
  ∃ d bs s₁, definitions[n]? = some d ∧ d.opcodeBytes = first :: bs ∧ s.past? bs = some s₁ ∧
    ∃ m ∈ s.prefixes.choices, d.describes t s.prefixes m (first :: s.cursor.rest) = true ∧
      (s' = s₁.spend m ∨ s' = s₁.fetched.spend m ∧ d.usesModRM = true)

theorem Chosen.found {t : Target} {s s' : State} {first : UInt8} {n : Nat}
    (h : Chosen t s first n s') : Found s first n s' := by
  obtain ⟨d, bs, s₁, hd, hbytes, hpast, m, hm, -, hs'⟩ := h
  exact ⟨d, bs, s₁, hd, hbytes, hpast, m, hm, hs'⟩

/-- The bytes end within the opcode bytes of a definition, or right before the ModRM byte that it
branches on. -/
def Unfinished (bytes : List UInt8) : Prop :=
  ∃ d ∈ definitions, bytes <+: d.opcodeBytes ∧ (bytes ≠ d.opcodeBytes ∨ d.selectsModRM = true)

theorem exists_definition {first : UInt8} {r' : Route}
    (hr' : r' ∈ Route.through .opcode first.toNat (Table.routes definitions)) :
    ∃ d, definitions[r'.entry]? = some d ∧ d.opcodeBytes = first :: Step.opcodeBytes r'.steps ∧
      ((∃ a : Axis, a.isModRM = true ∧ r'.Selects a) → d.selectsModRM = true) := by
  obtain ⟨r, hr, ht⟩ := Route.mem_through.mp hr'
  obtain ⟨d, hd, hsteps⟩ := Table.mem_routes.mp hr
  refine ⟨d, (Route.through?_eq ht).1 ▸ hd, ?_, ?_⟩
  · obtain h | ⟨h, _⟩ := Route.opcodeBytes_through_opcode ht
    · rwa [hsteps, Definition.opcodeBytes_inOrder, UInt8.ofNat_toNat] at h
    · rw [hsteps, Definition.opcodeBytes_inOrder] at h
      exact absurd h (opcodeBytes_ne_nil (List.mem_of_getElem? hd))
  · rintro ⟨a, ha, hsel⟩
    obtain ⟨x, hx, hxa⟩ := hsel.of_through ht
    rw [hsteps, Step.mem_inOrder] at hx
    rw [Definition.selectsModRM, List.any_eq_true]
    exact ⟨x, hx, by rw [hxa, ha]⟩

theorem chosen_of_arrives {t : Target} {s s₁ : State} {first : UInt8} {n : Nat} {m : Fin 4}
    (hm : m ∈ s.prefixes.choices)
    (hfind : (definitions.findIdx? fun d => d.describes t s.prefixes m (first :: s.cursor.rest)) = some n)
    (h : Arrives (Route.through .opcode first.toNat (Table.routes definitions)) s n s₁) :
    Chosen t s first n (s₁.spend m) := by
  obtain ⟨r', hr', rfl, s₂, hpast, hbeside⟩ := h
  obtain ⟨d, hd, hbytes, _⟩ := exists_definition hr'
  refine ⟨d, _, s₂, hd, hbytes, hpast, m, hm, describes_of_findIdx? hfind hd, ?_⟩
  obtain rfl | ⟨rfl, q', hq', hqb, ha⟩ := hbeside
  · exact Or.inl rfl
  · obtain ⟨d', hd', hbytes', hsel⟩ := exists_definition hq'
    refine Or.inr ⟨rfl, usesModRM_of_selectsModRM (List.mem_of_getElem? hd)
      (List.mem_of_getElem? hd') ?_ (hsel ha)⟩
    rw [hbytes, hbytes', hqb]

theorem unfinished_of_short {s : State} {first : UInt8}
    (h : Short (Route.through .opcode first.toNat (Table.routes definitions)) s) :
    Unfinished (first :: s.cursor.rest) := by
  obtain ⟨r', hr', hrest, h⟩ := h
  obtain ⟨d, hd, hbytes, hsel⟩ := exists_definition hr'
  refine ⟨d, List.mem_of_getElem? hd, ?_, ?_⟩
  · rw [hbytes]
    exact List.cons_prefix_cons.mpr ⟨rfl, hrest⟩
  · rw [hbytes]
    obtain h | ⟨_, ha⟩ := h
    · exact Or.inl (by simpa using h)
    · exact Or.inr (hsel ha)

theorem resolve_chosen (t : Target) {s : State} (hs : s.modRM = none) (first : UInt8) :
    Reports (scan t s.prefixes (first :: s.cursor.rest)) (Chosen t s first)
      (Unfinished (first :: s.cursor.rest))
      (resolve t (instructionTable.root.child first.toNat) s) := by
  have hproper : ∀ d ∈ definitions, d.isProper = true := fun _ h => isProper_of_mem h
  have hap : (Table.routes definitions).Pairwise Route.Apart := routes_apart hproper definitions_suits
  have hfit : ∀ r ∈ Table.routes definitions, Step.Ordered r.steps := routes_ordered hproper
  have hds : ∀ d ∈ definitions, d.opcodeBytes ≠ [] := fun _ h => opcodeBytes_ne_nil h
  have h := reports_of_holds instructionTable_holds hap hfit hds definitions_ne_nil t hs first
  rw [← scan] at h
  generalize resolve t (instructionTable.root.child first.toNat) s = res at h ⊢
  cases h with
  | entry hfound hstate =>
    obtain ⟨m, hm, hfind, s₁, harr, rfl⟩ := hstate
    exact .entry hfound (chosen_of_arrives hm hfind harr)
  | unknown hfound => exact .unknown hfound
  | truncated he hshort => exact .truncated he (unfinished_of_short hshort)

theorem resolve_reports (t : Target) {s : State} (hs : s.modRM = none) (first : UInt8) :
    Reports (scan t s.prefixes (first :: s.cursor.rest)) (Found s first)
      (Unfinished (first :: s.cursor.rest))
      (resolve t (instructionTable.root.child first.toNat) s) :=
  (resolve_chosen t hs first).imp fun _ _ h => h.found

theorem opcode_of_found {s s' : State} {first : UInt8} {n : Nat}
    (ho : s.opcode = Opcode.ofByte first) (h : Found s first n s') :
    ∃ d, definitions[n]? = some d ∧ instructionTable.entries[n]? = some d.entry ∧
      s'.opcode.bytes = d.opcodeBytes ∧
      ∃ modRM, modRM.length ≤ 1 ∧ s.cursor.Reads (d.opcodeBytes.tail ++ modRM) s'.cursor := by
  obtain ⟨d, bs, s₁, hd, hbytes, hpast, m, _, hs'⟩ := h
  obtain ⟨hreads, _, _, hop⟩ := State.past?_eq_some hpast
  have hproper := Definition.isProper_iff.mp (isProper_of_mem (List.mem_of_getElem? hd))
  have hopcode : s₁.opcode.bytes = d.opcodeBytes := by
    rw [← hproper.2.1, Definition.opcode, hbytes, hop, ho]
    rfl
  refine ⟨d, hd, by rw [instructionTable_entries, hd, Option.map_some], ?_, ?_⟩
  · obtain rfl | ⟨rfl, _⟩ := hs'
    · exact hopcode
    · rw [State.spend_opcode, State.fetched_opcode, hopcode]
  · rw [hbytes, List.tail_cons]
    obtain rfl | ⟨rfl, _⟩ := hs'
    · exact ⟨[], by simp, by simpa using hreads⟩
    · obtain ⟨bs', hlen, hreads'⟩ := s₁.reads_fetched
      exact ⟨bs', hlen, Cursor.reads_append.mpr ⟨s₁.cursor, hreads, hreads'⟩⟩

end Root

/-- Descending the tree from the slot of the first opcode byte finds what the scan of the definitions
finds: the one definition that describes the bytes under the first mandatory prefix for which there
is any. It reads the opcode bytes of that definition, and a ModRM byte at most. It runs out of bytes
only where a definition needs more of them. -/
theorem resolve_eq_scan (t : Target) (p : PrefixState) (c : Cursor) (first : UInt8) :
    (∀ m, definitions.countP (fun d => d.describes t p m (first :: c.rest)) ≤ 1) ∧
    match resolve t (instructionTable.root.child first.toNat)
        { cursor := c, prefixes := p, opcode := Opcode.ofByte first } with
    | .ok n s' =>
      scan t p (first :: c.rest) = some n ∧
      ∃ d, definitions[n]? = some d ∧ instructionTable.entries[n]? = some d.entry ∧
        s'.opcode.bytes = d.opcodeBytes ∧
        ∃ modRM, modRM.length ≤ 1 ∧ c.Reads (d.opcodeBytes.tail ++ modRM) s'.cursor
    | .error .truncated s' => s'.cursor.AtEnd ∧ Unfinished (first :: c.rest)
    | .error fault _ => fault = .unknownOpcode ∧ scan t p (first :: c.rest) = none := by
  refine ⟨fun m => countP_describes_le_one t p m _, ?_⟩
  have h := resolve_reports t
    (s := { cursor := c, prefixes := p, opcode := Opcode.ofByte first }) rfl first
  generalize resolve t (instructionTable.root.child first.toNat) _ = res at h ⊢
  cases h with
  | entry hfound hstate => exact ⟨hfound, opcode_of_found rfl hstate⟩
  | unknown hfound => exact ⟨rfl, hfound⟩
  | truncated he hshort => exact ⟨he, hshort⟩

end Decode
end X86
