import X86.Proofs.Resolution
import X86.Proofs.SelfDelimiting

/-!
The vendor filter. Definitions of one opcode that no field of the instruction tells apart belong to
the same vendor, whatever mandatory prefix they ask for. So the bytes of an instruction belong to one
vendor or to both, and decoding without a filter is decoding for a vendor that they belong to.
-/

namespace X86

namespace Lookup

/-- Axes whose slot is the same under every mandatory prefix. -/
def Axis.isSteady : Axis → Bool
  | reg | mod | rm | mode | addressSize => true
  | _ => false

/-- The definitions have different opcodes, differ on a steady axis, or belong to the same vendor. -/
def Definition.allied (d d' : Definition) : Bool :=
  d.opcodeBytes != d'.opcodeBytes ||
    d.steps.any (fun s => s.axis.isSteady && differs s.axis d.steps d'.steps) ||
      Step.slot? .vendor d.steps == Step.slot? .vendor d'.steps

/-- What `Definition.allied` says of routes. -/
def Route.Allied (p q : Route) : Prop :=
  Step.opcodeBytes p.steps = Step.opcodeBytes q.steps →
    (∃ c : Axis, c.isSteady = true ∧ Route.Differ c p q) ∨
      Step.slot? .vendor p.steps = Step.slot? .vendor q.steps

namespace Route

theorem allied_of_allied {d d' : Definition} (h : d.allied d' = true) (m n : Nat) :
    Allied ⟨Step.inOrder d.steps, m⟩ ⟨Step.inOrder d'.steps, n⟩ := by
  intro hb
  rw [Definition.opcodeBytes_inOrder, Definition.opcodeBytes_inOrder] at hb
  simp only [Definition.allied, hb, bne_self_eq_false, Bool.false_or, Bool.or_eq_true,
    List.any_eq_true, Bool.and_eq_true, beq_iff_eq] at h
  obtain ⟨s, -, hs, hd⟩ | hv := h
  · exact Or.inl ⟨s.axis, hs, differ_of_differs hd m n⟩
  · right
    rwa [Step.slot?_inOrder, Step.slot?_inOrder]

theorem Differ.symm {c : Axis} {p q : Route} (h : Differ c p q) : Differ c q p := by
  obtain ⟨i, j, hi, hj, hne⟩ := h
  exact ⟨j, i, hj, hi, hne.symm⟩

instance : Std.Symm Allied where
  symm _ _ h hb := (h hb.symm).imp (fun ⟨c, hc, hd⟩ => ⟨c, hc, hd.symm⟩) Eq.symm

theorem Allied.through_opcode {p q p' q' : Route} {i : Nat} (h : Allied p q)
    (hp : p.Selects .opcode) (hq : q.Selects .opcode) (hp' : p.through? .opcode i = some p')
    (hq' : q.through? .opcode i = some q') : Allied p' q' := by
  intro hb
  have hpb := (opcodeBytes_through_opcode hp').resolve_right
    fun hnil => selects_opcode.mp hp hnil.1
  have hqb := (opcodeBytes_through_opcode hq').resolve_right
    fun hnil => selects_opcode.mp hq hnil.1
  rw [slot?_through hp' (by decide), slot?_through hq' (by decide)]
  refine (h (by rw [hpb, hqb, hb])).imp_left ?_
  rintro ⟨c, hc, hd⟩
  exact ⟨c, hc, (hd.through hp' hq').2⟩

end Route

end Lookup

open Lookup

theorem definitions_alliedByKey :
    pairsByKey (fun d : Definition => d.opcode.number) Definition.allied 10 definitions = true := by
  decide +kernel

theorem routes_allied : (Table.routes definitions).Pairwise Route.Allied := by
  have hpair : definitions.Pairwise fun d d' => d.allied d' = true := by
    refine pairwise_of_pairsByKey ?_ ?_ definitions_alliedByKey
    · intro d d' h
      have hne : d.opcodeBytes ≠ d'.opcodeBytes := by
        intro hb
        rw [Definition.opcode, Definition.opcode, hb] at h
        exact h rfl
      simp [Definition.allied, hne]
    · intro d d' h
      exact h
  rw [List.pairwise_iff_getElem] at hpair ⊢
  intro i j hi hj hij
  rw [Table.routes, List.length_mapIdx] at hi hj
  simp only [Table.routes, List.getElem_mapIdx]
  exact Route.allied_of_allied (hpair i j hi hj hij) i j

namespace Vendor

def admits : Vendor → Nat → Bool
  | any, _ => true
  | amd, i => i == 0
  | intel, i => i == 1

def other : Vendor → Vendor
  | any => any
  | amd => intel
  | intel => amd

theorem exists_admits {i : Nat} (hi : i < 2) :
    ∃ v : Vendor, v ≠ .any ∧ v.admits i = true ∧ v.other.admits i = false := by
  obtain rfl | rfl : i = 0 ∨ i = 1 := by omega
  · exact ⟨.amd, by decide, rfl, rfl⟩
  · exact ⟨.intel, by decide, rfl, rfl⟩

end Vendor

theorem Setting.agrees_of_vendor (v : Setting) {x : Step} (hx : x.axis = .vendor) :
    v.agrees x = v.target.vendor.admits x.index.val := by
  obtain ⟨⟨mode, vendor⟩, m, p, y⟩ := v
  obtain ⟨a, i⟩ := x
  obtain rfl : a = .vendor := hx
  cases vendor <;> rfl

namespace Decode

/-- Every selector of the route on a steady axis agrees with the state. -/
def Live (mode : Mode) (s : State) (r : Route) : Prop :=
  ∀ x ∈ r.steps, x.axis.isSteady = true → (s.setting ⟨mode, .any⟩ 0).agrees x = true

def Open (v : Vendor) (r : Route) : Prop :=
  ∀ i, Step.slot? .vendor r.steps = some i → v.admits i = true

def Alike (s s' : State) : Prop :=
  s'.peek = s.peek ∧ s'.prefixes.addressSize = s.prefixes.addressSize

theorem Alike.trans {s₁ s₂ s₃ : State} (h : Alike s₁ s₂) (h' : Alike s₂ s₃) : Alike s₁ s₃ :=
  ⟨h'.1.trans h.1, h'.2.trans h.2⟩

theorem alike_setPrefixes (s : State) {f : PrefixState → PrefixState}
    (hf : ∀ p, (f p).addressSize = p.addressSize) : Alike s (setPrefixes f s) :=
  ⟨rfl, hf s.prefixes⟩

theorem alike_fetched (s : State) : Alike s s.fetched :=
  ⟨s.peek_fetched, by rw [s.fetched_prefixes]⟩

theorem Beside.alike {rs : List Route} {bs : List UInt8} {s s' : State} (h : Beside rs bs s s') :
    Alike s s' := by
  obtain rfl | ⟨rfl, -⟩ := h
  · exact ⟨rfl, rfl⟩
  · exact alike_fetched s

theorem Alike.agrees_eq {s s' : State} (h : Alike s s') (mode : Mode) (v v' : Vendor) (m m' : Fin 4)
    {x : Step} (hx : x.axis.isSteady = true) :
    (s'.setting ⟨mode, v'⟩ m').agrees x = (s.setting ⟨mode, v⟩ m).agrees x := by
  obtain ⟨a, i⟩ := x
  obtain ⟨hpeek, hsize⟩ := h
  cases a with
  | opcode | mandatory | operandSize | vendor => cases hx
  | reg | mod | rm => simp only [Setting.agrees, State.setting, hpeek]
  | mode => rfl
  | addressSize => simp only [Setting.agrees, Setting.addressSize, State.setting, hsize]

section Through

variable {mode : Mode} {a : Axis} {i : Nat} {r r' : Route} {s s' : State}

theorem Live.of_through (h : Live mode s' r') (ht : r.through? a i = some r') (hs : Alike s s')
    (hag : a.isSteady = true → ∀ x : Step, x.axis = a → x.index.val = i →
      (s.setting ⟨mode, .any⟩ 0).agrees x = true) : Live mode s r := by
  have hkept : ∀ x ∈ r'.steps, x.axis.isSteady = true →
      (s.setting ⟨mode, .any⟩ 0).agrees x = true := by
    intro x hx hsteady
    rw [← hs.agrees_eq mode .any .any 0 0 hsteady]
    exact h x hx hsteady
  intro x hx hsteady
  obtain ⟨-, hf | ⟨-, -, rfl⟩⟩ := Route.through?_eq ht
  · obtain ⟨before, y, after, hr, hr', -, hya, hyi⟩ := Step.takeFirst?_some hf
    rw [hr, List.mem_append, List.mem_cons] at hx
    rw [hr'] at hkept
    rcases hx with hx | rfl | hx
    · exact hkept x (List.mem_append_left after hx) hsteady
    · exact hag (hya ▸ hsteady) x hya hyi
    · exact hkept x (List.mem_append_right before hx) hsteady
  · exact hkept x hx hsteady

theorem Open.through {v : Vendor} (h : Open v r) (hr : Step.Ordered r.steps)
    (ht : r.through? a i = some r') : Open v r' := by
  intro j hj
  by_cases ha : a = .vendor
  · subst ha
    exact absurd (Route.selects_iff.mpr (by simp [hj])) (Route.not_selects_through hr ht (by decide))
  · exact h j ((Route.slot?_through ht (Ne.symm ha)).symm.trans hj)

end Through

/-- Every route that lives in the state may be taken by the vendor. -/
def Sided (mode : Mode) (v : Vendor) (s : State) (rs : List Route) : Prop :=
  ∀ r ∈ rs, Live mode s r → Open v r

theorem Sided.through {mode : Mode} {v : Vendor} {s s' : State} {rs : List Route} {a : Axis} {i : Nat}
    (h : Sided mode v s rs) (hfit : ∀ r ∈ rs, Step.Ordered r.steps) (hs : Alike s s')
    (hag : a.isSteady = true → ∀ x : Step, x.axis = a → x.index.val = i →
      (s.setting ⟨mode, .any⟩ 0).agrees x = true) : Sided mode v s' (Route.through a i rs) := by
  intro r' hr' hlive
  obtain ⟨r, hr, ht⟩ := Route.mem_through.mp hr'
  exact (h r hr (hlive.of_through ht hs hag)).through (hfit r hr) ht

theorem Ends.stays {t : Target} {rs : List Route} {s s' : State} {ms : List (Fin 4)}
    (h : Ends t rs s ms (.error .unknownOpcode s')) : Stays rs s s' := by
  generalize hres : (EStateM.Result.error Fault.unknownOpcode s' : EStateM.Result Fault State Nat) = res
    at h
  induction h with
  | found => cases hres
  | next _ _ ih => exact ih hres
  | unknown hstays =>
    cases hres
    exact hstays
  | truncated => cases hres

theorem orElse_congr {m m' next next' : Decode α} {restore : PrefixState → PrefixState} {s : State}
    (h : m s = m' s)
    (hnext : ∀ s', m s = .error .unknownOpcode s' →
      next (setPrefixes restore s') = next' (setPrefixes restore s')) :
    orElse m restore next s = orElse m' restore next' s := by
  unfold orElse
  rw [← h]
  cases hm : m s with
  | ok a s' => rfl
  | error e s' =>
    cases e with
    | unknownOpcode => exact hnext s' hm
    | _ => rfl

section Mandatory

variable {t t' : Target} {slots : List Node} {s : State}
  (hsame : ∀ (m : Fin 4) s₁, Alike s s₁ →
    resolve t (slots.getD m.val .empty) s₁ = resolve t' (slots.getD m.val .empty) s₁)
  (hstays : ∀ (m : Fin 4) s₁ s₂,
    resolve t (slots.getD m.val .empty) s₁ = .error .unknownOpcode s₂ → Alike s₁ s₂)

include hsame hstays

theorem orElse_resolve_congr {m : Fin 4} {restore spend : PrefixState → PrefixState}
    {next next' : Decode Nat} {s₁ : State} (hs₁ : Alike s s₁)
    (hspend : ∀ p, (spend p).addressSize = p.addressSize)
    (hrestore : ∀ p, (restore p).addressSize = p.addressSize)
    (hnext : ∀ s₂, Alike s s₂ → next s₂ = next' s₂) :
    orElse (do modify (setPrefixes spend); resolve t (slots.getD m.val .empty)) restore next s₁ =
      orElse (do modify (setPrefixes spend); resolve t' (slots.getD m.val .empty)) restore next' s₁ := by
  have hspent : Alike s (setPrefixes spend s₁) := hs₁.trans (alike_setPrefixes s₁ hspend)
  refine orElse_congr ?_ ?_
  · rw [bind_run, bind_run]
    exact hsame m _ hspent
  · intro s₂ h
    rw [bind_run] at h
    have hs₂ : Alike s s₂ := hspent.trans (hstays m _ _ h)
    exact hnext _ (hs₂.trans (alike_setPrefixes s₂ hrestore))

theorem resolveSized_congr {s₁ : State} (hs₁ : Alike s s₁) :
    resolveSized t slots s₁ = resolveSized t' slots s₁ := by
  change (if s₁.prefixes.operandSize then _ else _ : Decode Nat) s₁ =
    (if s₁.prefixes.operandSize then _ else _ : Decode Nat) s₁
  cases s₁.prefixes.operandSize with
  | false => exact hsame 0 s₁ hs₁
  | true =>
    exact orElse_resolve_congr hsame hstays (m := 1) hs₁ (fun _ => rfl) (fun _ => rfl) (hsame 0)

theorem resolveMandatory_congr : resolveMandatory t slots s = resolveMandatory t' slots s := by
  have hs : Alike s s := ⟨rfl, rfl⟩
  have hnext (s₁ : State) (hs₁ : Alike s s₁) := resolveSized_congr hsame hstays hs₁
  cases hrep : s.prefixes.repeated with
  | none =>
    rw [resolveMandatory_none t slots hrep, resolveMandatory_none t' slots hrep]
    exact hnext s hs
  | some r =>
    rw [resolveMandatory_some t slots hrep, resolveMandatory_some t' slots hrep]
    cases r with
    | f2 => exact orElse_resolve_congr hsame hstays (m := 2) hs (fun _ => rfl) (fun _ => rfl) hnext
    | f3 => exact orElse_resolve_congr hsame hstays (m := 3) hs (fun _ => rfl) (fun _ => rfl) hnext

end Mandatory

section Plain

variable {n : Node} {rs : List Route} {mode : Mode} {v : Vendor}

theorem slotOn_vendor (mode : Mode) (v v' : Vendor) (a : Axis) :
    slotOn ⟨mode, v⟩ a = slotOn ⟨mode, v'⟩ a := by
  cases a <;> rfl

theorem live_of_clear {r : Route} (h : branching.Clear .vendor r) (s : State) : Live mode s r := by
  intro x hx hsteady
  have hclosed : Axis.vendor.closes x.axis = true := by
    generalize x.axis = c at hsteady
    cases c <;> first | rfl | cases hsteady
  exact absurd ⟨x, hx, rfl⟩ (h x.axis hclosed)

theorem vendorSlot_eq {slots : List Node} {r : Route} {i : Nat} {w : Vendor}
    (h : branching.Holds (slots.getD 0 .empty) (Route.through .vendor 0 [r]))
    (hr : Step.slot? .vendor r.steps = some i) (hw : w.admits i = true) : vendorSlot w slots = i := by
  obtain ⟨x, -, hx, rfl⟩ := Step.mem_of_slot? hr
  have hagrees := agrees_vendor (t := ⟨.bits64, w⟩)
    (s := { cursor := .ofStart (.ofArray #[]) 0 }) (m := 0) h hx hr
  rw [Setting.agrees_of_vendor _ hx] at hagrees
  exact beq_iff_eq.mp (hagrees.symm.trans hw)

/-- Behind the opcode bytes, decoding without a filter is decoding for a vendor that may take every
route that lives in the state. -/
theorem resolve_of_sided (h : branching.Holds n rs) (hap : rs.Pairwise Route.Apart)
    (hb : ∀ r ∈ rs, Step.opcodeBytes r.steps = []) {s : State} (hs : Sided mode v s rs) :
    resolve ⟨mode, .any⟩ n s = resolve ⟨mode, v⟩ n s := by
  induction h generalizing s with
  | empty => rw [resolve_empty, resolve_empty]
  | leaf e => rw [resolve_leaf, resolve_leaf]
  | @table a slots rs width fit clear cause slot ih =>
    have ho : a ≠ .opcode := by
      rintro rfl
      obtain ⟨r, hr, hsel⟩ := cause
      exact Route.selects_opcode.mp hsel (hb r hr)
    have ih' (i : Nat) (hi : i < a.slotCount) {s : State} :=
      @ih i hi (apart_through i fit hap) (opcodeBytes_of_mem_through ho hb) s
    by_cases hm : a = .mandatory
    · subst hm
      rw [resolve_mandatory, resolve_mandatory]
      refine resolveMandatory_congr ?_ ?_
      · intro m s₁ hs₁
        exact ih' m.val m.isLt (hs.through fit hs₁ nofun)
      · intro m s₁ s₂ hres
        have hends := ends_of_holds (slot m.val m.isLt) (apart_through m.val fit hap) ⟨mode, .any⟩ s₁
        rw [hres] at hends
        exact (hends.stays (opcodeBytes_of_mem_through ho hb)).alike
    · by_cases hv : a = .vendor
      · subst hv
        obtain ⟨r, hr, hsel⟩ := cause
        obtain ⟨i, hslot⟩ := Option.ne_none_iff_exists'.mp (Route.selects_iff.mp hsel)
        have hi : i < Axis.vendor.slotCount := by
          obtain ⟨x, -, hx, rfl⟩ := Step.mem_of_slot? hslot
          exact hx ▸ x.index.isLt
        have hfirst : branching.Holds (slots.getD 0 .empty) (Route.through .vendor 0 [r]) :=
          eq_of_mem_vendor hap clear hr ▸ slot 0 (by decide)
        have hopen := hs r hr (live_of_clear (clear r hr) s) i hslot
        rw [resolve_vendor, resolve_vendor, vendorSlot_eq (w := .any) hfirst hslot rfl,
          vendorSlot_eq hfirst hslot hopen]
        exact ih' i hi (hs.through fit ⟨rfl, rfl⟩ nofun)
      · rw [resolve_axis _ slots hm hv, resolve_axis _ slots hm hv, bind_run, bind_run,
          slotOn_vendor mode .any v]
        have hsettled := settled_slotOn ⟨mode, v⟩ ho hm hv s
        obtain ⟨hrun, -⟩ | ⟨i, s', hrun, hi, hs', hag⟩ := hsettled
        · rw [hrun]
        · have halike : Alike s s' := by
            obtain rfl | ⟨rfl, -⟩ := hs'
            · exact ⟨rfl, rfl⟩
            · exact alike_fetched s
          rw [hrun]
          refine ih' i hi (hs.through fit halike ?_)
          intro hsteady x hx hxi
          have hself : Alike s s := ⟨rfl, rfl⟩
          rw [hself.agrees_eq mode v .any 0 0 (hx ▸ hsteady), hag 0 (fun _ => rfl) x hx, hxi]
          exact beq_self_eq_true i

theorem resolve_of_not_open (h : branching.Holds n rs) (hap : rs.Pairwise Route.Apart)
    (hb : ∀ r ∈ rs, Step.opcodeBytes r.steps = []) {s : State}
    (hs : ∀ r ∈ rs, Live mode s r → ¬ Open v r) :
    ∃ e s', resolve ⟨mode, v⟩ n s = .error e s' := by
  have hself : Alike s s := ⟨rfl, rfl⟩
  have hreports := (ends_of_holds h hap ⟨mode, v⟩ s).reports
  generalize resolve ⟨mode, v⟩ n s = res at hreports
  cases hreports with
  | unknown _ => exact ⟨_, _, rfl⟩
  | truncated _ _ => exact ⟨_, _, rfl⟩
  | entry hfound _ =>
    obtain ⟨m, -, hm⟩ := List.exists_of_findSome?_eq_some hfound
    obtain ⟨r, hr, hleads⟩ := List.exists_of_findSome?_eq_some hm
    rw [leads_plain (hb r hr)] at hleads
    obtain ⟨hadmits, -⟩ := Option.ite_none_right_eq_some.mp hleads
    rw [Setting.admits, Bool.and_eq_true, List.all_eq_true] at hadmits
    refine absurd ?_ (hs r hr ?_)
    · intro i hi
      obtain ⟨x, hx, hxv, rfl⟩ := Step.mem_of_slot? hi
      have hagrees := hadmits.1 x hx
      rwa [Setting.agrees_of_vendor _ hxv] at hagrees
    · intro x hx hsteady
      rw [hself.agrees_eq mode v .any m 0 hsteady]
      exact hadmits.1 x hx

end Plain

/-- Without a filter the outcome is that of one vendor, and the other vendor has the same or none. -/
def Unites (outcome : Vendor → EStateM.Result Fault State α) : Prop :=
  ∃ v, v ≠ .any ∧ outcome .any = outcome v ∧
    (outcome v.other = outcome .any ∨ ∃ e s, outcome v.other = .error e s)

theorem unites_of_eq {outcome : Vendor → EStateM.Result Fault State α}
    (h : ∀ v, outcome .any = outcome v) : Unites outcome :=
  ⟨.amd, by decide, h .amd, Or.inl (h .intel).symm⟩

theorem slot?_vendor_of_live {mode : Mode} {s : State} {p q : Route} (h : p.Allied q)
    (hb : Step.opcodeBytes p.steps = Step.opcodeBytes q.steps) (hp : Live mode s p)
    (hq : Live mode s q) : Step.slot? .vendor p.steps = Step.slot? .vendor q.steps := by
  obtain ⟨c, hc, i, j, hi, hj, hij⟩ | hv := h hb
  · obtain ⟨x, hx, rfl, rfl⟩ := Step.mem_of_slot? hi
    obtain ⟨y, hy, hyx, rfl⟩ := Step.mem_of_slot? hj
    have hco : x.axis ≠ .opcode := by
      intro ho
      rw [ho] at hc
      cases hc
    have hcv : x.axis ≠ .vendor := by
      intro hv
      rw [hv] at hc
      cases hc
    exact absurd (Setting.index_eq_of_agrees (hp x hx hc) (hq y hy (hyx ▸ hc)) hyx.symm hco hcv) hij
  · exact hv

theorem unites_of_plain {n : Node} {rs : List Route} (h : branching.Holds n rs)
    (hap : rs.Pairwise Route.Apart) (hal : rs.Pairwise Route.Allied)
    (hb : ∀ r ∈ rs, Step.opcodeBytes r.steps = []) (mode : Mode) (s : State) :
    Unites fun v => resolve ⟨mode, v⟩ n s := by
  have hrefl : ∀ r ∈ rs, r.Allied r := fun r _ _ => Or.inr rfl
  have hsame {p q : Route} (hp : p ∈ rs) (hq : q ∈ rs) (hlp : Live mode s p) (hlq : Live mode s q) :
      Step.slot? .vendor p.steps = Step.slot? .vendor q.steps :=
    slot?_vendor_of_live (hal.forall_of_forall hrefl hp hq) ((hb p hp).trans (hb q hq).symm) hlp hlq
  by_cases hown : ∃ r ∈ rs, Live mode s r ∧ r.Selects .vendor
  · -- The routes that live in the state belong to one vendor.
    obtain ⟨r, hr, hlive, hsel⟩ := hown
    obtain ⟨i, hslot⟩ := Option.ne_none_iff_exists'.mp (Route.selects_iff.mp hsel)
    have hi : i < 2 := by
      obtain ⟨x, -, hx, rfl⟩ := Step.mem_of_slot? hslot
      calc
        x.index.val < x.axis.slotCount := x.index.isLt
        _ = 2 := by rw [hx]; rfl
    obtain ⟨v, hv, hadmits, hnot⟩ := Vendor.exists_admits hi
    refine ⟨v, hv, resolve_of_sided h hap hb ?_, Or.inr (resolve_of_not_open h hap hb ?_)⟩
    · intro q hq hlq j hj
      obtain rfl : i = j := Option.some.inj (hslot.symm.trans ((hsame hr hq hlive hlq).trans hj))
      exact hadmits
    · intro q hq hlq hopen
      have hqs := (hsame hq hr hlq hlive).trans hslot
      rw [hopen i hqs] at hnot
      cases hnot
  · -- They belong to both vendors.
    refine unites_of_eq fun v => resolve_of_sided h hap hb ?_
    intro r hr hlive i hi
    exact absurd ⟨r, hr, hlive, Route.selects_iff.mpr (by simp [hi])⟩ hown

theorem allied_through {rs : List Route} (i : Nat) (hsel : ∀ r ∈ rs, r.Selects .opcode)
    (hal : rs.Pairwise Route.Allied) : (Route.through .opcode i rs).Pairwise Route.Allied := by
  rw [Route.through, List.pairwise_filterMap]
  refine hal.imp_of_mem ?_
  intro p q hp hq hpq p' hp' q' hq'
  exact hpq.through_opcode (hsel p hp) (hsel q hq) hp' hq'

theorem resolve_unites {n : Node} {rs : List Route} (h : branching.Holds n rs)
    (hap : rs.Pairwise Route.Apart) (hal : rs.Pairwise Route.Allied) (mode : Mode) (s : State) :
    Unites fun v => resolve ⟨mode, v⟩ n s := by
  induction h generalizing s with
  | empty => exact unites_of_eq fun v => by rw [resolve_empty, resolve_empty]
  | leaf e => exact unites_of_eq fun v => by rw [resolve_leaf, resolve_leaf]
  | @table a slots rs width fit clear cause slot ih =>
    by_cases ho : a = .opcode
    · subst ho
      have hsel := selects_opcode_of_apart hap cause
      simp only [resolve_axis _ slots (a := .opcode) (by decide) (by decide), bind_run,
        slotOn_opcode_run]
      cases s.cursor.source.get? s.cursor.position with
      | none => exact unites_of_eq fun v => rfl
      | some b => exact ih b.toNat b.toNat_lt (apart_through b.toNat fit hap) (allied_through b.toNat hsel hal) _
    · refine unites_of_plain (.table width fit clear cause slot) hap hal ?_ mode s
      intro r hr
      by_contra hne
      exact clear r hr .opcode (Axis.closes_opcode ho) (Route.selects_opcode.mpr hne)

theorem Unites.bind {m : Vendor → Decode α} {s : State} (h : Unites fun v => m v s)
    (f : α → Decode β) : Unites fun v => (m v >>= f) s := by
  obtain ⟨v, hv, hany, hother⟩ := h
  refine ⟨v, hv, ?_, ?_⟩
  · simp only [bind_run, hany]
  · obtain hsame | ⟨e, s', herror⟩ := hother
    · left
      simp only [bind_run, hsame]
    · right
      exact ⟨e, s', by simp only [bind_run, herror]⟩

theorem unites_bind (m : Decode α) {f : Vendor → α → Decode β} (s : State)
    (h : ∀ a s', m s = .ok a s' → Unites fun v => f v a s') : Unites fun v => (m >>= f v) s := by
  simp only [bind_run]
  cases hm : m s with
  | ok a s' => exact h a s' hm
  | error e s' => exact unites_of_eq fun v => rfl

theorem entry_unites (mode : Mode) (s : State) :
    Unites fun v => entry instructionTable ⟨mode, v⟩ s := by
  have hproper : ∀ d ∈ definitions, d.isProper = true := fun _ h => isProper_of_mem h
  have hap := routes_apart hproper definitions_suits
  have hfit := routes_ordered hproper
  have hsel : ∀ r ∈ Table.routes definitions, r.Selects .opcode :=
    fun _ hr => selects_opcode_of_mem_routes (fun _ h => opcodeBytes_ne_nil h) hr
  have hholds := instructionTable_child_holds
  generalize instructionTable = table at hholds ⊢
  refine unites_bind (scanPrefixes mode maxLength) s ?_
  intro first s₁ _
  refine unites_bind (modify fun s => { s with opcode := Opcode.ofByte first }) s₁ ?_
  intro _ s₂ _
  refine Unites.bind ?_ _
  exact resolve_unites (hholds first) (apart_through first.toNat hfit hap)
    (allied_through first.toNat hsel routes_allied) mode s₂

/-- What comes after the entry is found, whatever the vendor. -/
def finish (mode : Mode) (pc : UInt64) (e : Entry) : Decode Instruction := do
  let i ← complete ⟨mode, .any⟩ pc e
  if maxLength < (← get).cursor.consumed then throw .tooLong
  pure i

theorem instruction_eq (table : Table) (mode : Mode) (v : Vendor) (pc : UInt64) :
    instruction table ⟨mode, v⟩ pc = entry table ⟨mode, v⟩ >>= finish mode pc :=
  rfl

theorem instruction_unites (mode : Mode) (pc : UInt64) (s : State) :
    Unites fun v => instruction instructionTable ⟨mode, v⟩ pc s := by
  simp only [instruction_eq]
  exact (entry_unites mode s).bind (finish mode pc)

section Run

variable {table : Table} {mode : Mode} {source : Source} {offset : Nat} {pc : UInt64}

theorem run_congr {v w : Vendor}
    (h : instruction table ⟨mode, v⟩ pc { cursor := .ofStart source offset } =
      instruction table ⟨mode, w⟩ pc { cursor := .ofStart source offset }) :
    run table ⟨mode, v⟩ source offset pc = run table ⟨mode, w⟩ source offset pc := by
  cases hi : instruction table ⟨mode, w⟩ pc { cursor := .ofStart source offset } with
  | ok i s => rw [run_of_ok (h.trans hi), run_of_ok hi]
  | error e s =>
    rw [run_of_error (h.trans hi), run_of_error hi]
    rfl

theorem run_fails {v : Vendor} {e : Fault} {s : State}
    (h : instruction table ⟨mode, v⟩ pc { cursor := .ofStart source offset } = .error e s) :
    (run table ⟨mode, v⟩ source offset pc).1.error ≠ none := by
  rw [run_of_error h]
  exact Option.some_ne_none e

end Run

end Decode

theorem decodeAt_congr {t t' : Target} {source : Source} {offset : Nat} {pc : UInt64}
    (h : Decode.run instructionTable t source offset pc =
      Decode.run instructionTable t' source offset pc) (keep : Bool) :
    decodeAt t source offset pc keep = decodeAt t' source offset pc keep := by
  cases keep with
  | true => rw [decodeAt_keep, decodeAt_keep, h]
  | false => rw [decodeAt_drop, decodeAt_drop, h]

/-- Decoding without a filter gives what one vendor gives, and the other vendor gives the same or
fails. -/
theorem exists_decodeAt_any_eq (mode : Mode) (source : Source) (offset : Nat) (pc : UInt64)
    (keep : Bool) :
    ∃ v : Vendor, v ≠ .any ∧
      decodeAt ⟨mode, .any⟩ source offset pc keep = decodeAt ⟨mode, v⟩ source offset pc keep ∧
      ((decodeAt ⟨mode, v.other⟩ source offset pc keep).error = none →
        decodeAt ⟨mode, .any⟩ source offset pc keep =
          decodeAt ⟨mode, v.other⟩ source offset pc keep) := by
  obtain ⟨v, hv, hany, hother⟩ :=
    Decode.instruction_unites mode pc { cursor := .ofStart source offset }
  refine ⟨v, hv, decodeAt_congr (Decode.run_congr hany) keep, ?_⟩
  intro hok
  obtain hsame | ⟨e, s, herror⟩ := hother
  · exact decodeAt_congr (Decode.run_congr hsame.symm) keep
  · rw [decodeAt_error] at hok
    exact absurd hok (Decode.run_fails herror)

/-- Decoding without a vendor filter gives what decoding for one of the vendors gives; that is a
vendor for which decoding succeeds, if there is one, and if it succeeds for both, all three agree. -/
theorem decodeAt_vendor_union (mode : Mode) (source : Source) (offset : Nat) (pc : UInt64)
    (keep : Bool) :
    let amd := decodeAt ⟨mode, .amd⟩ source offset pc keep
    let intel := decodeAt ⟨mode, .intel⟩ source offset pc keep
    let any := decodeAt ⟨mode, .any⟩ source offset pc keep
    (any = amd ∨ any = intel) ∧
      (amd.error = none → any.error = none ∧ any = amd) ∧
      (intel.error = none → any.error = none ∧ any = intel) ∧
      (amd.error = none → intel.error = none → any = amd ∧ any = intel ∧ amd = intel) := by
  intro amd intel any
  have hunion : (any = amd ∨ any = intel) ∧ (amd.error = none → any = amd) ∧
      (intel.error = none → any = intel) := by
    obtain ⟨v, hv, hsame, hother⟩ := exists_decodeAt_any_eq mode source offset pc keep
    cases v with
    | any => exact absurd rfl hv
    | amd => exact ⟨Or.inl hsame, fun _ => hsame, hother⟩
    | intel => exact ⟨Or.inr hsame, hother, fun _ => hsame⟩
  obtain ⟨hone, hamd, hintel⟩ := hunion
  refine ⟨hone, ?_, ?_, ?_⟩
  · intro h
    exact ⟨hamd h ▸ h, hamd h⟩
  · intro h
    exact ⟨hintel h ▸ h, hintel h⟩
  · intro ha hi
    exact ⟨hamd ha, hintel hi, (hamd ha).symm.trans (hintel hi)⟩

/-- An instruction of one vendor. -/
example :
    (decodeAt ⟨.bits32, .amd⟩ (.ofArray #[0x0F, 0x01, 0xDD]) 0 0 true).mnemonic = .CLGI ∧
    (decodeAt ⟨.bits32, .any⟩ (.ofArray #[0x0F, 0x01, 0xDD]) 0 0 true).mnemonic = .CLGI ∧
    (decodeAt ⟨.bits32, .intel⟩ (.ofArray #[0x0F, 0x01, 0xDD]) 0 0 true).error ≠ none :=
  ⟨Decode.decodeAt_of_delivers (P := fun i => i.mnemonic = .CLGI) (by decide +kernel),
    Decode.decodeAt_of_delivers (P := fun i => i.mnemonic = .CLGI) (by decide +kernel),
    Decode.decodeAt_error_of_heading? true (by decide +kernel)⟩

end X86
