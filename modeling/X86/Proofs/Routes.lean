import Mathlib.Data.List.Induction
import X86.Proofs.Descent
import X86.Lookup.Table

/-!
Routes through the lookup tree. A route is what is left of a path below a node, with the number of
the entry it leads to. `Discipline.Holds` says that a node holds exactly some routes; inserting a
route that is apart from those a node holds adds it to them, in whatever order the tables below the
node were made.
-/

namespace X86
namespace Lookup

theorem Axis.mem_all (a : Axis) : a ∈ all := by
  cases a <;> decide

namespace Step

theorem mem_inOrder {s : Step} {steps : List Step} : s ∈ inOrder steps ↔ s ∈ steps := by
  simp [inOrder, Axis.mem_all]

theorem inOrder_of_opcode {steps : List Step} (h : ∃ s ∈ steps, s.axis = .opcode) :
    ∃ s rest, inOrder steps = s :: rest ∧ s.axis = .opcode := by
  obtain ⟨x, hx, hxo⟩ := h
  have hmem : x ∈ steps.filter (·.axis = .opcode) := by simp [hx, hxo]
  cases hf : steps.filter (·.axis = .opcode) with
  | nil =>
    rw [hf] at hmem
    cases hmem
  | cons s rest =>
    have hs : s ∈ steps.filter (·.axis = .opcode) := hf ▸ List.mem_cons_self
    have hsplit : inOrder steps = s :: (rest ++ Axis.all.tail.flatMap fun a =>
        steps.filter (·.axis = a)) := by
      rw [inOrder, Axis.all, List.flatMap_cons, hf, List.cons_append, List.tail_cons]
    exact ⟨s, _, hsplit, by simpa using (List.mem_filter.mp hs).2⟩

theorem takeFirst?_none {a : Axis} {steps : List Step} :
    takeFirst? a steps = none ↔ ∀ s ∈ steps, s.axis ≠ a := by
  induction steps with
  | nil => simp [takeFirst?]
  | cons s rest ih =>
    by_cases h : s.axis = a
    · simp [takeFirst?, h]
    · simp [takeFirst?, h, ih]

theorem takeFirst?_some {a : Axis} {steps rest : List Step} {i : Nat}
    (h : takeFirst? a steps = some (i, rest)) :
    ∃ before s after, steps = before ++ s :: after ∧ rest = before ++ after ∧
      (∀ x ∈ before, x.axis ≠ a) ∧ s.axis = a ∧ s.index.val = i := by
  induction steps generalizing rest with
  | nil => simp [takeFirst?] at h
  | cons s steps ih =>
    by_cases hs : s.axis = a
    · obtain ⟨rfl, rfl⟩ : s.index.val = i ∧ steps = rest := by simpa [takeFirst?, hs] using h
      exact ⟨[], s, steps, rfl, rfl, by simp, hs, rfl⟩
    · simp only [takeFirst?, hs, ↓reduceIte, Option.map_eq_some_iff, Prod.mk.injEq] at h
      obtain ⟨⟨j, rest'⟩, h', rfl, rfl⟩ := h
      obtain ⟨before, s', after, rfl, rfl, hb, ha, hi⟩ := ih h'
      refine ⟨s :: before, s', after, rfl, rfl, ?_, ha, hi⟩
      intro x hx
      obtain rfl | hx := List.mem_cons.mp hx
      · exact hs
      · exact hb x hx

theorem takeFirst?_lt {a : Axis} {steps rest : List Step} {i : Nat}
    (h : takeFirst? a steps = some (i, rest)) : i < a.slotCount := by
  obtain ⟨_, s, _, _, _, _, rfl, rfl⟩ := takeFirst?_some h
  exact s.index.isLt

end Step

/-- What is left of a path below a node, and the number of the entry it leads to. -/
structure Route where
  steps : List Step
  entry : Nat

namespace Route

def Selects (r : Route) (a : Axis) : Prop :=
  ∃ s ∈ r.steps, s.axis = a

/-- What is left of a route below slot `i` of a table; nothing if the route does not pass there. -/
def through? (a : Axis) (i : Nat) (r : Route) : Option Route :=
  match Step.takeFirst? a r.steps with
  | some (j, rest) => if j = i then some ⟨rest, r.entry⟩ else none
  | none => if a.coversByDefault i then some r else none

def through (a : Axis) (i : Nat) (rs : List Route) : List Route :=
  rs.filterMap (through? a i)

theorem not_selects {r : Route} {a : Axis} : ¬ r.Selects a ↔ Step.takeFirst? a r.steps = none := by
  simp [Selects, Step.takeFirst?_none]

theorem through?_of_some {a : Axis} {i j : Nat} {r : Route} {rest : List Step}
    (h : Step.takeFirst? a r.steps = some (j, rest)) :
    r.through? a i = if j = i then some ⟨rest, r.entry⟩ else none := by
  simp [through?, h]

theorem through?_of_none {a : Axis} {i : Nat} {r : Route}
    (h : Step.takeFirst? a r.steps = none) :
    r.through? a i = if a.coversByDefault i then some r else none := by
  simp [through?, h]

theorem through?_cons (i : Nat) (s : Step) (rest : List Step) (e : Nat) :
    through? s.axis i ⟨s :: rest, e⟩ = if s.index.val = i then some ⟨rest, e⟩ else none :=
  through?_of_some (by simp [Step.takeFirst?])

theorem through_append (a : Axis) (i : Nat) (rs rs' : List Route) :
    through a i (rs ++ rs') = through a i rs ++ through a i rs' :=
  List.filterMap_append

theorem mem_through {a : Axis} {i : Nat} {rs : List Route} {r' : Route} :
    r' ∈ through a i rs ↔ ∃ r ∈ rs, r.through? a i = some r' :=
  List.mem_filterMap

theorem through?_eq {a : Axis} {i : Nat} {r r' : Route} (h : r.through? a i = some r') :
    r'.entry = r.entry ∧
      (Step.takeFirst? a r.steps = some (i, r'.steps) ∨
        Step.takeFirst? a r.steps = none ∧ a.coversByDefault i = true ∧ r' = r) := by
  unfold through? at h
  split at h
  · next j rest hs =>
    split at h
    · next hji =>
      obtain rfl := Option.some.inj h
      exact ⟨rfl, Or.inl (hji ▸ hs)⟩
    · cases h
  · next hs =>
    split at h
    · next hc =>
      obtain rfl := Option.some.inj h
      exact ⟨rfl, Or.inr ⟨hs, hc, rfl⟩⟩
    · cases h

theorem through?_sublist {a : Axis} {i : Nat} {r r' : Route} (h : r.through? a i = some r') :
    r'.steps.Sublist r.steps := by
  obtain ⟨_, hs | ⟨_, _, rfl⟩⟩ := through?_eq h
  · obtain ⟨before, s, after, hr, hr', _⟩ := Step.takeFirst?_some hs
    rw [hr, hr']
    exact (List.sublist_cons_self s after).append_left before
  · exact List.Sublist.refl _

end Route

namespace Node

theorem length_insertAt (e : Nat) (slots : List Node) (i : Nat) (steps : List Step) :
    (insertAt e slots i steps).length = slots.length := by
  induction slots generalizing i with
  | nil => rw [insertAt]
  | cons n ns ih =>
    cases i with
    | zero => simp [insertAt]
    | succ i => simp [insertAt, ih]

theorem getD_insertAt (e : Nat) {slots : List Node} {i : Nat} (steps : List Step) (j : Nat)
    (hi : i < slots.length) :
    (insertAt e slots i steps).getD j .empty =
      if i = j then insert e (slots.getD j .empty) steps else slots.getD j .empty := by
  induction slots generalizing i j with
  | nil => exact absurd hi (Nat.not_lt_zero i)
  | cons n ns ih =>
    cases i with
    | zero =>
      cases j with
      | zero => simp [insertAt]
      | succ j => simp [insertAt]
    | succ i =>
      cases j with
      | zero => simp [insertAt]
      | succ j =>
        rw [insertAt, List.getD_cons_succ, ih j (Nat.lt_of_succ_lt_succ hi)]
        simp

theorem insertAt_replicate (e : Nat) {n i : Nat} (steps : List Step) (hi : i < n) :
    insertAt e (List.replicate n .empty) i steps =
      (List.range n).map fun j => if j = i then branch e none steps else .empty := by
  refine List.ext_getElem (by simp [length_insertAt]) ?_
  intro j hj _
  have hjn : j < n := by simpa [length_insertAt] using hj
  have hlen : i < (List.replicate n Node.empty).length := by simpa using hi
  have hget := getD_insertAt e steps j hlen
  rw [List.getD_eq_getElem?_getD, List.getElem?_eq_getElem hj, Option.getD_some] at hget
  rw [hget]
  by_cases h : i = j
  · simp [h, hjn, insert]
  · simp [h, Ne.symm h, hjn]

theorem length_insertAll (e : Nat) (a : Axis) (slots : List Node) (first : Nat)
    (steps : List Step) : (insertAll e a slots first steps).length = slots.length := by
  induction slots generalizing first with
  | nil => rw [insertAll]
  | cons n ns ih => simp [insertAll, ih]

theorem getD_insertAll (e : Nat) (a : Axis) {slots : List Node} (first : Nat) (steps : List Step)
    {j : Nat} (hj : j < slots.length) :
    (insertAll e a slots first steps).getD j .empty =
      if a.coversByDefault (first + j) then insert e (slots.getD j .empty) steps
      else slots.getD j .empty := by
  induction slots generalizing first j with
  | nil => exact absurd hj (Nat.not_lt_zero j)
  | cons n ns ih =>
    cases j with
    | zero => simp [insertAll]
    | succ j =>
      rw [insertAll, List.getD_cons_succ, ih (first + 1) (Nat.lt_of_succ_lt_succ hj),
        List.getD_cons_succ, Nat.add_right_comm, Nat.add_assoc]

theorem getD_branch (e : Nat) (fallback : Option Nat) (s : Step) (rest : List Step) {i : Nat}
    (hi : i < s.axis.slotCount) :
    ((List.range s.axis.slotCount).map fun i =>
      if i = s.index.val then
        branch e (if s.axis.coversByDefault i then fallback else none) rest
      else ofLeaf? (if s.axis.coversByDefault i then fallback else none)).getD i .empty =
    if s.index.val = i then branch e (if s.axis.coversByDefault i then fallback else none) rest
    else ofLeaf? (if s.axis.coversByDefault i then fallback else none) := by
  rw [List.getD_eq_getElem?_getD, List.getElem?_map, List.getElem?_range hi]
  simp only [Option.map_some, Option.getD_some, @eq_comm Nat i]

/-- Inserting a route below a table inserts what is left of it in the slots that it passes. -/
theorem insert_table (e : Nat) {a : Axis} {slots : List Node} (steps : List Step)
    (width : slots.length = a.slotCount) :
    ∃ slots', insert e (.table a slots) steps = .table a slots' ∧ slots'.length = a.slotCount ∧
      ∀ j < a.slotCount, slots'.getD j .empty =
        match Route.through? a j ⟨steps, e⟩ with
        | some q => insert e (slots.getD j .empty) q.steps
        | none => slots.getD j .empty := by
  rw [insert]
  split
  · next i rest hfirst =>
    have hi : i < slots.length := width ▸ Step.takeFirst?_lt hfirst
    refine ⟨_, rfl, (length_insertAt ..).trans width, ?_⟩
    intro j hj
    have hq := Route.through?_of_some (i := j) (r := ⟨steps, e⟩) hfirst
    rw [getD_insertAt e rest j hi, hq]
    by_cases hij : i = j
    · simp [hij]
    · simp [hij]
  · next hfirst =>
    refine ⟨_, rfl, (length_insertAll ..).trans width, ?_⟩
    intro j hj
    have hq := Route.through?_of_none (i := j) (r := ⟨steps, e⟩) hfirst
    rw [getD_insertAll e a 0 steps (width ▸ hj), Nat.zero_add, hq]
    by_cases hc : a.coversByDefault j = true
    · simp [hc]
    · simp [hc]

end Node

/-- What the routes of a tree have to satisfy: each by itself, each below a table on some axis, and
each towards those inserted after it. -/
structure Discipline where
  Fit : Route → Prop
  Clear : Axis → Route → Prop
  Apart : Route → Route → Prop
  fit_through {a : Axis} {i : Nat} {r r' : Route} : Fit r → r.through? a i = some r' → Fit r'
  clear_nil (a : Axis) (e : Nat) : Clear a ⟨[], e⟩
  clear_head {s : Step} {rest : List Step} {e : Nat} :
    Fit ⟨s :: rest, e⟩ → Clear s.axis ⟨s :: rest, e⟩
  apart_through {a : Axis} {i : Nat} {p q p' q' : Route} :
    Fit p → Fit q → Apart p q → p.through? a i = some p' → q.through? a i = some q' → Apart p' q'
  apart_clear {a : Axis} {p q : Route} : Apart p q → p.Selects a → Clear a p → Clear a q
  /-- A finished route can only be kept apart by a mandatory prefix. -/
  apart_nil {e e' : Nat} {steps : List Step} : Apart ⟨[], e⟩ ⟨steps, e'⟩ →
    ∃ i rest, Step.takeFirst? .mandatory steps = some (i, rest) ∧ i ≠ 0

namespace Discipline

/-- The node holds exactly the given routes. Each table stands there for the sake of a route that
branches on its axis. -/
inductive Holds (D : Discipline) : Node → List Route → Prop
  | empty : Holds D .empty []
  | leaf (e : Nat) : Holds D (.leaf e) [⟨[], e⟩]
  | table {a : Axis} {slots : List Node} {rs : List Route} (width : slots.length = a.slotCount)
      (fit : ∀ r ∈ rs, D.Fit r) (clear : ∀ r ∈ rs, D.Clear a r) (cause : ∃ r ∈ rs, r.Selects a)
      (slot : ∀ i < a.slotCount, Holds D (slots.getD i .empty) (Route.through a i rs)) :
      Holds D (.table a slots) rs

variable {D : Discipline}

theorem holds_branch {e : Nat} {steps : List Step} (hfit : D.Fit ⟨steps, e⟩) :
    D.Holds (Node.branch e none steps) [⟨steps, e⟩] := by
  induction steps with
  | nil => exact .leaf e
  | cons s rest ih =>
    have hrest : D.Fit ⟨rest, e⟩ := D.fit_through hfit ((Route.through?_cons ..).trans (if_pos rfl))
    rw [Node.branch]
    refine .table (by simp) ?_ ?_ ⟨_, List.mem_singleton_self _, s, List.mem_cons_self, rfl⟩ ?_
    · simpa using hfit
    · simpa using D.clear_head hfit
    · intro i hi
      rw [Node.getD_branch e none s rest hi, Route.through, List.filterMap_cons, Route.through?_cons]
      by_cases h : s.index.val = i
      · simpa [h] using ih hrest
      · simpa [h, Node.ofLeaf?] using Holds.empty

/-- A route that goes on past a leaf leaves that leaf as the default, which it meets again only where
a mandatory prefix parts the two. -/
theorem holds_branch_default {e old : Nat} {steps : List Step} (hold : D.Fit ⟨[], old⟩)
    (hfit : D.Fit ⟨steps, e⟩)
    (hm : ∃ i rest, Step.takeFirst? .mandatory steps = some (i, rest) ∧ i ≠ 0) :
    D.Holds (Node.branch e (some old) steps) [⟨[], old⟩, ⟨steps, e⟩] := by
  induction steps with
  | nil =>
    obtain ⟨i, rest, h, _⟩ := hm
    simp [Step.takeFirst?] at h
  | cons s rest ih =>
    have hthrough (i : Nat) : Route.through s.axis i [⟨[], old⟩, ⟨s :: rest, e⟩] =
        (if s.axis.coversByDefault i then [⟨[], old⟩] else []) ++
          if s.index.val = i then [⟨rest, e⟩] else [] := by
      have hold : Route.through? s.axis i ⟨[], old⟩ = _ := Route.through?_of_none rfl
      rw [Route.through, List.filterMap_cons, List.filterMap_cons, hold, Route.through?_cons]
      by_cases hc : s.axis.coversByDefault i = true
      · by_cases h : s.index.val = i
        · simp [hc, h]
        · simp [hc, h]
      · by_cases h : s.index.val = i
        · simp [hc, h]
        · simp [hc, h]
    have hrest : D.Fit ⟨rest, e⟩ := D.fit_through hfit ((Route.through?_cons ..).trans (if_pos rfl))
    rw [Node.branch]
    refine .table (by simp) ?_ ?_ ⟨_, List.mem_cons_of_mem _ (List.mem_singleton_self _), s,
      List.mem_cons_self, rfl⟩ ?_
    · simpa using ⟨hold, hfit⟩
    · simpa using ⟨D.clear_nil _ _, D.clear_head hfit⟩
    · intro i hi
      rw [Node.getD_branch e (some old) s rest hi, hthrough]
      by_cases hs : s.axis = .mandatory
      · obtain ⟨j, rest', hj, hj0⟩ := hm
        obtain ⟨rfl, rfl⟩ : s.index.val = j ∧ rest = rest' := by
          simpa [Step.takeFirst?, hs] using hj
        have hcover : s.axis.coversByDefault i = (i == 0) := by rw [hs]; rfl
        rw [hcover]
        by_cases h : s.index.val = i
        · have hi0 : (i == 0) = false := by simpa [h] using hj0
          simpa [h, hi0] using holds_branch hrest
        · by_cases hi0 : i = 0
          · subst hi0
            simpa [h, Node.ofLeaf?] using Holds.leaf old
          · simpa [h, hi0, Node.ofLeaf?] using Holds.empty
      · have hcover : s.axis.coversByDefault i = true := by
          cases ha : s.axis <;> simp_all [Axis.coversByDefault]
        rw [hcover]
        by_cases h : s.index.val = i
        · have hm' : ∃ i rest', Step.takeFirst? .mandatory rest = some (i, rest') ∧ i ≠ 0 := by
            obtain ⟨j, rest', hj, hj0⟩ := hm
            simp only [Step.takeFirst?, hs, ↓reduceIte, Option.map_eq_some_iff] at hj
            obtain ⟨⟨k, r⟩, hk, he⟩ := hj
            obtain ⟨rfl, _⟩ := Prod.mk.inj he
            exact ⟨k, r, hk, hj0⟩
          simpa [h] using ih hrest hm'
        · simpa [h, Node.ofLeaf?] using Holds.leaf old

/-- Inserting a route that is apart from those a node holds adds it to them. -/
theorem Holds.insert {n : Node} {rs : List Route} (h : D.Holds n rs) {e : Nat} {steps : List Step}
    (hfit : D.Fit ⟨steps, e⟩) (hrs : ∀ r ∈ rs, D.Fit r) (hap : ∀ r ∈ rs, D.Apart r ⟨steps, e⟩) :
    D.Holds (n.insert e steps) (rs ++ [⟨steps, e⟩]) := by
  induction h generalizing steps with
  | empty =>
    rw [Node.insert]
    exact holds_branch hfit
  | leaf old =>
    have hm := D.apart_nil (hap _ (List.mem_singleton_self _))
    cases steps with
    | nil =>
      obtain ⟨_, _, hm, _⟩ := hm
      simp [Step.takeFirst?] at hm
    | cons s rest =>
      rw [Node.insert]
      exact holds_branch_default (hrs _ (List.mem_singleton_self _)) hfit hm
  | @table a slots rs width fit clear cause slot ih =>
    obtain ⟨p, hp, hpa⟩ := cause
    have hclear : ∀ r ∈ rs ++ [⟨steps, e⟩], D.Clear a r := by
      intro r hr
      obtain hr | hr := List.mem_append.mp hr
      · exact clear r hr
      · obtain rfl := List.mem_singleton.mp hr
        exact D.apart_clear (hap p hp) hpa (clear p hp)
    have hfits : ∀ r ∈ rs ++ [⟨steps, e⟩], D.Fit r := by
      intro r hr
      obtain hr | hr := List.mem_append.mp hr
      · exact fit r hr
      · rwa [List.mem_singleton.mp hr]
    have hcause : ∃ r ∈ rs ++ [⟨steps, e⟩], r.Selects a := ⟨p, List.mem_append_left _ hp, hpa⟩
    obtain ⟨slots', hinsert, hwidth, hget⟩ := Node.insert_table e steps width
    rw [hinsert]
    refine .table hwidth hfits hclear hcause ?_
    intro i hi
    rw [hget i hi, Route.through_append]
    cases hq : Route.through? a i ⟨steps, e⟩ with
    | none =>
      have hnew : Route.through a i [⟨steps, e⟩] = [] := by
        rw [Route.through, List.filterMap_cons, hq]
        rfl
      rw [hnew, List.append_nil]
      exact slot i hi
    | some q =>
      -- What is left of the new route is apart from what is left of the others.
      obtain ⟨rest, e'⟩ := q
      obtain rfl : e' = e := (Route.through?_eq hq).1
      have hnew : Route.through a i [⟨steps, e'⟩] = [⟨rest, e'⟩] := by
        rw [Route.through, List.filterMap_cons, hq]
        rfl
      rw [hnew]
      refine ih i hi (D.fit_through hfit hq) ?_ ?_
      · intro r' hr'
        obtain ⟨r, hr, ht⟩ := Route.mem_through.mp hr'
        exact D.fit_through (fit r hr) ht
      · intro r' hr'
        obtain ⟨r, hr, ht⟩ := Route.mem_through.mp hr'
        exact D.apart_through (fit r hr) hfit (hap r hr) ht hq

end Discipline

namespace Table

def routes (ds : List Definition) : List Route :=
  ds.mapIdx fun n d => ⟨Step.inOrder d.steps, n⟩

theorem routes_concat (ds : List Definition) (d : Definition) :
    routes (ds ++ [d]) = routes ds ++ [⟨Step.inOrder d.steps, ds.length⟩] := by
  simp [routes]

theorem mem_routes {ds : List Definition} {r : Route} :
    r ∈ routes ds ↔ ∃ d, ds[r.entry]? = some d ∧ r.steps = Step.inOrder d.steps := by
  rw [routes, List.mem_mapIdx]
  constructor
  · rintro ⟨n, hn, rfl⟩
    exact ⟨ds[n], List.getElem?_eq_getElem hn, rfl⟩
  · rintro ⟨d, hd, hr⟩
    obtain ⟨hn, rfl⟩ := List.getElem?_eq_some_iff.mp hd
    exact ⟨r.entry, hn, by rw [← hr]⟩

theorem ofDefinitions_concat (ds : List Definition) (d : Definition) :
    ofDefinitions (ds ++ [d]) = (ofDefinitions ds).insert d := by
  simp [ofDefinitions]

theorem entries_ofDefinitions (ds : List Definition) :
    (ofDefinitions ds).entries = (ds.map Definition.entry).toArray := by
  induction ds using List.reverseRecOn with
  | nil => rfl
  | append_singleton ds d ih =>
    rw [ofDefinitions_concat, insert, ih]
    simp

theorem insert_empty_root (e : Nat) {s : Step} (rest : List Step) (hs : s.axis = .opcode) :
    empty.root.insert e (s :: rest) = Node.empty.insert e (s :: rest) := by
  have hfirst : Step.takeFirst? .opcode (s :: rest) = some (s.index.val, rest) := by
    simp [Step.takeFirst?, hs]
  have hroot : empty.root.insert e (s :: rest) =
      .table .opcode (Node.insertAt e (List.replicate 256 .empty) s.index.val rest) := by
    rw [empty, Node.insert, hfirst]
  have hlt : s.index.val < 256 := Step.takeFirst?_lt hfirst
  rw [hroot, Node.insertAt_replicate e rest hlt, Node.insert, Node.branch]
  simp only [ite_self, Node.ofLeaf?, hs, Axis.slotCount]

end Table

theorem Discipline.holds_ofDefinitions {D : Discipline} {ds : List Definition} (hne : ds ≠ [])
    (hop : ∀ d ∈ ds, d.hasOpcode = true) (hfit : ∀ r ∈ Table.routes ds, D.Fit r)
    (hap : (Table.routes ds).Pairwise D.Apart) :
    D.Holds (Table.ofDefinitions ds).root (Table.routes ds) := by
  induction ds using List.reverseRecOn with
  | nil => exact absurd rfl hne
  | append_singleton ds d ih =>
    have hd : d.hasOpcode = true := hop d (by simp)
    have hsize : (Table.ofDefinitions ds).entries.size = ds.length := by
      simp [Table.entries_ofDefinitions]
    rw [Table.routes_concat] at hfit hap ⊢
    rw [List.pairwise_append] at hap
    rw [Table.ofDefinitions_concat, Table.insert, hd, hsize]
    have hnew : D.Fit ⟨Step.inOrder d.steps, ds.length⟩ := hfit _ (by simp)
    by_cases hds : ds = []
    · subst hds
      have hsteps : ∃ s ∈ d.steps, s.axis = .opcode := by
        simpa [Definition.hasOpcode] using hd
      obtain ⟨s, rest, hs, hso⟩ := Step.inOrder_of_opcode hsteps
      rw [hs] at hnew ⊢
      have hroot := Table.insert_empty_root 0 rest hso
      simpa [Table.ofDefinitions, hroot, Table.routes] using
        (Holds.empty (D := D)).insert hnew (by simp) (by simp)
    · have hrs : ∀ r ∈ Table.routes ds, D.Fit r := fun r hr => hfit r (by simp [hr])
      have hnode := ih hds (fun d hd => hop d (by simp [hd])) hrs hap.1
      exact hnode.insert hnew hrs fun r hr => hap.2.2 r hr _ (by simp)

end Lookup
end X86
