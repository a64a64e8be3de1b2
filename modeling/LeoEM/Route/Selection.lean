/-
# `Route.Selection` — what a cycle of the selection can do

The selection has four branches and a fallback.  Each branch has its equation
(`choose_connected`, `choose_side1`, `choose_side2`, `choose_neither`), the fallback
its inversion (`fallback_cases`), and the properties of a run are derived from what
they have in common, for each user `u`:

    selection_sound     a gateway that is sought again comes from what the user sees, and
                        its counter is at 15; any other gateway is the previous one, and
                        its counter has not changed
    beside_iff          a gateway with its counter at 15 is not sought again exactly if the
                        other user alone is moved
    keeps_iff           when a gateway is kept and the pair is connected
    selection_connected a connected pair in view is enough for a connected selection
-/
import LeoEM.Route.Gateway
import Mathlib.Data.List.MinMax

namespace LeoEM

variable {n : Nat} {K : Type}

/-- The two users. -/
inductive User where
  | one
  | two
  deriving DecidableEq, Repr

def GatewayState.counter (st : GatewayState n K) : User → Nat
  | .one => st.counter1
  | .two => st.counter2

def GatewayState.previous (st : GatewayState n K) : User → Gateway n K
  | .one => st.previous1
  | .two => st.previous2

def CycleInput.view (inp : CycleInput n K) : User → View n K
  | .one => inp.view1
  | .two => inp.view2

def Selection.gateway (sel : Selection n K) : User → Gateway n K
  | .one => sel.gateway1
  | .two => sel.gateway2

def Selection.counter (sel : Selection n K) : User → Nat
  | .one => sel.counter1
  | .two => sel.counter2

def Selection.resought (sel : Selection n K) : User → Bool
  | .one => sel.resought1
  | .two => sel.resought2

/-- The two gateways are satellites, and the graph has a path between them. -/
def Connected (inp : CycleInput n K) (g₁ g₂ : Gateway n K) : Prop :=
  ∃ s₁ s₂, g₁ = some s₁ ∧ g₂ = some s₂ ∧ inp.graph.toSimpleGraph.Reachable s₁.id s₂.id

theorem pathExists_sat (nx : NetworkX K) (inp : CycleInput n K) (i j : Fin n) :
    pathExists nx (i : Nat) (j : Nat) inp.graph = true ↔ inp.graph.toSimpleGraph.Reachable i j := by
  have hi : ((i : Nat) : Int) ≠ -1 := by omega
  have hj : ((j : Nat) : Int) ≠ -1 := by omega
  rw [pathExists, if_neg (by simp [hi, hj]), Int.toNat_natCast, Int.toNat_natCast]
  exact nx.hasPath_iff _ _ _ (inp.nodes i) (inp.nodes j)

theorem connects_iff (nx : NetworkX K) {inp : CycleInput n K} {g₁ g₂ : Gateway n K} :
    connects nx inp g₁ g₂ = true ↔ Connected inp g₁ g₂ := by
  cases g₁ with
  | none => exact iff_of_false (fun h => nomatch h) (fun ⟨_, _, h, _⟩ => nomatch h)
  | some s₁ =>
      cases g₂ with
      | none =>
          refine iff_of_false (fun h => ?_) (fun ⟨_, _, _, h, _⟩ => nomatch h)
          simp [connects, pathExists, gatewayId] at h
      | some s₂ =>
          refine (pathExists_sat nx inp s₁.id s₂.id).trans ?_
          constructor
          · intro h
            exact ⟨s₁, s₂, rfl, rfl, h⟩
          · rintro ⟨_, _, ⟨⟩, ⟨⟩, h⟩
            exact h

section Choose

variable {nx : NetworkX K} {inp : CycleInput n K} {st : GatewayState n K}

/-! ## The four branches -/

theorem choose_connected (h : connects nx inp st.previous1 st.previous2 = true) :
    chooseGateways nx inp st =
      ⟨if st.counter1 = 15 then inp.view1.nearest else st.previous1,
        if st.counter2 = 15 then inp.view2.nearest else st.previous2,
        st.counter1, st.counter2, decide (st.counter1 = 15), decide (st.counter2 = 15)⟩ := by
  simp only [chooseGateways, h, if_true]
  by_cases h₁ : st.counter1 = 15 <;> by_cases h₂ : st.counter2 = 15 <;> simp [h₁, h₂]

theorem choose_side1 (h : connects nx inp st.previous1 st.previous2 = false)
    (h₁ : connects nx inp inp.view1.nearest st.previous2 = true) :
    chooseGateways nx inp st =
      ⟨inp.view1.nearest, st.previous2, 15, st.counter2, true, false⟩ := by
  simp only [chooseGateways, h, h₁, Bool.false_eq_true, if_false, if_true]

theorem choose_side2 (h : connects nx inp st.previous1 st.previous2 = false)
    (h₁ : connects nx inp inp.view1.nearest st.previous2 = false)
    (h₂ : connects nx inp st.previous1 inp.view2.nearest = true) :
    chooseGateways nx inp st =
      ⟨st.previous1, inp.view2.nearest, st.counter1, 15, false, true⟩ := by
  simp only [chooseGateways, h, h₁, h₂, Bool.false_eq_true, if_false, if_true]

theorem choose_neither (h : connects nx inp st.previous1 st.previous2 = false)
    (h₁ : connects nx inp inp.view1.nearest st.previous2 = false)
    (h₂ : connects nx inp st.previous1 inp.view2.nearest = false) :
    chooseGateways nx inp st =
      ⟨inp.view1.nearest, inp.view2.nearest, 15, 15, true, true⟩ := by
  simp only [chooseGateways, h, h₁, h₂, Bool.false_eq_true, if_false]

/-- What holds in each of the four branches holds of the choice. -/
theorem choose_cases {P : Selection n K → Prop}
    (connected : connects nx inp st.previous1 st.previous2 = true →
      P ⟨if st.counter1 = 15 then inp.view1.nearest else st.previous1,
        if st.counter2 = 15 then inp.view2.nearest else st.previous2,
        st.counter1, st.counter2, decide (st.counter1 = 15), decide (st.counter2 = 15)⟩)
    (side1 : connects nx inp st.previous1 st.previous2 = false →
      connects nx inp inp.view1.nearest st.previous2 = true →
      P ⟨inp.view1.nearest, st.previous2, 15, st.counter2, true, false⟩)
    (side2 : connects nx inp st.previous1 st.previous2 = false →
      connects nx inp inp.view1.nearest st.previous2 = false →
      connects nx inp st.previous1 inp.view2.nearest = true →
      P ⟨st.previous1, inp.view2.nearest, st.counter1, 15, false, true⟩)
    (neither : connects nx inp st.previous1 st.previous2 = false →
      connects nx inp inp.view1.nearest st.previous2 = false →
      connects nx inp st.previous1 inp.view2.nearest = false →
      P ⟨inp.view1.nearest, inp.view2.nearest, 15, 15, true, true⟩) :
    P (chooseGateways nx inp st) := by
  cases h : connects nx inp st.previous1 st.previous2 with
  | true =>
      rw [choose_connected h]
      exact connected h
  | false =>
      cases h₁ : connects nx inp inp.view1.nearest st.previous2 with
      | true =>
          rw [choose_side1 h h₁]
          exact side1 h h₁
      | false =>
          cases h₂ : connects nx inp st.previous1 inp.view2.nearest with
          | true =>
              rw [choose_side2 h h₁ h₂]
              exact side2 h h₁ h₂
          | false =>
              rw [choose_neither h h₁ h₂]
              exact neither h h₁ h₂

/-- User `u` is left with a counter at 15 while the other user alone is moved. -/
def Beside (nx : NetworkX K) (inp : CycleInput n K) (st : GatewayState n K) : User → Prop
  | .one => connects nx inp st.previous1 st.previous2 = false ∧
      connects nx inp inp.view1.nearest st.previous2 = false ∧
      connects nx inp st.previous1 inp.view2.nearest = true ∧ st.counter1 = 15
  | .two => connects nx inp st.previous1 st.previous2 = false ∧
      connects nx inp inp.view1.nearest st.previous2 = true ∧ st.counter2 = 15

/-- User `u` keeps its gateway, and the pair is connected. -/
def Keeps (nx : NetworkX K) (inp : CycleInput n K) (st : GatewayState n K) : User → Prop
  | .one =>
      (connects nx inp st.previous1 st.previous2 = true ∧ st.counter1 ≠ 15 ∧
        (st.counter2 = 15 → connects nx inp st.previous1 inp.view2.nearest = true)) ∨
      (connects nx inp st.previous1 st.previous2 = false ∧
        connects nx inp inp.view1.nearest st.previous2 = false ∧
        connects nx inp st.previous1 inp.view2.nearest = true)
  | .two =>
      (connects nx inp st.previous1 st.previous2 = true ∧ st.counter2 ≠ 15 ∧
        (st.counter1 = 15 → connects nx inp inp.view1.nearest st.previous2 = true)) ∨
      (connects nx inp st.previous1 st.previous2 = false ∧
        connects nx inp inp.view1.nearest st.previous2 = true)

/-- What every branch has in common for user `u`. -/
structure Selection.Sound (inp : CycleInput n K) (st : GatewayState n K) (sel : Selection n K)
    (u : User) : Prop where
  resought : sel.resought u = true →
    sel.counter u = 15 ∧ ∀ s ∈ sel.gateway u, s ∈ (inp.view u).inView
  kept : sel.resought u = false →
    sel.gateway u = st.previous u ∧ sel.counter u = st.counter u

theorem choose_sound (nx : NetworkX K) (inp : CycleInput n K) (st : GatewayState n K) (u : User) :
    (chooseGateways nx inp st).Sound inp st u := by
  have hn₁ := inp.view1.nearest_mem
  have hn₂ := inp.view2.nearest_mem
  refine choose_cases (P := fun sel => sel.Sound inp st u) ?_ ?_ ?_ ?_
  · intro h
    cases u with
    | one =>
        refine ⟨fun hr => ?_, fun hr => ?_⟩
        · have hc : st.counter1 = 15 := of_decide_eq_true hr
          refine ⟨hc, ?_⟩
          simp only [Selection.gateway, if_pos hc]
          exact hn₁
        · have hc : st.counter1 ≠ 15 := of_decide_eq_false hr
          exact ⟨if_neg hc, rfl⟩
    | two =>
        refine ⟨fun hr => ?_, fun hr => ?_⟩
        · have hc : st.counter2 = 15 := of_decide_eq_true hr
          refine ⟨hc, ?_⟩
          simp only [Selection.gateway, if_pos hc]
          exact hn₂
        · have hc : st.counter2 ≠ 15 := of_decide_eq_false hr
          exact ⟨if_neg hc, rfl⟩
  · intro h h₁
    cases u with
    | one => exact ⟨fun _ => ⟨rfl, hn₁⟩, fun hr => nomatch hr⟩
    | two => exact ⟨(fun hr => nomatch hr), fun _ => ⟨rfl, rfl⟩⟩
  · intro h h₁ h₂
    cases u with
    | one => exact ⟨(fun hr => nomatch hr), fun _ => ⟨rfl, rfl⟩⟩
    | two => exact ⟨fun _ => ⟨rfl, hn₂⟩, fun hr => nomatch hr⟩
  · intro h h₁ h₂
    cases u with
    | one => exact ⟨fun _ => ⟨rfl, hn₁⟩, fun hr => nomatch hr⟩
    | two => exact ⟨fun _ => ⟨rfl, hn₂⟩, fun hr => nomatch hr⟩

theorem choose_keeps (u : User) :
    ((chooseGateways nx inp st).resought u = false ∧
      connects nx inp (chooseGateways nx inp st).gateway1 (chooseGateways nx inp st).gateway2 =
        true) ↔
    Keeps nx inp st u := by
  refine choose_cases (P := fun sel => (sel.resought u = false ∧
    connects nx inp sel.gateway1 sel.gateway2 = true) ↔ Keeps nx inp st u) ?_ ?_ ?_ ?_
  · intro h
    by_cases h₁ : st.counter1 = 15 <;> by_cases h₂ : st.counter2 = 15 <;>
      cases u <;> simp [Keeps, Selection.resought, h, h₁, h₂]
  · intro h h₁
    cases u <;> simp [Keeps, Selection.resought, h, h₁]
  · intro h h₁ h₂
    cases u <;> simp [Keeps, Selection.resought, h, h₁, h₂]
  · intro h h₁ h₂
    cases u <;> simp [Keeps, Selection.resought, h, h₁, h₂]

theorem choose_beside (u : User) :
    ((chooseGateways nx inp st).resought u = false ∧ st.counter u = 15) ↔ Beside nx inp st u := by
  refine choose_cases (P := fun sel => (sel.resought u = false ∧ st.counter u = 15) ↔
    Beside nx inp st u) ?_ ?_ ?_ ?_
  · intro h
    cases u <;> simp [Beside, Selection.resought, GatewayState.counter, h]
  · intro h h₁
    cases u <;> simp [Beside, Selection.resought, GatewayState.counter, h, h₁]
  · intro h h₁ h₂
    cases u <;> simp [Beside, Selection.resought, GatewayState.counter, h, h₁, h₂]
  · intro h h₁ h₂
    cases u <;> simp [Beside, Selection.resought, GatewayState.counter, h, h₁, h₂]

/-- Moved alone, the other user is connected. -/
theorem connects_of_beside {u : User} (hb : Beside nx inp st u) :
    connects nx inp (chooseGateways nx inp st).gateway1 (chooseGateways nx inp st).gateway2 =
      true := by
  cases u with
  | one =>
      obtain ⟨h, h₁, h₂, -⟩ := hb
      rw [choose_side2 h h₁ h₂]
      exact h₂
  | two =>
      obtain ⟨h, h₁, -⟩ := hb
      rw [choose_side1 h h₁]
      exact h₁

end Choose

/-! ## The fallback -/

section Fallback

variable [Field K] [LinearOrder K] {nx : NetworkX K} {inp : CycleInput n K}
  {st : GatewayState n K}

/-- The pairs of satellites in view. -/
def CycleInput.pairs (inp : CycleInput n K) : List (Sat n K × Sat n K) :=
  inp.view1.inView.flatMap fun s₁ => inp.view2.inView.map fun s₂ => (s₁, s₂)

omit [Field K] [LinearOrder K] in
theorem CycleInput.mem_pairs {s₁ s₂ : Sat n K} :
    (s₁, s₂) ∈ inp.pairs ↔ s₁ ∈ inp.view1.inView ∧ s₂ ∈ inp.view2.inView := by
  simp [CycleInput.pairs]

/-- The pairs of satellites in view that are connected. -/
def CycleInput.usable (nx : NetworkX K) (inp : CycleInput n K) : List (Sat n K × Sat n K) :=
  inp.pairs.filter fun p => pathExists nx (p.1.id : Nat) (p.2.id : Nat) inp.graph

omit [Field K] [LinearOrder K] in
theorem CycleInput.mem_usable {p : Sat n K × Sat n K} :
    p ∈ inp.usable nx ↔ p ∈ inp.pairs ∧ inp.graph.toSimpleGraph.Reachable p.1.id p.2.id := by
  rw [CycleInput.usable, List.mem_filter, pathExists_sat]

/-- The first of the usable pairs with the least sum of latencies. -/
def CycleInput.cheapest (nx : NetworkX K) (inp : CycleInput n K) : Option (Sat n K × Sat n K) :=
  (inp.usable nx).argmin fun p => p.1.latency + p.2.latency

theorem foldl_alternativeStep (nx : NetworkX K) (G : WGraph Nat K)
    (pairs : List (Sat n K × Sat n K)) :
    pairs.foldl (alternativeStep nx G) (none, none) =
      ((pairs.filter fun p => pathExists nx (p.1.id : Nat) (p.2.id : Nat) G).argmin
        fun p => p.1.latency + p.2.latency).elim (none, none) fun p => (some p.1, some p.2) := by
  induction pairs using List.reverseRecOn with
  | nil => rfl
  | append_singleton pairs p ih =>
      rw [List.foldl_append, List.foldl_cons, List.foldl_nil, ih, List.filter_append,
        alternativeStep]
      cases hp : pathExists nx (p.1.id : Nat) (p.2.id : Nat) G with
      | false => simp [hp]
      | true =>
          have hlast :
              ([p].filter fun p => pathExists nx (p.1.id : Nat) (p.2.id : Nat) G) = [p] := by
            simp [hp]
          rw [if_pos rfl, hlast, List.argmin_concat]
          cases (pairs.filter fun p => pathExists nx (p.1.id : Nat) (p.2.id : Nat) G).argmin
              fun p => p.1.latency + p.2.latency with
          | none => rfl
          | some best =>
              simp only [Option.elim_some, nearerPair, decide_eq_true_eq]
              split <;> rfl

/-- **The search finds the cheapest usable pair**, the first one if there are several. -/
theorem alternativeGateways_eq (nx : NetworkX K) (inp : CycleInput n K) :
    alternativeGateways nx inp =
      (inp.cheapest nx).elim (none, none) fun p => (some p.1, some p.2) := by
  have h := foldl_alternativeStep nx inp.graph inp.pairs
  simp only [CycleInput.pairs, List.foldl_flatMap, List.foldl_map] at h
  exact h

/-- The fallback takes the cheapest usable pair, if the selection is not connected. -/
theorem fallback_eq (nx : NetworkX K) (inp : CycleInput n K) (sel : Selection n K) :
    fallback nx inp sel = if connects nx inp sel.gateway1 sel.gateway2 then sel else
      (inp.cheapest nx).elim sel fun p => ⟨some p.1, some p.2, 15, 15, true, true⟩ := by
  rw [fallback, alternativeGateways_eq]
  split
  case isTrue h => rfl
  case isFalse h =>
    cases hc : inp.cheapest nx with
    | none => rfl
    | some p =>
        have hr := (CycleInput.mem_usable.mp (List.argmin_mem hc)).2
        exact if_pos ((connects_iff nx).mpr ⟨p.1, p.2, rfl, rfl, hr⟩)

/-- What the fallback can do. -/
theorem fallback_cases (nx : NetworkX K) (inp : CycleInput n K) (sel : Selection n K) :
    (connects nx inp sel.gateway1 sel.gateway2 = true ∧ fallback nx inp sel = sel) ∨
    (connects nx inp sel.gateway1 sel.gateway2 = false ∧
      ∃ s₁ ∈ inp.view1.inView, ∃ s₂ ∈ inp.view2.inView,
        inp.graph.toSimpleGraph.Reachable s₁.id s₂.id ∧
        fallback nx inp sel = ⟨some s₁, some s₂, 15, 15, true, true⟩) ∨
    (connects nx inp sel.gateway1 sel.gateway2 = false ∧ fallback nx inp sel = sel ∧
      ∀ s₁ ∈ inp.view1.inView, ∀ s₂ ∈ inp.view2.inView,
        ¬ inp.graph.toSimpleGraph.Reachable s₁.id s₂.id) := by
  rw [fallback_eq]
  cases h : connects nx inp sel.gateway1 sel.gateway2 with
  | true => exact Or.inl ⟨rfl, if_pos rfl⟩
  | false =>
      rw [if_neg Bool.false_ne_true]
      cases hc : inp.cheapest nx with
      | none =>
          refine Or.inr (Or.inr ⟨rfl, rfl, fun s₁ h₁ s₂ h₂ hr => ?_⟩)
          have hmem : (s₁, s₂) ∈ inp.usable nx :=
            CycleInput.mem_usable.mpr ⟨CycleInput.mem_pairs.mpr ⟨h₁, h₂⟩, hr⟩
          rw [List.argmin_eq_none.mp hc] at hmem
          exact absurd hmem List.not_mem_nil
      | some p =>
          obtain ⟨hmem, hr⟩ := CycleInput.mem_usable.mp (List.argmin_mem hc)
          obtain ⟨h₁, h₂⟩ := CycleInput.mem_pairs.mp hmem
          exact Or.inr (Or.inl ⟨rfl, p.1, h₁, p.2, h₂, hr, rfl⟩)

/-! ## The selection -/

theorem selection_sound (nx : NetworkX K) (inp : CycleInput n K) (st : GatewayState n K)
    (u : User) : (selectGateways nx inp st).Sound inp st u := by
  have hchoose := choose_sound nx inp st u
  rcases fallback_cases nx inp (chooseGateways nx inp st) with
    ⟨-, h⟩ | ⟨-, s₁, h₁, s₂, h₂, -, h⟩ | ⟨-, h, -⟩
  · rw [selectGateways, h]
    exact hchoose
  · rw [selectGateways, h]
    cases u with
    | one => exact ⟨fun _ => ⟨rfl, fun s hs => Option.some.inj hs ▸ h₁⟩, fun hr => nomatch hr⟩
    | two => exact ⟨fun _ => ⟨rfl, fun s hs => Option.some.inj hs ▸ h₂⟩, fun hr => nomatch hr⟩
  · rw [selectGateways, h]
    exact hchoose

theorem selectGateways_of_connects
    (h : connects nx inp (chooseGateways nx inp st).gateway1 (chooseGateways nx inp st).gateway2 =
      true) : selectGateways nx inp st = chooseGateways nx inp st := by
  rw [selectGateways, fallback, h, if_pos rfl]

/-- A gateway that is not sought again was chosen before the fallback. -/
theorem choose_of_not_resought {u : User} (h : (selectGateways nx inp st).resought u = false) :
    selectGateways nx inp st = chooseGateways nx inp st := by
  rcases fallback_cases nx inp (chooseGateways nx inp st) with
    ⟨-, hf⟩ | ⟨-, s₁, -, s₂, -, -, hf⟩ | ⟨-, hf, -⟩
  · exact hf
  · rw [selectGateways, hf] at h
    cases u <;> cases h
  · exact hf

/-- **When a gateway is kept** and the pair is connected. -/
theorem keeps_iff (u : User) : ((selectGateways nx inp st).resought u = false ∧
    Connected inp (selectGateways nx inp st).gateway1 (selectGateways nx inp st).gateway2) ↔
    Keeps nx inp st u := by
  rw [← choose_keeps, ← connects_iff nx]
  constructor
  · rintro ⟨hr, hc⟩
    have he := choose_of_not_resought hr
    rw [he] at hr hc
    exact ⟨hr, hc⟩
  · rintro ⟨hr, hc⟩
    rw [selectGateways_of_connects hc]
    exact ⟨hr, hc⟩

/-- **When a counter at 15 goes unheeded.** -/
theorem beside_iff (u : User) :
    ((selectGateways nx inp st).resought u = false ∧ st.counter u = 15) ↔ Beside nx inp st u := by
  constructor
  · rintro ⟨hr, hc⟩
    rw [choose_of_not_resought hr] at hr
    exact (choose_beside u).mp ⟨hr, hc⟩
  · intro hb
    rw [selectGateways_of_connects (connects_of_beside hb)]
    exact (choose_beside u).mpr hb

/-- **A connected pair in view is enough** for a connected selection. -/
theorem selection_connected (nx : NetworkX K) (st : GatewayState n K) {s₁ s₂ : Sat n K}
    (h₁ : s₁ ∈ inp.view1.inView) (h₂ : s₂ ∈ inp.view2.inView)
    (hr : inp.graph.toSimpleGraph.Reachable s₁.id s₂.id) :
    Connected inp (selectGateways nx inp st).gateway1 (selectGateways nx inp st).gateway2 := by
  rcases fallback_cases nx inp (chooseGateways nx inp st) with
    ⟨hc, h⟩ | ⟨-, t₁, -, t₂, -, hr', h⟩ | ⟨-, -, hnone⟩
  · rw [selectGateways, h]
    exact (connects_iff nx).mp hc
  · rw [selectGateways, h]
    exact ⟨t₁, t₂, rfl, rfl, hr'⟩
  · exact absurd hr (hnone s₁ h₁ s₂ h₂)

end Fallback

end LeoEM
