/-
# `Route.Fallback` — what the search for an alternative does to the users

If the chosen pair is not connected while a pair in view is, both users get the cheapest
pair of satellites in view that is connected, and both counters go to 0
(`fallback_best`).  Both: also a user who was to keep its gateway.  That is the one way
in which a user whose 15 seconds are not up is moved while the retained pair is
connected (`kept_iff`).  The other user's counter is at 15, the satellite nearest to it
has no path to this user's gateway, and the cheapest pair has another satellite for this
user.
-/
import LeoEM.Route.Clock

namespace LeoEM

variable {n : Nat} {K : Type} [Field K] [LinearOrder K]

/-! ## The pair that is used -/

section Best

variable {nx : NetworkX K} {inp : CycleInput n K} {st : GatewayState n K}

/-- The fallback moves both users to the cheapest usable pair. -/
theorem selectGateways_of_cheapest {p : Sat n K × Sat n K}
    (hno : connects nx inp (chooseGateways nx inp st).gateway1
      (chooseGateways nx inp st).gateway2 = false)
    (hp : inp.cheapest nx = some p) :
    selectGateways nx inp st = ⟨some p.1, some p.2, 15, 15, true, true⟩ := by
  rw [selectGateways, fallback_eq, hno, hp]
  rfl

theorem exists_cheapest (nx : NetworkX K) {s₁ s₂ : Sat n K} (h₁ : s₁ ∈ inp.view1.inView)
    (h₂ : s₂ ∈ inp.view2.inView) (hr : inp.graph.toSimpleGraph.Reachable s₁.id s₂.id) :
    ∃ p, inp.cheapest nx = some p := by
  refine Option.ne_none_iff_exists'.mp fun hnone => ?_
  have hmem : (s₁, s₂) ∈ inp.usable nx :=
    CycleInput.mem_usable.mpr ⟨CycleInput.mem_pairs.mpr ⟨h₁, h₂⟩, hr⟩
  rw [List.argmin_eq_none.mp hnone] at hmem
  exact absurd hmem List.not_mem_nil

end Best

/-- **The fallback picks the best usable pair.**  In every state and for every input of a
cycle, if the chosen pair is not connected while a pair in view is, the pair used is a
connected one in view with the least sum of latencies, both counters end at 0, and the
path written goes from the one satellite to the other with their two latencies at its ends. -/
theorem fallback_best (nx : NetworkX K) (delay : Scalar K) (st : GatewayState n K)
    (inp : CycleInput n K) (cycle : Nat)
    (hno : connects nx inp (chooseGateways nx inp st).gateway1
      (chooseGateways nx inp st).gateway2 = false)
    (hview : ∃ s₁ ∈ inp.view1.inView, ∃ s₂ ∈ inp.view2.inView,
      inp.graph.toSimpleGraph.Reachable s₁.id s₂.id) :
    ∃ s₁ ∈ inp.view1.inView, ∃ s₂ ∈ inp.view2.inView, ∃ r nodes weights,
      inp.graph.toSimpleGraph.Reachable s₁.id s₂.id ∧
      (∀ t₁ ∈ inp.view1.inView, ∀ t₂ ∈ inp.view2.inView,
        inp.graph.toSimpleGraph.Reachable t₁.id t₂.id →
          s₁.latency + s₂.latency ≤ t₁.latency + t₂.latency) ∧
      (routeCycle nx delay st (inp, cycle)).result = .ok ⟨0, 0, some s₁, some s₂⟩ ∧
      (routeCycle nx delay st (inp, cycle)).log = lineWrites delay cycle (some r) ∧
      Between inp s₁ s₂ r nodes weights ∧
      r.nodeDelay = s₁.latency :: weights ++ [s₂.latency] := by
  obtain ⟨t₁, ht₁, t₂, ht₂, htr⟩ := hview
  obtain ⟨p, hp⟩ := exists_cheapest nx ht₁ ht₂ htr
  have hsel := selectGateways_of_cheapest hno hp
  obtain ⟨hmem, hr⟩ := CycleInput.mem_usable.mp (List.argmin_mem hp)
  obtain ⟨h₁, h₂⟩ := CycleInput.mem_pairs.mp hmem
  have hmin : ∀ t₁ ∈ inp.view1.inView, ∀ t₂ ∈ inp.view2.inView,
      inp.graph.toSimpleGraph.Reachable t₁.id t₂.id →
        p.1.latency + p.2.latency ≤ t₁.latency + t₂.latency := by
    intro t₁ ht₁ t₂ ht₂ htr
    have hmem : (t₁, t₂) ∈ inp.usable nx :=
      CycleInput.mem_usable.mpr ⟨CycleInput.mem_pairs.mpr ⟨ht₁, ht₂⟩, htr⟩
    exact List.le_of_mem_argmin hmem hp
  rcases lineRoute_cases nx inp st with
    ⟨s₁, s₂, r, nodes, weights, hs₁, hs₂, hline, hb, -⟩ | ⟨hdis, -⟩
  · rw [hsel] at hs₁ hs₂
    obtain rfl : p.1 = s₁ := Option.some.inj hs₁
    obtain rfl : p.2 = s₂ := Option.some.inj hs₂
    refine ⟨p.1, h₁, p.2, h₂, r, nodes, weights, hr, hmin, ?_, ?_, hb, hb.nodeDelay⟩
    · rw [routeCycle_eq, hsel]
      rfl
    · rw [routeCycle_eq, hline]
  · refine absurd ?_ hdis
    rw [hsel]
    exact ⟨p.1, p.2, rfl, rfl, hr⟩

/-- User 1 sees satellite `near` as well, the nearer one and without a link. -/
def farLinked (near far : Fin 3) : CycleInput 3 Rat :=
  { linkedTo far with view1 := (View.empty.see ⟨1, near⟩).see ⟨2, far⟩ }

theorem fallback_best_farLinked :
    ∃ s₁ ∈ (farLinked 0 1).view1.inView, ∃ s₂ ∈ (farLinked 0 1).view2.inView,
      (routeCycle WGraph.searchFinder Scalar.rat GatewayState.start (farLinked 0 1, 1)).result =
        .ok ⟨0, 0, some s₁, some s₂⟩ := by
  obtain ⟨s₁, h₁, s₂, h₂, _, _, _, -, -, hresult, -⟩ :=
    fallback_best WGraph.searchFinder Scalar.rat GatewayState.start (farLinked 0 1) 1
      (by decide +kernel) ⟨⟨2, 1⟩, by decide, ⟨1, 2⟩, by decide,
        SimpleGraph.Adj.reachable ⟨by decide, (1, 2, 1), List.mem_cons_self, Or.inl ⟨rfl, rfl⟩⟩⟩
  exact ⟨s₁, h₁, s₂, h₂, hresult⟩

/-! ## Whom the fallback moves -/

/-- User `u` is moved by the other user's expiry: the other user's counter is at 15, its
nearest satellite has no path to `u`'s gateway, and the cheapest usable pair has another
satellite for `u`. -/
def Displaced (nx : NetworkX K) (inp : CycleInput n K) (st : GatewayState n K) : User → Prop
  | .one => st.counter2 = 15 ∧ connects nx inp st.previous1 inp.view2.nearest = false ∧
      ∃ p, inp.cheapest nx = some p ∧ ((p.1.id : Nat) : Int) ≠ gatewayId st.previous1
  | .two => st.counter1 = 15 ∧ connects nx inp inp.view1.nearest st.previous2 = false ∧
      ∃ p, inp.cheapest nx = some p ∧ ((p.2.id : Nat) : Int) ≠ gatewayId st.previous2

section Kept

variable {nx : NetworkX K} {inp : CycleInput n K} {st : GatewayState n K}

/-- While the retained pair is connected, a user whose counter is not at 15 is chosen its
gateway of before, and the fallback is all that can move it. -/
theorem gateway_of_connected {u : User} {g₁ g₂ : Gateway n K}
    (hchoose : chooseGateways nx inp st =
      ⟨g₁, g₂, st.counter1, st.counter2, decide (st.counter1 = 15), decide (st.counter2 = 15)⟩)
    (hu : (chooseGateways nx inp st).gateway u = st.previous u) :
    gatewayId ((selectGateways nx inp st).gateway u) = gatewayId (st.previous u) ↔
      ¬ (connects nx inp g₁ g₂ = false ∧ ∃ p, inp.cheapest nx = some p ∧
        gatewayId ((⟨some p.1, some p.2, 15, 15, true, true⟩ : Selection n K).gateway u) ≠
          gatewayId (st.previous u)) := by
  rw [selectGateways, fallback_eq, hchoose]
  rw [hchoose] at hu
  cases hc : connects nx inp g₁ g₂ with
  | true => simp [hu]
  | false =>
      cases hp : inp.cheapest nx with
      | none => simp [hu]
      | some p => simp

/-- **One cycle**: while the retained pair is connected, a user whose counter is below 15
keeps its gateway, unless the other user's expiry displaces it. -/
theorem kept_step (h : connects nx inp st.previous1 st.previous2 = true) {u : User}
    (hu : st.counter u < 15) :
    gatewayId ((selectGateways nx inp st).gateway u) = gatewayId (st.previous u) ↔
      ¬ Displaced nx inp st u := by
  have hchoose := choose_connected h
  cases u with
  | one =>
      have hne : st.counter1 ≠ 15 := Nat.ne_of_lt hu
      rw [gateway_of_connected hchoose (by rw [hchoose]; exact if_neg hne), if_neg hne]
      by_cases h₂ : st.counter2 = 15
      · rw [if_pos h₂]
        simp [Displaced, h₂, Selection.gateway, GatewayState.previous, gatewayId]
      · rw [if_neg h₂]
        simp [Displaced, h₂, h]
  | two =>
      have hne : st.counter2 ≠ 15 := Nat.ne_of_lt hu
      rw [gateway_of_connected hchoose (by rw [hchoose]; exact if_neg hne), if_neg hne]
      by_cases h₁ : st.counter1 = 15
      · rw [if_pos h₁]
        simp [Displaced, h₁, Selection.gateway, GatewayState.previous, gatewayId]
      · rw [if_neg h₁]
        simp [Displaced, h₁, h]

end Kept

/-- **A gateway is kept until its 15 seconds are up**: in every cycle of a run in which the
retained pair is connected, a user whose counter is below 15 keeps its satellite, exactly if
no such cycle displaces it by the other user's expiry. -/
theorem kept_iff (nx : NetworkX K) (delay : Scalar K) (inputs : List (CycleInput n K)) :
    (∀ (k : Nat) (v : RouteVisit n K) st, (routeRun nx delay inputs)[k]? = some v →
      v.done.result = .ok st → Connected v.input.1 v.before.previous1 v.before.previous2 →
        ∀ u, v.before.counter u < 15 →
          gatewayId (st.previous u) = gatewayId (v.before.previous u)) ↔
    ∀ (k : Nat) (v : RouteVisit n K), (routeRun nx delay inputs)[k]? = some v →
      Connected v.input.1 v.before.previous1 v.before.previous2 →
        ∀ u, v.before.counter u < 15 → ¬ Displaced nx v.input.1 v.before u := by
  have hnext : ∀ (sel : Selection n K) u, sel.next.previous u = sel.gateway u := by
    intro sel u
    cases u <;> rfl
  constructor
  · intro h k v hv hc u hu
    have hkept := h k v _ hv (routeRun_done hv) hc u hu
    rw [hnext] at hkept
    exact (kept_step ((connects_iff nx).mpr hc) hu).mp hkept
  · intro h k v st hv hst hc u hu
    obtain rfl : (selectGateways nx v.input.1 v.before).next = st :=
      Except.ok.inj ((routeRun_done hv).symm.trans hst)
    rw [hnext]
    exact (kept_step ((connects_iff nx).mpr hc) hu).mpr (h k v hv hc u hu)

/-! ### A user moved before its time -/

/-- User 1 sees satellite `i` and user 2 satellite `j`. -/
def seen (i j : Fin 4) (links : List (Nat × Nat × Rat)) : CycleInput 4 Rat where
  view1 := View.empty.see ⟨1, i⟩
  view2 := View.empty.see ⟨1, j⟩
  graph := ⟨List.range 4, links⟩
  nodes i := List.mem_range.mpr i.isLt

/-- The users begin at satellites 1 and 2; in the second cycle user 1 is moved to satellite
0 alone; and when user 2's 15 seconds are up, it sees satellite 3, which is linked with
satellite 1 only. -/
def earlyMove : List (CycleInput 4 Rat) :=
  seen 1 2 [(1, 2, 1)] :: List.replicate 15 (seen 0 2 [(0, 2, 1)]) ++
    [seen 1 3 [(0, 2, 1), (1, 3, 1)]]

theorem earlyMove_last :
    ((routeRun WGraph.searchFinder Scalar.rat earlyMove)[16]?).map (fun v =>
      ((v.before.counter1, v.before.counter2),
        (connects WGraph.searchFinder v.input.1 v.before.previous1 v.before.previous2,
          gatewayId v.before.previous1),
        v.done.result.toOption.map fun st => gatewayId st.previous1)) =
    some ((14, 15), (true, 0), some 1) := by decide +kernel

/-- In the last cycle user 1, at 14 and connected, is moved from satellite 0 to satellite 1. -/
theorem earlyMove_not_kept : ∃ v st,
    (routeRun WGraph.searchFinder Scalar.rat earlyMove)[16]? = some v ∧
      v.done.result = .ok st ∧ Connected v.input.1 v.before.previous1 v.before.previous2 ∧
      v.before.counter .one < 15 ∧
      gatewayId (st.previous .one) ≠ gatewayId (v.before.previous .one) := by
  obtain ⟨v, hv, hlast⟩ := Option.map_eq_some_iff.mp earlyMove_last
  simp only [Prod.mk.injEq] at hlast
  obtain ⟨⟨hcounter, -⟩, ⟨hc, hbefore⟩, hmoved⟩ := hlast
  obtain ⟨st, hst, hafter⟩ := Option.map_eq_some_iff.mp hmoved
  refine ⟨v, st, hv, ?_, (connects_iff _).mp hc, ?_, ?_⟩
  · cases hr : v.done.result with
    | error e => rw [hr] at hst; cases hst
    | ok st' => rw [hr] at hst; exact congrArg _ (Option.some.inj hst)
  · rw [show v.before.counter .one = 14 from hcounter]
    decide
  · rw [show gatewayId (st.previous .one) = 1 from hafter,
      show gatewayId (v.before.previous .one) = 0 from hbefore]
    decide

end LeoEM
