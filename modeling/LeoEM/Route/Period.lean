/-
# `Route.Period` — how often a gateway is sought again

The counter is tested before it is counted up, and set to 15 by the selections that are
to reset it, so that the first cycle ends with 0 and not with 1.  A counter that ends the
cycle of a selection at 0 is at 15 for the test sixteen cycles later.  So while nothing
else moves a user its gateway is sought again every sixteen cycles (`resought_period`):
in cycle 17, where an interval of 15 seconds ends before cycle 16 (`period_iff`).

Cycles are counted from 0 here.
-/
import LeoEM.Route.Nearest
import LeoEM.Route.Clock

namespace LeoEM

variable {n : Nat} {K : Type} [Field K] [LinearOrder K]

/-- Each user has a satellite in view, and whatever the users see or have retained is
connected. -/
structure AllConnected (inp : CycleInput n K) (st : GatewayState n K) : Prop where
  seen : ∀ u, (inp.view u).inView ≠ []
  reachable : ∀ s₁, s₁ ∈ inp.view1.inView ∨ st.previous1 = some s₁ →
    ∀ s₂, s₂ ∈ inp.view2.inView ∨ st.previous2 = some s₂ →
      inp.graph.toSimpleGraph.Reachable s₁.id s₂.id

/-- A view that shows its nearest satellite, if it shows any. -/
def View.Scanned (v : View n K) : Prop := v.inView ≠ [] → ∃ s, v.nearest = some s

theorem scanned_scanUser [MathSqrt K] (position : Fin n → Point K) (user : Point K) (L : K) :
    (scanUser position user L).Scanned := by
  intro hne
  refine Option.ne_none_iff_exists'.mp fun hnone => hne ?_
  have hscan : (scanUser position user L).nearest =
      (scanUser position user L).inView.argmin Sat.latency :=
    foldl_scanStep_nearest (List.finRange n) rfl
  rw [hnone] at hscan
  exact List.argmin_eq_none.mp hscan.symm

/-! ## One cycle -/

section Cycle

variable {inp : CycleInput n K} {st : GatewayState n K}

/-- In the first cycle both users get their nearest satellites. -/
theorem select_first (nx : NetworkX K) (h : AllConnected inp GatewayState.start)
    (hscan : ∀ u, (inp.view u).Scanned) : ∃ s₁ s₂, inp.view1.nearest = some s₁ ∧
      inp.view2.nearest = some s₂ ∧
      selectGateways nx inp GatewayState.start = ⟨some s₁, some s₂, 15, 15, true, true⟩ := by
  obtain ⟨s₁, hs₁ : inp.view1.nearest = some s₁⟩ := hscan .one (h.seen .one)
  obtain ⟨s₂, hs₂ : inp.view2.nearest = some s₂⟩ := hscan .two (h.seen .two)
  have hm₁ : s₁ ∈ inp.view1.inView := inp.view1.nearest_mem s₁ hs₁
  have hm₂ : s₂ ∈ inp.view2.inView := inp.view2.nearest_mem s₂ hs₂
  have hnone : ∀ g₁ g₂ : Gateway n K, g₁ = none ∨ g₂ = none → connects nx inp g₁ g₂ = false := by
    intro g₁ g₂ hg
    rw [← Bool.not_eq_true, connects_iff]
    rintro ⟨_, _, h₁, h₂, -⟩
    rcases hg with hg | hg
    · rw [hg] at h₁
      cases h₁
    · rw [hg] at h₂
      cases h₂
  have hchoose : chooseGateways nx inp GatewayState.start =
      ⟨inp.view1.nearest, inp.view2.nearest, 15, 15, true, true⟩ :=
    choose_neither (hnone _ _ (Or.inl rfl)) (hnone _ _ (Or.inr rfl)) (hnone _ _ (Or.inl rfl))
  refine ⟨s₁, s₂, hs₁, hs₂, ?_⟩
  rw [selectGateways_of_connects, hchoose, hs₁, hs₂]
  rw [hchoose, connects_iff]
  exact ⟨s₁, s₂, hs₁, hs₂, h.reachable s₁ (Or.inl hm₁) s₂ (Or.inl hm₂)⟩

/-- In any other cycle the two users move together, when their counters are at 15. -/
theorem select_later (nx : NetworkX K) (h : AllConnected inp st)
    (hscan : ∀ u, (inp.view u).Scanned) {c : Nat} (h₁ : st.counter1 = c) (h₂ : st.counter2 = c)
    (hp₁ : ∃ s, st.previous1 = some s) (hp₂ : ∃ s, st.previous2 = some s) : ∃ s₁ s₂,
      (if c = 15 then inp.view1.nearest else st.previous1) = some s₁ ∧
      (if c = 15 then inp.view2.nearest else st.previous2) = some s₂ ∧
      selectGateways nx inp st =
        ⟨some s₁, some s₂, c, c, decide (c = 15), decide (c = 15)⟩ := by
  obtain ⟨p₁, hp₁⟩ := hp₁
  obtain ⟨p₂, hp₂⟩ := hp₂
  have hpair : connects nx inp st.previous1 st.previous2 = true :=
    (connects_iff nx).mpr ⟨p₁, p₂, hp₁, hp₂, h.reachable p₁ (Or.inr hp₁) p₂ (Or.inr hp₂)⟩
  have hchoose := choose_connected hpair
  rw [h₁, h₂] at hchoose
  -- the gateway of either user, in view or retained
  have hgateway : ∀ u, ∃ s, (if c = 15 then (inp.view u).nearest else st.previous u) = some s ∧
      (s ∈ (inp.view u).inView ∨ st.previous u = some s) := by
    intro u
    by_cases hc : c = 15
    · obtain ⟨s, hs⟩ := hscan u (h.seen u)
      exact ⟨s, by rw [if_pos hc, hs], Or.inl ((inp.view u).nearest_mem s hs)⟩
    · rw [if_neg hc]
      cases u with
      | one => exact ⟨p₁, hp₁, Or.inr hp₁⟩
      | two => exact ⟨p₂, hp₂, Or.inr hp₂⟩
  obtain ⟨s₁, hs₁, hm₁⟩ := hgateway .one
  obtain ⟨s₂, hs₂, hm₂⟩ := hgateway .two
  refine ⟨s₁, s₂, hs₁, hs₂, ?_⟩
  have hsel : chooseGateways nx inp st =
      ⟨some s₁, some s₂, c, c, decide (c = 15), decide (c = 15)⟩ := by
    rw [hchoose, ← hs₁, ← hs₂]
    rfl
  rw [selectGateways_of_connects, hsel]
  rw [hsel, connects_iff]
  exact ⟨s₁, s₂, rfl, rfl, h.reachable s₁ hm₁ s₂ hm₂⟩

/-- Before cycle `k`: the state at the start, or two gateways with equal counters that have
counted the cycles modulo 16. -/
structure Phase (k : Nat) (st : GatewayState n K) : Prop where
  start : k = 0 → st = GatewayState.start
  counters : ∀ j, k = j + 1 → st.counter1 = j % 16 ∧ st.counter2 = j % 16
  retained : ∀ j, k = j + 1 → (∃ s, st.previous1 = some s) ∧ ∃ s, st.previous2 = some s

/-- What cycle `k` does: both users are moved to their nearest satellites in every sixteenth
cycle, and kept otherwise. -/
theorem phase_step (nx : NetworkX K) {k : Nat} (hphase : Phase k st) (h : AllConnected inp st)
    (hscan : ∀ u, (inp.view u).Scanned) :
    Phase (k + 1) (selectGateways nx inp st).next ∧ ∀ u,
      ((selectGateways nx inp st).resought u = true ↔ k % 16 = 0) ∧
      (selectGateways nx inp st).next.previous u =
        if k % 16 = 0 then (inp.view u).nearest else st.previous u := by
  cases k with
  | zero =>
      rw [hphase.start rfl] at h ⊢
      obtain ⟨s₁, s₂, hs₁, hs₂, hsel⟩ := select_first nx h hscan
      rw [hsel]
      refine ⟨⟨(fun hk => absurd hk (Nat.succ_ne_zero _)), fun j hj => ?_,
        fun _ _ => ⟨⟨s₁, rfl⟩, s₂, rfl⟩⟩, fun u => ?_⟩
      · obtain rfl : 0 = j := Nat.succ.inj hj
        exact ⟨rfl, rfl⟩
      · cases u with
        | one => exact ⟨iff_of_true rfl rfl, hs₁.symm⟩
        | two => exact ⟨iff_of_true rfl rfl, hs₂.symm⟩
  | succ j =>
      obtain ⟨h₁, h₂⟩ := hphase.counters j rfl
      obtain ⟨hp₁, hp₂⟩ := hphase.retained j rfl
      obtain ⟨s₁, s₂, hs₁, hs₂, hsel⟩ := select_later nx h hscan h₁ h₂ hp₁ hp₂
      have hperiod : j % 16 = 15 ↔ (j + 1) % 16 = 0 := by omega
      have htick : tick (j % 16) = (j + 1) % 16 := by
        rw [tick]
        split <;> omega
      simp only [hperiod] at hs₁ hs₂
      rw [hsel]
      refine ⟨⟨(fun hk => absurd hk (Nat.succ_ne_zero _)), fun i hi => ?_,
        fun _ _ => ⟨⟨s₁, rfl⟩, s₂, rfl⟩⟩, fun u => ?_⟩
      · obtain rfl : j + 1 = i := Nat.succ.inj hi
        exact ⟨htick, htick⟩
      · cases u with
        | one => exact ⟨decide_eq_true_iff.trans hperiod, hs₁.symm⟩
        | two => exact ⟨decide_eq_true_iff.trans hperiod, hs₂.symm⟩

end Cycle

/-! ## Whole runs -/

section Runs

variable [MathSqrt K] {nx : NetworkX K} {delay : Scalar K} {sc : Scenario n K} {cycles k : Nat}
  {v : RouteVisit n K}

theorem scanned_run (hv : (sc.run nx delay cycles)[k]? = some v) (u : User) :
    (v.input.1.view u).Scanned := by
  rw [(run_visit hv).1]
  cases u with
  | one => exact scanned_scanUser _ _ _
  | two => exact scanned_scanUser _ _ _

theorem phase_run (h : ∀ (k : Nat) (v : RouteVisit n K), (sc.run nx delay cycles)[k]? = some v →
    AllConnected v.input.1 v.before) (hv : (sc.run nx delay cycles)[k]? = some v) :
    Phase k v.before := by
  refine Logged.visits_inv Phase ?_ ?_ hv
  · exact ⟨fun _ => rfl, (fun _ hj => nomatch hj), fun _ hj => nomatch hj⟩
  · intro k v st hv hphase hst
    obtain rfl : (selectGateways nx v.input.1 v.before).next = st :=
      Except.ok.inj ((routeRun_done hv).symm.trans hst)
    exact (phase_step nx hphase (h k v hv) (scanned_run hv)).1

/-- **The period is sixteen cycles**, as long as everything in view is connected. -/
theorem resought_period (h : ∀ (k : Nat) (v : RouteVisit n K),
    (sc.run nx delay cycles)[k]? = some v → AllConnected v.input.1 v.before)
    (hv : (sc.run nx delay cycles)[k]? = some v) (u : User) :
    (Resought nx (sc.run nx delay cycles) u k ↔ k % 16 = 0) ∧
      (selectGateways nx v.input.1 v.before).next.previous u =
        if k % 16 = 0 then (v.input.1.view u).nearest else v.before.previous u := by
  obtain ⟨hr, hgateway⟩ := (phase_step nx (phase_run h hv) (h k v hv) (scanned_run hv)).2 u
  refine ⟨?_, hgateway⟩
  rw [← hr]
  constructor
  · rintro ⟨v', hv', hr'⟩
    obtain rfl : v' = v := Option.some.inj (hv'.symm.trans hv)
    exact hr'
  · intro hr'
    exact ⟨v, hv, hr'⟩

/-- In cycle `k` the gateways are sought again exactly if `k` is a multiple of `period`; then
each user gets its nearest satellite, and otherwise keeps what it has. -/
def SoughtEvery (nx : NetworkX K) (vs : List (RouteVisit n K)) (period k : Nat) : Prop :=
  ∀ v st, vs[k]? = some v → v.done.result = .ok st → ∀ u,
    (Resought nx vs u k ↔ k % period = 0) ∧
      st.previous u = if k % period = 0 then (v.input.1.view u).nearest else v.before.previous u

/-- **Re-selection on a 15-second interval**, if everything in view is connected in every
cycle: exactly if the run is over before the second interval begins. -/
theorem period_iff (nx : NetworkX K) (delay : Scalar K) (sc : Scenario n K) (cycles : Nat)
    (h : ∀ (k : Nat) (v : RouteVisit n K), (sc.run nx delay cycles)[k]? = some v →
      AllConnected v.input.1 v.before) :
    (∀ k, SoughtEvery nx (sc.run nx delay cycles) 15 k) ↔ cycles ≤ 15 := by
  have hlen : (sc.run nx delay cycles).length = cycles := by
    rw [Scenario.run, routeRun_length, List.length_map, List.length_range]
  constructor
  · intro hall
    by_contra hlong
    have hlt : 15 < (sc.run nx delay cycles).length := by omega
    have hv := List.getElem?_eq_getElem hlt
    obtain ⟨hsought, -⟩ := hall 15 _ _ hv (routeRun_done hv) .one
    obtain ⟨hperiod, -⟩ := resought_period h hv .one
    exact absurd (hperiod.mp (hsought.mpr rfl)) (by decide)
  · intro hshort k v st hv hst u
    obtain rfl : (selectGateways nx v.input.1 v.before).next = st :=
      Except.ok.inj ((routeRun_done hv).symm.trans hst)
    have hk : k < cycles := hlen ▸ (List.getElem?_eq_some_iff.mp hv).1
    have hsame : k % 15 = 0 ↔ k % 16 = 0 := by omega
    simp only [hsame]
    exact resought_period h hv u

end Runs

/-! ### Two satellites that change places -/

/-- Both satellites are in reach of both users, and linked; satellite 0 is the nearer one in
the first 15 cycles, satellite 1 from then on. -/
def changingPlaces : Scenario 2 Rat where
  test1 := ⟨6371000, 0, 0⟩
  test2 := ⟨6371000, 0, 0⟩
  L := 1100000
  position k i := if (i.val = 0 ↔ k < 15) then ⟨6970400, 0, 799200⟩ else ⟨6974600, 0, 804800⟩
  script := .isl fun _ _ _ => 1

theorem changingPlaces_covered (k : Nat) (i : Fin 2) (u : User) :
    checkSatCoverGroundStation (changingPlaces.position k i) (changingPlaces.test u)
      changingPlaces.L = true := by
  have hboth : ∀ p ∈ [(⟨6970400, 0, 799200⟩ : Point Rat), ⟨6974600, 0, 804800⟩],
      checkSatCoverGroundStation p ⟨6371000, 0, 0⟩ 1100000 = true := by decide +kernel
  have hposition : changingPlaces.position k i ∈
      [(⟨6970400, 0, 799200⟩ : Point Rat), ⟨6974600, 0, 804800⟩] := by
    simp only [changingPlaces]
    split <;> simp
  cases u with
  | one => exact hboth _ hposition
  | two => exact hboth _ hposition

theorem changingPlaces_connected (cycles : Nat) : ∀ (k : Nat) (v : RouteVisit 2 Rat),
    (changingPlaces.run WGraph.searchFinder Scalar.rat cycles)[k]? = some v →
      AllConnected v.input.1 v.before := by
  intro k v hv
  rw [(run_visit hv).1]
  have hedge : (0, 1, 1 / 1000) ∈ islEdges fun _ _ : Fin 2 => (1 : Rat) := by decide +kernel
  have hadj : (changingPlaces.graph k).toSimpleGraph.Adj 0 1 :=
    ⟨by decide, _, hedge, Or.inl ⟨rfl, rfl⟩⟩
  constructor
  · intro u hnil
    have hmem : (⟨computeLatency (changingPlaces.position k 0) (changingPlaces.test u), 0⟩ :
        Sat 2 Rat) ∈ ((changingPlaces.cycleInput k).view u).inView :=
      mem_view.mpr ⟨changingPlaces_covered k 0 u, rfl⟩
    rw [hnil] at hmem
    exact absurd hmem List.not_mem_nil
  · intro s₁ _ s₂ _
    obtain ⟨_, i⟩ := s₁
    obtain ⟨_, j⟩ := s₂
    match i, j with
    | 0, 0 => exact SimpleGraph.Reachable.refl _
    | 0, 1 => exact hadj.reachable
    | 1, 0 => exact hadj.symm.reachable
    | 1, 1 => exact SimpleGraph.Reachable.refl _

theorem period_iff_threeCycles : (∀ k, SoughtEvery WGraph.searchFinder
    (changingPlaces.run WGraph.searchFinder Scalar.rat 3) 15 k) ↔ 3 ≤ 15 :=
  period_iff _ _ changingPlaces 3 (changingPlaces_connected 3)

theorem changingPlaces_sixteenth :
    ((changingPlaces.run WGraph.searchFinder Scalar.rat 16)[15]?).map (fun v =>
      ((selectGateways WGraph.searchFinder v.input.1 v.before).resought1,
        gatewayId v.input.1.view1.nearest,
        gatewayId (selectGateways WGraph.searchFinder v.input.1 v.before).next.previous1)) =
    some (false, 1, 0) := by decide +kernel

/-- In cycle 16, counted from 1, satellite 1 is the nearest one, and user 1 keeps
satellite 0. -/
theorem changingPlaces_not_sought :
    (∀ (k : Nat) (v : RouteVisit 2 Rat),
      (changingPlaces.run WGraph.searchFinder Scalar.rat 16)[k]? = some v →
        AllConnected v.input.1 v.before) ∧
    (∃ v st, (changingPlaces.run WGraph.searchFinder Scalar.rat 16)[15]? = some v ∧
      v.done.result = .ok st ∧ gatewayId v.input.1.view1.nearest = 1 ∧
      gatewayId st.previous1 = 0) ∧
    ¬ SoughtEvery WGraph.searchFinder
      (changingPlaces.run WGraph.searchFinder Scalar.rat 16) 15 15 := by
  obtain ⟨v, hv, hlast⟩ := Option.map_eq_some_iff.mp changingPlaces_sixteenth
  simp only [Prod.mk.injEq] at hlast
  obtain ⟨hkept, hnearest, hgateway⟩ := hlast
  refine ⟨changingPlaces_connected 16, ⟨v, _, hv, routeRun_done hv, hnearest, hgateway⟩, ?_⟩
  intro hall
  obtain ⟨hsought, -⟩ := hall v _ hv (routeRun_done hv) .one
  obtain ⟨v', hv', hr⟩ := hsought.mpr rfl
  obtain rfl : v' = v := Option.some.inj (hv'.symm.trans hv)
  exact Bool.false_ne_true (hkept.symm.trans hr)

end LeoEM
