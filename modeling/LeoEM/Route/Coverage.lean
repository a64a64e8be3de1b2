/-
# `Route.Coverage` — what a kept gateway no longer is

A gateway is sought among the satellites in view, so in the cycle it is sought it
covers its user and its latency is that of the cycle.  A kept gateway has its record
from an earlier cycle, and nothing looks at it again: `pathExists` asks only whether
the two satellites are connected.

So of a property that all satellites in view have, the served satellites of all cycles
have it exactly if the kept ones do (`served_iff`).  The property is covering the user
in `covered_iff`, and having the latency of the cycle in `current_iff`.
-/
import LeoEM.Route.Scenario

namespace LeoEM

open PyList

variable {n : Nat} {K : Type} [Field K] [LinearOrder K] [MathSqrt K]

/-- The node is a satellite that user `u` sees in cycle `k`. -/
def Scenario.InView (sc : Scenario n K) (k : Nat) (u : User) (node : Int) : Prop :=
  ∃ s ∈ ((sc.cycleInput k).view u).inView, node = (s.id : Nat) ∧
    checkSatCoverGroundStation (sc.position k s.id) (sc.test u) sc.L = true

/-- The first satellite of the route is in view of user 1, and the last one of user 2. -/
def Scenario.Covered (sc : Scenario n K) (k : Nat) (r : Route K) : Prop :=
  ∃ first last, getItem r.path 1 = .ok first ∧ getItem r.path (-2) = .ok last ∧
    sc.InView k .one first ∧ sc.InView k .two last

/-- The delays of the route are those of cycle `k`: at the ends between user and satellite,
between the ends the weight of the hop, and their sum. -/
structure Scenario.Current (sc : Scenario n K) (k : Nat) (r : Route K) : Prop where
  first : ∃ i : Fin n, getItem r.path 1 = .ok ((i : Nat) : Int) ∧
    getItem r.nodeDelay 0 = .ok (computeLatency (sc.position k i) sc.test1)
  last : ∃ i : Fin n, getItem r.path (-2) = .ok ((i : Nat) : Int) ∧
    getItem r.nodeDelay (-1) = .ok (computeLatency (sc.position k i) sc.test2)
  inner : ∀ i, 1 ≤ i → i + 2 < r.path.length → ∃ (a b : Nat) (w : K),
    r.path[i]? = some (a : Int) ∧ r.path[i + 1]? = some (b : Int) ∧
      (sc.graph k).weight? a b = some w ∧ r.nodeDelay[i]? = some w
  sum : r.delaySum = r.nodeDelay.sum

section Runs

variable {nx : NetworkX K} {delay : Scalar K} {sc : Scenario n K} {cycles : Nat}

/-- **What the satellites in view have, the served ones have if the kept ones do.** -/
theorem served_iff (nx : NetworkX K) (delay : Scalar K) (cycles : Nat)
    {Q : Nat → User → Sat n K → Prop}
    (hview : ∀ k u s, s ∈ ((sc.cycleInput k).view u).inView → Q k u s) :
    (∀ (k : Nat) (v : RouteVisit n K), (sc.run nx delay cycles)[k]? = some v →
      Connected v.input.1 (selectGateways nx v.input.1 v.before).gateway1
        (selectGateways nx v.input.1 v.before).gateway2 →
      ∀ u, ∀ s ∈ (selectGateways nx v.input.1 v.before).gateway u, Q k u s) ↔
    ∀ (k : Nat) (v : RouteVisit n K), (sc.run nx delay cycles)[k]? = some v →
      ∀ u, Keeps nx v.input.1 v.before u → ∀ s ∈ v.before.previous u, Q k u s := by
  constructor
  · intro h k v hv u hkeep s hs
    obtain ⟨hr, hc⟩ := (keeps_iff u).mpr hkeep
    have hsame := ((selection_sound nx v.input.1 v.before u).kept hr).1
    exact h k v hv hc u s (hsame ▸ hs)
  · intro h k v hv hc u s hs
    have hsound := selection_sound nx v.input.1 v.before u
    cases hr : (selectGateways nx v.input.1 v.before).resought u with
    | true =>
        have hm := (hsound.resought hr).2 s hs
        rw [(run_visit hv).1] at hm
        exact hview k u s hm
    | false =>
        rw [(hsound.kept hr).1] at hs
        exact h k v hv u ((keeps_iff u).mp ⟨hr, hc⟩) s hs

/-- A line with a path has the route between the two gateways of the cycle. -/
theorem route_of_line {k : Nat} {v : RouteVisit n K} {r : Route K}
    (hv : (sc.run nx delay cycles)[k]? = some v)
    (hline : v.done.log = lineWrites delay v.input.2 (some r)) :
    ∃ s₁ s₂ nodes weights, (selectGateways nx v.input.1 v.before).gateway1 = some s₁ ∧
      (selectGateways nx v.input.1 v.before).gateway2 = some s₂ ∧
      Between (sc.cycleInput k) s₁ s₂ r nodes weights ∧
      Connected v.input.1 (selectGateways nx v.input.1 v.before).gateway1
        (selectGateways nx v.input.1 v.before).gateway2 := by
  obtain ⟨hinp, hlog⟩ := run_visit hv
  have hroute := lineWrites_injective (hlog.symm.trans hline)
  rcases lineRoute_cases nx v.input.1 v.before with
    ⟨s₁, s₂, r', nodes, weights, h₁, h₂, hr', hb, hc⟩ | ⟨-, hnone⟩
  · obtain rfl : r' = r := Option.some.inj (hr'.symm.trans hroute)
    rw [hinp] at hb
    exact ⟨s₁, s₂, nodes, weights, h₁, h₂, hb, hc⟩
  · rw [hnone] at hroute
    cases hroute

/-- A cycle whose gateways are connected writes a line with a path. -/
theorem line_of_connected {k : Nat} {v : RouteVisit n K}
    (hv : (sc.run nx delay cycles)[k]? = some v)
    (hc : Connected v.input.1 (selectGateways nx v.input.1 v.before).gateway1
      (selectGateways nx v.input.1 v.before).gateway2) :
    ∃ s₁ s₂ r nodes weights, (selectGateways nx v.input.1 v.before).gateway1 = some s₁ ∧
      (selectGateways nx v.input.1 v.before).gateway2 = some s₂ ∧
      Between (sc.cycleInput k) s₁ s₂ r nodes weights ∧
      v.done.log = lineWrites delay v.input.2 (some r) := by
  obtain ⟨hinp, hlog⟩ := run_visit hv
  rcases lineRoute_cases nx v.input.1 v.before with
    ⟨s₁, s₂, r, nodes, weights, h₁, h₂, hr, hb, -⟩ | ⟨hno, -⟩
  · rw [hinp] at hb
    exact ⟨s₁, s₂, r, nodes, weights, h₁, h₂, hb, by rw [hlog, hr]⟩
  · exact absurd hc hno

/-- The route of a line, user by user. -/
theorem covered_of_between {k : Nat} {s₁ s₂ : Sat n K} {r : Route K} {nodes : List Nat}
    {weights : List K} (hb : Between (sc.cycleInput k) s₁ s₂ r nodes weights) :
    sc.Covered k r ↔
      checkSatCoverGroundStation (sc.position k s₁.id) sc.test1 sc.L = true ∧
      checkSatCoverGroundStation (sc.position k s₂.id) sc.test2 sc.L = true := by
  have hview : ∀ (u : User) (i : Fin n), sc.InView k u ((i : Nat) : Int) ↔
      checkSatCoverGroundStation (sc.position k i) (sc.test u) sc.L = true := by
    intro u i
    constructor
    · rintro ⟨s, -, hid, hc⟩
      obtain rfl : i = s.id := Fin.ext (Int.ofNat.inj hid)
      exact hc
    · intro hc
      exact ⟨⟨computeLatency (sc.position k i) (sc.test u), i⟩, mem_view.mpr ⟨hc, rfl⟩, rfl, hc⟩
  constructor
  · rintro ⟨first, last, h₁, h₂, hv₁, hv₂⟩
    rw [hb.first, Except.ok.injEq] at h₁
    rw [hb.last, Except.ok.injEq] at h₂
    subst h₁ h₂
    exact ⟨(hview .one s₁.id).mp hv₁, (hview .two s₂.id).mp hv₂⟩
  · rintro ⟨h₁, h₂⟩
    exact ⟨_, _, hb.first, hb.last, (hview .one s₁.id).mpr h₁, (hview .two s₂.id).mpr h₂⟩

/-- The hops of a route have the weights of the graph, whatever its gateways. -/
theorem hop_of_between {k : Nat} {s₁ s₂ : Sat n K} {r : Route K} {nodes : List Nat}
    {weights : List K} (hb : Between (sc.cycleInput k) s₁ s₂ r nodes weights) {i : Nat}
    (h₁ : 1 ≤ i) (h₂ : i + 2 < r.path.length) : ∃ (a b : Nat) (w : K),
      r.path[i]? = some (a : Int) ∧ r.path[i + 1]? = some (b : Int) ∧
        (sc.graph k).weight? a b = some w ∧ r.nodeDelay[i]? = some w := by
  obtain ⟨j, rfl⟩ := Nat.exists_eq_add_of_le' h₁
  have hlen : r.path.length = nodes.length + 2 := by rw [hb.path]; simp
  have hj : j + 1 < nodes.length := by omega
  have hhop := congrArg (·[j]?) hb.hops
  simp only [List.getElem?_zipWith, List.getElem?_tail, List.getElem?_map,
    List.getElem?_eq_getElem hj, List.getElem?_eq_getElem (Nat.lt_of_succ_lt hj)] at hhop
  obtain ⟨w, hw, hwj⟩ := Option.map_eq_some_iff.mp hhop.symm
  have hwlt : j < weights.length := (List.getElem?_eq_some_iff.mp hw).1
  refine ⟨nodes[j], nodes[j + 1], w, ?_, ?_, hwj.symm, ?_⟩
  · rw [hb.path, List.cons_append, List.getElem?_cons_succ,
      List.getElem?_append_left (by simpa using Nat.lt_of_succ_lt hj), List.getElem?_map,
      List.getElem?_eq_getElem (Nat.lt_of_succ_lt hj)]
    rfl
  · rw [hb.path, List.cons_append, List.getElem?_cons_succ,
      List.getElem?_append_left (by simpa using hj), List.getElem?_map,
      List.getElem?_eq_getElem hj]
    rfl
  · rw [hb.nodeDelay, List.cons_append, List.getElem?_cons_succ,
      List.getElem?_append_left hwlt, hw]

theorem current_of_between {k : Nat} {s₁ s₂ : Sat n K} {r : Route K} {nodes : List Nat}
    {weights : List K} (hb : Between (sc.cycleInput k) s₁ s₂ r nodes weights) :
    sc.Current k r ↔
      s₁.latency = computeLatency (sc.position k s₁.id) sc.test1 ∧
      s₂.latency = computeLatency (sc.position k s₂.id) sc.test2 := by
  have hfirst : getItem r.nodeDelay 0 = .ok s₁.latency := by rw [hb.nodeDelay, getItem_first]
  have hlast : getItem r.nodeDelay (-1) = .ok s₂.latency := by rw [hb.nodeDelay, getItem_last]
  constructor
  · rintro ⟨⟨i, hi, h₁⟩, ⟨j, hj, h₂⟩, -, -⟩
    rw [hb.first, Except.ok.injEq] at hi
    rw [hb.last, Except.ok.injEq] at hj
    obtain rfl : s₁.id = i := Fin.ext (Int.ofNat.inj hi)
    obtain rfl : s₂.id = j := Fin.ext (Int.ofNat.inj hj)
    exact ⟨Except.ok.inj (hfirst.symm.trans h₁), Except.ok.inj (hlast.symm.trans h₂)⟩
  · rintro ⟨h₁, h₂⟩
    exact ⟨⟨s₁.id, hb.first, h₁ ▸ hfirst⟩, ⟨s₂.id, hb.last, h₂ ▸ hlast⟩,
      fun i hi hi' => hop_of_between hb hi hi', hb.delaySum⟩

/-- **A property of lines that is one of the served satellites** holds of every line of a run
exactly if the kept gateways have it. -/
theorem lines_iff (nx : NetworkX K) (delay : Scalar K) (cycles : Nat)
    {P : Nat → Route K → Prop} {Q : Nat → User → Sat n K → Prop}
    (hview : ∀ k u s, s ∈ ((sc.cycleInput k).view u).inView → Q k u s)
    (hroute : ∀ k s₁ s₂ r nodes weights, Between (sc.cycleInput k) s₁ s₂ r nodes weights →
      (P k r ↔ Q k .one s₁ ∧ Q k .two s₂)) :
    (∀ (k : Nat) (v : RouteVisit n K) r, (sc.run nx delay cycles)[k]? = some v →
      v.done.log = lineWrites delay v.input.2 (some r) → P k r) ↔
    ∀ (k : Nat) (v : RouteVisit n K), (sc.run nx delay cycles)[k]? = some v →
      ∀ u, Keeps nx v.input.1 v.before u → ∀ s ∈ v.before.previous u, Q k u s := by
  rw [← served_iff nx delay cycles hview]
  constructor
  · intro h k v hv hc
    obtain ⟨s₁, s₂, r, nodes, weights, h₁, h₂, hb, hline⟩ := line_of_connected hv hc
    obtain ⟨hQ₁, hQ₂⟩ := (hroute k s₁ s₂ r nodes weights hb).mp (h k v r hv hline)
    intro u s hs
    cases u with
    | one =>
        obtain rfl : s₁ = s := Option.some.inj (h₁.symm.trans hs)
        exact hQ₁
    | two =>
        obtain rfl : s₂ = s := Option.some.inj (h₂.symm.trans hs)
        exact hQ₂
  · intro h k v r hv hline
    obtain ⟨s₁, s₂, nodes, weights, h₁, h₂, hb, hc⟩ := route_of_line hv hline
    exact (hroute k s₁ s₂ r nodes weights hb).mpr ⟨h k v hv hc .one s₁ h₁, h k v hv hc .two s₂ h₂⟩

end Runs

/-- **Served users are covered** in every cycle of a run whose line carries a path, exactly
if every gateway that is kept still covers its user. -/
theorem covered_iff (nx : NetworkX K) (delay : Scalar K) (sc : Scenario n K) (cycles : Nat) :
    (∀ (k : Nat) (v : RouteVisit n K) r, (sc.run nx delay cycles)[k]? = some v →
      v.done.log = lineWrites delay v.input.2 (some r) → sc.Covered k r) ↔
    ∀ (k : Nat) (v : RouteVisit n K), (sc.run nx delay cycles)[k]? = some v →
      ∀ u, Keeps nx v.input.1 v.before u → ∀ s ∈ v.before.previous u,
        checkSatCoverGroundStation (sc.position k s.id) (sc.test u) sc.L = true :=
  lines_iff nx delay cycles (fun _ _ _ hs => (mem_view.mp hs).1)
    fun _ _ _ _ _ _ hb => covered_of_between hb

/-- **Written delays are current** in every cycle of a run whose line carries a path, exactly
if every gateway that is kept still has the latency it was recorded with. -/
theorem current_iff (nx : NetworkX K) (delay : Scalar K) (sc : Scenario n K) (cycles : Nat) :
    (∀ (k : Nat) (v : RouteVisit n K) r, (sc.run nx delay cycles)[k]? = some v →
      v.done.log = lineWrites delay v.input.2 (some r) → sc.Current k r) ↔
    ∀ (k : Nat) (v : RouteVisit n K), (sc.run nx delay cycles)[k]? = some v →
      ∀ u, Keeps nx v.input.1 v.before u → ∀ s ∈ v.before.previous u,
        s.latency = computeLatency (sc.position k s.id) (sc.test u) :=
  lines_iff nx delay cycles (fun _ _ _ hs => (mem_view.mp hs).2)
    fun _ _ _ _ _ _ hb => current_of_between hb

/-! ## A satellite that moves away -/

/-- The integer square root, rounded down, two binary digits a step. -/
def isqrt : Nat → Nat → Nat
  | 0, _ => 0
  | fuel + 1, m =>
      let root := 2 * isqrt fuel (m / 4)
      if (root + 1) * (root + 1) ≤ m then root + 1 else root

/-- A square root of rationals, exact on squares. -/
instance : MathSqrt Rat := ⟨fun q => isqrt 64 (q.num.toNat * q.den) / q.den⟩

/-- Both users at latitude and longitude 0, and one satellite, 999 km away in the first
cycle and 1006 km in the second. -/
def leavingSat (L : Rat) : Scenario 1 Rat where
  test1 := ⟨6371000, 0, 0⟩
  test2 := ⟨6371000, 0, 0⟩
  L := L
  position k _ := if k = 0 then ⟨6970400, 0, 799200⟩ else ⟨6974600, 0, 804800⟩
  script := .isl fun _ _ _ => 0

/-- The route of both cycles. -/
def leavingRoute : Route Rat := ⟨[-1, 0, -2], 3, [999 / 500000, 999 / 500000], 999 / 250000⟩

theorem leavingSat_second (L : Rat) (h : L = 1000000 ∨ L = 1100000) :
    ∃ v, ((leavingSat L).run WGraph.searchFinder Scalar.rat 2)[1]? = some v ∧
      v.done.log = lineWrites Scalar.rat v.input.2 (some leavingRoute) := by
  have hsecond : (((leavingSat L).run WGraph.searchFinder Scalar.rat 2)[1]?).map
      (fun v => (v.input.2, v.done.log)) =
        some (2, lineWrites Scalar.rat 2 (some leavingRoute)) := by
    rcases h with rfl | rfl <;> decide +kernel
  obtain ⟨v, hv, hlast⟩ := Option.map_eq_some_iff.mp hsecond
  obtain ⟨hcycle, hlog⟩ := Prod.mk.inj hlast
  exact ⟨v, hv, by rw [hlog, hcycle]; rfl⟩

/-- With a limit of 1000 km the satellite is out of reach, and still serves. -/
theorem leavingSat_not_covered : ∃ v r,
    ((leavingSat 1000000).run WGraph.searchFinder Scalar.rat 2)[1]? = some v ∧
      v.done.log = lineWrites Scalar.rat v.input.2 (some r) ∧
      ¬ (leavingSat 1000000).Covered 1 r := by
  obtain ⟨v, hv, hlog⟩ := leavingSat_second 1000000 (Or.inl rfl)
  refine ⟨v, leavingRoute, hv, hlog, ?_⟩
  rintro ⟨_, _, -, -, ⟨s, -, -, hc⟩, -⟩
  have hfar : ∀ i, checkSatCoverGroundStation ((leavingSat 1000000).position 1 i)
      (leavingSat 1000000).test1 (leavingSat 1000000).L = false := by decide +kernel
  exact Bool.false_ne_true ((hfar s.id).symm.trans hc)

/-- With a limit of 1100 km it is in reach, and its delays are those of the first cycle. -/
theorem leavingSat_not_current : ∃ v r,
    ((leavingSat 1100000).run WGraph.searchFinder Scalar.rat 2)[1]? = some v ∧
      v.done.log = lineWrites Scalar.rat v.input.2 (some r) ∧
      ¬ (leavingSat 1100000).Current 1 r := by
  obtain ⟨v, hv, hlog⟩ := leavingSat_second 1100000 (Or.inr rfl)
  refine ⟨v, leavingRoute, hv, hlog, ?_⟩
  intro hcur
  obtain ⟨i, -, hdelay⟩ := hcur.first
  have hmoved : ∀ i, computeLatency ((leavingSat 1100000).position 1 i)
      (leavingSat 1100000).test1 ≠ 999 / 500000 := by decide +kernel
  exact hmoved i (Except.ok.inj hdelay).symm

end LeoEM
