/-
# `Route.BentPipe` — paths that bounce between sky and ground

The bent-pipe script links satellites with ground stations only, so its graph has two
colours: the numbers below the number of satellites, and the rest.  A walk changes its
colour at every hop, and both gateways are satellites.  That gives the shape of every
path the script writes (`bentPipe_line`).
-/
import LeoEM.Route.Coverage
import Mathlib.Combinatorics.SimpleGraph.Coloring.Constructions

namespace WGraph

variable {V K : Type} [DecidableEq V] {G : WGraph V K}

/-- A weight is that of an edge. -/
theorem exists_edge_of_weight {u v : V} {w : K} (h : G.weight? u v = some w) :
    ∃ e ∈ G.edges, Joins e u v ∧ e.2.2 = w := by
  obtain ⟨e, he, hw⟩ := Option.map_eq_some_iff.mp h
  have hjoin := List.find?_some he
  exact ⟨e, List.mem_reverse.mp (List.mem_of_find?_eq_some he), of_decide_eq_true hjoin, hw⟩

end WGraph

/-- Along a walk of a graph with two colours the nodes alternate. -/
theorem SimpleGraph.Coloring.even_getVert_iff {V : Type} {G : SimpleGraph V}
    (c : G.Coloring Bool) {u v : V} (w : G.Walk u v) {i : Nat} (hi : i ≤ w.length) :
    Even i ↔ (c u ↔ c (w.getVert i)) := by
  have h := c.even_length_iff_congr (w.take i)
  rwa [SimpleGraph.Walk.take_length, Nat.min_eq_left hi] at h

namespace LeoEM

variable {n : Nat} {K : Type} [Field K] [LinearOrder K] [MathSqrt K]

/-- A hop of weight `w` in cycle `k`: between a satellite and a ground station it covers, in
either direction. -/
def BentPipeHop (sc : Scenario n K) (stations : List (Point K)) (k : Nat) (a b : Nat) (w : K) :
    Prop :=
  ∃ (i : Fin n) (j : Nat) (gs : Point K), stations[j]? = some gs ∧
    checkSatCoverGroundStation (sc.position k i) gs sc.L = true ∧
    w = computeLatency (sc.position k i) gs ∧
    ((a = i ∧ b = j + n) ∨ (a = j + n ∧ b = i))

section Graph

variable {sc : Scenario n K} {stations : List (Point K)} {k : Nat}

theorem mem_bpEdges {position : Fin n → Point K} {L : K} {e : Nat × Nat × K} :
    e ∈ bpEdges position stations L ↔ ∃ (i : Fin n) (j : Nat) (gs : Point K),
      stations[j]? = some gs ∧ checkSatCoverGroundStation (position i) gs L = true ∧
        e = ((i : Nat), j + n, computeLatency (position i) gs) := by
  unfold bpEdges
  simp only [List.mem_flatMap, List.mem_filterMap, List.mem_finRange, true_and, Prod.exists,
    List.mem_zipIdx_iff_getElem?, Option.ite_none_right_eq_some, Option.some.injEq]
  constructor
  · rintro ⟨i, gs, j, hgs, hcov, rfl⟩
    exact ⟨i, j, gs, hgs, hcov, rfl⟩
  · rintro ⟨i, j, gs, hgs, hcov, rfl⟩
    exact ⟨i, gs, j, hgs, hcov, rfl⟩

/-- The edges of a bent-pipe graph are hops. -/
theorem hop_of_weight (hbp : sc.script = .bp stations) {a b : Nat} {w : K}
    (h : (sc.graph k).weight? a b = some w) : BentPipeHop sc stations k a b w := by
  obtain ⟨e, he, hjoin, rfl⟩ := WGraph.exists_edge_of_weight h
  rw [Scenario.graph, hbp] at he
  obtain ⟨i, j, gs, hgs, hcov, rfl⟩ := mem_bpEdges.mp he
  refine ⟨i, j, gs, hgs, hcov, rfl, ?_⟩
  rcases hjoin with ⟨h₁, h₂⟩ | ⟨h₁, h₂⟩
  · exact Or.inl ⟨h₁.symm, h₂.symm⟩
  · exact Or.inr ⟨h₂.symm, h₁.symm⟩

/-- A hop has one end below `n` and one from `n` on. -/
theorem BentPipeHop.ends {a b : Nat} {w : K} (h : BentPipeHop sc stations k a b w) :
    (a < n ∧ n ≤ b ∧ b < n + stations.length) ∨ (b < n ∧ n ≤ a ∧ a < n + stations.length) := by
  obtain ⟨i, j, gs, hgs, -, -, hends⟩ := h
  have hj := (List.getElem?_eq_some_iff.mp hgs).1
  have hi := i.isLt
  omega

/-- Satellites and ground stations, as the two colours of the graph. -/
def skyOrGround (hbp : sc.script = .bp stations) : (sc.graph k).toSimpleGraph.Coloring Bool :=
  SimpleGraph.Coloring.mk (fun v => decide (v < n)) (by
    intro a b hadj
    obtain ⟨w, hw⟩ := WGraph.exists_weight hadj
    have hends := (hop_of_weight hbp hw).ends
    rw [ne_eq, decide_eq_decide]
    omega)

end Graph

/-- **A line that bounces**: the route of a cycle between two gateways, over the nodes
between the dishes. -/
structure BentPipe (sc : Scenario n K) (stations : List (Point K)) (k : Nat) (s₁ s₂ : Sat n K)
    (r : Route K) (nodes : List Nat) : Prop where
  path : r.path = -1 :: nodes.map (fun i : Nat => (i : Int)) ++ [-2]
  odd : Odd nodes.length
  nodup : nodes.Nodup
  satellite : ∀ (i : Nat) x, nodes[i]? = some x → Even i → x < n
  station : ∀ (i : Nat) x, nodes[i]? = some x → Odd i → n ≤ x ∧ x < n + stations.length
  hop : ∀ (i : Nat) a b, nodes[i]? = some a → nodes[i + 1]? = some b →
    ∃ w, BentPipeHop sc stations k a b w ∧ r.nodeDelay[i + 1]? = some w
  nodeNum : Odd r.nodeNum
  delays : (r.nodeDelay.length : Int) = r.nodeNum - 1
  first : nodes.head? = some (s₁.id : Nat) ∧ r.nodeDelay.head? = some s₁.latency
  last : nodes.getLast? = some (s₂.id : Nat) ∧ r.nodeDelay.getLast? = some s₂.latency

section Line

variable {sc : Scenario n K} {stations : List (Point K)} {k : Nat} {s₁ s₂ : Sat n K}
  {r : Route K} {nodes : List Nat} {weights : List K}

/-- A node of the walk is below `n` at the even places, and only there. -/
theorem even_iff_satellite (hbp : sc.script = .bp stations)
    (w : (sc.graph k).toSimpleGraph.Walk s₁.id s₂.id) {i x : Nat}
    (hx : w.support[i]? = some x) : Even i ↔ x < n := by
  have hi : i ≤ w.length := by
    have := (List.getElem?_eq_some_iff.mp hx).1
    rw [SimpleGraph.Walk.length_support] at this
    omega
  obtain rfl : w.getVert i = x := Option.some.inj ((w.getVert_eq_support_getElem? hi).trans hx)
  rw [(skyOrGround hbp).even_getVert_iff w hi]
  show (decide ((s₁.id : Nat) < n) = true ↔ decide (w.getVert i < n) = true) ↔ w.getVert i < n
  simp [s₁.id.isLt]

/-- The hops of a route, with the places of their delays. -/
theorem hop_of_nodes (hb : Between (sc.cycleInput k) s₁ s₂ r nodes weights) {i a b : Nat}
    (ha : nodes[i]? = some a) (hb' : nodes[i + 1]? = some b) :
    ∃ w, (sc.graph k).weight? a b = some w ∧ r.nodeDelay[i + 1]? = some w := by
  have hhop := congrArg (·[i]?) hb.hops
  simp only [List.getElem?_zipWith, List.getElem?_tail, List.getElem?_map, ha, hb'] at hhop
  obtain ⟨w, hw, hwi⟩ := Option.map_eq_some_iff.mp hhop.symm
  refine ⟨w, hwi.symm, ?_⟩
  rw [hb.nodeDelay, List.cons_append, List.getElem?_cons_succ,
    List.getElem?_append_left (List.getElem?_eq_some_iff.mp hw).1, hw]

/-- **A route of the bent-pipe script bounces.** -/
theorem bentPipe_of_between (hbp : sc.script = .bp stations)
    (hb : Between (sc.cycleInput k) s₁ s₂ r nodes weights) :
    BentPipe sc stations k s₁ s₂ r nodes := by
  obtain ⟨w, hw, hsup⟩ := hb.walk
  have hcolour : ∀ {i x : Nat}, nodes[i]? = some x → (Even i ↔ x < n) := by
    intro i x hx
    exact even_iff_satellite hbp w (hsup ▸ hx)
  have hhop : ∀ (i : Nat) a b, nodes[i]? = some a → nodes[i + 1]? = some b →
      ∃ w, BentPipeHop sc stations k a b w ∧ r.nodeDelay[i + 1]? = some w := by
    intro i a b ha hb'
    obtain ⟨weight, hweight, hdelay⟩ := hop_of_nodes hb ha hb'
    exact ⟨weight, hop_of_weight hbp hweight, hdelay⟩
  have hlen : nodes.length = w.length + 1 := by rw [← hsup, SimpleGraph.Walk.length_support]
  have hlast : nodes[w.length]? = some (s₂.id : Nat) := by
    rw [← hsup, ← w.getVert_eq_support_getElem? (Nat.le_refl _), w.getVert_length]
  have hodd : Odd nodes.length := by
    rw [hlen]
    exact ((hcolour hlast).mpr s₂.id.isLt).add_one
  have hpath : r.path.length = nodes.length + 2 := by rw [hb.path]; simp
  obtain ⟨hcount, hcount'⟩ := hb.counts
  refine ⟨hb.path, hodd, hsup ▸ hw.support_nodup, fun i x hx hi => (hcolour hx).mp hi, ?_, hhop,
    ?_, by omega, ⟨?_, by rw [hb.nodeDelay]; rfl⟩, ⟨?_, ?_⟩⟩
  · -- a ground station has a hop before it
    intro i x hx hi
    have hno : ¬ x < n := fun h => Nat.not_even_iff_odd.mpr hi ((hcolour hx).mpr h)
    obtain ⟨j, rfl⟩ : ∃ j, i = j + 1 := ⟨i - 1, by have := hi.pos; omega⟩
    have hj : j < nodes.length := by
      have := (List.getElem?_eq_some_iff.mp hx).1
      omega
    obtain ⟨_, hends, -⟩ := hhop j _ x (List.getElem?_eq_getElem hj) hx
    have := hends.ends
    omega
  · rw [hb.nodeNum]
    exact (Int.odd_coe_nat _ |>.mpr hodd).add_even even_two
  · rw [← hsup, ← w.cons_tail_support]
    rfl
  · rw [List.getLast?_eq_getElem?, hlen]
    exact hlast
  · rw [hb.nodeDelay, List.getLast?_append]
    rfl

end Line

/-- **Bent-pipe paths bounce between sky and ground.**  In every run of the bent-pipe script
the line of every cycle that carries a path has that form, between the gateways the cycle has
selected. -/
theorem bentPipe_line (nx : NetworkX K) (delay : Scalar K) (sc : Scenario n K)
    (stations : List (Point K)) (hbp : sc.script = .bp stations) (cycles : Nat) :
    ∀ (k : Nat) (v : RouteVisit n K) r, (sc.run nx delay cycles)[k]? = some v →
      v.done.log = lineWrites delay v.input.2 (some r) →
      ∃ s₁ s₂ nodes, (selectGateways nx v.input.1 v.before).gateway1 = some s₁ ∧
        (selectGateways nx v.input.1 v.before).gateway2 = some s₂ ∧
        BentPipe sc stations k s₁ s₂ r nodes := by
  intro k v r hv hline
  obtain ⟨s₁, s₂, nodes, weights, h₁, h₂, hb, -⟩ := route_of_line hv hline
  exact ⟨s₁, s₂, nodes, h₁, h₂, bentPipe_of_between hbp hb⟩

/-- Two satellites, each over one user, and a ground station that both cover. -/
def oneBounce : Scenario 2 Rat where
  test1 := ⟨0, 0, 0⟩
  test2 := ⟨12, 0, 0⟩
  L := 5
  position _ i := if i.val = 0 then ⟨3, 4, 0⟩ else ⟨9, 4, 0⟩
  script := .bp [⟨6, 0, 0⟩]

/-- Its route goes up, down to the station, up and down. -/
def oneBounceRoute : Route Rat :=
  ⟨[-1, 0, 2, 1, -2], 5, List.replicate 4 (1 / 50000000), 1 / 12500000⟩

theorem oneBounce_first :
    ((oneBounce.run WGraph.searchFinder Scalar.rat 1)[0]?).map
      (fun v => v.done.log) = some (lineWrites Scalar.rat 1 (some oneBounceRoute)) := by
  decide +kernel

theorem bentPipe_line_oneBounce : ∃ s₁ s₂ nodes, BentPipe oneBounce [⟨6, 0, 0⟩] 0 s₁ s₂
    oneBounceRoute nodes := by
  obtain ⟨v, hv, hlog⟩ := Option.map_eq_some_iff.mp oneBounce_first
  have hcycle : v.input.2 = 1 := (routeRun_input hv).2
  have hline : v.done.log = lineWrites Scalar.rat v.input.2 (some oneBounceRoute) := by
    rw [hlog, hcycle]
    rfl
  obtain ⟨s₁, s₂, nodes, -, -, h⟩ := bentPipe_line WGraph.searchFinder Scalar.rat oneBounce
    [⟨6, 0, 0⟩] rfl 1 0 v oneBounceRoute hv hline
  exact ⟨s₁, s₂, nodes, h⟩

end LeoEM
