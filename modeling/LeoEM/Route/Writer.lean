/-
# `Route.Writer` — one line of the path file a cycle

The rest of a cycle of the route stage: the route between the selected gateways, or no
route, and the line that says which.  Everything that can raise `NetworkXNoPath` comes
before the first write, so a line is written whole or not at all (`routeCycle_eq`).

A run is the loop over the cycles, numbered from 1; its file is what its cycles wrote,
one behind the other.
-/
import LeoEM.Base.Logged
import LeoEM.Base.Text
import LeoEM.LinkInfo
import LeoEM.Route.Selection
import Mathlib.Algebra.Order.Field.Rat

namespace LeoEM

variable {n : Nat} {K : Type}

/-- How the body of a cycle ends early. -/
inductive RouteStop where
  | noPath
  | raised (e : PyError)
  deriving DecidableEq, Repr

/-- The weights along a path: `G.get_edge_data(u, v)['weight']` of neighbours. -/
def edgeDelays (G : WGraph Nat K) : List Nat → Except PyError (List K)
  | u :: v :: rest =>
      match G.weight? u v with
      | some weight => do
          let weights ← edgeDelays G (v :: rest)
          .ok (weight :: weights)
      | none => .error .typeError
  | _ => .ok []

section Write

variable [Field K] [LinearOrder K]

/-- `routing_path`, `node_num`, `node_delay` and `delay_sum`, the dishes included. -/
def assembleRoute (s₁ s₂ : Sat n K) (path : List Nat) (weights : List K) : Route K :=
  let nodeDelay := s₁.latency :: weights ++ [s₂.latency]
  { path := -1 :: path.map (fun i : Nat => (i : Int)) ++ [-2]
    nodeNum := (path.length : Int) + 2
    nodeDelay := nodeDelay
    delaySum := nodeDelay.sum }

/-- The routing path between the two gateways. -/
def routeOf (nx : NetworkX K) (G : WGraph Nat K) (gateway1 gateway2 : Gateway n K) :
    Except RouteStop (Route K) :=
  match gateway1, gateway2 with
  | some s₁, some s₂ =>
      match nx.dijkstraPath G s₁.id s₂.id with
      | none => .error .noPath
      | some path => do
          let weights ← (edgeDelays G path).mapError RouteStop.raised
          .ok (assembleRoute s₁ s₂ path weights)
  | _, _ => .error .noPath

/-- What is written for a cycle, call by call. -/
def lineWrites (delay : Scalar K) (cycle : Int) : Option (Route K) → List (List Char)
  | some r => [Scalar.int.str cycle, ['$'], (Literal.list Scalar.int).str r.path, ['$'],
      Scalar.int.str r.nodeNum, ['$'], (Literal.list delay).str r.nodeDelay, ['$'],
      delay.str r.delaySum, ['\n']]
  | none => [Scalar.int.str cycle, ['$'], ['N', 'U', 'L', 'L'], ['\n']]

/-- One cycle of either script. -/
def routeCycle (nx : NetworkX K) (delay : Scalar K) (st : GatewayState n K)
    (x : CycleInput n K × Nat) : Logged (List Char) RouteStop (GatewayState n K) := do
  let sel := selectGateways nx x.1 st
  Logged.tryCatch (do
      let r ← Logged.ofExcept (routeOf nx x.1.graph sel.gateway1 sel.gateway2)
      Logged.tellAll (lineWrites delay x.2 (some r)))
    (fun stop => match stop with
      | .noPath => Logged.tellAll (lineWrites delay x.2 none)
      | .raised e => Logged.raise (.raised e))
  pure sel.next

/-- A cycle of a run, as the loop visited it. -/
abbrev RouteVisit (n : Nat) (K : Type) :=
  Logged.Visit (GatewayState n K) (CycleInput n K × Nat) (List Char) RouteStop

/-- `for current_cycle in range(1, cycles + 1)` -/
def routeRun (nx : NetworkX K) (delay : Scalar K) (inputs : List (CycleInput n K)) :
    List (RouteVisit n K) :=
  Logged.visits (routeCycle nx delay) GatewayState.start (inputs.zipIdx 1)

/-- The output file of a run. -/
def outputFile (vs : List (RouteVisit n K)) : List Char :=
  (vs.flatMap fun v => v.done.log).flatten

/-- The route of a cycle, if it has one. -/
def lineRoute (nx : NetworkX K) (inp : CycleInput n K) (st : GatewayState n K) :
    Option (Route K) :=
  let sel := selectGateways nx inp st
  (routeOf nx inp.graph sel.gateway1 sel.gateway2).toOption

omit [Field K] [LinearOrder K] in
/-- A line says which route it is. -/
theorem lineWrites_injective {delay : Scalar K} {cycle : Int} {a b : Option (Route K)}
    (h : lineWrites delay cycle a = lineWrites delay cycle b) : a = b := by
  cases a with
  | none =>
      cases b with
      | none => rfl
      | some r => simp [lineWrites] at h
  | some r =>
      cases b with
      | none => simp [lineWrites] at h
      | some r' =>
          obtain ⟨path, nodeNum, nodeDelay, delaySum⟩ := r
          obtain ⟨path', nodeNum', nodeDelay', delaySum'⟩ := r'
          simp only [lineWrites, List.cons.injEq, true_and, and_true] at h
          obtain ⟨h₁, h₂, h₃, h₄⟩ := h
          obtain rfl := Literal.str_injective _ h₁
          obtain rfl := Literal.str_injective _ h₂
          obtain rfl := Literal.str_injective _ h₃
          obtain rfl := Literal.str_injective _ h₄
          rfl

/-! ## What a route is -/

omit [Field K] [LinearOrder K] in
/-- Along a walk every hop has a weight. -/
theorem edgeDelays_walk {G : WGraph Nat K} {a b : Nat} (w : G.toSimpleGraph.Walk a b) :
    ∃ weights, edgeDelays G w.support = .ok weights ∧
      List.zipWith G.weight? w.support w.support.tail = weights.map some := by
  induction w with
  | nil => exact ⟨[], rfl, rfl⟩
  | @cons u v _ hadj w ih =>
      obtain ⟨weights, hw, hzip⟩ := ih
      obtain ⟨weight, hweight⟩ := WGraph.exists_weight hadj
      rw [← w.cons_tail_support] at hw hzip
      refine ⟨weight :: weights, ?_, ?_⟩
      · rw [SimpleGraph.Walk.support_cons, ← w.cons_tail_support]
        simp only [edgeDelays, hweight, hw]
        rfl
      · rw [SimpleGraph.Walk.support_cons, List.tail_cons, ← w.cons_tail_support,
          List.zipWith_cons_cons, hweight, List.map_cons]
        exact congrArg _ hzip

/-- The route goes from the one gateway to the other over a simple path of the graph, and
its delays are the gateways' latencies and the weights of the hops between. -/
structure Between (inp : CycleInput n K) (s₁ s₂ : Sat n K) (r : Route K) (nodes : List Nat)
    (weights : List K) : Prop where
  walk : ∃ w : inp.graph.toSimpleGraph.Walk s₁.id s₂.id, w.IsPath ∧ w.support = nodes
  path : r.path = -1 :: nodes.map (fun i : Nat => (i : Int)) ++ [-2]
  nodeNum : r.nodeNum = (nodes.length : Int) + 2
  hops : List.zipWith inp.graph.weight? nodes nodes.tail = weights.map some
  nodeDelay : r.nodeDelay = s₁.latency :: weights ++ [s₂.latency]
  delaySum : r.delaySum = r.nodeDelay.sum

section Ends

variable {inp : CycleInput n K} {s₁ s₂ : Sat n K} {r : Route K} {nodes : List Nat}
  {weights : List K}

omit [LinearOrder K] in
theorem Between.inner_path (h : Between inp s₁ s₂ r nodes weights) :
    PyList.inner r.path = nodes.map fun i : Nat => (i : Int) := by
  rw [h.path, PyList.inner_ends]

omit [LinearOrder K] in
/-- The first satellite of the path is user 1's gateway. -/
theorem Between.first (h : Between inp s₁ s₂ r nodes weights) :
    PyList.getItem r.path 1 = .ok ((s₁.id : Nat) : Int) := by
  obtain ⟨w, -, hw⟩ := h.walk
  refine PyList.getItem_one_of_inner ?_
  rw [h.inner_path, List.head?_map, ← hw, ← w.cons_tail_support]
  rfl

omit [LinearOrder K] in
/-- The last one is user 2's. -/
theorem Between.last (h : Between inp s₁ s₂ r nodes weights) :
    PyList.getItem r.path (-2) = .ok ((s₂.id : Nat) : Int) := by
  obtain ⟨w, -, hw⟩ := h.walk
  refine PyList.getItem_neg_two_of_inner ?_
  rw [h.inner_path, List.getLast?_map, ← hw, List.getLast?_eq_some_getLast w.support_ne_nil,
    w.getLast_support]
  rfl

omit [LinearOrder K] in
/-- The route is a simple path over at least one satellite. -/
theorem Between.simple (h : Between inp s₁ s₂ r nodes weights) : SimplePath 1 r.path := by
  obtain ⟨w, hw, rfl⟩ := h.walk
  refine ⟨_, h.path, ?_, ?_⟩
  · have hinj : Function.Injective fun i : Nat => (i : Int) := fun _ _ he => Int.ofNat.inj he
    have hnd : (w.support.map fun i : Nat => (i : Int)).Nodup := hw.support_nodup.map hinj
    rw [h.path, List.cons_append, List.nodup_cons, List.nodup_append]
    refine ⟨by simp, hnd, List.nodup_singleton _, ?_⟩
    intro a ha b hb heq
    obtain ⟨i, -, rfl⟩ := List.mem_map.mp ha
    rw [List.mem_singleton.mp hb] at heq
    omega
  · rw [List.length_map]
    exact List.length_pos_iff.mpr w.support_ne_nil

omit [LinearOrder K] in
/-- `node_num` counts the path, and the path has a node more than delays. -/
theorem Between.counts (h : Between inp s₁ s₂ r nodes weights) :
    r.nodeNum = r.path.length ∧ r.path.length = r.nodeDelay.length + 1 := by
  obtain ⟨w, -, hw⟩ := h.walk
  have hpos : 0 < nodes.length := hw ▸ List.length_pos_iff.mpr w.support_ne_nil
  have hpath : r.path.length = nodes.length + 2 := by rw [h.path]; simp
  have hdelay : r.nodeDelay.length = weights.length + 2 := by rw [h.nodeDelay]; simp
  have hhops := congrArg List.length h.hops
  rw [List.length_zipWith, List.length_tail, List.length_map] at hhops
  rw [h.nodeNum, hpath, hdelay]
  omega

end Ends

omit [LinearOrder K] in
/-- **Connected gateways have a route.** -/
theorem routeOf_connected (nx : NetworkX K) {inp : CycleInput n K} {g₁ g₂ : Gateway n K}
    (h : Connected inp g₁ g₂) : ∃ s₁ s₂ r path weights, g₁ = some s₁ ∧ g₂ = some s₂ ∧
      routeOf nx inp.graph g₁ g₂ = .ok r ∧ Between inp s₁ s₂ r path weights := by
  obtain ⟨s₁, s₂, rfl, rfl, hr⟩ := h
  have hsome := (nx.dijkstraPath_isSome inp.graph s₁.id s₂.id (inp.nodes _) (inp.nodes _)).mpr hr
  obtain ⟨path, hpath⟩ := Option.isSome_iff_exists.mp hsome
  obtain ⟨w, hw, hsup⟩ := nx.dijkstraPath_support _ _ _ _ (inp.nodes _) (inp.nodes _) hpath
  obtain ⟨weights, hweights, hzip⟩ := edgeDelays_walk w
  rw [hsup] at hweights hzip
  refine ⟨s₁, s₂, assembleRoute s₁ s₂ path weights, path, weights, rfl, rfl, ?_,
    ⟨w, hw, hsup⟩, rfl, rfl, hzip, rfl, rfl⟩
  simp only [routeOf, hpath, hweights]
  rfl

omit [LinearOrder K] in
/-- Gateways that are not connected have none. -/
theorem routeOf_not_connected (nx : NetworkX K) {inp : CycleInput n K} {g₁ g₂ : Gateway n K}
    (h : ¬ Connected inp g₁ g₂) : routeOf nx inp.graph g₁ g₂ = .error .noPath := by
  cases g₁ with
  | none => rfl
  | some s₁ =>
      cases g₂ with
      | none => rfl
      | some s₂ =>
          have hno : ¬ inp.graph.toSimpleGraph.Reachable s₁.id s₂.id := fun hr =>
            h ⟨s₁, s₂, rfl, rfl, hr⟩
          have hnone := mt (nx.dijkstraPath_isSome inp.graph s₁.id s₂.id (inp.nodes _)
            (inp.nodes _)).mp hno
          rw [Bool.not_eq_true, Option.isSome_eq_false_iff, Option.isNone_iff_eq_none] at hnone
          simp only [routeOf, hnone]

/-- **The route of a cycle**: one between the selected gateways if they are connected,
none otherwise. -/
theorem lineRoute_cases (nx : NetworkX K) (inp : CycleInput n K) (st : GatewayState n K) :
    (∃ s₁ s₂ r nodes weights, (selectGateways nx inp st).gateway1 = some s₁ ∧
      (selectGateways nx inp st).gateway2 = some s₂ ∧ lineRoute nx inp st = some r ∧
      Between inp s₁ s₂ r nodes weights ∧ Connected inp (selectGateways nx inp st).gateway1
        (selectGateways nx inp st).gateway2) ∨
    (¬ Connected inp (selectGateways nx inp st).gateway1 (selectGateways nx inp st).gateway2 ∧
      lineRoute nx inp st = none) := by
  by_cases h : Connected inp (selectGateways nx inp st).gateway1
      (selectGateways nx inp st).gateway2
  · obtain ⟨s₁, s₂, r, nodes, weights, h₁, h₂, hr, hb⟩ := routeOf_connected nx h
    exact Or.inl ⟨s₁, s₂, r, nodes, weights, h₁, h₂, by rw [lineRoute, hr]; rfl, hb, h⟩
  · exact Or.inr ⟨h, by rw [lineRoute, routeOf_not_connected nx h]; rfl⟩

/-- A route between the gateways that the cycle selects. -/
def SelectedRoute (nx : NetworkX K) (inp : CycleInput n K) (st : GatewayState n K) (r : Route K) :
    Prop :=
  ∃ s₁ s₂ nodes weights, (selectGateways nx inp st).gateway1 = some s₁ ∧
    (selectGateways nx inp st).gateway2 = some s₂ ∧ Between inp s₁ s₂ r nodes weights

/-- **With two connected satellites in view the cycle has a route.** -/
theorem lineRoute_of_inView (nx : NetworkX K) {inp : CycleInput n K} (st : GatewayState n K)
    {s₁ s₂ : Sat n K} (h₁ : s₁ ∈ inp.view1.inView) (h₂ : s₂ ∈ inp.view2.inView)
    (hr : inp.graph.toSimpleGraph.Reachable s₁.id s₂.id) :
    ∃ r, SelectedRoute nx inp st r ∧ lineRoute nx inp st = some r := by
  have hc := selection_connected nx st h₁ h₂ hr
  rcases lineRoute_cases nx inp st with
    ⟨g₁, g₂, r, nodes, weights, hg₁, hg₂, hline, hb, -⟩ | ⟨hno, -⟩
  · exact ⟨r, ⟨g₁, g₂, nodes, weights, hg₁, hg₂, hb⟩, hline⟩
  · exact absurd hc hno

/-! ## One cycle -/

/-- **A cycle comes to its end and writes one line**: its route if the selected gateways
are connected, and `NULL` otherwise. -/
theorem routeCycle_eq (nx : NetworkX K) (delay : Scalar K) (st : GatewayState n K)
    (x : CycleInput n K × Nat) : routeCycle nx delay st x =
      ⟨lineWrites delay x.2 (lineRoute nx x.1 st), .ok (selectGateways nx x.1 st).next⟩ := by
  obtain ⟨inp, cycle⟩ := x
  cases hr : routeOf nx inp.graph (selectGateways nx inp st).gateway1
      (selectGateways nx inp st).gateway2 with
  | ok r =>
      simp only [routeCycle, lineRoute, hr, Logged.ofExcept_ok_bind]
      exact Logged.tellAll_bind _ _
  | error stop =>
      have hno : stop = .noPath := by
        by_cases h : Connected inp (selectGateways nx inp st).gateway1
            (selectGateways nx inp st).gateway2
        · obtain ⟨_, _, _, _, _, -, -, hok, -⟩ := routeOf_connected nx h
          rw [hr] at hok
          cases hok
        · rw [routeOf_not_connected nx h] at hr
          exact (Except.error.inj hr).symm
      subst hno
      simp only [routeCycle, lineRoute, hr, Logged.ofExcept_error_bind]
      exact Logged.tellAll_bind _ _

/-! ## A run -/

section Run

variable {nx : NetworkX K} {delay : Scalar K} {inputs : List (CycleInput n K)} {k : Nat}
  {v : RouteVisit n K}

/-- Visit `k` of a run is that of cycle `k + 1`. -/
theorem routeRun_input (hv : (routeRun nx delay inputs)[k]? = some v) :
    inputs[k]? = some v.input.1 ∧ v.input.2 = k + 1 := by
  obtain ⟨hx, -⟩ := Logged.visits_input hv
  rw [List.getElem?_zipIdx] at hx
  obtain ⟨inp, hinp, heq⟩ := Option.map_eq_some_iff.mp hx
  rw [hinp, ← heq]
  exact ⟨rfl, Nat.add_comm 1 k⟩

/-- It writes its line. -/
theorem routeRun_log (hv : (routeRun nx delay inputs)[k]? = some v) :
    v.done.log = lineWrites delay v.input.2 (lineRoute nx v.input.1 v.before) := by
  obtain ⟨-, hd⟩ := Logged.visits_input hv
  rw [hd, routeCycle_eq]

/-- It hands on its selection. -/
theorem routeRun_done (hv : (routeRun nx delay inputs)[k]? = some v) :
    v.done.result = .ok (selectGateways nx v.input.1 v.before).next := by
  obtain ⟨-, hd⟩ := Logged.visits_input hv
  rw [hd, routeCycle_eq]

/-- **A run visits every cycle.** -/
theorem routeRun_length (nx : NetworkX K) (delay : Scalar K) (inputs : List (CycleInput n K)) :
    (routeRun nx delay inputs).length = inputs.length := by
  rw [routeRun, Logged.visits_length fun st x => ⟨_, by rw [routeCycle_eq]⟩,
    List.length_zipIdx]

end Run

/-! ## No needless outage -/

/-- **No needless outage.**  In every state and for every input of a cycle, if some
satellite in view of user 1 and some satellite in view of user 2 are connected, the cycle
writes a path, between the gateways that it selects. -/
theorem no_needless_outage (nx : NetworkX K) (delay : Scalar K) (st : GatewayState n K)
    (inp : CycleInput n K) (cycle : Nat)
    (h : ∃ s₁ ∈ inp.view1.inView, ∃ s₂ ∈ inp.view2.inView,
      inp.graph.toSimpleGraph.Reachable s₁.id s₂.id) :
    ∃ r, SelectedRoute nx inp st r ∧
      (routeCycle nx delay st (inp, cycle)).log = lineWrites delay cycle (some r) := by
  obtain ⟨s₁, h₁, s₂, h₂, hr⟩ := h
  obtain ⟨r, hselected, hline⟩ := lineRoute_of_inView nx st h₁ h₂ hr
  exact ⟨r, hselected, by rw [routeCycle_eq, hline]⟩

/-- Two satellites, 0 in view of user 1 and 1 in view of user 2, and a link between them. -/
def twoSats : CycleInput 2 Rat where
  view1 := View.empty.see ⟨1, 0⟩
  view2 := View.empty.see ⟨2, 1⟩
  graph := ⟨[0, 1], [(0, 1, 3)]⟩
  nodes := by decide

theorem no_needless_outage_twoSats : ∃ r,
    SelectedRoute WGraph.searchFinder twoSats GatewayState.start r ∧
    (routeCycle WGraph.searchFinder Scalar.rat GatewayState.start (twoSats, 1)).log =
      lineWrites Scalar.rat 1 (some r) :=
  no_needless_outage _ _ _ twoSats 1
    ⟨⟨1, 0⟩, List.mem_cons_self, ⟨2, 1⟩, List.mem_cons_self,
      SimpleGraph.Adj.reachable ⟨by decide, (0, 1, 3), List.mem_cons_self, Or.inl ⟨rfl, rfl⟩⟩⟩

end Write

end LeoEM
