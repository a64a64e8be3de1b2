/-
# `Emulator.Update` — `update_precomputed_link`

The core of the emulator.  It first decides from adjacent cycles whether each
cycle has a handover (`precomputeHandovers`), and then goes through the cycles
(`cycleBody`): it sends the reports that are due, decides a second time which
links have a handover, sends the interruptions, and lays the path over the chain.

The previous and the current path live in module globals.  Both loops write
them, and so does the branch for a cycle without a route; the state passed along
here is those four variables.  The marker `["NULL"]` is a path of one item that is
no node, `nullPath`; for the delays, which are only compared with it, it is `none`.

Prediction delays are drawn at random at the start of a run; a run is given for
every drawing.  What depends on the real clock (`time.sleep`) and what is only
printed is left out.
-/
import LeoEM.LinkInfo
import LeoEM.Emulator.LinkDelta
import LeoEM.Emulator.Network
import Mathlib.Algebra.Order.Field.Basic

namespace LeoEM

open PyList

variable {K : Type}

/-- The path `["NULL"]`. -/
def nullPath : List (Option Int) := [none]

/-- The globals of the module. -/
structure Globals (K : Type) where
  lastRoutingPath : List (Option Int)
  currentRoutingPath : List (Option Int)
  lastNodeDelay : Option (List K)
  currentNodeDelay : Option (List K)
  deriving DecidableEq, Repr

/-- The globals as the module sets them up. -/
def Globals.start : Globals K := ⟨nullPath, nullPath, none, none⟩

/-- A path as the list the globals hold. -/
def routingPath (r : Route K) : List (Option Int) := r.path.map some

/-! ## Deciding the handovers up front -/

/-- One round of the first loop: whether the current cycle has a handover. -/
def precomputeStep (g : Globals K) (lastCycle currentCycle : Cycle K) :
    Except PyError (Nat × Globals K) :=
  match currentCycle.route with
  -- no available path at current cycle: no handover
  | none => .ok (0, g)
  | some current =>
    match lastCycle.route with
    -- just reconnect to the Internet: handover
    | none => .ok (1, g)
    | some last => do
      let g := { g with
        currentRoutingPath := routingPath current, lastRoutingPath := routingPath last }
      let current₁ ← getItem g.currentRoutingPath 1
      let last₁ ← getItem g.lastRoutingPath 1
      let current₂ ← getItem g.currentRoutingPath (-2)
      let last₂ ← getItem g.lastRoutingPath (-2)
      -- ingress/egress satellite change: handover
      if current₁ ≠ last₁ ∨ current₂ ≠ last₂ then .ok (1, g)
      else do
        -- check intermediate handover
        let arr ← computeLinkDelta g.lastRoutingPath g.currentRoutingPath
        if arr.sum ≠ 0 then .ok (1, g) else .ok (0, g)

/-- The first loop, from the cycle behind `lastCycle` on. -/
def precomputeFrom : Globals K → Cycle K → List (Cycle K) → Except PyError (List Nat × Globals K)
  | g, _, [] => .ok ([], g)
  | g, lastCycle, currentCycle :: rest => do
      let (handover, g) ← precomputeStep g lastCycle currentCycle
      let (handovers, g) ← precomputeFrom g currentCycle rest
      .ok (handover :: handovers, g)

/-- `handovers`, with the globals the first loop leaves behind. -/
def precomputeHandovers (g : Globals K) : List (Cycle K) → Except PyError (List Nat × Globals K)
  | [] => .ok ([0], g)
  | cycle :: rest => do
      let (handovers, g) ← precomputeFrom g cycle rest
      .ok (0 :: handovers, g)

/-! ## One cycle -/

/-- What the second loop reads and never writes. -/
structure Env (K : Type) where
  linkInfo : List (Cycle K)
  predictionDelays : Nat → K
  handovers : List Nat
  intermediateHopNum : Nat

section Cycle

variable [Field K] [LinearOrder K]

/-- A report for the cycle `ahead` cycles later, sent if its prediction delay lies
strictly between `lower` and `upper`. -/
def lookAheadReport (env : Env K) (index ahead : Nat) (lower upper : K) : List (Cmd K) :=
  let d := env.predictionDelays (index + ahead)
  if index + ahead < env.linkInfo.length ∧ (lower < d ∧ d < upper) ∧
      env.handovers[index + ahead]? = some 1 then
    [.reportHandoverStatus (index + ahead) 1 (ahead - -d)]
  else []

/-- for the next cycle -/
def nextCycleReport (env : Env K) (index : Nat) : List (Cmd K) :=
  lookAheadReport env index 1 (-1) 0

/-- for the cycle after the next -/
def secondCycleReport (env : Env K) (index : Nat) : List (Cmd K) :=
  lookAheadReport env index 2 (-2) (-1)

/-- for the cycle after that -/
def thirdCycleReport (env : Env K) (index : Nat) : List (Cmd K) :=
  lookAheadReport env index 3 (-3) (-2)

/-- The globals when a cycle with a route has shifted them. -/
def Globals.shift (g : Globals K) (r : Route K) : Globals K where
  lastRoutingPath := g.currentRoutingPath
  lastNodeDelay := g.currentNodeDelay
  currentRoutingPath := routingPath r
  currentNodeDelay := some r.nodeDelay

/-- The globals after a cycle without a route. -/
def Globals.disconnect (g : Globals K) : Globals K :=
  { g with currentRoutingPath := nullPath, currentNodeDelay := none }

/-- One end of the path: if its satellite `current` is not `last`, the link between
`dish` and `sat` breaks for three times both delays, read at index `i`. -/
def gatewayChange (dish sat : NodeName) (i : Int) (current last : Option Int)
    (currentNodeDelay lastNodeDelay : List K) : Except PyError (List (EndHandover K)) :=
  if current ≠ last then do
    let lastDelay ← getItem lastNodeDelay i
    let currentDelay ← getItem currentNodeDelay i
    .ok [⟨dish, sat, 3 * lastDelay + 3 * currentDelay⟩]
  else .ok []

/-- `end_handover_nodes` -/
def endHandoverNodes (intermediateHopNum : Nat) (g : Globals K) (currentNodeDelay : List K) :
    Except PyError (List (EndHandover K)) :=
  let n : Int := intermediateHopNum
  match g.lastNodeDelay with
  -- trigger handover if now we have a valid path
  | none => do
      let delay₁ ← getItem currentNodeDelay 0
      let delay₂ ← getItem currentNodeDelay (-1)
      .ok [⟨.s 0, .s 1, 3 * delay₁⟩, ⟨.s (n - 1), .s (n - 2), 3 * delay₂⟩]
  | some lastNodeDelay => do
      let current₁ ← getItem g.currentRoutingPath 1
      let last₁ ← getItem g.lastRoutingPath 1
      let user₁ ← gatewayChange (.s 0) (.s 1) 0 current₁ last₁ currentNodeDelay lastNodeDelay
      let current₂ ← getItem g.currentRoutingPath (-2)
      let last₂ ← getItem g.lastRoutingPath (-2)
      let user₂ ← gatewayChange (.s (n - 1)) (.s (n - 2)) (-1) current₂ last₂ currentNodeDelay
        lastNodeDelay
      .ok (user₁ ++ user₂)

/-- One round of the placement: the flagged index joins the first group, or the second
one if the last index of the first is its neighbour. -/
def placeHandover (groups : List Nat × List Nat) (flag : Nat × Nat) : List Nat × List Nat :=
  if flag.1 = 1 then
    if groups.1.getLast?.map (· + 1) ≠ some flag.2 then (groups.1 ++ [flag.2], groups.2)
    else (groups.1, groups.2 ++ [flag.2])
  else groups

/-- `handover_nodes_group1` and `handover_nodes_group2` -/
def handoverGroups (handoverArr : List Nat) : List Nat × List Nat :=
  handoverArr.zipIdx.foldl placeHandover ([], [])

/-- The handovers of a cycle. -/
structure Handovers (K : Type) where
  group1 : List Nat
  group2 : List Nat
  ends : List (EndHandover K)
  deriving DecidableEq, Repr

/-- `handover_nodes_group1 or handover_nodes_group2 or end_handover_nodes` -/
def Handovers.Triggered (h : Handovers K) : Prop := h.group1 ≠ [] ∨ h.group2 ≠ [] ∨ h.ends ≠ []

instance (h : Handovers K) : Decidable h.Triggered :=
  decidable_of_iff (¬ (h.group1 = [] ∧ h.group2 = [] ∧ h.ends.length = 0)) (by
    simp only [Handovers.Triggered, List.length_eq_zero_iff]
    tauto)

/-- The second decision, from the globals. -/
def planHandovers (intermediateHopNum : Nat) (g : Globals K) (nodeDelay : List K) :
    Except PyError (Handovers K) := do
  let ends ← endHandoverNodes intermediateHopNum g nodeDelay
  let handoverArr ← computeLinkDelta g.lastRoutingPath g.currentRoutingPath
  let groups := handoverGroups handoverArr
  .ok ⟨groups.1, groups.2, ends⟩

/-- The delayed report of the cycle itself. -/
def delayedReport (env : Env K) (index : Nat) (h : Handovers K) : List (Cmd K) :=
  if h.Triggered ∧ 0 ≤ env.predictionDelays index then
    [.reportHandoverStatus index 1 (env.predictionDelays index)]
  else []

/-- The interruptions: two pools of workers for the links, one for the dishes. -/
def interruptions (h : Handovers K) : List (Cmd K) :=
  [.simulateLinkBreaks h.group1, .simulateLinkBreaks h.group2, .simulateEndHandovers h.ends]

/-- The path is laid over the chain: the first link, the last link, the links between
satellites, and the dummy links behind a path shorter than the chain. -/
def layPath (intermediateHopNum : Nat) (path : List (Option Int)) (nodeDelay : List K) :
    Logged (Cmd K) Stop Unit := do
  let net : Topo K := myTopo intermediateHopNum
  let n : Int := intermediateHopNum
  let weight₁ ← ofPy (getItem nodeDelay 0)
  setLinkProperties net (.s 0) (.s 1) 150 (.seconds weight₁)
  let weight₂ ← ofPy (getItem nodeDelay (-1))
  setLinkProperties net (.s (n - 2)) (.s (n - 1)) 150 (.seconds weight₂)
  Logged.forEach (fun i => do
      let weight ← ofPy (getItem nodeDelay (i + 1))
      setLinkProperties net (.s (i + 1)) (.s (i + 2)) bentPipeLinkBandwidth (.seconds weight))
    (PyList.range 0 ((path.length : Int) - 3))
  Logged.forEach (fun i =>
      setLinkProperties net (.s (i + 1)) (.s (i + 2)) bentPipeLinkBandwidth .unitialized)
    (PyList.range ((path.length : Int) - 3) (n - 3))

/-- The rest of a cycle that has a route. -/
def withRoute (env : Env K) (index : Nat) (g : Globals K) (r : Route K) :
    Logged (Cmd K) Stop (Globals K) := do
  Logged.tell (.configLinkStatus (.s 0) (.s 1) true)
  let g := g.shift r
  let h ← ofPy (planHandovers env.intermediateHopNum g r.nodeDelay)
  Logged.tellAll (delayedReport env index h)
  Logged.tellAll (interruptions h)
  layPath env.intermediateHopNum g.currentRoutingPath r.nodeDelay
  pure g

/-- The rest of a cycle that has none. -/
def withoutRoute (g : Globals K) : Logged (Cmd K) Stop (Globals K) := do
  Logged.tell (.configLinkStatus (.s 0) (.s 1) false)
  pure g.disconnect

/-- The reports sent ahead in a cycle. -/
def aheadReports (env : Env K) (index : Nat) : List (Cmd K) :=
  nextCycleReport env index ++ secondCycleReport env index ++ thirdCycleReport env index

/-- One cycle of the second loop. -/
def cycleBody (env : Env K) (g : Globals K) (index : Nat) : Logged (Cmd K) Stop (Globals K) :=
  match env.linkInfo[index]? with
  | none => Logged.raise (.raised .indexError)
  | some c =>
    -- not reading the correct cycle!
    if (index : Int) + 1 ≠ c.cycle then Logged.raise .incorrectCycle
    else do
      Logged.tellAll (aheadReports env index)
      match c.route with
      | none => withoutRoute g
      | some r => withRoute env index g r

/-! ## The whole run -/

/-- A cycle of a run, as the loop visited it. -/
abbrev CycleVisit (K : Type) := Logged.Visit (Globals K) Nat (Cmd K) Stop

/-- `update_precomputed_link`: the cycles the second loop visits, unless an exception
ends the first. -/
def updatePrecomputedLink (intermediateHopNum : Nat) (predictionDelays : Nat → K)
    (linkInfo : List (Cycle K)) : Except PyError (List (CycleVisit K)) := do
  let (handovers, g) ← precomputeHandovers Globals.start linkInfo
  let env : Env K := ⟨linkInfo, predictionDelays, handovers, intermediateHopNum⟩
  .ok (Logged.visits (cycleBody env) g (List.range linkInfo.length))

end Cycle

end LeoEM
