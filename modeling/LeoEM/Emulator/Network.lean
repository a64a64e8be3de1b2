/-
# `Emulator.Network` — the emulated chain and the commands sent to it

`MyTopo` is a chain of switches `s0 - s1 - ... - s(n-1)` with a host at either end,
`n` the largest node count of the path file.  The emulator never changes the
chain; it sends commands: a link goes down or up, a link gets a bandwidth and a
delay, a pool of workers simulates handovers, a report goes out.  A `Cmd` is one
of these, with the arguments of the call that sends it.
-/
import LeoEM.Base.Logged
import LeoEM.Base.Python
import Mathlib.Algebra.Field.Basic

namespace LeoEM

/-- The names of the chain: `h1`, `h2` and `'s%s' % i`. -/
inductive NodeName where
  | h1
  | h2
  | s (i : Int)
  deriving DecidableEq, Repr

/-- A delay argument: `'%ss' % weight`, or `unitialized_bent_pipe_delay`, the text
`'0.01ms'`. -/
inductive DelayArg (K : Type) where
  | seconds (weight : K)
  | unitialized
  deriving DecidableEq, Repr

/-- The delay an argument stands for, in seconds. -/
def DelayArg.value {K : Type} [Field K] : DelayArg K → K
  | .seconds weight => weight
  | .unitialized => 1 / 100000

/-- `bent_pipe_link_bandwidth` -/
def bentPipeLinkBandwidth : Nat := 150

/-- `switch_queue_size` -/
def switchQueueSize : Nat := 50000

/-- A link of the topology with the parameters it was added with. -/
structure Link (K : Type) where
  node1 : NodeName
  node2 : NodeName
  bw : Nat
  delay : DelayArg K
  maxQueueSize : Nat
  deriving DecidableEq, Repr

structure Topo (K : Type) where
  nodes : List NodeName
  links : List (Link K)

/-- `addLink` as `MyTopo` calls it, the same parameters at every link. -/
def addLink {K : Type} (node1 node2 : NodeName) : Link K :=
  ⟨node1, node2, bentPipeLinkBandwidth, .unitialized, switchQueueSize⟩

/-- `MyTopo.__init__` -/
def myTopo {K : Type} (intermediateHopNum : Nat) : Topo K where
  nodes := [.h1, .h2] ++ (List.range intermediateHopNum).map (fun i : Nat => .s i)
  links := (List.range (intermediateHopNum - 1)).map
      (fun i : Nat => addLink (.s i) (.s (i + 1))) ++
    [addLink .h1 (.s 0), addLink .h2 (.s ((intermediateHopNum : Int) - 1))]

/-- `hop_a.connectionsTo(hop_b)` is not empty. -/
def Topo.connects {K : Type} (t : Topo K) (a b : NodeName) : Bool :=
  t.links.any fun l => (l.node1 = a && l.node2 = b) || (l.node1 = b && l.node2 = a)

/-- One entry of `end_handover_nodes`. -/
structure EndHandover (K : Type) where
  dish : NodeName
  sat : NodeName
  delay : K
  deriving DecidableEq, Repr

/-- What the emulator sends out.  A report is tagged with the cycle that is printed
with it. -/
inductive Cmd (K : Type) where
  /-- `report_handover_status_asynchronously(handover_status, delay)` -/
  | reportHandoverStatus (cycle : Nat) (handoverStatus : Nat) (delay : K)
  /-- `net.configLinkStatus(src, dst, status)` -/
  | configLinkStatus (src dst : NodeName) (up : Bool)
  /-- `executor.map(simulate_link_break, group)`: the links `s_i - s_(i+1)` of a group -/
  | simulateLinkBreaks (group : List Nat)
  /-- `executor.map(simulate_dish_gateway_sat_handover, end_handover_nodes)` -/
  | simulateEndHandovers (nodes : List (EndHandover K))
  /-- `set_link_properties(net, node1, node2, bw, delay, max_queue_size)` -/
  | setLinkProperties (node1 node2 : NodeName) (bw : Nat) (delay : DelayArg K)
      (maxQueueSize : Nat)
  deriving DecidableEq, Repr

/-- How a loop of `update_precomputed_link` ends early: by its own `return`, or by an
exception nobody catches. -/
inductive Stop where
  | incorrectCycle
  | raised (e : PyError)
  deriving DecidableEq, Repr

/-- A Python operation inside the loop. -/
def ofPy {K α : Type} (x : Except PyError α) : Logged (Cmd K) Stop α :=
  Logged.ofExcept (x.mapError Stop.raised)

@[simp] theorem ofPy_ok {K α : Type} (a : α) :
    (ofPy (.ok a) : Logged (Cmd K) Stop α) = pure a := rfl

@[simp] theorem ofPy_error {K α : Type} (e : PyError) :
    (ofPy (.error e) : Logged (Cmd K) Stop α) = Logged.raise (.raised e) := rfl

/-- `set_link_properties`: the name of a node that does not exist raises `KeyError`,
two nodes that are not connected `IndexError`. -/
def setLinkProperties {K : Type} (net : Topo K) (node1 node2 : NodeName) (bw : Nat)
    (delay : DelayArg K) : Logged (Cmd K) Stop Unit :=
  if node1 ∉ net.nodes ∨ node2 ∉ net.nodes then Logged.raise (.raised .keyError)
  else if net.connects node1 node2 = false then Logged.raise (.raised .indexError)
  else Logged.tell (.setLinkProperties node1 node2 bw delay switchQueueSize)

/-! ## The chain is connected -/

theorem mem_myTopo_nodes {K : Type} {n : Nat} {i : Int} :
    NodeName.s i ∈ (myTopo n : Topo K).nodes ↔ 0 ≤ i ∧ i < n := by
  simp only [myTopo, List.mem_append, List.mem_cons, reduceCtorEq, List.not_mem_nil, or_self,
    false_or, List.mem_map, List.mem_range, NodeName.s.injEq]
  constructor
  · rintro ⟨k, hk, rfl⟩
    omega
  · rintro ⟨h₀, h₁⟩
    exact ⟨i.toNat, by omega, by omega⟩

theorem myTopo_connects {K : Type} {n : Nat} {i : Int} (h₀ : 0 ≤ i) (h₁ : i + 1 < n) :
    (myTopo n : Topo K).connects (.s i) (.s (i + 1)) = true := by
  have hlink : (addLink (.s i) (.s (i + 1)) : Link K) ∈
      (List.range (n - 1)).map (fun i : Nat => addLink (.s i) (.s (i + 1))) := by
    refine List.mem_map.mpr ⟨i.toNat, List.mem_range.mpr (by omega), ?_⟩
    rw [Int.toNat_of_nonneg h₀]
  simp only [Topo.connects, List.any_eq_true]
  exact ⟨addLink (.s i) (.s (i + 1)), List.mem_append_left _ hlink, by simp [addLink]⟩

/-- Neighbours on the chain can always be configured. -/
theorem setLinkProperties_chain {K : Type} {n : Nat} {i j : Int} (hij : j = i + 1) (h₀ : 0 ≤ i)
    (h₁ : j < n) (bw : Nat) (delay : DelayArg K) :
    setLinkProperties (myTopo n) (.s i) (.s j) bw delay =
      ⟨[.setLinkProperties (.s i) (.s j) bw delay switchQueueSize], .ok ()⟩ := by
  subst hij
  have hn₁ : NodeName.s i ∈ (myTopo n : Topo K).nodes := mem_myTopo_nodes.mpr ⟨h₀, by omega⟩
  have hn₂ : NodeName.s (i + 1) ∈ (myTopo n : Topo K).nodes :=
    mem_myTopo_nodes.mpr ⟨by omega, h₁⟩
  rw [setLinkProperties, if_neg (by simp [hn₁, hn₂]), if_neg (by simp [myTopo_connects h₀ h₁])]
  rfl

end LeoEM
