/-
# `Route.Gateway` — which satellites the two users are served by

One cycle of the selection, as both scripts of the route stage have it.  A gateway is
`[latency, satellite_id]`, or `[math.inf, -1]` for none.  From cycle to cycle a user
keeps its gateway and a counter; a cycle goes through three stages:

    chooseGateways     keep, or move to the nearest satellite: a counter at 15, or a
                       pair that is not connected any more
    fallback           if the pair is not connected, the best connected pair in view
    tick               a counter at 15 goes to 0, any other one up

A branch that wants a counter reset writes 15 into it, and `tick` does the rest.

Which assignment a gateway got is not stored by the scripts, but it is what the
properties are about; a `Selection` records it (`resought1`, `resought2`).  Nothing
reads it.
-/
import LeoEM.Route.Utility

namespace LeoEM

variable {n : Nat} {K : Type}

/-- `[latency, satellite_id]` -/
structure Sat (n : Nat) (K : Type) where
  latency : K
  id : Fin n
  deriving DecidableEq, Repr

/-- A gateway; `none` is `[math.inf, -1]`. -/
abbrev Gateway (n : Nat) (K : Type) := Option (Sat n K)

/-- `gateway[1]` -/
def gatewayId : Gateway n K → Int
  | none => -1
  | some s => (s.id : Nat)

/-- What a user sees in a cycle: `satellites_in_view` and `min_test_gateway`. -/
structure View (n : Nat) (K : Type) where
  inView : List (Sat n K)
  nearest : Gateway n K
  nearest_mem : ∀ s ∈ nearest, s ∈ inView

/-- The input of one cycle of the selection. -/
structure CycleInput (n : Nat) (K : Type) where
  view1 : View n K
  view2 : View n K
  graph : WGraph Nat K
  nodes : ∀ i : Fin n, (i : Nat) ∈ graph.nodes

/-- What is carried from cycle to cycle: the counters and `test_gateway_pervious`. -/
structure GatewayState (n : Nat) (K : Type) where
  counter1 : Nat
  counter2 : Nat
  previous1 : Gateway n K
  previous2 : Gateway n K
  deriving DecidableEq, Repr

/-- The state before the first cycle. -/
def GatewayState.start : GatewayState n K := ⟨0, 0, none, none⟩

/-- The gateways of a cycle, the counters, and whether each gateway has been sought
again in the cycle. -/
structure Selection (n : Nat) (K : Type) where
  gateway1 : Gateway n K
  gateway2 : Gateway n K
  counter1 : Nat
  counter2 : Nat
  resought1 : Bool
  resought2 : Bool
  deriving DecidableEq, Repr

section Select

variable [Field K] [LinearOrder K]

/-- `latency < gateway[0]` -/
def nearer (latency : K) : Gateway n K → Bool
  | none => true
  | some s => latency < s.latency

/-- Nothing seen yet. -/
def View.empty : View n K := ⟨[], none, fun _ h => nomatch h⟩

/-- A covered satellite is in view, and the nearest one if no other was as near. -/
def View.see (v : View n K) (s : Sat n K) : View n K where
  inView := v.inView ++ [s]
  nearest := if nearer s.latency v.nearest then some s else v.nearest
  nearest_mem t ht := by
    split at ht
    · obtain rfl := Option.some.inj ht
      exact List.mem_append_right _ List.mem_cons_self
    · exact List.mem_append_left _ (v.nearest_mem t ht)

/-- `pathExists` of two gateways in the graph of a cycle. -/
def connects (nx : NetworkX K) (inp : CycleInput n K) (g₁ g₂ : Gateway n K) : Bool :=
  pathExists nx (gatewayId g₁) (gatewayId g₂) inp.graph

/-- Whether to select a new gateway. -/
def chooseGateways (nx : NetworkX K) (inp : CycleInput n K) (st : GatewayState n K) :
    Selection n K :=
  -- continue to use the previous gateways
  let sel : Selection n K :=
    ⟨st.previous1, st.previous2, st.counter1, st.counter2, false, false⟩
  if connects nx inp sel.gateway1 sel.gateway2 then
    let sel := if sel.counter1 = 15 then
      { sel with gateway1 := inp.view1.nearest, resought1 := true } else sel
    if sel.counter2 = 15 then
      { sel with gateway2 := inp.view2.nearest, resought2 := true } else sel
  -- try just the test 1 side
  else if connects nx inp inp.view1.nearest sel.gateway2 then
    { sel with gateway1 := inp.view1.nearest, resought1 := true, counter1 := 15 }
  -- try just the test 2 side
  else if connects nx inp sel.gateway1 inp.view2.nearest then
    { sel with gateway2 := inp.view2.nearest, resought2 := true, counter2 := 15 }
  else
    ⟨inp.view1.nearest, inp.view2.nearest, 15, 15, true, true⟩

/-- `sum < alternative_test_1_gateway[0] + alternative_test_2_gateway[0]` -/
def nearerPair (sum : K) : Gateway n K × Gateway n K → Bool
  | (some s₁, some s₂) => sum < s₁.latency + s₂.latency
  | _ => true

/-- One round of the search for an alternative. -/
def alternativeStep (nx : NetworkX K) (G : WGraph Nat K) (best : Gateway n K × Gateway n K)
    (sats : Sat n K × Sat n K) : Gateway n K × Gateway n K :=
  if pathExists nx (sats.1.id : Nat) (sats.2.id : Nat) G then
    if nearerPair (sats.1.latency + sats.2.latency) best then (some sats.1, some sats.2) else best
  else best

/-- The search for an alternative, over all pairs of satellites in view. -/
def alternativeGateways (nx : NetworkX K) (inp : CycleInput n K) : Gateway n K × Gateway n K :=
  inp.view1.inView.foldl (fun best sat1 =>
    inp.view2.inView.foldl (fun best sat2 => alternativeStep nx inp.graph best (sat1, sat2)) best)
    (none, none)

/-- If the two selected gateways still cannot form a routing path, another pair. -/
def fallback (nx : NetworkX K) (inp : CycleInput n K) (sel : Selection n K) : Selection n K :=
  if connects nx inp sel.gateway1 sel.gateway2 then sel
  else
    let alternative := alternativeGateways nx inp
    if connects nx inp alternative.1 alternative.2 then
      ⟨alternative.1, alternative.2, 15, 15, true, true⟩
    else sel

/-- The selection of a cycle. -/
def selectGateways (nx : NetworkX K) (inp : CycleInput n K) (st : GatewayState n K) :
    Selection n K :=
  fallback nx inp (chooseGateways nx inp st)

/-- The update of a counter at the end of a cycle. -/
def tick (counter : Nat) : Nat := if counter = 15 then 0 else counter + 1

/-- The state behind a cycle. -/
def Selection.next (sel : Selection n K) : GatewayState n K :=
  ⟨tick sel.counter1, tick sel.counter2, sel.gateway1, sel.gateway2⟩

end Select

end LeoEM
