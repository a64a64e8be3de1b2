/-
# `Pipeline` — from the route stage to the emulated network

The stages meet in a file: the route stage computes a route a cycle, or none, the emulation
stage reads the file, builds a chain as long as the longest route needs, and lays each route
over it.  Here the two ends are put side by side.  Behind cycle `k` of the emulation the
network is the one of route `k` (`Emulates`): its delays are at the interfaces of the chain,
and a link is down only if there is no route.

`emulates_routed`: for every run of the route stage this is so behind every cycle, unless the
comparison with an earlier route raises.
-/
import LeoEM.Emulator.Links
import LeoEM.Emulator.Shaping
import LeoEM.RoundTrip

namespace LeoEM

variable {n : Nat} {K : Type}

/-- The entries of the file that a run of the route stage writes. -/
def writtenCycles [Field K] [LinearOrder K] (nx : NetworkX K) (run : List (RouteVisit n K)) :
    List (Cycle K) := run.map (entry nx)

/-- `intermediate_hop_num`, when the entries have been read. -/
def chainLength (cycles : List (Cycle K)) : Nat := (cycles.foldl hopNum 0).toNat

/-- Behind cycle `k` of an emulation the network is that of `route`: the link of the first dish
is down if there is no route, no link is if there is one, and then the interfaces have the
delays of the route. -/
structure Emulates [Field K] (str : K → String) (N : Nat) (vs : List (CycleVisit K)) (k : Nat)
    (route : Option (Route K)) : Prop where
  down : ∀ trace, LogCalls (Logged.logUpTo vs (k + 1)) trace →
    downAfter ∅ trace = downBehind route
  carries : ∀ r, route = some r →
    ChainCarries str N (emulatedLinks str N (Logged.logUpTo vs (k + 1))) (some r)

section Emulate

variable [Field K] [LinearOrder K] {N : Nat} {cycles : List (Cycle K)} {d : Nat → K}
  {vs : List (CycleVisit K)} {str : K → String} {k : Nat}

/-- A cycle that comes to its end leaves the network of its route. -/
theorem emulates_of_ends (hfit : RoutesFit N cycles)
    (hrun : updatePrecomputedLink N d cycles = .ok vs) {v : CycleVisit K} {g : Globals K}
    (hv : vs[k]? = some v) (hok : v.done.result = .ok g) :
    Emulates str N vs k (routeAt cycles k) := by
  have hcarries : ChainCarries str N (emulatedLinks str N (Logged.logUpTo vs (k + 1)))
      (latestRoute cycles (k + 1)) := (emulated_visit hfit hrun hv).2.2 g hok
  refine ⟨fun trace hcalls => ?_, fun r hr => ?_⟩
  · obtain ⟨handovers, g₀, -, rfl⟩ := run_of_ok hrun
    exact links_step hv hok (serviceOnly_run hv) hcalls
  · rwa [latestRoute, hr, Option.some_or] at hcarries

/-- The comparisons of a run decide whether every cycle comes to its end. -/
theorem ends_iff (hnum : Numbered cycles) (hfit : RoutesFit N cycles)
    (hrun : updatePrecomputedLink N d cycles = .ok vs) :
    (∀ k, k < cycles.length → ∃ v g, vs[k]? = some v ∧ v.done.result = .ok g) ↔
      ∀ k r, routeAt cycles k = some r →
        ¬ WrapsAtStart (comparedPath cycles k) (routingPath r) := by
  obtain ⟨handovers, g₀, hpre, rfl⟩ := run_of_ok hrun
  constructor
  · intro hall k r hr
    obtain ⟨v, g, hv, hok⟩ := hall k (routeAt_lt hr)
    rw [(visit_input hv).2.2] at hok
    obtain ⟨c, hc, -, ⟨hnone, -⟩ | ⟨r', plan, hr', -, hp⟩⟩ := cycleBody_ok hok
    · have hroute : routeAt cycles k = none := by
        simp [routeAt, show cycles[k]? = some c from hc, hnone]
      cases hroute.symm.trans hr
    · obtain rfl : r' = r :=
        Option.some.inj ((routeAt_eq_some.mpr ⟨c, hc, hr'⟩).symm.trans hr)
      exact (planHandovers_total (at_of_visit hpre hv) (hfit.at hr) hfit.previous).mp ⟨plan, hp⟩
  · intro hw k hk
    obtain ⟨v, g, hv, -, hok⟩ := visits_of_not_wraps d hnum hfit hpre hw hk
    exact ⟨v, g, hv, hok⟩

end Emulate

/-! ## The two stages -/

section Stages

variable [Field K] [LinearOrder K] {nx : NetworkX K} {delay : Scalar K}
  {inputs : List (CycleInput n K)}

theorem routeAt_written {k : Nat} {v : RouteVisit n K}
    (hv : (routeRun nx delay inputs)[k]? = some v) :
    routeAt (writtenCycles nx (routeRun nx delay inputs)) k = lineRoute nx v.input.1 v.before := by
  rw [routeAt, writtenCycles, List.getElem?_map, hv]
  rfl

/-- A file with a route makes a chain. -/
theorem chainLength_pos {v : RouteVisit n K} {r : Route K}
    (hv : v ∈ routeRun nx delay inputs) (hr : lineRoute nx v.input.1 v.before = some r) :
    1 ≤ chainLength (writtenCycles nx (routeRun nx delay inputs)) := by
  have hfits : r.Fits (chainLength (writtenCycles nx (routeRun nx delay inputs))) :=
    entries_fit (entry nx v) (List.mem_map_of_mem hv) r hr
  have := hfits.nodes
  have := hfits.hops
  omega

end Stages

/-- **The emulated network is the one that was routed.**  For every run of the route stage with a
route in it, the emulation stage reads the routes of the run, builds a chain and starts without an
exception.  Behind every cycle that comes to its end the network is that of the cycle's route; and
every cycle does, exactly if no comparison of the emulation wraps at the start of a path with a
single satellite. -/
theorem emulates_routed [Field K] [LinearOrder K] (nx : NetworkX K) (delay : Scalar K)
    (inputs : List (CycleInput n K)) (d : Nat → K) (str : K → String)
    (hroute : ∃ v ∈ routeRun nx delay inputs, ∃ r, lineRoute nx v.input.1 v.before = some r) :
    ∃ (cycles : List (Cycle K)) (N : Nat) (vs : List (CycleVisit K)),
      readLinkInfo delay (outputFile (routeRun nx delay inputs)) = .ok (cycles, (N : Int)) ∧
      (initializeLink N : Logged (Cmd K) Stop Unit).result = .ok () ∧
      updatePrecomputedLink N d cycles = .ok vs ∧
      (∀ (k : Nat) (v : RouteVisit n K) (u : CycleVisit K) (g : Globals K),
        (routeRun nx delay inputs)[k]? = some v → vs[k]? = some u → u.done.result = .ok g →
          Emulates str N vs k (lineRoute nx v.input.1 v.before)) ∧
      ((∀ k, k < inputs.length → ∃ u g, vs[k]? = some u ∧ u.done.result = .ok g) ↔
        ∀ k r, routeAt cycles k = some r →
          ¬ WrapsAtStart (comparedPath cycles k) (routingPath r)) := by
  obtain ⟨w, hw, r, hr⟩ := hroute
  have hnum : Numbered (writtenCycles nx (routeRun nx delay inputs)) := entries_numbered
  have hfit : RoutesFit (chainLength (writtenCycles nx (routeRun nx delay inputs)))
      (writtenCycles nx (routeRun nx delay inputs)) := entries_fit
  obtain ⟨handovers, g, hpre⟩ := precomputeHandovers_total Globals.start
    fun c hc r hr => (hfit c hc r hr).nodes
  have hrun : updatePrecomputedLink (chainLength (writtenCycles nx (routeRun nx delay inputs))) d
      (writtenCycles nx (routeRun nx delay inputs)) = .ok _ := run_eq hpre
  have hread : readLinkInfo delay (outputFile (routeRun nx delay inputs)) =
      .ok (writtenCycles nx (routeRun nx delay inputs),
        (chainLength (writtenCycles nx (routeRun nx delay inputs)) : Int)) := by
    rw [readLinkInfo_entries, chainLength, Int.toNat_of_nonneg (foldl_hopNum).1]
    rfl
  refine ⟨_, _, _, hread, initializeLink_ok (chainLength_pos hw hr), hrun, ?_, ?_⟩
  · intro k v u g hv hu hok
    rw [← routeAt_written hv]
    exact emulates_of_ends hfit hrun hu hok
  · have hlen : (writtenCycles nx (routeRun nx delay inputs)).length = inputs.length := by
      rw [writtenCycles, List.length_map, routeRun_length]
    rw [← ends_iff hnum hfit hrun, hlen]

/-- Two satellites, each in view of one user. -/
theorem emulates_routed_twoSats :
    ∃ (cycles : List (Cycle Rat)) (N : Nat) (vs : List (CycleVisit Rat)),
      readLinkInfo Scalar.rat (outputFile (routeRun WGraph.searchFinder Scalar.rat [twoSats])) =
        .ok (cycles, (N : Int)) ∧
      (initializeLink N : Logged (Cmd Rat) Stop Unit).result = .ok () ∧
      updatePrecomputedLink N (fun _ => 0) cycles = .ok vs ∧
      (∀ (k : Nat) (v : RouteVisit 2 Rat) (u : CycleVisit Rat) (g : Globals Rat),
        (routeRun WGraph.searchFinder Scalar.rat [twoSats])[k]? = some v → vs[k]? = some u →
          u.done.result = .ok g →
          Emulates toString N vs k (lineRoute WGraph.searchFinder v.input.1 v.before)) ∧
      ((∀ k, k < [twoSats].length → ∃ u g, vs[k]? = some u ∧ u.done.result = .ok g) ↔
        ∀ k r, routeAt cycles k = some r →
          ¬ WrapsAtStart (comparedPath cycles k) (routingPath r)) :=
  emulates_routed WGraph.searchFinder Scalar.rat [twoSats] (fun _ => 0) toString
    ⟨_, List.mem_cons_self, _, rfl⟩

end LeoEM
