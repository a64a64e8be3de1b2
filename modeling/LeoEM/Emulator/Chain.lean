/-
# `Emulator.Chain` — a path of any length, laid over the chain

A path of `m` nodes has `m - 1` delays, and the chain has `N - 1` links, `m ≤ N`.
`layPath` sets the first link and the last link, then the links between
satellites, then the dummy links:

    s_0 - s_1             node_delay[0]
    s_(N-2) - s_(N-1)     node_delay[m-2]
    s_i - s_(i+1)         node_delay[i]      1 ≤ i ≤ m - 3
    s_i - s_(i+1)         0.01ms             m - 2 ≤ i ≤ N - 3

The four ranges cover every link once (`layPath_eq`, `laid_chainDelays`), so the
chain carries the path whatever it carried before.

A cycle can fail to get there in one way only: if it has a single satellite and the
path it is compared with has that satellite behind its first, the comparison raises
(`WrapsAtStart`).  `chain_laid_iff` says that nothing else goes wrong.
-/
import LeoEM.Emulator.Predecessor
import Mathlib.Algebra.BigOperators.Group.List.Basic
import Mathlib.Tactic.Ring

namespace LeoEM

open PyList

variable {K : Type}

/-- A route as the chain of `N` switches can carry it: at least one satellite, and a
delay for each hop. -/
structure Route.Fits (N : Nat) (r : Route K) : Prop where
  nodes : 3 ≤ r.path.length
  hops : r.path.length ≤ N
  delays : r.nodeDelay.length + 1 = r.path.length

/-- Every route of the list fits. -/
def RoutesFit (N : Nat) (cycles : List (Cycle K)) : Prop :=
  ∀ c ∈ cycles, ∀ r, c.route = some r → r.Fits N

/-- A link setting: the two nodes and the delay. -/
abbrev LinkSetting (K : Type) := NodeName × NodeName × DelayArg K

/-- The link settings of a log. -/
def linkSettings (log : List (Cmd K)) : List (LinkSetting K) := log.filterMap Cmd.linkSetting?

/-- The settings lay the route over the chain: each link is set once, to its delay, and
the delays add up to the route's and a dummy delay for each link that is left. -/
structure Laid [Field K] (N : Nat) (r : Route K) (settings : List (LinkSetting K)) : Prop where
  once : (settings.map fun x => (x.1, x.2.1)).Perm
    ((List.range (N - 1)).map fun i : Nat => (.s i, .s (i + 1)))
  first : ∀ w, r.nodeDelay[0]? = some w → (.s 0, .s 1, .seconds w) ∈ settings
  last : ∀ w, r.nodeDelay[r.path.length - 2]? = some w →
    (.s ((N : Int) - 2), .s ((N : Int) - 1), .seconds w) ∈ settings
  inner : ∀ (i : Nat) w, 1 ≤ i → i + 3 ≤ r.path.length → r.nodeDelay[i]? = some w →
    (.s i, .s (i + 1), .seconds w) ∈ settings
  sum : (settings.map fun x => x.2.2.value).sum =
    r.nodeDelay.sum + ((N - r.path.length : Nat) : K) * DelayArg.unitialized.value

/-! ## The four ranges -/

/-- The links, by their first switch, with the delays they get: `a` and `b` at the ends,
`mid` between the satellites, and `e` links are left over. -/
def chainDelays (a : K) (mid : List K) (b : K) (e : Nat) : List (Nat × DelayArg K) :=
  (0, .seconds a) :: (mid.length + e + 1, .seconds b) ::
    (mid.zipIdx.map (fun x => (x.2 + 1, .seconds x.1)) ++
      (List.range e).map fun i => (mid.length + i + 1, .unitialized))

/-- The setting of the link from `s_i` on. -/
def linkSetting (x : Nat × DelayArg K) : LinkSetting K := (.s x.1, .s (x.1 + 1), x.2)

/-- The call that makes it. -/
def LinkSetting.cmd (x : LinkSetting K) : Cmd K :=
  .setLinkProperties x.1 x.2.1 bentPipeLinkBandwidth x.2.2 switchQueueSize

theorem linkSettings_cmd (xs : List (LinkSetting K)) :
    linkSettings (xs.map LinkSetting.cmd) = xs := by
  induction xs with
  | nil => rfl
  | cons x xs ih => simpa [linkSettings, LinkSetting.cmd, Cmd.linkSetting?] using ih

theorem linkSettings_append (log log' : List (Cmd K)) :
    linkSettings (log ++ log') = linkSettings log ++ linkSettings log' :=
  List.filterMap_append

theorem linkSettings_eq_nil {log : List (Cmd K)} (h : ∀ c ∈ log, c.linkSetting? = none) :
    linkSettings log = [] := List.filterMap_eq_nil_iff.mpr h

/-- The four ranges are the range of all links. -/
theorem chainDelays_links (a : K) (mid : List K) (b : K) (e : Nat) :
    ((chainDelays a mid b e).map Prod.fst).Perm (List.range (mid.length + e + 2)) := by
  have hmid : (mid.zipIdx.map fun x => x.2 + 1) = (List.range mid.length).map (· + 1) := by
    rw [List.range_eq_range', ← List.zipIdx_map_snd 0 mid, List.map_map]
    rfl
  have hrange : List.range (mid.length + e + 2) =
      0 :: ((List.range mid.length).map (· + 1) ++ (List.range e).map (mid.length + · + 1)) ++
        [mid.length + e + 1] := by
    rw [List.range_succ, List.range_succ_eq_map, List.range_add, List.map_append, List.map_map]
    rfl
  rw [hrange]
  simp only [chainDelays, List.map_cons, List.map_append, List.map_map, Function.comp_def, hmid]
  exact (List.perm_append_singleton _ _).symm.cons 0

theorem chainDelays_sum [Field K] (a : K) (mid : List K) (b : K) (e : Nat) :
    ((chainDelays a mid b e).map fun x => x.2.value).sum =
      (a :: mid ++ [b]).sum + e * DelayArg.unitialized.value := by
  have hmid : (mid.zipIdx.map fun x => x.1) = mid := List.zipIdx_map_fst 0 mid
  simp only [chainDelays, List.map_cons, List.map_append, List.map_map, Function.comp_def,
    List.sum_cons, List.sum_append, List.map_const', List.sum_replicate, List.length_range,
    nsmul_eq_mul, List.sum_nil, DelayArg.value, hmid]
  ring

/-- **The four ranges lay the route.** -/
theorem laid_chainDelays [Field K] {N e : Nat} {r : Route K} {a b : K} {mid : List K}
    (hr : r.nodeDelay = a :: mid ++ [b]) (hp : r.path.length = mid.length + 3)
    (hN : N = mid.length + 3 + e) : Laid N r ((chainDelays a mid b e).map linkSetting) where
  once := by
    rw [List.map_map, hN, show mid.length + 3 + e - 1 = mid.length + e + 2 by omega]
    have := (chainDelays_links a mid b e).map fun i : Nat => (NodeName.s i, NodeName.s (i + 1))
    rwa [List.map_map] at this
  first w hw := by
    rw [hr] at hw
    obtain rfl : a = w := by simpa using hw
    exact List.mem_map_of_mem List.mem_cons_self
  last w hw := by
    rw [hr, hp] at hw
    obtain rfl : b = w := by simpa using hw
    refine List.mem_map.mpr ⟨_, List.mem_cons_of_mem _ List.mem_cons_self, ?_⟩
    simp only [linkSetting, hN, Prod.mk.injEq, NodeName.s.injEq, and_true]
    omega
  inner i w hi him hw := by
    obtain ⟨j, rfl⟩ := Nat.exists_eq_add_of_le' hi
    have hj : j < mid.length := by omega
    rw [hr, List.cons_append, List.getElem?_cons_succ, List.getElem?_append_left hj] at hw
    have hmem : (w, j) ∈ mid.zipIdx := List.mem_zipIdx_iff_getElem?.mpr hw
    refine List.mem_map.mpr ⟨(j + 1, .seconds w), ?_, rfl⟩
    refine List.mem_cons_of_mem _ (List.mem_cons_of_mem _ (List.mem_append_left _ ?_))
    exact List.mem_map.mpr ⟨(w, j), hmem, rfl⟩
  sum := by
    rw [List.map_map, hr, hp, hN, Nat.add_sub_cancel_left]
    exact chainDelays_sum a mid b e

section Lay

variable {a b : K} {mid : List K} {e : Nat} {path : List (Option Int)}

theorem setLinkProperties_link {N i : Nat} (h : i + 1 < N) (delay : DelayArg K) :
    setLinkProperties (myTopo N) (.s i) (.s (i + 1)) bentPipeLinkBandwidth delay =
      Logged.tell (linkSetting (i, delay)).cmd :=
  setLinkProperties_chain rfl (Int.natCast_nonneg i) (by omega) _ delay

theorem forEach_mid {N : Nat} (hN : mid.length + 3 ≤ N) :
    Logged.forEach (fun i => do
      let weight ← ofPy (getItem (a :: mid ++ [b]) (i + 1))
      setLinkProperties (myTopo N) (.s (i + 1)) (.s (i + 2)) bentPipeLinkBandwidth
        (.seconds weight)) (PyList.range 0 mid.length) =
    Logged.tellAll (mid.zipIdx.map fun x => (linkSetting (x.2 + 1, .seconds x.1)).cmd) := by
  rw [Logged.forEach_tell (w := fun i =>
    (linkSetting (i.toNat + 1, .seconds (mid.getD i.toNat a))).cmd)]
  · congr 1
    refine List.ext_getElem (by simp [PyList.range]) fun i h₁ h₂ => ?_
    have hi : i < mid.length := by simpa using h₂
    simp [PyList.range, hi]
  · intro i hi
    obtain ⟨h₀, h₁⟩ := mem_range.mp hi
    obtain ⟨j, rfl⟩ := Int.eq_ofNat_of_zero_le h₀
    have hj : j < mid.length := by omega
    have hget : mid.getD j a = mid[j] := by simp [hj]
    rw [getItem_mid hj, ofPy_ok, Logged.pure_bind, Int.toNat_natCast, hget]
    exact setLinkProperties_link (i := j + 1) (by omega) _

theorem forEach_dummy {N : Nat} (hN : N = mid.length + 3 + e) :
    Logged.forEach (fun i =>
      setLinkProperties (myTopo N) (.s (i + 1)) (.s (i + 2)) bentPipeLinkBandwidth
        (.unitialized : DelayArg K)) (PyList.range mid.length ((N : Int) - 3)) =
    Logged.tellAll ((List.range e).map fun i =>
      (linkSetting (mid.length + i + 1, .unitialized)).cmd) := by
  rw [Logged.forEach_tell (w := fun i => (linkSetting (i.toNat + 1, .unitialized)).cmd)]
  · have he : ((N : Int) - 3 - mid.length).toNat = e := by omega
    simp only [PyList.range, he, List.map_map]
    congr 1
  · intro i hi
    obtain ⟨h₀, h₁⟩ := mem_range.mp hi
    obtain ⟨j, rfl⟩ := Int.eq_ofNat_of_zero_le (Int.le_trans (Int.natCast_nonneg _) h₀)
    exact setLinkProperties_link (i := j + 1) (by omega) _

/-- **A route that fits is laid over the chain**, without an exception. -/
theorem layPath_eq {N : Nat} (hp : path.length = mid.length + 3) (hN : N = mid.length + 3 + e) :
    layPath N path (a :: mid ++ [b]) =
      Logged.tellAll (((chainDelays a mid b e).map linkSetting).map LinkSetting.cmd) := by
  have hfirst := setLinkProperties_link (K := K) (N := N) (i := 0) (by omega) (.seconds a)
  have hlast := setLinkProperties_link (K := K) (N := N) (i := mid.length + e + 1) (by omega)
    (.seconds b)
  rw [show ((mid.length + e + 1 : Nat) : Int) = N - 2 by omega,
    show (N : Int) - 2 + 1 = N - 1 by omega] at hlast
  have hm : (path.length : Int) - 3 = mid.length := by omega
  simp only [layPath, getItem_first, getItem_last, ofPy_ok, Logged.pure_bind, hm]
  rw [forEach_mid (by omega), forEach_dummy hN]
  simp only [bentPipeLinkBandwidth] at hfirst hlast
  simp only [Nat.cast_zero, zero_add] at hfirst
  rw [hfirst, hlast, Logged.tell_bind, Logged.tell_bind, Logged.tellAll_bind]
  simp only [chainDelays, List.map_cons, List.map_append, List.map_map]
  rfl

end Lay

/-- The delays of a route that fits. -/
theorem Route.Fits.exists_delays {N : Nat} {r : Route K} (h : r.Fits N) : ∃ a mid b,
    r.nodeDelay = a :: mid ++ [b] ∧ r.path.length = mid.length + 3 ∧
      N = mid.length + 3 + (N - r.path.length) := by
  obtain ⟨hnodes, hhops, hdelays⟩ := h
  cases hd : r.nodeDelay with
  | nil => rw [hd] at hdelays; simp at hdelays; omega
  | cons a rest =>
      rcases List.eq_nil_or_concat rest with rfl | ⟨mid, b, rfl⟩
      · rw [hd] at hdelays
        simp at hdelays
        omega
      · rw [hd] at hdelays
        simp only [List.concat_eq_append, List.length_cons, List.length_append,
          List.length_nil] at hdelays
        exact ⟨a, mid, b, by simp, by omega, by omega⟩

/-! ## What the globals hold before a cycle -/

/-- The path cycle `k` is compared with. -/
def comparedPath (cycles : List (Cycle K)) : Nat → List (Option Int)
  | 0 => leftoverPath cycles
  | k + 1 => (routeAt cycles k).elim nullPath routingPath

/-- The globals as cycle `k` finds them. -/
def Globals.At (g : Globals K) (cycles : List (Cycle K)) (k : Nat) : Prop :=
  g.currentRoutingPath = comparedPath cycles k ∧
    g.currentNodeDelay = (previousRoute cycles k).map Route.nodeDelay

section Runs

variable {g g' : Globals K} {k N : Nat} {cycles : List (Cycle K)} {r : Route K}

theorem RoutesFit.at (h : RoutesFit N cycles) (hr : routeAt cycles k = some r) : r.Fits N := by
  obtain ⟨c, hc, hcr⟩ := mem_of_routeAt hr
  exact h c hc r hcr

theorem RoutesFit.previous (h : RoutesFit N cycles) :
    ∀ p, previousRoute cycles k = some p → p.Fits N := by
  cases k with
  | zero => intro p hp; cases hp
  | succ k => intro p hp; exact h.at hp

theorem at_zero {handovers : List Nat}
    (h : precomputeHandovers Globals.start cycles = .ok (handovers, g)) : g.At cycles 0 :=
  precomputeHandovers_globals h

theorem at_succ [Field K] [LinearOrder K] {env : Env K}
    (h : (cycleBody env g k).result = .ok g') : g'.At env.linkInfo (k + 1) :=
  shows_of_cycleBody h

variable [Field K]

theorem gatewayChange_total (dish sat : NodeName) (current last : Option Int) {i : Int}
    {delays lastDelays : List K} {x y : K} (hx : getItem lastDelays i = .ok x)
    (hy : getItem delays i = .ok y) :
    ∃ ends, gatewayChange dish sat i current last delays lastDelays = .ok ends := by
  simp only [gatewayChange, hx, hy, ok_bind]
  split <;> exact ⟨_, rfl⟩

/-- The dishes' handovers can always be listed. -/
theorem endHandoverNodes_total (hg : g.At cycles k) (hr : r.Fits N)
    (hprev : ∀ p, previousRoute cycles k = some p → p.Fits N) :
    ∃ ends, endHandoverNodes N (g.shift r) r.nodeDelay = .ok ends := by
  obtain ⟨a, mid, b, hd, -⟩ := hr.exists_delays
  have ha : getItem r.nodeDelay 0 = .ok a := hd ▸ getItem_first
  have hb : getItem r.nodeDelay (-1) = .ok b := hd ▸ getItem_last
  have hlast : (g.shift r).lastNodeDelay = (previousRoute cycles k).map Route.nodeDelay := hg.2
  cases hp : previousRoute cycles k with
  | none =>
      rw [hp] at hlast
      simp only [endHandoverNodes, hlast, Option.map_none, ha, hb, ok_bind]
      exact ⟨_, rfl⟩
  | some p =>
      obtain ⟨a', mid', b', hd', -⟩ := (hprev p hp).exists_delays
      have ha' : getItem p.nodeDelay 0 = .ok a' := hd' ▸ getItem_first
      have hb' : getItem p.nodeDelay (-1) = .ok b' := hd' ▸ getItem_last
      have hpath : (g.shift r).lastRoutingPath = routingPath p := by
        cases k with
        | zero => cases hp
        | succ k =>
            refine hg.1.trans ?_
            show (routeAt cycles k).elim nullPath routingPath = _
            rw [show routeAt cycles k = some p from hp]
            rfl
      obtain ⟨c₁, c₂, -, -, hc₁, hc₂⟩ := exists_ends hr.nodes
      obtain ⟨l₁, l₂, -, -, hl₁, hl₂⟩ := exists_ends (hprev p hp).nodes
      obtain ⟨u₁, hu₁⟩ := gatewayChange_total (.s 0) (.s 1) c₁ l₁ ha' ha
      obtain ⟨u₂, hu₂⟩ := gatewayChange_total (.s ((N : Int) - 1)) (.s ((N : Int) - 2)) c₂ l₂
        hb' hb
      rw [hp] at hlast
      refine ⟨u₁ ++ u₂, ?_⟩
      simp only [endHandoverNodes, hlast, Option.map_some, hpath]
      rw [show (g.shift r).currentRoutingPath = routingPath r from rfl, hc₁, hl₁, hc₂, hl₂]
      simp only [ok_bind, hu₁, hu₂]

/-- What a cycle compares decides whether it can decide its handovers. -/
theorem planHandovers_total (hg : g.At cycles k) (hr : r.Fits N)
    (hprev : ∀ p, previousRoute cycles k = some p → p.Fits N) :
    (∃ plan, planHandovers N (g.shift r) r.nodeDelay = .ok plan) ↔
      ¬ WrapsAtStart (comparedPath cycles k) (routingPath r) := by
  obtain ⟨ends, hends⟩ := endHandoverNodes_total hg hr hprev
  have hlast : (g.shift r).lastRoutingPath = comparedPath cycles k := hg.1
  rw [← computeLinkDelta_ok_iff]
  simp only [planHandovers, hends, ok_bind, hlast]
  constructor
  · rintro ⟨plan, h⟩
    obtain ⟨arr, harr, -⟩ := bind_eq_ok.mp h
    exact ⟨arr, harr⟩
  · rintro ⟨arr, harr⟩
    rw [show (g.shift r).currentRoutingPath = routingPath r from rfl, harr]
    exact ⟨_, rfl⟩

/-- **A cycle that has decided its handovers** lays its route. -/
theorem cycleBody_laid [LinearOrder K] {env : Env K} {c : Cycle K} {plan : Handovers K}
    (hc : env.linkInfo[k]? = some c) (hn : c.cycle = k + 1) (hcr : c.route = some r)
    (hr : r.Fits env.intermediateHopNum)
    (hp : planHandovers env.intermediateHopNum (g.shift r) r.nodeDelay = .ok plan) :
    (cycleBody env g k).result = .ok (g.shift r) ∧
      Laid env.intermediateHopNum r (linkSettings (cycleBody env g k).log) := by
  obtain ⟨a, mid, b, hd, hlen, hN⟩ := hr.exists_delays
  have hpath : (routingPath r).length = mid.length + 3 := by
    rw [routingPath, List.length_map, hlen]
  have hlay := layPath_eq (a := a) (b := b) hpath hN
  rw [← hd] at hlay
  rw [cycleBody_some hc hn hcr, withRoute_of_ok hp, hlay]
  have hahead : linkSettings (aheadReports env k) = [] :=
    linkSettings_eq_nil fun c hc => (mem_aheadReports hc).2
  have hdelayed : linkSettings (delayedReport env k plan) = [] :=
    linkSettings_eq_nil fun c hc => (mem_delayedReport hc).2
  refine ⟨rfl, ?_⟩
  show Laid _ r (linkSettings (_ ++ (_ :: (_ ++ (interruptions plan ++ _)))))
  rw [linkSettings_append, hahead, List.nil_append]
  show Laid _ r (linkSettings (_ ++ (interruptions plan ++ _)))
  rw [linkSettings_append, hdelayed, List.nil_append, linkSettings_append]
  show Laid _ r (linkSettings (List.map _ _))
  rw [linkSettings_cmd]
  exact laid_chainDelays hd hlen hN

variable [LinearOrder K] (d : Nat → K) {handovers : List Nat}

/-- A cycle whose comparison does not wrap comes to its end. -/
theorem cycleBody_total (handovers : List Nat) (hnum : Numbered cycles) (hfit : RoutesFit N cycles)
    (hg : g.At cycles k) (hk : k < cycles.length)
    (hw : ∀ r, routeAt cycles k = some r →
      ¬ WrapsAtStart (comparedPath cycles k) (routingPath r)) :
    ∃ g', (cycleBody ⟨cycles, d, handovers, N⟩ g k).result = .ok g' := by
  have hc : (⟨cycles, d, handovers, N⟩ : Env K).linkInfo[k]? = some cycles[k] :=
    List.getElem?_eq_getElem hk
  cases hr : cycles[k].route with
  | none =>
      rw [cycleBody_none hc (hnum k _ hc) hr]
      exact ⟨_, rfl⟩
  | some r =>
      have hat : routeAt cycles k = some r := routeAt_eq_some.mpr ⟨_, hc, hr⟩
      have hfits := hfit.at hat
      obtain ⟨plan, hp⟩ := (planHandovers_total hg hfits hfit.previous).mpr (hw r hat)
      exact ⟨_, (cycleBody_laid hc (hnum k _ hc) hr hfits hp).1⟩

/-- **Progress.**  If no comparison wraps, every cycle is visited and comes to its end. -/
theorem visits_of_not_wraps (hnum : Numbered cycles) (hfit : RoutesFit N cycles)
    (hpre : precomputeHandovers Globals.start cycles = .ok (handovers, g))
    (hw : ∀ k r, routeAt cycles k = some r →
      ¬ WrapsAtStart (comparedPath cycles k) (routingPath r)) (hk : k < cycles.length) :
    ∃ v g', (Logged.visits (cycleBody ⟨cycles, d, handovers, N⟩) g
        (List.range cycles.length))[k]? = some v ∧
      v.done = cycleBody ⟨cycles, d, handovers, N⟩ v.before k ∧ v.done.result = .ok g' := by
  have hstep : ∀ k (g : Globals K) x, (List.range cycles.length)[k]? = some x → g.At cycles k →
      ∃ g', (cycleBody ⟨cycles, d, handovers, N⟩ g x).result = .ok g' ∧ g'.At cycles (k + 1) := by
    intro k g x hx hg
    obtain ⟨hlt, rfl⟩ := List.getElem?_eq_some_iff.mp hx
    rw [List.getElem_range]
    obtain ⟨g', hg'⟩ := cycleBody_total d handovers hnum hfit hg (by simpa using hlt) (hw k)
    exact ⟨g', hg', at_succ hg'⟩
  obtain ⟨v, hv, -, hat⟩ :=
    Logged.visits_total (fun k (g : Globals K) => g.At cycles k) (at_zero hpre) hstep
    (List.getElem?_range hk)
  obtain ⟨-, -, hd⟩ := visit_input hv
  obtain ⟨g', hg'⟩ := cycleBody_total d handovers hnum hfit hat hk (hw k)
  exact ⟨v, g', hv, hd, hd ▸ hg'⟩

variable {d} in
/-- Before each cycle that is visited the globals are as the cycle finds them. -/
theorem at_of_visit {v : CycleVisit K} {m : Nat}
    (hpre : precomputeHandovers Globals.start cycles = .ok (handovers, g))
    (hv : (Logged.visits (cycleBody ⟨cycles, d, handovers, N⟩) g (List.range m))[k]? = some v) :
    v.before.At cycles k := by
  cases k with
  | zero => rw [Logged.visits_zero hv]; exact at_zero hpre
  | succ k => exact shows_of_visit hv

/-- **The chain carries exactly the current path's delays** in every cycle that has a
path, exactly if no comparison of a run wraps at the start of a path with a single
satellite. -/
theorem chain_laid_iff (hnum : Numbered cycles) (hfit : RoutesFit N cycles) :
    ∃ vs, updatePrecomputedLink N d cycles = .ok vs ∧
      ((∀ k r, routeAt cycles k = some r → ∃ v g, vs[k]? = some v ∧ v.done.result = .ok g ∧
          Laid N r (linkSettings v.done.log)) ↔
        ∀ k r, routeAt cycles k = some r →
          ¬ WrapsAtStart (comparedPath cycles k) (routingPath r)) := by
  obtain ⟨handovers, g, hpre⟩ := precomputeHandovers_total Globals.start
    fun c hc r hr => (hfit c hc r hr).nodes
  refine ⟨_, run_eq hpre, ?_⟩
  constructor
  · intro hall k r hr
    obtain ⟨v, g', hv, hok, -⟩ := hall k r hr
    obtain ⟨-, -, hd⟩ := visit_input hv
    rw [hd] at hok
    obtain ⟨c, hc, -, hcases⟩ := cycleBody_ok hok
    obtain ⟨c', hc', hcr⟩ := routeAt_eq_some.mp hr
    obtain rfl : c = c' := Option.some.inj (hc.symm.trans hc')
    rcases hcases with ⟨hnone, -⟩ | ⟨r', plan, hr', -, hp⟩
    · rw [hnone] at hcr
      cases hcr
    · obtain rfl : r' = r := Option.some.inj (hr'.symm.trans hcr)
      exact (planHandovers_total (at_of_visit hpre hv) (hfit.at hr) hfit.previous).mp ⟨plan, hp⟩
  · intro hw k r hr
    obtain ⟨v, g', hv, hd, hok⟩ := visits_of_not_wraps d hnum hfit hpre hw (routeAt_lt hr)
    obtain ⟨c, hc, hcr⟩ := routeAt_eq_some.mp hr
    obtain ⟨plan, hp⟩ := (planHandovers_total (at_of_visit hpre hv) (hfit.at hr)
      hfit.previous).mpr (hw k r hr)
    refine ⟨v, g', hv, hok, ?_⟩
    rw [hd]
    have hc : (⟨cycles, d, handovers, N⟩ : Env K).linkInfo[k]? = some c := hc
    exact (cycleBody_laid hc (hnum k c hc) hcr (hfit.at hr) hp).2

theorem threeCycles_numbered : Numbered threeCycles := by
  intro k c hc
  match k, hc with
  | 0, hc | 1, hc | 2, hc => obtain rfl := Option.some.inj hc; rfl

theorem threeCycles_fit : RoutesFit 4 threeCycles := by
  intro c hc r hr
  simp only [threeCycles, List.mem_cons, List.not_mem_nil, or_false] at hc
  rcases hc with rfl | rfl | rfl
  · obtain rfl := Option.some.inj hr
    exact ⟨by decide, by decide, rfl⟩
  · cases hr
  · obtain rfl := Option.some.inj hr
    exact ⟨by decide, by decide, rfl⟩

theorem chain_laid_iff_threeCycles : ∃ vs,
    updatePrecomputedLink 4 (fun _ => 0) threeCycles = .ok vs ∧
    ((∀ k r, routeAt threeCycles k = some r → ∃ v g, vs[k]? = some v ∧
        v.done.result = .ok g ∧ Laid 4 r (linkSettings v.done.log)) ↔
      ∀ k r, routeAt threeCycles k = some r →
        ¬ WrapsAtStart (comparedPath threeCycles k) (routingPath r)) :=
  chain_laid_iff (fun _ => 0) threeCycles_numbered threeCycles_fit

/-- A satellite is gone from the second path, which has a single one. -/
def shorterPath : List (Cycle Rat) :=
  [⟨1, some ⟨[-1, 7, 5, -2], 4, [1, 2, 1], 4⟩⟩, ⟨2, some ⟨[-1, 5, -2], 3, [1, 1], 2⟩⟩]

/-- Its second cycle raises before it sets a link. -/
theorem shorterPath_not_laid : ∃ vs v r, updatePrecomputedLink 4 (fun _ => 0) shorterPath = .ok vs ∧
    routeAt shorterPath 1 = some r ∧ vs[1]? = some v ∧
    v.done.result = .error (.raised .indexError) ∧ ¬ Laid 4 r (linkSettings v.done.log) := by
  refine ⟨_, _, _, rfl, rfl, rfl, rfl, ?_⟩
  intro h
  have := h.once.length_eq
  revert this
  decide

end Runs

end LeoEM
