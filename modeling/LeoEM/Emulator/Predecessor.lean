/-
# `Emulator.Predecessor` — which path a cycle is compared with

From the second cycle on each cycle is compared with the one before it, and the
two handover decisions agree (`decisions_agree`).  The first cycle should be
compared with nothing, the marker `["NULL"]`; but the loop that decides the handovers
up front has used the same globals.  What it leaves there is the path of the last
cycle that has a path behind a cycle that has one (`leftoverPath`), and the first
cycle, if it has a path, is compared with that.

So every cycle is compared with its true predecessor exactly if the first cycle has
no path, or no two neighbouring cycles have one (`truePredecessor_iff`).
-/
import LeoEM.Emulator.Oracle
import LeoEM.Emulator.Run

namespace LeoEM

open PyList

variable {K : Type}

/-! ## What the first loop leaves behind -/

/-- `current_routing_path` behind the first loop, if it was `path` and `last` is the cycle
before the rest. -/
def leftoverFrom : List (Option Int) → Cycle K → List (Cycle K) → List (Option Int)
  | path, _, [] => path
  | path, last, current :: rest =>
      leftoverFrom (match last.route, current.route with
        | some _, some r => routingPath r
        | _, _ => path) current rest

def leftoverPath : List (Cycle K) → List (Option Int)
  | [] => nullPath
  | cycle :: rest => leftoverFrom nullPath cycle rest

/-- Two neighbouring cycles have a route. -/
def AdjacentRoutes (cycles : List (Cycle K)) : Prop :=
  ∃ k, (routeAt cycles k).isSome ∧ (routeAt cycles (k + 1)).isSome

theorem precomputed_globals (g : Globals K) (last current : Option (Route K)) :
    (g.precomputed last current).currentRoutingPath =
        (match last, current with
          | some _, some r => routingPath r
          | _, _ => g.currentRoutingPath) ∧
      (g.precomputed last current).currentNodeDelay = g.currentNodeDelay := by
  cases last <;> cases current <;> exact ⟨rfl, rfl⟩

theorem precomputeFrom_globals : ∀ {rest : List (Cycle K)} {g g' : Globals K} {last : Cycle K}
    {handovers : List Nat}, precomputeFrom g last rest = .ok (handovers, g') →
    g'.currentRoutingPath = leftoverFrom g.currentRoutingPath last rest ∧
      g'.currentNodeDelay = g.currentNodeDelay := by
  intro rest
  induction rest with
  | nil =>
      intro g g' last handovers h
      simp only [precomputeFrom, Except.ok.injEq, Prod.mk.injEq] at h
      obtain ⟨-, rfl⟩ := h
      exact ⟨rfl, rfl⟩
  | cons current rest ih =>
      intro g g' last handovers h
      simp only [precomputeFrom, bind_eq_ok, Prod.exists, Except.ok.injEq, Prod.mk.injEq] at h
      obtain ⟨b, g₁, hb, bs, g₂, hbs, -, rfl⟩ := h
      obtain ⟨rfl, -, -⟩ := precomputeStep_ok hb
      obtain ⟨hpath, hdelay⟩ := precomputed_globals g last.route current.route
      obtain ⟨hpath', hdelay'⟩ := ih hbs
      exact ⟨by rw [hpath', hpath, leftoverFrom], hdelay'.trans hdelay⟩

theorem precomputeHandovers_globals {cycles : List (Cycle K)} {g : Globals K}
    {handovers : List Nat}
    (h : precomputeHandovers Globals.start cycles = .ok (handovers, g)) :
    g.currentRoutingPath = leftoverPath cycles ∧ g.currentNodeDelay = none := by
  cases cycles with
  | nil =>
      simp only [precomputeHandovers, Except.ok.injEq, Prod.mk.injEq] at h
      obtain ⟨-, rfl⟩ := h
      exact ⟨rfl, rfl⟩
  | cons first rest =>
      simp only [precomputeHandovers, bind_eq_ok, Prod.exists, Except.ok.injEq,
        Prod.mk.injEq] at h
      obtain ⟨bs, g', hbs, -, rfl⟩ := h
      exact precomputeFrom_globals hbs

theorem routingPath_ne_nullPath (r : Route K) : routingPath r ≠ nullPath := by
  intro h
  have : (none : Option Int) ∈ routingPath r := h ▸ List.mem_singleton_self none
  simp [routingPath] at this

theorem adjacentRoutes_cons {a b : Cycle K} {rest : List (Cycle K)} :
    AdjacentRoutes (a :: b :: rest) ↔
      (a.route.isSome ∧ b.route.isSome) ∨ AdjacentRoutes (b :: rest) := by
  constructor
  · rintro ⟨k, h₁, h₂⟩
    cases k with
    | zero => exact Or.inl ⟨h₁, h₂⟩
    | succ k => exact Or.inr ⟨k, h₁, h₂⟩
  · rintro (h | ⟨k, h⟩)
    · exact ⟨0, h⟩
    · exact ⟨k + 1, h⟩

theorem leftoverFrom_eq_nullPath : ∀ {rest : List (Cycle K)} {path : List (Option Int)}
    {last : Cycle K}, leftoverFrom path last rest = nullPath ↔
      ¬ AdjacentRoutes (last :: rest) ∧ path = nullPath := by
  intro rest
  induction rest with
  | nil =>
      intro path last
      have hno : ¬ AdjacentRoutes [last] := by
        rintro ⟨k, -, h⟩
        simp [routeAt] at h
      simp only [leftoverFrom, hno, not_false_eq_true, true_and]
  | cons current rest ih =>
      intro path last
      rw [leftoverFrom, ih, adjacentRoutes_cons, not_or]
      cases hl : last.route <;> cases hc : current.route <;>
        simp [routingPath_ne_nullPath]

/-- The first loop leaves the marker exactly if no two neighbouring cycles have a path. -/
theorem leftoverPath_eq_nullPath (cycles : List (Cycle K)) :
    leftoverPath cycles = nullPath ↔ ¬ AdjacentRoutes cycles := by
  cases cycles with
  | nil =>
      refine iff_of_true rfl ?_
      rintro ⟨k, h, -⟩
      simp [routeAt] at h
  | cons first rest => simp only [leftoverPath, leftoverFrom_eq_nullPath, and_true]

/-! ## The two decisions agree -/

section Runs

variable [Field K] [LinearOrder K]
variable {n : Nat} {d : Nat → K} {cycles : List (Cycle K)} {handovers : List Nat}
  {g : Globals K} {vs : List (CycleVisit K)} {k : Nat} {v : CycleVisit K}

/-- **The two decisions agree.**  For every list of cycles, in every cycle behind the first
that is processed without an exception, `handovers[k]` is 1 exactly if the run phase
has a set of handover nodes that is not empty. -/
theorem decisions_agree (hpre : precomputeHandovers Globals.start cycles = .ok (handovers, g))
    (hrun : updatePrecomputedLink n d cycles = .ok vs) (hk : 1 ≤ k) (hv : vs[k]? = some v)
    {t : Globals K} (hdone : v.done.result = .ok t) :
    handovers[k]? = some 1 ↔ Interrupted v.done.log := by
  rw [run_eq hpre, Except.ok.injEq] at hrun
  subst hrun
  obtain ⟨j, rfl⟩ := Nat.exists_eq_add_of_le' hk
  obtain ⟨hlt, -, hd⟩ := visit_input hv
  rw [hd] at hdone ⊢
  rw [interrupted_cycleBody (shows_of_visit hv) hdone]
  exact precomputeHandovers_ok hpre hlt

theorem decisions_agree_threeCycles : ∃ vs v t handovers g,
    precomputeHandovers Globals.start threeCycles = .ok (handovers, g) ∧
    updatePrecomputedLink 4 (fun _ => 0) threeCycles = .ok vs ∧ vs[2]? = some v ∧
    v.done.result = .ok t ∧ (handovers[2]? = some 1 ↔ Interrupted v.done.log) :=
  have hrun : updatePrecomputedLink 4 (fun _ => 0) threeCycles = .ok _ := rfl
  ⟨_, _, _, _, _, rfl, hrun, rfl, rfl, decisions_agree rfl hrun (by decide) rfl rfl⟩

/-! ## Compared with the true predecessor -/

/-- The cycle before cycle `k`, if there is one and it has a route. -/
def previousRoute (cycles : List (Cycle K)) : Nat → Option (Route K)
  | 0 => none
  | k + 1 => routeAt cycles k

/-- Cycle `k` gets past the check of its number and has the route `r`. -/
def Reaches (cycles : List (Cycle K)) (k : Nat) (r : Route K) : Prop :=
  ∃ c, cycles[k]? = some c ∧ c.cycle = k + 1 ∧ c.route = some r

/-- Cycle `k`, if it has a route, is compared with the path and the delays of the cycle
before it, and with the marker if that has none; in that case it simulates no handover
between satellites. -/
def TruePredecessor (cycles : List (Cycle K)) (k : Nat) (v : CycleVisit K) : Prop :=
  ∀ r, Reaches cycles k r →
    (v.before.shift r).lastRoutingPath = (previousRoute cycles k).elim nullPath routingPath ∧
    (v.before.shift r).lastNodeDelay = (previousRoute cycles k).map Route.nodeDelay ∧
    (previousRoute cycles k = none → ∀ group, .simulateLinkBreaks group ∈ v.done.log → group = [])

/-- Compared with the marker, no link between satellites has a handover. -/
theorem groups_of_nullPath {env : Env K} {index : Nat} {r : Route K} {group : List Nat}
    (hg : g.currentRoutingPath = nullPath)
    (hm : .simulateLinkBreaks group ∈ (withRoute env index g r).log) : group = [] := by
  cases hp : planHandovers env.intermediateHopNum (g.shift r) r.nodeDelay with
  | error e => rw [withRoute_of_error hp] at hm; simp at hm
  | ok plan =>
      have hplan := hp
      simp only [planHandovers, bind_eq_ok, Except.ok.injEq] at hplan
      obtain ⟨ends, -, arr, harr, rfl⟩ := hplan
      have hzero : 1 ∉ arr := by
        intro h1
        have : inner (g.shift r).lastRoutingPath = [] := by
          show inner g.currentRoutingPath = []
          rw [hg]
          rfl
        exact absurd (computeLinkDelta_of_inner_nil this harr 1 h1) Nat.one_ne_zero
      have hnil := mt handoverGroups_eq_nil.mp hzero
      push Not at hnil
      rw [withRoute_of_ok hp] at hm
      rcases List.mem_cons.mp hm with hm | hm
      · cases hm
      rcases List.mem_append.mp hm with hm | hm
      · exact absurd hm (by simp only [delayedReport]; split <;> simp)
      rcases List.mem_append.mp hm with hm | hm
      · simp only [interruptions, hnil.1, hnil.2, List.mem_cons, Cmd.simulateLinkBreaks.injEq,
          reduceCtorEq, List.not_mem_nil, or_false, or_self] at hm
        exact hm
      · exact absurd (linkSetting_of_layPath hm) (by simp [Cmd.linkSetting?])

/-- Globals that show the predecessor are all a cycle needs. -/
theorem truePredecessor_of_shows {env : Env K}
    (hshow : v.before.Shows (previousRoute env.linkInfo k))
    (hd : v.done = cycleBody env v.before k) : TruePredecessor env.linkInfo k v := by
  rintro r ⟨c, hc, hn, hr⟩
  refine ⟨hshow.1, hshow.2, fun hnone group hm => ?_⟩
  rw [hd, cycleBody_some hc hn hr] at hm
  rw [hnone] at hshow
  rcases List.mem_append.mp hm with hm | hm
  · simp only [aheadReports, List.mem_append] at hm
    rcases hm with (hm | hm) | hm <;> cases mem_lookAheadReport hm
  · exact groups_of_nullPath hshow.1 hm

/-- **Each cycle is compared with its true predecessor** in every cycle of a run, exactly
unless the first cycle has a path and some two neighbouring cycles have one. -/
theorem truePredecessor_iff (hrun : updatePrecomputedLink n d cycles = .ok vs) :
    (∀ k v, vs[k]? = some v → TruePredecessor cycles k v) ↔
      ¬ ((∃ r, Reaches cycles 0 r) ∧ AdjacentRoutes cycles) := by
  obtain ⟨handovers, g, hpre, rfl⟩ := run_of_ok hrun
  obtain ⟨hpath, hdelay⟩ := precomputeHandovers_globals hpre
  constructor
  · rintro hall ⟨⟨r, hr⟩, hadj⟩
    have hx : (List.range cycles.length)[0]? = some 0 := by
      obtain ⟨c, hc, -⟩ := hr
      exact List.getElem?_range (List.getElem?_eq_some_iff.mp hc).1
    obtain ⟨v, hv, -, hbefore⟩ :=
      Logged.visits_first (cycleBody ⟨cycles, d, handovers, n⟩) g hx
    have hfirst := (hall 0 v hv r hr).1
    rw [Globals.shift, hbefore] at hfirst
    exact (leftoverPath_eq_nullPath cycles).mp (hpath.symm.trans hfirst) hadj
  · intro hcond k v hv
    have hd := (visit_input hv).2.2
    cases k with
    | succ k => exact truePredecessor_of_shows (shows_of_visit hv) hd
    | zero =>
        intro r hr
        have hadj : ¬ AdjacentRoutes cycles := fun h => hcond ⟨⟨r, hr⟩, h⟩
        have hnull := (leftoverPath_eq_nullPath cycles).mpr hadj
        have hshow : v.before.Shows none := by
          rw [Logged.visits_zero hv]
          exact ⟨hpath.trans hnull, hdelay⟩
        exact truePredecessor_of_shows hshow hd r hr

theorem truePredecessor_iff_threeCycles : ∃ vs,
    updatePrecomputedLink 4 (fun _ => 0) threeCycles = .ok vs ∧
    ((∀ k v, vs[k]? = some v → TruePredecessor threeCycles k v) ↔
      ¬ ((∃ r, Reaches threeCycles 0 r) ∧ AdjacentRoutes threeCycles)) :=
  ⟨_, rfl, truePredecessor_iff rfl⟩

/-- Two cycles with a path; the second has a satellite more. -/
def twoPaths : List (Cycle Rat) :=
  [⟨1, some ⟨[-1, 1, 2, -2], 4, [1, 2, 1], 4⟩⟩, ⟨2, some ⟨[-1, 1, 3, 2, -2], 5, [1, 1, 1, 1], 4⟩⟩]

/-- Their first cycle is compared with the second, and breaks a link between satellites. -/
theorem twoPaths_not_truePredecessor : ∃ vs v,
    updatePrecomputedLink 5 (fun _ => 0) twoPaths = .ok vs ∧ vs[0]? = some v ∧
    ¬ TruePredecessor twoPaths 0 v ∧ .simulateLinkBreaks [1] ∈ v.done.log := by
  refine ⟨_, _, rfl, rfl, ?_, by decide⟩
  intro h
  have hlast := (h _ ⟨_, rfl, rfl, rfl⟩).1
  revert hlast
  decide

end Runs

end LeoEM
