/-
# `Route.Scenario` — the two scripts, from positions to cycle inputs

Both scripts scan the satellites for those that cover a user (`scanUser`).  They differ
in the graph: the laser script links satellites where the delay matrix of the cycle is
positive (`islEdges`), the bent-pipe script links a satellite with each ground station
it covers (`bpEdges`).  A `Scenario` is what a run of either is given.
-/
import LeoEM.Route.Writer

namespace LeoEM

variable {n : Nat} {K : Type}

/-- The script that is run: with the delay matrices of the cycles, in milliseconds, or
with the ground stations. -/
inductive Script (n : Nat) (K : Type) where
  /-- `precompute_path_15s_isl.py` -/
  | isl (delay : Nat → Fin n → Fin n → K)
  /-- `precompute_path_15s_bp.py` -/
  | bp (groundStations : List (Point K))

/-- A run is given the two test locations, the coverage limit, and the positions of the
satellites; its cycles are counted from 0 here. -/
structure Scenario (n : Nat) (K : Type) where
  test1 : Point K
  test2 : Point K
  L : K
  position : Nat → Fin n → Point K
  script : Script n K

/-- The location of a user. -/
def Scenario.test (sc : Scenario n K) : User → Point K
  | .one => sc.test1
  | .two => sc.test2

section Scan

variable [Field K] [LinearOrder K] [MathSqrt K]

/-- One round of the scan for a user. -/
def scanStep (position : Fin n → Point K) (user : Point K) (L : K) (v : View n K) (i : Fin n) :
    View n K :=
  if checkSatCoverGroundStation (position i) user L then
    v.see ⟨computeLatency (position i) user, i⟩
  else v

/-- The scan for a user, over all satellites. -/
def scanUser (position : Fin n → Point K) (user : Point K) (L : K) : View n K :=
  (List.finRange n).foldl (scanStep position user L) View.empty

omit [MathSqrt K] in
/-- The edges of the laser script. -/
def islEdges (delay : Fin n → Fin n → K) : List (Nat × Nat × K) :=
  (List.finRange n).flatMap fun i => (List.finRange n).filterMap fun j =>
    if i < j ∧ 0 < delay i j then some ((i : Nat), (j : Nat), delay i j / 1000) else none

/-- The edges of the bent-pipe script; a ground station has its number behind the
satellites'. -/
def bpEdges (position : Fin n → Point K) (groundStations : List (Point K)) (L : K) :
    List (Nat × Nat × K) :=
  (List.finRange n).flatMap fun i => groundStations.zipIdx.filterMap fun x =>
    if checkSatCoverGroundStation (position i) x.1 L then
      some ((i : Nat), x.2 + n, computeLatency (position i) x.1)
    else none

/-- The graph of a cycle. -/
def Scenario.graph (sc : Scenario n K) (k : Nat) : WGraph Nat K :=
  match sc.script with
  | .isl delay => ⟨List.range n, islEdges (delay k)⟩
  | .bp stations => ⟨List.range (n + stations.length), bpEdges (sc.position k) stations sc.L⟩

/-- The input of cycle `k`. -/
def Scenario.cycleInput (sc : Scenario n K) (k : Nat) : CycleInput n K where
  view1 := scanUser (sc.position k) sc.test1 sc.L
  view2 := scanUser (sc.position k) sc.test2 sc.L
  graph := sc.graph k
  nodes i := by
    rw [Scenario.graph]
    split
    · exact List.mem_range.mpr i.isLt
    · exact List.mem_range.mpr (Nat.lt_add_right _ i.isLt)

/-- A run over a number of cycles. -/
def Scenario.run (nx : NetworkX K) (delay : Scalar K) (sc : Scenario n K) (cycles : Nat) :
    List (RouteVisit n K) :=
  routeRun nx delay ((List.range cycles).map sc.cycleInput)

/-! ## What the scan sees -/

theorem foldl_scanStep (position : Fin n → Point K) (user : Point K) (L : K) :
    ∀ (ids : List (Fin n)) (v : View n K),
      (ids.foldl (scanStep position user L) v).inView = v.inView ++
        (ids.filter fun i => checkSatCoverGroundStation (position i) user L).map
          fun i => ⟨computeLatency (position i) user, i⟩ := by
  intro ids
  induction ids with
  | nil => intro v; exact (List.append_nil _).symm
  | cons i ids ih =>
      intro v
      rw [List.foldl_cons, ih, scanStep]
      cases h : checkSatCoverGroundStation (position i) user L with
      | true => simp [View.see, h]
      | false => simp [h]

/-- **A satellite is in view exactly if it covers the user**, with its latency. -/
theorem mem_scanUser {position : Fin n → Point K} {user : Point K} {L : K} {s : Sat n K} :
    s ∈ (scanUser position user L).inView ↔
      checkSatCoverGroundStation (position s.id) user L = true ∧
        s.latency = computeLatency (position s.id) user := by
  rw [scanUser, foldl_scanStep]
  simp only [View.empty, List.nil_append, List.mem_map, List.mem_filter, List.mem_finRange,
    true_and]
  constructor
  · rintro ⟨i, hi, rfl⟩
    exact ⟨hi, rfl⟩
  · rintro ⟨hc, hl⟩
    obtain ⟨latency, i⟩ := s
    exact ⟨i, hc, by rw [show latency = _ from hl]⟩

theorem mem_view {sc : Scenario n K} {k : Nat} {u : User} {s : Sat n K} :
    s ∈ ((sc.cycleInput k).view u).inView ↔
      checkSatCoverGroundStation (sc.position k s.id) (sc.test u) sc.L = true ∧
        s.latency = computeLatency (sc.position k s.id) (sc.test u) := by
  cases u <;> exact mem_scanUser

variable {nx : NetworkX K} {delay : Scalar K} {sc : Scenario n K} {cycles k : Nat}
  {v : RouteVisit n K}

/-- Visit `k` of a run is the visit of cycle `k`, and writes its line. -/
theorem run_visit (hv : (sc.run nx delay cycles)[k]? = some v) :
    v.input.1 = sc.cycleInput k ∧
      v.done.log = lineWrites delay v.input.2 (lineRoute nx v.input.1 v.before) := by
  obtain ⟨hx, -⟩ := routeRun_input hv
  refine ⟨?_, routeRun_log hv⟩
  rw [List.getElem?_map] at hx
  obtain ⟨i, hi, heq⟩ := Option.map_eq_some_iff.mp hx
  obtain ⟨hlt, hik⟩ := List.getElem?_eq_some_iff.mp hi
  rw [List.getElem_range] at hik
  rw [← heq, hik]

end Scan

end LeoEM
