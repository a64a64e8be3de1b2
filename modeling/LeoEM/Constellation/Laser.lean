/-
# `Constellation.Laser` — laser routing does not fail

Every satellite but the first has a neighbour with a smaller number, in its plane or in
the plane before (`neighbour_below`), whether or not the seam is closed.  So the graph of
the laser script is connected, any two satellites in view are a pair the gateway selection
can fall back on, and a cycle in which both users see a satellite has a route
(`laser_never_null`).
-/
import LeoEM.Constellation.Grid

namespace LeoEM

section Connected

variable {P n : Nat}

/-- Every satellite but the first is linked with one before it. -/
theorem neighbour_below {polar : Prop} {a : Nat} (hn : 1 ≤ n) (ha : 0 < a) :
    ∃ b, b < a ∧ Specified P n polar b a := by
  have hmod : a % n < n := Nat.mod_lt a hn
  have hsplit : a = a / n * n + a % n := (eq_slot_iff hmod).mpr ⟨rfl, rfl⟩
  rcases Nat.eq_zero_or_pos (a % n) with hzero | hpos
  · -- the first slot of a plane: the same slot one plane before
    have hplane : 1 ≤ a / n := by
      rcases Nat.eq_zero_or_pos (a / n) with h | h
      · rw [h, hzero] at hsplit
        omega
      · exact h
    have hslot := (eq_slot_iff (Nat.lt_of_lt_of_le Nat.zero_lt_one hn)).mp
      (rfl : (a / n - 1) * n + 0 = (a / n - 1) * n + 0)
    have hlt : (a / n - 1) * n + 0 < a := by
      have hmul : (a / n - 1) * n < a / n * n := Nat.mul_lt_mul_of_pos_right (by omega) hn
      omega
    refine ⟨_, hlt, Nat.ne_of_lt hlt, Or.inl (Or.inr (Or.inl ⟨?_, ?_⟩))⟩
    · rw [hslot.1]
      omega
    · rw [hslot.2, hzero]
  · have hslot := (eq_slot_iff (show a % n - 1 < n by omega)).mp
      (rfl : a / n * n + (a % n - 1) = a / n * n + (a % n - 1))
    have hlt : a / n * n + (a % n - 1) < a := by omega
    refine ⟨_, hlt, Nat.ne_of_lt hlt, Or.inl (Or.inl ⟨hslot.1.symm, ?_⟩)⟩
    rw [hslot.2, Nat.sub_add_cancel hpos, Nat.mod_mod]

variable {K : Type} [Field K] [LinearOrder K] [IsStrictOrderedRing K] [MathSqrt K] [LawfulSqrt K]
  {noFac : Nat} {position : Nat → Point K} {inc : K}

theorem reachable_first (hP : 1 ≤ P) (hn : 1 ≤ n) (hdist : Distinct (P * n) position) :
    ∀ a, a < P * n →
      (islGraph (P * n) (createDelay (P * n) noFac P position inc)).toSimpleGraph.Reachable
        a 0 := by
  intro a
  induction a using Nat.strong_induction_on with
  | h a ih =>
      intro ha
      rcases Nat.eq_zero_or_pos a with rfl | hpos
      · exact .refl _
      · obtain ⟨b, hlt, hlink⟩ := @neighbour_below P n (Polar inc) a hn hpos
        have hadj : (islGraph (P * n)
            (createDelay (P * n) noFac P position inc)).toSimpleGraph.Adj b a :=
          (createDelay_adj hP hn hdist).mpr ⟨hlt.trans ha, ha, hlink⟩
        exact hadj.symm.reachable.trans (ih b hlt (hlt.trans ha))

/-- **The graph of the laser script is connected**, with or without a seam. -/
theorem createDelay_reachable (hP : 1 ≤ P) (hn : 1 ≤ n) (hdist : Distinct (P * n) position)
    {a b : Nat} (ha : a < P * n) (hb : b < P * n) :
    (islGraph (P * n) (createDelay (P * n) noFac P position inc)).toSimpleGraph.Reachable a b :=
  (reachable_first hP hn hdist a ha).trans (reachable_first hP hn hdist b hb).symm

end Connected

/-! ## The run -/

variable {K : Type} [Field K] [LinearOrder K] [MathSqrt K]

/-- A run of the laser script over a constellation; `position k` has the satellites of cycle
`k` from 1 on, and the facilities behind them. -/
def laserScenario (p : Parameter K) (noFac : Nat) (position : Nat → Nat → Point K)
    (test1 test2 : Point K) (L : K) : Scenario p.noLeo K where
  test1 := test1
  test2 := test2
  L := L
  position k i := position k (i + 1)
  script := .isl fun k => savedDelay p.noLeo (buildConstellation p noFac (position k))

/-- The user sees a satellite in cycle `k`. -/
def Scenario.Sees {N : Nat} (sc : Scenario N K) (k : Nat) (u : User) : Prop :=
  ∃ i, checkSatCoverGroundStation (sc.position k i) (sc.test u) sc.L = true

theorem exists_inView {N : Nat} {sc : Scenario N K} {k : Nat} {u : User} (h : sc.Sees k u) :
    ∃ s, s ∈ ((sc.cycleInput k).view u).inView := by
  obtain ⟨i, hi⟩ := h
  exact ⟨⟨computeLatency (sc.position k i) (sc.test u), i⟩, mem_view.mpr ⟨hi, rfl⟩⟩

/-- Where all satellites are connected, a cycle in which both users see one has a route. -/
theorem lineRoute_of_reachable {N : Nat} (nx : NetworkX K) {sc : Scenario N K} {k : Nat}
    (hreach : ∀ i j : Fin N, (sc.graph k).toSimpleGraph.Reachable i j)
    (hsees : ∀ u, sc.Sees k u) (st : GatewayState N K) :
    ∃ r, SelectedRoute nx (sc.cycleInput k) st r ∧
      lineRoute nx (sc.cycleInput k) st = some r := by
  obtain ⟨s₁, h₁⟩ := exists_inView (hsees .one)
  obtain ⟨s₂, h₂⟩ := exists_inView (hsees .two)
  exact lineRoute_of_inView nx st h₁ h₂ (hreach s₁.id s₂.id)

/-- **Laser routing never fails while both users see a satellite.**  The graph of every cycle
connects all satellites; a cycle in which both users see a satellite is written with a path
between the gateways it selects, whatever it carries over; and a run makes every cycle. -/
theorem laser_never_null [IsStrictOrderedRing K] [LawfulSqrt K] (nx : NetworkX K)
    (delay : Scalar K) (p : Parameter K) (noFac : Nat) (position : Nat → Nat → Point K)
    (test1 test2 : Point K) (L : K) (hP : 1 ≤ p.leoPlane) (hn : 1 ≤ p.no)
    (hdist : ∀ k, Distinct p.noLeo (position k)) :
    let sc := laserScenario p noFac position test1 test2 L
    (∀ k a b, a < p.noLeo → b < p.noLeo → (sc.graph k).toSimpleGraph.Reachable a b) ∧
      (∀ k cycle (st : GatewayState p.noLeo K), (∀ u, sc.Sees k u) →
        ∃ r, SelectedRoute nx (sc.cycleInput k) st r ∧
          (routeCycle nx delay st (sc.cycleInput k, cycle)).log =
            lineWrites delay cycle (some r)) ∧
      ∀ cycles k, k < cycles → (∀ u, sc.Sees k u) →
        ∃ v r, (sc.run nx delay cycles)[k]? = some v ∧
          SelectedRoute nx (sc.cycleInput k) v.before r ∧
          v.done.log = lineWrites delay (k + 1 : Nat) (some r) := by
  intro sc
  have hreach : ∀ k a b, a < p.noLeo → b < p.noLeo → (sc.graph k).toSimpleGraph.Reachable a b :=
    fun k a b ha hb => createDelay_reachable hP hn (hdist k) ha hb
  have hline : ∀ k (st : GatewayState p.noLeo K), (∀ u, sc.Sees k u) →
      ∃ r, SelectedRoute nx (sc.cycleInput k) st r ∧
        lineRoute nx (sc.cycleInput k) st = some r := fun k st hsees =>
    lineRoute_of_reachable nx (fun i j => hreach k i j i.isLt j.isLt) hsees st
  refine ⟨hreach, ?_, ?_⟩
  · intro k cycle st hsees
    obtain ⟨r, hselected, hr⟩ := hline k st hsees
    exact ⟨r, hselected, by rw [routeCycle_eq, hr]⟩
  · intro cycles k hk hsees
    have hlen : k < (sc.run nx delay cycles).length := by
      rw [Scenario.run, routeRun_length, List.length_map, List.length_range]
      exact hk
    have hv := List.getElem?_eq_getElem hlen
    obtain ⟨hinp, hlog⟩ := run_visit hv
    obtain ⟨r, hselected, hr⟩ := hline k ((sc.run nx delay cycles)[k]).before hsees
    refine ⟨_, r, hv, hselected, ?_⟩
    rw [hlog, hinp, hr, (routeRun_input hv).2]

/-- Three planes of two satellites, and both users beside the first. -/
def sixSats : Scenario (3 * 2) Rat :=
  laserScenario ⟨53, 3, 2⟩ 0 (fun _ => inARow) ⟨0, 0, 0⟩ ⟨0, 0, 0⟩ 1

theorem sixSats_sees (k : Nat) (u : User) : sixSats.Sees k u := by
  have h : checkSatCoverGroundStation (inARow 1) ⟨0, 0, 0⟩ (1 : Rat) = true := by decide +kernel
  refine ⟨⟨0, by decide⟩, ?_⟩
  cases u <;> exact h

theorem laser_never_null_sixSats :
    ∃ v r, (sixSats.run WGraph.searchFinder Scalar.rat 20)[16]? = some v ∧
      SelectedRoute WGraph.searchFinder (sixSats.cycleInput 16) v.before r ∧
      v.done.log = lineWrites Scalar.rat (16 + 1 : Nat) (some r) :=
  (laser_never_null WGraph.searchFinder Scalar.rat ⟨53, 3, 2⟩ 0 (fun _ => inARow) ⟨0, 0, 0⟩
    ⟨0, 0, 0⟩ 1 (by decide) (by decide) fun _ => inARow_distinct 6).2.2 20 16 (by decide)
    (sixSats_sees 16)

end LeoEM
