/-
# `Route.Elevation` — what the coverage limit means on the ground

A run is given places by latitude, longitude and altitude, and two angles of the
constellation: the elevation on the ground and the depression at the satellite.  `lla2cbf`
puts the places around a centre, at 6371 km and their altitude, and `getCoverageLimitL` takes
the two angles and 550 km to the limit that `checkSatCoverGroundStation` compares a distance
with.  It computes with 6378 km.

Here numbers are real ones.  Then the limit is the range of the cone (`limit_sq`), and a
satellite covers a place exactly if it stands high enough above its horizon (`covers_iff`):
at 550 km the place sees it at the elevation that was given, or a little below.  So the two
radii cost no satellite, and no path is missed between satellites that stand high enough
(`elevation_serves`).
-/
import LeoEM.Base.Horizon
import LeoEM.Route.BentPipe
import LeoEM.Route.Nearest
import Mathlib.Analysis.InnerProductSpace.PiL2
import Mathlib.Analysis.SpecialFunctions.Trigonometric.Basic

namespace LeoEM

variable {n : Nat} {K : Type}

/-- `math.pi`, `math.sin`, `math.cos` and `math.tan` -/
class MathTrig (K : Type) where
  pi : K
  sin : K → K
  cos : K → K
  tan : K → K

/-- `(lat, long, alt)`, in degrees and metres. -/
structure Lla (K : Type) where
  lat : K
  long : K
  alt : K

section Places

variable [Field K] [MathTrig K]

open MathTrig

/-- `degToRad` -/
def degToRad (deg : K) : K := deg * pi / (180 : Nat)

/-- `lla2cbf`, and `Lla2Cbf.m` of the stage before. -/
def lla2cbf (position : Lla K) : Point K :=
  let R : K := (6371 * 10 ^ 3 : Nat)
  let r := R + position.alt
  let theta := pi / (2 : Nat) - position.lat * pi / (180 : Nat)
  let phi := (2 : Nat) * pi + position.long * pi / (180 : Nat)
  ⟨(r * sin theta) * cos phi, (r * sin theta) * sin phi, r * cos theta⟩

/-- `getCoverageLimitL` -/
def getCoverageLimitL [MathSqrt K] (elevation depression altitude : K) : K :=
  let R : K := (6378 * 10 ^ 3 : Nat)
  let gamma := (90 : Nat) - (elevation + depression)
  let l := R * sin (degToRad gamma)
  let theta := ((180 : Nat) - gamma) / (2 : Nat)
  let d := l / tan (degToRad theta)
  MathSqrt.sqrt ((altitude + d) ^ 2 + l ^ 2)

end Places

/-- A place on the ground: latitude and longitude. -/
structure Place (K : Type) where
  lat : K
  long : K

/-- The script that is run, with its ground stations as `ground_stations.xlsx` has them. -/
inductive PlacedScript (n : Nat) (K : Type) where
  | isl (delay : Nat → Fin n → Fin n → K)
  | bp (groundStations : List (Place K))

/-- What the scripts read: the test locations and the two angles from the command line, and
the positions of the satellites. -/
structure Survey (n : Nat) (K : Type) where
  test1 : Place K
  test2 : Place K
  depression : K
  elevation : K
  positions : Nat → Fin n → Lla K
  script : PlacedScript n K

namespace Survey

variable [Field K] [MathTrig K] [MathSqrt K]

/-- A place of altitude 0, as a point. -/
def point (p : Place K) : Point K := lla2cbf ⟨p.lat, p.long, 0⟩

def test (sv : Survey n K) : User → Place K
  | .one => sv.test1
  | .two => sv.test2

/-- `L` -/
def L (sv : Survey n K) : K :=
  getCoverageLimitL sv.elevation sv.depression (550 * 10 ^ 3 : Nat)

/-- The run of a survey. -/
def scenario (sv : Survey n K) : Scenario n K where
  test1 := point sv.test1
  test2 := point sv.test2
  L := sv.L
  position k i := lla2cbf (sv.positions k i)
  script := match sv.script with
    | .isl delay => .isl delay
    | .bp stations => .bp (stations.map point)

end Survey

/-! ## With real numbers -/

noncomputable instance : MathTrig ℝ := ⟨Real.pi, Real.sin, Real.cos, Real.tan⟩

open Real Horizon InnerProductGeometry

/-- The radius that `lla2cbf` puts the ground at. -/
noncomputable def groundRadius : ℝ := (6371 * 10 ^ 3 : Nat)

/-- The radius that `getCoverageLimitL` computes with. -/
noncomputable def coneRadius : ℝ := (6378 * 10 ^ 3 : Nat)

/-- A point as a vector from the centre. -/
noncomputable def Point.vec (p : Point ℝ) : EuclideanSpace ℝ (Fin 3) :=
  (EuclideanSpace.equiv (Fin 3) ℝ).symm ![p.x, p.y, p.z]

theorem Point.norm_vec_sub (a b : Point ℝ) :
    ‖a.vec - b.vec‖ = √((a.x - b.x) ^ 2 + (a.y - b.y) ^ 2 + (a.z - b.z) ^ 2) := by
  rw [EuclideanSpace.norm_eq, Fin.sum_univ_three]
  simp [Point.vec]

theorem Point.norm_vec_sq (a : Point ℝ) : ‖a.vec‖ ^ 2 = a.x ^ 2 + a.y ^ 2 + a.z ^ 2 := by
  rw [EuclideanSpace.norm_sq_eq, Fin.sum_univ_three]
  simp [Point.vec]

theorem Point.inner_vec (a b : Point ℝ) :
    inner ℝ a.vec b.vec = a.x * b.x + a.y * b.y + a.z * b.z := by
  rw [PiLp.inner_apply, Fin.sum_univ_three]
  simp [Point.vec, mul_comm]

/-- Covering is a range. -/
theorem checkSatCoverGroundStation_iff (sat gs : Point ℝ) (L : ℝ) :
    checkSatCoverGroundStation sat gs L = true ↔ ‖sat.vec - gs.vec‖ ≤ L := by
  rw [Point.norm_vec_sub]
  exact decide_eq_true_iff

/-- The cosine of the arc between two places of the globe. -/
noncomputable def arcCos (a b : Lla ℝ) : ℝ :=
  sin (degToRad a.lat) * sin (degToRad b.lat) +
    cos (degToRad a.lat) * cos (degToRad b.lat) * cos (degToRad a.long - degToRad b.long)

theorem lla2cbf_eq (a : Lla ℝ) : lla2cbf a =
    ⟨(groundRadius + a.alt) * cos (degToRad a.lat) * cos (degToRad a.long),
      (groundRadius + a.alt) * cos (degToRad a.lat) * sin (degToRad a.long),
      (groundRadius + a.alt) * sin (degToRad a.lat)⟩ := by
  simp only [lla2cbf, MathTrig.pi, MathTrig.sin, MathTrig.cos, degToRad, groundRadius,
    Nat.cast_ofNat, sin_pi_div_two_sub, cos_pi_div_two_sub, add_comm (2 * π), cos_add_two_pi,
    sin_add_two_pi]

theorem norm_lla2cbf (a : Lla ℝ) (halt : 0 ≤ a.alt) :
    ‖(lla2cbf a).vec‖ = groundRadius + a.alt := by
  have hpos : 0 ≤ groundRadius + a.alt := by
    rw [groundRadius]
    positivity
  refine (sq_eq_sq₀ (norm_nonneg _) hpos).mp ?_
  rw [Point.norm_vec_sq, lla2cbf_eq]
  have hlat := sin_sq_add_cos_sq (degToRad a.lat)
  have hlong := sin_sq_add_cos_sq (degToRad a.long)
  linear_combination (groundRadius + a.alt) ^ 2 * hlat +
    ((groundRadius + a.alt) * cos (degToRad a.lat)) ^ 2 * hlong

theorem cos_angle_lla2cbf (a b : Lla ℝ) (ha : 0 ≤ a.alt) (hb : 0 ≤ b.alt) :
    cos (angle (lla2cbf a).vec (lla2cbf b).vec) = arcCos a b := by
  have hground : 0 < groundRadius := by
    rw [groundRadius]
    positivity
  rw [cos_angle, norm_lla2cbf a ha, norm_lla2cbf b hb, Point.inner_vec,
    div_eq_iff (by positivity), lla2cbf_eq, lla2cbf_eq, arcCos, cos_sub]
  ring

/-! ## The limit -/

section Limit

variable {elevation depression altitude : ℝ}

/-- The angle of the cone at the centre, in degrees. -/
def coneAngle (elevation depression : ℝ) : ℝ := (90 : Nat) - (elevation + depression)

/-- What is under the ground between the ends of the chord. -/
theorem coneDepth_eq {gamma : ℝ} (hlo : -180 < gamma) (hhi : gamma < 180) :
    coneRadius * sin (degToRad gamma) / tan (degToRad ((180 - gamma) / 2)) =
      coneRadius * (1 - cos (degToRad gamma)) := by
  obtain ⟨x, hx⟩ : ∃ x, x = degToRad gamma / 2 := ⟨_, rfl⟩
  have hgamma : degToRad gamma = 2 * x := by rw [hx]; ring
  have htheta : degToRad ((180 - gamma) / 2) = π / 2 - x := by
    rw [hx]
    simp only [degToRad, MathTrig.pi, Nat.cast_ofNat]
    ring
  have hcos : 0 < cos x := by
    have hπ := pi_pos
    simp only [degToRad, MathTrig.pi, Nat.cast_ofNat] at hx
    refine cos_pos_of_mem_Ioo ⟨?_, ?_⟩ <;> rw [hx] <;> nlinarith
  rw [hgamma, htheta, tan_pi_div_two_sub, div_inv_eq_mul, tan_eq_sin_div_cos, sin_two_mul,
    cos_two_mul]
  field_simp
  linear_combination 2 * coneRadius * sin_sq_add_cos_sq x

/-- **The limit is the range of the cone.** -/
theorem limit_sq (hlo : -90 < elevation + depression) (hhi : elevation + depression < 270) :
    getCoverageLimitL elevation depression altitude ^ 2 = chordSq (coneRadius + altitude)
      coneRadius (cos (degToRad (coneAngle elevation depression))) := by
  have hangle : -180 < coneAngle elevation depression ∧ coneAngle elevation depression < 180 := by
    rw [coneAngle, Nat.cast_ofNat]
    constructor <;> linarith
  have hdepth := coneDepth_eq hangle.1 hangle.2
  have hsq := sin_sq_add_cos_sq (degToRad (coneAngle elevation depression))
  have hlimit : getCoverageLimitL elevation depression altitude =
      √((altitude + coneRadius * (1 - cos (degToRad (coneAngle elevation depression)))) ^ 2 +
        (coneRadius * sin (degToRad (coneAngle elevation depression))) ^ 2) := by
    rw [← hdepth, getCoverageLimitL, Nat.cast_ofNat]
    rfl
  rw [hlimit, sq_sqrt (by positivity), chordSq_eq]
  linear_combination coneRadius ^ 2 * hsq

theorem limit_ge (haltitude : 0 ≤ altitude) (hlo : -90 < elevation + depression)
    (hhi : elevation + depression < 270) :
    altitude ≤ getCoverageLimitL elevation depression altitude := by
  have hnonneg : 0 ≤ getCoverageLimitL elevation depression altitude := sqrt_nonneg _
  refine (sq_le_sq₀ haltitude hnonneg).mp ?_
  rw [limit_sq hlo hhi, chordSq_eq]
  have hcos := cos_le_one (degToRad (coneAngle elevation depression))
  have hradius : 0 < coneRadius := by
    rw [coneRadius]
    positivity
  have := mul_nonneg (mul_nonneg (mul_nonneg zero_le_two hradius.le)
    (add_nonneg hradius.le haltitude)) (sub_nonneg.mpr hcos)
  nlinarith

end Limit

/-! ## What the places see -/

namespace Survey

variable (sv : Survey n ℝ)

/-- The altitude that the limit is computed for. -/
noncomputable def nominal : ℝ := (550 * 10 ^ 3 : Nat)

/-- The elevation at which a place sees a satellite in cycle `k`. -/
noncomputable def seenAt (k : Nat) (p : Place ℝ) (i : Fin n) : ℝ :=
  Horizon.elevation (sv.scenario.position k i).vec (point p).vec

/-- The sine of the elevation from which on a satellite of that altitude is covered. -/
noncomputable def leastSine (altitude : ℝ) : ℝ :=
  Horizon.leastSine (groundRadius + altitude) groundRadius sv.L

/-- The satellite stands high enough. -/
def Sees (k : Nat) (p : Place ℝ) (i : Fin n) : Prop :=
  sv.leastSine (sv.positions k i).alt ≤ sin (sv.seenAt k p i)

/-- The arc to the satellite is no longer than the cone reaches. -/
def WithinArc (k : Nat) (p : Place ℝ) (i : Fin n) : Prop :=
  chordSq (groundRadius + (sv.positions k i).alt) groundRadius
      (arcCos (sv.positions k i) ⟨p.lat, p.long, 0⟩) ≤
    chordSq (coneRadius + nominal) coneRadius
      (cos (degToRad (coneAngle sv.elevation sv.depression)))

/-- The angles of a cone, and satellites above the ground. -/
structure Valid : Prop where
  lo : -90 < sv.elevation + sv.depression
  hi : sv.elevation + sv.depression < 270
  sky : ∀ k i, 0 < (sv.positions k i).alt

/-- The two angles are of one triangle: from the ground and from the nominal altitude along
the same line of sight. -/
structure OneSight : Prop where
  elevation : 0 ≤ sv.elevation ∧ sv.elevation ≤ 90
  depression : 0 ≤ sv.depression ∧ sv.depression ≤ 90
  sine : (coneRadius + nominal) * sin (degToRad sv.depression) =
    coneRadius * cos (degToRad sv.elevation)

variable {sv} {k : Nat} {p : Place ℝ} {i : Fin n}

theorem groundRadius_pos : 0 < groundRadius := by
  rw [groundRadius]
  positivity

theorem nominal_pos : 0 < nominal := by
  rw [nominal]
  positivity

theorem L_sq (h : sv.Valid) : sv.L ^ 2 = chordSq (coneRadius + nominal) coneRadius
    (cos (degToRad (coneAngle sv.elevation sv.depression))) := limit_sq h.lo h.hi

theorem nominal_le_L (h : sv.Valid) : nominal ≤ sv.L := limit_ge nominal_pos.le h.lo h.hi

theorem L_pos (h : sv.Valid) : 0 < sv.L := lt_of_lt_of_le nominal_pos (nominal_le_L h)

theorem norm_point (p : Place ℝ) : ‖(point p).vec‖ = groundRadius := by
  rw [point, norm_lla2cbf _ le_rfl, add_zero]

theorem norm_position (h : sv.Valid) (k : Nat) (i : Fin n) :
    ‖(sv.scenario.position k i).vec‖ = groundRadius + (sv.positions k i).alt :=
  norm_lla2cbf _ (h.sky k i).le

/-- **A satellite covers a place exactly if it stands high enough.** -/
theorem covers_iff (h : sv.Valid) :
    checkSatCoverGroundStation (sv.scenario.position k i) (point p) sv.L = true ↔
      sv.Sees k p i := by
  have hground := groundRadius_pos
  have hsky := h.sky k i
  rw [checkSatCoverGroundStation_iff, range_le_iff _ _ (L_pos h), norm_position h k i,
    norm_point p]
  · rfl
  · rw [norm_point]
    exact hground
  · rw [norm_point, norm_position h k i]
    linarith

/-- ... and exactly if it is over the ground that the cone reaches. -/
theorem covers_iff_arc (h : sv.Valid) :
    checkSatCoverGroundStation (sv.scenario.position k i) (point p) sv.L = true ↔
      sv.WithinArc k p i := by
  have hangle := cos_angle_lla2cbf (sv.positions k i) ⟨p.lat, p.long, 0⟩ (h.sky k i).le le_rfl
  have hrange := range_sq (sv.scenario.position k i).vec (point p).vec
  rw [norm_position h k i, norm_point p] at hrange
  rw [checkSatCoverGroundStation_iff, ← sq_le_sq₀ (norm_nonneg _) (L_pos h).le, hrange,
    L_sq h, WithinArc, ← hangle]
  exact Iff.rfl

/-- At the nominal altitude a covered satellite stands at the elevation that was given, but for
what the two radii differ by. -/
theorem leastSine_nominal (h : sv.Valid) (hsight : sv.OneSight) :
    sv.leastSine nominal = sin (degToRad sv.elevation) -
      (sv.L ^ 2 - nominal ^ 2) / (2 * sv.L) * (1 / groundRadius - 1 / coneRadius) := by
  have hL := L_pos h
  have hcone : 0 < coneRadius := by
    rw [coneRadius]
    positivity
  have hnominal := nominal_pos
  have hα := sin_sq_add_cos_sq (degToRad sv.elevation)
  have hβ := sin_sq_add_cos_sq (degToRad sv.depression)
  have hπ := pi_pos
  have hdown : 0 ≤ cos (degToRad sv.depression) := by
    obtain ⟨h₀, h₁⟩ := hsight.depression
    simp only [degToRad, MathTrig.pi, Nat.cast_ofNat]
    refine cos_nonneg_of_neg_pi_div_two_le_of_le ?_ ?_ <;> nlinarith
  have hcut : coneRadius * sin (degToRad sv.elevation) ≤
      (coneRadius + nominal) * cos (degToRad sv.depression) := by
    refine abs_le_of_sq_le_sq' ?_ (by positivity) |>.2
    have hsq := congrArg (· ^ 2) hsight.sine
    simp only [mul_pow] at hsq ⊢
    nlinarith
  have hangle : degToRad (coneAngle sv.elevation sv.depression) =
      π / 2 - (degToRad sv.elevation + degToRad sv.depression) := by
    simp only [degToRad, MathTrig.pi, coneAngle, Nat.cast_ofNat]
    ring
  have hrange : sv.L ^ 2 = chordSq (coneRadius + nominal) coneRadius
      (cos (π / 2 - (degToRad sv.elevation + degToRad sv.depression))) := by
    rw [L_sq h, hangle]
  have hsine := sight_least hcone hL hsight.sine hrange hcut
  have hground := groundRadius_pos
  rw [← hsine, leastSine, leastSine_eq, leastSine_eq]
  field_simp
  ring

theorem leastSine_nominal_le (h : sv.Valid) (hsight : sv.OneSight) :
    sv.leastSine nominal ≤ sin (degToRad sv.elevation) := by
  have hL := L_pos h
  have hlower := (sq_le_sq₀ nominal_pos.le hL.le).mpr (nominal_le_L h)
  have hradii : 0 ≤ 1 / groundRadius - 1 / coneRadius := by
    rw [groundRadius, coneRadius]
    norm_num
  rw [leastSine_nominal h hsight]
  have := mul_nonneg (div_nonneg (sub_nonneg.mpr hlower) (by positivity : 0 ≤ 2 * sv.L)) hradii
  linarith

/-! ## Runs -/

/-- The satellites in view of a user are those that stand high enough. -/
theorem mem_view_iff (h : sv.Valid) {u : User} :
    (∃ s ∈ ((sv.scenario.cycleInput k).view u).inView, s.id = i) ↔ sv.Sees k (sv.test u) i := by
  have htest : sv.scenario.test u = point (sv.test u) := by cases u <;> rfl
  rw [← covers_iff h]
  constructor
  · rintro ⟨s, hs, rfl⟩
    exact htest ▸ (mem_view.mp hs).1
  · intro hcovers
    exact ⟨⟨computeLatency (sv.scenario.position k i) (sv.scenario.test u), i⟩,
      mem_view.mpr ⟨htest ▸ hcovers, rfl⟩, rfl⟩

/-- The hops of the bent-pipe script are those to satellites that stand high enough. -/
theorem adj_iff (h : sv.Valid) {stations : List (Place ℝ)} (hbp : sv.script = .bp stations)
    {j : Nat} (hp : stations[j]? = some p) :
    (sv.scenario.graph k).toSimpleGraph.Adj (i : Nat) (j + n) ↔ sv.Sees k p i := by
  have hscript : sv.scenario.script = .bp (stations.map point) := by
    rw [scenario, hbp]
  have hpoint : (stations.map point)[j]? = some (point p) := by
    rw [List.getElem?_map, hp, Option.map_some]
  rw [← covers_iff h]
  constructor
  · intro hadj
    obtain ⟨w, hw⟩ := WGraph.exists_weight hadj
    obtain ⟨i', j', gs, hgs, hcov, -, hends⟩ := hop_of_weight hscript hw
    have hlt := i.isLt
    have hlt' := i'.isLt
    obtain rfl : i = i' := Fin.ext (by omega)
    obtain rfl : j = j' := by omega
    obtain rfl := Option.some.inj (hgs.symm.trans hpoint)
    exact hcov
  · intro hcovers
    have hne : (i : Nat) ≠ j + n := by
      have hlt := i.isLt
      omega
    refine ⟨hne, ((i : Nat), j + n, computeLatency (sv.scenario.position k i) (point p)), ?_,
      Or.inl ⟨rfl, rfl⟩⟩
    rw [Scenario.graph, hscript]
    exact mem_bpEdges.mpr ⟨i, j, point p, hpoint, hcovers, rfl⟩

end Survey

/-- **What stands high enough serves.**  For every survey, every cycle and every state that
the run may be in: a place sees a satellite high enough exactly over the ground that the cone
reaches; a user is given another satellite only among those that it sees so; if the cycle has
no path, no satellite that one user sees so is connected with one that the other does; the
bent-pipe script links a ground station with exactly those that it sees so.  For angles of one
line of sight, at the nominal altitude this begins at the elevation given, or a little below. -/
theorem elevation_serves (sv : Survey n ℝ) (hvalid : sv.Valid) (nx : NetworkX ℝ) :
    (∀ k p i, sv.Sees k p i ↔ sv.WithinArc k p i) ∧
    (∀ k st u, (selectGateways nx (sv.scenario.cycleInput k) st).resought u = true →
      ∀ s ∈ (selectGateways nx (sv.scenario.cycleInput k) st).gateway u,
        sv.Sees k (sv.test u) s.id) ∧
    (∀ k st, lineRoute nx (sv.scenario.cycleInput k) st = none →
      ∀ i j, sv.Sees k sv.test1 i → sv.Sees k sv.test2 j →
        ¬ (sv.scenario.graph k).toSimpleGraph.Reachable i j) ∧
    (∀ k stations, sv.script = .bp stations → ∀ i j p, stations[j]? = some p →
      ((sv.scenario.graph k).toSimpleGraph.Adj (i : Fin n) (j + n) ↔ sv.Sees k p i)) ∧
    (sv.OneSight → sv.leastSine Survey.nominal = sin (degToRad sv.elevation) -
        (sv.L ^ 2 - Survey.nominal ^ 2) / (2 * sv.L) * (1 / groundRadius - 1 / coneRadius) ∧
      sv.leastSine Survey.nominal ≤ sin (degToRad sv.elevation)) := by
  refine ⟨fun k p i => ?_, fun k st u hr s hs => ?_, fun k st hnone i j hi hj hreach => ?_,
    fun k stations hbp i j p hp => Survey.adj_iff hvalid hbp hp, fun hsight =>
      ⟨Survey.leastSine_nominal hvalid hsight, Survey.leastSine_nominal_le hvalid hsight⟩⟩
  · rw [← Survey.covers_iff hvalid, Survey.covers_iff_arc hvalid]
  · have hmem := ((selection_sound nx (sv.scenario.cycleInput k) st u).resought hr).2 s hs
    exact (Survey.mem_view_iff hvalid).mp ⟨s, hmem, rfl⟩
  · obtain ⟨s₁, h₁, rfl⟩ := (Survey.mem_view_iff (u := User.one) hvalid).mpr hi
    obtain ⟨s₂, h₂, rfl⟩ := (Survey.mem_view_iff (u := User.two) hvalid).mpr hj
    have hc := selection_connected nx st h₁ h₂ hreach
    rcases lineRoute_cases nx (sv.scenario.cycleInput k) st with
      ⟨_, _, r, _, _, -, -, hline, -⟩ | ⟨hno, -⟩
    · rw [hnone] at hline
      cases hline
    · exact hno hc

/-- One satellite, over both users, with the depression of the sight at 40 degrees. -/
noncomputable def overhead : Survey 1 ℝ where
  test1 := ⟨0, 0⟩
  test2 := ⟨0, 0⟩
  depression := arcsin (coneRadius * cos (degToRad (40 : Nat)) / (coneRadius + Survey.nominal)) *
    (180 : Nat) / π
  elevation := (40 : Nat)
  positions _ _ := ⟨0, 0, (550 * 10 ^ 3 : Nat)⟩
  script := .isl fun _ _ _ => 0

theorem degToRad_of_rad (x : ℝ) : degToRad (x * (180 : Nat) / π) = x := by
  have hπ := pi_ne_zero
  simp only [degToRad, MathTrig.pi, Nat.cast_ofNat]
  field_simp

theorem sight_ratio : 0 ≤ coneRadius * cos (degToRad (40 : Nat)) / (coneRadius + Survey.nominal) ∧
    coneRadius * cos (degToRad (40 : Nat)) / (coneRadius + Survey.nominal) ≤ 1 := by
  have hradius : 0 < coneRadius := by
    rw [coneRadius]
    positivity
  have hnominal := Survey.nominal_pos
  have hπ := pi_pos
  have hcos : 0 ≤ cos (degToRad (40 : Nat)) := by
    simp only [degToRad, MathTrig.pi, Nat.cast_ofNat]
    refine cos_nonneg_of_neg_pi_div_two_le_of_le ?_ ?_ <;> linarith
  refine ⟨by positivity, (div_le_one (by positivity)).mpr ?_⟩
  have := mul_le_mul_of_nonneg_left (cos_le_one (degToRad (40 : Nat))) hradius.le
  linarith

theorem overhead_oneSight : overhead.OneSight where
  elevation := by norm_num [overhead]
  depression := by
    have hπ := pi_pos
    have hlo := arcsin_nonneg.mpr sight_ratio.1
    have hhi := arcsin_le_pi_div_two
      (coneRadius * cos (degToRad (40 : Nat)) / (coneRadius + Survey.nominal))
    refine ⟨by rw [overhead]; positivity, ?_⟩
    rw [overhead, div_le_iff₀ hπ, Nat.cast_ofNat]
    linarith
  sine := by
    have hsum : coneRadius + Survey.nominal ≠ 0 := by
      rw [coneRadius, Survey.nominal]
      positivity
    rw [overhead, degToRad_of_rad, sin_arcsin (by linarith [sight_ratio.1]) sight_ratio.2]
    field_simp

theorem overhead_valid : overhead.Valid where
  lo := by
    have := overhead_oneSight.depression.1
    have := overhead_oneSight.elevation.1
    linarith
  hi := by
    have := overhead_oneSight.depression.2
    have := overhead_oneSight.elevation.2
    linarith
  sky _ _ := by norm_num [overhead]

/-- It is seen by the first, and would be from a little below 40 degrees on. -/
theorem elevation_serves_overhead : overhead.Sees 0 overhead.test1 0 ∧
    overhead.leastSine Survey.nominal ≤ sin (degToRad overhead.elevation) := by
  have hserves := elevation_serves overhead overhead_valid WGraph.searchFinder
  refine ⟨(hserves.1 0 overhead.test1 0).mpr ?_, (hserves.2.2.2.2 overhead_oneSight).2⟩
  have harc : arcCos (overhead.positions 0 0) ⟨overhead.test1.lat, overhead.test1.long, 0⟩ = 1 := by
    simp [arcCos, overhead, degToRad]
  have hcos := cos_le_one (degToRad (coneAngle overhead.elevation overhead.depression))
  have hradius : 0 ≤ 2 * coneRadius * (coneRadius + Survey.nominal) := by
    rw [coneRadius, Survey.nominal]
    positivity
  rw [Survey.WithinArc, harc, chordSq_eq, chordSq_eq, sub_self, mul_zero, add_zero,
    add_sub_cancel_left, show (overhead.positions 0 0).alt = Survey.nominal from rfl,
    add_sub_cancel_left]
  exact le_add_of_nonneg_right (mul_nonneg hradius (sub_nonneg.mpr hcos))

end LeoEM
