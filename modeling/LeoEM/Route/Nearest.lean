/-
# `Route.Nearest` — the measure by which a satellite is nearest

The scan keeps the first of the covered satellites with the least latency
(`scanUser_nearest`).  A satellite is covered by its distance, over the three
coordinates, and has its latency from a length that takes the second coordinate twice
and leaves the third out, `squaredLatency`.  The two lengths of a pair of points are
the same exactly if the points differ as much in the second coordinate as in the
third; and the satellite of the scan is the nearest one exactly if the first of the
least by the one measure is least by the other (`nearest_iff`).
-/
import LeoEM.Base.ArgMin
import LeoEM.Route.Coverage
import Mathlib.Analysis.Real.Sqrt

namespace LeoEM

variable {n : Nat} {K : Type} [Field K] [LinearOrder K]

/-- The square of the distance of two points. -/
def squaredDistance (a b : Point K) : K := (a.x - b.x) ^ 2 + (a.y - b.y) ^ 2 + (a.z - b.z) ^ 2

/-- The square of the length that `computeLatency` divides. -/
def squaredLatency (a b : Point K) : K := (a.x - b.x) ^ 2 + (a.y - b.y) ^ 2 + (a.y - b.y) ^ 2

/-- What is assumed of `math.sqrt`: a larger number has a larger root. -/
class MonotoneSqrt (K : Type) [Field K] [LinearOrder K] [MathSqrt K] : Prop where
  sqrt_lt : ∀ {a b : K}, 0 ≤ a → a < b → MathSqrt.sqrt a < MathSqrt.sqrt b

variable [MathSqrt K]

/-- The length that `computeLatency` divides is the distance that
`checkSatCoverGroundStation` compares. -/
def DistanceAgrees (a b : Point K) : Prop :=
  computeLatency a b * (3 * 10 ^ 8 : Nat) = MathSqrt.sqrt (squaredDistance a b)

/-- The satellites that cover a user, in the order of the scan. -/
def coveredIds (position : Fin n → Point K) (user : Point K) (L : K) : List (Fin n) :=
  (List.finRange n).filter fun i => checkSatCoverGroundStation (position i) user L

/-- The scan returns a covered satellite, and none covered is nearer to the user; or none, if
none is covered. -/
def ScanNearest (position : Fin n → Point K) (user : Point K) (L : K) : Prop :=
  match (scanUser position user L).nearest with
  | some s => checkSatCoverGroundStation (position s.id) user L = true ∧
      ∀ j, checkSatCoverGroundStation (position j) user L = true →
        squaredDistance (position s.id) user ≤ squaredDistance (position j) user
  | none => ∀ j, checkSatCoverGroundStation (position j) user L = false

/-! ## The scan -/

omit [Field K] [MathSqrt K] in
theorem see_nearest {v : View n K} (h : v.nearest = v.inView.argmin Sat.latency) (s : Sat n K) :
    (v.see s).nearest = (v.see s).inView.argmin Sat.latency := by
  show (if nearer s.latency v.nearest then some s else v.nearest) =
    (v.inView ++ [s]).argmin Sat.latency
  rw [List.argmin_concat, ← h]
  cases v.nearest with
  | none => rfl
  | some c => simp [nearer]

theorem foldl_scanStep_nearest {position : Fin n → Point K} {user : Point K} {L : K} :
    ∀ (ids : List (Fin n)) {v : View n K}, v.nearest = v.inView.argmin Sat.latency →
      (ids.foldl (scanStep position user L) v).nearest =
        (ids.foldl (scanStep position user L) v).inView.argmin Sat.latency := by
  intro ids
  induction ids with
  | nil =>
      intro v h
      exact h
  | cons i ids ih =>
      intro v h
      rw [List.foldl_cons]
      refine ih ?_
      rw [scanStep]
      split
      · exact see_nearest h _
      · exact h

/-- **The scan keeps the first of the least** latencies among the covered satellites. -/
theorem scanUser_nearest (position : Fin n → Point K) (user : Point K) (L : K) :
    (scanUser position user L).nearest =
      ((coveredIds position user L).argmin fun i => computeLatency (position i) user).map
        fun i => ⟨computeLatency (position i) user, i⟩ := by
  have hview : (scanUser position user L).inView = (coveredIds position user L).map
      fun i => ⟨computeLatency (position i) user, i⟩ := by
    rw [scanUser, foldl_scanStep]
    exact List.nil_append _
  have hscan : (scanUser position user L).nearest =
      (scanUser position user L).inView.argmin Sat.latency :=
    foldl_scanStep_nearest (List.finRange n) rfl
  rw [hscan, hview, argmin_map]
  rfl

/-! ## Two measures -/

section Measure

variable [MonotoneSqrt K]

theorem sqrt_lt_iff {a b : K} (ha : 0 ≤ a) (hb : 0 ≤ b) :
    MathSqrt.sqrt a < MathSqrt.sqrt b ↔ a < b := by
  constructor
  · intro h
    rcases lt_trichotomy a b with hab | rfl | hba
    · exact hab
    · exact absurd h (lt_irrefl _)
    · exact absurd h (lt_asymm (MonotoneSqrt.sqrt_lt hb hba))
  · exact MonotoneSqrt.sqrt_lt ha

theorem sqrt_inj {a b : K} (ha : 0 ≤ a) (hb : 0 ≤ b)
    (h : MathSqrt.sqrt a = MathSqrt.sqrt b) : a = b := by
  rcases lt_trichotomy a b with hab | hab | hba
  · exact absurd h (MonotoneSqrt.sqrt_lt ha hab).ne
  · exact hab
  · exact absurd h (MonotoneSqrt.sqrt_lt hb hba).ne'

variable [IsStrictOrderedRing K]

omit [MathSqrt K] [MonotoneSqrt K] in
theorem squaredDistance_nonneg (a b : Point K) : 0 ≤ squaredDistance a b := by
  unfold squaredDistance
  positivity

omit [MathSqrt K] [MonotoneSqrt K] in
theorem squaredLatency_nonneg (a b : Point K) : 0 ≤ squaredLatency a b := by
  unfold squaredLatency
  positivity

omit [MathSqrt K] [MonotoneSqrt K] in
theorem speed_pos : (0 : K) < ((3 * 10 ^ 8 : Nat) : K) := Nat.cast_pos.mpr (by decide)

theorem distanceAgrees_iff (a b : Point K) :
    DistanceAgrees a b ↔ (a.y - b.y) ^ 2 = (a.z - b.z) ^ 2 := by
  have hlength : computeLatency a b * ((3 * 10 ^ 8 : Nat) : K) =
      MathSqrt.sqrt (squaredLatency a b) := div_mul_cancel₀ _ speed_pos.ne'
  rw [DistanceAgrees, hlength]
  constructor
  · intro h
    have hsq := sqrt_inj (squaredLatency_nonneg a b) (squaredDistance_nonneg a b) h
    simp only [squaredLatency, squaredDistance] at hsq
    linarith
  · intro h
    rw [squaredLatency, squaredDistance, ← h]

/-- By latency and by the length it is made from, the same satellite is first of the
least. -/
theorem argmin_latency (position : Fin n → Point K) (user : Point K) (ids : List (Fin n)) :
    (ids.argmin fun i => computeLatency (position i) user) =
      ids.argmin fun i => squaredLatency (position i) user := by
  refine argmin_congr fun i _ j _ => ?_
  rw [computeLatency, computeLatency, div_lt_div_iff_of_pos_right speed_pos]
  exact sqrt_lt_iff (squaredLatency_nonneg _ _) (squaredLatency_nonneg _ _)

/-- **Nearest by true distance**: the length behind the latency of two points is their
distance exactly if they differ as much in the second coordinate as in the third; and the
scan returns a nearest covered satellite exactly if the first covered one with the least
such length is a nearest one. -/
theorem nearest_iff :
    (∀ a b : Point K, DistanceAgrees a b ↔ (a.y - b.y) ^ 2 = (a.z - b.z) ^ 2) ∧
    ∀ (n : Nat) (position : Fin n → Point K) (user : Point K) (L : K),
      ScanNearest position user L ↔
        ∀ i ∈ (coveredIds position user L).argmin fun i => squaredLatency (position i) user,
          ∀ j ∈ coveredIds position user L,
            squaredDistance (position i) user ≤ squaredDistance (position j) user := by
  refine ⟨distanceAgrees_iff, fun n position user L => ?_⟩
  have hcovered : ∀ j, j ∈ coveredIds position user L ↔
      checkSatCoverGroundStation (position j) user L = true := by
    simp [coveredIds]
  rw [ScanNearest, scanUser_nearest, argmin_latency]
  cases hmin : (coveredIds position user L).argmin fun i => squaredLatency (position i) user with
  | none =>
      refine iff_of_true ?_ ?_
      · intro j
        rw [← Bool.not_eq_true, ← hcovered, List.argmin_eq_none.mp hmin]
        exact List.not_mem_nil
      · intro i hi
        cases hi
  | some i =>
      have hi := (hcovered i).mp (List.argmin_mem hmin)
      simp only [Option.map_some, hi, hcovered, true_and, Option.mem_def, Option.some.injEq,
        forall_eq']

end Measure

noncomputable instance : MathSqrt ℝ := ⟨Real.sqrt⟩

instance : MonotoneSqrt ℝ := ⟨fun ha hab => Real.sqrt_lt_sqrt ha hab⟩

theorem nearest_diagonal : DistanceAgrees (⟨1, 2, 2⟩ : Point ℝ) ⟨0, 0, 0⟩ :=
  (nearest_iff.1 _ _).mpr rfl

/-- A user at latitude and longitude 0, satellite 0 in the south and satellite 1 overhead. -/
def twoOverhead : Fin 2 → Point Rat
  | 0 => ⟨6970400, 0, 799200⟩
  | 1 => ⟨6974600, 0, 0⟩

/-- Satellite 0 is 999 km away and satellite 1 is 603.6 km away, and the scan returns
satellite 0. -/
theorem twoOverhead_not_nearest :
    ¬ DistanceAgrees (twoOverhead 0) ⟨6371000, 0, 0⟩ ∧
      ¬ ScanNearest twoOverhead ⟨6371000, 0, 0⟩ 1000000 := by
  have hlength : computeLatency (twoOverhead 0) ⟨6371000, 0, 0⟩ * (3 * 10 ^ 8 : Nat) ≠
      MathSqrt.sqrt (squaredDistance (twoOverhead 0) ⟨6371000, 0, 0⟩) := by decide +kernel
  have hscan : (scanUser twoOverhead ⟨6371000, 0, 0⟩ 1000000).nearest =
      some ⟨599400 / 300000000, 0⟩ := by decide +kernel
  have hcovered : checkSatCoverGroundStation (twoOverhead 1) ⟨6371000, 0, 0⟩ 1000000 = true := by
    decide +kernel
  refine ⟨hlength, fun h => ?_⟩
  rw [ScanNearest, hscan] at h
  exact absurd (h.2 1 hcovered) (by decide +kernel)

end LeoEM
