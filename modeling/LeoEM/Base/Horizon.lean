/-
# `Base.Horizon` — what is seen from the ground, and how high

Points are vectors from the centre of a sphere.  From the ground at `g` a point `s` is seen
at an elevation above the horizon (`elevation`).  Its sine is a function of the three sides of
the triangle, and falls as the distance grows: so within a range are the points that are seen
at no less than some elevation (`range_le_iff`).

`sight_least` is the triangle a coverage cone is drawn by: with the elevation at the ground
and the angle from the vertical at `s`, the range follows from the law of cosines.
-/
import Mathlib.Geometry.Euclidean.Triangle

namespace Horizon

open Real InnerProductGeometry

/-- The square of the chord between two points at `ρ` and `R` from the centre, and `c` the
cosine of the angle between them there. -/
def chordSq (ρ R c : ℝ) : ℝ := (ρ - R) ^ 2 + (2 : Nat) * R * ρ * (1 - c)

theorem chordSq_eq (ρ R c : ℝ) : chordSq ρ R c = (ρ - R) ^ 2 + 2 * R * ρ * (1 - c) := by
  rw [chordSq, Nat.cast_ofNat]

section Vectors

variable {V : Type} [NormedAddCommGroup V] [InnerProductSpace ℝ V]

/-- The elevation above the horizon at which `s` is seen from `g`. -/
noncomputable def elevation (s g : V) : ℝ := π / (2 : Nat) - angle (s - g) g

theorem sin_elevation (s g : V) : sin (elevation s g) = cos (angle (s - g) g) := by
  rw [elevation, Nat.cast_ofNat, sin_pi_div_two_sub]

/-- The law of cosines, at the ground. -/
theorem sin_elevation_mul (s g : V) :
    sin (elevation s g) * (2 * ‖g‖ * ‖s - g‖) = ‖s‖ ^ 2 - ‖g‖ ^ 2 - ‖s - g‖ ^ 2 := by
  have hinner : sin (elevation s g) * (‖s - g‖ * ‖g‖) = inner ℝ (s - g) g := by
    rw [sin_elevation, cos_angle_mul_norm_mul_norm]
  have hsum : ‖s‖ ^ 2 = ‖s - g‖ ^ 2 + 2 * inner ℝ (s - g) g + ‖g‖ ^ 2 := by
    rw [← norm_add_sq_real, sub_add_cancel]
  linear_combination 2 * hinner - hsum

/-- The law of cosines, at the centre. -/
theorem range_sq (s g : V) : ‖s - g‖ ^ 2 = chordSq ‖s‖ ‖g‖ (cos (angle s g)) := by
  have h := norm_sub_sq_eq_norm_sq_add_norm_sq_sub_two_mul_norm_mul_norm_mul_cos_angle s g
  rw [chordSq_eq]
  linear_combination h

end Vectors

/-- The sine of the elevation at which a point at `ρ` from the centre is seen, from `R` and at
a range of `ℓ`. -/
noncomputable def leastSine (ρ R ℓ : ℝ) : ℝ := (ρ ^ 2 - R ^ 2 - ℓ ^ 2) / ((2 : Nat) * R * ℓ)

theorem leastSine_eq (ρ R ℓ : ℝ) :
    leastSine ρ R ℓ = (ρ ^ 2 - R ^ 2 - ℓ ^ 2) / (2 * R * ℓ) := by
  rw [leastSine, Nat.cast_ofNat]

theorem leastSine_anti {ρ R a b : ℝ} (hR : 0 < R) (hρ : R < ρ) (ha : 0 < a) (hb : 0 < b) :
    leastSine ρ R b ≤ leastSine ρ R a ↔ a ≤ b := by
  have hpos : 0 < ρ ^ 2 - R ^ 2 + a * b := by
    have := mul_pos ha hb
    nlinarith
  rw [leastSine_eq, leastSine_eq, div_le_div_iff₀ (by positivity) (by positivity)]
  constructor
  · intro h
    refine not_lt.mp fun hlt => ?_
    nlinarith [mul_pos (mul_pos hR hpos) (sub_pos.mpr hlt)]
  · intro h
    nlinarith [mul_nonneg (mul_pos hR hpos).le (sub_nonneg.mpr h)]

section Vectors

variable {V : Type} [NormedAddCommGroup V] [InnerProductSpace ℝ V] {s g : V} {ℓ : ℝ}

/-- **Within a range are the points seen at no less than some elevation.** -/
theorem range_le_iff (hg : 0 < ‖g‖) (hs : ‖g‖ < ‖s‖) (hℓ : 0 < ℓ) :
    ‖s - g‖ ≤ ℓ ↔ leastSine ‖s‖ ‖g‖ ℓ ≤ sin (elevation s g) := by
  have hrange : 0 < ‖s - g‖ := by
    refine norm_pos_iff.mpr fun h => ?_
    rw [sub_eq_zero.mp h] at hs
    exact lt_irrefl _ hs
  have hsine : sin (elevation s g) = leastSine ‖s‖ ‖g‖ ‖s - g‖ := by
    rw [leastSine_eq, eq_div_iff (by positivity)]
    exact sin_elevation_mul s g
  rw [hsine, leastSine_anti hg hs hrange hℓ]

end Vectors

/-- The range of the cone: the sides meet at an elevation of `α` at the ground, and at an
angle of `β` to the vertical at `ρ`. -/
theorem sight_least {ρ R α β ℓ : ℝ} (hR : 0 < R) (hℓ : 0 < ℓ) (hsine : ρ * sin β = R * cos α)
    (hrange : ℓ ^ 2 = chordSq ρ R (cos (π / 2 - (α + β))))
    (hdown : R * sin α ≤ ρ * cos β) : leastSine ρ R ℓ = sin α := by
  have hα := sin_sq_add_cos_sq α
  have hβ := sin_sq_add_cos_sq β
  have hsq : ℓ ^ 2 = (ρ * cos β - R * sin α) ^ 2 := by
    rw [chordSq_eq, cos_pi_div_two_sub, sin_add] at hrange
    linear_combination hrange - R ^ 2 * hα - ρ ^ 2 * hβ + (ρ * sin β - R * cos α) * hsine
  have hℓ' : ℓ = ρ * cos β - R * sin α :=
    (sq_eq_sq₀ hℓ.le (sub_nonneg.mpr hdown)).mp hsq
  rw [leastSine_eq, div_eq_iff (by positivity)]
  linear_combination -(ρ * cos β + ℓ + R * sin α) * hℓ' + (ρ * sin β + R * cos α) * hsine +
    R ^ 2 * hα - ρ ^ 2 * hβ

end Horizon
