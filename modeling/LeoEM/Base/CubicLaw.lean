/-
# `Base.CubicLaw` — a window that grows by a cubic law

After a loss a window starts anew at less than it was, and is to be back where it was after
a time `K`.  On the way it follows `W + C (t - K)^3`: fast at first, slowly around the old
window `W`, and fast again beyond it.  What was lost and the factor `C` determine the time
(`plateauTime`): on it the law gains what was lost (`mul_plateauTime_cube`).

Who computes has `K` only about right.  Up to twice the time, the window is then off by about
three times as large a part of what was lost (`window_close`).
-/
import Mathlib.Analysis.SpecialFunctions.Pow.Real

namespace CubicLaw

/-- The window at time `t`. -/
def window (C W K t : ℝ) : ℝ := W + C * (t - K) ^ 3

/-- The time until the window is back. -/
noncomputable def plateauTime (C lost : ℝ) : ℝ := (lost / C) ^ ((3 : Nat) : ℝ)⁻¹

variable {C W K P lost t ε : ℝ}

theorem plateauTime_nonneg (hC : 0 < C) (hlost : 0 ≤ lost) : 0 ≤ plateauTime C lost :=
  Real.rpow_nonneg (div_nonneg hlost hC.le) _

theorem mul_plateauTime_cube (hC : 0 < C) (hlost : 0 ≤ lost) :
    C * plateauTime C lost ^ 3 = lost := by
  rw [plateauTime, Real.rpow_inv_natCast_pow (div_nonneg hlost hC.le) (by decide)]
  exact mul_div_cancel₀ lost hC.ne'

/-- Times are as near as a third of the distance of their cubes, about. -/
theorem near_of_cube (hP : 0 ≤ P) (hK : 0 ≤ K) (hε₀ : 0 ≤ ε) (hε₁ : ε ≤ 1)
    (hlo : ((1 - ε) * P) ^ 3 ≤ K ^ 3) (hhi : K ^ 3 ≤ ((1 + ε) * P) ^ 3) : |K - P| ≤ ε * P := by
  have hleast : (1 - ε) * P ≤ K :=
    (pow_le_pow_iff_left₀ (mul_nonneg (by linarith) hP) hK (by decide)).mp hlo
  have hmost : K ≤ (1 + ε) * P :=
    (pow_le_pow_iff_left₀ hK (mul_nonneg (by linarith) hP) (by decide)).mp hhi
  rw [abs_le]
  constructor <;> linarith

/-- **The law with a time that is not quite right**, up to twice the time. -/
theorem window_close (hC : 0 ≤ C) (hε : 0 ≤ ε) (hnear : |K - P| ≤ ε * P) (h₀ : 0 ≤ t)
    (ht : t ≤ 2 * P) : |window C W K t - window C W P t| ≤ 3 * ε * (1 + ε) ^ 2 * (C * P ^ 3) := by
  have hP : 0 ≤ P := by linarith
  have hfar : |t - P| ≤ (1 + ε) * P := by
    rw [abs_le]
    constructor <;> nlinarith
  have hfar' : |t - K| ≤ (1 + ε) * P := by
    have hsum := abs_sub_le t P K
    have ht' : |t - P| ≤ P := by
      rw [abs_le]
      constructor <;> linarith
    rw [abs_sub_comm P K] at hsum
    linarith
  have hsplit : window C W K t - window C W P t =
      C * ((P - K) * ((t - K) ^ 2 + (t - K) * (t - P) + (t - P) ^ 2)) := by
    rw [window, window]
    ring
  have hterms : |(t - K) ^ 2 + (t - K) * (t - P) + (t - P) ^ 2| ≤ 3 * ((1 + ε) * P) ^ 2 := by
    have h₁ : |(t - K) ^ 2| ≤ ((1 + ε) * P) ^ 2 := by
      rw [abs_pow]
      exact pow_le_pow_left₀ (abs_nonneg _) hfar' 2
    have h₂ : |(t - K) * (t - P)| ≤ ((1 + ε) * P) ^ 2 := by
      rw [abs_mul, pow_two]
      exact mul_le_mul hfar' hfar (abs_nonneg _) ((abs_nonneg _).trans hfar')
    have h₃ : |(t - P) ^ 2| ≤ ((1 + ε) * P) ^ 2 := by
      rw [abs_pow]
      exact pow_le_pow_left₀ (abs_nonneg _) hfar 2
    have hsum := abs_add_three ((t - K) ^ 2) ((t - K) * (t - P)) ((t - P) ^ 2)
    linarith
  rw [hsplit, abs_mul, abs_mul, abs_of_nonneg hC, abs_sub_comm P K]
  calc C * (|K - P| * |(t - K) ^ 2 + (t - K) * (t - P) + (t - P) ^ 2|)
      ≤ C * (ε * P * (3 * ((1 + ε) * P) ^ 2)) :=
        mul_le_mul_of_nonneg_left
          (mul_le_mul hnear hterms (abs_nonneg _) (mul_nonneg hε hP)) hC
    _ = 3 * ε * (1 + ε) ^ 2 * (C * P ^ 3) := by ring

end CubicLaw
