/-
# `Satcp.Origin` — the cubic function against zero

An epoch that begins below the last maximum puts the origin of the cubic function there,
and `bic_K` such that the function starts at the window.  `cubic_root` may make `bic_K`
too large.  Then the function starts below the window, and below zero if the window is
small: `bic_target` wraps (`neverWraps_iff`).  A window of a 150th of the way to the
origin is large enough (`neverWraps_of_window`), and in a handover every window is; then
`bictcp_update` computes what `Satcp.Recovery` asks of it (`beforeCubic_fits`).
-/
import LeoEM.Satcp.Epoch

namespace LeoEM

/-- No target of the epoch that begins here is below zero. -/
def NeverWraps (handoverStatus : Bool) (ca : Bictcp) (cwnd acked jiffies : UInt32) : Prop :=
  ∀ t, TargetFits (beginEpoch handoverStatus ca cwnd acked jiffies).bicOriginPoint
    (beginEpoch handoverStatus ca cwnd acked jiffies).bicK t

/-- The tangent is so far above the cube root that the cubic function starts below zero. -/
def StartsBelowZero (lastMaxCwnd cwnd : Nat) : Prop :=
  2 ^ 40 * (lastMaxCwnd + 1) ≤ 410 * tangentRoot (cubeFactor.toNat * (lastMaxCwnd - cwnd)) ^ 3

instance (lastMaxCwnd cwnd : Nat) : Decidable (StartsBelowZero lastMaxCwnd cwnd) :=
  inferInstanceAs (Decidable (_ ≤ _))

/-- Up to the origin the cube fits. -/
theorem cubeFits_before {bicK : UInt32} {t : UInt64} (hK : bicK.toNat < 270000)
    (ht : t.toNat ≤ bicK.toNat) : CubeFits bicK t := by
  have hcube : bicK.toNat ^ 3 ≤ 270000 ^ 3 := Nat.pow_le_pow_left hK.le 3
  rw [CubeFits, Nat.max_eq_right ht]
  omega

/-- Time zero is the worst. -/
theorem targetFits_iff {origin bicK : UInt32} (hK : bicK.toNat < 270000) :
    (∀ t, TargetFits origin bicK t) ↔ 410 * bicK.toNat ^ 3 < 2 ^ 40 * (origin.toNat + 1) := by
  have hdelta : ∀ {t : UInt64}, t.toNat < bicK.toNat →
      (cubicDelta bicK t).toNat = 410 * (bicK.toNat - t.toNat) ^ 3 / 2 ^ 40 := by
    intro t ht
    rw [cubicDelta_toNat (cubeFits_before hK ht.le), cubicOffs, if_pos ht]
  constructor
  · intro h
    by_cases h₀ : bicK.toNat = 0
    · rw [h₀]
      omega
    · have hpos : (0 : UInt64).toNat < bicK.toNat := Nat.pos_of_ne_zero h₀
      have hlt : (0 : UInt64) < bicK.toUInt64 := by
        rwa [UInt64.lt_iff_toNat_lt, UInt32.toNat_toUInt64]
      have hle := h 0 hlt
      rw [UInt32.le_iff_toNat_le, hdelta hpos] at hle
      simp only [UInt64.reduceToNat, Nat.sub_zero] at hle
      omega
  · intro h t ht
    rw [UInt64.lt_iff_toNat_lt, UInt32.toNat_toUInt64] at ht
    have hle : (bicK.toNat - t.toNat) ^ 3 ≤ bicK.toNat ^ 3 := Nat.pow_le_pow_left (by omega) 3
    rw [UInt32.le_iff_toNat_le, hdelta ht]
    omega

/-! ## An epoch below the last maximum -/

section Epoch

variable {ca : Bictcp} {cwnd acked jiffies : UInt32}

theorem rootRange (hlt : cwnd < ca.lastMaxCwnd) (hmax : ca.lastMaxCwnd.toNat < 1000000) :
    RootRange (cubeFactor.toNat * (ca.lastMaxCwnd.toNat - cwnd.toNat)) := by
  rw [UInt32.lt_iff_toNat_lt] at hlt
  rw [cubeFactor_toNat]
  exact ⟨by omega, by omega⟩

theorem neverWraps_plain (hlt : cwnd < ca.lastMaxCwnd) (hmax : ca.lastMaxCwnd.toNat < 1000000) :
    NeverWraps false ca cwnd acked jiffies ↔
      ¬ StartsBelowZero ca.lastMaxCwnd.toNat cwnd.toNat := by
  have hroot := epochRoot_toNat hlt
  have hsmall := (rootRange hlt hmax).tangentRoot_small
  rw [NeverWraps, beginEpoch_below false hlt]
  dsimp only
  rw [if_neg Bool.false_ne_true, targetFits_iff (by omega), hroot, StartsBelowZero, not_le]

/-- A ninth of the time does not take the function below zero, from any window. -/
theorem neverWraps_handover (hlt : cwnd < ca.lastMaxCwnd)
    (hmax : ca.lastMaxCwnd.toNat < 1000000) : NeverWraps true ca cwnd acked jiffies := by
  have hroot := epochRoot_toNat hlt
  have hsmall := (rootRange hlt hmax).tangentRoot_small
  have hninth := (rootRange hlt hmax).size.ninth_cube_le
  rw [NeverWraps, beginEpoch_below true hlt]
  dsimp only
  generalize cubicRoot (cubeFactor * (ca.lastMaxCwnd - cwnd).toUInt64) = root at hroot
  have hshrunk := shrunk_toNat (by omega : root.toNat * 8 < 2 ^ 32)
  rw [if_pos rfl, targetFits_iff (by omega), hshrunk, hroot]
  generalize tangentRoot _ = r at hninth
  rw [cubeFactor_toNat] at hninth
  omega

/-- **When no target of an epoch wraps**: in a handover, or if the function starts at zero
or above. -/
theorem neverWraps_iff {handoverStatus : Bool} (hlt : cwnd < ca.lastMaxCwnd)
    (hmax : ca.lastMaxCwnd.toNat < 1000000) :
    NeverWraps handoverStatus ca cwnd acked jiffies ↔
      handoverStatus = true ∨ ¬ StartsBelowZero ca.lastMaxCwnd.toNat cwnd.toNat := by
  cases handoverStatus with
  | false =>
      rw [neverWraps_plain hlt hmax]
      exact (or_iff_right Bool.false_ne_true).symm
  | true => exact iff_of_true (neverWraps_handover hlt hmax) (Or.inl rfl)

/-- A window of a 150th of the way to the origin is large enough for any table entry. -/
theorem not_startsBelowZero (hlt : cwnd < ca.lastMaxCwnd) (hmax : ca.lastMaxCwnd.toNat < 1000000)
    (hwindow : ca.lastMaxCwnd.toNat - cwnd.toNat ≤ 150 * cwnd.toNat) :
    ¬ StartsBelowZero ca.lastMaxCwnd.toNat cwnd.toNat := by
  have hroot := (rootRange hlt hmax).size.tangentRoot_cube_le
  rw [StartsBelowZero, not_le]
  generalize tangentRoot _ = r at hroot
  rw [cubeFactor_toNat] at hroot
  rw [UInt32.lt_iff_toNat_lt] at hlt
  omega

theorem neverWraps_of_window (handoverStatus : Bool) (hlt : cwnd < ca.lastMaxCwnd)
    (hmax : ca.lastMaxCwnd.toNat < 1000000)
    (hwindow : ca.lastMaxCwnd.toNat - cwnd.toNat ≤ 150 * cwnd.toNat) :
    NeverWraps handoverStatus ca cwnd acked jiffies := by
  cases handoverStatus with
  | false => exact (neverWraps_plain hlt hmax).mpr (not_startsBelowZero hlt hmax hwindow)
  | true => exact neverWraps_handover hlt hmax

/-- The time to the origin, shrunk or not, is below the bound for its cube. -/
theorem beginEpoch_bicK_lt (handoverStatus : Bool) (hlt : cwnd < ca.lastMaxCwnd)
    (hmax : ca.lastMaxCwnd.toNat < 1000000) :
    (beginEpoch handoverStatus ca cwnd acked jiffies).bicK.toNat < 270000 := by
  have hroot := epochRoot_toNat hlt
  have hsmall := (rootRange hlt hmax).tangentRoot_small
  rw [beginEpoch_below handoverStatus hlt]
  dsimp only
  generalize cubicRoot (cubeFactor * (ca.lastMaxCwnd - cwnd).toUInt64) = root at hroot
  cases handoverStatus with
  | false =>
      rw [if_neg Bool.false_ne_true]
      omega
  | true =>
      rw [if_pos rfl, shrunk_toNat (by omega)]
      omega

/-- An epoch that begins at such a window, or in a handover, is one in which the cubic
function can be computed, as long as the cube of the time fits. -/
theorem beforeCubic_fits {ρ : Type} {kernel : Kernel ρ} (handoverStatus : Bool)
    (he : ca.epochStart = 0) (hlt : cwnd < ca.lastMaxCwnd)
    (hmax : ca.lastMaxCwnd.toNat < 1000000)
    (hwindow : handoverStatus = true ∨ ca.lastMaxCwnd.toNat - cwnd.toNat ≤ 150 * cwnd.toNat)
    (htime : 410 * (epochTime kernel (beforeCubic handoverStatus ca cwnd acked jiffies)
      jiffies).toNat ^ 3 < 2 ^ 64) :
    CubicFits kernel (beforeCubic handoverStatus ca cwnd acked jiffies) jiffies := by
  rw [beforeCubic, if_pos he] at htime ⊢
  generalize hcounted : { ca with
    ackCnt := ca.ackCnt + acked, lastCwnd := cwnd, lastTime := jiffies } = counted at htime ⊢
  have hsame : counted.lastMaxCwnd = ca.lastMaxCwnd := by rw [← hcounted]
  rw [← hsame] at hlt hmax hwindow
  have hK : (beginEpoch handoverStatus counted cwnd acked jiffies).bicK.toNat < 270000 :=
    beginEpoch_bicK_lt handoverStatus hlt hmax
  refine ⟨?_, ?_, ?_⟩
  · rw [beginEpoch_below handoverStatus hlt]
    exact hmax
  · rw [CubeFits]
    generalize (beginEpoch handoverStatus counted cwnd acked jiffies).bicK.toNat = k at hK
    have hk : k ^ 3 ≤ 270000 ^ 3 := Nat.pow_le_pow_left hK.le 3
    rcases Nat.le_total k (epochTime kernel
      (beginEpoch handoverStatus counted cwnd acked jiffies) jiffies).toNat with hle | hle
    · rwa [Nat.max_eq_left hle]
    · rw [Nat.max_eq_right hle]
      omega
  · rcases hwindow with rfl | hwindow
    · exact neverWraps_handover hlt hmax _
    · exact neverWraps_of_window handoverStatus hlt hmax hwindow _

end Epoch

/-- From a window of 10 packets back to 3086, the function starts at -3. -/
theorem neverWraps_3086 : ¬ ∀ (handoverStatus : Bool) (ca : Bictcp) (cwnd acked jiffies : UInt32),
    1 ≤ cwnd → cwnd < ca.lastMaxCwnd → ca.lastMaxCwnd.toNat < 1000000 →
      NeverWraps handoverStatus ca cwnd acked jiffies := by
  intro h
  have hfits := h false (.withTarget 3086) 10 1 5000 (by decide) (by decide) (by decide) 0
  rw [TargetFits] at hfits
  exact absurd hfits (by decide +kernel)

/-- In a handover it does not, nor from 13 packets back to 3089. -/
theorem neverWraps_3086_handover : NeverWraps true (.withTarget 3086) 10 1 5000 ∧
    NeverWraps false (.withTarget 3089) 13 1 5000 :=
  ⟨(neverWraps_iff (by decide) (by decide)).mpr (Or.inl rfl),
    (neverWraps_iff (by decide) (by decide)).mpr (Or.inr (by decide +kernel))⟩

end LeoEM
