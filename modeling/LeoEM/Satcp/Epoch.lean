/-
# `Satcp.Epoch` — the time to the origin of a new epoch

An epoch that begins below the last maximum takes `cubic_root` of the way there for the
time `bic_K` to the origin, and in a handover `K - K * 8 / 9` for that time `K`.  Whatever
the two windows are, nothing wraps on the way, and what is left of `K` is a ninth, rounded
up (`shrunk_ninth`).
-/
import LeoEM.Satcp.CubicRoot
import LeoEM.Satcp.Recovery
import Mathlib.Algebra.Order.Floor.Div
import Mathlib.GroupTheory.GroupAction.Ring

namespace LeoEM

/-! ## Epochs -/

theorem tcpFriendlinessPart_epoch {ca ca' : Bictcp} {cwnd : UInt32}
    (h : tcpFriendlinessPart ca cwnd = .ok ca') :
    ca'.epochStart = ca.epochStart ∧ ca'.bicK = ca.bicK ∧
      ca'.bicOriginPoint = ca.bicOriginPoint := by
  rw [tcpFriendlinessPart_eq] at h
  cases hc : countTcpCwnd ((cwnd * betaScale) >>> 3) ca.ackCnt.toNat ca.ackCnt ca.tcpCwnd with
  | error e =>
      rw [hc] at h
      cases h
  | ok counts =>
      rw [hc] at h
      cases h
      exact ⟨rfl, rfl, rfl⟩

/-- As long as an epoch goes on, its calls compute with one `bic_K` and one origin. -/
theorem bictcpUpdate_epoch {ρ : Type} {kernel : Kernel ρ} {handoverStatus : Bool}
    {ca ca' : Bictcp} {cwnd acked jiffies : UInt32} (he : ca.epochStart ≠ 0)
    (h : bictcpUpdate kernel handoverStatus ca cwnd acked jiffies = .ok ca') :
    ca'.epochStart = ca.epochStart ∧ ca'.bicK = ca.bicK ∧
      ca'.bicOriginPoint = ca.bicOriginPoint := by
  unfold bictcpUpdate at h
  split at h
  · cases h
    exact ⟨rfl, rfl, rfl⟩
  · split at h
    · have hkept := tcpFriendlinessPart_epoch h
      exact hkept
    · have hkept := tcpFriendlinessPart_epoch h
      rw [beforeCubic, if_neg he] at hkept
      exact hkept

/-! ## An epoch below the last maximum -/

section Epoch

variable {ca : Bictcp} {cwnd acked jiffies : UInt32}

theorem cubeFactor_toNat : cubeFactor.toNat = 2681735677 := rfl

/-- The argument of `cubic_root` fits into 64 bits, for any two windows. -/
theorem rootSize (hlt : cwnd < ca.lastMaxCwnd) :
    RootSize (cubeFactor.toNat * (ca.lastMaxCwnd.toNat - cwnd.toNat)) := by
  have hmax := ca.lastMaxCwnd.toNat_lt
  rw [UInt32.lt_iff_toNat_lt] at hlt
  rw [cubeFactor_toNat]
  exact ⟨by omega, by omega⟩

/-- `cubic_root` of the way to the origin. -/
theorem epochRoot_toNat (hlt : cwnd < ca.lastMaxCwnd) :
    (cubicRoot (cubeFactor * (ca.lastMaxCwnd - cwnd).toUInt64)).toNat =
      tangentRoot (cubeFactor.toNat * (ca.lastMaxCwnd.toNat - cwnd.toNat)) := by
  have hsize := rootSize hlt
  have harg : (cubeFactor * (ca.lastMaxCwnd - cwnd).toUInt64).toNat =
      cubeFactor.toNat * (ca.lastMaxCwnd.toNat - cwnd.toNat) := by
    rw [UInt64.toNat_mul, UInt32.toNat_toUInt64, UInt32.toNat_sub_of_le _ _ (UInt32.le_of_lt hlt)]
    exact Nat.mod_eq_of_lt hsize.upper
  rw [← harg] at hsize ⊢
  exact cubicRoot_toNat hsize

theorem beginEpoch_below (handoverStatus : Bool) (hlt : cwnd < ca.lastMaxCwnd) :
    beginEpoch handoverStatus ca cwnd acked jiffies =
      { ca with
        epochStart := jiffies, ackCnt := acked, tcpCwnd := cwnd
        bicK :=
          let root := cubicRoot (cubeFactor * (ca.lastMaxCwnd - cwnd).toUInt64)
          if handoverStatus then root - root * 8 / 9 else root
        bicOriginPoint := ca.lastMaxCwnd } := by
  unfold beginEpoch
  dsimp only
  rw [if_neg (UInt32.not_le.mpr hlt)]

theorem shrunk_toNat {root : UInt32} (h : root.toNat * 8 < 2 ^ 32) :
    (root - root * 8 / 9).toNat = root.toNat - root.toNat * 8 / 9 := by
  have hdiv : (root * 8 / 9).toNat = root.toNat * 8 / 9 := by
    rw [UInt32.toNat_div, UInt32.toNat_mul]
    exact congrArg (· / 9) (Nat.mod_eq_of_lt h)
  rw [UInt32.toNat_sub_of_le, hdiv]
  rw [UInt32.le_iff_toNat_le, hdiv]
  omega

/-- What eight ninths leave is a ninth, rounded up. -/
theorem sub_eight_ninths (K : Nat) : K - K * 8 / 9 = K ⌈/⌉ 9 := by
  rw [Nat.ceilDiv_eq_add_pred_div]
  omega

theorem beforeCubic_bicK (handoverStatus : Bool) (he : ca.epochStart = 0)
    (hlt : cwnd < ca.lastMaxCwnd) :
    (beforeCubic handoverStatus ca cwnd acked jiffies).bicK =
      let root := cubicRoot (cubeFactor * (ca.lastMaxCwnd - cwnd).toUInt64)
      if handoverStatus then root - root * 8 / 9 else root := by
  rw [beforeCubic, if_pos he, beginEpoch]
  dsimp only
  rw [if_neg (UInt32.not_le.mpr hlt)]

/-- A call that begins an epoch returns with the `bic_K` of its beginning. -/
theorem bictcpUpdate_bicK {ρ : Type} {kernel : Kernel ρ} {handoverStatus : Bool} {ca' : Bictcp}
    (hc : ComputesCubic kernel ca cwnd jiffies)
    (h : bictcpUpdate kernel handoverStatus ca cwnd acked jiffies = .ok ca') :
    ca'.bicK = (beforeCubic handoverStatus ca cwnd acked jiffies).bicK := by
  rw [bictcpUpdate, hc.1, hc.2] at h
  exact (tcpFriendlinessPart_epoch h).2.1

/-- Such a call returns, unless the window is zero or `cwnd * beta_scale` overflows: then `delta`
may be zero. -/
theorem bictcpUpdate_returns {ρ : Type} {kernel : Kernel ρ} {handoverStatus : Bool}
    (hc : ComputesCubic kernel ca cwnd jiffies) (hpos : 1 ≤ cwnd.toNat)
    (hfits : cwnd.toNat * 15 < 2 ^ 32) :
    ∃ ca', bictcpUpdate kernel handoverStatus ca cwnd acked jiffies = .ok ca' := by
  rw [bictcpUpdate, hc.1, hc.2, if_neg Bool.false_ne_true, if_neg Bool.false_ne_true,
    tcpFriendlinessPart_eq]
  obtain ⟨counts, hcounts⟩ := countTcpCwnd_returns (friendlyDelta_pos hpos hfits)
    (Nat.le_refl _)
  rw [hcounts]
  exact ⟨_, rfl⟩

/-- **The shrunk recovery time is a ninth, rounded up.**  Whatever the windows are, the
product fits into 64 bits, every step of `cubic_root` on it is in range, and so is `K * 8`
for its result `K`.  `K` is what an epoch outside of a handover takes for `bic_K`; in a
handover it is `K` over 9, rounded up.  A call that returns leaves it so, and it does return at a
window of at least one packet that `beta_scale` does not make overflow. -/
theorem shrunk_ninth {ρ : Type} (kernel : Kernel ρ) (ca : Bictcp) (cwnd acked jiffies : UInt32)
    (he : ca.epochStart = 0) (hlt : cwnd < ca.lastMaxCwnd) :
    cubeFactor.toNat * (ca.lastMaxCwnd.toNat - cwnd.toNat) < 2 ^ 64 ∧
      ∃ K, cubicRootChecked (cubeFactor.toNat * (ca.lastMaxCwnd.toNat - cwnd.toNat)) = some K ∧
        K * 8 < 2 ^ 32 ∧
        (beforeCubic false ca cwnd acked jiffies).bicK.toNat = K ∧
        (beforeCubic true ca cwnd acked jiffies).bicK.toNat = K ⌈/⌉ 9 ∧
        0 < K ⌈/⌉ 9 ∧ K ⌈/⌉ 9 ≤ K ∧
        ∀ handoverStatus, ComputesCubic kernel ca cwnd jiffies →
          (∀ ca', bictcpUpdate kernel handoverStatus ca cwnd acked jiffies = .ok ca' →
            ca'.bicK = (beforeCubic handoverStatus ca cwnd acked jiffies).bicK) ∧
          (1 ≤ cwnd.toNat → cwnd.toNat * 15 < 2 ^ 32 →
            ∃ ca', bictcpUpdate kernel handoverStatus ca cwnd acked jiffies = .ok ca') := by
  have hsize := rootSize hlt
  have hroot := epochRoot_toNat hlt
  have hpos := hsize.tangentRoot_pos
  have hfits : tangentRoot (cubeFactor.toNat * (ca.lastMaxCwnd.toNat - cwnd.toNat)) * 8 <
      2 ^ 32 := by
    have hsmall := hsize.tangentRoot_lt
    omega
  refine ⟨hsize.upper, _, hsize.checked_eq, hfits, ?_, ?_, ?_, ?_, ?_⟩
  · rw [beforeCubic_bicK false he hlt]
    exact hroot
  · rw [beforeCubic_bicK true he hlt, ← sub_eight_ninths, ← hroot]
    exact shrunk_toNat (by rwa [hroot])
  · rw [← sub_eight_ninths]
    omega
  · rw [← sub_eight_ninths]
    omega
  · intro handoverStatus hc
    exact ⟨fun ca' h => bictcpUpdate_bicK hc h, bictcpUpdate_returns hc⟩

/-- From a window of 100 packets back to 1000. -/
theorem shrunk_ninth_1000 :
    cubeFactor.toNat * 900 < 2 ^ 64 ∧ ∃ K, cubicRootChecked (cubeFactor.toNat * 900) = some K ∧
      K * 8 < 2 ^ 32 ∧
      (beforeCubic false (.withTarget 1000) 100 1 5000).bicK.toNat = K ∧
      (beforeCubic true (.withTarget 1000) 100 1 5000).bicK.toNat = K ⌈/⌉ 9 ∧
      0 < K ⌈/⌉ 9 ∧ K ⌈/⌉ 9 ≤ K ∧
      ∀ handoverStatus, ComputesCubic Kernel.linux (.withTarget 1000) 100 5000 →
        (∀ ca', bictcpUpdate Kernel.linux handoverStatus (.withTarget 1000) 100 1 5000 = .ok ca' →
          ca'.bicK = (beforeCubic handoverStatus (.withTarget 1000) 100 1 5000).bicK) ∧
        (1 ≤ (100 : UInt32).toNat → (100 : UInt32).toNat * 15 < 2 ^ 32 →
          ∃ ca', bictcpUpdate Kernel.linux handoverStatus (.withTarget 1000) 100 1 5000 =
            .ok ca') :=
  shrunk_ninth Kernel.linux (.withTarget 1000) 100 1 5000 rfl (by decide)

end Epoch

end LeoEM
