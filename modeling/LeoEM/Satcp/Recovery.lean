/-
# `Satcp.Recovery` — SaTCP grows at least as fast as plain CUBIC

Two runs of the module from one state get the same calls of `bictcp_update` and
`bictcp_recalc_ssthresh`; in the first `handover_status` is set whenever an epoch begins,
in the second it is not.  The first takes a ninth of the other's time `bic_K` to the
origin, about.  A smaller `bic_K` means a larger window below the origin as well as above
it, and where the first run is above and the second below, the origin lies between them.
So the first run never waits for more ACKs (`recovers_run`).
-/
import LeoEM.Base.Logged
import LeoEM.Satcp.Cubic
import Mathlib.Algebra.Order.Ring.Nat
import Mathlib.Tactic.Ring

namespace LeoEM

variable {ρ : Type} {kernel : Kernel ρ}

/-! ## The cubic function in its time to the origin -/

/-- `(t-K)^3` fits into 64 bits with its factor, whichever of the two is the larger. -/
def CubeFits (bicK : UInt32) (t : UInt64) : Prop :=
  410 * max t.toNat bicK.toNat ^ 3 < 2 ^ 64

/-- `bic_target` is not taken below 0. -/
def TargetFits (origin bicK : UInt32) (t : UInt64) : Prop :=
  t < bicK.toUInt64 → cubicDelta bicK t ≤ origin

/-- The distance from the origin of the cubic function, in time. -/
def cubicOffs (bicK : UInt32) (t : UInt64) : Nat :=
  if t.toNat < bicK.toNat then bicK.toNat - t.toNat else t.toNat - bicK.toNat

theorem shrunk_le (root : UInt32) : root - root * 8 / 9 ≤ root := by
  have h : root * 8 / 9 ≤ root := by
    rw [UInt32.le_iff_toNat_le, UInt32.toNat_div, UInt32.toNat_mul]
    have hlt := root.toNat_lt
    simp only [UInt32.reduceToNat, Nat.reducePow]
    omega
  rw [UInt32.le_iff_toNat_le, UInt32.toNat_sub_of_le _ _ h]
  omega

theorem cubicOffs_le (bicK : UInt32) (t : UInt64) :
    cubicOffs bicK t ≤ max t.toNat bicK.toNat := by
  unfold cubicOffs
  split <;> omega

/-- The machine's `offs` is the distance. -/
theorem offs_toNat (bicK : UInt32) (t : UInt64) :
    (if t < bicK.toUInt64 then bicK.toUInt64 - t else t - bicK.toUInt64).toNat =
      cubicOffs bicK t := by
  simp only [cubicOffs, UInt64.lt_iff_toNat_lt, UInt32.toNat_toUInt64]
  split
  next h =>
    rw [UInt64.toNat_sub_of_le, UInt32.toNat_toUInt64]
    exact UInt64.le_iff_toNat_le.mpr (by rw [UInt32.toNat_toUInt64]; omega)
  next h =>
    rw [UInt64.toNat_sub_of_le, UInt32.toNat_toUInt64]
    exact UInt64.le_iff_toNat_le.mpr (by rw [UInt32.toNat_toUInt64]; omega)

theorem cube_lt {bicK : UInt32} {t : UInt64} (h : CubeFits bicK t) :
    410 * cubicOffs bicK t ^ 3 < 2 ^ 64 := by
  have hle : cubicOffs bicK t ^ 3 ≤ max t.toNat bicK.toNat ^ 3 :=
    Nat.pow_le_pow_left (cubicOffs_le bicK t) 3
  unfold CubeFits at h
  omega

/-- `delta` as the comment of the source has it. -/
theorem cubicDelta_toNat {bicK : UInt32} {t : UInt64} (h : CubeFits bicK t) :
    (cubicDelta bicK t).toNat = 410 * cubicOffs bicK t ^ 3 / 2 ^ 40 := by
  have hlt := cube_lt h
  have hoffs := offs_toNat bicK t
  unfold cubicDelta
  dsimp only
  generalize (if t < bicK.toUInt64 then bicK.toUInt64 - t else t - bicK.toUInt64) = offs at hoffs
  have hcube : (cubeRttScale.toUInt64 * offs * offs * offs).toNat =
      410 * cubicOffs bicK t ^ 3 := by
    simp only [UInt64.toNat_mul, hoffs, Nat.mod_mul_mod]
    rw [show cubeRttScale.toUInt64.toNat = 410 from rfl, Nat.mul_assoc, Nat.mul_assoc,
      ← Nat.mul_assoc (cubicOffs bicK t), ← Nat.pow_two, ← Nat.pow_succ]
    exact Nat.mod_eq_of_lt hlt
  rw [UInt64.toNat_toUInt32, UInt64.toNat_shiftRight, hcube,
    show (10 + 3 * bictcpHZ).toNat % 64 = 40 from rfl, Nat.shiftRight_eq_div_pow]
  exact Nat.mod_eq_of_lt (by omega)

/-- Whether or not the cube fits: 40 of the 64 bits are shifted out. -/
theorem cubicDelta_lt (bicK : UInt32) (t : UInt64) : (cubicDelta bicK t).toNat < 2 ^ 24 := by
  unfold cubicDelta
  dsimp only
  generalize (if t < bicK.toUInt64 then bicK.toUInt64 - t else t - bicK.toUInt64) = offs
  have hlt := (cubeRttScale.toUInt64 * offs * offs * offs).toNat_lt
  rw [UInt64.toNat_toUInt32, UInt64.toNat_shiftRight,
    show (10 + 3 * bictcpHZ).toNat % 64 = 40 from rfl, Nat.shiftRight_eq_div_pow]
  omega

theorem cubicDelta_mono {bicK bicK' : UInt32} {t : UInt64} (h : CubeFits bicK t)
    (h' : CubeFits bicK' t) (hle : cubicOffs bicK t ≤ cubicOffs bicK' t) :
    (cubicDelta bicK t).toNat ≤ (cubicDelta bicK' t).toNat := by
  rw [cubicDelta_toNat h, cubicDelta_toNat h']
  exact Nat.div_le_div_right (Nat.mul_le_mul_left 410 (Nat.pow_le_pow_left hle 3))

/-- The target, as an integer. -/
theorem bicTarget_toNat {origin bicK : UInt32} {t : UInt64} (ht : TargetFits origin bicK t)
    (ho : origin.toNat < 1000000) :
    (bicTarget origin bicK t).toNat =
      if t.toNat < bicK.toNat then origin.toNat - (cubicDelta bicK t).toNat
      else origin.toNat + (cubicDelta bicK t).toNat := by
  have hlt := cubicDelta_lt bicK t
  unfold bicTarget
  have hiff : t < bicK.toUInt64 ↔ t.toNat < bicK.toNat := by
    rw [UInt64.lt_iff_toNat_lt, UInt32.toNat_toUInt64]
  split
  next hb => rw [if_pos (hiff.mp hb), UInt32.toNat_sub_of_le _ _ (ht hb)]
  next hb =>
    rw [if_neg fun hn => hb (hiff.mpr hn), UInt32.toNat_add]
    exact Nat.mod_eq_of_lt (by omega)

/-- **The target grows as the time to the origin shrinks**: below the origin, above it, and
from below to above. -/
theorem bicTarget_antitone {origin bicK bicK' : UInt32} {t : UInt64} (hK : bicK ≤ bicK')
    (h : CubeFits bicK t) (h' : CubeFits bicK' t) (ht : TargetFits origin bicK t)
    (ht' : TargetFits origin bicK' t) (ho : origin.toNat < 1000000) :
    (bicTarget origin bicK' t).toNat ≤ (bicTarget origin bicK t).toNat := by
  rw [bicTarget_toNat ht ho, bicTarget_toNat ht' ho]
  rw [UInt32.le_iff_toNat_le] at hK
  by_cases hb : t.toNat < bicK.toNat
  · -- both below: the first is nearer to the origin
    have hoffs : cubicOffs bicK t ≤ cubicOffs bicK' t := by
      rw [cubicOffs, if_pos hb, cubicOffs, if_pos (by omega)]
      omega
    have hdelta := cubicDelta_mono h h' hoffs
    rw [if_pos hb, if_pos (by omega)]
    omega
  · by_cases hb' : t.toNat < bicK'.toNat
    · rw [if_neg hb, if_pos hb']
      omega
    · -- both above: the first is farther from the origin
      have hoffs : cubicOffs bicK' t ≤ cubicOffs bicK t := by
        rw [cubicOffs, if_neg hb', cubicOffs, if_neg hb]
        omega
      have hdelta := cubicDelta_mono h' h hoffs
      rw [if_neg hb, if_neg hb']
      omega

/-- A larger target waits for no more ACKs. -/
theorem bictcpCnt_antitone {target target' cwnd : UInt32} (h : target' ≤ target)
    (hc : cwnd.toNat < 1000000) : bictcpCnt target cwnd ≤ bictcpCnt target' cwnd := by
  rw [UInt32.le_iff_toNat_le] at h ⊢
  have hslow : (100 * cwnd).toNat = 100 * cwnd.toNat := by
    rw [UInt32.toNat_mul]
    exact Nat.mod_eq_of_lt (by
      rw [show (100 : UInt32).toNat = 100 from rfl]
      omega)
  unfold bictcpCnt
  split
  next ht =>
    rw [UInt32.toNat_div, UInt32.toNat_sub_of_le _ _ (UInt32.le_of_lt ht)]
    split
    next ht' =>
      rw [UInt32.toNat_div, UInt32.toNat_sub_of_le _ _ (UInt32.le_of_lt ht')]
      refine Nat.div_le_div_left (by omega) ?_
      have := UInt32.lt_iff_toNat_lt.mp ht'
      omega
    next =>
      rw [hslow]
      exact (Nat.div_le_self _ _).trans (Nat.le_mul_of_pos_left _ (by omega))
  next ht =>
    have hnot : ¬ target' > cwnd := fun ht' => ht (by
      have := UInt32.lt_iff_toNat_lt.mp ht'
      exact UInt32.lt_iff_toNat_lt.mpr (by omega))
    rw [if_neg hnot]

/-! ## The loop of the last part -/

/-- The loop ends if it takes anything away in a round. -/
theorem countTcpCwnd_returns {delta : UInt32} (hd : 1 ≤ delta.toNat) :
    ∀ {fuel : Nat} {ackCnt tcpCwnd : UInt32}, ackCnt.toNat ≤ fuel →
      ∃ counts, countTcpCwnd delta fuel ackCnt tcpCwnd = .ok counts := by
  intro fuel
  induction fuel with
  | zero =>
      intro ackCnt tcpCwnd h
      have hno : ¬ ackCnt > delta := by
        intro hgt
        have := UInt32.lt_iff_toNat_lt.mp hgt
        omega
      exact ⟨_, by rw [countTcpCwnd, if_neg hno]⟩
  | succ fuel ih =>
      intro ackCnt tcpCwnd h
      rw [countTcpCwnd]
      split
      next hgt =>
        refine ih ?_
        rw [UInt32.toNat_sub_of_le _ _ (UInt32.le_of_lt hgt)]
        omega
      next => exact ⟨_, rfl⟩

theorem friendlyDelta_pos {cwnd : UInt32} (hpos : 1 ≤ cwnd.toNat)
    (hfits : cwnd.toNat * 15 < 2 ^ 32) : 1 ≤ ((cwnd * betaScale) >>> 3).toNat := by
  rw [UInt32.toNat_shiftRight, UInt32.toNat_mul, show betaScale.toNat = 15 from rfl,
    Nat.mod_eq_of_lt hfits, Nat.shiftRight_eq_div_pow,
    show (3 : UInt32).toNat % 32 = 3 from rfl]
  omega

theorem toNat_max (a b : UInt32) : (max a b).toNat = max a.toNat b.toNat := by
  show (if a ≤ b then b else a).toNat = _
  split
  next h => exact (Nat.max_eq_right (UInt32.le_iff_toNat_le.mp h)).symm
  next h =>
    have hlt := mt UInt32.le_iff_toNat_le.mpr h
    exact (Nat.max_eq_left (Nat.le_of_not_le hlt)).symm

theorem friendlyCnt_mono {cnt cnt' : UInt32} (h : cnt ≤ cnt') (cwnd tcpCwnd : UInt32) :
    friendlyCnt cnt cwnd tcpCwnd ≤ friendlyCnt cnt' cwnd tcpCwnd := by
  simp only [friendlyCnt, UInt32.le_iff_toNat_le, UInt32.lt_iff_toNat_lt, gt_iff_lt,
    toNat_max] at h ⊢
  refine max_le_max ?_ (Nat.le_refl _)
  split <;> split <;> omega

/-- The cap on a target that is not known. -/
theorem cap_mono {cnt cnt' : UInt32} (h : cnt ≤ cnt') (lastMaxCwnd : UInt32) :
    (if lastMaxCwnd = 0 ∧ cnt > 20 then 20 else cnt) ≤
      if lastMaxCwnd = 0 ∧ cnt' > 20 then 20 else cnt' := by
  rw [UInt32.le_iff_toNat_le] at h
  by_cases hl : lastMaxCwnd = 0
  · simp only [hl, true_and, gt_iff_lt, UInt32.lt_iff_toNat_lt, UInt32.le_iff_toNat_le]
    split <;> split <;> omega
  · simpa only [hl, false_and, if_false, UInt32.le_iff_toNat_le] using h

/-! ## Two states -/

/-- The first state is the second, but for a time to the origin and a number of ACKs to wait
for that are no larger. -/
structure RecoversAsFast (a b : Bictcp) : Prop where
  bicK : a.bicK ≤ b.bicK
  cnt : a.cnt ≤ b.cnt
  rest : a = { b with bicK := a.bicK, cnt := a.cnt }

theorem RecoversAsFast.refl (b : Bictcp) : RecoversAsFast b b :=
  ⟨UInt32.le_refl _, UInt32.le_refl _, rfl⟩

/-- The cubic function is computed by this call. -/
def ComputesCubic (kernel : Kernel ρ) (ca : Bictcp) (cwnd jiffies : UInt32) : Prop :=
  updatesTooSoon kernel ca cwnd jiffies = false ∧ computedThisJiffy ca jiffies = false

/-- What `bictcp_update` asks of the state it computes the cubic function in. -/
structure CubicFits (kernel : Kernel ρ) (ca : Bictcp) (jiffies : UInt32) : Prop where
  origin : ca.bicOriginPoint.toNat < 1000000
  cube : CubeFits ca.bicK (epochTime kernel ca jiffies)
  target : TargetFits ca.bicOriginPoint ca.bicK (epochTime kernel ca jiffies)

section Steps

variable {a b : Bictcp} {cwnd acked jiffies : UInt32} {hA hB : Bool}

theorem beginEpoch_recovers (h : RecoversAsFast a b) :
    RecoversAsFast (beginEpoch true a cwnd acked jiffies)
      (beginEpoch false b cwnd acked jiffies) := by
  rw [h.rest]
  unfold beginEpoch
  dsimp only
  by_cases hle : b.lastMaxCwnd ≤ cwnd
  · rw [if_pos hle, if_pos hle]
    exact ⟨UInt32.le_refl 0, h.cnt, rfl⟩
  · rw [if_neg hle, if_neg hle]
    exact ⟨shrunk_le _, h.cnt, rfl⟩

/-- Up to the cubic function: an epoch may begin. -/
theorem beforeCubic_recovers (h : RecoversAsFast a b)
    (hA' : a.epochStart = 0 → hA = true) (hB' : b.epochStart = 0 → hB = false) :
    RecoversAsFast (beforeCubic hA a cwnd acked jiffies)
      (beforeCubic hB b cwnd acked jiffies) := by
  have hsame : a.epochStart = b.epochStart := by rw [h.rest]
  have hcount : RecoversAsFast
      { a with ackCnt := a.ackCnt + acked, lastCwnd := cwnd, lastTime := jiffies }
      { b with ackCnt := b.ackCnt + acked, lastCwnd := cwnd, lastTime := jiffies } := by
    rw [h.rest]
    exact ⟨h.bicK, h.cnt, rfl⟩
  unfold beforeCubic
  dsimp only
  by_cases he : b.epochStart = 0
  · rw [if_pos (hsame.trans he), if_pos he, hA' (hsame.trans he), hB' he]
    exact beginEpoch_recovers hcount
  · rw [if_neg fun hz => he (hsame.symm.trans hz), if_neg he]
    exact hcount

/-- **The cubic function** asks for no more ACKs in the first state. -/
theorem cubicFunction_recovers (h : RecoversAsFast a b) (hc : cwnd.toNat < 1000000)
    (ha : CubicFits kernel a jiffies) (hb : CubicFits kernel b jiffies) :
    RecoversAsFast (cubicFunction kernel a cwnd jiffies) (cubicFunction kernel b cwnd jiffies) := by
  have horigin : a.bicOriginPoint = b.bicOriginPoint := by rw [h.rest]
  have htime : epochTime kernel a jiffies = epochTime kernel b jiffies := by rw [h.rest]; rfl
  have hmax : a.lastMaxCwnd = b.lastMaxCwnd := by rw [h.rest]
  have hcube := ha.cube
  have htarget := ha.target
  rw [horigin, htime] at htarget
  rw [htime] at hcube
  have hle := bictcpCnt_antitone
    (UInt32.le_iff_toNat_le.mpr
      (bicTarget_antitone h.bicK hcube hb.cube htarget hb.target hb.origin)) hc
  unfold cubicFunction
  dsimp only
  rw [horigin, htime, hmax]
  refine ⟨h.bicK, cap_mono hle _, ?_⟩
  rw [h.rest]

/-- The last part, whose loop ends in both. -/
theorem tcpFriendlinessPart_recovers (h : RecoversAsFast a b) (hpos : 1 ≤ cwnd.toNat)
    (hlt : cwnd.toNat < 1000000) :
    ∃ a' b', tcpFriendlinessPart a cwnd = .ok a' ∧ tcpFriendlinessPart b cwnd = .ok b' ∧
      RecoversAsFast a' b' := by
  obtain ⟨counts, hcounts⟩ := @countTcpCwnd_returns _ (friendlyDelta_pos hpos (by omega)) _ _
    b.tcpCwnd (Nat.le_refl b.ackCnt.toNat)
  have hack : a.ackCnt = b.ackCnt ∧ a.tcpCwnd = b.tcpCwnd := by
    rw [h.rest]
    exact ⟨rfl, rfl⟩
  rw [tcpFriendlinessPart_eq, tcpFriendlinessPart_eq, hack.1, hack.2, hcounts]
  refine ⟨_, _, rfl, rfl, ?_⟩
  rw [h.rest]
  exact ⟨h.bicK, friendlyCnt_mono h.cnt _ _, rfl⟩

/-- What one call of `bictcp_update` asks of its window and of the state it finds. -/
structure UpdateFits (kernel : Kernel ρ) (handoverStatus : Bool) (ca : Bictcp)
    (cwnd acked jiffies : UInt32) : Prop where
  cwnd_pos : 1 ≤ cwnd.toNat
  cwnd_lt : cwnd.toNat < 1000000
  cubic : ComputesCubic kernel ca cwnd jiffies →
    CubicFits kernel (beforeCubic handoverStatus ca cwnd acked jiffies) jiffies

/-- **One call of `bictcp_update`** returns in both runs, and the first is not behind. -/
theorem bictcpUpdate_recovers (h : RecoversAsFast a b)
    (hA' : ComputesCubic kernel a cwnd jiffies → a.epochStart = 0 → hA = true)
    (hB' : ComputesCubic kernel b cwnd jiffies → b.epochStart = 0 → hB = false)
    (ha : UpdateFits kernel hA a cwnd acked jiffies)
    (hb : UpdateFits kernel hB b cwnd acked jiffies) :
    ∃ a' b', bictcpUpdate kernel hA a cwnd acked jiffies = .ok a' ∧
      bictcpUpdate kernel hB b cwnd acked jiffies = .ok b' ∧ RecoversAsFast a' b' := by
  have hsoon : updatesTooSoon kernel a cwnd jiffies = updatesTooSoon kernel b cwnd jiffies := by
    rw [h.rest]
    rfl
  have hjiffy : computedThisJiffy a jiffies = computedThisJiffy b jiffies := by
    rw [h.rest]
    rfl
  have hcount : RecoversAsFast { a with ackCnt := a.ackCnt + acked }
      { b with ackCnt := b.ackCnt + acked } := by
    rw [h.rest]
    exact ⟨h.bicK, h.cnt, rfl⟩
  unfold bictcpUpdate
  cases hs : updatesTooSoon kernel b cwnd jiffies with
  | true =>
      rw [hsoon, hs]
      exact ⟨_, _, rfl, rfl, hcount⟩
  | false =>
      cases hj : computedThisJiffy b jiffies with
      | true =>
          rw [hsoon, hs, hjiffy, hj]
          exact tcpFriendlinessPart_recovers hcount ha.cwnd_pos ha.cwnd_lt
      | false =>
          have hcubicA : ComputesCubic kernel a cwnd jiffies :=
            ⟨hsoon.trans hs, hjiffy.trans hj⟩
          rw [hsoon, hs, hjiffy, hj]
          exact tcpFriendlinessPart_recovers
            (cubicFunction_recovers (beforeCubic_recovers h (hA' hcubicA) (hB' ⟨hs, hj⟩))
              ha.cwnd_lt (ha.cubic hcubicA) (hb.cubic ⟨hs, hj⟩)) ha.cwnd_pos ha.cwnd_lt

/-- A loss leaves the two as they are to each other. -/
theorem bictcpRecalcSsthresh_recovers (h : RecoversAsFast a b) (tp : TcpSock ρ) :
    RecoversAsFast (bictcpRecalcSsthresh tp a).2 (bictcpRecalcSsthresh tp b).2 := by
  rw [h.rest]
  exact ⟨h.bicK, h.cnt, rfl⟩

end Steps

/-! ## Two runs -/

/-- One call that moves the window's growth. -/
inductive GrowthCall (ρ : Type) where
  | update (cwnd acked jiffies : UInt32)
  | recalcSsthresh (tp : TcpSock ρ)

namespace GrowthCall

def run (kernel : Kernel ρ) (handoverStatus : Bool) (ca : Bictcp) :
    GrowthCall ρ → Except Diverges Bictcp
  | update cwnd acked jiffies => bictcpUpdate kernel handoverStatus ca cwnd acked jiffies
  | recalcSsthresh tp => pure (bictcpRecalcSsthresh tp ca).2

/-- The call begins an epoch: it is then that `handover_status` is read. -/
def BeginsEpoch (kernel : Kernel ρ) (ca : Bictcp) : GrowthCall ρ → Prop
  | update cwnd _ jiffies => ComputesCubic kernel ca cwnd jiffies ∧ ca.epochStart = 0
  | recalcSsthresh _ => False

/-- Windows and times are in the range the source is made for, and no target wraps. -/
def Fits (kernel : Kernel ρ) (handoverStatus : Bool) (ca : Bictcp) : GrowthCall ρ → Prop
  | update cwnd acked jiffies => UpdateFits kernel handoverStatus ca cwnd acked jiffies
  | recalcSsthresh _ => True

end GrowthCall

abbrev GrowthVisit (ρ : Type) := Logged.Visit Bictcp (GrowthCall ρ × Bool) Empty Diverges

/-- Calls one after the other, each with the value of `handover_status` during the call. -/
def growthRun (kernel : Kernel ρ) (ca : Bictcp) (calls : List (GrowthCall ρ × Bool)) :
    List (GrowthVisit ρ) :=
  Logged.visits (fun ca c => Logged.ofExcept (c.1.run kernel c.2 ca)) ca calls

/-- Call `k` of the run, if it begins an epoch, finds `handover_status` to be `status`. -/
def EpochStatus (kernel : Kernel ρ) (status : Bool) (vs : List (GrowthVisit ρ)) (k : Nat) : Prop :=
  ∀ v, vs[k]? = some v → v.input.1.BeginsEpoch kernel v.before → v.input.2 = status

/-- Call `k` of the run is within the range. -/
def FitsAt (kernel : Kernel ρ) (vs : List (GrowthVisit ρ)) (k : Nat) : Prop :=
  ∀ v, vs[k]? = some v → v.input.1.Fits kernel v.input.2 v.before

/-- One call in both runs. -/
theorem growthCall_recovers {c : GrowthCall ρ} {hA hB : Bool} {a b : Bictcp}
    (h : RecoversAsFast a b) (hA' : c.BeginsEpoch kernel a → hA = true)
    (hB' : c.BeginsEpoch kernel b → hB = false) (ha : c.Fits kernel hA a)
    (hb : c.Fits kernel hB b) :
    ∃ a' b', c.run kernel hA a = .ok a' ∧ c.run kernel hB b = .ok b' ∧ RecoversAsFast a' b' := by
  cases c with
  | update cwnd acked jiffies =>
      exact bictcpUpdate_recovers h (fun hc he => hA' ⟨hc, he⟩) (fun hc he => hB' ⟨hc, he⟩) ha hb
  | recalcSsthresh tp => exact ⟨_, _, rfl, rfl, bictcpRecalcSsthresh_recovers h tp⟩

/-- **SaTCP recovers at least as fast as plain CUBIC.**  Two runs from one state make the same
calls; in the first `handover_status` is set whenever an epoch begins, in the second it never
is.  As long as both are in range, every call returns in both, and behind it the first has a
`bic_K` and a `cnt` that are no larger, and the same value in every other member. -/
theorem recovers_run (kernel : Kernel ρ) (ca : Bictcp) (callsA callsB : List (GrowthCall ρ × Bool))
    (hsame : callsA.map Prod.fst = callsB.map Prod.fst) (k : Nat) (hk : k < callsA.length)
    (hA : ∀ j ≤ k, EpochStatus kernel true (growthRun kernel ca callsA) j)
    (hB : ∀ j ≤ k, EpochStatus kernel false (growthRun kernel ca callsB) j)
    (hfitA : ∀ j ≤ k, FitsAt kernel (growthRun kernel ca callsA) j)
    (hfitB : ∀ j ≤ k, FitsAt kernel (growthRun kernel ca callsB) j) :
    ∃ v w a b, (growthRun kernel ca callsA)[k]? = some v ∧
      (growthRun kernel ca callsB)[k]? = some w ∧
      v.done.result = .ok a ∧ w.done.result = .ok b ∧ RecoversAsFast a b := by
  have hstep : ∀ (j : Nat) (v w : GrowthVisit ρ), j ≤ k →
      (growthRun kernel ca callsA)[j]? = some v → (growthRun kernel ca callsB)[j]? = some w →
      RecoversAsFast v.before w.before →
      ∃ a b, v.done.result = .ok a ∧ w.done.result = .ok b ∧ RecoversAsFast a b := by
    intro j v w hj hv hw h
    obtain ⟨hxv, hdv⟩ := Logged.visits_input hv
    obtain ⟨hxw, hdw⟩ := Logged.visits_input hw
    have hcall : w.input.1 = v.input.1 := by
      have hmap := congrArg (fun l => l[j]?) hsame
      simp only [List.getElem?_map, hxv, hxw, Option.map_some, Option.some.injEq] at hmap
      exact hmap.symm
    obtain ⟨a, b, ha, hb, hab⟩ := growthCall_recovers h (hA j hj v hv)
      (hcall ▸ hB j hj w hw) (hfitA j hj v hv) (hcall ▸ hfitB j hj w hw)
    refine ⟨a, b, ?_, ?_, hab⟩
    · rw [hdv]
      exact ha
    · rw [hdw]
      exact (hcall ▸ hb :)
  have hlen : k < callsB.length := by
    have := congrArg List.length hsame
    rw [List.length_map, List.length_map] at this
    omega
  obtain ⟨v, w, hv, hw, -, -, h⟩ := Logged.visits_sim k RecoversAsFast (.refl ca)
    (fun j v w hj => hstep j v w (Nat.le_of_lt hj)) (Nat.le_refl k)
    (List.getElem?_eq_getElem hk) (List.getElem?_eq_getElem hlen)
  obtain ⟨a, b, ha, hb, hab⟩ := hstep k v w (Nat.le_refl k) hv hw h
  exact ⟨v, w, a, b, hv, hw, ha, hb, hab⟩

/-- An epoch begins at a window of 100 packets with a target of 1000.  Three seconds later the
run of the handover is past the origin of its cubic function, and the other one is not. -/
def growingBack (status : Bool) : List (GrowthCall LinuxSock × Bool) :=
  [(.update 100 1 5000, status), (.update 101 1 8000, status)]

theorem growingBack_status (status : Bool) (j : Nat) : EpochStatus Kernel.linux status
    (growthRun Kernel.linux (.withTarget 1000) (growingBack status)) j := by
  intro v hv _
  have hmem := List.mem_of_getElem? (Logged.visits_input hv).1
  simp only [growingBack, List.mem_cons, List.not_mem_nil, or_false] at hmem
  rcases hmem with hinput | hinput <;> rw [hinput]

theorem growingBack_fits (status : Bool) (j : Nat) (hj : j ≤ 1) : FitsAt Kernel.linux
    (growthRun Kernel.linux (.withTarget 1000) (growingBack status)) j := by
  intro v hv
  match j, hj with
  | 0, _ | 1, _ =>
      obtain rfl := Option.some.inj hv
      refine ⟨by decide, by decide, fun _ => ⟨?_, ?_, ?_⟩⟩
      · cases status <;> decide +kernel
      · unfold CubeFits
        cases status <;> decide +kernel
      · unfold TargetFits
        cases status <;> decide +kernel

theorem recovers_run_growingBack :
    ∃ v w a b, (growthRun Kernel.linux (.withTarget 1000) (growingBack true))[1]? = some v ∧
      (growthRun Kernel.linux (.withTarget 1000) (growingBack false))[1]? = some w ∧
      ComputesCubic Kernel.linux v.before 101 8000 ∧ v.before.bicK < w.before.bicK ∧
      v.done.result = .ok a ∧ w.done.result = .ok b ∧ RecoversAsFast a b := by
  obtain ⟨v, w, a, b, hv, hw, ha, hb, hab⟩ := recovers_run Kernel.linux (.withTarget 1000)
    (growingBack true) (growingBack false) rfl 1 Nat.one_lt_two
    (fun j _ => growingBack_status true j) (fun j _ => growingBack_status false j)
    (growingBack_fits true) (growingBack_fits false)
  refine ⟨v, w, a, b, hv, hw, ?_, ?_, ha, hb, hab⟩
  · obtain rfl := Option.some.inj hv
    exact ⟨by decide +kernel, by decide +kernel⟩
  · obtain rfl := Option.some.inj hv
    obtain rfl := Option.some.inj hw
    decide +kernel

end LeoEM
