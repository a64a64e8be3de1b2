/-
# `Satcp.Law` — the fixed-point function against the law of CUBIC

What `bictcp_update` computes with shifts, a table and one step of Newton's is meant to be
`W + C (t - K)^3`, with `W` the old window and `K` such that an epoch starts at its own window
(`cubicWindow`).  `cubic_root` is off by a 448th at most, in either direction, and each target
is rounded to a packet.  So as long as an epoch that begins below the old window goes on, up to
twice the time to get there, no target is farther from the law than a hundredth of what was
lost, and a packet (`law_run`).

The epochs that start below zero are left out: their targets wrap (`Satcp.Origin`).
-/
import LeoEM.Base.CubicLaw
import LeoEM.Satcp.Growth

namespace LeoEM

variable {ρ : Type}

/-! ## The time to the origin -/

/-- **`cubic_root` is at most 1/448 too small**, too. -/
theorem RootSize.tangentRoot_cube_ge {a : Nat} (h : RootSize a) :
    150 * a ≤ 151 * tangentRoot a ^ 3 := by
  have hpos := h.divisor_pos
  have hlower := h.lower
  have hstep : (2 * rootEstimate a + a / (rootEstimate a * (rootEstimate a - 1))) * 341 <
      1024 * (tangentRoot a + 1) := by
    unfold tangentRoot
    omega
  generalize tangentRoot a = r at hstep
  generalize rootEstimate a = x at hpos hstep
  have hquotient : a < (a / (x * (x - 1)) + 1) * (x * (x - 1)) := by
    have hlt := Nat.lt_div_mul_add (a := a) hpos
    rwa [Nat.add_mul, Nat.one_mul]
  generalize a / (x * (x - 1)) = q at hstep hquotient
  -- the tangent lies above the root
  have htangent : 27 * a ≤ (2 * x + (q + 1)) ^ 3 := by
    have hle : (q + 1) * (x * (x - 1)) ≤ (q + 1) * (x * x) :=
      Nat.mul_le_mul_left _ (Nat.mul_le_mul_left _ (Nat.sub_le x 1))
    have hmean : 27 * ((q + 1) * (x * x)) ≤ (2 * x + (q + 1)) ^ 3 := by
      have hcube := tangent_cube x (q + 1 : Nat)
      zify
      push_cast at hcube
      rw [hcube]
      nlinarith [mul_nonneg (sq_nonneg ((q : Int) + 1 - x)) (by omega : (0 : Int) ≤ q + 1 + 8 * x)]
    omega
  have hlarge : 1287 ≤ r := by
    by_contra hsmall
    have hcube : (2 * x + (q + 1)) ^ 3 ≤ 3869 ^ 3 := Nat.pow_le_pow_left (by omega) 3
    omega
  -- rounding takes less than two from the root
  have hround : 341 * 1000 * (2 * x + (q + 1)) ≤ 1025060 * r := by omega
  have hcube : (341 * 1000 * (2 * x + (q + 1))) ^ 3 ≤ (1025060 * r) ^ 3 :=
    Nat.pow_le_pow_left hround 3
  rw [Nat.mul_pow, Nat.mul_pow 1025060] at hcube
  omega

/-- The time to the origin of an epoch that begins outside a handover. -/
def plainK (lastMaxCwnd cwnd : UInt32) : Nat :=
  tangentRoot (cubeFactor.toNat * (lastMaxCwnd.toNat - cwnd.toNat))

/-- The factor of the law, in packets for the cube of a tick. -/
noncomputable def growthFactor : ℝ := (cubeRttScale.toNat : ℝ) / ((2 : Nat) ^ 40 : Nat)

/-- What an epoch has to make up for. -/
noncomputable def lostWindow (lastMaxCwnd cwnd : UInt32) : ℝ := lastMaxCwnd.toNat - cwnd.toNat

/-- The window of the law at tick `t` of an epoch that begins at the window `cwnd`. -/
noncomputable def cubicWindow (lastMaxCwnd cwnd : UInt32) (t : ℝ) : ℝ :=
  CubicLaw.window growthFactor lastMaxCwnd.toNat
    (CubicLaw.plateauTime growthFactor (lostWindow lastMaxCwnd cwnd)) t

theorem growthFactor_eq : growthFactor = 410 / 2 ^ 40 := by
  rw [growthFactor, show cubeRttScale.toNat = 410 from rfl]
  norm_num

theorem growthFactor_pos : 0 < growthFactor := by
  rw [growthFactor_eq]
  positivity

section Window

variable {lastMaxCwnd cwnd bicK : UInt32} {t : UInt64}

theorem lostWindow_eq (hlt : cwnd < lastMaxCwnd) :
    lostWindow lastMaxCwnd cwnd = (lastMaxCwnd.toNat - cwnd.toNat : Nat) := by
  rw [lostWindow, Nat.cast_sub (UInt32.lt_iff_toNat_lt.mp hlt).le]

theorem lostWindow_nonneg (hlt : cwnd < lastMaxCwnd) : 0 ≤ lostWindow lastMaxCwnd cwnd := by
  rw [lostWindow_eq hlt]
  exact Nat.cast_nonneg _

/-- **The machine's time is the law's**, but for a 448th. -/
theorem plainK_near (hlt : cwnd < lastMaxCwnd) :
    |(plainK lastMaxCwnd cwnd : ℝ) -
        CubicLaw.plateauTime growthFactor (lostWindow lastMaxCwnd cwnd)| ≤
      1 / 448 * CubicLaw.plateauTime growthFactor (lostWindow lastMaxCwnd cwnd) := by
  have hsize : RootSize (cubeFactor.toNat * (lastMaxCwnd.toNat - cwnd.toNat)) := by
    have hlt' := UInt32.lt_iff_toNat_lt.mp hlt
    have hmax := lastMaxCwnd.toNat_lt
    rw [cubeFactor_toNat]
    exact ⟨by omega, by omega⟩
  have hle := hsize.tangentRoot_cube_le
  have hge := hsize.tangentRoot_cube_ge
  have hcube := CubicLaw.mul_plateauTime_cube growthFactor_pos (lostWindow_nonneg hlt)
  have hnonneg := CubicLaw.plateauTime_nonneg growthFactor_pos (lostWindow_nonneg hlt)
  generalize CubicLaw.plateauTime growthFactor (lostWindow lastMaxCwnd cwnd) = P at hcube hnonneg ⊢
  rw [lostWindow_eq hlt, growthFactor_eq] at hcube
  rw [plainK]
  generalize tangentRoot _ = K at hle hge
  rw [cubeFactor_toNat] at hle hge
  generalize lastMaxCwnd.toNat - cwnd.toNat = lost at hle hge hcube
  have hle' : (150 * K ^ 3 : ℝ) ≤ 151 * (2681735677 * lost) := by exact_mod_cast hle
  have hge' : (150 * (2681735677 * lost) : ℝ) ≤ 151 * K ^ 3 := by exact_mod_cast hge
  have hlost : (0 : ℝ) ≤ lost := Nat.cast_nonneg lost
  refine CubicLaw.near_of_cube hnonneg (Nat.cast_nonneg K) (by norm_num) (by norm_num) ?_ ?_
  · rw [mul_pow]
    norm_num at hcube ⊢
    linarith
  · rw [mul_pow]
    norm_num at hcube ⊢
    linarith

theorem plainK_small (hlt : cwnd < lastMaxCwnd) (hmax : lastMaxCwnd.toNat < 1000000) :
    plainK lastMaxCwnd cwnd < 270000 := by
  have hrange : RootRange (cubeFactor.toNat * (lastMaxCwnd.toNat - cwnd.toNat)) := by
    have hlt' := UInt32.lt_iff_toNat_lt.mp hlt
    rw [cubeFactor_toNat]
    exact ⟨by omega, by omega⟩
  exact hrange.tangentRoot_small

/-! ## Targets -/

/-- Up to twice the time everything fits. -/
theorem cubeFits_of_time (hlt : cwnd < lastMaxCwnd) (hmax : lastMaxCwnd.toNat < 1000000)
    (hK : bicK.toNat = plainK lastMaxCwnd cwnd)
    (ht : (t.toNat : ℝ) ≤ 2 * CubicLaw.plateauTime growthFactor (lostWindow lastMaxCwnd cwnd)) :
    CubeFits bicK t := by
  have hsmall := plainK_small hlt hmax
  have hcube := CubicLaw.mul_plateauTime_cube growthFactor_pos (lostWindow_nonneg hlt)
  generalize CubicLaw.plateauTime growthFactor (lostWindow lastMaxCwnd cwnd) = P at hcube ht
  have hlost : lostWindow lastMaxCwnd cwnd ≤ 1000000 := by
    rw [lostWindow_eq hlt]
    exact_mod_cast (by omega : lastMaxCwnd.toNat - cwnd.toNat ≤ 1000000)
  have htime : P < 139000 := by
    by_contra hle
    have hpow : (139000 : ℝ) ^ 3 ≤ P ^ 3 := pow_le_pow_left₀ (by norm_num) (not_lt.mp hle) 3
    rw [growthFactor_eq] at hcube
    norm_num at hcube hpow
    linarith
  have ht' : t.toNat ≤ 278000 := by
    have : (t.toNat : ℝ) ≤ 278000 := by linarith
    exact_mod_cast this
  have hpow : max t.toNat bicK.toNat ^ 3 ≤ 278000 ^ 3 := Nat.pow_le_pow_left (by omega) 3
  rw [CubeFits]
  omega

/-- **A target is a value of the law**, with the machine's time and rounded to a packet. -/
theorem target_near (hfits : CubeFits bicK t) (htarget : TargetFits lastMaxCwnd bicK t)
    (hmax : lastMaxCwnd.toNat < 1000000) :
    |((bicTarget lastMaxCwnd bicK t).toNat : ℝ) -
      CubicLaw.window growthFactor lastMaxCwnd.toNat bicK.toNat t.toNat| ≤ 1 := by
  have hdelta := cubicDelta_toNat hfits
  have hfloor : 2 ^ 40 * (cubicDelta bicK t).toNat ≤ 410 * cubicOffs bicK t ^ 3 := by omega
  have hceil : 410 * cubicOffs bicK t ^ 3 ≤ 2 ^ 40 * ((cubicDelta bicK t).toNat + 1) := by omega
  have hfloor' : (2 ^ 40 * (cubicDelta bicK t).toNat : ℝ) ≤ 410 * (cubicOffs bicK t : ℝ) ^ 3 := by
    exact_mod_cast hfloor
  have hceil' : (410 * (cubicOffs bicK t : ℝ) ^ 3 : ℝ) ≤
      2 ^ 40 * ((cubicDelta bicK t).toNat + 1) := by exact_mod_cast hceil
  rw [bicTarget_toNat htarget hmax, CubicLaw.window, growthFactor_eq]
  split
  next hbelow =>
    have hlt : t < bicK.toUInt64 := by
      rwa [UInt64.lt_iff_toNat_lt, UInt32.toNat_toUInt64]
    have hle := UInt32.le_iff_toNat_le.mp (htarget hlt)
    have hoffs : (cubicOffs bicK t : ℝ) = bicK.toNat - t.toNat := by
      rw [cubicOffs, if_pos hbelow, Nat.cast_sub hbelow.le]
    rw [Nat.cast_sub hle, abs_le]
    rw [hoffs] at hfloor' hceil'
    constructor <;> nlinarith
  next hbelow =>
    have hoffs : (cubicOffs bicK t : ℝ) = t.toNat - bicK.toNat := by
      rw [cubicOffs, if_neg hbelow, Nat.cast_sub (Nat.le_of_not_lt hbelow)]
    rw [Nat.cast_add, abs_le]
    rw [hoffs] at hfloor' hceil'
    constructor <;> nlinarith

/-- **The targets of an epoch follow the law**, up to twice the time. -/
theorem target_law (hlt : cwnd < lastMaxCwnd) (hmax : lastMaxCwnd.toNat < 1000000)
    (hzero : ¬ StartsBelowZero lastMaxCwnd.toNat cwnd.toNat)
    (hK : bicK.toNat = plainK lastMaxCwnd cwnd)
    (ht : (t.toNat : ℝ) ≤ 2 * CubicLaw.plateauTime growthFactor (lostWindow lastMaxCwnd cwnd)) :
    |((bicTarget lastMaxCwnd bicK t).toNat : ℝ) - cubicWindow lastMaxCwnd cwnd t.toNat| ≤
      lostWindow lastMaxCwnd cwnd / 100 + 1 := by
  have hfits := cubeFits_of_time hlt hmax hK ht
  have htarget : TargetFits lastMaxCwnd bicK t := by
    have hsmall := plainK_small hlt hmax
    refine (targetFits_iff (by omega)).mpr ?_ t
    rw [hK]
    exact not_le.mp hzero
  have hnear := target_near hfits htarget hmax
  have hcube := CubicLaw.mul_plateauTime_cube growthFactor_pos (lostWindow_nonneg hlt)
  have htime := plainK_near hlt
  rw [← hK] at htime
  have hclose := @CubicLaw.window_close growthFactor lastMaxCwnd.toNat bicK.toNat _ t.toNat _
    growthFactor_pos.le (by norm_num) htime (Nat.cast_nonneg _) ht
  rw [hcube] at hclose
  have hsum := abs_sub_le ((bicTarget lastMaxCwnd bicK t).toNat : ℝ)
    (CubicLaw.window growthFactor lastMaxCwnd.toNat bicK.toNat t.toNat)
    (cubicWindow lastMaxCwnd cwnd t.toNat)
  have hlost := lostWindow_nonneg hlt
  rw [cubicWindow] at hsum ⊢
  norm_num at hclose
  linarith

end Window

/-! ## Epochs over a run -/

/-- An epoch begins below the old window, in no reported handover, and does not start below zero. -/
structure BeginsPlain (kernel : Kernel ρ) (v : ModuleVisit ρ) (u : UpdateCall) : Prop where
  update : updateOf kernel v = some u
  unreported : v.input.handoverStatus = false
  cubic : ComputesCubic kernel u.ca u.cwnd u.jiffies
  begins : u.ca.epochStart = 0
  below : u.cwnd < u.ca.lastMaxCwnd
  small : u.ca.lastMaxCwnd.toNat < 1000000
  starts : ¬ StartsBelowZero u.ca.lastMaxCwnd.toNat u.cwnd.toNat

section Plain

variable {kernel : Kernel ρ} {v : ModuleVisit ρ} {u : UpdateCall}

theorem BeginsPlain.begun (h : BeginsPlain kernel v u) :
    GoesBack u.ca.lastMaxCwnd (plainK u.ca.lastMaxCwnd u.cwnd) (u.begun false) := by
  obtain ⟨horigin, hK⟩ := u.begun_below false h.begins h.below
  refine ⟨horigin, ?_⟩
  rw [hK, if_neg Bool.false_ne_true]
  exact epochRoot_toNat h.below

/-- **`bictcp_update` follows CUBIC's law.**  Over every run of callbacks: let call `i` begin an
epoch at a window below the old one, with no handover reported.  Whatever comes behind it, as long
as the epoch goes on and up to twice the time to the old window: a call that computes the cubic
function has a target that is no farther from the law than a hundredth of what was lost, and a
packet; and it leaves a `cnt` that lets the window grow to the law, but for this distance, by
the ACKs of one window or by one packet in two ACKs. -/
theorem law_run (kernel : Kernel ρ) (ca : Bictcp) (calls : List (TimedCall ρ)) (i j : Nat)
    (v w : ModuleVisit ρ) (u u' : UpdateCall) (ca' : Bictcp) (t : UInt64)
    (hv : (moduleRun kernel ca calls)[i]? = some v) (hbegins : BeginsPlain kernel v u)
    (hij : i ≤ j) (hlasts : ∀ r x, i < r → r ≤ j → (moduleRun kernel ca calls)[r]? = some x →
      x.before.epochStart ≠ 0)
    (hw : (moduleRun kernel ca calls)[j]? = some w) (hupdate : updateOf kernel w = some u')
    (hcubic : ComputesCubic kernel u'.ca u'.cwnd u'.jiffies)
    (ht : t = epochTime kernel (u'.begun w.input.handoverStatus) u'.jiffies)
    (htime : (t.toNat : ℝ) ≤
      2 * CubicLaw.plateauTime growthFactor (lostWindow u.ca.lastMaxCwnd u.cwnd))
    (hok : w.done.result = .ok ca') :
    |((bicTarget (u'.begun w.input.handoverStatus).bicOriginPoint
        (u'.begun w.input.handoverStatus).bicK t).toNat : ℝ) -
      cubicWindow u.ca.lastMaxCwnd u.cwnd t.toNat| ≤
        lostWindow u.ca.lastMaxCwnd u.cwnd / 100 + 1 ∧
    ∀ law : Nat, (law : ℝ) ≤ cubicWindow u.ca.lastMaxCwnd u.cwnd t.toNat -
        (lostWindow u.ca.lastMaxCwnd u.cwnd / 100 + 1) → u'.cwnd.toNat < law →
      ca'.cnt.toNat ≤ max (u'.cwnd.toNat / (law - u'.cwnd.toNat)) 2 := by
  have hrun := moduleRun_ok hw hok
  obtain ⟨hcalled, -⟩ := updateOf_run hupdate hrun
  have hback : GoesBack u.ca.lastMaxCwnd (plainK u.ca.lastMaxCwnd u.cwnd)
      (u'.begun w.input.handoverStatus) :=
    goesBack_computes hij hv hbegins.update hbegins.cubic (hbegins.unreported ▸ hbegins.begun) hw
      hlasts hupdate hrun
  have hlaw := target_law hbegins.below hbegins.small hbegins.starts hback.bicK htime
  rw [hback.origin]
  refine ⟨hlaw, fun law hle hcwnd => ?_⟩
  have htarget : law ≤
      (bicTarget u.ca.lastMaxCwnd (u'.begun w.input.handoverStatus).bicK t).toNat := by
    have hleast := (abs_le.mp hlaw).1
    have hcast : (law : ℝ) ≤
        (bicTarget u.ca.lastMaxCwnd (u'.begun w.input.handoverStatus).bicK t).toNat := by linarith
    exact_mod_cast hcast
  rw [ht, ← hback.origin] at htarget
  exact bictcpUpdate_cnt hcubic hcwnd htarget hcalled

/-- From a window of 100 packets towards 1000, and three seconds later. -/
def regaining : List (TimedCall LinuxSock) :=
  [⟨.callback (.congAvoid (.withCwnd 100) 0 1 ⟨5000, 0⟩), false, 5000⟩,
    ⟨.callback (.congAvoid (.withCwnd 101) 0 1 ⟨8000, 3000⟩), true, 8000⟩]

theorem law_run_regaining : ∃ (w : ModuleVisit LinuxSock) (u' : UpdateCall),
    (moduleRun Kernel.linux (.withTarget 1000) regaining)[1]? = some w ∧
      updateOf Kernel.linux w = some u' ∧
      |((bicTarget (u'.begun true).bicOriginPoint (u'.begun true).bicK 3072).toNat : ℝ) -
        cubicWindow 1000 100 3072| ≤ lostWindow 1000 100 / 100 + 1 := by
  have hlasts : ∀ (r : Nat) (x : ModuleVisit LinuxSock), 0 < r → r ≤ 1 →
      (moduleRun Kernel.linux (.withTarget 1000) regaining)[r]? = some x →
      x.before.epochStart ≠ 0 := by
    intro r x h₀ h₁ hx
    obtain rfl : r = 1 := Nat.le_antisymm h₁ h₀
    obtain rfl := Option.some.inj hx
    decide +kernel
  have hlost : lostWindow 1000 100 = 900 := by
    rw [lostWindow_eq (by decide)]
    rfl
  have htime : ((3072 : UInt64).toNat : ℝ) ≤
      2 * CubicLaw.plateauTime growthFactor (lostWindow 1000 100) := by
    have hcube := CubicLaw.mul_plateauTime_cube growthFactor_pos
      (lostWindow_nonneg (by decide : (100 : UInt32) < 1000))
    rw [hlost, growthFactor_eq] at hcube
    rw [hlost, show (3072 : UInt64).toNat = 3072 from rfl]
    by_contra hlt
    have hpow := pow_le_pow_left₀
      (CubicLaw.plateauTime_nonneg growthFactor_pos (by norm_num : (0 : ℝ) ≤ 900))
      (by push_cast at hlt; linarith : CubicLaw.plateauTime growthFactor 900 ≤ 1536) 3
    norm_num at hcube hpow
    rw [growthFactor_eq] at hpow
    linarith
  obtain ⟨hlaw, -⟩ := law_run Kernel.linux (.withTarget 1000) regaining 0 1 _ _
    ⟨.withTarget 1000, 100, 1, 5000⟩ _ _ 3072 rfl
    { update := rfl, unreported := rfl, cubic := ⟨rfl, rfl⟩, begins := rfl
      below := by decide, small := by decide, starts := by decide +kernel }
    (Nat.zero_le 1) hlasts rfl rfl ⟨rfl, rfl⟩ (by decide +kernel) htime rfl
  exact ⟨_, _, rfl, rfl, hlaw⟩

end Plain

end LeoEM
