/-
# `Satcp.Reopen` — how far a handover opens the window again

An epoch that begins in a reported handover has a ninth of the time to the origin of the cubic
function, and a ninth of the time is the 729th part of the way.  So its targets do not climb
to the old window, they are there from the beginning: none is farther below it than a 700th of
what was lost (`target_reopened`).  Until the window is up again `bictcp_update` lets it grow
as fast as such a target allows, whatever callbacks come between its calls and whatever
`handover_status` is at them, as long as the epoch goes on (`reopens_run`).
-/
import LeoEM.Satcp.Growth

namespace LeoEM

variable {ρ : Type}

/-! ## The target -/

/-- The old window, but for a 700th of what was lost. -/
def reopened (lastMaxCwnd cwnd : UInt32) : Nat :=
  lastMaxCwnd.toNat - (lastMaxCwnd.toNat - cwnd.toNat) / 700

/-- The time to the origin of an epoch that begins in a handover. -/
def handoverK (lastMaxCwnd cwnd : UInt32) : Nat :=
  let root := tangentRoot (cubeFactor.toNat * (lastMaxCwnd.toNat - cwnd.toNat))
  root - root * 8 / 9

/-- A ninth of the time is a 700th of the way. -/
theorem ninth_delta {lost root : Nat} (h : 150 * root ^ 3 ≤ 151 * (cubeFactor.toNat * lost)) :
    700 * (410 * (root - root * 8 / 9) ^ 3 / 2 ^ 40) ≤ lost := by
  rw [cubeFactor_toNat] at h
  generalize hs : root - root * 8 / 9 = s
  have hninth : 9 * s ≤ root + 8 := by omega
  by_cases hsmall : root < 1210
  · have hcube : s ^ 3 ≤ 135 ^ 3 := Nat.pow_le_pow_left (by omega) 3
    omega
  · -- rounding up adds less than a part in 150
    have hcube : (10890 * s) ^ 3 ≤ (1218 * root) ^ 3 := Nat.pow_le_pow_left (by omega) 3
    rw [Nat.mul_pow, Nat.mul_pow] at hcube
    omega

section Target

variable {lastMaxCwnd cwnd bicK : UInt32} {t : UInt64}

/-- **No target of the epoch is farther below the old window.** -/
theorem target_reopened (hlt : cwnd < lastMaxCwnd) (hmax : lastMaxCwnd.toNat < 1000000)
    (hK : bicK.toNat = handoverK lastMaxCwnd cwnd) :
    reopened lastMaxCwnd cwnd ≤ (bicTarget lastMaxCwnd bicK t).toNat := by
  rw [UInt32.lt_iff_toNat_lt] at hlt
  have hrange : RootRange (cubeFactor.toNat * (lastMaxCwnd.toNat - cwnd.toNat)) := by
    rw [cubeFactor_toNat]
    exact ⟨by omega, by omega⟩
  have hsmall := hrange.tangentRoot_small
  have hdelta := ninth_delta hrange.size.tangentRoot_cube_le
  rw [handoverK] at hK
  rw [← hK] at hdelta
  have htarget : TargetFits lastMaxCwnd bicK t :=
    (targetFits_iff (by omega)).mpr (by omega) t
  rw [bicTarget_toNat htarget hmax, reopened]
  split
  next hbelow =>
    have hoffs : (cubicOffs bicK t) ^ 3 ≤ bicK.toNat ^ 3 := by
      rw [cubicOffs, if_pos hbelow]
      exact Nat.pow_le_pow_left (Nat.sub_le _ _) 3
    rw [cubicDelta_toNat (cubeFits_before (by omega) hbelow.le)]
    omega
  next =>
    -- behind the origin the target is no lower, even if the cube has overflown
    omega

end Target

/-! ## Handovers -/

/-- An epoch begins below the old window, in a reported handover. -/
structure BeginsInHandover (kernel : Kernel ρ) (v : ModuleVisit ρ) (u : UpdateCall) : Prop where
  update : updateOf kernel v = some u
  reported : v.input.handoverStatus = true
  cubic : ComputesCubic kernel u.ca u.cwnd u.jiffies
  begins : u.ca.epochStart = 0
  below : u.cwnd < u.ca.lastMaxCwnd
  small : u.ca.lastMaxCwnd.toNat < 1000000

section Handover

variable {kernel : Kernel ρ} {v : ModuleVisit ρ} {u : UpdateCall}

theorem BeginsInHandover.begun (h : BeginsInHandover kernel v u) :
    GoesBack u.ca.lastMaxCwnd (handoverK u.ca.lastMaxCwnd u.cwnd) (u.begun true) := by
  obtain ⟨horigin, hK⟩ := u.begun_below true h.begins h.below
  have hroot := epochRoot_toNat h.below
  have hsmall := (rootRange h.below h.small).tangentRoot_small
  refine ⟨horigin, ?_⟩
  rw [hK, if_pos rfl, shrunk_toNat (by omega), hroot]
  rfl

/-- **A handover opens the window again.**  Over every run of callbacks: let call `i` begin an epoch
at a window below the old one, in a reported handover.  Whatever comes behind it, as long as the
epoch goes on, and however late: a call that computes the cubic function has a target that is no
farther below the old window than a 700th of what was lost; and while the window is below that,
the call leaves a `cnt` that lets it grow by the ACKs of one window to that target, or by one
packet in two ACKs. -/
theorem reopens_run (kernel : Kernel ρ) (ca : Bictcp) (calls : List (TimedCall ρ)) (i j : Nat)
    (v w : ModuleVisit ρ) (u u' : UpdateCall) (ca' : Bictcp)
    (hv : (moduleRun kernel ca calls)[i]? = some v) (hbegins : BeginsInHandover kernel v u)
    (hij : i ≤ j) (hlasts : ∀ r x, i < r → r ≤ j → (moduleRun kernel ca calls)[r]? = some x →
      x.before.epochStart ≠ 0)
    (hw : (moduleRun kernel ca calls)[j]? = some w) (hupdate : updateOf kernel w = some u')
    (hcubic : ComputesCubic kernel u'.ca u'.cwnd u'.jiffies)
    (hok : w.done.result = .ok ca') :
    reopened u.ca.lastMaxCwnd u.cwnd ≤ (bicTarget (u'.begun w.input.handoverStatus).bicOriginPoint
      (u'.begun w.input.handoverStatus).bicK
      (epochTime kernel (u'.begun w.input.handoverStatus) u'.jiffies)).toNat ∧
    (u'.cwnd.toNat < reopened u.ca.lastMaxCwnd u.cwnd → ca'.cnt.toNat ≤
      max (u'.cwnd.toNat / (reopened u.ca.lastMaxCwnd u.cwnd - u'.cwnd.toNat)) 2) := by
  have hrun := moduleRun_ok hw hok
  obtain ⟨hcalled, -⟩ := updateOf_run hupdate hrun
  have hback : GoesBack u.ca.lastMaxCwnd (handoverK u.ca.lastMaxCwnd u.cwnd)
      (u'.begun w.input.handoverStatus) :=
    goesBack_computes hij hv hbegins.update hbegins.cubic (hbegins.reported ▸ hbegins.begun) hw
      hlasts hupdate hrun
  have htarget : reopened u.ca.lastMaxCwnd u.cwnd ≤
      (bicTarget (u'.begun w.input.handoverStatus).bicOriginPoint
        (u'.begun w.input.handoverStatus).bicK
        (epochTime kernel (u'.begun w.input.handoverStatus) u'.jiffies)).toNat := by
    rw [hback.origin]
    exact target_reopened hbegins.below hbegins.small hback.bicK
  exact ⟨htarget, fun hcwnd => bictcpUpdate_cnt hcubic hcwnd htarget hcalled⟩

/-- From a window of 100 packets back to 1000, and another call when the handover is over. -/
def reopening : List (TimedCall LinuxSock) :=
  [⟨.callback (.congAvoid (.withCwnd 100) 0 1 ⟨5000, 0⟩), true, 5000⟩,
    ⟨.callback (.congAvoid (.withCwnd 101) 0 1 ⟨5100, 100⟩), false, 5100⟩]

theorem reopens_run_reopening : ∃ (w : ModuleVisit LinuxSock) (ca' : Bictcp),
    (moduleRun Kernel.linux (.withTarget 1000) reopening)[1]? = some w ∧
      w.done.result = .ok ca' ∧ ca'.cnt.toNat ≤ 2 := by
  have hlasts : ∀ (r : Nat) (x : ModuleVisit LinuxSock), 0 < r → r ≤ 1 →
      (moduleRun Kernel.linux (.withTarget 1000) reopening)[r]? = some x →
      x.before.epochStart ≠ 0 := by
    intro r x h₀ h₁ hx
    obtain rfl : r = 1 := Nat.le_antisymm h₁ h₀
    obtain rfl := Option.some.inj hx
    decide +kernel
  have hreopens := reopens_run Kernel.linux (.withTarget 1000) reopening 0 1 _ _
    ⟨.withTarget 1000, 100, 1, 5000⟩ _ _ rfl
    { update := rfl, reported := rfl, cubic := ⟨rfl, rfl⟩, begins := rfl
      below := by decide, small := by decide }
    (Nat.zero_le 1) hlasts rfl rfl ⟨rfl, rfl⟩ rfl
  exact ⟨_, _, rfl, rfl, (hreopens.2 (by decide +kernel)).trans (by decide +kernel)⟩

end Handover

end LeoEM
