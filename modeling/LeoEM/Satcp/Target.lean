/-
# `Satcp.Target` — what SaTCP remembers through a handover

The target of the cubic function is `last_max_cwnd`, and 0 stands for a target that is not
known.  During a reported handover `bictcp_state` does not reset it, so only
`bictcp_recalc_ssthresh` writes it.  That scales the window by 1741/2048, and a window of
one packet becomes 0: a second loss at the smallest window forgets the target after all.

`target_kept_iff`: over every run of callbacks that is the only way to lose it.
-/
import LeoEM.Base.Logged
import LeoEM.Satcp.Cubic

namespace LeoEM

variable {ρ : Type}

/-- One call of a callback that works on the state of a connection. -/
inductive Callback (ρ : Type) where
  | recalcSsthresh (tp : TcpSock ρ)
  | state (tp : TcpSock ρ) (newState : UInt8) (now : Clocks)
  | congAvoid (tp : TcpSock ρ) (ack acked : UInt32) (now : Clocks)
  | acked (tp : TcpSock ρ) (rttUs : Int32) (now : Clocks)
  | cwndEvent (tp : TcpSock ρ) (event : CaEvent) (now : Clocks)

namespace Callback

/-- The socket the callback is called for. -/
def tp : Callback ρ → TcpSock ρ
  | recalcSsthresh tp => tp
  | state tp _ _ => tp
  | congAvoid tp _ _ _ => tp
  | acked tp _ _ => tp
  | cwndEvent tp _ _ => tp

/-- The module's state behind the call. -/
def run (kernel : Kernel ρ) (handoverStatus : Bool) (ca : Bictcp) :
    Callback ρ → Except Diverges Bictcp
  | recalcSsthresh tp => pure (bictcpRecalcSsthresh tp ca).2
  | state tp newState now => pure (bictcpState handoverStatus tp ca newState now)
  | congAvoid tp ack count now =>
      (bictcpCongAvoid kernel handoverStatus tp ca ack count now).map Prod.snd
  | acked tp rttUs now => pure (bictcpAcked kernel tp ca rttUs now).2
  | cwndEvent tp event now => pure (bictcpCwndEvent tp ca event now)

/-- A loss is found at a window of one packet, with a target above it. -/
def Truncates (ca : Bictcp) : Callback ρ → Prop
  | recalcSsthresh tp => tp.sndCwnd = 1 ∧ 1 < ca.lastMaxCwnd
  | _ => False

end Callback

abbrev CubicVisit (ρ : Type) := Logged.Visit Bictcp (Callback ρ) Empty Diverges

/-- Callbacks one after the other while a handover is reported. -/
def handoverRun (kernel : Kernel ρ) (ca : Bictcp) (callbacks : List (Callback ρ)) :
    List (CubicVisit ρ) :=
  Logged.visits (fun ca c => Logged.ofExcept (c.run kernel true ca)) ca callbacks

/-! ## One loss -/

/-- The target behind a loss, in packets. -/
theorem recalc_lastMaxCwnd {tp : TcpSock ρ} {ca : Bictcp} (hlt : tp.sndCwnd.toNat < 1000000) :
    (bictcpRecalcSsthresh tp ca).2.lastMaxCwnd.toNat =
      if tp.sndCwnd < ca.lastMaxCwnd then tp.sndCwnd.toNat * 1741 / 2048
      else tp.sndCwnd.toNat := by
  have hmul : (tp.sndCwnd * (bictcpBetaScale + beta)).toNat = tp.sndCwnd.toNat * 1741 := by
    rw [UInt32.toNat_mul]
    exact Nat.mod_eq_of_lt (by
      rw [show (bictcpBetaScale + beta).toNat = 1741 from rfl]
      omega)
  simp only [bictcpRecalcSsthresh, fastConvergence, and_true]
  split
  · rw [UInt32.toNat_div, hmul]
    rfl
  · rfl

/-- **A loss keeps a target**, unless it is found at a window of one packet below it. -/
theorem recalc_pos_iff {tp : TcpSock ρ} {ca : Bictcp} (hpos : 1 ≤ tp.sndCwnd.toNat)
    (hlt : tp.sndCwnd.toNat < 1000000) :
    0 < (bictcpRecalcSsthresh tp ca).2.lastMaxCwnd ↔
      ¬ (tp.sndCwnd = 1 ∧ 1 < ca.lastMaxCwnd) := by
  rw [UInt32.lt_iff_toNat_lt, recalc_lastMaxCwnd hlt, UInt32.toNat_zero]
  have hone : tp.sndCwnd = 1 ↔ tp.sndCwnd.toNat = 1 := UInt32.toNat_inj.symm
  rw [hone]
  simp only [UInt32.lt_iff_toNat_lt, UInt32.toNat_one]
  split <;> omega

/-! ## Runs -/

section Runs

variable {kernel : Kernel ρ} {ca ca' : Bictcp} {c : Callback ρ}

/-- **One callback keeps a target**, exactly if it does not truncate it. -/
theorem callback_pos_iff (hpos : 1 ≤ c.tp.sndCwnd.toNat) (hlt : c.tp.sndCwnd.toNat < 1000000)
    (hca : 0 < ca.lastMaxCwnd) (h : c.run kernel true ca = .ok ca') :
    0 < ca'.lastMaxCwnd ↔ ¬ c.Truncates ca := by
  cases c with
  | recalcSsthresh tp =>
      cases h
      exact recalc_pos_iff hpos hlt
  | state tp newState now =>
      cases h
      refine iff_of_true ?_ id
      unfold bictcpState
      split
      · exact hca
      · exact hca
  | congAvoid tp ack count now =>
      refine iff_of_true ?_ id
      cases hr : bictcpCongAvoid kernel true tp ca ack count now with
      | error e => simp [Callback.run, hr, Except.map] at h
      | ok r =>
          simp only [Callback.run, hr, Except.map, Except.ok.injEq] at h
          rw [← h, bictcpCongAvoid_lastMaxCwnd hr]
          exact hca
  | acked tp rttUs now =>
      cases h
      exact iff_of_true (by rw [bictcpAcked_lastMaxCwnd]; exact hca) id
  | cwndEvent tp event now =>
      cases h
      exact iff_of_true (by rw [bictcpCwndEvent_lastMaxCwnd]; exact hca) id

/-- Only a call of `bictcp_recalc_ssthresh` truncates, and that call returns. -/
theorem returns_of_truncates (kernel : Kernel ρ) (h : c.Truncates ca) :
    ∃ ca', c.run kernel true ca = .ok ca' := by
  cases c with
  | recalcSsthresh tp => exact ⟨_, rfl⟩
  | state tp newState now => exact absurd h id
  | congAvoid tp ack count now => exact absurd h id
  | acked tp rttUs now => exact absurd h id
  | cwndEvent tp event now => exact absurd h id

end Runs

/-- The target is known behind every callback that has returned. -/
def TargetKept (vs : List (CubicVisit ρ)) : Prop :=
  ∀ (k : Nat) (v : CubicVisit ρ) (ca' : Bictcp), vs[k]? = some v → v.done.result = .ok ca' →
    0 < ca'.lastMaxCwnd

/-- **A handover does not make SaTCP forget its target**, exactly if no loss is found at a
window of one packet with a target above it. -/
theorem target_kept_iff (kernel : Kernel ρ) (ca : Bictcp) (callbacks : List (Callback ρ))
    (hca : 0 < ca.lastMaxCwnd)
    (hcwnd : ∀ c ∈ callbacks, 1 ≤ c.tp.sndCwnd.toNat ∧ c.tp.sndCwnd.toNat < 1000000) :
    TargetKept (handoverRun kernel ca callbacks) ↔
      ∀ (k : Nat) (v : CubicVisit ρ), (handoverRun kernel ca callbacks)[k]? = some v →
        ¬ v.input.Truncates v.before := by
  have hin : ∀ {k : Nat} {v : CubicVisit ρ}, (handoverRun kernel ca callbacks)[k]? = some v →
      1 ≤ v.input.tp.sndCwnd.toNat ∧ v.input.tp.sndCwnd.toNat < 1000000 :=
    fun hv => hcwnd _ (List.mem_of_getElem? (Logged.visits_input hv).1)
  have hdone : ∀ {k : Nat} {v : CubicVisit ρ}, (handoverRun kernel ca callbacks)[k]? = some v →
      v.done.result = v.input.run kernel true v.before :=
    fun hv => congrArg Logged.result (Logged.visits_input hv).2
  constructor
  · intro hkept k v hv htrunc
    have hbefore : 0 < v.before.lastMaxCwnd :=
      Logged.visits_inv (fun _ ca => 0 < ca.lastMaxCwnd) hca
        (fun k v ca' hv _ hr => hkept k v ca' hv hr) hv
    obtain ⟨ca', hrun⟩ := returns_of_truncates kernel htrunc
    have hpos := hkept k v ca' hv ((hdone hv).trans hrun)
    exact (callback_pos_iff (hin hv).1 (hin hv).2 hbefore hrun).mp hpos htrunc
  · intro hno
    have hstep : ∀ (k : Nat) (v : CubicVisit ρ) (ca' : Bictcp),
        (handoverRun kernel ca callbacks)[k]? = some v → 0 < v.before.lastMaxCwnd →
        v.done.result = .ok ca' → 0 < ca'.lastMaxCwnd :=
      fun k v ca' hv hbefore hr => (callback_pos_iff (hin hv).1 (hin hv).2 hbefore
        ((hdone hv).symm.trans hr)).mpr (hno k v hv)
    intro k v ca' hv hr
    exact hstep k v ca' hv
      (Logged.visits_inv (fun _ ca => 0 < ca.lastMaxCwnd) hca hstep hv) hr

/-- One loss at a window of 10 packets. -/
theorem target_kept_iff_once :
    TargetKept (handoverRun Kernel.linux (.withTarget 10) [.recalcSsthresh (.withCwnd 10)]) ↔
      ∀ (k : Nat) (v : CubicVisit LinuxSock),
        (handoverRun Kernel.linux (.withTarget 10)
          [.recalcSsthresh (TcpSock.withCwnd 10)])[k]? = some v →
        ¬ v.input.Truncates v.before := by
  refine target_kept_iff Kernel.linux (.withTarget 10) [.recalcSsthresh (.withCwnd 10)]
    (by decide) ?_
  intro c hc
  rw [List.mem_singleton.mp hc]
  exact ⟨by decide, by decide⟩

/-- A loss at a window of 10 packets, and another when one packet is sent again. -/
def secondLoss : List (Callback LinuxSock) :=
  [.recalcSsthresh (.withCwnd 10), .state (.withCwnd 10) tcpCALoss ⟨0, 0⟩,
    .recalcSsthresh (.withCwnd 1)]

/-- The second loss makes SaTCP forget the target. -/
theorem secondLoss_forgets :
    0 < (Bictcp.withTarget 20).lastMaxCwnd ∧
      (∀ c ∈ secondLoss, 1 ≤ c.tp.sndCwnd.toNat ∧ c.tp.sndCwnd.toNat < 1000000) ∧
      ¬ TargetKept (handoverRun Kernel.linux (.withTarget 20) secondLoss) := by
  refine ⟨by decide, by decide, ?_⟩
  intro hkept
  have hlast : ((handoverRun Kernel.linux (.withTarget 20) secondLoss)[2]?).map
      (fun v => v.done.result.map Bictcp.lastMaxCwnd) = some (.ok 0) := by rfl
  obtain ⟨v, hv, hr⟩ := Option.map_eq_some_iff.mp hlast
  cases hres : v.done.result with
  | error e =>
      rw [hres] at hr
      cases hr
  | ok ca' =>
      rw [hres] at hr
      have hpos := hkept 2 v ca' hv hres
      rw [show ca'.lastMaxCwnd = 0 from Except.ok.inj hr] at hpos
      exact absurd hpos (by decide)

end LeoEM
