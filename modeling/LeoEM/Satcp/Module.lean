/-
# `Satcp.Module` — the module over the life of a connection

A connection begins with `bictcp_init`, and from then on the kernel calls the callbacks in
any order, with whatever `handover_status` is at the time.  The module relies on a few facts
about its state that no single callback shows: that `cnt` has been computed when a window is
not new to it, that HyStart counts no more than eight samples, that an epoch has not begun in
the future (`Sound`).

Each callback hands them on.  So every call comes back, the kernel is never asked to divide
by less than 2, and the time since an epoch began is never negative (`module_sound`).
-/
import LeoEM.Base.Ticks
import LeoEM.Satcp.Recovery
import LeoEM.Satcp.Target

namespace LeoEM

variable {ρ : Type}

/-! ## Calls -/

def initialSsthresh : UInt32 := 0

/-- `bictcp_init` -/
def bictcpInit (tp : TcpSock ρ) (ca : Bictcp) (now : Clocks) : TcpSock ρ × Bictcp :=
  let ca := bictcpReset ca
  let ca := if hystart then bictcpHystartReset tp ca now else ca
  (if ¬ hystart ∧ initialSsthresh ≠ 0 then { tp with sndSsthresh := initialSsthresh } else tp, ca)

/-- One call of the module, for a connection. -/
inductive ModuleCall (ρ : Type) where
  | init (tp : TcpSock ρ) (now : Clocks)
  | callback (c : Callback ρ)

namespace Callback

/-- The clocks during a callback that reads them. -/
def clocks : Callback ρ → Option Clocks
  | recalcSsthresh _ => none
  | state _ _ now | congAvoid _ _ _ now | acked _ _ now | cwndEvent _ _ now => some now

/-- The windows a callback computes with are below a million packets: that of the socket, and
behind the slow start of `bictcp_cong_avoid` that which it leaves. -/
def WindowsFit (kernel : Kernel ρ) (c : Callback ρ) : Prop :=
  (1 ≤ c.tp.sndCwnd.toNat ∧ c.tp.sndCwnd.toNat < 1000000) ∧
    ∀ tp ack count now, c = congAvoid tp ack count now →
      1 ≤ (kernel.tcpSlowStart tp count).1.sndCwnd.toNat ∧
        (kernel.tcpSlowStart tp count).1.sndCwnd.toNat < 1000000

end Callback

namespace ModuleCall

def run (kernel : Kernel ρ) (handoverStatus : Bool) (ca : Bictcp) :
    ModuleCall ρ → Except Diverges Bictcp
  | init tp now => pure (bictcpInit tp ca now).2
  | callback c => c.run kernel handoverStatus ca

def clocks : ModuleCall ρ → Option Clocks
  | init _ now => some now
  | callback c => c.clocks

def WindowsFit (kernel : Kernel ρ) : ModuleCall ρ → Prop
  | init _ _ => True
  | callback c => c.WindowsFit kernel

end ModuleCall

/-- A call, the `handover_status` during it, and its time in jiffies. -/
structure TimedCall (ρ : Type) where
  call : ModuleCall ρ
  handoverStatus : Bool
  time : Nat

/-- The counter of the jiffies shows the time of the call. -/
def TimedCall.Clocked (c : TimedCall ρ) : Prop :=
  ∀ now, c.call.clocks = some now → Shows now.tcpJiffies32 c.time

abbrev ModuleVisit (ρ : Type) := Logged.Visit Bictcp (TimedCall ρ) Empty Diverges

def moduleRun (kernel : Kernel ρ) (ca : Bictcp) (calls : List (TimedCall ρ)) :
    List (ModuleVisit ρ) :=
  Logged.visits (fun ca c => Logged.ofExcept (c.call.run kernel c.handoverStatus ca)) ca calls

/-- What a call of the run hands on. -/
theorem moduleRun_ok {kernel : Kernel ρ} {ca ca' : Bictcp} {calls : List (TimedCall ρ)} {k : Nat}
    {v : ModuleVisit ρ} (hv : (moduleRun kernel ca calls)[k]? = some v)
    (hok : v.done.result = .ok ca') :
    v.input.call.run kernel v.input.handoverStatus v.before = .ok ca' := by
  rw [(Logged.visits_input hv).2, Logged.ofExcept_result] at hok
  exact hok

/-! ## What every call hands on -/

/-- The module's state at time `t`, for a connection that began at `t₀`. -/
structure Sound (t₀ t : Nat) (ca : Bictcp) : Prop where
  cnt : ca.lastCwnd ≠ 0 → 2 ≤ ca.cnt.toNat
  samples : ca.sampleCnt.toNat ≤ 8
  found : ca.found.toNat ≤ 3
  epoch : ca.epochStart = 0 ∨ ∃ e, t₀ ≤ e ∧ e ≤ t ∧ Shows ca.epochStart e

section Steps

variable {kernel : Kernel ρ} {handoverStatus : Bool} {t₀ t t' : Nat} {ca ca' : Bictcp}
  {tp tp' : TcpSock ρ} {cwnd count : UInt32} {jiffies : UInt32} {now : Clocks}

theorem Sound.later (h : Sound t₀ t ca) (ht : t ≤ t') : Sound t₀ t' ca :=
  ⟨h.cnt, h.samples, h.found, h.epoch.imp_right fun ⟨e, h₀, h₁, hs⟩ => ⟨e, h₀, h₁.trans ht, hs⟩⟩

theorem sound_init (tp : TcpSock ρ) (ca : Bictcp) (now : Clocks) (t₀ t : Nat) :
    Sound t₀ t (bictcpInit tp ca now).2 :=
  ⟨fun h => absurd rfl h, Nat.zero_le 8, Nat.zero_le 3, Or.inl rfl⟩

theorem sound_hystartReset (h : Sound t₀ t ca) (tp : TcpSock ρ) (now : Clocks) :
    Sound t₀ t (bictcpHystartReset tp ca now) := ⟨h.cnt, Nat.zero_le 8, h.found, h.epoch⟩

theorem sound_recalcSsthresh (h : Sound t₀ t ca) (tp : TcpSock ρ) :
    Sound t₀ t (bictcpRecalcSsthresh tp ca).2 := ⟨h.cnt, h.samples, h.found, Or.inl rfl⟩

theorem sound_state (h : Sound t₀ t ca) (tp : TcpSock ρ) (newState : UInt8) (now : Clocks) :
    Sound t₀ t (bictcpState handoverStatus tp ca newState now) := by
  unfold bictcpState
  split
  · split
    · exact ⟨fun hne => absurd rfl hne, Nat.zero_le 8, Nat.zero_le 3, Or.inl rfl⟩
    · exact h
  · exact h

/-- The clamp keeps the start of an epoch out of the future, whatever `lsndtime` is. -/
theorem sound_cwndEvent (h : Sound t₀ t ca) (tp : TcpSock ρ) (event : CaEvent)
    (hnow : Shows now.tcpJiffies32 t) (hspan : t < t₀ + 2 ^ 31) :
    Sound t₀ t (bictcpCwndEvent tp ca event now) := by
  cases event with
  | other => exact h
  | txStart =>
      simp only [bictcpCwndEvent]
      split
      next hidle =>
        refine ⟨h.cnt, h.samples, h.found, Or.inr ?_⟩
        obtain ⟨e, h₀, h₁, he⟩ := h.epoch.resolve_left hidle.1
        rw [UInt32.toUInt32_toInt32]
        have hd : (now.tcpJiffies32 - tp.lsndtime).toNat < 2 ^ 31 := by
          refine Nat.not_le.mp fun hle => ?_
          have hneg := (toInt32_neg_iff _).mpr hle
          have hpos := hidle.2
          rw [gt_iff_lt, Int32.lt_iff_toInt_lt] at hpos
          rw [Int32.lt_iff_toInt_lt] at hneg
          omega
        generalize now.tcpJiffies32 - tp.lsndtime = d at hd
        have hmoved := he.add d
        by_cases hafter : after (ca.epochStart + d) now.tcpJiffies32 = true
        · rw [if_pos hafter]
          exact ⟨t, h₀.trans h₁, Nat.le_refl t, hnow⟩
        · rw [if_neg hafter]
          refine ⟨e + d.toNat, by omega, ?_, hmoved⟩
          rw [after, decide_eq_true_eq, hnow.sub_neg_iff hmoved (by omega) (by omega)] at hafter
          omega
      next => exact h

/-! ### `bictcp_acked` -/

theorem or_le_three {a b : UInt8} (ha : a.toNat ≤ 3) (hb : b.toNat ≤ 3) : (a ||| b).toNat ≤ 3 := by
  rw [UInt8.toNat_or]
  exact Nat.le_of_lt_succ (@Nat.or_lt_two_pow a.toNat b.toNat 2 (Nat.lt_succ_of_le ha)
    (Nat.lt_succ_of_le hb))

theorem sound_detectAckTrain (h : Sound t₀ t ca) (tp : TcpSock ρ) (now : Clocks) :
    Sound t₀ t (detectAckTrain tp ca now).2 := by
  simp only [detectAckTrain]
  split
  · split
    · exact ⟨h.cnt, h.samples, or_le_three h.found (by decide), h.epoch⟩
    · exact ⟨h.cnt, h.samples, h.found, h.epoch⟩
  · exact h

theorem sound_currRtt (h : Sound t₀ t ca) (p : Prop) [Decidable p] (delay : UInt32) :
    Sound t₀ t (if p then { ca with currRtt := delay } else ca) := by
  split
  · exact ⟨h.cnt, h.samples, h.found, h.epoch⟩
  · exact h

theorem sound_detectDelay (h : Sound t₀ t ca) (tp : TcpSock ρ) (delay : UInt32) :
    Sound t₀ t (detectDelay tp ca delay).2 := by
  unfold detectDelay
  have hfirst := sound_currRtt h (ca.currRtt > delay) delay
  generalize (if ca.currRtt > delay then { ca with currRtt := delay } else ca) = first at hfirst
  dsimp only
  by_cases hsamples : first.sampleCnt < hystartMinSamples
  · have hsecond := sound_currRtt hfirst (first.currRtt = 0 ∨ first.currRtt > delay) delay
    have hsame : (if first.currRtt = 0 ∨ first.currRtt > delay then
        { first with currRtt := delay } else first).sampleCnt = first.sampleCnt := by
      split <;> rfl
    rw [if_pos hsamples]
    generalize (if first.currRtt = 0 ∨ first.currRtt > delay then
      { first with currRtt := delay } else first) = second at hsecond hsame
    refine ⟨hsecond.cnt, ?_, hsecond.found, hsecond.epoch⟩
    have hlt : first.sampleCnt.toNat < 8 := UInt8.lt_iff_toNat_lt.mp hsamples
    show (second.sampleCnt + 1).toNat ≤ 8
    rw [hsame, UInt8.toNat_add, show (1 : UInt8).toNat = 1 from rfl]
    omega
  · rw [if_neg hsamples]
    split
    · exact ⟨hfirst.cnt, hfirst.samples, or_le_three hfirst.found (by decide), hfirst.epoch⟩
    · exact hfirst

theorem sound_hystartUpdate (h : Sound t₀ t ca) (tp : TcpSock ρ) (delay : UInt32) (now : Clocks) :
    Sound t₀ t (hystartUpdate tp ca delay now).2 := by
  unfold hystartUpdate
  split
  · exact h
  · exact sound_detectDelay (sound_detectAckTrain h tp now) _ delay

theorem sound_lowerDelayMin (h : Sound t₀ t ca) (delay : UInt32) :
    Sound t₀ t (lowerDelayMin ca delay) := by
  unfold lowerDelayMin
  split
  · exact ⟨h.cnt, h.samples, h.found, h.epoch⟩
  · exact h

theorem sound_acked (h : Sound t₀ t ca) (tp : TcpSock ρ) (rttUs : Int32) (now : Clocks) :
    Sound t₀ t (bictcpAcked kernel tp ca rttUs now).2 := by
  unfold bictcpAcked
  dsimp only
  split
  · exact h
  · split
    · exact h
    · split
      · exact sound_hystartUpdate (sound_lowerDelayMin h _) tp _ now
      · exact sound_lowerDelayMin h _

/-! ### `bictcp_update` -/

theorem two_le_friendlyCnt (cnt cwnd tcpCwnd : UInt32) :
    2 ≤ (friendlyCnt cnt cwnd tcpCwnd).toNat := by
  rw [friendlyCnt, toNat_max]
  exact Nat.le_max_right _ _

/-- The last part comes to its end, and leaves a `cnt` of at least 2. -/
theorem tcpFriendlinessPart_spec (ca : Bictcp) (hpos : 1 ≤ cwnd.toNat)
    (hlt : cwnd.toNat < 1000000) : ∃ ca', tcpFriendlinessPart ca cwnd = .ok ca' ∧
      2 ≤ ca'.cnt.toNat ∧ ca'.sampleCnt = ca.sampleCnt ∧ ca'.found = ca.found ∧
      ca'.epochStart = ca.epochStart := by
  obtain ⟨counts, hcounts⟩ : ∃ counts, countTcpCwnd ((cwnd * betaScale) >>> 3) ca.ackCnt.toNat
      ca.ackCnt ca.tcpCwnd = .ok counts :=
    countTcpCwnd_returns (friendlyDelta_pos hpos (by omega)) (Nat.le_refl ca.ackCnt.toNat)
  rw [tcpFriendlinessPart_eq, hcounts]
  exact ⟨_, rfl, two_le_friendlyCnt _ _ _, rfl, rfl, rfl⟩

theorem sound_beforeCubic (handoverStatus : Bool) (cwnd count : UInt32) (h : Sound t₀ t ca)
    (hjiffies : Shows jiffies t) (ht : t₀ ≤ t) :
    (beforeCubic handoverStatus ca cwnd count jiffies).sampleCnt.toNat ≤ 8 ∧
      (beforeCubic handoverStatus ca cwnd count jiffies).found.toNat ≤ 3 ∧
      ((beforeCubic handoverStatus ca cwnd count jiffies).epochStart = 0 ∨
        ∃ e, t₀ ≤ e ∧ e ≤ t ∧
          Shows (beforeCubic handoverStatus ca cwnd count jiffies).epochStart e) := by
  simp only [beforeCubic]
  split
  · refine ⟨?_, ?_, Or.inr ⟨t, ht, Nat.le_refl t, ?_⟩⟩ <;> simp only [beginEpoch] <;> split
    · exact h.samples
    · exact h.samples
    · exact h.found
    · exact h.found
    · exact hjiffies
    · exact hjiffies
  · exact ⟨h.samples, h.found, h.epoch⟩

/-- **`bictcp_update`** comes back, and leaves a `cnt` of at least 2. -/
theorem sound_update (h : Sound t₀ t ca) (hjiffies : Shows jiffies t) (ht : t₀ ≤ t)
    (hpos : 1 ≤ cwnd.toNat) (hlt : cwnd.toNat < 1000000) :
    ∃ ca', bictcpUpdate kernel handoverStatus ca cwnd count jiffies = .ok ca' ∧
      2 ≤ ca'.cnt.toNat ∧ Sound t₀ t ca' := by
  unfold bictcpUpdate
  split
  next hsoon =>
    -- the window is not new, so `cnt` has been computed before
    simp only [updatesTooSoon, decide_eq_true_eq] at hsoon
    have hne : ca.lastCwnd ≠ 0 := by
      rintro hzero
      rw [← hsoon.1, hzero] at hpos
      exact absurd hpos (by decide)
    exact ⟨_, rfl, h.cnt hne, h.cnt, h.samples, h.found, h.epoch⟩
  next =>
    split
    · obtain ⟨ca', hok, hcnt, hsamples, hfound, hepoch⟩ :=
        tcpFriendlinessPart_spec { ca with ackCnt := ca.ackCnt + count } hpos hlt
      refine ⟨ca', hok, hcnt, fun _ => hcnt, ?_, ?_, ?_⟩
      · rw [hsamples]
        exact h.samples
      · rw [hfound]
        exact h.found
      · rw [hepoch]
        exact h.epoch
    · obtain ⟨hs, hf, he⟩ := sound_beforeCubic handoverStatus cwnd count h hjiffies ht
      obtain ⟨ca', hok, hcnt, hsamples, hfound, hepoch⟩ := tcpFriendlinessPart_spec
        (cubicFunction kernel (beforeCubic handoverStatus ca cwnd count jiffies) cwnd jiffies)
        hpos hlt
      refine ⟨ca', hok, hcnt, fun _ => hcnt, ?_, ?_, ?_⟩
      · rw [hsamples]
        exact hs
      · rw [hfound]
        exact hf
      · rw [hepoch]
        exact he

/-! ### `bictcp_cong_avoid` -/

/-- What the kernel keeps in `tcp_slow_start`, and in `tcp_cong_avoid_ai` as long as it is
called with at least 2, by which it divides. -/
structure Kernel.Keeps (kernel : Kernel ρ) (P : TcpSock ρ → Prop) : Prop where
  slowStart : ∀ tp acked, P tp → P (kernel.tcpSlowStart tp acked).1
  congAvoidAi : ∀ tp w acked, 2 ≤ w.toNat → P tp → P (kernel.tcpCongAvoidAi tp w acked)

theorem sound_updateAndGrow (h : Sound t₀ t ca) (hnow : Shows now.tcpJiffies32 t) (ht : t₀ ≤ t)
    (hpos : 1 ≤ tp.sndCwnd.toNat) (hlt : tp.sndCwnd.toNat < 1000000) :
    ∃ tp' ca', updateAndGrow kernel handoverStatus tp ca count now = .ok (tp', ca') ∧
      Sound t₀ t ca' ∧ ∀ P, kernel.Keeps P → P tp → P tp' := by
  obtain ⟨ca', hok, hcnt, hsound⟩ : ∃ ca', bictcpUpdate kernel handoverStatus ca tp.sndCwnd count
      now.tcpJiffies32 = .ok ca' ∧ 2 ≤ ca'.cnt.toNat ∧ Sound t₀ t ca' :=
    sound_update h hnow ht hpos hlt
  rw [updateAndGrow, hok]
  exact ⟨_, ca', rfl, hsound, fun P hkeeps hP => hkeeps.congAvoidAi tp ca'.cnt count hcnt hP⟩

theorem sound_congAvoid {ack : UInt32} (h : Sound t₀ t ca) (hnow : Shows now.tcpJiffies32 t)
    (ht : t₀ ≤ t) (hfit : (Callback.congAvoid tp ack count now).WindowsFit kernel) :
    ∃ tp' ca', bictcpCongAvoid kernel handoverStatus tp ca ack count now = .ok (tp', ca') ∧
      Sound t₀ t ca' ∧ ∀ P, kernel.Keeps P → P tp → P tp' := by
  obtain ⟨⟨hpos, hlt⟩, hslow⟩ := hfit
  obtain ⟨hpos', hlt'⟩ := hslow tp ack count now rfl
  have hreset : Sound t₀ t
      (if hystart ∧ after ack ca.endSeq then bictcpHystartReset tp ca now else ca) := by
    split
    · exact sound_hystartReset h tp now
    · exact h
  unfold bictcpCongAvoid
  dsimp only
  generalize (if hystart ∧ after ack ca.endSeq then bictcpHystartReset tp ca now else ca) = first
    at hreset
  split
  · exact ⟨tp, ca, rfl, h, fun _ _ hP => hP⟩
  · split
    · split
      · exact ⟨_, first, rfl, hreset, fun P hkeeps hP => hkeeps.slowStart tp count hP⟩
      · obtain ⟨tp', ca', hok, hsound, hkept⟩ := sound_updateAndGrow hreset hnow ht hpos' hlt'
        exact ⟨tp', ca', hok, hsound, fun P hkeeps hP =>
          hkept P hkeeps (hkeeps.slowStart tp count hP)⟩
    · exact sound_updateAndGrow h hnow ht hpos hlt

/-- **Every callback** comes back, and hands the invariant on. -/
theorem sound_callback {c : Callback ρ} (h : Sound t₀ t ca) (hspan : t < t₀ + 2 ^ 31)
    (hclock : ∀ now, c.clocks = some now → Shows now.tcpJiffies32 t) (ht : t₀ ≤ t)
    (hfit : c.WindowsFit kernel) :
    ∃ ca', c.run kernel handoverStatus ca = .ok ca' ∧ Sound t₀ t ca' := by
  cases c with
  | recalcSsthresh tp => exact ⟨_, rfl, sound_recalcSsthresh h tp⟩
  | state tp newState now => exact ⟨_, rfl, sound_state h tp newState now⟩
  | congAvoid tp ack count now =>
      obtain ⟨tp', ca', hok, hsound, -⟩ := sound_congAvoid h (hclock now rfl) ht hfit
      refine ⟨ca', ?_, hsound⟩
      rw [Callback.run, hok]
      rfl
  | acked tp rttUs now => exact ⟨_, rfl, sound_acked h tp rttUs now⟩
  | cwndEvent tp event now => exact ⟨_, rfl, sound_cwndEvent h tp event (hclock now rfl) hspan⟩

end Steps

/-! ## Runs -/

/-- The calls of a connection that begins at `t₀`: in order of time, over less than `2 ^ 31`
jiffies, with a counter that shows the time and windows below a million packets. -/
structure Lifetime (kernel : Kernel ρ) (t₀ : Nat) (calls : List (TimedCall ρ)) : Prop where
  clocked : ∀ c ∈ calls, c.Clocked
  sorted : calls.Pairwise fun a b => a.time ≤ b.time
  span : ∀ c ∈ calls, t₀ ≤ c.time ∧ c.time < t₀ + 2 ^ 31
  windows : ∀ c ∈ calls, c.call.WindowsFit kernel

section Run

variable {kernel : Kernel ρ} {t₀ : Nat} {calls : List (TimedCall ρ)}

/-- Behind call `k` the state is sound at its time. -/
def SoundBehind (t₀ : Nat) (calls : List (TimedCall ρ)) : Nat → Bictcp → Prop
  | 0, _ => True
  | k + 1, ca => ∀ c, calls[k]? = some c → Sound t₀ c.time ca

theorem sound_call {c : TimedCall ρ} {ca : Bictcp} (h : Sound t₀ c.time ca)
    (hlife : Lifetime kernel t₀ calls) (hc : c ∈ calls) :
    ∃ ca', c.call.run kernel c.handoverStatus ca = .ok ca' ∧ Sound t₀ c.time ca' := by
  have hclock := hlife.clocked c hc
  have hspan := hlife.span c hc
  have hfit := hlife.windows c hc
  unfold TimedCall.Clocked at hclock
  cases hcall : c.call with
  | init tp now => exact ⟨_, rfl, sound_init tp ca now t₀ c.time⟩
  | callback cb =>
      rw [hcall] at hclock hfit
      exact sound_callback h hspan.2 hclock hspan.1 hfit

/-- **The module is sound over the life of a connection.**  Whatever state it is given to begin
with, whichever callbacks come in which order, and whatever `handover_status` is at each: every
call comes back and leaves a sound state; the epoch that a call finds has not begun behind the
time of the call; and `bictcp_cong_avoid` keeps what the kernel keeps when it is not asked to
divide by less than 2. -/
theorem module_sound (kernel : Kernel ρ) (ca : Bictcp) (tp : TcpSock ρ) (now : Clocks)
    (handoverStatus : Bool) (t₀ : Nat) (calls : List (TimedCall ρ))
    (hlife : Lifetime kernel t₀ (⟨.init tp now, handoverStatus, t₀⟩ :: calls)) :
    ∀ (k : Nat) (c : TimedCall ρ), calls[k]? = some c → ∃ v ca',
      (moduleRun kernel ca (⟨.init tp now, handoverStatus, t₀⟩ :: calls))[k + 1]? = some v ∧
      v.done.result = .ok ca' ∧ Sound t₀ c.time ca' ∧
      (∀ clocks, c.call.clocks = some clocks → v.before.epochStart = 0 ∨
        0 ≤ (clocks.tcpJiffies32 - v.before.epochStart).toInt32.toInt) ∧
      ∀ tp ack count clocks, c.call = .callback (.congAvoid tp ack count clocks) →
        ∃ tp', bictcpCongAvoid kernel c.handoverStatus tp v.before ack count clocks =
            .ok (tp', ca') ∧ ∀ P, kernel.Keeps P → P tp → P tp' := by
  generalize hall : (⟨.init tp now, handoverStatus, t₀⟩ :: calls : List (TimedCall ρ)) = all at hlife
  have hfirst : ∀ ca, ∃ ca', (ModuleCall.init tp now).run kernel handoverStatus ca = .ok ca' ∧
      Sound t₀ t₀ ca' := fun ca => ⟨_, rfl, sound_init tp ca now t₀ t₀⟩
  have hbefore : ∀ k c ca, all[k + 1]? = some c → SoundBehind t₀ all (k + 1) ca →
      Sound t₀ c.time ca := by
    intro k c ca hc h
    obtain ⟨hlt, rfl⟩ := List.getElem?_eq_some_iff.mp hc
    refine (h all[k] (List.getElem?_eq_getElem (Nat.lt_of_succ_lt hlt))).later ?_
    exact List.pairwise_iff_getElem.mp hlife.sorted k (k + 1) _ hlt (Nat.lt_succ_self k)
  have hstep : ∀ k ca c, all[k]? = some c → SoundBehind t₀ all k ca →
      ∃ ca', (Logged.ofExcept (c.call.run kernel c.handoverStatus ca) :
        Logged Empty Diverges Bictcp).result = .ok ca' ∧ SoundBehind t₀ all (k + 1) ca' := by
    intro k ca c hc h
    have hrun : ∃ ca', c.call.run kernel c.handoverStatus ca = .ok ca' ∧ Sound t₀ c.time ca' := by
      cases k with
      | zero =>
          rw [← hall] at hc
          obtain rfl := Option.some.inj hc
          exact hfirst ca
      | succ k => exact sound_call (hbefore k c ca hc h) hlife (List.mem_of_getElem? hc)
    obtain ⟨ca', hok, hsound⟩ := hrun
    refine ⟨ca', by rw [Logged.ofExcept_result, hok], fun c' hc' => ?_⟩
    obtain rfl : c = c' := Option.some.inj (hc.symm.trans hc')
    exact hsound
  intro k c hc
  have hcall : all[k + 1]? = some c := by rw [← hall]; exact hc
  obtain ⟨v, hv, rfl, hsound⟩ := Logged.visits_total (SoundBehind t₀ all) trivial hstep hcall
  have hprev := hbefore k v.input v.before hcall hsound
  have hmem := List.mem_of_getElem? hcall
  obtain ⟨ca', hok, hafter⟩ := sound_call hprev hlife hmem
  refine ⟨v, ca', hv, ?_, hafter, ?_, ?_⟩
  · rw [(Logged.visits_input hv).2, Logged.ofExcept_result, hok]
  · intro clocks hclocks
    refine hprev.epoch.imp_right fun ⟨e, h₀, h₁, he⟩ => ?_
    have hspan := hlife.span _ hmem
    rw [(hlife.clocked _ hmem clocks hclocks).sub_toInt he (by omega) (by omega)]
    omega
  · intro tp ack count clocks hcong
    have hfit := hlife.windows _ hmem
    have hclock := hlife.clocked _ hmem clocks (by rw [hcong]; rfl)
    rw [hcong] at hfit
    obtain ⟨tp', ca'', hcong', -, hkept⟩ :=
      sound_congAvoid hprev hclock (hlife.span _ hmem).1 hfit
    refine ⟨tp', ?_, hkept⟩
    rw [hcong, ModuleCall.run, Callback.run, hcong'] at hok
    rw [hcong', ← Except.ok.inj hok]

/-- A window grows during a handover, and the connection sends again behind a pause. -/
def growsAndSends : List (TimedCall LinuxSock) :=
  [⟨.callback (.congAvoid (.withCwnd 10) 0 1 ⟨5001, 1⟩), true, 5001⟩,
    ⟨.callback (.cwndEvent (.withCwnd 10) .txStart ⟨5400, 400⟩), false, 5400⟩]

theorem growsAndSends_lifetime : Lifetime Kernel.linux 5000
    (⟨.init (.withCwnd 10) ⟨5000, 0⟩, true, 5000⟩ :: growsAndSends) where
  clocked := by
    simp only [growsAndSends, List.forall_mem_cons, TimedCall.Clocked, ModuleCall.clocks,
      Callback.clocks, Option.some.injEq, forall_eq', List.not_mem_nil, false_implies,
      implies_true, and_true]
    exact ⟨rfl, rfl, rfl⟩
  sorted := by simp [growsAndSends]
  span := by simp [growsAndSends]
  windows := by
    simp only [growsAndSends, List.forall_mem_cons, ModuleCall.WindowsFit, List.not_mem_nil,
      false_implies, implies_true, and_true, true_and]
    refine ⟨⟨by decide, ?_⟩, by decide, ?_⟩
    · rintro _ _ _ _ ⟨⟩
      decide
    · rintro _ _ _ _ ⟨⟩

theorem module_sound_growsAndSends : ∃ (v : ModuleVisit LinuxSock) (ca' : Bictcp),
    (moduleRun Kernel.linux (.withTarget 20)
      (⟨.init (.withCwnd 10) ⟨5000, 0⟩, true, 5000⟩ :: growsAndSends))[2]? = some v ∧
      v.done.result = .ok ca' ∧ Sound 5000 5400 ca' := by
  obtain ⟨v, ca', hv, hok, hsound, -, -⟩ := module_sound Kernel.linux (.withTarget 20)
    (.withCwnd 10) ⟨5000, 0⟩ true 5000 growsAndSends growsAndSends_lifetime 1 _ rfl
  exact ⟨v, ca', hv, hok, hsound⟩

end Run

end LeoEM
