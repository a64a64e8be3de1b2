/-
# `Satcp.Cubic` — the congestion control module

The callbacks of the modified `tcp_cubic.c`, on the machine integers of the source, with
the module parameters at their defaults.  A callback gets the socket as the kernel hands
it over and the state `Bictcp` the module keeps for it; `handoverStatus` is the module's
`handover_status` during the call.

What the module calls in the kernel is the structure `Kernel`.  One loop of
`bictcp_update` need not end (a window of 0); a call that does not come back is
`Diverges`.
-/
import Mathlib.Init

namespace LeoEM

/-- `struct bictcp`, without the member `unused`. -/
@[ext] structure Bictcp where
  cnt : UInt32
  lastMaxCwnd : UInt32
  lastCwnd : UInt32
  lastTime : UInt32
  bicOriginPoint : UInt32
  bicK : UInt32
  delayMin : UInt32
  epochStart : UInt32
  ackCnt : UInt32
  tcpCwnd : UInt32
  sampleCnt : UInt8
  found : UInt8
  roundStart : UInt32
  endSeq : UInt32
  lastAck : UInt32
  currRtt : UInt32
deriving DecidableEq

/-- `struct tcp_sock`: the members the module reads or writes, and the `rest` that only
the kernel does. -/
structure TcpSock (ρ : Type) where
  sndCwnd : UInt32
  sndSsthresh : UInt32
  sndNxt : UInt32
  lsndtime : UInt32
  rest : ρ

/-- The kernel the module is built for: its tick rate and the functions the module calls. -/
structure Kernel (ρ : Type) where
  HZ : Nat
  hz_pos : 0 < HZ
  msecsToJiffies : UInt32 → UInt64
  tcpIsCwndLimited : TcpSock ρ → Bool
  tcpInSlowStart : TcpSock ρ → Bool
  tcpSlowStart : TcpSock ρ → UInt32 → TcpSock ρ × UInt32
  tcpCongAvoidAi : TcpSock ρ → UInt32 → UInt32 → TcpSock ρ

/-- What the two clocks show during a call: `tcp_jiffies32` and `bictcp_clock()`. -/
structure Clocks where
  tcpJiffies32 : UInt32
  bictcpClock : UInt32

/-- The call does not come back from its `while` loop. -/
inductive Diverges where
  | whileLoop
deriving DecidableEq

/-! ## Module parameters and scale factors -/

def bictcpBetaScale : UInt32 := 1024
def bictcpHZ : UInt64 := 10
def hystartAckTrain : UInt8 := 0x1
def hystartDelay : UInt8 := 0x2
def hystartMinSamples : UInt8 := 8
def hystartDelayMin : UInt32 := (4 : UInt32) <<< 3
def hystartDelayMax : UInt32 := (16 : UInt32) <<< 3

def fastConvergence : Bool := true
def beta : UInt32 := 717
def bicScale : UInt32 := 41
def tcpFriendliness : Bool := true
def hystart : Bool := true
def hystartDetect : UInt8 := hystartAckTrain ||| hystartDelay
def hystartLowWindow : UInt32 := 16
def hystartAckDelta : Int32 := 2

def betaScale : UInt32 := 8 * (bictcpBetaScale + beta) / 3 / (bictcpBetaScale - beta)
def cubeRttScale : UInt32 := bicScale * 10
def cubeFactor : UInt64 := ((1 : UInt64) <<< (10 + 3 * bictcpHZ)) / (bicScale * 10).toUInt64

/-! ## Helpers of the callbacks -/

/-- The kernel's `after(seq1, seq2)`. -/
def after (seq1 seq2 : UInt32) : Bool := (seq2 - seq1).toInt32 < 0

/-- The kernel's `fls64`: the last bit set, counted from 1. -/
def fls64 (a : UInt64) : UInt32 := if a = 0 then 0 else (a.log2 + 1).toUInt32

/-- `v[]` of `cubic_root`. -/
def cubicRootTable : List UInt8 := [
  0, 54, 54, 54, 118, 118, 118, 118,
  123, 129, 134, 138, 143, 147, 151, 156,
  157, 161, 164, 168, 170, 173, 176, 179,
  181, 185, 187, 190, 192, 194, 197, 199,
  200, 202, 204, 206, 209, 211, 213, 215,
  217, 219, 221, 222, 224, 225, 227, 229,
  231, 232, 234, 236, 237, 239, 240, 242,
  244, 245, 246, 248, 250, 251, 252, 254]

def cubicRootEntry (i : UInt32) : UInt32 := (cubicRootTable.getD i.toNat 0).toUInt32

/-- Table lookup and one Newton-Raphson step. -/
def cubicRoot (a : UInt64) : UInt32 :=
  let b := fls64 a
  if b < 7 then (cubicRootEntry a.toUInt32 + 35) >>> 6
  else
    let b := ((b * 84) >>> 8) - 1
    let shift := (a >>> (b * 3).toUInt64).toUInt32
    let x := ((cubicRootEntry shift + 10) <<< b) >>> 6
    let x := 2 * x + (a / (x.toUInt64 * (x - 1).toUInt64)).toUInt32
    (x * 341) >>> 10

def bictcpReset (ca : Bictcp) : Bictcp :=
  { ca with
    cnt := 0, lastMaxCwnd := 0, lastCwnd := 0, lastTime := 0, bicOriginPoint := 0, bicK := 0
    delayMin := 0, epochStart := 0, ackCnt := 0, tcpCwnd := 0, found := 0 }

section Callbacks

variable {ρ : Type} (kernel : Kernel ρ)

def bictcpHystartReset (tp : TcpSock ρ) (ca : Bictcp) (now : Clocks) : Bictcp :=
  { ca with
    roundStart := now.bictcpClock, lastAck := now.bictcpClock, endSeq := tp.sndNxt
    currRtt := 0, sampleCnt := 0 }

/-! ## `bictcp_update` -/

/-- The part under `epoch_start == 0`: a new epoch begins. -/
def beginEpoch (handoverStatus : Bool) (ca : Bictcp) (cwnd acked jiffies : UInt32) : Bictcp :=
  let ca := { ca with epochStart := jiffies, ackCnt := acked, tcpCwnd := cwnd }
  if ca.lastMaxCwnd ≤ cwnd then { ca with bicK := 0, bicOriginPoint := cwnd }
  else
    let root := cubicRoot (cubeFactor * (ca.lastMaxCwnd - cwnd).toUInt64)
    { ca with
      bicK := if handoverStatus then root - root * 8 / 9 else root
      bicOriginPoint := ca.lastMaxCwnd }

/-- `t`: the time since the epoch began, in units of `BICTCP_HZ`. -/
def epochTime (ca : Bictcp) (jiffies : UInt32) : UInt64 :=
  let t := (jiffies - ca.epochStart).toInt32.toInt64.toUInt64
  let t := t + kernel.msecsToJiffies (ca.delayMin >>> 3)
  (t <<< bictcpHZ) / kernel.HZ.toUInt64

/-- `delta`: c/rtt * (t-K)^3. -/
def cubicDelta (bicK : UInt32) (t : UInt64) : UInt32 :=
  let offs := if t < bicK.toUInt64 then bicK.toUInt64 - t else t - bicK.toUInt64
  ((cubeRttScale.toUInt64 * offs * offs * offs) >>> (10 + 3 * bictcpHZ)).toUInt32

def bicTarget (origin bicK : UInt32) (t : UInt64) : UInt32 :=
  if t < bicK.toUInt64 then origin - cubicDelta bicK t else origin + cubicDelta bicK t

/-- The slope of the cubic function, in ACKs for each packet the window grows by. -/
def bictcpCnt (bicTarget cwnd : UInt32) : UInt32 :=
  if bicTarget > cwnd then cwnd / (bicTarget - cwnd) else 100 * cwnd

/-- The cubic function itself, behind the start of an epoch. -/
def cubicFunction (ca : Bictcp) (cwnd jiffies : UInt32) : Bictcp :=
  let cnt := bictcpCnt (bicTarget ca.bicOriginPoint ca.bicK (epochTime kernel ca jiffies)) cwnd
  { ca with cnt := if ca.lastMaxCwnd = 0 ∧ cnt > 20 then 20 else cnt }

/-- `while (ca->ack_cnt > delta)`, for at most `fuel` rounds. -/
def countTcpCwnd (delta : UInt32) : Nat → UInt32 → UInt32 → Except Diverges (UInt32 × UInt32)
  | fuel, ackCnt, tcpCwnd =>
      if ackCnt > delta then
        match fuel with
        | 0 => .error .whileLoop
        | fuel + 1 => countTcpCwnd delta fuel (ackCnt - delta) (tcpCwnd + 1)
      else .ok (ackCnt, tcpCwnd)

/-- From the label `tcp_friendliness` to the end.  The loop takes `delta` packets from
`ack_cnt` in each round: it ends within `ack_cnt` rounds, or `delta` is 0 and it never ends. -/
def tcpFriendlinessPart (ca : Bictcp) (cwnd : UInt32) : Except Diverges Bictcp := do
  let ca ←
    if tcpFriendliness then do
      let (ackCnt, tcpCwnd) ← countTcpCwnd ((cwnd * betaScale) >>> 3) ca.ackCnt.toNat
        ca.ackCnt ca.tcpCwnd
      let ca := { ca with ackCnt := ackCnt, tcpCwnd := tcpCwnd }
      if ca.tcpCwnd > cwnd then
        let maxCnt := cwnd / (ca.tcpCwnd - cwnd)
        pure (if ca.cnt > maxCnt then { ca with cnt := maxCnt } else ca)
      else pure ca
    else pure ca
  pure { ca with cnt := max ca.cnt 2 }

/-- The window is as it was, and not for long: nothing is computed. -/
def updatesTooSoon (ca : Bictcp) (cwnd jiffies : UInt32) : Bool :=
  ca.lastCwnd = cwnd ∧ (jiffies - ca.lastTime).toInt32 ≤ Int32.ofNat (kernel.HZ / 32)

/-- The cubic function has been computed in this jiffy: `goto tcp_friendliness`. -/
def computedThisJiffy (ca : Bictcp) (jiffies : UInt32) : Bool :=
  ca.epochStart ≠ 0 ∧ jiffies = ca.lastTime

/-- What `bictcp_update` has done when it comes to the cubic function. -/
def beforeCubic (handoverStatus : Bool) (ca : Bictcp) (cwnd acked jiffies : UInt32) : Bictcp :=
  let ca := { ca with ackCnt := ca.ackCnt + acked, lastCwnd := cwnd, lastTime := jiffies }
  if ca.epochStart = 0 then beginEpoch handoverStatus ca cwnd acked jiffies else ca

def bictcpUpdate (handoverStatus : Bool) (ca : Bictcp) (cwnd acked jiffies : UInt32) :
    Except Diverges Bictcp :=
  if updatesTooSoon kernel ca cwnd jiffies then pure { ca with ackCnt := ca.ackCnt + acked }
  else if computedThisJiffy ca jiffies then
    tcpFriendlinessPart { ca with ackCnt := ca.ackCnt + acked } cwnd
  else
    tcpFriendlinessPart
      (cubicFunction kernel (beforeCubic handoverStatus ca cwnd acked jiffies) cwnd jiffies) cwnd

/-! ## The callbacks -/

/-- The end of `bictcp_cong_avoid`. -/
def updateAndGrow (handoverStatus : Bool) (tp : TcpSock ρ) (ca : Bictcp) (acked : UInt32)
    (now : Clocks) : Except Diverges (TcpSock ρ × Bictcp) := do
  let ca ← bictcpUpdate kernel handoverStatus ca tp.sndCwnd acked now.tcpJiffies32
  pure (kernel.tcpCongAvoidAi tp ca.cnt acked, ca)

def bictcpCongAvoid (handoverStatus : Bool) (tp : TcpSock ρ) (ca : Bictcp)
    (ack acked : UInt32) (now : Clocks) : Except Diverges (TcpSock ρ × Bictcp) :=
  if ¬ kernel.tcpIsCwndLimited tp then pure (tp, ca)
  else if kernel.tcpInSlowStart tp then
    let ca := if hystart ∧ after ack ca.endSeq then bictcpHystartReset tp ca now else ca
    let slow := kernel.tcpSlowStart tp acked
    if slow.2 = 0 then pure (slow.1, ca)
    else updateAndGrow kernel handoverStatus slow.1 ca slow.2 now
  else updateAndGrow kernel handoverStatus tp ca acked now

/-- The result is the new slow start threshold. -/
def bictcpRecalcSsthresh (tp : TcpSock ρ) (ca : Bictcp) : UInt32 × Bictcp :=
  let lastMaxCwnd :=
    if tp.sndCwnd < ca.lastMaxCwnd ∧ fastConvergence then
      tp.sndCwnd * (bictcpBetaScale + beta) / (2 * bictcpBetaScale)
    else tp.sndCwnd
  (max (tp.sndCwnd * beta / bictcpBetaScale) 2,
    { ca with epochStart := 0, lastMaxCwnd := lastMaxCwnd })

/-- `TCP_CA_Loss`. -/
def tcpCALoss : UInt8 := 4

def bictcpState (handoverStatus : Bool) (tp : TcpSock ρ) (ca : Bictcp) (newState : UInt8)
    (now : Clocks) : Bictcp :=
  if newState = tcpCALoss then
    if ¬ handoverStatus then bictcpHystartReset tp (bictcpReset ca) now else ca
  else ca

/-- `enum tcp_ca_event`, as far as the module tells its members apart. -/
inductive CaEvent where
  | txStart
  | other
deriving DecidableEq

def bictcpCwndEvent (tp : TcpSock ρ) (ca : Bictcp) (event : CaEvent) (now : Clocks) : Bictcp :=
  match event with
  | .other => ca
  | .txStart =>
      let delta := (now.tcpJiffies32 - tp.lsndtime).toInt32
      if ca.epochStart ≠ 0 ∧ delta > 0 then
        let epochStart := ca.epochStart + delta.toUInt32
        { ca with
          epochStart := if after epochStart now.tcpJiffies32 then now.tcpJiffies32 else epochStart }
      else ca

def hystartDelayThresh (x : UInt32) : UInt32 := min (max x hystartDelayMin) hystartDelayMax

/-- The first detection of `hystart_update`: trains of ACKs. -/
def detectAckTrain (tp : TcpSock ρ) (ca : Bictcp) (now : Clocks) : TcpSock ρ × Bictcp :=
  if (now.bictcpClock - ca.lastAck).toInt32 ≤ hystartAckDelta then
    let ca := { ca with lastAck := now.bictcpClock }
    -- `delay_min` is unsigned, and so is the comparison
    if now.bictcpClock - ca.roundStart > ca.delayMin >>> (4 : UInt32) then
      ({ tp with sndSsthresh := tp.sndCwnd }, { ca with found := ca.found ||| hystartAckTrain })
    else (tp, ca)
  else (tp, ca)

/-- The second detection: more delay than the least one. -/
def detectDelay (tp : TcpSock ρ) (ca : Bictcp) (delay : UInt32) : TcpSock ρ × Bictcp :=
  let ca := if ca.currRtt > delay then { ca with currRtt := delay } else ca
  if ca.sampleCnt < hystartMinSamples then
    let ca := if ca.currRtt = 0 ∨ ca.currRtt > delay then { ca with currRtt := delay } else ca
    (tp, { ca with sampleCnt := ca.sampleCnt + 1 })
  else if ca.currRtt > ca.delayMin + hystartDelayThresh (ca.delayMin >>> 3) then
    ({ tp with sndSsthresh := tp.sndCwnd }, { ca with found := ca.found ||| hystartDelay })
  else (tp, ca)

def hystartUpdate (tp : TcpSock ρ) (ca : Bictcp) (delay : UInt32) (now : Clocks) :
    TcpSock ρ × Bictcp :=
  if ca.found &&& hystartDetect ≠ 0 then (tp, ca)
  else
    let (tp, ca) :=
      if hystartDetect &&& hystartAckTrain ≠ 0 then detectAckTrain tp ca now else (tp, ca)
    if hystartDetect &&& hystartDelay ≠ 0 then detectDelay tp ca delay else (tp, ca)

/-- `delay_min` after a sample of `delay`. -/
def lowerDelayMin (ca : Bictcp) (delay : UInt32) : Bictcp :=
  if ca.delayMin = 0 ∨ ca.delayMin > delay then { ca with delayMin := delay } else ca

/-- `rttUs` is the member of the sample that is read. -/
def bictcpAcked (tp : TcpSock ρ) (ca : Bictcp) (rttUs : Int32) (now : Clocks) :
    TcpSock ρ × Bictcp :=
  if rttUs < 0 then (tp, ca)
  else if ca.epochStart ≠ 0 ∧
      (now.tcpJiffies32 - ca.epochStart).toInt32 < Int32.ofNat kernel.HZ then (tp, ca)
  else
    let delay := ((rttUs <<< 3).toInt64 / 1000).toUInt64.toUInt32
    let delay := if delay = 0 then 1 else delay
    let ca := lowerDelayMin ca delay
    if hystart ∧ kernel.tcpInSlowStart tp ∧ tp.sndCwnd ≥ hystartLowWindow then
      hystartUpdate tp ca delay now
    else (tp, ca)

/-- What the last part of `bictcp_update` comes to, once its loop has ended. -/
def friendlyCnt (cnt cwnd tcpCwnd : UInt32) : UInt32 :=
  max (if tcpCwnd > cwnd ∧ cnt > cwnd / (tcpCwnd - cwnd) then cwnd / (tcpCwnd - cwnd) else cnt) 2

/-- The last part writes `ack_cnt`, `tcp_cwnd` and `cnt`, if its loop ends. -/
theorem tcpFriendlinessPart_eq (ca : Bictcp) (cwnd : UInt32) :
    tcpFriendlinessPart ca cwnd =
      (countTcpCwnd ((cwnd * betaScale) >>> 3) ca.ackCnt.toNat ca.ackCnt ca.tcpCwnd).map
        fun counts => { ca with
          ackCnt := counts.1, tcpCwnd := counts.2, cnt := friendlyCnt ca.cnt cwnd counts.2 } := by
  simp only [tcpFriendlinessPart, tcpFriendliness, if_true]
  cases countTcpCwnd ((cwnd * betaScale) >>> 3) ca.ackCnt.toNat ca.ackCnt ca.tcpCwnd with
  | error e => rfl
  | ok counts =>
      by_cases ht : counts.2 > cwnd <;> by_cases hc : ca.cnt > cwnd / (counts.2 - cwnd) <;>
        simp [bind, Except.bind, Except.map, pure, Except.pure, friendlyCnt, ht, hc]

/-! ## A kernel -/

/-- What a Linux kernel keeps in `tcp_sock` for the functions below. -/
structure LinuxSock where
  sndCwndCnt : UInt32
  sndCwndClamp : UInt32
  maxPacketsOut : UInt32
  isCwndLimited : Bool
deriving DecidableEq

/-- A Linux kernel with 1000 ticks a second. -/
def Kernel.linux : Kernel LinuxSock where
  HZ := 1000
  hz_pos := Nat.succ_pos 999
  msecsToJiffies m := m.toUInt64
  tcpIsCwndLimited tp :=
    if tp.sndCwnd < tp.sndSsthresh then tp.sndCwnd < 2 * tp.rest.maxPacketsOut
    else tp.rest.isCwndLimited
  tcpInSlowStart tp := tp.sndCwnd < tp.sndSsthresh
  tcpSlowStart tp acked :=
    let cwnd := min (tp.sndCwnd + acked) tp.sndSsthresh
    ({ tp with sndCwnd := min cwnd tp.rest.sndCwndClamp }, acked - (cwnd - tp.sndCwnd))
  tcpCongAvoidAi tp w acked :=
    let tp := if tp.rest.sndCwndCnt ≥ w then
      { tp with sndCwnd := tp.sndCwnd + 1, rest := { tp.rest with sndCwndCnt := 0 } } else tp
    let cnt := tp.rest.sndCwndCnt + acked
    let tp := if cnt ≥ w then
        { tp with
          sndCwnd := tp.sndCwnd + cnt / w
          rest := { tp.rest with sndCwndCnt := cnt - cnt / w * w } }
      else { tp with rest := { tp.rest with sndCwndCnt := cnt } }
    { tp with sndCwnd := min tp.sndCwnd tp.rest.sndCwndClamp }

/-- A connection that is limited by a window of `cwnd` and not in slow start. -/
def TcpSock.withCwnd (cwnd : UInt32) : TcpSock LinuxSock :=
  ⟨cwnd, 2, 0, 0, ⟨0, 4294967295, cwnd, true⟩⟩

/-- The module's state when it is loaded, but for the target. -/
def Bictcp.withTarget (lastMaxCwnd : UInt32) : Bictcp :=
  ⟨0, lastMaxCwnd, 0, 0, 0, 0, 0, 0, 0, 0, 0, 0, 0, 0, 0, 0⟩

/-! ## What leaves `last_max_cwnd` alone

Only `bictcp_reset` and `bictcp_recalc_ssthresh` write it. -/

section LastMaxCwnd

variable {kernel : Kernel ρ} {handoverStatus : Bool} {ca ca' : Bictcp} {tp : TcpSock ρ}
  {cwnd acked jiffies : UInt32} {now : Clocks}

@[simp] theorem bictcpHystartReset_lastMaxCwnd :
    (bictcpHystartReset tp ca now).lastMaxCwnd = ca.lastMaxCwnd := rfl

@[simp] theorem beginEpoch_lastMaxCwnd :
    (beginEpoch handoverStatus ca cwnd acked jiffies).lastMaxCwnd = ca.lastMaxCwnd := by
  simp only [beginEpoch]
  split <;> rfl

@[simp] theorem beforeCubic_lastMaxCwnd :
    (beforeCubic handoverStatus ca cwnd acked jiffies).lastMaxCwnd = ca.lastMaxCwnd := by
  simp only [beforeCubic]
  split
  · rw [beginEpoch_lastMaxCwnd]
  · rfl

@[simp] theorem cubicFunction_lastMaxCwnd :
    (cubicFunction kernel ca cwnd jiffies).lastMaxCwnd = ca.lastMaxCwnd := rfl

theorem tcpFriendlinessPart_lastMaxCwnd (h : tcpFriendlinessPart ca cwnd = .ok ca') :
    ca'.lastMaxCwnd = ca.lastMaxCwnd := by
  rw [tcpFriendlinessPart_eq] at h
  cases hc : countTcpCwnd ((cwnd * betaScale) >>> 3) ca.ackCnt.toNat ca.ackCnt ca.tcpCwnd with
  | error e =>
      rw [hc] at h
      cases h
  | ok counts =>
      rw [hc] at h
      cases h
      rfl

theorem bictcpUpdate_lastMaxCwnd
    (h : bictcpUpdate kernel handoverStatus ca cwnd acked jiffies = .ok ca') :
    ca'.lastMaxCwnd = ca.lastMaxCwnd := by
  unfold bictcpUpdate at h
  split at h
  · cases h
    rfl
  · split at h
    · exact (tcpFriendlinessPart_lastMaxCwnd h).trans rfl
    · rw [tcpFriendlinessPart_lastMaxCwnd h, cubicFunction_lastMaxCwnd, beforeCubic_lastMaxCwnd]

theorem updateAndGrow_lastMaxCwnd {tp' : TcpSock ρ}
    (h : updateAndGrow kernel handoverStatus tp ca acked now = .ok (tp', ca')) :
    ca'.lastMaxCwnd = ca.lastMaxCwnd := by
  unfold updateAndGrow at h
  cases hb : bictcpUpdate kernel handoverStatus ca tp.sndCwnd acked now.tcpJiffies32 with
  | error e =>
      rw [hb] at h
      cases h
  | ok c =>
      rw [hb] at h
      cases h
      exact bictcpUpdate_lastMaxCwnd hb

theorem bictcpCongAvoid_lastMaxCwnd {tp' : TcpSock ρ} {ack : UInt32}
    (h : bictcpCongAvoid kernel handoverStatus tp ca ack acked now = .ok (tp', ca')) :
    ca'.lastMaxCwnd = ca.lastMaxCwnd := by
  have hreset : (if hystart ∧ after ack ca.endSeq then bictcpHystartReset tp ca now
      else ca).lastMaxCwnd = ca.lastMaxCwnd := by
    split <;> rfl
  unfold bictcpCongAvoid at h
  dsimp only at h
  generalize (if hystart ∧ after ack ca.endSeq then bictcpHystartReset tp ca now
    else ca) = first at h hreset
  split at h
  · cases h
    rfl
  · split at h
    · split at h
      · cases h
        exact hreset
      · rw [updateAndGrow_lastMaxCwnd h, hreset]
    · exact updateAndGrow_lastMaxCwnd h

@[simp] theorem bictcpCwndEvent_lastMaxCwnd {event : CaEvent} :
    (bictcpCwndEvent tp ca event now).lastMaxCwnd = ca.lastMaxCwnd := by
  cases event with
  | other => rfl
  | txStart =>
      simp only [bictcpCwndEvent]
      split <;> rfl

@[simp] theorem detectAckTrain_lastMaxCwnd :
    (detectAckTrain tp ca now).2.lastMaxCwnd = ca.lastMaxCwnd := by
  simp only [detectAckTrain]
  split
  · split <;> rfl
  · rfl

@[simp] theorem detectDelay_lastMaxCwnd {delay : UInt32} :
    (detectDelay tp ca delay).2.lastMaxCwnd = ca.lastMaxCwnd := by
  have hfst : (if ca.currRtt > delay then { ca with currRtt := delay } else ca).lastMaxCwnd =
      ca.lastMaxCwnd := by
    split <;> rfl
  unfold detectDelay
  generalize (if ca.currRtt > delay then { ca with currRtt := delay } else ca) = first at hfst
  rw [← hfst]
  dsimp only
  split
  · split <;> rfl
  · split <;> rfl

@[simp] theorem hystartUpdate_lastMaxCwnd {delay : UInt32} :
    (hystartUpdate tp ca delay now).2.lastMaxCwnd = ca.lastMaxCwnd := by
  unfold hystartUpdate
  split
  · rfl
  · exact detectDelay_lastMaxCwnd.trans detectAckTrain_lastMaxCwnd

@[simp] theorem lowerDelayMin_lastMaxCwnd {delay : UInt32} :
    (lowerDelayMin ca delay).lastMaxCwnd = ca.lastMaxCwnd := by
  unfold lowerDelayMin
  split <;> rfl

@[simp] theorem bictcpAcked_lastMaxCwnd {rttUs : Int32} :
    (bictcpAcked kernel tp ca rttUs now).2.lastMaxCwnd = ca.lastMaxCwnd := by
  unfold bictcpAcked
  dsimp only
  split
  · rfl
  · split
    · rfl
    · split
      · rw [hystartUpdate_lastMaxCwnd, lowerDelayMin_lastMaxCwnd]
      · exact lowerDelayMin_lastMaxCwnd

end LastMaxCwnd

end Callbacks

end LeoEM
