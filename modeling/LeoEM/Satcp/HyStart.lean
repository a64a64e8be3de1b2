/-
# `Satcp.HyStart` — what the round trip times are kept for

`bictcp_acked` is given the round trip time of what is acknowledged.  The least one since the
module was reset is the delay of the path, and in slow start the samples of a round are held
against it: if there are enough of them and all are well above, or if the ACKs come in a train
as long as half the delay, slow start is over (`hystart_update`).

The lists of samples are not in the module's state; here a history keeps them (`RttHistory`),
and three members of the state are read off it over every run of callbacks (`Tracks`).
Between two resets the threshold is set at most once, and a loss in a reported handover is no
reset: HyStart stays done, and the delay that of the path before the handover
(`hystart_run`).
-/
import LeoEM.Satcp.Module

namespace LeoEM

variable {ρ : Type}

/-! ## The least of the samples -/

/-- `x` is the least of the delays, and 0 of none. -/
structure LeastDelay (delays : List UInt32) (x : UInt32) : Prop where
  pos : ∀ d ∈ delays, d ≠ 0
  none : delays = [] → x = 0
  mem : delays ≠ [] → x ∈ delays
  le : ∀ d ∈ delays, x ≤ d

namespace LeastDelay

variable {delays : List UInt32} {x d : UInt32}

theorem nil : LeastDelay [] 0 :=
  ⟨fun _ h => absurd h List.not_mem_nil, fun _ => rfl, fun h => absurd rfl h,
    fun _ h => absurd h List.not_mem_nil⟩

theorem ne_zero (h : LeastDelay delays x) (hne : delays ≠ []) : x ≠ 0 := h.pos x (h.mem hne)

/-- One more sample. -/
theorem cons (h : LeastDelay delays x) (hd : d ≠ 0) :
    LeastDelay (d :: delays) (if x = 0 ∨ x > d then d else x) := by
  have hpos : ∀ e ∈ d :: delays, e ≠ 0 := by
    intro e he
    rcases List.mem_cons.mp he with rfl | he
    · exact hd
    · exact h.pos e he
  by_cases hx : x = 0 ∨ x > d
  · rw [if_pos hx]
    refine ⟨hpos, fun hnil => absurd hnil (List.cons_ne_nil d delays), fun _ => List.mem_cons_self,
      fun e he => ?_⟩
    rcases List.mem_cons.mp he with rfl | he
    · exact UInt32.le_refl e
    · have hne : x ≠ 0 := h.ne_zero (List.ne_nil_of_mem he)
      exact UInt32.le_trans (UInt32.le_of_lt (hx.resolve_left hne)) (h.le e he)
  · rw [if_neg hx]
    obtain ⟨hne, hle⟩ := not_or.mp hx
    refine ⟨hpos, fun hnil => absurd hnil (List.cons_ne_nil d delays), fun _ => ?_, fun e he => ?_⟩
    · exact List.mem_cons_of_mem d (h.mem fun hnil => hne (h.none hnil))
    · rcases List.mem_cons.mp he with rfl | he
      · exact UInt32.not_lt.mp hle
      · exact h.le e he

/-- What is below the least is below all. -/
theorem lt_iff (h : LeastDelay delays x) (hne : delays ≠ []) (bound : UInt32) :
    bound < x ↔ ∀ d ∈ delays, bound < d :=
  ⟨fun hlt d hd => UInt32.lt_of_lt_of_le hlt (h.le d hd), fun hall => hall x (h.mem hne)⟩

end LeastDelay

/-! ## One call of `bictcp_acked` -/

/-- HyStart has found what it looks for. -/
def Bictcp.detected (ca : Bictcp) : Bool := ca.found &&& hystartDetect ≠ 0

theorem or_and_ne_zero {a bit mask : UInt8} {i : Nat} (hbit : bit.toNat.testBit i = true)
    (hmask : mask.toNat.testBit i = true) : (a ||| bit) &&& mask ≠ 0 := by
  intro h
  have hbits := congrArg (fun x => x.toNat.testBit i) h
  simp only [UInt8.toNat_and, UInt8.toNat_or, Nat.testBit_and, Nat.testBit_or, hbit, hmask,
    Bool.or_true, Bool.and_true, UInt8.toNat_zero, Nat.zero_testBit, reduceCtorEq] at hbits

theorem detected_or {ca : Bictcp} {found : UInt8}
    (h : ca.found = found ||| hystartAckTrain ∨ ca.found = found ||| hystartDelay) :
    ca.detected = true := by
  rw [Bictcp.detected, decide_eq_true_eq]
  rcases h with h | h <;> rw [h]
  · exact or_and_ne_zero (i := 0) rfl rfl
  · exact or_and_ne_zero (i := 1) rfl rfl

/-- `delay` of `bictcp_acked`. -/
def sampleDelay (rttUs : Int32) : UInt32 :=
  let delay := ((rttUs <<< 3).toInt64 / 1000).toUInt64.toUInt32
  if delay = 0 then 1 else delay

theorem sampleDelay_ne_zero (rttUs : Int32) : sampleDelay rttUs ≠ 0 := by
  unfold sampleDelay
  dsimp only
  split
  · decide
  · assumption

section Calls

variable (kernel : Kernel ρ)

/-- The sample is not thrown away. -/
def TakesSample (ca : Bictcp) (rttUs : Int32) (now : Clocks) : Prop :=
  ¬ rttUs < 0 ∧ ¬ (ca.epochStart ≠ 0 ∧
    (now.tcpJiffies32 - ca.epochStart).toInt32 < Int32.ofNat kernel.HZ)

instance (ca : Bictcp) (rttUs : Int32) (now : Clocks) :
    Decidable (TakesSample kernel ca rttUs now) :=
  inferInstanceAs (Decidable (_ ∧ _))

/-- HyStart looks at the socket's samples. -/
def Watches (tp : TcpSock ρ) : Prop :=
  hystart ∧ kernel.tcpInSlowStart tp ∧ tp.sndCwnd ≥ hystartLowWindow

instance (tp : TcpSock ρ) : Decidable (Watches kernel tp) := inferInstanceAs (Decidable (_ ∧ _))

theorem bictcpAcked_eq (tp : TcpSock ρ) (ca : Bictcp) (rttUs : Int32) (now : Clocks) :
    bictcpAcked kernel tp ca rttUs now = if TakesSample kernel ca rttUs now then
      if Watches kernel tp then
        hystartUpdate tp (lowerDelayMin ca (sampleDelay rttUs)) (sampleDelay rttUs) now
      else (tp, lowerDelayMin ca (sampleDelay rttUs))
    else (tp, ca) := by
  by_cases htakes : TakesSample kernel ca rttUs now
  · obtain ⟨hneg, hsoon⟩ := htakes
    rw [if_pos ⟨hneg, hsoon⟩]
    unfold bictcpAcked
    rw [if_neg hneg, if_neg hsoon]
    rfl
  · rw [if_neg htakes]
    unfold bictcpAcked
    by_cases hneg : rttUs < 0
    · rw [if_pos hneg]
    · have hsoon := not_not.mp fun hsoon => htakes ⟨hneg, hsoon⟩
      rw [if_neg hneg, if_pos hsoon]

/-- An ACK soon behind the last one, and more than half a delay behind the start of the round. -/
def AckTrain (delayMin : UInt32) (ca : Bictcp) (now : Clocks) : Prop :=
  (now.bictcpClock - ca.lastAck).toInt32 ≤ hystartAckDelta ∧
    now.bictcpClock - ca.roundStart > delayMin >>> (4 : UInt32)

/-- At least eight samples in the round before this one, and all well above the least delay. -/
def MoreDelay (delayMin : UInt32) (round : List UInt32) (delay : UInt32) : Prop :=
  8 ≤ round.length ∧ ∀ d ∈ delay :: round, delayMin + hystartDelayThresh (delayMin >>> 3) < d

end Calls

/-- The samples of the round, as far as the state keeps them. -/
structure Rounds (round : List UInt32) (ca : Bictcp) : Prop where
  least : LeastDelay round ca.currRtt
  count : ca.sampleCnt.toNat = min 8 round.length

/-- The threshold is set to the window. -/
def TcpSock.leaveSlowStart (tp : TcpSock ρ) : TcpSock ρ := { tp with sndSsthresh := tp.sndCwnd }

section Detections

variable {tp : TcpSock ρ} {ca : Bictcp} {round : List UInt32} {delay : UInt32} {now : Clocks}

/-- The first detection. -/
theorem detectAckTrain_spec (h : Rounds round ca) :
    Rounds round (detectAckTrain tp ca now).2 ∧
      (detectAckTrain tp ca now).2.delayMin = ca.delayMin ∧
      ((¬ AckTrain ca.delayMin ca now ∧ (detectAckTrain tp ca now).1 = tp ∧
          (detectAckTrain tp ca now).2.found = ca.found) ∨
        (AckTrain ca.delayMin ca now ∧ (detectAckTrain tp ca now).1 = tp.leaveSlowStart ∧
          (detectAckTrain tp ca now).2.found = ca.found ||| hystartAckTrain)) := by
  simp only [detectAckTrain]
  by_cases hsoon : (now.bictcpClock - ca.lastAck).toInt32 ≤ hystartAckDelta
  · rw [if_pos hsoon]
    by_cases hlong : now.bictcpClock - ca.roundStart > ca.delayMin >>> (4 : UInt32)
    · rw [if_pos hlong]
      exact ⟨⟨h.least, h.count⟩, rfl, Or.inr ⟨⟨hsoon, hlong⟩, rfl, rfl⟩⟩
    · rw [if_neg hlong]
      exact ⟨⟨h.least, h.count⟩, rfl, Or.inl ⟨fun htrain => hlong htrain.2, rfl, rfl⟩⟩
  · rw [if_neg hsoon]
    exact ⟨h, rfl, Or.inl ⟨fun htrain => hsoon htrain.1, rfl, rfl⟩⟩

/-- The least of the round and one more sample. -/
def roundRtt (ca : Bictcp) (delay : UInt32) : UInt32 :=
  if ca.currRtt = 0 ∨ ca.currRtt > delay then delay else ca.currRtt

/-- The second detection. -/
theorem detectDelay_spec (h : Rounds round ca) (hdelay : delay ≠ 0) :
    Rounds (delay :: round) (detectDelay tp ca delay).2 ∧
      (detectDelay tp ca delay).2.delayMin = ca.delayMin ∧
      ((¬ MoreDelay ca.delayMin round delay ∧ (detectDelay tp ca delay).1 = tp ∧
          (detectDelay tp ca delay).2.found = ca.found) ∨
        (MoreDelay ca.delayMin round delay ∧ (detectDelay tp ca delay).1 = tp.leaveSlowStart ∧
          (detectDelay tp ca delay).2.found = ca.found ||| hystartDelay)) := by
  have hleast : LeastDelay (delay :: round) (roundRtt ca delay) := h.least.cons hdelay
  have hcount := h.count
  unfold detectDelay
  generalize hfirst : (if ca.currRtt > delay then { ca with currRtt := delay } else ca) = first
  have hfields : first.sampleCnt = ca.sampleCnt ∧ first.delayMin = ca.delayMin ∧
      first.found = ca.found := by
    rw [← hfirst]
    split <;> exact ⟨rfl, rfl, rfl⟩
  dsimp only
  by_cases hfew : first.sampleCnt < hystartMinSamples
  · -- the round is still being filled
    have hlt : ca.sampleCnt.toNat < 8 := hfields.1 ▸ UInt8.lt_iff_toNat_lt.mp hfew
    have hlength : round.length < 8 := by omega
    generalize hsecond : (if first.currRtt = 0 ∨ first.currRtt > delay then
      { first with currRtt := delay } else first) = second
    have hrtt : second.currRtt = roundRtt ca delay := by
      rw [← hsecond, ← hfirst, roundRtt]
      by_cases hgt : ca.currRtt > delay
      · simp [hgt]
      · simp only [hgt, if_false, or_false]
        split <;> rfl
    have hsame : second.sampleCnt = ca.sampleCnt ∧ second.delayMin = ca.delayMin ∧
        second.found = ca.found := by
      rw [← hsecond]
      split <;> exact hfields
    rw [if_pos hfew]
    refine ⟨⟨?_, ?_⟩, hsame.2.1, Or.inl ⟨fun hmore => absurd hmore.1 (by omega), rfl, hsame.2.2⟩⟩
    · show LeastDelay (delay :: round) second.currRtt
      rw [hrtt]
      exact hleast
    · show (second.sampleCnt + 1).toNat = min 8 (round.length + 1)
      rw [hsame.1, UInt8.toNat_add, show (1 : UInt8).toNat = 1 from rfl]
      omega
  · have hge : 8 ≤ ca.sampleCnt.toNat :=
      hfields.1 ▸ Nat.not_lt.mp fun hlt => hfew (UInt8.lt_iff_toNat_lt.mpr hlt)
    have hlength : 8 ≤ round.length := by omega
    have hne : round ≠ [] := by
      rintro rfl
      exact absurd hlength (by decide)
    have hrtt : first.currRtt = roundRtt ca delay := by
      rw [← hfirst, roundRtt]
      by_cases hgt : ca.currRtt > delay
      · simp [hgt]
      · simp [hgt, h.least.ne_zero hne]
    have hrounds : Rounds (delay :: round) first := by
      refine ⟨hrtt ▸ hleast, ?_⟩
      rw [hfields.1, hcount, List.length_cons]
      omega
    have hmore : first.delayMin + hystartDelayThresh (first.delayMin >>> 3) < first.currRtt ↔
        MoreDelay ca.delayMin round delay := by
      rw [hfields.2.1, hrtt, hleast.lt_iff (List.cons_ne_nil delay round), MoreDelay]
      exact ⟨fun hall => ⟨hlength, hall⟩, fun hall => hall.2⟩
    rw [if_neg hfew]
    by_cases hslow : first.currRtt > first.delayMin + hystartDelayThresh (first.delayMin >>> 3)
    · rw [if_pos hslow]
      refine ⟨⟨hrounds.least, hrounds.count⟩, hfields.2.1, Or.inr ⟨hmore.mp hslow, rfl, ?_⟩⟩
      show first.found ||| hystartDelay = _
      rw [hfields.2.2]
    · rw [if_neg hslow]
      exact ⟨hrounds, hfields.2.1, Or.inl ⟨fun h => hslow (hmore.mpr h), rfl, hfields.2.2⟩⟩

/-- Once something is found, nothing is looked for any more. -/
theorem hystartUpdate_of_detected (h : ca.detected = true) :
    hystartUpdate tp ca delay now = (tp, ca) := by
  unfold hystartUpdate
  rw [if_pos (of_decide_eq_true h)]

/-- **`hystart_update`** ends slow start exactly at a train or at more delay, and both detections
look at the same samples. -/
theorem hystartUpdate_spec (h : Rounds round ca) (hdelay : delay ≠ 0) (hnew : ca.detected = false) :
    Rounds (delay :: round) (hystartUpdate tp ca delay now).2 ∧
      (hystartUpdate tp ca delay now).2.delayMin = ca.delayMin ∧
      ((¬ (AckTrain ca.delayMin ca now ∨ MoreDelay ca.delayMin round delay) ∧
          (hystartUpdate tp ca delay now).1 = tp ∧
          (hystartUpdate tp ca delay now).2.detected = false) ∨
        ((AckTrain ca.delayMin ca now ∨ MoreDelay ca.delayMin round delay) ∧
          (hystartUpdate tp ca delay now).1 = tp.leaveSlowStart ∧
          (hystartUpdate tp ca delay now).2.detected = true)) := by
  have hupdate : hystartUpdate tp ca delay now =
      detectDelay (detectAckTrain tp ca now).1 (detectAckTrain tp ca now).2 delay := by
    unfold hystartUpdate
    rw [if_neg (of_decide_eq_false hnew)]
    rfl
  obtain ⟨hrounds, hmin, htrain⟩ := @detectAckTrain_spec ρ tp ca round now h
  rw [hupdate]
  generalize detectAckTrain tp ca now = first at hrounds hmin htrain
  obtain ⟨hrounds', hmin', hdelayed⟩ :=
    @detectDelay_spec ρ first.1 first.2 round delay hrounds hdelay
  rw [hmin] at hmin' hdelayed
  refine ⟨hrounds', hmin', ?_⟩
  generalize detectDelay first.1 first.2 delay = second at hdelayed
  rcases htrain with ⟨hno, hsock, hfound⟩ | ⟨hyes, hsock, hfound⟩
  · rcases hdelayed with ⟨hno', hsock', hfound'⟩ | ⟨hyes', hsock', hfound'⟩
    · refine Or.inl ⟨not_or.mpr ⟨hno, hno'⟩, hsock'.trans hsock, ?_⟩
      rw [Bictcp.detected, hfound', hfound]
      exact hnew
    · refine Or.inr ⟨Or.inr hyes', by rw [hsock', hsock], ?_⟩
      exact detected_or (Or.inr hfound')
  · refine Or.inr ⟨Or.inl hyes, ?_, ?_⟩
    · rcases hdelayed with ⟨-, hsock', -⟩ | ⟨-, hsock', -⟩ <;> rw [hsock', hsock]
      rfl
    · rcases hdelayed with ⟨-, -, hfound'⟩ | ⟨-, -, hfound'⟩
      · exact detected_or (Or.inl (hfound'.trans hfound))
      · exact detected_or (Or.inr hfound')

end Detections

/-! ## The history -/

/-- The samples since the module was reset, and those of the round that HyStart has looked at;
the newest first. -/
structure RttHistory where
  samples : List UInt32
  round : List UInt32

/-- The module is reset: at the beginning, and at a loss outside of a reported handover. -/
def ModuleCall.Resets (handoverStatus : Bool) : ModuleCall ρ → Prop
  | .init _ _ => True
  | .callback (.state _ newState _) => newState = tcpCALoss ∧ handoverStatus = false
  | _ => False

instance (handoverStatus : Bool) : DecidablePred (ModuleCall.Resets (ρ := ρ) handoverStatus)
  | .init _ _ => isTrue trivial
  | .callback (.state _ _ _) => inferInstanceAs (Decidable (_ ∧ _))
  | .callback (.recalcSsthresh _) => isFalse id
  | .callback (.congAvoid _ _ _ _) => isFalse id
  | .callback (.acked _ _ _) => isFalse id
  | .callback (.cwndEvent _ _ _) => isFalse id

section History

variable (kernel : Kernel ρ)

/-- A round begins: an ACK is above what was sent when the last one began. -/
def BeginsRound (ca : Bictcp) (tp : TcpSock ρ) (ack : UInt32) : Prop :=
  kernel.tcpIsCwndLimited tp ∧ kernel.tcpInSlowStart tp ∧ after ack ca.endSeq

instance (ca : Bictcp) (tp : TcpSock ρ) (ack : UInt32) : Decidable (BeginsRound kernel ca tp ack) :=
  inferInstanceAs (Decidable (_ ∧ _))

/-- The history behind a call. -/
def RttHistory.next (h : RttHistory) (v : ModuleVisit ρ) : RttHistory :=
  if v.input.call.Resets v.input.handoverStatus then ⟨[], []⟩
  else match v.input.call with
    | .callback (.congAvoid tp ack _ _) =>
        if BeginsRound kernel v.before tp ack then { h with round := [] } else h
    | .callback (.acked tp rttUs now) =>
        if TakesSample kernel v.before rttUs now then
          { samples := sampleDelay rttUs :: h.samples
            round := if Watches kernel tp ∧ v.before.detected = false then
              sampleDelay rttUs :: h.round else h.round }
        else h
    | _ => h

/-- The history behind these visits. -/
def rttHistory (visits : List (ModuleVisit ρ)) : RttHistory :=
  visits.foldl (RttHistory.next kernel) ⟨[], []⟩

end History

/-- The state has what is to be kept of the history. -/
structure Tracks (h : RttHistory) (ca : Bictcp) : Prop where
  delay : LeastDelay h.samples ca.delayMin
  rounds : Rounds h.round ca

/-! ## One call -/

/-- The four members that HyStart works with are as they were. -/
structure SameRtts (ca ca' : Bictcp) : Prop where
  delayMin : ca'.delayMin = ca.delayMin
  currRtt : ca'.currRtt = ca.currRtt
  sampleCnt : ca'.sampleCnt = ca.sampleCnt
  found : ca'.found = ca.found

theorem SameRtts.trans {a b c : Bictcp} (h : SameRtts a b) (h' : SameRtts b c) : SameRtts a c :=
  ⟨h'.delayMin.trans h.delayMin, h'.currRtt.trans h.currRtt, h'.sampleCnt.trans h.sampleCnt,
    h'.found.trans h.found⟩

theorem SameRtts.tracks {hist : RttHistory} {ca ca' : Bictcp} (h : SameRtts ca ca')
    (ht : Tracks hist ca) : Tracks hist ca' :=
  ⟨h.delayMin.symm ▸ ht.delay, h.currRtt.symm ▸ ht.rounds.least, h.sampleCnt.symm ▸ ht.rounds.count⟩

theorem SameRtts.detected {ca ca' : Bictcp} (h : SameRtts ca ca') : ca'.detected = ca.detected := by
  rw [Bictcp.detected, h.found, Bictcp.detected]

section Steps

variable {kernel : Kernel ρ} {handoverStatus : Bool} {hist : RttHistory} {ca ca' : Bictcp}
  {tp : TcpSock ρ} {cwnd count : UInt32} {jiffies : UInt32} {now : Clocks} {rttUs : Int32}

theorem tcpFriendlinessPart_same (h : tcpFriendlinessPart ca cwnd = .ok ca') : SameRtts ca ca' := by
  rw [tcpFriendlinessPart_eq] at h
  cases hcount : countTcpCwnd ((cwnd * betaScale) >>> 3) ca.ackCnt.toNat ca.ackCnt ca.tcpCwnd with
  | error e =>
      rw [hcount] at h
      cases h
  | ok counts =>
      rw [hcount] at h
      obtain rfl := Except.ok.inj h
      exact ⟨rfl, rfl, rfl, rfl⟩

theorem beforeCubic_same :
    SameRtts ca (beforeCubic handoverStatus ca cwnd count jiffies) := by
  simp only [beforeCubic]
  split
  · simp only [beginEpoch]
    split <;> exact ⟨rfl, rfl, rfl, rfl⟩
  · exact ⟨rfl, rfl, rfl, rfl⟩

theorem bictcpUpdate_same
    (h : bictcpUpdate kernel handoverStatus ca cwnd count jiffies = .ok ca') :
    SameRtts ca ca' := by
  unfold bictcpUpdate at h
  split at h
  · obtain rfl := Except.ok.inj h
    exact ⟨rfl, rfl, rfl, rfl⟩
  · split at h
    · have hacked : SameRtts ca { ca with ackCnt := ca.ackCnt + count } := ⟨rfl, rfl, rfl, rfl⟩
      exact hacked.trans (tcpFriendlinessPart_same h)
    · have hbefore : SameRtts ca (beforeCubic handoverStatus ca cwnd count jiffies) :=
        beforeCubic_same
      have hafter := tcpFriendlinessPart_same h
      exact hbefore.trans ⟨hafter.delayMin, hafter.currRtt, hafter.sampleCnt, hafter.found⟩

/-- The window and the number of ACKs that `bictcp_cong_avoid` calls `bictcp_update` with, if it
does. -/
def updateArgs (kernel : Kernel ρ) (tp : TcpSock ρ) (count : UInt32) : Option (UInt32 × UInt32) :=
  if ¬ kernel.tcpIsCwndLimited tp then none
  else if kernel.tcpInSlowStart tp then
    let slow := kernel.tcpSlowStart tp count
    if slow.2 = 0 then none else some (slow.1.sndCwnd, slow.2)
  else some (tp.sndCwnd, count)

/-- The state it calls it in: as it was, or that of a new round. -/
def roundState (kernel : Kernel ρ) (ca : Bictcp) (tp : TcpSock ρ) (ack : UInt32) (now : Clocks) :
    Bictcp :=
  if BeginsRound kernel ca tp ack then bictcpHystartReset tp ca now else ca

/-- **`bictcp_cong_avoid`** is a call of `bictcp_update`, or leaves the state. -/
theorem congAvoid_update {ack : UInt32} {tp' : TcpSock ρ}
    (h : bictcpCongAvoid kernel handoverStatus tp ca ack count now = .ok (tp', ca')) :
    (updateArgs kernel tp count = none ∧ ca' = roundState kernel ca tp ack now) ∨
      ∃ cwnd acked, updateArgs kernel tp count = some (cwnd, acked) ∧
        bictcpUpdate kernel handoverStatus (roundState kernel ca tp ack now) cwnd acked
          now.tcpJiffies32 = .ok ca' := by
  have hgrow : ∀ {tp : TcpSock ρ} {ca : Bictcp} {count : UInt32},
      updateAndGrow kernel handoverStatus tp ca count now = .ok (tp', ca') →
      bictcpUpdate kernel handoverStatus ca tp.sndCwnd count now.tcpJiffies32 = .ok ca' := by
    intro tp ca count h
    unfold updateAndGrow at h
    cases hok : bictcpUpdate kernel handoverStatus ca tp.sndCwnd count now.tcpJiffies32 with
    | error e =>
        rw [hok] at h
        cases h
    | ok ca'' =>
        rw [hok] at h
        obtain ⟨-, rfl⟩ := Prod.mk.inj (Except.ok.inj h)
        rfl
  unfold bictcpCongAvoid at h
  unfold updateArgs roundState
  by_cases hlimited : kernel.tcpIsCwndLimited tp = true
  · rw [if_neg (not_not.mpr hlimited)] at h ⊢
    by_cases hslow : kernel.tcpInSlowStart tp = true
    · have hround : (if hystart ∧ after ack ca.endSeq then bictcpHystartReset tp ca now else ca) =
          if BeginsRound kernel ca tp ack then bictcpHystartReset tp ca now else ca :=
        if_congr ⟨fun h => ⟨hlimited, hslow, h.2⟩, fun h => ⟨rfl, h.2.2⟩⟩ rfl rfl
      rw [if_pos hslow] at h ⊢
      dsimp only at h ⊢
      rw [hround] at h
      split at h
      next hzero =>
        obtain ⟨-, rfl⟩ := Prod.mk.inj (Except.ok.inj h)
        exact Or.inl ⟨if_pos hzero, rfl⟩
      next hzero => exact Or.inr ⟨_, _, if_neg hzero, hgrow h⟩
    · rw [if_neg hslow] at h ⊢
      rw [if_neg fun hbegins : BeginsRound kernel ca tp ack => hslow hbegins.2.1]
      exact Or.inr ⟨_, _, rfl, hgrow h⟩
  · rw [if_pos hlimited] at h ⊢
    obtain ⟨-, rfl⟩ := Prod.mk.inj (Except.ok.inj h)
    exact Or.inl ⟨rfl, (if_neg fun hbegins : BeginsRound kernel _ tp ack => hlimited hbegins.1).symm⟩

/-- Beyond the new round HyStart's members stay. -/
theorem congAvoid_same {ack : UInt32} {tp' : TcpSock ρ}
    (h : bictcpCongAvoid kernel handoverStatus tp ca ack count now = .ok (tp', ca')) :
    SameRtts (roundState kernel ca tp ack now) ca' := by
  rcases congAvoid_update h with ⟨-, rfl⟩ | ⟨cwnd, acked, -, hupdate⟩
  · exact ⟨rfl, rfl, rfl, rfl⟩
  · exact bictcpUpdate_same hupdate

/-- **Slow start is ended** by a call of `bictcp_acked`: it takes the sample, HyStart has not found
anything yet, and finds it now. -/
def EndsSlowStart (kernel : Kernel ρ) (round : List UInt32) (ca : Bictcp) (tp : TcpSock ρ)
    (rttUs : Int32) (now : Clocks) : Prop :=
  TakesSample kernel ca rttUs now ∧ Watches kernel tp ∧ ca.detected = false ∧
    (AckTrain (lowerDelayMin ca (sampleDelay rttUs)).delayMin ca now ∨
      MoreDelay (lowerDelayMin ca (sampleDelay rttUs)).delayMin round (sampleDelay rttUs))

/-- The new least delay. -/
theorem lowerDelayMin_delayMin (ca : Bictcp) (delay : UInt32) :
    (lowerDelayMin ca delay).delayMin =
      if ca.delayMin = 0 ∨ ca.delayMin > delay then delay else ca.delayMin := by
  unfold lowerDelayMin
  split <;> rfl

theorem lowerDelayMin_rounds {round : List UInt32} (h : Rounds round ca) (delay : UInt32) :
    Rounds round (lowerDelayMin ca delay) ∧
      (lowerDelayMin ca delay).detected = ca.detected ∧
      ∀ delayMin, AckTrain delayMin (lowerDelayMin ca delay) now ↔ AckTrain delayMin ca now := by
  unfold lowerDelayMin
  split
  · exact ⟨⟨h.least, h.count⟩, rfl, fun _ => Iff.rfl⟩
  · exact ⟨h, rfl, fun _ => Iff.rfl⟩

/-- What `bictcp_acked` hands on, and what it does to the socket. -/
structure AckedResult (kernel : Kernel ρ) (hist : RttHistory) (ca : Bictcp) (tp : TcpSock ρ)
    (rttUs : Int32) (now : Clocks) (result : TcpSock ρ × Bictcp) : Prop where
  tracks : Tracks (if TakesSample kernel ca rttUs now then
    { samples := sampleDelay rttUs :: hist.samples
      round := if Watches kernel tp ∧ ca.detected = false then
        sampleDelay rttUs :: hist.round else hist.round } else hist) result.2
  ends : EndsSlowStart kernel hist.round ca tp rttUs now →
    result.1 = tp.leaveSlowStart ∧ result.2.detected = true
  stays : ¬ EndsSlowStart kernel hist.round ca tp rttUs now →
    result.1 = tp ∧ result.2.detected = ca.detected

/-- **`bictcp_acked`** keeps track of the history, and leaves the socket alone but to end slow
start. -/
theorem acked_result (ht : Tracks hist ca) :
    AckedResult kernel hist ca tp rttUs now (bictcpAcked kernel tp ca rttUs now) := by
  have hdelay := sampleDelay_ne_zero rttUs
  rw [bictcpAcked_eq]
  by_cases htakes : TakesSample kernel ca rttUs now
  · have hleast : LeastDelay (sampleDelay rttUs :: hist.samples)
        (lowerDelayMin ca (sampleDelay rttUs)).delayMin := by
      rw [lowerDelayMin_delayMin]
      exact ht.delay.cons hdelay
    obtain ⟨hrounds, hdetected, htrain⟩ :=
      @lowerDelayMin_rounds ca now hist.round ht.rounds (sampleDelay rttUs)
    rw [if_pos htakes]
    by_cases hwatches : Watches kernel tp
    · rw [if_pos hwatches]
      cases hnew : ca.detected with
      | true =>
          have hround : (if Watches kernel tp ∧ ca.detected = false then
              sampleDelay rttUs :: hist.round else hist.round) = hist.round :=
            if_neg fun h => Bool.false_ne_true (h.2.symm.trans hnew)
          rw [hystartUpdate_of_detected (hdetected.trans hnew)]
          refine ⟨?_, fun h => absurd (h.2.2.1.symm.trans hnew) Bool.false_ne_true,
            fun _ => ⟨rfl, hdetected⟩⟩
          rw [if_pos htakes, hround]
          exact ⟨hleast, hrounds⟩
      | false =>
          obtain ⟨hrounds', hmin, hends⟩ := @hystartUpdate_spec ρ tp
            (lowerDelayMin ca (sampleDelay rttUs)) hist.round (sampleDelay rttUs) now hrounds hdelay
            (hdetected.trans hnew)
          rw [htrain] at hends
          have hround : (if Watches kernel tp ∧ ca.detected = false then
              sampleDelay rttUs :: hist.round else hist.round) =
              sampleDelay rttUs :: hist.round := if_pos ⟨hwatches, hnew⟩
          refine ⟨?_, fun h => ?_, fun h => ?_⟩
          · rw [if_pos htakes, hround]
            exact ⟨hmin.symm ▸ hleast, hrounds'⟩
          · exact (hends.resolve_left fun hno => hno.1 h.2.2.2).2
          · rw [hnew]
            exact (hends.resolve_right fun hyes => h ⟨htakes, hwatches, hnew, hyes.1⟩).2
    · rw [if_neg hwatches]
      have hround : (if Watches kernel tp ∧ ca.detected = false then
          sampleDelay rttUs :: hist.round else hist.round) = hist.round :=
        if_neg fun h => hwatches h.1
      refine ⟨?_, fun h => absurd h.2.1 hwatches, fun _ => ⟨rfl, hdetected⟩⟩
      rw [if_pos htakes, hround]
      exact ⟨hleast, hrounds⟩
  · rw [if_neg htakes]
    refine ⟨?_, fun h => absurd h.1 htakes, fun _ => ⟨rfl, rfl⟩⟩
    rw [if_neg htakes]
    exact ht

theorem cwndEvent_same (tp : TcpSock ρ) (ca : Bictcp) (event : CaEvent) (now : Clocks) :
    SameRtts ca (bictcpCwndEvent tp ca event now) := by
  cases event with
  | other => exact ⟨rfl, rfl, rfl, rfl⟩
  | txStart =>
      simp only [bictcpCwndEvent]
      split <;> exact ⟨rfl, rfl, rfl, rfl⟩

/-- A loss in a reported handover, or no loss. -/
theorem bictcpState_of_not_resets {newState : UInt8}
    (h : ¬ (newState = tcpCALoss ∧ handoverStatus = false)) :
    bictcpState handoverStatus tp ca newState now = ca := by
  unfold bictcpState
  split
  next hloss => rw [if_neg fun hno => h ⟨hloss, eq_false_of_ne_true hno⟩]
  next => rfl

theorem reset_tracks (tp : TcpSock ρ) (ca : Bictcp) (now : Clocks) :
    Tracks ⟨[], []⟩ (bictcpHystartReset tp (bictcpReset ca) now) := ⟨.nil, .nil, rfl⟩

/-- A connection begins with no history. -/
theorem tracks_init {v : ModuleVisit ρ} (hcall : v.input.call = .init tp now)
    (hok : v.input.call.run kernel v.input.handoverStatus v.before = .ok ca') :
    Tracks (hist.next kernel v) ca' := by
  unfold RttHistory.next
  rw [hcall] at hok ⊢
  obtain rfl := Except.ok.inj hok
  rw [if_pos (show ModuleCall.Resets _ (.init tp now) from trivial)]
  exact reset_tracks tp v.before now

/-- **Every call** keeps track of the history. -/
theorem tracks_call {v : ModuleVisit ρ} (ht : Tracks hist v.before)
    (hok : v.input.call.run kernel v.input.handoverStatus v.before = .ok ca') :
    Tracks (hist.next kernel v) ca' := by
  cases hcall : v.input.call with
  | init tp now => exact tracks_init hcall hok
  | callback c =>
      unfold RttHistory.next
      rw [hcall] at hok ⊢
      cases c with
      | recalcSsthresh tp =>
          obtain rfl := Except.ok.inj hok
          exact ⟨ht.delay, ht.rounds.least, ht.rounds.count⟩
      | state tp newState now =>
          obtain rfl := Except.ok.inj hok
          by_cases hresets : newState = tcpCALoss ∧ v.input.handoverStatus = false
          · rw [if_pos (show ModuleCall.Resets _ (.callback (.state tp newState now)) from hresets),
              bictcpState, if_pos hresets.1, if_pos (by rw [hresets.2]; exact Bool.false_ne_true)]
            exact reset_tracks tp v.before now
          · rw [if_neg (show ¬ ModuleCall.Resets _ (.callback (.state tp newState now)) from hresets),
              bictcpState_of_not_resets hresets]
            exact ht
      | congAvoid tp ack count now =>
          rw [ModuleCall.run, Callback.run] at hok
          cases hcong : bictcpCongAvoid kernel v.input.handoverStatus tp v.before ack count now with
          | error e =>
              rw [hcong] at hok
              cases hok
          | ok result =>
              rw [hcong] at hok
              obtain rfl := Except.ok.inj hok
              refine (congAvoid_same hcong).tracks ?_
              unfold roundState
              show Tracks (if BeginsRound kernel v.before tp ack then _ else _) _
              split
              · exact ⟨ht.delay, .nil, rfl⟩
              · exact ht
      | acked tp rttUs now =>
          obtain rfl := Except.ok.inj hok
          exact (acked_result ht).tracks
      | cwndEvent tp event now =>
          obtain rfl := Except.ok.inj hok
          exact (cwndEvent_same tp v.before event now).tracks ht

theorem congAvoid_detected {ack : UInt32} {tp' : TcpSock ρ}
    (h : bictcpCongAvoid kernel handoverStatus tp ca ack count now = .ok (tp', ca')) :
    ca'.detected = ca.detected := by
  rw [(congAvoid_same h).detected, roundState]
  split <;> rfl

/-- What HyStart has found it keeps, but for a reset. -/
theorem detected_call {c : TimedCall ρ} (ht : Tracks hist ca)
    (hresets : ¬ c.call.Resets c.handoverStatus)
    (hdetected : ca.detected = true) (hok : c.call.run kernel c.handoverStatus ca = .ok ca') :
    ca'.detected = true := by
  cases hcall : c.call with
  | init tp now =>
      rw [hcall] at hresets
      exact absurd trivial hresets
  | callback cb =>
      rw [hcall] at hresets hok
      cases cb with
      | recalcSsthresh tp =>
          obtain rfl := Except.ok.inj hok
          exact hdetected
      | state tp newState now =>
          obtain rfl := Except.ok.inj hok
          rw [bictcpState_of_not_resets hresets]
          exact hdetected
      | congAvoid tp ack count now =>
          rw [ModuleCall.run, Callback.run] at hok
          cases hcong : bictcpCongAvoid kernel c.handoverStatus tp ca ack count now with
          | error e =>
              rw [hcong] at hok
              cases hok
          | ok result =>
              rw [hcong] at hok
              obtain rfl := Except.ok.inj hok
              rw [congAvoid_detected hcong]
              exact hdetected
      | acked tp rttUs now =>
          obtain rfl := Except.ok.inj hok
          have hresult : AckedResult kernel hist ca tp rttUs now
            (bictcpAcked kernel tp ca rttUs now) := acked_result ht
          have hno : ¬ EndsSlowStart kernel hist.round ca tp rttUs now := fun hends =>
            Bool.false_ne_true (hends.2.2.1.symm.trans hdetected)
          exact (hresult.stays hno).2.trans hdetected
      | cwndEvent tp event now =>
          obtain rfl := Except.ok.inj hok
          rw [(cwndEvent_same tp ca event now).detected]
          exact hdetected

end Steps

/-! ## Runs -/

section Run

variable {kernel : Kernel ρ} {run : List (ModuleVisit ρ)} {k : Nat}

theorem rttHistory_take_succ {v : ModuleVisit ρ} (hv : run[k]? = some v) :
    rttHistory kernel (run.take (k + 1)) = (rttHistory kernel (run.take k)).next kernel v := by
  rw [rttHistory, List.take_add_one, hv, Option.toList_some, List.foldl_append]
  rfl

/-- At step `k` of the run slow start is ended. -/
def EndsAt (kernel : Kernel ρ) (run : List (ModuleVisit ρ)) (k : Nat) : Prop :=
  ∃ v tp rttUs now, run[k]? = some v ∧ v.input.call = .callback (.acked tp rttUs now) ∧
    EndsSlowStart kernel (rttHistory kernel (run.take k)).round v.before tp rttUs now

/-- A connection: `bictcp_init`, and the calls behind it. -/
def connectionRun (kernel : Kernel ρ) (ca : Bictcp) (tp : TcpSock ρ) (now : Clocks)
    (handoverStatus : Bool) (time : Nat) (calls : List (TimedCall ρ)) : List (ModuleVisit ρ) :=
  moduleRun kernel ca (⟨.init tp now, handoverStatus, time⟩ :: calls)

variable {ca : Bictcp} {tp : TcpSock ρ} {now : Clocks} {handoverStatus : Bool} {time : Nat}
  {calls : List (TimedCall ρ)} {v : ModuleVisit ρ}

/-- **The history is kept track of**, from the first call on. -/
theorem tracks_run
    (hv : (connectionRun kernel ca tp now handoverStatus time calls)[k + 1]? = some v) :
    Tracks (rttHistory kernel
      ((connectionRun kernel ca tp now handoverStatus time calls).take (k + 1))) v.before := by
  have hstep : ∀ (k : Nat) (v : ModuleVisit ρ) ca',
      (connectionRun kernel ca tp now handoverStatus time calls)[k]? = some v →
      (k ≠ 0 → Tracks (rttHistory kernel
        ((connectionRun kernel ca tp now handoverStatus time calls).take k)) v.before) →
      v.done.result = .ok ca' → k + 1 ≠ 0 → Tracks (rttHistory kernel
        ((connectionRun kernel ca tp now handoverStatus time calls).take (k + 1))) ca' := by
    intro k v ca' hv ht hok _
    rw [rttHistory_take_succ hv]
    cases k with
    | zero =>
        obtain ⟨hinput, -⟩ := Logged.visits_input hv
        rw [List.getElem?_cons_zero, Option.some.injEq] at hinput
        exact tracks_init (by rw [← hinput]) (moduleRun_ok hv hok)
    | succ k => exact tracks_call (ht (Nat.succ_ne_zero k)) (moduleRun_ok hv hok)
  exact Logged.visits_inv (fun k ca' => k ≠ 0 → Tracks (rttHistory kernel
    ((connectionRun kernel ca tp now handoverStatus time calls).take k)) ca')
    (fun h => absurd rfl h) hstep hv (Nat.succ_ne_zero k)

/-- Once HyStart has found something, it has until the module is reset. -/
theorem detected_run {i j : Nat} {w : ModuleVisit ρ} (hij : i < j)
    (hv : (connectionRun kernel ca tp now handoverStatus time calls)[i]? = some v)
    (hdetected : ∀ ca', v.done.result = .ok ca' → ca'.detected = true)
    (hw : (connectionRun kernel ca tp now handoverStatus time calls)[j]? = some w)
    (hno : ∀ r x, i < r → r < j →
      (connectionRun kernel ca tp now handoverStatus time calls)[r]? = some x →
      ¬ x.input.call.Resets x.input.handoverStatus) : w.before.detected = true := by
  obtain ⟨m, rfl⟩ := Nat.exists_eq_add_of_lt hij
  induction m generalizing w with
  | zero =>
      obtain ⟨v', hv', hok⟩ := Logged.visits_succ hw
      obtain rfl := Option.some.inj (hv.symm.trans hv')
      exact hdetected _ hok
  | succ m ih =>
      obtain ⟨x, hx, hok⟩ := Logged.visits_succ hw
      have hbefore : x.before.detected = true :=
        ih (by omega) hx fun r y h₁ h₂ hy => hno r y h₁ (by omega) hy
      exact detected_call (tracks_run hx) (hno _ x (by omega) (by omega) hx) hbefore
        (moduleRun_ok hx hok)

theorem endsSlowStart_of_endsAt {rttUs : Int32} {clocks : Clocks} (hv : run[k]? = some v)
    (hcall : v.input.call = .callback (.acked tp rttUs clocks)) (h : EndsAt kernel run k) :
    EndsSlowStart kernel (rttHistory kernel (run.take k)).round v.before tp rttUs clocks := by
  obtain ⟨v', tp', rttUs', now', hv', hcall', hends⟩ := h
  obtain rfl := Option.some.inj (hv.symm.trans hv')
  rw [hcall] at hcall'
  obtain ⟨rfl, rfl, rfl⟩ := Callback.acked.inj (ModuleCall.callback.inj hcall')
  exact hends

/-- What ends slow start is found. -/
theorem detected_of_endsAt {ca' : Bictcp}
    (hv : (connectionRun kernel ca tp now handoverStatus time calls)[k]? = some v)
    (hends : EndsAt kernel (connectionRun kernel ca tp now handoverStatus time calls) k)
    (hok : v.done.result = .ok ca') : ca'.detected = true := by
  obtain ⟨v', tp', rttUs, clocks, hv', hcall, hends⟩ := hends
  obtain rfl := Option.some.inj (hv.symm.trans hv')
  cases k with
  | zero =>
      -- the first call is `bictcp_init`
      obtain ⟨hinput, -⟩ := Logged.visits_input hv
      rw [List.getElem?_cons_zero, Option.some.injEq] at hinput
      rw [← hinput] at hcall
      cases hcall
  | succ k =>
      have hrun := moduleRun_ok hv hok
      rw [hcall] at hrun
      obtain rfl := Except.ok.inj hrun
      exact ((acked_result (tracks_run hv)).ends hends).2

/-- **HyStart over the life of a connection.**  Whatever callbacks come, and whatever
`handover_status` is at each: the state keeps the least sample since the last reset, and the least
and the number of those of the round; `bictcp_acked` sets the threshold to the window exactly if
it finds a train of ACKs or more delay than the least, and else leaves the socket alone; and
it does so once at most between two resets. -/
theorem hystart_run (kernel : Kernel ρ) (ca : Bictcp) (tp : TcpSock ρ) (now : Clocks)
    (handoverStatus : Bool) (time : Nat) (calls : List (TimedCall ρ)) :
    (∀ (k : Nat) (v : ModuleVisit ρ),
      (connectionRun kernel ca tp now handoverStatus time calls)[k + 1]? = some v →
      Tracks (rttHistory kernel
        ((connectionRun kernel ca tp now handoverStatus time calls).take (k + 1))) v.before ∧
      ∀ tp' rttUs clocks, v.input.call = .callback (.acked tp' rttUs clocks) →
        (EndsAt kernel (connectionRun kernel ca tp now handoverStatus time calls) (k + 1) →
          (bictcpAcked kernel tp' v.before rttUs clocks).1 = tp'.leaveSlowStart) ∧
        (¬ EndsAt kernel (connectionRun kernel ca tp now handoverStatus time calls) (k + 1) →
          (bictcpAcked kernel tp' v.before rttUs clocks).1 = tp')) ∧
    ∀ i j, i < j → EndsAt kernel (connectionRun kernel ca tp now handoverStatus time calls) i →
      EndsAt kernel (connectionRun kernel ca tp now handoverStatus time calls) j →
      ∃ (r : Nat) (x : ModuleVisit ρ), i < r ∧ r < j ∧
        (connectionRun kernel ca tp now handoverStatus time calls)[r]? = some x ∧
        x.input.call.Resets x.input.handoverStatus := by
  refine ⟨fun k v hv => ⟨tracks_run hv, fun tp' rttUs clocks hcall => ?_⟩,
    fun i j hij hends hends' => ?_⟩
  · have hresult : AckedResult kernel _ v.before tp' rttUs clocks
      (bictcpAcked kernel tp' v.before rttUs clocks) := acked_result (tracks_run hv)
    refine ⟨fun hends => (hresult.ends ?_).1, fun hno => (hresult.stays fun hends => hno ?_).1⟩
    · exact endsSlowStart_of_endsAt hv hcall hends
    · exact ⟨v, tp', rttUs, clocks, hv, hcall, hends⟩
  · obtain ⟨w, _, _, _, hw, _, hnew⟩ := id hends'
    have hbefore : w.before.detected = false := hnew.2.2.1
    refine Classical.byContradiction fun hno => Bool.false_ne_true (hbefore.symm.trans ?_)
    obtain ⟨v, _, _, _, hv, _⟩ := id hends
    exact detected_run hij hv (fun ca' => detected_of_endsAt hv hends) hw
      fun r x h₁ h₂ hx hresets => hno ⟨r, x, h₁, h₂, hx, hresets⟩

end Run

end LeoEM
