/-
# `Satcp.Growth` — an epoch over a run of callbacks

`bictcp_update` grows the window by the cubic function of an epoch.  Which of the kernel's
callbacks touch what it works with?  A call either comes to `bictcp_update`, with the state it
found but for a round of HyStart (`updateOf_run`), or leaves all of it, unless it ends the epoch
(`no_update_growth`); and a pause in sending moves the start of the epoch.

So the origin of the function and the time to it are those of the call that began the epoch, at
every call of the epoch (`goesBack_computes`).
-/
import LeoEM.Satcp.HyStart
import LeoEM.Satcp.Origin

namespace LeoEM

variable {ρ : Type}

/-! ## One call of `bictcp_update` -/

section Update

variable {kernel : Kernel ρ} {handoverStatus : Bool} {ca ca' : Bictcp}
  {cwnd acked jiffies : UInt32}

/-- A target above the window lets it grow. -/
theorem bictcpCnt_le {target : UInt32} {bound : Nat} (htarget : bound ≤ target.toNat)
    (hcwnd : cwnd.toNat < bound) :
    (bictcpCnt target cwnd).toNat ≤ cwnd.toNat / (bound - cwnd.toNat) := by
  have hlt : cwnd < target := UInt32.lt_iff_toNat_lt.mpr (by omega)
  rw [bictcpCnt, if_pos hlt, UInt32.toNat_div, UInt32.toNat_sub_of_le _ _ (UInt32.le_of_lt hlt)]
  exact Nat.div_le_div_left (by omega) (by omega)

theorem friendlyCnt_le (cnt cwnd tcpCwnd : UInt32) :
    (friendlyCnt cnt cwnd tcpCwnd).toNat ≤ max cnt.toNat 2 := by
  rw [friendlyCnt, toNat_max]
  refine max_le_max ?_ (le_refl 2)
  split
  next h => exact (UInt32.lt_iff_toNat_lt.mp h.2).le
  next => exact le_refl _

theorem tcpFriendlinessPart_cnt (h : tcpFriendlinessPart ca cwnd = .ok ca') :
    ca'.cnt.toNat ≤ max ca.cnt.toNat 2 := by
  rw [tcpFriendlinessPart_eq] at h
  cases hcount : countTcpCwnd ((cwnd * betaScale) >>> 3) ca.ackCnt.toNat ca.ackCnt ca.tcpCwnd with
  | error e =>
      rw [hcount] at h
      cases h
  | ok counts =>
      rw [hcount] at h
      obtain rfl := Except.ok.inj h
      exact friendlyCnt_le _ _ _

theorem cubicFunction_cnt_le (ca : Bictcp) :
    (cubicFunction kernel ca cwnd jiffies).cnt.toNat ≤
      (bictcpCnt (bicTarget ca.bicOriginPoint ca.bicK (epochTime kernel ca jiffies))
        cwnd).toNat := by
  simp only [cubicFunction]
  split
  next h => exact (UInt32.lt_iff_toNat_lt.mp h.2).le
  next => exact le_refl _

/-- A call that computes the cubic function with a target of `bound` or more. -/
theorem bictcpUpdate_cnt {bound : Nat} (hcubic : ComputesCubic kernel ca cwnd jiffies)
    (hcwnd : cwnd.toNat < bound)
    (htarget : bound ≤ (bicTarget
      (beforeCubic handoverStatus ca cwnd acked jiffies).bicOriginPoint
      (beforeCubic handoverStatus ca cwnd acked jiffies).bicK
      (epochTime kernel (beforeCubic handoverStatus ca cwnd acked jiffies) jiffies)).toNat)
    (h : bictcpUpdate kernel handoverStatus ca cwnd acked jiffies = .ok ca') :
    ca'.cnt.toNat ≤ max (cwnd.toNat / (bound - cwnd.toNat)) 2 := by
  rw [bictcpUpdate, hcubic.1, hcubic.2] at h
  refine (tcpFriendlinessPart_cnt h).trans (max_le_max ?_ (le_refl 2))
  exact (cubicFunction_cnt_le _).trans (bictcpCnt_le htarget hcwnd)

end Update

/-! ## Epochs over a run -/

/-- What a call of the module calls `bictcp_update` with. -/
structure UpdateCall where
  ca : Bictcp
  cwnd : UInt32
  acked : UInt32
  jiffies : UInt32

def updateOf (kernel : Kernel ρ) (v : ModuleVisit ρ) : Option UpdateCall :=
  match v.input.call with
  | .callback (.congAvoid tp ack count now) =>
      (updateArgs kernel tp count).map fun args =>
        ⟨roundState kernel v.before tp ack now, args.1, args.2, now.tcpJiffies32⟩
  | _ => none

/-- The state in which the call computes the cubic function. -/
def UpdateCall.begun (handoverStatus : Bool) (u : UpdateCall) : Bictcp :=
  beforeCubic handoverStatus u.ca u.cwnd u.acked u.jiffies

/-- Below the last maximum the epoch goes back there, in the time that `cubic_root` says. -/
theorem UpdateCall.begun_below (u : UpdateCall) (handoverStatus : Bool)
    (hbegins : u.ca.epochStart = 0) (hlt : u.cwnd < u.ca.lastMaxCwnd) :
    (u.begun handoverStatus).bicOriginPoint = u.ca.lastMaxCwnd ∧
      (u.begun handoverStatus).bicK =
        if handoverStatus = true then
          cubicRoot (cubeFactor * (u.ca.lastMaxCwnd - u.cwnd).toUInt64) -
            cubicRoot (cubeFactor * (u.ca.lastMaxCwnd - u.cwnd).toUInt64) * 8 / 9
        else cubicRoot (cubeFactor * (u.ca.lastMaxCwnd - u.cwnd).toUInt64) := by
  have hbegun := @beginEpoch_below { u.ca with
    ackCnt := u.ca.ackCnt + u.acked, lastCwnd := u.cwnd, lastTime := u.jiffies }
    u.cwnd u.acked u.jiffies handoverStatus hlt
  rw [UpdateCall.begun, beforeCubic, if_pos hbegins, hbegun]
  exact ⟨rfl, rfl⟩

/-- What `bictcp_update` works with is as it was, but for the start of the epoch. -/
structure SameGrowth (ca ca' : Bictcp) : Prop where
  lastMaxCwnd : ca'.lastMaxCwnd = ca.lastMaxCwnd
  bicOriginPoint : ca'.bicOriginPoint = ca.bicOriginPoint
  bicK : ca'.bicK = ca.bicK
  ackCnt : ca'.ackCnt = ca.ackCnt
  tcpCwnd : ca'.tcpCwnd = ca.tcpCwnd

theorem SameGrowth.trans {a b c : Bictcp} (h : SameGrowth a b) (h' : SameGrowth b c) :
    SameGrowth a c :=
  ⟨h'.lastMaxCwnd.trans h.lastMaxCwnd, h'.bicOriginPoint.trans h.bicOriginPoint,
    h'.bicK.trans h.bicK, h'.ackCnt.trans h.ackCnt, h'.tcpCwnd.trans h.tcpCwnd⟩

/-- ... and so is the start of the epoch. -/
structure SameEpoch (ca ca' : Bictcp) : Prop extends SameGrowth ca ca' where
  epochStart : ca'.epochStart = ca.epochStart

theorem SameEpoch.trans {a b c : Bictcp} (h : SameEpoch a b) (h' : SameEpoch b c) :
    SameEpoch a c :=
  ⟨h.toSameGrowth.trans h'.toSameGrowth, h'.epochStart.trans h.epochStart⟩

/-- The cubic function of a state that goes back to `lastMaxCwnd` in the time `K`. -/
structure GoesBack (lastMaxCwnd : UInt32) (K : Nat) (ca : Bictcp) : Prop where
  origin : ca.bicOriginPoint = lastMaxCwnd
  bicK : ca.bicK.toNat = K

section Epochs

variable {kernel : Kernel ρ} {lastMaxCwnd : UInt32} {K : Nat}
  {ca ca' : Bictcp} {tp : TcpSock ρ} {now : Clocks} {u : UpdateCall} {v : ModuleVisit ρ}

theorem GoesBack.same (h : GoesBack lastMaxCwnd K ca) (hsame : SameGrowth ca ca') :
    GoesBack lastMaxCwnd K ca' :=
  ⟨hsame.bicOriginPoint.trans h.origin, (congrArg UInt32.toNat hsame.bicK).trans h.bicK⟩

theorem roundState_growth (ca : Bictcp) (tp : TcpSock ρ) (ack : UInt32) (now : Clocks) :
    SameEpoch ca (roundState kernel ca tp ack now) := by
  unfold roundState
  split <;> exact ⟨⟨rfl, rfl, rfl, rfl, rfl⟩, rfl⟩

/-! ### `bictcp_acked` -/

theorem detectAckTrain_growth (tp : TcpSock ρ) (ca : Bictcp) (now : Clocks) :
    SameEpoch ca (detectAckTrain tp ca now).2 := by
  simp only [detectAckTrain]
  split
  · split <;> exact ⟨⟨rfl, rfl, rfl, rfl, rfl⟩, rfl⟩
  · exact ⟨⟨rfl, rfl, rfl, rfl, rfl⟩, rfl⟩

theorem detectDelay_growth (tp : TcpSock ρ) (ca : Bictcp) (delay : UInt32) :
    SameEpoch ca (detectDelay tp ca delay).2 := by
  have hrtt : ∀ (ca : Bictcp) (p : Prop) [Decidable p],
      SameEpoch ca (if p then { ca with currRtt := delay } else ca) := by
    intro ca p _
    split <;> exact ⟨⟨rfl, rfl, rfl, rfl, rfl⟩, rfl⟩
  unfold detectDelay
  have hfirst := hrtt ca (ca.currRtt > delay)
  generalize (if ca.currRtt > delay then { ca with currRtt := delay } else ca) = first at hfirst
  dsimp only
  split
  · have hsecond := hfirst.trans (hrtt first (first.currRtt = 0 ∨ first.currRtt > delay))
    exact hsecond.trans ⟨⟨rfl, rfl, rfl, rfl, rfl⟩, rfl⟩
  · split
    · exact hfirst.trans ⟨⟨rfl, rfl, rfl, rfl, rfl⟩, rfl⟩
    · exact hfirst

/-- HyStart has members of its own. -/
theorem bictcpAcked_growth (tp : TcpSock ρ) (ca : Bictcp) (rttUs : Int32) (now : Clocks) :
    SameEpoch ca (bictcpAcked kernel tp ca rttUs now).2 := by
  have hlower : SameEpoch ca (lowerDelayMin ca (sampleDelay rttUs)) := by
    unfold lowerDelayMin
    split <;> exact ⟨⟨rfl, rfl, rfl, rfl, rfl⟩, rfl⟩
  rw [bictcpAcked_eq]
  split
  · split
    · unfold hystartUpdate
      split
      · exact hlower
      · exact (hlower.trans (detectAckTrain_growth _ _ _)).trans (detectDelay_growth _ _ _)
    · exact hlower
  · exact ⟨⟨rfl, rfl, rfl, rfl, rfl⟩, rfl⟩

theorem bictcpCwndEvent_growth (tp : TcpSock ρ) (ca : Bictcp) (event : CaEvent) (now : Clocks) :
    SameGrowth ca (bictcpCwndEvent tp ca event now) := by
  cases event with
  | other => exact ⟨rfl, rfl, rfl, rfl, rfl⟩
  | txStart =>
      simp only [bictcpCwndEvent]
      split <;> exact ⟨rfl, rfl, rfl, rfl, rfl⟩

/-! ### A call -/

/-- A call of `bictcp_update` is made with the state of before, `bictcp_reset` of a round apart. -/
theorem updateOf_before (hupdate : updateOf kernel v = some u) : SameEpoch v.before u.ca := by
  unfold updateOf at hupdate
  split at hupdate
  next tp ack count now hcall =>
    obtain ⟨args, hargs, rfl⟩ := Option.map_eq_some_iff.mp hupdate
    exact roundState_growth _ _ _ _
  next => cases hupdate

theorem updateOf_run (hupdate : updateOf kernel v = some u)
    (hok : v.input.call.run kernel v.input.handoverStatus v.before = .ok ca') :
    bictcpUpdate kernel v.input.handoverStatus u.ca u.cwnd u.acked u.jiffies = .ok ca' ∧
      SameEpoch v.before u.ca := by
  refine ⟨?_, updateOf_before hupdate⟩
  unfold updateOf at hupdate
  split at hupdate
  next tp ack count now hcall =>
    obtain ⟨args, hargs, rfl⟩ := Option.map_eq_some_iff.mp hupdate
    rw [hcall, ModuleCall.run, Callback.run] at hok
    cases hcong : bictcpCongAvoid kernel v.input.handoverStatus tp v.before ack count now with
    | error e =>
        rw [hcong] at hok
        cases hok
    | ok result =>
        rw [hcong] at hok
        obtain rfl := Except.ok.inj hok
        rcases congAvoid_update hcong with ⟨hnone, -⟩ | ⟨cwnd, acked, hsome, hrun⟩
        · rw [hargs] at hnone
          cases hnone
        · obtain rfl := Option.some.inj (hargs.symm.trans hsome)
          exact hrun
  next => cases hupdate

/-- A call of the kernel that the connection sends again. -/
def ModuleCall.Resumes (c : ModuleCall ρ) (tp : TcpSock ρ) (now : Clocks) : Prop :=
  c = .callback (.cwndEvent tp .txStart now)

/-- Every other call leaves the epoch, if it does not end it. -/
theorem no_update_epoch (hupdate : updateOf kernel v = none)
    (hok : v.input.call.run kernel v.input.handoverStatus v.before = .ok ca')
    (hlasts : ca'.epochStart ≠ 0) : SameEpoch v.before ca' ∨
      ∃ tp now, v.input.call.Resumes tp now ∧ ca' = bictcpCwndEvent tp v.before .txStart now := by
  unfold updateOf at hupdate
  cases hcall : v.input.call with
  | init tp now =>
      rw [hcall] at hok
      obtain rfl := Except.ok.inj hok
      exact absurd rfl hlasts
  | callback cb =>
      rw [hcall] at hok hupdate
      cases cb with
      | recalcSsthresh tp =>
          obtain rfl := Except.ok.inj hok
          exact absurd rfl hlasts
      | state tp newState now =>
          obtain rfl := Except.ok.inj hok
          by_cases hresets : newState = tcpCALoss ∧ v.input.handoverStatus = false
          · rw [bictcpState, if_pos hresets.1,
              if_pos (by rw [hresets.2]; exact Bool.false_ne_true)] at hlasts
            exact absurd rfl hlasts
          · rw [bictcpState_of_not_resets hresets]
            exact Or.inl ⟨⟨rfl, rfl, rfl, rfl, rfl⟩, rfl⟩
      | congAvoid tp ack count now =>
          rw [ModuleCall.run, Callback.run] at hok
          cases hcong : bictcpCongAvoid kernel v.input.handoverStatus tp v.before ack count now with
          | error e =>
              rw [hcong] at hok
              cases hok
          | ok result =>
              rw [hcong] at hok
              obtain rfl := Except.ok.inj hok
              rcases congAvoid_update hcong with ⟨-, hleaves⟩ | ⟨cwnd, acked, hsome, -⟩
              · rw [hleaves]
                exact Or.inl (roundState_growth _ _ _ _)
              · simp only [hsome, Option.map_some] at hupdate
                cases hupdate
      | acked tp rttUs now =>
          obtain rfl := Except.ok.inj hok
          exact Or.inl (bictcpAcked_growth _ _ _ _)
      | cwndEvent tp event now =>
          obtain rfl := Except.ok.inj hok
          cases event with
          | other => exact Or.inl ⟨⟨rfl, rfl, rfl, rfl, rfl⟩, rfl⟩
          | txStart => exact Or.inr ⟨tp, now, rfl, rfl⟩

/-- In any case what `bictcp_update` works with is left. -/
theorem no_update_growth (hupdate : updateOf kernel v = none)
    (hok : v.input.call.run kernel v.input.handoverStatus v.before = .ok ca')
    (hlasts : ca'.epochStart ≠ 0) : SameGrowth v.before ca' := by
  rcases no_update_epoch hupdate hok hlasts with hsame | ⟨tp, now, -, rfl⟩
  · exact hsame.toSameGrowth
  · exact bictcpCwndEvent_growth tp v.before .txStart now

/-- The call that begins an epoch leaves it. -/
theorem goesBack_begun (hupdate : updateOf kernel v = some u)
    (hcubic : ComputesCubic kernel u.ca u.cwnd u.jiffies)
    (hbegun : GoesBack lastMaxCwnd K (u.begun v.input.handoverStatus))
    (hok : v.input.call.run kernel v.input.handoverStatus v.before = .ok ca') :
    GoesBack lastMaxCwnd K ca' := by
  obtain ⟨hrun, -⟩ := updateOf_run hupdate hok
  rw [bictcpUpdate, hcubic.1, hcubic.2] at hrun
  obtain ⟨-, hK, horigin⟩ := tcpFriendlinessPart_epoch hrun
  exact ⟨horigin.trans hbegun.origin, (congrArg UInt32.toNat hK).trans hbegun.bicK⟩

/-- Nor does a call change it in the epoch. -/
theorem goesBack_call (h : GoesBack lastMaxCwnd K v.before) (hbefore : v.before.epochStart ≠ 0)
    (hok : v.input.call.run kernel v.input.handoverStatus v.before = .ok ca')
    (hlasts : ca'.epochStart ≠ 0) : GoesBack lastMaxCwnd K ca' := by
  cases hupdate : updateOf kernel v with
  | none => exact h.same (no_update_growth hupdate hok hlasts)
  | some u =>
      obtain ⟨hrun, hsame⟩ := updateOf_run hupdate hok
      obtain ⟨-, hK, horigin⟩ := bictcpUpdate_epoch (hsame.epochStart ▸ hbefore) hrun
      have hback := h.same hsame.toSameGrowth
      exact ⟨horigin.trans hback.origin, (congrArg UInt32.toNat hK).trans hback.bicK⟩

end Epochs

section Run

variable {kernel : Kernel ρ} {ca ca' : Bictcp} {calls : List (TimedCall ρ)} {v w : ModuleVisit ρ}
  {u u' : UpdateCall} {lastMaxCwnd : UInt32} {i j K : Nat}

/-- **The cubic function stays** as long as its epoch does. -/
theorem goesBack_run (hij : i < j) (hv : (moduleRun kernel ca calls)[i]? = some v)
    (hfirst : ∀ ca', v.done.result = .ok ca' → GoesBack lastMaxCwnd K ca')
    (hw : (moduleRun kernel ca calls)[j]? = some w)
    (hlasts : ∀ r x, i < r → r ≤ j → (moduleRun kernel ca calls)[r]? = some x →
      x.before.epochStart ≠ 0) : GoesBack lastMaxCwnd K w.before := by
  obtain ⟨m, rfl⟩ := Nat.exists_eq_add_of_lt hij
  induction m generalizing w with
  | zero =>
      obtain ⟨v', hv', hok⟩ := Logged.visits_succ hw
      obtain rfl := Option.some.inj (hv.symm.trans hv')
      exact hfirst _ hok
  | succ m ih =>
      obtain ⟨x, hx, hok⟩ := Logged.visits_succ hw
      have hbefore := ih (by omega) hx fun r y h₁ h₂ hy => hlasts r y h₁ (by omega) hy
      exact goesBack_call hbefore (hlasts _ x (by omega) (by omega) hx) (moduleRun_ok hx hok)
        (hlasts _ w (by omega) le_rfl hw)

/-- It is the one that each call of the epoch computes with. -/
theorem goesBack_computes (hij : i ≤ j) (hv : (moduleRun kernel ca calls)[i]? = some v)
    (hbegins : updateOf kernel v = some u) (hcubic : ComputesCubic kernel u.ca u.cwnd u.jiffies)
    (hbegun : GoesBack lastMaxCwnd K (u.begun v.input.handoverStatus))
    (hw : (moduleRun kernel ca calls)[j]? = some w)
    (hlasts : ∀ r x, i < r → r ≤ j → (moduleRun kernel ca calls)[r]? = some x →
      x.before.epochStart ≠ 0)
    (hupdate : updateOf kernel w = some u')
    (hok : w.input.call.run kernel w.input.handoverStatus w.before = .ok ca') :
    GoesBack lastMaxCwnd K (u'.begun w.input.handoverStatus) := by
  rcases Nat.lt_or_eq_of_le hij with hlt | rfl
  · -- the epoch goes on
    obtain ⟨-, hsame⟩ := updateOf_run hupdate hok
    have hbefore := (goesBack_run hlt hv
      (fun _ hfirst => goesBack_begun hbegins hcubic hbegun (moduleRun_ok hv hfirst)) hw
      hlasts).same hsame.toSameGrowth
    rw [UpdateCall.begun, beforeCubic, if_neg (hsame.epochStart ▸ hlasts j w hlt le_rfl hw)]
    exact ⟨hbefore.origin, hbefore.bicK⟩
  · obtain rfl := Option.some.inj (hv.symm.trans hw)
    obtain rfl := Option.some.inj (hbegins.symm.trans hupdate)
    exact hbegun

end Run

end LeoEM
