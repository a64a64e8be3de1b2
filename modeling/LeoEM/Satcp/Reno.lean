/-
# `Satcp.Reno` — the window of Reno beside an epoch

Behind the label `tcp_friendliness` an epoch is compared with a Reno that began at the same
window: `ack_cnt` takes the ACKs, and for each 15/8 of a window of them `tcp_cwnd` goes up by
one.  The ACKs are counted by every call, also by one that computes nothing; they are taken
at the window of the call that does.  So `tcp_cwnd` is not the window of one Reno but lies
between two, of the least and of the greatest window of the epoch (`Counts`).

The point of it is a bound on `cnt`: where the window has stayed behind Reno's, the call lets
it come there within the ACKs of one window (`reno_run`).
-/
import LeoEM.Satcp.Growth

namespace LeoEM

variable {ρ : Type}

/-- The ACKs that Reno grows by one packet for, at a window: `(cwnd * beta_scale) >> 3`. -/
def renoAcks (cwnd : Nat) : Nat := cwnd * 15 / 8

/-- The window of a Reno that began at `start`, behind so many ACKs at the window `cwnd`. -/
def renoWindow (start acks cwnd : Nat) : Nat := start + acks / renoAcks cwnd

theorem renoAcks_mono {lo hi : Nat} (h : lo ≤ hi) : renoAcks lo ≤ renoAcks hi :=
  Nat.div_le_div_right (Nat.mul_le_mul_right 15 h)

theorem renoAcks_pos {cwnd : Nat} (h : 1 ≤ cwnd) : 1 ≤ renoAcks cwnd := by
  rw [renoAcks]
  omega

/-- `ack_cnt` and `tcp_cwnd` of an epoch that began at the window `start` and has counted `acks`, at
windows from `lo` to `hi`. -/
structure Counts (lo hi start acks : Nat) (ca : Bictcp) : Prop where
  began : start ≤ ca.tcpCwnd.toNat
  slowest : renoAcks lo * (ca.tcpCwnd.toNat - start) + ca.ackCnt.toNat ≤ acks
  fastest : acks ≤ renoAcks hi * (ca.tcpCwnd.toNat - start) + ca.ackCnt.toNat

/-- What a call leaves that has come through `tcp_friendliness`. -/
structure Friendly (cwnd : Nat) (ca : Bictcp) : Prop where
  counted : ca.ackCnt.toNat ≤ renoAcks cwnd
  cnt : cwnd < ca.tcpCwnd.toNat → ca.cnt.toNat ≤ max (cwnd / (ca.tcpCwnd.toNat - cwnd)) 2

section Calls

variable {kernel : Kernel ρ} {handoverStatus : Bool} {lo hi start acks : Nat} {ca ca' : Bictcp}
  {cwnd acked jiffies : UInt32}

theorem Counts.same (h : Counts lo hi start acks ca) (hsame : SameGrowth ca ca') :
    Counts lo hi start acks ca' := by
  obtain ⟨hbegan, hslow, hfast⟩ := h
  rw [← hsame.tcpCwnd] at hbegan hslow hfast
  rw [← hsame.ackCnt] at hslow hfast
  exact ⟨hbegan, hslow, hfast⟩

/-- No packet is counted without an ACK. -/
theorem Counts.size (h : Counts lo hi start acks ca) (hlo : 1 ≤ lo) :
    ca.tcpCwnd.toNat + ca.ackCnt.toNat ≤ start + acks := by
  have hgrown : ca.tcpCwnd.toNat - start ≤ renoAcks lo * (ca.tcpCwnd.toNat - start) :=
    Nat.le_mul_of_pos_left _ (renoAcks_pos hlo)
  have := h.began
  have := h.slowest
  omega

/-- More ACKs, and no more packets. -/
theorem Counts.more (h : Counts lo hi start acks ca) (hlo : 1 ≤ lo)
    (hsize : start + (acks + acked.toNat) < 2 ^ 32) (htcp : ca'.tcpCwnd = ca.tcpCwnd)
    (hack : ca'.ackCnt = ca.ackCnt + acked) : Counts lo hi start (acks + acked.toNat) ca' := by
  have hbound := h.size hlo
  have hcount : ca'.ackCnt.toNat = ca.ackCnt.toNat + acked.toNat := by
    rw [hack, UInt32.toNat_add]
    exact Nat.mod_eq_of_lt (by omega)
  have hslow := h.slowest
  have hfast := h.fastest
  refine ⟨htcp ▸ h.began, ?_, ?_⟩
  · rw [htcp, hcount]
    omega
  · rw [htcp, hcount]
    omega

theorem friendlyDelta_toNat (h : cwnd.toNat * 15 < 2 ^ 32) :
    ((cwnd * betaScale) >>> 3).toNat = renoAcks cwnd.toNat := by
  rw [UInt32.toNat_shiftRight, UInt32.toNat_mul, show betaScale.toNat = 15 from rfl,
    Nat.mod_eq_of_lt h, Nat.shiftRight_eq_div_pow, show (3 : UInt32).toNat % 32 = 3 from rfl]
  rfl

/-- **The loop** turns `delta` ACKs into a packet, as often as there are more than `delta`. -/
theorem countTcpCwnd_spec {delta : UInt32} (hdelta : 1 ≤ delta.toNat) :
    ∀ {fuel : Nat} {ackCnt tcpCwnd : UInt32} {counts : UInt32 × UInt32},
      countTcpCwnd delta fuel ackCnt tcpCwnd = .ok counts →
      tcpCwnd.toNat + ackCnt.toNat < 2 ^ 32 →
      ∃ rounds, counts.2.toNat = tcpCwnd.toNat + rounds ∧
        ackCnt.toNat = delta.toNat * rounds + counts.1.toNat ∧ counts.1.toNat ≤ delta.toNat := by
  have hdone : ∀ {ackCnt tcpCwnd : UInt32}, ¬ ackCnt > delta → ∃ rounds,
      tcpCwnd.toNat = tcpCwnd.toNat + rounds ∧
        ackCnt.toNat = delta.toNat * rounds + ackCnt.toNat ∧ ackCnt.toNat ≤ delta.toNat := by
    intro ackCnt tcpCwnd hle
    exact ⟨0, rfl, by rw [Nat.mul_zero, Nat.zero_add],
      Nat.le_of_not_lt (mt UInt32.lt_iff_toNat_lt.mpr hle)⟩
  intro fuel
  induction fuel with
  | zero =>
      intro ackCnt tcpCwnd counts h hsize
      rw [countTcpCwnd] at h
      split at h
      next => cases h
      next hle =>
        obtain rfl := Except.ok.inj h
        exact hdone hle
  | succ fuel ih =>
      intro ackCnt tcpCwnd counts h hsize
      rw [countTcpCwnd] at h
      split at h
      next hgt =>
        have hlt := UInt32.lt_iff_toNat_lt.mp hgt
        have hack : (ackCnt - delta).toNat = ackCnt.toNat - delta.toNat :=
          UInt32.toNat_sub_of_le _ _ (UInt32.le_of_lt hgt)
        have htcp : (tcpCwnd + 1).toNat = tcpCwnd.toNat + 1 := by
          rw [UInt32.toNat_add, show (1 : UInt32).toNat = 1 from rfl]
          exact Nat.mod_eq_of_lt (by omega)
        obtain ⟨rounds, hwindow, hacks, hleft⟩ := ih h (by omega)
        refine ⟨rounds + 1, by omega, ?_, hleft⟩
        rw [Nat.mul_add, Nat.mul_one]
        omega
      next hle =>
        obtain rfl := Except.ok.inj h
        exact hdone hle

/-- **The comparison** keeps the count, and bounds `cnt`. -/
theorem friendliness_spec (h : Counts lo hi start acks ca) (hlo : 1 ≤ lo) (hhi : hi * 15 < 2 ^ 32)
    (hwindow : lo ≤ cwnd.toNat ∧ cwnd.toNat ≤ hi) (hsize : start + acks < 2 ^ 32)
    (hok : tcpFriendlinessPart ca cwnd = .ok ca') :
    Counts lo hi start acks ca' ∧ Friendly cwnd.toNat ca' := by
  have hdelta := @friendlyDelta_toNat cwnd (by omega)
  rw [tcpFriendlinessPart_eq] at hok
  cases hcount : countTcpCwnd ((cwnd * betaScale) >>> 3) ca.ackCnt.toNat ca.ackCnt ca.tcpCwnd with
  | error e =>
      rw [hcount] at hok
      cases hok
  | ok counts =>
      rw [hcount] at hok
      obtain rfl := Except.ok.inj hok
      have hbound := h.size hlo
      obtain ⟨rounds, htcp, hack, hleft⟩ := countTcpCwnd_spec
        (by rw [hdelta]; exact renoAcks_pos (hlo.trans hwindow.1)) hcount (by omega)
      rw [hdelta] at hack hleft
      refine ⟨⟨?_, ?_, ?_⟩, hleft, fun hbehind => ?_⟩
      · have := h.began
        dsimp only
        omega
      · have hstep := Nat.mul_le_mul_right rounds (renoAcks_mono hwindow.1)
        have hslow := h.slowest
        have hbegan := h.began
        dsimp only
        rw [htcp, Nat.sub_add_comm hbegan, Nat.mul_add]
        omega
      · have hstep := Nat.mul_le_mul_right rounds (renoAcks_mono hwindow.2)
        have hfast := h.fastest
        have hbegan := h.began
        dsimp only
        rw [htcp, Nat.sub_add_comm hbegan, Nat.mul_add]
        omega
      · dsimp only at hbehind ⊢
        have hlt : cwnd < counts.2 := UInt32.lt_iff_toNat_lt.mpr hbehind
        have hdiv : (cwnd / (counts.2 - cwnd)).toNat =
            cwnd.toNat / (counts.2.toNat - cwnd.toNat) := by
          rw [UInt32.toNat_div, UInt32.toNat_sub_of_le _ _ (UInt32.le_of_lt hlt)]
        rw [friendlyCnt, toNat_max, ← hdiv]
        refine max_le_max ?_ (le_refl 2)
        split
        next => exact le_refl _
        next hno => exact Nat.le_of_not_lt fun hgt => hno ⟨hlt, UInt32.lt_iff_toNat_lt.mpr hgt⟩

/-- A call in the epoch counts its ACKs. -/
theorem counts_update (h : Counts lo hi start acks ca) (he : ca.epochStart ≠ 0) (hlo : 1 ≤ lo)
    (hhi : hi * 15 < 2 ^ 32) (hwindow : lo ≤ cwnd.toNat ∧ cwnd.toNat ≤ hi)
    (hsize : start + (acks + acked.toNat) < 2 ^ 32)
    (hok : bictcpUpdate kernel handoverStatus ca cwnd acked jiffies = .ok ca') :
    Counts lo hi start (acks + acked.toNat) ca' ∧
      (updatesTooSoon kernel ca cwnd jiffies = false → Friendly cwnd.toNat ca') := by
  have hcompared : ∀ counted : Bictcp, tcpFriendlinessPart counted cwnd = .ok ca' →
      counted.tcpCwnd = ca.tcpCwnd → counted.ackCnt = ca.ackCnt + acked →
      Counts lo hi start (acks + acked.toNat) ca' ∧ Friendly cwnd.toNat ca' :=
    fun _ hok htcp hack => friendliness_spec (h.more hlo hsize htcp hack) hlo hhi hwindow hsize hok
  unfold bictcpUpdate at hok
  split at hok
  next hsoon =>
    obtain rfl := Except.ok.inj hok
    refine ⟨h.more hlo hsize rfl rfl, fun hno => ?_⟩
    rw [hno] at hsoon
    cases hsoon
  next =>
    split at hok
    next =>
      obtain ⟨hcounts, hfriendly⟩ := hcompared _ hok rfl rfl
      exact ⟨hcounts, fun _ => hfriendly⟩
    next =>
      rw [beforeCubic, if_neg he] at hok
      obtain ⟨hcounts, hfriendly⟩ := hcompared _ hok rfl rfl
      exact ⟨hcounts, fun _ => hfriendly⟩

/-- The call that begins the epoch counts the first. -/
theorem counts_begin (he : ca.epochStart = 0)
    (hsoon : updatesTooSoon kernel ca cwnd jiffies = false) (hlo : 1 ≤ lo) (hhi : hi * 15 < 2 ^ 32)
    (hwindow : lo ≤ cwnd.toNat ∧ cwnd.toNat ≤ hi) (hsize : cwnd.toNat + acked.toNat < 2 ^ 32)
    (hok : bictcpUpdate kernel handoverStatus ca cwnd acked jiffies = .ok ca') :
    Counts lo hi cwnd.toNat acked.toNat ca' ∧ Friendly cwnd.toNat ca' := by
  have hbegun : ∀ counted : Bictcp, counted.tcpCwnd = cwnd → counted.ackCnt = acked →
      Counts lo hi cwnd.toNat acked.toNat counted := by
    rintro counted htcp hack
    refine ⟨htcp ▸ le_refl _, ?_, ?_⟩ <;>
      rw [htcp, hack, Nat.sub_self, Nat.mul_zero, Nat.zero_add]
  have hfirst : ∀ counted : Bictcp,
      (beginEpoch handoverStatus counted cwnd acked jiffies).tcpCwnd = cwnd ∧
        (beginEpoch handoverStatus counted cwnd acked jiffies).ackCnt = acked := by
    intro counted
    rw [beginEpoch]
    split <;> exact ⟨rfl, rfl⟩
  have hcomputed : computedThisJiffy ca jiffies = false := by
    simp only [computedThisJiffy, he, ne_eq, not_true_eq_false, false_and, decide_false]
  rw [bictcpUpdate, hsoon, hcomputed, beforeCubic, if_pos he] at hok
  refine friendliness_spec (hbegun _ ?_ ?_) hlo hhi hwindow hsize hok
  · exact (hfirst _).1
  · exact (hfirst _).2

end Calls

/-! ## Runs -/

/-- The ACKs that a call adds to `ack_cnt`. -/
def ackedOf (kernel : Kernel ρ) (v : ModuleVisit ρ) : Nat :=
  ((updateOf kernel v).map fun u => u.acked.toNat).getD 0

/-- The ACKs that the calls of a run count, from call `i` up to call `j`. -/
def acksUpTo (kernel : Kernel ρ) (run : List (ModuleVisit ρ)) (i j : Nat) : Nat :=
  (((run.take j).drop i).map (ackedOf kernel)).sum

/-- Call `i` begins an epoch, which lasts up to call `j`, at windows from `lo` to `hi`. -/
structure EpochFrom (kernel : Kernel ρ) (run : List (ModuleVisit ρ)) (i j : Nat) (u : UpdateCall)
    (lo hi : Nat) : Prop where
  update : ∃ v, run[i]? = some v ∧ updateOf kernel v = some u
  begins : u.ca.epochStart = 0 ∧ updatesTooSoon kernel u.ca u.cwnd u.jiffies = false
  lasts : ∀ r x, i < r → r ≤ j → run[r]? = some x → x.before.epochStart ≠ 0
  windows : ∀ r x u', i ≤ r → r ≤ j → run[r]? = some x → updateOf kernel x = some u' →
    lo ≤ u'.cwnd.toNat ∧ u'.cwnd.toNat ≤ hi

section Run

variable {kernel : Kernel ρ} {run : List (ModuleVisit ρ)} {i j lo hi : Nat} {v : ModuleVisit ρ}
  {u u' : UpdateCall}

theorem acksUpTo_self : acksUpTo kernel run i i = 0 := by
  rw [acksUpTo, List.drop_take_self]
  rfl

theorem acksUpTo_succ (hij : i ≤ j) (hv : run[j]? = some v) :
    acksUpTo kernel run i (j + 1) = acksUpTo kernel run i j + ackedOf kernel v := by
  obtain ⟨hlt, -⟩ := List.getElem?_eq_some_iff.mp hv
  have hle : i ≤ (run.take j).length := by
    rw [List.length_take]
    omega
  rw [acksUpTo, acksUpTo, List.take_add_one, hv, List.drop_append_of_le_length hle,
    List.map_append, List.sum_append]
  rfl

theorem ackedOf_update (hupdate : updateOf kernel v = some u) :
    ackedOf kernel v = u.acked.toNat := by
  rw [ackedOf, hupdate]
  rfl

theorem EpochFrom.earlier {k : Nat} (h : EpochFrom kernel run i j u lo hi) (hkj : k ≤ j) :
    EpochFrom kernel run i k u lo hi :=
  ⟨h.update, h.begins, fun r x h₁ h₂ => h.lasts r x h₁ (h₂.trans hkj),
    fun r x u' h₁ h₂ => h.windows r x u' h₁ (h₂.trans hkj)⟩

end Run

section Epoch

variable {kernel : Kernel ρ} {ca ca' : Bictcp} {calls : List (TimedCall ρ)} {i j lo hi : Nat}
  {w : ModuleVisit ρ} {u u' : UpdateCall}

/-- Any call of the epoch counts its ACKs. -/
theorem counts_call {start acks : Nat} (h : Counts lo hi start acks w.before)
    (he : w.before.epochStart ≠ 0) (hlo : 1 ≤ lo) (hhi : hi * 15 < 2 ^ 32)
    (hwindows : ∀ u', updateOf kernel w = some u' → lo ≤ u'.cwnd.toNat ∧ u'.cwnd.toNat ≤ hi)
    (hsize : start + (acks + ackedOf kernel w) < 2 ^ 32)
    (hok : w.input.call.run kernel w.input.handoverStatus w.before = .ok ca')
    (hlasts : ca'.epochStart ≠ 0) : Counts lo hi start (acks + ackedOf kernel w) ca' := by
  cases hupdate : updateOf kernel w with
  | none =>
      have hnone : ackedOf kernel w = 0 := by
        rw [ackedOf, hupdate]
        rfl
      rw [hnone, Nat.add_zero]
      exact h.same (no_update_growth hupdate hok hlasts)
  | some u' =>
      obtain ⟨hrun, hsame⟩ := updateOf_run hupdate hok
      rw [ackedOf_update hupdate] at hsize ⊢
      have hcounts := counts_update (h.same hsame.toSameGrowth) (hsame.epochStart ▸ he) hlo hhi
        (hwindows u' hupdate) hsize hrun
      exact hcounts.1

/-- **The epoch keeps the count**, call by call. -/
theorem counts_run (hij : i < j) (h : EpochFrom kernel (moduleRun kernel ca calls) i j u lo hi)
    (hlo : 1 ≤ lo) (hhi : hi * 15 < 2 ^ 32)
    (hsize : u.cwnd.toNat + acksUpTo kernel (moduleRun kernel ca calls) i j < 2 ^ 32)
    (hw : (moduleRun kernel ca calls)[j]? = some w) :
    Counts lo hi u.cwnd.toNat (acksUpTo kernel (moduleRun kernel ca calls) i j) w.before := by
  obtain ⟨m, rfl⟩ := Nat.exists_eq_add_of_lt hij
  induction m generalizing w with
  | zero =>
      obtain ⟨v, hv, hupdate⟩ := h.update
      obtain ⟨v', hv', hok⟩ := Logged.visits_succ hw
      obtain rfl := Option.some.inj (hv.symm.trans hv')
      rw [Nat.add_zero, acksUpTo_succ (le_refl i) hv, acksUpTo_self, ackedOf_update hupdate,
        Nat.zero_add] at hsize ⊢
      obtain ⟨hrun, -⟩ := updateOf_run hupdate (moduleRun_ok hv hok)
      exact (counts_begin h.begins.1 h.begins.2 hlo hhi
        (h.windows i v u (le_refl i) (by omega) hv hupdate) hsize hrun).1
  | succ m ih =>
      obtain ⟨x, hx, hok⟩ := Logged.visits_succ hw
      have hacks : acksUpTo kernel (moduleRun kernel ca calls) i (i + (m + 1) + 1) =
          acksUpTo kernel (moduleRun kernel ca calls) i (i + m + 1) + ackedOf kernel x :=
        acksUpTo_succ (by omega) hx
      rw [hacks] at hsize ⊢
      have hbefore := ih (by omega) (h.earlier (by omega)) (by omega) hx
      exact counts_call hbefore (h.lasts _ x (by omega) (by omega) hx) hlo hhi
        (fun u' => h.windows _ x u' (by omega) (by omega) hx) hsize (moduleRun_ok hx hok)
        (h.lasts _ w (by omega) (le_refl _) hw)

/-- The window of the epoch's Reno, between that of the greatest and that of the least window. -/
theorem Counts.window {start acks : Nat} (h : Counts lo hi start acks ca) (hlo : 1 ≤ lo)
    {cwnd : Nat} (hcwnd : cwnd ≤ hi) (hcounted : ca.ackCnt.toNat ≤ renoAcks cwnd) :
    renoWindow start acks hi ≤ ca.tcpCwnd.toNat + 1 ∧
      ca.tcpCwnd.toNat ≤ renoWindow start acks lo := by
  obtain ⟨hbegan, hslow, hfast⟩ := h
  have hleft := hcounted.trans (renoAcks_mono hcwnd)
  have hupper : ca.tcpCwnd.toNat - start ≤ acks / renoAcks lo := by
    rw [Nat.le_div_iff_mul_le (renoAcks_pos hlo), Nat.mul_comm]
    omega
  have hlower : acks / renoAcks hi ≤ ca.tcpCwnd.toNat - start + 1 := by
    refine Nat.div_le_of_le_mul ?_
    rw [Nat.mul_add, Nat.mul_one]
    omega
  rw [renoWindow, renoWindow]
  omega

/-- **No slower than Reno.**  Over every run of callbacks: let call `i` begin an epoch, which lasts,
at windows from `lo` to `hi`.  A call of it that computes, and so compares, leaves in `tcp_cwnd`
the window of a Reno that began with the epoch and took all the ACKs since, at `hi` or faster
and at `lo` or slower; and if the window is behind the first of these, a `cnt` that lets it
grow there by the ACKs of one window, or by one packet in two ACKs. -/
theorem reno_run (kernel : Kernel ρ) (ca : Bictcp) (calls : List (TimedCall ρ)) (i j lo hi : Nat)
    (w : ModuleVisit ρ) (u u' : UpdateCall) (ca' : Bictcp) (hij : i ≤ j)
    (hepoch : EpochFrom kernel (moduleRun kernel ca calls) i j u lo hi) (hlo : 1 ≤ lo)
    (hhi : hi * 15 < 2 ^ 32)
    (hsize : u.cwnd.toNat + acksUpTo kernel (moduleRun kernel ca calls) i (j + 1) < 2 ^ 32)
    (hw : (moduleRun kernel ca calls)[j]? = some w) (hupdate : updateOf kernel w = some u')
    (hcomputes : updatesTooSoon kernel u'.ca u'.cwnd u'.jiffies = false)
    (hok : w.done.result = .ok ca') :
    renoWindow u.cwnd.toNat (acksUpTo kernel (moduleRun kernel ca calls) i (j + 1)) hi ≤
      ca'.tcpCwnd.toNat + 1 ∧
    ca'.tcpCwnd.toNat ≤
      renoWindow u.cwnd.toNat (acksUpTo kernel (moduleRun kernel ca calls) i (j + 1)) lo ∧
    ∀ reno, reno < renoWindow u.cwnd.toNat
        (acksUpTo kernel (moduleRun kernel ca calls) i (j + 1)) hi → u'.cwnd.toNat < reno →
      ca'.cnt.toNat ≤ max (u'.cwnd.toNat / (reno - u'.cwnd.toNat)) 2 := by
  have hwindow := hepoch.windows j w u' hij (le_refl j) hw hupdate
  obtain ⟨hrun, hsame⟩ := updateOf_run hupdate (moduleRun_ok hw hok)
  have hcounts : Counts lo hi u.cwnd.toNat
      (acksUpTo kernel (moduleRun kernel ca calls) i (j + 1)) ca' ∧
        Friendly u'.cwnd.toNat ca' := by
    rw [acksUpTo_succ hij hw, ackedOf_update hupdate] at hsize ⊢
    rcases Nat.lt_or_eq_of_le hij with hlt | rfl
    · have hlast := hepoch.lasts j w hlt (le_refl j) hw
      have hbefore := counts_run hlt hepoch hlo hhi (by omega) hw
      obtain ⟨hcounts, hfriendly⟩ :=
        counts_update (hbefore.same hsame.toSameGrowth) (hsame.epochStart ▸ hlast) hlo hhi hwindow
          hsize hrun
      exact ⟨hcounts, hfriendly hcomputes⟩
    · obtain ⟨v, hv, hbegins⟩ := hepoch.update
      obtain rfl := Option.some.inj (hw.symm.trans hv)
      obtain rfl := Option.some.inj (hbegins.symm.trans hupdate)
      rw [acksUpTo_self, Nat.zero_add] at hsize ⊢
      exact counts_begin hepoch.begins.1 hcomputes hlo hhi hwindow hsize hrun
  obtain ⟨hcounts, hfriendly⟩ := hcounts
  obtain ⟨hleast, hmost⟩ := hcounts.window hlo hwindow.2 hfriendly.counted
  refine ⟨hleast, hmost, fun reno hreno hbehind => ?_⟩
  have hdiv : u'.cwnd.toNat / (ca'.tcpCwnd.toNat - u'.cwnd.toNat) ≤
      u'.cwnd.toNat / (reno - u'.cwnd.toNat) := Nat.div_le_div_left (by omega) (by omega)
  exact (hfriendly.cnt (by omega)).trans (max_le_max hdiv (le_refl 2))

/-- A window that stays at 100 packets while 1400 are acknowledged. -/
def besideReno : List (TimedCall LinuxSock) :=
  [⟨.callback (.congAvoid (.withCwnd 100) 0 400 ⟨5000, 0⟩), false, 5000⟩,
    ⟨.callback (.congAvoid (.withCwnd 100) 0 1000 ⟨5100, 100⟩), false, 5100⟩]

theorem besideReno_epoch : EpochFrom Kernel.linux
    (moduleRun Kernel.linux (.withTarget 110) besideReno) 0 1 ⟨.withTarget 110, 100, 400, 5000⟩
    100 100 := by
  refine ⟨⟨_, rfl, rfl⟩, ⟨rfl, rfl⟩, fun r x h₀ h₁ hx => ?_, fun r x u' h₀ h₁ hx hu => ?_⟩
  · obtain rfl : r = 1 := Nat.le_antisymm h₁ h₀
    obtain rfl := Option.some.inj hx
    decide +kernel
  · have hcwnd : u'.cwnd = 100 := by
      rcases Nat.le_one_iff_eq_zero_or_eq_one.mp h₁ with rfl | rfl
      · obtain rfl := Option.some.inj hx
        obtain rfl := Option.some.inj hu
        rfl
      · obtain rfl := Option.some.inj hx
        obtain rfl := Option.some.inj hu
        rfl
    rw [hcwnd]
    decide

theorem reno_run_besideReno : ∃ (w : ModuleVisit LinuxSock) (ca' : Bictcp),
    (moduleRun Kernel.linux (.withTarget 110) besideReno)[1]? = some w ∧
      w.done.result = .ok ca' ∧ ca'.cnt.toNat ≤ 16 := by
  obtain ⟨-, -, hreno⟩ := reno_run Kernel.linux (.withTarget 110) besideReno 0 1 100 100 _
    ⟨.withTarget 110, 100, 400, 5000⟩ _ _ (Nat.zero_le 1) besideReno_epoch (by decide) (by decide)
    (by decide +kernel) rfl rfl rfl rfl
  exact ⟨_, _, rfl, rfl, hreno 106 (by decide +kernel) (by decide +kernel)⟩

end Epoch

end LeoEM
