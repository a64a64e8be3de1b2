/-
# `Satcp.Report` — a report on its way from the emulator to the connection

A report leaves the emulator as a datagram, reaches the relay or is lost, goes on to the
kernel module in a netlink message, which the module takes before `sendmsg` returns, and
there it changes what the callbacks of a connection do.  Here the parts run side by side:
datagrams may be lost, come twice and overtake each other, and the threads of the relay and
the callbacks of the kernel take turns in any order.

The emulator only ever reports that a handover is coming (`emitted_datagrams`), so relay and
module stay in step.  And from a report that is received on, for `satcpDuration`, the module
has the status set, unless an expiry check finds a `current_tv` from beyond that time: no
loss in it resets the connection (`report_protects`).  Over a whole run the status is set
exactly between a report and the check that finds the handover over (`report_status_iff`).
-/
import LeoEM.Base.Text
import LeoEM.Emulator.Oracle
import LeoEM.Emulator.Run
import LeoEM.Satcp.Payload
import LeoEM.Satcp.Target

namespace LeoEM

variable {K ρ : Type}

/-! ## The parts side by side -/

/-- The datagrams that a command of the emulator sends, when its time has come:
`str.encode(str(handover_status))`, digits, which are a byte each. -/
def Cmd.datagrams : Cmd K → List (List UInt8)
  | .reportHandoverStatus _ handoverStatus _ =>
      [(strInt handoverStatus).map fun c => UInt8.ofNat c.toNat]
  | .configLinkStatus .. | .simulateLinkBreaks _ | .simulateEndHandovers _
  | .setLinkProperties .. => []

/-- What can happen next; `now` is the time it happens at. -/
inductive ReportEvent (K ρ : Type) where
  /-- A thread of the emulator sends what a command has it send. -/
  | sends (c : Cmd K)
  | loses (i : Nat)
  | repeats (i : Nat)
  /-- The first thread of the relay receives datagram `i` of those on their way. -/
  | receives (i : Nat) (now : Timeval)
  /-- The second thread of the relay, as in `RelayIteration`. -/
  | checks (now currentTv : Timeval)
  /-- The kernel calls the module for the connection. -/
  | calls (now : Timeval) (c : Callback ρ)

/-- The datagrams on their way, the relay, the module's `handover_status`, and what the
module keeps for the connection. -/
structure ReportPath where
  onTheWay : List (List UInt8)
  memory : RelayMemory
  handoverStatus : Bool
  ca : Bictcp

/-- How an event ends early. -/
inductive ReportStop where
  /-- There is no such datagram, and `recvfrom` waits on. -/
  | waits
  | outOfBounds (e : OutOfBounds)
  | diverges (e : Diverges)

namespace ReportPath

/-- When the relay and the module are started, and a connection is as `ca`. -/
def start (now : Timeval) (ca : Bictcp) : ReportPath := ⟨[], RelayMemory.start now, false, ca⟩

/-- An iteration of the relay; the module takes what it sends. -/
def relays (s : ReportPath) (it : RelayIteration) : Except ReportStop ReportPath :=
  let done := s.memory.iteration it
  match done.result with
  | .ok memory =>
      .ok { s with
        memory := memory
        handoverStatus := done.log.foldl
          (fun _ payload => RelayMemory.nlReceiveHandoverStatus payload) s.handoverStatus }
  | .error e => .error (.outOfBounds e)

def step (kernel : Kernel ρ) (s : ReportPath) : ReportEvent K ρ → Except ReportStop ReportPath
  | .sends c => .ok { s with onTheWay := s.onTheWay ++ c.datagrams }
  | .loses i => .ok { s with onTheWay := s.onTheWay.eraseIdx i }
  | .repeats i => .ok { s with onTheWay := s.onTheWay ++ s.onTheWay[i]?.toList }
  | .receives i now =>
      match s.onTheWay[i]? with
      | none => .error .waits
      | some bytes =>
          { s with onTheWay := s.onTheWay.eraseIdx i }.relays
            (.startSignal now (.datagram bytes))
  | .checks now currentTv => s.relays (.overSignal now currentTv)
  | .calls _ c =>
      match c.run kernel s.handoverStatus s.ca with
      | .ok ca => .ok { s with ca := ca }
      | .error e => .error (.diverges e)

end ReportPath

abbrev ReportVisit (K ρ : Type) := Logged.Visit ReportPath (ReportEvent K ρ) Empty ReportStop

/-- The events one after the other, until one ends early. -/
def reportRun (kernel : Kernel ρ) (now : Timeval) (ca : Bictcp) (events : List (ReportEvent K ρ)) :
    List (ReportVisit K ρ) :=
  Logged.visits (fun s e => Logged.ofExcept (s.step kernel e)) (ReportPath.start now ca) events

/-! ## What the emulator reports -/

/-- Every report of a run says that a handover is coming. -/
theorem emitted_datagrams [Field K] [LinearOrder K] {N : Nat} {d : Nat → K}
    {cycles : List (Cycle K)} {us : List (CycleVisit K)}
    (hrun : updatePrecomputedLink N d cycles = .ok us) {c : Cmd K}
    (hc : c ∈ us.flatMap fun v => v.done.log) : ∀ bytes ∈ c.datagrams, bytes = [49] := by
  obtain ⟨v, hv, hcv⟩ := List.mem_flatMap.mp hc
  obtain ⟨k, hk⟩ := List.mem_iff_getElem?.mp hv
  obtain ⟨handovers, g, -, rfl⟩ := run_of_ok hrun
  rw [(visit_input hk).2.2] at hcv
  rcases mem_cycleBody hcv with h | ⟨up, rfl⟩ | ⟨plan, h | h⟩ | ⟨path, delays, h⟩
  · simp only [aheadReports, List.mem_append] at h
    rcases h with (h | h) | h <;> rw [mem_lookAheadReport h] <;>
      exact fun bytes hb => List.mem_singleton.mp hb
  · exact fun bytes hb => absurd hb List.not_mem_nil
  · simp only [delayedReport] at h
    split at h
    · rw [List.mem_singleton.mp h]
      exact fun bytes hb => List.mem_singleton.mp hb
    · exact absurd h List.not_mem_nil
  · simp only [interruptions, List.mem_cons, List.not_mem_nil, or_false] at h
    rcases h with rfl | rfl | rfl <;> exact fun bytes hb => absurd hb List.not_mem_nil
  · have hset := linkSetting_of_layPath h
    cases c with
    | reportHandoverStatus _ _ _ => exact absurd hset Bool.false_ne_true
    | configLinkStatus _ _ _ | simulateLinkBreaks _ | simulateEndHandovers _
    | setLinkProperties _ _ _ _ _ => exact fun bytes hb => absurd hb List.not_mem_nil

/-! ## One event -/

/-- Only reports that a handover is coming are on their way, and relay and module have the same
status. -/
structure InStep (s : ReportPath) : Prop where
  upcoming : ∀ bytes ∈ s.onTheWay, bytes = [49]
  status : s.handoverStatus = true ↔ s.memory.relay.currentHandoverStatus = 1

theorem nlReceive_of_cString {payload : CArray payloadSize} {c : UInt8} {rest : List UInt8}
    (h : payload.cString = some (c :: rest)) :
    RelayMemory.nlReceiveHandoverStatus payload = (c == 49) := by
  unfold CArray.cString at h
  split at h
  · have hbytes := Option.some.inj h
    cases hb : payload.bytes with
    | nil => rw [hb] at hbytes; cases hbytes
    | cons b bytes =>
        rw [hb, List.takeWhile_cons] at hbytes
        split at hbytes
        · obtain ⟨rfl, -⟩ := List.cons.inj hbytes
          rw [RelayMemory.nlReceiveHandoverStatus, hb]
          rfl
        · cases hbytes
  · cases h

namespace ReportPath

variable {kernel : Kernel ρ} {s s' : ReportPath}

/-- A report that is received sets the status on both sides. -/
theorem relays_report (s : ReportPath) (now : Timeval) : ∃ memory,
    s.relays (.startSignal now (.datagram [49])) =
      .ok { s with memory := memory, handoverStatus := true } ∧ memory.relay = ⟨now, 1⟩ := by
  obtain ⟨buffer, payload, hdone, hstring⟩ :=
    s.memory.start_forwards now (show [(49 : UInt8)].length < maxPayload by decide)
  refine ⟨⟨⟨now, 1⟩, buffer, payload⟩, ?_, rfl⟩
  have hone : RelayMemory.nlReceiveHandoverStatus payload = true := nlReceive_of_cString hstring
  simp only [relays, hdone, List.foldl_cons, List.foldl_nil, hone]

/-- A check that finds the handover over clears it on both sides. -/
theorem relays_expired {currentTv : Timeval} (h : s.memory.relay.Expires currentTv)
    (now : Timeval) : ∃ memory, s.relays (.overSignal now currentTv) =
      .ok { s with memory := memory, handoverStatus := false } ∧
      memory.relay.currentHandoverStatus = 0 := by
  obtain ⟨payload, hdone, hstring⟩ := RelayMemory.over_of_expires h now
  refine ⟨{ s.memory with
    relay := { s.memory.relay with currentHandoverStatus := 0 }, payload := payload }, ?_, rfl⟩
  have hzero : RelayMemory.nlReceiveHandoverStatus payload = false := nlReceive_of_cString hstring
  simp only [relays, hdone, List.foldl_cons, List.foldl_nil, hzero]

theorem relays_not_expired {currentTv : Timeval} (h : ¬ s.memory.relay.Expires currentTv)
    (now : Timeval) : s.relays (.overSignal now currentTv) = .ok s := by
  simp only [relays, RelayMemory.over_of_not_expires h, List.foldl_nil]

/-- **What an event does**, when only reports that a handover is coming are on their way. -/
theorem step_cases (h : InStep s) {e : ReportEvent K ρ} (hok : s.step kernel e = .ok s') :
    (∃ c, e = .sends c ∧ s' = { s with onTheWay := s.onTheWay ++ c.datagrams }) ∨
    (∃ i, e = .loses i ∧ s' = { s with onTheWay := s.onTheWay.eraseIdx i }) ∨
    (∃ i, e = .repeats i ∧ s' = { s with onTheWay := s.onTheWay ++ s.onTheWay[i]?.toList }) ∨
    (∃ i now memory, e = .receives i now ∧ memory.relay = ⟨now, 1⟩ ∧
      s' = { s with onTheWay := s.onTheWay.eraseIdx i, memory := memory, handoverStatus := true }) ∨
    (∃ now currentTv memory, e = .checks now currentTv ∧ s.memory.relay.Expires currentTv ∧
      memory.relay.currentHandoverStatus = 0 ∧
      s' = { s with memory := memory, handoverStatus := false }) ∨
    (∃ now currentTv, e = .checks now currentTv ∧ ¬ s.memory.relay.Expires currentTv ∧ s' = s) ∨
    ∃ now c ca, e = .calls now c ∧ c.run kernel s.handoverStatus s.ca = .ok ca ∧
      s' = { s with ca := ca } := by
  cases e with
  | sends c => exact Or.inl ⟨c, rfl, (Except.ok.inj hok).symm⟩
  | loses i => exact Or.inr (Or.inl ⟨i, rfl, (Except.ok.inj hok).symm⟩)
  | repeats i => exact Or.inr (Or.inr (Or.inl ⟨i, rfl, (Except.ok.inj hok).symm⟩))
  | receives i now =>
      rw [step] at hok
      cases hi : s.onTheWay[i]? with
      | none => rw [hi] at hok; cases hok
      | some bytes =>
          obtain rfl := h.upcoming bytes (List.mem_of_getElem? hi)
          obtain ⟨memory, hrelays, hmemory⟩ :=
            relays_report { s with onTheWay := s.onTheWay.eraseIdx i } now
          rw [hi] at hok
          exact Or.inr (Or.inr (Or.inr (Or.inl ⟨i, now, memory, rfl, hmemory,
            (Except.ok.inj (hrelays.symm.trans hok)).symm⟩)))
  | checks now currentTv =>
      by_cases he : s.memory.relay.Expires currentTv
      · obtain ⟨memory, hrelays, hmemory⟩ := relays_expired he now
        exact Or.inr (Or.inr (Or.inr (Or.inr (Or.inl ⟨now, currentTv, memory, rfl, he, hmemory,
          (Except.ok.inj (hrelays.symm.trans hok)).symm⟩))))
      · exact Or.inr (Or.inr (Or.inr (Or.inr (Or.inr (Or.inl ⟨now, currentTv, rfl, he,
          (Except.ok.inj ((relays_not_expired he now).symm.trans hok)).symm⟩)))))
  | calls now c =>
      rw [step] at hok
      cases hr : c.run kernel s.handoverStatus s.ca with
      | error e => rw [hr] at hok; cases hok
      | ok ca =>
          rw [hr] at hok
          exact Or.inr (Or.inr (Or.inr (Or.inr (Or.inr (Or.inr ⟨now, c, ca, rfl, hr,
            (Except.ok.inj hok).symm⟩)))))

/-- **Every event keeps relay and module in step.** -/
theorem inStep_step (h : InStep s) {e : ReportEvent K ρ}
    (hsent : ∀ c, e = .sends c → ∀ bytes ∈ c.datagrams, bytes = [49])
    (hok : s.step kernel e = .ok s') : InStep s' := by
  rcases step_cases h hok with ⟨c, rfl, rfl⟩ | ⟨i, rfl, rfl⟩ | ⟨i, rfl, rfl⟩ |
    ⟨i, now, memory, rfl, hmemory, rfl⟩ | ⟨now, currentTv, memory, rfl, -, hmemory, rfl⟩ |
    ⟨now, currentTv, rfl, -, rfl⟩ | ⟨now, c, ca, rfl, -, rfl⟩
  · refine ⟨fun bytes hb => ?_, h.status⟩
    rcases List.mem_append.mp hb with hb | hb
    · exact h.upcoming bytes hb
    · exact hsent c rfl bytes hb
  · exact ⟨fun bytes hb => h.upcoming bytes (List.mem_of_mem_eraseIdx hb), h.status⟩
  · refine ⟨fun bytes hb => ?_, h.status⟩
    rcases List.mem_append.mp hb with hb | hb
    · exact h.upcoming bytes hb
    · exact h.upcoming bytes (List.mem_of_getElem? (Option.mem_toList.mp hb))
  · refine ⟨fun bytes hb => h.upcoming bytes (List.mem_of_mem_eraseIdx hb), ?_⟩
    exact iff_of_true rfl (by rw [hmemory])
  · exact ⟨h.upcoming, iff_of_false Bool.false_ne_true (by rw [hmemory]; exact Int.zero_ne_one)⟩
  · exact h
  · exact ⟨h.upcoming, h.status⟩

/-- No access of the relay is out of bounds. -/
theorem inBounds_step (h : InStep s) (e : ReportEvent K ρ) (oob : OutOfBounds) :
    s.step kernel e ≠ .error (.outOfBounds oob) := by
  intro hstep
  cases e with
  | sends c => cases hstep
  | loses i => cases hstep
  | repeats i => cases hstep
  | receives i now =>
      rw [step] at hstep
      cases hi : s.onTheWay[i]? with
      | none => rw [hi] at hstep; cases hstep
      | some bytes =>
          obtain rfl := h.upcoming bytes (List.mem_of_getElem? hi)
          obtain ⟨memory, hrelays, -⟩ :=
            relays_report { s with onTheWay := s.onTheWay.eraseIdx i } now
          rw [hi] at hstep
          cases hrelays.symm.trans hstep
  | checks now currentTv =>
      by_cases he : s.memory.relay.Expires currentTv
      · obtain ⟨memory, hrelays, -⟩ := relays_expired he now
        cases hrelays.symm.trans hstep
      · cases (relays_not_expired he now).symm.trans hstep
  | calls now c =>
      rw [step] at hstep
      cases hr : c.run kernel s.handoverStatus s.ca with
      | error e => rw [hr] at hstep; cases hstep
      | ok ca => rw [hr] at hstep; cases hstep

end ReportPath

/-! ## The window of a report -/

/-- The status is set on both sides, by a report that was received at `t` or later. -/
structure Inhibits (t : Timeval) (s : ReportPath) : Prop where
  module : s.handoverStatus = true
  relay : s.memory.relay.currentHandoverStatus = 1
  since : t.seconds ≤ s.memory.relay.tv.seconds

namespace ReportEvent

/-- The time of an event of the relay or of the kernel. -/
def time : ReportEvent K ρ → Option Timeval
  | receives _ now => some now
  | checks now _ => some now
  | calls now _ => some now
  | sends _ | loses _ | repeats _ => none

/-- The event is a check that finds a `current_tv` from beyond the window. -/
def Stale (r : Relay) : ReportEvent K ρ → Prop
  | checks now currentTv => StaleClock r (.overSignal now currentTv)
  | sends _ | loses _ | repeats _ | receives _ _ | calls _ _ => False

/-- The event is one in the window of a report that was received at `t`. -/
def InWindow (t : Timeval) (r : Relay) (e : ReportEvent K ρ) : Prop :=
  ¬ e.Stale r ∧ ∀ now, e.time = some now →
    t.seconds ≤ now.seconds ∧ now.seconds < t.seconds + satcpDuration

/-- The event is no call at an unusual window, and none that truncates the target. -/
def KeepsTarget (ca : Bictcp) (e : ReportEvent K ρ) : Prop :=
  ∀ now c, e = calls now c → (1 ≤ c.tp.sndCwnd.toNat ∧ c.tp.sndCwnd.toNat < 1000000) ∧
    ¬ c.Truncates ca

end ReportEvent

section Window

variable {kernel : Kernel ρ} {s s' : ReportPath} {t now : Timeval} {e : ReportEvent K ρ}

/-- **One event in the window** of a report leaves the status set. -/
theorem inhibits_step (h : InStep s) (hin : Inhibits t s)
    (he : e.InWindow t s.memory.relay) (hok : s.step kernel e = .ok s') : Inhibits t s' := by
  rcases ReportPath.step_cases h hok with ⟨c, rfl, rfl⟩ | ⟨i, rfl, rfl⟩ | ⟨i, rfl, rfl⟩ |
    ⟨i, now, memory, rfl, hmemory, rfl⟩ | ⟨now, currentTv, memory, rfl, hexp, -, rfl⟩ |
    ⟨now, currentTv, rfl, -, rfl⟩ | ⟨now, c, ca, rfl, -, rfl⟩
  · exact ⟨hin.module, hin.relay, hin.since⟩
  · exact ⟨hin.module, hin.relay, hin.since⟩
  · exact ⟨hin.module, hin.relay, hin.since⟩
  · exact ⟨rfl, by rw [hmemory], by rw [hmemory]; exact (he.2 now rfl).1⟩
  · -- the check is made before the handover has expired, so its `current_tv` is wrong
    have hearly : now.seconds < s.memory.relay.satcpExpirationTime :=
      lt_of_lt_of_le (he.2 now rfl).2 (by
        rw [Relay.satcpExpirationTime]
        exact add_le_add_left hin.since satcpDuration)
    exact absurd ⟨hin.relay, hearly, hexp.2⟩ he.1
  · exact hin
  · exact ⟨hin.module, hin.relay, hin.since⟩

/-- While the status is set, a call keeps a target that it does not truncate. -/
theorem target_step (h : InStep s) (hin : Inhibits t s) (he : e.KeepsTarget s.ca)
    (hok : s.step kernel e = .ok s') (hca : 0 < s.ca.lastMaxCwnd) : 0 < s'.ca.lastMaxCwnd := by
  rcases ReportPath.step_cases h hok with ⟨c, rfl, rfl⟩ | ⟨i, rfl, rfl⟩ | ⟨i, rfl, rfl⟩ |
    ⟨i, now, memory, rfl, hmemory, rfl⟩ | ⟨now, currentTv, memory, rfl, hexp, -, rfl⟩ |
    ⟨now, currentTv, rfl, -, rfl⟩ | ⟨now, c, ca, rfl, hrun, rfl⟩
  · exact hca
  · exact hca
  · exact hca
  · exact hca
  · exact hca
  · exact hca
  · obtain ⟨⟨hpos, hlt⟩, htrunc⟩ := he now c rfl
    rw [hin.module] at hrun
    exact (callback_pos_iff hpos hlt hca hrun).mpr htrunc

end Window

/-! ## Runs -/

section Runs

variable {kernel : Kernel ρ} {start : Timeval} {ca : Bictcp} {events : List (ReportEvent K ρ)}
  {j k : Nat} {v w : ReportVisit K ρ}

theorem reportRun_input (hv : (reportRun kernel start ca events)[k]? = some v) :
    events[k]? = some v.input ∧ v.done.result = v.before.step kernel v.input := by
  obtain ⟨hinput, hdone⟩ := Logged.visits_input hv
  exact ⟨hinput, by rw [hdone, Logged.ofExcept_result]⟩

theorem inStep_run (hsent : ∀ c, .sends c ∈ events → ∀ bytes ∈ c.datagrams, bytes = [49])
    (hv : (reportRun kernel start ca events)[k]? = some v) : InStep v.before := by
  refine Logged.visits_inv (fun _ s => InStep s) ?_ ?_ hv
  · exact ⟨fun bytes hb => absurd hb List.not_mem_nil,
      iff_of_false Bool.false_ne_true Int.zero_ne_one⟩
  · intro k v s' hv hprev hok
    obtain ⟨hinput, hdone⟩ := reportRun_input hv
    refine ReportPath.inStep_step hprev (fun c hc => hsent c ?_) (hdone ▸ hok)
    exact hc ▸ List.mem_of_getElem? hinput

/-- **The window of a report**: the status is set in all of it, and a target is kept. -/
theorem inhibits_run (hsent : ∀ c, .sends c ∈ events → ∀ bytes ∈ c.datagrams, bytes = [49])
    {i : Nat} {t : Timeval} (hv : (reportRun kernel start ca events)[j]? = some v)
    (hreceives : v.input = .receives i t) :
    ∀ {m : Nat} {w : ReportVisit K ρ}, (reportRun kernel start ca events)[j + 1 + m]? = some w →
      (∀ l x, j < l → l < j + 1 + m → (reportRun kernel start ca events)[l]? = some x →
        x.input.InWindow t x.before.memory.relay) →
      Inhibits t w.before ∧
        ((∀ l x, j < l → l < j + 1 + m → (reportRun kernel start ca events)[l]? = some x →
          x.input.KeepsTarget x.before.ca) →
          0 < v.before.ca.lastMaxCwnd → 0 < w.before.ca.lastMaxCwnd) := by
  intro m
  induction m with
  | zero =>
      intro w hw _
      obtain ⟨u, hu, hok⟩ := Logged.visits_succ hw
      obtain rfl : u = v := Option.some.inj (hu.symm.trans hv)
      rw [(reportRun_input hv).2, hreceives] at hok
      rcases ReportPath.step_cases (inStep_run hsent hv) hok with ⟨c, heq, -⟩ | ⟨i', heq, -⟩ |
        ⟨i', heq, -⟩ | ⟨i', now, memory, heq, hmemory, hbefore⟩ | ⟨now, cur, memory, heq, -⟩ |
        ⟨now, cur, heq, -⟩ | ⟨now, c, ca, heq, -⟩ <;> cases heq
      rw [hbefore]
      exact ⟨⟨rfl, by rw [hmemory], by rw [hmemory]⟩, fun _ h => h⟩
  | succ m ih =>
      intro w hw hwindow
      obtain ⟨u, hu, hok⟩ := Logged.visits_succ hw
      rw [(reportRun_input hu).2] at hok
      obtain ⟨hin, htarget⟩ := ih hu fun l x h₁ h₂ => hwindow l x h₁ (Nat.lt_succ_of_lt h₂)
      have hstep := inStep_run hsent hu
      have hu' := hwindow (j + 1 + m) u (by omega) (by omega) hu
      refine ⟨inhibits_step hstep hin hu' hok, fun hkeeps hca => ?_⟩
      refine target_step hstep hin (hkeeps (j + 1 + m) u (by omega) (by omega) hu) hok ?_
      exact htarget (fun l x h₁ h₂ => hkeeps l x h₁ (Nat.lt_succ_of_lt h₂)) hca

/-- The clock never goes back from one event to a later one. -/
def ClockRuns (events : List (ReportEvent K ρ)) : Prop :=
  events.Pairwise fun a b => ∀ t ∈ a.time, ∀ now ∈ b.time, t.seconds ≤ now.seconds

theorem ClockRuns.le (h : ClockRuns events) {a b : ReportEvent K ρ} {t now : Timeval}
    (hjk : j < k) (ha : events[j]? = some a) (hb : events[k]? = some b) (ht : a.time = some t)
    (hnow : b.time = some now) : t.seconds ≤ now.seconds := by
  obtain ⟨hj, rfl⟩ := List.getElem?_eq_some_iff.mp ha
  obtain ⟨hk, rfl⟩ := List.getElem?_eq_some_iff.mp hb
  exact List.pairwise_iff_getElem.mp h j k hj hk hjk t ht now hnow

/-- **A report protects the connection.**  For every run of the emulator, and however its reports
are lost, repeated and overtaken and the threads and callbacks take turns: the relay stays in
bounds, and relay and module have the same status.  If a report is received at `t`, and no
expiry check behind it finds a `current_tv` from beyond its window, then every call of the module
before `t + satcpDuration` finds the status set, so that a loss resets nothing; and the target
that was known at `t` is known still, if no call since was made at an unusual window and none
has truncated it. -/
theorem report_protects [Field K] [LinearOrder K] {N : Nat} {d : Nat → K}
    {cycles : List (Cycle K)} {us : List (CycleVisit K)}
    (hrun : updatePrecomputedLink N d cycles = .ok us) (kernel : Kernel ρ) (start : Timeval)
    (ca : Bictcp) (events : List (ReportEvent K ρ))
    (hsent : ∀ c, .sends c ∈ events → c ∈ us.flatMap fun v => v.done.log)
    (hclock : ClockRuns events) :
    (∀ (k : Nat) (v : ReportVisit K ρ), (reportRun kernel start ca events)[k]? = some v →
      InStep v.before ∧ ∀ oob, v.done.result ≠ .error (.outOfBounds oob)) ∧
    ∀ (j k : Nat) (v w : ReportVisit K ρ) (i : Nat) (t now : Timeval) (c : Callback ρ),
      (reportRun kernel start ca events)[j]? = some v → v.input = .receives i t → j < k →
      (reportRun kernel start ca events)[k]? = some w → w.input = .calls now c →
      now.seconds < t.seconds + satcpDuration →
      (∀ l x, j < l → l < k → (reportRun kernel start ca events)[l]? = some x →
        ¬ x.input.Stale x.before.memory.relay) →
      w.before.handoverStatus = true ∧
      (∀ tp clocks, c = .state tp tcpCALoss clocks → w.done.result = .ok w.before) ∧
      ((∀ l x, j < l → l < k → (reportRun kernel start ca events)[l]? = some x →
        x.input.KeepsTarget x.before.ca) →
        0 < v.before.ca.lastMaxCwnd → 0 < w.before.ca.lastMaxCwnd) := by
  have hupcoming : ∀ c, .sends c ∈ events → ∀ bytes ∈ c.datagrams, bytes = [49] :=
    fun c hc => emitted_datagrams hrun (hsent c hc)
  refine ⟨fun k v hv => ?_, ?_⟩
  · have hin := inStep_run hupcoming hv
    rw [(reportRun_input hv).2]
    exact ⟨hin, fun oob => ReportPath.inBounds_step hin v.input oob⟩
  · intro j k v w i t now c hv hreceives hjk hw hcalls hearly hstale
    obtain ⟨m, rfl⟩ := Nat.exists_eq_add_of_le (Nat.succ_le_of_lt hjk)
    have htime : ∀ {l : Nat} {x : ReportVisit K ρ} {now : Timeval}, j < l →
        (reportRun kernel start ca events)[l]? = some x → x.input.time = some now →
        t.seconds ≤ now.seconds := fun hl hx hnow =>
      hclock.le hl (reportRun_input hv).1 (reportRun_input hx).1 (by rw [hreceives]; rfl) hnow
    have hwindow : ∀ l x, j < l → l < j + 1 + m →
        (reportRun kernel start ca events)[l]? = some x →
        x.input.InWindow t x.before.memory.relay := by
      intro l x h₁ h₂ hx
      refine ⟨hstale l x h₁ h₂ hx, fun now' hnow' => ⟨htime h₁ hx hnow', ?_⟩⟩
      exact lt_of_le_of_lt (hclock.le h₂ (reportRun_input hx).1 (reportRun_input hw).1 hnow'
        (by rw [hcalls]; rfl)) hearly
    obtain ⟨hin, htarget⟩ := inhibits_run hupcoming hv hreceives hw hwindow
    refine ⟨hin.module, ?_, htarget⟩
    rintro tp clocks rfl
    have hloss : (Callback.state tp tcpCALoss clocks).run kernel w.before.handoverStatus
        w.before.ca = .ok w.before.ca := by
      rw [hin.module]
      rfl
    rw [(reportRun_input hw).2, hcalls, ReportPath.step, hloss]

/-- A report, and a loss a second behind it. -/
def lossInWindow : List (ReportEvent Rat LinuxSock) :=
  [.sends (.reportHandoverStatus 0 1 0), .receives 0 ⟨0, 0⟩,
    .calls ⟨1, 0⟩ (.state (.withCwnd 10) tcpCALoss ⟨0, 0⟩)]

theorem lossInWindow_clockRuns : ClockRuns lossInWindow := by
  simp [ClockRuns, lossInWindow, ReportEvent.time, Timeval.seconds]

theorem report_protects_lossInWindow : ∃ w : ReportVisit Rat LinuxSock,
    (reportRun Kernel.linux ⟨0, 0⟩ (.withTarget 20) lossInWindow)[2]? = some w ∧
      w.before.handoverStatus = true ∧ w.done.result = .ok w.before := by
  have hrun : ∃ us, updatePrecomputedLink 4 (fun _ => (0 : Rat)) threeCycles = .ok us ∧
      Cmd.reportHandoverStatus 0 1 (0 : Rat) ∈ us.flatMap fun v => v.done.log :=
    ⟨_, rfl, by decide⟩
  obtain ⟨us, hrun, hmem⟩ := hrun
  have hsent : ∀ c, .sends c ∈ lossInWindow → c ∈ us.flatMap fun v => v.done.log := by
    intro c hc
    simp only [lossInWindow, List.mem_cons, ReportEvent.sends.injEq, reduceCtorEq,
      List.not_mem_nil, or_false] at hc
    exact hc ▸ hmem
  have hvisits : ∃ v w : ReportVisit Rat LinuxSock,
      (reportRun Kernel.linux ⟨0, 0⟩ (.withTarget 20) lossInWindow)[1]? = some v ∧
      (reportRun Kernel.linux ⟨0, 0⟩ (.withTarget 20) lossInWindow)[2]? = some w ∧
      v.input = .receives 0 ⟨0, 0⟩ ∧
      w.input = .calls ⟨1, 0⟩ (.state (.withCwnd 10) tcpCALoss ⟨0, 0⟩) :=
    ⟨_, _, rfl, rfl, rfl, rfl⟩
  obtain ⟨v, w, hv, hw, hreceives, hcalls⟩ := hvisits
  have hearly : (⟨1, 0⟩ : Timeval).seconds < (⟨0, 0⟩ : Timeval).seconds + satcpDuration := by
    norm_num [Timeval.seconds, satcpDuration]
  obtain ⟨hstatus, hloss, -⟩ := (report_protects hrun Kernel.linux ⟨0, 0⟩ (.withTarget 20)
    lossInWindow hsent lossInWindow_clockRuns).2 1 2 v w 0 ⟨0, 0⟩ ⟨1, 0⟩ _ hv hreceives
    (by decide) hw hcalls hearly (fun l _ h₁ h₂ => by omega)
  exact ⟨w, hw, hstatus, hloss _ _ rfl⟩

/-! ## When the status is set -/

/-- A check that finds the handover over. -/
def FindsOver (v : ReportVisit K ρ) : Prop :=
  ∃ now currentTv, v.input = .checks now currentTv ∧ v.before.memory.relay.Expires currentTv

/-- A report has been received before event `k`, and no check behind it found the handover
over. -/
def Reported (run : List (ReportVisit K ρ)) (k : Nat) : Prop :=
  ∃ i v m now, i < k ∧ run[i]? = some v ∧ v.input = .receives m now ∧
    ∀ j x, i < j → j < k → run[j]? = some x → ¬ FindsOver x

theorem reported_of_receives {run : List (ReportVisit K ρ)} {m : Nat} {now : Timeval}
    (hv : run[k]? = some v) (hreceives : v.input = .receives m now) : Reported run (k + 1) :=
  ⟨k, v, m, now, Nat.lt_succ_self k, hv, hreceives, fun j x h₁ h₂ => by omega⟩

theorem not_reported_of_findsOver {run : List (ReportVisit K ρ)} (hv : run[k]? = some v)
    (hover : FindsOver v) : ¬ Reported run (k + 1) := by
  rintro ⟨i, u, m, now, hik, hu, hreceives, hno⟩
  rcases Nat.lt_succ_iff_lt_or_eq.mp hik with hlt | rfl
  · exact hno k v hlt (Nat.lt_succ_self k) hv hover
  · obtain rfl := Option.some.inj (hu.symm.trans hv)
    obtain ⟨now', currentTv, hchecks, -⟩ := hover
    rw [hreceives] at hchecks
    cases hchecks

theorem reported_succ {run : List (ReportVisit K ρ)} (hv : run[k]? = some v)
    (hno : ∀ m now, v.input ≠ .receives m now) (hgoes : ¬ FindsOver v) :
    Reported run (k + 1) ↔ Reported run k := by
  constructor
  · rintro ⟨i, u, m, now, hik, hu, hreceives, hover⟩
    rcases Nat.lt_succ_iff_lt_or_eq.mp hik with hlt | rfl
    · exact ⟨i, u, m, now, hlt, hu, hreceives,
        fun j x h₁ h₂ => hover j x h₁ (Nat.lt_succ_of_lt h₂)⟩
    · obtain rfl := Option.some.inj (hu.symm.trans hv)
      exact absurd hreceives (hno m now)
  · rintro ⟨i, u, m, now, hik, hu, hreceives, hover⟩
    refine ⟨i, u, m, now, Nat.lt_succ_of_lt hik, hu, hreceives, fun j x h₁ h₂ hx => ?_⟩
    rcases Nat.lt_succ_iff_lt_or_eq.mp h₂ with hlt | rfl
    · exact hover j x h₁ hlt hx
    · obtain rfl := Option.some.inj (hx.symm.trans hv)
      exact hgoes

/-- **One event** changes the status as it changes what has been reported. -/
theorem reported_step {run : List (ReportVisit K ρ)} {s' : ReportPath} (h : InStep v.before)
    (hv : run[k]? = some v) (hbefore : v.before.handoverStatus = true ↔ Reported run k)
    (hok : v.before.step kernel v.input = .ok s') :
    s'.handoverStatus = true ↔ Reported run (k + 1) := by
  have hsame : (∀ m now, v.input ≠ .receives m now) → ¬ FindsOver v →
      s'.handoverStatus = v.before.handoverStatus →
      (s'.handoverStatus = true ↔ Reported run (k + 1)) := by
    intro hno hgoes hstatus
    rw [hstatus, hbefore, reported_succ hv hno hgoes]
  have hother : (∀ now currentTv, v.input ≠ .checks now currentTv) → ¬ FindsOver v := by
    rintro hno ⟨now, currentTv, hchecks, -⟩
    exact hno now currentTv hchecks
  rcases ReportPath.step_cases h hok with ⟨c, he, hs⟩ | ⟨i, he, hs⟩ | ⟨i, he, hs⟩ |
    ⟨i, now, memory, he, -, hs⟩ | ⟨now, currentTv, memory, he, hexp, -, hs⟩ |
    ⟨now, currentTv, he, hexp, hs⟩ | ⟨now, c, ca, he, -, hs⟩
  · exact hsame (by simp [he]) (hother (by simp [he])) (by rw [hs])
  · exact hsame (by simp [he]) (hother (by simp [he])) (by rw [hs])
  · exact hsame (by simp [he]) (hother (by simp [he])) (by rw [hs])
  · rw [hs]
    exact iff_of_true rfl (reported_of_receives hv he)
  · rw [hs]
    exact iff_of_false Bool.false_ne_true (not_reported_of_findsOver hv ⟨now, currentTv, he, hexp⟩)
  · refine hsame (by simp [he]) ?_ (by rw [hs])
    rintro ⟨now', currentTv', he', hexp'⟩
    obtain ⟨rfl, rfl⟩ := ReportEvent.checks.inj (he.symm.trans he')
    exact hexp hexp'
  · exact hsame (by simp [he]) (hother (by simp [he])) (by rw [hs])

/-- **When the module has the status set.**  For every run of the emulator, whatever the network
does to the datagrams, and however relay, kernel and connection take turns: at every event the
status is set exactly if a report was received before and no check behind it has found the
handover over; and a loss resets the connection exactly if it is not set. -/
theorem report_status_iff [Field K] [LinearOrder K] {N : Nat} {d : Nat → K}
    {cycles : List (Cycle K)} {us : List (CycleVisit K)}
    (hrun : updatePrecomputedLink N d cycles = .ok us) (kernel : Kernel ρ) (start : Timeval)
    (ca : Bictcp) (events : List (ReportEvent K ρ))
    (hsent : ∀ c, .sends c ∈ events → c ∈ us.flatMap fun v => v.done.log) (k : Nat)
    (w : ReportVisit K ρ) (hw : (reportRun kernel start ca events)[k]? = some w) :
    (w.before.handoverStatus = true ↔ Reported (reportRun kernel start ca events) k) ∧
    ∀ now tp clocks, w.input = .calls now (.state tp tcpCALoss clocks) →
      (Reported (reportRun kernel start ca events) k → w.done.result = .ok w.before) ∧
      (¬ Reported (reportRun kernel start ca events) k → w.done.result =
        .ok { w.before with ca := bictcpHystartReset tp (bictcpReset w.before.ca) clocks }) := by
  have hupcoming : ∀ c, .sends c ∈ events → ∀ bytes ∈ c.datagrams, bytes = [49] :=
    fun c hc => emitted_datagrams hrun (hsent c hc)
  have hstatus : w.before.handoverStatus = true ↔
      Reported (reportRun kernel start ca events) k := by
    refine Logged.visits_inv
      (fun k s => s.handoverStatus = true ↔ Reported (reportRun kernel start ca events) k)
      ?_ ?_ hw
    · refine iff_of_false Bool.false_ne_true ?_
      rintro ⟨i, v, m, now, hi, -⟩
      exact absurd hi (Nat.not_lt_zero i)
    · intro k v s' hv hbefore hok
      exact reported_step (inStep_run hupcoming hv) hv hbefore ((reportRun_input hv).2 ▸ hok)
  refine ⟨hstatus, fun now tp clocks hcalls => ?_⟩
  rw [(reportRun_input hw).2, hcalls, ← hstatus]
  constructor
  · intro hset
    have hloss : (Callback.state tp tcpCALoss clocks).run kernel w.before.handoverStatus
        w.before.ca = .ok w.before.ca := by
      rw [hset]
      rfl
    rw [ReportPath.step, hloss]
  · intro hclear
    have hloss : (Callback.state tp tcpCALoss clocks).run kernel w.before.handoverStatus
        w.before.ca = .ok (bictcpHystartReset tp (bictcpReset w.before.ca) clocks) := by
      rw [eq_false_of_ne_true hclear]
      rfl
    rw [ReportPath.step, hloss]

/-- A loss that comes before the report does. -/
def lossBeforeReport : List (ReportEvent Rat LinuxSock) :=
  [.sends (.reportHandoverStatus 0 1 0), .calls ⟨0, 0⟩ (.state (.withCwnd 10) tcpCALoss ⟨0, 0⟩),
    .receives 0 ⟨1, 0⟩]

/-- It resets the connection. -/
theorem report_status_iff_lossBeforeReport : ∃ w : ReportVisit Rat LinuxSock,
    (reportRun Kernel.linux ⟨0, 0⟩ (.withTarget 20) lossBeforeReport)[1]? = some w ∧
      w.done.result = .ok { w.before with
        ca := bictcpHystartReset (.withCwnd 10) (bictcpReset w.before.ca) ⟨0, 0⟩ } := by
  have hrun : ∃ us, updatePrecomputedLink 4 (fun _ => (0 : Rat)) threeCycles = .ok us ∧
      Cmd.reportHandoverStatus 0 1 (0 : Rat) ∈ us.flatMap fun v => v.done.log :=
    ⟨_, rfl, by decide⟩
  obtain ⟨us, hrun, hmem⟩ := hrun
  have hsent : ∀ c, .sends c ∈ lossBeforeReport → c ∈ us.flatMap fun v => v.done.log := by
    intro c hc
    simp only [lossBeforeReport, List.mem_cons, ReportEvent.sends.injEq, reduceCtorEq,
      List.not_mem_nil, or_false] at hc
    exact hc ▸ hmem
  have hvisit : ∃ w : ReportVisit Rat LinuxSock,
      (reportRun Kernel.linux ⟨0, 0⟩ (.withTarget 20) lossBeforeReport)[1]? = some w ∧
      w.before.handoverStatus = false ∧
      w.input = .calls ⟨0, 0⟩ (.state (.withCwnd 10) tcpCALoss ⟨0, 0⟩) := ⟨_, rfl, rfl, rfl⟩
  obtain ⟨w, hw, hclear, hcalls⟩ := hvisit
  obtain ⟨hstatus, hloss⟩ := report_status_iff hrun Kernel.linux ⟨0, 0⟩ (.withTarget 20)
    lossBeforeReport hsent 1 w hw
  refine ⟨w, hw, (hloss _ _ _ hcalls).2 fun hreported => ?_⟩
  exact Bool.false_ne_true (hclear.symm.trans (hstatus.mpr hreported))

end Runs

end LeoEM
