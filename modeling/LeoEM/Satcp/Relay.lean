/-
# `Satcp.Relay` — the report relay and its two threads

The relay forwards every handover report to the kernel and, `satcpDuration` after the
last one, tells the kernel that the handover is over.  Its two threads share the
timestamp of the last report and the status under one mutex, so a run is a list of
critical sections in the order in which the mutex was given out.

The thread that ends a handover takes `current_time` from `current_tv` before
`gettimeofday` has filled `current_tv`: it compares with whatever the variable held.
`inhibition_kept_iff` says for every run when the window is kept all the same,
`status_agrees_iff` when the kernel and the relay agree.
-/
import LeoEM.Base.Logged
import Mathlib.Data.Rat.Defs
import Mathlib.Algebra.Order.Ring.Rat
import Mathlib.Tactic.NormNum
import Mathlib.Tactic.Linarith

namespace LeoEM

/-- `struct timeval`. -/
structure Timeval where
  tvSec : Int
  tvUsec : Int

/-- `tv.tv_sec + (long double) tv.tv_usec / 1000000`, without the rounding of a `long double`. -/
def Timeval.seconds (tv : Timeval) : Rat := tv.tvSec + (tv.tvUsec : Rat) / 1000000

/-- `SATCP_DURATION`.  The source adds the `double` next to it to `long double`s; here the number
and the sums with it are exact. -/
def satcpDuration : Rat := 23 / 10

/-- The globals of the relay that the mutex protects. -/
structure Relay where
  tv : Timeval
  currentHandoverStatus : Int

/-- `satcp_expiration_time`. -/
def Relay.satcpExpirationTime (r : Relay) : Rat := r.tv.seconds + satcpDuration

/-- `main`, up to the creation of the threads. -/
def Relay.start (now : Timeval) : Relay := ⟨now, 0⟩

/-- One critical section.  `now` is what `gettimeofday` answers in it.  A section of the
first thread has received `buffer`; in a section of the second, `currentTv` is what the
local variable of that name holds before anything is assigned to it. -/
inductive CriticalSection where
  | startSignal (now : Timeval) (buffer : String)
  | overSignal (now : Timeval) (currentTv : Timeval)

namespace CriticalSection

def now : CriticalSection → Timeval
  | startSignal now _ => now
  | overSignal now _ => now

def isReport : CriticalSection → Prop
  | startSignal _ _ => True
  | overSignal _ _ => False

end CriticalSection

/-- `sendmsg`, with the payload that `strcpy` has put into the message. -/
def sendmsg (payload : String) : Logged String Empty Unit := Logged.tell payload

def waitAndSendHandoverStartSignal (now : Timeval) (buffer : String) :
    Logged String Empty Relay := do
  sendmsg buffer
  pure ⟨now, 1⟩

def waitAndSendHandoverOverSignal (r : Relay) (currentTv : Timeval) :
    Logged String Empty Relay :=
  if r.currentHandoverStatus = 1 then
    -- `gettimeofday(&current_tv, NULL)` comes after `current_time` has been computed
    if r.satcpExpirationTime < currentTv.seconds then do
      sendmsg "0"
      pure { r with currentHandoverStatus := 0 }
    else pure r
  else pure r

def criticalSection (r : Relay) : CriticalSection → Logged String Empty Relay
  | .startSignal now buffer => waitAndSendHandoverStartSignal now buffer
  | .overSignal _ currentTv => waitAndSendHandoverOverSignal r currentTv

abbrev RelayVisit := Logged.Visit Relay CriticalSection String Empty

/-- The relay, started at `now`, over the critical sections of its two threads. -/
def relayRun (now : Timeval) (sections : List CriticalSection) : List RelayVisit :=
  Logged.visits criticalSection (Relay.start now) sections

/-! ## One critical section -/

/-- The second thread finds a handover and takes it to be over. -/
def Relay.Expires (r : Relay) (currentTv : Timeval) : Prop :=
  r.currentHandoverStatus = 1 ∧ r.satcpExpirationTime < currentTv.seconds

theorem start_eq (r : Relay) (now : Timeval) (buffer : String) :
    criticalSection r (.startSignal now buffer) = ⟨[buffer], .ok ⟨now, 1⟩⟩ := rfl

theorem over_of_expires {r : Relay} {currentTv : Timeval} (h : r.Expires currentTv)
    (now : Timeval) : criticalSection r (.overSignal now currentTv) =
      ⟨["0"], .ok { r with currentHandoverStatus := 0 }⟩ := by
  simp only [criticalSection, waitAndSendHandoverOverSignal, if_pos h.1, if_pos h.2]
  rfl

theorem over_of_not_expires {r : Relay} {currentTv : Timeval} (h : ¬ r.Expires currentTv)
    (now : Timeval) : criticalSection r (.overSignal now currentTv) = ⟨[], .ok r⟩ := by
  simp only [criticalSection, waitAndSendHandoverOverSignal]
  split
  next hs =>
    rw [if_neg fun ht => h ⟨hs, ht⟩]
    rfl
  next => rfl

/-- A critical section always returns. -/
theorem criticalSection_returns (r : Relay) (sec : CriticalSection) :
    ∃ r', (criticalSection r sec).result = .ok r' := by
  cases sec with
  | startSignal now buffer => exact ⟨_, rfl⟩
  | overSignal now currentTv =>
      by_cases h : r.Expires currentTv
      · exact ⟨_, by rw [over_of_expires h]⟩
      · exact ⟨_, by rw [over_of_not_expires h]⟩

/-! ## The inhibition window -/

/-- Section `k` of the run processes a report. -/
def Processed (vs : List RelayVisit) (k : Nat) : Prop :=
  ∃ v, vs[k]? = some v ∧ v.input.isReport

/-- If section `k` sends a `"0"`, the last report was processed at least `satcpDuration`
before. -/
def InhibitionKept (vs : List RelayVisit) (k : Nat) : Prop :=
  ∀ v, vs[k]? = some v → "0" ∈ v.done.log →
    ∃ c w, SinceLast (Processed vs) k c ∧ vs[k - c]? = some w ∧
      w.input.now.seconds + satcpDuration ≤ v.input.now.seconds

/-- An expiry check inside the window finds a `current_tv` from beyond its end. -/
def StaleClock (r : Relay) : CriticalSection → Prop
  | .startSignal _ _ => False
  | .overSignal now currentTv =>
      r.currentHandoverStatus = 1 ∧ now.seconds < r.satcpExpirationTime ∧
        r.satcpExpirationTime < currentTv.seconds

/-- The report says that no handover is coming. -/
def CriticalSection.reportsNone : CriticalSection → Prop
  | .startSignal _ buffer => buffer = "0"
  | .overSignal _ _ => False

/-- Before section `k`, if a handover is on, `tv` is the time of the last report. -/
def WindowBefore (vs : List RelayVisit) (k : Nat) (r : Relay) : Prop :=
  r.currentHandoverStatus = 1 → ∃ j c w, k = j + 1 ∧ SinceLast (Processed vs) j c ∧
    vs[j - c]? = some w ∧ w.input.now = r.tv

section Window

variable {now : Timeval} {sections : List CriticalSection} {k : Nat} {v : RelayVisit}

theorem processed_iff {vs : List RelayVisit} (hv : vs[k]? = some v) :
    Processed vs k ↔ v.input.isReport := by
  constructor
  · rintro ⟨w, hw, hr⟩
    obtain rfl : w = v := Option.some.inj (hw.symm.trans hv)
    exact hr
  · intro hr
    exact ⟨v, hv, hr⟩

/-- **One section keeps the window**: a report opens it anew, a check leaves `tv` alone. -/
theorem window_step {r' : Relay} (hv : (relayRun now sections)[k]? = some v)
    (hprev : WindowBefore (relayRun now sections) k v.before)
    (hr : v.done.result = .ok r') : WindowBefore (relayRun now sections) (k + 1) r' := by
  intro hs
  have hproc := processed_iff hv
  rw [(Logged.visits_input hv).2] at hr
  cases hi : v.input with
  | startSignal t buffer =>
      rw [hi, start_eq, Except.ok.injEq] at hr
      rw [hi] at hproc
      refine ⟨k, 0, v, rfl, SinceLast.now (hproc.mpr trivial), hv, ?_⟩
      rw [hi, ← hr]
      rfl
  | overSignal t currentTv =>
      rw [hi] at hr hproc
      by_cases he : v.before.Expires currentTv
      · rw [over_of_expires he, Except.ok.injEq] at hr
        rw [← hr] at hs
        cases hs
      · rw [over_of_not_expires he, Except.ok.injEq] at hr
        subst hr
        obtain ⟨j, c, w, rfl, hc, hw, ht⟩ := hprev hs
        refine ⟨j + 1, c + 1, w, rfl, hc.later fun h => hproc.mp h, ?_, ht⟩
        rwa [Nat.add_sub_add_right]

/-- The window of a run. -/
theorem window_run (hv : (relayRun now sections)[k]? = some v) :
    WindowBefore (relayRun now sections) k v.before := by
  refine Logged.visits_inv (WindowBefore (relayRun now sections)) ?_ ?_ hv
  · intro hs
    cases hs
  · intro k v r' hv hprev hr
    exact window_step hv hprev hr

/-- Inside a handover the last report is as old as `tv`, from the section that checks. -/
theorem window_last (hv : (relayRun now sections)[k]? = some v) (hi : ¬ v.input.isReport)
    (hs : v.before.currentHandoverStatus = 1) :
    ∃ c w, SinceLast (Processed (relayRun now sections)) k c ∧
      (relayRun now sections)[k - c]? = some w ∧ w.input.now = v.before.tv := by
  obtain ⟨j, c, w, rfl, hc, hw, ht⟩ := window_run hv hs
  refine ⟨c + 1, w, hc.later fun h => hi ((processed_iff hv).mp h), ?_, ht⟩
  rwa [Nat.add_sub_add_right]

/-- A report of `"0"` is sent on at once. -/
theorem not_kept_of_reportsNone (hv : (relayRun now sections)[k]? = some v)
    (hnone : v.input.reportsNone) : ¬ InhibitionKept (relayRun now sections) k := by
  intro hkept
  cases hi : v.input with
  | overSignal t currentTv => rw [hi] at hnone; exact hnone
  | startSignal t buffer =>
      rw [hi] at hnone
      have hsent : "0" ∈ v.done.log := by
        rw [(Logged.visits_input hv).2, hi, start_eq, show buffer = "0" from hnone]
        exact List.mem_singleton_self _
      obtain ⟨c, w, hc, hw, hle⟩ := hkept v hv hsent
      have hproc : Processed (relayRun now sections) k := ⟨v, hv, by rw [hi]; trivial⟩
      obtain rfl : c = 0 := hc.unique (SinceLast.now hproc)
      obtain rfl : w = v := Option.some.inj (hw.symm.trans hv)
      unfold satcpDuration at hle
      linarith

/-- A stale clock closes the window early. -/
theorem not_kept_of_staleClock (hv : (relayRun now sections)[k]? = some v)
    (hstale : StaleClock v.before v.input) : ¬ InhibitionKept (relayRun now sections) k := by
  intro hkept
  cases hi : v.input with
  | startSignal t buffer => rw [hi] at hstale; exact hstale
  | overSignal t currentTv =>
      rw [hi] at hstale
      obtain ⟨hs, hearly, hlate⟩ := hstale
      have hsent : "0" ∈ v.done.log := by
        rw [(Logged.visits_input hv).2, hi, over_of_expires ⟨hs, hlate⟩]
        exact List.mem_singleton_self _
      obtain ⟨c, w, hc, hw, hle⟩ := hkept v hv hsent
      obtain ⟨c', w', hc', hw', ht⟩ := window_last hv (by rw [hi]; exact id) hs
      obtain rfl : c = c' := hc.unique hc'
      obtain rfl : w = w' := Option.some.inj (hw.symm.trans hw')
      rw [ht, hi] at hle
      exact absurd hearly (not_lt.mpr hle)

/-- Every other section keeps it. -/
theorem kept_of_not_staleClock (hv : (relayRun now sections)[k]? = some v)
    (hnone : ¬ v.input.reportsNone) (hstale : ¬ StaleClock v.before v.input) :
    InhibitionKept (relayRun now sections) k := by
  intro v' hv' hsent
  obtain rfl : v' = v := Option.some.inj (hv'.symm.trans hv)
  rw [(Logged.visits_input hv).2] at hsent
  cases hi : v'.input with
  | startSignal t buffer =>
      rw [hi, start_eq] at hsent
      rw [hi] at hnone
      exact absurd (List.mem_singleton.mp hsent).symm hnone
  | overSignal t currentTv =>
      rw [hi] at hsent hstale
      by_cases he : v'.before.Expires currentTv
      · obtain ⟨c, w, hc, hw, ht⟩ := window_last hv (by rw [hi]; exact id) he.1
        refine ⟨c, w, hc, hw, ?_⟩
        rw [ht]
        exact not_lt.mp fun hearly => hstale ⟨he.1, hearly, he.2⟩
      · rw [over_of_not_expires he] at hsent
        exact absurd hsent List.not_mem_nil

end Window

/-- **Inhibition is never cut short** in a run, exactly if no report is a `"0"` and no check
inside the window finds a `current_tv` from beyond its end. -/
theorem inhibition_kept_iff (now : Timeval) (sections : List CriticalSection) :
    (∀ k, InhibitionKept (relayRun now sections) k) ↔
      ∀ (k : Nat) (v : RelayVisit), (relayRun now sections)[k]? = some v →
        ¬ v.input.reportsNone ∧ ¬ StaleClock v.before v.input := by
  constructor
  · intro hall k v hv
    exact ⟨fun h => not_kept_of_reportsNone hv h (hall k),
      fun h => not_kept_of_staleClock hv h (hall k)⟩
  · intro hok k v hv
    exact kept_of_not_staleClock hv (hok k v hv).1 (hok k v hv).2 v hv

/-- A report at time 0 and an expiry check one second later, whose local variable happens to
hold a moment of the year 2100. -/
def staleCheck : List CriticalSection :=
  [.startSignal ⟨0, 0⟩ "1", .overSignal ⟨1, 0⟩ ⟨4102444800, 0⟩]

/-- The relay ends this handover after one second. -/
theorem staleCheck_cut_short : ¬ ∀ k, InhibitionKept (relayRun ⟨0, 0⟩ staleCheck) k := by
  intro h
  have hv : (relayRun ⟨0, 0⟩ staleCheck)[1]? =
      some ⟨.overSignal ⟨1, 0⟩ ⟨4102444800, 0⟩, ⟨⟨0, 0⟩, 1⟩,
        criticalSection ⟨⟨0, 0⟩, 1⟩ (.overSignal ⟨1, 0⟩ ⟨4102444800, 0⟩)⟩ := rfl
  refine not_kept_of_staleClock hv ⟨rfl, ?_, ?_⟩ (h 1) <;>
    norm_num [CriticalSection.now, Relay.satcpExpirationTime, Timeval.seconds, satcpDuration]

/-! ## The status on both sides -/

/-- `nl_receive_handover_status` of the kernel module: the first character decides. -/
def nlReceiveHandoverStatus (signal : String) : Bool := signal.toList.head? == some '1'

/-- `handover_status` of the module, once it has received `messages` in this order. -/
def handoverStatus (messages : List String) : Bool :=
  messages.foldl (fun _ signal => nlReceiveHandoverStatus signal) false

/-- Behind section `k` the module has received all messages sent so far, and its status is
that of the relay. -/
def StatusAgrees (vs : List RelayVisit) (k : Nat) : Prop :=
  ∀ v r, vs[k]? = some v → v.done.result = .ok r →
    (handoverStatus (Logged.logUpTo vs (k + 1)) = true ↔ r.currentHandoverStatus = 1)

/-- A report, if this is one, says that a handover is coming. -/
def CriticalSection.reportsUpcoming : CriticalSection → Prop
  | .startSignal _ buffer => nlReceiveHandoverStatus buffer = true
  | .overSignal _ _ => True

theorem handoverStatus_append (messages : List String) (signal : String) :
    handoverStatus (messages ++ [signal]) = nlReceiveHandoverStatus signal := by
  rw [handoverStatus, List.foldl_append]
  rfl

section Status

variable {now : Timeval} {sections : List CriticalSection} {k : Nat} {v : RelayVisit}

/-- Before section `k` the module's status is the relay's. -/
def StatusBefore (vs : List RelayVisit) (k : Nat) (r : Relay) : Prop :=
  handoverStatus (Logged.logUpTo vs k) = true ↔ r.currentHandoverStatus = 1

/-- **One section keeps the two in step**, if a report it processes begins with a `1`. -/
theorem status_step {r : Relay} (hv : (relayRun now sections)[k]? = some v)
    (hup : v.input.reportsUpcoming) (hprev : StatusBefore (relayRun now sections) k v.before)
    (hr : v.done.result = .ok r) : StatusBefore (relayRun now sections) (k + 1) r := by
  unfold StatusBefore
  rw [Logged.logUpTo_succ hv]
  rw [(Logged.visits_input hv).2] at hr ⊢
  cases hi : v.input with
  | startSignal t buffer =>
      rw [hi] at hup
      rw [hi, start_eq, Except.ok.injEq] at hr
      rw [start_eq, handoverStatus_append, ← hr]
      exact iff_of_true hup rfl
  | overSignal t currentTv =>
      rw [hi] at hr
      by_cases he : v.before.Expires currentTv
      · rw [over_of_expires he, Except.ok.injEq] at hr
        rw [over_of_expires he, handoverStatus_append, ← hr]
        exact iff_of_false Bool.false_ne_true Int.zero_ne_one
      · rw [over_of_not_expires he, Except.ok.injEq] at hr
        rw [over_of_not_expires he, List.append_nil, ← hr]
        exact hprev

theorem status_run (hup : ∀ sec ∈ sections, sec.reportsUpcoming)
    (hv : (relayRun now sections)[k]? = some v) :
    StatusBefore (relayRun now sections) k v.before := by
  refine Logged.visits_inv (StatusBefore (relayRun now sections)) ?_ ?_ hv
  · exact iff_of_false Bool.false_ne_true Int.zero_ne_one
  · intro k v r hv hprev hr
    exact status_step hv (hup v.input (List.mem_of_getElem? (Logged.visits_input hv).1)) hprev hr

/-- A report that does not begin with a `1` sets the relay's status and not the module's. -/
theorem not_agrees_of_report (hv : (relayRun now sections)[k]? = some v)
    (hup : ¬ v.input.reportsUpcoming) : ¬ StatusAgrees (relayRun now sections) k := by
  intro hagree
  cases hi : v.input with
  | overSignal t currentTv => exact hup (by rw [hi]; trivial)
  | startSignal t buffer =>
      rw [hi] at hup
      have hdone : v.done = ⟨[buffer], .ok ⟨t, 1⟩⟩ := by
        rw [(Logged.visits_input hv).2, hi, start_eq]
      have h := hagree v ⟨t, 1⟩ hv (by rw [hdone])
      rw [Logged.logUpTo_succ hv, hdone, handoverStatus_append] at h
      exact hup (h.mpr rfl)

end Status

/-- **Relay and kernel agree** behind every critical section, exactly if every report begins
with a `1`. -/
theorem status_agrees_iff (now : Timeval) (sections : List CriticalSection) :
    (∀ k, StatusAgrees (relayRun now sections) k) ↔
      ∀ sec ∈ sections, sec.reportsUpcoming := by
  constructor
  · intro hall sec hsec
    obtain ⟨k, hk, hget⟩ := List.mem_iff_getElem.mp hsec
    have hlen : k < (relayRun now sections).length := by
      rwa [relayRun, Logged.visits_length criticalSection_returns]
    have hv := List.getElem?_eq_getElem hlen
    have hin : sections[k]? = some sec := List.getElem?_eq_some_iff.mpr ⟨hk, hget⟩
    obtain rfl := Option.some.inj (hin.symm.trans (Logged.visits_input hv).1)
    exact not_not.mp fun hup => not_agrees_of_report hv hup (hall k)
  · intro hup k v r hv hr
    exact status_step hv (hup v.input (List.mem_of_getElem? (Logged.visits_input hv).1))
      (status_run hup hv) hr

/-- One report that no handover is coming. -/
theorem noneReported_disagrees :
    ¬ ∀ k, StatusAgrees (relayRun ⟨0, 0⟩ [.startSignal ⟨0, 0⟩ "0"]) k := by
  intro h
  have hv : (relayRun ⟨0, 0⟩ [.startSignal ⟨0, 0⟩ "0"])[0]? =
      some ⟨.startSignal ⟨0, 0⟩ "0", ⟨⟨0, 0⟩, 0⟩,
        criticalSection ⟨⟨0, 0⟩, 0⟩ (.startSignal ⟨0, 0⟩ "0")⟩ := rfl
  exact not_agrees_of_report hv (by decide : ¬ nlReceiveHandoverStatus "0" = true) (h 0)

end LeoEM
