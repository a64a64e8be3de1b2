/-
# `Satcp.ThreadReports` — reports through the threads

`Satcp.Threads` says that the mutex makes the relay's sections atomic.  This file is about what
goes through them.  `left` counts the turns that a section still takes: each turn of the
thread that has the mutex lowers it, and no turn of the other raises it, so the mutex is given
back.  And the emulator reports with one datagram of one byte, which stays within every
buffer; so each iteration leaves the kernel module with the status of the relay, and by
atomicity so does every run of the threads (`threads_report`).
-/
import LeoEM.Satcp.Report
import LeoEM.Satcp.Threads

namespace LeoEM

/-! ## Giving the mutex back -/

/-- The turns that a section of the first thread still takes, at most. -/
def StartPoint.left : StartPoint → Nat
  | .receive | .lock => 0
  | .unlock => 1
  | .send => 2
  | .copy i => payloadSize - i + 3
  | .print => payloadSize + 4
  | .terminate => payloadSize + 5
  | .stampUsec _ => payloadSize + 6
  | .stampSec => payloadSize + 7
  | .setStatus => payloadSize + 8

def OverPoint.left : OverPoint → Nat
  | .lock => 0
  | .unlock => 1
  | .clear => 2
  | .send => 3
  | .copy i => payloadSize - i + 4
  | .compare _ => payloadSize + 5
  | .readUsec _ => payloadSize + 6
  | .readSec => payloadSize + 7
  | .test => payloadSize + 8

theorem StartPoint.Next.left {p p' : StartPoint} (h : p.Next p') : p'.left < p.left := by
  cases h <;> simp only [StartPoint.left] <;> omega

theorem OverPoint.Next.left {p p' : OverPoint} (h : p.Next p') : p'.left < p.left := by
  cases h <;> simp only [OverPoint.left] <;> omega

theorem StartPoint.left_pos {p : StartPoint} (h : p.inside = true) : 0 < p.left := by
  cases p with
  | receive | lock => cases h
  | setStatus | stampSec | stampUsec | terminate | print | copy | send | unlock =>
      simp only [StartPoint.left]
      omega

theorem OverPoint.left_pos {p : OverPoint} (h : p.inside = true) : 0 < p.left := by
  cases p with
  | lock => cases h
  | test | readSec | readUsec | compare | copy | send | clear | unlock =>
      simp only [OverPoint.left]
      omega

theorem StartPoint.left_le (p : StartPoint) : p.left ≤ maxPayload + 8 := by
  cases p <;> simp only [StartPoint.left, payloadSize_eq] <;> omega

theorem OverPoint.left_le (p : OverPoint) : p.left ≤ maxPayload + 8 := by
  cases p <;> simp only [OverPoint.left, payloadSize_eq] <;> omega

namespace RelayThreads

/-- The turns that a thread's section still takes, at most. -/
def left (s : RelayThreads) : RelayThread → Nat
  | .startSignal => s.startPoint.left
  | .overSignal => s.overPoint.left

variable {s s' : RelayThreads} {t : RelayThread} {x : RelayTurn}

theorem Exclusive.left_pos (h : s.Exclusive) (hlock : s.lock = some t) : 0 < s.left t := by
  cases t with
  | startSignal => exact StartPoint.left_pos (h.1.mpr hlock)
  | overSignal => exact OverPoint.left_pos (h.2.mpr hlock)

/-- **A thread that keeps the mutex goes on in its own turns**, and only in these. -/
theorem turn_held (h : s.Exclusive) (hlock : s.lock = some t) (hok : (s.turn x).result = .ok s')
    (hkeeps : s'.lock = some t) : s'.left t + (if x.thread = t then 1 else 0) ≤ s.left t := by
  cases x with
  | startSignal now received =>
      cases t with
      | startSignal =>
          have hin := h.1.mpr hlock
          by_cases hunlock : s.startPoint = .unlock
          · rw [turn, startTurn, hunlock] at hok
            obtain rfl := Except.ok.inj hok
            cases hkeeps
          · exact (startTurn_frame hin hunlock hok).next.left
      | overSignal =>
          have hout : s.startPoint.inside = false := by
            rw [← Bool.not_eq_true, h.1, hlock]
            decide
          have hsame : s'.overPoint = s.overPoint := by
            cases hp : s.startPoint with
            | receive =>
                rw [turn, startTurn_receive hp] at hok
                obtain rfl := Except.ok.inj hok
                rfl
            | lock =>
                rw [turn, startTurn_blocked hp (hlock ▸ Option.some_ne_none _)] at hok
                obtain rfl := Except.ok.inj hok
                rfl
            | setStatus | stampSec | stampUsec | terminate | print | copy | send | unlock =>
                rw [hp] at hout
                cases hout
          rw [left, left, hsame]
          exact Nat.le_refl _
  | overSignal now currentTv =>
      cases t with
      | startSignal =>
          have hp : s.overPoint = .lock := by
            have hout : ¬ s.overPoint.inside = true := by
              rw [h.2, hlock]
              decide
            cases hp : s.overPoint with
            | lock => rfl
            | test | readSec | readUsec | compare | copy | send | clear | unlock =>
                rw [hp] at hout
                exact absurd rfl hout
          rw [turn, overTurn_blocked hp (hlock ▸ Option.some_ne_none _)] at hok
          obtain rfl := Except.ok.inj hok
          exact Nat.le_refl _
      | overSignal =>
          have hin := h.2.mpr hlock
          by_cases hunlock : s.overPoint = .unlock
          · rw [turn, overTurn, hunlock] at hok
            obtain rfl := Except.ok.inj hok
            cases hkeeps
          · exact (overTurn_frame hin hunlock hok).next.left

/-- **The mutex is given back.**  While a thread has it, it takes no more turns than are left. -/
theorem turns_held {now : Timeval} {turns : List RelayTurn} : ∀ {n i : Nat} {v : Visit},
    (run now turns)[i]? = some v →
    (∀ r, i ≤ r → r < i + (n + 1) → ∃ w, (run now turns)[r]? = some w ∧ w.before.lock = some t) →
    (((run now turns).drop i).take (n + 1)).countP (fun w => w.input.thread = t) ≤
      v.before.left t := by
  intro n
  induction n with
  | zero =>
      intro i v hv hheld
      obtain ⟨w, hw, hlock⟩ := hheld i (Nat.le_refl i) (Nat.lt_succ_self i)
      obtain rfl := Option.some.inj (hv.symm.trans hw)
      obtain ⟨_, _, _, hserial, -⟩ := serial_run hv
      refine Nat.le_trans (Nat.le_trans (List.countP_le_length) ?_)
        (hserial.exclusive.left_pos hlock)
      exact List.length_take_le 1 _
  | succ n ih =>
      intro i v hv hheld
      obtain ⟨w, hw, hlock⟩ := hheld i (Nat.le_refl i) (by omega)
      obtain rfl := Option.some.inj (hv.symm.trans hw)
      obtain ⟨w', hw', hlock'⟩ := hheld (i + 1) (Nat.le_succ i) (by omega)
      obtain ⟨u, hu, hok⟩ := Logged.visits_succ hw'
      obtain rfl := Option.some.inj (hv.symm.trans hu)
      obtain ⟨_, _, _, hserial, -⟩ := serial_run hv
      have hrest := ih hw' fun r hlo hhi => hheld r (by omega) (by omega)
      rw [(Logged.visits_input hv).2] at hok
      have hstep := turn_held hserial.exclusive hlock hok hlock'
      have hdrop : (run now turns).drop i = v :: (run now turns).drop (i + 1) := by
        obtain ⟨hlt, hget⟩ := List.getElem?_eq_some_iff.mp hv
        rw [List.drop_eq_getElem_cons hlt, hget]
      rw [hdrop, List.take_succ_cons, List.countP_cons]
      simp only [decide_eq_true_eq]
      omega

theorem left_le (s : RelayThreads) (t : RelayThread) : s.left t ≤ maxPayload + 8 := by
  cases t with
  | startSignal => exact s.startPoint.left_le
  | overSignal => exact s.overPoint.left_le

end RelayThreads

/-! ## Reports of the emulator -/

namespace RelayMemory

/-- Iterations with reports of the emulator come to an end, and leave the module's status as the
relay's. -/
theorem loop_status (now : Timeval) {iterations : List RelayIteration}
    (hreport : ∀ it ∈ iterations, ∀ r, it.received = some r → r = .datagram [49]) : ∃ mem',
      (Logged.loop iteration (start now) iterations).result = .ok mem' ∧
      (handoverStatus (Logged.loop iteration (start now) iterations).log = true ↔
        mem'.relay.currentHandoverStatus = 1) := by
  -- a check behind them, so that there is a visit to find their state
  have hall : ∀ it ∈ iterations ++ [.overSignal now now],
      it.Fits ∧ it.toCriticalSection.reportsUpcoming := by
    intro it hit
    rcases List.mem_append.mp hit with hit | hit
    · cases it with
      | startSignal t r =>
          obtain rfl := hreport _ hit r rfl
          exact ⟨show [(49 : UInt8)].length < maxPayload by decide,
            show LeoEM.nlReceiveHandoverStatus (text [49]) = true by decide⟩
      | overSignal t currentTv => exact ⟨trivial, trivial⟩
    · rw [List.mem_singleton.mp hit]
      exact ⟨trivial, trivial⟩
  obtain ⟨mem', hok⟩ := Logged.loop_returns (fun mem it hit =>
    (iteration_forwards mem (hall it (List.mem_append_left _ hit)).1).1) (start now)
  have hloop : Logged.loop iteration (start now) iterations =
      ⟨(Logged.loop iteration (start now) iterations).log, .ok mem'⟩ := by rw [← hok]
  obtain ⟨hv, hlog⟩ := Logged.visits_of_loop (x := RelayIteration.overSignal now now) hloop
  have hstatus := status_run (fun it hit => (hall it hit).1) (fun it hit => (hall it hit).2) hv
  exact ⟨mem', hok, hlog ▸ hstatus⟩

end RelayMemory

theorem RelayIteration.TakenFrom.received {turns : List RelayTurn} {it : RelayIteration}
    (h : it.TakenFrom turns) {r : Received} (hr : it.received = some r) :
    ∃ t, .startSignal t r ∈ turns := by
  cases it with
  | startSignal now r' => exact Option.some.inj hr ▸ h.2
  | overSignal now currentTv => cases hr

/-- **The reports of the emulator through the threads.**  Whatever the emulator has sent of a run
and however the threads of the relay take turns at the globals: no access is out of bounds; the
kernel module has the status of the relay whenever the mutex is free; and a thread that has the
mutex gives it back within a fixed number of its own turns. -/
theorem threads_report {K : Type} [Field K] [LinearOrder K] {N : Nat} {d : Nat → K}
    {cycles : List (Cycle K)} {us : List (CycleVisit K)}
    (hrun : updatePrecomputedLink N d cycles = .ok us) (now : Timeval) (turns : List RelayTurn)
    (hsent : ∀ t r, .startSignal t r ∈ turns → ∃ c ∈ us.flatMap fun v => v.done.log,
      ∃ bytes ∈ c.datagrams, r = .datagram bytes) :
    (∀ (k : Nat) (v : RelayThreads.Visit), (RelayThreads.run now turns)[k]? = some v →
      (∃ s', v.done.result = .ok s') ∧
      (v.before.lock = none →
        (RelayMemory.handoverStatus (Logged.logUpTo (RelayThreads.run now turns) k) = true ↔
          v.before.memory.relay.currentHandoverStatus = 1))) ∧
    ∀ (t : RelayThread) (i n : Nat),
      (∀ r, i ≤ r → r < i + n → ∃ w, (RelayThreads.run now turns)[r]? = some w ∧
        w.before.lock = some t) →
      (((RelayThreads.run now turns).drop i).take n).countP (fun w => w.input.thread = t) ≤
        maxPayload + 8 := by
  have hreport : ∀ t r, .startSignal t r ∈ turns → r = .datagram [49] := by
    intro t r hr
    obtain ⟨c, hc, bytes, hbytes, rfl⟩ := hsent t r hr
    rw [emitted_datagrams hrun hc bytes hbytes]
  have hloop : ∀ iterations : List RelayIteration, (∀ it ∈ iterations, it.TakenFrom turns) →
      ∃ mem, (Logged.loop RelayMemory.iteration (RelayMemory.start now) iterations).result =
        .ok mem ∧ (RelayMemory.handoverStatus
          (Logged.loop RelayMemory.iteration (RelayMemory.start now) iterations).log = true ↔
            mem.relay.currentHandoverStatus = 1) := by
    intro iterations htaken
    refine RelayMemory.loop_status now fun it hit r hr => ?_
    obtain ⟨t, ht⟩ := (htaken it hit).received hr
    exact hreport t r ht
  refine ⟨fun k v hv => ?_, fun t i n hheld => ?_⟩
  · obtain ⟨iterations, m, sent, hserial, hraises⟩ := RelayThreads.serial_run hv
    refine ⟨?_, fun hfree => ?_⟩
    · cases hresult : v.done.result with
      | ok s' => exact ⟨s', rfl⟩
      | error e =>
          obtain ⟨it, hit, herror⟩ := hraises e hresult
          obtain ⟨mem', hok, -⟩ := hloop (iterations ++ [it]) fun it' hit' =>
            (List.mem_append.mp hit').elim (hserial.taken it')
              fun h => List.mem_singleton.mp h ▸ hit
          rw [herror] at hok
          cases hok
    · obtain ⟨hup, hrelay, -⟩ := hserial.free hfree
      obtain ⟨mem', hok, hstatus⟩ := hloop iterations hserial.taken
      rw [hserial.behind] at hok hstatus
      obtain rfl := Except.ok.inj hok
      rw [hup, hrelay]
      exact hstatus
  · cases n with
    | zero => exact Nat.zero_le _
    | succ n =>
        obtain ⟨v, hv, -⟩ := hheld i (Nat.le_refl i) (by omega)
        exact Nat.le_trans (RelayThreads.turns_held hv hheld) (v.before.left_le t)

theorem threads_report_nextWaits : ∃ v : RelayThreads.Visit,
    (RelayThreads.run ⟨0, 0⟩ nextWaits)[11]? = some v ∧ (∃ s', v.done.result = .ok s') ∧
      v.before.memory.relay.currentHandoverStatus = 1 ∧
      RelayMemory.handoverStatus (Logged.logUpTo (RelayThreads.run ⟨0, 0⟩ nextWaits) 11) = true := by
  have hrun : ∃ us, updatePrecomputedLink 4 (fun _ => (0 : Rat)) threeCycles = .ok us ∧
      Cmd.reportHandoverStatus 0 1 (0 : Rat) ∈ us.flatMap fun v => v.done.log :=
    ⟨_, rfl, by decide⟩
  obtain ⟨us, hrun, hmem⟩ := hrun
  have hsent : ∀ t r, .startSignal t r ∈ nextWaits → ∃ c ∈ us.flatMap fun v => v.done.log,
      ∃ bytes ∈ c.datagrams, r = .datagram bytes := by
    intro t r hr
    have hreport : r = .datagram [49] := by
      simp only [nextWaits, List.mem_append, List.mem_replicate, List.mem_cons,
        RelayTurn.startSignal.injEq, reduceCtorEq, List.not_mem_nil, or_false] at hr
      rcases hr with ⟨-, -, rfl⟩ | hr | ⟨-, rfl⟩ | ⟨-, rfl⟩
      · rfl
      · exact absurd hr id
      · rfl
      · rfl
    exact ⟨_, hmem, [49], List.mem_singleton_self _, hreport⟩
  have hvisit : ∃ v : RelayThreads.Visit, (RelayThreads.run ⟨0, 0⟩ nextWaits)[11]? = some v ∧
      v.before.lock = none ∧ v.before.memory.relay.currentHandoverStatus = 1 := ⟨_, rfl, rfl, rfl⟩
  obtain ⟨v, hv, hfree, hstatus⟩ := hvisit
  obtain ⟨hok, hagree⟩ := (threads_report hrun ⟨0, 0⟩ nextWaits hsent).1 11 v hv
  exact ⟨v, hv, hok, hstatus, (hagree hfree).mpr hstatus⟩

end LeoEM
