/-
# `Emulator.Run` — what a cycle does, and what it finds

One equation for each way a cycle can go (`cycleBody_none`, `cycleBody_some`,
`withRoute_of_ok`, `withRoute_of_error`) and one inversion for a cycle that came to
its end (`cycleBody_ok`); nothing later unfolds the loop body.

From the inversion follows what the globals hold: behind a finished cycle they
show its route (`Globals.Shows`), so before cycle `k + 1` they show the route of
cycle `k` (`shows_of_visit`).  Before cycle 0 they show what the first loop left
there, `leftoverPath`.
-/
import LeoEM.Emulator.Decision

namespace LeoEM

open PyList

variable {K : Type}

/-! ## The commands of a cycle -/

/-- A call of `set_link_properties`: the two nodes and the delay. -/
def Cmd.linkSetting? : Cmd K → Option (NodeName × NodeName × DelayArg K)
  | .setLinkProperties node1 node2 _ delay _ => some (node1, node2, delay)
  | _ => none

/-- A call of `report_handover_status_asynchronously(1, w)`: the cycle it is for and
`w`. -/
def Cmd.report? : Cmd K → Option (Nat × K)
  | .reportHandoverStatus cycle 1 w => some (cycle, w)
  | _ => none

/-- The command simulates a handover at some link. -/
def Cmd.Interrupts : Cmd K → Prop
  | .simulateLinkBreaks group => group ≠ []
  | .simulateEndHandovers nodes => nodes ≠ []
  | _ => False

/-- A handover is triggered: some set of handover nodes is not empty. -/
def Interrupted (log : List (Cmd K)) : Prop := ∃ c ∈ log, c.Interrupts

instance (c : Cmd K) : Decidable c.Interrupts :=
  match c with
  | .simulateLinkBreaks group => inferInstanceAs (Decidable (group ≠ []))
  | .simulateEndHandovers nodes =>
      decidable_of_iff (nodes.length ≠ 0) (not_congr List.length_eq_zero_iff)
  | .reportHandoverStatus .. | .configLinkStatus .. | .setLinkProperties .. =>
      inferInstanceAs (Decidable False)

instance (log : List (Cmd K)) : Decidable (Interrupted log) :=
  inferInstanceAs (Decidable (∃ c ∈ log, c.Interrupts))

theorem shows_disconnect (g : Globals K) : g.disconnect.Shows none := ⟨rfl, rfl⟩

theorem shows_shift (g : Globals K) (r : Route K) : (g.shift r).Shows (some r) := ⟨rfl, rfl⟩

/-- What a loop can be ended by, but for its own `return`. -/
def Stop.IsRaised (stop : Stop) : Prop := ∃ e, stop = .raised e

theorem within_ofPy {α : Type} {P : Cmd K → Prop} (x : Except PyError α) :
    Logged.Within P Stop.IsRaised (ofPy x) := by
  cases x with
  | ok a => exact Logged.within_pure a
  | error e => exact Logged.within_raise ⟨e, rfl⟩

theorem within_setLinkProperties {P : Cmd K → Prop} (hP : ∀ c, (Cmd.linkSetting? c).isSome → P c)
    (net : Topo K) (a b : NodeName) (bw : Nat) (delay : DelayArg K) :
    Logged.Within P Stop.IsRaised (setLinkProperties net a b bw delay) := by
  rw [setLinkProperties]
  split
  · exact Logged.within_raise ⟨_, rfl⟩
  · split
    · exact Logged.within_raise ⟨_, rfl⟩
    · exact Logged.within_tell (hP _ rfl)

/-- Laying a path sends nothing but link settings, and is only ended by an exception. -/
theorem within_layPath {P : Cmd K → Prop} (hP : ∀ c, (Cmd.linkSetting? c).isSome → P c)
    (n : Nat) (path : List (Option Int)) (delays : List K) :
    Logged.Within P Stop.IsRaised (layPath n path delays) := by
  have hset := within_setLinkProperties hP (myTopo n)
  refine Logged.within_bind (within_ofPy _) fun w₁ => ?_
  refine Logged.within_bind (hset _ _ _ _) fun _ => ?_
  refine Logged.within_bind (within_ofPy _) fun w₂ => ?_
  refine Logged.within_bind (hset _ _ _ _) fun _ => ?_
  refine Logged.within_bind (Logged.within_forEach (fun i => ?_) _) fun _ => ?_
  · exact Logged.within_bind (within_ofPy _) fun w => hset _ _ _ _
  · exact Logged.within_forEach (fun i => hset _ _ _ _) _

theorem linkSetting_of_layPath {n : Nat} {path : List (Option Int)} {delays : List K} {c : Cmd K}
    (h : c ∈ (layPath n path delays).log) : (Cmd.linkSetting? c).isSome :=
  (within_layPath (fun _ hc => hc) n path delays).leaves c h

/-- A link setting is no report. -/
theorem report?_of_linkSetting {c : Cmd K} (h : (Cmd.linkSetting? c).isSome) :
    c.report? = none := by
  cases c <;> simp_all [Cmd.linkSetting?, Cmd.report?]

theorem not_interrupts_of_linkSetting {c : Cmd K} (h : (Cmd.linkSetting? c).isSome) :
    ¬ c.Interrupts := by
  cases c <;> simp_all [Cmd.linkSetting?, Cmd.Interrupts]

theorem interrupted_append {log log' : List (Cmd K)} :
    Interrupted (log ++ log') ↔ Interrupted log ∨ Interrupted log' := by
  simp only [Interrupted, List.mem_append, or_and_right, exists_or]

theorem not_interrupted_of {log : List (Cmd K)} (h : ∀ c ∈ log, ¬ c.Interrupts) :
    ¬ Interrupted log := fun ⟨c, hc, hi⟩ => h c hc hi

theorem interrupted_interruptions (plan : Handovers K) :
    Interrupted (interruptions plan) ↔ plan.Triggered := by
  simp [Interrupted, interruptions, Cmd.Interrupts, Handovers.Triggered]

section Body

variable [Field K] [LinearOrder K]

theorem mem_lookAheadReport {env : Env K} {index ahead : Nat} {lower upper : K} {c : Cmd K}
    (h : c ∈ lookAheadReport env index ahead lower upper) :
    c = .reportHandoverStatus (index + ahead) 1 (ahead - -env.predictionDelays (index + ahead)) := by
  simp only [lookAheadReport] at h
  split at h
  · exact List.mem_singleton.mp h
  · cases h

/-- The reports sent ahead interrupt nothing and set no link. -/
theorem mem_aheadReports {env : Env K} {index : Nat} {c : Cmd K}
    (h : c ∈ aheadReports env index) : ¬ c.Interrupts ∧ c.linkSetting? = none := by
  simp only [aheadReports, List.mem_append] at h
  rcases h with (h | h) | h <;> rw [mem_lookAheadReport h] <;> exact ⟨id, rfl⟩

theorem mem_delayedReport {env : Env K} {index : Nat} {plan : Handovers K} {c : Cmd K}
    (h : c ∈ delayedReport env index plan) : ¬ c.Interrupts ∧ c.linkSetting? = none := by
  simp only [delayedReport] at h
  split at h
  · rw [List.mem_singleton.mp h]
    exact ⟨id, rfl⟩
  · cases h

/-! ## One cycle, by equations -/

variable {env : Env K} {g g' : Globals K} {index : Nat} {c : Cycle K} {r : Route K}

theorem cycleBody_none (hc : env.linkInfo[index]? = some c) (hn : c.cycle = index + 1)
    (hr : c.route = none) : cycleBody env g index =
      ⟨aheadReports env index ++ [.configLinkStatus (.s 0) (.s 1) false], .ok g.disconnect⟩ := by
  unfold cycleBody
  simp only [hc, hr]
  rw [if_neg (by rw [hn]; simp), Logged.tellAll_bind]
  rfl

theorem cycleBody_some (hc : env.linkInfo[index]? = some c) (hn : c.cycle = index + 1)
    (hr : c.route = some r) : cycleBody env g index =
      ⟨aheadReports env index ++ (withRoute env index g r).log,
        (withRoute env index g r).result⟩ := by
  unfold cycleBody
  simp only [hc, hr]
  rw [if_neg (by rw [hn]; simp), Logged.tellAll_bind]

theorem withRoute_of_ok {plan : Handovers K}
    (h : planHandovers env.intermediateHopNum (g.shift r) r.nodeDelay = .ok plan) :
    withRoute env index g r =
      ⟨.configLinkStatus (.s 0) (.s 1) true :: (delayedReport env index plan ++
          (interruptions plan ++ (layPath env.intermediateHopNum (routingPath r) r.nodeDelay).log)),
        (layPath env.intermediateHopNum (routingPath r) r.nodeDelay).result.map
          fun _ => g.shift r⟩ := by
  simp only [withRoute, h, ofPy_ok]
  rw [Logged.tell_bind, Logged.bind_of_ok (Logged.pure_result _), Logged.tellAll_bind,
    Logged.tellAll_bind]
  show (⟨_, _⟩ : Logged (Cmd K) Stop (Globals K)) = _
  cases hl : (layPath env.intermediateHopNum (routingPath r) r.nodeDelay).result with
  | ok u =>
      rw [show (g.shift r).currentRoutingPath = routingPath r from rfl, Logged.bind_of_ok hl]
      simp [Except.map]
  | error e =>
      rw [show (g.shift r).currentRoutingPath = routingPath r from rfl, Logged.bind_of_error hl]
      simp [Except.map]

theorem withRoute_of_error {e : PyError}
    (h : planHandovers env.intermediateHopNum (g.shift r) r.nodeDelay = .error e) :
    withRoute env index g r =
      ⟨[.configLinkStatus (.s 0) (.s 1) true], .error (.raised e)⟩ := by
  simp only [withRoute, h, ofPy_error]
  rw [Logged.tell_bind, Logged.bind_of_error (Logged.raise_result _)]
  rfl

/-- **A cycle that came to its end**: it was the right one, and the globals have either
been disconnected or shifted. -/
theorem cycleBody_ok (h : (cycleBody env g index).result = .ok g') :
    ∃ c, env.linkInfo[index]? = some c ∧ c.cycle = index + 1 ∧
      ((c.route = none ∧ g' = g.disconnect) ∨
        ∃ r plan, c.route = some r ∧ g' = g.shift r ∧
          planHandovers env.intermediateHopNum (g.shift r) r.nodeDelay = .ok plan) := by
  cases hc : env.linkInfo[index]? with
  | none => simp [cycleBody, hc] at h
  | some c =>
      by_cases hn : c.cycle = index + 1
      · refine ⟨c, rfl, hn, ?_⟩
        cases hr : c.route with
        | none =>
            rw [cycleBody_none hc hn hr] at h
            exact Or.inl ⟨rfl, (Except.ok.inj h).symm⟩
        | some r =>
            rw [cycleBody_some hc hn hr] at h
            cases hp : planHandovers env.intermediateHopNum (g.shift r) r.nodeDelay with
            | error e => rw [withRoute_of_error hp] at h; cases h
            | ok plan =>
                rw [withRoute_of_ok hp] at h
                refine Or.inr ⟨r, plan, rfl, ?_, hp⟩
                cases hl : (layPath env.intermediateHopNum (routingPath r) r.nodeDelay).result with
                | error e => rw [hl] at h; cases h
                | ok u => rw [hl] at h; exact (Except.ok.inj h).symm
      · simp [cycleBody, hc, Ne.symm hn] at h

/-- **What a cycle sends**, whether it comes to its end or not. -/
theorem mem_cycleBody {cmd : Cmd K} (h : cmd ∈ (cycleBody env g index).log) :
    cmd ∈ aheadReports env index ∨ (∃ up, cmd = .configLinkStatus (.s 0) (.s 1) up) ∨
      (∃ plan, cmd ∈ delayedReport env index plan ∨ cmd ∈ interruptions plan) ∨
      ∃ path delays, cmd ∈ (layPath env.intermediateHopNum path delays).log := by
  cases hc : env.linkInfo[index]? with
  | none =>
      rw [cycleBody, hc] at h
      exact absurd h List.not_mem_nil
  | some c =>
      by_cases hn : c.cycle = index + 1
      · cases hr : c.route with
        | none =>
            rw [cycleBody_none hc hn hr] at h
            rcases List.mem_append.mp h with h | h
            · exact Or.inl h
            · exact Or.inr (Or.inl ⟨false, List.mem_singleton.mp h⟩)
        | some r =>
            rw [cycleBody_some hc hn hr] at h
            rcases List.mem_append.mp h with h | h
            · exact Or.inl h
            cases hp : planHandovers env.intermediateHopNum (g.shift r) r.nodeDelay with
            | error e =>
                rw [withRoute_of_error hp] at h
                exact Or.inr (Or.inl ⟨true, List.mem_singleton.mp h⟩)
            | ok plan =>
                rw [withRoute_of_ok hp] at h
                rcases List.mem_cons.mp h with h | h
                · exact Or.inr (Or.inl ⟨true, h⟩)
                rcases List.mem_append.mp h with h | h
                · exact Or.inr (Or.inr (Or.inl ⟨plan, Or.inl h⟩))
                rcases List.mem_append.mp h with h | h
                · exact Or.inr (Or.inr (Or.inl ⟨plan, Or.inr h⟩))
                · exact Or.inr (Or.inr (Or.inr ⟨_, _, h⟩))
      · simp [cycleBody, hc, Ne.symm hn] at h

/-- **The loop returns early only at a wrong number**: behind the check a cycle is only
ended by an exception. -/
theorem cycleBody_numbered (hc : env.linkInfo[index]? = some c) (hn : c.cycle = index + 1) :
    ∀ stop, (cycleBody env g index).result = .error stop → stop.IsRaised := by
  cases hr : c.route with
  | none =>
      intro stop h
      rw [cycleBody_none hc hn hr] at h
      cases h
  | some r =>
      rw [cycleBody_some hc hn hr]
      have hroute : Logged.Within (fun _ => True) Stop.IsRaised (withRoute env index g r) := by
        refine Logged.within_bind (Logged.within_tell trivial) fun _ => ?_
        refine Logged.within_bind (within_ofPy _) fun plan => ?_
        refine Logged.within_bind (Logged.within_tellAll fun _ _ => trivial) fun _ => ?_
        refine Logged.within_bind (Logged.within_tellAll fun _ _ => trivial) fun _ => ?_
        refine Logged.within_bind (within_layPath (fun _ _ => trivial) _ _ _) fun _ => ?_
        exact Logged.within_pure _
      exact hroute.raises

/-! ## When a cycle triggers a handover -/

theorem interrupted_withRoute {plan : Handovers K}
    (h : planHandovers env.intermediateHopNum (g.shift r) r.nodeDelay = .ok plan) :
    Interrupted (withRoute env index g r).log ↔ plan.Triggered := by
  have hup : ¬ Interrupted [(.configLinkStatus (.s 0) (.s 1) true : Cmd K)] :=
    not_interrupted_of fun c hc hi => by rw [List.mem_singleton.mp hc] at hi; exact hi
  have hdel : ¬ Interrupted (delayedReport env index plan) :=
    not_interrupted_of fun c hc => (mem_delayedReport hc).1
  have hlay : ¬ Interrupted
      (layPath env.intermediateHopNum (routingPath r) r.nodeDelay).log :=
    not_interrupted_of fun c hc => not_interrupts_of_linkSetting (linkSetting_of_layPath hc)
  rw [withRoute_of_ok h, ← List.singleton_append, interrupted_append, interrupted_append,
    interrupted_append, interrupted_interruptions]
  simp only [hup, hdel, hlay, false_or, or_false]

theorem not_interrupted_aheadReports : ¬ Interrupted (aheadReports env index) :=
  not_interrupted_of fun _ hc => (mem_aheadReports hc).1

theorem not_interrupted_cycleBody (hc : env.linkInfo[index]? = some c) (hn : c.cycle = index + 1)
    (hr : c.route = none) : ¬ Interrupted (cycleBody env g index).log := by
  rw [cycleBody_none hc hn hr, interrupted_append, not_or]
  refine ⟨not_interrupted_aheadReports, not_interrupted_of fun c hc hi => ?_⟩
  rw [List.mem_singleton.mp hc] at hi
  exact hi

theorem interrupted_of_plan {plan : Handovers K} (hc : env.linkInfo[index]? = some c)
    (hn : c.cycle = index + 1) (hr : c.route = some r)
    (h : planHandovers env.intermediateHopNum (g.shift r) r.nodeDelay = .ok plan) :
    Interrupted (cycleBody env g index).log ↔ plan.Triggered := by
  rw [cycleBody_some hc hn hr, interrupted_append, interrupted_withRoute h]
  exact or_iff_right not_interrupted_aheadReports

/-- **A finished cycle triggers a handover exactly if there is one** from the route its
globals show to its own. -/
theorem interrupted_cycleBody {last : Option (Route K)} (hg : g.Shows last)
    (h : (cycleBody env g index).result = .ok g') :
    Interrupted (cycleBody env g index).log ↔ HasHandover last (routeAt env.linkInfo index) := by
  obtain ⟨c, hc, hn, ⟨hr, -⟩ | ⟨r, plan, hr, -, hp⟩⟩ := cycleBody_ok h
  · rw [show routeAt env.linkInfo index = none by simp [routeAt, hc, hr]]
    exact iff_of_false (not_interrupted_cycleBody hc hn hr) id
  · rw [routeAt_eq_some.mpr ⟨c, hc, hr⟩, interrupted_of_plan hc hn hr hp, planHandovers_ok hg hp]

/-! ## What the globals show -/

theorem shows_of_cycleBody (h : (cycleBody env g index).result = .ok g') :
    g'.Shows (routeAt env.linkInfo index) := by
  obtain ⟨c, hc, -, ⟨hr, rfl⟩ | ⟨r, plan, hr, rfl, -⟩⟩ := cycleBody_ok h
  · simp only [routeAt, hc, Option.bind_some, hr]
    exact shows_disconnect g
  · simp only [routeAt, hc, Option.bind_some, hr]
    exact shows_shift g r

/-! ## The run -/

variable {n : Nat} {d : Nat → K} {cycles : List (Cycle K)} {vs : List (CycleVisit K)}

theorem run_of_ok (h : updatePrecomputedLink n d cycles = .ok vs) :
    ∃ handovers g, precomputeHandovers Globals.start cycles = .ok (handovers, g) ∧
      vs = Logged.visits (cycleBody ⟨cycles, d, handovers, n⟩) g
        (List.range cycles.length) := by
  simp only [updatePrecomputedLink, bind_eq_ok, Prod.exists, Except.ok.injEq] at h
  obtain ⟨handovers, g, hpre, rfl⟩ := h
  exact ⟨handovers, g, hpre, rfl⟩

theorem run_eq {handovers : List Nat}
    (h : precomputeHandovers Globals.start cycles = .ok (handovers, g)) :
    updatePrecomputedLink n d cycles = .ok
      (Logged.visits (cycleBody ⟨cycles, d, handovers, n⟩) g (List.range cycles.length)) := by
  simp only [updatePrecomputedLink, h, ok_bind]

section Visits

variable {k m : Nat} {v : CycleVisit K}

/-- Visit `k` is the visit of cycle `k`. -/
theorem visit_input (hv : (Logged.visits (cycleBody env) g (List.range m))[k]? = some v) :
    k < m ∧ v.input = k ∧ v.done = cycleBody env v.before k := by
  obtain ⟨hx, hd⟩ := Logged.visits_input hv
  obtain ⟨hlt, hk⟩ := List.getElem?_eq_some_iff.mp hx
  rw [List.getElem_range] at hk
  rw [← hk] at hd
  exact ⟨by simpa using hlt, hk.symm, hd⟩

/-- **Before cycle `k + 1` the globals show cycle `k`.** -/
theorem shows_of_visit
    (hv : (Logged.visits (cycleBody env) g (List.range m))[k + 1]? = some v) :
    v.before.Shows (routeAt env.linkInfo k) := by
  obtain ⟨u, hu, hr⟩ := Logged.visits_succ hv
  obtain ⟨-, -, hd⟩ := visit_input hu
  rw [hd] at hr
  exact shows_of_cycleBody hr

end Visits

/-- **A numbered list is run through** without the early return. -/
theorem run_numbered (hnum : Numbered cycles) (hrun : updatePrecomputedLink n d cycles = .ok vs) :
    ∀ v ∈ vs, v.done.result ≠ .error .incorrectCycle := by
  obtain ⟨handovers, g, -, rfl⟩ := run_of_ok hrun
  intro v hv hstop
  obtain ⟨k, hk⟩ := List.mem_iff_getElem?.mp hv
  obtain ⟨hlt, -, hd⟩ := visit_input hk
  have hc := List.getElem?_eq_getElem hlt
  obtain ⟨e, he⟩ := @cycleBody_numbered K _ _ ⟨cycles, d, handovers, n⟩ _ _ _ hc (hnum k _ hc) _
    (hd ▸ hstop)
  cases he

end Body

end LeoEM
