/-
# `Emulator.Links` — which links are down

The main loop takes the link `s0 - s1` down for a cycle without a route and up again for
the next one with a route.  Between the two the workers of three pools take links down and
up, several at a time.  Every worker ends by taking its link up, so a pool leaves no link
down that was up before, in whatever order its workers run; and it starts when no link is
down.  So the links that are down behind a cycle are those its main loop took down
(`links_down`).
-/
import LeoEM.Base.Interleave
import LeoEM.Emulator.Oracle
import LeoEM.Emulator.Run
import Mathlib.Data.Finset.Insert
import Mathlib.Data.Sym.Sym2

namespace LeoEM

variable {K : Type}

/-- A call of `configLinkStatus`: a link, which has no direction, and its new status. -/
structure LinkAction where
  link : Sym2 NodeName
  up : Bool
  deriving DecidableEq

/-- The links that are down, behind one call. -/
def applyAction (down : Finset (Sym2 NodeName)) (a : LinkAction) : Finset (Sym2 NodeName) :=
  if a.up then down.erase a.link else insert a.link down

/-- The links that are down, behind a sequence of calls. -/
def downAfter (down : Finset (Sym2 NodeName)) (trace : List LinkAction) :
    Finset (Sym2 NodeName) :=
  trace.foldl applyAction down

/-- The calls of a worker: down, and up again. -/
def breakLink (src dst : NodeName) : List LinkAction :=
  [⟨s(src, dst), false⟩, ⟨s(src, dst), true⟩]

/-- The calls of `simulate_link_break`. -/
def simulateLinkBreak (i : Nat) : List LinkAction := breakLink (.s i) (.s (i + 1))

/-- The calls of `simulate_dish_gateway_sat_handover`. -/
def simulateDishGatewaySatHandover (e : EndHandover K) : List LinkAction :=
  breakLink e.dish e.sat

/-- A sequence of calls that a command can come to. -/
def Cmd.Calls : Cmd K → List LinkAction → Prop
  | .configLinkStatus src dst up, trace => trace = [⟨s(src, dst), up⟩]
  | .simulateLinkBreaks group, trace => Interleaving (group.map simulateLinkBreak) trace
  | .simulateEndHandovers nodes, trace =>
      Interleaving (nodes.map simulateDishGatewaySatHandover) trace
  | .reportHandoverStatus .., trace => trace = []
  | .setLinkProperties .., trace => trace = []

/-- A sequence of calls that a list of commands can come to; a pool is waited for. -/
inductive LogCalls : List (Cmd K) → List LinkAction → Prop
  | nil : LogCalls [] []
  | cons {c : Cmd K} {log : List (Cmd K)} {trace rest : List LinkAction} :
      c.Calls trace → LogCalls log rest → LogCalls (c :: log) (trace ++ rest)

/-! ## Calls that heal -/

/-- Every link that is taken down is taken up later. -/
def Heals (trace : List LinkAction) : Prop :=
  ∀ link, FollowedBy (· = LinkAction.mk link false) (· = LinkAction.mk link true) trace

theorem heals_nil : Heals [] := fun _ => trivial

theorem Heals.append {trace rest : List LinkAction} (h : Heals trace) (h' : Heals rest) :
    Heals (trace ++ rest) := fun link => (h link).append (h' link)

theorem heals_breakLink (src dst : NodeName) : Heals (breakLink src dst) := by
  intro link
  refine ⟨fun h => ⟨_, List.mem_cons_self, ?_⟩, fun h => ?_, trivial⟩
  · rw [← (LinkAction.mk.inj h).1]
  · exact absurd (LinkAction.mk.inj h).2 (Bool.false_ne_true ·.symm)

/-- A link that is down behind calls that heal it was down before, and they did not take it
up. -/
theorem mem_downAfter {link : Sym2 NodeName} : ∀ {trace : List LinkAction}
    {down : Finset (Sym2 NodeName)},
    FollowedBy (· = LinkAction.mk link false) (· = LinkAction.mk link true) trace →
    link ∈ downAfter down trace → link ∈ down ∧ LinkAction.mk link true ∉ trace := by
  intro trace
  induction trace with
  | nil => intro down _ h; exact ⟨h, List.not_mem_nil⟩
  | cons a trace ih =>
      rintro down ⟨ha, hrest⟩ h
      obtain ⟨hmem, hno⟩ := ih hrest (show link ∈ downAfter (applyAction down a) trace from h)
      obtain ⟨other, up⟩ := a
      cases up with
      | true =>
          obtain ⟨hne, hdown⟩ := Finset.mem_erase.mp hmem
          refine ⟨hdown, fun hup => ?_⟩
          rcases List.mem_cons.mp hup with heq | hup
          · exact hne (LinkAction.mk.inj heq).1
          · exact hno hup
      | false =>
          rcases Finset.mem_insert.mp hmem with rfl | hdown
          · obtain ⟨b, hb, rfl⟩ := ha rfl
            exact absurd hb hno
          · refine ⟨hdown, fun hup => ?_⟩
            rcases List.mem_cons.mp hup with heq | hup
            · exact absurd (LinkAction.mk.inj heq).2 (Bool.false_ne_true ·.symm)
            · exact hno hup

/-- **Behind calls that heal no further link is down.** -/
theorem downAfter_subset {trace : List LinkAction} {down : Finset (Sym2 NodeName)}
    (h : Heals trace) : downAfter down trace ⊆ down :=
  fun link hlink => (mem_downAfter (h link) hlink).1

theorem downAfter_append (down : Finset (Sym2 NodeName)) (trace rest : List LinkAction) :
    downAfter down (trace ++ rest) = downAfter (downAfter down trace) rest :=
  List.foldl_append

/-! ## The calls of a log -/

/-- There are calls that a log comes to: the workers of a pool may run one after the other. -/
theorem exists_logCalls : ∀ log : List (Cmd K), ∃ trace, LogCalls log trace := by
  intro log
  induction log with
  | nil => exact ⟨[], .nil⟩
  | cons c log ih =>
      obtain ⟨rest, hrest⟩ := ih
      have hc : ∃ trace, c.Calls trace := by
        cases c with
        | configLinkStatus src dst up => exact ⟨_, rfl⟩
        | simulateLinkBreaks group => exact ⟨_, .sequential _⟩
        | simulateEndHandovers nodes => exact ⟨_, .sequential _⟩
        | reportHandoverStatus _ _ _ => exact ⟨_, rfl⟩
        | setLinkProperties _ _ _ _ _ => exact ⟨_, rfl⟩
      obtain ⟨trace, htrace⟩ := hc
      exact ⟨_, .cons htrace hrest⟩

theorem logCalls_append : ∀ {log log' : List (Cmd K)} {trace : List LinkAction},
    LogCalls (log ++ log') trace ↔
      ∃ t t', trace = t ++ t' ∧ LogCalls log t ∧ LogCalls log' t' := by
  intro log log'
  induction log with
  | nil =>
      intro trace
      constructor
      · intro h
        exact ⟨[], trace, rfl, .nil, h⟩
      · rintro ⟨t, t', rfl, h, h'⟩
        cases h
        exact h'
  | cons c log ih =>
      intro trace
      constructor
      · intro h
        cases h with
        | @cons _ _ t rest hc hrest =>
            obtain ⟨t₁, t₂, rfl, h₁, h₂⟩ := ih.mp hrest
            exact ⟨t ++ t₁, t₂, (List.append_assoc _ _ _).symm, .cons hc h₁, h₂⟩
      · rintro ⟨t, t', rfl, h, h'⟩
        cases h with
        | @cons _ _ t₁ t₂ hc hrest =>
            rw [List.append_assoc]
            exact .cons hc (ih.mpr ⟨t₂, t', rfl, hrest, h'⟩)

theorem logCalls_singleton {c : Cmd K} {trace : List LinkAction} (h : LogCalls [c] trace) :
    c.Calls trace := by
  cases h with
  | cons hc hrest =>
      cases hrest
      rw [List.append_nil]
      exact hc

/-- A command whose calls always heal. -/
def Cmd.Healing (c : Cmd K) : Prop := ∀ trace, c.Calls trace → Heals trace

/-- Only the main loop's own calls do not heal: a pool's interleavings do, and the other
commands touch no link's status. -/
theorem healing_of_ne {c : Cmd K} (h : ∀ src dst up, c ≠ .configLinkStatus src dst up) :
    c.Healing := by
  intro trace hc
  cases c with
  | configLinkStatus src dst up => exact absurd rfl (h src dst up)
  | simulateLinkBreaks group =>
      intro link
      refine Interleaving.followed hc fun t ht => ?_
      obtain ⟨i, -, rfl⟩ := List.mem_map.mp ht
      exact heals_breakLink _ _ link
  | simulateEndHandovers nodes =>
      intro link
      refine Interleaving.followed hc fun t ht => ?_
      obtain ⟨e, -, rfl⟩ := List.mem_map.mp ht
      exact heals_breakLink _ _ link
  | reportHandoverStatus _ _ _ =>
      obtain rfl : trace = [] := hc
      exact heals_nil
  | setLinkProperties _ _ _ _ _ =>
      obtain rfl : trace = [] := hc
      exact heals_nil

theorem heals_of_logCalls : ∀ {log : List (Cmd K)} {trace : List LinkAction},
    (∀ c ∈ log, c.Healing) → LogCalls log trace → Heals trace := by
  intro log
  induction log with
  | nil =>
      intro trace _ h
      cases h
      exact heals_nil
  | cons c log ih =>
      intro trace hall h
      cases h with
      | cons hc hrest =>
          exact (hall c List.mem_cons_self _ hc).append
            (ih (fun c hc => hall c (List.mem_cons_of_mem _ hc)) hrest)

/-! ## One cycle -/

/-- The link the main loop takes down and up. -/
def serviceLink : Sym2 NodeName := s(.s 0, .s 1)

/-- The links that are down behind a cycle. -/
def downBehind (route : Option (Route K)) : Finset (Sym2 NodeName) :=
  match route with
  | none => {serviceLink}
  | some _ => ∅

theorem downBehind_subset (route : Option (Route K)) : downBehind route ⊆ {serviceLink} := by
  cases route with
  | none => exact Finset.Subset.refl _
  | some r => exact Finset.empty_subset _

section Cycle

variable [Field K] [LinearOrder K] {env : Env K} {g g' : Globals K} {index : Nat}
  {down : Finset (Sym2 NodeName)} {trace : List LinkAction}

theorem healing_aheadReports : ∀ c ∈ aheadReports env index, c.Healing := by
  intro c hc
  simp only [aheadReports, List.mem_append] at hc
  refine healing_of_ne fun src dst up heq => ?_
  subst heq
  rcases hc with (hc | hc) | hc <;> exact absurd (mem_lookAheadReport hc) (by simp)

theorem healing_delayedReport {plan : Handovers K} :
    ∀ c ∈ delayedReport env index plan, c.Healing := by
  intro c hc
  unfold delayedReport at hc
  refine healing_of_ne fun src dst up heq => ?_
  subst heq
  split at hc
  · exact absurd (List.mem_singleton.mp hc) (by simp)
  · exact absurd hc List.not_mem_nil

omit [Field K] [LinearOrder K] in
theorem healing_interruptions {plan : Handovers K} : ∀ c ∈ interruptions plan, c.Healing := by
  intro c hc
  refine healing_of_ne fun src dst up heq => ?_
  subst heq
  simp [interruptions] at hc

omit [Field K] [LinearOrder K] in
theorem healing_layPath {n : Nat} {path : List (Option Int)} {delays : List K} :
    ∀ c ∈ (layPath n path delays).log, c.Healing := by
  intro c hc
  have hset := linkSetting_of_layPath hc
  refine healing_of_ne fun src dst up heq => ?_
  subst heq
  cases hset

/-- **One cycle**: if only the service link may be down before it, behind it are down the
links that its route says. -/
theorem downAfter_cycle (h : (cycleBody env g index).result = .ok g')
    (hcalls : LogCalls (cycleBody env g index).log trace) (hdown : down ⊆ {serviceLink}) :
    downAfter down trace = downBehind (routeAt env.linkInfo index) := by
  obtain ⟨c, hc, hn, ⟨hr, -⟩ | ⟨r, plan, hr, -, hp⟩⟩ := cycleBody_ok h
  · rw [cycleBody_none hc hn hr] at hcalls
    obtain ⟨t, t', rfl, ht, ht'⟩ := logCalls_append.mp hcalls
    obtain rfl : t' = [⟨serviceLink, false⟩] := logCalls_singleton ht'
    rw [show routeAt env.linkInfo index = none by simp [routeAt, hc, hr], downAfter_append]
    have hsub := (downAfter_subset (heals_of_logCalls healing_aheadReports ht)).trans hdown
    exact Finset.Subset.antisymm
      (Finset.insert_subset (Finset.mem_singleton_self _) hsub)
      (Finset.singleton_subset_iff.mpr (Finset.mem_insert_self _ _))
  · rw [cycleBody_some hc hn hr, withRoute_of_ok hp] at hcalls
    obtain ⟨t, t', rfl, ht, ht'⟩ := logCalls_append.mp hcalls
    rw [routeAt_eq_some.mpr ⟨c, hc, hr⟩, downAfter_append]
    have hsub := (downAfter_subset (heals_of_logCalls healing_aheadReports ht)).trans hdown
    cases ht' with
    | @cons _ _ up rest hup hrest =>
        obtain rfl : up = [⟨serviceLink, true⟩] := hup
        have hrest' : Heals rest := by
          refine heals_of_logCalls (fun c hc => ?_) hrest
          rcases List.mem_append.mp hc with hc | hc
          · exact healing_delayedReport c hc
          · rcases List.mem_append.mp hc with hc | hc
            · exact healing_interruptions c hc
            · exact healing_layPath c hc
        rw [downAfter_append]
        refine Finset.subset_empty.mp ((downAfter_subset hrest').trans ?_)
        intro link hlink
        obtain ⟨hne, hmem⟩ := Finset.mem_erase.mp hlink
        exact absurd (Finset.mem_singleton.mp (hsub hmem)) hne

/-! ## The run -/

section Run

variable {m : Nat}

/-- Before visit `k` only the service link may be down, however the calls so far interleaved. -/
def ServiceOnly (vs : List (CycleVisit K)) (k : Nat) : Prop :=
  ∀ trace, LogCalls (Logged.logUpTo vs k) trace → downAfter ∅ trace ⊆ {serviceLink}

/-- What a visit leaves, behind all the calls so far. -/
theorem links_step {k : Nat} {v : CycleVisit K} {g'' : Globals K}
    (hv : (Logged.visits (cycleBody env) g (List.range m))[k]? = some v)
    (hr : v.done.result = .ok g'')
    (hbefore : ServiceOnly (Logged.visits (cycleBody env) g (List.range m)) k)
    (hcalls : LogCalls (Logged.logUpTo (Logged.visits (cycleBody env) g (List.range m)) (k + 1))
      trace) : downAfter ∅ trace = downBehind (routeAt env.linkInfo k) := by
  obtain ⟨-, -, hd⟩ := visit_input hv
  rw [Logged.logUpTo_succ hv] at hcalls
  obtain ⟨t, t', rfl, ht, ht'⟩ := logCalls_append.mp hcalls
  rw [hd] at hr ht'
  rw [downAfter_append]
  exact downAfter_cycle hr ht' (hbefore t ht)

theorem serviceOnly_run {k : Nat} {v : CycleVisit K}
    (hv : (Logged.visits (cycleBody env) g (List.range m))[k]? = some v) :
    ServiceOnly (Logged.visits (cycleBody env) g (List.range m)) k := by
  refine Logged.visits_inv
    (fun k _ => ServiceOnly (Logged.visits (cycleBody env) g (List.range m)) k) ?_ ?_ hv
  · intro trace htrace
    cases htrace
    exact Finset.empty_subset _
  · intro k v g'' hv hbefore hr trace htrace
    rw [links_step hv hr hbefore htrace]
    exact downBehind_subset _

end Run

/-- **Link status over whole runs.**  In every run over every list of cycles, however the
workers of each pool interleave, no link is down behind a cycle with a route, and behind one
without only `s0 - s1`. -/
theorem links_down (n : Nat) (d : Nat → K) (cycles : List (Cycle K)) (vs : List (CycleVisit K))
    (hrun : updatePrecomputedLink n d cycles = .ok vs) :
    ∀ (k : Nat) (v : CycleVisit K) (g' : Globals K) (trace : List LinkAction),
      vs[k]? = some v → v.done.result = .ok g' → LogCalls (Logged.logUpTo vs (k + 1)) trace →
        downAfter ∅ trace = downBehind (routeAt cycles k) := by
  obtain ⟨handovers, g, -, rfl⟩ := run_of_ok hrun
  intro k v g' trace hv hr hcalls
  exact links_step hv hr (serviceOnly_run hv) hcalls

end Cycle

/-- Three cycles over a chain of four switches: a route, none, and a route. -/
theorem links_down_threeCycles : ∃ vs v g' trace,
    updatePrecomputedLink 4 (fun _ => 1) threeCycles = .ok vs ∧ vs[2]? = some v ∧
      v.done.result = .ok g' ∧ LogCalls (Logged.logUpTo vs 3) trace ∧
      downAfter ∅ trace = downBehind (routeAt threeCycles 2) := by
  have hend : ∃ vs v g', updatePrecomputedLink 4 (fun _ => 1) threeCycles = .ok vs ∧
      vs[2]? = some v ∧ v.done.result = .ok g' := ⟨_, _, _, rfl, rfl, rfl⟩
  obtain ⟨vs, v, g', hrun, hv, hr⟩ := hend
  obtain ⟨trace, hcalls⟩ := exists_logCalls (Logged.logUpTo vs 3)
  exact ⟨vs, v, g', trace, hrun, hv, hr, hcalls,
    links_down 4 (fun _ => 1) threeCycles vs hrun 2 v g' trace hv hr hcalls⟩

end LeoEM
