/-
# `Emulator.Reports` — when a handover is reported

A handover of cycle `k` with prediction delay `x` is to be reported at time `k + x`.
The loop has four places for it:

    in cycle k - 3    -3 < x < -2    report_handover_status_asynchronously(1, 3 + x)
    in cycle k - 2    -2 < x < -1    report_handover_status_asynchronously(1, 2 + x)
    in cycle k - 1    -1 < x < 0     report_handover_status_asynchronously(1, 1 + x)
    in cycle k         0 ≤ x         report_handover_status_asynchronously(1, x)

`schedule` is this table, and the calls of a run for cycle `k` are the table's entries
if there is a handover, and none otherwise (`runReports_eq`).  The intervals do not
overlap, but `-1` and `-2` lie in none of them (`schedule_once`).
-/
import LeoEM.Emulator.Chain
import Mathlib.Tactic.Linarith
import Mathlib.Tactic.NormNum

namespace LeoEM

open PyList

variable {K : Type}

/-- The calls of a log for cycle `k`: the `w` of each
`report_handover_status_asynchronously(1, w)`. -/
def reportsFor (k : Nat) (log : List (Cmd K)) : List K :=
  log.filterMap fun c => c.report?.bind fun x => if x.1 = k then some x.2 else none

/-- The calls of a run for cycle `k`, each with the cycle that makes it. -/
def runReports (vs : List (CycleVisit K)) (k : Nat) : List (Nat × K) :=
  vs.zipIdx.flatMap fun x => (reportsFor k x.1.done.log).map fun w => (x.2, w)

/-- Cycle `k` is visited; if it triggers a handover, there is exactly one call for it, in
a cycle `i ≤ k`, and `i + w = k + d[k]`; if it triggers none, there is no call. -/
def ReportedOnce [Field K] (d : Nat → K) (vs : List (CycleVisit K)) (k : Nat) : Prop :=
  ∃ v, vs[k]? = some v ∧
    (Interrupted v.done.log → ∃ i w, runReports vs k = [(i, w)] ∧ i ≤ k ∧ (i : K) + w = k + d k) ∧
    (¬ Interrupted v.done.log → runReports vs k = [])

/-- Cycle `k` has a path that is not the path of the cycle before. -/
def PathChanges (cycles : List (Cycle K)) (k : Nat) : Prop :=
  ∃ r, routeAt cycles k = some r ∧
    ∀ last, routeAt cycles (k - 1) = some last → last.path ≠ r.path

theorem reportsFor_append (k : Nat) (log log' : List (Cmd K)) :
    reportsFor k (log ++ log') = reportsFor k log ++ reportsFor k log' := List.filterMap_append

theorem reportsFor_eq_nil {k : Nat} {log : List (Cmd K)} (h : ∀ c ∈ log, c.report? = none) :
    reportsFor k log = [] :=
  List.filterMap_eq_nil_iff.mpr fun c hc => by rw [h c hc]; rfl

/-! ## The four places -/

section Table

variable [Field K] [LinearOrder K]

/-- The calls for a handover of cycle `j + 3` with prediction delay `x`. -/
def schedule (j : Nat) (x : K) : List (Nat × K) :=
  (if -(3 : Nat) < x ∧ x < -(2 : Nat) then [(j, (3 : Nat) - -x)] else []) ++
  (if -(2 : Nat) < x ∧ x < -1 then [(j + 1, (2 : Nat) - -x)] else []) ++
  (if -1 < x ∧ x < 0 then [(j + 2, 1 - -x)] else []) ++
  (if 0 ≤ x then [(j + 3, x)] else [])

variable [IsStrictOrderedRing K]

/-- **The table has one entry for each delay**, at the right time, but for two delays. -/
theorem schedule_once (j : Nat) {x : K} (hx : -3 < x) :
    (∃ i w, schedule j x = [(i, w)] ∧ i ≤ j + 3 ∧ (i : K) + w = (j + 3 : Nat) + x) ↔
      x ≠ -1 ∧ x ≠ -2 := by
  constructor
  · rintro ⟨i, w, h, -⟩
    constructor
    · rintro rfl
      norm_num [schedule] at h
    · rintro rfl
      norm_num [schedule] at h
  · rintro ⟨h₁, h₂⟩
    rcases lt_or_gt_of_ne h₂ with h | h
    · refine ⟨j, 3 - -x, ?_, by omega, by push_cast; ring⟩
      simp only [schedule, Nat.cast_ofNat]
      rw [if_pos ⟨hx, h⟩, if_neg (by rintro ⟨h', -⟩; linarith),
        if_neg (by rintro ⟨h', -⟩; linarith), if_neg (by intro h'; linarith)]
      rfl
    rcases lt_or_gt_of_ne h₁ with h' | h'
    · refine ⟨j + 1, 2 - -x, ?_, by omega, by push_cast; ring⟩
      simp only [schedule, Nat.cast_ofNat]
      rw [if_neg (by rintro ⟨-, h''⟩; linarith), if_pos ⟨h, h'⟩,
        if_neg (by rintro ⟨h'', -⟩; linarith), if_neg (by intro h''; linarith)]
      rfl
    rcases lt_or_ge x 0 with h'' | h''
    · refine ⟨j + 2, 1 - -x, ?_, by omega, by push_cast; ring⟩
      simp only [schedule, Nat.cast_ofNat]
      rw [if_neg (by rintro ⟨-, h⟩; linarith), if_neg (by rintro ⟨-, h⟩; linarith),
        if_pos ⟨h', h''⟩, if_neg (by intro h; linarith)]
      rfl
    · refine ⟨j + 3, x, ?_, by omega, rfl⟩
      simp only [schedule, Nat.cast_ofNat]
      rw [if_neg (by rintro ⟨-, h⟩; linarith), if_neg (by rintro ⟨-, h⟩; linarith),
        if_neg (by rintro ⟨-, h⟩; linarith), if_pos h'']
      rfl

end Table

/-! ## The calls of one cycle -/

section Visits

variable [Field K] [LinearOrder K] {env : Env K} {g g' : Globals K} {index k : Nat}

theorem reportsFor_lookAhead (ahead : Nat) (lower upper : K) :
    reportsFor k (lookAheadReport env index ahead lower upper) =
      if index + ahead = k ∧ k < env.linkInfo.length ∧
          (lower < env.predictionDelays k ∧ env.predictionDelays k < upper) ∧
          env.handovers[k]? = some 1 then
        [(ahead : K) - -env.predictionDelays k]
      else [] := by
  by_cases hk : index + ahead = k
  · subst hk
    simp only [lookAheadReport, true_and]
    split
    · simp [reportsFor, Cmd.report?]
    · rfl
  · rw [if_neg (fun h => hk h.1)]
    refine List.filterMap_eq_nil_iff.mpr fun c hc => ?_
    rw [mem_lookAheadReport hc]
    simp [Cmd.report?, hk]

theorem reportsFor_delayed (plan : Handovers K) :
    reportsFor k (delayedReport env index plan) =
      if index = k ∧ plan.Triggered ∧ 0 ≤ env.predictionDelays k then [env.predictionDelays k]
      else [] := by
  by_cases hk : index = k
  · subst hk
    simp only [delayedReport, true_and]
    split
    · simp [reportsFor, Cmd.report?]
    · rfl
  · rw [if_neg (fun h => hk h.1)]
    simp only [delayedReport]
    split
    · simp [reportsFor, Cmd.report?, hk]
    · rfl

/-- **The calls of a finished cycle**: those ahead and its own. -/
theorem reportsFor_cycleBody (h : (cycleBody env g index).result = .ok g') :
    reportsFor k (cycleBody env g index).log = reportsFor k (aheadReports env index) ++
      if index = k ∧ Interrupted (cycleBody env g index).log ∧ 0 ≤ env.predictionDelays k then
        [env.predictionDelays k]
      else [] := by
  obtain ⟨c, hc, hn, ⟨hr, -⟩ | ⟨r, plan, hr, -, hp⟩⟩ := cycleBody_ok h
  · have hno := not_interrupted_cycleBody (g := g) hc hn hr
    rw [if_neg (fun h => hno h.2.1), cycleBody_none hc hn hr, reportsFor_append]
    rfl
  · have hint : ∀ c ∈ interruptions plan, c.report? = none := by
      intro c hc
      simp only [interruptions, List.mem_cons, List.not_mem_nil, or_false] at hc
      rcases hc with rfl | rfl | rfl <;> rfl
    have hlay : ∀ c ∈ (layPath env.intermediateHopNum (routingPath r) r.nodeDelay).log,
        c.report? = none := fun c hc => report?_of_linkSetting (linkSetting_of_layPath hc)
    simp only [interrupted_of_plan hc hn hr hp]
    rw [← reportsFor_delayed, cycleBody_some hc hn hr, reportsFor_append, withRoute_of_ok hp]
    congr 1
    show reportsFor k (delayedReport env index plan ++ (interruptions plan ++ _)) = _
    rw [reportsFor_append, reportsFor_append, reportsFor_eq_nil hint, reportsFor_eq_nil hlay,
      List.nil_append, List.append_nil]

end Visits

/-! ## Paths that change -/

theorem pathChanges_iff {cycles : List (Cycle K)} (h : SimplePaths 1 cycles) {k : Nat} :
    PathChanges cycles (k + 1) ↔ HasHandover (routeAt cycles k) (routeAt cycles (k + 1)) := by
  unfold PathChanges
  rw [Nat.add_sub_cancel]
  cases hr : routeAt cycles (k + 1) with
  | none => exact iff_of_false (fun ⟨_, hr', _⟩ => nomatch hr') id
  | some r =>
      rw [hasHandover_iff (fun _ => h.at) (h.at hr)]
      exact ⟨fun ⟨_, hr', hd⟩ => Option.some.inj hr' ▸ hd, fun hd => ⟨r, rfl, hd⟩⟩

/-- A path with two satellites can be compared with every path. -/
theorem SimplePath.not_wraps {r : Route K} {path : List (Option Int)} (h : SimplePath 2 r.path) :
    ¬ WrapsAtStart path (routingPath r) := by
  rintro ⟨x, hx, -⟩
  obtain ⟨mid, hp, -, hn⟩ := h
  rw [routingPath, inner_map, hp, inner_ends] at hx
  have := congrArg List.length hx
  simp at this
  omega

/-! ## The calls of a run -/

section Window

variable {β : Type}

/-- What the entries of a list give, by index. -/
theorem flatMap_zipIdx {ι : Type} {xs : List ι} {f : ι × Nat → List β} {g : Nat → List β}
    (h : ∀ i x, xs[i]? = some x → f (x, i) = g i) :
    xs.zipIdx.flatMap f = (List.range xs.length).flatMap g := by
  rw [List.flatMap_def, List.flatMap_def]
  congr 1
  refine List.ext_getElem (by simp) fun i h₁ h₂ => ?_
  have hi : i < xs.length := by simpa using h₁
  simp [h i xs[i] (List.getElem?_eq_getElem hi)]

/-- Four neighbouring indices give everything. -/
theorem flatMap_window {f : Nat → List β} {j n : Nat} (hj : j + 3 < n)
    (h : ∀ i, i < j ∨ j + 3 < i → f i = []) :
    (List.range n).flatMap f = f j ++ f (j + 1) ++ f (j + 2) ++ f (j + 3) := by
  obtain ⟨e, rfl⟩ := Nat.exists_eq_add_of_le hj
  have hbefore : (List.range j).flatMap f = [] :=
    List.flatMap_eq_nil_iff.mpr fun i hi => h i (Or.inl (List.mem_range.mp hi))
  have hbehind : ((List.range e).map (j + 4 + ·)).flatMap f = [] := by
    refine List.flatMap_eq_nil_iff.mpr fun i hi => ?_
    obtain ⟨i', -, rfl⟩ := List.mem_map.mp hi
    exact h _ (Or.inr (by omega))
  rw [List.range_add, List.flatMap_append, hbehind, List.append_nil, List.range_succ,
    List.range_succ, List.range_succ, List.range_succ]
  simp only [List.flatMap_append, hbefore, List.flatMap_singleton, List.nil_append]

end Window

section Runs

variable [Field K] [LinearOrder K] {env : Env K} {g : Globals K} {vs : List (CycleVisit K)}

/-- Every cycle of the list is visited and comes to its end. -/
def Finished (env : Env K) (vs : List (CycleVisit K)) : Prop :=
  vs.length = env.linkInfo.length ∧ ∀ i v, vs[i]? = some v →
    v.done = cycleBody env v.before i ∧ ∃ g', v.done.result = .ok g'

/-- **The calls of a run for a cycle are the table's**, if the cycle is decided alike
before the run and in it. -/
theorem runReports_eq {j : Nat} {v : CycleVisit K} (hfin : Finished env vs)
    (hv : vs[j + 3]? = some v)
    (hagree : env.handovers[j + 3]? = some 1 ↔ Interrupted v.done.log) :
    runReports vs (j + 3) =
      if Interrupted v.done.log then schedule j (env.predictionDelays (j + 3)) else [] := by
  have hj : j + 3 < vs.length := (List.getElem?_eq_some_iff.mp hv).1
  have hlt : j + 3 < env.linkInfo.length := hfin.1 ▸ hj
  -- the calls of cycle `i` for cycle `j + 3`
  let f : Nat → List (Nat × K) := fun i =>
    ((reportsFor (j + 3) (aheadReports env i)) ++
      if i = j + 3 ∧ Interrupted v.done.log ∧ 0 ≤ env.predictionDelays (j + 3) then
        [env.predictionDelays (j + 3)] else []).map fun w => (i, w)
  have hf : ∀ i u, vs[i]? = some u →
      ((reportsFor (j + 3) u.done.log).map fun w => (i, w)) = f i := by
    intro i u hu
    obtain ⟨hd, g', hok⟩ := hfin.2 i u hu
    simp only [f]
    rw [hd, reportsFor_cycleBody (hd ▸ hok), ← hd]
    by_cases hi : i = j + 3
    · subst hi
      obtain rfl : u = v := Option.some.inj (hu.symm.trans hv)
      rfl
    · rw [if_neg (fun h => hi h.1), if_neg (fun h => hi h.1)]
  have hahead : ∀ i, reportsFor (j + 3) (aheadReports env i) =
      reportsFor (j + 3) (lookAheadReport env i 1 (-1) 0) ++
        reportsFor (j + 3) (lookAheadReport env i 2 (-2) (-1)) ++
        reportsFor (j + 3) (lookAheadReport env i 3 (-3) (-2)) := by
    intro i
    rw [← reportsFor_append, ← reportsFor_append]
    rfl
  have hmap : ∀ (p : Prop) [Decidable p] (i : Nat) (w : K),
      (if p then [w] else []).map (fun w => (i, w)) = if p then [(i, w)] else [] := by
    intro p _ i w
    split <;> rfl
  rw [runReports, flatMap_zipIdx hf, flatMap_window hj]
  · by_cases h : Interrupted v.done.log
    · simp [f, hahead, reportsFor_lookAhead, hagree.mpr h, hlt, h, schedule, hmap]
    · simp [f, hahead, reportsFor_lookAhead, mt hagree.mp h, h]
  · intro i hi
    simp only [f, hahead, reportsFor_lookAhead]
    rw [if_neg (by omega), if_neg (by omega), if_neg (by omega), if_neg (by omega)]
    rfl

/-- The calls are in order exactly if a handover's delay has an entry in the table. -/
theorem reportedOnce_iff [IsStrictOrderedRing K] {j : Nat} {v : CycleVisit K}
    (hfin : Finished env vs) (hv : vs[j + 3]? = some v)
    (hagree : env.handovers[j + 3]? = some 1 ↔ Interrupted v.done.log)
    (hd : -3 < env.predictionDelays (j + 3)) :
    ReportedOnce env.predictionDelays vs (j + 3) ↔ (Interrupted v.done.log →
      env.predictionDelays (j + 3) ≠ -1 ∧ env.predictionDelays (j + 3) ≠ -2) := by
  have heq := runReports_eq hfin hv hagree
  constructor
  · rintro ⟨v', hv', hone, -⟩ h
    obtain rfl : v' = v := Option.some.inj (hv'.symm.trans hv)
    rw [heq, if_pos h] at hone
    exact (schedule_once j hd).mp (hone h)
  · intro h
    refine ⟨v, hv, fun hi => ?_, fun hi => by rw [heq, if_neg hi]⟩
    rw [heq, if_pos hi]
    exact (schedule_once j hd).mpr (h hi)

theorem finished_of_not_wraps {cycles : List (Cycle K)} {handovers : List Nat} {N : Nat}
    (d : Nat → K) (hnum : Numbered cycles) (hfit : RoutesFit N cycles)
    (hpre : precomputeHandovers Globals.start cycles = .ok (handovers, g))
    (hw : ∀ k r, routeAt cycles k = some r →
      ¬ WrapsAtStart (comparedPath cycles k) (routingPath r)) :
    Finished ⟨cycles, d, handovers, N⟩ (Logged.visits (cycleBody ⟨cycles, d, handovers, N⟩) g
      (List.range cycles.length)) := by
  have hall := fun k hk => visits_of_not_wraps (k := k) d hnum hfit hpre hw hk
  constructor
  · refine Nat.le_antisymm (Nat.not_lt.mp fun h => ?_) (Nat.not_lt.mp fun h => ?_)
    · have := Logged.visits_lt (List.getElem?_eq_getElem h)
      simp at this
    · obtain ⟨v, g', hv, -⟩ := hall _ h
      exact absurd (List.getElem?_eq_some_iff.mp hv).1 (Nat.lt_irrefl _)
  · intro i v hv
    obtain ⟨hi, -, -⟩ := visit_input hv
    obtain ⟨v', g', hv', hd, hok⟩ := hall i hi
    obtain rfl : v' = v := Option.some.inj (hv'.symm.trans hv)
    exact ⟨hd, g', hok⟩

/-- **Every handover is reported once, at its predicted time**, from cycle 3 on, exactly if
no cycle whose path changes has a prediction delay of -1 or -2. -/
theorem reported_once_iff [IsStrictOrderedRing K] {cycles : List (Cycle K)} {N : Nat}
    (d : Nat → K) (hnum : Numbered cycles) (hsimple : SimplePaths 2 cycles)
    (hfit : RoutesFit N cycles) (hd : ∀ k, k < cycles.length → -3 < d k) :
    ∃ vs, updatePrecomputedLink N d cycles = .ok vs ∧
      ((∀ k, 3 ≤ k → k < cycles.length → ReportedOnce d vs k) ↔
        ∀ k, 3 ≤ k → k < cycles.length → PathChanges cycles k → d k ≠ -1 ∧ d k ≠ -2) := by
  obtain ⟨handovers, g, hpre⟩ := precomputeHandovers_total Globals.start
    fun c hc r hr => (hfit c hc r hr).nodes
  refine ⟨_, run_eq hpre, ?_⟩
  have hfin := finished_of_not_wraps d hnum hfit hpre fun k r hr => (hsimple.at hr).not_wraps
  have hcycle : ∀ k, 3 ≤ k → k < cycles.length → (ReportedOnce d (Logged.visits
      (cycleBody ⟨cycles, d, handovers, N⟩) g (List.range cycles.length)) k ↔
        (PathChanges cycles k → d k ≠ -1 ∧ d k ≠ -2)) := by
    intro k hk hlt
    obtain ⟨j, rfl⟩ := Nat.exists_eq_add_of_le' hk
    obtain ⟨v, hv⟩ : ∃ v, (Logged.visits (cycleBody ⟨cycles, d, handovers, N⟩) g
        (List.range cycles.length))[j + 3]? = some v :=
      ⟨_, List.getElem?_eq_getElem (by rw [hfin.1]; exact hlt)⟩
    obtain ⟨hdone, g', hok⟩ := hfin.2 _ v hv
    have hinter : Interrupted v.done.log ↔ PathChanges cycles (j + 3) := by
      rw [pathChanges_iff (hsimple.mono (Nat.le_succ 1)), hdone]
      exact interrupted_cycleBody (shows_of_visit hv) (hdone ▸ hok)
    have hagree : handovers[j + 3]? = some 1 ↔ Interrupted v.done.log := by
      rw [hinter, pathChanges_iff (hsimple.mono (Nat.le_succ 1))]
      exact precomputeHandovers_ok hpre hlt
    rw [← hinter]
    exact reportedOnce_iff hfin hv hagree (hd _ hlt)
  exact forall_congr' fun k => forall_congr' fun hk => forall_congr' fun hlt => hcycle k hk hlt

/-- Three cycles without a path, and one with a path. -/
def lateStart : List (Cycle Rat) :=
  [⟨1, none⟩, ⟨2, none⟩, ⟨3, none⟩, ⟨4, some ⟨[-1, 1, 2, -2], 4, [1, 2, 1], 4⟩⟩]

theorem lateStart_numbered : Numbered lateStart := by
  intro k c hc
  match k, hc with
  | 0, hc | 1, hc | 2, hc | 3, hc => obtain rfl := Option.some.inj hc; rfl

theorem lateStart_routes {c : Cycle Rat} {r : Route Rat} (hc : c ∈ lateStart)
    (hr : c.route = some r) : r = ⟨[-1, 1, 2, -2], 4, [1, 2, 1], 4⟩ := by
  simp only [lateStart, List.mem_cons, List.not_mem_nil, or_false] at hc
  rcases hc with rfl | rfl | rfl | rfl
  · cases hr
  · cases hr
  · cases hr
  · exact (Option.some.inj hr).symm

theorem reported_once_iff_lateStart : ∃ vs,
    updatePrecomputedLink 4 (fun _ => 0) lateStart = .ok vs ∧
    ((∀ k, 3 ≤ k → k < lateStart.length → ReportedOnce (fun _ => 0) vs k) ↔
      ∀ k, 3 ≤ k → k < lateStart.length → PathChanges lateStart k →
        (0 : Rat) ≠ -1 ∧ (0 : Rat) ≠ -2) :=
  reported_once_iff (fun _ => 0) lateStart_numbered
    (fun _ hc _ hr => lateStart_routes hc hr ▸ ⟨[1, 2], rfl, by decide, by decide⟩)
    (fun _ hc _ hr => lateStart_routes hc hr ▸ ⟨by decide, by decide, rfl⟩)
    (fun _ _ => by norm_num)

/-- With a prediction delay of -1 nobody reports the handover of cycle 3. -/
theorem lateStart_not_reported : ∃ vs v,
    updatePrecomputedLink 4 (fun _ => -1) lateStart = .ok vs ∧ vs[3]? = some v ∧
    Interrupted v.done.log ∧ runReports vs 3 = [] ∧ ¬ ReportedOnce (fun _ => -1) vs 3 := by
  have hrun : ∃ vs v, updatePrecomputedLink 4 (fun _ => (-1 : Rat)) lateStart = .ok vs ∧
      vs[3]? = some v ∧ Interrupted v.done.log ∧ runReports vs 3 = [] :=
    ⟨_, _, rfl, rfl, by decide, by decide⟩
  obtain ⟨vs, v, hrun, hv, hinter, hnil⟩ := hrun
  refine ⟨vs, v, hrun, hv, hinter, hnil, ?_⟩
  rintro ⟨v', hv', hone, -⟩
  obtain rfl : v' = v := Option.some.inj (hv'.symm.trans hv)
  obtain ⟨i, w, h, -⟩ := hone hinter
  rw [hnil] at h
  cases h

end Runs

end LeoEM
