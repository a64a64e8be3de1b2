/-
# `RoundTrip` — the path file is read back as it was written

The route stage writes a line a cycle and the emulation stage reads the lines.  A line is
its fields between dollar signs and a newline (`lineFields`).  No field has either of the
two, so the lines are those of the cycles, and the fields of a line those that were
written (`readLine_lineWrites`): two for a cycle without a route and five for one with a
route, which is what the reader goes by.

`readLinkInfo_outputFile`: the entries read from the file of a run are the cycles of the
run, in order and numbered from 1, and the counts of each fit together.
-/
import LeoEM.Emulator.Chain
import LeoEM.Emulator.ReadLinkInfo
import LeoEM.Route.Writer

namespace LeoEM

open PyList

variable {n : Nat} {K : Type}

/-! ## One line -/

/-- The fields of a line. -/
def lineFields (delay : Scalar K) (cycle : Int) : Option (Route K) → List (List Char)
  | some r => [Scalar.int.str cycle, (Literal.list Scalar.int).str r.path,
      Scalar.int.str r.nodeNum, (Literal.list delay).str r.nodeDelay, delay.str r.delaySum]
  | none => [Scalar.int.str cycle, ['N', 'U', 'L', 'L']]

section Line

variable {delay : Scalar K} {cycle : Int} {route : Option (Route K)}

theorem flatten_lineWrites : (lineWrites delay cycle route).flatten =
    ['$'].intercalate (lineFields delay cycle route) ++ ['\n'] := by
  cases route <;> simp [lineWrites, lineFields, List.intercalate_cons_cons]

/-- No field has a separator in it. -/
theorem mem_lineFields {f : List Char} (h : f ∈ lineFields delay cycle route) :
    '$' ∉ f ∧ '\n' ∉ f := by
  cases route with
  | none =>
      simp only [lineFields, List.mem_cons, List.not_mem_nil, or_false] at h
      rcases h with rfl | rfl
      · exact Scalar.int.inField cycle
      · decide
  | some r =>
      simp only [lineFields, List.mem_cons, List.not_mem_nil, or_false] at h
      rcases h with rfl | rfl | rfl | rfl | rfl
      · exact Scalar.int.inField cycle
      · exact (Literal.list Scalar.int).inField r.path
      · exact Scalar.int.inField r.nodeNum
      · exact (Literal.list delay).inField r.nodeDelay
      · exact delay.inField r.delaySum

/-- A line ends at its newline and not before. -/
theorem newline_not_mem : '\n' ∉ ['$'].intercalate (lineFields delay cycle route) :=
  Literal.not_mem_intercalate (by decide) fun _ hf => (mem_lineFields hf).2

/-- **A line is read as the cycle it was written for.** -/
theorem readLine_lineWrites (hop : Int) :
    readLine delay (lineWrites delay cycle route).flatten hop =
      .ok (⟨cycle, route⟩, hopNum hop ⟨cycle, route⟩) := by
  have hvalues : (lineWrites delay cycle route).flatten.splitOn '$' =
      endLine (lineFields delay cycle route) := by
    rw [flatten_lineWrites]
    refine splitOn_line (by decide) ?_ fun f hf => (mem_lineFields hf).1
    cases route <;> exact List.cons_ne_nil _ _
  cases route with
  | none =>
      have hcycle : getItem (endLine (lineFields delay cycle none)) 0 =
          .ok (Scalar.int.str cycle) := rfl
      simp only [readLine, hvalues, hcycle, ok_bind, literalEval_str]
      rfl
  | some r =>
      have hlong : ¬ (endLine (lineFields delay cycle (some r))).length < 5 := Nat.lt_irrefl 5
      have h₀ : getItem (endLine (lineFields delay cycle (some r))) 0 =
          .ok (Scalar.int.str cycle) := rfl
      have h₁ : getItem (endLine (lineFields delay cycle (some r))) 1 =
          .ok ((Literal.list Scalar.int).str r.path) := rfl
      have h₂ : getItem (endLine (lineFields delay cycle (some r))) 2 =
          .ok (Scalar.int.str r.nodeNum) := rfl
      have h₃ : getItem (endLine (lineFields delay cycle (some r))) 3 =
          .ok ((Literal.list delay).str r.nodeDelay) := rfl
      have h₄ : getItem (endLine (lineFields delay cycle (some r))) 4 =
          .ok (delay.str r.delaySum ++ ['\n']) := rfl
      have hmax : (if r.nodeNum > hop then r.nodeNum else hop) = max hop r.nodeNum := by
        split <;> omega
      simp only [readLine, hvalues, if_neg hlong, h₀, h₁, h₂, h₃, h₄, ok_bind,
        literalEval_str, literalEval_line, hmax]
      rfl

end Line

/-! ## The file of a run -/

/-- What is read for a cycle of a run. -/
def entry [Field K] [LinearOrder K] (nx : NetworkX K) (v : RouteVisit n K) : Cycle K :=
  ⟨v.input.2, lineRoute nx v.input.1 v.before⟩

/-- `intermediate_hop_num` is the largest `node_num`, and 0 if no entry has a route. -/
def LargestNodeNum (cycles : List (Cycle K)) (intermediateHopNum : Int) : Prop :=
  (∀ c ∈ cycles, ∀ r, c.route = some r → r.nodeNum ≤ intermediateHopNum) ∧
    ((∃ c ∈ cycles, ∃ r, c.route = some r ∧ r.nodeNum = intermediateHopNum) ∨
      (∀ c ∈ cycles, c.route = none) ∧ intermediateHopNum = 0)

section Run

variable [Field K] [LinearOrder K]

/-- **The entries read are those of the cycles**, one behind the other. -/
theorem readLinkInfo_entries (nx : NetworkX K) (delay : Scalar K)
    (inputs : List (CycleInput n K)) :
    readLinkInfo delay (outputFile (routeRun nx delay inputs)) =
      .ok ((routeRun nx delay inputs).map (entry nx),
        ((routeRun nx delay inputs).map (entry nx)).foldl hopNum 0) := by
  let body (v : RouteVisit n K) : List Char :=
    ['$'].intercalate (lineFields delay v.input.2 (lineRoute nx v.input.1 v.before))
  have hlines : outputFile (routeRun nx delay inputs) =
      (routeRun nx delay inputs).flatMap fun v => body v ++ ['\n'] := by
    rw [outputFile, List.flatten_eq_flatMap, List.flatMap_assoc]
    refine List.flatMap_congr fun v hv => ?_
    obtain ⟨k, hk⟩ := List.mem_iff_getElem?.mp hv
    rw [routeRun_log hk, ← List.flatten_eq_flatMap]
    exact flatten_lineWrites
  rw [readLinkInfo, hlines, fileLines_flatMap fun v _ => newline_not_mem]
  refine readFrom_eq fun v _ hop => ?_
  rw [show body v ++ ['\n'] = _ from flatten_lineWrites.symm]
  exact readLine_lineWrites hop

section Entries

variable {nx : NetworkX K} {delay : Scalar K} {inputs : List (CycleInput n K)} {k : Nat}
  {c : Cycle K} {r : Route K}

/-- The entries are numbered from 1. -/
theorem entries_numbered : Numbered ((routeRun nx delay inputs).map (entry nx)) := by
  intro k c hc
  rw [List.getElem?_map] at hc
  obtain ⟨v, hv, rfl⟩ := Option.map_eq_some_iff.mp hc
  rw [entry, (routeRun_input hv).2]
  exact Nat.cast_succ k

/-- A route that is read is one between two gateways. -/
theorem between_of_entry (hc : c ∈ (routeRun nx delay inputs).map (entry nx))
    (hr : c.route = some r) : ∃ inp s₁ s₂ nodes weights,
      Between (n := n) inp s₁ s₂ r nodes weights := by
  obtain ⟨v, -, rfl⟩ := List.mem_map.mp hc
  rcases lineRoute_cases nx v.input.1 v.before with
    ⟨s₁, s₂, r', nodes, weights, -, -, hr', hb, -⟩ | ⟨-, hnone⟩
  · obtain rfl : r' = r := Option.some.inj (hr'.symm.trans hr)
    exact ⟨_, s₁, s₂, nodes, weights, hb⟩
  · cases hnone.symm.trans hr

/-- The routes are simple paths. -/
theorem entries_simple : SimplePaths 1 ((routeRun nx delay inputs).map (entry nx)) := by
  intro c hc r hr
  obtain ⟨_, _, _, _, _, hb⟩ := between_of_entry hc hr
  exact hb.simple

/-- Their counts fit together. -/
theorem entries_counts (hc : c ∈ (routeRun nx delay inputs).map (entry nx))
    (hr : c.route = some r) :
    r.nodeNum = r.path.length ∧ r.path.length = r.nodeDelay.length + 1 := by
  obtain ⟨_, _, _, _, _, hb⟩ := between_of_entry hc hr
  exact hb.counts

theorem entries_largest : LargestNodeNum ((routeRun nx delay inputs).map (entry nx))
    (((routeRun nx delay inputs).map (entry nx)).foldl hopNum 0) := by
  obtain ⟨-, hle, hmax⟩ := @foldl_hopNum K ((routeRun nx delay inputs).map (entry nx)) 0
  refine ⟨hle, ?_⟩
  rcases hmax with hzero | hmax
  · refine Or.inr ⟨fun c hc => ?_, hzero⟩
    cases hr : c.route with
    | none => rfl
    | some r =>
        have hnum := hle c hc r hr
        rw [hzero, (entries_counts hc hr).1] at hnum
        have hlen := (entries_simple c hc r hr).length
        omega
  · exact Or.inl hmax

/-- The routes fit a chain of as many switches as the largest of them has nodes. -/
theorem entries_fit : RoutesFit (((routeRun nx delay inputs).map (entry nx)).foldl hopNum 0).toNat
    ((routeRun nx delay inputs).map (entry nx)) := by
  intro c hc r hr
  obtain ⟨hnum, hlen⟩ := entries_counts hc hr
  have hle := entries_largest.1 c hc r hr
  exact ⟨(entries_simple c hc r hr).length, by omega, hlen.symm⟩

end Entries

/-- **The path file is read back as it was written.**  A run writes a line a cycle, and of
line `k + 1` comes entry `k + 1`, with the route of the cycle if it has one; its counts fit
together, the largest becomes `intermediate_hop_num`, and the emulator finds every cycle
where it looks for it. -/
theorem readLinkInfo_outputFile (nx : NetworkX K) (delay : Scalar K)
    (inputs : List (CycleInput n K)) : ∃ cycles intermediateHopNum,
      readLinkInfo delay (outputFile (routeRun nx delay inputs)) =
        .ok (cycles, intermediateHopNum) ∧
      (routeRun nx delay inputs).length = inputs.length ∧ cycles.length = inputs.length ∧
      (∀ (k : Nat) (v : RouteVisit n K), (routeRun nx delay inputs)[k]? = some v →
        v.done.log = lineWrites delay (k + 1) (lineRoute nx v.input.1 v.before) ∧
          cycles[k]? = some ⟨k + 1, lineRoute nx v.input.1 v.before⟩) ∧
      (∀ c ∈ cycles, ∀ r, c.route = some r →
        r.nodeNum = r.path.length ∧ r.path.length = r.nodeDelay.length + 1) ∧
      LargestNodeNum cycles intermediateHopNum ∧
      ∀ N d, ∃ vs, updatePrecomputedLink N d cycles = .ok vs ∧
        ∀ v ∈ vs, v.done.result ≠ .error .incorrectCycle := by
  refine ⟨_, _, readLinkInfo_entries nx delay inputs, routeRun_length nx delay inputs, ?_, ?_,
    fun c hc r hr => entries_counts hc hr, entries_largest, ?_⟩
  · rw [List.length_map, routeRun_length]
  · intro k v hv
    have hcycle : (v.input.2 : Int) = k + 1 := by
      rw [(routeRun_input hv).2]
      exact Nat.cast_succ k
    rw [List.getElem?_map, hv, routeRun_log hv, hcycle]
    exact ⟨rfl, congrArg (fun i => some (Cycle.mk i _)) hcycle⟩
  · intro N d
    obtain ⟨handovers, g, hpre⟩ := precomputeHandovers_total Globals.start
      (@entries_simple n K _ _ nx delay inputs).longer
    exact ⟨_, run_eq hpre, run_numbered entries_numbered (run_eq hpre)⟩

/-- The two satellites, and then without the link between them. -/
def linkLost : List (CycleInput 2 Rat) := [twoSats, { twoSats with graph := ⟨[0, 1], []⟩ }]

theorem readLinkInfo_linkLost :
    outputFile (routeRun WGraph.searchFinder Scalar.rat linkLost) =
        "1$[-1, 0, 1, -2]$4$[1.0, 3.0, 2.0]$6.0\n2$NULL\n".toList ∧
      ∃ cycles intermediateHopNum,
        readLinkInfo Scalar.rat (outputFile (routeRun WGraph.searchFinder Scalar.rat linkLost)) =
          .ok (cycles, intermediateHopNum) ∧
        cycles[0]? = some ⟨1, some ⟨[-1, 0, 1, -2], 4, [1, 3, 2], 6⟩⟩ ∧
        cycles[1]? = some ⟨2, none⟩ ∧ cycles.length = 2 := by
  refine ⟨by decide +kernel, ?_⟩
  obtain ⟨cycles, hop, hread, -, hlen, hentry, -⟩ :=
    readLinkInfo_outputFile WGraph.searchFinder Scalar.rat linkLost
  refine ⟨cycles, hop, hread, (hentry 0 _ rfl).2.trans ?_, (hentry 1 _ rfl).2.trans ?_, hlen⟩
  · decide +kernel
  · decide +kernel

end Run

end LeoEM
