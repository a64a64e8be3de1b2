/-
# `Emulator.ReadLinkInfo` — `read_link_info`

The path file is read line by line.  A line of fewer than five fields is a cycle without
a route; any other line is a cycle with the route its fields spell.  The largest
`node_num` becomes `intermediate_hop_num`, which starts at 0.
-/
import LeoEM.Base.Text
import LeoEM.LinkInfo
import Mathlib.Algebra.Order.Ring.Int

namespace LeoEM

open PyList

variable {K : Type}

/-- `literal_eval(text)` -/
def literalEval {α : Type} (c : Literal α) (text : List Char) : Except PyError α :=
  match c.literalEval text with
  | some x => .ok x
  | none => .error .valueError

/-- One line, with `intermediate_hop_num` before and behind it. -/
def readLine (delay : Scalar K) (line : List Char) (intermediateHopNum : Int) :
    Except PyError (Cycle K × Int) := do
  let values := line.splitOn '$'
  if values.length < 5 then
    let cycleRead ← literalEval Scalar.int.toLiteral (← getItem values 0)
    .ok (⟨cycleRead, none⟩, intermediateHopNum)
  else
    let cycleRead ← literalEval Scalar.int.toLiteral (← getItem values 0)
    let routingPathRead ← literalEval (Literal.list Scalar.int) (← getItem values 1)
    let nodeNumRead ← literalEval Scalar.int.toLiteral (← getItem values 2)
    let intermediateHopNum :=
      if nodeNumRead > intermediateHopNum then nodeNumRead else intermediateHopNum
    let nodeDelayRead ← literalEval (Literal.list delay) (← getItem values 3)
    let delaySumRead ← literalEval delay.toLiteral (← getItem values 4)
    .ok (⟨cycleRead, some ⟨routingPathRead, nodeNumRead, nodeDelayRead, delaySumRead⟩⟩,
      intermediateHopNum)

/-- The lines from one on. -/
def readFrom (delay : Scalar K) : List (List Char) → Int → Except PyError (List (Cycle K) × Int)
  | [], intermediateHopNum => .ok ([], intermediateHopNum)
  | line :: rest, intermediateHopNum => do
      let (cycle, intermediateHopNum) ← readLine delay line intermediateHopNum
      let (cycles, intermediateHopNum) ← readFrom delay rest intermediateHopNum
      .ok (cycle :: cycles, intermediateHopNum)

/-- `read_link_info`, with `intermediate_hop_num` behind it. -/
def readLinkInfo (delay : Scalar K) (text : List Char) : Except PyError (List (Cycle K) × Int) :=
  readFrom delay (fileLines text) 0

theorem literalEval_str {α : Type} (c : Literal α) (x : α) : literalEval c (c.str x) = .ok x := by
  rw [literalEval, c.eval_str]

theorem literalEval_line {α : Type} (c : Scalar α) (x : α) :
    literalEval c.toLiteral (c.str x ++ ['\n']) = .ok x := by
  rw [literalEval, c.eval_line]

/-- `intermediate_hop_num` behind a cycle. -/
def hopNum (intermediateHopNum : Int) (c : Cycle K) : Int :=
  c.route.elim intermediateHopNum fun r => max intermediateHopNum r.nodeNum

/-- If each line is read as a cycle, the file is read as the cycles. -/
theorem readFrom_eq {delay : Scalar K} {ι : Type} {line : ι → List Char} {cycle : ι → Cycle K} :
    ∀ {xs : List ι} {hop : Int}, (∀ x ∈ xs, ∀ hop, readLine delay (line x) hop =
        .ok (cycle x, hopNum hop (cycle x))) →
      readFrom delay (xs.map line) hop = .ok (xs.map cycle, (xs.map cycle).foldl hopNum hop) := by
  intro xs
  induction xs with
  | nil => intro hop _; rfl
  | cons x xs ih =>
      intro hop h
      simp only [List.map_cons, readFrom, h x List.mem_cons_self, ok_bind,
        ih fun y hy => h y (List.mem_cons_of_mem x hy), List.foldl_cons]

/-- `intermediate_hop_num` is the largest node count read. -/
theorem foldl_hopNum : ∀ {cycles : List (Cycle K)} {hop : Int},
    hop ≤ cycles.foldl hopNum hop ∧
    (∀ c ∈ cycles, ∀ r, c.route = some r → r.nodeNum ≤ cycles.foldl hopNum hop) ∧
    (cycles.foldl hopNum hop = hop ∨
      ∃ c ∈ cycles, ∃ r, c.route = some r ∧ r.nodeNum = cycles.foldl hopNum hop) := by
  intro cycles
  induction cycles with
  | nil =>
      intro hop
      exact ⟨le_refl hop, fun c hc => absurd hc List.not_mem_nil, Or.inl rfl⟩
  | cons c cycles ih =>
      intro hop
      obtain ⟨hle, hmem, hmax⟩ := @ih (hopNum hop c)
      have hstep : hop ≤ hopNum hop c ∧ (∀ r, c.route = some r → r.nodeNum ≤ hopNum hop c) ∧
          (hopNum hop c = hop ∨ ∃ r, c.route = some r ∧ r.nodeNum = hopNum hop c) := by
        cases hr : c.route with
        | none => simp [hopNum, hr]
        | some r =>
            simp only [hopNum, hr, Option.elim, Option.some.injEq, exists_eq_left', forall_eq']
            omega
      obtain ⟨h₁, h₂, h₃⟩ := hstep
      rw [List.foldl_cons]
      refine ⟨le_trans h₁ hle, ?_, ?_⟩
      · intro c' hc' r hr
        rcases List.mem_cons.mp hc' with rfl | hc'
        · exact le_trans (h₂ r hr) hle
        · exact hmem c' hc' r hr
      · rcases hmax with heq | ⟨c', hc', r, hr, hn⟩
        · rcases h₃ with h₃ | ⟨r, hr, hn⟩
          · exact Or.inl (heq.trans h₃)
          · exact Or.inr ⟨c, List.mem_cons_self, r, hr, hn.trans heq.symm⟩
        · exact Or.inr ⟨c', List.mem_cons_of_mem c hc', r, hr, hn⟩

end LeoEM
