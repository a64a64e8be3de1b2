/-
# `Route.Utility` — `utility.py`, as the route stage uses it

Distances, latencies and `pathExists`.  Numbers are of a field `K` with a square root
of which nothing is assumed.  `networkx` is a `PathFinder` on graphs whose nodes are
numbers.
-/
import LeoEM.Base.Graph
import Mathlib.Algebra.Order.Field.Basic

namespace LeoEM

variable {K : Type}

/-- `math.sqrt` -/
class MathSqrt (K : Type) where
  sqrt : K → K

/-- Coordinates `(x, y, z)`. -/
structure Point (K : Type) where
  x : K
  y : K
  z : K
  deriving DecidableEq, Repr

section Distance

variable [Field K] [LinearOrder K] [MathSqrt K]

/-- `checkSatCoverGroundStation` -/
def checkSatCoverGroundStation (sat gs : Point K) (L : K) : Bool :=
  let dist := MathSqrt.sqrt ((sat.x - gs.x) ^ 2 + (sat.y - gs.y) ^ 2 + (sat.z - gs.z) ^ 2)
  dist ≤ L

omit [LinearOrder K] in
/-- `computeLatency`; the second coordinate stands where the third should. -/
def computeLatency (a b : Point K) : K :=
  let dist := MathSqrt.sqrt ((a.x - b.x) ^ 2 + (a.y - b.y) ^ 2 + (a.y - b.y) ^ 2)
  dist / (3 * 10 ^ 8 : Nat)

end Distance

/-- `networkx`: `has_path` and `dijkstra_path`. -/
abbrev NetworkX (K : Type) := PathFinder Nat K

/-- `pathExists` -/
def pathExists (nx : NetworkX K) (gw1 gw2 : Int) (G : WGraph Nat K) : Bool :=
  if gw1 = -1 ∨ gw2 = -1 then false else nx.hasPath G gw1.toNat gw2.toNat

end LeoEM
