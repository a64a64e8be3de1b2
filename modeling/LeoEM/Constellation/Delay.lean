/-
# `Constellation.Delay` — the delay matrix of a constellation

`Create_LEO.m` numbers the satellites plane by plane and spreads the planes over 360
degrees, or over 180 if the constellation is polar.  `Create_delay.m` links each satellite
with the next one of its plane and with its neighbour in the next plane, and writes the
delay of a link into the matrix twice.  Indices count from 1, as in the source.

What the loops leave in the matrix depends on the pairs they link alone
(`createDelay_apply`), so the matrix is symmetric.
-/
import LeoEM.Base.Table
import LeoEM.Route.Utility
import Mathlib.Tactic.Ring

namespace LeoEM

variable {K : Type} [Field K] [LinearOrder K]

/-- A square root that is positive where it should be. -/
class LawfulSqrt (K : Type) [Field K] [LinearOrder K] [MathSqrt K] : Prop where
  sqrt_pos : ∀ x : K, 0 < x → 0 < MathSqrt.sqrt x

/-- Both tests of the inclination: strictly between 80 and 100. -/
def Polar (inc : K) : Prop := ((80 : Nat) : K) < inc ∧ inc < ((100 : Nat) : K)

instance (inc : K) : Decidable (Polar inc) := inferInstanceAs (Decidable (_ ∧ _))

/-- `dtr = pi/180`, with the `pi` of the machine. -/
def dtr : K :=
  ((884279719003555 : Nat) : K) / ((281474976710656 : Nat) : K) / ((180 : Nat) : K)

/-- The rows of the parameter file that shape the constellation: the inclination in
degrees, the number of planes and the satellites in each. -/
structure Parameter (K : Type) where
  inc : K
  leoPlane : Nat
  no : Nat

/-- `No_leo` of `Create_LEO`. -/
def Parameter.noLeo (p : Parameter K) : Nat := p.leoPlane * p.no

/-- `raan` of `Create_LEO`, in degrees: where the planes cross the equator. -/
def Parameter.raan (p : Parameter K) : List K :=
  let span : Nat := if Polar p.inc then 180 else 360
  (List.range p.leoPlane).map fun i : Nat => (span : K) / (p.leoPlane : K) * (i : K)

/-! ## `Create_delay` -/

/-- The two matrices of `Create_delay`. -/
structure Matrices (K : Type) where
  distance : Table Nat K
  delay : Table Nat K

def Matrices.zeros : Matrices K := ⟨fun _ _ => 0, fun _ _ => 0⟩

variable [MathSqrt K]

omit [LinearOrder K] in
/-- The distance of two positions, in metres. -/
def leoDistance (a b : Point K) : K :=
  MathSqrt.sqrt ((a.x - b.x) ^ 2 + (a.y - b.y) ^ 2 + (a.z - b.z) ^ 2)

/-- The four assignments that link two nodes; a delay is in milliseconds. -/
def Matrices.link (position : Nat → Point K) (m : Matrices K) (a b : Nat) : Matrices K :=
  let dist := m.distance.setBoth a b (leoDistance (position a) (position b))
  ⟨dist, m.delay.setBoth a b (dist a b / (3 * 10 ^ 5 : Nat))⟩

/-- `up_leo`: the next satellite of the plane. -/
def upLeo (no i j : Nat) : Nat := if j ≠ no then (i - 1) * no + j + 1 else (i - 1) * no + 1

/-- `right_leo`: the neighbour in the next plane, if there is one. -/
def rightLeo (leoPlane no : Nat) (inc : K) (i j : Nat) : Option Nat :=
  if i ≠ leoPlane then some (i * no + j)
  else if Polar inc then none
  else some j

/-- One round of the loop over the satellites. -/
def satelliteStep (position : Nat → Point K) (leoPlane no : Nat) (inc : K) (i j : Nat)
    (m : Matrices K) : Matrices K :=
  let curLeo := (i - 1) * no + j
  let m := m.link position curLeo (upLeo no i j)
  match rightLeo leoPlane no inc i j with
  | none => m -- `continue`
  | some right => m.link position curLeo right

def createDelay (noLeo noFac leoPlane : Nat) (position : Nat → Point K) (inc : K) : Table Nat K :=
  let no := noLeo / leoPlane
  let m := (List.range' 1 leoPlane).foldl (fun m i =>
    (List.range' 1 no).foldl (fun m j => satelliteStep position leoPlane no inc i j m) m) .zeros
  let m := (List.range' 1 noLeo).foldl (fun m i =>
    (List.range' (noLeo + 1) noFac).foldl (fun m j => m.link position i j) m) m
  m.delay

/-- The matrix `build_constellation` saves for a cycle: it hands the inclination over in
radians. -/
def buildConstellation (p : Parameter K) (noFac : Nat) (position : Nat → Point K) :
    Table Nat K :=
  createDelay p.noLeo noFac p.leoPlane position (p.inc * dtr)

/-! ## What the loops leave -/

/-- The pairs that a round of the satellite loop links. -/
def satelliteLinks (leoPlane no : Nat) (inc : K) (i j : Nat) : List (Nat × Nat) :=
  ((i - 1) * no + j, upLeo no i j) ::
    (rightLeo leoPlane no inc i j).toList.map fun right => ((i - 1) * no + j, right)

/-- All pairs of satellites that are linked, in the order of the loops. -/
def gridLinks (leoPlane no : Nat) (inc : K) : List (Nat × Nat) :=
  (List.range' 1 leoPlane).flatMap fun i =>
    (List.range' 1 no).flatMap fun j => satelliteLinks leoPlane no inc i j

/-- The pairs of a satellite and a facility. -/
def facilityLinks (noLeo noFac : Nat) : List (Nat × Nat) :=
  (List.range' 1 noLeo).flatMap fun i =>
    (List.range' (noLeo + 1) noFac).map fun j => (i, j)

section Loops

variable {position : Nat → Point K}

omit [LinearOrder K] in
theorem leoDistance_comm (a b : Point K) : leoDistance a b = leoDistance b a := by
  unfold leoDistance
  congr 1
  ring

/-- The delay of a link, in milliseconds. -/
def linkDelay (position : Nat → Point K) (a b : Nat) : K :=
  leoDistance (position a) (position b) / (3 * 10 ^ 5 : Nat)

omit [LinearOrder K] in
theorem linkDelay_comm (a b : Nat) : linkDelay position a b = linkDelay position b a := by
  unfold linkDelay
  rw [leoDistance_comm]

omit [LinearOrder K] in
theorem link_delay (m : Matrices K) (a b : Nat) :
    (m.link position a b).delay = m.delay.setBoth a b (linkDelay position a b) := by
  unfold Matrices.link linkDelay
  dsimp only
  rw [Table.setBoth_apply, if_pos (Or.inl ⟨rfl, rfl⟩)]

omit [LinearOrder K] in
/-- Linking pairs one after the other writes their delays. -/
theorem foldl_link_delay : ∀ (pairs : List (Nat × Nat)) (m : Matrices K),
    (pairs.foldl (fun m p => m.link position p.1 p.2) m).delay =
      pairs.foldl (fun t p => t.setBoth p.1 p.2 (linkDelay position p.1 p.2)) m.delay := by
  intro pairs
  induction pairs with
  | nil => intro m; rfl
  | cons p pairs ih =>
      intro m
      rw [List.foldl_cons, List.foldl_cons, ih, link_delay]

theorem satelliteStep_eq (leoPlane no : Nat) (inc : K) (i j : Nat) (m : Matrices K) :
    satelliteStep position leoPlane no inc i j m =
      (satelliteLinks leoPlane no inc i j).foldl (fun m p => m.link position p.1 p.2) m := by
  unfold satelliteStep satelliteLinks
  cases rightLeo leoPlane no inc i j with
  | none => rfl
  | some right => rfl

/-- The loops of `Create_delay` link one list of pairs. -/
theorem createDelay_eq (noLeo noFac leoPlane : Nat) (inc : K) :
    createDelay noLeo noFac leoPlane position inc =
      (gridLinks leoPlane (noLeo / leoPlane) inc ++ facilityLinks noLeo noFac).foldl
        (fun t p => Table.setBoth t p.1 p.2 (linkDelay position p.1 p.2)) fun _ _ => 0 := by
  unfold createDelay gridLinks facilityLinks
  rw [← show (Matrices.zeros : Matrices K).delay = fun _ _ => 0 from rfl, ← foldl_link_delay,
    List.foldl_append, List.foldl_flatMap, List.foldl_flatMap]
  simp only [satelliteStep_eq, List.foldl_flatMap, List.foldl_map]

/-- **The delay matrix**: at a linked pair its delay, and 0 elsewhere. -/
theorem createDelay_apply (noLeo noFac leoPlane : Nat) (inc : K) (x y : Nat) :
    createDelay noLeo noFac leoPlane position inc x y =
      if (x, y) ∈ gridLinks leoPlane (noLeo / leoPlane) inc ++ facilityLinks noLeo noFac ∨
          (y, x) ∈ gridLinks leoPlane (noLeo / leoPlane) inc ++ facilityLinks noLeo noFac then
        linkDelay position x y
      else 0 := by
  rw [createDelay_eq, Table.foldl_setBoth linkDelay_comm]

theorem createDelay_comm (noLeo noFac leoPlane : Nat) (inc : K) (x y : Nat) :
    createDelay noLeo noFac leoPlane position inc x y =
      createDelay noLeo noFac leoPlane position inc y x := by
  rw [createDelay_apply, createDelay_apply, linkDelay_comm]
  simp only [or_comm]

/-- A positive entry is the delay of its pair. -/
theorem createDelay_of_pos {noLeo noFac leoPlane : Nat} {inc : K} {x y : Nat}
    (h : 0 < createDelay noLeo noFac leoPlane position inc x y) :
    createDelay noLeo noFac leoPlane position inc x y = linkDelay position x y := by
  rw [createDelay_apply] at h ⊢
  split at h
  next hmem => exact if_pos hmem
  next => exact absurd h (lt_irrefl 0)

/-- Between satellites no facility is involved. -/
theorem not_mem_facilityLinks {noLeo noFac x y : Nat} (hy : y ≤ noLeo) :
    (x, y) ∉ facilityLinks noLeo noFac := by
  intro h
  obtain ⟨i, -, hi⟩ := List.mem_flatMap.mp h
  obtain ⟨j, hj, hij⟩ := List.mem_map.mp hi
  obtain ⟨-, rfl⟩ := Prod.mk.inj hij
  have := (List.mem_range'_1.mp hj).1
  omega

end Loops

end LeoEM
