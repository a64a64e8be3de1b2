/-
# `Constellation.Phase` — mean anomalies, and the links between planes

`Create_LEO.m` shifts each plane against the one before it by `360 * F / (P * n)` degrees,
a shift that adds up from plane to plane.  `Create_delay.m` links a satellite with the one
of its own index in the next plane, and in the last plane with the one of its own index
in the first.  Between the last plane and the first the shifts of all planes have added up
to `360 * F / n`, which is a whole turn only if `n` divides `F` (`phase_iff`).

Anomalies are exact, in degrees.
-/
import LeoEM.Constellation.Grid
import Mathlib.Algebra.Order.Floor.Ring
import Mathlib.Data.Rat.Floor
import Mathlib.Tactic.FieldSimp
import Mathlib.Tactic.LinearCombination

namespace LeoEM

/-- `mod(x, m)` of MATLAB. -/
def matlabMod (x m : Rat) : Rat := x - m * (⌊x / m⌋ : Int)

/-- `meanAnomaly1(j)` -/
def meanAnomaly1 (no j : Nat) : Rat := 360 / no * ((j - 1 : Nat) : Rat)

/-- `ma` of satellite `j` in plane `i`, in degrees. -/
def meanAnomaly (leoPlane no : Nat) (F : Int) (i j : Nat) : Rat :=
  matlabMod (meanAnomaly1 no j + 360 * F / (leoPlane * no) * ((i - 1 : Nat) : Rat)) 360

/-- The satellites of `Create_LEO` with their mean anomalies, in the order they are made. -/
def createLEO (leoPlane no : Nat) (F : Int) : List (Nat × Rat) :=
  (List.range' 1 leoPlane).flatMap fun i =>
    (List.range' 1 no).map fun j => (j + no * (i - 1), meanAnomaly leoPlane no F i j)

/-- The same angle, in degrees. -/
def SameAngle (x y : Rat) : Prop := ∃ turns : Int, x = y + 360 * turns

/-- Each link of `Create_delay` from a plane to the plane on its right joins satellites whose
mean anomalies differ by the phase shift of neighbouring planes. -/
def JoinsNeighbours {K : Type} [Field K] [LinearOrder K] (leoPlane no : Nat) (F : Int)
    (inc : K) : Prop :=
  ∀ i ∈ List.range' 1 leoPlane, ∀ j ∈ List.range' 1 no, ∀ right,
    rightLeo leoPlane no inc i j = some right →
      ∀ ma ma', ((i - 1) * no + j, ma) ∈ createLEO leoPlane no F →
        (right, ma') ∈ createLEO leoPlane no F →
          SameAngle (ma' - ma) (360 * F / (leoPlane * no))

/-! ## The table of anomalies -/

section Table

variable {P n : Nat} {F : Int}

/-- A number is that of one satellite of one plane. -/
theorem number_inj {i j i' j' : Nat} (hi : 1 ≤ i) (hi' : 1 ≤ i') (hj : 1 ≤ j) (hj' : 1 ≤ j')
    (hjn : j ≤ n) (hjn' : j' ≤ n) (h : j' + n * (i' - 1) = (i - 1) * n + j) :
    i' = i ∧ j' = j := by
  have hslot : (i - 1) * n + (j - 1) = (i' - 1) * n + (j' - 1) := by
    rw [Nat.mul_comm (i' - 1) n]
    omega
  obtain ⟨h₁, h₂⟩ := (eq_slot_iff (by omega)).mp (Eq.refl ((i - 1) * n + (j - 1)))
  obtain ⟨h₁', h₂'⟩ := (eq_slot_iff (by omega)).mp hslot
  omega

theorem mem_createLEO {i j : Nat} (hi : i ∈ List.range' 1 P) (hj : j ∈ List.range' 1 n)
    {ma : Rat} : ((i - 1) * n + j, ma) ∈ createLEO P n F ↔ ma = meanAnomaly P n F i j := by
  simp only [createLEO, List.mem_flatMap, List.mem_map, Prod.mk.injEq]
  constructor
  · rintro ⟨i', hi', j', hj', hnum, rfl⟩
    rw [List.mem_range'_1] at hi hj hi' hj'
    obtain ⟨rfl, rfl⟩ := number_inj hi.1 hi'.1 hj.1 hj'.1 (by omega) (by omega) hnum
    rfl
  · rintro rfl
    exact ⟨i, hi, j, hj, by rw [Nat.mul_comm, Nat.add_comm], rfl⟩

end Table

/-! ## Differences -/

theorem sameAngle_mod (x : Rat) : SameAngle (matlabMod x 360) x :=
  ⟨-⌊x / 360⌋, by rw [matlabMod]; push_cast; ring⟩

theorem SameAngle.trans {x y z : Rat} (h : SameAngle x y) (h' : SameAngle y z) :
    SameAngle x z := by
  obtain ⟨s, hs⟩ := h
  obtain ⟨t, ht⟩ := h'
  exact ⟨s + t, by rw [hs, ht]; push_cast; ring⟩

theorem SameAngle.symm {x y : Rat} (h : SameAngle x y) : SameAngle y x := by
  obtain ⟨t, ht⟩ := h
  exact ⟨-t, by rw [ht]; push_cast; ring⟩

theorem SameAngle.sub {x x' y y' : Rat} (h : SameAngle x y) (h' : SameAngle x' y') :
    SameAngle (x - x') (y - y') := by
  obtain ⟨s, hs⟩ := h
  obtain ⟨t, ht⟩ := h'
  exact ⟨s - t, by rw [hs, ht]; push_cast; ring⟩

section Planes

variable {P n : Nat} {F : Int} {j : Nat}

/-- Satellites of one index: their planes differ by shifts. -/
theorem sameAngle_planes (P n : Nat) (F : Int) (i i' j : Nat) :
    SameAngle (meanAnomaly P n F i' j - meanAnomaly P n F i j)
      (360 * F / (P * n) * (((i' - 1 : Nat) : Rat) - ((i - 1 : Nat) : Rat))) := by
  obtain ⟨t, ht⟩ := (sameAngle_mod _).sub (sameAngle_mod _)
  refine ⟨t, ?_⟩
  rw [meanAnomaly, meanAnomaly, ht]
  ring

/-- From one plane to the next it is one shift. -/
theorem sameAngle_next {i : Nat} (hi : 1 ≤ i) (j : Nat) :
    SameAngle (meanAnomaly P n F (i + 1) j - meanAnomaly P n F i j) (360 * F / (P * n)) := by
  have h := sameAngle_planes P n F i (i + 1) j
  have hone : (((i + 1 - 1 : Nat) : Rat) - ((i - 1 : Nat) : Rat)) = 1 := by
    rw [Nat.add_sub_cancel, Nat.cast_sub hi]
    ring
  rwa [hone, mul_one] at h

/-- From the last plane to the first it is one shift exactly if `n` divides `F`. -/
theorem sameAngle_seam (hP : 1 ≤ P) (hn : 1 ≤ n) (j : Nat) :
    SameAngle (meanAnomaly P n F 1 j - meanAnomaly P n F P j) (360 * F / (P * n)) ↔
      (n : Int) ∣ F := by
  have hP₀ : (P : Rat) ≠ 0 := Nat.cast_ne_zero.mpr (by omega)
  have hn₀ : (n : Rat) ≠ 0 := Nat.cast_ne_zero.mpr (by omega)
  -- all the shifts together, counted from the last plane
  have hshifts : 360 * F / (P * n) * (((1 - 1 : Nat) : Rat) - ((P - 1 : Nat) : Rat)) =
      (360 * F / (P * n) : Rat) - 360 * F / n := by
    rw [Nat.cast_sub hP]
    field_simp
    push_cast
    ring
  have h := sameAngle_planes P n F P 1 j
  rw [hshifts] at h
  constructor
  · intro hsame
    obtain ⟨t, ht⟩ := h.symm.trans hsame
    refine ⟨-t, ?_⟩
    have hF : (F : Rat) = n * (-t) := by
      field_simp at ht
      refine mul_left_cancel₀ hP₀ ?_
      linear_combination (-1 : Rat) * ht
    exact_mod_cast hF
  · rintro ⟨c, rfl⟩
    refine h.trans ⟨-c, ?_⟩
    push_cast
    field_simp
    ring

end Planes

/-- **Inter-plane links join true neighbours** exactly if the seam is not linked or `n`
divides the phase shift `F`. -/
theorem phase_iff {K : Type} [Field K] [LinearOrder K] (P n : Nat) (F : Int) (inc : K)
    (hP : 2 ≤ P) (hn : 1 ≤ n) : JoinsNeighbours P n F inc ↔ Polar inc ∨ (n : Int) ∣ F := by
  have hlast : P ∈ List.range' 1 P := List.mem_range'_1.mpr ⟨by omega, by omega⟩
  have hfirst : 1 ∈ List.range' 1 P := List.mem_range'_1.mpr ⟨by omega, by omega⟩
  have hslot : 1 ∈ List.range' 1 n := List.mem_range'_1.mpr ⟨by omega, by omega⟩
  constructor
  · intro hjoins
    refine or_iff_not_imp_left.mpr fun hpol => ?_
    have hright : rightLeo P n inc P 1 = some 1 := by simp [rightLeo, hpol]
    have hright' : (1, meanAnomaly P n F 1 1) ∈ createLEO P n F := by
      simpa using (mem_createLEO (F := F) hfirst hslot).mpr rfl
    exact (sameAngle_seam (by omega) hn 1).mp
      (hjoins P hlast 1 hslot 1 hright _ _ ((mem_createLEO hlast hslot).mpr rfl) hright')
  · intro hcond i hi j hj right hright ma ma' hma hma'
    rw [(mem_createLEO hi hj).mp hma]
    rw [rightLeo] at hright
    have hbounds := List.mem_range'_1.mp hi
    by_cases hiP : i = P
    · -- the seam
      subst hiP
      have hpol : ¬ Polar inc := by
        intro hpol
        simp [hpol] at hright
      obtain rfl : j = right := by simpa [hpol] using hright
      have hma₁ : ma' = meanAnomaly i n F 1 j := by
        refine (mem_createLEO hfirst hj).mp ?_
        simpa using hma'
      rw [hma₁]
      exact (sameAngle_seam (by omega) hn j).mpr (hcond.resolve_left hpol)
    · obtain rfl : i * n + j = right := by simpa [hiP] using hright
      have hnext : i + 1 ∈ List.range' 1 P := List.mem_range'_1.mpr ⟨by omega, by omega⟩
      rw [(mem_createLEO hnext hj).mp hma']
      exact sameAngle_next hbounds.1 j

theorem phase_iff_twoSlots : JoinsNeighbours 72 22 44 (53 : Rat) :=
  (phase_iff 72 22 44 (53 : Rat) (by decide) (by decide)).mpr (Or.inr (by decide))

/-- Three planes of two satellites with a phase shift of 1: the link from the third plane to
the first joins satellites a third of a turn apart, where neighbouring planes differ by a sixth. -/
theorem phase_oneShift : rightLeo 3 2 (53 : Rat) 3 1 = some 1 ∧
    createLEO 3 2 1 = [(1, 0), (2, 180), (3, 60), (4, 240), (5, 120), (6, 300)] ∧
    ¬ JoinsNeighbours 3 2 1 (53 : Rat) := by
  refine ⟨by decide +kernel, by decide +kernel, fun h => ?_⟩
  obtain ⟨t, ht⟩ := h 3 (by decide) 1 (by decide) 1 (by decide +kernel) 120 0 (by decide +kernel)
    (by decide +kernel)
  have hint : (-1 : Int) = 2 * t := by
    have : (-1 : Rat) = 2 * t := by linarith
    exact_mod_cast this
  omega

end LeoEM
