/-
# `Constellation.Grid` — the +Grid that the laser script builds

`Specified` says which satellites a +Grid links: neighbours in a plane, neighbours in
neighbouring planes, and the last plane with the first unless the constellation is polar.
`Create_delay` has all of this, but asks for a polar inclination in degrees and is given
radians.  So the seam of a polar constellation is closed (`grid_iff`).

Satellites count from 0 here, as in the script; satellite `a` of a constellation with `n`
satellites in a plane is in plane `a / n` and has slot `a % n`.
-/
import LeoEM.Constellation.Delay
import LeoEM.Route.Coverage
import Mathlib.Tactic.Linarith
import Mathlib.Tactic.NormNum
import Mathlib.Tactic.Positivity

namespace LeoEM

/-! ## Planes and slots -/

/-- `b` is behind `a` in the same plane. -/
def NextInPlane (n a b : Nat) : Prop := b / n = a / n ∧ b % n = (a % n + 1) % n

/-- `b` has the slot of `a` in the next plane. -/
def NextPlane (n a b : Nat) : Prop := b / n = a / n + 1 ∧ b % n = a % n

/-- `b` has in the first plane the slot of `a` in the last. -/
def Seam (P n a b : Nat) : Prop := a / n + 1 = P ∧ b / n = 0 ∧ b % n = a % n

/-- A link of the +Grid from `a` to `b`; `polar` leaves the seam open. -/
def LinksTo (P n : Nat) (polar : Prop) (a b : Nat) : Prop :=
  NextInPlane n a b ∨ NextPlane n a b ∨ (¬ polar ∧ Seam P n a b)

/-- The pairs of the +Grid. -/
def Specified (P n : Nat) (polar : Prop) (a b : Nat) : Prop :=
  a ≠ b ∧ (LinksTo P n polar a b ∨ LinksTo P n polar b a)

section Slots

variable {P n a b p q : Nat}

theorem eq_slot_iff (hq : q < n) : a = p * n + q ↔ a / n = p ∧ a % n = q := by
  constructor
  · rintro rfl
    rw [Nat.mul_comm, Nat.mul_add_div (by omega), Nat.mul_add_mod, Nat.div_eq_of_lt hq,
      Nat.mod_eq_of_lt hq]
    exact ⟨Nat.add_zero p, rfl⟩
  · rintro ⟨rfl, rfl⟩
    rw [Nat.mul_comm]
    exact (Nat.div_add_mod a n).symm

theorem upLeo_slot (hq : q < n) : upLeo n (p + 1) (q + 1) = p * n + (q + 1) % n + 1 := by
  unfold upLeo
  rw [Nat.add_sub_cancel]
  by_cases h : q + 1 = n
  · rw [if_neg (not_not.mpr h), h, Nat.mod_self, Nat.add_zero]
  · rw [if_pos h, Nat.mod_eq_of_lt (by omega)]

end Slots

section Links

variable {K : Type} [Field K] [LinearOrder K] {P n a b : Nat} {inc : K}

/-- The right neighbour, in slots. -/
theorem rightLeo_slot {p q : Nat} :
    rightLeo P n inc (p + 1) (q + 1) = some (b + 1) ↔
      (p + 1 ≠ P ∧ b = (p + 1) * n + q) ∨ (p + 1 = P ∧ ¬ Polar inc ∧ b = 0 * n + q) := by
  unfold rightLeo
  by_cases hP : p + 1 = P
  · by_cases hpol : Polar inc <;> simp [hP, hpol, eq_comm]
  · simp only [hP, ne_eq, not_false_eq_true, if_true, Option.some.injEq, true_and, false_and,
      or_false]
    omega

theorem mem_satelliteLinks {no i j x y : Nat} :
    (x, y) ∈ satelliteLinks P no inc i j ↔
      x = (i - 1) * no + j ∧ (y = upLeo no i j ∨ rightLeo P no inc i j = some y) := by
  unfold satelliteLinks
  cases rightLeo P no inc i j with
  | none => simp
  | some right =>
      simp only [Option.toList_some, List.map_cons, List.map_nil, List.mem_cons, List.not_mem_nil,
        or_false, Prod.mk.injEq, Option.some.injEq]
      constructor
      · rintro (⟨hx, hy⟩ | ⟨hx, hy⟩)
        · exact ⟨hx, Or.inl hy⟩
        · exact ⟨hx, Or.inr hy.symm⟩
      · rintro ⟨hx, hy | hy⟩
        · exact Or.inl ⟨hx, hy⟩
        · exact Or.inr ⟨hx, hy.symm⟩

/-- The links of the loops, by plane and slot counted from 0. -/
theorem mem_gridLinks_slot :
    (a + 1, b + 1) ∈ gridLinks P n inc ↔
      ∃ p q, p < P ∧ q < n ∧ a = p * n + q ∧ (b = p * n + (q + 1) % n ∨
        (p + 1 ≠ P ∧ b = (p + 1) * n + q) ∨ (p + 1 = P ∧ ¬ Polar inc ∧ b = 0 * n + q)) := by
  unfold gridLinks
  simp only [List.mem_flatMap, List.mem_range'_1, mem_satelliteLinks]
  constructor
  · rintro ⟨i, ⟨hi, hiP⟩, j, ⟨hj, hjn⟩, ha, hb⟩
    obtain ⟨p, rfl⟩ : ∃ p, i = p + 1 := ⟨i - 1, by omega⟩
    obtain ⟨q, rfl⟩ : ∃ q, j = q + 1 := ⟨j - 1, by omega⟩
    rw [upLeo_slot (by omega), rightLeo_slot, Nat.add_right_cancel_iff] at hb
    rw [Nat.add_sub_cancel] at ha
    exact ⟨p, q, by omega, by omega, by omega, hb⟩
  · rintro ⟨p, q, hp, hq, ha, hb⟩
    refine ⟨p + 1, ⟨by omega, by omega⟩, q + 1, ⟨by omega, by omega⟩, ?_, ?_⟩
    · rw [Nat.add_sub_cancel]
      omega
    · rw [upLeo_slot hq, rightLeo_slot, Nat.add_right_cancel_iff]
      exact hb

/-- **The links of the satellite loops are those of the +Grid**, with the test the loops make
of the inclination they are given. -/
theorem mem_gridLinks (hn : 1 ≤ n) (hb : b < P * n) :
    (a + 1, b + 1) ∈ gridLinks P n inc ↔ a < P * n ∧ LinksTo P n (Polar inc) a b := by
  have hplane : ∀ c : Nat, c < P * n ↔ c / n < P := fun c => (Nat.div_lt_iff_lt_mul hn).symm
  have hslot : ∀ c : Nat, c % n < n := fun c => Nat.mod_lt c hn
  rw [mem_gridLinks_slot, hplane]
  rw [hplane] at hb
  unfold LinksTo NextInPlane NextPlane Seam
  constructor
  · rintro ⟨p, q, hp, hq, ha, h⟩
    obtain ⟨rfl, rfl⟩ := (eq_slot_iff hq).mp ha
    refine ⟨hp, ?_⟩
    rcases h with h | ⟨-, h⟩ | ⟨hlast, hpol, h⟩
    · exact Or.inl ((eq_slot_iff (hslot _)).mp h)
    · exact Or.inr (Or.inl ((eq_slot_iff hq).mp h))
    · exact Or.inr (Or.inr ⟨hpol, hlast, (eq_slot_iff hq).mp h⟩)
  · rintro ⟨ha, h⟩
    refine ⟨a / n, a % n, ha, hslot a, (eq_slot_iff (hslot a)).mpr ⟨rfl, rfl⟩, ?_⟩
    rcases h with h | h | ⟨hpol, hlast, h⟩
    · exact Or.inl ((eq_slot_iff (hslot _)).mpr h)
    · exact Or.inr (Or.inl ⟨by omega, (eq_slot_iff (hslot a)).mpr h⟩)
    · exact Or.inr (Or.inr ⟨hlast, hpol, (eq_slot_iff (hslot a)).mpr h⟩)

end Links

/-! ## Where the seam shows -/

section SeamShows

variable {P n : Nat} {polar polar' : Prop}

/-- With one plane or two the seam joins what is one satellite or neighbours anyway. -/
theorem seam_covered {a b : Nat} (hP : P ≤ 2) (hne : a ≠ b) (h : Seam P n a b) :
    NextPlane n b a := by
  obtain ⟨hlast, hfirst, hslot⟩ := h
  refine ⟨?_, hslot.symm⟩
  rcases Nat.lt_or_ge (a / n) 1 with ha | ha
  · have hzero : a / n = 0 := Nat.lt_one_iff.mp ha
    have hsame : a = b := calc
      a = n * (a / n) + a % n := (Nat.div_add_mod a n).symm
      _ = n * (b / n) + b % n := by rw [hfirst, hslot, hzero]
      _ = b := Nat.div_add_mod b n
    exact absurd hsame hne
  · omega

theorem specified_mono {a b : Nat} (h : P ≤ 2 ∨ (polar' → polar)) (hs : Specified P n polar a b) :
    Specified P n polar' a b := by
  have hlink : ∀ {a b : Nat}, a ≠ b → LinksTo P n polar a b →
      LinksTo P n polar' a b ∨ LinksTo P n polar' b a := by
    rintro a b hne (hl | hl | ⟨hpol, hl⟩)
    · exact Or.inl (Or.inl hl)
    · exact Or.inl (Or.inr (Or.inl hl))
    · rcases h with hP | h
      · exact Or.inr (Or.inr (Or.inl (seam_covered hP hne hl)))
      · exact Or.inl (Or.inr (Or.inr ⟨fun hp => hpol (h hp), hl⟩))
  obtain ⟨hne, hl | hl⟩ := hs
  · exact ⟨hne, hlink hne hl⟩
  · exact ⟨hne, (hlink hne.symm hl).symm⟩

/-- With three planes the seam joins satellites that are no neighbours otherwise. -/
theorem not_specified_of_seam {a b : Nat} (hP : 3 ≤ P) (h : Seam P n a b) (hpolar : polar) :
    ¬ Specified P n polar a b := by
  obtain ⟨hlast, hfirst, hslot⟩ := h
  rintro ⟨-, hl | hl⟩
  · rcases hl with ⟨h, -⟩ | ⟨h, -⟩ | ⟨h, -⟩
    · omega
    · omega
    · exact h hpolar
  · rcases hl with ⟨h, -⟩ | ⟨h, -⟩ | ⟨h, -⟩
    · omega
    · omega
    · exact h hpolar

/-- The first satellites of the last plane and of the first. -/
theorem seam_first (hP : 1 ≤ P) (hn : 1 ≤ n) : Seam P n ((P - 1) * n) 0 := by
  refine ⟨?_, Nat.zero_div n, ?_⟩
  · rw [Nat.mul_div_cancel _ hn]
    omega
  · rw [Nat.mul_mod_left, Nat.zero_mod]

/-- **Two tests of the inclination give the same pairs** exactly if they agree, or there are
at most two planes. -/
theorem specified_congr_iff (hP : 1 ≤ P) (hn : 1 ≤ n) :
    (∀ a b, a < P * n → b < P * n → (Specified P n polar a b ↔ Specified P n polar' a b)) ↔
      P ≤ 2 ∨ (polar ↔ polar') := by
  constructor
  · intro h
    refine or_iff_not_imp_left.mpr fun hP2 => ?_
    have hlast : (P - 1) * n < P * n := Nat.mul_lt_mul_of_pos_right (by omega) hn
    have hpos : 0 < P * n := Nat.mul_pos (by omega) hn
    have hne : (P - 1) * n ≠ 0 := Nat.mul_ne_zero (by omega) (by omega)
    have hseam := seam_first hP hn
    have hiff := h _ 0 hlast hpos
    constructor
    · intro hpolar
      by_contra hno
      exact not_specified_of_seam (by omega) hseam hpolar
        (hiff.mpr ⟨hne, Or.inl (Or.inr (Or.inr ⟨hno, hseam⟩))⟩)
    · intro hpolar
      by_contra hno
      exact not_specified_of_seam (by omega) hseam hpolar
        (hiff.mp ⟨hne, Or.inl (Or.inr (Or.inr ⟨hno, hseam⟩))⟩)
  · intro h a b _ _
    exact ⟨specified_mono (h.imp_right Iff.mpr), specified_mono (h.imp_right Iff.mp)⟩

end SeamShows

/-! ## The script's edges -/

section Edges

variable {K : Type} [Field K] [LinearOrder K]

/-- The entries of a saved matrix that the laser script reads, its satellites counted from 0. -/
def savedDelay (N : Nat) (delay : Table Nat K) (i j : Fin N) : K := delay (i + 1) (j + 1)

/-- The graph the laser script makes of a saved matrix. -/
def islGraph (N : Nat) (delay : Table Nat K) : WGraph Nat K :=
  ⟨List.range N, islEdges (savedDelay N delay)⟩

theorem mem_islEdges {N : Nat} {delay : Fin N → Fin N → K} {e : Nat × Nat × K} :
    e ∈ islEdges delay ↔ ∃ i j : Fin N, i < j ∧ 0 < delay i j ∧
      e = ((i : Nat), (j : Nat), delay i j / (1000 : Nat)) := by
  unfold islEdges
  simp only [List.mem_flatMap, List.mem_filterMap, List.mem_finRange, true_and,
    Option.ite_none_right_eq_some, Option.some.injEq, and_assoc, Nat.cast_ofNat]
  constructor
  · rintro ⟨i, j, hij, hpos, rfl⟩
    exact ⟨i, j, hij, hpos, rfl⟩
  · rintro ⟨i, j, hij, hpos, rfl⟩
    exact ⟨i, j, hij, hpos, rfl⟩

/-- Of a symmetric matrix nothing is lost with the lower triangle. -/
theorem islGraph_adj {N : Nat} {delay : Table Nat K} (hsymm : ∀ a b, delay a b = delay b a)
    {a b : Nat} : (islGraph N delay).toSimpleGraph.Adj a b ↔
      a < N ∧ b < N ∧ a ≠ b ∧ 0 < delay (a + 1) (b + 1) := by
  constructor
  · rintro ⟨hne, e, he, hjoin⟩
    obtain ⟨i, j, hij, hpos, rfl⟩ := mem_islEdges.mp he
    rcases hjoin with ⟨rfl, rfl⟩ | ⟨rfl, rfl⟩
    · exact ⟨i.isLt, j.isLt, hne, hpos⟩
    · exact ⟨j.isLt, i.isLt, hne, by rw [hsymm]; exact hpos⟩
  · rintro ⟨ha, hb, hne, hpos⟩
    refine ⟨hne, ?_⟩
    rcases Nat.lt_or_gt_of_ne hne with hlt | hgt
    · exact ⟨_, mem_islEdges.mpr ⟨⟨a, ha⟩, ⟨b, hb⟩, hlt, hpos, rfl⟩, Or.inl ⟨rfl, rfl⟩⟩
    · rw [hsymm] at hpos
      exact ⟨_, mem_islEdges.mpr ⟨⟨b, hb⟩, ⟨a, ha⟩, hgt, hpos, rfl⟩, Or.inr ⟨rfl, rfl⟩⟩

end Edges

section Build

variable {K : Type} [Field K] [LinearOrder K] [IsStrictOrderedRing K] [MathSqrt K] [LawfulSqrt K]
  {P n noFac : Nat} {position : Nat → Point K} {inc : K}

/-- The satellites `1 … N` are at different places. -/
def Distinct (N : Nat) (position : Nat → Point K) : Prop :=
  ∀ a b, a < N → b < N → a ≠ b → position (a + 1) ≠ position (b + 1)

theorem leoDistance_pos {a b : Point K} (h : a ≠ b) : 0 < leoDistance a b := by
  refine LawfulSqrt.sqrt_pos _ ?_
  by_contra hle
  have hx := sq_nonneg (a.x - b.x)
  have hy := sq_nonneg (a.y - b.y)
  have hz := sq_nonneg (a.z - b.z)
  have hx0 : (a.x - b.x) ^ 2 = 0 := by linarith
  have hy0 : (a.y - b.y) ^ 2 = 0 := by linarith
  have hz0 : (a.z - b.z) ^ 2 = 0 := by linarith
  apply h
  obtain ⟨ax, ay, az⟩ := a
  obtain ⟨bx, b_y, bz⟩ := b
  rw [sq_eq_zero_iff, sub_eq_zero] at hx0 hy0 hz0
  exact Point.mk.injEq .. |>.mpr ⟨hx0, hy0, hz0⟩

/-- **A link between two satellites is a pair of the +Grid**, with the test of `Create_delay`. -/
theorem createDelay_pos_iff (hP : 1 ≤ P) (hn : 1 ≤ n) (hdist : Distinct (P * n) position)
    {a b : Nat} (ha : a < P * n) (hb : b < P * n) (hne : a ≠ b) :
    0 < createDelay (P * n) noFac P position inc (a + 1) (b + 1) ↔
      LinksTo P n (Polar inc) a b ∨ LinksTo P n (Polar inc) b a := by
  have hfac : ∀ {x y : Nat}, y < P * n → (x, y + 1) ∉ facilityLinks (P * n) noFac :=
    fun hy => not_mem_facilityLinks (by omega)
  have hmem : (a + 1, b + 1) ∈ gridLinks P n inc ++ facilityLinks (P * n) noFac ∨
      (b + 1, a + 1) ∈ gridLinks P n inc ++ facilityLinks (P * n) noFac ↔
      LinksTo P n (Polar inc) a b ∨ LinksTo P n (Polar inc) b a := by
    rw [List.mem_append, List.mem_append, mem_gridLinks hn ha, mem_gridLinks hn hb]
    simp only [hfac ha, hfac hb, or_false, ha, hb, true_and]
  rw [createDelay_apply, Nat.mul_div_cancel_left n hP, ← hmem]
  split
  next h =>
    refine iff_of_true ?_ h
    exact div_pos (leoDistance_pos (hdist a b ha hb hne)) (by positivity)
  next h => exact iff_of_false (lt_irrefl 0) h

/-- The graph of a matrix that `Create_delay` has written. -/
theorem createDelay_adj (hP : 1 ≤ P) (hn : 1 ≤ n) (hdist : Distinct (P * n) position) {a b : Nat} :
    (islGraph (P * n) (createDelay (P * n) noFac P position inc)).toSimpleGraph.Adj a b ↔
      a < P * n ∧ b < P * n ∧ Specified P n (Polar inc) a b := by
  rw [islGraph_adj (createDelay_comm _ _ _ _)]
  constructor
  · rintro ⟨ha, hb, hne, hpos⟩
    exact ⟨ha, hb, hne, (createDelay_pos_iff hP hn hdist ha hb hne).mp hpos⟩
  · rintro ⟨ha, hb, hne, hlink⟩
    exact ⟨ha, hb, hne, (createDelay_pos_iff hP hn hdist ha hb hne).mpr hlink⟩

omit [IsStrictOrderedRing K] [LawfulSqrt K] in
/-- The weights of its edges, in seconds. -/
theorem createDelay_weight {N : Nat} {e : Nat × Nat × K}
    (he : e ∈ (islGraph N (createDelay N noFac P position inc)).edges) :
    e.2.2 = leoDistance (position (e.1 + 1)) (position (e.2.1 + 1)) / (3 * 10 ^ 8 : Nat) := by
  obtain ⟨i, j, -, hpos, rfl⟩ := mem_islEdges.mp he
  dsimp only [savedDelay] at hpos ⊢
  rw [createDelay_of_pos hpos, linkDelay, div_div]
  norm_num

end Build

/-! ## From the parameter file -/

section Parameters

variable {K : Type} [Field K] [LinearOrder K] [MathSqrt K]

/-- **The +Grid as it is specified** for a constellation: the edges of the laser script are the
specified pairs, their weights the light's times, and the matrix is symmetric. -/
structure GridAsSpecified (p : Parameter K) (position : Nat → Point K) (delay : Table Nat K) :
    Prop where
  edges : ∀ a b : Nat, (islGraph p.noLeo delay).toSimpleGraph.Adj a b ↔
    a < p.noLeo ∧ b < p.noLeo ∧ Specified p.leoPlane p.no (Polar p.inc) a b
  weights : ∀ e ∈ (islGraph p.noLeo delay).edges,
    e.2.2 = leoDistance (position (e.1 + 1)) (position (e.2.1 + 1)) / (3 * 10 ^ 8 : Nat)
  symm : ∀ a b, a < p.noLeo → b < p.noLeo → delay (a + 1) (b + 1) = delay (b + 1) (a + 1)

omit [MathSqrt K] in
/-- An inclination between 80 and 100 degrees is less than 80 in radians. -/
theorem not_polar_both [IsStrictOrderedRing K] {inc : K} (h : Polar inc) :
    ¬ Polar (inc * dtr) := by
  rintro ⟨hlow, -⟩
  have hdtr : (dtr : K) ≤ 1 / 2 := by
    unfold dtr
    norm_num
  have hpos : (0 : K) < inc := lt_trans (by positivity) h.1
  have hle : inc * dtr ≤ ((100 : Nat) : K) * (1 / 2) :=
    mul_le_mul (le_of_lt h.2) hdtr (by unfold dtr; positivity) (by positivity)
  norm_num at hlow hle
  linarith

/-- **The laser script has the specified +Grid** exactly if there are at most two planes, or
neither the inclination in degrees nor its value in radians is strictly between 80 and 100. -/
theorem grid_iff [IsStrictOrderedRing K] [LawfulSqrt K] (p : Parameter K) (noFac : Nat)
    (position : Nat → Point K) (hP : 1 ≤ p.leoPlane) (hn : 1 ≤ p.no)
    (hdist : Distinct p.noLeo position) :
    GridAsSpecified p position (buildConstellation p noFac position) ↔
      p.leoPlane ≤ 2 ∨ (¬ Polar p.inc ∧ ¬ Polar (p.inc * dtr)) := by
  have hagree : (p.leoPlane ≤ 2 ∨ (¬ Polar p.inc ∧ ¬ Polar (p.inc * dtr))) ↔
      p.leoPlane ≤ 2 ∨ (Polar (p.inc * dtr) ↔ Polar p.inc) := by
    refine or_congr_right ⟨fun h => iff_of_false h.2 h.1, fun h => ?_⟩
    have hno : ¬ Polar p.inc := fun hp => not_polar_both hp (h.mpr hp)
    exact ⟨hno, fun hp => hno (h.mp hp)⟩
  rw [hagree, ← specified_congr_iff hP hn]
  have hadj : ∀ {a b : Nat},
      (islGraph p.noLeo (buildConstellation p noFac position)).toSimpleGraph.Adj a b ↔
        a < p.noLeo ∧ b < p.noLeo ∧ Specified p.leoPlane p.no (Polar (p.inc * dtr)) a b :=
    createDelay_adj hP hn hdist
  constructor
  · intro hgrid a b ha hb
    have h := hadj.symm.trans (hgrid.edges a b)
    exact ⟨fun hs => (h.mp ⟨ha, hb, hs⟩).2.2, fun hs => (h.mpr ⟨ha, hb, hs⟩).2.2⟩
  · intro hsame
    refine ⟨fun a b => hadj.trans ?_, fun e he => createDelay_weight he,
      fun a b _ _ => createDelay_comm _ _ _ _ _ _⟩
    exact and_congr_right fun ha => and_congr_right fun hb => hsame a b ha hb

end Parameters

/-! ## A polar constellation -/

theorem isqrt_pos {fuel m : Nat} (hm : 1 ≤ m) : 1 ≤ isqrt (fuel + 1) m := by
  rw [isqrt]
  split
  next => omega
  next hroot =>
    by_contra hzero
    exact hroot (by rw [show 2 * isqrt fuel (m / 4) = 0 by omega]; omega)

instance : LawfulSqrt Rat where
  sqrt_pos q hq := by
    have hnum : 1 ≤ q.num.toNat := by
      have := Rat.num_pos.mpr hq
      omega
    have hroot : 1 ≤ isqrt 64 (q.num.toNat * q.den) := isqrt_pos (Nat.mul_pos hnum q.den_pos)
    have hden : (0 : Rat) < q.den := Nat.cast_pos.mpr q.den_pos
    exact div_pos (Nat.cast_pos.mpr hroot) hden

/-- Satellites in a row, a metre apart. -/
def inARow (a : Nat) : Point Rat := ⟨a, 0, 0⟩

theorem inARow_distinct (N : Nat) : Distinct N inARow := by
  intro a b _ _ hne h
  have hx : ((a + 1 : Nat) : Rat) = ((b + 1 : Nat) : Rat) := congrArg Point.x h
  exact hne (Nat.add_right_cancel (Nat.cast_injective hx))

/-- Three planes of two satellites at 53 degrees. -/
theorem grid_iff_inclined :
    GridAsSpecified ⟨53, 3, 2⟩ inARow (buildConstellation ⟨53, 3, 2⟩ 0 inARow) ↔
      3 ≤ 2 ∨ (¬ Polar (53 : Rat) ∧ ¬ Polar ((53 : Rat) * dtr)) :=
  grid_iff ⟨53, 3, 2⟩ 0 inARow (by decide) (by decide) (inARow_distinct 6)

/-- Three planes of one satellite over the poles: their seam is closed. -/
theorem polar_seam_closed :
    ¬ GridAsSpecified ⟨90, 3, 1⟩ inARow (buildConstellation ⟨90, 3, 1⟩ 0 inARow) := by
  intro hgrid
  have hpolar : Polar (90 : Rat) := by
    unfold Polar
    norm_num
  have hseam : Seam 3 1 2 0 := seam_first (by decide) (by decide)
  have hlink : Specified 3 1 (Polar ((90 : Rat) * dtr)) 2 0 :=
    ⟨by decide, Or.inl (Or.inr (Or.inr ⟨not_polar_both hpolar, hseam⟩))⟩
  have hadj := (@createDelay_adj Rat _ _ _ _ _ 3 1 0 inARow (90 * dtr) (by decide) (by decide)
    (inARow_distinct 3) 2 0).mpr ⟨by decide, by decide, hlink⟩
  exact not_specified_of_seam (by decide) hseam hpolar ((hgrid.edges 2 0).mp hadj).2.2

end LeoEM
