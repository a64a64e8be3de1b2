/-
# `Satcp.CubicRoot` — how far off `cubic_root` is

`cubic_root` looks up an estimate of the cube root by the leading bits of its argument and
makes one Newton-Raphson step from there.  The step goes along a tangent, so it ends above
the root, the farther the worse the estimate is; taking 341/1024 for a third brings it
down again by a thousandth.

`tangentRoot` is what this comes to without the machine's integers, for any difference of
two windows: nothing wraps on the way (`RootSize.checked_eq`).
-/
import LeoEM.Base.Checked
import LeoEM.Satcp.Cubic
import Mathlib.Tactic.Linarith
import Mathlib.Tactic.Ring

namespace LeoEM

open Checked

/-! ## Without the machine's integers -/

/-- The bits of the root that are not looked up: about a third of the argument's. -/
def rootBits (a : Nat) : Nat := (Nat.log2 a + 1) * 84 / 256 - 1

def tableEntry (i : Nat) : Nat := (cubicRootTable.getD i 0).toNat

/-- The estimate from the table. -/
def rootEstimate (a : Nat) : Nat := (tableEntry (a / 8 ^ rootBits a) + 10) * 2 ^ rootBits a / 64

/-- One Newton-Raphson step from the estimate. -/
def tangentRoot (a : Nat) : Nat :=
  (2 * rootEstimate a + a / (rootEstimate a * (rootEstimate a - 1))) * 341 / 1024

theorem tableEntry_bounds : ∀ i < 64, 8 ≤ i → 123 ≤ tableEntry i ∧ tableEntry i ≤ 254 := by
  decide

/-- The entries of the table against the ends of their buckets. -/
theorem tableEntry_cube : ∀ i < 64, 8 ≤ i →
    859 * (tableEntry i + 10) ^ 3 ≤ 1000 * (i * 2 ^ 18) ∧
      1000 * ((i + 1) * 2 ^ 18) ≤ 1003 * (tableEntry i + 10) ^ 3 := by
  decide

/-- The arguments of `cubic_root` for any two windows. -/
structure RootSize (a : Nat) : Prop where
  lower : 2 ^ 31 ≤ a
  upper : a < 2 ^ 64

/-- The arguments of `cubic_root` for windows below a million packets. -/
structure RootRange (a : Nat) : Prop where
  lower : 2 ^ 31 ≤ a
  upper : a < 2 ^ 52

theorem RootRange.size {a : Nat} (h : RootRange a) : RootSize a :=
  ⟨h.lower, h.upper.trans (by decide)⟩

namespace RootSize

variable {a : Nat}

theorem bits (h : RootSize a) : 9 ≤ rootBits a ∧ rootBits a ≤ 20 ∧
    3 * rootBits a + 3 ≤ Nat.log2 a ∧ Nat.log2 a + 1 ≤ 3 * rootBits a + 6 := by
  obtain ⟨hlo, hhi⟩ := h
  have h₁ : 31 ≤ Nat.log2 a := (Nat.le_log2 (by omega)).mpr hlo
  have h₂ : Nat.log2 a < 64 := (Nat.log2_lt (by omega)).mpr hhi
  unfold rootBits
  generalize Nat.log2 a = n at h₁ h₂
  omega

/-- The leading bits number from 8 on, in the table. -/
theorem leading (h : RootSize a) : 8 * 8 ^ rootBits a ≤ a ∧ a < 64 * 8 ^ rootBits a := by
  obtain ⟨-, -, h₁, h₂⟩ := h.bits
  have hne : a ≠ 0 := by
    rintro rfl
    exact absurd h.lower (by decide)
  have hpow : 8 ^ rootBits a = 2 ^ (3 * rootBits a) := by rw [Nat.pow_mul]
  constructor
  · calc 8 * 8 ^ rootBits a = 2 ^ (3 * rootBits a + 3) := by rw [hpow, Nat.pow_add]; ring
      _ ≤ 2 ^ Nat.log2 a := Nat.pow_le_pow_right (by decide) h₁
      _ ≤ a := Nat.log2_self_le hne
  · calc a < 2 ^ (Nat.log2 a + 1) := Nat.lt_log2_self
      _ ≤ 2 ^ (3 * rootBits a + 6) := Nat.pow_le_pow_right (by decide) h₂
      _ = 64 * 8 ^ rootBits a := by rw [hpow, Nat.pow_add]; ring

theorem index (h : RootSize a) : 8 ≤ a / 8 ^ rootBits a ∧ a / 8 ^ rootBits a < 64 := by
  have hpos : 0 < 8 ^ rootBits a := Nat.pow_pos (by decide)
  exact ⟨(Nat.le_div_iff_mul_le hpos).mpr h.leading.1,
    (Nat.div_lt_iff_lt_mul hpos).mpr h.leading.2⟩

theorem entry_bounds (h : RootSize a) : 133 ≤ tableEntry (a / 8 ^ rootBits a) + 10 ∧
    tableEntry (a / 8 ^ rootBits a) + 10 ≤ 264 := by
  have hentry := tableEntry_bounds _ h.index.2 h.index.1
  omega

/-- The estimate is at most a bit more than four times the power of its bits. -/
theorem estimate_le (h : RootSize a) : 64 * rootEstimate a ≤ 264 * 2 ^ rootBits a := by
  have hentry := h.entry_bounds.2
  unfold rootEstimate
  calc 64 * ((tableEntry (a / 8 ^ rootBits a) + 10) * 2 ^ rootBits a / 64)
      ≤ (tableEntry (a / 8 ^ rootBits a) + 10) * 2 ^ rootBits a := Nat.mul_div_le _ 64
    _ ≤ 264 * 2 ^ rootBits a := Nat.mul_le_mul_right _ hentry

/-- The estimate is exact in its bits. -/
theorem estimate_eq (h : RootSize a) : ∃ m, 8 ≤ m ∧ 8 ^ rootBits a = 2 ^ 18 * m ^ 3 ∧
    rootEstimate a = (tableEntry (a / 8 ^ rootBits a) + 10) * m := by
  obtain ⟨hb, -⟩ := h.bits
  obtain ⟨k, hk⟩ : ∃ k, rootBits a = k + 9 := ⟨rootBits a - 9, by omega⟩
  have hpow : 2 ^ (k + 9) = 2 ^ (k + 3) * 64 := by ring
  refine ⟨2 ^ (k + 3), ?_, ?_, ?_⟩
  · exact Nat.pow_le_pow_right (by decide : 0 < 2) (by omega : 3 ≤ k + 3)
  · rw [hk, ← Nat.pow_mul, show (8 : Nat) = 2 ^ 3 from rfl, ← Nat.pow_mul, ← Nat.pow_add]
    congr 1
    ring
  · rw [rootEstimate, hk, hpow, ← Nat.mul_assoc, Nat.mul_div_cancel _ (by decide)]

theorem estimate_large (h : RootSize a) : 1064 ≤ rootEstimate a := by
  obtain ⟨m, hm, -, heq⟩ := h.estimate_eq
  rw [heq]
  exact Nat.mul_le_mul h.entry_bounds.1 hm

/-- The estimate's cube against the argument. -/
theorem estimate_cube (h : RootSize a) :
    859 * rootEstimate a ^ 3 ≤ 1000 * a ∧ 1000 * a ≤ 1003 * rootEstimate a ^ 3 := by
  obtain ⟨m, -, hpow, heq⟩ := h.estimate_eq
  obtain ⟨hlo, hhi⟩ := tableEntry_cube _ h.index.2 h.index.1
  have hpos : 0 < 8 ^ rootBits a := Nat.pow_pos (by decide)
  have hfloor := Nat.div_mul_le_self a (8 ^ rootBits a)
  have hceil := Nat.lt_div_mul_add (a := a) hpos
  rw [hpow] at hfloor hceil hlo hhi heq
  rw [heq, Nat.mul_pow]
  generalize a / (2 ^ 18 * m ^ 3) = i at hfloor hceil hlo hhi
  generalize tableEntry i + 10 = w at hlo hhi
  constructor
  · calc 859 * (w ^ 3 * m ^ 3) = 859 * w ^ 3 * m ^ 3 := by ring
      _ ≤ 1000 * (i * 2 ^ 18) * m ^ 3 := Nat.mul_le_mul_right _ hlo
      _ = 1000 * (i * (2 ^ 18 * m ^ 3)) := by ring
      _ ≤ 1000 * a := Nat.mul_le_mul_left _ hfloor
  · calc 1000 * a ≤ 1000 * (i * (2 ^ 18 * m ^ 3) + 2 ^ 18 * m ^ 3) :=
          Nat.mul_le_mul_left _ hceil.le
      _ = 1000 * ((i + 1) * 2 ^ 18) * m ^ 3 := by ring
      _ ≤ 1003 * w ^ 3 * m ^ 3 := Nat.mul_le_mul_right _ hhi
      _ = 1003 * (w ^ 3 * m ^ 3) := by ring

theorem estimate_lt (h : RootSize a) {n : Nat} (hn : 1000 * a < 859 * n ^ 3) :
    rootEstimate a < n := by
  by_contra hle
  have hcube : n ^ 3 ≤ rootEstimate a ^ 3 := Nat.pow_le_pow_left (Nat.le_of_not_lt hle) 3
  have hlo := h.estimate_cube.1
  omega

theorem estimate_small (h : RootSize a) : rootEstimate a < 2800000 :=
  h.estimate_lt (by
    have hupper := h.upper
    omega)

/-- What the step divides by. -/
theorem divisor_pos (h : RootSize a) : 0 < rootEstimate a * (rootEstimate a - 1) := by
  have hlarge := h.estimate_large
  exact Nat.mul_pos (by omega) (by omega)

/-- The quotient of the step is about the estimate again. -/
theorem quotient_le (h : RootSize a) :
    100 * (a / (rootEstimate a * (rootEstimate a - 1))) ≤ 101 * rootEstimate a := by
  have hlarge := h.estimate_large
  have hhi := h.estimate_cube.2
  have hpos := h.divisor_pos
  generalize rootEstimate a = x at hlarge hhi hpos
  have hdiv : a / (x * (x - 1)) * (x * (x - 1)) ≤ a := Nat.div_mul_le_self a _
  have hcube : 1003 * x ^ 3 ≤ 10 * (101 * x * (x * (x - 1))) := by
    calc 1003 * x ^ 3 = x * x * (1003 * x) := by ring
      _ ≤ x * x * (1010 * (x - 1)) := Nat.mul_le_mul_left _ (by omega)
      _ = 10 * (101 * x * (x * (x - 1))) := by ring
  refine Nat.le_of_mul_le_mul_right ?_ hpos
  calc 100 * (a / (x * (x - 1))) * (x * (x - 1))
      = 100 * (a / (x * (x - 1)) * (x * (x - 1))) := Nat.mul_assoc _ _ _
    _ ≤ 100 * a := Nat.mul_le_mul_left 100 hdiv
    _ ≤ 101 * x * (x * (x - 1)) := by omega

/-- The step does not go far from the estimate. -/
theorem tangentRoot_le (h : RootSize a) : 1000 * tangentRoot a ≤ 1003 * rootEstimate a := by
  have hq := h.quotient_le
  unfold tangentRoot
  generalize a / (rootEstimate a * (rootEstimate a - 1)) = q at hq
  omega

theorem tangentRoot_pos (h : RootSize a) : 0 < tangentRoot a := by
  have hlarge := h.estimate_large
  unfold tangentRoot
  generalize a / (rootEstimate a * (rootEstimate a - 1)) = q
  omega

/-- No more than 22 bits. -/
theorem tangentRoot_lt (h : RootSize a) : tangentRoot a < 2900000 := by
  have hlt := h.estimate_small
  have hle := h.tangentRoot_le
  omega

/-- A ninth of it is well below the root. -/
theorem ninth_cube_le (h : RootSize a) :
    8 * (tangentRoot a - tangentRoot a * 8 / 9) ^ 3 ≤ a := by
  have hroot := h.tangentRoot_le
  have hest := h.estimate_le
  have hbits : 2 ^ 9 ≤ 2 ^ rootBits a := Nat.pow_le_pow_right (by decide) h.bits.1
  have hle : tangentRoot a - tangentRoot a * 8 / 9 ≤ 2 ^ rootBits a := by omega
  calc 8 * (tangentRoot a - tangentRoot a * 8 / 9) ^ 3 ≤ 8 * (2 ^ rootBits a) ^ 3 :=
        Nat.mul_le_mul_left 8 (Nat.pow_le_pow_left hle 3)
    _ = 8 * 8 ^ rootBits a := by rw [← Nat.pow_mul, Nat.mul_comm (rootBits a), Nat.pow_mul]
    _ ≤ a := h.leading.1

end RootSize

/-- No more than 19 bits. -/
theorem RootRange.tangentRoot_small {a : Nat} (h : RootRange a) : tangentRoot a < 270000 := by
  have hlt := h.size.estimate_lt (n := 200000) (by
    have hupper := h.upper
    omega)
  have hle := h.size.tangentRoot_le
  omega

/-! ## On the machine -/

/-- `fls64` without its type. -/
def fls (a : Nat) : Nat := if a = 0 then 0 else Nat.log2 a + 1

/-- `cubic_root`, step by step: a table is read inside its bounds, a shift goes by less than
the width, a division has a divisor, and no result leaves its type. -/
def cubicRootChecked (a : Nat) : Option Nat :=
  if fls a < 7 then do
    let i ← below (2 ^ 32) a
    let v ← cubicRootTable[i]?
    let sum ← below (2 ^ 32) (v.toNat + 35)
    pure (sum >>> 6)
  else do
    let b ← below (2 ^ 32) (fls a * 84)
    let b ← sub (b >>> 8) 1
    let bits ← below (2 ^ 32) (b * 3)
    let bits ← below 64 bits
    let shift ← below (2 ^ 32) (a >>> bits)
    let v ← cubicRootTable[shift]?
    let x ← below (2 ^ 32) (v.toNat + 10)
    let b ← below 32 b
    let x ← below (2 ^ 32) (x <<< b)
    let x := x >>> 6
    let y ← sub x 1
    let divisor ← below (2 ^ 64) (x * y)
    let quotient ← div a divisor
    let quotient ← below (2 ^ 32) quotient
    let twice ← below (2 ^ 32) (2 * x)
    let x ← below (2 ^ 32) (twice + quotient)
    let x ← below (2 ^ 32) (x * 341)
    pure (x >>> 10)

theorem fls64_toNat (a : UInt64) : (fls64 a).toNat = fls a.toNat := by
  rw [fls64, fls]
  by_cases h : a = 0
  · rw [h]
    rfl
  · have hne : a.toNat ≠ 0 := fun h₀ => h (UInt64.toNat_inj.mp h₀)
    have hlog : Nat.log2 a.toNat < 64 := (Nat.log2_lt hne).mpr a.toNat_lt
    have hnat : a.log2.toNat = Nat.log2 a.toNat := rfl
    rw [if_neg h, if_neg hne, UInt64.toNat_toUInt32, UInt64.toNat_add, hnat]
    simp only [UInt64.reduceToNat]
    omega

theorem entry_agrees (i : UInt32) :
    Agrees cubicRootTable[i.toNat]? (cubicRootTable.getD i.toNat 0) := by
  intro v h
  rw [List.getD_eq_getElem?_getD, h]
  rfl

/-- Where all its steps pass, `cubic_root` computes it. -/
theorem cubicRootChecked_agrees (a : UInt64) :
    Agrees (cubicRootChecked a.toNat) (cubicRoot a).toNat := by
  have hseven : fls64 a < 7 ↔ fls a.toNat < 7 := by
    rw [UInt32.lt_iff_toNat_lt, fls64_toNat]
    rfl
  rw [cubicRootChecked, cubicRoot]
  dsimp only
  by_cases hb : fls a.toNat < 7
  · rw [if_pos hb, if_pos (hseven.mpr hb)]
    refine .bind (.toUInt32 rfl) fun _ => .bind (entry_agrees _) fun _ => ?_
    refine .bind (.add32 (x := cubicRootEntry a.toUInt32) (y := 35)
      (UInt8.toNat_toUInt32 _) rfl) fun _ => ?_
    rw [UInt32.toNat_shiftRight]
    exact .pure _
  · rw [if_neg hb, if_neg fun h => hb (hseven.mp h)]
    refine .bind (.mul32 (y := 84) (fls64_toNat a) rfl) fun _ => ?_
    refine .bind (.sub32 (x := (fls64 a * 84) >>> 8) (y := 1) (UInt32.toNat_shiftRight _ _)
      rfl) fun _ => ?_
    generalize ((fls64 a * 84) >>> 8) - 1 = b
    refine .bind (.mul32 (y := 3) rfl rfl) fun _ => .bind (.below fun _ => rfl) fun hbits => ?_
    have hshift : (a >>> (b * 3).toUInt64).toNat = a.toNat >>> (b * 3).toNat := by
      rw [UInt64.toNat_shiftRight, UInt32.toNat_toUInt64,
        Nat.mod_eq_of_lt (below_eq_some.mp hbits).1]
    refine .bind (.toUInt32 hshift) fun _ => .bind (entry_agrees _) fun _ => ?_
    generalize (a >>> (b * 3).toUInt64).toUInt32 = shift
    refine .bind (.add32 (x := cubicRootEntry shift) (y := 10) (UInt8.toNat_toUInt32 _) rfl)
      fun _ => .bind (.below fun _ => rfl) fun hb => ?_
    refine .bind (.shiftLeft32 rfl rfl (below_eq_some.mp hb).1) fun _ => ?_
    have hx : (((cubicRootEntry shift + 10) <<< b) >>> 6).toNat =
        ((cubicRootEntry shift + 10) <<< b).toNat >>> 6 := UInt32.toNat_shiftRight _ _
    rw [← hx]
    generalize ((cubicRootEntry shift + 10) <<< b) >>> 6 = x
    refine .bind (.sub32 (y := 1) rfl rfl) fun _ => ?_
    refine .bind (.mul64 (UInt32.toNat_toUInt64 x) (UInt32.toNat_toUInt64 (x - 1))) fun _ => ?_
    refine .bind (.div64 rfl rfl) fun _ => .bind (.toUInt32 rfl) fun _ => ?_
    refine .bind (.mul32 (x := 2) rfl rfl) fun _ => .bind (.add32 rfl rfl) fun _ => ?_
    refine .bind (.mul32 (y := 341) rfl rfl) fun _ => ?_
    rw [UInt32.toNat_shiftRight]
    exact .pure _

namespace RootSize

variable {a : Nat}

/-- The bits as the code shifts for them. -/
theorem bits_eq (h : RootSize a) :
    (fls a * 84) >>> 8 - 1 = rootBits a ∧ 1 ≤ (fls a * 84) >>> 8 ∧ fls a ≤ 64 ∧ 7 ≤ fls a := by
  have hlower := h.lower
  have hlog : Nat.log2 a < 64 := (Nat.log2_lt (by omega)).mpr h.upper
  have hbits := h.bits
  have hfls : fls a = Nat.log2 a + 1 := if_neg (by omega)
  rw [hfls, Nat.shiftRight_eq_div_pow]
  refine ⟨rfl, ?_, ?_, ?_⟩ <;> omega

/-- The entry that is looked up. -/
theorem entry_eq (h : RootSize a) : ∃ v, cubicRootTable[a / 8 ^ rootBits a]? = some v ∧
    v.toNat = tableEntry (a / 8 ^ rootBits a) := by
  have hlt : a / 8 ^ rootBits a < cubicRootTable.length := h.index.2
  refine ⟨_, List.getElem?_eq_getElem hlt, ?_⟩
  rw [tableEntry, List.getD_eq_getElem?_getD, List.getElem?_eq_getElem hlt]
  rfl

/-- The estimate before its last shift. -/
theorem shifted_lt (h : RootSize a) :
    (tableEntry (a / 8 ^ rootBits a) + 10) <<< rootBits a < 2 ^ 32 := by
  have hpow : 2 ^ rootBits a ≤ 2 ^ 20 := Nat.pow_le_pow_right (by decide) h.bits.2.1
  rw [Nat.shiftLeft_eq]
  exact Nat.lt_of_le_of_lt (Nat.mul_le_mul h.entry_bounds.2 hpow) (by decide)

theorem divisor_lt (h : RootSize a) : rootEstimate a * (rootEstimate a - 1) < 2 ^ 64 := by
  have hsmall := h.estimate_small
  calc rootEstimate a * (rootEstimate a - 1) ≤ 2800000 * 2800000 :=
        Nat.mul_le_mul (by omega) (by omega)
    _ < 2 ^ 64 := by decide

/-- **Every step of `cubic_root` is in range**, whatever the two windows are. -/
theorem checked_eq (h : RootSize a) : cubicRootChecked a = some (tangentRoot a) := by
  obtain ⟨hbits, hone, hfls, hseven⟩ := h.bits_eq
  obtain ⟨v, hv, hentry⟩ := h.entry_eq
  have hroot := h.bits.2.1
  have hindex := h.index.2
  have hsum := h.entry_bounds.2
  have hlarge := h.estimate_large
  have hsmall := h.estimate_small
  have hq := h.quotient_le
  have hleading : a >>> (rootBits a * 3) = a / 8 ^ rootBits a := by
    rw [Nat.shiftRight_eq_div_pow, Nat.mul_comm, Nat.pow_mul]
  have hestimate : (tableEntry (a / 8 ^ rootBits a) + 10) <<< rootBits a >>> 6 =
      rootEstimate a := by
    rw [Nat.shiftLeft_eq, Nat.shiftRight_eq_div_pow, rootEstimate]
  rw [cubicRootChecked, if_neg (by omega)]
  -- the leading bits and the table
  rw [below_bind (by omega), sub_bind hone, hbits, below_bind (by omega), below_bind (by omega),
    hleading, below_bind (by omega), hv, Option.bind_eq_bind, Option.bind_some, hentry,
    below_bind (by omega), below_bind (by omega), below_bind h.shifted_lt, hestimate]
  -- the step
  rw [sub_bind (by omega), below_bind h.divisor_lt, div_bind h.divisor_pos, tangentRoot]
  generalize a / (rootEstimate a * (rootEstimate a - 1)) = q at hq
  rw [below_bind (by omega), below_bind (by omega), below_bind (by omega), below_bind (by omega),
    Nat.shiftRight_eq_div_pow]
  rfl

/-- From a window of 100 packets back to 1000. -/
example : cubicRootChecked (cubeFactor.toNat * 900) = some 13412 := by decide +kernel

end RootSize

/-- **`cubic_root` on the machine.** -/
theorem cubicRoot_toNat {a : UInt64} (h : RootSize a.toNat) :
    (cubicRoot a).toNat = tangentRoot a.toNat :=
  (cubicRootChecked_agrees a _ h.checked_eq).symm

/-! ## How far off -/

/-- A tangent to the cube root lies above it, by the square of how far it has been taken. -/
theorem tangent_cube (p a : Int) :
    (2 * p + a) ^ 3 = 27 * p ^ 2 * a + (a - p) ^ 2 * (a + 8 * p) := by
  ring

theorem tangent_cube_le {p a : Nat} (hlo : 859 * p ≤ 1000 * a) (hhi : 100 * a ≤ 101 * p) :
    125 * (2 * p + a) ^ 3 ≤ 126 * 27 * p ^ 2 * a := by
  zify at hlo hhi ⊢
  generalize (p : Int) = p at hlo hhi
  generalize (a : Int) = a at hlo hhi
  have hp : 0 ≤ p := by omega
  have hfar : 125 * ((a - p) ^ 2 * (a + 8 * p)) ≤ 27 * p ^ 2 * a := by
    -- a cubic in `a` that is not negative at either end
    have hends : 0 ≤ (1000 * a - 859 * p) * (101 * p - 100 * a) :=
      mul_nonneg (by omega) (by omega)
    nlinarith [mul_nonneg hends (by omega : 0 ≤ 100000 * a + 786900 * p),
      mul_nonneg (mul_nonneg hp hp) (by omega : 0 ≤ 1000 * a - 859 * p),
      mul_nonneg (mul_nonneg hp hp) (by omega : 0 ≤ 101 * p - 100 * a)]
  rw [tangent_cube]
  linarith

namespace RootSize

variable {a : Nat}

/-- The step, without the division that rounds it. -/
theorem tangentRoot_mul_le (a : Nat) :
    1024 * tangentRoot a * (rootEstimate a * (rootEstimate a - 1)) ≤
      341 * (2 * (rootEstimate a * (rootEstimate a * (rootEstimate a - 1))) + a) := by
  unfold tangentRoot
  generalize rootEstimate a = x
  generalize x * (x - 1) = d
  have hdiv : a / d * d ≤ a := Nat.div_mul_le_self a d
  have hround : 1024 * ((2 * x + a / d) * 341 / 1024) ≤ (2 * x + a / d) * 341 :=
    Nat.mul_div_le _ 1024
  calc 1024 * ((2 * x + a / d) * 341 / 1024) * d ≤ (2 * x + a / d) * 341 * d :=
        Nat.mul_le_mul_right d hround
    _ = 341 * (2 * (x * d) + a / d * d) := by ring
    _ ≤ 341 * (2 * (x * d) + a) := by omega

/-- The cube of a step, without the factor that the tangent has in common with it. -/
theorem step_cube_le {y a r : Nat} (hy : 0 < y)
    (hstep : 1024 * r * ((y + 1) * y) ≤ 341 * (2 * ((y + 1) * ((y + 1) * y)) + a))
    (htangent : 125 * (2 * ((y + 1) * ((y + 1) * y)) + a) ^ 3 ≤
      126 * 27 * ((y + 1) * ((y + 1) * y)) ^ 2 * a) :
    125 * 1024 ^ 3 * r ^ 3 * y ≤ 126 * 1023 ^ 3 * a * (y + 1) := by
  have hpos : 0 < (y + 1) ^ 3 * y ^ 2 :=
    Nat.mul_pos (Nat.pow_pos (Nat.succ_pos y)) (Nat.pow_pos hy)
  refine Nat.le_of_mul_le_mul_left ?_ hpos
  calc (y + 1) ^ 3 * y ^ 2 * (125 * 1024 ^ 3 * r ^ 3 * y)
      = 125 * (1024 * r * ((y + 1) * y)) ^ 3 := by ring
    _ ≤ 125 * (341 * (2 * ((y + 1) * ((y + 1) * y)) + a)) ^ 3 :=
        Nat.mul_le_mul_left _ (Nat.pow_le_pow_left hstep 3)
    _ = 341 ^ 3 * (125 * (2 * ((y + 1) * ((y + 1) * y)) + a) ^ 3) := by ring
    _ ≤ 341 ^ 3 * (126 * 27 * ((y + 1) * ((y + 1) * y)) ^ 2 * a) :=
        Nat.mul_le_mul_left _ htangent
    _ = (y + 1) ^ 3 * y ^ 2 * (126 * 1023 ^ 3 * a * (y + 1)) := by ring

/-- **`cubic_root` is at most 1/450 too large**: the cube of its result is at most 1/150
larger than its argument. -/
theorem tangentRoot_cube_le (h : RootSize a) : 150 * tangentRoot a ^ 3 ≤ 151 * a := by
  obtain ⟨hlo, hhi⟩ := h.estimate_cube
  have hlarge := h.estimate_large
  have hstep := tangentRoot_mul_le a
  generalize tangentRoot a = r at hstep
  generalize rootEstimate a = x at hlo hhi hlarge hstep
  obtain ⟨y, rfl⟩ : ∃ y, x = y + 1 := ⟨x - 1, by omega⟩
  rw [Nat.add_sub_cancel] at hstep
  -- the tangent starts where the argument is `(y + 1) * ((y + 1) * y)`
  have hstart : 1063 * (y + 1) ^ 3 ≤ 1064 * ((y + 1) * ((y + 1) * y)) := by
    calc 1063 * (y + 1) ^ 3 = (y + 1) * (y + 1) * (1063 * (y + 1)) := by ring
      _ ≤ (y + 1) * (y + 1) * (1064 * y) := Nat.mul_le_mul_left _ (by omega)
      _ = 1064 * ((y + 1) * ((y + 1) * y)) := by ring
  have hstart' : (y + 1) * ((y + 1) * y) ≤ (y + 1) ^ 3 := by
    calc (y + 1) * ((y + 1) * y) ≤ (y + 1) * ((y + 1) * (y + 1)) :=
          Nat.mul_le_mul_left _ (Nat.mul_le_mul_left _ (Nat.le_succ y))
      _ = (y + 1) ^ 3 := by ring
  have hcube := step_cube_le (by omega) hstep (tangent_cube_le (by omega) (by omega))
  have hfinal : 1063 * (125 * 1024 ^ 3 * r ^ 3) ≤ 1064 * (126 * 1023 ^ 3 * a) := by
    refine Nat.le_of_mul_le_mul_right ?_ (by omega : 0 < y)
    calc 1063 * (125 * 1024 ^ 3 * r ^ 3) * y = 1063 * (125 * 1024 ^ 3 * r ^ 3 * y) := by ring
      _ ≤ 1063 * (126 * 1023 ^ 3 * a * (y + 1)) := Nat.mul_le_mul_left _ hcube
      _ = 126 * 1023 ^ 3 * a * (1063 * (y + 1)) := by ring
      _ ≤ 126 * 1023 ^ 3 * a * (1064 * y) := Nat.mul_le_mul_left _ (by omega)
      _ = 1064 * (126 * 1023 ^ 3 * a) * y := by ring
  omega

end RootSize

end LeoEM
