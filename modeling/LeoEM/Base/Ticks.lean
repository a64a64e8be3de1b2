/-
# `Base.Ticks` — a counter of 32 bits and the count it shows

A counter that wraps shows a count up to a multiple of `2 ^ 32` (`Shows`).  The difference
of two counters, taken as a signed number, is that of their counts, as long as these are
less than `2 ^ 31` apart (`Shows.sub_toInt`).
-/
import Mathlib.Algebra.Group.Int.Defs
import Mathlib.Algebra.Group.Nat.Defs

/-- The counter `x` shows `count`. -/
def Shows (x : UInt32) (count : Nat) : Prop := x.toNat = count % 2 ^ 32

/-- The word as a signed number. -/
theorem toInt32_toInt (x : UInt32) : x.toInt32.toInt =
    if 2 * x.toNat < 2 ^ 32 then (x.toNat : Int) else x.toNat - 2 ^ 32 := by
  show x.toInt32.toBitVec.toInt = _
  rw [UInt32.toBitVec_toInt32, BitVec.toInt_eq_toNat_cond]
  rfl

theorem toInt32_neg_iff (x : UInt32) : x.toInt32 < 0 ↔ 2 ^ 31 ≤ x.toNat := by
  have hlt := x.toNat_lt
  rw [Int32.lt_iff_toInt_lt, toInt32_toInt, Int32.toInt_zero]
  split <;> omega

namespace Shows

variable {a b d : UInt32} {m n : Nat}

theorem add (h : Shows a m) (d : UInt32) : Shows (a + d) (m + d.toNat) := by
  rw [Shows, UInt32.toNat_add, h, Nat.mod_add_mod]

/-- **The signed difference** of two counters. -/
theorem sub_toInt (ha : Shows a m) (hb : Shows b n) (hlo : n < m + 2 ^ 31)
    (hhi : m < n + 2 ^ 31) : (a - b).toInt32.toInt = m - n := by
  rw [toInt32_toInt, UInt32.toNat_sub, ha, hb]
  split <;> omega

/-- Which of two counters is ahead. -/
theorem sub_neg_iff (ha : Shows a m) (hb : Shows b n) (hlo : n < m + 2 ^ 31)
    (hhi : m < n + 2 ^ 31) : (a - b).toInt32 < 0 ↔ m < n := by
  rw [Int32.lt_iff_toInt_lt, ha.sub_toInt hb hlo hhi, Int32.toInt_zero]
  omega

end Shows
