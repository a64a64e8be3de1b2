/-
# `Base.Checked` — machine arithmetic that may not wrap

A computation on machine integers is written here once more, over the natural numbers and
with a check at every step: `below n x` is `x`, as long as it is below `n`, and a
difference or a quotient is there only where it is defined.  If all checks pass, the
machine computes the same (`Agrees`); there is one rule for each operation, and `bind`
puts them together.
-/
import Mathlib.Algebra.Group.Nat.Defs

namespace Checked

/-- `x`, if it is below `n`. -/
def below (n x : Nat) : Option Nat := if x < n then some x else none

/-- `x - y`, if it is not negative. -/
def sub (x y : Nat) : Option Nat := if y ≤ x then some (x - y) else none

/-- `x / y`, if it is defined. -/
def div (x y : Nat) : Option Nat := if 0 < y then some (x / y) else none

section Pass

variable {n x y z : Nat}

theorem below_of_lt (h : x < n) : below n x = some x := if_pos h

theorem sub_of_le (h : y ≤ x) : sub x y = some (x - y) := if_pos h

theorem div_of_pos (h : 0 < y) : div x y = some (x / y) := if_pos h

theorem below_eq_some : below n x = some z ↔ x < n ∧ x = z := by
  rw [below, Option.ite_none_right_eq_some, Option.some.injEq]

theorem sub_eq_some : sub x y = some z ↔ y ≤ x ∧ x - y = z := by
  rw [sub, Option.ite_none_right_eq_some, Option.some.injEq]

theorem div_eq_some : div x y = some z ↔ 0 < y ∧ x / y = z := by
  rw [div, Option.ite_none_right_eq_some, Option.some.injEq]

/-! A step that passes goes on with its result. -/

variable {α : Type}

theorem below_bind (h : x < n) (f : Nat → Option α) : (below n x >>= f) = f x := by
  rw [below_of_lt h]
  rfl

theorem sub_bind (h : y ≤ x) (f : Nat → Option α) : (sub x y >>= f) = f (x - y) := by
  rw [sub_of_le h]
  rfl

theorem div_bind (h : 0 < y) (f : Nat → Option α) : (div x y >>= f) = f (x / y) := by
  rw [div_of_pos h]
  rfl

end Pass

/-! ## Agreement with the machine -/

/-- If the checks of `e` pass, its result is `m`. -/
def Agrees {α : Type} (e : Option α) (m : α) : Prop := ∀ n, e = some n → n = m

namespace Agrees

variable {α β : Type}

theorem pure (m : α) : Agrees (some m) m := fun _ h => (Option.some.inj h).symm

/-- What comes behind a step need only agree if the step has passed. -/
theorem bind {e : Option α} {m : α} {f : α → Option β} {r : β} (he : Agrees e m)
    (hf : e = some m → Agrees (f m) r) : Agrees (e.bind f) r := by
  intro n h
  obtain ⟨k, hk, hn⟩ := Option.bind_eq_some_iff.mp h
  obtain rfl := he k hk
  exact hf hk n hn

theorem below {n x m : Nat} (h : x < n → x = m) : Agrees (below n x) m := by
  intro z hz
  obtain ⟨hlt, rfl⟩ := below_eq_some.mp hz
  exact h hlt

section Words

variable {x y : UInt32} {a b : UInt64} {m k : Nat}

theorem add32 (hx : x.toNat = m) (hy : y.toNat = k) :
    Agrees (Checked.below (2 ^ 32) (m + k)) (x + y).toNat :=
  below fun h => by rw [UInt32.toNat_add, hx, hy, Nat.mod_eq_of_lt h]

theorem mul32 (hx : x.toNat = m) (hy : y.toNat = k) :
    Agrees (Checked.below (2 ^ 32) (m * k)) (x * y).toNat :=
  below fun h => by rw [UInt32.toNat_mul, hx, hy, Nat.mod_eq_of_lt h]

theorem sub32 (hx : x.toNat = m) (hy : y.toNat = k) : Agrees (Checked.sub m k) (x - y).toNat := by
  intro z hz
  obtain ⟨hle, rfl⟩ := sub_eq_some.mp hz
  have hyx : y ≤ x := by rwa [UInt32.le_iff_toNat_le, hx, hy]
  rw [UInt32.toNat_sub_of_le x y hyx, hx, hy]

/-- A shift by less than the width. -/
theorem shiftLeft32 (hx : x.toNat = m) (hy : y.toNat = k) (hk : k < 32) :
    Agrees (Checked.below (2 ^ 32) (m <<< k)) (x <<< y).toNat :=
  below fun h => by
    rw [UInt32.toNat_shiftLeft, hx, hy, Nat.mod_eq_of_lt hk, Nat.mod_eq_of_lt h]

theorem mul64 (ha : a.toNat = m) (hb : b.toNat = k) :
    Agrees (Checked.below (2 ^ 64) (m * k)) (a * b).toNat :=
  below fun h => by rw [UInt64.toNat_mul, ha, hb, Nat.mod_eq_of_lt h]

theorem div64 (ha : a.toNat = m) (hb : b.toNat = k) : Agrees (Checked.div m k) (a / b).toNat := by
  intro z hz
  obtain ⟨-, rfl⟩ := div_eq_some.mp hz
  rw [UInt64.toNat_div, ha, hb]

theorem toUInt32 (ha : a.toNat = m) : Agrees (Checked.below (2 ^ 32) m) a.toUInt32.toNat :=
  below fun h => by rw [UInt64.toNat_toUInt32, ha, Nat.mod_eq_of_lt h]

end Words

end Agrees

end Checked
