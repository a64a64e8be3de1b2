/-
# `Base.Table` — two-dimensional tables written entry by entry

A program fills a table by assignments `t(a, b) = v` in nested loops, and often writes an
entry and its mirror image.  If what it writes depends on the pair alone, and in the same
way on its mirror image, neither the order of the writes nor their number matters
(`foldl_setBoth`).
-/
import Mathlib.Data.List.Basic

/-- A table, as the function that reads it. -/
abbrev Table (ι β : Type) := ι → ι → β

namespace Table

variable {ι β γ : Type} [DecidableEq ι]

/-- `t(a, b) = v` -/
def set (t : Table ι β) (a b : ι) (v : β) : Table ι β :=
  fun x y => if x = a ∧ y = b then v else t x y

/-- `t(a, b) = v`, then `t(b, a) = t(a, b)`. -/
def setBoth (t : Table ι β) (a b : ι) (v : β) : Table ι β :=
  (t.set a b v).set b a (t.set a b v a b)

theorem set_self (t : Table ι β) (a b : ι) (v : β) : t.set a b v a b = v :=
  if_pos ⟨rfl, rfl⟩

theorem setBoth_apply (t : Table ι β) (a b : ι) (v : β) (x y : ι) :
    t.setBoth a b v x y = if (x = a ∧ y = b) ∨ (x = b ∧ y = a) then v else t x y := by
  unfold setBoth
  rw [set_self]
  by_cases h₁ : x = b ∧ y = a
  · rw [if_pos (Or.inr h₁)]
    exact if_pos h₁
  · rw [show ((t.set a b v).set b a v) x y = t.set a b v x y from if_neg h₁]
    by_cases h₂ : x = a ∧ y = b
    · rw [if_pos (Or.inl h₂)]
      exact if_pos h₂
    · rw [if_neg (not_or.mpr ⟨h₂, h₁⟩)]
      exact if_neg h₂

/-- **Symmetric writes.**  Behind writes of `w a b` for every pair of a list, the table holds
`w` at those pairs and their mirror images, and elsewhere what it held before. -/
theorem foldl_setBoth {w : ι → ι → β} (hw : ∀ a b, w a b = w b a) :
    ∀ (pairs : List (ι × ι)) (t : Table ι β) (x y : ι),
      pairs.foldl (fun t p => t.setBoth p.1 p.2 (w p.1 p.2)) t x y =
        if (x, y) ∈ pairs ∨ (y, x) ∈ pairs then w x y else t x y := by
  intro pairs
  induction pairs with
  | nil => intro t x y; simp
  | cons p pairs ih =>
      intro t x y
      obtain ⟨a, b⟩ := p
      rw [List.foldl_cons, ih, setBoth_apply]
      by_cases hmem : (x, y) ∈ pairs ∨ (y, x) ∈ pairs
      · rw [if_pos hmem, if_pos (hmem.imp (List.mem_cons_of_mem _) (List.mem_cons_of_mem _))]
      · rw [if_neg hmem]
        by_cases hxy : (x = a ∧ y = b) ∨ (x = b ∧ y = a)
        · rw [if_pos hxy]
          rcases hxy with ⟨rfl, rfl⟩ | ⟨rfl, rfl⟩
          · exact (if_pos (Or.inl List.mem_cons_self)).symm
          · rw [if_pos (Or.inr List.mem_cons_self), hw]
        · rw [if_neg hxy, if_neg]
          intro h
          rcases h with h | h
          · rcases List.mem_cons.mp h with h | h
            · exact hxy (Or.inl (Prod.mk.inj h))
            · exact hmem (Or.inl h)
          · rcases List.mem_cons.mp h with h | h
            · exact hxy (Or.inr ⟨(Prod.mk.inj h).2, (Prod.mk.inj h).1⟩)
            · exact hmem (Or.inr h)

end Table
