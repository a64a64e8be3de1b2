/-
# `Base.ArgMin` — the first of the least, under another measure

A scan that keeps its best element until it meets a strictly better one ends with
`List.argmin`.  Only the order of the measures matters (`argmin_congr`), and a measure
of what the elements are made into is one of the elements (`argmin_map`).
-/
import Mathlib.Data.List.MinMax

variable {α β γ : Type} [LinearOrder γ]

/-- Measures that order the elements alike have the same first least one. -/
theorem argmin_congr {δ : Type} [LinearOrder δ] {f : α → γ} {g : α → δ} {xs : List α}
    (h : ∀ x ∈ xs, ∀ y ∈ xs, f x < f y ↔ g x < g y) : xs.argmin f = xs.argmin g := by
  induction xs using List.reverseRecOn with
  | nil => rfl
  | append_singleton xs a ih =>
      have ih := ih fun x hx y hy =>
        h x (List.mem_append_left _ hx) y (List.mem_append_left _ hy)
      rw [List.argmin_concat, List.argmin_concat, ih]
      cases hc : xs.argmin g with
      | none => rfl
      | some c =>
          have hac := h a (List.mem_append_right _ List.mem_cons_self) c
            (List.mem_append_left _ (List.argmin_mem hc))
          simp only [hac]

theorem argmin_map (f : β → γ) (m : α → β) (xs : List α) :
    (xs.map m).argmin f = (xs.argmin (f ∘ m)).map m := by
  induction xs using List.reverseRecOn with
  | nil => rfl
  | append_singleton xs a ih =>
      rw [List.map_append, List.map_singleton, List.argmin_concat, List.argmin_concat, ih]
      cases xs.argmin (f ∘ m) with
      | none => rfl
      | some c =>
          simp only [Option.map_some, Function.comp_apply]
          split <;> rfl
