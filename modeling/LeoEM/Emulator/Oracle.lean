/-
# `Emulator.Oracle` — the handovers decided up front are the changes of path

`handovers[k]` gates the reports that are sent ahead of cycle `k`, so it has to be
right before the cycle runs.  Between simple paths it is: its entry is 1 exactly
if cycle `k` has a path and that path is not, node for node, the one of cycle
`k - 1`.

The ends of the paths are compared first, and only between paths with the same
ends is the scan consulted; there a scan without a flag forces the new path to be
a prefix of the old one (`prefix_of_enters`), and the common last node to be all of
it.
-/
import LeoEM.Emulator.Decision
import Mathlib.Algebra.Field.Rat

namespace LeoEM

open PyList

variable {K : Type}

theorem SimplePath.inner_ne_nil {p : List Int} (h : SimplePath 1 p) : inner p ≠ [] := by
  have := h.length
  rw [← List.length_pos_iff, inner_length]
  omega

/-! ## A handover is a change of path -/

theorem routingPath_inner_eq {r r' : Route K} :
    inner (routingPath r) = inner (routingPath r') ↔ inner r.path = inner r'.path := by
  rw [routingPath, routingPath, inner_map, inner_map]
  exact (List.map_injective_iff.mpr (Option.some_injective Int)).eq_iff

/-- Between simple paths with the same ends, a flagged link is a change of path. -/
theorem linksDiffer_iff {last current : Route K} (hl : SimplePath 1 last.path)
    (hc : SimplePath 1 current.path)
    (h : ¬ EndsDiffer (routingPath last) (routingPath current)) :
    LinksDiffer (routingPath last) (routingPath current) ↔ last.path ≠ current.path := by
  have hcne : inner (routingPath current) ≠ [] := by
    rw [routingPath, inner_map]
    exact fun h => hc.inner_ne_nil (List.map_eq_nil_iff.mp h)
  have hlne : inner (routingPath last) ≠ [] := by
    rw [routingPath, inner_map]
    exact fun h => hl.inner_ne_nil (List.map_eq_nil_iff.mp h)
  have hlnd : (inner (routingPath last)).Nodup := by
    rw [routingPath, inner_map]
    exact hl.inner_nodup.map (Option.some_injective Int)
  simp only [EndsDiffer, not_or, not_not] at h
  obtain ⟨arr, harr, hsum⟩ := computeLinkDelta_exact hlnd hcne
    (getItem_one_inj hcne hlne h.1) (getItem_neg_two_inj hcne hlne h.2)
  rw [routingPath_inner_eq, hc.eq_iff hl] at hsum
  simp only [LinksDiffer, harr, Except.ok.injEq, exists_eq_left',
    ← sum_ne_zero_iff (computeLinkDelta_bits harr), ne_eq, hsum, eq_comm]

/-- **Between simple paths a handover is a change of path**, and a path behind a cycle
without one is a change. -/
theorem hasHandover_iff {last : Option (Route K)} {current : Route K}
    (hl : ∀ r, last = some r → SimplePath 1 r.path) (hc : SimplePath 1 current.path) :
    HasHandover last (some current) ↔ ∀ r, last = some r → r.path ≠ current.path := by
  cases last with
  | none => exact iff_of_true trivial (fun r h => nomatch h)
  | some last =>
      have hl := hl last rfl
      by_cases h : EndsDiffer (routingPath last) (routingPath current)
      · refine iff_of_true (Or.inl h) ?_
        rintro r ⟨⟩ heq
        have : routingPath last = routingPath current := by rw [routingPath, routingPath, heq]
        rw [this] at h
        rcases h with h | h
        · exact h rfl
        · exact h rfl
      · have hlinks := linksDiffer_iff hl hc h
        show EndsDiffer _ _ ∨ LinksDiffer _ _ ↔ _
        rw [hlinks]
        constructor
        · rintro (h' | h')
          · exact absurd h' h
          · rintro r ⟨⟩
            exact h'
        · intro h'
          exact Or.inr (h' last rfl)

/-! ## The oracle is exact -/

/-- **The oracle is exact.**  On every list of cycles whose paths are simple paths over
at least one intermediate node the first loop succeeds, and `handovers[k]` is 1
exactly if cycle `k` has a path that is not the path of cycle `k - 1`; and between two
such paths with the same first and last satellite `compute_link_delta` sums to 0 only
if they are the same. -/
theorem handovers_exact (cycles : List (Cycle K)) (h : SimplePaths 1 cycles) :
    (∃ handovers g, precomputeHandovers Globals.start cycles = .ok (handovers, g) ∧
      ∀ k, 1 ≤ k → k < cycles.length →
        (handovers[k]? = some 1 ↔ ∃ r, routeAt cycles k = some r ∧
          ∀ last, routeAt cycles (k - 1) = some last → last.path ≠ r.path)) ∧
    ∀ p q : List Int, SimplePath 1 p → SimplePath 1 q →
      getItem q 1 = getItem p 1 → getItem q (-2) = getItem p (-2) →
      ∃ arr, computeLinkDelta p q = .ok arr ∧ (arr.sum = 0 → p = q) := by
  constructor
  · obtain ⟨handovers, g, hpre⟩ := precomputeHandovers_total Globals.start h.longer
    refine ⟨handovers, g, hpre, ?_⟩
    intro k hk hlt
    obtain ⟨j, rfl⟩ := Nat.exists_eq_add_of_le' hk
    rw [precomputeHandovers_ok hpre hlt, Nat.add_sub_cancel]
    cases hr : routeAt cycles (j + 1) with
    | none => exact iff_of_false (fun hh => hh) (fun ⟨r, hr', _⟩ => nomatch hr')
    | some r =>
        rw [hasHandover_iff (fun _ => h.at) (h.at hr)]
        constructor
        · intro hd
          exact ⟨r, rfl, hd⟩
        · rintro ⟨_, ⟨⟩, hd⟩
          exact hd
  · intro p q hp hq h₁ h₂
    obtain ⟨arr, harr, hsum⟩ := computeLinkDelta_sum hp hq (Nat.le_refl 1)
      (getItem_one_inj hq.inner_ne_nil hp.inner_ne_nil h₁)
      (getItem_neg_two_inj hq.inner_ne_nil hp.inner_ne_nil h₂)
    exact ⟨arr, harr, hsum.mp⟩

/-- Three cycles: a path, none, and another path with a single satellite. -/
def threeCycles : List (Cycle Rat) :=
  [⟨1, some ⟨[-1, 749, 8, -2], 4, [1, 2, 1], 4⟩⟩, ⟨2, none⟩, ⟨3, some ⟨[-1, 749, -2], 3, [1, 1], 2⟩⟩]

theorem threeCycles_simple : SimplePaths 1 threeCycles := by
  intro c hc r hr
  simp only [threeCycles, List.mem_cons, List.not_mem_nil, or_false] at hc
  rcases hc with rfl | rfl | rfl
  · obtain rfl := Option.some.inj hr
    exact ⟨[749, 8], rfl, by decide, by decide⟩
  · cases hr
  · obtain rfl := Option.some.inj hr
    exact ⟨[749], rfl, by decide, by decide⟩

theorem handovers_exact_threeCycles :
    (∃ handovers g, precomputeHandovers Globals.start threeCycles = .ok (handovers, g) ∧
      ∀ k, 1 ≤ k → k < threeCycles.length →
        (handovers[k]? = some 1 ↔ ∃ r, routeAt threeCycles k = some r ∧
          ∀ last, routeAt threeCycles (k - 1) = some last → last.path ≠ r.path)) ∧
    ∃ arr, computeLinkDelta ([-1, 749, 8, -2] : List Int) [-1, 749, 9, 8, -2] = .ok arr ∧
      (arr.sum = 0 → ([-1, 749, 8, -2] : List Int) = [-1, 749, 9, 8, -2]) :=
  have h := handovers_exact threeCycles threeCycles_simple
  ⟨h.1, h.2 _ _ ⟨[749, 8], rfl, by decide, by decide⟩ ⟨[749, 9, 8], rfl, by decide, by decide⟩
    rfl rfl⟩

end LeoEM
