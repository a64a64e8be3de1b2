/-
# `Emulator.Groups` — the two groups of intermediate handovers

The handovers inside the path are run in two pools, one after the other, so that no
switch loses both its links.  The placement looks at the last index of the first group
only.  That is enough: an index is put into the second group just when its neighbour
below is in the first, and then it is not in the second (`Placed`).  So in neither
group are there two neighbours, and whatever the workers of a pool do, the links that
are down are links of the group (`mem_downAfter_take`).
-/
import LeoEM.Emulator.Decision
import LeoEM.Emulator.Links

namespace LeoEM

/-! ## The placement -/

/-- Any two indices of the group are more than one apart, the smaller one first. -/
def Spread (group : List Nat) : Prop := group.Pairwise (fun i j => i + 1 < j)

/-- What holds of the groups when the indices below `n` are placed. -/
structure Placed (n : Nat) (groups : List Nat × List Nat) : Prop where
  spread₁ : Spread groups.1
  spread₂ : Spread groups.2
  below₁ : ∀ i ∈ groups.1, i < n
  below₂ : ∀ i ∈ groups.2, i < n
  apart : ∀ i ∈ groups.1, i ∉ groups.2

theorem placed_start : Placed 0 ([], []) where
  spread₁ := List.Pairwise.nil
  spread₂ := List.Pairwise.nil
  below₁ := fun _ h => absurd h List.not_mem_nil
  below₂ := fun _ h => absurd h List.not_mem_nil
  apart := fun _ h => absurd h List.not_mem_nil

theorem spread_concat {group : List Nat} {n : Nat} (h : Spread group)
    (hn : ∀ i ∈ group, i + 1 < n) : Spread (group ++ [n]) := by
  refine List.pairwise_append.mpr ⟨h, List.pairwise_singleton _ _, ?_⟩
  intro i hi j hj
  rw [List.mem_singleton.mp hj]
  exact hn i hi

/-- The largest index of a group is its last. -/
theorem getLast?_of_spread {group : List Nat} {i : Nat} (h : Spread group) (hi : i ∈ group)
    (hmax : ∀ j ∈ group, j ≤ i + 1) : group.getLast? = some i := by
  rcases List.eq_nil_or_concat' group with rfl | ⟨init, last, rfl⟩
  · exact absurd hi List.not_mem_nil
  · rw [List.getLast?_concat]
    rcases List.mem_append.mp hi with hinit | hlast
    · have hlt := (List.pairwise_append.mp h).2.2 i hinit last List.mem_cons_self
      have hle := hmax last (List.mem_append_right _ List.mem_cons_self)
      omega
    · rw [List.mem_singleton.mp hlast]

theorem lt_succ_of_mem_concat {group : List Nat} {n : Nat} (h : ∀ i ∈ group, i < n) :
    ∀ i ∈ group ++ [n], i < n + 1 := by
  intro i hi
  rcases List.mem_append.mp hi with hi | hi
  · exact Nat.lt_succ_of_lt (h i hi)
  · rw [List.mem_singleton.mp hi]
    exact Nat.lt_succ_self n

theorem not_mem_of_below {group : List Nat} {n : Nat} (h : ∀ i ∈ group, i < n) : n ∉ group :=
  fun hn => Nat.lt_irrefl n (h n hn)

theorem apart_concat {xs ys : List Nat} {n : Nat} (h : ∀ i ∈ xs, i ∉ ys) (hn : n ∉ ys) :
    ∀ i ∈ xs ++ [n], i ∉ ys := by
  intro i hi
  rcases List.mem_append.mp hi with hi | hi
  · exact h i hi
  · rwa [List.mem_singleton.mp hi]

/-- The neighbour below is not in a group unless it is its last index. -/
theorem below_of_getLast? {group : List Nat} {n : Nat} (h : Spread group) (hlt : ∀ i ∈ group, i < n)
    (hlast : group.getLast?.map (· + 1) ≠ some n) : ∀ i ∈ group, i + 1 < n := by
  intro i hi
  have hin := hlt i hi
  rcases Nat.lt_or_ge (i + 1) n with hlt' | hge
  · exact hlt'
  · refine absurd ?_ hlast
    rw [getLast?_of_spread h hi (fun j hj => by have := hlt j hj; omega)]
    simp only [Option.map_some, Option.some.injEq]
    omega

/-- The next index, if it is flagged, goes where its neighbour below is not. -/
theorem placed_step {n flag : Nat} {groups : List Nat × List Nat} (h : Placed n groups) :
    Placed (n + 1) (placeHandover groups (flag, n)) := by
  have hup₁ : ∀ i ∈ groups.1, i < n + 1 := fun i hi => Nat.lt_succ_of_lt (h.below₁ i hi)
  have hup₂ : ∀ i ∈ groups.2, i < n + 1 := fun i hi => Nat.lt_succ_of_lt (h.below₂ i hi)
  unfold placeHandover
  split
  case isFalse hflag => exact ⟨h.spread₁, h.spread₂, hup₁, hup₂, h.apart⟩
  case isTrue hflag =>
    split
    case isTrue hlast =>
      exact ⟨spread_concat h.spread₁ (below_of_getLast? h.spread₁ h.below₁ hlast), h.spread₂,
        lt_succ_of_mem_concat h.below₁, hup₂, apart_concat h.apart (not_mem_of_below h.below₂)⟩
    case isFalse hlast =>
      -- the neighbour is in the first group, so it is not in the second
      obtain ⟨i, hi, hin⟩ := Option.map_eq_some_iff.mp (not_not.mp hlast)
      have hmem : i ∈ groups.1 := List.mem_of_getLast? hi
      have hapart := apart_concat (fun j hj hj₁ => h.apart j hj₁ hj) (not_mem_of_below h.below₁)
      refine ⟨h.spread₁, spread_concat h.spread₂ ?_, hup₁, lt_succ_of_mem_concat h.below₂,
        fun j hj₁ hj₂ => hapart j hj₂ hj₁⟩
      intro j hj
      have hlt := h.below₂ j hj
      have hne : j ≠ i := by
        rintro rfl
        exact h.apart j hmem hj
      simp only at hin
      omega

theorem placed_foldl : ∀ (flags : List Nat) {n : Nat} {groups : List Nat × List Nat},
    Placed n groups → Placed (n + flags.length) ((flags.zipIdx n).foldl placeHandover groups) := by
  intro flags
  induction flags with
  | nil =>
      intro n groups h
      exact h
  | cons flag flags ih =>
      intro n groups h
      rw [List.zipIdx_cons, List.foldl_cons, List.length_cons,
        show n + (flags.length + 1) = n + 1 + flags.length by omega]
      exact ih (placed_step h)

/-- The groups of every array. -/
theorem placed_handoverGroups (handoverArr : List Nat) :
    Placed (0 + handoverArr.length) (handoverGroups handoverArr) :=
  placed_foldl handoverArr placed_start

theorem Spread.not_succ_mem {group : List Nat} (h : Spread group) {i : Nat} (hi : i ∈ group) :
    i + 1 ∉ group := by
  intro hj
  obtain ⟨a, ha, hai⟩ := List.mem_iff_getElem.mp hi
  obtain ⟨b, hb, hbj⟩ := List.mem_iff_getElem.mp hj
  have hpair := List.pairwise_iff_getElem.mp h
  rcases Nat.lt_trichotomy a b with hab | rfl | hab
  · have := hpair a b ha hb hab
    omega
  · omega
  · have := hpair b a hb ha hab
    omega

theorem Spread.nodup {group : List Nat} (h : Spread group) : group.Nodup :=
  h.imp fun {i j} (hij : i + 1 < j) => by omega

/-! ## The links that are down meanwhile -/

/-- The link between switch `i` of the chain and the next one. -/
def chainLink (i : Int) : Sym2 NodeName := s(.s i, .s (i + 1))

/-- No switch has both its links of the chain down. -/
def NoSwitchCut (down : Finset (Sym2 NodeName)) : Prop :=
  ∀ k : Int, ¬ (chainLink (k - 1) ∈ down ∧ chainLink k ∈ down)

theorem chainLink_inj {i j : Int} (h : chainLink i = chainLink j) : i = j := by
  rcases Sym2.eq_iff.mp h with ⟨h, -⟩ | ⟨h₁, h₂⟩
  · exact NodeName.s.inj h
  · have h₁ := NodeName.s.inj h₁
    have h₂ := NodeName.s.inj h₂
    omega

/-- A link that is down was down before or was taken down. -/
theorem down_or_called {link : Sym2 NodeName} : ∀ {trace : List LinkAction}
    {down : Finset (Sym2 NodeName)}, link ∈ downAfter down trace →
    link ∈ down ∨ LinkAction.mk link false ∈ trace := by
  intro trace
  induction trace with
  | nil =>
      intro down h
      exact Or.inl h
  | cons a trace ih =>
      intro down h
      rcases ih (show link ∈ downAfter (applyAction down a) trace from h) with hmem | hcalled
      · obtain ⟨other, up⟩ := a
        cases up with
        | true => exact Or.inl (Finset.mem_erase.mp hmem).2
        | false =>
            rcases Finset.mem_insert.mp hmem with rfl | hdown
            · exact Or.inr List.mem_cons_self
            · exact Or.inl hdown
      · exact Or.inr (List.mem_cons_of_mem a hcalled)

/-- **At any time in a pool**, whatever its workers have done, a link that is down is one of
the group. -/
theorem mem_downAfter_take {group : List Nat} {trace : List LinkAction}
    (h : Interleaving (group.map simulateLinkBreak) trace) (n : Nat) {link : Sym2 NodeName}
    (hlink : link ∈ downAfter ∅ (trace.take n)) : ∃ i ∈ group, link = chainLink i := by
  rcases down_or_called hlink with hno | hcalled
  · exact absurd hno (Finset.notMem_empty link)
  · obtain ⟨t, ht, hmem⟩ := h.mem_thread _ (List.mem_of_mem_take hcalled)
    obtain ⟨i, hi, rfl⟩ := List.mem_map.mp ht
    refine ⟨i, hi, ?_⟩
    simp only [simulateLinkBreak, breakLink, List.mem_cons, LinkAction.mk.injEq,
      List.not_mem_nil, or_false, Bool.false_eq_true, and_false, and_true] at hmem
    exact hmem

theorem noSwitchCut_take {group : List Nat} (hspread : Spread group) {trace : List LinkAction}
    (h : Interleaving (group.map simulateLinkBreak) trace) (n : Nat) :
    NoSwitchCut (downAfter ∅ (trace.take n)) := by
  rintro k ⟨hbelow, habove⟩
  obtain ⟨i, hi, hik⟩ := mem_downAfter_take h n hbelow
  obtain ⟨j, hj, hjk⟩ := mem_downAfter_take h n habove
  have hij : j = i + 1 := by
    have h₁ := chainLink_inj hik
    have h₂ := chainLink_inj hjk
    omega
  exact hspread.not_succ_mem hi (hij ▸ hj)

/-- Behind a pool no link is down. -/
theorem downAfter_pool {group : List Nat} {trace : List LinkAction}
    (h : Interleaving (group.map simulateLinkBreak) trace) : downAfter ∅ trace = ∅ := by
  have hheal : (Cmd.simulateLinkBreaks group : Cmd Nat).Healing :=
    healing_of_ne fun _ _ _ heq => nomatch heq
  exact Finset.subset_empty.mp (downAfter_subset (hheal trace h))

/-- **The two pools of a cycle**: the groups share out the flagged indices, there are no two
neighbours in either, and so at no time of the phase, however the workers interleave, has a
switch both its links down. -/
theorem handoverGroups_safe (K : Type) (handoverArr : List Nat) :
    (∀ i, (i ∈ (handoverGroups handoverArr).1 ∨ i ∈ (handoverGroups handoverArr).2) ↔
      handoverArr[i]? = some 1) ∧
    ((handoverGroups handoverArr).1 ++ (handoverGroups handoverArr).2).Nodup ∧
    (∀ i ∈ (handoverGroups handoverArr).1, i + 1 ∉ (handoverGroups handoverArr).1) ∧
    (∀ i ∈ (handoverGroups handoverArr).2, i + 1 ∉ (handoverGroups handoverArr).2) ∧
    ∀ trace, LogCalls ([.simulateLinkBreaks (handoverGroups handoverArr).1,
        .simulateLinkBreaks (handoverGroups handoverArr).2] : List (Cmd K)) trace →
      ∀ n, NoSwitchCut (downAfter ∅ (trace.take n)) := by
  have hplaced := placed_handoverGroups handoverArr
  refine ⟨fun i => mem_handoverGroups, ?_, fun i hi => hplaced.spread₁.not_succ_mem hi,
    fun i hi => hplaced.spread₂.not_succ_mem hi, ?_⟩
  · refine List.nodup_append.mpr ⟨hplaced.spread₁.nodup, hplaced.spread₂.nodup, ?_⟩
    intro i hi j hj hij
    exact hplaced.apart i hi (hij ▸ hj)
  · intro trace hcalls n
    cases hcalls with
    | @cons _ _ t rest hc hrest =>
        have hc' := logCalls_singleton hrest
        rw [List.take_append]
        rcases Nat.le_total n t.length with hn | hn
        · rw [Nat.sub_eq_zero_of_le hn, List.take_zero, List.append_nil]
          exact noSwitchCut_take hplaced.spread₁ hc n
        · rw [List.take_of_length_le hn, downAfter_append, downAfter_pool hc]
          exact noSwitchCut_take hplaced.spread₂ hc' _

end LeoEM
