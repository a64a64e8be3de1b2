/-
# `Emulator.Decision` — the two handover decisions are one

Whether a cycle has a handover is decided twice, by code of different shape: up
front from adjacent cycles (`precomputeStep`), where the links between satellites
are compared only if both end satellites are unchanged; and at run time from the
globals (`planHandovers`), where they are always compared.  `HasHandover` says
once what both decide:

    precomputeStep_ok     the up-front bit is 1        ⟺  HasHandover last current
    planHandovers_ok      the run-time plan triggers   ⟺  HasHandover last current

The second holds for globals that show the true predecessor; that they do is the
matter of `Emulator.Run`.  Between simple paths a handover is just a change of
path (`hasHandover_iff`), which makes the up-front oracle exact.
-/
import LeoEM.Emulator.Update

namespace LeoEM

open PyList

variable {K : Type}

/-- One of the two end satellites is not the last one. -/
def EndsDiffer (last current : List (Option Int)) : Prop :=
  getItem current 1 ≠ getItem last 1 ∨ getItem current (-2) ≠ getItem last (-2)

/-- The scan flags a link. -/
def LinksDiffer (last current : List (Option Int)) : Prop :=
  ∃ arr, computeLinkDelta last current = .ok arr ∧ 1 ∈ arr

/-- There is a handover from one cycle to the next. -/
def HasHandover : Option (Route K) → Option (Route K) → Prop
  | _, none => False
  | none, some _ => True
  | some last, some current =>
      EndsDiffer (routingPath last) (routingPath current) ∨
        LinksDiffer (routingPath last) (routingPath current)

/-! ## The decision up front -/

/-- What a round of the first loop leaves in the globals. -/
def Globals.precomputed (g : Globals K) : Option (Route K) → Option (Route K) → Globals K
  | some last, some current =>
      { g with currentRoutingPath := routingPath current, lastRoutingPath := routingPath last }
  | _, _ => g

theorem precomputeStep_ok {g g' : Globals K} {last current : Cycle K} {b : Nat}
    (h : precomputeStep g last current = .ok (b, g')) :
    g' = g.precomputed last.route current.route ∧ (b = 0 ∨ b = 1) ∧
      (b = 1 ↔ HasHandover last.route current.route) := by
  unfold precomputeStep at h
  cases hc : current.route with
  | none =>
      simp only [hc, Except.ok.injEq, Prod.mk.injEq] at h
      obtain ⟨rfl, rfl⟩ := h
      exact ⟨by cases last.route <;> rfl, Or.inl rfl, by simp [HasHandover]⟩
  | some cur =>
      cases hl : last.route with
      | none =>
          simp only [hc, hl, Except.ok.injEq, Prod.mk.injEq] at h
          obtain ⟨rfl, rfl⟩ := h
          exact ⟨rfl, Or.inr rfl, by simp [HasHandover]⟩
      | some lst =>
          simp only [hc, hl, bind_eq_ok] at h
          obtain ⟨c₁, hc₁, l₁, hl₁, c₂, hc₂, l₂, hl₂, h⟩ := h
          have hends : EndsDiffer (routingPath lst) (routingPath cur) ↔ c₁ ≠ l₁ ∨ c₂ ≠ l₂ := by
            simp only [EndsDiffer, hc₁, hl₁, hc₂, hl₂, ne_eq, Except.ok.injEq]
          by_cases he : c₁ ≠ l₁ ∨ c₂ ≠ l₂
          · rw [if_pos he, Except.ok.injEq, Prod.mk.injEq] at h
            obtain ⟨rfl, rfl⟩ := h
            exact ⟨rfl, Or.inr rfl, iff_of_true rfl (Or.inl (hends.mpr he))⟩
          · rw [if_neg he, bind_eq_ok] at h
            obtain ⟨arr, harr, h⟩ := h
            have hsum := sum_ne_zero_iff (computeLinkDelta_bits harr)
            have hlinks : LinksDiffer (routingPath lst) (routingPath cur) ↔ 1 ∈ arr := by
              simp only [LinksDiffer, harr, Except.ok.injEq, exists_eq_left']
            by_cases hs : arr.sum ≠ 0
            · rw [if_pos hs, Except.ok.injEq, Prod.mk.injEq] at h
              obtain ⟨rfl, rfl⟩ := h
              exact ⟨rfl, Or.inr rfl, iff_of_true rfl (Or.inr (hlinks.mpr (hsum.mp hs)))⟩
            · rw [if_neg hs, Except.ok.injEq, Prod.mk.injEq] at h
              obtain ⟨rfl, rfl⟩ := h
              refine ⟨rfl, Or.inl rfl, iff_of_false Nat.zero_ne_one ?_⟩
              rintro (h | h)
              · exact he (hends.mp h)
              · exact hs (hsum.mpr (hlinks.mp h))

/-- The entry of each cycle behind the first is the bit of a round on it and its
predecessor. -/
theorem precomputeFrom_ok : ∀ {rest : List (Cycle K)} {g g' : Globals K} {last : Cycle K}
    {handovers : List Nat}, precomputeFrom g last rest = .ok (handovers, g') →
    ∀ k b : Nat, handovers[k]? = some b ↔ ∃ prev current : Cycle K,
      (last :: rest)[k]? = some prev ∧ rest[k]? = some current ∧ (b = 0 ∨ b = 1) ∧
      (b = 1 ↔ HasHandover prev.route current.route) := by
  intro rest
  induction rest with
  | nil =>
      intro g g' last handovers h k b
      simp only [precomputeFrom, Except.ok.injEq, Prod.mk.injEq] at h
      obtain ⟨rfl, -⟩ := h
      simp
  | cons current rest ih =>
      intro g g' last handovers h k b
      simp only [precomputeFrom, bind_eq_ok, Prod.exists, Except.ok.injEq, Prod.mk.injEq] at h
      obtain ⟨b₀, g₁, h₀, bs, g₂, hbs, rfl, -⟩ := h
      obtain ⟨-, hbit, hiff⟩ := precomputeStep_ok h₀
      cases k with
      | zero =>
          simp only [List.getElem?_cons_zero, Option.some.injEq]
          constructor
          · rintro rfl
            exact ⟨last, current, rfl, rfl, hbit, hiff⟩
          · rintro ⟨_, _, rfl, rfl, hbit', hiff'⟩
            -- two bits that are 1 in the same case are the same bit
            have : b₀ = 1 ↔ b = 1 := hiff.trans hiff'.symm
            omega
      | succ k =>
          simp only [List.getElem?_cons_succ]
          exact ih hbs k b

/-- **The up-front decision.**  Entry `k + 1` of `handovers` is a bit, and it is 1 exactly
if there is a handover from cycle `k` to cycle `k + 1`. -/
theorem precomputeHandovers_ok {cycles : List (Cycle K)} {g g' : Globals K}
    {handovers : List Nat} (h : precomputeHandovers g cycles = .ok (handovers, g')) {k : Nat}
    (hk : k + 1 < cycles.length) :
    handovers[k + 1]? = some 1 ↔ HasHandover (routeAt cycles k) (routeAt cycles (k + 1)) := by
  cases cycles with
  | nil => simp at hk
  | cons first rest =>
      simp only [precomputeHandovers, bind_eq_ok, Prod.exists, Except.ok.injEq,
        Prod.mk.injEq] at h
      obtain ⟨bs, g₁, hbs, rfl, -⟩ := h
      have hrest : k < rest.length := by simpa using hk
      have hprev : (first :: rest)[k]? = some ((first :: rest)[k]) :=
        List.getElem?_eq_getElem (by simp; omega)
      have hcur : rest[k]? = some rest[k] := List.getElem?_eq_getElem hrest
      have hr : routeAt (first :: rest) (k + 1) = rest[k].route := by simp [routeAt, hcur]
      have hp : routeAt (first :: rest) k = (first :: rest)[k].route := by
        simp only [routeAt, hprev, Option.bind_some]
      rw [List.getElem?_cons_succ, precomputeFrom_ok hbs, hr, hp]
      constructor
      · rintro ⟨prev, current, hp', hc', -, hiff⟩
        rw [hprev, Option.some.injEq] at hp'
        rw [hcur, Option.some.injEq] at hc'
        subst hp' hc'
        exact hiff.mp rfl
      · intro hh
        exact ⟨_, _, hprev, hcur, Or.inr rfl, iff_of_true rfl hh⟩

/-! ### With three nodes or more a path the first loop never raises -/

/-- A path with an intermediate node shows its first and its last one. -/
theorem exists_ends {r : Route K} (h : 3 ≤ r.path.length) :
    ∃ x y : Option Int, (inner (routingPath r)).head? = some x ∧
      (inner (routingPath r)).getLast? = some y ∧ getItem (routingPath r) 1 = .ok x ∧
      getItem (routingPath r) (-2) = .ok y := by
  have hne : inner (routingPath r) ≠ [] := by
    rw [← List.length_pos_iff, inner_length, routingPath, List.length_map]
    omega
  have hx := List.head?_eq_some_head hne
  have hy := List.getLast?_eq_some_getLast hne
  exact ⟨_, _, hx, hy, getItem_one_of_inner hx, getItem_neg_two_of_inner hy⟩

theorem precomputeStep_total (g : Globals K) {last current : Cycle K}
    (hl : ∀ r, last.route = some r → 3 ≤ r.path.length)
    (hc : ∀ r, current.route = some r → 3 ≤ r.path.length) :
    ∃ b g', precomputeStep g last current = .ok (b, g') := by
  unfold precomputeStep
  cases hcur : current.route with
  | none => exact ⟨0, g, rfl⟩
  | some cur =>
      cases hlast : last.route with
      | none => exact ⟨1, g, rfl⟩
      | some lst =>
          obtain ⟨c₁, c₂, hch, -, hc₁, hc₂⟩ := exists_ends (hc cur hcur)
          obtain ⟨l₁, l₂, hlh, -, hl₁, hl₂⟩ := exists_ends (hl lst hlast)
          simp only [hc₁, hc₂, hl₁, hl₂, ok_bind]
          by_cases he : c₁ ≠ l₁ ∨ c₂ ≠ l₂
          · exact ⟨1, _, if_pos he⟩
          · push Not at he
            have hhead : (inner (routingPath cur)).head? = (inner (routingPath lst)).head? := by
              rw [hch, hlh, he.1]
            obtain ⟨arr, harr⟩ := computeLinkDelta_ok_iff.mpr (not_wrapsAtStart hhead)
            rw [if_neg (by simp [he]), harr, ok_bind]
            by_cases hs : arr.sum ≠ 0
            · exact ⟨1, _, if_pos hs⟩
            · exact ⟨0, _, if_neg hs⟩

theorem precomputeFrom_total : ∀ {rest : List (Cycle K)} (g : Globals K) (last : Cycle K),
    PathsLonger 3 (last :: rest) → ∃ hs g', precomputeFrom g last rest = .ok (hs, g') := by
  intro rest
  induction rest with
  | nil => intro g last _; exact ⟨[], g, rfl⟩
  | cons current rest ih =>
      intro g last h
      obtain ⟨b, g₁, hb⟩ := precomputeStep_total g (h last List.mem_cons_self)
        (h current (List.mem_cons_of_mem _ List.mem_cons_self))
      obtain ⟨bs, g₂, hbs⟩ := ih g₁ current fun c hc => h c (List.mem_cons_of_mem _ hc)
      exact ⟨b :: bs, g₂, by simp only [precomputeFrom, hb, ok_bind, hbs]⟩

theorem precomputeHandovers_total (g : Globals K) {cycles : List (Cycle K)}
    (h : PathsLonger 3 cycles) : ∃ hs g', precomputeHandovers g cycles = .ok (hs, g') := by
  cases cycles with
  | nil => exact ⟨[0], g, rfl⟩
  | cons first rest =>
      obtain ⟨bs, g', hbs⟩ := precomputeFrom_total g first h
      exact ⟨0 :: bs, g', by simp only [precomputeHandovers, hbs, ok_bind]⟩

/-! ## Between simple paths -/

/-- Simple paths with the same first and the same last satellite are compared node for
node. -/
theorem computeLinkDelta_sum {m n : Nat} {p q : List Int} (hp : SimplePath m p)
    (hq : SimplePath n q) (hn : 1 ≤ n) (h₁ : (inner q).head? = (inner p).head?)
    (h₂ : (inner q).getLast? = (inner p).getLast?) :
    ∃ arr, computeLinkDelta p q = .ok arr ∧ (arr.sum = 0 ↔ p = q) := by
  have hne : inner q ≠ [] := by
    have := hq.length
    rw [← List.length_pos_iff, inner_length]
    omega
  obtain ⟨arr, harr, hsum⟩ := computeLinkDelta_exact hp.inner_nodup hne h₁ h₂
  exact ⟨arr, harr, by rw [hsum, hq.eq_iff hp, eq_comm]⟩

/-! ## The decision at run time -/

section Plan

variable [Field K]

theorem mem_placeHandover {groups : List Nat × List Nat} {flag : Nat × Nat} {i : Nat} :
    (i ∈ (placeHandover groups flag).1 ∨ i ∈ (placeHandover groups flag).2) ↔
      (i ∈ groups.1 ∨ i ∈ groups.2) ∨ (flag.1 = 1 ∧ i = flag.2) := by
  unfold placeHandover
  split
  next hf =>
    split <;> simp only [List.mem_append, List.mem_singleton, hf, true_and] <;> tauto
  next hf => simp [hf]

theorem mem_foldl_placeHandover : ∀ {flags : List (Nat × Nat)} {groups : List Nat × List Nat}
    {i : Nat}, (i ∈ (flags.foldl placeHandover groups).1 ∨
      i ∈ (flags.foldl placeHandover groups).2) ↔
      (i ∈ groups.1 ∨ i ∈ groups.2) ∨ (1, i) ∈ flags := by
  intro flags
  induction flags with
  | nil => intro groups i; simp
  | cons flag flags ih =>
      intro groups i
      rw [List.foldl_cons, ih, mem_placeHandover, or_assoc, List.mem_cons, Prod.ext_iff]
      simp only [eq_comm (a := (1 : Nat))]

/-- An index is placed exactly if it is flagged. -/
theorem mem_handoverGroups {arr : List Nat} {i : Nat} :
    (i ∈ (handoverGroups arr).1 ∨ i ∈ (handoverGroups arr).2) ↔ arr[i]? = some 1 := by
  rw [handoverGroups, mem_foldl_placeHandover]
  simp [List.mem_zipIdx_iff_getElem?]

theorem handoverGroups_eq_nil {arr : List Nat} :
    (handoverGroups arr).1 ≠ [] ∨ (handoverGroups arr).2 ≠ [] ↔ 1 ∈ arr := by
  rw [List.mem_iff_getElem?]
  simp only [← mem_handoverGroups, List.ne_nil_iff_exists_cons]
  constructor
  · rintro (⟨i, l, h⟩ | ⟨i, l, h⟩)
    · exact ⟨i, Or.inl (by rw [h]; exact List.mem_cons_self)⟩
    · exact ⟨i, Or.inr (by rw [h]; exact List.mem_cons_self)⟩
  · rintro ⟨i, h | h⟩
    · exact Or.inl (List.exists_cons_of_ne_nil (List.ne_nil_of_mem h))
    · exact Or.inr (List.exists_cons_of_ne_nil (List.ne_nil_of_mem h))

/-- With no last path both dishes have a handover. -/
theorem endHandoverNodes_none {n : Nat} {g : Globals K} {delays : List K}
    {ends : List (EndHandover K)} (hg : g.lastNodeDelay = none)
    (h : endHandoverNodes n g delays = .ok ends) : ends ≠ [] := by
  simp only [endHandoverNodes, hg, bind_eq_ok, Except.ok.injEq] at h
  obtain ⟨_, -, _, -, rfl⟩ := h
  exact List.cons_ne_nil _ _

theorem gatewayChange_ok {dish sat : NodeName} {i : Int} {current last : Option Int}
    {delays lastDelays : List K} {ends : List (EndHandover K)}
    (h : gatewayChange dish sat i current last delays lastDelays = .ok ends) :
    ends ≠ [] ↔ current ≠ last := by
  unfold gatewayChange at h
  by_cases hne : current ≠ last
  · simp only [if_pos hne, bind_eq_ok, Except.ok.injEq] at h
    obtain ⟨_, -, _, -, rfl⟩ := h
    exact iff_of_true (List.cons_ne_nil _ _) hne
  · rw [if_neg hne, Except.ok.injEq] at h
    exact iff_of_false (fun hends => hends h.symm) hne

/-- With a last path, those whose satellite changes. -/
theorem endHandoverNodes_some {n : Nat} {g : Globals K} {delays last : List K}
    {ends : List (EndHandover K)} (hg : g.lastNodeDelay = some last)
    (h : endHandoverNodes n g delays = .ok ends) :
    ends ≠ [] ↔ EndsDiffer g.lastRoutingPath g.currentRoutingPath := by
  simp only [endHandoverNodes, hg, bind_eq_ok] at h
  obtain ⟨c₁, hc₁, l₁, hl₁, u₁, hu₁, c₂, hc₂, l₂, hl₂, u₂, hu₂, he⟩ := h
  rw [Except.ok.injEq] at he
  have h₁ := gatewayChange_ok hu₁
  have h₂ := gatewayChange_ok hu₂
  subst he
  rw [EndsDiffer, hc₁, hl₁, hc₂, hl₂, ne_eq, List.append_eq_nil_iff, not_and_or]
  exact or_congr (h₁.trans (by simp only [ne_eq, Except.ok.injEq]))
    (h₂.trans (by simp only [ne_eq, Except.ok.injEq]))

/-- The globals show `last` as the cycle before. -/
def Globals.Shows (g : Globals K) (last : Option (Route K)) : Prop :=
  g.currentRoutingPath = (last.elim nullPath routingPath) ∧
    g.currentNodeDelay = last.map Route.nodeDelay

/-- **The run-time decision**, on globals that show the true predecessor. -/
theorem planHandovers_ok {n : Nat} {g : Globals K} {last : Option (Route K)}
    {current : Route K} {plan : Handovers K} (hg : g.Shows last)
    (h : planHandovers n (g.shift current) current.nodeDelay = .ok plan) :
    plan.Triggered ↔ HasHandover last (some current) := by
  simp only [planHandovers, bind_eq_ok, Except.ok.injEq] at h
  obtain ⟨ends, hends, arr, harr, rfl⟩ := h
  have hgroups : (handoverGroups arr).1 ≠ [] ∨ (handoverGroups arr).2 ≠ [] ↔
      LinksDiffer (g.shift current).lastRoutingPath (g.shift current).currentRoutingPath := by
    rw [handoverGroups_eq_nil]
    simp only [LinksDiffer, harr, Except.ok.injEq, exists_eq_left']
  obtain ⟨hpath, hdelay⟩ := hg
  cases last with
  | none =>
      have hne := endHandoverNodes_none hdelay hends
      exact iff_of_true (Or.inr (Or.inr hne)) trivial
  | some last =>
      have hiff := endHandoverNodes_some hdelay hends
      show (handoverGroups arr).1 ≠ [] ∨ (handoverGroups arr).2 ≠ [] ∨ ends ≠ [] ↔ _
      rw [← or_assoc, hgroups, hiff, or_comm]
      show EndsDiffer g.currentRoutingPath (routingPath current) ∨
        LinksDiffer g.currentRoutingPath (routingPath current) ↔ _
      rw [hpath]
      exact Iff.rfl

end Plan

end LeoEM
