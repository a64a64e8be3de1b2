/-
# `Emulator.Detour` — `compute_link_delta` and the links that are new

A detour leaves the old path at `p`, runs over nodes the old path does not have, and is
back on it at `q`.  The link that enters the run is flagged.  The link that leaves it
is compared with the pointer, which stands behind `p` all along: so it is flagged
unless the run was put between two neighbours of the old path.
-/
import LeoEM.Emulator.FalseAlarm

namespace LeoEM

open PyList

variable {α : Type}

/-- The new path is `pre ++ p :: run ++ q :: post`, and the run between `p` and `q`, which
the old path has, is of nodes that the old path does not have. -/
structure Detour (oldLink newLink pre : List α) (p : α) (run : List α) (q : α)
    (post : List α) : Prop where
  split : newLink = pre ++ p :: run ++ q :: post
  nonempty : run ≠ []
  new : ∀ y ∈ run, y ∉ oldLink
  leaves : p ∈ oldLink
  returns : q ∈ oldLink

/-- The call returns; the links that enter and leave a run of new nodes are flagged, and so
is every link between two old nodes that is no link of the old path. -/
def MarksDetours [DecidableEq α] (oldLink newLink : List α) : Prop :=
  ∃ arr, computeLinkDelta oldLink newLink = .ok arr ∧
    (∀ pre p run q post, Detour oldLink newLink pre p run q post →
      arr[pre.length]? = some 1 ∧ arr[pre.length + run.length]? = some 1) ∧
    ∀ i a b, newLink[i]? = some a → newLink[i + 1]? = some b → a ∈ oldLink → b ∈ oldLink →
      ¬ Consecutive oldLink a b → arr[i]? = some 1

/-- No detour is between two nodes that are neighbours in the old path. -/
def NoInsertion (oldLink newLink : List α) : Prop :=
  ∀ pre p run q post, Detour oldLink newLink pre p run q post → ¬ Consecutive oldLink p q

section Marks

variable {s t : α} {old mid pre run post : List α} {p q : α}

theorem SameEnds.begins (h : SameEnds s t old mid) :
    ¬ BeginsInside (s :: old ++ [t]) (s :: mid ++ [t]) := by
  rintro ⟨x, hx, hmem⟩
  rw [inner_ends] at hx hmem
  obtain ⟨os, rfl⟩ := List.head?_eq_some_iff.mp (h.head.symm.trans hx)
  exact (List.nodup_cons.mp h.inner_nodup).1 hmem

/-- A detour is inside both paths. -/
theorem SameEnds.detour_inside (h : SameEnds s t old mid)
    (hd : Detour (s :: old ++ [t]) (s :: mid ++ [t]) pre p run q post) :
    ∃ pre' post', pre = s :: pre' ∧ mid = pre' ++ p :: run ++ q :: post' := by
  have hpre : pre ≠ [] := by
    rintro rfl
    obtain ⟨r, rs, rfl⟩ := List.exists_cons_of_ne_nil hd.nonempty
    have hhead := (head?_of_split h.nonempty hd.split).2
    exact hd.new r List.mem_cons_self (h.first_link hhead).right
  have hpost : post ≠ [] := by
    rintro rfl
    have hlast := (getLast?_of_split h.nonempty hd.split).2
    rw [List.getLast?_cons, List.getLast?_eq_some_getLast hd.nonempty] at hlast
    exact hd.new _ (List.getLast_mem hd.nonempty) (h.last_link hlast).left
  have hsplit : s :: mid ++ [t] = pre ++ (p :: run ++ [q]) ++ post := by
    rw [hd.split]
    simp
  obtain ⟨pre', post', rfl, -, rfl⟩ := split_ends hsplit hpre hpost
  exact ⟨pre', post', rfl, by simp⟩

/-- So is a link between old nodes that is no link of the old path. -/
theorem SameEnds.link_inside (h : SameEnds s t old mid)
    (hsplit : s :: mid ++ [t] = pre ++ p :: q :: post)
    (hpq : ¬ Consecutive (s :: old ++ [t]) p q) :
    ∃ pre' post', pre = s :: pre' ∧ mid = pre' ++ p :: q :: post' := by
  have hpre : pre ≠ [] := by
    rintro rfl
    have hsplit' : s :: mid ++ [t] = p :: [] ++ q :: post := hsplit
    obtain ⟨rfl, hhead⟩ := head?_of_split h.nonempty hsplit'
    exact hpq (h.first_link hhead)
  have hpost : post ≠ [] := by
    rintro rfl
    have hsplit' : s :: mid ++ [t] = pre ++ p :: [] ++ [q] := by
      rw [hsplit]
      simp
    obtain ⟨rfl, hlast⟩ := getLast?_of_split h.nonempty hsplit'
    exact hpq (h.last_link hlast)
  have hpiece : s :: mid ++ [t] = pre ++ [p, q] ++ post := by
    rw [hsplit]
    simp
  obtain ⟨pre', post', rfl, -, rfl⟩ := split_ends hpiece hpre hpost
  exact ⟨pre', post', rfl, by simp⟩

variable [DecidableEq α]

/-- Between such paths the entries are the flags from the first node on. -/
theorem SameEnds.entries (h : SameEnds s t old mid) :
    ∃ arr : List Nat, computeLinkDelta (s :: old ++ [t]) (s :: mid ++ [t]) = .ok arr ∧
      ∀ i : Nat, arr[i]? = some 1 ↔ (enters old none 0 mid)[i]? = some true := by
  have hnd : (inner (s :: old ++ [t])).Nodup := by
    rw [inner_ends]
    exact h.inner_nodup
  have hne : inner (s :: mid ++ [t]) ≠ [] := by
    rw [inner_ends]
    exact h.nonempty
  refine ⟨_, computeLinkDelta_of_begins hnd hne h.begins, fun i : Nat => ?_⟩
  rw [inner_ends, inner_ends]
  have hlen := enters_length old none 0 mid
  rcases Nat.lt_or_ge i mid.length with hi | hi
  · rw [List.getElem?_append_left (by simpa using hi), List.getElem?_map,
      Option.map_eq_some_iff]
    simp
  · rw [List.getElem?_append_right (by simpa using hi)]
    refine iff_of_false ?_ ?_
    · cases i - ((enters old none 0 mid).map flagBit).length <;> simp
    · rw [List.getElem?_eq_none (by omega)]
      simp

/-- The entry of the link into `q`, behind a run of new nodes from `p`. -/
theorem SameEnds.entry_behind {pre' post' : List α} (h : SameEnds s t old mid)
    (hmid : mid = pre' ++ p :: run ++ q :: post') (hp : p ∈ s :: old ++ [t])
    (hq : q ∈ s :: old ++ [t]) (hrun : ∀ y ∈ run, y ∉ s :: old ++ [t]) :
    (enters old none 0 mid)[pre'.length + 1 + run.length]? = some true ↔
      ¬ Consecutive (s :: old ++ [t]) p q := by
  have hpm : p ∈ mid := by simp [hmid]
  have hqm : q ∈ mid := by simp [hmid]
  have hrun' : ∀ y ∈ run, y ∉ old := by
    intro y hy hyo
    exact hrun y hy (by simp [hyo])
  rw [h.consecutive hpm hqm, hmid, enters_old h.inner_nodup pre' run post' none 0
    ((h.mem_ends hpm).mp hp) ((h.mem_ends hqm).mp hq) hrun']
  simp

/-- The entry of the link that enters the run. -/
theorem SameEnds.entry_into {pre' post' : List α} (h : SameEnds s t old mid)
    (hmid : mid = pre' ++ p :: run ++ q :: post') (hp : p ∈ s :: old ++ [t])
    (hne : run ≠ []) (hrun : ∀ y ∈ run, y ∉ s :: old ++ [t]) :
    (enters old none 0 mid)[pre'.length + 1]? = some true := by
  obtain ⟨y, ys, rfl⟩ := List.exists_cons_of_ne_nil hne
  have hpm : p ∈ mid := by simp [hmid]
  have hym : y ∈ mid := by simp [hmid]
  have hy : y ∉ old := mt (h.mem_ends hym).mpr (hrun y List.mem_cons_self)
  have hnew := enters_new pre' (ys ++ q :: post') none 0
    ((h.mem_ends hpm).mp hp) hy
  rw [hmid]
  simpa using hnew

/-- **Detours are marked at both ends**, and changed links are, exactly if no run of new
nodes was put between two neighbours of the old path. -/
theorem marksDetours_iff (h : SameEnds s t old mid) :
    MarksDetours (s :: old ++ [t]) (s :: mid ++ [t]) ↔
      NoInsertion (s :: old ++ [t]) (s :: mid ++ [t]) := by
  obtain ⟨arr, hcall, hentry⟩ := h.entries
  constructor
  · rintro ⟨arr', hcall', hdetours, -⟩ pre p run q post hd
    obtain rfl : arr = arr' := Except.ok.inj (hcall.symm.trans hcall')
    obtain ⟨pre', post', rfl, hmid⟩ := h.detour_inside hd
    have hleave := (hdetours _ p run q post hd).2
    exact (h.entry_behind hmid hd.leaves hd.returns hd.new).mp ((hentry _).mp hleave)
  · intro hno
    refine ⟨arr, hcall, ?_, ?_⟩
    · intro pre p run q post hd
      obtain ⟨pre', post', rfl, hmid⟩ := h.detour_inside hd
      constructor
      · exact (hentry _).mpr (h.entry_into hmid hd.leaves hd.nonempty hd.new)
      · exact (hentry _).mpr ((h.entry_behind hmid hd.leaves hd.returns hd.new).mpr
          (hno _ p run q post hd))
    · intro i a b ha hb hao hbo hab
      obtain ⟨pre, post, hsplit, rfl⟩ := split_at_link ha hb
      obtain ⟨pre', post', rfl, hmid⟩ := h.link_inside hsplit hab
      have hmid' : mid = pre' ++ a :: [] ++ b :: post' := by simpa using hmid
      refine (hentry _).mpr ((h.entry_behind hmid' hao hbo ?_).mpr hab)
      intro y hy
      exact absurd hy List.not_mem_nil

end Marks

/-! ### On the paths of a run -/

/-- **`compute_link_delta` marks both ends of every detour** between simple paths that
begin and end at the same satellites, exactly if none is an insertion. -/
theorem computeLinkDelta_marksDetours_iff {oldLink newLink : List Int}
    (hold : SimplePath 1 oldLink) (hnew : SimplePath 1 newLink)
    (hhead : (inner newLink).head? = (inner oldLink).head?)
    (hlast : (inner newLink).getLast? = (inner oldLink).getLast?) :
    MarksDetours oldLink newLink ↔ NoInsertion oldLink newLink := by
  obtain ⟨old, rfl, hond, -⟩ := hold
  obtain ⟨mid, rfl, hnnd, hlen⟩ := hnew
  rw [inner_ends, inner_ends] at hhead hlast
  exact marksDetours_iff ⟨hond, hnnd, hhead, hlast, List.ne_nil_of_length_pos hlen⟩

theorem computeLinkDelta_marksDetours_replaced :
    MarksDetours [-1, 749, 8, 812, -2] [-1, 749, 14, 812, -2] ↔
      NoInsertion [-1, 749, 8, 812, -2] [-1, 749, 14, 812, -2] :=
  computeLinkDelta_marksDetours_iff ⟨[749, 8, 812], rfl, by decide, by decide⟩
    ⟨[749, 14, 812], rfl, by decide, by decide⟩ rfl rfl

/-- A satellite put between two neighbours: the link behind it is not flagged. -/
theorem computeLinkDelta_insertion :
    SimplePath 1 [-1, 1, 2, -2] ∧ SimplePath 1 [-1, 1, 3, 2, -2] ∧
      Detour [-1, 1, 2, -2] [-1, 1, 3, 2, -2] [-1] 1 [3] 2 [-2] ∧
      computeLinkDelta [-1, 1, 2, -2] [-1, 1, 3, 2, -2] = .ok [0, 1, 0, 0] ∧
      ¬ MarksDetours [-1, 1, 2, -2] [-1, 1, 3, 2, -2] := by
  have hd : Detour [-1, 1, 2, -2] [-1, 1, 3, 2, -2] [-1] 1 [3] 2 [-2] :=
    ⟨rfl, by decide, by decide, by decide, by decide⟩
  have hcall : computeLinkDelta [-1, 1, 2, -2] [-1, 1, 3, 2, -2] = .ok [0, 1, 0, 0] := by decide
  refine ⟨⟨[1, 2], rfl, by decide, by decide⟩, ⟨[1, 3, 2], rfl, by decide, by decide⟩, hd,
    hcall, ?_⟩
  rintro ⟨arr, h, hdetours, -⟩
  obtain rfl : [0, 1, 0, 0] = arr := Except.ok.inj (hcall.symm.trans h)
  exact absurd (hdetours _ _ _ _ _ hd).2 (by decide)

end LeoEM
