/-
# `Emulator.FalseAlarm` — `compute_link_delta` and the links that stay

The flag of the link into `mid[k]` is the `k`-th of

    enters old none 0 mid

and as long as the new path does not begin inside the old one this is all the call
returns, with a 0 for the last link (`computeLinkDelta_of_begins`).  The pointer
stands behind the last node the old path has, however many new nodes came since, so
a flag is never raised on a link of the old path (`not_consecutive_of_enters`).

What raises a false alarm is the write at `i - 1` when `i = 0`: it goes to the last
entry, whatever link that is.
-/
import LeoEM.Base.Path
import LeoEM.Emulator.Update

namespace LeoEM

open PyList

variable {α : Type} [DecidableEq α]

/-! ## The flags from the first node on -/

theorem enters_append (old : List α) (prev : Option α) (j : Nat) (xs ys : List α) :
    enters old prev j (xs ++ ys) = enters old prev j xs ++
      enters old (xs.getLast?.or prev) (xs.foldl (pointer old) j) ys := by
  induction xs generalizing prev j with
  | nil => simp [enters]
  | cons x xs ih =>
      have hlast : xs.getLast?.or (some x) = (x :: xs).getLast?.or prev := by
        rw [List.getLast?_cons, Option.some_or]
        cases xs.getLast? <;> rfl
      rw [List.cons_append, enters, enters, ih, hlast, List.foldl_cons, List.cons_append]

/-- Nodes the old path does not have leave the pointer where it is. -/
theorem foldl_pointer_run {old run : List α} (j : Nat) (h : ∀ y ∈ run, y ∉ old) :
    run.foldl (pointer old) j = j := by
  induction run with
  | nil => rfl
  | cons y run ih =>
      have hy : pointer old j y = j := if_neg (h y List.mem_cons_self)
      rw [List.foldl_cons, hy]
      exact ih fun z hz => h z (List.mem_cons_of_mem y hz)

/-- The flag of the link into `q`, when `p` is the last node before it that the old path
has: the pointer stands behind `p`. -/
theorem enters_behind {old : List α} (pre run post : List α) {p q : α} (prev : Option α)
    (j : Nat) (hp : p ∈ old) (hrun : ∀ y ∈ run, y ∉ old) :
    (enters old prev j (pre ++ p :: run ++ q :: post))[pre.length + 1 + run.length]? =
      some (flagged old (some (run.getLast?.getD p)) (old.idxOf p + 1) q) := by
  have hlen : (enters old prev j (pre ++ p :: run)).length = pre.length + 1 + run.length := by
    simp
    omega
  have hlast : (pre ++ p :: run).getLast?.or prev = some (run.getLast?.getD p) := by
    simp [List.getLast?_cons]
  have hptr : (pre ++ p :: run).foldl (pointer old) j = old.idxOf p + 1 := by
    rw [List.foldl_append, List.foldl_cons, foldl_pointer_run _ hrun, pointer, if_pos hp]
  rw [enters_append, hlast, hptr, ← hlen, List.getElem?_append_right (Nat.le_refl _),
    Nat.sub_self]
  rfl

/-- Into a node the old path has, from the last one before it that it has: the link is
flagged unless the two are neighbours there. -/
theorem enters_old {old : List α} (hnd : old.Nodup) (pre run post : List α) {p q : α}
    (prev : Option α) (j : Nat) (hp : p ∈ old) (hq : q ∈ old) (hrun : ∀ y ∈ run, y ∉ old) :
    (enters old prev j (pre ++ p :: run ++ q :: post))[pre.length + 1 + run.length]? =
      some (decide (¬ Consecutive old p q)) := by
  rw [enters_behind pre run post prev j hp hrun]
  simp [flagged, hq, consecutive_iff hnd hp hq]

/-- Into a node the old path does not have, from one that it has, the link is flagged. -/
theorem enters_new {old : List α} (pre post : List α) {p y : α} (prev : Option α) (j : Nat)
    (hp : p ∈ old) (hy : y ∉ old) :
    (enters old prev j (pre ++ p :: y :: post))[pre.length + 1]? = some true := by
  have h := enters_behind pre [] post (q := y) prev j hp
    (fun z hz => absurd hz List.not_mem_nil)
  simpa [flagged, hy, hp] using h

/-- A flag is never raised on a link of the old path. -/
theorem not_consecutive_of_enters {old pre post : List α} (hnd : old.Nodup) {a b : α}
    {prev : Option α} {j : Nat}
    (h : (enters old prev j (pre ++ a :: b :: post))[pre.length + 1]? = some true) :
    ¬ Consecutive old a b := by
  intro hab
  have hold := enters_old hnd pre [] post prev j hab.left hab.right
    (fun z hz => absurd hz List.not_mem_nil)
  rw [List.length_nil, Nat.add_zero, List.append_assoc] at hold
  rw [show pre ++ ([a] ++ b :: post) = pre ++ a :: b :: post from rfl, h] at hold
  simp [hab] at hold

/-! ## What the call returns -/

/-- A raised entry is flagged, or was raised before. -/
theorem overlay_getElem? : ∀ {fs : List Bool} {as : List Nat} {k : Nat},
    fs.length = as.length →
    ((overlay fs as)[k]? = some 1 ↔ fs[k]? = some true ∨ as[k]? = some 1) := by
  intro fs
  induction fs with
  | nil =>
      intro as k h
      obtain rfl := List.length_eq_zero_iff.mp h.symm
      simp [overlay]
  | cons f fs ih =>
      intro as k h
      cases as with
      | nil => cases h
      | cons a as =>
          cases k with
          | zero => cases f <;> simp [overlay]
          | succ k => exact ih (Nat.succ.inj h)

/-- The first intermediate node of the new path is one of the old path, but not its
first. -/
def BeginsInside (oldLink newLink : List α) : Prop :=
  ∃ x, (inner newLink).head? = some x ∧ x ∈ (inner oldLink).tail

/-- The last two intermediate nodes of the new path are no link of the old one. -/
def EndsApart (oldLink newLink : List α) : Prop :=
  ∃ pre a b, inner newLink = pre ++ [a, b] ∧ ¬ Consecutive oldLink a b

theorem flagged_first_iff {old : List α} (hnd : old.Nodup) (x : α) :
    flagged old none 0 x = true ↔ x ∈ old.tail := by
  rw [flagged_first]
  cases old with
  | nil => simp
  | cons o os =>
      have ho : o ∉ os := (List.nodup_cons.mp hnd).1
      by_cases hx : x = o
      · subst hx
        simp [ho]
      · have hox : o ≠ x := fun h => hx h.symm
        simp [hx, List.idxOf_cons_ne os hox]

/-- **No write wraps**: the call returns the flags from the first node on. -/
theorem computeLinkDelta_of_begins {oldLink newLink : List α} (hnd : (inner oldLink).Nodup)
    (hne : inner newLink ≠ []) (h : ¬ BeginsInside oldLink newLink) :
    computeLinkDelta oldLink newLink =
      .ok ((enters (inner oldLink) none 0 (inner newLink)).map flagBit ++ [0]) := by
  have hfirst : ∀ {x : α}, (inner newLink).head? = some x →
      flagged (inner oldLink) none 0 x = false := by
    intro x hx
    rw [← Bool.not_eq_true, flagged_first_iff hnd]
    exact fun hmem => h ⟨x, hx, hmem⟩
  match hn : inner newLink with
  | [] => exact absurd hn hne
  | [x] =>
      have hf := hfirst (x := x) (by rw [hn, List.head?_cons])
      rw [computeLinkDelta_single hn, if_neg (mt (flagged_first _ _).mpr (by simp [hf]))]
      simp [enters, hf, flagBit]
  | x :: y :: ys =>
      have hf := hfirst (x := x) (by rw [hn, List.head?_cons])
      have hfw : firstWrite (inner oldLink) x (ys.length + 1) =
          List.replicate (ys.length + 1) 0 := by simp [firstWrite, hf]
      have hflags : enters (inner oldLink) none 0 (x :: y :: ys) = false ::
          enters (inner oldLink) (some x) (pointer (inner oldLink) 0 x) (y :: ys) := by
        rw [enters, hf]
      rw [computeLinkDelta_cons₂ hn, hfw, overlay_zero (by simp), hflags]
      rfl

/-! ## No false alarm -/

/-- The call returns a flag for each link of the new path, none for its first and its
last, and flags no link of the old path. -/
def NoFalseAlarm (oldLink newLink : List α) : Prop :=
  ∃ arr, computeLinkDelta oldLink newLink = .ok arr ∧ arr.length = newLink.length - 1 ∧
    Bits arr ∧ arr.head? = some 0 ∧ arr.getLast? = some 0 ∧
    ∀ i a b, arr[i]? = some 1 → newLink[i]? = some a → newLink[i + 1]? = some b →
      ¬ Consecutive oldLink a b

/-- The wrapped write raises the last entry, and no other. -/
theorem firstWrite_getElem? {old : List α} {x : α} {n k : Nat} :
    (firstWrite old x n)[k]? = some 1 ↔ flagged old none 0 x = true ∧ k + 1 = n := by
  unfold firstWrite
  split
  case isTrue hf =>
    rw [List.getElem?_set]
    simp only [hf, List.length_replicate, List.getElem?_replicate, true_and]
    split
    case isTrue hk => split <;> simp <;> omega
    case isFalse hk => split <;> simp <;> omega
  case isFalse hf =>
    rw [List.getElem?_replicate]
    split <;> simp [hf]

theorem padded_getElem? {as : List Nat} {k : Nat} :
    ([0] ++ as ++ [0])[k + 1]? = some 1 ↔ as[k]? = some 1 := by
  rw [List.append_assoc, List.singleton_append, List.getElem?_cons_succ]
  rcases Nat.lt_or_ge k as.length with hk | hk
  · rw [List.getElem?_append_left hk]
  · rw [List.getElem?_append_right hk, List.getElem?_eq_none hk]
    cases k - as.length <;> simp

section Alarm

variable {s t x y : α} {ys : List α} {oldLink : List α} {arr : List Nat}

/-- With two intermediate nodes or more, entry `k + 1` is the flag of the link into
`mid[k + 1]`, unless it is the entry of the wrapped write. -/
theorem entry_cons₂ (h : computeLinkDelta oldLink (s :: (x :: y :: ys) ++ [t]) = .ok arr)
    (k : Nat) : arr[k + 1]? = some 1 ↔
      (enters (inner oldLink) none 0 (x :: y :: ys))[k + 1]? = some true ∨
        flagged (inner oldLink) none 0 x = true ∧ k = ys.length := by
  rw [computeLinkDelta_cons₂ (inner_ends s t (x :: y :: ys)), Except.ok.injEq] at h
  rw [← h, padded_getElem?, overlay_getElem? (by simp), firstWrite_getElem?,
    Nat.add_right_cancel_iff]
  rfl

theorem shape_cons₂ (h : computeLinkDelta oldLink (s :: (x :: y :: ys) ++ [t]) = .ok arr) :
    arr.length = (s :: (x :: y :: ys) ++ [t]).length - 1 ∧ Bits arr ∧
      arr.head? = some 0 ∧ arr.getLast? = some 0 := by
  have hbits := computeLinkDelta_bits h
  rw [computeLinkDelta_cons₂ (inner_ends s t (x :: y :: ys)), Except.ok.injEq] at h
  refine ⟨?_, hbits, ?_, ?_⟩
  · rw [← h]
    simp
  · rw [← h]
    rfl
  · rw [← h, List.getLast?_concat]

end Alarm

section Exact

variable {s t : α} {oldLink mid : List α}

/-- Seen from the nodes of `mid`, the links of the old path are those between its
intermediate nodes. -/
def LinksInside (oldLink mid : List α) : Prop :=
  ∀ a ∈ mid, ∀ b ∈ mid, Consecutive oldLink a b ↔ Consecutive (inner oldLink) a b

theorem beginsInside_cons (hnd : (inner oldLink).Nodup) {x : α} {zs : List α} :
    BeginsInside oldLink (s :: (x :: zs) ++ [t]) ↔ flagged (inner oldLink) none 0 x = true := by
  rw [flagged_first_iff hnd, BeginsInside, inner_ends]
  simp

/-- A raised entry stands at a link that was flagged, or at the last one if the write
wrapped; neither is a link of the old path. -/
theorem not_consecutive_of_entry {x y : α} {ys : List α} {arr : List Nat}
    (hnd : (inner oldLink).Nodup) (hlinks : LinksInside oldLink (x :: y :: ys))
    (h : computeLinkDelta oldLink (s :: (x :: y :: ys) ++ [t]) = .ok arr)
    (hwrap : ¬ BeginsInside oldLink (s :: (x :: y :: ys) ++ [t]) ∨
      EndsApart oldLink (s :: (x :: y :: ys) ++ [t]))
    {i : Nat} {a b : α} (hi : arr[i]? = some 1) (ha : (s :: (x :: y :: ys) ++ [t])[i]? = some a)
    (hb : (s :: (x :: y :: ys) ++ [t])[i + 1]? = some b) : ¬ Consecutive oldLink a b := by
  cases i with
  | zero =>
      have hhead := (shape_cons₂ h).2.2.1
      rw [List.head?_eq_getElem?, hi] at hhead
      cases hhead
  | succ k =>
      rcases (entry_cons₂ h k).mp hi with hf | ⟨hf, hk⟩
      · have hk : k + 1 < (x :: y :: ys).length := by
          have := (List.getElem?_eq_some_iff.mp hf).1
          rwa [enters_length] at this
        obtain ⟨hma, hmb⟩ := link_inside hk ha hb
        rw [hlinks a (List.mem_of_getElem? hma) b (List.mem_of_getElem? hmb)]
        obtain ⟨pre, post, hsplit, rfl⟩ := split_at_link hma hmb
        rw [hsplit] at hf
        exact not_consecutive_of_enters hnd hf
      · obtain ⟨pre, a', b', hends, hapart⟩ :=
          hwrap.resolve_left (not_not_intro ((beginsInside_cons hnd).mpr hf))
        rw [inner_ends] at hends
        have hlen : pre.length = k := by
          have := congrArg List.length hends
          simp only [List.length_cons, List.length_append, List.length_nil] at this
          omega
        obtain ⟨hma, hmb⟩ := link_inside (by simp; omega) ha hb
        rw [hends, ← hlen] at hma hmb
        obtain rfl : a' = a := by simpa using hma
        obtain rfl : b' = b := by simpa using hmb
        exact hapart

/-- The wrapped write raises a false alarm if the new path ends with a link of the old
one. -/
theorem wrapped_alarm {x y : α} {ys : List α} {arr : List Nat} (hnd : (inner oldLink).Nodup)
    (h : computeLinkDelta oldLink (s :: (x :: y :: ys) ++ [t]) = .ok arr)
    (hbegin : BeginsInside oldLink (s :: (x :: y :: ys) ++ [t])) :
    ∃ pre a b, x :: y :: ys = pre ++ [a, b] ∧ arr[pre.length + 1]? = some 1 := by
  have hlen : ys.length + 1 < (x :: y :: ys).length := by simp
  obtain ⟨pre, post, hsplit, hpre⟩ := split_at_link
    (List.getElem?_eq_getElem (Nat.lt_of_succ_lt hlen)) (List.getElem?_eq_getElem hlen)
  have hpost : post = [] := by
    have := congrArg List.length hsplit
    simp only [List.length_append, List.length_cons] at this
    exact List.eq_nil_of_length_eq_zero (by omega)
  subst hpost
  refine ⟨pre, _, _, hsplit, (entry_cons₂ h pre.length).mpr (Or.inr ⟨?_, hpre⟩)⟩
  exact (beginsInside_cons hnd).mp hbegin

/-- **No false alarm**, exactly if no write wraps or the wrapped one hits a link that is
new anyway. -/
theorem noFalseAlarm_iff (hnd : (inner oldLink).Nodup) (hmid : mid ≠ [])
    (hlinks : LinksInside oldLink mid) :
    NoFalseAlarm oldLink (s :: mid ++ [t]) ↔
      ¬ BeginsInside oldLink (s :: mid ++ [t]) ∨ EndsApart oldLink (s :: mid ++ [t]) := by
  rcases mid with _ | ⟨x, _ | ⟨y, ys⟩⟩
  · exact absurd rfl hmid
  · have hends : ¬ EndsApart oldLink (s :: [x] ++ [t]) := by
      rintro ⟨pre, a, b, h, -⟩
      have := congrArg List.length h
      simp [PyList.inner] at this
    have hcall : computeLinkDelta oldLink (s :: [x] ++ [t]) = _ :=
      computeLinkDelta_single (inner_ends s t [x])
    rw [or_iff_left hends, beginsInside_cons hnd]
    constructor
    · rintro ⟨arr, h, -⟩ hf
      rw [hcall, if_pos ((flagged_first _ _).mp hf)] at h
      cases h
    · intro hf
      rw [if_neg (mt (flagged_first _ _).mpr hf)] at hcall
      refine ⟨[0, 0], hcall, rfl, computeLinkDelta_bits hcall, rfl, rfl, ?_⟩
      intro i a b hi
      rcases i with _ | _ | i <;> cases hi
  · constructor
    · rintro ⟨arr, h, -, -, -, -, halarm⟩
      refine or_iff_not_imp_left.mpr fun hbegin => ?_
      obtain ⟨pre, a, b, hsplit, hraised⟩ := wrapped_alarm hnd h (not_not.mp hbegin)
      refine ⟨pre, a, b, (inner_ends s t _).trans hsplit, ?_⟩
      refine halarm (pre.length + 1) a b hraised ?_ ?_
      · rw [hsplit]; simp
      · rw [hsplit]; simp
    · intro hwrap
      have hcall : computeLinkDelta oldLink (s :: (x :: y :: ys) ++ [t]) = _ :=
        computeLinkDelta_cons₂ (inner_ends s t (x :: y :: ys))
      obtain ⟨hlen, hbits, hhead, hlast⟩ := shape_cons₂ hcall
      refine ⟨_, hcall, hlen, hbits, hhead, hlast, ?_⟩
      intro i a b hi ha hb
      exact not_consecutive_of_entry hnd hlinks hcall hwrap hi ha hb

end Exact

/-! ### On the paths of a run -/

/-- A path the emulator compares with: a simple path, or `["NULL"]`. -/
def OldPath (oldLink : List (Option Int)) : Prop :=
  oldLink = nullPath ∨ ∃ q, SimplePath 1 q ∧ oldLink = q.map some

theorem OldPath.inner_nodup {oldLink : List (Option Int)} (h : OldPath oldLink) :
    (inner oldLink).Nodup := by
  rcases h with rfl | ⟨q, hq, rfl⟩
  · exact List.nodup_nil
  · rw [inner_map]
    exact hq.inner_nodup.map (Option.some_injective Int)

theorem OldPath.linksInside {oldLink : List (Option Int)} (h : OldPath oldLink) {mid : List Int}
    (hnd : (-1 :: mid ++ [-2]).Nodup) : LinksInside oldLink (mid.map some) := by
  intro a ha b hb
  rcases h with rfl | ⟨q, ⟨m, rfl, -, -⟩, rfl⟩
  · refine iff_of_false ?_ ?_
    · intro hab
      obtain ⟨x, -, rfl⟩ := List.mem_map.mp ha
      simpa [nullPath] using hab.left
    · intro hab
      exact absurd hab.left List.not_mem_nil
  · rw [inner_map, inner_ends, List.map_append, List.map_cons]
    refine consecutive_ends ?_ ?_
    · rintro rfl
      have : (-1 : Int) ∈ mid := by simpa using ha
      exact (List.nodup_cons.mp hnd).1 (List.mem_append_left _ this)
    · rintro rfl
      have : (-2 : Int) ∈ mid := by simpa using hb
      have hdisj := (List.nodup_append.mp (List.nodup_cons.mp hnd).2).2.2
      exact hdisj (-2) this (-2) List.mem_cons_self rfl

/-- **`compute_link_delta` raises no false alarm** and does not fail, exactly if the new
path does not begin inside the old one, or ends with a link that is new. -/
theorem computeLinkDelta_noFalseAlarm_iff {oldLink : List (Option Int)} {path : List Int}
    (hold : OldPath oldLink) (hnew : SimplePath 1 path) :
    NoFalseAlarm oldLink (path.map some) ↔
      ¬ BeginsInside oldLink (path.map some) ∨ EndsApart oldLink (path.map some) := by
  obtain ⟨mid, rfl, hnd, hlen⟩ := hnew
  have hmid : mid.map some ≠ [] := by
    intro h
    rw [List.map_eq_nil_iff.mp h] at hlen
    cases hlen
  rw [List.map_append, List.map_cons]
  exact noFalseAlarm_iff hold.inner_nodup hmid (hold.linksInside hnd)

theorem computeLinkDelta_noFalseAlarm_switch :
    NoFalseAlarm ([-1, 749, 8, 812, -2].map some) ([-1, 749, 14, 812, -2].map some) := by
  refine (computeLinkDelta_noFalseAlarm_iff (Or.inr ⟨_, ⟨[749, 8, 812], rfl, ?_, ?_⟩, rfl⟩)
    ⟨[749, 14, 812], rfl, ?_, ?_⟩).mpr (Or.inl ?_)
  case refine_5 =>
    rintro ⟨x, hx, hmem⟩
    obtain rfl : x = some 749 := by simpa [PyList.inner] using hx.symm
    simp [PyList.inner] at hmem
  all_goals decide

/-- Dropping the first satellite flags the link that stays, and dropping all but the
second of two is an `IndexError`. -/
theorem computeLinkDelta_falseAlarm :
    SimplePath 1 [-1, 1, 2, 3, -2] ∧ SimplePath 1 [-1, 2, 3, -2] ∧ SimplePath 1 [-1, 2, -2] ∧
      ¬ NoFalseAlarm ([-1, 1, 2, 3, -2].map some) ([-1, 2, 3, -2].map some) ∧
      computeLinkDelta ([-1, 1, 2, 3, -2].map (some : Int → Option Int))
        ([-1, 2, -2].map some) = .error .indexError := by
  refine ⟨⟨[1, 2, 3], rfl, by decide, by decide⟩, ⟨[2, 3], rfl, by decide, by decide⟩,
    ⟨[2], rfl, by decide, by decide⟩, ?_, by decide⟩
  rintro ⟨arr, h, -, -, -, -, halarm⟩
  have harr : arr = [0, 1, 0] := by
    have : computeLinkDelta ([-1, 1, 2, 3, -2].map (some : Int → Option Int))
        ([-1, 2, 3, -2].map some) = .ok [0, 1, 0] := by decide
    exact (Except.ok.inj (this.symm.trans h)).symm
  subst harr
  exact halarm 1 (some 2) (some 3) rfl rfl rfl (by decide)

end LeoEM
