/-
# `Emulator.LinkDelta` — `compute_link_delta`, the scan that places handovers

`computeLinkDelta old new` compares the intermediate nodes of two routing paths
and returns one flag a link of `new`.  The scan keeps a pointer `j` into the old
path.  A node of the new path that the old path has at another index than `j`
ends a difference, and resets `j` to that index; a node that the old path does
not have starts one.  Both are flagged at index `i - 1`, the link that enters the
node.

At `i = 0` that index is `-1`, which is the *last* flag, and no flag at all when
the new path has a single intermediate node: then the write raises `IndexError`.

What is proved about the scan is collected in two facts:

    computeLinkDelta_cons₂    with two intermediate nodes or more it returns the flags
                              `enters` computes from the two paths, over the wrapped write
    computeLinkDelta_single   with one it returns [0, 0], unless the wrapped write raises
-/
import LeoEM.Base.Python
import Mathlib.Algebra.GroupWithZero.Nat
import Mathlib.Data.List.Nodup

namespace LeoEM

open PyList

variable {α : Type} [DecidableEq α]

/-! ## The function -/

/-- One round of the loop at index `i`: `prev` is `new_intermediate[i - 1]`, if
there is one, `x` is `new_intermediate[i]`, and the state is `handover_arr` with
the old link pointer `j`. -/
def deltaStep (old : List α) (i : Nat) (prev : Option α) (x : α) (st : List Nat × Nat) :
    Except PyError (List Nat × Nat) :=
  if x ∈ old then
    -- ends the difference
    if old.idxOf x ≠ st.2 then do
      let arr ← setItem st.1 ((i : Int) - 1) 1
      .ok (arr, old.idxOf x + 1)
    else
      .ok (st.1, st.2 + 1)
  else
    -- starts the difference
    if ∃ p ∈ prev, p ∈ old then do
      let arr ← setItem st.1 ((i : Int) - 1) 1
      .ok (arr, st.2)
    else
      .ok st

/-- The loop over `new_intermediate` from index `i` on. -/
def deltaLoop (old : List α) : Nat → Option α → List α → List Nat × Nat →
    Except PyError (List Nat × Nat)
  | _, _, [], st => .ok st
  | i, prev, x :: xs, st => do
      let st ← deltaStep old i prev x st
      deltaLoop old (i + 1) (some x) xs st

/-- `compute_link_delta` -/
def computeLinkDelta (oldLink newLink : List α) : Except PyError (List Nat) := do
  let oldIntermediate := inner oldLink
  let newIntermediate := inner newLink
  let handoverArr := List.replicate (newIntermediate.length - 1) 0
  let st ← deltaLoop oldIntermediate 0 none newIntermediate (handoverArr, 0)
  .ok ([0] ++ st.1 ++ [0])

/-! ## What a round does -/

/-- The link into `x` is flagged: `x` is an old node away from the pointer, or a new
node behind an old one. -/
def flagged (old : List α) (prev : Option α) (j : Nat) (x : α) : Bool :=
  if x ∈ old then decide (old.idxOf x ≠ j) else decide (∃ p ∈ prev, p ∈ old)

/-- The pointer behind `x`. -/
def pointer (old : List α) (j : Nat) (x : α) : Nat :=
  if x ∈ old then old.idxOf x + 1 else j

theorem deltaStep_eq (old : List α) (i : Nat) (prev : Option α) (x : α) (arr : List Nat)
    (j : Nat) :
    deltaStep old i prev x (arr, j) =
      if flagged old prev j x then
        (setItem arr ((i : Int) - 1) 1).map (fun arr => (arr, pointer old j x))
      else .ok (arr, pointer old j x) := by
  have hmap : ∀ k : Nat, (do let arr ← setItem arr ((i : Int) - 1) 1; .ok (arr, k)) =
      (setItem arr ((i : Int) - 1) 1).map (fun arr => (arr, k)) := by
    intro k
    cases setItem arr ((i : Int) - 1) 1 <;> rfl
  by_cases hx : x ∈ old
  · by_cases hj : old.idxOf x = j
    · simp [deltaStep, flagged, pointer, hx, hj]
    · simp only [deltaStep, flagged, pointer, if_pos hx, hmap, hj, ne_eq, not_false_eq_true,
        if_true, decide_true]
  · by_cases hp : ∃ p ∈ prev, p ∈ old
    · simp only [deltaStep, flagged, pointer, if_neg hx, hmap, hp, decide_true, if_true]
    · simp only [deltaStep, flagged, pointer, if_neg hx, hp, decide_false, if_false,
        Bool.false_eq_true]

/-- The flags of the links entered from `prev` on, by the definition of a round. -/
def enters (old : List α) : Option α → Nat → List α → List Bool
  | _, _, [] => []
  | prev, j, x :: xs => flagged old prev j x :: enters old (some x) (pointer old j x) xs

/-- Flags laid over an array: a raised flag is a 1, a lowered one leaves the entry. -/
def overlay : List Bool → List Nat → List Nat
  | f :: fs, a :: as => (if f then 1 else a) :: overlay fs as
  | _, _ => []

@[simp] theorem enters_length (old : List α) (prev : Option α) (j : Nat) (xs : List α) :
    (enters old prev j xs).length = xs.length := by
  induction xs generalizing prev j with
  | nil => rfl
  | cons x xs ih => simp only [enters, List.length_cons, ih]

@[simp] theorem overlay_length : ∀ {fs : List Bool} {as : List Nat},
    fs.length = as.length → (overlay fs as).length = as.length := by
  intro fs
  induction fs with
  | nil =>
      intro as h
      exact h
  | cons f fs ih =>
      intro as h
      cases as with
      | nil => cases h
      | cons a as => rw [overlay, List.length_cons, List.length_cons, ih (Nat.succ.inj h)]

/-- Behind the first node no write wraps: the loop lays the flags over what is left of
the array. -/
theorem deltaLoop_behind (old : List α) : ∀ (xs : List α) (prev : Option α) (j : Nat)
    (pre rest : List Nat), rest.length = xs.length →
    ∃ j', deltaLoop old (pre.length + 1) prev xs (pre ++ rest, j) =
      .ok (pre ++ overlay (enters old prev j xs) rest, j') := by
  intro xs
  induction xs with
  | nil =>
      intro prev j pre rest h
      obtain rfl := List.length_eq_zero_iff.mp h
      exact ⟨j, by simp [deltaLoop, overlay]⟩
  | cons x xs ih =>
      intro prev j pre rest h
      cases rest with
      | nil => cases h
      | cons a rest =>
          have hset : setItem (pre ++ a :: rest) (((pre.length + 1 : Nat) : Int) - 1) 1 =
              .ok (pre ++ 1 :: rest) := by
            rw [show ((pre.length + 1 : Nat) : Int) - 1 = (pre.length : Int) by omega]
            exact setItem_append_cons pre rest a 1
          -- the entry behind `pre` is settled by this round
          have hround : ∀ b : Nat, ∃ j', deltaLoop old (pre.length + 1 + 1) (some x) xs
              (pre ++ b :: rest, pointer old j x) = .ok (pre ++ b ::
                overlay (enters old (some x) (pointer old j x) xs) rest, j') := by
            intro b
            obtain ⟨j', hj'⟩ := ih (some x) (pointer old j x) (pre ++ [b]) rest (Nat.succ.inj h)
            rw [List.length_append, List.append_assoc, List.append_assoc] at hj'
            exact ⟨j', hj'⟩
          cases hf : flagged old prev j x with
          | true =>
              obtain ⟨j', hj'⟩ := hround 1
              refine ⟨j', ?_⟩
              rw [deltaLoop, deltaStep_eq, hf, if_pos rfl, hset]
              simpa [enters, overlay, hf, Except.map, bind, Except.bind] using hj'
          | false =>
              obtain ⟨j', hj'⟩ := hround a
              refine ⟨j', ?_⟩
              rw [deltaLoop, deltaStep_eq, hf, if_neg Bool.false_ne_true]
              simpa [enters, overlay, hf, bind, Except.bind] using hj'

/-! ## What the function returns -/

/-- The first node is flagged when the old path has it elsewhere than first. -/
theorem flagged_first (old : List α) (x : α) :
    flagged old none 0 x = true ↔ x ∈ old ∧ old.idxOf x ≠ 0 := by
  by_cases hx : x ∈ old <;> simp [flagged, hx]

/-- The array the loop finds behind the first node: the write at `i = 0` goes to the
last entry. -/
def firstWrite (old : List α) (x : α) (n : Nat) : List Nat :=
  if flagged old none 0 x then (List.replicate n 0).set (n - 1) 1 else List.replicate n 0

@[simp] theorem firstWrite_length (old : List α) (x : α) (n : Nat) :
    (firstWrite old x n).length = n := by
  unfold firstWrite
  split <;> simp

/-- **Two intermediate nodes or more**: the call returns, and its flags are those of
`enters` over the wrapped write. -/
theorem computeLinkDelta_cons₂ {oldLink newLink : List α} {x y : α} {ys : List α}
    (h : inner newLink = x :: y :: ys) :
    computeLinkDelta oldLink newLink = .ok ([0] ++
      overlay (enters (inner oldLink) (some x) (pointer (inner oldLink) 0 x) (y :: ys))
        (firstWrite (inner oldLink) x (ys.length + 1)) ++ [0]) := by
  have hne : List.replicate (ys.length + 1) 0 ≠ [] := by simp
  have hfirst : deltaStep (inner oldLink) 0 none x (List.replicate (ys.length + 1) 0, 0) =
      .ok (firstWrite (inner oldLink) x (ys.length + 1), pointer (inner oldLink) 0 x) := by
    rw [deltaStep_eq]
    cases hf : flagged (inner oldLink) none 0 x with
    | true =>
        rw [if_pos rfl, show ((0 : Nat) : Int) - 1 = -1 from rfl, setItem_neg_one _ hne]
        simp [firstWrite, hf, Except.map]
    | false => simp [firstWrite, hf]
  obtain ⟨j', hj'⟩ := deltaLoop_behind (inner oldLink) (y :: ys) (some x)
    (pointer (inner oldLink) 0 x) [] (firstWrite (inner oldLink) x (ys.length + 1)) (by simp)
  simp only [List.nil_append, List.length_nil, Nat.zero_add] at hj'
  simp only [computeLinkDelta, h, List.length_cons, Nat.add_sub_cancel]
  rw [deltaLoop, hfirst]
  simp only [bind, Except.bind, Nat.zero_add]
  rw [hj']

/-- **One intermediate node**: the call returns `[0, 0]`, unless the old path has the
node elsewhere than first. -/
theorem computeLinkDelta_single {oldLink newLink : List α} {x : α} (h : inner newLink = [x]) :
    computeLinkDelta oldLink newLink =
      if x ∈ inner oldLink ∧ (inner oldLink).idxOf x ≠ 0 then .error .indexError
      else .ok [0, 0] := by
  simp only [computeLinkDelta, h, List.length_cons, List.length_nil]
  rw [deltaLoop, deltaStep_eq]
  by_cases hf : flagged (inner oldLink) none 0 x = true
  · rw [if_pos hf, if_pos ((flagged_first _ _).mp hf)]
    rfl
  · rw [if_neg hf, if_neg (mt (flagged_first _ _).mpr hf)]
    rfl

/-- No intermediate node: nothing is compared. -/
theorem computeLinkDelta_nil {oldLink newLink : List α} (h : inner newLink = []) :
    computeLinkDelta oldLink newLink = .ok [0, 0] := by
  simp only [computeLinkDelta, h]
  rfl

/-- The one way the call can fail: a single intermediate node that the old path has,
but not first. -/
def WrapsAtStart (oldLink newLink : List α) : Prop :=
  ∃ x, inner newLink = [x] ∧ x ∈ inner oldLink ∧ (inner oldLink).idxOf x ≠ 0

theorem computeLinkDelta_ok_iff {oldLink newLink : List α} :
    (∃ arr, computeLinkDelta oldLink newLink = .ok arr) ↔ ¬ WrapsAtStart oldLink newLink := by
  match hn : inner newLink with
  | [] =>
      refine iff_of_true ⟨_, computeLinkDelta_nil hn⟩ ?_
      rintro ⟨x, hx, -⟩
      cases hn.symm.trans hx
  | [x] =>
      rw [computeLinkDelta_single hn]
      by_cases hw : x ∈ inner oldLink ∧ (inner oldLink).idxOf x ≠ 0
      · rw [if_pos hw]
        exact iff_of_false (fun h => nomatch h) (fun h => h ⟨x, hn, hw⟩)
      · rw [if_neg hw]
        refine iff_of_true ⟨_, rfl⟩ ?_
        rintro ⟨y, hy, hw'⟩
        obtain rfl : x = y := by simpa using hn.symm.trans hy
        exact hw hw'
  | x :: y :: ys =>
      refine iff_of_true ⟨_, computeLinkDelta_cons₂ hn⟩ ?_
      rintro ⟨z, hz, -⟩
      cases hn.symm.trans hz

/-- **What the call returns**, if it returns: no flags over at most one intermediate node,
and those of `enters` over the wrapped write over more. -/
theorem computeLinkDelta_ok {oldLink newLink : List α} {arr : List Nat}
    (h : computeLinkDelta oldLink newLink = .ok arr) : arr = [0] ++ [] ++ [0] ∨
      ∃ x zs, arr = [0] ++
        overlay (enters (inner oldLink) (some x) (pointer (inner oldLink) 0 x) zs)
          (firstWrite (inner oldLink) x zs.length) ++ [0] := by
  match hn : inner newLink with
  | [] =>
      rw [computeLinkDelta_nil hn, Except.ok.injEq] at h
      exact Or.inl h.symm
  | [x] =>
      rw [computeLinkDelta_single hn] at h
      split at h
      · cases h
      · exact Or.inl (Except.ok.inj h).symm
  | x :: y :: ys =>
      rw [computeLinkDelta_cons₂ hn, Except.ok.injEq] at h
      exact Or.inr ⟨x, y :: ys, h.symm⟩

/-- Paths that begin at the same satellite can be compared. -/
theorem not_wrapsAtStart {oldLink newLink : List α}
    (h : (inner newLink).head? = (inner oldLink).head?) : ¬ WrapsAtStart oldLink newLink := by
  rintro ⟨x, hx, hmem, hidx⟩
  rw [hx, List.head?_cons] at h
  obtain ⟨os, ho⟩ := List.head?_eq_some_iff.mp h.symm
  rw [ho] at hidx
  exact hidx List.idxOf_cons_self

/-! ## Every flag is a bit -/

/-- Every entry is 0 or 1. -/
def Bits (as : List Nat) : Prop := ∀ a ∈ as, a = 0 ∨ a = 1

theorem bits_nil : Bits [] := fun _ h => absurd h List.not_mem_nil

theorem bits_overlay : ∀ {fs : List Bool} {as : List Nat}, Bits as → Bits (overlay fs as) := by
  intro fs
  induction fs with
  | nil =>
      intro as _ b hb
      exact absurd hb List.not_mem_nil
  | cons f fs ih =>
      intro as h b hb
      cases as with
      | nil => exact absurd hb List.not_mem_nil
      | cons a as =>
          rcases List.mem_cons.mp hb with rfl | hb
          · cases f with
            | false => exact h a List.mem_cons_self
            | true => exact Or.inr rfl
          · exact ih (fun c hc => h c (List.mem_cons_of_mem a hc)) b hb

theorem bits_firstWrite (old : List α) (x : α) (n : Nat) : Bits (firstWrite old x n) := by
  unfold firstWrite
  split
  · intro a ha
    rcases List.mem_or_eq_of_mem_set ha with h | h
    · exact Or.inl (List.eq_of_mem_replicate h)
    · exact Or.inr h
  · intro a ha
    exact Or.inl (List.eq_of_mem_replicate ha)

theorem bits_padded {as : List Nat} (h : Bits as) : Bits ([0] ++ as ++ [0]) := by
  intro a ha
  simp only [List.mem_append, List.mem_singleton] at ha
  rcases ha with (ha | ha) | ha
  · exact Or.inl ha
  · exact h a ha
  · exact Or.inl ha

/-- What `compute_link_delta` returns is an array of 0s and 1s. -/
theorem computeLinkDelta_bits {oldLink newLink : List α} {arr : List Nat}
    (h : computeLinkDelta oldLink newLink = .ok arr) : Bits arr := by
  rcases computeLinkDelta_ok h with rfl | ⟨x, zs, rfl⟩
  · exact bits_padded bits_nil
  · exact bits_padded (bits_overlay (bits_firstWrite _ _ _))

/-- A sum of bits is positive exactly if one of them is raised. -/
theorem sum_ne_zero_iff {as : List Nat} (h : Bits as) : as.sum ≠ 0 ↔ 1 ∈ as := by
  rw [ne_eq, List.sum_eq_zero_iff_forall_eq_nat]
  constructor
  · intro hs
    push Not at hs
    obtain ⟨a, ha, hne⟩ := hs
    exact (h a ha).resolve_left hne ▸ ha
  · intro hm hs
    exact absurd (hs 1 hm) Nat.one_ne_zero

/-! ## No flag means no difference

The induction that carries the oracle: if nothing is flagged behind a node that the
old path has, the new path goes on exactly as the old one does at the pointer. -/

theorem prefix_of_enters {old : List α} : ∀ {xs : List α} {p : α} {j : Nat}, p ∈ old →
    (∀ f ∈ enters old (some p) j xs, f = false) → xs <+: old.drop j := by
  intro xs
  induction xs with
  | nil =>
      intro p j _ _
      exact List.nil_prefix
  | cons x xs ih =>
      intro p j hp h
      have hf : flagged old (some p) j x = false := h _ List.mem_cons_self
      by_cases hx : x ∈ old
      · have hidx : old.idxOf x = j := by simpa [flagged, hx] using hf
        have hlt : j < old.length := hidx ▸ List.idxOf_lt_length_of_mem hx
        have hget : old[j] = x := by
          subst hidx
          exact List.getElem_idxOf hlt
        have hrest : xs <+: old.drop (j + 1) := by
          refine ih hx fun f hm => h f (List.mem_cons_of_mem _ ?_)
          simpa [pointer, hx, hidx] using hm
        rw [List.drop_eq_getElem_cons hlt, hget]
        exact List.cons_prefix_cons.mpr ⟨rfl, hrest⟩
      · -- a node the old path does not have, behind one that it has, is flagged
        have : flagged old (some p) j x = true := by simp [flagged, hx, hp]
        rw [this] at hf
        cases hf

/-- Along the old path itself nothing is flagged. -/
theorem enters_drop {old : List α} (hnd : old.Nodup) : ∀ {n j : Nat} (p : Option α),
    old.length - j = n → ∀ f ∈ enters old p j (old.drop j), f = false := by
  intro n
  induction n with
  | zero =>
      intro j p h f hm
      rw [List.drop_of_length_le (by omega)] at hm
      exact absurd hm List.not_mem_nil
  | succ n ih =>
      intro j p h f hm
      have hlt : j < old.length := by omega
      have hidx : old.idxOf old[j] = j := hnd.idxOf_getElem j hlt
      rw [List.drop_eq_getElem_cons hlt] at hm
      rcases List.mem_cons.mp hm with rfl | hm
      · simp [flagged, hidx]
      · refine ih (j := j + 1) (some old[j]) (by omega) f ?_
        simpa [pointer, hidx] using hm

/-- A flag as an entry of `handover_arr`. -/
def flagBit (f : Bool) : Nat := if f then 1 else 0

@[simp] theorem flagBit_eq_one {f : Bool} : flagBit f = 1 ↔ f = true := by
  cases f <;> simp [flagBit]

@[simp] theorem flagBit_eq_zero {f : Bool} : flagBit f = 0 ↔ f = false := by
  cases f <;> simp [flagBit]

theorem overlay_zero : ∀ {fs : List Bool} {n : Nat}, fs.length = n →
    overlay fs (List.replicate n 0) = fs.map flagBit := by
  intro fs
  induction fs with
  | nil =>
      intro n _
      rfl
  | cons f fs ih =>
      intro n h
      cases n with
      | zero => cases h
      | succ n =>
          rw [List.replicate_succ, overlay, ih (Nat.succ.inj h)]
          rfl

/-- An array of zeros shows nothing exactly if no flag is laid over it. -/
theorem overlay_zero_iff {fs : List Bool} {n : Nat} (h : fs.length = n) :
    (∀ a ∈ overlay fs (List.replicate n 0), a = 0) ↔ ∀ f ∈ fs, f = false := by
  simp only [overlay_zero h, List.forall_mem_map, flagBit_eq_zero]

theorem enters_nil (p : Option α) (j : Nat) (zs : List α) : ∀ f ∈ enters [] p j zs, f = false := by
  induction zs generalizing p j with
  | nil => intro f hf; exact absurd hf List.not_mem_nil
  | cons z zs ih =>
      intro f hf
      rcases List.mem_cons.mp hf with rfl | hf
      · simp [flagged]
      · exact ih _ _ f hf

/-- Against a path without intermediate nodes nothing is flagged. -/
theorem computeLinkDelta_of_inner_nil {oldLink newLink : List α} (h : inner oldLink = [])
    {arr : List Nat} (harr : computeLinkDelta oldLink newLink = .ok arr) : ∀ a ∈ arr, a = 0 := by
  have hpad : ∀ {as : List Nat}, (∀ a ∈ as, a = 0) → ∀ a ∈ [0] ++ as ++ [0], a = 0 := by
    intro as has a ha
    simp only [List.mem_append, List.mem_singleton] at ha
    rcases ha with (ha | ha) | ha
    · exact ha
    · exact has a ha
    · exact ha
  rcases computeLinkDelta_ok harr with rfl | ⟨x, zs, rfl⟩
  · exact hpad fun a ha => absurd ha List.not_mem_nil
  · have hfw : firstWrite [] x zs.length = List.replicate zs.length 0 := by
      simp [firstWrite, flagged]
    rw [h, hfw]
    exact hpad ((overlay_zero_iff (enters_length [] (some x) _ zs)).mpr (enters_nil _ _ _))

theorem flagged_head {x : α} {xs : List α} (p : Option α) :
    flagged (x :: xs) p 0 x = false := by
  simp [flagged]

/-- A list with the last element of a duplicate-free one cannot be a proper prefix of it. -/
theorem eq_of_prefix_of_getLast? {β : Type} {xs ys : List β} (hnd : ys.Nodup)
    (h : xs <+: ys) (hl : xs.getLast? = ys.getLast?) : xs = ys := by
  obtain ⟨t, rfl⟩ := h
  cases ht : t.getLast? with
  | none => rw [List.getLast?_eq_none_iff.mp ht, List.append_nil]
  | some z =>
      rw [List.getLast?_append, ht] at hl
      have hzx : z ∈ xs := List.mem_of_getLast? hl
      have hzt : z ∈ t := List.mem_of_getLast? ht
      exact absurd rfl ((List.nodup_append.mp hnd).2.2 z hzx z hzt)

/-- **The scan is exact** between paths with the same first and the same last
intermediate node: it returns, and its flags sum to 0 exactly if the intermediate
nodes are the same. -/
theorem computeLinkDelta_exact {oldLink newLink : List α} (hnd : (inner oldLink).Nodup)
    (hne : inner newLink ≠ []) (hhead : (inner newLink).head? = (inner oldLink).head?)
    (hlast : (inner newLink).getLast? = (inner oldLink).getLast?) :
    ∃ arr, computeLinkDelta oldLink newLink = .ok arr ∧
      (arr.sum = 0 ↔ inner newLink = inner oldLink) := by
  match hn : inner newLink, ho : inner oldLink with
  | [], _ => exact absurd hn hne
  | _ :: _, [] => simp [hn, ho] at hhead
  | [x], o :: os =>
      rw [hn, ho] at hhead hlast
      obtain rfl : x = o := by simpa using hhead
      have hsingle : [x] = x :: os :=
        eq_of_prefix_of_getLast? (ho ▸ hnd) ⟨os, rfl⟩ hlast
      refine ⟨[0, 0], ?_, by simp [hsingle]⟩
      rw [computeLinkDelta_single hn, if_neg]
      rw [ho]
      simp
  | x :: y :: ys, o :: os =>
      rw [hn, ho] at hhead hlast
      obtain rfl : x = o := by simpa using hhead
      refine ⟨_, computeLinkDelta_cons₂ hn, ?_⟩
      -- the first node is where the pointer starts, so no write wraps
      have hfw : firstWrite (x :: os) x (ys.length + 1) = List.replicate (ys.length + 1) 0 := by
        simp [firstWrite, flagged_head]
      have hptr : pointer (x :: os) 0 x = 1 := by simp [pointer]
      have hzero : (∀ f ∈ enters (x :: os) (some x) 1 (y :: ys), f = false) ↔
          y :: ys = os := by
        constructor
        · intro h
          have hpre : y :: ys <+: os := prefix_of_enters List.mem_cons_self h
          have := eq_of_prefix_of_getLast? (ho ▸ hnd)
            (List.cons_prefix_cons.mpr ⟨rfl, hpre⟩) hlast
          exact (List.cons.inj this).2
        · rintro rfl
          exact enters_drop (j := 1) (ho ▸ hnd) (some x) rfl
      rw [ho, hfw, hptr]
      have hsum := overlay_zero_iff (enters_length (x :: os) (some x) 1 (y :: ys))
      rw [List.sum_eq_zero_iff_forall_eq_nat]
      simp only [List.length_cons] at hsum
      simp only [List.mem_append, List.mem_singleton, or_imp, forall_and, forall_eq, true_and,
        and_true, hsum, hzero, List.cons.injEq]

end LeoEM
