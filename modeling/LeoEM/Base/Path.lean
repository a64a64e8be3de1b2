/-
# `Base.Path` — paths as lists, and the links on them

A link of a path is a pair of nodes that stand behind each other, `Consecutive`.  A
path is `s :: mid ++ [t]`, two ends and what is between them; a piece of it that
reaches neither end is a piece of `mid` (`split_ends`).  Two paths between the same
ends may also begin and end with the same link, `SameEnds`.
-/
import Mathlib.Data.List.Nodup
import Mathlib.Data.List.Infix

namespace LeoEM

variable {α : Type}

/-! ## Links of a path -/

/-- `b` stands right behind `a`. -/
def Consecutive (xs : List α) (a b : α) : Prop := [a, b] <:+: xs

instance [DecidableEq α] (xs : List α) (a b : α) : Decidable (Consecutive xs a b) :=
  inferInstanceAs (Decidable ([a, b] <:+: xs))

theorem Consecutive.left {xs : List α} {a b : α} (h : Consecutive xs a b) : a ∈ xs :=
  h.subset List.mem_cons_self

theorem Consecutive.right {xs : List α} {a b : α} (h : Consecutive xs a b) : b ∈ xs :=
  h.subset (List.mem_cons_of_mem a List.mem_cons_self)

/-- A piece of a path that reaches neither end is one of its intermediate nodes. -/
theorem split_ends {s t : α} {mid pre piece post : List α}
    (h : s :: mid ++ [t] = pre ++ piece ++ post) (hpre : pre ≠ []) (hpost : post ≠ []) :
    ∃ pre' post', pre = s :: pre' ∧ post = post' ++ [t] ∧ mid = pre' ++ piece ++ post' := by
  obtain ⟨a, pre', rfl⟩ := List.exists_cons_of_ne_nil hpre
  obtain ⟨post', b, rfl⟩ := (List.eq_nil_or_concat' post).resolve_left hpost
  have h' : mid ++ [t] = pre' ++ piece ++ post' ++ [b] := by
    simpa using (List.cons.inj h).2
  obtain ⟨hmid, htb⟩ := List.append_inj' h' rfl
  refine ⟨pre', post', ?_, ?_, hmid⟩
  · rw [(List.cons.inj h).1]
  · rw [htb]

/-- Between intermediate nodes it makes no difference that the path has ends. -/
theorem consecutive_ends {s t : α} {mid : List α} {a b : α} (has : a ≠ s) (hbt : b ≠ t) :
    Consecutive (s :: mid ++ [t]) a b ↔ Consecutive mid a b := by
  constructor
  · rintro ⟨pre, post, h⟩
    have hpre : pre ≠ [] := by
      rintro rfl
      exact has (List.cons.inj h).1
    have hpost : post ≠ [] := by
      rintro rfl
      have hlast := congrArg List.getLast? h
      simp only [List.append_nil, List.getLast?_append, List.getLast?_singleton,
        List.getLast?_cons_cons, Option.some_or, Option.some.injEq] at hlast
      exact hbt hlast
    obtain ⟨pre', post', -, -, hmid⟩ := split_ends h.symm hpre hpost
    exact ⟨pre', post', hmid.symm⟩
  · rintro ⟨pre, post, rfl⟩
    exact ⟨s :: pre, post ++ [t], by simp⟩

/-- Two nodes of the new path, seen from its intermediate nodes. -/
theorem link_inside {s t : α} {mid : List α} {k : Nat} {a b : α}
    (hk : k + 1 < mid.length) (ha : (s :: mid ++ [t])[k + 1]? = some a)
    (hb : (s :: mid ++ [t])[k + 1 + 1]? = some b) : mid[k]? = some a ∧ mid[k + 1]? = some b := by
  rw [List.cons_append, List.getElem?_cons_succ] at ha hb
  rw [List.getElem?_append_left (by omega)] at ha
  rw [List.getElem?_append_left hk] at hb
  exact ⟨ha, hb⟩

/-- The nodes at a link of the list, and what stands before and behind them. -/
theorem split_at_link {xs : List α} {k : Nat} {a b : α} (ha : xs[k]? = some a)
    (hb : xs[k + 1]? = some b) : ∃ pre post, xs = pre ++ a :: b :: post ∧ pre.length = k := by
  obtain ⟨hk, rfl⟩ := List.getElem?_eq_some_iff.mp ha
  obtain ⟨hk', rfl⟩ := List.getElem?_eq_some_iff.mp hb
  refine ⟨xs.take k, xs.drop (k + 2), ?_, by simp; omega⟩
  rw [← List.drop_eq_getElem_cons hk', ← List.drop_eq_getElem_cons hk, List.take_append_drop]

/-- What stands at the two ends of a path that is cut at its first link. -/
theorem head?_of_split {s t : α} {mid run post : List α} {p q : α} (hne : mid ≠ [])
    (h : s :: mid ++ [t] = p :: run ++ q :: post) :
    s = p ∧ mid.head? = (run ++ [q]).head? := by
  obtain ⟨x, xs, rfl⟩ := List.exists_cons_of_ne_nil hne
  cases run with
  | nil => simp_all
  | cons r rs => simp_all

/-- And at its last. -/
theorem getLast?_of_split {s t : α} {mid pre run : List α} {p q : α} (hne : mid ≠ [])
    (h : s :: mid ++ [t] = pre ++ p :: run ++ [q]) :
    t = q ∧ mid.getLast? = (p :: run).getLast? := by
  obtain ⟨hl, hr⟩ := List.append_inj' h rfl
  refine ⟨(List.cons.inj hr).1, ?_⟩
  have hlast := congrArg List.getLast? hl
  rw [List.getLast?_append_cons] at hlast
  rw [← hlast, List.getLast?_cons, List.getLast?_eq_some_getLast hne]
  rfl

/-! ## Two paths between the same ends -/

/-- Two paths between the same ends, that also begin and end at the same satellites. -/
structure SameEnds (s t : α) (old mid : List α) : Prop where
  oldNodup : (s :: old ++ [t]).Nodup
  newNodup : (s :: mid ++ [t]).Nodup
  head : mid.head? = old.head?
  last : mid.getLast? = old.getLast?
  nonempty : mid ≠ []

section SameEnds

variable {s t : α} {old mid : List α}

theorem SameEnds.ne_ends (h : SameEnds s t old mid) {x : α} (hx : x ∈ mid) :
    x ≠ s ∧ x ≠ t := by
  constructor
  · rintro rfl
    exact (List.nodup_cons.mp h.newNodup).1 (List.mem_append_left _ hx)
  · exact (List.nodup_append.mp (List.nodup_cons.mp h.newNodup).2).2.2 x hx t List.mem_cons_self

/-- An intermediate node of the new path is on the old one as an intermediate node. -/
theorem SameEnds.mem_ends (h : SameEnds s t old mid) {x : α} (hx : x ∈ mid) :
    x ∈ s :: old ++ [t] ↔ x ∈ old := by
  obtain ⟨hs, ht⟩ := h.ne_ends hx
  simp [hs, ht]

theorem SameEnds.consecutive (h : SameEnds s t old mid) {a b : α} (ha : a ∈ mid)
    (hb : b ∈ mid) : Consecutive (s :: old ++ [t]) a b ↔ Consecutive old a b :=
  consecutive_ends (h.ne_ends ha).1 (h.ne_ends hb).2

theorem SameEnds.inner_nodup (h : SameEnds s t old mid) : old.Nodup :=
  (List.nodup_append.mp (List.nodup_cons.mp h.oldNodup).2).1

/-- The first link of the new path is the first of the old one. -/
theorem SameEnds.first_link (h : SameEnds s t old mid) {b : α} (hb : mid.head? = some b) :
    Consecutive (s :: old ++ [t]) s b := by
  obtain ⟨os, rfl⟩ := List.head?_eq_some_iff.mp (h.head.symm.trans hb)
  exact ⟨[], os ++ [t], rfl⟩

/-- The last link of the new path is the last of the old one. -/
theorem SameEnds.last_link (h : SameEnds s t old mid) {a : α} (ha : mid.getLast? = some a) :
    Consecutive (s :: old ++ [t]) a t := by
  obtain ⟨os, rfl⟩ := List.getLast?_eq_some_iff.mp (h.last.symm.trans ha)
  exact ⟨s :: os, [], by simp⟩

end SameEnds

/-! ## Links by place -/

section Place

variable [DecidableEq α]

theorem idxOf_at_split (pre post : List α) (a : α) (h : (pre ++ a :: post).Nodup) :
    (pre ++ a :: post).idxOf a = pre.length := by
  have hnot : a ∉ pre := fun ha => (List.nodup_append.mp h).2.2 a ha a List.mem_cons_self rfl
  rw [List.idxOf_append_of_notMem hnot, List.idxOf_cons_self, Nat.add_zero]

/-- A path cut at one of its nodes. -/
theorem split_at_idxOf {xs : List α} {a : α} (h : a ∈ xs) :
    xs = xs.take (xs.idxOf a) ++ a :: xs.drop (xs.idxOf a + 1) := by
  have hlt := List.idxOf_lt_length_of_mem h
  have hget : xs[xs.idxOf a] = a := List.getElem_idxOf hlt
  have hdrop := List.drop_eq_getElem_cons hlt
  rw [hget] at hdrop
  rw [← hdrop, List.take_append_drop]

/-- In a path without repetition the places tell. -/
theorem consecutive_iff {xs : List α} (hnd : xs.Nodup) {a b : α} (ha : a ∈ xs) (hb : b ∈ xs) :
    Consecutive xs a b ↔ xs.idxOf b = xs.idxOf a + 1 := by
  constructor
  · rintro ⟨pre, post, rfl⟩
    have h₁ : (pre ++ [a, b] ++ post).idxOf a = pre.length := by
      simpa using idxOf_at_split pre (b :: post) a (by simpa using hnd)
    have h₂ : (pre ++ [a, b] ++ post).idxOf b = pre.length + 1 := by
      simpa using idxOf_at_split (pre ++ [a]) post b (by simpa using hnd)
    rw [h₁, h₂]
  · intro h
    have hsplit := split_at_idxOf hb
    have htake : xs.take (xs.idxOf b) = xs.take (xs.idxOf a) ++ [a] := by
      have hlt := List.idxOf_lt_length_of_mem ha
      rw [h, List.take_add_one, List.getElem?_eq_getElem hlt, List.getElem_idxOf hlt]
      rfl
    rw [htake] at hsplit
    exact ⟨xs.take (xs.idxOf a), xs.drop (xs.idxOf b + 1), by simpa using hsplit.symm⟩

end Place

end LeoEM
