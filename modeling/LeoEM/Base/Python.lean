/-
# `Base.Python` — Python lists and dictionaries, as far as access can go wrong in them

Reading and writing `xs[i]` with an `i` that may be negative or out of range,
and the slice `xs[1:-1]`.  A negative index counts from the end; an index out
of range on either side raises `IndexError`.

A dictionary keeps its keys in the order they were first set in; reading a key that
it does not have raises `KeyError`.
-/
import Mathlib.Data.List.Basic

/-- The built-in exceptions that list, dictionary and literal operations raise. -/
inductive PyError where
  | indexError
  | keyError
  | typeError
  | valueError
  deriving DecidableEq, Repr

/-- A sequence of two operations succeeds exactly if both do. -/
theorem bind_eq_ok {ε α β : Type} {x : Except ε α} {f : α → Except ε β} {b : β} :
    (x >>= f) = .ok b ↔ ∃ a, x = .ok a ∧ f a = .ok b := by
  cases x <;> simp [bind, Except.bind]

theorem ok_bind {ε α β : Type} (a : α) (f : α → Except ε β) : (Except.ok a >>= f) = f a := rfl

namespace PyList

variable {α : Type}

/-- The position an index stands for, if it is in range. -/
def position (n : Nat) (i : Int) : Option Nat :=
  if 0 ≤ i then (if i.toNat < n then some i.toNat else none)
  else (if 0 ≤ i + n then some (i + n).toNat else none)

/-- `xs[i]` -/
def getItem (xs : List α) (i : Int) : Except PyError α :=
  match (position xs.length i).bind (xs[·]?) with
  | some x => .ok x
  | none => .error .indexError

/-- `xs[i] = x` -/
def setItem (xs : List α) (i : Int) (x : α) : Except PyError (List α) :=
  match position xs.length i with
  | some k => .ok (xs.set k x)
  | none => .error .indexError

/-- `xs[1:-1]` -/
def inner (xs : List α) : List α := (xs.drop 1).dropLast

/-- `range(a, b)` -/
def range (a b : Int) : List Int := (List.range (b - a).toNat).map (fun i : Nat => a + i)

@[simp] theorem position_nat (n k : Nat) :
    position n (k : Int) = if k < n then some k else none := by
  simp [position]

/-- The index `-k` is the `k`-th element from the end. -/
theorem position_neg {n k : Nat} (hk : 0 < k) (hn : k ≤ n) :
    position n (-(k : Int)) = some (n - k) := by
  have h₁ : ¬ (0 : Int) ≤ -(k : Int) := by omega
  have h₂ : (0 : Int) ≤ -(k : Int) + n := by omega
  rw [position, if_neg h₁, if_pos h₂]
  congr 1
  omega

theorem getItem_nat (xs : List α) {k : Nat} (h : k < xs.length) :
    getItem xs (k : Int) = .ok xs[k] := by
  simp [getItem, h]

theorem getItem_neg (xs : List α) {k : Nat} (hk : 0 < k) (h : k ≤ xs.length) :
    getItem xs (-(k : Int)) = .ok (xs.get ⟨xs.length - k, by omega⟩) := by
  have hlt : xs.length - k < xs.length := by omega
  simp [getItem, position_neg hk h, hlt]

section Ends

variable {a b : α} {mid : List α}

theorem getItem_first : getItem (a :: mid ++ [b]) 0 = .ok a :=
  getItem_nat (a :: mid ++ [b]) (k := 0) (Nat.succ_pos _)

theorem getItem_last : getItem (a :: mid ++ [b]) (-1) = .ok b := by
  simpa using getItem_neg (a :: mid ++ [b]) (k := 1) Nat.one_pos (by simp)

theorem getItem_mid {i : Nat} (h : i < mid.length) :
    getItem (a :: mid ++ [b]) ((i : Int) + 1) = .ok mid[i] := by
  refine (getItem_nat (a :: mid ++ [b]) (k := i + 1) (by simp; omega)).trans ?_
  simp [List.getElem_append_left h]

end Ends

/-- `xs[1]` is the first element of the slice. -/
theorem getItem_one_of_inner {xs : List α} {x : α} (h : (inner xs).head? = some x) :
    getItem xs 1 = .ok x := by
  simp only [inner, List.head?_dropLast, List.head?_drop] at h
  split at h
  · obtain ⟨hlt, rfl⟩ := List.getElem?_eq_some_iff.mp h
    exact getItem_nat xs hlt
  · cases h

/-- `xs[-2]` is its last. -/
theorem getItem_neg_two_of_inner {xs : List α} {x : α} (h : (inner xs).getLast? = some x) :
    getItem xs (-2) = .ok x := by
  simp only [inner, List.getLast?_dropLast, List.length_drop, List.getElem?_drop] at h
  split at h
  · cases h
  · obtain ⟨hlt, rfl⟩ := List.getElem?_eq_some_iff.mp h
    refine (getItem_neg xs (k := 2) (by omega) (by omega)).trans ?_
    simp only [List.get_eq_getElem]
    congr 2
    omega

/-- Lists with something between the ends agree at `[1]` only if their slices begin
alike. -/
theorem getItem_one_inj {xs ys : List α} (hx : inner xs ≠ []) (hy : inner ys ≠ [])
    (h : getItem xs 1 = getItem ys 1) : (inner xs).head? = (inner ys).head? := by
  have hx := List.head?_eq_some_head hx
  have hy := List.head?_eq_some_head hy
  rw [getItem_one_of_inner hx, getItem_one_of_inner hy, Except.ok.injEq] at h
  rw [hx, hy, h]

theorem getItem_neg_two_inj {xs ys : List α} (hx : inner xs ≠ []) (hy : inner ys ≠ [])
    (h : getItem xs (-2) = getItem ys (-2)) : (inner xs).getLast? = (inner ys).getLast? := by
  have hx := List.getLast?_eq_some_getLast hx
  have hy := List.getLast?_eq_some_getLast hy
  rw [getItem_neg_two_of_inner hx, getItem_neg_two_of_inner hy, Except.ok.injEq] at h
  rw [hx, hy, h]

/-- Writing at the place right behind a prefix. -/
theorem setItem_append_cons (pre rest : List α) (a x : α) :
    setItem (pre ++ a :: rest) (pre.length : Int) x = .ok (pre ++ x :: rest) := by
  simp [setItem]

/-- `xs[-1] = x` on a list that is not empty. -/
theorem setItem_neg_one (xs : List α) (h : xs ≠ []) (x : α) :
    setItem xs (-1) x = .ok (xs.set (xs.length - 1) x) := by
  have hpos : 1 ≤ xs.length := List.length_pos_iff.mpr h
  have hp : position xs.length (-1) = some (xs.length - 1) := position_neg Nat.one_pos hpos
  simp [setItem, hp]

@[simp] theorem inner_ends (a b : α) (mid : List α) : inner (a :: mid ++ [b]) = mid := by
  simp [inner]

theorem inner_map {β : Type} (f : α → β) (xs : List α) : inner (xs.map f) = (inner xs).map f := by
  simp [inner]

theorem inner_length (xs : List α) : (inner xs).length = xs.length - 2 := by
  simp [inner]
  omega

theorem mem_range {a b i : Int} : i ∈ range a b ↔ a ≤ i ∧ i < b := by
  simp only [range, List.mem_map, List.mem_range]
  constructor
  · rintro ⟨k, hk, rfl⟩
    omega
  · rintro ⟨h₁, h₂⟩
    exact ⟨(i - a).toNat, by omega, by omega⟩

end PyList

/-- A dictionary, in the order its keys came in. -/
abbrev PyDict (κ ν : Type) := List (κ × ν)

namespace PyDict

variable {κ ν : Type} [DecidableEq κ]

/-- `d.get(k)` -/
def lookup (d : PyDict κ ν) (k : κ) : Option ν := List.lookup k d

/-- `d[k]` -/
def getKey (d : PyDict κ ν) (k : κ) : Except PyError ν :=
  match d.lookup k with
  | some v => .ok v
  | none => .error .keyError

/-- `d[k] = v` -/
def setKey (d : PyDict κ ν) (k : κ) (v : ν) : PyDict κ ν :=
  if k ∈ d.map Prod.fst then d.map fun e => if e.1 = k then (k, v) else e else d ++ [(k, v)]

theorem setKey_new {d : PyDict κ ν} {k : κ} (h : k ∉ d.map Prod.fst) (v : ν) :
    setKey d k v = d ++ [(k, v)] := if_neg h

theorem lookup_eq_none {d : PyDict κ ν} {k : κ} : d.lookup k = none ↔ k ∉ d.map Prod.fst := by
  rw [lookup, List.lookup_eq_none_iff]
  constructor
  · intro h hk
    obtain ⟨e, he, rfl⟩ := List.mem_map.mp hk
    simpa using h e he
  · intro h e he
    simpa using fun hk : k = e.1 => h (hk ▸ List.mem_map_of_mem he)

theorem mem_of_lookup {d : PyDict κ ν} {k : κ} {v : ν} (h : d.lookup k = some v) : (k, v) ∈ d := by
  obtain ⟨l₁, l₂, rfl, -⟩ := List.lookup_eq_some_iff.mp h
  exact List.mem_append_right l₁ List.mem_cons_self

/-- The key that came in last. -/
theorem getKey_last {d : PyDict κ ν} {k : κ} (h : k ∉ d.map Prod.fst) (v : ν) :
    getKey (d ++ [(k, v)]) k = .ok v := by
  have hno : List.lookup k d = none := lookup_eq_none.mpr h
  simp [getKey, lookup, List.lookup_append, hno]

theorem setKey_last {d : PyDict κ ν} {k : κ} (h : k ∉ d.map Prod.fst) (v w : ν) :
    setKey (d ++ [(k, v)]) k w = d ++ [(k, w)] := by
  have hsame : (d.map fun e => if e.1 = k then (k, w) else e) = d := by
    refine (List.map_congr_left fun e he => if_neg fun hk => h ?_).trans (List.map_id d)
    exact hk ▸ List.mem_map_of_mem he
  rw [setKey, if_pos (by simp), List.map_append, hsame]
  simp

/-- Every key once: an entry is what its key finds. -/
theorem lookup_eq_some {d : PyDict κ ν} (hnd : (d.map Prod.fst).Nodup) {k : κ} {v : ν} :
    d.lookup k = some v ↔ (k, v) ∈ d := by
  induction d with
  | nil => simp [lookup]
  | cons e d ih =>
      obtain ⟨k', v'⟩ := e
      obtain ⟨hk', hnd⟩ := List.nodup_cons.mp hnd
      rw [lookup] at ih ⊢
      by_cases hk : k = k'
      · subst hk
        have hno : (k, v) ∉ d := fun hm => hk' (List.mem_map.mpr ⟨(k, v), hm, rfl⟩)
        simp [hno, eq_comm]
      · have hbeq : (k == k') = false := by simpa using hk
        simp [List.lookup_cons, hbeq, ih hnd, hk]

end PyDict
