/-
# `LinkInfo` — the routing information one cycle hands from stage to stage

The route stage computes one `Route` a cycle, or none; the path file carries it;
`read_link_info` rebuilds it as an entry of `link_info_all_cycles`; and
`update_precomputed_link` lays it over the emulated chain.  Delays are numbers of
an arbitrary field `K`, so nothing here depends on how they are rounded.
-/
import LeoEM.Base.Python
import Mathlib.Data.List.Nodup

namespace LeoEM

open PyList

/-- A line of the path file that carries a path: `routing_path`, `node_num`,
`node_delay` and `delay_sum`. -/
structure Route (K : Type) where
  path : List Int
  nodeNum : Int
  nodeDelay : List K
  delaySum : K
  deriving DecidableEq, Repr

/-- An entry of `link_info_all_cycles`.  No route is the entry `[cycle, "NULL"]`. -/
structure Cycle (K : Type) where
  cycle : Int
  route : Option (Route K)
  deriving DecidableEq, Repr

variable {K : Type}

/-- The route of cycle `k`, counted from 0, if there is such a cycle and it has one. -/
def routeAt (cycles : List (Cycle K)) (k : Nat) : Option (Route K) :=
  (cycles[k]?).bind Cycle.route

/-- The cycles are numbered 1, 2, 3, ... in order. -/
def Numbered (cycles : List (Cycle K)) : Prop :=
  ∀ (k : Nat) (c : Cycle K), cycles[k]? = some c → c.cycle = k + 1

/-- A simple path from the first user's dish `-1` to the second's, `-2`, over at least
`n` intermediate nodes. -/
def SimplePath (n : Nat) (path : List Int) : Prop :=
  ∃ mid, path = -1 :: mid ++ [-2] ∧ path.Nodup ∧ n ≤ mid.length

/-- Every path of the list has at least `n` nodes. -/
def PathsLonger (n : Nat) (cycles : List (Cycle K)) : Prop :=
  ∀ c ∈ cycles, ∀ r, c.route = some r → n ≤ r.path.length

/-- Every path of the list is a simple path over at least `n` intermediate nodes. -/
def SimplePaths (n : Nat) (cycles : List (Cycle K)) : Prop :=
  ∀ c ∈ cycles, ∀ r, c.route = some r → SimplePath n r.path

theorem routeAt_eq_some {cycles : List (Cycle K)} {k : Nat} {r : Route K} :
    routeAt cycles k = some r ↔ ∃ c, cycles[k]? = some c ∧ c.route = some r := by
  simp [routeAt, Option.bind_eq_some_iff]

theorem routeAt_lt {cycles : List (Cycle K)} {k : Nat} {r : Route K}
    (h : routeAt cycles k = some r) : k < cycles.length := by
  obtain ⟨c, hc, -⟩ := routeAt_eq_some.mp h
  exact (List.getElem?_eq_some_iff.mp hc).1

theorem mem_of_routeAt {cycles : List (Cycle K)} {k : Nat} {r : Route K}
    (h : routeAt cycles k = some r) : ∃ c ∈ cycles, c.route = some r := by
  obtain ⟨c, hc, hr⟩ := routeAt_eq_some.mp h
  exact ⟨c, List.mem_of_getElem? hc, hr⟩

/-- The intermediate nodes of a simple path, each once. -/
theorem SimplePath.inner_nodup {n : Nat} {path : List Int} (h : SimplePath n path) :
    (inner path).Nodup := by
  obtain ⟨mid, rfl, hnd, -⟩ := h
  rw [inner_ends]
  exact (List.nodup_append.mp (List.nodup_cons.mp hnd).2).1

theorem SimplePath.length {n : Nat} {path : List Int} (h : SimplePath n path) :
    n + 2 ≤ path.length := by
  obtain ⟨mid, rfl, -, hn⟩ := h
  simp
  omega

theorem SimplePaths.at {n k : Nat} {cycles : List (Cycle K)} {r : Route K}
    (h : SimplePaths n cycles) (hr : routeAt cycles k = some r) : SimplePath n r.path := by
  obtain ⟨c, hc, hcr⟩ := mem_of_routeAt hr
  exact h c hc r hcr

theorem SimplePaths.longer {n : Nat} {cycles : List (Cycle K)} (h : SimplePaths n cycles) :
    PathsLonger (n + 2) cycles := fun c hc r hr => (h c hc r hr).length

theorem SimplePaths.mono {m n : Nat} {cycles : List (Cycle K)} (h : SimplePaths n cycles)
    (hmn : m ≤ n) : SimplePaths m cycles := by
  intro c hc r hr
  obtain ⟨mid, hp, hnd, hn⟩ := h c hc r hr
  exact ⟨mid, hp, hnd, Nat.le_trans hmn hn⟩

/-- Between simple paths, the intermediate nodes decide. -/
theorem SimplePath.eq_iff {m n : Nat} {p q : List Int} (hp : SimplePath m p)
    (hq : SimplePath n q) : inner p = inner q ↔ p = q := by
  obtain ⟨mid, rfl, -, -⟩ := hp
  obtain ⟨mid', rfl, -, -⟩ := hq
  rw [inner_ends, inner_ends]
  constructor
  · rintro rfl
    rfl
  · intro h
    simpa using h

end LeoEM
