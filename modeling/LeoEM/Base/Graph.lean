/-
# `Base.Graph` — undirected weighted graphs and what is asked of a path finder

A `WGraph` is a list of nodes and a list of weighted edges; an edge added later
between the same two nodes replaces the weight.  Its meaning as a graph is Mathlib's
`SimpleGraph`, so reachability is `SimpleGraph.Reachable` and a path is a
`SimpleGraph.Walk`.

A `PathFinder` is a pair of functions that answer for reachability and find a path,
with what is asked of them.  `searchFinder` is one: depth-first search over the nodes
not yet seen.
-/
import Mathlib.Combinatorics.SimpleGraph.Connectivity.Connected

/-- An undirected weighted graph, as its nodes and edges are added. -/
structure WGraph (V K : Type) where
  nodes : List V
  edges : List (V × V × K)

namespace WGraph

variable {V K : Type} [DecidableEq V]

/-- The edge joins the two nodes. -/
def Joins (e : V × V × K) (u v : V) : Prop := (e.1 = u ∧ e.2.1 = v) ∨ (e.1 = v ∧ e.2.1 = u)

instance (e : V × V × K) (u v : V) : Decidable (Joins e u v) :=
  inferInstanceAs (Decidable (_ ∨ _))

omit [DecidableEq V] in
theorem Joins.symm {e : V × V × K} {u v : V} (h : Joins e u v) : Joins e v u := Or.symm h

/-- The weight of the edge between two nodes: that of the last one added. -/
def weight? (G : WGraph V K) (u v : V) : Option K :=
  (G.edges.reverse.find? fun e => Joins e u v).map fun e => e.2.2

/-- The graph without its weights. -/
def toSimpleGraph (G : WGraph V K) : SimpleGraph V where
  Adj u v := u ≠ v ∧ ∃ e ∈ G.edges, Joins e u v
  symm := ⟨fun _ _ h => ⟨h.1.symm, h.2.elim fun e he => ⟨e, he.1, he.2.symm⟩⟩⟩
  loopless := ⟨fun _ h => h.1 rfl⟩

instance (G : WGraph V K) : DecidableRel G.toSimpleGraph.Adj := fun u v =>
  inferInstanceAs (Decidable (u ≠ v ∧ ∃ e ∈ G.edges, Joins e u v))

/-- Neighbours have a weight. -/
theorem exists_weight {G : WGraph V K} {u v : V} (h : G.toSimpleGraph.Adj u v) :
    ∃ w, G.weight? u v = some w := by
  obtain ⟨-, e, he, hj⟩ := h
  have hsome : (G.edges.reverse.find? fun e => Joins e u v).isSome :=
    List.find?_isSome.mpr ⟨e, List.mem_reverse.mpr he, decide_eq_true hj⟩
  obtain ⟨e', he'⟩ := Option.isSome_iff_exists.mp hsome
  exact ⟨e'.2.2, by rw [weight?, he']; rfl⟩

end WGraph

/-- Two functions on graphs: whether there is a path between two nodes of the graph, and
a simple path between them. -/
structure PathFinder (V K : Type) [DecidableEq V] where
  hasPath : WGraph V K → V → V → Bool
  dijkstraPath : WGraph V K → V → V → Option (List V)
  hasPath_iff : ∀ G a b, a ∈ G.nodes → b ∈ G.nodes →
    (hasPath G a b = true ↔ G.toSimpleGraph.Reachable a b)
  dijkstraPath_isSome : ∀ G a b, a ∈ G.nodes → b ∈ G.nodes →
    ((dijkstraPath G a b).isSome ↔ G.toSimpleGraph.Reachable a b)
  dijkstraPath_support : ∀ G a b p, a ∈ G.nodes → b ∈ G.nodes → dijkstraPath G a b = some p →
    ∃ w : G.toSimpleGraph.Walk a b, w.IsPath ∧ w.support = p

/-! ## Depth-first search -/

namespace WGraph

variable {V K : Type} [DecidableEq V] {G : WGraph V K}

/-- A simple path from `a` to `b` whose further nodes are `avail`. -/
def search (G : WGraph V K) : Nat → List V → V → V → Option (List V)
  | 0, _, a, b => if a = b then some [a] else none
  | fuel + 1, avail, a, b =>
      if a = b then some [a]
      else (avail.filter fun v => G.toSimpleGraph.Adj a v).findSome? fun v =>
        (search G fuel (avail.filter (· ≠ v)) v b).map (a :: ·)

/-- The nodes that have an edge. -/
def endpoints (G : WGraph V K) : List V := G.edges.flatMap fun e => [e.1, e.2.1]

/-- What the search finds is a simple path over the nodes it was given. -/
theorem search_sound : ∀ {fuel : Nat} {avail : List V} {a b : V} {p : List V},
    search G fuel avail a b = some p → a ∉ avail →
    ∃ w : G.toSimpleGraph.Walk a b, w.IsPath ∧ w.support = p ∧ ∀ x ∈ w.support.tail, x ∈ avail := by
  have hnil : ∀ (avail : List V) (a : V), ∃ w : G.toSimpleGraph.Walk a a,
      w.IsPath ∧ w.support = [a] ∧ ∀ x ∈ w.support.tail, x ∈ avail := by
    intro avail a
    exact ⟨.nil, .nil, rfl, fun x hx => absurd hx List.not_mem_nil⟩
  intro fuel
  induction fuel with
  | zero =>
      intro avail a b p h ha
      rw [search] at h
      split at h
      · rename_i hab
        obtain rfl := Option.some.inj h
        subst hab
        exact hnil avail a
      · cases h
  | succ fuel ih =>
      intro avail a b p h ha
      rw [search] at h
      split at h
      · rename_i hab
        obtain rfl := Option.some.inj h
        subst hab
        exact hnil avail a
      · obtain ⟨v, hv, hp⟩ := List.exists_of_findSome?_eq_some h
        obtain ⟨hav, hadj⟩ := List.mem_filter.mp hv
        obtain ⟨q, hq, rfl⟩ := Option.map_eq_some_iff.mp hp
        obtain ⟨w, hw, hsup, htail⟩ := ih hq fun hm => by simpa using (List.mem_filter.mp hm).2
        have hmem : ∀ x ∈ w.support, x ∈ avail := by
          intro x hx
          rw [← w.cons_tail_support] at hx
          rcases List.mem_cons.mp hx with rfl | hx
          · exact hav
          · exact (List.mem_filter.mp (htail x hx)).1
        refine ⟨.cons (of_decide_eq_true hadj) w, ?_, ?_, hmem⟩
        · exact hw.cons fun hm => ha (hmem a hm)
        · rw [SimpleGraph.Walk.support_cons, hsup]

/-- The search finds a path if there is a simple one over the nodes it is given. -/
theorem search_complete : ∀ {fuel : Nat} {avail : List V} {a b : V}
    (w : G.toSimpleGraph.Walk a b), w.IsPath → w.length ≤ fuel →
    (∀ x ∈ w.support.tail, x ∈ avail) → (search G fuel avail a b).isSome := by
  intro fuel
  induction fuel with
  | zero =>
      intro avail a b w hw hlen hmem
      cases w with
      | nil => simp [search]
      | cons h w => simp at hlen
  | succ fuel ih =>
      intro avail a b w hw hlen hmem
      cases w with
      | nil => simp [search]
      | @cons _ v _ hadj w =>
          obtain ⟨hw', ha⟩ := SimpleGraph.Walk.cons_isPath_iff hadj w |>.mp hw
          rw [search]
          split
          · rfl
          · rw [List.findSome?_isSome_iff]
            have hsup : ∀ x ∈ w.support, x ∈ avail := hmem
            refine ⟨v, List.mem_filter.mpr ⟨hsup v w.start_mem_support, decide_eq_true hadj⟩, ?_⟩
            rw [Option.isSome_map]
            refine ih w hw' (by simpa using hlen) fun x hx => ?_
            have hnd := hw'.support_nodup
            rw [← w.cons_tail_support] at hnd
            have hne : x ≠ v := fun h => (List.nodup_cons.mp hnd).1 (h ▸ hx)
            exact List.mem_filter.mpr ⟨hsup x (List.mem_of_mem_tail hx), decide_eq_true hne⟩

omit [DecidableEq V] in
/-- A walk goes over nodes that have an edge. -/
theorem mem_endpoints {a b : V} (w : G.toSimpleGraph.Walk a b) :
    ∀ x ∈ w.support.tail, x ∈ G.endpoints := by
  induction w with
  | nil => intro x hx; exact absurd hx List.not_mem_nil
  | cons hadj w ih =>
      intro x hx
      rw [SimpleGraph.Walk.support_cons, List.tail_cons, ← w.cons_tail_support] at hx
      rcases List.mem_cons.mp hx with rfl | hx
      · obtain ⟨-, e, he, hj | hj⟩ := hadj
        · exact List.mem_flatMap.mpr ⟨e, he, by simp [hj.2]⟩
        · exact List.mem_flatMap.mpr ⟨e, he, by simp [hj.1]⟩
      · exact ih x hx

/-- A simple path between two nodes, if there is one. -/
def findPath (G : WGraph V K) (a b : V) : Option (List V) :=
  let avail := G.endpoints.filter (· ≠ a)
  search G avail.length avail a b

theorem findPath_support {a b : V} {p : List V} (h : G.findPath a b = some p) :
    ∃ w : G.toSimpleGraph.Walk a b, w.IsPath ∧ w.support = p := by
  obtain ⟨w, hw, hsup, -⟩ := search_sound h fun hm => by simpa using (List.mem_filter.mp hm).2
  exact ⟨w, hw, hsup⟩

theorem findPath_isSome {a b : V} : (G.findPath a b).isSome ↔ G.toSimpleGraph.Reachable a b := by
  constructor
  · intro h
    obtain ⟨p, hp⟩ := Option.isSome_iff_exists.mp h
    obtain ⟨w, -⟩ := findPath_support hp
    exact ⟨w⟩
  · intro h
    obtain ⟨w, hw⟩ := h.exists_isPath
    have hnd := hw.support_nodup
    rw [← w.cons_tail_support] at hnd
    obtain ⟨ha, hnd⟩ := List.nodup_cons.mp hnd
    have hmem : ∀ x ∈ w.support.tail, x ∈ G.endpoints.filter (· ≠ a) := by
      intro x hx
      have hne : x ≠ a := fun h => ha (h ▸ hx)
      exact List.mem_filter.mpr ⟨mem_endpoints w x hx, decide_eq_true hne⟩
    refine search_complete w hw ?_ hmem
    have hlen : w.length = w.support.tail.length := by simp
    rw [hlen]
    exact (List.subperm_of_subset hnd hmem).length_le

/-- Depth-first search as a path finder. -/
def searchFinder : PathFinder V K where
  hasPath G a b := (G.findPath a b).isSome
  dijkstraPath G a b := G.findPath a b
  hasPath_iff _ _ _ _ _ := findPath_isSome
  dijkstraPath_isSome _ _ _ _ _ := findPath_isSome
  dijkstraPath_support _ _ _ _ _ _ h := findPath_support h

end WGraph
