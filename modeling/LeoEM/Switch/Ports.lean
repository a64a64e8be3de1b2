/-
# `Switch.Ports` — the ports of the chain

A switch numbers its ports in the order in which its links are added.  On `MyTopo` a switch
has two: to its neighbours on the chain, to a host at either end.  So the chain is a line
from `h1` to `h2` (`isLine_myTopo`).
-/
import LeoEM.Base.Line
import LeoEM.Emulator.Network
import Mathlib.Data.List.Range

namespace LeoEM

variable {K : Type}

/-- The node at the other end of a link of `a`. -/
def Link.otherEnd (l : Link K) (a : NodeName) : Option NodeName :=
  if l.node1 = a then some l.node2 else if l.node2 = a then some l.node1 else none

/-- The ports of a node, each with the node it leads to. -/
def Topo.ports (t : Topo K) (a : NodeName) : List NodeName :=
  t.links.filterMap (·.otherEnd a)

theorem Link.otherEnd_symm {l : Link K} {a b : NodeName} (h : l.otherEnd a = some b) :
    l.otherEnd b = some a := by
  unfold Link.otherEnd at h ⊢
  by_cases h₁ : l.node1 = a
  · rw [if_pos h₁, Option.some.injEq] at h
    by_cases h₂ : l.node1 = b
    · rw [if_pos h₂, h, ← h₂, h₁]
    · rw [if_neg h₂, if_pos h, h₁]
  · by_cases h₂ : l.node2 = a
    · rw [if_neg h₁, if_pos h₂, Option.some.injEq] at h
      rw [if_pos h, h₂]
    · rw [if_neg h₁, if_neg h₂] at h
      cases h

theorem Topo.ports_symm {t : Topo K} {a b : NodeName} (h : b ∈ t.ports a) : a ∈ t.ports b := by
  obtain ⟨l, hl, hb⟩ := List.mem_filterMap.mp h
  exact List.mem_filterMap.mpr ⟨l, hl, Link.otherEnd_symm hb⟩

/-! ## The ports of `MyTopo` -/

/-- The place of a node on the chain of `n` switches. -/
def NodeName.pos (n : Nat) : NodeName → Int
  | .h1 => -1
  | .s i => i
  | .h2 => n

/-- The ports of a switch along the first `m` links between switches. -/
theorem ports_satelliteLinks (m : Nat) (i : Int) :
    ((List.range m).map fun k : Nat => (addLink (.s k) (.s (k + 1)) : Link K)).filterMap
        (·.otherEnd (.s i)) =
      (if 0 < i ∧ i ≤ m then [.s (i - 1)] else []) ++
        (if 0 ≤ i ∧ i < m then [.s (i + 1)] else []) := by
  induction m with
  | zero =>
      rw [if_neg (by omega), if_neg (by omega)]
      rfl
  | succ m ih =>
      rw [List.range_succ, List.map_append, List.filterMap_append, ih]
      simp only [List.map_cons, List.map_nil, List.filterMap_cons, List.filterMap_nil,
        Link.otherEnd, addLink, NodeName.s.injEq]
      grind

theorem ports_switch (n : Nat) (i : Int) :
    (myTopo n : Topo K).ports (.s i) =
      ((if 0 < i ∧ i ≤ (n - 1 : Nat) then [.s (i - 1)] else []) ++
        (if 0 ≤ i ∧ i < (n - 1 : Nat) then [.s (i + 1)] else [])) ++
      ((if i = 0 then [.h1] else []) ++ (if i = (n : Int) - 1 then [.h2] else [])) := by
  rw [Topo.ports, myTopo, List.filterMap_append, ports_satelliteLinks]
  congr 1
  simp only [List.filterMap_cons, List.filterMap_nil, Link.otherEnd, addLink]
  grind

theorem ports_h1 (n : Nat) : (myTopo n : Topo K).ports .h1 = [.s 0] := by
  simp [Topo.ports, myTopo, Link.otherEnd, addLink]

theorem ports_h2 (n : Nat) : (myTopo n : Topo K).ports .h2 = [.s ((n : Int) - 1)] := by
  simp [Topo.ports, myTopo, Link.otherEnd, addLink]

theorem mem_ports_switch {n : Nat} {i : Int} {b : NodeName}
    (h : b ∈ (myTopo n : Topo K).ports (.s i)) :
    (b = .s (i - 1) ∧ 0 < i) ∨ (b = .s (i + 1) ∧ i < (n - 1 : Nat)) ∨ (b = .h1 ∧ i = 0) ∨
      (b = .h2 ∧ i = (n : Int) - 1) := by
  rw [ports_switch] at h
  simp only [List.mem_append, List.mem_ite_nil_right, List.mem_singleton] at h
  rcases h with (⟨⟨h, -⟩, rfl⟩ | ⟨⟨-, h⟩, rfl⟩) | ⟨h, rfl⟩ | ⟨h, rfl⟩
  · exact .inl ⟨rfl, h⟩
  · exact .inr (.inl ⟨rfl, h⟩)
  · exact .inr (.inr (.inl ⟨rfl, h⟩))
  · exact .inr (.inr (.inr ⟨rfl, h⟩))

/-- **`MyTopo` is a line** from `h1` over the switches to `h2`. -/
theorem isLine_myTopo {n : Nat} (hn : 1 ≤ n) :
    IsLine (myTopo n : Topo K).ports (NodeName.pos n) where
  next := by
    intro a b hb
    cases a with
    | h1 =>
        rw [ports_h1, List.mem_singleton] at hb
        subst hb
        exact .inl rfl
    | h2 =>
        rw [ports_h2, List.mem_singleton] at hb
        subst hb
        exact .inr rfl
    | s i =>
        rcases mem_ports_switch hb with ⟨rfl, -⟩ | ⟨rfl, -⟩ | ⟨rfl, rfl⟩ | ⟨rfl, rfl⟩
        · exact .inr rfl
        · exact .inl rfl
        · exact .inr rfl
        · exact .inl (Int.sub_add_cancel _ _).symm
  inj := by
    intro a b c hb hc hbc
    cases a with
    | h1 =>
        rw [ports_h1, List.mem_singleton] at hb hc
        rw [hb, hc]
    | h2 =>
        rw [ports_h2, List.mem_singleton] at hb hc
        rw [hb, hc]
    | s i =>
        rcases mem_ports_switch hb with ⟨rfl, h⟩ | ⟨rfl, h⟩ | ⟨rfl, h⟩ | ⟨rfl, h⟩ <;>
          rcases mem_ports_switch hc with ⟨rfl, h'⟩ | ⟨rfl, h'⟩ | ⟨rfl, h'⟩ | ⟨rfl, h'⟩ <;>
            first
            | rfl
            | (simp only [NodeName.pos] at hbc; omega)
  nodup := by
    intro a
    cases a with
    | h1 => rw [ports_h1]; exact List.nodup_singleton _
    | h2 => rw [ports_h2]; exact List.nodup_singleton _
    | s i =>
        have hne : i - 1 ≠ i + 1 := by omega
        rw [ports_switch]
        split <;> split <;> split <;> split <;> simp [hne]
  symm := Topo.ports_symm

/-! ## The two hosts -/

inductive Host where
  | h1
  | h2
  deriving DecidableEq, Repr

def Host.node : Host → NodeName
  | .h1 => .h1
  | .h2 => .h2

def Host.other : Host → Host
  | .h1 => .h2
  | .h2 => .h1

/-- How far a node is from a host, on the chain of `n` switches. -/
def hops (n : Nat) : Host → NodeName → Int
  | .h1, a => a.pos n - NodeName.h1.pos n
  | .h2, a => NodeName.h2.pos n - a.pos n

@[simp] theorem hops_node (n : Nat) (h : Host) : hops n h h.node = 0 := by
  cases h <;> simp [hops, Host.node]

/-- A host has one port, to the end of the chain next to it. -/
theorem ports_host (n : Nat) (h : Host) :
    ∃ b, (myTopo n : Topo K).ports h.node = [b] ∧ hops n h b = 1 := by
  cases h with
  | h1 => exact ⟨_, ports_h1 n, rfl⟩
  | h2 => exact ⟨_, ports_h2 n, Int.sub_sub_self _ _⟩

/-- What goes straight on through a switch goes away from the host it comes from. -/
theorem hops_onwards {n : Nat} {h : Host} {a b c : NodeName}
    (hline : c.pos n - a.pos n = a.pos n - b.pos n) (hb : hops n h a = hops n h b + 1) :
    hops n h c = hops n h a + 1 := by
  cases h <;> simp only [hops] at hb ⊢ <;> omega

end LeoEM
