/-
# `Base.Line` — networks that are a line

A node has a list of ports, each named after the node at the other end of its link.  The
network is a line when every node has a position, a port leads one position up or down, and
no node has two ports in one direction.  What comes in at a port and goes out at another
moves on in the direction it came (`IsLine.onwards`), and there is at most one other port
(`IsLine.length_eraseIdx_le`).
-/
import Mathlib.Data.List.Nodup

/-- `ports` connects the nodes to a line, in the order of their positions. -/
structure IsLine {V : Type} (ports : V → List V) (pos : V → Int) : Prop where
  next : ∀ {a b : V}, b ∈ ports a → pos b = pos a + 1 ∨ pos b = pos a - 1
  inj : ∀ {a b c : V}, b ∈ ports a → c ∈ ports a → pos b = pos c → b = c
  nodup : ∀ a : V, (ports a).Nodup
  symm : ∀ {a b : V}, b ∈ ports a → a ∈ ports b

namespace IsLine

variable {V : Type} {ports : V → List V} {pos : V → Int}

/-- **From one port to another the direction is kept.** -/
theorem onwards (line : IsLine ports pos) {a b c : V} {i j : Nat} (hb : (ports a)[i]? = some b)
    (hc : (ports a)[j]? = some c) (hij : j ≠ i) : pos c - pos a = pos a - pos b := by
  have hb' := List.mem_of_getElem? hb
  have hc' := List.mem_of_getElem? hc
  have hne : pos b ≠ pos c := by
    intro heq
    have hbc := line.inj hb' hc' heq
    obtain ⟨hi, hbi⟩ := List.getElem?_eq_some_iff.mp hb
    obtain ⟨hj, hcj⟩ := List.getElem?_eq_some_iff.mp hc
    exact hij ((line.nodup a).getElem_inj_iff.mp (by rw [hbi, hcj, hbc])).symm
  rcases line.next hb' with hb | hb <;> rcases line.next hc' with hc | hc <;> omega

/-- Next to a port there is at most one other. -/
theorem length_eraseIdx_le (line : IsLine ports pos) {a b : V} {i : Nat}
    (hb : (ports a)[i]? = some b) : ((ports a).eraseIdx i).length ≤ 1 := by
  have hnodup := (line.nodup a).eraseIdx i
  have hmem : ∀ c ∈ (ports a).eraseIdx i, c ∈ ports a ∧ pos c = 2 * pos a - pos b := by
    intro c hc
    obtain ⟨j, hji, hj⟩ := List.mem_eraseIdx_iff_getElem?.mp hc
    have := line.onwards hb hj hji
    exact ⟨List.mem_of_getElem? hj, by omega⟩
  match hports : (ports a).eraseIdx i with
  | [] => exact Nat.zero_le 1
  | [c] => exact Nat.le_refl 1
  | c :: d :: rest =>
      rw [hports] at hnodup hmem
      obtain ⟨hc, hcpos⟩ := hmem c List.mem_cons_self
      obtain ⟨hd, hdpos⟩ := hmem d (List.mem_cons_of_mem c List.mem_cons_self)
      have hcd : c = d := line.inj hc hd (hcpos.trans hdpos.symm)
      exact absurd (hcd ▸ List.mem_cons_self) (List.nodup_cons.mp hnodup).1

end IsLine
