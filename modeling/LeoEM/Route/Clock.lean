/-
# `Route.Clock` — what the counters count

A counter is meant to be a clock: the cycles since its user's gateway was last sought
again, never more than 15.  One cycle keeps it right (`clock_step`), with one exception.
If a counter is at 15 in a cycle that moves only the other user, because the pair was
not connected any more, the counter goes to 0 at the end of the cycle like every counter
at 15, and its gateway has not been sought again.

`clock_iff`: the counters of a run are clocks exactly if that never happens.
-/
import LeoEM.Route.Writer

namespace LeoEM

variable {n : Nat} {K : Type} [Field K] [LinearOrder K]

/-- In cycle `k` of the run the gateway of user `u` is sought again. -/
def Resought (nx : NetworkX K) (vs : List (RouteVisit n K)) (u : User) (k : Nat) : Prop :=
  ∃ v, vs[k]? = some v ∧ (selectGateways nx v.input.1 v.before).resought u = true

/-- Behind cycle `k` each counter is the number of cycles since its user's gateway was last
sought again; so it is at most 15, and 0 only if that was in this cycle. -/
def ClocksRight (nx : NetworkX K) (vs : List (RouteVisit n K)) (k : Nat) : Prop :=
  ∀ v st, vs[k]? = some v → v.done.result = .ok st → ∀ u,
    SinceLast (Resought nx vs u) k (st.counter u) ∧ st.counter u ≤ 15 ∧
      (st.counter u = 0 → Resought nx vs u k)

section Cycle

variable {nx : NetworkX K} {delay : Scalar K} {inputs : List (CycleInput n K)} {k : Nat}
  {v : RouteVisit n K} {st : GatewayState n K} {u : User}

omit [Field K] [LinearOrder K] in
theorem next_counter (sel : Selection n K) (u : User) :
    sel.next.counter u = tick (sel.counter u) := by
  cases u <;> rfl

/-- A gateway that is sought again sets its counter to 0. -/
theorem counter_of_resought (h : (selectGateways nx v.input.1 v.before).resought u = true) :
    (selectGateways nx v.input.1 v.before).next.counter u = 0 := by
  rw [next_counter, ((selection_sound nx v.input.1 v.before u).resought h).1]
  rfl

/-- A gateway that is kept does with its counter what `tick` does. -/
theorem counter_of_kept (h : (selectGateways nx v.input.1 v.before).resought u = false) :
    (selectGateways nx v.input.1 v.before).next.counter u = tick (v.before.counter u) := by
  rw [next_counter, ((selection_sound nx v.input.1 v.before u).kept h).2]

/-- In the first cycle both gateways are sought again. -/
theorem resought_start (inp : CycleInput n K) (u : User) :
    (selectGateways nx inp GatewayState.start).resought u = true := by
  cases hr : (selectGateways nx inp GatewayState.start).resought u with
  | true => rfl
  | false =>
      have h : connects nx inp (none : Gateway n K) none = false := rfl
      have h₂ : connects nx inp (none : Gateway n K) inp.view2.nearest = false := rfl
      have h₁ : connects nx inp inp.view1.nearest (none : Gateway n K) = false := by
        cases hc : connects nx inp inp.view1.nearest none with
        | false => rfl
        | true =>
            obtain ⟨_, _, -, hn, -⟩ := (connects_iff nx).mp hc
            cases hn
      rw [choose_of_not_resought hr, choose_neither h h₁ h₂] at hr
      cases u <;> cases hr

/-- Before cycle `k` the counter of `u` is right about the cycles before. -/
def ClockBefore (nx : NetworkX K) (vs : List (RouteVisit n K)) (u : User) (k : Nat)
    (st : GatewayState n K) : Prop :=
  ∀ j, k = j + 1 → SinceLast (Resought nx vs u) j (st.counter u) ∧ st.counter u ≤ 15

/-- **One cycle keeps a clock right**, unless it moves the other user beside a counter at 15. -/
theorem clock_step (hv : (routeRun nx delay inputs)[k]? = some v)
    (hb : ¬ Beside nx v.input.1 v.before u)
    (hprev : ClockBefore nx (routeRun nx delay inputs) u k v.before) :
    SinceLast (Resought nx (routeRun nx delay inputs) u) k
        ((selectGateways nx v.input.1 v.before).next.counter u) ∧
      (selectGateways nx v.input.1 v.before).next.counter u ≤ 15 := by
  cases hr : (selectGateways nx v.input.1 v.before).resought u with
  | true =>
      rw [counter_of_resought hr]
      exact ⟨SinceLast.now ⟨v, hv, hr⟩, Nat.zero_le 15⟩
  | false =>
      have hne : v.before.counter u ≠ 15 := fun hc => hb ((beside_iff u).mp ⟨hr, hc⟩)
      have hno : ¬ Resought nx (routeRun nx delay inputs) u k := by
        rintro ⟨v', hv', hr'⟩
        obtain rfl : v' = v := Option.some.inj (hv'.symm.trans hv)
        rw [hr] at hr'
        cases hr'
      cases k with
      | zero =>
          have hstart : v.before = GatewayState.start := Logged.visits_zero hv
          rw [hstart, resought_start] at hr
          cases hr
      | succ j =>
          obtain ⟨hclock, hle⟩ := hprev j rfl
          rw [counter_of_kept hr, tick, if_neg hne]
          exact ⟨hclock.later hno, by omega⟩

/-- The clocks of a run, if no cycle of it moves the other user beside a counter at 15. -/
theorem clock_run (hb : ∀ (k : Nat) (v : RouteVisit n K), (routeRun nx delay inputs)[k]? = some v →
      ¬ Beside nx v.input.1 v.before u) (hv : (routeRun nx delay inputs)[k]? = some v) :
    ClockBefore nx (routeRun nx delay inputs) u k v.before := by
  refine Logged.visits_inv (ClockBefore nx (routeRun nx delay inputs) u) ?_ ?_ hv
  · intro j hj
    cases hj
  · intro k v st hv hclock hst j hj
    obtain rfl : k = j := Nat.succ.inj hj
    obtain rfl : (selectGateways nx v.input.1 v.before).next = st :=
      Except.ok.inj ((routeRun_done hv).symm.trans hst)
    exact clock_step hv (hb k v hv) hclock

end Cycle

/-- **The counters are clocks** in every cycle of a run, exactly if no cycle moves one user
alone while the other's counter is at 15. -/
theorem clock_iff (nx : NetworkX K) (delay : Scalar K) (inputs : List (CycleInput n K)) :
    (∀ k, ClocksRight nx (routeRun nx delay inputs) k) ↔
      ∀ (k : Nat) (v : RouteVisit n K), (routeRun nx delay inputs)[k]? = some v →
        ∀ u, ¬ Beside nx v.input.1 v.before u := by
  constructor
  · intro hall k v hv u hb
    obtain ⟨hr, hc⟩ := (beside_iff u).mpr hb
    have hzero : (selectGateways nx v.input.1 v.before).next.counter u = 0 := by
      rw [counter_of_kept hr, hc]
      rfl
    obtain ⟨v', hv', hr'⟩ := (hall k v _ hv (routeRun_done hv) u).2.2 hzero
    obtain rfl : v' = v := Option.some.inj (hv'.symm.trans hv)
    rw [hr] at hr'
    cases hr'
  · intro hb k v st hv hst u
    obtain rfl : (selectGateways nx v.input.1 v.before).next = st :=
      Except.ok.inj ((routeRun_done hv).symm.trans hst)
    obtain ⟨hclock, hle⟩ :=
      clock_step hv (hb k v hv u) (clock_run (fun k v hv => hb k v hv u) hv)
    exact ⟨hclock, hle, fun hz => (hz ▸ hclock).of_zero⟩

/-- User 1 sees satellite `i`, user 2 satellite 2, and the two are linked. -/
def linkedTo (i : Fin 3) : CycleInput 3 Rat where
  view1 := View.empty.see ⟨1, i⟩
  view2 := View.empty.see ⟨1, 2⟩
  graph := ⟨[0, 1, 2], [((i : Nat), 2, 1)]⟩
  nodes _ := by decide +revert

/-- Sixteen cycles with satellite 0 in view of user 1, and one with satellite 1. -/
def lateMove : List (CycleInput 3 Rat) := List.replicate 16 (linkedTo 0) ++ [linkedTo 1]

theorem lateMove_last :
    ((routeRun WGraph.searchFinder Scalar.rat lateMove)[16]?).map (fun v =>
      (v.done.result.toOption.map fun st => st.counter2,
        (selectGateways WGraph.searchFinder v.input.1 v.before).resought2)) =
    some (some 0, false) := by decide +kernel

/-- In the last cycle user 1 is moved alone, and user 2's counter goes to 0 beside it. -/
theorem lateMove_not_clock :
    ¬ ClocksRight WGraph.searchFinder (routeRun WGraph.searchFinder Scalar.rat lateMove) 16 := by
  intro h
  obtain ⟨v, hv, hlast⟩ := Option.map_eq_some_iff.mp lateMove_last
  obtain ⟨hcounter, hkept⟩ := Prod.mk.inj hlast
  obtain ⟨st, hst, hzero⟩ := Option.map_eq_some_iff.mp hcounter
  cases hr : v.done.result with
  | error e => rw [hr] at hst; cases hst
  | ok st' =>
      rw [hr] at hst
      obtain rfl : st' = st := Option.some.inj hst
      obtain ⟨v', hv', hr'⟩ := (h v st' hv hr .two).2.2 hzero
      obtain rfl : v' = v := Option.some.inj (hv'.symm.trans hv)
      exact Bool.false_ne_true (hkept.symm.trans hr')

end LeoEM
