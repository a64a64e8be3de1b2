/-
# `Switch.Emulated` — packets under the emulator

The switches forward while the emulator takes links down and up.  What happens on the network
is any sequence of events whose calls of `configLinkStatus` are those of an emulator run so
far, in an order that its worker pools may come to; hosts send, packets are lost and messages
are handled in between.

Behind a cycle that has come to its end the links are those of its route (`Emulator.Links`),
and a network at rest has delivered what it could (`Switch.Delivery`).  Together: behind a
cycle with a route every packet that was not lost has arrived once, whatever handovers it met
on its way; behind one without, what has not arrived waits for the service link, and for it
alone (`emulated_delivers`).
-/
import LeoEM.Emulator.Links
import LeoEM.Switch.Delivery

namespace LeoEM

variable {K Mac : Type}

/-- The call of `configLinkStatus` that an event is. -/
def NetEvent.linkCall : NetEvent Mac → Option LinkAction
  | .configLinkStatus a => some a
  | .send .. | .arrive _ | .lose _ | .packetIn _ | .message _ => none

theorem Net.arrive_down (net : Net Mac) (t : Topo K) (x : Transit Mac) :
    (net.arrive t x).down = net.down := by
  unfold Net.arrive
  split
  · rfl
  · rfl
  · simp only
    split <;> rfl

section Events

variable [DecidableEq Mac] {t : Topo K} {mac : Host → Mac} {net net' : Net Mac}

theorem Net.obey_down (net : Net Mac) (t : Topo K) (i : Int) (msg : ControlMsg Mac) :
    (net.obey t i msg).down = net.down := by
  cases msg <;> rfl

/-- Only the emulator takes links down and up. -/
theorem Net.step_down {e : NetEvent Mac} (h : Net.step t mac net e = some net') :
    net'.down = downAfter net.down e.linkCall.toList := by
  cases e with
  | send h' dst parsed =>
      obtain rfl := Option.some.inj h
      rfl
  | arrive k =>
      obtain ⟨x, -, -, rfl⟩ := Net.step_arrive h
      exact Net.arrive_down _ _ _
  | lose k =>
      obtain ⟨x, -, rfl⟩ := Net.step_lose h
      rfl
  | packetIn k =>
      obtain ⟨i, packetIn, -, rfl⟩ := Net.step_packetIn h
      rfl
  | message k =>
      obtain ⟨i, msg, -, rfl⟩ := Net.step_message h
      exact Net.obey_down _ _ _ _
  | configLinkStatus a =>
      obtain rfl := Option.some.inj h
      rfl

theorem Net.run_down : ∀ {events : List (NetEvent Mac)} {net net' : Net Mac},
    Net.run t mac net events = some net' →
      net'.down = downAfter net.down (events.filterMap NetEvent.linkCall) := by
  intro events
  induction events with
  | nil =>
      intro net net' h
      obtain rfl := Option.some.inj h
      rfl
  | cons e events ih =>
      intro net net' h
      obtain ⟨mid, hmid, hrest⟩ := Option.bind_eq_some_iff.mp h
      rw [ih hrest, Net.step_down hmid, ← downAfter_append]
      cases hcall : e.linkCall with
      | none => rw [List.filterMap_cons_none hcall]; rfl
      | some a => rw [List.filterMap_cons_some hcall]; rfl

end Events

/-- **Packets under the emulator.**  For every emulator run and every sequence of events on its
network whose calls are those of the run up to the end of cycle `k`: the links that are down are
those of the cycle's route; the network comes to rest; and at rest every packet that can be
delivered and was not lost has reached the other host exactly once, if the cycle has a route.
If it has none, such a packet has reached it once or is waiting once for the service link. -/
theorem emulated_delivers [Field K] [LinearOrder K] [DecidableEq Mac] {N : Nat} (hN : 1 ≤ N)
    {d : Nat → K} {cycles : List (Cycle K)} {us : List (CycleVisit K)}
    (hrun : updatePrecomputedLink N d cycles = .ok us) (mac : Host → Mac) (k : Nat)
    (u : CycleVisit K) (g : Globals K) (hu : us[k]? = some u) (hok : u.done.result = .ok g)
    (events : List (NetEvent Mac)) (net : Net Mac)
    (hcalls : LogCalls (Logged.logUpTo us (k + 1)) (events.filterMap NetEvent.linkCall))
    (hnet : Net.run (myTopo N : Topo K) mac .start events = some net) :
    net.down = downBehind (routeAt cycles k) ∧
    (∀ more net', (∀ e ∈ more, e.Handles) → Net.run (myTopo N : Topo K) mac net more = some net' →
      more.length ≤ net.work (myTopo N : Topo K) N) ∧
    ((∀ e, e.Handles → Net.step (myTopo N : Topo K) mac net e = none) →
      (∀ x ∈ net.onLinks, routeAt cycles k = none ∧ s(x.source, x.dest) = serviceLink) ∧
      ∀ h p, (h, p) ∈ net.sent → Deliverable mac h p →
        p.id ∉ Net.losses (myTopo N : Topo K) mac .start events →
        net.delivered.count (h.other, p) + net.waiting p.id = 1 ∧
        ∀ r, routeAt cycles k = some r → net.delivered.count (h.other, p) = 1) := by
  have hdown : net.down = downBehind (routeAt cycles k) := by
    obtain ⟨handovers, g₀, -, rfl⟩ := run_of_ok hrun
    rw [Net.run_down hnet]
    exact links_step hu hok (serviceOnly_run hu) hcalls
  refine ⟨hdown, fun more net' hall hmore =>
    length_le_work hN (directed_run hN hnet).1 hall hmore, fun hstuck => ?_⟩
  obtain ⟨hins, hmsgs, hlinks⟩ := rest_of_stuck hstuck
  have hservice : ∀ x ∈ net.onLinks,
      routeAt cycles k = none ∧ s(x.source, x.dest) = serviceLink := by
    intro x hx
    have hx' := hdown ▸ hlinks x hx
    cases hroute : routeAt cycles k with
    | none =>
        rw [hroute] at hx'
        exact ⟨rfl, Finset.mem_singleton.mp hx'⟩
    | some r =>
        rw [hroute] at hx'
        exact absurd hx' (Finset.notMem_empty _)
  refine ⟨hservice, fun h p hp hdel hlost => ?_⟩
  have hsum := delivered_or_waiting hN hnet hins hmsgs hp hdel hlost
  refine ⟨hsum, fun r hr => ?_⟩
  have hempty : net.onLinks = [] := List.eq_nil_iff_forall_not_mem.mpr fun x hx => by
    have hnone := (hservice x hx).1
    rw [hr] at hnone
    cases hnone
  rw [Net.waiting, hempty, List.countP_nil] at hsum
  exact hsum

/-- A cycle without a route, and a packet that comes as far as the service link. -/
def duringOutage : List (NetEvent Nat) :=
  [.configLinkStatus ⟨serviceLink, false⟩, .send .h1 2 true, .arrive 0, .packetIn 0, .message 0]

theorem emulated_delivers_duringOutage : ∃ net : Net Nat,
    Net.run (myTopo 2 : Topo Rat) (if · = .h1 then 1 else 2) .start duringOutage = some net ∧
      net.down = {serviceLink} ∧
      net.delivered.count (.h2, ⟨0, 1, 2, true⟩) + net.waiting 0 = 1 := by
  have hrun : ∃ (us : List (CycleVisit Rat)) (u : CycleVisit Rat) (g : Globals Rat),
      updatePrecomputedLink 2 (fun _ => (0 : Rat)) [⟨1, none⟩] = .ok us ∧ us[0]? = some u ∧
        u.done.result = .ok g ∧
        Logged.logUpTo us 1 = [.configLinkStatus (.s 0) (.s 1) false] :=
    ⟨_, _, _, rfl, rfl, rfl, rfl⟩
  obtain ⟨us, u, g, hrun, hu, hok, hlog⟩ := hrun
  have hnet : ∃ net : Net Nat,
      Net.run (myTopo 2 : Topo Rat) (if · = .h1 then 1 else 2) .start duringOutage = some net ∧
        net.onLinks = [⟨.s 0, .s 1, ⟨0, 1, 2, true⟩⟩] ∧ net.packetIns = [] ∧ net.messages = [] ∧
        net.sent = [(.h1, ⟨0, 1, 2, true⟩)] := ⟨_, rfl, rfl, rfl, rfl, rfl⟩
  obtain ⟨net, hnet, hlinks, hins, hmsgs, hsent⟩ := hnet
  have hcalls : LogCalls (Logged.logUpTo us 1) (duringOutage.filterMap NetEvent.linkCall) := by
    have hcall : Cmd.Calls (.configLinkStatus (.s 0) (.s 1) false : Cmd Rat)
        [⟨serviceLink, false⟩] := rfl
    rw [hlog]
    exact .cons hcall .nil
  obtain ⟨hdown, -, hrest⟩ := emulated_delivers (by decide) hrun (if · = .h1 then 1 else 2) 0 u g
    hu hok duringOutage net hcalls hnet
  have hstuck : ∀ e, e.Handles →
      Net.step (myTopo 2 : Topo Rat) (if · = .h1 then 1 else 2) net e = none := by
    intro e he
    cases e with
    | send h dst parsed => exact absurd he id
    | lose k => exact absurd he id
    | configLinkStatus a => exact absurd he id
    | arrive k =>
        cases k with
        | zero =>
            simp only [Net.step, hlinks, List.getElem?_cons_zero]
            exact if_pos (hdown ▸ Finset.mem_singleton_self serviceLink)
        | succ k => simp only [Net.step, hlinks, List.getElem?_cons_succ, List.getElem?_nil]
    | packetIn k => simp only [Net.step, hins, List.getElem?_nil]
    | message k => simp only [Net.step, hmsgs, List.getElem?_nil]
  refine ⟨net, hnet, hdown, ((hrest hstuck).2 .h1 _ (hsent ▸ List.mem_singleton_self _)
    ⟨rfl, by decide⟩ (by decide)).1⟩

end LeoEM
