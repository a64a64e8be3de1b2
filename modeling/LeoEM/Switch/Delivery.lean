/-
# `Switch.Delivery` — every packet arrives

The other half of `Switch.Forwarding`: there a packet is nowhere it should not be, here it is
not dropped on the way.  A controller sends a packet back to the port it came from only if it
is addressed to its own sender, and the controller ignores one that is not parsed; every other
packet is in the network, delivered, or lost on a link (`Conserved`).

A switch or a controller that handles something moves a packet on, or has one message less
to obey, so the work that is left shrinks (`work_step`).  However the network goes about
it, it comes to rest, and then every packet that was not lost is delivered (`chain_delivers`).
-/
import LeoEM.Switch.Forwarding
import Mathlib.Algebra.BigOperators.Group.List.Basic

namespace LeoEM

variable {K Mac : Type}

/-! ## What is lost, and what is at rest -/

/-- The packets an event loses. -/
def NetEvent.lost (net : Net Mac) : NetEvent Mac → List Nat
  | .lose k => net.onLinks[k]?.toList.map (·.packet.id)
  | .send .. | .arrive _ | .packetIn _ | .message _ | .configLinkStatus _ => []

/-- The packets a run loses. -/
def Net.losses [DecidableEq Mac] (t : Topo K) (mac : Host → Mac) (net : Net Mac) :
    List (NetEvent Mac) → List Nat
  | [] => []
  | e :: events => e.lost net ++
      (Net.step t mac net e).elim [] (Net.losses t mac · events)

/-- The network does what is left to do. -/
def NetEvent.Handles : NetEvent Mac → Prop
  | .arrive _ | .packetIn _ | .message _ => True
  | .send .. | .lose _ | .configLinkStatus _ => False

/-- Nothing is left to do. -/
def Net.Idle (net : Net Mac) : Prop :=
  net.onLinks = [] ∧ net.packetIns = [] ∧ net.messages = []

/-- The packet can be delivered: the controllers understand it, and it is not addressed to
its own sender. -/
def Deliverable (mac : Host → Mac) (h : Host) (p : Packet Mac) : Prop :=
  p.parsed = true ∧ p.dst ≠ mac h

/-- The copies of a packet that are on links. -/
def Net.waiting (net : Net Mac) (id : Nat) : Nat := net.onLinks.countP (·.packet.id = id)

/-! ## The way that is left -/

/-- How far it is to the end of the chain of `n` switches, for what goes from `a` to `b`. -/
def remaining (n : Nat) (a b : NodeName) : Nat :=
  if a.pos n < b.pos n then (n - b.pos n).toNat else (b.pos n + 1).toNat

/-- The work for a packet that is at a switch, by the port it came in at. -/
def switchWork (t : Topo K) (n : Nat) (i : Int) (inPort : Nat) : Nat :=
  ((t.ports (.s i))[inPort]?).elim 0 fun b => 4 * remaining n b (.s i)

def Transit.work (n : Nat) (x : Transit Mac) : Nat := 4 * remaining n x.source x.dest + 1

def ControlMsg.work (t : Topo K) (n : Nat) (i : Int) : ControlMsg Mac → Nat
  | .packetOut packetIn _ => switchWork t n i packetIn.inPort - 2
  | .flowMod .. => 1

/-- The work that is left to do. -/
def Net.work (t : Topo K) (n : Nat) (net : Net Mac) : Nat :=
  (net.onLinks.map (·.work n)).sum + (net.packetIns.map fun m => switchWork t n m.1 m.2.inPort).sum +
    (net.messages.map fun m => m.2.work t n m.1).sum

theorem sum_eraseIdx {α : Type} {xs : List α} {k : Nat} {x : α} (f : α → Nat)
    (h : xs[k]? = some x) : (xs.map f).sum = ((xs.eraseIdx k).map f).sum + f x := by
  obtain ⟨hk, rfl⟩ := List.getElem?_eq_some_iff.mp h
  rw [← ((List.getElem_cons_eraseIdx_perm hk).map f).sum_eq, List.map_cons, List.sum_cons,
    Nat.add_comm]

/-- A switch with a port is one of the chain. -/
theorem range_of_port {n : Nat} {i : Int} {b : NodeName} (hn : 1 ≤ n)
    (h : b ∈ (myTopo n : Topo K).ports (.s i)) : 0 ≤ i ∧ i < n := by
  rw [ports_switch] at h
  simp only [List.mem_append, List.mem_ite_nil_right, List.mem_singleton] at h
  rcases h with (⟨h, -⟩ | ⟨h, -⟩) | ⟨h, -⟩ | ⟨h, -⟩ <;> omega

/-- A switch of the chain has two ports. -/
theorem length_ports {n : Nat} {i : Int} (h₀ : 0 ≤ i) (h₁ : i < n) :
    ((myTopo n : Topo K).ports (.s i)).length = 2 := by
  rw [ports_switch]
  by_cases hfirst : i = 0
  · by_cases hlast : i = (n : Int) - 1
    · rw [if_neg (by omega), if_neg (by omega), if_pos hfirst, if_pos hlast]
      rfl
    · rw [if_neg (by omega), if_pos (by omega), if_pos hfirst, if_neg hlast]
      rfl
  · by_cases hlast : i = (n : Int) - 1
    · rw [if_pos (by omega), if_neg (by omega), if_neg hfirst, if_pos hlast]
      rfl
    · rw [if_pos (by omega), if_pos (by omega), if_neg hfirst, if_neg hlast]
      rfl

/-- At a switch there is still a hop to go. -/
theorem remaining_pos {n : Nat} {i : Int} {b : NodeName} (hn : 1 ≤ n)
    (h : b ∈ (myTopo n : Topo K).ports (.s i)) : 1 ≤ remaining n b (.s i) := by
  obtain ⟨h₀, h₁⟩ := range_of_port hn h
  have hi : (NodeName.s i).pos n = i := rfl
  rw [remaining, hi]
  split <;> omega

/-- A hop further along the chain the way is shorter. -/
theorem remaining_onwards {n : Nat} {i : Int} {b c : NodeName} {j k : Nat} (hn : 1 ≤ n)
    (hb : ((myTopo n : Topo K).ports (.s i))[j]? = some b)
    (hc : ((myTopo n : Topo K).ports (.s i))[k]? = some c) (hkj : k ≠ j) :
    remaining n (.s i) c + 1 = remaining n b (.s i) := by
  obtain ⟨h₀, h₁⟩ := range_of_port hn (List.mem_of_getElem? hb)
  have line := isLine_myTopo (K := K) hn
  have hon := line.onwards hb hc hkj
  have hnext := line.next (List.mem_of_getElem? hb)
  have hi : (NodeName.s i).pos n = i := rfl
  rw [hi] at hon hnext
  rw [remaining, remaining, hi]
  split <;> split <;> omega

section Work

variable {n : Nat} {i : Int} {inPort : Nat} {packet : Packet Mac} {sent : List (Host × Packet Mac)}
  {packetIn : PacketIn Mac}

theorem FromSender.exists_port {t : Topo K} (h : FromSender t n sent i packetIn) :
    ∃ b, (t.ports (.s i))[packetIn.inPort]? = some b := by
  obtain ⟨_, _, ⟨b, hb, _⟩, _⟩ := h
  exact ⟨b, hb⟩

variable (packet) in
/-- What a switch sends on is less work than what it has got. -/
theorem sum_output (hn : 1 ≤ n) {b : NodeName}
    (hb : ((myTopo n : Topo K).ports (.s i))[inPort]? = some b) (action : OutPort) :
    ((outputAction (myTopo n : Topo K) i inPort action packet).map (·.work n)).sum + 3 ≤
      switchWork (myTopo n : Topo K) n i inPort := by
  have hpos := remaining_pos (K := K) hn (List.mem_of_getElem? hb)
  have hlen : (outputAction (myTopo n : Topo K) i inPort action packet).length ≤ 1 :=
    length_outputAction (isLine_myTopo hn) hb
  rw [switchWork, hb, Option.elim_some]
  match hout : outputAction (myTopo n : Topo K) i inPort action packet with
  | [] =>
      rw [List.map_nil, List.sum_nil]
      omega
  | [x] =>
      obtain ⟨-, hsource, port, hne, hport⟩ :=
        mem_outputAction (hout ▸ List.mem_singleton_self x)
      have hon := remaining_onwards hn hb hport hne
      rw [List.map_singleton, List.sum_singleton, Transit.work, hsource]
      omega
  | x :: y :: rest =>
      rw [hout] at hlen
      simp at hlen

/-- What a controller says is less work than what it was asked. -/
theorem sum_handlePacketIn [DecidableEq Mac] (hn : 1 ≤ n) (self : Tutorial Mac) {b : NodeName}
    (hb : ((myTopo n : Topo K).ports (.s i))[packetIn.inPort]? = some b) :
    ((handlePacketIn self packetIn).2.map fun msg => msg.work (myTopo n : Topo K) n i).sum + 1 ≤
      switchWork (myTopo n : Topo K) n i packetIn.inPort := by
  have hpos := remaining_pos (K := K) hn (List.mem_of_getElem? hb)
  have hwork : switchWork (myTopo n : Topo K) n i packetIn.inPort =
      4 * remaining n b (.s i) := by
    rw [switchWork, hb]
    rfl
  unfold handlePacketIn
  split
  · rw [actLikeSwitch_msgs]
    split <;> simp only [resendPacket, List.map_cons, List.map_nil, List.sum_cons, List.sum_nil,
      ControlMsg.work] <;> omega
  · rw [List.map_nil, List.sum_nil]
    omega

end Work

/-! ## Coming to rest -/

section Rest

variable {n : Nat} {mac : Host → Mac} {net net' : Net Mac} {sent : List (Host × Packet Mac)}

theorem work_arrive (hn : 1 ≤ n) (net : Net Mac) {x : Transit Mac}
    (hx : Away (myTopo n : Topo K) n sent x) :
    (net.arrive (myTopo n : Topo K) x).work (myTopo n : Topo K) n + 1 ≤
      net.work (myTopo n : Topo K) n + x.work n := by
  have hpos : 1 ≤ x.work n := Nat.le_add_left 1 _
  unfold Net.arrive
  split
  · simp only [Net.work]
    omega
  · simp only [Net.work]
    omega
  · next i hdest =>
      obtain ⟨_, -, hlink, -⟩ := hx
      rw [hdest] at hlink
      have hport := List.getElem?_idxOf ((isLine_myTopo hn).symm hlink)
      have hswitch : switchWork (myTopo n : Topo K) n i
          (((myTopo n : Topo K).ports (.s i)).idxOf x.source) + 1 = x.work n := by
        rw [switchWork, hport, Transit.work, hdest]
        rfl
      simp only
      split
      · next port _ =>
          have hout := sum_output x.packet hn hport (.port port)
          simp only [Net.work, List.map_append, List.sum_append]
          omega
      · simp only [Net.work, List.map_append, List.sum_append, List.map_singleton,
          List.sum_singleton]
        omega

variable [DecidableEq Mac]

theorem work_obey (hn : 1 ≤ n) (net : Net Mac) {i : Int} {msg : ControlMsg Mac}
    (hmsg : msg.Sound (myTopo n : Topo K) n mac sent i) :
    (net.obey (myTopo n : Topo K) i msg).work (myTopo n : Topo K) n + 1 ≤
      net.work (myTopo n : Topo K) n + msg.work (myTopo n : Topo K) n i := by
  cases msg with
  | packetOut packetIn action =>
      obtain ⟨b, hb⟩ := FromSender.exists_port hmsg
      have hout := sum_output packetIn.data hn hb action
      simp only [Net.obey, Net.work, ControlMsg.work, List.map_append, List.sum_append]
      omega
  | flowMod dlSrc dlDst action =>
      simp only [Net.obey, Net.work, ControlMsg.work]
      omega

/-- **Whatever is done next, less work is left.** -/
theorem work_step (hn : 1 ≤ n) {e : NetEvent Mac} (he : e.Handles)
    (hnet : Directed (myTopo n : Topo K) n mac net)
    (hstep : Net.step (myTopo n : Topo K) mac net e = some net') :
    net'.work (myTopo n : Topo K) n + 1 ≤ net.work (myTopo n : Topo K) n := by
  cases e with
  | send h dst parsed => exact absurd he id
  | lose k => exact absurd he id
  | configLinkStatus a => exact absurd he id
  | arrive k =>
      obtain ⟨x, hx, -, rfl⟩ := Net.step_arrive hstep
      have hle := work_arrive hn { net with onLinks := net.onLinks.eraseIdx k }
        (hnet.onLink x (List.mem_of_getElem? hx))
      have hsum := sum_eraseIdx (·.work n) hx
      simp only [Net.work] at hle hsum ⊢
      omega
  | packetIn k =>
      obtain ⟨i, packetIn, hm, rfl⟩ := Net.step_packetIn hstep
      obtain ⟨b, hb⟩ := (hnet.packetIn _ (List.mem_of_getElem? hm)).exists_port
      have hle := sum_handlePacketIn hn (net.tutorial i) hb
      have hsum := sum_eraseIdx
        (fun m : Int × PacketIn Mac => switchWork (myTopo n : Topo K) n m.1 m.2.inPort) hm
      simp only [Net.work, List.map_append, List.sum_append, List.map_map,
        Function.comp_def] at hle hsum ⊢
      omega
  | message k =>
      obtain ⟨i, msg, hm, rfl⟩ := Net.step_message hstep
      have hle := work_obey hn { net with messages := net.messages.eraseIdx k }
        (hnet.message _ (List.mem_of_getElem? hm))
      have hsum := sum_eraseIdx
        (fun m : Int × ControlMsg Mac => m.2.work (myTopo n : Topo K) n m.1) hm
      simp only [Net.work] at hle hsum ⊢
      omega

/-- At rest only packets on links that are down are left. -/
theorem rest_of_stuck {t : Topo K}
    (h : ∀ e : NetEvent Mac, e.Handles → Net.step t mac net e = none) :
    net.packetIns = [] ∧ net.messages = [] ∧
      ∀ x ∈ net.onLinks, s(x.source, x.dest) ∈ net.down := by
  refine ⟨List.eq_nil_iff_forall_not_mem.mpr fun m hm => ?_,
    List.eq_nil_iff_forall_not_mem.mpr fun m hm => ?_, fun x hx => ?_⟩
  · obtain ⟨k, hk⟩ := List.mem_iff_getElem?.mp hm
    have hnone := h (.packetIn k) trivial
    simp only [Net.step, hk] at hnone
    cases hnone
  · obtain ⟨k, hk⟩ := List.mem_iff_getElem?.mp hm
    have hnone := h (.message k) trivial
    simp only [Net.step, hk] at hnone
    cases hnone
  · obtain ⟨k, hk⟩ := List.mem_iff_getElem?.mp hx
    have hnone := h (.arrive k) trivial
    simp only [Net.step, hk] at hnone
    split at hnone
    · assumption
    · cases hnone

end Rest

/-! ## What is kept -/

/-- A packet goes back to the switch for a port on the side of its destination's owner. -/
def ControlMsg.Routed (t : Topo K) (n : Nat) (mac : Host → Mac) (i : Int) : ControlMsg Mac → Prop
  | .packetOut packetIn (.port port) => OwnerSide t n mac i packetIn.data.dst port
  | .packetOut _ .all => True
  | .flowMod .. => True

/-- Every packet that can be delivered is there, or was lost. -/
structure Conserved (t : Topo K) (n : Nat) (mac : Host → Mac) (net : Net Mac)
    (lost : List Nat) : Prop where
  ids : net.sent.map (·.2.id) = List.range net.sent.length
  routed : ∀ m ∈ net.messages, m.2.Routed t n mac m.1
  kept : ∀ h p, (h, p) ∈ net.sent → Deliverable mac h p →
    1 ≤ net.copies p.id + lost.count p.id

theorem Net.arrive_messages (net : Net Mac) (t : Topo K) (x : Transit Mac) :
    (net.arrive t x).messages = net.messages := by
  unfold Net.arrive
  split
  · rfl
  · rfl
  · simp only
    split <;> rfl

theorem Net.obey_messages [DecidableEq Mac] (net : Net Mac) (t : Topo K) (i : Int)
    (msg : ControlMsg Mac) : (net.obey t i msg).messages = net.messages := by
  cases msg <;> rfl

section Kept

variable {n : Nat} {mac : Host → Mac} {net net' : Net Mac} {lost : List Nat} {i : Int}
  {h h' : Host} {p p' : Packet Mac} {packetIn : PacketIn Mac}

/-- A packet is known by its number. -/
theorem Conserved.sent_inj {t : Topo K} (hcons : Conserved t n mac net lost)
    (hp : (h, p) ∈ net.sent) (hp' : (h', p') ∈ net.sent) (hid : p.id = p'.id) :
    h = h' ∧ p = p' := by
  have hnodup : (net.sent.map (·.2.id)).Nodup := hcons.ids ▸ List.nodup_range
  exact Prod.mk.inj (List.inj_on_of_nodup_map hnodup hp hp' hid)

/-- A port does not lead to both hosts. -/
theorem Toward.ne {t : Topo K} {port port' : Nat} (hport : Toward t n h i port)
    (hport' : Toward t n h' i port') (hne : h' ≠ h) : port' ≠ port := by
  rintro rfl
  obtain ⟨b, hb, hnear⟩ := hport
  obtain ⟨b', hb', hnear'⟩ := hport'
  obtain rfl := Option.some.inj (hb.symm.trans hb')
  cases h <;> cases h' <;> first | exact hne rfl | (simp only [hops] at hnear hnear'; omega)

/-- **A switch sends on what can be delivered**, and does not drop it. -/
theorem output_kept (hn : 1 ≤ n) (hfrom : Toward (myTopo n : Topo K) n h i packetIn.inPort)
    (hp : Deliverable mac h packetIn.data) {action : OutPort}
    (hroute : (ControlMsg.packetOut packetIn action).Routed (myTopo n : Topo K) n mac i) :
    (outputAction (myTopo n : Topo K) i packetIn.inPort action packetIn.data).countP
      (·.packet.id = packetIn.data.id) = 1 := by
  obtain ⟨b, hb, hnear⟩ := hfrom
  obtain ⟨h₀, h₁⟩ := range_of_port hn (List.mem_of_getElem? hb)
  have hall : ∀ x ∈ outputAction (myTopo n : Topo K) i packetIn.inPort action packetIn.data,
      decide (x.packet.id = packetIn.data.id) = true :=
    fun x hx => decide_eq_true (by rw [(mem_outputAction hx).1])
  rw [List.countP_eq_length.mpr hall]
  cases action with
  | all =>
      have hlt : packetIn.inPort < ((myTopo n : Topo K).ports (.s i)).length :=
        (List.getElem?_eq_some_iff.mp hb).1
      rw [outputAction, List.length_map, List.length_eraseIdx_of_lt hlt, length_ports h₀ h₁]
  | port port =>
      obtain ⟨h', hdst, hport⟩ := hroute
      have hne : port ≠ packetIn.inPort := Toward.ne ⟨b, hb, hnear⟩ hport
        fun heq => hp.2 (hdst.trans (heq ▸ rfl))
      obtain ⟨c, hc, -⟩ := hport
      simp only [outputAction]
      rw [if_neg hne, hc]
      rfl

/-- What arrives is delivered, taken to the controller or sent on. -/
theorem copies_arrive_kept (hn : 1 ≤ n) (hnet : Directed (myTopo n : Topo K) n mac net)
    {x : Transit Mac} (hx : Away (myTopo n : Topo K) n net.sent x) (net₀ : Net Mac)
    (hflows : net₀.flows = net.flows) {id : Nat}
    (hdeliverable : ∀ h, (h, x.packet) ∈ net.sent → x.packet.id = id →
      Deliverable mac h x.packet) :
    net₀.copies id + (if x.packet.id = id then 1 else 0) ≤
      (net₀.arrive (myTopo n : Topo K) x).copies id := by
  unfold Net.arrive
  cases hdest : x.dest with
  | h1 => simp [Net.copies, Nat.add_assoc]
  | h2 => simp [Net.copies, Nat.add_assoc]
  | s i =>
      cases hflow : net₀.flows i (x.packet.src, x.packet.dst) with
      | some port =>
          simp only [hflow, Net.copies, List.countP_append]
          rw [hflows] at hflow
          split
          · next hid =>
              obtain ⟨h, hsent, htoward, -⟩ := hx.fromSender (isLine_myTopo hn) hdest
              have hout := output_kept hn htoward (hdeliverable h hsent hid)
                (show (ControlMsg.packetOut _ (.port port)).Routed _ n mac i from
                  hnet.flow i _ _ _ hflow)
              simp only [hid] at hout
              omega
          · omega
      | none =>
          simp only [hflow, Net.copies, List.countP_append, List.countP_singleton,
            decide_eq_true_eq]
          omega

/-- A controller gives back what it understands. -/
theorem handle_kept [DecidableEq Mac] (self : Tutorial Mac) (h : packetIn.data.parsed = true) :
    (handlePacketIn self packetIn).2.countP (·.carries packetIn.data.id) = 1 := by
  rw [handlePacketIn, if_pos h, actLikeSwitch_msgs]
  split <;> simp [resendPacket, ControlMsg.carries]

/-- What it gives back goes where its table says. -/
theorem routed_handle [DecidableEq Mac] {t : Topo K} (hnet : Directed t n mac net)
    (hin : FromSender t n net.sent i packetIn) :
    ∀ msg ∈ (handlePacketIn (net.tutorial i) packetIn).2, msg.Routed t n mac i := by
  have htable := (hnet.learn hin).1
  unfold handlePacketIn at htable ⊢
  split
  · next hparsed =>
      rw [if_pos hparsed] at htable
      rw [actLikeSwitch_msgs]
      split
      · next port hport =>
          simp only [resendPacket, List.forall_mem_cons]
          exact ⟨htable _ _ hport, trivial, fun _ hm => absurd hm List.not_mem_nil⟩
      · exact List.forall_mem_singleton.mpr trivial
  · exact fun _ hm => absurd hm List.not_mem_nil

variable [DecidableEq Mac]

theorem copies_obey_kept (hn : 1 ≤ n) {msg : ControlMsg Mac}
    (hmsg : msg.Sound (myTopo n : Topo K) n mac net.sent i)
    (hroute : msg.Routed (myTopo n : Topo K) n mac i) (net₀ : Net Mac) {id : Nat}
    (hdeliverable : ∀ h p, (h, p) ∈ net.sent → p.id = id → Deliverable mac h p) :
    net₀.copies id + (if msg.carries id then 1 else 0) ≤
      (net₀.obey (myTopo n : Topo K) i msg).copies id := by
  cases msg with
  | packetOut packetIn action =>
      simp only [Net.obey, Net.copies, ControlMsg.carries, List.countP_append, decide_eq_true_eq]
      split
      · next hid =>
          obtain ⟨h, hsent, htoward, -⟩ := hmsg
          have hout := output_kept hn htoward (hdeliverable h _ hsent hid) hroute
          simp only [hid] at hout
          omega
      · omega
  | flowMod dlSrc dlDst action => exact Nat.le_refl _

/-- A host that sends has a packet more, and it is on its link. -/
theorem Conserved.send (hcons : Conserved (myTopo n : Topo K) n mac net lost) {dst : Mac}
    {parsed : Bool} (hstep : Net.step (myTopo n : Topo K) mac net (.send h dst parsed) = some net') :
    Conserved (myTopo n : Topo K) n mac net' lost := by
  obtain rfl := Option.some.inj hstep
  refine ⟨?_, hcons.routed, fun h' p hp hdel => ?_⟩
  · rw [List.map_append, hcons.ids, List.length_append, List.length_singleton, List.range_succ]
    rfl
  · simp only [Net.copies, List.countP_append]
    rcases List.mem_append.mp hp with hp | hp
    · have hkept := hcons.kept h' p hp hdel
      simp only [Net.copies] at hkept
      omega
    · obtain ⟨-, rfl⟩ := Prod.mk.inj (List.mem_singleton.mp hp)
      obtain ⟨b, hports, -⟩ := ports_host (K := K) n h
      simp only [hports, List.map_singleton, List.countP_singleton, decide_true, if_true]
      omega

/-- **One event keeps every packet** that it does not lose. -/
theorem Conserved.step (hn : 1 ≤ n) {e : NetEvent Mac}
    (hcons : Conserved (myTopo n : Topo K) n mac net lost)
    (hnet : Directed (myTopo n : Topo K) n mac net)
    (hstep : Net.step (myTopo n : Topo K) mac net e = some net') :
    Conserved (myTopo n : Topo K) n mac net' (lost ++ e.lost net) := by
  -- the packet with the number of one that can be delivered is that one
  have hsame : ∀ {h : Host} {p : Packet Mac}, (h, p) ∈ net.sent → Deliverable mac h p →
      ∀ h' p', (h', p') ∈ net.sent → p'.id = p.id → Deliverable mac h' p' := by
    intro h p hp hdel h' p' hp' hid
    obtain ⟨rfl, rfl⟩ := hcons.sent_inj hp' hp hid
    exact hdel
  cases e with
  | send h dst parsed =>
      rw [NetEvent.lost, List.append_nil]
      exact hcons.send hstep
  | arrive k =>
      obtain ⟨x, hx, -, rfl⟩ := Net.step_arrive hstep
      rw [NetEvent.lost, List.append_nil]
      have haway := hnet.onLink x (List.mem_of_getElem? hx)
      refine ⟨?_, ?_, fun h p hp hdel => ?_⟩
      · rw [Net.arrive_sent]
        exact hcons.ids
      · rw [Net.arrive_messages]
        exact hcons.routed
      · rw [Net.arrive_sent] at hp
        have hkept := hcons.kept h p hp hdel
        have hle := copies_arrive_kept hn hnet haway
          { net with onLinks := net.onLinks.eraseIdx k } rfl
          fun h' hp' hid => hsame hp hdel h' x.packet hp' hid
        have hx' := countP_eraseIdx (fun x : Transit Mac => x.packet.id = p.id) hx
        simp only [Net.copies, decide_eq_true_eq] at hkept hle hx' ⊢
        omega
  | lose k =>
      obtain ⟨x, hx, rfl⟩ := Net.step_lose hstep
      refine ⟨hcons.ids, hcons.routed, fun h p hp hdel => ?_⟩
      have hkept := hcons.kept h p hp hdel
      have hx' := countP_eraseIdx (fun x : Transit Mac => x.packet.id = p.id) hx
      rw [NetEvent.lost, hx, List.count_append]
      simp only [Net.copies, decide_eq_true_eq, Option.toList_some, List.map_singleton,
        List.count_singleton, beq_iff_eq] at hkept hx' ⊢
      omega
  | packetIn k =>
      obtain ⟨i, packetIn, hm, rfl⟩ := Net.step_packetIn hstep
      rw [NetEvent.lost, List.append_nil]
      have hin : FromSender (myTopo n : Topo K) n net.sent i packetIn :=
        hnet.packetIn _ (List.mem_of_getElem? hm)
      refine ⟨hcons.ids, List.forall_mem_append.mpr ⟨hcons.routed, List.forall_mem_map.mpr
        fun msg hmsg => routed_handle hnet hin msg hmsg⟩, fun h p hp hdel => ?_⟩
      have hkept := hcons.kept h p hp hdel
      have hm' := countP_eraseIdx (fun m : Int × PacketIn Mac => m.2.data.id = p.id) hm
      simp only [Net.copies, List.countP_append, List.countP_map, decide_eq_true_eq,
        Function.comp_def] at hkept hm' ⊢
      by_cases hid : packetIn.data.id = p.id
      · obtain ⟨h', hp', -⟩ := hin
        have hone := handle_kept (net.tutorial i) (hsame hp hdel h' _ hp' hid).1
        rw [hid] at hone
        rw [if_pos hid] at hm'
        omega
      · rw [if_neg hid] at hm'
        omega
  | message k =>
      obtain ⟨i, msg, hm, rfl⟩ := Net.step_message hstep
      rw [NetEvent.lost, List.append_nil]
      have hmem := List.mem_of_getElem? hm
      refine ⟨?_, ?_, fun h p hp hdel => ?_⟩
      · rw [Net.obey_sent]
        exact hcons.ids
      · rw [Net.obey_messages]
        exact fun m hm => hcons.routed m (List.mem_of_mem_eraseIdx hm)
      · rw [Net.obey_sent] at hp
        have hkept := hcons.kept h p hp hdel
        have hle := copies_obey_kept hn (hnet.message _ hmem) (hcons.routed _ hmem)
          { net with messages := net.messages.eraseIdx k } (hsame hp hdel)
        have hm' := countP_eraseIdx (fun m : Int × ControlMsg Mac => m.2.carries p.id) hm
        simp only [Net.copies] at hkept hle hm' ⊢
        omega
  | configLinkStatus a =>
      obtain rfl := Option.some.inj hstep
      rw [NetEvent.lost, List.append_nil]
      exact { hcons with }

end Kept

/-! ## Runs -/

section Runs

variable [DecidableEq Mac] {n : Nat} {mac : Host → Mac}

theorem directed_step (hn : 1 ≤ n) {net net' : Net Mac} {e : NetEvent Mac}
    (hnet : Directed (myTopo n : Topo K) n mac net)
    (hstep : Net.step (myTopo n : Topo K) mac net e = some net') :
    Directed (myTopo n : Topo K) n mac net' := by
  refine hnet.step (isLine_myTopo hn) (fun h b hb => ?_) hstep
  obtain ⟨c, hports, hc⟩ := ports_host (K := K) n h
  rw [hports, List.mem_singleton] at hb
  rw [hb, hc]

omit [DecidableEq Mac] in
theorem conserved_start (n : Nat) (mac : Host → Mac) :
    Conserved (myTopo n : Topo K) n mac (.start : Net Mac) [] where
  ids := rfl
  routed := fun _ hm => absurd hm List.not_mem_nil
  kept := fun _ _ hp => absurd hp List.not_mem_nil

/-- A run keeps what it does not lose. -/
theorem conserved_run (hn : 1 ≤ n) : ∀ {events : List (NetEvent Mac)} {net net' : Net Mac}
    {lost : List Nat}, Directed (myTopo n : Topo K) n mac net →
      Conserved (myTopo n : Topo K) n mac net lost →
      Net.run (myTopo n : Topo K) mac net events = some net' →
      Conserved (myTopo n : Topo K) n mac net'
        (lost ++ Net.losses (myTopo n : Topo K) mac net events) := by
  intro events
  induction events with
  | nil =>
      intro net net' lost _ hcons hrun
      rw [Net.losses, List.append_nil]
      exact Option.some.inj hrun ▸ hcons
  | cons e events ih =>
      intro net net' lost hnet hcons hrun
      obtain ⟨mid, hmid, hrest⟩ := Option.bind_eq_some_iff.mp hrun
      have hnext := ih (directed_step hn hnet hmid) (hcons.step hn hnet hmid) hrest
      rw [Net.losses, hmid, ← List.append_assoc]
      exact hnext

/-- A run that only handles what is there is no longer than the work that is left. -/
theorem length_le_work (hn : 1 ≤ n) : ∀ {events : List (NetEvent Mac)} {net net' : Net Mac},
    Directed (myTopo n : Topo K) n mac net → (∀ e ∈ events, e.Handles) →
      Net.run (myTopo n : Topo K) mac net events = some net' →
      events.length ≤ net.work (myTopo n : Topo K) n := by
  intro events
  induction events with
  | nil =>
      intro net net' _ _ _
      exact Nat.zero_le _
  | cons e events ih =>
      intro net net' hnet hall hrun
      obtain ⟨mid, hmid, hrest⟩ := Option.bind_eq_some_iff.mp hrun
      have hless := work_step hn (hall e List.mem_cons_self) hnet hmid
      have hlen := ih (directed_step hn hnet hmid)
        (fun e he => hall e (List.mem_cons_of_mem _ he)) hrest
      rw [List.length_cons]
      omega

theorem Host.other_other (h : Host) : h.other.other = h := by
  cases h <;> rfl

/-- **At rest a packet that was not lost has been delivered or waits**, and is there once. -/
theorem delivered_or_waiting (hn : 1 ≤ n) {events : List (NetEvent Mac)} {net : Net Mac}
    (hrun : Net.run (myTopo n : Topo K) mac .start events = some net)
    (hins : net.packetIns = []) (hmsgs : net.messages = []) {h : Host} {p : Packet Mac}
    (hp : (h, p) ∈ net.sent) (hdel : Deliverable mac h p)
    (hlost : p.id ∉ Net.losses (myTopo n : Topo K) mac .start events) :
    net.delivered.count (h.other, p) + net.waiting p.id = 1 := by
  obtain ⟨hnet, hsingle⟩ := directed_run hn hrun
  have hstart : Directed (myTopo n : Topo K) n mac (.start : Net Mac) :=
    (directed_run hn (show Net.run (myTopo n : Topo K) mac .start [] = some .start from rfl)).1
  have hcons := conserved_run hn hstart (conserved_start n mac) hrun
  have hkept := hcons.kept h p hp hdel
  have hcopies := hsingle p.id
  rw [List.nil_append, List.count_eq_zero.mpr hlost] at hkept
  rw [if_pos (hnet.sent _ hp).2] at hcopies
  -- what has the packet's number is the packet, and has come to the other host
  have hsame : net.delivered.countP (fun d => d.2.id = p.id) =
      net.delivered.count (h.other, p) := by
    refine List.countP_congr fun d hd => ?_
    rw [decide_eq_true_eq, beq_iff_eq]
    refine ⟨fun hid => ?_, fun heq => heq ▸ rfl⟩
    obtain ⟨hother, hpacket⟩ := hcons.sent_inj (hnet.delivered d hd) hp hid
    rw [← hother, Host.other_other, ← hpacket]
  simp only [Net.copies, hins, hmsgs, List.countP_nil, Nat.add_zero, hsame] at hkept hcopies
  rw [Net.waiting]
  omega

/-- **The chain delivers.**  In every state that any order of events leads to: what is left to
do comes to an end, in whatever order it is done; and where no link is down and nothing is left
to do, every packet that was not lost on a link has been delivered to the other host, once. -/
theorem chain_delivers (n : Nat) (hn : 1 ≤ n) (mac : Host → Mac) (events : List (NetEvent Mac))
    (net : Net Mac) (hrun : Net.run (myTopo n : Topo K) mac .start events = some net) :
    (∀ more net', (∀ e ∈ more, e.Handles) → Net.run (myTopo n : Topo K) mac net more = some net' →
      more.length ≤ net.work (myTopo n : Topo K) n) ∧
    (net.down = ∅ → (∀ e, e.Handles → Net.step (myTopo n : Topo K) mac net e = none) →
      ∀ h p, (h, p) ∈ net.sent → Deliverable mac h p →
        p.id ∉ Net.losses (myTopo n : Topo K) mac .start events →
        net.delivered.count (h.other, p) = 1) := by
  refine ⟨fun more net' hall hmore => length_le_work hn (directed_run hn hrun).1 hall hmore, ?_⟩
  intro hup hstuck h p hp hdel hlost
  obtain ⟨hins, hmsgs, hlinks⟩ := rest_of_stuck hstuck
  have hempty : net.onLinks = [] := List.eq_nil_iff_forall_not_mem.mpr fun x hx =>
    absurd (hup ▸ hlinks x hx) (Finset.notMem_empty _)
  have hsum := delivered_or_waiting hn hrun hins hmsgs hp hdel hlost
  rwa [Net.waiting, hempty, List.countP_nil] at hsum

end Runs

/-- `twoSwitches` to its end: the answer has to come over the other switch, too. -/
def bothDelivered : List (NetEvent Nat) :=
  twoSwitches ++ [.packetIn 0, .message 0, .message 0, .arrive 0]

theorem chain_delivers_twoSwitches : ∃ net : Net Nat,
    Net.run (myTopo 2 : Topo Nat) (if · = .h1 then 1 else 2) .start bothDelivered = some net ∧
      (∀ more net', (∀ e ∈ more, e.Handles) →
        Net.run (myTopo 2 : Topo Nat) (if · = .h1 then 1 else 2) net more = some net' →
        more.length ≤ net.work (myTopo 2 : Topo Nat) 2) ∧
      net.delivered.count (.h1, ⟨1, 2, 1, true⟩) = 1 := by
  have hrun : ∃ net : Net Nat,
      Net.run (myTopo 2 : Topo Nat) (if · = .h1 then 1 else 2) .start bothDelivered = some net ∧
        net.down = ∅ ∧ net.Idle ∧ (.h2, ⟨1, 2, 1, true⟩) ∈ net.sent :=
    ⟨_, rfl, rfl, ⟨rfl, rfl, rfl⟩, by decide⟩
  obtain ⟨net, hrun, hup, ⟨hlinks, hins, hmsgs⟩, hsent⟩ := hrun
  obtain ⟨hends, hdelivers⟩ := chain_delivers 2 (by decide) _ bothDelivered net hrun
  refine ⟨net, hrun, hends, hdelivers hup ?_ .h2 _ hsent ⟨rfl, by decide⟩ (by decide)⟩
  intro e he
  cases e with
  | send h dst parsed => exact absurd he id
  | lose k => exact absurd he id
  | configLinkStatus a => exact absurd he id
  | arrive k => simp only [Net.step, hlinks, List.getElem?_nil]
  | packetIn k => simp only [Net.step, hins, List.getElem?_nil]
  | message k => simp only [Net.step, hmsgs, List.getElem?_nil]

end LeoEM
