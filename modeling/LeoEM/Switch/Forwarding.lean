/-
# `Switch.Forwarding` — the chain of learning switches

The chain of `MyTopo` with a `Tutorial` object for each switch.  A host sends a packet; a
switch sends it on by a flow, or to its controller; the controller answers; a packet on a
link arrives or is lost.  All this happens in any order (`NetEvent`, `Net.step`, `Net.run`).

A packet that goes out of a switch of a line, and not back where it came from, goes on in
its direction.  So it comes in from its sender's side everywhere, what is learned from it
points to that side, and so do the flows made of what is learned (`chain_directed`).
-/
import LeoEM.Emulator.Links
import LeoEM.Switch.Learning
import LeoEM.Switch.Ports

namespace LeoEM

variable {K Mac : Type}

/-- A packet on the way over a link. -/
structure Transit (Mac : Type) where
  source : NodeName
  dest : NodeName
  packet : Packet Mac
  deriving DecidableEq, Repr

/-- The state of the network.  `sent` and `delivered` are what the hosts sent and received
so far. -/
structure Net (Mac : Type) where
  down : Finset (Sym2 NodeName)
  tutorial : Int → Tutorial Mac
  flows : Int → Mac × Mac → Option Nat
  onLinks : List (Transit Mac)
  packetIns : List (Int × PacketIn Mac)
  messages : List (Int × ControlMsg Mac)
  sent : List (Host × Packet Mac)
  delivered : List (Host × Packet Mac)

/-- Every switch has connected, and nothing is sent yet. -/
def Net.start : Net Mac where
  down := ∅
  tutorial := fun _ => .new
  flows := fun _ _ => none
  onLinks := []
  packetIns := []
  messages := []
  sent := []
  delivered := []

/-- An output action of switch `i`: what goes to the port it came in at is dropped, and
`OFPP_ALL` is every other port. -/
def outputAction (t : Topo K) (i : Int) (inPort : Nat) (action : OutPort) (packet : Packet Mac) :
    List (Transit Mac) :=
  match action with
  | .port port =>
      if port = inPort then [] else ((t.ports (.s i))[port]?).toList.map (⟨.s i, ·, packet⟩)
  | .all => ((t.ports (.s i)).eraseIdx inPort).map (⟨.s i, ·, packet⟩)

section Output

variable {pos : NodeName → Int} {i : Int} {inPort : Nat} {b : NodeName} {action : OutPort}
  {packet : Packet Mac} {x : Transit Mac}

/-- A packet leaves a switch by another port than it came in at. -/
theorem mem_outputAction {t : Topo K} (hx : x ∈ outputAction t i inPort action packet) :
    x.packet = packet ∧ x.source = .s i ∧
      ∃ port, port ≠ inPort ∧ (t.ports (.s i))[port]? = some x.dest := by
  unfold outputAction at hx
  cases action with
  | port port =>
      simp only at hx
      split at hx
      · exact absurd hx List.not_mem_nil
      · next hne =>
          obtain ⟨c, hc, rfl⟩ := List.mem_map.mp hx
          exact ⟨rfl, rfl, port, hne, Option.mem_toList.mp hc⟩
  | all =>
      obtain ⟨c, hc, rfl⟩ := List.mem_map.mp hx
      obtain ⟨port, hne, hport⟩ := List.mem_eraseIdx_iff_getElem?.mp hc
      exact ⟨rfl, rfl, port, hne, hport⟩

/-- On a line at most one packet leaves. -/
theorem length_outputAction {t : Topo K} (line : IsLine t.ports pos)
    (hin : (t.ports (.s i))[inPort]? = some b) :
    (outputAction t i inPort action packet).length ≤ 1 := by
  unfold outputAction
  cases action with
  | port port =>
      simp only
      split
      · exact Nat.zero_le 1
      · rw [List.length_map]
        exact Option.length_toList_le
  | all =>
      rw [List.length_map]
      exact line.length_eraseIdx_le hin

end Output

inductive NetEvent (Mac : Type) where
  /-- A host sends a packet, with its own address as source. -/
  | send (h : Host) (dst : Mac) (parsed : Bool)
  /-- A packet on a link arrives. -/
  | arrive (k : Nat)
  /-- A packet on a link is lost: the link is down, or its queue full. -/
  | lose (k : Nat)
  /-- A controller handles a packet-in. -/
  | packetIn (k : Nat)
  /-- A switch obeys a message of its controller. -/
  | message (k : Nat)
  | configLinkStatus (a : LinkAction)
  deriving DecidableEq

/-- A packet arrives: the host has it, or the switch looks for a flow. -/
def Net.arrive (net : Net Mac) (t : Topo K) (x : Transit Mac) : Net Mac :=
  match x.dest with
  | .h1 => { net with delivered := net.delivered ++ [(.h1, x.packet)] }
  | .h2 => { net with delivered := net.delivered ++ [(.h2, x.packet)] }
  | .s i =>
      let inPort := (t.ports (.s i)).idxOf x.source
      match net.flows i (x.packet.src, x.packet.dst) with
      | some port =>
          { net with onLinks := net.onLinks ++ outputAction t i inPort (.port port) x.packet }
      | none => { net with packetIns := net.packetIns ++ [(i, ⟨inPort, x.packet⟩)] }

theorem Net.arrive_sent (net : Net Mac) (t : Topo K) (x : Transit Mac) :
    (net.arrive t x).sent = net.sent := by
  unfold Net.arrive
  split
  · rfl
  · rfl
  · simp only
    split <;> rfl

section Steps

variable [DecidableEq Mac]

/-- A switch obeys its controller. -/
def Net.obey (net : Net Mac) (t : Topo K) (i : Int) (msg : ControlMsg Mac) : Net Mac :=
  match msg with
  | .packetOut packetIn action =>
      { net with onLinks := net.onLinks ++ outputAction t i packetIn.inPort action packetIn.data }
  | .flowMod dlSrc dlDst action =>
      { net with
        flows := Function.update net.flows i
          (Function.update (net.flows i) (dlSrc, dlDst) (some action)) }

theorem Net.obey_sent (net : Net Mac) (t : Topo K) (i : Int) (msg : ControlMsg Mac) :
    (net.obey t i msg).sent = net.sent := by
  cases msg <;> rfl

/-- One event, if it can happen. -/
def Net.step (t : Topo K) (mac : Host → Mac) (net : Net Mac) : NetEvent Mac → Option (Net Mac)
  | .send h dst parsed =>
      let packet := ⟨net.sent.length, mac h, dst, parsed⟩
      some { net with
        sent := net.sent ++ [(h, packet)]
        onLinks := net.onLinks ++ (t.ports h.node).map (⟨h.node, ·, packet⟩) }
  | .arrive k =>
      match net.onLinks[k]? with
      | none => none
      | some x =>
          if s(x.source, x.dest) ∈ net.down then none
          else some (Net.arrive { net with onLinks := net.onLinks.eraseIdx k } t x)
  | .lose k =>
      if k < net.onLinks.length then some { net with onLinks := net.onLinks.eraseIdx k }
      else none
  | .packetIn k =>
      match net.packetIns[k]? with
      | none => none
      | some (i, packetIn) =>
          let done := handlePacketIn (net.tutorial i) packetIn
          some { net with
            packetIns := net.packetIns.eraseIdx k
            tutorial := Function.update net.tutorial i done.1
            messages := net.messages ++ done.2.map (i, ·) }
  | .message k =>
      match net.messages[k]? with
      | none => none
      | some (i, msg) => some (Net.obey { net with messages := net.messages.eraseIdx k } t i msg)
  | .configLinkStatus a => some { net with down := applyAction net.down a }

/-! ## What an event does -/

variable {t : Topo K} {mac : Host → Mac} {net net' : Net Mac} {k : Nat}

theorem Net.step_arrive (h : Net.step t mac net (.arrive k) = some net') :
    ∃ x, net.onLinks[k]? = some x ∧ s(x.source, x.dest) ∉ net.down ∧
      net' = Net.arrive { net with onLinks := net.onLinks.eraseIdx k } t x := by
  simp only [Net.step] at h
  split at h
  · cases h
  · next x hx =>
      split at h
      · cases h
      · next hup => exact ⟨x, hx, hup, (Option.some.inj h).symm⟩

theorem Net.step_lose (h : Net.step t mac net (.lose k) = some net') :
    ∃ x, net.onLinks[k]? = some x ∧
      net' = { net with onLinks := net.onLinks.eraseIdx k } := by
  simp only [Net.step] at h
  split at h
  · next hk => exact ⟨_, List.getElem?_eq_getElem hk, (Option.some.inj h).symm⟩
  · cases h

theorem Net.step_packetIn (h : Net.step t mac net (.packetIn k) = some net') :
    ∃ i packetIn, net.packetIns[k]? = some (i, packetIn) ∧
      net' = { net with
        packetIns := net.packetIns.eraseIdx k
        tutorial := Function.update net.tutorial i
          (handlePacketIn (net.tutorial i) packetIn).1
        messages := net.messages ++
          (handlePacketIn (net.tutorial i) packetIn).2.map (i, ·) } := by
  simp only [Net.step] at h
  split at h
  · cases h
  · next i packetIn hm => exact ⟨i, packetIn, hm, (Option.some.inj h).symm⟩

theorem Net.step_message (h : Net.step t mac net (.message k) = some net') :
    ∃ i msg, net.messages[k]? = some (i, msg) ∧
      net' = Net.obey { net with messages := net.messages.eraseIdx k } t i msg := by
  simp only [Net.step] at h
  split at h
  · cases h
  · next i msg hm => exact ⟨i, msg, hm, (Option.some.inj h).symm⟩

/-- The events happen one after the other. -/
def Net.run (t : Topo K) (mac : Host → Mac) (net : Net Mac) : List (NetEvent Mac) → Option (Net Mac)
  | [] => some net
  | e :: events => (Net.step t mac net e).bind (Net.run t mac · events)

/-- What every event keeps, every run keeps. -/
theorem Net.run_inv {P : Net Mac → Prop}
    (hstep : ∀ {net net' : Net Mac} {e : NetEvent Mac},
      P net → Net.step t mac net e = some net' → P net') :
    ∀ {events : List (NetEvent Mac)} {net net' : Net Mac}, P net →
      Net.run t mac net events = some net' → P net' := by
  intro events
  induction events with
  | nil =>
      intro net net' hP h
      exact Option.some.inj h ▸ hP
  | cons e events ih =>
      intro net net' hP h
      obtain ⟨mid, hmid, hrest⟩ := Option.bind_eq_some_iff.mp h
      exact ih (hstep hP hmid) hrest

end Steps

/-! ## Directions -/

/-- A port of switch `i` leads one hop nearer to a host. -/
def Toward (t : Topo K) (n : Nat) (h : Host) (i : Int) (port : Nat) : Prop :=
  ∃ b, (t.ports (.s i))[port]? = some b ∧ hops n h (.s i) = hops n h b + 1

/-- A port of switch `i` is on the side of the host that owns an address. -/
def OwnerSide (t : Topo K) (n : Nat) (mac : Host → Mac) (i : Int) (m : Mac) (port : Nat) : Prop :=
  ∃ h, m = mac h ∧ Toward t n h i port

/-- A packet-in of switch `i` came from its sender's side. -/
def FromSender (t : Topo K) (n : Nat) (sent : List (Host × Packet Mac)) (i : Int)
    (packetIn : PacketIn Mac) : Prop :=
  ∃ h, (h, packetIn.data) ∈ sent ∧ Toward t n h i packetIn.inPort ∧ 0 ≤ hops n h (.s i)

/-- A packet on a link goes away from its sender. -/
def Away (t : Topo K) (n : Nat) (sent : List (Host × Packet Mac)) (x : Transit Mac) : Prop :=
  ∃ h, (h, x.packet) ∈ sent ∧ x.dest ∈ t.ports x.source ∧ 0 ≤ hops n h x.source ∧
    hops n h x.dest = hops n h x.source + 1

/-- What a controller says of a packet that came from its sender's side, or of a flow to an
owner's side. -/
def ControlMsg.Sound (t : Topo K) (n : Nat) (mac : Host → Mac) (sent : List (Host × Packet Mac))
    (i : Int) : ControlMsg Mac → Prop
  | .packetOut packetIn _ => FromSender t n sent i packetIn
  | .flowMod _ dlDst action => OwnerSide t n mac i dlDst action

/-- Everything in the network has its direction right. -/
structure Directed (t : Topo K) (n : Nat) (mac : Host → Mac) (net : Net Mac) : Prop where
  table : ∀ i m port, (net.tutorial i).macToPort m = some port → OwnerSide t n mac i m port
  flow : ∀ i src dst port, net.flows i (src, dst) = some port → OwnerSide t n mac i dst port
  onLink : ∀ x ∈ net.onLinks, Away t n net.sent x
  packetIn : ∀ m ∈ net.packetIns, FromSender t n net.sent m.1 m.2
  message : ∀ m ∈ net.messages, m.2.Sound t n mac net.sent m.1
  sent : ∀ d ∈ net.sent, d.2.src = mac d.1 ∧ d.2.id < net.sent.length
  delivered : ∀ d ∈ net.delivered, (d.1.other, d.2) ∈ net.sent

section Preserved

variable {t : Topo K} {n : Nat} {mac : Host → Mac} {net : Net Mac} {i : Int}
  {sent sent' : List (Host × Packet Mac)} {x : Transit Mac} {packetIn : PacketIn Mac}

theorem Away.mono (h : Away t n sent x) (hsub : sent ⊆ sent') : Away t n sent' x := by
  obtain ⟨h, hsent, hrest⟩ := h
  exact ⟨h, hsub hsent, hrest⟩

theorem FromSender.mono (h : FromSender t n sent i packetIn) (hsub : sent ⊆ sent') :
    FromSender t n sent' i packetIn := by
  obtain ⟨h, hsent, hrest⟩ := h
  exact ⟨h, hsub hsent, hrest⟩

/-- What comes from its sender's side leaves a switch away from the sender. -/
theorem FromSender.away_output (line : IsLine t.ports (NodeName.pos n))
    (h : FromSender t n sent i packetIn) {action : OutPort}
    (hx : x ∈ outputAction t i packetIn.inPort action packetIn.data) : Away t n sent x := by
  obtain ⟨h, hsent, ⟨b, hb, hnear⟩, hpos⟩ := h
  obtain ⟨hpacket, hsource, port, hne, hport⟩ := mem_outputAction hx
  refine ⟨h, hpacket ▸ hsent, ?_, ?_, ?_⟩
  · rw [hsource]
    exact List.mem_of_getElem? hport
  · rw [hsource]
    exact hpos
  · rw [hsource]
    exact hops_onwards (line.onwards hb hport hne) hnear

/-- What goes away from its sender comes in at a switch from the sender's side. -/
theorem Away.fromSender (line : IsLine t.ports (NodeName.pos n)) (h : Away t n sent x)
    (hdest : x.dest = .s i) :
    FromSender t n sent i ⟨(t.ports (.s i)).idxOf x.source, x.packet⟩ := by
  obtain ⟨h, hsent, hlink, hpos, hhops⟩ := h
  rw [hdest] at hlink hhops
  exact ⟨h, hsent, ⟨x.source, List.getElem?_idxOf (line.symm hlink), hhops⟩, by omega⟩

/-- What goes away from its sender arrives at the other host. -/
theorem Away.other {h : Host} (hx : Away t n sent x) (hdest : x.dest = h.node) :
    (h.other, x.packet) ∈ sent := by
  obtain ⟨h', hsent, -, hpos, hhops⟩ := hx
  have hne : h' ≠ h := by
    rintro rfl
    rw [hdest, hops_node] at hhops
    omega
  cases h with
  | h1 =>
      cases h' with
      | h1 => exact absurd rfl hne
      | h2 => exact hsent
  | h2 =>
      cases h' with
      | h1 => exact hsent
      | h2 => exact absurd rfl hne

theorem ControlMsg.Sound.mono {msg : ControlMsg Mac} (h : msg.Sound t n mac sent i)
    (hsub : sent ⊆ sent') : msg.Sound t n mac sent' i := by
  cases msg with
  | packetOut packetIn action => exact FromSender.mono h hsub
  | flowMod dlSrc dlDst action => exact h

theorem Directed.arrive (line : IsLine t.ports (NodeName.pos n))
    (hnet : Directed t n mac net) (hx : Away t n net.sent x) :
    Directed t n mac (net.arrive t x) := by
  unfold Net.arrive
  split
  · next hdest =>
      have hother := Away.other (h := .h1) hx hdest
      exact { hnet with
        delivered := List.forall_mem_append.mpr
          ⟨hnet.delivered, List.forall_mem_singleton.mpr hother⟩ }
  · next hdest =>
      have hother := Away.other (h := .h2) hx hdest
      exact { hnet with
        delivered := List.forall_mem_append.mpr
          ⟨hnet.delivered, List.forall_mem_singleton.mpr hother⟩ }
  · next i hdest =>
      have hfrom := hx.fromSender line hdest
      simp only
      split
      · exact { hnet with
          onLink := List.forall_mem_append.mpr
            ⟨hnet.onLink, fun y hy => hfrom.away_output line hy⟩ }
      · exact { hnet with
          packetIn := List.forall_mem_append.mpr
            ⟨hnet.packetIn, List.forall_mem_singleton.mpr hfrom⟩ }

/-- A packet that leaves its link takes nothing with it. -/
theorem Directed.eraseOnLink (hnet : Directed t n mac net) (k : Nat) :
    Directed t n mac { net with onLinks := net.onLinks.eraseIdx k } :=
  { hnet with onLink := fun y hy => hnet.onLink y (List.mem_of_mem_eraseIdx hy) }

variable [DecidableEq Mac]

theorem Directed.obey (line : IsLine t.ports (NodeName.pos n)) (hnet : Directed t n mac net)
    {msg : ControlMsg Mac} (hmsg : msg.Sound t n mac net.sent i) :
    Directed t n mac (net.obey t i msg) := by
  cases msg with
  | packetOut packetIn action =>
      exact { hnet with
        onLink := List.forall_mem_append.mpr
          ⟨hnet.onLink, fun y hy => FromSender.away_output line hmsg hy⟩ }
  | flowMod dlSrc dlDst action =>
      refine { hnet with flow := fun j src dst port hflow => ?_ }
      simp only [Net.obey, Function.update_apply] at hflow
      split at hflow
      · next hj =>
          rw [Function.update_apply] at hflow
          split at hflow
          · next hpair =>
              obtain ⟨-, rfl⟩ := Prod.mk.inj hpair
              obtain rfl := Option.some.inj hflow
              exact hj ▸ hmsg
          · exact hj ▸ hnet.flow i src dst port hflow
      · exact hnet.flow j src dst port hflow

/-- **A controller learns the sender's side**, and its flows go by what it learned. -/
theorem Directed.learn (hnet : Directed t n mac net)
    (hin : FromSender t n net.sent i packetIn) :
    (∀ m port, (handlePacketIn (net.tutorial i) packetIn).1.macToPort m = some port →
      OwnerSide t n mac i m port) ∧
    ∀ msg ∈ (handlePacketIn (net.tutorial i) packetIn).2, msg.Sound t n mac net.sent i := by
  have htable : ∀ m port, (handlePacketIn (net.tutorial i) packetIn).1.macToPort m =
      some port → OwnerSide t n mac i m port := by
    intro m port h
    rcases handlePacketIn_table h with h | ⟨rfl, rfl⟩
    · exact hnet.table i m port h
    · obtain ⟨h, hsent, htoward, -⟩ := hin
      exact ⟨h, (hnet.sent _ hsent).1, htoward⟩
  refine ⟨htable, fun msg hmsg => ?_⟩
  rcases mem_handlePacketIn hmsg with ⟨action, rfl⟩ | ⟨port, hport, rfl⟩
  · exact hin
  · exact htable _ _ hport

/-- A host sends on its only link, which leads away from it. -/
theorem Directed.send (hhost : ∀ h b, b ∈ t.ports (Host.node h) → hops n h b = 1)
    (hnet : Directed t n mac net) {h : Host} {dst : Mac} {parsed : Bool} {net' : Net Mac}
    (hstep : Net.step t mac net (.send h dst parsed) = some net') : Directed t n mac net' := by
  obtain rfl := Option.some.inj hstep
  have hsub : net.sent ⊆ net.sent ++ [(h, ⟨net.sent.length, mac h, dst, parsed⟩)] :=
    List.subset_append_left _ _
  exact { hnet with
    onLink := by
      refine List.forall_mem_append.mpr ⟨fun x hx => (hnet.onLink x hx).mono hsub, ?_⟩
      intro x hx
      obtain ⟨b, hb, rfl⟩ := List.mem_map.mp hx
      exact ⟨h, List.mem_append_right _ (List.mem_singleton_self _), hb,
        (hops_node n h).ge, by rw [hops_node, hhost h b hb]; rfl⟩
    packetIn := fun m hm => (hnet.packetIn m hm).mono hsub
    message := fun m hm => (hnet.message m hm).mono hsub
    sent := by
      simp only [List.length_append, List.length_singleton]
      refine List.forall_mem_append.mpr ⟨fun d hd => ?_, List.forall_mem_singleton.mpr ?_⟩
      · exact ⟨(hnet.sent d hd).1, (hnet.sent d hd).2.trans (Nat.lt_succ_self _)⟩
      · exact ⟨rfl, Nat.lt_succ_self _⟩
    delivered := fun d hd => hsub (hnet.delivered d hd) }

/-- A controller handles a packet-in. -/
theorem Directed.handle (hnet : Directed t n mac net) {k : Nat} {net' : Net Mac}
    (hstep : Net.step t mac net (.packetIn k) = some net') : Directed t n mac net' := by
  obtain ⟨i, packetIn, hm, rfl⟩ := Net.step_packetIn hstep
  obtain ⟨htable, hmsgs⟩ := hnet.learn (hnet.packetIn _ (List.mem_of_getElem? hm))
  refine { hnet with
    table := fun j m port h => ?_
    packetIn := fun m hm => hnet.packetIn m (List.mem_of_mem_eraseIdx hm)
    message := List.forall_mem_append.mpr
      ⟨hnet.message, List.forall_mem_map.mpr fun msg hmsg => hmsgs msg hmsg⟩ }
  simp only [Function.update_apply] at h
  split at h
  · next hj => exact hj ▸ htable m port h
  · exact hnet.table j m port h

/-- **What one event keeps.** -/
theorem Directed.step (line : IsLine t.ports (NodeName.pos n))
    (hhost : ∀ h b, b ∈ t.ports (Host.node h) → hops n h b = 1) {net' : Net Mac} {e : NetEvent Mac}
    (hnet : Directed t n mac net) (hstep : Net.step t mac net e = some net') :
    Directed t n mac net' := by
  cases e with
  | send h dst parsed => exact hnet.send hhost hstep
  | arrive k =>
      obtain ⟨x, hx, -, rfl⟩ := Net.step_arrive hstep
      exact (hnet.eraseOnLink k).arrive line (hnet.onLink x (List.mem_of_getElem? hx))
  | lose k =>
      obtain ⟨x, -, rfl⟩ := Net.step_lose hstep
      exact hnet.eraseOnLink k
  | packetIn k => exact hnet.handle hstep
  | message k =>
      obtain ⟨i, msg, hm, rfl⟩ := Net.step_message hstep
      have hrest : Directed t n mac { net with messages := net.messages.eraseIdx k } :=
        { hnet with message := fun y hy => hnet.message y (List.mem_of_mem_eraseIdx hy) }
      exact hrest.obey line (hnet.message _ (List.mem_of_getElem? hm))
  | configLinkStatus a =>
      obtain rfl := Option.some.inj hstep
      exact { hnet with }

end Preserved

/-! ## Copies -/

/-- How often the packet `id` is in the network, or was delivered. -/
def Net.copies (net : Net Mac) (id : Nat) : Nat :=
  net.onLinks.countP (·.packet.id = id) + net.packetIns.countP (·.2.data.id = id) +
    net.messages.countP (·.2.carries id) + net.delivered.countP (·.2.id = id)

/-- Every packet that was sent is there at most once, and no other is. -/
def Net.Single (net : Net Mac) : Prop :=
  ∀ id, net.copies id ≤ if id < net.sent.length then 1 else 0

theorem countP_eraseIdx {α : Type} {xs : List α} {k : Nat} {x : α} (q : α → Bool)
    (h : xs[k]? = some x) : xs.countP q = (xs.eraseIdx k).countP q + if q x then 1 else 0 := by
  obtain ⟨hk, rfl⟩ := List.getElem?_eq_some_iff.mp h
  rw [← (List.getElem_cons_eraseIdx_perm hk).countP_eq, List.countP_cons]

/-- A list of one copy of a packet at most. -/
theorem countP_packet {xs : List (Transit Mac)} {packet : Packet Mac} (hlen : xs.length ≤ 1)
    (hall : ∀ x ∈ xs, x.packet = packet) (id : Nat) :
    xs.countP (·.packet.id = id) ≤ if packet.id = id then 1 else 0 := by
  split
  · exact List.countP_le_length.trans hlen
  · next hid =>
      refine (List.countP_eq_zero.mpr fun x hx => ?_).le
      rw [hall x hx]
      exact (decide_eq_true_iff.not).mpr hid

section Copies

variable {t : Topo K} {n : Nat} {mac : Host → Mac} {net net' : Net Mac} {i : Int}
  {sent : List (Host × Packet Mac)} {x : Transit Mac} {packetIn : PacketIn Mac}

/-- A host sends a packet once. -/
theorem countP_sent {h : Host} (hhost : (t.ports h.node).length = 1) (packet : Packet Mac)
    (id : Nat) : ((t.ports h.node).map (Transit.mk h.node · packet)).countP (·.packet.id = id) ≤
      if packet.id = id then 1 else 0 := by
  refine countP_packet ?_ (List.forall_mem_map.mpr fun b _ => ?_) id
  · rw [List.length_map, hhost]
  · rfl

/-- On a line a switch does not copy what it sends on. -/
theorem FromSender.countP_output (line : IsLine t.ports (NodeName.pos n))
    (h : FromSender t n sent i packetIn) (action : OutPort) (id : Nat) :
    (outputAction t i packetIn.inPort action packetIn.data).countP (·.packet.id = id) ≤
      if packetIn.data.id = id then 1 else 0 := by
  obtain ⟨h, -, ⟨b, hb, -⟩, -⟩ := h
  exact countP_packet (length_outputAction line hb) (fun x hx => (mem_outputAction hx).1) id

theorem copies_arrive (net : Net Mac) (line : IsLine t.ports (NodeName.pos n))
    (hx : Away t n sent x) (id : Nat) :
    (net.arrive t x).copies id ≤ net.copies id + if x.packet.id = id then 1 else 0 := by
  unfold Net.arrive
  split
  · simp [Net.copies, Nat.add_assoc]
  · simp [Net.copies, Nat.add_assoc]
  · next i hdest =>
      simp only
      split
      · next port _ =>
          have := (hx.fromSender line hdest).countP_output line (.port port) id
          simp only [Net.copies, List.countP_append] at this ⊢
          omega
      · simp only [Net.copies, List.countP_append, List.countP_singleton, decide_eq_true_eq]
        omega

variable [DecidableEq Mac]

theorem copies_obey (net : Net Mac) (line : IsLine t.ports (NodeName.pos n))
    {msg : ControlMsg Mac} (hmsg : msg.Sound t n mac sent i) (id : Nat) :
    (net.obey t i msg).copies id ≤ net.copies id + if msg.carries id then 1 else 0 := by
  cases msg with
  | packetOut packetIn action =>
      have := FromSender.countP_output line hmsg action id
      simp only [Net.obey, Net.copies, ControlMsg.carries, List.countP_append,
        decide_eq_true_eq] at this ⊢
      omega
  | flowMod dlSrc dlDst action => exact Nat.le_add_right _ _

/-- **One event copies nothing**, and what a host sends is new. -/
theorem Net.Single.step (line : IsLine t.ports (NodeName.pos n))
    (hhost : ∀ h, (t.ports (Host.node h)).length = 1) {e : NetEvent Mac} (hsingle : net.Single)
    (hnet : Directed t n mac net) (hstep : Net.step t mac net e = some net') :
    net'.Single := by
  intro id
  have hid := hsingle id
  cases e with
  | send h dst parsed =>
      obtain rfl := Option.some.inj hstep
      have hsent := countP_sent (hhost h) ⟨net.sent.length, mac h, dst, parsed⟩ id
      simp only [Net.copies, List.countP_append, List.length_append,
        List.length_singleton] at hid hsent ⊢
      split at hsent <;> split at hid <;> split <;> omega
  | arrive k =>
      obtain ⟨x, hx, -, rfl⟩ := Net.step_arrive hstep
      have hle := copies_arrive { net with onLinks := net.onLinks.eraseIdx k } line
        (hnet.onLink x (List.mem_of_getElem? hx)) id
      have hx' := countP_eraseIdx (fun x : Transit Mac => x.packet.id = id) hx
      rw [Net.arrive_sent]
      simp only [Net.copies, decide_eq_true_eq] at hid hle hx' ⊢
      omega
  | lose k =>
      obtain ⟨x, hx, rfl⟩ := Net.step_lose hstep
      have hx' := countP_eraseIdx (fun x : Transit Mac => x.packet.id = id) hx
      simp only [Net.copies] at hid hx' ⊢
      omega
  | packetIn k =>
      obtain ⟨i, packetIn, hm, rfl⟩ := Net.step_packetIn hstep
      have hm' := countP_eraseIdx (fun m : Int × PacketIn Mac => m.2.data.id = id) hm
      have hle := countP_handlePacketIn (net.tutorial i) packetIn id
      simp only [Net.copies, List.countP_append, List.countP_map, decide_eq_true_eq,
        Function.comp_def] at hid hm' hle ⊢
      omega
  | message k =>
      obtain ⟨i, msg, hm, rfl⟩ := Net.step_message hstep
      have hle := copies_obey { net with messages := net.messages.eraseIdx k } line
        (hnet.message _ (List.mem_of_getElem? hm)) id
      have hm' := countP_eraseIdx (fun m : Int × ControlMsg Mac => m.2.carries id) hm
      rw [Net.obey_sent]
      simp only [Net.copies] at hid hle hm' ⊢
      omega
  | configLinkStatus a =>
      obtain rfl := Option.some.inj hstep
      exact hid

end Copies

/-! ## Runs -/

section Runs

variable [DecidableEq Mac]

/-- Every run on the chain keeps directions right and copies nothing. -/
theorem directed_run {n : Nat} (hn : 1 ≤ n) {mac : Host → Mac} {events : List (NetEvent Mac)}
    {net : Net Mac} (hrun : Net.run (myTopo n : Topo K) mac .start events = some net) :
    Directed (myTopo n : Topo K) n mac net ∧ net.Single := by
  have line : IsLine (myTopo n : Topo K).ports (NodeName.pos n) := isLine_myTopo hn
  have hhost : ∀ h b, b ∈ (myTopo n : Topo K).ports h.node → hops n h b = 1 := by
    intro h b hb
    obtain ⟨c, hports, hc⟩ := ports_host (K := K) n h
    rw [hports, List.mem_singleton] at hb
    rw [hb, hc]
  have hone : ∀ h, ((myTopo n : Topo K).ports (Host.node h)).length = 1 := by
    intro h
    obtain ⟨c, hports, -⟩ := ports_host (K := K) n h
    rw [hports, List.length_singleton]
  refine Net.run_inv (P := fun net => Directed (myTopo n : Topo K) n mac net ∧ net.Single)
    ?_ ?_ hrun
  · rintro net net' e ⟨hnet, hsingle⟩ hstep
    exact ⟨hnet.step line hhost hstep, hsingle.step line hone hnet hstep⟩
  · refine ⟨⟨?_, ?_, ?_, ?_, ?_, ?_, ?_⟩, fun id => Nat.zero_le _⟩
    · rintro i m port ⟨⟩
    · rintro i src dst port ⟨⟩
    all_goals exact fun _ h => absurd h List.not_mem_nil

/-- **Forwarding on the chain.**  In every state that any order of events leads to, what the
controllers learned and the flows of the switches point to the side of the host that owns the
address, a packet on a link goes away from the host that sent it, the other host gets it at
most once, and the sender never. -/
theorem chain_directed (n : Nat) (hn : 1 ≤ n) (mac : Host → Mac) (hmac : mac .h1 ≠ mac .h2)
    (events : List (NetEvent Mac)) (net : Net Mac)
    (hrun : Net.run (myTopo n : Topo K) mac .start events = some net) :
    (∀ i m port, (net.tutorial i).macToPort m = some port →
      OwnerSide (myTopo n : Topo K) n mac i m port) ∧
    (∀ i src dst port, net.flows i (src, dst) = some port →
      OwnerSide (myTopo n : Topo K) n mac i dst port) ∧
    ∀ h p, (h, p) ∈ net.sent →
      (∀ x ∈ net.onLinks, x.packet = p → hops n h x.dest = hops n h x.source + 1) ∧
      net.delivered.count (h.other, p) ≤ 1 ∧ (h, p) ∉ net.delivered := by
  obtain ⟨hnet, hsingle⟩ := directed_run hn hrun
  -- a packet has one sender, as the addresses differ
  have hsender : ∀ {h h' : Host} {p : Packet Mac}, (h, p) ∈ net.sent → (h', p) ∈ net.sent →
      h = h' := by
    intro h h' p hp hp'
    have heq : mac h = mac h' := (hnet.sent _ hp).1.symm.trans (hnet.sent _ hp').1
    cases h <;> cases h' <;> first | rfl | exact absurd heq hmac | exact absurd heq.symm hmac
  refine ⟨hnet.table, hnet.flow, fun h p hp => ⟨fun x hx hxp => ?_, ?_, fun hback => ?_⟩⟩
  · obtain ⟨h', hp', -, -, haway⟩ := hnet.onLink x hx
    exact hsender hp (hxp ▸ hp') ▸ haway
  · have hle : net.delivered.count (h.other, p) ≤
        net.delivered.countP (·.2.id = p.id) :=
      List.countP_mono_left fun d _ hd => by
        rw [beq_iff_eq] at hd
        exact decide_eq_true (by rw [hd])
    have hcopies := hsingle p.id
    rw [if_pos (hnet.sent _ hp).2] at hcopies
    exact hle.trans ((Nat.le_add_left _ _).trans hcopies)
  · have hother := hsender hp (hnet.delivered _ hback)
    cases h <;> cases hother

end Runs

/-- Two switches: `h1` sends to `h2`, which the switches do not know, and `h2` answers. -/
def twoSwitches : List (NetEvent Nat) :=
  [.send .h1 2 true, .arrive 0, .packetIn 0, .message 0, .arrive 0, .packetIn 0, .message 0,
    .arrive 0, .send .h2 1 true, .arrive 0, .packetIn 0, .message 0, .message 0, .arrive 0]

theorem chain_directed_twoSwitches : ∃ net : Net Nat,
    Net.run (myTopo 2 : Topo Nat) (if · = .h1 then 1 else 2) .start twoSwitches = some net ∧
      net.delivered = [(.h2, ⟨0, 1, 2, true⟩)] ∧ net.flows 1 (2, 1) = some 0 ∧
      OwnerSide (myTopo 2 : Topo Nat) 2 (if · = .h1 then 1 else 2) 1 1 0 := by
  have hrun : ∃ net : Net Nat,
      Net.run (myTopo 2 : Topo Nat) (if · = .h1 then 1 else 2) .start twoSwitches = some net ∧
        net.delivered = [(.h2, ⟨0, 1, 2, true⟩)] ∧ net.flows 1 (2, 1) = some 0 :=
    ⟨_, rfl, rfl, rfl⟩
  obtain ⟨net, hrun, hdelivered, hflow⟩ := hrun
  have hguided := chain_directed 2 (by decide) _ (by decide) twoSwitches net hrun
  exact ⟨net, hrun, hdelivered, hflow, hguided.2.1 1 2 1 0 hflow⟩

end LeoEM
