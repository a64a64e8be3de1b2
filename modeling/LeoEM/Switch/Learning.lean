/-
# `Switch.Learning` — the controller of one switch

`learning_switch.py` creates a `Tutorial` object for each switch that connects.  A packet
that no flow of the switch matches comes to it as a packet-in.  It learns the port of the
source, and tells the switch where the packet goes: out of the port of the destination,
and then a flow for all further packets of the pair, or out of all ports when the
destination is not learned yet.
-/
import Mathlib.Logic.Function.Basic

namespace LeoEM

variable {Mac : Type}

/-- A packet as the switches see it.  `id` tells packets apart that are sent with the same
addresses; `parsed` is that of the packet library. -/
structure Packet (Mac : Type) where
  id : Nat
  src : Mac
  dst : Mac
  parsed : Bool
  deriving DecidableEq, Repr

/-- `ofp_packet_in` -/
structure PacketIn (Mac : Type) where
  inPort : Nat
  data : Packet Mac
  deriving DecidableEq, Repr

/-- The port of an output action: a port of the switch, or `OFPP_ALL`. -/
inductive OutPort where
  | port (port : Nat)
  | all
  deriving DecidableEq, Repr

/-- What a controller sends to its switch. -/
inductive ControlMsg (Mac : Type) where
  /-- `ofp_packet_out` -/
  | packetOut (data : PacketIn Mac) (action : OutPort)
  /-- `ofp_flow_mod`: neither timeout is set, so the flow stays. -/
  | flowMod (dlSrc dlDst : Mac) (action : Nat)
  deriving DecidableEq, Repr

structure Tutorial (Mac : Type) where
  macToPort : Mac → Option Nat

/-- `Tutorial.__init__` -/
def Tutorial.new : Tutorial Mac := ⟨fun _ => none⟩

/-- `resend_packet` -/
def resendPacket (packetIn : PacketIn Mac) (outPort : OutPort) : ControlMsg Mac :=
  .packetOut packetIn outPort

variable [DecidableEq Mac]

/-- `act_like_switch`: the object afterwards, and the messages sent to the switch. -/
def actLikeSwitch (self : Tutorial Mac) (packet : Packet Mac) (packetIn : PacketIn Mac) :
    Tutorial Mac × List (ControlMsg Mac) :=
  let macToPort := Function.update self.macToPort packet.src (some packetIn.inPort)
  match macToPort packet.dst with
  | some port =>
      (⟨macToPort⟩, [resendPacket packetIn (.port port), .flowMod packet.src packet.dst port])
  | none => (⟨macToPort⟩, [resendPacket packetIn .all])

/-- `_handle_PacketIn`: an incomplete packet is ignored. -/
def handlePacketIn (self : Tutorial Mac) (packetIn : PacketIn Mac) :
    Tutorial Mac × List (ControlMsg Mac) :=
  if packetIn.data.parsed then actLikeSwitch self packetIn.data packetIn else (self, [])

/-! ## What a controller does -/

theorem actLikeSwitch_macToPort (self : Tutorial Mac) (packet : Packet Mac)
    (packetIn : PacketIn Mac) : (actLikeSwitch self packet packetIn).1.macToPort =
      Function.update self.macToPort packet.src (some packetIn.inPort) := by
  simp only [actLikeSwitch]
  split <;> rfl

/-- The messages of `act_like_switch` follow the table it leaves. -/
theorem actLikeSwitch_msgs (self : Tutorial Mac) (packet : Packet Mac)
    (packetIn : PacketIn Mac) : (actLikeSwitch self packet packetIn).2 =
      match (actLikeSwitch self packet packetIn).1.macToPort packet.dst with
      | some port => [resendPacket packetIn (.port port), .flowMod packet.src packet.dst port]
      | none => [resendPacket packetIn .all] := by
  rw [actLikeSwitch_macToPort]
  simp only [actLikeSwitch]
  split <;> rfl

/-- What the table says after a packet-in it said before, or the packet-in says it. -/
theorem handlePacketIn_table {self : Tutorial Mac} {packetIn : PacketIn Mac} {m : Mac}
    {port : Nat} (h : (handlePacketIn self packetIn).1.macToPort m = some port) :
    self.macToPort m = some port ∨ m = packetIn.data.src ∧ port = packetIn.inPort := by
  unfold handlePacketIn at h
  split at h
  · rw [actLikeSwitch_macToPort, Function.update_apply] at h
    split at h
    · next hm => exact .inr ⟨hm, (Option.some.inj h).symm⟩
    · exact .inl h
  · exact .inl h

/-- **Flows follow the table**: a message takes the packet back to the switch, or it is the
flow of the packet's pair to the port that the table now says for the destination. -/
theorem mem_handlePacketIn {self : Tutorial Mac} {packetIn : PacketIn Mac} {msg : ControlMsg Mac}
    (h : msg ∈ (handlePacketIn self packetIn).2) :
    (∃ action, msg = .packetOut packetIn action) ∨
      ∃ port, (handlePacketIn self packetIn).1.macToPort packetIn.data.dst = some port ∧
        msg = .flowMod packetIn.data.src packetIn.data.dst port := by
  by_cases hparsed : packetIn.data.parsed
  · rw [handlePacketIn, if_pos hparsed] at h ⊢
    rw [actLikeSwitch_msgs] at h
    split at h
    · next port hport =>
        rcases List.mem_cons.mp h with rfl | h
        · exact .inl ⟨_, rfl⟩
        · exact .inr ⟨port, hport, List.mem_singleton.mp h⟩
    · exact .inl ⟨_, List.mem_singleton.mp h⟩
  · rw [handlePacketIn, if_neg hparsed] at h
    exact absurd h List.not_mem_nil

/-- A message takes the packet `id` back to the switch. -/
def ControlMsg.carries (id : Nat) : ControlMsg Mac → Bool
  | .packetOut packetIn _ => packetIn.data.id = id
  | .flowMod .. => false

/-- A packet-in takes its packet back at most once, and no other. -/
theorem countP_handlePacketIn (self : Tutorial Mac) (packetIn : PacketIn Mac) (id : Nat) :
    (handlePacketIn self packetIn).2.countP (·.carries id) ≤
      if packetIn.data.id = id then 1 else 0 := by
  unfold handlePacketIn
  split
  · rw [actLikeSwitch_msgs]
    split <;> simp [resendPacket, ControlMsg.carries, List.countP_cons]
  · exact Nat.zero_le _

end LeoEM
