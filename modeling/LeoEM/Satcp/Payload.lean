/-
# `Satcp.Payload` — the bytes the relay forwards

The relay of `Satcp.Relay` once more, with its memory: a report is received into `buffer`,
gets a NUL behind it and is copied by `strcpy` into the payload of the one netlink message
the relay has, which is sent.  Both arrays keep what earlier reports have left in them.
`recvfrom` comes before the critical section, but only the first thread has `buffer`, so
an iteration of it is taken as one step.

A report that fills `buffer` gets its NUL behind the end, and a failed `recvfrom` one in
front of the start.  All other reports arrive intact (`forwarded_iff`), and then the relay
does what `Satcp.Relay` says of it, report by report (`relay_refines`); so what holds there of
relay and kernel module holds of the bytes (`RelayMemory.status_run`).
-/
import LeoEM.Base.CArray
import LeoEM.Satcp.Relay

namespace LeoEM

/-- `MAX_PAYLOAD`. -/
def maxPayload : Nat := 1024

/-! ## The netlink message -/

/-- `NLMSG_ALIGN`: to a multiple of 4. -/
def nlmsgAlign (len : Nat) : Nat := (len + 3) / 4 * 4

/-- `NLMSG_HDRLEN`, for the 16 bytes of `struct nlmsghdr`. -/
def nlmsgHdrlen : Nat := nlmsgAlign 16

def nlmsgSpace (len : Nat) : Nat := nlmsgAlign (len + nlmsgHdrlen)

/-- What `malloc(NLMSG_SPACE(MAX_PAYLOAD))` has from `NLMSG_DATA` on. -/
def payloadSize : Nat := nlmsgSpace maxPayload - nlmsgHdrlen

theorem payloadSize_eq : payloadSize = maxPayload := rfl

/-! ## The relay and its memory -/

/-- What `recvfrom` comes back with. -/
inductive Received where
  | datagram (bytes : List UInt8)
  | failed

/-- One iteration of a thread, as in `CriticalSection`; the first thread has received
something. -/
inductive RelayIteration where
  | startSignal (now : Timeval) (received : Received)
  | overSignal (now : Timeval) (currentTv : Timeval)

structure RelayMemory where
  relay : Relay
  buffer : CArray maxPayload
  payload : CArray payloadSize

namespace RelayMemory

/-- `main`, up to the creation of the threads: globals are zero, and so is the message. -/
def start (now : Timeval) : RelayMemory :=
  ⟨Relay.start now, CArray.zeros maxPayload, CArray.zeros payloadSize⟩

/-- The buffer and the length that is returned. -/
def recvfrom (buffer : CArray maxPayload) : Received → CArray maxPayload × Int
  | .datagram bytes => (buffer.overwrite bytes, (min bytes.length maxPayload : Nat))
  | .failed => (buffer, -1)

/-- `sendmsg`, with the payload the message has. -/
def sendmsg (payload : CArray payloadSize) : Logged (CArray payloadSize) OutOfBounds Unit :=
  Logged.tell payload

def waitAndSendHandoverStartSignal (mem : RelayMemory) (now : Timeval) (received : Received) :
    Logged (CArray payloadSize) OutOfBounds RelayMemory := do
  let (buffer, n) := recvfrom mem.buffer received
  let buffer ← Logged.ofExcept (buffer.store n 0)
  -- `printf` reads the string that `strcpy` copies
  let _ ← Logged.ofExcept buffer.readString
  let payload ← Logged.ofExcept (mem.payload.strcpy buffer)
  sendmsg payload
  pure ⟨⟨now, 1⟩, buffer, payload⟩

/-- `"0"`. -/
def overSignalText : CArray 2 := ⟨[48, 0], rfl⟩

def waitAndSendHandoverOverSignal (mem : RelayMemory) (currentTv : Timeval) :
    Logged (CArray payloadSize) OutOfBounds RelayMemory :=
  if mem.relay.currentHandoverStatus = 1 then
    if mem.relay.satcpExpirationTime < currentTv.seconds then do
      let payload ← Logged.ofExcept (mem.payload.strcpy overSignalText)
      sendmsg payload
      pure { mem with
        relay := { mem.relay with currentHandoverStatus := 0 }, payload := payload }
    else pure mem
  else pure mem

def iteration (mem : RelayMemory) :
    RelayIteration → Logged (CArray payloadSize) OutOfBounds RelayMemory
  | .startSignal now received => mem.waitAndSendHandoverStartSignal now received
  | .overSignal _ currentTv => mem.waitAndSendHandoverOverSignal currentTv

abbrev Visit := Logged.Visit RelayMemory RelayIteration (CArray payloadSize) OutOfBounds

/-- The relay, started at `now`, over the iterations of its two threads. -/
def run (now : Timeval) (iterations : List RelayIteration) : List Visit :=
  Logged.visits iteration (start now) iterations

end RelayMemory

/-! ## One iteration -/

/-- A datagram that leaves room for its NUL. -/
def Received.Fits : Received → Prop
  | .datagram bytes => bytes.length < maxPayload
  | .failed => False

namespace RelayMemory

variable {mem : RelayMemory} {now currentTv : Timeval} {received : Received}

/-- A datagram with room for its NUL is forwarded up to its first NUL. -/
theorem start_forwards (mem : RelayMemory) (now : Timeval) {bytes : List UInt8}
    (h : bytes.length < maxPayload) : ∃ buffer payload,
      mem.iteration (.startSignal now (.datagram bytes)) =
        ⟨[payload], .ok ⟨⟨now, 1⟩, buffer, payload⟩⟩ ∧
      payload.cString = some (bytes.takeWhile (· ≠ 0)) := by
  have hstring := CArray.cString_of_bytes (mem.buffer.terminated_bytes h)
  have hlen : (bytes.takeWhile (· ≠ 0)).length < payloadSize :=
    payloadSize_eq ▸ Nat.lt_of_le_of_lt (List.takeWhile_prefix _).length_le h
  obtain ⟨payload, hcopy, hpayload⟩ := mem.payload.strcpy_spec hstring hlen
  refine ⟨(mem.buffer.overwrite bytes).set bytes.length 0, payload, ?_, hpayload⟩
  rw [iteration, waitAndSendHandoverStartSignal, recvfrom, Nat.min_eq_left (Nat.le_of_lt h)]
  dsimp only
  rw [CArray.store_ok _ h, Logged.ofExcept_ok_bind, CArray.readString_of_cString hstring,
    Logged.ofExcept_ok_bind, hcopy, Logged.ofExcept_ok_bind, sendmsg, Logged.tell_bind]
  rfl

/-- Any other result of `recvfrom` puts the NUL outside of `buffer`. -/
theorem start_outOfBounds (mem : RelayMemory) (now : Timeval) (h : ¬ received.Fits) :
    ∃ i : Int, (i < 0 ∨ maxPayload ≤ i) ∧
      mem.iteration (.startSignal now received) = Logged.raise ⟨i⟩ := by
  cases received with
  | failed =>
      refine ⟨-1, Or.inl (by decide), ?_⟩
      rw [iteration, waitAndSendHandoverStartSignal, recvfrom]
      dsimp only
      rw [CArray.store_error _ (Or.inl (by decide)), Logged.ofExcept_error_bind]
  | datagram bytes =>
      have hmin : min bytes.length maxPayload = maxPayload := Nat.min_eq_right (Nat.not_lt.mp h)
      refine ⟨maxPayload, Or.inr (Int.le_refl _), ?_⟩
      rw [iteration, waitAndSendHandoverStartSignal, recvfrom, hmin]
      dsimp only
      rw [CArray.store_error _ (Or.inr (Int.le_refl _)), Logged.ofExcept_error_bind]

/-- The end of a handover is sent as `"0"`. -/
theorem over_of_expires (h : mem.relay.Expires currentTv) (now : Timeval) : ∃ payload,
    mem.iteration (.overSignal now currentTv) =
      ⟨[payload], .ok { mem with
        relay := { mem.relay with currentHandoverStatus := 0 }, payload := payload }⟩ ∧
    payload.cString = some [48] := by
  obtain ⟨payload, hcopy, hpayload⟩ :=
    mem.payload.strcpy_spec (show overSignalText.cString = some [48] from rfl) (by decide)
  refine ⟨payload, ?_, hpayload⟩
  rw [iteration, waitAndSendHandoverOverSignal, if_pos h.1, if_pos h.2, hcopy,
    Logged.ofExcept_ok_bind, sendmsg, Logged.tell_bind]
  rfl

theorem over_of_not_expires (h : ¬ mem.relay.Expires currentTv) (now : Timeval) :
    mem.iteration (.overSignal now currentTv) = ⟨[], .ok mem⟩ := by
  rw [iteration, waitAndSendHandoverOverSignal]
  split
  next hs =>
    rw [if_neg fun ht => h ⟨hs, ht⟩]
    rfl
  next => rfl

end RelayMemory

/-! ## Runs -/

/-- An iteration of the first thread has received something that fits. -/
def RelayIteration.Fits : RelayIteration → Prop
  | .startSignal _ received => received.Fits
  | .overSignal _ _ => True

namespace RelayMemory

/-- What an iteration has to do: no access is out of bounds, and if it has received a
datagram, it sends one message, whose C string is what has been received of the datagram up to
its first NUL. -/
def Forwards : RelayIteration → Logged (CArray payloadSize) OutOfBounds RelayMemory → Prop
  | .startSignal _ (.datagram bytes), done => ∃ mem payload, done = ⟨[payload], .ok mem⟩ ∧
      payload.cString = some ((bytes.take maxPayload).takeWhile (· ≠ 0))
  | .startSignal _ .failed, done => ∃ mem, done.result = .ok mem
  | .overSignal _ _, done => ∃ mem, done.result = .ok mem

/-- Every iteration is come to, and does so. -/
def Forwarded (now : Timeval) (iterations : List RelayIteration) : Prop :=
  ∀ (k : Nat) (it : RelayIteration), iterations[k]? = some it →
    ∃ v : Visit, (run now iterations)[k]? = some v ∧ Forwards it v.done

/-- **One iteration forwards**, if what it has received fits. -/
theorem iteration_forwards (mem : RelayMemory) {it : RelayIteration} (h : it.Fits) :
    (∃ mem', (mem.iteration it).result = .ok mem') ∧ Forwards it (mem.iteration it) := by
  cases it with
  | startSignal now received =>
      cases received with
      | failed => exact absurd h id
      | datagram bytes =>
          obtain ⟨buffer, payload, hdone, hstring⟩ := start_forwards mem now h
          rw [hdone]
          refine ⟨⟨_, rfl⟩, _, payload, rfl, ?_⟩
          rw [hstring, List.take_of_length_le (Nat.le_of_lt h)]
  | overSignal now currentTv =>
      have hok : ∃ mem', (mem.iteration (.overSignal now currentTv)).result = .ok mem' := by
        by_cases he : mem.relay.Expires currentTv
        · obtain ⟨payload, hdone, -⟩ := over_of_expires he now
          exact ⟨_, by rw [hdone]⟩
        · exact ⟨mem, by rw [over_of_not_expires he]⟩
      exact ⟨hok, hok⟩

theorem not_forwards_of_not_fits (mem : RelayMemory) {it : RelayIteration} (h : ¬ it.Fits) :
    ¬ Forwards it (mem.iteration it) := by
  intro hdone
  cases it with
  | overSignal now currentTv => exact h trivial
  | startSignal now received =>
      obtain ⟨i, -, hraise⟩ := start_outOfBounds mem now h
      rw [hraise] at hdone
      cases received with
      | failed =>
          obtain ⟨mem', hresult⟩ := hdone
          cases hresult
      | datagram bytes =>
          obtain ⟨mem', payload, hresult, -⟩ := hdone
          cases hresult

theorem not_forwarded_of_not_fits (now : Timeval) {iterations : List RelayIteration}
    {it : RelayIteration} (hmem : it ∈ iterations) (h : ¬ it.Fits) :
    ¬ Forwarded now iterations := by
  intro hall
  obtain ⟨k, hk⟩ := List.mem_iff_getElem?.mp hmem
  obtain ⟨v, hv, hforwards⟩ := hall k it hk
  obtain ⟨hinput, hdone⟩ := Logged.visits_input hv
  obtain rfl := Option.some.inj (hk.symm.trans hinput)
  rw [hdone] at hforwards
  exact not_forwards_of_not_fits v.before h hforwards

/-- **The relay forwards every datagram intact and in bounds**, exactly if each is shorter than
`MAX_PAYLOAD` and no `recvfrom` fails. -/
theorem forwarded_iff (now : Timeval) (iterations : List RelayIteration) :
    Forwarded now iterations ↔ ∀ it ∈ iterations, it.Fits := by
  constructor
  · intro hall it hmem
    exact Classical.not_not.mp fun h => not_forwarded_of_not_fits now hmem h hall
  · intro hfits k it hk
    have hstep : ∀ (j : Nat) (mem : RelayMemory) (x : RelayIteration), iterations[j]? = some x →
        True → ∃ mem', (mem.iteration x).result = .ok mem' ∧ True := by
      intro j mem x hx _
      obtain ⟨⟨mem', hok⟩, -⟩ := iteration_forwards mem (hfits x (List.mem_of_getElem? hx))
      exact ⟨mem', hok, trivial⟩
    obtain ⟨v, hv, rfl, -⟩ := Logged.visits_total (fun _ _ => True) trivial hstep hk
    refine ⟨v, hv, ?_⟩
    rw [(Logged.visits_input hv).2]
    exact (iteration_forwards v.before (hfits v.input (List.mem_of_getElem? hk))).2

/-- A datagram of `MAX_PAYLOAD` bytes and a failed `recvfrom`, each on its own. -/
theorem fullDatagram_not_forwarded :
    ¬ Forwarded ⟨0, 0⟩ [.startSignal ⟨0, 0⟩ (.datagram (List.replicate 1024 49))] ∧
      ¬ Forwarded ⟨0, 0⟩ [.startSignal ⟨0, 0⟩ .failed] := by
  constructor
  · refine not_forwarded_of_not_fits ⟨0, 0⟩ (List.mem_singleton_self _) ?_
    intro h
    have hlt : (List.replicate 1024 (49 : UInt8)).length < maxPayload := h
    rw [List.length_replicate] at hlt
    exact Nat.lt_irrefl 1024 hlt
  · exact not_forwarded_of_not_fits ⟨0, 0⟩ (List.mem_singleton_self _) id

end RelayMemory

/-! ## The relay without its memory -/

/-- What C takes for the text in these bytes. -/
def text (bytes : List UInt8) : String :=
  String.ofList ((bytes.takeWhile (· ≠ 0)).map Char.ofUInt8)

/-- The critical section of an iteration.  One that has received nothing never gets to its end. -/
def RelayIteration.toCriticalSection : RelayIteration → CriticalSection
  | .startSignal now (.datagram bytes) => .startSignal now (text bytes)
  | .startSignal now .failed => .startSignal now ""
  | .overSignal now currentTv => .overSignal now currentTv

namespace RelayMemory

def payloadText (payload : CArray payloadSize) : String := text payload.bytes

theorem payloadText_of_cString {payload : CArray payloadSize} {bytes : List UInt8}
    (h : payload.cString = some (bytes.takeWhile (· ≠ 0))) : payloadText payload = text bytes := by
  unfold CArray.cString at h
  split at h
  · rw [payloadText, text, Option.some.inj h, text]
  · cases h

/-- One iteration is a critical section of `Satcp.Relay`. -/
theorem iteration_refines (mem : RelayMemory) {it : RelayIteration} (h : it.Fits) :
    ∃ mem', (mem.iteration it).result = .ok mem' ∧ criticalSection mem.relay it.toCriticalSection =
      ⟨(mem.iteration it).log.map payloadText, .ok mem'.relay⟩ := by
  cases it with
  | startSignal now received =>
      cases received with
      | failed => exact absurd h id
      | datagram bytes =>
          obtain ⟨buffer, payload, hdone, hstring⟩ := start_forwards mem now h
          rw [hdone, RelayIteration.toCriticalSection, start_eq]
          exact ⟨_, rfl, by rw [List.map_singleton, payloadText_of_cString hstring]⟩
  | overSignal now currentTv =>
      rw [RelayIteration.toCriticalSection]
      by_cases he : mem.relay.Expires currentTv
      · obtain ⟨payload, hdone, hstring⟩ := over_of_expires he now
        have htext : payloadText payload = "0" :=
          payloadText_of_cString (show payload.cString = some ([48].takeWhile (· ≠ 0)) from hstring)
        rw [hdone, LeoEM.over_of_expires he]
        exact ⟨_, rfl, by rw [List.map_singleton, htext]⟩
      · rw [over_of_not_expires he, LeoEM.over_of_not_expires he]
        exact ⟨mem, rfl, rfl⟩

/-- **The relay's memory is no more than its text.**  As long as everything it receives fits,
the messages it sends read as those of the relay that gets the texts. -/
theorem relay_refines (now : Timeval) {iterations : List RelayIteration}
    (h : ∀ it ∈ iterations, it.Fits) (k : Nat) :
    Logged.logUpTo (relayRun now (iterations.map RelayIteration.toCriticalSection)) k =
      (Logged.logUpTo (run now iterations) k).map payloadText :=
  Logged.logUpTo_map relay RelayIteration.toCriticalSection payloadText
    (fun mem it hit => iteration_refines mem (h it hit)) (start now) k

/-- `nl_receive_handover_status`, on the bytes: the first one decides. -/
def nlReceiveHandoverStatus (payload : CArray payloadSize) : Bool :=
  payload.bytes.head? == some 49

/-- `handover_status` of the kernel module behind these messages. -/
def handoverStatus (messages : List (CArray payloadSize)) : Bool :=
  messages.foldl (fun _ payload => nlReceiveHandoverStatus payload) false

theorem ofUInt8_beq (c : UInt8) : (Char.ofUInt8 c == '1') = (c == 49) := by
  rw [Bool.eq_iff_iff, beq_iff_eq, beq_iff_eq]
  constructor
  · intro h
    have hnat : (Char.ofUInt8 c).toNat = 49 := congrArg Char.toNat h
    exact UInt8.toNat_inj.mp hnat
  · rintro rfl
    rfl

/-- The kernel decides by the first byte as by the first character. -/
theorem nlReceive_text (payload : CArray payloadSize) :
    LeoEM.nlReceiveHandoverStatus (payloadText payload) = nlReceiveHandoverStatus payload := by
  rw [LeoEM.nlReceiveHandoverStatus, nlReceiveHandoverStatus, payloadText, text,
    String.toList_ofList]
  cases payload.bytes with
  | nil => rfl
  | cons c rest =>
      by_cases hc : c = 0
      · rw [hc]
        rfl
      · rw [List.takeWhile_cons_of_pos (by simp [hc])]
        exact ofUInt8_beq c

/-- The status of the kernel module is that of the texts. -/
theorem status_refines (now : Timeval) {iterations : List RelayIteration}
    (h : ∀ it ∈ iterations, it.Fits) (k : Nat) :
    LeoEM.handoverStatus (Logged.logUpTo
      (relayRun now (iterations.map RelayIteration.toCriticalSection)) k) =
      handoverStatus (Logged.logUpTo (run now iterations) k) := by
  rw [relay_refines now h, LeoEM.handoverStatus, List.foldl_map]
  simp only [nlReceive_text]
  rfl

section InStep

variable {now : Timeval} {iterations : List RelayIteration} {k : Nat} {v : Visit}

/-- The relay that gets the texts is in the state of the one that gets the bytes. -/
theorem relay_visit (h : ∀ it ∈ iterations, it.Fits) (hv : (run now iterations)[k]? = some v) :
    ∃ w, (relayRun now (iterations.map RelayIteration.toCriticalSection))[k]? = some w ∧
      w.before = v.before.relay := by
  have hinput := (Logged.visits_input hv).1
  have hstep : ∀ (j : Nat) (v : Visit) (w : RelayVisit), j < k → (run now iterations)[j]? = some v →
      (relayRun now (iterations.map RelayIteration.toCriticalSection))[j]? = some w →
      w.before = v.before.relay →
      ∃ mem' r', v.done.result = .ok mem' ∧ w.done.result = .ok r' ∧ r' = mem'.relay := by
    intro j v w _ hv hw hR
    obtain ⟨hx, hdone⟩ := Logged.visits_input hv
    obtain ⟨hy, hdone'⟩ := Logged.visits_input hw
    rw [List.getElem?_map, hx] at hy
    obtain ⟨mem', hok, hsection⟩ := iteration_refines v.before (h _ (List.mem_of_getElem? hx))
    refine ⟨mem', mem'.relay, by rw [hdone, hok], ?_, rfl⟩
    rw [hdone', hR, ← Option.some.inj hy, hsection]
  obtain ⟨v', w, hv', hw, -, -, hbefore⟩ := Logged.visits_sim k
    (fun (mem : RelayMemory) (r : Relay) => r = mem.relay) rfl hstep (Nat.le_refl k) hinput
    (show (iterations.map RelayIteration.toCriticalSection)[k]? = some _ by
      rw [List.getElem?_map, hinput, Option.map_some])
  obtain rfl := Option.some.inj (hv.symm.trans hv')
  exact ⟨w, hw, hbefore⟩

/-- **On the bytes as on the texts**, relay and module are in step as long as every report begins
with a `1`. -/
theorem status_run (h : ∀ it ∈ iterations, it.Fits)
    (hup : ∀ it ∈ iterations, it.toCriticalSection.reportsUpcoming)
    (hv : (run now iterations)[k]? = some v) :
    handoverStatus (Logged.logUpTo (run now iterations) k) = true ↔
      v.before.relay.currentHandoverStatus = 1 := by
  obtain ⟨w, hw, hbefore⟩ := relay_visit h hv
  have hstatus := LeoEM.status_run (List.forall_mem_map.mpr hup) hw
  rwa [StatusBefore, status_refines now h, hbefore] at hstatus

end InStep

end RelayMemory

end LeoEM
