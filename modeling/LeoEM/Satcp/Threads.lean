/-
# `Satcp.Threads` — the threads of the relay, access by access

`Satcp.Payload` takes an iteration of a thread as one step.  Here the threads take turns at
every access to a global: a byte of the payload is a turn, and so is either field of `tv`.
A thread that finds the mutex taken stays where it is.

What makes an iteration one step all the same is the mutex, and that only the first thread has
`buffer` and `n`.  So `rest`, which is what a section would still do if it went on alone, is
the same before a turn of its thread and behind it, and no turn of the other thread changes
it.  From this every run is one of iterations, in the order in which they give the mutex
back (`threads_atomic`).
-/
import LeoEM.Base.Sections
import LeoEM.Satcp.Payload

namespace LeoEM

/-! ## The threads -/

inductive RelayThread where
  | startSignal
  | overSignal
  deriving DecidableEq

/-- The accesses of `wait_and_send_handover_start_signal`. -/
inductive StartPoint where
  /-- `n = recvfrom(sockfd, buffer, ...)` -/
  | receive
  | lock
  /-- `current_handover_status = 1` -/
  | setStatus
  /-- `gettimeofday(&tv, NULL)`, field by field -/
  | stampSec
  | stampUsec (now : Timeval)
  /-- `buffer[n] = '\0'` -/
  | terminate
  /-- `printf` of `buffer` -/
  | print
  /-- `strcpy(NLMSG_DATA(nlh), buffer)`, at its byte `i` -/
  | copy (i : Nat)
  | send
  | unlock

/-- The accesses of `wait_and_send_handover_over_signal`. -/
inductive OverPoint where
  | lock
  /-- `if (current_handover_status == 1)` -/
  | test
  /-- `satcp_expiration_time`, from the fields of `tv` -/
  | readSec
  | readUsec (tvSec : Int)
  /-- `if (satcp_expiration_time < current_time)`, which are local -/
  | compare (satcpExpirationTime : Rat)
  /-- `strcpy(NLMSG_DATA(nlh), "0")`, at its byte `i` -/
  | copy (i : Nat)
  | send
  /-- `current_handover_status = 0` -/
  | clear
  | unlock

/-- The relay's globals, the mutex and where its threads are.  `received` is what `recvfrom` has
come back with so far. -/
structure RelayThreads where
  memory : RelayMemory
  n : Int
  lock : Option RelayThread
  startPoint : StartPoint
  overPoint : OverPoint
  received : List Received

/-- A turn of a thread, with what the system answers if its access asks for it. -/
inductive RelayTurn where
  | startSignal (now : Timeval) (received : Received)
  | overSignal (now : Timeval) (currentTv : Timeval)

def RelayTurn.thread : RelayTurn → RelayThread
  | .startSignal _ _ => .startSignal
  | .overSignal _ _ => .overSignal

namespace RelayThreads

/-- `main`, up to the creation of the threads. -/
def start (now : Timeval) : RelayThreads :=
  ⟨RelayMemory.start now, 0, none, .receive, .lock, []⟩

def startTurn (s : RelayThreads) (now : Timeval) (received : Received) :
    Logged (CArray payloadSize) OutOfBounds RelayThreads :=
  match s.startPoint with
  | .receive =>
      let (buffer, n) := RelayMemory.recvfrom s.memory.buffer received
      pure { s with
        memory.buffer := buffer, n := n, startPoint := .lock,
        received := s.received ++ [received] }
  | .lock =>
      if s.lock = none then pure { s with lock := some .startSignal, startPoint := .setStatus }
      else pure s
  | .setStatus => pure { s with memory.relay.currentHandoverStatus := 1, startPoint := .stampSec }
  | .stampSec =>
      pure { s with memory.relay.tv.tvSec := now.tvSec, startPoint := .stampUsec now }
  | .stampUsec tv => pure { s with memory.relay.tv.tvUsec := tv.tvUsec, startPoint := .terminate }
  | .terminate => do
      let buffer ← Logged.ofExcept (s.memory.buffer.store s.n 0)
      pure { s with memory.buffer := buffer, startPoint := .print }
  | .print => do
      let _ ← Logged.ofExcept s.memory.buffer.readString
      pure { s with startPoint := .copy 0 }
  | .copy i =>
      match s.memory.buffer.bytes[i]? with
      | none => Logged.raise ⟨i⟩
      | some c => do
          let payload ← Logged.ofExcept (s.memory.payload.store i c)
          pure { s with
            memory.payload := payload, startPoint := if c = 0 then .send else .copy (i + 1) }
  | .send => do
      RelayMemory.sendmsg s.memory.payload
      pure { s with startPoint := .unlock }
  | .unlock => pure { s with lock := none, startPoint := .receive }

def overTurn (s : RelayThreads) (currentTv : Timeval) :
    Logged (CArray payloadSize) OutOfBounds RelayThreads :=
  match s.overPoint with
  | .lock =>
      if s.lock = none then pure { s with lock := some .overSignal, overPoint := .test }
      else pure s
  | .test =>
      pure { s with
        overPoint := if s.memory.relay.currentHandoverStatus = 1 then .readSec else .unlock }
  | .readSec => pure { s with overPoint := .readUsec s.memory.relay.tv.tvSec }
  | .readUsec tvSec =>
      let tv : Timeval := ⟨tvSec, s.memory.relay.tv.tvUsec⟩
      pure { s with overPoint := .compare (tv.seconds + satcpDuration) }
  | .compare satcpExpirationTime =>
      pure { s with
        overPoint := if satcpExpirationTime < currentTv.seconds then .copy 0 else .unlock }
  | .copy i =>
      match RelayMemory.overSignalText.bytes[i]? with
      | none => Logged.raise ⟨i⟩
      | some c => do
          let payload ← Logged.ofExcept (s.memory.payload.store i c)
          pure { s with
            memory.payload := payload, overPoint := if c = 0 then .send else .copy (i + 1) }
  | .send => do
      RelayMemory.sendmsg s.memory.payload
      pure { s with overPoint := .clear }
  | .clear => pure { s with memory.relay.currentHandoverStatus := 0, overPoint := .unlock }
  | .unlock => pure { s with lock := none, overPoint := .lock }

def turn (s : RelayThreads) : RelayTurn → Logged (CArray payloadSize) OutOfBounds RelayThreads
  | .startSignal now received => s.startTurn now received
  | .overSignal _ currentTv => s.overTurn currentTv

abbrev Visit := Logged.Visit RelayThreads RelayTurn (CArray payloadSize) OutOfBounds

/-- The relay, started at `now`, over the turns of its threads. -/
def run (now : Timeval) (turns : List RelayTurn) : List Visit :=
  Logged.visits turn (start now) turns

end RelayThreads

/-! ## What is left of a section -/

section Rest

variable (n : Int) (now currentTv : Timeval) (i : Nat) (mem : RelayMemory)

abbrev RelayRest := Logged (CArray payloadSize) OutOfBounds RelayMemory

namespace StartPoint

def restOfSend : RelayRest := do
  RelayMemory.sendmsg mem.payload
  pure mem

def restOfCopy : RelayRest := do
  let payload ← Logged.ofExcept (mem.payload.strcpyLoop i (mem.buffer.bytes.drop i))
  restOfSend { mem with payload := payload }

def restOfPrint : RelayRest := do
  let _ ← Logged.ofExcept mem.buffer.readString
  restOfCopy 0 mem

def restOfTerminate : RelayRest := do
  let buffer ← Logged.ofExcept (mem.buffer.store n 0)
  restOfPrint { mem with buffer := buffer }

/-- What a section of the first thread still does if it goes on alone; `now` is what
`gettimeofday` answers where it has not been asked yet. -/
def rest : StartPoint → RelayRest
  | .receive | .lock | .unlock => pure mem
  | .send => restOfSend mem
  | .copy i => restOfCopy i mem
  | .print => restOfPrint mem
  | .terminate => restOfTerminate n mem
  | .stampUsec tv => restOfTerminate n { mem with relay.tv.tvUsec := tv.tvUsec }
  | .stampSec => restOfTerminate n { mem with relay.tv := now }
  | .setStatus => restOfTerminate n { mem with relay := ⟨now, 1⟩ }

end StartPoint

namespace OverPoint

def restOfSend : RelayRest := do
  RelayMemory.sendmsg mem.payload
  pure { mem with relay.currentHandoverStatus := 0 }

def restOfCopy : RelayRest := do
  let payload ← Logged.ofExcept
    (mem.payload.strcpyLoop i (RelayMemory.overSignalText.bytes.drop i))
  restOfSend { mem with payload := payload }

def restOfCompare (satcpExpirationTime : Rat) : RelayRest :=
  if satcpExpirationTime < currentTv.seconds then restOfCopy 0 mem else pure mem

/-- What a section of the second thread still does; `currentTv` is what the local of that name
holds where it has not been read yet. -/
def rest : OverPoint → RelayRest
  | .lock | .unlock => pure mem
  | .clear => pure { mem with relay.currentHandoverStatus := 0 }
  | .send => restOfSend mem
  | .copy i => restOfCopy i mem
  | .compare satcpExpirationTime => restOfCompare currentTv mem satcpExpirationTime
  | .readUsec tvSec =>
      restOfCompare currentTv mem
        ((⟨tvSec, mem.relay.tv.tvUsec⟩ : Timeval).seconds + satcpDuration)
  | .readSec => restOfCompare currentTv mem mem.relay.satcpExpirationTime
  | .test =>
      if mem.relay.currentHandoverStatus = 1 then
        restOfCompare currentTv mem mem.relay.satcpExpirationTime
      else pure mem

end OverPoint

end Rest

/-- One byte of `strcpy`. -/
theorem strcpyLoop_drop {ω : Type} {m n : Nat} (dst : CArray m) (src : CArray n) {i : Nat}
    {c : UInt8} (h : src.bytes[i]? = some c) :
    (Logged.ofExcept (dst.strcpyLoop i (src.bytes.drop i)) : Logged ω OutOfBounds (CArray m)) =
      Logged.ofExcept (dst.store i c) >>= fun dst =>
        if c = 0 then pure dst
        else Logged.ofExcept (dst.strcpyLoop (i + 1) (src.bytes.drop (i + 1))) := by
  obtain ⟨hlt, hc⟩ := List.getElem?_eq_some_iff.mp h
  rw [List.drop_eq_getElem_cons hlt, hc, CArray.strcpyLoop]
  cases hstore : dst.store i c with
  | error e => rfl
  | ok dst' =>
      rw [Logged.ofExcept_ok_bind]
      dsimp only
      split <;> rfl

theorem strcpyLoop_end {m n : Nat} (dst : CArray m) (src : CArray n) {i : Nat}
    (h : src.bytes[i]? = none) : dst.strcpyLoop i (src.bytes.drop i) = .error ⟨i⟩ := by
  rw [List.drop_eq_nil_of_le (List.getElem?_eq_none_iff.mp h), CArray.strcpyLoop]

/-- In its critical section. -/
def StartPoint.inside : StartPoint → Bool
  | .receive | .lock => false
  | .setStatus | .stampSec | .stampUsec _ | .terminate | .print | .copy _ | .send | .unlock => true

def OverPoint.inside : OverPoint → Bool
  | .lock => false
  | .test | .readSec | .readUsec _ | .compare _ | .copy _ | .send | .clear | .unlock => true

/-- `gettimeofday` is still to be asked. -/
def StartPoint.asks : StartPoint → Bool
  | .setStatus | .stampSec => true
  | .receive | .lock | .stampUsec _ | .terminate | .print | .copy _ | .send | .unlock => false

/-- `current_tv` is still to be read. -/
def OverPoint.asks : OverPoint → Bool
  | .test | .readSec | .readUsec _ | .compare _ => true
  | .lock | .copy _ | .send | .clear | .unlock => false

/-- The access behind an access in the section. -/
inductive StartPoint.Next : StartPoint → StartPoint → Prop
  | setStatus : Next .setStatus .stampSec
  | stampSec (now : Timeval) : Next .stampSec (.stampUsec now)
  | stampUsec (tv : Timeval) : Next (.stampUsec tv) .terminate
  | terminate : Next .terminate .print
  | print : Next .print (.copy 0)
  | copy {i : Nat} : i < payloadSize → Next (.copy i) (.copy (i + 1))
  | nul {i : Nat} : i < payloadSize → Next (.copy i) .send
  | send : Next .send .unlock

inductive OverPoint.Next : OverPoint → OverPoint → Prop
  | test : Next .test .readSec
  | none : Next .test .unlock
  | readSec (tvSec : Int) : Next .readSec (.readUsec tvSec)
  | readUsec (tvSec : Int) (satcpExpirationTime : Rat) :
      Next (.readUsec tvSec) (.compare satcpExpirationTime)
  | expired (satcpExpirationTime : Rat) : Next (.compare satcpExpirationTime) (.copy 0)
  | early (satcpExpirationTime : Rat) : Next (.compare satcpExpirationTime) .unlock
  | copy {i : Nat} : i < payloadSize → Next (.copy i) (.copy (i + 1))
  | nul {i : Nat} : i < payloadSize → Next (.copy i) .send
  | send : Next .send .clear
  | clear : Next .clear .unlock

theorem StartPoint.Next.inside {p p' : StartPoint} (h : p.Next p') : p'.inside = true := by
  cases h <;> rfl

theorem OverPoint.Next.inside {p p' : OverPoint} (h : p.Next p') : p'.inside = true := by
  cases h <;> rfl

/-- Only the first turn of a section has `gettimeofday` still to be asked behind it. -/
theorem StartPoint.Next.asks {p p' : StartPoint} (h : p.Next p') (hasks : p'.asks = true) :
    p = .setStatus := by
  cases h with
  | setStatus => rfl
  | stampSec | stampUsec | terminate | print | copy | nul | send => cases hasks

/-- Comparing is the last turn of a section with `current_tv` still to be read. -/
theorem OverPoint.Next.asks {p p' : OverPoint} (h : p.Next p') (hasks : p'.asks = true) :
    p.asks = true ∧ ¬ ∃ e, p = .compare e := by
  cases h with
  | test | none | readSec | readUsec => exact ⟨rfl, fun ⟨_, he⟩ => by cases he⟩
  | expired | early | copy | nul | send | clear => cases hasks

theorem store_lt {n i : Nat} {a a' : CArray n} {c : UInt8} (h : a.store i c = .ok a') : i < n := by
  by_cases hi : i < n
  · exact hi
  · rw [CArray.store_error a (Or.inr (by omega))] at h
    cases h

namespace RelayThreads

variable {s s' : RelayThreads} {now currentTv t : Timeval} {received : Received}

/-- **A turn is taken from what is left** of the first thread's section. -/
theorem startTurn_rest (s : RelayThreads) (now : Timeval) (received : Received)
    (hin : s.startPoint.inside = true) (hunlock : s.startPoint ≠ .unlock)
    (ht : s.startPoint = .stampSec → t = now) :
    s.startPoint.rest s.n t s.memory =
      s.startTurn now received >>= fun s' => s'.startPoint.rest s'.n t s'.memory := by
  rw [startTurn]
  split
  next h => rw [h] at hin; cases hin
  next h => rw [h] at hin; cases hin
  next h => rw [h]; rfl
  next h => rw [h, ht h]; rfl
  next h => rw [h]; rfl
  next h =>
    rw [h, Logged.bind_assoc]
    exact congrArg (Logged.ofExcept (s.memory.buffer.store s.n 0) >>= ·)
      (funext fun buffer => (Logged.pure_bind _ _).symm)
  next h =>
    rw [h, Logged.bind_assoc]
    exact congrArg (Logged.ofExcept s.memory.buffer.readString >>= ·)
      (funext fun _ => (Logged.pure_bind _ _).symm)
  next i h =>
    rw [h, StartPoint.rest, StartPoint.restOfCopy]
    split
    next hnone =>
      rw [strcpyLoop_end _ _ hnone]
      rfl
    next c hsome =>
      rw [strcpyLoop_drop _ _ hsome, Logged.bind_assoc, Logged.bind_assoc]
      refine congrArg (Logged.ofExcept (s.memory.payload.store i c) >>= ·) (funext fun dst => ?_)
      rw [Logged.pure_bind]
      by_cases hc : c = 0
      · rw [if_pos hc, if_pos hc]
        exact Logged.pure_bind _ _
      · rw [if_neg hc, if_neg hc]
        rfl
  next h =>
    rw [h, Logged.bind_assoc]
    rfl
  next h => exact absurd h hunlock

/-- ... and from what is left of the second's, whatever the first does with `buffer`. -/
theorem overTurn_rest (s : RelayThreads) (currentTv : Timeval) (buffer : CArray maxPayload)
    (hin : s.overPoint.inside = true) (hunlock : s.overPoint ≠ .unlock)
    (ht : (∃ e, s.overPoint = .compare e) → t = currentTv) :
    s.overPoint.rest t ⟨s.memory.relay, buffer, s.memory.payload⟩ =
      s.overTurn currentTv >>= fun s' =>
        s'.overPoint.rest t ⟨s'.memory.relay, buffer, s'.memory.payload⟩ := by
  rw [overTurn]
  split
  next h => rw [h] at hin; cases hin
  next h =>
    rw [h, Logged.pure_bind, OverPoint.rest]
    dsimp only
    split <;> rfl
  next h => rw [h]; rfl
  next tvSec h => rw [h]; rfl
  next e h =>
    rw [h, Logged.pure_bind, OverPoint.rest, OverPoint.restOfCompare, ht ⟨e, h⟩]
    dsimp only
    split <;> rfl
  next i h =>
    rw [h, OverPoint.rest, OverPoint.restOfCopy]
    dsimp only
    split
    next hnone =>
      rw [strcpyLoop_end _ _ hnone]
      rfl
    next c hsome =>
      rw [strcpyLoop_drop _ _ hsome, Logged.bind_assoc, Logged.bind_assoc]
      refine congrArg (Logged.ofExcept (s.memory.payload.store i c) >>= ·) (funext fun dst => ?_)
      rw [Logged.pure_bind]
      by_cases hc : c = 0
      · rw [if_pos hc, if_pos hc]
        exact Logged.pure_bind _ _
      · rw [if_neg hc, if_neg hc]
        rfl
  next h =>
    rw [h, Logged.bind_assoc]
    rfl
  next h => rw [h]; rfl
  next h => exact absurd h hunlock

/-- What a turn in the first thread's section does to the rest. -/
structure StartFrame (s s' : RelayThreads) : Prop where
  lock : s'.lock = s.lock
  overPoint : s'.overPoint = s.overPoint
  received : s'.received = s.received
  next : s.startPoint.Next s'.startPoint

theorem startTurn_frame (hin : s.startPoint.inside = true) (hunlock : s.startPoint ≠ .unlock)
    (h : (s.startTurn now received).result = .ok s') : StartFrame s s' := by
  rw [startTurn] at h
  split at h
  next hp => rw [hp] at hin; cases hin
  next hp => rw [hp] at hin; cases hin
  next hp => obtain rfl := Except.ok.inj h; exact ⟨rfl, rfl, rfl, hp ▸ .setStatus⟩
  next hp => obtain rfl := Except.ok.inj h; exact ⟨rfl, rfl, rfl, hp ▸ .stampSec now⟩
  next tv hp => obtain rfl := Except.ok.inj h; exact ⟨rfl, rfl, rfl, hp ▸ .stampUsec tv⟩
  next hp =>
    obtain ⟨buffer, -, hnext⟩ := Logged.bind_eq_ok.mp h
    obtain rfl := Except.ok.inj hnext
    exact ⟨rfl, rfl, rfl, hp ▸ .terminate⟩
  next hp =>
    obtain ⟨_, -, hnext⟩ := Logged.bind_eq_ok.mp h
    obtain rfl := Except.ok.inj hnext
    exact ⟨rfl, rfl, rfl, hp ▸ .print⟩
  next i hp =>
    split at h
    next => cases h
    next c hc =>
      obtain ⟨payload, hstore, hnext⟩ := Logged.bind_eq_ok.mp h
      rw [Logged.ofExcept_result] at hstore
      obtain rfl := Except.ok.inj hnext
      refine ⟨rfl, rfl, rfl, ?_⟩
      rw [hp]
      dsimp only
      split
      · exact .nul (store_lt hstore)
      · exact .copy (store_lt hstore)
  next hp =>
    obtain ⟨_, -, hnext⟩ := Logged.bind_eq_ok.mp h
    obtain rfl := Except.ok.inj hnext
    exact ⟨rfl, rfl, rfl, hp ▸ .send⟩
  next hp => exact absurd hp hunlock

/-- What a turn in the second thread's section does to the rest. -/
structure OverFrame (s s' : RelayThreads) : Prop where
  lock : s'.lock = s.lock
  startPoint : s'.startPoint = s.startPoint
  n : s'.n = s.n
  buffer : s'.memory.buffer = s.memory.buffer
  received : s'.received = s.received
  next : s.overPoint.Next s'.overPoint

theorem overTurn_frame (hin : s.overPoint.inside = true) (hunlock : s.overPoint ≠ .unlock)
    (h : (s.overTurn currentTv).result = .ok s') : OverFrame s s' := by
  rw [overTurn] at h
  split at h
  next hp => rw [hp] at hin; cases hin
  next hp =>
    obtain rfl := Except.ok.inj h
    refine ⟨rfl, rfl, rfl, rfl, rfl, ?_⟩
    rw [hp]
    dsimp only
    split
    · exact .test
    · exact .none
  next hp => obtain rfl := Except.ok.inj h; exact ⟨rfl, rfl, rfl, rfl, rfl, hp ▸ .readSec _⟩
  next tvSec hp =>
    obtain rfl := Except.ok.inj h
    exact ⟨rfl, rfl, rfl, rfl, rfl, hp ▸ .readUsec tvSec _⟩
  next e hp =>
    obtain rfl := Except.ok.inj h
    refine ⟨rfl, rfl, rfl, rfl, rfl, ?_⟩
    rw [hp]
    dsimp only
    split
    · exact .expired e
    · exact .early e
  next i hp =>
    split at h
    next => cases h
    next c hc =>
      obtain ⟨payload, hstore, hnext⟩ := Logged.bind_eq_ok.mp h
      rw [Logged.ofExcept_result] at hstore
      obtain rfl := Except.ok.inj hnext
      refine ⟨rfl, rfl, rfl, rfl, rfl, ?_⟩
      rw [hp]
      dsimp only
      split
      · exact .nul (store_lt hstore)
      · exact .copy (store_lt hstore)
  next hp =>
    obtain ⟨_, -, hnext⟩ := Logged.bind_eq_ok.mp h
    obtain rfl := Except.ok.inj hnext
    exact ⟨rfl, rfl, rfl, rfl, rfl, hp ▸ .send⟩
  next hp => obtain rfl := Except.ok.inj h; exact ⟨rfl, rfl, rfl, rfl, rfl, hp ▸ .clear⟩
  next hp => exact absurd hp hunlock

end RelayThreads

/-! ## Turns and iterations -/

/-- What an iteration has received. -/
def RelayIteration.received : RelayIteration → Option Received
  | .startSignal _ received => some received
  | .overSignal _ _ => none

/-- What the system answers in the iteration it answers in one of the turns. -/
def RelayIteration.TakenFrom (turns : List RelayTurn) : RelayIteration → Prop
  | .startSignal now received =>
      (∃ r, .startSignal now r ∈ turns) ∧ ∃ t, .startSignal t received ∈ turns
  | .overSignal now currentTv => .overSignal now currentTv ∈ turns

/-- A section of the first thread begins behind `recvfrom`. -/
theorem start_rest {mem m : RelayMemory} {n : Int} {received : Received} (now : Timeval)
    (hbuffer : (mem.buffer, n) = RelayMemory.recvfrom m.buffer received)
    (hpayload : mem.payload = m.payload) :
    m.iteration (.startSignal now received) = StartPoint.rest n now mem .setStatus := by
  rw [RelayMemory.iteration, RelayMemory.waitAndSendHandoverStartSignal, ← hbuffer, ← hpayload]
  rfl

theorem over_rest {mem m : RelayMemory} (now currentTv : Timeval) (hrelay : mem.relay = m.relay)
    (hpayload : mem.payload = m.payload) : m.iteration (.overSignal now currentTv) =
      OverPoint.rest currentTv ⟨mem.relay, m.buffer, mem.payload⟩ .test := by
  rw [hrelay, hpayload]
  rfl

/-- What the system is asked for in a section: before that a section goes on with any answer,
and behind it with one of the answers there are. -/
def Answered (asks : Bool) (answers goesOn : Timeval → Prop) : Prop :=
  (asks = true ∧ ∀ t, goesOn t) ∨ (asks = false ∧ ∃ t, answers t ∧ goesOn t)

section Answers

variable {asks asks' : Bool} {answers goesOn goesOn' : Timeval → Prop} {reads : Prop}
  {t₀ : Timeval}

theorem Answered.exists (h : Answered asks answers goesOn) (h₀ : answers t₀)
    (hreads : reads → asks = true) : ∃ t, answers t ∧ (reads → t = t₀) ∧ goesOn t := by
  rcases h with ⟨-, hall⟩ | ⟨hasks, t, ht, hgoes⟩
  · exact ⟨t₀, h₀, fun _ => rfl, hall t₀⟩
  · refine ⟨t, ht, fun hr => ?_, hgoes⟩
    rw [hreads hr] at hasks
    cases hasks

theorem Answered.next (h : Answered asks answers goesOn) (h₀ : answers t₀)
    (hreads : reads → asks = true) (hasks : asks' = true → asks = true ∧ ¬ reads)
    (hnext : ∀ t, (reads → t = t₀) → goesOn t → goesOn' t) : Answered asks' answers goesOn' := by
  cases hcase : asks' with
  | false =>
      obtain ⟨t, ht, hread, hgoes⟩ := h.exists h₀ hreads
      exact Or.inr ⟨rfl, t, ht, hnext t hread hgoes⟩
  | true =>
      obtain ⟨hask, hno⟩ := hasks hcase
      rcases h with ⟨-, hall⟩ | ⟨hfalse, -⟩
      · exact Or.inl ⟨rfl, fun t => hnext t (fun hr => absurd hr hno) (hall t)⟩
      · rw [hask] at hfalse
        cases hfalse

end Answers

namespace RelayThreads

section Atomic

variable (turns : List RelayTurn)

/-- The first thread is outside, before `recvfrom` or with what came of it; `m` is the memory
behind the iterations. -/
def Waiting (iterations : List RelayIteration) (s : RelayThreads) (m : RelayMemory) : Prop :=
  (s.startPoint = .receive ∧ s.memory.buffer = m.buffer ∧
    iterations.filterMap RelayIteration.received = s.received) ∨
  (s.startPoint = .lock ∧ ∃ received, (∃ t, .startSignal t received ∈ turns) ∧
    (s.memory.buffer, s.n) = RelayMemory.recvfrom m.buffer received ∧
    iterations.filterMap RelayIteration.received ++ [received] = s.received)

/-- The mutex is free. -/
structure Free (iterations : List RelayIteration) (s : RelayThreads) (m : RelayMemory) : Prop where
  lock : s.lock = none
  overPoint : s.overPoint = .lock
  waiting : Waiting turns iterations s m
  relay : s.memory.relay = m.relay
  payload : s.memory.payload = m.payload

/-- The first thread has it, and its section goes on as the iteration with these answers. -/
structure InStart (iterations : List RelayIteration) (s : RelayThreads) (m : RelayMemory)
    (log : List (CArray payloadSize)) : Prop where
  lock : s.lock = some .startSignal
  overPoint : s.overPoint = .lock
  inside : s.startPoint.inside = true
  resumes : ∃ received, (∃ t, .startSignal t received ∈ turns) ∧
    iterations.filterMap RelayIteration.received ++ [received] = s.received ∧
    Answered s.startPoint.asks (fun now => ∃ r, .startSignal now r ∈ turns) fun now =>
      m.iteration (.startSignal now received) =
        Logged.behind log (s.startPoint.rest s.n now s.memory)

/-- The second thread has it. -/
structure InOver (iterations : List RelayIteration) (s : RelayThreads) (m : RelayMemory)
    (log : List (CArray payloadSize)) : Prop where
  lock : s.lock = some .overSignal
  waiting : Waiting turns iterations s m
  inside : s.overPoint.inside = true
  resumes : Answered s.overPoint.asks (fun currentTv => ∃ now, .overSignal now currentTv ∈ turns)
    fun currentTv => ∀ now, m.iteration (.overSignal now currentTv) =
      Logged.behind log (s.overPoint.rest currentTv ⟨s.memory.relay, m.buffer, s.memory.payload⟩)

variable {turns} {iterations : List RelayIteration} {s : RelayThreads} {m : RelayMemory}
  {log : List (CArray payloadSize)} {now currentTv : Timeval} {received : Received}

theorem startTurn_receive (hp : s.startPoint = .receive) :
    s.startTurn now received = ⟨[], .ok { s with
      memory.buffer := (RelayMemory.recvfrom s.memory.buffer received).1,
      n := (RelayMemory.recvfrom s.memory.buffer received).2, startPoint := .lock,
      received := s.received ++ [received] }⟩ := by
  rw [startTurn, hp]
  rfl

theorem startTurn_lock (hp : s.startPoint = .lock) (hlock : s.lock = none) :
    s.startTurn now received =
      ⟨[], .ok { s with lock := some .startSignal, startPoint := .setStatus }⟩ := by
  rw [startTurn, hp]
  dsimp only
  rw [if_pos hlock]
  rfl

theorem startTurn_blocked (hp : s.startPoint = .lock) (hlock : s.lock ≠ none) :
    s.startTurn now received = ⟨[], .ok s⟩ := by
  rw [startTurn, hp]
  dsimp only
  rw [if_neg hlock]
  rfl

theorem overTurn_lock (hp : s.overPoint = .lock) (hlock : s.lock = none) :
    s.overTurn currentTv = ⟨[], .ok { s with lock := some .overSignal, overPoint := .test }⟩ := by
  rw [overTurn, hp]
  dsimp only
  rw [if_pos hlock]
  rfl

theorem overTurn_blocked (hp : s.overPoint = .lock) (hlock : s.lock ≠ none) :
    s.overTurn currentTv = ⟨[], .ok s⟩ := by
  rw [overTurn, hp]
  dsimp only
  rw [if_neg hlock]
  rfl

/-- The first thread outside receives, or finds the mutex free and takes it. -/
theorem startTurn_waiting (h : Waiting turns iterations s m)
    (ht : .startSignal now received ∈ turns) :
    (∃ s', s.startTurn now received = ⟨[], .ok s'⟩ ∧ Waiting turns iterations s' m ∧
      s'.lock = s.lock ∧ s'.overPoint = s.overPoint ∧ s'.memory.relay = s.memory.relay ∧
      s'.memory.payload = s.memory.payload) ∨
    (s.lock = none ∧ s.startPoint = .lock ∧
      s.startTurn now received =
        ⟨[], .ok { s with lock := some .startSignal, startPoint := .setStatus }⟩) := by
  rcases h with ⟨hp, hbuffer, hreceived⟩ | ⟨hp, r, hr, hbuffer, hreceived⟩
  · refine Or.inl ⟨_, startTurn_receive hp, Or.inr ⟨rfl, received, ⟨now, ht⟩, ?_, ?_⟩,
      rfl, rfl, rfl, rfl⟩
    · rw [hbuffer]
    · rw [hreceived]
  · by_cases hfree : s.lock = none
    · exact Or.inr ⟨hfree, hp, startTurn_lock hp hfree⟩
    · exact Or.inl ⟨s, startTurn_blocked hp hfree, Or.inr ⟨hp, r, hr, hbuffer, hreceived⟩,
        rfl, rfl, rfl, rfl⟩

/-- **Turns while the mutex is free.** -/
theorem turn_free (h : Free turns iterations s m) {t : RelayTurn} (ht : t ∈ turns) :
    ∃ s', s.turn t = ⟨[], .ok s'⟩ ∧
      (Free turns iterations s' m ∨ InStart turns iterations s' m [] ∨
        InOver turns iterations s' m []) := by
  cases t with
  | startSignal now received =>
      rcases startTurn_waiting h.waiting ht with
        ⟨s', hturn, hwaiting, hlock, hover, hrelay, hpayload⟩ | ⟨-, hp, hturn⟩
      · exact ⟨s', hturn, Or.inl ⟨hlock.trans h.lock, hover.trans h.overPoint, hwaiting,
          hrelay.trans h.relay, hpayload.trans h.payload⟩⟩
      · refine ⟨_, hturn, Or.inr (Or.inl ⟨rfl, h.overPoint, rfl, ?_⟩)⟩
        rcases h.waiting with ⟨hreceive, -⟩ | ⟨-, r, hr, hbuffer, hreceived⟩
        · rw [hp] at hreceive
          cases hreceive
        · refine ⟨r, hr, hreceived, Or.inl ⟨rfl, fun now => ?_⟩⟩
          exact (start_rest now hbuffer h.payload).trans (Logged.behind_nil _).symm
  | overSignal now currentTv =>
      refine ⟨_, overTurn_lock h.overPoint h.lock,
        Or.inr (Or.inr ⟨rfl, h.waiting, rfl, Or.inl ⟨rfl, fun currentTv now => ?_⟩⟩)⟩
      exact (over_rest now currentTv h.relay h.payload).trans (Logged.behind_nil _).symm

theorem turn_ok_or (s : RelayThreads) (t : RelayTurn) :
    (∃ l s', s.turn t = ⟨l, .ok s'⟩) ∨ ∃ l e, s.turn t = ⟨l, .error e⟩ := by
  cases h : s.turn t with
  | mk l result =>
      cases result with
      | ok s' => exact Or.inl ⟨l, s', rfl⟩
      | error e => exact Or.inr ⟨l, e, rfl⟩

/-- **Turns while the first thread has the mutex.** -/
theorem turn_inStart (h : InStart turns iterations s m log) {t : RelayTurn} (ht : t ∈ turns) :
    (∃ l s', s.turn t = ⟨l, .ok s'⟩ ∧ InStart turns iterations s' m (log ++ l)) ∨
    (∃ it l s' m', it.TakenFrom turns ∧ s.turn t = ⟨l, .ok s'⟩ ∧
      m.iteration it = ⟨log ++ l, .ok m'⟩ ∧ Free turns (iterations ++ [it]) s' m') ∨
    (∃ it l e, it.TakenFrom turns ∧ s.turn t = ⟨l, .error e⟩ ∧
      m.iteration it = ⟨log ++ l, .error e⟩) := by
  obtain ⟨hlock, hover, hin, r, hr, hreceived, hresumes⟩ := h
  cases t with
  | overSignal now currentTv =>
      refine Or.inl ⟨[], s, overTurn_blocked hover (by rw [hlock]; exact nofun), hlock, hover, hin,
        r, hr, hreceived, ?_⟩
      rwa [List.append_nil]
  | startSignal now received =>
      have hasks : s.startPoint = .stampSec → s.startPoint.asks = true := fun hp => by rw [hp]; rfl
      obtain ⟨t, hturns, hstamp, hiter⟩ := hresumes.exists ⟨received, ht⟩ hasks
      by_cases hunlock : s.startPoint = .unlock
      · have hturn : s.turn (.startSignal now received) =
            ⟨[], .ok { s with lock := none, startPoint := .receive }⟩ := by
          rw [turn, startTurn, hunlock]
          rfl
        refine Or.inr (Or.inl ⟨.startSignal t r, [], _, s.memory, ⟨hturns, hr⟩, hturn, ?_,
          rfl, hover, Or.inl ⟨rfl, rfl, ?_⟩, rfl, rfl⟩)
        · rw [hiter, hunlock]
          rfl
        · rw [List.filterMap_append, ← hreceived]
          rfl
      · rcases turn_ok_or s (.startSignal now received) with ⟨l, s', hturn⟩ | ⟨l, e, hturn⟩
        · have hframe := startTurn_frame hin hunlock (congrArg Logged.result hturn)
          refine Or.inl ⟨l, s', hturn, hframe.lock.trans hlock, hframe.overPoint.trans hover,
            hframe.next.inside, r, hr, hreceived.trans hframe.received.symm,
            hresumes.next ⟨received, ht⟩ hasks (fun hask => ?_) fun t hstamp hiter => ?_⟩
          · have hp := hframe.next.asks hask
            rw [hp]
            exact ⟨rfl, nofun⟩
          · rw [startTurn_rest s now received hin hunlock hstamp] at hiter
            exact hiter.trans (Logged.behind_bind_ok hturn log _)
        · refine Or.inr (Or.inr ⟨.startSignal t r, l, e, ⟨hturns, hr⟩, hturn, ?_⟩)
          rw [startTurn_rest s now received hin hunlock hstamp] at hiter
          exact hiter.trans (Logged.behind_bind_error hturn log _)

/-- **Turns while the second thread has it.** -/
theorem turn_inOver (h : InOver turns iterations s m log) {t : RelayTurn} (ht : t ∈ turns) :
    (∃ l s', s.turn t = ⟨l, .ok s'⟩ ∧ InOver turns iterations s' m (log ++ l)) ∨
    (∃ it l s' m', it.TakenFrom turns ∧ s.turn t = ⟨l, .ok s'⟩ ∧
      m.iteration it = ⟨log ++ l, .ok m'⟩ ∧ Free turns (iterations ++ [it]) s' m') ∨
    (∃ it l e, it.TakenFrom turns ∧ s.turn t = ⟨l, .error e⟩ ∧
      m.iteration it = ⟨log ++ l, .error e⟩) := by
  obtain ⟨hlock, hwaiting, hin, hresumes⟩ := h
  cases t with
  | startSignal now received =>
      rcases startTurn_waiting hwaiting ht with
        ⟨s', hturn, hwaiting', hlock', hover, hrelay, hpayload⟩ | ⟨hfree, -, -⟩
      · refine Or.inl ⟨[], s', hturn, hlock'.trans hlock, hwaiting', hover ▸ hin, ?_⟩
        rw [hover, List.append_nil, hrelay, hpayload]
        exact hresumes
      · rw [hlock] at hfree
        cases hfree
  | overSignal now currentTv =>
      have hasks : (∃ e, s.overPoint = .compare e) → s.overPoint.asks = true := by
        rintro ⟨e, hp⟩
        rw [hp]
        rfl
      obtain ⟨t, ⟨now', hturns⟩, hread, hiter⟩ := hresumes.exists ⟨now, ht⟩ hasks
      by_cases hunlock : s.overPoint = .unlock
      · have hturn : s.turn (.overSignal now currentTv) =
            ⟨[], .ok { s with lock := none, overPoint := .lock }⟩ := by
          rw [turn, overTurn, hunlock]
          rfl
        refine Or.inr (Or.inl ⟨.overSignal now' t, [], _,
          ⟨s.memory.relay, m.buffer, s.memory.payload⟩, hturns, hturn, ?_, rfl, rfl, ?_, rfl, rfl⟩)
        · rw [hiter, hunlock]
          rfl
        · rw [Waiting, List.filterMap_append]
          simp only [List.filterMap_cons, List.filterMap_nil, RelayIteration.received,
            List.append_nil]
          exact hwaiting
      · rcases turn_ok_or s (.overSignal now currentTv) with ⟨l, s', hturn⟩ | ⟨l, e, hturn⟩
        · have hframe := overTurn_frame hin hunlock (congrArg Logged.result hturn)
          refine Or.inl ⟨l, s', hturn, hframe.lock.trans hlock, ?_, hframe.next.inside,
            hresumes.next ⟨now, ht⟩ hasks hframe.next.asks fun t hread hiter now' => ?_⟩
          · rw [Waiting, hframe.startPoint, hframe.buffer, hframe.n, hframe.received]
            exact hwaiting
          · have hgoes := hiter now'
            rw [overTurn_rest s currentTv m.buffer hin hunlock hread] at hgoes
            exact hgoes.trans (Logged.behind_bind_ok hturn log _)
        · refine Or.inr (Or.inr ⟨.overSignal now' t, l, e, hturns, hturn, ?_⟩)
          have hgoes := hiter now'
          rw [overTurn_rest s currentTv m.buffer hin hunlock hread] at hgoes
          exact hgoes.trans (Logged.behind_bind_error hturn log _)

end Atomic

end RelayThreads

/-! ## Runs -/

namespace RelayThreads

/-- A thread is in its critical section exactly while it has the mutex. -/
def Exclusive (s : RelayThreads) : Prop :=
  (s.startPoint.inside = true ↔ s.lock = some .startSignal) ∧
    (s.overPoint.inside = true ↔ s.lock = some .overSignal)

/-- The state is that behind these iterations, but for one that is going on. -/
structure Serial (now : Timeval) (turns : List RelayTurn) (k : Nat) (s : RelayThreads)
    (iterations : List RelayIteration) (m : RelayMemory) (sent : List (CArray payloadSize)) :
    Prop where
  taken : ∀ it ∈ iterations, it.TakenFrom turns
  behind : Logged.loop RelayMemory.iteration (RelayMemory.start now) iterations = ⟨sent, .ok m⟩
  exclusive : s.Exclusive
  /-- Each datagram goes into one iteration, in the order in which they have come. -/
  received : (s.startPoint = .receive ∧
      iterations.filterMap RelayIteration.received = s.received) ∨
    (s.startPoint ≠ .receive ∧
      ∃ r, iterations.filterMap RelayIteration.received ++ [r] = s.received)
  free : s.lock = none → Logged.logUpTo (run now turns) k = sent ∧
    s.memory.relay = m.relay ∧ s.memory.payload = m.payload ∧
    (s.startPoint = .receive → s.memory.buffer = m.buffer)
  /-- What has been sent besides is of the iteration that is going on. -/
  held : ∃ l, Logged.logUpTo (run now turns) k = sent ++ l ∧
    (l = [] ∨ ∃ it : RelayIteration, (∀ r, it.received = some r → ∃ t, .startSignal t r ∈ turns) ∧
      l <+: (m.iteration it).log)

section Serial

variable {turns : List RelayTurn} {iterations : List RelayIteration} {s : RelayThreads}
  {m : RelayMemory} {log : List (CArray payloadSize)} {now : Timeval}

theorem Waiting.outside (h : Waiting turns iterations s m) : s.startPoint.inside = false := by
  rcases h with ⟨hp, -⟩ | ⟨hp, -⟩ <;> rw [hp] <;> rfl

theorem Waiting.received (h : Waiting turns iterations s m) :
    (s.startPoint = .receive ∧ iterations.filterMap RelayIteration.received = s.received) ∨
    (s.startPoint ≠ .receive ∧
      ∃ r, iterations.filterMap RelayIteration.received ++ [r] = s.received) := by
  rcases h with ⟨hp, -, hreceived⟩ | ⟨hp, r, -, -, hreceived⟩
  · exact Or.inl ⟨hp, hreceived⟩
  · exact Or.inr ⟨by rw [hp]; exact nofun, r, hreceived⟩

theorem Free.exclusive (h : Free turns iterations s m) : s.Exclusive := by
  rw [Exclusive, h.waiting.outside, h.overPoint, h.lock]
  exact ⟨iff_of_false Bool.false_ne_true nofun, iff_of_false Bool.false_ne_true nofun⟩

theorem InStart.exclusive (h : InStart turns iterations s m log) : s.Exclusive := by
  rw [Exclusive, h.inside, h.overPoint, h.lock]
  exact ⟨iff_of_true rfl rfl, iff_of_false Bool.false_ne_true nofun⟩

theorem InOver.exclusive (h : InOver turns iterations s m log) : s.Exclusive := by
  rw [Exclusive, h.waiting.outside, h.inside, h.lock]
  exact ⟨iff_of_false Bool.false_ne_true nofun, iff_of_true rfl rfl⟩

/-- What a section has sent is of its iteration. -/
theorem InStart.sends (h : InStart turns iterations s m log) : ∃ it : RelayIteration,
    (∀ r, it.received = some r → ∃ t, .startSignal t r ∈ turns) ∧ log <+: (m.iteration it).log := by
  obtain ⟨r, ⟨t, hr⟩, -, hresumes⟩ := h.resumes
  obtain ⟨now, hiter⟩ : ∃ now, m.iteration (.startSignal now r) =
      Logged.behind log (s.startPoint.rest s.n now s.memory) :=
    hresumes.elim (fun h => ⟨t, h.2 t⟩) fun ⟨_, now, _, hiter⟩ => ⟨now, hiter⟩
  refine ⟨.startSignal now r, fun r' hr' => ⟨t, Option.some.inj hr' ▸ hr⟩, ?_⟩
  rw [hiter]
  exact List.prefix_append _ _

theorem InOver.sends (h : InOver turns iterations s m log) : ∃ it : RelayIteration,
    (∀ r, it.received = some r → ∃ t, .startSignal t r ∈ turns) ∧ log <+: (m.iteration it).log := by
  obtain ⟨currentTv, hiter⟩ : ∃ currentTv, ∀ now, m.iteration (.overSignal now currentTv) =
      Logged.behind log (s.overPoint.rest currentTv
        ⟨s.memory.relay, m.buffer, s.memory.payload⟩) :=
    h.resumes.elim (fun h => ⟨⟨0, 0⟩, h.2 ⟨0, 0⟩⟩) fun ⟨_, t, _, hiter⟩ => ⟨t, hiter⟩
  refine ⟨.overSignal currentTv currentTv, nofun, ?_⟩
  rw [hiter]
  exact List.prefix_append _ _

/-- The iterations of the relay as sections of its turns. -/
def sections (turns : List RelayTurn) :
    Logged.Sections turn RelayMemory.iteration (· ∈ turns) (RelayIteration.TakenFrom turns) where
  free := Free turns
  inside iterations s m log := InStart turns iterations s m log ∨ InOver turns iterations s m log
  turn_free h ht := turn_free h ht
  turn_inside h ht := h.elim
    (fun h => (turn_inStart h ht).imp_left fun ⟨l, s', hturn, hin⟩ => ⟨l, s', hturn, Or.inl hin⟩)
    fun h => (turn_inOver h ht).imp_left fun ⟨l, s', hturn, hin⟩ => ⟨l, s', hturn, Or.inr hin⟩

theorem serial_run {k : Nat} {v : Visit} (hv : (run now turns)[k]? = some v) :
    ∃ iterations m sent, Serial now turns k v.before iterations m sent ∧
      ∀ e, v.done.result = .error e → ∃ it : RelayIteration, it.TakenFrom turns ∧
        Logged.loop RelayMemory.iteration (RelayMemory.start now) (iterations ++ [it]) =
          ⟨Logged.logUpTo (run now turns) (k + 1), .error e⟩ := by
  have hstart : (sections turns).free [] (start now) (RelayMemory.start now) :=
    ⟨rfl, rfl, Or.inl ⟨rfl, rfl, rfl⟩, rfl, rfl⟩
  obtain ⟨iterations, m, sent, hshows⟩ := (sections turns).before hstart (fun _ h => h) hv
  refine ⟨iterations, m, sent, ?_,
    fun e he => (sections turns).raises (fun _ h => h) hv hshows he⟩
  obtain ⟨htaken, hloop, ⟨hfree, hup⟩ | ⟨l, hin | hin, hup⟩⟩ := hshows
  · refine ⟨htaken, hloop, hfree.exclusive, hfree.waiting.received,
      fun _ => ⟨hup, hfree.relay, hfree.payload, fun hp => ?_⟩, [], ?_, Or.inl rfl⟩
    · rcases hfree.waiting with ⟨-, hbuffer, -⟩ | ⟨hlock, -⟩
      · exact hbuffer
      · rw [hp] at hlock
        cases hlock
    · rw [List.append_nil]
      exact hup
  · obtain ⟨r, -, hreceived, -⟩ := hin.resumes
    refine ⟨htaken, hloop, hin.exclusive, Or.inr ⟨fun hp => ?_, r, hreceived⟩, fun hnone => ?_,
      l, hup, Or.inr hin.sends⟩
    · have hinside := hin.inside
      rw [hp] at hinside
      cases hinside
    · rw [hin.lock] at hnone
      cases hnone
  · refine ⟨htaken, hloop, hin.exclusive, hin.waiting.received, fun hnone => ?_,
      l, hup, Or.inr hin.sends⟩
    rw [hin.lock] at hnone
    cases hnone

end Serial

end RelayThreads

/-- **The mutex makes the relay's sections atomic.**  In every run of the two threads, whichever
takes the next access, at most one is in its critical section.  Whenever the mutex is free,
the globals are those behind iterations of `Satcp.Payload` one after the other, with what the
system answered in the turns, each datagram in one of them and in the order of `recvfrom`, and
the messages sent are theirs.  While it is not, all that is there besides is what the iteration
that is going on has sent, and an access out of bounds is out of bounds in that iteration. -/
theorem threads_atomic (now : Timeval) (turns : List RelayTurn) (k : Nat) (v : RelayThreads.Visit)
    (hv : (RelayThreads.run now turns)[k]? = some v) :
    ∃ iterations m sent, RelayThreads.Serial now turns k v.before iterations m sent ∧
      (∀ it, (RelayMemory.run now (iterations ++ [it]))[iterations.length]? =
          some ⟨it, m, m.iteration it⟩ ∧
        Logged.logUpTo (RelayMemory.run now (iterations ++ [it])) iterations.length = sent) ∧
      ∀ e, v.done.result = .error e → ∃ it : RelayIteration, it.TakenFrom turns ∧
        Logged.loop RelayMemory.iteration (RelayMemory.start now) (iterations ++ [it]) =
          ⟨Logged.logUpTo (RelayThreads.run now turns) (k + 1), .error e⟩ := by
  obtain ⟨iterations, m, sent, hserial, hraises⟩ := RelayThreads.serial_run hv
  exact ⟨iterations, m, sent, hserial, fun it => Logged.visits_of_loop hserial.behind, hraises⟩

/-- The first thread has been through an iteration.  The second one has the mutex, and the first
waits for it with the next report. -/
def nextWaits : List RelayTurn :=
  List.replicate 11 (.startSignal ⟨1, 0⟩ (.datagram [49])) ++
    [.overSignal ⟨1, 0⟩ ⟨0, 0⟩, .startSignal ⟨2, 0⟩ (.datagram [49]),
      .startSignal ⟨2, 0⟩ (.datagram [49])]

theorem threads_atomic_nextWaits : ∃ (v : RelayThreads.Visit) (iterations : List RelayIteration)
    (m : RelayMemory) (sent : List (CArray payloadSize)),
    (RelayThreads.run ⟨0, 0⟩ nextWaits)[13]? = some v ∧ v.before.lock = some .overSignal ∧
      v.before.startPoint = .lock ∧
      iterations.filterMap RelayIteration.received = [.datagram [49]] ∧
      RelayThreads.Serial ⟨0, 0⟩ nextWaits 13 v.before iterations m sent := by
  have hrun : ∃ v, (RelayThreads.run ⟨0, 0⟩ nextWaits)[13]? = some v ∧
      v.before.lock = some .overSignal ∧ v.before.startPoint = .lock ∧
      v.before.received = [.datagram [49], .datagram [49]] := ⟨_, rfl, rfl, rfl, rfl⟩
  obtain ⟨v, hv, hlock, hpoint, hreceived⟩ := hrun
  obtain ⟨iterations, m, sent, hserial, -⟩ := threads_atomic ⟨0, 0⟩ nextWaits 13 v hv
  refine ⟨v, iterations, m, sent, hv, hlock, hpoint, ?_, hserial⟩
  rcases hserial.received with ⟨hreceive, -⟩ | ⟨-, r, hsplit⟩
  · rw [hpoint] at hreceive
    cases hreceive
  · have hlast : iterations.filterMap RelayIteration.received ++ [r] =
        [.datagram [49]] ++ [.datagram [49]] := hsplit.trans hreceived
    exact (List.append_inj' hlast rfl).1

end LeoEM
