/-
# `Link.Intf` — an interface that configures itself by `tc`

`TCIntf` of `link_smooth.py`.  A call of `config` decides whether it may change the traffic
control in place, by what the last call stored, and issues the commands for the bandwidth
and for the delay.  A command stands for its text, and a number in it for the printed number.
-/
import LeoEM.Base.Tc
import LeoEM.Emulator.Network
import Mathlib.Data.Rat.Defs

namespace LeoEM

/-! ## The disciplines in use -/

inductive QdiscKind where
  /-- `htb default 1` -/
  | htb (defaultClass : Nat)
  /-- `hfsc default 1` -/
  | hfsc (defaultClass : Nat)
  /-- `tbf rate %fMbit burst 15000 latency %fms` -/
  | tbf (rate : Int) (burst : Nat) (latency : ℚ)
  /-- `red limit 1000000 min 30000 max 35000 avpkt 1500 burst 20 bandwidth %fmbit probability 1`,
  with `ecn` behind it or not -/
  | red (limit min max avpkt burst : Nat) (bandwidth : Int) (probability : Nat) (ecn : Bool)
  /-- `netem delay %s %s loss %.5f limit %d`, each as far as given -/
  | netem (delay : Option String) (jitter loss : Option ℚ) (limit : Option Int)
  deriving DecidableEq

inductive ClassKind where
  /-- `htb rate %fMbit burst 15k` -/
  | htb (rate : Int) (burst : Nat)
  /-- `hfsc sc rate %fMbit ul rate %fMbit` -/
  | hfsc (sc ul : Int)
  /-- The one place below a discipline without classes. -/
  | only
  deriving DecidableEq, Repr

/-- `htb` and `hfsc` get their classes by `class add`; the others have one place below them,
named as the source names it: `5:1`, `6:` or `10:1`. -/
instance : Tc.Disciplines QdiscKind ClassKind where
  classes
    | .htb _ | .hfsc _ => .nil
    | .tbf .. | .netem .. => .leaf 1 .only .nil
    | .red .. => .leaf 0 .only .nil
  fits
    | .htb _, .htb .. => true
    | .hfsc _, .hfsc .. => true
    | _, _ => false
  sameKind
    | .htb _, .htb _ => true
    | .hfsc _, .hfsc _ => true
    | .tbf .., .tbf .. => true
    | .red .., .red .. => true
    | .netem .., .netem .. => true
    | _, _ => false

abbrev TcCmd := Tc.Cmd QdiscKind ClassKind

abbrev TcTree := Tc.Tree QdiscKind ClassKind

/-! ## The interface -/

/-- The parameters of `config`, with their defaults. -/
structure ConfigParams where
  bw : Option Int := none
  delay : Option String := none
  jitter : Option ℚ := none
  loss : Option ℚ := none
  disableGro : Bool := true
  speedup : Int := 0
  useHfsc : Bool := false
  useTbf : Bool := false
  latencyMs : Option ℚ := none
  enableEcn : Bool := false
  enableRed : Bool := false
  maxQueueSize : Option Int := none
  smoothChange : Bool := false

/-- What `storeConfig` stores. -/
structure StoredConfig where
  bw : Option Int
  delay : Option String
  jitter : Option ℚ
  loss : Option ℚ
  maxQueueSize : Option Int
  useHfsc : Bool
  useTbf : Bool

/-- An interface of a node.  `stored` is `none` as long as the attributes are not set; `tree`
is the traffic control in the kernel. -/
structure TCIntf where
  node : NodeName
  stored : Option StoredConfig
  tree : TcTree

/-- What an interface has its node do. -/
inductive NodeCmd where
  /-- `ifconfig %s up` -/
  | ifconfigUp
  /-- `ethtool -K %s gro off` -/
  | groOff
  /-- `tc qdisc show dev %s` -/
  | qdiscShow
  | tc (cmd : TcCmd)
  deriving DecidableEq

/-- The one exception of `config`: `15 * 8 / bw` with `bw` zero. -/
inductive ConfigError where
  | zeroDivision
  deriving DecidableEq, Repr

/-- `self.node.name[0:1] == 's'` -/
def NodeName.startsWithS : NodeName → Bool
  | .s _ => true
  | .h1 | .h2 => false

/-- `bwParamMax` -/
def bwParamMax : Int := 1000

/-- `bwCmds`: the commands, and the parent for what comes below. -/
def TCIntf.bwCmds (self : TCIntf) (bw : Option Int) (speedup : Int) (useHfsc useTbf : Bool)
    (latencyMs : Option ℚ) (enableEcn enableRed smoothChange : Bool) :
    Except ConfigError (List TcCmd × Tc.Parent) :=
  match bw with
  | none => .ok ([], .root)
  | some bw =>
      if bw < 0 ∨ bw > bwParamMax then .ok ([], .root)
      else do
        let bw := if speedup > 0 ∧ self.node.startsWithS then speedup else bw
        let limit ←
          if useHfsc then
            .ok (if smoothChange then [.classChange 5 1 (.hfsc bw bw)]
              else [.qdiscAdd .root 5 (.hfsc 1), .classAdd 5 1 (.hfsc bw bw)])
          else if useTbf then
            match latencyMs with
            | some latencyMs => .ok [Tc.Cmd.qdiscAdd .root 5 (.tbf bw 15000 latencyMs)]
            | none =>
                if bw = 0 then .error .zeroDivision
                else .ok [Tc.Cmd.qdiscAdd .root 5 (.tbf bw 15000 (15 * 8 / bw))]
          else
            .ok (if smoothChange then [.classChange 5 1 (.htb bw 15)]
              else [.qdiscAdd .root 5 (.htb 1), .classAdd 5 1 (.htb bw 15)])
        -- ECN or RED
        if enableEcn then
          .ok (limit ++ [.qdiscAdd (.cls 5 1) 6 (.red 1000000 30000 35000 1500 20 bw 1 true)],
            .cls 6 0)
        else if enableRed then
          .ok (limit ++ [.qdiscAdd (.cls 5 1) 6 (.red 1000000 30000 35000 1500 20 bw 1 false)],
            .cls 6 0)
        else .ok (limit, .cls 5 1)

/-- `delayCmds` -/
def delayCmds (parent : Tc.Parent) (delay : Option String) (jitter loss : Option ℚ)
    (maxQueueSize : Option Int) (smoothChange : Bool) : List TcCmd × Tc.Parent :=
  if jitter.any (· < 0) then ([], parent)
  else if loss.any fun loss => loss < 0 ∨ loss > 100 then ([], parent)
  else if delay.isNone ∧ jitter.isNone ∧ loss.isNone ∧ maxQueueSize.isNone then ([], parent)
  else if smoothChange then
    ([.qdiscReplace parent 10 (.netem delay jitter loss maxQueueSize)], .cls 10 1)
  else ([.qdiscAdd parent 10 (.netem delay jitter loss maxQueueSize)], .cls 10 1)

/-- `requiresHardReset`: a limit is taken away, or the type changes. -/
def StoredConfig.requiresHardReset (self : StoredConfig) (p : ConfigParams) : Bool :=
  (p.bw.isNone && self.bw.isSome) ||
    (p.delay.isNone && self.delay.isSome) ||
    (p.jitter.isNone && self.jitter.isSome) ||
    (p.loss.isNone && self.loss.isSome) ||
    (p.maxQueueSize.isNone && self.maxQueueSize.isSome) ||
    self.useHfsc != p.useHfsc ||
    self.useTbf != p.useTbf

/-- `storeConfig` -/
def TCIntf.storeConfig (self : TCIntf) (p : ConfigParams) : TCIntf :=
  { self with
    stored := some ⟨p.bw, p.delay, p.jitter, p.loss, p.maxQueueSize, p.useHfsc, p.useTbf⟩ }

/-- `smooth_change` as `config` goes on with it: not the first time, and not if a hard reset is
required. -/
def TCIntf.smoothly (self : TCIntf) (p : ConfigParams) : Bool :=
  match self.stored with
  | none => false
  | some stored => p.smoothChange && !stored.requiresHardReset p

/-- A call of `config`: the interface behind it, the commands that ran, and the result, which
is `None` when there is nothing to configure, else the outputs of the `tc` commands (whether
`tc` obeyed) and `parent`. -/
structure ConfigDone where
  self : TCIntf
  log : List NodeCmd
  result : Except ConfigError (Option (List Bool × Tc.Parent))

/-- `config`.  The default discipline shows `noqueue` or `priomap`, and no other does. -/
def TCIntf.config (self : TCIntf) (p : ConfigParams) : ConfigDone :=
  let log := NodeCmd.ifconfigUp :: if p.disableGro then [.groOff] else []
  if p.bw.isNone ∧ p.delay.isNone ∧ p.loss.isNone ∧ p.maxQueueSize.isNone ∧
      self.stored.isNone then
    ⟨self, log, .ok none⟩
  else
    let smoothChange := self.smoothly p
    let self := self.storeConfig p
    let log := log ++ [.qdiscShow]
    let del : List TcCmd := if self.tree.isSome ∧ ¬ smoothChange then [.qdiscDelRoot] else []
    match self.bwCmds p.bw p.speedup p.useHfsc p.useTbf p.latencyMs p.enableEcn p.enableRed
        smoothChange with
    | .error e => ⟨self, log, .error e⟩
    | .ok (bwcmds, parent) =>
        let delaycmds := delayCmds parent p.delay p.jitter p.loss p.maxQueueSize smoothChange
        let cmds := del ++ bwcmds ++ delaycmds.1
        let done := Tc.execAll self.tree cmds
        ⟨{ self with tree := done.1 }, log ++ cmds.map .tc, .ok (some (done.2, delaycmds.2))⟩

/-- An interface is configured when it is made; the kernel gave it no discipline. -/
def TCIntf.create (node : NodeName) (p : ConfigParams) : TCIntf :=
  (TCIntf.config ⟨node, none, none⟩ p).self

end LeoEM
