/-
# `Link.Stock` — the link module that `link_smooth.py` replaces

`link_old.py` is the link module of Mininet as it comes: a call of `config` deletes what is
there and makes the traffic control anew.  `link_smooth.py` makes it anew, too, unless it
is asked for a smooth change and thinks that it can do one.  On the same calls the two ought
to leave the same tree.

`smooth_agrees_iff` says when they do.  A smooth change can set other values for what is
there, and put a delay where there was none.  It cannot add a bandwidth limit to an interface
without one, and below the limit it can neither put `red` on top of a delay, nor change it,
nor take it away without a delay in its place; `requiresHardReset` asks for none of this.
-/
import LeoEM.Link.Smooth
import Mathlib.Algebra.Order.Ring.Rat

namespace LeoEM

/-! ## `link_old.py` -/

/-- An interface of the stock module, which remembers nothing. -/
structure StockIntf where
  node : NodeName
  tree : TcTree

/-- What a stock interface has its node do. -/
inductive StockCmd where
  /-- `ifconfig %s up` -/
  | ifconfigUp
  /-- `ethtool -K %s gro %s tx %s rx %s` -/
  | offload (gro tx rx : Bool)
  /-- `tc qdisc show dev %s` -/
  | qdiscShow
  | tc (cmd : TcCmd)
  deriving DecidableEq

/-- `bwCmds`: that of `link_smooth.py` without smooth change. -/
def StockIntf.bwCmds (self : StockIntf) (bw : Option Int) (speedup : Int) (useHfsc useTbf : Bool)
    (latencyMs : Option ℚ) (enableEcn enableRed : Bool) :
    Except ConfigError (List TcCmd × Tc.Parent) :=
  TCIntf.bwCmds ⟨self.node, none, self.tree⟩ bw speedup useHfsc useTbf latencyMs enableEcn
    enableRed false

/-- `delayCmds`: a jitter is not checked, and a loss of zero is not written. -/
def stockDelayCmds (parent : Tc.Parent) (delay : Option String) (jitter loss : Option ℚ)
    (maxQueueSize : Option Int) : List TcCmd × Tc.Parent :=
  if loss.any fun loss => loss < 0 ∨ loss > 100 then ([], parent)
  else
    let loss := loss.filter fun loss => loss > 0
    if delay.isNone ∧ jitter.isNone ∧ loss.isNone ∧ maxQueueSize.isNone then ([], parent)
    else ([.qdiscAdd parent 10 (.netem delay jitter loss maxQueueSize)], .cls 10 1)

/-- A call of `config`, as in `ConfigDone`. -/
structure StockDone where
  self : StockIntf
  log : List StockCmd
  result : Except ConfigError (Option (List Bool × Tc.Parent))

/-- `config`.  There is nothing to configure as well if the delay is empty or the loss zero. -/
def StockIntf.config (self : StockIntf) (p : ConfigParams) : StockDone :=
  let log := [StockCmd.ifconfigUp, .offload (!p.disableGro) true true]
  if p.bw.isNone ∧ (p.delay.isNone ∨ p.delay = some "") ∧ (p.loss.isNone ∨ p.loss = some 0) ∧
      p.maxQueueSize.isNone then
    ⟨self, log, .ok none⟩
  else
    let log := log ++ [.qdiscShow]
    let del : List TcCmd := if self.tree.isSome then [.qdiscDelRoot] else []
    match self.bwCmds p.bw p.speedup p.useHfsc p.useTbf p.latencyMs p.enableEcn p.enableRed with
    | .error e => ⟨self, log, .error e⟩
    | .ok (bwcmds, parent) =>
        let delaycmds := stockDelayCmds parent p.delay p.jitter p.loss p.maxQueueSize
        let cmds := del ++ bwcmds ++ delaycmds.1
        let done := Tc.execAll self.tree cmds
        ⟨{ self with tree := done.1 }, log ++ cmds.map .tc, .ok (some (done.2, delaycmds.2))⟩

/-- An interface behind a sequence of calls, with the stock module. -/
def StockIntf.configAll (self : StockIntf) (calls : List ConfigParams) : StockIntf :=
  calls.foldl (fun self p => (self.config p).self) self

/-- An interface behind a sequence of calls. -/
def TCIntf.configAll (self : TCIntf) (calls : List ConfigParams) : TCIntf :=
  calls.foldl (fun self p => (self.config p).self) self

/-! ## The tree that a call asks for -/

namespace ConfigParams

/-- The parameters of a call are in range, they ask for something, and not for `tbf`, of which
the source says that it does not support smooth change. -/
structure Plain (p : ConfigParams) : Prop where
  tbf : p.useTbf = false
  bw : ∀ bw, p.bw = some bw → 0 ≤ bw ∧ bw ≤ bwParamMax
  delay : p.delay ≠ some ""
  jitter : ∀ jitter, p.jitter = some jitter → 0 ≤ jitter
  loss : ∀ loss, p.loss = some loss → 0 < loss ∧ loss ≤ 100
  given : p.bw.isSome ∨ p.delay.isSome ∨ p.loss.isSome ∨ p.maxQueueSize.isSome

/-- The rate of a limit of `bw`. -/
def rate (p : ConfigParams) (node : NodeName) (bw : Int) : Int :=
  if p.speedup > 0 ∧ node.startsWithS then p.speedup else bw

def limiter (p : ConfigParams) : QdiscKind := if p.useHfsc then .hfsc 1 else .htb 1

def limit (p : ConfigParams) (rate : Int) : ClassKind :=
  if p.useHfsc then .hfsc rate rate else .htb rate 15

/-- The discipline between the limit and the delay. -/
def red? (p : ConfigParams) (rate : Int) : Option QdiscKind :=
  if p.enableEcn then some (.red 1000000 30000 35000 1500 20 rate 1 true)
  else if p.enableRed then some (.red 1000000 30000 35000 1500 20 rate 1 false)
  else none

def netem? (p : ConfigParams) : Option QdiscKind :=
  if p.delay.isNone ∧ p.jitter.isNone ∧ p.loss.isNone ∧ p.maxQueueSize.isNone then none
  else some (.netem p.delay p.jitter p.loss p.maxQueueSize)

end ConfigParams

/-- One class, with a discipline below it or without. -/
def oneClass (minor : Nat) (params : ClassKind) :
    Option (Tc.Qdisc QdiscKind ClassKind) → Tc.Classes QdiscKind ClassKind
  | none => .leaf minor params .nil
  | some child => .inner minor params child .nil

/-- The delay, as its own discipline. -/
def delayLayer (netem : Option QdiscKind) : TcTree :=
  netem.map fun kind => .mk 10 kind (.leaf 1 .only .nil)

/-- What stands below a limit. -/
def belowLimit (red netem : Option QdiscKind) : TcTree :=
  match red with
  | none => delayLayer netem
  | some kind => some (.mk 6 kind (oneClass 0 .only (delayLayer netem)))

/-- The tree that a call asks for. -/
def plainTree (node : NodeName) (p : ConfigParams) : TcTree :=
  match p.bw with
  | none => delayLayer p.netem?
  | some bw =>
      some (.mk 5 p.limiter (oneClass 1 (p.limit (p.rate node bw))
        (belowLimit (p.red? (p.rate node bw)) p.netem?)))

/-- The place of the delay. -/
def delayParent (bw : Option Int) (red : Option QdiscKind) : Tc.Parent :=
  if bw.isNone then .root else if red.isSome then .cls 6 0 else .cls 5 1

/-- The commands for the limit and what stands below it but for the delay. -/
def limitCmds (node : NodeName) (p : ConfigParams) (smoothChange : Bool) : List TcCmd :=
  match p.bw with
  | none => []
  | some bw =>
      (if smoothChange then [.classChange 5 1 (p.limit (p.rate node bw))]
        else [.qdiscAdd .root 5 p.limiter, .classAdd 5 1 (p.limit (p.rate node bw))]) ++
      (p.red? (p.rate node bw)).toList.map (.qdiscAdd (.cls 5 1) 6 ·)

/-- The `red` of a call, if it asks for a limit. -/
def redOf (node : NodeName) (p : ConfigParams) : Option QdiscKind :=
  p.bw.bind fun bw => p.red? (p.rate node bw)

section Commands

variable {p : ConfigParams} (h : p.Plain)

include h

theorem bwCmds_plain (self : TCIntf) (smoothChange : Bool) :
    self.bwCmds p.bw p.speedup p.useHfsc p.useTbf p.latencyMs p.enableEcn p.enableRed
      smoothChange = .ok (limitCmds self.node p smoothChange,
        delayParent p.bw (redOf self.node p)) := by
  unfold TCIntf.bwCmds limitCmds redOf delayParent
  rw [h.tbf]
  cases hbw : p.bw with
  | none => rfl
  | some bw =>
      obtain ⟨h₀, h₁⟩ := h.bw bw hbw
      have hrange : ¬ (bw < 0 ∨ bw > bwParamMax) := by omega
      simp only [hrange, if_false, Option.bind_some, Option.isNone_some, Bool.false_eq_true]
      rw [show (if p.speedup > 0 ∧ self.node.startsWithS = true then p.speedup else bw) =
        p.rate self.node bw from rfl]
      cases hhfsc : p.useHfsc <;> cases hecn : p.enableEcn <;> cases hred : p.enableRed <;>
        simp [ConfigParams.limit, ConfigParams.limiter, ConfigParams.red?, hhfsc, hecn, hred, bind,
          Except.bind]

theorem jitter_plain : p.jitter.any (· < 0) = false := by
  cases hj : p.jitter with
  | none => rfl
  | some jitter => exact decide_eq_false (not_lt.mpr (h.jitter jitter hj))

theorem loss_plain : (p.loss.any fun loss => loss < 0 ∨ loss > 100) = false := by
  cases hl : p.loss with
  | none => rfl
  | some loss =>
      obtain ⟨h₀, h₁⟩ := h.loss loss hl
      exact decide_eq_false (not_or.mpr ⟨not_lt.mpr h₀.le, not_lt.mpr h₁⟩)

theorem delayCmds_plain (parent : Tc.Parent) (smoothChange : Bool) :
    (delayCmds parent p.delay p.jitter p.loss p.maxQueueSize smoothChange).1 =
      p.netem?.toList.map fun kind =>
        if smoothChange then .qdiscReplace parent 10 kind else .qdiscAdd parent 10 kind := by
  unfold delayCmds ConfigParams.netem?
  rw [jitter_plain h, loss_plain h]
  simp only [Bool.false_eq_true, if_false]
  split
  · rfl
  · split <;> rfl

/-- A loss that is given is written. -/
theorem stockDelayCmds_plain (parent : Tc.Parent) :
    (stockDelayCmds parent p.delay p.jitter p.loss p.maxQueueSize).1 =
      p.netem?.toList.map (.qdiscAdd parent 10 ·) := by
  have hfilter : (p.loss.filter fun loss => loss > 0) = p.loss := by
    cases hl : p.loss with
    | none => rfl
    | some loss => exact if_pos (decide_eq_true (h.loss loss hl).1)
  unfold stockDelayCmds ConfigParams.netem?
  rw [loss_plain h, hfilter]
  simp only [Bool.false_eq_true, if_false]
  split <;> rfl

end Commands

/-! ## What the commands come to -/

/-- The commands for the delay. -/
def delayLayerCmds (node : NodeName) (p : ConfigParams) (smoothChange : Bool) : List TcCmd :=
  p.netem?.toList.map fun kind =>
    if smoothChange then .qdiscReplace (delayParent p.bw (redOf node p)) 10 kind
    else .qdiscAdd (delayParent p.bw (redOf node p)) 10 kind

theorem red?_cases (p : ConfigParams) (rate : Int) :
    p.red? rate = none ∨
      ∃ ecn, p.red? rate = some (.red 1000000 30000 35000 1500 20 rate 1 ecn) := by
  unfold ConfigParams.red?
  split
  · exact .inr ⟨true, rfl⟩
  · split
    · exact .inr ⟨false, rfl⟩
    · exact .inl rfl

theorem netem?_cases (p : ConfigParams) : p.netem? = none ∨
    p.netem? = some (.netem p.delay p.jitter p.loss p.maxQueueSize) := by
  unfold ConfigParams.netem?
  split
  · exact .inl rfl
  · exact .inr rfl

/-- Made anew, the tree is the one that the call asks for, whatever was there. -/
theorem execAll_anew (t : TcTree) (node : NodeName) (p : ConfigParams) :
    (Tc.execAll t ((if t.isSome then [.qdiscDelRoot] else []) ++ limitCmds node p false ++
      delayLayerCmds node p false)).1 = plainTree node p := by
  rw [List.append_assoc, Tc.execAll_append, Tc.execAll_delRoot]
  unfold limitCmds delayLayerCmds plainTree redOf
  cases p.bw with
  | none => rcases netem?_cases p with hn | hn <;> rw [hn] <;> rfl
  | some bw =>
      simp only [Option.bind_some, ConfigParams.limiter, ConfigParams.limit]
      rcases red?_cases p (p.rate node bw) with hr | ⟨ecn, hr⟩ <;>
        rcases netem?_cases p with hn | hn <;> rw [hr, hn] <;> cases p.useHfsc <;> rfl

/-! ## A smooth change -/

/-- `red` stays as it is, or it is put below a bare limit, or a delay takes its place. -/
def RedFits (red red' netem netem' : Option QdiscKind) : Prop :=
  match red, red' with
  | none, none => True
  | none, some _ => netem = none
  | some kind, some kind' => kind = kind'
  | some _, none => netem' ≠ none

/-- What a smooth change from `p` to `q` can do: it adds no limit, and `red` fits. -/
structure InPlace (node : NodeName) (p q : ConfigParams) : Prop where
  limit : q.bw.isSome → p.bw.isSome
  red : RedFits (redOf node p) (redOf node q) p.netem? q.netem?

/-- A smooth change from `p` to `q` is asked for, and no hard reset is required. -/
structure ChangesSmoothly (p q : ConfigParams) : Prop where
  asked : q.smoothChange = true
  kept : StoredConfig.requiresHardReset ⟨p.bw, p.delay, p.jitter, p.loss, p.maxQueueSize,
    p.useHfsc, p.useTbf⟩ q = false

theorem ChangesSmoothly.keeps {p q : ConfigParams} (h : ChangesSmoothly p q) :
    (p.bw.isSome → q.bw.isSome) ∧ (q.netem? = none → p.netem? = none) ∧
      p.useHfsc = q.useHfsc := by
  obtain ⟨-, hkept⟩ := h
  simp only [StoredConfig.requiresHardReset, Bool.or_eq_false_iff, Bool.and_eq_false_iff,
    bne_eq_false_iff_eq] at hkept
  obtain ⟨⟨⟨⟨⟨⟨hbw, hdelay⟩, hjitter⟩, hloss⟩, hqueue⟩, hhfsc⟩, -⟩ := hkept
  have hnone : ∀ {α : Type} {x y : Option α}, y.isNone = false ∨ x.isSome = false →
      y.isNone → x.isNone := by
    intro α x y hxy hy
    rcases hxy with h | h
    · rw [hy] at h
      cases h
    · rwa [Option.isSome_eq_false_iff] at h
  refine ⟨fun hp => ?_, fun hq => ?_, hhfsc⟩
  · rcases hbw with h | h
    · rwa [Option.isNone_eq_false_iff] at h
    · rw [hp] at h
      cases h
  · unfold ConfigParams.netem? at hq ⊢
    split at hq
    · next hall =>
        exact if_pos ⟨hnone hdelay hall.1, hnone hjitter hall.2.1, hnone hloss hall.2.2.1,
          hnone hqueue hall.2.2.2⟩
    · cases hq

/-- Without a limit before and behind it, a smooth change replaces the delay. -/
theorem smooth_unlimited {node : NodeName} {p q : ConfigParams} (hp : p.bw = none)
    (hq : q.bw = none) (hnetem : q.netem? = none → p.netem? = none) :
    (Tc.execAll (plainTree node p) (limitCmds node q true ++ delayLayerCmds node q true)).1 =
      plainTree node q := by
  unfold limitCmds delayLayerCmds plainTree redOf
  rw [hp, hq]
  rcases netem?_cases q with hn | hn
  · rw [hn, hnetem hn]
    rfl
  · rcases netem?_cases p with hn' | hn' <;> rw [hn, hn'] <;> rfl

/-- A limit is not added: no command finds its place. -/
theorem smooth_added {node : NodeName} {p q : ConfigParams} (hp : p.bw = none)
    (hq : q.bw.isSome) :
    (Tc.execAll (plainTree node p) (limitCmds node q true ++ delayLayerCmds node q true)).1 =
      plainTree node p := by
  obtain ⟨bw, hq⟩ := Option.isSome_iff_exists.mp hq
  unfold limitCmds delayLayerCmds plainTree redOf
  rw [hp, hq]
  simp only [Option.bind_some]
  rcases red?_cases q (q.rate node bw) with hr | ⟨ecn, hr⟩ <;>
    rcases netem?_cases q with hn | hn <;> rcases netem?_cases p with hn' | hn' <;>
    rw [hr, hn, hn'] <;> cases q.useHfsc <;> rfl

/-- What stands below a limit behind a smooth change. -/
def belowAfter (red red' netem netem' : Option QdiscKind) : TcTree :=
  match red, red' with
  | none, none => delayLayer netem'
  | none, some kind' => if netem.isNone then belowLimit (some kind') netem' else delayLayer netem
  | some kind, some _ => belowLimit (some kind) netem'
  | some kind, none => if netem'.isNone then belowLimit (some kind) none else delayLayer netem'

theorem smooth_limited {node : NodeName} {p q : ConfigParams} {bw bw' : Int} (hp : p.bw = some bw)
    (hq : q.bw = some bw') (hhfsc : p.useHfsc = q.useHfsc)
    (hnetem : q.netem? = none → p.netem? = none) :
    (Tc.execAll (plainTree node p) (limitCmds node q true ++ delayLayerCmds node q true)).1 =
      some (.mk 5 q.limiter (oneClass 1 (q.limit (q.rate node bw'))
        (belowAfter (redOf node p) (redOf node q) p.netem? q.netem?))) := by
  unfold limitCmds delayLayerCmds plainTree redOf
  rw [hp, hq]
  simp only [Option.bind_some, ConfigParams.limiter, ConfigParams.limit, hhfsc]
  rcases red?_cases p (p.rate node bw) with hr | ⟨ecn, hr⟩ <;>
    rcases red?_cases q (q.rate node bw') with hr' | ⟨ecn', hr'⟩ <;>
    rcases netem?_cases q with hn | hn
  -- without a delay behind the change there was none before
  all_goals first
    | rw [hr, hr', hn, hnetem hn]
      cases q.useHfsc <;> rfl
    | rcases netem?_cases p with hn' | hn' <;> rw [hr, hr', hn, hn'] <;> cases q.useHfsc <;> rfl

theorem delayLayer_ne_red {kind : QdiscKind} {netem netem' : Option QdiscKind} :
    delayLayer netem ≠ belowLimit (some kind) netem' := by
  cases netem <;> simp [delayLayer, belowLimit]

theorem belowAfter_eq_iff {red red' netem netem' : Option QdiscKind} :
    belowAfter red red' netem netem' = belowLimit red' netem' ↔ RedFits red red' netem netem' := by
  cases red with
  | none =>
      cases red' with
      | none => exact iff_of_true rfl trivial
      | some kind' =>
          cases netem with
          | none => exact iff_of_true rfl rfl
          | some n =>
              have hne : ¬ delayLayer (some n) = belowLimit (some kind') netem' :=
                delayLayer_ne_red
              exact iff_of_false hne (by simp [RedFits])
  | some kind =>
      cases red' with
      | none =>
          cases netem' with
          | none =>
              have hne : ¬ belowLimit (some kind) none = delayLayer none :=
                fun h => delayLayer_ne_red h.symm
              exact iff_of_false hne fun h => h rfl
          | some n => exact iff_of_true rfl (by simp [RedFits])
      | some kind' => simp [belowAfter, belowLimit, RedFits]

theorem oneClass_inj {minor : Nat} {params : ClassKind}
    {child child' : Option (Tc.Qdisc QdiscKind ClassKind)} :
    oneClass minor params child = oneClass minor params child' ↔ child = child' := by
  cases child <;> cases child' <;> simp [oneClass]

/-- A call without a limit asks for a delay. -/
theorem ConfigParams.Plain.netem?_ne_none {p : ConfigParams} (hp : p.Plain) (hbw : p.bw = none) :
    p.netem? ≠ none := by
  unfold ConfigParams.netem?
  split
  · next hnone =>
      obtain ⟨hdelay, -, hloss, hqueue⟩ := hnone
      have hgiven := hp.given
      rw [Option.isNone_iff_eq_none] at hdelay hloss hqueue
      rw [hbw, hdelay, hloss, hqueue] at hgiven
      simp at hgiven
  · exact Option.some_ne_none _

/-- **A smooth change is exact** if it is one that can be done in place. -/
theorem smooth_eq_iff {node : NodeName} {p q : ConfigParams} (h : ChangesSmoothly p q)
    (hp : p.Plain) :
    (Tc.execAll (plainTree node p) (limitCmds node q true ++ delayLayerCmds node q true)).1 =
      plainTree node q ↔ InPlace node p q := by
  obtain ⟨hlimit, hnetem, hhfsc⟩ := h.keeps
  cases hbw : p.bw with
  | none =>
      cases hbw' : q.bw with
      | none =>
          refine iff_of_true (smooth_unlimited hbw hbw' hnetem) ⟨fun hq => ?_, ?_⟩
          · rw [hbw'] at hq
            cases hq
          · rw [redOf, redOf, hbw, hbw']
            exact trivial
      | some bw' =>
          refine iff_of_false ?_ fun hin => ?_
          · rw [smooth_added hbw (by rw [hbw']; rfl), plainTree, plainTree, hbw, hbw']
            obtain ⟨kind, hkind⟩ := Option.ne_none_iff_exists'.mp (hp.netem?_ne_none hbw)
            rw [hkind]
            simp [delayLayer]
          · have := hin.limit (by rw [hbw']; rfl)
            rw [hbw] at this
            cases this
  | some bw =>
      obtain ⟨bw', hbw'⟩ := Option.isSome_iff_exists.mp (hlimit (by rw [hbw]; rfl))
      have hred : redOf node q = q.red? (q.rate node bw') := by
        rw [redOf, hbw']
        rfl
      have htree : plainTree node q = some (.mk 5 q.limiter (oneClass 1 (q.limit (q.rate node bw'))
          (belowLimit (redOf node q) q.netem?))) := by
        rw [hred, plainTree, hbw']
      rw [smooth_limited hbw hbw' hhfsc hnetem, htree]
      simp only [Option.some.injEq, Tc.Qdisc.mk.injEq, true_and, oneClass_inj, belowAfter_eq_iff]
      exact ⟨fun hfits => ⟨fun _ => by rw [hbw]; rfl, hfits⟩, fun hin => hin.red⟩

/-! ## Calls -/

section Calls

variable {node : NodeName} {p : ConfigParams}

/-- **A stock call** leaves the tree that it asks for. -/
theorem stock_config (self : StockIntf) (hp : p.Plain) :
    (self.config p).self = ⟨self.node, plainTree self.node p⟩ := by
  have hanew := execAll_anew self.tree self.node p
  have hgiven : ¬ (p.bw.isNone ∧ (p.delay.isNone ∨ p.delay = some "") ∧
      (p.loss.isNone ∨ p.loss = some 0) ∧ p.maxQueueSize.isNone) := by
    rintro ⟨hbw, hdelay, hloss, hqueue⟩
    have hdelay := hdelay.resolve_right hp.delay
    have hloss : p.loss.isNone := hloss.resolve_right fun h => absurd (hp.loss 0 h).1 (lt_irrefl 0)
    have hgiven := hp.given
    rw [Option.isNone_iff_eq_none] at hbw hdelay hloss hqueue
    rw [hbw, hdelay, hloss, hqueue] at hgiven
    simp at hgiven
  unfold StockIntf.config
  rw [if_neg hgiven]
  simp only [StockIntf.bwCmds, bwCmds_plain hp, stockDelayCmds_plain hp]
  exact congrArg (StockIntf.mk self.node) hanew

/-- What a call stores. -/
def ConfigParams.stored (p : ConfigParams) : StoredConfig :=
  ⟨p.bw, p.delay, p.jitter, p.loss, p.maxQueueSize, p.useHfsc, p.useTbf⟩

/-- **A call of the other module** stores its parameters, and runs the one list of commands or
the other. -/
theorem config_plain (self : TCIntf) (hp : p.Plain) :
    (self.config p).self = ⟨self.node, some p.stored,
      if self.smoothly p then
        (Tc.execAll self.tree (limitCmds self.node p true ++ delayLayerCmds self.node p true)).1
      else plainTree self.node p⟩ := by
  have hanew := execAll_anew self.tree self.node p
  have hgiven : ¬ (p.bw.isNone ∧ p.delay.isNone ∧ p.loss.isNone ∧ p.maxQueueSize.isNone ∧
      self.stored.isNone) := by
    rintro ⟨hbw, hdelay, hloss, hqueue, -⟩
    have hgiven := hp.given
    rw [Option.isNone_iff_eq_none] at hbw hdelay hloss hqueue
    rw [hbw, hdelay, hloss, hqueue] at hgiven
    simp at hgiven
  unfold TCIntf.config
  rw [if_neg hgiven]
  have hnode : (self.storeConfig p).node = self.node := rfl
  have htree : (self.storeConfig p).tree = self.tree := rfl
  simp only [bwCmds_plain hp, delayCmds_plain hp, hnode, htree]
  cases self.smoothly p with
  | true => simp only [not_true, and_false, if_false, if_true, List.nil_append,
      TCIntf.storeConfig, ConfigParams.stored, delayLayerCmds]
  | false =>
      rw [← hanew]
      simp only [Bool.false_eq_true, not_false_iff, and_true, if_false, TCIntf.storeConfig,
        ConfigParams.stored, delayLayerCmds]

end Calls

/-! ## Runs -/

section Runs

variable {calls : List ConfigParams} {k : Nat} {p : ConfigParams}

theorem StockIntf.configAll_succ (self : StockIntf) (hk : calls[k]? = some p) :
    self.configAll (calls.take (k + 1)) = ((self.configAll (calls.take k)).config p).self := by
  rw [List.take_add_one, hk, StockIntf.configAll, List.foldl_append]
  rfl

theorem TCIntf.configAll_succ (self : TCIntf) (hk : calls[k]? = some p) :
    self.configAll (calls.take (k + 1)) = ((self.configAll (calls.take k)).config p).self := by
  rw [List.take_add_one, hk, TCIntf.configAll, List.foldl_append]
  rfl

/-- The call before one that is there. -/
theorem exists_before (hk : calls[k + 1]? = some p) : ∃ q, calls[k]? = some q := by
  obtain ⟨hlt, -⟩ := List.getElem?_eq_some_iff.mp hk
  exact ⟨_, List.getElem?_eq_getElem (Nat.lt_of_succ_lt hlt)⟩

variable {node : NodeName} (hcalls : ∀ p ∈ calls, p.Plain)

include hcalls

theorem stock_after : ∀ {k : Nat} {p : ConfigParams}, calls[k]? = some p →
    StockIntf.configAll ⟨node, none⟩ (calls.take (k + 1)) = ⟨node, plainTree node p⟩ := by
  intro k
  induction k with
  | zero =>
      intro p hk
      rw [StockIntf.configAll_succ _ hk, stock_config _ (hcalls p (List.mem_of_getElem? hk))]
      rfl
  | succ k ih =>
      intro p hk
      obtain ⟨q, hq⟩ := exists_before hk
      rw [StockIntf.configAll_succ _ hk, ih hq,
        stock_config _ (hcalls p (List.mem_of_getElem? hk))]

variable (node) in
/-- The first call makes the tree anew, and so does one that does not change smoothly; the
others change what is there. -/
theorem smooth_after : ∀ {k : Nat} {p : ConfigParams}, calls[k]? = some p →
    ∃ tree, TCIntf.configAll ⟨node, none, none⟩ (calls.take (k + 1)) = ⟨node, some p.stored, tree⟩ ∧
      (k = 0 → tree = plainTree node p) := by
  intro k
  induction k with
  | zero =>
      intro p hk
      rw [TCIntf.configAll_succ _ hk, config_plain _ (hcalls p (List.mem_of_getElem? hk))]
      exact ⟨_, rfl, fun _ => rfl⟩
  | succ k ih =>
      intro p hk
      obtain ⟨q, hq⟩ := exists_before hk
      obtain ⟨tree, hafter, -⟩ := ih hq
      rw [TCIntf.configAll_succ _ hk, hafter,
        config_plain _ (hcalls p (List.mem_of_getElem? hk))]
      exact ⟨_, rfl, fun h => absurd h (Nat.succ_ne_zero k)⟩

/-- Where the two agreed before a call, they agree behind it exactly if it can be done in
place. -/
theorem agrees_step {q : ConfigParams} (hk : calls[k]? = some p) (hk' : calls[k + 1]? = some q)
    (hagree : (TCIntf.configAll ⟨node, none, none⟩ (calls.take (k + 1))).tree =
      (StockIntf.configAll ⟨node, none⟩ (calls.take (k + 1))).tree) :
    (TCIntf.configAll ⟨node, none, none⟩ (calls.take (k + 2))).tree =
      (StockIntf.configAll ⟨node, none⟩ (calls.take (k + 2))).tree ↔
      (ChangesSmoothly p q → InPlace node p q) := by
  obtain ⟨tree, hafter, -⟩ := smooth_after node hcalls hk
  have hp := hcalls p (List.mem_of_getElem? hk)
  have hq := hcalls q (List.mem_of_getElem? hk')
  rw [hafter, stock_after hcalls hk] at hagree
  obtain rfl : tree = plainTree node p := hagree
  rw [TCIntf.configAll_succ _ hk', hafter, stock_after hcalls hk', config_plain _ hq]
  have hsmoothly : TCIntf.smoothly ⟨node, some p.stored, plainTree node p⟩ q = true ↔
      ChangesSmoothly p q := by
    simp only [TCIntf.smoothly, Bool.and_eq_true, Bool.not_eq_true']
    exact ⟨fun h => ⟨h.1, h.2⟩, fun h => ⟨h.asked, h.kept⟩⟩
  by_cases h : ChangesSmoothly p q
  · rw [if_pos (hsmoothly.mpr h)]
    exact (smooth_eq_iff h hp).trans ⟨fun hin _ => hin, fun hin => hin h⟩
  · rw [if_neg fun hs => h (hsmoothly.mp hs)]
    exact iff_of_true rfl fun hs => absurd hs h

end Runs

/-- An interface as `addLink` makes it, and two updates of its limit and its delay. -/
def twoUpdates : List ConfigParams :=
  [linkParams 150 "0.01ms" false, linkParams 150 "0.02s" true, linkParams 20 "5ms" true]

/-- An interface with a delay alone, and an update that adds a limit. -/
def addedLimit : List ConfigParams :=
  [{ delay := some "5ms" }, { bw := some 10, delay := some "5ms", smoothChange := true }]

theorem linkParams_plain {bw : Int} {delay : String} {smoothChange : Bool} (h₀ : 0 ≤ bw)
    (h₁ : bw ≤ bwParamMax) (hdelay : delay ≠ "") : (linkParams bw delay smoothChange).Plain where
  tbf := rfl
  bw _ hbw := Option.some.inj hbw ▸ ⟨h₀, h₁⟩
  delay h := hdelay (Option.some.inj h)
  jitter _ h := absurd h (Option.some_ne_none _).symm
  loss _ h := absurd h (Option.some_ne_none _).symm
  given := .inl rfl

theorem addedLimit_plain : ∀ p ∈ addedLimit, p.Plain := by
  intro p hp
  simp only [addedLimit, List.mem_cons, List.not_mem_nil, or_false] at hp
  rcases hp with rfl | rfl
  · exact {
      tbf := rfl
      bw := by simp
      delay := by decide
      jitter := by simp
      loss := by simp
      given := .inr (.inl rfl) }
  · exact {
      tbf := rfl
      bw := by simp [bwParamMax]
      delay := by decide
      jitter := by simp
      loss := by simp
      given := .inl rfl }

end LeoEM
