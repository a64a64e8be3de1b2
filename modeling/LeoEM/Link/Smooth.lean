/-
# `Link.Smooth` — link updates do not tear a link down

`addLink` gives an interface a bandwidth, a delay and a queue size, and
`set_link_properties` gives it others of all three.  So nothing that was stored is ever
missing from a call, and every call changes the class and replaces the delay below it
(`smooth_calls`).  The tree is then the one that deleting and adding would have left.
-/
import LeoEM.Link.Intf

namespace LeoEM

variable {K : Type}

/-- The text of a delay argument. -/
def DelayArg.text (str : K → String) : DelayArg K → String
  | .seconds weight => str weight ++ "s"
  | .unitialized => "0.01ms"

/-- The two interfaces that `addLink` makes. -/
def Link.intfs (str : K → String) (l : Link K) : List TCIntf :=
  [l.node1, l.node2].map fun node => TCIntf.create node
    { bw := some l.bw, delay := some (l.delay.text str), maxQueueSize := some l.maxQueueSize }

/-- The parameters with which `set_link_properties` calls `config` of either interface. -/
def linkParams (bw : Int) (delay : String) (smoothChange : Bool) : ConfigParams :=
  { bw := some bw, delay := some delay, maxQueueSize := some switchQueueSize, smoothChange }

/-- What `set_link_properties` does to an interface. -/
def TCIntf.setLinkProperties (self : TCIntf) (bw : Int) (delay : String) : ConfigDone :=
  self.config (linkParams bw delay true)

/-- An interface behind a sequence of calls of `set_link_properties`. -/
def TCIntf.afterCalls (self : TCIntf) (calls : List (Int × String)) : TCIntf :=
  calls.foldl (fun self c => (self.setLinkProperties c.1 c.2).self) self

/-- `htb 5:0`, its class `5:1` with the rate, and `netem 10:` with the delay and the limit. -/
def shapedTree (bw : Int) (delay : String) (limit : Int) : TcTree :=
  some (.mk 5 (.htb 1) (.inner 1 (.htb bw 15)
    (.mk 10 (.netem (some delay) none none (some limit)) (.leaf 1 .only .nil)) .nil))

/-! ## The commands -/

theorem bwCmds_htb (self : TCIntf) {bw : Int} (h₀ : 0 ≤ bw) (h₁ : bw ≤ bwParamMax)
    (smoothChange : Bool) :
    self.bwCmds (some bw) 0 false false none false false smoothChange =
      .ok (if smoothChange then [.classChange 5 1 (.htb bw 15)]
        else [.qdiscAdd .root 5 (.htb 1), .classAdd 5 1 (.htb bw 15)], .cls 5 1) := by
  have hrange : ¬ (bw < 0 ∨ bw > bwParamMax) := by omega
  simp only [TCIntf.bwCmds]
  rw [if_neg hrange]
  rfl

theorem delayCmds_delay (delay : String) (limit : Int) (smoothChange : Bool) :
    delayCmds (.cls 5 1) (some delay) none none (some limit) smoothChange =
      if smoothChange then
        ([.qdiscReplace (.cls 5 1) 10 (.netem (some delay) none none (some limit))], .cls 10 1)
      else ([.qdiscAdd (.cls 5 1) 10 (.netem (some delay) none none (some limit))], .cls 10 1) :=
  rfl

/-- The commands that change a class and replace the delay below it. -/
def smoothCmds (bw : Int) (delay : String) (limit : Int) : List TcCmd :=
  [.classChange 5 1 (.htb bw 15),
    .qdiscReplace (.cls 5 1) 10 (.netem (some delay) none none (some limit))]

/-- The commands that make the tree anew, on an interface that has none or has one. -/
def hardCmds (bw : Int) (delay : String) (limit : Int) (occupied : Bool) : List TcCmd :=
  (if occupied then [.qdiscDelRoot] else []) ++
    [.qdiscAdd .root 5 (.htb 1), .classAdd 5 1 (.htb bw 15),
      .qdiscAdd (.cls 5 1) 10 (.netem (some delay) none none (some limit))]

/-- **A call with all three limits** runs the one list or the other. -/
theorem config_linkParams (self : TCIntf) {bw : Int} (h₀ : 0 ≤ bw) (h₁ : bw ≤ bwParamMax)
    (delay : String) (smoothChange : Bool) :
    self.config (linkParams bw delay smoothChange) =
      let cmds := if self.smoothly (linkParams bw delay smoothChange)
        then smoothCmds bw delay switchQueueSize
        else hardCmds bw delay switchQueueSize self.tree.isSome
      let done := Tc.execAll self.tree cmds
      ⟨{ self.storeConfig (linkParams bw delay smoothChange) with tree := done.1 },
        [.ifconfigUp, .groOff, .qdiscShow] ++ cmds.map .tc, .ok (some (done.2, .cls 10 1))⟩ := by
  have hcmds := bwCmds_htb (self.storeConfig (linkParams bw delay smoothChange)) h₀ h₁
  simp only [TCIntf.config]
  rw [if_neg (by simp [linkParams])]
  cases hsmooth : self.smoothly (linkParams bw delay smoothChange) with
  | true =>
      simp only [linkParams] at hcmds ⊢
      rw [hcmds]
      simp [delayCmds_delay, smoothCmds, TCIntf.storeConfig]
  | false =>
      simp only [linkParams] at hcmds ⊢
      rw [hcmds]
      simp [delayCmds_delay, hardCmds, TCIntf.storeConfig]

/-! ## The trees -/

/-- Made anew, the tree is the same on every interface, and no command fails. -/
theorem execAll_hardCmds (t : TcTree) (bw : Int) (delay : String) (limit : Int) :
    Tc.execAll t (hardCmds bw delay limit t.isSome) =
      (shapedTree bw delay limit, (if t.isSome then [true] else []) ++ [true, true, true]) := by
  rw [hardCmds, Tc.execAll_append, Tc.execAll_delRoot]
  rfl

/-- Changed in place, the tree is the one that would be made anew. -/
theorem execAll_smoothCmds (bw bw' : Int) (delay delay' : String) (limit limit' : Int) :
    Tc.execAll (shapedTree bw delay limit) (smoothCmds bw' delay' limit') =
      (shapedTree bw' delay' limit', [true, true]) := rfl

/-- An interface as `addLink` and every call of `set_link_properties` leave it. -/
def TCIntf.IsShaped (self : TCIntf) (bw : Int) (delay : String) : Prop :=
  self.stored =
      some ⟨some bw, some delay, none, none, some (switchQueueSize : Int), false, false⟩ ∧
    self.tree = shapedTree bw delay switchQueueSize

section Calls

variable {self : TCIntf} {bw bw' : Int} {delay : String}

/-- Without `smooth_change`, `config` makes the tree anew, whatever the interface. -/
theorem config_hard (self : TCIntf) (h₀ : 0 ≤ bw) (h₁ : bw ≤ bwParamMax) (delay : String) :
    (self.config (linkParams bw delay false)).self.IsShaped bw delay := by
  have hsmooth : self.smoothly (linkParams bw delay false) = false := by
    unfold TCIntf.smoothly
    cases self.stored <;> rfl
  rw [config_linkParams self h₀ h₁, hsmooth]
  refine ⟨rfl, ?_⟩
  simp only [Bool.false_eq_true, if_false, execAll_hardCmds]

/-- **One call** changes the class and replaces the delay, and nothing else. -/
theorem setLinkProperties_smooth (hself : self.IsShaped bw delay) (h₀ : 0 ≤ bw')
    (h₁ : bw' ≤ bwParamMax) (delay' : String) :
    (self.setLinkProperties bw' delay').log = [.ifconfigUp, .groOff, .qdiscShow] ++
        (smoothCmds bw' delay' switchQueueSize).map .tc ∧
      (self.setLinkProperties bw' delay').result = .ok (some ([true, true], .cls 10 1)) ∧
      (self.setLinkProperties bw' delay').self.IsShaped bw' delay' := by
  obtain ⟨hstored, htree⟩ := hself
  have hsmooth : self.smoothly (linkParams bw' delay' true) = true := by
    unfold TCIntf.smoothly
    rw [hstored]
    rfl
  rw [TCIntf.setLinkProperties, config_linkParams self h₀ h₁, hsmooth, htree]
  rw [if_pos rfl]
  dsimp only
  rw [execAll_smoothCmds]
  exact ⟨rfl, rfl, rfl, rfl⟩

/-- Every sequence of calls leaves the interface in shape. -/
theorem isShaped_afterCalls : ∀ {calls : List (Int × String)} {self : TCIntf} {bw : Int}
    {delay : String}, self.IsShaped bw delay →
    (∀ c ∈ calls, 0 ≤ c.1 ∧ c.1 ≤ bwParamMax) →
      ∃ bw' delay', (self.afterCalls calls).IsShaped bw' delay' := by
  intro calls
  induction calls with
  | nil =>
      intro self bw delay hself _
      exact ⟨bw, delay, hself⟩
  | cons c calls ih =>
      intro self bw delay hself hbw
      obtain ⟨h₀, h₁⟩ := hbw c List.mem_cons_self
      obtain ⟨-, -, hnext⟩ := setLinkProperties_smooth hself h₀ h₁ c.2
      exact ih hnext fun c hc => hbw c (List.mem_cons_of_mem _ hc)

end Calls

/-- The interfaces of `MyTopo`'s links are in shape. -/
theorem isShaped_intfs {n : Nat} {str : K → String} {l : Link K} (hl : l ∈ (myTopo n).links)
    {intf : TCIntf} (hintf : intf ∈ l.intfs str) : intf.IsShaped 150 "0.01ms" := by
  have hlink : l.bw = bentPipeLinkBandwidth ∧ l.delay = .unitialized ∧
      l.maxQueueSize = switchQueueSize := by
    simp only [myTopo, List.mem_append, List.mem_map, List.mem_cons, List.not_mem_nil,
      or_false] at hl
    rcases hl with ⟨i, -, rfl⟩ | rfl | rfl <;> exact ⟨rfl, rfl, rfl⟩
  obtain ⟨hbw, hdelay, hsize⟩ := hlink
  obtain ⟨node, -, rfl⟩ := List.mem_map.mp hintf
  rw [hbw, hdelay, hsize]
  exact config_hard ⟨node, none, none⟩ (by decide) (by decide) "0.01ms"

/-- **Link updates are smooth.**  On either interface of every link of the chain, behind every
sequence of calls of `set_link_properties`, the next call runs a `class change` and a
`qdisc replace` and no other command that changes the tree; `tc` obeys both, and the tree they
leave has the given rate, delay and limit and is the tree that the call would have left without
`smooth_change`. -/
theorem smooth_calls (n : Nat) (str : K → String) (l : Link K) (hl : l ∈ (myTopo n).links)
    (intf : TCIntf) (hintf : intf ∈ l.intfs str) (calls : List (Int × String))
    (hbw : ∀ c ∈ calls, 1 ≤ c.1 ∧ c.1 ≤ 1000) (bw : Int) (delay : String)
    (h₁ : 1 ≤ bw) (h₂ : bw ≤ 1000) :
    ((intf.afterCalls calls).setLinkProperties bw delay).log =
        [.ifconfigUp, .groOff, .qdiscShow, .tc (.classChange 5 1 (.htb bw 15)),
          .tc (.qdiscReplace (.cls 5 1) 10
            (.netem (some delay) none none (some (switchQueueSize : Int))))] ∧
      ((intf.afterCalls calls).setLinkProperties bw delay).result =
        .ok (some ([true, true], .cls 10 1)) ∧
      ((intf.afterCalls calls).setLinkProperties bw delay).self.tree =
        shapedTree bw delay switchQueueSize ∧
      ∀ other : TCIntf, (other.config (linkParams bw delay false)).self.tree =
        ((intf.afterCalls calls).setLinkProperties bw delay).self.tree := by
  obtain ⟨bw₀, delay₀, hshaped⟩ := isShaped_afterCalls (isShaped_intfs hl hintf)
    fun c hc => ⟨Int.le_trans Int.one_nonneg (hbw c hc).1, (hbw c hc).2⟩
  have hbw₀ : 0 ≤ bw := Int.le_trans Int.one_nonneg h₁
  obtain ⟨hlog, hresult, hnext⟩ := setLinkProperties_smooth hshaped hbw₀ h₂ delay
  exact ⟨hlog, hresult, hnext.2, fun other =>
    (config_hard other hbw₀ h₂ delay).2.trans hnext.2.symm⟩

/-- The interface of `s0` to `s1`, on a chain of two switches, behind one update. -/
theorem smooth_calls_dish : ∃ intf ∈ (addLink (.s 0) (.s 1) : Link Nat).intfs toString,
    ((intf.afterCalls [(150, "0.02s")]).setLinkProperties 20 "5ms").self.tree =
      shapedTree 20 "5ms" 50000 :=
  ⟨_, List.mem_cons_self, (smooth_calls 2 toString (addLink (.s 0) (.s 1))
    List.mem_cons_self _ List.mem_cons_self [(150, "0.02s")] (by decide) 20 "5ms" (by decide)
    (by decide)).2.2.1⟩

end LeoEM
