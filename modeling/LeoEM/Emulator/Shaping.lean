/-
# `Emulator.Shaping` — the traffic control behind the settings

`Emulator.Chain` says which links a cycle sets to which delay.  Here the settings reach the
interfaces: the network has a link for each of the topology, with an interface at either
end, `set_link_properties` configures the two interfaces of the first link between its nodes,
and what a packet meets is their traffic control.

No command tears an interface down, and a later one replaces what an earlier one has set.
So behind every cycle each hop of the chain has the delay of the latest route at both its
ends, and at every moment every interface has its limit and its delay (`shaped_run`).
-/
import LeoEM.Emulator.Chain
import LeoEM.Link.Smooth
import Mathlib.Data.Sym.Sym2

namespace LeoEM

variable {K : Type}

/-! ## The network -/

/-- A link of the network: its two interfaces, each with its node. -/
structure TCLink where
  intf1 : TCIntf
  intf2 : TCIntf

/-- The link is one of `hop_a.connectionsTo(hop_b)`. -/
def TCLink.joins (l : TCLink) (a b : NodeName) : Bool :=
  (l.intf1.node = a && l.intf2.node = b) || (l.intf1.node = b && l.intf2.node = a)

/-- `hop_a.connectionsTo(hop_b)[0]` -/
def firstLink (links : List TCLink) (a b : NodeName) : Option TCLink := links.find? (·.joins a b)

/-- The interface `addLink` makes at one end. -/
def Link.intf (str : K → String) (l : Link K) (node : NodeName) : TCIntf :=
  TCIntf.create node
    { bw := some l.bw, delay := some (l.delay.text str), maxQueueSize := some l.maxQueueSize }

/-- The links of a network that is made for a topology. -/
def Topo.tcLinks (str : K → String) (t : Topo K) : List TCLink :=
  t.links.map fun l => ⟨l.intf str l.node1, l.intf str l.node2⟩

/-- `set_link_properties`: the first link between the nodes gets new properties at both ends. -/
def configureLink (a b : NodeName) (bw : Int) (delay : String) : List TCLink → List TCLink
  | [] => []
  | l :: ls =>
      if l.joins a b then
        ⟨(l.intf1.setLinkProperties bw delay).self, (l.intf2.setLinkProperties bw delay).self⟩ :: ls
      else l :: configureLink a b bw delay ls

/-- The ends of the links, by their nodes. -/
def linkEnds (links : List TCLink) : List (NodeName × NodeName) :=
  links.map fun l => (l.intf1.node, l.intf2.node)

/-- There is a link between two nodes. -/
def Joined (links : List TCLink) (a b : NodeName) : Prop := ∃ l ∈ links, l.joins a b = true

/-- What a command of the emulator does to the traffic control. -/
def Cmd.execute (str : K → String) (links : List TCLink) : Cmd K → List TCLink
  | .setLinkProperties node1 node2 bw delay _ =>
      configureLink node1 node2 bw (delay.text str) links
  | .reportHandoverStatus .. | .configLinkStatus .. | .simulateLinkBreaks _
  | .simulateEndHandovers _ => links

def executeAll (str : K → String) (links : List TCLink) (cmds : List (Cmd K)) : List TCLink :=
  cmds.foldl (Cmd.execute str) links

/-- `initialize_link` -/
def initializeLink (intermediateHopNum : Nat) : Logged (Cmd K) Stop Unit := do
  let net : Topo K := myTopo intermediateHopNum
  let n : Int := intermediateHopNum
  Logged.forEach (fun i =>
      setLinkProperties net (.s i) (.s (i + 1)) bentPipeLinkBandwidth .unitialized)
    (PyList.range 0 (n - 1))
  setLinkProperties net .h1 (.s 0) bentPipeLinkBandwidth .unitialized
  setLinkProperties net .h2 (.s (n - 1)) bentPipeLinkBandwidth .unitialized

/-- The links when the emulation starts, and behind some of its commands. -/
def emulatedLinks (str : K → String) (intermediateHopNum : Nat) (cmds : List (Cmd K)) :
    List TCLink :=
  executeAll str ((myTopo intermediateHopNum).tcLinks str)
    ((initializeLink intermediateHopNum).log ++ cmds)

/-! ## One link -/

/-- Both ends of a link have the bandwidth of the chain and one delay. -/
def TCLink.Carries (l : TCLink) (delay : String) : Prop :=
  l.intf1.IsShaped bentPipeLinkBandwidth delay ∧ l.intf2.IsShaped bentPipeLinkBandwidth delay

/-- The first link between two nodes carries a delay. -/
def HopCarries (links : List TCLink) (a b : NodeName) (delay : String) : Prop :=
  ∃ l, firstLink links a b = some l ∧ l.Carries delay

/-- Every link carries some delay. -/
def AllCarry (links : List TCLink) : Prop := ∀ l ∈ links, ∃ delay, l.Carries delay

theorem joins_iff {l : TCLink} {a b : NodeName} :
    l.joins a b = true ↔ s(l.intf1.node, l.intf2.node) = s(a, b) := by
  simp only [TCLink.joins, Bool.or_eq_true, Bool.and_eq_true, decide_eq_true_eq, Sym2.eq_iff]

theorem joined_iff {links : List TCLink} {a b : NodeName} :
    Joined links a b ↔ ∃ e ∈ linkEnds links, s(e.1, e.2) = s(a, b) := by
  simp only [Joined, joins_iff, linkEnds, List.mem_map, exists_exists_and_eq_and]

theorem config_node (self : TCIntf) (p : ConfigParams) : (self.config p).self.node = self.node := by
  unfold TCIntf.config
  dsimp only
  generalize NodeCmd.ifconfigUp :: (if p.disableGro then [NodeCmd.groOff] else []) = log
  split
  · rfl
  · split <;> rfl

theorem firstLink_of_joins {l : TCLink} {links : List TCLink} {a b : NodeName}
    (h : l.joins a b = true) : firstLink (l :: links) a b = some l := by
  rw [firstLink, List.find?_cons, h]

theorem firstLink_of_not_joins {l : TCLink} {links : List TCLink} {a b : NodeName}
    (h : ¬ l.joins a b = true) : firstLink (l :: links) a b = firstLink links a b := by
  rw [Bool.not_eq_true] at h
  rw [firstLink, List.find?_cons, h, firstLink]

section Configure

variable {links : List TCLink} {a b c d : NodeName} {delay : String}

/-- The properties of a link do not change its ends. -/
theorem linkEnds_configureLink (bw : Int) :
    linkEnds (configureLink a b bw delay links) = linkEnds links := by
  induction links with
  | nil => rfl
  | cons l ls ih =>
      rw [configureLink]
      split
      · simp only [linkEnds, List.map_cons, TCIntf.setLinkProperties, config_node]
      · exact congrArg ((l.intf1.node, l.intf2.node) :: ·) ih

theorem carries_configured {l : TCLink} {delay' : String} (h : l.Carries delay') :
    TCLink.Carries ⟨(l.intf1.setLinkProperties bentPipeLinkBandwidth delay).self,
      (l.intf2.setLinkProperties bentPipeLinkBandwidth delay).self⟩ delay :=
  ⟨(setLinkProperties_smooth h.1 (by decide) (by decide) delay).2.2,
    (setLinkProperties_smooth h.2 (by decide) (by decide) delay).2.2⟩

/-- A setting to the delay that every link has changes nothing of it. -/
theorem carries_configureLink (h : ∀ l ∈ links, l.Carries delay) :
    ∀ l ∈ configureLink a b bentPipeLinkBandwidth delay links, l.Carries delay := by
  induction links with
  | nil => exact h
  | cons l ls ih =>
      obtain ⟨hl, hls⟩ := List.forall_mem_cons.mp h
      rw [configureLink]
      split
      · exact List.forall_mem_cons.mpr ⟨carries_configured hl, hls⟩
      · exact List.forall_mem_cons.mpr ⟨hl, ih hls⟩

theorem allCarry_configureLink (h : AllCarry links) :
    AllCarry (configureLink a b bentPipeLinkBandwidth delay links) := by
  induction links with
  | nil => exact h
  | cons l ls ih =>
      obtain ⟨hl, hls⟩ := List.forall_mem_cons.mp h
      rw [configureLink]
      split
      · obtain ⟨delay', hl⟩ := hl
        exact List.forall_mem_cons.mpr ⟨⟨delay, carries_configured hl⟩, hls⟩
      · exact List.forall_mem_cons.mpr ⟨hl, ih hls⟩

/-- A hop that is set carries what it is set to. -/
theorem hopCarries_configureLink (h : AllCarry links)
    (hhop : ∃ l ∈ links, l.joins a b = true) :
    HopCarries (configureLink a b bentPipeLinkBandwidth delay links) a b delay := by
  induction links with
  | nil =>
      obtain ⟨l, hl, -⟩ := hhop
      cases hl
  | cons l ls ih =>
      obtain ⟨⟨delay', hl⟩, hls⟩ := List.forall_mem_cons.mp h
      rw [configureLink]
      by_cases hjoins : l.joins a b = true
      · rw [if_pos hjoins]
        refine ⟨_, firstLink_of_joins ?_, carries_configured hl⟩
        rw [joins_iff] at hjoins ⊢
        simpa only [TCIntf.setLinkProperties, config_node] using hjoins
      · rw [if_neg hjoins]
        obtain ⟨l', hmem, hl'⟩ := hhop
        rcases List.mem_cons.mp hmem with rfl | hmem
        · exact absurd hl' hjoins
        · obtain ⟨found, hfound, hcarries⟩ := ih hls ⟨l', hmem, hl'⟩
          exact ⟨found, (firstLink_of_not_joins hjoins).trans hfound, hcarries⟩

/-- Any other hop keeps what it has. -/
theorem firstLink_configureLink_of_ne (bw : Int) (hne : s(a, b) ≠ s(c, d)) :
    firstLink (configureLink a b bw delay links) c d = firstLink links c d := by
  induction links with
  | nil => rfl
  | cons l ls ih =>
      rw [configureLink]
      split
      · next hjoins =>
          have hno : ¬ l.joins c d = true := fun h =>
            hne ((joins_iff.mp hjoins).symm.trans (joins_iff.mp h))
          have hno' : ¬ (TCLink.mk (l.intf1.setLinkProperties bw delay).self
              (l.intf2.setLinkProperties bw delay).self).joins c d = true := by
            rw [joins_iff] at hno ⊢
            simpa only [TCIntf.setLinkProperties, config_node] using hno
          rw [firstLink_of_not_joins hno, firstLink_of_not_joins hno']
      · by_cases hjoins : l.joins c d = true
        · rw [firstLink_of_joins hjoins, firstLink_of_joins hjoins]
        · rw [firstLink_of_not_joins hjoins, firstLink_of_not_joins hjoins, ih]

end Configure

/-! ## A sequence of settings -/

/-- The links behind some settings, all with the bandwidth of the chain. -/
def applySettings (str : K → String) (links : List TCLink) (settings : List (LinkSetting K)) :
    List TCLink :=
  settings.foldl (fun links x =>
    configureLink x.1 x.2.1 bentPipeLinkBandwidth (x.2.2.text str) links) links

/-- The link of a setting. -/
def LinkSetting.hop (x : LinkSetting K) : Sym2 NodeName := s(x.1, x.2.1)

section Settings

variable {str : K → String}

theorem applySettings_cons (x : LinkSetting K) (settings : List (LinkSetting K))
    (links : List TCLink) : applySettings str links (x :: settings) = applySettings str
      (configureLink x.1 x.2.1 bentPipeLinkBandwidth (x.2.2.text str) links) settings := rfl

theorem allCarry_applySettings : ∀ {settings : List (LinkSetting K)} {links : List TCLink},
    AllCarry links → AllCarry (applySettings str links settings) := by
  intro settings
  induction settings with
  | nil => exact fun h => h
  | cons x settings ih => exact fun h => ih (allCarry_configureLink h)

theorem linkEnds_applySettings : ∀ {settings : List (LinkSetting K)} {links : List TCLink},
    linkEnds (applySettings str links settings) = linkEnds links := by
  intro settings
  induction settings with
  | nil => exact rfl
  | cons x settings ih => exact ih.trans (linkEnds_configureLink _)

/-- A hop that is not set keeps what it has. -/
theorem hopCarries_of_not_set {a b : NodeName} {delay : String} :
    ∀ {settings : List (LinkSetting K)} {links : List TCLink},
      (∀ x ∈ settings, LinkSetting.hop x ≠ s(a, b)) → HopCarries links a b delay →
      HopCarries (applySettings str links settings) a b delay := by
  intro settings
  induction settings with
  | nil => exact fun _ h => h
  | cons x settings ih =>
      intro links hne h
      obtain ⟨hx, hrest⟩ := List.forall_mem_cons.mp hne
      refine ih hrest ?_
      rwa [HopCarries, firstLink_configureLink_of_ne _ hx]

/-- **Settings of different hops** leave each hop with its own. -/
theorem hopCarries_applySettings : ∀ {settings : List (LinkSetting K)} {links : List TCLink},
    (settings.map LinkSetting.hop).Nodup → AllCarry links →
      (∀ x ∈ settings, Joined links x.1 x.2.1) →
      ∀ x ∈ settings, HopCarries (applySettings str links settings) x.1 x.2.1 (x.2.2.text str) := by
  intro settings
  induction settings with
  | nil => exact fun _ _ _ x hx => absurd hx List.not_mem_nil
  | cons y settings ih =>
      intro links hnodup hcarry hjoined
      obtain ⟨hy, hrest⟩ := List.nodup_cons.mp hnodup
      obtain ⟨hjoin, hjoins⟩ := List.forall_mem_cons.mp hjoined
      have hnext : ∀ x ∈ settings,
          Joined (configureLink y.1 y.2.1 bentPipeLinkBandwidth (y.2.2.text str) links) x.1 x.2.1 :=
        fun x hx => by
          rw [joined_iff, linkEnds_configureLink, ← joined_iff]
          exact hjoins x hx
      rw [applySettings_cons]
      refine List.forall_mem_cons.mpr ⟨?_, ih hrest (allCarry_configureLink hcarry) hnext⟩
      have hset : HopCarries (configureLink y.1 y.2.1 bentPipeLinkBandwidth (y.2.2.text str) links)
          y.1 y.2.1 (y.2.2.text str) := hopCarries_configureLink hcarry hjoin
      exact hopCarries_of_not_set (fun x hx heq => hy (List.mem_map.mpr ⟨x, hx, heq⟩)) hset

/-- Settings to one delay leave a network of that delay as it is. -/
theorem carries_applySettings {delay : DelayArg K} :
    ∀ {settings : List (LinkSetting K)} {links : List TCLink},
      (∀ x ∈ settings, x.2.2 = delay) → (∀ l ∈ links, l.Carries (delay.text str)) →
      ∀ l ∈ applySettings str links settings, l.Carries (delay.text str) := by
  intro settings
  induction settings with
  | nil => exact fun _ h => h
  | cons x settings ih =>
      intro links hsettings h
      obtain ⟨hx, hrest⟩ := List.forall_mem_cons.mp hsettings
      rw [applySettings_cons, hx]
      exact ih hrest (carries_configureLink h)

end Settings

/-! ## The commands of the emulator -/

/-- If the command is a setting, it has the bandwidth of the chain and satisfies `P`. -/
def Cmd.Sets (P : LinkSetting K → Prop) (c : Cmd K) : Prop :=
  ∀ x, c.linkSetting? = some x → c = LinkSetting.cmd x ∧ P x

section Commands

variable {str : K → String} {P : LinkSetting K → Prop}

theorem sets_cmd {x : LinkSetting K} (h : P x) : (LinkSetting.cmd x).Sets P := by
  intro y hy
  obtain rfl := Option.some.inj hy
  exact ⟨rfl, h⟩

theorem sets_of_none {c : Cmd K} (h : c.linkSetting? = none) : c.Sets P :=
  fun x hx => absurd (h.symm.trans hx) (Option.some_ne_none x).symm

theorem of_mem_linkSettings {cmds : List (Cmd K)} (h : ∀ c ∈ cmds, c.Sets P) :
    ∀ x ∈ linkSettings cmds, P x := by
  intro x hx
  obtain ⟨c, hc, hcx⟩ := List.mem_filterMap.mp hx
  exact (h c hc x hcx).2

/-- Of the commands, the traffic control meets the settings. -/
theorem executeAll_eq : ∀ {cmds : List (Cmd K)} {links : List TCLink}, (∀ c ∈ cmds, c.Sets P) →
    executeAll str links cmds = applySettings str links (linkSettings cmds) := by
  intro cmds
  induction cmds with
  | nil => exact fun _ => rfl
  | cons c cmds ih =>
      intro links h
      obtain ⟨hc, hcmds⟩ := List.forall_mem_cons.mp h
      refine (ih hcmds).trans ?_
      rw [linkSettings, linkSettings]
      cases hset : c.linkSetting? with
      | none =>
          rw [List.filterMap_cons_none hset]
          cases c <;> first | rfl | cases hset
      | some x =>
          rw [List.filterMap_cons_some hset, (hc x hset).1]
          rfl

theorem executeAll_append (links : List TCLink) (cmds cmds' : List (Cmd K)) :
    executeAll str links (cmds ++ cmds') = executeAll str (executeAll str links cmds) cmds' :=
  List.foldl_append

/-- A call of `set_link_properties` sends a setting, or raises. -/
theorem within_setting {net : Topo K} {a b : NodeName} {delay : DelayArg K}
    (h : P (a, b, delay)) : Logged.Within (Cmd.Sets P) Stop.IsRaised
      (setLinkProperties net a b bentPipeLinkBandwidth delay) := by
  rw [setLinkProperties]
  split
  · exact Logged.within_raise ⟨_, rfl⟩
  · split
    · exact Logged.within_raise ⟨_, rfl⟩
    · exact Logged.within_tell (sets_cmd h)

end Commands

/-- The link is one between switches. -/
def BetweenSwitches (x : LinkSetting K) : Prop := ∃ i j, x.1 = .s i ∧ x.2.1 = .s j

theorem sets_layPath (n : Nat) (path : List (Option Int)) (delays : List K) :
    Logged.Within (Cmd.Sets BetweenSwitches) Stop.IsRaised (layPath n path delays) := by
  have hset : ∀ (i j : Int) (delay : DelayArg K),
      Logged.Within (Cmd.Sets BetweenSwitches) Stop.IsRaised
        (setLinkProperties (myTopo n) (.s i) (.s j) bentPipeLinkBandwidth delay) :=
    fun i j _ => within_setting ⟨i, j, rfl, rfl⟩
  refine Logged.within_bind (within_ofPy _) fun w₁ => ?_
  refine Logged.within_bind (hset _ _ _) fun _ => ?_
  refine Logged.within_bind (within_ofPy _) fun w₂ => ?_
  refine Logged.within_bind (hset _ _ _) fun _ => ?_
  refine Logged.within_bind (Logged.within_forEach (fun i => ?_) _) fun _ => ?_
  · exact Logged.within_bind (within_ofPy _) fun w => hset _ _ _
  · exact Logged.within_forEach (fun i => hset _ _ _) _

/-- **Every setting of a cycle** is one between switches, with the bandwidth of the chain. -/
theorem sets_cycleBody [Field K] [LinearOrder K] (env : Env K) (g : Globals K) (k : Nat) :
    ∀ c ∈ (cycleBody env g k).log, c.Sets BetweenSwitches := by
  intro c hc
  rcases mem_cycleBody hc with h | ⟨up, rfl⟩ | ⟨plan, h | h⟩ | ⟨path, delays, h⟩
  · exact sets_of_none (mem_aheadReports h).2
  · exact sets_of_none rfl
  · exact sets_of_none (mem_delayedReport h).2
  · simp only [interruptions, List.mem_cons, List.not_mem_nil, or_false] at h
    rcases h with rfl | rfl | rfl <;> exact sets_of_none rfl
  · exact (sets_layPath _ _ _).leaves c h

/-! ## The chain, from its start -/

/-- The links are those of the chain, and every link carries some delay. -/
structure Wired (N : Nat) (links : List TCLink) : Prop where
  linked : linkEnds links = (myTopo N : Topo Unit).links.map fun l => (l.node1, l.node2)
  carry : AllCarry links

section Network

variable {str : K → String} {N : Nat} {links : List TCLink}

theorem Wired.applySettings (h : Wired N links) (settings : List (LinkSetting K)) :
    Wired N (applySettings str links settings) :=
  ⟨linkEnds_applySettings.trans h.linked, allCarry_applySettings h.carry⟩

theorem Wired.joined (h : Wired N links) {i : Nat} (hi : i + 1 < N) :
    Joined links (.s i) (.s (i + 1)) := by
  rw [joined_iff, h.linked]
  refine ⟨(.s i, .s (i + 1)), List.mem_map.mpr ⟨addLink (.s i) (.s (i + 1)), ?_, rfl⟩, rfl⟩
  exact List.mem_append_left _ (List.mem_map.mpr ⟨i, List.mem_range.mpr (by omega), rfl⟩)

/-- The links between a host and its dish. -/
def hostHops (N : Nat) : List (NodeName × NodeName) := [(.h1, .s 0), (.h2, .s ((N : Int) - 1))]

theorem Wired.joined_host (h : Wired N links) {hop : NodeName × NodeName}
    (hhop : hop ∈ hostHops N) : Joined links hop.1 hop.2 := by
  rw [joined_iff, h.linked]
  refine ⟨hop, List.mem_map.mpr ⟨addLink hop.1 hop.2, List.mem_append_right _ ?_, rfl⟩, rfl⟩
  simp only [hostHops, List.mem_cons, List.not_mem_nil, or_false] at hhop
  rcases hhop with rfl | rfl
  · exact List.mem_cons_self
  · exact List.mem_cons_of_mem _ List.mem_cons_self

theorem hopCarries_of_joined {a b : NodeName} {delay : String} (h : Joined links a b)
    (hall : ∀ l ∈ links, l.Carries delay) : HopCarries links a b delay := by
  obtain ⟨l, hl, hjoins⟩ := h
  cases hfound : firstLink links a b with
  | none => exact absurd hjoins (List.find?_eq_none.mp hfound l hl)
  | some found => exact ⟨found, hfound, hall found (List.mem_of_find?_eq_some hfound)⟩

/-- Every link is made with the delay `0.01ms`. -/
theorem carries_tcLinks : ∀ l ∈ (myTopo N : Topo K).tcLinks str, l.Carries "0.01ms" := by
  intro l hl
  obtain ⟨link, hlink, rfl⟩ := List.mem_map.mp hl
  have hmem : ∀ node ∈ [link.node1, link.node2], link.intf str node ∈ link.intfs str :=
    fun node hnode => List.mem_map_of_mem hnode
  exact ⟨isShaped_intfs hlink (hmem _ List.mem_cons_self),
    isShaped_intfs hlink (hmem _ (List.mem_cons_of_mem _ List.mem_cons_self))⟩

theorem linkEnds_tcLinks : linkEnds ((myTopo N : Topo K).tcLinks str) =
    (myTopo N : Topo Unit).links.map fun l => (l.node1, l.node2) := by
  simp [linkEnds, Topo.tcLinks, Link.intf, TCIntf.create, config_node, myTopo, addLink]

/-- `initialize_link` sets every link to the delay that it has. -/
theorem sets_initializeLink : Logged.Within (Cmd.Sets fun x : LinkSetting K => x.2.2 = .unitialized)
    Stop.IsRaised (initializeLink N) := by
  have hset : ∀ a b : NodeName, Logged.Within
      (Cmd.Sets fun x : LinkSetting K => x.2.2 = .unitialized) Stop.IsRaised
      (setLinkProperties (myTopo N) a b bentPipeLinkBandwidth .unitialized) :=
    fun _ _ => within_setting rfl
  refine Logged.within_bind (Logged.within_forEach (fun i => hset _ _) _) fun _ => ?_
  exact Logged.within_bind (hset _ _) fun _ => hset _ _

/-- On a chain with a switch, `initialize_link` raises nothing. -/
theorem initializeLink_ok (hN : 1 ≤ N) :
    (initializeLink N : Logged (Cmd K) Stop Unit).result = .ok () := by
  have hs : ∀ i : Int, 0 ≤ i → i < N → NodeName.s i ∈ (myTopo N : Topo K).nodes :=
    fun i h₀ h₁ => mem_myTopo_nodes.mpr ⟨h₀, h₁⟩
  have hhosts : ∀ hop ∈ hostHops N, setLinkProperties (myTopo N : Topo K) hop.1 hop.2
      bentPipeLinkBandwidth .unitialized = Logged.tell
        (.setLinkProperties hop.1 hop.2 bentPipeLinkBandwidth .unitialized switchQueueSize) := by
    intro hop hhop
    have hconnects : (myTopo N : Topo K).connects hop.1 hop.2 = true :=
      List.any_eq_true.mpr ⟨addLink hop.1 hop.2, by
        simp only [hostHops, List.mem_cons, List.not_mem_nil, or_false] at hhop
        rcases hhop with rfl | rfl <;> simp [myTopo], by simp [addLink]⟩
    have hnodes : hop.1 ∈ (myTopo N : Topo K).nodes ∧ hop.2 ∈ (myTopo N : Topo K).nodes := by
      simp only [hostHops, List.mem_cons, List.not_mem_nil, or_false] at hhop
      rcases hhop with rfl | rfl
      · exact ⟨List.mem_cons_self, hs 0 le_rfl (by omega)⟩
      · exact ⟨List.mem_cons_of_mem _ List.mem_cons_self, hs _ (by omega) (by omega)⟩
    rw [setLinkProperties, if_neg (by simp [hnodes]), if_neg (by simp [hconnects])]
  have hchain : ∀ i ∈ PyList.range 0 ((N : Int) - 1), setLinkProperties (myTopo N : Topo K)
      (.s i) (.s (i + 1)) bentPipeLinkBandwidth .unitialized = Logged.tell
        (.setLinkProperties (.s i) (.s (i + 1)) bentPipeLinkBandwidth .unitialized
          switchQueueSize) := by
    intro i hi
    obtain ⟨h₀, h₁⟩ := PyList.mem_range.mp hi
    exact setLinkProperties_chain rfl h₀ (by omega) _ _
  rw [initializeLink]
  rw [Logged.forEach_tell hchain, Logged.tellAll_bind, hhosts _ List.mem_cons_self,
    hhosts _ (List.mem_cons_of_mem _ List.mem_cons_self)]
  rfl

/-- The chain carries a route, or none yet. -/
def ChainCarries [Field K] (str : K → String) (N : Nat) (links : List TCLink) :
    Option (Route K) → Prop
  | none => ∀ l ∈ links, l.Carries "0.01ms"
  | some r => (∀ hop ∈ hostHops N, HopCarries links hop.1 hop.2 "0.01ms") ∧
      ∃ settings, Laid N r settings ∧
        ∀ x ∈ settings, HopCarries links x.1 x.2.1 (x.2.2.text str)

theorem hostHops_of_chainCarries [Field K] {route : Option (Route K)} (hwired : Wired N links)
    (h : ChainCarries str N links route) :
    ∀ hop ∈ hostHops N, HopCarries links hop.1 hop.2 "0.01ms" := by
  cases route with
  | none => exact fun hop hhop => hopCarries_of_joined (hwired.joined_host hhop) h
  | some r => exact h.1

theorem emulatedLinks_nil : Wired N (emulatedLinks str N []) ∧
    ∀ l ∈ emulatedLinks str N [], l.Carries "0.01ms" := by
  have hcarries : ∀ l ∈ emulatedLinks str N [], l.Carries "0.01ms" := by
    rw [emulatedLinks, List.append_nil, executeAll_eq sets_initializeLink.leaves]
    exact carries_applySettings (of_mem_linkSettings sets_initializeLink.leaves) carries_tcLinks
  refine ⟨⟨?_, fun l hl => ⟨_, hcarries l hl⟩⟩, hcarries⟩
  rw [emulatedLinks, List.append_nil, executeAll_eq sets_initializeLink.leaves,
    linkEnds_applySettings]
  exact linkEnds_tcLinks

theorem emulatedLinks_append (cmds cmds' : List (Cmd K)) :
    emulatedLinks str N (cmds ++ cmds') = executeAll str (emulatedLinks str N cmds) cmds' := by
  rw [emulatedLinks, ← List.append_assoc, executeAll_append, emulatedLinks]

/-- The hops of a laid route are those of the chain, each once. -/
theorem Laid.hops [Field K] {r : Route K} {settings : List (LinkSetting K)}
    (h : Laid N r settings) : (settings.map LinkSetting.hop).Nodup ∧
      ∀ x ∈ settings, ∃ i : Nat, i + 1 < N ∧ x.1 = .s i ∧ x.2.1 = .s (i + 1) := by
  constructor
  · have hperm := h.once.map fun e => s(e.1, e.2)
    rw [List.map_map, List.map_map] at hperm
    refine hperm.nodup_iff.mpr (List.nodup_range.map fun i j hij => ?_)
    have hij : s(NodeName.s i, NodeName.s (i + 1)) = s(NodeName.s j, NodeName.s (j + 1)) := hij
    simp only [Sym2.eq_iff, NodeName.s.injEq] at hij
    omega
  · intro x hx
    obtain ⟨i, hi, heq⟩ := List.mem_map.mp (h.once.mem_iff.mp (List.mem_map_of_mem hx))
    obtain ⟨h₁, h₂⟩ := Prod.mk.inj heq
    exact ⟨i, by have := List.mem_range.mp hi; omega, h₁.symm, h₂.symm⟩

/-- Laying a route over the chain leaves the chain with it. -/
theorem chainCarries_applySettings [Field K] {route : Option (Route K)} {r : Route K}
    {settings : List (LinkSetting K)} (hwired : Wired N links)
    (hhosts : ChainCarries str N links route) (hlaid : Laid N r settings)
    (hswitches : ∀ x ∈ settings, BetweenSwitches x) :
    ChainCarries str N (applySettings str links settings) (some r) := by
  refine ⟨fun hop hhop => ?_, settings, hlaid,
    hopCarries_applySettings hlaid.hops.1 hwired.carry fun x hx => ?_⟩
  · refine hopCarries_of_not_set (fun x hx heq => ?_)
      (hostHops_of_chainCarries hwired hhosts hop hhop)
    obtain ⟨i, j, hi, hj⟩ := hswitches x hx
    rw [LinkSetting.hop, hi, hj, Sym2.eq_iff] at heq
    simp only [hostHops, List.mem_cons, List.not_mem_nil, or_false] at hhop
    rcases hhop with rfl | rfl <;> simp at heq
  · obtain ⟨i, hi, h₁, h₂⟩ := hlaid.hops.2 x hx
    rw [h₁, h₂]
    exact hwired.joined hi

end Network

/-! ## Over a run -/

/-- The route of the latest of the first `k` cycles that have one. -/
def latestRoute (cycles : List (Cycle K)) : Nat → Option (Route K)
  | 0 => none
  | k + 1 => (routeAt cycles k).or (latestRoute cycles k)

section Run

variable [Field K] [LinearOrder K] {str : K → String} {N k : Nat} {cycles : List (Cycle K)}
  {d : Nat → K} {vs : List (CycleVisit K)}

/-- One cycle that comes to its end. -/
theorem chainCarries_cycleBody {env : Env K} {g g' : Globals K} {links : List TCLink}
    (hfit : RoutesFit env.intermediateHopNum env.linkInfo)
    (hwired : Wired env.intermediateHopNum links)
    (h : ChainCarries str env.intermediateHopNum links (latestRoute env.linkInfo k))
    (hok : (cycleBody env g k).result = .ok g') :
    ChainCarries str env.intermediateHopNum (executeAll str links (cycleBody env g k).log)
      (latestRoute env.linkInfo (k + 1)) := by
  rw [executeAll_eq (sets_cycleBody env g k)]
  obtain ⟨c, hc, hn, ⟨hr, -⟩ | ⟨r, plan, hr, -, hp⟩⟩ := cycleBody_ok hok
  · have hnone : routeAt env.linkInfo k = none := by simp [routeAt, hc, hr]
    have hsettings : linkSettings (cycleBody env g k).log = [] := by
      rw [cycleBody_none hc hn hr, linkSettings_append,
        linkSettings_eq_nil fun c h => (mem_aheadReports h).2]
      rfl
    rw [hsettings, latestRoute, hnone]
    exact h
  · have hsome : routeAt env.linkInfo k = some r := routeAt_eq_some.mpr ⟨c, hc, hr⟩
    rw [latestRoute, hsome]
    exact chainCarries_applySettings hwired h
      (cycleBody_laid hc hn hr (hfit.at hsome) hp).2
      (of_mem_linkSettings (sets_cycleBody env g k))

theorem emulated_visit (hfit : RoutesFit N cycles)
    (hrun : updatePrecomputedLink N d cycles = .ok vs) : ∀ {k : Nat} {v : CycleVisit K},
    vs[k]? = some v → Wired N (emulatedLinks str N (Logged.logUpTo vs k)) ∧
      ChainCarries str N (emulatedLinks str N (Logged.logUpTo vs k)) (latestRoute cycles k) ∧
      ∀ g, v.done.result = .ok g → ChainCarries str N
        (emulatedLinks str N (Logged.logUpTo vs (k + 1))) (latestRoute cycles (k + 1)) := by
  obtain ⟨handovers, g₀, -, hvs⟩ := run_of_ok hrun
  have hdone : ∀ {k : Nat} {v : CycleVisit K}, vs[k]? = some v →
      v.done = cycleBody ⟨cycles, d, handovers, N⟩ v.before k :=
    fun hv => (visit_input (hvs ▸ hv)).2.2
  have hnext : ∀ {k : Nat} {v : CycleVisit K}, vs[k]? = some v →
      Wired N (emulatedLinks str N (Logged.logUpTo vs k)) →
      ChainCarries str N (emulatedLinks str N (Logged.logUpTo vs k)) (latestRoute cycles k) →
      ∀ g, v.done.result = .ok g → ChainCarries str N
        (emulatedLinks str N (Logged.logUpTo vs (k + 1))) (latestRoute cycles (k + 1)) := by
    intro k v hv hwired hcarries g hok
    rw [hdone hv] at hok
    rw [Logged.logUpTo_succ hv, emulatedLinks_append, hdone hv]
    exact chainCarries_cycleBody hfit hwired hcarries hok
  intro k
  induction k with
  | zero =>
      intro v hv
      have hstart : Wired N (emulatedLinks str N []) ∧ ChainCarries str N
          (emulatedLinks str N []) (latestRoute cycles 0) := emulatedLinks_nil
      exact ⟨hstart.1, hstart.2, hnext hv hstart.1 hstart.2⟩
  | succ k ih =>
      intro v hv
      obtain ⟨u, hu, hok⟩ := Logged.visits_succ (hvs ▸ hv)
      rw [← hvs] at hu
      obtain ⟨hwired, -, hcarries⟩ := ih hu
      have hwired' : Wired N (emulatedLinks str N (Logged.logUpTo vs (k + 1))) := by
        rw [Logged.logUpTo_succ hu, emulatedLinks_append, hdone hu,
          executeAll_eq (sets_cycleBody _ _ _)]
        exact hwired.applySettings _
      exact ⟨hwired', hcarries _ hok, hnext hv hwired' (hcarries _ hok)⟩

/-- **The emulated network carries the latest route.**  Whatever part of the commands of a run
has been executed, both interfaces of every link have their bandwidth, their queue and a delay;
and behind every cycle that comes to its end each hop of the chain has at both its ends the
delay that lays the latest route, and the hosts' links have kept theirs. -/
theorem shaped_run (hN : 1 ≤ N) (hfit : RoutesFit N cycles)
    (hrun : updatePrecomputedLink N d cycles = .ok vs) (str : K → String) :
    (initializeLink N : Logged (Cmd K) Stop Unit).result = .ok () ∧
    (∀ cmds, cmds <+: vs.flatMap (fun v => v.done.log) → AllCarry (emulatedLinks str N cmds)) ∧
    ∀ k v g, vs[k]? = some v → v.done.result = .ok g →
      ChainCarries str N (emulatedLinks str N (Logged.logUpTo vs (k + 1)))
        (latestRoute cycles (k + 1)) := by
  refine ⟨initializeLink_ok hN, fun cmds hcmds => ?_,
    fun k v g hv hok => (emulated_visit hfit hrun hv).2.2 g hok⟩
  have hsets : ∀ c ∈ cmds, c.Sets BetweenSwitches := by
    intro c hc
    obtain ⟨v, hv, hcv⟩ := List.mem_flatMap.mp (hcmds.subset hc)
    obtain ⟨k, hk⟩ := List.mem_iff_getElem?.mp hv
    obtain ⟨handovers, g₀, -, rfl⟩ := run_of_ok hrun
    rw [(visit_input hk).2.2] at hcv
    exact sets_cycleBody _ _ _ c hcv
  rw [← List.nil_append cmds, emulatedLinks_append, executeAll_eq hsets]
  exact allCarry_applySettings emulatedLinks_nil.1.carry

/-- A path of four nodes, no route, and a path of three. -/
theorem shaped_run_threeCycles : ∃ vs, updatePrecomputedLink 4 (fun _ => 0) threeCycles = .ok vs ∧
    ∀ k v g, vs[k]? = some v → v.done.result = .ok g →
      ChainCarries toString 4 (emulatedLinks toString 4 (Logged.logUpTo vs (k + 1)))
        (latestRoute threeCycles (k + 1)) :=
  ⟨_, rfl, (shaped_run (by decide) threeCycles_fit rfl toString).2.2⟩

end Run

end LeoEM
