import CloudComputing.Lib.FlowMods
import CloudComputing.Minidc.Broadcast
import CloudComputing.Minidc.Unicast

/-!
# Tables that are not complete

The rules of a switch reach it one by one, and those of an earlier policy may
still be there.  A switch that has a part of what the policies offer it does with
a frame what all of it would do, or drops it, as long as it floods nothing that it
does not yet know the hosts of.
-/

namespace CloudComputing.Minidc

open Lib FlowTable

/-- The flow table of a switch. -/
abbrev Flows := List (FlowEntry OFPMatch (List Output))

namespace Topology

variable (topo : Topology)

/-- `hop` for whatever the switches have in their tables. -/
def forward (flows : Str → Flows) (frame : Frame) (s : Str × Nat) : List ((Str × Nat) ⊕ Str) :=
  let outputs := ((FlowTable.lookup (·.hits frame s.2) (flows s.1)).map FlowEntry.action).getD []
  let ports := outputs.flatMap (Output.ports ((topo.ports.lookup s.1).getD ∅) s.2)
  ports.filterMap fun p => (topo.nodeAt s.1 p).bind (topo.arrive s.1)

/-- `send` for whatever the switches have in their tables. -/
def transmit (flows : Str → Flows) (limit : Nat) (frame : Frame) (h : Host) : Option (List Str) :=
  (topo.port h.switch h.name).bind fun p => spread (topo.forward flows frame) limit (h.switch, p)

/-- What is in the tables after the rules have been sent. -/
def installedAt (tables : Str → RoutingTable) (sw : Str) : Flows :=
  ((topo.dpid sw).map (tables sw).installed).getD []

theorem hop_eq_forward (tables : Str → RoutingTable) :
    topo.hop tables = topo.forward (topo.installedAt tables) := rfl

/-! ## What a switch is offered -/

def coreRules (c : CoreSwitch) : List Flow :=
  topo.coreRows c.name ++ topo.floods ++ [dropAll]

def edgeRules (core : Host → Str) (edge : EdgeSwitch) : List Flow :=
  topo.edgeRows core edge ++ topo.floodRows edge ++ [dropAll]

/-- A policy that sends the frames for hosts up to `tabled` can have sent the entry to the switch.
-/
def Offers (tabled : List Str) (dpid : Int) (e : FlowEntry OFPMatch (List Output)) : Prop :=
  (∃ c ∈ topo.coreSwitches.values, c.dpid = dpid ∧ e ∈ (topo.coreRules c).map Flow.entry) ∨
    ∃ edge ∈ topo.edgeSwitches.values, edge.dpid = dpid ∧
      ∃ core, topo.Assigns tabled core ∧ e ∈ (topo.edgeRules core edge).map Flow.entry

/-- A table that such policies have made, in whatever order. -/
structure Sound (tabled : List Str) (dpid : Int) (flows : Flows) : Prop where
  offered : ∀ e ∈ flows, topo.Offers tabled dpid e
  unique : Unique flows

/-- The match and the priority of the rule for a host. -/
def hostKey (h : Host) : FlowEntry OFPMatch (List Output) :=
  (⟨.dst h.eth, [], 2⟩ : Flow).entry

/-- A switch that floods anything has a rule for every host. -/
def Guarded (flows : Flows) : Prop :=
  ∀ e ∈ flows, e.priority = 1 → ∀ h ∈ topo.hosts.values, FlowTable.Covers flows (hostKey h)

variable {topo} {core : Host → Str} {frame : Frame} {inport : Nat} {edge : EdgeSwitch}
  {c : CoreSwitch} {h src dst : Host} {flows : Flows} {flow : Flow} {dpid : Int} {rest : List Flow}
  {e x : FlowEntry OFPMatch (List Output)} {port : Host → Nat}

/-! ## No two rules compete -/

/-- The rules for hosts do not compete with each other or with anything below them. -/
theorem resolves_rules (hwf : topo.WellFormed) (hrest : ∀ flow ∈ rest, flow.priority ≤ 1)
    (hbelow : ∀ f ∈ rest, ∀ g ∈ rest, (makeMatch f.type).hits frame inport = true →
      (makeMatch g.type).hits frame inport = true → f.priority = g.priority → f = g) :
    Resolves (·.hits frame inport)
      ((topo.hosts.values.map (fun h => (⟨.dst h.eth, [.port (port h)], 2⟩ : Flow)) ++ rest).map
        Flow.entry) := by
  intro e he e' he' hhit hhit' hpriority
  obtain ⟨f, hf, rfl⟩ := List.mem_map.mp he
  obtain ⟨g, hg, rfl⟩ := List.mem_map.mp he'
  congr 1
  rcases List.mem_append.mp hf with hf | hf
  · obtain ⟨h, hh, rfl⟩ := List.mem_map.mp hf
    rcases List.mem_append.mp hg with hg | hg
    · obtain ⟨h', hh', rfl⟩ := List.mem_map.mp hg
      rw [hwf.eq_of_eth hh hh' ((hits_dst.mp hhit).trans (hits_dst.mp hhit').symm)]
    · have hlow := hrest g hg
      change 2 = g.priority at hpriority
      omega
  · rcases List.mem_append.mp hg with hg | hg
    · obtain ⟨h', hh', rfl⟩ := List.mem_map.mp hg
      have hlow := hrest f hf
      change f.priority = 2 at hpriority
      omega
    · exact hbelow f hf g hg hhit hhit' hpriority

theorem resolves_coreRules (hwf : topo.WellFormed) (c : CoreSwitch) :
    Resolves (·.hits frame inport) ((topo.coreRules c).map Flow.entry) := by
  rw [coreRules, List.append_assoc]
  refine resolves_rules hwf (fun flow h => priority_floods h) ?_
  intro f hf g hg hhit hhit' hpriority
  rcases List.mem_append.mp hf with hf | hf
  · obtain ⟨h, hh, rfl⟩ := List.mem_map.mp hf
    rcases List.mem_append.mp hg with hg | hg
    · obtain ⟨h', hh', rfl⟩ := List.mem_map.mp hg
      rw [hwf.eq_of_eth hh hh' ((hits_src.mp hhit).trans (hits_src.mp hhit').symm)]
    · rw [List.mem_singleton.mp hg] at hpriority
      exact absurd hpriority (by simp [floodRule, dropAll])
  · rcases List.mem_append.mp hg with hg | hg
    · obtain ⟨h', hh', rfl⟩ := List.mem_map.mp hg
      rw [List.mem_singleton.mp hf] at hpriority
      exact absurd hpriority (by simp [floodRule, dropAll])
    · rw [List.mem_singleton.mp hf, List.mem_singleton.mp hg]

theorem eq_of_floodRows {f g : Flow} (hwf : topo.WellFormed)
    (he : edge ∈ topo.edgeSwitches.values) (hf : f ∈ topo.floodRows edge)
    (hg : g ∈ topo.floodRows edge) (hhit : (makeMatch f.type).hits frame inport = true)
    (hhit' : (makeMatch g.type).hits frame inport = true) : f = g := by
  have hwired := hwf.edge_wired he
  have hcore : ∀ c ∈ topo.coreSwitches.values,
      c.name ∈ sorted topo.coreSwitches.keys ++ sorted edge.neighbors :=
    fun c hc => WellFormed.mem_edge_nodes (Or.inl (hwf.name_mem_cores hc))
  have hhost : ∀ n ∈ edge.neighbors, n ∈ sorted topo.coreSwitches.keys ++ sorted edge.neighbors :=
    fun n hn => WellFormed.mem_edge_nodes (Or.inr hn)
  have hnot : ∀ c ∈ topo.coreSwitches.values, c.name ∉ edge.neighbors :=
    fun c hc hn => ((hwf.neighbors edge he).2 _ hn).1 (hwf.name_mem_cores hc)
  rcases (mem_floodRows hf).2 with ⟨c, hc, rfl⟩ | ⟨n, hn, rfl⟩
  · have hport := hits_inport.mp hhit
    rcases (mem_floodRows hg).2 with ⟨c', hc', rfl⟩ | ⟨n', hn', rfl⟩
    · have hname := hwired.portOf_inj (hcore c hc) (hcore c' hc')
        (hport.trans (hits_inport.mp hhit').symm)
      rw [down, down, hname]
    · have hname := hwired.portOf_inj (hcore c hc) (hhost n' hn')
        (hport.trans (hits_inport.mp hhit').symm)
      exact absurd (hname ▸ hn') (hnot c hc)
  · have hport := hits_inport.mp hhit
    rcases (mem_floodRows hg).2 with ⟨c', hc', rfl⟩ | ⟨n', hn', rfl⟩
    · have hname := hwired.portOf_inj (hhost n hn) (hcore c' hc')
        (hport.trans (hits_inport.mp hhit').symm)
      exact absurd (hname ▸ hn) (hnot c' hc')
    · have hname := hwired.portOf_inj (hhost n hn) (hhost n' hn')
        (hport.trans (hits_inport.mp hhit').symm)
      rw [hname]

theorem resolves_edgeRules (hwf : topo.WellFormed) (he : edge ∈ topo.edgeSwitches.values)
    (core : Host → Str) :
    Resolves (·.hits frame inport) ((topo.edgeRules core edge).map Flow.entry) := by
  rw [edgeRules, List.append_assoc]
  refine resolves_rules hwf (fun flow h => priority_floodRows h) ?_
  intro f hf g hg hhit hhit' hpriority
  rcases List.mem_append.mp hf with hf | hf
  · rcases List.mem_append.mp hg with hg | hg
    · exact eq_of_floodRows hwf he hf hg hhit hhit'
    · rw [(mem_floodRows hf).1, List.mem_singleton.mp hg] at hpriority
      exact absurd hpriority (by decide)
  · rcases List.mem_append.mp hg with hg | hg
    · rw [(mem_floodRows hg).1, List.mem_singleton.mp hf] at hpriority
      exact absurd hpriority (by decide)
    · rw [List.mem_singleton.mp hf, List.mem_singleton.mp hg]

/-! ## One switch -/

/-- Rules for hosts on top, at the bottom nothing that forwards. -/
structure Layered (topo : Topology) (rules : List Flow) : Prop where
  low : ∀ flow ∈ rules, flow.priority = 0 → flow.output = []
  high : ∀ flow ∈ rules, 1 < flow.priority → ∃ h ∈ topo.hosts.values,
    flow.type = .dst h.eth ∧ flow.priority = 2

theorem layered_rules (hrest : ∀ flow ∈ rest, flow.priority ≤ 1)
    (hlow : ∀ flow ∈ rest, flow.priority = 0 → flow.output = []) :
    Layered topo
      (topo.hosts.values.map (fun h => (⟨.dst h.eth, [.port (port h)], 2⟩ : Flow)) ++ rest) where
  low := by
    intro flow hflow hzero
    rcases List.mem_append.mp hflow with hflow | hflow
    · obtain ⟨h, -, rfl⟩ := List.mem_map.mp hflow
      exact absurd hzero (by simp)
    · exact hlow flow hflow hzero
  high := by
    intro flow hflow hhigh
    rcases List.mem_append.mp hflow with hflow | hflow
    · obtain ⟨h, hh, rfl⟩ := List.mem_map.mp hflow
      exact ⟨h, hh, rfl, rfl⟩
    · have hle := hrest flow hflow
      omega

theorem layered_coreRules (c : CoreSwitch) : Layered topo (topo.coreRules c) := by
  rw [coreRules, List.append_assoc]
  refine layered_rules (fun flow h => priority_floods h) fun flow hflow hzero => ?_
  rcases List.mem_append.mp hflow with hflow | hflow
  · obtain ⟨h, -, rfl⟩ := List.mem_map.mp hflow
    exact absurd hzero (by simp [floodRule])
  · rw [List.mem_singleton.mp hflow]
    rfl

theorem layered_edgeRules (core : Host → Str) (edge : EdgeSwitch) :
    Layered topo (topo.edgeRules core edge) := by
  rw [edgeRules, List.append_assoc]
  refine layered_rules (fun flow h => priority_floodRows h) fun flow hflow hzero => ?_
  rcases List.mem_append.mp hflow with hflow | hflow
  · rw [(mem_floodRows hflow).1] at hzero
    exact absurd hzero (by decide)
  · rw [List.mem_singleton.mp hflow]
    rfl

/-- With a part of its rules a switch drops a frame or finds the rule that it would find among all
of them. -/
theorem lookup_part {rules : List Flow} (hlayered : Layered topo rules)
    (hres : Resolves (·.hits frame inport) (rules.map Flow.entry))
    (hsub : ∀ e ∈ flows, e ∈ rules.map Flow.entry)
    (hguard : topo.Guarded flows ∨ topo.Unknown frame) :
    ((FlowTable.lookup (·.hits frame inport) flows).map FlowEntry.action).getD [] = [] ∨
      FlowTable.lookup (·.hits frame inport) flows =
        FlowTable.lookup (·.hits frame inport) (rules.map Flow.entry) := by
  cases hlookup : FlowTable.lookup (·.hits frame inport) flows with
  | none => exact Or.inl rfl
  | some e =>
      obtain ⟨he, -⟩ := mem_of_lookup hlookup
      obtain ⟨flow, hflow, rfl⟩ := List.mem_map.mp (hsub e he)
      by_cases hzero : flow.priority = 0
      · exact Or.inl (hlayered.low flow hflow hzero)
      · refine Or.inr (hres.lookup_of_part hsub hlookup fun x hx hhit hlt => ?_).symm
        obtain ⟨flow', hflow', rfl⟩ := List.mem_map.mp hx
        change flow.priority < flow'.priority at hlt
        obtain ⟨h, hh, htype, hpriority⟩ := hlayered.high flow' hflow' (by omega)
        have hdst : h.eth = frame.ethDst := by
          rw [Flow.entry, htype] at hhit
          exact hits_dst.mp hhit
        rcases hguard with hguard | hunknown
        · -- a rule of priority one is there, so the rule for the host is there as well
          obtain ⟨y, hy, hclash⟩ := hguard flow.entry he (by change flow.priority = 1; omega) h hh
          have hkey : Clashes (hostKey h) flow'.entry := by
            refine ⟨?_, hpriority.symm⟩
            rw [Flow.entry, htype]
            rfl
          have hsame := hclash.trans hkey
          have hhit' : y.field.hits frame inport = true := by
            rw [hsame.1]
            exact hhit
          have heq := hres y (hsub y hy) flow'.entry hx hhit' hhit hsame.2
          rw [← heq]
          exact hy
        · exact absurd hdst (hunknown h hh)

/-! ## The whole network -/

/-- The rules of every switch, if the core switches in `tabled` forward and the edge switches have
chosen one of them for each host. -/
def rules (topo : Topology) (tabled : List Str) (cores : Str → Host → Str) (sw : Str) : List Flow :=
  match topo.coreSwitches.lookup sw with
  | some c => if tabled.contains sw then topo.coreRules c else [dropAll]
  | none =>
      match topo.edgeSwitches.lookup sw with
      | some edge => topo.edgeRules (cores sw) edge
      | none => []

/-- The rules as tables, one for each switch. -/
def completion (topo : Topology) (tabled : List Str) (cores : Str → Host → Str) (sw : Str) :
    RoutingTable :=
  match topo.dpid sw with
  | some d => Dict.set d (topo.rules tabled cores sw) ∅
  | none => ∅

variable {tabled : List Str} {cores : Str → Host → Str} {live : Str → Flows} {sw : Str}

theorem rules_core (hwf : topo.WellFormed) (hc : c ∈ topo.coreSwitches.values) :
    topo.rules tabled cores c.name = if c.name ∈ tabled then topo.coreRules c else [dropAll] := by
  rw [rules, hwf.lookup_core hc]
  simp only [List.contains_iff_mem]

theorem rules_edge (hwf : topo.WellFormed) (he : edge ∈ topo.edgeSwitches.values) :
    topo.rules tabled cores edge.name = topo.edgeRules (cores edge.name) edge := by
  have hnot : edge.name ∉ topo.coreSwitches :=
    fun hmem => hwf.switches _ hmem (hwf.name_mem_edges he)
  rw [rules, AList.lookup_eq_none.mpr hnot, hwf.lookup_edge he]

theorem lookup_completion (hdpid : topo.dpid sw = some dpid) :
    (topo.completion tabled cores sw).lookup dpid = some (topo.rules tabled cores sw) := by
  rw [completion, hdpid]
  exact Dict.lookup_set_self

theorem exists_of_dpid (hwf : topo.WellFormed) (h : topo.dpid sw = some dpid) :
    (∃ c ∈ topo.coreSwitches.values, c.name = sw ∧ c.dpid = dpid) ∨
      ∃ edge ∈ topo.edgeSwitches.values, edge.name = sw ∧ edge.dpid = dpid := by
  rw [Topology.dpid, Option.or_eq_some_iff] at h
  rcases h with h | ⟨-, h⟩
  · obtain ⟨c, hc, rfl⟩ := Option.map_eq_some_iff.mp h
    exact Or.inl ⟨c, Dict.mem_values_iff.mpr ⟨sw, hc⟩,
      hwf.cores ⟨sw, c⟩ (Dict.mem_entries_iff.mpr hc), rfl⟩
  · obtain ⟨edge, he, rfl⟩ := Option.map_eq_some_iff.mp h
    exact Or.inr ⟨edge, Dict.mem_values_iff.mpr ⟨sw, he⟩,
      hwf.edges ⟨sw, edge⟩ (Dict.mem_entries_iff.mpr he), rfl⟩

def dpids (topo : Topology) : List Int :=
  topo.coreSwitches.values.map CoreSwitch.dpid ++ topo.edgeSwitches.values.map EdgeSwitch.dpid

theorem mem_dpids (hwf : topo.WellFormed) (h : topo.dpid sw = some dpid) : dpid ∈ topo.dpids := by
  rcases exists_of_dpid hwf h with ⟨c, hc, -, rfl⟩ | ⟨edge, he, -, rfl⟩
  · exact List.mem_append_left _ (List.mem_map_of_mem hc)
  · exact List.mem_append_right _ (List.mem_map_of_mem he)

theorem resolves_switch (tabled : List Str) (cores : Str → Host → Str) (frame : Frame)
    (inport : Nat) (hwf : topo.WellFormed) (hdpid : topo.dpid sw = some dpid) :
    Layered topo (topo.rules tabled cores sw) ∧
      Resolves (·.hits frame inport) ((topo.rules tabled cores sw).map Flow.entry) := by
  rcases exists_of_dpid hwf hdpid with ⟨c, hc, rfl, -⟩ | ⟨edge, he, rfl, -⟩
  · rw [rules_core hwf hc]
    split
    case isTrue => exact ⟨layered_coreRules c, resolves_coreRules hwf c⟩
    case isFalse =>
      refine ⟨⟨?_, ?_⟩, ?_⟩
      · simp [dropAll]
      · simp [dropAll]
      · simp [Resolves]
  · rw [rules_edge hwf he]
    exact ⟨layered_edgeRules _ edge, resolves_edgeRules hwf he _⟩

theorem lookup_installedAt (hwf : topo.WellFormed) (hdpid : topo.dpid sw = some dpid) :
    FlowTable.lookup (·.hits frame inport) (topo.installedAt (topo.completion tabled cores) sw) =
      FlowTable.lookup (·.hits frame inport) ((topo.rules tabled cores sw).map Flow.entry) := by
  rw [installedAt, hdpid, Option.map_some, Option.getD_some, RoutingTable.installed,
    lookup_completion hdpid, Option.getD_some]
  exact (resolves_switch tabled cores frame inport hwf hdpid).2.lookup_install

theorem forward_congr {live' : Str → Flows}
    (h : FlowTable.lookup (·.hits frame inport) (live sw) =
      FlowTable.lookup (·.hits frame inport) (live' sw)) :
    topo.forward live frame (sw, inport) = topo.forward live' frame (sw, inport) := by
  simp only [forward, h]

theorem forward_nil
    (h : ((FlowTable.lookup (·.hits frame inport) (live sw)).map FlowEntry.action).getD [] = []) :
    topo.forward live frame (sw, inport) = [] := by
  simp only [forward, h, List.flatMap_nil, List.filterMap_nil]

/-- Every switch has a part of its rules, and other nodes have none. -/
structure Part (topo : Topology) (tabled : List Str) (cores : Str → Host → Str)
    (live : Str → Flows) : Prop where
  assigns : ∀ edge ∈ topo.edgeSwitches.values, topo.Assigns tabled (cores edge.name)
  sub : ∀ sw, ∀ e ∈ live sw, e ∈ (topo.rules tabled cores sw).map Flow.entry
  none : ∀ sw, topo.dpid sw = none → live sw = []

namespace Part

theorem programmed (h : Part topo tabled cores live) (hwf : topo.WellFormed) :
    topo.Programmed tabled (topo.completion tabled cores) where
  cores c hc := by
    rw [lookup_completion (hwf.dpid_core hc), rules_core hwf hc]
    split
    case isTrue => rfl
    case isFalse => rfl
  edges edge he := by
    refine ⟨cores edge.name, h.assigns edge he, ?_⟩
    rw [lookup_completion (hwf.dpid_edge he), rules_edge hwf he, edgeRules]

/-- Every switch drops a frame or does with it what it would do with all of its rules. -/
theorem forward (h : Part topo tabled cores live) (hwf : topo.WellFormed)
    (hguard : (∀ sw, topo.Guarded (live sw)) ∨ topo.Unknown frame)
    (s : Str × Nat) : topo.forward live frame s = [] ∨
      topo.forward live frame s = topo.hop (topo.completion tabled cores) frame s := by
  obtain ⟨sw, inport⟩ := s
  cases hdpid : topo.dpid sw with
  | none =>
      refine Or.inl (forward_nil ?_)
      rw [h.none sw hdpid]
      rfl
  | some dpid =>
      obtain ⟨hlayered, hres⟩ := resolves_switch tabled cores frame inport hwf hdpid
      rcases lookup_part hlayered hres (h.sub sw) (hguard.imp_left fun h => h sw)
        with hdrop | hsame
      · exact Or.inl (forward_nil hdrop)
      · refine Or.inr ?_
        rw [hop_eq_forward]
        exact forward_congr (hsame.trans (lookup_installedAt hwf hdpid).symm)

/-- A frame for a host gets to that host or to nobody. -/
theorem unicast (h : Part topo tabled cores live) (hwf : topo.WellFormed)
    (htabled : ∀ n ∈ tabled, n ∈ topo.coreSwitches.keys) (hguard : ∀ sw, topo.Guarded (live sw))
    (hsrc : src ∈ topo.hosts.values) (hdst : dst ∈ topo.hosts.values) (hne : src ≠ dst)
    (hframe : frame.ethDst = dst.eth) :
    topo.transmit live 3 frame src = some [] ∨ topo.transmit live 3 frame src = some [dst.name] := by
  have hsend := send_unicast hwf (h.programmed hwf) htabled hsrc hdst hne hframe
  rw [send] at hsend
  obtain ⟨p, hport, hspread⟩ := Option.bind_eq_some_iff.mp hsend
  obtain ⟨copies, hcopies, hsub⟩ := spread_sublist (h.forward hwf (Or.inl hguard)) hspread
  rw [transmit, hport, Option.bind_some, hcopies]
  rcases List.sublist_singleton.mp hsub with rfl | rfl
  · exact Or.inl rfl
  · exact Or.inr rfl

/-- A frame for no host gets to every other host as often as there are core switches that forward,
or less often. -/
theorem unknown (hpart : Part topo tabled cores live) (hwf : topo.WellFormed)
    (hh : h ∈ topo.hosts.values) (hun : topo.Unknown frame) (hframe : frame.ethSrc = h.eth) :
    ∃ copies, topo.transmit live 3 frame h = some copies ∧ copies.count h.name = 0 ∧
      ∀ g ∈ topo.hosts.values, g ≠ h → copies.count g.name ≤
        if g.switch = h.switch then 1 else (topo.coreSwitches.keys.filter (· ∈ tabled)).length := by
  obtain ⟨all, hsend, hself, hothers⟩ :=
    exists_send_broadcast hwf (hpart.programmed hwf) hh hun hframe
  rw [send] at hsend
  obtain ⟨p, hport, hspread⟩ := Option.bind_eq_some_iff.mp hsend
  obtain ⟨copies, hcopies, hsub⟩ := spread_sublist (hpart.forward hwf (Or.inr hun)) hspread
  refine ⟨copies, by rw [transmit, hport, Option.bind_some, hcopies], ?_, fun g hg hne => ?_⟩
  · have hle := hsub.count_le h.name
    omega
  · rw [← hothers g hg hne]
    exact hsub.count_le g.name

end Part

/-! ## From sound tables -/

def hostRule (topo : Topology) (edge : EdgeSwitch) (core : Str) (h : Host) : Flow :=
  ⟨.dst h.eth, [.port (topo.portOf edge.name (nextHop (fun _ => core) edge h))], 2⟩

theorem mem_edgeRules {e : FlowEntry OFPMatch (List Output)} :
    e ∈ (topo.edgeRules core edge).map Flow.entry ↔
      (∃ h ∈ topo.hosts.values, e = (topo.hostRule edge (core h) h).entry) ∨
        e ∈ (topo.floodRows edge ++ [dropAll]).map Flow.entry := by
  rw [edgeRules, List.append_assoc, List.map_append, List.mem_append, edgeRows, List.map_map,
    List.mem_map]
  constructor
  · rintro (⟨h, hh, rfl⟩ | he)
    · exact Or.inl ⟨h, hh, rfl⟩
    · exact Or.inr he
  · rintro (⟨h, hh, rfl⟩ | he)
    · exact Or.inl ⟨h, hh, rfl⟩
    · exact Or.inr he

/-- An edge switch has at most one rule for each host, so one choice of core switches explains its
table. -/
theorem Sound.exists_core (hsound : topo.Sound tabled edge.dpid flows) (hwf : topo.WellFormed)
    (he : edge ∈ topo.edgeSwitches.values) (hne : ∃ n, n ∈ tabled) :
    ∃ core, topo.Assigns tabled core ∧
      ∀ e ∈ flows, e ∈ (topo.edgeRules core edge).map Flow.entry := by
  have hoffer : ∀ e ∈ flows, ∃ core, topo.Assigns tabled core ∧
      e ∈ (topo.edgeRules core edge).map Flow.entry := by
    intro e hmem
    rcases hsound.offered e hmem with ⟨c, hc, hdpid, -⟩ | ⟨edge', he', hdpid, hcore⟩
    · have hdisjoint := (List.nodup_append.mp hwf.dpids).2.2
      exact absurd hdpid (hdisjoint _ (List.mem_map_of_mem hc) _ (List.mem_map_of_mem he))
    · have hnodup := (List.nodup_append.mp hwf.dpids).2.1
      rwa [List.inj_on_of_nodup_map hnodup he' he hdpid] at hcore
  obtain ⟨some', hsome⟩ := hne
  have hchoice : ∀ h : Host, ∃ n ∈ tabled, h ∈ topo.hosts.values →
      ∀ e ∈ flows, Clashes e (hostKey h) → e = (topo.hostRule edge n h).entry := by
    intro h
    by_cases hrule : h ∈ topo.hosts.values ∧ ∃ e ∈ flows, Clashes e (hostKey h)
    · obtain ⟨hh, e, hmem, hclash⟩ := hrule
      obtain ⟨core, hassigns, hcore⟩ := hoffer e hmem
      refine ⟨core h, hassigns h hh, fun _ e' hmem' hclash' => ?_⟩
      rw [hsound.unique e' hmem' e hmem (hclash'.trans hclash.symm)]
      rcases mem_edgeRules.mp hcore with ⟨h', hh', rfl⟩ | hlow
      · have heth : h'.eth = h.eth := by simpa [hostRule, hostKey, Flow.entry, makeMatch] using hclash.1
        rw [hwf.eq_of_eth hh' hh heth]
      · obtain ⟨flow, hflow, rfl⟩ := List.mem_map.mp hlow
        have hle := priority_floodRows hflow
        have hpriority : flow.priority = 2 := hclash.2
        omega
    · exact ⟨some', hsome, fun hh e hmem hclash => absurd ⟨hh, e, hmem, hclash⟩ hrule⟩
  choose core hcore hrules using hchoice
  refine ⟨core, fun h _ => hcore h, fun e hmem => mem_edgeRules.mpr ?_⟩
  obtain ⟨core', -, hcore'⟩ := hoffer e hmem
  rcases mem_edgeRules.mp hcore' with ⟨h, hh, rfl⟩ | hlow
  · exact Or.inl ⟨h, hh, hrules h hh _ hmem ⟨rfl, rfl⟩⟩
  · exact Or.inr hlow

/-- Sound tables are parts of what the switches could have. -/
theorem exists_part (hwf : topo.WellFormed) (hne : ∃ n, n ∈ tabled)
    (hsound : ∀ sw dpid, topo.dpid sw = some dpid → topo.Sound tabled dpid (live sw))
    (hnone : ∀ sw, topo.dpid sw = none → live sw = [])
    (hcore : ∀ c ∈ topo.coreSwitches.values,
      c.name ∈ tabled ∨ ∀ e ∈ live c.name, e = dropAll.entry) :
    ∃ cores, Part topo tabled cores live := by
  have hchoice : ∀ sw, ∃ core, topo.Assigns tabled core ∧
      ∀ edge ∈ topo.edgeSwitches.values, edge.name = sw →
        ∀ e ∈ live sw, e ∈ (topo.edgeRules core edge).map Flow.entry := by
    intro sw
    by_cases hedge : ∃ edge ∈ topo.edgeSwitches.values, edge.name = sw
    · obtain ⟨edge, he, rfl⟩ := hedge
      obtain ⟨core, hassigns, hrules⟩ :=
        (hsound edge.name edge.dpid (hwf.dpid_edge he)).exists_core hwf he hne
      refine ⟨core, hassigns, fun edge' he' hname => ?_⟩
      have hlookup := hwf.lookup_edge he'
      rw [hname, hwf.lookup_edge he] at hlookup
      rwa [← Option.some.inj hlookup]
    · obtain ⟨n, hn⟩ := hne
      exact ⟨fun _ => n, fun _ _ => hn, fun edge he hname => absurd ⟨edge, he, hname⟩ hedge⟩
  choose cores hassigns hrules using hchoice
  refine ⟨cores, fun edge _ => hassigns edge.name, fun sw e hmem => ?_, hnone⟩
  cases hdpid : topo.dpid sw with
  | none =>
      rw [hnone sw hdpid] at hmem
      cases hmem
  | some dpid =>
      rcases exists_of_dpid hwf hdpid with ⟨c, hc, rfl, rfl⟩ | ⟨edge, he, rfl, -⟩
      · rw [rules_core hwf hc]
        by_cases htabled : c.name ∈ tabled
        case neg =>
          rw [if_neg htabled, (hcore c hc).resolve_left htabled e hmem]
          exact List.mem_singleton_self _
        rw [if_pos htabled]
        rcases (hsound c.name c.dpid hdpid).offered e hmem with ⟨c', hc', heq, hrule⟩ |
          ⟨edge, he, heq, -⟩
        · rwa [hwf.eq_of_dpid hc' hc heq] at hrule
        · have hdisjoint := (List.nodup_append.mp hwf.dpids).2.2
          exact absurd heq.symm (hdisjoint _ (List.mem_map_of_mem hc) _ (List.mem_map_of_mem he))
      · rw [rules_edge hwf he]
        exact hrules edge.name edge he rfl e hmem

theorem offers_rule {cores' : List Str} (hwf : topo.WellFormed) (hdpid : topo.dpid sw = some dpid)
    (hassigns : topo.Assigns tabled (cores sw)) (hsub : ∀ n ∈ tabled, n ∈ cores')
    (hflow : flow ∈ topo.rules tabled cores sw) : topo.Offers cores' dpid flow.entry := by
  rcases exists_of_dpid hwf hdpid with ⟨c, hc, rfl, rfl⟩ | ⟨edge, he, rfl, rfl⟩
  · refine Or.inl ⟨c, hc, rfl, List.mem_map_of_mem ?_⟩
    rw [rules_core hwf hc] at hflow
    split at hflow
    case isTrue => exact hflow
    case isFalse =>
      rw [List.mem_singleton.mp hflow]
      exact List.mem_append_right _ (List.mem_singleton_self _)
  · rw [rules_edge hwf he] at hflow
    exact Or.inr ⟨edge, he, rfl, cores edge.name, fun h hh => hsub _ (hassigns h hh),
      List.mem_map_of_mem hflow⟩

/-- The entry is a rule of the switch, for some choice of core switches. -/
def Makes (topo : Topology) (tabled : List Str) (sw : Str)
    (e : FlowEntry OFPMatch (List Output)) : Prop :=
  ∃ core, topo.Assigns tabled core ∧ e ∈ (topo.rules tabled (fun _ => core) sw).map Flow.entry

theorem makes_rules (hassigns : topo.Assigns tabled (cores sw))
    (hflow : flow ∈ topo.rules tabled cores sw) : topo.Makes tabled sw flow.entry :=
  ⟨cores sw, hassigns, List.mem_map_of_mem hflow⟩

theorem exists_part_of_makes (hwf : topo.WellFormed) (hne : ∃ n, n ∈ tabled)
    (hmade : ∀ sw dpid, topo.dpid sw = some dpid →
      (∀ e ∈ live sw, topo.Makes tabled sw e) ∧ Unique (live sw))
    (hnone : ∀ sw, topo.dpid sw = none → live sw = []) :
    ∃ cores, Part topo tabled cores live := by
  refine exists_part hwf hne (fun sw dpid hdpid => ⟨fun e he => ?_, (hmade sw dpid hdpid).2⟩) hnone
    fun c hc => ?_
  · obtain ⟨core, hassigns, he⟩ := (hmade sw dpid hdpid).1 e he
    obtain ⟨flow, hflow, rfl⟩ := List.mem_map.mp he
    exact offers_rule hwf hdpid hassigns (fun n hn => hn) hflow
  · by_cases htabled : c.name ∈ tabled
    · exact Or.inl htabled
    · refine Or.inr fun e he => ?_
      obtain ⟨core, -, he⟩ := (hmade c.name c.dpid (hwf.dpid_core hc)).1 e he
      rw [rules_core hwf hc, if_neg htabled] at he
      exact List.mem_singleton.mp he

/-! ## Complete tables -/

/-- The switch has an entry in the place of each of its rules; which core switches they name does
not matter for that. -/
def Complete (topo : Topology) (tabled : List Str) (sw : Str) (flows : Flows) : Prop :=
  ∀ flow ∈ topo.rules tabled (fun _ _ => []) sw, FlowTable.Covers flows flow.entry

theorem exists_hit (m : OFPMatch) : ∃ frame inport, m.hits frame inport = true := by
  refine ⟨⟨m.ethSrc.getD [], m.ethDst.getD []⟩, m.inPort.getD 0, ?_⟩
  obtain ⟨inPort, ethSrc, ethDst⟩ := m
  cases inPort <;> cases ethSrc <;> cases ethDst <;> simp [OFPMatch.hits]

theorem unique_rules (hwf : topo.WellFormed) (hdpid : topo.dpid sw = some dpid) :
    Unique ((topo.rules tabled cores sw).map Flow.entry) := by
  intro e he e' he' hclash
  obtain ⟨frame, inport, hhit⟩ := exists_hit e.field
  have hres := (resolves_switch tabled cores frame inport hwf hdpid).2
  exact hres e he e' he' hhit (by rw [← hclash.1]; exact hhit) hclash.2

/-- The choice of core switches does not change what the rules match. -/
theorem exists_rule_of_key (cores' : Str → Host → Str) {flow : Flow}
    (hflow : flow ∈ topo.rules tabled cores sw) :
    ∃ flow' ∈ topo.rules tabled cores' sw, Clashes flow'.entry flow.entry := by
  unfold rules at hflow ⊢
  cases hcore : topo.coreSwitches.lookup sw with
  | some c =>
      rw [hcore] at hflow
      exact ⟨flow, hflow, rfl, rfl⟩
  | none =>
      rw [hcore] at hflow
      cases hedge : topo.edgeSwitches.lookup sw with
      | none =>
          rw [hedge] at hflow
          cases hflow
      | some edge =>
          rw [hedge] at hflow
          simp only [edgeRules, List.append_assoc, List.mem_append] at hflow ⊢
          rcases hflow with hflow | hflow
          · obtain ⟨h, hh, rfl⟩ := List.mem_map.mp hflow
            exact ⟨_, Or.inl (List.mem_map_of_mem hh), rfl, rfl⟩
          · exact ⟨flow, Or.inr hflow, rfl, rfl⟩

namespace Part

/-- A switch with all its rules forwards by them. -/
theorem forward_complete (h : Part topo tabled cores live) (hwf : topo.WellFormed)
    (hdpid : topo.dpid sw = some dpid) (hcomplete : Complete topo tabled sw (live sw)) :
    topo.forward live frame (sw, inport) =
      topo.hop (topo.completion tabled cores) frame (sw, inport) := by
  have hmem : ∀ e, e ∈ (topo.rules tabled cores sw).map Flow.entry ↔ e ∈ live sw := by
    intro e
    constructor
    · intro he
      obtain ⟨flow, hflow, rfl⟩ := List.mem_map.mp he
      obtain ⟨flow', hflow', hclash⟩ := exists_rule_of_key (fun _ _ => []) hflow
      obtain ⟨e', he', hclash'⟩ := hcomplete flow' hflow'
      have heq := unique_rules hwf hdpid e' (h.sub sw e' he') flow.entry he (hclash'.trans hclash)
      rwa [← heq]
    · exact h.sub sw e
  have hres := (resolves_switch tabled cores frame inport hwf hdpid).2
  rw [hop_eq_forward]
  apply forward_congr
  rw [lookup_installedAt hwf hdpid]
  exact hres.lookup_congr hmem

/-- When all switches have all their rules the network does what the policy wants. -/
theorem transmit_complete (h : Part topo tabled cores live) (hwf : topo.WellFormed)
    (hcomplete : ∀ sw dpid, topo.dpid sw = some dpid → Complete topo tabled sw (live sw)) :
    topo.transmit live = topo.send (topo.completion tabled cores) := by
  have hforward : topo.forward live = topo.hop (topo.completion tabled cores) := by
    funext frame ⟨sw, inport⟩
    cases hdpid : topo.dpid sw with
    | none =>
        have hlive : topo.forward live frame (sw, inport) = [] := by
          apply forward_nil
          rw [h.none sw hdpid]
          rfl
        rw [hlive, hop_eq_forward]
        symm
        apply forward_nil
        rw [installedAt, hdpid]
        rfl
    | some dpid => exact h.forward_complete hwf hdpid (hcomplete sw dpid hdpid)
  funext limit frame src
  rw [transmit, send, hforward]

end Part

end Topology

end CloudComputing.Minidc
