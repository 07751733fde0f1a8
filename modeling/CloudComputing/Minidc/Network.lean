import CloudComputing.Lib.FlowTable
import CloudComputing.Lib.Spread
import CloudComputing.Minidc.Policy

/-!
# The network under the controller

`Controller.applyPolicy` and `makeMatch` turn the rules of a switch into its
flow table.  A switch sends a frame out as the entry says that matches with the
highest priority, never back through the port it came from; the links are those
of `Topology.ports`.
-/

namespace CloudComputing.Minidc

open Lib

structure Frame where
  ethSrc : Str
  ethDst : Str
deriving DecidableEq, Repr

/-- A field that is not set matches everything. -/
structure OFPMatch where
  inPort : Option Nat := none
  ethSrc : Option Str := none
  ethDst : Option Str := none
deriving DecidableEq, Repr

def OFPMatch.hits (frame : Frame) (inport : Nat) (m : OFPMatch) : Bool :=
  m.inPort.all (· = inport) && m.ethSrc.all (· = frame.ethSrc) && m.ethDst.all (· = frame.ethDst)

def makeMatch : FlowType → OFPMatch
  | .src ethSrc => { ethSrc := some ethSrc }
  | .dst ethDst => { ethDst := some ethDst }
  | .inport inport => { inPort := some inport }
  | .none => {}

/-- The entry that `add_flow` sends for a rule. -/
def Flow.entry (flow : Flow) : FlowEntry OFPMatch (List Output) :=
  ⟨flow.priority, makeMatch flow.type, flow.output⟩

/-- The flow table of the switch after the rules have been sent to it. -/
def RoutingTable.installed (table : RoutingTable) (dpid : Int) :
    List (FlowEntry OFPMatch (List Output)) :=
  FlowTable.install (((table.lookup dpid).getD []).map Flow.entry)

/-- The ports an action sends a frame to. -/
def Output.ports (ports : Ports) (inport : Nat) : Output → List Nat
  | .flood => ports.numbers.filter (· ≠ inport)
  | .port p => if p = inport then [] else [p]

namespace Topology

variable (topo : Topology)

def dpid (sw : Str) : Option Int :=
  ((topo.coreSwitches.lookup sw).map CoreSwitch.dpid).or
    ((topo.edgeSwitches.lookup sw).map EdgeSwitch.dpid)

/-- A frame leaves `sw` for `node`: a port of the next switch, or a host. -/
def arrive (sw node : Str) : Option ((Str × Nat) ⊕ Str) :=
  if node ∈ topo.coreSwitches ∨ node ∈ topo.edgeSwitches then
    (topo.port node sw).map fun p => .inl (node, p)
  else some (.inr node)

/-- Where the copies of a frame go that enters a switch at a port; `tables` is what each switch
was programmed with. -/
def hop (tables : Str → RoutingTable) (frame : Frame) (s : Str × Nat) :
    List ((Str × Nat) ⊕ Str) :=
  let table := ((topo.dpid s.1).map (tables s.1).installed).getD []
  let outputs := ((FlowTable.lookup (·.hits frame s.2) table).map FlowEntry.action).getD []
  let ports := outputs.flatMap (Output.ports ((topo.ports.lookup s.1).getD ∅) s.2)
  ports.filterMap fun p => (topo.nodeAt s.1 p).bind (topo.arrive s.1)

/-- The receivers of a frame that host `h` sends; an error when a copy crosses more than `limit`
switches. -/
def send (tables : Str → RoutingTable) (limit : Nat) (frame : Frame) (h : Host) :
    Option (List Str) :=
  (topo.port h.switch h.name).bind fun p => spread (topo.hop tables frame) limit (h.switch, p)

/-! ## Programmed networks -/

/-- The core switches named in `tabled` can forward to all hosts, and every edge switch sends
frames for the hosts of others to one of them.  The edge switches need not agree on which. -/
structure Programmed (tabled : List Str) (tables : Str → RoutingTable) : Prop where
  cores : ∀ c ∈ topo.coreSwitches.values, (tables c.name).lookup c.dpid =
    some ((if c.name ∈ tabled then topo.coreRows c.name ++ topo.floods else []) ++ [dropAll])
  edges : ∀ e ∈ topo.edgeSwitches.values, ∃ core, topo.Assigns tabled core ∧
    (tables e.name).lookup e.dpid = some (topo.edgeRows core e ++ topo.floodRows e ++ [dropAll])

variable {topo} {tabled : List Str} {core : Host → Str} {table : RoutingTable}
  {tables : Str → RoutingTable}

/-- The number of core switches that have rules before the flooding is added. -/
def forwarding (topo : Topology) (route : RoutingTable) : Nat :=
  (topo.coreSwitches.values.filter fun c => c.dpid ∈ route).length

theorem forwarding_eq {route : RoutingTable} (hwf : topo.WellFormed)
    (hroutes : topo.Routes tabled core route) :
    topo.forwarding route = (topo.coreSwitches.keys.filter (· ∈ tabled)).length := by
  have hkeys : topo.coreSwitches.keys = topo.coreSwitches.values.map CoreSwitch.name := by
    rw [Dict.values, List.map_map]
    apply List.map_congr_left
    intro e he
    exact (hwf.cores e he).symm
  have hiff : ∀ c ∈ topo.coreSwitches.values, c.dpid ∈ route ↔ c.name ∈ tabled := by
    intro c hc
    rw [← AList.lookup_isSome, hroutes.cores c hc]
    by_cases h : c.name ∈ tabled
    · simp [h]
    · simp [h]
  rw [forwarding, hkeys, List.filter_map, List.length_map]
  congr 1
  apply List.filter_congr
  intro c hc
  simpa using hiff c hc

/-- Every switch may have been programmed at another time. -/
theorem Programmed.mix (h : ∀ sw, topo.Programmed tabled fun _ => tables sw) :
    topo.Programmed tabled tables :=
  ⟨fun c hc => (h c.name).cores c hc, fun e he => (h e.name).edges e he⟩

/-- The rules for the hosts and the table that the flooding makes of them. -/
structure Builds (topo : Topology) (tabled : List Str) (route table : RoutingTable) : Prop where
  forwarding : topo.forwarding route = (topo.coreSwitches.keys.filter (· ∈ tabled)).length
  flooded : addArpflood route topo = some table
  programmed : topo.Programmed tabled fun _ => table

namespace WellFormed

theorem exists_builds (hwf : topo.WellFormed) (hroutes : topo.Routes tabled core table)
    (hassigns : topo.Assigns tabled core) : ∃ table', topo.Builds tabled table table' := by
  obtain ⟨table', hflood, hcores, hedges⟩ := hwf.exists_addArpflood table
  refine ⟨table', forwarding_eq hwf hroutes, hflood, fun c hc => ?_, fun e he =>
    ⟨core, hassigns, ?_⟩⟩
  · rw [hcores c hc, hroutes.cores c hc]
    by_cases h : c.name ∈ tabled
    · simp [h]
    · simp [h]
  · rw [hedges e he, hroutes.edges e he, Option.getD_some]

theorem builds_default (hwf : topo.WellFormed) : ∃ c ∈ topo.coreSwitches.values, ∃ route table,
    DefaultPolicy.route topo = some route ∧ DefaultPolicy.build topo = some table ∧
      topo.Builds [c.name] route table := by
  obtain ⟨c, hc, route, hroute, hroutes⟩ := hwf.exists_defaultRoute
  obtain ⟨table, hbuilds⟩ := hwf.exists_builds hroutes fun _ _ => List.mem_singleton_self _
  refine ⟨c, hc, route, table, hroute, ?_, hbuilds⟩
  rw [DefaultPolicy.build, hroute]
  exact hbuilds.flooded

theorem builds_static (hwf : topo.WellFormed) (howned : topo.OwnedVlans) : ∃ route table,
    StaticPolicy.route topo = some route ∧ StaticPolicy.build topo = some table ∧
      topo.Builds topo.coreSwitches.keys route table := by
  obtain ⟨core, route, hroute, hassigns, hroutes⟩ := hwf.exists_staticRoute howned
  obtain ⟨table, hbuilds⟩ := hwf.exists_builds hroutes hassigns
  refine ⟨route, table, hroute, ?_, hbuilds⟩
  rw [StaticPolicy.build, hroute]
  exact hbuilds.flooded

theorem builds_adaptive {policy : AdaptivePolicy} (hwf : topo.WellFormed)
    (h : AdaptivePolicy.Reached topo policy) : ∃ route table, policy.route topo = some route ∧
      policy.build topo = some table ∧ topo.Builds topo.coreSwitches.keys route table := by
  obtain ⟨core, route, hroute, hassigns, hroutes⟩ := (h.assigned hwf).exists_route hwf
  obtain ⟨table, hbuilds⟩ := hwf.exists_builds hroutes hassigns
  refine ⟨route, table, hroute, ?_, hbuilds⟩
  rw [AdaptivePolicy.build, hroute]
  exact hbuilds.flooded

theorem programmed_adaptive (hwf : topo.WellFormed)
    (h : ∀ sw, AdaptivePolicy.Built topo (tables sw)) :
    topo.Programmed topo.coreSwitches.keys tables := by
  apply Programmed.mix
  intro sw
  obtain ⟨policy, hreached, hbuild⟩ := h sw
  obtain ⟨route, table, -, hbuild', hbuilds⟩ := hwf.builds_adaptive hreached
  obtain rfl : table = tables sw := Option.some.inj (hbuild'.symm.trans hbuild)
  exact hbuilds.programmed

end WellFormed

/-! ## One switch -/

variable {frame : Frame} {flows : List Flow} {flow : Flow} {sw n : Str} {nodes outs : List Str}
  {dpid : Int} {inport : Nat}

/-- `flow` matches, and every other rule that matches has a lower priority. -/
structure Decides (frame : Frame) (inport : Nat) (flows : List Flow) (flow : Flow) : Prop where
  mem : flow ∈ flows
  matched : (makeMatch flow.type).hits frame inport = true
  best : ∀ flow' ∈ flows, (makeMatch flow'.type).hits frame inport = true →
    flow.priority ≤ flow'.priority → flow' = flow

theorem Decides.wins (h : Decides frame inport flows flow) :
    FlowTable.Wins (·.hits frame inport) (flows.map Flow.entry) flow.entry := by
  refine ⟨List.mem_map_of_mem h.mem, h.matched, fun e he hhit hle => ?_⟩
  obtain ⟨flow', hmem, rfl⟩ := List.mem_map.mp he
  rw [h.best flow' hmem hhit hle]

/-- The switch does what the deciding rule says. -/
theorem hop_eq (hdpid : topo.dpid sw = some dpid) (hflows : (tables sw).lookup dpid = some flows)
    (hw : topo.Wired sw nodes) (h : Decides frame inport flows flow) :
    topo.hop tables frame (sw, inport) =
      (flow.output.flatMap (Output.ports (.ofNodes nodes) inport)).filterMap fun p =>
        (topo.nodeAt sw p).bind (topo.arrive sw) := by
  have hlookup : FlowTable.lookup (·.hits frame inport) ((tables sw).installed dpid) =
      some flow.entry := by
    rw [RoutingTable.installed, hflows]
    exact h.wins.install.lookup
  rw [hop, hdpid, hw.ports]
  simp only [Option.map_some, Option.getD_some, hlookup]
  rfl

theorem filterMap_outs (outs : List Str) (hw : topo.Wired sw nodes) (hn : n ∈ nodes) (houts : ∀ m ∈ outs, m ∈ nodes)
    (hnot : n ∉ outs) :
    ((((outs.map (topo.portOf sw)).map Output.port).flatMap
      (Output.ports (.ofNodes nodes) (topo.portOf sw n))).filterMap fun p =>
        (topo.nodeAt sw p).bind (topo.arrive sw)) = outs.filterMap (topo.arrive sw) := by
  induction outs with
  | nil => rfl
  | cons m outs ih =>
      rw [List.mem_cons, not_or] at hnot
      have hm := houts m List.mem_cons_self
      have hne : topo.portOf sw m ≠ topo.portOf sw n :=
        fun heq => hnot.1 (hw.portOf_inj hm hn heq).symm
      rw [List.map_cons, List.map_cons, List.flatMap_cons, Output.ports, if_neg hne,
        List.filterMap_append, ih (fun m hm => houts m (List.mem_cons_of_mem _ hm)) hnot.2,
        List.filterMap_cons, hw.nodeAt hm, Option.bind_some, List.filterMap_nil,
        List.filterMap_cons]
      cases topo.arrive sw m <;> rfl

/-- A flooded frame leaves for all nodes but the one it came from. -/
theorem filterMap_flood (hw : topo.Wired sw nodes) (hn : n ∈ nodes) :
    ((Output.ports (.ofNodes nodes) (topo.portOf sw n) .flood).filterMap fun p =>
      (topo.nodeAt sw p).bind (topo.arrive sw)).Perm
      ((nodes.filter (· ≠ n)).filterMap (topo.arrive sw)) := by
  have hports := ((hw.numbers.filter (· ≠ topo.portOf sw n)).filterMap fun p =>
    (topo.nodeAt sw p).bind (topo.arrive sw))
  refine hports.trans (List.Perm.of_eq ?_)
  rw [List.filter_map, List.filterMap_map]
  have hsame : nodes.filter ((fun p => decide (p ≠ topo.portOf sw n)) ∘ topo.portOf sw) =
      nodes.filter (· ≠ n) := by
    apply List.filter_congr
    intro m hm
    have hiff : topo.portOf sw m = topo.portOf sw n ↔ m = n :=
      ⟨hw.portOf_inj hm hn, congrArg _⟩
    simp [hiff]
  rw [hsame]
  apply List.filterMap_congr
  intro m hm
  rw [Function.comp_apply, hw.nodeAt (List.mem_of_mem_filter hm), Option.bind_some]

section

variable {edge : EdgeSwitch} {c : CoreSwitch} {h dst : Host}

namespace WellFormed

theorem dpid_core (hwf : topo.WellFormed) (hc : c ∈ topo.coreSwitches.values) :
    topo.dpid c.name = some c.dpid := by
  rw [Topology.dpid, hwf.lookup_core hc]
  rfl

theorem dpid_edge (hwf : topo.WellFormed) (he : edge ∈ topo.edgeSwitches.values) :
    topo.dpid edge.name = some edge.dpid := by
  have hnot : edge.name ∉ topo.coreSwitches :=
    fun hmem => hwf.switches _ hmem (hwf.name_mem_edges he)
  rw [Topology.dpid, AList.lookup_eq_none.mpr hnot, hwf.lookup_edge he]
  rfl

theorem arrive_core (hwf : topo.WellFormed) (he : edge ∈ topo.edgeSwitches.values)
    (hc : c ∈ topo.coreSwitches.values) :
    topo.arrive edge.name c.name = some (.inl (c.name, topo.portOf c.name edge.name)) := by
  have hport := (hwf.core_wired hc).port (mem_sorted.mpr (hwf.name_mem_edges he))
  have hmem : c.name ∈ topo.coreSwitches := hwf.name_mem_cores hc
  rw [arrive, if_pos (Or.inl hmem), hport, Option.map_some]

theorem arrive_edge (hwf : topo.WellFormed) (he : edge ∈ topo.edgeSwitches.values)
    (hc : c ∈ topo.coreSwitches.values) :
    topo.arrive c.name edge.name = some (.inl (edge.name, topo.portOf edge.name c.name)) := by
  have hport := (hwf.edge_wired he).port
    (List.mem_append_left _ (mem_sorted.mpr (hwf.name_mem_cores hc)))
  have hmem : edge.name ∈ topo.edgeSwitches := hwf.name_mem_edges he
  rw [arrive, if_pos (Or.inr hmem), hport, Option.map_some]

theorem arrive_neighbor (hwf : topo.WellFormed) (he : edge ∈ topo.edgeSwitches.values)
    (hn : n ∈ edge.neighbors) (sw : Str) : topo.arrive sw n = some (.inr n) := by
  obtain ⟨hcore, hedge⟩ := (hwf.neighbors edge he).2 n hn
  rw [arrive, if_neg (by simp [hcore, hedge])]

theorem eq_of_eth (hwf : topo.WellFormed) (hh : h ∈ topo.hosts.values)
    (hd : dst ∈ topo.hosts.values) (heq : h.eth = dst.eth) : h = dst :=
  List.inj_on_of_nodup_map hwf.eths hh hd heq

theorem mem_edge_nodes (hn : n ∈ topo.coreSwitches.keys ∨ n ∈ edge.neighbors) :
    n ∈ sorted topo.coreSwitches.keys ++ sorted edge.neighbors := by
  simpa using hn

end WellFormed

/-! ## Priorities -/

theorem priority_floodRows (h : flow ∈ topo.floodRows edge ++ [dropAll]) : flow.priority ≤ 1 := by
  rcases List.mem_append.mp h with h | h
  · rcases List.mem_append.mp h with h | h
    · obtain ⟨c, -, rfl⟩ := List.mem_map.mp h
      exact le_rfl
    · obtain ⟨n, -, rfl⟩ := List.mem_map.mp h
      exact le_rfl
  · rw [List.mem_singleton.mp h]
    exact Nat.zero_le 1

theorem priority_floods (h : flow ∈ topo.floods ++ [dropAll]) : flow.priority ≤ 1 := by
  rcases List.mem_append.mp h with h | h
  · obtain ⟨host, -, rfl⟩ := List.mem_map.mp h
    exact le_rfl
  · rw [List.mem_singleton.mp h]
    exact Nat.zero_le 1

theorem hits_dst {ethDst : Str} :
    (makeMatch (.dst ethDst)).hits frame inport = true ↔ ethDst = frame.ethDst := by
  simp [makeMatch, OFPMatch.hits]

theorem hits_src {ethSrc : Str} :
    (makeMatch (.src ethSrc)).hits frame inport = true ↔ ethSrc = frame.ethSrc := by
  simp [makeMatch, OFPMatch.hits]

theorem hits_inport {p : Nat} :
    (makeMatch (.inport p)).hits frame inport = true ↔ p = inport := by
  simp [makeMatch, OFPMatch.hits]

theorem hits_none : (makeMatch .none).hits frame inport = true := by
  simp [makeMatch, OFPMatch.hits]

end

end Topology

end CloudComputing.Minidc
