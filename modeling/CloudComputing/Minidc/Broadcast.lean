import CloudComputing.Minidc.Network

/-!
# Broadcasts

A frame for no known MAC address is flooded.  The edge switch of its sender
copies it to all core switches and to the other hosts; a core switch that
forwards at all copies it to the other edge switches, and these to their hosts.
It never comes back up.
-/

namespace CloudComputing.Minidc

open Lib

namespace Topology

variable {topo : Topology} {tabled : List Str} {tables : Str → RoutingTable} {core : Host → Str}
  {frame : Frame} {edge : EdgeSwitch} {c : CoreSwitch} {h g : Host} {inport : Nat} {n sw : Str}
  {rest : List Flow} {flow flow' : Flow}

def Unknown (topo : Topology) (frame : Frame) : Prop :=
  ∀ h ∈ topo.hosts.values, h.eth ≠ frame.ethDst

/-! ## The deciding rules -/

theorem Unknown.not_hit {port : Host → Nat} (hun : topo.Unknown frame)
    (hmem : flow ∈ topo.hosts.values.map fun h => ⟨.dst h.eth, [.port (port h)], 2⟩) :
    (makeMatch flow.type).hits frame inport ≠ true := by
  obtain ⟨host, hhost, rfl⟩ := List.mem_map.mp hmem
  exact fun hhit => hun host hhost (hits_dst.mp hhit)

theorem mem_floodRows (h : flow ∈ topo.floodRows edge) : flow.priority = 1 ∧
    ((∃ c ∈ topo.coreSwitches.values, flow = topo.down edge c) ∨
      ∃ n ∈ edge.neighbors, flow = topo.up edge n) := by
  rcases List.mem_append.mp h with h | h
  · obtain ⟨c, hc, rfl⟩ := List.mem_map.mp h
    exact ⟨rfl, Or.inl ⟨c, hc, rfl⟩⟩
  · obtain ⟨n, hn, rfl⟩ := List.mem_map.mp h
    exact ⟨rfl, Or.inr ⟨n, hn, rfl⟩⟩

theorem decides_floodRow (hun : topo.Unknown frame) (hmem : flow ∈ topo.floodRows edge)
    (hhit : (makeMatch flow.type).hits frame inport = true)
    (huniq : ∀ flow' ∈ topo.floodRows edge,
      (makeMatch flow'.type).hits frame inport = true → flow' = flow) :
    Decides frame inport (topo.edgeRows core edge ++ topo.floodRows edge ++ [dropAll]) flow where
  mem := List.mem_append_left _ (List.mem_append_right _ hmem)
  matched := hhit
  best := by
    intro flow' hflow' hhit' hle
    rcases List.mem_append.mp hflow' with hflow' | hflow'
    · rcases List.mem_append.mp hflow' with hrow | hrow
      · exact absurd hhit' (hun.not_hit hrow)
      · exact huniq flow' hrow hhit'
    · rw [List.mem_singleton.mp hflow', (mem_floodRows hmem).1] at hle
      exact absurd hle (by decide)

theorem decides_down (hwf : topo.WellFormed) (he : edge ∈ topo.edgeSwitches.values)
    (hc : c ∈ topo.coreSwitches.values) (hun : topo.Unknown frame) :
    Decides frame (topo.portOf edge.name c.name)
      (topo.edgeRows core edge ++ topo.floodRows edge ++ [dropAll]) (topo.down edge c) := by
  have hwired := hwf.edge_wired he
  have hnode : c.name ∈ sorted topo.coreSwitches.keys ++ sorted edge.neighbors :=
    WellFormed.mem_edge_nodes (Or.inl (hwf.name_mem_cores hc))
  apply decides_floodRow hun (List.mem_append_left _ (List.mem_map_of_mem hc)) (hits_inport.mpr rfl)
  intro flow' hflow' hhit
  rcases (mem_floodRows hflow').2 with ⟨c', hc', rfl⟩ | ⟨m, hm, rfl⟩
  · have hname := hwired.portOf_inj
      (WellFormed.mem_edge_nodes (Or.inl (hwf.name_mem_cores hc'))) hnode (hits_inport.mp hhit)
    rw [down, down, hname]
  · have hname := hwired.portOf_inj (WellFormed.mem_edge_nodes (Or.inr hm)) hnode
      (hits_inport.mp hhit)
    exact absurd (hname ▸ hwf.name_mem_cores hc) ((hwf.neighbors edge he).2 m hm).1

theorem decides_up (hwf : topo.WellFormed) (he : edge ∈ topo.edgeSwitches.values)
    (hn : n ∈ edge.neighbors) (hun : topo.Unknown frame) :
    Decides frame (topo.portOf edge.name n)
      (topo.edgeRows core edge ++ topo.floodRows edge ++ [dropAll]) (topo.up edge n) := by
  have hwired := hwf.edge_wired he
  have hnode : n ∈ sorted topo.coreSwitches.keys ++ sorted edge.neighbors :=
    WellFormed.mem_edge_nodes (Or.inr hn)
  apply decides_floodRow hun (List.mem_append_right _ (List.mem_map_of_mem hn)) (hits_inport.mpr rfl)
  intro flow' hflow' hhit
  rcases (mem_floodRows hflow').2 with ⟨c', hc', rfl⟩ | ⟨m, hm, rfl⟩
  · have hname := hwired.portOf_inj
      (WellFormed.mem_edge_nodes (Or.inl (hwf.name_mem_cores hc'))) hnode (hits_inport.mp hhit)
    exact absurd (hname ▸ hwf.name_mem_cores hc') ((hwf.neighbors edge he).2 n hn).1
  · rw [hwired.portOf_inj (WellFormed.mem_edge_nodes (Or.inr hm)) hnode (hits_inport.mp hhit)]

/-- In a core switch that forwards, the row for the sender decides. -/
theorem decides_flood (hwf : topo.WellFormed) (hh : h ∈ topo.hosts.values)
    (hun : topo.Unknown frame) (hframe : frame.ethSrc = h.eth) :
    Decides frame inport (topo.coreRows c.name ++ topo.floods ++ [dropAll]) (floodRule h) where
  mem := List.mem_append_left _ (List.mem_append_right _ (List.mem_map_of_mem hh))
  matched := hits_src.mpr hframe.symm
  best := by
    intro flow' hflow' hhit hle
    rcases List.mem_append.mp hflow' with hflow' | hflow'
    · rcases List.mem_append.mp hflow' with hrow | hrow
      · exact absurd hhit (hun.not_hit hrow)
      · obtain ⟨host, hhost, rfl⟩ := List.mem_map.mp hrow
        have heth : host.eth = h.eth := (hits_src.mp hhit).trans hframe
        rw [hwf.eq_of_eth hhost hh heth]
    · rw [List.mem_singleton.mp hflow'] at hle
      exact absurd hle (by simp [floodRule, dropAll])

theorem decides_drop : Decides frame inport ([] ++ [dropAll]) dropAll :=
  ⟨by simp, hits_none, fun flow' hflow' _ _ => by simpa using hflow'⟩

/-! ## Hops -/

theorem filterMap_neighbors (hwf : topo.WellFormed) (he : edge ∈ topo.edgeSwitches.values)
    {names : List Str} (hnames : ∀ n ∈ names, n ∈ edge.neighbors) :
    names.filterMap (topo.arrive sw) = names.map .inr := by
  induction names with
  | nil => rfl
  | cons n names ih =>
      rw [List.filterMap_cons, hwf.arrive_neighbor he (hnames n List.mem_cons_self),
        ih fun m hm => hnames m (List.mem_cons_of_mem n hm), List.map_cons]

theorem hop_down (hwf : topo.WellFormed) (hprog : topo.Programmed tabled tables)
    (he : edge ∈ topo.edgeSwitches.values) (hc : c ∈ topo.coreSwitches.values)
    (hun : topo.Unknown frame) :
    topo.hop tables frame (edge.name, topo.portOf edge.name c.name) =
      edge.neighbors.map .inr := by
  obtain ⟨core, -, hflows⟩ := hprog.edges edge he
  rw [hop_eq (hwf.dpid_edge he) hflows (hwf.edge_wired he) (decides_down hwf he hc hun)]
  have hcore := hwf.name_mem_cores hc
  refine (filterMap_outs edge.neighbors (hwf.edge_wired he)
    (WellFormed.mem_edge_nodes (Or.inl hcore)) (fun m hm => WellFormed.mem_edge_nodes (Or.inr hm))
    fun hmem => ((hwf.neighbors edge he).2 _ hmem).1 hcore).trans ?_
  exact filterMap_neighbors hwf he fun _ hn => hn

/-- Up from a host to all core switches, and across to its neighbors. -/
theorem hop_up (hwf : topo.WellFormed) (hprog : topo.Programmed tabled tables)
    (he : edge ∈ topo.edgeSwitches.values) (hn : n ∈ edge.neighbors) (hun : topo.Unknown frame) :
    topo.hop tables frame (edge.name, topo.portOf edge.name n) =
      (topo.coreSwitches.keys.map fun c => .inl (c, topo.portOf c edge.name)) ++
        (edge.neighbors.filter (· ≠ n)).map .inr := by
  obtain ⟨core, -, hflows⟩ := hprog.edges edge he
  rw [hop_eq (hwf.dpid_edge he) hflows (hwf.edge_wired he) (decides_up hwf he hn hun)]
  have hnot : n ∉ topo.broadcastHops edge n := by
    intro hmem
    rcases List.mem_append.mp hmem with hmem | hmem
    · exact ((hwf.neighbors edge he).2 n hn).1 hmem
    · simpa using (List.mem_filter.mp hmem).2
  refine (filterMap_outs (topo.broadcastHops edge n) (hwf.edge_wired he)
    (WellFormed.mem_edge_nodes (Or.inr hn)) (fun m hm => ?_) hnot).trans ?_
  · apply WellFormed.mem_edge_nodes
    exact (List.mem_append.mp hm).imp_right List.mem_of_mem_filter
  · rw [broadcastHops, List.filterMap_append,
      filterMap_neighbors hwf he fun _ hm => List.mem_of_mem_filter hm]
    congr 1
    rw [← List.filterMap_eq_map]
    apply List.filterMap_congr
    intro m hm
    obtain ⟨c, hc, rfl⟩ := hwf.exists_core hm
    exact hwf.arrive_core he hc

/-- From a core switch that forwards to all other edge switches. -/
theorem hop_flood (hwf : topo.WellFormed) (hprog : topo.Programmed tabled tables)
    (he : edge ∈ topo.edgeSwitches.values) (hc : c ∈ topo.coreSwitches.values)
    (htabled : c.name ∈ tabled) (hh : h ∈ topo.hosts.values) (hun : topo.Unknown frame)
    (hframe : frame.ethSrc = h.eth) :
    (topo.hop tables frame (c.name, topo.portOf c.name edge.name)).Perm
      ((topo.edgeSwitches.keys.filter (· ≠ edge.name)).map fun e =>
        .inl (e, topo.portOf e c.name)) := by
  have hflows := hprog.cores c hc
  rw [if_pos htabled] at hflows
  rw [hop_eq (hwf.dpid_core hc) hflows (hwf.core_wired hc) (decides_flood hwf hh hun hframe)]
  have hflood := filterMap_flood (hwf.core_wired hc) (mem_sorted.mpr (hwf.name_mem_edges he))
  have hkeys := ((sorted_perm topo.edgeSwitches.keys).filter (· ≠ edge.name)).filterMap
    (topo.arrive c.name)
  rw [floodRule, List.flatMap_singleton]
  refine (hflood.trans hkeys).trans (List.Perm.of_eq ?_)
  rw [← List.filterMap_eq_map]
  apply List.filterMap_congr
  intro m hm
  obtain ⟨e, he, rfl⟩ := hwf.exists_edge_of_name (List.mem_of_mem_filter hm)
  exact hwf.arrive_edge he hc

/-- A core switch that does not forward drops the frame. -/
theorem hop_drop (hwf : topo.WellFormed) (hprog : topo.Programmed tabled tables)
    (hc : c ∈ topo.coreSwitches.values) (htabled : c.name ∉ tabled) :
    topo.hop tables frame (c.name, inport) = [] := by
  have hflows := hprog.cores c hc
  rw [if_neg htabled] at hflows
  rw [hop_eq (hwf.dpid_core hc) hflows (hwf.core_wired hc) decides_drop]
  rfl

/-! ## Copies -/

def neighborsOf (topo : Topology) (sw : Str) : List Str :=
  ((topo.edgeSwitches.lookup sw).map EdgeSwitch.neighbors).getD []

theorem neighborsOf_edge (hwf : topo.WellFormed) (he : edge ∈ topo.edgeSwitches.values) :
    topo.neighborsOf edge.name = edge.neighbors := by
  rw [neighborsOf, hwf.lookup_edge he]
  rfl

/-- Who receives a copy that a core switch sends to an edge switch. -/
def receivers (topo : Topology) : (Str × Nat) ⊕ Str → List Str :=
  Sum.elim (fun s => topo.neighborsOf s.1) fun g => [g]

theorem count_neighbors (hwf : topo.WellFormed) (he : edge ∈ topo.edgeSwitches.values)
    (hg : g ∈ topo.hosts.values) :
    edge.neighbors.count g.name = if g.switch = edge.name then 1 else 0 := by
  have hiff := (hwf.attached g hg).2 edge he
  by_cases hmem : g.name ∈ edge.neighbors
  · rw [if_pos (hiff.mp hmem).symm, List.count_eq_one_of_mem (hwf.neighbors edge he).1 hmem]
  · rw [if_neg fun heq => hmem (hiff.mpr heq.symm), List.count_eq_zero_of_not_mem hmem]

theorem count_flatMap_neighborsOf (hwf : topo.WellFormed) (hg : g ∈ topo.hosts.values)
    {names : List Str} (hnodup : names.Nodup) (hnames : ∀ n ∈ names, n ∈ topo.edgeSwitches.keys) :
    (names.flatMap topo.neighborsOf).count g.name = if g.switch ∈ names then 1 else 0 := by
  induction names with
  | nil => simp
  | cons n names ih =>
      obtain ⟨e, he, rfl⟩ := hwf.exists_edge_of_name (hnames n List.mem_cons_self)
      rw [List.nodup_cons] at hnodup
      rw [List.flatMap_cons, List.count_append, neighborsOf_edge hwf he, count_neighbors hwf he hg,
        ih hnodup.2 fun m hm => hnames m (List.mem_cons_of_mem _ hm)]
      by_cases hswitch : g.switch = e.name
      · rw [hswitch, if_pos rfl, if_neg hnodup.1, if_pos List.mem_cons_self]
      · rw [if_neg hswitch, Nat.zero_add]
        simp [hswitch]

theorem spread_down (hwf : topo.WellFormed) (hprog : topo.Programmed tabled tables)
    (he : edge ∈ topo.edgeSwitches.values) (hc : c ∈ topo.coreSwitches.values)
    (hun : topo.Unknown frame) (limit : Nat) :
    spread (topo.hop tables frame) (limit + 1) (edge.name, topo.portOf edge.name c.name) =
      some edge.neighbors := by
  have hhop := hop_down hwf hprog he hc hun
  rw [spread_succ (Sum.elim (fun _ => []) fun g => [g]) (by simp [hhop]), hhop, List.flatMap_map]
  simp

theorem exists_spread_core (hwf : topo.WellFormed) (hprog : topo.Programmed tabled tables)
    (he : edge ∈ topo.edgeSwitches.values) (hc : c ∈ topo.coreSwitches.values)
    (hh : h ∈ topo.hosts.values) (hun : topo.Unknown frame) (hframe : frame.ethSrc = h.eth) :
    ∃ copies, spread (topo.hop tables frame) 2 (c.name, topo.portOf c.name edge.name) =
        some copies ∧
      ∀ g ∈ topo.hosts.values, copies.count g.name =
        if c.name ∈ tabled ∧ g.switch ≠ edge.name then 1 else 0 := by
  by_cases htabled : c.name ∈ tabled
  · have hhop := hop_flood hwf hprog he hc htabled hh hun hframe
    have hcopies : spread (topo.hop tables frame) 2 (c.name, topo.portOf c.name edge.name) =
        some ((topo.hop tables frame (c.name, topo.portOf c.name edge.name)).flatMap
          topo.receivers) := by
      apply spread_succ
      intro x hx
      obtain ⟨e, hkey, rfl⟩ := List.mem_map.mp (hhop.mem_iff.mp hx)
      obtain ⟨e, he', rfl⟩ := hwf.exists_edge_of_name (List.mem_of_mem_filter hkey)
      rw [Sum.elim_inl, spread_down hwf hprog he' hc hun, receivers, Sum.elim_inl,
        neighborsOf_edge hwf he']
    refine ⟨_, hcopies, fun g hg => ?_⟩
    rw [(hhop.flatMap_right topo.receivers).count_eq g.name, List.flatMap_map]
    have hkeys := count_flatMap_neighborsOf hwf hg (topo.edgeSwitches.keys_nodup.filter (· ≠ edge.name))
      fun n hn => List.mem_of_mem_filter hn
    refine hkeys.trans ?_
    have hswitch : g.switch ∈ topo.edgeSwitches.keys := (hwf.attached g hg).1
    simp [htabled, hswitch]
  · refine ⟨[], ?_, fun g _ => by simp [htabled]⟩
    rw [spread, hop_drop hwf hprog hc htabled]
    rfl

/-- `h` gets no copy, its neighbors get one each, and all others get `k` each. -/
def Covers (topo : Topology) (h : Host) (k : Nat) (copies : List Str) : Prop :=
  copies.count h.name = 0 ∧ ∀ g ∈ topo.hosts.values, g ≠ h →
    copies.count g.name = if g.switch = h.switch then 1 else k

theorem sum_map_ite {l : List Str} {p : Str → Prop} [DecidablePred p] :
    (l.map fun x => if p x then 1 else 0).sum = (l.filter p).length := by
  induction l with
  | nil => rfl
  | cons x l ih =>
      by_cases hx : p x
      · simp [hx, ih, Nat.add_comm]
      · simp [hx, ih]

theorem exists_send_broadcast (hwf : topo.WellFormed) (hprog : topo.Programmed tabled tables)
    (hh : h ∈ topo.hosts.values) (hun : topo.Unknown frame) (hframe : frame.ethSrc = h.eth) :
    ∃ copies, topo.send tables 3 frame h = some copies ∧
      topo.Covers h (topo.coreSwitches.keys.filter (· ∈ tabled)).length copies := by
  obtain ⟨edge, he, hswitch, hmem⟩ := hwf.exists_edge hh
  have hport := (hwf.edge_wired he).port (WellFormed.mem_edge_nodes (Or.inr hmem))
  have hhop := hop_up hwf hprog he hmem hun
  let below : (Str × Nat) ⊕ Str → List Str := fun x =>
    (Sum.elim (spread (topo.hop tables frame) 2) (fun g => some [g]) x).getD []
  have hcopies : spread (topo.hop tables frame) 3 (edge.name, topo.portOf edge.name h.name) =
      some ((topo.hop tables frame (edge.name, topo.portOf edge.name h.name)).flatMap below) := by
    apply spread_succ
    intro x hx
    rw [hhop] at hx
    rcases List.mem_append.mp hx with hx | hx
    · obtain ⟨k, hkey, rfl⟩ := List.mem_map.mp hx
      obtain ⟨c, hc, rfl⟩ := hwf.exists_core hkey
      obtain ⟨copies, hcore, -⟩ := exists_spread_core hwf hprog he hc hh hun hframe
      simp only [below, Sum.elim_inl, hcore, Option.getD_some]
    · obtain ⟨g, -, rfl⟩ := List.mem_map.mp hx
      rfl
  have hcore : ∀ g ∈ topo.hosts.values, ∀ k ∈ topo.coreSwitches.keys,
      (below (.inl (k, topo.portOf k edge.name))).count g.name =
        if k ∈ tabled ∧ g.switch ≠ edge.name then 1 else 0 := by
    intro g hg k hkey
    obtain ⟨c, hc, rfl⟩ := hwf.exists_core hkey
    obtain ⟨copies, hcore, hcount⟩ := exists_spread_core hwf hprog he hc hh hun hframe
    have hbelow : below (.inl (c.name, topo.portOf c.name edge.name)) = copies := by
      simp only [below, Sum.elim_inl, hcore, Option.getD_some]
    rw [hbelow, hcount g hg]
  have hcount : ∀ g ∈ topo.hosts.values,
      ((topo.hop tables frame (edge.name, topo.portOf edge.name h.name)).flatMap below).count
        g.name = (topo.coreSwitches.keys.filter fun k => k ∈ tabled ∧ g.switch ≠ edge.name).length +
          (edge.neighbors.filter (· ≠ h.name)).count g.name := by
    intro g hg
    rw [hhop, List.flatMap_append, List.count_append, List.flatMap_map, List.flatMap_map,
      List.count_flatMap]
    congr 1
    · rw [← sum_map_ite]
      congr 1
      apply List.map_congr_left
      intro k hkey
      exact hcore g hg k hkey
    · congr 1
      exact List.flatMap_singleton' _
  have hsend : topo.send tables 3 frame h = some ((topo.hop tables frame
      (edge.name, topo.portOf edge.name h.name)).flatMap below) := by
    rw [send, ← hswitch, hport, Option.bind_some]
    exact hcopies
  refine ⟨_, hsend, ?_, fun g hg hne => ?_⟩
  · rw [hcount h hh]
    simp [hswitch, List.count_eq_zero]
  · rw [hcount g hg, ← hswitch]
    have hname : g.name ≠ h.name := fun heq => hne (hwf.eq_of_name hg hh heq)
    rw [List.count_filter (by simpa using hname), count_neighbors hwf he hg]
    by_cases hlocal : g.switch = edge.name
    · simp [hlocal]
    · simp [hlocal]

theorem filter_keys : topo.coreSwitches.keys.filter (· ∈ topo.coreSwitches.keys) =
    topo.coreSwitches.keys := by
  rw [List.filter_eq_self]
  simp

theorem length_filter_single (hwf : topo.WellFormed) (hc : c ∈ topo.coreSwitches.values) :
    (topo.coreSwitches.keys.filter (· ∈ [c.name])).length = 1 := by
  have hcount := List.count_eq_one_of_mem topo.coreSwitches.keys_nodup (hwf.name_mem_cores hc)
  rw [List.count_eq_length_filter] at hcount
  rw [← hcount]
  congr 1
  apply List.filter_congr
  intro k _
  rw [Bool.eq_iff_iff]
  simp

/-- A frame for no host's MAC address is copied to every other host: once to the hosts of the same
edge switch, and as often to the others as there are core switches with rules for hosts, which is
once under the default policy and once for each core switch under the others.  No copy crosses more
than three switches or comes back to the sender. -/
theorem broadcast_covers (hwf : topo.WellFormed) (hh : h ∈ topo.hosts.values)
    (hun : topo.Unknown frame) (hframe : frame.ethSrc = h.eth) :
    (∃ route table copies, DefaultPolicy.route topo = some route ∧ topo.forwarding route = 1 ∧
      addArpflood route topo = some table ∧ DefaultPolicy.build topo = some table ∧
      topo.send (fun _ => table) 3 frame h = some copies ∧
      topo.Covers h (topo.forwarding route) copies) ∧
    (topo.OwnedVlans → ∃ route table copies, StaticPolicy.route topo = some route ∧
      topo.forwarding route = topo.coreSwitches.keys.length ∧
      addArpflood route topo = some table ∧ StaticPolicy.build topo = some table ∧
      topo.send (fun _ => table) 3 frame h = some copies ∧
      topo.Covers h (topo.forwarding route) copies) ∧
    (∀ policy, AdaptivePolicy.Reached topo policy → ∃ route table, policy.route topo = some route ∧
      topo.forwarding route = topo.coreSwitches.keys.length ∧
      addArpflood route topo = some table ∧ policy.build topo = some table) ∧
    ∀ tables : Str → RoutingTable, (∀ sw, AdaptivePolicy.Built topo (tables sw)) →
      ∃ copies, topo.send tables 3 frame h = some copies ∧
        topo.Covers h topo.coreSwitches.keys.length copies := by
  refine ⟨?_, fun howned => ?_, fun policy hreached => ?_, fun tables hbuilt => ?_⟩
  · obtain ⟨c, hc, route, table, hroute, hbuild, hbuilds⟩ := hwf.builds_default
    obtain ⟨copies, hsend, hcovers⟩ := exists_send_broadcast hwf hbuilds.programmed hh hun hframe
    rw [← hbuilds.forwarding] at hcovers
    have hone : topo.forwarding route = 1 := by
      rw [hbuilds.forwarding, length_filter_single hwf hc]
    exact ⟨route, table, copies, hroute, hone, hbuilds.flooded, hbuild, hsend, hcovers⟩
  · obtain ⟨route, table, hroute, hbuild, hbuilds⟩ := hwf.builds_static howned
    obtain ⟨copies, hsend, hcovers⟩ := exists_send_broadcast hwf hbuilds.programmed hh hun hframe
    rw [← hbuilds.forwarding] at hcovers
    have hall : topo.forwarding route = topo.coreSwitches.keys.length := by
      rw [hbuilds.forwarding, filter_keys]
    exact ⟨route, table, copies, hroute, hall, hbuilds.flooded, hbuild, hsend, hcovers⟩
  · obtain ⟨route, table, hroute, hbuild, hbuilds⟩ := hwf.builds_adaptive hreached
    have hall : topo.forwarding route = topo.coreSwitches.keys.length := by
      rw [hbuilds.forwarding, filter_keys]
    exact ⟨route, table, hroute, hall, hbuilds.flooded, hbuild⟩
  · obtain ⟨copies, hsend, hcovers⟩ :=
      exists_send_broadcast hwf (hwf.programmed_adaptive hbuilt) hh hun hframe
    rw [filter_keys] at hcovers
    exact ⟨copies, hsend, hcovers⟩

theorem broadcast_covers_sample :
    (∃ route table copies, DefaultPolicy.route sampleTopology = some route ∧
      sampleTopology.forwarding route = 1 ∧ addArpflood route sampleTopology = some table ∧
      DefaultPolicy.build sampleTopology = some table ∧
      sampleTopology.send (fun _ => table) 3 ⟨['3'], ['f']⟩ (sampleHost '3' '1' 1) = some copies ∧
      sampleTopology.Covers (sampleHost '3' '1' 1) (sampleTopology.forwarding route) copies) ∧
    ∃ route table copies, StaticPolicy.route sampleTopology = some route ∧
      sampleTopology.forwarding route = 2 ∧ addArpflood route sampleTopology = some table ∧
      StaticPolicy.build sampleTopology = some table ∧
      sampleTopology.send (fun _ => table) 3 ⟨['3'], ['f']⟩ (sampleHost '3' '1' 1) = some copies ∧
      sampleTopology.Covers (sampleHost '3' '1' 1) (sampleTopology.forwarding route) copies := by
  have hunknown : sampleTopology.Unknown ⟨['3'], ['f']⟩ := by
    unfold Unknown
    decide
  have howned : sampleTopology.OwnedVlans := by
    unfold OwnedVlans
    decide
  have hmem : sampleHost '3' '1' 1 ∈ sampleTopology.hosts.values := by decide
  have hcovers := broadcast_covers sampleTopology_wellFormed hmem hunknown rfl
  exact ⟨hcovers.1, hcovers.2.1 howned⟩

end Topology

end CloudComputing.Minidc
