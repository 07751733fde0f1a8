import CloudComputing.Minidc.Network

/-!
# Frames for one host

A frame for the MAC address of a host takes the rule of that host in every
switch: up to the core switch that its edge switch has chosen, down to the edge
switch of the host, and out.
-/

namespace CloudComputing.Minidc

open Lib

namespace Topology

variable {topo : Topology} {tabled : List Str} {tables : Str → RoutingTable} {core : Host → Str}
  {frame : Frame} {edge : EdgeSwitch} {c : CoreSwitch} {src dst : Host} {inport : Nat} {n sw : Str}

/-- Among the rules for hosts, that of the addressee decides. -/
theorem decides_host {rest : List Flow} (hwf : topo.WellFormed) {port : Host → Nat}
    (hdst : dst ∈ topo.hosts.values) (hframe : frame.ethDst = dst.eth)
    (hrest : ∀ flow ∈ rest, flow.priority ≤ 1) :
    Decides frame inport
      (topo.hosts.values.map (fun h => ⟨.dst h.eth, [.port (port h)], 2⟩) ++ rest)
      ⟨.dst dst.eth, [.port (port dst)], 2⟩ where
  mem := List.mem_append_left _ (List.mem_map_of_mem hdst)
  matched := hits_dst.mpr hframe.symm
  best := by
    intro flow hflow hhit hle
    rcases List.mem_append.mp hflow with h | h
    · obtain ⟨host, hhost, rfl⟩ := List.mem_map.mp h
      have heth : host.eth = dst.eth := (hits_dst.mp hhit).trans hframe
      rw [hwf.eq_of_eth hhost hdst heth]
    · have hlow := hrest flow h
      change 2 ≤ flow.priority at hle
      omega

/-- An edge switch sends the frame on to the next hop, unless it came from there. -/
theorem hop_edge (hwf : topo.WellFormed) (he : edge ∈ topo.edgeSwitches.values)
    (hflows : (tables edge.name).lookup edge.dpid =
      some (topo.edgeRows core edge ++ topo.floodRows edge ++ [dropAll]))
    (hcore : ∀ h ∈ topo.hosts.values, core h ∈ topo.coreSwitches.keys)
    (hdst : dst ∈ topo.hosts.values) (hframe : frame.ethDst = dst.eth)
    (hn : n ∈ topo.coreSwitches.keys ∨ n ∈ edge.neighbors) (hne : n ≠ nextHop core edge dst) :
    topo.hop tables frame (edge.name, topo.portOf edge.name n) =
      [nextHop core edge dst].filterMap (topo.arrive edge.name) := by
  have hdecides : Decides frame (topo.portOf edge.name n)
      (topo.edgeRows core edge ++ topo.floodRows edge ++ [dropAll])
      ⟨.dst dst.eth, [.port (topo.portOf edge.name (nextHop core edge dst))], 2⟩ := by
    rw [List.append_assoc]
    exact decides_host hwf hdst hframe fun flow h => priority_floodRows h
  have hwired := hwf.edge_wired he
  rw [hop_eq (hwf.dpid_edge he) hflows hwired hdecides]
  have hnext : ∀ m ∈ [nextHop core edge dst],
      m ∈ sorted topo.coreSwitches.keys ++ sorted edge.neighbors := by
    intro m hm
    rw [List.mem_singleton.mp hm]
    exact WellFormed.nextHop_mem hcore hdst
  exact filterMap_outs [nextHop core edge dst] hwired (WellFormed.mem_edge_nodes hn) hnext
    (by simpa using hne)

/-- A core switch sends the frame down to the edge switch of the addressee. -/
theorem hop_core (hwf : topo.WellFormed) (hc : c ∈ topo.coreSwitches.values)
    (hflows : (tables c.name).lookup c.dpid =
      some (topo.coreRows c.name ++ topo.floods ++ [dropAll]))
    (hdst : dst ∈ topo.hosts.values) (hframe : frame.ethDst = dst.eth)
    (hn : n ∈ topo.edgeSwitches.keys) (hne : n ≠ dst.switch) :
    topo.hop tables frame (c.name, topo.portOf c.name n) =
      [.inl (dst.switch, topo.portOf dst.switch c.name)] := by
  have hdecides : Decides frame (topo.portOf c.name n)
      (topo.coreRows c.name ++ topo.floods ++ [dropAll])
      ⟨.dst dst.eth, [.port (topo.portOf c.name dst.switch)], 2⟩ := by
    rw [List.append_assoc]
    exact decides_host hwf hdst hframe fun flow h => priority_floods h
  have hwired := hwf.core_wired hc
  obtain ⟨edge, hedge, hswitch, -⟩ := hwf.exists_edge hdst
  have hdown : topo.arrive c.name dst.switch =
      some (.inl (dst.switch, topo.portOf dst.switch c.name)) := by
    rw [← hswitch]
    exact hwf.arrive_edge hedge hc
  have hmem : dst.switch ∈ sorted topo.edgeSwitches.keys := by
    rw [← hswitch, mem_sorted]
    exact hwf.name_mem_edges hedge
  rw [hop_eq (hwf.dpid_core hc) hflows hwired hdecides]
  have hout := filterMap_outs [dst.switch] hwired (mem_sorted.mpr hn)
    (by simpa using hmem) (by simpa using hne)
  refine hout.trans ?_
  rw [List.filterMap_cons, hdown, List.filterMap_nil]

theorem send_unicast (hwf : topo.WellFormed) (hprog : topo.Programmed tabled tables)
    (htabled : ∀ n ∈ tabled, n ∈ topo.coreSwitches.keys) (hsrc : src ∈ topo.hosts.values)
    (hdst : dst ∈ topo.hosts.values) (hne : src ≠ dst) (hframe : frame.ethDst = dst.eth) :
    topo.send tables 3 frame src = some [dst.name] := by
  obtain ⟨edge, hedge, hswitch, hsrcmem⟩ := hwf.exists_edge hsrc
  obtain ⟨edge', hedge', hswitch', hdstmem⟩ := hwf.exists_edge hdst
  have hport := (hwf.edge_wired hedge).port (WellFormed.mem_edge_nodes (Or.inr hsrcmem))
  rw [send, ← hswitch, hport, Option.bind_some]
  obtain ⟨core, hassigns, hflows⟩ := hprog.edges edge hedge
  have hcore : ∀ h ∈ topo.hosts.values, core h ∈ topo.coreSwitches.keys :=
    fun h hh => htabled _ (hassigns h hh)
  by_cases hlocal : dst.name ∈ edge.neighbors
  · -- both hosts are at one edge switch
    have hnext : nextHop core edge dst = dst.name := if_pos hlocal
    have hother : src.name ≠ nextHop core edge dst := by
      rw [hnext]
      exact fun heq => hne (hwf.eq_of_name hsrc hdst heq)
    have hhop := hop_edge hwf hedge hflows hcore hdst hframe (Or.inr hsrcmem) hother
    rw [hnext, List.filterMap_cons, hwf.arrive_neighbor hedge hlocal] at hhop
    exact spread_of_receiver hhop
  · have hnext : nextHop core edge dst = core dst := if_neg hlocal
    obtain ⟨c, hc, hname⟩ := hwf.exists_core (hcore dst hdst)
    have hup : topo.hop tables frame (edge.name, topo.portOf edge.name src.name) =
        [.inl (c.name, topo.portOf c.name edge.name)] := by
      have hother : src.name ≠ nextHop core edge dst := by
        rw [hnext]
        exact fun heq => ((hwf.neighbors edge hedge).2 _ hsrcmem).1 (heq ▸ hcore dst hdst)
      have hhop := hop_edge hwf hedge hflows hcore hdst hframe (Or.inr hsrcmem) hother
      rwa [hnext, ← hname, List.filterMap_cons, hwf.arrive_core hedge hc] at hhop
    have hdown : topo.hop tables frame (c.name, topo.portOf c.name edge.name) =
        [.inl (edge'.name, topo.portOf edge'.name c.name)] := by
      have hflows' := hprog.cores c hc
      rw [if_pos (by rw [hname]; exact hassigns dst hdst)] at hflows'
      rw [hswitch']
      apply hop_core hwf hc hflows' hdst hframe (hwf.name_mem_edges hedge)
      exact fun heq => hlocal (((hwf.attached dst hdst).2 edge hedge).mpr heq)
    have hlast : topo.hop tables frame (edge'.name, topo.portOf edge'.name c.name) =
        [.inr dst.name] := by
      obtain ⟨core', hassigns', hflows'⟩ := hprog.edges edge' hedge'
      have hnext' : nextHop core' edge' dst = dst.name := if_pos hdstmem
      have hother : c.name ≠ nextHop core' edge' dst := by
        rw [hnext']
        exact fun heq => ((hwf.neighbors edge' hedge').2 _ hdstmem).1 (heq ▸ hwf.name_mem_cores hc)
      have hhop := hop_edge hwf hedge' hflows' (fun h hh => htabled _ (hassigns' h hh)) hdst hframe
        (Or.inl (hwf.name_mem_cores hc)) hother
      rwa [hnext', List.filterMap_cons, hwf.arrive_neighbor hedge' hdstmem] at hhop
    rw [spread_of_place hup, spread_of_place hdown, spread_of_receiver hlast]

/-- A frame for the MAC address of a host gets from any other host to this one only, through three
switches or fewer, under each policy; under the adaptive one the switches may hold tables that were
built from different statistics, and building never fails. -/
theorem unicast_delivered (hwf : topo.WellFormed) (hsrc : src ∈ topo.hosts.values)
    (hdst : dst ∈ topo.hosts.values) (hne : src ≠ dst) (hframe : frame.ethDst = dst.eth) :
    (∃ table, DefaultPolicy.build topo = some table ∧
      topo.send (fun _ => table) 3 frame src = some [dst.name]) ∧
    (topo.OwnedVlans → ∃ table, StaticPolicy.build topo = some table ∧
      topo.send (fun _ => table) 3 frame src = some [dst.name]) ∧
    (∃ policy, AdaptivePolicy.init topo = some policy) ∧
    (∀ policy, AdaptivePolicy.Reached topo policy → ∀ hostBw, ∃ policy' table,
      policy.routingTable topo hostBw = some (policy', table) ∧
        AdaptivePolicy.Built topo table) ∧
    ∀ tables : Str → RoutingTable, (∀ sw, AdaptivePolicy.Built topo (tables sw)) →
      topo.send tables 3 frame src = some [dst.name] := by
  have hall : ∀ n ∈ topo.coreSwitches.keys, n ∈ topo.coreSwitches.keys := fun _ hn => hn
  refine ⟨?_, fun howned => ?_, ?_, fun policy hreached hostBw => ?_, fun tables hbuilt => ?_⟩
  · obtain ⟨c, hc, route, table, -, hbuild, hbuilds⟩ := hwf.builds_default
    have hone : ∀ n ∈ [c.name], n ∈ topo.coreSwitches.keys := by
      intro n hn
      rw [List.mem_singleton.mp hn]
      exact hwf.name_mem_cores hc
    exact ⟨table, hbuild, send_unicast hwf hbuilds.programmed hone hsrc hdst hne hframe⟩
  · obtain ⟨route, table, -, hbuild, hbuilds⟩ := hwf.builds_static howned
    exact ⟨table, hbuild, send_unicast hwf hbuilds.programmed hall hsrc hdst hne hframe⟩
  · obtain ⟨policy, hinit, -⟩ := AdaptivePolicy.exists_init hwf
    exact ⟨policy, hinit⟩
  · exact hreached.exists_routingTable hwf hostBw
  · exact send_unicast hwf (hwf.programmed_adaptive hbuilt) hall hsrc hdst hne hframe

theorem unicast_delivered_sample :
    (∃ table, DefaultPolicy.build sampleTopology = some table ∧
      sampleTopology.send (fun _ => table) 3 ⟨['3'], ['1']⟩ (sampleHost '3' '1' 1) =
        some [['h', '1']]) ∧
    (∃ table, StaticPolicy.build sampleTopology = some table ∧
      sampleTopology.send (fun _ => table) 3 ⟨['3'], ['1']⟩ (sampleHost '3' '1' 1) =
        some [['h', '1']]) ∧
    ∃ policy, AdaptivePolicy.init sampleTopology = some policy := by
  have hsrc : sampleHost '3' '1' 1 ∈ sampleTopology.hosts.values := by decide
  have hdst : sampleHost '1' '2' 0 ∈ sampleTopology.hosts.values := by decide
  have hframe : (⟨['3'], ['1']⟩ : Frame).ethDst = (sampleHost '1' '2' 0).eth := rfl
  have hdelivered := unicast_delivered sampleTopology_wellFormed hsrc hdst (by decide) hframe
  have howned : sampleTopology.OwnedVlans := by
    unfold OwnedVlans
    decide
  exact ⟨hdelivered.1, hdelivered.2.1 howned, hdelivered.2.2.1⟩

end Topology

end CloudComputing.Minidc
