import CloudComputing.Minidc.Emulated

/-!
# The core switches of the tenants

The static policy sends the frames for a host over the core switch that has the
first VLAN of the host.  In the emulated data center that is the switch whose
number is the VLAN modulo the number of core switches, so a tenant never uses more
than one core switch.
-/

namespace CloudComputing.Minidc

open Lib

namespace Topology

variable {topo : Topology} {core : Host → Str} {tables : Str → RoutingTable} {frame : Frame}
  {src dst : Host}

/-- The edge switches send the frames for a host that is not theirs to the core switch `core`. -/
structure Follows (topo : Topology) (core : Host → Str) (tables : Str → RoutingTable) : Prop where
  assigns : topo.Assigns topo.coreSwitches.keys core
  cores : ∀ c ∈ topo.coreSwitches.values, (tables c.name).lookup c.dpid =
    some (topo.coreRows c.name ++ topo.floods ++ [dropAll])
  edges : ∀ e ∈ topo.edgeSwitches.values, (tables e.name).lookup e.dpid =
    some (topo.edgeRows core e ++ topo.floodRows e ++ [dropAll])

/-- Where a frame for a host goes, switch by switch. -/
theorem exists_hops (hwf : topo.WellFormed) (h : topo.Follows core tables)
    (hsrc : src ∈ topo.hosts.values) (hdst : dst ∈ topo.hosts.values) (hne : src ≠ dst)
    (hframe : frame.ethDst = dst.eth) : ∃ p, topo.port src.switch src.name = some p ∧
      if src.switch = dst.switch then topo.hop tables frame (src.switch, p) = [.inr dst.name]
      else ∃ q r, topo.hop tables frame (src.switch, p) = [.inl (core dst, q)] ∧
        topo.hop tables frame (core dst, q) = [.inl (dst.switch, r)] ∧
        topo.hop tables frame (dst.switch, r) = [.inr dst.name] := by
  obtain ⟨edge, hedge, hswitch, hsrcmem⟩ := hwf.exists_edge hsrc
  obtain ⟨edge', hedge', hswitch', hdstmem⟩ := hwf.exists_edge hdst
  have hport := (hwf.edge_wired hedge).port (WellFormed.mem_edge_nodes (Or.inr hsrcmem))
  refine ⟨_, hswitch ▸ hport, ?_⟩
  have hlocal : dst.name ∈ edge.neighbors ↔ src.switch = dst.switch := by
    rw [← hswitch]
    exact ((hwf.attached dst hdst).2 edge hedge)
  rw [← hswitch]
  split
  case isTrue hsame =>
    have hmem := hlocal.mpr (hswitch ▸ hsame)
    have hnext : nextHop core edge dst = dst.name := if_pos hmem
    have hother : src.name ≠ nextHop core edge dst := by
      rw [hnext]
      exact fun heq => hne (hwf.eq_of_name hsrc hdst heq)
    have hhop := hop_edge hwf hedge (h.edges edge hedge) h.assigns hdst hframe (Or.inr hsrcmem) hother
    rwa [hnext, List.filterMap_cons, hwf.arrive_neighbor hedge hmem] at hhop
  case isFalse hdiffer =>
    have hnot : dst.name ∉ edge.neighbors := fun hmem => hdiffer (hswitch ▸ hlocal.mp hmem)
    have hnext : nextHop core edge dst = core dst := if_neg hnot
    obtain ⟨c, hc, hname⟩ := hwf.exists_core (h.assigns dst hdst)
    rw [← hname]
    refine ⟨topo.portOf c.name edge.name, topo.portOf edge'.name c.name, ?_, ?_, ?_⟩
    · have hother : src.name ≠ nextHop core edge dst := by
        rw [hnext]
        exact fun heq => ((hwf.neighbors edge hedge).2 _ hsrcmem).1 (heq ▸ h.assigns dst hdst)
      have hhop := hop_edge hwf hedge (h.edges edge hedge) h.assigns hdst hframe (Or.inr hsrcmem) hother
      rwa [hnext, ← hname, List.filterMap_cons, hwf.arrive_core hedge hc] at hhop
    · rw [hswitch']
      apply hop_core hwf hc (h.cores c hc) hdst hframe (hwf.name_mem_edges hedge)
      exact fun heq => hdiffer heq
    · have hnext' : nextHop core edge' dst = dst.name := if_pos hdstmem
      have hother : c.name ≠ nextHop core edge' dst := by
        rw [hnext']
        exact fun heq => ((hwf.neighbors edge' hedge').2 _ hdstmem).1 (heq ▸ hwf.name_mem_cores hc)
      have hhop := hop_edge hwf hedge' (h.edges edge' hedge') h.assigns hdst hframe
        (Or.inl (hwf.name_mem_cores hc)) hother
      rw [← hswitch']
      rwa [hnext', List.filterMap_cons, hwf.arrive_neighbor hedge' hdstmem] at hhop

theorem WellFormed.follows_static (hwf : topo.WellFormed) (howned : topo.OwnedVlans) :
    ∃ table, StaticPolicy.build topo = some table ∧
      topo.Follows (fun h => (StaticPolicy.core topo h).getD []) fun _ => table := by
  have hcore : ∀ h ∈ topo.hosts.values,
      StaticPolicy.core topo h = some ((StaticPolicy.core topo h).getD []) ∧
        (StaticPolicy.core topo h).getD [] ∈ topo.coreSwitches.keys := by
    intro h hh
    obtain ⟨vlan, hvlan, hc⟩ := howned h hh
    obtain ⟨c, hc, howner⟩ := exists_getVlanCore hc
    have hsome : StaticPolicy.core topo h = some c.name := by
      rw [StaticPolicy.core, hvlan]
      exact howner
    rw [hsome]
    exact ⟨rfl, hwf.name_mem_cores hc⟩
  obtain ⟨route, hroute, hroutes⟩ := hwf.exists_route hcore
  obtain ⟨table, hflood, hcores, hedges⟩ := hwf.exists_addArpflood route
  refine ⟨table, ?_, fun h hh => (hcore h hh).2, fun c hc => ?_, fun e he => ?_⟩
  · have hroute' : StaticPolicy.route topo = some route := hroute
    rw [StaticPolicy.build, hroute']
    exact hflood
  · rw [hcores c hc, hroutes.cores c hc, if_pos (hwf.name_mem_cores hc)]
    rfl
  · rw [hedges e he, hroutes.edges e he, Option.getD_some]

end Topology

open FattreeTopology

/-- The switches that a frame of a host passes in the emulated network. -/
def Topo.passes (t : Topo) (flows : Str → Flows) (limit : Nat) (frame : Frame) (host : Str) :
    List Str :=
  (((t.linksOf host).lookup 0).map fun s =>
    (visits (t.forward flows frame) limit s).map Prod.fst).getD []

theorem Emulates.exists_core {net : Net} {dc : Datacenter} {N H : Nat} {t : FattreeTopology}
    {topo : Topology} (h : Emulates net dc N H t topo) {host : Host}
    (hhost : host ∈ topo.hosts.values) : ∃ vlan : Nat, ∃ c,
      (dc.hostVlans host.name).head? = some (vlan : Int) ∧
        t.coreSwitches[vlan % (N - 1)]? = some c ∧ StaticPolicy.core topo host = some c := by
  obtain ⟨vlan, hhead, core, hcore, howner, howned⟩ := h.view.owner host hhost
  have hvlan := (howned core hcore).mpr rfl
  obtain ⟨n, hlookup⟩ := Dict.mem_values_iff.mp hcore
  obtain ⟨i, hi, rfl⟩ := (h.view.core n core).mp hlookup
  obtain ⟨v, hv, rfl⟩ := List.mem_map.mp hvlan
  have hmod := of_decide_eq_true (List.mem_filter.mp hv).2
  rw [h.linked.coreSwitches, length_coreNames] at hmod
  have hvlans : host.vlans = dc.hostVlans host.name := by
    obtain ⟨m, hm⟩ := Dict.mem_values_iff.mp hhost
    obtain ⟨-, e, -, rfl⟩ := (h.view.host m host).mp hm
    rfl
  refine ⟨v, n, ?_, ?_, ?_⟩
  · rw [← hvlans]
    exact hhead
  · rw [hmod]
    exact hi
  · rw [StaticPolicy.core, hhead]
    exact howner

/-- In a data center of any size a frame for a host passes no switch but the edge switches of the
two hosts and, when they differ, the core switch whose number is the VLAN of the addressee modulo
their number. -/
theorem tenant_paths (order : DictOrder) {net : Net} {dc : Datacenter} {N H : Nat}
    (hnet : net.Printable) (hdistinct : net.Distinct N H) (hN : 2 ≤ N)
    (hsetup : Datacenter.SetUp dc) (htenants : dc.tenants ≠ []) :
    ∃ t file topo table, build N H = some t ∧ dc.writeConfig net t = some file ∧
      Topology.parse order file = some topo ∧ StaticPolicy.build topo = some table ∧
      ∀ src ∈ t.hosts, ∀ dst ∈ t.hosts, src ≠ dst → ∀ frame, frame.ethDst = net.mac dst →
        ∃ e e' c, ∃ vlan : Nat, t.links.lookup src = some [e] ∧ t.links.lookup dst = some [e'] ∧
          (dc.hostVlans dst).head? = some (vlan : Int) ∧
          t.coreSwitches[vlan % (N - 1)]? = some c ∧
          t.passes (t.flowsOf net table.installed) 3 frame src =
            if e = e' then [e] else [e, c, e'] := by
  obtain ⟨t, file, topo, hbuild, hfile, hparse, h⟩ :=
    exists_emulates order hnet hdistinct hN hsetup htenants
  obtain ⟨table, htable, hfollows⟩ := h.wellFormed.follows_static h.view.ownedVlans
  refine ⟨t, file, topo, table, hbuild, hfile, hparse, htable, fun src hsrc dst hdst hne frame
    hframe => ?_⟩
  obtain ⟨host, hhost, rfl, -, hlinks⟩ := h.exists_host hsrc
  obtain ⟨host', hhost', rfl, heth', hlinks'⟩ := h.exists_host hdst
  obtain ⟨vlan, c, hhead, hc, hcore⟩ := h.exists_core hhost'
  refine ⟨host.switch, host'.switch, c, vlan, hlinks, hlinks', hhead, hc, ?_⟩
  have hhosts : host ≠ host' := fun heq => hne (congrArg Host.name heq)
  obtain ⟨p, hport, hhops⟩ := Topology.exists_hops h.wellFormed hfollows hhost hhost' hhosts
    (hframe.trans heth'.symm)
  simp only [hcore, Option.getD_some] at hhops
  -- a switch of the emulated network sends the frame on as the controller means it to
  have hone : ∀ s x, topo.hop (fun _ => table) frame s = [x] →
      t.forward (t.flowsOf net table.installed) frame s = [x] := by
    intro s x hhop
    have hperm := h.forward_perm table.installed frame s
    rw [Topology.hop_eq_forward] at hhop
    have hinstalled : topo.installedAt (fun _ => table) = t.flowsOf net table.installed :=
      (h.flowsOf_eq table.installed).symm
    rw [← hinstalled, hhop] at hperm
    rw [← hinstalled]
    exact List.perm_singleton.mp hperm
  obtain ⟨p', hlink, hport'⟩ := h.exists_port hhost
  obtain rfl := Option.some.inj (hport'.symm.trans hport)
  rw [Topo.passes, hlink, Option.map_some, Option.getD_some]
  split at hhops
  case isTrue hsame =>
    rw [if_pos hsame, visits_of_receiver (hone _ _ hhops)]
    rfl
  case isFalse hdiffer =>
    obtain ⟨q, r, hup, hdown, hlast⟩ := hhops
    rw [if_neg hdiffer, visits_of_place (hone _ _ hup), visits_of_place (hone _ _ hdown),
      visits_of_receiver (hone _ _ hlast)]
    rfl

theorem tenant_paths_sample : ∃ t table, build 3 2 = some t ∧
    t.passes (t.flowsOf sampleNet table) 3 ⟨sampleNet.mac (hostName 3), sampleNet.mac (hostName 1)⟩
      (hostName 3) = [switchName 101, switchName 105, switchName 102] := by
  have hsetup : Datacenter.SetUp sampleDatacenter :=
    .setup .parity (hostNames 3 2) [⟨2, -1⟩, ⟨4, -1⟩] .new rfl
  have hdistinct : sampleNet.Distinct 3 2 := ⟨by decide, by decide⟩
  obtain ⟨t, file, topo, table, hbuild, -, -, -, hpaths⟩ := tenant_paths
    ⟨fun d => d, fun _ => .refl _⟩ sampleNet_printable hdistinct (by decide) hsetup (by decide)
  obtain ⟨t', hbuild', hl⟩ := exists_build 3 2
  obtain rfl := Option.some.inj (hbuild.symm.trans hbuild')
  have hhosts : ∀ n ∈ hostIds 3 2, hostName n ∈ t.hosts := by
    intro n hn
    rw [hl.hosts]
    exact List.mem_map_of_mem hn
  obtain ⟨e, e', c, vlan, he, he', hvlan, hc, hpasses⟩ := hpaths _ (hhosts 3 (by decide)) _
    (hhosts 1 (by decide)) (by decide) ⟨sampleNet.mac (hostName 3), sampleNet.mac (hostName 1)⟩ rfl
  obtain rfl : e = switchName 101 :=
    (List.singleton_inj.mp (Option.some.inj ((hl.hostLinks 3 (by decide)).symm.trans he))).symm
  obtain rfl : e' = switchName 102 :=
    (List.singleton_inj.mp (Option.some.inj ((hl.hostLinks 1 (by decide)).symm.trans he'))).symm
  have hone : (sampleDatacenter.hostVlans (hostName 1)).head? = some ((1 : Nat) : Int) := by decide
  obtain rfl : 1 = vlan := Int.natCast_inj.mp (Option.some.inj (hone.symm.trans hvlan))
  rw [hl.coreSwitches] at hc
  have hcore : (coreNames 3 2)[1 % (3 - 1)]? = some (switchName 105) := by decide
  obtain rfl := Option.some.inj (hcore.symm.trans hc)
  exact ⟨t, table.installed, hbuild, hpasses.trans (if_neg (by decide))⟩

end CloudComputing.Minidc
