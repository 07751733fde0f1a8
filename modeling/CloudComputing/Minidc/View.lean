import CloudComputing.Minidc.Config
import CloudComputing.Minidc.Policy

/-!
# The controller's view of the emulated network

The controller reads the file that `writeConfig` has written.  It finds the
switches and hosts of the fat tree, the VLANs of the data center, and, counting
ports by the natural order of the names, the port numbers that the links were
given when they were made.
-/

namespace CloudComputing.Minidc

open Lib FattreeTopology

variable {net : Net} {dc : Datacenter} {N H : Nat} {t : FattreeTopology} {n e sw : Str}

/-- What the controller has read is what has been built. -/
structure View (net : Net) (dc : Datacenter) (t : FattreeTopology) (topo : Topology) : Prop where
  switches : topo.switches.Perm (t.coreSwitches ++ t.edgeSwitches)
  core : ∀ n core, topo.coreSwitches.lookup n = some core ↔ ∃ i, t.coreSwitches[i]? = some n ∧
    core = ⟨n, net.dpid n, (dc.vlansOf t.coreSwitches.length i).map Int.ofNat⟩
  edge : ∀ n edge, topo.edgeSwitches.lookup n = some edge ↔ n ∈ t.edgeSwitches ∧
    ∃ linked, t.links.lookup n = some linked ∧
      edge = ⟨n, net.dpid n, linked.filter fun x => t.isSwitch.lookup x = some false⟩
  host : ∀ n host, topo.hosts.lookup n = some host ↔ n ∈ t.hosts ∧
    ∃ e, t.links.lookup n = some [e] ∧ host = ⟨n, net.ip n, net.mac n, e, dc.hostVlans n⟩
  owner : ∀ host ∈ topo.hosts.values, ∃ vlan, host.vlans.head? = some vlan ∧
    ∃ core ∈ topo.coreSwitches.values, topo.getVlanCore vlan = some core.name ∧
      ∀ core' ∈ topo.coreSwitches.values, vlan ∈ core'.vlans ↔ core' = core
  port : ∀ sw ∈ t.coreSwitches ++ t.edgeSwitches, ∀ n i,
    topo.port sw n = some i ↔ ∃ p, (t.linksOf sw).lookup i = some (n, p)
  nodeAt : ∀ sw ∈ t.coreSwitches ++ t.edgeSwitches, ∀ n i,
    topo.nodeAt sw i = some n ↔ ∃ p, (t.linksOf sw).lookup i = some (n, p)

/-! ## The dictionaries -/

section

variable {α : Type} {order : DictOrder} {d : Dict Str α}

theorem DictOrder.lookup_arrange : (order.arrange d).lookup n = d.lookup n :=
  AList.perm_lookup (order.perm d)

theorem DictOrder.keys_arrange : (order.arrange d).keys.Perm d.keys :=
  (order.perm d).map Sigma.fst

end

theorem nodup_coreNames : ((coreNames N H).zipIdx.map Prod.fst).Nodup := by
  rw [List.zipIdx_map_fst]
  exact (List.nodup_append.mp (nodup_names N H)).1

theorem nodup_edgeNames : ((edgeNames N H).map fun e => e).Nodup := by
  rw [List.map_id']
  exact (List.nodup_append.mp (nodup_names N H)).2.1

theorem mem_attachments {x : Str × Str} : x ∈ attachments N H ↔
    ∃ h ∈ hostIds N H, x = (switchOf N H h, hostName h) := by
  simp only [attachments, hostsOf, List.mem_flatMap, List.mem_map, List.mem_filter,
    decide_eq_true_eq]
  constructor
  · rintro ⟨e, -, _, ⟨h, ⟨hh, rfl⟩, rfl⟩, rfl⟩
    exact ⟨h, hh, rfl⟩
  · rintro ⟨h, hh, rfl⟩
    exact ⟨_, switchOf_mem hh, _, ⟨h, ⟨hh, rfl⟩, rfl⟩, rfl⟩

theorem mem_hostsOf {h : Nat} :
    hostName h ∈ hostsOf N H e ↔ h ∈ hostIds N H ∧ switchOf N H h = e := by
  rw [hostsOf, List.mem_map_of_injective fun _ _ => hostName_inj, List.mem_filter,
    decide_eq_true_eq]

theorem nodup_attachments : ((attachments N H).map Prod.snd).Nodup := by
  have hhosts : (attachments N H).map Prod.snd =
      (edgeNames N H).flatMap fun e => hostsOf N H e := by
    simp [attachments, List.map_flatMap, Function.comp_def]
  rw [hhosts, List.nodup_flatMap]
  refine ⟨fun e _ => ?_, ?_⟩
  · exact (List.Nodup.filter _ List.nodup_range').map fun _ _ => hostName_inj
  · apply (List.nodup_append.mp (nodup_names N H)).2.1.imp
    intro e e' hne h hh hh'
    obtain ⟨i, hi, rfl⟩ := List.mem_map.mp hh
    obtain ⟨j, hj, heq⟩ := List.mem_map.mp hh'
    obtain rfl := hostName_inj heq
    have hi := (List.mem_filter.mp hi).2
    have hj := (List.mem_filter.mp hj).2
    simp only [decide_eq_true_eq] at hi hj
    exact hne (hi.symm.trans hj)

theorem coreDict_keys : (coreDict net dc N H).keys.Perm (coreNames N H) := by
  have hkeys := Dict.keys_foldl_set_perm (f := coreRecord net dc N H) (@nodup_coreNames N H)
  rwa [List.zipIdx_map_fst] at hkeys

theorem edgeDict_keys : (edgeDict net N H).keys.Perm (edgeNames N H) := by
  have hkeys := Dict.keys_foldl_set_perm (f := edgeRecord net N H) (@nodup_edgeNames N H)
  rwa [List.map_id'] at hkeys

theorem lookup_coreDict {core : CoreSwitch} : (coreDict net dc N H).lookup n = some core ↔
    ∃ i, (coreNames N H)[i]? = some n ∧ core = coreRecord net dc N H (n, i) := by
  rw [coreDict, Dict.lookup_foldl_set_iff nodup_coreNames]
  constructor
  · rintro ⟨⟨m, i⟩, hmem, rfl, rfl⟩
    exact ⟨i, List.mem_zipIdx_iff_getElem?.mp hmem, rfl⟩
  · rintro ⟨i, hi, rfl⟩
    exact ⟨(n, i), List.mem_zipIdx_iff_getElem?.mpr hi, rfl, rfl⟩

theorem lookup_edgeDict {edge : EdgeSwitch} : (edgeDict net N H).lookup n = some edge ↔
    n ∈ edgeNames N H ∧ edge = edgeRecord net N H n := by
  rw [edgeDict, Dict.lookup_foldl_set_iff nodup_edgeNames]
  constructor
  · rintro ⟨e, he, rfl, rfl⟩
    exact ⟨he, rfl⟩
  · rintro ⟨he, rfl⟩
    exact ⟨n, he, rfl, rfl⟩

theorem lookup_hostDict {host : Host} : (hostDict net dc N H).lookup n = some host ↔
    ∃ h ∈ hostIds N H, n = hostName h ∧ host = hostRecord net dc (switchOf N H h, n) := by
  rw [hostDict, Dict.lookup_foldl_set_iff nodup_attachments]
  constructor
  · rintro ⟨x, hx, rfl, rfl⟩
    obtain ⟨h, hh, rfl⟩ := mem_attachments.mp hx
    exact ⟨h, hh, rfl, rfl⟩
  · rintro ⟨h, hh, rfl, rfl⟩
    exact ⟨_, mem_attachments.mpr ⟨h, hh, rfl⟩, rfl, rfl⟩

/-! ## The ports -/

theorem pairwise_ids (s l : Nat) : (List.range' s l).Pairwise (· < ·) :=
  List.pairwise_lt_range'

theorem sorted_coreNames {names : List Str} (h : names.Perm (coreNames N H)) :
    sorted names = coreNames N H :=
  sorted_names (by decide) h (pairwise_ids _ _)

theorem sorted_edgeNames {names : List Str} (h : names.Perm (edgeNames N H)) :
    sorted names = edgeNames N H :=
  sorted_names (by decide) h (pairwise_ids _ _)

theorem sorted_hostsOf : sorted (hostsOf N H e) = hostsOf N H e :=
  sorted_names (by decide) (.refl _) ((pairwise_ids _ _).filter _)

/-- The ports of a switch, in the order of its links. -/
theorem lookup_ports {order : DictOrder} (hsw : sw ∈ coreNames N H ++ edgeNames N H) :
    (setPorts (order.arrange (edgeDict net N H)) (order.arrange (coreDict net dc N H))).lookup sw =
      some (.ofNodes (incident (calls N H) sw)) := by
  have hcores := sorted_coreNames (order.keys_arrange.trans (@coreDict_keys net dc N H))
  have hedges := sorted_edgeNames (order.keys_arrange.trans (@edgeDict_keys net N H))
  by_cases he : sw ∈ edgeNames N H
  · have hlookup : (order.arrange (edgeDict net N H)).lookup sw = some (edgeRecord net N H sw) := by
      rw [order.lookup_arrange, lookup_edgeDict]
      exact ⟨he, rfl⟩
    rw [lookup_setPorts_edge hlookup, hcores, edgeRecord, sorted_hostsOf, incident_calls_edge he]
  · have hc : sw ∈ coreNames N H := (List.mem_append.mp hsw).resolve_right he
    have hcore : sw ∈ order.arrange (coreDict net dc N H) := by
      rw [AList.mem_keys, (order.keys_arrange.trans coreDict_keys).mem_iff]
      exact hc
    have hedge : sw ∉ order.arrange (edgeDict net N H) := by
      rw [AList.mem_keys, (order.keys_arrange.trans edgeDict_keys).mem_iff]
      exact he
    rw [lookup_setPorts_core hcore hedge, hedges, incident_calls_core hc]

theorem nodup_incident (hsw : sw ∈ coreNames N H ++ edgeNames N H) :
    (incident (calls N H) sw).Nodup := by
  have hnames := List.nodup_append.mp (nodup_names N H)
  rcases List.mem_append.mp hsw with hc | he
  · rw [incident_calls_core hc]
    exact hnames.2.1
  · rw [incident_calls_edge he]
    refine List.nodup_append.mpr ⟨hnames.1, ?_, ?_⟩
    · exact (List.Nodup.filter _ List.nodup_range').map fun _ _ => hostName_inj
    · rintro c hc h hh rfl
      obtain ⟨i, -, rfl⟩ := List.mem_map.mp hh
      exact hostName_not_mem (List.mem_append_left (edgeNames N H) hc)

/-! ## The owner of a VLAN -/

theorem Datacenter.Numbered.hostVlans_head (h : dc.Numbered) (hpos : 0 < dc.vlans) (n : Str) :
    ∃ vlan : Nat, (dc.hostVlans n).head? = some (vlan : Int) ∧ vlan < dc.vlans := by
  unfold Datacenter.hostVlans
  cases hlookup : dc.vlanMap.lookup n with
  | none =>
      refine ⟨0, ?_, hpos⟩
      obtain ⟨k, hk⟩ := Nat.exists_eq_succ_of_ne_zero hpos.ne'
      simp [hk, List.range_succ_eq_map]
  | some vlan =>
      have hbound := h.host n vlan hlookup
      refine ⟨vlan.toNat, ?_, by omega⟩
      simp [Int.toNat_of_nonneg hbound.1]

theorem mem_coreRecord_vlans {c : Str × Nat} {vlan : Nat} (hvlan : vlan < dc.vlans) :
    (vlan : Int) ∈ (coreRecord net dc N H c).vlans ↔ vlan % (coreNames N H).length = c.2 := by
  simp [coreRecord, Datacenter.vlansOf, hvlan]

theorem length_coreNames : (coreNames N H).length = N - 1 := by
  simp [coreNames, coreSwitchIds]

theorem exists_owner (hN : 2 ≤ N) {topo : Topology} {order : DictOrder}
    (hcores : topo.coreSwitches = order.arrange (coreDict net dc N H)) {vlan : Nat}
    (hvlan : vlan < dc.vlans) : ∃ core ∈ topo.coreSwitches.values,
      topo.getVlanCore vlan = some core.name ∧
      ∀ core' ∈ topo.coreSwitches.values, (vlan : Int) ∈ core'.vlans ↔ core' = core := by
  have hvalues : ∀ core', core' ∈ topo.coreSwitches.values ↔
      ∃ n i, (coreNames N H)[i]? = some n ∧ core' = coreRecord net dc N H (n, i) := by
    intro core'
    simp only [Dict.mem_values_iff, hcores, order.lookup_arrange, lookup_coreDict]
  have hlt : vlan % (coreNames N H).length < (coreNames N H).length := by
    apply Nat.mod_lt
    rw [length_coreNames]
    omega
  let i := vlan % (coreNames N H).length
  have hi : (coreNames N H)[i]? = some (coreNames N H)[i] := List.getElem?_eq_getElem hlt
  let core := coreRecord net dc N H ((coreNames N H)[i], i)
  have howned : ∀ core' ∈ topo.coreSwitches.values, (vlan : Int) ∈ core'.vlans ↔ core' = core := by
    intro core' hcore'
    obtain ⟨n, j, hj, rfl⟩ := (hvalues core').mp hcore'
    rw [mem_coreRecord_vlans hvlan]
    constructor
    · rintro rfl
      have hn : (coreNames N H)[i] = n := Option.some.inj (hi.symm.trans hj)
      rw [← hn]
    · intro heq
      have hmem : (vlan : Int) ∈ (coreRecord net dc N H (n, j)).vlans := by
        rw [heq]
        exact (mem_coreRecord_vlans hvlan).mpr rfl
      exact (mem_coreRecord_vlans hvlan).mp hmem
  have hmem : core ∈ topo.coreSwitches.values := (hvalues core).mpr ⟨_, i, hi, rfl⟩
  refine ⟨core, hmem, ?_, howned⟩
  have hfound : topo.coreSwitches.values.find? (fun core => (vlan : Int) ∈ core.vlans) =
      some core := by
    have hsome : (topo.coreSwitches.values.find? fun core => (vlan : Int) ∈ core.vlans).isSome :=
      List.find?_isSome.mpr ⟨core, hmem, decide_eq_true ((howned core hmem).mpr rfl)⟩
    obtain ⟨found, hfound⟩ := Option.isSome_iff_exists.mp hsome
    have hfoundMem := List.mem_of_find?_eq_some hfound
    have hfoundVlan := List.find?_some hfound
    rw [hfound, (howned found hfoundMem).mp (of_decide_eq_true hfoundVlan)]
  rw [Topology.getVlanCore, hfound, Option.map_some]

/-! ## The view -/

/-- The topology that the parser makes of the file. -/
theorem exists_parse (order : DictOrder) (hnet : net.Printable) (hN : 2 ≤ N)
    (hnumbered : dc.Numbered) (hpos : 0 < dc.vlans) (hl : Linked N H (calls N H) (hostIds N H) t) :
    ∃ file topo, dc.writeConfig net t = some file ∧ Topology.parse order file = some topo ∧
      topo.hosts = order.arrange (hostDict net dc N H) ∧
      topo.switches = topo.coreSwitches.keys ++ topo.edgeSwitches.keys ∧
      topo.edgeSwitches = order.arrange (edgeDict net N H) ∧
      topo.coreSwitches = order.arrange (coreDict net dc N H) ∧
      topo.ports = setPorts topo.edgeSwitches topo.coreSwitches := by
  have hvlans : ∀ h, dc.hostVlans h ≠ [] := by
    intro h hnil
    obtain ⟨vlan, hhead, -⟩ := hnumbered.hostVlans_head hpos h
    rw [hnil] at hhead
    cases hhead
  obtain ⟨rest, hsections⟩ := @sections_file net dc N H hnet hN
  let hosts := order.arrange (hostDict net dc N H)
  let edgeSwitches := order.arrange (edgeDict net N H)
  let coreSwitches := order.arrange (coreDict net dc N H)
  let members := hosts.values.flatMap fun host => host.vlans.map fun v => (v, host.name)
  let topo : Topology := {
    hosts
    vlans := members.foldl addMember ∅
    switches := coreSwitches.keys ++ edgeSwitches.keys
    edgeSwitches
    coreSwitches
    ports := setPorts edgeSwitches coreSwitches }
  refine ⟨_, topo, writeConfig_eq hl, ?_, rfl, rfl, rfl, rfl, rfl⟩
  rw [Topology.parse]
  simp only [hsections, List.getElem?_cons_zero, List.getElem?_cons_succ, Option.bind_eq_bind,
    Option.bind_some, parseCores_file, parseEdges_file hnet, parseHosts_file hnet hvlans]
  rfl

theorem filter_linked (hl : Linked N H (calls N H) (hostIds N H) t) :
    (coreNames N H ++ hostsOf N H e).filter (fun x => t.isSwitch.lookup x = some false) =
      hostsOf N H e := by
  have hcores : (coreNames N H).filter (fun x => t.isSwitch.lookup x = some false) = [] := by
    rw [List.filter_eq_nil_iff]
    intro c hc
    rw [hl.wires.kind c (List.mem_append_left _ hc)]
    decide
  have hhosts : (hostsOf N H e).filter (fun x => t.isSwitch.lookup x = some false) =
      hostsOf N H e := by
    rw [List.filter_eq_self]
    intro x hx
    obtain ⟨h, hh, rfl⟩ := List.mem_map.mp hx
    rw [hl.hostKind h (List.mem_of_mem_filter hh)]
    rfl
  rw [List.filter_append, hcores, hhosts, List.nil_append]

theorem view_of_parsed {order : DictOrder} {topo : Topology} (hnumbered : dc.Numbered)
    (hpos : 0 < dc.vlans) (hN : 2 ≤ N) (hl : Linked N H (calls N H) (hostIds N H) t)
    (hhosts : topo.hosts = order.arrange (hostDict net dc N H))
    (hswitches : topo.switches = topo.coreSwitches.keys ++ topo.edgeSwitches.keys)
    (hedges : topo.edgeSwitches = order.arrange (edgeDict net N H))
    (hcores : topo.coreSwitches = order.arrange (coreDict net dc N H))
    (hports : topo.ports = setPorts topo.edgeSwitches topo.coreSwitches) :
    View net dc t topo := by
  have hincident : ∀ sw ∈ t.coreSwitches ++ t.edgeSwitches,
      sw ∈ coreNames N H ++ edgeNames N H := by
    intro sw hsw
    rwa [hl.coreSwitches, hl.edgeSwitches] at hsw
  have hlookup : ∀ sw ∈ t.coreSwitches ++ t.edgeSwitches,
      topo.ports.lookup sw = some (.ofNodes (incident (calls N H) sw)) := by
    intro sw hsw
    rw [hports, hedges, hcores]
    exact lookup_ports (hincident sw hsw)
  constructor
  case switches =>
    rw [hswitches, hedges, hcores, hl.coreSwitches, hl.edgeSwitches]
    exact (order.keys_arrange.trans coreDict_keys).append (order.keys_arrange.trans edgeDict_keys)
  case core =>
    intro n core
    rw [hcores, order.lookup_arrange, lookup_coreDict, hl.coreSwitches]
    rfl
  case edge =>
    intro n edge
    rw [hedges, order.lookup_arrange, lookup_edgeDict, hl.edgeSwitches]
    apply and_congr_right
    intro he
    rw [hl.wires.links n (List.mem_append_right _ he), incident_calls_edge he]
    simp only [Option.some.injEq, exists_eq_left', filter_linked hl, edgeRecord]
  case host =>
    intro n host
    rw [hhosts, order.lookup_arrange, lookup_hostDict, hl.hosts]
    constructor
    · rintro ⟨h, hh, rfl, rfl⟩
      exact ⟨List.mem_map_of_mem hh, _, hl.hostLinks h hh, rfl⟩
    · rintro ⟨hn, e, hlinks, rfl⟩
      obtain ⟨h, hh, rfl⟩ := List.mem_map.mp hn
      rw [hl.hostLinks h hh] at hlinks
      obtain rfl := List.singleton_inj.mp (Option.some.inj hlinks)
      exact ⟨h, hh, rfl, rfl⟩
  case owner =>
    intro host hhost
    obtain ⟨n, hn⟩ := Dict.mem_values_iff.mp hhost
    rw [hhosts, order.lookup_arrange, lookup_hostDict] at hn
    obtain ⟨h, -, rfl, rfl⟩ := hn
    obtain ⟨vlan, hhead, hvlan⟩ := hnumbered.hostVlans_head hpos (hostName h)
    exact ⟨vlan, hhead, exists_owner hN hcores hvlan⟩
  case port =>
    intro sw hsw n i
    rw [Topology.port, hlookup sw hsw, Option.bind_some,
      Ports.port_ofNodes_iff (nodup_incident (hincident sw hsw)),
      (hl.wires.numbers sw (hincident sw hsw)).lookup_iff]
  case nodeAt =>
    intro sw hsw n i
    rw [Topology.nodeAt, hlookup sw hsw, Option.bind_some, Ports.node_ofNodes_iff,
      (hl.wires.numbers sw (hincident sw hsw)).lookup_iff]

/-! ## What the policies rely on -/

/-- Mininet gives the switches different dpids and the hosts different MAC addresses. -/
structure Net.Distinct (net : Net) (N H : Nat) : Prop where
  dpid : ∀ s ∈ coreNames N H ++ edgeNames N H, ∀ s' ∈ coreNames N H ++ edgeNames N H,
    net.dpid s = net.dpid s' → s = s'
  mac : ∀ h ∈ hostNames N H, ∀ h' ∈ hostNames N H, net.mac h = net.mac h' → h = h'

theorem wellFormed_of_parsed {order : DictOrder} {topo : Topology} (hdistinct : net.Distinct N H)
    (hN : 2 ≤ N) (hhosts : topo.hosts = order.arrange (hostDict net dc N H))
    (hedges : topo.edgeSwitches = order.arrange (edgeDict net N H))
    (hcores : topo.coreSwitches = order.arrange (coreDict net dc N H))
    (hports : topo.ports = setPorts topo.edgeSwitches topo.coreSwitches) : topo.WellFormed := by
  have hhost : ∀ {n host}, topo.hosts.lookup n = some host ↔
      ∃ h ∈ hostIds N H, n = hostName h ∧ host = hostRecord net dc (switchOf N H h, n) := by
    intro n host
    rw [hhosts, order.lookup_arrange, lookup_hostDict]
  have hedge : ∀ {n edge}, topo.edgeSwitches.lookup n = some edge ↔
      n ∈ edgeNames N H ∧ edge = edgeRecord net N H n := by
    intro n edge
    rw [hedges, order.lookup_arrange, lookup_edgeDict]
  have hcore : ∀ {n core}, topo.coreSwitches.lookup n = some core ↔
      ∃ i, (coreNames N H)[i]? = some n ∧ core = coreRecord net dc N H (n, i) := by
    intro n core
    rw [hcores, order.lookup_arrange, lookup_coreDict]
  have hcoreKeys : topo.coreSwitches.keys.Perm (coreNames N H) := by
    rw [hcores]
    exact order.keys_arrange.trans coreDict_keys
  have hedgeKeys : topo.edgeSwitches.keys.Perm (edgeNames N H) := by
    rw [hedges]
    exact order.keys_arrange.trans edgeDict_keys
  have hnames := List.nodup_append.mp (nodup_names N H)
  constructor
  case hosts =>
    rintro ⟨n, host⟩ he
    obtain ⟨h, -, -, rfl⟩ := hhost.mp (Dict.mem_entries_iff.mp he)
    rfl
  case edges =>
    rintro ⟨n, edge⟩ he
    obtain ⟨-, rfl⟩ := hedge.mp (Dict.mem_entries_iff.mp he)
    rfl
  case cores =>
    rintro ⟨n, core⟩ he
    obtain ⟨i, -, rfl⟩ := hcore.mp (Dict.mem_entries_iff.mp he)
    rfl
  case ports => exact hports
  case core =>
    apply List.ne_nil_of_length_pos
    rw [hcoreKeys.length_eq, length_coreNames]
    omega
  case switches =>
    intro n hn hmem
    rw [hcoreKeys.mem_iff] at hn
    rw [AList.mem_keys, hedgeKeys.mem_iff] at hmem
    exact hnames.2.2 n hn n hmem rfl
  case dpids =>
    have hcoreDpids : topo.coreSwitches.values.map CoreSwitch.dpid =
        topo.coreSwitches.keys.map net.dpid := by
      apply Dict.map_values_eq
      intro n core hn
      obtain ⟨i, -, rfl⟩ := hcore.mp hn
      rfl
    have hedgeDpids : topo.edgeSwitches.values.map EdgeSwitch.dpid =
        topo.edgeSwitches.keys.map net.dpid := by
      apply Dict.map_values_eq
      intro n edge hn
      obtain ⟨-, rfl⟩ := hedge.mp hn
      rfl
    rw [hcoreDpids, hedgeDpids, ← List.map_append,
      ((hcoreKeys.append hedgeKeys).map net.dpid).nodup_iff]
    exact (nodup_names N H).map_on hdistinct.dpid
  case eths =>
    have hmacs : topo.hosts.values.map Host.eth = topo.hosts.keys.map net.mac := by
      apply Dict.map_values_eq
      intro n host hn
      obtain ⟨h, -, rfl, rfl⟩ := hhost.mp hn
      rfl
    have hkeys : ∀ n ∈ topo.hosts.keys, n ∈ hostNames N H := by
      intro n hn
      obtain ⟨host, hhost'⟩ := Option.isSome_iff_exists.mp (AList.lookup_isSome.mpr hn)
      obtain ⟨h, hh, rfl, -⟩ := hhost.mp hhost'
      exact List.mem_map_of_mem hh
    rw [hmacs]
    exact topo.hosts.keys_nodup.map_on
      fun n hn n' hn' => hdistinct.mac n (hkeys n hn) n' (hkeys n' hn')
  case neighbors =>
    intro edge he
    obtain ⟨n, hn⟩ := Dict.mem_values_iff.mp he
    obtain ⟨-, rfl⟩ := hedge.mp hn
    refine ⟨(List.Nodup.filter _ List.nodup_range').map fun _ _ => hostName_inj, fun m hm => ?_⟩
    obtain ⟨h, -, rfl⟩ := List.mem_map.mp hm
    rw [AList.mem_keys, AList.mem_keys, hcoreKeys.mem_iff, hedgeKeys.mem_iff, ← not_or,
      ← List.mem_append]
    exact hostName_not_mem
  case attached =>
    intro host hmem
    obtain ⟨n, hn⟩ := Dict.mem_values_iff.mp hmem
    obtain ⟨h, hh, rfl, rfl⟩ := hhost.mp hn
    refine ⟨?_, fun edge he => ?_⟩
    · rw [AList.mem_keys, hedgeKeys.mem_iff]
      exact switchOf_mem hh
    · obtain ⟨n, hn⟩ := Dict.mem_values_iff.mp he
      obtain ⟨-, rfl⟩ := hedge.mp hn
      exact mem_hostsOf.trans ⟨fun hswitch => hswitch.2.symm, fun hswitch => ⟨hh, hswitch.symm⟩⟩

theorem View.ownedVlans {topo : Topology} (h : View net dc t topo) : topo.OwnedVlans := by
  intro host hhost
  obtain ⟨vlan, hhead, core, hcore, -, howned⟩ := h.owner host hhost
  exact ⟨vlan, hhead, core, hcore, (howned core hcore).mpr rfl⟩

/-- The policies get a topology that they can route on. -/
theorem parse_wellFormed (order : DictOrder) (hnet : net.Printable) (hdistinct : net.Distinct N H)
    (hN : 2 ≤ N) (hsetup : Datacenter.SetUp dc) (htenants : dc.tenants ≠ []) :
    ∃ t file topo, build N H = some t ∧ dc.writeConfig net t = some file ∧
      Topology.parse order file = some topo ∧ topo.WellFormed ∧ topo.OwnedVlans := by
  have hnumbered := hsetup.numbered
  have hpos := hnumbered.vlans_pos htenants
  obtain ⟨t, hbuild, hl⟩ := exists_build N H
  obtain ⟨file, topo, hfile, hparse, hhosts, hswitches, hedges, hcores, hports⟩ :=
    exists_parse order hnet hN hnumbered hpos hl
  have hview := view_of_parsed hnumbered hpos hN hl hhosts hswitches hedges hcores hports
  exact ⟨t, file, topo, hbuild, hfile, hparse,
    wellFormed_of_parsed hdistinct hN hhosts hedges hcores hports, hview.ownedVlans⟩

/-! ## The two programs agree -/

/-- A data center with tenants, on a fat tree of any size: what the controller reads from the file
is the network that has been built. -/
theorem parse_writeConfig (order : DictOrder) (hnet : net.Printable) (hN : 2 ≤ N)
    (hsetup : Datacenter.SetUp dc) (htenants : dc.tenants ≠ []) :
    ∃ t file topo, build N H = some t ∧ dc.writeConfig net t = some file ∧
      Topology.parse order file = some topo ∧ View net dc t topo := by
  have hnumbered := hsetup.numbered
  have hpos := hnumbered.vlans_pos htenants
  obtain ⟨t, hbuild, hl⟩ := exists_build N H
  obtain ⟨file, topo, hfile, hparse, hhosts, hswitches, hedges, hcores, hports⟩ :=
    exists_parse order hnet hN hnumbered hpos hl
  exact ⟨t, file, topo, hbuild, hfile, hparse,
    view_of_parsed hnumbered hpos hN hl hhosts hswitches hedges hcores hports⟩

/-- The numbers of the names as dpids, and addresses made of the same numbers. -/
def sampleNet : Net where
  dpid s := Nat.ofDigitChars 10 (s.filter Char.isDigit) 0
  ip h := ['1', '0', '.', '0', '.', '0', '.'] ++ h.filter Char.isDigit
  mac h := ['0', '0', ':'] ++ h.filter Char.isDigit

theorem sampleNet_printable : sampleNet.Printable := by
  have hdigits : ∀ h : Str, ∀ c ∈ h.filter Char.isDigit, Decimal.isSpace c = false ∧ c ≠ ',' := by
    intro h c hc
    have hdigit := (List.mem_filter.mp hc).2
    refine ⟨Decimal.isSpace_eq_false (Or.inl hdigit), ?_⟩
    rintro rfl
    exact absurd hdigit (by decide)
  have hip : ∀ c ∈ ['1', '0', '.', '0', '.', '0', '.'], Decimal.isSpace c = false ∧ c ≠ ',' := by
    simp [Decimal.isSpace]
  have hmac : ∀ c ∈ ['0', '0', ':'], Decimal.isSpace c = false ∧ c ≠ ',' := by
    simp [Decimal.isSpace]
  exact ⟨fun h c hc => (List.mem_append.mp hc).elim (hip c) (hdigits h c),
    fun h c hc => (List.mem_append.mp hc).elim (hmac c) (hdigits h c)⟩

/-- Two tenants on six hosts. -/
def sampleDatacenter : Datacenter :=
  (Datacenter.new.setup .parity (hostNames 3 2) [⟨2, -1⟩, ⟨4, -1⟩]).getD .new

theorem parse_writeConfig_sample :
    ∃ t file topo, build 3 2 = some t ∧ sampleDatacenter.writeConfig sampleNet t = some file ∧
      Topology.parse ⟨fun d => d, fun _ => .refl _⟩ file = some topo ∧
      View sampleNet sampleDatacenter t topo := by
  have hsetup : Datacenter.SetUp sampleDatacenter :=
    .setup .parity (hostNames 3 2) [⟨2, -1⟩, ⟨4, -1⟩] .new rfl
  exact parse_writeConfig _ sampleNet_printable (by decide) hsetup (by decide)

end CloudComputing.Minidc
