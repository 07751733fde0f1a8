import CloudComputing.Lib.Decimal
import CloudComputing.Minidc.BandwidthStats
import CloudComputing.Minidc.Parser
import CloudComputing.Minidc.Policy

/-!
# The bandwidth monitor

`controller/bwmon.py` and `controller/bwstats.py`.  Every few seconds the
controller asks all its switches for the counters of their ports.  An edge switch
answers for its hosts; when as many switches have answered as are registered, the
hosts are added up by VLAN.
-/

namespace CloudComputing.Minidc

open Lib

/-! ## Files of comma-separated values -/

structure CsvProvider where
  /-- The components as `str` prints them. -/
  tuples : List (List Str)
  file : Option Str

namespace CsvProvider

def new : CsvProvider :=
  ⟨[], none⟩

def add (tup : List Str) (p : CsvProvider) : CsvProvider :=
  { p with tuples := p.tuples ++ [tup] }

def clear (p : CsvProvider) : CsvProvider :=
  { p with tuples := [] }

def toCsv (p : CsvProvider) : Str :=
  p.tuples.flatMap fun t => [','].intercalate t ++ ['\n']

def write (p : CsvProvider) : CsvProvider :=
  { p with file := some p.toCsv }

end CsvProvider

/-! ## `BandwidthStats` -/

structure BandwidthStats where
  hostBw : Dict Str HostBw
  vlanBw : Dict Int HostBw
  swDroppedPkts : Dict (Option Str) Nat
  dpCounter : Nat
  bwStats : BandwidthStatsProvider Str
  tenantStats : BandwidthStatsProvider Str
  drpPktStats : CsvProvider

namespace BandwidthStats

/-- `__init__`; the providers are new when the controller starts. -/
def init (topo : Topology) : BandwidthStats where
  hostBw := topo.hosts.keys.foldl (fun d host => Dict.set host ⟨0, 0⟩ d) ∅
  vlanBw := topo.vlans.keys.foldl (fun d vlan => Dict.set vlan ⟨0, 0⟩ d) ∅
  swDroppedPkts := topo.switches.foldl (fun d sw => Dict.set (some sw) 0 d) ∅
  dpCounter := 0
  bwStats := .new
  tenantStats := .new
  drpPktStats := .new

def addDroppedPktStat (sw : Option Str) (droppedPkts : Nat) (s : BandwidthStats) :
    BandwidthStats :=
  { s with swDroppedPkts := Dict.set sw droppedPkts s.swDroppedPkts }

/-- What a switch sends to a host the host receives. -/
def addHostBwStat (host : Str) (txbytes rxbytes : Nat) (s : BandwidthStats) :
    Option BandwidthStats := do
  let _ ← s.hostBw.lookup host
  return { s with
    hostBw := Dict.set host ⟨txbytes, rxbytes⟩ s.hostBw
    bwStats := ← s.bwStats.add host rxbytes txbytes }

/-- `self.vlanBw[vlan]['in'] += self.hostBw[host]['in']`, and the same for `'out'`. -/
def credit (bw : HostBw) (vlanBw : Dict Int HostBw) (vlan : Int) : Option (Dict Int HostBw) :=
  (vlanBw.lookup vlan).map fun total =>
    Dict.set vlan ⟨total.inBytes + bw.inBytes, total.outBytes + bw.outBytes⟩ vlanBw

/-- The inner loop over the VLANs of a host. -/
def creditHost (topo : Topology) (hostBw : Dict Str HostBw) (vlanBw : Dict Int HostBw)
    (host : Str) : Option (Dict Int HostBw) := do
  let bw ← hostBw.lookup host
  (← topo.hosts.lookup host).vlans.foldlM (credit bw) vlanBw

def vlanName (vlan : Int) : Str :=
  "vlan".toList ++ Decimal.toStr vlan

/-- The last loop over the VLANs. -/
def addTenants (vlanBw : Dict Int HostBw) (stats : BandwidthStatsProvider Str) :
    Option (BandwidthStatsProvider Str) :=
  vlanBw.entries.foldlM (fun p e => p.add (vlanName e.1) e.2.outBytes e.2.inBytes) stats

/-- A name as `str` prints it. -/
def str : Option Str → Str
  | none => "None".toList
  | some name => name

/-- Every other time the dropped packets go to their file. -/
def writeDropped (s : BandwidthStats) : BandwidthStats :=
  if 1 < s.dpCounter + 1 then
    let rows := s.swDroppedPkts.entries.foldl (fun p e => p.add [str e.1, Decimal.toStr e.2])
      (s.drpPktStats.add ["sw".toList, "dpkts".toList])
    { s with dpCounter := 0, drpPktStats := rows.write.clear }
  else { s with dpCounter := s.dpCounter + 1 }

def updateTenantStats (topo : Topology) (s : BandwidthStats) : Option BandwidthStats := do
  let zero := s.vlanBw.keys.foldl (fun d vlan => Dict.set vlan ⟨0, 0⟩ d) s.vlanBw
  let vlanBw ← s.hostBw.keys.foldlM (creditHost topo s.hostBw) zero
  let tenantStats ← addTenants vlanBw s.tenantStats
  return { s with vlanBw, tenantStats }.writeDropped

end BandwidthStats

/-! ## `BandwidthMonitor` -/

/-- The fields of `OFPPortStats` that are read. -/
structure PortStats where
  portNo : Nat
  txBytes : Nat
  rxBytes : Nat
  txDropped : Nat
  rxDropped : Nat
deriving DecidableEq, Repr

/-- The connection of a switch goes by its number. -/
structure BandwidthMonitor where
  datapaths : Dict Int Nat
  statsReplied : Nat
  bwstats : BandwidthStats

namespace BandwidthMonitor

def init (topo : Topology) : BandwidthMonitor :=
  ⟨∅, 0, .init topo⟩

/-- `stateChangeHandler` with `MAIN_DISPATCHER`. -/
def register (dpid : Int) (conn : Nat) (m : BandwidthMonitor) : BandwidthMonitor :=
  if dpid ≠ 0 ∧ dpid ∉ m.datapaths then
    { m with datapaths := Dict.set dpid conn m.datapaths }
  else m

/-- `stateChangeHandler` with `DEAD_DISPATCHER`. -/
def unregister (dpid : Int) (m : BandwidthMonitor) : BandwidthMonitor :=
  if dpid ≠ 0 ∧ dpid ∈ m.datapaths then { m with datapaths := m.datapaths.erase dpid } else m

/-- A turn of `monitor`, and the connections that get a request. -/
def poll (m : BandwidthMonitor) : BandwidthMonitor × List Nat :=
  ({ m with statsReplied := 0 }, m.datapaths.values)

def deviceAt (topo : Topology) (name : Option Str) (portNo : Nat) : Option Str := do
  let name ← name
  if name ∈ topo.edgeSwitches then
    let device ← topo.nodeAt name portNo
    if device ∈ topo.hosts then some device else none
  else none

/-- The second loop over the body of a reply. -/
def addHosts (topo : Topology) (name : Option Str) (body : List PortStats) (s : BandwidthStats) :
    Option BandwidthStats :=
  body.foldlM (fun s stat =>
    match deviceAt topo name stat.portNo with
    | some device => s.addHostBwStat device stat.txBytes stat.rxBytes
    | none => some s) s

def statsReplyHandler (topo : Topology) (dpid : Int) (body : List PortStats)
    (m : BandwidthMonitor) : Option BandwidthMonitor := do
  let name := topo.dpidToName dpid
  let totalDropped := (body.map fun stat => stat.txDropped + stat.rxDropped).sum
  let bwstats ← addHosts topo name body (m.bwstats.addDroppedPktStat name totalDropped)
  let statsReplied := m.statsReplied + 1
  let bwstats ← if statsReplied = m.datapaths.keys.length then bwstats.updateTenantStats topo
    else some bwstats
  return { m with statsReplied, bwstats }

/-- What the monitor is called for. -/
inductive Event
  | poll
  | main (dpid : Int) (conn : Nat)
  | dead (dpid : Int)
  | reply (dpid : Int) (body : List PortStats)

def handle (topo : Topology) (m : BandwidthMonitor) : Event → Option BandwidthMonitor
  | .poll => some m.poll.1
  | .main dpid conn => some (m.register dpid conn)
  | .dead dpid => some (m.unregister dpid)
  | .reply dpid body => m.statsReplyHandler topo dpid body

end BandwidthMonitor

/-! ## What is reported of the hosts -/

open BandwidthStatsProvider

/-- The call of `bwStats.add` for the counters of a port. -/
def PortStats.call (host : Str) (stat : PortStats) : Call Str :=
  ⟨host, stat.rxBytes, stat.txBytes⟩

namespace BandwidthMonitor

variable (topo : Topology)

def callOf (dpid : Int) (stat : PortStats) : Option (Call Str) :=
  (deviceAt topo (topo.dpidToName dpid) stat.portNo).map fun host => stat.call host

def Event.calls : Event → List (Call Str)
  | .poll => []
  | .main _ _ => []
  | .dead _ => []
  | .reply dpid body => body.filterMap (callOf topo dpid)

def calls (events : List Event) : List (Call Str) :=
  events.flatMap (Event.calls topo)

end BandwidthMonitor

/-- The counters that were reported last. -/
def latest (calls : List (Call Str)) (host : Str) : HostBw :=
  match (reports host calls).getLast? with
  | some total => ⟨total.inBytes, total.outBytes⟩
  | none => ⟨0, 0⟩

def tenantTotal (topo : Topology) (bw : Str → HostBw) (vlan : Int) : HostBw :=
  ⟨(topo.hosts.values.map fun h => h.vlans.count vlan * (bw h.name).inBytes).sum,
    (topo.hosts.values.map fun h => h.vlans.count vlan * (bw h.name).outBytes).sum⟩

/-- Every VLAN of a host is one of the topology. -/
def Topology.Tagged (topo : Topology) : Prop :=
  ∀ h ∈ topo.hosts.values, ∀ vlan ∈ h.vlans, vlan ∈ topo.vlans

theorem mem_foldl_addMember {members : List (Int × Str)} {vlans : Dict Int (List Str)} {vlan : Int} :
    vlan ∈ members.foldl addMember vlans ↔ vlan ∈ members.map Prod.fst ∨ vlan ∈ vlans := by
  induction members generalizing vlans with
  | nil => simp
  | cons m members ih =>
      rw [List.foldl_cons, ih, addMember, Dict.mem_set, List.map_cons, List.mem_cons]
      tauto

theorem tagged_of_parse {order : DictOrder} {file : Str} {topo : Topology}
    (h : Topology.parse order file = some topo) : topo.Tagged := by
  simp only [Topology.parse, Option.bind_eq_bind, Option.bind_eq_some_iff, Option.pure_def,
    Option.some.injEq] at h
  obtain ⟨_, _, _, _, _, _, _, _, _, _, hosts, _, rfl⟩ := h
  intro host hhost vlan hvlan
  refine mem_foldl_addMember.mpr (Or.inl ?_)
  rw [List.map_flatMap]
  exact List.mem_flatMap.mpr ⟨host, hhost, by simpa using hvlan⟩

namespace BandwidthStats

variable {topo : Topology} {s s' : BandwidthStats} {calls : List (Call Str)}
  {moments : List (List (Call Str))} {host : Str} {vlan : Int} {bw : HostBw}
  {vlanBw : Dict Int HostBw} {hostBw : Dict Str HostBw}

/-- The hosts are up to date with `calls`; the VLANs were added up at `moments`. -/
structure Tracks (topo : Topology) (calls : List (Call Str)) (moments : List (List (Call Str)))
    (s : BandwidthStats) : Prop where
  hosts : s.hostBw.keys.Perm topo.hosts.keys
  hostBw : ∀ host ∈ topo.hosts.keys, s.hostBw.lookup host = some (latest calls host)
  bwStats : Keeps s.bwStats calls
  vlans : ∀ vlan, vlan ∈ s.vlanBw ↔ vlan ∈ topo.vlans
  vlanBw : ∀ vlan ∈ topo.vlans, s.vlanBw.lookup vlan =
    some (tenantTotal topo (latest (moments.getLast?.getD [])) vlan)
  tenants : ∃ updates, Keeps s.tenantStats updates ∧ ∀ vlan ∈ topo.vlans,
    reports (vlanName vlan) updates =
      moments.map fun calls =>
        let total := tenantTotal topo (latest calls) vlan
        ⟨total.inBytes, total.outBytes⟩
  moments : moments.Pairwise (· <+: ·) ∧ ∀ earlier ∈ moments, earlier <+: calls

/-! ## Adding up -/

theorem vlanName_inj {v w : Int} (h : vlanName v = vlanName w) : v = w := by
  have htext : Decimal.toStr v = Decimal.toStr w := List.append_cancel_left h
  have hsigned := Decimal.signed_toStr v
  rw [htext, Decimal.signed_toStr w] at hsigned
  exact (Option.some.inj hsigned).symm

theorem exists_credits (bw : HostBw) {vlans : List Int} (h : ∀ vlan ∈ vlans, vlan ∈ vlanBw) :
    ∃ vlanBw', vlans.foldlM (credit bw) vlanBw = some vlanBw' ∧
      ∀ vlan, vlanBw'.lookup vlan = (vlanBw.lookup vlan).map fun total =>
        ⟨total.inBytes + vlans.count vlan * bw.inBytes,
          total.outBytes + vlans.count vlan * bw.outBytes⟩ := by
  induction vlans generalizing vlanBw with
  | nil => exact ⟨vlanBw, rfl, fun vlan => by simp⟩
  | cons v vlans ih =>
      obtain ⟨total, htotal⟩ :=
        Option.isSome_iff_exists.mp (AList.lookup_isSome.mpr (h v List.mem_cons_self))
      have hnext : credit bw vlanBw v = some (Dict.set v
          ⟨total.inBytes + bw.inBytes, total.outBytes + bw.outBytes⟩ vlanBw) := by
        rw [credit, htotal, Option.map_some]
      obtain ⟨vlanBw', hloop, hlookup⟩ := ih fun vlan hvlan =>
        Dict.mem_set.mpr (Or.inr (h vlan (List.mem_cons_of_mem v hvlan)))
      refine ⟨vlanBw', ?_, fun vlan => ?_⟩
      · rw [List.foldlM_cons, hnext]
        exact hloop
      · rw [hlookup, Dict.lookup_set]
        by_cases hv : vlan = v
        · subst hv
          rw [if_pos rfl, htotal, Option.map_some, Option.map_some, List.count_cons_self]
          congr 2
          · push_cast
            ring
          · push_cast
            ring
        · rw [if_neg hv, List.count_cons_of_ne (Ne.symm hv)]

/-- How often a host is counted in a VLAN. -/
def shares (topo : Topology) (vlan : Int) (host : Str) : Int :=
  (((topo.hosts.lookup host).map Host.vlans).getD []).count vlan

theorem exists_creditHosts {names : List Str} {bw : Str → HostBw}
    (h : ∀ n ∈ names, hostBw.lookup n = some (bw n) ∧
      ∃ host, topo.hosts.lookup n = some host ∧ ∀ vlan ∈ host.vlans, vlan ∈ vlanBw) :
    ∃ vlanBw', names.foldlM (creditHost topo hostBw) vlanBw = some vlanBw' ∧
      ∀ vlan, vlanBw'.lookup vlan = (vlanBw.lookup vlan).map fun total =>
        ⟨total.inBytes + (names.map fun n => shares topo vlan n * (bw n).inBytes).sum,
          total.outBytes + (names.map fun n => shares topo vlan n * (bw n).outBytes).sum⟩ := by
  induction names generalizing vlanBw with
  | nil => exact ⟨vlanBw, rfl, fun vlan => by simp⟩
  | cons n names ih =>
      obtain ⟨hbw, host, hhost, hvlans⟩ := h n List.mem_cons_self
      obtain ⟨vlanBw₁, hcredits, hlookup₁⟩ := exists_credits (bw n) hvlans
      have hnext : creditHost topo hostBw vlanBw n = some vlanBw₁ := by
        rw [creditHost, hbw, hhost]
        exact hcredits
      have hrest : ∀ m ∈ names, hostBw.lookup m = some (bw m) ∧
          ∃ host, topo.hosts.lookup m = some host ∧ ∀ vlan ∈ host.vlans, vlan ∈ vlanBw₁ := by
        intro m hm
        obtain ⟨hbw, host, hhost, hvlans⟩ := h m (List.mem_cons_of_mem n hm)
        refine ⟨hbw, host, hhost, fun vlan hvlan => ?_⟩
        rw [← AList.lookup_isSome, hlookup₁, Option.isSome_map, AList.lookup_isSome]
        exact hvlans vlan hvlan
      obtain ⟨vlanBw₂, hloop, hlookup₂⟩ := ih hrest
      refine ⟨vlanBw₂, ?_, fun vlan => ?_⟩
      · rw [List.foldlM_cons, hnext]
        exact hloop
      · have hshares : shares topo vlan n = host.vlans.count vlan := by
          rw [shares, hhost, Option.map_some, Option.getD_some]
        rw [hlookup₂, hlookup₁, Option.map_map, List.map_cons, List.map_cons, List.sum_cons,
          List.sum_cons, hshares]
        congr 1
        funext total
        simp only [Function.comp_apply, HostBw.mk.injEq]
        constructor
        · ring
        · ring

/-- The loop over the hosts adds up every VLAN. -/
theorem sum_shares (hwf : topo.WellFormed) {names : List Str} (hperm : names.Perm topo.hosts.keys)
    (f : Str → Int) (vlan : Int) : (names.map fun n => shares topo vlan n * f n).sum =
      (topo.hosts.values.map fun h => h.vlans.count vlan * f h.name).sum := by
  rw [(hperm.map fun n => shares topo vlan n * f n).sum_eq]
  congr 1
  symm
  apply Dict.map_values_eq
  intro n host hhost
  have hname : host.name = n := hwf.hosts ⟨n, host⟩ (Dict.mem_entries_iff.mpr hhost)
  rw [shares, hhost, Option.map_some, Option.getD_some, hname]

/-! ## What is tracked -/

theorem exists_adds {p : BandwidthStatsProvider Str} (hp : Keeps p calls)
    (more : List (Call Str)) : ∃ p', adds more p = some p' ∧ Keeps p' (calls ++ more) := by
  induction more generalizing p calls with
  | nil => exact ⟨p, rfl, by rwa [List.append_nil]⟩
  | cons call more ih =>
      obtain ⟨p₁, hadd, hp₁, -⟩ := hp.add call
      obtain ⟨p₂, hadds, hp₂⟩ := ih hp₁
      refine ⟨p₂, ?_, by rwa [List.append_assoc] at hp₂⟩
      rw [adds, List.foldlM_cons, hadd]
      exact hadds

def tenantCall (e : Σ _ : Int, HostBw) : Call Str :=
  ⟨vlanName e.1, e.2.outBytes, e.2.inBytes⟩

theorem addTenants_eq (vlanBw : Dict Int HostBw) (p : BandwidthStatsProvider Str) :
    addTenants vlanBw p = adds (vlanBw.entries.map tenantCall) p := by
  rw [adds, List.foldlM_map]
  rfl

theorem reports_tenantCalls (h : vlanBw.lookup vlan = some bw) :
    reports (vlanName vlan) (vlanBw.entries.map tenantCall) = [⟨bw.inBytes, bw.outBytes⟩] := by
  have hkey : (fun e : Σ _ : Int, HostBw => decide ((tenantCall e).host = vlanName vlan)) =
      fun e => decide (e.1 = vlan) := by
    funext e
    rw [decide_eq_decide]
    exact ⟨vlanName_inj, congrArg vlanName⟩
  have hfilter := Dict.filter_entries h
  rw [reports, List.filter_map, Function.comp_def, hkey, hfilter]
  rfl

theorem reports_append (calls more : List (Call Str)) :
    reports host (calls ++ more) = reports host calls ++ reports host more := by
  rw [reports, List.filter_append, List.map_append]
  rfl

theorem latest_concat (call : Call Str) : latest (calls ++ [call]) host =
    if call.host = host then ⟨call.rxbytes, call.txbytes⟩ else latest calls host := by
  unfold latest
  rw [reports_concat]
  by_cases h : call.host = host
  · rw [if_pos h, if_pos h, List.getLast?_concat]
    rfl
  · rw [if_neg h, if_neg h]

theorem lookup_foldl_zero {κ : Type} [DecidableEq κ] {keys : List κ} {d : Dict κ HostBw} {k : κ}
    (hnodup : keys.Nodup) (hk : k ∈ keys) :
    (keys.foldl (fun d k => Dict.set k ⟨0, 0⟩ d) d).lookup k = some ⟨0, 0⟩ := by
  have hmap : (keys.map fun k => k).Nodup := by rwa [List.map_id']
  exact Dict.lookup_foldl_set hmap hk

theorem tenantTotal_zero (vlan : Int) : tenantTotal topo (latest []) vlan = ⟨0, 0⟩ := by
  simp [tenantTotal, latest, reports]

theorem tracks_init (topo : Topology) : Tracks topo [] [] (init topo) where
  hosts := by
    have hnodup : (topo.hosts.keys.map fun host => host).Nodup := by
      rw [List.map_id']
      exact topo.hosts.keys_nodup
    have hkeys := Dict.keys_foldl_set_perm (f := fun _ => (⟨0, 0⟩ : HostBw)) hnodup
    rwa [List.map_id'] at hkeys
  hostBw _ hhost := lookup_foldl_zero topo.hosts.keys_nodup hhost
  bwStats := keeps_new
  vlans vlan := by
    have hempty : vlan ∉ (∅ : Dict Int HostBw) := AList.notMem_empty vlan
    rw [init, Dict.mem_foldl_set, List.map_id', ← AList.mem_keys]
    simp only [hempty, or_false]
  vlanBw vlan hvlan := by
    rw [List.getLast?_nil, Option.getD_none, tenantTotal_zero]
    exact lookup_foldl_zero topo.vlans.keys_nodup hvlan
  tenants := ⟨[], keeps_new, fun _ _ => rfl⟩
  moments := ⟨.nil, by simp⟩

theorem Tracks.addDroppedPktStat (h : Tracks topo calls moments s) (sw : Option Str) (n : Nat) :
    Tracks topo calls moments (s.addDroppedPktStat sw n) :=
  ⟨h.hosts, h.hostBw, h.bwStats, h.vlans, h.vlanBw, h.tenants, h.moments⟩

theorem Tracks.addHostBwStat (h : Tracks topo calls moments s) (stat : PortStats)
    (hhost : host ∈ topo.hosts) : ∃ s', s.addHostBwStat host stat.txBytes stat.rxBytes = some s' ∧
      Tracks topo (calls ++ [stat.call host]) moments s' ∧ s'.vlanBw = s.vlanBw ∧
        s'.tenantStats = s.tenantStats := by
  obtain ⟨bwStats, hadd, hkeeps, -⟩ := h.bwStats.add (stat.call host)
  have hmem : host ∈ s.hostBw := h.hosts.mem_iff.mpr hhost
  refine ⟨{ s with
    hostBw := Dict.set host ⟨stat.txBytes, stat.rxBytes⟩ s.hostBw
    bwStats }, ?_, ⟨?hosts, fun n hn => ?hostBw, hkeeps, h.vlans, h.vlanBw, h.tenants, ?moments⟩,
    rfl, rfl⟩
  · rw [BandwidthStats.addHostBwStat, h.hostBw host hhost]
    change (s.bwStats.add host stat.rxBytes stat.txBytes).bind _ = _
    rw [show s.bwStats.add host stat.rxBytes stat.txBytes = some bwStats from hadd]
    rfl
  case hosts =>
    change (Dict.set host _ s.hostBw).keys.Perm _
    rw [Dict.keys_set_of_mem hmem]
    exact h.hosts
  case hostBw =>
    change (Dict.set host _ s.hostBw).lookup n = _
    rw [Dict.lookup_set, latest_concat, show (stat.call host).host = host from rfl]
    by_cases heq : n = host
    · subst heq
      rw [if_pos rfl, if_pos rfl]
      rfl
    · rw [if_neg heq, if_neg fun h' : host = n => heq h'.symm]
      exact h.hostBw n hn
  case moments =>
    exact ⟨h.moments.1, fun earlier he => (h.moments.2 earlier he).trans (List.prefix_append _ _)⟩

theorem Tracks.updateTenantStats (h : Tracks topo calls moments s) (hwf : topo.WellFormed)
    (htagged : topo.Tagged) : ∃ s', s.updateTenantStats topo = some s' ∧
      Tracks topo calls (moments ++ [calls]) s' := by
  have hzero : ∀ vlan, vlan ∈ s.vlanBw.keys.foldl (fun d vlan => Dict.set vlan ⟨0, 0⟩ d) s.vlanBw ↔
      vlan ∈ topo.vlans := by
    intro vlan
    rw [Dict.mem_foldl_set, List.map_id', ← AList.mem_keys, or_self, h.vlans]
  have hcredited : ∀ n ∈ s.hostBw.keys, s.hostBw.lookup n = some (latest calls n) ∧
      ∃ host, topo.hosts.lookup n = some host ∧ ∀ vlan ∈ host.vlans,
        vlan ∈ s.vlanBw.keys.foldl (fun d vlan => Dict.set vlan ⟨0, 0⟩ d) s.vlanBw := by
    intro n hn
    have hhost := h.hosts.mem_iff.mp hn
    obtain ⟨host, hlookup⟩ := Option.isSome_iff_exists.mp (AList.lookup_isSome.mpr hhost)
    exact ⟨h.hostBw n hhost, host, hlookup, fun vlan hvlan => (hzero vlan).mpr
      (htagged host (Dict.mem_values_iff.mpr ⟨n, hlookup⟩) vlan hvlan)⟩
  obtain ⟨vlanBw, hloop, hlookup⟩ := exists_creditHosts hcredited
  have htotal : ∀ vlan ∈ topo.vlans,
      vlanBw.lookup vlan = some (tenantTotal topo (latest calls) vlan) := by
    intro vlan hvlan
    rw [hlookup, lookup_foldl_zero s.vlanBw.keys_nodup ((h.vlans vlan).mpr hvlan), Option.map_some,
      sum_shares hwf h.hosts fun n => (latest calls n).inBytes,
      sum_shares hwf h.hosts fun n => (latest calls n).outBytes, zero_add, zero_add]
    rfl
  obtain ⟨updates, hkeeps, hreports⟩ := h.tenants
  obtain ⟨tenantStats, hadds, hkeeps'⟩ := exists_adds hkeeps (vlanBw.entries.map tenantCall)
  have hupdate : s.updateTenantStats topo = some { s with vlanBw, tenantStats }.writeDropped := by
    rw [BandwidthStats.updateTenantStats]
    simp only [Option.bind_eq_bind, hloop, Option.bind_some, addTenants_eq, hadds]
    rfl
  refine ⟨_, hupdate, ?_⟩
  have htracks : Tracks topo calls (moments ++ [calls]) { s with vlanBw, tenantStats } := by
    refine ⟨h.hosts, h.hostBw, h.bwStats, fun vlan => ?_, fun vlan hvlan => ?_,
      ⟨_, hkeeps', fun vlan hvlan => ?_⟩, ?_, fun earlier he => ?_⟩
    · rw [← hzero vlan, ← AList.lookup_isSome, ← AList.lookup_isSome, hlookup, Option.isSome_map]
    · rw [List.getLast?_concat, Option.getD_some]
      exact htotal vlan hvlan
    · rw [reports_append, hreports vlan hvlan, reports_tenantCalls (htotal vlan hvlan),
        List.map_append]
      rfl
    · refine List.pairwise_append.mpr ⟨h.moments.1, List.pairwise_singleton _ _, ?_⟩
      intro earlier he last hlast
      rw [List.mem_singleton.mp hlast]
      exact h.moments.2 earlier he
    · rcases List.mem_append.mp he with he | he
      · exact h.moments.2 earlier he
      · rw [List.mem_singleton.mp he]
  unfold writeDropped
  split
  case isTrue =>
    exact ⟨htracks.hosts, htracks.hostBw, htracks.bwStats, htracks.vlans, htracks.vlanBw,
      htracks.tenants, htracks.moments⟩
  case isFalse =>
    exact ⟨htracks.hosts, htracks.hostBw, htracks.bwStats, htracks.vlans, htracks.vlanBw,
      htracks.tenants, htracks.moments⟩

end BandwidthStats

/-! ## The monitor -/

namespace BandwidthMonitor

open BandwidthStats

variable {topo : Topology} {m m' : BandwidthMonitor} {before : List (Call Str)}
  {moments : List (List (Call Str))} {dpid : Int} {body : List PortStats} {name : Option Str}
  {portNo : Nat} {device : Str}

theorem mem_of_deviceAt (h : deviceAt topo name portNo = some device) : device ∈ topo.hosts := by
  unfold deviceAt at h
  cases name with
  | none => cases h
  | some name =>
      change (if name ∈ topo.edgeSwitches then _ else _) = _ at h
      split at h
      case isFalse => cases h
      case isTrue =>
        obtain ⟨d, -, hd⟩ := Option.bind_eq_some_iff.mp h
        split at hd
        case isFalse => cases hd
        case isTrue hmem =>
          obtain rfl := Option.some.inj hd
          exact hmem

theorem exists_addHosts {s : BandwidthStats} (h : Tracks topo before moments s)
    (dpid : Int) (body : List PortStats) :
    ∃ s', addHosts topo (topo.dpidToName dpid) body s = some s' ∧
      Tracks topo (before ++ body.filterMap (callOf topo dpid)) moments s' ∧
        s'.vlanBw = s.vlanBw ∧ s'.tenantStats = s.tenantStats := by
  induction body generalizing s before with
  | nil => exact ⟨s, rfl, by simpa using h, rfl, rfl⟩
  | cons stat body ih =>
      unfold addHosts at ih ⊢
      rw [List.foldlM_cons]
      cases hdevice : deviceAt topo (topo.dpidToName dpid) stat.portNo with
      | none =>
          have hcall : callOf topo dpid stat = none := by rw [callOf, hdevice, Option.map_none]
          rw [List.filterMap_cons_none hcall]
          exact ih h
      | some device =>
          have hcall : callOf topo dpid stat = some (stat.call device) := by
            rw [callOf, hdevice, Option.map_some]
          obtain ⟨s₁, hadd, htracks, hvlanBw, htenants⟩ :=
            h.addHostBwStat stat (mem_of_deviceAt hdevice)
          obtain ⟨s₂, hloop, htracks', hvlanBw', htenants'⟩ := ih htracks
          refine ⟨s₂, ?_, ?_, hvlanBw'.trans hvlanBw, htenants'.trans htenants⟩
          · simp only [hadd]
            exact hloop
          · rw [List.filterMap_cons_some hcall]
            rwa [List.append_assoc] at htracks'

/-- A reply is entered; as many replies as switches are registered add up the VLANs. -/
theorem exists_statsReply (h : Tracks topo before moments m.bwstats) (hwf : topo.WellFormed)
    (htagged : topo.Tagged) (dpid : Int) (body : List PortStats) :
    ∃ m', m.statsReplyHandler topo dpid body = some m' ∧ m'.datapaths = m.datapaths ∧
      m'.statsReplied = m.statsReplied + 1 ∧
      if m.statsReplied + 1 = m.datapaths.keys.length then
        Tracks topo (before ++ Event.calls topo (.reply dpid body))
          (moments ++ [before ++ Event.calls topo (.reply dpid body)]) m'.bwstats
      else
        Tracks topo (before ++ Event.calls topo (.reply dpid body)) moments m'.bwstats ∧
          m'.bwstats.vlanBw = m.bwstats.vlanBw ∧
            m'.bwstats.tenantStats = m.bwstats.tenantStats := by
  have hdropped := h.addDroppedPktStat (topo.dpidToName dpid)
    (body.map fun stat => stat.txDropped + stat.rxDropped).sum
  obtain ⟨s₁, hloop, htracks, hvlanBw, htenants⟩ := exists_addHosts hdropped dpid body
  unfold statsReplyHandler
  simp only [Option.bind_eq_bind, hloop, Option.bind_some]
  by_cases hlast : m.statsReplied + 1 = m.datapaths.keys.length
  · obtain ⟨s₂, hupdate, htracks'⟩ := htracks.updateTenantStats hwf htagged
    rw [if_pos hlast, hupdate]
    refine ⟨_, rfl, rfl, rfl, ?_⟩
    rw [if_pos hlast]
    exact htracks'
  · rw [if_neg hlast]
    refine ⟨_, rfl, rfl, rfl, ?_⟩
    rw [if_neg hlast]
    exact ⟨htracks, hvlanBw, htenants⟩

/-- Nothing that the monitor is called for makes it raise. -/
theorem exists_handle (h : Tracks topo before moments m.bwstats) (hwf : topo.WellFormed)
    (htagged : topo.Tagged) (event : Event) :
    ∃ m' moments', handle topo m event = some m' ∧
      Tracks topo (before ++ event.calls topo) moments' m'.bwstats := by
  have hnone : before ++ [] = before := List.append_nil before
  cases event with
  | poll => exact ⟨_, moments, rfl, by rwa [Event.calls, hnone]⟩
  | main dpid conn =>
      refine ⟨_, moments, rfl, ?_⟩
      rw [Event.calls, hnone, register]
      split
      case isTrue => exact h
      case isFalse => exact h
  | dead dpid =>
      refine ⟨_, moments, rfl, ?_⟩
      rw [Event.calls, hnone, unregister]
      split
      case isTrue => exact h
      case isFalse => exact h
  | reply dpid body =>
      obtain ⟨m', hreply, -, -, htracks⟩ := exists_statsReply h hwf htagged dpid body
      split at htracks
      case isTrue => exact ⟨m', _, hreply, htracks⟩
      case isFalse => exact ⟨m', _, hreply, htracks.1⟩

theorem tracks_run (hwf : topo.WellFormed) (htagged : topo.Tagged) (events : List Event) :
    ∃ m moments, events.foldlM (handle topo) (init topo) = some m ∧
      Tracks topo (calls topo events) moments m.bwstats := by
  induction events using List.reverseRecOn with
  | nil => exact ⟨init topo, [], rfl, tracks_init topo⟩
  | append_singleton events event ih =>
      obtain ⟨m, moments, hrun, htracks⟩ := ih
      obtain ⟨m', moments', hhandle, htracks'⟩ := exists_handle htracks hwf htagged event
      refine ⟨m', moments', ?_, ?_⟩
      · rw [List.foldlM_append, hrun]
        simpa using hhandle
      · rw [calls, List.flatMap_append, List.flatMap_singleton]
        exact htracks'

/-- Whatever the monitor is called for, in any order, its record of every host is what the edge
switch of the host reported last, and so are the plots; what it says of the VLANs is what the hosts
had received and sent at one moment, the last at which they were added up, and the plots of the
VLANs are made of these moments in their order. -/
theorem history (hwf : topo.WellFormed) (htagged : topo.Tagged) (events : List Event) :
    ∃ m moments, events.foldlM (handle topo) (init topo) = some m ∧
      Tracks topo (calls topo events) moments m.bwstats :=
  tracks_run hwf htagged events

/-! ## One round -/

section

variable {edge : EdgeSwitch} {h : Host} {replies : List (Int × List PortStats)}

theorem dpidToName_iff (hwf : topo.WellFormed) (he : edge ∈ topo.edgeSwitches.values) :
    topo.dpidToName dpid = some edge.name ↔ dpid = edge.dpid := by
  constructor
  · intro hname
    obtain ⟨l₁, l₂, hsplit, -⟩ := List.lookup_eq_some_iff.mp hname
    have hmem : (dpid, edge.name) ∈
        topo.edgeSwitches.values.map (fun sw => (sw.dpid, sw.name)) ++
          topo.coreSwitches.values.map fun sw => (sw.dpid, sw.name) := by simp [hsplit]
    rcases List.mem_append.mp hmem with hmem | hmem
    · obtain ⟨e, he', heq⟩ := List.mem_map.mp hmem
      obtain ⟨rfl, hsame⟩ := Prod.mk.inj heq
      have hlookup := hwf.lookup_edge he'
      rw [hsame, hwf.lookup_edge he] at hlookup
      rw [Option.some.inj hlookup]
    · obtain ⟨c, hc, heq⟩ := List.mem_map.mp hmem
      have hcore := hwf.name_mem_cores hc
      rw [(Prod.mk.inj heq).2] at hcore
      exact absurd (hwf.name_mem_edges he) (hwf.switches _ hcore)
  · rintro rfl
    have hnodup : (topo.edgeSwitches.values.map EdgeSwitch.dpid).Nodup :=
      (List.nodup_append.mp hwf.dpids).2.1
    obtain ⟨l₁, l₂, hsplit⟩ := List.append_of_mem he
    rw [hsplit, List.map_append, List.map_cons] at hnodup
    have hfirst : ∀ e ∈ l₁, edge.dpid ≠ e.dpid := by
      intro e he' heq
      have hdisjoint := (List.nodup_append.mp hnodup).2.2
      exact hdisjoint _ (List.mem_map_of_mem he') _ List.mem_cons_self heq.symm
    rw [Topology.dpidToName, List.lookup_eq_some_iff, hsplit]
    refine ⟨l₁.map fun sw => (sw.dpid, sw.name), _, by
      rw [List.map_append, List.map_cons, List.append_assoc, List.cons_append], ?_⟩
    intro p hp
    obtain ⟨e, he', rfl⟩ := List.mem_map.mp hp
    simpa using hfirst e he'

theorem nodeAt_iff {sw n : Str} {nodes : List Str} (hw : topo.Wired sw nodes) :
    topo.nodeAt sw portNo = some n ↔ n ∈ nodes ∧ portNo = topo.portOf sw n := by
  constructor
  · intro hnode
    rw [Topology.nodeAt, hw.ports, Option.bind_some, Ports.node_ofNodes_iff] at hnode
    obtain ⟨j, hj, rfl⟩ := hnode
    have hport := Ports.port_ofNodes hw.nodup hj
    rw [Topology.portOf, Topology.port, hw.ports, Option.bind_some, hport, Option.getD_some]
    exact ⟨List.mem_of_getElem? hj, rfl⟩
  · rintro ⟨hn, rfl⟩
    exact hw.nodeAt hn

theorem deviceAt_iff (dpid : Int) (portNo : Nat) (hwf : topo.WellFormed) (he : edge ∈ topo.edgeSwitches.values)
    (hh : h ∈ topo.hosts.values) (hswitch : h.switch = edge.name) :
    deviceAt topo (topo.dpidToName dpid) portNo = some h.name ↔
      dpid = edge.dpid ∧ portNo = topo.portOf edge.name h.name := by
  have hneighbor : h.name ∈ edge.neighbors := ((hwf.attached h hh).2 edge he).mpr hswitch.symm
  have hhost : h.name ∈ topo.hosts := Dict.mem_of_lookup (hwf.lookup_host hh)
  unfold deviceAt
  constructor
  · intro hdevice
    obtain ⟨name, hname, hdevice⟩ := Option.bind_eq_some_iff.mp hdevice
    obtain ⟨hedge, hdevice⟩ := Option.ite_none_right_eq_some.mp hdevice
    obtain ⟨device, hnode, hdevice⟩ := Option.bind_eq_some_iff.mp hdevice
    obtain ⟨-, hdevice⟩ := Option.ite_none_right_eq_some.mp hdevice
    obtain rfl := Option.some.inj hdevice
    obtain ⟨edge', he', rfl⟩ := hwf.exists_edge_of_name hedge
    obtain ⟨hmem, hport⟩ := (nodeAt_iff (hwf.edge_wired he')).mp hnode
    rw [List.mem_append, mem_sorted, mem_sorted] at hmem
    have hneighbor' : h.name ∈ edge'.neighbors :=
      hmem.resolve_left ((hwf.neighbors edge he).2 _ hneighbor).1
    have hsame : edge'.name = edge.name :=
      (((hwf.attached h hh).2 edge' he').mp hneighbor').trans hswitch
    rw [hsame] at hname hport
    exact ⟨(dpidToName_iff hwf he).mp hname, hport⟩
  · rintro ⟨hdpid, rfl⟩
    have hname : topo.dpidToName dpid = some edge.name := (dpidToName_iff hwf he).mpr hdpid
    have hedge : edge.name ∈ topo.edgeSwitches := hwf.name_mem_edges he
    have hnode := (hwf.edge_wired he).nodeAt
      (List.mem_append_right _ (mem_sorted.mpr hneighbor) :
        h.name ∈ sorted topo.coreSwitches.keys ++ sorted edge.neighbors)
    simp only [hname, Option.bind_eq_bind, Option.bind_some, if_pos hedge, hnode, if_pos hhost]

theorem reports_reply (hwf : topo.WellFormed) (he : edge ∈ topo.edgeSwitches.values)
    (hh : h ∈ topo.hosts.values) (hswitch : h.switch = edge.name) :
    reports h.name (Event.calls topo (.reply dpid body)) =
      if dpid = edge.dpid then
        (body.filter fun stat => stat.portNo = topo.portOf edge.name h.name).map fun stat =>
          (stat.call h.name).total
      else [] := by
  rw [Event.calls, reports]
  induction body with
  | nil => simp
  | cons stat body ih =>
      have hiff := deviceAt_iff dpid stat.portNo hwf he hh hswitch
      by_cases hdevice : deviceAt topo (topo.dpidToName dpid) stat.portNo = some h.name
      · obtain ⟨rfl, hport⟩ := hiff.mp hdevice
        have hcall : callOf topo edge.dpid stat = some (stat.call h.name) := by
          rw [callOf, hdevice, Option.map_some]
        have hhead : decide ((stat.call h.name).host = h.name) = true := decide_eq_true rfl
        rw [if_pos rfl] at ih ⊢
        rw [List.filterMap_cons_some hcall, List.filter_cons, if_pos hhead,
          List.filter_cons, if_pos (decide_eq_true hport), List.map_cons, List.map_cons, ih]
      · have hskip : ∀ call ∈ callOf topo dpid stat, call.host ≠ h.name := by
          intro call hcall heq
          obtain ⟨device, hd, rfl⟩ := Option.map_eq_some_iff.mp hcall
          exact hdevice (heq ▸ hd)
        have hrest : (List.filterMap (callOf topo dpid) (stat :: body)).filter
            (fun call => call.host = h.name) =
              (List.filterMap (callOf topo dpid) body).filter fun call => call.host = h.name := by
          cases hcall : callOf topo dpid stat with
          | none => rw [List.filterMap_cons_none hcall]
          | some call =>
              rw [List.filterMap_cons_some hcall, List.filter_cons_of_neg]
              simpa using hskip call hcall
        rw [hrest, ih]
        by_cases hdpid : dpid = edge.dpid
        · have hport : ¬ stat.portNo = topo.portOf edge.name h.name :=
            fun hport => hdevice (hiff.mpr ⟨hdpid, hport⟩)
          rw [if_pos hdpid, if_pos hdpid, List.filter_cons_of_neg (by simpa using hport)]
        · rw [if_neg hdpid, if_neg hdpid]

/-- The replies of a round, one for each switch. -/
def round (replies : List (Int × List PortStats)) : List Event :=
  replies.map fun r => .reply r.1 r.2

/-- What a round says of a host is what its edge switch says. -/
theorem reports_round (hwf : topo.WellFormed) (he : edge ∈ topo.edgeSwitches.values)
    (hh : h ∈ topo.hosts.values) (hswitch : h.switch = edge.name)
    (hnodup : (replies.map Prod.fst).Nodup) (hmem : (edge.dpid, body) ∈ replies) :
    reports h.name (calls topo (round replies)) =
      (body.filter fun stat => stat.portNo = topo.portOf edge.name h.name).map fun stat =>
        (stat.call h.name).total := by
  have hflat : reports h.name (calls topo (round replies)) = replies.flatMap fun r =>
      reports h.name (Event.calls topo (.reply r.1 r.2)) := by
    simp only [reports, calls, round, List.flatMap_map, List.filter_flatMap, List.map_flatMap]
  rw [hflat]
  simp only [reports_reply hwf he hh hswitch]
  exact flatMap_of_key (f := fun body =>
    (body.filter fun stat => stat.portNo = topo.portOf edge.name h.name).map fun stat =>
      (stat.call h.name).total) hnodup hmem

/-- Before as many replies have come in as switches are registered nothing is added up. -/
theorem exists_replies (h : Tracks topo before moments m.bwstats) (hwf : topo.WellFormed)
    (htagged : topo.Tagged) (hshort : m.statsReplied + replies.length < m.datapaths.keys.length) :
    ∃ m', (round replies).foldlM (handle topo) m = some m' ∧ m'.datapaths = m.datapaths ∧
      m'.statsReplied = m.statsReplied + replies.length ∧
      Tracks topo (before ++ calls topo (round replies)) moments m'.bwstats ∧
      m'.bwstats.vlanBw = m.bwstats.vlanBw ∧ m'.bwstats.tenantStats = m.bwstats.tenantStats := by
  induction replies using List.reverseRecOn with
  | nil => exact ⟨m, rfl, rfl, rfl, by simpa [calls, round] using h, rfl, rfl⟩
  | append_singleton replies r ih =>
      rw [List.length_append, List.length_singleton] at hshort
      obtain ⟨m₁, hrun, hdatapaths, hreplied, htracks, hvlanBw, htenants⟩ := ih (by omega)
      obtain ⟨m₂, hreply, hdatapaths', hreplied', htracks'⟩ :=
        exists_statsReply htracks hwf htagged r.1 r.2
      rw [if_neg (by rw [hdatapaths, hreplied]; omega)] at htracks'
      obtain ⟨htracks', hvlanBw', htenants'⟩ := htracks'
      refine ⟨m₂, ?_, hdatapaths'.trans hdatapaths, ?_, ?_, hvlanBw'.trans hvlanBw,
        htenants'.trans htenants⟩
      · rw [round, List.map_append, List.foldlM_append]
        change ((round replies).foldlM (handle topo) m).bind _ = _
        rw [hrun]
        simpa [handle] using hreply
      · rw [hreplied', hreplied, List.length_append, List.length_singleton]
        omega
      · rw [List.append_assoc] at htracks'
        simpa [round, calls] using htracks'

end

theorem latest_append {calls more : List (Call Str)} {host : Str} {total : Bandwidth}
    (h : reports host more = [total]) :
    latest (calls ++ more) host = ⟨total.inBytes, total.outBytes⟩ := by
  rw [latest, reports_append, h, List.getLast?_concat]

/-- A round in which every registered switch replies once, in any order, and every edge switch with
one entry for each of its hosts: the last reply, and no other, adds up the VLANs, and everything it
finds is of this round. -/
theorem round_totals (hwf : topo.WellFormed) (htagged : topo.Tagged)
    {events : List Event} (hrun : events.foldlM (handle topo) (init topo) = some m)
    (replies : List (Int × List PortStats)) (counters : Str → PortStats)
    (hperm : (replies.map Prod.fst).Perm m.datapaths.keys) (hne : replies ≠ [])
    (hedges : ∀ edge ∈ topo.edgeSwitches.values, ∃ body, (edge.dpid, body) ∈ replies ∧
      ∀ n ∈ edge.neighbors,
        (body.filter fun stat => stat.portNo = topo.portOf edge.name n) = [counters n]) :
    (∀ k < replies.length, ∃ m', (.poll :: round (replies.take k)).foldlM (handle topo) m = some m' ∧
      m'.bwstats.vlanBw = m.bwstats.vlanBw ∧ m'.bwstats.tenantStats = m.bwstats.tenantStats) ∧
    ∃ m', (.poll :: round replies).foldlM (handle topo) m = some m' ∧
      (∀ h ∈ topo.hosts.values, m'.bwstats.hostBw.lookup h.name =
        some ⟨(counters h.name).txBytes, (counters h.name).rxBytes⟩) ∧
      ∀ vlan ∈ topo.vlans, m'.bwstats.vlanBw.lookup vlan =
        some (tenantTotal topo (fun n => ⟨(counters n).txBytes, (counters n).rxBytes⟩) vlan) := by
  obtain ⟨m₀, moments, hrun', htracks⟩ := tracks_run hwf htagged events
  obtain rfl := Option.some.inj (hrun.symm.trans hrun')
  have hcount : replies.length = m.datapaths.keys.length := by
    rw [← hperm.length_eq, List.length_map]
  have hpolled : Tracks topo (calls topo events) moments m.poll.1.bwstats := htracks
  constructor
  · intro k hk
    have hshort : m.poll.1.statsReplied + (replies.take k).length <
        m.poll.1.datapaths.keys.length := by
      change 0 + (replies.take k).length < m.datapaths.keys.length
      rw [List.length_take]
      omega
    obtain ⟨m', hloop, -, -, -, hvlanBw, htenants⟩ := exists_replies hpolled hwf htagged hshort
    exact ⟨m', hloop, hvlanBw, htenants⟩
  · obtain ⟨first, r, rfl⟩ : ∃ first r, replies = first ++ [r] :=
      ⟨_, _, (List.dropLast_append_getLast hne).symm⟩
    rw [List.length_append, List.length_singleton] at hcount
    have hshort : m.poll.1.statsReplied + first.length < m.poll.1.datapaths.keys.length := by
      change 0 + first.length < m.datapaths.keys.length
      omega
    obtain ⟨m₁, hloop, hdatapaths, hreplied, htracks₁, -, -⟩ :=
      exists_replies hpolled hwf htagged hshort
    obtain ⟨m₂, hreply, -, -, htracks₂⟩ := exists_statsReply htracks₁ hwf htagged r.1 r.2
    have hlast : m₁.statsReplied + 1 = m₁.datapaths.keys.length := by
      rw [hdatapaths, hreplied]
      change 0 + first.length + 1 = m.datapaths.keys.length
      omega
    rw [if_pos hlast] at htracks₂
    have hround : (round (first ++ [r])).foldlM (handle topo) m.poll.1 = some m₂ := by
      rw [round, List.map_append, List.foldlM_append]
      change ((round first).foldlM (handle topo) m.poll.1).bind _ = _
      rw [hloop]
      simpa [handle] using hreply
    have hcalls : calls topo events ++ calls topo (round first) ++
        Event.calls topo (.reply r.1 r.2) = calls topo events ++ calls topo (round (first ++ [r])) := by
      simp [round, calls]
    rw [hcalls] at htracks₂
    have hnodup : ((first ++ [r]).map Prod.fst).Nodup :=
      hperm.nodup_iff.mpr m.datapaths.keys_nodup
    have hlatest : ∀ h ∈ topo.hosts.values,
        latest (calls topo events ++ calls topo (round (first ++ [r]))) h.name =
          ⟨(counters h.name).txBytes, (counters h.name).rxBytes⟩ := by
      intro h hh
      obtain ⟨edge, he, hswitch, hneighbor⟩ := hwf.exists_edge hh
      obtain ⟨body, hmem, hbody⟩ := hedges edge he
      have hreports := reports_round hwf he hh hswitch.symm hnodup hmem
      rw [hbody h.name hneighbor] at hreports
      exact latest_append hreports
    refine ⟨m₂, hround, fun h hh => ?_, fun vlan hvlan => ?_⟩
    · rw [htracks₂.hostBw h.name (Dict.mem_of_lookup (hwf.lookup_host hh)), hlatest h hh]
    · rw [htracks₂.vlanBw vlan hvlan, List.getLast?_concat, Option.getD_some]
      unfold tenantTotal
      congr 2
      · congr 1
        apply List.map_congr_left
        intro h hh
        rw [hlatest h hh]
      · congr 1
        apply List.map_congr_left
        intro h hh
        rw [hlatest h hh]

/-! ## A round at the small data center -/

def sampleTagged : Topology :=
  { sampleTopology with
    vlans := Dict.set 1 [['h', '3'], ['h', '6'], ['h', '4'], ['h', '5']]
      (Dict.set 0 [['h', '1'], ['h', '2']] ∅) }

theorem sampleTagged_wellFormed : sampleTagged.WellFormed :=
  have h := sampleTopology_wellFormed
  ⟨h.hosts, h.edges, h.cores, h.ports, h.core, h.switches, h.dpids, h.eths, h.neighbors, h.attached⟩

theorem sampleTagged_tagged : sampleTagged.Tagged := by
  unfold Topology.Tagged
  decide

theorem history_sample : ∃ m moments,
    [Event.main 101 0, .poll, .reply 101 [⟨3, 7, 5, 0, 0⟩]].foldlM (handle sampleTagged)
      (init sampleTagged) = some m ∧
    Tracks sampleTagged [⟨['h', '3'], 5, 7⟩] moments m.bwstats :=
  history sampleTagged_wellFormed sampleTagged_tagged _

/-- The entries for the two hosts of an edge switch, which are at its ports three and four. -/
def sampleBody : List PortStats :=
  [⟨3, 7, 5, 0, 0⟩, ⟨4, 7, 5, 0, 0⟩, ⟨1, 9, 9, 0, 0⟩]

def sampleCounters (n : Str) : PortStats :=
  if n = ['h', '3'] ∨ n = ['h', '1'] ∨ n = ['h', '2'] then ⟨3, 7, 5, 0, 0⟩ else ⟨4, 7, 5, 0, 0⟩

theorem round_totals_sample : ∃ m m', [Event.main 101 0, .main 102 1, .main 103 2].foldlM
      (handle sampleTagged) (init sampleTagged) = some m ∧
    (.poll :: round [(102, sampleBody), (101, sampleBody), (103, sampleBody)]).foldlM
      (handle sampleTagged) m = some m' ∧
    m'.bwstats.vlanBw.lookup 0 = some ⟨14, 10⟩ := by
  have hrun : [Event.main 101 0, .main 102 1, .main 103 2].foldlM (handle sampleTagged)
      (init sampleTagged) = some (((init sampleTagged).register 101 0).register 102 1 |>.register
        103 2) := rfl
  have hbodies : ∀ edge ∈ sampleTagged.edgeSwitches.values,
      (edge.dpid, sampleBody) ∈ [(102, sampleBody), (101, sampleBody), (103, sampleBody)] ∧
        ∀ n ∈ edge.neighbors, (sampleBody.filter fun stat =>
          stat.portNo = sampleTagged.portOf edge.name n) = [sampleCounters n] := by decide
  obtain ⟨-, m', hround, -, hvlans⟩ := round_totals sampleTagged_wellFormed sampleTagged_tagged
    hrun [(102, sampleBody), (101, sampleBody), (103, sampleBody)] sampleCounters (by decide)
    (by decide) fun edge he => ⟨sampleBody, hbodies edge he⟩
  refine ⟨_, m', hrun, hround, ?_⟩
  have htotal := hvlans 0 (by decide)
  exact htotal.trans (by decide)

end BandwidthMonitor

end CloudComputing.Minidc
