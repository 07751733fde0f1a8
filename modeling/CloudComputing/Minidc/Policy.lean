import Mathlib.Data.Prod.Lex
import CloudComputing.Minidc.Flood

/-!
# The routing policies

`controller/policy.py`.  All three policies send a frame for a host down to its
edge switch and up to a core switch; they differ in the core switches they use
and in how they choose one for a host.  The adaptive policy chooses anew, by the
recorded bandwidth, each time its table is read.
-/

namespace CloudComputing.Minidc

open Lib RoutingTable

namespace Topology

variable (topo : Topology)

/-- `routingTable[dpid] = []`, and a rule for every host. -/
def hostRules (dpid : Int) (outport : Host → Option Nat) (table : RoutingTable) :
    Option RoutingTable :=
  appendAll dpid (fun h => (outport h).map fun p => ⟨.dst h.eth, [.port p], 2⟩) topo.hosts.values
    (Dict.set dpid [] table)

def downward (core : Str) (h : Host) : Option Nat :=
  topo.port core h.switch

def upward (core : Host → Option Str) (edge : EdgeSwitch) (h : Host) : Option Nat :=
  if h.name ∈ edge.neighbors then topo.port edge.name h.name
  else (core h).bind (topo.port edge.name)

def buildCore (table : RoutingTable) (core : CoreSwitch) : Option RoutingTable :=
  topo.hostRules core.dpid (topo.downward core.name) table

def buildEdge (core : Host → Option Str) (table : RoutingTable) (edge : EdgeSwitch) :
    Option RoutingTable :=
  topo.hostRules edge.dpid (topo.upward core edge) table

end Topology

/-! ## Default and static -/

namespace DefaultPolicy

/-- The rules for the hosts: only one core switch is used. -/
def route (topo : Topology) : Option RoutingTable := do
  let core ← topo.coreSwitches.keys.head?
  let coreDpid ← (topo.coreSwitches.lookup core).map CoreSwitch.dpid
  let table ← topo.hostRules coreDpid (topo.downward core) ∅
  topo.edgeSwitches.values.foldlM (topo.buildEdge fun _ => some core) table

def build (topo : Topology) : Option RoutingTable := do
  addArpflood (← route topo) topo

end DefaultPolicy

namespace StaticPolicy

/-- The core switch of the first VLAN of a host. -/
def core (topo : Topology) (host : Host) : Option Str := do
  topo.getVlanCore (← host.vlans.head?)

def route (topo : Topology) : Option RoutingTable := do
  let table ← topo.coreSwitches.values.foldlM topo.buildCore ∅
  topo.edgeSwitches.values.foldlM (topo.buildEdge (core topo)) table

def build (topo : Topology) : Option RoutingTable := do
  addArpflood (← route topo) topo

end StaticPolicy

/-! ## Adaptive -/

/-- What `minUtilization` compares: the interpreter orders all numbers before all texts. -/
abbrev Figure := Lex (ℤ ⊕ Str)

/-- An entry of `hostBw`. -/
structure HostBw where
  inBytes : Int
  outBytes : Int
deriving DecidableEq, Repr

structure AdaptivePolicy where
  assignments : Dict Str Str
  utilization : Dict Str Int

namespace AdaptivePolicy

/-- The body of the loop: the least figure so far and the switch it belongs to. -/
def lesser (best : Figure × Option Str) (switch : Σ _ : Str, Int) : Figure × Option Str :=
  if toLex (.inl switch.2) < best.1 then (toLex (.inl switch.2), some switch.1) else best

/-- The search starts from the name of the first switch, as a figure. -/
def minUtilization (utilization : Dict Str Int) : Option (Option Str) :=
  utilization.keys.head?.map fun least =>
    (utilization.entries.foldl lesser (toLex (.inr least), none)).2

/-- The body of the last loop of `redistribute`. -/
def assign (policy : AdaptivePolicy) (stat : Int × Str) : Option AdaptivePolicy := do
  let core ← ← minUtilization policy.utilization
  let used ← policy.utilization.lookup core
  return ⟨Dict.set stat.2 core policy.assignments,
    Dict.set core (used + stat.1) policy.utilization⟩

/-- Received bytes and hosts, largest first. -/
def stats (hostBw : Dict Str HostBw) : List (Int × Str) :=
  (hostBw.entries.map fun e => (e.2.inBytes, e.1)).insertionSort fun a b => toLex b ≤ toLex a

/-- `for core in self.topo.coreSwitches.keys(): self.utilization[core] = 0` -/
def reset (cores : List Str) (utilization : Dict Str Int) : Dict Str Int :=
  cores.foldl (fun utilization core => Dict.set core 0 utilization) utilization

def redistribute (topo : Topology) (hostBw : Dict Str HostBw) (policy : AdaptivePolicy) :
    Option AdaptivePolicy :=
  (stats hostBw).foldlM assign
    { policy with utilization := reset topo.coreSwitches.keys policy.utilization }

def route (topo : Topology) (policy : AdaptivePolicy) : Option RoutingTable := do
  let table ← topo.coreSwitches.values.foldlM topo.buildCore ∅
  topo.edgeSwitches.values.foldlM
    (topo.buildEdge fun h => policy.assignments.lookup h.name) table

def build (topo : Topology) (policy : AdaptivePolicy) : Option RoutingTable := do
  addArpflood (← policy.route topo) topo

/-- `__init__`: every host starts at the first core switch, and a table is built. -/
def init (topo : Topology) : Option AdaptivePolicy := do
  let default ← topo.coreSwitches.keys.head?
  let policy : AdaptivePolicy :=
    ⟨topo.hosts.keys.foldl (fun a host => Dict.set host default a) ∅, ∅⟩
  let _ ← policy.build topo
  return policy

/-- The property `routingTable`: what the policy becomes, and the table. -/
def routingTable (topo : Topology) (hostBw : Dict Str HostBw) (policy : AdaptivePolicy) :
    Option (AdaptivePolicy × RoutingTable) := do
  let policy ← policy.redistribute topo hostBw
  return (policy, ← policy.build topo)

/-- The policies of a controller, whatever bandwidth is recorded when its table is read.  A
dictionary may be gone through in any order. -/
inductive Reached (topo : Topology) : AdaptivePolicy → Prop
  | init {policy : AdaptivePolicy} : init topo = some policy → Reached topo policy
  | rebuild {policy policy' : AdaptivePolicy} {table : RoutingTable} (hostBw : Dict Str HostBw) :
      Reached topo policy → policy.routingTable topo hostBw = some (policy', table) →
      Reached topo policy'
  | reorder {policy policy' : AdaptivePolicy} : Reached topo policy →
      policy'.assignments.entries.Perm policy.assignments.entries →
      policy'.utilization.entries.Perm policy.utilization.entries → Reached topo policy'

end AdaptivePolicy

/-- A table that the adaptive policy can have handed to a switch. -/
def AdaptivePolicy.Built (topo : Topology) (table : RoutingTable) : Prop :=
  ∃ policy, Reached topo policy ∧ policy.build topo = some table

/-! ## What the tables hold before the flooding -/

namespace Topology

variable (topo : Topology)

def coreRows (core : Str) : List Flow :=
  topo.hosts.values.map fun h => ⟨.dst h.eth, [.port (topo.portOf core h.switch)], 2⟩

/-- Where `edge` sends a frame for `h`, if `core` is the core switch for it. -/
def nextHop (core : Host → Str) (edge : EdgeSwitch) (h : Host) : Str :=
  if h.name ∈ edge.neighbors then h.name else core h

def edgeRows (core : Host → Str) (edge : EdgeSwitch) : List Flow :=
  topo.hosts.values.map fun h =>
    ⟨.dst h.eth, [.port (topo.portOf edge.name (nextHop core edge h))], 2⟩

/-- The core switches with the names `tabled` have rules for all hosts, the others have none; the
edge switches send frames for other hosts to a core switch that has. -/
structure Routes (tabled : List Str) (core : Host → Str) (table : RoutingTable) : Prop where
  cores : ∀ c ∈ topo.coreSwitches.values,
    table.lookup c.dpid = if c.name ∈ tabled then some (topo.coreRows c.name) else none
  edges : ∀ e ∈ topo.edgeSwitches.values, table.lookup e.dpid = some (topo.edgeRows core e)

/-- A core switch with a table is chosen for each host. -/
def Assigns (tabled : List Str) (core : Host → Str) : Prop :=
  ∀ h ∈ topo.hosts.values, core h ∈ tabled

end Topology

section

variable {topo : Topology} {table : RoutingTable} {dpid : Int} {outport : Host → Option Nat}
  {port : Host → Nat} {core : Host → Option Str} {core' : Host → Str} {edge : EdgeSwitch}
  {c : CoreSwitch} {tabled : List Str}

namespace Topology

theorem exists_hostRules (hport : ∀ h ∈ topo.hosts.values, outport h = some (port h)) :
    ∃ table', topo.hostRules dpid outport table = some table' ∧
      Sets table table' dpid
        (some (topo.hosts.values.map fun h => ⟨.dst h.eth, [.port (port h)], 2⟩)) := by
  have hrule : ∀ h ∈ topo.hosts.values,
      ((outport h).map fun p => (⟨.dst h.eth, [.port p], 2⟩ : Flow)) =
        some ⟨.dst h.eth, [.port (port h)], 2⟩ := by
    intro h hh
    rw [hport h hh, Option.map_some]
  have hempty : (Dict.set dpid ([] : List Flow) table).lookup dpid = some [] :=
    Dict.lookup_set_self
  obtain ⟨table', hall, hsets⟩ := exists_appendAll hrule hempty
  exact ⟨table', hall, sets_set.trans hsets⟩

namespace WellFormed

theorem exists_buildCore (hwf : topo.WellFormed) (hc : c ∈ topo.coreSwitches.values)
    (table : RoutingTable) : ∃ table', topo.buildCore table c = some table' ∧
      Sets table table' c.dpid (some (topo.coreRows c.name)) := by
  apply exists_hostRules
  intro h hh
  obtain ⟨edge, hedge, hswitch, -⟩ := hwf.exists_edge hh
  rw [downward, (hwf.core_wired hc).port]
  rw [mem_sorted, ← hswitch]
  exact hwf.name_mem_edges hedge

theorem nextHop_mem (hcore : ∀ h ∈ topo.hosts.values, core' h ∈ topo.coreSwitches.keys) {h : Host}
    (hh : h ∈ topo.hosts.values) :
    nextHop core' edge h ∈ sorted topo.coreSwitches.keys ++ sorted edge.neighbors := by
  unfold nextHop
  split
  case isTrue hmem => simp [hmem]
  case isFalse => simp [hcore h hh]

theorem exists_buildEdge (hwf : topo.WellFormed) (he : edge ∈ topo.edgeSwitches.values)
    (hcore : ∀ h ∈ topo.hosts.values, core h = some (core' h) ∧ core' h ∈ topo.coreSwitches.keys)
    (table : RoutingTable) : ∃ table', topo.buildEdge core table edge = some table' ∧
      Sets table table' edge.dpid (some (topo.edgeRows core' edge)) := by
  apply exists_hostRules
  intro h hh
  have hport := (hwf.edge_wired he).port (nextHop_mem (fun h hh => (hcore h hh).2) hh)
  unfold nextHop at hport
  unfold upward nextHop
  split
  case isTrue hmem =>
    rw [if_pos hmem] at hport
    exact hport
  case isFalse hmem =>
    rw [if_neg hmem] at hport
    rw [(hcore h hh).1, Option.bind_some]
    exact hport

theorem exists_buildEdges (hwf : topo.WellFormed) (core : Host → Option Str)
    (hcore : ∀ h ∈ topo.hosts.values, core h = some (core' h) ∧ core' h ∈ topo.coreSwitches.keys)
    (table : RoutingTable) : ∃ table', topo.edgeSwitches.values.foldlM (topo.buildEdge core) table = some table' ∧
      (∀ e ∈ topo.edgeSwitches.values, table'.lookup e.dpid = some (topo.edgeRows core' e)) ∧
      ∀ c ∈ topo.coreSwitches.values, table'.lookup c.dpid = table.lookup c.dpid := by
  have hdpids := List.nodup_append.mp hwf.dpids
  obtain ⟨table', hloop, hrows, hrest⟩ := exists_foldlM table
    (fun e => some (topo.edgeRows core' e)) hdpids.2.1 fun e he t _ =>
      hwf.exists_buildEdge he hcore t
  refine ⟨table', hloop, hrows, fun c hc => hrest _ fun hmem => ?_⟩
  exact hdpids.2.2 _ (List.mem_map_of_mem hc) _ hmem rfl

theorem exists_route (hwf : topo.WellFormed)
    (hcore : ∀ h ∈ topo.hosts.values, core h = some (core' h) ∧ core' h ∈ topo.coreSwitches.keys) :
    ∃ table, (topo.coreSwitches.values.foldlM topo.buildCore ∅).bind
        (topo.edgeSwitches.values.foldlM (topo.buildEdge core)) = some table ∧
      topo.Routes topo.coreSwitches.keys core' table := by
  have hdpids := List.nodup_append.mp hwf.dpids
  obtain ⟨table₁, hloop, hrows, -⟩ := exists_foldlM ∅
    (fun c => some (topo.coreRows c.name)) hdpids.1 fun c hc t _ => hwf.exists_buildCore hc t
  obtain ⟨table₂, hloop', hrows', hkept⟩ := hwf.exists_buildEdges core hcore table₁
  refine ⟨table₂, ?_, ?_, hrows'⟩
  · rw [hloop, Option.bind_some, hloop']
  · intro c hc
    rw [hkept c hc, hrows c hc, if_pos (hwf.name_mem_cores hc)]

theorem eq_of_dpid (hwf : topo.WellFormed) {c c' : CoreSwitch} (hc : c ∈ topo.coreSwitches.values)
    (hc' : c' ∈ topo.coreSwitches.values) (heq : c.dpid = c'.dpid) : c = c' :=
  List.inj_on_of_nodup_map (List.nodup_append.mp hwf.dpids).1 hc hc' heq

theorem exists_first (hwf : topo.WellFormed) : ∃ c ∈ topo.coreSwitches.values,
    topo.coreSwitches.keys.head? = some c.name ∧ topo.coreSwitches.lookup c.name = some c := by
  obtain ⟨k, hk⟩ : ∃ k, topo.coreSwitches.keys.head? = some k := by
    cases hkeys : topo.coreSwitches.keys with
    | nil => exact absurd hkeys hwf.core
    | cons k _ => exact ⟨k, rfl⟩
  obtain ⟨c, hc⟩ := Option.isSome_iff_exists.mp (AList.lookup_isSome.mpr (List.mem_of_head? hk))
  have hname : c.name = k := hwf.cores ⟨k, c⟩ (Dict.mem_entries_iff.mpr hc)
  subst hname
  exact ⟨c, Dict.mem_values_iff.mpr ⟨_, hc⟩, hk, hc⟩

theorem exists_defaultRoute (hwf : topo.WellFormed) : ∃ c ∈ topo.coreSwitches.values,
    ∃ table, DefaultPolicy.route topo = some table ∧
      topo.Routes [c.name] (fun _ => c.name) table := by
  obtain ⟨c, hc, hfirst, hlookup⟩ := hwf.exists_first
  obtain ⟨table₁, hcore, hsets⟩ := hwf.exists_buildCore hc ∅
  have hname := hwf.name_mem_cores hc
  obtain ⟨table₂, hloop, hrows, hkept⟩ :=
    hwf.exists_buildEdges (fun _ => some c.name) (fun _ _ => ⟨rfl, hname⟩) table₁
  refine ⟨c, hc, table₂, ?_, ?_, hrows⟩
  · rw [DefaultPolicy.route, hfirst]
    simp only [Option.bind_eq_bind, Option.bind_some, hlookup, Option.map_some]
    rw [show topo.hostRules c.dpid (topo.downward c.name) ∅ = some table₁ from hcore]
    exact hloop
  · intro c' hc'
    rw [hkept c' hc']
    by_cases h : c'.name = c.name
    · have hsame : c' = c := by
        have hboth := hwf.lookup_core hc'
        rw [h, hlookup] at hboth
        exact (Option.some.inj hboth).symm
      subst hsame
      rw [if_pos (by simp), hsets.here]
    · have hne : c'.dpid ≠ c.dpid := by
        intro heq
        rw [hwf.eq_of_dpid hc' hc heq] at h
        exact h rfl
      rw [if_neg (by simpa using h), hsets.rest _ hne, AList.lookup_empty]

end WellFormed

/-- A core switch owns the first VLAN of each host. -/
def OwnedVlans (topo : Topology) : Prop :=
  ∀ h ∈ topo.hosts.values, ∃ vlan ∈ h.vlans.head?, ∃ c ∈ topo.coreSwitches.values, vlan ∈ c.vlans

theorem exists_getVlanCore {vlan : Int}
    (h : ∃ c ∈ topo.coreSwitches.values, vlan ∈ c.vlans) :
    ∃ c ∈ topo.coreSwitches.values, topo.getVlanCore vlan = some c.name := by
  obtain ⟨c, hc, hvlan⟩ := h
  obtain ⟨c', hfind⟩ := Option.isSome_iff_exists.mp (List.find?_isSome.mpr
    (⟨c, hc, by simpa using hvlan⟩ : ∃ c ∈ topo.coreSwitches.values, (vlan ∈ c.vlans : Bool) = true))
  exact ⟨c', List.mem_of_find?_eq_some hfind, by rw [getVlanCore, hfind, Option.map_some]⟩

theorem WellFormed.exists_staticRoute (hwf : topo.WellFormed) (howned : topo.OwnedVlans) :
    ∃ core table, StaticPolicy.route topo = some table ∧ topo.Assigns topo.coreSwitches.keys core ∧
      topo.Routes topo.coreSwitches.keys core table := by
  have hcore : ∀ h ∈ topo.hosts.values,
      StaticPolicy.core topo h = some ((StaticPolicy.core topo h).getD []) ∧
        (StaticPolicy.core topo h).getD [] ∈ topo.coreSwitches.keys := by
    intro h hh
    obtain ⟨vlan, hvlan, hc⟩ := howned h hh
    obtain ⟨c, hc, howner⟩ := exists_getVlanCore hc
    have hsome : StaticPolicy.core topo h = some c.name := by
      rw [StaticPolicy.core, hvlan]
      exact howner
    rw [hsome]
    exact ⟨rfl, hwf.name_mem_cores hc⟩
  obtain ⟨table, hroute, hroutes⟩ := hwf.exists_route hcore
  exact ⟨_, table, hroute, fun h hh => (hcore h hh).2, hroutes⟩

end Topology

namespace AdaptivePolicy

variable {policy policy' : AdaptivePolicy} {hostBw : Dict Str HostBw} {stat : Int × Str}
  {utilization : Dict Str Int}

/-- Once a switch has been found the search keeps finding one. -/
theorem foldl_lesser {l : List (Σ _ : Str, Int)} {best : Figure × Option Str} {keys : List Str}
    (hkeys : ∀ e ∈ l, e.1 ∈ keys) (hbest : ∃ k ∈ keys, best.2 = some k) :
    ∃ k ∈ keys, (l.foldl lesser best).2 = some k := by
  induction l generalizing best with
  | nil => exact hbest
  | cons e l ih =>
      rw [List.foldl_cons]
      apply ih fun e' he' => hkeys e' (List.mem_cons_of_mem e he')
      unfold lesser
      split
      case isTrue => exact ⟨e.1, hkeys e List.mem_cons_self, rfl⟩
      case isFalse => exact hbest

/-- The name the search starts from is greater than every number. -/
theorem exists_minUtilization (h : utilization.keys ≠ []) :
    ∃ core ∈ utilization, minUtilization utilization = some (some core) := by
  obtain ⟨entries, hnodup⟩ := utilization
  cases entries with
  | nil => exact absurd rfl h
  | cons e entries =>
      have hfirst : lesser (toLex (.inr e.1), none) e = (toLex (.inl e.2), some e.1) := by
        unfold lesser
        rw [if_pos (Sum.Lex.inl_lt_inr _ _)]
      have hbest : ∃ k ∈ (e :: entries).map Sigma.fst,
          ((toLex (.inl e.2), some e.1) : Figure × Option Str).2 = some k :=
        ⟨e.1, by simp, rfl⟩
      obtain ⟨k, hk, hfound⟩ := foldl_lesser
        (fun e' he' => List.mem_map_of_mem (List.mem_cons_of_mem e he')) hbest
      refine ⟨k, hk, ?_⟩
      change some ((entries.foldl lesser (lesser (toLex (.inr e.1), none) e)).2) = _
      rw [hfirst, hfound]

/-- Every host is assigned to a core switch, and only core switches are counted. -/
structure Assigned (topo : Topology) (policy : AdaptivePolicy) : Prop where
  hosts : ∀ h ∈ topo.hosts.values, ∃ core ∈ topo.coreSwitches.keys,
    policy.assignments.lookup h.name = some core
  counted : ∀ k ∈ policy.utilization, k ∈ topo.coreSwitches.keys

theorem Assigned.exists_assign (hp : Assigned topo policy) (h : policy.utilization.keys ≠ []) :
    ∃ policy', policy.assign stat = some policy' ∧ Assigned topo policy' ∧
      policy'.utilization.keys ≠ [] := by
  obtain ⟨core, hcore, hmin⟩ := exists_minUtilization h
  obtain ⟨used, hused⟩ := Option.isSome_iff_exists.mp (AList.lookup_isSome.mpr hcore)
  refine ⟨_, by rw [assign, hmin]; simp only [Option.bind_eq_bind, Option.bind_some, hused]; rfl,
    ⟨fun host hh => ?_, fun k hk => ?_⟩, ?_⟩
  · by_cases heq : host.name = stat.2
    · exact ⟨core, hp.counted core hcore, by rw [heq, Dict.lookup_set_self]⟩
    · rw [Dict.lookup_set_ne heq]
      exact hp.hosts host hh
  · rcases Dict.mem_set.mp hk with rfl | hk
    · exact hp.counted _ hcore
    · exact hp.counted k hk
  · rw [Dict.keys_set_of_mem hcore]
    exact h

theorem mem_reset {cores : List Str} {k : Str} :
    k ∈ reset cores utilization ↔ k ∈ cores ∨ k ∈ utilization := by
  unfold reset
  induction cores generalizing utilization with
  | nil => simp
  | cons c cores ih =>
      rw [List.foldl_cons, ih, Dict.mem_set, List.mem_cons]
      tauto

/-- With a core switch to choose from `redistribute` never raises. -/
theorem Assigned.exists_redistribute (hwf : topo.WellFormed) (hp : Assigned topo policy)
    (hostBw : Dict Str HostBw) : ∃ policy', policy.redistribute topo hostBw = some policy' ∧
      Assigned topo policy' := by
  have hcounted : ∀ k ∈ reset topo.coreSwitches.keys policy.utilization,
      k ∈ topo.coreSwitches.keys := by
    intro k hk
    rcases mem_reset.mp hk with hk | hk
    · exact hk
    · exact hp.counted k hk
  have hsome : (reset topo.coreSwitches.keys policy.utilization).keys ≠ [] := by
    obtain ⟨c, -, hfirst, -⟩ := hwf.exists_first
    exact List.ne_nil_of_mem (mem_reset.mpr (Or.inl (List.mem_of_head? hfirst)))
  have htotal : ∃ policy', policy.redistribute topo hostBw = some policy' ∧
      Assigned topo policy' ∧ policy'.utilization.keys ≠ [] :=
    foldlM_total (P := fun _ p => Assigned topo p ∧ p.utilization.keys ≠ [])
      (fun stat _ p h => h.1.exists_assign h.2) ⟨⟨hp.hosts, hcounted⟩, hsome⟩
  obtain ⟨policy', hloop, hassigned, -⟩ := htotal
  exact ⟨policy', hloop, hassigned⟩

theorem Assigned.exists_route (hwf : topo.WellFormed) (hp : Assigned topo policy) :
    ∃ core table, policy.route topo = some table ∧ topo.Assigns topo.coreSwitches.keys core ∧
      topo.Routes topo.coreSwitches.keys core table := by
  have hcore : ∀ h ∈ topo.hosts.values,
      policy.assignments.lookup h.name = some ((policy.assignments.lookup h.name).getD []) ∧
        (policy.assignments.lookup h.name).getD [] ∈ topo.coreSwitches.keys := by
    intro h hh
    obtain ⟨core, hcore, hlookup⟩ := hp.hosts h hh
    rw [hlookup]
    exact ⟨rfl, hcore⟩
  obtain ⟨table, hroute, hroutes⟩ := hwf.exists_route hcore
  exact ⟨_, table, hroute, fun h hh => (hcore h hh).2, hroutes⟩

theorem Assigned.exists_build (hwf : topo.WellFormed) (hp : Assigned topo policy) :
    ∃ table, policy.build topo = some table := by
  obtain ⟨core, table, hroute, -⟩ := hp.exists_route hwf
  obtain ⟨table', hflood, -⟩ := hwf.exists_addArpflood table
  exact ⟨table', by rw [build, hroute]; exact hflood⟩

theorem exists_init (hwf : topo.WellFormed) :
    ∃ policy, init topo = some policy ∧ Assigned topo policy := by
  obtain ⟨c, hc, hfirst, -⟩ := hwf.exists_first
  have hassigned : Assigned topo
      ⟨topo.hosts.keys.foldl (fun a host => Dict.set host c.name a) ∅, ∅⟩ := by
    refine ⟨fun h hh => ⟨c.name, hwf.name_mem_cores hc, ?_⟩, fun k hk => ?_⟩
    · have hkey : h.name ∈ topo.hosts.keys := Dict.mem_of_lookup (hwf.lookup_host hh)
      have hnodup : (topo.hosts.keys.map fun host => host).Nodup := by
        rw [List.map_id']
        exact topo.hosts.keys_nodup
      exact Dict.lookup_foldl_set hnodup hkey
    · exact absurd hk (AList.notMem_empty k)
  obtain ⟨table, hbuild⟩ := hassigned.exists_build hwf
  refine ⟨_, ?_, hassigned⟩
  rw [init, hfirst]
  simp only [Option.bind_eq_bind, Option.bind_some]
  rw [hbuild]
  rfl

/-- Whatever is recorded, the policies of a controller assign every host to a core switch. -/
theorem Reached.assigned (hwf : topo.WellFormed) (h : Reached topo policy) :
    Assigned topo policy := by
  induction h with
  | init hinit =>
      obtain ⟨policy₀, hinit₀, hassigned⟩ := exists_init hwf
      rw [hinit] at hinit₀
      obtain rfl := Option.some.inj hinit₀
      exact hassigned
  | rebuild hostBw _ hread ih =>
      obtain ⟨policy₁, hredistribute, hassigned⟩ := ih.exists_redistribute hwf hostBw
      rw [routingTable, hredistribute] at hread
      simp only [Option.bind_eq_bind, Option.bind_some, Option.bind_eq_some_iff] at hread
      obtain ⟨table, -, hpair⟩ := hread
      obtain rfl : policy₁ = _ := congrArg Prod.fst (Option.some.inj hpair)
      exact hassigned
  | reorder _ hassignments hutilization ih =>
      refine ⟨fun h hh => ?_, fun k hk => ?_⟩
      · rw [AList.perm_lookup hassignments]
        exact ih.hosts h hh
      · exact ih.counted k ((AList.mem_of_perm hutilization).mp hk)

theorem Reached.exists_routingTable (hwf : topo.WellFormed) (h : Reached topo policy)
    (hostBw : Dict Str HostBw) : ∃ policy' table,
      policy.routingTable topo hostBw = some (policy', table) ∧ Built topo table := by
  obtain ⟨policy', hredistribute, hassigned⟩ :=
    (h.assigned hwf).exists_redistribute hwf hostBw
  obtain ⟨table, hbuild⟩ := hassigned.exists_build hwf
  have hread : policy.routingTable topo hostBw = some (policy', table) := by
    rw [routingTable, hredistribute]
    simp only [Option.bind_eq_bind, Option.bind_some, hbuild]
    rfl
  exact ⟨policy', table, hread, policy', .rebuild hostBw h hread, hbuild⟩

end AdaptivePolicy

end

end CloudComputing.Minidc
