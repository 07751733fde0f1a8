import CloudComputing.Lib.Fold
import CloudComputing.Minidc.Topology

/-!
# Rules and the flooding of broadcasts

`controller/flood.py`, and the one loop that the three policies of
`controller/policy.py` share: a rule for every host in the table of a switch.
A lookup that raises is `none`.
-/

namespace CloudComputing.Minidc

open Lib

inductive Output
  | flood
  | port (p : Nat)
deriving DecidableEq, Repr

/-- `flow['type']`, with the field of the rule that belongs to it. -/
inductive FlowType
  | src (ethSrc : Str)
  | dst (ethDst : Str)
  | inport (inport : Nat)
  | none
deriving DecidableEq, Repr

structure Flow where
  type : FlowType
  output : List Output
  priority : Nat
deriving DecidableEq, Repr

/-- Rules by the dpid of their switch. -/
abbrev RoutingTable := Dict Int (List Flow)

namespace RoutingTable

/-- `routingTable[dpid].append(flow)` -/
def append (dpid : Int) (flow : Flow) (table : RoutingTable) : Option RoutingTable :=
  (table.lookup dpid).map fun flows => Dict.set dpid (flows ++ [flow]) table

/-- `for x in l: routingTable[dpid].append(rule(x))` -/
def appendAll {α : Type} (dpid : Int) (rule : α → Option Flow) (l : List α) (table : RoutingTable) :
    Option RoutingTable :=
  l.foldlM (fun table x => do append dpid (← rule x) table) table

/-- `if dpid not in routingTable.keys(): routingTable[dpid] = []` -/
def ensure (dpid : Int) (table : RoutingTable) : RoutingTable :=
  if dpid ∈ table then table else Dict.set dpid [] table

end RoutingTable

open RoutingTable

/-- What is left is dropped. -/
def dropAll : Flow :=
  ⟨.none, [], 0⟩

namespace Topology

variable (topo : Topology)

/-- A broadcast from `h` leaves a core switch on all ports. -/
def floodRule (h : Host) : Flow :=
  ⟨.src h.eth, [.flood], 1⟩

def downRule (edge : EdgeSwitch) (core : CoreSwitch) : Option Flow := do
  let inport ← topo.port edge.name core.name
  let outports ← edge.neighbors.mapM (topo.port edge.name)
  return ⟨.inport inport, outports.map .port, 1⟩

def upRule (edge : EdgeSwitch) (host : Str) : Option Flow := do
  let inport ← topo.port edge.name host
  let outports ← topo.coreSwitches.keys.mapM (topo.port edge.name)
  let others ← (edge.neighbors.filter (· ≠ host)).mapM (topo.port edge.name)
  return ⟨.inport inport, (outports ++ others).map .port, 1⟩

/-! ## The four loops -/

def floodCore (table : RoutingTable) (core : CoreSwitch) : Option RoutingTable :=
  if core.dpid ∈ table then
    appendAll core.dpid (fun h => some (floodRule h)) topo.hosts.values table
  else some table

def floodEdge (table : RoutingTable) (edge : EdgeSwitch) : Option RoutingTable := do
  let table ← appendAll edge.dpid (topo.downRule edge) topo.coreSwitches.values
    (ensure edge.dpid table)
  appendAll edge.dpid (topo.upRule edge) edge.neighbors table

end Topology

def dropCore (table : RoutingTable) (core : CoreSwitch) : Option RoutingTable :=
  append core.dpid dropAll (ensure core.dpid table)

def dropEdge (table : RoutingTable) (edge : EdgeSwitch) : Option RoutingTable :=
  append edge.dpid dropAll table

def addArpflood (routingTable : RoutingTable) (topo : Topology) : Option RoutingTable := do
  let table ← topo.coreSwitches.values.foldlM topo.floodCore routingTable
  let table ← topo.edgeSwitches.values.foldlM topo.floodEdge table
  let table ← topo.coreSwitches.values.foldlM dropCore table
  topo.edgeSwitches.values.foldlM dropEdge table

/-! ## What a loop leaves in the table -/

namespace RoutingTable

variable {table table' table'' : RoutingTable} {dpid : Int} {flows : List Flow} {flow : Flow}
  {α σ : Type} {rule : α → Option Flow} {rule' : α → Flow} {l : List α}

/-- Only the rules of one switch change, and they are `flows` then. -/
structure Sets (table table' : RoutingTable) (dpid : Int) (flows : Option (List Flow)) : Prop where
  here : table'.lookup dpid = flows
  rest : ∀ d, d ≠ dpid → table'.lookup d = table.lookup d

theorem Sets.trans {o o' : Option (List Flow)} (h : Sets table table' dpid o)
    (h' : Sets table' table'' dpid o') : Sets table table'' dpid o' :=
  ⟨h'.here, fun d hd => (h'.rest d hd).trans (h.rest d hd)⟩

theorem sets_set : Sets table (Dict.set dpid flows table) dpid (some flows) :=
  ⟨Dict.lookup_set_self, fun _ hd => Dict.lookup_set_ne hd⟩

theorem sets_ensure (table : RoutingTable) (dpid : Int) :
    Sets table (ensure dpid table) dpid (some ((table.lookup dpid).getD [])) := by
  unfold ensure
  by_cases h : dpid ∈ table
  · obtain ⟨flows, hflows⟩ := Option.isSome_iff_exists.mp (AList.lookup_isSome.mpr h)
    rw [if_pos h, hflows]
    exact ⟨hflows, fun _ _ => rfl⟩
  · rw [if_neg h, AList.lookup_eq_none.mpr h]
    exact sets_set

theorem exists_append (flow : Flow) (h : table.lookup dpid = some flows) :
    ∃ table', append dpid flow table = some table' ∧
      Sets table table' dpid (some (flows ++ [flow])) :=
  ⟨Dict.set dpid (flows ++ [flow]) table, by rw [append, h, Option.map_some], sets_set⟩

theorem exists_appendAll (hrule : ∀ x ∈ l, rule x = some (rule' x))
    (h : table.lookup dpid = some flows) :
    ∃ table', appendAll dpid rule l table = some table' ∧
      Sets table table' dpid (some (flows ++ l.map rule')) := by
  induction l generalizing table flows with
  | nil => exact ⟨table, rfl, by simpa using h, fun _ _ => rfl⟩
  | cons x l ih =>
      obtain ⟨table₁, happend, hsets⟩ := exists_append (rule' x) h
      obtain ⟨table₂, hrest, hsets'⟩ := ih (fun y hy => hrule y (List.mem_cons_of_mem x hy))
        hsets.here
      refine ⟨table₂, ?_, ?_⟩
      · rw [appendAll, List.foldlM_cons, hrule x List.mem_cons_self]
        simp only [Option.bind_eq_bind, Option.bind_some, happend]
        exact hrest
      · simpa using hsets.trans hsets'

theorem exists_foldlM {body : RoutingTable → σ → Option RoutingTable} {id : σ → Int} {l : List σ}
    (table : RoutingTable) (rows : σ → Option (List Flow)) (hnodup : (l.map id).Nodup)
    (hbody : ∀ s ∈ l, ∀ t : RoutingTable, t.lookup (id s) = table.lookup (id s) →
      ∃ t', body t s = some t' ∧ Sets t t' (id s) (rows s)) :
    ∃ table', l.foldlM body table = some table' ∧
      (∀ s ∈ l, table'.lookup (id s) = rows s) ∧
      ∀ d, d ∉ l.map id → table'.lookup d = table.lookup d := by
  induction l generalizing table with
  | nil => exact ⟨table, rfl, by simp, fun _ _ => rfl⟩
  | cons s l ih =>
      rw [List.map_cons, List.nodup_cons] at hnodup
      obtain ⟨table₁, hfirst, hsets⟩ := hbody s List.mem_cons_self table rfl
      have hother : ∀ s' ∈ l, table₁.lookup (id s') = table.lookup (id s') := by
        intro s' hs'
        refine hsets.rest _ fun heq => hnodup.1 ?_
        rw [← heq]
        exact List.mem_map_of_mem hs'
      obtain ⟨table₂, hloop, hrows, hrest⟩ := ih table₁ hnodup.2 fun s' hs' t ht =>
        hbody s' (List.mem_cons_of_mem s hs') t (ht.trans (hother s' hs'))
      refine ⟨table₂, ?_, ?_, ?_⟩
      · rw [List.foldlM_cons, hfirst]
        exact hloop
      · intro s' hs'
        rcases List.mem_cons.mp hs' with rfl | hs'
        · rw [hrest _ hnodup.1, hsets.here]
        · exact hrows s' hs'
      · intro d hd
        rw [List.map_cons, List.mem_cons, not_or] at hd
        rw [hrest d hd.2, hsets.rest d hd.1]

end RoutingTable

/-! ## What the flooding adds -/

namespace Topology

variable (topo : Topology)

def floods : List Flow :=
  topo.hosts.values.map floodRule

def down (edge : EdgeSwitch) (core : CoreSwitch) : Flow :=
  ⟨.inport (topo.portOf edge.name core.name),
    (edge.neighbors.map (topo.portOf edge.name)).map .port, 1⟩

/-- Where a broadcast goes that a host of `edge` sends. -/
def broadcastHops (edge : EdgeSwitch) (host : Str) : List Str :=
  topo.coreSwitches.keys ++ edge.neighbors.filter (· ≠ host)

def up (edge : EdgeSwitch) (host : Str) : Flow :=
  ⟨.inport (topo.portOf edge.name host),
    ((topo.broadcastHops edge host).map (topo.portOf edge.name)).map .port, 1⟩

def floodRows (edge : EdgeSwitch) : List Flow :=
  topo.coreSwitches.values.map (topo.down edge) ++ edge.neighbors.map (topo.up edge)

namespace WellFormed

variable {topo : Topology} {table : RoutingTable} {edge : EdgeSwitch} {core : CoreSwitch}
  {n : Str}

theorem downRule_eq (hwf : topo.WellFormed) (he : edge ∈ topo.edgeSwitches.values)
    (hc : core ∈ topo.coreSwitches.values) :
    topo.downRule edge core = some (topo.down edge core) := by
  have hwired := hwf.edge_wired he
  have hout : edge.neighbors.mapM (topo.port edge.name) =
      some (edge.neighbors.map (topo.portOf edge.name)) :=
    mapM_eq_some_map fun n hn => hwired.port (by simp [hn])
  rw [downRule, hwired.port (by simp [hwf.name_mem_cores hc]), hout]
  rfl

theorem upRule_eq (hwf : topo.WellFormed) (he : edge ∈ topo.edgeSwitches.values)
    (hn : n ∈ edge.neighbors) : topo.upRule edge n = some (topo.up edge n) := by
  have hwired := hwf.edge_wired he
  have hcores : topo.coreSwitches.keys.mapM (topo.port edge.name) =
      some (topo.coreSwitches.keys.map (topo.portOf edge.name)) :=
    mapM_eq_some_map fun n hn => hwired.port (by simp [hn])
  have hothers : (edge.neighbors.filter (· ≠ n)).mapM (topo.port edge.name) =
      some ((edge.neighbors.filter (· ≠ n)).map (topo.portOf edge.name)) :=
    mapM_eq_some_map fun n hn => hwired.port (by simp [List.mem_of_mem_filter hn])
  rw [upRule, hwired.port (by simp [hn]), hcores, hothers]
  simp [up, broadcastHops]

theorem exists_floodCore (core : CoreSwitch) (table : RoutingTable) :
    ∃ table', topo.floodCore table core = some table' ∧
      Sets table table' core.dpid ((table.lookup core.dpid).map (· ++ topo.floods)) := by
  unfold floodCore
  by_cases h : core.dpid ∈ table
  · obtain ⟨flows, hflows⟩ := Option.isSome_iff_exists.mp (AList.lookup_isSome.mpr h)
    rw [if_pos h, hflows, Option.map_some]
    exact exists_appendAll (fun _ _ => rfl) hflows
  · have hnone := AList.lookup_eq_none.mpr h
    rw [if_neg h, hnone]
    exact ⟨table, rfl, hnone, fun _ _ => rfl⟩

theorem exists_floodEdge (hwf : topo.WellFormed) (he : edge ∈ topo.edgeSwitches.values)
    (table : RoutingTable) : ∃ table', topo.floodEdge table edge = some table' ∧
      Sets table table' edge.dpid
        (some ((table.lookup edge.dpid).getD [] ++ topo.floodRows edge)) := by
  obtain ⟨table₁, hdown, hsets⟩ := exists_appendAll (fun _ hc => hwf.downRule_eq he hc)
    (sets_ensure table edge.dpid).here
  obtain ⟨table₂, hup, hsets'⟩ := exists_appendAll (fun _ hn => hwf.upRule_eq he hn) hsets.here
  refine ⟨table₂, ?_, ?_⟩
  · rw [floodEdge, hdown]
    exact hup
  · rw [floodRows, ← List.append_assoc]
    exact ((sets_ensure table edge.dpid).trans hsets).trans hsets'

theorem exists_dropCore (core : CoreSwitch) (table : RoutingTable) :
    ∃ table', dropCore table core = some table' ∧
      Sets table table' core.dpid (some ((table.lookup core.dpid).getD [] ++ [dropAll])) := by
  have hensure := sets_ensure table core.dpid
  obtain ⟨table', happend, hsets⟩ := exists_append dropAll hensure.here
  exact ⟨table', happend, hensure.trans hsets⟩

theorem exists_dropEdge {flows : List Flow} (h : table.lookup edge.dpid = some flows) :
    ∃ table', dropEdge table edge = some table' ∧
      Sets table table' edge.dpid (some (flows ++ [dropAll])) :=
  exists_append dropAll h

/-- The rules of every switch after `add_arpflood`. -/
theorem exists_addArpflood (hwf : topo.WellFormed) (table : RoutingTable) :
    ∃ table', addArpflood table topo = some table' ∧
      (∀ c ∈ topo.coreSwitches.values, table'.lookup c.dpid =
        some (((table.lookup c.dpid).map (· ++ topo.floods)).getD [] ++ [dropAll])) ∧
      ∀ e ∈ topo.edgeSwitches.values, table'.lookup e.dpid =
        some ((table.lookup e.dpid).getD [] ++ topo.floodRows e ++ [dropAll]) := by
  have hdpids := List.nodup_append.mp hwf.dpids
  have hcore : ∀ e ∈ topo.edgeSwitches.values,
      e.dpid ∉ topo.coreSwitches.values.map CoreSwitch.dpid := by
    intro e he hmem
    exact hdpids.2.2 _ hmem _ (List.mem_map_of_mem he) rfl
  have hedge : ∀ c ∈ topo.coreSwitches.values,
      c.dpid ∉ topo.edgeSwitches.values.map EdgeSwitch.dpid := by
    intro c hc hmem
    exact hdpids.2.2 _ (List.mem_map_of_mem hc) _ hmem rfl
  obtain ⟨table₁, h₁, hrows₁, hrest₁⟩ := exists_foldlM table
    (fun c => (table.lookup c.dpid).map (· ++ topo.floods)) hdpids.1 fun c _ t ht => by
      rw [← ht]
      exact exists_floodCore c t
  obtain ⟨table₂, h₂, hrows₂, hrest₂⟩ := exists_foldlM table₁
    (fun e => some ((table₁.lookup e.dpid).getD [] ++ topo.floodRows e)) hdpids.2.1
    fun e he t ht => by
      rw [← ht]
      exact hwf.exists_floodEdge he t
  obtain ⟨table₃, h₃, hrows₃, hrest₃⟩ := exists_foldlM table₂
    (fun c => some ((table₂.lookup c.dpid).getD [] ++ [dropAll])) hdpids.1 fun c _ t ht => by
      rw [← ht]
      exact exists_dropCore c t
  obtain ⟨table₄, h₄, hrows₄, hrest₄⟩ := exists_foldlM table₃
    (fun e => some ((table₃.lookup e.dpid).getD [] ++ [dropAll])) hdpids.2.1 fun e he t ht => by
      have hhere := (hrest₃ _ (hcore e he)).trans (hrows₂ e he)
      rw [hhere, Option.getD_some]
      exact exists_dropEdge (ht.trans hhere)
  refine ⟨table₄, ?_, fun c hc => ?_, fun e he => ?_⟩
  · rw [addArpflood, h₁]
    simp only [Option.bind_eq_bind, Option.bind_some, h₂, h₃, h₄]
  · rw [hrest₄ _ (hedge c hc), hrows₃ c hc, hrest₂ _ (hedge c hc), hrows₁ c hc]
  · rw [hrows₄ e he, hrest₃ _ (hcore e he), hrows₂ e he, Option.getD_some, hrest₁ _ (hcore e he)]

end WellFormed

end Topology

end CloudComputing.Minidc
