import Mathlib.Data.List.Sort
import Mathlib.Data.List.Lex
import Mathlib.Data.Sum.Order
import Mathlib.Data.Char
import Mathlib.Data.Nat.Digits.Defs
import Mathlib.Order.Lex
import CloudComputing.Lib.Dict
import CloudComputing.Member

/-!
# The topology as the controller sees it

`controller/topo.py` without its parser: hosts, core and edge switches, and the
port numbers that `setPorts` derives from the natural order of the names.
-/

namespace CloudComputing.Minidc

open Lib

/-! ## Natural order -/

/-- `re.split('(\d+)', string)`: text and runs of digits by turns. -/
def resplit : Str → List Str
  | [] => [[]]
  | c :: s =>
      match resplit s with
      | [] => [[c]]
      | text :: pieces =>
          if ¬ c.isDigit then (c :: text) :: pieces
          else
            match text, pieces with
            | [], digits :: pieces => [] :: (c :: digits) :: pieces
            | _, _ => [] :: [c] :: text :: pieces

/-- A number or a text; the interpreter orders all numbers before all texts. -/
abbrev Piece := Lex (ℕ ⊕ Str)

def tryint (s : Str) : Piece :=
  if s ≠ [] ∧ s.all Char.isDigit then toLex (.inl (Nat.ofDigitChars 10 s 0)) else toLex (.inr s)

def naturalSort (string : Str) : List Piece :=
  (resplit string).map tryint

/-- `sorted(names, key=natural_sort)` -/
def sorted (names : List Str) : List Str :=
  names.insertionSort fun a b => naturalSort a ≤ naturalSort b

theorem sorted_perm (names : List Str) : (sorted names).Perm names :=
  List.perm_insertionSort _ _

@[simp] theorem mem_sorted {names : List Str} {n : Str} : n ∈ sorted names ↔ n ∈ names :=
  (sorted_perm names).mem_iff

/-! ## Hosts and switches -/

structure Host where
  name : Str
  ip : Str
  eth : Str
  switch : Str
  vlans : List Int
deriving DecidableEq, Repr

structure CoreSwitch where
  name : Str
  dpid : Int
  vlans : List Int
deriving DecidableEq, Repr

structure EdgeSwitch where
  name : Str
  dpid : Int
  neighbors : List Str
deriving DecidableEq, Repr

/-! ## Ports -/

/-- `ports[sw]` has numbers and names for keys. -/
inductive PortKey
  | number (port : Nat)
  | node (name : Str)
deriving DecidableEq, Repr

abbrev Ports := Dict PortKey PortKey

namespace Ports

variable {nodes : List Str} {n m : Str} {i j : Nat}

def port (ports : Ports) (node : Str) : Option Nat :=
  match ports.lookup (.node node) with
  | some (.number i) => some i
  | _ => none

def node (ports : Ports) (i : Nat) : Option Str :=
  match ports.lookup (.number i) with
  | some (.node name) => some name
  | _ => none

def numbers (ports : Ports) : List Nat :=
  ports.keys.filterMap fun
    | .number i => some i
    | .node _ => none

/-- The body of the loops of `setPorts`, with its counter. -/
def assign (s : Ports × Nat) (node : Str) : Ports × Nat :=
  (Dict.set (.node node) (.number s.2) (Dict.set (.number s.2) (.node node) s.1), s.2 + 1)

/-- Ports for all of `nodes`, numbered from one. -/
def ofNodes (nodes : List Str) : Ports :=
  (nodes.foldl assign (∅, 1)).1

end Ports

structure Topology where
  hosts : Dict Str Host
  vlans : Dict Int (List Str)
  switches : List Str
  edgeSwitches : Dict Str EdgeSwitch
  coreSwitches : Dict Str CoreSwitch
  ports : Dict Str Ports

def setPorts (edgeSwitches : Dict Str EdgeSwitch) (coreSwitches : Dict Str CoreSwitch) :
    Dict Str Ports :=
  let cored := coreSwitches.keys.foldl
    (fun ports s => Dict.set s (.ofNodes (sorted edgeSwitches.keys)) ports) ∅
  edgeSwitches.entries.foldl
    (fun ports e =>
      Dict.set e.1 (.ofNodes (sorted coreSwitches.keys ++ sorted e.2.neighbors)) ports) cored

namespace Topology

variable (topo : Topology)

def getVlanCore (vlan : Int) : Option Str :=
  (topo.coreSwitches.values.find? fun core => vlan ∈ core.vlans).map CoreSwitch.name

def dpidToName (dpid : Int) : Option Str :=
  (topo.edgeSwitches.values.map (fun sw => (sw.dpid, sw.name)) ++
    topo.coreSwitches.values.map fun sw => (sw.dpid, sw.name)).lookup dpid

/-- `topo.ports[sw][node]` -/
def port (sw node : Str) : Option Nat :=
  (topo.ports.lookup sw).bind fun ports => ports.port node

/-- `topo.ports[sw][i]` -/
def nodeAt (sw : Str) (i : Nat) : Option Str :=
  (topo.ports.lookup sw).bind fun ports => ports.node i

end Topology

/-! ## The numbers that `setPorts` gives -/

namespace Ports

variable {nodes : List Str} {n m : Str} {i j : Nat}

@[simp] theorem port_assign {s : Ports × Nat} :
    (assign s n).1.port m = if m = n then some s.2 else s.1.port m := by
  unfold port assign
  rw [Dict.lookup_set]
  by_cases h : m = n
  · simp [h]
  · rw [if_neg (by simpa using h), Dict.lookup_set_ne (by simp), if_neg h]

@[simp] theorem node_assign {s : Ports × Nat} :
    (assign s n).1.node i = if i = s.2 then some n else s.1.node i := by
  unfold node assign
  rw [Dict.lookup_set_ne (by simp), Dict.lookup_set]
  by_cases h : i = s.2
  · simp [h]
  · rw [if_neg (by simpa using h), if_neg h]

theorem foldl_assign_snd (s : Ports × Nat) : (nodes.foldl assign s).2 = s.2 + nodes.length := by
  induction nodes generalizing s with
  | nil => rfl
  | cons n nodes ih =>
      rw [List.foldl_cons, ih]
      simp only [assign, List.length_cons]
      omega

theorem ofNodes_append_singleton : ofNodes (nodes ++ [n]) =
    (assign (ofNodes nodes, nodes.length + 1) n).1 := by
  have hpair : nodes.foldl assign (∅, 1) = (ofNodes nodes, nodes.length + 1) := by
    refine Prod.ext rfl ?_
    rw [foldl_assign_snd]
    exact Nat.add_comm _ _
  rw [ofNodes, List.foldl_append, hpair]
  rfl

theorem node_ofNodes : (ofNodes nodes).node (i + 1) = nodes[i]? := by
  induction nodes using List.reverseRecOn with
  | nil => rfl
  | append_singleton nodes n ih =>
      rw [ofNodes_append_singleton, node_assign]
      by_cases h : i = nodes.length
      · simp [h]
      · rw [if_neg (by simpa using h), ih]
        rcases Nat.lt_or_ge i nodes.length with hlt | hge
        · rw [List.getElem?_append_left hlt]
        · rw [List.getElem?_eq_none hge, List.getElem?_eq_none (by simp; omega)]

theorem node_ofNodes_zero : (ofNodes nodes).node 0 = none := by
  induction nodes using List.reverseRecOn with
  | nil => rfl
  | append_singleton nodes n ih => rw [ofNodes_append_singleton, node_assign, if_neg (by simp), ih]

theorem port_ofNodes_of_not_mem (h : n ∉ nodes) : (ofNodes nodes).port n = none := by
  induction nodes using List.reverseRecOn with
  | nil => rfl
  | append_singleton nodes m ih =>
      rw [List.mem_append, List.mem_singleton, not_or] at h
      rw [ofNodes_append_singleton, port_assign, if_neg h.2, ih h.1]

theorem port_ofNodes (hnodup : nodes.Nodup) (h : nodes[i]? = some n) :
    (ofNodes nodes).port n = some (i + 1) := by
  induction nodes using List.reverseRecOn with
  | nil => simp at h
  | append_singleton nodes m ih =>
      have hsplit := List.nodup_append.mp hnodup
      rw [ofNodes_append_singleton, port_assign]
      rcases Nat.lt_or_ge i nodes.length with hlt | hge
      · rw [List.getElem?_append_left hlt] at h
        have hne : n ≠ m := hsplit.2.2 n (List.mem_of_getElem? h) m (by simp)
        rw [if_neg hne, ih hsplit.1 h]
      · rw [List.getElem?_append_right hge] at h
        obtain ⟨hi, hn⟩ := List.getElem?_eq_some_iff.mp h
        have hi' : i = nodes.length := by
          simp only [List.length_cons, List.length_nil] at hi
          omega
        subst hi'
        have hnm : n = m := by simpa using hn.symm
        rw [if_pos hnm]

theorem node_ofNodes_iff :
    (ofNodes nodes).node i = some n ↔ ∃ j, nodes[j]? = some n ∧ i = j + 1 := by
  cases i with
  | zero => simp [node_ofNodes_zero]
  | succ i => simp [node_ofNodes]

theorem port_ofNodes_iff (hnodup : nodes.Nodup) :
    (ofNodes nodes).port n = some i ↔ ∃ j, nodes[j]? = some n ∧ i = j + 1 := by
  constructor
  · intro hport
    by_cases hmem : n ∈ nodes
    · obtain ⟨j, hj⟩ := List.getElem?_of_mem hmem
      rw [port_ofNodes hnodup hj] at hport
      exact ⟨j, hj, (Option.some.inj hport).symm⟩
    · rw [port_ofNodes_of_not_mem hmem] at hport
      cases hport
  · rintro ⟨j, hj, rfl⟩
    exact port_ofNodes hnodup hj

theorem exists_port (hnodup : nodes.Nodup) (h : n ∈ nodes) :
    ∃ i, (ofNodes nodes).port n = some i ∧ (ofNodes nodes).node i = some n := by
  obtain ⟨i, hi⟩ := List.getElem?_of_mem h
  exact ⟨i + 1, port_ofNodes hnodup hi, by rw [node_ofNodes, hi]⟩

theorem number_mem_ofNodes : .number i ∈ ofNodes nodes ↔ 0 < i ∧ i ≤ nodes.length := by
  induction nodes using List.reverseRecOn with
  | nil =>
      have hempty : PortKey.number i ∉ ofNodes [] := AList.notMem_empty _
      simp only [hempty, List.length_nil, false_iff]
      omega
  | append_singleton nodes n ih =>
      rw [ofNodes_append_singleton, assign, Dict.mem_set, Dict.mem_set, ih, List.length_append,
        List.length_singleton]
      simp only [reduceCtorEq, PortKey.number.injEq, false_or]
      omega

theorem numbers_ofNodes :
    (ofNodes nodes).numbers.Perm ((List.range nodes.length).map (· + 1)) := by
  induction nodes using List.reverseRecOn with
  | nil => exact .nil
  | append_singleton nodes n ih =>
      have hnew : PortKey.number (nodes.length + 1) ∉ ofNodes nodes := by
        rw [number_mem_ofNodes]
        omega
      have hnumbers : (ofNodes (nodes ++ [n])).numbers =
          (nodes.length + 1) :: (ofNodes nodes).numbers := by
        rw [ofNodes_append_singleton, assign, numbers]
        by_cases h : PortKey.node n ∈ Dict.set (.number (nodes.length + 1)) (.node n)
            (ofNodes nodes)
        · rw [Dict.keys_set_of_mem h, Dict.keys_set_of_not_mem hnew]
          rfl
        · rw [Dict.keys_set_of_not_mem h, Dict.keys_set_of_not_mem hnew]
          rfl
      rw [hnumbers, List.length_append, List.length_singleton, List.range_succ, List.map_append]
      exact (ih.cons _).trans (List.perm_append_singleton _ _).symm

end Ports

section

variable {edgeSwitches : Dict Str EdgeSwitch} {coreSwitches : Dict Str CoreSwitch} {sw : Str}
  {edge : EdgeSwitch}

theorem lookup_setPorts_edge (h : edgeSwitches.lookup sw = some edge) :
    (setPorts edgeSwitches coreSwitches).lookup sw =
      some (.ofNodes (sorted coreSwitches.keys ++ sorted edge.neighbors)) :=
  Dict.lookup_foldl_set edgeSwitches.nodupKeys (Dict.mem_entries_iff.mpr h)

theorem lookup_setPorts_core (hcore : sw ∈ coreSwitches) (hedge : sw ∉ edgeSwitches) :
    (setPorts edgeSwitches coreSwitches).lookup sw = some (.ofNodes (sorted edgeSwitches.keys)) := by
  have hfirst : (coreSwitches.keys.foldl
      (fun ports s => Dict.set s (.ofNodes (sorted edgeSwitches.keys)) ports) ∅).lookup sw =
      some (Ports.ofNodes (sorted edgeSwitches.keys)) := by
    have hkeys : sw ∈ coreSwitches.keys := hcore
    have hnodup : (coreSwitches.keys.map fun s => s).Nodup := by
      rw [List.map_id']
      exact coreSwitches.keys_nodup
    exact Dict.lookup_foldl_set hnodup hkeys
  rw [setPorts, Dict.lookup_foldl_set_of_not_mem hedge, hfirst]

end

/-! ## Well-formed topologies -/

/-- Every edge switch is linked to every core switch, every host to one edge switch, and names,
dpids and MAC addresses are told apart. -/
structure Topology.WellFormed (topo : Topology) : Prop where
  hosts : ∀ e ∈ topo.hosts.entries, e.2.name = e.1
  edges : ∀ e ∈ topo.edgeSwitches.entries, e.2.name = e.1
  cores : ∀ e ∈ topo.coreSwitches.entries, e.2.name = e.1
  ports : topo.ports = setPorts topo.edgeSwitches topo.coreSwitches
  core : topo.coreSwitches.keys ≠ []
  switches : ∀ n ∈ topo.coreSwitches.keys, n ∉ topo.edgeSwitches
  dpids : (topo.coreSwitches.values.map CoreSwitch.dpid ++
    topo.edgeSwitches.values.map EdgeSwitch.dpid).Nodup
  eths : (topo.hosts.values.map Host.eth).Nodup
  neighbors : ∀ edge ∈ topo.edgeSwitches.values, edge.neighbors.Nodup ∧
    ∀ n ∈ edge.neighbors, n ∉ topo.coreSwitches ∧ n ∉ topo.edgeSwitches
  attached : ∀ h ∈ topo.hosts.values, h.switch ∈ topo.edgeSwitches ∧
    ∀ edge ∈ topo.edgeSwitches.values, h.name ∈ edge.neighbors ↔ edge.name = h.switch

namespace Topology

/-- `topo.ports[sw][node]` where it is known to be there. -/
def portOf (topo : Topology) (sw node : Str) : Nat :=
  (topo.port sw node).getD 0

variable {topo : Topology} {edge edge' : EdgeSwitch} {core core' : CoreSwitch} {h h' : Host}
  {sw n m : Str} {nodes : List Str}

/-- The ports of a switch are those of its nodes, in this order. -/
structure Wired (topo : Topology) (sw : Str) (nodes : List Str) : Prop where
  nodup : nodes.Nodup
  ports : topo.ports.lookup sw = some (.ofNodes nodes)

theorem Wired.port (hw : topo.Wired sw nodes) (hn : n ∈ nodes) :
    topo.port sw n = some (topo.portOf sw n) := by
  obtain ⟨i, hport, -⟩ := Ports.exists_port hw.nodup hn
  rw [portOf, Topology.port, hw.ports, Option.bind_some, hport, Option.getD_some]

theorem Wired.nodeAt (hw : topo.Wired sw nodes) (hn : n ∈ nodes) :
    topo.nodeAt sw (topo.portOf sw n) = some n := by
  obtain ⟨i, hport, hnode⟩ := Ports.exists_port hw.nodup hn
  rw [portOf, Topology.port, Topology.nodeAt, hw.ports, Option.bind_some, Option.bind_some, hport,
    Option.getD_some, hnode]

theorem Wired.portOf_inj (hw : topo.Wired sw nodes) (hn : n ∈ nodes) (hm : m ∈ nodes)
    (heq : topo.portOf sw n = topo.portOf sw m) : n = m := by
  have hnode := hw.nodeAt hn
  rw [heq, hw.nodeAt hm] at hnode
  exact (Option.some.inj hnode).symm

theorem Wired.numbers (hw : topo.Wired sw nodes) :
    (Ports.ofNodes nodes).numbers.Perm (nodes.map (topo.portOf sw)) := by
  have hports : nodes.map (topo.portOf sw) = (List.range nodes.length).map (· + 1) := by
    apply List.ext_getElem?
    intro i
    rw [List.getElem?_map, List.getElem?_map]
    rcases Nat.lt_or_ge i nodes.length with hlt | hge
    · have hport := Ports.port_ofNodes hw.nodup (List.getElem?_eq_getElem hlt)
      rw [List.getElem?_eq_getElem hlt, List.getElem?_range hlt, Option.map_some, Option.map_some,
        portOf, Topology.port, hw.ports, Option.bind_some, hport, Option.getD_some]
    · rw [List.getElem?_eq_none hge, List.getElem?_eq_none (by simpa using hge)]
      rfl
  rw [hports]
  exact Ports.numbers_ofNodes

namespace WellFormed

theorem lookup_host (hwf : topo.WellFormed) (hh : h ∈ topo.hosts.values) :
    topo.hosts.lookup h.name = some h := by
  obtain ⟨k, hk⟩ := Dict.mem_values_iff.mp hh
  rwa [hwf.hosts ⟨k, h⟩ (Dict.mem_entries_iff.mpr hk)]

theorem lookup_edge (hwf : topo.WellFormed) (he : edge ∈ topo.edgeSwitches.values) :
    topo.edgeSwitches.lookup edge.name = some edge := by
  obtain ⟨k, hk⟩ := Dict.mem_values_iff.mp he
  rwa [hwf.edges ⟨k, edge⟩ (Dict.mem_entries_iff.mpr hk)]

theorem lookup_core (hwf : topo.WellFormed) (hc : core ∈ topo.coreSwitches.values) :
    topo.coreSwitches.lookup core.name = some core := by
  obtain ⟨k, hk⟩ := Dict.mem_values_iff.mp hc
  rwa [hwf.cores ⟨k, core⟩ (Dict.mem_entries_iff.mpr hk)]

theorem name_mem_cores (hwf : topo.WellFormed) (hc : core ∈ topo.coreSwitches.values) :
    core.name ∈ topo.coreSwitches.keys :=
  Dict.mem_of_lookup (hwf.lookup_core hc)

theorem name_mem_edges (hwf : topo.WellFormed) (he : edge ∈ topo.edgeSwitches.values) :
    edge.name ∈ topo.edgeSwitches.keys :=
  Dict.mem_of_lookup (hwf.lookup_edge he)

theorem eq_of_name (hwf : topo.WellFormed) (hh : h ∈ topo.hosts.values)
    (hh' : h' ∈ topo.hosts.values) (heq : h.name = h'.name) : h = h' := by
  have hlookup := hwf.lookup_host hh
  rw [heq, hwf.lookup_host hh'] at hlookup
  exact (Option.some.inj hlookup).symm

theorem exists_core (hwf : topo.WellFormed) (hn : n ∈ topo.coreSwitches.keys) :
    ∃ c ∈ topo.coreSwitches.values, c.name = n := by
  obtain ⟨c, hc⟩ := Option.isSome_iff_exists.mp (AList.lookup_isSome.mpr hn)
  exact ⟨c, Dict.mem_values_iff.mpr ⟨n, hc⟩, hwf.cores ⟨n, c⟩ (Dict.mem_entries_iff.mpr hc)⟩

theorem exists_edge_of_name (hwf : topo.WellFormed) (hn : n ∈ topo.edgeSwitches.keys) :
    ∃ e ∈ topo.edgeSwitches.values, e.name = n := by
  obtain ⟨e, he⟩ := Option.isSome_iff_exists.mp (AList.lookup_isSome.mpr hn)
  exact ⟨e, Dict.mem_values_iff.mpr ⟨n, he⟩, hwf.edges ⟨n, e⟩ (Dict.mem_entries_iff.mpr he)⟩

theorem exists_edge (hwf : topo.WellFormed) (hh : h ∈ topo.hosts.values) :
    ∃ edge ∈ topo.edgeSwitches.values, edge.name = h.switch ∧ h.name ∈ edge.neighbors := by
  obtain ⟨hmem, hiff⟩ := hwf.attached h hh
  obtain ⟨edge, hedge, hname⟩ := hwf.exists_edge_of_name hmem
  exact ⟨edge, hedge, hname, (hiff edge hedge).mpr hname⟩

theorem edge_wired (hwf : topo.WellFormed) (he : edge ∈ topo.edgeSwitches.values) :
    topo.Wired edge.name (sorted topo.coreSwitches.keys ++ sorted edge.neighbors) where
  nodup := by
    obtain ⟨hnodup, hnot⟩ := hwf.neighbors edge he
    refine List.nodup_append.mpr ⟨(sorted_perm _).nodup_iff.mpr topo.coreSwitches.keys_nodup,
      (sorted_perm _).nodup_iff.mpr hnodup, ?_⟩
    intro n hn m hm heq
    subst heq
    exact (hnot n (mem_sorted.mp hm)).1 (mem_sorted.mp hn)
  ports := by rw [hwf.ports, lookup_setPorts_edge (hwf.lookup_edge he)]

theorem core_wired (hwf : topo.WellFormed) (hc : core ∈ topo.coreSwitches.values) :
    topo.Wired core.name (sorted topo.edgeSwitches.keys) where
  nodup := (sorted_perm _).nodup_iff.mpr topo.edgeSwitches.keys_nodup
  ports := by
    have hmem := hwf.name_mem_cores hc
    rw [hwf.ports, lookup_setPorts_core hmem (hwf.switches _ hmem)]

end WellFormed

end Topology

/-! ## A small data center -/

/-- Host `h` and the number of its name, which is also its address here. -/
def sampleHost (h : Char) (switch : Char) (vlan : Int) : Host :=
  ⟨['h', h], [h], [h], ['s', '1', '0', switch], [vlan]⟩

/-- Three edge switches with two hosts each, and two core switches. -/
def sampleTopology : Topology :=
  let hosts := [sampleHost '3' '1' 1, sampleHost '6' '1' 1, sampleHost '1' '2' 0,
    sampleHost '4' '2' 1, sampleHost '2' '3' 0, sampleHost '5' '3' 1]
  let edges : List EdgeSwitch := [⟨['s', '1', '0', '1'], 101, [['h', '3'], ['h', '6']]⟩,
    ⟨['s', '1', '0', '2'], 102, [['h', '1'], ['h', '4']]⟩,
    ⟨['s', '1', '0', '3'], 103, [['h', '2'], ['h', '5']]⟩]
  let cores : List CoreSwitch := [⟨['s', '1', '0', '4'], 104, [0]⟩, ⟨['s', '1', '0', '5'], 105, [1]⟩]
  let edgeSwitches := edges.foldl (fun d e => Dict.set e.name e d) ∅
  let coreSwitches := cores.foldl (fun d c => Dict.set c.name c d) ∅
  { hosts := hosts.foldl (fun d h => Dict.set h.name h d) ∅
    vlans := ∅
    switches := coreSwitches.keys ++ edgeSwitches.keys
    edgeSwitches
    coreSwitches
    ports := setPorts edgeSwitches coreSwitches }

theorem sampleTopology_wellFormed : sampleTopology.WellFormed where
  hosts := by decide
  edges := by decide
  cores := by decide
  ports := rfl
  core := by decide
  switches := by decide
  dpids := by decide
  eths := by decide
  neighbors := by decide
  attached := by decide

end CloudComputing.Minidc
