import CloudComputing.Lib.Text
import CloudComputing.Minidc.Topology

/-!
# The parser of the controller

The part of `controller/topo.py` that reads the configuration file.  A line that
does not have its fields raises.
-/

namespace CloudComputing.Minidc

open Lib

/-- The order in which the interpreter goes through the dictionaries it has made. -/
structure DictOrder where
  arrange : {α : Type} → Dict Str α → Dict Str α
  perm : ∀ {α : Type} (d : Dict Str α), (arrange d).entries.Perm d.entries

/-- `splitSections`: the runs of lines between those that are part of the separator. -/
def splitSections (contents : List Str) (separator : Str) : List (List Str) :=
  ((contents.map Text.strip).splitOnP fun x => x <:+: separator).filter (· ≠ [])

/-- `[int(v) for v in field.split(':')]` -/
def parseVlans (field : Str) : Option (List Int) :=
  (field.splitOn ':').mapM Text.int

def parseCore (line : Str) : Option CoreSwitch := do
  let fields := line.splitOn ' '
  let name ← fields[0]?
  let dpid ← Text.int (← fields[1]?)
  let vlan ← if fields.length < 3 then some [] else fields[2]?.bind parseVlans
  return ⟨name, dpid, vlan⟩

def parseCores (cfg : List Str) : Option (Dict Str CoreSwitch) :=
  cfg.foldlM (fun s line => (parseCore line).map fun c => Dict.set c.name c s) ∅

def parseEdge (line : Str) : Option EdgeSwitch := do
  let fields := line.splitOn ' '
  let name ← fields[0]?
  let dpid ← Text.int (← fields[1]?)
  let neighbors ← (fields.drop 2).mapM fun n => (n.splitOn ',')[0]?
  return ⟨name, dpid, neighbors⟩

def parseEdges (cfg : List Str) : Option (Dict Str EdgeSwitch) :=
  cfg.foldlM (fun s line => (parseEdge line).map fun e => Dict.set e.name e s) ∅

def parseHost (switch host : Str) : Option Host := do
  let hfields := host.splitOn ','
  let name ← hfields[0]?
  let ip ← hfields[1]?
  let eth ← hfields[2]?
  let vlans ← hfields[3]?.bind parseVlans
  return ⟨name, ip, eth, switch, vlans⟩

def parseHosts (cfg : List Str) : Option (Dict Str Host) :=
  cfg.foldlM (fun h line => do
    let fields := line.splitOn ' '
    let switch ← fields[0]?
    (fields.drop 2).foldlM (fun h host => (parseHost switch host).map fun x => Dict.set x.name x h)
      h) ∅

/-- `self.vlans[v].append(host.name)`, with a new list where there is none. -/
def addMember (vlans : Dict Int (List Str)) (m : Int × Str) : Dict Int (List Str) :=
  Dict.set m.1 ((vlans.lookup m.1).getD [] ++ [m.2]) vlans

def Topology.parse (order : DictOrder) (file : Str) : Option Topology := do
  let contents := splitSections (Text.readlines file) ['*']
  let coreSwitches := order.arrange (← parseCores (← contents[0]?))
  let edgeSwitches := order.arrange (← parseEdges (← contents[1]?))
  let hosts := order.arrange (← parseHosts (← contents[1]?))
  let members := hosts.values.flatMap fun host => host.vlans.map fun v => (v, host.name)
  return {
    hosts
    vlans := members.foldl addMember ∅
    switches := coreSwitches.keys ++ edgeSwitches.keys
    edgeSwitches
    coreSwitches
    ports := setPorts edgeSwitches coreSwitches }

end CloudComputing.Minidc
