import Mathlib.Data.List.Perm.Subperm
import Mathlib.Logic.Function.Basic
import CloudComputing.Lib.FlowMods
import CloudComputing.Minidc.Datapaths
import CloudComputing.Minidc.Network

/-!
# The controller and its switches

`controller/controller.py` on top of the parts of ryu that it depends on. The
handlers of the controller, those of `DPSet`, the remote calls and the polls of
the monitor run in four threads. A thread gives way whenever it sends a message,
so its messages mix with what the others do; a switch carries out the messages
of its connection in the order in which they were sent.
-/

namespace CloudComputing.Minidc

open Lib

/-! ## The policies -/

/-- The keys of `self.policies`. -/
inductive PolicyName
  | default
  | static
  | adaptive
deriving DecidableEq, Repr

namespace PolicyName

def str : PolicyName → Str
  | .default => "default".toList
  | .static => "static".toList
  | .adaptive => "adaptive".toList

/-- `policy in self.policies.keys()` -/
def ofStr (policy : Str) : Option PolicyName :=
  [PolicyName.default, .static, .adaptive].find? fun name => name.str = policy

end PolicyName

structure Policies where
  default : RoutingTable
  static : RoutingTable
  adaptive : AdaptivePolicy

namespace Policies

def init (topo : Topology) : Option Policies := do
  return ⟨← DefaultPolicy.build topo, ← StaticPolicy.build topo, ← AdaptivePolicy.init topo⟩

/-- `self.policies[policy].routingTable`; to read that of the adaptive policy changes it. -/
def routingTable (topo : Topology) (hostBw : Dict Str HostBw) (p : Policies) :
    PolicyName → Option (Policies × RoutingTable)
  | .default => some (p, p.default)
  | .static => some (p, p.static)
  | .adaptive => (p.adaptive.routingTable topo hostBw).map fun read =>
      ({ p with adaptive := read.1 }, read.2)

end Policies

/-! ## The state -/

/-- A connection of a switch, and which events of it have been handled. -/
structure Connection where
  dpid : Int
  featured : Bool
  main : Bool
  dead : Bool
deriving DecidableEq, Repr

abbrev Message := FlowTable.Mod OFPMatch (List Output)

/-- Flow entries on their way out, each with its connection. -/
abbrev Outgoing := List (Nat × FlowEntry OFPMatch (List Output))

/-- What the thread of the remote calls is at. -/
inductive Rpc
  | idle
  /-- `rpcClear`, the dictionary having had this size; with `applyPolicy` to follow or not. -/
  | clearing (size : Nat) (todo : List Int) (next : Option PolicyName)
  /-- `applyPolicy` -/
  | applying (todo : Outgoing) (policy : PolicyName)
deriving DecidableEq

def Rpc.outgoing : Rpc → Outgoing
  | .applying todo _ => todo
  | _ => []

structure System where
  policies : Policies
  curpolicy : PolicyName
  monitor : BandwidthMonitor
  /-- All connections there have been, by number. -/
  conns : List Connection
  dps : Dict Int Nat
  /-- What `switchFeaturesHandler` has still to send. -/
  handler : Outgoing
  rpc : Rpc
  /-- The answers of the remote calls. -/
  replies : List (Bool × Str)
  /-- What has been sent over a connection and not carried out. -/
  queue : Nat → List Message
  /-- The connection that a switch has. -/
  link : Int → Option Nat
  table : Int → List (FlowEntry OFPMatch (List Output))

namespace System

def init (topo : Topology) : Option System := do
  return {
    policies := ← Policies.init topo
    curpolicy := .default
    monitor := .init topo
    conns := []
    dps := ∅
    handler := []
    rpc := .idle
    replies := []
    queue := fun _ => []
    link := fun _ => none
    table := fun _ => [] }

/-! ## The steps -/

/-- The messages that a table holds for the switch with this connection. -/
def program (table : RoutingTable) (dpid : Int) (conn : Nat) : Outgoing :=
  ((table.lookup dpid).getD []).map fun flow => (conn, flow.entry)

/-- `dp.send_msg(mod)` -/
def send (conn : Nat) (mod : Message) (s : System) : System :=
  { s with queue := Function.update s.queue conn (s.queue conn ++ [mod]) }

def reply (answer : Bool × Str) (s : System) : System :=
  { s with rpc := .idle, replies := s.replies ++ [answer] }

/-- `switchFeaturesHandler`, up to its first message. -/
def switchFeatures (topo : Topology) (conn : Nat) (s : System) : Option System := do
  let datapath ← s.conns[conn]?
  let (policies, rt) ← s.policies.routingTable topo s.monitor.bwstats.hostBw s.curpolicy
  if s.handler = [] ∧ ¬ datapath.featured then
    return { s with
      policies
      conns := s.conns.set conn { datapath with featured := true }
      handler := program rt datapath.dpid conn }
  else none

/-- `rpcLoadPolicy`, up to its first message. -/
def rpcLoadPolicy (policy : Str) (s : System) : System :=
  match PolicyName.ofStr policy with
  | none => s.reply (false, "Unexpected policy ".toList ++ policy)
  | some name =>
      if name = s.curpolicy then
        s.reply (true, "Policy ".toList ++ policy ++ " already loaded".toList)
      else { s with rpc := .clearing s.dps.keys.length s.dps.keys (some name) }

def rpcClear (s : System) : System :=
  { s with rpc := .clearing s.dps.keys.length s.dps.keys none }

def rpcCurrentPolicy (s : System) : System :=
  s.reply (true, s.curpolicy.str)

/-- `applyPolicy`, up to its first message. -/
def applyPolicy (topo : Topology) (policy : PolicyName) (s : System) : Option System := do
  let (policies, rt) ← s.policies.routingTable topo s.monitor.bwstats.hostBw policy
  return { s with
    policies
    curpolicy := policy
    rpc := .applying (s.dps.entries.flatMap fun dp => program rt dp.1 dp.2) policy }

/-- A remote call goes on to its next message. A dictionary whose size has changed raises. The
keys are those of the start: a key that came in after another was removed, so that the size is the
same, is never visited here, while the iterator of the source may come across it. -/
def rpcStep (topo : Topology) (s : System) : Option System :=
  match s.rpc with
  | .idle => none
  | .clearing size todo next =>
      if s.dps.keys.length ≠ size then some { s with rpc := .idle }
      else
        match todo, next with
        | [], none => some (s.reply (true, "Flow tables cleared".toList))
        | [], some policy => s.applyPolicy topo policy
        | dpid :: todo, next =>
            match s.dps.lookup dpid with
            | none => some { s with rpc := .clearing size todo next }
            | some conn => some (send conn .clear { s with rpc := .clearing size todo next })
  | .applying [] policy =>
      some (s.reply (true, "Policy ".toList ++ policy.str ++ " loaded".toList))
  | .applying ((conn, entry) :: todo) policy =>
      some (send conn (.add entry) { s with rpc := .applying todo policy })

/-- The next message of `switchFeaturesHandler`. -/
def handlerStep (s : System) : Option System :=
  match s.handler with
  | [] => none
  | (conn, entry) :: rest => some (send conn (.add entry) { s with handler := rest })

def stateChange (e : StateChange) (s : System) : Option System := do
  let datapath ← s.conns[e.conn]?
  match e with
  | .main conn =>
      if ¬ datapath.main ∧ ¬ datapath.dead then
        return { s with
          dps := DPSet.register datapath.dpid conn s.dps
          conns := s.conns.set conn { datapath with main := true } }
      else none
  | .dead conn =>
      if ¬ datapath.dead then
        return { s with
          dps := ← DPSet.unregister datapath.dpid conn s.dps
          conns := s.conns.set conn { datapath with dead := true } }
      else none

/-- A switch opens a connection, in place of the one it had. -/
def connect (dpid : Int) (s : System) : System :=
  { s with
    conns := s.conns ++ [⟨dpid, false, false, false⟩]
    link := Function.update s.link dpid (some s.conns.length) }

/-- A switch finds its connection closed. -/
def disconnect (dpid : Int) (s : System) : System :=
  { s with link := Function.update s.link dpid none }

/-- A switch carries out the next message of its connection. -/
def take (dpid : Int) (s : System) : Option System := do
  let conn ← s.link dpid
  match s.queue conn with
  | [] => none
  | mod :: rest =>
      return { s with
        table := Function.update s.table dpid (mod.apply (s.table dpid))
        queue := Function.update s.queue conn rest }

/-- The dictionaries may be gone through in another order. -/
def rehash (dps : Dict Int Nat) (adaptive : AdaptivePolicy) (s : System) : Option System :=
  if dps.entries.Perm s.dps.entries ∧
      adaptive.assignments.entries.Perm s.policies.adaptive.assignments.entries ∧
      adaptive.utilization.entries.Perm s.policies.adaptive.utilization.entries then
    some { s with dps, policies := { s.policies with adaptive } }
  else none

inductive Action
  | connect (dpid : Int)
  | disconnect (dpid : Int)
  | take (dpid : Int)
  | stateChange (e : StateChange)
  | switchFeatures (conn : Nat)
  | handlerStep
  | monitor (e : BandwidthMonitor.Event)
  | load (policy : Str)
  | clear
  | current
  | rpcStep
  | rehash (dps : Dict Int Nat) (adaptive : AdaptivePolicy)

/-- The handlers of the controller take turns, and so do the remote calls; the loop of `monitor` has
a thread of its own. -/
def step (topo : Topology) (s : System) : Action → Option System
  | .connect dpid => some (s.connect dpid)
  | .disconnect dpid => some (s.disconnect dpid)
  | .take dpid => s.take dpid
  | .stateChange e => s.stateChange e
  | .switchFeatures conn => s.switchFeatures topo conn
  | .handlerStep => s.handlerStep
  | .monitor e =>
      if s.handler = [] ∨ e matches .poll then
        (s.monitor.handle topo e).map fun monitor => { s with monitor }
      else none
  | .load policy => if s.rpc matches .idle then some (s.rpcLoadPolicy policy) else none
  | .clear => if s.rpc matches .idle then some s.rpcClear else none
  | .current => if s.rpc matches .idle then some s.rpcCurrentPolicy else none
  | .rpcStep => s.rpcStep topo
  | .rehash dps adaptive => s.rehash dps adaptive

end System

end CloudComputing.Minidc
