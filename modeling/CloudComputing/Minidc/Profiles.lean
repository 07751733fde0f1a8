import CloudComputing.Lib.Dict
import CloudComputing.Lib.Fold
import CloudComputing.Member

/-!
# Tenant profiles

`minidc/profiles.py` with the client of `minidc/roles.py` that reads from several
servers.  A profile is told its hosts once and gives each of them a role.  The
replicated store can be told later, through remote calls, how many of its servers
a client uses.
-/

namespace CloudComputing.Minidc

open Lib

/-- What a profile reads of a host of Mininet. -/
structure Mininet.Host where
  name : Str
  ip : Str
deriving DecidableEq, Repr

/-- `l[:n]` -/
def sliceTo {α : Type} (n : Int) (l : List α) : List α :=
  if n < 0 then l.take (l.length + n).toNat else l.take n.toNat

/-! ## The replicated store -/

structure RepGetClient where
  host : Mininet.Host
  srvs : List Str
  activeReps : Int
deriving DecidableEq, Repr

namespace RepGetClient

def setActiveReps (num : Int) (cl : RepGetClient) : RepGetClient :=
  { cl with activeReps := num }

/-- `active` in `threadStart`. -/
def active (cl : RepGetClient) : List Str :=
  sliceTo cl.activeReps cl.srvs

/-- One iteration of `threadStart`: the servers it asks, and the largest of their times, if `max`
finds one.  `mcget` is how long the thread with this number waits for its server. -/
def iteration {τ : Type} [Max τ] (mcget : Str → Nat → τ) (cl : RepGetClient) :
    List Str × Option τ :=
  let threadtimes := cl.active.mapIdx fun i h => mcget h i
  (cl.active, threadtimes.max?)

end RepGetClient

/-- The second component of an answer: the arguments of its text. -/
inductive Reply where
  /-- `"unexpected client {0}, expect one of {1}"` -/
  | unexpectedClient (client : Str) (expected : List Str)
  /-- `"too many active servers specified. Given: {0}, max: {1}"` -/
  | tooMany (given max : Int)
  /-- `"active servers must be in range (1, {0})"` -/
  | outOfRange (max : Int)
  /-- `"{0} - {1} active servers"` -/
  | active (client : Str) (num : Int)
deriving DecidableEq, Repr

structure RepMemcacheProfile where
  numSrvs : Nat
  numClients : Nat
  activeReps : Int
  ips : List Str
  clients : Dict Str RepGetClient

namespace RepMemcacheProfile

/-- `__init__` -/
def new (numSrvs numClients : Nat) (activeReps : Option Int) : RepMemcacheProfile where
  numSrvs := numSrvs
  numClients := numClients
  activeReps := activeReps.getD numSrvs
  ips := []
  clients := ∅

/-- The turn of the second loop of `create` that makes client number `i`. -/
def addClient (hosts : List Mininet.Host) (p : RepMemcacheProfile) (i : Nat) :
    Option RepMemcacheProfile := do
  let host ← hosts[i + p.numSrvs]?
  return { p with clients := Dict.set host.name ⟨host, p.ips, p.activeReps⟩ p.clients }

def create (hosts : List Mininet.Host) (p : RepMemcacheProfile) : Option RepMemcacheProfile := do
  let ips ← (List.range p.numSrvs).mapM fun i => hosts[i]?.map Mininet.Host.ip
  (List.range p.numClients).foldlM (addClient hosts) { p with ips := ips }

def rpcSetactive (client : Str) (num : Int) (p : RepMemcacheProfile) :
    (Bool × Reply) × RepMemcacheProfile :=
  match p.clients.lookup client with
  | none => ((false, .unexpectedClient client p.clients.keys), p)
  | some cl =>
      if num > p.numSrvs then ((false, .tooMany num p.numSrvs), p)
      else if num = 0 then ((false, .outOfRange p.numSrvs), p)
      else ((true, .active client num),
        { p with clients := Dict.set client (cl.setActiveReps num) p.clients })

/-- The profile after these requests. -/
def after (p : RepMemcacheProfile) (requests : List (Str × Int)) : RepMemcacheProfile :=
  requests.foldl (fun p request => (p.rpcSetactive request.1 request.2).2) p

end RepMemcacheProfile

/-! ## Hosts and roles -/

/-- A role on a host, with the text that the list of roles shows for it. -/
structure App where
  host : Mininet.Host
  role : String
deriving DecidableEq, Repr

/-- The profiles a tenant can have, with the arguments that decide about hosts. -/
inductive Profile where
  | empty (numNodes : Nat)
  | repMemcache (numSrvs numClients : Nat)
  | memcache (numNodes : Nat)
  | vidstream (numNodes : Nat)
  | iperf (numNodes : Nat)
deriving DecidableEq, Repr

namespace Profile

def numNodes : Profile → Nat
  | empty n => n
  | repMemcache numSrvs numClients => numSrvs + numClients
  | memcache n => n
  | vidstream n => n
  | iperf n => n

/-- The roles of `n` hosts from number `first` on. -/
def roles (role : String) (first n : Nat) (hosts : List Mininet.Host) : Option (List App) :=
  (List.range n).mapM fun i => hosts[i + first]?.map fun h => ⟨h, role⟩

/-- The apps that `create` makes.  There is no result when a host is missing. -/
def create (hosts : List Mininet.Host) : Profile → Option (List App)
  | empty _ => some (hosts.map fun h => ⟨h, "Empty"⟩)
  | repMemcache numSrvs numClients => do
      let srvs ← roles "Memcached Server" 0 numSrvs hosts
      let p ← (RepMemcacheProfile.new numSrvs numClients none).create hosts
      return srvs ++ p.clients.values.map fun cl => ⟨cl.host, "Replicated Memcached Client"⟩
  | memcache n => do
      let mcsrv ← hosts[0]?
      let wbsrv ← hosts[1]?
      let clients ← roles "Wget Client" 2 (n - 2) hosts
      return ⟨mcsrv, "Memcached Server"⟩ :: ⟨wbsrv, "PHP Server (Memcached Client)"⟩ :: clients
  | vidstream n => do
      let srv ← hosts[0]?
      let clients ← roles "Chrome Client" 1 (n - 1) hosts
      return ⟨srv, "PHP Server"⟩ :: clients
  | iperf _ => some (hosts.map fun h => ⟨h, "Iperf Client"⟩)

/-- A memcached tenant uses two hosts whatever it is told, a streaming tenant one. -/
def Accepts : Profile → Prop
  | memcache n => 2 ≤ n
  | vidstream n => 1 ≤ n
  | _ => True

end Profile

end CloudComputing.Minidc
