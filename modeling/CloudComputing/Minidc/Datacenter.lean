import CloudComputing.Lib.Text
import CloudComputing.Minidc.Fattree

/-!
# Tenants and the configuration file

`minidc/dc.py` and `minidc/placement.py`: every tenant gets a VLAN of its own,
and `writeConfig` writes down the emulated network for the controller.
-/

namespace CloudComputing.Minidc

open Lib

/-! ## Tenants -/

/-- `AppProfile`, as far as the data center reads it. -/
structure AppProfile where
  numNodes : Nat
  vlan : Int := -1
deriving DecidableEq, Repr

inductive Placement
  | sequential
  | random
  | parity
  | inorder
deriving DecidableEq, Repr

/-- The indices of the hosts in the order they are given away.  The random placement raises: its
module does not import `random`. -/
def getPlacement (placement : Placement) (numHosts : Nat) : Option (List Nat) :=
  let r := List.range numHosts
  match placement with
  | .sequential => some r
  | .random => none
  | .parity => some (r.filter (· % 2 = 1) ++ r.filter (· % 2 = 0))
  | .inorder => some ((List.range (numHosts / 2)).flatMap fun i => [i, i + numHosts / 2])

structure Datacenter where
  vlans : Nat
  tenants : List AppProfile
  vlanMap : Dict Str Int

namespace Datacenter

def new : Datacenter :=
  ⟨0, [], ∅⟩

def getVlan (dc : Datacenter) (hostname : Str) : Str :=
  match dc.vlanMap.lookup hostname with
  | some vlan => Decimal.toStr vlan
  | none => [':'].intercalate ((List.range dc.vlans).map fun i : Nat => Decimal.toStr i)

def assign (hosts : List Str) (tenant : AppProfile) (indices : List Nat) (dc : Datacenter) :
    Option Datacenter := do
  let h ← indices.mapM fun x => hosts[x]?
  return { dc with vlanMap := h.foldl (fun vlanMap i => Dict.set i tenant.vlan vlanMap) dc.vlanMap }

/-- The body of the first loop of `setup`. -/
def addTenant (dc : Datacenter) (t : AppProfile) : Datacenter :=
  { dc with vlans := dc.vlans + 1, tenants := dc.tenants ++ [{ t with vlan := dc.vlans }] }

/-- The body of the second loop, with its counter. -/
def assignNext (hosts : List Str) (p : List Nat) (s : Datacenter × Nat) (t : AppProfile) :
    Option (Datacenter × Nat) := do
  let dc ← s.1.assign hosts t ((p.drop s.2).take t.numNodes)
  return (dc, s.2 + t.numNodes)

def setup (placement : Placement) (hosts : List Str) (tenants : List AppProfile)
    (dc : Datacenter) : Option Datacenter := do
  let dc := tenants.foldl addTenant dc
  let p ← getPlacement placement hosts.length
  let (dc, _) ← dc.tenants.foldlM (assignNext hosts p) (dc, 0)
  return dc

/-- The data centers that calls of `setup` can make. -/
inductive SetUp : Datacenter → Prop
  | new : SetUp new
  | setup {dc dc' : Datacenter} (placement : Placement) (hosts : List Str)
      (tenants : List AppProfile) : SetUp dc → dc.setup placement hosts tenants = some dc' →
      SetUp dc'

/-- Every tenant has a VLAN below their number, and so has every host that is given away. -/
structure Numbered (dc : Datacenter) : Prop where
  count : dc.tenants.length = dc.vlans
  tenant : ∀ t ∈ dc.tenants, 0 ≤ t.vlan ∧ t.vlan < dc.vlans
  host : ∀ h vlan, dc.vlanMap.lookup h = some vlan → 0 ≤ vlan ∧ vlan < dc.vlans

theorem Numbered.addTenant {dc : Datacenter} (h : Numbered dc) (t : AppProfile) :
    Numbered (dc.addTenant t) := by
  refine ⟨?_, fun t' ht' => ?_, fun name vlan hvlan => ?_⟩
  · simp [Datacenter.addTenant, h.count]
  · simp only [Datacenter.addTenant, List.mem_append, List.mem_singleton] at ht' ⊢
    rcases ht' with hold | rfl
    · have hbound := h.tenant t' hold
      omega
    · simp
  · have hbound := h.host name vlan hvlan
    simp only [Datacenter.addTenant]
    omega

theorem Numbered.assign {dc dc' : Datacenter} {hosts : List Str} {t : AppProfile}
    {indices : List Nat} (h : Numbered dc) (ht : t ∈ dc.tenants)
    (hassign : dc.assign hosts t indices = some dc') :
    Numbered dc' ∧ dc'.tenants = dc.tenants := by
  rw [Datacenter.assign, Option.bind_eq_bind, Option.bind_eq_some_iff] at hassign
  obtain ⟨names, -, hassign⟩ := hassign
  obtain rfl := Option.some.inj hassign
  refine ⟨⟨h.count, h.tenant, ?_⟩, rfl⟩
  apply List.foldlRecOn names (motive := fun vlanMap : Dict Str Int =>
    ∀ name vlan, vlanMap.lookup name = some vlan → 0 ≤ vlan ∧ vlan < dc.vlans) _ h.host
  intro vlanMap hmap i _ name vlan hvlan
  rw [Dict.lookup_set] at hvlan
  by_cases hi : name = i
  · rw [if_pos hi] at hvlan
    obtain rfl := Option.some.inj hvlan
    exact h.tenant t ht
  · rw [if_neg hi] at hvlan
    exact hmap name vlan hvlan

theorem Numbered.setup {dc dc' : Datacenter} {placement : Placement} {hosts : List Str}
    {tenants : List AppProfile} (h : Numbered dc)
    (hsetup : dc.setup placement hosts tenants = some dc') : Numbered dc' := by
  have hadded : Numbered (tenants.foldl Datacenter.addTenant dc) :=
    List.foldlRecOn tenants _ h fun dc hdc t _ => hdc.addTenant t
  simp only [Datacenter.setup, Option.bind_eq_bind, Option.bind_eq_some_iff] at hsetup
  obtain ⟨p, -, ⟨last, index⟩, hloop, hlast⟩ := hsetup
  obtain rfl := Option.some.inj hlast
  have hinv := foldlM_invariant (P := fun rest (s : Datacenter × Nat) =>
    Numbered s.1 ∧ ∀ t ∈ rest, t ∈ s.1.tenants) ?_ ⟨hadded, fun t ht => ht⟩ hloop
  · exact hinv.1
  · rintro t rest s s' ⟨hs, hrest⟩ hnext
    rw [assignNext, Option.bind_eq_bind, Option.bind_eq_some_iff] at hnext
    obtain ⟨next, hassign, hnext⟩ := hnext
    obtain rfl := Option.some.inj hnext
    obtain ⟨hnumbered, htenants⟩ := hs.assign (hrest t List.mem_cons_self) hassign
    refine ⟨hnumbered, fun t' ht' => ?_⟩
    rw [htenants]
    exact hrest t' (List.mem_cons_of_mem t ht')

theorem SetUp.numbered {dc : Datacenter} (h : SetUp dc) : Numbered dc := by
  induction h with
  | new => exact ⟨rfl, by simp [Datacenter.new], by simp [Datacenter.new]⟩
  | setup placement hosts tenants _ hsetup ih => exact ih.setup hsetup

theorem Numbered.vlans_pos {dc : Datacenter} (h : Numbered dc) (htenants : dc.tenants ≠ []) :
    0 < dc.vlans := by
  rw [← h.count]
  exact List.length_pos_iff.mpr htenants

end Datacenter

/-! ## The configuration file -/

/-- What Mininet knows of its nodes: the dpid of a switch, the addresses of a host. -/
structure Net where
  dpid : Str → Int
  ip : Str → Str
  mac : Str → Str

namespace Datacenter

variable (net : Net) (topo : FattreeTopology) (dc : Datacenter)

/-- The VLANs of core switch number `coreNum`. -/
def vlansOf (numCores coreNum : Nat) : List Nat :=
  (List.range dc.vlans).filter fun vid => vid % numCores = coreNum

/-- `"{0} {1} {2}\n"` -/
def format (name : Str) (dpid : Int) (rest : Str) : Str :=
  name ++ [' '] ++ Decimal.toStr dpid ++ [' '] ++ rest ++ ['\n']

def coreLine (c : Str × Nat) : Str :=
  let v := dc.vlansOf topo.coreSwitches.length c.2
  format c.1 (net.dpid c.1) ([':'].intercalate (v.map fun i : Nat => Decimal.toStr i))

/-- `"%s,%s,%s,%s"` -/
def hostField (x : Str) : Str :=
  x ++ [','] ++ net.ip x ++ [','] ++ net.mac x ++ [','] ++ dc.getVlan x

def edgeLine (e : Str) : Option Str := do
  let linked ← (← topo.links.lookup e).mapM fun x => do return (x, ← topo.isSwitch.lookup x)
  let adjacent := (linked.filter fun x => !x.2).map Prod.fst
  return format e (net.dpid e) ([' '].intercalate (adjacent.map (dc.hostField net)))

def writeConfig : Option Str := do
  let cores := topo.coreSwitches.zipIdx.map (dc.coreLine net topo)
  let edges ← topo.edgeSwitches.mapM (dc.edgeLine net topo)
  let hosts := topo.hosts.map (· ++ ['\n'])
  return cores.flatten ++ ['*', '\n'] ++ edges.flatten ++ ['*', '\n'] ++ hosts.flatten

end Datacenter

end CloudComputing.Minidc
