import CloudComputing.Minidc.Datacenter
import CloudComputing.Minidc.Profiles

/-!
# Which tenant gets which hosts

`Datacenter.setup` with the calls of `create` that it makes.  A placement lists
the hosts in some order and every tenant is handed the next piece of that list.
The placement `inorder` takes one host from each half and forgets the last host
of an odd number.
-/

namespace CloudComputing.Minidc

open Lib

namespace Profile

variable {hosts : List Mininet.Host} {t : Profile}

/-- What `AppProfile.__init__` makes of it. -/
def appProfile (t : Profile) : AppProfile where
  numNodes := t.numNodes

/-! ## When `create` has hosts enough -/

theorem host_at {i : Nat} (h : i < hosts.length) : hosts[i]? = some (hosts.getD i ⟨[], []⟩) := by
  rw [List.getD_eq_getElem?_getD, List.getElem?_eq_getElem h, Option.getD_some]

theorem roles_isSome (role : String) {first n : Nat} (h : first + n ≤ hosts.length) :
    (roles role first n hosts).isSome = true := by
  have hall : ∀ i ∈ List.range n, hosts[i + first]?.map (fun h => (⟨h, role⟩ : App)) =
      some ⟨hosts.getD (i + first) ⟨[], []⟩, role⟩ := by
    intro i hi
    have hlt : i + first < hosts.length := by
      have := List.mem_range.mp hi
      omega
    rw [host_at hlt, Option.map_some]
  rw [roles, mapM_eq_some_map hall]
  rfl

theorem repMemcache_isSome {numSrvs numClients : Nat} (h : numSrvs + numClients ≤ hosts.length) :
    ((RepMemcacheProfile.new numSrvs numClients none).create hosts).isSome = true := by
  have hall : ∀ i ∈ List.range numSrvs, hosts[i]?.map Mininet.Host.ip =
      some (hosts.getD i ⟨[], []⟩).ip := by
    intro i hi
    have hlt : i < hosts.length := by
      have := List.mem_range.mp hi
      omega
    rw [host_at hlt, Option.map_some]
  have hips := mapM_eq_some_map hall
  obtain ⟨p, hp, -⟩ := foldlM_total (f := RepMemcacheProfile.addClient hosts)
    (P := fun rest p => p.numSrvs = numSrvs ∧ ∀ i ∈ rest, i < numClients)
    (l := List.range numClients)
    (s := { RepMemcacheProfile.new numSrvs numClients none with
      ips := (List.range numSrvs).map fun i => (hosts.getD i ⟨[], []⟩).ip })
    (fun i rest p hP => by
      have hlt : i + p.numSrvs < hosts.length := by
        have := hP.2 i List.mem_cons_self
        have := hP.1
        omega
      rw [RepMemcacheProfile.addClient, List.getElem?_eq_getElem hlt]
      exact ⟨_, rfl, hP.1, fun j hj => hP.2 j (List.mem_cons_of_mem i hj)⟩)
    ⟨rfl, fun i hi => List.mem_range.mp hi⟩
  have hcreate : (RepMemcacheProfile.new numSrvs numClients none).create hosts = some p := by
    rw [RepMemcacheProfile.create]
    change ((List.range numSrvs).mapM fun i => hosts[i]?.map Mininet.Host.ip).bind _ = _
    rw [hips]
    exact hp
  rw [hcreate]
  rfl

/-- With the number of hosts it asks for, a profile is created if it asks for enough. -/
theorem create_isSome_iff (h : hosts.length = t.numNodes) :
    (t.create hosts).isSome = true ↔ t.Accepts := by
  cases t with
  | empty n => simp [create, Accepts]
  | iperf n => simp [create, Accepts]
  | repMemcache numSrvs numClients =>
      have hsum : hosts.length = numSrvs + numClients := h
      have hsrvs : 0 + numSrvs ≤ hosts.length := by omega
      obtain ⟨srvs, hsrvs⟩ := Option.isSome_iff_exists.mp (roles_isSome "Memcached Server" hsrvs)
      obtain ⟨p, hp⟩ := Option.isSome_iff_exists.mp (repMemcache_isSome hsum.ge)
      simp [create, hsrvs, hp, Accepts]
  | memcache n =>
      have hn : hosts.length = n := h
      by_cases htwo : 2 ≤ n
      · have hrest : 2 + (n - 2) ≤ hosts.length := by omega
        obtain ⟨clients, hclients⟩ := Option.isSome_iff_exists.mp (roles_isSome "Wget Client" hrest)
        have h₀ := List.getElem?_eq_getElem (l := hosts) (i := 0) (by omega)
        have h₁ := List.getElem?_eq_getElem (l := hosts) (i := 1) (by omega)
        simp [create, hclients, h₀, h₁, Accepts, htwo]
      · have h₁ : hosts[1]? = none := List.getElem?_eq_none (by omega)
        simp [create, h₁, Accepts, htwo]
  | vidstream n =>
      have hn : hosts.length = n := h
      by_cases hone : 1 ≤ n
      · have hrest : 1 + (n - 1) ≤ hosts.length := by omega
        obtain ⟨clients, hclients⟩ :=
          Option.isSome_iff_exists.mp (roles_isSome "Chrome Client" hrest)
        have h₀ := List.getElem?_eq_getElem (l := hosts) (i := 0) (by omega)
        simp [create, hclients, h₀, Accepts, hone]
      · have h₀ : hosts[0]? = none := List.getElem?_eq_none (by omega)
        simp [create, h₀, Accepts, hone]

end Profile

/-! ## The order of the hosts -/

/-- Every index at most once, and how many of them there are. -/
theorem getPlacement_spec {placement : Placement} (hne : placement ≠ .random) (n : Nat) :
    ∃ p, getPlacement placement n = some p ∧ p.Nodup ∧ (∀ i ∈ p, i < n) ∧
      p.length = if placement = .inorder then 2 * (n / 2) else n := by
  cases placement with
  | random => exact absurd rfl hne
  | sequential =>
      refine ⟨_, rfl, List.nodup_range, fun i hi => List.mem_range.mp hi, ?_⟩
      simp
  | parity =>
      have hperm : ((List.range n).filter (· % 2 = 1) ++ (List.range n).filter (· % 2 = 0)).Perm
          (List.range n) := by
        have hsplit := List.filter_append_perm (fun i => decide (i % 2 = 1)) (List.range n)
        refine List.Perm.trans (List.Perm.of_eq ?_) hsplit
        congr 1
        apply List.filter_congr
        intro i _
        rcases Nat.mod_two_eq_zero_or_one i with h | h
        · simp [h]
        · simp [h]
      refine ⟨_, rfl, hperm.nodup_iff.mpr List.nodup_range, fun i hi => ?_, ?_⟩
      · exact List.mem_range.mp (hperm.mem_iff.mp hi)
      · simpa using hperm.length_eq
  | inorder =>
      refine ⟨_, rfl, ?_, fun i hi => ?_, ?_⟩
      · rw [List.nodup_flatMap]
        refine ⟨fun i hi => ?_, ?_⟩
        · have hlt := List.mem_range.mp hi
          simp
          omega
        · refine List.Pairwise.imp_of_mem ?_ List.nodup_range
          intro i j hi hj hij
          have hi := List.mem_range.mp hi
          have hj := List.mem_range.mp hj
          simp [Function.onFun, List.disjoint_left]
          omega
      · obtain ⟨j, hj, hi⟩ := List.mem_flatMap.mp hi
        have hlt := List.mem_range.mp hj
        simp only [List.mem_cons, List.not_mem_nil, or_false] at hi
        omega
      · simp [List.length_flatMap]
        omega

namespace Datacenter

/-! ## `setup` -/

/-- A call of `tenant.create`. -/
structure Creation where
  profile : Profile
  tenant : AppProfile
  hosts : List Mininet.Host

/-- The state of the second loop of `setup`, with the calls made so far. -/
structure Assigning where
  dc : Datacenter
  index : Nat
  created : List Creation

/-- The body of that loop: `assign` hands the hosts to the tenant before it writes down the
VLANs. -/
def createNext (hosts : List Mininet.Host) (p : List Nat) (s : Assigning)
    (t : Profile × AppProfile) : Option Assigning := do
  let h ← ((p.drop s.index).take t.2.numNodes).mapM fun x => hosts[x]?
  let _ ← t.1.create h
  let (dc, index) ← assignNext (hosts.map Mininet.Host.name) p (s.dc, s.index) t.2
  return ⟨dc, index, s.created ++ [⟨t.1, t.2, h⟩]⟩

/-- `setup` of a new data center. -/
def setupTenants (placement : Placement) (hosts : List Mininet.Host) (tenants : List Profile) :
    Option Assigning := do
  let dc := (tenants.map Profile.appProfile).foldl addTenant new
  let p ← getPlacement placement hosts.length
  (tenants.zip dc.tenants).foldlM (createNext hosts p) ⟨dc, 0, []⟩

/-- What `setup` is for. -/
structure HandsOut (hosts : List Mininet.Host) (tenants : List Profile) (s : Assigning) : Prop where
  tenants : s.created.map Creation.profile = tenants
  exact : ∀ c ∈ s.created, c.hosts.length = c.profile.numNodes
  known : ∀ c ∈ s.created, ∀ h ∈ c.hosts, h ∈ hosts
  disjoint : (s.created.flatMap Creation.hosts).Nodup
  vlans : (s.created.map fun c => c.tenant.vlan).Nodup
  vlanMap : ∀ c ∈ s.created, ∀ h ∈ c.hosts, s.dc.vlanMap.lookup h.name = some c.tenant.vlan

variable {hosts placed : List Mininet.Host} {tenants : List Profile} {p : List Nat}
  {s s' : Assigning} {t : Profile × AppProfile} {rest : List (Profile × AppProfile)}

theorem foldl_addTenant (tenants : List AppProfile) : tenants.foldl addTenant new =
    ⟨tenants.length, tenants.zipIdx.map fun t => { t.1 with vlan := t.2 }, ∅⟩ := by
  induction tenants using List.reverseRecOn with
  | nil => rfl
  | append_singleton tenants t ih =>
      rw [List.foldl_append, ih, List.zipIdx_append, List.map_append]
      simp [addTenant]

/-- A loop that also creates the apps does to the data center what `setup` does. -/
theorem setup_of_createNext (h : rest.foldlM (createNext hosts p) s = some s') :
    (rest.map Prod.snd).foldlM (assignNext (hosts.map Mininet.Host.name) p) (s.dc, s.index) =
      some (s'.dc, s'.index) := by
  induction rest generalizing s with
  | nil =>
      obtain rfl : s = s' := by simpa using h
      rfl
  | cons t rest ih =>
      obtain ⟨next, hnext, hrest⟩ := foldlM_cons_some h
      simp only [createNext, Option.bind_eq_bind, Option.bind_eq_some_iff] at hnext
      obtain ⟨hs, -, apps, -, ⟨dc, index⟩, hassign, hpure⟩ := hnext
      obtain rfl := Option.some.inj hpure
      rw [List.map_cons, List.foldlM_cons, hassign]
      exact ih hrest

theorem setup_of_setupTenants {placement : Placement}
    (h : setupTenants placement hosts tenants = some s) :
    setup placement (hosts.map Mininet.Host.name) (tenants.map Profile.appProfile) new =
      some s.dc := by
  obtain ⟨p, hp, hloop⟩ := Option.bind_eq_some_iff.mp h
  have htenants : (tenants.zip ((tenants.map Profile.appProfile).foldl addTenant new).tenants).map
      Prod.snd = ((tenants.map Profile.appProfile).foldl addTenant new).tenants := by
    rw [List.map_snd_zip]
    rw [foldl_addTenant]
    simp
  have hsame := setup_of_createNext hloop
  rw [htenants] at hsame
  simp only [setup, List.length_map, hp, Option.bind_eq_bind, Option.bind_some]
  rw [hsame]
  rfl

/-! ## The loop over the tenants -/

def next (placed : List Mininet.Host) (s : Assigning) (t : Profile × AppProfile) :
    List Mininet.Host :=
  (placed.drop s.index).take t.2.numNodes

def assigned (s : Assigning) (t : Profile × AppProfile) (h : List Mininet.Host) : Assigning where
  dc := { s.dc with
    vlanMap := h.foldl (fun vlanMap i => Dict.set i.name t.2.vlan vlanMap) s.dc.vlanMap }
  index := s.index + t.2.numNodes
  created := s.created ++ [⟨t.1, t.2, h⟩]

theorem createNext_eq (hplaced : p.map (fun x => hosts[x]?) = placed.map some) :
    createNext hosts p s t =
      (t.1.create (next placed s t)).map fun _ => assigned s t (next placed s t) := by
  have hpick : ((p.drop s.index).take t.2.numNodes).mapM (fun x => hosts[x]?) =
      some (next placed s t) := by
    rw [mapM_eq_some_iff, List.map_take, List.map_drop, hplaced, next, List.map_take,
      List.map_drop]
  have hnames : ((p.drop s.index).take t.2.numNodes).mapM
      (fun x => (hosts.map Mininet.Host.name)[x]?) =
        some ((next placed s t).map Mininet.Host.name) := by
    have hmap := congrArg (List.map (Option.map Mininet.Host.name)) (mapM_eq_some_iff.mp hpick)
    rw [mapM_eq_some_iff]
    simpa [List.map_map, Function.comp_def] using hmap
  simp only [createNext, hpick, Option.bind_eq_bind, Option.bind_some, assignNext, assign, hnames,
    Option.pure_def, List.foldl_map]
  cases t.1.create (next placed s t) with
  | none => rfl
  | some apps => rfl

/-- Some tenants have their hosts, the rest is still to come. -/
structure Handing (placed : List Mininet.Host) (tenants : List (Profile × AppProfile))
    (rest : List (Profile × AppProfile)) (s : Assigning) : Prop where
  tenants : s.created.map (fun c => (c.profile, c.tenant)) ++ rest = tenants
  handed : s.created.flatMap Creation.hosts = placed.take s.index
  index : s.index = (s.created.map fun c => c.profile.numNodes).sum
  exact : s.index ≤ placed.length → ∀ c ∈ s.created, c.hosts.length = c.profile.numNodes
  apps : ∀ c ∈ s.created, (c.profile.create c.hosts).isSome = true
  vlanMap : ∀ c ∈ s.created, ∀ h ∈ c.hosts, s.dc.vlanMap.lookup h.name = some c.tenant.vlan

variable {all : List (Profile × AppProfile)}

theorem Handing.name_ne (h : Handing placed all rest s)
    (hnames : (placed.map Mininet.Host.name).Nodup) {c : Creation} (hc : c ∈ s.created)
    {x : Mininet.Host} (hx : x ∈ c.hosts) :
    x.name ∉ (next placed s t).map Mininet.Host.name := by
  have hbefore : x ∈ placed.take s.index := by
    rw [← h.handed]
    exact List.mem_flatMap.mpr ⟨c, hc, hx⟩
  intro hafter
  obtain ⟨y, hy, hname⟩ := List.mem_map.mp hafter
  have hsplit : placed.map Mininet.Host.name = (placed.take s.index).map Mininet.Host.name ++
      (placed.drop s.index).map Mininet.Host.name := by
    rw [← List.map_append, List.take_append_drop]
  rw [hsplit] at hnames
  exact (List.nodup_append.mp hnames).2.2 x.name (List.mem_map_of_mem hbefore) y.name
    (List.mem_map_of_mem (List.mem_of_mem_take hy)) hname.symm

theorem Handing.turn (h : Handing placed all (t :: rest) s)
    (hnames : (placed.map Mininet.Host.name).Nodup) (ht : t.2.numNodes = t.1.numNodes)
    (hcreate : (t.1.create (next placed s t)).isSome = true) :
    Handing placed all rest (assigned s t (next placed s t)) := by
  have hnext : ((next placed s t).map Mininet.Host.name).Nodup :=
    hnames.sublist (((List.take_sublist _ _).trans (List.drop_sublist _ _)).map _)
  refine ⟨?_, ?_, ?_, fun hle c hc => ?_, fun c hc => ?_, fun c hc x hx => ?_⟩
  · rw [← h.tenants]
    simp [assigned]
  · simp only [assigned, List.flatMap_append, h.handed, List.flatMap_singleton]
    rw [next, ← List.take_add]
  · simp only [assigned, List.map_append, List.sum_append, ← h.index]
    simp [ht]
  · simp only [assigned] at hle
    rcases List.mem_append.mp hc with hold | hnew
    · exact h.exact (by omega) c hold
    · obtain rfl := List.mem_singleton.mp hnew
      change (next placed s t).length = t.1.numNodes
      rw [next, List.length_take, List.length_drop, ← ht]
      omega
  · rcases List.mem_append.mp hc with hold | hnew
    · exact h.apps c hold
    · obtain rfl := List.mem_singleton.mp hnew
      exact hcreate
  · rcases List.mem_append.mp hc with hold | hnew
    · have hkept := h.vlanMap c hold x hx
      rw [← hkept]
      exact Dict.lookup_foldl_set_of_not_mem (h.name_ne hnames hold hx)
    · obtain rfl := List.mem_singleton.mp hnew
      exact Dict.lookup_foldl_set hnext hx

/-! ## The whole call -/

def numbered (tenants : List Profile) : List (Profile × AppProfile) :=
  tenants.zip ((tenants.map Profile.appProfile).foldl addTenant new).tenants

theorem numbered_eq (tenants : List Profile) :
    numbered tenants = tenants.zipIdx.map fun t => (t.1, { t.1.appProfile with vlan := t.2 }) := by
  rw [numbered, foldl_addTenant]
  apply List.ext_getElem
  · simp
  · intro i h₁ h₂
    simp [Profile.appProfile]

theorem numNodes_numbered (ht : t ∈ numbered tenants) : t.2.numNodes = t.1.numNodes := by
  rw [numbered_eq] at ht
  obtain ⟨x, -, rfl⟩ := List.mem_map.mp ht
  rfl

theorem map_fst_numbered (tenants : List Profile) : (numbered tenants).map Prod.fst = tenants := by
  rw [numbered_eq, List.map_map]
  exact List.zipIdx_map_fst 0 tenants

theorem nodup_vlans (tenants : List Profile) :
    ((numbered tenants).map fun t => t.2.vlan).Nodup := by
  have hvlans : (numbered tenants).map (fun t => t.2.vlan) =
      (List.range tenants.length).map fun i : Nat => (i : Int) := by
    rw [numbered_eq, List.map_map]
    apply List.ext_getElem
    · simp
    · intro i h₁ h₂
      simp
  rw [hvlans]
  exact List.nodup_range.map Nat.cast_injective

theorem handing_start (placed : List Mininet.Host) (tenants : List Profile) (dc : Datacenter) :
    Handing placed (numbered tenants) (numbered tenants) ⟨dc, 0, []⟩ := by
  refine ⟨rfl, ?_, rfl, ?_, ?_, ?_⟩ <;> simp

theorem Handing.mem (h : Handing placed (numbered tenants) (t :: rest) s) :
    t.2.numNodes = t.1.numNodes := by
  have ht : t ∈ numbered tenants := by
    rw [← h.tenants]
    simp
  exact numNodes_numbered ht

theorem Handing.length_next (h : Handing placed (numbered tenants) (t :: rest) s)
    (hsum : (tenants.map Profile.numNodes).sum ≤ placed.length) :
    (next placed s t).length = t.1.numNodes := by
  have hall : (tenants.map Profile.numNodes).sum =
      s.index + t.1.numNodes + (rest.map fun t => t.1.numNodes).sum := by
    rw [← map_fst_numbered tenants, ← h.tenants, h.index]
    simp [Function.comp_def, Nat.add_assoc]
  rw [next, List.length_take, List.length_drop, h.mem]
  omega

theorem Handing.handsOut (h : Handing placed (numbered tenants) [] s)
    (hnames : (placed.map Mininet.Host.name).Nodup) (hknown : ∀ x ∈ placed, x ∈ hosts)
    (hsum : (tenants.map Profile.numNodes).sum ≤ placed.length) : HandsOut hosts tenants s := by
  have hall : s.created.map (fun c => (c.profile, c.tenant)) = numbered tenants := by
    rw [← h.tenants, List.append_nil]
  have hprofiles : s.created.map Creation.profile = tenants := by
    rw [← map_fst_numbered tenants, ← hall, List.map_map]
    rfl
  refine ⟨hprofiles, ?_, fun c hc x hx => ?_, ?_, ?_, h.vlanMap⟩
  · apply h.exact
    rw [h.index]
    rw [← hprofiles, List.map_map] at hsum
    exact hsum
  · apply hknown
    have hmem : x ∈ s.created.flatMap Creation.hosts := List.mem_flatMap.mpr ⟨c, hc, hx⟩
    rw [h.handed] at hmem
    exact List.mem_of_mem_take hmem
  · rw [h.handed]
    exact hnames.of_map.sublist (List.take_sublist _ _)
  · have hvlans := nodup_vlans tenants
    rw [← hall, List.map_map] at hvlans
    exact hvlans

/-- The loop goes through when there are hosts enough and every profile can be created. -/
theorem exists_handing (hplaced : p.map (fun x => hosts[x]?) = placed.map some)
    (hnames : (placed.map Mininet.Host.name).Nodup)
    (hsum : (tenants.map Profile.numNodes).sum ≤ placed.length)
    (haccepts : ∀ t ∈ tenants, t.Accepts) (dc : Datacenter) :
    ∃ s, (numbered tenants).foldlM (createNext hosts p) ⟨dc, 0, []⟩ = some s ∧
      Handing placed (numbered tenants) [] s := by
  refine foldlM_total (fun t rest s h => ?_) (handing_start placed tenants dc)
  have hmem : t.1 ∈ tenants := by
    rw [← map_fst_numbered tenants, ← h.tenants]
    simp
  have hcreate := (Profile.create_isSome_iff (h.length_next hsum)).mpr (haccepts t.1 hmem)
  refine ⟨_, ?_, h.turn hnames h.mem hcreate⟩
  obtain ⟨apps, happs⟩ := Option.isSome_iff_exists.mp hcreate
  rw [createNext_eq hplaced, happs, Option.map_some]

theorem handing_of_loop (hplaced : p.map (fun x => hosts[x]?) = placed.map some)
    (hnames : (placed.map Mininet.Host.name).Nodup) {dc : Datacenter}
    (h : (numbered tenants).foldlM (createNext hosts p) ⟨dc, 0, []⟩ = some s) :
    Handing placed (numbered tenants) [] s := by
  refine foldlM_invariant (fun t rest s s' hs hturn => ?_) (handing_start placed tenants dc) h
  rw [createNext_eq hplaced, Option.map_eq_some_iff] at hturn
  obtain ⟨apps, happs, rfl⟩ := hturn
  exact hs.turn hnames hs.mem (by rw [happs]; rfl)

theorem exists_placed (hnames : (hosts.map Mininet.Host.name).Nodup) (hnodup : p.Nodup)
    (hlt : ∀ i ∈ p, i < hosts.length) : ∃ placed : List Mininet.Host,
      p.map (fun x => hosts[x]?) = placed.map some ∧
      (placed.map Mininet.Host.name).Nodup ∧ (∀ x ∈ placed, x ∈ hosts) ∧
        placed.length = p.length := by
  have hget : ∀ i ∈ p, hosts[i]? = some (hosts.getD i ⟨[], []⟩) := fun i hi =>
    Profile.host_at (hlt i hi)
  refine ⟨p.map fun i => hosts.getD i ⟨[], []⟩, ?_, ?_, fun x hx => ?_, List.length_map _⟩
  · rw [List.map_map]
    exact List.map_congr_left hget
  · rw [List.map_map]
    refine hnodup.map_on fun i hi j hj hij => ?_
    have hi' : (hosts.map Mininet.Host.name)[i]? = some (hosts.getD i ⟨[], []⟩).name := by
      rw [List.getElem?_map, hget i hi, Option.map_some]
    have hj' : (hosts.map Mininet.Host.name)[j]? = some (hosts.getD j ⟨[], []⟩).name := by
      rw [List.getElem?_map, hget j hj, Option.map_some]
    have hbound : i < (hosts.map Mininet.Host.name).length := by
      rw [List.length_map]
      exact hlt i hi
    exact (List.getElem?_inj hbound hnames).mp (by rw [hi', hj']; exact congrArg some hij)
  · obtain ⟨i, hi, rfl⟩ := List.mem_map.mp hx
    exact List.mem_of_getElem? (hget i hi)

/-- Every tenant gets its hosts, unless the placement forgets a host that is needed or a tenant
cannot be created. -/
theorem setup_handsOut_iff {placement : Placement} (hplacement : placement ≠ .random)
    (hnames : (hosts.map Mininet.Host.name).Nodup)
    (hsum : (tenants.map Profile.numNodes).sum ≤ hosts.length) :
    (∃ s, setupTenants placement hosts tenants = some s ∧ HandsOut hosts tenants s) ↔
      (placement = .inorder → hosts.length % 2 = 0 ∨
        (tenants.map Profile.numNodes).sum < hosts.length) ∧ ∀ t ∈ tenants, t.Accepts := by
  obtain ⟨p, hp, hnodup, hlt, hlength⟩ := getPlacement_spec hplacement hosts.length
  obtain ⟨placed, hplaced, hplacedNames, hknown, hcount⟩ := exists_placed hnames hnodup hlt
  rw [hlength] at hcount
  have hsetup : setupTenants placement hosts tenants =
      (numbered tenants).foldlM (createNext hosts p)
        ⟨(tenants.map Profile.appProfile).foldl addTenant new, 0, []⟩ := by
    rw [setupTenants, hp]
    rfl
  rw [hsetup]
  constructor
  · rintro ⟨s, hloop, hs⟩
    have hhanding := handing_of_loop hplaced hplacedNames hloop
    have htotal : (tenants.map Profile.numNodes).sum ≤ placed.length := by
      have hlengths := congrArg List.length hhanding.handed
      rw [List.length_flatMap, List.map_congr_left hs.exact, List.length_take] at hlengths
      rw [← hs.tenants, List.map_map]
      exact hlengths.le.trans (min_le_right _ _)
    refine ⟨fun hinorder => ?_, fun t ht => ?_⟩
    · rw [hcount, if_pos hinorder] at htotal
      omega
    · rw [← hs.tenants] at ht
      obtain ⟨c, hc, rfl⟩ := List.mem_map.mp ht
      exact (Profile.create_isSome_iff (hs.exact c hc)).mp (hhanding.apps c hc)
  · rintro ⟨hinorder, haccepts⟩
    have htotal : (tenants.map Profile.numNodes).sum ≤ placed.length := by
      rw [hcount]
      split
      case isTrue h =>
        have := hinorder h
        omega
      case isFalse => exact hsum
    obtain ⟨s, hloop, hhanding⟩ := exists_handing hplaced hplacedNames htotal haccepts
      ((tenants.map Profile.appProfile).foldl addTenant new)
    exact ⟨s, hloop, hhanding.handsOut hplacedNames hknown htotal⟩

def sampleHosts (names : List Char) : List Mininet.Host :=
  names.map fun c => ⟨[c], [c]⟩

theorem setup_handsOut_iff_even : ∃ s,
    setupTenants .inorder (sampleHosts ['a', 'b', 'c', 'd']) [.memcache 3, .iperf 1] = some s ∧
      HandsOut (sampleHosts ['a', 'b', 'c', 'd']) [.memcache 3, .iperf 1] s :=
  (setup_handsOut_iff (by decide) (by decide) (by decide)).mpr
    ⟨fun _ => Or.inl (by decide), by simp [Profile.Accepts]⟩

/-- Of three hosts two are handed out. -/
theorem not_handsOut_odd : ¬ ∃ s,
    setupTenants .inorder (sampleHosts ['a', 'b', 'c']) [.iperf 3] = some s ∧
      HandsOut (sampleHosts ['a', 'b', 'c']) [.iperf 3] s := by
  rintro ⟨s, hsetup, hs⟩
  obtain rfl := Option.some.inj (hsetup.symm.trans rfl)
  exact absurd (hs.exact _ List.mem_cons_self) (by decide)

end Datacenter

end CloudComputing.Minidc
