import CloudComputing.Lib.Fold
import CloudComputing.Minidc.Controller
import CloudComputing.Minidc.Partial

/-!
# Frames while the controller works

Whatever the threads do, and whatever happens to the connections, a switch never
has a rule that no policy has made for it.  So a broadcast never circles.
-/

namespace CloudComputing.Minidc

open Lib FlowTable

variable {topo : Topology}

/-! ## The tables of the policies -/

def PolicyName.Builds (topo : Topology) (table : RoutingTable) : PolicyName → Prop
  | .default => DefaultPolicy.build topo = some table
  | .static => StaticPolicy.build topo = some table
  | .adaptive => AdaptivePolicy.Built topo table

/-- The policies are what their constructors and later reads have made of them. -/
structure Policies.Built (topo : Topology) (p : Policies) : Prop where
  default : DefaultPolicy.build topo = some p.default
  static : StaticPolicy.build topo = some p.static
  adaptive : AdaptivePolicy.Reached topo p.adaptive

namespace Policies

theorem exists_init (hwf : topo.WellFormed) (howned : topo.OwnedVlans) :
    ∃ p, init topo = some p ∧ p.Built topo := by
  obtain ⟨_, -, _, default, -, hdefault, -⟩ := hwf.builds_default
  obtain ⟨_, static, -, hstatic, -⟩ := hwf.builds_static howned
  obtain ⟨adaptive, hadaptive, -⟩ := AdaptivePolicy.exists_init hwf
  refine ⟨⟨default, static, adaptive⟩, ?_, hdefault, hstatic, .init hadaptive⟩
  rw [init, hdefault, hstatic, hadaptive]
  rfl

theorem Built.exists_routingTable {p : Policies} (h : p.Built topo) (hwf : topo.WellFormed)
    (hostBw : Dict Str HostBw) (name : PolicyName) : ∃ p' table,
      p.routingTable topo hostBw name = some (p', table) ∧ p'.Built topo ∧
        name.Builds topo table := by
  cases name with
  | default => exact ⟨p, p.default, rfl, h, h.default⟩
  | static => exact ⟨p, p.static, rfl, h, h.static⟩
  | adaptive =>
      obtain ⟨adaptive, table, hread, hbuilt⟩ := h.adaptive.exists_routingTable hwf hostBw
      refine ⟨{ p with adaptive }, table, ?_, ⟨h.default, h.static, .rebuild hostBw h.adaptive hread⟩,
        hbuilt⟩
      rw [routingTable, hread]
      rfl

end Policies

structure Uses (topo : Topology) (tabled : PolicyName → List Str) : Prop where
  default : ∃ c ∈ topo.coreSwitches.values, tabled .default = [c.name]
  static : tabled .static = topo.coreSwitches.keys
  adaptive : tabled .adaptive = topo.coreSwitches.keys
  cores : ∀ name, ∀ n ∈ tabled name, n ∈ topo.coreSwitches.keys
  programmed : ∀ name table, PolicyName.Builds topo table name →
    topo.Programmed (tabled name) fun _ => table

theorem exists_uses (hwf : topo.WellFormed) (howned : topo.OwnedVlans) :
    ∃ tabled, Uses topo tabled := by
  obtain ⟨c, hc, _, default, -, hdefault, hbuilds⟩ := hwf.builds_default
  obtain ⟨_, static, -, hstatic, hbuilds'⟩ := hwf.builds_static howned
  let tabled : PolicyName → List Str := fun
    | .default => [c.name]
    | _ => topo.coreSwitches.keys
  refine ⟨tabled, ⟨c, hc, rfl⟩, rfl, rfl, fun name n hn => ?_, fun name table htable => ?_⟩
  · cases name with
    | default =>
        rw [List.mem_singleton.mp hn]
        exact hwf.name_mem_cores hc
    | static => exact hn
    | adaptive => exact hn
  · cases name with
    | default =>
        obtain rfl := Option.some.inj (hdefault.symm.trans htable)
        exact hbuilds.programmed
    | static =>
        obtain rfl := Option.some.inj (hstatic.symm.trans htable)
        exact hbuilds'.programmed
    | adaptive => exact hwf.programmed_adaptive fun _ => htable

namespace Uses

variable {tabled : PolicyName → List Str} {name : PolicyName}

theorem nonempty (h : Uses topo tabled) (hwf : topo.WellFormed) (name : PolicyName) :
    ∃ n, n ∈ tabled name := by
  obtain ⟨c, hc, -⟩ := hwf.exists_first
  cases name with
  | default =>
      obtain ⟨c, -, hc⟩ := h.default
      exact ⟨c.name, by simp [hc]⟩
  | static => exact ⟨c.name, by rw [h.static]; exact hwf.name_mem_cores hc⟩
  | adaptive => exact ⟨c.name, by rw [h.adaptive]; exact hwf.name_mem_cores hc⟩

theorem exists_rules (h : Uses topo tabled) (hwf : topo.WellFormed) {table : RoutingTable}
    (hbuilds : PolicyName.Builds topo table name) {sw : Str} {dpid : Int}
    (hdpid : topo.dpid sw = some dpid) :
    ∃ cores, (∀ sw, topo.Assigns (tabled name) (cores sw)) ∧
      table.lookup dpid = some (topo.rules (tabled name) cores sw) := by
  have hprog := h.programmed name table hbuilds
  obtain ⟨n, hn⟩ := h.nonempty hwf name
  rcases Topology.exists_of_dpid hwf hdpid with ⟨c, hc, rfl, rfl⟩ | ⟨edge, he, rfl, rfl⟩
  · refine ⟨fun _ _ => n, fun _ _ _ => hn, ?_⟩
    rw [hprog.cores c hc, Topology.rules_core hwf hc]
    split
    case isTrue => rfl
    case isFalse => rfl
  · obtain ⟨core, hassigns, hlookup⟩ := hprog.edges edge he
    refine ⟨fun _ => core, fun _ => hassigns, ?_⟩
    rw [hlookup, Topology.rules_edge hwf he, Topology.edgeRules]

theorem programs (h : Uses topo tabled) (hwf : topo.WellFormed) {table : RoutingTable}
    (hbuilds : PolicyName.Builds topo table name) {sw : Str}
    (hdpid : topo.dpid sw = some dpid) :
    (∀ e ∈ ((table.lookup dpid).getD []).map Flow.entry, topo.Makes (tabled name) sw e) ∧
      topo.Complete (tabled name) sw (((table.lookup dpid).getD []).map Flow.entry) := by
  obtain ⟨cores, hassigns, hlookup⟩ := h.exists_rules hwf hbuilds hdpid
  rw [hlookup, Option.getD_some]
  constructor
  · intro e he
    obtain ⟨flow, hflow, rfl⟩ := List.mem_map.mp he
    exact Topology.makes_rules (hassigns sw) hflow
  · intro flow hflow
    obtain ⟨flow', hflow', hclash⟩ := Topology.exists_rule_of_key cores hflow
    exact ⟨flow'.entry, List.mem_map_of_mem hflow', hclash⟩

end Uses

namespace System

variable {s s' : System} {P : Int → Flows → Prop} {conn : Nat} {dpid : Int} {mod : Message}
  {entry : FlowEntry OFPMatch (List Output)} {table : RoutingTable}

/-! ## What is on its way -/

def dpidOf (s : System) (conn : Nat) : Option Int :=
  (s.conns[conn]?).map Connection.dpid

/-- What a switch has still to carry out. -/
def stream (s : System) (dpid : Int) : List Message :=
  ((s.link dpid).map s.queue).getD []

/-- What is left to be sent over one connection. -/
def pending (out : Outgoing) (conn : Nat) : List (FlowEntry OFPMatch (List Output)) :=
  (out.filter fun x => x.1 = conn).map Prod.snd

/-- `P` holds of the table of every switch of the topology, and will of all the tables that the
messages on their way to it make. -/
def Always (topo : Topology) (P : Int → Flows → Prop) (s : System) : Prop :=
  ∀ sw dpid, topo.dpid sw = some dpid → Throughout (P dpid) (s.stream dpid) (s.table dpid)

/-- The switches look at their own connections. -/
def Linked (s : System) : Prop :=
  ∀ dpid conn, s.link dpid = some conn → s.dpidOf conn = some dpid

theorem stream_link (h : s.link dpid = some conn) : s.stream dpid = s.queue conn := by
  rw [stream, h]
  rfl

theorem stream_none (h : s.link dpid = none) : s.stream dpid = [] := by
  rw [stream, h]
  rfl

theorem stream_send (s : System) (conn : Nat) (mod : Message) (dpid : Int) :
    (s.send conn mod).stream dpid =
      if s.link dpid = some conn then s.stream dpid ++ [mod] else s.stream dpid := by
  by_cases h : s.link dpid = some conn
  · have hlink : (s.send conn mod).link dpid = some conn := h
    rw [if_pos h, stream_link h, stream_link hlink]
    exact Function.update_self _ _ _
  · rw [if_neg h]
    cases hlink : s.link dpid with
    | none =>
        have hlink' : (s.send conn mod).link dpid = none := hlink
        rw [stream_none hlink, stream_none hlink']
    | some conn' =>
        have hlink' : (s.send conn mod).link dpid = some conn' := hlink
        rw [stream_link hlink, stream_link hlink']
        apply Function.update_of_ne
        rintro rfl
        exact h hlink

theorem link_connect (s : System) (dpid d : Int) :
    (s.connect dpid).link d = if d = dpid then some s.conns.length else s.link d :=
  Function.update_apply _ _ _ _

theorem link_disconnect (s : System) (dpid d : Int) :
    (s.disconnect dpid).link d = if d = dpid then none else s.link d :=
  Function.update_apply _ _ _ _

theorem stream_connect (hfresh : s.queue s.conns.length = []) (dpid d : Int) :
    (s.connect dpid).stream d = if d = dpid then [] else s.stream d := by
  rw [stream, link_connect]
  split
  case isTrue => exact hfresh
  case isFalse => rfl

theorem stream_disconnect (s : System) (dpid d : Int) :
    (s.disconnect dpid).stream d = if d = dpid then [] else s.stream d := by
  rw [stream, link_disconnect]
  split
  case isTrue => rfl
  case isFalse => rfl

namespace Always

theorem send (h : Always topo P s) (hmod : ∀ sw dpid, topo.dpid sw = some dpid →
      s.link dpid = some conn → P dpid (mod.apply (applyAll (s.table dpid) (s.queue conn)))) :
    Always topo P (s.send conn mod) := by
  intro sw dpid hdpid
  rw [stream_send]
  split
  case isTrue hlink =>
    apply (h sw dpid hdpid).concat
    rw [stream_link hlink]
    exact hmod sw dpid hdpid hlink
  case isFalse => exact h sw dpid hdpid

theorem disconnect (h : Always topo P s) (dpid : Int) : Always topo P (s.disconnect dpid) := by
  intro sw d hdpid
  rw [stream_disconnect]
  split
  case isTrue => exact (h sw d hdpid).here
  case isFalse => exact h sw d hdpid

theorem connect (h : Always topo P s) (hfresh : s.queue s.conns.length = []) (dpid : Int) :
    Always topo P (s.connect dpid) := by
  intro sw d hdpid
  rw [stream_connect hfresh]
  split
  case isTrue => exact (h sw d hdpid).here
  case isFalse => exact h sw d hdpid

end Always

/-- What a switch does when it has carried out everything; to carry out a message is on the way
there. -/
def settled (s : System) (dpid : Int) : Flows :=
  applyAll (s.table dpid) (s.stream dpid)

theorem take_cases (h : s.take dpid = some s') : ∃ conn mod rest, s.link dpid = some conn ∧
    s.queue conn = mod :: rest ∧ s' = { s with
      table := Function.update s.table dpid (mod.apply (s.table dpid))
      queue := Function.update s.queue conn rest } := by
  obtain ⟨conn, hlink, h⟩ := Option.bind_eq_some_iff.mp h
  cases hqueue : s.queue conn with
  | nil =>
      rw [hqueue] at h
      cases h
  | cons mod rest =>
      rw [hqueue] at h
      exact ⟨conn, mod, rest, hlink, hqueue, (Option.some.inj h).symm⟩

theorem take_stream (h : s.take dpid = some s') (hlinked : Linked s) : (∃ mod,
    s.stream dpid = mod :: s'.stream dpid ∧ s'.table dpid = mod.apply (s.table dpid)) ∧
      ∀ d ≠ dpid, s'.stream d = s.stream d ∧ s'.table d = s.table d := by
  obtain ⟨conn, mod, rest, hlink, hqueue, rfl⟩ := take_cases h
  refine ⟨⟨mod, ?_, Function.update_self _ _ _⟩, fun d hd =>
    ⟨?_, Function.update_of_ne hd _ _⟩⟩
  · simp only [stream, hlink, Option.map_some, Option.getD_some, hqueue, Function.update_self]
  · cases hd' : s.link d with
    | none => simp only [stream, hd', Option.map_none]
    | some conn' =>
        have hne : conn' ≠ conn := by
          rintro rfl
          have hsame := (hlinked d conn' hd').symm.trans (hlinked dpid conn' hlink)
          exact hd (Option.some.inj hsame)
        simp only [stream, hd', Option.map_some, Function.update_of_ne hne]

theorem keep_take {R : List Message → Flows → Prop} (htake : s.take dpid = some s')
    (hlinked : Linked s) (hR : ∀ mod mods flows, R (mod :: mods) flows → R mods (mod.apply flows))
    {d : Int} (h : R (s.stream d) (s.table d)) : R (s'.stream d) (s'.table d) := by
  obtain ⟨⟨mod, hstream, htable⟩, hothers⟩ := take_stream htake hlinked
  by_cases hd : d = dpid
  · subst hd
    rw [hstream] at h
    rw [htable]
    exact hR mod _ _ h
  · rw [(hothers d hd).1, (hothers d hd).2]
    exact h

theorem Always.take (h : Always topo P s) (hlinked : Linked s) (htake : s.take dpid = some s') :
    Always topo P s' :=
  fun sw d hdpid => keep_take htake hlinked (fun _ _ _ hmods => hmods.2) (h sw d hdpid)

theorem settled_take (hlinked : Linked s) (htake : s.take dpid = some s') (d : Int) :
    s'.settled d = s.settled d := by
  have hkeep := keep_take (R := fun mods flows => applyAll flows mods = s.settled d) htake hlinked
    (fun _ _ _ hmods => hmods) (d := d) rfl
  exact hkeep

theorem settled_send (s : System) (conn : Nat) (mod : Message) (dpid : Int) :
    (s.send conn mod).settled dpid =
      if s.link dpid = some conn then mod.apply (s.settled dpid) else s.settled dpid := by
  rw [settled, stream_send]
  split
  case isTrue => exact applyAll_concat mod _
  case isFalse => rfl

/-! ## What holds whatever happens -/

/-- What is on its way to a switch some policy has made for it. -/
def Fits (topo : Topology) (s : System) (out : Outgoing) : Prop :=
  ∀ x ∈ out, ∃ dpid, s.dpidOf x.1 = some dpid ∧
    ∀ sw, topo.dpid sw = some dpid → topo.Offers topo.coreSwitches.keys dpid x.2

structure Valid (topo : Topology) (s : System) : Prop where
  policies : s.policies.Built topo
  dps : ∀ dpid conn, s.dps.lookup dpid = some conn → s.dpidOf conn = some dpid
  linked : Linked s
  handler : Fits topo s s.handler
  rpc : Fits topo s s.rpc.outgoing
  fresh : ∀ conn, s.conns.length ≤ conn → s.queue conn = []
  sound : Always topo (topo.Sound topo.coreSwitches.keys) s

theorem sound_nil {tabled : List Str} : topo.Sound tabled dpid [] :=
  ⟨fun _ he => absurd he List.not_mem_nil, unique_nil⟩

theorem sound_add {tabled : List Str} {flows : Flows} (h : topo.Sound tabled dpid flows)
    (he : topo.Offers tabled dpid entry) : topo.Sound tabled dpid (FlowTable.add flows entry) := by
  refine ⟨fun x hx => ?_, h.unique.add entry⟩
  rcases mem_add.mp hx with ⟨hx, -⟩ | rfl
  · exact h.offered x hx
  · exact he

section

variable {tabled : PolicyName → List Str} {name : PolicyName}

theorem fits_program (hwf : topo.WellFormed) (huses : Uses topo tabled)
    (hbuilds : PolicyName.Builds topo table name) (hconn : s.dpidOf conn = some dpid) :
    Fits topo s (program table dpid conn) := by
  intro x hx
  obtain ⟨flow, hflow, rfl⟩ := List.mem_map.mp hx
  refine ⟨dpid, hconn, fun sw hdpid => ?_⟩
  obtain ⟨cores, hassigns, hlookup⟩ := huses.exists_rules hwf hbuilds hdpid
  rw [hlookup, Option.getD_some] at hflow
  exact Topology.offers_rule hwf hdpid (hassigns sw) (huses.cores name) hflow

theorem Fits.mono {out : Outgoing} (h : Fits topo s out)
    (hsame : ∀ conn dpid, s.dpidOf conn = some dpid → s'.dpidOf conn = some dpid) :
    Fits topo s' out := by
  intro x hx
  obtain ⟨dpid, hconn, hoffers⟩ := h x hx
  exact ⟨dpid, hsame _ _ hconn, hoffers⟩

theorem dpidOf_set {datapath datapath' : Connection} (hconn : s.conns[conn]? = some datapath)
    (hdpid : datapath'.dpid = datapath.dpid) (c : Nat) :
    ((s.conns.set conn datapath')[c]?).map Connection.dpid = s.dpidOf c := by
  rw [dpidOf, List.getElem?_set]
  split
  case isTrue heq =>
    subst heq
    have hlt := (List.getElem?_eq_some_iff.mp hconn).1
    rw [if_pos hlt, hconn, Option.map_some, Option.map_some, hdpid]
  case isFalse => rfl

namespace Valid

theorem send (h : Valid topo s) (hconn : s.dpidOf conn = some dpid)
    (hmod : ∀ sw, topo.dpid sw = some dpid → s.link dpid = some conn →
      topo.Sound topo.coreSwitches.keys dpid (mod.apply (applyAll (s.table dpid) (s.queue conn)))) :
    Valid topo (s.send conn mod) where
  policies := h.policies
  dps := h.dps
  linked := h.linked
  handler := h.handler
  rpc := h.rpc
  fresh c hc := by
    have hne : c ≠ conn := by
      rintro rfl
      obtain ⟨datapath, hdatapath, -⟩ := Option.map_eq_some_iff.mp hconn
      have hlt := (List.getElem?_eq_some_iff.mp hdatapath).1
      change s.conns.length ≤ c at hc
      omega
    exact (Function.update_of_ne hne _ _).trans (h.fresh c hc)
  sound := by
    apply h.sound.send
    intro sw d hdpid hlink
    obtain rfl := Option.some.inj ((h.linked d conn hlink).symm.trans hconn)
    exact hmod sw hdpid hlink

theorem send_add (h : Valid topo s) (hfits : Fits topo s [(conn, entry)]) :
    Valid topo (s.send conn (.add entry)) := by
  obtain ⟨dpid, hconn, hoffers⟩ := hfits _ (List.mem_singleton_self _)
  apply h.send hconn
  intro sw hdpid hlink
  have hlast := (h.sound sw dpid hdpid).last
  rw [stream_link hlink] at hlast
  exact sound_add hlast (hoffers sw hdpid)

theorem send_clear (h : Valid topo s) (hconn : s.dpidOf conn = some dpid) :
    Valid topo (s.send conn .clear) :=
  h.send hconn fun _ _ _ => sound_nil

theorem connect (h : Valid topo s) (dpid : Int) : Valid topo (s.connect dpid) := by
  have hsame : ∀ c d, s.dpidOf c = some d → (s.connect dpid).dpidOf c = some d := by
    intro c d hc
    obtain ⟨datapath, hdatapath, rfl⟩ := Option.map_eq_some_iff.mp hc
    have hlt := (List.getElem?_eq_some_iff.mp hdatapath).1
    rw [dpidOf, System.connect, List.getElem?_append_left hlt, hdatapath, Option.map_some]
  refine ⟨h.policies, fun d c hc => hsame c d (h.dps d c hc), fun d c hc => ?_,
    h.handler.mono hsame, h.rpc.mono hsame, fun c hc => ?_, h.sound.connect (h.fresh _ le_rfl) dpid⟩
  · by_cases hd : d = dpid
    · subst hd
      have hlink : (s.connect d).link d = some s.conns.length := Function.update_self _ _ _
      obtain rfl := Option.some.inj (hlink.symm.trans hc)
      rw [dpidOf, System.connect, List.getElem?_append_right le_rfl, Nat.sub_self]
      rfl
    · have hlink : (s.connect dpid).link d = s.link d := Function.update_of_ne hd _ _
      exact hsame c d (h.linked d c (hlink.symm.trans hc))
  · apply h.fresh
    rw [System.connect, List.length_append, List.length_singleton] at hc
    omega

theorem disconnect (h : Valid topo s) (dpid : Int) : Valid topo (s.disconnect dpid) := by
  refine ⟨h.policies, h.dps, fun d c hc => ?_, h.handler, h.rpc, h.fresh, h.sound.disconnect dpid⟩
  by_cases hd : d = dpid
  · subst hd
    have hlink : (s.disconnect d).link d = none := Function.update_self _ _ _
    rw [hlink] at hc
    cases hc
  · have hlink : (s.disconnect dpid).link d = s.link d := Function.update_of_ne hd _ _
    exact h.linked d c (hlink.symm.trans hc)

theorem take (h : Valid topo s) (htake : s.take dpid = some s') : Valid topo s' := by
  have hsound := h.sound.take h.linked htake
  obtain ⟨conn, mod, rest, hlink, hqueue, rfl⟩ := take_cases htake
  refine ⟨h.policies, h.dps, h.linked, h.handler, h.rpc, fun c hc => ?_, hsound⟩
  have hne : c ≠ conn := by
    rintro rfl
    have hnil := h.fresh c hc
    rw [hqueue] at hnil
    cases hnil
  exact (Function.update_of_ne hne _ _).trans (h.fresh c hc)

end Valid

theorem stateChange_cases {e : StateChange} (h : s.stateChange e = some s') :
    ∃ datapath datapath' dps, s.conns[e.conn]? = some datapath ∧
      datapath'.dpid = datapath.dpid ∧ datapath'.featured = datapath.featured ∧
      s' = { s with dps, conns := s.conns.set e.conn datapath' } ∧
      ((e = .main e.conn ∧ dps = Dict.set datapath.dpid e.conn s.dps) ∨
        (e = .dead e.conn ∧ (dps = s.dps ∨
          (s.dps.lookup datapath.dpid = some e.conn ∧ dps = s.dps.erase datapath.dpid)))) := by
  obtain ⟨datapath, hdatapath, h⟩ := Option.bind_eq_some_iff.mp h
  cases e with
  | main conn =>
      obtain ⟨-, h⟩ := Option.ite_none_right_eq_some.mp h
      exact ⟨datapath, { datapath with main := true }, _, hdatapath, rfl, rfl,
        (Option.some.inj h).symm, Or.inl ⟨rfl, rfl⟩⟩
  | dead conn =>
      obtain ⟨-, h⟩ := Option.ite_none_right_eq_some.mp h
      obtain ⟨dps, hdps, h⟩ := Option.bind_eq_some_iff.mp h
      refine ⟨datapath, { datapath with dead := true }, dps, hdatapath, rfl, rfl,
        (Option.some.inj h).symm, Or.inr ⟨rfl, ?_⟩⟩
      unfold DPSet.unregister at hdps
      split at hdps
      case isFalse => exact Or.inl (Option.some.inj hdps).symm
      case isTrue =>
        obtain ⟨hlookup, hdps⟩ := Option.ite_none_right_eq_some.mp hdps
        exact Or.inr ⟨hlookup, (Option.some.inj hdps).symm⟩

theorem Valid.stateChange {e : StateChange} (h : Valid topo s)
    (hstep : s.stateChange e = some s') : Valid topo s' := by
  obtain ⟨datapath, datapath', dps, hdatapath, hdpid, -, rfl, hdps⟩ := stateChange_cases hstep
  have hsame : ∀ c, ((s.conns.set e.conn datapath')[c]?).map Connection.dpid = s.dpidOf c :=
    dpidOf_set hdatapath hdpid
  have hkeep : ∀ c d, s.dpidOf c = some d →
      ((s.conns.set e.conn datapath')[c]?).map Connection.dpid = some d :=
    fun c d hc => (hsame c).trans hc
  have hconn : s.dpidOf e.conn = some datapath.dpid := by rw [dpidOf, hdatapath, Option.map_some]
  refine ⟨h.policies, fun d c hc => hkeep c d ?_, fun d c hc => hkeep c d (h.linked d c hc),
    h.handler.mono hkeep, h.rpc.mono hkeep, fun c hc => h.fresh c ?_, h.sound⟩
  · change dps.lookup d = some c at hc
    rcases hdps with ⟨-, rfl⟩ | ⟨-, rfl | ⟨-, rfl⟩⟩
    · rw [Dict.lookup_set] at hc
      split at hc
      case isTrue hd =>
        obtain rfl := Option.some.inj hc
        rw [hd]
        exact hconn
      case isFalse => exact h.dps d c hc
    · exact h.dps d c hc
    · by_cases hd : d = datapath.dpid
      · subst hd
        rw [AList.lookup_erase] at hc
        cases hc
      · rw [AList.lookup_erase_ne hd] at hc
        exact h.dps d c hc
  · rwa [List.length_set] at hc

end

/-! ## What is left to be sent -/

theorem pending_cons (x : Nat × FlowEntry OFPMatch (List Output)) (out : Outgoing) (conn : Nat) :
    pending (x :: out) conn = if x.1 = conn then x.2 :: pending out conn else pending out conn := by
  unfold pending
  by_cases h : x.1 = conn
  · simp [h]
  · simp [h]

theorem pending_program (table : RoutingTable) (dpid : Int) (c conn : Nat) :
    pending (program table dpid c) conn =
      if c = conn then ((table.lookup dpid).getD []).map Flow.entry else [] := by
  unfold pending program
  by_cases h : c = conn
  · simp [h, List.filter_map, Function.comp_def]
  · simp [h, List.filter_map, Function.comp_def]

/-- `applyPolicy` has the rules of a switch for the connection that is registered for it. -/
theorem pending_apply (hdps : ∀ dpid conn, s.dps.lookup dpid = some conn → s.dpidOf conn = some dpid)
    (table : RoutingTable) (hconn : s.dpidOf conn = some dpid) :
    pending (s.dps.entries.flatMap fun dp => program table dp.1 dp.2) conn =
      if s.dps.lookup dpid = some conn then ((table.lookup dpid).getD []).map Flow.entry else [] := by
  have hflat : pending (s.dps.entries.flatMap fun dp => program table dp.1 dp.2) conn =
      s.dps.entries.flatMap fun dp => pending (program table dp.1 dp.2) conn := by
    simp only [pending, List.filter_flatMap, List.map_flatMap]
  rw [hflat]
  by_cases h : s.dps.lookup dpid = some conn
  · rw [if_pos h]
    have hrows : ∀ dp ∈ s.dps.entries, pending (program table dp.1 dp.2) conn =
        if dp.1 = dpid then ((table.lookup dpid).getD []).map Flow.entry else [] := by
      rintro ⟨d, c⟩ hdp
      have hlookup := Dict.mem_entries_iff.mp hdp
      rw [pending_program]
      by_cases hd : d = dpid
      · subst hd
        rw [if_pos rfl, if_pos (Option.some.inj (hlookup.symm.trans h))]
      · rw [if_neg hd, if_neg]
        rintro rfl
        exact hd (Option.some.inj ((hdps d c hlookup).symm.trans hconn))
    rw [List.flatMap_congr hrows]
    have hfilter := Dict.filter_entries h
    have hsplit : ∀ l : List (Σ _ : Int, Nat), ∀ rows : List (FlowEntry OFPMatch (List Output)),
        (l.flatMap fun dp => if dp.1 = dpid then rows else []) =
          (l.filter fun dp => dp.1 = dpid).flatMap fun _ => rows := by
      intro l rows
      induction l with
      | nil => rfl
      | cons dp l ih =>
          by_cases hd : dp.1 = dpid
          · simp [hd, ih]
          · simp [hd, ih]
    rw [hsplit, hfilter, List.flatMap_singleton]
  · rw [if_neg h, List.flatMap_eq_nil_iff]
    rintro ⟨d, c⟩ hdp
    have hlookup := Dict.mem_entries_iff.mp hdp
    rw [pending_program, if_neg]
    rintro rfl
    obtain rfl := Option.some.inj ((hdps d c hlookup).symm.trans hconn)
    exact h hlookup

theorem Fits.pending_new {out : Outgoing} (h : Fits topo s out) :
    pending out s.conns.length = [] := by
  rw [pending, List.map_eq_nil_iff, List.filter_eq_nil_iff]
  intro x hx hconn
  obtain ⟨dpid, hdpid, -⟩ := h x hx
  obtain ⟨datapath, hdatapath, -⟩ := Option.map_eq_some_iff.mp hdpid
  have hlt := (List.getElem?_eq_some_iff.mp hdatapath).1
  have heq := of_decide_eq_true hconn
  omega

/-! ## The steps of the threads -/

theorem switchFeatures_cases (h : s.switchFeatures topo conn = some s') :
    ∃ datapath policies table, s.conns[conn]? = some datapath ∧
      s.policies.routingTable topo s.monitor.bwstats.hostBw s.curpolicy = some (policies, table) ∧
      s.handler = [] ∧ datapath.featured = false ∧
      s' = { s with
        policies
        conns := s.conns.set conn { datapath with featured := true }
        handler := program table datapath.dpid conn } := by
  obtain ⟨datapath, hdatapath, h⟩ := Option.bind_eq_some_iff.mp h
  obtain ⟨⟨policies, table⟩, hread, h⟩ := Option.bind_eq_some_iff.mp h
  obtain ⟨⟨hidle, hnew⟩, h⟩ := Option.ite_none_right_eq_some.mp h
  exact ⟨datapath, policies, table, hdatapath, hread, hidle, by simpa using hnew,
    (Option.some.inj h).symm⟩

theorem handlerStep_cases (h : s.handlerStep = some s') : ∃ conn entry rest,
    s.handler = (conn, entry) :: rest ∧
      s' = System.send conn (.add entry) { s with handler := rest } := by
  unfold handlerStep at h
  split at h
  case h_1 => cases h
  case h_2 conn entry rest hhandler =>
    exact ⟨conn, entry, rest, hhandler, (Option.some.inj h).symm⟩

/-- What a step of the remote calls can do. -/
inductive RpcMove (topo : Topology) (s : System) : System → Prop
  | abort {size : Nat} {todo : List Int} {next : Option PolicyName} :
      s.rpc = .clearing size todo next → s.dps.keys.length ≠ size →
      RpcMove topo s { s with rpc := .idle }
  | cleared {size : Nat} : s.rpc = .clearing size [] none →
      RpcMove topo s (s.reply (true, "Flow tables cleared".toList))
  | apply {size : Nat} {policy : PolicyName} {policies : Policies} {table : RoutingTable} :
      s.rpc = .clearing size [] (some policy) → s.dps.keys.length = size →
      s.policies.routingTable topo s.monitor.bwstats.hostBw policy = some (policies, table) →
      RpcMove topo s { s with
        policies
        curpolicy := policy
        rpc := .applying (s.dps.entries.flatMap fun dp => program table dp.1 dp.2) policy }
  | skip {size : Nat} {dpid : Int} {todo : List Int} {next : Option PolicyName} :
      s.rpc = .clearing size (dpid :: todo) next → s.dps.lookup dpid = none →
      RpcMove topo s { s with rpc := .clearing size todo next }
  | clear {size : Nat} {dpid : Int} {todo : List Int} {next : Option PolicyName} {conn : Nat} :
      s.rpc = .clearing size (dpid :: todo) next → s.dps.lookup dpid = some conn →
      RpcMove topo s (System.send conn .clear { s with rpc := .clearing size todo next })
  | applied {policy : PolicyName} : s.rpc = .applying [] policy →
      RpcMove topo s (s.reply (true, "Policy ".toList ++ policy.str ++ " loaded".toList))
  | add {conn : Nat} {entry : FlowEntry OFPMatch (List Output)} {todo : Outgoing}
      {policy : PolicyName} : s.rpc = .applying ((conn, entry) :: todo) policy →
      RpcMove topo s (System.send conn (.add entry) { s with rpc := .applying todo policy })

theorem rpcStep_cases (h : s.rpcStep topo = some s') : RpcMove topo s s' := by
  unfold rpcStep at h
  split at h
  case h_1 => cases h
  case h_2 size todo next hrpc =>
    split at h
    case isTrue hsize =>
      rw [← Option.some.inj h]
      exact .abort hrpc hsize
    case isFalse hsize =>
      rw [not_not] at hsize
      split at h
      case h_1 =>
        rw [← Option.some.inj h]
        exact .cleared hrpc
      case h_2 policy =>
        obtain ⟨⟨policies, table⟩, hread, h⟩ := Option.bind_eq_some_iff.mp h
        rw [← Option.some.inj h]
        exact .apply hrpc hsize hread
      case h_3 dpid todo =>
        split at h
        case h_1 hlookup =>
          rw [← Option.some.inj h]
          exact .skip hrpc hlookup
        case h_2 conn hlookup =>
          rw [← Option.some.inj h]
          exact .clear hrpc hlookup
  case h_3 policy hrpc =>
    rw [← Option.some.inj h]
    exact .applied hrpc
  case h_4 conn entry todo policy hrpc =>
    rw [← Option.some.inj h]
    exact .add hrpc

/-- A call that is answered at once, or begins to clear the switches. -/
theorem rpcLoadPolicy_cases (policy : Str) (s : System) :
    (∃ answer, s.rpcLoadPolicy policy = s.reply answer) ∨
      ∃ name, PolicyName.ofStr policy = some name ∧ name ≠ s.curpolicy ∧ s.rpcLoadPolicy policy =
        { s with rpc := .clearing s.dps.keys.length s.dps.keys (some name) } := by
  unfold rpcLoadPolicy
  split
  case h_1 => exact Or.inl ⟨_, rfl⟩
  case h_2 name hname =>
    split
    case isTrue => exact Or.inl ⟨_, rfl⟩
    case isFalse hne => exact Or.inr ⟨name, hname, hne, rfl⟩

section

variable {tabled : PolicyName → List Str}

theorem Valid.of_rpc {rpc : Rpc} {replies : List (Bool × Str)} (h : Valid topo s)
    (hrpc : Fits topo s rpc.outgoing) : Valid topo { s with rpc, replies } :=
  ⟨h.policies, h.dps, h.linked, h.handler, hrpc, h.fresh, h.sound⟩

theorem fits_nil : Fits topo s [] := fun _ hx => absurd hx List.not_mem_nil

theorem Valid.rpcMove (h : Valid topo s) (hwf : topo.WellFormed) (huses : Uses topo tabled)
    (hmove : RpcMove topo s s') : Valid topo s' := by
  cases hmove with
  | abort => exact h.of_rpc fits_nil
  | cleared => exact h.of_rpc fits_nil
  | applied => exact h.of_rpc fits_nil
  | skip => exact h.of_rpc fits_nil
  | apply hrpc hsize hread =>
      rename_i policy policies table
      obtain ⟨policies', table', hread', hbuilt, hbuilds⟩ :=
        h.policies.exists_routingTable hwf s.monitor.bwstats.hostBw policy
      rw [hread] at hread'
      obtain ⟨rfl, rfl⟩ := Prod.mk.inj (Option.some.inj hread')
      refine ⟨hbuilt, h.dps, h.linked, h.handler, ?_, h.fresh, h.sound⟩
      intro x hx
      obtain ⟨⟨d, c⟩, hdp, hx⟩ := List.mem_flatMap.mp hx
      exact fits_program hwf huses hbuilds (h.dps d c (Dict.mem_entries_iff.mp hdp)) x hx
  | clear hrpc hlookup =>
      exact (h.of_rpc fits_nil).send_clear (h.dps _ _ hlookup)
  | add hrpc =>
      rename_i conn entry todo policy
      have hout := h.rpc
      rw [hrpc] at hout
      have hrest : Fits topo s (Rpc.applying todo policy).outgoing :=
        fun x hx => hout x (List.mem_cons_of_mem _ hx)
      refine (h.of_rpc hrest).send_add fun x hx => ?_
      rw [List.mem_singleton.mp hx]
      exact hout _ List.mem_cons_self

theorem Valid.step {a : Action} (h : Valid topo s) (hwf : topo.WellFormed)
    (huses : Uses topo tabled) (hstep : s.step topo a = some s') : Valid topo s' := by
  cases a with
  | connect dpid =>
      rw [← Option.some.inj hstep]
      exact h.connect dpid
  | disconnect dpid =>
      rw [← Option.some.inj hstep]
      exact h.disconnect dpid
  | take dpid => exact h.take hstep
  | stateChange e => exact h.stateChange hstep
  | switchFeatures conn =>
      obtain ⟨datapath, policies, table, hdatapath, hread, -, -, rfl⟩ := switchFeatures_cases hstep
      obtain ⟨policies', table', hread', hbuilt, hbuilds⟩ :=
        h.policies.exists_routingTable hwf s.monitor.bwstats.hostBw s.curpolicy
      rw [hread] at hread'
      obtain ⟨rfl, rfl⟩ := Prod.mk.inj (Option.some.inj hread')
      have hsame : ∀ c, ((s.conns.set conn { datapath with featured := true })[c]?).map
          Connection.dpid = s.dpidOf c := dpidOf_set hdatapath rfl
      have hkeep : ∀ c d, s.dpidOf c = some d → ((s.conns.set conn
          { datapath with featured := true })[c]?).map Connection.dpid = some d :=
        fun c d hc => (hsame c).trans hc
      have hconn : s.dpidOf conn = some datapath.dpid := by
        rw [dpidOf, hdatapath, Option.map_some]
      exact ⟨hbuilt, fun d c hc => hkeep c d (h.dps d c hc),
        fun d c hc => hkeep c d (h.linked d c hc),
        (fits_program hwf huses hbuilds hconn).mono hkeep, h.rpc.mono hkeep,
        fun c hc => h.fresh c (by rwa [List.length_set] at hc), h.sound⟩
  | handlerStep =>
      obtain ⟨conn, entry, rest, hhandler, rfl⟩ := handlerStep_cases hstep
      have hout := h.handler
      rw [hhandler] at hout
      have hrest : Valid topo { s with handler := rest } :=
        ⟨h.policies, h.dps, h.linked, fun x hx => hout x (List.mem_cons_of_mem _ hx), h.rpc,
          h.fresh, h.sound⟩
      refine hrest.send_add fun x hx => ?_
      rw [List.mem_singleton.mp hx]
      exact hout _ List.mem_cons_self
  | monitor e =>
      obtain ⟨-, hstep⟩ := Option.ite_none_right_eq_some.mp hstep
      obtain ⟨monitor, -, rfl⟩ := Option.map_eq_some_iff.mp hstep
      exact ⟨h.policies, h.dps, h.linked, h.handler, h.rpc, h.fresh, h.sound⟩
  | load policy =>
      obtain ⟨-, hstep⟩ := Option.ite_none_right_eq_some.mp hstep
      rw [← Option.some.inj hstep]
      rcases rpcLoadPolicy_cases policy s with ⟨answer, heq⟩ | ⟨name, -, -, heq⟩
      · rw [heq]
        exact h.of_rpc fits_nil
      · rw [heq]
        exact h.of_rpc fits_nil
  | clear =>
      obtain ⟨-, hstep⟩ := Option.ite_none_right_eq_some.mp hstep
      rw [← Option.some.inj hstep]
      exact h.of_rpc fits_nil
  | current =>
      obtain ⟨-, hstep⟩ := Option.ite_none_right_eq_some.mp hstep
      rw [← Option.some.inj hstep]
      exact h.of_rpc fits_nil
  | rpcStep => exact h.rpcMove hwf huses (rpcStep_cases hstep)
  | rehash dps adaptive =>
      obtain ⟨⟨hdps, hassignments, hutilization⟩, hstep⟩ :=
        Option.ite_none_right_eq_some.mp hstep
      rw [← Option.some.inj hstep]
      refine ⟨⟨h.policies.default, h.policies.static, .reorder h.policies.adaptive hassignments
        hutilization⟩, fun d c hc => h.dps d c ?_, h.linked, h.handler, h.rpc, h.fresh, h.sound⟩
      rwa [← AList.perm_lookup hdps]

end

/-! ## Runs -/

def Steps (topo : Topology) (ok : System → Action → Prop) (s s' : System) : Prop :=
  ∃ a, ok s a ∧ s.step topo a = some s'

/-- The states of a controller whose steps are all `ok`. -/
def Reachable (topo : Topology) (ok : System → Action → Prop) (s : System) : Prop :=
  ∃ s₀, init topo = some s₀ ∧ Relation.ReflTransGen (Steps topo ok) s₀ s

/-- What the switches have in their tables. -/
def live (topo : Topology) (s : System) (sw : Str) : Flows :=
  ((topo.dpid sw).map s.table).getD []

theorem exists_reachable {ok : System → Action → Prop} [∀ s a, Decidable (ok s a)]
    {actions : List Action} {β : Type} {f : System → β} {x : β}
    (h : ((init topo).bind (follow (step topo) ok actions)).map f = some x) :
    ∃ s, Reachable topo ok s ∧ f s = x := by
  obtain ⟨s, hrun, hx⟩ := Option.map_eq_some_iff.mp h
  obtain ⟨s₀, hinit, hrun⟩ := Option.bind_eq_some_iff.mp hrun
  exact ⟨s, ⟨s₀, hinit, run_of_follow hrun⟩, hx⟩

theorem exists_start (hwf : topo.WellFormed) (howned : topo.OwnedVlans) :
    ∃ s₀, init topo = some s₀ := by
  obtain ⟨p, hp, -⟩ := Policies.exists_init hwf howned
  exact ⟨_, by rw [init, hp]; rfl⟩

theorem valid_init (hwf : topo.WellFormed) (howned : topo.OwnedVlans)
    (hinit : init topo = some s) : Valid topo s := by
  obtain ⟨p, hp, hbuilt⟩ := Policies.exists_init hwf howned
  rw [init, hp] at hinit
  rw [← Option.some.inj hinit]
  refine ⟨hbuilt, fun d c hc => ?_, fun d c hc => ?_, fits_nil, fits_nil, fun _ _ => rfl,
    fun sw d _ => sound_nil⟩
  · rw [AList.lookup_empty] at hc
    cases hc
  · cases hc

theorem Reachable.valid {ok : System → Action → Prop} (h : Reachable topo ok s)
    (hwf : topo.WellFormed) (howned : topo.OwnedVlans) : Valid topo s := by
  obtain ⟨s₀, hinit, hrun⟩ := h
  obtain ⟨tabled, huses⟩ := exists_uses hwf howned
  refine invariant_of_run (fun s s' hstep hs => ?_) hrun (valid_init hwf howned hinit)
  obtain ⟨a, -, hstep⟩ := hstep
  exact hs.step hwf huses hstep

theorem live_eq {sw : Str} (hdpid : topo.dpid sw = some dpid) : live topo s sw = s.table dpid := by
  rw [live, hdpid]
  rfl

theorem live_none {sw : Str} (hdpid : topo.dpid sw = none) : live topo s sw = [] := by
  rw [live, hdpid]
  rfl

/-- The tables are always parts of what the policies make. -/
theorem Valid.exists_part (h : Valid topo s) (hwf : topo.WellFormed) :
    ∃ cores, Topology.Part topo topo.coreSwitches.keys cores (live topo s) := by
  obtain ⟨c, hc, -⟩ := hwf.exists_first
  apply Topology.exists_part hwf ⟨c.name, hwf.name_mem_cores hc⟩
  · intro sw dpid hdpid
    rw [live_eq hdpid]
    exact (h.sound sw dpid hdpid).here
  · exact fun sw hdpid => live_none hdpid
  · exact fun c hc => Or.inl (hwf.name_mem_cores hc)

/-- Whatever the threads, the remote calls, the connections and the counters do, a broadcast
crosses three switches at most, never comes back to its sender, reaches a host of the same edge
switch once at most, and any other host at most as often as there are core switches. -/
theorem broadcast_bounded {ok : System → Action → Prop} (hwf : topo.WellFormed)
    (howned : topo.OwnedVlans) (h : Reachable topo ok s) {frame : Frame} {src : Host}
    (hsrc : src ∈ topo.hosts.values) (hun : topo.Unknown frame) (hframe : frame.ethSrc = src.eth) :
    ∃ copies, topo.transmit (live topo s) 3 frame src = some copies ∧
      copies.count src.name = 0 ∧ ∀ g ∈ topo.hosts.values, g ≠ src →
        copies.count g.name ≤ if g.switch = src.switch then 1 else topo.coreSwitches.keys.length := by
  obtain ⟨cores, hpart⟩ := (h.valid hwf howned).exists_part hwf
  obtain ⟨copies, hsend, hself, hothers⟩ := hpart.unknown hwf hsrc hun hframe
  rw [Topology.filter_keys] at hothers
  exact ⟨copies, hsend, hself, hothers⟩

theorem sampleTopology_ownedVlans : sampleTopology.OwnedVlans := by
  unfold Topology.OwnedVlans
  decide

theorem broadcast_bounded_sample : ∃ s copies, Reachable sampleTopology (fun _ _ => True) s ∧
    (s.table 102).length = 1 ∧
    sampleTopology.transmit (live sampleTopology s) 3 ⟨['3'], ['f']⟩ (sampleHost '3' '1' 1) =
      some copies ∧ copies.count ['h', '3'] = 0 := by
  let actions : List Action := [.connect 101, .connect 102, .switchFeatures 0,
    .stateChange (.main 1), .handlerStep, .load "static".toList, .rpcStep, .rpcStep, .rpcStep,
    .handlerStep, .take 102, .disconnect 101, .take 102, .connect 101, .handlerStep]
  have hrun : ((init sampleTopology).bind (follow (step sampleTopology) (fun _ _ => True)
      actions)).map (fun s => (s.table 102).length) = some 1 := by decide +kernel
  obtain ⟨s, hreach, htable⟩ := exists_reachable hrun
  have hunknown : sampleTopology.Unknown ⟨['3'], ['f']⟩ := by
    unfold Topology.Unknown
    decide
  have hsrc : sampleHost '3' '1' 1 ∈ sampleTopology.hosts.values := by decide
  obtain ⟨copies, hsend, hself, -⟩ :=
    broadcast_bounded sampleTopology_wellFormed sampleTopology_ownedVlans hreach hsrc hunknown rfl
  exact ⟨s, copies, hreach, htable, hsend, hself⟩

end System

end CloudComputing.Minidc
