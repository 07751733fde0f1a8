import CloudComputing.Minidc.Settled
import CloudComputing.Minidc.View

/-!
# Frames in the emulated network

The switches of the emulated network send frames out of the ports that Mininet gave
to its links; the controller counts the ports itself.  Since it counts them as
Mininet does, what it makes of the configuration file works in the network that the
file describes.
-/

namespace CloudComputing.Minidc

open Lib

/-! ## The two ends of a link -/

namespace Topo

variable {t t' : Topo} {a b n : Str} {kind kind' : Bool} {i p : Nat}

theorem addPort_eq (hne : a ≠ b) (h : t.addPort a b = some t') :
    t'.isSwitch = t.isSwitch ∧ ∃ kind kind', t.isSwitch.lookup a = some kind ∧
      t.isSwitch.lookup b = some kind' ∧ ∀ n, t'.linksOf n =
        if n = b then Dict.set (nextPort kind' (t.linksOf b)) (a, nextPort kind (t.linksOf a))
          (t.linksOf b)
        else if n = a then Dict.set (nextPort kind (t.linksOf a))
          (b, nextPort kind' (t.linksOf b)) (t.linksOf a)
        else t.linksOf n := by
  have hporta : (setdefault b (setdefault a t.ports)).lookup a = some (t.linksOf a) := by
    rw [lookup_setdefault, if_neg hne, lookup_setdefault, if_pos rfl, linksOf]
  have hportb : (setdefault b (setdefault a t.ports)).lookup b = some (t.linksOf b) := by
    rw [lookup_setdefault, if_pos rfl, lookup_setdefault, if_neg hne.symm, linksOf]
  have hother : ∀ n, n ≠ b → n ≠ a →
      (setdefault b (setdefault a t.ports)).lookup n = t.ports.lookup n := by
    intro n hb ha
    rw [lookup_setdefault, if_neg hb, lookup_setdefault, if_neg ha]
  rw [addPort] at h
  obtain ⟨kind, hkind, h⟩ := Option.bind_eq_some_iff.mp h
  rw [hporta, Option.bind_eq_bind, Option.bind_some] at h
  obtain ⟨kind', hkind', h⟩ := Option.bind_eq_some_iff.mp h
  simp only [hportb, Option.bind_some, Dict.lookup_set_ne hne.symm] at h
  obtain rfl := Option.some.inj h
  refine ⟨rfl, kind, kind', hkind, hkind', fun n => ?_⟩
  rw [linksOf]
  by_cases hb : n = b
  · rw [if_pos hb, hb, Dict.lookup_set_self, Option.getD_some]
  · rw [if_neg hb, Dict.lookup_set_ne hb]
    by_cases ha : n = a
    · rw [if_pos ha, ha, Dict.lookup_set_self, Option.getD_some]
    · rw [if_neg ha, Dict.lookup_set_ne ha, hother n hb ha, linksOf]

/-- Every link is in the tables of both of its ends. -/
structure Paired (t : Topo) : Prop where
  fresh : ∀ n kind, t.isSwitch.lookup n = some kind → ∀ i, nextPort kind (t.linksOf n) ≤ i →
    i ∉ t.linksOf n
  unlinked : ∀ n, t.isSwitch.lookup n = none → t.linksOf n = ∅
  back : ∀ a i b p, (t.linksOf a).lookup i = some (b, p) → (t.linksOf b).lookup p = some (a, i)

theorem nextPort_set {links : Links} {kind : Bool} (x : Str × Nat)
    (h : nextPort kind links ∉ links) :
    nextPort kind (Dict.set (nextPort kind links) x links) = nextPort kind links + 1 := by
  rw [nextPort, Dict.keys_set_of_not_mem h, List.length_cons, nextPort]
  omega

theorem Paired.addPort (h : Paired t) (hne : a ≠ b) (hadd : t.addPort a b = some t') :
    Paired t' := by
  obtain ⟨hsame, kind, kind', ha, hb, hlinks⟩ := addPort_eq hne hadd
  have hfresha := h.fresh a kind ha _ le_rfl
  have hfreshb := h.fresh b kind' hb _ le_rfl
  -- no link is lost
  have hkept : ∀ n i x, (t.linksOf n).lookup i = some x → (t'.linksOf n).lookup i = some x := by
    intro n i x hx
    have hmem := Dict.mem_of_lookup hx
    rw [hlinks]
    by_cases hnb : n = b
    · subst hnb
      rw [if_pos rfl, Dict.lookup_set_ne, hx]
      rintro rfl
      exact hfreshb hmem
    · rw [if_neg hnb]
      by_cases hna : n = a
      · subst hna
        rw [if_pos rfl, Dict.lookup_set_ne, hx]
        rintro rfl
        exact hfresha hmem
      · rw [if_neg hna, hx]
  refine ⟨fun n k hn i hi => ?_, fun n hn => ?_, fun n i m p hlink => ?_⟩
  · rw [hsame] at hn
    rw [hlinks] at hi ⊢
    by_cases hnb : n = b
    · subst hnb
      obtain rfl := Option.some.inj (hb.symm.trans hn)
      rw [if_pos rfl, nextPort_set _ hfreshb] at hi
      rw [if_pos rfl, Dict.mem_set]
      rintro (rfl | hmem)
      · omega
      · exact h.fresh n _ hn i (by omega) hmem
    · rw [if_neg hnb] at hi ⊢
      by_cases hna : n = a
      · subst hna
        obtain rfl := Option.some.inj (ha.symm.trans hn)
        rw [if_pos rfl, nextPort_set _ hfresha] at hi
        rw [if_pos rfl, Dict.mem_set]
        rintro (rfl | hmem)
        · omega
        · exact h.fresh n _ hn i (by omega) hmem
      · rw [if_neg hna] at hi ⊢
        exact h.fresh n k hn i hi
  · rw [hsame] at hn
    have hnb : n ≠ b := by
      rintro rfl
      rw [hb] at hn
      cases hn
    have hna : n ≠ a := by
      rintro rfl
      rw [ha] at hn
      cases hn
    rw [hlinks, if_neg hnb, if_neg hna, h.unlinked n hn]
  · -- the link is the new one, from either end, or an old one
    rw [hlinks] at hlink
    by_cases hnb : n = b
    · subst hnb
      rw [if_pos rfl, Dict.lookup_set] at hlink
      split at hlink
      case isTrue hi =>
        obtain ⟨rfl, rfl⟩ := Prod.mk.inj (Option.some.inj hlink)
        rw [hlinks, if_neg hne, if_pos rfl, Dict.lookup_set_self, hi]
      case isFalse => exact hkept _ _ _ (h.back _ _ _ _ hlink)
    · rw [if_neg hnb] at hlink
      by_cases hna : n = a
      · subst hna
        rw [if_pos rfl, Dict.lookup_set] at hlink
        split at hlink
        case isTrue hi =>
          obtain ⟨rfl, rfl⟩ := Prod.mk.inj (Option.some.inj hlink)
          rw [hlinks, if_pos rfl, Dict.lookup_set_self, hi]
        case isFalse => exact hkept _ _ _ (h.back _ _ _ _ hlink)
      · rw [if_neg hna] at hlink
        exact hkept _ _ _ (h.back _ _ _ _ hlink)

end Topo

namespace FattreeTopology

variable {t t' : FattreeTopology} {N H h : Nat} {hs : List Nat} {a b n : Str}

/-- The hosts `hs` have been linked, and every link knows both of its ends. -/
structure Cabled (N H : Nat) (hs : List Nat) (t : FattreeTopology) : Prop where
  paired : Topo.Paired t.toTopo
  switch : ∀ n, t.isSwitch.lookup n = some true → n ∈ coreNames N H ++ edgeNames N H
  host : ∀ h ∈ hs, ∃ p, (t.linksOf (hostName h)).lookup 0 = some (switchOf N H h, p)
  new : ∀ h, h ∉ hs → t.isSwitch.lookup (hostName h) = none

theorem lookup_foldl_isSwitch {add : FattreeTopology → Nat → FattreeTopology}
    (hadd : ∀ t s, (add t s).isSwitch = Dict.set (switchName s) true t.isSwitch) (ids : List Nat)
    (t : FattreeTopology) : (ids.foldl add t).isSwitch.lookup n =
      if n ∈ ids.map switchName then some true else t.isSwitch.lookup n := by
  induction ids generalizing t with
  | nil => rfl
  | cons s ids ih =>
      rw [List.foldl_cons, ih, hadd, Dict.lookup_set, List.map_cons]
      by_cases hmem : n ∈ ids.map switchName
      · rw [if_pos hmem, if_pos (List.mem_cons_of_mem _ hmem)]
      · rw [if_neg hmem]
        by_cases hn : n = switchName s
        · rw [if_pos hn, if_pos (hn ▸ List.mem_cons_self)]
        · rw [if_neg hn, if_neg fun hcons => (List.mem_cons.mp hcons).elim hn hmem]

theorem cabled_switches : Cabled N H [] (switches N H) := by
  have hkinds : ∀ n, (switches N H).isSwitch.lookup n =
      if n ∈ edgeNames N H then some true
      else if n ∈ coreNames N H then some true else none := by
    intro n
    rw [switches, lookup_foldl_isSwitch (fun _ _ => rfl), lookup_foldl_isSwitch (fun _ _ => rfl)]
    rfl
  have hlinks : ∀ n, (switches N H).linksOf n = ∅ := by
    intro n
    rw [Topo.linksOf, ready_switches.1.ports]
    rfl
  refine ⟨⟨fun n kind _ i _ => ?_, fun n _ => hlinks n, fun n i m p hlink => ?_⟩, fun n hn => ?_,
    by simp, fun h _ => ?_⟩
  · rw [hlinks]
    exact AList.notMem_empty _
  · rw [hlinks, AList.lookup_empty] at hlink
    cases hlink
  · rw [hkinds] at hn
    split at hn
    case isTrue hedge => exact List.mem_append_right _ hedge
    case isFalse =>
      split at hn
      case isTrue hcore => exact List.mem_append_left _ hcore
      case isFalse => cases hn
  · have hnot := @hostName_not_mem N H h
    rw [List.mem_append, not_or] at hnot
    rw [hkinds, if_neg hnot.2, if_neg hnot.1]

theorem Cabled.linkSwitches (hc : Cabled N H [] t) (hne : a ≠ b)
    (hlink : t.linkSwitches (a, b) = some t') : Cabled N H [] t' := by
  obtain ⟨topo, hadd, hlink⟩ := Option.bind_eq_some_iff.mp hlink
  obtain ⟨_, -, hlink⟩ := Option.bind_eq_some_iff.mp hlink
  obtain ⟨_, -, hlink⟩ := Option.bind_eq_some_iff.mp hlink
  obtain rfl := Option.some.inj hlink
  obtain ⟨hsame, -⟩ := Topo.addPort_eq hne hadd
  refine ⟨hc.paired.addPort hne hadd, fun n hn => hc.switch n ?_, by simp, fun h hh => ?_⟩
  · rwa [hsame] at hn
  · change topo.isSwitch.lookup _ = _
    rw [hsame]
    exact hc.new h hh

theorem switchOf_ne_hostName {h' : Nat} : switchOf N H h ≠ hostName h' :=
  hostName_ne_switchName.symm

theorem Cabled.linkHost (hc : Cabled N H hs t) (hnew : h ∉ hs)
    (hlink : t.linkHost N H h = some t') : Cabled N H (hs ++ [h]) t' := by
  obtain ⟨topo, hadd, hlink⟩ := Option.bind_eq_some_iff.mp hlink
  obtain ⟨_, -, hlink⟩ := Option.bind_eq_some_iff.mp hlink
  obtain rfl := Option.some.inj hlink
  have hunlinked := hc.paired.unlinked _ (hc.new h hnew)
  let before : Topo := { t.toTopo with isSwitch := Dict.set (hostName h) false t.isSwitch }
  have hpaired : Topo.Paired before := by
    refine ⟨fun n kind hn i hi => ?_, fun n hn => ?_, hc.paired.back⟩
    · change (Dict.set (hostName h) false t.isSwitch).lookup n = _ at hn
      by_cases hhost : n = hostName h
      · subst hhost
        change i ∉ t.linksOf (hostName h)
        rw [hunlinked]
        exact AList.notMem_empty _
      · rw [Dict.lookup_set_ne hhost] at hn
        exact hc.paired.fresh n kind hn i hi
    · change (Dict.set (hostName h) false t.isSwitch).lookup n = _ at hn
      rw [Dict.lookup_set] at hn
      split at hn
      case isTrue => cases hn
      case isFalse => exact hc.paired.unlinked n hn
  obtain ⟨hsame, kind, kind', -, hkind', hlinks⟩ := Topo.addPort_eq switchOf_ne_hostName hadd
  have hkinds : ∀ n, topo.isSwitch.lookup n =
      if n = hostName h then some false else t.isSwitch.lookup n := by
    intro n
    rw [hsame]
    exact Dict.lookup_set
  refine ⟨hpaired.addPort switchOf_ne_hostName hadd, fun n hn => ?_, fun h' hh' => ?_,
    fun h' hh' => ?_⟩
  · change topo.isSwitch.lookup n = some true at hn
    rw [hkinds] at hn
    split at hn
    case isTrue => cases hn
    case isFalse => exact hc.switch n hn
  · change ∃ p, (topo.linksOf (hostName h')).lookup 0 = _
    rw [hlinks]
    by_cases heq : h' = h
    · subst heq
      have hfalse : kind' = false := by
        change (Dict.set (hostName h') false t.isSwitch).lookup (hostName h') = some kind' at hkind'
        rw [Dict.lookup_set_self] at hkind'
        exact (Option.some.inj hkind').symm
      have hempty : before.linksOf (hostName h') = ∅ := hunlinked
      rw [if_pos rfl, hfalse]
      refine ⟨Topo.nextPort kind (before.linksOf (switchOf N H h')), ?_⟩
      change (Dict.set (Topo.nextPort false (before.linksOf (hostName h'))) _ _).lookup 0 = _
      rw [hempty]
      exact Dict.lookup_set_self
    · have hold : h' ∈ hs := by
        rcases List.mem_append.mp hh' with hold | hlast
        · exact hold
        · exact absurd (List.mem_singleton.mp hlast) heq
      rw [if_neg fun hname => heq (hostName_inj hname), if_neg switchOf_ne_hostName.symm]
      exact hc.host h' hold
  · change topo.isSwitch.lookup _ = _
    rw [List.mem_append, List.mem_singleton, not_or] at hh'
    rw [hkinds, if_neg fun hname => hh'.2 (hostName_inj hname)]
    exact hc.new h' hh'.1

theorem cabled_build (hbuild : build N H = some t) : Cabled N H (hostIds N H) t := by
  rw [build] at hbuild
  obtain ⟨t₁, hloop₁, hloop₂⟩ := Option.bind_eq_some_iff.mp hbuild
  have hfirst : Cabled N H [] t₁ := by
    have hnames := List.nodup_append.mp (nodup_names N H)
    refine (foldlM_invariant (P := fun rest t => (∀ x ∈ rest, x.1 ≠ x.2) ∧ Cabled N H [] t) ?_
      ⟨?_, cabled_switches⟩ hloop₁).2
    · rintro ⟨a, b⟩ rest t t' ⟨hne, hc⟩ hlink
      exact ⟨fun x hx => hne x (List.mem_cons_of_mem _ hx),
        hc.linkSwitches (hne _ List.mem_cons_self) hlink⟩
    · rintro ⟨a, b⟩ hx
      obtain ⟨ha, hb⟩ := List.pair_mem_product.mp hx
      rw [ready_switches.2.1] at ha
      rw [ready_switches.2.2.1] at hb
      exact hnames.2.2 a ha b hb
  have hsecond := foldlM_invariant (P := fun rest t => ∃ hs, hs ++ rest = hostIds N H ∧
    Cabled N H hs t) ?_ ⟨[], rfl, hfirst⟩ hloop₂
  · obtain ⟨hs, hids, hc⟩ := hsecond
    rw [List.append_nil] at hids
    rwa [hids] at hc
  · rintro h rest t t' ⟨hs, hids, hc⟩ hlink
    have hnodup : (hs ++ h :: rest).Nodup := hids ▸ List.nodup_range'
    have hnew : h ∉ hs := fun hmem => (List.nodup_append.mp hnodup).2.2 h hmem h (by simp) rfl
    exact ⟨hs ++ [h], by simpa using hids, hc.linkHost hnew hlink⟩

end FattreeTopology

/-! ## Forwarding -/

namespace Topo

def across (t : Topo) (sw : Str) (i : Nat) : Option ((Str × Nat) ⊕ Str) := do
  let (n, p) ← (t.linksOf sw).lookup i
  return if ← t.isSwitch.lookup n then .inl (n, p) else .inr n

def outPorts (links : Links) (inport : Nat) : Output → List Nat
  | .flood => links.keys.filter (· ≠ inport)
  | .port p => if p = inport then [] else [p]

/-- A switch has the flow table of its dpid. -/
def flowsOf (t : Topo) (net : Net) (table : Int → Flows) (n : Str) : Flows :=
  if t.isSwitch.lookup n = some true then table (net.dpid n) else []

def forward (t : Topo) (flows : Str → Flows) (frame : Frame) (s : Str × Nat) :
    List ((Str × Nat) ⊕ Str) :=
  let outputs := ((FlowTable.lookup (·.hits frame s.2) (flows s.1)).map FlowEntry.action).getD []
  (outputs.flatMap (outPorts (t.linksOf s.1) s.2)).filterMap (t.across s.1)

/-- The receivers of a frame that a host sends out of its only port. -/
def transmit (t : Topo) (flows : Str → Flows) (limit : Nat) (frame : Frame) (host : Str) :
    Option (List Str) := do
  let s ← (t.linksOf host).lookup 0
  spread (t.forward flows frame) limit s

end Topo

open FattreeTopology

/-- The controller has read the description of the network. -/
structure Emulates (net : Net) (dc : Datacenter) (N H : Nat) (t : FattreeTopology)
    (topo : Topology) : Prop where
  linked : Linked N H (calls N H) (hostIds N H) t
  cabled : Cabled N H (hostIds N H) t
  view : View net dc t topo
  wellFormed : topo.WellFormed

namespace Emulates

variable {net : Net} {dc : Datacenter} {N H : Nat} {t : FattreeTopology} {topo : Topology}
  {n sw : Str} {i : Nat}

theorem mem_switches (h : Emulates net dc N H t topo) :
    n ∈ t.coreSwitches ++ t.edgeSwitches ↔ n ∈ coreNames N H ++ edgeNames N H := by
  rw [h.linked.coreSwitches, h.linked.edgeSwitches]

theorem isSwitch_iff (h : Emulates net dc N H t topo) :
    t.isSwitch.lookup n = some true ↔ n ∈ coreNames N H ++ edgeNames N H :=
  ⟨h.cabled.switch n, h.linked.wires.kind n⟩

theorem mem_cores_iff (h : Emulates net dc N H t topo) :
    n ∈ topo.coreSwitches ↔ n ∈ coreNames N H := by
  rw [← AList.lookup_isSome, Option.isSome_iff_exists]
  constructor
  · rintro ⟨core, hcore⟩
    obtain ⟨i, hi, -⟩ := (h.view.core n core).mp hcore
    rw [h.linked.coreSwitches] at hi
    exact List.mem_of_getElem? hi
  · intro hmem
    rw [← h.linked.coreSwitches] at hmem
    obtain ⟨i, hi⟩ := List.getElem?_of_mem hmem
    exact ⟨_, (h.view.core n _).mpr ⟨i, hi, rfl⟩⟩

theorem mem_edges_iff (h : Emulates net dc N H t topo) :
    n ∈ topo.edgeSwitches ↔ n ∈ edgeNames N H := by
  rw [← AList.lookup_isSome, Option.isSome_iff_exists]
  constructor
  · rintro ⟨edge, hedge⟩
    rw [← h.linked.edgeSwitches]
    exact ((h.view.edge n edge).mp hedge).1
  · intro hmem
    have hlinks := h.linked.wires.links n (List.mem_append_right _ hmem)
    rw [← h.linked.edgeSwitches] at hmem
    exact ⟨_, (h.view.edge n _).mpr ⟨hmem, _, hlinks, rfl⟩⟩

theorem mem_topo_iff (h : Emulates net dc N H t topo) :
    n ∈ topo.coreSwitches ∨ n ∈ topo.edgeSwitches ↔ n ∈ coreNames N H ++ edgeNames N H := by
  rw [List.mem_append, h.mem_cores_iff, h.mem_edges_iff]

theorem dpid_eq (h : Emulates net dc N H t topo) :
    topo.dpid n = if n ∈ coreNames N H ++ edgeNames N H then some (net.dpid n) else none := by
  by_cases hmem : n ∈ coreNames N H ++ edgeNames N H
  · rw [if_pos hmem]
    by_cases hcore : n ∈ topo.coreSwitches
    · obtain ⟨core, hlookup⟩ := Option.isSome_iff_exists.mp (AList.lookup_isSome.mpr hcore)
      obtain ⟨i, -, rfl⟩ := (h.view.core n core).mp hlookup
      rw [Topology.dpid, hlookup]
      rfl
    · have hedge := (h.mem_topo_iff.mpr hmem).resolve_left hcore
      obtain ⟨edge, hlookup⟩ := Option.isSome_iff_exists.mp (AList.lookup_isSome.mpr hedge)
      obtain ⟨-, _, -, rfl⟩ := (h.view.edge n edge).mp hlookup
      rw [Topology.dpid, AList.lookup_eq_none.mpr hcore, hlookup]
      rfl
  · have hnot := mt h.mem_topo_iff.mp hmem
    rw [not_or] at hnot
    rw [if_neg hmem, Topology.dpid, AList.lookup_eq_none.mpr hnot.1,
      AList.lookup_eq_none.mpr hnot.2]
    rfl

theorem flowsOf_eq (h : Emulates net dc N H t topo) (table : Int → Flows) :
    t.flowsOf net table = fun n => ((topo.dpid n).map table).getD [] := by
  funext n
  rw [h.dpid_eq, Topo.flowsOf]
  by_cases hmem : n ∈ coreNames N H ++ edgeNames N H
  · rw [if_pos hmem, if_pos (h.isSwitch_iff.mpr hmem)]
    rfl
  · rw [if_neg hmem, if_neg (mt h.isSwitch_iff.mp hmem)]
    rfl

theorem kind_of_link (h : Emulates net dc N H t topo) (hsw : sw ∈ coreNames N H ++ edgeNames N H)
    {p : Nat} (hlink : (t.linksOf sw).lookup i = some (n, p)) :
    n ∈ coreNames N H ++ edgeNames N H ∨
      (n ∉ coreNames N H ++ edgeNames N H ∧ t.isSwitch.lookup n = some false) := by
  obtain ⟨j, hj, -⟩ := (h.linked.wires.numbers sw hsw).lookup_iff.mp ⟨p, hlink⟩
  have hmem := List.mem_of_getElem? hj
  rcases List.mem_append.mp hsw with hcore | hedge
  · rw [incident_calls_core hcore] at hmem
    exact Or.inl (List.mem_append_right _ hmem)
  · rw [incident_calls_edge hedge] at hmem
    rcases List.mem_append.mp hmem with hup | hdown
    · exact Or.inl (List.mem_append_left _ hup)
    · obtain ⟨x, hx, rfl⟩ := List.mem_map.mp hdown
      exact Or.inr ⟨hostName_not_mem, h.linked.hostKind x (List.mem_of_mem_filter hx)⟩

/-- The controller knows where every port leads. -/
theorem across_eq (h : Emulates net dc N H t topo) (hsw : sw ∈ coreNames N H ++ edgeNames N H)
    (i : Nat) : (topo.nodeAt sw i).bind (topo.arrive sw) = t.across sw i := by
  have hsw' := h.mem_switches.mpr hsw
  cases hlink : (t.linksOf sw).lookup i with
  | none =>
      have hnode : topo.nodeAt sw i = none := by
        rw [Option.eq_none_iff_forall_not_mem]
        intro n hn
        obtain ⟨p, hp⟩ := (h.view.nodeAt sw hsw' n i).mp hn
        rw [hlink] at hp
        cases hp
      rw [hnode, Topo.across, hlink]
      rfl
  | some x =>
      obtain ⟨n, p⟩ := x
      rw [(h.view.nodeAt sw hsw' n i).mpr ⟨p, hlink⟩, Option.bind_some, Topo.across, hlink]
      rcases h.kind_of_link hsw hlink with hswitch | ⟨hhost, hkind⟩
      · have hport : topo.port n sw = some p :=
          (h.view.port n (h.mem_switches.mpr hswitch) sw p).mpr
            ⟨i, h.cabled.paired.back sw i n p hlink⟩
        rw [Topology.arrive, if_pos (h.mem_topo_iff.mpr hswitch), hport]
        simp only [Option.bind_eq_bind, Option.bind_some, h.isSwitch_iff.mpr hswitch]
        rfl
      · rw [Topology.arrive, if_neg (mt h.mem_topo_iff.mp hhost)]
        simp only [Option.bind_eq_bind, Option.bind_some, hkind]
        rfl

theorem numbers_perm (h : Emulates net dc N H t topo)
    (hsw : sw ∈ coreNames N H ++ edgeNames N H) :
    ((topo.ports.lookup sw).getD ∅).numbers.Perm (t.linksOf sw).keys := by
  obtain ⟨nodes, hports⟩ : ∃ nodes, topo.ports.lookup sw = some (Ports.ofNodes nodes) := by
    rcases h.mem_topo_iff.mpr hsw with hcore | hedge
    · obtain ⟨c, hc, rfl⟩ := h.wellFormed.exists_core hcore
      exact ⟨_, (h.wellFormed.core_wired hc).ports⟩
    · obtain ⟨edge, hlookup⟩ := Option.isSome_iff_exists.mp (AList.lookup_isSome.mpr hedge)
      have hname := h.wellFormed.edges ⟨sw, edge⟩ (Dict.mem_entries_iff.mpr hlookup)
      have he : edge ∈ topo.edgeSwitches.values := Dict.mem_values_iff.mpr ⟨sw, hlookup⟩
      exact ⟨_, hname ▸ (h.wellFormed.edge_wired he).ports⟩
  rw [hports, Option.getD_some]
  refine Ports.numbers_ofNodes.trans ?_
  apply (List.perm_ext_iff_of_nodup _ (t.linksOf sw).keys_nodup).mpr
  · intro i
    have hnode : (∃ n, topo.nodeAt sw i = some n) ↔ ∃ j, ∃ n, nodes[j]? = some n ∧ i = j + 1 := by
      simp only [Topology.nodeAt, hports, Option.bind_some, Ports.node_ofNodes_iff]
      exact exists_comm
    have hlinks : (∃ n, topo.nodeAt sw i = some n) ↔ i ∈ (t.linksOf sw).keys := by
      simp only [h.view.nodeAt sw (h.mem_switches.mpr hsw)]
      rw [← AList.mem_keys, ← AList.lookup_isSome, Option.isSome_iff_exists]
      simp only [Prod.exists]
    rw [← hlinks, hnode, List.mem_map]
    constructor
    · rintro ⟨j, hj, rfl⟩
      have hlt := List.mem_range.mp hj
      exact ⟨j, nodes[j], List.getElem?_eq_getElem hlt, rfl⟩
    · rintro ⟨j, n, hj, rfl⟩
      exact ⟨j, List.mem_range.mpr (List.getElem?_eq_some_iff.mp hj).1, rfl⟩
  · exact List.nodup_range.map fun _ _ heq => Nat.succ.inj heq

theorem forward_perm (h : Emulates net dc N H t topo) (table : Int → Flows) (frame : Frame)
    (s : Str × Nat) : (t.forward (t.flowsOf net table) frame s).Perm
      (topo.forward (t.flowsOf net table) frame s) := by
  obtain ⟨sw, inport⟩ := s
  by_cases hsw : sw ∈ coreNames N H ++ edgeNames N H
  · have hacross : (fun p => (topo.nodeAt sw p).bind (topo.arrive sw)) = t.across sw :=
      funext (h.across_eq hsw)
    unfold Topo.forward Topology.forward
    simp only [hacross]
    apply List.Perm.filterMap
    apply List.Perm.flatMap_left
    intro output _
    cases output with
    | port p => exact .refl _
    | flood => exact ((h.numbers_perm hsw).filter _).symm
  · have hflows : t.flowsOf net table sw = [] := if_neg (mt h.isSwitch_iff.mp hsw)
    unfold Topo.forward Topology.forward
    simp only [hflows]
    exact .refl _

theorem exists_host (h : Emulates net dc N H t topo) (hn : n ∈ t.hosts) :
    ∃ host ∈ topo.hosts.values, host.name = n ∧ host.eth = net.mac n ∧
      t.links.lookup n = some [host.switch] := by
  have hmem := hn
  rw [h.linked.hosts] at hmem
  obtain ⟨x, hx, rfl⟩ := List.mem_map.mp hmem
  have hlookup := (h.view.host (hostName x) _).mpr ⟨hn, _, h.linked.hostLinks x hx, rfl⟩
  exact ⟨_, Dict.mem_values_iff.mpr ⟨_, hlookup⟩, rfl, rfl, h.linked.hostLinks x hx⟩

theorem eq_of_host (h : Emulates net dc N H t topo) {host : Host}
    (hhost : host ∈ topo.hosts.values) : host.name ∈ t.hosts ∧ host.eth = net.mac host.name ∧
      t.links.lookup host.name = some [host.switch] := by
  obtain ⟨n, hn⟩ := Dict.mem_values_iff.mp hhost
  obtain ⟨hmem, e, hlinks, rfl⟩ := (h.view.host n host).mp hn
  exact ⟨hmem, rfl, hlinks⟩

theorem exists_port (h : Emulates net dc N H t topo) {host : Host}
    (hhost : host ∈ topo.hosts.values) : ∃ p, (t.linksOf host.name).lookup 0 =
      some (host.switch, p) ∧ topo.port host.switch host.name = some p := by
  obtain ⟨hmem, -, hlinks⟩ := h.eq_of_host hhost
  rw [h.linked.hosts] at hmem
  obtain ⟨x, hx, hname⟩ := List.mem_map.mp hmem
  rw [← hname] at hlinks ⊢
  have hswitch : switchOf N H x = host.switch :=
    List.singleton_inj.mp (Option.some.inj ((h.linked.hostLinks x hx).symm.trans hlinks))
  obtain ⟨p, hport⟩ := h.cabled.host x hx
  rw [hswitch] at hport
  have hnames : host.switch ∈ coreNames N H ++ edgeNames N H :=
    List.mem_append_right _ (hswitch ▸ switchOf_mem hx)
  exact ⟨p, hport, (h.view.port _ (h.mem_switches.mpr hnames) _ _).mpr
    ⟨0, h.cabled.paired.back _ _ _ _ hport⟩⟩

/-- A frame gets to the hosts that the controller thinks it gets to. -/
theorem transmit_perm (h : Emulates net dc N H t topo) {table : Int → Flows} {frame : Frame}
    {limit : Nat} {host : Host} (hhost : host ∈ topo.hosts.values) {copies : List Str}
    (hsend : topo.transmit (t.flowsOf net table) limit frame host = some copies) :
    ∃ copies', t.transmit (t.flowsOf net table) limit frame host.name = some copies' ∧
      copies'.Perm copies := by
  obtain ⟨p, hport, hknown⟩ := h.exists_port hhost
  rw [Topology.transmit, hknown, Option.bind_some] at hsend
  obtain ⟨copies', hspread, hperm⟩ := spread_perm (h.forward_perm table frame) hsend
  refine ⟨copies', ?_, hperm⟩
  rw [Topo.transmit, hport]
  exact hspread

theorem length_cores (h : Emulates net dc N H t topo) : topo.coreSwitches.keys.length = N - 1 := by
  have hperm : topo.coreSwitches.keys.Perm (coreNames N H) :=
    (List.perm_ext_iff_of_nodup topo.coreSwitches.keys_nodup
      (List.nodup_append.mp (nodup_names N H)).1).mpr fun n => AList.mem_keys.symm.trans h.mem_cores_iff
  rw [hperm.length_eq, length_coreNames]

end Emulates

/-- The controller reads what has been built. -/
theorem exists_emulates (order : DictOrder) {net : Net} {dc : Datacenter} {N H : Nat}
    (hnet : net.Printable) (hdistinct : net.Distinct N H) (hN : 2 ≤ N)
    (hsetup : Datacenter.SetUp dc) (htenants : dc.tenants ≠ []) :
    ∃ t file topo, build N H = some t ∧ dc.writeConfig net t = some file ∧
      Topology.parse order file = some topo ∧ Emulates net dc N H t topo := by
  have hnumbered := hsetup.numbered
  have hpos := hnumbered.vlans_pos htenants
  obtain ⟨t, hbuild, hl⟩ := exists_build N H
  obtain ⟨file, topo, hfile, hparse, hhosts, hswitches, hedges, hcores, hports⟩ :=
    exists_parse order hnet hN hnumbered hpos hl
  exact ⟨t, file, topo, hbuild, hfile, hparse, hl, cabled_build hbuild,
    view_of_parsed hnumbered hpos hN hl hhosts hswitches hedges hcores hports,
    wellFormed_of_parsed hdistinct hN hhosts hedges hcores hports⟩

/-- A data center of any size with tenants: the file is written and read, the controller starts,
and as soon as it has programmed the emulated switches in a quiet run, all frames for hosts arrive
there, and every broadcast reaches every other host, over one core switch or over all. -/
theorem emulated_delivers (order : DictOrder) {net : Net} {dc : Datacenter} {N H : Nat}
    (hnet : net.Printable) (hdistinct : net.Distinct N H) (hN : 2 ≤ N)
    (hsetup : Datacenter.SetUp dc) (htenants : dc.tenants ≠ []) :
    ∃ t file topo, build N H = some t ∧ dc.writeConfig net t = some file ∧
      Topology.parse order file = some topo ∧ (∃ s₀, System.init topo = some s₀) ∧
      ∀ s, System.Reachable topo (System.Quiet topo) s → System.Settled topo s →
        ∀ src ∈ t.hosts,
          (∀ dst ∈ t.hosts, src ≠ dst → ∀ frame, frame.ethDst = net.mac dst →
            t.transmit (t.flowsOf net s.table) 3 frame src = some [dst]) ∧
          ∀ frame, frame.ethSrc = net.mac src → (∀ h ∈ t.hosts, net.mac h ≠ frame.ethDst) →
            ∃ copies, t.transmit (t.flowsOf net s.table) 3 frame src = some copies ∧
              copies.count src = 0 ∧ ∀ g ∈ t.hosts, g ≠ src → copies.count g =
                if t.links.lookup g = t.links.lookup src then 1
                else if s.curpolicy = .default then 1 else N - 1 := by
  obtain ⟨t, file, topo, hbuild, hfile, hparse, h⟩ :=
    exists_emulates order hnet hdistinct hN hsetup htenants
  have howned := h.view.ownedVlans
  refine ⟨t, file, topo, hbuild, hfile, hparse, System.exists_start h.wellFormed howned,
    fun s hreach hsettled src hsrc => ?_⟩
  obtain ⟨host, hhost, rfl, heth, hlinks⟩ := h.exists_host hsrc
  obtain ⟨hunicast, hbroadcast⟩ := hreach.delivers h.wellFormed howned hsettled host hhost
  have hlive : System.live topo s = t.flowsOf net s.table := (h.flowsOf_eq s.table).symm
  rw [hlive] at hunicast hbroadcast
  constructor
  · intro dst hdst hne frame hframe
    obtain ⟨host', hhost', rfl, heth', -⟩ := h.exists_host hdst
    have hsend := hunicast host' hhost' (fun heq => hne (congrArg Host.name heq)) frame
      (hframe.trans heth'.symm)
    obtain ⟨copies, hcopies, hperm⟩ := h.transmit_perm hhost hsend
    rw [hcopies, List.perm_singleton.mp hperm]
  · intro frame hframe hun
    have hunknown : topo.Unknown frame := by
      intro g hg
      obtain ⟨hmem, heth', -⟩ := h.eq_of_host hg
      rw [heth']
      exact hun g.name hmem
    obtain ⟨copies, hsend, hself, hothers⟩ := hbroadcast frame hunknown (hframe.trans heth.symm)
    obtain ⟨copies', hcopies, hperm⟩ := h.transmit_perm hhost hsend
    refine ⟨copies', hcopies, (hperm.count_eq _).trans hself, fun g hg hne => ?_⟩
    obtain ⟨host', hhost', rfl, -, hlinks'⟩ := h.exists_host hg
    rw [hperm.count_eq, hothers host' hhost' fun heq => hne (congrArg Host.name heq), hlinks, hlinks']
    have hbreadth : s.curpolicy.breadth topo = if s.curpolicy = .default then 1 else N - 1 := by
      cases s.curpolicy with
      | default => rfl
      | static => exact h.length_cores
      | adaptive => exact h.length_cores
    simp only [hbreadth, Option.some.injEq, List.cons.injEq, and_true]

theorem emulated_delivers_sample : ∃ t file topo, build 3 2 = some t ∧
    sampleDatacenter.writeConfig sampleNet t = some file ∧
    Topology.parse ⟨fun d => d, fun _ => .refl _⟩ file = some topo ∧
    (∃ s₀, System.init topo = some s₀) ∧
    ∀ s, System.Reachable topo (System.Quiet topo) s → System.Settled topo s →
      t.transmit (t.flowsOf sampleNet s.table) 3 ⟨sampleNet.mac (hostName 3), sampleNet.mac (hostName 1)⟩
        (hostName 3) = some [hostName 1] := by
  have hsetup : Datacenter.SetUp sampleDatacenter :=
    .setup .parity (hostNames 3 2) [⟨2, -1⟩, ⟨4, -1⟩] .new rfl
  have hdistinct : sampleNet.Distinct 3 2 := ⟨by decide, by decide⟩
  obtain ⟨t, file, topo, hbuild, hfile, hparse, hinit, hdelivers⟩ := emulated_delivers
    ⟨fun d => d, fun _ => .refl _⟩ sampleNet_printable hdistinct (by decide) hsetup (by decide)
  refine ⟨t, file, topo, hbuild, hfile, hparse, hinit, fun s hreach hsettled => ?_⟩
  have hhosts : ∀ n ∈ hostIds 3 2, hostName n ∈ t.hosts := by
    intro n hn
    obtain ⟨t', hbuild', hl⟩ := exists_build 3 2
    obtain rfl := Option.some.inj (hbuild.symm.trans hbuild')
    rw [hl.hosts]
    exact List.mem_map_of_mem hn
  exact (hdelivers s hreach hsettled _ (hhosts 3 (by decide))).1 _ (hhosts 1 (by decide))
    (by decide) _ rfl

end CloudComputing.Minidc
