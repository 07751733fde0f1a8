import Mathlib.Data.List.ProdSigma
import CloudComputing.Lib.Fold
import CloudComputing.Minidc.Topology

/-!
# The emulated network

`minidc/topo.py`: a topology object of Mininet to which switches, hosts and
links are added.  A link takes the next free port at both of its ends, and the
ports of a switch count from one.
-/

namespace CloudComputing.Minidc

open Lib

/-! ## Mininet -/

/-- Port number, and the node and port at the other end. -/
abbrev Links := Dict Nat (Str × Nat)

structure Topo where
  isSwitch : Dict Str Bool
  ports : Dict Str Links

namespace Topo

/-- `ports.setdefault(node, {})` -/
def setdefault (node : Str) (ports : Dict Str Links) : Dict Str Links :=
  if node ∈ ports then ports else Dict.set node ∅ ports

/-- The next port of a node with these links. -/
def nextPort (isSwitch : Bool) (links : Links) : Nat :=
  links.keys.length + if isSwitch then 1 else 0

/-- `addPort`, as `addLink` calls it. -/
def addPort (src dst : Str) (t : Topo) : Option Topo := do
  let ports := setdefault dst (setdefault src t.ports)
  let sport := nextPort (← t.isSwitch.lookup src) (← ports.lookup src)
  let dport := nextPort (← t.isSwitch.lookup dst) (← ports.lookup dst)
  let ports := Dict.set src (Dict.set sport (dst, dport) (← ports.lookup src)) ports
  let ports := Dict.set dst (Dict.set dport (src, sport) (← ports.lookup dst)) ports
  return { t with ports }

end Topo

/-! ## The fat tree -/

structure FattreeTopology extends Topo where
  coreSwitches : List Str
  edgeSwitches : List Str
  hosts : List Str
  links : Dict Str (List Str)

/-- `'s%s' % n` -/
def switchName (n : Nat) : Str :=
  's' :: Nat.toDigits 10 n

/-- `'h%s' % n` -/
def hostName (n : Nat) : Str :=
  'h' :: Nat.toDigits 10 n

namespace FattreeTopology

/-- `self._links[node].append(other)` -/
def appendLink (node other : Str) (links : Dict Str (List Str)) : Option (Dict Str (List Str)) :=
  (links.lookup node).map fun others => Dict.set node (others ++ [other]) links

def addSwitch (s : Str) (t : FattreeTopology) : FattreeTopology :=
  { t with isSwitch := Dict.set s true t.isSwitch, links := Dict.set s [] t.links }

def addCoreSwitch (t : FattreeTopology) (s : Nat) : FattreeTopology :=
  { t.addSwitch (switchName s) with coreSwitches := t.coreSwitches ++ [switchName s] }

def addEdgeSwitch (t : FattreeTopology) (s : Nat) : FattreeTopology :=
  { t.addSwitch (switchName s) with edgeSwitches := t.edgeSwitches ++ [switchName s] }

/-- The body of the loop over the core and the edge switches. -/
def linkSwitches (t : FattreeTopology) (s : Str × Str) : Option FattreeTopology := do
  let topo ← t.toTopo.addPort s.1 s.2
  let links ← appendLink s.2 s.1 (← appendLink s.1 s.2 t.links)
  return { t with toTopo := topo, links }

section

variable (numEdgeSwitches hostsPerEdge : Nat)

def hostIds : List Nat :=
  List.range' 1 (numEdgeSwitches * hostsPerEdge)

def firstSwitch : Nat :=
  max 101 (numEdgeSwitches * hostsPerEdge + 1)

def edgeSwitchIds : List Nat :=
  List.range' (firstSwitch numEdgeSwitches hostsPerEdge) numEdgeSwitches

def coreSwitchIds : List Nat :=
  List.range' (numEdgeSwitches + firstSwitch numEdgeSwitches hostsPerEdge) (numEdgeSwitches - 1)

/-- The switch of host number `h`. -/
def switchOf (h : Nat) : Str :=
  switchName (firstSwitch numEdgeSwitches hostsPerEdge + h % numEdgeSwitches)

/-- The body of the loop over the hosts. -/
def linkHost (t : FattreeTopology) (h : Nat) : Option FattreeTopology := do
  let host := hostName h
  let switch := switchOf numEdgeSwitches hostsPerEdge h
  let topo ← ({ t.toTopo with isSwitch := Dict.set host false t.isSwitch }).addPort switch host
  let links ← appendLink switch host (Dict.set host [switch] t.links)
  return { t with toTopo := topo, hosts := t.hosts ++ [host], links }

def switches : FattreeTopology :=
  (edgeSwitchIds numEdgeSwitches hostsPerEdge).foldl addEdgeSwitch
    ((coreSwitchIds numEdgeSwitches hostsPerEdge).foldl addCoreSwitch ⟨⟨∅, ∅⟩, [], [], [], ∅⟩)

def build : Option FattreeTopology := do
  let t := switches numEdgeSwitches hostsPerEdge
  let t ← (t.coreSwitches ×ˢ t.edgeSwitches).foldlM linkSwitches t
  (hostIds numEdgeSwitches hostsPerEdge).foldlM (linkHost numEdgeSwitches hostsPerEdge) t

end

end FattreeTopology

/-! ## Names -/

theorem toDigits_inj {m n : Nat} (h : Nat.toDigits 10 m = Nat.toDigits 10 n) : m = n := by
  have hread := congrArg (fun s => Nat.ofDigitChars 10 s 0) h
  simpa [Nat.ofDigitChars_ten_toDigits] using hread

theorem switchName_inj {m n : Nat} (h : switchName m = switchName n) : m = n :=
  toDigits_inj (List.cons.inj h).2

theorem hostName_inj {m n : Nat} (h : hostName m = hostName n) : m = n :=
  toDigits_inj (List.cons.inj h).2

theorem hostName_ne_switchName {m n : Nat} : hostName m ≠ switchName n := by
  intro h
  exact absurd (List.cons.inj h).1 (by decide)

/-! ## Natural order of the names -/

theorem resplit_digits {s : Str} (hne : s ≠ []) (hdigits : ∀ c ∈ s, c.isDigit = true) :
    resplit s = [[], s, []] := by
  induction s with
  | nil => exact absurd rfl hne
  | cons c s ih =>
      have hc := hdigits c List.mem_cons_self
      cases s with
      | nil => simp [resplit, hc]
      | cons d s =>
          rw [resplit, ih (by simp) fun x hx => hdigits x (List.mem_cons_of_mem c hx)]
          simp [hc]

theorem naturalSort_name {c : Char} (hc : c.isDigit = false) (n : Nat) :
    naturalSort (c :: Nat.toDigits 10 n) = [toLex (.inr [c]), toLex (.inl n), toLex (.inr [])] := by
  have hdigits : ∀ d ∈ Nat.toDigits 10 n, d.isDigit = true :=
    fun d hd => Decimal.isDigit_of_mem_digits hd
  have hall : (Nat.toDigits 10 n).all Char.isDigit = true := List.all_eq_true.mpr hdigits
  rw [naturalSort, resplit, resplit_digits Nat.toDigits_ne_nil hdigits]
  simp [hc, tryint, hall, Nat.ofDigitChars_ten_toDigits]

theorem naturalSort_le_iff {c : Char} (hc : c.isDigit = false) (m n : Nat) :
    naturalSort (c :: Nat.toDigits 10 m) ≤ naturalSort (c :: Nat.toDigits 10 n) ↔ m ≤ n := by
  rw [naturalSort_name hc, naturalSort_name hc, ← not_lt, ← not_lt]
  apply not_congr
  constructor
  · intro h
    cases h with
    | rel h => exact absurd h (lt_irrefl _)
    | cons h =>
        cases h with
        | rel h => exact Sum.Lex.inl_lt_inl_iff.mp h
        | cons h =>
            cases h with
            | rel h => exact absurd h (lt_irrefl _)
            | cons h => cases h
  · intro h
    exact .cons (.rel (Sum.Lex.inl_lt_inl_iff.mpr h))

theorem sorted_names {c : Char} (hc : c.isDigit = false) {names : List Str} {ids : List Nat}
    (hperm : names.Perm (ids.map fun n => c :: Nat.toDigits 10 n)) (hids : ids.Pairwise (· < ·)) :
    sorted names = ids.map fun n => c :: Nat.toDigits 10 n := by
  have hsorted : (ids.map fun n => c :: Nat.toDigits 10 n).Pairwise
      fun a b => naturalSort a ≤ naturalSort b := by
    rw [List.pairwise_map]
    exact hids.imp fun h => (naturalSort_le_iff hc _ _).mpr h.le
  have hunique : ∀ a b, a ∈ sorted names → b ∈ (ids.map fun n => c :: Nat.toDigits 10 n) →
      naturalSort a ≤ naturalSort b → naturalSort b ≤ naturalSort a → a = b := by
    intro a b ha hb hab hba
    obtain ⟨n, -, rfl⟩ := List.mem_map.mp hb
    obtain ⟨m, -, rfl⟩ := List.mem_map.mp (hperm.mem_iff.mp (mem_sorted.mp ha))
    rw [le_antisymm ((naturalSort_le_iff hc m n).mp hab) ((naturalSort_le_iff hc n m).mp hba)]
  exact ((sorted_perm names).trans hperm).eq_of_pairwise hunique
    (List.pairwise_insertionSort _ _) hsorted

/-! ## Port numbers -/

/-- The ports of a switch lead to `nodes`, in this order and counting from one. -/
structure Numbers (links : Links) (nodes : List Str) : Prop where
  length : links.keys.length = nodes.length
  node : ∀ i, (links.lookup i).map Prod.fst = if i = 0 then none else nodes[i - 1]?

theorem Numbers.nil : Numbers ∅ [] :=
  ⟨rfl, fun i => by simp⟩

theorem Numbers.set {links : Links} {nodes : List Str} (h : Numbers links nodes) (n : Str)
    (p : Nat) : Numbers (Dict.set (Topo.nextPort true links) (n, p) links) (nodes ++ [n]) := by
  have hport : Topo.nextPort true links = nodes.length + 1 := by
    simp [Topo.nextPort, h.length]
  have hfree : nodes.length + 1 ∉ links := by
    rw [← AList.lookup_eq_none]
    have hnode := h.node (nodes.length + 1)
    rw [if_neg (by omega), List.getElem?_eq_none (by omega)] at hnode
    exact Option.map_eq_none_iff.mp hnode
  rw [hport]
  refine ⟨?_, fun i => ?_⟩
  · rw [Dict.keys_set_of_not_mem hfree, List.length_cons, h.length, List.length_append,
      List.length_singleton]
  · rw [Dict.lookup_set]
    by_cases hi : i = nodes.length + 1
    · subst hi
      simp
    · rw [if_neg hi, h.node i]
      by_cases hzero : i = 0
      · simp [hzero]
      · rw [if_neg hzero, if_neg hzero]
        rcases Nat.lt_or_ge (i - 1) nodes.length with hlt | hge
        · rw [List.getElem?_append_left hlt]
        · rw [List.getElem?_eq_none hge, List.getElem?_eq_none (by simp; omega)]

theorem Numbers.lookup_iff {links : Links} {nodes : List Str} (h : Numbers links nodes) {n : Str}
    {i : Nat} : (∃ p, links.lookup i = some (n, p)) ↔ ∃ j, nodes[j]? = some n ∧ i = j + 1 := by
  have hfst : (∃ p, links.lookup i = some (n, p)) ↔ (links.lookup i).map Prod.fst = some n := by
    simp
  rw [hfst, h.node]
  cases i with
  | zero => simp
  | succ i => simp

/-- The nodes that `sw` is linked to, in the order of the links. -/
def incident (links : List (Str × Str)) (sw : Str) : List Str :=
  links.flatMap fun s => (if s.1 = sw then [s.2] else []) ++ if s.2 = sw then [s.1] else []

theorem incident_append {links links' : List (Str × Str)} {sw : Str} :
    incident (links ++ links') sw = incident links sw ++ incident links' sw :=
  List.flatMap_append

namespace Topo

variable {t : Topo} {a b sw : Str} {kind : Bool}

theorem lookup_setdefault {ports : Dict Str Links} {node : Str} :
    (setdefault node ports).lookup sw = if sw = node then some ((ports.lookup node).getD ∅)
      else ports.lookup sw := by
  unfold setdefault
  by_cases hmem : node ∈ ports
  · rw [if_pos hmem]
    obtain ⟨links, hlinks⟩ := Option.isSome_iff_exists.mp (AList.lookup_isSome.mpr hmem)
    by_cases h : sw = node
    · rw [if_pos h, h, hlinks, Option.getD_some]
    · rw [if_neg h]
  · rw [if_neg hmem, AList.lookup_eq_none.mpr hmem, Dict.lookup_set]
    rfl

/-- The links of a node, none if it has not been linked yet. -/
def linksOf (t : Topo) (sw : Str) : Links :=
  (t.ports.lookup sw).getD ∅

/-- Both ends take their next port, all other nodes keep theirs. -/
theorem exists_addPort (hne : a ≠ b) (ha : t.isSwitch.lookup a = some true)
    (hb : t.isSwitch.lookup b = some kind) : ∃ t', t.addPort a b = some t' ∧
      t'.isSwitch = t.isSwitch ∧
      (∃ p, t'.linksOf a = Dict.set (nextPort true (t.linksOf a)) (b, p) (t.linksOf a)) ∧
      (∃ p, t'.linksOf b = Dict.set (nextPort kind (t.linksOf b)) (a, p) (t.linksOf b)) ∧
      ∀ sw, sw ≠ a → sw ≠ b → t'.linksOf sw = t.linksOf sw := by
  have hporta : (setdefault b (setdefault a t.ports)).lookup a = some (t.linksOf a) := by
    rw [lookup_setdefault, if_neg hne, lookup_setdefault, if_pos rfl, linksOf]
  have hportb : (setdefault b (setdefault a t.ports)).lookup b = some (t.linksOf b) := by
    rw [lookup_setdefault, if_pos rfl, lookup_setdefault, if_neg hne.symm, linksOf]
  have hother : ∀ sw, sw ≠ a → sw ≠ b →
      (setdefault b (setdefault a t.ports)).lookup sw = t.ports.lookup sw := by
    intro sw hswa hswb
    rw [lookup_setdefault, if_neg hswb, lookup_setdefault, if_neg hswa]
  let sport := nextPort true (t.linksOf a)
  let dport := nextPort kind (t.linksOf b)
  let ports := Dict.set b (Dict.set dport (a, sport) (t.linksOf b))
    (Dict.set a (Dict.set sport (b, dport) (t.linksOf a)) (setdefault b (setdefault a t.ports)))
  have hadd : t.addPort a b = some { t with ports } := by
    rw [addPort, ha, hb]
    simp only [Option.bind_eq_bind, Option.bind_some, hporta, hportb, Dict.lookup_set_ne hne.symm]
    rfl
  refine ⟨_, hadd, rfl, ⟨dport, ?_⟩, ⟨sport, ?_⟩, fun sw hswa hswb => ?_⟩
  · rw [linksOf, Dict.lookup_set_ne hne, Dict.lookup_set_self, Option.getD_some]
  · rw [linksOf, Dict.lookup_set_self, Option.getD_some]
  · rw [linksOf, Dict.lookup_set_ne hswb, Dict.lookup_set_ne hswa, hother sw hswa hswb, linksOf]

end Topo

namespace FattreeTopology

variable {t t' : FattreeTopology} {names : List Str} {done : List (Str × Str)} {a b sw : Str}
  {N H h : Nat}

/-- The switches `names` have been linked by `done`. -/
structure Wires (names : List Str) (done : List (Str × Str)) (t : FattreeTopology) : Prop where
  kind : ∀ sw ∈ names, t.isSwitch.lookup sw = some true
  links : ∀ sw ∈ names, t.links.lookup sw = some (incident done sw)
  numbers : ∀ sw ∈ names, Numbers (t.linksOf sw) (incident done sw)

theorem incident_of_left (hne : a ≠ b) : incident (done ++ [(a, b)]) a = incident done a ++ [b] := by
  simp [incident, hne.symm]

theorem incident_of_right (hne : a ≠ b) :
    incident (done ++ [(a, b)]) b = incident done b ++ [a] := by
  simp [incident, hne]

theorem incident_of_ne (ha : sw ≠ a) (hb : sw ≠ b) :
    incident (done ++ [(a, b)]) sw = incident done sw := by
  simp [incident, ha.symm, hb.symm]

theorem Wires.exists_linkSwitches (hw : Wires names done t) (ha : a ∈ names) (hb : b ∈ names)
    (hne : a ≠ b) : ∃ t', t.linkSwitches (a, b) = some t' ∧ Wires names (done ++ [(a, b)]) t' ∧
      t'.coreSwitches = t.coreSwitches ∧ t'.edgeSwitches = t.edgeSwitches ∧ t'.hosts = t.hosts := by
  obtain ⟨topo, hport, hkind, ⟨p, hnewa⟩, ⟨q, hnewb⟩, hrest⟩ :=
    Topo.exists_addPort hne (hw.kind a ha) (hw.kind b hb)
  have hlinksb : (Dict.set a (incident done a ++ [b]) t.links).lookup b = some (incident done b) := by
    rw [Dict.lookup_set_ne hne.symm, hw.links b hb]
  have hlink : t.linkSwitches (a, b) = some { t with
      toTopo := topo
      links := Dict.set b (incident done b ++ [a])
        (Dict.set a (incident done a ++ [b]) t.links) } := by
    simp only [linkSwitches, hport, appendLink, hw.links a ha, Option.bind_eq_bind, Option.bind_some,
      Option.map_some, hlinksb]
    rfl
  refine ⟨_, hlink, ⟨fun sw hsw => ?_, fun sw hsw => ?_, fun sw hsw => ?_⟩, rfl, rfl, rfl⟩
  · change topo.isSwitch.lookup sw = _
    rw [hkind, hw.kind sw hsw]
  · change (Dict.set b (incident done b ++ [a]) (Dict.set a (incident done a ++ [b]) t.links)).lookup
      sw = _
    rw [Dict.lookup_set, Dict.lookup_set]
    by_cases hswb : sw = b
    · rw [if_pos hswb, hswb, incident_of_right hne]
    · rw [if_neg hswb]
      by_cases hswa : sw = a
      · rw [if_pos hswa, hswa, incident_of_left hne]
      · rw [if_neg hswa, hw.links sw hsw, incident_of_ne hswa hswb]
  · change Numbers (topo.linksOf sw) _
    by_cases hswb : sw = b
    · rw [hswb, hnewb, incident_of_right hne]
      exact (hw.numbers b hb).set a q
    · by_cases hswa : sw = a
      · rw [hswa, hnewa, incident_of_left hne]
        exact (hw.numbers a ha).set b p
      · rw [hrest sw hswa hswb, incident_of_ne hswa hswb]
        exact hw.numbers sw hsw

theorem Wires.exists_linkHost (hw : Wires names done t) (hswitch : switchOf N H h ∈ names)
    (hhost : hostName h ∉ names) : ∃ t', t.linkHost N H h = some t' ∧
      Wires names (done ++ [(switchOf N H h, hostName h)]) t' ∧
      t'.coreSwitches = t.coreSwitches ∧ t'.edgeSwitches = t.edgeSwitches ∧
      t'.hosts = t.hosts ++ [hostName h] ∧ t'.isSwitch.lookup (hostName h) = some false ∧
      t'.links.lookup (hostName h) = some [switchOf N H h] ∧
      ∀ n, n ≠ hostName h → t'.isSwitch.lookup n = t.isSwitch.lookup n ∧
        (n ≠ switchOf N H h → t'.links.lookup n = t.links.lookup n) := by
  have hne : switchOf N H h ≠ hostName h := fun heq => hhost (heq ▸ hswitch)
  have hkind : (Dict.set (hostName h) false t.isSwitch).lookup (switchOf N H h) = some true := by
    rw [Dict.lookup_set_ne hne, hw.kind _ hswitch]
  have hnew : (Dict.set (hostName h) false t.isSwitch).lookup (hostName h) = some false :=
    Dict.lookup_set_self
  obtain ⟨topo, hport, hkinds, ⟨p, hports⟩, -, hrest⟩ := Topo.exists_addPort
    (t := { t.toTopo with isSwitch := Dict.set (hostName h) false t.isSwitch }) hne hkind hnew
  have hlinks : (Dict.set (hostName h) [switchOf N H h] t.links).lookup (switchOf N H h) =
      some (incident done (switchOf N H h)) := by
    rw [Dict.lookup_set_ne hne, hw.links _ hswitch]
  have hnames : ∀ sw ∈ names, sw ≠ hostName h := fun sw hsw heq => hhost (heq ▸ hsw)
  have hlink : t.linkHost N H h = some { t with
      toTopo := topo
      hosts := t.hosts ++ [hostName h]
      links := Dict.set (switchOf N H h) (incident done (switchOf N H h) ++ [hostName h])
        (Dict.set (hostName h) [switchOf N H h] t.links) } := by
    simp only [linkHost, hport, appendLink, hlinks, Option.bind_eq_bind, Option.bind_some,
      Option.map_some]
    rfl
  refine ⟨_, hlink, ⟨fun sw hsw => ?_, fun sw hsw => ?_, fun sw hsw => ?_⟩, rfl, rfl, rfl, ?_, ?_,
    fun n hn => ⟨?_, fun hnswitch => ?_⟩⟩
  · change topo.isSwitch.lookup sw = _
    rw [hkinds, Dict.lookup_set_ne (hnames sw hsw), hw.kind sw hsw]
  · change (Dict.set _ _ (Dict.set _ _ t.links)).lookup sw = _
    rw [Dict.lookup_set]
    by_cases hsw' : sw = switchOf N H h
    · rw [if_pos hsw', hsw', incident_of_left hne]
    · rw [if_neg hsw', Dict.lookup_set_ne (hnames sw hsw), hw.links sw hsw,
        incident_of_ne hsw' (hnames sw hsw)]
  · change Numbers (topo.linksOf sw) _
    by_cases hsw' : sw = switchOf N H h
    · rw [hsw', hports, incident_of_left hne]
      exact (hw.numbers _ hswitch).set (hostName h) p
    · rw [hrest sw hsw' (hnames sw hsw), incident_of_ne hsw' (hnames sw hsw)]
      exact hw.numbers sw hsw
  · change topo.isSwitch.lookup _ = _
    rw [hkinds, Dict.lookup_set_self]
  · change (Dict.set _ _ (Dict.set _ _ t.links)).lookup _ = _
    rw [Dict.lookup_set_ne hne.symm, Dict.lookup_set_self]
  · change topo.isSwitch.lookup n = _
    rw [hkinds, Dict.lookup_set_ne hn]
  · change (Dict.set _ _ (Dict.set _ _ t.links)).lookup n = _
    rw [Dict.lookup_set_ne hnswitch, Dict.lookup_set_ne hn]

/-! ## The loops of `build` -/

/-- The switches `names` are there and nothing is linked. -/
structure Ready (names : List Str) (t : FattreeTopology) : Prop where
  kind : ∀ sw ∈ names, t.isSwitch.lookup sw = some true
  links : ∀ sw ∈ names, t.links.lookup sw = some []
  ports : t.ports = ∅

theorem Ready.addSwitch (hr : Ready names t) (s : Str) : Ready (names ++ [s]) (t.addSwitch s) := by
  refine ⟨fun sw hsw => ?_, fun sw hsw => ?_, hr.ports⟩
  · change (Dict.set s true t.isSwitch).lookup sw = _
    rw [Dict.lookup_set]
    by_cases h : sw = s
    · rw [if_pos h]
    · rw [if_neg h]
      exact hr.kind sw (by simpa [h] using hsw)
  · change (Dict.set s [] t.links).lookup sw = _
    rw [Dict.lookup_set]
    by_cases h : sw = s
    · rw [if_pos h]
    · rw [if_neg h]
      exact hr.links sw (by simpa [h] using hsw)

theorem Ready.foldl_addCoreSwitch (hr : Ready names t) (ids : List Nat) :
    Ready (names ++ ids.map switchName) (ids.foldl addCoreSwitch t) ∧
      (ids.foldl addCoreSwitch t).coreSwitches = t.coreSwitches ++ ids.map switchName ∧
      (ids.foldl addCoreSwitch t).edgeSwitches = t.edgeSwitches ∧
      (ids.foldl addCoreSwitch t).hosts = t.hosts := by
  induction ids generalizing names t with
  | nil => exact ⟨by simpa using hr, by simp, rfl, rfl⟩
  | cons s ids ih =>
      have hone : Ready (names ++ [switchName s]) (t.addCoreSwitch s) :=
        ⟨(hr.addSwitch _).kind, (hr.addSwitch _).links, hr.ports⟩
      obtain ⟨hready, hcores, hedges, hhosts⟩ := ih hone
      rw [List.foldl_cons]
      exact ⟨by simpa using hready, by simpa [addCoreSwitch] using hcores, hedges, hhosts⟩

theorem Ready.foldl_addEdgeSwitch (hr : Ready names t) (ids : List Nat) :
    Ready (names ++ ids.map switchName) (ids.foldl addEdgeSwitch t) ∧
      (ids.foldl addEdgeSwitch t).edgeSwitches = t.edgeSwitches ++ ids.map switchName ∧
      (ids.foldl addEdgeSwitch t).coreSwitches = t.coreSwitches ∧
      (ids.foldl addEdgeSwitch t).hosts = t.hosts := by
  induction ids generalizing names t with
  | nil => exact ⟨by simpa using hr, by simp, rfl, rfl⟩
  | cons s ids ih =>
      have hone : Ready (names ++ [switchName s]) (t.addEdgeSwitch s) :=
        ⟨(hr.addSwitch _).kind, (hr.addSwitch _).links, hr.ports⟩
      obtain ⟨hready, hedges, hcores, hhosts⟩ := ih hone
      rw [List.foldl_cons]
      exact ⟨by simpa using hready, by simpa [addEdgeSwitch] using hedges, hcores, hhosts⟩

section

variable (N H)

def coreNames : List Str :=
  (coreSwitchIds N H).map switchName

def edgeNames : List Str :=
  (edgeSwitchIds N H).map switchName

def hostNames : List Str :=
  (hostIds N H).map hostName

def hostsOf (edge : Str) : List Str :=
  ((hostIds N H).filter fun h => switchOf N H h = edge).map hostName

end

theorem ready_switches : Ready (coreNames N H ++ edgeNames N H) (switches N H) ∧
    (switches N H).coreSwitches = coreNames N H ∧ (switches N H).edgeSwitches = edgeNames N H ∧
    (switches N H).hosts = [] := by
  have hempty : Ready [] ⟨⟨∅, ∅⟩, [], [], [], ∅⟩ := ⟨by simp, by simp, rfl⟩
  obtain ⟨hready, hcores, hedges, hhosts⟩ := hempty.foldl_addCoreSwitch (coreSwitchIds N H)
  obtain ⟨hready', hedges', hcores', hhosts'⟩ := hready.foldl_addEdgeSwitch (edgeSwitchIds N H)
  refine ⟨hready', hcores'.trans hcores, ?_, hhosts'.trans hhosts⟩
  rw [hedges] at hedges'
  exact hedges'

theorem Ready.wires (hr : Ready names t) : Wires names [] t := by
  refine ⟨hr.kind, hr.links, fun sw _ => ?_⟩
  rw [Topo.linksOf, hr.ports]
  exact Numbers.nil

/-- All links, in the order of the calls. -/
def calls (N H : Nat) : List (Str × Str) :=
  coreNames N H ×ˢ edgeNames N H ++ (hostIds N H).map fun h => (switchOf N H h, hostName h)

theorem nodup_ids (N H : Nat) : (coreSwitchIds N H ++ edgeSwitchIds N H).Nodup := by
  refine List.nodup_append.mpr ⟨List.nodup_range', List.nodup_range', ?_⟩
  intro m hm n hn heq
  simp only [coreSwitchIds, edgeSwitchIds, List.mem_range'_1] at hm hn
  omega

theorem nodup_names (N H : Nat) : (coreNames N H ++ edgeNames N H).Nodup := by
  rw [coreNames, edgeNames, ← List.map_append]
  exact (nodup_ids N H).map fun _ _ => switchName_inj

theorem switchOf_mem (hh : h ∈ hostIds N H) : switchOf N H h ∈ edgeNames N H := by
  have hN : 0 < N := by
    rcases Nat.eq_zero_or_pos N with rfl | hpos
    · simp [hostIds] at hh
    · exact hpos
  refine List.mem_map_of_mem ?_
  rw [edgeSwitchIds, List.mem_range'_1]
  have hmod := Nat.mod_lt h hN
  omega

theorem hostName_not_mem : hostName h ∉ coreNames N H ++ edgeNames N H := by
  intro hmem
  rw [coreNames, edgeNames, ← List.map_append] at hmem
  obtain ⟨n, -, heq⟩ := List.mem_map.mp hmem
  exact hostName_ne_switchName heq.symm

/-- The links `done` have been made, and the hosts `hs` have been added. -/
structure Linked (N H : Nat) (done : List (Str × Str)) (hs : List Nat) (t : FattreeTopology) :
    Prop where
  wires : Wires (coreNames N H ++ edgeNames N H) done t
  coreSwitches : t.coreSwitches = coreNames N H
  edgeSwitches : t.edgeSwitches = edgeNames N H
  hosts : t.hosts = hs.map hostName
  hostKind : ∀ h ∈ hs, t.isSwitch.lookup (hostName h) = some false
  hostLinks : ∀ h ∈ hs, t.links.lookup (hostName h) = some [switchOf N H h]

theorem Linked.exists_linkSwitches (hl : Linked N H done [] t)
    (ha : a ∈ coreNames N H) (hb : b ∈ edgeNames N H) :
    ∃ t', t.linkSwitches (a, b) = some t' ∧ Linked N H (done ++ [(a, b)]) [] t' := by
  have hne : a ≠ b := (List.nodup_append.mp (nodup_names N H)).2.2 a ha b hb
  obtain ⟨t', hlink, hw, hcores, hedges, hhosts⟩ := hl.wires.exists_linkSwitches
    (List.mem_append_left _ ha) (List.mem_append_right _ hb) hne
  exact ⟨t', hlink, hw, hcores.trans hl.coreSwitches, hedges.trans hl.edgeSwitches,
    hhosts.trans hl.hosts, by simp, by simp⟩

theorem Linked.exists_linkHost {hs : List Nat} (hl : Linked N H done hs t) (hh : h ∈ hostIds N H)
    (hnew : h ∉ hs) : ∃ t', t.linkHost N H h = some t' ∧
      Linked N H (done ++ [(switchOf N H h, hostName h)]) (hs ++ [h]) t' := by
  obtain ⟨t', hlink, hw, hcores, hedges, hhosts, hkind, hlinks, hrest⟩ :=
    hl.wires.exists_linkHost (List.mem_append_right _ (switchOf_mem hh)) hostName_not_mem
  have hother : ∀ h' ∈ hs, hostName h' ≠ hostName h := by
    rintro h' hh' heq
    exact hnew (hostName_inj heq ▸ hh')
  refine ⟨t', hlink, hw, hcores.trans hl.coreSwitches, hedges.trans hl.edgeSwitches, ?_,
    fun h' hh' => ?_, fun h' hh' => ?_⟩
  · rw [hhosts, hl.hosts, List.map_append, List.map_singleton]
  · rcases List.mem_append.mp hh' with hold | hlast
    · rw [(hrest _ (hother h' hold)).1, hl.hostKind h' hold]
    · rw [List.mem_singleton.mp hlast, hkind]
  · rcases List.mem_append.mp hh' with hold | hlast
    · rw [(hrest _ (hother h' hold)).2 hostName_ne_switchName, hl.hostLinks h' hold]
    · rw [List.mem_singleton.mp hlast, hlinks]

/-- `build` makes all links and adds all hosts, whatever its two numbers. -/
theorem exists_build (N H : Nat) :
    ∃ t, build N H = some t ∧ Linked N H (calls N H) (hostIds N H) t := by
  obtain ⟨hready, hcores, hedges, hhosts⟩ := @ready_switches N H
  have hstart : Linked N H [] [] (switches N H) :=
    ⟨hready.wires, hcores, hedges, hhosts, by simp, by simp⟩
  have hfirst : ∃ t, (coreNames N H ×ˢ edgeNames N H).foldlM linkSwitches (switches N H) = some t ∧
      ∃ done, done ++ [] = coreNames N H ×ˢ edgeNames N H ∧ Linked N H done [] t := by
    apply foldlM_total (P := fun rest t => ∃ done, done ++ rest = coreNames N H ×ˢ edgeNames N H ∧
      Linked N H done [] t) ?_ ⟨[], rfl, hstart⟩
    rintro ⟨a, b⟩ rest t ⟨done, hdone, hl⟩
    have hmem : (a, b) ∈ coreNames N H ×ˢ edgeNames N H := by simp [← hdone]
    obtain ⟨ha, hb⟩ := List.pair_mem_product.mp hmem
    obtain ⟨t', hlink, hl'⟩ := hl.exists_linkSwitches ha hb
    exact ⟨t', hlink, done ++ [(a, b)], by simpa using hdone, hl'⟩
  obtain ⟨t₁, hloop₁, done, hdone, hl₁⟩ := hfirst
  rw [List.append_nil] at hdone
  subst hdone
  have hsecond : ∃ t, (hostIds N H).foldlM (linkHost N H) t₁ = some t ∧ ∃ hs, hs ++ [] = hostIds N H ∧
      Linked N H (coreNames N H ×ˢ edgeNames N H ++ hs.map fun h => (switchOf N H h, hostName h))
        hs t := by
    apply foldlM_total (P := fun rest t => ∃ hs, hs ++ rest = hostIds N H ∧
      Linked N H (coreNames N H ×ˢ edgeNames N H ++ hs.map fun h => (switchOf N H h, hostName h))
        hs t) ?_ ⟨[], rfl, by simpa using hl₁⟩
    rintro h rest t ⟨hs, hids, hl⟩
    have hnodup : (hs ++ h :: rest).Nodup := hids ▸ List.nodup_range'
    have hnew : h ∉ hs := fun hmem => (List.nodup_append.mp hnodup).2.2 h hmem h (by simp) rfl
    obtain ⟨t', hlink, hl'⟩ := hl.exists_linkHost (by simp [← hids]) hnew
    exact ⟨t', hlink, hs ++ [h], by simpa using hids, by simpa using hl'⟩
  obtain ⟨t₂, hloop₂, hs, hids, hl₂⟩ := hsecond
  rw [List.append_nil] at hids
  subst hids
  refine ⟨t₂, ?_, hl₂⟩
  rw [build]
  simp only [hcores, hedges, Option.bind_eq_bind, hloop₁, Option.bind_some, hloop₂]

/-! ## Who is linked to whom -/

theorem incident_map_left {x : Str} {bs : List Str} (hsw : sw ∉ bs) :
    incident (bs.map (x, ·)) sw = if x = sw then bs else [] := by
  induction bs with
  | nil => simp [incident]
  | cons b bs ih =>
      rw [List.mem_cons, not_or] at hsw
      have hrest := ih hsw.2
      unfold incident at hrest ⊢
      rw [List.map_cons, List.flatMap_cons, hrest, if_neg (Ne.symm hsw.1)]
      by_cases hx : x = sw
      · simp [hx]
      · simp [hx]

theorem incident_map_right {x : Str} {bs : List Str} (hnodup : bs.Nodup) (hsw : sw ∈ bs)
    (hne : x ≠ sw) : incident (bs.map (x, ·)) sw = [x] := by
  induction bs with
  | nil => cases hsw
  | cons b bs ih =>
      rw [List.nodup_cons] at hnodup
      have hcons : incident ((b :: bs).map (x, ·)) sw =
          (if b = sw then [x] else []) ++ incident (bs.map (x, ·)) sw := by
        simp [incident, hne]
      rw [hcons]
      by_cases hb : b = sw
      · subst hb
        rw [if_pos rfl, incident_map_left hnodup.1, if_neg hne]
        rfl
      · rw [if_neg hb, ih hnodup.2 (List.mem_of_ne_of_mem (Ne.symm hb) hsw)]
        rfl

theorem incident_product_left {as bs : List Str} (hnodup : as.Nodup) (ha : sw ∈ as)
    (hb : sw ∉ bs) : incident (as ×ˢ bs) sw = bs := by
  induction as with
  | nil => cases ha
  | cons x as ih =>
      rw [List.nodup_cons] at hnodup
      rw [List.product_cons, incident_append, incident_map_left hb]
      by_cases hx : x = sw
      · subst hx
        have hrest : incident (as ×ˢ bs) x = [] := by
          rw [incident, List.flatMap_eq_nil_iff]
          rintro ⟨a, b⟩ hmem
          obtain ⟨ha, hb'⟩ := List.pair_mem_product.mp hmem
          have hax : a ≠ x := fun heq => hnodup.1 (heq ▸ ha)
          have hbx : b ≠ x := fun heq => hb (heq ▸ hb')
          simp [hax, hbx]
        rw [if_pos rfl, hrest, List.append_nil]
      · rw [if_neg hx, List.nil_append, ih hnodup.2 (List.mem_of_ne_of_mem (Ne.symm hx) ha)]

theorem incident_product_right {as bs : List Str} (hnodup : bs.Nodup) (ha : sw ∉ as)
    (hb : sw ∈ bs) : incident (as ×ˢ bs) sw = as := by
  induction as with
  | nil => rfl
  | cons x as ih =>
      rw [List.mem_cons, not_or] at ha
      rw [List.product_cons, incident_append, incident_map_right hnodup hb (Ne.symm ha.1), ih ha.2]
      rfl

theorem incident_hosts {ids : List Nat} (hsw : ∀ h ∈ ids, hostName h ≠ sw) :
    incident (ids.map fun h => (switchOf N H h, hostName h)) sw =
      (ids.filter fun h => switchOf N H h = sw).map hostName := by
  induction ids with
  | nil => rfl
  | cons h ids ih =>
      have hcons : incident ((h :: ids).map fun h => (switchOf N H h, hostName h)) sw =
          (if switchOf N H h = sw then [hostName h] else []) ++
            incident (ids.map fun h => (switchOf N H h, hostName h)) sw := by
        simp [incident, hsw h List.mem_cons_self]
      rw [hcons, ih fun h' hh' => hsw h' (List.mem_cons_of_mem h hh')]
      by_cases heq : switchOf N H h = sw
      · simp [heq]
      · simp [heq]

theorem incident_calls_core (hsw : sw ∈ coreNames N H) : incident (calls N H) sw = edgeNames N H := by
  have hnodup := List.nodup_append.mp (nodup_names N H)
  have hedge : sw ∉ edgeNames N H := fun hmem => hnodup.2.2 sw hsw sw hmem rfl
  have hnone : (hostIds N H).filter (fun h => switchOf N H h = sw) = [] := by
    rw [List.filter_eq_nil_iff]
    intro h hh heq
    exact hedge (of_decide_eq_true heq ▸ switchOf_mem hh)
  rw [calls, incident_append, incident_product_left hnodup.1 hsw hedge, incident_hosts, hnone]
  · exact List.append_nil _
  · rintro h - rfl
    exact hostName_not_mem (List.mem_append_left _ hsw)

theorem incident_calls_edge (hsw : sw ∈ edgeNames N H) :
    incident (calls N H) sw = coreNames N H ++ hostsOf N H sw := by
  have hnodup := List.nodup_append.mp (nodup_names N H)
  have hcore : sw ∉ coreNames N H := fun hmem => hnodup.2.2 sw hmem sw hsw rfl
  rw [calls, incident_append, incident_product_right hnodup.2.1 hcore hsw, incident_hosts, hostsOf]
  rintro h - rfl
  exact hostName_not_mem (List.mem_append_right _ hsw)

end FattreeTopology

end CloudComputing.Minidc
