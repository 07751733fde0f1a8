import CloudComputing.Minidc.Datacenter
import CloudComputing.Minidc.Parser

/-!
# Reading back the configuration file

What `writeConfig` has written of a fat tree and a data center the parser turns
into the same records.  Names, numbers, lists of numbers, the fields of a host,
lines and sections each have a separator of their own, and no part holds a
separator of the level above.
-/

namespace CloudComputing.Minidc

open Lib FattreeTopology

variable {net : Net} {dc : Datacenter} {N H : Nat}

/-! ## Fields -/

/-- An address is a text without white space or commas. -/
structure Net.Printable (net : Net) : Prop where
  ip : ∀ h, ∀ c ∈ net.ip h, Decimal.isSpace c = false ∧ c ≠ ','
  mac : ∀ h, ∀ c ∈ net.mac h, Decimal.isSpace c = false ∧ c ≠ ','

/-- The VLANs of a host. -/
def Datacenter.hostVlans (dc : Datacenter) (h : Str) : List Int :=
  match dc.vlanMap.lookup h with
  | some vlan => [vlan]
  | none => (List.range dc.vlans).map Int.ofNat

theorem Datacenter.getVlan_eq (dc : Datacenter) (h : Str) :
    dc.getVlan h = [':'].intercalate ((dc.hostVlans h).map Decimal.toStr) := by
  unfold getVlan hostVlans
  cases dc.vlanMap.lookup h with
  | none =>
      rw [List.map_map]
      rfl
  | some vlan => simp

theorem mem_intercalate_numbers {vlans : List Int} {c : Char}
    (h : c ∈ [':'].intercalate (vlans.map Decimal.toStr)) : c.isDigit ∨ c = '-' ∨ c = ':' := by
  rcases Text.mem_intercalate h with hsep | ⟨w, hw, hc⟩
  · exact Or.inr (Or.inr hsep)
  · obtain ⟨v, -, rfl⟩ := List.mem_map.mp hw
    exact (Decimal.mem_toStr hc).imp_right Or.inl

theorem parseVlans_intercalate {vlans : List Int} (hne : vlans ≠ []) :
    parseVlans ([':'].intercalate (vlans.map Decimal.toStr)) = some vlans := by
  have hcolon : ∀ l ∈ vlans.map Decimal.toStr, ':' ∉ l := by
    intro l hl
    obtain ⟨v, -, rfl⟩ := List.mem_map.mp hl
    exact Decimal.colon_not_mem_toStr v
  have hread : ∀ v ∈ vlans, (Text.int ∘ Decimal.toStr) v = some (id v) :=
    fun v _ => Text.int_toStr v
  rw [parseVlans, List.splitOn_intercalate ':' hcolon (by simpa using hne), List.mapM_map,
    mapM_eq_some_map hread, List.map_id]

theorem word_intercalate {vlans : List Int} (hne : vlans ≠ []) :
    Text.Word ([':'].intercalate (vlans.map Decimal.toStr)) := by
  refine ⟨?_, fun c hc => ?_⟩
  · cases vlans with
    | nil => exact absurd rfl hne
    | cons v vlans =>
        cases vlans with
        | nil => simpa using Decimal.toStr_ne_nil v
        | cons w vlans => simp
  · rcases mem_intercalate_numbers hc with hdigit | rfl | rfl
    · exact Decimal.isSpace_eq_false (Or.inl hdigit)
    · rfl
    · rfl

theorem word_name {c : Char} (hc : Decimal.isSpace c = false) (n : Nat) :
    Text.Word (c :: Nat.toDigits 10 n) := by
  refine ⟨by simp, fun d hd => ?_⟩
  rcases List.mem_cons.mp hd with rfl | hd
  · exact hc
  · exact Decimal.isSpace_eq_false (Or.inl (Decimal.isDigit_of_mem_digits hd))

/-! ## Lines -/

theorem splitOn_format {name rest : Str} {dpid : Int} {items : List Str}
    (hname : Text.Word name) (hitems : ∀ w ∈ items, Text.Word w)
    (hrest : rest = [' '].intercalate items) :
    (Text.strip (Datacenter.format name dpid rest)).splitOn ' ' =
      name :: Decimal.toStr dpid :: items := by
  subst hrest
  have hwords : ∀ w ∈ name :: Decimal.toStr dpid :: items, Text.Word w := by
    intro w hw
    rcases List.mem_cons.mp hw with rfl | hw
    · exact hname
    · rcases List.mem_cons.mp hw with rfl | hw
      · exact Text.word_toStr dpid
      · exact hitems w hw
  cases items with
  | nil =>
      have hline : Datacenter.format name dpid ([' '].intercalate []) =
          [' '].intercalate [name, Decimal.toStr dpid] ++ [' ', '\n'] := by
        simp [Datacenter.format]
      rw [hline, Text.splitOn_strip (by simp) hwords (by simp [Decimal.isSpace])]
  | cons item items =>
      have hline : Datacenter.format name dpid ([' '].intercalate (item :: items)) =
          [' '].intercalate (name :: Decimal.toStr dpid :: item :: items) ++ ['\n'] := by
        simp [Datacenter.format]
      rw [hline, Text.splitOn_strip (by simp) hwords (by simp [Decimal.isSpace])]

/-- The VLANs of a core switch are one word, or none. -/
def vlanWords (vlans : List Int) : List Str :=
  if vlans = [] then [] else [[':'].intercalate (vlans.map Decimal.toStr)]

theorem splitOn_coreLine {name : Str} {dpid : Int} {vlans : List Int} (hname : Text.Word name) :
    (Text.strip (Datacenter.format name dpid
      ([':'].intercalate (vlans.map Decimal.toStr)))).splitOn ' ' =
      name :: Decimal.toStr dpid :: vlanWords vlans := by
  by_cases hne : vlans = []
  · apply splitOn_format hname
    · simp [vlanWords, hne]
    · simp [vlanWords, hne]
  · apply splitOn_format hname
    · intro w hw
      rw [vlanWords, if_neg hne, List.mem_singleton] at hw
      rw [hw]
      exact word_intercalate hne
    · simp [vlanWords, hne]

/-- What `parseCores` makes of a line. -/
theorem parseCore_line {name : Str} (hname : Text.Word name) (dpid : Int) (vlans : List Int) :
    parseCore (Text.strip (Datacenter.format name dpid
      ([':'].intercalate (vlans.map Decimal.toStr)))) = some ⟨name, dpid, vlans⟩ := by
  simp only [parseCore, splitOn_coreLine hname]
  by_cases hne : vlans = []
  · simp [vlanWords, hne]
  · simp [vlanWords, hne, parseVlans_intercalate hne]

theorem splitOn_hostField (hnet : net.Printable) {h : Str} (hh : ',' ∉ h) :
    (dc.hostField net h).splitOn ',' = [h, net.ip h, net.mac h, dc.getVlan h] := by
  have hline : dc.hostField net h = [','].intercalate [h, net.ip h, net.mac h, dc.getVlan h] := by
    simp [Datacenter.hostField]
  rw [hline]
  apply List.splitOn_intercalate _ _ (by simp)
  intro l hl
  simp only [List.mem_cons, List.not_mem_nil, or_false] at hl
  rcases hl with rfl | rfl | rfl | rfl
  · exact hh
  · exact fun hmem => (hnet.ip h _ hmem).2 rfl
  · exact fun hmem => (hnet.mac h _ hmem).2 rfl
  · intro hmem
    rw [Datacenter.getVlan_eq] at hmem
    rcases mem_intercalate_numbers hmem with hc | hc | hc
    · simp at hc
    · simp at hc
    · simp at hc

theorem word_hostField (hnet : net.Printable) {h : Str} (hh : Text.Word h) :
    Text.Word (dc.hostField net h) := by
  rw [Datacenter.hostField, List.append_assoc, List.append_assoc, List.append_assoc,
    List.append_assoc, List.append_assoc]
  apply hh.append
  intro c hc
  simp only [List.mem_append, List.mem_singleton] at hc
  rcases hc with rfl | hc | rfl | hc | rfl | hc
  · rfl
  · exact (hnet.ip h c hc).1
  · rfl
  · exact (hnet.mac h c hc).1
  · rfl
  · rw [Datacenter.getVlan_eq] at hc
    rcases mem_intercalate_numbers hc with hdigit | rfl | rfl
    · exact Decimal.isSpace_eq_false (Or.inl hdigit)
    · rfl
    · rfl

theorem parseHost_field (hnet : net.Printable) {h switch : Str} (hh : ',' ∉ h)
    (hvlans : dc.hostVlans h ≠ []) : parseHost switch (dc.hostField net h) =
      some ⟨h, net.ip h, net.mac h, switch, dc.hostVlans h⟩ := by
  simp only [parseHost, splitOn_hostField hnet hh]
  simp [Datacenter.getVlan_eq, parseVlans_intercalate hvlans]

/-- What `parseEdges` makes of a line. -/
theorem parseEdge_line (dc : Datacenter) (hnet : net.Printable) {name : Str} {hosts : List Str}
    (hname : Text.Word name) (dpid : Int) (hhosts : ∀ h ∈ hosts, Text.Word h ∧ ',' ∉ h) :
    parseEdge (Text.strip (Datacenter.format name dpid
      ([' '].intercalate (hosts.map (dc.hostField net))))) = some ⟨name, dpid, hosts⟩ := by
  have hwords : ∀ w ∈ hosts.map (dc.hostField net), Text.Word w := by
    intro w hw
    obtain ⟨h, hh, rfl⟩ := List.mem_map.mp hw
    exact word_hostField hnet (hhosts h hh).1
  have hnames : ∀ h ∈ hosts,
      ((fun n => (n.splitOn ',')[0]?) ∘ dc.hostField net) h = some (id h) := by
    intro h hh
    rw [Function.comp_apply, splitOn_hostField hnet (hhosts h hh).2]
    rfl
  have hread := mapM_eq_some_map hnames
  rw [List.map_id] at hread
  simp only [parseEdge, splitOn_format hname hwords rfl]
  simp [hread]

/-! ## Sections -/

theorem not_separator {line name dpid : Str} {items : List Str}
    (h : line.splitOn ' ' = name :: dpid :: items) : ¬ line <:+: ['*'] := by
  intro hsub
  have hblank : ' ' ∉ line := fun hmem => absurd (hsub.subset hmem) (by decide)
  rw [List.splitOn_eq_singleton hblank] at h
  cases h

theorem splitSections_lines {first second : List Str} (third : List Str) (hfirst : first ≠ [])
    (hsecond : second ≠ []) (hlines : ∀ line ∈ first ++ second ++ third, '\n' ∉ line)
    (hwords : ∀ line ∈ first ++ second, ∃ name dpid items,
      (Text.strip (line ++ ['\n'])).splitOn ' ' = name :: dpid :: items) :
    ∃ rest, splitSections (Text.readlines ((first.map (· ++ ['\n'])).flatten ++ ['*', '\n'] ++
        (second.map (· ++ ['\n'])).flatten ++ ['*', '\n'] ++
        (third.map (· ++ ['\n'])).flatten)) ['*'] =
      first.map (fun line => Text.strip (line ++ ['\n'])) ::
        second.map (fun line => Text.strip (line ++ ['\n'])) :: rest := by
  have hfile : (first.map (· ++ ['\n'])).flatten ++ ['*', '\n'] ++
      (second.map (· ++ ['\n'])).flatten ++ ['*', '\n'] ++ (third.map (· ++ ['\n'])).flatten =
      ((first ++ ['*'] :: second ++ ['*'] :: third).map (· ++ ['\n'])).flatten ++ [] := by
    simp
  have hclean : ∀ line ∈ first ++ ['*'] :: second ++ ['*'] :: third, '\n' ∉ line := by
    intro line hline
    simp only [List.mem_append, List.mem_cons] at hline hlines
    rcases hline with (hline | rfl | hline) | rfl | hline
    · exact hlines line (Or.inl (Or.inl hline))
    · decide
    · exact hlines line (Or.inl (Or.inr hline))
    · decide
    · exact hlines line (Or.inr hline)
  have hread : ∀ lines : List Str, (lines.map (· ++ ['\n'])).map Text.strip =
      lines.map fun line => Text.strip (line ++ ['\n']) :=
    fun lines => List.map_map
  have hstar : Text.strip (['*'] ++ ['\n']) = ['*'] := by decide
  have hsep : ((['*'] : Str) <:+: ['*'] : Bool) = true := by decide
  have hkept : ∀ part : List Str, (∀ line ∈ part, line ∈ first ++ second) →
      ∀ x ∈ part.map fun line => Text.strip (line ++ ['\n']), (x <:+: ['*'] : Bool) = false := by
    intro part hpart x hx
    obtain ⟨line, hline, rfl⟩ := List.mem_map.mp hx
    obtain ⟨name, dpid, items, hfields⟩ := hwords line (hpart line hline)
    simpa using not_separator hfields
  rw [hfile, Text.readlines_flatten hclean, splitSections]
  simp only [Text.readlines, List.append_nil]
  rw [hread, List.append_assoc, List.map_append, List.cons_append, List.map_cons, List.map_append,
    List.map_cons, hstar]
  rw [List.splitOnP_append_cons_of_forall_mem
      (hkept first fun line hline => List.mem_append_left _ hline) ['*'] hsep,
    List.splitOnP_append_cons_of_forall_mem
      (hkept second fun line hline => List.mem_append_right _ hline) ['*'] hsep]
  rw [List.filter_cons_of_pos (by simpa using hfirst),
    List.filter_cons_of_pos (by simpa using hsecond)]
  exact ⟨_, rfl⟩

/-! ## The file of a fat tree -/

section

variable {t : FattreeTopology}

def body (name : Str) (dpid : Int) (rest : Str) : Str :=
  name ++ [' '] ++ Decimal.toStr dpid ++ [' '] ++ rest

theorem edgeLine_eq (hl : Linked N H (calls N H) (hostIds N H) t) {e : Str}
    (he : e ∈ edgeNames N H) : dc.edgeLine net t e = some (Datacenter.format e (net.dpid e)
      ([' '].intercalate ((hostsOf N H e).map (dc.hostField net)))) := by
  have hlinks := hl.wires.links e (List.mem_append_right _ he)
  rw [incident_calls_edge he] at hlinks
  have hkinds : ∀ x ∈ coreNames N H ++ hostsOf N H e,
      (do return (x, ← t.isSwitch.lookup x) : Option (Str × Bool)) =
        some (x, decide (x ∈ coreNames N H)) := by
    intro x hx
    rcases List.mem_append.mp hx with hx | hx
    · rw [hl.wires.kind x (List.mem_append_left _ hx)]
      simp [hx]
    · obtain ⟨h, hh, rfl⟩ := List.mem_map.mp hx
      have hnot : hostName h ∉ coreNames N H :=
        fun hmem => hostName_not_mem (List.mem_append_left (edgeNames N H) hmem)
      rw [hl.hostKind h (List.mem_of_mem_filter hh)]
      simp [hnot]
  have hcores : ((coreNames N H).map fun x => (x, decide (x ∈ coreNames N H))).filter
      (fun x => !x.2) = [] := by
    rw [List.filter_eq_nil_iff]
    intro x hx
    obtain ⟨c, hc, rfl⟩ := List.mem_map.mp hx
    simpa using hc
  have hhosts : ((hostsOf N H e).map fun x => (x, decide (x ∈ coreNames N H))).filter
      (fun x => !x.2) = (hostsOf N H e).map fun x => (x, decide (x ∈ coreNames N H)) := by
    rw [List.filter_eq_self]
    intro x hx
    obtain ⟨c, hc, rfl⟩ := List.mem_map.mp hx
    obtain ⟨h, -, rfl⟩ := List.mem_map.mp hc
    have hnot : hostName h ∉ coreNames N H :=
      fun hmem => hostName_not_mem (List.mem_append_left (edgeNames N H) hmem)
    simpa using hnot
  rw [Datacenter.edgeLine, hlinks]
  simp only [Option.bind_eq_bind, Option.bind_some] at hkinds ⊢
  rw [mapM_eq_some_map hkinds, Option.bind_some, List.map_append, List.filter_append, hcores, hhosts,
    List.nil_append, List.map_map]
  simp [Function.comp_def]

/-! ### The records -/

section

variable (net dc) (N H)

def coreRecord (c : Str × Nat) : CoreSwitch :=
  ⟨c.1, net.dpid c.1, (dc.vlansOf (coreNames N H).length c.2).map Int.ofNat⟩

def edgeRecord (e : Str) : EdgeSwitch :=
  ⟨e, net.dpid e, hostsOf N H e⟩

def hostRecord (x : Str × Str) : Host :=
  ⟨x.2, net.ip x.2, net.mac x.2, x.1, dc.hostVlans x.2⟩

/-- Every host with its edge switch. -/
def attachments : List (Str × Str) :=
  (edgeNames N H).flatMap fun e => (hostsOf N H e).map fun h => (e, h)

def coreDict : Dict Str CoreSwitch :=
  (coreNames N H).zipIdx.foldl (fun d c => Dict.set c.1 (coreRecord net dc N H c) d) ∅

def edgeDict : Dict Str EdgeSwitch :=
  (edgeNames N H).foldl (fun d e => Dict.set e (edgeRecord net N H e) d) ∅

def hostDict : Dict Str Host :=
  (attachments N H).foldl (fun d x => Dict.set x.2 (hostRecord net dc x) d) ∅

def coreBody (c : Str × Nat) : Str :=
  body c.1 (net.dpid c.1) ([':'].intercalate ((coreRecord net dc N H c).vlans.map Decimal.toStr))

def edgeBody (e : Str) : Str :=
  body e (net.dpid e) ([' '].intercalate ((hostsOf N H e).map (dc.hostField net)))

end

theorem writeConfig_eq (hl : Linked N H (calls N H) (hostIds N H) t) : dc.writeConfig net t =
    some (((((coreNames N H).zipIdx.map (coreBody net dc N H)).map (· ++ ['\n'])).flatten ++
      ['*', '\n'] ++ (((edgeNames N H).map (edgeBody net dc N H)).map (· ++ ['\n'])).flatten ++
      ['*', '\n'] ++ ((hostNames N H).map (· ++ ['\n'])).flatten)) := by
  have hcores : (coreNames N H).zipIdx.map (dc.coreLine net t) =
      ((coreNames N H).zipIdx.map (coreBody net dc N H)).map (· ++ ['\n']) := by
    rw [List.map_map]
    apply List.map_congr_left
    intro c _
    have hvlans : (coreRecord net dc N H c).vlans.map Decimal.toStr =
        (dc.vlansOf t.coreSwitches.length c.2).map fun i : Nat => Decimal.toStr i := by
      rw [hl.coreSwitches, coreRecord, List.map_map]
      rfl
    rw [Function.comp_apply, coreBody, hvlans]
    rfl
  have hedges : (edgeNames N H).mapM (dc.edgeLine net t) =
      some (((edgeNames N H).map (edgeBody net dc N H)).map (· ++ ['\n'])) := by
    rw [List.map_map]
    exact mapM_eq_some_map fun e he => edgeLine_eq hl he
  rw [Datacenter.writeConfig, hl.coreSwitches, hl.edgeSwitches, hl.hosts, hcores, hedges]
  rfl

/-! ### Reading the file -/

theorem word_switch {n : Str} (hn : n ∈ coreNames N H ++ edgeNames N H) : Text.Word n := by
  rw [coreNames, edgeNames, ← List.map_append] at hn
  obtain ⟨i, -, rfl⟩ := List.mem_map.mp hn
  exact word_name (by decide) i

theorem word_host {h e : Str} (hh : h ∈ hostsOf N H e) : Text.Word h ∧ ',' ∉ h := by
  obtain ⟨i, -, rfl⟩ := List.mem_map.mp hh
  refine ⟨word_name (by decide) i, fun hmem => ?_⟩
  rcases List.mem_cons.mp hmem with heq | hdigit
  · exact absurd heq (by decide)
  · have hisDigit := Decimal.isDigit_of_mem_digits hdigit
    simp at hisDigit

theorem newline_not_mem_body {name rest : Str} {dpid : Int} (hname : Text.Word name)
    (hrest : '\n' ∉ rest) : '\n' ∉ body name dpid rest := by
  intro hmem
  simp only [body, List.mem_append, List.mem_singleton] at hmem
  rcases hmem with (((hmem | hmem) | hmem) | hmem) | hmem
  · exact hname.not_mem (by decide) hmem
  · exact absurd hmem (by decide)
  · exact (Text.word_toStr dpid).not_mem (by decide) hmem
  · exact absurd hmem (by decide)
  · exact hrest hmem

theorem mem_coreNames_of_zipIdx {c : Str × Nat} (hc : c ∈ (coreNames N H).zipIdx) :
    c.1 ∈ coreNames N H := by
  obtain ⟨-, -, hget⟩ := List.mem_zipIdx hc
  rw [hget]
  exact List.getElem_mem _

theorem sections_file (hnet : net.Printable) (hN : 2 ≤ N) :
    ∃ rest, splitSections (Text.readlines
      ((((coreNames N H).zipIdx.map (coreBody net dc N H)).map (· ++ ['\n'])).flatten ++
      ['*', '\n'] ++ (((edgeNames N H).map (edgeBody net dc N H)).map (· ++ ['\n'])).flatten ++
      ['*', '\n'] ++ ((hostNames N H).map (· ++ ['\n'])).flatten)) ['*'] =
      (coreNames N H).zipIdx.map (fun c => Text.strip (coreBody net dc N H c ++ ['\n'])) ::
        (edgeNames N H).map (fun e => Text.strip (edgeBody net dc N H e ++ ['\n'])) :: rest := by
  have hfirst : (coreNames N H).zipIdx.map (coreBody net dc N H) ≠ [] := by
    apply List.ne_nil_of_length_pos
    simp only [List.length_map, List.length_zipIdx, coreNames, coreSwitchIds, List.length_range']
    omega
  have hsecond : (edgeNames N H).map (edgeBody net dc N H) ≠ [] := by
    apply List.ne_nil_of_length_pos
    simp only [List.length_map, edgeNames, edgeSwitchIds, List.length_range']
    omega
  have hitems : ∀ e, ∀ w ∈ (hostsOf N H e).map (dc.hostField net), Text.Word w := by
    intro e w hw
    obtain ⟨h, hh, rfl⟩ := List.mem_map.mp hw
    exact word_hostField hnet (word_host hh).1
  obtain ⟨rest, hsections⟩ := splitSections_lines (hostNames N H) hfirst hsecond (by
    intro line hline
    rcases List.mem_append.mp hline with hline | hline
    · rcases List.mem_append.mp hline with hline | hline
      · obtain ⟨c, hc, rfl⟩ := List.mem_map.mp hline
        apply newline_not_mem_body (word_switch (List.mem_append_left _ (mem_coreNames_of_zipIdx hc)))
        intro hmem
        rcases mem_intercalate_numbers hmem with h | h | h
        · simp at h
        · simp at h
        · simp at h
      · obtain ⟨e, he, rfl⟩ := List.mem_map.mp hline
        apply newline_not_mem_body (word_switch (List.mem_append_right _ he))
        intro hmem
        rcases Text.mem_intercalate hmem with h | ⟨w, hw, hmem⟩
        · exact absurd h (by decide)
        · exact (hitems e w hw).not_mem (by decide) hmem
    · obtain ⟨h, -, rfl⟩ := List.mem_map.mp hline
      exact (word_name (by decide) h).not_mem (by decide)) (by
    intro line hline
    rcases List.mem_append.mp hline with hline | hline
    · obtain ⟨c, hc, rfl⟩ := List.mem_map.mp hline
      exact ⟨_, _, _, splitOn_coreLine
        (word_switch (List.mem_append_left _ (mem_coreNames_of_zipIdx hc)))⟩
    · obtain ⟨e, he, rfl⟩ := List.mem_map.mp hline
      exact ⟨_, _, _, splitOn_format (word_switch (List.mem_append_right _ he)) (hitems e) rfl⟩)
  refine ⟨rest, ?_⟩
  rw [hsections, List.map_map, List.map_map]
  rfl

theorem parseCores_file : parseCores ((coreNames N H).zipIdx.map fun c =>
    Text.strip (coreBody net dc N H c ++ ['\n'])) = some (coreDict net dc N H) := by
  rw [parseCores, List.foldlM_map]
  apply foldlM_eq_foldl
  intro c hc d
  have hline := parseCore_line
    (word_switch (List.mem_append_left (edgeNames N H) (mem_coreNames_of_zipIdx hc)))
    (net.dpid c.1) (coreRecord net dc N H c).vlans
  change (parseCore (Text.strip (Datacenter.format c.1 (net.dpid c.1) _))).map _ = _
  rw [hline]
  rfl

theorem parseEdges_file (hnet : net.Printable) : parseEdges ((edgeNames N H).map fun e =>
    Text.strip (edgeBody net dc N H e ++ ['\n'])) = some (edgeDict net N H) := by
  rw [parseEdges, List.foldlM_map]
  apply foldlM_eq_foldl
  intro e he d
  have hline := parseEdge_line dc hnet (word_switch (List.mem_append_right (coreNames N H) he))
    (net.dpid e) fun h (hh : h ∈ hostsOf N H e) => word_host hh
  change (parseEdge (Text.strip (Datacenter.format e (net.dpid e) _))).map _ = _
  rw [hline]
  rfl

theorem parseHosts_file (hnet : net.Printable) (hvlans : ∀ h, dc.hostVlans h ≠ []) :
    parseHosts ((edgeNames N H).map fun e =>
      Text.strip (edgeBody net dc N H e ++ ['\n'])) = some (hostDict net dc N H) := by
  have hloop : hostDict net dc N H = (edgeNames N H).foldl (fun d e => (hostsOf N H e).foldl
      (fun d h => Dict.set h (hostRecord net dc (e, h)) d) d) ∅ := by
    rw [hostDict, attachments, List.foldl_flatMap]
    simp only [List.foldl_map]
  rw [hloop, parseHosts, List.foldlM_map]
  apply foldlM_eq_foldl
  intro e he d
  have hitems : ∀ w ∈ (hostsOf N H e).map (dc.hostField net), Text.Word w := by
    intro w hw
    obtain ⟨h, hh, rfl⟩ := List.mem_map.mp hw
    exact word_hostField hnet (word_host hh).1
  have hfields : (Text.strip (edgeBody net dc N H e ++ ['\n'])).splitOn ' ' =
      e :: Decimal.toStr (net.dpid e) :: (hostsOf N H e).map (dc.hostField net) :=
    splitOn_format (word_switch (List.mem_append_right _ he)) hitems rfl
  simp only [hfields]
  change ((hostsOf N H e).map (dc.hostField net)).foldlM _ d = _
  rw [List.foldlM_map]
  apply foldlM_eq_foldl
  intro h hh d
  rw [parseHost_field hnet (word_host hh).2 (hvlans h)]
  rfl

end

end CloudComputing.Minidc
