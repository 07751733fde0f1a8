import CloudComputing.Minidc.Monitor

/-!
# The registered switches

`DPSet` of ryu and `stateChangeHandler` of the monitor both keep the connections
of the switches, and both are told when a connection is up and when it is dead.
A switch can connect again before its old connection is noticed to be dead:
`DPSet` then forgets the older connection, the monitor keeps it, and loses the
switch when it dies.
-/

namespace CloudComputing.Minidc

open Lib

/-- `EventOFPStateChange`, of the connection with this number. -/
inductive StateChange
  | main (conn : Nat)
  | dead (conn : Nat)
deriving DecidableEq, Repr

def StateChange.conn : StateChange → Nat
  | main conn => conn
  | dead conn => conn

namespace DPSet

/-- `_register`: a newer connection takes the place of an older one. -/
def register (dpid : Int) (conn : Nat) (dps : Dict Int Nat) : Dict Int Nat :=
  Dict.set dpid conn dps

/-- `_unregister`, with its assertion. -/
def unregister (dpid : Int) (conn : Nat) (dps : Dict Int Nat) : Option (Dict Int Nat) :=
  if conn ∈ dps.values then
    if dps.lookup dpid = some conn then some (dps.erase dpid) else none
  else some dps

/-- `dispacher_change`; `id` is the dpid of a connection. -/
def dispacherChange (id : Nat → Int) (dps : Dict Int Nat) : StateChange → Option (Dict Int Nat)
  | .main conn => some (register (id conn) conn dps)
  | .dead conn => unregister (id conn) conn dps

end DPSet

namespace BandwidthMonitor

def stateChangeHandler (id : Nat → Int) (m : BandwidthMonitor) : StateChange → BandwidthMonitor
  | .main conn => m.register (id conn) conn
  | .dead conn => m.unregister (id conn)

end BandwidthMonitor

/-! ## Connections -/

variable {id : Nat → Int} {events : List StateChange} {e : StateChange} {c x : Nat} {d : Int}
  {dps : Dict Int Nat} {m : BandwidthMonitor}

/-- The connection is up and not dead since. -/
def Up (events : List StateChange) (c : Nat) : Prop :=
  ∃ l₁ l₂, events = l₁ ++ .main c :: l₂ ∧ .dead c ∉ l₂

/-- The last connection of a switch that came up, if it is not dead. -/
def Newest (id : Nat → Int) (events : List StateChange) (d : Int) (c : Nat) : Prop :=
  ∃ l₁ l₂, events = l₁ ++ .main c :: l₂ ∧ id c = d ∧ .dead c ∉ l₂ ∧ ∀ c', .main c' ∈ l₂ → id c' ≠ d

/-- Nothing happens to a connection while another one of its switch is up. -/
def Separate (id : Nat → Int) (events : List StateChange) : Prop :=
  ∀ before e, before ++ [e] <+: events → id e.conn ≠ 0 →
    ∀ c, Up before c → id c = id e.conn → c = e.conn

theorem append_singleton_eq {before l₁ l₂ : List StateChange} {x : StateChange}
    (h : before ++ [e] = l₁ ++ x :: l₂) :
    (before = l₁ ∧ e = x ∧ l₂ = []) ∨ ∃ l, l₂ = l ++ [e] ∧ before = l₁ ++ x :: l := by
  rcases List.eq_nil_or_concat l₂ with rfl | ⟨l, y, rfl⟩
  · obtain ⟨rfl, hx⟩ := List.append_inj' h rfl
    exact Or.inl ⟨rfl, List.singleton_inj.mp hx, rfl⟩
  · rw [List.concat_eq_append, ← List.cons_append, ← List.append_assoc] at h
    obtain ⟨hbefore, hy⟩ := List.append_inj' h rfl
    obtain rfl := List.singleton_inj.mp hy
    exact Or.inr ⟨l, List.concat_eq_append, hbefore⟩

theorem not_up_nil : ¬ Up [] c := by
  rintro ⟨l₁, l₂, h, -⟩
  simp at h

theorem up_main : Up (events ++ [.main x]) c ↔ c = x ∨ Up events c := by
  constructor
  · rintro ⟨l₁, l₂, h, hdead⟩
    rcases append_singleton_eq h with ⟨-, hx, -⟩ | ⟨l, rfl, hbefore⟩
    · exact Or.inl (StateChange.main.inj hx).symm
    · exact Or.inr ⟨l₁, l, hbefore, fun hmem => hdead (List.mem_append_left _ hmem)⟩
  · rintro (rfl | ⟨l₁, l₂, rfl, hdead⟩)
    · exact ⟨events, [], rfl, List.not_mem_nil⟩
    · exact ⟨l₁, l₂ ++ [.main x], by simp, by simpa using hdead⟩

theorem up_dead : Up (events ++ [.dead x]) c ↔ Up events c ∧ c ≠ x := by
  constructor
  · rintro ⟨l₁, l₂, h, hdead⟩
    rcases append_singleton_eq h with ⟨-, hx, -⟩ | ⟨l, rfl, hbefore⟩
    · cases hx
    · refine ⟨⟨l₁, l, hbefore, fun hmem => hdead (List.mem_append_left _ hmem)⟩, ?_⟩
      rintro rfl
      exact hdead (List.mem_append_right _ (List.mem_singleton_self _))
  · rintro ⟨⟨l₁, l₂, rfl, hdead⟩, hne⟩
    exact ⟨l₁, l₂ ++ [.dead x], by simp, by simpa [hdead] using hne⟩

theorem newest_main : Newest id (events ++ [.main x]) d c ↔
    (c = x ∧ id x = d) ∨ (id x ≠ d ∧ Newest id events d c) := by
  constructor
  · rintro ⟨l₁, l₂, h, hid, hdead, hlast⟩
    rcases append_singleton_eq h with ⟨-, hx, -⟩ | ⟨l, rfl, hbefore⟩
    · obtain rfl := StateChange.main.inj hx
      exact Or.inl ⟨rfl, hid⟩
    · refine Or.inr ⟨hlast x (by simp), l₁, l, hbefore, hid, ?_, ?_⟩
      · exact fun hmem => hdead (List.mem_append_left _ hmem)
      · exact fun c' hc' => hlast c' (List.mem_append_left _ hc')
  · rintro (⟨rfl, hid⟩ | ⟨hne, l₁, l₂, rfl, hid, hdead, hlast⟩)
    · exact ⟨events, [], rfl, hid, List.not_mem_nil, fun _ h => absurd h List.not_mem_nil⟩
    · refine ⟨l₁, l₂ ++ [.main x], by simp, hid, by simpa using hdead, fun c' hc' => ?_⟩
      rcases List.mem_append.mp hc' with hc' | hc'
      · exact hlast c' hc'
      · obtain rfl := StateChange.main.inj (List.mem_singleton.mp hc')
        exact hne

theorem newest_dead : Newest id (events ++ [.dead x]) d c ↔ Newest id events d c ∧ c ≠ x := by
  constructor
  · rintro ⟨l₁, l₂, h, hid, hdead, hlast⟩
    rcases append_singleton_eq h with ⟨-, hx, -⟩ | ⟨l, rfl, hbefore⟩
    · cases hx
    · refine ⟨⟨l₁, l, hbefore, hid, fun hmem => hdead (List.mem_append_left _ hmem),
        fun c' hc' => hlast c' (List.mem_append_left _ hc')⟩, ?_⟩
      rintro rfl
      exact hdead (List.mem_append_right _ (List.mem_singleton_self _))
  · rintro ⟨⟨l₁, l₂, rfl, hid, hdead, hlast⟩, hne⟩
    exact ⟨l₁, l₂ ++ [.dead x], by simp, hid, by simpa [hdead] using hne, by simpa using hlast⟩

theorem Newest.up (h : Newest id events d c) : Up events c ∧ id c = d := by
  obtain ⟨l₁, l₂, heq, hid, hdead, -⟩ := h
  exact ⟨⟨l₁, l₂, heq, hdead⟩, hid⟩

/-! ## `DPSet` -/

namespace DPSet

/-- What is registered is the newest connection of each switch; the assertion never fails. -/
theorem exists_dispacherChange
    (h : ∀ d c, dps.lookup d = some c ↔ Newest id events d c) (e : StateChange) :
    ∃ dps', dispacherChange id dps e = some dps' ∧
      ∀ d c, dps'.lookup d = some c ↔ Newest id (events ++ [e]) d c := by
  cases e with
  | main x =>
      refine ⟨_, rfl, fun d c => ?_⟩
      rw [register, Dict.lookup_set, newest_main]
      by_cases hd : d = id x
      · subst hd
        simp [eq_comm]
      · rw [if_neg hd, h]
        simp [Ne.symm hd]
  | dead x =>
      by_cases hmem : x ∈ dps.values
      · obtain ⟨k, hk⟩ := Dict.mem_values_iff.mp hmem
        obtain ⟨-, rfl⟩ := ((h k x).mp hk).up
        refine ⟨dps.erase (id x), ?_, fun d c => ?_⟩
        · rw [dispacherChange, unregister, if_pos hmem, if_pos hk]
        · rw [newest_dead, ← h]
          by_cases hd : d = id x
          · subst hd
            rw [AList.lookup_erase, hk]
            simp [eq_comm]
          · rw [AList.lookup_erase_ne hd]
            constructor
            · intro hc
              refine ⟨hc, ?_⟩
              rintro rfl
              exact hd ((h d c).mp hc).up.2.symm
            · exact And.left
      · refine ⟨dps, ?_, fun d c => ?_⟩
        · rw [dispacherChange, unregister, if_neg hmem]
        · rw [newest_dead, ← h]
          constructor
          · intro hc
            refine ⟨hc, ?_⟩
            rintro rfl
            exact hmem (Dict.mem_values_iff.mpr ⟨d, hc⟩)
          · exact And.left

theorem newest_registered (id : Nat → Int) (events : List StateChange) :
    ∃ dps, events.foldlM (dispacherChange id) ∅ = some dps ∧
      ∀ d c, dps.lookup d = some c ↔ Newest id events d c := by
  induction events using List.reverseRecOn with
  | nil =>
      refine ⟨∅, rfl, fun d c => ?_⟩
      constructor
      · intro h
        rw [AList.lookup_empty] at h
        cases h
      · exact fun h => absurd h.up.1 not_up_nil
  | append_singleton events e ih =>
      obtain ⟨dps, hrun, hdps⟩ := ih
      obtain ⟨dps', hstep, hdps'⟩ := exists_dispacherChange hdps e
      refine ⟨dps', ?_, hdps'⟩
      rw [List.foldlM_append, hrun]
      simpa using hstep

end DPSet

/-! ## The monitor -/

namespace Separate

theorem of_prefix {before : List StateChange} (h : Separate id events) (hpre : before <+: events) :
    Separate id before :=
  fun l e hl => h l e (hl.trans hpre)

theorem last (h : Separate id (events ++ [e])) (hid : id e.conn ≠ 0) (hup : Up events c)
    (hc : id c = id e.conn) : c = e.conn :=
  h events e List.prefix_rfl hid c hup hc

end Separate

namespace BandwidthMonitor

/-- For every switch that is noticed at all, the connection that is up. -/
def Has (id : Nat → Int) (events : List StateChange) (m : BandwidthMonitor) : Prop :=
  ∀ d c, d ≠ 0 → (m.datapaths.lookup d = some c ↔ Up events c ∧ id c = d)

theorem Has.main (h : Has id events m) (hsep : Separate id (events ++ [.main x])) :
    Has id (events ++ [.main x]) (m.stateChangeHandler id (.main x)) := by
  intro d c hd
  rw [up_main, stateChangeHandler, register]
  by_cases hd' : d = id x
  · subst hd'
    by_cases hmem : id x ∈ m.datapaths
    · obtain ⟨c', hc'⟩ := Option.isSome_iff_exists.mp (AList.lookup_isSome.mpr hmem)
      obtain ⟨hup, hid⟩ := (h (id x) c' hd).mp hc'
      obtain rfl : c' = x := hsep.last hd hup hid
      rw [if_neg fun hboth => hboth.2 hmem, h (id c') c hd]
      constructor
      · exact fun hc => ⟨Or.inr hc.1, hc.2⟩
      · rintro ⟨rfl | hc, hid⟩
        · exact ⟨hup, hid⟩
        · exact ⟨hc, hid⟩
    · rw [if_pos ⟨hd, hmem⟩, Dict.lookup_set_self, Option.some.injEq]
      constructor
      · rintro rfl
        exact ⟨Or.inl rfl, rfl⟩
      · rintro ⟨rfl | hc, hid⟩
        · rfl
        · exact (hsep.last hd hc hid).symm
  · have hother : c = x ∨ Up events c → id c = d → Up events c := by
      rintro (rfl | hc) hid
      · exact absurd hid.symm hd'
      · exact hc
    have hsame : (if id x ≠ 0 ∧ id x ∉ m.datapaths then
        { m with datapaths := Dict.set (id x) x m.datapaths } else m).datapaths.lookup d =
          m.datapaths.lookup d := by
      split
      case isTrue => exact Dict.lookup_set_ne hd'
      case isFalse => rfl
    rw [hsame, h d c hd]
    exact ⟨fun hc => ⟨Or.inr hc.1, hc.2⟩, fun hc => ⟨hother hc.1 hc.2, hc.2⟩⟩

theorem Has.dead (h : Has id events m) (hsep : Separate id (events ++ [.dead x])) :
    Has id (events ++ [.dead x]) (m.stateChangeHandler id (.dead x)) := by
  intro d c hd
  rw [up_dead, stateChangeHandler, unregister]
  by_cases hd' : d = id x
  · subst hd'
    have hnone : ¬ ((Up events c ∧ c ≠ x) ∧ id c = id x) :=
      fun hc => hc.1.2 (hsep.last hd hc.1.1 hc.2)
    by_cases hmem : id x ∈ m.datapaths
    · rw [if_pos ⟨hd, hmem⟩, AList.lookup_erase]
      simp [hnone]
    · rw [if_neg fun hboth => hmem hboth.2, AList.lookup_eq_none.mpr hmem]
      simp [hnone]
  · have hsame : (if id x ≠ 0 ∧ id x ∈ m.datapaths then
        { m with datapaths := m.datapaths.erase (id x) } else m).datapaths.lookup d =
          m.datapaths.lookup d := by
      split
      case isTrue => exact AList.lookup_erase_ne hd'
      case isFalse => rfl
    rw [hsame, h d c hd]
    constructor
    · rintro ⟨hc, hid⟩
      refine ⟨⟨hc, ?_⟩, hid⟩
      rintro rfl
      exact hd' hid.symm
    · exact fun hc => ⟨hc.1.1, hc.2⟩

theorem has_foldl {m₀ : BandwidthMonitor} (hempty : m₀.datapaths = ∅) (hsep : Separate id events) :
    Has id events (events.foldl (stateChangeHandler id) m₀) := by
  induction events using List.reverseRecOn with
  | nil =>
      intro d c _
      rw [List.foldl_nil, hempty, AList.lookup_empty]
      simp [not_up_nil]
  | append_singleton events e ih =>
      have hbefore := ih (hsep.of_prefix (List.prefix_append events [e]))
      rw [List.foldl_append]
      cases e with
      | main x => exact hbefore.main hsep
      | dead x => exact hbefore.dead hsep

end BandwidthMonitor

/-! ## Both -/

theorem Separate.newest_iff (h : Separate id events) (hd : d ≠ 0) :
    Newest id events d c ↔ Up events c ∧ id c = d := by
  induction events using List.reverseRecOn with
  | nil => exact ⟨Newest.up, fun hc => absurd hc.1 not_up_nil⟩
  | append_singleton events e ih =>
      have ih' := ih (h.of_prefix (List.prefix_append events [e]))
      cases e with
      | main x =>
          rw [newest_main, up_main, ih']
          constructor
          · rintro (⟨rfl, hid⟩ | ⟨-, hc, hid⟩)
            · exact ⟨Or.inl rfl, hid⟩
            · exact ⟨Or.inr hc, hid⟩
          · rintro ⟨rfl | hc, hid⟩
            · exact Or.inl ⟨rfl, hid⟩
            · by_cases hx : id x = d
              · subst hx
                exact Or.inl ⟨h.last hd hc hid, rfl⟩
              · exact Or.inr ⟨hx, hc, hid⟩
      | dead x =>
          rw [newest_dead, up_dead, ih']
          tauto

/-- The two agree on all switches but one with dpid `0`, which the monitor does not register. -/
def Agree (dps : Dict Int Nat) (m : BandwidthMonitor) : Prop :=
  ∀ d, d ≠ 0 → m.datapaths.lookup d = dps.lookup d

theorem Separate.agree {m₀ : BandwidthMonitor} (hempty : m₀.datapaths = ∅)
    (h : Separate id events) (hdps : events.foldlM (DPSet.dispacherChange id) ∅ = some dps) :
    Agree dps (events.foldl (BandwidthMonitor.stateChangeHandler id) m₀) := by
  obtain ⟨dps', hrun, hnewest⟩ := DPSet.newest_registered id events
  obtain rfl := Option.some.inj (hrun.symm.trans hdps)
  intro d hd
  apply Option.ext
  intro c
  rw [BandwidthMonitor.has_foldl hempty h d c hd, hnewest, h.newest_iff hd]

theorem not_agree {m₀ : BandwidthMonitor} (hempty : m₀.datapaths = ∅) (h : Separate id events)
    (hup : Up events c) (hid : id c = id e.conn) (hne : c ≠ e.conn) (hd : id e.conn ≠ 0)
    (hdps : (events ++ [e]).foldlM (DPSet.dispacherChange id) ∅ = some dps) :
    ¬ Agree dps ((events ++ [e]).foldl (BandwidthMonitor.stateChangeHandler id) m₀) := by
  obtain ⟨dps', hrun, hnewest⟩ := DPSet.newest_registered id (events ++ [e])
  obtain rfl := Option.some.inj (hrun.symm.trans hdps)
  have hbefore := BandwidthMonitor.has_foldl hempty h
  have hlookup := (hbefore (id e.conn) c hd).mpr ⟨hup, hid⟩
  have hmem := Dict.mem_of_lookup hlookup
  intro hagree
  have hsame := hagree (id e.conn) hd
  rw [List.foldl_append, List.foldl_cons, List.foldl_nil] at hsame
  cases e with
  | main x =>
      -- the monitor keeps the older connection
      have hkept : ((events.foldl (BandwidthMonitor.stateChangeHandler id) m₀).stateChangeHandler id
          (.main x)).datapaths.lookup (id x) = some c := by
        rw [BandwidthMonitor.stateChangeHandler, BandwidthMonitor.register,
          if_neg fun hboth => hboth.2 hmem]
        exact hlookup
      have hnew := (hnewest (id x) x).mpr (newest_main.mpr (Or.inl ⟨rfl, rfl⟩))
      rw [StateChange.conn, hkept, hnew] at hsame
      exact hne (Option.some.inj hsame)
  | dead x =>
      -- the monitor forgets the connection that is up
      have hlost : ((events.foldl (BandwidthMonitor.stateChangeHandler id) m₀).stateChangeHandler id
          (.dead x)).datapaths.lookup (id x) = none := by
        rw [BandwidthMonitor.stateChangeHandler, BandwidthMonitor.unregister, if_pos ⟨hd, hmem⟩]
        exact AList.lookup_erase _ _
      have hnew := (hnewest (id x) c).mpr
        (newest_dead.mpr ⟨(h.newest_iff hd).mpr ⟨hup, hid⟩, hne⟩)
      rw [StateChange.conn, hlost, hnew] at hsame
      cases hsame

/-- At every moment and for every dpid but `0` the monitor has the same connection as `DPSet`, which
has the last one that came up if it is not dead, if and only if nothing ever happens to a connection
while another one of its switch is up. -/
theorem agree_iff_separate (topo : Topology) (id : Nat → Int) (events : List StateChange) :
    (∀ before, before <+: events → ∃ dps, before.foldlM (DPSet.dispacherChange id) ∅ = some dps ∧
      (∀ d c, dps.lookup d = some c ↔ Newest id before d c) ∧
      Agree dps (before.foldl (BandwidthMonitor.stateChangeHandler id) (.init topo))) ↔
    Separate id events := by
  have hempty : (BandwidthMonitor.init topo).datapaths = ∅ := rfl
  constructor
  · intro hagree
    induction events using List.reverseRecOn with
    | nil =>
        intro before e hpre
        simp at hpre
    | append_singleton events e ih =>
        have hsep := ih fun before hpre => hagree before (hpre.trans (List.prefix_append _ _))
        intro before e' hpre hid c hup hc
        rcases prefix_append_cases hpre with hpre | ⟨hmem, hall⟩
        · exact hsep before e' hpre hid c hup hc
        · obtain rfl := List.mem_singleton.mp hmem
          obtain rfl : before = events := by
            have hlen := hpre.length_le
            rw [List.length_append, List.length_append] at hlen
            exact (hall.eq_of_length_le (by simpa using hlen)).symm
          by_contra hne
          obtain ⟨dps, hrun, -, hsame⟩ := hagree _ List.prefix_rfl
          exact not_agree hempty hsep hup hc hne hid hrun hsame
  · intro hsep before hpre
    obtain ⟨dps, hrun, hnewest⟩ := DPSet.newest_registered id before
    exact ⟨dps, hrun, hnewest, (hsep.of_prefix hpre).agree hempty hrun⟩

end CloudComputing.Minidc
