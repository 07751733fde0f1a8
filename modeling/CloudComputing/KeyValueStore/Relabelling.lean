import CloudComputing.KeyValueStore.Completion

/-!
# What stabilization makes of an entry

`stabilizationProtocol` hands the text of an entry to functions that make an
entry of a value.  The key it keeps gets an entry of five fields, and the copies
it sends are read with the role of the old entry.
-/

namespace CloudComputing.KeyValueStore

open Lib

/-- An entry within an entry is no text of an entry whose value has no colon. -/
theorem Entry.nested_ne {e e' : Entry} {timestamp : Int32} {replica : ReplicaType}
    (h : ':' ∉ e'.value) : convertToString ⟨e.convertToString, timestamp, replica⟩ ≠
      e'.convertToString := by
  intro heq
  have hfields := congrArg (fun s => (Split.split delimiter s).length) heq
  have hvalue : Split.split delimiter e'.value = [e'.value] :=
    Split.split_eq_singleton delimiter_ne_nil
      ((Split.clean_one_iff.mpr h).not_mem_sub delimiter_ne_nil)
  simp only [split_convertToString, hvalue, List.length_append, List.length_cons,
    List.length_nil] at hfields
  omega

namespace World

variable {hash : Str → Nat} {self : Address} {newRing old : List Node} {n₀ n₁ n₂ : Node}
  {w w' v : World} {key k value text : Str}

namespace Stabilized

theorem currtime (h : Stabilized self newRing key value old n₀ n₁ n₂ w w') :
    w'.currtime = w.currtime := by
  cases h with
  | handOver | asPrimary | asSecondary | asTertiary => simp

/-- A replica rewrites its entry under its rank; any other node sends a copy to each of the three.
-/
theorem rewritten_or_handedOver (h : Stabilized self newRing key value old n₀ n₁ n₂ w w') :
    (∃ p copies, ownPos self [n₀, n₁, n₂] = some p ∧
      w' = (w.rewrite self key value (rank p)).sendCopies self key value copies) ∨
    (ownPos self [n₀, n₁, n₂] = none ∧
      w'.net = (w.sendCopies self key value (Copy.ofStranger n₀ n₁ n₂)).net) := by
  cases h with
  | handOver hpos => exact Or.inr ⟨hpos, rfl⟩
  | asPrimary o₁ o₂ hpos => exact Or.inl ⟨0, _, hpos, rfl⟩
  | asSecondary o₁ p₁ q₁ hpos => exact Or.inl ⟨1, _, hpos, rfl⟩
  | asTertiary p₂ q₂ p₁ q₁ hpos => exact Or.inl ⟨2, _, hpos, rfl⟩

theorem get?_self (h : Stabilized self newRing key value old n₀ n₁ n₂ w w')
    (hvalue : (w.node self).ht.get? key = some value) (hne : value ≠ []) {p : Nat}
    (hpos : ownPos self [n₀, n₁, n₂] = some p) : (w'.node self).ht.get? key =
      some (Entry.convertToString ⟨value, w.currtime, rank p⟩) := by
  rcases h.rewritten_or_handedOver with ⟨p', copies, hpos', rfl⟩ | ⟨hnone, -⟩
  · obtain rfl := Option.some.inj (hpos'.symm.trans hpos)
    rw [node_sendCopies, get?_rewrite hvalue, if_pos ⟨rfl, hne⟩]
  · rw [hnone] at hpos
    cases hpos

theorem net (h : Stabilized self newRing key value old n₀ n₁ n₂ w w') :
    ∃ sent, w'.net = w.net ++ sent ∧ (ownPos self [n₀, n₁, n₂] = none →
      ∀ c ∈ Copy.ofStranger n₀ n₁ n₂, ∃ transID,
        ⟨self, c.toAddr, (c.message self key value transID).toString⟩ ∈ sent) := by
  rcases h.rewritten_or_handedOver with ⟨p, copies, hpos, rfl⟩ | ⟨-, hnet⟩
  · obtain ⟨sent, hnet, -⟩ := net_sendCopies self key value copies
      (w.rewrite self key value (rank p))
    rw [net_rewrite] at hnet
    refine ⟨sent, hnet, fun hnone => ?_⟩
    rw [hpos] at hnone
    cases hnone
  · obtain ⟨sent, hsent, hcopies⟩ := net_sendCopies self key value (Copy.ofStranger n₀ n₁ n₂) w
    exact ⟨sent, hnet.trans hsent, fun _ => hcopies⟩

end Stabilized

/-- What the loop has done about a key with this text when it is through with it; `sent` is what it
has sent so far. -/
def Treated (hash : Str → Nat) (self : Address) (newRing : List Node) (key text : Str)
    (now : Int32) (sent : List Packet) (w : World) : Prop :=
  ∀ n₀ n₁ n₂, findNodes hash key newRing = [n₀, n₁, n₂] →
    (∀ p, ownPos self [n₀, n₁, n₂] = some p → (w.node self).ht.get? key =
      some (Entry.convertToString ⟨text, now, rank p⟩)) ∧
    (ownPos self [n₀, n₁, n₂] = none → ∀ c ∈ Copy.ofStranger n₀ n₁ n₂, ∃ transID,
      ⟨self, c.toAddr, (c.message self key text transID).toString⟩ ∈ sent)

theorem Treated.turn {now : Int32} {sent sent' : List Packet}
    (ht : Treated hash self newRing k text now sent v) (hk : k ≠ key)
    (hst : Stabilized self newRing key value old n₀ n₁ n₂ v w')
    (hvalue : (v.node self).ht.get? key = some value) :
    Treated hash self newRing k text now (sent ++ sent') w' := by
  intro m₀ m₁ m₂ hfind
  obtain ⟨hown, hcopies⟩ := ht m₀ m₁ m₂ hfind
  constructor
  · intro p hpos
    rw [hst.get?_of_ne hvalue hk]
    exact hown p hpos
  · intro hnone c hc
    obtain ⟨t, hmem⟩ := hcopies hnone c hc
    exact ⟨t, List.mem_append_left _ hmem⟩

theorem treated_stabilizeKeys (h : w.stabilizeKeys hash self newRing = some w')
    (hk : (w.node self).ht.get? k = some text) (hne : text ≠ []) :
    ∃ sent, w'.net = w.net ++ sent ∧ Treated hash self newRing k text w.currtime sent w' := by
  let P : List (Str × Str) → World → Prop := fun rest v => v.currtime = w.currtime ∧
    ∃ sent, v.net = w.net ++ sent ∧ ((k, text) ∈ rest ∨
      (k ∉ rest.map Prod.fst ∧ Treated hash self newRing k text w.currtime sent v))
  have hstart : P (w.node self).ht.hashTable.toList w :=
    ⟨rfl, [], (List.append_nil _).symm, Or.inl (HashTable.mem_toList.mpr hk)⟩
  have hend : P [] w' := by
    refine stabilizeKeys_invariant ?_ hstart h
    intro key value rest v v' n₀ n₁ n₂ ⟨htime, sent, hnet, hstate⟩ hfresh hvalue _ hfind hst
    obtain ⟨sent', hnet', hcopies⟩ := hst.net
    refine ⟨hst.currtime.trans htime, sent ++ sent', by rw [hnet', hnet, List.append_assoc], ?_⟩
    rcases hstate with hmem | ⟨hgone, htreated⟩
    · rcases List.mem_cons.mp hmem with heq | hrest
      · -- the turn of the key itself
        obtain ⟨rfl, rfl⟩ := Prod.mk.inj heq
        refine Or.inr ⟨hfresh, fun m₀ m₁ m₂ hm => ?_⟩
        obtain ⟨rfl, rfl, rfl⟩ : n₀ = m₀ ∧ n₁ = m₁ ∧ n₂ = m₂ := by
          simpa using hfind.symm.trans hm
        refine ⟨fun p hpos => ?_, fun hnone c hc => ?_⟩
        · rw [hst.get?_self hvalue hne hpos, htime]
        · obtain ⟨t, ht⟩ := hcopies hnone c hc
          exact ⟨t, List.mem_append_right _ ht⟩
      · exact Or.inl hrest
    · rw [List.map_cons, List.mem_cons, not_or] at hgone
      exact Or.inr ⟨hgone.2, htreated.turn hgone.1 hst hvalue⟩
  obtain ⟨-, sent, hnet, hstate⟩ := hend
  refine ⟨sent, hnet, ?_⟩
  rcases hstate with hmem | ⟨-, htreated⟩
  · cases hmem
  · exact htreated

/-! ## The roles that are read -/

/-- The entries of `c` have been relabelled: a key that `c` keeps has the text of an entry with the
old value and the new rank, and what another node stores because of a message sent in the course is
read with the old value and the role in the message. -/
structure Relabelled (hash : Str → Nat) (newRing : List Node) (c : Address) (w w' : World) :
    Prop where
  kept : ∀ key (e : Entry) p, (w.node c).ht.get? key = some e.convertToString → ':' ∉ e.value →
    ownPos c (findNodes hash key newRing) = some p → ∃ timestamp,
      (w'.node c).ht.get? key = some (Entry.convertToString ⟨e.value, timestamp, rank p⟩)
  sent : ∀ packets packet uninit m, w'.net = w.net ++ packets → packet ∈ packets →
    packet.dst ≠ c → Message.ofString uninit packet.data = some m →
    ∀ e : Entry, (w.node c).ht.get? m.key = some e.convertToString → ':' ∉ e.value →
    ∀ (u : World) role s, Stores m (u.node packet.dst).ht →
      handle hash uninit packet.dst m (u, role) = some s → ∃ e',
        ((s.1.node packet.dst).ht.get? m.key).bind Entry.ofString = some e' ∧
        e'.value = e.value ∧ e'.replica = m.replica

/-- The copy of a node that is no replica is stored with the role of the old entry. -/
theorem Relabelled.replica_eq {sent : List Packet} {e : Entry} {c : Copy} {transID : Int32}
    (h : Relabelled hash newRing self w w') (hnet : w'.net = w.net ++ sent)
    (hmem : ⟨self, c.toAddr, (c.message self key e.convertToString transID).toString⟩ ∈ sent)
    (hother : c.toAddr ≠ self) (htype : c.type = .create) (hthree : 3 ≤ newRing.length)
    (hkey : Split.Clean Message.delimiter key)
    (hget : (w.node self).ht.get? key = some e.convertToString) (hvalue : ':' ∉ e.value) :
    e.replica = c.replica := by
  let m := c.message self key e.convertToString transID
  have hsendable : m.Sendable := by
    unfold Message.Sendable
    rw [show m.type = .create from htype]
    exact ⟨hkey, Entry.clean_convertToString (Message.clean_of_no_colon hvalue)⟩
  have hreceived : m.received .primary = m := by
    unfold Message.received
    rw [show m.type = .create from htype]
    exact congrArg (fun t => Message.mk t c.replica key e.convertToString self transID false)
      htype.symm
  have hread : Message.ofString .primary m.toString = some m := by
    rw [Message.ofString_toString _ hsendable, hreceived]
  -- a receiver that has no entry yet
  let u : World := initial.setNode c.toAddr { MP2Node.new with ring := newRing }
  have hring : (u.node c.toAddr).ring = newRing := by simp [u, setNode]
  have hstores : Stores m (u.node c.toAddr).ht :=
    Or.inl ⟨htype, by simp [u, setNode, MP2Node.new]⟩
  have hhandle : (handle hash .primary c.toAddr m (u, .primary)).isSome = true :=
    handle_isSome.mpr (Or.inl (by rwa [hring]))
  obtain ⟨s, hs⟩ := Option.isSome_iff_exists.mp hhandle
  obtain ⟨e', he', -, hreplica⟩ := h.sent sent _ .primary m hnet hmem hother hread e hget hvalue u
    .primary s hstores hs
  rw [get?_of_stores hstores hs, Option.bind_some,
    show m.value = e.convertToString from rfl,
    Entry.ofString_rewritten (Entry.ofString_convertToString hvalue), Option.some.injEq] at he'
  rw [he', hreplica]
  rfl

theorem exists_relabelled_iff
    (hform : ∀ key text, (w.node self).ht.get? key = some text →
      ∃ e : Entry, ':' ∉ e.value ∧ text = e.convertToString)
    (hkeys : ∀ key, (w.node self).ht.get? key ≠ none → Split.Clean Message.delimiter key)
    (hold : 3 ≤ (w.node self).ring.length) (hnew : 3 ≤ newRing.length) :
    ∃ w', w.stabilizeKeys hash self newRing = some w' ∧
      (Relabelled hash newRing self w w' ↔ ∀ key, (w.node self).ht.get? key = none) := by
  have hring : (w.node self).ring ≠ [] := List.ne_nil_of_length_pos (by omega)
  have hsome : (w.stabilizeKeys hash self newRing).isSome = true :=
    (stabilizeKeys_isSome hring).mpr fun _ _ => ⟨hnew, Or.inl hold⟩
  obtain ⟨w', hw'⟩ := Option.isSome_iff_exists.mp hsome
  refine ⟨w', hw', ?_, ?_⟩
  · intro hrel key
    by_contra hkey
    obtain ⟨text, htext⟩ := Option.ne_none_iff_exists'.mp hkey
    obtain ⟨e, hvalue, rfl⟩ := hform key text htext
    obtain ⟨sent, hnet, htreated⟩ :=
      treated_stabilizeKeys hw' htext e.convertToString_ne_nil
    obtain ⟨n₀, n₁, n₂, hfind⟩ := findNodes_of_three hash hnew key
    obtain ⟨hown, hcopies⟩ := htreated n₀ n₁ n₂ hfind
    cases hpos : ownPos self [n₀, n₁, n₂] with
    | some p =>
        obtain ⟨timestamp, hkept⟩ := hrel.kept key e p htext hvalue (hfind ▸ hpos)
        rw [hown p hpos, Option.some.injEq] at hkept
        have hne : Entry.convertToString ⟨e.convertToString, w.currtime, rank p⟩ ≠
            Entry.convertToString ⟨e.value, timestamp, rank p⟩ := Entry.nested_ne hvalue
        exact hne hkept
    | none =>
        obtain ⟨h₀, h₁, -⟩ := ne_of_ownPos hpos
        have hrole : ∀ c ∈ Copy.ofStranger n₀ n₁ n₂, c.toAddr ≠ self → e.replica = c.replica := by
          intro c hc hother
          obtain ⟨t, ht⟩ := hcopies hpos c hc
          exact hrel.replica_eq hnet ht hother (Copy.type_ofStranger hc) hnew (hkeys key hkey) htext
            hvalue
        have hprimary := hrole ⟨n₀.nodeAddress, .create, .primary⟩ (by simp [Copy.ofStranger]) h₀
        have hsecondary :=
          hrole ⟨n₁.nodeAddress, .create, .secondary⟩ (by simp [Copy.ofStranger]) h₁
        cases hprimary.symm.trans hsecondary
  · intro hempty
    have hnil : (w.node self).ht.hashTable.toList = [] := by
      rw [List.eq_nil_iff_forall_not_mem]
      intro item hitem
      have hget := HashTable.mem_toList.mp hitem
      rw [hempty] at hget
      cases hget
    have hsame : w' = w := by
      unfold stabilizeKeys at hw'
      rw [hnil] at hw'
      exact (Option.some.inj hw').symm
    subst hsame
    constructor
    case kept =>
      intro key e p hget
      rw [hempty] at hget
      cases hget
    case sent =>
      intro packets packet uninit m hnet hpacket
      rw [List.self_eq_append_right.mp hnet] at hpacket
      cases hpacket

/-- Stabilization relabels nothing, neither what it keeps nor what it hands over: the turns meet
their purpose only for an empty table, and so does the loop. -/
theorem relabelled_iff_empty
    (hform : ∀ key text, (w.node self).ht.get? key = some text →
      ∃ e : Entry, ':' ∉ e.value ∧ text = e.convertToString)
    (hkeys : ∀ key, (w.node self).ht.get? key ≠ none → Split.Clean Message.delimiter key)
    (hold : 3 ≤ (w.node self).ring.length) (hnew : 3 ≤ newRing.length) :
    (∃ w', w.stabilizeKeys hash self newRing = some w' ∧
      (Relabelled hash newRing self w w' ↔ ∀ key, (w.node self).ht.get? key = none)) ∧
    ((∃ w', w.stabilizationProtocol hash self newRing = some w' ∧
        Relabelled hash newRing self w w') ↔
      ∀ key, (w.node self).ht.get? key = none) := by
  obtain ⟨v, hv, hiff⟩ : ∃ w', w.stabilizeKeys hash self newRing = some w' ∧
      (Relabelled hash newRing self w w' ↔ ∀ key, (w.node self).ht.get? key = none) :=
    exists_relabelled_iff hform hkeys hold hnew
  have hring : (w.node self).ring ≠ [] := List.ne_nil_of_length_pos (by omega)
  refine ⟨⟨v, hv, hiff⟩, ?_⟩
  constructor
  · rintro ⟨w', hw', hrel⟩
    have hsame := ((stabilizationProtocol_iff hring).mp hw').1
    obtain rfl := Option.some.inj (hsame.symm.trans hv)
    exact hiff.mp hrel
  · intro hempty
    have herases : ErasesNothing hash self newRing w := fun key hread =>
      absurd (hempty key) (HashTable.get?_ne_none_of_read hread)
    exact ⟨v, (stabilizationProtocol_iff hring).mpr ⟨hv, herases⟩, hiff.mpr hempty⟩

/-- Node `1` of three stores a key as its first replica. -/
def holder : World :=
  (trio []).modifyNode (sampleNode 1) fun n =>
    { n with ht := (n.ht.create ['k'] (Entry.convertToString ⟨['v'], 0, .primary⟩)).2 }

theorem get?_holder : (holder.node (sampleNode 1)).ht.get? key =
    if key = ['k'] then some (Entry.convertToString ⟨['v'], 0, .primary⟩) else none := by
  rw [holder, node_modifyNode_self]
  simp [HashTable.get?_create, trio, setNode, MP2Node.new]

theorem holder_form : ∀ key text, (holder.node (sampleNode 1)).ht.get? key = some text →
    ∃ e : Entry, ':' ∉ e.value ∧ text = e.convertToString := by
  intro key text h
  rw [get?_holder] at h
  split at h
  case isTrue => exact ⟨⟨['v'], 0, .primary⟩, by simp, (Option.some.inj h).symm⟩
  case isFalse => cases h

theorem holder_keys : ∀ key, (holder.node (sampleNode 1)).ht.get? key ≠ none →
    Split.Clean Message.delimiter key := by
  intro key h
  rw [get?_holder] at h
  split at h
  case isTrue hkey =>
    rw [hkey]
    exact Message.clean_of_no_colon (by simp)
  case isFalse => exact absurd rfl h

theorem holder_ring : 3 ≤ (holder.node (sampleNode 1)).ring.length := by
  rw [holder, node_modifyNode_self]
  exact trio_ring []

/-- Nothing but the own entry changes hands, and it gets the text `v:0:0:0:0`. -/
theorem entry_nested : ¬ ∀ (hash : Str → Nat) (self : Address) (newRing : List Node) (w : World),
    (∀ key text, (w.node self).ht.get? key = some text →
      ∃ e : Entry, ':' ∉ e.value ∧ text = e.convertToString) →
    (∀ key, (w.node self).ht.get? key ≠ none → Split.Clean Message.delimiter key) →
    3 ≤ (w.node self).ring.length → 3 ≤ newRing.length →
    ∃ w', w.stabilizationProtocol hash self newRing = some w' ∧
      Relabelled hash newRing self w w' := by
  intro hall
  let newRing := sortNodes (getMembershipList sampleHash (sampleMembers 4))
  obtain ⟨w', hw', hrel⟩ := hall sampleHash (sampleNode 1) newRing holder holder_form holder_keys
    holder_ring (by decide +kernel)
  have hget : (holder.node (sampleNode 1)).ht.get? ['k'] =
      some (Entry.convertToString ⟨['v'], 0, .primary⟩) := by
    rw [get?_holder, if_pos rfl]
  obtain ⟨timestamp, hkept⟩ := hrel.kept ['k'] _ 0 hget (by simp) (by decide +kernel)
  have hstored : (holder.stabilizationProtocol sampleHash (sampleNode 1) newRing).map
      (fun w => (w.node (sampleNode 1)).ht.get? ['k']) =
      some (some (Entry.convertToString
        ⟨Entry.convertToString ⟨['v'], 0, .primary⟩, 0, .primary⟩)) := by decide +kernel
  rw [hw', Option.map_some, hkept, Option.some.injEq, Option.some.injEq] at hstored
  have hvalue : ':' ∉ (Entry.mk ['v'] timestamp (rank 0)).value := by simp
  exact Entry.nested_ne hvalue hstored.symm

theorem relabelled_iff_empty_holder :
    (∃ w', holder.stabilizeKeys sampleHash (sampleNode 1)
        (sortNodes (getMembershipList sampleHash (sampleMembers 4))) = some w' ∧
      (Relabelled sampleHash (sortNodes (getMembershipList sampleHash (sampleMembers 4)))
          (sampleNode 1) holder w' ↔
        ∀ key, (holder.node (sampleNode 1)).ht.get? key = none)) ∧
    ((∃ w', holder.stabilizationProtocol sampleHash (sampleNode 1)
        (sortNodes (getMembershipList sampleHash (sampleMembers 4))) = some w' ∧
      Relabelled sampleHash (sortNodes (getMembershipList sampleHash (sampleMembers 4)))
          (sampleNode 1) holder w') ↔
        ∀ key, (holder.node (sampleNode 1)).ht.get? key = none) :=
  relabelled_iff_empty holder_form holder_keys holder_ring (by decide +kernel)

end World

end CloudComputing.KeyValueStore
