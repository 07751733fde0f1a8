import CloudComputing.KeyValueStore.Roles
import CloudComputing.KeyValueStore.SmallRing

/-!
# What comes to its end

The client calls, the handling of the queue and the loop of stabilization, for
rings of any size.  The loop visits every key just when it erases none.
-/

namespace CloudComputing.KeyValueStore

open Lib

namespace World

variable {hash : Str → Nat} {uninit : ReplicaType} {self : Address} {newRing : List Node}
  {w w' : World} {key key' value : Str}

/-- A turn leaves the key in the table, unless it hands a text over that is not empty. -/
theorem Stabilized.kept {old : List Node} {n₀ n₁ n₂ : Node}
    (h : Stabilized self newRing key value old n₀ n₁ n₂ w w')
    (hvalue : (w.node self).ht.get? key = some value)
    (hown : value ≠ [] → self ∈ [n₀, n₁, n₂].map Node.nodeAddress) :
    (w'.node self).ht.get? key ≠ none := by
  cases h with
  | handOver hpos =>
      simp [HashTable.get?_deleteKey, read_of_handOver hpos hvalue hown, hvalue]
  | asPrimary | asSecondary | asTertiary =>
      rw [node_sendCopies, get?_rewrite hvalue]
      split <;> simp [hvalue]

theorem Stabilized.read_ne_nil {old : List Node} {n₀ n₁ n₂ : Node}
    (h : Stabilized self newRing key value old n₀ n₁ n₂ w w')
    (hvalue : (w.node self).ht.get? key = some value)
    (hread : (w'.node self).ht.read key' ≠ []) : (w.node self).ht.read key' ≠ [] := by
  by_cases hkey : key' = key
  case neg =>
    rw [HashTable.read_eq, h.get?_of_ne hvalue hkey] at hread
    exact hread
  subst hkey
  intro hnil
  apply hread
  have hempty : value = [] := by
    rw [HashTable.read_eq, hvalue] at hnil
    exact hnil
  cases h with
  | handOver =>
      simp [HashTable.read_eq, HashTable.get?_deleteKey, hvalue, hempty]
  | asPrimary | asSecondary | asTertiary =>
      rw [HashTable.read_eq, node_sendCopies, get?_rewrite hvalue, if_neg (by simp [hempty]),
        hvalue, hempty]
      rfl

theorem exists_stabilizeAt (hring : (w.node self).ring ≠ [])
    (hfits : 3 ≤ newRing.length ∧
      (3 ≤ (w.node self).ring.length ∨ OldNodesUnused hash self newRing key))
    (hmem : key ∈ (w.node self).ht.keys)
    (hown : (w.node self).ht.read key ≠ [] →
      self ∈ (findNodes hash key newRing).map Node.nodeAddress) :
    ∃ w', w.stabilizeAt hash self newRing key = some w' ∧
      (w'.node self).ring = (w.node self).ring ∧
      (w'.node self).ht.keys = (w.node self).ht.keys ∧
      ∀ key', (w'.node self).ht.read key' ≠ [] → (w.node self).ht.read key' ≠ [] := by
  obtain ⟨value, hvalue⟩ := Option.ne_none_iff_exists'.mp (HashTable.mem_keys.mp hmem)
  have hcompletes : (w.stabilizeKey hash self newRing (key, value)).isSome = true :=
    (stabilizeKey_isSome hring).mpr hfits
  obtain ⟨w', hturn⟩ := Option.isSome_iff_exists.mp hcompletes
  have hat : w.stabilizeAt hash self newRing key = some w' := by
    rw [stabilizeAt, hvalue]
    exact hturn
  obtain ⟨n₀, n₁, n₂, hfind, hst⟩ := stabilizeKey_eq_some.mp hturn
  have hstays : value ≠ [] → self ∈ [n₀, n₁, n₂].map Node.nodeAddress := by
    intro hne
    rw [← hfind]
    apply hown
    rw [HashTable.read_eq, hvalue]
    exact hne
  have hkeys := keys_stabilizeAt hat (HashTable.mem_keys.mpr (hst.kept hvalue hstays))
  refine ⟨w', hat, ?_, hkeys, fun key' => hst.read_ne_nil hvalue⟩
  rw [hst.node_self]

/-- A loop that erases nothing comes to its end when the rings are long enough for its turns. -/
theorem exists_loop (hring : (w.node self).ring ≠ [])
    (hfits : ∀ key, (w.node self).ht.get? key ≠ none → 3 ≤ newRing.length ∧
      (3 ≤ (w.node self).ring.length ∨ OldNodesUnused hash self newRing key))
    (herases : ErasesNothing hash self newRing w) :
    ∃ w', stabilizationLoop hash self newRing (w.node self).ht.keys.length
      (w.node self).ht.keys.head? w = some ((w.node self).ht.keys, w') := by
  let Kept : World → Prop := fun s => (s.node self).ring = (w.node self).ring ∧
    (s.node self).ht.keys = (w.node self).ht.keys ∧
    ∀ key, (s.node self).ht.read key ≠ [] → (w.node self).ht.read key ≠ []
  have step : ∀ key s, Kept s → key ∈ (s.node self).ht.keys → ∃ s',
      s.stabilizeAt hash self newRing key = some s' ∧ Kept s' ∧
        (s'.node self).ht.keys = (s.node self).ht.keys := by
    rintro key s ⟨hsame, hkeys, htexts⟩ hmem
    have hkey := hfits key (HashTable.mem_keys.mp (hkeys ▸ hmem))
    rw [← hsame] at hkey
    obtain ⟨s', hturn, hsame', hkeys', htexts'⟩ := exists_stabilizeAt (hsame ▸ hring) hkey hmem
      fun hread => herases key (htexts key hread)
    exact ⟨s', hturn, ⟨hsame'.trans hsame, hkeys'.trans hkeys,
      fun key' hread => htexts key' (htexts' key' hread)⟩, hkeys'⟩
  obtain ⟨w', hloop, -⟩ := Cursor.walk_eq_some (P := Kept) (sorted_keys self) step
    ⟨rfl, rfl, fun _ h => h⟩ (List.nil_append (w.node self).ht.keys).symm
  exact ⟨w', hloop⟩

/-- The loop comes to its end just when no turn erases anything, and then it does what the turns do
one after the other. -/
theorem stabilizationProtocol_iff (hring : (w.node self).ring ≠ []) :
    w.stabilizationProtocol hash self newRing = some w' ↔
      w.stabilizeKeys hash self newRing = some w' ∧ ErasesNothing hash self newRing w := by
  constructor
  · exact stabilizationProtocol_some
  · rintro ⟨h, herases⟩
    have hsome : (w.stabilizeKeys hash self newRing).isSome = true := by rw [h]; rfl
    obtain ⟨v, hloop⟩ := exists_loop hring ((stabilizeKeys_isSome hring).mp hsome) herases
    obtain rfl := Option.some.inj (h.symm.trans (stabilizeKeys_of_loop hloop))
    exact stabilizationProtocol_eq_some.mpr ⟨_, _, hloop⟩

theorem stabilizationProtocol_isSome (hring : (w.node self).ring ≠ []) :
    (w.stabilizationProtocol hash self newRing).isSome = true ↔
      (∀ k, (w.node self).ht.get? k ≠ none → 3 ≤ newRing.length ∧
        (3 ≤ (w.node self).ring.length ∨ OldNodesUnused hash self newRing k)) ∧
      ErasesNothing hash self newRing w := by
  rw [← stabilizeKeys_isSome hring, Option.isSome_iff_exists, Option.isSome_iff_exists]
  constructor
  · intro ⟨w', h⟩
    obtain ⟨hst, herases⟩ := (stabilizationProtocol_iff hring).mp h
    exact ⟨⟨w', hst⟩, herases⟩
  · intro ⟨⟨w', hst⟩, herases⟩
    exact ⟨w', (stabilizationProtocol_iff hring).mpr ⟨hst, herases⟩⟩

/-- Client calls and the handling of a `CREATE` from a client or from stabilization need three
nodes.  Stabilization needs three new ones for every key stored and three old ones for those of
which the node is first or second, and it may hand no text over but empty ones. -/
theorem completes_iff (hring : (w.node self).ring ≠ [])
    (hqueue : ∀ text ∈ (w.node self).mp2q, ∃ m, Message.ofString uninit text = some m)
    (key value : Str) (newRing : List Node) :
    ((w.clientCreate hash uninit self key value).isSome = true ↔
      3 ≤ (w.node self).ring.length) ∧
    ((w.clientRead hash uninit self key).isSome = true ↔ 3 ≤ (w.node self).ring.length) ∧
    ((w.clientUpdate hash uninit self key value).isSome = true ↔
      3 ≤ (w.node self).ring.length) ∧
    ((w.clientDelete hash uninit self key).isSome = true ↔ 3 ≤ (w.node self).ring.length) ∧
    ((popLoop hash uninit self (w.node self).mp2q (w, uninit)).isSome = true ↔
      3 ≤ (w.node self).ring.length ∨ ∀ text ∈ (w.node self).mp2q, ∀ m,
        Message.ofString uninit text = some m → ¬ m.LooksAtReplicas) ∧
    ((w.stabilizationProtocol hash self newRing).isSome = true ↔
      (∀ k, (w.node self).ht.get? k ≠ none → 3 ≤ newRing.length ∧
        (3 ≤ (w.node self).ring.length ∨ OldNodesUnused hash self newRing k)) ∧
      ErasesNothing hash self newRing w) :=
  ⟨dispatch_isSome, dispatch_isSome, dispatch_isSome, dispatch_isSome, popLoop_isSome hqueue,
    stabilizationProtocol_isSome hring⟩

def pair : World :=
  initial.setNode (sampleNode 1) { MP2Node.new with
    ring := sortNodes (getMembershipList sampleHash (members [1, 2]))
    mp2q := [Message.toString ⟨.create, .secondary, ['k'], ['v'], sampleNode 2, 1, false⟩] }

theorem pair_ring : (pair.node (sampleNode 1)).ring ≠ [] := by decide +kernel

theorem pair_queue : ∀ text ∈ (pair.node (sampleNode 1)).mp2q,
    ∃ m, Message.ofString .primary text = some m := by
  have hqueue : (pair.node (sampleNode 1)).mp2q =
      [Message.toString ⟨.create, .secondary, ['k'], ['v'], sampleNode 2, 1, false⟩] := by
    simp [pair, setNode]
  rw [hqueue, List.forall_mem_singleton]
  exact Option.isSome_iff_exists.mp (by decide +kernel)

/-- In a group of two the first client call reads past the end of an empty vector. -/
theorem pair_out_of_range : ¬ ∀ (hash : Str → Nat) (uninit : ReplicaType) (self : Address)
    (w : World) (key value : Str) (newRing : List Node), (w.node self).ring ≠ [] →
      newRing ≠ [] → (∀ text ∈ (w.node self).mp2q, ∃ m, Message.ofString uninit text = some m) →
      (w.clientCreate hash uninit self key value).isSome = true ∧
      (w.clientRead hash uninit self key).isSome = true ∧
      (w.clientUpdate hash uninit self key value).isSome = true ∧
      (w.clientDelete hash uninit self key).isSome = true ∧
      (popLoop hash uninit self (w.node self).mp2q (w, uninit)).isSome = true ∧
      (w.stabilizationProtocol hash self newRing).isSome = true := by
  intro hall
  have hcreate := (hall sampleHash .primary (sampleNode 1) pair ['k'] ['v']
    (pair.node (sampleNode 1)).ring pair_ring pair_ring pair_queue).1
  exact absurd (dispatch_isSome.mp hcreate) (by decide +kernel)

theorem completes_iff_pair :
    ((popLoop sampleHash .primary (sampleNode 1) (pair.node (sampleNode 1)).mp2q
      (pair, .primary)).isSome = true ↔ 3 ≤ (pair.node (sampleNode 1)).ring.length ∨
      ∀ text ∈ (pair.node (sampleNode 1)).mp2q, ∀ m,
        Message.ofString .primary text = some m → ¬ m.LooksAtReplicas) :=
  (completes_iff pair_ring pair_queue ['k'] ['v'] []).2.2.2.2.1

/-! ## Every key is visited -/

/-- The loop comes to its end without an invalid iterator, has visited every key once, and the
node has kept the keys whose nodes it is one of. -/
def VisitsEveryKey (hash : Str → Nat) (self : Address) (newRing : List Node) (w : World) : Prop :=
  ∃ fuel visited w',
    stabilizationLoop hash self newRing fuel (w.node self).ht.keys.head? w = some (visited, w') ∧
    visited.Nodup ∧ (∀ key, key ∈ visited ↔ (w.node self).ht.get? key ≠ none) ∧
    ∀ key, (w'.node self).ht.get? key ≠ none ↔
      (w.node self).ht.get? key ≠ none ∧
        self ∈ (findNodes hash key newRing).map Node.nodeAddress

theorem replica_of_visitsEveryKey (h : VisitsEveryKey hash self newRing w)
    (hkey : (w.node self).ht.get? key ≠ none) :
    self ∈ (findNodes hash key newRing).map Node.nodeAddress := by
  obtain ⟨fuel, visited, w', hloop, -, -, hkept⟩ := h
  have hkey' : (w'.node self).ht.get? key ≠ none := by
    rw [← HashTable.mem_keys, (keys_of_loop hloop).2]
    exact HashTable.mem_keys.mpr hkey
  exact ((hkept key).mp hkey').2

theorem visitsEveryKey_of_replica (hold : 3 ≤ (w.node self).ring.length)
    (hnew : 3 ≤ newRing.length)
    (hown : ∀ key, (w.node self).ht.get? key ≠ none →
      self ∈ (findNodes hash key newRing).map Node.nodeAddress) :
    VisitsEveryKey hash self newRing w := by
  have herases : ErasesNothing hash self newRing w := fun key hread =>
    hown key (HashTable.get?_ne_none_of_read hread)
  obtain ⟨w', hloop⟩ := exists_loop (List.ne_nil_of_length_pos (by omega))
    (fun _ _ => ⟨hnew, Or.inl hold⟩) herases
  refine ⟨_, _, w', hloop, (w.node self).ht.nodup_keys, fun key => HashTable.mem_keys, ?_⟩
  intro key
  rw [← HashTable.mem_keys, (keys_of_loop hloop).2, HashTable.mem_keys]
  exact (and_iff_left_of_imp (hown key)).symm

/-- The loop visits every key just when the node stays a replica of all of them. -/
theorem visitsEveryKey_iff (hold : 3 ≤ (w.node self).ring.length) (hnew : 3 ≤ newRing.length) :
    VisitsEveryKey hash self newRing w ↔ ∀ key, (w.node self).ht.get? key ≠ none →
      self ∈ (findNodes hash key newRing).map Node.nodeAddress :=
  ⟨fun h _ hkey => replica_of_visitsEveryKey h hkey, visitsEveryKey_of_replica hold hnew⟩

/-- A node of three that is no replica of its key any more when a fourth one joins. -/
def loser : World :=
  (trio []).modifyNode (sampleNode 1) fun n =>
    { n with ht := (n.ht.create [Char.ofNat 2] (Entry.convertToString ⟨['v'], 0, .tertiary⟩)).2 }

theorem get?_loser : (loser.node (sampleNode 1)).ht.get? key =
    if key = [Char.ofNat 2] then some (Entry.convertToString ⟨['v'], 0, .tertiary⟩) else none := by
  rw [loser, node_modifyNode_self]
  simp [HashTable.get?_create, trio, setNode, MP2Node.new]

/-- The key is erased under the iterator. -/
theorem not_visitsEveryKey_loser : ¬ ∀ (hash : Str → Nat) (self : Address) (newRing : List Node)
    (w : World), ((w.node self).ring.map Node.nodeAddress).Nodup →
      3 ≤ (w.node self).ring.length → (newRing.map Node.nodeAddress).Nodup →
      3 ≤ newRing.length → VisitsEveryKey hash self newRing w := by
  intro hall
  have hvisits := hall sampleHash (sampleNode 1)
    (sortNodes (getMembershipList sampleHash (sampleMembers 4))) loser (by decide +kernel)
    (by decide +kernel) (by decide +kernel) (by decide +kernel)
  have hkey : (loser.node (sampleNode 1)).ht.get? [Char.ofNat 2] ≠ none := by
    rw [get?_loser]
    simp
  exact absurd (replica_of_visitsEveryKey hvisits hkey) (by decide +kernel)

theorem visitsEveryKey_iff_loser :
    VisitsEveryKey sampleHash (sampleNode 1)
        (sortNodes (getMembershipList sampleHash (sampleMembers 3))) loser ↔
      ∀ key, (loser.node (sampleNode 1)).ht.get? key ≠ none →
        sampleNode 1 ∈ (findNodes sampleHash key
          (sortNodes (getMembershipList sampleHash (sampleMembers 3)))).map Node.nodeAddress :=
  visitsEveryKey_iff (by decide +kernel) (by decide +kernel)

end World

end CloudComputing.KeyValueStore
