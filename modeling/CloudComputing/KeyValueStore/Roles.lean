import CloudComputing.KeyValueStore.SmallRing
import CloudComputing.KeyValueStore.Wire

/-!
# The role an entry is stored with

Whoever writes an entry is to say which of the three replicas of its key it is.
The clients print their message before they set the role, the handler of messages
uses the role of an earlier message, and stabilization prints a stored text once
more as the value of an entry, so that the old role is what is read.
-/

namespace CloudComputing.KeyValueStore

open Lib

/-- `ReplicaType(i)`. -/
def rank (i : Nat) : ReplicaType := ReplicaType.ofInt32 (Int32.ofNat i)

namespace Entry

theorem replica_of_convertToString {value : Str} {timestamp : Int32} {r r' : ReplicaType}
    (h : convertToString ⟨value, timestamp, r⟩ = convertToString ⟨value, timestamp, r'⟩) :
    r = r' := by
  have hdigits := List.append_cancel_left h
  have hnumber := congrArg Decimal.stoi hdigits
  rw [Decimal.stoi_toStr, Decimal.stoi_toStr, Option.some.injEq] at hnumber
  rw [← ReplicaType.ofInt32_toInt32 r, hnumber, ReplicaType.ofInt32_toInt32]

end Entry

namespace World

variable {hash : Str → Nat} {uninit uninit' role : ReplicaType} {self : Address} {w w' : World}
  {key value : Str}

/-! ## Client writes -/

/-- The `i`-th message handed to `ENsend` between `w` and `w'` goes to the `i`-th node of the key
and is read as a write with this role. -/
def Carries (hash : Str → Nat) (uninit : ReplicaType) (type : MessageType) (self : Address)
    (key value : Str) (w w' : World) (i : Nat) (replica : ReplicaType) : Prop :=
  ∃ r packet m, (findNodes hash key (w.node self).ring)[i]? = some r ∧
    w'.net[w.net.length + i]? = some packet ∧ packet.dst = r.nodeAddress ∧
    Message.ofString uninit packet.data = some m ∧ m.type = type ∧ m.replica = replica ∧
    m.key = key ∧ m.value = value ∧ m.transID = w'.gTransID ∧ m.fromAddr = self

theorem dispatch_carries {type : MessageType} (htype : type = .create ∨ type = .update)
    (hlen : 3 ≤ (w.node self).ring.length) (hkey : ':' ∉ key) (hvalue : ':' ∉ value) :
    ∃ w', (w.dispatch hash self key fun transID =>
        ⟨type, uninit, key, value, self, transID, false⟩) = some w' ∧
      ∀ i < 3, ∀ replica,
        Carries hash uninit' type self key value w w' i replica ↔ replica = uninit := by
  obtain ⟨w', hw'⟩ := Option.isSome_iff_exists.mp (dispatch_isSome.mpr hlen)
  refine ⟨w', hw', ?_⟩
  obtain ⟨r₀, r₁, r₂, hfind, rfl⟩ := dispatch_some hw'
  let m : Message := ⟨type, uninit, key, value, self, w.nextTransID.gTransID, false⟩
  have hsendable : m.Sendable := by
    unfold Message.Sendable
    rcases htype with rfl | rfl
    all_goals exact ⟨Message.clean_of_no_colon hkey, Message.clean_of_no_colon hvalue⟩
  have htext : Message.ofString uninit' m.toString = some m := by
    rw [Message.ofString_toString uninit' hsendable]
    unfold Message.received
    rcases htype with rfl | rfl <;> rfl
  intro i hi replica
  have hget : ∃ r, (findNodes hash key (w.node self).ring)[i]? = some r ∧
      (w.issued self (fun transID => ⟨type, uninit, key, value, self, transID, false⟩)
        r₀ r₁ r₂).net[w.net.length + i]? = some ⟨self, r.nodeAddress, m.toString⟩ := by
    rw [hfind, net_issued, List.getElem?_append_right (by omega), Nat.add_sub_cancel_left,
      List.getElem?_map]
    obtain ⟨r, hr⟩ : ∃ r, [r₀, r₁, r₂][i]? = some r :=
      ⟨_, List.getElem?_eq_getElem (by simpa using hi)⟩
    rw [hr]
    exact ⟨r, rfl, rfl⟩
  obtain ⟨r, hr, hpacket⟩ := hget
  constructor
  · intro ⟨_, packet, m', _, hpacket', _, hread, _, hreplica, _⟩
    obtain rfl := Option.some.inj (hpacket.symm.trans hpacket')
    obtain rfl := Option.some.inj (htext.symm.trans hread)
    exact hreplica.symm
  · intro hreplica
    exact ⟨r, _, m, hr, hpacket, rfl, htext, rfl, hreplica.symm, rfl, rfl, rfl, rfl⟩

/-- No three messages carry three roles when they are one text. -/
theorem not_carries_ranks {type : MessageType}
    (h : ∀ i < 3, ∀ replica,
      Carries hash uninit' type self key value w w' i replica ↔ replica = uninit) :
    ¬ ∀ i < 3, Carries hash uninit' type self key value w w' i (rank i) := by
  intro hranks
  have h₀ : rank 0 = uninit := (h 0 (by omega) _).mp (hranks 0 (by omega))
  have h₁ : rank 1 = uninit := (h 1 (by omega) _).mp (hranks 1 (by omega))
  exact absurd (h₀.trans h₁.symm) (by decide)

/-- Client writes never label the replicas: all three messages carry the role that the message
object happened to hold when it was printed, so they are not those of the three replicas. -/
theorem client_writes_unlabelled (uninit uninit' : ReplicaType)
    (hlen : 3 ≤ (w.node self).ring.length) (hkey : ':' ∉ key) (hvalue : ':' ∉ value) :
    (∃ w', w.clientCreate hash uninit self key value = some w' ∧
      (∀ i < 3, ∀ replica,
        Carries hash uninit' .create self key value w w' i replica ↔ replica = uninit) ∧
      ¬ ∀ i < 3, Carries hash uninit' .create self key value w w' i (rank i)) ∧
    ∃ w', w.clientUpdate hash uninit self key value = some w' ∧
      (∀ i < 3, ∀ replica,
        Carries hash uninit' .update self key value w w' i replica ↔ replica = uninit) ∧
      ¬ ∀ i < 3, Carries hash uninit' .update self key value w w' i (rank i) := by
  obtain ⟨wc, hcreate, hwc⟩ := dispatch_carries (Or.inl rfl) hlen hkey hvalue
  obtain ⟨wu, hupdate, hwu⟩ := dispatch_carries (Or.inr rfl) hlen hkey hvalue
  exact ⟨⟨wc, hcreate, hwc, not_carries_ranks hwc⟩, wu, hupdate, hwu, not_carries_ranks hwu⟩

/-- Three nodes that know each other; the first has these messages in its queue. -/
def trio (queue : List Str) : World :=
  initial.setNode (sampleNode 1) { MP2Node.new with
    ring := sortNodes (getMembershipList sampleHash (sampleMembers 3))
    mp2q := queue }

theorem trio_ring (queue : List Str) : 3 ≤ ((trio queue).node (sampleNode 1)).ring.length := by
  have hring : ((trio queue).node (sampleNode 1)).ring =
      sortNodes (getMembershipList sampleHash (sampleMembers 3)) := by simp [trio, setNode]
  rw [hring]
  decide +kernel

theorem create_unlabelled : ¬ ∀ (hash : Str → Nat) (uninit uninit' : ReplicaType)
    (self : Address) (w : World) (key value : Str), 3 ≤ (w.node self).ring.length → ':' ∉ key →
      ':' ∉ value → ∃ w', w.clientCreate hash uninit self key value = some w' ∧
        ∀ i < 3, Carries hash uninit' .create self key value w w' i (rank i) := by
  intro hall
  have hkey : ':' ∉ ['k'] := by decide
  have hvalue : ':' ∉ ['v'] := by decide
  obtain ⟨w', hw', hranks⟩ := hall sampleHash .primary .primary (sampleNode 1) (trio []) ['k'] ['v']
    (trio_ring []) hkey hvalue
  obtain ⟨w₁, hw₁, hcarries⟩ := dispatch_carries (Or.inl rfl) (trio_ring []) hkey hvalue
  obtain rfl := Option.some.inj (hw₁.symm.trans hw')
  exact not_carries_ranks hcarries hranks

theorem client_writes_unlabelled_trio :
    (∃ w', (trio []).clientCreate sampleHash .primary (sampleNode 1) ['k'] ['v'] = some w' ∧
      (∀ i < 3, ∀ replica, Carries sampleHash .primary .create (sampleNode 1) ['k'] ['v'] (trio [])
        w' i replica ↔ replica = .primary) ∧
      ¬ ∀ i < 3, Carries sampleHash .primary .create (sampleNode 1) ['k'] ['v'] (trio []) w' i
        (rank i)) :=
  (client_writes_unlabelled .primary .primary (trio_ring []) (by decide) (by decide)).1

/-! ## Messages of one batch -/

/-- The loop of `checkMessages` up to the messages `rest`, which stay in the queue. -/
def popUntil (hash : Str → Nat) (uninit : ReplicaType) (self : Address) (rest : List Str) :
    List Str → World × ReplicaType → Option (World × ReplicaType)
  | [], s => some s
  | message :: queue, (w, arrivedReplicaType) => do
      let popped := w.modifyNode self fun n => { n with mp2q := queue ++ rest }
      let arrived ← Message.ofString uninit message
      let s ← handle hash uninit self arrived (popped, arrivedReplicaType)
      popUntil hash uninit self rest queue s

theorem popLoop_append (queue rest : List Str) (s : World × ReplicaType) :
    popLoop hash uninit self (queue ++ rest) s =
      (popUntil hash uninit self rest queue s).bind (popLoop hash uninit self rest) := by
  induction queue generalizing s with
  | nil => rfl
  | cons message queue ih =>
      obtain ⟨w, role⟩ := s
      simp only [List.cons_append, popLoop, popUntil, Option.bind_eq_bind, Option.bind_assoc, ih]

/-- The role of the last `CREATE` in the queue, or what the variable held before. -/
def lastRole (uninit : ReplicaType) (queue : List Str) (role : ReplicaType) : ReplicaType :=
  queue.foldl (fun role message =>
    match Message.ofString uninit message with
    | some m => if m.type = .create then m.replica else role
    | none => role) role

/-- Only a `CREATE` sets the variable, after it has been used. -/
theorem role_handle {arrived : Message} {s : World × ReplicaType}
    (h : handle hash uninit self arrived (w, role) = some s) :
    s.2 = if arrived.type = .create then arrived.replica else role := by
  unfold handle at h
  cases htype : arrived.type with
  | create =>
      simp only [htype, Option.bind_eq_bind, Option.bind_eq_some_iff, Option.pure_def,
        Option.some.injEq] at h
      obtain ⟨_, _, rfl⟩ := h
      rfl
  | _ =>
      simp only [htype, Option.some.injEq] at h
      subst h
      rfl

theorem popUntil_spec {rest queue : List Str} {s : World × ReplicaType}
    (h : popUntil hash uninit self rest queue (w, role) = some s) :
    s.2 = lastRole uninit queue role ∧ s.1.currtime = w.currtime := by
  induction queue generalizing w role with
  | nil =>
      obtain rfl := Option.some.inj h
      exact ⟨rfl, rfl⟩
  | cons message queue ih =>
      simp only [popUntil, Option.bind_eq_bind, Option.bind_eq_some_iff] at h
      obtain ⟨arrived, hread, ⟨w₁, role₁⟩, hhandle, h⟩ := h
      obtain ⟨hrole, htime⟩ := ih h
      have hlast := role_handle hhandle
      simp only at hlast
      rw [htime, (handled_handle hhandle).currtime, hrole, hlast]
      exact ⟨by simp [lastRole, hread], rfl⟩

/-- The message makes its receiver store an entry: a `CREATE` of an absent key or an `UPDATE` of a
present one. -/
def Stores (m : Message) (ht : HashTable) : Prop :=
  (m.type = .create ∧ ht.get? m.key = none) ∨ (m.type = .update ∧ ht.read m.key ≠ [])

/-- Such a message is stored under the role in the variable. -/
theorem get?_of_stores {m : Message} {s : World × ReplicaType}
    (hstores : Stores m (w.node self).ht)
    (h : handle hash uninit self m (w, role) = some s) :
    (s.1.node self).ht.get? m.key =
      some (Entry.convertToString ⟨m.value, w.currtime, role⟩) := by
  rw [(handled_handle h).ht]
  unfold Message.tableAfter
  rcases hstores with ⟨htype, habsent⟩ | ⟨htype, hpresent⟩
  · rw [htype]
    simp [HashTable.get?_create, habsent]
  · rw [htype]
    simp [HashTable.get?_update, hpresent]

/-- In a batch, a message is stored under its own role exactly when the variable holds this role
already: the last `CREATE` in front of it in the queue carried the same role. -/
theorem stored_role_iff {before after : List Str} {text : Str} {m : Message}
    (h : w.checkMessages hash uninit self = some w')
    (hqueue : (w.node self).mp2q = before ++ text :: after)
    (hread : Message.ofString uninit text = some m) :
    ∃ s s', popUntil hash uninit self (text :: after) before (w, uninit) = some s ∧
      handle hash uninit self m (s.1.modifyNode self fun n => { n with mp2q := after }, s.2) =
        some s' ∧
      (Stores m (s.1.node self).ht → ((s'.1.node self).ht.get? m.key =
          some (Entry.convertToString ⟨m.value, w.currtime, m.replica⟩) ↔
        lastRole uninit before uninit = m.replica)) := by
  unfold checkMessages at h
  rw [hqueue, popLoop_append] at h
  obtain ⟨_, hloop, _⟩ := Option.bind_eq_some_iff.mp h
  obtain ⟨s, hbefore, hrest⟩ := Option.bind_eq_some_iff.mp hloop
  simp only [popLoop, hread, Option.bind_eq_bind, Option.bind_some] at hrest
  obtain ⟨s', hhandle, _⟩ := Option.bind_eq_some_iff.mp hrest
  refine ⟨s, s', hbefore, hhandle, fun hstores => ?_⟩
  obtain ⟨hrole, htime⟩ := popUntil_spec hbefore
  have hstored := get?_of_stores (by simpa using hstores) hhandle
  rw [currtime_modifyNode, htime, hrole] at hstored
  rw [hstored, Option.some.injEq]
  constructor
  · exact Entry.replica_of_convertToString
  · intro hsame
    rw [hsame]

def sampleCreate (key : Str) (replica : ReplicaType) : Message :=
  ⟨.create, replica, key, ['v'], sampleNode 2, 1, false⟩

/-- A second replica gets two copies after a first one, and stores itself as the first. -/
theorem role_leaks : ¬ ∀ (hash : Str → Nat) (uninit : ReplicaType) (self : Address) (w w' : World)
    (before after : List Str) (text : Str) (m : Message),
    w.checkMessages hash uninit self = some w' → (w.node self).mp2q = before ++ text :: after →
    Message.ofString uninit text = some m →
    ∃ s s', popUntil hash uninit self (text :: after) before (w, uninit) = some s ∧
      handle hash uninit self m (s.1.modifyNode self fun n => { n with mp2q := after }, s.2) =
        some s' ∧
      (Stores m (s.1.node self).ht → (s'.1.node self).ht.get? m.key =
        some (Entry.convertToString ⟨m.value, w.currtime, m.replica⟩)) := by
  intro hall
  let first := (sampleCreate ['a'] .primary).toString
  let second := (sampleCreate ['b'] .secondary).toString
  have hcall : ((trio [first, second]).checkMessages sampleHash .primary
      (sampleNode 1)).isSome = true := by decide +kernel
  obtain ⟨w', hw'⟩ := Option.isSome_iff_exists.mp hcall
  obtain ⟨s, s', hbefore, hhandle, hstored⟩ := hall _ _ _ _ _ [first] [] second
    (sampleCreate ['b'] .secondary) hw' (by simp [trio, setNode]) (by decide +kernel)
  have habsent : (popUntil sampleHash .primary (sampleNode 1) [second] [first]
      (trio [first, second], .primary)).map (fun s => (s.1.node (sampleNode 1)).ht.get? ['b']) =
        some none := by decide +kernel
  rw [hbefore, Option.map_some, Option.some.injEq] at habsent
  have hstores : Stores (sampleCreate ['b'] .secondary) (s.1.node (sampleNode 1)).ht :=
    Or.inl ⟨rfl, habsent⟩
  obtain ⟨hrole, htime⟩ := popUntil_spec hbefore
  have hrole' := get?_of_stores (by simpa using hstores) hhandle
  rw [hstored hstores, Option.some.injEq, currtime_modifyNode, htime, hrole] at hrole'
  exact absurd (Entry.replica_of_convertToString hrole') (by decide +kernel)

theorem stored_role_iff_trio :
    let first := (sampleCreate ['a'] .secondary).toString
    let second := (sampleCreate ['b'] .secondary).toString
    ∃ s s', popUntil sampleHash .primary (sampleNode 1) [second] [first]
        (trio [first, second], .primary) = some s ∧
      handle sampleHash .primary (sampleNode 1) (sampleCreate ['b'] .secondary)
        (s.1.modifyNode (sampleNode 1) fun n => { n with mp2q := [] }, s.2) = some s' ∧
      (Stores (sampleCreate ['b'] .secondary) (s.1.node (sampleNode 1)).ht →
        ((s'.1.node (sampleNode 1)).ht.get? ['b'] =
            some (Entry.convertToString ⟨['v'], 0, .secondary⟩) ↔
          lastRole .primary [first] .primary = .secondary)) := by
  intro first second
  have hcall : ((trio [first, second]).checkMessages sampleHash .primary
      (sampleNode 1)).isSome = true := by decide +kernel
  obtain ⟨w', hw'⟩ := Option.isSome_iff_exists.mp hcall
  exact stored_role_iff hw' (by simp [trio, setNode]) (by decide +kernel)

end World

end CloudComputing.KeyValueStore
