import CloudComputing.KeyValueStore.Changes

/-!
# Rings of fewer than three nodes

`findNodes` returns no nodes for them, and none of its callers asks how many it
got.  When the client calls, the handling of a `CREATE` and stabilization come to
their end, for rings of any size.
-/

namespace CloudComputing.KeyValueStore

open Lib

section

variable {ring : List Node}

theorem findNodes_eq_nil (hash : Str → Nat) (key : Str) (h : ring.length < 3) :
    findNodes hash key ring = [] := by
  rcases findNodes_cases hash key ring with hnil | ⟨hlen, _⟩
  · exact hnil
  · omega

/-- The remainder is an index of any ring that is not empty, also of one without the node. -/
theorem predecessor_of_ne_nil (self : Address) (hring : ring ≠ []) (back : Nat) :
    ∃ n, predecessor self ring back = some n := by
  have hpos := List.length_pos_of_ne_nil hring
  have hlt : predecessorPos (findPosition self ring) ring.length back < ring.length := by
    unfold predecessorPos
    have hmod := Int.emod_lt_of_pos
      ((findPosition self ring + ring.length - back) % 2 ^ 64) (Int.natCast_pos.mpr hpos)
    omega
  exact ⟨_, List.getElem?_eq_getElem hlt⟩

end

/-- The message makes its receiver look at the replicas of the key. -/
def Message.LooksAtReplicas (m : Message) : Prop :=
  m.type = .create ∧ (m.replica = .primary ∨ m.replica = .secondary ∨ m.replica = .tertiary)

namespace World

variable {hash : Str → Nat} {uninit role : ReplicaType} {self : Address} {w w' : World}

/-! ## Client side -/

theorem dispatch_isSome {key : Str} {message : Int32 → Message} :
    (w.dispatch hash self key message).isSome = true ↔ 3 ≤ (w.node self).ring.length := by
  unfold dispatch
  simp only [node_modifyNode_self, node_nextTransID]
  by_cases hlen : 3 ≤ (w.node self).ring.length
  · obtain ⟨n₀, n₁, n₂, hfind⟩ := findNodes_of_three hash hlen key
    simp [hfind, hlen]
  · simp [findNodes_eq_nil hash key (Nat.lt_of_not_le hlen), hlen]

/-! ## Server side -/

theorem noteReplicas_isSome {key : Str} {replica : ReplicaType} {ring : List Node} :
    (w.noteReplicas self replica (findNodes hash key ring)).isSome = true ↔
      3 ≤ ring.length ∨ ¬(replica = .primary ∨ replica = .secondary ∨ replica = .tertiary) := by
  by_cases hlen : 3 ≤ ring.length
  · obtain ⟨n₀, n₁, n₂, hfind⟩ := findNodes_of_three hash hlen key
    cases replica <;> simp [noteReplicas, hfind, hlen]
  · have hfind := findNodes_eq_nil hash key (Nat.lt_of_not_le hlen)
    cases replica <;> simp [noteReplicas, hfind, hlen]

theorem handle_isSome {arrived : Message} :
    (handle hash uninit self arrived (w, role)).isSome = true ↔
      3 ≤ (w.node self).ring.length ∨ ¬ arrived.LooksAtReplicas := by
  unfold handle Message.LooksAtReplicas
  cases htype : arrived.type with
  | create =>
      let created := (w.createKeyValue self arrived.key arrived.value role arrived.transID self).2
      have hring : (created.node self).ring = (w.node self).ring := by
        simp [created, createKeyValue]
      have hnote : (created.noteReplicas self arrived.replica
          (findNodes hash arrived.key (created.node self).ring)).isSome = true ↔ _ :=
        noteReplicas_isSome
      rw [hring] at hnote
      simp only [Option.bind_eq_bind, Option.pure_def, true_and]
      rw [← hnote, Option.isSome_bind]
      simp [created, hring]
  | _ => simp

theorem popLoop_isSome {queue : List Str}
    (h : ∀ text ∈ queue, ∃ m, Message.ofString uninit text = some m) :
    (popLoop hash uninit self queue (w, role)).isSome = true ↔
      3 ≤ (w.node self).ring.length ∨ ∀ text ∈ queue, ∀ m,
        Message.ofString uninit text = some m → ¬ m.LooksAtReplicas := by
  induction queue generalizing w role with
  | nil => simp [popLoop]
  | cons text queue ih =>
      obtain ⟨arrived, htext⟩ := h text List.mem_cons_self
      have hrest : ∀ text ∈ queue, ∃ m, Message.ofString uninit text = some m :=
        fun s hs => h s (List.mem_cons_of_mem _ hs)
      let popped := w.modifyNode self fun n => { n with mp2q := queue }
      have hring : (popped.node self).ring = (w.node self).ring := by simp [popped]
      have hturn : (handle hash uninit self arrived (popped, role)).isSome = true ↔ _ :=
        handle_isSome
      rw [hring] at hturn
      simp only [popLoop, htext, Option.bind_eq_bind, Option.bind_some, List.forall_mem_cons,
        Option.some.injEq, forall_eq']
      cases hhandle : handle hash uninit self arrived (popped, role) with
      | none =>
          rw [hhandle] at hturn
          have hlooks : ¬(3 ≤ (w.node self).ring.length ∨ ¬ arrived.LooksAtReplicas) :=
            fun h => absurd (hturn.mpr h) (by simp)
          simp only [Option.bind_none, Option.isSome_none, Bool.false_eq_true, false_iff]
          tauto
      | some s =>
          have hh := handled_handle hhandle
          have hring' := hh.ring.trans hring
          rw [hhandle] at hturn
          have hlooks := hturn.mp rfl
          have hloop : (popLoop hash uninit self queue (s.1, s.2)).isSome = true ↔ _ := ih hrest
          rw [hring'] at hloop
          rw [Option.bind_some, hloop]
          tauto

/-! ## Stabilization -/

/-- The first and the second node of a key look at its old nodes, the others do not. -/
def OldNodesUnused (hash : Str → Nat) (self : Address) (newRing : List Node) (key : Str) : Prop :=
  ownPos self (findNodes hash key newRing) = none ∨
    ownPos self (findNodes hash key newRing) = some 2

theorem exists_old_node {key : Str} {ring : List Node} {i : Nat} (hi : i < 3)
    (h : 3 ≤ ring.length) : ∃ o, (findNodes hash key ring)[i]? = some o := by
  obtain ⟨n₀, n₁, n₂, hfind⟩ := findNodes_of_three hash h key
  rw [hfind]
  exact ⟨_, List.getElem?_eq_getElem (by simpa using hi)⟩

theorem three_of_old_node {key : Str} {ring : List Node} {i : Nat} {o : Node}
    (h : (findNodes hash key ring)[i]? = some o) : 3 ≤ ring.length := by
  by_contra hlen
  rw [findNodes_eq_nil hash key (by omega)] at h
  simp at h

theorem stabilizeKey_isSome {newRing : List Node} {key value : Str}
    (hring : (w.node self).ring ≠ []) :
    (w.stabilizeKey hash self newRing (key, value)).isSome = true ↔
      3 ≤ newRing.length ∧
        (3 ≤ (w.node self).ring.length ∨ OldNodesUnused hash self newRing key) := by
  rw [Option.isSome_iff_exists]
  constructor
  · intro ⟨w', h⟩
    obtain ⟨n₀, n₁, n₂, hfind, hst⟩ := stabilizeKey_eq_some.mp h
    have hthree : 3 ≤ newRing.length := three_of_old_node (i := 0) (by rw [hfind]; rfl)
    refine ⟨hthree, ?_⟩
    unfold OldNodesUnused
    cases hst with
    | handOver hpos => exact Or.inr (Or.inl (hfind ▸ hpos))
    | asPrimary _ _ _ ho₁ => exact Or.inl (three_of_old_node ho₁)
    | asSecondary _ _ _ _ ho₁ => exact Or.inl (three_of_old_node ho₁)
    | asTertiary _ _ _ _ hpos => exact Or.inr (Or.inr (hfind ▸ hpos))
  · intro ⟨hthree, hold⟩
    obtain ⟨n₀, n₁, n₂, hfind⟩ := findNodes_of_three hash hthree key
    have hnew : newRing ≠ [] := List.ne_nil_of_length_pos (by omega)
    obtain ⟨p₁, hp₁⟩ := predecessor_of_ne_nil self hnew 1
    obtain ⟨p₂, hp₂⟩ := predecessor_of_ne_nil self hnew 2
    obtain ⟨q₁, hq₁⟩ := predecessor_of_ne_nil self hring 1
    obtain ⟨q₂, hq₂⟩ := predecessor_of_ne_nil self hring 2
    have hused : ∀ i, ownPos self [n₀, n₁, n₂] = some i → i ≠ 2 →
        3 ≤ (w.node self).ring.length := by
      intro i hpos hi
      refine hold.resolve_right ?_
      unfold OldNodesUnused
      rw [hfind, hpos]
      simpa using hi
    have hturn : ∃ w', Stabilized self newRing key value (findNodes hash key (w.node self).ring)
        n₀ n₁ n₂ w w' := by
      rcases ownPos_cases self n₀ n₁ n₂ with ⟨hpos, -⟩ | ⟨hpos, -⟩ | ⟨hpos, -⟩ | ⟨hpos, -⟩
      · exact ⟨_, .asTertiary p₂ q₂ p₁ q₁ hpos hp₂ hq₂ hp₁ hq₁⟩
      · obtain ⟨o₁, ho₁⟩ := exists_old_node (i := 1) (by omega) (hused 1 hpos (by omega))
        exact ⟨_, .asSecondary o₁ p₁ q₁ hpos ho₁ hp₁ hq₁⟩
      · obtain ⟨o₁, ho₁⟩ := exists_old_node (i := 1) (by omega) (hused 0 hpos (by omega))
        obtain ⟨o₂, ho₂⟩ := exists_old_node (i := 2) (by omega) (hused 0 hpos (by omega))
        exact ⟨_, .asPrimary o₁ o₂ hpos ho₁ ho₂⟩
      · exact ⟨_, .handOver hpos⟩
    obtain ⟨w', hst⟩ := hturn
    exact ⟨w', stabilizeKey_eq_some.mpr ⟨n₀, n₁, n₂, hfind, hst⟩⟩

theorem stabilizeKeys_isSome {newRing : List Node} (hring : (w.node self).ring ≠ []) :
    (w.stabilizeKeys hash self newRing).isSome = true ↔
      ∀ key, (w.node self).ht.get? key ≠ none → 3 ≤ newRing.length ∧
        (3 ≤ (w.node self).ring.length ∨ OldNodesUnused hash self newRing key) := by
  let Fits : Str × Str → Prop := fun item => 3 ≤ newRing.length ∧
    (3 ≤ (w.node self).ring.length ∨ OldNodesUnused hash self newRing item.1)
  have hloop : (w.stabilizeKeys hash self newRing).isSome = true ↔
      ∀ item ∈ (w.node self).ht.hashTable.toList, Fits item := by
    refine foldlM_isSome_iff (P := fun v => (v.node self).ring = (w.node self).ring) ?_ ?_ rfl
    · intro item v hv
      obtain ⟨key, value⟩ := item
      rw [stabilizeKey_isSome (hv ▸ hring), hv]
    · intro item v v' hv hstep
      obtain ⟨n₀, n₁, n₂, -, hst⟩ := stabilizeKey_eq_some.mp hstep
      rw [hst.node_self]
      exact hv
  refine hloop.trans ?_
  constructor
  · intro h key hkey
    obtain ⟨value, hvalue⟩ := Option.ne_none_iff_exists'.mp hkey
    exact h (key, value) (HashTable.mem_toList.mpr hvalue)
  · intro h item hitem
    exact h item.1 (by rw [HashTable.mem_toList.mp hitem]; simp)

end World

end CloudComputing.KeyValueStore
