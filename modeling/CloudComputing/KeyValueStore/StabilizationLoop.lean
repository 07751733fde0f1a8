import CloudComputing.KeyValueStore.Stabilization

/-!
# The loop of the stabilization protocol

`stabilizationProtocol` walks over the very table from which its body erases, with
an iterator that stands on a key and cannot be moved once this key is erased.  A
loop that comes to its end has erased nothing, and did what the turns for the keys
of the start do one after the other.
-/

namespace CloudComputing.KeyValueStore

open Lib

namespace World

section

variable (hash : Str → Nat) (self : Address) (newRing : List Node)

/-- The turns for the keys that are stored at the start, whatever becomes of the iterator. -/
def stabilizeKeys (w : World) : Option World :=
  (w.node self).ht.hashTable.toList.foldlM (stabilizeKey hash self newRing) w

/-- The node is one of the new nodes of every key with a text that is not empty. -/
def ErasesNothing (w : World) : Prop :=
  ∀ key, (w.node self).ht.read key ≠ [] →
    self ∈ (findNodes hash key newRing).map Node.nodeAddress

end

variable {hash : Str → Nat} {self b : Address} {newRing : List Node} {w w' : World}
  {key value : Str} {fuel : Nat} {visited : List Str}

/-! ## The turns without the iterator -/

/-- What every turn preserves the turns preserve together; in each turn the key still has the
entry that was found at the start. -/
theorem stabilizeKeys_invariant {P : List (Str × Str) → World → Prop}
    (step : ∀ key value rest v v' n₀ n₁ n₂, P ((key, value) :: rest) v →
      key ∉ rest.map Prod.fst → (v.node self).ht.get? key = some value →
      (v.node self).ring = (w.node self).ring → findNodes hash key newRing = [n₀, n₁, n₂] →
      Stabilized self newRing key value (findNodes hash key (w.node self).ring) n₀ n₁ n₂ v v' →
      P rest v')
    (hP : P (w.node self).ht.hashTable.toList w)
    (h : w.stabilizeKeys hash self newRing = some w') : P [] w' := by
  let Q : List (Str × Str) → World → Prop := fun rest v => P rest v ∧
    (rest.map Prod.fst).Nodup ∧ (v.node self).ring = (w.node self).ring ∧
    ∀ x ∈ rest, (v.node self).ht.get? x.1 = some x.2
  have hQ : Q (w.node self).ht.hashTable.toList w :=
    ⟨hP, HashTable.keys_nodup, rfl, fun x hx => HashTable.mem_toList.mp hx⟩
  refine (foldlM_invariant (P := Q) ?_ hQ h).1
  rintro ⟨key, value⟩ rest v v' ⟨hPv, hnodup, hring, hmem⟩ hstep
  obtain ⟨n₀, n₁, n₂, hfind, hst⟩ := stabilizeKey_eq_some.mp hstep
  rw [hring] at hst
  have hvalue := hmem (key, value) List.mem_cons_self
  rw [List.map_cons, List.nodup_cons] at hnodup
  refine ⟨step key value rest v v' n₀ n₁ n₂ hPv hnodup.1 hvalue hring hfind hst, hnodup.2, ?_, ?_⟩
  · rw [hst.node_self]
    exact hring
  · intro x hx
    have hne : x.1 ≠ key := by
      intro heq
      rw [← heq] at hnodup
      exact hnodup.1 (List.mem_map.mpr ⟨x, hx, rfl⟩)
    rw [hst.get?_of_ne hvalue hne]
    exact hmem x (List.mem_cons_of_mem _ hx)

/-- They touch the own table only and come to no verdict. -/
theorem stabilizeKeys_frame (h : w.stabilizeKeys hash self newRing = some w') :
    (∀ b, b ≠ self → w'.node b = w.node b) ∧
    w'.node self = { w.node self with ht := (w'.node self).ht } ∧
    ∃ l, w'.trace = w.trace ++ l ∧ ∀ e, .logged e ∈ l → e.isCoordinator = false := by
  refine stabilizeKeys_invariant (P := fun _ v =>
    (∀ b, b ≠ self → v.node b = w.node b) ∧
    v.node self = { w.node self with ht := (v.node self).ht } ∧
    ∃ l, v.trace = w.trace ++ l ∧ ∀ e, .logged e ∈ l → e.isCoordinator = false)
    ?_ ⟨fun _ _ => rfl, rfl, [], by simp, by simp⟩ h
  rintro key value rest v v' n₀ n₁ n₂ ⟨hothers, hself, l, htrace, hl⟩ - hvalue - - hst
  obtain ⟨l', htrace', hl'⟩ := hst.quiet hvalue
  refine ⟨fun b hb => (hst.others hb).trans (hothers b hb), ?_, l ++ l', ?_, fun e he => ?_⟩
  · rw [hst.node_self, hself]
  · rw [htrace', htrace, List.append_assoc]
  · exact (List.mem_append.mp he).elim (hl e) (hl' e)

/-! ## The iterator -/

theorem ownPos_eq_none_iff {n₀ n₁ n₂ : Node} : ownPos self [n₀, n₁, n₂] = none ↔
    self ∉ [n₀, n₁, n₂].map Node.nodeAddress := by
  rcases ownPos_cases self n₀ n₁ n₂ with ⟨hpos, h₂⟩ | ⟨hpos, -, h₁⟩ | ⟨hpos, -, -, h₀⟩ |
    ⟨hpos, h₂, h₁, h₀⟩
  · simp [hpos, h₂]
  · simp [hpos, h₁]
  · simp [hpos, h₀]
  · simp [hpos, Ne.symm h₀, Ne.symm h₁, Ne.symm h₂]

/-- A node that erases nothing hands over empty texts only. -/
theorem read_of_handOver {n₀ n₁ n₂ : Node} (hpos : ownPos self [n₀, n₁, n₂] = none)
    (hvalue : (w.node self).ht.get? key = some value)
    (hown : value ≠ [] → self ∈ [n₀, n₁, n₂].map Node.nodeAddress) :
    (w.node self).ht.read key = [] := by
  rw [HashTable.read_eq, hvalue]
  by_contra hne
  exact ownPos_eq_none_iff.mp hpos (hown hne)

theorem stabilizeAt_eq_some (h : w.stabilizeAt hash self newRing key = some w') :
    ∃ value n₀ n₁ n₂, (w.node self).ht.get? key = some value ∧
      findNodes hash key newRing = [n₀, n₁, n₂] ∧
      Stabilized self newRing key value (findNodes hash key (w.node self).ring) n₀ n₁ n₂ w w' := by
  obtain ⟨value, hvalue, hturn⟩ := Option.bind_eq_some_iff.mp h
  obtain ⟨n₀, n₁, n₂, hfind, hst⟩ := stabilizeKey_eq_some.mp hturn
  exact ⟨value, n₀, n₁, n₂, hvalue, hfind, hst⟩

theorem keys_stabilizeAt (h : w.stabilizeAt hash self newRing key = some w')
    (hmem : key ∈ (w'.node self).ht.keys) : (w'.node self).ht.keys = (w.node self).ht.keys := by
  obtain ⟨value, n₀, n₁, n₂, hvalue, -, hst⟩ := stabilizeAt_eq_some h
  apply HashTable.keys_congr
  intro key'
  by_cases hkey : key' = key
  · subst hkey
    simp [HashTable.mem_keys.mp hmem, hvalue]
  · rw [hst.get?_of_ne hvalue hkey]

/-- A turn for any other node erases a value that is not empty, and the iterator with it. -/
theorem next_stabilizeAt (h : w.stabilizeAt hash self newRing key = some w')
    (hvalue : (w.node self).ht.read key ≠ [])
    (hother : self ∉ (findNodes hash key newRing).map Node.nodeAddress) :
    Cursor.next compare (w'.node self).ht.keys key = none := by
  obtain ⟨value, n₀, n₁, n₂, hget, hfind, hst⟩ := stabilizeAt_eq_some h
  rw [hfind, ← ownPos_eq_none_iff] at hother
  have hgone : (w'.node self).ht.get? key = none := by
    cases hst with
    | handOver => simp [HashTable.get?_deleteKey, hvalue]
    | asPrimary _ _ hpos | asSecondary _ _ _ hpos | asTertiary _ _ _ _ hpos =>
        rw [hother] at hpos
        cases hpos
  apply if_neg
  rw [HashTable.mem_keys, hgone, not_not]

theorem sorted_keys (self : Address) (w : World) :
    (w.node self).ht.keys.Pairwise fun x y => compare x y = .lt :=
  (w.node self).ht.sorted_keys

/-- A loop that comes to its end has erased nothing. -/
theorem keys_of_loop (h : stabilizationLoop hash self newRing fuel
      (w.node self).ht.keys.head? w = some (visited, w')) :
    visited = (w.node self).ht.keys ∧ (w'.node self).ht.keys = (w.node self).ht.keys := by
  have hvisits := Cursor.walk_visits (sorted_keys self)
    (fun _ _ _ h hmem => keys_stabilizeAt h hmem)
    (List.nil_append (w.node self).ht.keys).symm h
  exact hvisits

theorem erasesNothing_of_loop (h : stabilizationLoop hash self newRing fuel
      (w.node self).ht.keys.head? w = some (visited, w')) :
    ErasesNothing hash self newRing w := by
  have hend := Cursor.walk_invariant
    (P := fun rest s => ∀ key, (w.node self).ht.read key ≠ [] →
      self ∈ (findNodes hash key newRing).map Node.nodeAddress ∨
        key ∈ rest ∧ (s.node self).ht.get? key = (w.node self).ht.get? key)
    (sorted_keys self) (fun _ _ _ h hmem => keys_stabilizeAt h hmem) ?_ ?_
    (List.nil_append (w.node self).ht.keys).symm h
  · intro key hread
    exact (hend key hread).resolve_right fun h => absurd h.1 List.not_mem_nil
  · intro a rest s s' hP hfresh hbody hnext key hread
    rcases hP key hread with hown | ⟨hmem, hsame⟩
    · exact Or.inl hown
    rcases List.mem_cons.mp hmem with rfl | hrest
    · left
      by_contra hother
      apply hnext
      apply next_stabilizeAt hbody ?_ hother
      rw [HashTable.read_eq, hsame]
      exact hread
    · right
      have hne : key ≠ a := by
        rintro rfl
        exact hfresh hrest
      obtain ⟨value, n₀, n₁, n₂, hvalue, -, hst⟩ := stabilizeAt_eq_some hbody
      exact ⟨hrest, (hst.get?_of_ne hvalue hne).trans hsame⟩
  · intro key hread
    exact Or.inr ⟨HashTable.mem_keys.mpr (HashTable.get?_ne_none_of_read hread), rfl⟩

theorem foldlM_stabilizeKey {items : List (Str × Str)} (hnodup : (items.map Prod.fst).Nodup)
    (hget : ∀ x ∈ items, (w.node self).ht.get? x.1 = some x.2) :
    items.foldlM (stabilizeKey hash self newRing) w =
      (items.map Prod.fst).foldlM (fun w key => w.stabilizeAt hash self newRing key) w := by
  induction items generalizing w with
  | nil => rfl
  | cons item items ih =>
      obtain ⟨key, value⟩ := item
      rw [List.map_cons, List.nodup_cons] at hnodup
      have hvalue := hget (key, value) List.mem_cons_self
      have hturn : w.stabilizeAt hash self newRing key =
          w.stabilizeKey hash self newRing (key, value) := by
        rw [stabilizeAt, hvalue]
        rfl
      rw [List.map_cons, List.foldlM_cons, List.foldlM_cons, hturn]
      cases hstep : w.stabilizeKey hash self newRing (key, value) with
      | none => rfl
      | some w' =>
          obtain ⟨n₀, n₁, n₂, -, hst⟩ := stabilizeKey_eq_some.mp hstep
          apply ih hnodup.2
          intro x hx
          have hne : x.1 ≠ key := by
            intro heq
            exact hnodup.1 (List.mem_map.mpr ⟨x, hx, heq⟩)
          rw [hst.get?_of_ne hvalue hne]
          exact hget x (List.mem_cons_of_mem _ hx)

/-- A loop that comes to its end did what the turns do. -/
theorem stabilizeKeys_of_loop (h : stabilizationLoop hash self newRing fuel
      (w.node self).ht.keys.head? w = some (visited, w')) :
    w.stabilizeKeys hash self newRing = some w' := by
  have hfold := Cursor.foldlM_of_walk h
  rw [(keys_of_loop h).1] at hfold
  rw [stabilizeKeys, foldlM_stabilizeKey HashTable.keys_nodup
    (fun x hx => HashTable.mem_toList.mp hx), Std.TreeMap.map_fst_toList_eq_keys]
  exact hfold

/-- As many turns as there are keys are enough. -/
theorem stabilizationProtocol_eq_some : w.stabilizationProtocol hash self newRing = some w' ↔
    ∃ fuel visited, stabilizationLoop hash self newRing fuel (w.node self).ht.keys.head? w =
      some (visited, w') := by
  unfold stabilizationProtocol
  rw [Option.map_eq_some_iff]
  constructor
  · rintro ⟨⟨visited, v⟩, h, rfl⟩
    exact ⟨_, visited, h⟩
  · rintro ⟨fuel, visited, h⟩
    refine ⟨(visited, w'), ?_, rfl⟩
    have hlength := Cursor.walk_length h
    rw [(keys_of_loop h).1] at hlength ⊢
    exact hlength

theorem stabilizationProtocol_some (h : w.stabilizationProtocol hash self newRing = some w') :
    w.stabilizeKeys hash self newRing = some w' ∧ ErasesNothing hash self newRing w := by
  obtain ⟨fuel, visited, hloop⟩ := stabilizationProtocol_eq_some.mp h
  exact ⟨stabilizeKeys_of_loop hloop, erasesNothing_of_loop hloop⟩

/-- In each turn of a loop that comes to its end the node is one of the new nodes of the key, unless
its text is empty. -/
theorem stabilizationProtocol_invariant {P : List (Str × Str) → World → Prop}
    (step : ∀ key value rest v v' n₀ n₁ n₂, P ((key, value) :: rest) v →
      key ∉ rest.map Prod.fst → (v.node self).ht.get? key = some value →
      (v.node self).ring = (w.node self).ring → findNodes hash key newRing = [n₀, n₁, n₂] →
      (value ≠ [] → self ∈ [n₀, n₁, n₂].map Node.nodeAddress) →
      Stabilized self newRing key value (findNodes hash key (w.node self).ring) n₀ n₁ n₂ v v' →
      P rest v')
    (hP : P (w.node self).ht.hashTable.toList w)
    (h : w.stabilizationProtocol hash self newRing = some w') : P [] w' := by
  obtain ⟨hkeys, herases⟩ := stabilizationProtocol_some h
  let Q : List (Str × Str) → World → Prop := fun rest v =>
    P rest v ∧ ∀ x ∈ rest, (w.node self).ht.get? x.1 = some x.2
  refine (stabilizeKeys_invariant (P := Q) ?_ ⟨hP, fun x hx => HashTable.mem_toList.mp hx⟩ hkeys).1
  rintro key value rest v v' n₀ n₁ n₂ ⟨hPv, hstart⟩ hfresh hvalue hring hfind hst
  obtain ⟨hfirst, hrest⟩ := List.forall_mem_cons.mp hstart
  refine ⟨step key value rest v v' n₀ n₁ n₂ hPv hfresh hvalue hring hfind ?_ hst, hrest⟩
  intro hne
  rw [← hfind]
  apply herases
  rw [HashTable.read_eq, hfirst]
  exact hne

theorem stabilizationProtocol_frame (h : w.stabilizationProtocol hash self newRing = some w') :
    (∀ b, b ≠ self → w'.node b = w.node b) ∧
    w'.node self = { w.node self with ht := (w'.node self).ht } ∧
    ∃ l, w'.trace = w.trace ++ l ∧ ∀ e, .logged e ∈ l → e.isCoordinator = false :=
  stabilizeKeys_frame (stabilizationProtocol_some h).1

/-! ## A new membership list -/

theorem modifyNode_modifyNode {f g : MP2Node → MP2Node} :
    (w.modifyNode self f).modifyNode self g = w.modifyNode self fun n => g (f n) := by
  simp [modifyNode, setNode]

/-- The ring a node makes of a membership list. -/
def ringOf (hash : Str → Nat) (memberList : List MemberListEntry) : List Node :=
  sortNodes (getMembershipList hash memberList)

/-- A first ring is taken as it is, a changed one after stabilization when something is stored. -/
theorem updateRing_some {memberList : List MemberListEntry}
    (h : w.updateRing hash self memberList = some w') :
    ((w.node self).ring = [] ∧ w' = w.modifyNode self fun n =>
      { n with ring := sortNodes (ringOf hash memberList) }) ∨
    ((w.node self).ring ≠ [] ∧ (0 < (w.node self).ht.currentSize ∧
        ringChanged (w.node self).ring (ringOf hash memberList) = true) ∧ ∃ w₁,
      w.stabilizationProtocol hash self (ringOf hash memberList) = some w₁ ∧
      w' = w₁.modifyNode self fun n => { n with ring := sortNodes (ringOf hash memberList) }) ∨
    ((w.node self).ring ≠ [] ∧
      ¬(0 < (w.node self).ht.currentSize ∧
        ringChanged (w.node self).ring (ringOf hash memberList) = true) ∧
      w' = w.modifyNode self fun n => { n with ring := sortNodes n.ring }) := by
  unfold updateRing at h
  simp only [Option.bind_eq_bind, Option.pure_def] at h
  by_cases hring : (w.node self).ring = []
  · simp only [hring, List.isEmpty_nil, Bool.not_true, Bool.false_and, Bool.false_eq_true,
      and_false, if_false, if_true, Option.bind_some, Option.some.injEq] at h
    subst h
    exact Or.inl ⟨hring, modifyNode_modifyNode⟩
  · have hempty : (w.node self).ring.isEmpty = false := by simpa using hring
    simp only [hring, hempty, Bool.not_false, Bool.true_and, if_false] at h
    split at h
    case isTrue hchanged =>
      simp only [Option.bind_eq_some_iff, Option.map_eq_some_iff, Option.some.injEq] at h
      obtain ⟨_, ⟨w₁, hst, rfl⟩, rfl⟩ := h
      exact Or.inr (Or.inl ⟨hring, hchanged, w₁, hst, modifyNode_modifyNode⟩)
    case isFalse hsame =>
      obtain rfl := Option.some.inj h
      exact Or.inr (Or.inr ⟨hring, hsame, rfl⟩)

theorem updateRing_others {memberList : List MemberListEntry}
    (h : w.updateRing hash self memberList = some w') (hb : b ≠ self) :
    w'.node b = w.node b := by
  rcases updateRing_some h with ⟨-, rfl⟩ | ⟨-, -, w₁, hst, rfl⟩ | ⟨-, -, rfl⟩
  · exact node_modifyNode_of_ne hb
  · exact (node_modifyNode_of_ne hb).trans ((stabilizationProtocol_frame hst).1 b hb)
  · exact node_modifyNode_of_ne hb

theorem updateRing_frame {memberList : List MemberListEntry}
    (h : w.updateRing hash self memberList = some w') :
    (∀ b, ∃ ring ht, w'.node b = { w.node b with ring := ring, ht := ht }) ∧
    ∃ l, w'.trace = w.trace ++ l ∧ ∀ e, .logged e ∈ l → e.isCoordinator = false := by
  have hring : ∀ {v : World} {ring : MP2Node → List Node},
      (∀ b, ∃ ht, v.node b = { w.node b with ht := ht }) → ∀ b, ∃ ring' ht,
      (v.modifyNode self fun n => { n with ring := ring n }).node b =
        { w.node b with ring := ring', ht := ht } := by
    intro v ring hnode b
    obtain ⟨ht, hht⟩ := hnode b
    by_cases hb : b = self
    · subst hb
      exact ⟨_, ht, by rw [node_modifyNode_self, hht]⟩
    · exact ⟨_, ht, by rw [node_modifyNode_of_ne hb, hht]⟩
  rcases updateRing_some h with ⟨-, rfl⟩ | ⟨-, -, w₁, hst, rfl⟩ | ⟨-, -, rfl⟩
  · exact ⟨hring fun b => ⟨_, rfl⟩, [], by simp, by simp⟩
  · obtain ⟨hothers, hself, hquiet⟩ := stabilizationProtocol_frame hst
    refine ⟨hring fun b => ?_, hquiet⟩
    by_cases hb : b = self
    · exact ⟨_, hb ▸ hself⟩
    · exact ⟨_, hothers b hb⟩
  · exact ⟨hring fun b => ⟨_, rfl⟩, [], by simp, by simp⟩

end World

end CloudComputing.KeyValueStore
