import CloudComputing.KeyValueStore.Rotation
import CloudComputing.KeyValueStore.StabilizationLoop

/-!
# The ring and the membership

Two nodes that know the same members sort them by hash code only.  They agree on
the replicas of every key exactly when no two members have the same code, and in
any case on the codes of the replicas.  And a node takes over a new membership
list in some cases only.
-/

namespace CloudComputing.KeyValueStore

open Lib

variable {hash : Str → Nat} {key : Str} {nodes ring ring₁ ring₂ : List Node} {n n' : Node}

/-! ## Agreement -/

def Sorts.sortedRing (h : Sorts nodes ring) (hthree : 3 ≤ nodes.length)
    (haddr : (nodes.map Node.nodeAddress).Nodup) : SortedRing where
  nodes := ring
  three := by rwa [h.perm.length_eq]
  sorted := h.sorted
  addresses := (h.perm.map Node.nodeAddress).nodup_iff.mpr haddr

def codesFrom (pos : Nat) (codes : List Nat) : List Nat :=
  (codes.filter (fun c => pos ≤ c) ++ codes.filter fun c => c < pos).take 3

theorem codes_findNodes (R : SortedRing) (hash : Str → Nat) (key : Str) :
    (findNodes hash key R.nodes).map Node.nodeHashCode =
      codesFrom (hashFunction hash key) (R.nodes.map Node.nodeHashCode) := by
  rw [R.findNodes_eq_take, List.map_take, SortedRing.rotated, List.map_append, codesFrom,
    List.filter_map, List.filter_map]
  rfl

theorem Sorts.codes_eq (h₁ : Sorts nodes ring₁) (h₂ : Sorts nodes ring₂) :
    ring₁.map Node.nodeHashCode = ring₂.map Node.nodeHashCode := by
  apply @List.Perm.eq_of_pairwise Nat fun c₁ c₂ => c₁ ≤ c₂
  · exact fun a b _ _ hab hba => le_antisymm hab hba
  · exact List.pairwise_map.mpr h₁.sorted
  · exact List.pairwise_map.mpr h₂.sorted
  · exact (h₁.perm.trans h₂.perm.symm).map _

theorem Sorts.eq_of_nodup (h₁ : Sorts nodes ring₁) (h₂ : Sorts nodes ring₂)
    (hcodes : (nodes.map Node.nodeHashCode).Nodup) : ring₁ = ring₂ := by
  apply @List.Perm.eq_of_pairwise Node fun n₁ n₂ => n₁.nodeHashCode ≤ n₂.nodeHashCode
  · intro a b ha hb hab hba
    exact List.inj_on_of_nodup_map hcodes (h₁.perm.mem_iff.mp ha) (h₂.perm.mem_iff.mp hb)
      (le_antisymm hab hba)
  · exact h₁.sorted
  · exact h₂.sorted
  · exact h₁.perm.trans h₂.perm.symm

/-- Sorting may put any member in front of the others with its code. -/
theorem exists_sorts_first (hn : n ∈ nodes) : ∃ ring, Sorts nodes ring ∧
    (ring.filter fun m => n.nodeHashCode ≤ m.nodeHashCode).head? = some n := by
  have hperm : (n :: nodes.erase n).Perm nodes := (List.perm_cons_erase hn).symm
  have hsorts := sorts_sortNodes (n :: nodes.erase n)
  refine ⟨_, ⟨hsorts.perm.trans hperm, hsorts.sorted⟩, ?_⟩
  rw [sortNodes, List.insertionSort_cons_eq_take_drop, List.filter_append]
  have hbefore : (((nodes.erase n).insertionSort
      fun n₁ n₂ => n₁.nodeHashCode ≤ n₂.nodeHashCode).takeWhile fun m =>
        ¬ n.nodeHashCode ≤ m.nodeHashCode).filter (fun m => n.nodeHashCode ≤ m.nodeHashCode) = [] := by
    rw [List.filter_eq_nil_iff]
    intro m hm
    simpa using List.mem_takeWhile_imp hm
  rw [hbefore]
  simp

/-- The key that is the address of a node, as `computeHashCode` sees it. -/
def addressKey (n : Node) : Str := n.nodeAddress.cString.map fun b => Char.ofNat b.toNat

theorem findNodes_addressKey (R : SortedRing) (hcode : n = Node.ofAddress hash n.nodeAddress)
    (hfirst : (R.nodes.filter fun m => n.nodeHashCode ≤ m.nodeHashCode).head? = some n') :
    (findNodes hash (addressKey n) R.nodes).head? = some n' := by
  have hpos : hashFunction hash (addressKey n) = n.nodeHashCode := (congrArg Node.nodeHashCode hcode).symm
  rw [R.findNodes_eq_take, SortedRing.rotated, hpos, List.head?_take, if_neg (by decide),
    List.head?_append, hfirst]
  rfl

namespace World

variable {memberList : List MemberListEntry}

theorem length_getMembershipList :
    (getMembershipList hash memberList).length = memberList.length :=
  List.length_map _

theorem addresses_getMembershipList : (getMembershipList hash memberList).map Node.nodeAddress =
    memberList.map MemberListEntry.address := by
  rw [getMembershipList, List.map_map]
  rfl

/-- Nodes that know the same members agree on the replicas of all keys when, and only when, the
members have distinct hash codes; they always agree on the codes. -/
theorem replicas_agree_iff (hash : Str → Nat) (hthree : 3 ≤ memberList.length)
    (hdistinct : (memberList.map MemberListEntry.address).Nodup) :
    (∀ l₁ l₂ ring₁ ring₂, l₁.Perm memberList → l₂.Perm memberList →
      Sorts (getMembershipList hash l₁) ring₁ → Sorts (getMembershipList hash l₂) ring₂ → ∀ key,
        (findNodes hash key ring₁).map Node.nodeHashCode =
          (findNodes hash key ring₂).map Node.nodeHashCode) ∧
    ((∀ l₁ l₂ ring₁ ring₂, l₁.Perm memberList → l₂.Perm memberList →
      Sorts (getMembershipList hash l₁) ring₁ → Sorts (getMembershipList hash l₂) ring₂ → ∀ key,
        findNodes hash key ring₁ = findNodes hash key ring₂) ↔
      ((getMembershipList hash memberList).map Node.nodeHashCode).Nodup) := by
  have hsorts : ∀ {l ring}, l.Perm memberList → Sorts (getMembershipList hash l) ring →
      Sorts (getMembershipList hash memberList) ring := fun hperm h =>
    ⟨h.perm.trans (hperm.map _), h.sorted⟩
  have hring : ∀ {ring}, Sorts (getMembershipList hash memberList) ring →
      ∃ R : SortedRing, R.nodes = ring := fun h =>
    ⟨h.sortedRing (by rwa [length_getMembershipList]) (by rwa [addresses_getMembershipList]), rfl⟩
  refine ⟨fun l₁ l₂ ring₁ ring₂ h₁ h₂ hs₁ hs₂ key => ?_, fun hagree => ?_, fun hnodup => ?_⟩
  · obtain ⟨R₁, rfl⟩ := hring (hsorts h₁ hs₁)
    obtain ⟨R₂, rfl⟩ := hring (hsorts h₂ hs₂)
    rw [codes_findNodes, codes_findNodes, (hsorts h₁ hs₁).codes_eq (hsorts h₂ hs₂)]
  · have hnodes : (getMembershipList hash memberList).Nodup := by
      have haddr : ((getMembershipList hash memberList).map Node.nodeAddress).Nodup := by
        rwa [addresses_getMembershipList]
      exact haddr.of_map
    refine (List.nodup_map_iff_inj_on hnodes).mpr fun n hn n' hn' hcode => ?_
    -- each of the two comes first in some sorted ring
    obtain ⟨ring₁, hs₁, hfirst₁⟩ := exists_sorts_first hn
    obtain ⟨ring₂, hs₂, hfirst₂⟩ := exists_sorts_first hn'
    have hsame := hagree memberList memberList ring₁ ring₂ (List.Perm.refl _) (List.Perm.refl _) hs₁ hs₂
      (addressKey n)
    have hown : n = Node.ofAddress hash n.nodeAddress := by
      obtain ⟨e, -, rfl⟩ := List.mem_map.mp hn
      rfl
    obtain ⟨R₁, rfl⟩ := hring hs₁
    obtain ⟨R₂, rfl⟩ := hring hs₂
    rw [← hcode] at hfirst₂
    have h₁ := findNodes_addressKey R₁ hown hfirst₁
    have h₂ := findNodes_addressKey R₂ hown hfirst₂
    rw [hsame, h₂] at h₁
    exact (Option.some.inj h₁).symm
  · intro l₁ l₂ ring₁ ring₂ h₁ h₂ hs₁ hs₂ key
    rw [(hsorts h₁ hs₁).eq_of_nodup (hsorts h₂ hs₂) hnodup]

/-- The addresses of the nodes `2` and `258` are different C strings with one hash code, and two
nodes that learned of them in different orders disagree. -/
theorem replicas_disagree : ∃ l₁ l₂ ring₁ ring₂,
    (l₁.map MemberListEntry.address).Nodup ∧ (l₁.map fun e => e.address.cString).Nodup ∧
    3 ≤ l₁.length ∧ l₁.Perm l₂ ∧
    Sorts (getMembershipList sampleHash l₁) ring₁ ∧ Sorts (getMembershipList sampleHash l₂) ring₂ ∧
    findNodes sampleHash ['k'] ring₁ ≠ findNodes sampleHash ['k'] ring₂ :=
  ⟨members [1, 2, 258, 3], members [1, 258, 2, 3], _, _, by decide, by decide +kernel, by decide,
    by decide +kernel, sorts_sortNodes _, sorts_sortNodes _, by decide +kernel⟩

theorem replicas_agree_iff_threeNodes :
    findNodes sampleHash ['k'] (sortNodes (getMembershipList sampleHash (members [2, 3, 1]))) =
      findNodes sampleHash ['k'] (sortNodes (getMembershipList sampleHash (members [1, 2, 3]))) :=
  ((@replicas_agree_iff (members [1, 2, 3]) sampleHash (by decide) (by decide)).2.mpr
    (by decide +kernel)) (members [2, 3, 1]) (members [1, 2, 3]) _ _ (by decide +kernel)
    (List.Perm.refl _) (sorts_sortNodes _) (sorts_sortNodes _) ['k']

/-! ## Keeping up with the membership -/

variable {w w' : World} {self : Address}

/-- The ring is the membership list in order, and keys are routed to members. -/
def Tracks (hash : Str → Nat) (memberList : List MemberListEntry) (ring : List Node) : Prop :=
  Sorts (getMembershipList hash memberList) ring ∧
    ∀ key, ∀ n ∈ findNodes hash key ring, n ∈ getMembershipList hash memberList

theorem tracks_iff_sorts :
    Tracks hash memberList ring ↔ Sorts (getMembershipList hash memberList) ring :=
  ⟨And.left, fun h => ⟨h, fun _ _ hn => h.perm.mem_iff.mp (mem_of_mem_findNodes hn)⟩⟩

theorem sorts_sortNodes_iff : Sorts nodes (sortNodes ring) ↔ ring.Perm nodes :=
  ⟨fun h => (sortNodes_perm ring).symm.trans h.perm,
    fun h => ⟨(sortNodes_perm ring).trans h, (sorts_sortNodes ring).sorted⟩⟩

/-- A node takes over the membership list when it has no ring yet or a changed one while it stores
something; otherwise its ring is right only if it was before. -/
theorem ring_tracks_iff (h : w.updateRing hash self memberList = some w') :
    Tracks hash memberList (w'.node self).ring ↔
      (w.node self).ring = [] ∨
      (0 < (w.node self).ht.currentSize ∧
        ringChanged (w.node self).ring (sortNodes (getMembershipList hash memberList)) = true) ∨
      (w.node self).ring.Perm (getMembershipList hash memberList) := by
  rw [tracks_iff_sorts]
  rcases updateRing_some h with ⟨hring, rfl⟩ | ⟨-, hchanged, w₁, -, rfl⟩ | ⟨hring, hsame, rfl⟩
  · rw [node_modifyNode_self]
    exact iff_of_true (sorts_sortNodes_iff.mpr (sortNodes_perm _)) (Or.inl hring)
  · rw [node_modifyNode_self]
    exact iff_of_true (sorts_sortNodes_iff.mpr (sortNodes_perm _)) (Or.inr (Or.inl hchanged))
  · rw [node_modifyNode_self, sorts_sortNodes_iff]
    constructor
    · exact fun hperm => Or.inr (Or.inr hperm)
    · rintro (hnil | hchanged | hperm)
      · exact absurd hnil hring
      · exact absurd hchanged hsame
      · exact hperm

/-- A node that stores nothing has a ring of four; the fourth member is removed from its list. -/
def withRing : World :=
  (initial.updateRing sampleHash (sampleNode 1) (members [1, 2, 3, 4])).get (by decide +kernel)

def staleRing : World :=
  (withRing.updateRing sampleHash (sampleNode 1) (members [1, 2, 3])).get (by decide +kernel)

theorem ring_not_tracking :
    withRing.updateRing sampleHash (sampleNode 1) (members [1, 2, 3]) = some staleRing ∧
      ¬ Tracks sampleHash (members [1, 2, 3]) (staleRing.node (sampleNode 1)).ring := by
  refine ⟨(Option.some_get _).symm, fun h => ?_⟩
  have hlength := h.1.perm.length_eq
  exact absurd hlength (by decide +kernel)

/-- The node of `withRing` with a key that it goes on being a replica of. -/
def keeper : World :=
  withRing.modifyNode (sampleNode 1) fun n =>
    { n with ht := (n.ht.create ['k'] (Entry.convertToString ⟨['v'], 0, .primary⟩)).2 }

def keptUp : World :=
  (keeper.updateRing sampleHash (sampleNode 1) (members [1, 2, 3])).get (by decide +kernel)

theorem ring_tracks_iff_keeper :
    Tracks sampleHash (members [1, 2, 3]) (keptUp.node (sampleNode 1)).ring :=
  (ring_tracks_iff (w := keeper) (Option.some_get _).symm).mpr
    (Or.inr (Or.inl (by decide +kernel)))

end World

/-! ## Noticing a change -/

def codeSet (ring : List Node) : Finset Nat :=
  (ring.map Node.nodeHashCode).toFinset

theorem mem_codeSet {c : Nat} : c ∈ codeSet ring ↔ ∃ n ∈ ring, n.nodeHashCode = c := by
  simp [codeSet]

theorem card_codeSet (h : (ring.map Node.nodeHashCode).Nodup) :
    (codeSet ring).card = ring.length := by
  rw [codeSet, List.toFinset_card_of_nodup h, List.length_map]

theorem codeSet_eq_of_subset (h₁ : (ring₁.map Node.nodeHashCode).Nodup)
    (h₂ : (ring₂.map Node.nodeHashCode).Nodup) (hlen : ring₁.length = ring₂.length)
    (hsub : codeSet ring₁ ⊆ codeSet ring₂) : codeSet ring₁ = codeSet ring₂ := by
  apply Finset.eq_of_subset_of_card_le hsub
  rw [card_codeSet h₁, card_codeSet h₂, hlen]

/-- The loops of `ring_changed` look for a code that both rings have. -/
theorem ringChanged_eq_true : ringChanged ring₁ ring₂ = true ↔
    ring₁.length ≠ ring₂.length ∨ ∃ n ∈ ring₁, n.nodeHashCode ∈ codeSet ring₂ := by
  unfold ringChanged
  split
  case isTrue hlen => simp [hlen]
  case isFalse hlen =>
    simp only [hlen, false_or, List.any_eq_true, decide_eq_true_eq, mem_codeSet]
    simp only [eq_comm]

/-- `ring_changed` decides whether the sets of hash codes differ only for rings of different
lengths, for empty ones, and for those that have some but not all codes in common. -/
theorem ringChanged_decides_iff (h₁ : (ring₁.map Node.nodeHashCode).Nodup)
    (h₂ : (ring₂.map Node.nodeHashCode).Nodup) :
    (ringChanged ring₁ ring₂ = true ↔ codeSet ring₁ ≠ codeSet ring₂) ↔
      ring₁.length ≠ ring₂.length ∨ (ring₁ = [] ∧ ring₂ = []) ∨
        (∃ n ∈ ring₁, n.nodeHashCode ∈ codeSet ring₂) ∧
          ∃ n ∈ ring₁, n.nodeHashCode ∉ codeSet ring₂ := by
  rw [ringChanged_eq_true]
  by_cases hlen : ring₁.length = ring₂.length
  case neg =>
    have hne : codeSet ring₁ ≠ codeSet ring₂ := by
      intro heq
      have hcard := congrArg Finset.card heq
      rw [card_codeSet h₁, card_codeSet h₂] at hcard
      exact hlen hcard
    simp [hlen, hne]
  case pos =>
    have hdiffer : codeSet ring₁ ≠ codeSet ring₂ ↔
        ∃ n ∈ ring₁, n.nodeHashCode ∉ codeSet ring₂ := by
      constructor
      · intro hne
        by_contra hall
        simp only [not_exists, not_and, not_not] at hall
        apply hne
        apply codeSet_eq_of_subset h₁ h₂ hlen
        intro c hc
        obtain ⟨n, hn, rfl⟩ := mem_codeSet.mp hc
        exact hall n hn
      · intro ⟨n, hn, hnot⟩ heq
        exact hnot (heq ▸ mem_codeSet.mpr ⟨n, hn, rfl⟩)
    have hempty : ring₁ = [] ∧ ring₂ = [] ↔ ring₁ = [] := by
      constructor
      · exact And.left
      · intro hnil
        subst hnil
        exact ⟨rfl, List.eq_nil_of_length_eq_zero hlen.symm⟩
    rw [hdiffer, hempty]
    simp only [ne_eq, hlen, not_true_eq_false, false_or]
    cases ring₁ with
    | nil => simp
    | cons first rest =>
        -- every code is shared or not, so one of the two sides always has a member
        have hsome : (∃ n ∈ first :: rest, n.nodeHashCode ∈ codeSet ring₂) ∨
            ∃ n ∈ first :: rest, n.nodeHashCode ∉ codeSet ring₂ := by
          by_cases h : first.nodeHashCode ∈ codeSet ring₂
          · exact Or.inl ⟨first, List.mem_cons_self, h⟩
          · exact Or.inr ⟨first, List.mem_cons_self, h⟩
        simp only [reduceCtorEq, false_or]
        constructor
        · intro hiff
          rcases hsome with hshared | hown
          · exact ⟨hshared, hiff.mp hshared⟩
          · exact ⟨hiff.mpr hown, hown⟩
        · intro hboth
          exact iff_of_true hboth.1 hboth.2

/-- The ring that a node had already is taken for a new one. -/
theorem ringChanged_of_same : ¬ ∀ ring₁ ring₂ : List Node,
    (ring₁.map Node.nodeHashCode).Nodup → (ring₂.map Node.nodeHashCode).Nodup →
      (ringChanged ring₁ ring₂ = true ↔ codeSet ring₁ ≠ codeSet ring₂) := by
  intro h
  let ring := sortNodes (World.getMembershipList sampleHash (members [1, 2, 3]))
  have hring := h ring ring (by decide +kernel) (by decide +kernel)
  exact hring.mp (by decide +kernel) rfl

theorem ringChanged_decides_iff_shrunk :
    let before := sortNodes (World.getMembershipList sampleHash (members [1, 2, 3]))
    let after := sortNodes (World.getMembershipList sampleHash (members [1, 3]))
    ringChanged before after = true ↔ codeSet before ≠ codeSet after :=
  (ringChanged_decides_iff (by decide +kernel) (by decide +kernel)).mpr
    (Or.inl (by decide +kernel))

end CloudComputing.KeyValueStore
