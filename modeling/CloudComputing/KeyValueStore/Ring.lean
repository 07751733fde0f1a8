import Mathlib.Data.List.Sort
import CloudComputing.Member

/-!
# The ring

`Node.{h,cpp}` and the functions of `MP2Node.cpp` that only look at a ring.
`std::hash` is a parameter; everything is taken modulo `RING_SIZE`.
-/

namespace CloudComputing.KeyValueStore

def ringSize : Nat := 512

structure Node where
  nodeAddress : Address
  nodeHashCode : Nat
deriving DecidableEq

section

variable (hash : Str → Nat)

/-- `Node(Address)`: the hash of the C string in `addr`. -/
def Node.ofAddress (address : Address) : Node where
  nodeAddress := address
  nodeHashCode := hash (address.cString.map fun b => Char.ofNat b.toNat) % ringSize

def hashFunction (key : Str) : Nat :=
  hash key % ringSize

/-- `ring.at(i)` for the three positions from `i` on. -/
def threeFrom (ring : List Node) (i : Nat) : List Node :=
  [i, (i + 1) % ring.length, (i + 2) % ring.length].filterMap fun j => ring[j]?

/-- `findNodes(key, ring)`; no nodes in a ring of fewer than three. -/
def findNodes (key : Str) (ring : List Node) : List Node :=
  let pos := hashFunction hash key
  match ring.head?, ring.getLast? with
  | some first, some last =>
      if 3 ≤ ring.length then
        if pos ≤ first.nodeHashCode ∨ last.nodeHashCode < pos then threeFrom ring 0
        else
          match ring.tail.findIdx? fun addr => pos ≤ addr.nodeHashCode with
          | some i => threeFrom ring (i + 1)
          | none => []
      else []
  | _, _ => []

end

/-- `find_position(Node, list)`, by hash code. -/
def findNodePosition (node : Node) (list : List Node) : Int :=
  match list.findIdx? fun n => node.nodeHashCode = n.nodeHashCode with
  | some i => i
  | none => -1

/-- `find_position(Address, list)`. -/
def findPosition (addr : Address) (list : List Node) : Int :=
  match list.findIdx? fun n => addr = n.nodeAddress with
  | some i => i
  | none => -1

/-- `(pos + size - back) % size`, an `int` and two `size_t`. -/
def predecessorPos (pos : Int) (size back : Nat) : Nat :=
  ((pos + size - back) % 2 ^ 64 % size).toNat

/-- The node `back` places before the one with this address. -/
def predecessor (self : Address) (ring : List Node) (back : Nat) : Option Node :=
  ring[predecessorPos (findPosition self ring) ring.length back]?

/-- `ring_changed`, which looks for two equal hash codes. -/
def ringChanged (ring₁ ring₂ : List Node) : Bool :=
  if ring₁.length ≠ ring₂.length then true
  else ring₁.any fun n₁ => ring₂.any fun n₂ => n₁.nodeHashCode = n₂.nodeHashCode

/-- `sort` by `operator <`. -/
def sortNodes (nodes : List Node) : List Node :=
  nodes.insertionSort fun n₁ n₂ => n₁.nodeHashCode ≤ n₂.nodeHashCode

/-- The loop that looks for the own address among three replicas; the last match counts. -/
def ownPos (self : Address) (replicas : List Node) : Option Nat :=
  (List.range 3).foldl
    (fun pos i => if replicas[i]?.map Node.nodeAddress = some self then some i else pos) none

theorem threeFrom_length {ring : List Node} (h : 3 ≤ ring.length) {i : Nat}
    (hi : i < ring.length) : ∃ r₀ r₁ r₂, threeFrom ring i = [r₀, r₁, r₂] ∧
      ring[i]? = some r₀ ∧ ring[(i + 1) % ring.length]? = some r₁ ∧
      ring[(i + 2) % ring.length]? = some r₂ := by
  have h₁ : (i + 1) % ring.length < ring.length := Nat.mod_lt _ (by omega)
  have h₂ : (i + 2) % ring.length < ring.length := Nat.mod_lt _ (by omega)
  refine ⟨_, _, _, ?_, List.getElem?_eq_getElem hi, List.getElem?_eq_getElem h₁,
    List.getElem?_eq_getElem h₂⟩
  simp [threeFrom, List.getElem?_eq_getElem hi, List.getElem?_eq_getElem h₁,
    List.getElem?_eq_getElem h₂]

/-- Three replicas, one behind the other, or none. -/
theorem findNodes_cases (hash : Str → Nat) (key : Str) (ring : List Node) : findNodes hash key ring = [] ∨
    3 ≤ ring.length ∧ ∃ i < ring.length, findNodes hash key ring = threeFrom ring i := by
  unfold findNodes
  dsimp only
  split
  case h_2 => exact Or.inl rfl
  case h_1 first last hfirst hlast =>
    split
    case isFalse => exact Or.inl rfl
    case isTrue hlen =>
      split
      case isTrue => exact Or.inr ⟨hlen, 0, by omega, rfl⟩
      case isFalse =>
        split
        case h_2 => exact Or.inl rfl
        case h_1 i hi =>
          have hlt := (List.findIdx?_eq_some_iff_findIdx_eq.mp hi).1
          rw [List.length_tail] at hlt
          exact Or.inr ⟨hlen, i + 1, by omega, rfl⟩

theorem mem_of_mem_findNodes {hash : Str → Nat} {key : Str} {ring : List Node} {n : Node}
    (h : n ∈ findNodes hash key ring) : n ∈ ring := by
  rcases findNodes_cases hash key ring with hnil | ⟨-, i, -, hthree⟩
  · rw [hnil] at h
    cases h
  · rw [hthree, threeFrom, List.mem_filterMap] at h
    obtain ⟨j, -, hj⟩ := h
    exact List.mem_of_getElem? hj

section

variable {hash : Str → Nat} {key : Str} {ring : List Node} {first last : Node}

theorem findNodes_of_outside (h : 3 ≤ ring.length) (hfirst : ring.head? = some first)
    (hlast : ring.getLast? = some last)
    (hpos : hashFunction hash key ≤ first.nodeHashCode ∨
      last.nodeHashCode < hashFunction hash key) :
    findNodes hash key ring = threeFrom ring 0 := by
  unfold findNodes
  rw [hfirst, hlast]
  dsimp only
  rw [if_pos h, if_pos hpos]

theorem findNodes_of_inside (h : 3 ≤ ring.length) (hfirst : ring.head? = some first)
    (hlast : ring.getLast? = some last)
    (hpos : ¬(hashFunction hash key ≤ first.nodeHashCode ∨
      last.nodeHashCode < hashFunction hash key)) {i : Nat}
    (hi : ring.tail.findIdx? (fun addr => hashFunction hash key ≤ addr.nodeHashCode) = some i) :
    findNodes hash key ring = threeFrom ring (i + 1) := by
  unfold findNodes
  rw [hfirst, hlast]
  dsimp only
  rw [if_pos h, if_neg hpos, hi]

end

theorem findNodes_nodup (hash : Str → Nat) (key : Str) {ring : List Node}
    (h : (ring.map Node.nodeAddress).Nodup) :
    ((findNodes hash key ring).map Node.nodeAddress).Nodup := by
  rcases findNodes_cases hash key ring with hnil | ⟨hlen, i, hi, hthree⟩
  · rw [hnil]
    exact List.nodup_nil
  obtain ⟨r₀, r₁, r₂, heq, h₀, h₁, h₂⟩ := threeFrom_length hlen hi
  have hne : ∀ {j k : Nat} {r r' : Node}, ring[j]? = some r → ring[k]? = some r' → j ≠ k →
      r.nodeAddress ≠ r'.nodeAddress := by
    intro j k r r' hj hk hjk heq
    obtain ⟨hj', rfl⟩ := List.getElem?_eq_some_iff.mp hj
    obtain ⟨hk', rfl⟩ := List.getElem?_eq_some_iff.mp hk
    have hinj := @List.Nodup.getElem_inj_iff _ _ h j (by simpa using hj') k (by simpa using hk')
    exact hjk (hinj.mp (by simpa using heq))
  have hmod : ∀ d, d < ring.length → (i + d) % ring.length = i + d ∨
      (i + d) % ring.length + ring.length = i + d := by
    intro d hd
    by_cases hlt : i + d < ring.length
    · exact Or.inl (Nat.mod_eq_of_lt hlt)
    · rw [Nat.mod_eq_sub_mod (by omega), Nat.mod_eq_of_lt (by omega)]
      omega
  have hm₁ := hmod 1 (by omega)
  have hm₂ := hmod 2 (by omega)
  rw [hthree, heq]
  simp only [List.map_cons, List.map_nil, List.nodup_cons, List.mem_cons, List.not_mem_nil,
    or_false, not_or, not_false_eq_true, List.nodup_nil, and_true]
  exact ⟨⟨hne h₀ h₁ (by omega), hne h₀ h₂ (by omega)⟩, hne h₁ h₂ (by omega)⟩

theorem findNodes_of_three (hash : Str → Nat) {ring : List Node} (h : 3 ≤ ring.length) (key : Str) :
    ∃ n₀ n₁ n₂, findNodes hash key ring = [n₀, n₁, n₂] := by
  have hthree : ∀ i < ring.length, ∃ n₀ n₁ n₂, threeFrom ring i = [n₀, n₁, n₂] := by
    intro i hi
    obtain ⟨n₀, n₁, n₂, heq, -⟩ := threeFrom_length h hi
    exact ⟨n₀, n₁, n₂, heq⟩
  obtain ⟨first, rest, rfl⟩ := List.exists_cons_of_length_pos (show 0 < ring.length by omega)
  have hlast := List.getLast?_eq_some_getLast (List.cons_ne_nil first rest)
  unfold findNodes
  rw [hlast, List.head?_cons]
  dsimp only
  rw [if_pos h]
  split
  case isTrue => exact hthree 0 (by omega)
  case isFalse hpos =>
    split
    case h_1 i hi =>
      have hlt := (List.findIdx?_eq_some_iff_findIdx_eq.mp hi).1
      exact hthree (i + 1) (by simpa using hlt)
    case h_2 hnone =>
      -- the last node is one of the others, and not in front of the key
      have hrest : rest ≠ [] := by
        rintro rfl
        simp at h
      have hmem : (first :: rest).getLast (List.cons_ne_nil first rest) ∈ rest := by
        rw [List.getLast_cons hrest]
        exact List.getLast_mem hrest
      have hbefore := List.findIdx?_eq_none_iff.mp hnone _ hmem
      simp only [decide_eq_false_iff_not] at hbefore
      omega

/-! ## Rings in order -/

/-- A ring as `updateRing` makes it of three or more members at distinct addresses with distinct
hash codes. -/
structure ProperRing where
  nodes : List Node
  three : 3 ≤ nodes.length
  codes : ∀ n ∈ nodes, n.nodeHashCode < ringSize
  sorted : nodes.Pairwise fun n₁ n₂ => n₁.nodeHashCode < n₂.nodeHashCode
  addresses : (nodes.map Node.nodeAddress).Nodup

/-- The same, when two members may have the same hash code. -/
structure SortedRing where
  nodes : List Node
  three : 3 ≤ nodes.length
  sorted : nodes.Pairwise fun n₁ n₂ => n₁.nodeHashCode ≤ n₂.nodeHashCode
  addresses : (nodes.map Node.nodeAddress).Nodup

@[reducible] def ProperRing.sortedRing (R : ProperRing) : SortedRing :=
  ⟨R.nodes, R.three, R.sorted.imp le_of_lt, R.addresses⟩

theorem SortedRing.eq_of_nodeAddress (R : SortedRing) {n n' : Node} (hn : n ∈ R.nodes)
    (hn' : n' ∈ R.nodes) (h : n.nodeAddress = n'.nodeAddress) : n = n' :=
  List.inj_on_of_nodup_map R.addresses hn hn' h

/-- What `std::sort` promises. -/
structure Sorts (nodes ring : List Node) : Prop where
  perm : ring.Perm nodes
  sorted : ring.Pairwise fun n₁ n₂ => n₁.nodeHashCode ≤ n₂.nodeHashCode

theorem sortNodes_perm (nodes : List Node) : (sortNodes nodes).Perm nodes :=
  List.perm_insertionSort _ nodes

theorem sorts_sortNodes (nodes : List Node) : Sorts nodes (sortNodes nodes) := by
  have : Std.Total fun n₁ n₂ : Node => n₁.nodeHashCode ≤ n₂.nodeHashCode :=
    ⟨fun a b => le_total _ _⟩
  have : IsTrans Node fun n₁ n₂ => n₁.nodeHashCode ≤ n₂.nodeHashCode :=
    ⟨fun a b c => le_trans⟩
  exact ⟨sortNodes_perm nodes, List.pairwise_insertionSort _ nodes⟩

theorem SortedRing.sortNodes_nodes (R : SortedRing) : sortNodes R.nodes = R.nodes :=
  R.sorted.insertionSort_eq

namespace ProperRing

variable (R : ProperRing) {nodes : List Node} {n n' : Node}

theorem ne_nil : R.nodes ≠ [] :=
  List.ne_nil_of_length_pos (by have := R.three; omega)

theorem eq_of_nodeHashCode (hn : n ∈ R.nodes) (hn' : n' ∈ R.nodes)
    (h : n.nodeHashCode = n'.nodeHashCode) : n = n' := by
  have hcodes : (R.nodes.map Node.nodeHashCode).Nodup :=
    List.pairwise_map.mpr (R.sorted.imp fun hlt => hlt.ne)
  exact List.inj_on_of_nodup_map hcodes hn hn' h

theorem eq_of_nodeAddress (hn : n ∈ R.nodes) (hn' : n' ∈ R.nodes)
    (h : n.nodeAddress = n'.nodeAddress) : n = n' :=
  R.sortedRing.eq_of_nodeAddress hn hn' h

/-- Whatever the order of the membership list, sorting gives the same ring. -/
theorem sortNodes_eq (h : nodes.Perm R.nodes) : sortNodes nodes = R.nodes := by
  apply @List.Perm.eq_of_pairwise Node fun n₁ n₂ => n₁.nodeHashCode ≤ n₂.nodeHashCode
  · intro a b ha hb hab hba
    have ha' := (sortNodes_perm nodes |>.trans h).mem_iff.mp ha
    exact R.eq_of_nodeHashCode ha' hb (by omega)
  · exact (sorts_sortNodes nodes).sorted
  · exact R.sorted.imp le_of_lt
  · exact (sortNodes_perm nodes).trans h

end ProperRing

end CloudComputing.KeyValueStore
