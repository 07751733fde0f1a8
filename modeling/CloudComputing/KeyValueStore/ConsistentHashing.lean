import CloudComputing.KeyValueStore.Rotation
import CloudComputing.KeyValueStore.System

/-!
# Consistent hashing

Which three members `findNodes` picks, by their places in the ring, and how
little of this changes when one member leaves.
-/

namespace CloudComputing.KeyValueStore

open Lib

/-- `findNodes(key)`, the overload that looks at the node's own ring. -/
def World.findNodesByKey (hash : Str → Nat) (self : Address) (key : Str) (w : World) : List Node :=
  findNodes hash key (w.node self).ring

/-- The least index with a hash code not below `pos`, or `0` if there is none. -/
def firstFrom (pos : Nat) (ring : List Node) : Nat :=
  (ring.findIdx? fun n => pos ≤ n.nodeHashCode).getD 0

section

variable {pos : Nat} {front back : List Node}

theorem rotate_firstFrom (hfront : ∀ n ∈ front, n.nodeHashCode < pos)
    (hback : ∀ n ∈ back, pos ≤ n.nodeHashCode) :
    (front ++ back).rotate (firstFrom pos (front ++ back)) = back ++ front := by
  have hnone : front.findIdx? (fun n => pos ≤ n.nodeHashCode) = none := by
    rw [List.findIdx?_eq_none_iff]
    intro n hn
    have := hfront n hn
    simpa using this
  unfold firstFrom
  rw [List.findIdx?_append, hnone]
  cases back with
  | nil => simp
  | cons n back =>
      have hn := hback n List.mem_cons_self
      rw [List.findIdx?_cons]
      simp [hn, List.rotate_append_length_eq]

end

namespace SortedRing

variable (R : SortedRing) (pos : Nat)

theorem rotated_eq_rotate : R.rotated pos = R.nodes.rotate (firstFrom pos R.nodes) := by
  have hfront : ∀ n ∈ R.nodes.filter (fun n => n.nodeHashCode < pos), n.nodeHashCode < pos :=
    fun n hn => of_decide_eq_true (List.mem_filter.mp hn).2
  have hback : ∀ n ∈ R.nodes.filter (fun n => pos ≤ n.nodeHashCode), pos ≤ n.nodeHashCode :=
    fun n hn => of_decide_eq_true (List.mem_filter.mp hn).2
  have hturn := rotate_firstFrom hfront hback
  rw [R.filter_append_filter pos] at hturn
  exact hturn.symm

variable {pos}

theorem rotated_getElem? {j : Nat} (hj : j < R.nodes.length) : (R.rotated pos)[j]? =
    R.nodes[(firstFrom pos R.nodes + j) % R.nodes.length]? := by
  rw [rotated_eq_rotate, List.getElem?_rotate hj, Nat.add_comm]

theorem firstFrom_lt : firstFrom pos R.nodes < R.nodes.length := by
  have hthree := R.three
  unfold firstFrom
  cases hfind : R.nodes.findIdx? fun n => pos ≤ n.nodeHashCode with
  | none => simpa using (show 0 < R.nodes.length by omega)
  | some i => exact (List.findIdx?_eq_some_iff_findIdx_eq.mp hfind).1

variable (hash : Str → Nat) (key : Str)

/-- Both overloads of `findNodes` return the member at the least index whose hash code is not below
the position of the key, or at index `0`, and the two members behind it, three addresses. -/
theorem findNodes_consistent {w : World} {self : Address} (hring : (w.node self).ring = R.nodes) :
    let n := R.nodes.length
    let s := firstFrom (hashFunction hash key) R.nodes
    ∃ r₀ r₁ r₂, findNodes hash key R.nodes = [r₀, r₁, r₂] ∧
      w.findNodesByKey hash self key = [r₀, r₁, r₂] ∧
      R.nodes[s]? = some r₀ ∧ R.nodes[(s + 1) % n]? = some r₁ ∧ R.nodes[(s + 2) % n]? = some r₂ ∧
      ([r₀, r₁, r₂].map Node.nodeAddress).Nodup := by
  intro n s
  have hlt : s < n := R.firstFrom_lt
  obtain ⟨r₀, r₁, r₂, hfrom, h₀, h₁, h₂⟩ := threeFrom_length R.three hlt
  have hfind : findNodes hash key R.nodes = [r₀, r₁, r₂] := by
    rw [R.findNodes_eq_take, rotated_eq_rotate, ← threeFrom_eq_rotate R.three hlt, hfrom]
  have hnodup := findNodes_nodup hash key R.addresses
  rw [hfind] at hnodup
  exact ⟨r₀, r₁, r₂, hfind, by rw [World.findNodesByKey, hring, hfind], h₀, h₁, h₂, hnodup⟩

def fourRing : SortedRing :=
  ⟨sortNodes (World.getMembershipList sampleHash (sampleMembers 4)), by decide +kernel,
    by decide +kernel, by decide +kernel⟩

def thirdKey : Str := [Char.ofNat 3]

def ofFour : World :=
  World.initial.setNode (sampleNode 1) { MP2Node.new with ring := fourRing.nodes }

theorem findNodes_consistent_fourNodes :
    ∃ r₀ r₁ r₂, findNodes sampleHash thirdKey fourRing.nodes = [r₀, r₁, r₂] ∧
      ofFour.findNodesByKey sampleHash (sampleNode 1) thirdKey = [r₀, r₁, r₂] ∧
      fourRing.nodes[2]? = some r₀ ∧ fourRing.nodes[3]? = some r₁ ∧ fourRing.nodes[0]? = some r₂ ∧
      ([r₀, r₁, r₂].map Node.nodeAddress).Nodup := by
  have hplace : firstFrom (hashFunction sampleHash thirdKey) fourRing.nodes = 2 := by
    decide +kernel
  have hlen : fourRing.nodes.length = 4 := by decide +kernel
  have hring : (ofFour.node (sampleNode 1)).ring = fourRing.nodes := by
    simp [ofFour, World.setNode]
  have h := fourRing.findNodes_consistent sampleHash thirdKey hring
  simpa only [hplace, hlen] using h

/-! ## One member leaves -/

variable {m : Node}

/-- The ring without one of its members. -/
@[reducible] def without (m : Node) (h : 4 ≤ R.nodes.length) : SortedRing where
  nodes := R.nodes.erase m
  three := by
    have hle : R.nodes.length - 1 ≤ (R.nodes.erase m).length := List.le_length_erase
    omega
  sorted := R.sorted.sublist List.erase_sublist
  addresses := R.addresses.sublist (List.erase_sublist.map _)

theorem nodup : R.nodes.Nodup := R.addresses.of_map

theorem rotated_without (h : 4 ≤ R.nodes.length) :
    (R.without m h).rotated pos = (R.rotated pos).erase m := by
  have hnodup : (R.rotated pos).Nodup := by
    rw [rotated_eq_rotate, List.nodup_rotate]
    exact R.nodup
  rw [hnodup.erase_eq_filter]
  show (R.nodes.erase m).filter _ ++ (R.nodes.erase m).filter _ = _
  rw [rotated, R.nodup.erase_eq_filter, List.filter_append]
  exact congrArg₂ (· ++ ·) (List.filter_comm _ _ _) (List.filter_comm _ _ _)

/-- Minimal disruption: a leaving member that is no replica of the key changes nothing, and a
replica that leaves is made up for by the member next to the third one. -/
theorem findNodes_erase (h : 4 ≤ R.nodes.length) :
    (m ∉ findNodes hash key R.nodes →
      findNodes hash key (R.nodes.erase m) = findNodes hash key R.nodes) ∧
    (m ∈ findNodes hash key R.nodes → ∃ i third fourth,
      (findNodes hash key R.nodes)[2]? = some third ∧ R.nodes[i]? = some third ∧
      R.nodes[(i + 1) % R.nodes.length]? = some fourth ∧
      findNodes hash key (R.nodes.erase m) = (findNodes hash key R.nodes).erase m ++ [fourth]) := by
  have hwithout : findNodes hash key (R.nodes.erase m) =
      ((R.rotated (hashFunction hash key)).erase m).take 3 := by
    rw [← R.rotated_without h]
    exact (R.without m h).findNodes_eq_take hash key
  rw [hwithout, R.findNodes_eq_take]
  constructor
  · intro hm
    exact take_erase_of_not_mem hm
  · intro hm
    let n := R.nodes.length
    let s := firstFrom (hashFunction hash key) R.nodes
    have hthird : (s + 2) % n < n := Nat.mod_lt _ (by omega)
    have hfourth : (s + 3) % n < n := Nat.mod_lt _ (by omega)
    have hnext : ((s + 2) % n + 1) % n = (s + 3) % n := by rw [Nat.mod_add_mod]
    refine ⟨(s + 2) % n, R.nodes[(s + 2) % n], R.nodes[(s + 3) % n], ?_,
      List.getElem?_eq_getElem hthird, ?_, ?_⟩
    · rw [List.getElem?_take_of_lt (by omega), R.rotated_getElem? (by omega)]
      exact List.getElem?_eq_getElem hthird
    · rw [hnext]
      exact List.getElem?_eq_getElem hfourth
    · apply take_erase_of_mem hm
      rw [R.rotated_getElem? (by omega)]
      exact List.getElem?_eq_getElem hfourth

/-- The third node leaves, the second one takes over as the third replica. -/
theorem findNodes_erase_fourNodes : ∃ i third fourth,
    (findNodes sampleHash thirdKey fourRing.nodes)[2]? = some third ∧
    fourRing.nodes[i]? = some third ∧
    fourRing.nodes[(i + 1) % fourRing.nodes.length]? = some fourth ∧
    findNodes sampleHash thirdKey (fourRing.nodes.erase (Node.ofAddress sampleHash (sampleNode 3))) =
      (findNodes sampleHash thirdKey fourRing.nodes).erase
        (Node.ofAddress sampleHash (sampleNode 3)) ++ [fourth] :=
  (fourRing.findNodes_erase sampleHash thirdKey (by decide +kernel)).2 (by decide +kernel)

end SortedRing

end CloudComputing.KeyValueStore
