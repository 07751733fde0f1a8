import CloudComputing.Lib.Sorted
import CloudComputing.KeyValueStore.Ring

/-!
# The ring seen from a key

Going round from the position of a key, the nodes of a ring come in an order of
their own, `Ahead`.  The three nodes of the key are the first in this order,
whichever members the ring has.
-/

namespace CloudComputing.KeyValueStore

open Lib

/-- Going round from `pos`, `n₁` is met before `n₂`. -/
def Ahead (pos : Nat) (n₁ n₂ : Node) : Prop :=
  if pos ≤ n₁.nodeHashCode then n₂.nodeHashCode < pos ∨ n₁.nodeHashCode < n₂.nodeHashCode
  else n₂.nodeHashCode < pos ∧ n₁.nodeHashCode < n₂.nodeHashCode

theorem Ahead.asymm {pos : Nat} {n₁ n₂ : Node} (h : Ahead pos n₁ n₂) : ¬ Ahead pos n₂ n₁ := by
  unfold Ahead at h ⊢
  split at h <;> split <;> omega

theorem Ahead.irrefl {pos : Nat} {n : Node} : ¬ Ahead pos n n :=
  fun h => h.asymm h

theorem threeFrom_eq_rotate {ring : List Node} (h : 3 ≤ ring.length) {i : Nat}
    (hi : i < ring.length) : threeFrom ring i = (ring.rotate i).take 3 := by
  obtain ⟨r₀, r₁, r₂, heq, h₀, h₁, h₂⟩ := threeFrom_length h hi
  have hget : ∀ d < 3, (ring.rotate i)[d]? = ring[(i + d) % ring.length]? := by
    intro d hd
    rw [List.getElem?_rotate (by omega), Nat.add_comm d]
  rw [heq]
  apply List.ext_getElem?
  intro d
  rcases d with _ | _ | _ | d
  · rw [List.getElem?_take_of_lt (by omega), hget 0 (by omega), Nat.add_zero,
      Nat.mod_eq_of_lt hi, h₀]
    rfl
  · rw [List.getElem?_take_of_lt (by omega), hget 1 (by omega), h₁]
    rfl
  · rw [List.getElem?_take_of_lt (by omega), hget 2 (by omega), h₂]
    rfl
  · simp

theorem findNodes_append (hash : Str → Nat) (key : Str) {front back : List Node}
    (hthree : 3 ≤ (front ++ back).length)
    (hfront : ∀ n ∈ front, n.nodeHashCode < hashFunction hash key)
    (hback : ∀ n ∈ back, hashFunction hash key ≤ n.nodeHashCode) :
    findNodes hash key (front ++ back) = (back ++ front).take 3 := by
  have hturn : ∀ {ring : List Node}, 3 ≤ ring.length → threeFrom ring 0 = ring.take 3 := by
    intro ring hring
    rw [threeFrom_eq_rotate hring (by omega), List.rotate_zero]
  cases front with
  | nil =>
      rw [List.nil_append] at hthree ⊢
      rw [List.append_nil]
      obtain ⟨first, rest, rfl⟩ := List.exists_cons_of_length_pos (show 0 < back.length by omega)
      rw [← hturn hthree]
      exact findNodes_of_outside hthree List.head?_cons
        (List.getLast?_eq_some_getLast (List.cons_ne_nil first rest))
        (Or.inl (hback first List.mem_cons_self))
  | cons first rest =>
      have hfirst := hfront first List.mem_cons_self
      cases hlast : back.getLast? with
      | none =>
          obtain rfl := List.getLast?_eq_none_iff.mp hlast
          rw [List.append_nil] at hthree ⊢
          rw [List.nil_append, ← hturn hthree]
          exact findNodes_of_outside hthree List.head?_cons
            (List.getLast?_eq_some_getLast (List.cons_ne_nil first rest))
            (Or.inr (hfront _ (List.getLast_mem _)))
      | some last =>
          have hend := hback last (List.mem_of_getLast? hlast)
          have hpos := List.length_pos_of_mem (List.mem_of_getLast? hlast)
          have hlen : rest.length + 1 < (first :: rest ++ back).length := by
            simp only [List.length_append, List.length_cons]
            omega
          have hrotate : (first :: rest ++ back).rotate (rest.length + 1) =
              back ++ (first :: rest) := List.rotate_append_length_eq (first :: rest) back
          rw [← hrotate, ← threeFrom_eq_rotate hthree hlen]
          have hgetLast : (first :: rest ++ back).getLast? = some last := by
            rw [List.getLast?_append, hlast]
            rfl
          have hidx : (first :: rest ++ back).tail.findIdx?
              (fun addr => hashFunction hash key ≤ addr.nodeHashCode) = some rest.length := by
            -- the first node behind the key is the first of `back`
            obtain ⟨n, back, rfl⟩ := List.exists_cons_of_length_pos hpos
            have hnone : rest.findIdx?
                (fun addr => hashFunction hash key ≤ addr.nodeHashCode) = none := by
              rw [List.findIdx?_eq_none_iff]
              intro m hm
              have hlt := hfront m (List.mem_cons_of_mem _ hm)
              simp only [decide_eq_false_iff_not]
              omega
            have hn := hback n List.mem_cons_self
            rw [List.cons_append, List.tail_cons, List.findIdx?_append, hnone, List.findIdx?_cons]
            simp [hn]
          exact findNodes_of_inside hthree List.head?_cons hgetLast (by omega) hidx

namespace SortedRing

variable (R : SortedRing) (pos : Nat) {n n' : Node}

/-- The nodes in the order in which they are met from `pos`. -/
def rotated : List Node :=
  R.nodes.filter (fun n => pos ≤ n.nodeHashCode) ++ R.nodes.filter (fun n => n.nodeHashCode < pos)

variable {pos}

theorem mem_rotated : n ∈ R.rotated pos ↔ n ∈ R.nodes := by
  simp only [rotated, List.mem_append, List.mem_filter, decide_eq_true_eq]
  constructor
  · rintro (h | h)
    · exact h.1
    · exact h.1
  · intro h
    rcases Nat.lt_or_ge n.nodeHashCode pos with hlt | hle
    · exact Or.inr ⟨h, hlt⟩
    · exact Or.inl ⟨h, hle⟩

theorem pairwise_rotated : (R.rotated pos).Pairwise fun n n' => ¬ Ahead pos n' n := by
  unfold rotated
  rw [List.pairwise_append]
  refine ⟨?_, ?_, ?_⟩
  · refine (R.sorted.filter _).imp_of_mem fun hx hy hle => ?_
    have hx := of_decide_eq_true (List.mem_filter.mp hx).2
    have hy := of_decide_eq_true (List.mem_filter.mp hy).2
    rw [Ahead, if_pos hy]
    omega
  · refine (R.sorted.filter _).imp_of_mem fun hx hy hle => ?_
    have hy := of_decide_eq_true (List.mem_filter.mp hy).2
    rw [Ahead, if_neg (by omega)]
    omega
  · intro x hx y hy
    have hx := of_decide_eq_true (List.mem_filter.mp hx).2
    have hy := of_decide_eq_true (List.mem_filter.mp hy).2
    rw [Ahead, if_neg (by omega)]
    omega

variable (pos)

theorem filter_append_filter : R.nodes.filter (fun n => n.nodeHashCode < pos) ++
    R.nodes.filter (fun n => pos ≤ n.nodeHashCode) = R.nodes := by
  have hcut : R.nodes.filter (fun n => n.nodeHashCode < pos) ++
      R.nodes.filter (fun n => !decide (n.nodeHashCode < pos)) = R.nodes :=
    filter_append_filter_not (R.sorted.imp fun hle h => by
      simp only [decide_eq_true_eq] at h ⊢
      omega)
  have hback : R.nodes.filter (fun n => !decide (n.nodeHashCode < pos)) =
      R.nodes.filter (fun n => pos ≤ n.nodeHashCode) := by
    apply List.filter_congr
    intro n _
    by_cases h : pos ≤ n.nodeHashCode
    · simp [h]
    · simp [h, Nat.lt_of_not_le h]
  rwa [hback] at hcut

variable {pos} (hash : Str → Nat) (key : Str)

/-- `findNodes` finds the first three nodes from the key on. -/
theorem findNodes_eq_take :
    findNodes hash key R.nodes = (R.rotated (hashFunction hash key)).take 3 := by
  have hcut := R.filter_append_filter (hashFunction hash key)
  have hturned := findNodes_append hash key (by rw [hcut]; exact R.three)
    (fun n hn => of_decide_eq_true (List.mem_filter.mp hn).2)
    (fun n hn => of_decide_eq_true (List.mem_filter.mp hn).2)
  rwa [hcut] at hturned

variable {hash key} {o n₀ n₁ n₂ : Node}

theorem mem_of_mem_findNodes (h : n ∈ findNodes hash key R.nodes) : n ∈ R.nodes := by
  rw [R.findNodes_eq_take] at h
  exact R.mem_rotated.mp (List.mem_of_mem_take h)

theorem mem_findNodes_or_not_ahead (hash : Str → Nat) (key : Str) (hn : n ∈ R.nodes) : n ∈ findNodes hash key R.nodes ∨
    ∀ o ∈ findNodes hash key R.nodes, ¬ Ahead (hashFunction hash key) n o := by
  rw [R.findNodes_eq_take]
  exact mem_take_or_rel R.pairwise_rotated (R.mem_rotated.mpr hn)

theorem not_ahead_of_findNodes (h : findNodes hash key R.nodes = [n₀, n₁, n₂]) :
    ¬ Ahead (hashFunction hash key) n₁ n₀ ∧ ¬ Ahead (hashFunction hash key) n₂ n₀ ∧
      ¬ Ahead (hashFunction hash key) n₂ n₁ := by
  have hpairwise : (findNodes hash key R.nodes).Pairwise
      fun n n' => ¬ Ahead (hashFunction hash key) n' n := by
    rw [R.findNodes_eq_take]
    exact R.pairwise_rotated.sublist (List.take_sublist _ _)
  rw [h] at hpairwise
  simpa [and_assoc] using hpairwise

/-! ## Predecessors -/

theorem length_le : R.nodes.length ≤ 2 ^ 48 := by
  have hnodup : (R.nodes.map fun n => n.nodeAddress.code).Nodup := by
    have h := R.addresses.map Address.code_injective
    rwa [List.map_map] at h
  have hsub : (R.nodes.map fun n => n.nodeAddress.code) ⊆ List.range (2 ^ 48) := by
    intro c hc
    obtain ⟨n, -, rfl⟩ := List.mem_map.mp hc
    exact List.mem_range.mpr n.nodeAddress.code_lt
  have hle := (hnodup.subperm hsub).length_le
  simpa using hle

theorem findPosition_getElem? {i : Nat} (h : R.nodes[i]? = some n) :
    findPosition n.nodeAddress R.nodes = i := by
  obtain ⟨hi, rfl⟩ := List.getElem?_eq_some_iff.mp h
  have hfind : R.nodes.findIdx? (fun m => R.nodes[i].nodeAddress = m.nodeAddress) = some i := by
    rw [List.findIdx?_eq_some_iff_getElem]
    refine ⟨hi, by simp, fun j hj => ?_⟩
    have hne : R.nodes[i].nodeAddress ≠ R.nodes[j].nodeAddress := by
      intro heq
      have hsame := R.eq_of_nodeAddress (List.getElem_mem hi) (List.getElem_mem _) heq
      have hnodup : R.nodes.Nodup := R.addresses.of_map
      have := hnodup.getElem_inj_iff.mp hsame
      omega
    simpa using hne
  rw [findPosition, hfind]

theorem predecessor_getElem? {i back : Nat} (h : R.nodes[i]? = some n) (hback : back ≤ 2) :
    predecessor n.nodeAddress R.nodes back =
      R.nodes[(i + R.nodes.length - back) % R.nodes.length]? := by
  obtain ⟨hi, -⟩ := List.getElem?_eq_some_iff.mp h
  have hle := R.length_le
  have hthree := R.three
  rw [predecessor, R.findPosition_getElem? h, predecessorPos]
  have hsmall : ((i : Int) + (R.nodes.length : Nat) - (back : Nat)) % 2 ^ 64 =
      ((i + R.nodes.length - back : Nat) : Int) := by
    rw [Int.emod_eq_of_lt (by omega) (by omega)]
    omega
  rw [hsmall, ← Int.natCast_emod, Int.toNat_natCast]

theorem predecessor_mem {back : Nat} (hn : n ∈ R.nodes) (hback : back ≤ 2) :
    ∃ o ∈ R.nodes, predecessor n.nodeAddress R.nodes back = some o := by
  obtain ⟨i, hi, rfl⟩ := List.getElem_of_mem hn
  rw [R.predecessor_getElem? (List.getElem?_eq_getElem hi) hback]
  have hlt := Nat.mod_lt (i + R.nodes.length - back) (show 0 < R.nodes.length by omega)
  exact ⟨_, List.getElem_mem hlt, List.getElem?_eq_getElem hlt⟩

theorem predecessor_findNodes (h : findNodes hash key R.nodes = [n₀, n₁, n₂]) :
    predecessor n₁.nodeAddress R.nodes 1 = some n₀ ∧
    predecessor n₂.nodeAddress R.nodes 2 = some n₀ ∧
    predecessor n₂.nodeAddress R.nodes 1 = some n₁ := by
  have hthree := R.three
  obtain ⟨-, i, hi, hfrom⟩ := (findNodes_cases hash key R.nodes).resolve_left (by simp [h])
  obtain ⟨r₀, r₁, r₂, heq, h₀, h₁, h₂⟩ := threeFrom_length hthree hi
  obtain ⟨rfl, rfl, rfl⟩ : n₀ = r₀ ∧ n₁ = r₁ ∧ n₂ = r₂ := by
    simpa using h.symm.trans (hfrom.trans heq)
  have hturn : ∀ d back, d ≤ 2 → back ≤ d → ((i + d) % R.nodes.length + R.nodes.length - back) %
      R.nodes.length = (i + (d - back)) % R.nodes.length := by
    intro d back hd hback
    by_cases hlt : i + d < R.nodes.length
    · rw [Nat.mod_eq_of_lt hlt, show i + d + R.nodes.length - back =
        i + (d - back) + R.nodes.length by omega, Nat.add_mod_right]
    · have hmod : (i + d) % R.nodes.length = i + d - R.nodes.length := by
        rw [Nat.mod_eq_sub_mod (by omega), Nat.mod_eq_of_lt (by omega)]
      rw [hmod, show i + d - R.nodes.length + R.nodes.length - back = i + (d - back) by omega]
  rw [R.predecessor_getElem? h₁ (by omega), R.predecessor_getElem? h₂ (by omega),
    R.predecessor_getElem? h₂ (by omega), hturn 1 1 (by omega) (by omega),
    hturn 2 2 (by omega) (by omega), hturn 2 1 (by omega) (by omega)]
  refine ⟨?_, ?_, h₁⟩
  · rwa [Nat.sub_self, Nat.add_zero, Nat.mod_eq_of_lt hi]
  · rwa [Nat.sub_self, Nat.add_zero, Nat.mod_eq_of_lt hi]

end SortedRing

namespace ProperRing

variable (R : ProperRing) {hash : Str → Nat} {key : Str} {pos : Nat} {n n' o : Node}

theorem ahead_total (hn : n ∈ R.nodes) (hn' : n' ∈ R.nodes) (hne : n ≠ n') :
    Ahead pos n n' ∨ Ahead pos n' n := by
  have hcode : n.nodeHashCode ≠ n'.nodeHashCode := fun h => hne (R.eq_of_nodeHashCode hn hn' h)
  unfold Ahead
  split <;> split <;> omega

theorem mem_findNodes_of_not_ahead (ho : o ∈ findNodes hash key R.nodes) (hn : n ∈ R.nodes)
    (h : ¬ Ahead (hashFunction hash key) o n) : n ∈ findNodes hash key R.nodes := by
  by_cases hne : n = o
  · rwa [hne]
  · have hahead := (R.ahead_total hn (R.sortedRing.mem_of_mem_findNodes ho) hne).resolve_right h
    exact (R.sortedRing.mem_findNodes_or_not_ahead hash key hn).resolve_right fun hnot =>
      hnot o ho hahead

end ProperRing

end CloudComputing.KeyValueStore
