import Mathlib.Data.List.DropRight
import Mathlib.Algebra.Group.Defs
import Mathlib.Tactic.Common

/-!
# Histories

What a program keeps of a list that only grows at its end: the last few elements,
the differences of neighbours, the complete groups of a fixed size.  Each of them
can be kept up to date without the part that was thrown away.
-/

namespace CloudComputing.Lib

variable {α β : Type*} {l m : List α} {n : Nat}

/-! ## The last few -/

theorem length_rtake : (l.rtake n).length = min n l.length := by
  rw [List.rtake, List.length_drop]
  omega

theorem rtake_of_length_le (h : l.length ≤ n) : l.rtake n = l := by
  rw [List.rtake, Nat.sub_eq_zero_of_le h, List.drop_zero]

theorem map_rtake {f : α → β} : (l.rtake n).map f = (l.map f).rtake n := by
  rw [List.rtake, List.rtake, List.map_drop, List.length_map]

theorem getLast?_rtake (hn : 0 < n) : (l.rtake n).getLast? = l.getLast? := by
  by_cases hl : l = []
  · simp [hl]
  · have hpos : 0 < l.length := List.length_pos_iff.mpr hl
    rw [List.rtake, List.getLast?_drop, if_neg (by omega)]

/-- What has been dropped is not needed to find the last elements later. -/
theorem rtake_append_rtake : (l.rtake n ++ m).rtake n = (l ++ m).rtake n := by
  by_cases hl : l.length ≤ n
  · rw [rtake_of_length_le hl]
  · have hkept : l.rtake n ++ m = (l ++ m).drop (l.length - n) :=
      (List.drop_append_of_le_length (by omega)).symm
    rw [hkept, List.rtake, List.rtake, List.drop_drop, List.length_drop, List.length_append]
    congr 1
    omega

/-! ## Differences -/

section

variable [Sub α]

def deltas (l : List α) : List α :=
  List.zipWith (fun next prev => next - prev) l.tail l

@[simp] theorem length_deltas : (deltas l).length = l.length - 1 := by
  simp [deltas]

theorem getElem?_deltas {i : Nat} {prev next : α} (hprev : l[i]? = some prev)
    (hnext : l[i + 1]? = some next) : (deltas l)[i]? = some (next - prev) := by
  rw [deltas, List.getElem?_zipWith, List.getElem?_tail, hprev, hnext]

theorem deltas_drop : deltas (l.drop n) = (deltas l).drop n := by
  rw [deltas, deltas, List.drop_zipWith, List.tail_drop, ← List.drop_one, List.drop_drop,
    Nat.add_comm]

theorem deltas_concat {last x : α} (h : l.getLast? = some last) :
    deltas (l ++ [x]) = deltas l ++ [x - last] := by
  obtain ⟨front, rfl⟩ : ∃ front, l = front ++ [last] := by
    exact ⟨l.dropLast, (List.dropLast_append_getLast? last h).symm⟩
  clear h
  induction front with
  | nil => rfl
  | cons y front ih =>
      have hcons : ∀ (z : α) (k : List α), deltas (y :: z :: k) = (z - y) :: deltas (z :: k) :=
        fun _ _ => rfl
      cases front with
      | nil => simp [deltas]
      | cons z front =>
          simp only [List.cons_append] at ih ⊢
          rw [hcons, hcons, ih, List.cons_append]

end

/-! ## Complete groups -/

/-- The complete groups of `n`, from the front. -/
def groups (n : Nat) (l : List α) : List (List α) :=
  (List.range (l.length / n)).map fun i => (l.drop (n * i)).take n

def leftOver (n : Nat) (l : List α) : List α :=
  l.drop (n * (l.length / n))

theorem length_leftOver_lt (hn : 0 < n) : (leftOver n l).length < n := by
  rw [leftOver, List.length_drop]
  have hdiv := Nat.div_add_mod l.length n
  have hmod := Nat.mod_lt l.length hn
  omega

theorem groups_of_lt (h : l.length < n) : groups n l = [] := by
  rw [groups, Nat.div_eq_of_lt h]
  rfl

theorem leftOver_of_lt (h : l.length < n) : leftOver n l = l := by
  rw [leftOver, Nat.div_eq_of_lt h, Nat.mul_zero, List.drop_zero]

theorem groups_cons (hn : 0 < n) (hle : n ≤ l.length) :
    groups n l = l.take n :: groups n (l.drop n) := by
  have hdiv : l.length / n = (l.length - n) / n + 1 := by
    rw [Nat.div_eq_sub_div hn hle]
  rw [groups, hdiv, List.range_succ_eq_map, List.map_cons, List.map_map, groups, List.length_drop,
    Nat.mul_zero, List.drop_zero]
  congr 1
  apply List.map_congr_left
  intro i _
  simp only [Function.comp_apply, List.drop_drop, Nat.mul_succ, Nat.add_comm n]

theorem leftOver_drop (hn : 0 < n) (hle : n ≤ l.length) : leftOver n (l.drop n) = leftOver n l := by
  have hdiv : l.length / n = (l.length - n) / n + 1 := by
    rw [Nat.div_eq_sub_div hn hle]
  rw [leftOver, leftOver, List.length_drop, List.drop_drop, hdiv, Nat.mul_succ, Nat.add_comm n]

theorem groups_append (hn : 0 < n) (l m : List α) :
    groups n (l ++ m) = groups n l ++ groups n (leftOver n l ++ m) ∧
      leftOver n (l ++ m) = leftOver n (leftOver n l ++ m) := by
  induction h : l.length using Nat.strong_induction_on generalizing l with
  | _ k ih =>
      by_cases hlt : l.length < n
      · rw [groups_of_lt hlt, leftOver_of_lt hlt]
        exact ⟨rfl, rfl⟩
      · have hle : n ≤ l.length := by omega
        have hle' : n ≤ (l ++ m).length := by
          rw [List.length_append]
          omega
        obtain ⟨hgroups, hrest⟩ := ih (l.drop n).length (by rw [List.length_drop]; omega) _ rfl
        rw [groups_cons hn hle', ← leftOver_drop hn hle', groups_cons hn hle,
          ← leftOver_drop hn hle,
          List.take_append_of_le_length hle, List.drop_append_of_le_length hle, List.cons_append]
        exact ⟨congrArg _ hgroups, hrest⟩

end CloudComputing.Lib
