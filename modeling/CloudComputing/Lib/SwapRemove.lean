import Mathlib.Data.List.Perm.Basic
import Mathlib.Data.List.Induction
import Mathlib.Tactic.Common

/-!
# Taking elements out of an unordered buffer

A buffer that does not keep its order removes an element by moving the last one
into the hole.  `scan` walks such a buffer from the back, takes every element
that satisfies a predicate, and keeps going on the buffer with the holes
filled.  Whatever is moved comes from above the index, where everything has
been looked at already, so one scan takes all matching elements, once each.
The buffer may lie in the first slots of an array.
-/

namespace CloudComputing.Lib.SwapRemove

open scoped List

variable {α : Type*} {p : α → Bool} {l : List α} {i : Nat}

/-- Remove the element at `i` by moving the last element into its place. -/
def swapRemove (l : List α) (i : Nat) : List α :=
  match l.getLast? with
  | none => l
  | some x => (l.set i x).dropLast

/-- Look at the indices below `i`, from the top down: the elements taken, in
the order they are taken, and the buffer left. -/
def scan (p : α → Bool) : Nat → List α → List α × List α
  | 0, l => ([], l)
  | i + 1, l =>
      match l[i]? with
      | none => scan p i l
      | some x =>
          if p x then
            let next := scan p i (swapRemove l i)
            (x :: next.1, next.2)
          else scan p i l

theorem swapRemove_append {x : α} (l : List α) (i : Nat) :
    swapRemove (l ++ [x]) i = if i < l.length then l.set i x else l := by
  have hlast : (l ++ [x]).getLast? = some x := by simp
  simp only [swapRemove, hlast]
  split
  case isTrue h => rw [List.set_append_left i x h, List.dropLast_concat]
  case isFalse h =>
    rw [List.set_append_right i x (by omega)]
    cases i - l.length <;> simp

theorem set_perm {x : α} (hi : i < l.length) : (l[i] :: l.set i x).Perm (x :: l) := by
  rw [List.set_eq_take_append_cons_drop, if_pos hi]
  have hl : l = l.take i ++ l[i] :: l.drop (i + 1) := by
    rw [← List.drop_eq_getElem_cons hi, List.take_append_drop]
  calc l[i] :: (l.take i ++ x :: l.drop (i + 1))
      _ ~ l[i] :: x :: (l.take i ++ l.drop (i + 1)) := List.Perm.cons _ List.perm_middle
      _ ~ x :: l[i] :: (l.take i ++ l.drop (i + 1)) := List.Perm.swap _ _ _
      _ ~ x :: (l.take i ++ l[i] :: l.drop (i + 1)) :=
        List.Perm.cons _ List.perm_middle.symm
      _ = x :: l := by rw [← hl]

/-- Nothing but the element at `i` leaves the buffer. -/
theorem swapRemove_perm (hi : i < l.length) : (l[i] :: swapRemove l i).Perm l := by
  induction l using List.reverseRecOn with
  | nil => simp at hi
  | append_singleton l x _ =>
      rw [swapRemove_append]
      split
      case isTrue h =>
        rw [List.getElem_append_left h]
        exact (set_perm h).trans (List.perm_append_singleton x l).symm
      case isFalse h =>
        have hi' : i = l.length := by
          rw [List.length_append, List.length_singleton] at hi
          omega
        subst hi'
        simpa using (List.perm_append_singleton x l).symm

/-- At and above `i` the buffer holds nothing that `p` takes. -/
def ClearFrom (p : α → Bool) (i : Nat) (l : List α) : Prop :=
  ∀ j x, i ≤ j → l[j]? = some x → p x = false

theorem clearFrom_length (p : α → Bool) (l : List α) : ClearFrom p l.length l := by
  intro j x hj hx
  rw [List.getElem?_eq_none hj] at hx
  cases hx

theorem clearFrom_swapRemove (h : ClearFrom p (i + 1) l) : ClearFrom p i (swapRemove l i) := by
  induction l using List.reverseRecOn with
  | nil => simp [ClearFrom, swapRemove]
  | append_singleton l y _ =>
      rw [swapRemove_append]
      intro j x hj hx
      split at hx
      case isTrue hi =>
        rw [List.getElem?_set] at hx
        split at hx
        case isTrue =>
          -- the last element, moved into the hole, was looked at before
          obtain rfl : y = x := by simpa [hi] using hx
          exact h l.length y (by omega) (by simp)
        case isFalse hne =>
          obtain ⟨hj', -⟩ := List.getElem?_eq_some_iff.mp hx
          exact h j x (by omega) (by rw [List.getElem?_append_left hj', hx])
      case isFalse hi =>
        have hjl : j < l.length := by
          obtain ⟨hlt, -⟩ := List.getElem?_eq_some_iff.mp hx
          exact hlt
        omega

/-- Everything that matches is taken once; everything else stays once. -/
theorem scan_perm (h : ClearFrom p i l) :
    (scan p i l).1.Perm (l.filter p) ∧ (scan p i l).2.Perm (l.filter fun x => !p x) := by
  induction i generalizing l with
  | zero =>
      have hnone : ∀ x ∈ l, p x = false := by
        intro x hx
        obtain ⟨j, hj⟩ := List.getElem?_of_mem hx
        exact h j x (Nat.zero_le j) hj
      constructor
      · rw [List.filter_eq_nil_iff.mpr (by simpa using hnone)]
        exact List.Perm.refl _
      · rw [List.filter_eq_self.mpr (by simpa using hnone)]
        exact List.Perm.refl _
  | succ i ih =>
      unfold scan
      split
      case h_1 hnone =>
        apply ih
        intro j x hj hx
        by_cases hji : j = i
        · rw [hji, hnone] at hx
          cases hx
        · exact h j x (by omega) hx
      case h_2 x hx =>
        obtain ⟨hi, rfl⟩ := List.getElem?_eq_some_iff.mp hx
        split
        case isTrue hp =>
          obtain ⟨htaken, hleft⟩ := ih (clearFrom_swapRemove h)
          have hperm := swapRemove_perm hi
          constructor
          · refine (List.Perm.cons _ htaken).trans ?_
            rw [← List.filter_cons_of_pos hp]
            exact hperm.filter p
          · refine hleft.trans ?_
            have := hperm.filter fun x => !p x
            rwa [List.filter_cons_of_neg (by simp [hp])] at this
        case isFalse hp =>
          apply ih
          intro j y hj hy
          by_cases hji : j = i
          · subst hji
            rw [List.getElem?_eq_getElem hi, Option.some.injEq] at hy
            rw [← hy]
            simpa using hp
          · exact h j y (by omega) hy

/-! ## The buffer in an array -/

/-- The first `n` slots of an array. -/
def live (n : Nat) (slots : Nat → α) : List α :=
  (List.range n).map slots

section

variable {n : Nat} {slots : Nat → α} {x : α}

@[simp] theorem length_live : (live n slots).length = n := by
  simp [live]

theorem live_succ : live (n + 1) slots = live n slots ++ [slots n] := by
  simp [live, List.range_succ]

theorem getElem?_live (hi : i < n) : (live n slots)[i]? = some (slots i) := by
  simp [live, hi]

theorem live_update : live n (Function.update slots i x) = (live n slots).set i x := by
  apply List.ext_getElem?
  intro j
  rw [List.getElem?_set, length_live]
  by_cases hj : j < n
  · rw [getElem?_live hj]
    by_cases hij : i = j
    · subst hij
      simp [hj]
    · rw [Function.update_of_ne (Ne.symm hij), if_neg hij, getElem?_live hj]
  · have hnone : ∀ s : Nat → α, (live n s)[j]? = none := by
      intro s
      rw [List.getElem?_eq_none_iff, length_live]
      omega
    rw [hnone, hnone]
    split <;> simp_all

theorem live_update_self : live n (Function.update slots n x) = live n slots := by
  rw [live_update, List.set_eq_of_length_le (by simp)]

theorem swapRemove_live (hi : i ≤ n) :
    swapRemove (live (n + 1) slots) i = live n (Function.update slots i (slots n)) := by
  rw [live_succ, swapRemove_append, length_live]
  split
  case isTrue => rw [live_update]
  case isFalse h =>
    obtain rfl : i = n := by omega
    rw [live_update_self]

end

end CloudComputing.Lib.SwapRemove
