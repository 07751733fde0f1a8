import Mathlib.Data.List.Rotate

/-!
# Sorted lists

A predicate that holds of an initial segment of a sorted list splits the list.
What is not among the first elements is behind all of them, and when one of these
is taken out the next element takes the free place.
-/

namespace CloudComputing.Lib

variable {α : Type*} {l : List α} {r : α → α → Prop}

theorem filter_append_filter_not {p : α → Bool}
    (h : l.Pairwise fun x y => p y = true → p x = true) :
    l.filter p ++ l.filter (fun x => !p x) = l := by
  induction l with
  | nil => rfl
  | cons x l ih =>
      have hl := List.pairwise_cons.mp h
      by_cases hx : p x = true
      · simp [hx, ih hl.2]
      · have hnone : l.filter p = [] := by
          rw [List.filter_eq_nil_iff]
          intro y hy hpy
          exact hx (hl.1 y hy hpy)
        have hrest := ih hl.2
        rw [hnone, List.nil_append] at hrest
        simp [hx, hnone, hrest]

theorem mem_take_or_rel (h : l.Pairwise r) {n : Nat} {y : α} (hy : y ∈ l) :
    y ∈ l.take n ∨ ∀ x ∈ l.take n, r x y := by
  rw [← List.take_append_drop n l] at h hy
  rcases List.mem_append.mp hy with hy | hy
  · exact Or.inl hy
  · exact Or.inr fun x hx => (List.pairwise_append.mp h).2.2 x hx y hy

section Erase

variable [DecidableEq α] {x m : α} {k : Nat}

theorem take_erase_of_not_mem (h : m ∉ l.take k) : (l.erase m).take k = l.take k := by
  induction l generalizing k with
  | nil => rfl
  | cons y l ih =>
      cases k with
      | zero => rfl
      | succ k =>
          rw [List.take_succ_cons, List.mem_cons, not_or] at h
          rw [List.erase_cons_tail (by simpa using Ne.symm h.1), List.take_succ_cons,
            List.take_succ_cons, ih h.2]

/-- When one of the first `k` leaves, the next one moves up. -/
theorem take_erase_of_mem (h : m ∈ l.take k) (hx : l[k]? = some x) :
    (l.erase m).take k = (l.take k).erase m ++ [x] := by
  induction l generalizing k with
  | nil => simp at hx
  | cons y l ih =>
      cases k with
      | zero => simp at h
      | succ k =>
          rw [List.getElem?_cons_succ] at hx
          by_cases hy : y = m
          · subst hy
            rw [List.take_succ_cons, List.erase_cons_head, List.erase_cons_head, List.take_add_one, hx]
            rfl
          · have hm : m ∈ l.take k := by
              rw [List.take_succ_cons, List.mem_cons] at h
              exact h.resolve_left (Ne.symm hy)
            have hne : ¬(y == m) = true := by simpa using hy
            rw [List.take_succ_cons, List.erase_cons_tail hne, List.erase_cons_tail hne,
              List.take_succ_cons, ih hm hx, List.cons_append]

end Erase

end CloudComputing.Lib
