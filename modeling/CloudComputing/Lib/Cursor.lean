import Mathlib.Data.List.Basic

/-!
# A loop over an ordered map that its body changes

The cursor of the loop stands on a key.  It moves to the next greater key the map
has at that moment, and cannot be moved when its own key is gone.
-/

namespace CloudComputing.Lib.Cursor

universe u

variable {α σ : Type u} [DecidableEq α] {cmp : α → α → Ordering} {keys : σ → List α}
  {body : α → σ → Option σ} {P : σ → Prop} {a : α} {before after visited : List α}
  {fuel : Nat} {it : Option α} {s s' : σ}

/-- `++it`; there is no result when the element of `it` was erased. -/
def next (cmp : α → α → Ordering) (keys : List α) (a : α) : Option (Option α) :=
  if a ∈ keys then some (keys.find? fun b => cmp a b = .lt) else none

/-- `for (; it != end(); ++it)`, with the keys visited on the way. -/
def walk (cmp : α → α → Ordering) (keys : σ → List α) (body : α → σ → Option σ) :
    Nat → Option α → σ → Option (List α × σ)
  | _, none, s => some ([], s)
  | 0, some _, _ => none
  | fuel + 1, some a, s => do
      let s ← body a s
      let it ← next cmp (keys s) a
      let (visited, s) ← walk cmp keys body fuel it s
      return (a :: visited, s)

theorem next_eq_some (h : next cmp before a = some it) : a ∈ before := by
  unfold next at h
  split at h
  case isTrue hmem => exact hmem
  case isFalse => cases h

/-- In a sorted list the cursor moves to the element behind it. -/
theorem next_append [Std.OrientedCmp cmp]
    (hsorted : (before ++ a :: after).Pairwise fun x y => cmp x y = .lt) :
    next cmp (before ++ a :: after) a = some after.head? := by
  obtain ⟨-, hafter, hbefore⟩ := List.pairwise_append.mp hsorted
  have hskip : ∀ x ∈ before, ¬ (decide (cmp a x = .lt)) = true := by
    intro x hx
    have hlt := hbefore x hx a List.mem_cons_self
    rw [Std.OrientedCmp.gt_of_lt hlt]
    simp
  have hself : decide (cmp a a = .lt) = false := by
    have heq : cmp a a = .eq := Std.ReflCmp.compare_self
    rw [heq]
    rfl
  unfold next
  rw [if_pos (by simp), List.find?_append, List.find?_eq_none.mpr hskip, Option.none_or,
    List.find?_cons, hself]
  cases after with
  | nil => rfl
  | cons b after =>
      have hnext := (List.pairwise_cons.mp hafter).1 b List.mem_cons_self
      simp [hnext]

theorem walk_none : walk cmp keys body fuel none s = some ([], s) := by
  cases fuel <;> rfl

theorem walk_some (h : walk cmp keys body fuel (some a) s = some (visited, s')) :
    ∃ fuel t it rest, body a s = some t ∧ next cmp (keys t) a = some it ∧
      walk cmp keys body fuel it t = some (rest, s') ∧ visited = a :: rest := by
  cases fuel with
  | zero => cases h
  | succ fuel =>
      simp only [walk, Option.bind_eq_bind, Option.bind_eq_some_iff] at h
      obtain ⟨t, hbody, it, hnext, ⟨rest, u⟩, hwalk, hret⟩ := h
      cases hret
      exact ⟨fuel, t, it, rest, hbody, hnext, hwalk, rfl⟩

/-- A loop that comes to its end has visited all keys, in their order, when a turn that does not
erase its own key leaves the others. -/
theorem walk_visits [Std.OrientedCmp cmp]
    (hsorted : ∀ s, (keys s).Pairwise fun x y => cmp x y = .lt)
    (step : ∀ a s s', body a s = some s' → a ∈ keys s' → keys s' = keys s)
    (hkeys : keys s = before ++ after)
    (h : walk cmp keys body fuel after.head? s = some (visited, s')) :
    visited = after ∧ keys s' = keys s := by
  induction after generalizing fuel before s visited with
  | nil =>
      rw [List.head?_nil, walk_none] at h
      cases h
      exact ⟨rfl, rfl⟩
  | cons a after ih =>
      obtain ⟨fuel', t, it, rest, hbody, hnext, hwalk, rfl⟩ := walk_some h
      have hkeep := step a s t hbody (next_eq_some hnext)
      rw [hkeep, hkeys, next_append (hkeys ▸ hsorted s)] at hnext
      obtain rfl := Option.some.inj hnext
      have hrest : keys t = (before ++ [a]) ++ after := by simp [hkeep, hkeys]
      obtain ⟨rfl, hkeep'⟩ := ih hrest hwalk
      exact ⟨rfl, hkeep'.trans hkeep⟩

/-- What a turn that lets the cursor move on preserves, of the keys that are still to come. -/
theorem walk_invariant [Std.OrientedCmp cmp] {P : List α → σ → Prop}
    (hsorted : ∀ s, (keys s).Pairwise fun x y => cmp x y = .lt)
    (step : ∀ a s s', body a s = some s' → a ∈ keys s' → keys s' = keys s)
    (turn : ∀ a rest s s', P (a :: rest) s → a ∉ rest → body a s = some s' →
      next cmp (keys s') a ≠ none → P rest s')
    (hP : P after s) (hkeys : keys s = before ++ after)
    (h : walk cmp keys body fuel after.head? s = some (visited, s')) : P [] s' := by
  induction after generalizing fuel before s visited with
  | nil =>
      rw [List.head?_nil, walk_none] at h
      cases h
      exact hP
  | cons a after ih =>
      obtain ⟨fuel', t, it, rest, hbody, hnext, hwalk, rfl⟩ := walk_some h
      have hkeep := step a s t hbody (next_eq_some hnext)
      have hfresh : a ∉ after := by
        intro hmem
        have hlater := (List.pairwise_append.mp (hkeys ▸ hsorted s)).2.1
        have hlt := (List.pairwise_cons.mp hlater).1 a hmem
        rw [(Std.ReflCmp.compare_self : cmp a a = .eq)] at hlt
        cases hlt
      have hrest := turn a after s t hP hfresh hbody (by rw [hnext]; simp)
      rw [hkeep, hkeys, next_append (hkeys ▸ hsorted s)] at hnext
      obtain rfl := Option.some.inj hnext
      have hkeys' : keys t = (before ++ [a]) ++ after := by simp [hkeep, hkeys]
      exact ih hrest hkeys' hwalk

theorem walk_length (h : walk cmp keys body fuel it s = some (visited, s')) :
    walk cmp keys body visited.length it s = some (visited, s') := by
  induction visited generalizing fuel it s with
  | nil =>
      cases it with
      | none => rw [walk_none] at h ⊢; exact h
      | some a =>
          obtain ⟨_, _, _, _, -, -, -, hcons⟩ := walk_some h
          cases hcons
  | cons a rest ih =>
      cases it with
      | none =>
          rw [walk_none] at h
          cases h
      | some b =>
          obtain ⟨fuel', t, it, rest', hbody, hnext, hwalk, hcons⟩ := walk_some h
          cases hcons
          rw [List.length_cons, walk]
          simp only [hbody, hnext, ih hwalk, Option.bind_eq_bind, Option.bind_some]
          rfl

/-- A loop whose body keeps the keys visits all of them, in their order. -/
theorem walk_eq_some [Std.OrientedCmp cmp]
    (hsorted : ∀ s, (keys s).Pairwise fun x y => cmp x y = .lt)
    (step : ∀ a s, P s → a ∈ keys s → ∃ s', body a s = some s' ∧ P s' ∧ keys s' = keys s)
    (hP : P s) (hkeys : keys s = before ++ after) :
    ∃ s', walk cmp keys body after.length after.head? s = some (after, s') ∧ P s' := by
  induction after generalizing before s with
  | nil => exact ⟨s, rfl, hP⟩
  | cons a after ih =>
      obtain ⟨t, hbody, hPt, hkeep⟩ := step a s hP (by simp [hkeys])
      rw [hkeys] at hkeep
      have hnext := next_append (hkeep ▸ hsorted t)
      have hrest : keys t = (before ++ [a]) ++ after := by simp [hkeep]
      obtain ⟨s', hwalk, hP'⟩ := ih hPt hrest
      refine ⟨s', ?_, hP'⟩
      rw [List.length_cons, List.head?_cons, walk]
      simp only [hbody, Option.bind_eq_bind, Option.bind_some, hkeep, hnext, hwalk]
      rfl

/-- A loop that comes to its end is the fold of its body over the keys visited. -/
theorem foldlM_of_walk (h : walk cmp keys body fuel it s = some (visited, s')) :
    visited.foldlM (fun s a => body a s) s = some s' := by
  induction visited generalizing fuel it s with
  | nil =>
      cases it with
      | none =>
          rw [walk_none] at h
          cases h
          rfl
      | some a =>
          obtain ⟨_, _, _, _, -, -, -, hcons⟩ := walk_some h
          cases hcons
  | cons a rest ih =>
      cases it with
      | none =>
          rw [walk_none] at h
          cases h
      | some b =>
          obtain ⟨fuel', t, it, rest', hbody, -, hwalk, hcons⟩ := walk_some h
          cases hcons
          rw [List.foldlM_cons, hbody]
          exact ih hwalk

end CloudComputing.Lib.Cursor
