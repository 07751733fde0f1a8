import Mathlib.Data.List.Infix
import Mathlib.Data.List.Basic

/-!
# Cutting a list at a delimiter

The usual serialized-record loop: find the leftmost occurrence of a delimiter,
push what stands before it, go on behind it.  A field survives the round trip
exactly when the first occurrence of the delimiter in `field ++ delimiter` is
the one that was written there, which is `Clean`.
-/

namespace CloudComputing.Lib.Split

variable {α : Type*} {d s a b : List α}

/-! ## Clean fields -/

/-- No occurrence of `d` in `a ++ d` starts before the end of `a`. -/
def Clean (d a : List α) : Prop :=
  ∀ i < a.length, ¬ d <+: (a ++ d).drop i

theorem drop_append_delimiter {i : Nat} (hi : i < a.length) :
    d <+: (a ++ d ++ b).drop i ↔ d <+: (a ++ d).drop i := by
  have hlen : d.length ≤ ((a ++ d).drop i).length := by simp; omega
  rw [List.drop_append_of_le_length (by simp; omega)]
  constructor
  · intro h
    exact List.prefix_of_prefix_length_le h (List.prefix_append _ _) hlen
  · intro h
    exact h.trans (List.prefix_append _ _)

theorem clean_cons {c : α} (h : Clean d (c :: a)) : Clean d a := by
  intro i hi
  simpa using h (i + 1) (by simpa using hi)

theorem Clean.not_mem_sub (h : Clean d a) (hd : d ≠ []) : ¬ d <:+: a := by
  rintro ⟨u, v, rfl⟩
  have hlen := List.length_pos_of_ne_nil hd
  apply h u.length (by simp; omega)
  simp [List.append_assoc]

@[simp] theorem clean_nil : Clean d ([] : List α) := by
  intro i hi
  simp at hi

/-- A pair of equal letters in an append is in one part or across the seam. -/
theorem pair_sub_append {c : α} {a b : List α} : [c, c] <:+: a ++ b ↔
    [c, c] <:+: a ∨ [c, c] <:+: b ∨ (a.getLast? = some c ∧ b.head? = some c) := by
  induction a with
  | nil => simp
  | cons x a ih =>
      rw [List.cons_append, List.infix_cons_iff, List.infix_cons_iff, ih]
      cases a with
      | nil =>
          cases b with
          | nil => simp
          | cons y b =>
              simp only [List.nil_append, List.cons_prefix_cons, List.nil_prefix, and_true,
                List.prefix_nil, List.getLast?_singleton, List.head?_cons, Option.some.injEq]
              grind
      | cons y a =>
          simp only [List.cons_append, List.cons_prefix_cons, List.nil_prefix, and_true,
            List.getLast?_cons_cons]
          tauto

/-- For a delimiter of one letter, clean means not containing it. -/
theorem clean_one_iff {c : α} : Clean [c] a ↔ c ∉ a := by
  constructor
  · intro h hc
    obtain ⟨u, v, rfl⟩ := List.append_of_mem hc
    exact h.not_mem_sub (by simp) ⟨u, v, by simp⟩
  · intro h i hi hp
    have hget : (a ++ [c]).drop i = a[i] :: (a ++ [c]).drop (i + 1) := by
      rw [List.drop_eq_getElem_cons (by simp; omega), List.getElem_append_left hi]
    rw [hget, List.cons_prefix_cons] at hp
    exact h (hp.1 ▸ List.getElem_mem hi)

/-- For a doubled letter, clean means not containing the pair and not ending in the letter. -/
theorem clean_pair_iff {c : α} :
    Clean [c, c] a ↔ ¬ [c, c] <:+: a ∧ a.getLast? ≠ some c := by
  constructor
  · intro h
    refine ⟨h.not_mem_sub (by simp), ?_⟩
    intro hlast
    obtain ⟨a', rfl⟩ := List.getLast?_eq_some_iff.mp hlast
    apply h a'.length (by simp)
    simp [List.append_assoc]
  · rintro ⟨hin, hlast⟩ i hi ⟨t, ht⟩
    by_cases hend : i + 1 < a.length
    · apply hin
      have hget : a.drop i = a[i] :: a[i + 1] :: a.drop (i + 2) := by
        rw [List.drop_eq_getElem_cons hi, List.drop_eq_getElem_cons hend]
      rw [List.drop_append_of_le_length hi.le, hget] at ht
      simp only [List.cons_append, List.nil_append, List.cons.injEq] at ht
      refine ⟨a.take i, a.drop (i + 2), ?_⟩
      calc a.take i ++ [c, c] ++ a.drop (i + 2)
          = a.take i ++ (c :: c :: a.drop (i + 2)) := by simp
        _ = a.take i ++ a.drop i := by rw [hget, ← ht.1, ← ht.2.1]
        _ = a := List.take_append_drop i a
    · apply hlast
      have hi' : i = a.length - 1 := by omega
      rw [List.drop_append_of_le_length hi.le, List.drop_eq_getElem_cons hi] at ht
      simp only [List.cons_append, List.cons.injEq] at ht
      rw [List.getLast?_eq_getElem?, ← hi', List.getElem?_eq_getElem hi, ← ht.1]

theorem clean_pair_append {c : α} {u : List α} (h : Clean [c, c] a) (hu : c ∉ u) (hne : u ≠ []) :
    Clean [c, c] (a ++ [c] ++ u) := by
  obtain ⟨hsub, hlast⟩ := clean_pair_iff.mp h
  have hu' : ¬ [c, c] <:+: u := fun h => hu (h.subset (by simp))
  rw [clean_pair_iff, pair_sub_append, pair_sub_append, List.getLast?_append_of_ne_nil _ hne]
  refine ⟨?_, fun h => hu (List.mem_of_getLast? h)⟩
  rintro ((h | h | ⟨h, -⟩) | h | ⟨-, h⟩)
  · exact hsub h
  · simpa using h.length_le
  · exact hlast h
  · exact hu' h
  · exact hu (List.mem_of_head? h)

/-! ## One cut -/

variable [DecidableEq α]

instance : Decidable (Clean d a) := by
  unfold Clean
  infer_instance

/-- What stands before and behind the leftmost occurrence of `d`. -/
def cut (d : List α) : List α → Option (List α × List α)
  | [] => none
  | c :: s =>
      if d <+: c :: s then some ([], (c :: s).drop d.length)
      else (cut d s).map fun p => (c :: p.1, p.2)

/-- The splitting loop; a string of length `n` is cut at most `n` times. -/
def splitLoop (d : List α) : Nat → List α → List (List α)
  | 0, s => [s]
  | n + 1, s =>
      match cut d s with
      | none => [s]
      | some (field, rest) => field :: splitLoop d n rest

/-- All fields of `s`, separated by the leftmost non-overlapping `d`s. -/
def split (d s : List α) : List (List α) :=
  splitLoop d s.length s

/-- A clean field is cut off whole, whatever follows its delimiter. -/
theorem cut_append (hd : d ≠ []) (h : Clean d a) :
    cut d (a ++ d ++ b) = some (a, b) := by
  induction a with
  | nil =>
      obtain ⟨c, d', rfl⟩ := List.exists_cons_of_ne_nil hd
      simp [cut]
  | cons c a ih =>
      have hfirst : ¬ d <+: c :: (a ++ d ++ b) := by
        have := h 0 (by simp)
        rw [← drop_append_delimiter (b := b) (by simp)] at this
        simpa using this
      have := ih (clean_cons h)
      simp only [List.cons_append, cut, if_neg hfirst, this, Option.map_some]

/-- A cut is a decomposition at a delimiter, with a clean field before it. -/
theorem cut_some (h : cut d s = some (a, b)) : s = a ++ d ++ b ∧ Clean d a := by
  induction s generalizing a with
  | nil => simp [cut] at h
  | cons c s ih =>
      unfold cut at h
      split at h
      case isTrue hpre =>
        obtain ⟨t, ht⟩ := hpre
        have hd : (c :: s).drop d.length = t := by rw [← ht]; simp
        simp only [hd, Option.some.injEq, Prod.mk.injEq] at h
        obtain ⟨rfl, rfl⟩ := h
        exact ⟨by simpa using ht.symm, by intro i hi; simp at hi⟩
      case isFalse hpre =>
        obtain ⟨⟨a', b'⟩, hcut, heq⟩ := Option.map_eq_some_iff.mp h
        simp only [Prod.mk.injEq] at heq
        obtain ⟨rfl, rfl⟩ := heq
        obtain ⟨rfl, hclean⟩ := ih hcut
        refine ⟨by simp, ?_⟩
        intro i hi
        cases i with
        | zero =>
            intro hp
            exact hpre (by simpa using hp.trans (List.prefix_append _ b'))
        | succ i => simpa using hclean i (by simpa using hi)

theorem cut_eq_none_iff (hd : d ≠ []) : cut d s = none ↔ ¬ d <:+: s := by
  induction s with
  | nil => simp [cut, hd]
  | cons c s ih =>
      unfold cut
      split
      case isTrue hpre => simp [hpre.isInfix]
      case isFalse hpre => simp [ih, List.infix_cons_iff, hpre]

theorem cut_length (hd : d ≠ []) (h : cut d s = some (a, b)) : b.length < s.length := by
  obtain ⟨rfl, -⟩ := cut_some h
  have := List.length_pos_of_ne_nil hd
  simp
  omega

/-! ## The whole loop -/

theorem splitLoop_fuel (hd : d ≠ []) {n m : Nat} (hn : s.length ≤ n) (hm : s.length ≤ m) :
    splitLoop d n s = splitLoop d m s := by
  induction n generalizing s m with
  | zero =>
      obtain rfl : s = [] := List.eq_nil_of_length_eq_zero (by omega)
      cases m <;> simp [splitLoop, cut]
  | succ n ih =>
      cases m with
      | zero =>
          obtain rfl : s = [] := List.eq_nil_of_length_eq_zero (by omega)
          simp [splitLoop, cut]
      | succ m =>
          unfold splitLoop
          cases hcut : cut d s with
          | none => rfl
          | some p =>
              have := cut_length hd hcut
              simp only [ih (s := p.2) (m := m) (by omega) (by omega)]

theorem split_of_cut_none (h : cut d s = none) : split d s = [s] := by
  unfold split
  cases s <;> simp [splitLoop, h]

theorem split_of_cut_some (hd : d ≠ []) (h : cut d s = some (a, b)) :
    split d s = a :: split d b := by
  have hlt := cut_length hd h
  obtain ⟨n, hn⟩ : ∃ n, s.length = n + 1 := ⟨s.length - 1, by omega⟩
  unfold split
  rw [hn]
  simp only [splitLoop, h]
  rw [splitLoop_fuel hd (n := n) (m := b.length) (by omega) le_rfl]

theorem split_append (hd : d ≠ []) (h : Clean d a) :
    split d (a ++ d ++ b) = a :: split d b :=
  split_of_cut_some hd (cut_append hd h)

theorem split_eq_singleton (hd : d ≠ []) (h : ¬ d <:+: s) : split d s = [s] :=
  split_of_cut_none ((cut_eq_none_iff hd).mpr h)

/-- The fields of a split: all but the last are clean, the last does not contain `d`. -/
theorem split_fields (hd : d ≠ []) (s : List α) :
    ∃ init last, split d s = init ++ [last] ∧ (∀ f ∈ init, Clean d f) ∧ ¬ d <:+: last := by
  induction h : s.length using Nat.strong_induction_on generalizing s with
  | _ n ih =>
      cases hcut : cut d s with
      | none =>
          exact ⟨[], s, by simp [split_of_cut_none hcut], by simp,
            (cut_eq_none_iff hd).mp hcut⟩
      | some p =>
          have hlt := cut_length hd hcut
          obtain ⟨init, last, heq, hinit, hlast⟩ := ih p.2.length (by omega) p.2 rfl
          refine ⟨p.1 :: init, last, ?_, ?_, hlast⟩
          · rw [split_of_cut_some hd hcut, heq, List.cons_append]
          · simpa using ⟨(cut_some hcut).2, hinit⟩

theorem split_ne_nil (hd : d ≠ []) (s : List α) : split d s ≠ [] := by
  obtain ⟨init, last, h, -⟩ := split_fields hd s
  simp [h]

theorem not_sub_of_mem_split (hd : d ≠ []) (h : a ∈ split d s) : ¬ d <:+: a := by
  obtain ⟨init, last, heq, hinit, hlast⟩ := split_fields hd s
  rw [heq, List.mem_append, List.mem_singleton] at h
  rcases h with h | rfl
  · exact (hinit a h).not_mem_sub hd
  · exact hlast

theorem clean_of_split_getElem (hd : d ≠ []) {i : Nat} (h : i + 1 < (split d s).length) :
    Clean d (split d s)[i] := by
  obtain ⟨init, last, heq, hinit, -⟩ := split_fields hd s
  have hi : i < init.length := by
    rw [heq] at h
    simpa using h
  have : (split d s)[i] = init[i] := by
    simp only [heq]
    exact List.getElem_append_left hi
  rw [this]
  exact hinit _ (List.getElem_mem hi)

example : split [':', ':'] ['a', ':', ':', ':', 'b'] = [['a'], [':', 'b']] := by decide

theorem split_one_append {c : α} (a b : List α) :
    split [c] (a ++ [c] ++ b) = split [c] a ++ split [c] b := by
  have hd : [c] ≠ [] := by simp
  induction h : a.length using Nat.strong_induction_on generalizing a with
  | _ n ih =>
      cases hcut : cut [c] a with
      | none =>
          have hclean : Clean [c] a := by
            rw [clean_one_iff]
            intro hc
            obtain ⟨u, v, rfl⟩ := List.append_of_mem hc
            exact (cut_eq_none_iff hd).mp hcut ⟨u, v, by simp⟩
          rw [split_append hd hclean, split_of_cut_none hcut, List.singleton_append]
      | some p =>
          obtain ⟨rfl, hclean⟩ := cut_some hcut
          have hassoc : p.1 ++ [c] ++ p.2 ++ [c] ++ b = p.1 ++ [c] ++ (p.2 ++ [c] ++ b) := by
            simp
          rw [hassoc, split_append hd hclean, split_append hd hclean,
            ih p.2.length (by simp [← h]; omega) p.2 rfl, List.cons_append]

/-! ## Counting the fields -/

theorem length_split_of_cut_none (h : cut d s = none) : (split d s).length = 1 := by
  rw [split_of_cut_none h, List.length_singleton]

theorem length_split_cons {c x : α} (s : List α) :
    (split [c, c] s).length ≤ (split [c, c] (x :: s)).length ∧
      (split [c, c] (x :: s)).length ≤ (split [c, c] s).length + 1 := by
  have hd : [c, c] ≠ [] := by simp
  induction h : s.length using Nat.strong_induction_on generalizing x s with
  | _ n ih =>
      by_cases hpre : [c, c] <+: x :: s
      · -- both letters of the pair are in front: `s` starts with the second one
        obtain ⟨t, ht⟩ := hpre
        obtain ⟨rfl, rfl⟩ : c = x ∧ c :: t = s := by simpa using ht
        have hcut : cut [c, c] (c :: c :: t) = some ([], t) := by simp [cut]
        rw [split_of_cut_some hd hcut, List.length_cons]
        have := ih t.length (by simp [← h]) (x := c) t rfl
        omega
      · have hcut : cut [c, c] (x :: s) = (cut [c, c] s).map fun p => (x :: p.1, p.2) := by
          rw [cut, if_neg hpre]
        cases hs : cut [c, c] s with
        | none =>
            rw [hs] at hcut
            rw [length_split_of_cut_none hs, length_split_of_cut_none hcut]
            omega
        | some p =>
            rw [hs] at hcut
            rw [split_of_cut_some hd hs, split_of_cut_some hd hcut]
            simp

theorem length_split_append_le {c : α} (a s : List α) :
    (split [c, c] s).length ≤ (split [c, c] (a ++ s)).length := by
  induction a with
  | nil => exact le_rfl
  | cons x a ih => exact ih.trans (length_split_cons _).1

/-- Every delimiter written adds a field, wherever the cuts end up. -/
theorem length_split_append {c : α} (a b : List α) :
    (split [c, c] b).length + 1 ≤ (split [c, c] (a ++ [c, c] ++ b)).length := by
  rw [List.append_assoc]
  refine le_trans ?_ (length_split_append_le a _)
  have := split_append (a := []) (b := b) (d := [c, c]) (by simp) clean_nil
  rw [List.nil_append] at this
  rw [this, List.length_cons]

end CloudComputing.Lib.Split
