import Mathlib.Data.List.Induction
import Mathlib.Logic.Relation
import Mathlib.Order.OrderIsoNat

/-!
# Folds that may fail, and runs

A loop whose body may throw is a `foldlM` into `Option`.  What its body
preserves the loop preserves, and a loop of steps is a run.  A log that a run
writes only grows.
-/

namespace CloudComputing.Lib

open Relation

variable {α σ : Type*}

section Fold

variable {f : σ → α → Option σ} {l : List α} {s s' : σ}

theorem foldlM_cons_some {x : α} (h : (x :: l).foldlM f s = some s') :
    ∃ t, f s x = some t ∧ l.foldlM f t = some s' := by
  simpa [Option.bind_eq_some_iff] using h

theorem foldlM_eq_foldl {g : σ → α → σ} (h : ∀ x ∈ l, ∀ s, f s x = some (g s x)) :
    l.foldlM f s = some (l.foldl g s) := by
  induction l generalizing s with
  | nil => rfl
  | cons x l ih =>
      rw [List.foldlM_cons, h x List.mem_cons_self]
      exact ih fun y hy => h y (List.mem_cons_of_mem x hy)

/-- The invariant may speak of the elements still to come. -/
theorem foldlM_invariant {P : List α → σ → Prop}
    (step : ∀ x xs s s', P (x :: xs) s → f s x = some s' → P xs s')
    (hs : P l s) (h : l.foldlM f s = some s') : P [] s' := by
  induction l generalizing s with
  | nil =>
      obtain rfl : s = s' := by simpa using h
      exact hs
  | cons x l ih =>
      obtain ⟨t, ht, h⟩ := foldlM_cons_some h
      exact ih (step x l s t hs ht) h

/-- A body that always succeeds while the invariant holds makes a loop that succeeds. -/
theorem foldlM_total {P : List α → σ → Prop}
    (step : ∀ x xs s, P (x :: xs) s → ∃ s', f s x = some s' ∧ P xs s')
    (hs : P l s) : ∃ s', l.foldlM f s = some s' ∧ P [] s' := by
  induction l generalizing s with
  | nil => exact ⟨s, rfl, hs⟩
  | cons x l ih =>
      obtain ⟨t, ht, hP⟩ := step x l s hs
      obtain ⟨s', hs', hP'⟩ := ih hP
      exact ⟨s', by simp [ht, hs'], hP'⟩

theorem foldlM_isSome_iff {P : σ → Prop} {ok : α → Prop}
    (step : ∀ x s, P s → ((f s x).isSome = true ↔ ok x))
    (keep : ∀ x s s', P s → f s x = some s' → P s') (hs : P s) :
    (l.foldlM f s).isSome = true ↔ ∀ x ∈ l, ok x := by
  induction l generalizing s with
  | nil => simp
  | cons x l ih =>
      rw [List.foldlM_cons, List.forall_mem_cons, ← step x s hs]
      cases hx : f s x with
      | none => simp
      | some t => simpa using ih (keep x s t hs hx)

theorem foldlM_mem {P : σ → Prop} {x : α} (step : ∀ x s s', P s → f s x = some s' → P s')
    (hs : P s) (h : l.foldlM f s = some s') (hx : x ∈ l) : ∃ t t', P t ∧ f t x = some t' := by
  induction l generalizing s with
  | nil => cases hx
  | cons y l ih =>
      obtain ⟨t, ht, h⟩ := foldlM_cons_some h
      rcases List.mem_cons.mp hx with rfl | hx
      · exact ⟨s, t, hs, ht⟩
      · exact ih (step y s t hs ht) h hx

/-- A loop over the owners of separate parts of the state: the turn of one of them finds its part as
it was and leaves it as it will be. -/
theorem foldlM_own {κ : Type*} {p : σ → α → κ} {x : α}
    (others : ∀ x s s', f s x = some s' → ∀ y, y ≠ x → p s' y = p s y)
    (hnodup : l.Nodup) (h : l.foldlM f s = some s') (hx : x ∈ l) : ∃ l₁ l₂ t t',
      l = l₁ ++ x :: l₂ ∧ l₁.foldlM f s = some t ∧ f t x = some t' ∧ l₂.foldlM f t' = some s' ∧
        p t x = p s x ∧ p s' x = p t' x := by
  have hkept : ∀ (l : List α) (s s' : σ), l.foldlM f s = some s' → x ∉ l →
      p s' x = p s x := by
    intro l s s' h hx
    refine foldlM_invariant (P := fun rest t => x ∉ rest ∧ p t x = p s x) ?_ ⟨hx, rfl⟩ h |>.2
    intro y rest t t' ⟨hrest, ht⟩ hstep
    rw [List.mem_cons, not_or] at hrest
    exact ⟨hrest.2, (others y t t' hstep x hrest.1).trans ht⟩
  obtain ⟨l₁, l₂, rfl⟩ := List.append_of_mem hx
  rw [List.foldlM_append] at h
  obtain ⟨t, ht, h⟩ := Option.bind_eq_some_iff.mp h
  obtain ⟨t', ht', h⟩ := foldlM_cons_some h
  obtain ⟨-, htail, hdisjoint⟩ := List.nodup_append.mp hnodup
  have hx₁ : x ∉ l₁ := fun hmem => hdisjoint x hmem x List.mem_cons_self rfl
  have hx₂ : x ∉ l₂ := (List.nodup_cons.mp htail).1
  exact ⟨l₁, l₂, t, t', rfl, ht, ht', h, hkept l₁ s t ht hx₁, hkept l₂ t' s' h hx₂⟩

/-- Take the actions one after the other, as long as they are allowed. -/
def follow (step : σ → α → Option σ) (ok : σ → α → Prop) [∀ s a, Decidable (ok s a)] (l : List α)
    (s : σ) : Option σ :=
  l.foldlM (fun s a => if ok s a then step s a else none) s

theorem run_of_follow {step : σ → α → Option σ} {ok : σ → α → Prop} [∀ s a, Decidable (ok s a)]
    (h : follow step ok l s = some s') :
    ReflTransGen (fun s s' => ∃ a, ok s a ∧ step s a = some s') s s' := by
  refine foldlM_invariant
    (P := fun _ t => ReflTransGen (fun s s' => ∃ a, ok s a ∧ step s a = some s') s t) ?_ .refl h
  intro a rest t t' ht hstep
  obtain ⟨hok, hstep⟩ := Option.ite_none_right_eq_some.mp hstep
  exact ht.tail ⟨a, hok, hstep⟩

end Fold

theorem mapM_eq_some_map {β : Type*} {f : α → Option β} {g : α → β} {l : List α}
    (h : ∀ x ∈ l, f x = some (g x)) : l.mapM f = some (l.map g) := by
  induction l with
  | nil => rfl
  | cons x l ih =>
      rw [List.mapM_cons, h x List.mem_cons_self,
        ih fun y hy => h y (List.mem_cons_of_mem x hy)]
      rfl

theorem mapM_eq_some_iff {β : Type*} {f : α → Option β} {l : List α} {ys : List β} :
    l.mapM f = some ys ↔ l.map f = ys.map some := by
  induction l generalizing ys with
  | nil =>
      cases ys with
      | nil => simp
      | cons y ys => simp
  | cons x l ih =>
      rw [List.mapM_cons, List.map_cons, Option.bind_eq_bind, Option.bind_eq_some_iff]
      constructor
      · rintro ⟨y, hy, hrest⟩
        obtain ⟨zs, hzs, hpure⟩ := Option.bind_eq_some_iff.mp hrest
        obtain rfl := Option.some.inj hpure
        rw [hy, ih.mp hzs, List.map_cons]
      · intro h
        cases ys with
        | nil => cases h
        | cons y ys =>
            obtain ⟨hy, hrest⟩ := List.cons.inj h
            exact ⟨y, hy, by rw [ih.mpr hrest]; rfl⟩

/-- What every step preserves a run preserves. -/
theorem invariant_of_run {r : σ → σ → Prop} {P : σ → Prop}
    (step : ∀ s s', r s s' → P s → P s') {s s' : σ} (h : ReflTransGen r s s') (hs : P s) :
    P s' := by
  induction h with
  | refl => exact hs
  | tail _ hstep ih => exact step _ _ hstep ih

/-- When every step lowers a rank, no run goes on forever. -/
theorem not_forever {β : Type*} [Preorder β] [WellFoundedLT β] {r : σ → σ → Prop} {P : σ → Prop}
    (rank : σ → β) (keep : ∀ s s', P s → r s s' → P s')
    (lower : ∀ s s', P s → r s s' → rank s' < rank s) {s : σ} (hs : P s) :
    ¬ ∃ run : ℕ → σ, run 0 = s ∧ ∀ i, r (run i) (run (i + 1)) := by
  rintro ⟨run, rfl, hrun⟩
  have hP : ∀ i, P (run i) := by
    intro i
    induction i with
    | zero => exact hs
    | succ i ih => exact keep _ _ ih (hrun i)
  have hlower : ∀ i, rank (run (i + 1)) < rank (run i) := fun i => lower _ _ (hP i) (hrun i)
  exact (RelEmbedding.natGT (fun i => rank (run i)) hlower).not_wellFounded wellFounded_lt

theorem prefix_append_cases {l l' before : List α} {x : α} (h : before ++ [x] <+: l ++ l') :
    before ++ [x] <+: l ∨ x ∈ l' ∧ l <+: before := by
  induction l' using List.reverseRecOn with
  | nil =>
      rw [List.append_nil] at h
      exact Or.inl h
  | append_singleton l' y ih =>
      rw [← List.append_assoc, List.prefix_concat_iff] at h
      rcases h with heq | h
      · obtain ⟨rfl, hx⟩ := List.append_inj' heq rfl
        refine Or.inr ⟨?_, List.prefix_append _ _⟩
        rw [List.singleton_inj.mp hx]
        simp
      · exact (ih h).imp_right fun hnew => ⟨List.mem_append_left _ hnew.1, hnew.2⟩

theorem flatMap_of_key {κ β : Type*} [DecidableEq κ] {l : List (κ × α)} {k : κ} {v : α}
    {f : α → List β} (hnodup : (l.map Prod.fst).Nodup) (hmem : (k, v) ∈ l) :
    l.flatMap (fun x => if x.1 = k then f x.2 else []) = f v := by
  induction l with
  | nil => cases hmem
  | cons x l ih =>
      rw [List.map_cons, List.nodup_cons] at hnodup
      rw [List.flatMap_cons]
      rcases List.mem_cons.mp hmem with rfl | hmem
      · have hrest : l.flatMap (fun x => if x.1 = k then f x.2 else []) = [] := by
          rw [List.flatMap_eq_nil_iff]
          intro y hy
          rw [if_neg]
          rintro rfl
          exact hnodup.1 (List.mem_map.mpr ⟨y, hy, rfl⟩)
        rw [if_pos rfl, hrest, List.append_nil]
      · have hne : x.1 ≠ k := by
          rintro rfl
          exact hnodup.1 (List.mem_map.mpr ⟨(x.1, v), hmem, rfl⟩)
        rw [if_neg hne, List.nil_append, ih hnodup.2 hmem]

end CloudComputing.Lib
