import Mathlib.Data.List.Flatten
import CloudComputing.Lib.Fold

/-!
# Frames that are copied on their way

At every place a frame is forwarded as any number of copies, to further places
or to receivers.
-/

namespace CloudComputing.Lib

variable {σ η : Type} {next : σ → List (σ ⊕ η)} {s : σ} {n m : Nat}

/-- The receivers of all copies of a frame at `s`; an error when some copy passes more than `n`
places. -/
def spread (next : σ → List (σ ⊕ η)) : Nat → σ → Option (List η)
  | 0, _ => none
  | n + 1, s => ((next s).mapM (Sum.elim (spread next n) fun h => some [h])).map List.flatten

theorem spread_succ (receivers : σ ⊕ η → List η)
    (h : ∀ x ∈ next s, Sum.elim (spread next n) (fun h => some [h]) x = some (receivers x)) :
    spread next (n + 1) s = some ((next s).flatMap receivers) := by
  rw [spread, mapM_eq_some_map h, Option.map_some, List.flatMap_def]

theorem spread_of_place {s' : σ} (h : next s = [.inl s']) :
    spread next (n + 1) s = spread next n s' := by
  rw [spread, h]
  cases hrest : spread next n s' with
  | none => simp [hrest]
  | some copies => simp [hrest]

theorem spread_of_receiver {r : η} (h : next s = [.inr r]) :
    spread next (n + 1) s = some [r] := by
  rw [spread, h]
  rfl

theorem mapM_cons_some {β γ : Type} {f : β → Option γ} {x : β} {l : List β} {all : List γ} :
    (x :: l).mapM f = some all ↔ ∃ y ys, f x = some y ∧ l.mapM f = some ys ∧ all = y :: ys := by
  rw [List.mapM_cons]
  constructor
  · intro h
    obtain ⟨y, hy, h⟩ := Option.bind_eq_some_iff.mp h
    obtain ⟨ys, hys, h⟩ := Option.bind_eq_some_iff.mp h
    exact ⟨y, ys, hy, hys, (Option.some.inj h).symm⟩
  · rintro ⟨y, ys, hy, hys, rfl⟩
    rw [hy, hys]
    rfl

theorem mapM_forall₂ {β γ : Type} {R : γ → γ → Prop} {f f' : β → Option γ} {l : List β}
    {all : List γ} (h : ∀ x ∈ l, ∀ y, f x = some y → ∃ y', f' x = some y' ∧ R y' y)
    (hall : l.mapM f = some all) : ∃ all', l.mapM f' = some all' ∧ List.Forall₂ R all' all := by
  induction l generalizing all with
  | nil =>
      obtain rfl := Option.some.inj hall
      exact ⟨[], rfl, .nil⟩
  | cons x l ih =>
      obtain ⟨y, ys, hy, hys, rfl⟩ := mapM_cons_some.mp hall
      obtain ⟨y', hy', hR⟩ := h x List.mem_cons_self y hy
      obtain ⟨ys', hys', hRs⟩ := ih (fun x hx => h x (List.mem_cons_of_mem _ hx)) hys
      exact ⟨y' :: ys', mapM_cons_some.mpr ⟨y', ys', hy', hys', rfl⟩, .cons hR hRs⟩

theorem mapM_perm {β γ : Type} {f : β → Option γ} {l l' : List β} {all : List γ}
    (hl : l'.Perm l) (hall : l.mapM f = some all) : ∃ all', l'.mapM f = some all' ∧ all'.Perm all := by
  induction hl generalizing all with
  | nil => exact ⟨all, hall, .refl _⟩
  | cons x _ ih =>
      obtain ⟨y, ys, hy, hys, rfl⟩ := mapM_cons_some.mp hall
      obtain ⟨ys', hys', hperm⟩ := ih hys
      exact ⟨y :: ys', mapM_cons_some.mpr ⟨y, ys', hy, hys', rfl⟩, hperm.cons y⟩
  | swap x x' l =>
      obtain ⟨y, rest, hy, hrest, rfl⟩ := mapM_cons_some.mp hall
      obtain ⟨z, ys, hz, hys, rfl⟩ := mapM_cons_some.mp hrest
      exact ⟨z :: y :: ys, mapM_cons_some.mpr ⟨z, _, hz, mapM_cons_some.mpr
        ⟨y, ys, hy, hys, rfl⟩, rfl⟩, .swap y z ys⟩
  | trans _ _ ih ih' =>
      obtain ⟨all₂, hall₂, hperm⟩ := ih' hall
      obtain ⟨all₁, hall₁, hperm'⟩ := ih hall₂
      exact ⟨all₁, hall₁, hperm'.trans hperm⟩

theorem sublist_flatten {l l' : List (List η)} (h : List.Forall₂ List.Sublist l' l) :
    l'.flatten.Sublist l.flatten := by
  induction h with
  | nil => exact List.nil_sublist _
  | cons hsub _ ih =>
      rw [List.flatten_cons, List.flatten_cons]
      exact hsub.append ih

/-- Where every place either drops its frames or forwards them as before, no one receives more. -/
theorem spread_sublist {next' : σ → List (σ ⊕ η)} (h : ∀ s, next' s = [] ∨ next' s = next s)
    {copies : List η} (hs : spread next n s = some copies) :
    ∃ copies', spread next' n s = some copies' ∧ copies'.Sublist copies := by
  induction n generalizing s copies with
  | zero => cases hs
  | succ n ih =>
      rw [spread] at hs ⊢
      rcases h s with hdrop | hsame
      · rw [hdrop]
        exact ⟨[], rfl, List.nil_sublist _⟩
      · obtain ⟨all, hall, rfl⟩ := Option.map_eq_some_iff.mp hs
        rw [hsame]
        obtain ⟨all', hall', hsub⟩ : ∃ all', (next s).mapM
            (Sum.elim (spread next' n) fun h => some [h]) = some all' ∧
              List.Forall₂ List.Sublist all' all := by
          apply mapM_forall₂ _ hall
          intro x _ y hy
          cases x with
          | inl s => exact ih hy
          | inr r => exact ⟨y, hy, .refl y⟩
        exact ⟨all'.flatten, by rw [hall', Option.map_some], sublist_flatten hsub⟩

/-- The order in which the copies are made does not matter. -/
theorem spread_perm {next' : σ → List (σ ⊕ η)} (h : ∀ s, (next' s).Perm (next s))
    {copies : List η} (hs : spread next n s = some copies) :
    ∃ copies', spread next' n s = some copies' ∧ copies'.Perm copies := by
  induction n generalizing s copies with
  | zero => cases hs
  | succ n ih =>
      rw [spread] at hs ⊢
      obtain ⟨all, hall, rfl⟩ := Option.map_eq_some_iff.mp hs
      obtain ⟨all', hall', hperms⟩ : ∃ all', (next s).mapM
          (Sum.elim (spread next' n) fun h => some [h]) = some all' ∧
            List.Forall₂ List.Perm all' all := by
        apply mapM_forall₂ _ hall
        intro x _ y hy
        cases x with
        | inl s => exact ih hy
        | inr r => exact ⟨y, hy, .refl y⟩
      obtain ⟨all'', hall'', hperm⟩ := mapM_perm (h s) hall'
      refine ⟨all''.flatten, by rw [hall'', Option.map_some], ?_⟩
      exact hperm.flatten.trans (List.Perm.flatten_congr hperms)

/-- The places that the copies of a frame at `s` pass, at most `n` one after the other. -/
def visits (next : σ → List (σ ⊕ η)) : Nat → σ → List σ
  | 0, _ => []
  | n + 1, s => s :: (next s).flatMap (Sum.elim (visits next n) fun _ => [])

theorem visits_of_place {s' : σ} (h : next s = [.inl s']) :
    visits next (n + 1) s = s :: visits next n s' := by
  rw [visits, h, List.flatMap_singleton]
  rfl

theorem visits_of_receiver {r : η} (h : next s = [.inr r]) : visits next (n + 1) s = [s] := by
  rw [visits, h, List.flatMap_singleton]
  rfl

end CloudComputing.Lib
