import Mathlib.Data.List.MinMax
import Mathlib.Tactic.Common

/-!
# Match-action tables

The flow table of a switch.  To add an entry replaces the one with the same
match and priority, and a frame takes the matching entry of highest priority.
-/

namespace CloudComputing.Lib

structure FlowEntry (μ α : Type) where
  priority : Nat
  field : μ
  action : α
deriving DecidableEq

namespace FlowTable

variable {μ α : Type} [DecidableEq μ] {table entries : List (FlowEntry μ α)} {e e' : FlowEntry μ α}

def Clashes (e e' : FlowEntry μ α) : Prop :=
  e.field = e'.field ∧ e.priority = e'.priority

instance : Decidable (Clashes e e') := inferInstanceAs (Decidable (_ ∧ _))

def add (table : List (FlowEntry μ α)) (e : FlowEntry μ α) : List (FlowEntry μ α) :=
  table.filter (fun e' => ¬ Clashes e' e) ++ [e]

def install (entries : List (FlowEntry μ α)) : List (FlowEntry μ α) :=
  entries.foldl add []

def prefer (hit : μ → Bool) (best : Option (FlowEntry μ α)) (e : FlowEntry μ α) :
    Option (FlowEntry μ α) :=
  if hit e.field then
    match best with
    | none => some e
    | some b => if b.priority < e.priority then some e else some b
  else best

/-- The matching entry of highest priority. -/
def lookup (hit : μ → Bool) (table : List (FlowEntry μ α)) : Option (FlowEntry μ α) :=
  table.foldl (prefer hit) none

/-- `e` matches, and everything else that matches has a lower priority. -/
structure Wins (hit : μ → Bool) (table : List (FlowEntry μ α)) (e : FlowEntry μ α) : Prop where
  mem : e ∈ table
  matched : hit e.field = true
  best : ∀ e' ∈ table, hit e'.field = true → e.priority ≤ e'.priority → e' = e

theorem mem_of_mem_install (h : e ∈ install entries) : e ∈ entries := by
  induction entries using List.reverseRecOn with
  | nil => exact h
  | append_singleton entries e' ih =>
      rw [install, List.foldl_append] at h
      rcases List.mem_append.mp h with h | h
      · exact List.mem_append_left _ (ih (List.mem_of_mem_filter h))
      · exact List.mem_append_right _ h

theorem mem_install (h : e ∈ entries) (huniq : ∀ e' ∈ entries, Clashes e e' → e' = e) :
    e ∈ install entries := by
  induction entries using List.reverseRecOn with
  | nil => cases h
  | append_singleton entries e' ih =>
      rw [install, List.foldl_append]
      change e ∈ (install entries).filter _ ++ [e']
      by_cases heq : e = e'
      · simp [heq]
      · have hmem : e ∈ entries := by
          rcases List.mem_append.mp h with h | h
          · exact h
          · exact absurd (List.mem_singleton.mp h) heq
        have hkept : ¬ Clashes e e' := by
          intro hclash
          exact heq (huniq e' (by simp) hclash).symm
        have hbefore := ih hmem fun e' h => huniq e' (List.mem_append_left _ h)
        exact List.mem_append_left _ (List.mem_filter.mpr ⟨hbefore, by simpa using hkept⟩)

variable {hit : μ → Bool}

/-- An entry that wins among those that are sent to a switch wins in its table. -/
theorem Wins.install (h : Wins hit entries e) : Wins hit (install entries) e := by
  refine ⟨mem_install h.mem fun e' hmem hclash => ?_, h.matched, fun e' hmem =>
    h.best e' (mem_of_mem_install hmem)⟩
  exact h.best e' hmem (by rw [← hclash.1]; exact h.matched) (by rw [hclash.2])

theorem foldl_prefer {best : Option (FlowEntry μ α)} (hbest : ∀ b ∈ best, b = e ∨
    b.priority < e.priority) (hhit : hit e.field = true) (hmem : e ∈ table ∨ best = some e)
    (hbeats : ∀ e' ∈ table, hit e'.field = true → e.priority ≤ e'.priority → e' = e) :
    table.foldl (prefer hit) best = some e := by
  induction table generalizing best with
  | nil =>
      rcases hmem with h | h
      · cases h
      · exact h
  | cons x table ih =>
      have hrest := fun e' h => hbeats e' (List.mem_cons_of_mem x h)
      rw [List.foldl_cons]
      by_cases hx : hit x.field = true
      · by_cases hxe : x = e
        · subst hxe
          have hnext : prefer hit best x = some x := by
            unfold prefer
            rw [if_pos hx]
            cases best with
            | none => rfl
            | some b =>
                rcases hbest b rfl with rfl | hlt
                · simp
                · simp [hlt]
          rw [hnext]
          exact ih (by simp) (Or.inr rfl) hrest
        · have hlt : x.priority < e.priority := by
            by_contra hle
            exact hxe (hbeats x (by simp) hx (by omega))
          have hmem' : e ∈ table ∨ best = some e := by
            rcases hmem with h | h
            · rcases List.mem_cons.mp h with h | h
              · exact absurd h.symm hxe
              · exact Or.inl h
            · exact Or.inr h
          refine ih (fun b hb => ?_) (hmem'.imp_right fun h => ?_) hrest
          · unfold prefer at hb
            rw [if_pos hx] at hb
            cases best with
            | none =>
                obtain rfl : x = b := by simpa using hb
                exact Or.inr hlt
            | some b₀ =>
                have hb₀ := hbest b₀ rfl
                simp only [Option.mem_def] at hb
                split at hb
                · obtain rfl := Option.some.inj hb
                  exact Or.inr hlt
                · obtain rfl := Option.some.inj hb
                  exact hb₀
          · subst h
            unfold prefer
            rw [if_pos hx]
            simp only
            rw [if_neg (by omega)]
      · have hsame : prefer hit best x = best := by
          unfold prefer
          rw [if_neg hx]
        rw [hsame]
        refine ih hbest (hmem.imp_left fun h => ?_) hrest
        rcases List.mem_cons.mp h with rfl | h
        · exact absurd hhit hx
        · exact h

theorem Wins.lookup (h : Wins hit table e) : lookup hit table = some e :=
  foldl_prefer (by simp) h.matched (Or.inl h.mem) h.best

end FlowTable

end CloudComputing.Lib
