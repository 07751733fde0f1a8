import CloudComputing.Lib.FlowTable

/-!
# Tables that are being changed

A controller adds entries to the table of a switch or clears it.  Its messages
are carried out one by one, in the order in which they were sent, and frames are
forwarded in between.
-/

namespace CloudComputing.Lib.FlowTable

variable {μ α : Type} {table table' : List (FlowEntry μ α)} {e e' x : FlowEntry μ α} {hit : μ → Bool}

/-! ## Members -/

def Unique (table : List (FlowEntry μ α)) : Prop :=
  ∀ e ∈ table, ∀ e' ∈ table, Clashes e e' → e = e'

def Covers (table : List (FlowEntry μ α)) (x : FlowEntry μ α) : Prop :=
  ∃ e ∈ table, Clashes e x

theorem Clashes.symm (h : Clashes e e') : Clashes e' e :=
  ⟨h.1.symm, h.2.symm⟩

theorem Clashes.trans (h : Clashes e e') (h' : Clashes e' x) : Clashes e x :=
  ⟨h.1.trans h'.1, h.2.trans h'.2⟩

theorem unique_nil : Unique ([] : List (FlowEntry μ α)) := by
  intro e he
  cases he

/-! ## Lookups -/

theorem mem_of_lookup (h : lookup hit table = some e) : e ∈ table ∧ hit e.field = true := by
  induction table using List.reverseRecOn generalizing e with
  | nil => cases h
  | append_singleton table x ih =>
      have hbefore : ∀ b, lookup hit table = some b → b ∈ table ++ [x] ∧ hit b.field = true :=
        fun b hb => ⟨List.mem_append_left _ (ih hb).1, (ih hb).2⟩
      rw [lookup, List.foldl_append] at h
      change prefer hit (lookup hit table) x = some e at h
      unfold prefer at h
      split at h
      case isFalse => exact hbefore e h
      case isTrue hx =>
        cases hbest : lookup hit table with
        | none =>
            rw [hbest] at h
            obtain rfl : x = e := by simpa using h
            exact ⟨by simp, hx⟩
        | some b =>
            rw [hbest] at h
            simp only at h
            split at h
            · obtain rfl := Option.some.inj h
              exact ⟨by simp, hx⟩
            · obtain rfl := Option.some.inj h
              exact hbefore _ hbest

theorem prefer_eq_none {best : Option (FlowEntry μ α)} :
    prefer hit best e = none ↔ best = none ∧ ¬ hit e.field = true := by
  unfold prefer
  by_cases he : hit e.field = true
  · rw [if_pos he]
    cases best with
    | none => simp [he]
    | some b =>
        simp only
        split
        · simp
        · simp
  · rw [if_neg he]
    simp [he]

theorem lookup_eq_none : lookup hit table = none ↔ ∀ e ∈ table, ¬ hit e.field = true := by
  induction table using List.reverseRecOn with
  | nil => simp [lookup]
  | append_singleton table x ih =>
      rw [lookup, List.foldl_append]
      change prefer hit (lookup hit table) x = none ↔ _
      rw [prefer_eq_none, ih]
      constructor
      · rintro ⟨htable, hx⟩ e he
        rcases List.mem_append.mp he with he | he
        · exact htable e he
        · rwa [List.mem_singleton.mp he]
      · exact fun h => ⟨fun e he => h e (List.mem_append_left _ he), h x (by simp)⟩

theorem le_of_lookup (h : lookup hit table = some e) (hx : x ∈ table) (hhit : hit x.field = true) :
    x.priority ≤ e.priority := by
  induction table using List.reverseRecOn generalizing e with
  | nil => cases hx
  | append_singleton table y ih =>
      rw [lookup, List.foldl_append] at h
      change prefer hit (lookup hit table) y = some e at h
      unfold prefer at h
      cases hbest : lookup hit table with
      | none =>
          rw [hbest] at h
          rcases List.mem_append.mp hx with hx | hx
          · exact absurd hhit (lookup_eq_none.mp hbest x hx)
          · obtain rfl := List.mem_singleton.mp hx
            rw [if_pos hhit] at h
            obtain rfl := Option.some.inj h
            exact le_rfl
      | some b =>
          rw [hbest] at h
          rcases List.mem_append.mp hx with hx | hx
          · have hle := ih hbest hx
            split at h
            · simp only at h
              split at h
              · obtain rfl := Option.some.inj h
                omega
              · obtain rfl := Option.some.inj h
                exact hle
            · obtain rfl := Option.some.inj h
              exact hle
          · obtain rfl := List.mem_singleton.mp hx
            rw [if_pos hhit] at h
            simp only at h
            split at h
            · obtain rfl := Option.some.inj h
              exact le_rfl
            · obtain rfl := Option.some.inj h
              omega

/-- Entries of one priority that match are the same. -/
def Resolves (hit : μ → Bool) (table : List (FlowEntry μ α)) : Prop :=
  ∀ e ∈ table, ∀ e' ∈ table, hit e.field = true → hit e'.field = true →
    e.priority = e'.priority → e = e'

theorem Resolves.wins (h : Resolves hit table) (hlookup : lookup hit table = some e) :
    Wins hit table e := by
  obtain ⟨he, hhit⟩ := mem_of_lookup hlookup
  refine ⟨he, hhit, fun x hx hx' hle => ?_⟩
  exact h x hx e he hx' hhit (Nat.le_antisymm (le_of_lookup hlookup hx hx') hle)

variable [DecidableEq μ]

/-- Where no two entries compete only the entries count, not their order. -/
theorem Resolves.lookup_congr (h : Resolves hit table) (hmem : ∀ x, x ∈ table ↔ x ∈ table') :
    lookup hit table' = lookup hit table := by
  cases hlookup : lookup hit table with
  | none =>
      rw [lookup_eq_none] at hlookup ⊢
      exact fun x hx => hlookup x ((hmem x).mpr hx)
  | some e =>
      have hwins := h.wins hlookup
      exact Wins.lookup ⟨(hmem e).mp hwins.mem, hwins.matched,
        fun x hx => hwins.best x ((hmem x).mpr hx)⟩

theorem Resolves.lookup_of_part (h : Resolves hit table') (hsub : ∀ x ∈ table, x ∈ table')
    (hlookup : lookup hit table = some e)
    (hbetter : ∀ x ∈ table', hit x.field = true → e.priority < x.priority → x ∈ table) :
    lookup hit table' = some e := by
  obtain ⟨he, hhit⟩ := mem_of_lookup hlookup
  refine Wins.lookup ⟨hsub e he, hhit, fun x hx hx' hle => ?_⟩
  rcases Nat.lt_or_eq_of_le hle with hlt | heq
  · have hmost := le_of_lookup hlookup (hbetter x hx hx' hlt) hx'
    omega
  · exact h x hx e (hsub e he) hx' hhit heq.symm

/-! ## Messages -/

inductive Mod (μ α : Type)
  | add (e : FlowEntry μ α)
  | clear
deriving DecidableEq

def Mod.apply (table : List (FlowEntry μ α)) : Mod μ α → List (FlowEntry μ α)
  | .add e => FlowTable.add table e
  | .clear => []

def applyAll (table : List (FlowEntry μ α)) (mods : List (Mod μ α)) : List (FlowEntry μ α) :=
  mods.foldl Mod.apply table

@[simp] theorem applyAll_nil : applyAll table [] = table := rfl

@[simp] theorem applyAll_cons (m : Mod μ α) (mods : List (Mod μ α)) :
    applyAll table (m :: mods) = applyAll (m.apply table) mods := rfl

theorem applyAll_concat (m : Mod μ α) (mods : List (Mod μ α)) :
    applyAll table (mods ++ [m]) = m.apply (applyAll table mods) := by
  rw [applyAll, List.foldl_append]
  rfl

/-- The switch that is sent entries that do not compete finds what is best among them. -/
theorem Resolves.lookup_install {entries : List (FlowEntry μ α)} (h : Resolves hit entries) :
    lookup hit (install entries) = lookup hit entries := by
  cases hlookup : lookup hit entries with
  | none =>
      rw [lookup_eq_none] at hlookup ⊢
      exact fun x hx => hlookup x (mem_of_mem_install hx)
  | some e => exact (h.wins hlookup).install.lookup

theorem mem_add : x ∈ add table e ↔ (x ∈ table ∧ ¬ Clashes x e) ∨ x = e := by
  simp [add]

theorem Unique.add (h : Unique table) (e : FlowEntry μ α) : Unique (add table e) := by
  intro x hx y hy hclash
  rcases mem_add.mp hx with ⟨hx, hxe⟩ | rfl
  · rcases mem_add.mp hy with ⟨hy, -⟩ | rfl
    · exact h x hx y hy hclash
    · exact absurd hclash hxe
  · rcases mem_add.mp hy with ⟨-, hye⟩ | rfl
    · exact absurd hclash.symm hye
    · rfl

theorem covers_add : Covers (add table e) x ↔ Covers table x ∨ Clashes e x := by
  constructor
  · rintro ⟨y, hy, hclash⟩
    rcases mem_add.mp hy with ⟨hy, -⟩ | rfl
    · exact Or.inl ⟨y, hy, hclash⟩
    · exact Or.inr hclash
  · rintro (⟨y, hy, hclash⟩ | hclash)
    · by_cases hye : Clashes y e
      · exact ⟨e, mem_add.mpr (Or.inr rfl), hye.symm.trans hclash⟩
      · exact ⟨y, mem_add.mpr (Or.inl ⟨hy, hye⟩), hclash⟩
    · exact ⟨e, mem_add.mpr (Or.inr rfl), hclash⟩

/-! ## At every moment -/

/-- `P` holds of the table, and will while the messages are carried out. -/
def Throughout (P : List (FlowEntry μ α) → Prop) :
    List (Mod μ α) → List (FlowEntry μ α) → Prop
  | [], table => P table
  | m :: mods, table => P table ∧ Throughout P mods (m.apply table)

variable {P : List (FlowEntry μ α) → Prop} {m : Mod μ α} {mods : List (Mod μ α)}

theorem Throughout.here (h : Throughout P mods table) : P table := by
  cases mods with
  | nil => exact h
  | cons m mods => exact h.1

theorem Throughout.last (h : Throughout P mods table) : P (applyAll table mods) := by
  induction mods generalizing table with
  | nil => exact h
  | cons m mods ih => exact ih h.2

theorem Throughout.concat (h : Throughout P mods table)
    (hlast : P (m.apply (applyAll table mods))) : Throughout P (mods ++ [m]) table := by
  induction mods generalizing table with
  | nil => exact ⟨h, hlast⟩
  | cons m' mods ih => exact ⟨h.1, ih h.2 hlast⟩

/-! ## From the last clearing on -/

/-- `P` holds of the tables that the messages from the last `clear` on make. -/
def Since (P : List (FlowEntry μ α) → Prop) : List (Mod μ α) → List (FlowEntry μ α) → Prop
  | [], table => P table
  | m :: mods, table => (.clear ∉ m :: mods → P table) ∧ Since P mods (m.apply table)

theorem Since.here (h : Since P mods table) (hclear : .clear ∉ mods) : P table := by
  cases mods with
  | nil => exact h
  | cons m mods => exact h.1 hclear

theorem Since.last (h : Since P mods table) : P (applyAll table mods) := by
  induction mods generalizing table with
  | nil => exact h
  | cons m mods ih => exact ih h.2

theorem Since.mono {Q : List (FlowEntry μ α) → Prop} (h : Since P mods table)
    (hPQ : ∀ table, P table → Q table) : Since Q mods table := by
  induction mods generalizing table with
  | nil => exact hPQ table h
  | cons m mods ih => exact ⟨fun hclear => hPQ table (h.1 hclear), ih h.2⟩

theorem Since.add (h : Since P mods table) (hlast : P (FlowTable.add (applyAll table mods) e)) :
    Since P (mods ++ [.add e]) table := by
  induction mods generalizing table with
  | nil => exact ⟨fun _ => h, hlast⟩
  | cons m mods ih =>
      refine ⟨fun hclear => h.1 fun hmem => hclear ?_, ih h.2 hlast⟩
      exact List.mem_append_left [.add e] hmem

/-- What was before a `clear` is of no account. -/
theorem since_clear (mods : List (Mod μ α)) (hnil : P []) : Since P (mods ++ [.clear]) table := by
  induction mods generalizing table with
  | nil => exact ⟨fun hclear => absurd (List.mem_singleton_self _) hclear, hnil⟩
  | cons m mods ih => exact ⟨fun hclear => absurd (by simp) hclear, ih⟩

end CloudComputing.Lib.FlowTable
