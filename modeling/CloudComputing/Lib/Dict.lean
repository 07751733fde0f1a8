import Mathlib.Data.List.AList
import Mathlib.Tactic.Tauto

/-!
# Dictionaries

A Python dictionary with keys of one kind: an association list without repeated
keys.  The order of its entries is the order in which loops go through it; to
store a value under a key that is there leaves that order alone.
-/

namespace CloudComputing.Lib

abbrev Dict (κ α : Type) :=
  AList fun _ : κ => α

namespace Dict

variable {κ α σ : Type} [DecidableEq κ] {d : Dict κ α} {k k' : κ} {v v' : α}

def values (d : Dict κ α) : List α :=
  d.entries.map Sigma.snd

/-- `d[k] = v` -/
def set (k : κ) (v : α) (d : Dict κ α) : Dict κ α :=
  if k ∈ d then d.replace k v else d.insert k v

theorem dlookup_kreplace {l : List (Σ _ : κ, α)} :
    (l.kreplace k v).dlookup k' = if k' = k ∧ k ∈ l.keys then some v else l.dlookup k' := by
  induction l with
  | nil => simp [List.kreplace, List.lookmap_nil]
  | cons x l ih =>
      obtain ⟨k₀, v₀⟩ := x
      by_cases hk : k₀ = k
      · subst hk
        have hfirst : List.kreplace k₀ v (⟨k₀, v₀⟩ :: l) = ⟨k₀, v⟩ :: l :=
          List.lookmap_cons_some _ _ (by simp)
        rw [hfirst]
        by_cases h : k' = k₀
        · subst h
          simp
        · rw [List.dlookup_cons_ne _ _ (by simpa using h), if_neg (fun h' => h h'.1),
            List.dlookup_cons_ne _ _ (by simpa using h)]
      · have hrest : List.kreplace k v (⟨k₀, v₀⟩ :: l) = ⟨k₀, v₀⟩ :: List.kreplace k v l :=
          List.lookmap_cons_none _ _ (by simp [Ne.symm hk])
        rw [hrest]
        by_cases h : k' = k₀
        · subst h
          simp [hk]
        · rw [List.dlookup_cons_ne _ _ (by simpa using h), ih,
            List.dlookup_cons_ne _ _ (by simpa using h)]
          simp [Ne.symm hk]

theorem lookup_set : (set k v d).lookup k' = if k' = k then some v else d.lookup k' := by
  unfold set
  by_cases hmem : k ∈ d
  · rw [if_pos hmem]
    change (d.entries.kreplace k v).dlookup k' = _
    rw [dlookup_kreplace]
    have hkeys : k ∈ d.entries.keys := hmem
    simp only [hkeys, and_true]
    rfl
  · rw [if_neg hmem]
    by_cases h : k' = k
    · rw [if_pos h, h, AList.lookup_insert]
    · rw [if_neg h, AList.lookup_insert_ne h]

@[simp] theorem lookup_set_self : (set k v d).lookup k = some v := by
  rw [lookup_set, if_pos rfl]

theorem lookup_set_ne (h : k' ≠ k) : (set k v d).lookup k' = d.lookup k' := by
  rw [lookup_set, if_neg h]

@[simp] theorem mem_set : k' ∈ set k v d ↔ k' = k ∨ k' ∈ d := by
  rw [← AList.lookup_isSome, lookup_set]
  by_cases h : k' = k
  · simp [h]
  · simp [h, AList.lookup_isSome]

theorem keys_set_of_mem (h : k ∈ d) : (set k v d).keys = d.keys := by
  rw [set, if_pos h, AList.keys_replace]

theorem keys_set_of_not_mem (h : k ∉ d) : (set k v d).keys = k :: d.keys := by
  rw [set, if_neg h, AList.keys_insert, List.erase_of_not_mem (by rwa [← AList.mem_keys])]

theorem mem_entries_iff {k : κ} {v : α} : ⟨k, v⟩ ∈ d.entries ↔ d.lookup k = some v :=
  AList.mem_lookup_iff.symm

theorem mem_values_iff : v ∈ d.values ↔ ∃ k, d.lookup k = some v := by
  constructor
  · intro h
    obtain ⟨⟨k, v'⟩, hmem, rfl⟩ := List.mem_map.mp h
    exact ⟨k, mem_entries_iff.mp hmem⟩
  · rintro ⟨k, h⟩
    exact List.mem_map.mpr ⟨⟨k, v⟩, mem_entries_iff.mpr h, rfl⟩

theorem mem_of_lookup (h : d.lookup k = some v) : k ∈ d :=
  AList.lookup_isSome.mp (by simp [h])

theorem filter_entries (h : d.lookup k = some v) :
    d.entries.filter (fun e => e.1 = k) = [⟨k, v⟩] := by
  have hmem : ⟨k, v⟩ ∈ d.entries := mem_entries_iff.mpr h
  have hnodup : d.entries.Nodup := List.Nodup.of_map Sigma.fst d.keys_nodup
  apply List.perm_singleton.mp
  apply (List.perm_ext_iff_of_nodup (hnodup.filter _) (List.nodup_singleton _)).mpr
  rintro ⟨k', v'⟩
  rw [List.mem_filter, List.mem_singleton]
  constructor
  · rintro ⟨hmem', hk⟩
    obtain rfl : k' = k := of_decide_eq_true hk
    rw [Option.some.inj ((mem_entries_iff.mp hmem').symm.trans h)]
  · rintro heq
    rw [heq]
    exact ⟨hmem, decide_eq_true rfl⟩

theorem map_values_eq {β : Type} {f : α → β} {g : κ → β}
    (h : ∀ k v, d.lookup k = some v → f v = g k) : d.values.map f = d.keys.map g := by
  change (d.entries.map Sigma.snd).map f = (d.entries.map Sigma.fst).map g
  rw [List.map_map, List.map_map]
  apply List.map_congr_left
  rintro ⟨k, v⟩ hmem
  exact h k v (mem_entries_iff.mp hmem)

/-! ## A loop that stores values -/

variable {ι : Type} {key : ι → κ} {f : ι → α} {l : List ι}

theorem lookup_foldl_set_of_not_mem (h : k ∉ l.map key) :
    (l.foldl (fun d x => set (key x) (f x) d) d).lookup k = d.lookup k := by
  induction l generalizing d with
  | nil => rfl
  | cons x l ih =>
      rw [List.map_cons, List.mem_cons, not_or] at h
      rw [List.foldl_cons, ih h.2, lookup_set_ne h.1]

theorem lookup_foldl_set (hnodup : (l.map key).Nodup) {x : ι} (h : x ∈ l) :
    (l.foldl (fun d x => set (key x) (f x) d) d).lookup (key x) = some (f x) := by
  induction l generalizing d with
  | nil => cases h
  | cons y l ih =>
      rw [List.map_cons, List.nodup_cons] at hnodup
      rw [List.foldl_cons]
      rcases List.mem_cons.mp h with rfl | h
      · rw [lookup_foldl_set_of_not_mem hnodup.1, lookup_set_self]
      · exact ih hnodup.2 h

theorem mem_foldl_set :
    k ∈ l.foldl (fun d x => set (key x) (f x) d) d ↔ k ∈ l.map key ∨ k ∈ d := by
  induction l generalizing d with
  | nil => simp
  | cons x l ih =>
      rw [List.foldl_cons, ih, mem_set, List.map_cons, List.mem_cons]
      tauto

/-- What such a loop leaves behind, if no key comes twice. -/
theorem lookup_foldl_set_iff (hnodup : (l.map key).Nodup) :
    (l.foldl (fun d x => set (key x) (f x) d) ∅).lookup k = some v ↔
      ∃ x ∈ l, key x = k ∧ f x = v := by
  constructor
  · intro h
    have hmem : k ∈ l.map key := by
      rcases mem_foldl_set.mp (mem_of_lookup h) with hmem | hempty
      · exact hmem
      · exact absurd hempty (AList.notMem_empty k)
    obtain ⟨x, hx, rfl⟩ := List.mem_map.mp hmem
    rw [lookup_foldl_set hnodup hx] at h
    exact ⟨x, hx, rfl, Option.some.inj h⟩
  · rintro ⟨x, hx, rfl, rfl⟩
    exact lookup_foldl_set hnodup hx

theorem keys_foldl_set_perm (hnodup : (l.map key).Nodup) :
    (l.foldl (fun d x => set (key x) (f x) d) ∅).keys.Perm (l.map key) := by
  apply (List.perm_ext_iff_of_nodup (AList.keys_nodup _) hnodup).mpr
  intro k
  rw [← AList.mem_keys, mem_foldl_set]
  simp

end Dict

end CloudComputing.Lib
