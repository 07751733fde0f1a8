import Mathlib.Logic.Function.Basic
import CloudComputing.KeyValueStore.Entry

/-!
# The hash table as a finite map

The four calls of `HashTable` against a map from keys to values.  The table
takes an empty value for an absent key, and its `create` keeps what is there.
-/

namespace CloudComputing.KeyValueStore.HashTable

inductive Call where
  | create (key value : Str)
  | read (key : Str)
  | update (key newValue : Str)
  | deleteKey (key : Str)
deriving DecidableEq

inductive Answer where
  | done (ok : Bool)
  | value (value : Str)
deriving DecidableEq

/-- A key is present when `count` is one. -/
def count (key : Str) (t : HashTable) : Nat :=
  if key ∈ t.hashTable then 1 else 0

def Call.run (t : HashTable) : Call → Answer × HashTable
  | .create key value => (.done (t.create key value).1, (t.create key value).2)
  | .read key => (.value (t.read key), t)
  | .update key newValue => (.done (t.update key newValue).1, (t.update key newValue).2)
  | .deleteKey key => (.done (t.deleteKey key).1, (t.deleteKey key).2)

/-! ## The map -/

/-- The map that a table stands for. -/
abbrev KeyMap := Str → Option Str

/-- What the calls are for: `Spec m call answer m'` when `call` may be answered so at the map `m`
and leave the map `m'`. -/
def Spec (m : KeyMap) : Call → Answer → KeyMap → Prop
  | .create key value, .done ok, m' =>
      m' = if ok then Function.update m key (some value) else m
  | .read key, .value value, m' => value = (m key).getD [] ∧ m' = m
  | .update key newValue, .done ok, m' =>
      (ok = true ↔ m key ≠ none) ∧
        m' = if ok then Function.update m key (some newValue) else m
  | .deleteKey key, .done ok, m' =>
      (ok = true ↔ m key ≠ none) ∧ m' = if ok then Function.update m key none else m
  | _, _, _ => False

def Refines (t : HashTable) : List Call → Prop
  | [] => True
  | call :: calls =>
      Spec t.get? call (call.run t).1 (call.run t).2.get? ∧ Refines (call.run t).2 calls

/-- A call with nothing unusual: no second value for a key, and no change of an empty value. -/
def Call.Plain (m : KeyMap) : Call → Prop
  | .create key value => m key = none ∨ m key = some value
  | .read _ => True
  | .update key _ => m key ≠ some []
  | .deleteKey key => m key ≠ some []

def Call.next (m : KeyMap) : Call → KeyMap
  | .create key value => Function.update m key (some value)
  | .read _ => m
  | .update key newValue =>
      if m key = none then m else Function.update m key (some newValue)
  | .deleteKey key => Function.update m key none

def AllPlain (m : KeyMap) : List Call → Prop
  | [] => True
  | call :: calls => call.Plain m ∧ AllPlain (call.next m) calls

section

variable {t : HashTable} {key value newValue : Str} {call : Call} {calls : List Call} {m : KeyMap}

/-! ## One call -/

theorem get?_create_eq : (t.create key value).2.get? =
    if t.get? key = none then Function.update t.get? key (some value) else t.get? := by
  funext key'
  rw [get?_create]
  by_cases hkey : key' = key <;> by_cases hnone : t.get? key = none <;>
    simp [hkey, hnone]

theorem get?_update_eq : (t.update key newValue).2.get? =
    if t.read key ≠ [] then Function.update t.get? key (some newValue) else t.get? := by
  funext key'
  rw [get?_update]
  by_cases hkey : key' = key <;> by_cases hread : t.read key = [] <;> simp [hkey, hread]

theorem get?_deleteKey_eq : (t.deleteKey key).2.get? =
    if t.read key ≠ [] then Function.update t.get? key none else t.get? := by
  funext key'
  rw [get?_deleteKey]
  by_cases hkey : key' = key <;> by_cases hread : t.read key = [] <;> simp [hkey, hread]

/-- The test `read(key).empty()` finds a key out just when its value is not empty. -/
theorem found_iff :
    (t.read key ≠ [] ↔ t.get? key ≠ none) ↔ t.get? key ≠ some [] := by
  rw [read_eq]
  cases t.get? key <;> simp

/-- The table answers a call as the map does just when the call is plain. -/
theorem spec_iff : Spec t.get? call (call.run t).1 (call.run t).2.get? ↔ call.Plain t.get? := by
  cases call with
  | create key value =>
      change (t.create key value).2.get? = Function.update t.get? key (some value) ↔
        t.get? key = none ∨ t.get? key = some value
      rw [get?_create_eq]
      by_cases hnone : t.get? key = none
      · simp [hnone]
      · rw [if_neg hnone, Function.eq_update_self_iff]
        simp [hnone]
  | read key => simp [Call.run, Spec, Call.Plain, read_eq]
  | update key newValue =>
      change (((t.update key newValue).1 = true ↔ _) ∧ (t.update key newValue).2.get? = _) ↔ _
      rw [update_fst, get?_update_eq]
      simp only [decide_eq_true_iff, found_iff]
      exact and_iff_left trivial
  | deleteKey key =>
      change (((t.deleteKey key).1 = true ↔ _) ∧ (t.deleteKey key).2.get? = _) ↔ _
      rw [deleteKey_fst, get?_deleteKey_eq]
      simp only [decide_eq_true_iff, found_iff]
      exact and_iff_left trivial

/-- After a plain call the table stands for the map after the call. -/
theorem get?_run (h : call.Plain t.get?) : (call.run t).2.get? = call.next t.get? := by
  cases call with
  | create key value => exact spec_iff.mpr h
  | read key => rfl
  | update key newValue =>
      change (t.update key newValue).2.get? = _
      rw [get?_update_eq, Call.next, if_congr (found_iff.mpr h) rfl rfl, ite_not]
  | deleteKey key =>
      change (t.deleteKey key).2.get? = _
      rw [get?_deleteKey_eq, Call.next, if_congr (found_iff.mpr h) rfl rfl, ite_not]
      split
      case isTrue hnone =>
        rw [← hnone, Function.update_eq_self]
      case isFalse => rfl

/-! ## Sequences of calls -/

theorem refines_iff_allPlain (calls : List Call) (t : HashTable) :
    Refines t calls ↔ AllPlain t.get? calls := by
  induction calls generalizing t with
  | nil => rfl
  | cons call calls ih =>
      rw [Refines, AllPlain, spec_iff, ih]
      apply and_congr_right
      intro hplain
      rw [get?_run hplain]

/-- `HashTable` refines a map over the sequences of plain calls, and over no other ones. -/
theorem refines_iff (calls : List Call) :
    Refines empty calls ↔ AllPlain (fun _ => none) calls := by
  have hempty : empty.get? = fun _ => none := by
    funext key
    exact get?_empty
  rw [refines_iff_allPlain, hempty]

/-- The second `create` returns true and leaves the first value. -/
theorem not_refines_create_create :
    ¬ Refines empty [.create ['k'] ['a'], .create ['k'] ['b']] := by
  rw [refines_iff_allPlain]
  simp [AllPlain, Call.Plain, Call.next]

end

end CloudComputing.KeyValueStore.HashTable
