import Std.Data.TreeMap.Lemmas
import CloudComputing.KeyValueStore.Message

/-!
# Entries and the hash table of a node

`Entry.{h,cpp}` and `HashTable.{h,cpp}`.  A node stores text under every key: an
entry printed as `value:timestamp:replica`, again without escaping.
-/

namespace CloudComputing.KeyValueStore

open Lib

structure Entry where
  value : Str
  timestamp : Int32
  replica : ReplicaType
deriving DecidableEq

namespace Entry

def delimiter : Str := [':']

def convertToString (e : Entry) : Str :=
  e.value ++ delimiter ++ Decimal.toStr e.timestamp.toInt ++ delimiter ++
    Decimal.toStr e.replica.toInt32.toInt

/-- `Entry(string)`; there is no result when `stoi` or `at` throws. -/
def ofString (entry : Str) : Option Entry := do
  let tuple := Split.split delimiter entry
  let value ← tuple[0]?
  let timestamp ← Decimal.stoi (← tuple[1]?)
  let replica ← Decimal.stoi (← tuple[2]?)
  return ⟨value, timestamp, ReplicaType.ofInt32 replica⟩

theorem delimiter_ne_nil : delimiter ≠ [] := by decide

theorem clean_toStr (n : Int) : Split.Clean delimiter (Decimal.toStr n) :=
  Split.clean_one_iff.mpr (Decimal.colon_not_mem_toStr n)

theorem split_toStr (n : Int) : Split.split delimiter (Decimal.toStr n) = [Decimal.toStr n] :=
  Split.split_eq_singleton delimiter_ne_nil ((clean_toStr n).not_mem_sub delimiter_ne_nil)

/-- Timestamp and replica are always the last two fields. -/
theorem split_convertToString (e : Entry) : Split.split delimiter e.convertToString =
    Split.split delimiter e.value ++
      [Decimal.toStr e.timestamp.toInt, Decimal.toStr e.replica.toInt32.toInt] := by
  unfold convertToString
  rw [show delimiter = [':'] from rfl, Split.split_one_append, Split.split_one_append]
  rw [← show delimiter = [':'] from rfl, split_toStr, split_toStr]
  simp

theorem ofString_eq_some {s : Str} {e : Entry} : ofString s = some e ↔
    (Split.split delimiter s)[0]? = some e.value ∧
      (∃ f, (Split.split delimiter s)[1]? = some f ∧ Decimal.stoi f = some e.timestamp) ∧
      ∃ f n, (Split.split delimiter s)[2]? = some f ∧ Decimal.stoi f = some n ∧
        ReplicaType.ofInt32 n = e.replica := by
  obtain ⟨value, timestamp, replica⟩ := e
  simp only [ofString, Option.bind_eq_bind, Option.bind_eq_some_iff, Option.pure_def,
    Option.some.injEq, Entry.mk.injEq]
  constructor
  · rintro ⟨v, hv, f, hf, t, ht, g, hg, n, hn, rfl, rfl, rfl⟩
    exact ⟨hv, ⟨f, hf, ht⟩, g, n, hg, hn, rfl⟩
  · rintro ⟨hv, ⟨f, hf, ht⟩, g, n, hg, hn, rfl⟩
    exact ⟨value, hv, f, hf, timestamp, ht, g, hg, n, hn, rfl, rfl, rfl⟩

/-- What is read as a value never has a colon. -/
theorem colon_not_mem_value {s : Str} {e : Entry} (h : ofString s = some e) : ':' ∉ e.value := by
  intro hmem
  obtain ⟨u, v, heq⟩ := List.append_of_mem hmem
  have hfield := List.mem_of_getElem? (ofString_eq_some.mp h).1
  apply Split.not_sub_of_mem_split delimiter_ne_nil hfield
  exact ⟨u, v, by simp [heq, delimiter]⟩

/-- An entry whose value has no colon is read back. -/
theorem ofString_convertToString {e : Entry} (h : ':' ∉ e.value) :
    ofString e.convertToString = some e := by
  have hvalue : Split.split delimiter e.value = [e.value] :=
    Split.split_eq_singleton delimiter_ne_nil
      ((Split.clean_one_iff.mpr h).not_mem_sub delimiter_ne_nil)
  rw [ofString_eq_some, split_convertToString, hvalue]
  exact ⟨rfl, ⟨_, rfl, Decimal.stoi_toStr _⟩, _, _, rfl, Decimal.stoi_toStr _,
    ReplicaType.ofInt32_toInt32 _⟩

/-- Storing the text of an entry as a value leaves what the entry is read as. -/
theorem ofString_rewritten {s : Str} {e : Entry} (h : ofString s = some e) (timestamp : Int32)
    (replica : ReplicaType) : ofString (convertToString ⟨s, timestamp, replica⟩) = some e := by
  have hget : ∀ {i : Nat} {f : Str}, (Split.split delimiter s)[i]? = some f →
      (Split.split delimiter (convertToString ⟨s, timestamp, replica⟩))[i]? = some f := by
    intro i f hf
    obtain ⟨hi, -⟩ := List.getElem?_eq_some_iff.mp hf
    rw [split_convertToString, List.getElem?_append_left hi, hf]
  obtain ⟨hv, ⟨f, hf, ht⟩, g, n, hg, hn, hr⟩ := ofString_eq_some.mp h
  exact ofString_eq_some.mpr ⟨hget hv, ⟨f, hget hf, ht⟩, g, n, hget hg, hn, hr⟩

theorem convertToString_ne_nil (e : Entry) : e.convertToString ≠ [] := by
  simp [convertToString, delimiter]

theorem clean_convertToString {e : Entry} (h : Split.Clean Message.delimiter e.value) :
    Split.Clean Message.delimiter e.convertToString := by
  have h₁ := Split.clean_pair_append h (Decimal.colon_not_mem_toStr e.timestamp.toInt)
    (Decimal.toStr_ne_nil _)
  exact Split.clean_pair_append h₁ (Decimal.colon_not_mem_toStr _) (Decimal.toStr_ne_nil _)

end Entry

/-- `class HashTable`, a `std::map`. -/
structure HashTable where
  hashTable : Std.TreeMap Str Str

namespace HashTable

def empty : HashTable := ⟨∅⟩

/-- `emplace`: an entry that is there stays. -/
def create (key value : Str) (t : HashTable) : Bool × HashTable :=
  (true, ⟨t.hashTable.insertIfNew key value⟩)

def read (key : Str) (t : HashTable) : Str :=
  t.hashTable[key]?.getD []

def update (key newValue : Str) (t : HashTable) : Bool × HashTable :=
  if (t.read key).isEmpty then (false, t)
  else (true, ⟨t.hashTable.insert key newValue⟩)

def deleteKey (key : Str) (t : HashTable) : Bool × HashTable :=
  if (t.read key).isEmpty then (false, t)
  else
    let eraseCount := if key ∈ t.hashTable then 1 else 0
    (decide (1 ≤ eraseCount), ⟨t.hashTable.erase key⟩)

def currentSize (t : HashTable) : Nat := t.hashTable.size

/-- What an iterator goes through, in this order. -/
def keys (t : HashTable) : List Str := t.hashTable.keys

/-- The entry under a key. -/
def get? (t : HashTable) (key : Str) : Option Str := t.hashTable[key]?

variable {t : HashTable} {key key' value : Str}

@[simp] theorem get?_empty : empty.get? key = none := by
  simp [get?, empty]

theorem mem_hashTable : key ∈ t.hashTable ↔ t.get? key ≠ none := by
  rw [get?, Std.TreeMap.mem_iff_isSome_getElem?, Option.isSome_iff_ne_none]

theorem get?_create : (t.create key value).2.get? key' =
    if key' = key ∧ t.get? key = none then some value else t.get? key' := by
  have hmem := @mem_hashTable t key
  simp only [create, get?, Std.TreeMap.getElem?_insertIfNew, Std.compare_eq_iff_eq] at hmem ⊢
  refine if_congr ?_ rfl rfl
  rw [hmem, not_not, eq_comm]

theorem read_eq : t.read key = (t.get? key).getD [] := rfl

theorem isEmpty_read : (t.read key).isEmpty = decide (t.read key = []) := by
  cases t.read key <;> rfl

theorem update_fst : (t.update key value).1 = decide (t.read key ≠ []) := by
  unfold update
  rw [isEmpty_read]
  split <;> simp_all

theorem get?_update : (t.update key value).2.get? key' =
    if key' = key ∧ t.read key ≠ [] then some value else t.get? key' := by
  unfold update
  rw [isEmpty_read]
  split
  case isTrue h => simp_all
  case isFalse h =>
    simp only [get?, Std.TreeMap.getElem?_insert, Std.compare_eq_iff_eq, eq_comm (a := key)]
    simp_all

theorem get?_deleteKey : (t.deleteKey key).2.get? key' =
    if key' = key ∧ t.read key ≠ [] then none else t.get? key' := by
  unfold deleteKey
  rw [isEmpty_read]
  split
  case isTrue h => simp_all
  case isFalse h =>
    simp only [get?, Std.TreeMap.getElem?_erase, Std.compare_eq_iff_eq, eq_comm (a := key)]
    simp_all

theorem deleteKey_of_read_nil (h : t.read key = []) : (t.deleteKey key).2 = t := by
  unfold deleteKey
  rw [isEmpty_read, h]
  rfl

theorem deleteKey_fst : (t.deleteKey key).1 = decide (t.read key ≠ []) := by
  unfold deleteKey
  rw [isEmpty_read]
  split
  case isTrue h => simp_all
  case isFalse h =>
    have hmem : key ∈ t.hashTable := by
      rw [mem_hashTable]
      intro hnone
      simp [read_eq, hnone] at h
    simp_all

theorem mem_toList {p : Str × Str} : p ∈ t.hashTable.toList ↔ t.get? p.1 = some p.2 :=
  Std.TreeMap.mem_toList_iff_getElem?_eq_some

theorem mem_keys : key ∈ t.keys ↔ t.get? key ≠ none := by
  rw [keys, Std.TreeMap.mem_keys, mem_hashTable]

theorem get?_ne_none_of_read (h : t.read key ≠ []) : t.get? key ≠ none := by
  intro hnone
  apply h
  rw [read_eq, hnone]
  rfl

theorem sorted_keys (t : HashTable) : t.keys.Pairwise fun x y => compare x y = .lt :=
  Std.TreeMap.ordered_keys

theorem nodup_keys (t : HashTable) : t.keys.Nodup :=
  Std.TreeMap.nodup_keys

theorem keys_congr {t t' : HashTable} (h : ∀ key, t'.get? key ≠ none ↔ t.get? key ≠ none) :
    t'.keys = t.keys := by
  have hperm : t'.keys.Perm t.keys := by
    rw [List.perm_ext_iff_of_nodup t'.nodup_keys t.nodup_keys]
    intro key
    rw [mem_keys, mem_keys, h]
  refine hperm.eq_of_pairwise ?_ t'.sorted_keys t.sorted_keys
  intro x y _ _ hxy hyx
  rw [Std.OrientedCmp.gt_of_lt hxy] at hyx
  cases hyx

theorem keys_nodup : (t.hashTable.toList.map Prod.fst).Nodup := by
  rw [Std.TreeMap.map_fst_toList_eq_keys]
  exact t.nodup_keys

end HashTable

end CloudComputing.KeyValueStore
