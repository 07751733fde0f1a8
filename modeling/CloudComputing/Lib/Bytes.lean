import Mathlib.Data.UInt
import Mathlib.Algebra.Order.Group.Nat
import Mathlib.Tactic.Common

/-!
# Blocks of memory

A block is a list of bytes.  Storing into it and fetching from it fail outside
its bounds.  A number of a fixed width is stored with its lowest byte first.
-/

namespace CloudComputing.Lib.Bytes

/-! ## Numbers -/

/-- The lowest `width` bytes of `n`, lowest first. -/
def toLE (width n : Nat) : List UInt8 :=
  (List.range width).map fun i => UInt8.ofNat (n / 256 ^ i)

def ofLE (bytes : List UInt8) : Nat :=
  bytes.foldr (fun byte n => byte.toNat + 256 * n) 0

variable {width n off off' len : Nat} {src buf buf' bytes : List UInt8}

@[simp] theorem length_toLE : (toLE width n).length = width := by
  simp [toLE]

theorem toLE_succ : toLE (width + 1) n = UInt8.ofNat n :: toLE width (n / 256) := by
  unfold toLE
  rw [List.range_succ_eq_map, List.map_cons, List.map_map, Nat.pow_zero, Nat.div_one]
  congr 1
  apply List.map_congr_left
  intro i _
  rw [Function.comp_apply, Nat.succ_eq_add_one, Nat.pow_succ', Nat.div_div_eq_div_mul]

theorem ofLE_toLE (width n : Nat) : ofLE (toLE width n) = n % 256 ^ width := by
  induction width generalizing n with
  | zero => simp [toLE, ofLE, Nat.mod_one]
  | succ width ih =>
      rw [toLE_succ]
      change (UInt8.ofNat n).toNat + 256 * ofLE (toLE width (n / 256)) = _
      rw [ih, Nat.pow_succ', Nat.mod_mul]
      simp

/-! ## Storing and fetching -/

/-- `malloc(size)`; the block holds whatever was in memory. -/
def malloc (size : Nat) (memory : Nat → UInt8) : List UInt8 :=
  (List.range size).map memory

/-- `memcpy(buf + off, src, …)`. -/
def store (off : Nat) (src buf : List UInt8) : Option (List UInt8) :=
  if off + src.length ≤ buf.length then
    some (buf.take off ++ src ++ buf.drop (off + src.length))
  else none

def fetch (off len : Nat) (buf : List UInt8) : Option (List UInt8) :=
  if off + len ≤ buf.length then some ((buf.drop off).take len) else none

@[simp] theorem length_malloc {memory : Nat → UInt8} : (malloc width memory).length = width := by
  simp [malloc]

theorem exists_store (off : Nat) (src buf : List UInt8) (h : off + src.length ≤ buf.length) :
    ∃ buf', store off src buf = some buf' := by
  rw [store, if_pos h]
  exact ⟨_, rfl⟩

theorem store_eq_some (h : store off src buf = some buf') :
    off + src.length ≤ buf.length ∧
      buf' = buf.take off ++ src ++ buf.drop (off + src.length) := by
  obtain ⟨hle, h⟩ := Option.ite_none_right_eq_some.mp h
  exact ⟨hle, (Option.some.inj h).symm⟩

theorem length_store (h : store off src buf = some buf') : buf'.length = buf.length := by
  obtain ⟨hle, rfl⟩ := store_eq_some h
  simp
  omega

theorem fetch_store_same (h : store off src buf = some buf') (hlen : src.length = len) :
    fetch off len buf' = some src := by
  have hlength := length_store h
  subst hlen
  obtain ⟨hle, rfl⟩ := store_eq_some h
  have htake : (buf.take off).length = off := by
    rw [List.length_take]
    omega
  rw [fetch, if_pos (by omega), List.append_assoc]
  conv_lhs =>
    rw [← htake]
  rw [htake, List.drop_append_of_le_length (by omega), List.drop_eq_nil_of_le (by omega),
    List.nil_append, List.take_left]

theorem fetch_store_disjoint (h : store off src buf = some buf')
    (hdisjoint : off' + len ≤ off ∨ off + src.length ≤ off') :
    fetch off' len buf' = fetch off' len buf := by
  have hlength := length_store h
  obtain ⟨hle, rfl⟩ := store_eq_some h
  unfold fetch
  rw [hlength]
  split
  case isFalse => rfl
  case isTrue hin =>
    congr 1
    apply List.ext_getElem?
    intro i
    by_cases hi : i < len
    · rw [List.getElem?_take_of_lt hi, List.getElem?_take_of_lt hi, List.getElem?_drop,
        List.getElem?_drop]
      rcases hdisjoint with hbelow | habove
      · rw [List.append_assoc, List.getElem?_append_left (by rw [List.length_take]; omega),
          List.getElem?_take_of_lt (by omega)]
      · rw [List.getElem?_append_right (by rw [List.length_append, List.length_take]; omega),
          List.getElem?_drop, List.length_append, List.length_take]
        congr 1
        omega
    · rw [List.getElem?_eq_none (by rw [List.length_take]; omega),
        List.getElem?_eq_none (by rw [List.length_take]; omega)]

end CloudComputing.Lib.Bytes
