import Mathlib.Data.List.TakeWhile
import Mathlib.Algebra.Group.Int.Defs
import Mathlib.Algebra.Group.Nat.Defs
import Mathlib.Data.Int.Init
import Mathlib.Data.Nat.Log
import Mathlib.Tactic.Common

/-!
# Decimal numerals of machine integers

Printing a signed integer in base ten and reading one back the way the C
library does: leading white space is skipped, one sign is allowed, the longest
run of digits is the number, anything behind it is ignored, and a missing digit
or a value outside 32 bits is an error.
-/

namespace CloudComputing.Lib.Decimal

/-- The base-ten numeral of `n`. -/
def toStr (n : Int) : List Char :=
  if n < 0 then '-' :: Nat.toDigits 10 n.natAbs else Nat.toDigits 10 n.natAbs

/-- White space in the C locale. -/
def isSpace (c : Char) : Bool :=
  c ∈ [' ', '\t', '\n', '\x0b', '\x0c', '\r']

/-- The number at the front of `s`; an error when `s` starts with no digit. -/
def leadingNat (s : List Char) : Option Nat :=
  match s.takeWhile Char.isDigit with
  | [] => none
  | digits => some (Nat.ofDigitChars 10 digits 0)

def signed (s : List Char) : Option Int :=
  match s with
  | '-' :: s => (leadingNat s).map fun n : Nat => -(n : Int)
  | '+' :: s => (leadingNat s).map fun n : Nat => (n : Int)
  | s => (leadingNat s).map fun n : Nat => (n : Int)

/-- Reading a 32-bit integer; `none` stands for either exception. -/
def stoi (s : List Char) : Option Int32 :=
  (signed (s.dropWhile isSpace)).bind fun n =>
    if -2 ^ 31 ≤ n ∧ n < 2 ^ 31 then some (Int32.ofInt n) else none

/-! ## Shape of a numeral -/

theorem isDigit_of_mem_digits {n : Nat} {c : Char} (h : c ∈ Nat.toDigits 10 n) :
    c.isDigit :=
  Nat.isDigit_of_mem_toDigits (by decide) (by decide) h

theorem toStr_ne_nil (n : Int) : toStr n ≠ [] := by
  unfold toStr
  split
  · simp
  · exact Nat.toDigits_ne_nil

theorem mem_toStr {n : Int} {c : Char} (h : c ∈ toStr n) : c.isDigit ∨ c = '-' := by
  unfold toStr at h
  split at h
  · rcases List.mem_cons.mp h with rfl | h
    · exact Or.inr rfl
    · exact Or.inl (isDigit_of_mem_digits h)
  · exact Or.inl (isDigit_of_mem_digits h)

theorem colon_not_mem_toStr (n : Int) : ':' ∉ toStr n := by
  intro h
  rcases mem_toStr h with h | h <;> simp at h

/-! ## Length of a numeral -/

def width (n : Int) : Nat :=
  (if n < 0 then 1 else 0) + (Nat.log 10 n.natAbs + 1)

theorem length_toDigits (n : Nat) : (Nat.toDigits 10 n).length = Nat.log 10 n + 1 := by
  apply Nat.le_antisymm
  · rw [Nat.length_toDigits_le_iff (by decide) (Nat.succ_pos _)]
    exact Nat.lt_pow_succ_log_self (by decide) n
  · by_contra hlt
    have hle : (Nat.toDigits 10 n).length ≤ Nat.log 10 n := by omega
    have hpos : 0 < Nat.log 10 n := Nat.lt_of_lt_of_le Nat.length_toDigits_pos hle
    have hsmall := (Nat.length_toDigits_le_iff (by decide) hpos).mp hle
    have hne : n ≠ 0 := by
      rintro rfl
      simp at hpos
    exact absurd (Nat.pow_log_le_self 10 hne) (by omega)

theorem length_toStr (n : Int) : (toStr n).length = width n := by
  unfold toStr width
  split
  · rw [List.length_cons, length_toDigits, Nat.add_comm]
  · rw [length_toDigits, Nat.zero_add]

theorem width_pos (n : Int) : 0 < width n :=
  Nat.lt_of_lt_of_le (Nat.succ_pos _) (Nat.le_add_left _ _)

theorem width_le {n : Int} {k : Nat} (h : n.natAbs < 10 ^ k) : width n ≤ k + 1 := by
  have hdigits : Nat.log 10 n.natAbs + 1 ≤ k ∨ n.natAbs = 0 := by
    by_cases hzero : n.natAbs = 0
    · exact .inr hzero
    · exact .inl (Nat.log_lt_of_lt_pow hzero h)
  unfold width
  rcases hdigits with hle | hzero
  · split <;> omega
  · rw [hzero, if_neg (by omega)]
    simp

/-! ## Reading a numeral back -/

theorem leadingNat_digits (n : Nat) : leadingNat (Nat.toDigits 10 n) = some n := by
  have hall : (Nat.toDigits 10 n).takeWhile Char.isDigit = Nat.toDigits 10 n :=
    List.takeWhile_eq_self_iff.mpr fun c hc => isDigit_of_mem_digits hc
  unfold leadingNat
  rw [hall]
  cases h : Nat.toDigits 10 n with
  | nil => exact absurd h Nat.toDigits_ne_nil
  | cons c cs =>
      simp only
      rw [← h, Nat.ofDigitChars_ten_toDigits]

theorem signed_toStr (n : Int) : signed (toStr n) = some n := by
  unfold toStr
  split
  case isTrue hneg =>
    simp only [signed, leadingNat_digits, Option.map_some]
    congr 1
    omega
  case isFalse hpos =>
    have hread := leadingNat_digits n.natAbs
    cases h : Nat.toDigits 10 n.natAbs with
    | nil => exact absurd h Nat.toDigits_ne_nil
    | cons c cs =>
        have hdigit : c.isDigit := isDigit_of_mem_digits (n := n.natAbs) (by simp [h])
        rw [h] at hread
        unfold signed
        split
        case h_1 heq =>
          obtain rfl : c = '-' := (List.cons.inj heq).1
          simp at hdigit
        case h_2 heq =>
          obtain rfl : c = '+' := (List.cons.inj heq).1
          simp at hdigit
        case h_3 =>
          rw [hread, Option.map_some]
          congr 1
          omega

theorem isSpace_eq_false {c : Char} (h : c.isDigit ∨ c = '-') : isSpace c = false := by
  by_contra hs
  simp only [isSpace, Bool.not_eq_false, decide_eq_true_eq, List.mem_cons, List.not_mem_nil,
    or_false] at hs
  rcases hs with rfl | rfl | rfl | rfl | rfl | rfl <;> simp at h

theorem dropWhile_toStr (n : Int) : (toStr n).dropWhile isSpace = toStr n := by
  cases h : toStr n with
  | nil => rfl
  | cons c cs =>
      have hc : isSpace c = false := isSpace_eq_false (mem_toStr (n := n) (by simp [h]))
      rw [List.dropWhile_cons_of_neg (by simp [hc])]

/-- Every 32-bit integer survives printing and reading. -/
@[simp] theorem stoi_toStr (n : Int32) : stoi (toStr n.toInt) = some n := by
  have hlo := n.le_toInt
  have hhi := n.toInt_lt
  unfold stoi
  rw [dropWhile_toStr, signed_toStr]
  simp only [Option.bind_some, Int32.ofInt_toInt]
  rw [if_pos ⟨hlo, hhi⟩]

example : stoi (toStr (-2147483648)) = some (-2147483648) := by decide

end CloudComputing.Lib.Decimal
