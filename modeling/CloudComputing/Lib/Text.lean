import Mathlib.Data.List.DropRight
import CloudComputing.Lib.Decimal

/-!
# Lines and fields of a text

Reading a text the way Python does: its lines with their ends, white space cut
off at both sides, numerals, and fields between separators.
-/

namespace CloudComputing.Lib.Text

variable {line rest s t : List Char} {c : Char} {lines : List (List Char)}

/-- `f.readlines()` -/
def readlines : List Char → List (List Char)
  | [] => []
  | c :: s =>
      if c = '\n' then ['\n'] :: readlines s
      else
        match readlines s with
        | [] => [[c]]
        | line :: lines => (c :: line) :: lines

/-- `s.strip()` -/
def strip (s : List Char) : List Char :=
  (s.dropWhile Decimal.isSpace).rdropWhile Decimal.isSpace

def digits (s : List Char) : Option Nat :=
  if s ≠ [] ∧ s.all Char.isDigit then some (Nat.ofDigitChars 10 s 0) else none

/-- `int(s)`, for the decimal numerals. -/
def int (s : List Char) : Option Int :=
  match strip s with
  | '-' :: s => (digits s).map fun n : Nat => -(n : Int)
  | '+' :: s => (digits s).map fun n : Nat => (n : Int)
  | s => (digits s).map fun n : Nat => (n : Int)

/-! ## Lines -/

theorem readlines_append (h : '\n' ∉ line) (rest : List Char) :
    readlines (line ++ '\n' :: rest) = (line ++ ['\n']) :: readlines rest := by
  induction line with
  | nil => simp [readlines]
  | cons c line ih =>
      rw [List.mem_cons, not_or] at h
      rw [List.cons_append, readlines, if_neg (Ne.symm h.1), ih h.2]
      rfl

theorem readlines_flatten (h : ∀ line ∈ lines, '\n' ∉ line) :
    readlines ((lines.map (· ++ ['\n'])).flatten ++ rest) =
      lines.map (· ++ ['\n']) ++ readlines rest := by
  induction lines with
  | nil => rfl
  | cons line lines ih =>
      have hrest := ih fun l hl => h l (List.mem_cons_of_mem line hl)
      have hone := readlines_append (h line List.mem_cons_self)
        ((lines.map (· ++ ['\n'])).flatten ++ rest)
      rw [List.map_cons, List.flatten_cons, List.cons_append, ← hrest, ← hone]
      congr 1
      simp

/-! ## White space and words -/

/-- The text begins and ends with something else than white space. -/
structure Trim (s : List Char) : Prop where
  ne_nil : s ≠ []
  head : ∀ c ∈ s.head?, Decimal.isSpace c = false
  last : ∀ c ∈ s.getLast?, Decimal.isSpace c = false

theorem Trim.strip_append (h : Trim s) (ht : ∀ c ∈ t, Decimal.isSpace c = true) :
    strip (s ++ t) = s := by
  have hfront : (s ++ t).dropWhile Decimal.isSpace = s ++ t := by
    cases s with
    | nil => exact absurd rfl h.ne_nil
    | cons c s => rw [List.cons_append, List.dropWhile_cons_of_neg (by simp [h.head c rfl])]
  have hback : (s ++ t).rdropWhile Decimal.isSpace = s := by
    induction t using List.reverseRecOn with
    | nil =>
        rw [List.append_nil, List.rdropWhile_eq_self_iff]
        intro hne
        simp [h.last _ (List.getLast?_eq_getLast_of_ne_nil hne)]
    | append_singleton t c ih =>
        rw [← List.append_assoc, List.rdropWhile_concat_pos _ _ _ (ht c (by simp))]
        apply ih fun c' hc' => ht c' (List.mem_append_left _ hc')
        cases s with
        | nil => exact absurd rfl h.ne_nil
        | cons c s => rw [List.cons_append, List.dropWhile_cons_of_neg (by simp [h.head c rfl])]
  rw [strip, hfront, hback]

theorem Trim.strip (h : Trim s) : strip s = s := by
  simpa using h.strip_append (t := []) (by simp)

/-- A text that `split(' ')` leaves whole and `strip()` leaves alone. -/
structure Word (s : List Char) : Prop where
  ne_nil : s ≠ []
  letters : ∀ c ∈ s, Decimal.isSpace c = false

theorem Word.trim (h : Word s) : Trim s :=
  ⟨h.ne_nil, fun c hc => h.letters c (List.mem_of_head? hc),
    fun c hc => h.letters c (List.mem_of_getLast? hc)⟩

theorem Word.not_mem (h : Word s) (hc : Decimal.isSpace c = true) : c ∉ s := by
  intro hmem
  rw [h.letters c hmem] at hc
  cases hc

theorem Word.append (h : Word s) (ht : ∀ c ∈ t, Decimal.isSpace c = false) : Word (s ++ t) := by
  refine ⟨by simp [h.ne_nil], fun c hc => ?_⟩
  rcases List.mem_append.mp hc with hc | hc
  · exact h.letters c hc
  · exact ht c hc

theorem mem_intercalate {sep : Char} {words : List (List Char)}
    (h : c ∈ [sep].intercalate words) : c = sep ∨ ∃ w ∈ words, c ∈ w := by
  induction words with
  | nil => cases h
  | cons w words ih =>
      cases words with
      | nil => exact Or.inr ⟨w, by simp, by simpa using h⟩
      | cons w' words =>
          rw [List.intercalate_cons_cons] at h
          rcases List.mem_append.mp h with h | h
          · rcases List.mem_append.mp h with h | h
            · exact Or.inr ⟨w, by simp, h⟩
            · exact Or.inl (List.mem_singleton.mp h)
          · exact (ih h).imp_right fun ⟨x, hx, hc⟩ => ⟨x, List.mem_cons_of_mem w hx, hc⟩

theorem trim_intercalate {words : List (List Char)} (hne : words ≠ [])
    (hwords : ∀ w ∈ words, Word w) : Trim ([' '].intercalate words) := by
  induction words with
  | nil => exact absurd rfl hne
  | cons w words ih =>
      have hw := (hwords w List.mem_cons_self)
      cases words with
      | nil => simpa using hw.trim
      | cons w' words =>
          have hrest := ih (by simp) fun x hx => hwords x (List.mem_cons_of_mem w hx)
          rw [List.intercalate_cons_cons]
          refine ⟨by simp, fun c hc => hw.trim.head c ?_, fun c hc => hrest.last c ?_⟩
          · rw [List.append_assoc, List.head?_append_of_ne_nil _ hw.ne_nil] at hc
            exact hc
          · rw [List.getLast?_append_of_ne_nil _ hrest.ne_nil] at hc
            exact hc

theorem splitOn_strip {words : List (List Char)} (hne : words ≠ [])
    (hwords : ∀ w ∈ words, Word w) (ht : ∀ c ∈ t, Decimal.isSpace c = true) :
    (strip ([' '].intercalate words ++ t)).splitOn ' ' = words := by
  rw [(trim_intercalate hne hwords).strip_append ht]
  exact List.splitOn_intercalate ' ' (fun w hw => (hwords w hw).not_mem (by decide)) hne

/-! ## Numerals -/

theorem word_toStr (n : Int) : Word (Decimal.toStr n) :=
  ⟨Decimal.toStr_ne_nil n, fun _ hc => Decimal.isSpace_eq_false (Decimal.mem_toStr hc)⟩

theorem digits_toDigits (n : Nat) : digits (Nat.toDigits 10 n) = some n := by
  have hall : (Nat.toDigits 10 n).all Char.isDigit = true :=
    List.all_eq_true.mpr fun c hc => Decimal.isDigit_of_mem_digits hc
  rw [digits, if_pos ⟨Nat.toDigits_ne_nil, hall⟩, Nat.ofDigitChars_ten_toDigits]

@[simp] theorem int_toStr (n : Int) : int (Decimal.toStr n) = some n := by
  rw [int, (word_toStr n).trim.strip, Decimal.toStr]
  split
  case h_1 s heq =>
    split at heq
    case isTrue hneg =>
      obtain rfl : _ = s := (List.cons.inj heq).2
      rw [digits_toDigits, Option.map_some]
      congr 1
      omega
    case isFalse hpos =>
      have hdigit : ('-').isDigit := Decimal.isDigit_of_mem_digits (by rw [heq]; simp)
      simp at hdigit
  case h_2 s heq =>
    split at heq
    case isTrue => exact absurd (List.cons.inj heq).1 (by decide)
    case isFalse =>
      have hdigit : ('+').isDigit := Decimal.isDigit_of_mem_digits (by rw [heq]; simp)
      simp at hdigit
  case h_3 hminus hplus =>
    split
    case isTrue hneg =>
      rw [if_pos hneg] at hminus
      exact absurd rfl (hminus _)
    case isFalse hpos =>
      rw [digits_toDigits, Option.map_some]
      congr 1
      omega

end CloudComputing.Lib.Text
