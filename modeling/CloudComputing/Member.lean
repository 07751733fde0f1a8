import Mathlib.Data.UInt
import CloudComputing.Lib.Split
import CloudComputing.Lib.Decimal

/-!
# Addresses and membership entries

`Member.h`, as far as both programs share it.  An `Address` is six bytes that
hold a four-byte `int` id and a two-byte `short` port, in the byte order of the
machine (little-endian).  Two of them are compared as six bytes by
`operator ==` and as C strings by `strcmp` in the emulated network.
-/

namespace CloudComputing

open Lib

/-- `std::string`, as its sequence of characters. -/
abbrev Str := List Char

structure Address where
  id : Int32
  port : Int16
deriving DecidableEq, Repr

namespace Address

def byte (n i : Nat) : UInt8 :=
  UInt8.ofNat (n / 256 ^ i)

/-- The array `addr[6]`. -/
def addr (a : Address) : List UInt8 :=
  let id := a.id.toUInt32.toNat
  let port := a.port.toUInt16.toNat
  [byte id 0, byte id 1, byte id 2, byte id 3, byte port 0, byte port 1]

/-- The six bytes as one number. -/
def code (a : Address) : Nat :=
  a.id.toUInt32.toNat * 2 ^ 16 + a.port.toUInt16.toNat

/-- `addr` as the C string functions see it: up to the first zero byte. -/
def cString (a : Address) : List UInt8 :=
  a.addr.takeWhile (· ≠ 0)

/-- `0 == strcmp(a.addr, b.addr)`. -/
def strcmpEq (a b : Address) : Bool :=
  a.cString = b.cString

/-- `to_string(id) + ":" + to_string(port)`. -/
def getAddress (a : Address) : Str :=
  Decimal.toStr a.id.toInt ++ [':'] ++ Decimal.toStr a.port.toInt

/-- `Address(string)`; without a colon both numbers are read from the whole string. -/
def ofString (address : Str) : Option Address := do
  let (idStr, portStr) := (Split.cut [':'] address).getD (address, address)
  let id ← Decimal.stoi idStr
  let port ← Decimal.stoi portStr
  return ⟨id, port.toInt16⟩

theorem code_lt (a : Address) : a.code < 2 ^ 48 := by
  have hid := a.id.toUInt32.toNat_lt
  have hport := a.port.toUInt16.toNat_lt
  unfold code
  omega

theorem code_injective : Function.Injective code := by
  rintro ⟨id₁, port₁⟩ ⟨id₂, port₂⟩ h
  have hport₁ := port₁.toUInt16.toNat_lt
  have hport₂ := port₂.toUInt16.toNat_lt
  simp only [code] at h
  have hid : id₁.toUInt32.toNat = id₂.toUInt32.toNat := by omega
  have hport : port₁.toUInt16.toNat = port₂.toUInt16.toNat := by omega
  obtain rfl : id₁ = id₂ := congrArg Int32.ofUInt32 (UInt32.toNat_inj.mp hid)
  obtain rfl : port₁ = port₂ := congrArg Int16.ofUInt16 (UInt16.toNat_inj.mp hport)
  rfl

theorem stoi_toStr_int16 (n : Int16) :
    Decimal.stoi (Decimal.toStr n.toInt) = some n.toInt32 := by
  rw [← Int16.toInt_toInt32, Decimal.stoi_toStr]

@[simp] theorem ofString_getAddress (a : Address) : ofString a.getAddress = some a := by
  have hclean : Split.Clean [':'] (Decimal.toStr a.id.toInt) :=
    Split.clean_one_iff.mpr (Decimal.colon_not_mem_toStr _)
  unfold ofString getAddress
  rw [Split.cut_append (by simp) hclean]
  simp [stoi_toStr_int16]

/-- Group members have the ids `1, 2, …` and port `0`; their ids fill two bytes at most. -/
theorem addr_of_id {i : Nat} (hlt : i < 65536) :
    addr ⟨Int32.ofNat i, 0⟩ = [UInt8.ofNat i, UInt8.ofNat (i / 256), 0, 0, 0, 0] := by
  have hid : (Int32.ofNat i).toUInt32.toNat = i := by
    simp
    omega
  have hport : (0 : Int16).toUInt16.toNat = 0 := by decide
  have hzero : ∀ k, 1 < k → byte i k = 0 := by
    intro k hk
    have hdiv : i / 256 ^ k = 0 := by
      apply Nat.div_eq_of_lt
      calc i < 256 ^ 2 := hlt
        _ ≤ 256 ^ k := Nat.pow_le_pow_right (by decide) hk
    simp only [byte, hdiv]
    rfl
  have hport0 : ∀ k, byte 0 k = 0 := by
    intro k
    simp only [byte, Nat.zero_div]
    rfl
  simp only [addr, hid, hport, hzero 2 (by decide), hzero 3 (by decide), hport0]
  simp [byte]

/-- Below 256 the id fills one byte. -/
theorem addr_of_id_lt {i : Nat} (hlt : i < 256) :
    addr ⟨Int32.ofNat i, 0⟩ = [UInt8.ofNat i, 0, 0, 0, 0, 0] := by
  rw [addr_of_id (by omega), Nat.div_eq_of_lt hlt]
  rfl

theorem cString_of_id_lt {i : Nat} (hpos : 0 < i) (hlt : i < 256) :
    cString ⟨Int32.ofNat i, 0⟩ = [UInt8.ofNat i] := by
  have hne : UInt8.ofNat i ≠ 0 := by
    intro h
    have := congrArg UInt8.toNat h
    simp at this
    omega
  unfold cString
  rw [addr_of_id_lt hlt, List.takeWhile_cons_of_pos (by simpa using hne)]
  simp

/-- Below 256 members `strcmp` tells the members apart. -/
theorem strcmpEq_iff {i j : Nat} (hi : 0 < i) (hi' : i < 256) (hj : 0 < j) (hj' : j < 256) :
    strcmpEq ⟨Int32.ofNat i, 0⟩ ⟨Int32.ofNat j, 0⟩ = true ↔ i = j := by
  unfold strcmpEq
  rw [cString_of_id_lt hi hi', cString_of_id_lt hj hj', decide_eq_true_iff]
  constructor
  · intro h
    have := congrArg UInt8.toNat (List.cons.inj h).1
    simp at this
    omega
  · rintro rfl
    rfl

end Address

structure MemberListEntry where
  id : Int32
  port : Int16
  heartbeat : Int
  timestamp : Int
deriving DecidableEq, Repr

/-- The address the two `memcpy`s put together from an entry. -/
def MemberListEntry.address (entry : MemberListEntry) : Address :=
  ⟨entry.id, entry.port⟩

end CloudComputing
