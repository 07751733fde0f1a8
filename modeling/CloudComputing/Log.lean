import CloudComputing.KeyValueStore.Application

/-!
# The log

`Log.cpp`.  Each function prints its line into a `static char` array of its own
with `sprintf`, which does not know how long the array is.  Addresses and times
have a widest numeral; keys and values have not.
-/

namespace CloudComputing

open Lib KeyValueStore

namespace Address

/-- `%d.%d.%d.%d:%d`, of four `char` and a `short`. -/
def dotted (a : Address) : Str :=
  let d (i : Nat) : Str := Decimal.toStr ((a.addr.getD i 0).toInt8.toInt)
  d 0 ++ ['.'] ++ d 1 ++ ['.'] ++ d 2 ++ ['.'] ++ d 3 ++ [':'] ++ Decimal.toStr a.port.toInt

end Address

namespace Log

/-- `%s` of `s.c_str()`: up to the first zero. -/
def cStr (s : Str) : Str :=
  s.takeWhile (· ≠ '\x00')

/-! ## The lines -/

/-- What `LOG` prints in front of every line. -/
def linePrefix (addr : Address) : Str :=
  addr.dotted ++ [' ']

def logNodeAdd (addedAddr : Address) (time : Int32) : Str :=
  "Node ".toList ++ addedAddr.dotted ++ " joined at time ".toList ++ Decimal.toStr time.toInt

def logNodeRemove (removedAddr : Address) (time : Int32) : Str :=
  "Node ".toList ++ removedAddr.dotted ++ " removed at time ".toList ++ Decimal.toStr time.toInt

/-- The local variable `str`. -/
def role (isCoordinator : Bool) : Str :=
  if isCoordinator then "coordinator".toList else "server".toList

section

variable (result : Str) (isCoordinator : Bool) (time transID : Int32) (key value newValue : Str)

/-- What the four lines without a value have in common. -/
def keyLine : Str :=
  role isCoordinator ++ ": ".toList ++ result ++ " at time ".toList ++
    Decimal.toStr time.toInt ++ ", transID=".toList ++ Decimal.toStr transID.toInt ++
    ", key=".toList ++ cStr key

/-- The lines with a value go on with it. -/
def valueLine : Str :=
  keyLine result isCoordinator time transID key ++ ", value=".toList ++ cStr value

def logCreateSuccess : Str := valueLine "create success".toList isCoordinator time transID key value

def logReadSuccess : Str := valueLine "read success".toList isCoordinator time transID key value

def logUpdateSuccess : Str :=
  valueLine "update success".toList isCoordinator time transID key newValue

def logDeleteSuccess : Str := keyLine "delete success".toList isCoordinator time transID key

def logCreateFail : Str := valueLine "create fail".toList isCoordinator time transID key value

def logReadFail : Str := keyLine "read fail".toList isCoordinator time transID key

def logUpdateFail : Str := valueLine "update fail".toList isCoordinator time transID key newValue

def logDeleteFail : Str := keyLine "delete fail".toList isCoordinator time transID key

end

/-- The line of a call of one of the eight. -/
def operationLine (e : LogEntry) : Str :=
  match e.operation, e.success with
  | .create, true => logCreateSuccess e.isCoordinator e.time e.transID e.key e.value
  | .read, true => logReadSuccess e.isCoordinator e.time e.transID e.key e.value
  | .update, true => logUpdateSuccess e.isCoordinator e.time e.transID e.key e.value
  | .delete, true => logDeleteSuccess e.isCoordinator e.time e.transID e.key
  | .create, false => logCreateFail e.isCoordinator e.time e.transID e.key e.value
  | .read, false => logReadFail e.isCoordinator e.time e.transID e.key
  | .update, false => logUpdateFail e.isCoordinator e.time e.transID e.key e.value
  | .delete, false => logDeleteFail e.isCoordinator e.time e.transID e.key

end Log

/-! ## The buffers -/

inductive Sprintf where
  | linePrefix (addr : Address)
  | nodeAdd (addedAddr : Address) (time : Int32)
  | nodeRemove (removedAddr : Address) (time : Int32)
  | operation (entry : LogEntry)

namespace Sprintf

def text : Sprintf → Str
  | linePrefix addr => Log.linePrefix addr
  | nodeAdd addedAddr time => Log.logNodeAdd addedAddr time
  | nodeRemove removedAddr time => Log.logNodeRemove removedAddr time
  | operation entry => Log.operationLine entry

/-- The length of the array `stdstring`. -/
def bufferSize : Sprintf → Nat
  | linePrefix _ => 30
  | nodeAdd _ _ => 100
  | nodeRemove _ _ => 30
  | operation _ => 100

/-- `sprintf` stays inside the array, its closing zero included. -/
def Fits (call : Sprintf) : Prop :=
  call.text.length + 1 ≤ call.bufferSize

instance (call : Sprintf) : Decidable call.Fits :=
  inferInstanceAs (Decidable (_ ≤ _))

/-- Keys and values are strings that a client can send to a replica. -/
def Possible : Sprintf → Prop
  | operation entry => ∃ (uninit : ReplicaType) (self replica : Address),
      Packet.fits ⟨self, replica, Message.toString
        ⟨.create, uninit, entry.key, entry.value, self, entry.transID, false⟩⟩ = true
  | _ => True

end Sprintf

namespace Log

def takesValue : Operation → Bool → Bool
  | .create, _ | .update, _ => true
  | .read, success => success
  | .delete, _ => false

/-- What the fixed words of a line leave of the array for the time, the transaction id, the key
and the value. -/
def room (e : LogEntry) : Nat :=
  (if e.isCoordinator then 0 else 5) +
    match e.operation, e.success with
    | .create, true | .update, true => 39
    | .read, true => 41
    | .create, false | .update, false => 42
    | .delete, true => 47
    | .delete, false => 50
    | .read, false => 52

def taken (e : LogEntry) : Nat :=
  Decimal.width e.time.toInt + Decimal.width e.transID.toInt + (cStr e.key).length +
    if takesValue e.operation e.success then (cStr e.value).length else 0

/-! ## Widths -/

theorem length_role (isCoordinator : Bool) :
    (role isCoordinator).length = if isCoordinator then 11 else 6 := by
  cases isCoordinator with
  | true => rfl
  | false => rfl

variable {result : Str} {isCoordinator : Bool} {time transID : Int32} {key value : Str}

theorem length_keyLine : (keyLine result isCoordinator time transID key).length =
    (if isCoordinator then 11 else 6) + result.length + Decimal.width time.toInt +
      Decimal.width transID.toInt + (cStr key).length + 27 := by
  have hcolon : ": ".toList.length = 2 := rfl
  have htime : " at time ".toList.length = 9 := rfl
  have hid : ", transID=".toList.length = 10 := rfl
  have hkey : ", key=".toList.length = 6 := rfl
  simp only [keyLine, List.length_append, length_role, Decimal.length_toStr, hcolon, htime, hid,
    hkey]
  omega

theorem length_valueLine : (valueLine result isCoordinator time transID key value).length =
    (if isCoordinator then 11 else 6) + result.length + Decimal.width time.toInt +
      Decimal.width transID.toInt + (cStr key).length + (cStr value).length + 35 := by
  have hvalue : ", value=".toList.length = 8 := rfl
  simp only [valueLine, List.length_append, length_keyLine, hvalue]
  omega

/-- The line and what is left of the array make a hundred, the closing zero included. -/
theorem length_operationLine (e : LogEntry) :
    (operationLine e).length + 1 + room e = 100 + taken e := by
  have hwords : "create success".toList.length = 14 ∧ "read success".toList.length = 12 ∧
      "update success".toList.length = 14 ∧ "delete success".toList.length = 14 ∧
      "create fail".toList.length = 11 ∧ "read fail".toList.length = 9 ∧
      "update fail".toList.length = 11 ∧ "delete fail".toList.length = 11 := by decide
  obtain ⟨hcs, hrs, hus, hds, hcf, hrf, huf, hdf⟩ := hwords
  have hrole : (if e.isCoordinator then 11 else 6) + (if e.isCoordinator then 0 else 5) = 11 := by
    cases e.isCoordinator with
    | true => rfl
    | false => rfl
  unfold operationLine room taken
  generalize (if e.isCoordinator then 0 else 5) = spare at hrole ⊢
  cases e.operation with
  | create =>
      cases e.success with
      | true =>
          rw [logCreateSuccess, length_valueLine, hcs, takesValue, if_pos rfl]
          dsimp only
          omega
      | false =>
          rw [logCreateFail, length_valueLine, hcf, takesValue, if_pos rfl]
          dsimp only
          omega
  | read =>
      cases e.success with
      | true =>
          rw [logReadSuccess, length_valueLine, hrs, takesValue, if_pos rfl]
          dsimp only
          omega
      | false =>
          rw [logReadFail, length_keyLine, hrf, takesValue, if_neg Bool.false_ne_true]
          dsimp only
          omega
  | update =>
      cases e.success with
      | true =>
          rw [logUpdateSuccess, length_valueLine, hus, takesValue, if_pos rfl]
          dsimp only
          omega
      | false =>
          rw [logUpdateFail, length_valueLine, huf, takesValue, if_pos rfl]
          dsimp only
          omega
  | delete =>
      rw [takesValue, if_neg Bool.false_ne_true]
      cases e.success with
      | true =>
          rw [logDeleteSuccess, length_keyLine, hds]
          dsimp only
          omega
      | false =>
          rw [logDeleteFail, length_keyLine, hdf]
          dsimp only
          omega

/-- Four signed bytes and a `short`. -/
theorem length_dotted (a : Address) : 9 ≤ a.dotted.length ∧ a.dotted.length ≤ 26 := by
  have hbyte : ∀ b : UInt8, Decimal.width b.toInt8.toInt ≤ 4 := by
    intro b
    have hlo := b.toInt8.le_toInt
    have hhi := b.toInt8.toInt_lt
    exact Decimal.width_le (by omega)
  have hport : Decimal.width a.port.toInt ≤ 6 := by
    have hlo := a.port.le_toInt
    have hhi := a.port.toInt_lt
    exact Decimal.width_le (by omega)
  have h₀ := hbyte (a.addr.getD 0 0)
  have h₁ := hbyte (a.addr.getD 1 0)
  have h₂ := hbyte (a.addr.getD 2 0)
  have h₃ := hbyte (a.addr.getD 3 0)
  have hp₀ := Decimal.width_pos (a.addr.getD 0 0).toInt8.toInt
  have hp₁ := Decimal.width_pos (a.addr.getD 1 0).toInt8.toInt
  have hp₂ := Decimal.width_pos (a.addr.getD 2 0).toInt8.toInt
  have hp₃ := Decimal.width_pos (a.addr.getD 3 0).toInt8.toInt
  have hp := Decimal.width_pos a.port.toInt
  simp only [Address.dotted, List.length_append, Decimal.length_toStr, List.length_singleton]
  omega

theorem width_int32 (n : Int32) : Decimal.width n.toInt ≤ 11 := by
  have hlo := n.le_toInt
  have hhi := n.toInt_lt
  exact Decimal.width_le (by omega)

end Log

/-! ## Which lines fit -/

namespace Sprintf

/-- A removed node never, a joined node always, and the others when they are short enough. -/
def Short : Sprintf → Prop
  | linePrefix _ | nodeAdd _ _ => True
  | nodeRemove _ _ => False
  | operation entry => Log.taken entry ≤ Log.room entry

theorem fits_linePrefix (addr : Address) : (linePrefix addr).Fits := by
  obtain ⟨-, hle⟩ := Log.length_dotted addr
  have hlength : (linePrefix addr).text.length = addr.dotted.length + 1 := by
    simp [text, Log.linePrefix]
  rw [Fits, hlength, bufferSize]
  omega

theorem fits_nodeAdd (addedAddr : Address) (time : Int32) : (nodeAdd addedAddr time).Fits := by
  obtain ⟨-, hle⟩ := Log.length_dotted addedAddr
  have htime := Log.width_int32 time
  have hnode : "Node ".toList.length = 5 := rfl
  have hjoined : " joined at time ".toList.length = 16 := rfl
  rw [Fits, text, bufferSize]
  unfold Log.logNodeAdd
  rw [List.length_append, List.length_append, List.length_append, Decimal.length_toStr,
    hnode, hjoined]
  omega

/-- The words of the line and the shortest of addresses take 32 characters. -/
theorem not_fits_nodeRemove (removedAddr : Address) (time : Int32) :
    ¬(nodeRemove removedAddr time).Fits := by
  obtain ⟨hle, -⟩ := Log.length_dotted removedAddr
  have htime := Decimal.width_pos time.toInt
  have hnode : "Node ".toList.length = 5 := rfl
  have hremoved : " removed at time ".toList.length = 17 := rfl
  rw [Fits, text, bufferSize]
  unfold Log.logNodeRemove
  rw [List.length_append, List.length_append, List.length_append, Decimal.length_toStr,
    hnode, hremoved]
  omega

theorem fits_operation (entry : LogEntry) :
    (operation entry).Fits ↔ Log.taken entry ≤ Log.room entry := by
  have hlength := Log.length_operationLine entry
  rw [Fits, text, bufferSize]
  omega

/-- A line fits its array if it is short, and only then. -/
theorem fits_iff_short (call : Sprintf) : call.Fits ↔ call.Short := by
  cases call with
  | linePrefix addr => exact iff_of_true (fits_linePrefix addr) trivial
  | nodeAdd addedAddr time => exact iff_of_true (fits_nodeAdd addedAddr time) trivial
  | nodeRemove removedAddr time => exact iff_of_false (not_fits_nodeRemove removedAddr time) id
  | operation entry => exact fits_operation entry

def longKey : Sprintf :=
  operation ⟨⟨1, 0⟩, false, .create, true, 1, List.replicate 60 'k', ['v'], 100⟩

theorem not_fits_of_possible : ¬ ∀ call : Sprintf, call.Possible → call.Fits := by
  intro hall
  have hsent : longKey.Possible := ⟨.primary, ⟨1, 0⟩, ⟨2, 0⟩, by decide +kernel⟩
  have hline := hall longKey hsent
  exact absurd hline (by decide +kernel)

end Sprintf

end CloudComputing
