import CloudComputing.Lib.Bytes
import CloudComputing.MembershipProtocol.MP1Node

/-!
# The layout of the messages

A message is the `enum` of its header, the six bytes of an address, a byte that
nobody writes, and a `long`.  The three functions that build one and the one
that takes it apart compute their offsets each on its own.
-/

namespace CloudComputing

open Lib.Bytes

namespace Address

/-- What `*(int*)addr` and `*(short*)&addr[4]` find. -/
def ofBytes (addr : List UInt8) : Address where
  id := (UInt32.ofNat (ofLE (addr.take 4))).toInt32
  port := (UInt16.ofNat (ofLE (addr.drop 4))).toInt16

@[simp] theorem length_addr (a : Address) : a.addr.length = 6 :=
  rfl

@[simp] theorem ofBytes_addr (a : Address) : ofBytes a.addr = a := by
  have hid : a.id.toUInt32.toNat < 256 ^ 4 := a.id.toUInt32.toNat_lt
  have hport : a.port.toUInt16.toNat < 256 ^ 2 := a.port.toUInt16.toNat_lt
  have htake : a.addr.take 4 = toLE 4 a.id.toUInt32.toNat := rfl
  have hdrop : a.addr.drop 4 = toLE 2 a.port.toUInt16.toNat := rfl
  unfold ofBytes
  rw [htake, hdrop, ofLE_toLE, ofLE_toLE, Nat.mod_eq_of_lt hid, Nat.mod_eq_of_lt hport]
  simp

end Address

namespace MembershipProtocol

def sizeofMessageHdr : Nat := 4
/-- The array `addr[6]`. -/
def sizeofAddr : Nat := 6
/-- The class around it. -/
def sizeofAddress : Nat := sizeofAddr
def sizeofLong : Nat := 8

/-- The number of an enumerator. -/
def MsgTypes.number : MsgTypes → Nat
  | .joinReq => 0
  | .joinRep => 1
  | .heartbeat => 2

/-! ## The writers -/

/-- A block of `size` bytes with the header at its start, the address at `addrOff` and the
heartbeat at `heartbeatOff`. -/
def writeMessage (msgType : MsgTypes) (size addrOff heartbeatOff : Nat) (memory : Nat → UInt8)
    (addr : Address) (heartbeat : Int64) : Option (List UInt8) := do
  let header ← store 0 (toLE sizeofMessageHdr msgType.number) (malloc size memory)
  let addressed ← store addrOff addr.addr header
  store heartbeatOff (toLE sizeofLong heartbeat.toUInt64.toNat) addressed

/-- The JOINREQ message of `introduceSelfToGroup`. -/
def introduceSelfToGroupMsg : (Nat → UInt8) → Address → Int64 → Option (List UInt8) :=
  writeMessage .joinReq (sizeofMessageHdr + sizeofAddr + sizeofLong + 1)
    sizeofMessageHdr (sizeofMessageHdr + 1 + sizeofAddr)

/-- The JOINREP message of `recvCallBack`. -/
def recvCallBackMsg : (Nat → UInt8) → Address → Int64 → Option (List UInt8) :=
  writeMessage .joinRep (sizeofMessageHdr + sizeofAddress + sizeofLong + 1)
    sizeofMessageHdr (sizeofMessageHdr + sizeofAddress + 1)

/-- The HEARTBEAT message of `send_heartbeat`. -/
def sendHeartbeatMsg : (Nat → UInt8) → Address → Int64 → Option (List UInt8) :=
  writeMessage .heartbeat (sizeofMessageHdr + sizeofAddr + sizeofLong + 1)
    sizeofMessageHdr (sizeofMessageHdr + sizeofAddr + 1)

def writer : MsgTypes → (Nat → UInt8) → Address → Int64 → Option (List UInt8)
  | .joinReq => introduceSelfToGroupMsg
  | .joinRep => recvCallBackMsg
  | .heartbeat => sendHeartbeatMsg

/-! ## The reader -/

/-- The tests of `recvCallBack`; it does not ask for HEARTBEAT. -/
def MsgTypes.ofNumber (number : Nat) : MsgTypes :=
  if number = MsgTypes.number .joinReq then .joinReq
  else if number = MsgTypes.number .joinRep then .joinRep
  else .heartbeat

/-- What `recvCallBack` finds behind its three pointers. -/
def readMessage (data : List UInt8) : Option Msg := do
  let msgType ← fetch 0 sizeofMessageHdr data
  let sourceAddr ← fetch sizeofMessageHdr sizeofAddress data
  let receivedHeartbeat ← fetch (sizeofMessageHdr + sizeofAddress + 1) sizeofLong data
  return {
    msgType := .ofNumber (ofLE msgType)
    addr := .ofBytes sourceAddr
    heartbeat := (UInt64.ofNat (ofLE receivedHeartbeat)).toInt64.toInt }

/-- `recvCallBack` on the bytes of a message. -/
def Call.recvCallBackBytes (now : Int) (c : Call) (data : List UInt8) : Option Call :=
  (readMessage data).map (c.recvCallBack now)

section

variable {msgType : MsgTypes} {size addrOff heartbeatOff : Nat} {memory : Nat → UInt8}
  {addr : Address} {heartbeat : Int64} {data : List UInt8}

@[simp] theorem MsgTypes.ofNumber_number : MsgTypes.ofNumber msgType.number = msgType := by
  cases msgType <;> rfl

/-- A writer whose fields lie behind each other in the block stays inside it. -/
theorem exists_writeMessage (msgType : MsgTypes) (memory : Nat → UInt8) (addr : Address)
    (heartbeat : Int64) (hheader : 4 ≤ addrOff) (haddr : addrOff + 6 ≤ heartbeatOff)
    (hheartbeat : heartbeatOff + 8 ≤ size) :
    ∃ data, writeMessage msgType size addrOff heartbeatOff memory addr heartbeat = some data ∧
      data.length = size ∧
      fetch 0 4 data = some (toLE 4 msgType.number) ∧
      fetch addrOff 6 data = some addr.addr ∧
      fetch heartbeatOff 8 data = some (toLE 8 heartbeat.toUInt64.toNat) := by
  obtain ⟨header, hstore₁⟩ := exists_store 0 (toLE 4 msgType.number) (malloc size memory)
    (by rw [length_toLE, length_malloc]; omega)
  have hlength₁ := length_store hstore₁
  rw [length_malloc] at hlength₁
  obtain ⟨addressed, hstore₂⟩ := exists_store addrOff addr.addr header
    (by rw [hlength₁, Address.length_addr]; omega)
  have hlength₂ := length_store hstore₂
  obtain ⟨data, hstore₃⟩ := exists_store heartbeatOff (toLE 8 heartbeat.toUInt64.toNat)
    addressed
    (by rw [hlength₂, hlength₁, length_toLE]; omega)
  have hlength₃ := length_store hstore₃
  refine ⟨data, ?_, by omega, ?_, ?_, ?_⟩
  · unfold writeMessage
    rw [show sizeofMessageHdr = 4 from rfl, hstore₁]
    simp only [Option.bind_eq_bind, Option.bind_some, hstore₂]
    exact hstore₃
  · rw [fetch_store_disjoint hstore₃ (.inl (by omega)),
      fetch_store_disjoint hstore₂ (.inl (by omega))]
    exact fetch_store_same hstore₁ length_toLE
  · rw [fetch_store_disjoint hstore₃ (.inl haddr)]
    exact fetch_store_same hstore₂ addr.length_addr
  · exact fetch_store_same hstore₃ length_toLE

/-- The three writers agree on the layout. -/
theorem writer_eq :
    writer msgType memory addr heartbeat =
      writeMessage msgType msgSize 4 11 memory addr heartbeat := by
  cases msgType <;> rfl

theorem readMessage_eq (hheader : fetch 0 4 data = some (toLE 4 msgType.number))
    (haddr : fetch 4 6 data = some addr.addr)
    (hheartbeat : fetch 11 8 data = some (toLE 8 heartbeat.toUInt64.toNat)) :
    readMessage data = some ⟨msgType, addr, heartbeat.toInt⟩ := by
  have hnumber : msgType.number < 256 ^ 4 := by
    cases msgType <;> decide
  have hlong : heartbeat.toUInt64.toNat < 256 ^ 8 := heartbeat.toUInt64.toNat_lt
  unfold readMessage
  rw [show sizeofMessageHdr = 4 from rfl, show sizeofAddress = 6 from rfl,
    show sizeofLong = 8 from rfl, hheader, haddr, hheartbeat]
  simp only [Option.bind_eq_bind, Option.bind_some, ofLE_toLE, Nat.mod_eq_of_lt hnumber,
    Nat.mod_eq_of_lt hlong, MsgTypes.ofNumber_number, Address.ofBytes_addr]
  simp

/-- What a writer has put together, `recvCallBack` takes apart: it reads inside the message and
handles the message of the given type, address and heartbeat. -/
theorem recvCallBackBytes_writer (now : Int) (c : Call) (msgType : MsgTypes)
    (memory : Nat → UInt8) (addr : Address) (heartbeat : Int64) :
    ∃ data, writer msgType memory addr heartbeat = some data ∧ data.length = msgSize ∧
      (fetch 0 sizeofMessageHdr data).map ofLE = some msgType.number ∧
      readMessage data = some ⟨msgType, addr, heartbeat.toInt⟩ ∧
      c.recvCallBackBytes now data =
        some (c.recvCallBack now ⟨msgType, addr, heartbeat.toInt⟩) := by
  obtain ⟨data, hwrite, hlength, hheader, haddr, hheartbeat⟩ :=
    exists_writeMessage msgType memory addr heartbeat (le_refl 4) (by decide : 4 + 6 ≤ 11)
      (by decide : 11 + 8 ≤ msgSize)
  have hread := readMessage_eq hheader haddr hheartbeat
  have hnumber : (fetch 0 sizeofMessageHdr data).map ofLE = some msgType.number := by
    rw [show sizeofMessageHdr = 4 from rfl, hheader, Option.map_some, ofLE_toLE]
    cases msgType <;> rfl
  refine ⟨data, writer_eq.trans hwrite, hlength, hnumber, hread, ?_⟩
  rw [Call.recvCallBackBytes, hread]
  rfl

end

end MembershipProtocol

end CloudComputing
