import CloudComputing.Member
import CloudComputing.Lib.SwapRemove

/-!
# The emulated network

`EmulNet.{h,cpp}`, the same file in both programs.  One buffer holds the
messages of all nodes; `ENsend` appends, `ENrecv` scans it from the back and
fills each hole with the last message.  What a message carries is left open:
text in the key-value store, a binary record in the membership protocol.
-/

namespace CloudComputing

open Lib

/-- `struct en_msg` with the bytes behind it. -/
structure EnMsg (δ : Type*) where
  size : Nat
  src : Address
  dst : Address
  data : δ
deriving DecidableEq, Repr

/-- `EmulNet`: the live part `buff[0 .. currbuffsize)` of the buffer and the two counter
matrices, indexed by node id and time. -/
structure EmulNet (δ : Type*) where
  nextid : Int32
  buff : List (EnMsg δ)
  sentMsgs : Int → Int → Int
  recvMsgs : Int → Int → Int

namespace EmulNet

variable {δ : Type*}

def maxNodes : Int := 1000
def maxTime : Int := 3600
def enBuffSize : Nat := 30000
/-- `MAX_MSG_SIZE` as `setparams` sets it. -/
def maxMsgSize : Nat := 4000
def sizeofEnMsg : Nat := 16

/-- The constructor; what its loops do not reach keeps whatever was in memory. -/
def new (memory : Int → Int → Int) : EmulNet δ where
  nextid := 1
  buff := []
  sentMsgs := fun i j => if 0 ≤ i ∧ i < maxNodes ∧ 0 ≤ j ∧ j < maxTime then 0 else memory i j
  recvMsgs := fun i j => if 0 ≤ i ∧ i < maxNodes ∧ 0 ≤ j ∧ j < maxTime then 0 else memory i j

/-- `ENinit`: the next id, port zero. -/
def enInit (en : EmulNet δ) : Address × EmulNet δ :=
  (⟨en.nextid, 0⟩, { en with nextid := en.nextid + 1 })

/-- `counts[id][time] += n`. -/
def count (counts : Int → Int → Int) (id time n : Int) : Int → Int → Int :=
  fun i t => if i = id ∧ t = time then counts i t + n else counts i t

/-- The test in front of `ENsend`; `dropped` is the outcome of the random draw. -/
def refuses (en : EmulNet δ) (dropped : Bool) (size : Nat) : Bool :=
  enBuffSize ≤ en.buff.length || maxMsgSize ≤ size + sizeofEnMsg || dropped

/-- `ENsend`: the network afterwards and the value returned. -/
def enSend (dropped : Bool) (time : Int) (myaddr toaddr : Address) (data : δ) (size : Nat)
    (en : EmulNet δ) : EmulNet δ × Nat :=
  if en.refuses dropped size then (en, 0)
  else
    ({ en with
        buff := en.buff ++ [⟨size, myaddr, toaddr, data⟩]
        sentMsgs := count en.sentMsgs myaddr.id.toInt time 1 }, size)

/-- The test `ENrecv` makes on every buffered message. -/
def addressedTo (myaddr : Address) (emsg : EnMsg δ) : Bool :=
  emsg.dst.strcmpEq myaddr

/-- `ENrecv`: the network afterwards and the messages handed to the callback, in order. -/
def enRecv (time : Int) (myaddr : Address) (en : EmulNet δ) : EmulNet δ × List (EnMsg δ) :=
  let found := SwapRemove.scan (addressedTo myaddr) en.buff.length en.buff
  ({ en with
      buff := found.2
      recvMsgs := count en.recvMsgs myaddr.id.toInt time found.1.length }, found.1)

/-- The receiver gets each message for it once. -/
theorem enRecv_delivered (time : Int) (myaddr : Address) (en : EmulNet δ) :
    (enRecv time myaddr en).2.Perm (en.buff.filter (addressedTo myaddr)) :=
  (SwapRemove.scan_perm (SwapRemove.clearFrom_length _ _)).1

/-- Every other message stays in the buffer. -/
theorem enRecv_buff (time : Int) (myaddr : Address) (en : EmulNet δ) :
    (enRecv time myaddr en).1.buff.Perm
      (en.buff.filter fun emsg => !addressedTo myaddr emsg) :=
  (SwapRemove.scan_perm (SwapRemove.clearFrom_length _ _)).2

theorem enSend_accepted {dropped : Bool} {time : Int} {myaddr toaddr : Address} {data : δ}
    {size : Nat} {en : EmulNet δ} (h : en.refuses dropped size = false) :
    (enSend dropped time myaddr toaddr data size en).1.buff =
      en.buff ++ [⟨size, myaddr, toaddr, data⟩] := by
  simp [enSend, h]

theorem enSend_refused {dropped : Bool} {time : Int} {myaddr toaddr : Address} {data : δ}
    {size : Nat} {en : EmulNet δ} (h : en.refuses dropped size = true) :
    (enSend dropped time myaddr toaddr data size en).1 = en := by
  simp [enSend, h]

end EmulNet

end CloudComputing
