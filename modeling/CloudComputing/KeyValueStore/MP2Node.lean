import CloudComputing.Lib.Cursor
import CloudComputing.KeyValueStore.World

/-!
# The methods of a node

`MP2Node.cpp`.  Where the code throws an exception that nobody catches, indexes
past the end of a vector or moves an iterator whose element was erased, there is
no result.  A local variable or field that is read before it is set holds an
arbitrary value, the parameter `uninit`.
-/

namespace CloudComputing.KeyValueStore

open Lib

namespace World

variable (hash : Str → Nat) (uninit : ReplicaType)

/-! ## Client side -/

/-- What the four client calls share: number the operation, remember its text, send it to the
three replicas of the key. -/
def dispatch (self : Address) (key : Str) (sendMsg : Int32 → Message) (w : World) :
    Option World :=
  let w := w.nextTransID
  let message := (sendMsg w.gTransID).toString
  let w := w.modifyNode self fun n =>
    { n with operationTable := n.operationTable.insert w.gTransID message }
  match findNodes hash key (w.node self).ring with
  | r₀ :: r₁ :: r₂ :: _ =>
      some (((w.enSend self r₀.nodeAddress message).enSend self r₁.nodeAddress message
        ).enSend self r₂.nodeAddress message)
  | _ => none

/-- The replica type is set only after the text was made. -/
def clientCreate (self : Address) (key value : Str) (w : World) : Option World :=
  w.dispatch hash self key fun transID => ⟨.create, uninit, key, value, self, transID, false⟩

def clientRead (self : Address) (key : Str) (w : World) : Option World :=
  w.dispatch hash self key fun transID => ⟨.read, uninit, key, [], self, transID, false⟩

def clientUpdate (self : Address) (key value : Str) (w : World) : Option World :=
  w.dispatch hash self key fun transID => ⟨.update, uninit, key, value, self, transID, false⟩

def clientDelete (self : Address) (key : Str) (w : World) : Option World :=
  w.dispatch hash self key fun transID => ⟨.delete, uninit, key, [], self, transID, false⟩

/-! ## Server side -/

def createKeyValue (self : Address) (key value : Str) (replica : ReplicaType) (transID : Int32)
    (fromAddr : Address) (w : World) : Bool × World :=
  let entry : Entry := ⟨value, w.currtime, replica⟩
  let (isSuccess, ht) := (w.node self).ht.create key entry.convertToString
  (isSuccess, (w.modifyNode self fun n => { n with ht := ht }).log fromAddr false .create
    isSuccess transID key value)

def readKey (self : Address) (key : Str) (transID : Int32) (w : World) : Str × World :=
  let value := (w.node self).ht.read key
  (value, if value ≠ [] then w.log self false .read true transID key value
    else w.log self false .read false transID key [])

def updateKeyValue (self : Address) (key value : Str) (replica : ReplicaType) (transID : Int32)
    (fromAddr : Address) (w : World) : Bool × World :=
  let entry : Entry := ⟨value, w.currtime, replica⟩
  let (isSuccess, ht) := (w.node self).ht.update key entry.convertToString
  let stored := if isSuccess then
    w.emit (.stored self transID key ((w.node self).ht.read key) entry.convertToString) else w
  (isSuccess, (stored.modifyNode self fun n => { n with ht := ht }).log fromAddr false .update
    isSuccess transID key value)

def deletekey (self : Address) (key : Str) (transID : Int32) (w : World) : Bool × World :=
  let (isSuccess, ht) := (w.node self).ht.deleteKey key
  (isSuccess, (w.modifyNode self fun n => { n with ht := ht }).log self false .delete
    isSuccess transID key [])

/-! ## Messages -/

/-- Put `node` into one of the two neighbour lists unless its hash code is there. -/
def addNode (node added : Node) (nodes : List Node) : List Node :=
  if findNodePosition node nodes = -1 then nodes ++ [added] else nodes

/-- What the `CREATE` branch does to the neighbour lists.  As the second replica it looks for the
third node and adds the first. -/
def noteReplicas (self : Address) (replica : ReplicaType) (nodesHaveKey : List Node)
    (w : World) : Option World :=
  match replica with
  | .primary => do
      let n₁ ← nodesHaveKey[1]?
      let n₂ ← nodesHaveKey[2]?
      return w.modifyNode self fun n =>
        { n with hasMyReplicas := addNode n₂ n₂ (addNode n₁ n₁ n.hasMyReplicas) }
  | .secondary => do
      let n₀ ← nodesHaveKey[0]?
      let n₂ ← nodesHaveKey[2]?
      return w.modifyNode self fun n =>
        { n with
            haveReplicasOf := addNode n₀ n₀ n.haveReplicasOf
            hasMyReplicas := addNode n₂ n₀ n.hasMyReplicas }
  | .tertiary => do
      let n₀ ← nodesHaveKey[0]?
      let n₁ ← nodesHaveKey[1]?
      return w.modifyNode self fun n =>
        { n with haveReplicasOf := addNode n₁ n₁ (addNode n₀ n₀ n.haveReplicasOf) }
  | .other _ _ => some w

/-- `new Message(arrived_transID, from_addr, REPLY, is_success)` and its sending. -/
def reply (self toaddr : Address) (transID : Int32) (isSuccess : Bool) (w : World) : World :=
  w.enSend self toaddr
    (Message.toString ⟨.reply, uninit, [], [], self, transID, isSuccess⟩)

/-- The same for a `READREPLY`. -/
def readReply (self toaddr : Address) (transID : Int32) (value : Str) (w : World) : World :=
  w.enSend self toaddr
    (Message.toString ⟨.readreply, uninit, [], value, self, transID, false⟩)

/-- The body of the loop of `checkMessages` for an arrived message; the second component is the
local variable `arrived_replica_type`. -/
def handle (self : Address) (arrived : Message) (s : World × ReplicaType) :
    Option (World × ReplicaType) :=
  let (w, arrivedReplicaType) := s
  match arrived.type with
  | .create => do
      -- the variable still holds what an earlier message left in it
      let (isSuccess, w) := w.createKeyValue self arrived.key arrived.value arrivedReplicaType
        arrived.transID self
      let nodesHaveKey := findNodes hash arrived.key (w.node self).ring
      let w ← w.noteReplicas self arrived.replica nodesHaveKey
      return (w.reply uninit self arrived.fromAddr arrived.transID isSuccess, arrived.replica)
  | .delete =>
      let (isSuccess, w) := w.deletekey self arrived.key arrived.transID
      some (w.reply uninit self arrived.fromAddr arrived.transID isSuccess, arrivedReplicaType)
  | .read =>
      let (value, w) := w.readKey self arrived.key arrived.transID
      some (w.readReply uninit self arrived.fromAddr arrived.transID value, arrivedReplicaType)
  | .update =>
      let (isSuccess, w) := w.updateKeyValue self arrived.key arrived.value arrivedReplicaType
        arrived.transID self
      some (w.reply uninit self arrived.fromAddr arrived.transID isSuccess, arrivedReplicaType)
  | .reply =>
      some (w.modifyNode self fun n =>
        { n with
            resultTable := n.resultTable.insert arrived.transID
              (n.resultTable[arrived.transID]?.getD [] ++ [arrived.success]) },
        arrivedReplicaType)
  | .readreply | .other _ _ =>
      some (w.modifyNode self fun n =>
        { n with
            readValueTable := n.readValueTable.insert arrived.transID
              (n.readValueTable[arrived.transID]?.getD [] ++ [arrived.value]) },
        arrivedReplicaType)

/-- The loop of `checkMessages`, on the messages still in the queue. -/
def popLoop (self : Address) : List Str → World × ReplicaType → Option (World × ReplicaType)
  | [], s => some s
  | message :: queue, (w, arrivedReplicaType) => do
      let popped := w.modifyNode self fun n => { n with mp2q := queue }
      let arrived ← Message.ofString uninit message
      let s ← handle hash uninit self arrived (popped, arrivedReplicaType)
      popLoop self queue s

/-! ## Quorum -/

/-- One turn of the loop of `check_update_operations`. -/
def checkUpdate (self : Address) (w : World) (result : Int32 × List Bool) : Option World :=
  match (w.node self).operationTable[result.1]? with
  | none => some w
  | some text => do
      let received ← Message.ofString uninit text
      let counter := result.2.count true
      return match received.type with
        | .create => w.log received.fromAddr true .create (1 < counter) result.1 received.key
            received.value
        | .update => w.log received.fromAddr true .update (1 < counter) result.1 received.key
            received.value
        | .delete => w.log received.fromAddr true .delete (1 < counter) result.1 received.key []
        | _ => w

def checkUpdateOperations (self : Address) (w : World) : Option World := do
  let w ← (w.node self).resultTable.toList.foldlM (checkUpdate uninit self) w
  return w.modifyNode self fun n => { n with resultTable := ∅ }

/-- The variables `counter`, `value` and `more_than_1_value`. -/
structure ReadValues where
  counter : Nat
  value : Str
  moreThan1Value : Bool
deriving DecidableEq

/-- One turn of the loop over the values read for one operation. -/
def readValue (v : ReadValues) (reply : Str) : Option ReadValues :=
  if reply = [] then some v
  else do
    let entry ← Entry.ofString reply
    let v := { v with counter := v.counter + 1 }
    return if v.moreThan1Value = false ∧ v.value = [] then { v with value := entry.value }
      else if v.value ≠ [] ∧ v.value ≠ entry.value then { v with moreThan1Value := true }
      else v

/-- One turn of the outer loop of `check_read_operations`. -/
def checkRead (self : Address) (w : World) (result : Int32 × List Str) : Option World :=
  match (w.node self).operationTable[result.1]? with
  | none => some w
  | some text => do
      let received ← Message.ofString uninit text
      let v ← result.2.foldlM readValue ⟨0, [], false⟩
      return if received.type = .read then
          if 1 < v.counter ∧ v.value ≠ [] ∧ v.moreThan1Value = false then
            w.log received.fromAddr true .read true result.1 received.key v.value
          else w.log received.fromAddr true .read false result.1 received.key []
        else w

def checkReadOperations (self : Address) (w : World) : Option World := do
  let w ← (w.node self).readValueTable.toList.foldlM (checkRead uninit self) w
  return w.modifyNode self fun n => { n with readValueTable := ∅ }

def checkMessages (self : Address) (w : World) : Option World := do
  let (w, _) ← popLoop hash uninit self (w.node self).mp2q (w, uninit)
  let w ← checkUpdateOperations uninit self w
  checkReadOperations uninit self w

/-! ## Stabilization -/

/-- `g_transID += 1` and `send_message` with it, for a `CREATE` or `UPDATE`. -/
def sendMessage (self toAddr : Address) (key value : Str) (messageType : MessageType)
    (replicaType : ReplicaType) (w : World) : World :=
  let w := w.nextTransID
  w.enSend self toAddr
    (Message.toString ⟨messageType, replicaType, key, value, self, w.gTransID, false⟩)

/-- Sends when the two addresses differ. -/
def sendUnlessSame (self : Address) (new old : Node) (key value : Str)
    (replicaType : ReplicaType) (w : World) : World :=
  if old.nodeAddress = new.nodeAddress then w
  else w.sendMessage self new.nodeAddress key value .create replicaType

/-- The node is no replica of the key any more.  What is erased is the element on which the iterator
of `stabilizationLoop` stands. -/
def handOver (self : Address) (new : List Node) (key value : Str) (w : World) :
    Option World := do
  let n₀ ← new[0]?
  let n₁ ← new[1]?
  let n₂ ← new[2]?
  let w := w.sendMessage self n₀.nodeAddress key value .create .primary
  let w := w.sendMessage self n₁.nodeAddress key value .create .secondary
  let w := w.sendMessage self n₂.nodeAddress key value .create .tertiary
  return w.modifyNode self fun n => { n with ht := (n.ht.deleteKey key).2 }

/-- Rewrite the own entry, under a transaction id of its own. -/
def rewrite (self : Address) (key value : Str) (replica : ReplicaType) (w : World) : World :=
  let w := w.nextTransID
  (w.updateKeyValue self key value replica w.gTransID self).2

def asPrimary (self : Address) (new old : List Node) (key value : Str) (w : World) :
    Option World := do
  let w := w.rewrite self key value .primary
  let n₁ ← new[1]?
  let n₂ ← new[2]?
  let o₁ ← old[1]?
  let o₂ ← old[2]?
  let w := if n₁.nodeAddress = o₂.nodeAddress then
      w.sendMessage self o₂.nodeAddress key value .update .secondary
    else w.sendUnlessSame self n₁ o₁ key value .secondary
  return if n₂.nodeAddress = o₁.nodeAddress then
      w.sendMessage self o₁.nodeAddress key value .update .tertiary
    else w.sendUnlessSame self n₂ o₂ key value .tertiary

def asSecondary (self : Address) (newRing ring new old : List Node) (key value : Str)
    (w : World) : Option World := do
  let w := w.rewrite self key value .secondary
  let n₁ ← new[1]?
  let o₁ ← old[1]?
  let w := w.sendUnlessSame self n₁ o₁ key value .tertiary
  let oldPred ← ring[predecessorPos (findPosition self ring) ring.length 1]?
  let newPred ← newRing[predecessorPos (findPosition self newRing) newRing.length 1]?
  return w.sendUnlessSame self newPred oldPred key value .primary

def asTertiary (self : Address) (newRing ring : List Node) (key value : Str) (w : World) :
    Option World := do
  let w := w.rewrite self key value .tertiary
  let oldPred₂ ← ring[predecessorPos (findPosition self ring) ring.length 2]?
  let newPred₂ ← newRing[predecessorPos (findPosition self newRing) newRing.length 2]?
  let w := w.sendUnlessSame self newPred₂ oldPred₂ key value .primary
  let oldPred₁ ← ring[predecessorPos (findPosition self ring) ring.length 1]?
  let newPred₁ ← newRing[predecessorPos (findPosition self newRing) newRing.length 1]?
  return w.sendUnlessSame self newPred₁ oldPred₁ key value .secondary

/-- The body of the loop of `stabilizationProtocol`, for the pair the iterator points to. -/
def stabilizeKey (self : Address) (newRing : List Node) (w : World) (item : Str × Str) :
    Option World :=
  let (key, value) := item
  let ring := (w.node self).ring
  let newReplicas := findNodes hash key newRing
  let oldReplicas := findNodes hash key ring
  if newReplicas.length < 3 then none
  else
    match ownPos self newReplicas with
    | none => w.handOver self newReplicas key value
    | some 0 => w.asPrimary self newReplicas oldReplicas key value
    | some 1 => w.asSecondary self newRing ring newReplicas oldReplicas key value
    | some _ => w.asTertiary self newRing ring key value

def stabilizeAt (self : Address) (newRing : List Node) (key : Str) (w : World) : Option World := do
  let value ← (w.node self).ht.get? key
  w.stabilizeKey hash self newRing (key, value)

/-- The loop from the element `it` on, for at most `fuel` turns, with the keys it visited.  There is
no result when the iterator is moved after its element was erased. -/
def stabilizationLoop (self : Address) (newRing : List Node) (fuel : Nat) (it : Option Str)
    (w : World) : Option (List Str × World) :=
  Cursor.walk compare (fun w => (w.node self).ht.keys) (stabilizeAt hash self newRing) fuel it w

/-- `for (it = hashTable.begin(); it != end(); ++it)`. -/
def stabilizationProtocol (self : Address) (newRing : List Node) (w : World) : Option World :=
  let keys := (w.node self).ht.keys
  (stabilizationLoop hash self newRing keys.length keys.head? w).map Prod.snd

/-- The nodes of the members, in the order of the membership list. -/
def getMembershipList (memberList : List MemberListEntry) : List Node :=
  memberList.map fun e => Node.ofAddress hash e.address

/-- `updateRing` with the list the membership protocol has at this moment. -/
def updateRing (self : Address) (memberList : List MemberListEntry) (w : World) :
    Option World := do
  let curMemList := sortNodes (getMembershipList hash memberList)
  let ring := (w.node self).ring
  let isRingChanges := !ring.isEmpty && ringChanged ring curMemList
  let w := if ring = [] then w.modifyNode self fun n => { n with ring := curMemList } else w
  let w ← if 0 < (w.node self).ht.currentSize ∧ isRingChanges = true then
      (w.stabilizationProtocol hash self curMemList).map fun w =>
        w.modifyNode self fun n => { n with ring := curMemList }
    else some w
  return w.modifyNode self fun n => { n with ring := sortNodes n.ring }

end World

end CloudComputing.KeyValueStore
