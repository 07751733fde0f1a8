import Mathlib.Logic.Function.Basic
import CloudComputing.KeyValueStore.Entry
import CloudComputing.KeyValueStore.Ring

/-!
# The state of the key-value store

All nodes of the emulated system live in one process: they share the network,
the clock, the log and the transaction counter.  A method of `MP2Node` is
therefore a function of the whole `World` and the address of its node.
-/

namespace CloudComputing.KeyValueStore

open Function

/-- What the methods of one `MP2Node` use of it. -/
structure MP2Node where
  bFailed : Bool
  mp2q : List Str
  hasMyReplicas : List Node
  haveReplicasOf : List Node
  ring : List Node
  ht : HashTable
  resultTable : Std.TreeMap Int32 (List Bool)
  operationTable : Std.TreeMap Int32 Str
  readValueTable : Std.TreeMap Int32 (List Str)

def MP2Node.new : MP2Node where
  bFailed := false
  mp2q := []
  hasMyReplicas := []
  haveReplicasOf := []
  ring := []
  ht := HashTable.empty
  resultTable := ∅
  operationTable := ∅
  readValueTable := ∅

inductive Operation where
  | create
  | read
  | update
  | delete
deriving DecidableEq

/-- A call of one of the `log…Success` and `log…Fail` functions; `value` is empty where they take
none. -/
structure LogEntry where
  address : Address
  isCoordinator : Bool
  operation : Operation
  success : Bool
  transID : Int32
  key : Str
  value : Str
  time : Int32
deriving DecidableEq

/-- What a run leaves behind, in order. -/
inductive Event where
  | logged (entry : LogEntry)
  /-- `updateKeyValue` replaced the entry of a key -/
  | stored (node : Address) (transID : Int32) (key old new : Str)
deriving DecidableEq

/-- A message accepted by `ENsend` and not yet received. -/
structure Packet where
  src : Address
  dst : Address
  data : Str
deriving DecidableEq

/-- The state of the program; `transID` is the value of `g_transID`. -/
structure World where
  node : Address → MP2Node
  transID : Nat
  currtime : Int32
  net : List Packet
  trace : List Event

namespace World

def setNode (self : Address) (n : MP2Node) (w : World) : World :=
  { w with node := update w.node self n }

def modifyNode (self : Address) (f : MP2Node → MP2Node) (w : World) : World :=
  w.setNode self (f (w.node self))

/-- `g_transID += 1`. -/
def nextTransID (w : World) : World :=
  { w with transID := w.transID + 1 }

/-- `g_transID`. -/
def gTransID (w : World) : Int32 := Int32.ofNat w.transID

def enSend (myaddr toaddr : Address) (data : Str) (w : World) : World :=
  { w with net := w.net ++ [⟨myaddr, toaddr, data⟩] }

def emit (e : Event) (w : World) : World :=
  { w with trace := w.trace ++ [e] }

/-- `log…Success` and `log…Fail`. -/
def log (address : Address) (isCoordinator : Bool) (operation : Operation) (success : Bool)
    (transID : Int32) (key value : Str) (w : World) : World :=
  w.emit (.logged
    { address, isCoordinator, operation, success, transID, key, value, time := w.currtime })

end World

end CloudComputing.KeyValueStore
