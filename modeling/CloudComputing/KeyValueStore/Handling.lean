import CloudComputing.KeyValueStore.Pending

/-!
# What handling one message does

`Handled` lists every effect of the body of the loop of `checkMessages`: on the
table, on the two reply tables, on the network and on the log.  Later modules
use it instead of the code.
-/

namespace CloudComputing.KeyValueStore

open Lib

namespace Message

def tableAfter (arrived : Message) (replica : ReplicaType) (now : Int32) (ht : HashTable) :
    HashTable :=
  let entry := Entry.convertToString ⟨arrived.value, now, replica⟩
  match arrived.type with
  | .create => (ht.create arrived.key entry).2
  | .update => (ht.update arrived.key entry).2
  | .delete => (ht.deleteKey arrived.key).2
  | _ => ht

def answer (uninit : ReplicaType) (self : Address) (arrived : Message) (ht : HashTable) :
    Option Message :=
  let found := decide (ht.read arrived.key ≠ [])
  match arrived.type with
  | .create => some ⟨.reply, uninit, [], [], self, arrived.transID, true⟩
  | .update | .delete => some ⟨.reply, uninit, [], [], self, arrived.transID, found⟩
  | .read => some ⟨.readreply, uninit, [], ht.read arrived.key, self, arrived.transID, false⟩
  | _ => none

def events (self : Address) (arrived : Message) (replica : ReplicaType) (now : Int32)
    (ht : HashTable) : List Event :=
  let entry := Entry.convertToString ⟨arrived.value, now, replica⟩
  let found := decide (ht.read arrived.key ≠ [])
  let id := arrived.transID
  let key := arrived.key
  match arrived.type with
  | .create => [.logged ⟨self, false, .create, true, id, key, arrived.value, now⟩]
  | .update =>
      (if found then [.stored self id key (ht.read key) entry] else []) ++
        [.logged ⟨self, false, .update, found, id, key, arrived.value, now⟩]
  | .delete => [.logged ⟨self, false, .delete, found, id, key, [], now⟩]
  | .read => [.logged ⟨self, false, .read, found, id, key, ht.read key, now⟩]
  | _ => []

def results (arrived : Message) (table : Std.TreeMap Int32 (List Bool)) :
    Std.TreeMap Int32 (List Bool) :=
  match arrived.type with
  | .reply =>
      table.insert arrived.transID (table[arrived.transID]?.getD [] ++ [arrived.success])
  | _ => table

def readValues (arrived : Message) (table : Std.TreeMap Int32 (List Str)) :
    Std.TreeMap Int32 (List Str) :=
  match arrived.type with
  | .readreply | .other _ _ =>
      table.insert arrived.transID (table[arrived.transID]?.getD [] ++ [arrived.value])
  | _ => table

end Message

namespace World

/-- What handling `arrived` at `server` did between `w` and `w'`. -/
structure Handled (uninit : ReplicaType) (server : Address) (arrived : Message)
    (replica : ReplicaType) (w w' : World) : Prop where
  transID : w'.transID = w.transID
  currtime : w'.currtime = w.currtime
  others : ∀ b, b ≠ server → w'.node b = w.node b
  mp2q : (w'.node server).mp2q = (w.node server).mp2q
  ring : (w'.node server).ring = (w.node server).ring
  operationTable : (w'.node server).operationTable = (w.node server).operationTable
  ht : (w'.node server).ht = arrived.tableAfter replica w.currtime (w.node server).ht
  resultTable : (w'.node server).resultTable = arrived.results (w.node server).resultTable
  readValueTable : (w'.node server).readValueTable = arrived.readValues (w.node server).readValueTable
  net : w'.net = w.net ++ ((arrived.answer uninit server (w.node server).ht).toList.map fun m =>
    ⟨server, arrived.fromAddr, m.toString⟩)
  trace : w'.trace = w.trace ++ arrived.events server replica w.currtime (w.node server).ht

variable {hash : Str → Nat} {uninit replica : ReplicaType} {self : Address} {arrived : Message}
  {w w' : World}

theorem noteReplicas_some {nodes : List Node} {r : ReplicaType}
    (h : w.noteReplicas self r nodes = some w') : ∃ mine theirs : MP2Node → List Node,
      w' = w.modifyNode self fun n =>
        { n with hasMyReplicas := mine n, haveReplicasOf := theirs n } := by
  unfold noteReplicas at h
  cases r with
  | primary =>
      simp only [Option.bind_eq_bind, Option.bind_eq_some_iff, Option.pure_def,
        Option.some.injEq] at h
      obtain ⟨n₁, -, n₂, -, rfl⟩ := h
      exact ⟨_, fun n => n.haveReplicasOf, rfl⟩
  | secondary =>
      simp only [Option.bind_eq_bind, Option.bind_eq_some_iff, Option.pure_def,
        Option.some.injEq] at h
      obtain ⟨n₀, -, n₂, -, rfl⟩ := h
      exact ⟨_, _, rfl⟩
  | tertiary =>
      simp only [Option.bind_eq_bind, Option.bind_eq_some_iff, Option.pure_def,
        Option.some.injEq] at h
      obtain ⟨n₀, -, n₁, -, rfl⟩ := h
      exact ⟨fun n => n.hasMyReplicas, _, rfl⟩
  | other n hn =>
      obtain rfl := Option.some.inj h
      exact ⟨fun n => n.hasMyReplicas, fun n => n.haveReplicasOf,
        by simp [modifyNode, setNode]⟩

theorem handled_handle {s : World × ReplicaType}
    (h : handle hash uninit self arrived (w, replica) = some s) :
    Handled uninit self arrived replica w s.1 := by
  unfold handle at h
  cases htype : arrived.type with
  | create =>
      simp only [htype, createKeyValue, HashTable.create, Option.bind_eq_bind,
        Option.bind_eq_some_iff, Option.pure_def, Option.some.injEq] at h
      obtain ⟨w₁, hnote, rfl⟩ := h
      obtain ⟨mine, theirs, rfl⟩ := noteReplicas_some hnote
      constructor
      case others => exact fun b hb => by simp [reply, node_modifyNode_of_ne hb]
      all_goals simp [reply, Message.tableAfter, Message.answer, Message.events, Message.results,
        Message.readValues, HashTable.create, htype]
  | delete =>
      simp only [htype, deletekey, Option.some.injEq] at h
      subst h
      constructor
      case others => exact fun b hb => by simp [reply, node_modifyNode_of_ne hb]
      all_goals simp [reply, Message.tableAfter, Message.answer, Message.events, Message.results,
        Message.readValues, HashTable.deleteKey_fst, htype]
  | read =>
      simp only [htype, readKey, Option.some.injEq] at h
      subst h
      by_cases hread : (w.node self).ht.read arrived.key = []
      all_goals
        constructor
        case others => exact fun b hb => by simp [readReply, hread]
        all_goals simp [readReply, Message.tableAfter, Message.answer, Message.events,
          Message.results, Message.readValues, hread, htype]
  | update =>
      simp only [htype, updateKeyValue, HashTable.update_fst, Option.some.injEq] at h
      subst h
      by_cases hread : (w.node self).ht.read arrived.key = []
      all_goals
        constructor
        case others => exact fun b hb => by simp [reply, hread, node_modifyNode_of_ne hb]
        all_goals simp [reply, Message.tableAfter, Message.answer, Message.events,
          Message.results, Message.readValues, hread, htype]
  | reply =>
      simp only [htype, Option.some.injEq] at h
      subst h
      constructor
      case others => exact fun b hb => by simp [node_modifyNode_of_ne hb]
      all_goals simp [Message.tableAfter, Message.answer, Message.events, Message.results,
        Message.readValues, htype]
  | readreply | other n hn =>
      simp only [htype, Option.some.injEq] at h
      subst h
      constructor
      case others => exact fun b hb => by simp [node_modifyNode_of_ne hb]
      all_goals simp [Message.tableAfter, Message.answer, Message.events, Message.results,
        Message.readValues, htype]

end World

end CloudComputing.KeyValueStore
