import CloudComputing.KeyValueStore.System

/-!
# What the primitives change

Small lemmas for the setters of `World`, and the messages under way to a node,
in the network or in its queue.
-/

namespace CloudComputing.KeyValueStore

open Lib Function

namespace World

section Setters

variable {a b c d : Address} {f : MP2Node → MP2Node} {w : World} {s : Str} {e : Event}

@[simp] theorem node_modifyNode_self : (w.modifyNode a f).node a = f (w.node a) := by
  simp [modifyNode, setNode]

theorem node_modifyNode_of_ne (h : b ≠ a) : (w.modifyNode a f).node b = w.node b := by
  simp [modifyNode, setNode, h]

theorem field_modifyNode {β : Type*} {g : MP2Node → β} (h : ∀ n, g (f n) = g n) (b : Address) :
    g ((w.modifyNode a f).node b) = g (w.node b) := by
  by_cases hb : b = a
  · rw [hb, node_modifyNode_self, h]
  · rw [node_modifyNode_of_ne hb]

@[simp] theorem mp2q_modifyNode (h : ∀ n, (f n).mp2q = n.mp2q) :
    ((w.modifyNode a f).node b).mp2q = (w.node b).mp2q := field_modifyNode h b

@[simp] theorem ring_modifyNode (h : ∀ n, (f n).ring = n.ring) :
    ((w.modifyNode a f).node b).ring = (w.node b).ring := field_modifyNode h b

@[simp] theorem ht_modifyNode (h : ∀ n, (f n).ht = n.ht) :
    ((w.modifyNode a f).node b).ht = (w.node b).ht := field_modifyNode h b

@[simp] theorem resultTable_modifyNode (h : ∀ n, (f n).resultTable = n.resultTable) :
    ((w.modifyNode a f).node b).resultTable = (w.node b).resultTable := field_modifyNode h b

@[simp] theorem operationTable_modifyNode (h : ∀ n, (f n).operationTable = n.operationTable) :
    ((w.modifyNode a f).node b).operationTable = (w.node b).operationTable := field_modifyNode h b

@[simp] theorem readValueTable_modifyNode (h : ∀ n, (f n).readValueTable = n.readValueTable) :
    ((w.modifyNode a f).node b).readValueTable = (w.node b).readValueTable := field_modifyNode h b

@[simp] theorem net_modifyNode : (w.modifyNode a f).net = w.net := rfl
@[simp] theorem transID_modifyNode : (w.modifyNode a f).transID = w.transID := rfl
@[simp] theorem currtime_modifyNode : (w.modifyNode a f).currtime = w.currtime := rfl
@[simp] theorem trace_modifyNode : (w.modifyNode a f).trace = w.trace := rfl

@[simp] theorem node_enSend : (w.enSend c d s).node = w.node := rfl
@[simp] theorem net_enSend : (w.enSend c d s).net = w.net ++ [⟨c, d, s⟩] := rfl
@[simp] theorem transID_enSend : (w.enSend c d s).transID = w.transID := rfl
@[simp] theorem currtime_enSend : (w.enSend c d s).currtime = w.currtime := rfl
@[simp] theorem trace_enSend : (w.enSend c d s).trace = w.trace := rfl

@[simp] theorem node_emit : (w.emit e).node = w.node := rfl
@[simp] theorem net_emit : (w.emit e).net = w.net := rfl
@[simp] theorem transID_emit : (w.emit e).transID = w.transID := rfl
@[simp] theorem currtime_emit : (w.emit e).currtime = w.currtime := rfl
@[simp] theorem trace_emit : (w.emit e).trace = w.trace ++ [e] := rfl

@[simp] theorem node_nextTransID : w.nextTransID.node = w.node := rfl
@[simp] theorem net_nextTransID : w.nextTransID.net = w.net := rfl
@[simp] theorem transID_nextTransID : w.nextTransID.transID = w.transID + 1 := rfl
@[simp] theorem currtime_nextTransID : w.nextTransID.currtime = w.currtime := rfl
@[simp] theorem trace_nextTransID : w.nextTransID.trace = w.trace := rfl

variable {co ok : Bool} {op : Operation} {t : Int32} {k v : Str}

@[simp] theorem node_log : (w.log a co op ok t k v).node = w.node := rfl
@[simp] theorem net_log : (w.log a co op ok t k v).net = w.net := rfl
@[simp] theorem transID_log : (w.log a co op ok t k v).transID = w.transID := rfl
@[simp] theorem currtime_log : (w.log a co op ok t k v).currtime = w.currtime := rfl
@[simp] theorem trace_log : (w.log a co op ok t k v).trace =
    w.trace ++ [.logged ⟨a, co, op, ok, t, k, v, w.currtime⟩] := rfl

end Setters

/-! ## Messages under way -/

/-- The texts on their way to a node: in the network, then in its queue. -/
def pending (w : World) (a : Address) : List Str :=
  (w.net.filter fun p => p.dst = a).map Packet.data ++ (w.node a).mp2q

section Pending

variable {a b : Address} {w w' : World} {s : Str} {p : Packet} {q : Str → Bool}

theorem pending_congr (hnet : w'.net = w.net) (hq : (w'.node b).mp2q = (w.node b).mp2q) :
    w'.pending b = w.pending b := by
  rw [pending, pending, hnet, hq]

@[simp] theorem pending_modifyNode {f : MP2Node → MP2Node} (h : ∀ n, (f n).mp2q = n.mp2q) :
    (w.modifyNode a f).pending b = w.pending b :=
  pending_congr rfl (field_modifyNode h b)

theorem pending_append_perm {l : List Packet} (hnet : w'.net = w.net ++ l)
    (hq : (w'.node b).mp2q = (w.node b).mp2q) :
    (w'.pending b).Perm ((l.filter fun p => p.dst = b).map Packet.data ++ w.pending b) := by
  unfold pending
  rw [hnet, hq, List.filter_append, List.map_append]
  exact (List.perm_append_comm.append_right _).trans (List.Perm.of_eq (List.append_assoc _ _ _))

theorem mem_pending_append {l : List Packet} (hnet : w'.net = w.net ++ l)
    (hq : (w'.node b).mp2q = (w.node b).mp2q) :
    s ∈ w'.pending b ↔ (∃ p ∈ l, p.dst = b ∧ p.data = s) ∨ s ∈ w.pending b := by
  rw [(pending_append_perm hnet hq).mem_iff]
  simp [and_assoc]

theorem countP_pending_append {l : List Packet} (hnet : w'.net = w.net ++ l)
    (hq : (w'.node b).mp2q = (w.node b).mp2q) : (w'.pending b).countP q =
      l.countP (fun p => p.dst = b ∧ q p.data = true) + (w.pending b).countP q := by
  rw [(pending_append_perm hnet hq).countP_eq, List.countP_append, List.countP_map,
    List.countP_filter]
  congr 2
  funext p
  simp [Bool.and_comm]

theorem pending_erase_perm (hp : p ∈ w.net) : (w.pending b).Perm
    ((if b = p.dst then [p.data] else []) ++ (w.lose p).pending b) := by
  have hnet : (w.net.filter fun x => x.dst = b).Perm
      ((p :: w.net.erase p).filter fun x => x.dst = b) :=
    (List.perm_cons_erase hp).filter _
  have hpend := ((hnet.map Packet.data).append_right (w.node b).mp2q)
  refine hpend.trans (List.Perm.of_eq ?_)
  by_cases hb : b = p.dst
  · subst hb
    simp [lose, pending]
  · have hne : ¬p.dst = b := fun h => hb h.symm
    simp [lose, pending, hb, hne]

/-- Receiving moves a message from the network into the queue. -/
theorem pending_receive_perm (hp : p ∈ w.net) : ((w.receive p).pending b).Perm (w.pending b) := by
  refine List.Perm.trans ?_ (pending_erase_perm hp).symm
  by_cases hb : b = p.dst
  · subst hb
    simp only [receive, lose, pending, net_modifyNode, node_modifyNode_self, if_true,
      List.singleton_append, ← List.append_assoc]
    exact (List.perm_append_singleton _ _).trans (List.Perm.refl _)
  · have hne : ¬p.dst = b := fun h => hb h.symm
    simp [receive, lose, pending, hb, node_modifyNode_of_ne hb]

theorem pending_reorder_perm {net : List Packet} (h : net.Perm w.net) :
    (pending { w with net := net } b).Perm (w.pending b) :=
  ((h.filter _).map _).append_right _

theorem mem_pending_lose (hp : p ∈ w.net) (h : s ∈ (w.lose p).pending b) : s ∈ w.pending b :=
  (pending_erase_perm hp).mem_iff.mpr (List.mem_append_right _ h)

theorem mem_pending_of_net (hp : p ∈ w.net) : p.data ∈ w.pending p.dst :=
  List.mem_append_left _ (List.mem_map.mpr ⟨p, List.mem_filter.mpr ⟨hp, by simp⟩, rfl⟩)

def pop (a : Address) (queue : List Str) (w : World) : World :=
  w.modifyNode a fun n => { n with mp2q := queue }

theorem pending_pop_perm {queue : List Str} (hq : (w.node a).mp2q = s :: queue) :
    (w.pending b).Perm ((if b = a then [s] else []) ++ (w.pop a queue).pending b) := by
  by_cases hb : b = a
  · subst hb
    simp only [pop, pending, net_modifyNode, node_modifyNode_self, if_true, hq,
      List.singleton_append]
    exact List.perm_middle
  · simp [pop, pending, hb, node_modifyNode_of_ne hb]

end Pending

end World

end CloudComputing.KeyValueStore
