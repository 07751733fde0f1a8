import Mathlib.Data.Nat.ModEq
import CloudComputing.KeyValueStore.ConsistentHashing
import CloudComputing.KeyValueStore.Roles
import CloudComputing.KeyValueStore.Tick

/-!
# The neighbour lists

`hasMyReplicas` is for the two nodes behind a node in the ring, `haveReplicasOf`
for the two in front of it.  As the second replica of a key a node looks whether
the third is in the first list, and then adds the first replica.  It finds the
third there once it has been a first replica itself; until then each such message
adds its predecessor once more.
-/

namespace CloudComputing.KeyValueStore

open Lib

/-! ## Round the ring -/

namespace ProperRing

variable (R : ProperRing) {i j : Nat}

/-- The members one after the other, round and round. -/
def member (i : Nat) : Node :=
  R.nodes.get ⟨i % R.nodes.length, Nat.mod_lt i (Nat.lt_of_lt_of_le (by decide) R.three)⟩

theorem getElem?_mod (i : Nat) : R.nodes[i % R.nodes.length]? = some (R.member i) :=
  List.getElem?_eq_getElem _

theorem member_mem (i : Nat) : R.member i ∈ R.nodes :=
  List.get_mem _ _

theorem member_congr (h : i ≡ j [MOD R.nodes.length]) : R.member i = R.member j := by
  have hget := R.getElem?_mod i
  rw [show i % R.nodes.length = j % R.nodes.length from h, R.getElem?_mod j] at hget
  exact (Option.some.inj hget).symm

theorem nodeHashCode_member :
    (R.member i).nodeHashCode = (R.member j).nodeHashCode ↔ i ≡ j [MOD R.nodes.length] := by
  constructor
  · intro h
    have hsame := R.eq_of_nodeHashCode (R.member_mem i) (R.member_mem j) h
    have hnodup : R.nodes.Nodup := R.addresses.of_map
    exact congrArg Fin.val (hnodup.injective_get hsame)
  · intro h
    rw [R.member_congr h]

theorem nodeAddress_member :
    (R.member i).nodeAddress = (R.member j).nodeAddress ↔ i ≡ j [MOD R.nodes.length] := by
  constructor
  · intro h
    have hsame := R.eq_of_nodeAddress (R.member_mem i) (R.member_mem j) h
    exact R.nodeHashCode_member.mp (congrArg Node.nodeHashCode hsame)
  · intro h
    rw [R.member_congr h]

theorem nodeHashCode_ne (hlt : i < j) (hround : j < i + R.nodes.length) :
    (R.member i).nodeHashCode ≠ (R.member j).nodeHashCode := by
  rw [Ne, nodeHashCode_member, Nat.modEq_iff_dvd' hlt.le]
  intro hdvd
  have hzero := Nat.eq_zero_of_dvd_of_lt hdvd (by omega)
  omega

/-- The nodes of a key are three members in a row. -/
theorem findNodes_eq_members (hash : Str → Nat) (key : Str) :
    ∃ i, findNodes hash key R.nodes = [R.member i, R.member (i + 1), R.member (i + 2)] := by
  rcases findNodes_cases hash key R.nodes with hnil | ⟨hlen, i, hi, hthree⟩
  · obtain ⟨n₀, n₁, n₂, heq⟩ := findNodes_of_three hash R.three key
    rw [hnil] at heq
    cases heq
  · obtain ⟨r₀, r₁, r₂, heq, h₀, h₁, h₂⟩ := threeFrom_length hlen hi
    have h₀' := R.getElem?_mod i
    rw [Nat.mod_eq_of_lt hi, h₀] at h₀'
    refine ⟨i, ?_⟩
    rw [hthree, heq, Option.some.inj h₀', Option.some.inj (h₁.symm.trans (R.getElem?_mod (i + 1))),
      Option.some.inj (h₂.symm.trans (R.getElem?_mod (i + 2)))]

/-- The members in front of member `i`. -/
def pred₁ (i : Nat) : Node := R.member (i + R.nodes.length - 1)

def pred₂ (i : Nat) : Node := R.member (i + R.nodes.length - 2)

/-- The members behind it. -/
def succ₁ (i : Nat) : Node := R.member (i + 1)

def succ₂ (i : Nat) : Node := R.member (i + 2)

variable (i)

theorem succ₁_ne_succ₂ : (R.succ₁ i).nodeHashCode ≠ (R.succ₂ i).nodeHashCode :=
  R.nodeHashCode_ne (by omega) (by have := R.three; omega)

theorem succ₁_ne_pred₁ : (R.succ₁ i).nodeHashCode ≠ (R.pred₁ i).nodeHashCode :=
  R.nodeHashCode_ne (by have := R.three; omega) (by omega)

/-- Only in a ring of three is the member in front of a node also the second behind it. -/
theorem succ₂_eq_pred₁ :
    (R.succ₂ i).nodeHashCode = (R.pred₁ i).nodeHashCode ↔ R.nodes.length = 3 := by
  have hthree := R.three
  rw [succ₂, pred₁, nodeHashCode_member, Nat.modEq_iff_dvd' (by omega)]
  constructor
  · intro hdvd
    have hzero := Nat.eq_zero_of_dvd_of_lt hdvd (by omega)
    omega
  · intro hlen
    rw [hlen]
    exact ⟨0, by omega⟩

variable {i} {hash : Str → Nat} {key : Str}

/-- Which nodes a key has when member `i` is the first, the second or the third of them. -/
theorem findNodes_of_rank {d : Nat} (hd : d < 3)
    (h : (findNodes hash key R.nodes)[d]?.map Node.nodeAddress =
      some (R.member i).nodeAddress) :
    (d = 0 ∧ findNodes hash key R.nodes = [R.member i, R.succ₁ i, R.succ₂ i]) ∨
      (d = 1 ∧ findNodes hash key R.nodes = [R.pred₁ i, R.member i, R.succ₁ i]) ∨
      (d = 2 ∧ findNodes hash key R.nodes = [R.pred₂ i, R.pred₁ i, R.member i]) := by
  obtain ⟨k, hfind⟩ := R.findNodes_eq_members hash key
  rw [hfind] at h ⊢
  have hthree := R.three
  obtain rfl | rfl | rfl : d = 0 ∨ d = 1 ∨ d = 2 := by omega
  · have hk : k ≡ i [MOD R.nodes.length] := R.nodeAddress_member.mp (by simpa using h)
    refine .inl ⟨rfl, ?_⟩
    rw [R.member_congr hk, R.member_congr (hk.add_right 1), R.member_congr (hk.add_right 2)]
    rfl
  · have hk : k + 1 ≡ i [MOD R.nodes.length] := R.nodeAddress_member.mp (by simpa using h)
    have hpred : k ≡ i + R.nodes.length - 1 [MOD R.nodes.length] := by
      refine Nat.ModEq.add_right_cancel' 1 (hk.trans ?_)
      rw [Nat.sub_add_cancel (by omega)]
      exact (Nat.add_modEq_right).symm
    refine .inr (.inl ⟨rfl, ?_⟩)
    rw [R.member_congr hpred, R.member_congr hk, R.member_congr (hk.add_right 1)]
    rfl
  · have hk : k + 2 ≡ i [MOD R.nodes.length] := R.nodeAddress_member.mp (by simpa using h)
    have hback : ∀ b ≤ 2, k + (2 - b) ≡ i + R.nodes.length - b [MOD R.nodes.length] := by
      intro b hb
      refine Nat.ModEq.add_right_cancel' b ?_
      rw [Nat.add_assoc, Nat.sub_add_cancel hb, Nat.sub_add_cancel (by omega)]
      exact hk.trans (Nat.add_modEq_right).symm
    have h₂ : k ≡ i + R.nodes.length - 2 [MOD R.nodes.length] := hback 2 (by omega)
    have h₁ : k + 1 ≡ i + R.nodes.length - 1 [MOD R.nodes.length] := hback 1 (by omega)
    refine .inr (.inr ⟨rfl, ?_⟩)
    rw [R.member_congr h₂, R.member_congr h₁, R.member_congr hk]
    rfl

end ProperRing

/-! ## One list -/

theorem findNodePosition_eq_neg_one {node : Node} {nodes : List Node} :
    findNodePosition node nodes = -1 ↔ ∀ n ∈ nodes, node.nodeHashCode ≠ n.nodeHashCode := by
  unfold findNodePosition
  cases hfind : nodes.findIdx? fun n => node.nodeHashCode = n.nodeHashCode with
  | none =>
      refine iff_of_true rfl fun n hn => ?_
      simpa using List.findIdx?_eq_none_iff.mp hfind n hn
  | some k =>
      refine iff_of_false (by simp) fun hnone => ?_
      obtain ⟨hk, hcode, -⟩ := List.findIdx?_eq_some_iff_getElem.mp hfind
      exact hnone _ (List.getElem_mem hk) (by simpa using hcode)

namespace World

variable {node added o : Node} {nodes : List Node}

theorem addNode_of_mem (h : ∃ n ∈ nodes, node.nodeHashCode = n.nodeHashCode) :
    addNode node added nodes = nodes := by
  rw [addNode, if_neg]
  intro hnone
  obtain ⟨n, hn, hcode⟩ := h
  exact findNodePosition_eq_neg_one.mp hnone n hn hcode

theorem addNode_of_not_mem (h : ∀ n ∈ nodes, node.nodeHashCode ≠ n.nodeHashCode) :
    addNode node added nodes = nodes ++ [added] := by
  rw [addNode, if_pos (findNodePosition_eq_neg_one.mpr h)]

theorem nodup_addNode (h : (nodes.map Node.nodeHashCode).Nodup) :
    ((addNode node node nodes).map Node.nodeHashCode).Nodup := by
  by_cases hmem : ∃ n ∈ nodes, node.nodeHashCode = n.nodeHashCode
  · rwa [addNode_of_mem hmem]
  · push Not at hmem
    rw [addNode_of_not_mem hmem, List.map_append, List.nodup_append]
    refine ⟨h, List.nodup_singleton _, ?_⟩
    intro c hc c' hc'
    obtain ⟨n, hn, rfl⟩ := List.mem_map.mp hc
    obtain rfl : c' = node.nodeHashCode := by simpa using hc'
    exact (hmem n hn).symm

theorem mem_addNode (h : o ∈ addNode node added nodes) : o ∈ nodes ∨ o = added := by
  unfold addNode at h
  split at h
  · simpa using h
  · exact .inl h

/-! ## One message -/

variable {hash : Str → Nat} {uninit role : ReplicaType} {self : Address} {m : Message}
  {w w' : World} {s : World × ReplicaType} {n₀ n₁ n₂ : Node}

/-- What a `CREATE` does to the lists. -/
theorem handle_create (htype : m.type = .create)
    (hfind : findNodes hash m.key (w.node self).ring = [n₀, n₁, n₂])
    (h : handle hash uninit self m (w, role) = some s) :
    (m.replica = .primary →
      (s.1.node self).hasMyReplicas =
          addNode n₂ n₂ (addNode n₁ n₁ (w.node self).hasMyReplicas) ∧
        (s.1.node self).haveReplicasOf = (w.node self).haveReplicasOf) ∧
    (m.replica = .secondary →
      (s.1.node self).hasMyReplicas = addNode n₂ n₀ (w.node self).hasMyReplicas ∧
        (s.1.node self).haveReplicasOf = addNode n₀ n₀ (w.node self).haveReplicasOf) ∧
    (m.replica = .tertiary →
      (s.1.node self).hasMyReplicas = (w.node self).hasMyReplicas ∧
        (s.1.node self).haveReplicasOf =
          addNode n₁ n₁ (addNode n₀ n₀ (w.node self).haveReplicasOf)) := by
  unfold handle at h
  simp only [htype, createKeyValue, HashTable.create, Option.bind_eq_bind,
    Option.bind_eq_some_iff, Option.pure_def, Option.some.injEq] at h
  obtain ⟨w₁, hnote, rfl⟩ := h
  refine ⟨fun hreplica => ?_, fun hreplica => ?_, fun hreplica => ?_⟩
  all_goals
    rw [hreplica] at hnote
    simp [noteReplicas, hfind] at hnote
    subst hnote
    simp [reply]

theorem handle_lists (htype : m.type ≠ .create)
    (h : handle hash uninit self m (w, role) = some s) :
    (s.1.node self).hasMyReplicas = (w.node self).hasMyReplicas ∧
      (s.1.node self).haveReplicasOf = (w.node self).haveReplicasOf := by
  unfold handle at h
  cases hcase : m.type with
  | create => exact absurd hcase htype
  | delete =>
      simp only [hcase, deletekey, Option.some.injEq] at h
      subst h
      simp [reply]
  | read =>
      simp only [hcase, readKey, Option.some.injEq] at h
      subst h
      by_cases hread : (w.node self).ht.read m.key = []
      all_goals simp [readReply, hread]
  | update =>
      simp only [hcase, updateKeyValue, HashTable.update_fst, Option.some.injEq] at h
      subst h
      by_cases hread : (w.node self).ht.read m.key = []
      all_goals simp [reply, hread]
  | reply | readreply | other n hn =>
      simp only [hcase, Option.some.injEq] at h
      subst h
      simp

end World

/-! ## A run -/

/-- The lists of member `i` are what their comments say: neighbours in the ring, none twice. -/
structure Neighbors (R : ProperRing) (i : Nat) (n : MP2Node) : Prop where
  nodup_hasMyReplicas : (n.hasMyReplicas.map Node.nodeHashCode).Nodup
  nodup_haveReplicasOf : (n.haveReplicasOf.map Node.nodeHashCode).Nodup
  hasMyReplicas : ∀ o ∈ n.hasMyReplicas, o = R.succ₁ i ∨ o = R.succ₂ i
  haveReplicasOf : ∀ o ∈ n.haveReplicasOf, o = R.pred₁ i ∨ o = R.pred₂ i

/-- A `CREATE` for member `i` names the place that this member has among the nodes of the key. -/
def Addressed (hash : Str → Nat) (R : ProperRing) (i : Nat) (m : Message) : Prop :=
  m.type = .create → ∃ d < 3, m.replica = rank d ∧
    (findNodes hash m.key R.nodes)[d]?.map Node.nodeAddress = some (R.member i).nodeAddress

/-- What member `i` has handled so far, in this order, and the state of the store.  Between two
messages anything else may happen that leaves its ring and its lists alone. -/
inductive Attends (hash : Str → Nat) (uninit : ReplicaType) (R : ProperRing) (i : Nat) :
    List Message → World → Prop
  | start {w : World} (hring : (w.node (R.member i).nodeAddress).ring = R.nodes)
      (hmine : (w.node (R.member i).nodeAddress).hasMyReplicas = [])
      (htheirs : (w.node (R.member i).nodeAddress).haveReplicasOf = []) :
      Attends hash uninit R i [] w
  | handle {messages : List Message} {w : World} {m : Message} {role : ReplicaType}
      {s : World × ReplicaType} (run : Attends hash uninit R i messages w)
      (haddressed : Addressed hash R i m)
      (h : World.handle hash uninit (R.member i).nodeAddress m (w, role) = some s) :
      Attends hash uninit R i (messages ++ [m]) s.1
  | other {messages : List Message} {w w' : World} (run : Attends hash uninit R i messages w)
      (hring : (w'.node (R.member i).nodeAddress).ring =
        (w.node (R.member i).nodeAddress).ring)
      (hmine : (w'.node (R.member i).nodeAddress).hasMyReplicas =
        (w.node (R.member i).nodeAddress).hasMyReplicas)
      (htheirs : (w'.node (R.member i).nodeAddress).haveReplicasOf =
        (w.node (R.member i).nodeAddress).haveReplicasOf) :
      Attends hash uninit R i messages w'

def Message.creates (replica : ReplicaType) (m : Message) : Bool :=
  decide (m.type = .create ∧ m.replica = replica)

/-- How often the node was a second replica before it was a first one. -/
def early (messages : List Message) : Nat :=
  (messages.takeWhile fun m => !m.creates .primary).countP (Message.creates .secondary)

namespace Attends

variable {hash : Str → Nat} {uninit role : ReplicaType} {R : ProperRing} {i : Nat}
  {messages new : List Message} {w w' : World}

theorem popLoop {queue : List Str} {s : World × ReplicaType}
    (run : Attends hash uninit R i messages w)
    (hread : queue.map (Message.ofString uninit) = new.map some)
    (haddressed : ∀ m ∈ new, Addressed hash R i m)
    (h : World.popLoop hash uninit (R.member i).nodeAddress queue (w, role) = some s) :
    Attends hash uninit R i (messages ++ new) s.1 := by
  induction queue generalizing messages new w role with
  | nil =>
      obtain rfl := List.map_eq_nil_iff.mp hread.symm
      obtain rfl := Option.some.inj h
      rwa [List.append_nil]
  | cons text queue ih =>
      obtain _ | ⟨m, new⟩ := new
      · simp at hread
      obtain ⟨htext, hread⟩ := List.cons_eq_cons.mp hread
      simp only [World.popLoop, htext, Option.bind_eq_bind, Option.bind_some] at h
      obtain ⟨⟨w₁, role₁⟩, hhandle, h⟩ := Option.bind_eq_some_iff.mp h
      have hpopped : Attends hash uninit R i messages
          (w.modifyNode (R.member i).nodeAddress fun n => { n with mp2q := queue }) :=
        run.other (by simp) (by simp) (by simp)
      have hhandled := hpopped.handle (haddressed m List.mem_cons_self) hhandle
      have hrest := ih hhandled hread
        (fun m' hm' => haddressed m' (List.mem_cons_of_mem m hm')) h
      rwa [List.append_assoc] at hrest

theorem checkMessages (run : Attends hash uninit R i messages w)
    (hread : (w.node (R.member i).nodeAddress).mp2q.map (Message.ofString uninit) =
      new.map some)
    (haddressed : ∀ m ∈ new, Addressed hash R i m)
    (h : w.checkMessages hash uninit (R.member i).nodeAddress = some w') :
    Attends hash uninit R i (messages ++ new) w' := by
  unfold World.checkMessages at h
  simp only [Option.bind_eq_bind, Option.bind_eq_some_iff] at h
  obtain ⟨s, hloop, w₁, hupdate, hreads⟩ := h
  have hframe := congrArg (fun v => v.node (R.member i).nodeAddress)
    (World.checkUpdateOperations_frame hupdate)
  have hframe' := congrArg (fun v => v.node (R.member i).nodeAddress)
    (World.checkReadOperations_eq hreads)
  simp only [World.node_modifyNode_self] at hframe hframe'
  refine (run.popLoop hread haddressed hloop).other ?_ ?_ ?_
  all_goals rw [hframe', hframe]

end Attends

/-! ## What the lists hold -/

section

variable (R : ProperRing) (i : Nat) {messages : List Message} {m : Message}

/-- What `hasMyReplicas` holds: the predecessor once for each early message, and from the first
`CREATE` as first replica on the successors. -/
def replicaHolders (messages : List Message) : List Node :=
  List.replicate (early messages) (R.pred₁ i) ++
    if messages.any (Message.creates .primary) then
      if R.nodes.length = 3 ∧ 0 < early messages then [R.succ₁ i] else [R.succ₁ i, R.succ₂ i]
    else []

theorem creates_secondary_of_primary (h : m.creates .primary = true) :
    m.creates .secondary = false := by
  have hprimary := of_decide_eq_true h
  exact decide_eq_false fun hsecondary => absurd (hprimary.2.symm.trans hsecondary.2) (by decide)

theorem early_concat (messages : List Message) (m : Message) : early (messages ++ [m]) =
    if messages.any (Message.creates .primary) = false ∧ m.creates .secondary = true then
      early messages + 1 else early messages := by
  induction messages with
  | nil =>
      cases hm : m.creates .primary with
      | true => simp [early, hm, creates_secondary_of_primary hm]
      | false => cases hsecond : m.creates .secondary <;> simp [early, hm, hsecond]
  | cons m' messages ih =>
      cases hm' : m'.creates .primary with
      | true => simp [early, hm']
      | false =>
          unfold early at ih ⊢
          simp only [List.cons_append, List.takeWhile_cons, hm', Bool.not_false, if_true,
            List.countP_cons, ih, List.any_cons, Bool.false_or]
          split <;> omega

theorem any_concat (messages : List Message) (m : Message) :
    (messages ++ [m]).any (Message.creates .primary) =
      (messages.any (Message.creates .primary) || m.creates .primary) := by
  rw [List.any_append, List.any_cons, List.any_nil, Bool.or_false]

/-- Once the node has been a first replica both its successors are found in the list. -/
theorem mem_replicaHolders (h : messages.any (Message.creates .primary) = true) :
    (∃ n ∈ replicaHolders R i messages, (R.succ₁ i).nodeHashCode = n.nodeHashCode) ∧
      ∃ n ∈ replicaHolders R i messages, (R.succ₂ i).nodeHashCode = n.nodeHashCode := by
  unfold replicaHolders
  rw [if_pos h]
  split
  case isTrue hsmall =>
    refine ⟨⟨R.succ₁ i, by simp, rfl⟩, R.pred₁ i, ?_, (R.succ₂_eq_pred₁ i).mpr hsmall.1⟩
    exact List.mem_append_left _ (List.mem_replicate.mpr ⟨by omega, rfl⟩)
  case isFalse => exact ⟨⟨R.succ₁ i, by simp, rfl⟩, R.succ₂ i, by simp, rfl⟩

theorem replicaHolders_primary (hm : m.creates .primary = true) :
    replicaHolders R i (messages ++ [m]) = World.addNode (R.succ₂ i) (R.succ₂ i)
      (World.addNode (R.succ₁ i) (R.succ₁ i) (replicaHolders R i messages)) := by
  have hearly : early (messages ++ [m]) = early messages := by
    rw [early_concat, if_neg (by simp [creates_secondary_of_primary hm])]
  cases hfirst : messages.any (Message.creates .primary) with
  | true =>
      obtain ⟨hmem₁, hmem₂⟩ := mem_replicaHolders R i hfirst
      rw [World.addNode_of_mem hmem₁, World.addNode_of_mem hmem₂, replicaHolders, hearly,
        any_concat, hfirst, hm, replicaHolders, hfirst]
      rfl
  | false =>
      have hlist : replicaHolders R i messages =
          List.replicate (early messages) (R.pred₁ i) := by simp [replicaHolders, hfirst]
      have hnot : ∀ n ∈ replicaHolders R i messages,
          (R.succ₁ i).nodeHashCode ≠ n.nodeHashCode := by
        intro n hn
        rw [hlist] at hn
        rw [List.eq_of_mem_replicate hn]
        exact R.succ₁_ne_pred₁ i
      rw [World.addNode_of_not_mem hnot, hlist, replicaHolders, hearly, any_concat, hm,
        Bool.or_true, if_pos rfl]
      split
      case isTrue hsmall =>
        -- the predecessor is in the list, and it is the second successor
        have hmem : ∃ n ∈ List.replicate (early messages) (R.pred₁ i) ++ [R.succ₁ i],
            (R.succ₂ i).nodeHashCode = n.nodeHashCode := by
          refine ⟨R.pred₁ i, ?_, (R.succ₂_eq_pred₁ i).mpr hsmall.1⟩
          exact List.mem_append_left _ (List.mem_replicate.mpr ⟨by omega, rfl⟩)
        rw [World.addNode_of_mem hmem]
      case isFalse hlarge =>
        rw [World.addNode_of_not_mem, List.append_assoc]
        · rfl
        · intro n hn
          rcases List.mem_append.mp hn with hn | hn
          · obtain ⟨hpos, rfl⟩ := List.mem_replicate.mp hn
            intro heq
            exact hlarge ⟨(R.succ₂_eq_pred₁ i).mp heq, by omega⟩
          · rw [List.mem_singleton.mp hn]
            exact (R.succ₁_ne_succ₂ i).symm

theorem replicaHolders_secondary (hm : m.creates .secondary = true) :
    replicaHolders R i (messages ++ [m]) =
      World.addNode (R.succ₁ i) (R.pred₁ i) (replicaHolders R i messages) := by
  have hprimary : m.creates .primary = false := by
    cases hcase : m.creates .primary with
    | false => rfl
    | true => rw [creates_secondary_of_primary hcase] at hm; cases hm
  cases hfirst : messages.any (Message.creates .primary) with
  | true =>
      rw [World.addNode_of_mem (mem_replicaHolders R i hfirst).1, replicaHolders, early_concat,
        any_concat, if_neg (by simp [hfirst]), hprimary, Bool.or_false, replicaHolders]
  | false =>
      have hlist : replicaHolders R i messages =
          List.replicate (early messages) (R.pred₁ i) := by simp [replicaHolders, hfirst]
      rw [World.addNode_of_not_mem, hlist, replicaHolders, early_concat, any_concat,
        if_pos ⟨hfirst, hm⟩, hfirst, hprimary, List.replicate_succ']
      · exact List.append_nil _
      · intro n hn
        rw [hlist] at hn
        rw [List.eq_of_mem_replicate hn]
        exact R.succ₁_ne_pred₁ i

theorem replicaHolders_other (hprimary : m.creates .primary = false)
    (hsecondary : m.creates .secondary = false) :
    replicaHolders R i (messages ++ [m]) = replicaHolders R i messages := by
  rw [replicaHolders, early_concat, any_concat, if_neg (by simp [hsecondary]), hprimary,
    Bool.or_false, replicaHolders]

theorem nodup_replicaHolders (h : early messages = 0 ∨ R.nodes.length = 3 ∧ early messages ≤ 1) :
    ((replicaHolders R i messages).map Node.nodeHashCode).Nodup := by
  have hsucc := R.succ₁_ne_succ₂ i
  have hpred := (R.succ₁_ne_pred₁ i).symm
  unfold replicaHolders
  obtain hzero | ⟨hthree, hone⟩ : early messages = 0 ∨ R.nodes.length = 3 ∧ early messages = 1 := by
    omega
  · rw [hzero]
    split
    · rw [if_neg (by omega)]
      simpa using hsucc
    · simp
  · rw [hone]
    split
    · rw [if_pos ⟨hthree, by decide⟩]
      simpa using hpred
    · simp

theorem succ_of_mem_replicaHolders {o : Node}
    (h : early messages = 0 ∨ R.nodes.length = 3 ∧ early messages ≤ 1)
    (ho : o ∈ replicaHolders R i messages) : o = R.succ₁ i ∨ o = R.succ₂ i := by
  unfold replicaHolders at ho
  rcases List.mem_append.mp ho with ho | ho
  · obtain ⟨hpos, rfl⟩ := List.mem_replicate.mp ho
    have hthree : R.nodes.length = 3 := by omega
    exact .inr (R.eq_of_nodeHashCode (R.member_mem _) (R.member_mem _)
      ((R.succ₂_eq_pred₁ i).mpr hthree).symm)
  · split at ho
    · split at ho
      · exact .inl (List.mem_singleton.mp ho)
      · simpa using ho
    · cases ho

/-- An early message is no harm only in a ring of three, where the predecessor is a successor,
and only once. -/
theorem early_of_replicaHolders
    (hnodup : ((replicaHolders R i messages).map Node.nodeHashCode).Nodup)
    (hsucc : ∀ o ∈ replicaHolders R i messages, o = R.succ₁ i ∨ o = R.succ₂ i) :
    early messages = 0 ∨ R.nodes.length = 3 ∧ early messages ≤ 1 := by
  by_cases hzero : early messages = 0
  · exact .inl hzero
  · have hmem : R.pred₁ i ∈ replicaHolders R i messages :=
      List.mem_append_left _ (List.mem_replicate.mpr ⟨hzero, rfl⟩)
    have hthree : R.nodes.length = 3 := by
      rcases hsucc _ hmem with heq | heq
      · exact absurd (congrArg Node.nodeHashCode heq.symm) (R.succ₁_ne_pred₁ i)
      · exact (R.succ₂_eq_pred₁ i).mp (congrArg Node.nodeHashCode heq.symm)
    have hreplicate : (List.replicate (early messages) (R.pred₁ i)).Nodup :=
      hnodup.of_map.sublist (List.sublist_append_left _ _)
    exact .inr ⟨hthree, List.nodup_replicate.mp hreplicate⟩

end

namespace Attends

variable {hash : Str → Nat} {uninit : ReplicaType} {R : ProperRing} {i : Nat}
  {messages : List Message} {w : World}

theorem ring_eq (run : Attends hash uninit R i messages w) :
    (w.node (R.member i).nodeAddress).ring = R.nodes := by
  induction run with
  | start hring => exact hring
  | handle _ _ h ih => rw [(World.handled_handle h).ring, ih]
  | other _ hring _ _ ih => rw [hring, ih]

/-- A message for the member is for its place among the nodes of the key. -/
theorem handle_cases {m : Message} {role : ReplicaType} {s : World × ReplicaType}
    (run : Attends hash uninit R i messages w) (haddressed : Addressed hash R i m)
    (h : World.handle hash uninit (R.member i).nodeAddress m (w, role) = some s) :
    let before := w.node (R.member i).nodeAddress
    let after := s.1.node (R.member i).nodeAddress
    (m.creates .primary = true ∧
        after.hasMyReplicas = World.addNode (R.succ₂ i) (R.succ₂ i)
          (World.addNode (R.succ₁ i) (R.succ₁ i) before.hasMyReplicas) ∧
        after.haveReplicasOf = before.haveReplicasOf) ∨
      (m.creates .secondary = true ∧
        after.hasMyReplicas =
          World.addNode (R.succ₁ i) (R.pred₁ i) before.hasMyReplicas ∧
        after.haveReplicasOf =
          World.addNode (R.pred₁ i) (R.pred₁ i) before.haveReplicasOf) ∨
      (m.creates .primary = false ∧ m.creates .secondary = false ∧
        after.hasMyReplicas = before.hasMyReplicas ∧
        (after.haveReplicasOf = before.haveReplicasOf ∨
          after.haveReplicasOf = World.addNode (R.pred₁ i) (R.pred₁ i)
            (World.addNode (R.pred₂ i) (R.pred₂ i) before.haveReplicasOf))) := by
  intro before after
  by_cases htype : m.type = .create
  · obtain ⟨d, hd, hreplica, hplace⟩ := haddressed htype
    have hring := run.ring_eq
    rcases R.findNodes_of_rank hd hplace with ⟨rfl, hfind⟩ | ⟨rfl, hfind⟩ | ⟨rfl, hfind⟩
    all_goals
      rw [← hring] at hfind
      obtain ⟨hfirst, hsecond, hthird⟩ := World.handle_create htype hfind h
    · exact .inl ⟨decide_eq_true ⟨htype, hreplica⟩, hfirst hreplica⟩
    · exact .inr (.inl ⟨decide_eq_true ⟨htype, hreplica⟩, hsecond hreplica⟩)
    · obtain ⟨hmine, htheirs⟩ := hthird hreplica
      refine .inr (.inr ⟨decide_eq_false fun hm => ?_, decide_eq_false fun hm => ?_, hmine,
        .inr htheirs⟩)
      · exact absurd (hreplica.symm.trans hm.2) (by decide)
      · exact absurd (hreplica.symm.trans hm.2) (by decide)
  · obtain ⟨hmine, htheirs⟩ := World.handle_lists htype h
    exact .inr (.inr ⟨decide_eq_false fun hm => htype hm.1, decide_eq_false fun hm => htype hm.1,
      hmine, .inl htheirs⟩)

theorem hasMyReplicas_eq (run : Attends hash uninit R i messages w) :
    (w.node (R.member i).nodeAddress).hasMyReplicas = replicaHolders R i messages := by
  induction run with
  | start _ hmine => exact hmine
  | other _ _ hmine _ ih => rw [hmine, ih]
  | handle run haddressed h ih =>
      rcases run.handle_cases haddressed h with
        ⟨hm, hmine, -⟩ | ⟨hm, hmine, -⟩ | ⟨hprimary, hsecondary, hmine, -⟩
      · rw [hmine, ih, replicaHolders_primary R i hm]
      · rw [hmine, ih, replicaHolders_secondary R i hm]
      · rw [hmine, ih, replicaHolders_other R i hprimary hsecondary]

theorem haveReplicasOf_ok (run : Attends hash uninit R i messages w) :
    ((w.node (R.member i).nodeAddress).haveReplicasOf.map Node.nodeHashCode).Nodup ∧
      ∀ o ∈ (w.node (R.member i).nodeAddress).haveReplicasOf,
        o = R.pred₁ i ∨ o = R.pred₂ i := by
  have hadd : ∀ {n : Node} {nodes : List Node}, n = R.pred₁ i ∨ n = R.pred₂ i →
      ((nodes.map Node.nodeHashCode).Nodup ∧ ∀ o ∈ nodes, o = R.pred₁ i ∨ o = R.pred₂ i) →
      (((World.addNode n n nodes).map Node.nodeHashCode).Nodup ∧
        ∀ o ∈ World.addNode n n nodes, o = R.pred₁ i ∨ o = R.pred₂ i) := by
    intro n nodes hn ⟨hnodup, hpred⟩
    refine ⟨World.nodup_addNode hnodup, fun o ho => ?_⟩
    rcases World.mem_addNode ho with ho | rfl
    · exact hpred o ho
    · exact hn
  induction run with
  | start _ _ htheirs => simp [htheirs]
  | other _ _ _ htheirs ih => rwa [htheirs]
  | handle run haddressed h ih =>
      rcases run.handle_cases haddressed h with
        ⟨-, -, htheirs⟩ | ⟨-, -, htheirs⟩ | ⟨-, -, -, htheirs | htheirs⟩
      · rwa [htheirs]
      · rw [htheirs]
        exact hadd (.inl rfl) ih
      · rwa [htheirs]
      · rw [htheirs]
        exact hadd (.inl rfl) (hadd (.inr rfl) ih)

theorem neighbors_of_early (run : Attends hash uninit R i messages w)
    (h : early messages = 0 ∨ R.nodes.length = 3 ∧ early messages ≤ 1) :
    Neighbors R i (w.node (R.member i).nodeAddress) := by
  obtain ⟨hnodup, hpred⟩ := run.haveReplicasOf_ok
  constructor
  · rw [run.hasMyReplicas_eq]
    exact nodup_replicaHolders R i h
  · exact hnodup
  · rw [run.hasMyReplicas_eq]
    exact fun o ho => succ_of_mem_replicaHolders R i h ho
  · exact hpred

theorem early_of_neighbors (run : Attends hash uninit R i messages w)
    (h : Neighbors R i (w.node (R.member i).nodeAddress)) :
    early messages = 0 ∨ R.nodes.length = 3 ∧ early messages ≤ 1 := by
  have hnodup := h.nodup_hasMyReplicas
  have hsucc := h.hasMyReplicas
  rw [run.hasMyReplicas_eq] at hnodup hsucc
  exact early_of_replicaHolders R i hnodup hsucc

/-- The lists hold neighbours, none twice, as long as the node was a first replica before it was
a second one, or in a ring of three a second one just once before. -/
theorem neighbors_iff (run : Attends hash uninit R i messages w) :
    Neighbors R i (w.node (R.member i).nodeAddress) ↔
      early messages = 0 ∨ R.nodes.length = 3 ∧ early messages ≤ 1 :=
  ⟨run.early_of_neighbors, run.neighbors_of_early⟩

/-! ## Four nodes -/

open World

def four : ProperRing :=
  ⟨SortedRing.fourRing.nodes, SortedRing.fourRing.three, by decide +kernel, by decide +kernel,
    SortedRing.fourRing.addresses⟩

/-- Member `i` has one `CREATE` of the key `k` in its queue, as this replica. -/
def fourNodes (i : Nat) (replica : ReplicaType) : World :=
  World.initial.setNode (four.member i).nodeAddress
    { MP2Node.new with ring := four.nodes, mp2q := [(sampleCreate ['k'] replica).toString] }

theorem checkMessages_fourNodes {d : Nat} (hd : d < 3) :
    ∃ w', (fourNodes d (rank d)).checkMessages sampleHash .primary
        (four.member d).nodeAddress = some w' ∧
      Attends sampleHash .primary four d [sampleCreate ['k'] (rank d)] w' := by
  have hcall : ∀ d < 3, ((fourNodes d (rank d)).checkMessages sampleHash .primary
      (four.member d).nodeAddress).isSome = true := by decide +kernel
  have hread : ∀ d < 3, Message.ofString .primary (sampleCreate ['k'] (rank d)).toString =
      some (sampleCreate ['k'] (rank d)) := by decide +kernel
  have hplace : ∀ d < 3, (findNodes sampleHash ['k'] four.nodes)[d]?.map Node.nodeAddress =
      some (four.member d).nodeAddress := by decide +kernel
  obtain ⟨w', hw'⟩ := Option.isSome_iff_exists.mp (hcall d hd)
  have hstart : Attends sampleHash .primary four d [] (fourNodes d (rank d)) :=
    .start (by simp [fourNodes, World.setNode]) (by simp [fourNodes, World.setNode, MP2Node.new])
      (by simp [fourNodes, World.setNode, MP2Node.new])
  have hqueue : ((fourNodes d (rank d)).node (four.member d).nodeAddress).mp2q.map
      (Message.ofString .primary) = [sampleCreate ['k'] (rank d)].map some := by
    simp [fourNodes, World.setNode, hread d hd]
  have haddressed : ∀ m ∈ [sampleCreate ['k'] (rank d)], Addressed sampleHash four d m := by
    intro m hm _
    obtain rfl := List.mem_singleton.mp hm
    exact ⟨d, hd, rfl, hplace d hd⟩
  exact ⟨w', hw', hstart.checkMessages hqueue haddressed hw'⟩

theorem neighbors_iff_four : ∃ w', (fourNodes 0 (rank 0)).checkMessages sampleHash .primary
      (four.member 0).nodeAddress = some w' ∧
    (Neighbors four 0 (w'.node (four.member 0).nodeAddress) ↔
      early [sampleCreate ['k'] (rank 0)] = 0 ∨
        four.nodes.length = 3 ∧ early [sampleCreate ['k'] (rank 0)] ≤ 1) := by
  obtain ⟨w', hw', run⟩ := checkMessages_fourNodes (show 0 < 3 by decide)
  exact ⟨w', hw', run.neighbors_iff⟩

/-- The second of four nodes, second replica of its first key, takes the first for its
successor. -/
theorem not_neighbors_four : ¬ ∀ (hash : Str → Nat) (uninit : ReplicaType) (R : ProperRing)
    (i : Nat) (messages : List Message) (w : World), Attends hash uninit R i messages w →
    Neighbors R i (w.node (R.member i).nodeAddress) := by
  intro hall
  obtain ⟨w', -, run⟩ := checkMessages_fourNodes (show 1 < 3 by decide)
  have hearly := run.early_of_neighbors (hall _ _ _ _ _ _ run)
  exact absurd hearly (by decide +kernel)

end Attends

end CloudComputing.KeyValueStore
