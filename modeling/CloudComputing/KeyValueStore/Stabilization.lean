import CloudComputing.KeyValueStore.Pending

/-!
# What stabilization does with one key

`Stabilized` lists the outcomes of one turn of the loop of
`stabilizationProtocol`: hand the key over and erase it, or rewrite the own entry
and send copies to other nodes.  Which copies depends on the own rank only.
-/

namespace CloudComputing.KeyValueStore

open Lib

/-- What is sent to another node about a key. -/
structure Copy where
  toAddr : Address
  type : MessageType
  replica : ReplicaType
deriving DecidableEq

namespace Copy

def message (c : Copy) (self : Address) (key value : Str) (transID : Int32) : Message :=
  ⟨c.type, c.replica, key, value, self, transID, false⟩

def unlessSame (new old : Node) (replica : ReplicaType) : List Copy :=
  if old.nodeAddress = new.nodeAddress then [] else [⟨new.nodeAddress, .create, replica⟩]

/-- To the three nodes of a key from one that is none of them. -/
def ofStranger (n₀ n₁ n₂ : Node) : List Copy :=
  [⟨n₀.nodeAddress, .create, .primary⟩, ⟨n₁.nodeAddress, .create, .secondary⟩,
    ⟨n₂.nodeAddress, .create, .tertiary⟩]

/-- From the first node. -/
def ofPrimary (n₁ n₂ o₁ o₂ : Node) : List Copy :=
  (if n₁.nodeAddress = o₂.nodeAddress then [⟨o₂.nodeAddress, .update, .secondary⟩]
    else unlessSame n₁ o₁ .secondary) ++
  (if n₂.nodeAddress = o₁.nodeAddress then [⟨o₁.nodeAddress, .update, .tertiary⟩]
    else unlessSame n₂ o₂ .tertiary)

/-- From the second node; the `TERTIARY` copy goes to the second node. -/
def ofSecondary (n₁ o₁ newPred oldPred : Node) : List Copy :=
  unlessSame n₁ o₁ .tertiary ++ unlessSame newPred oldPred .primary

/-- From the third node. -/
def ofTertiary (newPred₂ oldPred₂ newPred₁ oldPred₁ : Node) : List Copy :=
  unlessSame newPred₂ oldPred₂ .primary ++ unlessSame newPred₁ oldPred₁ .secondary

theorem type_unlessSame {new old : Node} {replica : ReplicaType} {c : Copy}
    (h : c ∈ unlessSame new old replica) : c.type = .create := by
  unfold unlessSame at h
  split at h
  · cases h
  · rw [List.mem_singleton.mp h]

theorem type_ofStranger {n₀ n₁ n₂ : Node} {c : Copy} (h : c ∈ ofStranger n₀ n₁ n₂) :
    c.type = .create := by
  simp only [ofStranger, List.mem_cons, List.not_mem_nil, or_false] at h
  rcases h with rfl | rfl | rfl <;> rfl

theorem type_ofPrimary {n₁ n₂ o₁ o₂ : Node} {c : Copy} (h : c ∈ ofPrimary n₁ n₂ o₁ o₂) :
    c.type = .create ∨ c.type = .update := by
  unfold ofPrimary at h
  rcases List.mem_append.mp h with h | h
  all_goals
    split at h
    · exact Or.inr (by rw [List.mem_singleton.mp h])
    · exact Or.inl (type_unlessSame h)

theorem type_ofSecondary {n₁ o₁ newPred oldPred : Node} {c : Copy}
    (h : c ∈ ofSecondary n₁ o₁ newPred oldPred) : c.type = .create := by
  rcases List.mem_append.mp h with h | h <;> exact type_unlessSame h

theorem type_ofTertiary {newPred₂ oldPred₂ newPred₁ oldPred₁ : Node} {c : Copy}
    (h : c ∈ ofTertiary newPred₂ oldPred₂ newPred₁ oldPred₁) : c.type = .create := by
  rcases List.mem_append.mp h with h | h <;> exact type_unlessSame h

theorem toAddr_unlessSame {new old : Node} {replica : ReplicaType} {c : Copy}
    (h : c ∈ unlessSame new old replica) : c.toAddr = new.nodeAddress := by
  unfold unlessSame at h
  split at h
  · cases h
  · rw [List.mem_singleton.mp h]

theorem toAddr_ofPrimary {n₁ n₂ o₁ o₂ : Node} {c : Copy} (h : c ∈ ofPrimary n₁ n₂ o₁ o₂) :
    c.toAddr = n₁.nodeAddress ∨ c.toAddr = n₂.nodeAddress := by
  unfold ofPrimary at h
  rcases List.mem_append.mp h with h | h
  · split at h
    case isTrue heq => exact Or.inl (by rw [List.mem_singleton.mp h, heq])
    case isFalse => exact Or.inl (toAddr_unlessSame h)
  · split at h
    case isTrue heq => exact Or.inr (by rw [List.mem_singleton.mp h, heq])
    case isFalse => exact Or.inr (toAddr_unlessSame h)

theorem toAddr_ofSecondary {n₁ o₁ newPred oldPred : Node} {c : Copy}
    (h : c ∈ ofSecondary n₁ o₁ newPred oldPred) :
    c.toAddr = n₁.nodeAddress ∨ c.toAddr = newPred.nodeAddress :=
  (List.mem_append.mp h).imp toAddr_unlessSame toAddr_unlessSame

theorem toAddr_ofTertiary {newPred₂ oldPred₂ newPred₁ oldPred₁ : Node} {c : Copy}
    (h : c ∈ ofTertiary newPred₂ oldPred₂ newPred₁ oldPred₁) :
    c.toAddr = newPred₂.nodeAddress ∨ c.toAddr = newPred₁.nodeAddress :=
  (List.mem_append.mp h).imp toAddr_unlessSame toAddr_unlessSame

end Copy

namespace World

def sendCopies (self : Address) (key value : Str) (copies : List Copy) (w : World) : World :=
  copies.foldl (fun w c => w.sendMessage self c.toAddr key value c.type c.replica) w

section

variable {self : Address} {key key' value : Str} {copies copies' : List Copy} {w : World}
  {c : Copy} {p : Packet}

@[simp] theorem sendCopies_nil : w.sendCopies self key value [] = w := rfl

theorem sendCopies_cons : w.sendCopies self key value (c :: copies) =
    (w.sendMessage self c.toAddr key value c.type c.replica).sendCopies self key value copies := rfl

theorem sendCopies_append : w.sendCopies self key value (copies ++ copies') =
    (w.sendCopies self key value copies).sendCopies self key value copies' := by
  simp [sendCopies]

theorem sendUnlessSame_eq {new old : Node} {replica : ReplicaType} :
    w.sendUnlessSame self new old key value replica =
      w.sendCopies self key value (Copy.unlessSame new old replica) := by
  unfold sendUnlessSame Copy.unlessSame
  split <;> rfl

@[simp] theorem node_sendCopies : (w.sendCopies self key value copies).node = w.node := by
  induction copies generalizing w with
  | nil => rfl
  | cons c copies ih => rw [sendCopies_cons, ih]; rfl

@[simp] theorem currtime_sendCopies :
    (w.sendCopies self key value copies).currtime = w.currtime := by
  induction copies generalizing w with
  | nil => rfl
  | cons c copies ih => rw [sendCopies_cons, ih]; rfl

@[simp] theorem trace_sendCopies : (w.sendCopies self key value copies).trace = w.trace := by
  induction copies generalizing w with
  | nil => rfl
  | cons c copies ih => rw [sendCopies_cons, ih]; rfl

theorem mem_net_sendCopies (h : p ∈ (w.sendCopies self key value copies).net) :
    p ∈ w.net ∨ ∃ c ∈ copies, ∃ transID,
      p = ⟨self, c.toAddr, (c.message self key value transID).toString⟩ := by
  induction copies generalizing w with
  | nil => exact Or.inl h
  | cons c copies ih =>
      rw [sendCopies_cons] at h
      rcases ih h with hnet | ⟨c', hc', hp⟩
      · rcases List.mem_append.mp hnet with hold | hnew
        · exact Or.inl hold
        · exact Or.inr ⟨c, List.mem_cons_self, _, List.mem_singleton.mp hnew⟩
      · exact Or.inr ⟨c', List.mem_cons_of_mem _ hc', hp⟩

theorem net_sendCopies (self : Address) (key value : Str) (copies : List Copy) (w : World) :
    ∃ sent, (w.sendCopies self key value copies).net = w.net ++ sent ∧ ∀ c ∈ copies, ∃ transID,
      ⟨self, c.toAddr, (c.message self key value transID).toString⟩ ∈ sent := by
  induction copies generalizing w with
  | nil => exact ⟨[], (List.append_nil _).symm, fun c hc => by cases hc⟩
  | cons c copies ih =>
      rw [sendCopies_cons]
      obtain ⟨sent, hnet, hsent⟩ := ih (w.sendMessage self c.toAddr key value c.type c.replica)
      let packet : Packet :=
        ⟨self, c.toAddr, (c.message self key value w.nextTransID.gTransID).toString⟩
      refine ⟨packet :: sent, ?_, ?_⟩
      · rw [hnet]
        exact List.append_assoc _ [packet] sent
      · intro c' hc'
        rcases List.mem_cons.mp hc' with rfl | hmem
        · exact ⟨_, List.mem_cons_self⟩
        · obtain ⟨t, ht⟩ := hsent c' hmem
          exact ⟨t, List.mem_cons_of_mem _ ht⟩

theorem net_subset_sendCopies (h : p ∈ w.net) : p ∈ (w.sendCopies self key value copies).net := by
  obtain ⟨sent, hnet, -⟩ := net_sendCopies self key value copies w
  rw [hnet]
  exact List.mem_append_left _ h

theorem sent_sendCopies (h : c ∈ copies) : ∃ transID,
    ⟨self, c.toAddr, (c.message self key value transID).toString⟩ ∈
      (w.sendCopies self key value copies).net := by
  obtain ⟨sent, hnet, hsent⟩ := net_sendCopies self key value copies w
  obtain ⟨t, ht⟩ := hsent c h
  rw [hnet]
  exact ⟨t, List.mem_append_right _ ht⟩

/-! ## The own entry -/

/-- The table after `rewrite`; an empty entry cannot be updated. -/
theorem get?_rewrite {replica : ReplicaType} (h : (w.node self).ht.get? key = some value) :
    ((w.rewrite self key value replica).node self).ht.get? key' =
      if key' = key ∧ value ≠ [] then some (Entry.convertToString ⟨value, w.currtime, replica⟩)
      else (w.node self).ht.get? key' := by
  have hread : (w.node self).ht.read key = value := by rw [HashTable.read_eq, h, Option.getD_some]
  unfold rewrite updateKeyValue
  by_cases hv : value = []
  · simp [HashTable.update_fst, HashTable.get?_update, hread, hv]
  · simp [HashTable.update_fst, HashTable.get?_update, hread, hv]
theorem trace_rewrite {replica : ReplicaType} (h : (w.node self).ht.get? key = some value) :
    (w.rewrite self key value replica).trace = w.trace ++
      ((if value ≠ [] then [.stored self w.nextTransID.gTransID key value
        (Entry.convertToString ⟨value, w.currtime, replica⟩)] else []) ++
      [.logged ⟨self, false, .update, decide (value ≠ []), w.nextTransID.gTransID, key, value,
        w.currtime⟩]) := by
  have hread : (w.node self).ht.read key = value := by rw [HashTable.read_eq, h, Option.getD_some]
  unfold rewrite updateKeyValue
  by_cases hv : value = []
  · simp [HashTable.update_fst, hread, hv]
  · simp [HashTable.update_fst, hread, hv]

theorem quiet_rewrite (replica : ReplicaType) (h : (w.node self).ht.get? key = some value) :
    ∃ l, (w.rewrite self key value replica).trace = w.trace ++ l ∧
      ∀ e, .logged e ∈ l → e.isCoordinator = false := by
  refine ⟨_, trace_rewrite h, fun e he => ?_⟩
  split at he
  · simp only [List.cons_append, List.nil_append, List.mem_cons, reduceCtorEq,
      Event.logged.injEq, List.not_mem_nil, or_false, false_or] at he
    rw [he]
  · simp only [List.nil_append, List.mem_singleton, Event.logged.injEq] at he
    rw [he]

/-- A key with an empty text is not erased. -/
theorem modifyNode_deleteKey (h : (w.node self).ht.read key = []) :
    (w.modifyNode self fun n => { n with ht := (n.ht.deleteKey key).2 }) = w := by
  unfold modifyNode setNode
  dsimp only
  rw [HashTable.deleteKey_of_read_nil h, Function.update_eq_self]

end

/-- What one turn of the loop of `stabilizationProtocol` did to `w`. -/
inductive Stabilized (self : Address) (newRing : List Node) (key value : Str)
    (old : List Node) (n₀ n₁ n₂ : Node) (w : World) : World → Prop
  | handOver (hpos : ownPos self [n₀, n₁, n₂] = none) :
      Stabilized self newRing key value old n₀ n₁ n₂ w
        ((w.sendCopies self key value (Copy.ofStranger n₀ n₁ n₂)).modifyNode self fun n =>
          { n with ht := (n.ht.deleteKey key).2 })
  | asPrimary (o₁ o₂ : Node) (hpos : ownPos self [n₀, n₁, n₂] = some 0)
      (ho₁ : old[1]? = some o₁) (ho₂ : old[2]? = some o₂) :
      Stabilized self newRing key value old n₀ n₁ n₂ w
        ((w.rewrite self key value .primary).sendCopies self key value
          (Copy.ofPrimary n₁ n₂ o₁ o₂))
  | asSecondary (o₁ newPred oldPred : Node) (hpos : ownPos self [n₀, n₁, n₂] = some 1)
      (ho₁ : old[1]? = some o₁) (hnew : predecessor self newRing 1 = some newPred)
      (hold : predecessor self (w.node self).ring 1 = some oldPred) :
      Stabilized self newRing key value old n₀ n₁ n₂ w
        ((w.rewrite self key value .secondary).sendCopies self key value
          (Copy.ofSecondary n₁ o₁ newPred oldPred))
  | asTertiary (newPred₂ oldPred₂ newPred₁ oldPred₁ : Node)
      (hpos : ownPos self [n₀, n₁, n₂] = some 2)
      (hnew₂ : predecessor self newRing 2 = some newPred₂)
      (hold₂ : predecessor self (w.node self).ring 2 = some oldPred₂)
      (hnew₁ : predecessor self newRing 1 = some newPred₁)
      (hold₁ : predecessor self (w.node self).ring 1 = some oldPred₁) :
      Stabilized self newRing key value old n₀ n₁ n₂ w
        ((w.rewrite self key value .tertiary).sendCopies self key value
          (Copy.ofTertiary newPred₂ oldPred₂ newPred₁ oldPred₁))

variable {hash : Str → Nat}

theorem ownPos_cases (self : Address) (n₀ n₁ n₂ : Node) :
    (ownPos self [n₀, n₁, n₂] = some 2 ∧ n₂.nodeAddress = self) ∨
    (ownPos self [n₀, n₁, n₂] = some 1 ∧ n₂.nodeAddress ≠ self ∧ n₁.nodeAddress = self) ∨
    (ownPos self [n₀, n₁, n₂] = some 0 ∧ n₂.nodeAddress ≠ self ∧ n₁.nodeAddress ≠ self ∧
      n₀.nodeAddress = self) ∨
    (ownPos self [n₀, n₁, n₂] = none ∧ n₂.nodeAddress ≠ self ∧ n₁.nodeAddress ≠ self ∧
      n₀.nodeAddress ≠ self) := by
  unfold ownPos
  by_cases h₂ : n₂.nodeAddress = self
  · exact Or.inl ⟨by simp [List.range_succ, h₂], h₂⟩
  · by_cases h₁ : n₁.nodeAddress = self
    · exact Or.inr (Or.inl ⟨by simp [List.range_succ, h₂, h₁], h₂, h₁⟩)
    · by_cases h₀ : n₀.nodeAddress = self
      · exact Or.inr (Or.inr (Or.inl ⟨by simp [List.range_succ, h₂, h₁, h₀], h₂, h₁, h₀⟩))
      · exact Or.inr (Or.inr (Or.inr ⟨by simp [List.range_succ, h₂, h₁, h₀], h₂, h₁, h₀⟩))

theorem ne_of_ownPos {self : Address} {n₀ n₁ n₂ : Node} (h : ownPos self [n₀, n₁, n₂] = none) :
    n₀.nodeAddress ≠ self ∧ n₁.nodeAddress ≠ self ∧ n₂.nodeAddress ≠ self := by
  rcases ownPos_cases self n₀ n₁ n₂ with ⟨hpos, -⟩ | ⟨hpos, -⟩ | ⟨hpos, -⟩ | ⟨-, h₂, h₁, h₀⟩
  case inr.inr.inr => exact ⟨h₀, h₁, h₂⟩
  all_goals
    rw [hpos] at h
    cases h

theorem eq_of_ownPos {self : Address} {n₀ n₁ n₂ : Node} {i : Nat}
    (h : ownPos self [n₀, n₁, n₂] = some i) :
    [n₀, n₁, n₂][i]?.map Node.nodeAddress = some self := by
  rcases ownPos_cases self n₀ n₁ n₂ with ⟨hpos, heq⟩ | ⟨hpos, -, heq⟩ | ⟨hpos, -, -, heq⟩ |
    ⟨hpos, -⟩
  case inr.inr.inr =>
    rw [hpos] at h
    cases h
  all_goals
    obtain rfl := Option.some.inj (hpos.symm.trans h)
    simp [heq]

section Ranks

variable {self : Address} {newRing ring old : List Node} {n₀ n₁ n₂ : Node} {w w' : World}
  {key value : Str}

theorem handOver_eq : w.handOver self [n₀, n₁, n₂] key value =
    some ((w.sendCopies self key value (Copy.ofStranger n₀ n₁ n₂)).modifyNode self fun n =>
      { n with ht := (n.ht.deleteKey key).2 }) := rfl

theorem asPrimary_eq_some : w.asPrimary self [n₀, n₁, n₂] old key value = some w' ↔
    ∃ o₁ o₂, old[1]? = some o₁ ∧ old[2]? = some o₂ ∧
      w' = (w.rewrite self key value .primary).sendCopies self key value
        (Copy.ofPrimary n₁ n₂ o₁ o₂) := by
  have hsend : ∀ (v : World) (c : Copy), v.sendMessage self c.toAddr key value c.type c.replica =
      v.sendCopies self key value [c] := fun _ _ => rfl
  unfold asPrimary
  simp only [List.getElem?_cons_zero, List.getElem?_cons_succ, Option.bind_eq_bind,
    Option.bind_some, Option.pure_def, Option.bind_eq_some_iff, Option.some.injEq]
  constructor
  · rintro ⟨o₁, ho₁, o₂, ho₂, rfl⟩
    refine ⟨o₁, o₂, ho₁, ho₂, ?_⟩
    simp only [Copy.ofPrimary, sendUnlessSame_eq, sendCopies_append]
    split <;> split <;> rfl
  · rintro ⟨o₁, o₂, ho₁, ho₂, rfl⟩
    refine ⟨o₁, ho₁, o₂, ho₂, ?_⟩
    simp only [Copy.ofPrimary, sendUnlessSame_eq, sendCopies_append]
    split <;> split <;> rfl

theorem asSecondary_eq_some :
    w.asSecondary self newRing ring [n₀, n₁, n₂] old key value = some w' ↔
    ∃ o₁ newPred oldPred, old[1]? = some o₁ ∧ predecessor self newRing 1 = some newPred ∧
      predecessor self ring 1 = some oldPred ∧
      w' = (w.rewrite self key value .secondary).sendCopies self key value
        (Copy.ofSecondary n₁ o₁ newPred oldPred) := by
  unfold asSecondary
  simp only [List.getElem?_cons_zero, List.getElem?_cons_succ, Option.bind_eq_bind,
    Option.bind_some, Option.pure_def, Option.bind_eq_some_iff, Option.some.injEq, predecessor,
    Copy.ofSecondary, sendUnlessSame_eq, sendCopies_append]
  constructor
  · rintro ⟨o₁, ho₁, oldPred, hold, newPred, hnew, rfl⟩
    exact ⟨o₁, newPred, oldPred, ho₁, hnew, hold, rfl⟩
  · rintro ⟨o₁, newPred, oldPred, ho₁, hnew, hold, rfl⟩
    exact ⟨o₁, ho₁, oldPred, hold, newPred, hnew, rfl⟩

theorem asTertiary_eq_some : w.asTertiary self newRing ring key value = some w' ↔
    ∃ newPred₂ oldPred₂ newPred₁ oldPred₁, predecessor self newRing 2 = some newPred₂ ∧
      predecessor self ring 2 = some oldPred₂ ∧ predecessor self newRing 1 = some newPred₁ ∧
      predecessor self ring 1 = some oldPred₁ ∧
      w' = (w.rewrite self key value .tertiary).sendCopies self key value
        (Copy.ofTertiary newPred₂ oldPred₂ newPred₁ oldPred₁) := by
  unfold asTertiary
  simp only [Option.bind_eq_bind, Option.pure_def, Option.bind_eq_some_iff, Option.some.injEq,
    predecessor, Copy.ofTertiary, sendUnlessSame_eq, sendCopies_append]
  constructor
  · rintro ⟨oldPred₂, hold₂, newPred₂, hnew₂, oldPred₁, hold₁, newPred₁, hnew₁, rfl⟩
    exact ⟨newPred₂, oldPred₂, newPred₁, oldPred₁, hnew₂, hold₂, hnew₁, hold₁, rfl⟩
  · rintro ⟨newPred₂, oldPred₂, newPred₁, oldPred₁, hnew₂, hold₂, hnew₁, hold₁, rfl⟩
    exact ⟨oldPred₂, hold₂, newPred₂, hnew₂, oldPred₁, hold₁, newPred₁, hnew₁, rfl⟩

end Ranks

/-- `stabilizeKey` does one of the four things, and nothing else. -/
theorem stabilizeKey_eq_some {self : Address} {newRing : List Node} {w w' : World}
    {key value : Str} : w.stabilizeKey hash self newRing (key, value) = some w' ↔
      ∃ n₀ n₁ n₂, findNodes hash key newRing = [n₀, n₁, n₂] ∧
        Stabilized self newRing key value (findNodes hash key (w.node self).ring) n₀ n₁ n₂
          w w' := by
  unfold stabilizeKey
  dsimp only
  rcases findNodes_cases hash key newRing with hnil | ⟨hlen, i, hi, hthree⟩
  · simp [hnil]
  obtain ⟨n₀, n₁, n₂, heq, -⟩ := threeFrom_length hlen hi
  rw [hthree, heq, if_neg (by simp)]
  constructor
  · intro h
    refine ⟨n₀, n₁, n₂, rfl, ?_⟩
    rcases ownPos_cases self n₀ n₁ n₂ with ⟨hpos, -⟩ | ⟨hpos, -⟩ | ⟨hpos, -⟩ | ⟨hpos, -⟩
    · rw [hpos] at h
      obtain ⟨p₂, q₂, p₁, q₁, hp₂, hq₂, hp₁, hq₁, rfl⟩ := asTertiary_eq_some.mp h
      exact .asTertiary p₂ q₂ p₁ q₁ hpos hp₂ hq₂ hp₁ hq₁
    · rw [hpos] at h
      obtain ⟨o₁, p, q, ho₁, hp, hq, rfl⟩ := asSecondary_eq_some.mp h
      exact .asSecondary o₁ p q hpos ho₁ hp hq
    · rw [hpos] at h
      obtain ⟨o₁, o₂, ho₁, ho₂, rfl⟩ := asPrimary_eq_some.mp h
      exact .asPrimary o₁ o₂ hpos ho₁ ho₂
    · rw [hpos] at h
      dsimp only at h
      rw [handOver_eq] at h
      obtain rfl := Option.some.inj h
      exact .handOver hpos
  · rintro ⟨m₀, m₁, m₂, hm, h⟩
    obtain ⟨rfl, rfl, rfl⟩ : n₀ = m₀ ∧ n₁ = m₁ ∧ n₂ = m₂ := by simpa using hm
    cases h with
    | handOver hpos =>
        rw [hpos]
        exact handOver_eq
    | asPrimary o₁ o₂ hpos ho₁ ho₂ =>
        rw [hpos]
        exact asPrimary_eq_some.mpr ⟨o₁, o₂, ho₁, ho₂, rfl⟩
    | asSecondary o₁ p q hpos ho₁ hp hq =>
        rw [hpos]
        exact asSecondary_eq_some.mpr ⟨o₁, p, q, ho₁, hp, hq, rfl⟩
    | asTertiary p₂ q₂ p₁ q₁ hpos hp₂ hq₂ hp₁ hq₁ =>
        rw [hpos]
        exact asTertiary_eq_some.mpr ⟨p₂, q₂, p₁, q₁, hp₂, hq₂, hp₁, hq₁, rfl⟩

/-! ## What a turn leaves alone -/

section Frame

variable {self b : Address} {newRing old : List Node} {n₀ n₁ n₂ : Node} {w w' : World}
  {key key' value : Str}

theorem rewrite_others {replica : ReplicaType} (hb : b ≠ self) :
    (w.rewrite self key value replica).node b = w.node b := by
  unfold rewrite updateKeyValue
  dsimp only
  split <;> simp [node_modifyNode_of_ne hb]

theorem rewrite_self {replica : ReplicaType} : (w.rewrite self key value replica).node self =
    { w.node self with ht := ((w.rewrite self key value replica).node self).ht } := by
  unfold rewrite updateKeyValue
  dsimp only
  split <;> simp

namespace Stabilized

theorem others (h : Stabilized self newRing key value old n₀ n₁ n₂ w w') (hb : b ≠ self) :
    w'.node b = w.node b := by
  cases h with
  | handOver => simp [node_modifyNode_of_ne hb]
  | asPrimary | asSecondary | asTertiary => rw [node_sendCopies, rewrite_others hb]

theorem node_self (h : Stabilized self newRing key value old n₀ n₁ n₂ w w') :
    w'.node self = { w.node self with ht := (w'.node self).ht } := by
  cases h with
  | handOver => simp
  | asPrimary | asSecondary | asTertiary =>
      rw [node_sendCopies]
      exact rewrite_self

theorem get?_of_ne (h : Stabilized self newRing key value old n₀ n₁ n₂ w w')
    (hvalue : (w.node self).ht.get? key = some value) (hkey : key' ≠ key) :
    (w'.node self).ht.get? key' = (w.node self).ht.get? key' := by
  cases h with
  | handOver => simp [HashTable.get?_deleteKey, hkey]
  | asPrimary | asSecondary | asTertiary => simp [get?_rewrite hvalue, hkey]

theorem quiet (h : Stabilized self newRing key value old n₀ n₁ n₂ w w')
    (hvalue : (w.node self).ht.get? key = some value) :
    ∃ l, w'.trace = w.trace ++ l ∧ ∀ e, .logged e ∈ l → e.isCoordinator = false := by
  cases h with
  | handOver => exact ⟨[], by simp, by simp⟩
  | asPrimary | asSecondary | asTertiary =>
      rw [trace_sendCopies]
      exact quiet_rewrite _ hvalue

end Stabilized

end Frame

end World

end CloudComputing.KeyValueStore
