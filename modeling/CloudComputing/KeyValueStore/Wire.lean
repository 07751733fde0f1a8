import CloudComputing.KeyValueStore.Changes

/-!
# What is stored and what travels

Whatever strings clients use, a key that got into a table was cut out of a
message by a `::` behind it, so stored texts can be sent on unharmed; and what is
under way was printed from a `Message`.
-/

namespace CloudComputing.KeyValueStore

open Lib Relation

namespace World

variable {hash : Str → Nat} {ok : World → Action → Prop} {w w' : World} {a b : Address}
  {s key text : Str}

/-! ## Where a message and an entry come from -/

/-- The ways a text can be under way to `b` after a change from `w` to `w'`, a new ring apart. -/
inductive Sent (hash : Str → Nat) (ok : World → Action → Prop) (w w' : World) (b : Address)
    (s : Str) : Prop
  | old (h : s ∈ w.pending b)
  | request (self : Address) (uninit : ReplicaType) (request : Request)
      (hok : ok w (.client self uninit request))
      (hto : b ∈ (findNodes hash request.key (w.node self).ring).map Node.nodeAddress)
      (hnext : w'.transID = w.transID + 1)
      (hs : s = (request.message self uninit w.nextTransID.gTransID).toString)
  | answer (self : Address) (uninit : ReplicaType) (text : Str) (arrived m : Message)
      (hpending : text ∈ w.pending self) (htext : Message.ofString uninit text = some arrived)
      (hm : arrived.answer uninit self (w.node self).ht = some m) (hto : arrived.fromAddr = b)
      (hs : s = m.toString)

/-- The text is a copy that stabilization sent between `w` and `w'`. -/
inductive Copied (w w' : World) (s : Str) : Prop
  | intro (self : Address) (key value : Str) (type : MessageType) (replica : ReplicaType)
      (hheld : (w.node self).ht.get? key ≠ none)
      (hkey : Split.Clean Message.delimiter key) (hvalue : Split.Clean Message.delimiter value)
      (htype : type = .create ∨ type = .update) (hnext : w'.transID = w.transID + 1)
      (hs : s = Message.toString
        ⟨type, replica, key, value, self, w.nextTransID.gTransID, false⟩)

/-- The ways a node can hold an entry after a change of `w`. -/
inductive Held (w : World) (a : Address) (key text : Str) : Prop
  | old (h : (w.node a).ht.get? key = some text)
  | written (uninit replica : ReplicaType) (message : Str) (arrived : Message)
      (hpending : message ∈ w.pending a) (hmessage : Message.ofString uninit message = some arrived)
      (htype : arrived.type = .create ∨
        arrived.type = .update ∧ (w.node a).ht.get? key ≠ none) (hkey : key = arrived.key)
      (htext : text = Entry.convertToString ⟨arrived.value, w.currtime, replica⟩)
  | rewritten (value : Str) (replica : ReplicaType) (hvalue : (w.node a).ht.get? key = some value)
      (htext : text = Entry.convertToString ⟨value, w.currtime, replica⟩)

theorem mem_pending_of_queue {queue : List Str} (hq : (w.node a).mp2q = text :: queue) :
    text ∈ w.pending a := by
  rw [(pending_pop_perm hq).mem_iff, if_pos rfl]
  exact List.mem_cons_self

theorem mem_pending_pop {queue : List Str} (hq : (w.node a).mp2q = text :: queue)
    (h : s ∈ (w.pop a queue).pending b) : s ∈ w.pending b :=
  (pending_pop_perm hq).mem_iff.mpr (List.mem_append_right _ h)

theorem Handled.mp2q_all {uninit replica : ReplicaType} {arrived : Message}
    (h : Handled uninit a arrived replica w w') : (w'.node b).mp2q = (w.node b).mp2q := by
  by_cases hb : b = a
  · rw [hb, h.mp2q]
  · rw [h.others b hb]

section Issued

variable {self : Address} {message : Int32 → Message} {r₀ r₁ r₂ : Node}

theorem net_issued : (w.issued self message r₀ r₁ r₂).net = w.net ++ [r₀, r₁, r₂].map fun r =>
    ⟨self, r.nodeAddress, (message w.nextTransID.gTransID).toString⟩ := rfl

@[simp] theorem transID_issued : (w.issued self message r₀ r₁ r₂).transID = w.transID + 1 := rfl
@[simp] theorem currtime_issued : (w.issued self message r₀ r₁ r₂).currtime = w.currtime := rfl
@[simp] theorem trace_issued : (w.issued self message r₀ r₁ r₂).trace = w.trace := rfl

@[simp] theorem mp2q_issued :
    ((w.issued self message r₀ r₁ r₂).node b).mp2q = (w.node b).mp2q := by
  simp [issued]

@[simp] theorem ring_issued :
    ((w.issued self message r₀ r₁ r₂).node b).ring = (w.node b).ring := by
  simp [issued]

@[simp] theorem ht_issued : ((w.issued self message r₀ r₁ r₂).node b).ht = (w.node b).ht := by
  simp [issued]

@[simp] theorem resultTable_issued :
    ((w.issued self message r₀ r₁ r₂).node b).resultTable = (w.node b).resultTable := by
  simp [issued]

@[simp] theorem readValueTable_issued :
    ((w.issued self message r₀ r₁ r₂).node b).readValueTable = (w.node b).readValueTable := by
  simp [issued]

theorem count_pending_issued {text : Str} (hnew : text ∉ w.pending b) :
    ((w.issued self message r₀ r₁ r₂).pending b).count text ≤
      ([r₀, r₁, r₂].map Node.nodeAddress).count b := by
  have hzero : (w.pending b).countP (· == text) = 0 := List.count_eq_zero.mpr hnew
  rw [List.count, List.count, countP_pending_append net_issued mp2q_issued, List.countP_map,
    List.countP_map, hzero]
  refine List.countP_mono_left ?_
  intro r _ h
  have hand := of_decide_eq_true h
  exact beq_iff_eq.mpr hand.1

theorem countP_pending_issued {q : Str → Bool}
    (hq : q (message w.nextTransID.gTransID).toString = false) :
    ((w.issued self message r₀ r₁ r₂).pending b).countP q = (w.pending b).countP q := by
  rw [countP_pending_append net_issued mp2q_issued, List.countP_map]
  have hnone : [r₀, r₁, r₂].countP ((fun p : Packet => decide (p.dst = b ∧ q p.data = true)) ∘
      fun r => ⟨self, r.nodeAddress, (message w.nextTransID.gTransID).toString⟩) = 0 := by
    rw [List.countP_eq_zero]
    intro r _
    simp [hq]
  rw [hnone, Nat.zero_add]

end Issued

section Rewrite

variable {self : Address} {value : Str} {replica : ReplicaType}

@[simp] theorem net_rewrite : (w.rewrite self key value replica).net = w.net := by
  unfold rewrite updateKeyValue
  dsimp only
  split <;> rfl

@[simp] theorem transID_rewrite : (w.rewrite self key value replica).transID = w.transID + 1 := by
  unfold rewrite updateKeyValue
  dsimp only
  split <;> rfl

@[simp] theorem currtime_rewrite : (w.rewrite self key value replica).currtime = w.currtime := by
  unfold rewrite updateKeyValue
  dsimp only
  split <;> rfl

theorem field_rewrite {β : Type*} {g : MP2Node → β} (h : ∀ n t, g { n with ht := t } = g n) :
    g ((w.rewrite self key value replica).node b) = g (w.node b) := by
  by_cases hb : b = self
  · rw [hb, rewrite_self, h]
  · rw [rewrite_others hb]

@[simp] theorem mp2q_rewrite :
    ((w.rewrite self key value replica).node b).mp2q = (w.node b).mp2q :=
  field_rewrite fun _ _ => rfl

@[simp] theorem resultTable_rewrite :
    ((w.rewrite self key value replica).node b).resultTable = (w.node b).resultTable :=
  field_rewrite fun _ _ => rfl

@[simp] theorem operationTable_rewrite :
    ((w.rewrite self key value replica).node b).operationTable = (w.node b).operationTable :=
  field_rewrite fun _ _ => rfl

@[simp] theorem readValueTable_rewrite :
    ((w.rewrite self key value replica).node b).readValueTable = (w.node b).readValueTable :=
  field_rewrite fun _ _ => rfl

@[simp] theorem pending_rewrite : (w.rewrite self key value replica).pending b = w.pending b :=
  pending_congr net_rewrite mp2q_rewrite

end Rewrite

theorem sent_of_change (h : Change hash ok w w') (hs : s ∈ w'.pending b) : Sent hash ok w w' b s := by
  cases h with
  | tick => exact .old hs
  | receive p hp => exact .old ((pending_receive_perm hp).mem_iff.mp hs)
  | lose p hp => exact .old (mem_pending_lose hp hs)
  | reorder net hnet => exact .old ((pending_reorder_perm hnet).mem_iff.mp hs)
  | issue self uninit request r₀ r₁ r₂ hok hfind =>
      rw [mem_pending_append net_issued mp2q_issued] at hs
      rcases hs with ⟨p, hp, rfl, rfl⟩ | hold
      · obtain ⟨r, hr, rfl⟩ := List.mem_map.mp hp
        exact .request self uninit request hok (List.mem_map.mpr ⟨r, hfind ▸ hr, rfl⟩) rfl rfl
      · exact .old hold
  | arrive self uninit replica text queue arrived hq htext h =>
      rw [mem_pending_append h.net h.mp2q_all] at hs
      rcases hs with ⟨p, hp, hdst, rfl⟩ | hold
      · obtain ⟨m, hm, rfl⟩ := List.mem_map.mp hp
        refine .answer self uninit text arrived m (mem_pending_of_queue hq) htext ?_ hdst rfl
        simpa [pop] using hm
      · exact .old (mem_pending_pop hq hold)
  | judgeUpdate => exact .old hs
  | judgeRead =>
      refine .old ?_
      split at hs <;> exact hs
  | clearResults self => exact .old (by simpa using hs)
  | clearReads self => exact .old (by simpa using hs)
  | rewrite self key value replica hvalue => exact .old (by simpa using hs)

theorem copied_of_reshape (h : Reshape w w') (hs : s ∈ w'.pending b) :
    s ∈ w.pending b ∨ Copied w w' s := by
  cases h with
  | copy self toAddr key value type replica hheld hkey hvalue htype =>
      have hnet : (w.sendMessage self toAddr key value type replica).net = w.net ++
          [⟨self, toAddr, _⟩] := rfl
      rw [mem_pending_append hnet rfl] at hs
      rcases hs with ⟨p, hp, -, rfl⟩ | hold
      · rw [List.mem_singleton.mp hp]
        exact Or.inr ⟨self, key, value, type, replica, hheld, hkey, hvalue, htype, rfl, rfl⟩
      · exact Or.inl hold
  | setRing self ring => exact Or.inl (by simpa using hs)

theorem sent_of_alters (h : Alters hash ok w w') (hs : s ∈ w'.pending b) :
    Sent hash ok w w' b s ∨ Copied w w' s := by
  cases h with
  | change h => exact Or.inl (sent_of_change h hs)
  | reshape h => exact (copied_of_reshape h hs).imp_left .old

theorem held_of_arrival {uninit replica : ReplicaType} {queue : List Str} {arrived : Message}
    {message : Str} (hq : (w.node b).mp2q = message :: queue)
    (hmessage : Message.ofString uninit message = some arrived)
    (h : Handled uninit b arrived replica (w.pop b queue) w')
    (hs : (w'.node a).ht.get? key = some text) : Held w a key text := by
  have hpop : ((w.pop b queue).node a).ht = (w.node a).ht := by simp [pop]
  by_cases ha : a = b
  · subst ha
    rw [h.ht, hpop] at hs
    have hpending := mem_pending_of_queue hq
    unfold Message.tableAfter at hs
    split at hs
    case h_1 htype =>
      rw [HashTable.get?_create] at hs
      split at hs
      case isTrue hkey =>
        exact .written uninit replica message arrived hpending hmessage (Or.inl htype) hkey.1
          (Option.some.inj hs).symm
      case isFalse => exact .old hs
    case h_2 htype =>
      rw [HashTable.get?_update] at hs
      split at hs
      case isTrue hkey =>
        have hthere : (w.node a).ht.get? key ≠ none := by
          rw [hkey.1]
          intro hnone
          exact hkey.2 (by rw [HashTable.read_eq, hnone, Option.getD_none])
        exact .written uninit replica message arrived hpending hmessage (Or.inr ⟨htype, hthere⟩)
          hkey.1 (Option.some.inj hs).symm
      case isFalse => exact .old hs
    case h_3 =>
      rw [HashTable.get?_deleteKey] at hs
      split at hs
      case isTrue => cases hs
      case isFalse => exact .old hs
    case h_4 => exact .old hs
  · rw [h.others a ha, hpop] at hs
    exact .old hs

theorem held_of_change (h : Change hash ok w w') (hs : (w'.node a).ht.get? key = some text) :
    Held w a key text := by
  cases h with
  | tick => exact .old hs
  | receive p hp => exact .old (by simpa [receive] using hs)
  | lose | reorder => exact .old hs
  | issue self uninit request r₀ r₁ r₂ hok hfind => exact .old (by simpa using hs)
  | arrive self uninit replica text queue arrived hq htext h =>
      exact held_of_arrival hq htext h hs
  | judgeUpdate => exact .old hs
  | judgeRead =>
      refine .old ?_
      split at hs <;> exact hs
  | clearResults self => exact .old (by simpa using hs)
  | clearReads self => exact .old (by simpa using hs)
  | rewrite self key' value replica hvalue =>
      by_cases ha : a = self
      · subst ha
        rw [get?_rewrite hvalue] at hs
        split at hs
        case isTrue hkey =>
          exact .rewritten value replica (hkey.1 ▸ hvalue) (Option.some.inj hs).symm
        case isFalse => exact .old hs
      · exact .old (by rwa [rewrite_others ha] at hs)

theorem held_of_reshape (h : Reshape w w') (hs : (w'.node a).ht.get? key = some text) :
    Held w a key text := by
  cases h with
  | copy => exact .old hs
  | setRing self ring => exact .old (by simpa using hs)

theorem held_of_alters (h : Alters hash ok w w') (hs : (w'.node a).ht.get? key = some text) :
    Held w a key text := by
  cases h with
  | change h => exact held_of_change h hs
  | reshape h => exact held_of_reshape h hs

/-! ## The invariant -/

/-- Stored keys and entries can travel, and what travels is a message. -/
structure Wire (w : World) : Prop where
  key : ∀ a key text, (w.node a).ht.get? key = some text → Split.Clean Message.delimiter key
  entry : ∀ a key text, (w.node a).ht.get? key = some text →
    ∃ e : Entry, text = e.convertToString ∧ Split.Clean Message.delimiter e.value
  text : ∀ b, ∀ s ∈ w.pending b, ∃ m : Message, s = m.toString

theorem Wire.cleanTable (hw : Wire w) (self : Address) : w.CleanTable self := by
  intro key value h
  obtain ⟨e, rfl, he⟩ := hw.entry self key value h
  exact ⟨hw.key self key _ h, Entry.clean_convertToString he⟩

theorem Wire.clean_arrived {uninit : ReplicaType} {arrived : Message} (hw : Wire w)
    (hpending : s ∈ w.pending a) (hs : Message.ofString uninit s = some arrived)
    (htype : arrived.type = .create ∨ arrived.type = .update) :
    Split.Clean Message.delimiter arrived.key ∧ Split.Clean Message.delimiter arrived.value := by
  obtain ⟨m, rfl⟩ := hw.text a s hpending
  rw [(Message.ofString_toString_some hs).1] at htype
  exact Message.clean_of_ofString htype hs

theorem Wire.alters (hw : Wire w) (h : Alters hash ok w w') : Wire w' where
  key := by
    intro a key text hs
    cases held_of_alters h hs with
    | old h => exact hw.key a key text h
    | written uninit replica message arrived hpending hmessage htype hkey htext =>
        rw [hkey]
        exact (hw.clean_arrived hpending hmessage (htype.imp_right And.left)).1
    | rewritten value replica hvalue htext => exact hw.key a key value hvalue
  entry := by
    intro a key text hs
    cases held_of_alters h hs with
    | old h => exact hw.entry a key text h
    | written uninit replica message arrived hpending hmessage htype hkey htext =>
        exact ⟨_, htext, (hw.clean_arrived hpending hmessage (htype.imp_right And.left)).2⟩
    | rewritten value replica hvalue htext =>
        exact ⟨_, htext, (hw.cleanTable a key value hvalue).2⟩
  text := by
    intro b s hs
    rcases sent_of_alters h hs with hsent | ⟨self, key, value, type, replica, -, -, -, -, -, hs⟩
    · cases hsent with
      | old h => exact hw.text b s h
      | request self uninit request hok hto hnext hs => exact ⟨_, hs⟩
      | answer self uninit text arrived m hpending htext hm hto hs => exact ⟨m, hs⟩
    · exact ⟨_, hs⟩

/-- The invariant holds along every run, whatever the clients ask for. -/
theorem Wire.step {a : Action} (hw : Wire w) (h : w.step hash a = some w') : Wire w' :=
  invariant_of_run (fun _ _ h hw => hw.alters h)
    (alters_of_step hw.cleanTable h) hw

theorem Wire.steps (hw : Wire w) (h : Steps hash ok w w') : Wire w' :=
  invariant_of_run (fun _ _ ⟨_, _, hstep, _⟩ hw => hw.step hstep) h hw

theorem wire_initial : Wire initial where
  key := by simp [initial, MP2Node.new]
  entry := by simp [initial, MP2Node.new]
  text := by simp [initial, MP2Node.new, pending]

end World

end CloudComputing.KeyValueStore
