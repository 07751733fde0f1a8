import CloudComputing.KeyValueStore.Application
import CloudComputing.KeyValueStore.FreshRead

/-!
# Nothing is thrown

While the clients make parsable requests over a fixed ring, every text under way is
that of a message that can be read, and every stored text is that of an entry.
Then `stoi` never throws, no vector is indexed past its end, and every tick comes
to its end.
-/

namespace CloudComputing.KeyValueStore

open Lib Relation

/-- The message can be read, and so can the entry that comes of it or that it brings. -/
structure Message.Sound (m : Message) : Prop where
  sendable : m.Sendable
  write : m.type = .create ∨ m.type = .update → ':' ∉ m.value
  read : m.isReadReply = true → Readable m.value

theorem Message.Sound.ofString {m : Message} (h : m.Sound) (uninit : ReplicaType) :
    Message.ofString uninit m.toString = some (m.received uninit) :=
  Message.ofString_toString uninit h.sendable

theorem Message.Sound.received {m : Message} (h : m.Sound) (uninit : ReplicaType) :
    (m.received uninit).Sound := by
  obtain ⟨type, replica, key, value, fromAddr, transID, success⟩ := m
  obtain ⟨hsend, hwrite, hread⟩ := h
  unfold Message.received
  cases type with
  | create | update => exact ⟨hsend, hwrite, hread⟩
  | read | delete => exact ⟨hsend, by simp, by simp [Message.isReadReply]⟩
  | reply => exact ⟨trivial, by simp, by simp [Message.isReadReply]⟩
  | readreply => exact ⟨hsend, by simp, hread⟩
  | other n hn => exact ⟨trivial, by simp, fun _ => Or.inl rfl⟩

/-- A request with a plain key; what is stored on it can be read back. -/
def Request.Parsable : Request → Prop
  | .create key value | .update key value => KeyValueStore.Plain key ∧ ':' ∉ value
  | .read key | .delete key => KeyValueStore.Plain key

theorem Request.Parsable.plain {request : Request} (h : request.Parsable) : request.Plain := by
  cases request with
  | create key value | update key value =>
      exact ⟨h.1, plain_iff_clean.mpr (Message.clean_of_no_colon h.2)⟩
  | read key | delete key => exact h

theorem Request.Parsable.sound {request : Request} (h : request.Parsable) (self : Address)
    (uninit : ReplicaType) (transID : Int32) : (request.message self uninit transID).Sound where
  sendable := h.plain.sendable self uninit transID
  write := by
    intro htype
    cases request with
    | create key value | update key value => exact h.2
    | read key | delete key => simp [Request.message] at htype
  read := by
    intro hread
    cases request <;> simp [Request.message, Message.isReadReply] at hread

namespace World

/-- What keeps the methods from throwing. -/
structure Sound (w : World) : Prop where
  wire : Wire w
  pending : ∀ b, ∀ s ∈ w.pending b, ∃ m : Message, m.Sound ∧ s = m.toString
  entry : ∀ a key text, (w.node a).ht.get? key = some text → ∃ value, Decodes text value
  operation : ∀ a (t : Int32) text, (w.node a).operationTable[t]? = some text →
    ∃ m : Message, m.Sound ∧ text = m.toString
  noted : ∀ a (t : Int32) values, (w.node a).readValueTable[t]? = some values →
    ∀ s ∈ values, Readable s

variable {hash : Str → Nat} {R : SortedRing} {ok : World → Action → Prop} {w w' : World}
  {a b self : Address} {uninit replica : ReplicaType} {arrived : Message} {s text key : Str}

theorem Sound.readable (hs : Sound w) (a : Address) (key : Str) :
    Readable ((w.node a).ht.read key) := by
  rw [HashTable.read_eq]
  cases hget : (w.node a).ht.get? key with
  | none => exact Or.inl rfl
  | some text => exact Or.inr (hs.entry a key text hget)

theorem Sound.ofString (hs : Sound w) (hpending : s ∈ w.pending b) (uninit : ReplicaType) :
    ∃ m, Message.ofString uninit s = some m ∧ m.Sound := by
  obtain ⟨m, hm, rfl⟩ := hs.pending b s hpending
  exact ⟨_, hm.ofString uninit, hm.received uninit⟩

theorem Sound.of_ofString (hs : Sound w) (hpending : s ∈ w.pending b)
    (h : Message.ofString uninit s = some arrived) : arrived.Sound := by
  obtain ⟨m, hm, hsound⟩ := hs.ofString hpending uninit
  obtain rfl := Option.some.inj (hm.symm.trans h)
  exact hsound

theorem Sound.answer (hs : Sound w) {m : Message}
    (h : arrived.answer uninit self (w.node self).ht = some m) : m.Sound := by
  unfold Message.answer at h
  split at h
  case h_5 => cases h
  case h_4 =>
    obtain rfl := Option.some.inj h
    exact ⟨hs.wire.sendable_read, by simp, fun _ => hs.readable self arrived.key⟩
  all_goals
    obtain rfl := Option.some.inj h
    exact ⟨trivial, by simp, by simp [Message.isReadReply]⟩

theorem Sound.noted_of_change (hs : Sound w) (h : Change hash ok w w') :
    ∀ a (t : Int32) values, (w'.node a).readValueTable[t]? = some values →
      ∀ s ∈ values, Readable s := by
  intro a t values hvalues
  cases h with
  | tick | lose | reorder | judgeUpdate => exact hs.noted a t values hvalues
  | receive p hp => exact hs.noted a t values (by simpa [receive] using hvalues)
  | issue => exact hs.noted a t values (by simpa using hvalues)
  | judgeRead =>
      apply hs.noted a t values
      split at hvalues <;> exact hvalues
  | clearResults self => exact hs.noted a t values (by simpa using hvalues)
  | rewrite => exact hs.noted a t values (by simpa using hvalues)
  | clearReads self =>
      by_cases ha : a = self
      · subst ha
        simp at hvalues
      · exact hs.noted a t values (by simpa [node_modifyNode_of_ne ha] using hvalues)
  | arrive self uninit replica text queue arrived hq htext h =>
      by_cases ha : a = self
      · subst ha
        have hsound := hs.of_ofString (mem_pending_of_queue hq) htext
        rw [h.readValueTable, readValues_getElem?] at hvalues
        have hpop : ((w.pop a queue).node a).readValueTable = (w.node a).readValueTable := by
          simp [pop]
        rw [hpop] at hvalues
        intro s hmem
        by_cases hread : arrived.isReadReply = true ∧ arrived.transID = t
        · rw [if_pos hread, grow, if_neg (List.cons_ne_nil _ _)] at hvalues
          obtain rfl := Option.some.inj hvalues
          rcases List.mem_append.mp hmem with hold | hnew
          · cases hget : (w.node a).readValueTable[t]? with
            | none => simp [hget] at hold
            | some old => exact hs.noted a t old hget s (by simpa [hget] using hold)
          · rw [List.mem_singleton.mp hnew]
            exact hsound.read hread.1
        · rw [if_neg hread, grow, if_pos rfl] at hvalues
          exact hs.noted a t values hvalues s hmem
      · rw [h.others a ha] at hvalues
        exact hs.noted a t values (by simpa [pop, node_modifyNode_of_ne ha] using hvalues)

theorem Sound.change (hs : Sound w)
    (hparse : ∀ self uninit request, ok w (.client self uninit request) → request.Parsable)
    (h : Change hash ok w w') : Sound w' where
  wire := hs.wire.alters (.change h)
  pending := by
    intro b s hpending
    cases sent_of_change h hpending with
    | old hold => exact hs.pending b s hold
    | request self uninit request hok hto hnext heq =>
        exact ⟨_, (hparse self uninit request hok).sound self uninit _, heq⟩
    | answer self uninit text arrived m hpending htext hm hto heq =>
        exact ⟨m, hs.answer hm, heq⟩
  entry := by
    intro a key text hget
    cases held_of_change h hget with
    | old hold => exact hs.entry a key text hold
    | written uninit replica message arrived hpending hmessage htype hkey htext =>
        have hsound := hs.of_ofString hpending hmessage
        rw [htext]
        exact ⟨_, decodes_entry (hsound.write (htype.imp_right And.left)) _ _⟩
    | rewritten value replica hvalue htext =>
        obtain ⟨v, hv⟩ := hs.entry a key value hvalue
        rw [htext]
        exact ⟨v, hv.rewritten _ _⟩
  operation := by
    intro a t text hget
    rcases operation_of_alters (.change h) hget with hold |
      ⟨uninit, request, r₀, r₁, r₂, hok, -, -, rfl, -⟩
    · exact hs.operation a t text hold
    · exact ⟨_, (hparse a uninit request hok).sound a uninit t, rfl⟩
  noted := hs.noted_of_change h

theorem Sound.fixed (hs : Sound w)
    (hparse : ∀ self uninit request, ok w (.client self uninit request) → request.Parsable)
    (h : Fixed hash R ok w w') : Sound w' := by
  cases h with
  | change h => exact hs.change hparse h
  | setRing self h =>
      subst h
      exact ⟨hs.wire.alters (.reshape (.setRing w self R.nodes) : Alters hash ok w _),
        by simpa using hs.pending, by simpa using hs.entry, by simpa using hs.operation,
        by simpa using hs.noted⟩

theorem sound_initial : Sound initial where
  wire := wire_initial
  pending := by simp [initial, MP2Node.new, World.pending]
  entry := by simp [initial, MP2Node.new]
  operation := by simp [initial, MP2Node.new]
  noted := by simp [initial, MP2Node.new]

end World

end CloudComputing.KeyValueStore
