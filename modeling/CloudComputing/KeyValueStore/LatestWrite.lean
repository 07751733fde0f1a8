import CloudComputing.KeyValueStore.FixedRing
import CloudComputing.KeyValueStore.Writes

/-!
# The latest write of a key

An `UPDATE` that is the only write of its key under way.  A node that has
replaced its entry on it keeps an entry that decodes to its value, however often
stabilization rewrites it.
-/

namespace CloudComputing.KeyValueStore

open Lib Relation

def Request.Writes (key : Str) : Request → Prop
  | .create key' _ | .update key' _ | .delete key' => key' = key
  | .read _ => False

theorem Request.Plain.writes_of_text {request : Request} (hplain : request.Plain) {self : Address}
    {uninit uninit' : ReplicaType} {transID : Int32} {key : Str} {m : Message}
    (hm : Message.ofString uninit' (request.message self uninit transID).toString = some m)
    (h : m.Writes key) : request.Writes key := by
  rw [Message.ofString_toString uninit' (hplain.sendable self uninit transID)] at hm
  obtain rfl := Option.some.inj hm
  cases request with
  | create | update | delete => exact h.2
  | read =>
      rcases h.1 with h | h | h <;> cases h

namespace World

def Unwritten (hash : Str → Nat) (R : ProperRing) (key : Str) (w : World) (action : Action) :
    Prop :=
  FixedRing hash R w action ∧
    match action with
    | .client _ _ request => ¬ request.Writes key
    | _ => True

def OnlyWrite (w : World) (key text : Str) : Prop :=
  ∀ b, ∀ s ∈ w.pending b, ∀ uninit m, Message.ofString uninit s = some m → m.Writes key →
    s = text

def NoWrite (w : World) (key : Str) : Prop := ∀ b, NoWriteTo w key b

/-- The `UPDATE` that `m` asks for is the only write of its key under way, and who replaced its
entry on it has an entry of its value. -/
structure Latest (w : World) (m : Message) : Prop where
  pending : OnlyWrite w m.key m.toString
  held : ∀ a old new, .stored a m.transID m.key old new ∈ w.trace → Holds w a m.key m.value

variable {hash : Str → Nat} {R : ProperRing} {w w' : World} {a b : Address} {m : Message}
  {key : Str}

theorem OnlyWrite.fixed {text : Str} (ho : OnlyWrite w key text)
    (h : Fixed hash R (Unwritten hash R key) w w') : OnlyWrite w' key text := by
  intro b s hs uninit m hm hwrites
  cases sent_of_fixed h hs with
  | old hold => exact ho b s hold uninit m hm hwrites
  | request self uninit' request hok hto hnext hs =>
      subst hs
      exact absurd ((Request.Tame.plain hok.1).writes_of_text hm hwrites) hok.2
  | answer self uninit' text arrived answer hpending htext hanswer hto hs =>
      subst hs
      exact absurd hwrites (Message.not_writes_answer hanswer hm)

theorem Latest.held_of_same (hl : Latest w m)
    (hget : ∀ a, (w'.node a).ht.get? m.key = (w.node a).ht.get? m.key)
    (htrace : ∃ l, w'.trace = w.trace ++ l ∧
      ∀ a old new, .stored a m.transID m.key old new ∉ l) {old new : Str}
    (hs : .stored a m.transID m.key old new ∈ w'.trace) : Holds w' a m.key m.value := by
  obtain ⟨l, htrace, hl'⟩ := htrace
  rw [htrace] at hs
  rcases List.mem_append.mp hs with hold | hnew
  · unfold Holds
    rw [hget]
    exact hl.held a old new hold
  · exact absurd hnew (hl' a old new)

theorem Latest.held_of_write {self : Address} {uninit replica : ReplicaType} {queue : List Str}
    {old new : Str} (hl : Latest w m) (htype : m.type = .update) (hvalue : ':' ∉ m.value)
    (h : Handled uninit self (m.received uninit) replica (w.pop self queue) w')
    (hs : .stored a m.transID m.key old new ∈ w'.trace) : Holds w' a m.key m.value := by
  have htable : (w.pop self queue).node self = { w.node self with mp2q := queue } := by
    simp [pop]
  by_cases ha : a = self
  · subst ha
    unfold Holds
    rw [h.ht, received_update htype, Message.tableAfter]
    simp only [htype, htable]
    by_cases hread : (w.node a).ht.read m.key = []
    · -- the entry was not there to be replaced: an earlier update has to be behind the event
      have hold : .stored a m.transID m.key old new ∈ w.trace := by
        rw [h.trace, received_update htype] at hs
        simpa [Message.events, htype, htable, hread, pop] using hs
      rw [HashTable.get?_update, if_neg fun hand => hand.2 hread]
      exact hl.held a old new hold
    · rw [HashTable.get?_update, if_pos ⟨rfl, hread⟩]
      exact ⟨_, rfl, decodes_entry hvalue _ _⟩
  · have hold : .stored a m.transID m.key old new ∈ w.trace := by
      rw [h.trace] at hs
      rcases List.mem_append.mp hs with hold | hnew
      · exact hold
      · exact absurd (stored_mem_events hnew).2.1 ha
    unfold Holds
    rw [h.others a ha, pop, node_modifyNode_of_ne ha]
    exact hl.held a old new hold

theorem Latest.fixed (hl : Latest w m) (htype : m.type = .update) (hsend : m.Sendable)
    (hvalue : ':' ∉ m.value) (hknown : Known w m.transID) (hlt : w'.transID < 2 ^ 31)
    (h : Fixed hash R (Unwritten hash R m.key) w w') : Latest w' m where
  pending := hl.pending.fixed h
  held := by
    have hquiet : w'.trace = w.trace → ∃ l, w'.trace = w.trace ++ l ∧
        ∀ a old new, .stored a m.transID m.key old new ∉ l :=
      fun heq => ⟨[], by simpa using heq, by simp⟩
    intro a old new hs
    cases h with
    | setRing self h =>
        subst h
        exact hl.held_of_same (fun a => by simp) (hquiet rfl) hs
    | change h =>
        cases h with
        | tick | lose | reorder => exact hl.held_of_same (fun a => rfl) (hquiet rfl) hs
        | receive p hp => exact hl.held_of_same (fun a => by simp [receive]) (hquiet rfl) hs
        | issue => exact hl.held_of_same (fun a => by simp) (hquiet rfl) hs
        | judgeUpdate => exact hl.held_of_same (fun a => rfl) ⟨_, rfl, by simp⟩ hs
        | judgeRead =>
            refine hl.held_of_same (fun a => ?_) ?_ hs
            · split <;> rfl
            · split <;> exact ⟨_, rfl, by simp⟩
        | clearResults self => exact hl.held_of_same (fun a => by simp) (hquiet rfl) hs
        | clearReads self => exact hl.held_of_same (fun a => by simp) (hquiet rfl) hs
        | rewrite self key value replica hentry =>
            have hne := hknown.ne_next (by simpa using hlt)
            have hold : .stored a m.transID m.key old new ∈ w.trace := by
              rw [trace_rewrite hentry] at hs
              rcases List.mem_append.mp hs with hold | hnew
              · exact hold
              · by_cases hv : value = []
                · simp [hv] at hnew
                · simp [hv] at hnew
                  exact absurd hnew.2.1 hne
            obtain ⟨text, hget, hdecodes⟩ := hl.held a old new hold
            by_cases ha : a = self
            · subst ha
              unfold Holds
              rw [get?_rewrite hentry]
              split
              case isTrue hkey =>
                obtain rfl : text = value :=
                  Option.some.inj (hget.symm.trans (hkey.1.symm ▸ hentry))
                exact ⟨_, rfl, hdecodes.rewritten _ _⟩
              case isFalse => exact ⟨text, hget, hdecodes⟩
            · unfold Holds
              rw [rewrite_others ha]
              exact ⟨text, hget, hdecodes⟩
        | arrive self uninit replica text queue arrived hq htext h =>
            by_cases hwrites : arrived.Writes m.key
            · have hsame := hl.pending self text (mem_pending_of_queue hq) uninit arrived htext
                hwrites
              subst hsame
              rw [Message.ofString_toString uninit hsend] at htext
              obtain rfl := Option.some.inj htext
              exact hl.held_of_write htype hvalue h hs
            · refine hl.held_of_same (fun b => ?_) ⟨_, h.trace, ?_⟩ hs
              · by_cases hb : b = self
                · subst hb
                  rw [h.ht, Message.get?_tableAfter hwrites]
                  simp [pop]
                · rw [h.others b hb]
                  simp [pop]
              · intro b old' new' hmem
                have hevent := stored_mem_events hmem
                exact hwrites ⟨Or.inr (Or.inl hevent.1), hevent.2.2.2.1.symm⟩

theorem Latest.issued {self : Address} {uninit : ReplicaType} {value : Str} {r₀ r₁ r₂ : Node}
    (hn : Numbered w) (hidle : NoWrite w key) (hlt : w.transID + 1 < 2 ^ 31)
    (hm : m = (Request.update key value).message self uninit w.nextTransID.gTransID) :
    Latest (w.issued self ((Request.update key value).message self uninit) r₀ r₁ r₂) m where
  pending := by
    intro b s hs uninit' arrived harrived hwrites
    subst hm
    rcases (mem_pending_append net_issued mp2q_issued).mp hs with ⟨p, hp, -, rfl⟩ | hold
    · obtain ⟨r, -, rfl⟩ := List.mem_map.mp hp
      rfl
    · exact absurd hwrites (hidle b s hold uninit' arrived harrived)
  held := by
    intro a old new hs
    subst hm
    exact absurd rfl ((hn.stored a _ _ old new hs).ne_next hlt)

end World

end CloudComputing.KeyValueStore
