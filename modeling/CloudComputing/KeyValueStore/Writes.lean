import CloudComputing.KeyValueStore.Wire

/-!
# Writes of one key

Which messages can change the entry of a key, how a change of the world can
change it, and what the stored text decodes to.
-/

namespace CloudComputing.KeyValueStore

open Lib Relation

def Message.Writes (key : Str) (m : Message) : Prop :=
  (m.type = .create ∨ m.type = .update ∨ m.type = .delete) ∧ m.key = key

/-- The stored text is an entry of the value. -/
def Decodes (text value : Str) : Prop := (Entry.ofString text).map Entry.value = some value

instance {text value : Str} : Decidable (Decodes text value) :=
  inferInstanceAs (Decidable (_ = _))

theorem decodes_entry {value : Str} (h : ':' ∉ value) (timestamp : Int32)
    (replica : ReplicaType) :
    Decodes (Entry.convertToString ⟨value, timestamp, replica⟩) value := by
  unfold Decodes
  rw [Entry.ofString_convertToString h]
  rfl

/-- A text stored as a value once more still decodes to the same value. -/
theorem Decodes.rewritten {text value : Str} (h : Decodes text value) (timestamp : Int32)
    (replica : ReplicaType) :
    Decodes (Entry.convertToString ⟨text, timestamp, replica⟩) value := by
  obtain ⟨e, he, rfl⟩ := Option.map_eq_some_iff.mp h
  unfold Decodes
  rw [Entry.ofString_rewritten he]
  rfl

theorem Decodes.ne_nil {text value : Str} (h : Decodes text value) : text ≠ [] := by
  rintro rfl
  obtain ⟨e, he, -⟩ := Option.map_eq_some_iff.mp h
  cases he

/-- What a `READREPLY` can bring: nothing, or an entry. -/
def Readable (s : Str) : Prop := s = [] ∨ ∃ value, Decodes s value

theorem Message.get?_tableAfter {arrived : Message} {key : Str} (h : ¬ arrived.Writes key)
    (replica : ReplicaType) (now : Int32) (ht : HashTable) :
    (arrived.tableAfter replica now ht).get? key = ht.get? key := by
  have hne : arrived.type = .create ∨ arrived.type = .update ∨ arrived.type = .delete →
      key ≠ arrived.key := fun htype hkey => h ⟨htype, hkey.symm⟩
  unfold Message.tableAfter
  split
  case h_1 htype => rw [HashTable.get?_create, if_neg fun hand => hne (by simp [htype]) hand.1]
  case h_2 htype => rw [HashTable.get?_update, if_neg fun hand => hne (by simp [htype]) hand.1]
  case h_3 htype => rw [HashTable.get?_deleteKey, if_neg fun hand => hne (by simp [htype]) hand.1]
  case h_4 => rfl

theorem Message.not_writes_answer {uninit uninit' : ReplicaType} {self : Address}
    {arrived answer m : Message} {ht : HashTable} {key : Str}
    (hanswer : arrived.answer uninit self ht = some answer)
    (hm : Message.ofString uninit' answer.toString = some m) : ¬ m.Writes key := by
  rintro ⟨htype, -⟩
  rw [(Message.ofString_toString_some hm).1] at htype
  unfold Message.answer at hanswer
  split at hanswer
  case h_5 => cases hanswer
  all_goals
    obtain rfl := Option.some.inj hanswer
    simp at htype

namespace World

def NoWriteTo (w : World) (key : Str) (b : Address) : Prop :=
  ∀ s ∈ w.pending b, ∀ uninit m, Message.ofString uninit s = some m → ¬ m.Writes key

def Holds (w : World) (a : Address) (key value : Str) : Prop :=
  ∃ text, (w.node a).ht.get? key = some text ∧ Decodes text value

instance {w : World} {a : Address} {key value : Str} : Decidable (Holds w a key value) :=
  inferInstanceAs (Decidable (∃ text ∈ (w.node a).ht.get? key, Decodes text value))

variable {hash : Str → Nat} {ok : World → Action → Prop} {w w' : World} {b : Address}
  {key : Str}

theorem holds_of_decodes {value : Str} (h : (w.node b).ht.get? key ≠ none)
    (hdecodes : ∀ text, (w.node b).ht.get? key = some text → Decodes text value) :
    Holds w b key value := by
  obtain ⟨text, htext⟩ := Option.ne_none_iff_exists'.mp h
  exact ⟨text, htext, hdecodes text htext⟩

theorem Holds.ne_none {value : Str} (h : Holds w b key value) :
    (w.node b).ht.get? key ≠ none := by
  obtain ⟨text, htext, -⟩ := h
  simp [htext]

theorem Holds.decodes {value text : Str} (h : Holds w b key value)
    (htext : (w.node b).ht.get? key = some text) : Decodes text value := by
  obtain ⟨text', htext', hdecodes⟩ := h
  rwa [← Option.some.inj (htext'.symm.trans htext)]

/-- The ways an entry can be what it is after a change. -/
inductive Entered (w w' : World) (b : Address) (key : Str) : Prop
  | same (h : (w'.node b).ht.get? key = (w.node b).ht.get? key)
  | rewritten (value : Str) (replica : ReplicaType) (hold : (w.node b).ht.get? key = some value)
      (hnew : (w'.node b).ht.get? key =
        some (Entry.convertToString ⟨value, w.currtime, replica⟩))
  | handled (uninit replica : ReplicaType) (s : Str) (arrived : Message)
      (hpending : s ∈ w.pending b) (hs : Message.ofString uninit s = some arrived)
      (hwrites : arrived.Writes key)
      (ht : (w'.node b).ht = arrived.tableAfter replica w.currtime (w.node b).ht)

theorem entered_of_change (h : Change hash ok w w') (b : Address) (key : Str) :
    Entered w w' b key := by
  cases h with
  | tick | lose | reorder | judgeUpdate => exact .same rfl
  | receive p hp => exact .same (by simp [receive])
  | issue => exact .same (by simp)
  | judgeRead =>
      refine .same ?_
      split <;> rfl
  | clearResults self => exact .same (by simp)
  | clearReads self => exact .same (by simp)
  | rewrite self key' value replica hvalue =>
      by_cases hb : b = self
      · subst hb
        by_cases hkey : key = key' ∧ value ≠ []
        · refine .rewritten value replica (hkey.1 ▸ hvalue) ?_
          rw [get?_rewrite hvalue, if_pos hkey]
        · exact .same (by rw [get?_rewrite hvalue, if_neg hkey])
      · exact .same (by rw [rewrite_others hb])
  | arrive self uninit replica s queue arrived hq hs h =>
      by_cases hb : b = self
      · subst hb
        have ht := h.ht
        simp only [pop, node_modifyNode_self, currtime_modifyNode] at ht
        by_cases hwrites : arrived.Writes key
        · exact .handled uninit replica s arrived (mem_pending_of_queue hq) hs hwrites ht
        · exact .same (by rw [ht, Message.get?_tableAfter hwrites])
      · refine .same ?_
        rw [h.others b hb]
        simp [pop]

end World

end CloudComputing.KeyValueStore
