import CloudComputing.KeyValueStore.Writes

/-!
# Delivering what is under way

A phase in which messages are only received and handled, in any order, and none
is lost.  For one key: the writes under way dwindle, and a node that is sent a
`CREATE` ends up with an entry.
-/

namespace CloudComputing.KeyValueStore

open Lib Relation

/-- What is stored on the message is an entry of `value`. -/
def Message.Yields (m : Message) (value : Str) : Prop :=
  ∀ timestamp replica, Decodes (Entry.convertToString ⟨m.value, timestamp, replica⟩) value

namespace World

/-- Messages are received and handled, and time passes. -/
def Delivering : World → Action → Prop
  | _, .receive _ | _, .checkMessages _ _ | _, .tick => True
  | _, .client _ _ _ | _, .updateRing _ _ | _, .lose _ => False

instance {w : World} {action : Action} : Decidable (Delivering w action) :=
  match action with
  | .receive _ | .checkMessages _ _ | .tick => inferInstanceAs (Decidable True)
  | .client _ _ _ | .updateRing _ _ | .lose _ => inferInstanceAs (Decidable False)

/-- Everything under way is received, and these nodes handle it. -/
def deliver (w : World) (nodes : List Nat) : List Action :=
  w.net.map .receive ++ nodes.map fun i => .checkMessages (sampleNode i) .primary

def WritesOnly (w : World) (key : Str) (q : Address → Message → Prop) : Prop :=
  ∀ b, ∀ s ∈ w.pending b, ∀ uninit m, Message.ofString uninit s = some m → m.Writes key → q b m

def Creates (key s : Str) : Prop :=
  ∀ uninit, ∃ m, Message.ofString uninit s = some m ∧ m.type = .create ∧ m.key = key

/-- The node has an entry or is sent one. -/
def Served (w : World) (key : Str) (b : Address) : Prop :=
  (w.node b).ht.get? key ≠ none ∨ ∃ s ∈ w.pending b, Creates key s

variable {hash : Str → Nat} {w w' : World} {a b : Address} {key value : Str}
  {q : Address → Message → Prop}

theorem changes_of_delivering (h : Allowed hash Delivering w w') :
    ReflTransGen (Change hash Delivering) w w' := by
  obtain ⟨action, hok, hstep, -⟩ := h
  cases action with
  | client | updateRing | lose => exact absurd hok id
  | checkMessages self uninit => exact changes_checkMessages hstep
  | receive p =>
      obtain ⟨hp, rfl⟩ := step_receive hstep
      exact .single (.receive w p hp)
  | tick =>
      obtain rfl := Option.some.inj hstep
      exact .single (.tick w)

theorem delivering_invariant {P : World → Prop}
    (hstep : ∀ v v', Change hash Delivering v v' → P v → P v')
    (h : Steps hash Delivering w w') (hP : P w) : P w' := by
  refine invariant_of_run ?_ h hP
  intro v v' hturn hP
  exact invariant_of_run hstep (changes_of_delivering hturn) hP

theorem WritesOnly.change (hw : WritesOnly w key q) (h : Change hash Delivering w w') :
    WritesOnly w' key q := by
  intro b s hs uninit m hm hwrites
  cases sent_of_change h hs with
  | old hold => exact hw b s hold uninit m hm hwrites
  | request self uninit' request hok hto hnext hs => exact absurd hok id
  | answer self uninit' text arrived answer hpending htext hanswer hto hs =>
      subst hs
      exact absurd hwrites (Message.not_writes_answer hanswer hm)

/-- A message that is not lost stays under way until its receiver handles it. -/
theorem pending_of_change {ok : World → Action → Prop} {s : Str}
    (hlose : ∀ p, ok w (.lose p) → p.data ≠ s) (h : Change hash ok w w') (hs : s ∈ w.pending b) :
    s ∈ w'.pending b ∨ ∃ uninit replica queue arrived, Message.ofString uninit s = some arrived ∧
      Handled uninit b arrived replica (w.pop b queue) w' := by
  cases h with
  | tick => exact Or.inl hs
  | receive p hp => exact Or.inl ((pending_receive_perm hp).mem_iff.mpr hs)
  | lose p hp hok =>
      refine Or.inl ?_
      rcases List.mem_append.mp ((pending_erase_perm hp).mem_iff.mp hs) with hlost | hrest
      · split at hlost
        case isTrue => exact absurd (List.mem_singleton.mp hlost).symm (hlose p hok)
        case isFalse => cases hlost
      · exact hrest
  | reorder net hnet => exact Or.inl ((pending_reorder_perm hnet).mem_iff.mpr hs)
  | issue self uninit request r₀ r₁ r₂ hok =>
      exact Or.inl ((mem_pending_append net_issued mp2q_issued).mpr (Or.inr hs))
  | judgeUpdate => exact Or.inl hs
  | judgeRead =>
      refine Or.inl ?_
      split <;> exact hs
  | clearResults self => exact Or.inl (by simpa using hs)
  | clearReads self => exact Or.inl (by simpa using hs)
  | rewrite => exact Or.inl (by simpa using hs)
  | arrive self uninit replica text queue arrived hq htext h =>
      rcases List.mem_append.mp ((pending_pop_perm hq).mem_iff.mp hs) with hfirst | hrest
      · split at hfirst
        case isTrue hb =>
          subst hb
          obtain rfl := List.mem_singleton.mp hfirst
          exact Or.inr ⟨uninit, replica, queue, arrived, htext, h⟩
        case isFalse => cases hfirst
      · exact Or.inl ((mem_pending_append h.net h.mp2q_all).mpr (Or.inr hrest))

theorem get?_ne_none_of_change {ok : World → Action → Prop}
    (hw : WritesOnly w key fun c m => c = b → m.type ≠ .delete)
    (h : Change hash ok w w') (hb : (w.node b).ht.get? key ≠ none) :
    (w'.node b).ht.get? key ≠ none := by
  cases entered_of_change h b key with
  | same hsame => rwa [hsame]
  | rewritten value replica hold hnew => simp [hnew]
  | handled uninit replica s arrived hpending hs hwrites ht =>
      have htype := hw b s hpending uninit arrived hs hwrites rfl
      rw [ht]
      unfold Message.tableAfter
      split
      case h_1 =>
        rw [HashTable.get?_create]
        split
        · simp
        · exact hb
      case h_2 =>
        rw [HashTable.get?_update]
        split
        · simp
        · exact hb
      case h_3 hdelete => exact absurd hdelete htype
      case h_4 => exact hb

theorem Served.change (hs : Served w key b)
    (hw : WritesOnly w key fun c m => c = b → m.type ≠ .delete)
    (h : Change hash Delivering w w') : Served w' key b := by
  rcases hs with hb | ⟨s, hs, hcreates⟩
  · exact Or.inl (get?_ne_none_of_change hw h hb)
  · rcases pending_of_change (fun _ hlost => absurd hlost id) h hs with hstill |
      ⟨uninit, replica, queue, arrived, harrived, hh⟩
    · exact Or.inr ⟨s, hstill, hcreates⟩
    · obtain ⟨m, hm, htype, hkey⟩ := hcreates uninit
      obtain rfl := Option.some.inj (hm.symm.trans harrived)
      refine Or.inl ?_
      rw [hh.ht, Message.tableAfter, htype]
      simp only [HashTable.get?_create, hkey, true_and]
      split
      · simp
      · assumption

theorem Served.get?_ne_none (hs : Served w key b) (hdone : NoWriteTo w key b) :
    (w.node b).ht.get? key ≠ none := by
  rcases hs with hb | ⟨s, hs, hcreates⟩
  · exact hb
  · obtain ⟨m, hm, htype, hkey⟩ := hcreates .primary
    exact absurd ⟨Or.inl htype, hkey⟩ (hdone s hs .primary m hm)

theorem get?_eq_none_of_change {ok : World → Action → Prop}
    (hw : WritesOnly w key fun c m => c = b → m.type ≠ .create) (h : Change hash ok w w')
    (hb : (w.node b).ht.get? key = none) : (w'.node b).ht.get? key = none := by
  cases entered_of_change h b key with
  | same hsame => rwa [hsame]
  | rewritten value replica hold hnew =>
      rw [hb] at hold
      cases hold
  | handled uninit replica s arrived hpending hs hwrites ht =>
      have htype := hw b s hpending uninit arrived hs hwrites rfl
      have hread : (w.node b).ht.read key = [] := by
        rw [HashTable.read_eq, hb, Option.getD_none]
      rw [ht]
      unfold Message.tableAfter
      split
      case h_1 hcreate => exact absurd hcreate htype
      case h_2 =>
        rw [HashTable.get?_update, hwrites.2, hread]
        simpa using hb
      case h_3 =>
        rw [HashTable.get?_deleteKey, hwrites.2, hread]
        simpa using hb
      case h_4 => exact hb

/-- When all writes under way yield entries of `value`, the entries of a node stay such. -/
theorem decodes_of_change {ok : World → Action → Prop}
    (hw : WritesOnly w key fun c m => c = b → m.Yields value) (h : Change hash ok w w')
    (hb : ∀ text, (w.node b).ht.get? key = some text → Decodes text value) :
    ∀ text, (w'.node b).ht.get? key = some text → Decodes text value := by
  intro text htext
  cases entered_of_change h b key with
  | same hsame =>
      rw [hsame] at htext
      exact hb text htext
  | rewritten value replica hold hnew =>
      obtain rfl := Option.some.inj (hnew.symm.trans htext)
      exact (hb value hold).rewritten _ _
  | handled uninit replica s arrived hpending hs hwrites ht =>
      have hdecodes := hw b s hpending uninit arrived hs hwrites rfl
      rw [ht] at htext
      unfold Message.tableAfter at htext
      split at htext
      case h_1 =>
        rw [HashTable.get?_create] at htext
        split at htext
        · obtain rfl := Option.some.inj htext
          exact hdecodes _ _
        · exact hb text htext
      case h_2 =>
        rw [HashTable.get?_update] at htext
        split at htext
        · obtain rfl := Option.some.inj htext
          exact hdecodes _ _
        · exact hb text htext
      case h_3 =>
        rw [HashTable.get?_deleteKey] at htext
        split at htext
        · cases htext
        · exact hb text htext
      case h_4 => exact hb text htext

/-! ## A whole delivery -/

theorem WritesOnly.mono {q' : Address → Message → Prop} (hq : ∀ c m, q c m → q' c m)
    (hw : WritesOnly w key q) : WritesOnly w key q' :=
  fun b s hs uninit m hm hwrites => hq b m (hw b s hs uninit m hm hwrites)

theorem delivered {P : World → Prop}
    (hstep : ∀ v v', WritesOnly v key q → Change hash Delivering v v' → P v → P v')
    (hw : WritesOnly w key q) (h : Steps hash Delivering w w') (hP : P w) : P w' := by
  have hboth := delivering_invariant (P := fun v => WritesOnly v key q ∧ P v)
    (fun v v' hchange hv => ⟨hv.1.change hchange, hstep v v' hv.1 hchange hv.2⟩) h ⟨hw, hP⟩
  exact hboth.2

theorem Served.delivered (hw : WritesOnly w key fun c m => c = b → m.type ≠ .delete)
    (h : Steps hash Delivering w w') (hs : Served w key b) : Served w' key b :=
  World.delivered (P := fun v => Served v key b)
    (fun _ _ hv hchange hs => hs.change hv hchange) hw h hs

theorem kept_delivered (hw : WritesOnly w key fun c m => c = b → m.type ≠ .delete)
    (h : Steps hash Delivering w w') (hb : (w.node b).ht.get? key ≠ none) :
    (w'.node b).ht.get? key ≠ none :=
  delivered (P := fun v => (v.node b).ht.get? key ≠ none)
    (fun _ _ hv hchange hb => get?_ne_none_of_change hv hchange hb) hw h hb

theorem lacking_delivered (hw : WritesOnly w key fun c m => c = b → m.type ≠ .create)
    (h : Steps hash Delivering w w') (hb : (w.node b).ht.get? key = none) :
    (w'.node b).ht.get? key = none :=
  delivered (P := fun v => (v.node b).ht.get? key = none)
    (fun _ _ hv hchange hb => get?_eq_none_of_change hv hchange hb) hw h hb

theorem decodes_delivered (hw : WritesOnly w key fun c m => c = b → Decodes m.value value)
    (h : Steps hash Delivering w w')
    (hb : ∀ text, (w.node b).ht.get? key = some text → Decodes text value) :
    ∀ text, (w'.node b).ht.get? key = some text → Decodes text value :=
  delivered (P := fun v => ∀ text, (v.node b).ht.get? key = some text → Decodes text value)
    (fun _ _ hv hchange hb => decodes_of_change
      (hv.mono fun _ _ hm hc timestamp replica => (hm hc).rewritten timestamp replica) hchange hb)
    hw h hb

end World

end CloudComputing.KeyValueStore
