import CloudComputing.KeyValueStore.Wire

/-!
# Transaction ids

All nodes draw ids from `g_transID`, for client operations and for what
stabilization sends.  Below 2^31 a drawn id is new: nothing under way, no table
and no line of the log knows it.
-/

namespace CloudComputing.KeyValueStore

open Lib Relation

namespace World

variable {hash : Str → Nat} {ok : World → Action → Prop} {w w' : World} {a b : Address}
  {s : Str} {t : Int32}

def Known (w : World) (t : Int32) : Prop := ∃ n ≤ w.transID, t = Int32.ofNat n

theorem Known.mono (h : Known w t) (hle : w.transID ≤ w'.transID) : Known w' t := by
  obtain ⟨n, hn, rfl⟩ := h
  exact ⟨n, hn.trans hle, rfl⟩

theorem known_next : Known w w.gTransID := ⟨w.transID, le_refl _, rfl⟩

theorem ofNat_inj {n m : Nat} (hn : n < 2 ^ 31) (hm : m < 2 ^ 31)
    (h : Int32.ofNat n = Int32.ofNat m) : n = m := by
  have hint := congrArg Int32.toInt h
  rw [Int32.toInt_ofNat_of_lt hn, Int32.toInt_ofNat_of_lt hm] at hint
  omega

theorem Known.ne_next (h : Known w t) (hlt : w.transID + 1 < 2 ^ 31) :
    t ≠ w.nextTransID.gTransID := by
  obtain ⟨n, hn, rfl⟩ := h
  intro heq
  have := ofNat_inj (by omega) hlt heq
  omega

theorem transID_le_of_alters (h : Alters hash ok w w') : w.transID ≤ w'.transID := by
  cases h with
  | change h =>
      cases h with
      | tick | receive | lose | reorder | judgeUpdate | clearResults | clearReads =>
          exact le_refl _
      | issue => exact Nat.le_succ _
      | arrive self uninit replica text queue arrived hq htext h =>
          rw [h.transID]
          exact le_refl _
      | judgeRead => split <;> exact le_refl _
      | rewrite => simp
  | reshape h =>
      cases h with
      | copy => exact Nat.le_succ _
      | setRing => exact le_refl _

/-- A change after which the counter has not overflowed. -/
def Bounded (r : World → World → Prop) (w w' : World) : Prop :=
  r w w' ∧ w'.transID < 2 ^ 31

theorem transID_le_of_path (h : ReflTransGen (Alters hash ok) w w') : w.transID ≤ w'.transID := by
  induction h with
  | refl => exact le_refl _
  | tail _ h ih => exact ih.trans (transID_le_of_alters h)

/-- The counter only grows, so a bound at the end holds all the way. -/
theorem bounded_path {r : World → World → Prop}
    (hmono : ∀ v v', r v v' → v.transID ≤ v'.transID) (h : ReflTransGen r w w')
    (hlt : w'.transID < 2 ^ 31) : ReflTransGen (Bounded r) w w' := by
  induction h with
  | refl => exact .refl
  | tail _ hstep ih =>
      have hle := hmono _ _ hstep
      exact (ih (by omega)).tail ⟨hstep, hlt⟩

theorem transID_le_of_step {action : Action} (hw : Wire w) (h : w.step hash action = some w') :
    w.transID ≤ w'.transID :=
  transID_le_of_path (alters_of_step hw.cleanTable h)

theorem transID_le_of_steps (hw : Wire w) (h : Steps hash ok w w') : w.transID ≤ w'.transID := by
  have hrun := invariant_of_run (P := fun v => Wire v ∧ w.transID ≤ v.transID)
    (fun v v' ⟨_, _, hstep, _⟩ hv => ⟨hv.1.step hstep, hv.2.trans (transID_le_of_step hv.1 hstep)⟩)
    h ⟨hw, le_refl _⟩
  exact hrun.2

/-! ## Where a table entry and a line of the log come from -/

/-- An operation is in the table of a node already or was issued there. -/
theorem operation_of_alters (h : Alters hash ok w w')
    (hs : (w'.node a).operationTable[t]? = some s) :
    (w.node a).operationTable[t]? = some s ∨
      ∃ uninit request r₀ r₁ r₂, ok w (.client a uninit request) ∧
        findNodes hash request.key (w.node a).ring = [r₀, r₁, r₂] ∧
        t = w.nextTransID.gTransID ∧ s = (request.message a uninit t).toString ∧
        w' = w.issued a (request.message a uninit) r₀ r₁ r₂ := by
  cases h with
  | change h =>
      cases h with
      | tick | lose | reorder | judgeUpdate => exact Or.inl hs
      | receive p hp => exact Or.inl (by simpa [receive] using hs)
      | clearResults self => exact Or.inl (by simpa using hs)
      | clearReads self => exact Or.inl (by simpa using hs)
      | judgeRead =>
          refine Or.inl ?_
          split at hs <;> exact hs
      | arrive self uninit replica text queue arrived hq htext h =>
          refine Or.inl ?_
          by_cases ha : a = self
          · subst ha
            rw [h.operationTable] at hs
            simpa [pop] using hs
          · rw [h.others a ha] at hs
            simpa [pop] using hs
      | rewrite => exact Or.inl (by simpa using hs)
      | issue self uninit request r₀ r₁ r₂ hok hfind =>
          by_cases ha : a = self
          · subst ha
            by_cases ht : t = w.nextTransID.gTransID
            · refine Or.inr ⟨uninit, request, r₀, r₁, r₂, hok, hfind, ht, ?_, rfl⟩
              simpa [issued, ← ht] using hs.symm
            · refine Or.inl ?_
              simpa [issued, Std.TreeMap.getElem?_insert, Ne.symm ht] using hs
          · exact Or.inl (by simpa [issued, node_modifyNode_of_ne ha] using hs)
  | reshape h =>
      cases h with
      | copy => exact Or.inl hs
      | setRing self ring => exact Or.inl (by simpa using hs)

theorem operation_kept (hknown : Known w t) (hlt : w'.transID < 2 ^ 31) (h : Alters hash ok w w')
    (hs : (w.node a).operationTable[t]? = some s) : (w'.node a).operationTable[t]? = some s := by
  cases h with
  | change h =>
      cases h with
      | tick | lose | reorder | judgeUpdate => exact hs
      | receive p hp => simpa [receive] using hs
      | clearResults self => simpa using hs
      | clearReads self => simpa using hs
      | judgeRead => split <;> exact hs
      | rewrite => simpa using hs
      | arrive self uninit replica text queue arrived hq htext h =>
          by_cases ha : a = self
          · subst ha
            rw [h.operationTable]
            simpa [pop] using hs
          · rw [h.others a ha]
            simpa [pop] using hs
      | issue self uninit request r₀ r₁ r₂ hok hfind =>
          by_cases ha : a = self
          · subst ha
            have hne : w.nextTransID.gTransID ≠ t := (hknown.ne_next hlt).symm
            simpa [issued, Std.TreeMap.getElem?_insert, hne] using hs
          · simpa [issued, node_modifyNode_of_ne ha] using hs
  | reshape h =>
      cases h with
      | copy => exact hs
      | setRing self ring => simpa using hs

def Noted (w : World) (a : Address) (t : Int32) : Prop :=
  t ∈ (w.node a).resultTable ∨ t ∈ (w.node a).readValueTable

theorem mem_results {arrived : Message} {table : Std.TreeMap Int32 (List Bool)}
    (h : t ∈ arrived.results table) : arrived.transID = t ∨ t ∈ table := by
  unfold Message.results at h
  split at h
  case h_1 => simpa using h
  case h_2 => exact Or.inr h

theorem mem_readValues {arrived : Message} {table : Std.TreeMap Int32 (List Str)}
    (h : t ∈ arrived.readValues table) : arrived.transID = t ∨ t ∈ table := by
  unfold Message.readValues at h
  split at h
  case h_3 => exact Or.inr h
  all_goals simpa using h

theorem noted_of_alters (h : Alters hash ok w w') (hs : Noted w' a t) : Noted w a t ∨
    ∃ uninit s arrived, s ∈ w.pending a ∧ Message.ofString uninit s = some arrived ∧
      arrived.transID = t := by
  cases h with
  | change h =>
      cases h with
      | tick | lose | reorder | judgeUpdate => exact Or.inl hs
      | receive p hp => exact Or.inl (by simpa [Noted, receive] using hs)
      | issue self uninit request r₀ r₁ r₂ hok hfind => exact Or.inl (by simpa [Noted] using hs)
      | rewrite => exact Or.inl (by simpa [Noted] using hs)
      | judgeRead =>
          refine Or.inl ?_
          split at hs <;> exact hs
      | clearResults self =>
          refine Or.inl ?_
          by_cases ha : a = self
          · subst ha
            exact Or.inr (by simpa [Noted] using hs)
          · simpa [Noted, node_modifyNode_of_ne ha] using hs
      | clearReads self =>
          refine Or.inl ?_
          by_cases ha : a = self
          · subst ha
            exact Or.inl (by simpa [Noted] using hs)
          · simpa [Noted, node_modifyNode_of_ne ha] using hs
      | arrive self uninit replica text queue arrived hq htext h =>
          by_cases ha : a = self
          · subst ha
            unfold Noted at hs
            rw [h.resultTable, h.readValueTable] at hs
            simp only [pop, node_modifyNode_self] at hs
            have hor : arrived.transID = t ∨ Noted w a t := by
              rcases hs with hs | hs
              · exact (mem_results hs).imp_right Or.inl
              · exact (mem_readValues hs).imp_right Or.inr
            rcases hor with ht | hold
            · exact Or.inr ⟨uninit, text, arrived, mem_pending_of_queue hq, htext, ht⟩
            · exact Or.inl hold
          · refine Or.inl ?_
            unfold Noted at hs
            rw [h.others a ha] at hs
            simpa [Noted, pop, node_modifyNode_of_ne ha] using hs
  | reshape h =>
      cases h with
      | copy => exact Or.inl hs
      | setRing self ring => exact Or.inl (by simpa [Noted] using hs)

theorem stored_mem_events {arrived : Message} {replica : ReplicaType} {now : Int32}
    {ht : HashTable} {key old new : Str}
    (h : .stored a t key old new ∈ arrived.events b replica now ht) :
    arrived.type = .update ∧ a = b ∧ t = arrived.transID ∧ key = arrived.key ∧
      new = Entry.convertToString ⟨arrived.value, now, replica⟩ := by
  unfold Message.events at h
  split at h
  case h_2 htype =>
    by_cases hfound : ht.read arrived.key = []
    · simp [hfound] at h
    · simp only [hfound, ne_eq, not_false_eq_true, decide_true, if_true, List.cons_append,
        List.nil_append, List.mem_cons, Event.stored.injEq, reduceCtorEq, List.not_mem_nil,
        or_false] at h
      obtain ⟨ha, ht, hkey, -, hnew⟩ := h
      exact ⟨htype, ha, ht, hkey, hnew⟩
  all_goals simp at h

theorem stored_of_alters {key old new : Str} (h : Alters hash ok w w')
    (hs : .stored a t key old new ∈ w'.trace) : .stored a t key old new ∈ w.trace ∨
      (∃ uninit s arrived, s ∈ w.pending a ∧ Message.ofString uninit s = some arrived ∧
        arrived.type = .update ∧ arrived.transID = t ∧ key = arrived.key ∧
        ∃ replica, new = Entry.convertToString ⟨arrived.value, w.currtime, replica⟩) ∨
      t = w.nextTransID.gTransID ∧ w'.transID = w.transID + 1 := by
  cases h with
  | change h =>
      cases h with
      | tick | receive | lose | reorder | clearResults | clearReads | issue => exact Or.inl hs
      | judgeUpdate => exact Or.inl (by simpa [judged] using hs)
      | judgeRead =>
          refine Or.inl ?_
          split at hs <;> simpa using hs
      | arrive self uninit replica text queue arrived hq htext h =>
          rw [h.trace] at hs
          rcases List.mem_append.mp hs with hold | hnew
          · exact Or.inl hold
          · obtain ⟨htype, rfl, rfl, rfl, rfl⟩ := stored_mem_events hnew
            exact Or.inr (Or.inl ⟨uninit, text, arrived, mem_pending_of_queue hq, htext, htype,
              rfl, rfl, replica, rfl⟩)
      | rewrite self key' value replica hvalue =>
          rw [trace_rewrite hvalue] at hs
          rcases List.mem_append.mp hs with hold | hnew
          · exact Or.inl hold
          · refine Or.inr (Or.inr ⟨?_, transID_rewrite⟩)
            by_cases hv : value = []
            · simp [hv] at hnew
            · simp [hv] at hnew
              exact hnew.2.1
  | reshape h =>
      cases h with
      | copy | setRing => exact Or.inl hs

/-- How a coordinator comes to a verdict in `w`. -/
inductive Judged (w : World) (e : LogEntry) : Prop
  | update (self : Address) (uninit : ReplicaType) (results : List Bool) (text : Str)
      (received : Message) (op : Operation) (value : Str)
      (hresults : (w.node self).resultTable[e.transID]? = some results)
      (htable : (w.node self).operationTable[e.transID]? = some text)
      (htext : Message.ofString uninit text = some received)
      (hop : (received.type = .create ∧ op = .create ∧ value = received.value) ∨
        (received.type = .update ∧ op = .update ∧ value = received.value) ∨
        (received.type = .delete ∧ op = .delete ∧ value = []))
      (he : e = ⟨received.fromAddr, true, op, 1 < results.count true, e.transID, received.key,
        value, w.currtime⟩)
  | read (self : Address) (uninit : ReplicaType) (values : List Str) (text : Str)
      (received : Message) (v : ReadValues)
      (hvalues : (w.node self).readValueTable[e.transID]? = some values)
      (htable : (w.node self).operationTable[e.transID]? = some text)
      (htext : Message.ofString uninit text = some received) (htype : received.type = .read)
      (hv : values.foldlM readValue ⟨0, [], false⟩ = some v)
      (he : e = if 1 < v.counter ∧ v.value ≠ [] ∧ v.moreThan1Value = false
        then ⟨received.fromAddr, true, .read, true, e.transID, received.key, v.value, w.currtime⟩
        else ⟨received.fromAddr, true, .read, false, e.transID, received.key, [], w.currtime⟩)

theorem isCoordinator_mem_events {arrived : Message} {replica : ReplicaType} {now : Int32}
    {ht : HashTable} {e : LogEntry} (h : .logged e ∈ arrived.events b replica now ht) :
    e.isCoordinator = false := by
  unfold Message.events at h
  split at h
  case h_2 =>
    by_cases hfound : ht.read arrived.key = []
    · simp only [hfound, ne_eq, not_true_eq_false, decide_false, Bool.false_eq_true, if_false,
        List.nil_append, List.mem_singleton, Event.logged.injEq] at h
      rw [h]
    · simp only [hfound, ne_eq, not_false_eq_true, decide_true, if_true, List.cons_append,
        List.nil_append, List.mem_cons, reduceCtorEq, Event.logged.injEq, List.not_mem_nil,
        or_false, false_or] at h
      rw [h]
  case h_5 => cases h
  all_goals
    simp only [List.mem_singleton, Event.logged.injEq] at h
    rw [h]

/-- The log only grows, and every new verdict was come to. -/
theorem trace_of_alters (h : Alters hash ok w w') : ∃ l, w'.trace = w.trace ++ l ∧
    ∀ e, .logged e ∈ l → e.isCoordinator = true → Judged w e := by
  have hquiet : w'.trace = w.trace → ∃ l, w'.trace = w.trace ++ l ∧
      ∀ e, .logged e ∈ l → e.isCoordinator = true → Judged w e :=
    fun heq => ⟨[], by simpa using heq, fun e he => by cases he⟩
  cases h with
  | change h =>
      cases h with
      | tick | receive | lose | reorder | clearResults | clearReads | issue => exact hquiet rfl
      | arrive self uninit replica text queue arrived hq htext h =>
          refine ⟨_, h.trace, fun e he hco => ?_⟩
          rw [isCoordinator_mem_events he] at hco
          cases hco
      | judgeUpdate self uninit t results text received op value hresults htable htext hop =>
          refine ⟨_, rfl, fun e he _ => ?_⟩
          obtain rfl := Event.logged.inj (List.mem_singleton.mp he)
          exact .update self uninit results text received op value hresults htable htext hop rfl
      | judgeRead self uninit t values text received v hvalues htable htext htype hv =>
          by_cases hgood : 1 < v.counter ∧ v.value ≠ [] ∧ v.moreThan1Value = false
          · rw [if_pos hgood]
            refine ⟨_, rfl, fun e he _ => ?_⟩
            obtain rfl := Event.logged.inj (List.mem_singleton.mp he)
            exact .read self uninit values text received v hvalues htable htext htype hv
              (by rw [if_pos hgood])
          · rw [if_neg hgood]
            refine ⟨_, rfl, fun e he _ => ?_⟩
            obtain rfl := Event.logged.inj (List.mem_singleton.mp he)
            exact .read self uninit values text received v hvalues htable htext htype hv
              (by rw [if_neg hgood])
      | rewrite self key value replica hvalue =>
          obtain ⟨l, htrace, hl⟩ := quiet_rewrite replica hvalue
          refine ⟨l, htrace, fun e he hco => ?_⟩
          rw [hl e he] at hco
          cases hco
  | reshape h =>
      cases h with
      | copy | setRing => exact hquiet rfl

/-- Everything that carries an id carries one that has been drawn. -/
structure Numbered (w : World) : Prop where
  pending : ∀ b, ∀ s ∈ w.pending b, ∀ uninit m, Message.ofString uninit s = some m →
    Known w m.transID
  operation : ∀ a t, t ∈ (w.node a).operationTable → Known w t
  noted : ∀ a t, Noted w a t → Known w t
  stored : ∀ a t key old new, .stored a t key old new ∈ w.trace → Known w t
  verdict : ∀ e, .logged e ∈ w.trace → e.isCoordinator = true → Known w e.transID

theorem transID_answer {uninit : ReplicaType} {arrived m : Message} {ht : HashTable}
    (h : arrived.answer uninit a ht = some m) : m.transID = arrived.transID := by
  unfold Message.answer at h
  split at h
  case h_5 => cases h
  all_goals
    obtain rfl := Option.some.inj h
    rfl

theorem Numbered.alters (hn : Numbered w) (h : Alters hash ok w w') : Numbered w' := by
  have hle := transID_le_of_alters h
  have hnext : w'.transID = w.transID + 1 → Known w' w.nextTransID.gTransID :=
    fun heq => ⟨w.transID + 1, heq.ge, rfl⟩
  constructor
  case pending =>
    intro b s hs uninit m hm
    rcases sent_of_alters h hs with hsent | ⟨self, key, value, type, replica, -, -, -, -, heq, hs⟩
    · cases hsent with
      | old hold => exact (hn.pending b s hold uninit m hm).mono hle
      | request self uninit' request hok hto heq hs =>
          subst hs
          rw [(Message.ofString_toString_some hm).2.2]
          cases request <;> exact hnext heq
      | answer self uninit' text arrived answer hpending htext hanswer hto hs =>
          subst hs
          rw [(Message.ofString_toString_some hm).2.2, transID_answer hanswer]
          exact (hn.pending self text hpending uninit' arrived htext).mono hle
    · subst hs
      rw [(Message.ofString_toString_some hm).2.2]
      exact hnext heq
  case operation =>
    intro a t hs
    have hget := Std.TreeMap.getElem?_eq_some_getElem hs
    rcases operation_of_alters h hget with hold | ⟨uninit, request, r₀, r₁, r₂, -, -, rfl, -, rfl⟩
    · refine (hn.operation a t ?_).mono hle
      rw [Std.TreeMap.mem_iff_isSome_getElem?, hold, Option.isSome_some]
    · exact hnext rfl
  case noted =>
    intro a t hs
    rcases noted_of_alters h hs with hold | ⟨uninit, s, arrived, hpending, hdecode, rfl⟩
    · exact (hn.noted a t hold).mono hle
    · exact (hn.pending a s hpending uninit arrived hdecode).mono hle
  case stored =>
    intro a t key old new hs
    rcases stored_of_alters h hs with hold | ⟨uninit, s, arrived, hpending, hdecode, -, rfl, -⟩ |
      ⟨rfl, heq⟩
    · exact (hn.stored a t key old new hold).mono hle
    · exact (hn.pending a s hpending uninit arrived hdecode).mono hle
    · exact hnext heq
  case verdict =>
    intro e he hco
    obtain ⟨l, htrace, hjudged⟩ := trace_of_alters h
    rw [htrace] at he
    rcases List.mem_append.mp he with hold | hnew
    · exact (hn.verdict e hold hco).mono hle
    · have hmem : ∃ a, e.transID ∈ (w.node a).operationTable := by
        cases hjudged e hnew hco with
        | update self uninit results text received op value hresults htable =>
            exact ⟨self, Std.TreeMap.mem_iff_isSome_getElem?.mpr (by rw [htable]; rfl)⟩
        | read self uninit values text received v hvalues htable =>
            exact ⟨self, Std.TreeMap.mem_iff_isSome_getElem?.mpr (by rw [htable]; rfl)⟩
      obtain ⟨a, hmem⟩ := hmem
      exact (hn.operation a _ hmem).mono hle

theorem Numbered.step {action : Action} (hw : Wire w) (hn : Numbered w)
    (h : w.step hash action = some w') : Numbered w' :=
  invariant_of_run (fun _ _ h hn => hn.alters h)
    (alters_of_step hw.cleanTable h) hn

/-! ## The start -/

theorem numbered_initial : Numbered initial where
  pending := by simp [initial, MP2Node.new, World.pending]
  operation := by simp [initial, MP2Node.new]
  noted := by simp [initial, MP2Node.new, Noted]
  stored := by simp [initial]
  verdict := by simp [initial]

theorem reachable_invariants (h : Steps hash ok initial w) : Wire w ∧ Numbered w := by
  refine invariant_of_run (P := fun v => Wire v ∧ Numbered v) ?_ h
    ⟨wire_initial, numbered_initial⟩
  rintro v v' ⟨_, -, hstep, -⟩ ⟨hw, hn⟩
  exact ⟨hw.step hstep, hn.step hw hstep⟩

/-- What every change preserves holds along a run, next to these two. -/
theorem alters_invariant {P : World → Prop}
    (hstep : ∀ v v', Wire v → Numbered v → Alters hash ok v v' → v'.transID < 2 ^ 31 →
      P v → P v')
    (h : Steps hash ok w w') (hw : Wire w) (hn : Numbered w) (hP : P w) :
    Wire w' ∧ Numbered w' ∧ P w' := by
  refine invariant_of_run (P := fun v => Wire v ∧ Numbered v ∧ P v) ?_ h ⟨hw, hn, hP⟩
  rintro v v' ⟨action, hok, hact, hlt⟩ ⟨hw, hn, hP⟩
  have hpath := bounded_path (fun _ _ => transID_le_of_alters)
    (alters_step hok hw.cleanTable hact) hlt
  refine invariant_of_run (P := fun v => Wire v ∧ Numbered v ∧ P v) ?_ hpath ⟨hw, hn, hP⟩
  rintro u u' ⟨hturn, hlt'⟩ ⟨hw, hn, hP⟩
  exact ⟨hw.alters hturn, hn.alters hturn, hstep u u' hw hn hturn hlt' hP⟩

end World

end CloudComputing.KeyValueStore
