import CloudComputing.KeyValueStore.LatestWrite
import CloudComputing.KeyValueStore.Verdict

/-!
# A read sees the latest write

Two of the three replicas of a key replaced their entry on the latest `UPDATE`,
so at most one answer to a later `READ` brings another value.  `Reading` follows
the requests, the answers and the values noted; the loop over the values then
cannot come to another verdict.
-/

namespace CloudComputing.KeyValueStore

open Lib Relation

/-- An entry was read that is none of `value`. -/
def stale (value text : Str) : Bool := decide (text ≠ [] ∧ ¬ Decodes text value)

/-! ## The loop over the values read -/

namespace World

/-- When the loop meets no two values, every entry it has seen is of the final value or empty. -/
theorem readValue_fold {values : List Str} {v r : ReadValues}
    (h : values.foldlM readValue v = some r) (hmore : r.moreThan1Value = false) :
    v.moreThan1Value = false ∧ (v.value = [] ∨ v.value = r.value) ∧
      r.counter = v.counter + values.countP (fun text => text ≠ []) ∧
      ∀ text ∈ values, text ≠ [] →
        ∃ e, Entry.ofString text = some e ∧ (e.value = [] ∨ e.value = r.value) := by
  induction values generalizing v with
  | nil =>
      obtain rfl : v = r := by simpa using h
      exact ⟨hmore, Or.inr rfl, by simp, by simp⟩
  | cons text values ih =>
      obtain ⟨v', hstep, h⟩ := foldlM_cons_some h
      obtain ⟨hmore', hvalue', hcounter', hall⟩ := ih h
      by_cases htext : text = []
      · have hsame : v' = v := by simpa [readValue, htext] using hstep.symm
        subst hsame
        refine ⟨hmore', hvalue', by simpa [htext] using hcounter', ?_⟩
        intro s hs hne
        rcases List.mem_cons.mp hs with rfl | hs
        · exact absurd htext hne
        · exact hall s hs hne
      · simp only [readValue, htext, if_false, Option.bind_eq_bind, Option.bind_eq_some_iff,
          Option.pure_def, Option.some.injEq] at hstep
        obtain ⟨e, he, hv'⟩ := hstep
        have hturn : v.moreThan1Value = false ∧ (v.value = [] ∨ v.value = r.value) ∧
            v'.counter = v.counter + 1 ∧ (e.value = [] ∨ e.value = r.value) := by
          split at hv'
          case isTrue hfirst =>
            subst hv'
            exact ⟨hfirst.1, Or.inl hfirst.2, rfl, hvalue'⟩
          case isFalse hlater =>
            split at hv'
            case isTrue => exact absurd (hv' ▸ hmore') (by simp)
            case isFalse hsame =>
              subst hv'
              refine ⟨hmore', hvalue', rfl, ?_⟩
              have hne : v.value ≠ [] := fun hnil => hlater ⟨hmore', hnil⟩
              have heq : v.value = e.value := by
                by_contra hdiff
                exact hsame ⟨hne, hdiff⟩
              rw [← heq]
              exact hvalue'
        obtain ⟨hm, hv, hc, hentry⟩ := hturn
        refine ⟨hm, hv, ?_, ?_⟩
        · rw [hcounter', hc, List.countP_cons_of_pos (by simpa using htext)]
          omega
        · intro s hs hne
          rcases List.mem_cons.mp hs with rfl | hs
          · exact ⟨e, he, hentry⟩
          · exact hall s hs hne

/-- Two entries, at most one of them stale, can only agree on the fresh value. -/
theorem value_of_fold {values : List Str} {value : Str} {r : ReadValues} (hvalue : value ≠ [])
    (hstale : values.countP (stale value) ≤ 1)
    (h : values.foldlM readValue ⟨0, [], false⟩ = some r) (hcounter : 1 < r.counter)
    (hmore : r.moreThan1Value = false) : r.value = value := by
  obtain ⟨-, -, hcount, hall⟩ := readValue_fold h hmore
  have hfresh : ∃ text ∈ values, text ≠ [] ∧ Decodes text value := by
    by_contra hnone
    have hle : values.countP (fun text => text ≠ []) ≤ values.countP (stale value) := by
      apply List.countP_mono_left
      intro text htext hne
      have hne' : text ≠ [] := of_decide_eq_true hne
      exact decide_eq_true ⟨hne', fun hdec => hnone ⟨text, htext, hne', hdec⟩⟩
    simp only at hcount
    omega
  obtain ⟨text, htext, hne, hdecodes⟩ := hfresh
  obtain ⟨e, he, hentry⟩ := hall text htext hne
  have hev : e.value = value := by
    simpa [Decodes, he] using hdecodes
  rw [hev] at hentry
  exact (hentry.resolve_left hvalue).symm

/-! ## The accounts of a read -/

def bringsStale (t : Int32) (value s : Str) : Bool :=
  match Message.ofString .primary s with
  | some m => decide (m.type = .readreply ∧ m.transID = t) && stale value m.value
  | none => false

def valuesRead (w : World) (c : Address) (t : Int32) : List Str :=
  (w.node c).readValueTable[t]?.getD []

/-- The accounts of the `READ` that `m` asks for and `c` coordinates, when of the nodes asked only
`x` may have another entry than one of `value`. -/
structure Reading (w : World) (c : Address) (m : Message) (value : Str) (fresh : Address → Prop)
    (x : Address) : Prop where
  pending : ∀ b, ∀ s ∈ w.pending b, ∀ uninit arrived, Message.ofString uninit s = some arrived →
    arrived.transID = m.transID → (s = m.toString ∧ (fresh b ∨ b = x)) ∨ arrived.type = .readreply
  stale : (w.pending x).count m.toString + (w.pending c).countP (bringsStale m.transID value) +
    (w.valuesRead c m.transID).countP (stale value) ≤ 1
  operation : ∀ a text, (w.node a).operationTable[m.transID]? = some text → a = c

variable {hash : Str → Nat} {R : ProperRing} {ok : World → Action → Prop} {w w' : World}
  {a b c x : Address} {m : Message} {s key value : Str} {t : Int32} {fresh : Address → Prop}

theorem bringsStale_of_readreply {uninit : ReplicaType} {arrived : Message}
    (hs : Message.ofString uninit s = some arrived) (htype : arrived.type = .readreply)
    (ht : arrived.transID = t) : bringsStale t value s = KeyValueStore.stale value arrived.value := by
  unfold bringsStale
  rcases Message.ofString_uninit hs .primary with h | h
  all_goals
    rw [h]
    simp [htype, ht]

theorem bringsStale_eq_true (h : bringsStale t value s = true) : ∃ arrived,
    Message.ofString .primary s = some arrived ∧ arrived.type = .readreply ∧
      arrived.transID = t := by
  unfold bringsStale at h
  split at h
  case h_1 arrived hs =>
    have hand := of_decide_eq_true (Bool.and_eq_true_iff.mp h).1
    exact ⟨arrived, hs, hand.1, hand.2⟩
  case h_2 => cases h

theorem Foreign.bringsStale (h : Foreign t s) : bringsStale t value s = false := by
  by_contra hne
  obtain ⟨arrived, hs, -, ht⟩ := bringsStale_eq_true (Bool.eq_true_of_not_eq_false hne)
  exact h _ arrived hs ht

theorem Reading.operation_of_alters (hr : Reading w c m value fresh x) (hknown : Known w m.transID)
    (hlt : w'.transID < 2 ^ 31) (h : Alters hash ok w w') :
    ∀ a text, (w'.node a).operationTable[m.transID]? = some text → a = c := by
  intro a text htable
  rcases World.operation_of_alters h htable with hold |
    ⟨uninit, request, r₀, r₁, r₂, -, -, heq, -, rfl⟩
  · exact hr.operation a text hold
  · exact absurd heq (hknown.ne_next hlt)

theorem Reading.of_foreign (hr : Reading w c m value fresh x) (hm : m.Sendable)
    (hpending : ∀ b, ∃ extra, (∀ s ∈ extra, Foreign m.transID s) ∧
      (w'.pending b).Subperm (extra ++ w.pending b))
    (hvalues : (w'.valuesRead c m.transID).countP (KeyValueStore.stale value) ≤
      (w.valuesRead c m.transID).countP (KeyValueStore.stale value))
    (hoperation : ∀ a text, (w'.node a).operationTable[m.transID]? = some text → a = c) :
    Reading w' c m value fresh x where
  pending := by
    intro b s hs uninit arrived harrived ht
    obtain ⟨extra, hextra, hsub⟩ := hpending b
    rcases List.mem_append.mp (hsub.subset hs) with hnew | hold
    · exact absurd ht (hextra s hnew uninit arrived harrived)
    · exact hr.pending b s hold uninit arrived harrived ht
  stale := by
    obtain ⟨extra, hextra, hsub⟩ := hpending x
    obtain ⟨extra', hextra', hsub'⟩ := hpending c
    have hnone : extra.count m.toString = 0 :=
      List.count_eq_zero.mpr fun hmem => (hextra _ hmem).ne_toString hm rfl
    have hnone' : extra'.countP (bringsStale m.transID value) = 0 :=
      List.countP_eq_zero.mpr fun s hs => by simp [(hextra' s hs).bringsStale]
    have hle := hsub.count_le m.toString
    have hle' := hsub'.countP_le (bringsStale m.transID value)
    rw [List.count_append, hnone] at hle
    rw [List.countP_append, hnone'] at hle'
    have hold := hr.stale
    omega
  operation := hoperation

theorem Reading.of_quiet (hr : Reading w c m value fresh x) (hm : m.Sendable)
    (hpending : ∀ b, (w'.pending b).Subperm (w.pending b))
    (hvalues : (w'.valuesRead c m.transID).countP (KeyValueStore.stale value) ≤
      (w.valuesRead c m.transID).countP (KeyValueStore.stale value))
    (hoperation : ∀ a text, (w'.node a).operationTable[m.transID]? = some text → a = c) :
    Reading w' c m value fresh x :=
  hr.of_foreign hm (fun b => ⟨[], by simp, by simpa using hpending b⟩) hvalues hoperation

section Arrival

variable {self : Address} {uninit replica : ReplicaType} {text : Str} {queue : List Str}
  {arrived : Message}

theorem valuesRead_arrive (h : Handled uninit self arrived replica (w.pop self queue) w')
    (hne : c = self → arrived.transID = t → arrived.type = .read) :
    w'.valuesRead c t = w.valuesRead c t := by
  by_cases hc : c = self
  · subst hc
    unfold valuesRead
    rw [h.readValueTable]
    have hother : ∀ table : Std.TreeMap Int32 (List Str), arrived.type ≠ .read →
        (table.insert arrived.transID (table[arrived.transID]?.getD [] ++ [arrived.value]))[t]? =
          table[t]? := by
      intro table htype
      have ht : arrived.transID ≠ t := fun ht => htype (hne rfl ht)
      simp [Std.TreeMap.getElem?_insert, ht]
    unfold Message.readValues
    split
    case h_1 htype => rw [hother _ (by simp [htype])]; simp [pop]
    case h_2 htype => rw [hother _ (by simp [htype])]; simp [pop]
    case h_3 => simp [pop]
  · unfold valuesRead
    rw [h.others c hc]
    simp [pop]

theorem Reading.other (hr : Reading w c m value fresh x) (hm : m.Sendable)
    (hq : (w.node self).mp2q = text :: queue)
    (h : Handled uninit self arrived replica (w.pop self queue) w')
    (ht : arrived.transID ≠ m.transID)
    (hoperation : ∀ a text, (w'.node a).operationTable[m.transID]? = some text → a = c) :
    Reading w' c m value fresh x := by
  refine hr.of_foreign hm (foreign_arrive hq h ht) ?_ hoperation
  rw [valuesRead_arrive h fun _ heq => absurd heq ht]

theorem Reading.readreply (hr : Reading w c m value fresh x) (hm : m.Sendable)
    (hq : (w.node self).mp2q = text :: queue)
    (htext : Message.ofString uninit text = some arrived)
    (h : Handled uninit self arrived replica (w.pop self queue) w')
    (htype : arrived.type = .readreply) (ht : arrived.transID = m.transID)
    (hoperation : ∀ a text, (w'.node a).operationTable[m.transID]? = some text → a = c) :
    Reading w' c m value fresh x := by
  have hperm := pending_unanswered hq h (by simp [Message.answer, htype])
  have hsub : ∀ b, (w'.pending b).Subperm (w.pending b) := fun b =>
    (List.sublist_append_right _ _).subperm.trans (hperm b).symm.subperm
  by_cases hc : c = self
  case neg =>
    refine hr.of_quiet hm hsub ?_ hoperation
    rw [valuesRead_arrive h fun heq => absurd heq hc]
  subst hc
  refine ⟨fun b s hs => hr.pending b s ((hsub b).subset hs), ?_, hoperation⟩
  have hnoted : w'.valuesRead c m.transID = w.valuesRead c m.transID ++ [arrived.value] := by
    unfold valuesRead
    rw [h.readValueTable]
    simp [Message.readValues, htype, ht, pop]
  have hbit : bringsStale m.transID value text = KeyValueStore.stale value arrived.value :=
    bringsStale_of_readreply htext htype ht
  have hold := hr.stale
  have hle := (hsub x).count_le m.toString
  rw [(hperm c).countP_eq, List.countP_append, if_pos rfl] at hold
  rw [hnoted, List.countP_append]
  simp only [List.countP_singleton, hbit] at hold ⊢
  omega

theorem handled_read (hmtype : m.type = .read)
    (h : Handled uninit self (m.received uninit) replica (w.pop self queue) w') :
    ∃ reply : Message, reply.type = .readreply ∧ reply.transID = m.transID ∧
      reply.value = (w.node self).ht.read m.key ∧
      ∀ b, (w'.pending b).Perm ((if m.fromAddr = b then [reply.toString] else []) ++
        (w.pop self queue).pending b) := by
  have hperm := fun b => pending_arrive_perm (b := b) h
  have hreceived : m.received uninit =
      ⟨.read, uninit, m.key, [], m.fromAddr, m.transID, false⟩ := by
    obtain ⟨type, _⟩ := m
    obtain rfl : type = .read := hmtype
    rfl
  rw [hreceived] at hperm
  refine ⟨⟨.readreply, uninit, [], (w.node self).ht.read m.key, self, m.transID, false⟩,
    rfl, rfl, rfl, fun b => (hperm b).trans (List.Perm.of_eq ?_)⟩
  by_cases hb : m.fromAddr = b
  · simp [Message.answer, hb]
  · simp [Message.answer, hb]

theorem Wire.sendable_read (hw : Wire w) : ¬ Message.delimiter <:+: (w.node a).ht.read key := by
  rw [HashTable.read_eq]
  cases hget : (w.node a).ht.get? key with
  | none =>
      rw [Option.getD_none, List.infix_nil]
      exact Message.delimiter_ne_nil
  | some text =>
      exact (hw.cleanTable a key text hget).2.not_mem_sub Message.delimiter_ne_nil

/-- A node answers the request: with the fresh value, or it is `x`. -/
theorem Reading.request (hr : Reading w c m value fresh x) (hw : Wire w) (hmtype : m.type = .read)
    (hmc : m.fromAddr = c)
    (hfresh : ∀ a, fresh a → KeyValueStore.stale value ((w.node a).ht.read m.key) = false)
    (hself : fresh self ∨ self = x) (hq : (w.node self).mp2q = m.toString :: queue)
    (h : Handled uninit self (m.received uninit) replica (w.pop self queue) w')
    (hoperation : ∀ a text, (w'.node a).operationTable[m.transID]? = some text → a = c) :
    Reading w' c m value fresh x := by
  obtain ⟨reply, htype, ht, hvalue, hperm⟩ := handled_read hmtype h
  have hsend : reply.Sendable := by
    unfold Message.Sendable
    rw [htype, hvalue]
    exact hw.sendable_read
  have hdecode := Message.ofString_toString uninit hsend
  have hreply : (reply.received uninit).type = .readreply ∧
      (reply.received uninit).transID = m.transID ∧
      (reply.received uninit).value = (w.node self).ht.read m.key := by
    rw [← ht, ← hvalue, Message.received, htype]
    exact ⟨rfl, rfl, rfl⟩
  have hbit : bringsStale m.transID value reply.toString =
      KeyValueStore.stale value ((w.node self).ht.read m.key) := by
    rw [bringsStale_of_readreply hdecode hreply.1 hreply.2.1, hreply.2.2]
  have hne : reply.toString ≠ m.toString := by
    intro heq
    have hsame := (Message.ofString_toString_some (heq ▸ hdecode)).1
    rw [hmtype, hreply.1] at hsame
    cases hsame
  have hrequest : bringsStale m.transID value m.toString = false := by
    by_contra hbrings
    obtain ⟨arrived, hs, harrived, -⟩ :=
      bringsStale_eq_true (Bool.eq_true_of_not_eq_false hbrings)
    rw [(Message.ofString_toString_some hs).1, hmtype] at harrived
    cases harrived
  have hpop := fun b => pending_pop_perm (b := b) hq
  refine ⟨?_, ?_, hoperation⟩
  · intro b s hs uninit' arrived harrived ht'
    rcases List.mem_append.mp ((hperm b).mem_iff.mp hs) with hnew | hold
    · have hs : s = reply.toString := by
        split at hnew
        · exact List.mem_singleton.mp hnew
        · cases hnew
      rw [hs] at harrived
      exact Or.inr ((Message.ofString_toString_some harrived).1.trans htype)
    · exact hr.pending b s (mem_pending_pop hq hold) uninit' arrived harrived ht'
  · have hvalues : w'.valuesRead c m.transID = w.valuesRead c m.transID := by
      refine valuesRead_arrive h fun _ _ => ?_
      rw [Message.received, hmtype]
    have hx : (w'.pending x).count m.toString =
        ((w.pop self queue).pending x).count m.toString := by
      rw [(hperm x).count_eq, List.count_append]
      split <;> simp [hne]
    have hc : (w'.pending c).countP (bringsStale m.transID value) =
        (if KeyValueStore.stale value ((w.node self).ht.read m.key) = true then 1 else 0) +
          ((w.pop self queue).pending c).countP (bringsStale m.transID value) := by
      rw [(hperm c).countP_eq, List.countP_append, if_pos hmc, List.countP_singleton, hbit]
    have hpopc : (w.pending c).countP (bringsStale m.transID value) =
        ((w.pop self queue).pending c).countP (bringsStale m.transID value) := by
      rw [(hpop c).countP_eq, List.countP_append]
      split <;> simp [hrequest]
    have hpopx : (w.pending x).count m.toString =
        (if x = self then 1 else 0) + ((w.pop self queue).pending x).count m.toString := by
      rw [(hpop x).count_eq, List.count_append]
      split <;> simp
    have hanswer : (if KeyValueStore.stale value ((w.node self).ht.read m.key) = true then 1
        else 0) ≤ if x = self then 1 else 0 := by
      rcases hself with hself | rfl
      · simp [hfresh self hself]
      · rw [if_pos rfl]
        split <;> omega
    have hold := hr.stale
    rw [hvalues, hx, hc]
    omega

end Arrival

theorem Reading.alters (hr : Reading w c m value fresh x) (hw : Wire w) (hmtype : m.type = .read)
    (hmc : m.fromAddr = c) (hsend : m.Sendable)
    (hfresh : ∀ a, fresh a → KeyValueStore.stale value ((w.node a).ht.read m.key) = false)
    (hknown : Known w m.transID) (hlt : w'.transID < 2 ^ 31) (h : Alters hash ok w w') :
    Reading w' c m value fresh x := by
  have hoperation := hr.operation_of_alters hknown hlt h
  cases h with
  | reshape h =>
      cases h with
      | copy self toAddr key value' type replica hheld hkey hvalue htype =>
          have hnet : (w.sendMessage self toAddr key value' type replica).net = w.net ++
              [⟨self, toAddr, _⟩] := rfl
          refine hr.of_foreign hsend (fun b => ?_) (le_refl _) hoperation
          refine ⟨_, ?_, (pending_append_perm hnet rfl).subperm⟩
          intro s hs
          obtain ⟨p, hp, rfl⟩ := List.mem_map.mp hs
          obtain rfl := List.mem_singleton.mp (List.mem_of_mem_filter hp)
          exact foreign_toString (hknown.ne_next hlt).symm
      | setRing self ring =>
          exact hr.of_quiet hsend (fun b => (List.Perm.of_eq (by simp)).subperm)
            (by simp [valuesRead]) hoperation
  | change h =>
      cases h with
      | tick => exact hr.of_quiet hsend (fun b => .refl _) (le_refl _) hoperation
      | receive p hp =>
          exact hr.of_quiet hsend (fun b => (pending_receive_perm hp).subperm)
            (by simp [valuesRead, receive]) hoperation
      | reorder net hnet =>
          exact hr.of_quiet hsend (fun b => (pending_reorder_perm hnet).subperm) (le_refl _)
            hoperation
      | lose p hp =>
          refine hr.of_quiet hsend (fun b => ?_) (le_refl _) hoperation
          exact (List.sublist_append_right _ _).subperm.trans (pending_erase_perm hp).symm.subperm
      | issue self uninit request r₀ r₁ r₂ hok hfind =>
          refine hr.of_foreign hsend (fun b => ?_) (by simp [valuesRead]) hoperation
          refine ⟨_, ?_, (pending_append_perm net_issued mp2q_issued).subperm⟩
          intro s hs
          obtain ⟨p, hp, rfl⟩ := List.mem_map.mp hs
          obtain ⟨r, -, rfl⟩ := List.mem_map.mp (List.mem_of_mem_filter hp)
          refine foreign_toString ?_
          rw [(message_fields request self uninit _).2.1]
          exact (hknown.ne_next hlt).symm
      | judgeUpdate => exact hr.of_quiet hsend (fun b => .refl _) (le_refl _) hoperation
      | judgeRead =>
          refine hr.of_quiet hsend (fun b => ?_) ?_ hoperation
          · split <;> exact .refl _
          · split <;> exact le_refl _
      | clearResults self =>
          exact hr.of_quiet hsend (fun b => (List.Perm.of_eq (by simp)).subperm)
            (by simp [valuesRead]) hoperation
      | clearReads self =>
          refine hr.of_quiet hsend (fun b => (List.Perm.of_eq (by simp)).subperm) ?_ hoperation
          by_cases hc : c = self
          · simp [valuesRead, hc]
          · simp [valuesRead, node_modifyNode_of_ne hc]
      | rewrite self key value' replica hentry =>
          exact hr.of_quiet hsend (fun b => (List.Perm.of_eq (by simp)).subperm)
            (by simp [valuesRead]) hoperation
      | arrive self uninit replica text queue arrived hq htext h =>
          by_cases ht : arrived.transID = m.transID
          case neg => exact hr.other hsend hq h ht hoperation
          rcases hr.pending self text (mem_pending_of_queue hq) uninit arrived htext ht with
            ⟨rfl, hself⟩ | htype
          · rw [Message.ofString_toString uninit hsend] at htext
            obtain rfl := Option.some.inj htext
            exact hr.request hw hmtype hmc hfresh hself hq h hoperation
          · exact hr.readreply hsend hq htext h htype ht hoperation

theorem Reading.issued {self : Address} {uninit : ReplicaType} {r₀ r₁ r₂ : Node}
    (hn : Numbered w) (hlt : w.transID + 1 < 2 ^ 31)
    (honce : ([r₀, r₁, r₂].map Node.nodeAddress).count x ≤ 1)
    (hasked : ∀ b ∈ [r₀, r₁, r₂].map Node.nodeAddress, fresh b ∨ b = x)
    (hm : m = (Request.read key).message self uninit w.nextTransID.gTransID)
    (hsend : m.Sendable) :
    Reading (w.issued self ((Request.read key).message self uninit) r₀ r₁ r₂) self m value
      fresh x := by
  have ht : m.transID = w.nextTransID.gTransID := by rw [hm]; rfl
  have hnew : ∀ t, Known w t → t ≠ m.transID := fun t hknown => ht ▸ hknown.ne_next hlt
  have hold : ∀ b, ∀ s ∈ w.pending b, Foreign m.transID s := fun b s hs => by
    rw [ht]
    exact hn.foreign hlt hs
  have hrequest : bringsStale m.transID value m.toString = false := by
    by_contra hbrings
    obtain ⟨arrived, hs, harrived, -⟩ :=
      bringsStale_eq_true (Bool.eq_true_of_not_eq_false hbrings)
    rw [(Message.ofString_toString_some hs).1, hm] at harrived
    cases harrived
  constructor
  case pending =>
    intro b s hs u arrived harrived heq
    rcases (mem_pending_append net_issued mp2q_issued).mp hs with ⟨p, hp, rfl, rfl⟩ | hpend
    · obtain ⟨r, hr, rfl⟩ := List.mem_map.mp hp
      exact Or.inl ⟨by rw [hm], hasked _ (List.mem_map.mpr ⟨r, hr, rfl⟩)⟩
    · exact absurd heq (hold b s hpend u arrived harrived)
  case stale =>
    have hone : ((w.issued self ((Request.read key).message self uninit) r₀ r₁ r₂).pending
        x).count m.toString ≤ 1 :=
      (count_pending_issued fun hmem => (hold x _ hmem).ne_toString hsend (by rw [hm])).trans honce
    have hbrings : (w.pending self).countP (bringsStale m.transID value) = 0 :=
      List.countP_eq_zero.mpr fun s hs => by simp [(hold self s hs).bringsStale]
    have hvalues : w.valuesRead self m.transID = [] := by
      have hnot : m.transID ∉ (w.node self).readValueTable := fun hmem =>
        hnew _ (hn.noted self _ (Or.inr hmem)) rfl
      rw [valuesRead, Std.TreeMap.getElem?_eq_none hnot, Option.getD_none]
    rw [countP_pending_issued (by rw [hm] at hrequest ⊢; exact hrequest), hbrings]
    simp only [valuesRead, readValueTable_issued] at hvalues ⊢
    rw [hvalues]
    simpa using hone
  case operation =>
    intro a text htable
    by_contra ha
    have hmem : m.transID ∈ (w.node a).operationTable := by
      rw [Std.TreeMap.mem_iff_isSome_getElem?]
      have hnode : (w.issued self ((Request.read key).message self uninit) r₀ r₁ r₂).node a =
          w.node a := by
        simp [World.issued, node_modifyNode_of_ne ha]
      rw [hnode] at htable
      rw [htable]
      rfl
    exact hnew _ (hn.operation a _ hmem) rfl

/-! ## The verdict -/

def SeesOnly (w : World) (t : Int32) (value : Str) : Prop :=
  ∀ e, .logged e ∈ w.trace → e.isCoordinator = true → e.transID = t → e.operation = .read →
    e.success = true → e.value = value

theorem Reading.judged_cases (hr : Reading w c m value fresh x) {e : LogEntry}
    (he : Judged w e) (ht : e.transID = m.transID) (hop : e.operation = .read) :
    ∃ (received : Message) (v : ReadValues),
      (w.valuesRead c m.transID).foldlM readValue ⟨0, [], false⟩ = some v ∧
        e = if 1 < v.counter ∧ v.value ≠ [] ∧ v.moreThan1Value = false
          then ⟨received.fromAddr, true, .read, true, e.transID, received.key, v.value, w.currtime⟩
          else ⟨received.fromAddr, true, .read, false, e.transID, received.key, [],
            w.currtime⟩ := by
  cases he with
  | update self uninit results text received op value' hresults htable htext hop' heq =>
      rw [heq] at hop
      obtain rfl : op = .read := hop
      rcases hop' with ⟨-, h, -⟩ | ⟨-, h, -⟩ | ⟨-, h, -⟩ <;> cases h
  | read self uninit values text received v hvalues htable htext htype hv heq =>
      rw [ht] at hvalues htable
      obtain rfl := hr.operation self text htable
      have hread : w.valuesRead self m.transID = values := by
        rw [valuesRead, hvalues, Option.getD_some]
      rw [hread]
      exact ⟨received, v, hv, heq⟩

theorem Reading.judged (hr : Reading w c m value fresh x) (hvalue : value ≠ []) {e : LogEntry}
    (he : Judged w e) (ht : e.transID = m.transID) (hop : e.operation = .read)
    (hsuccess : e.success = true) : e.value = value := by
  obtain ⟨received, v, hv, heq⟩ := hr.judged_cases he ht hop
  have hstale : (w.valuesRead c m.transID).countP (KeyValueStore.stale value) ≤ 1 := by
    have hle := hr.stale
    omega
  split at heq
  case isTrue hgood =>
    rw [heq]
    exact value_of_fold hvalue hstale hv hgood.1 hgood.2.2
  case isFalse =>
    rw [heq] at hsuccess
    cases hsuccess

theorem SeesOnly.alters (hs : SeesOnly w m.transID value)
    (hr : Reading w c m value fresh x) (hvalue : value ≠ []) (h : Alters hash ok w w') :
    SeesOnly w' m.transID value := by
  intro e he hco ht hop hsuccess
  obtain ⟨l, htrace, hjudged⟩ := trace_of_alters h
  rw [htrace] at he
  rcases List.mem_append.mp he with hold | hnew
  · exact hs e hold hco ht hop hsuccess
  · exact hr.judged hvalue (hjudged e hnew hco) ht hop hsuccess

theorem stored_mono {old new : Str} (h : Alters hash ok w w')
    (hs : .stored a t key old new ∈ w.trace) : .stored a t key old new ∈ w'.trace := by
  obtain ⟨l, htrace, -⟩ := trace_of_alters h
  rw [htrace]
  exact List.mem_append_left _ hs

theorem Holds.not_stale (h : Holds w a key value) :
    KeyValueStore.stale value ((w.node a).ht.read key) = false := by
  obtain ⟨text, hget, hdecodes⟩ := h
  have hread : (w.node a).ht.read key = text := by
    rw [HashTable.read_eq, hget, Option.getD_some]
  simp [KeyValueStore.stale, hread, hdecodes]

/-- Of three replicas, two distinct ones leave one other. -/
theorem third_replica (R : ProperRing) {d₁ d₂ : Address} (h₁ : d₁ ∈ R.replicas hash key)
    (h₂ : d₂ ∈ R.replicas hash key) (hne : d₁ ≠ d₂) :
    ∃ x, ∀ b ∈ R.replicas hash key, (b = d₁ ∨ b = d₂) ∨ b = x := by
  obtain ⟨n₀, n₁, n₂, heq, -⟩ := replicas_eq hash R key
  simp only [SortedRing.replicas, heq, List.map_cons, List.map_nil, List.mem_cons,
    List.not_mem_nil, or_false] at h₁ h₂ ⊢
  rcases h₁ with rfl | rfl | rfl <;> rcases h₂ with rfl | rfl | rfl
  all_goals first
    | exact absurd rfl hne
    | exact ⟨n₀.nodeAddress, by grind⟩
    | exact ⟨n₁.nodeAddress, by grind⟩
    | exact ⟨n₂.nodeAddress, by grind⟩

/-! ## A run with an update and a read -/

theorem Unwritten.stable {action : Action} (h : Unwritten hash R key w action) :
    StableRing hash R w action := h.1.stable

theorem Latest.steps (hl : Latest w m) (hknown : Known w m.transID) (hp : Placed hash R w)
    (hledger : Ledger w) (htype : m.type = .update) (hsend : m.Sendable) (hvalue : ':' ∉ m.value)
    (h : Steps hash (Unwritten hash R m.key) w w') :
    Placed hash R w' ∧ Ledger w' ∧ Latest w' m ∧ Known w' m.transID := by
  refine fixed_invariant (P := fun v => Latest v m ∧ Known v m.transID)
    (fun v a => Unwritten.stable) ?_ h hp hledger ⟨hl, hknown⟩
  rintro v v' - - hfixed hlt ⟨hl, hknown⟩
  exact ⟨hl.fixed htype hsend hvalue hknown hlt hfixed,
    hknown.mono (transID_le_of_alters hfixed.alters)⟩

/-- What holds from the issue of the read on: `m₀` is the update, `m` the read. -/
structure Observed (w : World) (c : Address) (m₀ m : Message) (fresh : Address → Prop)
    (x : Address) : Prop where
  latest : Latest w m₀
  known₀ : Known w m₀.transID
  stored : ∀ a, fresh a → ∃ old new, .stored a m₀.transID m₀.key old new ∈ w.trace
  known : Known w m.transID
  reading : Reading w c m m₀.value fresh x
  seen : SeesOnly w m.transID m₀.value

theorem Observed.steps {m₀ : Message} (ho : Observed w c m₀ m fresh x) (hp : Placed hash R w)
    (hledger : Ledger w) (htype₀ : m₀.type = .update) (hsend₀ : m₀.Sendable)
    (hvalue : ':' ∉ m₀.value) (hne : m₀.value ≠ []) (htype : m.type = .read)
    (hkey : m.key = m₀.key) (hmc : m.fromAddr = c) (hsend : m.Sendable)
    (h : Steps hash (Unwritten hash R m₀.key) w w') : Observed w' c m₀ m fresh x := by
  have hrun := fixed_invariant (P := fun v => Observed v c m₀ m fresh x)
    (fun v a => Unwritten.stable) ?_ h hp hledger ho
  · exact hrun.2.2
  rintro v v' - hledger hfixed hlt ho
  have hfresh : ∀ a, fresh a →
      KeyValueStore.stale m₀.value ((v.node a).ht.read m.key) = false := by
    intro a ha
    obtain ⟨old, new, hmem⟩ := ho.stored a ha
    rw [hkey]
    exact (ho.latest.held a old new hmem).not_stale
  have hle := transID_le_of_alters hfixed.alters
  exact {
    latest := ho.latest.fixed htype₀ hsend₀ hvalue ho.known₀ hlt hfixed
    known₀ := ho.known₀.mono hle
    stored := fun a ha => by
      obtain ⟨old, new, hmem⟩ := ho.stored a ha
      exact ⟨old, new, stored_mono hfixed.alters hmem⟩
    known := ho.known.mono hle
    reading := ho.reading.alters hledger.wire htype hmc hsend hfresh ho.known hlt hfixed.alters
    seen := ho.seen.alters ho.reading hne hfixed.alters }

theorem latest_of_update {self : Address} {uninit : ReplicaType} (hp : Placed hash R w)
    (hledger : Ledger w) (hidle : NoWrite w key) (htame : (Request.update key value).Tame)
    (h : w.step hash (.client self uninit (.update key value)) = some w')
    (hlt : w'.transID < 2 ^ 31) (hm : m = (Request.update key value).message self uninit w'.gTransID) :
    Placed hash R w' ∧ Ledger w' ∧ Latest w' m ∧ Known w' m.transID := by
  obtain ⟨r₀, r₁, r₂, hfind, rfl⟩ := client_some h
  have hissue : Fixed hash R (StableRing hash R) w
      (w.issued self ((Request.update key value).message self uninit) r₀ r₁ r₂) :=
    .change (.issue w self uninit (.update key value) r₀ r₁ r₂ htame.plain hfind)
  refine ⟨hp.fixed (fun _ _ _ h => h) hissue, hledger.alters hlt (hp.plainClients (fun _ _ _ h => h) hissue),
    Latest.issued hledger.numbered hidle hlt hm, ?_⟩
  rw [hm]
  exact ⟨w.transID + 1, le_refl _, rfl⟩

theorem observed_of_read {m₀ : Message} {self : Address} {uninit : ReplicaType}
    (hp : Placed hash R w) (hledger : Ledger w) (hl : Latest w m₀) (hknown : Known w m₀.transID)
    (htype₀ : m₀.type = .update) (hsend₀ : m₀.Sendable) (hvalue : ':' ∉ m₀.value)
    (htame : (Request.read m₀.key).Tame)
    (hquorum : Quorum w.trace m₀.transID m₀.key m₀.value)
    (h : w.step hash (.client self uninit (.read m₀.key)) = some w')
    (hlt : w'.transID < 2 ^ 31)
    (hm : m = (Request.read m₀.key).message self uninit w'.gTransID) :
    Placed hash R w' ∧ Ledger w' ∧ ∃ fresh x, Observed w' self m₀ m fresh x := by
  obtain ⟨d₁, d₂, hne, ⟨old₁, time₁, replica₁, hd₁⟩, old₂, time₂, replica₂, hd₂⟩ := hquorum
  have hreplica : ∀ {d old new}, .stored d m₀.transID m₀.key old new ∈ w.trace →
      d ∈ R.replicas hash m₀.key := by
    intro d old new hd
    obtain ⟨text, hget, -⟩ := hl.held d old new hd
    exact hp.holder d m₀.key text hget
  obtain ⟨x, hx⟩ := third_replica R (hreplica hd₁) (hreplica hd₂) hne
  obtain ⟨r₀, r₁, r₂, hfind, rfl⟩ := client_some h
  have hring : (w.node self).ring = R.nodes := hp.ring_of_find hfind
  have hunwritten : Fixed hash R (Unwritten hash R m₀.key) w
      (w.issued self ((Request.read m₀.key).message self uninit) r₀ r₁ r₂) :=
    .change (.issue w self uninit (.read m₀.key) r₀ r₁ r₂ ⟨htame, id⟩ hfind)
  have hissue := hunwritten.mono fun a => Unwritten.stable
  have hsend : m.Sendable := by
    rw [hm]
    exact htame.plain.sendable self uninit _
  rw [hring] at hfind
  refine ⟨hp.fixed (fun _ _ _ h => h) hissue,
    hledger.alters hlt (hp.plainClients (fun _ _ _ h => h) hissue), fun b => b = d₁ ∨ b = d₂, x, ?_⟩
  exact {
    latest := hl.fixed htype₀ hsend₀ hvalue hknown hlt hunwritten
    known₀ := hknown.mono (transID_le_of_alters hunwritten.alters)
    stored := by
      rintro a (rfl | rfl)
      · exact ⟨_, _, stored_mono hunwritten.alters hd₁⟩
      · exact ⟨_, _, stored_mono hunwritten.alters hd₂⟩
    known := by
      rw [hm]
      exact ⟨w.transID + 1, le_refl _, rfl⟩
    reading := by
      refine Reading.issued hledger.numbered hlt ?_ (fun b hb => hx b ?_) hm hsend
      · rw [← hfind]
        exact List.nodup_iff_count_le_one.mp (findNodes_nodup hash _ R.addresses) x
      · rw [ProperRing.replicas, SortedRing.replicas]
        exact hfind ▸ hb
    seen := by
      intro e he hco ht
      rw [hm] at ht
      exact absurd ht ((hledger.numbered.verdict e he hco).ne_next hlt) }

/-- Over a fixed ring, a read issued after the success of an `UPDATE`, which no other write of
the key overlaps or follows, does not succeed with another value. -/
theorem read_sees_update {w₁ w₂ w₃ w₄ w₅ : World} {c₀ c₁ self : Address} {u₀ u₁ : ReplicaType}
    {got : Str} {now now' : Int32}
    (hbefore : Steps hash (FixedRing hash R) initial w₁) (hidle : NoWrite w₁ key)
    (htame : (Request.update key value).Tame)
    (hupdate : w₁.step hash (.client c₀ u₀ (.update key value)) = some w₂)
    (hbetween : Steps hash (Unwritten hash R key) w₂ w₃)
    (hsuccess : .logged ⟨c₀, true, .update, true, w₂.gTransID, key, value, now⟩ ∈ w₃.trace)
    (hread : w₃.step hash (.client c₁ u₁ (.read key)) = some w₄)
    (hafter : Steps hash (Unwritten hash R key) w₄ w₅) (hlt : w₅.transID < 2 ^ 31)
    (hlogged : .logged ⟨self, true, .read, true, w₄.gTransID, key, got, now'⟩ ∈ w₅.trace) :
    got = value := by
  obtain ⟨hp₁, hledger₁, -⟩ := fixed_invariant (P := fun _ => True) (fun _ _ h => h.stable)
    (fun _ _ _ _ _ _ _ => trivial) hbefore placed_initial ledger_initial trivial
  -- the counter stays below its bound all the way
  have hwire₂ := hledger₁.wire.step hupdate
  have hwire₃ := hwire₂.steps hbetween
  have hle₃ := transID_le_of_steps hwire₂ hbetween
  have hle₄ := transID_le_of_step hwire₃ hread
  have hle₅ := transID_le_of_steps (hwire₃.step hread) hafter
  have hsend := htame.plain.sendable c₀ u₀ w₂.gTransID
  obtain ⟨hp₂, hledger₂, hlatest₂, hknown₂⟩ :=
    latest_of_update hp₁ hledger₁ hidle htame hupdate (by omega) rfl
  obtain ⟨hp₃, hledger₃, hlatest₃, hknown₃⟩ :=
    hlatest₂.steps hknown₂ hp₂ hledger₂ rfl hsend htame.2.2 hbetween
  have hquorum : Quorum w₃.trace w₂.gTransID key value := by
    obtain ⟨before, rest, htrace⟩ := List.append_of_mem hsuccess
    have hle : before ++ [.logged ⟨c₀, true, .update, true, w₂.gTransID, key, value, now⟩] <+:
        w₃.trace := ⟨rest, by simp [htrace]⟩
    exact (hledger₃.quorum before c₀ w₂.gTransID key value now hle).mono
      ((List.prefix_append _ _).trans hle)
  obtain ⟨hp₄, hledger₄, fresh, x, hobserved⟩ :=
    observed_of_read hp₃ hledger₃ hlatest₃ hknown₃ rfl hsend htame.2.2 htame.1 hquorum hread
      (by omega) rfl
  have hobserved₅ := hobserved.steps hp₄ hledger₄ rfl hsend htame.2.2 htame.2.1 rfl rfl rfl
    ((show (Request.read key).Plain from htame.1).sendable c₁ u₁ w₄.gTransID) hafter
  exact hobserved₅.seen _ hlogged rfl rfl rfl rfl

/-! ## A run of three nodes -/

instance : DecidablePred Request.Tame
  | .create _ _ | .update _ _ => inferInstanceAs (Decidable (_ ∧ _ ∧ _))
  | .read key | .delete key => inferInstanceAs (Decidable (KeyValueStore.Plain key))

instance {request : Request} : Decidable (request.Writes key) :=
  match request with
  | .create key' _ | .update key' _ | .delete key' => inferInstanceAs (Decidable (key' = key))
  | .read _ => inferInstanceAs (Decidable False)

instance {w : World} {action : Action} : Decidable (FixedRing hash R w action) :=
  match action with
  | .client _ _ request => inferInstanceAs (Decidable request.Tame)
  | .updateRing _ memberList =>
      inferInstanceAs (Decidable ((getMembershipList hash memberList).Perm R.nodes))
  | .checkMessages _ _ | .receive _ | .lose _ | .tick => inferInstanceAs (Decidable True)

instance {w : World} {action : Action} : Decidable (Unwritten hash R key w action) :=
  match action with
  | .client self uninit request => inferInstanceAs
      (Decidable (FixedRing hash R w (.client self uninit request) ∧ ¬ request.Writes key))
  | .updateRing self memberList => inferInstanceAs
      (Decidable (FixedRing hash R w (.updateRing self memberList) ∧ True))
  | .checkMessages _ _ | .receive _ | .lose _ | .tick =>
      inferInstanceAs (Decidable (True ∧ True))

def sampleRing (n : Nat) : List Node := sortNodes (getMembershipList sampleHash (sampleMembers n))

def threeRing : ProperRing :=
  ⟨sampleRing 3, by decide +kernel, by decide +kernel, by decide +kernel, by decide +kernel⟩

theorem noWrite_of_follow [∀ w a, Decidable (ok w a)] {actions : List Action}
    {nodes : List Address} (h : initial.follow hash ok actions = some w) (hnet : w.net = [])
    (hqueue : ∀ b ∈ nodes, (w.node b).mp2q = [])
    (hnodes : ∀ a ∈ actions, ∀ b ∈ a.node, b ∈ nodes) : NoWrite w key := by
  intro b s hs
  have hempty : (w.node b).mp2q = [] := by
    by_cases hb : b ∈ nodes
    · exact hqueue b hb
    · rw [node_follow (fun a ha hnode => hb (hnodes a ha b hnode)) h]
      rfl
  simp [pending, hnet, hempty] at hs

def reported (trace : List Event) (t : Int32) : Option Str :=
  trace.findSome? fun e => match e with
    | .logged e => if e.isCoordinator = true ∧ e.operation = .read ∧ e.success = true ∧
        e.transID = t then some e.value else none
    | _ => none

namespace ReadRun

/-- Node `1` creates a key; all messages are handled. -/
def createActions : List Action :=
  let create : Message := ⟨.create, .primary, ['k'], ['u'], sampleNode 1, 1, false⟩
  let reply (i : Nat) : Message := ⟨.reply, .primary, [], [], sampleNode i, 1, true⟩
  [1, 2, 3].map (fun i => .updateRing (sampleNode i) (sampleMembers 3)) ++
  [.client (sampleNode 1) .primary (.create ['k'] ['u'])] ++
  [1, 2, 3].map (fun i => .receive (create.packet (sampleNode i))) ++
  [1, 2, 3].map (fun i => .checkMessages (sampleNode i) .primary) ++
  [1, 2, 3].map (fun i => .receive ((reply i).packet (sampleNode 1))) ++
  [.checkMessages (sampleNode 1) .primary, .tick]

def created : World :=
  (initial.follow sampleHash (FixedRing sampleHash threeRing) createActions).get
    (by decide +kernel)

/-- Nodes `1` and `2` handle the update, node `3` does not; node `2` rewrites its entry. -/
def updateActions : List Action :=
  let update : Message := ⟨.update, .primary, ['k'], ['v'], sampleNode 1, 2, false⟩
  let reply (i : Nat) : Message := ⟨.reply, .primary, [], [], sampleNode i, 2, true⟩
  [.receive (update.packet (sampleNode 1)), .receive (update.packet (sampleNode 2)),
    .lose (update.packet (sampleNode 3)), .checkMessages (sampleNode 1) .primary,
    .checkMessages (sampleNode 2) .primary, .receive ((reply 1).packet (sampleNode 1)),
    .receive ((reply 2).packet (sampleNode 1)), .checkMessages (sampleNode 1) .primary,
    .updateRing (sampleNode 2) (sampleMembers 3)]

def updating : World :=
  (created.step sampleHash (.client (sampleNode 1) .primary (.update ['k'] ['v']))).get
    (by decide +kernel)

def updated : World :=
  (updating.follow sampleHash (Unwritten sampleHash threeRing ['k']) updateActions).get
    (by decide +kernel)

/-- Node `3` reads; the answers of nodes `1` and `2` make a batch. -/
def readActions : List Action :=
  let read : Message := ⟨.read, .primary, ['k'], [], sampleNode 3, 4, false⟩
  let answer (i : Nat) (text : Str) : Message :=
    ⟨.readreply, .primary, [], text, sampleNode i, 4, false⟩
  [1, 2, 3].map (fun i => .receive (read.packet (sampleNode i))) ++
  [1, 2, 3].map (fun i => .checkMessages (sampleNode i) .primary) ++
  [.receive ((answer 1 "v:1:0".toList).packet (sampleNode 3)),
    .receive ((answer 2 "v:1:0:1:1".toList).packet (sampleNode 3)),
    .checkMessages (sampleNode 3) .primary]

def reading : World :=
  (updated.step sampleHash (.client (sampleNode 3) .primary (.read ['k']))).get
    (by decide +kernel)

def read : World :=
  (reading.follow sampleHash (Unwritten sampleHash threeRing ['k']) readActions).get
    (by decide +kernel)

end ReadRun

open ReadRun in
theorem read_sees_update_threeNodes : (reported read.trace 4).getD [] = ['v'] :=
  @read_sees_update sampleHash threeRing ['k'] ['v'] created updating updated reading read
    (sampleNode 1) (sampleNode 3) (sampleNode 3) .primary .primary _ 1 1
    (steps_of_follow (Option.some_get _).symm)
    (noWrite_of_follow (Option.some_get _).symm (by decide +kernel)
      (show ∀ b ∈ [1, 2, 3].map sampleNode, (created.node b).mp2q = [] by decide +kernel)
      (by decide +kernel))
    (by decide) (Option.some_get _).symm (steps_of_follow (Option.some_get _).symm)
    (by decide +kernel) (Option.some_get _).symm (steps_of_follow (Option.some_get _).symm)
    (by decide +kernel) (by decide +kernel)

end World

end CloudComputing.KeyValueStore
