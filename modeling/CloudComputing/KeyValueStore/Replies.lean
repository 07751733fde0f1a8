import CloudComputing.KeyValueStore.Numbering

/-!
# A request and its replies

A write goes to three nodes and comes back as replies that carry its id and a
bit.  `Turn` says all that a change can mean for one request: nothing new carries
its id, or a node handles it.
-/

namespace CloudComputing.KeyValueStore

open Lib Relation

namespace World

/-- The text is a reply that reports success for `t`. -/
def confirms (t : Int32) (s : Str) : Bool :=
  match Message.ofString .primary s with
  | some m => decide (m.type = .reply ∧ m.transID = t ∧ m.success = true)
  | none => false

/-- The text of no message with the id `t`. -/
def Foreign (t : Int32) (s : Str) : Prop :=
  ∀ uninit m, Message.ofString uninit s = some m → m.transID ≠ t

def noted (w : World) (c : Address) (t : Int32) : List Bool :=
  (w.node c).resultTable[t]?.getD []

/-- The confirmations of `t` under way to `c` and those it has noted. -/
def confirmations (w : World) (c : Address) (t : Int32) : Nat :=
  (w.pending c).countP (confirms t) + (w.noted c t).count true

/-- What carries the id of `m` is `m` itself or an answer. -/
def Carried (w : World) (m : Message) : Prop :=
  ∀ b, ∀ s ∈ w.pending b, ∀ uninit arrived, Message.ofString uninit s = some arrived →
    arrived.transID = m.transID →
    arrived.type = .reply ∨ arrived.type = .readreply ∨ s = m.toString

/-- Nothing new carries the id `t`. -/
structure Quiet (w w' : World) (c : Address) (t : Int32) : Prop where
  pending : ∀ b, ∃ extra, (∀ s ∈ extra, Foreign t s) ∧
    (w'.pending b).Subperm (extra ++ w.pending b)
  confirmations : w'.confirmations c t ≤ w.confirmations c t
  trace : ∃ l, w'.trace = w.trace ++ l ∧ ∀ a key old new, .stored a t key old new ∉ l

/-- What a change means for the request `m` that `c` coordinates. -/
inductive Turn (w w' : World) (c : Address) (m : Message) : Prop
  | quiet (h : Quiet w w' c m.transID)
  | handled (self : Address) (uninit replica : ReplicaType) (queue : List Str)
      (hq : (w.node self).mp2q = m.toString :: queue)
      (h : Handled uninit self (m.received uninit) replica (w.pop self queue) w')

variable {hash : Str → Nat} {ok : World → Action → Prop} {w w' : World} {a b c : Address}
  {s : Str} {t : Int32} {m : Message}

theorem confirms_eq_true (h : confirms t s = true) : ∃ arrived,
    Message.ofString .primary s = some arrived ∧ arrived.type = .reply ∧ arrived.transID = t := by
  unfold confirms at h
  split at h
  case h_1 arrived hs =>
    have := of_decide_eq_true h
    exact ⟨arrived, hs, this.1, this.2.1⟩
  case h_2 => cases h

theorem confirms_of_reply {uninit : ReplicaType} {arrived : Message}
    (hs : Message.ofString uninit s = some arrived) (htype : arrived.type = .reply)
    (ht : arrived.transID = t) : confirms t s = arrived.success := by
  unfold confirms
  rcases Message.ofString_uninit hs .primary with h | h
  all_goals
    rw [h]
    simp [htype, ht]

theorem confirms_request (h : m.type ≠ .reply) : confirms t m.toString = false := by
  by_contra hne
  obtain ⟨arrived, hs, htype, -⟩ := confirms_eq_true (Bool.eq_true_of_not_eq_false hne)
  rw [(Message.ofString_toString_some hs).1] at htype
  exact h htype

theorem Foreign.confirms (h : Foreign t s) : confirms t s = false := by
  by_contra hne
  obtain ⟨arrived, hs, -, ht⟩ := confirms_eq_true (Bool.eq_true_of_not_eq_false hne)
  exact h _ arrived hs ht

theorem foreign_toString (h : m.transID ≠ t) : Foreign t m.toString := by
  intro uninit m' hm' heq
  exact h ((Message.ofString_toString_some hm').2.2.symm.trans heq)

theorem Foreign.ne_toString (h : Foreign m.transID s) (hm : m.Sendable) : s ≠ m.toString := by
  rintro rfl
  have hdecode := Message.ofString_toString .primary hm
  exact h .primary _ hdecode (Message.ofString_toString_some hdecode).2.2

/-! ## Quiet changes -/

/-- Foreign messages, lost messages and cleared tables are quiet. -/
theorem Quiet.of_foreign (hpending : ∀ b, ∃ extra, (∀ s ∈ extra, Foreign t s) ∧
      (w'.pending b).Subperm (extra ++ w.pending b))
    (hnoted : (w'.noted c t).count true ≤ (w.noted c t).count true)
    (htrace : ∃ l, w'.trace = w.trace ++ l ∧ ∀ a key old new, .stored a t key old new ∉ l) :
    Quiet w w' c t where
  pending := hpending
  trace := htrace
  confirmations := by
    obtain ⟨extra, hextra, hsub⟩ := hpending c
    have hnone : extra.countP (confirms t) = 0 :=
      List.countP_eq_zero.mpr fun s hs => by simp [(hextra s hs).confirms]
    have hle := hsub.countP_le (confirms t)
    rw [List.countP_append, hnone] at hle
    unfold World.confirmations
    omega

theorem Quiet.of_sub (hpending : ∀ b, (w'.pending b).Subperm (w.pending b))
    (hnoted : (w'.noted c t).count true ≤ (w.noted c t).count true)
    (htrace : ∃ l, w'.trace = w.trace ++ l ∧ ∀ a key old new, .stored a t key old new ∉ l) :
    Quiet w w' c t :=
  .of_foreign (fun b => ⟨[], by simp, by simpa using hpending b⟩) hnoted htrace

theorem Quiet.of_same (hpending : ∀ b, (w'.pending b).Subperm (w.pending b))
    (hnoted : (w'.noted c t).count true ≤ (w.noted c t).count true) (htrace : w'.trace = w.trace) :
    Quiet w w' c t :=
  .of_sub hpending hnoted ⟨[], by simpa using htrace, by simp⟩

theorem Quiet.carried (h : Quiet w w' c m.transID) (ha : Carried w m) : Carried w' m := by
  intro b s hs uninit arrived harrived ht
  obtain ⟨extra, hextra, hsub⟩ := h.pending b
  rcases List.mem_append.mp (hsub.subset hs) with hnew | hold
  · exact absurd ht (hextra s hnew uninit arrived harrived)
  · exact ha b s hold uninit arrived harrived ht

theorem Quiet.count (h : Quiet w w' c m.transID) (hm : m.Sendable) (b : Address) :
    (w'.pending b).count m.toString ≤ (w.pending b).count m.toString := by
  obtain ⟨extra, hextra, hsub⟩ := h.pending b
  have hnone : extra.count m.toString = 0 :=
    List.count_eq_zero.mpr fun hmem => (hextra _ hmem).ne_toString hm rfl
  have hle := hsub.count_le m.toString
  rw [List.count_append, hnone] at hle
  omega

/-! ## A message arrives -/

section Arrival

variable {self : Address} {uninit replica : ReplicaType} {text : Str} {queue : List Str}
  {arrived : Message}

theorem pending_arrive_perm (h : Handled uninit self arrived replica (w.pop self queue) w') :
    (w'.pending b).Perm ((((arrived.answer uninit self (w.node self).ht).toList.filter fun _ =>
      arrived.fromAddr = b).map Message.toString) ++ (w.pop self queue).pending b) := by
  refine (pending_append_perm h.net h.mp2q_all).trans (List.Perm.of_eq ?_)
  congr 1
  simp [List.filter_map, pop, Function.comp_def]

theorem noted_arrive (h : Handled uninit self arrived replica (w.pop self queue) w') :
    w'.noted c t = if c = self ∧ arrived.type = .reply ∧ arrived.transID = t
      then w.noted c t ++ [arrived.success] else w.noted c t := by
  by_cases hc : c = self
  · subst hc
    unfold noted
    rw [h.resultTable]
    unfold Message.results
    split
    case h_1 htype =>
      by_cases ht : arrived.transID = t
      · simp [pop, htype, ht]
      · simp [pop, Std.TreeMap.getElem?_insert, ht]
    case h_2 htype =>
      rw [if_neg fun h => htype h.2.1]
      simp [pop]
  · rw [if_neg (by simp [hc])]
    unfold noted
    rw [h.others c hc]
    simp [pop]

theorem popped_sub (hq : (w.node self).mp2q = text :: queue) :
    ((w.pop self queue).pending b).Subperm (w.pending b) :=
  (List.sublist_append_right _ _).subperm.trans (pending_pop_perm hq).symm.subperm

theorem foreign_arrive (hq : (w.node self).mp2q = text :: queue)
    (h : Handled uninit self arrived replica (w.pop self queue) w') (ht : arrived.transID ≠ t)
    (b : Address) : ∃ extra, (∀ s ∈ extra, Foreign t s) ∧
      (w'.pending b).Subperm (extra ++ w.pending b) := by
  refine ⟨_, ?_, (pending_arrive_perm h).subperm.trans
    ((List.subperm_append_left _).mpr (popped_sub hq))⟩
  intro s hs
  obtain ⟨answer, hanswer, rfl⟩ := List.mem_map.mp hs
  have hsome : arrived.answer uninit self (w.node self).ht = some answer := by
    simpa using (List.mem_filter.mp hanswer).1
  exact foreign_toString ((transID_answer hsome).trans_ne ht)

theorem pending_unanswered (hq : (w.node self).mp2q = text :: queue)
    (h : Handled uninit self arrived replica (w.pop self queue) w')
    (hanswer : arrived.answer uninit self (w.node self).ht = none) (b : Address) :
    (w.pending b).Perm ((if b = self then [text] else []) ++ w'.pending b) := by
  refine (pending_pop_perm hq).trans (List.Perm.append_left _ ?_)
  refine (List.Perm.of_eq ?_).trans (pending_arrive_perm h).symm
  simp [hanswer]

theorem Quiet.other (hq : (w.node self).mp2q = text :: queue)
    (h : Handled uninit self arrived replica (w.pop self queue) w') (ht : arrived.transID ≠ t) :
    Quiet w w' c t := by
  refine .of_foreign (foreign_arrive hq h ht) ?_ ⟨_, h.trace, ?_⟩
  · rw [noted_arrive h, if_neg fun hand => ht hand.2.2]
  · intro a key old new hs
    exact ht (stored_mem_events hs).2.2.1.symm

theorem Quiet.reply (hq : (w.node self).mp2q = text :: queue)
    (htext : Message.ofString uninit text = some arrived)
    (h : Handled uninit self arrived replica (w.pop self queue) w')
    (htype : arrived.type = .reply) (ht : arrived.transID = t) : Quiet w w' c t := by
  have hperm := pending_unanswered hq h (by simp [Message.answer, htype])
  have hsub : ∀ b, (w'.pending b).Subperm (w.pending b) := fun b =>
    (List.sublist_append_right _ _).subperm.trans (hperm b).symm.subperm
  refine ⟨fun b => ⟨[], by simp, by simpa using hsub b⟩, ?_, [], ?_, by simp⟩
  · unfold World.confirmations
    rw [(hperm c).countP_eq, List.countP_append, noted_arrive h]
    by_cases hcs : c = self
    · rw [if_pos ⟨hcs, htype, ht⟩, List.count_append, if_pos hcs]
      have hbit := confirms_of_reply htext htype ht
      cases hsuccess : arrived.success
      · simp [hbit, hsuccess]
      · simp [hbit, hsuccess]
        omega
    · rw [if_neg fun hand => hcs hand.1, if_neg hcs]
      simp
  · rw [h.trace]
    simp [Message.events, htype, pop]

/-- A read reply with the id of a write would count for nothing. -/
theorem Quiet.readreply (hq : (w.node self).mp2q = text :: queue)
    (h : Handled uninit self arrived replica (w.pop self queue) w')
    (htype : arrived.type = .readreply) : Quiet w w' c t := by
  refine .of_same (fun b => ?_) ?_ ?_
  · refine (pending_arrive_perm h).subperm.trans (.trans ?_ (popped_sub hq))
    simp only [Message.answer, htype, Option.toList_none, List.filter_nil, List.map_nil,
      List.nil_append]
    exact .refl _
  · rw [noted_arrive h, if_neg]
    rw [htype]
    rintro ⟨-, h, -⟩
    cases h
  · rw [h.trace]
    simp [Message.events, htype, pop]

/-- The request itself arrives, and its receiver answers with a reply. -/
structure Replied (w w' : World) (c server : Address) (m : Message) (found : Bool) : Prop where
  carried : Carried w' m
  count : ∀ b, (w'.pending b).count m.toString + (if b = server then 1 else 0) =
    (w.pending b).count m.toString
  confirmations : w'.confirmations c m.transID ≤
    w.confirmations c m.transID + if found = true then 1 else 0

theorem replied_of_handled {found : Bool} (hp : Carried w m) (hmtype : m.type ≠ .reply)
    (hq : (w.node self).mp2q = m.toString :: queue)
    (h : Handled uninit self (m.received uninit) replica (w.pop self queue) w')
    (hanswer : (m.received uninit).answer uninit self (w.node self).ht =
      some ⟨.reply, uninit, [], [], self, m.transID, found⟩) :
    Replied w w' c self m found := by
  have hreceived : (m.received uninit).type ≠ .reply := by
    rwa [Message.type_received]
  obtain ⟨reply, hreply⟩ : ∃ reply : Message,
      reply = ⟨.reply, uninit, [], [], self, m.transID, found⟩ := ⟨_, rfl⟩
  rw [← hreply] at hanswer
  have hdecode : Message.ofString .primary reply.toString = some (reply.received .primary) :=
    Message.ofString_toString .primary (Message.sendable_reply (by rw [hreply]))
  have hconfirms : confirms m.transID reply.toString = found := by
    rw [confirms_of_reply hdecode (by rw [hreply]; rfl) (by rw [hreply]; rfl), hreply]
    rfl
  have hne : reply.toString ≠ m.toString := by
    intro heq
    have hsame := (Message.ofString_toString_some (heq ▸ hdecode)).1
    rw [hreply] at hsame
    exact hmtype hsame.symm
  have hpop := fun b => pending_pop_perm (b := b) hq
  have hperm : ∀ b, (w'.pending b).Perm
      ((if (m.received uninit).fromAddr = b then [reply.toString] else []) ++
        (w.pop self queue).pending b) := by
    intro b
    refine (pending_arrive_perm h).trans (List.Perm.of_eq ?_)
    rw [hanswer]
    by_cases hb : (m.received uninit).fromAddr = b
    · simp [hb]
    · simp [hb]
  constructor
  case carried =>
    intro b s hs uninit' arrived harrived ht
    rcases List.mem_append.mp ((hperm b).mem_iff.mp hs) with hnew | hold
    · have hs : s = reply.toString := by
        split at hnew
        · exact List.mem_singleton.mp hnew
        · cases hnew
      rw [hs] at harrived
      refine Or.inl ((Message.ofString_toString_some harrived).1.trans ?_)
      rw [hreply]
    · exact hp b s (mem_pending_pop hq hold) uninit' arrived harrived ht
  case count =>
    intro b
    have hanswer : (if (m.received uninit).fromAddr = b then [reply.toString] else []).count
        m.toString = 0 := by
      split <;> simp [hne]
    rw [(hperm b).count_eq, (hpop b).count_eq, List.count_append, List.count_append, hanswer]
    by_cases hb : b = self
    · simp [hb, Nat.add_comm]
    · simp [hb]
  case confirmations =>
    have hle := (popped_sub (b := c) hq).countP_le (confirms m.transID)
    have hnoted : w'.noted c m.transID = w.noted c m.transID := by
      rw [noted_arrive h, if_neg fun hand => hreceived hand.2.1]
    have hone : (if (m.received uninit).fromAddr = c then [reply.toString] else []).countP
        (confirms m.transID) ≤ if found = true then 1 else 0 := by
      cases found <;> split <;> simp [hconfirms]
    unfold confirmations
    rw [(hperm c).countP_eq, List.countP_append, hnoted]
    omega

end Arrival

/-! ## All that can happen to a request -/

theorem quiet_of_reshape (hknown : Known w t) (hlt : w'.transID < 2 ^ 31) (h : Reshape w w') :
    Quiet w w' c t := by
  cases h with
  | copy self toAddr key value type replica hheld hkey hvalue htype =>
      have hnet : (w.sendMessage self toAddr key value type replica).net = w.net ++
          [⟨self, toAddr, _⟩] := rfl
      refine .of_foreign (fun b => ⟨_, ?_, (pending_append_perm hnet rfl).subperm⟩) (le_refl _)
        ⟨[], by simp [sendMessage], by simp⟩
      intro s hs
      obtain ⟨p, hp, rfl⟩ := List.mem_map.mp hs
      obtain rfl := List.mem_singleton.mp (List.mem_of_mem_filter hp)
      exact foreign_toString (hknown.ne_next hlt).symm
  | setRing self ring =>
      exact .of_same (fun b => (List.Perm.of_eq (by simp)).subperm) (by simp [noted]) rfl

theorem turn_of_change (ha : Carried w m) (hm : m.Sendable) (hknown : Known w m.transID)
    (hlt : w'.transID < 2 ^ 31) (h : Change hash ok w w') : Turn w w' c m := by
  cases h with
  | tick => exact .quiet (.of_same (fun b => .refl _) (le_refl _) rfl)
  | receive p hp =>
      exact .quiet (.of_same (fun b => (pending_receive_perm hp).subperm)
        (by simp [noted, receive]) rfl)
  | lose p hp =>
      refine .quiet (.of_same (fun b => ?_) (le_refl _) rfl)
      exact (List.sublist_append_right _ _).subperm.trans (pending_erase_perm hp).symm.subperm
  | reorder net hnet =>
      exact .quiet (.of_same (fun b => (pending_reorder_perm hnet).subperm) (le_refl _) rfl)
  | issue self uninit request r₀ r₁ r₂ hok hfind =>
      refine .quiet (.of_foreign (fun b => ?_) (by simp [noted]) ⟨[], by simp, by simp⟩)
      refine ⟨_, ?_, (pending_append_perm net_issued mp2q_issued).subperm⟩
      intro s hs
      obtain ⟨p, hp, rfl⟩ := List.mem_map.mp hs
      obtain ⟨r, -, rfl⟩ := List.mem_map.mp (List.mem_of_mem_filter hp)
      refine foreign_toString ?_
      have hne := (hknown.ne_next hlt).symm
      cases request <;> exact hne
  | arrive self uninit replica text queue arrived hq htext h =>
      by_cases ht : arrived.transID = m.transID
      case neg => exact .quiet (.other hq h ht)
      rcases ha self text (mem_pending_of_queue hq) uninit arrived htext ht with
        htype | htype | rfl
      · exact .quiet (.reply hq htext h htype ht)
      · exact .quiet (.readreply hq h htype)
      · obtain rfl : m.received uninit = arrived := by
          rw [Message.ofString_toString uninit hm] at htext
          exact Option.some.inj htext
        exact .handled self uninit replica queue hq h
  | judgeUpdate => exact .quiet (.of_sub (fun b => .refl _) (le_refl _) ⟨_, rfl, by simp⟩)
  | judgeRead =>
      refine .quiet (.of_sub (fun b => ?_) ?_ ?_)
      · split <;> exact .refl _
      · split <;> exact le_refl _
      · split <;> exact ⟨_, rfl, by simp⟩
  | clearResults self =>
      refine .quiet (.of_same (fun b => (List.Perm.of_eq (by simp)).subperm) ?_ rfl)
      by_cases hcs : c = self
      · simp [noted, hcs]
      · simp [noted, node_modifyNode_of_ne hcs]
  | clearReads self =>
      exact .quiet (.of_same (fun b => (List.Perm.of_eq (by simp)).subperm) (by simp [noted]) rfl)
  | rewrite self key value replica hvalue =>
      refine .quiet (.of_sub (fun b => (List.Perm.of_eq (by simp)).subperm) (by simp [noted])
        ⟨_, trace_rewrite hvalue, ?_⟩)
      intro a key' old new hs
      have hne := hknown.ne_next (by simpa using hlt)
      split at hs <;> simp_all

theorem turn_of_alters (ha : Carried w m) (hm : m.Sendable) (hknown : Known w m.transID)
    (hlt : w'.transID < 2 ^ 31) (h : Alters hash ok w w') : Turn w w' c m := by
  cases h with
  | change h => exact turn_of_change ha hm hknown hlt h
  | reshape h => exact .quiet (quiet_of_reshape hknown hlt h)

/-! ## A request that has just been issued -/

section Issue

variable {self : Address} {uninit : ReplicaType} {request : Request} {r₀ r₁ r₂ : Node}

theorem Numbered.foreign (hn : Numbered w) (hlt : w.transID + 1 < 2 ^ 31)
    (hs : s ∈ w.pending b) : Foreign w.nextTransID.gTransID s :=
  fun uninit m hm => (hn.pending b s hs uninit m hm).ne_next hlt

theorem carried_issued (hn : Numbered w) (hlt : w.transID + 1 < 2 ^ 31)
    (hm : m = request.message self uninit w.nextTransID.gTransID) :
    Carried (w.issued self (request.message self uninit) r₀ r₁ r₂) m := by
  have ht : m.transID = w.nextTransID.gTransID := by
    rw [hm]
    cases request <;> rfl
  intro b s hs u arrived harrived heq
  rcases (mem_pending_append net_issued mp2q_issued).mp hs with ⟨p, hp, -, rfl⟩ | hpend
  · obtain ⟨r, -, rfl⟩ := List.mem_map.mp hp
    exact Or.inr (Or.inr (by rw [hm]))
  · exact absurd (heq.trans ht) (hn.foreign hlt hpend u arrived harrived)

theorem confirmations_issued (hn : Numbered w) (hlt : w.transID + 1 < 2 ^ 31)
    (hm : m = request.message self uninit w.nextTransID.gTransID) :
    (w.issued self (request.message self uninit) r₀ r₁ r₂).confirmations c m.transID = 0 := by
  have ht : m.transID = w.nextTransID.gTransID := by
    rw [hm]
    cases request <;> rfl
  have hrequest : confirms m.transID m.toString = false := by
    apply confirms_request
    rw [hm]
    cases request <;> simp [Request.message]
  have hzero : (w.pending c).countP (confirms m.transID) = 0 := by
    rw [List.countP_eq_zero, ht]
    intro s hs
    simp [(hn.foreign hlt hs).confirms]
  have hnoted : w.noted c m.transID = [] := by
    have hnot : m.transID ∉ (w.node c).resultTable := fun hmem =>
      (hn.noted c _ (Or.inl hmem)).ne_next hlt ht
    rw [noted, Std.TreeMap.getElem?_eq_none hnot, Option.getD_none]
  unfold confirmations
  rw [countP_pending_issued (by rw [hm] at hrequest ⊢; exact hrequest), hzero]
  simp only [noted, resultTable_issued] at hnoted ⊢
  rw [hnoted]
  rfl

end Issue

end World

end CloudComputing.KeyValueStore
