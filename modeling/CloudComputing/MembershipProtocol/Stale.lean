import CloudComputing.MembershipProtocol.NodeTick

/-!
# Old news about one node

A node that hears of `a` nothing above the heartbeat on its list leaves that
entry alone and passes nothing on.  What is then left of its turn is the removal
loop, which drops the entry when it is too old, and says so in the log.
-/

namespace CloudComputing.MembershipProtocol

variable {now : Int} {a : Address} {q : List Msg} {c c' : Call} {m : Member}

theorem mem_raiseEntry_of_ne {b : Address} {h : Int} {es : List MemberListEntry}
    {e : MemberListEntry} (hne : e.address ≠ b) :
    e ∈ raiseEntry now b h es ↔ e ∈ es := by
  induction es with
  | nil => simp [raiseEntry]
  | cons e₀ es ih =>
      unfold raiseEntry
      split
      case isTrue hb =>
        have hold : e ≠ e₀ := by
          rintro rfl
          exact hne hb
        have hnew : e ≠ { e₀ with heartbeat := h, timestamp := now } := by
          rintro rfl
          exact hne hb
        simp only [List.mem_cons, hold, hnew, false_or]
      case isFalse => simp only [List.mem_cons, ih]

/-- What is on the list or on its way about `a` is the same, but for answers to join requests. -/
structure Untouched (a : Address) (q : List Msg) (c c' : Call) : Prop where
  entries : ∀ e, e.address = a →
    (e ∈ c'.member.memberList ↔ e ∈ c.member.memberList)
  silent : ∀ s ∈ c'.sent, s.msg.addr = a → s ∈ c.sent ∨ ∃ x ∈ q, x.msgType = .joinReq

/-- None of the messages says more of `a` than the list. -/
def OldNews (a : Address) (q : List Msg) (m : Member) : Prop :=
  ∀ x ∈ q, x.addr = a → ∃ e ∈ m.memberList, e.address = a ∧ x.heartbeat ≤ e.heartbeat

theorem Untouched.trans {q₁ q₂ : List Msg} {c₁ : Call} (h₁ : Untouched a q₁ c c₁)
    (h₂ : Untouched a q₂ c₁ c') : Untouched a (q₁ ++ q₂) c c' where
  entries := fun e ha => (h₂.entries e ha).trans (h₁.entries e ha)
  silent := by
    intro s hs ha
    rcases h₂.silent s hs ha with hs | ⟨x, hx, hreq⟩
    · rcases h₁.silent s hs ha with hs | ⟨x, hx, hreq⟩
      · exact Or.inl hs
      · exact Or.inr ⟨x, List.mem_append_left _ hx, hreq⟩
    · exact Or.inr ⟨x, List.mem_append_right _ hx, hreq⟩

theorem OldNews.congr {m' : Member} (h : OldNews a q m)
    (hentries : ∀ e, e.address = a → (e ∈ m'.memberList ↔ e ∈ m.memberList)) :
    OldNews a q m' := by
  intro x hx hxa
  obtain ⟨e, he, ha, hle⟩ := h x hx hxa
  exact ⟨e, (hentries e ha).mpr he, ha, hle⟩

theorem untouched_updateMembership (now : Int) (ok : MemberListOk c.member) {b : Address} {h : Int}
    (hold : b = a → ∃ e ∈ c.member.memberList, e.address = a ∧ h ≤ e.heartbeat) :
    (∀ e, e.address = a →
      (e ∈ (c.updateMembership now b h).member.memberList ↔ e ∈ c.member.memberList)) ∧
    ∀ s ∈ (c.updateMembership now b h).sent, s.msg.addr = a → s ∈ c.sent := by
  by_cases hba : b = a
  · subst hba
    obtain ⟨e, he, ha, hle⟩ := hold rfl
    rw [updateMembership_known ok he ha hle]
    exact ⟨fun e _ => Iff.rfl, fun s hs _ => hs⟩
  by_cases hnew : ∀ e ∈ c.member.memberList, e.address ≠ b
  · obtain ⟨hmember, hsent, -⟩ := updateMembership_unknown now h hnew
    rw [hmember, hsent]
    refine ⟨fun e ha => ?_, fun s hs _ => hs⟩
    have hother : e ≠ ⟨b.id, b.port, h, now⟩ := by
      rintro rfl
      exact hba ha
    simp only [List.mem_append, List.mem_singleton, hother, or_false]
  · push Not at hnew
    obtain ⟨e₀, he₀, hb⟩ := hnew
    by_cases hlt : e₀.heartbeat < h
    · rw [updateMembership_higher ok he₀ hb hlt]
      constructor
      · intro e ha
        exact mem_raiseEntry_of_ne (ha ▸ Ne.symm hba)
      · intro s hs ha
        rcases List.mem_append.mp hs with hs | hs
        · exact hs
        · obtain ⟨e, -, rfl⟩ := List.mem_map.mp hs
          exact absurd ha hba
    · rw [updateMembership_known ok he₀ hb (by omega)]
      exact ⟨fun e _ => Iff.rfl, fun s hs _ => hs⟩

theorem untouched_recvCallBack (ok : MemberListOk c.member) {x : Msg}
    (hold : OldNews a [x] c.member) : Untouched a [x] c (c.recvCallBack now x) := by
  have hmember := answer_member c x
  have hlist : (c.answer x).member.memberList = c.member.memberList := by rw [hmember]
  have ok' : MemberListOk (c.answer x).member := by
    rw [hmember]
    exact memberListOk_congr (m := c.member) rfl rfl ok
  obtain ⟨hentries, hsilent⟩ := untouched_updateMembership now (a := a) ok'
    (b := x.addr) (h := x.heartbeat) (by
      intro hxa
      rw [hlist]
      exact hold x List.mem_cons_self hxa)
  constructor
  · intro e ha
    rw [← hlist]
    exact hentries e ha
  · intro s hs ha
    have hs := hsilent s hs ha
    rw [answer_sent, List.mem_append] at hs
    rcases hs with hs | hs
    · exact Or.inl hs
    · split at hs
      case isTrue hreq => exact Or.inr ⟨x, List.mem_cons_self, hreq⟩
      case isFalse => cases hs

theorem untouched_foldl (ok : MemberListOk c.member) (hold : OldNews a q c.member) :
    Untouched a q c (q.foldl (Call.recvCallBack now) c) := by
  induction q generalizing c with
  | nil => exact ⟨fun e _ => Iff.rfl, fun s hs _ => Or.inl hs⟩
  | cons x q ih =>
      have hfirst : Untouched a [x] c (c.recvCallBack now x) := by
        apply untouched_recvCallBack ok
        intro y hy
        rw [List.mem_singleton.mp hy]
        exact hold x List.mem_cons_self
      have hrest : OldNews a q (c.recvCallBack now x).member :=
        OldNews.congr (fun y hy => hold y (List.mem_cons_of_mem _ hy)) hfirst.entries
      exact hfirst.trans (ih (handled_recvCallBack now x ok).ok hrest)

/-! ## The log -/

theorem log_updateMembership (now : Int) (c : Call) (b : Address) (h : Int) {line : LogLine}
    (hline : line ∈ c.log) : line ∈ (c.updateMembership now b h).log := by
  unfold Call.updateMembership
  split
  · split
    · exact hline
    · exact hline
  · exact List.mem_append_left _ hline

theorem log_foldl (now : Int) (q : List Msg) {line : LogLine} (hline : line ∈ c.log) :
    line ∈ (q.foldl (Call.recvCallBack now) c).log := by
  induction q generalizing c with
  | nil => exact hline
  | cons x q ih =>
      apply ih
      apply log_updateMembership
      rw [answer_log]
      exact hline

theorem nodeAdd_foldl (ok : MemberListOk c.member)
    (hnew : ∀ e ∈ c.member.memberList, e.address ≠ a) {x : Msg} (hx : x ∈ q) (hxa : x.addr = a) :
    .nodeAdd c.member.addr a now ∈ (q.foldl (Call.recvCallBack now) c).log := by
  induction q generalizing c with
  | nil => cases hx
  | cons y q ih =>
      by_cases hya : y.addr = a
      · apply log_foldl (c := c.recvCallBack now y)
        have hnew' : ∀ e ∈ (c.answer y).member.memberList, e.address ≠ y.addr := by
          rw [answer_member, hya]
          exact hnew
        obtain ⟨-, -, hlog⟩ := updateMembership_unknown now y.heartbeat hnew'
        show _ ∈ ((c.answer y).updateMembership now y.addr y.heartbeat).log
        rw [hlog, hya, answer_member]
        exact List.mem_append_right _ List.mem_cons_self
      · have hhandled := handled_recvCallBack now y ok
        have hq : x ∈ q := by
          rcases List.mem_cons.mp hx with rfl | hx
          · exact absurd hxa hya
          · exact hx
        have hstill : ∀ e ∈ (c.recvCallBack now y).member.memberList, e.address ≠ a := by
          intro e he ha
          rcases hhandled.entries e he with he | ⟨-, z, hz, hza, -⟩
          · exact hnew e he ha
          · rw [List.mem_singleton.mp hz] at hza
            exact hya (hza.trans ha)
        have := ih hhandled.ok hstill hq
        rwa [hhandled.addr] at this

theorem log_of_foldl (ok : MemberListOk c.member) {line : LogLine}
    (hline : line ∈ (q.foldl (Call.recvCallBack now) c).log) :
    line ∈ c.log ∨ ∃ x ∈ q, line = .nodeAdd c.member.addr x.addr now := by
  induction q generalizing c with
  | nil => exact Or.inl hline
  | cons y q ih =>
      have hhandled := handled_recvCallBack now y ok
      rcases ih hhandled.ok hline with hline | ⟨x, hx, rfl⟩
      · rw [Call.recvCallBack] at hline
        by_cases hnew : ∀ e ∈ (c.answer y).member.memberList, e.address ≠ y.addr
        · obtain ⟨-, -, hlog⟩ := updateMembership_unknown now y.heartbeat hnew
          rw [hlog, answer_log, answer_member, List.mem_append, List.mem_singleton] at hline
          exact hline.imp_right fun h => ⟨y, List.mem_cons_self, h⟩
        · have hfind : (c.answer y).member.memberList.find? (fun entry => entry.address = y.addr) ≠
              none := by
            rw [Ne, List.find?_eq_none]
            simpa using hnew
          obtain ⟨e, he⟩ := Option.ne_none_iff_exists'.mp hfind
          unfold Call.updateMembership at hline
          rw [he] at hline
          dsimp only at hline
          split at hline
          · exact Or.inl (by simpa [Call.sendHeartbeat, Call.setMemberList] using hline)
          · exact Or.inl (by simpa using hline)
      · exact Or.inr ⟨x, List.mem_cons_of_mem _ hx, by rw [hhandled.addr]⟩

theorem mem_log_nodeLoopOps (ok : MemberListOk c.member) {line : LogLine} :
    line ∈ (c.nodeLoopOps now).log ↔ line ∈ c.log ∨ ∃ e ∈ c.member.memberList,
      e.address ≠ c.member.addr ∧ timedOut now e = true ∧
        line = .nodeRemove c.member.addr e.address now := by
  obtain ⟨me, others, hlist, hme, hothers, -⟩ := ok.cons
  have hping : c.ping.member.memberList = me :: others := by rw [ping_member, hlist]
  have hlog : (c.nodeLoopOps now).log = c.log ++ (others.filter (timedOut now)).map fun e =>
      .nodeRemove c.member.addr e.address now := by
    unfold Call.nodeLoopOps Call.removeTimedOut
    rw [hping]
    simp [Call.setMemberList, ping_log, ping_member]
  rw [hlog, List.mem_append, List.mem_map]
  refine or_congr Iff.rfl ⟨?_, ?_⟩
  · rintro ⟨e, he, rfl⟩
    obtain ⟨he, ht⟩ := List.mem_filter.mp he
    exact ⟨e, hlist ▸ List.mem_cons_of_mem _ he, hothers e he, ht, rfl⟩
  · rintro ⟨e, he, hne, ht, rfl⟩
    rw [hlist] at he
    rcases List.mem_cons.mp he with rfl | he
    · exact absurd hme hne
    · exact ⟨e, List.mem_filter.mpr ⟨he, ht⟩, rfl⟩

/-! ## A turn -/

/-- A turn of a node of the group that hears nothing new about `a`. -/
structure QuietTurn (now : Int) (a : Address) (q : List Msg) (m : Member) (c : Call) : Prop where
  entries : ∀ e, e.address = a → (e ∈ c.member.memberList ↔
    e ∈ m.memberList ∧ (a = m.addr ∨ timedOut now e = false))
  silent : ∀ s ∈ c.sent, s.msg.addr = a →
    (∃ x ∈ q, x.msgType = .joinReq) ∨ (a = m.addr ∧ m.pingCounter = 0)
  removed : .nodeRemove m.addr a now ∈ c.log ↔
    ∃ e ∈ m.memberList, e.address = a ∧ a ≠ m.addr ∧ timedOut now e = true

theorem quietTurn_nodeLoop (now : Int) (ok : MemberListOk m) (hlive : m.bFailed = false)
    (hin : m.inGroup = true) (hold : OldNews a m.mp1q m) :
    QuietTurn now a m.mp1q m (m.call.nodeLoop now) := by
  obtain ⟨checked, hchecked⟩ : ∃ checked, checked = m.call.checkMessages now := ⟨_, rfl⟩
  have hhandled : Handled now m.mp1q ({ m with mp1q := [] } : Member).call checked :=
    hchecked ▸ handled_checkMessages (c := m.call) ok
  have huntouched : Untouched a m.mp1q ({ m with mp1q := [] } : Member).call checked :=
    hchecked ▸ untouched_foldl (memberListOk_congr (m := m) rfl rfl ok) hold
  have hgroup : checked.member.inGroup = true := hhandled.inGroup.mpr (Or.inl hin)
  have hloop : m.call.nodeLoop now = checked.nodeLoopOps now := by
    unfold Call.nodeLoop
    rw [← hchecked, if_pos hgroup, if_neg]
    rw [show m.call.member.bFailed = false from hlive]
    exact Bool.false_ne_true
  have hops : OpsDone now checked (checked.nodeLoopOps now) := nodeLoopOps_done hhandled.ok
  rw [hloop]
  constructor
  case entries =>
    intro e ha
    rw [hops.entries, hhandled.addr, huntouched.entries e ha, ha]
    exact Iff.rfl
  case silent =>
    intro s hs ha
    rcases (hops.sends s).mp hs with hs | ⟨hp, e, -, rfl⟩
    · rcases huntouched.silent s hs ha with hs | hreq
      · cases hs
      · exact Or.inl hreq
    · rw [hhandled.addr] at ha
      exact Or.inr ⟨ha.symm, hhandled.pingCounter.symm.trans hp⟩
  case removed =>
    rw [mem_log_nodeLoopOps hhandled.ok, hhandled.addr]
    constructor
    · rintro (hline | ⟨e, he, hne, ht, hline⟩)
      · rcases hhandled.log _ hline with hline | ⟨b, hline⟩
        · cases hline
        · cases hline
      · obtain ⟨-, ha, -⟩ := LogLine.nodeRemove.inj hline
        exact ⟨e, (huntouched.entries e ha.symm).mp he, ha.symm, ha ▸ hne, ht⟩
    · rintro ⟨e, he, ha, hne, ht⟩
      exact Or.inr ⟨e, (huntouched.entries e ha).mpr he, ha ▸ hne, ht, by rw [ha]; rfl⟩

/-- Who is new on the list after a turn is entered in the log. -/
theorem nodeAdd_nodeLoop (now : Int) (ok : MemberListOk m) (hlive : m.bFailed = false)
    (hnew : ∀ e ∈ m.memberList, e.address ≠ a) {e : MemberListEntry}
    (he : e ∈ (m.call.nodeLoop now).member.memberList) (ha : e.address = a) :
    .nodeAdd m.addr a now ∈ (m.call.nodeLoop now).log := by
  have hstart : MemberListOk ({ m with mp1q := [] } : Member).call.member :=
    memberListOk_congr (m := m) rfl rfl ok
  have hturn := turn_nodeLoop now ok hlive
  obtain ⟨x, hx, hxa⟩ : ∃ x ∈ m.mp1q, x.addr = a := by
    rcases hturn.entries e he with he | ⟨-, x, hx, hxa, -⟩
    · exact absurd ha (hnew e he)
    · exact ⟨x, hx, hxa.trans ha⟩
  have hchecked : .nodeAdd m.addr a now ∈ (m.call.checkMessages now).log :=
    nodeAdd_foldl (c := ({ m with mp1q := [] } : Member).call) hstart hnew hx hxa
  have hhandled : Handled now m.mp1q ({ m with mp1q := [] } : Member).call
      (m.call.checkMessages now) := handled_checkMessages (c := m.call) ok
  unfold Call.nodeLoop
  rw [show m.call.member.bFailed = false from hlive, if_neg Bool.false_ne_true]
  by_cases hin : (m.call.checkMessages now).member.inGroup = true
  · rw [if_pos hin]
    exact (mem_log_nodeLoopOps hhandled.ok).mpr (Or.inl hchecked)
  · rw [if_neg hin]
    exact hchecked

theorem added_nodeLoop (ok : MemberListOk m) (hlive : m.bFailed = false) {b : Address} {time : Int}
    (hline : .nodeAdd b a time ∈ (m.call.nodeLoop now).log) : b = m.addr ∧ ∃ x ∈ m.mp1q, x.addr = a := by
  have hstart : MemberListOk ({ m with mp1q := [] } : Member).call.member :=
    memberListOk_congr (m := m) rfl rfl ok
  have hhandled : Handled now m.mp1q ({ m with mp1q := [] } : Member).call
      (m.call.checkMessages now) := handled_checkMessages (c := m.call) ok
  have hchecked : .nodeAdd b a time ∈ (m.call.checkMessages now).log := by
    unfold Call.nodeLoop at hline
    rw [show m.call.member.bFailed = false from hlive, if_neg Bool.false_ne_true] at hline
    by_cases hin : (m.call.checkMessages now).member.inGroup = true
    · rw [if_pos hin, mem_log_nodeLoopOps hhandled.ok] at hline
      rcases hline with hline | ⟨e, -, -, -, hline⟩
      · exact hline
      · cases hline
    · rwa [if_neg hin] at hline
  rcases log_of_foldl (c := ({ m with mp1q := [] } : Member).call) hstart hchecked with
    hline | ⟨x, hx, hline⟩
  · cases hline
  · obtain ⟨hb, ha, -⟩ := LogLine.nodeAdd.inj hline
    exact ⟨hb, x, hx, ha.symm⟩

end CloudComputing.MembershipProtocol
