import CloudComputing.MembershipProtocol.Handling

/-!
# One tick at one node

`nodeLoopOps` and `nodeLoop` in the same form as the message handlers: what the
list, the counters, the messages sent and the log lines are afterwards.
-/

namespace CloudComputing.MembershipProtocol

section Ops

variable {now : Int} {c : Call}

/-- `nodeLoopOps` on a list that starts with the node itself. -/
structure OpsDone (now : Int) (c c' : Call) : Prop where
  addr : c'.member.addr = c.member.addr
  bFailed : c'.member.bFailed = c.member.bFailed
  inGroup : c'.member.inGroup = c.member.inGroup
  mp1q : c'.member.mp1q = c.member.mp1q
  heartbeat : c'.member.heartbeat =
    if c.member.pingCounter = 0 then c.member.heartbeat + 1 else c.member.heartbeat
  pingCounter : c'.member.pingCounter =
    if c.member.pingCounter = 0 then tFail else c.member.pingCounter - 1
  /-- only other members are removed, and only when they timed out -/
  entries : ∀ e, e ∈ c'.member.memberList ↔
    e ∈ c.member.memberList ∧ (e.address = c.member.addr ∨ timedOut now e = false)
  ok : MemberListOk c'.member
  /-- a ping goes to everyone on the list before the removal -/
  sends : ∀ s, s ∈ c'.sent ↔ s ∈ c.sent ∨ (c.member.pingCounter = 0 ∧
    ∃ e ∈ c.member.memberList,
      s = ⟨e.address, ⟨.heartbeat, c.member.addr, c.member.heartbeat + 1⟩⟩)
  log : ∀ line ∈ c'.log, line ∈ c.log ∨ ∃ e ∈ c.member.memberList,
    e.address ≠ c.member.addr ∧ timedOut now e = true ∧
      line = .nodeRemove c.member.addr e.address now

theorem MemberListOk.cons {m : Member} (ok : MemberListOk m) :
    ∃ me others, m.memberList = me :: others ∧ me.address = m.addr ∧
      (∀ e ∈ others, e.address ≠ m.addr) ∧ (others.map MemberListEntry.address).Nodup := by
  obtain ⟨hhead, hnodup⟩ := ok
  cases hlist : m.memberList with
  | nil => simp [hlist] at hhead
  | cons me others =>
      rw [hlist] at hhead hnodup
      simp only [List.map_cons, List.head?_cons, Option.some.injEq] at hhead
      simp only [List.map_cons, List.nodup_cons] at hnodup
      refine ⟨me, others, rfl, hhead, ?_, hnodup.2⟩
      intro e he ha
      exact hnodup.1 (hhead.trans ha.symm ▸ List.mem_map_of_mem he)

theorem ping_member (c : Call) : c.ping.member =
    { c.member with
        heartbeat :=
          if c.member.pingCounter = 0 then c.member.heartbeat + 1 else c.member.heartbeat
        pingCounter :=
          if c.member.pingCounter = 0 then tFail else c.member.pingCounter - 1 } := by
  unfold Call.ping
  split <;> simp_all [Call.sendHeartbeat]

theorem ping_sent (c : Call) : c.ping.sent = c.sent ++ if c.member.pingCounter = 0 then
    c.member.memberList.map fun e =>
      ⟨e.address, ⟨.heartbeat, c.member.addr, c.member.heartbeat + 1⟩⟩ else [] := by
  unfold Call.ping
  split <;> simp_all [Call.sendHeartbeat]

theorem ping_log (c : Call) : c.ping.log = c.log := by
  unfold Call.ping
  split <;> rfl

theorem nodeLoopOps_done (ok : MemberListOk c.member) : OpsDone now c (c.nodeLoopOps now) := by
  obtain ⟨me, others, hlist, hme, hothers, hnodup⟩ := ok.cons
  have hping : c.ping.member.memberList = me :: others := by rw [ping_member, hlist]
  have hdone : c.nodeLoopOps now =
      { c.ping with
          member := { c.ping.member with
            memberList := me :: others.filter fun e => !timedOut now e }
          log := c.log ++ (others.filter (timedOut now)).map fun e =>
            .nodeRemove c.member.addr e.address now } := by
    unfold Call.nodeLoopOps Call.removeTimedOut
    rw [hping]
    simp [Call.setMemberList, ping_log, ping_member]
  have hmem : ∀ e, e ∈ c.member.memberList ↔ e = me ∨ e ∈ others := by
    intro e
    rw [hlist, List.mem_cons]
  rw [hdone]
  constructor
  case entries =>
    intro e
    simp only [List.mem_cons, List.mem_filter, Bool.not_eq_true', hmem]
    constructor
    · rintro (rfl | ⟨he, ht⟩)
      · exact ⟨Or.inl rfl, Or.inl hme⟩
      · exact ⟨Or.inr he, Or.inr ht⟩
    · rintro ⟨rfl | he, ha⟩
      · exact Or.inl rfl
      · exact Or.inr ⟨he, ha.resolve_left (hothers e he)⟩
  case ok =>
    constructor
    · simp [ping_member, hme]
    · have hsub : ((others.filter fun e => !timedOut now e).map
          MemberListEntry.address).Sublist (others.map MemberListEntry.address) :=
        List.Sublist.map _ List.filter_sublist
      simp only [List.map_cons, List.nodup_cons]
      refine ⟨?_, hnodup.sublist hsub⟩
      intro hin
      obtain ⟨e, he, ha⟩ := List.mem_map.mp (hsub.subset hin)
      exact hothers e he (ha.trans hme)
  case sends =>
    intro s
    simp only [ping_sent, List.mem_append]
    refine or_congr Iff.rfl ?_
    split
    case isTrue h =>
      simp only [h, true_and, List.mem_map]
      exact exists_congr fun e => and_congr_right fun _ => eq_comm
    case isFalse h => simp [h]
  case log =>
    intro line hline
    rcases List.mem_append.mp hline with hline | hline
    · exact Or.inl hline
    · obtain ⟨e, he, rfl⟩ := List.mem_map.mp hline
      obtain ⟨he, ht⟩ := List.mem_filter.mp he
      exact Or.inr ⟨e, (hmem e).mpr (Or.inr he), hothers e he, ht, rfl⟩
  all_goals simp [ping_member]

/-- `nodeLoop` of a node that has not failed: the queue is handled, and a node in the group goes
on to `nodeLoopOps`. -/
theorem nodeLoop_spec (now : Int) {m : Member} (ok : MemberListOk m) (hlive : m.bFailed = false) :
    ∃ checked, Handled now m.mp1q ({ m with mp1q := [] } : Member).call checked ∧
      checked.member.mp1q = [] ∧
      ((checked.member.inGroup = false ∧ m.call.nodeLoop now = checked) ∨
        (checked.member.inGroup = true ∧ OpsDone now checked (m.call.nodeLoop now))) := by
  have hh : Handled now m.mp1q ({ m with mp1q := [] } : Member).call
      (m.call.checkMessages now) := handled_checkMessages (c := m.call) ok
  refine ⟨m.call.checkMessages now, hh, mp1q_checkMessages _, ?_⟩
  have hlive' : m.call.member.bFailed = false := hlive
  unfold Call.nodeLoop
  rw [hlive']
  simp only [Bool.false_eq_true, if_false]
  cases hin : (m.call.checkMessages now).member.inGroup with
  | false => exact Or.inl ⟨rfl, by simp⟩
  | true => exact Or.inr ⟨rfl, by simpa using nodeLoopOps_done hh.ok⟩

/-! ## One turn of a live node -/

/-- What a live node that had `q` in its queue did in `nodeLoop`. -/
structure Turn (now : Int) (q : List Msg) (m : Member) (c : Call) : Prop where
  addr : c.member.addr = m.addr
  bFailed : c.member.bFailed = m.bFailed
  mp1q : c.member.mp1q = []
  ok : MemberListOk c.member
  inGroup : c.member.inGroup = true ↔ m.inGroup = true ∨ ∃ x ∈ q, x.msgType = .joinRep
  heartbeat : c.member.heartbeat =
    if c.member.inGroup = true ∧ m.pingCounter = 0 then m.heartbeat + 1 else m.heartbeat
  pingCounter : c.member.pingCounter =
    if c.member.inGroup = true then
      if m.pingCounter = 0 then tFail else m.pingCounter - 1
    else m.pingCounter
  /-- an entry is an old one, or was set now by one of the messages -/
  entries : ∀ e' ∈ c.member.memberList, e' ∈ m.memberList ∨
    (e'.timestamp = now ∧ ∃ x ∈ q, x.addr = e'.address ∧ x.heartbeat = e'.heartbeat)
  /-- a node in the group holds no timed-out entry of another member -/
  young : c.member.inGroup = true → ∀ e' ∈ c.member.memberList,
    e'.address = m.addr ∨ timedOut now e' = false
  kept : ∀ e ∈ m.memberList, (timedOut now e = true ∧ e.address ≠ m.addr) ∨
    ∃ e' ∈ c.member.memberList, e'.address = e.address ∧ e.heartbeat ≤ e'.heartbeat
  heard : ∀ x ∈ q, (∃ e ∈ m.memberList, e.address = x.addr ∧ x.heartbeat ≤ e.heartbeat) ∨
    ∃ e' ∈ c.member.memberList, e'.address = x.addr ∧ x.heartbeat ≤ e'.heartbeat
  sends : ∀ s ∈ c.sent,
    (∃ x ∈ q, x.msgType = .joinReq ∧ s = ⟨x.addr, ⟨.joinRep, m.addr, m.heartbeat⟩⟩) ∨
    (((∃ e ∈ m.memberList, e.address = s.toaddr) ∨ ∃ x ∈ q, x.addr = s.toaddr) ∧
      ((∃ x ∈ q, s.msg = ⟨.heartbeat, x.addr, x.heartbeat⟩ ∧
        ((∃ e ∈ m.memberList, e.address = x.addr ∧ e.heartbeat < x.heartbeat) ∨
          ∃ x' ∈ q, x'.addr = x.addr ∧ x'.heartbeat < x.heartbeat)) ∨
      (c.member.inGroup = true ∧ m.pingCounter = 0 ∧
        s.msg = ⟨.heartbeat, m.addr, m.heartbeat + 1⟩)))
  replies : ∀ x ∈ q, x.msgType = .joinReq →
    ⟨x.addr, ⟨.joinRep, m.addr, m.heartbeat⟩⟩ ∈ c.sent
  passedOn : ∀ x ∈ q, ∀ e ∈ m.memberList, e.address = x.addr → e.heartbeat < x.heartbeat →
    ∀ e₁ ∈ m.memberList, ∃ h, ⟨e₁.address, ⟨.heartbeat, x.addr, h⟩⟩ ∈ c.sent
  /-- a ping reaches everyone known before or through the messages -/
  pinged : c.member.inGroup = true → m.pingCounter = 0 → ∀ a,
    ((∃ e ∈ m.memberList, e.address = a) ∨ ∃ x ∈ q, x.addr = a) →
    ⟨a, ⟨.heartbeat, m.addr, m.heartbeat + 1⟩⟩ ∈ c.sent
  log : ∀ line ∈ c.log, (∃ a, line = .nodeAdd m.addr a now) ∨
    ∃ e ∈ m.memberList, e.address ≠ m.addr ∧ timedOut now e = true ∧
      (∀ x ∈ q, x.addr = e.address → x.heartbeat ≤ e.heartbeat) ∧
      line = .nodeRemove m.addr e.address now

theorem timedOut_now {now : Int} {e : MemberListEntry} (h : e.timestamp = now) :
    timedOut now e = false := by
  simp [timedOut, tRemove, h]

section Turn

variable {q : List Msg} {m : Member} {c₁ c₂ : Call}

/-- What the removal loop may drop was there before and was not raised by a message. -/
theorem Handled.old_of_timedOut (hh : Handled now q c c₁) {e : MemberListEntry}
    (he : e ∈ c₁.member.memberList) (ht : timedOut now e = true) : e ∈ c.member.memberList := by
  rcases hh.entries e he with he | ⟨hts, -⟩
  · exact he
  · rw [timedOut_now hts] at ht
    cases ht

theorem Handled.exists_entry_iff (hh : Handled now q c c₁) (a : Address) :
    (∃ e ∈ c₁.member.memberList, e.address = a) ↔
      (∃ e ∈ c.member.memberList, e.address = a) ∨ ∃ x ∈ q, x.addr = a := by
  constructor
  · intro ⟨e, he, ha⟩
    rcases hh.entries e he with he | ⟨-, x, hx, hxa, -⟩
    · exact Or.inl ⟨e, he, ha⟩
    · exact Or.inr ⟨x, hx, hxa.trans ha⟩
  · intro h
    rcases h with ⟨e, he, ha⟩ | ⟨x, hx, ha⟩
    · obtain ⟨e', he', ha', -⟩ := hh.kept e he
      exact ⟨e', he', ha'.trans ha⟩
    · obtain ⟨e', he', ha', -⟩ := hh.heard x hx
      exact ⟨e', he', ha'.trans ha⟩

/-- A node outside the group has done its turn when the queue is handled. -/
theorem turn_outside (hh : Handled now q ({ m with mp1q := [] } : Member).call c₁)
    (hq : c₁.member.mp1q = []) (hin : c₁.member.inGroup = false) : Turn now q m c₁ := by
  constructor
  case addr => exact hh.addr
  case bFailed => exact hh.bFailed
  case mp1q => exact hq
  case ok => exact hh.ok
  case inGroup => exact hh.inGroup
  case heartbeat =>
    simp only [hin, Bool.false_eq_true, false_and, if_false]
    exact hh.heartbeat
  case pingCounter =>
    simp only [hin, Bool.false_eq_true, if_false]
    exact hh.pingCounter
  case entries => exact hh.entries
  case young => simp [hin]
  case kept => exact fun e he => Or.inr (hh.kept e he)
  case heard => exact fun x hx => Or.inr (hh.heard x hx)
  case sends =>
    intro s hs
    rcases hh.sends s hs with hs | hs | ⟨x, hx, hmsg, hto, hlow⟩
    · cases hs
    · exact Or.inl hs
    · exact Or.inr ⟨hto, Or.inl ⟨x, hx, hmsg, hlow⟩⟩
  case replies => exact hh.replies
  case passedOn => exact hh.passedOn
  case pinged => simp [hin]
  case log =>
    intro line hline
    rcases hh.log line hline with hline | hadd
    · cases hline
    · exact Or.inl hadd

/-- A node in the group goes on to ping the others and to remove who timed out. -/
theorem turn_inside (ok : MemberListOk m)
    (hh : Handled now q ({ m with mp1q := [] } : Member).call c₁) (hq : c₁.member.mp1q = [])
    (hin : c₁.member.inGroup = true) (hops : OpsDone now c₁ c₂) : Turn now q m c₂ := by
  have hin' : c₂.member.inGroup = true := hops.inGroup.trans hin
  constructor
  case addr => exact hops.addr.trans hh.addr
  case bFailed => exact hops.bFailed.trans hh.bFailed
  case mp1q => exact hops.mp1q.trans hq
  case ok => exact hops.ok
  case inGroup =>
    rw [hops.inGroup]
    exact hh.inGroup
  case heartbeat =>
    rw [hops.heartbeat, hh.pingCounter, hh.heartbeat]
    simp only [hin', true_and]
    rfl
  case pingCounter =>
    rw [hops.pingCounter, hh.pingCounter]
    simp only [hin', if_true]
    rfl
  case entries => exact fun e' he' => hh.entries e' ((hops.entries e').mp he').1
  case young =>
    intro _ e' he'
    have := ((hops.entries e').mp he').2
    rwa [hh.addr] at this
  case kept =>
    intro e he
    obtain ⟨e', he', ha', hle⟩ := hh.kept e he
    by_cases hdrop : timedOut now e' = true ∧ e'.address ≠ m.addr
    · obtain rfl := ok.eq_of_address (hh.old_of_timedOut he' hdrop.1) he ha'
      exact Or.inl hdrop
    · refine Or.inr ⟨e', (hops.entries e').mpr ⟨he', ?_⟩, ha', hle⟩
      rw [hh.addr]
      by_cases ha : e'.address = m.addr
      · exact Or.inl ha
      · exact Or.inr (by simpa [ha] using hdrop)
  case heard =>
    intro x hx
    obtain ⟨e', he', ha', hle⟩ := hh.heard x hx
    by_cases hdrop : timedOut now e' = true
    · exact Or.inl ⟨e', hh.old_of_timedOut he' hdrop, ha', hle⟩
    · exact Or.inr ⟨e', (hops.entries e').mpr ⟨he', Or.inr (by simpa using hdrop)⟩, ha', hle⟩
  case sends =>
    intro s hs
    rcases (hops.sends s).mp hs with hs | ⟨hp, e, he, rfl⟩
    · rcases hh.sends s hs with hs | hs | ⟨x, hx, hmsg, hto, hlow⟩
      · cases hs
      · exact Or.inl hs
      · exact Or.inr ⟨hto, Or.inl ⟨x, hx, hmsg, hlow⟩⟩
    · refine Or.inr ⟨(hh.exists_entry_iff e.address).mp ⟨e, he, rfl⟩, Or.inr ⟨hin', ?_, ?_⟩⟩
      · exact hh.pingCounter.symm.trans hp
      · rw [hh.addr, hh.heartbeat]
        rfl
  case replies => exact fun x hx hreq => (hops.sends _).mpr (Or.inl (hh.replies x hx hreq))
  case passedOn =>
    intro x hx e he ha hlt e₁ he₁
    obtain ⟨h, hs⟩ := hh.passedOn x hx e he ha hlt e₁ he₁
    exact ⟨h, (hops.sends _).mpr (Or.inl hs)⟩
  case pinged =>
    intro _ hp a ha
    obtain ⟨e, he, rfl⟩ := (hh.exists_entry_iff a).mpr ha
    refine (hops.sends _).mpr (Or.inr ⟨hh.pingCounter.trans hp, e, he, ?_⟩)
    rw [hh.addr, hh.heartbeat]
    rfl
  case log =>
    intro line hline
    rcases hops.log line hline with hline | ⟨e, he, hne, ht, rfl⟩
    · rcases hh.log line hline with hline | hadd
      · cases hline
      · exact Or.inl hadd
    · rw [hh.addr] at hne ⊢
      refine Or.inr ⟨e, hh.old_of_timedOut he ht, hne, ht, ?_, rfl⟩
      intro x hx ha
      obtain ⟨e', he', ha', hle⟩ := hh.heard x hx
      obtain rfl := hh.ok.eq_of_address he' he (ha'.trans ha)
      exact hle

theorem turn_nodeLoop (now : Int) (ok : MemberListOk m) (hlive : m.bFailed = false) :
    Turn now m.mp1q m (m.call.nodeLoop now) := by
  obtain ⟨c₁, hh, hq, hcase⟩ := nodeLoop_spec now ok hlive
  rcases hcase with ⟨hin, hc⟩ | ⟨hin, hops⟩
  · rw [hc]
    exact turn_outside hh hq hin
  · exact turn_inside ok hh hq hin hops

end Turn

/-- `nodeStart`: the list is the node alone; all but the introducer ask to join. -/
theorem nodeStart_spec (now : Int) (m : Member) :
    let c := m.call.nodeStart now
    c.member = { m with
        bFailed := false, inited := true, inGroup := decide (m.addr = Call.joinAddr), nnb := 0
        heartbeat := 0, pingCounter := tFail, timeOutCounter := -1
        memberList := [⟨m.addr.id, m.addr.port, 0, now⟩] } ∧
      c.sent = (if m.addr = Call.joinAddr then [] else
        [⟨Call.joinAddr, ⟨.joinReq, m.addr, 0⟩⟩]) ∧
      c.log = [] := by
  simp only [Call.nodeStart, Call.introduceSelfToGroup, Call.initThisNode, Member.call]
  split <;> simp_all [Call.enSend]

theorem memberListOk_nodeStart (m : Member) :
    MemberListOk (m.call.nodeStart now).member := by
  rw [(nodeStart_spec now m).1]
  exact ⟨by simp [MemberListEntry.address], by simp⟩

end Ops

end CloudComputing.MembershipProtocol
