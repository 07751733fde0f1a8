import CloudComputing.MembershipProtocol.MP1Node

/-!
# What handling a batch of messages can do

`Handled now q c c'` says everything the later arguments use about a node that
handled the messages `q` at time `now`.  It holds of one `recvCallBack`, of
none, and composes, so it holds of `checkMessages`; nothing after this module
unfolds the handlers again.
-/

namespace CloudComputing.MembershipProtocol

/-- The list starts with the node itself and names no address twice. -/
structure MemberListOk (m : Member) : Prop where
  head : (m.memberList.map MemberListEntry.address).head? = some m.addr
  nodup : (m.memberList.map MemberListEntry.address).Nodup

theorem MemberListOk.eq_of_address {m : Member} (ok : MemberListOk m) {e e' : MemberListEntry}
    (he : e ∈ m.memberList) (he' : e' ∈ m.memberList) (h : e.address = e'.address) : e = e' :=
  List.inj_on_of_nodup_map ok.nodup he he' h

/-! ## Raising one entry -/

section Raise

variable {now h : Int} {a : Address} {es : List MemberListEntry}

@[simp] theorem raiseEntry_addresses :
    (raiseEntry now a h es).map MemberListEntry.address = es.map MemberListEntry.address := by
  induction es with
  | nil => rfl
  | cons e es ih =>
      unfold raiseEntry
      split
      · rfl
      · simp [ih]

theorem mem_raiseEntry {e' : MemberListEntry} (h' : e' ∈ raiseEntry now a h es) :
    e' ∈ es ∨ (e'.address = a ∧ e'.heartbeat = h ∧ e'.timestamp = now) := by
  induction es with
  | nil => simp [raiseEntry] at h'
  | cons e es ih =>
      unfold raiseEntry at h'
      split at h'
      case isTrue ha =>
        rcases List.mem_cons.mp h' with rfl | h'
        · exact Or.inr ⟨ha, rfl, rfl⟩
        · exact Or.inl (List.mem_cons_of_mem _ h')
      case isFalse =>
        rcases List.mem_cons.mp h' with rfl | h'
        · exact Or.inl List.mem_cons_self
        · exact (ih h').imp_left (List.mem_cons_of_mem _)

/-- Raising keeps every other entry, and turns the first one for `a` into a fresh one. -/
theorem mem_raiseEntry_of_mem {e : MemberListEntry} (he : e ∈ es)
    (hle : ∀ e ∈ es, e.address = a → e.heartbeat ≤ h) :
    ∃ e' ∈ raiseEntry now a h es, e'.address = e.address ∧ e.heartbeat ≤ e'.heartbeat := by
  induction es with
  | nil => simp at he
  | cons e₀ es ih =>
      unfold raiseEntry
      split
      case isTrue ha =>
        rcases List.mem_cons.mp he with rfl | he
        · exact ⟨_, List.mem_cons_self, rfl, hle e List.mem_cons_self ha⟩
        · exact ⟨e, List.mem_cons_of_mem _ he, rfl, le_rfl⟩
      case isFalse =>
        rcases List.mem_cons.mp he with rfl | he
        · exact ⟨e, List.mem_cons_self, rfl, le_rfl⟩
        · obtain ⟨e', he', h'⟩ := ih he fun e he => hle e (List.mem_cons_of_mem _ he)
          exact ⟨e', List.mem_cons_of_mem _ he', h'⟩

theorem exists_raiseEntry (now h : Int) {e : MemberListEntry} (he : e ∈ es) (ha : e.address = a) :
    ∃ e' ∈ raiseEntry now a h es, e'.address = a ∧ e'.heartbeat = h := by
  induction es with
  | nil => simp at he
  | cons e₀ es ih =>
      unfold raiseEntry
      split
      case isTrue ha₀ => exact ⟨_, List.mem_cons_self, ha₀, rfl⟩
      case isFalse ha₀ =>
        rcases List.mem_cons.mp he with rfl | he
        · exact absurd ha ha₀
        · obtain ⟨e', he', h'⟩ := ih he
          exact ⟨e', List.mem_cons_of_mem _ he', h'⟩

end Raise

/-! ## The relation -/

/-- What a node did between `c` and `c'` by handling the messages `q` at time `now`. -/
structure Handled (now : Int) (q : List Msg) (c c' : Call) : Prop where
  addr : c'.member.addr = c.member.addr
  bFailed : c'.member.bFailed = c.member.bFailed
  heartbeat : c'.member.heartbeat = c.member.heartbeat
  pingCounter : c'.member.pingCounter = c.member.pingCounter
  inGroup : c'.member.inGroup = true ↔
    c.member.inGroup = true ∨ ∃ m ∈ q, m.msgType = .joinRep
  /-- an entry is an old one, or was set now by one of the messages -/
  entries : ∀ e' ∈ c'.member.memberList, e' ∈ c.member.memberList ∨
    (e'.timestamp = now ∧ ∃ m ∈ q, m.addr = e'.address ∧ m.heartbeat = e'.heartbeat)
  /-- no address is lost and no heartbeat goes down -/
  kept : ∀ e ∈ c.member.memberList, ∃ e' ∈ c'.member.memberList,
    e'.address = e.address ∧ e.heartbeat ≤ e'.heartbeat
  heard : ∀ m ∈ q, ∃ e' ∈ c'.member.memberList,
    e'.address = m.addr ∧ m.heartbeat ≤ e'.heartbeat
  ok : MemberListOk c'.member
  /-- what is sent answers a join request or passes on a higher heartbeat -/
  sends : ∀ s ∈ c'.sent, s ∈ c.sent ∨
    (∃ m ∈ q, m.msgType = .joinReq ∧
      s = ⟨m.addr, ⟨.joinRep, c.member.addr, c.member.heartbeat⟩⟩) ∨
    (∃ m ∈ q, s.msg = ⟨.heartbeat, m.addr, m.heartbeat⟩ ∧
      ((∃ e ∈ c.member.memberList, e.address = s.toaddr) ∨ ∃ m' ∈ q, m'.addr = s.toaddr) ∧
      ((∃ e ∈ c.member.memberList, e.address = m.addr ∧ e.heartbeat < m.heartbeat) ∨
        ∃ m' ∈ q, m'.addr = m.addr ∧ m'.heartbeat < m.heartbeat))
  sent : ∀ s ∈ c.sent, s ∈ c'.sent
  /-- join requests are answered -/
  replies : ∀ m ∈ q, m.msgType = .joinReq →
    ⟨m.addr, ⟨.joinRep, c.member.addr, c.member.heartbeat⟩⟩ ∈ c'.sent
  /-- a higher heartbeat is passed on to everyone on the list -/
  passedOn : ∀ m ∈ q, ∀ e ∈ c.member.memberList, e.address = m.addr →
    e.heartbeat < m.heartbeat → ∀ e₁ ∈ c.member.memberList,
      ∃ h, ⟨e₁.address, ⟨.heartbeat, m.addr, h⟩⟩ ∈ c'.sent
  log : ∀ line ∈ c'.log, line ∈ c.log ∨ ∃ a, line = .nodeAdd c.member.addr a now

theorem Handled.refl {now : Int} {c : Call} (ok : MemberListOk c.member) :
    Handled now [] c c where
  addr := rfl
  bFailed := rfl
  heartbeat := rfl
  pingCounter := rfl
  inGroup := by simp
  entries := fun e' h => Or.inl h
  kept := fun e h => ⟨e, h, rfl, le_rfl⟩
  heard := by simp
  ok := ok
  sends := fun s h => Or.inl h
  sent := fun s h => h
  replies := by simp
  passedOn := by simp
  log := fun line h => Or.inl h

theorem Handled.trans {now : Int} {q₁ q₂ : List Msg} {c c₁ c₂ : Call}
    (ok : MemberListOk c.member) (h₁ : Handled now q₁ c c₁) (h₂ : Handled now q₂ c₁ c₂) :
    Handled now (q₁ ++ q₂) c c₂ where
  addr := h₂.addr.trans h₁.addr
  bFailed := h₂.bFailed.trans h₁.bFailed
  heartbeat := h₂.heartbeat.trans h₁.heartbeat
  pingCounter := h₂.pingCounter.trans h₁.pingCounter
  inGroup := by
    rw [h₂.inGroup, h₁.inGroup, or_assoc]
    simp only [List.mem_append, or_and_right, exists_or]
  entries := by
    intro e' he'
    rcases h₂.entries e' he' with he' | ⟨hts, m, hm, hm'⟩
    · rcases h₁.entries e' he' with he' | ⟨hts, m, hm, hm'⟩
      · exact Or.inl he'
      · exact Or.inr ⟨hts, m, List.mem_append_left _ hm, hm'⟩
    · exact Or.inr ⟨hts, m, List.mem_append_right _ hm, hm'⟩
  kept := by
    intro e he
    obtain ⟨e₁, he₁, ha₁, hh₁⟩ := h₁.kept e he
    obtain ⟨e₂, he₂, ha₂, hh₂⟩ := h₂.kept e₁ he₁
    exact ⟨e₂, he₂, ha₂.trans ha₁, hh₁.trans hh₂⟩
  heard := by
    intro m hm
    rcases List.mem_append.mp hm with hm | hm
    · obtain ⟨e₁, he₁, ha₁, hh₁⟩ := h₁.heard m hm
      obtain ⟨e₂, he₂, ha₂, hh₂⟩ := h₂.kept e₁ he₁
      exact ⟨e₂, he₂, ha₂.trans ha₁, hh₁.trans hh₂⟩
    · exact h₂.heard m hm
  ok := h₂.ok
  sends := by
    intro s hs
    rcases h₂.sends s hs with hs | ⟨m, hm, hreq, rfl⟩ | ⟨m, hm, hmsg, hto, hold⟩
    · rcases h₁.sends s hs with hs | ⟨m, hm, hreq, rfl⟩ | ⟨m, hm, hmsg, hto, hold⟩
      · exact Or.inl hs
      · exact Or.inr (Or.inl ⟨m, List.mem_append_left _ hm, hreq, rfl⟩)
      · refine Or.inr (Or.inr ⟨m, List.mem_append_left _ hm, hmsg, hto.imp_right ?_,
          hold.imp_right ?_⟩)
        · rintro ⟨m', hm', h'⟩
          exact ⟨m', List.mem_append_left _ hm', h'⟩
        · rintro ⟨m', hm', h'⟩
          exact ⟨m', List.mem_append_left _ hm', h'⟩
    · refine Or.inr (Or.inl ⟨m, List.mem_append_right _ hm, hreq, ?_⟩)
      rw [h₁.addr, h₁.heartbeat]
    · refine Or.inr (Or.inr ⟨m, List.mem_append_right _ hm, hmsg, ?_, ?_⟩)
      · rcases hto with ⟨e, he, ha⟩ | ⟨m', hm', ha⟩
        · rcases h₁.entries e he with he | ⟨-, m', hm', ha', -⟩
          · exact Or.inl ⟨e, he, ha⟩
          · exact Or.inr ⟨m', List.mem_append_left _ hm', ha'.trans ha⟩
        · exact Or.inr ⟨m', List.mem_append_right _ hm', ha⟩
      · rcases hold with ⟨e, he, ha, hlt⟩ | ⟨m', hm', h'⟩
        · rcases h₁.entries e he with he | ⟨-, m', hm', ha', hh'⟩
          · exact Or.inl ⟨e, he, ha, hlt⟩
          · exact Or.inr ⟨m', List.mem_append_left _ hm', ha'.trans ha, hh'.symm ▸ hlt⟩
        · exact Or.inr ⟨m', List.mem_append_right _ hm', h'⟩
  sent := fun s hs => h₂.sent s (h₁.sent s hs)
  replies := by
    intro m hm hreq
    rcases List.mem_append.mp hm with hm | hm
    · exact h₂.sent _ (h₁.replies m hm hreq)
    · have := h₂.replies m hm hreq
      rwa [h₁.addr, h₁.heartbeat] at this
  passedOn := by
    intro m hm e he ha hlt e₁ he₁
    rcases List.mem_append.mp hm with hm | hm
    · obtain ⟨h, hs⟩ := h₁.passedOn m hm e he ha hlt e₁ he₁
      exact ⟨h, h₂.sent _ hs⟩
    · obtain ⟨e', he', ha', hle⟩ := h₁.kept e he
      by_cases hlow : e'.heartbeat < m.heartbeat
      · obtain ⟨e₂, he₂, ha₂, -⟩ := h₁.kept e₁ he₁
        obtain ⟨h, hs⟩ := h₂.passedOn m hm e' he' (ha'.trans ha) hlow e₂ he₂
        exact ⟨h, ha₂ ▸ hs⟩
      · -- the first batch already raised this entry, and passed that on
        rcases h₁.entries e' he' with hold | ⟨-, m', hm', haddr, hh⟩
        · have := ok.eq_of_address hold he ha'
          subst this
          exact absurd hlt hlow
        · obtain ⟨h, hs⟩ := h₁.passedOn m' hm' e he (haddr.trans ha').symm
            (by omega) e₁ he₁
          rw [haddr, ha', ha] at hs
          exact ⟨h, h₂.sent _ hs⟩
  log := by
    intro line hline
    rcases h₂.log line hline with hline | ⟨a, rfl⟩
    · exact h₁.log line hline
    · exact Or.inr ⟨a, by rw [h₁.addr]⟩

/-! ## The handlers -/

section Handlers

variable {now : Int} {c : Call} {msg : Msg}

theorem answer_member (c : Call) (msg : Msg) :
    (c.answer msg).member =
      { c.member with inGroup := c.member.inGroup || decide (msg.msgType = .joinRep) } := by
  unfold Call.answer
  split <;> simp_all [Call.enSend]

theorem answer_sent (c : Call) (msg : Msg) :
    (c.answer msg).sent = c.sent ++ if msg.msgType = .joinReq then
      [⟨msg.addr, ⟨.joinRep, c.member.addr, c.member.heartbeat⟩⟩] else [] := by
  unfold Call.answer
  split <;> simp_all [Call.enSend]

@[simp] theorem answer_log (c : Call) (msg : Msg) : (c.answer msg).log = c.log := by
  unfold Call.answer
  split <;> rfl

theorem find?_known {m : Member} {e : MemberListEntry} {a : Address} (ok : MemberListOk m)
    (he : e ∈ m.memberList) (ha : e.address = a) :
    m.memberList.find? (fun entry => entry.address = a) = some e := by
  cases hfind : m.memberList.find? (fun entry => entry.address = a) with
  | some e' =>
      have hmem := List.mem_of_find?_eq_some hfind
      have ha' : e'.address = a := by simpa using List.find?_some hfind
      rw [ok.eq_of_address he hmem (ha.trans ha'.symm)]
  | none =>
      rw [List.find?_eq_none] at hfind
      exact absurd ha (by simpa using hfind e he)

/-- A heartbeat that is not news changes nothing. -/
theorem updateMembership_known {e : MemberListEntry} {a : Address} {h : Int}
    (ok : MemberListOk c.member) (he : e ∈ c.member.memberList) (ha : e.address = a)
    (hle : h ≤ e.heartbeat) : c.updateMembership now a h = c := by
  unfold Call.updateMembership
  rw [find?_known ok he ha]
  exact if_neg (not_lt.mpr hle)

theorem updateMembership_higher {e : MemberListEntry} {a : Address} {h : Int}
    (ok : MemberListOk c.member) (he : e ∈ c.member.memberList) (ha : e.address = a)
    (hlt : e.heartbeat < h) :
    c.updateMembership now a h =
      (c.setMemberList (raiseEntry now a h c.member.memberList)).sendHeartbeat a h := by
  unfold Call.updateMembership
  rw [find?_known ok he ha]
  exact if_pos hlt

theorem updateMembership_unknown (now h : Int) {a : Address}
    (hnew : ∀ e ∈ c.member.memberList, e.address ≠ a) :
    (c.updateMembership now a h).member =
        { c.member with memberList := c.member.memberList ++ [⟨a.id, a.port, h, now⟩] } ∧
      (c.updateMembership now a h).sent = c.sent ∧
      (c.updateMembership now a h).log = c.log ++ [.nodeAdd c.member.addr a now] := by
  unfold Call.updateMembership
  rw [List.find?_eq_none.mpr (by simpa using hnew)]
  simp [Call.setMemberList]

theorem memberListOk_congr {m m' : Member} (haddr : m'.addr = m.addr)
    (hlist : m'.memberList.map MemberListEntry.address =
      m.memberList.map MemberListEntry.address) (ok : MemberListOk m) : MemberListOk m' :=
  ⟨by rw [hlist, haddr]; exact ok.head, by rw [hlist]; exact ok.nodup⟩

theorem memberListOk_append {m : Member} {e : MemberListEntry} (ok : MemberListOk m)
    (hnew : ∀ e' ∈ m.memberList, e'.address ≠ e.address) :
    MemberListOk { m with memberList := m.memberList ++ [e] } := by
  constructor
  · have := ok.head
    cases h : m.memberList with
    | nil => simp [h] at this
    | cons e₀ es => simpa [h] using this
  · have := ok.nodup
    simp only [List.map_append, List.map_cons, List.map_nil]
    refine List.Nodup.append this (List.nodup_singleton _) ?_
    intro a ha ha'
    rw [List.mem_singleton] at ha'
    obtain ⟨e', he', rfl⟩ := List.mem_map.mp ha
    exact hnew e' he' ha'

/-- A heartbeat of a node that is not on the list adds it. -/
theorem handled_unknown (now : Int) (ok : MemberListOk c.member)
    (hmsg : msg.msgType = .heartbeat) (hnew : ∀ e ∈ c.member.memberList, e.address ≠ msg.addr) :
    Handled now [msg] c (c.updateMembership now msg.addr msg.heartbeat) := by
  obtain ⟨hmember, hsent, hlog⟩ := updateMembership_unknown now msg.heartbeat hnew
  constructor <;> simp only [hmember, hsent, hlog, List.mem_append, List.mem_singleton]
  case inGroup => simp [hmsg]
  case entries =>
    rintro e' (he' | rfl)
    · exact Or.inl he'
    · exact Or.inr ⟨rfl, msg, rfl, rfl, rfl⟩
  case kept => exact fun e he => ⟨e, Or.inl he, rfl, le_rfl⟩
  case heard =>
    rintro m rfl
    exact ⟨_, Or.inr rfl, rfl, le_rfl⟩
  case ok => exact memberListOk_append ok hnew
  case sends => exact fun s hs => Or.inl hs
  case sent => exact fun s hs => hs
  case replies =>
    rintro m rfl hreq
    rw [hmsg] at hreq
    cases hreq
  case passedOn =>
    rintro m rfl e he ha
    exact absurd ha (hnew e he)
  case log => exact fun line h => h.imp_right fun h => ⟨_, h⟩

/-- A heartbeat above the one on the list raises it there and is passed on to everyone. -/
theorem handled_higher (now : Int) (ok : MemberListOk c.member) (hmsg : msg.msgType = .heartbeat)
    {e : MemberListEntry} (he : e ∈ c.member.memberList) (ha : e.address = msg.addr)
    (hlt : e.heartbeat < msg.heartbeat) :
    Handled now [msg] c (c.updateMembership now msg.addr msg.heartbeat) := by
  rw [updateMembership_higher ok he ha hlt]
  constructor <;> simp only [Call.sendHeartbeat, Call.setMemberList, List.mem_singleton]
  case inGroup => simp [hmsg]
  case entries =>
    intro e' he'
    rcases mem_raiseEntry he' with he' | ⟨ha', hh', hts⟩
    · exact Or.inl he'
    · exact Or.inr ⟨hts, msg, rfl, ha'.symm, hh'.symm⟩
  case kept =>
    intro e₁ he₁
    refine mem_raiseEntry_of_mem he₁ ?_
    intro e₂ he₂ ha₂
    rw [ok.eq_of_address he₂ he (ha₂.trans ha.symm)]
    exact hlt.le
  case heard =>
    rintro m rfl
    obtain ⟨e', he', ha', hh'⟩ := exists_raiseEntry now m.heartbeat he ha
    exact ⟨e', he', ha', hh'.ge⟩
  case ok => exact memberListOk_congr (m := c.member) rfl raiseEntry_addresses ok
  case sends =>
    intro s hs
    rcases List.mem_append.mp hs with hs | hs
    · exact Or.inl hs
    · obtain ⟨e', he', rfl⟩ := List.mem_map.mp hs
      have : e'.address ∈ c.member.memberList.map MemberListEntry.address := by
        rw [← raiseEntry_addresses]
        exact List.mem_map_of_mem he'
      obtain ⟨e₁, he₁, ha₁⟩ := List.mem_map.mp this
      exact Or.inr (Or.inr ⟨msg, rfl, rfl, Or.inl ⟨e₁, he₁, ha₁⟩, Or.inl ⟨e, he, ha, hlt⟩⟩)
  case sent => exact fun s hs => List.mem_append_left _ hs
  case replies =>
    rintro m rfl hreq
    rw [hmsg] at hreq
    cases hreq
  case passedOn =>
    rintro m rfl e' he' ha' hlt' e₁ he₁
    have : e₁.address ∈ (raiseEntry now m.addr m.heartbeat c.member.memberList).map
        MemberListEntry.address := by
      rw [raiseEntry_addresses]
      exact List.mem_map_of_mem he₁
    obtain ⟨e₂, he₂, ha₂⟩ := List.mem_map.mp this
    refine ⟨m.heartbeat, List.mem_append_right _ ?_⟩
    rw [← ha₂]
    exact List.mem_map_of_mem (f := fun entry : MemberListEntry =>
      (⟨entry.address, ⟨.heartbeat, m.addr, m.heartbeat⟩⟩ : Send)) he₂
  case log => exact fun line h => Or.inl h

theorem handled_known (now : Int) (ok : MemberListOk c.member) (hmsg : msg.msgType = .heartbeat)
    {e : MemberListEntry} (he : e ∈ c.member.memberList) (ha : e.address = msg.addr)
    (hle : msg.heartbeat ≤ e.heartbeat) :
    Handled now [msg] c (c.updateMembership now msg.addr msg.heartbeat) := by
  rw [updateMembership_known ok he ha hle]
  have hquiet : Handled now [] c c := Handled.refl ok
  constructor
  case inGroup => simp [hmsg]
  case entries => exact fun e' h => Or.inl h
  case heard =>
    intro m hm
    obtain rfl := List.mem_singleton.mp hm
    exact ⟨e, he, ha, hle⟩
  case sends => exact fun s h => Or.inl h
  case replies =>
    intro m hm hreq
    obtain rfl := List.mem_singleton.mp hm
    rw [hmsg] at hreq
    cases hreq
  case passedOn =>
    intro m hm e' he' ha' hlt'
    obtain rfl := List.mem_singleton.mp hm
    rw [ok.eq_of_address he' he (ha'.trans ha.symm)] at hlt'
    exact absurd hle hlt'.not_ge
  case ok => exact ok
  all_goals first
    | exact hquiet.kept
    | exact hquiet.sent
    | exact hquiet.log
    | rfl

theorem handled_updateMembership (now : Int) (msg : Msg) (ok : MemberListOk c.member)
    (hmsg : msg.msgType = .heartbeat) :
    Handled now [msg] c (c.updateMembership now msg.addr msg.heartbeat) := by
  by_cases hnew : ∀ e ∈ c.member.memberList, e.address ≠ msg.addr
  · exact handled_unknown now ok hmsg hnew
  · push Not at hnew
    obtain ⟨e, he, ha⟩ := hnew
    by_cases hlt : e.heartbeat < msg.heartbeat
    · exact handled_higher now ok hmsg he ha hlt
    · exact handled_known now ok hmsg he ha (by omega)

theorem handled_recvCallBack (now : Int) (msg : Msg) (ok : MemberListOk c.member) :
    Handled now [msg] c (c.recvCallBack now msg) := by
  have hmember := answer_member c msg
  have hsent := answer_sent c msg
  have ok' : MemberListOk (c.answer msg).member := by
    rw [hmember]
    exact memberListOk_congr (m := c.member) rfl rfl ok
  -- the list is updated as by a heartbeat, whatever the message is
  have h := handled_updateMembership now ⟨.heartbeat, msg.addr, msg.heartbeat⟩ ok' rfl
  have hlist : (c.answer msg).member.memberList = c.member.memberList := by rw [hmember]
  constructor
  case addr => exact h.addr.trans (by rw [hmember])
  case bFailed => exact h.bFailed.trans (by rw [hmember])
  case heartbeat => exact h.heartbeat.trans (by rw [hmember])
  case pingCounter => exact h.pingCounter.trans (by rw [hmember])
  case inGroup =>
    refine h.inGroup.trans ?_
    rw [hmember]
    simp
  case entries =>
    intro e' he'
    rcases h.entries e' he' with he' | ⟨hts, m, hm, ha, hh⟩
    · exact Or.inl (hlist ▸ he')
    · obtain rfl := List.mem_singleton.mp hm
      exact Or.inr ⟨hts, msg, List.mem_singleton_self _, ha, hh⟩
  case kept => exact fun e he => h.kept e (hlist.symm ▸ he)
  case heard =>
    intro m hm
    obtain rfl := List.mem_singleton.mp hm
    exact h.heard ⟨.heartbeat, m.addr, m.heartbeat⟩ (List.mem_singleton_self _)
  case ok => exact h.ok
  case sends =>
    intro s hs
    rcases h.sends s hs with hs | ⟨m, hm, hreq, -⟩ | ⟨m, hm, hmsg, hto, hold⟩
    · rw [hsent, List.mem_append] at hs
      rcases hs with hs | hs
      · exact Or.inl hs
      · split at hs
        case isTrue hreq =>
          exact Or.inr (Or.inl ⟨msg, List.mem_singleton_self _, hreq, List.mem_singleton.mp hs⟩)
        case isFalse => simp at hs
    · obtain rfl := List.mem_singleton.mp hm
      cases hreq
    · obtain rfl := List.mem_singleton.mp hm
      simp only [hlist, List.mem_singleton, exists_eq_left] at hto hold
      exact Or.inr (Or.inr ⟨msg, List.mem_singleton_self _, hmsg, by simpa using hto,
        by simpa using hold⟩)
  case sent =>
    intro s hs
    exact h.sent s (by rw [hsent]; exact List.mem_append_left _ hs)
  case replies =>
    intro m hm hreq
    obtain rfl := List.mem_singleton.mp hm
    refine h.sent _ ?_
    rw [hsent, if_pos hreq]
    exact List.mem_append_right _ (List.mem_singleton_self _)
  case passedOn =>
    intro m hm e he ha hlt e₁ he₁
    obtain rfl := List.mem_singleton.mp hm
    exact h.passedOn ⟨.heartbeat, m.addr, m.heartbeat⟩ (List.mem_singleton_self _) e (hlist.symm ▸ he) ha hlt e₁
      (hlist.symm ▸ he₁)
  case log =>
    intro line hline
    rcases h.log line hline with hline | ⟨a, rfl⟩
    · exact Or.inl (by simpa using hline)
    · exact Or.inr ⟨a, by rw [hmember]⟩

theorem handled_foldl (q : List Msg) (ok : MemberListOk c.member) :
    Handled now q c (q.foldl (Call.recvCallBack now) c) := by
  induction q generalizing c with
  | nil => exact Handled.refl ok
  | cons m q ih =>
      have h := handled_recvCallBack now m ok
      exact h.trans ok (ih h.ok)

theorem handled_checkMessages (ok : MemberListOk c.member) :
    Handled now c.member.mp1q { c with member := { c.member with mp1q := [] } }
      (c.checkMessages now) :=
  handled_foldl _ (memberListOk_congr (m := c.member) rfl rfl ok)

theorem mp1q_recvCallBack (c : Call) (msg : Msg) :
    (c.recvCallBack now msg).member.mp1q = c.member.mp1q := by
  have hmember := answer_member c msg
  unfold Call.recvCallBack Call.updateMembership
  split
  · split <;> simp [Call.sendHeartbeat, Call.setMemberList, hmember]
  · simp [Call.setMemberList, hmember]

@[simp] theorem mp1q_checkMessages (c : Call) : (c.checkMessages now).member.mp1q = [] := by
  unfold Call.checkMessages
  generalize hstart : ({ c with member := { c.member with mp1q := [] } } : Call) = start
  have hempty : start.member.mp1q = [] := by rw [← hstart]
  clear hstart
  induction c.member.mp1q generalizing start with
  | nil => simpa using hempty
  | cons m q ih => exact ih _ (by rw [mp1q_recvCallBack, hempty])

end Handlers

end CloudComputing.MembershipProtocol
