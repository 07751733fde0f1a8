import Mathlib.Algebra.BigOperators.Group.List.Lemmas
import Mathlib.Algebra.Order.BigOperators.Group.List
import CloudComputing.MembershipProtocol.NodeTick

/-!
# How much a node sends in one turn

A node passes on a heartbeat only when it raises the one on its list.  So the
messages of a turn to any one address are paid for by what the heartbeats on the
list grow together, but for answers to join requests and for the ping.
-/

namespace CloudComputing.MembershipProtocol

/-- How many of the messages go to `b`. -/
def toward (b : Address) (sent : List Send) : Nat :=
  sent.countP fun s => s.toaddr = b

def requests (q : List Msg) : Nat :=
  q.countP fun x => x.msgType = .joinReq

def beats (es : List MemberListEntry) : Int :=
  (es.map MemberListEntry.heartbeat).sum

variable {now h : Int} {a b : Address} {es es' : List MemberListEntry} {q : List Msg} {c : Call}
  {m : Member}

@[simp] theorem toward_nil : toward b [] = 0 := rfl

@[simp] theorem toward_append (ss ss' : List Send) :
    toward b (ss ++ ss') = toward b ss + toward b ss' :=
  List.countP_append

@[simp] theorem requests_cons (x : Msg) (q : List Msg) :
    requests (x :: q) = requests q + if x.msgType = .joinReq then 1 else 0 := by
  simp [requests, List.countP_cons]

@[simp] theorem beats_cons (e : MemberListEntry) (es : List MemberListEntry) :
    beats (e :: es) = e.heartbeat + beats es := by
  simp [beats]

@[simp] theorem beats_append (es es' : List MemberListEntry) :
    beats (es ++ es') = beats es + beats es' := by
  simp [beats]

theorem toward_eq_zero {ss : List Send} (h : ∀ s ∈ ss, s.toaddr ≠ b) : toward b ss = 0 := by
  simpa [toward, List.countP_eq_zero] using h

theorem toward_everyone (hnodup : (es.map MemberListEntry.address).Nodup) (x : Msg) :
    toward b (es.map fun e => ⟨e.address, x⟩) ≤ 1 := by
  have hcount := List.nodup_iff_count_le_one.mp hnodup b
  rw [List.count, List.countP_map] at hcount
  rw [toward, List.countP_map]
  calc es.countP _ = es.countP ((· == b) ∘ MemberListEntry.address) :=
        List.countP_congr fun e _ => by simp
    _ ≤ 1 := hcount

/-! ## The heartbeats on a list -/

theorem beats_raiseEntry (hnodup : (es.map MemberListEntry.address).Nodup) {e : MemberListEntry}
    (he : e ∈ es) (ha : e.address = a) :
    beats (raiseEntry now a h es) = beats es + (h - e.heartbeat) := by
  induction es with
  | nil => cases he
  | cons e₀ es ih =>
      obtain ⟨hnew, hnodup⟩ := List.nodup_cons.mp hnodup
      unfold raiseEntry
      split
      case isTrue h₀ =>
        have hsame : e = e₀ := by
          rcases List.mem_cons.mp he with rfl | he
          · rfl
          · have hmem : e.address ∈ es.map MemberListEntry.address := List.mem_map_of_mem he
            rw [ha, ← h₀] at hmem
            exact absurd hmem hnew
        rw [hsame, beats_cons, beats_cons]
        show h + beats es = _
        omega
      case isFalse h₀ =>
        have he' : e ∈ es := by
          rcases List.mem_cons.mp he with rfl | he
          · exact absurd ha h₀
          · exact he
        rw [beats_cons, beats_cons, ih hnodup he']
        omega

theorem beats_nonneg (hes : ∀ e ∈ es, 0 ≤ e.heartbeat) : 0 ≤ beats es := by
  apply List.sum_nonneg
  simpa using hes

theorem beats_le {H : Int} (hes : ∀ e ∈ es, e.heartbeat ≤ H) : beats es ≤ es.length * H := by
  have hsum := List.sum_le_card_nsmul (es.map MemberListEntry.heartbeat) H (by simpa using hes)
  simpa [beats] using hsum

theorem beats_le_of_close
    (haddr : es'.map MemberListEntry.address = es.map MemberListEntry.address)
    (hclose : ∀ e ∈ es, ∀ e' ∈ es', e'.address = e.address → e'.heartbeat ≤ e.heartbeat + 1) :
    beats es' ≤ beats es + es.length := by
  induction es generalizing es' with
  | nil =>
      rw [List.map_nil, List.map_eq_nil_iff] at haddr
      rw [haddr]
      simp
  | cons e es ih =>
      obtain ⟨e', es', rfl, ha, haddr⟩ := List.map_eq_cons_iff.mp haddr
      have hhead := hclose e List.mem_cons_self e' List.mem_cons_self ha
      have htail := ih haddr fun e₁ he₁ e₂ he₂ =>
        hclose e₁ (List.mem_cons_of_mem _ he₁) e₂ (List.mem_cons_of_mem _ he₂)
      rw [beats_cons, beats_cons, List.length_cons]
      push_cast
      omega

/-! ## Handling the queue -/

theorem toward_updateMembership (now : Int) (b : Address) (ok : MemberListOk c.member)
    (hnonneg : 0 ≤ h) :
    (toward b (c.updateMembership now a h).sent : Int) + beats c.member.memberList ≤
      toward b c.sent + beats (c.updateMembership now a h).member.memberList := by
  by_cases hnew : ∀ e ∈ c.member.memberList, e.address ≠ a
  · obtain ⟨hmember, hsent, -⟩ := updateMembership_unknown now h hnew
    have hadd : beats [(⟨a.id, a.port, h, now⟩ : MemberListEntry)] = h := by simp [beats]
    rw [hmember, hsent, beats_append, hadd]
    omega
  push Not at hnew
  obtain ⟨e, he, ha⟩ := hnew
  by_cases hlt : e.heartbeat < h
  · have hone : toward b ((raiseEntry now a h c.member.memberList).map fun e =>
        ⟨e.address, ⟨.heartbeat, a, h⟩⟩) ≤ 1 := by
      apply toward_everyone
      rw [raiseEntry_addresses]
      exact ok.nodup
    have hraise : beats (raiseEntry now a h c.member.memberList) =
        beats c.member.memberList + (h - e.heartbeat) :=
      beats_raiseEntry ok.nodup he ha
    rw [updateMembership_higher ok he ha hlt]
    simp only [Call.sendHeartbeat, Call.setMemberList, toward_append, hraise]
    push_cast
    omega
  · rw [updateMembership_known ok he ha (by omega)]

theorem toward_recvCallBack (now : Int) (b : Address) (ok : MemberListOk c.member) {x : Msg}
    (hnonneg : 0 ≤ x.heartbeat) :
    (toward b (c.recvCallBack now x).sent : Int) + beats c.member.memberList ≤
      toward b c.sent + (if x.msgType = .joinReq then 1 else 0 : Nat) +
        beats (c.recvCallBack now x).member.memberList := by
  have hmember := answer_member c x
  have ok' : MemberListOk (c.answer x).member := by
    rw [hmember]
    exact memberListOk_congr (m := c.member) rfl rfl ok
  have hupdate := toward_updateMembership now b (a := x.addr) ok' hnonneg
  have hanswer : toward b (c.answer x).sent ≤
      toward b c.sent + if x.msgType = .joinReq then 1 else 0 := by
    rw [answer_sent, toward_append]
    apply Nat.add_le_add_left
    split
    · exact List.countP_le_length
    · exact le_rfl
  have hlist : (c.answer x).member.memberList = c.member.memberList := by rw [hmember]
  rw [hlist] at hupdate
  show (toward b ((c.answer x).updateMembership now x.addr x.heartbeat).sent : Int) + _ ≤
    _ + beats ((c.answer x).updateMembership now x.addr x.heartbeat).member.memberList
  generalize (if x.msgType = .joinReq then 1 else 0 : Nat) = answers at hanswer
  omega

/-- Every message beyond the answers to join requests has a heartbeat to pay for it. -/
theorem toward_foldl (now : Int) (b : Address) (ok : MemberListOk c.member)
    (hnonneg : ∀ x ∈ q, 0 ≤ x.heartbeat) :
    (toward b (q.foldl (Call.recvCallBack now) c).sent : Int) + beats c.member.memberList ≤
      toward b c.sent + requests q +
        beats (q.foldl (Call.recvCallBack now) c).member.memberList := by
  induction q generalizing c with
  | nil => simp [requests]
  | cons x q ih =>
      have hfirst := toward_recvCallBack now b ok (hnonneg x List.mem_cons_self)
      have hrest := ih (handled_recvCallBack now x ok).ok fun y hy =>
        hnonneg y (List.mem_cons_of_mem _ hy)
      rw [List.foldl_cons, requests_cons, Nat.cast_add]
      omega

theorem addresses_recvCallBack (now : Int) (ok : MemberListOk c.member) {x : Msg}
    (hknown : ∃ e ∈ c.member.memberList, e.address = x.addr) :
    (c.recvCallBack now x).member.memberList.map MemberListEntry.address =
      c.member.memberList.map MemberListEntry.address := by
  have hmember := answer_member c x
  have ok' : MemberListOk (c.answer x).member := by
    rw [hmember]
    exact memberListOk_congr (m := c.member) rfl rfl ok
  obtain ⟨e, he, ha⟩ := hknown
  have he' : e ∈ (c.answer x).member.memberList := by rwa [hmember]
  show ((c.answer x).updateMembership now x.addr x.heartbeat).member.memberList.map _ = _
  by_cases hlt : e.heartbeat < x.heartbeat
  · rw [updateMembership_higher ok' he' ha hlt]
    show (raiseEntry now x.addr x.heartbeat (c.answer x).member.memberList).map _ = _
    rw [raiseEntry_addresses, hmember]
  · rw [updateMembership_known ok' he' ha (by omega), hmember]

theorem addresses_foldl (now : Int) (ok : MemberListOk c.member)
    (hknown : ∀ x ∈ q, ∃ e ∈ c.member.memberList, e.address = x.addr) :
    (q.foldl (Call.recvCallBack now) c).member.memberList.map MemberListEntry.address =
      c.member.memberList.map MemberListEntry.address := by
  induction q generalizing c with
  | nil => rfl
  | cons x q ih =>
      have hfirst := addresses_recvCallBack now ok (hknown x List.mem_cons_self)
      rw [List.foldl_cons, ih (handled_recvCallBack now x ok).ok, hfirst]
      intro y hy
      obtain ⟨e, he, ha⟩ := hknown y (List.mem_cons_of_mem _ hy)
      obtain ⟨e', he', ha', -⟩ := (handled_recvCallBack now x ok).kept e he
      exact ⟨e', he', ha'.trans ha⟩

/-! ## The turn -/

/-- What is sent to `b` in a turn, in terms of the list after the queue is handled. -/
theorem toward_nodeLoop (now : Int) (b : Address) (ok : MemberListOk m) (hlive : m.bFailed = false)
    (hnonneg : ∀ x ∈ m.mp1q, 0 ≤ x.heartbeat) :
    (toward b (m.call.nodeLoop now).sent : Int) + beats m.memberList ≤
      requests m.mp1q + beats (m.call.checkMessages now).member.memberList + 1 := by
  have hstart : MemberListOk ({ m with mp1q := [] } : Member).call.member :=
    memberListOk_congr (m := m) rfl rfl ok
  have hfold : (toward b (m.call.checkMessages now).sent : Int) + beats m.memberList ≤
      toward b [] + requests m.mp1q + beats (m.call.checkMessages now).member.memberList :=
    toward_foldl (c := ({ m with mp1q := [] } : Member).call) now b hstart hnonneg
  have hhandled : Handled now m.mp1q ({ m with mp1q := [] } : Member).call
      (m.call.checkMessages now) := handled_checkMessages (c := m.call) ok
  have hping : toward b ((m.call.checkMessages now).nodeLoopOps now).sent ≤
      toward b (m.call.checkMessages now).sent + 1 := by
    have hsent : ((m.call.checkMessages now).nodeLoopOps now).sent =
        (m.call.checkMessages now).ping.sent := by
      unfold Call.nodeLoopOps Call.removeTimedOut
      split <;> rfl
    rw [hsent, ping_sent, toward_append]
    apply Nat.add_le_add_left
    split
    · exact toward_everyone hhandled.ok.nodup _
    · exact Nat.zero_le 1
  rw [toward_nil] at hfold
  unfold Call.nodeLoop
  rw [show m.call.member.bFailed = false from hlive, if_neg Bool.false_ne_true]
  by_cases hin : (m.call.checkMessages now).member.inGroup = true
  · rw [if_pos hin]
    omega
  · rw [if_neg hin]
    omega

theorem toward_le_of_bounded {N : Nat} {H : Int} (b : Address) (ok : MemberListOk m)
    (hlive : m.bFailed = false) (hH : 0 ≤ H) (hq : ∀ x ∈ m.mp1q, 0 ≤ x.heartbeat ∧ x.heartbeat ≤ H)
    (hes : ∀ e ∈ m.memberList, 0 ≤ e.heartbeat ∧ e.heartbeat ≤ H)
    (hN : (m.call.checkMessages now).member.memberList.length ≤ N) :
    (toward b (m.call.nodeLoop now).sent : Int) ≤ requests m.mp1q + N * H + 1 := by
  have hhandled : Handled now m.mp1q ({ m with mp1q := [] } : Member).call
      (m.call.checkMessages now) := handled_checkMessages (c := m.call) ok
  have hafter : beats (m.call.checkMessages now).member.memberList ≤ N * H := by
    apply (beats_le (H := H) _).trans
    · apply Int.mul_le_mul_of_nonneg_right _ hH
      exact_mod_cast hN
    · intro e he
      rcases hhandled.entries e he with he | ⟨-, x, hx, -, hbeat⟩
      · exact (hes e he).2
      · exact hbeat ▸ (hq x hx).2
  have hbefore := beats_nonneg fun e he => (hes e he).1
  have hturn := toward_nodeLoop now b ok hlive fun x hx => (hq x hx).1
  omega

theorem toward_le_of_close (now : Int) (b : Address) (ok : MemberListOk m)
    (hlive : m.bFailed = false) (hnonneg : ∀ x ∈ m.mp1q, 0 ≤ x.heartbeat)
    (hrequests : ∀ x ∈ m.mp1q, x.msgType ≠ .joinReq)
    (hknown : ∀ x ∈ m.mp1q, ∃ e ∈ m.memberList, e.address = x.addr)
    (hclose : ∀ x ∈ m.mp1q, ∀ e ∈ m.memberList, e.address = x.addr →
      x.heartbeat ≤ e.heartbeat + 1) :
    toward b (m.call.nodeLoop now).sent ≤ m.memberList.length + 1 := by
  have hstart : MemberListOk ({ m with mp1q := [] } : Member).call.member :=
    memberListOk_congr (m := m) rfl rfl ok
  have hhandled : Handled now m.mp1q ({ m with mp1q := [] } : Member).call
      (m.call.checkMessages now) := handled_checkMessages (c := m.call) ok
  have haddr : (m.call.checkMessages now).member.memberList.map MemberListEntry.address =
      m.memberList.map MemberListEntry.address :=
    addresses_foldl (c := ({ m with mp1q := [] } : Member).call) now hstart hknown
  have hgrowth := beats_le_of_close haddr (by
    intro e he e' he' ha
    rcases hhandled.entries e' he' with hold | ⟨-, x, hx, hxa, hbeat⟩
    · rw [ok.eq_of_address hold he ha]
      omega
    · exact hbeat ▸ hclose x hx e he (ha.symm.trans hxa.symm))
  have hnone : requests m.mp1q = 0 := by
    simpa [requests, List.countP_eq_zero] using hrequests
  have hturn := toward_nodeLoop now b ok hlive hnonneg
  omega

end CloudComputing.MembershipProtocol
