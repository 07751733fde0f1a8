import Mathlib.Algebra.BigOperators.Group.Finset.Basic
import Mathlib.Data.Finset.Lattice.Union
import Mathlib.Data.Finset.Prod
import Mathlib.Data.Prod.Lex
import Mathlib.Order.WellFounded
import CloudComputing.MembershipProtocol.DeliveryOrder
import CloudComputing.MembershipProtocol.Swarm

/-!
# Flooding dies out

A node that hears a higher heartbeat of a member passes it on to everyone on its
list, itself included, so one delivery can make many messages.  Each such
delivery teaches the node something it did not know.  While no node counts its
own heartbeat up there are only finitely many things to learn; a delivery that
teaches nothing answers a join request or makes no message at all.
-/

namespace CloudComputing.MembershipProtocol

open Function Lib Relation

namespace Swarm

/-- Nodes that are up receive messages and handle them, in any order; messages are lost in flight
and on being sent.  Nobody starts, finishes or counts its heartbeat up. -/
inductive Delivers (s : Swarm) : Swarm → Prop
  | receive {p : Send} {b : Address} (hp : p ∈ s.flight) (hto : p.toaddr.strcmpEq b)
      (hup : s.up b = true) : Delivers s
        { s.setMember b { s.member b with mp1q := (s.member b).mp1q ++ [p.msg] } with
          flight := s.flight.erase p }
  | lose {p : Send} (hp : p ∈ s.flight) : Delivers s { s with flight := s.flight.erase p }
  | handle {b : Address} {msg : Msg} {before after : List Msg} {sent : List Send} {done : Call}
      (now : Int) (hup : s.up b = true) (hqueue : (s.member b).mp1q = before ++ msg :: after)
      (hdone : done = { s.member b with mp1q := before ++ after }.call.recvCallBack now msg)
      (hsent : sent.Sublist done.sent) :
      Delivers s { s.setMember b done.member with flight := s.flight ++ sent }

variable {s s' : Swarm} {nodes : Finset Address} {b : Address} {m m' : Member} {msg : Msg}

/-! ## What there is to learn -/

def news (msg : Msg) : Address × Int := (msg.addr, msg.heartbeat)

/-- Everything that is said about anybody, by messages and by the nodes about themselves. -/
def said (nodes : Finset Address) (s : Swarm) : Finset (Address × Int) :=
  (s.flight.map fun p => news p.msg).toFinset ∪
    nodes.biUnion fun a => insert ((s.member a).addr, (s.member a).heartbeat)
      ((s.member a).mp1q.map news).toFinset

/-- The heartbeat would be new or higher. -/
def Lacks (m : Member) (x : Address × Int) : Prop :=
  ∀ old time, m.table x.1 = some (old, time) → old < x.2

open Classical in
/-- Who lacks what. -/
noncomputable def lacking (nodes : Finset Address) (s : Swarm) : Finset (Address × Address × Int) :=
  (nodes ×ˢ s.said nodes).filter fun x => Lacks (s.member x.1) x.2

/-- Join requests on their way, weighed with all other messages. -/
def requests (msgs : List Msg) : ℕ :=
  msgs.countP fun msg => msg.msgType = .joinReq

/-- What can still happen: somebody learns something, a join request is answered, a message moves.
-/
noncomputable def rank (nodes : Finset Address) (s : Swarm) : ℕ ×ₗ ℕ ×ₗ ℕ :=
  toLex ((s.lacking nodes).card, toLex
    (requests (s.flight.map Send.msg) + ∑ a ∈ nodes, requests (s.member a).mp1q,
      2 * s.flight.length + ∑ a ∈ nodes, (s.member a).mp1q.length))

theorem mem_said {x : Address × Int} : x ∈ s.said nodes ↔ (∃ p ∈ s.flight, news p.msg = x) ∨
    ∃ a ∈ nodes, x = ((s.member a).addr, (s.member a).heartbeat) ∨
      ∃ msg ∈ (s.member a).mp1q, news msg = x := by
  simp [said]

theorem mem_lacking {a : Address} {x : Address × Int} : (a, x) ∈ s.lacking nodes ↔
    a ∈ nodes ∧ x ∈ s.said nodes ∧ Lacks (s.member a) x := by
  classical
  rw [lacking, Finset.mem_filter, Finset.mem_product, and_assoc]

theorem sum_setMember (g : Member → ℕ) (hb : b ∈ nodes) :
    ∑ a ∈ nodes, g ((s.setMember b m).member a) + g (s.member b) =
      ∑ a ∈ nodes, g (s.member a) + g m := by
  have hrest : ∑ a ∈ nodes.erase b, g ((s.setMember b m).member a) =
      ∑ a ∈ nodes.erase b, g (s.member a) := by
    apply Finset.sum_congr rfl
    intro a ha
    rw [member_setMember_of_ne (Finset.ne_of_mem_erase ha)]
  have hnew := Finset.add_sum_erase nodes (fun a => g ((s.setMember b m).member a)) hb
  have hold := Finset.add_sum_erase nodes (fun a => g (s.member a)) hb
  simp only [member_setMember_self] at hnew
  omega

/-! ## One message -/

theorem Lacks.of_hear {now : Int} {x : Address × Int}
    (htable : ∀ a, m'.table a = if a = msg.addr then hear now (m.table a) msg.heartbeat else m.table a)
    (h : Lacks m' x) : Lacks m x := by
  intro old time hold
  by_cases hx : x.1 = msg.addr
  · have hnew := htable x.1
    rw [if_pos hx, hold, hear] at hnew
    split at hnew
    case isTrue hlt =>
      have := h _ _ hnew
      omega
    case isFalse => exact h _ _ hnew
  · exact h old time (by rw [htable, if_neg hx, hold])

theorem not_lacks_of_hear {now : Int}
    (htable : ∀ a, m'.table a = if a = msg.addr then hear now (m.table a) msg.heartbeat else m.table a) :
    ¬ Lacks m' (news msg) := by
  intro h
  have hnew := htable msg.addr
  rw [if_pos rfl] at hnew
  cases hknown : m.table msg.addr with
  | none =>
      rw [hknown, hear] at hnew
      exact absurd (h _ _ hnew) (lt_irrefl _)
  | some old =>
      rw [hknown, hear] at hnew
      split at hnew
      case isTrue => exact absurd (h _ _ hnew) (lt_irrefl _)
      case isFalse hle => exact absurd (h _ _ hnew) hle

theorem frame_updateMembership (now h : Int) (a : Address) (c : Call) :
    (c.updateMembership now a h).member.addr = c.member.addr ∧
      (c.updateMembership now a h).member.heartbeat = c.member.heartbeat := by
  unfold Call.updateMembership
  split
  · split <;> exact ⟨rfl, rfl⟩
  · exact ⟨rfl, rfl⟩

/-- What is sent is the answer, and the heartbeat when it is higher than the one on the list. -/
theorem sent_recvCallBack (now : Int) (m : Member) (msg : Msg) :
    (m.call.recvCallBack now msg).sent = (m.call.answer msg).sent ∨
      (Lacks m (news msg) ∧ ∀ p ∈ (m.call.recvCallBack now msg).sent,
        p ∈ (m.call.answer msg).sent ∨ p.msg = ⟨.heartbeat, msg.addr, msg.heartbeat⟩) := by
  unfold Call.recvCallBack Call.updateMembership
  cases hfind : (m.call.answer msg).member.memberList.find?
      fun entry => entry.address = msg.addr with
  | none => exact Or.inl rfl
  | some e =>
      dsimp only
      split
      case isFalse => exact Or.inl rfl
      case isTrue hlt =>
        have hknown : (m.call.answer msg).member.table msg.addr =
            some (e.heartbeat, e.timestamp) := by
          rw [Member.table, hfind, Option.map_some]
        rw [table_answer] at hknown
        refine Or.inr ⟨fun old time hold => ?_, fun p hp => ?_⟩
        · obtain ⟨rfl, -⟩ := Prod.mk.inj (Option.some.inj (hold.symm.trans hknown))
          exact hlt
        · rcases List.mem_append.mp hp with hp | hp
          · exact Or.inl hp
          · obtain ⟨entry, -, rfl⟩ := List.mem_map.mp hp
            exact Or.inr rfl

/-- What handling one message can do: the table hears the heartbeat, and what is sent tells what the
message tells or what the node knows of itself.  A message that teaches nothing makes at most one
answer, to a join request. -/
structure HandledOne (now : Int) (msg : Msg) (m : Member) (c : Call) : Prop where
  addr : c.member.addr = m.addr
  heartbeat : c.member.heartbeat = m.heartbeat
  mp1q : c.member.mp1q = m.mp1q
  table : ∀ a, c.member.table a =
    if a = msg.addr then hear now (m.table a) msg.heartbeat else m.table a
  tells : ∀ p ∈ c.sent, news p.msg = news msg ∨ news p.msg = (m.addr, m.heartbeat)
  requests : ∀ p ∈ c.sent, p.msg.msgType ≠ .joinReq
  quiet : ¬ Lacks m (news msg) → msg.msgType ≠ .joinReq → c.sent = []

theorem sent_answer (m : Member) (msg : Msg) : (m.call.answer msg).sent =
    if msg.msgType = .joinReq then [⟨msg.addr, ⟨.joinRep, m.addr, m.heartbeat⟩⟩] else [] := by
  rw [answer_sent]
  rfl

theorem msg_of_answer {p : Send} (hp : p ∈ (m.call.answer msg).sent) :
    p.msg = ⟨.joinRep, m.addr, m.heartbeat⟩ := by
  rw [sent_answer] at hp
  split at hp
  · rw [List.mem_singleton.mp hp]
  · cases hp

theorem msg_of_recvCallBack {now : Int} {p : Send}
    (hp : p ∈ (m.call.recvCallBack now msg).sent) :
    p.msg = ⟨.joinRep, m.addr, m.heartbeat⟩ ∨ p.msg = ⟨.heartbeat, msg.addr, msg.heartbeat⟩ := by
  rcases sent_recvCallBack now m msg with heq | ⟨-, hmem⟩
  · exact Or.inl (msg_of_answer (heq ▸ hp))
  · exact (hmem p hp).imp_left msg_of_answer

theorem handledOne_recvCallBack (now : Int) (m : Member) (msg : Msg) :
    HandledOne now msg m (m.call.recvCallBack now msg) := by
  have hframe := frame_updateMembership now msg.heartbeat msg.addr (m.call.answer msg)
  rw [answer_member] at hframe
  constructor
  case addr => exact hframe.1
  case heartbeat => exact hframe.2
  case mp1q => exact mp1q_recvCallBack m.call msg
  case table =>
    intro a
    rw [Call.recvCallBack, table_updateMembership, table_answer]
    rfl
  case tells =>
    intro p hp
    rcases msg_of_recvCallBack hp with heq | heq
    · exact Or.inr (by rw [heq]; rfl)
    · exact Or.inl (by rw [heq]; rfl)
  case requests =>
    intro p hp
    rcases msg_of_recvCallBack hp with heq | heq <;> simp [heq]
  case quiet =>
    intro hknown htype
    rcases sent_recvCallBack now m msg with heq | ⟨hlacks, -⟩
    · rw [heq, sent_answer, if_neg htype]
    · exact absurd hlacks hknown

/-! ## One delivery -/

theorem lacking_subset (hsaid : s'.said nodes ⊆ s.said nodes)
    (htable : ∀ a ∈ nodes, ∀ x, Lacks (s'.member a) x → Lacks (s.member a) x) :
    s'.lacking nodes ⊆ s.lacking nodes := by
  rintro ⟨a, x⟩ hx
  obtain ⟨ha, hx, hlacks⟩ := mem_lacking.mp hx
  exact mem_lacking.mpr ⟨ha, hsaid hx, htable a ha x hlacks⟩

theorem said_lose {p : Send} :
    said nodes { s with flight := s.flight.erase p } ⊆ s.said nodes := by
  intro x hx
  rcases mem_said.mp hx with ⟨q, hq, rfl⟩ | hx
  · exact mem_said.mpr (Or.inl ⟨q, List.mem_of_mem_erase hq, rfl⟩)
  · exact mem_said.mpr (Or.inr hx)

theorem said_receive {p : Send} (hp : p ∈ s.flight) (hb : b ∈ nodes) :
    said nodes { s.setMember b { s.member b with mp1q := (s.member b).mp1q ++ [p.msg] } with
      flight := s.flight.erase p } ⊆ s.said nodes := by
  intro x hx
  rcases mem_said.mp hx with ⟨q, hq, rfl⟩ | ⟨a, ha, hx⟩
  · exact mem_said.mpr (Or.inl ⟨q, List.mem_of_mem_erase hq, rfl⟩)
  · by_cases hab : a = b
    · subst hab
      simp only [member_setMember_self] at hx
      rcases hx with rfl | ⟨msg, hmsg, rfl⟩
      · exact mem_said.mpr (Or.inr ⟨a, ha, Or.inl rfl⟩)
      · rcases List.mem_append.mp hmsg with hmsg | hmsg
        · exact mem_said.mpr (Or.inr ⟨a, ha, Or.inr ⟨msg, hmsg, rfl⟩⟩)
        · exact mem_said.mpr (Or.inl ⟨p, hp, by rw [List.mem_singleton.mp hmsg]⟩)
    · rw [member_setMember_of_ne hab] at hx
      exact mem_said.mpr (Or.inr ⟨a, ha, hx⟩)

section Handle

variable {now : Int} {before after : List Msg} {sent : List Send} {c : Call}

theorem said_handle (hb : b ∈ nodes) (hqueue : (s.member b).mp1q = before ++ msg :: after)
    (hone : HandledOne now msg { s.member b with mp1q := before ++ after } c)
    (hsent : sent.Sublist c.sent) :
    said nodes { s.setMember b c.member with flight := s.flight ++ sent } ⊆ s.said nodes := by
  have hown : ((s.member b).addr, (s.member b).heartbeat) ∈ s.said nodes :=
    mem_said.mpr (Or.inr ⟨b, hb, Or.inl rfl⟩)
  have hheard : ∀ msg' ∈ (s.member b).mp1q, news msg' ∈ s.said nodes := fun msg' h =>
    mem_said.mpr (Or.inr ⟨b, hb, Or.inr ⟨msg', h, rfl⟩⟩)
  have hmsg : news msg ∈ s.said nodes := hheard msg (by simp [hqueue])
  intro x hx
  rcases mem_said.mp hx with ⟨p, hp, rfl⟩ | ⟨a, ha, hx⟩
  · rcases List.mem_append.mp hp with hp | hp
    · exact mem_said.mpr (Or.inl ⟨p, hp, rfl⟩)
    · rcases hone.tells p (hsent.subset hp) with heq | heq
      · rw [heq]
        exact hmsg
      · rw [heq]
        exact hown
  · by_cases hab : a = b
    · subst hab
      simp only [member_setMember_self, hone.addr, hone.heartbeat, hone.mp1q] at hx
      rcases hx with rfl | ⟨msg', hmsg', rfl⟩
      · exact hown
      · apply hheard
        rw [hqueue]
        simp only [List.mem_append, List.mem_cons] at hmsg' ⊢
        tauto
    · rw [member_setMember_of_ne hab] at hx
      exact mem_said.mpr (Or.inr ⟨a, ha, hx⟩)

theorem lacks_handle (hone : HandledOne now msg { s.member b with mp1q := before ++ after } c)
    (a : Address) (x : Address × Int)
    (h : Lacks ((s.setMember b c.member).member a) x) : Lacks (s.member a) x := by
  by_cases hab : a = b
  · subst hab
    rw [member_setMember_self] at h
    exact Lacks.of_hear hone.table h
  · rwa [member_setMember_of_ne hab] at h

/-- A delivery that teaches the node something. -/
theorem lacking_lt (hb : b ∈ nodes) (hqueue : (s.member b).mp1q = before ++ msg :: after)
    (hone : HandledOne now msg { s.member b with mp1q := before ++ after } c)
    (hsent : sent.Sublist c.sent) (hlacks : Lacks (s.member b) (news msg)) :
    (lacking nodes { s.setMember b c.member with flight := s.flight ++ sent }).card <
      (s.lacking nodes).card := by
  apply Finset.card_lt_card
  rw [Finset.ssubset_iff_of_subset
    (lacking_subset (said_handle hb hqueue hone hsent) fun a _ => lacks_handle hone a)]
  refine ⟨(b, news msg), mem_lacking.mpr ⟨hb, mem_said.mpr (Or.inr ⟨b, hb, Or.inr
    ⟨msg, by simp [hqueue], rfl⟩⟩), hlacks⟩, fun hmem => ?_⟩
  obtain ⟨-, -, hlacks'⟩ := mem_lacking.mp hmem
  have htold : ¬ Lacks c.member (news msg) := not_lacks_of_hear hone.table
  apply htold
  simpa using hlacks'

end Handle

theorem rank_lt (hlacking : (s'.lacking nodes).card ≤ (s.lacking nodes).card)
    (h : (s'.lacking nodes).card < (s.lacking nodes).card ∨
      requests (s'.flight.map Send.msg) + ∑ a ∈ nodes, requests (s'.member a).mp1q <
        requests (s.flight.map Send.msg) + ∑ a ∈ nodes, requests (s.member a).mp1q ∨
      requests (s'.flight.map Send.msg) + ∑ a ∈ nodes, requests (s'.member a).mp1q ≤
          requests (s.flight.map Send.msg) + ∑ a ∈ nodes, requests (s.member a).mp1q ∧
        2 * s'.flight.length + ∑ a ∈ nodes, (s'.member a).mp1q.length <
          2 * s.flight.length + ∑ a ∈ nodes, (s.member a).mp1q.length) :
    s'.rank nodes < s.rank nodes := by
  unfold rank
  rw [Prod.Lex.toLex_lt_toLex]
  rcases hlacking.lt_or_eq with hlt | heq
  · exact Or.inl hlt
  · refine Or.inr ⟨heq, Prod.Lex.toLex_lt_toLex.mpr ?_⟩
    dsimp only
    omega

theorem requests_append (msgs msgs' : List Msg) :
    requests (msgs ++ msgs') = requests msgs + requests msgs' :=
  List.countP_append

theorem flight_erase {p : Send} (hp : p ∈ s.flight) :
    requests ((s.flight.erase p).map Send.msg) + requests [p.msg] =
        requests (s.flight.map Send.msg) ∧
      (s.flight.erase p).length + 1 = s.flight.length := by
  have hperm := List.perm_cons_erase hp
  constructor
  · have hmap : requests (s.flight.map Send.msg) =
        requests ([p.msg] ++ (s.flight.erase p).map Send.msg) :=
      (hperm.map Send.msg).countP_eq _
    rw [hmap, requests_append, Nat.add_comm]
  · rw [hperm.length_eq, List.length_cons]

theorem sum_queues (s : Swarm) (m : Member) (hb : b ∈ nodes) :
    ∑ a ∈ nodes, requests ((s.setMember b m).member a).mp1q + requests (s.member b).mp1q =
        ∑ a ∈ nodes, requests (s.member a).mp1q + requests m.mp1q ∧
      ∑ a ∈ nodes, ((s.setMember b m).member a).mp1q.length + (s.member b).mp1q.length =
        ∑ a ∈ nodes, (s.member a).mp1q.length + m.mp1q.length :=
  ⟨sum_setMember (fun m => requests m.mp1q) hb, sum_setMember (fun m => m.mp1q.length) hb⟩

theorem rank_receive {p : Send} (hp : p ∈ s.flight) (hb : b ∈ nodes) :
    rank nodes { s.setMember b { s.member b with mp1q := (s.member b).mp1q ++ [p.msg] } with
      flight := s.flight.erase p } < s.rank nodes := by
  let m : Member := { s.member b with mp1q := (s.member b).mp1q ++ [p.msg] }
  obtain ⟨hrequests, hlength⟩ := flight_erase hp
  obtain ⟨hcount, htotal⟩ := sum_queues s m hb
  rw [show m.mp1q = (s.member b).mp1q ++ [p.msg] from rfl] at hcount htotal
  rw [requests_append] at hcount
  rw [List.length_append, List.length_singleton] at htotal
  have hsame : ∀ a x, Lacks ((s.setMember b m).member a) x → Lacks (s.member a) x := by
    intro a x hlacks
    by_cases hab : a = b
    · subst hab
      rwa [member_setMember_self] at hlacks
    · rwa [member_setMember_of_ne hab] at hlacks
  apply rank_lt (Finset.card_le_card (lacking_subset (said_receive hp hb) fun a _ => hsame a))
  refine Or.inr (Or.inr ⟨?_, ?_⟩)
  · change _ + ∑ a ∈ nodes, requests ((s.setMember b m).member a).mp1q ≤ _
    dsimp only
    omega
  · change _ + ∑ a ∈ nodes, ((s.setMember b m).member a).mp1q.length < _
    dsimp only
    omega

theorem rank_lose {p : Send} (hp : p ∈ s.flight) :
    rank nodes { s with flight := s.flight.erase p } < s.rank nodes := by
  obtain ⟨hrequests, hlength⟩ := flight_erase hp
  apply rank_lt (Finset.card_le_card (lacking_subset said_lose fun a _ x h => h))
  refine Or.inr (Or.inr ⟨?_, ?_⟩)
  · dsimp only
    omega
  · dsimp only
    omega

/-- A message that is handled teaches something, or is a join request, or makes no message. -/
theorem rank_handle {now : Int} {before after : List Msg} {sent : List Send} {c : Call}
    (hb : b ∈ nodes) (hqueue : (s.member b).mp1q = before ++ msg :: after)
    (hone : HandledOne now msg { s.member b with mp1q := before ++ after } c)
    (hsent : sent.Sublist c.sent) :
    rank nodes { s.setMember b c.member with flight := s.flight ++ sent } < s.rank nodes := by
  obtain ⟨hcount, htotal⟩ := sum_queues s c.member hb
  have hanswers : requests (sent.map Send.msg) = 0 := by
    apply List.countP_eq_zero.mpr
    intro msg' hmsg'
    obtain ⟨p, hp, rfl⟩ := List.mem_map.mp hmsg'
    simpa using hone.requests p (hsent.subset hp)
  have hqueued : requests (before ++ msg :: after) =
      requests (before ++ after) + requests [msg] := by
    rw [← List.singleton_append, requests_append, requests_append, requests_append]
    omega
  rw [hone.mp1q, hqueue] at hcount htotal
  rw [hqueued] at hcount
  dsimp only at hcount htotal
  rw [List.length_append, List.length_append, List.length_cons] at htotal
  have hrequests : requests ((s.flight ++ sent).map Send.msg) =
      requests (s.flight.map Send.msg) := by
    rw [List.map_append, requests_append, hanswers, Nat.add_zero]
  apply rank_lt
    (Finset.card_le_card (lacking_subset (said_handle hb hqueue hone hsent)
      fun a _ => lacks_handle hone a))
  by_cases hlacks : Lacks (s.member b) (news msg)
  · exact Or.inl (lacking_lt hb hqueue hone hsent hlacks)
  · refine Or.inr ?_
    dsimp only
    rw [hrequests]
    by_cases htype : msg.msgType = .joinReq
    · have hreq : requests [msg] = 1 := by simp [requests, htype]
      exact Or.inl (by omega)
    · have hnone := hone.quiet hlacks htype
      rw [hnone, List.sublist_nil] at hsent
      subst hsent
      rw [List.append_nil]
      exact Or.inr ⟨by omega, by omega⟩

/-- Each delivery lowers the rank. -/
theorem Delivers.rank_lt (hup : ∀ a, s.up a = true → a ∈ nodes) (h : Delivers s s') :
    s'.rank nodes < s.rank nodes := by
  cases h with
  | @receive p b hp hto hb => exact rank_receive hp (hup b hb)
  | lose hp => exact rank_lose hp
  | @handle b msg before after sent done now hb hqueue hdone hsent =>
      have hone : HandledOne now msg { s.member b with mp1q := before ++ after } done :=
        hdone ▸ handledOne_recvCallBack now _ msg
      exact rank_handle (hup b hb) hqueue hone hsent

/-! ## Every run of deliveries ends -/

/-- Only finitely many nodes are up at any time. -/
theorem finite_up {ok : Swarm → Action → Prop} (h : Steps ok initial s) :
    {a | s.up a = true}.Finite := by
  induction h with
  | refl => simp [initial]
  | @tail s₁ s₂ _ hstep ih =>
      obtain ⟨action, -, hstep⟩ := hstep
      have hsame : s₂.up = s₁.up → {a | s₂.up a = true}.Finite := fun heq => by rwa [heq]
      cases action with
      | start a =>
          obtain rfl := Option.some.inj hstep
          apply (ih.insert a).subset
          intro b hb
          by_cases hab : b = a
          · exact Or.inl hab
          · exact Or.inr (by simpa [hab] using hb)
      | finish a =>
          obtain rfl := Option.some.inj hstep
          apply ih.subset
          intro b hb
          by_cases hab : b = a
          · simp [hab] at hb
          · simpa [hab] using hb
      | loop a =>
          obtain ⟨-, rfl⟩ := step_loop hstep
          exact hsame rfl
      | receive p b =>
          obtain ⟨-, rfl⟩ := step_receive hstep
          exact hsame rfl
      | lose p =>
          obtain ⟨-, rfl⟩ := step_lose hstep
          exact hsame rfl
      | fail a =>
          obtain rfl := Option.some.inj hstep
          exact hsame rfl
      | tick =>
          obtain rfl := Option.some.inj hstep
          exact hsame rfl

theorem Delivers.up (h : Delivers s s') : s'.up = s.up := by
  cases h <;> rfl

/-- From any state the protocol can be in, every sequence of deliveries is finite. -/
theorem flooding_dies_out (h : Steps Anything initial s) :
    ¬ ∃ run : ℕ → Swarm, run 0 = s ∧ ∀ i, Delivers (run i) (run (i + 1)) := by
  have hup : ∀ a, s.up a = true → a ∈ (finite_up h).toFinset := fun a ha => by simpa using ha
  refine not_forever (P := fun s' => ∀ a, s'.up a = true → a ∈ (finite_up h).toFinset)
    (rank (finite_up h).toFinset) ?_ ?_ hup
  · intro s₁ s₂ hup₁ hstep a ha
    exact hup₁ a (by rwa [← hstep.up])
  · intro s₁ s₂ hup₁ hstep
    exact hstep.rank_lt hup₁

/-- A node that has been started. -/
theorem flooding_dies_out_started : ¬ ∃ run : ℕ → Swarm,
    run 0 = { initial.call ⟨2, 0⟩ (Call.nodeStart 0) with up := update initial.up ⟨2, 0⟩ true } ∧
      ∀ i, Delivers (run i) (run (i + 1)) :=
  flooding_dies_out (.single ⟨.start ⟨2, 0⟩, trivial, rfl⟩)

end Swarm

end CloudComputing.MembershipProtocol
