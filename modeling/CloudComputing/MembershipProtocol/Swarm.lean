import Mathlib.Logic.Function.Basic
import CloudComputing.Lib.Fold
import CloudComputing.MembershipProtocol.NodeTick

/-!
# Nodes under any schedule

`mp1Run` takes the nodes in one fixed order.  Here they take their turns in any
order: nodes start, run `nodeLoop`, fail and finish at any time, and what is in
flight is received late, out of order or never, by whichever node the network
takes for the addressee.
-/

namespace CloudComputing.MembershipProtocol

open Function Relation

/-- `finishUpThisNode`. -/
def Member.finishUpThisNode (m : Member) : Member :=
  if m.inited then
    { m with
        memberList := []
        inGroup := false
        bFailed := true
        nnb := 0
        heartbeat := 0
        pingCounter := 0
        timeOutCounter := -1
        inited := false }
  else m

/-- All nodes by address; `up` says which have been started and not finished. -/
structure Swarm where
  member : Address → Member
  up : Address → Bool
  now : Int
  flight : List Send

inductive Action where
  | start (a : Address)
  | loop (a : Address)
  | receive (p : Send) (b : Address)
  | lose (p : Send)
  | fail (a : Address)
  | finish (a : Address)
  | tick

namespace Swarm

/-- The nodes as constructed. -/
def initial : Swarm where
  member := Member.new
  up := fun _ => false
  now := 0
  flight := []

def setMember (a : Address) (m : Member) (s : Swarm) : Swarm :=
  { s with member := update s.member a m }

def call (a : Address) (f : Call → Call) (s : Swarm) : Swarm :=
  let done := f (s.member a).call
  { s.setMember a done.member with flight := s.flight ++ done.sent }

def step (s : Swarm) : Action → Option Swarm
  | .start a => some { s.call a (Call.nodeStart s.now) with up := update s.up a true }
  | .loop a => if s.up a then some (s.call a (Call.nodeLoop s.now)) else none
  | .receive p b =>
      if p ∈ s.flight ∧ p.toaddr.strcmpEq b then
        some { s.setMember b { s.member b with mp1q := (s.member b).mp1q ++ [p.msg] } with
          flight := s.flight.erase p }
      else none
  | .lose p => if p ∈ s.flight then some { s with flight := s.flight.erase p } else none
  | .fail a => some (s.setMember a { s.member a with bFailed := true })
  | .finish a =>
      some { s.setMember a (s.member a).finishUpThisNode with up := update s.up a false }
  | .tick => some { s with now := s.now + 1 }

def Steps (ok : Swarm → Action → Prop) : Swarm → Swarm → Prop :=
  ReflTransGen fun s s' => ∃ a, ok s a ∧ s.step a = some s'

def Anything : Swarm → Action → Prop := fun _ _ => True

/-- Each node is started at most once, and none is finished. -/
def StartedOnce : Swarm → Action → Prop
  | s, .start a => s.up a = false
  | _, .finish _ => False
  | _, _ => True

variable {s s' : Swarm} {a b : Address} {ok : Swarm → Action → Prop}

theorem step_loop (h : s.step (.loop a) = some s') :
    s.up a = true ∧ s' = s.call a (Call.nodeLoop s.now) := by
  obtain ⟨hup, h⟩ := Option.ite_none_right_eq_some.mp h
  exact ⟨hup, (Option.some.inj h).symm⟩

theorem step_receive {p : Send} (h : s.step (.receive p b) = some s') :
    (p ∈ s.flight ∧ p.toaddr.strcmpEq b) ∧
      s' = { s.setMember b { s.member b with mp1q := (s.member b).mp1q ++ [p.msg] } with
        flight := s.flight.erase p } := by
  obtain ⟨hp, h⟩ := Option.ite_none_right_eq_some.mp h
  exact ⟨hp, (Option.some.inj h).symm⟩

theorem step_lose {p : Send} (h : s.step (.lose p) = some s') :
    p ∈ s.flight ∧ s' = { s with flight := s.flight.erase p } := by
  obtain ⟨hp, h⟩ := Option.ite_none_right_eq_some.mp h
  exact ⟨hp, (Option.some.inj h).symm⟩

@[simp] theorem member_setMember_self {m : Member} : (s.setMember a m).member a = m := by
  simp [setMember]

theorem member_setMember_of_ne {m : Member} (h : b ≠ a) :
    (s.setMember a m).member b = s.member b := by
  simp [setMember, h]

@[simp] theorem member_call_self {f : Call → Call} :
    (s.call a f).member a = (f (s.member a).call).member := by
  simp [call]

theorem member_call_of_ne {f : Call → Call} (h : b ≠ a) :
    (s.call a f).member b = s.member b :=
  member_setMember_of_ne h

/-! ## The membership list -/

/-- Between two of its own actions the list of a node is what it was. -/
theorem memberListOk_nodeLoop {now : Int} {m : Member} (h : MemberListOk m) :
    MemberListOk (m.call.nodeLoop now).member := by
  by_cases hlive : m.bFailed = true
  · have hidle : m.call.nodeLoop now = m.call := if_pos hlive
    rw [hidle]
    exact h
  · obtain ⟨checked, hchecked, -, hcases⟩ := nodeLoop_spec now h (by simpa using hlive)
    rcases hcases with ⟨-, heq⟩ | ⟨-, hops⟩
    · rw [heq]
      exact hchecked.ok
    · exact hops.ok

/-- Every node that is up has a well-formed list. -/
def ListsOk (s : Swarm) : Prop := ∀ a, s.up a = true → MemberListOk (s.member a)

theorem listsOk_step {action : Action} (h : s.ListsOk) (hstep : s.step action = some s') :
    s'.ListsOk := by
  intro b hup
  cases action with
  | start a =>
      obtain rfl := Option.some.inj hstep
      by_cases hb : b = a
      · subst hb
        simpa using memberListOk_nodeStart (s.member b)
      · have hup' : s.up b = true := by simpa [hb] using hup
        simpa [member_call_of_ne hb] using h b hup'
  | loop a =>
      obtain ⟨hloop, rfl⟩ := step_loop hstep
      by_cases hb : b = a
      · subst hb
        simpa using memberListOk_nodeLoop (h b hloop)
      · simpa [member_call_of_ne hb] using h b hup
  | receive p c =>
      obtain ⟨hreceive, rfl⟩ := step_receive hstep
      by_cases hb : b = c
      · subst hb
        change MemberListOk ((s.setMember b _).member b)
        rw [member_setMember_self]
        exact memberListOk_congr (m := s.member b) rfl rfl (h b hup)
      · simpa [member_setMember_of_ne hb] using h b hup
  | lose p =>
      obtain ⟨hlose, rfl⟩ := step_lose hstep
      exact h b hup
  | fail a =>
      obtain rfl := Option.some.inj hstep
      by_cases hb : b = a
      · subst hb
        rw [member_setMember_self]
        exact memberListOk_congr (m := s.member b) rfl rfl (h b hup)
      · simpa [member_setMember_of_ne hb] using h b hup
  | finish a =>
      obtain rfl := Option.some.inj hstep
      by_cases hb : b = a
      · subst hb
        simp at hup
      · have hup' : s.up b = true := by simpa [hb] using hup
        simpa [member_setMember_of_ne hb] using h b hup'
  | tick =>
      obtain rfl := Option.some.inj hstep
      exact h b hup

theorem listsOk_steps (h : Steps ok initial s) : s.ListsOk := by
  induction h with
  | refl => exact fun a hup => absurd hup (by simp [initial])
  | tail _ hstep ih =>
      obtain ⟨action, -, hstep⟩ := hstep
      exact listsOk_step ih hstep

/-- Whatever a node is told and whenever it runs, its list starts with itself and names nobody
twice; so the removal loop, which starts behind the first entry, removes others only. -/
theorem memberListOk_of_steps (h : Steps ok initial s) (hup : s.up a = true) :
    MemberListOk (s.member a) ∧ (s.member a).memberList ≠ [] ∧
      ∀ (c : Call) (now : Int), MemberListOk c.member →
        (∀ msg, MemberListOk (c.recvCallBack now msg).member) ∧
        (∀ b heartbeat, MemberListOk (c.updateMembership now b heartbeat).member) ∧
        MemberListOk (c.nodeLoopOps now).member ∧
        ∀ line ∈ (c.nodeLoopOps now).log, line ∈ c.log ∨
          ∃ e ∈ c.member.memberList.tail, e.address ≠ c.member.addr ∧
            line = .nodeRemove c.member.addr e.address now := by
  have hok := listsOk_steps h a hup
  obtain ⟨me, others, hlist, -⟩ := hok.cons
  refine ⟨hok, by simp [hlist], fun c now hc => ⟨fun msg => (handled_recvCallBack now msg hc).ok,
    fun b heartbeat => (handled_updateMembership now ⟨.heartbeat, b, heartbeat⟩ hc rfl).ok,
    (nodeLoopOps_done hc).ok, fun line hline => ?_⟩⟩
  refine ((nodeLoopOps_done hc).log line hline).imp_right ?_
  rintro ⟨e, he, hne, -, hremove⟩
  obtain ⟨me, others, hlist, hme, -⟩ := hc.cons
  rw [hlist] at he ⊢
  have hne' : e ≠ me := fun heq => hne (heq ▸ hme)
  exact ⟨e, (List.mem_cons.mp he).resolve_left hne', hne, hremove⟩

/-! ## Heartbeats -/

def Counted (s : Swarm) (a : Address) (h : Int) : Prop :=
  s.up a = true ∧ h ≤ (s.member a).heartbeat

/-- Nobody knows more of a node than it has counted, and nothing comes from the future. -/
structure Truthful (s : Swarm) : Prop where
  addr : ∀ a, (s.member a).addr = a
  ok : s.ListsOk
  down : ∀ a, s.up a = false → (s.member a).memberList = []
  entry : ∀ a, ∀ e ∈ (s.member a).memberList, s.Counted e.address e.heartbeat ∧ e.timestamp ≤ s.now
  flight : ∀ p ∈ s.flight, s.Counted p.msg.addr p.msg.heartbeat
  queue : ∀ a, ∀ msg ∈ (s.member a).mp1q, s.Counted msg.addr msg.heartbeat

theorem Truthful.up_of_mem (h : s.Truthful) {e : MemberListEntry}
    (he : e ∈ (s.member a).memberList) : s.up a = true := by
  by_contra hdown
  rw [h.down a (by simpa using hdown)] at he
  cases he

theorem Truthful.le_of_same (h : s.Truthful) {e e' : MemberListEntry}
    (he : e ∈ (s.member a).memberList) (he' : e' ∈ (s.member a).memberList)
    (ha : e'.address = e.address) : e.heartbeat ≤ e'.heartbeat := by
  rw [(h.ok a (h.up_of_mem he)).eq_of_address he' he ha]

theorem truthful_initial : Truthful initial where
  addr := fun a => rfl
  ok := fun a hup => absurd hup (by simp [initial])
  down := fun a _ => rfl
  entry := by simp [initial, Member.new]
  flight := by simp [initial]
  queue := by simp [initial, Member.new]

/-- What a turn of a node that is up does. -/
structure Looped (now : Int) (m : Member) (c : Call) : Prop where
  addr : c.member.addr = m.addr
  heartbeat : m.heartbeat ≤ c.member.heartbeat
  mp1q : ∀ msg ∈ c.member.mp1q, msg ∈ m.mp1q
  entries : ∀ e ∈ c.member.memberList, e ∈ m.memberList ∨
    (e.timestamp = now ∧ ∃ msg ∈ m.mp1q, msg.addr = e.address ∧ msg.heartbeat = e.heartbeat)
  higher : ∀ e ∈ m.memberList, ∀ e' ∈ c.member.memberList, e'.address = e.address →
    e.heartbeat ≤ e'.heartbeat
  sends : ∀ p ∈ c.sent, (p.msg.addr = m.addr ∧ p.msg.heartbeat ≤ c.member.heartbeat) ∨
    ∃ msg ∈ m.mp1q, p.msg.addr = msg.addr ∧ p.msg.heartbeat = msg.heartbeat

theorem looped_nodeLoop {now : Int} {m : Member} (ok : MemberListOk m) :
    Looped now m (m.call.nodeLoop now) := by
  by_cases hlive : m.bFailed = true
  · have hidle : m.call.nodeLoop now = m.call := if_pos hlive
    rw [hidle]
    refine ⟨rfl, le_rfl, fun _ h => h, fun e he => Or.inl he, fun e he e' he' ha => ?_, fun p hp => ?_⟩
    · rw [ok.eq_of_address he' he ha]
    · cases hp
  obtain ⟨checked, hh, hq, hcases⟩ := nodeLoop_spec now ok (by simpa using hlive)
  have hsends : ∀ p ∈ checked.sent, (p.msg.addr = m.addr ∧ p.msg.heartbeat ≤ m.heartbeat) ∨
      ∃ msg ∈ m.mp1q, p.msg.addr = msg.addr ∧ p.msg.heartbeat = msg.heartbeat := by
    intro p hp
    rcases hh.sends p hp with hold | ⟨msg, -, -, rfl⟩ | ⟨msg, hmsg, heq, -⟩
    · cases hold
    · exact Or.inl ⟨rfl, le_rfl⟩
    · exact Or.inr ⟨msg, hmsg, by rw [heq], by rw [heq]⟩
  have hhigher : ∀ e ∈ m.memberList, ∀ e' ∈ checked.member.memberList, e'.address = e.address →
      e.heartbeat ≤ e'.heartbeat := by
    intro e he e' he' ha
    obtain ⟨e'', he'', ha', hle⟩ := hh.kept e he
    rwa [hh.ok.eq_of_address he' he'' (ha.trans ha'.symm)]
  rcases hcases with ⟨-, heq⟩ | ⟨-, hops⟩
  · rw [heq]
    exact ⟨hh.addr, hh.heartbeat.ge, by simp [hq], hh.entries, hhigher, fun p hp =>
      (hsends p hp).imp_left fun h => ⟨h.1, by rw [hh.heartbeat]; exact h.2⟩⟩
  · have hbeat : m.heartbeat ≤ (m.call.nodeLoop now).member.heartbeat := by
      rw [hops.heartbeat, hh.heartbeat]
      split
      · exact Int.le_add_one le_rfl
      · exact le_rfl
    refine ⟨hops.addr.trans hh.addr, hbeat, by simp [hops.mp1q, hq],
      fun e he => hh.entries e ((hops.entries e).mp he).1,
      fun e he e' he' => hhigher e he e' ((hops.entries e').mp he').1, fun p hp => ?_⟩
    rcases (hops.sends p).mp hp with hold | ⟨hping, e, -, rfl⟩
    · exact (hsends p hold).imp_left fun h => ⟨h.1, h.2.trans hbeat⟩
    · refine Or.inl ⟨hh.addr, ?_⟩
      rw [hops.heartbeat, if_pos hping]

/-- What an action of a run without restarts can do. -/
structure Stepped (s s' : Swarm) : Prop where
  up : ∀ a, s.up a = true → s'.up a = true
  heartbeat : ∀ a, s.up a = true → (s.member a).heartbeat ≤ (s'.member a).heartbeat
  now : s.now ≤ s'.now
  addr : ∀ a, (s'.member a).addr = a
  down : ∀ a, s'.up a = false → (s'.member a).memberList = []
  entries : ∀ a, ∀ e ∈ (s'.member a).memberList, e ∈ (s.member a).memberList ∨
    (e.timestamp = s'.now ∧ (s'.Counted e.address e.heartbeat ∨
      ∃ msg ∈ (s.member a).mp1q, msg.addr = e.address ∧ msg.heartbeat = e.heartbeat))
  higher : ∀ a, ∀ e ∈ (s.member a).memberList, ∀ e' ∈ (s'.member a).memberList,
    e'.address = e.address → e.heartbeat ≤ e'.heartbeat
  flight : ∀ p ∈ s'.flight, p ∈ s.flight ∨ s'.Counted p.msg.addr p.msg.heartbeat ∨
    ∃ a, ∃ msg ∈ (s.member a).mp1q, p.msg.addr = msg.addr ∧ p.msg.heartbeat = msg.heartbeat
  queue : ∀ a, ∀ msg ∈ (s'.member a).mp1q, msg ∈ (s.member a).mp1q ∨ ∃ p ∈ s.flight, p.msg = msg

theorem stepped_of_same (h : s.Truthful) (hup : s'.up = s.up) (hnow : s.now ≤ s'.now)
    (hmember : ∀ a, (s'.member a).addr = (s.member a).addr ∧
      (s'.member a).heartbeat = (s.member a).heartbeat ∧
      (s'.member a).memberList = (s.member a).memberList)
    (hflight : ∀ p ∈ s'.flight, p ∈ s.flight)
    (hqueue : ∀ a, ∀ msg ∈ (s'.member a).mp1q, msg ∈ (s.member a).mp1q ∨ ∃ p ∈ s.flight, p.msg = msg) :
    Stepped s s' where
  up := fun a ha => by rwa [hup]
  heartbeat := fun a _ => (hmember a).2.1.ge
  now := hnow
  addr := fun a => (hmember a).1.trans (h.addr a)
  down := fun a ha => (hmember a).2.2.trans (h.down a (by rwa [← hup]))
  entries := fun a e he => Or.inl (by rwa [← (hmember a).2.2])
  higher := by
    intro a e he e' he' ha
    rw [(hmember a).2.2] at he'
    exact h.le_of_same he he' ha
  flight := fun p hp => Or.inl (hflight p hp)
  queue := hqueue

theorem stepped_start (h : s.Truthful) (hdown : s.up a = false) :
    Stepped s { s.call a (Call.nodeStart s.now) with up := update s.up a true } := by
  obtain ⟨hmember, hsent, -⟩ := nodeStart_spec s.now (s.member a)
  have hself : ∀ {b}, b ≠ a → (s.call a (Call.nodeStart s.now)).member b = s.member b :=
    member_call_of_ne
  constructor
  case up =>
    intro b hb
    by_cases hba : b = a <;> simp [hba, hb]
  case heartbeat =>
    intro b hb
    have hba : b ≠ a := by
      rintro rfl
      simp [hdown] at hb
    simp only [hself hba]
    exact le_rfl
  case now => exact le_rfl
  case addr =>
    intro b
    by_cases hba : b = a
    · subst hba
      simp [hmember, h.addr]
    · simp only [hself hba]
      exact h.addr b
  case down =>
    intro b hb
    have hba : b ≠ a := by
      rintro rfl
      simp at hb
    simp only [hself hba]
    exact h.down b (by simpa [hba] using hb)
  case entries =>
    intro b e he
    by_cases hba : b = a
    · subst hba
      simp only [member_call_self, hmember, List.mem_singleton] at he
      subst he
      refine Or.inr ⟨rfl, Or.inl ?_⟩
      simp [Counted, MemberListEntry.address, h.addr, hmember]
    · simp only [hself hba] at he
      exact Or.inl he
  case higher =>
    intro b e he e' he' ha
    have hba : b ≠ a := by
      rintro rfl
      rw [h.up_of_mem he] at hdown
      cases hdown
    simp only [hself hba] at he'
    exact h.le_of_same he he' ha
  case flight =>
    intro p hp
    rcases List.mem_append.mp hp with hold | hnew
    · exact Or.inl hold
    · rw [hsent] at hnew
      split at hnew
      case isTrue => cases hnew
      case isFalse =>
        obtain rfl := List.mem_singleton.mp hnew
        refine Or.inr (Or.inl ?_)
        simp [Counted, h.addr, hmember]
  case queue =>
    intro b msg hmsg
    by_cases hba : b = a
    · subst hba
      simp only [member_call_self, hmember] at hmsg
      exact Or.inl hmsg
    · simp only [hself hba] at hmsg
      exact Or.inl hmsg

theorem stepped_loop (h : s.Truthful) (hup : s.up a = true) :
    Stepped s (s.call a (Call.nodeLoop s.now)) := by
  have hloop : Looped s.now (s.member a) ((s.member a).call.nodeLoop s.now) :=
    looped_nodeLoop (h.ok a hup)
  have hself : ∀ {b}, b ≠ a → (s.call a (Call.nodeLoop s.now)).member b = s.member b :=
    member_call_of_ne
  constructor
  case up => exact fun b hb => hb
  case heartbeat =>
    intro b hb
    by_cases hba : b = a
    · subst hba
      simpa using hloop.heartbeat
    · rw [hself hba]
  case now => exact le_rfl
  case addr =>
    intro b
    by_cases hba : b = a
    · subst hba
      simpa [h.addr] using hloop.addr
    · rw [hself hba]
      exact h.addr b
  case down =>
    intro b hb
    have hba : b ≠ a := by
      rintro rfl
      rw [show s.up b = false from hb] at hup
      cases hup
    rw [hself hba]
    exact h.down b hb
  case entries =>
    intro b e he
    by_cases hba : b = a
    · subst hba
      rw [member_call_self] at he
      exact (hloop.entries e he).imp_right fun hnew => ⟨hnew.1, Or.inr hnew.2⟩
    · rw [hself hba] at he
      exact Or.inl he
  case higher =>
    intro b e he e' he' ha
    by_cases hba : b = a
    · subst hba
      rw [member_call_self] at he'
      exact hloop.higher e he e' he' ha
    · rw [hself hba] at he'
      exact h.le_of_same he he' ha
  case flight =>
    intro p hp
    rcases List.mem_append.mp hp with hold | hnew
    · exact Or.inl hold
    · rcases hloop.sends p hnew with ⟨hown, hle⟩ | hpassed
      · refine Or.inr (Or.inl ?_)
        rw [hown, h.addr]
        exact ⟨hup, by rwa [member_call_self]⟩
      · exact Or.inr (Or.inr ⟨a, hpassed⟩)
  case queue =>
    intro b msg hmsg
    by_cases hba : b = a
    · subst hba
      rw [member_call_self] at hmsg
      exact Or.inl (hloop.mp1q msg hmsg)
    · rw [hself hba] at hmsg
      exact Or.inl hmsg

theorem stepped_step {action : Action} (h : s.Truthful) (hok : StartedOnce s action)
    (hstep : s.step action = some s') : Stepped s s' := by
  cases action with
  | start a =>
      obtain rfl := Option.some.inj hstep
      exact stepped_start h hok
  | loop a =>
      obtain ⟨hup, rfl⟩ := step_loop hstep
      exact stepped_loop h hup
  | receive p b =>
      obtain ⟨⟨hp, -⟩, rfl⟩ := step_receive hstep
      refine stepped_of_same h rfl le_rfl (fun a => ?_) (fun q hq => List.mem_of_mem_erase hq) ?_
      · by_cases hab : a = b
        · subst hab
          simp
        · simp [member_setMember_of_ne hab]
      · intro a msg hmsg
        by_cases hab : a = b
        · subst hab
          simp only [member_setMember_self, List.mem_append, List.mem_singleton] at hmsg
          exact hmsg.imp_right fun heq => ⟨p, hp, heq.symm⟩
        · simp only [member_setMember_of_ne hab] at hmsg
          exact Or.inl hmsg
  | lose p =>
      obtain ⟨-, rfl⟩ := step_lose hstep
      exact stepped_of_same h rfl le_rfl (fun a => ⟨rfl, rfl, rfl⟩)
        (fun q hq => List.mem_of_mem_erase hq) fun a msg hmsg => Or.inl hmsg
  | fail a =>
      obtain rfl := Option.some.inj hstep
      refine stepped_of_same h rfl le_rfl (fun b => ?_) (fun q hq => hq) fun b msg hmsg => ?_
      · by_cases hba : b = a
        · subst hba
          simp
        · simp [member_setMember_of_ne hba]
      · by_cases hba : b = a
        · subst hba
          rw [member_setMember_self] at hmsg
          exact Or.inl hmsg
        · rw [member_setMember_of_ne hba] at hmsg
          exact Or.inl hmsg
  | finish a => exact absurd hok id
  | tick =>
      obtain rfl := Option.some.inj hstep
      exact stepped_of_same h rfl (Int.le_add_one le_rfl) (fun a => ⟨rfl, rfl, rfl⟩)
        (fun q hq => hq) fun a msg hmsg => Or.inl hmsg

theorem Counted.stepped {h : Int} (hc : s.Counted a h) (hs : Stepped s s') : s'.Counted a h :=
  ⟨hs.up a hc.1, hc.2.trans (hs.heartbeat a hc.1)⟩

theorem Truthful.stepped (h : s.Truthful) (hok : s'.ListsOk) (hs : Stepped s s') : s'.Truthful where
  addr := hs.addr
  ok := hok
  down := hs.down
  entry := by
    intro a e he
    rcases hs.entries a e he with hold | ⟨hnow, hcounted | ⟨msg, hmsg, haddr, hbeat⟩⟩
    · exact ⟨(h.entry a e hold).1.stepped hs, (h.entry a e hold).2.trans hs.now⟩
    · exact ⟨hcounted, hnow.le⟩
    · have hcounted := h.queue a msg hmsg
      rw [haddr, hbeat] at hcounted
      exact ⟨hcounted.stepped hs, hnow.le⟩
  flight := by
    intro p hp
    rcases hs.flight p hp with hold | hcounted | ⟨a, msg, hmsg, haddr, hbeat⟩
    · exact (h.flight p hold).stepped hs
    · exact hcounted
    · rw [haddr, hbeat]
      exact (h.queue a msg hmsg).stepped hs
  queue := by
    intro a msg hmsg
    rcases hs.queue a msg hmsg with hold | ⟨p, hp, rfl⟩
    · exact (h.queue a msg hold).stepped hs
    · exact (h.flight p hp).stepped hs

theorem truthful_steps (h : s.Truthful) (hsteps : Steps StartedOnce s s') : s'.Truthful := by
  refine Lib.invariant_of_run ?_ hsteps h
  rintro v v' ⟨action, hok, hstep⟩ hv
  exact hv.stepped (listsOk_step hv.ok hstep) (stepped_step hv hok hstep)

def Lists (s : Swarm) (a j : Address) : Prop :=
  ∃ e ∈ (s.member a).memberList, e.address = j

/-- Runs in which the entry of `a` for `j` stays. -/
def Staying (a j : Address) : Swarm → Swarm → Prop :=
  ReflTransGen fun s s' => (∃ action, StartedOnce s action ∧ s.step action = some s') ∧ s'.Lists a j

/-- What an entry says while it stays. -/
def Newer (e e' : MemberListEntry) : Prop :=
  e.heartbeat ≤ e'.heartbeat ∧ e.timestamp ≤ e'.timestamp

theorem newer_of_stepped {e e' : MemberListEntry} (h : s.Truthful) (hs : Stepped s s')
    (he : e ∈ (s.member a).memberList) (he' : e' ∈ (s'.member a).memberList)
    (ha : e'.address = e.address) : Newer e e' := by
  refine ⟨hs.higher a e he e' he' ha, ?_⟩
  rcases hs.entries a e' he' with hold | ⟨hnow, -⟩
  · rw [(h.ok a (h.up_of_mem he)).eq_of_address hold he ha]
  · rw [hnow]
    exact (h.entry a e he).2.trans hs.now

theorem newer_of_staying {j : Address} (h : s.Truthful) (hs : Staying a j s s')
    {e : MemberListEntry} (he : e ∈ (s.member a).memberList) (ha : e.address = j) :
    s'.Truthful ∧ ∀ e' ∈ (s'.member a).memberList, e'.address = j → Newer e e' := by
  induction hs with
  | refl =>
      refine ⟨h, fun e' he' ha' => ?_⟩
      rw [(h.ok a (h.up_of_mem he)).eq_of_address he' he (ha'.trans ha.symm)]
      exact ⟨le_rfl, le_rfl⟩
  | @tail v v' hrun hstep ih =>
      obtain ⟨⟨action, hok, hact⟩, -⟩ := hstep
      obtain ⟨htruthful, hnewer⟩ := ih
      have hstepped := stepped_step htruthful hok hact
      refine ⟨htruthful.stepped (listsOk_step htruthful.ok hact) hstepped, fun e' he' ha' => ?_⟩
      -- the entry was there before the last action, too
      obtain ⟨mid, hmid, hmida⟩ : v.Lists a j := by
        cases hrun with
        | refl => exact ⟨e, he, ha⟩
        | tail _ hlast => exact hlast.2
      have hfirst := hnewer mid hmid hmida
      have hlast := newer_of_stepped htruthful hstepped hmid he' (ha'.trans hmida.symm)
      exact ⟨hfirst.1.trans hlast.1, hfirst.2.trans hlast.2⟩

/-- Whoever is named in a list or a message has been started and has counted at least that far, and
an entry that stays in a list grows newer, up to the present. -/
theorem heartbeats_truthful (h : Steps StartedOnce initial s) :
    (∀ a, ∀ e ∈ (s.member a).memberList, s.Counted e.address e.heartbeat) ∧
    (∀ p ∈ s.flight, s.Counted p.msg.addr p.msg.heartbeat) ∧
    (∀ a, ∀ msg ∈ (s.member a).mp1q, s.Counted msg.addr msg.heartbeat) ∧
    ∀ a, ∀ e ∈ (s.member a).memberList, e.timestamp ≤ s.now ∧
      ∀ s', Staying a e.address s s' → ∀ e' ∈ (s'.member a).memberList, e'.address = e.address →
        e.heartbeat ≤ e'.heartbeat ∧ e.timestamp ≤ e'.timestamp ∧ e'.timestamp ≤ s'.now := by
  have htruthful := truthful_steps truthful_initial h
  refine ⟨fun a e he => (htruthful.entry a e he).1, htruthful.flight, htruthful.queue,
    fun a e he => ⟨(htruthful.entry a e he).2, fun s' hs e' he' ha => ?_⟩⟩
  obtain ⟨htruthful', hnewer⟩ := newer_of_staying htruthful hs he rfl
  obtain ⟨hbeat, htime⟩ := hnewer e' he' ha
  exact ⟨hbeat, htime, (htruthful'.entry a e' he').2⟩

/-! ## A run of two nodes -/

instance : ∀ s action, Decidable (Anything s action) :=
  fun _ _ => inferInstanceAs (Decidable True)

instance : ∀ s action, Decidable (StartedOnce s action)
  | s, .start a => inferInstanceAs (Decidable (s.up a = false))
  | _, .finish _ => inferInstanceAs (Decidable False)
  | _, .loop _ | _, .receive _ _ | _, .lose _ | _, .fail _ | _, .tick =>
      inferInstanceAs (Decidable True)

/-- Node `2` joins; its request and the answer are received. -/
def sampleActions : List Action :=
  let request : Send := ⟨⟨1, 0⟩, ⟨.joinReq, ⟨2, 0⟩, 0⟩⟩
  let answer : Send := ⟨⟨2, 0⟩, ⟨.joinRep, ⟨1, 0⟩, 0⟩⟩
  [.start ⟨2, 0⟩, .start ⟨1, 0⟩, .tick, .receive request ⟨1, 0⟩, .loop ⟨2, 0⟩, .loop ⟨1, 0⟩, .tick,
    .receive answer ⟨2, 0⟩, .loop ⟨2, 0⟩]

def sample : Swarm := (Lib.follow step StartedOnce sampleActions initial).get (by decide +kernel)

theorem sample_steps : Steps StartedOnce initial sample :=
  Lib.run_of_follow (Option.some_get _).symm

theorem memberListOk_of_steps_sample : MemberListOk (sample.member ⟨2, 0⟩) :=
  (memberListOk_of_steps sample_steps (by decide +kernel)).1

theorem heartbeats_truthful_sample :
    (sample.member ⟨1, 0⟩).memberList.map MemberListEntry.address = [⟨1, 0⟩, ⟨2, 0⟩] ∧
      ∀ e ∈ (sample.member ⟨1, 0⟩).memberList, sample.Counted e.address e.heartbeat :=
  ⟨by decide +kernel, (heartbeats_truthful sample_steps).1 ⟨1, 0⟩⟩

end Swarm

end CloudComputing.MembershipProtocol
