import CloudComputing.MembershipProtocol.Application
import CloudComputing.MembershipProtocol.NodeTick

/-!
# One tick of the whole group

The two loops of `mp1Run` as one relation.  Every running node gets exactly the
messages that were in flight to it, every node then takes its turn on its own
state, and what is in flight afterwards is what the turns sent and what was
addressed to nodes that do not run.  The order in which the loops visit the
nodes and the order of the messages in a queue are gone.
-/

namespace CloudComputing.MembershipProtocol

open Function

def nodeAddr (i : Nat) : Address := ⟨Int32.ofNat (i + 1), 0⟩

theorem joinAddr_eq : Call.joinAddr = nodeAddr 0 := rfl

section Addresses

variable {n i j : Nat}

theorem strcmpEq_nodeAddr (hn : n < 256) (hi : i < n) (hj : j < n) :
    (nodeAddr i).strcmpEq (nodeAddr j) = true ↔ i = j := by
  unfold nodeAddr
  rw [Address.strcmpEq_iff (by omega) (by omega) (by omega) (by omega)]
  omega

theorem nodeAddr_inj (hn : n < 256) (hi : i < n) (hj : j < n) :
    nodeAddr i = nodeAddr j ↔ i = j := by
  constructor
  · intro h
    rw [← strcmpEq_nodeAddr hn hi hj, h]
    simp [Address.strcmpEq]
  · rintro rfl
    rfl

end Addresses

namespace Cluster

/-- A message in the buffer, by its receiver and content. -/
def InFlight (c : Cluster) (a : Address) (x : Msg) : Prop :=
  ∃ p ∈ c.en.buff, p.dst = a ∧ p.data = x

/-- The addresses in a group of `n`: nodes have their own, messages go to nodes. -/
structure Addressed (n : Nat) (c : Cluster) : Prop where
  node : ∀ i < n, (c.mp1 i).addr = nodeAddr i
  dst : ∀ a x, c.InFlight a x → ∃ k < n, a = nodeAddr k

/-! ## The first loop -/

def received (t i : Nat) (q : List Msg) (m : Member) : Member :=
  if running t i m then { m with mp1q := m.mp1q ++ q } else m

@[simp] theorem running_received {t i : Nat} {q : List Msg} {m : Member} :
    running t i (received t i q m) = running t i m := by
  unfold received
  split <;> rfl

@[simp] theorem received_addr {t i : Nat} {q : List Msg} {m : Member} :
    (received t i q m).addr = m.addr := by
  unfold received
  split <;> rfl

/-- What the first loop did to the nodes in `l`. -/
structure Fetched (t : Nat) (l : List Nat) (c c' : Cluster) (inbox : Nat → List Msg) : Prop where
  queue : ∀ i ∈ l, running t i (c.mp1 i) = true →
    ∀ x, x ∈ inbox i ↔ c.InFlight (nodeAddr i) x
  node : ∀ i ∈ l, c'.mp1 i = received t i (inbox i) (c.mp1 i)
  others : ∀ i, i ∉ l → c'.mp1 i = c.mp1 i
  inFlight : ∀ a x, c'.InFlight a x ↔
    c.InFlight a x ∧ ∀ i ∈ l, running t i (c.mp1 i) = true → a ≠ nodeAddr i
  refused : c'.refused = c.refused
  log : c'.log = c.log

section Fetch

variable {n t i : Nat} {c : Cluster}

theorem addressedTo_iff (hn : n < 256) (ha : c.Addressed n) (hi : i < n) {p : EnMsg Msg}
    (hp : p ∈ c.en.buff) :
    EmulNet.addressedTo (c.mp1 i).addr p = true ↔ p.dst = nodeAddr i := by
  obtain ⟨k, hk, hdst⟩ := ha.dst _ _ ⟨p, hp, rfl, rfl⟩
  rw [EmulNet.addressedTo, hdst, ha.node i hi, strcmpEq_nodeAddr hn hk hi,
    nodeAddr_inj hn hk hi]

theorem fetched_recvIfRunning (hn : n < 256) (ha : c.Addressed n) (hi : i < n) :
    ∃ inbox, Fetched t [i] c (c.recvIfRunning t i) inbox := by
  unfold recvIfRunning
  split
  case isTrue hrun =>
    let found := c.en.enRecv t (c.mp1 i).addr
    have hbuff : ∀ p, p ∈ found.1.buff ↔ p ∈ c.en.buff ∧ p.dst ≠ nodeAddr i := by
      intro p
      rw [(EmulNet.enRecv_buff t _ c.en).mem_iff, List.mem_filter, Bool.not_eq_true']
      refine and_congr_right fun hp => ?_
      rw [← Bool.not_eq_true, addressedTo_iff hn ha hi hp]
    refine ⟨fun _ => found.2.map EnMsg.data, ?_⟩
    constructor
    case queue =>
      intro j hj _ x
      rw [List.mem_singleton.mp hj, List.mem_map]
      constructor
      · rintro ⟨p, hp, rfl⟩
        rw [(EmulNet.enRecv_delivered t _ c.en).mem_iff, List.mem_filter] at hp
        exact ⟨p, hp.1, (addressedTo_iff hn ha hi hp.1).mp hp.2, rfl⟩
      · rintro ⟨p, hp, hdst, rfl⟩
        refine ⟨p, ?_, rfl⟩
        rw [(EmulNet.enRecv_delivered t _ c.en).mem_iff, List.mem_filter]
        exact ⟨hp, (addressedTo_iff hn ha hi hp).mpr hdst⟩
    case node =>
      intro j hj
      rw [List.mem_singleton.mp hj]
      simp [recvLoop, received, hrun, found]
    case others =>
      intro j hj
      exact update_of_ne (by simpa using hj) _ _
    case inFlight =>
      intro a x
      simp only [List.mem_singleton, forall_eq, hrun, true_imp_iff]
      constructor
      · rintro ⟨p, hp, rfl, rfl⟩
        obtain ⟨hp, hne⟩ := (hbuff p).mp hp
        exact ⟨⟨p, hp, rfl, rfl⟩, hne⟩
      · rintro ⟨⟨p, hp, rfl, rfl⟩, hne⟩
        exact ⟨p, (hbuff p).mpr ⟨hp, hne⟩, rfl, rfl⟩
    case refused => rfl
    case log => rfl
  case isFalse hrun =>
    refine ⟨fun _ => [], ?_⟩
    constructor <;> simp [hrun, received]

theorem fetched_foldl (hn : n < 256) {l : List Nat} (hl : l.Nodup) (hlt : ∀ i ∈ l, i < n)
    (ha : c.Addressed n) :
    ∃ inbox, Fetched t l c (l.foldl (recvIfRunning t) c) inbox := by
  induction l generalizing c with
  | nil => exact ⟨fun _ => [], by constructor <;> simp⟩
  | cons i l ih =>
      obtain ⟨hil, hl⟩ := List.nodup_cons.mp hl
      obtain ⟨hi, hlt⟩ := List.forall_mem_cons.mp hlt
      obtain ⟨q, hq⟩ := fetched_recvIfRunning (t := t) hn ha hi
      have hsame : ∀ j ∈ l, (c.recvIfRunning t i).mp1 j = c.mp1 j := by
        intro j hj
        refine hq.others j ?_
        rintro hji
        rw [List.mem_singleton] at hji
        exact hil (hji ▸ hj)
      have ha' : (c.recvIfRunning t i).Addressed n := by
        constructor
        · intro j hj
          by_cases hji : j = i
          · rw [hji, hq.node i (by simp), received_addr]
            exact ha.node i hi
          · rw [hq.others j (by simpa using hji)]
            exact ha.node j hj
        · intro a x hx
          exact ha.dst a x ((hq.inFlight a x).mp hx).1
      obtain ⟨inbox, hrest⟩ := ih hl hlt ha'
      refine ⟨fun j => if j = i then q i else inbox j, ?_⟩
      constructor
      case queue =>
        intro j hj hrun x
        rcases List.mem_cons.mp hj with rfl | hj
        · rw [if_pos rfl]
          exact hq.queue j (by simp) hrun x
        · have hji : j ≠ i := fun h => hil (h ▸ hj)
          rw [if_neg hji, hrest.queue j hj (by rwa [hsame j hj]), hq.inFlight]
          simp only [List.mem_singleton, forall_eq, and_iff_left_iff_imp]
          intro _ _ h
          exact hji ((nodeAddr_inj hn (hlt j hj) hi).mp h)
      case node =>
        intro j hj
        simp only [List.foldl_cons]
        rcases List.mem_cons.mp hj with rfl | hj
        · rw [if_pos rfl, hrest.others j hil, hq.node j (by simp)]
        · have hji : j ≠ i := fun h => hil (h ▸ hj)
          rw [if_neg hji, hrest.node j hj, hsame j hj]
      case others =>
        intro j hj
        rw [List.mem_cons, not_or] at hj
        simp only [List.foldl_cons]
        rw [hrest.others j hj.2, hq.others j (by simpa using hj.1)]
      case inFlight =>
        intro a x
        simp only [List.foldl_cons, hrest.inFlight, hq.inFlight, List.forall_mem_cons,
          List.not_mem_nil, false_imp_iff, implies_true, and_true, and_assoc]
        refine and_congr_right fun _ => and_congr_right fun _ => ?_
        refine forall_congr' fun j => forall_congr' fun hj => ?_
        rw [hsame j hj]
      case refused => exact hrest.refused.trans hq.refused
      case log => exact hrest.log.trans hq.log

end Fetch

/-! ## The second loop -/

/-- The turn of node `i` in tick `t`, on the state the first loop left it in. -/
def turn (t i : Nat) (m : Member) : Call :=
  if t = startTime i then m.call.nodeStart t
  else if running t i m then m.call.nodeLoop t
  else m.call

/-- What giving the messages `ss` to `ENsend` did to the network. -/
structure Sent (ss : Send → Prop) (c c' : Cluster) : Prop where
  inFlight : ∀ a x, c'.InFlight a x → c.InFlight a x ∨ ss ⟨a, x⟩
  kept : ∀ a x, c.InFlight a x → c'.InFlight a x
  delivered : c'.refused = c.refused → ∀ a x, ss ⟨a, x⟩ → c'.InFlight a x
  refused : c.refused ≤ c'.refused

section Sending

variable {env : Environment} {t i : Nat} {a : Address} {c c₁ c₂ : Cluster}
  {ss₁ ss₂ : Send → Prop}

theorem Sent.refl (c : Cluster) : Sent (fun _ => False) c c := by
  constructor <;> simp

theorem Sent.trans (h₁ : Sent ss₁ c c₁) (h₂ : Sent ss₂ c₁ c₂) :
    Sent (fun s => ss₁ s ∨ ss₂ s) c c₂ where
  inFlight := by
    intro a x hx
    rcases h₂.inFlight a x hx with hx | hx
    · exact (h₁.inFlight a x hx).imp_right Or.inl
    · exact Or.inr (Or.inr hx)
  kept := fun a x hx => h₂.kept a x (h₁.kept a x hx)
  delivered := by
    intro href a x hx
    have h₁' := h₁.refused
    have h₂' := h₂.refused
    rcases hx with hx | hx
    · exact h₂.kept a x (h₁.delivered (by omega) a x hx)
    · exact h₂.delivered (by omega) a x hx
  refused := h₁.refused.trans h₂.refused

theorem sent_enSend (env : Environment) (t : Nat) (a : Address) (s : Send) : Sent (· = s) c (c.enSend env t a s) := by
  cases href : c.en.refuses (env.lost c.draws) msgSize with
  | true =>
      have hen : (c.enSend env t a s).en = c.en := EmulNet.enSend_refused href
      have hmore : (c.enSend env t a s).refused = c.refused + 1 := by
        simp [enSend, EmulNet.enSend, href]
      constructor
      case inFlight =>
        rintro b x ⟨p, hp, h⟩
        exact Or.inl ⟨p, hen ▸ hp, h⟩
      case kept =>
        rintro b x ⟨p, hp, h⟩
        exact ⟨p, hen.symm ▸ hp, h⟩
      case delivered => omega
      case refused => omega
  | false =>
      have hen : (c.enSend env t a s).en.buff =
          c.en.buff ++ [⟨msgSize, a, s.toaddr, s.msg⟩] := EmulNet.enSend_accepted href
      have hsame : (c.enSend env t a s).refused = c.refused := by
        simp only [enSend, EmulNet.enSend, href, Bool.false_eq_true, if_false]
        rfl
      constructor
      case inFlight =>
        rintro b x ⟨p, hp, rfl, rfl⟩
        rw [hen] at hp
        rcases List.mem_append.mp hp with hp | hp
        · exact Or.inl ⟨p, hp, rfl, rfl⟩
        · rw [List.mem_singleton.mp hp]
          exact Or.inr rfl
      case kept =>
        rintro b x ⟨p, hp, h⟩
        exact ⟨p, hen.symm ▸ List.mem_append_left _ hp, h⟩
      case delivered =>
        rintro - b x rfl
        exact ⟨_, hen.symm ▸ List.mem_append_right _ (List.mem_singleton.mpr rfl), rfl, rfl⟩
      case refused => omega

theorem sent_foldl (env : Environment) (t : Nat) (a : Address) (ss : List Send) :
    Sent (· ∈ ss) c (ss.foldl (enSend env t a) c) ∧
      (ss.foldl (enSend env t a) c).mp1 = c.mp1 ∧ (ss.foldl (enSend env t a) c).log = c.log := by
  induction ss generalizing c with
  | nil => exact ⟨by simpa using Sent.refl c, rfl, rfl⟩
  | cons s ss ih =>
      obtain ⟨hss, hnodes, hlog⟩ := ih (c := c.enSend env t a s)
      refine ⟨?_, hnodes, hlog⟩
      have := (sent_enSend env t a s).trans hss
      simpa only [List.mem_cons, List.foldl_cons] using this

/-- A handler's call stores its state and log and sends what it sends. -/
theorem call_spec (env : Environment) (t i : Nat) (c : Cluster) (f : Call → Call) :
    Sent (· ∈ (f (c.mp1 i).call).sent) c (c.call env t i f) ∧
      (c.call env t i f).mp1 = update c.mp1 i (f (c.mp1 i).call).member ∧
      (c.call env t i f).log = c.log ++ (f (c.mp1 i).call).log := by
  obtain ⟨hsent, hnodes, hlog⟩ := sent_foldl env t (c.mp1 i).addr
    (f (c.mp1 i).call).sent (c := { c with
      mp1 := update c.mp1 i (f (c.mp1 i).call).member
      log := c.log ++ (f (c.mp1 i).call).log })
  exact ⟨⟨hsent.inFlight, hsent.kept, hsent.delivered, hsent.refused⟩, hnodes, hlog⟩

theorem runNode_spec (env : Environment) (t i : Nat) (c : Cluster) :
    Sent (· ∈ (turn t i (c.mp1 i)).sent) c (c.runNode env t i) ∧
      (c.runNode env t i).mp1 = update c.mp1 i (turn t i (c.mp1 i)).member ∧
      (c.runNode env t i).log = c.log ++ (turn t i (c.mp1 i)).log := by
  unfold runNode turn
  split
  case isTrue =>
    obtain ⟨hsent, hnodes, hlog⟩ := call_spec env t i c (Call.nodeStart t)
    exact ⟨⟨hsent.inFlight, hsent.kept, hsent.delivered, hsent.refused⟩, hnodes, hlog⟩
  case isFalse =>
    split
    case isTrue => exact call_spec env t i c (Call.nodeLoop t)
    case isFalse =>
      refine ⟨by simpa [Member.call] using Sent.refl c, ?_, by simp [Member.call]⟩
      exact (update_eq_self i c.mp1).symm

/-- The second loop over any nodes without repetition: each takes its turn. -/
theorem runNode_foldl (env : Environment) (t : Nat) {l : List Nat} (hl : l.Nodup) :
    Sent (fun s => ∃ i ∈ l, s ∈ (turn t i (c.mp1 i)).sent) c (l.foldl (runNode env t) c) ∧
      (∀ i ∈ l, (l.foldl (runNode env t) c).mp1 i = (turn t i (c.mp1 i)).member) ∧
      (∀ i, i ∉ l → (l.foldl (runNode env t) c).mp1 i = c.mp1 i) ∧
      (∀ line, line ∈ (l.foldl (runNode env t) c).log ↔
        line ∈ c.log ∨ ∃ i ∈ l, line ∈ (turn t i (c.mp1 i)).log) := by
  induction l generalizing c with
  | nil => exact ⟨by simpa using Sent.refl c, by simp, by simp, by simp⟩
  | cons i l ih =>
      obtain ⟨hil, hl⟩ := List.nodup_cons.mp hl
      obtain ⟨hsent, hnodes, hlog⟩ := runNode_spec env t i c
      obtain ⟨hsents, hturns, hothers, hlogs⟩ := ih (c := c.runNode env t i) hl
      have hsame : ∀ j ∈ l, (c.runNode env t i).mp1 j = c.mp1 j := by
        intro j hj
        have hji : j ≠ i := fun h => hil (h ▸ hj)
        rw [hnodes, update_of_ne hji]
      refine ⟨?_, ?_, ?_, ?_⟩
      · have := hsent.trans hsents
        simp only [List.foldl_cons, List.exists_mem_cons_iff]
        convert this using 2 with s
        refine or_congr Iff.rfl (exists_congr fun j => and_congr_right fun hj => ?_)
        rw [hsame j hj]
      · intro j hj
        simp only [List.foldl_cons]
        rcases List.mem_cons.mp hj with rfl | hj
        · rw [hothers j hil, hnodes, update_self]
        · rw [hturns j hj, hsame j hj]
      · intro j hj
        rw [List.mem_cons, not_or] at hj
        simp only [List.foldl_cons]
        rw [hothers j hj.2, hnodes, update_of_ne hj.1]
      · intro line
        simp only [List.foldl_cons, hlogs, hlog, List.mem_append, List.exists_mem_cons_iff,
          or_assoc]
        refine or_congr Iff.rfl (or_congr Iff.rfl ?_)
        refine exists_congr fun j => and_congr_right fun hj => ?_
        rw [hsame j hj]

end Sending

/-! ## The tick -/

/-- What node `i` did in tick `t`, with these messages fetched. -/
def done (c : Cluster) (t : Nat) (inbox : Nat → List Msg) (i : Nat) : Call :=
  turn t i (received t i (inbox i) (c.mp1 i))

/-- Tick `t`, and the failures after it, took the group of `n` from `c` to `c'`. -/
structure Tick (env : Environment) (n t : Nat) (c c' : Cluster) (inbox : Nat → List Msg) :
    Prop where
  queue : ∀ i < n, running t i (c.mp1 i) = true →
    ∀ x, x ∈ inbox i ↔ c.InFlight (nodeAddr i) x
  node : ∀ i < n, c'.mp1 i = { (c.done t inbox i).member with
    bFailed := (c.done t inbox i).member.bFailed || env.fails t i }
  inFlight : ∀ a x, c'.InFlight a x →
    (c.InFlight a x ∧ ∀ i < n, running t i (c.mp1 i) = true → a ≠ nodeAddr i) ∨
      ∃ i < n, ⟨a, x⟩ ∈ (c.done t inbox i).sent
  delivered : c'.refused = c.refused → ∀ i < n, ∀ a x,
    ⟨a, x⟩ ∈ (c.done t inbox i).sent → c'.InFlight a x
  refused : c.refused ≤ c'.refused
  log : ∀ line, line ∈ c'.log ↔ line ∈ c.log ∨ ∃ i < n, line ∈ (c.done t inbox i).log

theorem tick_of_fetched {env : Environment} {n t : Nat} {inbox : Nat → List Msg}
    (hf : Fetched t (List.range n) (run env n t)
      ((List.range n).foldl (recvIfRunning t) (run env n t)) inbox) :
    Tick env n t (run env n t) (run env n (t + 1)) inbox := by
  obtain ⟨hsent, hturn, -, hlog⟩ := runNode_foldl env t
    (List.nodup_reverse.mpr List.nodup_range)
    (c := (List.range n).foldl (recvIfRunning t) (run env n t))
  have hdone : ∀ i < n,
      turn t i (((List.range n).foldl (recvIfRunning t) (run env n t)).mp1 i) =
        (run env n t).done t inbox i := by
    intro i hi
    rw [hf.node i (List.mem_range.mpr hi), done]
  constructor
  case queue => exact fun i hi => hf.queue i (List.mem_range.mpr hi)
  case node =>
    intro i hi
    have hnode : ((run env n t).mp1Run env n t).mp1 i =
        ((run env n t).done t inbox i).member := by
      rw [mp1Run, hturn i (by simpa using hi), hdone i hi]
    simp only [run, fail, hnode]
    cases env.fails t i <;> simp
  case inFlight =>
    intro a x hx
    rcases hsent.inFlight a x hx with hx | ⟨i, hi, hs⟩
    · obtain ⟨hx, hne⟩ := (hf.inFlight a x).mp hx
      exact Or.inl ⟨hx, fun i hi => hne i (List.mem_range.mpr hi)⟩
    · have hi' : i < n := by simpa using hi
      exact Or.inr ⟨i, hi', hdone i hi' ▸ hs⟩
  case delivered =>
    intro href i hi a x hs
    refine hsent.delivered (href.trans hf.refused.symm) a x ⟨i, by simpa using hi, ?_⟩
    rwa [hdone i hi]
  case refused => exact hf.refused ▸ hsent.refused
  case log =>
    intro line
    refine (hlog line).trans ?_
    rw [hf.log]
    refine or_congr Iff.rfl (exists_congr fun i => ?_)
    rw [List.mem_reverse, List.mem_range]
    refine and_congr_right fun hi => ?_
    rw [hdone i hi]

theorem tick_run {env : Environment} {n t : Nat} (hn : n < 256)
    (ha : (run env n t).Addressed n) :
    ∃ inbox, Tick env n t (run env n t) (run env n (t + 1)) inbox := by
  obtain ⟨inbox, hf⟩ := fetched_foldl (t := t) hn List.nodup_range
    (fun i hi => List.mem_range.mp hi) ha
  exact ⟨inbox, tick_of_fetched hf⟩

end Cluster

end CloudComputing.MembershipProtocol
