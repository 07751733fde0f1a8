import CloudComputing.MembershipProtocol.Accuracy
import CloudComputing.MembershipProtocol.Stale

/-!
# Every ping is everywhere two ticks later

Once everyone is in the group and knows everyone, and as long as nothing is
refused, a ping reaches all live nodes in the tick after it was sent.  They pass
it on, which is no news to anyone, so that a tick later nothing is in flight
about the node that pinged, and all live nodes have the same entry for it.  They
keep it until the next ping, or drop it all in the same tick.
-/

namespace CloudComputing.MembershipProtocol

namespace Cluster

variable {env : Environment} {n t i j k s : Nat} {c c' : Cluster} {inbox : Nat → List Msg}

/-- All nodes have started, and the live ones are in the group and know each other. -/
structure Together (n t : Nat) (c : Cluster) : Prop where
  started : ∀ i < n, startTime i < t
  inGroup : ∀ i < n, running t i (c.mp1 i) = true → (c.mp1 i).inGroup = true
  has : ∀ i < n, ∀ j < n, running t i (c.mp1 i) = true → running t j (c.mp1 j) = true → c.Has i j
  noRequest : ∀ i < n, running t i (c.mp1 i) = true → ∀ x, c.InFlight (nodeAddr i) x →
    x.msgType ≠ .joinReq

/-- What `update_membership` stores for a heartbeat. -/
def entryAt (a : Address) (heartbeat timestamp : Int) : MemberListEntry :=
  ⟨a.id, a.port, heartbeat, timestamp⟩

/-- Before tick `t`, node `j` pinged last in tick `s`. -/
structure Fresh (n t : Nat) (c : Cluster) (j s : Nat) : Prop where
  lt : s < t
  counter : running t j (c.mp1 j) = true → (c.mp1 j).pingCounter + t = s + 1 + tFail
  /-- the ping is on its way to everyone, and news to everyone -/
  flying : t = s + 1 → ∀ i < n, running t i (c.mp1 i) = true →
    c.InFlight (nodeAddr i) ⟨.heartbeat, nodeAddr j, (c.mp1 j).heartbeat⟩ ∧
      ∃ e ∈ (c.mp1 i).memberList, e.address = nodeAddr j ∧ e.heartbeat < (c.mp1 j).heartbeat
  heard : s + 1 < t → ∀ i < n, running t i (c.mp1 i) = true → ∀ e, e.address = nodeAddr j →
    (e ∈ (c.mp1 i).memberList ↔
      e = entryAt (nodeAddr j) (c.mp1 j).heartbeat (s + 1) ∧ t ≤ s + 22)
  silent : s + 2 < t → ∀ i < n, running t i (c.mp1 i) = true → ∀ x,
    c.InFlight (nodeAddr i) x → x.addr ≠ nodeAddr j

section OneTick

variable (hn : n < 256) (inv : RunInv n t c) (tick : Tick env n t c c' inbox)
  (hok : c'.refused = c.refused) (acc : Accurate n t c) (started : ∀ i < n, startTime i < t)
  (together : Together n t c)

include inv in
theorem done_nodeLoop (hi : i < n) (hrun : running t i (c.mp1 i) = true) :
    c.done t inbox i = ({ c.mp1 i with mp1q := inbox i } : Member).call.nodeLoop t := by
  have hstart : t ≠ startTime i := by
    have := (running_iff.mp hrun).1
    omega
  unfold done turn
  rw [running_received, if_neg hstart, if_pos hrun, received, if_pos hrun, inv.mp1q i hi,
    List.nil_append]

include inv tick

include started in
theorem turn_of_live (hi : i < n) (hlive : running (t + 1) i (c'.mp1 i) = true) :
    running t i (c.mp1 i) = true ∧ Turn t (inbox i) (c.mp1 i) (c.done t inbox i) := by
  rcases live_cases inv tick hi hlive with ⟨hst, -⟩ | h
  · have := started i hi
    omega
  · exact h

omit tick in
include started in
theorem turn_of_running (inbox : Nat → List Msg) (hi : i < n) (hrun : running t i (c.mp1 i) = true) :
    Turn t (inbox i) (c.mp1 i) (c.done t inbox i) := by
  rcases done_cases inv inbox hi with ⟨hst, -⟩ | ⟨-, hturn⟩ | ⟨-, hnot, -⟩
  · have := started i hi
    omega
  · exact hturn
  · rw [hrun] at hnot
    cases hnot

include started in
/-- What is in flight to a live node was sent in this tick by a running node. -/
theorem sent_of_inFlight (hi : i < n) (hlive : running (t + 1) i (c'.mp1 i) = true) {x : Msg}
    (hx : c'.InFlight (nodeAddr i) x) : ∃ k < n, running t k (c.mp1 k) = true ∧
      ⟨nodeAddr i, x⟩ ∈ (c.done t inbox k).sent := by
  obtain ⟨hrun, -⟩ := turn_of_live inv tick started hi hlive
  rcases tick.inFlight _ _ hx with ⟨-, hne⟩ | ⟨k, hk, hs⟩
  · exact absurd rfl (hne i hi hrun)
  · refine ⟨k, hk, ?_, hs⟩
    rcases done_cases inv inbox hk with ⟨hst, -⟩ | ⟨hrunk, -⟩ | ⟨-, -, hd⟩
    · have := started k hk
      omega
    · exact hrunk
    · rw [hd] at hs
      cases hs

omit inv tick in
theorem not_joinReq {q : List Msg} {m : Member} {d : Call} (hturn : Turn t q m d) {a : Address}
    {x : Msg} (hs : ⟨a, x⟩ ∈ d.sent) : x.msgType ≠ .joinReq := by
  intro hreq
  rcases hturn.sends _ hs with ⟨y, -, -, hsend⟩ | ⟨-, ⟨y, -, hmsg, -⟩ | ⟨-, -, hmsg⟩⟩
  · rw [show x = _ from (Send.mk.inj hsend).2] at hreq
    cases hreq
  · rw [show x = _ from hmsg] at hreq
    cases hreq
  · rw [show x = _ from hmsg] at hreq
    cases hreq

include started in
theorem no_request (hi : i < n) (hlive : running (t + 1) i (c'.mp1 i) = true) {x : Msg}
    (hx : c'.InFlight (nodeAddr i) x) : x.msgType ≠ .joinReq := by
  obtain ⟨k, hk, hrun, hs⟩ := sent_of_inFlight inv tick started hi hlive hx
  exact not_joinReq (turn_of_running inv started inbox hk hrun) hs

include together in
theorem quietTurn_done (hk : k < n) (hrun : running t k (c.mp1 k) = true) {a : Address}
    (hold : ∀ x, c.InFlight (nodeAddr k) x → x.addr = a →
      ∃ e ∈ (c.mp1 k).memberList, e.address = a ∧ x.heartbeat ≤ e.heartbeat) :
    QuietTurn t a (inbox k) (c.mp1 k) (c.done t inbox k) := by
  obtain ⟨hstarted, hlive⟩ := running_iff.mp hrun
  have ok := inv.ok k hk hstarted
  have hquiet := quietTurn_nodeLoop t (a := a)
    (m := { c.mp1 k with mp1q := inbox k }) ⟨ok.head, ok.nodup⟩ hlive
    (together.inGroup k hk hrun) (by
      intro x hx ha
      exact hold x ((tick.queue k hk hrun x).mp hx) ha)
  rw [done_nodeLoop inv hk hrun]
  exact ⟨hquiet.entries, hquiet.silent, hquiet.removed⟩

include acc together in
theorem has_tick (hi : i < n) (hj : j < n) (hruni : running t i (c.mp1 i) = true)
    (hrunj : running t j (c.mp1 j) = true) : c'.Has i j := by
  have hturn := turn_of_running inv together.started inbox hi hruni
  by_cases hij : i = j
  · subst hij
    obtain ⟨me, others, hlist, hme, -⟩ := hturn.ok.cons
    rw [Has, tick.memberList hi, hlist]
    exact ⟨me, List.mem_cons_self, hme.trans (hturn.addr.trans (inv.addr i hi))⟩
  · exact has_of_has inv tick acc hi hj hij hruni hrunj hturn (together.has i hi j hj hruni hrunj)

include acc together in
theorem together_tick : Together n (t + 1) c' := by
  constructor
  case started =>
    intro i hi
    have := together.started i hi
    omega
  case inGroup =>
    intro i hi hlive
    obtain ⟨hrun, hturn⟩ := turn_of_live inv tick together.started hi hlive
    rw [tick.inGroup hi]
    exact hturn.inGroup.mpr (Or.inl (together.inGroup i hi hrun))
  case has =>
    intro i hi j hj hlivei hlivej
    exact has_tick inv tick acc together hi hj (turn_of_live inv tick together.started hi hlivei).1
      (turn_of_live inv tick together.started hj hlivej).1
  case noRequest =>
    intro i hi hlive x hx
    exact no_request inv tick together.started hi hlive hx

omit tick in
include hn in
theorem heartbeat_of_msg (hj : j < n) {x : Msg} {b : Address} (hx : c.InFlight b x)
    (ha : x.addr = nodeAddr j) : x.heartbeat ≤ (c.mp1 j).heartbeat := by
  obtain ⟨k, hk, -, hka, -, hle⟩ := inv.msg _ _ hx
  rw [ha, nodeAddr_inj hn hj hk] at hka
  exact hka ▸ hle

omit tick in
include hn in
theorem heartbeat_of_entry (hi : i < n) (hj : j < n) {e : MemberListEntry}
    (he : e ∈ (c.mp1 i).memberList) (ha : e.address = nodeAddr j) :
    e.heartbeat ≤ (c.mp1 j).heartbeat := by
  obtain ⟨⟨k, hk, -, hka, -, hle⟩, -⟩ := inv.entry i hi e he
  rw [ha, nodeAddr_inj hn hj hk] at hka
  exact hka ▸ hle

/-! ## The tick of a ping -/

section Ping

variable (hj : j < n) (hrunj : running t j (c.mp1 j) = true) (hp : (c.mp1 j).pingCounter = 0)

include hn hok acc together hj hrunj hp

theorem fresh_ping : Fresh n (t + 1) c' j t := by
  have hturnj := turn_of_running inv together.started inbox hj hrunj
  have hin : (c.done t inbox j).member.inGroup = true :=
    hturnj.inGroup.mpr (Or.inl (together.inGroup j hj hrunj))
  have hbeat : (c'.mp1 j).heartbeat = (c.mp1 j).heartbeat + 1 := by
    rw [tick.heartbeat hj, hturnj.heartbeat, if_pos ⟨hin, hp⟩]
  constructor
  case lt => exact Nat.lt_succ_self t
  case counter =>
    intro _
    rw [tick.pingCounter hj, hturnj.pingCounter, if_pos hin, if_pos hp]
    push_cast
    omega
  case flying =>
    intro _ i hi hlive
    obtain ⟨hruni, hturni⟩ := turn_of_live inv tick together.started hi hlive
    rw [hbeat]
    constructor
    · rw [← inv.addr j hj]
      exact tick.delivered hok j hj _ _
        (hturnj.pinged hin hp _ (Or.inl (together.has j hj i hi hrunj hruni)))
    · obtain ⟨e, he, ha⟩ := has_tick inv tick acc together hi hj hruni hrunj
      refine ⟨e, he, ha, ?_⟩
      -- it was known before, or heard of in this tick
      rw [tick.memberList hi] at he
      have hle : e.heartbeat ≤ (c.mp1 j).heartbeat := by
        rcases hturni.entries e he with he | ⟨-, x, hx, hxa, hxh⟩
        · exact heartbeat_of_entry hn inv hi hj he ha
        · rw [← hxh]
          exact heartbeat_of_msg hn inv hj ((tick.queue i hi hruni x).mp hx) (hxa.trans ha)
      omega
  case heard => omega
  case silent => omega

end Ping

/-! ## The ticks between two pings -/

section Between

variable (hj : j < n) (hno : ¬(running t j (c.mp1 j) = true ∧ (c.mp1 j).pingCounter = 0))
  (fresh : Fresh n t c j s)

include together hj hno in
theorem heartbeat_between : (c'.mp1 j).heartbeat = (c.mp1 j).heartbeat := by
  rw [tick.heartbeat hj]
  rcases done_cases inv inbox hj with ⟨hst, -⟩ | ⟨hrun, hturn⟩ | ⟨-, -, hd⟩
  · have := together.started j hj
    omega
  · rw [hturn.heartbeat, if_neg]
    rintro ⟨-, hp⟩
    exact hno ⟨hrun, hp⟩
  · rw [hd]
    rfl

omit tick in
include hn hj fresh in
/-- Once the ping has been heard there is no more to say about `j`. -/
theorem oldNews_of_fresh (hst : s + 1 < t) (hi : i < n) (hrun : running t i (c.mp1 i) = true)
    {x : Msg} (hx : c.InFlight (nodeAddr i) x) (ha : x.addr = nodeAddr j) :
    ∃ e ∈ (c.mp1 i).memberList, e.address = nodeAddr j ∧ x.heartbeat ≤ e.heartbeat := by
  by_cases hlate : s + 2 < t
  · exact absurd ha (fresh.silent hlate i hi hrun x hx)
  · refine ⟨entryAt (nodeAddr j) (c.mp1 j).heartbeat (s + 1), ?_, rfl,
      heartbeat_of_msg hn inv hj hx ha⟩
    exact (fresh.heard hst i hi hrun _ rfl).mpr ⟨rfl, by omega⟩

include hn together hj hno fresh

theorem heard_between (hlt : s + 1 < t + 1) (hi : i < n)
    (hlive : running (t + 1) i (c'.mp1 i) = true) {e : MemberListEntry}
    (ha : e.address = nodeAddr j) :
    e ∈ (c'.mp1 i).memberList ↔
      e = entryAt (nodeAddr j) (c'.mp1 j).heartbeat (s + 1) ∧ t + 1 ≤ s + 22 := by
  obtain ⟨hrun, hturn⟩ := turn_of_live inv tick together.started hi hlive
  rw [heartbeat_between inv tick together hj hno, tick.memberList hi]
  by_cases hst : s + 1 < t
  · have hquiet := quietTurn_done inv tick together hi hrun (a := nodeAddr j)
      fun x => oldNews_of_fresh hn inv hj fresh hst hi hrun
    rw [hquiet.entries e ha, fresh.heard hst i hi hrun e ha, inv.addr i hi,
      nodeAddr_inj hn hj hi]
    -- node `j` itself keeps its entry, but pings again long before
    have hself : j = i → t < s + 22 := by
      rintro rfl
      have hcounter := fresh.counter hrun
      have hlow := (inv.pingCounter j hj (running_iff.mp hrun).1).1
      simp only [tFail] at hcounter
      omega
    constructor
    · rintro ⟨⟨rfl, hle⟩, hkept⟩
      refine ⟨rfl, ?_⟩
      rcases hkept with hji | hyoung
      · have := hself hji
        omega
      · have hage : (t : Int) - (s + 1) ≤ 20 := by
          simpa [timedOut, tRemove, entryAt] using hyoung
        omega
    · rintro ⟨rfl, hle⟩
      refine ⟨⟨rfl, by omega⟩, Or.inr ?_⟩
      have hage : (t : Int) - (s + 1) ≤ 20 := by omega
      simpa [timedOut, tRemove, entryAt] using hage
  · -- the ping arrives
    have hts : t = s + 1 := by
      have := fresh.lt
      omega
    obtain ⟨hflying, e₀, he₀, ha₀, hlow⟩ := fresh.flying hts i hi hrun
    obtain ⟨e', he', ha', hbeat⟩ : ∃ e' ∈ (c.done t inbox i).member.memberList,
        e'.address = nodeAddr j ∧ (c.mp1 j).heartbeat ≤ e'.heartbeat := by
      rcases hturn.heard _ ((tick.queue i hi hrun _).mpr hflying) with ⟨e₁, he₁, ha₁, hle⟩ | h
      · obtain rfl := (inv.ok i hi (running_iff.mp hrun).1).eq_of_address he₁ he₀
          (ha₁.trans ha₀.symm)
        exact absurd hlow (not_lt.mpr hle)
      · exact h
    have hnew : e' = entryAt (nodeAddr j) (c.mp1 j).heartbeat (s + 1) := by
      rcases hturn.entries e' he' with hold | ⟨htime, x, hx, hxa, hxh⟩
      · obtain rfl := (inv.ok i hi (running_iff.mp hrun).1).eq_of_address hold he₀
          (ha'.trans ha₀.symm)
        exact absurd hlow (not_lt.mpr hbeat)
      · have hle := heartbeat_of_msg hn inv hj ((tick.queue i hi hrun x).mp hx)
          (hxa.trans ha')
        have hheartbeat : e'.heartbeat = (c.mp1 j).heartbeat := by omega
        have htimestamp : e'.timestamp = s + 1 := by
          rw [htime, hts]
          push_cast
          rfl
        rw [← hheartbeat, ← htimestamp, ← ha']
        rfl
    constructor
    · intro he
      rw [hturn.ok.eq_of_address he he' (ha.trans ha'.symm)]
      exact ⟨hnew, by omega⟩
    · rintro ⟨rfl, -⟩
      exact hnew ▸ he'

theorem silent_between (hlt : s + 2 < t + 1) (hi : i < n)
    (hlive : running (t + 1) i (c'.mp1 i) = true) {x : Msg}
    (hx : c'.InFlight (nodeAddr i) x) : x.addr ≠ nodeAddr j := by
  intro ha
  obtain ⟨k, hk, hrun, hs⟩ := sent_of_inFlight inv tick together.started hi hlive hx
  have hquiet := quietTurn_done inv tick together hk hrun (a := nodeAddr j)
    fun y => oldNews_of_fresh hn inv hj fresh (by omega) hk hrun
  rcases hquiet.silent _ hs ha with ⟨y, hy, hreq⟩ | ⟨hkj, hp⟩
  · exact together.noRequest k hk hrun y ((tick.queue k hk hrun y).mp hy) hreq
  · rw [inv.addr k hk, nodeAddr_inj hn hj hk] at hkj
    subst hkj
    exact hno ⟨hrun, hp⟩

theorem fresh_between : Fresh n (t + 1) c' j s := by
  have hbeat := heartbeat_between inv tick together hj hno
  constructor
  case lt =>
    have := fresh.lt
    omega
  case counter =>
    intro hlive
    obtain ⟨hrun, hturn⟩ := turn_of_live inv tick together.started hj hlive
    have hin : (c.done t inbox j).member.inGroup = true :=
      hturn.inGroup.mpr (Or.inl (together.inGroup j hj hrun))
    have hcounter := fresh.counter hrun
    rw [tick.pingCounter hj, hturn.pingCounter, if_pos hin, if_neg fun hp => hno ⟨hrun, hp⟩]
    push_cast
    omega
  case flying =>
    have := fresh.lt
    omega
  case heard =>
    intro hlt i hi hlive e ha
    exact heard_between hn inv tick together hj hno fresh hlt hi hlive ha
  case silent =>
    intro hlt i hi hlive x hx
    exact silent_between hn inv tick together hj hno fresh hlt hi hlive hx

end Between

include hn hok acc together in
/-- In a tick node `j` pings or it does not. -/
theorem fresh_tick (hj : j < n) (fresh : Fresh n t c j s) :
    (Fresh n (t + 1) c' j t ∧ running t j (c.mp1 j) = true) ∨ Fresh n (t + 1) c' j s := by
  by_cases hping : running t j (c.mp1 j) = true ∧ (c.mp1 j).pingCounter = 0
  · exact Or.inl ⟨fresh_ping hn inv tick hok acc together hj hping.1 hping.2, hping.1⟩
  · exact Or.inr (fresh_between hn inv tick together hj hping fresh)

end OneTick

end Cluster

end CloudComputing.MembershipProtocol
