import CloudComputing.MembershipProtocol.Tick

/-!
# What holds before every tick

The invariant of the group under any loss and any failures: nodes have their
addresses and well-formed lists, and every address and heartbeat in a list or in
flight belongs to a started node that has counted at least that far.
-/

namespace CloudComputing.MembershipProtocol

namespace Cluster

/-- Before tick `t`, `a` is the address of a started node that has counted to `h`. -/
def Known (n t : Nat) (c : Cluster) (a : Address) (h : Int) : Prop :=
  ∃ j < n, startTime j < t ∧ a = nodeAddr j ∧ 0 ≤ h ∧ h ≤ (c.mp1 j).heartbeat

/-- Node `i` has an entry for node `j`. -/
def Has (c : Cluster) (i j : Nat) : Prop :=
  ∃ e ∈ (c.mp1 i).memberList, e.address = nodeAddr j

/-- The invariant before tick `t` of a group of `n`. -/
structure RunInv (n t : Nat) (c : Cluster) : Prop where
  addr : ∀ i < n, (c.mp1 i).addr = nodeAddr i
  mp1q : ∀ i < n, (c.mp1 i).mp1q = []
  unstarted : ∀ i < n, t ≤ startTime i → (c.mp1 i).memberList = []
  ok : ∀ i < n, startTime i < t → MemberListOk (c.mp1 i)
  pingCounter : ∀ i < n, startTime i < t →
    0 ≤ (c.mp1 i).pingCounter ∧ (c.mp1 i).pingCounter ≤ tFail
  heartbeat : ∀ i < n, 0 ≤ (c.mp1 i).heartbeat
  introducer : 0 < n → 0 < t → (c.mp1 0).inGroup = true
  dst : ∀ a x, c.InFlight a x → ∃ h, Known n t c a h
  msg : ∀ a x, c.InFlight a x → Known n t c x.addr x.heartbeat
  entry : ∀ i < n, ∀ e ∈ (c.mp1 i).memberList,
    Known n t c e.address e.heartbeat ∧ e.timestamp < t

section Init

theorem initNode_range (k : Nat) (c : Cluster) (hid : c.en.nextid = 1) :
    let c' := (List.range k).foldl initNode c
    c'.en.nextid = Int32.ofNat (k + 1) ∧ c'.en.buff = c.en.buff ∧ c'.refused = c.refused ∧
      c'.log = c.log ∧ ∀ i < k, c'.mp1 i = Member.new (nodeAddr i) := by
  induction k with
  | zero => simp [hid]
  | succ k ih =>
      obtain ⟨hnext, hbuff, href, hlog, hnode⟩ := ih
      simp only [List.range_succ, List.foldl_append, List.foldl_cons, List.foldl_nil]
      refine ⟨?_, hbuff, href, hlog, ?_⟩
      · simp only [initNode, EmulNet.enInit, hnext]
        exact (Int32.ofNat_add (k + 1) 1).symm
      · intro i hi
        by_cases hik : i = k
        · subst hik
          simp [initNode, EmulNet.enInit, hnext, nodeAddr]
        · simp only [initNode, EmulNet.enInit, Function.update_of_ne hik]
          exact hnode i (by omega)

theorem init_node {n i : Nat} (hi : i < n) : (init n).mp1 i = Member.new (nodeAddr i) :=
  (initNode_range n _ rfl).2.2.2.2 i hi

theorem init_inFlight (n : Nat) (a : Address) (x : Msg) : ¬(init n).InFlight a x := by
  rintro ⟨p, hp, -⟩
  have hbuff : (init n).en.buff = [] := (initNode_range n _ rfl).2.1
  simp [hbuff] at hp

theorem init_log (n : Nat) : (init n).log = [] := (initNode_range n _ rfl).2.2.2.1

theorem runInv_init (n : Nat) : RunInv n 0 (init n) := by
  constructor
  case addr => exact fun i hi => by rw [init_node hi]; rfl
  case mp1q => exact fun i hi => by rw [init_node hi]; rfl
  case unstarted => exact fun i hi _ => by rw [init_node hi]; rfl
  case ok => exact fun i _ h => absurd h (Nat.not_lt_zero _)
  case pingCounter => exact fun i _ h => absurd h (Nat.not_lt_zero _)
  case heartbeat => exact fun i hi => by rw [init_node hi]; exact le_rfl
  case introducer => exact fun _ h => absurd h (lt_irrefl 0)
  case dst => exact fun a x h => absurd h (init_inFlight n a x)
  case msg => exact fun a x h => absurd h (init_inFlight n a x)
  case entry =>
    intro i hi e he
    rw [init_node hi] at he
    cases he

end Init

variable {env : Environment} {n t i j : Nat} {c c' : Cluster} {inbox : Nat → List Msg}

theorem RunInv.addressed (inv : RunInv n t c) : c.Addressed n := by
  refine ⟨inv.addr, fun a x hx => ?_⟩
  obtain ⟨h, k, hk, -, ha, -⟩ := inv.dst a x hx
  exact ⟨k, hk, ha⟩

theorem running_iff {m : Member} :
    running t i m = true ↔ startTime i < t ∧ m.bFailed = false := by
  simp [running]

theorem Tick.memberList (tick : Tick env n t c c' inbox) (hi : i < n) :
    (c'.mp1 i).memberList = (c.done t inbox i).member.memberList := by
  rw [tick.node i hi]

theorem Tick.inGroup (tick : Tick env n t c c' inbox) (hi : i < n) :
    (c'.mp1 i).inGroup = (c.done t inbox i).member.inGroup := by
  rw [tick.node i hi]

theorem Tick.pingCounter (tick : Tick env n t c c' inbox) (hi : i < n) :
    (c'.mp1 i).pingCounter = (c.done t inbox i).member.pingCounter := by
  rw [tick.node i hi]

theorem Tick.heartbeat (tick : Tick env n t c c' inbox) (hi : i < n) :
    (c'.mp1 i).heartbeat = (c.done t inbox i).member.heartbeat := by
  rw [tick.node i hi]

/-! ## One tick -/

section OneTick

variable (inv : RunInv n t c) (tick : Tick env n t c c' inbox)

include inv

theorem RunInv.started_of_mem (hi : i < n) {e : MemberListEntry}
    (he : e ∈ (c.mp1 i).memberList) : startTime i < t := by
  by_contra h
  rw [inv.unstarted i hi (by omega)] at he
  cases he

theorem RunInv.known_self (hi : i < n) (hs : startTime i < t) :
    Known n t c (nodeAddr i) 0 :=
  ⟨i, hi, hs, rfl, le_rfl, inv.heartbeat i hi⟩

/-- A node starts, or takes a turn, or stays as it is. -/
theorem done_cases (inbox : Nat → List Msg) (hi : i < n) :
    (t = startTime i ∧ c.done t inbox i = (c.mp1 i).call.nodeStart t) ∨
    (running t i (c.mp1 i) = true ∧ Turn t (inbox i) (c.mp1 i) (c.done t inbox i)) ∨
    (t ≠ startTime i ∧ running t i (c.mp1 i) = false ∧ c.done t inbox i = (c.mp1 i).call) := by
  unfold done turn
  rw [running_received]
  split
  case isTrue hs =>
    have hrun : running t i (c.mp1 i) = false := by simp [running, hs]
    exact Or.inl ⟨hs, by simp [received, hrun]⟩
  case isFalse hs =>
    split
    case isTrue hrun =>
      have hrun' := running_iff.mp hrun
      have hturn := turn_nodeLoop t
        (m := { c.mp1 i with mp1q := inbox i }) ⟨(inv.ok i hi hrun'.1).head,
          (inv.ok i hi hrun'.1).nodup⟩ hrun'.2
      refine Or.inr (Or.inl ⟨hrun, ?_⟩)
      simp only [received, hrun, if_true, inv.mp1q i hi, List.nil_append]
      exact { hturn with }
    case isFalse hrun =>
      exact Or.inr (Or.inr ⟨hs, by simpa using hrun, by simp [received, hrun]⟩)

include tick

theorem heartbeat_le (hi : i < n) (hs : startTime i < t) :
    (c.mp1 i).heartbeat ≤ (c'.mp1 i).heartbeat := by
  rw [tick.node i hi]
  rcases done_cases inv inbox hi with ⟨hst, -⟩ | ⟨-, h⟩ | ⟨-, -, h⟩
  · omega
  · simp only [h.heartbeat]
    split <;> omega
  · rw [h]
    exact le_rfl

theorem heartbeat_nonneg (hi : i < n) : 0 ≤ (c'.mp1 i).heartbeat := by
  have hbeat := inv.heartbeat i hi
  rw [tick.node i hi]
  rcases done_cases inv inbox hi with ⟨-, h⟩ | ⟨-, h⟩ | ⟨-, -, h⟩
  · rw [h, (nodeStart_spec _ _).1]
  · simp only [h.heartbeat]
    split <;> omega
  · rw [h]
    exact hbeat

theorem Known.mono {a : Address} {h : Int} (hk : Known n t c a h) :
    Known n (t + 1) c' a h := by
  obtain ⟨j, hj, hs, ha, h0, hle⟩ := hk
  exact ⟨j, hj, by omega, ha, h0, hle.trans (heartbeat_le inv tick hj hs)⟩

/-- Whom a node sends to, and what about, is known before the tick, or is the node itself. -/
theorem known_of_sent (hi : i < n) {a : Address} {x : Msg}
    (hs : ⟨a, x⟩ ∈ (c.done t inbox i).sent) :
    (∃ h, Known n (t + 1) c' a h) ∧ Known n (t + 1) c' x.addr x.heartbeat := by
  have hnode := tick.node i hi
  rcases done_cases inv inbox hi with ⟨hst, hdone⟩ | ⟨hrun, hturn⟩ | ⟨-, -, hdone⟩
  · obtain ⟨hmember, hsent, -⟩ := nodeStart_spec t (c.mp1 i)
    rw [hdone] at hs hnode
    rw [hmember] at hnode
    rw [hsent, inv.addr i hi] at hs
    split at hs
    · cases hs
    · obtain ⟨rfl, rfl⟩ := Send.mk.inj (List.mem_singleton.mp hs)
      have h0 : startTime 0 < t + 1 := by simp [startTime]
      refine ⟨⟨0, 0, by omega, h0, rfl, le_rfl, heartbeat_nonneg inv tick (by omega)⟩,
        i, hi, by omega, rfl, le_rfl, ?_⟩
      rw [hnode]
  · have hqueue := tick.queue i hi hrun
    have hrun' := running_iff.mp hrun
    have hmsg : ∀ x ∈ inbox i, Known n t c x.addr x.heartbeat :=
      fun x hx => inv.msg _ _ ((hqueue x).mp hx)
    have hto : ∀ a, ((∃ e ∈ (c.mp1 i).memberList, e.address = a) ∨ ∃ x ∈ inbox i, x.addr = a) →
        ∃ h, Known n (t + 1) c' a h := by
      rintro a (⟨e, he, rfl⟩ | ⟨x, hx, rfl⟩)
      · exact ⟨_, (inv.entry i hi e he).1.mono inv tick⟩
      · exact ⟨_, (hmsg x hx).mono inv tick⟩
    have hself : ∀ h, 0 ≤ h → h ≤ (c'.mp1 i).heartbeat →
        Known n (t + 1) c' (c.mp1 i).addr h :=
      fun h h0 hle => ⟨i, hi, by omega, inv.addr i hi, h0, hle⟩
    have hbeat := inv.heartbeat i hi
    rcases hturn.sends _ hs with ⟨y, hy, -, hsend⟩ | ⟨hknown, hcase⟩
    · obtain ⟨rfl, rfl⟩ := Send.mk.inj hsend
      exact ⟨⟨_, (hmsg y hy).mono inv tick⟩, hself _ hbeat (heartbeat_le inv tick hi hrun'.1)⟩
    · refine ⟨hto a hknown, ?_⟩
      rcases hcase with ⟨y, hy, rfl, -⟩ | ⟨hin, hp, rfl⟩
      · exact (hmsg y hy).mono inv tick
      · refine hself _ (Int.add_nonneg hbeat Int.one_nonneg) ?_
        rw [hnode]
        simp [hturn.heartbeat, hin, hp]
  · rw [hdone] at hs
    cases hs

theorem runInv_tick : RunInv n (t + 1) c' := by
  have hcases := fun {i} (hi : i < n) => done_cases inv inbox hi
  constructor
  case addr =>
    intro i hi
    rw [tick.node i hi]
    rcases hcases hi with ⟨-, h⟩ | ⟨-, h⟩ | ⟨-, -, h⟩
    · rw [h, (nodeStart_spec _ _).1]
      exact inv.addr i hi
    · exact h.addr.trans (inv.addr i hi)
    · rw [h]
      exact inv.addr i hi
  case mp1q =>
    intro i hi
    rw [tick.node i hi]
    rcases hcases hi with ⟨-, h⟩ | ⟨-, h⟩ | ⟨-, -, h⟩
    · rw [h, (nodeStart_spec _ _).1]
      exact inv.mp1q i hi
    · exact h.mp1q
    · rw [h]
      exact inv.mp1q i hi
  case unstarted =>
    intro i hi hlate
    rw [tick.node i hi]
    rcases hcases hi with ⟨hst, -⟩ | ⟨hrun, -⟩ | ⟨-, -, h⟩
    · omega
    · have := (running_iff.mp hrun).1
      omega
    · rw [h]
      exact inv.unstarted i hi (by omega)
  case ok =>
    intro i hi hs
    suffices hok : MemberListOk (c.done t inbox i).member by
      rw [tick.node i hi]
      exact ⟨hok.head, hok.nodup⟩
    rcases hcases hi with ⟨-, h⟩ | ⟨-, h⟩ | ⟨hne, -, h⟩
    · rw [h]
      exact memberListOk_nodeStart _
    · exact h.ok
    · rw [h]
      exact inv.ok i hi (by omega)
  case pingCounter =>
    intro i hi hs
    rw [tick.node i hi]
    rcases hcases hi with ⟨-, h⟩ | ⟨hrun, h⟩ | ⟨hne, -, h⟩
    · rw [h, (nodeStart_spec _ _).1]
      have htFail : 0 ≤ tFail := by decide
      exact ⟨htFail, le_rfl⟩
    · have := inv.pingCounter i hi (running_iff.mp hrun).1
      simp only [h.pingCounter, tFail] at this ⊢
      split <;> [skip; omega]
      split <;> omega
    · rw [h]
      exact inv.pingCounter i hi (by omega)
  case heartbeat => exact fun i hi => heartbeat_nonneg inv tick hi
  case introducer =>
    intro hn _
    rw [tick.node 0 hn]
    rcases hcases hn with ⟨-, h⟩ | ⟨hrun, h⟩ | ⟨hne, -, h⟩
    · rw [h, (nodeStart_spec _ _).1, inv.addr 0 hn]
      rfl
    · exact h.inGroup.mpr (Or.inl (inv.introducer hn (by have := running_iff.mp hrun; omega)))
    · rw [h]
      have hst : t ≠ 0 := hne
      exact inv.introducer hn (by omega)
  case dst =>
    intro a x hx
    rcases tick.inFlight a x hx with ⟨hx, -⟩ | ⟨i, hi, hs⟩
    · obtain ⟨h, hk⟩ := inv.dst a x hx
      exact ⟨h, hk.mono inv tick⟩
    · exact (known_of_sent inv tick hi hs).1
  case msg =>
    intro a x hx
    rcases tick.inFlight a x hx with ⟨hx, -⟩ | ⟨i, hi, hs⟩
    · exact (inv.msg a x hx).mono inv tick
    · exact (known_of_sent inv tick hi hs).2
  case entry =>
    intro i hi e he
    have hnode := tick.node i hi
    rw [hnode] at he
    rcases hcases hi with ⟨hst, h⟩ | ⟨hrun, h⟩ | ⟨-, -, h⟩
    · rw [h, (nodeStart_spec _ _).1, List.mem_singleton] at he
      subst he
      refine ⟨⟨i, hi, by omega, inv.addr i hi, le_rfl, heartbeat_nonneg inv tick hi⟩, ?_⟩
      push_cast
      omega
    · rcases h.entries e he with he | ⟨hts, x, hx, ha, hh⟩
      · obtain ⟨hk, hts⟩ := inv.entry i hi e he
        exact ⟨hk.mono inv tick, by push_cast; omega⟩
      · have hk := inv.msg _ _ ((tick.queue i hi hrun x).mp hx)
        rw [ha, hh] at hk
        exact ⟨hk.mono inv tick, by push_cast; omega⟩
    · rw [h] at he
      obtain ⟨hk, hts⟩ := inv.entry i hi e he
      exact ⟨hk.mono inv tick, by push_cast; omega⟩

theorem live_cases (hi : i < n) (hlive : running (t + 1) i (c'.mp1 i) = true) :
    (t = startTime i ∧ c.done t inbox i = (c.mp1 i).call.nodeStart t) ∨
    (running t i (c.mp1 i) = true ∧ Turn t (inbox i) (c.mp1 i) (c.done t inbox i)) := by
  rcases done_cases inv inbox hi with h | h | ⟨hne, hrun, h⟩
  · exact Or.inl h
  · exact Or.inr h
  · have hlive' := running_iff.mp hlive
    rw [tick.node i hi, h] at hlive'
    have hfail : (c.mp1 i).bFailed = false := (Bool.or_eq_false_iff.mp hlive'.2).1
    rw [running_iff.mpr ⟨by omega, hfail⟩] at hrun
    cases hrun

theorem turn_sent (hi : i < n) (hrun : running t i (c.mp1 i) = true) {d : Call}
    (hturn : Turn t (inbox i) (c.mp1 i) d) {a : Address} {x : Msg} (hs : ⟨a, x⟩ ∈ d.sent) :
    (∃ h, Known n t c a h) ∧ ∃ h, Known n t c x.addr h := by
  have hmsg : ∀ x ∈ inbox i, Known n t c x.addr x.heartbeat :=
    fun x hx => inv.msg _ _ ((tick.queue i hi hrun x).mp hx)
  have hself : ∃ h, Known n t c (c.mp1 i).addr h :=
    ⟨0, inv.addr i hi ▸ inv.known_self hi (running_iff.mp hrun).1⟩
  rcases hturn.sends _ hs with ⟨y, hy, -, hsend⟩ | ⟨hknown, hcase⟩
  · obtain ⟨rfl, rfl⟩ := Send.mk.inj hsend
    exact ⟨⟨_, hmsg y hy⟩, hself⟩
  · constructor
    · rcases hknown with ⟨e, he, rfl⟩ | ⟨y, hy, rfl⟩
      · exact ⟨_, (inv.entry i hi e he).1⟩
      · exact ⟨_, hmsg y hy⟩
    · rcases hcase with ⟨y, hy, rfl, -⟩ | ⟨-, -, rfl⟩
      · exact ⟨_, hmsg y hy⟩
      · exact hself

end OneTick

/-! ## Every run -/

theorem runInv_run (hn : n < 256) (env : Environment) (t : Nat) :
    RunInv n t (run env n t) := by
  induction t with
  | zero => exact runInv_init n
  | succ t ih =>
      obtain ⟨inbox, tick⟩ := tick_run hn ih.addressed
      exact runInv_tick ih tick

theorem exists_tick (hn : n < 256) (env : Environment) (t : Nat) :
    ∃ inbox, Tick env n t (run env n t) (run env n (t + 1)) inbox :=
  tick_run hn (runInv_run hn env t).addressed

end Cluster

end CloudComputing.MembershipProtocol
