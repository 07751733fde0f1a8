import Mathlib.Data.Finset.Card
import Mathlib.Tactic.Ring
import CloudComputing.MembershipProtocol.RunInvariant

/-!
# A failed node is forgotten, whatever is lost

After node `j` failed, only heartbeats it sent before still circulate, and a
message about it may bring an entry back.  The argument is on the lowest
heartbeat `v` still in flight: a node passes `v` on only while its own entry is
below `v`, and once it did, its entry never is again.  So `v` stops circulating
within as many ticks as there are nodes, for `v = 0, 1, …, H` in turn.
-/

namespace CloudComputing.MembershipProtocol

namespace Cluster

variable {env : Environment} {n t i j : Nat} {c c' : Cluster} {inbox : Nat → List Msg}

/-- Messages about `j` to live nodes carry at least `v`. -/
def AtLeast (n t : Nat) (c : Cluster) (j : Nat) (v : Int) : Prop :=
  ∀ i < n, running t i (c.mp1 i) = true → ∀ x, c.InFlight (nodeAddr i) x →
    x.addr = nodeAddr j → v ≤ x.heartbeat

def behind (n t : Nat) (c : Cluster) (j : Nat) (v : Int) : Finset Nat :=
  (Finset.range n).filter fun i => running t i (c.mp1 i) = true ∧
    ∃ e ∈ (c.mp1 i).memberList, e.address = nodeAddr j ∧ e.heartbeat < v

@[simp] theorem mem_behind {v : Int} : i ∈ behind n t c j v ↔ i < n ∧
    running t i (c.mp1 i) = true ∧
      ∃ e ∈ (c.mp1 i).memberList, e.address = nodeAddr j ∧ e.heartbeat < v := by
  simp [behind]

/-! ## One tick after the failure -/

section OneTick

variable {v : Int} (hn : n < 256) (inv : RunInv n t c) (tick : Tick env n t c c' inbox)
  (hj : j < n) (hs : startTime j < t) (hfail : (c.mp1 j).bFailed = true)

include inv tick hj hs hfail in
theorem failed_tick :
    (c'.mp1 j).bFailed = true ∧ (c'.mp1 j).heartbeat = (c.mp1 j).heartbeat := by
  rw [tick.node j hj]
  rcases done_cases inv inbox hj with ⟨hst, -⟩ | ⟨hrun, -⟩ | ⟨-, -, hd⟩
  · omega
  · rw [(running_iff.mp hrun).2] at hfail
    cases hfail
  · rw [hd]
    exact ⟨by simp [Member.call, hfail], rfl⟩

include hn inv tick hj hs hfail

/-- A live node gets messages about `j` only from nodes that pass them on. -/
theorem passed_on (hi : i < n) (hrun : running (t + 1) i (c'.mp1 i) = true) {x : Msg}
    (hx : c'.InFlight (nodeAddr i) x) (ha : x.addr = nodeAddr j) :
    ∃ k < n, running t k (c.mp1 k) = true ∧ Turn t (inbox k) (c.mp1 k) (c.done t inbox k) ∧
      ∃ y ∈ inbox k, y.addr = nodeAddr j ∧ y.heartbeat = x.heartbeat ∧
        ((∃ e ∈ (c.mp1 k).memberList, e.address = nodeAddr j ∧ e.heartbeat < y.heartbeat) ∨
          ∃ z ∈ inbox k, z.addr = nodeAddr j ∧ z.heartbeat < y.heartbeat) := by
  have hdead : ∀ {k}, k < n → running t k (c.mp1 k) = true → nodeAddr k ≠ nodeAddr j := by
    intro k hk hrunk hkj
    rw [nodeAddr_inj hn hk hj] at hkj
    rw [hkj, running_iff, hfail] at hrunk
    exact Bool.noConfusion hrunk.2
  rcases tick.inFlight _ _ hx with ⟨hx, hne⟩ | ⟨k, hk, hsent⟩
  · rcases live_cases inv tick hi hrun with ⟨hst, -⟩ | ⟨hrun, -⟩
    · obtain ⟨h, l, hl, hls, hla, -⟩ := inv.dst _ _ hx
      rw [nodeAddr_inj hn hi hl] at hla
      subst hla
      omega
    · exact absurd rfl (hne i hi hrun)
  · rcases done_cases inv inbox hk with ⟨hst, hd⟩ | ⟨hrunk, hturn⟩ | ⟨-, -, hd⟩
    · rw [hd, (nodeStart_spec _ _).2.1, inv.addr k hk] at hsent
      split at hsent
      · cases hsent
      · have hxk := (Send.mk.inj (List.mem_singleton.mp hsent)).2
        rw [hxk, nodeAddr_inj hn hk hj] at ha
        subst ha
        omega
    · rcases hturn.sends _ hsent with ⟨y, hy, -, hsend⟩ | ⟨-, ⟨y, hy, hmsg, hlow⟩ | ⟨-, -, hmsg⟩⟩
      · have hxk : x.addr = (c.mp1 k).addr := congrArg Msg.addr (Send.mk.inj hsend).2
        rw [inv.addr k hk] at hxk
        exact absurd (hxk.symm.trans ha) (hdead hk hrunk)
      · have hya : y.addr = nodeAddr j := (congrArg Msg.addr hmsg).symm.trans ha
        refine ⟨k, hk, hrunk, hturn, y, hy, hya, (congrArg Msg.heartbeat hmsg).symm, ?_⟩
        rwa [hya] at hlow
      · have hxk : x.addr = (c.mp1 k).addr := congrArg Msg.addr hmsg
        rw [inv.addr k hk] at hxk
        exact absurd (hxk.symm.trans ha) (hdead hk hrunk)
    · rw [hd] at hsent
      cases hsent

theorem atLeast_tick (h : AtLeast n t c j v) : AtLeast n (t + 1) c' j v := by
  intro i hi hrun x hx ha
  obtain ⟨k, hk, hrunk, -, y, hy, hya, hyx, -⟩ :=
    passed_on hn inv tick hj hs hfail hi hrun hx ha
  have := h k hk hrunk y ((tick.queue k hk hrunk y).mp hy) hya
  omega

theorem entry_of_tick (hi : i < n) (hrun : running (t + 1) i (c'.mp1 i) = true)
    {e : MemberListEntry} (he : e ∈ (c'.mp1 i).memberList) (ha : e.address = nodeAddr j) :
    running t i (c.mp1 i) = true ∧ Turn t (inbox i) (c.mp1 i) (c.done t inbox i) ∧
      (e ∈ (c.mp1 i).memberList ∨ ∃ x, c.InFlight (nodeAddr i) x ∧ x.addr = nodeAddr j ∧
        x.heartbeat = e.heartbeat) := by
  rw [tick.memberList hi] at he
  rcases live_cases inv tick hi hrun with ⟨hst, hd⟩ | ⟨hrun, hturn⟩
  · rw [hd, (nodeStart_spec _ _).1, inv.addr i hi, List.mem_singleton] at he
    rw [he] at ha
    obtain rfl := (nodeAddr_inj hn hi hj).mp ha
    omega
  · refine ⟨hrun, hturn, ?_⟩
    rcases hturn.entries e he with he | ⟨-, x, hx, hxa, hxh⟩
    · exact Or.inl he
    · exact Or.inr ⟨x, (tick.queue i hi hrun x).mp hx, hxa.trans ha, hxh⟩

theorem behind_subset (h : AtLeast n t c j v) :
    behind n (t + 1) c' j v ⊆ behind n t c j v := by
  intro i hmem
  obtain ⟨hi, hrun, e, he, ha, hlt⟩ := mem_behind.mp hmem
  obtain ⟨hrun, -, he | ⟨x, hx, hxa, hxh⟩⟩ :=
    entry_of_tick hn inv tick hj hs hfail hi hrun he ha
  · exact mem_behind.mpr ⟨hi, hrun, e, he, ha, hlt⟩
  · have := h i hi hrun x hx hxa
    omega

/-- While `v` still circulates, some node stops being behind. -/
theorem behind_ssubset (h : AtLeast n t c j v) (hnot : ¬AtLeast n (t + 1) c' j (v + 1)) :
    behind n (t + 1) c' j v ⊂ behind n t c j v := by
  have hle := atLeast_tick hn inv tick hj hs hfail h
  unfold AtLeast at hnot
  push Not at hnot
  obtain ⟨i, hi, hrun, x, hx, ha, hlt⟩ := hnot
  have hxv := hle i hi hrun x hx ha
  obtain ⟨k, hk, hrunk, hturn, y, hy, hya, hyx, hlow⟩ :=
    passed_on hn inv tick hj hs hfail hi hrun hx ha
  refine (Finset.ssubset_iff_of_subset
    (behind_subset hn inv tick hj hs hfail h)).mpr ⟨k, ?_, ?_⟩
  · rcases hlow with ⟨e, he, hea, hlow⟩ | ⟨z, hz, hza, hlow⟩
    · exact mem_behind.mpr ⟨hk, hrunk, e, he, hea, by omega⟩
    · have := h k hk hrunk z ((tick.queue k hk hrunk z).mp hz) hza
      omega
  · -- its entry was raised to `v` at least
    intro hmem
    obtain ⟨-, -, e', he', ha', hlt'⟩ := mem_behind.mp hmem
    rw [tick.memberList hk] at he'
    rcases hturn.entries e' he' with hold | ⟨-, z, hz, hza, hzh⟩
    · rcases hturn.heard y hy with ⟨e, he, hea, hle'⟩ | ⟨e, he, hea, hle'⟩
      · obtain rfl := (inv.ok k hk (running_iff.mp hrunk).1).eq_of_address hold he
          (ha'.trans (hya.symm.trans hea.symm))
        omega
      · obtain rfl := hturn.ok.eq_of_address he' he (ha'.trans (hya.symm.trans hea.symm))
        omega
    · have := h k hk hrunk z ((tick.queue k hk hrunk z).mp hz) (hza.trans ha')
      omega

end OneTick

/-! ## Runs after the failure -/

section Run

variable {T : Nat} (hn : n < 256) (hj : j < n) (hs : startTime j ≤ T)
  (hfail : env.fails T j = true)

include hn hj hs hfail

theorem failed_run (ht : T < t) : ((run env n t).mp1 j).bFailed = true ∧
    ((run env n t).mp1 j).heartbeat = ((run env n (T + 1)).mp1 j).heartbeat := by
  induction t, ht using Nat.le_induction with
  | base =>
      refine ⟨?_, rfl⟩
      simp [run, fail, hfail]
  | succ t ht ih =>
      obtain ⟨inbox, tick⟩ := exists_tick hn env t
      obtain ⟨hf, hh⟩ := failed_tick (runInv_run hn env t) tick hj (by omega) ih.1
      exact ⟨hf, hh.trans ih.2⟩

variable {v : Int}

theorem atLeast_mono {s : Nat} (hT : T < s) (hst : s ≤ t) (h : AtLeast n s (run env n s) j v) :
    AtLeast n t (run env n t) j v := by
  induction t, hst using Nat.le_induction with
  | base => exact h
  | succ t hst ih =>
      obtain ⟨inbox, tick⟩ := exists_tick hn env t
      exact atLeast_tick hn (runInv_run hn env t) tick hj (by omega)
        (failed_run hn hj hs hfail (by omega)).1 ih

/-- Each tick in which `v` still circulates costs a node that is behind. -/
theorem card_behind_add_le {s d : Nat} (hT : T < s) (h : AtLeast n s (run env n s) j v)
    (hnot : ¬AtLeast n (s + d) (run env n (s + d)) j (v + 1)) :
    (behind n (s + d) (run env n (s + d)) j v).card + d ≤
      (behind n s (run env n s) j v).card := by
  induction d with
  | zero => exact le_rfl
  | succ d ih =>
      have hbefore : ¬AtLeast n (s + d) (run env n (s + d)) j (v + 1) :=
        fun h' => hnot (atLeast_mono hn hj hs hfail (by omega) (Nat.le_succ (s + d)) h')
      obtain ⟨inbox, tick⟩ := exists_tick hn env (s + d)
      have hlt := Finset.card_lt_card (behind_ssubset hn (runInv_run hn env (s + d)) tick hj
        (by omega) (failed_run hn hj hs hfail (by omega)).1
        (atLeast_mono hn hj hs hfail hT (Nat.le_add_right s d) h) hnot)
      have := ih hbefore
      have hsucc : s + (d + 1) = s + d + 1 := rfl
      rw [hsucc]
      omega

theorem atLeast_succ {s : Nat} (hT : T < s) (h : AtLeast n s (run env n s) j v) :
    AtLeast n (s + n) (run env n (s + n)) j (v + 1) := by
  by_contra hnot
  have hle := card_behind_add_le hn hj hs hfail hT h hnot
  have hlt : (behind n s (run env n s) j v).card < n := by
    have hssub : behind n s (run env n s) j v ⊂ Finset.range n := by
      refine (Finset.ssubset_iff_of_subset (Finset.filter_subset _ _)).mpr
        ⟨j, Finset.mem_range.mpr hj, ?_⟩
      intro hmem
      obtain ⟨-, hrun, -⟩ := mem_behind.mp hmem
      rw [running_iff, (failed_run hn hj hs hfail hT).1] at hrun
      exact Bool.noConfusion hrun.2
    simpa using Finset.card_lt_card hssub
  omega

theorem atLeast_run (v : Nat) :
    AtLeast n (T + 1 + n * v) (run env n (T + 1 + n * v)) j v := by
  induction v with
  | zero =>
      intro i _ _ x hx _
      obtain ⟨-, -, -, -, h0, -⟩ := (runInv_run hn env _).msg _ _ hx
      exact h0
  | succ v ih =>
      have := atLeast_succ hn hj hs hfail (by omega) ih
      rw [Nat.mul_succ, ← Nat.add_assoc]
      push_cast
      exact this

/-- When nothing about `j` circulates any more, its entries are from before. -/
theorem timestamp_lt {s : Nat} (hT : T < s)
    (hquiet : AtLeast n s (run env n s) j (((run env n (T + 1)).mp1 j).heartbeat + 1))
    (hst : s ≤ t) (hi : i < n) (hrun : running t i ((run env n t).mp1 i) = true)
    {e : MemberListEntry} (he : e ∈ ((run env n t).mp1 i).memberList)
    (ha : e.address = nodeAddr j) : e.timestamp < s := by
  induction t, hst using Nat.le_induction with
  | base => exact ((runInv_run hn env s).entry i hi e he).2
  | succ t hst ih =>
      obtain ⟨inbox, tick⟩ := exists_tick hn env t
      have inv := runInv_run hn env t
      have hfailed := failed_run (t := t) hn hj hs hfail (by omega)
      obtain ⟨hrun, -, hold | ⟨x, hx, hxa, -⟩⟩ :=
        entry_of_tick hn inv tick hj (by omega) hfailed.1 hi hrun he ha
      · exact ih hrun hold
      · have hlow := atLeast_mono hn hj hs hfail hT hst hquiet i hi hrun x hx hxa
        obtain ⟨k, hk, -, hka, -, hle⟩ := inv.msg _ _ hx
        rw [hxa, nodeAddr_inj hn hj hk] at hka
        subst hka
        rw [hfailed.2] at hle
        omega

end Run

/-- Node `j` fails after tick `T` with heartbeat `H`.  From tick
`T + (n + 1) * (H + 2) + TREMOVE + 2` on, no live node of the group has an entry for it. -/
theorem failed_node_forgotten {T : Nat} (env : Environment) (hn : n < 256) (hj : j < n)
    (hs : startTime j ≤ T) (hfail : env.fails T j = true)
    (ht : T + (n + 1) * (((run env n (T + 1)).mp1 j).heartbeat + 2) + tRemove + 2 ≤ t) :
    ∀ i < n, ((run env n (t + 1)).mp1 i).bFailed = false →
      ((run env n (t + 1)).mp1 i).inGroup = true → ¬(run env n (t + 1)).Has i j := by
  rintro i hi hlive hin ⟨e, he, ha⟩
  obtain ⟨H, hH⟩ := Int.eq_ofNat_of_zero_le ((runInv_run hn env (T + 1)).heartbeat j hj)
  rw [hH] at ht
  have hbound : T + 1 + n * (H + 1) + 20 ≤ t := by
    have hmul : ((n : Int) + 1) * (H + 2) = n * (H + 1) + n + H + 2 := by ring
    have hcast : ((T + 1 + n * (H + 1) + 20 : Nat) : Int) = T + 1 + n * (H + 1) + 20 := by
      push_cast
      ring
    rw [hmul, tRemove] at ht
    omega
  have hquiet := atLeast_run hn hj hs hfail (H + 1)
  have hstarted : startTime i < t + 1 := (runInv_run hn env (t + 1)).started_of_mem hi he
  have hrun : running (t + 1) i ((run env n (t + 1)).mp1 i) = true :=
    running_iff.mpr ⟨hstarted, hlive⟩
  have hold : e.timestamp < (T + 1 + n * (H + 1) : Nat) := by
    refine timestamp_lt hn hj hs hfail (by omega) ?_ (by omega) hi hrun he ha
    rw [hH]
    exact hquiet
  obtain ⟨inbox, tick⟩ := exists_tick hn env t
  have inv := runInv_run hn env t
  have hfailed := failed_run (t := t) hn hj hs hfail (by omega)
  obtain ⟨hrun, hturn, -⟩ := entry_of_tick hn inv tick hj (by omega) hfailed.1 hi hrun he ha
  rw [tick.memberList hi] at he
  rw [tick.inGroup hi] at hin
  rcases hturn.young hin e he with hself | hyoung
  · rw [ha, inv.addr i hi, nodeAddr_inj hn hj hi] at hself
    subst hself
    rw [running_iff, hfailed.1] at hrun
    exact Bool.noConfusion hrun.2
  · have hage : (t : Int) - e.timestamp ≤ 20 := by simpa [timedOut, tRemove] using hyoung
    omega

/-- Every fourth send is lost; node 1 fails after tick 10. -/
def lossyFailure : Environment where
  lost := fun k => k % 4 = 3
  fails := fun t i => t = 10 && i = 1

/-- It had counted to 1 and was known to node 0, which no longer knows it after tick 44. -/
theorem failed_node_forgotten_lossyFailure :
    0 < (run lossyFailure 3 45).refused ∧
    ((run lossyFailure 3 11).mp1 1).heartbeat = 1 ∧
    (run lossyFailure 3 11).Has 0 1 ∧
    ∀ i < 3, ((run lossyFailure 3 45).mp1 i).bFailed = false →
      ((run lossyFailure 3 45).mp1 i).inGroup = true → ¬(run lossyFailure 3 45).Has i 1 := by
  refine ⟨by decide +kernel, by decide +kernel, ?_, ?_⟩
  · unfold Has
    decide +kernel
  · exact failed_node_forgotten (T := 10) lossyFailure (by decide) (by decide) (by decide)
      (by decide) (by decide +kernel)

end Cluster

end CloudComputing.MembershipProtocol
