import CloudComputing.MembershipProtocol.Accuracy

/-!
# Without loss and failures everyone gets to know everyone

A new node asks the introducer, which enters and answers it; from the next tick
on the node is in the group, knows the introducer and pings every `TFAIL + 1`
ticks.  The introducer passes each of these heartbeats on to everyone it knows.
-/

namespace CloudComputing.MembershipProtocol

namespace Cluster

variable {env : Environment} {n t i j : Nat}

section Lossless

variable (hn : n < 256) (hlive : ∀ t i, env.fails t i = false)

include hn hlive

theorem not_failed_run (hi : i < n) : ((run env n t).mp1 i).bFailed = false := by
  induction t with
  | zero =>
      rw [run, init_node hi]
      rfl
  | succ t ih =>
      obtain ⟨inbox, tick⟩ := exists_tick hn env t
      rw [tick.node i hi, hlive t i]
      rcases done_cases (runInv_run hn env t) inbox hi with ⟨-, h⟩ | ⟨-, h⟩ | ⟨-, -, h⟩
      · rw [h, (nodeStart_spec _ _).1]
        rfl
      · simpa using h.bFailed.trans ih
      · rw [h]
        simpa [Member.call] using ih

/-- A tick in which nothing is refused and every started node takes its turn. -/
structure FullTick (env : Environment) (n t : Nat) (inbox : Nat → List Msg) : Prop where
  tick : Tick env n t (run env n t) (run env n (t + 1)) inbox
  turn : ∀ i < n, startTime i < t → running t i ((run env n t).mp1 i) = true ∧
    Turn t (inbox i) ((run env n t).mp1 i) ((run env n t).done t inbox i)
  join : JoinInv n t (run env n t)
  acc : Accurate n t (run env n t)
  delivered : ∀ i < n, ∀ a x, ⟨a, x⟩ ∈ ((run env n t).done t inbox i).sent →
    (run env n (t + 1)).InFlight a x

theorem exists_fullTick (hok : (run env n (t + 1)).refused = 0) :
    ∃ inbox, FullTick env n t inbox := by
  obtain ⟨inbox, tick⟩ := exists_tick hn env t
  have hle : (run env n t).refused ≤ (run env n (t + 1)).refused := tick.refused
  obtain ⟨join, acc⟩ := lossless_run (t := t) hn (by omega : (run env n t).refused = 0)
  refine ⟨inbox, tick, ?_, join, acc, tick.delivered (by omega)⟩
  intro i hi hs
  have hrun : running t i ((run env n t).mp1 i) = true :=
    running_iff.mpr ⟨hs, not_failed_run hn hlive hi⟩
  rcases done_cases (runInv_run hn env t) inbox hi with ⟨hst, -⟩ | h | ⟨-, h, -⟩
  · omega
  · exact h
  · rw [hrun] at h
    cases h

end Lossless

/-! ## What a node knows it keeps -/

section Full

variable {s u : Nat} (hn : n < 256) (full : ∀ s ≤ t, ∃ inbox, FullTick env n s inbox)

include hn full

theorem has_succ (hst : s ≤ t) (hi : i < n) (hj : j < n) (hij : i ≠ j) (hsi : startTime i < s)
    (hsj : startTime j < s) (h : (run env n s).Has i j ∨ (run env n s).Told i j) :
    (run env n (s + 1)).Has i j := by
  obtain ⟨inbox, f⟩ := full s hst
  obtain ⟨hruni, hturn⟩ := f.turn i hi hsi
  obtain ⟨hrunj, -⟩ := f.turn j hj hsj
  have inv := runInv_run hn env s
  rcases h with h | h
  · exact has_of_has inv f.tick f.acc hi hj hij hruni hrunj hturn h
  · exact has_of_told inv f.tick f.acc hi hj hij hruni hrunj hturn h

theorem has_mono (hsu : s ≤ u) (hut : u ≤ t + 1) (hi : i < n) (hj : j < n) (hij : i ≠ j)
    (hsi : startTime i < s) (hsj : startTime j < s) (h : (run env n s).Has i j) :
    (run env n u).Has i j := by
  induction u, hsu using Nat.le_induction with
  | base => exact h
  | succ u hsu ih =>
      exact has_succ hn full (by omega) hi hj hij (by omega) (by omega) (Or.inl (ih (by omega)))

omit hn in
theorem inGroup_mono (hsu : s ≤ u) (hut : u ≤ t + 1) (hi : i < n) (hsi : startTime i < s)
    (h : ((run env n s).mp1 i).inGroup = true) : ((run env n u).mp1 i).inGroup = true := by
  induction u, hsu using Nat.le_induction with
  | base => exact h
  | succ u hsu ih =>
      obtain ⟨inbox, f⟩ := full u (by omega)
      obtain ⟨-, hturn⟩ := f.turn i hi (by omega)
      rw [f.tick.inGroup hi]
      exact hturn.inGroup.mpr (Or.inl (ih (by omega)))

/-! ## Joining -/

theorem request_sent (hj : j < n) (hj0 : 0 < j) (ht : startTime j ≤ t) :
    (run env n (startTime j + 1)).InFlight (nodeAddr 0) ⟨.joinReq, nodeAddr j, 0⟩ := by
  obtain ⟨inbox, f⟩ := full _ ht
  have inv := runInv_run hn env (startTime j)
  refine f.delivered j hj _ _ ?_
  have hdone : (run env n (startTime j)).done (startTime j) inbox j =
      ((run env n (startTime j)).mp1 j).call.nodeStart (startTime j) := by
    rcases done_cases inv inbox hj with ⟨-, h⟩ | ⟨hrun, -⟩ | ⟨hne, -⟩
    · exact h
    · exact absurd (running_iff.mp hrun).1 (lt_irrefl _)
    · exact absurd rfl hne
  rw [hdone, (nodeStart_spec _ _).2.1, inv.addr j hj, joinAddr_eq, if_neg]
  · exact List.mem_singleton_self _
  · rw [nodeAddr_inj hn hj (by omega)]
    omega

theorem introducer_answers (hj : j < n) (hj0 : 0 < j) (ht : startTime j + 1 ≤ t) :
    (run env n (startTime j + 2)).Has 0 j ∧
      ∃ h, (run env n (startTime j + 2)).InFlight (nodeAddr j) ⟨.joinRep, nodeAddr 0, h⟩ := by
  have hreq := request_sent hn full hj hj0 (by omega)
  have h0 : startTime 0 < startTime j + 1 := by simp [startTime]
  have hn0 : 0 < n := by omega
  constructor
  · exact has_succ hn full ht hn0 hj (by omega) h0 (by omega) (Or.inr ⟨_, hreq, rfl⟩)
  · obtain ⟨inbox, f⟩ := full _ ht
    obtain ⟨hrun, hturn⟩ := f.turn 0 hn0 h0
    have hreply := hturn.replies _ ((f.tick.queue 0 hn0 hrun _).mpr hreq) rfl
    rw [(runInv_run hn env _).addr 0 hn0] at hreply
    exact ⟨_, f.delivered 0 hn0 _ _ hreply⟩

theorem joins (hj : j < n) (hj0 : 0 < j) (ht : startTime j + 2 ≤ t) :
    ((run env n (startTime j + 3)).mp1 j).inGroup = true ∧
      (run env n (startTime j + 3)).Has j 0 := by
  obtain ⟨-, h, hrep⟩ := introducer_answers hn full hj hj0 (by omega)
  constructor
  · obtain ⟨inbox, f⟩ := full _ ht
    obtain ⟨hrun, hturn⟩ := f.turn j hj (by omega)
    rw [f.tick.inGroup hj, hturn.inGroup]
    exact Or.inr ⟨_, (f.tick.queue j hj hrun _).mpr hrep, rfl⟩
  · have h0 : startTime 0 < startTime j + 2 := by simp [startTime]
    exact has_succ hn full ht hj (by omega) (by omega) (by omega) h0 (Or.inr ⟨_, hrep, rfl⟩)

/-! ## Pings -/

omit hn in
theorem pingCounter_zero {k : Nat} (hst : s + k ≤ t + 1) (hj : j < n) (hsj : startTime j < s)
    (hin : ((run env n s).mp1 j).inGroup = true)
    (hp : ((run env n s).mp1 j).pingCounter = k) :
    ((run env n (s + k)).mp1 j).pingCounter = 0 := by
  induction k generalizing s with
  | zero => exact hp
  | succ k ih =>
      obtain ⟨inbox, f⟩ := full s (by omega)
      obtain ⟨-, hturn⟩ := f.turn j hj hsj
      have hin' : ((run env n s).done s inbox j).member.inGroup = true :=
        hturn.inGroup.mpr (Or.inl hin)
      have hp' : ((run env n (s + 1)).mp1 j).pingCounter = k := by
        rw [f.tick.pingCounter hj, hturn.pingCounter, if_pos hin', if_neg (by omega)]
        omega
      have := ih (s := s + 1) (by omega) (by omega) ((f.tick.inGroup hj).trans hin') hp'
      rwa [show s + (k + 1) = s + 1 + k by omega]

/-- A ping of `j` reaches, over the introducer, every node the introducer knows one tick later. -/
theorem learns_of_ping (hi : i < n) (hj : j < n) (hj0 : 0 < j) (hij : i ≠ j)
    (hut : u + 2 ≤ t) (hsi : startTime i < u + 2) (hsj : startTime j < u)
    (hin : ((run env n u).mp1 j).inGroup = true)
    (hp : ((run env n u).mp1 j).pingCounter = 0) (hknows : (run env n u).Has j 0)
    (hknown : (run env n u).Has 0 j) (hknowsi : (run env n (u + 1)).Has 0 i) :
    (run env n (u + 3)).Has i j := by
  have hn0 : 0 < n := by omega
  have h0 : startTime 0 < u := by
    have hzero : startTime 0 = 0 := rfl
    omega
  have inv := runInv_run hn env u
  -- tick `u`: the ping
  obtain ⟨inbox, f⟩ := full u (by omega)
  obtain ⟨-, hturnj⟩ := f.turn j hj hsj
  have hping := f.delivered j hj _ _
    (hturnj.pinged (hturnj.inGroup.mpr (Or.inl hin)) hp (nodeAddr 0) (Or.inl hknows))
  -- the introducer has only heard of lower heartbeats
  obtain ⟨e, he, ha⟩ := has_succ hn full (by omega) hn0 hj (by omega) h0 hsj (Or.inl hknown)
  have hlow : e.heartbeat ≤ ((run env n u).mp1 j).heartbeat := by
    obtain ⟨hrun0, hturn0⟩ := f.turn 0 hn0 h0
    have hle : ∀ a h, Known n u (run env n u) a h → a = nodeAddr j →
        h ≤ ((run env n u).mp1 j).heartbeat := by
      rintro a h ⟨k, hk, -, hka, -, hle⟩ rfl
      rw [nodeAddr_inj hn hj hk] at hka
      rwa [← hka] at hle
    rw [f.tick.memberList hn0] at he
    rcases hturn0.entries e he with he | ⟨-, x, hx, hxa, hxh⟩
    · exact hle _ _ (inv.entry 0 hn0 e he).1 ha
    · rw [← hxh]
      exact hle _ _ (inv.msg _ _ ((f.tick.queue 0 hn0 hrun0 x).mp hx)) (hxa.trans ha)
  -- tick `u + 1`: the introducer passes it on
  obtain ⟨inbox', f'⟩ := full (u + 1) (by omega)
  obtain ⟨hrun0, hturn0⟩ := f'.turn 0 hn0 (by omega)
  rw [inv.addr j hj] at hping
  obtain ⟨e', he', ha'⟩ := hknowsi
  obtain ⟨h, hpass⟩ := hturn0.passedOn _ ((f'.tick.queue 0 hn0 hrun0 _).mpr hping) e he ha
    (by simp only; omega) e' he'
  rw [ha'] at hpass
  -- tick `u + 2`: it arrives
  exact has_succ hn full hut hi hj hij hsi (by omega)
    (Or.inr ⟨_, f'.delivered 0 hn0 _ _ hpass, rfl⟩)

/-- Two nodes other than the introducer: the first ping after both joined is enough. -/
theorem learns (hi : i < n) (hj : j < n) (hi0 : 0 < i) (hj0 : 0 < j) (hij : i ≠ j)
    (hsi : startTime i ≤ s) (hsj : startTime j ≤ s) (hst : s + 10 ≤ t) :
    (run env n (t + 1)).Has i j := by
  have hzero : startTime 0 = 0 := rfl
  have hn0 : 0 < n := by omega
  obtain ⟨hin, hknows⟩ := joins hn full hj hj0 (by omega)
  have hin' := inGroup_mono full (show startTime j + 3 ≤ s + 3 by omega) (by omega) hj
    (by omega) hin
  obtain ⟨hlow, hhigh⟩ := (runInv_run hn env (s + 3)).pingCounter j hj (by omega)
  obtain ⟨k, hk⟩ := Int.eq_ofNat_of_zero_le hlow
  rw [hk, tFail] at hhigh
  have hp := pingCounter_zero full (k := k) (by omega) hj (by omega) hin' hk
  have hlearned : (run env n (s + 3 + k + 3)).Has i j := by
    refine learns_of_ping hn full hi hj hj0 hij (by omega) (by omega) (by omega) ?_ hp ?_ ?_ ?_
    · exact inGroup_mono full (by omega) (by omega) hj (by omega) hin'
    · exact has_mono hn full (show startTime j + 3 ≤ _ by omega) (by omega) hj hn0 (by omega)
        (by omega) (by omega) hknows
    · exact has_mono hn full (show startTime j + 2 ≤ _ by omega) (by omega) hn0 hj (by omega)
        (by omega) (by omega) (introducer_answers hn full hj hj0 (by omega)).1
    · exact has_mono hn full (show startTime i + 2 ≤ _ by omega) (by omega) hn0 hi (by omega)
        (by omega) (by omega) (introducer_answers hn full hi hi0 (by omega)).1
  exact has_mono hn full (by omega) le_rfl hi hj hij (by omega) (by omega) hlearned

end Full

/-- Without failures and refused sends, two nodes started by tick `S` are in the group and know
each other at the end of every tick from `S + 12` on. -/
theorem everyone_joined {S : Nat} (env : Environment) (hn : n < 256)
    (hlive : ∀ t i, env.fails t i = false) (hi : i < n) (hj : j < n) (hsi : startTime i ≤ S)
    (hsj : startTime j ≤ S) (ht : S + 12 ≤ t) (hok : (run env n (t + 1)).refused = 0) :
    ((run env n (t + 1)).mp1 i).inGroup = true ∧ (run env n (t + 1)).Has i j := by
  have hzero : startTime 0 = 0 := rfl
  have hn0 : 0 < n := by omega
  have full : ∀ s ≤ t, ∃ inbox, FullTick env n s inbox := by
    intro s hs
    have hle : (run env n (s + 1)).refused ≤ (run env n (t + 1)).refused :=
      refused_mono hn (by omega)
    exact exists_fullTick hn hlive (by omega)
  have inv := runInv_run hn env (t + 1)
  constructor
  · by_cases hi0 : i = 0
    · subst hi0
      exact inv.introducer hn0 (by omega)
    · exact inGroup_mono full (by omega) le_rfl hi (by omega)
        (joins hn full hi (by omega) (by omega)).1
  · by_cases hij : i = j
    · subst hij
      obtain ⟨me, others, hlist, hme, -⟩ := (inv.ok i hi (by omega)).cons
      exact ⟨me, hlist ▸ List.mem_cons_self, hme.trans (inv.addr i hi)⟩
    by_cases hi0 : i = 0
    · subst hi0
      exact has_mono hn full (by omega) le_rfl hn0 hj hij (by omega) (by omega)
        (introducer_answers hn full hj (by omega) (by omega)).1
    by_cases hj0 : j = 0
    · subst hj0
      exact has_mono hn full (by omega) le_rfl hi hn0 hij (by omega) (by omega)
        (joins hn full hi (by omega) (by omega)).2
    exact learns hn full hi hj (by omega) (by omega) hij hsi hsj (by omega)

def quiet : Environment where
  lost := fun _ => false
  fails := fun _ _ => false

/-- Six nodes, the last two of them started in tick 1. -/
theorem everyone_joined_quiet :
    (run quiet 6 14).refused = 0 ∧
    ((run quiet 6 14).mp1 2).inGroup = true ∧ (run quiet 6 14).Has 2 5 := by
  have hok : (run quiet 6 14).refused = 0 := by decide +kernel
  exact ⟨hok, everyone_joined (S := 1) quiet (by decide) (fun _ _ => rfl) (by decide) (by decide)
    (by decide) (by decide) (by decide) hok⟩

end Cluster

end CloudComputing.MembershipProtocol
