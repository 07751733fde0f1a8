import CloudComputing.MembershipProtocol.Completeness
import CloudComputing.MembershipProtocol.Freshness
import CloudComputing.MembershipProtocol.Join

/-!
# All live nodes see the same group

In a run that refuses nothing, and in which nobody fails until everyone knows
everyone, all live nodes list the same addresses before every tick from then on,
and they all remove a failed node in the same tick, once.
-/

namespace CloudComputing.MembershipProtocol

namespace Cluster

variable {env : Environment} {n t u i j s S : Nat}

/-! ## Until everyone knows everyone -/

/-- What fails later does not matter now. -/
theorem run_congr {env' : Environment} (hlost : env'.lost = env.lost)
    (hsame : ∀ s < t, ∀ i, env'.fails s i = env.fails s i) : run env' n t = run env n t := by
  obtain ⟨lost, fails⟩ := env
  obtain ⟨lost', fails'⟩ := env'
  cases hlost
  induction t with
  | zero => rfl
  | succ t ih =>
      have hfails : fails' t = fails t := funext (hsame t (Nat.lt_succ_self t))
      rw [run, run, ih fun s hs => hsame s (by omega)]
      show fail ⟨lost, fails'⟩ t (mp1Run ⟨lost, fails⟩ n t _) = _
      simp only [fail, hfails]

theorem not_failed_until (hn : n < 256) (hi : i < n) (hlive : ∀ s < t, env.fails s i = false) :
    ((run env n t).mp1 i).bFailed = false := by
  induction t with
  | zero =>
      rw [run, init_node hi]
      rfl
  | succ t ih =>
      have ih := ih fun s hs => hlive s (by omega)
      obtain ⟨inbox, tick⟩ := exists_tick hn env t
      rw [tick.node i hi, hlive t (Nat.lt_succ_self t)]
      rcases done_cases (runInv_run hn env t) inbox hi with ⟨-, h⟩ | ⟨-, h⟩ | ⟨-, -, h⟩
      · rw [h, (nodeStart_spec _ _).1]
        rfl
      · simpa using h.bFailed.trans ih
      · rw [h]
        simpa [Member.call] using ih

section Acquainted

variable (hn : n < 256) (full : ∀ s ≤ t, ∃ inbox, FullTick env n s inbox)

include hn full

theorem inGroup_of_full (hi : i < n) (hsi : startTime i + 2 ≤ t) :
    ((run env n (t + 1)).mp1 i).inGroup = true := by
  by_cases hi0 : i = 0
  · subst hi0
    exact (runInv_run hn env (t + 1)).introducer hi (by omega)
  · exact inGroup_mono full (by omega) le_rfl hi (by omega) (joins hn full hi (by omega) hsi).1

theorem has_of_full (hi : i < n) (hj : j < n) (hsi : startTime i ≤ s) (hsj : startTime j ≤ s)
    (hst : s + 10 ≤ t) : (run env n (t + 1)).Has i j := by
  have hzero : startTime 0 = 0 := rfl
  have hn0 : 0 < n := by omega
  have inv := runInv_run hn env (t + 1)
  by_cases hij : i = j
  · subst hij
    obtain ⟨me, others, hlist, hme, -⟩ := (inv.ok i hi (by omega)).cons
    exact ⟨me, hlist ▸ List.mem_cons_self, hme.trans (inv.addr i hi)⟩
  by_cases hi0 : i = 0
  · subst hi0
    exact has_mono hn full (by omega) le_rfl hn0 hj hij (by omega) (by omega)
      (introducer_answers hn full hj (by omega) (by omega)).1
  by_cases hj0 : j = 0
  · subst hj0
    exact has_mono hn full (by omega) le_rfl hi hn0 hij (by omega) (by omega)
      (joins hn full hi (by omega) (by omega)).2
  exact learns hn full hi hj (by omega) (by omega) hij hsi hsj hst

theorem together_of_full (hS : ∀ i < n, startTime i ≤ S) (ht : S + 12 ≤ t) :
    Together n (t + 1) (run env n (t + 1)) := by
  obtain ⟨inbox, f⟩ := full t le_rfl
  constructor
  case started =>
    intro i hi
    have := hS i hi
    omega
  case inGroup =>
    intro i hi _
    have := hS i hi
    exact inGroup_of_full hn full hi (by omega)
  case has =>
    intro i hi j hj _ _
    exact has_of_full hn full hi hj (hS i hi) (hS j hj) (by omega)
  case noRequest =>
    have hstarted : ∀ i < n, startTime i < t := by
      intro i hi
      have := hS i hi
      omega
    intro i hi hlive x hx
    exact no_request (runInv_run hn env t) f.tick hstarted hi hlive hx

end Acquainted

/-! ## From then on -/

section Run

variable (hn : n < 256) (hok : (run env n t).refused = 0)

include hn hok

theorem refused_of_le (hst : s ≤ t) : (run env n s).refused = 0 := by
  have hle : (run env n s).refused ≤ (run env n t).refused := refused_mono hn hst
  omega

theorem together_run (hst : s ≤ t) (together : Together n s (run env n s)) :
    Together n t (run env n t) := by
  induction t, hst using Nat.le_induction with
  | base => exact together
  | succ t hst ih =>
      have hzero := refused_of_le hn hok (Nat.le_succ t)
      obtain ⟨inbox, tick⟩ := exists_tick hn env t
      exact together_tick (runInv_run hn env t) tick (lossless_run hn hzero).2 (ih hzero)

theorem exists_fresh_run (hst : s ≤ t) (together : Together n s (run env n s)) (hj : j < n)
    (fresh : ∃ p, Fresh n s (run env n s) j p) : ∃ p, Fresh n t (run env n t) j p := by
  induction t, hst using Nat.le_induction with
  | base => exact fresh
  | succ t hst ih =>
      have hzero := refused_of_le hn hok (Nat.le_succ t)
      obtain ⟨inbox, tick⟩ := exists_tick hn env t
      obtain ⟨p, hp⟩ := ih hzero
      rcases fresh_tick hn (runInv_run hn env t) tick (hok.trans hzero.symm)
        (lossless_run hn hzero).2 (together_run hn hzero hst together) hj hp with ⟨h, -⟩ | h
      · exact ⟨_, h⟩
      · exact ⟨_, h⟩

theorem fresh_run_failed (hst : s ≤ t) (together : Together n s (run env n s)) (hj : j < n)
    (hfail : ∀ u, s ≤ u → u ≤ t → ((run env n u).mp1 j).bFailed = true) {p : Nat}
    (fresh : Fresh n s (run env n s) j p) : Fresh n t (run env n t) j p := by
  induction t, hst using Nat.le_induction with
  | base => exact fresh
  | succ t hst ih =>
      have hzero := refused_of_le hn hok (Nat.le_succ t)
      obtain ⟨inbox, tick⟩ := exists_tick hn env t
      have hp := ih hzero fun u hsu hut => hfail u hsu (by omega)
      refine fresh_between hn (runInv_run hn env t) tick (together_run hn hzero hst together) hj
        ?_ hp
      rintro ⟨hrun, -⟩
      rw [running_iff, hfail t hst (by omega)] at hrun
      exact Bool.noConfusion hrun.2

end Run

section Start

variable (hn : n < 256) (hS : ∀ i < n, startTime i ≤ S)
  (hlive : ∀ s < S + 19, ∀ i, env.fails s i = false)

include hn hlive

/-- Up to the first failure the run is one without failures. -/
theorem exists_full (hu : u ≤ S + 19) (hok : (run env n u).refused = 0) :
    ∃ env', (∀ s ≤ u, run env' n s = run env n s) ∧
      ∀ s < u, ∃ inbox, FullTick env' n s inbox := by
  let env' : Environment := { env with fails := fun _ _ => false }
  have hlost : env'.lost = env.lost := rfl
  have hsame : ∀ s ≤ u, run env' n s = run env n s := by
    intro s hs
    apply run_congr hlost
    intro r hr i
    exact (hlive r (by omega) i).symm
  refine ⟨env', hsame, fun s hs => ?_⟩
  apply exists_fullTick hn fun _ _ => rfl
  rw [hsame (s + 1) hs]
  exact refused_of_le hn hok hs

include hS

theorem together_start (hok : (run env n (S + 13)).refused = 0) :
    Together n (S + 13) (run env n (S + 13)) := by
  obtain ⟨env', hsame, full⟩ := exists_full hn hlive (by omega) hok
  rw [← hsame (S + 13) le_rfl]
  exact together_of_full hn (fun s hs => full s (by omega)) hS le_rfl

theorem exists_fresh (ht : S + 19 ≤ t) (hok : (run env n t).refused = 0) (hj : j < n) :
    ∃ p, Fresh n t (run env n t) j p := by
  have htogether := together_start hn hS hlive (refused_of_le hn hok (by omega))
  have inv := runInv_run hn env (S + 13)
  have hrun : ∀ {u}, S + 13 ≤ u → u ≤ S + 19 → running u j ((run env n u).mp1 j) = true := by
    intro u hSu hu
    have := hS j hj
    exact running_iff.mpr ⟨by omega,
      not_failed_until hn hj fun s hs => hlive s (by omega) j⟩
  -- the counter runs down to the first ping
  obtain ⟨hlow, hhigh⟩ := inv.pingCounter j hj (htogether.started j hj)
  obtain ⟨k, hk⟩ := Int.eq_ofNat_of_zero_le hlow
  rw [hk, tFail] at hhigh
  have hzero : ((run env n (S + 13 + k)).mp1 j).pingCounter = 0 := by
    obtain ⟨env', hsame, full⟩ :=
      exists_full (u := S + 19) hn hlive le_rfl (refused_of_le hn hok ht)
    have hin := htogether.inGroup j hj (hrun le_rfl (by omega))
    rw [← hsame _ (by omega)] at hk hin ⊢
    exact pingCounter_zero (t := S + 18) (fun s hs => full s (by omega)) (by omega) hj
      (htogether.started j hj) hin hk
  have hokp : (run env n (S + 13 + k)).refused = 0 := refused_of_le hn hok (by omega)
  have hokq : (run env n (S + 13 + k + 1)).refused = 0 := refused_of_le hn hok (by omega)
  have hfirst := together_run hn hokp (by omega) htogether
  obtain ⟨inbox, tick⟩ := exists_tick hn env (S + 13 + k)
  have hping := fresh_ping hn (runInv_run hn env _) tick (hokq.trans hokp.symm)
    (lossless_run hn hokp).2 hfirst hj (hrun (by omega) (by omega)) hzero
  exact exists_fresh_run hn hok (by omega) (together_run hn hokq (by omega) htogether) hj
    ⟨_, hping⟩

end Start

/-! ## The same view everywhere -/

theorem agreement (hn : n < 256) (hS : ∀ i < n, startTime i ≤ S)
    (hlive : ∀ s < S + 19, ∀ i, env.fails s i = false) (ht : S + 19 ≤ t)
    (hok : (run env n t).refused = 0) (hi : i < n) (hj : j < n)
    (hlivei : ((run env n t).mp1 i).bFailed = false)
    (hlivej : ((run env n t).mp1 j).bFailed = false) :
    (run env n t).Has i j ∧ (((run env n t).mp1 i).memberList.map MemberListEntry.address).Perm
      (((run env n t).mp1 j).memberList.map MemberListEntry.address) := by
  have inv := runInv_run hn env t
  have together := together_run hn hok (by omega)
    (together_start hn hS hlive (refused_of_le hn hok (by omega)))
  have hrun : ∀ k < n, ((run env n t).mp1 k).bFailed = false →
      running t k ((run env n t).mp1 k) = true :=
    fun k hk hlive => running_iff.mpr ⟨together.started k hk, hlive⟩
  -- what one lists, the other does too
  have hsub : ∀ i < n, ∀ j < n, running t i ((run env n t).mp1 i) = true →
      running t j ((run env n t).mp1 j) = true → ∀ e ∈ ((run env n t).mp1 i).memberList,
        ∃ e' ∈ ((run env n t).mp1 j).memberList, e'.address = e.address := by
    intro i hi j hj hruni hrunj e he
    obtain ⟨⟨k, hk, -, ha, -⟩, -⟩ := inv.entry i hi e he
    obtain ⟨p, fresh⟩ := exists_fresh hn hS hlive ht hok hk
    rw [ha]
    by_cases hp : p + 1 < t
    · obtain ⟨-, hle⟩ := (fresh.heard hp i hi hruni e ha).mp he
      exact ⟨_, (fresh.heard hp j hj hrunj _ rfl).mpr ⟨rfl, hle⟩, rfl⟩
    · have hlt := fresh.lt
      obtain ⟨-, e', he', ha', -⟩ := fresh.flying (by omega) j hj hrunj
      exact ⟨e', he', ha'⟩
  have hruni := hrun i hi hlivei
  have hrunj := hrun j hj hlivej
  refine ⟨together.has i hi j hj hruni hrunj, ?_⟩
  apply (List.perm_ext_iff_of_nodup (inv.ok i hi (together.started i hi)).nodup
    (inv.ok j hj (together.started j hj)).nodup).mpr
  intro a
  simp only [List.mem_map]
  constructor
  · rintro ⟨e, he, rfl⟩
    exact hsub i hi j hj hruni hrunj e he
  · rintro ⟨e, he, rfl⟩
    exact hsub j hj i hi hrunj hruni e he

/-- Before every tick from `S + 19` on, all live nodes list the same addresses, those of all live
nodes among them. -/
theorem views_agree (env : Environment) (hn : n < 256) (hS : ∀ i < n, startTime i ≤ S)
    (hlive : ∀ s < S + 19, ∀ i, env.fails s i = false) (ht : S + 19 ≤ t)
    (hok : (run env n t).refused = 0) (hi : i < n) (hj : j < n)
    (hlivei : ((run env n t).mp1 i).bFailed = false)
    (hlivej : ((run env n t).mp1 j).bFailed = false) :
    (run env n t).Has i j ∧ (((run env n t).mp1 i).memberList.map MemberListEntry.address).Perm
      (((run env n t).mp1 j).memberList.map MemberListEntry.address) :=
  agreement hn hS hlive ht hok hi hj hlivei hlivej

/-! ## Removing a failed node -/

theorem log_mono (hn : n < 256) (hst : s ≤ t) {line : LogLine} (hline : line ∈ (run env n s).log) :
    line ∈ (run env n t).log := by
  induction t, hst using Nat.le_induction with
  | base => exact hline
  | succ t _ ih =>
      obtain ⟨inbox, tick⟩ := exists_tick hn env t
      exact (tick.log line).mpr (Or.inl ih)

/-- A node removes another in the tick in which the last ping is too old, and in no other. -/
theorem nodeRemove_iff {c c' : Cluster} {inbox : Nat → List Msg} {p : Nat} (hn : n < 256)
    (inv : RunInv n t c) (tick : Tick env n t c c' inbox) (together : Together n t c) (hj : j < n)
    (fresh : Fresh n t c j p) (hi : i < n) (hrun : running t i (c.mp1 i) = true) :
    .nodeRemove (nodeAddr i) (nodeAddr j) t ∈ (c.done t inbox i).log ↔ i ≠ j ∧ t = p + 22 := by
  have hne : nodeAddr j ≠ nodeAddr i ↔ i ≠ j := by
    rw [Ne, nodeAddr_inj hn hj hi]
    exact ne_comm
  by_cases hp : p + 1 < t
  · have hquiet := quietTurn_done inv tick together hi hrun
      fun x => oldNews_of_fresh hn inv hj fresh hp hi hrun
    have hremoved := hquiet.removed
    rw [inv.addr i hi, hne] at hremoved
    rw [hremoved]
    constructor
    · rintro ⟨e, he, ha, hij, hold⟩
      obtain ⟨rfl, hle⟩ := (fresh.heard hp i hi hrun e ha).mp he
      have hage : 20 < (t : Int) - (p + 1) := by
        simpa [timedOut, tRemove, entryAt] using hold
      exact ⟨hij, by omega⟩
    · rintro ⟨hij, hpt⟩
      refine ⟨_, (fresh.heard hp i hi hrun _ rfl).mpr ⟨rfl, by omega⟩, rfl, hij, ?_⟩
      have hage : 20 < (t : Int) - (p + 1) := by omega
      simpa [timedOut, tRemove, entryAt] using hage
  · -- the ping is just arriving
    have hlt := fresh.lt
    obtain ⟨hflying, e₀, he₀, ha₀, hlow⟩ := fresh.flying (by omega) i hi hrun
    constructor
    · intro hline
      rcases (turn_of_running inv together.started inbox hi hrun).log _ hline with
        ⟨b, hline⟩ | ⟨e, he, -, -, hhigh, hline⟩
      · cases hline
      · obtain ⟨-, ha, -⟩ := LogLine.nodeRemove.inj hline
        obtain rfl := (inv.ok i hi (together.started i hi)).eq_of_address he he₀
          (ha.symm.trans ha₀.symm)
        have hle := hhigh _ ((tick.queue i hi hrun _).mpr hflying) ha
        exact absurd hlow (not_lt.mpr hle)
    · omega

section Removal

variable {T : Nat} (hn : n < 256) (hS : ∀ i < n, startTime i ≤ S)
  (hlive : ∀ s < S + 19, ∀ i, env.fails s i = false) (hj : j < n) (hfail : env.fails T j = true)
  (hfirst : ∀ s < T, env.fails s j = false) (ht : T < t) (hok : (run env n t).refused = 0)

include hlive hfail in
theorem le_of_fails : S + 19 ≤ T := by
  by_contra h
  rw [hlive T (by omega) j] at hfail
  cases hfail

include hn hS hlive hfail hok in
theorem together_after (hTs : T ≤ s) (hst : s ≤ t) : Together n s (run env n s) := by
  have hT := le_of_fails hlive hfail
  exact together_run hn (refused_of_le hn hok hst) (by omega)
    (together_start hn hS hlive (refused_of_le hn hok (by omega)))

include hn hS hlive hj hfail hfirst ht hok

theorem exists_lastPing : ∃ p, p ≤ T ∧ T ≤ p + 5 ∧
    ∀ s, T < s → s ≤ t → Fresh n s (run env n s) j p := by
  have hT := le_of_fails hlive hfail
  have hbefore : ((run env n T).mp1 j).bFailed = false := not_failed_until hn hj hfirst
  have hzero : ∀ s ≤ t, (run env n s).refused = 0 := fun s hs => refused_of_le hn hok hs
  have inv := runInv_run hn env T
  have together := together_after hn hS hlive hfail hok le_rfl ht.le
  obtain ⟨inbox, tick⟩ := exists_tick hn env T
  obtain ⟨p, hpT, hTp, hfresh⟩ : ∃ p, p ≤ T ∧ T ≤ p + 5 ∧
      Fresh n (T + 1) (run env n (T + 1)) j p := by
    obtain ⟨p, fresh⟩ := exists_fresh hn hS hlive hT (hzero T ht.le) hj
    have hrun : running T j ((run env n T).mp1 j) = true :=
      running_iff.mpr ⟨together.started j hj, hbefore⟩
    by_cases hp : ((run env n T).mp1 j).pingCounter = 0
    · exact ⟨T, le_rfl, by omega, fresh_ping hn inv tick
        ((hzero (T + 1) ht).trans (hzero T ht.le).symm)
        (lossless_run hn (hzero T ht.le)).2 together hj hrun hp⟩
    · have hlt := fresh.lt
      have hcounter := fresh.counter hrun
      have hlow := (inv.pingCounter j hj (together.started j hj)).1
      rw [tFail] at hcounter
      exact ⟨p, by omega, by omega, fresh_between hn inv tick together hj (fun h => hp h.2) fresh⟩
  refine ⟨p, hpT, hTp, fun s hs hst => ?_⟩
  apply fresh_run_failed hn (hzero s hst) hs
    (together_after hn hS hlive hfail hok (Nat.le_succ T) ht) hj _ hfresh
  have hsj := hS j hj
  exact fun u hu _ => (failed_run hn hj (by omega) hfail hu).1

omit ht in
/-- Who removes a failed node, and when. -/
theorem removal {p : Nat} (hpT : p ≤ T) (hTp : T ≤ p + 5)
    (hfresh : ∀ s, T < s → s ≤ t → Fresh n s (run env n s) j p) (hi : i < n) (now : Int) :
    .nodeRemove (nodeAddr i) (nodeAddr j) now ∈ (run env n t).log ↔
      now = (p + 22 : Nat) ∧ p + 22 < t ∧ ((run env n (p + 22)).mp1 i).bFailed = false := by
  have hT := le_of_fails hlive hfail
  have hsj := hS j hj
  have hbefore : ∀ s ≤ T, ((run env n s).mp1 j).bFailed = false :=
    fun s hs => not_failed_until hn hj fun u hu => hfirst u (by omega)
  have htogether : ∀ s, T ≤ s → s ≤ t → Together n s (run env n s) :=
    fun s hs hst => together_after hn hS hlive hfail hok hs hst
  constructor
  · intro hline
    obtain ⟨s, hs, inbox, tick, k, hk, hline⟩ := exists_of_mem_log hn hline
    have inv := runInv_run hn env s
    obtain ⟨hik, rfl, k', hk', hjk, -, hfailed⟩ :=
      removed_failed inv tick (lossless_run hn (refused_of_le hn hok hs.le)).2 hk hline
    obtain rfl := (nodeAddr_inj hn hi hk).mp hik
    obtain rfl := (nodeAddr_inj hn hj hk').mp hjk
    have hTs : T < s := by
      by_contra h
      rw [hbefore s (by omega)] at hfailed
      cases hfailed
    have hrun : running s i ((run env n s).mp1 i) = true := by
      rcases done_cases inv inbox hi with ⟨-, hd⟩ | ⟨hrun, -⟩ | ⟨-, -, hd⟩
      · rw [hd, (nodeStart_spec _ _).2.2] at hline
        cases hline
      · exact hrun
      · rw [hd] at hline
        cases hline
    obtain ⟨-, rfl⟩ := (nodeRemove_iff hn inv tick (htogether s (by omega) hs.le) hj
      (hfresh s hTs hs.le) hi hrun).mp hline
    exact ⟨rfl, hs, (running_iff.mp hrun).2⟩
  · rintro ⟨rfl, hrt, hlivei⟩
    obtain ⟨inbox, tick⟩ := exists_tick hn env (p + 22)
    have together := htogether (p + 22) (by omega) (by omega)
    have hij : i ≠ j := by
      rintro rfl
      rw [(failed_run hn hj (by omega) hfail (by omega)).1] at hlivei
      cases hlivei
    have hline := (nodeRemove_iff hn (runInv_run hn env _) tick together hj
      (hfresh _ (by omega) (by omega)) hi
      (running_iff.mpr ⟨together.started i hi, hlivei⟩)).mpr ⟨hij, rfl⟩
    exact log_mono hn hrt ((tick.log _).mpr (Or.inr ⟨i, hi, hline⟩))

end Removal

/-- A node that fails after tick `T` is removed by all nodes that are live then in one and the same
tick, 17 to 22 ticks later, and at no other time. -/
theorem removed_together {T : Nat} (env : Environment) (hn : n < 256)
    (hS : ∀ i < n, startTime i ≤ S) (hlive : ∀ s < S + 19, ∀ i, env.fails s i = false)
    (hj : j < n) (hfail : env.fails T j = true) (hfirst : ∀ s < T, env.fails s j = false)
    (ht : T < t) (hok : (run env n t).refused = 0) :
    ∃ r : Nat, T + 17 ≤ r ∧ r ≤ T + 22 ∧ ∀ i < n, ∀ now : Int,
      (.nodeRemove (nodeAddr i) (nodeAddr j) now ∈ (run env n t).log ↔
        now = r ∧ r < t ∧ ((run env n r).mp1 i).bFailed = false) := by
  obtain ⟨p, hpT, hTp, hfresh⟩ := exists_lastPing hn hS hlive hj hfail hfirst ht hok
  exact ⟨p + 22, by omega, by omega, fun i hi now =>
    removal hn hS hlive hj hfail hfirst hok hpT hTp hfresh hi now⟩

/-- Node 1 fails after tick 20; nothing is lost. -/
def lateFailure : Environment where
  lost := fun _ => false
  fails := fun t i => t = 20 && i = 1

theorem lateFailure_before {s : Nat} (hs : s < 0 + 19) (i : Nat) : lateFailure.fails s i = false := by
  have hne : s ≠ 20 := by omega
  simp [lateFailure, hne]

/-- Seven ticks later node 1 has not been removed yet. -/
theorem views_agree_lateFailure :
    (run lateFailure 3 27).Has 0 1 ∧ (run lateFailure 3 27).Has 0 2 ∧
      (((run lateFailure 3 27).mp1 0).memberList.map MemberListEntry.address).Perm
        (((run lateFailure 3 27).mp1 2).memberList.map MemberListEntry.address) := by
  have hhas : (run lateFailure 3 27).Has 0 1 := by
    unfold Has
    decide +kernel
  have hok : (run lateFailure 3 27).refused = 0 := by decide +kernel
  exact ⟨hhas, views_agree (S := 0) lateFailure (by decide) (by decide)
    (fun s hs i => lateFailure_before hs i) (by decide) hok (by decide) (by decide)
    (by decide +kernel) (by decide +kernel)⟩

/-- Node 0 removes it in tick 41, and so does node 2. -/
theorem removed_together_lateFailure :
    .nodeRemove (nodeAddr 0) (nodeAddr 1) 41 ∈ (run lateFailure 3 43).log ∧
    ∃ r : Nat, 20 + 17 ≤ r ∧ r ≤ 20 + 22 ∧ ∀ i < 3, ∀ now : Int,
      (.nodeRemove (nodeAddr i) (nodeAddr 1) now ∈ (run lateFailure 3 43).log ↔
        now = r ∧ r < 43 ∧ ((run lateFailure 3 r).mp1 i).bFailed = false) := by
  have hok : (run lateFailure 3 43).refused = 0 := by decide +kernel
  exact ⟨by decide +kernel, removed_together (S := 0) (T := 20) lateFailure (by decide) (by decide)
    (fun s hs i => lateFailure_before hs i) (by decide) rfl
    (fun s hs => by simp [lateFailure, hs.ne]) (by decide) hok⟩

end Cluster

end CloudComputing.MembershipProtocol
