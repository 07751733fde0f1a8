import Mathlib.Data.List.ProdSigma
import Mathlib.Data.List.Nodup
import CloudComputing.MembershipProtocol.Capacity

/-!
# The test cases and their grading

`Application::fail` and `Grader.sh`.  In the test cases without `DROP_MSG` some
nodes fail after tick 100, which ones depends on `rand`.  Whatever it returns,
the log has what the grader looks for.
-/

namespace CloudComputing.MembershipProtocol

/-- The parameters of a test case with `DROP_MSG: 0`. -/
structure Params where
  enGpsz : Nat
  singleFailure : Bool

namespace Params

/-- The nodes that `fail` takes at time 100, when `rand` returns `drawn`. -/
def removed (par : Params) (drawn i : Nat) : Bool :=
  if par.singleFailure then i = drawn % par.enGpsz
  else
    let removed := drawn % par.enGpsz / 2
    removed ≤ i && i < removed + par.enGpsz / 2

/-- `dropmsg` stays off, and nodes fail at time 100 only. -/
def environment (par : Params) (drawn : Nat) : Environment where
  lost := fun _ => false
  fails := fun t i => t = 100 && par.removed drawn i

def survivors (par : Params) (drawn : Nat) : List Nat :=
  (List.range par.enGpsz).filter fun i => !par.removed drawn i

def failed (par : Params) (drawn : Nat) : List Nat :=
  (List.range par.enGpsz).filter (par.removed drawn)

variable {par : Params} {drawn i : Nat}

@[simp] theorem mem_survivors :
    i ∈ par.survivors drawn ↔ i < par.enGpsz ∧ par.removed drawn i = false := by
  simp [survivors]

@[simp] theorem mem_failed :
    i ∈ par.failed drawn ↔ i < par.enGpsz ∧ par.removed drawn i = true := by
  simp [failed]

end Params

namespace Cluster

variable {env : Environment} {n t i j : Nat}

/-! ## Who is entered in the log -/

theorem exists_nodeAdd (hn : n < 256) (hi : i < n) (hj : j < n) (hij : i ≠ j)
    (hhas : (run env n t).Has i j) :
    ∃ now, .nodeAdd (nodeAddr i) (nodeAddr j) now ∈ (run env n t).log := by
  induction t with
  | zero =>
      obtain ⟨e, he, -⟩ := hhas
      rw [run, init_node hi] at he
      cases he
  | succ t ih =>
      obtain ⟨inbox, tick⟩ := exists_tick hn env t
      have inv := runInv_run hn env t
      by_cases hbefore : (run env n t).Has i j
      · obtain ⟨now, hline⟩ := ih hbefore
        exact ⟨now, log_mono hn (Nat.le_succ t) hline⟩
      obtain ⟨e, he, ha⟩ := hhas
      rw [tick.memberList hi] at he
      rcases done_cases inv inbox hi with ⟨-, hd⟩ | ⟨hrun, -⟩ | ⟨-, -, hd⟩
      · rw [hd, (nodeStart_spec _ _).1, inv.addr i hi, List.mem_singleton] at he
        rw [he] at ha
        exact absurd ((nodeAddr_inj hn hi hj).mp ha) hij
      · obtain ⟨hstarted, hlive⟩ := running_iff.mp hrun
        have ok := inv.ok i hi hstarted
        rw [done_nodeLoop inv hi hrun] at he
        have hline := nodeAdd_nodeLoop t (a := nodeAddr j)
          (m := { (run env n t).mp1 i with mp1q := inbox i }) ⟨ok.head, ok.nodup⟩ hlive
          (fun e he ha => hbefore ⟨e, he, ha⟩) he ha
        rw [← done_nodeLoop inv hi hrun] at hline
        refine ⟨t, (tick.log _).mpr (Or.inr ⟨i, hi, ?_⟩)⟩
        rw [← inv.addr i hi]
        exact hline
      · rw [hd] at he
        exact absurd ⟨e, he, ha⟩ hbefore

theorem of_nodeAdd (hn : n < 256) {a b : Address} {now : Int}
    (hline : .nodeAdd a b now ∈ (run env n t).log) :
    ∃ i < n, ∃ j < n, a = nodeAddr i ∧ b = nodeAddr j := by
  obtain ⟨s, -, inbox, tick, k, hk, hline⟩ := exists_of_mem_log hn hline
  have inv := runInv_run hn env s
  rcases done_cases inv inbox hk with ⟨-, hd⟩ | ⟨hrun, -⟩ | ⟨-, -, hd⟩
  · rw [hd, (nodeStart_spec _ _).2.2] at hline
    cases hline
  · obtain ⟨hstarted, hlive⟩ := running_iff.mp hrun
    have ok := inv.ok k hk hstarted
    rw [done_nodeLoop inv hk hrun] at hline
    obtain ⟨ha, x, hx, hxb⟩ := added_nodeLoop
      (m := { (run env n s).mp1 k with mp1q := inbox k }) ⟨ok.head, ok.nodup⟩ hlive hline
    obtain ⟨j, hj, -, hb, -⟩ := inv.msg _ _ ((tick.queue k hk hrun x).mp hx)
    exact ⟨k, hk, j, hj, ha.trans (inv.addr k hk), hxb.symm.trans hb⟩
  · rw [hd] at hline
    cases hline

/-! ## A test case -/

section TestCase

variable {par : Params} {drawn : Nat}

theorem startTime_le (hn : n < 256) (i : Nat) (hi : i < n) : startTime i ≤ 63 := by
  unfold startTime
  omega

theorem fails_before {s : Nat} (hs : s < 63 + 19) (i : Nat) :
    (par.environment drawn).fails s i = false := by
  have hne : s ≠ 100 := by omega
  simp [Params.environment, hne]

theorem fails_at (i : Nat) : (par.environment drawn).fails 100 i = par.removed drawn i := by
  simp [Params.environment]

variable (hn : par.enGpsz < 256) (ht : 122 < t)
  (hok : (run (par.environment drawn) par.enGpsz t).refused = 0)

include hn in
theorem survives (hi : i < par.enGpsz) (hlive : par.removed drawn i = false) (s : Nat) :
    ((run (par.environment drawn) par.enGpsz s).mp1 i).bFailed = false := by
  apply not_failed_until hn hi
  intro u _
  simp [Params.environment, hlive]

include hn in
theorem fallen (hi : i < par.enGpsz) (hfail : par.removed drawn i = true) {s : Nat} (hs : 100 < s) :
    ((run (par.environment drawn) par.enGpsz s).mp1 i).bFailed = true := by
  have hstart := startTime_le hn i hi
  exact (failed_run (T := 100) hn hi (by omega) ((fails_at i).trans hfail) hs).1

include hn ht hok in
theorem exists_removal (hj : j < par.enGpsz) (hfail : par.removed drawn j = true) :
    ∃ r : Nat, 117 ≤ r ∧ r ≤ 122 ∧
      (∀ i < par.enGpsz, ∀ now : Int,
        (.nodeRemove (nodeAddr i) (nodeAddr j) now ∈
            (run (par.environment drawn) par.enGpsz t).log ↔
          now = r ∧ par.removed drawn i = false)) ∧
      ∀ i < par.enGpsz, par.removed drawn i = false →
        ¬(run (par.environment drawn) par.enGpsz t).Has i j := by
  have hS := startTime_le hn
  have hat := (fails_at j).trans hfail
  have hlive : ∀ s < 63 + 19, ∀ i, (par.environment drawn).fails s i = false :=
    fun s hs i => fails_before hs i
  have hfirst : ∀ s < 100, (par.environment drawn).fails s j = false := by
    intro s hs
    simp [Params.environment, hs.ne]
  obtain ⟨p, hpT, hTp, hfresh⟩ := exists_lastPing hn hS hlive hj hat hfirst (by omega) hok
  refine ⟨p + 22, by omega, by omega, fun i hi now => ?_, ?_⟩
  · rw [removal hn hS hlive hj hat hfirst hok hpT hTp hfresh hi now]
    refine and_congr_right fun _ => ⟨?_, ?_⟩
    · rintro ⟨-, hrunning⟩
      by_contra hremoved
      rw [fallen hn hi (by simpa using hremoved) (by omega)] at hrunning
      cases hrunning
    · exact fun hremoved => ⟨by omega, survives hn hi hremoved _⟩
  · rintro i hi hremoved ⟨e, he, ha⟩
    have hstart := hS i hi
    have hrun : running t i ((run (par.environment drawn) par.enGpsz t).mp1 i) = true :=
      running_iff.mpr ⟨by omega, survives hn hi hremoved t⟩
    obtain ⟨-, hle⟩ := ((hfresh t (by omega) le_rfl).heard (by omega) i hi hrun e ha).mp he
    omega

include hn ht hok in
/-- What the log says of removals: every node that survived removed every node that failed, and
all of them at the same time. -/
theorem removals : ∃ r : Nat → Nat, (∀ j, 117 ≤ r j ∧ r j ≤ 122) ∧ ∀ a b (now : Int),
    (.nodeRemove a b now ∈ (run (par.environment drawn) par.enGpsz t).log ↔
      ∃ i < par.enGpsz, ∃ j < par.enGpsz, par.removed drawn i = false ∧
        par.removed drawn j = true ∧ a = nodeAddr i ∧ b = nodeAddr j ∧ now = r j) := by
  have hall : ∀ j, ∃ r : Nat, 117 ≤ r ∧ r ≤ 122 ∧ (j < par.enGpsz → par.removed drawn j = true →
      ∀ i < par.enGpsz, ∀ now : Int,
        (.nodeRemove (nodeAddr i) (nodeAddr j) now ∈
            (run (par.environment drawn) par.enGpsz t).log ↔
          now = r ∧ par.removed drawn i = false)) := by
    intro j
    by_cases hj : j < par.enGpsz ∧ par.removed drawn j = true
    · obtain ⟨r, hlow, hhigh, hlines, -⟩ := exists_removal hn ht hok hj.1 hj.2
      exact ⟨r, hlow, hhigh, fun _ _ => hlines⟩
    · exact ⟨117, le_rfl, by omega, fun hlt hfail => absurd ⟨hlt, hfail⟩ hj⟩
  choose r hlow hhigh hlines using hall
  refine ⟨r, fun j => ⟨hlow j, hhigh j⟩, fun a b now => ⟨?_, ?_⟩⟩
  · intro hline
    -- nobody is removed who has not failed
    obtain ⟨s, hs, inbox, tick, i, hi, hdone⟩ := exists_of_mem_log hn hline
    obtain ⟨rfl, -, j, hj, rfl, -, hfailed⟩ := removed_failed (runInv_run hn _ s) tick
      (lossless_run hn (refused_of_le hn hok hs.le)).2 hi hdone
    have hremoved : par.removed drawn j = true := by
      by_contra hnot
      rw [survives hn hj (by simpa using hnot) s] at hfailed
      cases hfailed
    obtain ⟨hnow, hsurvived⟩ := (hlines j hj hremoved i hi now).mp hline
    exact ⟨i, hi, j, hj, hsurvived, hremoved, rfl, rfl, hnow⟩
  · rintro ⟨i, hi, j, hj, hsurvived, hremoved, rfl, rfl, rfl⟩
    exact (hlines j hj hremoved i hi _).mpr ⟨rfl, hsurvived⟩

include hn ht hok in
theorem exists_joined (hi : i < par.enGpsz) (hj : j < par.enGpsz) (hij : i ≠ j) :
    ∃ now, .nodeAdd (nodeAddr i) (nodeAddr j) now ∈
      (run (par.environment drawn) par.enGpsz t).log := by
  have hlive : ∀ s < 63 + 19, ∀ i, (par.environment drawn).fails s i = false :=
    fun s hs i => fails_before hs i
  have hok' := refused_of_le hn hok (show 63 + 13 ≤ t by omega)
  have together := together_start hn (startTime_le hn) hlive hok'
  have hrun : ∀ k < par.enGpsz,
      running (63 + 13) k ((run (par.environment drawn) par.enGpsz (63 + 13)).mp1 k) = true := by
    intro k hk
    exact running_iff.mpr ⟨together.started k hk,
      not_failed_until hn hk fun s hs => fails_before (by omega) k⟩
  obtain ⟨now, hline⟩ := exists_nodeAdd hn hi hj hij
    (together.has i hi j hj (hrun i hi) (hrun j hj))
  exact ⟨now, log_mono hn (by omega) hline⟩

include hn in
theorem nodup_map_nodeAddr {l : List Nat} (hl : l.Nodup) (hlt : ∀ i ∈ l, i < par.enGpsz) :
    (l.map nodeAddr).Nodup :=
  List.Nodup.map_on (fun i hi j hj h => (nodeAddr_inj hn (hlt i hi) (hlt j hj)).mp h) hl

include hn ht hok in
theorem survivors_listed (hi : i < par.enGpsz) (hlive : par.removed drawn i = false) :
    (((run (par.environment drawn) par.enGpsz t).mp1 i).memberList.map
      MemberListEntry.address).Perm ((par.survivors drawn).map nodeAddr) := by
  have inv := runInv_run hn (par.environment drawn) t
  have hstart := startTime_le hn i hi
  have hsurvivors : ∀ j ∈ par.survivors drawn, j < par.enGpsz :=
    fun j hj => (Params.mem_survivors.mp hj).1
  apply (List.perm_ext_iff_of_nodup (inv.ok i hi (by omega)).nodup
    (nodup_map_nodeAddr hn (List.nodup_range.filter _) hsurvivors)).mpr
  intro a
  simp only [List.mem_map]
  constructor
  · rintro ⟨e, he, rfl⟩
    obtain ⟨⟨j, hj, -, ha, -⟩, -⟩ := inv.entry i hi e he
    refine ⟨j, Params.mem_survivors.mpr ⟨hj, ?_⟩, ha.symm⟩
    by_contra hremoved
    obtain ⟨r, -, -, -, hnone⟩ := exists_removal hn ht hok hj (by simpa using hremoved)
    exact hnone i hi hlive ⟨e, he, ha⟩
  · rintro ⟨j, hj, rfl⟩
    obtain ⟨hj, hlivej⟩ := Params.mem_survivors.mp hj
    have hbefore : ∀ s < 63 + 19, ∀ k, (par.environment drawn).fails s k = false :=
      fun s hs k => fails_before hs k
    exact (agreement hn (startTime_le hn) hbefore (by omega) hok hi hj (survives hn hi hlive t)
      (survives hn hj hlivej t)).1

omit ht hok hn in
theorem refused_testCase (hn : par.enGpsz ≤ 10) (drawn t : Nat) :
    (run (par.environment drawn) par.enGpsz t).refused = 0 :=
  (refused_eq_zero hn (fun _ => rfl) (fun _ hs i => fails_before (by omega) i) t).1

omit ht hok hn in
/-- In a test case with `DROP_MSG: 0`, whatever `rand` returned: every node that survived removed
every node that failed, at a time between 117 and 122 that depends on the latter alone, nobody
removed anyone else, and after that all list those that survived. -/
theorem failures_detected (par : Params) (drawn : Nat) (hn : par.enGpsz ≤ 10) (ht : 122 < t) :
    (∃ r : Nat → Nat, (∀ j, 117 ≤ r j ∧ r j ≤ 122) ∧ ∀ a b (now : Int),
      (.nodeRemove a b now ∈ (run (par.environment drawn) par.enGpsz t).log ↔
        ∃ i < par.enGpsz, ∃ j < par.enGpsz, par.removed drawn i = false ∧
          par.removed drawn j = true ∧ a = nodeAddr i ∧ b = nodeAddr j ∧ now = r j)) ∧
    ∀ i < par.enGpsz, par.removed drawn i = false →
      (((run (par.environment drawn) par.enGpsz t).mp1 i).memberList.map
        MemberListEntry.address).Perm ((par.survivors drawn).map nodeAddr) := by
  have hn' : par.enGpsz < 256 := by omega
  have hok := refused_testCase hn drawn t
  exact ⟨removals hn' ht hok, fun _ hi hlive => survivors_listed hn' ht hok hi hlive⟩

end TestCase

/-- `testcases/singlefailure.conf` -/
def singlefailure : Params := ⟨10, true⟩

/-- `testcases/multifailure.conf` -/
def multifailure : Params := ⟨10, false⟩

/-- After half of the ten nodes failed, the first lists itself and four others. -/
theorem failures_detected_multifailure :
    (((run (multifailure.environment 5) multifailure.enGpsz 700).mp1 0).memberList.map
      MemberListEntry.address).Perm ([0, 1, 7, 8, 9].map nodeAddr) := by
  obtain ⟨-, hlists⟩ := failures_detected (t := 700) multifailure 5 (by decide) (by decide)
  have hsurvivors : multifailure.survivors 5 = [0, 1, 7, 8, 9] := by decide
  have hlist := hlists 0 (by decide) (by decide)
  rw [hsurvivors] at hlist
  exact hlist

end Cluster

/-! ## `Grader.sh` -/

namespace Grader

/-- `grep removed dbg.log | sort -u` -/
def removed (log : List LogLine) : List LogLine :=
  (log.filter fun
    | .nodeRemove .. => true
    | .nodeAdd .. => false).dedup

/-- `grep` for an address. -/
def names (node : Address) : LogLine → Bool
  | .nodeAdd thisNode addedAddr _ => thisNode = node || addedAddr = node
  | .nodeRemove thisNode removedAddr _ => thisNode = node || removedAddr = node

def failcount (log : List LogLine) (failednode : Address) : Nat :=
  ((removed log).filter (names failednode)).length

def accuracycount (log : List LogLine) (failednode : Address) : Nat :=
  ((removed log).filter fun line => !names failednode line).length

/-- Who joined, as who noticed it. -/
def joined : LogLine → Option (Address × Address)
  | .nodeAdd thisNode addedAddr _ => some (thisNode, addedAddr)
  | .nodeRemove .. => none

def joincount (log : List LogLine) : Nat :=
  (log.filterMap joined).dedup.length

def joinfrom (log : List LogLine) : List Address :=
  ((log.filterMap joined).map Prod.fst).dedup

def jointo (log : List LogLine) (i : Address) : List Address :=
  (((log.filterMap joined).filter fun pair => pair.1 = i && pair.2 != i).map Prod.snd).dedup

def checkJoin (log : List LogLine) : Nat :=
  if joincount log = 100 then 10
  else if (joinfrom log).countP (fun i => (jointo log i).length = 9) = 10 then 10
  else 0

/-- The grade for the single failure scenario. -/
def single (log : List LogLine) (failednode : Address) : Nat :=
  checkJoin log + (if failcount log failednode ≥ 9 then 10 else 0) +
    if accuracycount log failednode = 0 ∧ failcount log failednode > 0 then 10 else 0

/-- The completeness loop of the multi failure scenario. -/
def completeness (log : List LogLine) : List Address → Nat → Nat
  | [], _ => 0
  | i :: failednode, cnt =>
      (if failcount log i ≥ 5 then 2 else 0) +
        if cnt + 1 > 5 then 0 else completeness log failednode (cnt + 1)

/-- The accuracy loop. -/
def accuracy (log : List LogLine) : List Address → Nat → Nat
  | [], tmp => tmp
  | i :: failednode, tmp =>
      let tmp := if accuracycount log i = 20 then tmp + 2 else tmp
      if tmp > 9 then tmp else accuracy log failednode tmp

def multi (log : List LogLine) (failednode : List Address) : Nat :=
  checkJoin log + completeness log failednode 0 + accuracy log failednode 0

/-! ## The grade of a test case -/

variable {par : Params} {drawn t i j : Nat}

theorem mem_removed {log : List LogLine} {line : LogLine} :
    line ∈ removed log ↔ line ∈ log ∧ ∃ a b now, line = .nodeRemove a b now := by
  rw [removed, List.mem_dedup, List.mem_filter]
  cases line <;> simp

theorem nodup_removed (log : List LogLine) : (removed log).Nodup := List.nodup_dedup _

theorem filter_product {α β : Type} (p : α → Bool) (l₁ : List α) (l₂ : List β) :
    (l₁ ×ˢ l₂).filter (fun pair => p pair.1) = l₁.filter p ×ˢ l₂ := by
  induction l₁ with
  | nil => rfl
  | cons a l₁ ih =>
      rw [List.product_cons, List.filter_append, ih, List.filter_map, List.filter_cons]
      by_cases ha : p a = true
      · rw [if_pos ha, List.product_cons]
        congr 2
        exact List.filter_eq_self.mpr fun _ _ => ha
      · rw [if_neg ha]
        have hnone : (l₂.filter ((fun pair => p pair.1) ∘ fun b => (a, b))) = [] :=
          List.filter_eq_nil_iff.mpr fun _ _ => ha
        rw [hnone]
        rfl

theorem length_filter_failed (hj : j ∈ par.failed drawn) :
    ((par.failed drawn).filter fun k => decide (k = j)).length = 1 := by
  rw [← List.countP_eq_length_filter]
  exact List.count_eq_one_of_mem (List.nodup_range.filter _) hj

section Removed

variable {log : List LogLine} {r : Nat → Nat} (hn : par.enGpsz < 256)
  (hlines : ∀ a b (now : Int), .nodeRemove a b now ∈ log ↔
    ∃ i < par.enGpsz, ∃ j < par.enGpsz, par.removed drawn i = false ∧
      par.removed drawn j = true ∧ a = nodeAddr i ∧ b = nodeAddr j ∧ now = r j)

include hn hlines

theorem removed_perm : (removed log).Perm ((par.failed drawn ×ˢ par.survivors drawn).map
    fun pair => .nodeRemove (nodeAddr pair.2) (nodeAddr pair.1) (r pair.1)) := by
  have hnodup : ((par.failed drawn ×ˢ par.survivors drawn).map fun pair =>
      LogLine.nodeRemove (nodeAddr pair.2) (nodeAddr pair.1) (r pair.1)).Nodup := by
    apply List.Nodup.map_on _
      ((List.nodup_range.filter _).product (List.nodup_range.filter _))
    rintro ⟨j, i⟩ hpair ⟨j', i'⟩ hpair' heq
    obtain ⟨hj, hi⟩ := List.mem_product.mp hpair
    obtain ⟨hj', hi'⟩ := List.mem_product.mp hpair'
    obtain ⟨hi₂, hj₂, -⟩ := LogLine.nodeRemove.inj heq
    rw [(nodeAddr_inj hn (Params.mem_survivors.mp hi).1 (Params.mem_survivors.mp hi').1).mp hi₂,
      (nodeAddr_inj hn (Params.mem_failed.mp hj).1 (Params.mem_failed.mp hj').1).mp hj₂]
  apply (List.perm_ext_iff_of_nodup (nodup_removed log) hnodup).mpr
  intro line
  rw [mem_removed, List.mem_map]
  constructor
  · rintro ⟨hline, a, b, now, rfl⟩
    obtain ⟨i, hi, j, hj, hsurvived, hfailed, rfl, rfl, rfl⟩ := (hlines a b now).mp hline
    exact ⟨(j, i), List.mem_product.mpr ⟨Params.mem_failed.mpr ⟨hj, hfailed⟩,
      Params.mem_survivors.mpr ⟨hi, hsurvived⟩⟩, rfl⟩
  · rintro ⟨⟨j, i⟩, hpair, rfl⟩
    obtain ⟨hj, hi⟩ := List.mem_product.mp hpair
    obtain ⟨hj, hfailed⟩ := Params.mem_failed.mp hj
    obtain ⟨hi, hsurvived⟩ := Params.mem_survivors.mp hi
    exact ⟨(hlines _ _ _).mpr ⟨i, hi, j, hj, hsurvived, hfailed, rfl, rfl, rfl⟩, _, _, _, rfl⟩

omit hlines in
theorem names_iff (hpair : (j, i) ∈ par.failed drawn ×ˢ par.survivors drawn) {k : Nat}
    (hk : k ∈ par.failed drawn) :
    names (nodeAddr k) (.nodeRemove (nodeAddr i) (nodeAddr j) (r j)) = decide (j = k) := by
  obtain ⟨hj, hi⟩ := List.mem_product.mp hpair
  obtain ⟨hltj, -⟩ := Params.mem_failed.mp hj
  obtain ⟨hlti, hsurvived⟩ := Params.mem_survivors.mp hi
  obtain ⟨hltk, hfailed⟩ := Params.mem_failed.mp hk
  have hne : i ≠ k := by
    rintro rfl
    rw [hfailed] at hsurvived
    cases hsurvived
  simp only [names, nodeAddr_inj hn hlti hltk, nodeAddr_inj hn hltj hltk, hne, decide_false,
    Bool.false_or]

/-- Among the lines those about a failed node are those of its column. -/
theorem length_filter_removed (p : Bool → Bool) (hj : j ∈ par.failed drawn) :
    ((removed log).filter fun line => p (names (nodeAddr j) line)).length =
      ((par.failed drawn).filter fun k => p (decide (k = j))).length *
        (par.survivors drawn).length := by
  rw [((removed_perm hn hlines).filter _).length_eq, List.filter_map, List.length_map,
    ← List.length_product, ← filter_product]
  congr 1
  apply List.filter_congr
  rintro ⟨k, i⟩ hpair
  exact congrArg p (names_iff hn hpair hj)

theorem failcount_eq (hj : j ∈ par.failed drawn) :
    failcount log (nodeAddr j) = (par.survivors drawn).length := by
  have hcount := length_filter_removed hn hlines id hj
  dsimp only [id] at hcount
  rw [length_filter_failed hj, Nat.one_mul] at hcount
  exact hcount

theorem accuracycount_eq (hj : j ∈ par.failed drawn) :
    accuracycount log (nodeAddr j) =
      ((par.failed drawn).length - 1) * (par.survivors drawn).length := by
  have hcount := length_filter_removed hn hlines (!·) hj
  have hone := length_filter_failed hj
  have hrest := List.length_eq_length_filter_add (l := par.failed drawn) fun k => decide (k = j)
  rw [show ((par.failed drawn).filter fun k => !decide (k = j)).length =
    (par.failed drawn).length - 1 by omega] at hcount
  exact hcount

end Removed

section Joined

variable {log : List LogLine} {n : Nat} (hn : n < 256)
  (hjoined : ∀ i < n, ∀ j < n, i ≠ j → ∃ now, .nodeAdd (nodeAddr i) (nodeAddr j) now ∈ log)
  (honly : ∀ a b (now : Int), .nodeAdd a b now ∈ log →
    ∃ i < n, ∃ j < n, a = nodeAddr i ∧ b = nodeAddr j)

theorem mem_joined {a b : Address} :
    (a, b) ∈ log.filterMap joined ↔ ∃ now, .nodeAdd a b now ∈ log := by
  rw [List.mem_filterMap]
  constructor
  · rintro ⟨line, hline, heq⟩
    cases line with
    | nodeAdd a' b' now =>
        obtain ⟨rfl, rfl⟩ := Prod.mk.inj (Option.some.inj heq)
        exact ⟨now, hline⟩
    | nodeRemove => cases heq
  · rintro ⟨now, hline⟩
    exact ⟨_, hline, rfl⟩

include hn hjoined honly

theorem length_jointo (hi : i < n) : (jointo log (nodeAddr i)).length = n - 1 := by
  have hnodup : (((List.range n).erase i).map nodeAddr).Nodup := by
    apply List.Nodup.map_on _ (List.nodup_range.erase i)
    intro j hj k hk heq
    exact (nodeAddr_inj hn (List.mem_range.mp (List.mem_of_mem_erase hj))
      (List.mem_range.mp (List.mem_of_mem_erase hk))).mp heq
  have hperm : (jointo log (nodeAddr i)).Perm (((List.range n).erase i).map nodeAddr) := by
    apply (List.perm_ext_iff_of_nodup (List.nodup_dedup _) hnodup).mpr
    intro b
    rw [List.mem_dedup, List.mem_map, List.mem_map]
    constructor
    · rintro ⟨⟨a, b⟩, hpair, rfl⟩
      obtain ⟨hmem, hcond⟩ := List.mem_filter.mp hpair
      obtain ⟨now, hline⟩ := mem_joined.mp hmem
      obtain ⟨k, hk, j, hj, rfl, rfl⟩ := honly _ _ _ hline
      obtain ⟨-, hne⟩ : nodeAddr k = nodeAddr i ∧ nodeAddr j ≠ nodeAddr i := by simpa using hcond
      refine ⟨j, (List.nodup_range.mem_erase_iff).mpr ⟨?_, List.mem_range.mpr hj⟩, rfl⟩
      rintro rfl
      exact hne rfl
    · rintro ⟨j, hj, rfl⟩
      obtain ⟨hne, hj⟩ := (List.nodup_range.mem_erase_iff).mp hj
      rw [List.mem_range] at hj
      obtain ⟨now, hline⟩ := hjoined i hi j hj (Ne.symm hne)
      refine ⟨(nodeAddr i, nodeAddr j), List.mem_filter.mpr ⟨mem_joined.mpr ⟨now, hline⟩, ?_⟩, rfl⟩
      simp [nodeAddr_inj hn hj hi, hne]
  rw [hperm.length_eq, List.length_map, List.length_erase_of_mem (List.mem_range.mpr hi),
    List.length_range]

theorem joinfrom_perm (htwo : 2 ≤ n) : (joinfrom log).Perm ((List.range n).map nodeAddr) := by
  have hnodup : ((List.range n).map nodeAddr).Nodup :=
    List.Nodup.map_on (fun j hj k hk heq => (nodeAddr_inj hn (List.mem_range.mp hj)
      (List.mem_range.mp hk)).mp heq) List.nodup_range
  apply (List.perm_ext_iff_of_nodup (List.nodup_dedup _) hnodup).mpr
  intro a
  rw [List.mem_dedup, List.mem_map, List.mem_map]
  constructor
  · rintro ⟨⟨a, b⟩, hpair, rfl⟩
    obtain ⟨now, hline⟩ := mem_joined.mp hpair
    obtain ⟨i, hi, -, -, rfl, -⟩ := honly _ _ _ hline
    exact ⟨i, List.mem_range.mpr hi, rfl⟩
  · rintro ⟨i, hi, rfl⟩
    rw [List.mem_range] at hi
    -- somebody else is there to be noticed
    obtain ⟨j, hj, hij⟩ : ∃ j < n, i ≠ j := by
      by_cases h0 : i = 0
      · exact ⟨1, by omega, by omega⟩
      · exact ⟨0, by omega, h0⟩
    obtain ⟨now, hline⟩ := hjoined i hi j hj hij
    exact ⟨_, mem_joined.mpr ⟨now, hline⟩, rfl⟩

end Joined

theorem checkJoin_eq {log : List LogLine}
    (hjoined : ∀ i < 10, ∀ j < 10, i ≠ j → ∃ now, .nodeAdd (nodeAddr i) (nodeAddr j) now ∈ log)
    (honly : ∀ a b (now : Int), .nodeAdd a b now ∈ log →
      ∃ i < 10, ∃ j < 10, a = nodeAddr i ∧ b = nodeAddr j) : checkJoin log = 10 := by
  have hperm := joinfrom_perm (by decide) hjoined honly (by decide)
  have hall : (joinfrom log).countP (fun i => (jointo log i).length = 9) = 10 := by
    rw [List.countP_eq_length.mpr, hperm.length_eq]
    · rfl
    · intro a ha
      obtain ⟨i, hi, rfl⟩ := List.mem_map.mp (hperm.subset ha)
      exact decide_eq_true (length_jointo (by decide) hjoined honly (List.mem_range.mp hi))
  rw [checkJoin, if_pos hall]
  exact ite_self 10

theorem completeness_eq {log : List LogLine} {l : List Address} (hall : ∀ a ∈ l, failcount log a ≥ 5)
    {cnt : Nat} (hcnt : l.length + cnt ≤ 5) : completeness log l cnt = 2 * l.length := by
  induction l generalizing cnt with
  | nil => rfl
  | cons a l ih =>
      rw [List.length_cons] at hcnt ⊢
      rw [completeness, if_pos (hall a List.mem_cons_self), if_neg (by omega),
        ih (fun b hb => hall b (List.mem_cons_of_mem _ hb)) (by omega)]
      omega

theorem accuracy_eq {log : List LogLine} {l : List Address}
    (hall : ∀ a ∈ l, accuracycount log a = 20) {tmp : Nat} (htmp : tmp + 2 * l.length ≤ 10) :
    accuracy log l tmp = tmp + 2 * l.length := by
  induction l generalizing tmp with
  | nil => rfl
  | cons a l ih =>
      rw [List.length_cons] at htmp ⊢
      simp only [accuracy, hall a List.mem_cons_self, if_true]
      by_cases hlast : tmp + 2 > 9
      · rw [if_pos hlast]
        omega
      · rw [if_neg hlast, ih (fun b hb => hall b (List.mem_cons_of_mem _ hb)) (by omega)]
        omega

theorem length_failed (single : Bool) (drawn : Nat) :
    ((Params.mk 10 single).failed drawn).length = (if single then 1 else 5) ∧
      ((Params.mk 10 single).survivors drawn).length = if single then 9 else 5 := by
  have hlt : drawn % 10 < 10 := Nat.mod_lt _ (by decide)
  have hmod : (Params.mk 10 single).removed drawn = (Params.mk 10 single).removed (drawn % 10) := by
    funext i
    simp only [Params.removed, Nat.mod_mod]
  rw [Params.failed, Params.survivors, hmod]
  clear hmod
  generalize drawn % 10 = d at hlt ⊢
  revert d
  cases single <;> decide

section Marks

variable {log : List LogLine} {r : Nat → Nat}
  (hlines : ∀ a b (now : Int), .nodeRemove a b now ∈ log ↔
    ∃ i < par.enGpsz, ∃ j < par.enGpsz, par.removed drawn i = false ∧
      par.removed drawn j = true ∧ a = nodeAddr i ∧ b = nodeAddr j ∧ now = r j)
  (hjoin : checkJoin log = 10) (hten : par.enGpsz = 10)

include hlines hjoin hten

theorem single_eq (hsingle : par.singleFailure = true) (hj : j ∈ par.failed drawn) :
    Grader.single log (nodeAddr j) = 30 := by
  obtain ⟨n, single⟩ := par
  obtain rfl : n = 10 := hten
  obtain rfl : single = true := hsingle
  obtain ⟨hfailed, hsurvivors⟩ := length_failed true drawn
  rw [Grader.single, hjoin, failcount_eq (by decide) hlines hj,
    accuracycount_eq (by decide) hlines hj, hfailed, hsurvivors]
  rfl

theorem multi_eq (hmulti : par.singleFailure = false) {failednode : List Address}
    (hperm : failednode.Perm ((par.failed drawn).map nodeAddr)) : multi log failednode = 30 := by
  obtain ⟨n, single⟩ := par
  obtain rfl : n = 10 := hten
  obtain rfl : single = false := hmulti
  obtain ⟨hfailed, hsurvivors⟩ := length_failed false drawn
  have hlength : failednode.length = 5 := by
    rw [hperm.length_eq, List.length_map, hfailed]
    rfl
  have hcounts : ∀ a ∈ failednode, failcount log a = 5 ∧ accuracycount log a = 20 := by
    intro a ha
    obtain ⟨j, hj, rfl⟩ := List.mem_map.mp (hperm.subset ha)
    rw [failcount_eq (by decide) hlines hj, accuracycount_eq (by decide) hlines hj, hfailed,
      hsurvivors]
    exact ⟨rfl, rfl⟩
  rw [multi, hjoin, completeness_eq (fun a ha => (hcounts a ha).1.ge) (by omega),
    accuracy_eq (fun a ha => (hcounts a ha).2) (by omega), hlength]

end Marks

/-- Whatever `rand` returned, the grader finds that each node of the group noticed all others join,
that each node that failed was removed by all that survived, and no removal besides; so that the
log of a group of ten gets full marks. -/
theorem full_marks (par : Params) (drawn : Nat) (hn : par.enGpsz ≤ 10) (htwo : 2 ≤ par.enGpsz)
    (ht : 122 < t) :
    let log := (Cluster.run (par.environment drawn) par.enGpsz t).log
    (joinfrom log).Perm ((List.range par.enGpsz).map nodeAddr) ∧
      (∀ i < par.enGpsz, (jointo log (nodeAddr i)).length = par.enGpsz - 1) ∧
      (∀ j ∈ par.failed drawn, failcount log (nodeAddr j) = (par.survivors drawn).length ∧
        accuracycount log (nodeAddr j) =
          ((par.failed drawn).length - 1) * (par.survivors drawn).length) ∧
      (par.enGpsz = 10 →
        (par.singleFailure = true →
          ∀ j ∈ par.failed drawn, Grader.single log (nodeAddr j) = 30) ∧
        (par.singleFailure = false → ∀ failednode : List Address,
          failednode.Perm ((par.failed drawn).map nodeAddr) → multi log failednode = 30)) := by
  intro log
  have hok := Cluster.refused_testCase hn drawn t
  have hn : par.enGpsz < 256 := by omega
  obtain ⟨r, -, hlines⟩ := Cluster.removals hn ht hok
  have hjoined : ∀ i < par.enGpsz, ∀ j < par.enGpsz, i ≠ j →
      ∃ now, .nodeAdd (nodeAddr i) (nodeAddr j) now ∈ log :=
    fun i hi j hj hij => Cluster.exists_joined hn ht hok hi hj hij
  have honly : ∀ a b (now : Int), .nodeAdd a b now ∈ log →
      ∃ i < par.enGpsz, ∃ j < par.enGpsz, a = nodeAddr i ∧ b = nodeAddr j :=
    fun a b now hline => Cluster.of_nodeAdd hn hline
  refine ⟨joinfrom_perm hn hjoined honly htwo, fun i hi => length_jointo hn hjoined honly hi,
    fun j hj => ⟨failcount_eq hn hlines hj, accuracycount_eq hn hlines hj⟩, fun hten => ?_⟩
  have hjoin : checkJoin log = 10 := by
    rw [hten] at hjoined honly
    exact checkJoin_eq hjoined honly
  exact ⟨fun hsingle j hj => single_eq hlines hjoin hten hsingle hj,
    fun hmulti failednode hperm => multi_eq hlines hjoin hten hmulti hperm⟩

/-- The two test cases, to the end of the run. -/
theorem full_marks_testcases :
    Grader.single (Cluster.run (Cluster.singlefailure.environment 5) 10 700).log (nodeAddr 5) =
        30 ∧
      multi (Cluster.run (Cluster.multifailure.environment 5) 10 700).log
        ([2, 3, 4, 5, 6].map nodeAddr) = 30 := by
  obtain ⟨-, -, -, hsingle⟩ := full_marks (t := 700) Cluster.singlefailure 5 (by decide)
    (by decide) (by decide)
  obtain ⟨-, -, -, hmulti⟩ := full_marks (t := 700) Cluster.multifailure 5 (by decide)
    (by decide) (by decide)
  have hfailed : Cluster.multifailure.failed 5 = [2, 3, 4, 5, 6] := by decide
  refine ⟨(hsingle rfl).1 rfl 5 (by decide), (hmulti rfl).2 rfl _ ?_⟩
  rw [hfailed]

end Grader

end CloudComputing.MembershipProtocol
