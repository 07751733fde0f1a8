import Mathlib.Data.Finset.Max
import Mathlib.Data.Int.LeastGreatest
import Mathlib.Order.Bounds.Basic
import CloudComputing.Lib.ListScheduling
import CloudComputing.Minidc.Policy

/-!
# What the adaptive policy balances

`redistribute` schedules hosts on core switches: largest first, each on the
switch that is used least.  The bytes a switch is said to carry are those of the
hosts assigned to it, and no assignment makes the busiest switch much less busy.
-/

namespace CloudComputing.Minidc

open Lib

namespace AdaptivePolicy

/-- `redistribute` after the reset; the interpreter may keep the switches in any order. -/
def redistributeOver (utilization : Dict Str Int) (hostBw : Dict Str HostBw)
    (policy : AdaptivePolicy) : Option AdaptivePolicy :=
  (stats hostBw).foldlM assign { policy with utilization := utilization }

/-- `u` is the dictionary after the reset, in some order. -/
def ResetTo (topo : Topology) (policy : AdaptivePolicy) (u : Dict Str Int) : Prop :=
  u.entries.Perm (reset topo.coreSwitches.keys policy.utilization).entries

/-- What a policy can be: `utilization` is empty at first, and in the class `redistribute` alone
writes to it.  Values written from outside, as the self-test of the module does, are not covered. -/
inductive State (topo : Topology) : AdaptivePolicy → Prop
  | new (assignments : Dict Str Str) : State topo ⟨assignments, ∅⟩
  | redistribute {policy policy' : AdaptivePolicy} {u : Dict Str Int} (hostBw : Dict Str HostBw) :
      State topo policy → ResetTo topo policy u →
      redistributeOver u hostBw policy = some policy' → State topo policy'
  | reorder {policy policy' : AdaptivePolicy} : State topo policy →
      policy'.assignments.entries.Perm policy.assignments.entries →
      policy'.utilization.entries.Perm policy.utilization.entries → State topo policy'

/-- What a core switch carries, in or out of the record `utilization`; zero outside. -/
def figure (policy : AdaptivePolicy) (core : Option Str) : ℤ :=
  (core.bind policy.utilization.lookup).getD 0

def coreOf (policy : AdaptivePolicy) (host : Str) : Option Str :=
  policy.assignments.lookup host

def machines (cores : List Str) : Finset (Option Str) :=
  (cores.map some).toFinset

variable {topo : Topology} {policy policy' : AdaptivePolicy} {hostBw : Dict Str HostBw}
  {stat : Int × Str} {utilization u : Dict Str Int} {cores : List Str} {core c d k host : Str}

@[simp] theorem mem_machines : some c ∈ machines cores ↔ c ∈ cores := by
  simp [machines]

theorem card_machines (h : cores.Nodup) : (machines cores).card = cores.length := by
  rw [machines, List.toFinset_card_of_nodup, List.length_map]
  exact h.map (Option.some_injective _)

/-! ## The least used switch -/

theorem foldl_lesser_le {l : List (Σ _ : Str, Int)} {best : Figure × Option Str}
    {seen : List (Σ _ : Str, Int)}
    (hbest : ∃ e ∈ seen, best = (toLex (.inl e.2), some e.1) ∧ ∀ e' ∈ seen, e.2 ≤ e'.2) :
    ∃ e ∈ seen ++ l, (l.foldl lesser best).2 = some e.1 ∧ ∀ e' ∈ seen ++ l, e.2 ≤ e'.2 := by
  induction l generalizing best seen with
  | nil =>
      obtain ⟨e, he, rfl, hle⟩ := hbest
      rw [List.append_nil]
      exact ⟨e, he, rfl, hle⟩
  | cons x l ih =>
      have happend : seen ++ x :: l = (seen ++ [x]) ++ l := by simp
      rw [List.foldl_cons, happend]
      apply ih
      obtain ⟨e, he, rfl, hle⟩ := hbest
      unfold lesser
      split
      case isTrue hlt =>
        have hlt' : x.2 < e.2 := by simpa using hlt
        refine ⟨x, by simp, rfl, fun e' he' => ?_⟩
        rcases List.mem_append.mp he' with he' | he'
        · exact hlt'.le.trans (hle e' he')
        · rw [List.mem_singleton.mp he']
      case isFalse hlt =>
        have hle' : e.2 ≤ x.2 := by simpa using hlt
        refine ⟨e, List.mem_append_left _ he, rfl, fun e' he' => ?_⟩
        rcases List.mem_append.mp he' with he' | he'
        · exact hle e' he'
        · rwa [List.mem_singleton.mp he']

/-- The first comparison is one with a text, which is greater than every number; so the search
returns a switch, and one that is used least. -/
theorem minUtilization_least (h : utilization.keys ≠ []) : ∃ core used,
    minUtilization utilization = some (some core) ∧ utilization.lookup core = some used ∧
      ∀ d v, utilization.lookup d = some v → used ≤ v := by
  obtain ⟨first, hfirst⟩ : ∃ e, utilization.entries.head? = some e := by
    cases hentries : utilization.entries with
    | nil => exact absurd (by rw [AList.keys, hentries]; rfl) h
    | cons e _ => exact ⟨e, rfl⟩
  obtain ⟨rest, hrest⟩ : ∃ rest, utilization.entries = first :: rest :=
    ⟨_, List.eq_cons_of_mem_head? hfirst⟩
  have hlesser : lesser (toLex (.inr first.1), none) first = (toLex (.inl first.2), some first.1) := by
    unfold lesser
    rw [if_pos (Sum.Lex.inl_lt_inr _ _)]
  have hbest : ∃ e ∈ [first], (toLex (.inl first.2), some first.1) =
      ((toLex (.inl e.2), some e.1) : Figure × Option Str) ∧ ∀ e' ∈ [first], e.2 ≤ e'.2 :=
    ⟨first, by simp, rfl, by simp⟩
  obtain ⟨e, he, hfound, hle⟩ := foldl_lesser_le (l := rest) hbest
  have hentries : [first] ++ rest = utilization.entries := hrest.symm
  rw [hentries] at he hle
  refine ⟨e.1, e.2, ?_, Dict.mem_entries_iff.mp he, ?_⟩
  · have hkeys : utilization.keys.head? = some first.1 := by
      rw [AList.keys, hrest]
      rfl
    rw [minUtilization, hkeys, Option.map_some, hrest, List.foldl_cons, hlesser, hfound]
  · intro d v hd
    exact hle ⟨d, v⟩ (Dict.mem_entries_iff.mpr hd)

/-! ## The loop -/

theorem figure_of_lookup {v : Int} (h : policy.utilization.lookup c = some v) :
    policy.figure (some c) = v := by
  rw [figure, Option.bind_some, h, Option.getD_some]

/-- One turn: the host goes to a switch that is used least, and nothing else changes. -/
theorem exists_assign (h : policy.utilization.keys ≠ []) (stat : Int × Str) : ∃ core policy',
    policy.assign stat = some policy' ∧ core ∈ policy.utilization ∧
      policy'.assignments = Dict.set stat.2 core policy.assignments ∧
      policy'.utilization.keys = policy.utilization.keys ∧
      (∀ d ∈ machines policy.utilization.keys, policy.figure (some core) ≤ policy.figure d) ∧
      ∀ d, policy'.figure d = policy.figure d + if some core = d then stat.1 else 0 := by
  obtain ⟨core, used, hmin, hused, hleast⟩ := minUtilization_least h
  have hmem : core ∈ policy.utilization := Dict.mem_of_lookup hused
  refine ⟨core, ⟨Dict.set stat.2 core policy.assignments,
    Dict.set core (used + stat.1) policy.utilization⟩, ?_, hmem, rfl,
    Dict.keys_set_of_mem hmem, fun d hd => ?_, fun d => ?_⟩
  · rw [assign, hmin]
    simp only [Option.bind_eq_bind, Option.bind_some, hused]
    rfl
  · obtain ⟨d, hkey, rfl⟩ := List.mem_map.mp (List.mem_toFinset.mp hd)
    obtain ⟨v, hv⟩ :=
      Option.isSome_iff_exists.mp (AList.lookup_isSome.mpr (AList.mem_keys.mpr hkey))
    rw [figure_of_lookup hused, figure_of_lookup hv]
    exact hleast d v hv
  · cases d with
    | none => simp [figure]
    | some d =>
        by_cases hd : d = core
        · subst hd
          rw [figure_of_lookup Dict.lookup_set_self, figure_of_lookup hused, if_pos rfl]
        · have hne : some core ≠ some d := fun heq => hd (Option.some.inj heq).symm
          rw [if_neg hne, add_zero]
          simp only [figure, Option.bind_some, Dict.lookup_set_ne hd]

/-- The whole loop is a greedy schedule on top of what the switches carried before. -/
theorem exists_assigns (policy : AdaptivePolicy) {l : List (Int × Str)}
    (hkeys : policy.utilization.keys ≠ [])
    (hnodup : (l.map Prod.snd).Nodup) : ∃ policy', l.foldlM assign policy = some policy' ∧
      policy'.utilization.keys = policy.utilization.keys ∧
      (∀ h, h ∉ l.map Prod.snd → policy'.coreOf h = policy.coreOf h) ∧
      (∀ d, policy'.figure d = policy.figure d +
        load (fun s => policy'.coreOf s.2) Prod.fst l d) ∧
      Greedy (machines policy.utilization.keys) policy.figure Prod.fst
        (fun s => policy'.coreOf s.2) l := by
  induction l generalizing policy with
  | nil => exact ⟨policy, rfl, rfl, fun _ _ => rfl, fun d => by simp, greedy_nil⟩
  | cons x l ih =>
      rw [List.map_cons, List.nodup_cons] at hnodup
      obtain ⟨core, policy₁, hassign, hmem, hassigned, hkeys₁, hleast, hfigure⟩ :=
        exists_assign hkeys x
      obtain ⟨policy', hloop, hkeys', hkept, hfigure', hgreedy⟩ := ih policy₁ (hkeys₁ ▸ hkeys) hnodup.2
      have hx : policy'.coreOf x.2 = some core := by
        rw [hkept x.2 hnodup.1, coreOf, hassigned, Dict.lookup_set_self]
      refine ⟨policy', ?_, hkeys'.trans hkeys₁, fun h hh => ?_, fun d => ?_, ?_⟩
      · rw [List.foldlM_cons, hassign]
        exact hloop
      · rw [List.map_cons, List.mem_cons, not_or] at hh
        rw [hkept h hh.2, coreOf, hassigned, Dict.lookup_set_ne hh.1]
        rfl
      · rw [hfigure', hfigure, load_cons, hx, add_assoc]
      · apply greedy_cons
        · rw [hx, mem_machines]
          exact hmem
        · rw [hx]
          exact hleast
        · have hstart : (fun d => policy.figure d +
              if policy'.coreOf x.2 = d then x.1 else 0) = policy₁.figure := by
            funext d
            rw [hfigure, hx]
          rw [hstart, ← hkeys₁]
          exact hgreedy

/-! ## The reset -/

theorem lookup_reset : (reset cores utilization).lookup k =
    if k ∈ cores then some 0 else utilization.lookup k := by
  unfold reset
  induction cores generalizing utilization with
  | nil => simp
  | cons c cores ih =>
      rw [List.foldl_cons, ih, Dict.lookup_set]
      by_cases hmem : k ∈ cores
      · simp [hmem]
      · by_cases hk : k = c <;> simp [hmem, hk]

theorem State.counted (h : State topo policy) :
    ∀ k ∈ policy.utilization, k ∈ topo.coreSwitches.keys := by
  induction h with
  | new => exact fun k hk => absurd hk (AList.notMem_empty k)
  | @redistribute policy policy' u hostBw _ hreset hloop ih =>
      have hcounted : ∀ k ∈ u, k ∈ topo.coreSwitches.keys := by
        intro k hk
        rcases mem_reset.mp ((AList.mem_of_perm hreset).mp hk) with hk | hk
        · exact hk
        · exact ih k hk
      refine foldlM_invariant (P := fun _ p => ∀ k ∈ p.utilization, k ∈ topo.coreSwitches.keys)
        (fun stat rest p p' hp hassign k hk => ?_) hcounted hloop
      unfold assign at hassign
      simp only [Option.bind_eq_bind, Option.bind_eq_some_iff, Option.pure_def,
        Option.some.injEq] at hassign
      obtain ⟨_, _, core, rfl, used, hused, rfl⟩ := hassign
      rcases Dict.mem_set.mp hk with rfl | hk
      · exact hp _ (Dict.mem_of_lookup hused)
      · exact hp k hk
  | reorder _ _ hutilization ih =>
      exact fun k hk => ih k ((AList.mem_of_perm hutilization).mp hk)

/-- After the reset the core switches are counted, and all at zero. -/
theorem State.lookup_resetTo (h : State topo policy) (hu : ResetTo topo policy u) :
    u.lookup k = if k ∈ topo.coreSwitches.keys then some 0 else none := by
  rw [AList.perm_lookup hu, lookup_reset]
  split
  case isTrue => rfl
  case isFalse hk => exact AList.lookup_eq_none.mpr fun hmem => hk (h.counted k hmem)

theorem State.mem_resetTo (h : State topo policy) (hu : ResetTo topo policy u) :
    k ∈ u.keys ↔ k ∈ topo.coreSwitches.keys := by
  rw [← AList.mem_keys, ← AList.lookup_isSome, h.lookup_resetTo hu]
  split <;> simp_all

/-! ## The schedule -/

def hostsOn (assigned : Str → Option Str) (hostBw : Dict Str HostBw) (core : Str) :
    List (Σ _ : Str, HostBw) :=
  hostBw.entries.filter fun e => assigned e.1 = some core

def carried (assigned : Str → Option Str) (hostBw : Dict Str HostBw) (core : Str) : Int :=
  ((hostsOn assigned hostBw core).map fun e => e.2.inBytes).sum

theorem stats_perm : (stats hostBw).Perm (hostBw.entries.map fun e => (e.2.inBytes, e.1)) :=
  List.perm_insertionSort _ _

theorem load_stats (assigned : Str → Option Str) :
    load (fun s => assigned s.2) Prod.fst (stats hostBw) (some c) = carried assigned hostBw c := by
  rw [load_perm stats_perm, load_map]
  rfl

theorem stats_sorted : (stats hostBw).Pairwise fun a b => b.1 ≤ a.1 := by
  have hsorted : (stats hostBw).Pairwise fun a b => toLex b ≤ toLex a :=
    List.pairwise_insertionSort _ _
  apply hsorted.imp
  intro a b hle
  rcases Prod.Lex.toLex_le_toLex.mp hle with hlt | ⟨heq, -⟩
  · exact hlt.le
  · exact heq.le

theorem stats_nodup : ((stats hostBw).map Prod.snd).Nodup := by
  have hperm : ((stats hostBw).map Prod.snd).Perm hostBw.keys := by
    refine (stats_perm.map Prod.snd).trans ?_
    rw [List.map_map]
    exact List.Perm.refl _
  exact hperm.nodup_iff.mpr hostBw.keys_nodup

theorem mem_stats {e : Σ _ : Str, HostBw} (he : e ∈ hostBw.entries) :
    (e.2.inBytes, e.1) ∈ stats hostBw :=
  stats_perm.mem_iff.mpr (List.mem_map_of_mem he)

theorem stats_nonneg (hin : ∀ e ∈ hostBw.entries, 0 ≤ e.2.inBytes) :
    ∀ s ∈ stats hostBw, 0 ≤ s.1 := by
  intro s hs
  obtain ⟨e, he, rfl⟩ := List.mem_map.mp (stats_perm.mem_iff.mp hs)
  exact hin e he

/-- `redistribute` makes a greedy schedule and counts what the switches carry under it. -/
theorem State.exists_schedule (h : State topo policy) (hcores : topo.coreSwitches.keys ≠ [])
    (hu : ResetTo topo policy u) (hostBw : Dict Str HostBw) : ∃ policy',
      redistributeOver u hostBw policy = some policy' ∧
      (∀ c ∈ topo.coreSwitches.keys, policy'.utilization.lookup c =
        some (carried policy'.coreOf hostBw c)) ∧
      Greedy (machines topo.coreSwitches.keys) (fun _ => 0) Prod.fst
        (fun s => policy'.coreOf s.2) (stats hostBw) := by
  have hkeys : u.keys ≠ [] := by
    obtain ⟨c, hc⟩ := List.exists_mem_of_ne_nil _ hcores
    exact List.ne_nil_of_mem ((h.mem_resetTo hu).mpr hc)
  have hmachines : machines u.keys = machines topo.coreSwitches.keys := by
    ext d
    cases d with
    | none => simp [machines]
    | some d => rw [mem_machines, mem_machines, h.mem_resetTo hu]
  have hzero : figure { policy with utilization := u } = fun _ => 0 := by
    funext d
    cases d with
    | none => rfl
    | some d =>
        simp only [figure, Option.bind_some, h.lookup_resetTo hu]
        split <;> rfl
  obtain ⟨policy', hloop, hkeys', -, hfigure, hgreedy⟩ :=
    exists_assigns { policy with utilization := u } hkeys stats_nodup
  rw [hzero] at hfigure hgreedy
  rw [hmachines] at hgreedy
  refine ⟨policy', hloop, fun c hc => ?_, hgreedy⟩
  have hmem : c ∈ policy'.utilization.keys := by
    rw [hkeys']
    exact (h.mem_resetTo hu).mpr hc
  obtain ⟨v, hv⟩ := Option.isSome_iff_exists.mp (AList.lookup_isSome.mpr (AList.mem_keys.mpr hmem))
  have hfigure := hfigure (some c)
  rw [figure_of_lookup hv, zero_add, load_stats] at hfigure
  rw [hv, hfigure]

/-- `redistribute` is one of the orders. -/
theorem redistribute_eq : redistribute topo hostBw policy =
    redistributeOver (reset topo.coreSwitches.keys policy.utilization) hostBw policy := rfl

theorem Reached.state (h : Reached topo policy) : State topo policy := by
  induction h with
  | init hinit =>
      unfold AdaptivePolicy.init at hinit
      simp only [Option.bind_eq_bind, Option.bind_eq_some_iff, Option.pure_def,
        Option.some.injEq] at hinit
      obtain ⟨core, -, table, -, rfl⟩ := hinit
      exact .new _
  | rebuild hostBw _ hread ih =>
      unfold routingTable at hread
      simp only [Option.bind_eq_bind, Option.bind_eq_some_iff, Option.pure_def,
        Option.some.injEq] at hread
      obtain ⟨policy₁, hredistribute, table, -, heq⟩ := hread
      obtain ⟨rfl, -⟩ := Prod.mk.inj heq
      exact .redistribute hostBw ih (List.Perm.refl _) hredistribute
  | reorder _ hassignments hutilization ih => exact .reorder ih hassignments hutilization

/-! ## Load is conserved and balanced -/

/-- Every recorded host is on one core switch, a switch is said to carry what its hosts receive,
and without its smallest host it carries no more than any other. -/
structure Balanced (topo : Topology) (hostBw : Dict Str HostBw) (policy : AdaptivePolicy) :
    Prop where
  assigned : ∀ host ∈ hostBw.keys, ∃ core ∈ topo.coreSwitches.keys,
    policy.coreOf host = some core
  conserved : ∀ c ∈ topo.coreSwitches.keys, policy.utilization.lookup c =
    some (carried policy.coreOf hostBw c)
  balanced : ∀ c ∈ topo.coreSwitches.keys, ∀ d ∈ topo.coreSwitches.keys, ∀ onC onD,
    policy.utilization.lookup c = some onC → policy.utilization.lookup d = some onD →
    ∀ e ∈ hostsOn policy.coreOf hostBw c,
      (∀ e' ∈ hostsOn policy.coreOf hostBw c, e.2.inBytes ≤ e'.2.inBytes) →
      onC - e.2.inBytes ≤ onD

/-- Whatever a policy was before, what is recorded is distributed evenly. -/
theorem redistribute_balanced (h : State topo policy) (hcores : topo.coreSwitches.keys ≠ [])
    (hu : ResetTo topo policy u) (hin : ∀ e ∈ hostBw.entries, 0 ≤ e.2.inBytes) :
    ∃ policy', redistributeOver u hostBw policy = some policy' ∧ Balanced topo hostBw policy' := by
  obtain ⟨policy', hloop, hconserved, hgreedy⟩ := h.exists_schedule hcores hu hostBw
  refine ⟨policy', hloop, ?_, hconserved, ?_⟩
  · intro host hhost
    obtain ⟨e, he, rfl⟩ := List.mem_map.mp hhost
    have hmem := hgreedy.mem (mem_stats he)
    obtain ⟨core, hcore, heq⟩ := List.mem_map.mp (List.mem_toFinset.mp hmem)
    exact ⟨core, hcore, heq.symm⟩
  · intro c hc d hd onC onD honC honD e he hleast
    obtain ⟨he, hec⟩ := List.mem_filter.mp he
    have hec' : policy'.coreOf e.1 = some c := by simpa using hec
    have hstat : ∀ s ∈ stats hostBw, policy'.coreOf s.2 =
        policy'.coreOf e.1 → e.2.inBytes ≤ s.1 := by
      intro s hs hsame
      obtain ⟨e', he', rfl⟩ := List.mem_map.mp (stats_perm.mem_iff.mp hs)
      exact hleast e' (List.mem_filter.mpr ⟨he', by simpa [hec'] using hsame⟩)
    have hbalanced := hgreedy.balanced stats_sorted (stats_nonneg hin) (mem_stats he) hstat
      (mem_machines.mpr hd)
    simp only [hec', load_stats] at hbalanced
    obtain rfl := Option.some.inj ((hconserved c hc).symm.trans honC)
    obtain rfl := Option.some.inj ((hconserved d hd).symm.trans honD)
    exact hbalanced

/-- Some recorded hosts, the policy before anything was recorded, and one that was made for other
figures. -/
def sampleBw : Dict Str HostBw :=
  Dict.set ['h', '1'] ⟨7, 0⟩ (Dict.set ['h', '3'] ⟨5, 2⟩ (Dict.set ['h', '6'] ⟨5, 1⟩ ∅))

def samplePolicy : AdaptivePolicy := ⟨∅, ∅⟩

def earlierPolicy : AdaptivePolicy :=
  (redistributeOver (reset sampleTopology.coreSwitches.keys samplePolicy.utilization)
    (Dict.set ['h', '1'] ⟨2, 0⟩ (Dict.set ['h', '3'] ⟨9, 1⟩ ∅)) samplePolicy).get (by decide)

theorem redistribute_balanced_sample : ∃ policy', redistributeOver
    (reset sampleTopology.coreSwitches.keys earlierPolicy.utilization) sampleBw earlierPolicy =
      some policy' ∧ Balanced sampleTopology sampleBw policy' :=
  redistribute_balanced (.redistribute _ (.new ∅) (List.Perm.refl _) (Option.some_get _).symm)
    (by decide) (List.Perm.refl _) (by decide)

/-! ## The busiest switch -/

def Busiest (cores : List Str) (figure : Str → ℤ) (x : ℤ) : Prop :=
  IsGreatest {y | ∃ c ∈ cores, figure c = y} x

/-- What the busiest switch carries, over all assignments of the recorded hosts to core switches. -/
def makespans (topo : Topology) (hostBw : Dict Str HostBw) : Set ℤ :=
  {x | ∃ assigned : Str → Str, (∀ host ∈ hostBw.keys, assigned host ∈ topo.coreSwitches.keys) ∧
    Busiest topo.coreSwitches.keys (carried (fun host => some (assigned host)) hostBw) x}

theorem exists_busiest (h : cores ≠ []) (figure : Str → ℤ) : ∃ x, Busiest cores figure x := by
  have hfigures : (cores.toFinset.image figure).Nonempty := by
    obtain ⟨c, hc⟩ := List.exists_mem_of_ne_nil _ h
    exact ⟨figure c, Finset.mem_image_of_mem _ (List.mem_toFinset.mpr hc)⟩
  have hset : {y | ∃ c ∈ cores, figure c = y} = ↑(cores.toFinset.image figure) := by
    ext y
    simp
  refine ⟨(cores.toFinset.image figure).max' hfigures, ?_⟩
  rw [Busiest, hset]
  exact Finset.isGreatest_max' _ hfigures

theorem carried_nonneg {assigned : Str → Option Str} (hin : ∀ e ∈ hostBw.entries, 0 ≤ e.2.inBytes) :
    0 ≤ carried assigned hostBw c := by
  rw [← load_stats]
  exact load_nonneg (stats_nonneg hin)

theorem exists_optimum (hcores : topo.coreSwitches.keys ≠ [])
    (hin : ∀ e ∈ hostBw.entries, 0 ≤ e.2.inBytes) : ∃ opt, IsLeast (makespans topo hostBw) opt := by
  obtain ⟨c, hc⟩ := List.exists_mem_of_ne_nil _ hcores
  obtain ⟨x, hx⟩ := exists_busiest hcores (carried (fun _ => some c) hostBw)
  have hbounded : ∀ y, y ∈ makespans topo hostBw → 0 ≤ y := by
    rintro y ⟨assigned, -, hbusiest⟩
    obtain ⟨d, -, rfl⟩ := hbusiest.1
    exact carried_nonneg hin
  obtain ⟨opt, hopt, hleast⟩ :=
    Int.exists_least_of_bdd ⟨0, hbounded⟩ ⟨x, fun _ => c, fun _ _ => hc, hx⟩
  exact ⟨opt, hopt, hleast⟩

/-- With `m` core switches the busiest one carries at most `4/3 - 1/(3m)` of what the busiest one
carries under the best assignment. -/
theorem redistribute_near_optimal (h : State topo policy) (hcores : topo.coreSwitches.keys ≠ [])
    (hu : ResetTo topo policy u) (hin : ∀ e ∈ hostBw.entries, 0 ≤ e.2.inBytes) :
    ∃ policy' most opt, redistributeOver u hostBw policy = some policy' ∧
      IsGreatest {x | ∃ c ∈ topo.coreSwitches.keys, policy'.utilization.lookup c = some x} most ∧
      IsLeast (makespans topo hostBw) opt ∧
      3 * (topo.coreSwitches.keys.length : ℤ) * most ≤
        (4 * topo.coreSwitches.keys.length - 1) * opt := by
  obtain ⟨policy', hloop, hconserved, hgreedy⟩ := h.exists_schedule hcores hu hostBw
  obtain ⟨most, hmost⟩ := exists_busiest hcores (carried policy'.coreOf hostBw)
  obtain ⟨opt, hopt⟩ := exists_optimum hcores hin
  have hfigures : {x | ∃ c ∈ topo.coreSwitches.keys, policy'.utilization.lookup c = some x} =
      {x | ∃ c ∈ topo.coreSwitches.keys, carried policy'.coreOf hostBw c = x} := by
    ext x
    constructor
    · rintro ⟨c, hc, hx⟩
      exact ⟨c, hc, Option.some.inj ((hconserved c hc).symm.trans hx)⟩
    · rintro ⟨c, hc, rfl⟩
      exact ⟨c, hc, hconserved c hc⟩
  refine ⟨policy', most, opt, hloop, by rw [hfigures]; exact hmost, hopt, ?_⟩
  obtain ⟨assigned, hassigned, hbusiest⟩ := hopt.1
  obtain ⟨c, hc, rfl⟩ := hmost.1
  have hmem : ∀ s ∈ stats hostBw, some (assigned s.2) ∈ machines topo.coreSwitches.keys := by
    intro s hs
    obtain ⟨e, he, rfl⟩ := List.mem_map.mp (stats_perm.mem_iff.mp hs)
    exact mem_machines.mpr (hassigned e.1 (List.mem_map_of_mem he))
  have hwithin : ∀ d ∈ machines topo.coreSwitches.keys,
      load (fun s => some (assigned s.2)) Prod.fst (stats hostBw) d ≤ opt := by
    intro d hd
    obtain ⟨d, hkey, rfl⟩ := List.mem_map.mp (List.mem_toFinset.mp hd)
    have hload : load (fun s => some (assigned s.2)) Prod.fst (stats hostBw) (some d) =
        carried (fun host => some (assigned host)) hostBw d :=
      load_stats fun host => some (assigned host)
    rw [hload]
    exact hbusiest.2 ⟨d, hkey, rfl⟩
  have hbound := hgreedy.le_four_thirds stats_sorted (stats_nonneg hin) hmem hwithin
    (mem_machines.mpr hc)
  rwa [card_machines topo.coreSwitches.keys_nodup, load_stats] at hbound

theorem redistribute_near_optimal_sample : ∃ policy' most opt, redistributeOver
    (reset sampleTopology.coreSwitches.keys samplePolicy.utilization) sampleBw samplePolicy =
      some policy' ∧
    IsGreatest {x | ∃ c ∈ sampleTopology.coreSwitches.keys,
      policy'.utilization.lookup c = some x} most ∧
    IsLeast (makespans sampleTopology sampleBw) opt ∧
    3 * (sampleTopology.coreSwitches.keys.length : ℤ) * most ≤
      (4 * sampleTopology.coreSwitches.keys.length - 1) * opt :=
  redistribute_near_optimal (.new ∅) (by decide) (List.Perm.refl _) (by decide)

end AdaptivePolicy

end CloudComputing.Minidc
