import CloudComputing.Lib.Fold
import CloudComputing.MembershipProtocol.Application

/-!
# When the key-value store starts

`Application::run`.  The nodes join one after the other, four in a tick, and the
key-value store is to start 50 ticks after the last of them.  Until all have
joined the time of that moment is still zero, so the store starts at tick 51 in any
case: a group that needs longer than that to be introduced is too large.
-/

namespace CloudComputing.KeyValueStore

open Lib MembershipProtocol

def totalRunningTime : Nat := 700

/-- `par->allNodesJoined`, as `setparams` adds it up in an `int`. -/
def allNodesJoined (n : Nat) : Int32 :=
  (List.range n).foldl (fun sum i => sum + Int32.ofNat i) 0

/-- The state of `run`, and which of the calls the loop has made so far. -/
structure Driver where
  cluster : Cluster
  timeWhenAllNodesHaveJoined : Nat
  allNodesJoined : Bool
  /-- the calls of `nodeStart`: node and tick -/
  started : List (Nat × Nat)
  /-- the ticks of the calls of `mp2Run` -/
  served : List Nat

namespace Driver

section

variable (env : Environment) (n t : Nat)

def init : Driver where
  cluster := Cluster.init n
  timeWhenAllNodesHaveJoined := 0
  allNodesJoined := false
  started := []
  served := []

/-- The body of the second loop of `mp1Run`. -/
def runNode (d : Driver) (i : Nat) : Driver :=
  { d with
    cluster := d.cluster.runNode env t i
    started := if t = startTime i then d.started ++ [(i, t)] else d.started }

def mp1Run (d : Driver) : Driver :=
  (List.range n).reverse.foldl (runNode env t)
    { d with cluster := (List.range n).foldl (Cluster.recvIfRunning t) d.cluster }

/-- `par->allNodesJoined == nodeCount && !allNodesJoined` -/
def latch (d : Driver) : Driver :=
  if KeyValueStore.allNodesJoined n = Int32.ofNat d.cluster.nodeCount ∧
      d.allNodesJoined = false then
    { d with timeWhenAllNodesHaveJoined := t, allNodesJoined := true }
  else d

/-- `mp2Run` is called; what it does to the nodes of the membership protocol is that its tests may
let some of them fail. -/
def serve (d : Driver) : Driver :=
  if t > d.timeWhenAllNodesHaveJoined + 50 then
    { d with served := d.served ++ [t], cluster := d.cluster.fail env t }
  else d

/-- The body of the loop of `run`. -/
def tick (d : Driver) : Driver :=
  ((d.mp1Run env n t).latch n t).serve env t

end

/-- The state before tick `t`. -/
def run (env : Environment) (n : Nat) : Nat → Driver
  | 0 => init n
  | t + 1 => (run env n t).tick env n t

/-- Whenever `mp2Run` is called, every node was started more than 50 ticks before. -/
def StartsAfterJoin (env : Environment) (n : Nat) : Prop :=
  ∀ t ∈ (run env n totalRunningTime).served, ∀ i < n,
    ∃ start, (i, start) ∈ (run env n totalRunningTime).started ∧ start + 50 < t

/-! ## The schedule -/

def joined (n t : Nat) : Nat :=
  ((List.range n).filter fun i => startTime i < t).sum

variable {env : Environment} {n t : Nat} {d : Driver} {l : List Nat}

theorem sum_filter_succ (l : List Nat) (t : Nat) :
    (l.filter fun i => startTime i < t + 1).sum =
      (l.filter fun i => startTime i < t).sum + (l.filter fun i => t = startTime i).sum := by
  induction l with
  | nil => rfl
  | cons i l ih =>
      rcases lt_trichotomy (startTime i) t with h | h | h
      · rw [List.filter_cons_of_pos (by simp; omega), List.filter_cons_of_pos (by simpa using h),
          List.filter_cons_of_neg (by simp; omega), List.sum_cons, List.sum_cons, ih, Nat.add_assoc]
      · rw [List.filter_cons_of_pos (by simp; omega), List.filter_cons_of_neg (by simp; omega),
          List.filter_cons_of_pos (by simpa using h.symm), List.sum_cons, List.sum_cons, ih,
          Nat.add_left_comm]
      · rw [List.filter_cons_of_neg (by simp; omega), List.filter_cons_of_neg (by simp; omega),
          List.filter_cons_of_neg (by simp; omega), ih]

theorem sum_filter_le (p : Nat → Bool) (l : List Nat) : (l.filter p).sum ≤ l.sum := by
  induction l with
  | nil => exact le_rfl
  | cons j l ih =>
      rw [List.filter_cons, List.sum_cons]
      split
      case isTrue => simpa only [List.sum_cons] using Nat.add_le_add_left ih j
      case isFalse => exact ih.trans (Nat.le_add_left _ _)

theorem sum_filter_lt {i : Nat} {p : Nat → Bool} (hi : i ∈ l) (hpos : 0 < i) (hp : p i = false) :
    (l.filter p).sum < l.sum := by
  induction l with
  | nil => cases hi
  | cons j l ih =>
      rcases List.mem_cons.mp hi with rfl | hi
      · rw [List.filter_cons_of_neg (by simp [hp]), List.sum_cons]
        have hle := sum_filter_le p l
        omega
      · have hlt := ih hi
        rw [List.filter_cons, List.sum_cons]
        split
        case isTrue => simpa only [List.sum_cons] using Nat.add_lt_add_left hlt j
        case isFalse => exact hlt.trans_le (Nat.le_add_left _ _)

/-- A node that has not been started is missing in the sum. -/
theorem joined_lt {i : Nat} (hi : i < n) (hpos : 0 < i) (h : t ≤ startTime i) :
    joined n t < (List.range n).sum :=
  sum_filter_lt (List.mem_range.mpr hi) hpos (by simpa using h)

theorem joined_eq (h : ∀ i < n, startTime i < t) : joined n t = (List.range n).sum := by
  rw [joined, List.filter_eq_self.mpr]
  intro i hi
  simpa using h i (List.mem_range.mp hi)

/-! ## The membership protocol in a tick -/

theorem nodeCount_enSend (env : Environment) (t : Nat) (myaddr : Address) (sends : List Send)
    (c : Cluster) : (sends.foldl (Cluster.enSend env t myaddr) c).nodeCount = c.nodeCount := by
  induction sends generalizing c with
  | nil => rfl
  | cons s sends ih => exact ih _

theorem nodeCount_call (env : Environment) (t i : Nat) (f : Call → Call) (c : Cluster) :
    (c.call env t i f).nodeCount = c.nodeCount :=
  nodeCount_enSend env t _ _ _

theorem nodeCount_runNode (env : Environment) (t i : Nat) (c : Cluster) :
    (c.runNode env t i).nodeCount = if t = startTime i then c.nodeCount + i else c.nodeCount := by
  unfold Cluster.runNode
  split
  case isTrue => simp only [nodeCount_call]
  case isFalse =>
    split
    case isTrue => exact nodeCount_call env t i _ c
    case isFalse => rfl

theorem nodeCount_recv (t : Nat) (l : List Nat) (c : Cluster) :
    (l.foldl (Cluster.recvIfRunning t) c).nodeCount = c.nodeCount := by
  induction l generalizing c with
  | nil => rfl
  | cons i l ih =>
      rw [List.foldl_cons, ih, Cluster.recvIfRunning]
      split
      case isTrue => rfl
      case isFalse => rfl

/-- The second loop of `mp1Run` starts the nodes whose time has come. -/
theorem foldl_runNode (l : List Nat) (d : Driver) :
    (l.foldl (runNode env t) d).cluster.nodeCount =
        d.cluster.nodeCount + (l.filter fun i => t = startTime i).sum ∧
      (l.foldl (runNode env t) d).started =
        d.started ++ (l.filter fun i => t = startTime i).map fun i => (i, t) := by
  induction l generalizing d with
  | nil => exact ⟨rfl, (List.append_nil _).symm⟩
  | cons i l ih =>
      obtain ⟨hcount, hstarted⟩ := ih (runNode env t d i)
      rw [List.foldl_cons, hcount, hstarted]
      simp only [runNode, nodeCount_runNode]
      by_cases h : t = startTime i
      · rw [if_pos h, if_pos h, List.filter_cons_of_pos (by simpa using h)]
        simp [Nat.add_assoc]
      · rw [if_neg h, if_neg h, List.filter_cons_of_neg (by simpa using h)]
        exact ⟨rfl, rfl⟩

theorem foldl_runNode_frame (l : List Nat) (d : Driver) :
    (l.foldl (runNode env t) d).timeWhenAllNodesHaveJoined = d.timeWhenAllNodesHaveJoined ∧
      (l.foldl (runNode env t) d).allNodesJoined = d.allNodesJoined ∧
      (l.foldl (runNode env t) d).served = d.served := by
  induction l generalizing d with
  | nil => exact ⟨rfl, rfl, rfl⟩
  | cons i l ih => exact ih _

theorem mp1Run_nodeCount (d : Driver) :
    (d.mp1Run env n t).cluster.nodeCount =
      d.cluster.nodeCount + ((List.range n).filter fun i => t = startTime i).sum := by
  rw [mp1Run, (foldl_runNode _ _).1, nodeCount_recv, List.filter_reverse, List.sum_reverse]

theorem mp1Run_started (d : Driver) :
    (d.mp1Run env n t).started =
      d.started ++ ((List.range n).reverse.filter fun i => t = startTime i).map fun i => (i, t) :=
  (foldl_runNode _ _).2

theorem mp1Run_frame (env : Environment) (n t : Nat) (d : Driver) :
    (d.mp1Run env n t).timeWhenAllNodesHaveJoined = d.timeWhenAllNodesHaveJoined ∧
      (d.mp1Run env n t).allNodesJoined = d.allNodesJoined ∧
      (d.mp1Run env n t).served = d.served :=
  foldl_runNode_frame _ _

/-- The nodes do in it what they do in the membership protocol's own program. -/
theorem mp1Run_cluster (d : Driver) :
    (d.mp1Run env n t).cluster = d.cluster.mp1Run env n t := by
  have hloop : ∀ (l : List Nat) (d : Driver),
      (l.foldl (runNode env t) d).cluster = l.foldl (Cluster.runNode env t) d.cluster := by
    intro l
    induction l with
    | nil => exact fun _ => rfl
    | cons i l ih => exact fun d => ih _
  exact hloop _ _

/-! ## The rest of the tick -/

theorem latch_frame (d : Driver) : (d.latch n t).cluster = d.cluster ∧
    (d.latch n t).started = d.started ∧ (d.latch n t).served = d.served := by
  unfold latch
  split
  case isTrue => exact ⟨rfl, rfl, rfl⟩
  case isFalse => exact ⟨rfl, rfl, rfl⟩

theorem serve_frame (d : Driver) : (d.serve env t).cluster.nodeCount = d.cluster.nodeCount ∧
    (d.serve env t).started = d.started ∧
    (d.serve env t).timeWhenAllNodesHaveJoined = d.timeWhenAllNodesHaveJoined ∧
    (d.serve env t).allNodesJoined = d.allNodesJoined := by
  unfold serve
  split
  case isTrue => exact ⟨rfl, rfl, rfl, rfl⟩
  case isFalse => exact ⟨rfl, rfl, rfl, rfl⟩

theorem mem_serve {u : Nat} : u ∈ (d.serve env t).served ↔
    u ∈ d.served ∨ u = t ∧ d.timeWhenAllNodesHaveJoined + 50 < t := by
  unfold serve
  split
  case isTrue h => simp [h]
  case isFalse h => simp [h]

theorem tick_nodeCount (d : Driver) :
    (d.tick env n t).cluster.nodeCount = (d.mp1Run env n t).cluster.nodeCount := by
  rw [tick, (serve_frame _).1, (latch_frame _).1]

theorem tick_started (d : Driver) :
    (d.tick env n t).started = (d.mp1Run env n t).started := by
  rw [tick, (serve_frame _).2.1, (latch_frame _).2.1]

theorem mem_tick_served {u : Nat} : u ∈ (d.tick env n t).served ↔
    u ∈ d.served ∨ u = t ∧ (d.tick env n t).timeWhenAllNodesHaveJoined + 50 < t := by
  rw [tick, mem_serve, (latch_frame _).2.2, (mp1Run_frame env n t d).2.2,
    (serve_frame _).2.2.1]

theorem tick_cases (env : Environment) (n t : Nat) (d : Driver) :
    (KeyValueStore.allNodesJoined n = Int32.ofNat (d.mp1Run env n t).cluster.nodeCount ∧
        d.allNodesJoined = false ∧ (d.tick env n t).timeWhenAllNodesHaveJoined = t ∧
        (d.tick env n t).allNodesJoined = true) ∨
      (¬(KeyValueStore.allNodesJoined n = Int32.ofNat (d.mp1Run env n t).cluster.nodeCount ∧
          d.allNodesJoined = false) ∧
        (d.tick env n t).timeWhenAllNodesHaveJoined = d.timeWhenAllNodesHaveJoined ∧
        (d.tick env n t).allNodesJoined = d.allNodesJoined) := by
  obtain ⟨htime, hlatch, -⟩ := mp1Run_frame env n t d
  rw [tick, (serve_frame _).2.2.1, (serve_frame _).2.2.2, latch, hlatch]
  split
  case isTrue h => exact .inl ⟨h.1, h.2, rfl, rfl⟩
  case isFalse h => exact .inr ⟨h, htime, hlatch⟩

/-! ## The run -/

theorem init_nodeCount (n : Nat) : (init n).cluster.nodeCount = 0 := by
  have hloop : ∀ (l : List Nat) (c : Cluster),
      (l.foldl Cluster.initNode c).nodeCount = c.nodeCount := by
    intro l
    induction l with
    | nil => exact fun _ => rfl
    | cons i l ih => exact fun c => ih _
  exact hloop _ _

theorem run_nodeCount (env : Environment) (n t : Nat) :
    (run env n t).cluster.nodeCount = joined n t := by
  induction t with
  | zero =>
      rw [joined, List.filter_eq_nil_iff.mpr (by simp)]
      exact init_nodeCount n
  | succ t ih => rw [run, tick_nodeCount, mp1Run_nodeCount, ih, joined, joined, sum_filter_succ]

theorem mem_started {i s : Nat} :
    (i, s) ∈ (run env n t).started ↔ i < n ∧ s = startTime i ∧ s < t := by
  induction t with
  | zero => simp [run, init]
  | succ t ih =>
      rw [run, tick_started, mp1Run_started, List.mem_append, ih]
      simp only [List.mem_map, List.mem_filter, List.mem_reverse, List.mem_range,
        decide_eq_true_eq, Prod.mk.injEq]
      constructor
      · rintro (⟨hi, hs, hlt⟩ | ⟨i, ⟨hi, hs⟩, rfl, rfl⟩)
        · exact ⟨hi, hs, hlt.trans (Nat.lt_succ_self t)⟩
        · exact ⟨hi, hs, Nat.lt_succ_self _⟩
      · rintro ⟨hi, hs, hlt⟩
        rcases Nat.lt_succ_iff_lt_or_eq.mp hlt with hlt | rfl
        · exact .inl ⟨hi, hs, hlt⟩
        · exact .inr ⟨i, ⟨hi, hs⟩, rfl, rfl⟩

/-! ## When the store is called -/

theorem allNodesJoined_eq (n : Nat) :
    KeyValueStore.allNodesJoined n = Int32.ofNat (List.range n).sum := by
  have hloop : ∀ (l : List Nat) (a : Nat),
      l.foldl (fun sum i => sum + Int32.ofNat i) (Int32.ofNat a) = Int32.ofNat (a + l.sum) := by
    intro l
    induction l with
    | nil => exact fun _ => rfl
    | cons i l ih =>
        intro a
        rw [List.foldl_cons, ← Int32.ofNat_add, ih, List.sum_cons, Nat.add_assoc]
  rw [KeyValueStore.allNodesJoined, ← Nat.zero_add (List.range n).sum]
  exact hloop _ 0

theorem sum_range_le (n : Nat) : (List.range n).sum ≤ n * n := by
  induction n with
  | zero => exact le_rfl
  | succ n ih =>
      rw [List.range_succ, List.sum_append, List.sum_singleton, Nat.succ_mul, Nat.mul_succ]
      omega

theorem sum_range_lt (hn : n ≤ 208) : (List.range n).sum < 2 ^ 31 := by
  have hsum := sum_range_le n
  have hsq : n * n ≤ 208 * 208 := Nat.mul_le_mul hn hn
  omega

theorem allNodesJoined_ne (hn : n ≤ 208) (h : t < startTime (n - 1)) :
    KeyValueStore.allNodesJoined n ≠ Int32.ofNat (joined n (t + 1)) := by
  have hpos : 0 < n - 1 := by
    rw [startTime] at h
    omega
  have hlt : joined n (t + 1) < (List.range n).sum := joined_lt (by omega) hpos h
  have hbound := sum_range_lt hn
  intro heq
  rw [allNodesJoined_eq] at heq
  have hint := congrArg Int32.toInt heq
  rw [Int32.toInt_ofNat_of_lt hbound, Int32.toInt_ofNat_of_lt (hlt.trans hbound)] at hint
  omega

theorem mp1Run_run_nodeCount (env : Environment) (n t : Nat) :
    ((run env n t).mp1Run env n t).cluster.nodeCount = joined n (t + 1) := by
  rw [← tick_nodeCount]
  exact run_nodeCount env n (t + 1)

theorem run_waiting (env : Environment) (hn : n ≤ 208) (ht : t ≤ startTime (n - 1)) :
    (run env n t).allNodesJoined = false ∧ (run env n t).timeWhenAllNodesHaveJoined = 0 ∧
      (run env n t).served = [] := by
  induction t with
  | zero => exact ⟨rfl, rfl, rfl⟩
  | succ t ih =>
      obtain ⟨hopen, htime, hserved⟩ := ih (by omega)
      rcases tick_cases env n t (run env n t) with
        ⟨hjoined, -⟩ | ⟨-, htime', hopen'⟩
      · rw [mp1Run_run_nodeCount] at hjoined
        exact absurd hjoined (allNodesJoined_ne hn ht)
      · refine ⟨hopen'.trans hopen, htime'.trans htime, List.eq_nil_iff_forall_not_mem.mpr ?_⟩
        intro u hu
        rcases mem_tick_served.mp hu with hu | ⟨-, hlt⟩
        · simp [hserved] at hu
        · rw [htime', htime] at hlt
          rw [startTime] at ht
          omega

theorem run_joined (env : Environment) (hpos : 0 < n) (hn : n ≤ 208) (ht : startTime (n - 1) < t) :
    (run env n t).allNodesJoined = true ∧
      (run env n t).timeWhenAllNodesHaveJoined = startTime (n - 1) ∧
      ∀ u ∈ (run env n t).served, startTime (n - 1) + 50 < u := by
  induction t, ht using Nat.le_induction with
  | base =>
      obtain ⟨hopen, -, hserved⟩ := run_waiting env hn (le_refl (startTime (n - 1)))
      rcases tick_cases env n (startTime (n - 1)) (run env n (startTime (n - 1))) with
        ⟨-, -, htime', hclosed'⟩ | ⟨hne, -⟩
      · refine ⟨hclosed', htime', fun u hu => ?_⟩
        rcases mem_tick_served.mp hu with hu | ⟨-, hlt⟩
        · simp [hserved] at hu
        · omega
      · -- the last node joins in this tick
        refine absurd ⟨?_, hopen⟩ hne
        rw [mp1Run_run_nodeCount, allNodesJoined_eq, joined_eq]
        intro i hi
        rw [startTime, startTime]
        omega
  | succ t ht ih =>
      obtain ⟨hclosed, htime, hserved⟩ := ih
      rcases tick_cases env n t (run env n t) with
        ⟨-, hopen, -⟩ | ⟨-, htime', hclosed'⟩
      · rw [hclosed] at hopen
        exact absurd hopen (by decide)
      · refine ⟨hclosed'.trans hclosed, htime'.trans htime, fun u hu => ?_⟩
        rcases mem_tick_served.mp hu with hu | ⟨rfl, hlt⟩
        · exact hserved u hu
        · rwa [htime', htime] at hlt

/-- The recorded time is past, zero as long as the latch is open, and every tick more than 50
after it is served. -/
theorem run_served (env : Environment) (n t : Nat) :
    (run env n t).timeWhenAllNodesHaveJoined ≤ t - 1 ∧
      ((run env n t).allNodesJoined = false → (run env n t).timeWhenAllNodesHaveJoined = 0) ∧
      ∀ u, (run env n t).timeWhenAllNodesHaveJoined + 50 < u → u < t →
        u ∈ (run env n t).served := by
  induction t with
  | zero => exact ⟨le_rfl, fun _ => rfl, fun u _ hu => absurd hu (Nat.not_lt_zero u)⟩
  | succ t ih =>
      obtain ⟨hpast, hzero, hserved⟩ := ih
      have hserve : ∀ u, (run env n (t + 1)).timeWhenAllNodesHaveJoined + 50 < u → u = t →
          u ∈ (run env n (t + 1)).served := by
        rintro u hu rfl
        exact mem_tick_served.mpr (.inr ⟨rfl, hu⟩)
      rcases tick_cases env n t (run env n t) with
        ⟨-, -, htime', hclosed'⟩ | ⟨-, htime', hsame'⟩
      · refine ⟨htime'.le, fun hopen => ?_, fun u hu hlt => ?_⟩
        · exact absurd (hclosed'.symm.trans hopen) (by decide)
        · rw [show (run env n (t + 1)).timeWhenAllNodesHaveJoined = t from htime'] at hu
          omega
      · refine ⟨(htime'.le.trans hpast).trans (by omega), fun hopen => ?_, fun u hu hlt => ?_⟩
        · exact htime'.trans (hzero (hsame'.symm.trans hopen))
        · rcases Nat.lt_succ_iff_lt_or_eq.mp hlt with hlt | heq
          · refine mem_tick_served.mpr (.inl (hserved u ?_ hlt))
            rwa [← htime']
          · exact hserve u hu heq

theorem served_mono {u w : Nat} (htu : t ≤ u) (hw : w ∈ (run env n t).served) :
    w ∈ (run env n u).served := by
  induction u, htu using Nat.le_induction with
  | base => exact hw
  | succ u _ ih => exact mem_tick_served.mpr (.inl ih)

theorem time_of_closed {u : Nat} (htu : t ≤ u) (h : (run env n t).allNodesJoined = true) :
    (run env n u).allNodesJoined = true ∧ (run env n u).timeWhenAllNodesHaveJoined =
      (run env n t).timeWhenAllNodesHaveJoined := by
  induction u, htu using Nat.le_induction with
  | base => exact ⟨h, rfl⟩
  | succ u _ ih =>
      rcases tick_cases env n u (run env n u) with
        ⟨-, hopen, -⟩ | ⟨-, htime, hclosed⟩
      · rw [ih.1] at hopen
        exact absurd hopen (by decide)
      · exact ⟨hclosed.trans ih.1, htime.trans ih.2⟩

theorem served_early (env : Environment) (n : Nat) :
    ∃ u ∈ (run env n totalRunningTime).served, u ≤ 102 := by
  obtain ⟨hpast, hzero, hserved⟩ := run_served env n 52
  cases hlatch : (run env n 52).allNodesJoined with
  | false =>
      have hmem := hserved 51 (by rw [hzero hlatch]; decide) (by decide)
      exact ⟨51, served_mono (by decide) hmem, by decide⟩
  | true =>
      have htime := (time_of_closed (u := totalRunningTime) (by decide) hlatch).2
      refine ⟨_, (run_served env n totalRunningTime).2.2 _ (Nat.lt_succ_self _) ?_, ?_⟩
      · rw [htime, totalRunningTime]
        omega
      · rw [htime]
        omega

theorem startsAfterJoin_of_le (env : Environment) (hpos : 0 < n) (hn : n ≤ 208) :
    StartsAfterJoin env n := by
  intro u hu i hi
  have hlast : startTime (n - 1) ≤ 51 := by
    rw [startTime]
    omega
  obtain ⟨-, -, hserved⟩ :=
    run_joined env (t := totalRunningTime) hpos hn (by rw [totalRunningTime]; omega)
  have hi_le : startTime i ≤ startTime (n - 1) := Nat.div_le_div_right (by omega)
  refine ⟨startTime i, mem_started.mpr ⟨hi, rfl, ?_⟩, ?_⟩
  · rw [totalRunningTime]
    omega
  · have hlt := hserved u hu
    omega

theorem not_startsAfterJoin (env : Environment) (hn : 208 < n) : ¬StartsAfterJoin env n := by
  intro h
  obtain ⟨u, hu, hle⟩ := served_early env n
  obtain ⟨start, hstart, hlt⟩ := h u hu (n - 1) (by omega)
  obtain ⟨-, rfl, -⟩ := mem_started.mp hstart
  rw [startTime] at hlt
  omega

/-- The store starts only after everybody joined, in a group of up to 208 nodes. -/
theorem startsAfterJoin_iff (env : Environment) (hpos : 0 < n) :
    StartsAfterJoin env n ↔ n ≤ 208 :=
  ⟨fun h => not_lt.mp fun hn => not_startsAfterJoin env hn h, startsAfterJoin_of_le env hpos⟩

/-- An environment that loses no message and lets no node fail. -/
def calm : Environment where
  lost := fun _ => false
  fails := fun _ _ => false

theorem startsAfterJoin_iff_ten : 0 < 10 ∧ (StartsAfterJoin calm 10 ↔ 10 ≤ 208) :=
  ⟨by decide, startsAfterJoin_iff calm (by decide)⟩

/-- In a group of 209 the store is called in tick 51, and the last node joins in tick 52. -/
theorem not_startsAfterJoin_calm : ¬StartsAfterJoin calm 209 :=
  not_startsAfterJoin calm (by decide)

end Driver

end CloudComputing.KeyValueStore
