import Mathlib.Order.Defs.LinearOrder
import CloudComputing.Minidc.BandwidthStats

/-!
# Page load statistics

`minidc/stats.py`, the provider for the load times of pages.  Samples pile up in
`vals`; whenever `avg` is called the complete groups of `AVG_TRIALS` samples are
consumed, and of each the median and the 95th percentile are kept.  The lock makes
every call atomic, but who calls `avg`, and when, is up to the dashboard.
-/

namespace CloudComputing.Minidc

open Lib

/-- `AVG_TRIALS` -/
def avgTrials : Nat := 20

/-- `int((PTILE / 100.0) * n) - 1` with `PTILE` 95.  For the only `n` it is used with the floating
point product is exact, too. -/
def ptileIndex (n : Nat) : Nat := 95 * n / 100 - 1

-- the double next to 0.95 has this numerator over 2 ^ 53; 20 times it rounds to 19 at 2 ^ -48
example : (2 * 95 * 2 ^ 53 + 100) / 200 = 8556839292003942 ∧
    (2 * 20 * 8556839292003942 + 32) / 64 = 19 * 2 ^ 48 := by decide

/-- `int(n / 2) - 1` -/
def medianIndex (n : Nat) : Nat := n / 2 - 1

structure MemcachedStatsProvider (κ τ : Type) where
  vals : Dict κ (List τ)
  avgs : Dict κ (List τ)
  ptile : Dict κ (List τ)

/-- What the provider has of one host. -/
structure Series (τ : Type) where
  vals : List τ
  avgs : List τ
  ptile : List τ

namespace MemcachedStatsProvider

section

variable {κ τ : Type} [DecidableEq κ] [LinearOrder τ]

def new : MemcachedStatsProvider κ τ :=
  ⟨∅, ∅, ∅⟩

def add (host : κ) (time : τ) (p : MemcachedStatsProvider κ τ) :
    Option (MemcachedStatsProvider κ τ) := do
  let vals := if host ∈ p.vals then p.vals else Dict.set host [] p.vals
  let samples ← vals.lookup host
  return { p with vals := Dict.set host (samples ++ [time]) vals }

/-- `consumed.sort()` -/
def sort (l : List τ) : List τ :=
  l.mergeSort fun a b => decide (a ≤ b)

/-- The `while` loop of `avg`. -/
def consume (s : Series τ) : Option (Series τ) :=
  if _h : avgTrials ≤ s.vals.length then
    let consumed := sort (s.vals.take avgTrials)
    match consumed[ptileIndex consumed.length]?, consumed[medianIndex consumed.length]? with
    | some p, some m => consume ⟨s.vals.drop avgTrials, s.avgs ++ [m], s.ptile ++ [p]⟩
    | _, _ => none
  else some s
termination_by s.vals.length
decreasing_by
  simp only [List.length_drop, avgTrials] at *
  omega

/-- Only the last of both lists are kept. -/
def truncate (s : Series τ) : Series τ :=
  let start := if jsonMax < s.avgs.length then s.avgs.length - jsonMax else 0
  { s with avgs := s.avgs.drop start, ptile := s.ptile.drop start }

/-- `if host not in self.avgs` -/
def see (host : κ) (p : MemcachedStatsProvider κ τ) : MemcachedStatsProvider κ τ :=
  if host ∈ p.avgs then p
  else { p with avgs := Dict.set host [] p.avgs, ptile := Dict.set host [] p.ptile }

/-- The body of the `for` loop of `avg`. -/
def avgHost (provider : MemcachedStatsProvider κ τ) (host : κ) :
    Option (MemcachedStatsProvider κ τ) := do
  let p := provider.see host
  let s : Series τ := ⟨← p.vals.lookup host, ← p.avgs.lookup host, ← p.ptile.lookup host⟩
  let s := truncate (← consume s)
  return ⟨Dict.set host s.vals p.vals, Dict.set host s.avgs p.avgs, Dict.set host s.ptile p.ptile⟩

/-- `avg` when `self.vals.keys()` comes in this order. -/
def avg (order : List κ) (p : MemcachedStatsProvider κ τ) :
    Option (MemcachedStatsProvider κ τ) :=
  order.foldlM avgHost p

/-- The states that the samples can lead to, with `avg` called any number of times in between. -/
inductive Reached : List (κ × τ) → MemcachedStatsProvider κ τ → Prop
  | new : Reached [] new
  | add {samples : List (κ × τ)} {p p' : MemcachedStatsProvider κ τ} (host : κ) (time : τ) :
      Reached samples p → p.add host time = some p' → Reached (samples ++ [(host, time)]) p'
  | avg {samples : List (κ × τ)} {p p' : MemcachedStatsProvider κ τ} (order : List κ) :
      Reached samples p → order.Perm p.vals.keys → p.avg order = some p' → Reached samples p'

/-- The same, with a call of `avg` at the end. -/
def Read (samples : List (κ × τ)) (p : MemcachedStatsProvider κ τ) : Prop :=
  ∃ before order, Reached samples before ∧ order.Perm before.vals.keys ∧ before.avg order = some p

end

variable {κ τ : Type} [DecidableEq κ] {p p' : MemcachedStatsProvider κ τ}
  {samples : List (κ × τ)} {host : κ} {s : Series τ}

/-! ## A sample -/

def samplesOf (host : κ) (samples : List (κ × τ)) : List τ :=
  (samples.filter fun sample => sample.1 = host).map Prod.snd

/-- `vals[host]`, where it is. -/
def pending (p : MemcachedStatsProvider κ τ) (host : κ) : List τ :=
  (p.vals.lookup host).getD []

def SameAt (host : κ) (p p' : MemcachedStatsProvider κ τ) : Prop :=
  p'.vals.lookup host = p.vals.lookup host ∧ p'.avgs.lookup host = p.avgs.lookup host ∧
    p'.ptile.lookup host = p.ptile.lookup host

theorem samplesOf_concat (time : τ) (other : κ) : samplesOf other (samples ++ [(host, time)]) =
    if host = other then samplesOf other samples ++ [time] else samplesOf other samples := by
  unfold samplesOf
  by_cases h : host = other
  · simp [h]
  · simp [h]

theorem add_eq (p : MemcachedStatsProvider κ τ) (host : κ) (time : τ) :
    ∃ p', p.add host time = some p' ∧ p'.vals.lookup host = some (p.pending host ++ [time]) ∧
      p'.avgs = p.avgs ∧ p'.ptile = p.ptile ∧ ∀ other ≠ host, SameAt other p p' := by
  by_cases hmem : host ∈ p.vals
  · obtain ⟨vals, hvals⟩ := Option.isSome_iff_exists.mp (AList.lookup_isSome.mpr hmem)
    refine ⟨{ p with vals := Dict.set host (p.pending host ++ [time]) p.vals }, ?_,
      Dict.lookup_set_self, rfl, rfl, fun other hne => ⟨Dict.lookup_set_ne hne, rfl, rfl⟩⟩
    simp [add, if_pos hmem, hvals, pending]
  · have hnone : p.vals.lookup host = none := AList.lookup_eq_none.mpr hmem
    refine ⟨{ p with vals := Dict.set host (p.pending host ++ [time]) (Dict.set host [] p.vals) },
      ?_, Dict.lookup_set_self, rfl, rfl, fun other hne => ⟨?_, rfl, rfl⟩⟩
    · simp [add, if_neg hmem, hnone, pending]
    · rw [Dict.lookup_set_ne hne, Dict.lookup_set_ne hne]

theorem see_vals (p : MemcachedStatsProvider κ τ) (host : κ) : (p.see host).vals = p.vals := by
  unfold see
  split <;> rfl

theorem sameAt_see {other : κ} (hne : other ≠ host) : SameAt other p (p.see host) := by
  unfold see
  split
  case isTrue => exact ⟨rfl, rfl, rfl⟩
  case isFalse => exact ⟨rfl, Dict.lookup_set_ne hne, Dict.lookup_set_ne hne⟩

theorem truncate_eq (hlength : s.ptile.length = s.avgs.length) :
    truncate s = ⟨s.vals, s.avgs.rtake jsonMax, s.ptile.rtake jsonMax⟩ := by
  have hstart : (if jsonMax < s.avgs.length then s.avgs.length - jsonMax else 0) =
      s.avgs.length - jsonMax := by
    split <;> omega
  simp only [truncate, hstart, List.rtake, hlength]

variable [LinearOrder τ]

/-! ## The loop over the groups -/

def nthSmallest (n : Nat) (group : List τ) : Option τ :=
  (sort group)[n - 1]?

theorem exists_nthSmallest {n : Nat} (group : List τ) (hpos : 0 < n) (hle : n ≤ group.length) :
    ∃ x, nthSmallest n group = some x := by
  have hlt : n - 1 < (sort group).length := by
    rw [sort, List.length_mergeSort]
    omega
  exact ⟨_, List.getElem?_eq_getElem hlt⟩

theorem consume_of_le (h : avgTrials ≤ s.vals.length) : ∃ median ptile,
    nthSmallest 10 (s.vals.take avgTrials) = some median ∧
      nthSmallest 19 (s.vals.take avgTrials) = some ptile ∧
        consume s = consume ⟨s.vals.drop avgTrials, s.avgs ++ [median], s.ptile ++ [ptile]⟩ := by
  have hlength : (s.vals.take avgTrials).length = 20 := List.length_take_of_le h
  obtain ⟨median, hmedian⟩ := exists_nthSmallest (n := 10) (s.vals.take avgTrials)
    (by decide) (by omega)
  obtain ⟨ptile, hptile⟩ := exists_nthSmallest (n := 19) (s.vals.take avgTrials)
    (by decide) (by omega)
  have hsorted : (sort (s.vals.take avgTrials)).length = 20 := by
    rw [sort, List.length_mergeSort, hlength]
  refine ⟨median, ptile, hmedian, hptile, ?_⟩
  have hp : (sort (s.vals.take avgTrials))[ptileIndex 20]? = some ptile := hptile
  have hm : (sort (s.vals.take avgTrials))[medianIndex 20]? = some median := hmedian
  rw [consume, dif_pos h]
  simp only [hsorted, hp, hm]

theorem consume_of_lt (h : s.vals.length < avgTrials) : consume s = some s := by
  rw [consume, dif_neg (by omega)]

theorem consume_eq (s : Series τ) : ∃ s', consume s = some s' ∧
    s'.vals = leftOver avgTrials s.vals ∧
      s'.avgs.map some = s.avgs.map some ++ (groups avgTrials s.vals).map (nthSmallest 10) ∧
        s'.ptile.map some = s.ptile.map some ++ (groups avgTrials s.vals).map (nthSmallest 19) := by
  have hpos : 0 < avgTrials := by decide
  induction h : s.vals.length using Nat.strong_induction_on generalizing s with
  | _ k ih =>
      by_cases hlt : s.vals.length < avgTrials
      · rw [consume_of_lt hlt, leftOver_of_lt hlt, groups_of_lt hlt]
        exact ⟨s, rfl, rfl, by simp, by simp⟩
      · have hle : avgTrials ≤ s.vals.length := by omega
        obtain ⟨median, ptile, hmedian, hptile, hturn⟩ := consume_of_le hle
        obtain ⟨s', hs', hvals, havgs, hptiles⟩ := ih (s.vals.drop avgTrials).length
          (by rw [List.length_drop]; omega) ⟨_, s.avgs ++ [median], s.ptile ++ [ptile]⟩ rfl
        refine ⟨s', hturn.trans hs', ?_, ?_, ?_⟩
        · rw [hvals, leftOver_drop hpos hle]
        · rw [havgs, groups_cons hpos hle, List.map_cons, hmedian]
          simp
        · rw [hptiles, groups_cons hpos hle, List.map_cons, hptile]
          simp

/-! ## What the provider knows of a host -/

/-- The results of these groups, as far as they are kept. -/
structure Records (avgs ptile : List τ) (done : List (List τ)) : Prop where
  avgs : avgs.map some = (done.map (nthSmallest 10)).rtake jsonMax
  ptile : ptile.map some = (done.map (nthSmallest 19)).rtake jsonMax

/-- Some of the complete groups are done, the others are still in `vals`; before the first `avg`
there are no lists of results. -/
structure Tracks (p : MemcachedStatsProvider κ τ) (host : κ) (samples : List τ)
    (done : List (List τ)) : Prop where
  seen : host ∈ p.vals ↔ samples ≠ []
  groups : groups avgTrials samples = done ++ groups avgTrials (p.pending host)
  rest : leftOver avgTrials samples = leftOver avgTrials (p.pending host)
  results : (p.avgs.lookup host = none ∧ p.ptile.lookup host = none ∧ done = []) ∨
    samples ≠ [] ∧ ∃ avgs ptile, p.avgs.lookup host = some avgs ∧
      p.ptile.lookup host = some ptile ∧ Records avgs ptile done

/-- All complete groups are done. -/
structure Settled (p : MemcachedStatsProvider κ τ) (host : κ) (samples : List τ) : Prop where
  vals : p.vals.lookup host = some (leftOver avgTrials samples)
  results : ∃ avgs ptile, p.avgs.lookup host = some avgs ∧ p.ptile.lookup host = some ptile ∧
    Records avgs ptile (groups avgTrials samples)

theorem Tracks.congr {l : List τ} {done : List (List τ)} (h : Tracks p host l done)
    (hsame : SameAt host p p') : Tracks p' host l done := by
  obtain ⟨hvals, havgs, hptile⟩ := hsame
  have hpending : p'.pending host = p.pending host := by
    rw [pending, hvals, pending]
  refine ⟨?_, ?_, ?_, ?_⟩
  · rw [← AList.lookup_isSome, hvals, AList.lookup_isSome]
    exact h.seen
  · rw [hpending]
    exact h.groups
  · rw [hpending]
    exact h.rest
  · rw [havgs, hptile]
    exact h.results

theorem Settled.congr {l : List τ} (h : Settled p host l) (hsame : SameAt host p p') :
    Settled p' host l := by
  obtain ⟨hvals, havgs, hptile⟩ := hsame
  refine ⟨hvals.trans h.vals, ?_⟩
  rw [havgs, hptile]
  exact h.results

theorem Settled.tracks {l : List τ} (h : Settled p host l) (hne : l ≠ []) :
    Tracks p host l (groups avgTrials l) := by
  have hlt : (leftOver avgTrials l).length < avgTrials := length_leftOver_lt (by decide)
  have hpending : p.pending host = leftOver avgTrials l := by
    rw [pending, h.vals, Option.getD_some]
  refine ⟨?_, ?_, ?_, Or.inr ⟨hne, h.results⟩⟩
  · rw [← AList.lookup_isSome, h.vals]
    simp [hne]
  · rw [hpending, groups_of_lt hlt, List.append_nil]
  · rw [hpending, leftOver_of_lt hlt]

theorem Tracks.add {l : List τ} {done : List (List τ)} {time : τ} (h : Tracks p host l done)
    (hvals : p'.vals.lookup host = some (p.pending host ++ [time])) (havgs : p'.avgs = p.avgs)
    (hptile : p'.ptile = p.ptile) : Tracks p' host (l ++ [time]) done := by
  have hpos : 0 < avgTrials := by decide
  have hpending : p'.pending host = p.pending host ++ [time] := by
    rw [pending, hvals, Option.getD_some]
  have hlong := groups_append hpos l [time]
  have hshort := groups_append hpos (p.pending host) [time]
  refine ⟨?_, ?_, ?_, ?_⟩
  · rw [← AList.lookup_isSome, hvals]
    simp
  · rw [hpending, hlong.1, hshort.1, h.groups, h.rest, List.append_assoc]
  · rw [hpending, hlong.2, hshort.2, h.rest]
  · rw [havgs, hptile]
    rcases h.results with hnone | ⟨-, hsome⟩
    · exact Or.inl hnone
    · exact Or.inr ⟨by simp, hsome⟩

/-! ## The end of `avg` -/

theorem Records.length_eq {avgs ptile : List τ} {done : List (List τ)}
    (h : Records avgs ptile done) : ptile.length = avgs.length := by
  have havgs := congrArg List.length h.avgs
  have hptile := congrArg List.length h.ptile
  rw [List.length_map, length_rtake, List.length_map] at havgs hptile
  omega

/-- The groups in `vals` are consumed and their results are recorded. -/
theorem Records.consume {avgs ptile : List τ} {done : List (List τ)}
    (h : Records avgs ptile done) (vals : List τ) : ∃ s, consume ⟨vals, avgs, ptile⟩ = some s ∧
      (truncate s).vals = leftOver avgTrials vals ∧
        Records (truncate s).avgs (truncate s).ptile (done ++ Lib.groups avgTrials vals) := by
  obtain ⟨s, hs, hvals, havgs, hptile⟩ := consume_eq ⟨vals, avgs, ptile⟩
  have hlength : s.ptile.length = s.avgs.length := by
    have h₁ := congrArg List.length havgs
    have h₂ := congrArg List.length hptile
    have h₃ := h.length_eq
    simp only [List.length_append, List.length_map] at h₁ h₂
    omega
  refine ⟨s, hs, ?_, ?_, ?_⟩
  · rw [truncate_eq hlength, hvals]
  · rw [truncate_eq hlength, map_rtake, havgs, h.avgs, rtake_append_rtake, List.map_append]
  · rw [truncate_eq hlength, map_rtake, hptile, h.ptile, rtake_append_rtake, List.map_append]

/-- The lists of results are there when they are needed. -/
theorem Tracks.see {l : List τ} {done : List (List τ)} (h : Tracks p host l done) :
    ∃ avgs ptile, (p.see host).avgs.lookup host = some avgs ∧
      (p.see host).ptile.lookup host = some ptile ∧ Records avgs ptile done := by
  rcases h.results with ⟨havgs, -, rfl⟩ | ⟨-, avgs, ptile, havgs, hptile, hrecords⟩
  · have hnew : host ∉ p.avgs := AList.lookup_eq_none.mp havgs
    refine ⟨[], [], ?_, ?_, ⟨rfl, rfl⟩⟩
    · rw [MemcachedStatsProvider.see, if_neg hnew, Dict.lookup_set_self]
    · rw [MemcachedStatsProvider.see, if_neg hnew, Dict.lookup_set_self]
  · have hseen : host ∈ p.avgs := Dict.mem_of_lookup havgs
    rw [MemcachedStatsProvider.see, if_pos hseen]
    exact ⟨avgs, ptile, havgs, hptile, hrecords⟩

theorem Tracks.avgHost {l : List τ} {done : List (List τ)} (h : Tracks p host l done)
    (hne : l ≠ []) : ∃ p', avgHost p host = some p' ∧ Settled p' host l ∧
      ∀ other ≠ host, SameAt other p p' := by
  obtain ⟨vals, hvals⟩ := Option.isSome_iff_exists.mp (AList.lookup_isSome.mpr (h.seen.mpr hne))
  have hpending : p.pending host = vals := by
    rw [pending, hvals, Option.getD_some]
  obtain ⟨avgs, ptile, havgs, hptile, hrecords⟩ := h.see
  obtain ⟨s, hconsume, hrest, hdone⟩ := hrecords.consume vals
  rw [← hpending, ← h.groups] at hdone
  rw [← hpending, ← h.rest] at hrest
  refine ⟨⟨Dict.set host (truncate s).vals (p.see host).vals,
    Dict.set host (truncate s).avgs (p.see host).avgs,
    Dict.set host (truncate s).ptile (p.see host).ptile⟩, ?_, ⟨?_, ?_⟩, fun other hother => ?_⟩
  · simp [MemcachedStatsProvider.avgHost, see_vals, hvals, havgs, hptile, hconsume]
  · rw [Dict.lookup_set_self, hrest]
  · exact ⟨_, _, Dict.lookup_set_self, Dict.lookup_set_self, hdone⟩
  · obtain ⟨hsame₁, hsame₂, hsame₃⟩ := sameAt_see (p := p) hother
    refine ⟨?_, ?_, ?_⟩
    · exact (Dict.lookup_set_ne hother).trans hsame₁
    · exact (Dict.lookup_set_ne hother).trans hsame₂
    · exact (Dict.lookup_set_ne hother).trans hsame₃

/-! ## Runs -/

/-- What is true of every host at any time. -/
def Knows (p : MemcachedStatsProvider κ τ) (samples : List (κ × τ)) : Prop :=
  ∀ host, ∃ done, Tracks p host (samplesOf host samples) done

theorem knows_new : Knows (new : MemcachedStatsProvider κ τ) [] := fun host =>
  ⟨[], by simp [new, samplesOf], rfl, rfl, Or.inl ⟨rfl, rfl, rfl⟩⟩

theorem Knows.add (h : Knows p samples) (host : κ) (time : τ) :
    ∃ p', p.add host time = some p' ∧ Knows p' (samples ++ [(host, time)]) := by
  obtain ⟨p', hadd, hvals, havgs, hptile, hothers⟩ := add_eq p host time
  refine ⟨p', hadd, fun other => ?_⟩
  rw [samplesOf_concat]
  by_cases hother : host = other
  · subst hother
    obtain ⟨done, htracks⟩ := h host
    rw [if_pos rfl]
    exact ⟨done, htracks.add hvals havgs hptile⟩
  · obtain ⟨done, htracks⟩ := h other
    rw [if_neg hother]
    exact ⟨done, htracks.congr (hothers other (Ne.symm hother))⟩

/-- In the middle of `avg`, with these hosts still to come. -/
structure Settling (samples : List (κ × τ)) (rest : List κ) (p : MemcachedStatsProvider κ τ) :
    Prop where
  seen : ∀ host ∈ rest, samplesOf host samples ≠ []
  knows : Knows p samples
  settled : ∀ host, samplesOf host samples ≠ [] → host ∉ rest →
    Settled p host (samplesOf host samples)

theorem Settling.turn {rest : List κ} (h : Settling samples (host :: rest) p) :
    ∃ p', p.avgHost host = some p' ∧ Settling samples rest p' := by
  have hne := h.seen host List.mem_cons_self
  obtain ⟨done, htracks⟩ := h.knows host
  obtain ⟨p', hturn, hself, hothers⟩ := htracks.avgHost hne
  refine ⟨p', hturn, fun x hx => h.seen x (List.mem_cons_of_mem host hx), fun other => ?_,
    fun other hother hnot => ?_⟩
  · by_cases hsame : other = host
    · subst hsame
      exact ⟨_, hself.tracks hne⟩
    · obtain ⟨done', htracks'⟩ := h.knows other
      exact ⟨done', htracks'.congr (hothers other hsame)⟩
  · by_cases hsame : other = host
    · subst hsame
      exact hself
    · have hnot' : other ∉ host :: rest := by simp [hsame, hnot]
      exact (h.settled other hother hnot').congr (hothers other hsame)

/-- A call of `avg` settles every host, in whatever order it goes through them. -/
theorem Knows.avg (h : Knows p samples) {order : List κ} (horder : order.Perm p.vals.keys) :
    ∃ p', p.avg order = some p' ∧ Settling samples [] p' := by
  have hseen : ∀ host, host ∈ order ↔ samplesOf host samples ≠ [] := by
    intro host
    obtain ⟨done, htracks⟩ := h host
    rw [horder.mem_iff, ← AList.mem_keys, htracks.seen]
  have hstart : Settling samples order p :=
    ⟨fun host hhost => (hseen host).mp hhost, h,
      fun host hhost hnot => absurd ((hseen host).mpr hhost) hnot⟩
  exact foldlM_total (fun _ _ _ hsettling => hsettling.turn) hstart

theorem Reached.knows (h : Reached samples p) : Knows p samples := by
  induction h with
  | new => exact knows_new
  | add host time _ hadd ih =>
      obtain ⟨p', hadd', hknows⟩ := ih.add host time
      obtain rfl := Option.some.inj (hadd.symm.trans hadd')
      exact hknows
  | avg order _ horder havg ih =>
      obtain ⟨p', havg', hsettling⟩ := ih.avg horder
      obtain rfl := Option.some.inj (havg.symm.trans havg')
      exact hsettling.knows

theorem exists_read (samples : List (κ × τ)) : ∃ p, Read samples p := by
  obtain ⟨p, hreached⟩ : ∃ p, Reached samples p := by
    induction samples using List.reverseRecOn with
    | nil => exact ⟨new, .new⟩
    | append_singleton samples sample ih =>
        obtain ⟨p, hreached⟩ := ih
        obtain ⟨p', hadd, -⟩ := hreached.knows.add sample.1 sample.2
        exact ⟨p', .add sample.1 sample.2 hreached hadd⟩
  obtain ⟨p', havg, -⟩ := hreached.knows.avg (List.Perm.refl _)
  exact ⟨p', p, _, hreached, List.Perm.refl _, havg⟩

theorem Read.settling (h : Read samples p) : Settling samples [] p := by
  obtain ⟨before, order, hreached, horder, havg⟩ := h
  obtain ⟨p', havg', hsettling⟩ := hreached.knows.avg horder
  obtain rfl := Option.some.inj (havg.symm.trans havg')
  exact hsettling

theorem Tracks.unseen {done : List (List τ)} (h : Tracks p host [] done) :
    p.vals.lookup host = none ∧ p.avgs.lookup host = none ∧ p.ptile.lookup host = none := by
  have hvals : host ∉ p.vals := fun hmem => h.seen.mp hmem rfl
  rcases h.results with ⟨havgs, hptile, -⟩ | ⟨hne, -⟩
  · exact ⟨AList.lookup_eq_none.mpr hvals, havgs, hptile⟩
  · exact absurd rfl hne

theorem Settled.sameAt {l : List τ} (h : Settled p host l) (h' : Settled p' host l) :
    SameAt host p p' := by
  have hinj := List.map_injective_iff.mpr (Option.some_injective τ)
  obtain ⟨avgs, ptile, havgs, hptile, hrecords⟩ := h.results
  obtain ⟨avgs', ptile', havgs', hptile', hrecords'⟩ := h'.results
  obtain rfl : avgs = avgs' := hinj (hrecords.avgs.trans hrecords'.avgs.symm)
  obtain rfl : ptile = ptile' := hinj (hrecords.ptile.trans hrecords'.ptile.symm)
  exact ⟨h'.vals.trans h.vals.symm, havgs'.trans havgs.symm, hptile'.trans hptile.symm⟩

/-- Neither call ever fails, and after a call of `avg` the statistics depend on the samples only. -/
theorem statistics_of_samples (samples : List (κ × τ)) :
    (∀ p, Reached samples p → (∀ host time, ∃ p', p.add host time = some p') ∧
      ∀ order : List κ, order.Perm p.vals.keys → ∃ p', p.avg order = some p') ∧
    ∀ p, Read samples p →
      (∀ host, samplesOf host samples ≠ [] → Settled p host (samplesOf host samples)) ∧
        ∀ p', Read samples p' → ∀ host, SameAt host p p' := by
  refine ⟨fun p hreached => ⟨fun host time => ?_, fun order horder => ?_⟩,
    fun p hread => ⟨fun host hne => ?_, fun p' hread' host => ?_⟩⟩
  · obtain ⟨p', hadd, -⟩ := hreached.knows.add host time
    exact ⟨p', hadd⟩
  · obtain ⟨p', havg, -⟩ := hreached.knows.avg horder
    exact ⟨p', havg⟩
  · exact hread.settling.settled host hne List.not_mem_nil
  · by_cases hne : samplesOf host samples = []
    · obtain ⟨done, htracks⟩ := hread.settling.knows host
      obtain ⟨done', htracks'⟩ := hread'.settling.knows host
      rw [hne] at htracks htracks'
      obtain ⟨hvals, havgs, hptile⟩ := htracks.unseen
      obtain ⟨hvals', havgs', hptile'⟩ := htracks'.unseen
      exact ⟨hvals'.trans hvals.symm, havgs'.trans havgs.symm, hptile'.trans hptile.symm⟩
    · exact (hread.settling.settled host hne List.not_mem_nil).sameAt
        (hread'.settling.settled host hne List.not_mem_nil)

def sampleTimes : List (Str × Nat) :=
  (List.range 21).map fun i => (['h'], i)

theorem statistics_of_samples_sample : ∃ p, Read sampleTimes p ∧
    p.vals.lookup ['h'] = some [20] ∧ p.avgs.lookup ['h'] = some [9] ∧
      p.ptile.lookup ['h'] = some [18] := by
  obtain ⟨p, hread⟩ := exists_read sampleTimes
  have hsettled := ((statistics_of_samples sampleTimes).2 p hread).1 ['h'] (by decide)
  have hgroups : groups avgTrials (samplesOf ['h'] sampleTimes) = [List.range 20] := by decide
  have hsorted : sort (List.range 20) = List.range 20 :=
    List.mergeSort_of_pairwise (by decide)
  have hinj := List.map_injective_iff.mpr (Option.some_injective Nat)
  obtain ⟨avgs, ptile, havgs, hptile, hmedian, hninety⟩ := hsettled.results
  rw [hgroups, List.map_singleton, nthSmallest, hsorted] at hmedian hninety
  obtain rfl : avgs = [9] := hinj (hmedian.trans (by decide))
  obtain rfl : ptile = [18] := hinj (hninety.trans (by decide))
  exact ⟨p, hread, hsettled.vals, havgs, hptile⟩

end MemcachedStatsProvider

end CloudComputing.Minidc
