import CloudComputing.Lib.Dict
import CloudComputing.Lib.Fold
import CloudComputing.Lib.History
import CloudComputing.Member

/-!
# Bandwidth history

`minidc/stats.py`, the provider for the bandwidth plots.  For every host it keeps
the last counters that were reported and the difference of each to the one
before.  A host is whatever the caller takes for a key.
-/

namespace CloudComputing.Minidc

open Lib

/-- `JSON_MAX` -/
def jsonMax : Nat := 30

/-- `{'in': …, 'out': …}` -/
structure Bandwidth where
  inBytes : Int
  outBytes : Int
deriving DecidableEq, Repr

instance : Sub Bandwidth :=
  ⟨fun b b' => ⟨b.inBytes - b'.inBytes, b.outBytes - b'.outBytes⟩⟩

structure BandwidthStatsProvider (κ : Type) where
  totals : Dict κ (List Bandwidth)
  slices : Dict κ (List Bandwidth)

namespace BandwidthStatsProvider

structure Call (κ : Type) where
  host : κ
  txbytes : Int
  rxbytes : Int

section

variable {κ : Type} [DecidableEq κ]

def new : BandwidthStatsProvider κ :=
  ⟨∅, ∅⟩

/-- `if host not in self.totals` -/
def see (host : κ) (p : BandwidthStatsProvider κ) : BandwidthStatsProvider κ :=
  if host ∈ p.totals then p
  else ⟨Dict.set host [⟨0, 0⟩] p.totals, Dict.set host [] p.slices⟩

def add (host : κ) (txbytes rxbytes : Int) (provider : BandwidthStatsProvider κ) :
    Option (BandwidthStatsProvider κ) := do
  let p := provider.see host
  let totals ← p.totals.lookup host
  let last ← totals.getLast?
  let slices ← p.slices.lookup host
  let slices := slices ++ [⟨rxbytes - last.inBytes, txbytes - last.outBytes⟩]
  let totals := totals ++ [⟨rxbytes, txbytes⟩]
  -- one offset for both lists, taken from the longer one
  let start := if jsonMax < totals.length then totals.length - jsonMax else 0
  return ⟨Dict.set host (totals.drop start) p.totals, Dict.set host (slices.drop start) p.slices⟩

/-- Calls one after the other. -/
def adds (calls : List (Call κ)) (p : BandwidthStatsProvider κ) :
    Option (BandwidthStatsProvider κ) :=
  calls.foldlM (fun p call => p.add call.host call.txbytes call.rxbytes) p

end

/-! ## What is kept -/

variable {κ : Type} [DecidableEq κ] {p : BandwidthStatsProvider κ} {calls : List (Call κ)}
  {host : κ}

def Call.total (call : Call κ) : Bandwidth :=
  ⟨call.rxbytes, call.txbytes⟩

def reports (host : κ) (calls : List (Call κ)) : List Bandwidth :=
  (calls.filter fun call => call.host = host).map Call.total

/-- The last of it, in front of it the counters a host starts with. -/
def window (host : κ) (calls : List (Call κ)) : List Bandwidth :=
  (⟨0, 0⟩ :: reports host calls).rtake jsonMax

/-- The provider keeps this window, and the differences in it, of the hosts that it was told of. -/
structure Keeps (p : BandwidthStatsProvider κ) (calls : List (Call κ)) : Prop where
  totals : ∀ host, p.totals.lookup host =
    if reports host calls = [] then none else some (window host calls)
  slices : ∀ host, p.slices.lookup host =
    if reports host calls = [] then none else some (deltas (window host calls))

/-- The lists of one host fit together. -/
structure Consistent (totals slices : List Bandwidth) : Prop where
  length_slices : slices.length = totals.length - 1
  two_le : 2 ≤ totals.length
  le_max : totals.length ≤ jsonMax
  slice : ∀ i < slices.length, ∃ prev next, totals[i]? = some prev ∧ totals[i + 1]? = some next ∧
    slices[i]? = some (next - prev)

theorem keeps_new : Keeps (new : BandwidthStatsProvider κ) [] where
  totals _ := rfl
  slices _ := rfl

theorem reports_concat (call : Call κ) : reports host (calls ++ [call]) =
    if call.host = host then reports host calls ++ [call.total]
    else reports host calls := by
  unfold reports
  by_cases h : call.host = host
  · simp [h]
  · simp [h]

/-- Before the first report a host is given the empty history. -/
theorem Keeps.see (h : Keeps p calls) (host : κ) :
    (p.see host).totals.lookup host = some (window host calls) ∧
      (p.see host).slices.lookup host = some (deltas (window host calls)) := by
  have hmem : host ∈ p.totals ↔ reports host calls ≠ [] := by
    rw [← AList.lookup_isSome, h.totals]
    split <;> simp_all
  unfold BandwidthStatsProvider.see
  split
  case isTrue hseen =>
    rw [h.totals, h.slices, if_neg (hmem.mp hseen), if_neg (hmem.mp hseen)]
    exact ⟨rfl, rfl⟩
  case isFalse hnew =>
    have hnil : reports host calls = [] := by
      by_contra hne
      exact hnew (hmem.mpr hne)
    have hwindow : window host calls = [⟨0, 0⟩] := by
      rw [window, hnil]
      rfl
    rw [Dict.lookup_set_self, Dict.lookup_set_self, hwindow]
    exact ⟨rfl, rfl⟩

theorem see_other {other : κ} (hne : other ≠ host) :
    (p.see host).totals.lookup other = p.totals.lookup other ∧
      (p.see host).slices.lookup other = p.slices.lookup other := by
  unfold BandwidthStatsProvider.see
  split
  case isTrue => exact ⟨rfl, rfl⟩
  case isFalse => exact ⟨Dict.lookup_set_ne hne, Dict.lookup_set_ne hne⟩

theorem window_getLast? : (window host calls).getLast? =
    some ((reports host calls).getLast?.getD ⟨0, 0⟩) := by
  rw [window, getLast?_rtake (by decide), List.getLast?_cons]

theorem window_concat (call : Call κ) (hhost : call.host = host) :
    window host (calls ++ [call]) = (window host calls ++ [call.total]).rtake jsonMax := by
  rw [window, window, reports_concat, if_pos hhost, rtake_append_rtake, List.cons_append]

/-- What a call does to a dictionary that is made of the windows, to the host it is about and to
the others. -/
theorem lookup_set_window {d d' : Dict κ (List Bandwidth)} {f : List Bandwidth → List Bandwidth}
    (call : Call κ)
    (h : ∀ host, d.lookup host =
      if reports host calls = [] then none else some (f (window host calls)))
    (hsame : ∀ host ≠ call.host, d'.lookup host = d.lookup host) (host : κ) :
    (Dict.set call.host (f (window call.host (calls ++ [call]))) d').lookup host =
      if reports host (calls ++ [call]) = [] then none
      else some (f (window host (calls ++ [call]))) := by
  rw [Dict.lookup_set]
  by_cases hhost : host = call.host
  · subst hhost
    rw [if_pos rfl, reports_concat, if_pos rfl, if_neg (by simp)]
  · rw [if_neg hhost, hsame host hhost, h, window, window, reports_concat,
      if_neg (Ne.symm hhost)]

theorem Keeps.add (h : Keeps p calls) (call : Call κ) :
    ∃ p', p.add call.host call.txbytes call.rxbytes = some p' ∧ Keeps p' (calls ++ [call]) ∧
      ∀ other ≠ call.host, p'.totals.lookup other = p.totals.lookup other ∧
        p'.slices.lookup other = p.slices.lookup other := by
  obtain ⟨htotals, hslices⟩ := h.see call.host
  obtain ⟨last, hlast⟩ : ∃ last, (window call.host calls).getLast? = some last :=
    ⟨_, window_getLast?⟩
  have hwindow : window call.host (calls ++ [call]) = _ := window_concat call rfl
  have hdeltas := deltas_concat (x := call.total) hlast
  have hsub : call.total - last =
      ⟨call.rxbytes - last.inBytes, call.txbytes - last.outBytes⟩ := rfl
  have hstart : ∀ l : List Bandwidth,
      (if jsonMax < l.length then l.length - jsonMax else 0) = l.length - jsonMax := by
    intro l
    split <;> omega
  have hadd : p.add call.host call.txbytes call.rxbytes =
      some ⟨Dict.set call.host (window call.host (calls ++ [call])) (p.see call.host).totals,
        Dict.set call.host (deltas (window call.host (calls ++ [call])))
          (p.see call.host).slices⟩ := by
    simp only [BandwidthStatsProvider.add, htotals, hslices, hlast, Option.bind_eq_bind,
      Option.bind_some, Option.pure_def, hstart]
    rw [hwindow, List.rtake, deltas_drop, hdeltas, hsub, Call.total]
  refine ⟨_, hadd, ⟨fun host => ?totals, fun host => ?slices⟩, fun other hne => ?others⟩
  case totals =>
    exact lookup_set_window (f := id) call h.totals (fun other hne => (see_other hne).1) host
  case slices =>
    exact lookup_set_window (f := deltas) call h.slices (fun other hne => (see_other hne).2) host
  case others =>
    rw [Dict.lookup_set_ne hne, Dict.lookup_set_ne hne]
    exact see_other hne

theorem keeps_adds (calls : List (Call κ)) :
    ∃ p, adds calls (new : BandwidthStatsProvider κ) = some p ∧ Keeps p calls := by
  induction calls using List.reverseRecOn with
  | nil => exact ⟨new, rfl, keeps_new⟩
  | append_singleton calls call ih =>
      obtain ⟨p, hp, hkeeps⟩ := ih
      obtain ⟨p', hadd, hkeeps', -⟩ := hkeeps.add call
      refine ⟨p', ?_, hkeeps'⟩
      rw [adds, List.foldlM_append]
      change (adds calls new).bind _ = _
      rw [hp]
      simpa using hadd

/-! ## Consistency -/

theorem consistent_window (h : reports host calls ≠ []) :
    Consistent (window host calls) (deltas (window host calls)) := by
  have hpos := List.length_pos_iff.mpr h
  refine ⟨length_deltas, ?_, ?_, fun i hi => ?_⟩
  · rw [window, length_rtake, List.length_cons, jsonMax]
    omega
  · rw [window, length_rtake]
    exact min_le_left _ _
  · rw [length_deltas] at hi
    have hprev := List.getElem?_eq_getElem (l := window host calls) (i := i) (by omega)
    have hnext := List.getElem?_eq_getElem (l := window host calls) (i := i + 1) (by omega)
    exact ⟨_, _, hprev, hnext, getElem?_deltas hprev hnext⟩

theorem reports_ne_nil (h : host ∈ calls.map Call.host) : reports host calls ≠ [] := by
  obtain ⟨call, hcall, rfl⟩ := List.mem_map.mp h
  intro hnil
  rw [reports, List.map_eq_nil_iff, List.filter_eq_nil_iff] at hnil
  simpa using hnil call hcall

/-- The lists of every host fit together after any calls, and a call is about its host only. -/
theorem adds_consistent (calls : List (Call κ)) :
    ∃ p, adds calls new = some p ∧
      (∀ host ∈ calls.map Call.host, ∃ totals slices, p.totals.lookup host = some totals ∧
        p.slices.lookup host = some slices ∧ Consistent totals slices ∧
          totals.getLast? = (reports host calls).getLast?) ∧
      ∀ call : Call κ, ∃ p', p.add call.host call.txbytes call.rxbytes = some p' ∧
        ∀ other ≠ call.host, p'.totals.lookup other = p.totals.lookup other ∧
          p'.slices.lookup other = p.slices.lookup other := by
  obtain ⟨p, hp, hkeeps⟩ := keeps_adds calls
  refine ⟨p, hp, fun host hhost => ?_, fun call => ?_⟩
  · have hne := reports_ne_nil hhost
    refine ⟨_, _, ?_, ?_, consistent_window hne, ?_⟩
    · rw [hkeeps.totals, if_neg hne]
    · rw [hkeeps.slices, if_neg hne]
    · rw [window_getLast?, List.getLast?_eq_some_getLast hne]
      rfl
  · obtain ⟨p', hadd, -, hothers⟩ := hkeeps.add call
    exact ⟨p', hadd, hothers⟩

end BandwidthStatsProvider

end CloudComputing.Minidc
