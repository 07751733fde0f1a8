import CloudComputing.KeyValueStore.CreateRead

/-!
# Which update the replicas end up with

An entry carries no version, so a replica holds what it handled last.  One tick
apart, updates are handled in the order they were issued.  Within a tick `ENrecv`
hands them over in an order of its own, which is another one at each replica.
-/

namespace CloudComputing.KeyValueStore

open Lib Relation

def Request.updateOf (key : Str) : Request → Option Str
  | .update key' value => if key' = key then some value else none
  | .create _ _ | .read _ | .delete _ => none

theorem Request.updateOf_eq_some {key value : Str} {request : Request} :
    request.updateOf key = some value ↔ request = .update key value := by
  cases request with
  | update key' value' => simp [updateOf]
  | create | read | delete => simp [updateOf]

/-- A client leaves the key alone, or updates it with a value that an entry can carry. -/
def Request.Updates (key : Str) (request : Request) : Prop :=
  request.Spares key ∨ ∃ value, value ≠ [] ∧ ':' ∉ value ∧ request = .update key value

theorem Request.Updates.spares {key : Str} {request : Request} (h : request.Updates key)
    (hnone : request.updateOf key = none) : request.Spares key := by
  rcases h with hspares | ⟨value, -, -, hupdate⟩
  · exact hspares
  · rw [Request.updateOf_eq_some.mpr hupdate] at hnone
    cases hnone

theorem Request.Updates.parsable {key : Str} {request : Request} (hkey : KeyValueStore.Plain key)
    (h : request.Updates key) : request.Parsable := by
  rcases h with hspares | ⟨value, -, hcolon, rfl⟩
  · exact hspares.1
  · exact ⟨hkey, hcolon⟩

/-- The values of the `UPDATE`s of the key, in the order they are issued. -/
def Round.updatesOf (key : Str) (round : Round) : List Str :=
  round.requests.filterMap fun call => call.2.2.updateOf key

namespace World

/-- `ENsend` refuses no `UPDATE` of the key in this tick. -/
def Accepted {R : SortedRing} (hash : Str → Nat) (group : Group R) (key : Str) (round : Round)
    (w : World) : Prop :=
  ∀ earlier call later v, round.requests = earlier ++ call :: later →
    w.mp2Run hash group.addresses { round with requests := earlier } = some v →
    (call.2.2.updateOf key).isSome →
    Fits (call.2.2.message call.1 call.2.1 v.nextTransID.gTransID).toString

/-- Ticks in which `c` updates the key with these values, in each tick with as many as `p` allows,
and nobody else changes it. -/
inductive UpdateTicks {R : SortedRing} (hash : Str → Nat) (group : Group R) (c : Address)
    (key : Str) (p : List Str → Prop) (w : World) : List Str → World → Prop
  | start : UpdateTicks hash group c key p w [] w
  | tick {values : List Str} {v v' : World} (h : UpdateTicks hash group c key p w values v)
      (round : Round) (hover : round.Over hash group (Request.Updates key))
      (hone : ∀ call ∈ round.requests, (call.2.2.updateOf key).isSome → call.1 = c)
      (hp : p (round.updatesOf key)) (haccepted : Accepted hash group key round v)
      (hturn : v.turn hash group.addresses round = some v') (hlt : v'.transID < 2 ^ 31) :
      UpdateTicks hash group c key p w (values ++ round.updatesOf key) v'

variable {R : SortedRing} {hash : Str → Nat} {group : Group R} {q : Request → Prop}
  {w w' w₀ v v' : World} {a b c : Address} {key value : Str} {values : List Str}
  {p : List Str → Prop} {round : Round}

/-! ## A tick with an update or without -/

theorem over_of_no_update (hover : round.Over hash group (Request.Updates key))
    (hnone : round.updatesOf key = []) : round.Over hash group (Request.Spares key) := by
  have hall := List.filterMap_eq_nil_iff.mp hnone
  exact ⟨hover.1, fun call hcall => ⟨(hover.2 call hcall).1,
    Request.Updates.spares (hover.2 call hcall).2 (hall call hcall)⟩⟩

theorem called_of_update (hover : round.Over hash group (Request.Updates key))
    (hupdates : round.updatesOf key = [value]) (haccepted : Accepted hash group key round w)
    (hturn : w.turn hash group.addresses round = some w') (hlt : w'.transID < 2 ^ 31) :
    ':' ∉ value ∧ ∃ a u v, Called hash group (Request.Spares key) (a, u, .update key value) w v w' ∧
      Fits ((Request.update key value).message a u v.nextTransID.gTransID).toString := by
  obtain ⟨earlier, ⟨a, u, request⟩, later, hrequests, hbefore, hcall, hafter⟩ :=
    List.filterMap_eq_cons_iff.mp hupdates
  obtain rfl : request = .update key value := Request.updateOf_eq_some.mp hcall
  have hmem : (a, u, Request.update key value) ∈ round.requests := by simp [hrequests]
  have hcolon : ':' ∉ value := by
    rcases (hover.2 _ hmem).2 with hspares | ⟨value', -, hcolon, heq⟩
    · exact absurd rfl hspares.2
    · obtain ⟨-, rfl⟩ := Request.update.inj heq
      exact hcolon
  have hspare : ∀ call ∈ earlier ++ later,
      call.1 ∈ group.addresses ∧ call.2.2.Spares key := by
    intro call hmem
    have hnone : call.2.2.updateOf key = none := by
      rcases List.mem_append.mp hmem with hmem | hmem
      · exact hbefore call hmem
      · exact List.filterMap_eq_nil_iff.mp hafter call hmem
    have hmem' : call ∈ round.requests := by
      rw [hrequests]
      rcases List.mem_append.mp hmem with hmem | hmem
      · exact List.mem_append_left _ hmem
      · exact List.mem_append_right _ (List.mem_cons_of_mem _ hmem)
    exact ⟨(hover.2 call hmem').1, Request.Updates.spares (hover.2 call hmem').2 hnone⟩
  -- the tick up to the call
  obtain ⟨w₁, w₂, w₃, h₁, h₂, h₃, -⟩ := turn_loops hturn
  rw [hrequests, List.foldlM_append, Option.bind_eq_bind, Option.bind_eq_some_iff] at h₃
  obtain ⟨v, hv, -⟩ := h₃
  have hrun : w.mp2Run hash group.addresses { round with requests := earlier } = some v :=
    mp2Run_eq_some.mpr ⟨w₁, w₂, h₁, h₂, hv⟩
  refine ⟨hcolon, a, u, v, ⟨round, earlier, later, hrequests, ⟨hover.1, hspare⟩,
    (hover.2 _ hmem).1, hrun, hturn, hlt⟩, ?_⟩
  exact haccepted earlier _ later v hrequests hrun (by simp [hcall])

/-! ## The last update -/

/-- The replicas have an entry of the key, and no `DELETE` of it is under way. -/
structure Present (hash : Str → Nat) (R : SortedRing) (key : Str) (w : World) : Prop where
  kept : WritesOnly w key fun _ m => m.type ≠ .delete
  there : ∀ a ∈ R.replicas hash key, (w.node a).ht.get? key ≠ none

theorem Present.fixed (hspare : ∀ r, q r → r.Spares key)
    (h : Fixed hash R (Local hash group q) w w') (hp : Present hash R key w) :
    Present hash R key w' where
  kept := hp.kept.fixed hspare h
  there := by
    intro a ha
    cases h with
    | change h =>
        exact get?_ne_none_of_change (hp.kept.mono fun _ _ hm _ => hm) h (hp.there a ha)
    | setRing self h =>
        subst h
        simpa using hp.there a ha

theorem Present.follows (hspare : ∀ r, q r → r.Spares key) (h : Follows hash group q w w')
    (hp : Present hash R key w) : Present hash R key w' :=
  invariant_of_run (fun _ _ hstep hv => hv.fixed hspare hstep) h.path hp

/-- The replicas have the key, and the last value issued arrives at them. -/
structure Settling (hash : Str → Nat) (R : SortedRing) (key : Str) (values : List Str)
    (w : World) : Prop where
  present : Present hash R key w
  last : ∀ value, values.getLast? = some value → Arriving hash R key value w

theorem Settling.follows (hspare : ∀ r, q r → r.Spares key) (ho : Orderly hash group w)
    (h : Follows hash group q w w') (hs : Settling hash R key values w) :
    Settling hash R key values w' where
  present := hs.present.follows hspare h
  last := fun value hvalue => (hs.last value hvalue).follows hspare ho h

/-- An update in a tick replaces what was there before. -/
theorem settling_call {u : ReplicaType} {w₂ : World} (hkey : Plain key) (hcolon : ':' ∉ value)
    (hspare : ∀ r, q r → r.Spares key) (hp : Present hash R key w)
    (hparts : CallParts hash group q (a, u, .update key value) w w₂ v v' w')
    (hfits : Fits ((Request.update key value).message a u v.nextTransID.gTransID).toString) :
    Settling hash R key (values ++ [value]) w' := by
  have hv : Present hash R key v :=
    (hp.follows hspare hparts.halfway.follows).follows hspare hparts.earlier
  have hidle : NoWrite v key := hparts.halfway.noWrite.follows hspare hparts.earlier
  have hparse : (Request.update key value).Parsable := ⟨hkey, hcolon⟩
  have harriving : Arriving hash R key value v' :=
    arriving_call hparts hidle hparse rfl (fun b hb => Or.inr ⟨rfl, hv.there b hb⟩) hfits
  have hpresent : Present hash R key v' := by
    obtain ⟨r₀, r₁, r₂, -, rfl⟩ := hparts.find
    exact ⟨harriving.writing.mono fun _ _ hm => hm.1,
      fun b hb => by simpa [refuse] using hv.there b hb⟩
  have hcalled : Settling hash R key (values ++ [value]) v' := by
    refine ⟨hpresent, fun value' hlast => ?_⟩
    obtain rfl : value = value' := by simpa using hlast
    exact harriving
  exact hcalled.follows hspare hparts.orderly hparts.later

theorem UpdateTicks.ticks (hkey : Plain key) (h : UpdateTicks hash group c key p w₀ values w) :
    Ticks hash group Request.Parsable w₀ w := by
  induction h with
  | start => exact .refl
  | tick h round hover hone hp haccepted hturn hlt ih =>
      have hparse : round.Over hash group Request.Parsable :=
        ⟨hover.1, fun call hcall => ⟨(hover.2 call hcall).1, (hover.2 call hcall).2.parsable hkey⟩⟩
      exact ih.tail ⟨round, hparse, hturn, hlt⟩

theorem orderly_ticks (h : Ticks hash group Request.Parsable w w') (ho : Orderly hash group w)
    (hr : Rested group w) : Orderly hash group w' ∧ Rested group w' := by
  obtain ⟨ho', hr', -⟩ := ticks_invariant (P := fun _ => True) (fun _ hr => hr)
    (fun _ _ _ _ _ _ => trivial) h ho hr trivial
  exact ⟨ho', hr'⟩

theorem settling_updateTicks (hkey : Plain key) (ho : Orderly hash group w₀)
    (hr : Rested group w₀) (hpresent : Present hash R key w₀)
    (h : UpdateTicks hash group c key (fun values => values.length ≤ 1) w₀ values w) :
    Settling hash R key values w := by
  induction h with
  | start => exact ⟨hpresent, by simp⟩
  | tick h round hover hone hp haccepted hturn hlt hsettling =>
      obtain ⟨hov, hrv⟩ := orderly_ticks (h.ticks hkey) ho hr
      cases hupdates : round.updatesOf key with
      | nil =>
          obtain ⟨hquiet, -, -⟩ := rested_ticked (fun _ hr => hr.1) hov hrv
            ⟨round, over_of_no_update hover hupdates, hturn, hlt⟩
          rw [List.append_nil]
          exact hsettling.follows (fun _ hr => hr) hov hquiet
      | cons value rest =>
          obtain rfl : rest = [] := by
            rw [hupdates, List.length_cons] at hp
            exact List.eq_nil_of_length_eq_zero (by omega)
          obtain ⟨hcolon, a, u, v, hcall, hfits⟩ :=
            called_of_update hover hupdates haccepted hturn hlt
          obtain ⟨w₂, v', hparts⟩ := callParts (fun _ hr => hr.1) hov hrv hcall ⟨hkey, hcolon⟩
          exact settling_call hkey hcolon (fun _ hr => hr) hsettling.present hparts hfits

/-- With at most one `UPDATE` of a key in a tick, all three replicas end up with the value of the
last one. -/
theorem last_update_held (hkey : Plain key)
    (hstart : Ticks hash group Request.Parsable initial w₀)
    (hpresent : ∀ a ∈ R.replicas hash key, (w₀.node a).ht.get? key ≠ none)
    (hidle : NoWrite w₀ key)
    (h : UpdateTicks hash group c key (fun values => values.length ≤ 1) w₀ values w)
    (hlast : values.getLast? = some value) (hdone : NoWrite w key) :
    ∀ a ∈ R.replicas hash key, Holds w a key value := by
  obtain ⟨ho, hr⟩ := orderly_ticks hstart orderly_initial rested_initial
  have hpresent₀ : Present hash R key w₀ :=
    ⟨fun b s hs uninit m hm hwrites => absurd hwrites (hidle b s hs uninit m hm), hpresent⟩
  have hsettling := settling_updateTicks hkey ho hr hpresent₀ h
  exact fun a ha => ((hsettling.last value hlast).due a ha).holds hdone

/-! ## Updates of three nodes -/

theorem pending_eq_nil (ho : Orderly hash group w) (hr : Rested group w) (hnet : w.net = [])
    (b : Address) : w.pending b = [] := by
  rw [List.eq_nil_iff_forall_not_mem]
  intro s hs
  have hqueue := hr.mp2q b (ho.routed b s hs).1
  simp [World.pending, hnet, hqueue] at hs

namespace UpdateRun

def updateCall (value : Str) : Address × ReplicaType × Request :=
  (sampleNode 1, .primary, .update ['k'] value)

def updateTurn (values : List Str) (w : World) : Option World :=
  w.sampleTurn (values.map updateCall)

def acceptsAll (values : List Str) (w : World) : Prop :=
  ∀ i ∈ List.range values.length, ∀ v ∈ w.mp2Run sampleHash threeGroup.addresses
    (sampleRound ((values.take i).map updateCall)),
    Fits ((Request.update ['k'] (values.getD i [])).message (sampleNode 1) .primary
      v.nextTransID.gTransID).toString

instance : Decidable (acceptsAll values w) := inferInstanceAs (Decidable (∀ i ∈ _, ∀ v ∈ _, _))

theorem accepted_of_acceptsAll (h : acceptsAll values w) :
    Accepted sampleHash threeGroup ['k'] (sampleRound (values.map updateCall)) w := by
  intro earlier call later v hrequests hrun _
  obtain ⟨before, after, rfl, rfl, hafter⟩ := List.map_eq_append_iff.mp hrequests
  obtain ⟨value, rest, rfl, rfl, -⟩ := List.map_eq_cons_iff.mp hafter
  have htake : (before ++ value :: rest).take before.length = before := List.take_left
  have hfits := h before.length (by simp) v (by rw [htake]; exact hrun)
  simpa [updateCall] using hfits

theorem updatesOf_sample : (sampleRound (values.map updateCall)).updatesOf ['k'] = values := by
  simp [Round.updatesOf, sampleRound, List.filterMap_map, Function.comp_def, updateCall,
    Request.updateOf]

theorem updateTicks_sample {values' : List Str}
    (h : UpdateTicks sampleHash threeGroup (sampleNode 1) ['k'] p w values v)
    (hvalues : ∀ value ∈ values', value ≠ [] ∧ ':' ∉ value) (hp : p values')
    (haccepts : acceptsAll values' v) (hturn : updateTurn values' v = some v')
    (hlt : v'.transID < 2 ^ 31) :
    UpdateTicks sampleHash threeGroup (sampleNode 1) ['k'] p w (values ++ values') v' := by
  have hover : (sampleRound (values'.map updateCall)).Over sampleHash threeGroup
      (Request.Updates ['k']) := by
    refine sampleRound_over fun call hcall => ?_
    obtain ⟨value, hmem, rfl⟩ := List.mem_map.mp hcall
    have hmember : sampleNode 1 ∈ threeGroup.addresses := by decide
    exact ⟨hmember, Or.inr ⟨value, (hvalues value hmem).1, (hvalues value hmem).2, rfl⟩⟩
  have htick := h.tick (sampleRound (values'.map updateCall)) hover
    (fun call hcall _ => by
      obtain ⟨value, -, rfl⟩ := List.mem_map.mp hcall
      rfl)
    (by rwa [updatesOf_sample]) (accepted_of_acceptsAll haccepts) hturn hlt
  rwa [updatesOf_sample] at htick

/-- The worlds before the updates, after each of the two ticks with updates, and in the end. -/
structure Stages where
  created : World
  handled : World
  settled : World
  once : World
  twice : World
  delivered : World
  judged : World

def stages (first second : List Str) : Option Stages := do
  let created ← CreateRun.createTurn ['u'] initial
  let handled ← created.sampleTurn []
  let settled ← handled.sampleTurn []
  let once ← updateTurn first settled
  let twice ← updateTurn second once
  let delivered ← updateTurn [] twice
  let judged ← updateTurn [] delivered
  return ⟨created, handled, settled, once, twice, delivered, judged⟩

namespace Stages

def worlds (s : Stages) : List World :=
  [s.created, s.handled, s.settled, s.once, s.twice, s.delivered, s.judged]

/-- No id overflows, nothing is refused, and nothing is under way before the updates and after. -/
def Quiet (first second : List Str) (s : Stages) : Prop :=
  (∀ w ∈ s.worlds, w.transID < 2 ^ 31) ∧ s.settled.net = [] ∧ s.judged.net = [] ∧
    acceptsAll first s.settled ∧ acceptsAll second s.once ∧
    ∀ a ∈ threeRing.sortedRing.replicas sampleHash ['k'],
      ((s.settled.node a).ht.get? ['k']).isSome

instance {first second : List Str} {s : Stages} : Decidable (s.Quiet first second) :=
  inferInstanceAs (Decidable (_ ∧ _))

end Stages

theorem run_of_stages {first second : List Str} {s : Stages} (h : stages first second = some s)
    (hquiet : s.Quiet first second) (hfirst : ∀ value ∈ first, value ≠ [] ∧ ':' ∉ value)
    (hsecond : ∀ value ∈ second, value ≠ [] ∧ ':' ∉ value) (hnil : p []) (hp : p first)
    (hp' : p second) :
    Ticks sampleHash threeGroup Request.Parsable initial s.settled ∧
      UpdateTicks sampleHash threeGroup (sampleNode 1) ['k'] p s.settled (first ++ second)
        s.judged := by
  unfold stages at h
  simp only [Option.bind_eq_bind, Option.bind_eq_some_iff, Option.pure_def,
    Option.some.injEq] at h
  obtain ⟨created, h₁, handled, h₂, settled, h₃, once, h₄, twice, h₅, delivered, h₆, judged, h₇,
    rfl⟩ := h
  obtain ⟨hbound, -, -, haccepts, haccepts', -⟩ := hquiet
  simp only [Stages.worlds, List.forall_mem_cons, List.not_mem_nil, false_implies,
    implies_true, and_true] at hbound
  obtain ⟨hb₁, hb₂, hb₃, hb₄, hb₅, hb₆, hb₇⟩ := hbound
  have hnone : ∀ value ∈ ([] : List Str), value ≠ [] ∧ ':' ∉ value := by simp
  have haccepts₀ : ∀ w, acceptsAll [] w := by simp [acceptsAll]
  constructor
  · have hover : (sampleRound [(sampleNode 1, .primary, .create ['k'] ['u'])]).Over sampleHash
        threeGroup Request.Parsable := by
      refine sampleRound_over fun call hcall => ?_
      obtain rfl := List.mem_singleton.mp hcall
      exact ⟨by decide, by decide, by decide⟩
    exact .tail (.tail (.single ⟨_, hover, h₁, hb₁⟩) (ticked_sample h₂ hb₂)) (ticked_sample h₃ hb₃)
  · have htwice := updateTicks_sample (updateTicks_sample .start hfirst hp haccepts h₄ hb₄) hsecond
      hp' haccepts' h₅ hb₅
    have hdelivered := updateTicks_sample htwice hnone hnil (haccepts₀ twice) h₆ hb₆
    have hjudged := updateTicks_sample hdelivered hnone hnil (haccepts₀ delivered) h₇ hb₇
    simpa using hjudged

end UpdateRun

open UpdateRun

/-- Two updates in one tick reach the replicas in different orders. -/
theorem replicas_diverge : ¬ ∀ (R : SortedRing) (hash : Str → Nat) (group : Group R) (c : Address)
    (key value : Str) (values : List Str) (w₀ w : World), Plain key →
    Ticks hash group Request.Parsable initial w₀ →
    (∀ a ∈ R.replicas hash key, (w₀.node a).ht.get? key ≠ none) → NoWrite w₀ key →
    UpdateTicks hash group c key (fun _ => True) w₀ values w → values.getLast? = some value →
    (∀ b, w.pending b = []) → ∀ a ∈ R.replicas hash key, Holds w a key value := by
  intro hclaim
  have hrun : (stages [['v'], ['w']] []).any (fun s => s.Quiet [['v'], ['w']] [] ∧
      ∃ a ∈ threeRing.sortedRing.replicas sampleHash ['k'], ¬ Holds s.judged a ['k'] ['w']) =
        true := by decide +kernel
  obtain ⟨s, hs, hand⟩ := (Option.any_eq_true _ _).mp hrun
  obtain ⟨hquiet, a, ha, hdiverged⟩ := of_decide_eq_true hand
  obtain ⟨hstart, hupdates⟩ := run_of_stages hs hquiet (p := fun _ => True) (by decide)
    (by decide) trivial trivial trivial
  obtain ⟨ho, hr⟩ := orderly_ticks hstart orderly_initial rested_initial
  obtain ⟨ho', hr'⟩ := orderly_ticks (hupdates.ticks (by decide)) ho hr
  obtain ⟨-, hnet, hnet', -, -, hthere⟩ := hquiet
  have hidle : NoWrite s.settled ['k'] := by
    intro b s hs
    rw [pending_eq_nil ho hr hnet b] at hs
    cases hs
  exact hdiverged (hclaim threeRing.sortedRing sampleHash threeGroup (sampleNode 1) ['k'] ['w'] _
    s.settled s.judged (by decide) hstart (fun a ha => Option.isSome_iff_ne_none.mp (hthere a ha))
    hidle hupdates rfl (pending_eq_nil ho' hr' hnet') a ha)

theorem last_update_held_threeNodes : ∃ s, stages [['v']] [['w']] = some s ∧
    ∀ a ∈ threeRing.sortedRing.replicas sampleHash ['k'], Holds s.judged a ['k'] ['w'] := by
  have hrun : (stages [['v']] [['w']]).any (fun s => s.Quiet [['v']] [['w']]) = true := by
    decide +kernel
  obtain ⟨s, hs, hand⟩ := (Option.any_eq_true _ _).mp hrun
  have hquiet : s.Quiet [['v']] [['w']] := of_decide_eq_true hand
  obtain ⟨hstart, hupdates⟩ := run_of_stages hs hquiet (p := fun values => values.length ≤ 1)
    (by decide) (by decide) (by decide) (by decide) (by decide)
  obtain ⟨ho, hr⟩ := orderly_ticks hstart orderly_initial rested_initial
  obtain ⟨ho', hr'⟩ := orderly_ticks (hupdates.ticks (by decide)) ho hr
  obtain ⟨-, hnet, hnet', -, -, hthere⟩ := hquiet
  have hquiet : ∀ {v : World}, (∀ b, v.pending b = []) → NoWrite v ['k'] := by
    intro v hnil b s hs
    rw [hnil b] at hs
    cases hs
  exact ⟨s, hs, last_update_held (by decide) hstart
    (fun a ha => Option.isSome_iff_ne_none.mp (hthere a ha)) (hquiet (pending_eq_nil ho hr hnet))
    hupdates rfl (hquiet (pending_eq_nil ho' hr' hnet'))⟩

end World

end CloudComputing.KeyValueStore
