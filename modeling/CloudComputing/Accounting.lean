import Mathlib.Algebra.BigOperators.Ring.Finset
import Mathlib.Data.Finset.Prod
import CloudComputing.Addressee
import CloudComputing.NetworkBuffer

/-!
# The message counts of the network

Every message that is accepted is counted for its sender, and every message that
is handed over for its receiver.  The constructor does not clear the counters of
the node `MAX_NODES`, which the assertions of `ENsend` and `ENrecv` let through.
-/

namespace CloudComputing.EmulNet

open Lib

variable {δ : Type}

/-! ## What happens in a run -/

/-- The node and time of a call, and how many messages it put into the buffer or took out. -/
structure Event where
  id : Int
  time : Int
  accepted : Nat
  handed : Nat
deriving DecidableEq

def event (en : EmulNet δ) : Call δ → Event
  | .send dropped time myaddr _ _ size =>
      ⟨myaddr.id.toInt, time, if en.refuses dropped size then 0 else 1, 0⟩
  | .recv time myaddr => ⟨myaddr.id.toInt, time, 0, (en.enRecv time myaddr).2.length⟩

def events (en : EmulNet δ) : List (Call δ) → List Event
  | [] => []
  | c :: calls => en.event c :: events (en.call c) calls

/-- How many messages a node has sent or received at a time. -/
def tally (amount : Event → Nat) (id time : Int) (log : List Event) : Nat :=
  (log.map fun e => if e.id = id ∧ e.time = time then amount e else 0).sum

namespace Object

def call (o : Object δ) : Call δ → Option (Object δ × Event)
  | .send dropped time myaddr toaddr data size =>
      (o.enSend dropped time myaddr toaddr data size).map fun r =>
        (r.1, ⟨myaddr.id.toInt, time, if o.refuses dropped size then 0 else 1, 0⟩)
  | .recv time myaddr =>
      (o.enRecv time myaddr).map fun r => (r.1, ⟨myaddr.id.toInt, time, 0, r.2.length⟩)

def run : List (Call δ) → Object δ → Option (Object δ × List Event)
  | [], o => some (o, [])
  | c :: calls, o => do
      let (o, e) ← o.call c
      let (o, log) ← run calls o
      return (o, e :: log)

end Object

def Call.cell : Call δ → Int × Int
  | .send _ time myaddr _ _ _ => (myaddr.id.toInt, time)
  | .recv time myaddr => (myaddr.id.toInt, time)

/-- The ids of nodes, from one on, and the times of the emulation. -/
@[irreducible] def cells : Finset (Int × Int) :=
  (Finset.range maxNodes.toNat ×ˢ Finset.range maxTime.toNat).image fun p =>
    ((p.1 : Int) + 1, (p.2 : Int))

theorem mem_cells {p : Int × Int} :
    p ∈ cells ↔ 1 ≤ p.1 ∧ p.1 ≤ maxNodes ∧ 0 ≤ p.2 ∧ p.2 < maxTime := by
  have hnodes : maxNodes.toNat = maxNodes := rfl
  have htimes : maxTime.toNat = maxTime := rfl
  unfold cells
  simp only [Finset.mem_image, Finset.mem_product, Finset.mem_range]
  constructor
  · rintro ⟨q, ⟨hid, htime⟩, rfl⟩
    dsimp only
    omega
  · rintro ⟨hpos, hmax, htime, htime'⟩
    exact ⟨((p.1 - 1).toNat, p.2.toNat), ⟨by dsimp only; omega, by dsimp only; omega⟩,
      Prod.ext (by dsimp only; omega) (by dsimp only; omega)⟩

structure Object.Accounted (o : Object δ) (log : List Event) : Prop where
  wellFormed : o.emulnet.WellFormed
  sent : ∀ p ∈ cells, (o.sentMsgs p.1 p.2).toInt = tally Event.accepted p.1 p.2 log
  received : ∀ p ∈ cells, (o.recvMsgs p.1 p.2).toInt = tally Event.handed p.1 p.2 log
  total : ∑ p ∈ cells, (o.sentMsgs p.1 p.2).toInt - ∑ p ∈ cells, (o.recvMsgs p.1 p.2).toInt =
    o.emulnet.currbuffsize

/-- The counters are right in every state of a run that starts with the constructor. -/
def AlwaysAccounted (memory : Object δ) (calls : List (Call δ)) : Prop :=
  ∀ before, before <+: calls → ∃ o log,
    (Object.new memory).run before = some (o, log) ∧ o.Accounted log

/-- The constructor finds zeros in the row it does not clear. -/
def LastRowClear (memory : Object δ) : Prop :=
  ∀ t, 0 ≤ t → t < maxTime →
    memory.sentMsgs maxNodes t = 0 ∧ memory.recvMsgs maxNodes t = 0

def fresh : EmulNet δ :=
  new fun _ _ => 0

/-- No node sends or receives more messages at one time than an `int` can count. -/
def Countable (calls : List (Call δ)) : Prop :=
  ∀ p ∈ cells, tally Event.accepted p.1 p.2 (fresh.events calls) < 2 ^ 31 ∧
    tally Event.handed p.1 p.2 (fresh.events calls) < 2 ^ 31

section

variable {o : Object δ} {en en' : EmulNet δ} {c : Call δ} {calls before after : List (Call δ)}
  {amount : Event → Nat} {id time : Int} {log log' : List Event} {e : Event}

/-! ## Tallies -/

@[simp] theorem tally_nil : tally amount id time [] = 0 := rfl

theorem tally_cons : tally amount id time (e :: log) =
    (if e.id = id ∧ e.time = time then amount e else 0) + tally amount id time log := rfl

theorem tally_none (h : amount e = 0) : tally amount id time [e] = 0 := by
  rw [tally_cons, h, ite_self]
  rfl

theorem count_eq_add_tally (counts : Int → Int → Int) (amount : Event → Nat) (e : Event)
    (id time : Int) : count counts e.id e.time (amount e) id time =
      counts id time + tally amount id time [e] := by
  unfold count
  rw [tally_cons, tally_nil]
  by_cases hcell : e.id = id ∧ e.time = time
  · rw [if_pos hcell, if_pos ⟨hcell.1.symm, hcell.2.symm⟩]
    rfl
  · rw [if_neg hcell, if_neg fun h => hcell ⟨h.1.symm, h.2.symm⟩]
    exact (Int.add_zero _).symm

theorem tally_append : tally amount id time (log ++ log') =
    tally amount id time log + tally amount id time log' := by
  simp [tally]

theorem sum_tally (h : ∀ e ∈ log, (e.id, e.time) ∈ cells) :
    ∑ p ∈ cells, tally amount p.1 p.2 log = (log.map amount).sum := by
  induction log with
  | nil => simp
  | cons e log ih =>
      have hcell : ∑ p ∈ cells, (if e.id = p.1 ∧ e.time = p.2 then amount e else 0) = amount e := by
        calc ∑ p ∈ cells, (if e.id = p.1 ∧ e.time = p.2 then amount e else 0)
            = ∑ p ∈ cells, if (e.id, e.time) = p then amount e else 0 := by
              simp only [Prod.ext_iff]
          _ = amount e := by
              rw [Finset.sum_ite_eq, if_pos (h e List.mem_cons_self)]
      have hrest : ∀ e' ∈ log, (e'.id, e'.time) ∈ cells := by
        intro e' he'
        exact h e' (List.mem_cons_of_mem e he')
      simp only [tally_cons, Finset.sum_add_distrib]
      rw [hcell, ih hrest, List.map_cons, List.sum_cons]

/-! ## The network -/

theorem events_append : en.events (before ++ after) =
    en.events before ++ (en.calls before).events after := by
  induction before generalizing en with
  | nil => rfl
  | cons c before ih =>
      rw [List.cons_append, events, ih]
      rfl

theorem cell_event : ((en.event c).id, (en.event c).time) = c.cell := by
  cases c <;> rfl

theorem mem_events (en : EmulNet δ) (h : ∀ c ∈ calls, c.cell ∈ cells) :
    ∀ e ∈ en.events calls, (e.id, e.time) ∈ cells := by
  induction calls generalizing en with
  | nil => simp [events]
  | cons c calls ih =>
      intro e he
      have hrest : ∀ c' ∈ calls, c'.cell ∈ cells := by
        intro c' hc'
        exact h c' (List.mem_cons_of_mem c hc')
      rcases List.mem_cons.mp he with rfl | hmem
      · rw [cell_event]
        exact h c List.mem_cons_self
      · exact ih (en.call c) hrest e hmem

theorem refuses_congr (h : en.buff = en'.buff) (dropped : Bool) (size : Nat) :
    en.refuses dropped size = en'.refuses dropped size := by
  rw [refuses, refuses, h]

theorem events_congr (h : en.buff = en'.buff) : en.events calls = en'.events calls := by
  induction calls generalizing en en' with
  | nil => rfl
  | cons c calls ih =>
      have hevent : en.event c = en'.event c := by
        cases c with
        | send => simp only [event, refuses_congr h]
        | recv => simp only [event, enRecv, h]
      have hcall : (en.call c).buff = (en'.call c).buff := by
        cases c with
        | send dropped time a b data size =>
            simp only [EmulNet.call, EmulNet.enSend, refuses_congr h]
            split
            · exact h
            · rw [h]
        | recv => simp only [EmulNet.call, EmulNet.enRecv, h]
      rw [events, events, hevent, ih hcall]

theorem sentMsgs_call : (en.call c).sentMsgs id time = en.sentMsgs id time +
    tally Event.accepted id time [en.event c] := by
  cases c with
  | send dropped time' a b data size =>
      rw [← count_eq_add_tally]
      simp only [EmulNet.call, EmulNet.enSend, event]
      by_cases hrefuses : en.refuses dropped size = true
      · simp [hrefuses, count]
      · simp [hrefuses]
  | recv time' a =>
      rw [tally_none rfl]
      exact (Int.add_zero _).symm

theorem recvMsgs_call : (en.call c).recvMsgs id time = en.recvMsgs id time +
    tally Event.handed id time [en.event c] := by
  cases c with
  | send dropped time' a b data size =>
      rw [tally_none rfl]
      by_cases hrefuses : en.refuses dropped size = true <;>
        simp [EmulNet.call, EmulNet.enSend, hrefuses]
  | recv time' a =>
      rw [← count_eq_add_tally]
      rfl

theorem length_call (en : EmulNet δ) (c : Call δ) : (en.call c).buff.length + (en.event c).handed =
    en.buff.length + (en.event c).accepted := by
  cases c with
  | send dropped time a b data size =>
      simp only [EmulNet.call, EmulNet.enSend, event]
      by_cases hrefuses : en.refuses dropped size = true <;> simp [hrefuses]
  | recv time a =>
      have hleft := (enRecv_buff time a en).length_eq
      have hhanded := (enRecv_delivered time a en).length_eq
      have hall := List.length_eq_length_filter_add (l := en.buff) (addressedTo a)
      simp only [EmulNet.call, event]
      omega

/-- Over a run the counters grow by what has happened. -/
theorem sentMsgs_calls : (en.calls calls).sentMsgs id time =
    en.sentMsgs id time + tally Event.accepted id time (en.events calls) := by
  induction calls generalizing en with
  | nil => simp [EmulNet.calls, events]
  | cons c calls ih =>
      change ((en.call c).calls calls).sentMsgs id time = _
      have hlog : en.events (c :: calls) = [en.event c] ++ (en.call c).events calls := rfl
      rw [ih, sentMsgs_call, hlog, tally_append]
      omega

theorem recvMsgs_calls : (en.calls calls).recvMsgs id time =
    en.recvMsgs id time + tally Event.handed id time (en.events calls) := by
  induction calls generalizing en with
  | nil => simp [EmulNet.calls, events]
  | cons c calls ih =>
      change ((en.call c).calls calls).recvMsgs id time = _
      have hlog : en.events (c :: calls) = [en.event c] ++ (en.call c).events calls := rfl
      rw [ih, recvMsgs_call, hlog, tally_append]
      omega

theorem length_calls (en : EmulNet δ) (calls : List (Call δ)) :
    (en.calls calls).buff.length + ((en.events calls).map Event.handed).sum =
      en.buff.length + ((en.events calls).map Event.accepted).sum := by
  induction calls generalizing en with
  | nil => simp [EmulNet.calls, events]
  | cons c calls ih =>
      change ((en.call c).calls calls).buff.length + _ = _
      have hrest := ih (en.call c)
      have hcall := length_call en c
      rw [events, List.map_cons, List.map_cons, List.sum_cons, List.sum_cons]
      omega

/-! ## The object -/

namespace Object

theorem exists_call (h : Represents o en) (hc : c.cell ∈ cells) :
    ∃ o', o.call c = some (o', en.event c) ∧ Represents o' (en.call c) := by
  obtain ⟨hpos, hmax, htime, htime'⟩ := mem_cells.mp hc
  cases c with
  | send dropped time a b data size =>
      have hadmits : Admits a.id.toInt time := ⟨Int.le_trans (by decide) hpos, hmax, htime, htime'⟩
      obtain ⟨o', hsend, hrep⟩ := exists_enSend h hadmits dropped b data size
      refine ⟨o', ?_, hrep⟩
      rw [Object.call, hsend, h.refuses]
      rfl
  | recv time a =>
      have hadmits : Admits a.id.toInt time := ⟨Int.le_trans (by decide) hpos, hmax, htime, htime'⟩
      obtain ⟨o', hrecv, hrep⟩ := exists_enRecv h (Or.inl hadmits)
      refine ⟨o', ?_, hrep⟩
      rw [Object.call, hrecv]
      rfl

/-- A run of the object is a run of the network. -/
theorem exists_run (h : Represents o en) (hcalls : ∀ c ∈ calls, c.cell ∈ cells) :
    ∃ o', o.run calls = some (o', en.events calls) ∧ Represents o' (en.calls calls) := by
  induction calls generalizing o en with
  | nil => exact ⟨o, rfl, h⟩
  | cons c calls ih =>
      obtain ⟨o₁, hcall, h₁⟩ := exists_call h (hcalls c List.mem_cons_self)
      obtain ⟨o₂, hrun, h₂⟩ := ih h₁ fun c' hc' => hcalls c' (List.mem_cons_of_mem c hc')
      refine ⟨o₂, ?_, h₂⟩
      rw [Object.run, hcall]
      simp only [Option.bind_eq_bind, Option.bind_some, hrun]
      rfl

end Object

/-! ## Accounting -/

section

variable {memory : Object δ}

/-- The network the constructor makes of the memory. -/
def start (memory : Object δ) : EmulNet δ :=
  (Object.new memory).abstract

theorem represents_start (memory : Object δ) : (Object.new memory).Represents (start memory) :=
  Object.represents_abstract ⟨le_refl 0, (by decide : (0 : Int) ≤ enBuffSize)⟩

theorem events_start : (start memory).events calls = fresh.events calls :=
  events_congr rfl

/-- The constructor clears a counter, or finds it clear. -/
theorem start_sentMsgs (h : LastRowClear memory) {p : Int × Int} (hp : p ∈ cells) :
    (start memory).sentMsgs p.1 p.2 = 0 ∧ (start memory).recvMsgs p.1 p.2 = 0 := by
  obtain ⟨hpos, hmax, htime, htime'⟩ := mem_cells.mp hp
  simp only [start, Object.abstract, Object.new]
  by_cases hlast : p.1 = maxNodes
  · rw [hlast, if_neg (by simp), if_neg (by simp), (h p.2 htime htime').1, (h p.2 htime htime').2]
    exact ⟨rfl, rfl⟩
  · have hinside : 0 ≤ p.1 ∧ p.1 < maxNodes ∧ 0 ≤ p.2 ∧ p.2 < maxTime :=
      ⟨by omega, by omega, htime, htime'⟩
    rw [if_pos hinside, if_pos hinside]
    exact ⟨rfl, rfl⟩

theorem tally_prefix (h : before <+: calls) (en : EmulNet δ) (amount : Event → Nat)
    (id time : Int) :
    tally amount id time (en.events before) ≤ tally amount id time (en.events calls) := by
  obtain ⟨after, rfl⟩ := h
  rw [events_append, tally_append]
  omega

theorem accounted_of_countable (hrow : LastRowClear memory) (hcount : Countable calls)
    (hcalls : ∀ c ∈ calls, c.cell ∈ cells) {o : Object δ}
    (hrep : o.Represents ((start memory).calls calls)) :
    o.Accounted (fresh.events calls) := by
  have hsent : ∀ p ∈ cells, (o.sentMsgs p.1 p.2).toInt =
      tally Event.accepted p.1 p.2 (fresh.events calls) := by
    intro p hp
    have hlt := (hcount p hp).1
    rw [hrep.sentMsgs, sentMsgs_calls, (start_sentMsgs hrow hp).1, events_start, Int.zero_add,
      Int32.toInt_ofInt_of_le (by omega) (by omega)]
  have hreceived : ∀ p ∈ cells, (o.recvMsgs p.1 p.2).toInt =
      tally Event.handed p.1 p.2 (fresh.events calls) := by
    intro p hp
    have hlt := (hcount p hp).2
    rw [hrep.recvMsgs, recvMsgs_calls, (start_sentMsgs hrow hp).2, events_start, Int.zero_add,
      Int32.toInt_ofInt_of_le (by omega) (by omega)]
  refine ⟨hrep.wellFormed, hsent, hreceived, ?_⟩
  have hcells := mem_events fresh hcalls
  have hlength := length_calls (start memory) calls
  have hempty : (start memory).buff = [] := rfl
  rw [Finset.sum_congr rfl hsent, Finset.sum_congr rfl hreceived, ← Nat.cast_sum, ← Nat.cast_sum,
    sum_tally hcells, sum_tally hcells, hrep.currbuffsize]
  rw [events_start, hempty, List.length_nil] at hlength
  omega

/-- The counts are right in every state just when the constructor finds its last row clear and no
count is too great for an `int`. -/
theorem alwaysAccounted_iff (memory : Object δ) (calls : List (Call δ))
    (hcalls : ∀ c ∈ calls, c.cell ∈ cells) :
    AlwaysAccounted memory calls ↔ LastRowClear memory ∧ Countable calls := by
  constructor
  · intro h
    constructor
    · intro t ht ht'
      obtain ⟨o, log, hrun, haccounted⟩ := h [] (List.nil_prefix)
      cases hrun
      have hcell : (maxNodes, t) ∈ cells := 
        mem_cells.mpr ⟨(by decide : 1 ≤ maxNodes), le_refl _, ht, ht'⟩
      have hsent := haccounted.sent _ hcell
      have hreceived := haccounted.received _ hcell
      simp only [Object.new, tally_nil] at hsent hreceived
      rw [if_neg (by simp)] at hsent hreceived
      exact ⟨Int32.toInt_inj.mp hsent, Int32.toInt_inj.mp hreceived⟩
    · intro p hp
      obtain ⟨o, log, hrun, haccounted⟩ := h calls (List.prefix_refl _)
      obtain ⟨o', hrun', -⟩ := Object.exists_run (represents_start memory) hcalls
      rw [hrun', events_start] at hrun
      cases hrun
      have hsent := haccounted.sent p hp
      have hreceived := haccounted.received p hp
      have hsentLt := (o.sentMsgs p.1 p.2).toInt_lt
      have hrecvLt := (o.recvMsgs p.1 p.2).toInt_lt
      omega
  · rintro ⟨hrow, hcount⟩ before hbefore
    have hcalls' : ∀ c ∈ before, c.cell ∈ cells := fun c hc => hcalls c (hbefore.subset hc)
    have hcount' : Countable before := by
      intro p hp
      have hsent := tally_prefix hbefore fresh Event.accepted p.1 p.2
      have hreceived := tally_prefix hbefore fresh Event.handed p.1 p.2
      have hp' := hcount p hp
      omega
    obtain ⟨o, hrun, hrep⟩ := Object.exists_run (represents_start memory) hcalls'
    rw [events_start] at hrun
    exact ⟨o, _, hrun, accounted_of_countable hrow hcount' hcalls' hrep⟩

def used : Object Unit where
  sentMsgs := fun _ _ => 7
  recvMsgs := fun _ _ => 7
  emulnet := ⟨0, 0, 0, fun _ => ⟨0, ⟨0, 0⟩, ⟨0, 0⟩, ()⟩⟩

/-- Node `1000` sends one message to node `1`, which receives it. -/
def exchange : List (Call Unit) :=
  [.send false 0 ⟨1000, 0⟩ ⟨1, 0⟩ () 4, .recv 0 ⟨1, 0⟩]

theorem cell_exchange : ∀ c ∈ exchange, c.cell ∈ cells := by
  intro c hc
  rw [exchange, List.mem_cons, List.mem_singleton] at hc
  rcases hc with rfl | rfl <;> exact mem_cells.mpr (by decide)

/-- Eight messages are counted for one. -/
theorem not_alwaysAccounted_used : ¬ ∀ (memory : Object Unit) (calls : List (Call Unit)),
    (∀ c ∈ calls, c.cell ∈ cells) → AlwaysAccounted memory calls := by
  intro hall
  obtain ⟨o, log, hrun, haccounted⟩ := hall used exchange cell_exchange exchange
    (List.prefix_refl _)
  have hcount : ((Object.new used).run exchange).map
      (fun r => (r.1.sentMsgs 1000 0, tally Event.accepted 1000 0 r.2)) = some (8, 1) := by
    decide
  rw [hrun, Option.map_some, Option.some.injEq, Prod.mk.injEq] at hcount
  have hsent := haccounted.sent (1000, 0) (mem_cells.mpr (by decide))
  rw [hcount.1, hcount.2] at hsent
  exact absurd hsent (by decide)

theorem alwaysAccounted_iff_used :
    AlwaysAccounted used exchange ↔ LastRowClear used ∧ Countable exchange :=
  alwaysAccounted_iff used exchange cell_exchange

end

end

end CloudComputing.EmulNet
