import CloudComputing.KeyValueStore.Delivery
import CloudComputing.KeyValueStore.Tick

/-!
# An entry from its creation to a read

The path of one value through a group that agrees on the ring: a `CREATE` is
handled by the three replicas in the next tick, their entries stay readable
however often they are rewritten, and a `READ` is answered in the next tick and
judged in the one after.
-/

namespace CloudComputing.KeyValueStore

open Lib Relation

/-- A parsable request that does not change the entries of `key`. -/
def Request.Spares (key : Str) (request : Request) : Prop :=
  request.Parsable ∧ ¬ request.Writes key

theorem spares_or {q : Request → Prop} {key : Str} {request : Request}
    (hspare : ∀ r, q r → r.Spares key) (h : request.Spares key) :
    ∀ r, (q r ∨ r = request) → r.Spares key := by
  intro r hr
  rcases hr with hr | rfl
  · exact hspare r hr
  · exact h

def Fits (text : Str) : Prop := text.length + EmulNet.sizeofEnMsg < EmulNet.maxMsgSize

instance {text : Str} : Decidable (Fits text) := inferInstanceAs (Decidable (_ < _))

theorem Packet.fits_iff {p : Packet} : p.fits = true ↔ Fits p.data := decide_eq_true_iff

namespace World

variable {R : SortedRing} {hash : Str → Nat} {group : Group R} {q : Request → Prop}
  {w w' v v' : World} {a b c : Address} {key value text s : Str} {round : Round}
  {t : Int32} {uninit : ReplicaType}

/-! ## A key that nobody writes -/

theorem WritesOnly.fixed {p : Address → Message → Prop} (hspare : ∀ r, q r → r.Spares key)
    (hw : WritesOnly w key p) (h : Fixed hash R (Local hash group q) w w') :
    WritesOnly w' key p := by
  intro b s hs uninit m hm hwrites
  cases sent_of_fixed h hs with
  | old hold => exact hw b s hold uninit m hm hwrites
  | request self uninit' request hok hto hnext hs =>
      subst hs
      have hspares := hspare request hok.2
      exact absurd (hspares.1.plain.writes_of_text hm hwrites) hspares.2
  | answer self uninit' text arrived answer hpending htext hanswer hto hs =>
      subst hs
      exact absurd hwrites (Message.not_writes_answer hanswer hm)

def Writing (w : World) (key value : Str) : Prop :=
  WritesOnly w key fun _ m => m.type ≠ .delete ∧ m.Yields value

theorem NoWrite.writing (h : NoWrite w key) : Writing w key value :=
  fun b s hs uninit m hm hwrites => absurd hwrites (h b s hs uninit m hm)

theorem Holds.fixed (hw : Writing w key value) (h : Fixed hash R (Local hash group q) w w')
    (hh : Holds w b key value) : Holds w' b key value := by
  cases h with
  | change h =>
      refine holds_of_decodes (get?_ne_none_of_change ?_ h hh.ne_none)
        (decodes_of_change ?_ h fun text htext => hh.decodes htext)
      · exact hw.mono fun _ _ hm _ => hm.1
      · exact hw.mono fun _ _ hm _ => hm.2
  | setRing self h =>
      subst h
      simpa [Holds] using hh

/-! ## A write that is under way -/

theorem get?_of_write {arrived : Message} {ht : HashTable} (hwrites : arrived.Writes key)
    (htype : arrived.type ≠ .delete) (hyields : arrived.Yields value)
    (hentry : ∀ text, ht.get? key = some text → text ≠ []) (replica : ReplicaType) (now : Int32) :
    (∃ text, (arrived.tableAfter replica now ht).get? key = some text ∧ Decodes text value) ∨
      (arrived.tableAfter replica now ht).get? key = ht.get? key ∧
        (arrived.type = .create ∧ ht.get? key ≠ none ∨
          arrived.type = .update ∧ ht.get? key = none) := by
  have hread : ht.get? key ≠ none → ht.read key ≠ [] := by
    intro hthere
    obtain ⟨text, htext⟩ := Option.ne_none_iff_exists'.mp hthere
    rw [HashTable.read_eq, htext]
    exact hentry text htext
  obtain ⟨hkind, hkey⟩ := hwrites
  unfold Message.tableAfter
  rw [hkey]
  rcases hkind with hcreate | hupdate | hdelete
  · simp only [hcreate, HashTable.get?_create, true_and]
    by_cases hnone : ht.get? key = none
    · exact Or.inl ⟨_, if_pos hnone, hyields _ _⟩
    · exact Or.inr ⟨if_neg hnone, Or.inl hnone⟩
  · simp only [hupdate, HashTable.get?_update, true_and]
    by_cases hnone : ht.get? key = none
    · have hempty : ht.read key = [] := by rw [HashTable.read_eq, hnone, Option.getD_none]
      exact Or.inr ⟨if_neg fun hne => hne hempty, Or.inr hnone⟩
    · exact Or.inl ⟨_, if_pos (hread hnone), hyields _ _⟩
  · exact absurd hdelete htype

def Due (w : World) (key value : Str) (b : Address) : Prop :=
  Holds w b key value ∨ ∃ s ∈ w.pending b, Fits s ∧ ∀ uninit, ∃ m,
    Message.ofString uninit s = some m ∧ m.key = key ∧ m.Yields value ∧
      (m.type = .create ∧ (w.node b).ht.get? key = none ∨
        m.type = .update ∧ (w.node b).ht.get? key ≠ none)

theorem Due.holds (hd : Due w key value b) (hidle : NoWrite w key) : Holds w b key value := by
  rcases hd with hh | ⟨s, hs, -, hmakes⟩
  · exact hh
  · obtain ⟨m, hm, hkey, -, htype⟩ := hmakes .primary
    refine absurd ⟨?_, hkey⟩ (hidle b s hs .primary m hm)
    rcases htype with ⟨hcreate, -⟩ | ⟨hupdate, -⟩
    · exact Or.inl hcreate
    · exact Or.inr (Or.inl hupdate)

theorem Due.change (hw : Writing w key value)
    (hentry : ∀ text, (w.node b).ht.get? key = some text → text ≠ [])
    (h : Change hash (Local hash group q) w w') (hd : Due w key value b) :
    Due w' key value b := by
  rcases hd with hh | ⟨s, hs, hfits, hmakes⟩
  · have hstep : Fixed hash R (Local hash group q) w w' := .change h
    exact Or.inl (hh.fixed hw hstep)
  have hlose : ∀ p, Local hash group q w (.lose p) → p.data ≠ s := by
    intro p hp heq
    have hp' : p.fits = false := hp
    rw [Bool.eq_false_iff] at hp'
    exact hp' (Packet.fits_iff.mpr (heq ▸ hfits))
  rcases pending_of_change hlose h hs with hstill | ⟨uninit, replica, queue, arrived, harrived, hh⟩
  · -- another message may have changed the entry
    cases entered_of_change h b key with
    | same hsame => exact Or.inr ⟨s, hstill, hfits, by rwa [hsame]⟩
    | rewritten old replica hold hnew =>
        refine Or.inr ⟨s, hstill, hfits, fun uninit => ?_⟩
        obtain ⟨m, hm, hkey, hyields, htype⟩ := hmakes uninit
        refine ⟨m, hm, hkey, hyields, Or.inr ⟨?_, by simp [hnew]⟩⟩
        rcases htype with ⟨-, hnone⟩ | ⟨hupdate, -⟩
        · rw [hold] at hnone
          cases hnone
        · exact hupdate
    | handled uninit replica s' arrived hpending hs' hwrites ht =>
        obtain ⟨hdelete, hyields⟩ := hw b s' hpending uninit arrived hs' hwrites
        rcases get?_of_write hwrites hdelete hyields hentry replica w.currtime with
          hnew | ⟨hsame, -⟩
        · exact Or.inl (by rwa [Holds, ht])
        · exact Or.inr ⟨s, hstill, hfits, by rwa [ht, hsame]⟩
  · obtain ⟨m, hm, hkey, hyields, htype⟩ := hmakes uninit
    obtain rfl := Option.some.inj (hm.symm.trans harrived)
    have ht : (w'.node b).ht = m.tableAfter replica w.currtime (w.node b).ht := by
      rw [hh.ht]
      simp [pop]
    have hwrites : m.Writes key := by
      refine ⟨?_, hkey⟩
      rcases htype with ⟨hcreate, -⟩ | ⟨hupdate, -⟩
      · exact Or.inl hcreate
      · exact Or.inr (Or.inl hupdate)
    have hdelete : m.type ≠ .delete := by
      rcases htype with ⟨hcreate, -⟩ | ⟨hupdate, -⟩
      · simp [hcreate]
      · simp [hupdate]
    refine Or.inl ?_
    unfold Holds
    rw [ht]
    rcases get?_of_write hwrites hdelete hyields hentry replica w.currtime with hnew | ⟨-, hnot⟩
    · exact hnew
    · exfalso
      rcases htype with ⟨hcreate, hnone⟩ | ⟨hupdate, hthere⟩
      · simp [hcreate, hnone] at hnot
      · simp [hupdate, hthere] at hnot

theorem Due.fixed (ho : Orderly hash group w) (hw : Writing w key value)
    (h : Fixed hash R (Local hash group q) w w') (hd : Due w key value b) :
    Due w' key value b := by
  cases h with
  | change h =>
      refine hd.change hw (fun text htext => ?_) h
      obtain ⟨u, hu⟩ := ho.sound.entry b key text htext
      exact hu.ne_nil
  | setRing self h =>
      subst h
      simpa [Due, Holds] using hd

/-! ## At all three replicas -/

structure Arriving (hash : Str → Nat) (R : SortedRing) (key value : Str) (w : World) : Prop where
  writing : Writing w key value
  due : ∀ a ∈ R.replicas hash key, Due w key value a

structure Arrived (hash : Str → Nat) (R : SortedRing) (key value : Str) (w : World) : Prop where
  idle : NoWrite w key
  holds : ∀ a ∈ R.replicas hash key, Holds w a key value

theorem Arriving.fixed (hspare : ∀ r, q r → r.Spares key) (ho : Orderly hash group w)
    (hstep : Fixed hash R (Local hash group q) w w') (h : Arriving hash R key value w) :
    Arriving hash R key value w' where
  writing := h.writing.fixed hspare hstep
  due := fun a ha => (h.due a ha).fixed ho h.writing hstep

theorem NoWrite.fixed (hspare : ∀ r, q r → r.Spares key)
    (hstep : Fixed hash R (Local hash group q) w w') (h : NoWrite w key) : NoWrite w' key :=
  WritesOnly.fixed (p := fun _ _ => False) hspare h hstep

theorem NoWrite.follows (hspare : ∀ r, q r → r.Spares key) (hpath : Follows hash group q w w')
    (h : NoWrite w key) : NoWrite w' key :=
  invariant_of_run (P := fun v => NoWrite v key) (fun _ _ hstep hv => hv.fixed hspare hstep)
    hpath.path h

theorem Arrived.fixed (hspare : ∀ r, q r → r.Spares key)
    (hstep : Fixed hash R (Local hash group q) w w') (h : Arrived hash R key value w) :
    Arrived hash R key value w' where
  idle := h.idle.fixed hspare hstep
  holds := fun a ha => (h.holds a ha).fixed h.idle.writing hstep

theorem Arriving.follows (hspare : ∀ r, q r → r.Spares key) (ho : Orderly hash group w)
    (hpath : Follows hash group q w w') (h : Arriving hash R key value w) :
    Arriving hash R key value w' := by
  have hboth := invariant_of_run
    (P := fun v => Orderly hash group v ∧ Arriving hash R key value v)
    (fun v v' hstep hv => ⟨hv.1.fixed (fun r hr => (hspare r hr).1) hstep,
      hv.2.fixed hspare hv.1 hstep⟩) hpath.path ⟨ho, h⟩
  exact hboth.2

theorem Arrived.follows (hspare : ∀ r, q r → r.Spares key) (hpath : Follows hash group q w w')
    (h : Arrived hash R key value w) : Arrived hash R key value w' :=
  invariant_of_run (fun _ _ hstep hv => hv.fixed hspare hstep) hpath.path h

/-- When the requests of a tick begin, all earlier writes have been handled. -/
theorem Halfway.noWrite (h : Halfway hash group q w w') : NoWrite w' key := by
  intro b s hs uninit m hm hwrites
  obtain ⟨answer, htype, rfl⟩ := h.pending hs
  have hkind := hwrites.1
  rw [(Message.ofString_toString_some hm).1] at hkind
  rcases htype with htype | htype <;> simp [htype] at hkind

theorem Arriving.halfway (hspare : ∀ r, q r → r.Spares key) (ho : Orderly hash group w)
    (hhalf : Halfway hash group q w w') (h : Arriving hash R key value w) :
    Arrived hash R key value w' where
  idle := hhalf.noWrite
  holds := fun a ha => ((h.follows hspare ho hhalf.follows).due a ha).holds hhalf.noWrite

theorem Arriving.turn {w₂ : World} (hspare : ∀ r, q r → r.Spares key) (ho : Orderly hash group w)
    (hturn : TurnParts hash group q round w w₂ w') (h : Arriving hash R key value w) :
    Arrived hash R key value w' :=
  (h.halfway hspare ho hturn.halfway).follows hspare hturn.later

theorem mem_pending_refuse (h : s ∈ w.refuse.pending b) : s ∈ w.pending b := by
  rcases List.mem_append.mp h with hnet | hqueue
  · obtain ⟨p, hp, rfl⟩ := List.mem_map.mp hnet
    obtain ⟨hmem, hdst⟩ := List.mem_filter.mp hp
    obtain rfl : p.dst = b := by simpa using hdst
    exact mem_pending_of_net (mem_refuse.mp hmem).1
  · exact List.mem_append_right _ hqueue

/-- A call that fits is in the network for each of the three. -/
theorem mem_net_call {self : Address} {message : Int32 → Message} {r₀ r₁ r₂ : Node}
    (hfind : findNodes hash key R.nodes = [r₀, r₁, r₂])
    (hfits : Fits (message w.nextTransID.gTransID).toString) (ha : a ∈ R.replicas hash key) :
    ⟨self, a, (message w.nextTransID.gTransID).toString⟩ ∈
      (w.issued self message r₀ r₁ r₂).refuse.net := by
  rw [mem_refuse, net_issued]
  unfold SortedRing.replicas at ha
  rw [hfind] at ha
  obtain ⟨r, hr, rfl⟩ := List.mem_map.mp ha
  exact ⟨List.mem_append_right _ (List.mem_map.mpr ⟨r, hr, rfl⟩), Packet.fits_iff.mpr hfits⟩

def Puts (key value : Str) (ht : HashTable) (request : Request) : Prop :=
  request = .create key value ∧ ht.get? key = none ∨
    request = .update key value ∧ ht.get? key ≠ none

theorem received_put {request : Request} {ht : HashTable} (hparse : request.Parsable)
    (hputs : Puts key value ht request) (self : Address) (uninit uninit' : ReplicaType)
    (t : Int32) : ∃ m, Message.ofString uninit' (request.message self uninit t).toString = some m ∧
      m.key = key ∧ m.Yields value ∧
        (m.type = .create ∧ ht.get? key = none ∨ m.type = .update ∧ ht.get? key ≠ none) := by
  refine ⟨_, Message.ofString_toString uninit' (hparse.plain.sendable self uninit t), ?_⟩
  rcases hputs with ⟨rfl, hnone⟩ | ⟨rfl, hthere⟩
  · exact ⟨rfl, fun timestamp replica => decodes_entry hparse.2 timestamp replica,
      Or.inl ⟨rfl, hnone⟩⟩
  · exact ⟨rfl, fun timestamp replica => decodes_entry hparse.2 timestamp replica,
      Or.inr ⟨rfl, hthere⟩⟩

theorem arriving_call {call : Address × ReplicaType × Request} {w₂ : World}
    (hparts : CallParts hash group q call w w₂ v v' w') (hidle : NoWrite v key)
    (hparse : call.2.2.Parsable) (hkey : call.2.2.key = key)
    (hputs : ∀ a ∈ R.replicas hash key, Puts key value (v.node a).ht call.2.2)
    (hfits : Fits (call.2.2.message call.1 call.2.1 v.nextTransID.gTransID).toString) :
    Arriving hash R key value v' := by
  obtain ⟨r₀, r₁, r₂, hfind, rfl⟩ := hparts.find
  rw [hkey] at hfind
  constructor
  case writing =>
    intro b s hs uninit m hm hwrites
    rcases (mem_pending_append net_issued mp2q_issued).mp (mem_pending_refuse hs) with
      ⟨p, hp, hdst, rfl⟩ | hold
    · obtain ⟨r, hr, rfl⟩ := List.mem_map.mp hp
      have hb : b ∈ R.replicas hash key := by
        unfold SortedRing.replicas
        rw [hfind]
        exact List.mem_map.mpr ⟨r, hr, hdst⟩
      obtain ⟨m', hm', -, hyields, htype⟩ :=
        received_put hparse (hputs b hb) call.1 call.2.1 uninit v.nextTransID.gTransID
      obtain rfl := Option.some.inj (hm'.symm.trans hm)
      refine ⟨?_, hyields⟩
      rcases htype with ⟨hcreate, -⟩ | ⟨hupdate, -⟩
      · simp [hcreate]
      · simp [hupdate]
    · exact absurd hwrites (hidle b s hold uninit m hm)
  case due =>
    intro a ha
    refine Or.inr ⟨_, mem_pending_of_net (mem_net_call hfind hfits ha), hfits, fun uninit => ?_⟩
    have hsame : (((v.issued call.1 (call.2.2.message call.1 call.2.1) r₀ r₁ r₂).refuse).node
        a).ht = (v.node a).ht := by simp [refuse]
    rw [hsame]
    exact received_put hparse (hputs a ha) call.1 call.2.1 uninit v.nextTransID.gTransID

/-! ## A key that is created -/

/-- No node has an entry of the key, and no write of it is under way. -/
structure Untouched (key : Str) (w : World) : Prop where
  idle : NoWrite w key
  absent : ∀ a, (w.node a).ht.get? key = none

theorem Untouched.fixed (hspare : ∀ r, q r → r.Spares key)
    (h : Fixed hash R (Local hash group q) w w') (hu : Untouched key w) : Untouched key w' where
  idle := hu.idle.fixed hspare h
  absent := by
    intro a
    cases h with
    | change h =>
        refine get?_eq_none_of_change (fun b s hs uninit m hm hwrites => ?_) h (hu.absent a)
        exact absurd hwrites (hu.idle b s hs uninit m hm)
    | setRing self h =>
        subst h
        simpa using hu.absent a

theorem Untouched.follows (hspare : ∀ r, q r → r.Spares key) (hpath : Follows hash group q w w')
    (hu : Untouched key w) : Untouched key w' :=
  invariant_of_run (fun _ _ hstep hv => hv.fixed hspare hstep) hpath.path hu

theorem untouched_initial : Untouched key initial where
  idle := by simp [NoWrite, NoWriteTo, initial, MP2Node.new, World.pending]
  absent := by simp [initial, MP2Node.new]

theorem untouched_ticks (hspare : ∀ r, q r → r.Spares key)
    (h : Ticks hash group q initial w) :
    Orderly hash group w ∧ Rested group w ∧ Untouched key w :=
  ticks_invariant (fun r hr => (hspare r hr).1) (fun _ _ _ hstep _ hv => hv.fixed hspare hstep) h
    orderly_initial rested_initial untouched_initial

/-- The value of a `CREATE` that fits arrives at the three replicas. -/
theorem arriving_create {w₂ : World} (hspare : ∀ r, q r → r.Spares key) (hu : Untouched key w)
    (hparts : CallParts hash group q (c, uninit, .create key value) w w₂ v v' w')
    (hparse : (Request.create key value).Parsable)
    (hfits : Fits ((Request.create key value).message c uninit v.nextTransID.gTransID).toString) :
    Arriving hash R key value w' := by
  have hv : Untouched key v :=
    (hu.follows hspare hparts.halfway.follows).follows hspare hparts.earlier
  have hcalled : Arriving hash R key value v' :=
    arriving_call hparts hv.idle hparse rfl (fun a _ => Or.inl ⟨rfl, hv.absent a⟩) hfits
  exact hcalled.follows hspare hparts.orderly hparts.later

theorem Arriving.ticks (hspare : ∀ r, q r → r.Spares key) (ho : Orderly hash group w)
    (hr : Rested group w) (h : Ticks hash group q w w') (ha : Arriving hash R key value w) :
    Orderly hash group w' ∧ Rested group w' ∧ Arriving hash R key value w' :=
  ticks_invariant (fun r hr => (hspare r hr).1)
    (fun _ _ ho hstep _ hv => hv.fixed hspare ho hstep) h ho hr ha

/-! ## A call that is refused -/

structure Silent (t : Int32) (w : World) : Prop where
  known : Known w t
  pending : ∀ b, ∀ s ∈ w.pending b, Foreign t s
  noted : ∀ a, ¬ Noted w a t
  unlogged : ∀ e, .logged e ∈ w.trace → e.isCoordinator = true → e.transID ≠ t

theorem Silent.not_judged {e : LogEntry} (hs : Silent t w) (h : Judged w e) : e.transID ≠ t := by
  intro ht
  cases h with
  | update self uninit results text received op value hresults =>
      refine hs.noted self (Or.inl ?_)
      rw [← ht, Std.TreeMap.mem_iff_isSome_getElem?, hresults]
      rfl
  | read self uninit values text received v hvalues =>
      refine hs.noted self (Or.inr ?_)
      rw [← ht, Std.TreeMap.mem_iff_isSome_getElem?, hvalues]
      rfl

theorem Silent.change (hlt : w'.transID < 2 ^ 31) (h : Change hash (Local hash group q) w w')
    (hs : Silent t w) : Silent t w' where
  known := hs.known.mono (transID_le_of_alters (.change h))
  pending := by
    intro b s hmem
    cases sent_of_change h hmem with
    | old hold => exact hs.pending b s hold
    | request self u request hok hto hnext heq =>
        rw [heq]
        refine foreign_toString ?_
        rw [(message_fields ..).2.1]
        exact (hs.known.ne_next (by omega)).symm
    | answer self u text arrived answer hpending htext hanswer hto heq =>
        rw [heq]
        refine foreign_toString ?_
        rw [transID_answer hanswer]
        exact hs.pending self text hpending u arrived htext
  noted := by
    intro a hnoted
    rcases noted_of_alters (.change h) hnoted with hold |
      ⟨u, s, arrived, hpending, htext, ht⟩
    · exact hs.noted a hold
    · exact hs.pending a s hpending u arrived htext ht
  unlogged := by
    intro e he hco
    obtain ⟨l, htrace, hjudged⟩ := trace_of_alters (.change h)
    rw [htrace] at he
    rcases List.mem_append.mp he with hold | hnew
    · exact hs.unlogged e hold hco
    · exact hs.not_judged (hjudged e hnew hco)

theorem Silent.fixed (hlt : w'.transID < 2 ^ 31) (h : Fixed hash R (Local hash group q) w w')
    (hs : Silent t w) : Silent t w' := by
  cases h with
  | change h => exact hs.change hlt h
  | setRing self h =>
      subst h
      exact ⟨hs.known, by simpa using hs.pending, by simpa [Noted] using hs.noted, hs.unlogged⟩

/-- All three copies of a call that does not fit are refused. -/
theorem silent_call {call : Address × ReplicaType × Request} {w₂ : World}
    (hparts : CallParts hash group q call w w₂ v v' w')
    (hfits : ¬ Fits (call.2.2.message call.1 call.2.1 v.nextTransID.gTransID).toString) :
    Silent v.nextTransID.gTransID v' := by
  have hlt : v.transID + 1 < 2 ^ 31 := hparts.next_lt
  obtain ⟨r₀, r₁, r₂, hfind, rfl⟩ := hparts.find
  have hnumbered := hparts.ready.numbered
  constructor
  case known => exact ⟨v.transID + 1, by simp [refuse], rfl⟩
  case pending =>
    intro b s hs
    have hold : s ∈ v.pending b := by
      rcases List.mem_append.mp hs with hnet | hqueue
      · obtain ⟨p, hp, rfl⟩ := List.mem_map.mp hnet
        obtain ⟨hp, hdst⟩ := List.mem_filter.mp hp
        obtain ⟨hmem, hp⟩ := mem_refuse.mp hp
        rw [net_issued] at hmem
        rcases List.mem_append.mp hmem with hmem | hmem
        · obtain rfl : p.dst = b := by simpa using hdst
          exact mem_pending_of_net hmem
        · obtain ⟨n, -, rfl⟩ := List.mem_map.mp hmem
          exact absurd (Packet.fits_iff.mp hp) hfits
      · exact List.mem_append_right _ (by simpa [refuse] using hqueue)
    exact hnumbered.foreign hlt hold
  case noted =>
    intro a hnoted
    have hold : Noted v a v.nextTransID.gTransID := by simpa [Noted, refuse] using hnoted
    exact (hnumbered.noted a _ hold).ne_next hlt rfl
  case unlogged =>
    intro e he hco
    exact (hnumbered.verdict e (by simpa [refuse] using he) hco).ne_next hlt

theorem fits_of_verdict {call : Address × ReplicaType × Request} {w₂ w₃ : World} {e : LogEntry}
    (hq : ∀ r, q r → r.Parsable) (hparts : CallParts hash group q call w w₂ v v' w')
    (ho : Orderly hash group w') (hr : Rested group w') (h : Ticks hash group q w' w₃)
    (he : .logged e ∈ w₃.trace) (hco : e.isCoordinator = true)
    (ht : e.transID = v.nextTransID.gTransID) :
    Fits (call.2.2.message call.1 call.2.1 v.nextTransID.gTransID).toString := by
  by_contra hfits
  have hsilent : Silent v.nextTransID.gTransID w' :=
    hparts.later.invariant hq hparts.orderly hparts.bounded
      (fun _ _ _ hstep hlt hs => hs.fixed hlt hstep) (silent_call hparts hfits)
  obtain ⟨-, -, hlater⟩ := ticks_invariant hq
    (fun _ _ _ hstep hlt hs => Silent.fixed hlt hstep hs) h ho hr hsilent
  exact hlater.unlogged e he hco ht

end World

end CloudComputing.KeyValueStore
