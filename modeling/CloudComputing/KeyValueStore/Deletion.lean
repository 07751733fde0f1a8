import CloudComputing.KeyValueStore.Delivery
import CloudComputing.KeyValueStore.FreshRead

/-!
# A deleted key

A `DELETE` leaves no trace in the tables, so what a node still holds comes back
with the next copy.  Over a fixed ring nobody copies, and two emptied replicas
are enough to make every later `READ` fail; when no node holds the key any more
the ring may change as it likes.
-/

namespace CloudComputing.KeyValueStore

open Lib Relation

def Request.Creates (key : Str) : Request → Prop
  | .create key' _ => key' = key
  | _ => False

theorem Request.Plain.creates_of_text {request : Request} (hplain : request.Plain) {self : Address}
    {uninit uninit' : ReplicaType} {transID : Int32} {key : Str} {m : Message}
    (hm : Message.ofString uninit' (request.message self uninit transID).toString = some m)
    (htype : m.type = .create) (hkey : m.key = key) : request.Creates key := by
  rw [Message.ofString_toString uninit' (hplain.sendable self uninit transID)] at hm
  obtain rfl := Option.some.inj hm
  cases request with
  | create => exact hkey
  | update | delete | read => cases htype

namespace World

def NoCreate (w : World) (key : Str) : Prop :=
  WritesOnly w key fun _ m => m.type ≠ .create

def Uncreated (key : Str) : World → Action → Prop
  | _, .client _ _ request => request.Plain ∧ ¬ request.Creates key
  | _, _ => True

/-- No `CREATE` of `key` is under way, and the nodes of `emptied` have no entry for it. -/
structure Gone (w : World) (key : Str) (emptied : Address → Prop) : Prop where
  idle : NoCreate w key
  emptied : ∀ a, emptied a → (w.node a).ht.get? key = none

variable {hash : Str → Nat} {R : ProperRing} {ok : World → Action → Prop} {w w' : World}
  {a b c x : Address} {m : Message} {key : Str} {emptied fresh : Address → Prop}

theorem NoCreate.change (hn : NoCreate w key) (h : Change hash (Uncreated key) w w') :
    NoCreate w' key := by
  intro b s hs uninit m hm hwrites
  cases sent_of_change h hs with
  | old hold => exact hn b s hold uninit m hm hwrites
  | request self uninit' request hok hto hnext hs =>
      subst hs
      exact fun htype => hok.2 (hok.1.creates_of_text hm htype hwrites.2)
  | answer self uninit' text arrived answer hpending htext hanswer hto hs =>
      subst hs
      exact absurd hwrites (Message.not_writes_answer hanswer hm)

theorem Gone.change (hg : Gone w key emptied) (h : Change hash (Uncreated key) w w') :
    Gone w' key emptied where
  idle := hg.idle.change h
  emptied := fun a ha =>
    get?_eq_none_of_change (hg.idle.mono fun _ _ hm _ => hm) h (hg.emptied a ha)

theorem Gone.fixed (hg : Gone w key emptied) (h : Fixed hash R (Uncreated key) w w') :
    Gone w' key emptied := by
  cases h with
  | change h => exact hg.change h
  | setRing self h =>
      subst h
      exact ⟨fun b s hs => hg.idle b s (by simpa using hs), fun a ha => by
        simpa using hg.emptied a ha⟩

theorem Gone.reshape (hg : Gone w key fun _ => True) (h : Reshape w w') :
    Gone w' key fun _ => True where
  idle := by
    intro b s hs uninit m hm hwrites
    rcases copied_of_reshape h hs with hold |
      ⟨self, key', value, type, replica, hheld, hkey, hvalue, htype, -, rfl⟩
    · exact hg.idle b s hold uninit m hm hwrites
    · have hsend : Message.Sendable
          ⟨type, replica, key', value, self, w.nextTransID.gTransID, false⟩ := by
        rcases htype with rfl | rfl
        · exact ⟨hkey, hvalue⟩
        · exact ⟨hkey, hvalue⟩
      rw [Message.ofString_toString uninit hsend] at hm
      obtain rfl := Option.some.inj hm
      have hsame : key' = key := by
        rw [← hwrites.2, key_received (htype.imp_right Or.inl)]
      exact absurd (hg.emptied self trivial) (hsame ▸ hheld)
  emptied := by
    intro a _
    cases h with
    | copy => exact hg.emptied a trivial
    | setRing self ring => simpa using hg.emptied a trivial

theorem Gone.alters (hg : Gone w key fun _ => True) (h : Alters hash (Uncreated key) w w') :
    Gone w' key fun _ => True := by
  cases h with
  | change h => exact hg.change h
  | reshape h => exact hg.reshape h

/-! ## The accounts of a `DELETE` -/

/-- The accounts of the `DELETE` that `m` asks for and `c` coordinates: as many nodes are emptied
as confirm it. -/
structure Deleting (w : World) (c : Address) (m : Message) (asked gone : List Address) : Prop where
  pending : Carried w m
  once : ∀ a, (w.pending a).count m.toString ≤ 1
  sent : ∀ a, m.toString ∈ w.pending a → a ∈ asked
  nodup : gone.Nodup
  emptied : ∀ a ∈ gone, a ∈ asked ∧ m.toString ∉ w.pending a ∧ (w.node a).ht.get? m.key = none
  confirmed : w.confirmations c m.transID ≤ gone.length
  operation : ∀ a text, (w.node a).operationTable[m.transID]? = some text → a = c
  verdict : ∀ e, .logged e ∈ w.trace → e.isCoordinator = true → e.transID = m.transID →
    e.operation = .delete → e.success = true → 2 ≤ gone.length

section Deleting

variable {asked gone : List Address} {self : Address} {uninit replica : ReplicaType}
  {queue : List Str}

/-- Behind a success there are two confirmations. -/
theorem Deleting.judged (hd : Deleting w c m asked gone) {e : LogEntry} (he : Judged w e)
    (ht : e.transID = m.transID) (hop : e.operation = .delete) (hsuccess : e.success = true) :
    2 ≤ gone.length := by
  cases he with
  | update self uninit results text received op value hresults htable htext hop' heq =>
      rw [ht] at hresults htable
      obtain rfl := hd.operation self text htable
      have hnoted : w.noted self m.transID = results := by
        rw [noted, hresults, Option.getD_some]
      have htwo : 1 < results.count true := by
        rw [heq] at hsuccess
        exact of_decide_eq_true hsuccess
      have hconfirmed := hd.confirmed
      unfold confirmations at hconfirmed
      rw [hnoted] at hconfirmed
      omega
  | read self uninit values text received v hvalues htable htext htype hv heq =>
      rw [heq] at hop
      split at hop <;> cases hop

theorem Deleting.verdict_of_alters (hd : Deleting w c m asked gone) (h : Alters hash ok w w') :
    ∀ e, .logged e ∈ w'.trace → e.isCoordinator = true → e.transID = m.transID →
      e.operation = .delete → e.success = true → 2 ≤ gone.length := by
  intro e he hco ht hop hsuccess
  obtain ⟨l, htrace, hjudged⟩ := trace_of_alters h
  rw [htrace] at he
  rcases List.mem_append.mp he with hold | hnew
  · exact hd.verdict e hold hco ht hop hsuccess
  · exact hd.judged (hjudged e hnew hco) ht hop hsuccess

theorem Deleting.operation_of_alters (hd : Deleting w c m asked gone)
    (hknown : Known w m.transID) (hlt : w'.transID < 2 ^ 31) (h : Alters hash ok w w') :
    ∀ a text, (w'.node a).operationTable[m.transID]? = some text → a = c := by
  intro a text htable
  rcases World.operation_of_alters h htable with hold |
    ⟨uninit, request, r₀, r₁, r₂, -, -, heq, -, rfl⟩
  · exact hd.operation a text hold
  · exact absurd heq (hknown.ne_next hlt)

theorem received_delete (hmtype : m.type = .delete) :
    m.received uninit = ⟨.delete, uninit, m.key, [], m.fromAddr, m.transID, false⟩ := by
  obtain ⟨type, _⟩ := m
  obtain rfl : type = .delete := hmtype
  rfl

/-- A node that confirms the `DELETE` had an entry and has none now. -/
theorem Deleting.request (hd : Deleting w c m asked gone) (hmtype : m.type = .delete)
    (hq : (w.node self).mp2q = m.toString :: queue)
    (h : Handled uninit self (m.received uninit) replica (w.pop self queue) w')
    (hkept : ∀ a, (w.node a).ht.get? m.key = none → (w'.node a).ht.get? m.key = none)
    (hoperation : ∀ a text, (w'.node a).operationTable[m.transID]? = some text → a = c)
    (hverdict : ∀ e, .logged e ∈ w'.trace → e.isCoordinator = true → e.transID = m.transID →
      e.operation = .delete → e.success = true → 2 ≤ gone.length) :
    ∃ gone', Deleting w' c m asked gone' := by
  have hself : m.toString ∈ w.pending self := mem_pending_of_queue hq
  obtain ⟨found, hfound⟩ : ∃ found, found = decide ((w.node self).ht.read m.key ≠ []) := ⟨_, rfl⟩
  have hreplied : Replied w w' c self m found := by
    refine replied_of_handled hd.pending (by simp [hmtype]) hq h ?_
    rw [received_delete hmtype, hfound]
    simp [Message.answer]
  have hnew : ∀ a, m.toString ∉ w.pending a → m.toString ∉ w'.pending a := by
    intro a ha
    have hcount := hreplied.count a
    rw [List.count_eq_zero.mpr ha] at hcount
    exact List.count_eq_zero.mp (by omega)
  have hhandled : m.toString ∉ w'.pending self := by
    have hcount := hreplied.count self
    have honce := hd.once self
    rw [if_pos rfl] at hcount
    exact List.count_eq_zero.mp (by omega)
  have hmust : ∀ a, m.toString ∈ w'.pending a → a ∈ asked := by
    intro a ha
    by_contra hnot
    exact hnew a (fun hmem => hnot (hd.sent a hmem)) ha
  have hstill : ∀ a ∈ gone, a ∈ asked ∧ m.toString ∉ w'.pending a ∧
      (w'.node a).ht.get? m.key = none := by
    intro a ha
    obtain ⟨hasked, hnot, hnone⟩ := hd.emptied a ha
    exact ⟨hasked, hnew a hnot, hkept a hnone⟩
  have honce : ∀ a, (w'.pending a).count m.toString ≤ 1 := by
    intro a
    have hcount := hreplied.count a
    have hold := hd.once a
    omega
  have hconfirmed := hreplied.confirmations
  have hold := hd.confirmed
  by_cases hread : (w.node self).ht.read m.key = []
  · refine ⟨gone, hreplied.carried, honce, hmust, hd.nodup, hstill, ?_, hoperation, hverdict⟩
    simp [hfound, hread] at hconfirmed
    omega
  · have hempty : (w'.node self).ht.get? m.key = none := by
      rw [h.ht, received_delete hmtype]
      simp only [Message.tableAfter, pop, node_modifyNode_self]
      rw [HashTable.get?_deleteKey, if_pos ⟨rfl, hread⟩]
    refine ⟨self :: gone, hreplied.carried, honce, hmust, ?_, ?_, ?_, hoperation, ?_⟩
    · exact List.nodup_cons.mpr ⟨fun hmem => (hd.emptied self hmem).2.1 hself, hd.nodup⟩
    · intro a ha
      rcases List.mem_cons.mp ha with rfl | ha
      · exact ⟨hd.sent a hself, hhandled, hempty⟩
      · exact hstill a ha
    · rw [List.length_cons]
      simp [hfound, hread] at hconfirmed
      omega
    · intro e he hco ht hop hsuccess
      exact (hverdict e he hco ht hop hsuccess).trans (Nat.le_succ _)

theorem Deleting.alters (hd : Deleting w c m asked gone) (hmtype : m.type = .delete)
    (hm : m.Sendable) (hknown : Known w m.transID) (hlt : w'.transID < 2 ^ 31)
    (hkept : ∀ a, (w.node a).ht.get? m.key = none → (w'.node a).ht.get? m.key = none)
    (h : Alters hash ok w w') : ∃ gone', Deleting w' c m asked gone' := by
  have hoperation := hd.operation_of_alters hknown hlt h
  have hverdict := hd.verdict_of_alters h
  cases turn_of_alters (c := c) hd.pending hm hknown hlt h with
  | handled self uninit replica queue hq h =>
      exact hd.request hmtype hq h hkept hoperation hverdict
  | quiet hquiet =>
      have hcount : ∀ a, m.toString ∈ w'.pending a → m.toString ∈ w.pending a := by
        intro a ha
        have hpos := List.count_pos_iff.mpr ha
        have hle := hquiet.count hm a
        exact List.count_pos_iff.mp (by omega)
      exact ⟨gone, {
        pending := hquiet.carried hd.pending
        once := fun a => (hquiet.count hm a).trans (hd.once a)
        sent := fun a ha => hd.sent a (hcount a ha)
        nodup := hd.nodup
        emptied := fun a ha => by
          obtain ⟨hasked, hnot, hnone⟩ := hd.emptied a ha
          exact ⟨hasked, fun hmem => hnot (hcount a hmem), hkept a hnone⟩
        confirmed := hquiet.confirmations.trans hd.confirmed
        operation := hoperation
        verdict := hverdict }⟩

theorem Deleting.issued {r₀ r₁ r₂ : Node} (hn : Numbered w) (hlt : w.transID + 1 < 2 ^ 31)
    (hdistinct : ([r₀, r₁, r₂].map Node.nodeAddress).Nodup)
    (hm : m = (Request.delete key).message self uninit w.nextTransID.gTransID)
    (hsend : m.Sendable) :
    Deleting (w.issued self ((Request.delete key).message self uninit) r₀ r₁ r₂) self m
      ([r₀, r₁, r₂].map Node.nodeAddress) [] := by
  have ht : m.transID = w.nextTransID.gTransID := by
    rw [hm]
    rfl
  have hnew : ∀ a, m.toString ∉ w.pending a := by
    intro a hmem
    have hforeign := hn.foreign hlt hmem
    rw [← ht] at hforeign
    exact hforeign.ne_toString hsend rfl
  constructor
  case pending => exact carried_issued hn hlt hm
  case once =>
    intro a
    have hcount : ((w.issued self ((Request.delete key).message self uninit) r₀ r₁ r₂).pending
        a).count m.toString ≤ ([r₀, r₁, r₂].map Node.nodeAddress).count a :=
      count_pending_issued (hnew a)
    exact hcount.trans (List.nodup_iff_count_le_one.mp hdistinct a)
  case sent =>
    intro a ha
    rcases (mem_pending_append net_issued mp2q_issued).mp ha with ⟨p, hp, rfl, -⟩ | hold
    · obtain ⟨r, hr, rfl⟩ := List.mem_map.mp hp
      exact List.mem_map.mpr ⟨r, hr, rfl⟩
    · exact absurd hold (hnew a)
  case nodup => exact List.nodup_nil
  case emptied => exact fun a ha => absurd ha List.not_mem_nil
  case confirmed =>
    have hnone : (w.issued self ((Request.delete key).message self uninit) r₀ r₁
        r₂).confirmations self m.transID = 0 := confirmations_issued hn hlt hm
    exact hnone.le
  case operation =>
    intro a text htable
    by_contra ha
    have hnode : (w.issued self ((Request.delete key).message self uninit) r₀ r₁ r₂).node a =
        w.node a := by
      simp [World.issued, node_modifyNode_of_ne ha]
    rw [hnode] at htable
    have hmem : m.transID ∈ (w.node a).operationTable := by
      rw [Std.TreeMap.mem_iff_isSome_getElem?, htable]
      rfl
    exact (hn.operation a _ hmem).ne_next hlt ht
  case verdict =>
    intro e he hco heq
    exact absurd (heq.trans ht) ((hn.verdict e he hco).ne_next hlt)

end Deleting

/-! ## Reading a key that is gone -/

/-- No text is an entry of a colon, so every answer but the empty one is stale for it. -/
theorem stale_colon (text : Str) : stale [':'] text = decide (text ≠ []) := by
  have hnot : ¬ Decodes text [':'] := by
    intro h
    obtain ⟨e, he, hvalue⟩ := Option.map_eq_some_iff.mp h
    apply Entry.colon_not_mem_value he
    simp [hvalue]
  simp [stale, hnot]

def NotRead (w : World) (t : Int32) : Prop :=
  ∀ e, .logged e ∈ w.trace → e.isCoordinator = true → e.transID = t → e.operation = .read →
    e.success = false

/-- One answer with an entry is not enough for a success. -/
theorem Reading.not_judged (hr : Reading w c m [':'] fresh x) {e : LogEntry} (he : Judged w e)
    (ht : e.transID = m.transID) (hop : e.operation = .read) : e.success = false := by
  obtain ⟨received, v, hv, heq⟩ := hr.judged_cases he ht hop
  have hfew : (w.valuesRead c m.transID).countP (fun text => text ≠ []) ≤ 1 := by
    have hsame : (w.valuesRead c m.transID).countP (KeyValueStore.stale [':']) =
        (w.valuesRead c m.transID).countP (fun text => text ≠ []) :=
      List.countP_congr fun text _ => by simp [stale_colon]
    have hle := hr.stale
    omega
  split at heq
  case isTrue hgood =>
    obtain ⟨-, -, hcount, -⟩ := readValue_fold hv hgood.2.2
    have hcounter := hgood.1
    simp only at hcount
    omega
  case isFalse => rw [heq]

/-- What holds from the issue of the read on: `m` is the read, and of the nodes asked only `x`
may have an entry. -/
structure Unanswered (w : World) (c : Address) (m : Message) (fresh : Address → Prop)
    (x : Address) : Prop where
  gone : Gone w m.key fresh
  known : Known w m.transID
  reading : Reading w c m [':'] fresh x
  notRead : NotRead w m.transID

theorem Unanswered.alters (hu : Unanswered w c m fresh x) (hw : Wire w) (htype : m.type = .read)
    (hmc : m.fromAddr = c) (hsend : m.Sendable) (hlt : w'.transID < 2 ^ 31)
    (h : Alters hash ok w w') (hgone : Gone w' m.key fresh) : Unanswered w' c m fresh x where
  gone := hgone
  known := hu.known.mono (transID_le_of_alters h)
  reading := by
    refine hu.reading.alters hw htype hmc hsend ?_ hu.known hlt h
    intro a ha
    rw [stale_colon, HashTable.read_eq, hu.gone.emptied a ha]
    rfl
  notRead := by
    intro e he hco ht hop
    obtain ⟨l, htrace, hjudged⟩ := trace_of_alters h
    rw [htrace] at he
    rcases List.mem_append.mp he with hold | hnew
    · exact hu.notRead e hold hco ht hop
    · exact hu.reading.not_judged (hjudged e hnew hco) ht hop

theorem Unanswered.issued {self : Address} {uninit : ReplicaType} {r₀ r₁ r₂ : Node}
    (hn : Numbered w) (hlt : w.transID + 1 < 2 ^ 31) (hplain : Plain key)
    (honce : ([r₀, r₁, r₂].map Node.nodeAddress).count x ≤ 1)
    (hasked : ∀ b ∈ [r₀, r₁, r₂].map Node.nodeAddress, fresh b ∨ b = x)
    (hm : m = (Request.read key).message self uninit w.nextTransID.gTransID)
    (hgone : Gone (w.issued self ((Request.read key).message self uninit) r₀ r₁ r₂) key fresh) :
    Unanswered (w.issued self ((Request.read key).message self uninit) r₀ r₁ r₂) self m fresh
      x where
  gone := by
    rw [hm]
    exact hgone
  known := by
    rw [hm]
    exact ⟨w.transID + 1, le_refl _, rfl⟩
  reading := by
    refine Reading.issued hn hlt honce hasked hm ?_
    rw [hm]
    exact (show (Request.read key).Plain from hplain).sendable self uninit _
  notRead := by
    intro e he hco ht
    rw [hm] at ht
    exact absurd ht ((hn.verdict e he hco).ne_next hlt)

/-! ## Deleted for good -/

/-- The fixed ring, while no client creates `key`. -/
def StableUncreated (hash : Str → Nat) (R : ProperRing) (key : Str) (w : World)
    (action : Action) : Prop :=
  StableRing hash R w action ∧ Uncreated key w action

/-- The ways `key` can be deleted for good when only what `ok` allows follows: no node holds it any
more, or over a fixed ring its coordinator has reported the success of a `DELETE`. -/
inductive Deleted (hash : Str → Nat) (key : Str) : (World → Action → Prop) → World → Prop
  | everywhere {w₁ w : World} (hbefore : Steps hash Anything initial w₁)
      (hgone : Gone w₁ key fun _ => True) (hbetween : Steps hash (Uncreated key) w₁ w) :
      Deleted hash key (Uncreated key) w
  | reported (R : ProperRing) {w₁ w₂ w : World} {c : Address} {uninit : ReplicaType} {now : Int32}
      (hbefore : Steps hash (StableRing hash R) initial w₁) (hidle : NoCreate w₁ key)
      (hdelete : w₁.step hash (.client c uninit (.delete key)) = some w₂)
      (hbetween : Steps hash (StableUncreated hash R key) w₂ w)
      (hsuccess : .logged ⟨c, true, .delete, true, w₂.gTransID, key, [], now⟩ ∈ w.trace) :
      Deleted hash key (StableUncreated hash R key) w

theorem exists_not_mem_address {l : List Address} (h : l.length < 4) : ∃ x, x ∉ l := by
  by_contra hall
  have hnodup : ([⟨0, 0⟩, ⟨1, 0⟩, ⟨2, 0⟩, ⟨3, 0⟩] : List Address).Nodup := by decide
  have hsub : [⟨0, 0⟩, ⟨1, 0⟩, ⟨2, 0⟩, ⟨3, 0⟩] ⊆ l := fun x _ => by
    by_contra hx
    exact hall ⟨x, hx⟩
  have hle := (hnodup.subperm hsub).length_le
  simp only [List.length_cons, List.length_nil] at hle
  omega

theorem not_read_of_everywhere {w₁ w₂ : World} {uninit : ReplicaType} (hplain : Plain key)
    (hbefore : Steps hash Anything initial w₁) (hgone : Gone w₁ key fun _ => True)
    (hbetween : Steps hash (Uncreated key) w₁ w)
    (hread : w.step hash (.client c uninit (.read key)) = some w')
    (hafter : Steps hash (Uncreated key) w' w₂) (hlt : w'.transID < 2 ^ 31) :
    NotRead w₂ w'.gTransID := by
  obtain ⟨hw₁, hn₁⟩ := reachable_invariants hbefore
  obtain ⟨hw, hn, hgone⟩ := alters_invariant (P := fun v => Gone v key fun _ => True)
    (fun _ _ _ _ h _ hg => hg.alters h) hbetween hw₁ hn₁ hgone
  obtain ⟨r₀, r₁, r₂, hfind, rfl⟩ := client_some hread
  have hissue : Alters hash (Uncreated key) w
      (w.issued c ((Request.read key).message c uninit) r₀ r₁ r₂) :=
    .change (.issue w c uninit (.read key) r₀ r₁ r₂ ⟨hplain, id⟩ hfind)
  have hrequest : (Request.read key).Plain := hplain
  obtain ⟨x, hx⟩ := exists_not_mem_address (l := [r₀, r₁, r₂].map Node.nodeAddress) (by simp)
  have hasked := Unanswered.issued (x := x) hn hlt hplain
    ((List.count_eq_zero.mpr hx).le.trans (Nat.zero_le 1)) (fun _ _ => Or.inl trivial) rfl
    (hgone.alters hissue)
  have hrun := alters_invariant (P := fun v => Unanswered v c _ (fun _ => True) x)
    (fun _ _ hw _ h hlt hu => hu.alters hw rfl rfl (hrequest.sendable c uninit _) hlt h
      (hu.gone.alters h)) hafter (hw.alters hissue) (hn.alters hissue) hasked
  exact hrun.2.2.notRead

theorem deleting_steps {asked gone : List Address} (hp : Placed hash R w) (hl : Ledger w)
    (hd : Deleting w c m asked gone) (hidle : NoCreate w m.key) (hknown : Known w m.transID)
    (hmtype : m.type = .delete) (hsend : m.Sendable)
    (h : Steps hash (StableUncreated hash R m.key) w w') :
    Placed hash R w' ∧ Ledger w' ∧ NoCreate w' m.key ∧ ∃ gone', Deleting w' c m asked gone' := by
  have hrun := fixed_invariant
    (P := fun v => NoCreate v m.key ∧ Known v m.transID ∧ ∃ gone, Deleting v c m asked gone)
    (fun _ _ hok => hok.1) ?_ h hp hl ⟨hidle, hknown, gone, hd⟩
  · obtain ⟨hp', hl', hidle', -, hd'⟩ := hrun
    exact ⟨hp', hl', hidle', hd'⟩
  · rintro v v' - - hfixed hlt ⟨hidle, hknown, gone, hd⟩
    have hempty : Gone v m.key fun a => (v.node a).ht.get? m.key = none := ⟨hidle, fun _ h => h⟩
    have hempty' := hempty.fixed (hfixed.mono fun _ hok => hok.2)
    exact ⟨hempty'.idle, hknown.mono (transID_le_of_alters hfixed.alters),
      hd.alters hmtype hsend hknown hlt hempty'.emptied hfixed.alters⟩

/-- Behind the success of a `DELETE` there are two replicas without an entry. -/
theorem gone_of_reported {w₁ w₂ : World} {uninit : ReplicaType} {now : Int32}
    (hplain : Plain key) (hbefore : Steps hash (StableRing hash R) initial w₁)
    (hidle : NoCreate w₁ key)
    (hdelete : w₁.step hash (.client c uninit (.delete key)) = some w₂)
    (hbetween : Steps hash (StableUncreated hash R key) w₂ w) (hlt : w.transID < 2 ^ 31)
    (hsuccess : .logged ⟨c, true, .delete, true, w₂.gTransID, key, [], now⟩ ∈ w.trace) :
    Placed hash R w ∧ Ledger w ∧ ∃ d₁ d₂, d₁ ∈ R.replicas hash key ∧ d₂ ∈ R.replicas hash key ∧
      d₁ ≠ d₂ ∧ Gone w key fun b => b = d₁ ∨ b = d₂ := by
  have hrequest : (Request.delete key).Plain := hplain
  obtain ⟨hp₁, hl₁, -⟩ := fixed_invariant (P := fun _ => True) (fun _ _ h => h)
    (fun _ _ _ _ _ _ _ => trivial) hbefore placed_initial ledger_initial trivial
  have hle := transID_le_of_steps (hl₁.wire.step hdelete) hbetween
  obtain ⟨r₀, r₁, r₂, hfind, rfl⟩ := client_some hdelete
  rw [transID_issued] at hle
  have hissue : Fixed hash R (StableUncreated hash R key) w₁
      (w₁.issued c ((Request.delete key).message c uninit) r₀ r₁ r₂) :=
    .change (.issue w₁ c uninit (.delete key) r₀ r₁ r₂ ⟨hplain, hplain, id⟩ hfind)
  have hstable := hissue.mono fun _ hok => hok.1
  have hempty : Gone w₁ key fun _ => False := ⟨hidle, fun _ h => h.elim⟩
  have hidle₂ := (hempty.fixed (hissue.mono fun _ hok => hok.2)).idle
  rw [hp₁.ring_of_find hfind] at hfind
  have hdeleting := Deleting.issued hl₁.numbered (by omega)
    (by rw [← hfind]; exact findNodes_nodup hash _ R.addresses) rfl
    (hrequest.sendable c uninit _)
  obtain ⟨hp, hl, hidle, gone, hdeleted⟩ := deleting_steps (hp₁.fixed (fun _ _ _ h => h) hstable)
    (hl₁.alters (by rw [transID_issued]; omega) (hp₁.plainClients (fun _ _ _ h => h) hstable)) hdeleting hidle₂
    ⟨w₁.transID + 1, le_refl _, rfl⟩ rfl (hrequest.sendable c uninit _) hbetween
  have htwo : 2 ≤ gone.length := hdeleted.verdict _ hsuccess rfl rfl rfl rfl
  obtain ⟨d₁, d₂, rest, rfl⟩ : ∃ d₁ d₂ rest, gone = d₁ :: d₂ :: rest := by
    match gone, htwo with
    | d₁ :: d₂ :: rest, _ => exact ⟨d₁, d₂, rest, rfl⟩
  obtain ⟨hmem₁, -, hnone₁⟩ := hdeleted.emptied d₁ (by simp)
  obtain ⟨hmem₂, -, hnone₂⟩ := hdeleted.emptied d₂ (by simp)
  rw [← hfind] at hmem₁ hmem₂
  have hne : d₁ ≠ d₂ := fun heq => (List.nodup_cons.mp hdeleted.nodup).1 (by simp [heq])
  refine ⟨hp, hl, d₁, d₂, hmem₁, hmem₂, hne, hidle, ?_⟩
  rintro a (rfl | rfl)
  · exact hnone₁
  · exact hnone₂

/-- The third replica alone makes no quorum. -/
theorem not_read_of_gone {d₁ d₂ : Address} {w₂ : World} {uninit : ReplicaType}
    (hplain : Plain key) (hp : Placed hash R w) (hl : Ledger w)
    (h₁ : d₁ ∈ R.replicas hash key) (h₂ : d₂ ∈ R.replicas hash key) (hne : d₁ ≠ d₂)
    (hgone : Gone w key fun b => b = d₁ ∨ b = d₂)
    (hread : w.step hash (.client c uninit (.read key)) = some w')
    (hafter : Steps hash (StableUncreated hash R key) w' w₂) (hlt : w'.transID < 2 ^ 31) :
    NotRead w₂ w'.gTransID := by
  have hrequest : (Request.read key).Plain := hplain
  obtain ⟨x, hx⟩ := third_replica R h₁ h₂ hne
  obtain ⟨r₀, r₁, r₂, hfind, rfl⟩ := client_some hread
  have hissue : Fixed hash R (StableUncreated hash R key) w
      (w.issued c ((Request.read key).message c uninit) r₀ r₁ r₂) :=
    .change (.issue w c uninit (.read key) r₀ r₁ r₂ ⟨hplain, hplain, id⟩ hfind)
  have hstable := hissue.mono fun _ hok => hok.1
  rw [hp.ring_of_find hfind] at hfind
  have hnodup := findNodes_nodup hash key R.addresses
  rw [ProperRing.replicas, SortedRing.replicas,
    show findNodes hash key R.nodes = [r₀, r₁, r₂] from hfind] at hx
  rw [show findNodes hash key R.nodes = [r₀, r₁, r₂] from hfind] at hnodup
  have hasked := Unanswered.issued hl.numbered hlt hplain
    (List.nodup_iff_count_le_one.mp hnodup x) hx rfl (hgone.fixed (hissue.mono fun _ hok => hok.2))
  have hrun := fixed_invariant (P := fun v => Unanswered v c _ (fun b => b = d₁ ∨ b = d₂) x)
    (fun _ _ hok => hok.1) (fun _ _ _ hl hfixed hlt hu => hu.alters hl.wire rfl rfl
      (hrequest.sendable c uninit _) hlt hfixed.alters
      (hu.gone.fixed (hfixed.mono fun _ hok => hok.2)))
    hafter (hp.fixed (fun _ _ _ h => h) hstable) (hl.alters hlt (hp.plainClients (fun _ _ _ h => h) hstable)) hasked
  exact hrun.2.2.notRead

/-- A key that is deleted for good is not read again. -/
theorem deleted_not_read {w₂ : World} {uninit : ReplicaType} (hplain : Plain key)
    (hdeleted : Deleted hash key ok w)
    (hread : w.step hash (.client c uninit (.read key)) = some w')
    (hafter : Steps hash ok w' w₂) (hlt : w'.transID < 2 ^ 31) : NotRead w₂ w'.gTransID := by
  cases hdeleted with
  | everywhere hbefore hgone hbetween =>
      exact not_read_of_everywhere hplain hbefore hgone hbetween hread hafter hlt
  | reported R hbefore hidle hdelete hbetween hsuccess =>
      obtain ⟨hp₁, hl₁, -⟩ := fixed_invariant (P := fun _ => True) (fun _ _ h => h)
        (fun _ _ _ _ _ _ _ => trivial) hbefore placed_initial ledger_initial trivial
      have hwire := (hl₁.wire.step hdelete).steps hbetween
      have hle := transID_le_of_step hwire hread
      obtain ⟨hp, hl, d₁, d₂, h₁, h₂, hne, hgone⟩ :=
        gone_of_reported hplain hbefore hidle hdelete hbetween (by omega) hsuccess
      exact not_read_of_gone hplain hp hl h₁ h₂ hne hgone hread hafter hlt

/-! ## A partial delete -/

def Unattended : World → Action → Prop
  | _, .client _ _ _ => False
  | _, _ => True

instance {w : World} {action : Action} : Decidable (Unattended w action) :=
  match action with
  | .client _ _ _ => inferInstanceAs (Decidable False)
  | .updateRing _ _ | .checkMessages _ _ | .receive _ | .lose _ | .tick =>
      inferInstanceAs (Decidable True)

namespace DeleteRun

/-- Node `1` creates a key on the ring of four nodes; the first three are its replicas. -/
def createActions : List Action :=
  [1, 2, 3, 4].map (fun i => .updateRing (sampleNode i) (members [1, 2, 3, 4])) ++
    [.client (sampleNode 1) .primary (.create ['k'] ['u'])]

def creating : World :=
  (initial.follow sampleHash PlainClients createActions).get (by decide +kernel)

def stored : World :=
  (creating.follow sampleHash PlainClients (deliver creating [1, 2, 3])).get (by decide +kernel)

/-- Node `3` deletes the key; the request to node `2` is lost. -/
def deleteActions : List Action :=
  deliver stored [1] ++ [.client (sampleNode 3) .primary (.delete ['k']),
    .lose (Message.packet ⟨.delete, .primary, ['k'], [], sampleNode 3, 2, false⟩ (sampleNode 2))]

def deleting : World :=
  (stored.follow sampleHash PlainClients deleteActions).get (by decide +kernel)

def halfEmptied : World :=
  (deleting.follow sampleHash PlainClients (deliver deleting [1, 3])).get (by decide +kernel)

def deleted : World :=
  (halfEmptied.follow sampleHash PlainClients (deliver halfEmptied [3])).get (by decide +kernel)

/-- Node `1` fails, and node `2`, now the first replica, sends node `4` a copy. -/
def failing : World :=
  (deleted.follow sampleHash Unattended
    ([2, 3, 4].map fun i => .updateRing (sampleNode i) (members [2, 3, 4]))).get
      (by decide +kernel)

def copied : World :=
  (failing.follow sampleHash Unattended (deliver failing [3, 4])).get (by decide +kernel)

def asking : World :=
  (copied.step sampleHash (.client (sampleNode 2) .primary (.read ['k']))).get (by decide +kernel)

def answering : World :=
  (asking.follow sampleHash Unattended (deliver asking [2, 3, 4])).get (by decide +kernel)

def answered : World :=
  (answering.follow sampleHash Unattended (deliver answering [2])).get (by decide +kernel)

end DeleteRun

open DeleteRun in
/-- Two replicas confirm the `DELETE`, the third one sends a copy of its entry to a new replica, and
a client reads it. -/
theorem deleted_key_read :
    Steps sampleHash PlainClients initial deleted ∧
    .logged ⟨sampleNode 3, true, .delete, true, 2, ['k'], [], 0⟩ ∈ deleted.trace ∧
    NoWrite deleted ['k'] ∧
    Steps sampleHash Unattended deleted copied ∧
    copied.step sampleHash (.client (sampleNode 2) .primary (.read ['k'])) = some asking ∧
    Steps sampleHash Unattended asking answered ∧
    .logged ⟨sampleNode 2, true, .read, true, asking.gTransID, ['k'], ['u'], 0⟩ ∈
      answered.trace := by
  have hstored : initial.follow sampleHash PlainClients
      (createActions ++ deliver creating [1, 2, 3]) = some stored :=
    follow_append (Option.some_get _).symm (Option.some_get _).symm
  have hfollow : initial.follow sampleHash PlainClients ((createActions ++
      deliver creating [1, 2, 3]) ++ (deleteActions ++ deliver deleting [1, 3] ++
      deliver halfEmptied [3])) = some deleted :=
    follow_append hstored (follow_append (follow_append (Option.some_get _).symm
      (Option.some_get _).symm) (Option.some_get _).symm)
  have hdeleted : Steps sampleHash PlainClients initial deleted := steps_of_follow hfollow
  have hcopied : Steps sampleHash Unattended deleted copied :=
    (show Steps sampleHash Unattended deleted failing from
      steps_of_follow (Option.some_get _).symm).trans (steps_of_follow (Option.some_get _).symm)
  have hread : copied.step sampleHash (.client (sampleNode 2) .primary (.read ['k'])) =
      some asking := (Option.some_get _).symm
  have hanswered : Steps sampleHash Unattended asking answered :=
    (show Steps sampleHash Unattended asking answering from
      steps_of_follow (Option.some_get _).symm).trans (steps_of_follow (Option.some_get _).symm)
  have hidle : NoWrite deleted ['k'] :=
    noWrite_of_follow hfollow (by decide +kernel)
      (show ∀ b ∈ [1, 2, 3, 4].map sampleNode, (deleted.node b).mp2q = [] by decide +kernel)
      (by decide +kernel)
  exact ⟨hdeleted, by decide +kernel, hidle, hcopied, hread, hanswered, by decide +kernel⟩

/-! ## A delete over a fixed ring -/

theorem NoWrite.noCreate (h : NoWrite w key) : NoCreate w key :=
  fun b s hs uninit m hm hwrites => absurd hwrites (h b s hs uninit m hm)

instance {request : Request} : Decidable (request.Creates key) :=
  match request with
  | .create key' _ => inferInstanceAs (Decidable (key' = key))
  | .read _ | .update _ _ | .delete _ => inferInstanceAs (Decidable False)

instance {w : World} {action : Action} : Decidable (StableUncreated hash R key w action) :=
  match action with
  | .client _ _ request =>
      inferInstanceAs (Decidable (request.Plain ∧ request.Plain ∧ ¬ request.Creates key))
  | .updateRing _ memberList => inferInstanceAs
      (Decidable ((getMembershipList hash memberList).Perm R.nodes ∧ True))
  | .checkMessages _ _ | .receive _ | .lose _ | .tick =>
      inferInstanceAs (Decidable (True ∧ True))

namespace DeleteRun

/-- Node `1` deletes the key that was created; the request to node `3` is lost. -/
def requested : World :=
  (ReadRun.created.step sampleHash (.client (sampleNode 1) .primary (.delete ['k']))).get
    (by decide +kernel)

def lost : World :=
  (requested.follow sampleHash (StableUncreated sampleHash threeRing ['k'])
    [.lose (Message.packet ⟨.delete, .primary, ['k'], [], sampleNode 1, 2, false⟩
      (sampleNode 3))]).get (by decide +kernel)

def handled : World :=
  (lost.follow sampleHash (StableUncreated sampleHash threeRing ['k'])
    (deliver lost [1, 2])).get (by decide +kernel)

def confirmed : World :=
  (handled.follow sampleHash (StableUncreated sampleHash threeRing ['k'])
    (deliver handled [1])).get (by decide +kernel)

def reading : World :=
  (confirmed.step sampleHash (.client (sampleNode 3) .primary (.read ['k']))).get
    (by decide +kernel)

def served : World :=
  (reading.follow sampleHash (StableUncreated sampleHash threeRing ['k'])
    (deliver reading [1, 2, 3])).get (by decide +kernel)

def failed : World :=
  (served.follow sampleHash (StableUncreated sampleHash threeRing ['k'])
    (deliver served [3])).get (by decide +kernel)

end DeleteRun

theorem deleted_not_read_threeNodes : NotRead DeleteRun.failed 3 := by
  have hcreated : Steps sampleHash (FixedRing sampleHash threeRing) initial ReadRun.created :=
    steps_of_follow (Option.some_get _).symm
  have hbefore : Steps sampleHash (StableRing sampleHash threeRing) initial ReadRun.created :=
    Steps.mono sampleHash (fun _ _ hok => hok.stable) hcreated
  have hidle : NoWrite ReadRun.created ['k'] :=
    noWrite_of_follow (Option.some_get _).symm (by decide +kernel)
      (show ∀ b ∈ [1, 2, 3].map sampleNode, (ReadRun.created.node b).mp2q = [] by decide +kernel)
      (by decide +kernel)
  have hlost : Steps sampleHash (StableUncreated sampleHash threeRing ['k'])
      DeleteRun.requested DeleteRun.lost :=
    steps_of_follow (Option.some_get _).symm
  have hhandled : Steps sampleHash (StableUncreated sampleHash threeRing ['k'])
      DeleteRun.lost DeleteRun.handled :=
    steps_of_follow (Option.some_get _).symm
  have hbetween : Steps sampleHash (StableUncreated sampleHash threeRing ['k'])
      DeleteRun.requested DeleteRun.confirmed :=
    (hlost.trans hhandled).trans (steps_of_follow (Option.some_get _).symm)
  have hafter : Steps sampleHash (StableUncreated sampleHash threeRing ['k'])
      DeleteRun.reading DeleteRun.failed :=
    (show Steps sampleHash (StableUncreated sampleHash threeRing ['k'])
      DeleteRun.reading DeleteRun.served from
      steps_of_follow (Option.some_get _).symm).trans (steps_of_follow (Option.some_get _).symm)
  have hsuccess : .logged ⟨sampleNode 1, true, .delete, true, DeleteRun.requested.gTransID, ['k'],
      [], 1⟩ ∈ DeleteRun.confirmed.trace := by decide +kernel
  exact deleted_not_read (by decide)
    (.reported threeRing hbefore hidle.noCreate (Option.some_get _).symm hbetween hsuccess)
    (Option.some_get _).symm hafter (by decide +kernel)

end World

end CloudComputing.KeyValueStore
