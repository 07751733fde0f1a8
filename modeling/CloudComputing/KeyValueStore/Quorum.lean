import CloudComputing.KeyValueStore.Replies

/-!
# No false quorum

A reply carries an id and a bit.  For each `UPDATE` of a client `Counted` ties
the requests and replies under way and the results the coordinator has noted to
the nodes that really replaced their entry.
-/

namespace CloudComputing.KeyValueStore

open Lib Relation

/-- A string that clients may use: free of `::` and not ending in `:`. -/
def Plain (s : Str) : Prop := ¬ Message.delimiter <:+: s ∧ s.getLast? ≠ some ':'

theorem plain_iff_clean {s : Str} : Plain s ↔ Split.Clean Message.delimiter s :=
  Split.clean_pair_iff.symm

/-- A request whose key and value are plain. -/
def Request.Plain : Request → Prop
  | .create key value | .update key value => KeyValueStore.Plain key ∧ KeyValueStore.Plain value
  | .read key | .delete key => KeyValueStore.Plain key

namespace World

/-- Clients make plain requests, at nodes whose ring has three or more nodes at distinct
addresses. -/
def PlainClients (w : World) : Action → Prop
  | .client self _ request => request.Plain ∧ 3 ≤ (w.node self).ring.length ∧
      ((w.node self).ring.map Node.nodeAddress).Nodup
  | _ => True

/-- The nodes that replaced an entry under the id `t`, once for each time. -/
def storers (trace : List Event) (t : Int32) : List Address :=
  trace.filterMap fun e => match e with
    | .stored node transID _ _ _ => if transID = t then some node else none
    | _ => none

/-- The accounts of the `UPDATE` that `m` asks for and `c` coordinates. -/
structure Counted (w : World) (c : Address) (m : Message) : Prop where
  pending : ∀ b, ∀ s ∈ w.pending b, ∀ uninit arrived, Message.ofString uninit s = some arrived →
    arrived.transID = m.transID →
    arrived.type = .reply ∨ arrived.type = .readreply ∨ s = m.toString
  once : ∀ a, (w.pending a).count m.toString + (storers w.trace m.transID).count a ≤ 1
  confirmed : (w.pending c).countP (confirms m.transID) + (w.noted c m.transID).count true ≤
    (storers w.trace m.transID).length
  stored : ∀ a key old new, .stored a m.transID key old new ∈ w.trace →
    key = m.key ∧ ∃ timestamp replica, new = Entry.convertToString ⟨m.value, timestamp, replica⟩

variable {hash : Str → Nat} {ok : World → Action → Prop} {w w' : World} {a b c : Address}
  {s : Str} {t : Int32} {m : Message}

theorem storers_append {l l' : List Event} :
    storers (l ++ l') t = storers l t ++ storers l' t := List.filterMap_append

theorem mem_storers {trace : List Event} :
    a ∈ storers trace t ↔ ∃ key old new, .stored a t key old new ∈ trace := by
  unfold storers
  rw [List.mem_filterMap]
  constructor
  · rintro ⟨e, he, hsome⟩
    cases e with
    | stored node transID key old new =>
        simp only [Option.ite_none_right_eq_some, Option.some.injEq] at hsome
        obtain ⟨rfl, rfl⟩ := hsome
        exact ⟨key, old, new, he⟩
    | logged => cases hsome
  · rintro ⟨key, old, new, he⟩
    exact ⟨_, he, if_pos rfl⟩

theorem Counted.quiet (hc : Counted w c m) (hm : m.Sendable) (h : Quiet w w' c m.transID) :
    Counted w' c m := by
  obtain ⟨l, htrace, hl⟩ := h.trace
  have hstorers : storers w'.trace m.transID = storers w.trace m.transID := by
    have hnil : storers l m.transID = [] := by
      rw [List.eq_nil_iff_forall_not_mem]
      intro a ha
      obtain ⟨key, old, new, he⟩ := mem_storers.mp ha
      exact hl a key old new he
    rw [htrace, storers_append, hnil, List.append_nil]
  constructor
  case pending => exact h.carried hc.pending
  case once =>
    intro a
    have hle := h.count hm a
    have hold := hc.once a
    rw [hstorers]
    omega
  case confirmed =>
    have hold := hc.confirmed
    rw [hstorers]
    exact h.confirmations.trans hold
  case stored =>
    intro a key old new hs
    rw [htrace] at hs
    rcases List.mem_append.mp hs with hold | hnew
    · exact hc.stored a key old new hold
    · exact absurd hnew (hl a key old new)

section Arrival

variable {self : Address} {uninit replica : ReplicaType} {text : Str} {queue : List Str}
  {arrived : Message}

theorem received_update (hmtype : m.type = .update) :
    m.received uninit = { m with success := false } := by
  obtain ⟨type, _⟩ := m
  obtain rfl : type = .update := hmtype
  rfl

/-- A replica answers the request, and confirms it only when it replaces its entry. -/
theorem Counted.request (hc : Counted w c m) (hmtype : m.type = .update)
    (hq : (w.node self).mp2q = m.toString :: queue)
    (h : Handled uninit self (m.received uninit) replica (w.pop self queue) w') :
    Counted w' c m := by
  have hnode : ((w.pop self queue).node self).ht = (w.node self).ht := by simp [pop]
  have hreceived : m.received uninit = { m with success := false } := received_update hmtype
  obtain ⟨found, hfound⟩ : ∃ found, found = decide ((w.node self).ht.read m.key ≠ []) := ⟨_, rfl⟩
  have hreplied : Replied w w' c self m found := by
    refine replied_of_handled hc.pending (by simp [hmtype]) hq h ?_
    rw [hreceived, hfound]
    simp [Message.answer, hmtype]
  have htrace := h.trace
  rw [hreceived, hnode] at htrace
  have hstorers : storers w'.trace m.transID =
      storers w.trace m.transID ++ if found = true then [self] else [] := by
    rw [htrace, storers_append, hfound]
    by_cases hread : (w.node self).ht.read m.key = []
    · simp [storers, Message.events, hmtype, hread, pop]
    · simp [storers, Message.events, hmtype, hread, pop]
  constructor
  case pending => exact hreplied.carried
  case once =>
    intro a
    have hold := hc.once a
    have hcount := hreplied.count a
    rw [hstorers, List.count_append]
    have hself : (if found = true then [self] else []).count a ≤ if a = self then 1 else 0 := by
      by_cases ha : a = self
      · subst ha
        split <;> simp
      · have hne : ¬self = a := fun h => ha h.symm
        split <;> simp [hne]
    omega
  case confirmed =>
    have hold := hc.confirmed
    have hconfirmations := hreplied.confirmations
    have hlength : (if found = true then [self] else []).length =
        if found = true then 1 else 0 := by
      split <;> rfl
    rw [hstorers, List.length_append, hlength]
    unfold confirmations at hconfirmations
    omega
  case stored =>
    intro a key old new hs
    rw [htrace] at hs
    rcases List.mem_append.mp hs with hold | hmem
    · exact hc.stored a key old new hold
    · obtain ⟨-, -, -, rfl, rfl⟩ := stored_mem_events hmem
      exact ⟨rfl, _, _, rfl⟩

end Arrival

theorem Counted.alters (hc : Counted w c m) (hm : m.Sendable) (hmtype : m.type = .update)
    (hknown : Known w m.transID) (hlt : w'.transID < 2 ^ 31) (h : Alters hash ok w w') :
    Counted w' c m := by
  cases turn_of_alters (c := c) hc.pending hm hknown hlt h with
  | quiet h => exact hc.quiet hm h
  | handled self uninit replica queue hq h => exact hc.request hmtype hq h

theorem Counted.issued {self : Address} {uninit : ReplicaType} {key value : Str}
    {r₀ r₁ r₂ : Node} (hn : Numbered w) (hlt : w.transID + 1 < 2 ^ 31)
    (hdistinct : ([r₀, r₁, r₂].map Node.nodeAddress).Nodup)
    (hm : m = ⟨.update, uninit, key, value, self, w.nextTransID.gTransID, false⟩)
    (hmsend : m.Sendable) : Counted
      (w.issued self ((Request.update key value).message self uninit) r₀ r₁ r₂) self m := by
  have ht : m.transID = w.nextTransID.gTransID := by rw [hm]
  have hstorers : storers w.trace m.transID = [] := by
    rw [List.eq_nil_iff_forall_not_mem]
    intro a ha
    obtain ⟨key', old, new, he⟩ := mem_storers.mp ha
    exact (hn.stored a _ key' old new he).ne_next hlt ht
  constructor
  case pending => exact carried_issued hn hlt hm
  case once =>
    intro a
    rw [trace_issued, hstorers, List.count_nil]
    refine (count_pending_issued fun hmem => ?_).trans (List.nodup_iff_count_le_one.mp hdistinct a)
    have hforeign := hn.foreign hlt hmem
    rw [← ht] at hforeign
    exact hforeign.ne_toString hmsend (by rw [hm])
  case confirmed =>
    have hnone : (w.issued self ((Request.update key value).message self uninit) r₀ r₁
        r₂).confirmations self m.transID = 0 := confirmations_issued hn hlt hm
    exact hnone.le.trans (Nat.zero_le _)
  case stored =>
    intro a key' old new hs
    exact absurd ht ((hn.stored a _ key' old new hs).ne_next hlt)

/-! ## The ledger of a run -/

def Replaced (trace : List Event) (node : Address) (t : Int32) (key value : Str) : Prop :=
  ∃ old timestamp replica,
    .stored node t key old (Entry.convertToString ⟨value, timestamp, replica⟩) ∈ trace

def Quorum (trace : List Event) (t : Int32) (key value : Str) : Prop :=
  ∃ a b, a ≠ b ∧ Replaced trace a t key value ∧ Replaced trace b t key value

/-- The invariant of all runs with plain clients. -/
structure Ledger (w : World) : Prop where
  wire : Wire w
  numbered : Numbered w
  operation : ∀ c t text, (w.node c).operationTable[t]? = some text → ∃ m, text = m.toString ∧
    m.transID = t ∧ (m.type = .update → m.Sendable ∧ Counted w c m)
  quorum : ∀ trace c t key value now, trace ++
    [.logged ⟨c, true, .update, true, t, key, value, now⟩] <+: w.trace → Quorum trace t key value

/-- Two confirmations come from two nodes. -/
theorem Counted.quorum (hc : Counted w c m) (hlt : 1 < (w.noted c m.transID).count true) :
    Quorum w.trace m.transID m.key m.value := by
  have hnodup : (storers w.trace m.transID).Nodup := by
    rw [List.nodup_iff_count_le_one]
    intro a
    have := hc.once a
    omega
  have hlen : 1 < (storers w.trace m.transID).length := by
    have := hc.confirmed
    omega
  have hreplaced : ∀ a ∈ storers w.trace m.transID,
      Replaced w.trace a m.transID m.key m.value := by
    intro a ha
    obtain ⟨key, old, new, he⟩ := mem_storers.mp ha
    obtain ⟨rfl, timestamp, replica, rfl⟩ := hc.stored a key old new he
    exact ⟨old, timestamp, replica, he⟩
  refine ⟨_, _, ?_, hreplaced _ (List.getElem_mem (show 0 < _ by omega)),
    hreplaced _ (List.getElem_mem hlen)⟩
  intro heq
  have := hnodup.getElem_inj_iff.mp heq
  omega

theorem Quorum.mono {trace trace' : List Event} {key value : Str}
    (h : Quorum trace t key value) (hle : trace <+: trace') : Quorum trace' t key value := by
  obtain ⟨a, b, hne, ⟨old, timestamp, replica, ha⟩, old', timestamp', replica', hb⟩ := h
  exact ⟨a, b, hne, ⟨old, timestamp, replica, hle.subset ha⟩,
    old', timestamp', replica', hle.subset hb⟩

/-- Behind every success that is reported there is a quorum. -/
theorem Ledger.verdict (hl : Ledger w) {e : LogEntry} (he : Judged w e)
    (hop : e.operation = .update) (hsuccess : e.success = true) :
    Quorum w.trace e.transID e.key e.value := by
  cases he with
  | update self uninit results text received op value hresults htable htext hop' heq =>
      obtain ⟨m, rfl, ht, hm⟩ := hl.operation self e.transID text htable
      rw [heq] at hop hsuccess
      obtain rfl : op = .update := hop
      obtain ⟨htype, rfl⟩ : received.type = .update ∧ value = received.value := by
        rcases hop' with ⟨-, h, -⟩ | ⟨htype, -, hvalue⟩ | ⟨-, h, -⟩
        · cases h
        · exact ⟨htype, hvalue⟩
        · cases h
      have hmtype : m.type = .update := (Message.ofString_toString_some htext).1.symm.trans htype
      obtain ⟨hsend, hc⟩ := hm hmtype
      rw [Message.ofString_toString uninit hsend, received_update hmtype] at htext
      obtain rfl := (Option.some.inj htext).symm
      have hnoted : w.noted self m.transID = results := by
        rw [noted, ht, hresults, Option.getD_some]
      have hquorum := hc.quorum (by rw [hnoted]; exact of_decide_eq_true hsuccess)
      rw [heq]
      rwa [ht] at hquorum
  | read self uninit values text received v hvalues htable htext htype hv heq =>
      rw [heq] at hop
      split at hop <;> cases hop

theorem Ledger.alters (hl : Ledger w) (hlt : w'.transID < 2 ^ 31)
    (h : Alters hash PlainClients w w') : Ledger w' where
  wire := hl.wire.alters h
  numbered := hl.numbered.alters h
  operation := by
    intro c t text htable
    rcases operation_of_alters h htable with hold |
      ⟨uninit, request, r₀, r₁, r₂, hok, hfind, rfl, rfl, rfl⟩
    · obtain ⟨m, rfl, rfl, hm⟩ := hl.operation c t text hold
      refine ⟨m, rfl, rfl, fun hmtype => ?_⟩
      obtain ⟨hsend, hc⟩ := hm hmtype
      have hknown := hl.numbered.operation c m.transID
        (by rw [Std.TreeMap.mem_iff_isSome_getElem?, hold, Option.isSome_some])
      exact ⟨hsend, hc.alters hsend hmtype hknown hlt h⟩
    · refine ⟨_, rfl, by cases request <;> rfl, fun hmtype => ?_⟩
      obtain ⟨hplain, hlen, hdistinct⟩ := hok
      cases request with
      | update key value =>
          have hsend : Message.Sendable ((Request.update key value).message c uninit
              w.nextTransID.gTransID) :=
            ⟨plain_iff_clean.mp hplain.1, plain_iff_clean.mp hplain.2⟩
          refine ⟨hsend, Counted.issued hl.numbered hlt ?_ rfl hsend⟩
          rw [← hfind]
          exact findNodes_nodup hash key hdistinct
      | create | read | delete => cases hmtype
  quorum := by
    intro trace c t key value now hprefix
    obtain ⟨l, htrace, hl'⟩ := trace_of_alters h
    rw [htrace] at hprefix
    rcases prefix_append_cases hprefix with hold | ⟨hnew, hle⟩
    · exact hl.quorum trace c t key value now hold
    · exact (hl.verdict (hl' _ hnew rfl) rfl rfl).mono hle

theorem ledger_initial : Ledger initial where
  wire := wire_initial
  numbered := numbered_initial
  operation := by simp [initial, MP2Node.new]
  quorum := by simp [initial]

theorem Ledger.step (hl : Ledger w) (h : Allowed hash PlainClients w w') : Ledger w' := by
  obtain ⟨a, hok, hstep, hlt⟩ := h
  have hpath := bounded_path (fun _ _ => transID_le_of_alters)
    (alters_step hok hl.wire.cleanTable hstep) hlt
  exact invariant_of_run (fun _ _ h hl => hl.alters h.2 h.1) hpath hl

/-- When a coordinator logs success for an `UPDATE`, two nodes have replaced their entry under
its id by one built from its value. -/
theorem no_false_quorum {trace rest : List Event} {key value : Str} {now : Int32}
    (hrun : Steps hash PlainClients initial w) (htrace : w.trace = trace ++
      .logged ⟨c, true, .update, true, t, key, value, now⟩ :: rest) :
    Quorum trace t key value := by
  have hl : Ledger w := invariant_of_run (fun _ _ h hl => hl.step h) hrun ledger_initial
  refine hl.quorum trace c t key value now ?_
  rw [htrace]
  exact ⟨rest, by simp⟩

instance {s : Str} : Decidable (Plain s) := inferInstanceAs (Decidable (_ ∧ _))

instance : DecidablePred Request.Plain
  | .create _ _ | .update _ _ => inferInstanceAs (Decidable (_ ∧ _))
  | .read key | .delete key => inferInstanceAs (Decidable (KeyValueStore.Plain key))

instance {w : World} {a : Action} : Decidable (PlainClients w a) :=
  match a with
  | .client _ _ _ => inferInstanceAs (Decidable (_ ∧ _ ∧ _))
  | .updateRing _ _ | .checkMessages _ _ | .receive _ | .lose _ | .tick =>
      inferInstanceAs (Decidable True)

/-- Node `1` of three creates a key and updates it; the second request to node `3` is lost. -/
def quorumRun : Option World :=
  let create : Message := ⟨.create, .primary, ['k'], ['u'], sampleNode 1, 1, false⟩
  let update : Message := ⟨.update, .primary, ['k'], ['v'], sampleNode 1, 2, false⟩
  let reply (i : Nat) : Message := ⟨.reply, .primary, [], [], sampleNode i, 2, true⟩
  let check (i : Nat) : Action := .checkMessages (sampleNode i) .primary
  initial.follow sampleHash PlainClients
    ([1, 2, 3].map (fun i => .updateRing (sampleNode i) (sampleMembers 3)) ++
    [.client (sampleNode 1) .primary (.create ['k'] ['u'])] ++
    [1, 2, 3].map (fun i => .receive (create.packet (sampleNode i))) ++
    [1, 2, 3].map check ++
    [.tick, .client (sampleNode 1) .primary (.update ['k'] ['v']),
      .receive (update.packet (sampleNode 1)), .receive (update.packet (sampleNode 2)),
      .lose (update.packet (sampleNode 3)), check 1, check 2,
      .receive ((reply 1).packet (sampleNode 1)), .receive ((reply 2).packet (sampleNode 1)),
      check 1])

theorem no_false_quorum_threeNodes :
    Quorum ((quorumRun.get (by decide +kernel)).trace.take 7) 2 ['k'] ['v'] :=
  @no_false_quorum sampleHash (quorumRun.get (by decide +kernel)) (sampleNode 1) 2 _ []
    ['k'] ['v'] 1 (steps_of_follow (Option.some_get _).symm) (by decide +kernel)

end World

end CloudComputing.KeyValueStore
