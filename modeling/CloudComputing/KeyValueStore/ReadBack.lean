import CloudComputing.KeyValueStore.Durability

/-!
# Reading a value back

The replicas of a key hold entries of one value.  A `READ` reaches them in the
next tick, and what they answer is judged in the tick after: two entries of one
value are a success.
-/

namespace CloudComputing.KeyValueStore

open Lib Relation

namespace World

variable {R : SortedRing} {hash : Str → Nat} {group : Group R} {q : Request → Prop}
  {w w' v v' : World} {a b c r : Address} {key value text s : Str} {round : Round}
  {t : Int32} {uninit : ReplicaType}

def readMessage (r : Address) (uninit : ReplicaType) (key : Str) (t : Int32) : Message :=
  (Request.read key).message r uninit t

/-- Under the id of a read there are only the request, at replicas, and answers with the value. -/
structure Asked (hash : Str → Nat) (R : SortedRing) (r : Address) (uninit : ReplicaType)
    (key value : Str) (t : Int32) (w : World) : Prop where
  known : Known w t
  pending : ∀ b, ∀ s ∈ w.pending b, ∀ uninit m, Message.ofString uninit s = some m →
    m.transID = t → (m.type = .read ∧ m.key = key ∧ b ∈ R.replicas hash key) ∨
      (m.type = .readreply ∧ Decodes m.value value)
  operation : (w.node r).operationTable[t]? = some (readMessage r uninit key t).toString

theorem answer_read {u u' : ReplicaType} {arrived answer m : Message} (hw : Wire w)
    (htype : arrived.type = .read)
    (hanswer : arrived.answer u a (w.node a).ht = some answer)
    (hm : Message.ofString u' answer.toString = some m) :
    m.type = .readreply ∧ m.value = (w.node a).ht.read arrived.key := by
  have hreply : answer =
      ⟨.readreply, u, [], (w.node a).ht.read arrived.key, a, arrived.transID, false⟩ := by
    simpa [Message.answer, htype] using hanswer.symm
  have hsend : answer.Sendable := by
    rw [hreply]
    exact hw.sendable_read
  obtain rfl := Option.some.inj ((Message.ofString_toString u' hsend).symm.trans hm)
  rw [hreply]
  exact ⟨rfl, rfl⟩

theorem Asked.change (ho : Orderly hash group w) (harrived : Arrived hash R key value w)
    (hlt : w'.transID < 2 ^ 31) (h : Change hash (Local hash group q) w w')
    (hasked : Asked hash R r uninit key value t w) : Asked hash R r uninit key value t w' where
  known := hasked.known.mono (transID_le_of_alters (.change h))
  operation := operation_kept hasked.known hlt (.change h) hasked.operation
  pending := by
    intro b s hs u m hm ht
    cases sent_of_change h hs with
    | old hold => exact hasked.pending b s hold u m hm ht
    | request self u' request hok hto hnext heq =>
        subst heq
        have hid := (Message.ofString_toString_some hm).2.2
        rw [(message_fields ..).2.1, ht] at hid
        exact absurd hid (hasked.known.ne_next (by omega))
    | answer self u' text arrived answer hpending htext hanswer hto heq =>
        subst heq
        have hid : arrived.transID = t := by
          rw [← transID_answer hanswer, ← (Message.ofString_toString_some hm).2.2, ht]
        refine Or.inr ?_
        rcases hasked.pending self text hpending u' arrived htext hid with
          ⟨htype, hkey, hself⟩ | ⟨htype, -⟩
        · obtain ⟨hreply, hvalue⟩ := answer_read ho.sound.wire htype hanswer hm
          obtain ⟨entry, hentry, hdecodes⟩ := harrived.holds self hself
          rw [hkey, HashTable.read_eq, hentry, Option.getD_some] at hvalue
          exact ⟨hreply, hvalue ▸ hdecodes⟩
        · simp [Message.answer, htype] at hanswer

theorem Asked.fixed (ho : Orderly hash group w) (harrived : Arrived hash R key value w)
    (hlt : w'.transID < 2 ^ 31) (h : Fixed hash R (Local hash group q) w w')
    (hasked : Asked hash R r uninit key value t w) : Asked hash R r uninit key value t w' := by
  cases h with
  | change h => exact hasked.change ho harrived hlt h
  | setRing self h =>
      subst h
      exact ⟨hasked.known, by simpa using hasked.pending, by simpa using hasked.operation⟩

theorem Asked.follows (hspare : ∀ r, q r → r.Spares key) (ho : Orderly hash group w)
    (harrived : Arrived hash R key value w) (hpath : Follows hash group q w w')
    (hlt : w'.transID < 2 ^ 31) (hasked : Asked hash R r uninit key value t w) :
    Asked hash R r uninit key value t w' := by
  have hboth := hpath.invariant
    (P := fun v => Arrived hash R key value v ∧ Asked hash R r uninit key value t v)
    (fun r hr => (hspare r hr).1) ho hlt
    (fun v v' ho hstep hlt hv => ⟨hv.1.fixed hspare hstep, hv.2.fixed ho hv.1 hlt hstep⟩)
    ⟨harrived, hasked⟩
  exact hboth.2

theorem received_read {m : Message} {u : ReplicaType} (hkey : Plain key)
    (hm : Message.ofString u (readMessage r uninit key t).toString = some m) :
    m.type = .read ∧ m.key = key := by
  have hplain : (Request.read key).Plain := hkey
  have hread := Message.ofString_toString u (hplain.sendable r uninit t)
  obtain rfl := Option.some.inj (hread.symm.trans hm)
  exact ⟨rfl, rfl⟩

theorem asked_call {w₂ : World} (hkey : Plain key)
    (hparts : CallParts hash group q (r, uninit, .read key) w w₂ v v' w') :
    Asked hash R r uninit key value v.nextTransID.gTransID v' := by
  have hlt : v.transID + 1 < 2 ^ 31 := hparts.next_lt
  obtain ⟨r₀, r₁, r₂, hfind, rfl⟩ := hparts.find
  change findNodes hash key R.nodes = _ at hfind
  constructor
  case known => exact ⟨v.transID + 1, by simp [refuse], rfl⟩
  case operation => simp [refuse, issued, readMessage]
  case pending =>
    intro b s hs u m hm ht
    rcases (mem_pending_append net_issued mp2q_issued).mp (mem_pending_refuse hs) with
      ⟨p, hp, hdst, rfl⟩ | hold
    · obtain ⟨n, hn, rfl⟩ := List.mem_map.mp hp
      obtain ⟨htype, hread⟩ := received_read hkey hm
      refine Or.inl ⟨htype, hread, ?_⟩
      unfold SortedRing.replicas
      rw [hfind]
      exact List.mem_map.mpr ⟨n, hn, hdst⟩
    · exact absurd ht (hparts.ready.numbered.foreign hlt hold u m hm)

/-! ## The answers -/

/-- The entry of `a`, rewritten once more, fits into the answer to a read. -/
def ReplyFits (a r : Address) (key : Str) (t : Int32) (w : World) : Prop :=
  ∀ text, (w.node a).ht.get? key = some text →
    Fits (readReplyPacket a r t (Entry.convertToString ⟨text, w.currtime, .primary⟩)).data

instance {w : World} : Decidable (ReplyFits a r key t w) :=
  inferInstanceAs (Decidable (∀ text ∈ (w.node a).ht.get? key,
    Fits (readReplyPacket a r t (Entry.convertToString ⟨text, w.currtime, .primary⟩)).data))

theorem data_readReplyPacket (a r : Address) (t : Int32) (text : Str) :
    (readReplyPacket a r t text).data = (readReplyPacket a r t []).data ++ text := by
  simp [readReplyPacket, Message.toString, Message.header]

theorem fits_readReply {text' : Str} (hle : text.length ≤ text'.length)
    (h : Fits (readReplyPacket a r t text').data) : Fits (readReplyPacket a r t text).data := by
  unfold Fits at h ⊢
  rw [data_readReplyPacket, List.length_append] at h ⊢
  omega

theorem length_convertToString_rank (text : Str) (now : Int32) {p : Nat} (hp : p < 3) :
    (Entry.convertToString ⟨text, now, rank p⟩).length =
      (Entry.convertToString ⟨text, now, .primary⟩).length := by
  have hdigit : (Decimal.toStr (rank p).toInt32.toInt).length =
      (Decimal.toStr ReplicaType.primary.toInt32.toInt).length := by
    obtain rfl | rfl | rfl : p = 0 ∨ p = 1 ∨ p = 2 := by omega
    all_goals rfl
  unfold Entry.convertToString
  simp only [List.length_append, hdigit]

theorem MemberTurn.reply_fits (hturn : MemberTurn hash group q round a w w' v v')
    (hfits : ReplyFits a r key t w) (hthere : (w.node a).ht.get? key = some text)
    (hne : text ≠ []) :
    Fits (readReplyPacket a r t ((v.node a).ht.read key)).data := by
  have hentry := hfits text hthere
  rw [HashTable.read_eq]
  rcases hturn.entry key text hthere hne with hsame | ⟨p, hp, hnew⟩
  · rw [hsame, Option.getD_some]
    refine fits_readReply ?_ hentry
    unfold Entry.convertToString
    simp only [List.length_append]
    omega
  · rw [hnew, Option.getD_some]
    exact fits_readReply (length_convertToString_rank text w.currtime hp).le hentry

theorem replica_mem_group (h : a ∈ R.replicas hash key) : a ∈ group.addresses := by
  obtain ⟨n, hn, rfl⟩ := List.mem_map.mp h
  exact group.perm.mem_iff.mpr (List.mem_map.mpr ⟨n, mem_of_mem_findNodes hn, rfl⟩)

/-- A replica answers in the tick after the call. -/
theorem answered_turn {w₂ : World} (hspare : ∀ r, q r → r.Spares key) (hkey : Plain key)
    (hparts : TurnParts hash group q round w w₂ w')
    (harrived : Arrived hash R key value w) (ha : a ∈ R.replicas hash key)
    (hasked : ⟨r, a, (readMessage r uninit key t).toString⟩ ∈ w.net)
    (hfits : ReplyFits a r key t w) :
    ∃ text, Decodes text value ∧ readReplyPacket a r t text ∈ w'.net := by
  obtain ⟨v, v', hturn⟩ := hparts.member a (replica_mem_group ha)
  have hv : Arrived hash R key value v := harrived.follows hspare hturn.follows
  obtain ⟨text, htext, hdecodes⟩ := hv.holds a ha
  obtain ⟨old, hold, hdecodes'⟩ := harrived.holds a ha
  have hqueued : (readMessage r uninit key t).toString ∈ (v.node a).mp2q :=
    hturn.queue.mem_iff.mpr (mem_pending_of_net hasked)
  have hreceived : Message.ofString (round.uninit a) (readMessage r uninit key t).toString =
      some ((readMessage r uninit key t).received (round.uninit a)) := by
    have hplain : (Request.read key).Plain := hkey
    exact Message.ofString_toString (round.uninit a) (hplain.sendable r uninit t)
  obtain ⟨sent, hnet, -, hreplies⟩ := (queueAnswered_checkMessages hturn.call).net
  have hsent : readReplyPacket a r t ((v.node a).ht.read key) ∈ v'.net := by
    rw [hnet]
    refine List.mem_append_right _ (hreplies _ hqueued _ hreceived rfl fun s hs m hm => ?_)
    exact hv.idle a s (List.mem_append_right _ hs) (round.uninit a) m hm
  have hfits' : (readReplyPacket a r t ((v.node a).ht.read key)).fits = true :=
    Packet.fits_iff.mpr (hturn.reply_fits hfits hold hdecodes'.ne_nil)
  refine ⟨(v.node a).ht.read key, ?_, hparts.requested.kept _ (hturn.net _ hsent hfits') hfits'⟩
  rw [HashTable.read_eq, htext, Option.getD_some]
  exact hdecodes

/-! ## The verdict -/

theorem received_readReply (ho : Orderly hash group w) (hp : readReplyPacket a r t text ∈ w.net)
    (u : ReplicaType) : ∃ m, Message.ofString u (readReplyPacket a r t text).data = some m ∧
      m.isReadReply = true ∧ m.transID = t ∧ m.fromAddr = a := by
  obtain ⟨m, hm, -⟩ := ho.sound.ofString (mem_pending_of_net hp) u
  obtain ⟨htype, hfrom, hid⟩ := Message.ofString_toString_some
    (m := ⟨.readreply, .primary, [], text, a, t, false⟩) hm
  refine ⟨m, hm, ?_, hid, hfrom⟩
  simp [Message.isReadReply, htype]

theorem mem_arrivals {p : Message → Prop} [DecidablePred p] {queue : List Str} {m : Message} :
    m ∈ arrivals uninit p queue ↔
      ∃ s ∈ queue, Message.ofString uninit s = some m ∧ p m := by
  simp [arrivals, List.mem_filterMap, Option.filter_eq_some_iff]

theorem two_arrivals {queue : List Str} {s s' : Str} {p : Message → Prop} [DecidablePred p]
    {m m' : Message} (hs : s ∈ queue) (hs' : s' ∈ queue) (hne : s ≠ s')
    (hm : Message.ofString uninit s = some m) (hm' : Message.ofString uninit s' = some m')
    (hp : p m) (hp' : p m') : 1 < (arrivals uninit p queue).length := by
  have hsub : List.Subperm [s, s'] queue :=
    List.subperm_of_subset (by simpa using hne) (by simp [hs, hs'])
  let taken := fun s => ((Message.ofString uninit s).filter fun m => p m).isSome
  have htwo : [s, s'].countP taken = 2 := by
    simp [taken, hm, hm', hp, hp']
  have hle : [s, s'].countP taken ≤ queue.countP taken := hsub.countP_le taken
  unfold arrivals
  rw [List.length_filterMap_eq_countP]
  exact lt_of_lt_of_le (by omega) hle

/-- The coordinator logs the value in the tick after the answers. -/
theorem logged_turn {w₂ : World} (hvalue : value ≠ []) (hkey : Plain key)
    (ho : Orderly hash group w) (hr : Rested group w)
    (hparts : TurnParts hash group q round w w₂ w') (hmember : r ∈ group.addresses)
    (hasked : Asked hash R r uninit key value t w)
    (hanswers : ∀ a ∈ R.replicas hash key,
      ∃ text, Decodes text value ∧ readReplyPacket a r t text ∈ w.net) :
    .logged ⟨r, true, .read, true, t, key, value, w.currtime⟩ ∈ w'.trace := by
  obtain ⟨v, v', hturn⟩ := hparts.member r hmember
  obtain ⟨ht, queue, hnode⟩ := hturn.node
  have hempty : (v.node r).readValueTable = ∅ := by
    rw [hnode]
    exact (hr.tables r hmember).2
  have htable : (v.node r).operationTable[t]? = some (readMessage r uninit key t).toString := by
    rw [hnode]
    exact hasked.operation
  have hplain : (Request.read key).Plain := hkey
  have hreceived := Message.ofString_toString (round.uninit r) (hplain.sendable r uninit t)
  have hall : ∀ m ∈ arrivals (round.uninit r) (fun m => m.isReadReply = true ∧ m.transID = t)
      (v.node r).mp2q, Decodes m.value value := by
    intro m hm
    obtain ⟨s, hs, hofString, hreply, hid⟩ := mem_arrivals.mp hm
    rcases hasked.pending r s (hturn.queue.mem_iff.mp hs) _ m hofString hid with
      ⟨htype, -⟩ | ⟨-, hdecodes⟩
    · simp [Message.isReadReply, htype] at hreply
    · exact hdecodes
  have htwo : 1 < (arrivals (round.uninit r) (fun m => m.isReadReply = true ∧ m.transID = t)
      (v.node r).mp2q).length := by
    obtain ⟨n₀, n₁, n₂, hfind, hne, -⟩ := replicas_eq hash R key
    have hreplicas : R.replicas hash key = [n₀, n₁, n₂].map Node.nodeAddress := by
      unfold SortedRing.replicas
      rw [hfind]
    obtain ⟨text₀, -, h₀⟩ := hanswers n₀.nodeAddress (by simp [hreplicas])
    obtain ⟨text₁, -, h₁⟩ := hanswers n₁.nodeAddress (by simp [hreplicas])
    obtain ⟨m₀, hm₀, hreply₀, hid₀, hfrom₀⟩ := received_readReply ho h₀ (round.uninit r)
    obtain ⟨m₁, hm₁, hreply₁, hid₁, hfrom₁⟩ := received_readReply ho h₁ (round.uninit r)
    refine two_arrivals (hturn.queue.mem_iff.mpr (mem_pending_of_net h₀))
      (hturn.queue.mem_iff.mpr (mem_pending_of_net h₁)) (fun heq => hne ?_) hm₀ hm₁
      ⟨hreply₀, hid₀⟩ ⟨hreply₁, hid₁⟩
    rw [heq, hm₁] at hm₀
    rw [← hfrom₀, ← hfrom₁, Option.some.inj hm₀]
  have hlogged := logged_checkMessages hturn.call hvalue hempty htable hreceived rfl htwo hall
  rw [hturn.currtime] at hlogged
  exact (trace_follows hparts.later).subset (hturn.trace.subset hlogged)

def AnsweredByAll (hash : Str → Nat) (R : SortedRing) (r : Address) (key value : Str) (t : Int32)
    (w : World) : Prop :=
  ∀ a ∈ R.replicas hash key, ∃ text, Decodes text value ∧ readReplyPacket a r t text ∈ w.net

theorem spares_read (hkey : Plain key) : (Request.read key).Spares key := by
  refine ⟨hkey, fun hwrites => ?_⟩
  simp [Request.Writes] at hwrites

/-- A read of what has been written comes back with it. -/
theorem read_back (hspare : ∀ r, q r → r.Spares key) (hkey : Plain key) (hvalue : value ≠ [])
    (ho : Orderly hash group w) (hr : Rested group w) (harriving : Arriving hash R key value w)
    (hcall : Called hash group q (r, uninit, .read key) w v w')
    (hfits : Fits (readMessage r uninit key v.nextTransID.gTransID).toString)
    (hreplies : ∀ a ∈ R.replicas hash key, ReplyFits a r key v.nextTransID.gTransID w') :
    Next hash group q (fun w₁ =>
      AnsweredByAll hash R r key value v.nextTransID.gTransID w₁ ∧
      Next hash group q (fun w₂ => .logged ⟨r, true, .read, true, v.nextTransID.gTransID, key,
        value, w₁.currtime⟩ ∈ w₂.trace) w₁) w' := by
  have hparse : ∀ r, q r → r.Parsable := fun r hr => (hspare r hr).1
  have hspare' : ∀ r', (q r' ∨ r' = .read key) → r'.Spares key :=
    spares_or hspare (spares_read hkey)
  obtain ⟨u, v', hparts⟩ := callParts hparse ho hr hcall hkey
  have hmember : r ∈ group.addresses := by
    obtain ⟨_, _, _, _, _, hmember, _⟩ := hcall
    exact hmember
  -- the state when the call has been made
  have hv : Arrived hash R key value v :=
    (harriving.halfway hspare ho hparts.halfway).follows hspare hparts.earlier
  have hv' : Arrived hash R key value v' := hv.follows hspare' hparts.call
  have hasked : Asked hash R r uninit key value v.nextTransID.gTransID w' :=
    (asked_call hkey hparts).follows hspare hparts.orderly hv' hparts.later hparts.bounded
  have harrived : Arrived hash R key value w' := hv'.follows hspare hparts.later
  obtain ⟨hfollows, hrested, -⟩ := rested_ticked (fun r hr => (hspare' r hr).1) ho hr hcall.ticked
  have how : Orderly hash group w' := ho.path (fun r hr => (hspare' r hr).1) hfollows.path
  have hsent : ∀ a ∈ R.replicas hash key,
      ⟨r, a, (readMessage r uninit key v.nextTransID.gTransID).toString⟩ ∈ w'.net := by
    intro a ha
    obtain ⟨r₀, r₁, r₂, hfind, rfl⟩ := hparts.find
    exact hparts.after.kept _ (mem_net_call hfind hfits ha) (Packet.fits_iff.mpr hfits)
  intro round hover
  obtain ⟨w₁, hturn⟩ := turn_isSome hparse how hrested hover
  refine ⟨w₁, hturn, fun hlt => ?_⟩
  obtain ⟨u₁, hparts₁⟩ := turnParts hparse how hrested hover hturn
  have hanswers : AnsweredByAll hash R r key value v.nextTransID.gTransID w₁ :=
    fun a ha => answered_turn hspare hkey hparts₁ harrived ha (hsent a ha) (hreplies a ha)
  have hasked₁ := hasked.follows hspare how harrived hparts₁.follows hlt
  have how₁ : Orderly hash group w₁ := how.path hparse hparts₁.follows.path
  have hrested₁ : Rested group w₁ := hparts₁.halfway.rested.requested hparts₁.requested
  refine ⟨hanswers, fun round' hover' => ?_⟩
  obtain ⟨w₂, hturn'⟩ := turn_isSome hparse how₁ hrested₁ hover'
  refine ⟨w₂, hturn', fun _ => ?_⟩
  obtain ⟨u₂, hparts₂⟩ := turnParts hparse how₁ hrested₁ hover' hturn'
  exact logged_turn hvalue hkey how₁ hrested₁ hparts₂ hmember hasked₁ hanswers

end World

end CloudComputing.KeyValueStore
