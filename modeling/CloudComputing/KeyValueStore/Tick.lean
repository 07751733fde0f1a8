import CloudComputing.KeyValueStore.ReadVerdict
import CloudComputing.KeyValueStore.Relabelling
import CloudComputing.KeyValueStore.Soundness

/-!
# A tick from end to end

What `follows_turn` bounds from above is exact here.  In the first loop of a tick
all messages leave the network for the queues, in the second all queues are
emptied and answered, and only the requests of the tick join the answers.  With
parsable requests no tick throws.
-/

namespace CloudComputing.KeyValueStore

open Lib Relation

theorem Group.nodup {R : SortedRing} (group : Group R) : group.addresses.Nodup :=
  group.perm.nodup_iff.mpr R.addresses

namespace World

variable {R : SortedRing} {hash : Str → Nat} {group : Group R} {q : Request → Prop}
  {w w' v v' : World} {self a b : Address} {key text : Str} {round : Round}

/-- The invariants of a group that makes parsable requests. -/
structure Orderly (hash : Str → Nat) (group : Group R) (w : World) : Prop where
  placed : Placed hash R w
  routed : Routed group w
  sound : Sound w
  numbered : Numbered w

theorem Orderly.fixed (ho : Orderly hash group w) (hq : ∀ r, q r → r.Parsable)
    (h : Fixed hash R (Local hash group q) w w') : Orderly hash group w' where
  placed := ho.placed.fixed (fun _ _ request hok => (hq request hok.2).plain) h
  routed := ho.routed.fixed ho.placed h
  sound := ho.sound.fixed (fun _ _ request hok => hq request hok.2) h
  numbered := ho.numbered.alters h.alters

theorem Orderly.path (ho : Orderly hash group w) (hq : ∀ r, q r → r.Parsable)
    (h : ReflTransGen (Fixed hash R (Local hash group q)) w w') : Orderly hash group w' :=
  invariant_of_run (fun _ _ hstep ho => ho.fixed hq hstep) h ho

theorem Orderly.follows (ho : Orderly hash group w) : Follows hash group q w w :=
  .refl ho.placed ho.routed

theorem orderly_initial : Orderly hash group initial where
  placed := placed_initial
  routed := by simp [Routed, initial, MP2Node.new, World.pending]
  sound := sound_initial
  numbered := numbered_initial

/-! ## The first loop -/

/-- What `updateRing` did with the ring the group agrees on. -/
structure RingUpdated (hash : Str → Nat) (R : SortedRing) (c : Address) (w w' : World) :
    Prop where
  others : ∀ b, b ≠ c → w'.node b = w.node b
  node : ∃ ht, w'.node c = { w.node c with ring := R.nodes, ht := ht }
  net : w'.net = w.net
  currtime : w'.currtime = w.currtime
  entry : ∀ key text, (w.node c).ht.get? key = some text → text ≠ [] →
    (w'.node c).ht.get? key = some text ∨ ∃ p, p < 3 ∧ (w'.node c).ht.get? key =
      some (Entry.convertToString ⟨text, w.currtime, rank p⟩)

theorem lt_of_ownPos {n₀ n₁ n₂ : Node} {p : Nat} (h : ownPos self [n₀, n₁, n₂] = some p) :
    p < 3 := by
  rcases ownPos_cases self n₀ n₁ n₂ with ⟨hpos, -⟩ | ⟨hpos, -⟩ | ⟨hpos, -⟩ | ⟨hpos, -⟩
  all_goals
    rw [hpos] at h
    cases h
  all_goals omega

theorem stabilizationProtocol_same (hp : Placed hash R w) (hring : (w.node self).ring = R.nodes)
    (h : w.stabilizationProtocol hash self R.nodes = some w') :
    w'.net = w.net ∧ w'.currtime = w.currtime := by
  have hloop := stabilizationProtocol_invariant
    (P := fun rest v => (v.net = w.net ∧ v.currtime = w.currtime) ∧
      ∀ x ∈ rest, self ∈ R.replicas hash x.1)
    (fun key value rest v v' n₀ n₁ n₂ hP _ hentry hsame hfind _ hturn => by
      rw [hring, hfind] at hturn
      obtain ⟨replica, rfl⟩ := hturn.same_ring (hsame.trans hring)
        (hP.2 (key, value) List.mem_cons_self) hfind
      exact ⟨by simpa using hP.1, fun x hx => hP.2 x (List.mem_cons_of_mem _ hx)⟩)
    ⟨⟨rfl, rfl⟩, fun x hx => hp.holder self x.1 x.2 (HashTable.mem_toList.mp hx)⟩ h
  exact hloop.1

theorem ownPos_of_replica {n₀ n₁ n₂ : Node} (hfind : findNodes hash key R.nodes = [n₀, n₁, n₂])
    (h : self ∈ R.replicas hash key) : ∃ p, ownPos self [n₀, n₁, n₂] = some p := by
  unfold SortedRing.replicas at h
  rw [hfind] at h
  cases hpos : ownPos self [n₀, n₁, n₂] with
  | some p => exact ⟨p, rfl⟩
  | none =>
      obtain ⟨h₀, h₁, h₂⟩ := ne_of_ownPos hpos
      simp [Ne.symm h₀, Ne.symm h₁, Ne.symm h₂] at h

theorem ringUpdated_updateRing {memberList : List MemberListEntry} (hp : Placed hash R w)
    (hlist : ringOf hash memberList = R.nodes)
    (h : w.updateRing hash self memberList = some w') : RingUpdated hash R self w w' := by
  have hsorted : sortNodes R.nodes = R.nodes := R.sortNodes_nodes
  rcases updateRing_some h with ⟨-, rfl⟩ | ⟨hring, -, w₁, hst, rfl⟩ | ⟨hring, -, rfl⟩
  · rw [hlist, hsorted]
    exact ⟨fun b hb => node_modifyNode_of_ne hb, ⟨_, node_modifyNode_self⟩, rfl, rfl,
      fun key text htext _ => Or.inl (by simpa using htext)⟩
  · rw [hlist] at hst ⊢
    rw [hsorted]
    have hfixed := (hp.ring self).resolve_left hring
    obtain ⟨hnet, htime⟩ := stabilizationProtocol_same hp hfixed hst
    obtain ⟨hothers, hself, -⟩ := stabilizationProtocol_frame hst
    refine ⟨fun b hb => (node_modifyNode_of_ne hb).trans (hothers b hb), ⟨(w₁.node self).ht, ?_⟩,
      hnet, htime, ?_⟩
    · rw [node_modifyNode_self, hself]
    · intro key text htext hne
      obtain ⟨n₀, n₁, n₂, hfind, -⟩ := replicas_eq hash R key
      obtain ⟨p, hpos⟩ := ownPos_of_replica hfind (hp.holder self key text htext)
      obtain ⟨sent, -, htreated⟩ :=
        treated_stabilizeKeys (stabilizationProtocol_some hst).1 htext hne
      refine Or.inr ⟨p, lt_of_ownPos hpos, ?_⟩
      simpa using (htreated n₀ n₁ n₂ hfind).1 p hpos
  · have hfixed := (hp.ring self).resolve_left hring
    refine ⟨fun b hb => node_modifyNode_of_ne hb, ⟨(w.node self).ht, ?_⟩, rfl, rfl,
      fun key text htext _ => Or.inl (by simpa using htext)⟩
    rw [node_modifyNode_self, hfixed, hsorted]

/-- No entry is at a node that would hand it over. -/
theorem erasesNothing_of_placed (hp : Placed hash R w) : ErasesNothing hash self R.nodes w := by
  intro key hread
  obtain ⟨text, htext⟩ := Option.ne_none_iff_exists'.mp (HashTable.get?_ne_none_of_read hread)
  exact hp.holder self key text htext

theorem updateRing_isSome {memberList : List MemberListEntry} (hp : Placed hash R w)
    (hlist : ringOf hash memberList = R.nodes) :
    ∃ w', w.updateRing hash self memberList = some w' := by
  have hnew : sortNodes (getMembershipList hash memberList) = R.nodes := hlist
  unfold updateRing
  simp only [Option.bind_eq_bind, Option.pure_def, hnew]
  by_cases hring : (w.node self).ring = []
  · simp [hring]
  · have hfixed := (hp.ring self).resolve_left hring
    have hthree := R.three
    have hst : (w.stabilizationProtocol hash self R.nodes).isSome = true :=
      (stabilizationProtocol_isSome hring).mpr
        ⟨fun _ _ => ⟨hthree, Or.inl (by rwa [hfixed])⟩, erasesNothing_of_placed hp⟩
    obtain ⟨w₁, hw₁⟩ := Option.isSome_iff_exists.mp hst
    rw [if_neg hring]
    split
    · exact ⟨_, by rw [hw₁]; rfl⟩
    · exact ⟨_, rfl⟩

theorem refuse_eq (h : ∀ p ∈ w.net, p.fits = true) : w.refuse = w := by
  unfold refuse
  rw [List.filter_eq_self.mpr h]

/-- A node that fetches its messages moves them from the network to its queue. -/
theorem pending_recvLoop (hdst : ∀ p ∈ w.net, p.dst.strcmpEq self = true → p.dst = self)
    (b : Address) : ((w.recvLoop self).pending b).Perm (w.pending b) := by
  obtain ⟨taken, htaken, hrest, hsame⟩ := recvLoop_perm hdst
  unfold World.pending
  by_cases hb : b = self
  · subst hb
    have hnone : ((w.recvLoop b).net.filter fun p => p.dst = b) = [] := by
      rw [List.filter_eq_nil_iff]
      intro p hp
      simpa using (List.mem_filter.mp (hrest.mem_iff.mp hp)).2
    have hqueue : ((w.recvLoop b).node b).mp2q = (w.node b).mp2q ++ taken.map Packet.data := by
      rw [hsame, node_modifyNode_self]
    rw [hnone, hqueue, List.map_nil, List.nil_append]
    exact ((htaken.map Packet.data).append_left _).trans List.perm_append_comm
  · have hnode : (w.recvLoop self).node b = w.node b := by
      rw [hsame, node_modifyNode_of_ne hb]
    rw [hnode]
    refine List.Perm.append_right _ (List.Perm.map _ ((hrest.filter _).trans ?_))
    rw [List.filter_filter]
    refine List.Perm.of_eq (List.filter_congr fun p hp => ?_)
    by_cases hdst' : p.dst = b
    · simp [hdst', hb]
    · simp [hdst']

/-- What a turn of the first loop of a tick did. -/
structure Gathered (hash : Str → Nat) (R : SortedRing) (c : Address) (w w' : World) : Prop where
  others : ∀ b, b ≠ c → w'.node b = w.node b
  node : ∃ ht queue, w'.node c = { w.node c with ring := R.nodes, ht := ht, mp2q := queue }
  pending : ∀ b, (w'.pending b).Perm (w.pending b)
  net : ∀ p ∈ w'.net, p ∈ w.net ∧ p.dst ≠ c
  currtime : w'.currtime = w.currtime
  entry : ∀ key text, (w.node c).ht.get? key = some text → text ≠ [] →
    (w'.node c).ht.get? key = some text ∨ ∃ p, p < 3 ∧ (w'.node c).ht.get? key =
      some (Entry.convertToString ⟨text, w.currtime, rank p⟩)

theorem gathered_refresh (ho : Orderly hash group w) (hfits : ∀ p ∈ w.net, p.fits = true)
    (hlist : ringOf hash (round.memberList self) = R.nodes) (hself : self ∈ group.addresses)
    (h : w.refresh hash round self = some w') : Gathered hash R self w w' := by
  obtain ⟨v, hring, rfl⟩ := Option.map_eq_some_iff.mp h
  have hu := ringUpdated_updateRing ho.placed hlist hring
  rw [refuse_eq (by rwa [hu.net])]
  have hdst : ∀ p ∈ v.net, p.dst.strcmpEq self = true → p.dst = self := by
    rw [hu.net]
    exact ho.routed.dst hself
  obtain ⟨taken, htaken, hrest, hsame⟩ := recvLoop_perm hdst
  obtain ⟨ht, hnode⟩ := hu.node
  have hself' : (v.recvLoop self).node self =
      { v.node self with mp2q := (v.node self).mp2q ++ taken.map Packet.data } := by
    rw [hsame, node_modifyNode_self]
  constructor
  case others =>
    intro b hb
    rw [hsame, node_modifyNode_of_ne hb]
    exact hu.others b hb
  case node => exact ⟨ht, _, by rw [hself', hnode]⟩
  case pending =>
    intro b
    refine (pending_recvLoop hdst b).trans (List.Perm.of_eq (pending_congr hu.net ?_))
    by_cases hb : b = self
    · rw [hb, hnode]
    · rw [hu.others b hb]
  case net =>
    intro p hp
    have hmem := List.mem_filter.mp (hrest.mem_iff.mp hp)
    exact ⟨hu.net ▸ hmem.1, by simpa using hmem.2⟩
  case currtime => rw [hsame]; exact hu.currtime
  case entry =>
    intro key text htext hne
    rw [hself']
    exact hu.entry key text htext hne

theorem refresh_isSome (ho : Orderly hash group w)
    (hlist : ringOf hash (round.memberList self) = R.nodes) :
    ∃ w', w.refresh hash round self = some w' := by
  obtain ⟨v, hv⟩ : ∃ v, w.updateRing hash self (round.memberList self) = some v :=
    updateRing_isSome ho.placed hlist
  exact ⟨_, by rw [refresh, hv]; rfl⟩

theorem refresh_others (h : w.refresh hash round self = some w') (hb : b ≠ self) :
    w'.node b = w.node b := by
  obtain ⟨v, hring, rfl⟩ := Option.map_eq_some_iff.mp h
  have hnode : v.node b = w.node b := updateRing_others hring hb
  unfold recvLoop
  exact Eq.trans (node_modifyNode_of_ne hb) hnode

def Agreed (hash : Str → Nat) (group : Group R) (round : Round) : Prop :=
  ∀ a ∈ group.addresses, ringOf hash (round.memberList a) = R.nodes

theorem refresh_loop {l : List Address} (hq : ∀ r, q r → r.Parsable) (ho : Orderly hash group w)
    (hfits : ∀ p ∈ w.net, p.fits = true) (hagreed : Agreed hash group round)
    (hl : ∀ a ∈ l, a ∈ group.addresses) (h : l.foldlM (refresh hash round) w = some w') :
    Follows hash group q w w' ∧ (∀ b, (w'.pending b).Perm (w.pending b)) ∧
      (∀ p ∈ w'.net, p ∈ w.net ∧ p.dst ∉ l) ∧ w'.currtime = w.currtime := by
  have hplain : ∀ r, q r → r.Plain := fun r hr => (hq r hr).plain
  have hloop := foldlM_invariant (P := fun rest v => Follows hash group q w v ∧
      (∀ b, (v.pending b).Perm (w.pending b)) ∧
      (∀ p ∈ v.net, p ∈ w.net ∧ ∀ a ∈ l, a ∉ rest → p.dst ≠ a) ∧ v.currtime = w.currtime ∧
      ∀ a ∈ rest, a ∈ group.addresses)
    (fun a rest v v' hP hstep => by
      obtain ⟨hfollows, hpending, hnet, htime, hrest⟩ := hP
      have ha := hrest a List.mem_cons_self
      have hg := gathered_refresh (ho.path hq hfollows.path) (fun p hp => hfits p (hnet p hp).1)
        (hagreed a ha) ha hstep
      refine ⟨follows_refresh hplain (hagreed a ha) ha hfollows hstep,
        fun b => (hg.pending b).trans (hpending b), ?_, hg.currtime.trans htime,
        fun b hb => hrest b (List.mem_cons_of_mem _ hb)⟩
      intro p hp
      obtain ⟨hold, hne⟩ := hg.net p hp
      refine ⟨(hnet p hold).1, fun b hb hgone => ?_⟩
      by_cases hba : b = a
      · rwa [hba]
      · exact (hnet p hold).2 b hb (by simp [hba, hgone]))
    ⟨ho.follows, fun b => .refl _, fun p hp => ⟨hp, fun a ha hgone => absurd ha hgone⟩, rfl, hl⟩ h
  obtain ⟨hfollows, hpending, hnet, htime, -⟩ := hloop
  exact ⟨hfollows, hpending, fun p hp => ⟨(hnet p hp).1, fun hmem =>
    (hnet p hp).2 p.dst hmem List.not_mem_nil rfl⟩, htime⟩

/-- What the first loop of a tick did. -/
structure Collected (hash : Str → Nat) (group : Group R) (w w' : World) : Prop where
  net : w'.net = []
  queue : ∀ b, (w'.node b).mp2q.Perm (w.pending b)
  node : ∀ a ∈ group.addresses, ∃ ht queue,
    w'.node a = { w.node a with ring := R.nodes, ht := ht, mp2q := queue }
  currtime : w'.currtime = w.currtime
  entry : ∀ a ∈ group.addresses, ∀ key text, (w.node a).ht.get? key = some text → text ≠ [] →
    (w'.node a).ht.get? key = some text ∨ ∃ p, p < 3 ∧ (w'.node a).ht.get? key =
      some (Entry.convertToString ⟨text, w.currtime, rank p⟩)

theorem collected (hq : ∀ r, q r → r.Parsable) (ho : Orderly hash group w)
    (hfits : ∀ p ∈ w.net, p.fits = true) (hagreed : Agreed hash group round)
    (h : group.addresses.foldlM (refresh hash round) w = some w') :
    Collected hash group w w' := by
  obtain ⟨hfollows, hpending, hnet, htime⟩ := refresh_loop hq ho hfits hagreed (fun _ ha => ha) h
  have hturn : ∀ a ∈ group.addresses, ∃ t t', Gathered hash R a t t' ∧ t.node a = w.node a ∧
      w'.node a = t'.node a ∧ t.currtime = w.currtime := by
    intro a ha
    obtain ⟨l₁, l₂, t, t', hl, hbefore, hstep, -, hfirst, hlast⟩ :=
      foldlM_own (p := fun v a => v.node a) (fun _ _ _ hstep _ hb => refresh_others hstep hb)
        group.nodup h ha
    have hl₁ : ∀ b ∈ l₁, b ∈ group.addresses := fun b hb => hl ▸ List.mem_append_left _ hb
    obtain ⟨hfollows₁, -, hnet₁, htime₁⟩ := refresh_loop hq ho hfits hagreed hl₁ hbefore
    exact ⟨t, t', gathered_refresh (ho.path hq hfollows₁.path)
      (fun p hp => hfits p (hnet₁ p hp).1) (hagreed a ha) ha hstep, hfirst, hlast, htime₁⟩
  have hempty : w'.net = [] := by
    rw [List.eq_nil_iff_forall_not_mem]
    intro p hp
    exact (hnet p hp).2 (hfollows.routed p.dst p.data (mem_pending_of_net hp)).1
  constructor
  case net => exact hempty
  case queue =>
    intro b
    have hqueue := hpending b
    simpa [World.pending, hempty] using hqueue
  case node =>
    intro a ha
    obtain ⟨t, t', hg, hfirst, hlast, -⟩ := hturn a ha
    obtain ⟨ht, queue, hnode⟩ := hg.node
    exact ⟨ht, queue, by rw [hlast, hnode, hfirst]⟩
  case currtime => exact htime
  case entry =>
    intro a ha key text htext hne
    obtain ⟨t, t', hg, hfirst, hlast, htime₁⟩ := hturn a ha
    rw [hlast, ← htime₁]
    exact hg.entry key text (by rwa [hfirst]) hne

/-! ## The second loop -/

/-- The packet carries a `REPLY` or a `READREPLY`. -/
def Answers (p : Packet) : Prop :=
  ∃ m : Message, (m.type = .reply ∨ m.type = .readreply) ∧ p.data = m.toString

theorem type_answer {uninit : ReplicaType} {arrived answer : Message} {ht : HashTable}
    (h : arrived.answer uninit self ht = some answer) :
    answer.type = .reply ∨ answer.type = .readreply := by
  unfold Message.answer at h
  split at h
  case h_5 => cases h
  all_goals
    obtain rfl := Option.some.inj h
    simp

def readReplyPacket (self toAddr : Address) (transID : Int32) (text : Str) : Packet :=
  ⟨self, toAddr, Message.toString ⟨.readreply, .primary, [], text, self, transID, false⟩⟩

/-- What the loop over the queue sends, and in particular to the readers of a key that none of its
messages writes. -/
theorem sent_popLoop {uninit replica : ReplicaType} {queue : List Str} {s : World × ReplicaType}
    (h : popLoop hash uninit self queue (w, replica) = some s) :
    ∃ sent, s.1.net = w.net ++ sent ∧ (∀ p ∈ sent, Answers p) ∧
      ∀ text ∈ queue, ∀ m, Message.ofString uninit text = some m → m.type = .read →
        (∀ text' ∈ queue, ∀ m', Message.ofString uninit text' = some m' → ¬ m'.Writes m.key) →
        readReplyPacket self m.fromAddr m.transID ((w.node self).ht.read m.key) ∈ sent := by
  induction queue generalizing w replica with
  | nil =>
      obtain rfl := Option.some.inj h
      exact ⟨[], (List.append_nil _).symm, by simp, by simp⟩
  | cons text queue ih =>
      simp only [popLoop, Option.bind_eq_bind, Option.bind_eq_some_iff] at h
      obtain ⟨arrived, htext, ⟨w₁, replica₁⟩, hhandle, h⟩ := h
      have hh := handled_handle hhandle
      obtain ⟨sent, hnet, hanswers, hread⟩ := ih h
      have hht : (w₁.node self).ht = arrived.tableAfter replica w.currtime (w.node self).ht := by
        rw [hh.ht]
        simp
      refine ⟨_, (hnet.trans (congrArg (· ++ sent) hh.net)).trans (List.append_assoc _ _ _), ?_, ?_⟩
      · intro p hp
        rcases List.mem_append.mp hp with hfirst | hrest
        · obtain ⟨answer, hanswer, rfl⟩ := List.mem_map.mp hfirst
          exact ⟨answer, type_answer (Option.mem_toList.mp hanswer), rfl⟩
        · exact hanswers p hrest
      · intro text' htext' m hm htype hwrites
        rcases List.mem_cons.mp htext' with rfl | hrest
        · obtain rfl := Option.some.inj (htext.symm.trans hm)
          refine List.mem_append_left _ (List.mem_map.mpr
            ⟨⟨.readreply, uninit, [], (w.node self).ht.read arrived.key, self, arrived.transID,
              false⟩, ?_, rfl⟩)
          simp [Message.answer, htype]
        · have hsame : (w₁.node self).ht.read m.key = (w.node self).ht.read m.key := by
            rw [hht, HashTable.read_eq, HashTable.read_eq,
              Message.get?_tableAfter (hwrites text List.mem_cons_self arrived htext)]
          rw [← hsame]
          exact List.mem_append_right _ (hread text' hrest m hm htype
            fun s hs => hwrites s (List.mem_cons_of_mem _ hs))

theorem mp2q_popLoop {uninit replica : ReplicaType} {queue : List Str} {s : World × ReplicaType}
    (hqueue : (w.node self).mp2q = queue)
    (h : popLoop hash uninit self queue (w, replica) = some s) :
    (s.1.node self).mp2q = [] ∧ (s.1.node self).ring = (w.node self).ring ∧
      s.1.currtime = w.currtime := by
  induction queue generalizing w replica with
  | nil =>
      obtain rfl := Option.some.inj h
      exact ⟨hqueue, rfl, rfl⟩
  | cons text queue ih =>
      simp only [popLoop, Option.bind_eq_bind, Option.bind_eq_some_iff] at h
      obtain ⟨arrived, -, ⟨w₁, replica₁⟩, hhandle, h⟩ := h
      have hh := handled_handle hhandle
      have hrest := ih (hh.mp2q.trans (by simp)) h
      refine ⟨hrest.1, hrest.2.1.trans (hh.ring.trans (by simp)), hrest.2.2.trans hh.currtime⟩

theorem checkUpdateOperations_isSome
    (hoperation : ∀ (t : Int32) text, (w.node self).operationTable[t]? = some text →
      ∃ received, Message.ofString uninit text = some received) :
    ∃ w', w.checkUpdateOperations uninit self = some w' := by
  have hloop := foldlM_total (f := checkUpdate uninit self)
    (P := fun _ v => v.node = w.node) (l := (w.node self).resultTable.toList) (s := w) (by
      intro x rest v hnode
      have hturn : ∃ v', v.checkUpdate uninit self x = some v' := by
        unfold checkUpdate
        rw [hnode]
        cases htable : (w.node self).operationTable[x.1]? with
        | none => exact ⟨v, rfl⟩
        | some text =>
            obtain ⟨received, htext⟩ := hoperation x.1 text htable
            simp [htext]
      obtain ⟨v', hv'⟩ := hturn
      exact ⟨v', hv', (verdicts_checkUpdate (t := 0) hv').1.trans hnode⟩)
    rfl
  obtain ⟨w₁, hfold, -⟩ := hloop
  exact ⟨_, by rw [checkUpdateOperations, hfold]; rfl⟩

theorem checkUpdate_frame {uninit : ReplicaType} {x : Int32 × List Bool}
    (h : w.checkUpdate uninit self x = some w') :
    w' = { w with trace := w'.trace } := by
  unfold checkUpdate at h
  split at h
  case h_1 =>
    obtain rfl := Option.some.inj h
    rfl
  case h_2 =>
    simp only [Option.bind_eq_bind, Option.bind_eq_some_iff, Option.pure_def,
      Option.some.injEq] at h
    obtain ⟨received, -, rfl⟩ := h
    cases received.type <;> rfl

theorem checkUpdateOperations_frame {uninit : ReplicaType}
    (h : w.checkUpdateOperations uninit self = some w') :
    w' = { w.modifyNode self fun n => { n with resultTable := ∅ } with trace := w'.trace } := by
  unfold checkUpdateOperations at h
  simp only [Option.bind_eq_bind, Option.bind_eq_some_iff, Option.pure_def,
    Option.some.injEq] at h
  obtain ⟨w₁, hfold, rfl⟩ := h
  have hloop := foldlM_invariant (P := fun _ v => v = { w with trace := v.trace })
    (fun x rest v v' hv hstep => by
      rw [checkUpdate_frame hstep, hv])
    rfl hfold
  rw [hloop]
  rfl

/-- What a call of `checkMessages` did. -/
structure QueueAnswered (uninit : ReplicaType) (c : Address) (w w' : World) : Prop where
  checked : Checked uninit c w w'
  mp2q : (w'.node c).mp2q = []
  ring : (w'.node c).ring = (w.node c).ring
  currtime : w'.currtime = w.currtime
  net : ∃ sent, w'.net = w.net ++ sent ∧ (∀ p ∈ sent, Answers p) ∧
    ∀ text ∈ (w.node c).mp2q, ∀ m, Message.ofString uninit text = some m → m.type = .read →
      (∀ text' ∈ (w.node c).mp2q, ∀ m', Message.ofString uninit text' = some m' →
        ¬ m'.Writes m.key) →
      readReplyPacket c m.fromAddr m.transID ((w.node c).ht.read m.key) ∈ sent

theorem queueAnswered_checkMessages {uninit : ReplicaType}
    (h : w.checkMessages hash uninit self = some w') : QueueAnswered uninit self w w' := by
  have hchecked := checked_checkMessages h
  unfold checkMessages at h
  simp only [Option.bind_eq_bind, Option.bind_eq_some_iff] at h
  obtain ⟨⟨w₁, replica⟩, hpop, w₂, hupdate, hread⟩ := h
  obtain ⟨hqueue, hring, htime⟩ := mp2q_popLoop rfl hpop
  obtain ⟨sent, hnet, hsent⟩ := sent_popLoop hpop
  have hw₂ := checkUpdateOperations_frame hupdate
  have hw' := checkReadOperations_eq hread
  refine ⟨hchecked, ?_, ?_, ?_, sent, ?_, hsent⟩
  · rw [hw', hw₂]
    simpa using hqueue
  · rw [hw', hw₂]
    simpa using hring
  · rw [hw', hw₂]
    exact htime
  · rw [hw', hw₂]
    exact hnet

/-- A success of a read is logged when at least two replies have come in and all of them are entries
of one value. -/
theorem logged_checkMessages {uninit : ReplicaType} {t : Int32} {received : Message} {value : Str}
    (h : w.checkMessages hash uninit self = some w') (hvalue : value ≠ [])
    (hempty : (w.node self).readValueTable = ∅)
    (htext : (w.node self).operationTable[t]? = some text)
    (hreceived : Message.ofString uninit text = some received) (htype : received.type = .read)
    (htwo : 1 < (arrivals uninit (fun m => m.isReadReply = true ∧ m.transID = t)
      (w.node self).mp2q).length)
    (hall : ∀ m ∈ arrivals uninit (fun m => m.isReadReply = true ∧ m.transID = t)
      (w.node self).mp2q, Decodes m.value value) :
    .logged ⟨received.fromAddr, true, .read, true, t, received.key, value, w.currtime⟩ ∈
      w'.trace := by
  unfold checkMessages at h
  simp only [Option.bind_eq_bind, Option.bind_eq_some_iff] at h
  obtain ⟨⟨w₁, replica⟩, hpop, w₂, hupdate, hread⟩ := h
  obtain ⟨-, -, htime⟩ := mp2q_popLoop rfl hpop
  have hpopped := popped_popLoop hpop
  have hw₂ := checkUpdateOperations_frame hupdate
  let values := (arrivals uninit (fun m => m.isReadReply = true ∧ m.transID = t)
    (w.node self).mp2q).map Message.value
  have hlen : 1 < values.length := by rwa [List.length_map]
  have hnoted : (w₂.node self).readValueTable[t]? = some values := by
    have hne : values ≠ [] := List.ne_nil_of_length_pos (by omega)
    rw [hw₂]
    simp only [node_modifyNode_self]
    rw [hpopped.readValueTable, hempty, grow, if_neg hne]
    simp [values]
  have hoperation : (w₂.node self).operationTable[t]? = some text := by
    rw [hw₂]
    simp only [node_modifyNode_self]
    rw [hpopped.operationTable, htext]
  have hnow : w₂.currtime = w.currtime := by
    rw [hw₂]
    exact htime
  have hfold : values.foldlM readValue ⟨0, [], false⟩ =
      some ⟨0 + values.length, if values = [] then [] else value, false⟩ := by
    refine foldlM_readValue hvalue (fun s hs => ?_) (Or.inl rfl)
    obtain ⟨m, hm, rfl⟩ := List.mem_map.mp hs
    obtain ⟨e, he, hev⟩ := Option.map_eq_some_iff.mp (hall m hm)
    exact ⟨e, he, hev⟩
  have hne : values ≠ [] := List.ne_nil_of_length_pos (by omega)
  rw [Nat.zero_add, if_neg hne] at hfold
  rw [checkReadOperations_eq hread]
  refine List.mem_append_right _ (List.mem_flatMap.mpr ⟨(t, values),
    Std.TreeMap.mem_toList_iff_getElem?_eq_some.mpr hnoted, ?_⟩)
  rw [mem_readEvents]
  refine ⟨received, _, ?_, hfold, htype, ?_⟩
  · rw [hoperation]
    exact hreceived
  · simp [hlen, hvalue, hnow]

theorem checkMessages_isSome {uninit : ReplicaType} (ho : Orderly hash group w)
    (hring : (w.node self).ring = R.nodes) :
    ∃ w', w.checkMessages hash uninit self = some w' := by
  have hqueue : ∀ text ∈ (w.node self).mp2q, ∃ m, Message.ofString uninit text = some m := by
    intro text htext
    obtain ⟨m, hm, -⟩ := ho.sound.ofString (List.mem_append_right _ htext) uninit
    exact ⟨m, hm⟩
  have hpop : (popLoop hash uninit self (w.node self).mp2q (w, uninit)).isSome = true :=
    (popLoop_isSome hqueue).mpr (Or.inl (hring ▸ R.three))
  obtain ⟨⟨w₁, replica⟩, hw₁⟩ := Option.isSome_iff_exists.mp hpop
  have hpath : ReflTransGen (Change hash (Local hash group fun _ => False)) w w₁ :=
    changes_popLoop rfl hw₁
  have ho₁ : Orderly hash group w₁ :=
    ho.path (fun _ hr => hr.elim) (hpath.lift id fun _ _ hc => .change hc)
  have hoperation : ∀ (t : Int32) text, (w₁.node self).operationTable[t]? = some text →
      ∃ received, Message.ofString uninit text = some received := by
    intro t text htext
    obtain ⟨m, hm, rfl⟩ := ho₁.sound.operation self t text htext
    exact ⟨_, hm.ofString uninit⟩
  obtain ⟨w₂, hw₂⟩ := checkUpdateOperations_isSome hoperation
  have hnode : w₂.node = (w₁.modifyNode self fun n => { n with resultTable := ∅ }).node := by
    rw [checkUpdateOperations_frame hw₂]
  obtain ⟨w', hw'⟩ : ∃ w', w₂.checkReadOperations uninit self = some w' := by
    refine checkReadOperations_isSome (fun t text htext => ?_) fun t replies hreplies => ?_
    · rw [hnode, node_modifyNode_self] at htext
      exact hoperation t text htext
    · rw [hnode, node_modifyNode_self] at hreplies
      exact ho₁.sound.noted self t replies hreplies
  exact ⟨w', by simp only [checkMessages, hw₁, Option.bind_eq_bind, Option.bind_some, hw₂, hw']⟩

theorem mem_refuse {p : Packet} : p ∈ w.refuse.net ↔ p ∈ w.net ∧ p.fits = true :=
  List.mem_filter

theorem trace_follows (h : Follows hash group q w w') : w.trace <+: w'.trace :=
  invariant_of_run (P := fun v => w.trace <+: v.trace)
    (fun _ _ hstep hv => by
      obtain ⟨l, hl, -⟩ := trace_of_alters hstep.alters
      exact hv.trans (hl ▸ List.prefix_append _ _))
    h.path (List.prefix_refl _)

theorem answerQueue_others (h : w.answerQueue hash round self = some w') (hb : b ≠ self) :
    w'.node b = w.node b := by
  obtain ⟨v, hcheck, rfl⟩ := Option.map_eq_some_iff.mp h
  exact (queueAnswered_checkMessages hcheck).checked.others b hb

/-- Some turns of the second loop: what is sent are answers, and it stays sent. -/
theorem answer_loop {l : List Address} (hq : ∀ r, q r → r.Plain)
    (hfollows : Follows hash group q v w) (h : l.foldlM (answerQueue hash round) w = some w') :
    Follows hash group q v w' ∧ (∀ p ∈ w'.net, p ∈ w.net ∨ Answers p) ∧
      (∀ p ∈ w.net, p.fits = true → p ∈ w'.net) ∧ w'.currtime = w.currtime := by
  have hloop := foldlM_invariant (P := fun _ u => Follows hash group q v u ∧
      (∀ p ∈ u.net, p ∈ w.net ∨ Answers p) ∧ (∀ p ∈ w.net, p.fits = true → p ∈ u.net) ∧
      u.currtime = w.currtime)
    (fun a rest u u' hP hstep => by
      obtain ⟨hfollows, hnet, hkept, htime⟩ := hP
      have hfollows' := follows_answerQueue hq hfollows hstep
      obtain ⟨u₁, hcheck, rfl⟩ := Option.map_eq_some_iff.mp hstep
      have ha := queueAnswered_checkMessages hcheck
      obtain ⟨sent, hsent, hanswers, -⟩ := ha.net
      refine ⟨hfollows', ?_, ?_, ha.currtime.trans htime⟩
      · intro p hp
        have hmem := (mem_refuse.mp hp).1
        rw [hsent] at hmem
        rcases List.mem_append.mp hmem with hold | hnew
        · exact hnet p hold
        · exact Or.inr (hanswers p hnew)
      · intro p hp hfits
        refine mem_refuse.mpr ⟨?_, hfits⟩
        rw [hsent]
        exact List.mem_append_left _ (hkept p hp hfits))
    ⟨hfollows, fun p hp => Or.inl hp, fun p hp _ => hp, rfl⟩ h
  exact hloop

theorem answer_turn {l : List Address} (hq : ∀ r, q r → r.Plain)
    (hfollows : Follows hash group q w w) (hl : l.Nodup)
    (h : l.foldlM (answerQueue hash round) w = some w') (ha : a ∈ l) :
    ∃ v v', Follows hash group q w v ∧ v.checkMessages hash (round.uninit a) a = some v' ∧
      v.node a = w.node a ∧ w'.node a = v'.node a ∧ v.currtime = w.currtime ∧
      v'.trace <+: w'.trace ∧ ∀ p ∈ v'.net, p.fits = true → p ∈ w'.net := by
  obtain ⟨l₁, l₂, v, v₁, -, hbefore, hstep, hafter, hfirst, hlast⟩ :=
    foldlM_own (p := fun v a => v.node a)
      (fun _ _ _ hstep _ hb => answerQueue_others hstep hb) hl h ha
  obtain ⟨hfollows₁, -, -, htime⟩ := answer_loop hq hfollows hbefore
  have hfollows₂ := follows_answerQueue hq hfollows₁ hstep
  obtain ⟨v', hcheck, rfl⟩ := Option.map_eq_some_iff.mp hstep
  obtain ⟨hfollows₃, -, hkept, -⟩ :=
    answer_loop hq (.refl hfollows₂.placed hfollows₂.routed) hafter
  have htrace : v'.refuse.trace <+: w'.trace := trace_follows hfollows₃
  exact ⟨v, v', hfollows₁, hcheck, hfirst, hlast, htime, htrace,
    fun p hp hfits => hkept p (mem_refuse.mpr ⟨hp, hfits⟩) hfits⟩

/-! ## The third loop -/

/-- What requests leave as it is. -/
structure Requested (w w' : World) : Prop where
  node : ∀ b, ∃ table, w'.node b = { w.node b with operationTable := table }
  kept : ∀ p ∈ w.net, p.fits = true → p ∈ w'.net
  fits : (∀ p ∈ w.net, p.fits = true) → ∀ p ∈ w'.net, p.fits = true

theorem Requested.refl (w : World) : Requested w w where
  node := fun _ => ⟨_, rfl⟩
  kept := fun _ hp _ => hp
  fits := fun h => h

theorem Requested.trans (h : Requested w v) (h' : Requested v w') : Requested w w' where
  node := by
    intro b
    obtain ⟨table, hnode⟩ := h.node b
    obtain ⟨table', hnode'⟩ := h'.node b
    exact ⟨table', by rw [hnode', hnode]⟩
  kept := fun p hp hfits => h'.kept p (h.kept p hp hfits) hfits
  fits := fun hfits => h'.fits (h.fits hfits)

theorem Requested.tick (h : Requested w v) :
    Requested w { v with currtime := v.currtime + 1 } :=
  ⟨h.node, h.kept, h.fits⟩

theorem requested_request {call : Address × ReplicaType × Request}
    (h : w.request hash call = some w') : Requested w w' := by
  obtain ⟨r₀, r₁, r₂, -, rfl⟩ := request_some h
  constructor
  case node =>
    intro b
    by_cases hb : b = call.1
    · subst hb
      refine ⟨((w.issued call.1 (call.2.2.message call.1 call.2.1) r₀ r₁ r₂).node
        call.1).operationTable, ?_⟩
      simp [refuse, issued]
    · exact ⟨(w.node b).operationTable, by simp [refuse, issued, node_modifyNode_of_ne hb]⟩
  case kept =>
    intro p hp hfits
    rw [mem_refuse, net_issued]
    exact ⟨List.mem_append_left _ hp, hfits⟩
  case fits => exact fun _ p hp => (mem_refuse.mp hp).2

theorem request_loop {calls : List (Address × ReplicaType × Request)} (hq : ∀ r, q r → r.Plain)
    (hcalls : ∀ call ∈ calls, call.1 ∈ group.addresses ∧ q call.2.2)
    (hfollows : Follows hash group q v w) (h : calls.foldlM (request hash) w = some w') :
    Follows hash group q v w' ∧ Requested w w' := by
  have hloop := foldlM_invariant (P := fun rest u => Follows hash group q v u ∧ Requested w u ∧
      ∀ call ∈ rest, call.1 ∈ group.addresses ∧ q call.2.2)
    (fun call rest u u' hP hstep =>
      ⟨follows_request hq (hP.2.2 call List.mem_cons_self) hP.1 hstep,
        hP.2.1.trans (requested_request hstep),
        fun c hc => hP.2.2 c (List.mem_cons_of_mem _ hc)⟩)
    ⟨hfollows, .refl w, hcalls⟩ h
  exact ⟨hloop.1, hloop.2.1⟩

theorem request_isSome {call : Address × ReplicaType × Request}
    (h : (w.node call.1).ring = R.nodes) : ∃ w', w.request hash call = some w' := by
  have hthree : 3 ≤ (w.node call.1).ring.length := h ▸ R.three
  have hclient : (w.client hash call.1 call.2.1 call.2.2).isSome = true := by
    rw [client_eq_dispatch]
    exact dispatch_isSome.mpr hthree
  obtain ⟨v, hv⟩ := Option.isSome_iff_exists.mp hclient
  exact ⟨v.refuse, by rw [request, hv]; rfl⟩

/-! ## The whole tick -/

theorem mp2Run_eq_some : w.mp2Run hash group.addresses round = some w' ↔ ∃ w₁ w₂,
    group.addresses.foldlM (refresh hash round) w = some w₁ ∧
    group.addresses.reverse.foldlM (answerQueue hash round) w₁ = some w₂ ∧
    round.requests.foldlM (request hash) w₂ = some w' := by
  unfold mp2Run
  simp only [Option.bind_eq_bind, Option.bind_eq_some_iff]
  constructor
  · intro ⟨w₁, h₁, w₂, h₂, h₃⟩
    exact ⟨w₁, w₂, h₁, h₂, h₃⟩
  · intro ⟨w₁, w₂, h₁, h₂, h₃⟩
    exact ⟨w₁, h₁, w₂, h₂, h₃⟩

theorem turn_loops (h : w.turn hash group.addresses round = some w') : ∃ w₁ w₂ w₃,
    group.addresses.foldlM (refresh hash round) w = some w₁ ∧
    group.addresses.reverse.foldlM (answerQueue hash round) w₁ = some w₂ ∧
    round.requests.foldlM (request hash) w₂ = some w₃ ∧
    w' = { w₃ with currtime := w₃.currtime + 1 } := by
  obtain ⟨w₃, hrun, rfl⟩ := Option.map_eq_some_iff.mp h
  obtain ⟨w₁, w₂, h₁, h₂, h₃⟩ := mp2Run_eq_some.mp hrun
  exact ⟨w₁, w₂, w₃, h₁, h₂, h₃, rfl⟩

/-- Between two ticks: the queues and the reply tables are empty. -/
structure Rested (group : Group R) (w : World) : Prop where
  fits : ∀ p ∈ w.net, p.fits = true
  mp2q : ∀ a ∈ group.addresses, (w.node a).mp2q = []
  tables : ∀ a ∈ group.addresses, (w.node a).resultTable = ∅ ∧ (w.node a).readValueTable = ∅

theorem rested_initial : Rested group initial where
  fits := by simp [initial]
  mp2q := fun _ _ => rfl
  tables := fun _ _ => ⟨rfl, rfl⟩

theorem Rested.requested (hr : Rested group w) (h : Requested w w') : Rested group w' where
  fits := h.fits hr.fits
  mp2q := by
    intro a ha
    obtain ⟨table, hnode⟩ := h.node a
    rw [hnode]
    exact hr.mp2q a ha
  tables := by
    intro a ha
    obtain ⟨table, hnode⟩ := h.node a
    rw [hnode]
    exact hr.tables a ha

/-- Where a tick is when its requests begin: only answers are under way. -/
structure Halfway (hash : Str → Nat) (group : Group R) (q : Request → Prop) (w w' : World) :
    Prop where
  follows : Follows hash group q w w'
  rested : Rested group w'
  ring : ∀ a ∈ group.addresses, (w'.node a).ring = R.nodes
  answers : ∀ p ∈ w'.net, Answers p

/-- The call of `checkMessages` at a member in this tick, from `v` to `v'`. -/
structure MemberTurn (hash : Str → Nat) (group : Group R) (q : Request → Prop) (round : Round)
    (a : Address) (w w' v v' : World) : Prop where
  follows : Follows hash group q w v
  call : v.checkMessages hash (round.uninit a) a = some v'
  queue : (v.node a).mp2q.Perm (w.pending a)
  node : ∃ ht queue, v.node a = { w.node a with ring := R.nodes, ht := ht, mp2q := queue }
  entry : ∀ key text, (w.node a).ht.get? key = some text → text ≠ [] →
    (v.node a).ht.get? key = some text ∨ ∃ p, p < 3 ∧ (v.node a).ht.get? key =
      some (Entry.convertToString ⟨text, w.currtime, rank p⟩)
  currtime : v.currtime = w.currtime
  last : w'.node a = v'.node a
  trace : v'.trace <+: w'.trace
  net : ∀ p ∈ v'.net, p.fits = true → p ∈ w'.net

section

variable {w₁ w₂ : World}

theorem memberTurn (hq : ∀ r, q r → r.Parsable) (ho : Orderly hash group w) (hr : Rested group w)
    (hagreed : Agreed hash group round)
    (h₁ : group.addresses.foldlM (refresh hash round) w = some w₁)
    (h₂ : group.addresses.reverse.foldlM (answerQueue hash round) w₁ = some w₂)
    (ha : a ∈ group.addresses) :
    ∃ v v', MemberTurn hash group q round a w w₂ v v' := by
  have hplain : ∀ r, q r → r.Plain := fun r hr => (hq r hr).plain
  obtain ⟨hfollows, -⟩ := refresh_loop hq ho hr.fits hagreed (fun _ ha => ha) h₁
  have hc := collected hq ho hr.fits hagreed h₁
  have hnodup : group.addresses.reverse.Nodup := List.nodup_reverse.mpr group.nodup
  obtain ⟨v, v', hfollows', hcall, hfirst, hlast, htime, htrace, hnet⟩ :=
    answer_turn hplain (.refl hfollows.placed hfollows.routed) hnodup h₂
      (List.mem_reverse.mpr ha)
  refine ⟨v, v', ?_⟩
  constructor
  case follows => exact hfollows.trans hplain hfollows'.path
  case call => exact hcall
  case queue => exact hfirst ▸ hc.queue a
  case node => exact hfirst ▸ hc.node a ha
  case entry => exact hfirst ▸ hc.entry a ha
  case currtime => exact htime.trans hc.currtime
  case last => exact hlast
  case trace => exact htrace
  case net => exact hnet

theorem halfway (hq : ∀ r, q r → r.Parsable) (ho : Orderly hash group w) (hr : Rested group w)
    (hagreed : Agreed hash group round)
    (h₁ : group.addresses.foldlM (refresh hash round) w = some w₁)
    (h₂ : group.addresses.reverse.foldlM (answerQueue hash round) w₁ = some w₂) :
    Halfway hash group q w w₂ := by
  have hplain : ∀ r, q r → r.Plain := fun r hr => (hq r hr).plain
  obtain ⟨hfollows, -⟩ := refresh_loop hq ho hr.fits hagreed (fun _ ha => ha) h₁
  have hc := collected hq ho hr.fits hagreed h₁
  obtain ⟨hfollows', hanswers, -⟩ := answer_loop hplain hfollows h₂
  have hmember : ∀ a ∈ group.addresses, ∃ v v', MemberTurn hash group q round a w w₂ v v' :=
    fun a ha => memberTurn hq ho hr hagreed h₁ h₂ ha
  have hnet : ∀ p ∈ w₂.net, Answers p := by
    intro p hp
    refine (hanswers p hp).resolve_left fun hold => ?_
    rw [hc.net] at hold
    cases hold
  refine ⟨hfollows', ⟨?_, ?_, ?_⟩, ?_, hnet⟩
  · have hloop := foldlM_invariant (P := fun _ u => ∀ p ∈ u.net, p.fits = true)
      (fun a rest u u' _ hstep => by
        obtain ⟨u₁, -, rfl⟩ := Option.map_eq_some_iff.mp hstep
        exact fun p hp => (mem_refuse.mp hp).2)
      (by rw [hc.net]; simp) h₂
    exact hloop
  · intro a ha
    obtain ⟨v, v', hturn⟩ := hmember a ha
    rw [hturn.last]
    exact (queueAnswered_checkMessages hturn.call).mp2q
  · intro a ha
    obtain ⟨v, v', hturn⟩ := hmember a ha
    have hchecked := (queueAnswered_checkMessages hturn.call).checked
    rw [hturn.last]
    exact ⟨hchecked.resultTable, hchecked.readValueTable⟩
  · intro a ha
    obtain ⟨v, v', hturn⟩ := hmember a ha
    obtain ⟨ht, queue, hnode⟩ := hturn.node
    rw [hturn.last, (queueAnswered_checkMessages hturn.call).ring, hnode]

end

theorem Halfway.pending (h : Halfway hash group q w w') {s : Str} (hs : s ∈ w'.pending b) :
    ∃ m : Message, (m.type = .reply ∨ m.type = .readreply) ∧ s = m.toString := by
  have hb := (h.follows.routed b s hs).1
  rcases List.mem_append.mp hs with hnet | hqueue
  · obtain ⟨p, hp, rfl⟩ := List.mem_map.mp hnet
    exact h.answers p (List.mem_of_mem_filter hp)
  · rw [h.rested.mp2q b hb] at hqueue
    cases hqueue

/-- No tick throws while the group agrees on the ring and makes parsable requests. -/
theorem turn_isSome (hq : ∀ r, q r → r.Parsable) (ho : Orderly hash group w) (hr : Rested group w)
    (hover : round.Over hash group q) : ∃ w', w.turn hash group.addresses round = some w' := by
  have hplain : ∀ r, q r → r.Plain := fun r hr => (hq r hr).plain
  have hagreed : Agreed hash group round := hover.1
  obtain ⟨w₁, h₁, -⟩ := foldlM_total (f := refresh hash round) (l := group.addresses) (s := w)
    (P := fun rest v => Follows hash group q w v ∧ ∀ a ∈ rest, a ∈ group.addresses)
    (fun a rest v hP => by
      have ha := hP.2 a List.mem_cons_self
      obtain ⟨v', hv'⟩ := refresh_isSome (ho.path hq hP.1.path) (hagreed a ha)
      exact ⟨v', hv', follows_refresh hplain (hagreed a ha) ha hP.1 hv',
        fun b hb => hP.2 b (List.mem_cons_of_mem _ hb)⟩)
    ⟨ho.follows, fun _ ha => ha⟩
  obtain ⟨hfollows, -⟩ := refresh_loop hq ho hr.fits hagreed (fun _ ha => ha) h₁
  have hc := collected hq ho hr.fits hagreed h₁
  obtain ⟨w₂, h₂, -⟩ := foldlM_total (f := answerQueue hash round) (l := group.addresses.reverse)
    (s := w₁) (P := fun rest v => Follows hash group q w v ∧
      (∀ a ∈ group.addresses, (v.node a).ring = R.nodes) ∧ ∀ a ∈ rest, a ∈ group.addresses)
    (fun a rest v hP => by
      obtain ⟨hfollows, hring, hrest⟩ := hP
      obtain ⟨v', hv'⟩ : ∃ v', v.checkMessages hash (round.uninit a) a = some v' :=
        checkMessages_isSome (ho.path hq hfollows.path) (hring a (hrest a List.mem_cons_self))
      have hstep : v.answerQueue hash round a = some v'.refuse := by
        rw [answerQueue, hv']
        rfl
      have ha := queueAnswered_checkMessages hv'
      refine ⟨_, hstep, follows_answerQueue hplain hfollows hstep, fun b hb => ?_,
        fun b hb => hrest b (List.mem_cons_of_mem _ hb)⟩
      by_cases hba : b = a
      · subst hba
        exact ha.ring.trans (hring b hb)
      · exact (congrArg MP2Node.ring (ha.checked.others b hba)).trans (hring b hb))
    ⟨hfollows, fun a ha => by
      obtain ⟨ht, queue, hnode⟩ := hc.node a ha
      rw [hnode], fun _ ha => List.mem_reverse.mp ha⟩
  have hhalf : Halfway hash group q w w₂ := halfway hq ho hr hagreed h₁ h₂
  obtain ⟨w₃, h₃, -⟩ := foldlM_total (f := request hash) (l := round.requests) (s := w₂)
    (P := fun rest v => Requested w₂ v ∧ ∀ call ∈ rest, call.1 ∈ group.addresses)
    (fun call rest v hP => by
      obtain ⟨table, hnode⟩ := hP.1.node call.1
      obtain ⟨v', hv'⟩ : ∃ v', v.request hash call = some v' := by
        refine request_isSome (R := R) ?_
        rw [hnode]
        exact hhalf.ring call.1 (hP.2 call List.mem_cons_self)
      exact ⟨v', hv', hP.1.trans (requested_request hv'),
        fun c hc => hP.2 c (List.mem_cons_of_mem _ hc)⟩)
    ⟨.refl w₂, fun call hcall => (hover.2 call hcall).1⟩
  refine ⟨{ w₃ with currtime := w₃.currtime + 1 }, ?_⟩
  simp only [turn, mp2Run, Option.bind_eq_bind, h₁, h₂, h₃, Option.bind_some, Option.map_some]

/-! ## Runs of ticks -/

section

variable (hash : Str → Nat) (group : Group R) (q : Request → Prop)

/-- However the next tick goes, it ends, and then `P` holds. -/
def Next (P : World → Prop) (w : World) : Prop :=
  ∀ round : Round, round.Over hash group q → ∃ w', w.turn hash group.addresses round = some w' ∧
    (w'.transID < 2 ^ 31 → P w')

/-- A tick in which a member makes this call besides requests of the kind `q`; `v` is where it makes
it. -/
def Called (call : Address × ReplicaType × Request) (w v w' : World) : Prop :=
  ∃ (round : Round) (earlier later : List (Address × ReplicaType × Request)),
    round.requests = earlier ++ call :: later ∧
    { round with requests := earlier ++ later }.Over hash group q ∧
    call.1 ∈ group.addresses ∧
    w.mp2Run hash group.addresses { round with requests := earlier } = some v ∧
    w.turn hash group.addresses round = some w' ∧ w'.transID < 2 ^ 31

end

/-- A path within the group keeps what every change keeps; the ids stay within bounds. -/
theorem Follows.invariant {P : World → Prop} (hq : ∀ r, q r → r.Parsable) (ho : Orderly hash group w)
    (h : Follows hash group q w w') (hlt : w'.transID < 2 ^ 31)
    (hstep : ∀ v v', Orderly hash group v → Fixed hash R (Local hash group q) v v' →
      v'.transID < 2 ^ 31 → P v → P v') (hP : P w) : P w' := by
  have hpath := bounded_path (fun _ _ hc => transID_le_of_alters hc.alters) h.path hlt
  have hboth := invariant_of_run (P := fun v => Orderly hash group v ∧ P v)
    (fun v v' hturn hv => ⟨hv.1.fixed hq hturn.1, hstep v v' hv.1 hturn.1 hturn.2 hv.2⟩)
    hpath ⟨ho, hP⟩
  exact hboth.2

theorem transID_follows (h : Follows hash group q w w') : w.transID ≤ w'.transID :=
  transID_le_of_path (h.path.lift id fun _ _ hc => hc.alters)

/-- What a tick consists of. -/
structure TurnParts (hash : Str → Nat) (group : Group R) (q : Request → Prop) (round : Round)
    (w w₂ w' : World) : Prop where
  halfway : Halfway hash group q w w₂
  member : ∀ a ∈ group.addresses, ∃ v v', MemberTurn hash group q round a w w₂ v v'
  follows : Follows hash group q w w'
  later : Follows hash group q w₂ w'
  requested : Requested w₂ w'

theorem turnParts (hq : ∀ r, q r → r.Parsable) (ho : Orderly hash group w) (hr : Rested group w)
    (hover : round.Over hash group q) (h : w.turn hash group.addresses round = some w') :
    ∃ w₂, TurnParts hash group q round w w₂ w' := by
  have hplain : ∀ r, q r → r.Plain := fun r hr => (hq r hr).plain
  obtain ⟨w₁, w₂, w₃, h₁, h₂, h₃, rfl⟩ := turn_loops h
  have hhalf : Halfway hash group q w w₂ := halfway hq ho hr hover.1 h₁ h₂
  have hstart : Follows hash group q w₂ w₂ := .refl hhalf.follows.placed hhalf.follows.routed
  obtain ⟨hfollows, hrequested⟩ := request_loop hplain hover.2 hstart h₃
  have hlater := hfollows.changes hplain (.single (.tick w₃))
  exact ⟨w₂, hhalf, fun a ha => memberTurn hq ho hr hover.1 h₁ h₂ ha,
    hhalf.follows.trans hplain hlater.path, hlater, hrequested.tick⟩

theorem rested_ticked (hq : ∀ r, q r → r.Parsable) (ho : Orderly hash group w) (hr : Rested group w)
    (h : Ticked hash group q w w') :
    Follows hash group q w w' ∧ Rested group w' ∧ w'.transID < 2 ^ 31 := by
  obtain ⟨round, hover, hturn, hlt⟩ := h
  obtain ⟨w₂, ht⟩ := turnParts hq ho hr hover hturn
  exact ⟨ht.follows, ht.halfway.rested.requested ht.requested, hlt⟩

theorem ticks_invariant {P : World → Prop} (hq : ∀ r, q r → r.Parsable)
    (hstep : ∀ v v', Orderly hash group v → Fixed hash R (Local hash group q) v v' →
      v'.transID < 2 ^ 31 → P v → P v')
    (h : Ticks hash group q w w') (ho : Orderly hash group w) (hr : Rested group w) (hP : P w) :
    Orderly hash group w' ∧ Rested group w' ∧ P w' := by
  refine invariant_of_run (P := fun v => Orderly hash group v ∧ Rested group v ∧ P v) ?_ h
    ⟨ho, hr, hP⟩
  intro v v' hticked ⟨ho, hr, hP⟩
  obtain ⟨hfollows, hr', hlt⟩ := rested_ticked hq ho hr hticked
  exact ⟨ho.path hq hfollows.path, hr', hfollows.invariant hq ho hlt hstep hP⟩

/-- What a tick with a particular call consists of: the call is made in `v` and leads to `v'`. -/
structure CallParts (hash : Str → Nat) (group : Group R) (q : Request → Prop)
    (call : Address × ReplicaType × Request) (w w₂ v v' w' : World) : Prop where
  halfway : Halfway hash group q w w₂
  earlier : Follows hash group q w₂ v
  before : Requested w₂ v
  ready : Orderly hash group v
  find : ∃ r₀ r₁ r₂, findNodes hash call.2.2.key R.nodes = [r₀, r₁, r₂] ∧
    v' = (v.issued call.1 (call.2.2.message call.1 call.2.1) r₀ r₁ r₂).refuse
  call : Follows hash group (fun r => q r ∨ r = call.2.2) v v'
  orderly : Orderly hash group v'
  later : Follows hash group q v' w'
  after : Requested v' w'
  bounded : w'.transID < 2 ^ 31

theorem callParts {call : Address × ReplicaType × Request} (hq : ∀ r, q r → r.Parsable)
    (ho : Orderly hash group w) (hr : Rested group w) (h : Called hash group q call w v w')
    (hparse : call.2.2.Parsable) :
    ∃ w₂ v', CallParts hash group q call w w₂ v v' w' := by
  obtain ⟨round, earlier, later, hrequests, hover, hmember, hrun, hturn, hlt⟩ := h
  have hplain : ∀ r, q r → r.Plain := fun r hr => (hq r hr).plain
  have hearlier : ∀ c ∈ earlier, c.1 ∈ group.addresses ∧ q c.2.2 :=
    fun c hc => hover.2 c (List.mem_append_left _ hc)
  have hlater : ∀ c ∈ later, c.1 ∈ group.addresses ∧ q c.2.2 :=
    fun c hc => hover.2 c (List.mem_append_right _ hc)
  obtain ⟨w₁, w₂, w₃, h₁, h₂, h₃, rfl⟩ := turn_loops hturn
  have hhalf : Halfway hash group q w w₂ := halfway hq ho hr hover.1 h₁ h₂
  have hstart : Follows hash group q w₂ w₂ := .refl hhalf.follows.placed hhalf.follows.routed
  -- up to the call both runs of the loops are the same
  have hv : earlier.foldlM (request hash) w₂ = some v := by
    obtain ⟨u₁, u₂, hu₁, hu₂, hu₃⟩ := mp2Run_eq_some.mp hrun
    obtain rfl := Option.some.inj (hu₁.symm.trans h₁)
    obtain rfl := Option.some.inj (hu₂.symm.trans h₂)
    exact hu₃
  obtain ⟨hfollows, hbefore⟩ := request_loop hplain hearlier hstart hv
  rw [hrequests, List.foldlM_append, hv, Option.bind_eq_bind, Option.bind_some] at h₃
  obtain ⟨v', hcall, h₃⟩ := foldlM_cons_some h₃
  obtain ⟨r₀, r₁, r₂, hfind, hv'⟩ := request_some hcall
  have hring : (v.node call.1).ring = R.nodes := by
    obtain ⟨table, hnode⟩ := hbefore.node call.1
    rw [hnode]
    exact hhalf.ring call.1 hmember
  have hov : Orderly hash group v :=
    (ho.path hq hhalf.follows.path).path hq hfollows.path
  have hparse' : ∀ r, (q r ∨ r = call.2.2) → r.Parsable := by
    intro r hr
    rcases hr with hr | rfl
    · exact hq r hr
    · exact hparse
  have hstep : Follows hash group (fun r => q r ∨ r = call.2.2) v v' :=
    follows_request (fun r hr => (hparse' r hr).plain) ⟨hmember, Or.inr rfl⟩ hov.follows hcall
  have hov' : Orderly hash group v' := hov.path hparse' hstep.path
  obtain ⟨hafter, hrequested⟩ := request_loop hplain hlater hov'.follows h₃
  exact ⟨w₂, v', hhalf, hfollows, hbefore, hov, ⟨r₀, r₁, r₂, hring ▸ hfind, hv'⟩, hstep, hov',
    hafter.changes hplain (.single (.tick w₃)), hrequested.tick, hlt⟩

theorem CallParts.next_lt {call : Address × ReplicaType × Request} {w₂ : World}
    (h : CallParts hash group q call w w₂ v v' w') : v.transID + 1 < 2 ^ 31 := by
  obtain ⟨r₀, r₁, r₂, -, rfl⟩ := h.find
  have hle := transID_follows h.later
  have hbound := h.bounded
  simp only [refuse, transID_issued] at hle
  omega

theorem Called.ticked {call : Address × ReplicaType × Request}
    (h : Called hash group q call w v w') :
    Ticked hash group (fun r => q r ∨ r = call.2.2) w w' := by
  obtain ⟨round, earlier, later, hrequests, hover, hmember, -, hturn, hlt⟩ := h
  refine ⟨round, ⟨hover.1, fun c hc => ?_⟩, hturn, hlt⟩
  rw [hrequests] at hc
  rcases List.mem_append.mp hc with hc | hc
  · have hq := hover.2 c (List.mem_append_left _ hc)
    exact ⟨hq.1, Or.inl hq.2⟩
  · rcases List.mem_cons.mp hc with rfl | hc
    · exact ⟨hmember, Or.inr rfl⟩
    · have hq := hover.2 c (List.mem_append_right _ hc)
      exact ⟨hq.1, Or.inl hq.2⟩

/-! ## Three nodes -/

def threeGroup : Group threeRing.sortedRing where
  addresses := [1, 2, 3].map sampleNode
  perm := by decide +kernel
  separated := by decide +kernel

/-- A tick in which all three know one another. -/
def sampleRound (requests : List (Address × ReplicaType × Request)) : Round where
  memberList := fun _ => sampleMembers 3
  uninit := fun _ => .primary
  requests := requests

def sampleTurn (requests : List (Address × ReplicaType × Request)) (w : World) : Option World :=
  w.turn sampleHash threeGroup.addresses (sampleRound requests)

theorem sampleRound_over {requests : List (Address × ReplicaType × Request)}
    (h : ∀ call ∈ requests, call.1 ∈ threeGroup.addresses ∧ q call.2.2) :
    (sampleRound requests).Over sampleHash threeGroup q := by
  have hring : ringOf sampleHash (sampleMembers 3) = threeRing.sortedRing.nodes := by
    decide +kernel
  exact ⟨fun _ _ => hring, h⟩

theorem ticked_sample (h : w.sampleTurn [] = some w') (hlt : w'.transID < 2 ^ 31) :
    Ticked sampleHash threeGroup q w w' :=
  ⟨sampleRound [], sampleRound_over (by simp), h, hlt⟩

theorem called_sample {call : Address × ReplicaType × Request}
    (h : w.sampleTurn [call] = some w') (hmember : call.1 ∈ threeGroup.addresses)
    (hlt : w'.transID < 2 ^ 31) :
    ∃ v, Called sampleHash threeGroup q call w v w' ∧ v.nextTransID.gTransID = w'.gTransID := by
  obtain ⟨w₁, w₂, w₃, h₁, h₂, h₃, rfl⟩ := turn_loops h
  have hrun : w.mp2Run sampleHash threeGroup.addresses (sampleRound []) = some w₂ :=
    mp2Run_eq_some.mpr ⟨w₁, w₂, h₁, h₂, rfl⟩
  refine ⟨w₂, ⟨sampleRound [call], [], [], rfl, sampleRound_over (by simp), hmember, hrun, h,
    hlt⟩, ?_⟩
  obtain ⟨v, hcall, hrest⟩ := foldlM_cons_some h₃
  obtain ⟨r₀, r₁, r₂, -, rfl⟩ := request_some hcall
  obtain rfl := Option.some.inj hrest
  rfl

end World

end CloudComputing.KeyValueStore
