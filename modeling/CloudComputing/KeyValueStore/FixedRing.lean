import CloudComputing.KeyValueStore.Quorum

/-!
# Runs over a fixed ring

Every node has no ring yet or the same one.  Entries then stay at the three
replicas of their key: stabilization finds nothing to send and only rewrites the
own entries.
-/

namespace CloudComputing.KeyValueStore

open Lib Relation

/-- A request with a plain key and a value that an entry can carry. -/
def Request.Tame : Request → Prop
  | .create key value | .update key value => KeyValueStore.Plain key ∧ value ≠ [] ∧ ':' ∉ value
  | .read key | .delete key => KeyValueStore.Plain key

theorem Request.Tame.plain {request : Request} (h : request.Tame) : request.Plain := by
  cases request with
  | create key value | update key value =>
      exact ⟨h.1, plain_iff_clean.mpr (Message.clean_of_no_colon h.2.2)⟩
  | read key | delete key => exact h

theorem Request.Plain.sendable {request : Request} (h : request.Plain) (self : Address)
    (uninit : ReplicaType) (transID : Int32) :
    (request.message self uninit transID).Sendable := by
  cases request with
  | create key value | update key value =>
      exact ⟨plain_iff_clean.mp h.1, plain_iff_clean.mp h.2⟩
  | read key | delete key => exact h.1

def SortedRing.replicas (R : SortedRing) (hash : Str → Nat) (key : Str) : List Address :=
  (findNodes hash key R.nodes).map Node.nodeAddress

abbrev ProperRing.replicas (R : ProperRing) : (Str → Nat) → Str → List Address :=
  R.sortedRing.replicas

instance : Coe ProperRing SortedRing := ⟨ProperRing.sortedRing⟩

namespace World

section

variable (hash : Str → Nat) (R : ProperRing)

/-- Clients make plain requests, and the members are those of `R` in any order. -/
def StableRing : World → Action → Prop
  | _, .client _ _ request => request.Plain
  | _, .updateRing _ memberList => (getMembershipList hash memberList).Perm R.nodes
  | _, _ => True

def FixedRing : World → Action → Prop
  | _, .client _ _ request => request.Tame
  | _, .updateRing _ memberList => (getMembershipList hash memberList).Perm R.nodes
  | _, _ => True

end

section

variable (hash : Str → Nat) (R : SortedRing)

/-- Entries, and the requests that create them, are at the replicas of their key. -/
structure Placed (w : World) : Prop where
  ring : ∀ a, (w.node a).ring = [] ∨ (w.node a).ring = R.nodes
  holder : ∀ a key text, (w.node a).ht.get? key = some text → a ∈ R.replicas hash key
  create : ∀ b, ∀ s ∈ w.pending b, ∀ uninit m, Message.ofString uninit s = some m →
    m.type = .create → b ∈ R.replicas hash m.key

/-- What an action over a fixed ring is made of. -/
inductive Fixed (ok : World → Action → Prop) (w w' : World) : Prop
  | change (h : Change hash ok w w')
  | setRing (self : Address)
      (h : w' = w.modifyNode self fun n => { n with ring := R.nodes })

end

variable {hash : Str → Nat} {R : SortedRing} {ok ok' : World → Action → Prop} {w w' : World}
  {a : Address}

theorem FixedRing.stable {R : ProperRing} {action : Action} (h : FixedRing hash R w action) :
    StableRing hash R w action := by
  cases action with
  | client self uninit request => exact Request.Tame.plain h
  | updateRing self memberList => exact h
  | checkMessages | receive | lose | tick => trivial

theorem Fixed.alters (h : Fixed hash R ok w w') : Alters hash ok w w' := by
  cases h with
  | change h => exact .change h
  | setRing self h =>
      subst h
      exact .reshape (.setRing w self R.nodes)

theorem sent_of_fixed {b : Address} {s : Str} (h : Fixed hash R ok w w')
    (hs : s ∈ w'.pending b) : Sent hash ok w w' b s := by
  cases h with
  | change h => exact sent_of_change h hs
  | setRing self h =>
      subst h
      exact .old (by simpa using hs)

theorem Placed.ring_of_find {key : Str} {n : Node} {ns : List Node} (hp : Placed hash R w)
    (hfind : findNodes hash key (w.node a).ring = n :: ns) : (w.node a).ring = R.nodes := by
  apply (hp.ring a).resolve_left
  intro hnil
  rw [hnil] at hfind
  cases hfind

theorem ring_of_change (h : Change hash ok w w') (a : Address) :
    (w'.node a).ring = (w.node a).ring := by
  cases h with
  | tick | lose | reorder | judgeUpdate => rfl
  | receive p hp => simp [receive]
  | issue => simp
  | judgeRead => split <;> rfl
  | clearResults self => simp
  | clearReads self => simp
  | rewrite => exact field_rewrite fun _ _ => rfl
  | arrive self uninit replica text queue arrived hq htext h =>
      by_cases ha : a = self
      · subst ha
        rw [h.ring]
        simp [pop]
      · rw [h.others a ha]
        simp [pop]

theorem Change.mono (hclient : ∀ self uninit request, ok w (.client self uninit request) →
      (w.node self).ring ≠ [] → ok' w (.client self uninit request))
    (hlose : ∀ p, ok w (.lose p) → ok' w (.lose p)) (h : Change hash ok w w') :
    Change hash ok' w w' := by
  cases h with
  | tick => exact .tick w
  | receive p hp => exact .receive w p hp
  | lose p hp hok => exact .lose w p hp (hlose p hok)
  | reorder net hnet => exact .reorder w net hnet
  | issue self uninit request r₀ r₁ r₂ hok hfind =>
      refine .issue w self uninit request r₀ r₁ r₂ (hclient self uninit request hok ?_) hfind
      intro hnil
      rw [hnil] at hfind
      cases hfind
  | arrive self uninit replica text queue arrived hq htext h =>
      exact .arrive self uninit replica text queue arrived hq htext h
  | judgeUpdate self uninit transID results text received op value hresults htable htext hop =>
      exact .judgeUpdate w self uninit transID results text received op value hresults htable
        htext hop
  | judgeRead self uninit transID values text received v hvalues htable htext htype hv =>
      exact .judgeRead w self uninit transID values text received v hvalues htable htext htype hv
  | clearResults self => exact .clearResults w self
  | clearReads self => exact .clearReads w self
  | rewrite self key value replica hvalue => exact .rewrite w self key value replica hvalue

theorem Fixed.mono (hmono : ∀ a, ok w a → ok' w a) (h : Fixed hash R ok w w') :
    Fixed hash R ok' w w' := by
  cases h with
  | change h => exact .change (h.mono (fun _ _ _ hok _ => hmono _ hok) fun _ => hmono _)
  | setRing self h => exact .setRing self h

theorem Placed.plainClients (hp : Placed hash R w)
    (hplain : ∀ self uninit request, ok w (.client self uninit request) → request.Plain)
    (h : Fixed hash R ok w w') : Alters hash PlainClients w w' := by
  cases h with
  | change h =>
      refine .change (h.mono (fun self uninit request hok hring => ?_) fun p hok => trivial)
      rw [PlainClients, (hp.ring self).resolve_left hring]
      exact ⟨hplain self uninit request hok, R.three, R.addresses⟩
  | setRing self h =>
      subst h
      exact .reshape (.setRing w self R.nodes)

theorem message_fields (request : Request) (self : Address) (uninit : ReplicaType) (t : Int32) :
    (request.message self uninit t).key = request.key ∧
      (request.message self uninit t).transID = t ∧
      (request.message self uninit t).fromAddr = self := by
  cases request <;> exact ⟨rfl, rfl, rfl⟩

theorem key_received {m : Message} {uninit : ReplicaType}
    (h : m.type = .create ∨ m.type = .update ∨ m.type = .delete ∨ m.type = .read) :
    (m.received uninit).key = m.key := by
  obtain ⟨type, _⟩ := m
  rcases h with h | h | h | h <;> (obtain rfl : type = _ := h; rfl)

theorem Placed.fixed (hp : Placed hash R w)
    (hplain : ∀ self uninit request, ok w (.client self uninit request) → request.Plain)
    (h : Fixed hash R ok w w') : Placed hash R w' where
  ring := by
    intro a
    cases h with
    | change h =>
        rw [ring_of_change h]
        exact hp.ring a
    | setRing self h =>
        subst h
        by_cases ha : a = self
        · subst ha
          exact Or.inr (by simp)
        · rw [node_modifyNode_of_ne ha]
          exact hp.ring a
  holder := by
    intro a key text hget
    cases held_of_alters h.alters hget with
    | old h => exact hp.holder a key text h
    | rewritten value replica hvalue htext => exact hp.holder a key value hvalue
    | written uninit replica message arrived hpending hmessage htype hkey htext =>
        rcases htype with hcreate | ⟨-, hthere⟩
        · rw [hkey]
          exact hp.create a message hpending uninit arrived hmessage hcreate
        · obtain ⟨old, hold⟩ := Option.ne_none_iff_exists'.mp hthere
          exact hp.holder a key old hold
  create := by
    intro b s hs uninit m hm htype
    cases sent_of_fixed h hs with
    | old hold => exact hp.create b s hold uninit m hm htype
    | request self uninit' request hok hto hnext hs =>
        subst hs
        have hring : (w.node self).ring = R.nodes := by
          refine (hp.ring self).resolve_left fun hnil => ?_
          rw [hnil] at hto
          cases hto
        rw [hring] at hto
        have hdecode := Message.ofString_toString uninit
          ((hplain self uninit' request hok).sendable self uninit' w.nextTransID.gTransID)
        rw [hdecode] at hm
        obtain rfl := Option.some.inj hm
        rw [key_received (Or.inl ((Message.ofString_toString_some hdecode).1.symm.trans htype)),
          (message_fields ..).1]
        exact hto
    | answer self uninit' text arrived answer hpending htext hanswer hto hs =>
        subst hs
        rw [(Message.ofString_toString_some hm).1] at htype
        unfold Message.answer at hanswer
        split at hanswer
        case h_5 => cases hanswer
        all_goals
          obtain rfl := Option.some.inj hanswer
          cases htype

/-! ## Stabilization has nothing to do -/

theorem replicas_eq (hash : Str → Nat) (R : SortedRing) (key : Str) : ∃ n₀ n₁ n₂,
    findNodes hash key R.nodes = [n₀, n₁, n₂] ∧ n₀.nodeAddress ≠ n₁.nodeAddress ∧
    n₀.nodeAddress ≠ n₂.nodeAddress ∧ n₁.nodeAddress ≠ n₂.nodeAddress := by
  obtain ⟨n₀, n₁, n₂, heq⟩ := findNodes_of_three hash R.three key
  have hnodup := findNodes_nodup hash key R.addresses
  rw [heq] at hnodup
  simp only [List.map_cons, List.map_nil, List.nodup_cons, List.mem_cons, List.not_mem_nil,
    or_false, not_or] at hnodup
  exact ⟨n₀, n₁, n₂, heq, hnodup.1.1, hnodup.1.2, hnodup.2.1⟩

/-- With the old ring for the new one, a replica only rewrites its entry. -/
theorem Stabilized.same_ring {self : Address} {key value : Str} {n₀ n₁ n₂ : Node}
    (hring : (w.node self).ring = R.nodes) (hself : self ∈ R.replicas hash key)
    (hfind : findNodes hash key R.nodes = [n₀, n₁, n₂])
    (h : Stabilized self R.nodes key value [n₀, n₁, n₂] n₀ n₁ n₂ w w') :
    ∃ replica, w' = w.rewrite self key value replica := by
  have hsame : ∀ (n : Node) (replica : ReplicaType), Copy.unlessSame n n replica = [] :=
    fun n replica => if_pos rfl
  cases h with
  | handOver hpos =>
      exfalso
      unfold SortedRing.replicas at hself
      rw [hfind] at hself
      obtain ⟨h₀, h₁, h₂⟩ := ne_of_ownPos hpos
      simp [Ne.symm h₀, Ne.symm h₁, Ne.symm h₂] at hself
  | asPrimary o₁ o₂ hpos ho₁ ho₂ =>
      obtain rfl : n₁ = o₁ := by simpa using ho₁
      obtain rfl : n₂ = o₂ := by simpa using ho₂
      obtain ⟨m₀, m₁, m₂, hm, -, -, hne⟩ := replicas_eq hash R key
      obtain ⟨-, rfl, rfl⟩ : n₀ = m₀ ∧ n₁ = m₁ ∧ n₂ = m₂ := by simpa [hfind] using hm
      refine ⟨.primary, ?_⟩
      rw [Copy.ofPrimary, if_neg hne, if_neg (Ne.symm hne), hsame, hsame]
      rfl
  | asSecondary o₁ newPred oldPred hpos ho₁ hnew hold =>
      obtain rfl : n₁ = o₁ := by simpa using ho₁
      rw [hring, hnew] at hold
      obtain rfl := Option.some.inj hold
      exact ⟨.secondary, by rw [Copy.ofSecondary, hsame, hsame]; rfl⟩
  | asTertiary newPred₂ oldPred₂ newPred₁ oldPred₁ hpos hnew₂ hold₂ hnew₁ hold₁ =>
      rw [hring, hnew₂] at hold₂
      rw [hring, hnew₁] at hold₁
      obtain rfl := Option.some.inj hold₂
      obtain rfl := Option.some.inj hold₁
      exact ⟨.tertiary, by rw [Copy.ofTertiary, hsame, hsame]; rfl⟩

theorem ringOf_eq {R : ProperRing} {memberList : List MemberListEntry}
    (h : (getMembershipList hash memberList).Perm R.nodes) : ringOf hash memberList = R.nodes :=
  R.sortNodes_eq h

theorem fixed_updateRing {self : Address} {memberList : List MemberListEntry}
    (hp : Placed hash R w) (hlist : ringOf hash memberList = R.nodes)
    (h : w.updateRing hash self memberList = some w') :
    ReflTransGen (Fixed hash R ok) w w' := by
  have hsorted : sortNodes R.nodes = R.nodes := R.sortNodes_nodes
  rcases updateRing_some h with ⟨-, rfl⟩ | ⟨hring, -, w₁, hst, rfl⟩ | ⟨hring, -, rfl⟩
  · refine .single (.setRing self ?_)
    rw [hlist, hsorted]
  · rw [hlist] at hst ⊢
    have hloop := stabilizationProtocol_invariant
      (P := fun rest v => ReflTransGen (Fixed hash R ok) w v ∧
        ∀ x ∈ rest, self ∈ R.replicas hash x.1)
      (fun key value rest v v' n₀ n₁ n₂ hP _ hentry hsame hfind _ hturn => by
        have hself := hP.2 (key, value) List.mem_cons_self
        have hfixed : (v.node self).ring = R.nodes :=
          hsame.trans ((hp.ring self).resolve_left hring)
        rw [(hp.ring self).resolve_left hring, hfind] at hturn
        obtain ⟨replica, rfl⟩ := hturn.same_ring hfixed hself hfind
        exact ⟨hP.1.tail (.change (.rewrite v self key value replica hentry)),
          fun x hx => hP.2 x (List.mem_cons_of_mem _ hx)⟩)
      ⟨.refl, fun x hx => hp.holder self x.1 x.2 (HashTable.mem_toList.mp hx)⟩ hst
    exact hloop.1.tail (.setRing self (by rw [hsorted]))
  · refine .single (.setRing self ?_)
    have hfixed := (hp.ring self).resolve_left hring
    simp only [modifyNode, hfixed, hsorted]

theorem fixed_step {R : ProperRing} {action : Action} (hok : StableRing hash R w action)
    (hallow : ok w action) (hp : Placed hash R w) (h : w.step hash action = some w') :
    ReflTransGen (Fixed hash R ok) w w' := by
  cases action with
  | client self uninit request =>
      obtain ⟨r₀, r₁, r₂, hfind, rfl⟩ := client_some h
      exact .single (.change (.issue w self uninit request r₀ r₁ r₂ hallow hfind))
  | updateRing self memberList => exact fixed_updateRing hp (ringOf_eq hok) h
  | checkMessages self uninit =>
      exact (changes_checkMessages h).lift id fun _ _ hc => .change hc
  | receive p =>
      obtain ⟨hmem, rfl⟩ := step_receive h
      exact .single (.change (.receive w p hmem))
  | lose p =>
      obtain ⟨hmem, rfl⟩ := step_lose h
      exact .single (.change (.lose w p hmem hallow))
  | tick =>
      obtain rfl := Option.some.inj h
      exact .single (.change (.tick w))

theorem placed_initial : Placed hash R initial where
  ring := fun a => Or.inl rfl
  holder := by simp [initial, MP2Node.new]
  create := by simp [initial, MP2Node.new, pending]

/-- What every change over a fixed ring preserves holds along a run, next to the ledger. -/
theorem fixed_invariant {R : ProperRing} {P : World → Prop}
    (hstable : ∀ v a, ok v a → StableRing hash R v a)
    (hstep : ∀ v v', Placed hash R v → Ledger v → Fixed hash R ok v v' → v'.transID < 2 ^ 31 →
      P v → P v')
    (h : Steps hash ok w w') (hp : Placed hash R w) (hl : Ledger w) (hP : P w) :
    Placed hash R w' ∧ Ledger w' ∧ P w' := by
  refine invariant_of_run (P := fun v => Placed hash R v ∧ Ledger v ∧ P v) ?_ h ⟨hp, hl, hP⟩
  rintro v v' ⟨action, hok, hact, hlt⟩ ⟨hp, hl, hP⟩
  have hpath := bounded_path (fun _ _ h => transID_le_of_alters h.alters)
    (fixed_step (hstable v action hok) hok hp hact) hlt
  refine invariant_of_run (P := fun v => Placed hash R v ∧ Ledger v ∧ P v) ?_ hpath ⟨hp, hl, hP⟩
  rintro u u' ⟨hturn, hlt'⟩ ⟨hp, hl, hP⟩
  have hplain : ∀ self uninit request, ok u (.client self uninit request) → request.Plain :=
    fun self uninit request hok => hstable u _ hok
  exact ⟨hp.fixed hplain hturn, hl.alters hlt' (hp.plainClients hplain hturn),
    hstep u u' hp hl hturn hlt' hP⟩

end World

end CloudComputing.KeyValueStore
