import CloudComputing.EmulNet
import CloudComputing.KeyValueStore.FixedRing

/-!
# The driver of the key-value store

`Application.cpp` when all nodes have been introduced, are alive and stay in the
group.  In every tick each node updates its ring and fetches its messages, then,
from the last node to the first, each node handles its queue, and last the
clients make their calls.  The buffer of the network is never full, so `ENsend`
refuses nothing but what is too long.

Over a fixed ring each turn of its loops is a path of the changes that all runs are
made of.
-/

namespace CloudComputing.KeyValueStore

open Lib Relation

/-- The size test of `ENsend`. -/
def Packet.fits (p : Packet) : Bool :=
  p.data.length + EmulNet.sizeofEnMsg < EmulNet.maxMsgSize

/-- What a tick takes from outside: the membership lists, what is in memory where `checkMessages`
reads a variable it has not set, and the calls of the clients. -/
structure Round where
  memberList : Address → List MemberListEntry
  uninit : Address → ReplicaType
  requests : List (Address × ReplicaType × Request)

namespace World

/-- What `ENsend` refused was not sent. -/
def refuse (w : World) : World :=
  { w with net := w.net.filter Packet.fits }

/-- `recvLoop`: `ENrecv` hands over every message that is addressed to the node by `strcmp`. -/
def recvLoop (self : Address) (w : World) : World :=
  let found := SwapRemove.scan (fun p => p.dst.strcmpEq self) w.net.length w.net
  { w with net := found.2 }.modifyNode self fun n =>
    { n with mp2q := n.mp2q ++ found.1.map Packet.data }

section

variable (hash : Str → Nat) (group : List Address) (round : Round)

/-- The body of the first loop of `mp2Run`. -/
def refresh (w : World) (self : Address) : Option World :=
  (w.updateRing hash self (round.memberList self)).map fun w => w.refuse.recvLoop self

/-- The body of the second loop. -/
def answerQueue (w : World) (self : Address) : Option World :=
  (w.checkMessages hash (round.uninit self) self).map refuse

def request (w : World) (call : Address × ReplicaType × Request) : Option World :=
  (w.client hash call.1 call.2.1 call.2.2).map refuse

def mp2Run (w : World) : Option World := do
  let w ← group.foldlM (refresh hash round) w
  let w ← group.reverse.foldlM (answerQueue hash round) w
  round.requests.foldlM (request hash) w

/-- A turn of the loop of `Application::run`. -/
def turn (w : World) : Option World :=
  (w.mp2Run hash group round).map fun w => { w with currtime := w.currtime + 1 }

end

end World

/-- The members of a ring in the order they were created; `strcmp` tells them apart. -/
structure Group (R : SortedRing) where
  addresses : List Address
  perm : addresses.Perm (R.nodes.map Node.nodeAddress)
  separated : ∀ a ∈ addresses, ∀ b ∈ addresses, a.strcmpEq b = true → a = b

def Round.Over {R : SortedRing} (hash : Str → Nat) (group : Group R) (q : Request → Prop)
    (round : Round) : Prop :=
  (∀ a ∈ group.addresses, World.ringOf hash (round.memberList a) = R.nodes) ∧
    ∀ call ∈ round.requests, call.1 ∈ group.addresses ∧ q call.2.2

namespace World

section

variable {R : SortedRing} (hash : Str → Nat) (group : Group R) (q : Request → Prop)

/-- A tick that does not overflow `g_transID`. -/
def Ticked (w w' : World) : Prop :=
  ∃ round : Round, round.Over hash group q ∧ w.turn hash group.addresses round = some w' ∧
    w'.transID < 2 ^ 31

def Ticks : World → World → Prop := ReflTransGen (Ticked hash group q)

/-- What a tick is made of: requests of members, and the loss of what was refused. -/
def Local : World → Action → Prop
  | _, .client self _ request => self ∈ group.addresses ∧ q request
  | _, .updateRing _ memberList => ringOf hash memberList = R.nodes
  | _, .lose p => p.fits = false
  | _, _ => True

/-- Messages are under way between members only. -/
def Routed (w : World) : Prop :=
  ∀ b, ∀ s ∈ w.pending b, b ∈ group.addresses ∧
    ∀ uninit m, Message.ofString uninit s = some m → m.fromAddr ∈ group.addresses

end

variable {R : SortedRing} {hash : Str → Nat} {group : Group R} {q : Request → Prop}
  {ok : World → Action → Prop} {w w' : World} {self a b : Address} {round : Round}

/-! ## The network -/

theorem recvLoop_perm (hdst : ∀ p ∈ w.net, p.dst.strcmpEq self = true → p.dst = self) :
    ∃ taken : List Packet, taken.Perm (w.net.filter fun p => p.dst = self) ∧
      (w.recvLoop self).net.Perm (w.net.filter fun p => p.dst ≠ self) ∧
      w.recvLoop self = { w with net := (w.recvLoop self).net }.modifyNode self fun n =>
        { n with mp2q := n.mp2q ++ taken.map Packet.data } := by
  obtain ⟨htaken, hrest⟩ := SwapRemove.scan_perm
    (SwapRemove.clearFrom_length (fun p : Packet => p.dst.strcmpEq self) w.net)
  have hsame : ∀ p ∈ w.net, p.dst.strcmpEq self = decide (p.dst = self) := by
    intro p hp
    by_cases hself : p.dst = self
    · simp [hself, Address.strcmpEq]
    · have hne : ¬ p.dst.strcmpEq self = true := fun h => hself (hdst p hp h)
      simp [hself, hne]
  refine ⟨_, htaken.trans (List.Perm.of_eq (List.filter_congr hsame)),
    hrest.trans (List.Perm.of_eq (List.filter_congr fun p hp => ?_)), rfl⟩
  rw [hsame p hp]
  simp

theorem changes_receive {taken rest : List Packet} (hdst : ∀ p ∈ taken, p.dst = self)
    (hnet : w.net = taken ++ rest) : ReflTransGen (Change hash ok) w
      ({ w with net := rest }.modifyNode self fun n =>
        { n with mp2q := n.mp2q ++ taken.map Packet.data }) := by
  induction taken generalizing w with
  | nil =>
      have hsame : w = { w with net := rest }.modifyNode self fun n =>
          { n with mp2q := n.mp2q ++ [].map Packet.data } := by
        obtain ⟨node, transID, currtime, net, trace⟩ := w
        obtain rfl : net = rest := hnet
        simp [modifyNode, setNode]
      rw [← hsame]
  | cons p taken ih =>
      have hp : p ∈ w.net := by simp [hnet]
      have hself : p.dst = self := hdst p List.mem_cons_self
      have hrest : (w.receive p).net = taken ++ rest := by simp [receive, hnet]
      have hpath := ih (fun p' hp' => hdst p' (List.mem_cons_of_mem _ hp')) hrest
      refine .head (.receive w p hp) ?_
      have hsame : { w.receive p with net := rest }.modifyNode self (fun n =>
          { n with mp2q := n.mp2q ++ taken.map Packet.data }) =
          { w with net := rest }.modifyNode self fun n =>
            { n with mp2q := n.mp2q ++ (p :: taken).map Packet.data } := by
        simp [receive, modifyNode, setNode, hself]
      rwa [hsame] at hpath

theorem changes_recvLoop (hdst : ∀ p ∈ w.net, p.dst.strcmpEq self = true → p.dst = self) :
    ReflTransGen (Change hash ok) w (w.recvLoop self) := by
  obtain ⟨taken, htaken, hrest, hsame⟩ := recvLoop_perm hdst
  have hperm : (taken ++ (w.recvLoop self).net).Perm w.net := by
    have hall := List.filter_append_perm (fun p : Packet => decide (p.dst = self)) w.net
    refine (htaken.append hrest).trans (List.Perm.trans (List.Perm.of_eq ?_) hall)
    simp only [ne_eq, decide_not]
  have hself : ∀ p ∈ taken, p.dst = self :=
    fun p hp => of_decide_eq_true (List.mem_filter.mp (htaken.mem_iff.mp hp)).2
  have hpath := @changes_receive hash ok { w with net := taken ++ (w.recvLoop self).net } self
    taken (w.recvLoop self).net hself rfl
  rw [hsame]
  exact .head (.reorder w _ hperm) hpath

theorem changes_refuse (hlose : ∀ v p, p.fits = false → ok v (.lose p)) :
    ReflTransGen (Change hash ok) w w.refuse := by
  have hpath : ∀ (kept rest : List Packet) (v : World), v.net = kept ++ rest →
      (∀ p ∈ kept, p.fits = true) →
      ReflTransGen (Change hash ok) v { v with net := kept ++ rest.filter Packet.fits } := by
    intro kept rest
    induction rest generalizing kept with
    | nil =>
        intro v hv _
        have hsame : v = { v with net := kept ++ [].filter Packet.fits } := by
          obtain ⟨node, transID, currtime, net, trace⟩ := v
          obtain rfl : net = kept ++ [] := hv
          simp
        rw [← hsame]
    | cons p rest ih =>
        intro v hv hkept
        by_cases hp : p.fits = true
        · have hnext := ih (kept ++ [p]) v (by simp [hv]) (by
            intro p' hp'
            rcases List.mem_append.mp hp' with hp' | hp'
            · exact hkept p' hp'
            · rwa [List.mem_singleton.mp hp'])
          rw [List.filter_cons_of_pos hp]
          simpa using hnext
        · have hmem : p ∈ v.net := by simp [hv]
          have hnot : p ∉ kept := fun h => hp (hkept p h)
          have hnet : (v.lose p).net = kept ++ rest := by
            simp [lose, hv, List.erase_append_right _ hnot]
          rw [List.filter_cons_of_neg hp]
          exact .head (.lose v p hmem (hlose v p (by simpa using hp)))
            (ih kept (v.lose p) hnet hkept)
  exact hpath [] w.net w rfl (by simp)

/-! ## A tick as a path -/

theorem mem_group_of_find {key : Str} (hp : Placed hash R w)
    (h : b ∈ (findNodes hash key (w.node a).ring).map Node.nodeAddress) : b ∈ group.addresses := by
  obtain ⟨n, hn, rfl⟩ := List.mem_map.mp h
  have hmem := mem_of_mem_findNodes hn
  rcases hp.ring a with hnil | hring
  · rw [hnil] at hmem
    cases hmem
  · rw [hring] at hmem
    exact group.perm.mem_iff.mpr (List.mem_map.mpr ⟨n, hmem, rfl⟩)

theorem fromAddr_answer {uninit : ReplicaType} {arrived m : Message} {ht : HashTable}
    (h : arrived.answer uninit a ht = some m) : m.fromAddr = a := by
  unfold Message.answer at h
  split at h
  case h_5 => cases h
  all_goals
    obtain rfl := Option.some.inj h
    rfl

theorem Routed.change (hr : Routed group w) (hp : Placed hash R w)
    (h : Change hash (Local hash group q) w w') : Routed group w' := by
  intro b s hs
  cases sent_of_change h hs with
  | old hold => exact hr b s hold
  | request self uninit request hok hto hnext hs =>
      subst hs
      refine ⟨mem_group_of_find hp hto, fun uninit' m hm => ?_⟩
      rw [(Message.ofString_toString_some hm).2.1, (message_fields ..).2.2]
      exact hok.1
  | answer self uninit text arrived answer hpending htext hanswer hto hs =>
      subst hs
      obtain ⟨hself, hfrom⟩ := hr self text hpending
      refine ⟨hto ▸ hfrom uninit arrived htext, fun uninit' m hm => ?_⟩
      rw [(Message.ofString_toString_some hm).2.1, fromAddr_answer hanswer]
      exact hself

theorem Routed.fixed (hr : Routed group w) (hp : Placed hash R w)
    (h : Fixed hash R (Local hash group q) w w') : Routed group w' := by
  cases h with
  | change h => exact hr.change hp h
  | setRing self h =>
      subst h
      intro b s hs
      exact hr b s (by simpa using hs)

/-- What a path of changes within the group leads to. -/
structure Follows (hash : Str → Nat) (group : Group R) (q : Request → Prop) (w w' : World) :
    Prop where
  path : ReflTransGen (Fixed hash R (Local hash group q)) w w'
  placed : Placed hash R w'
  routed : Routed group w'

theorem Follows.refl (hp : Placed hash R w) (hr : Routed group w) : Follows hash group q w w :=
  ⟨.refl, hp, hr⟩

theorem Follows.trans {v : World} (hq : ∀ r, q r → r.Plain) (h : Follows hash group q w v)
    (h' : ReflTransGen (Fixed hash R (Local hash group q)) v w') : Follows hash group q w w' := by
  have hboth := invariant_of_run (P := fun v => Placed hash R v ∧ Routed group v)
    (fun u u' hturn hu => ⟨hu.1.fixed (fun _ _ request hok => hq request hok.2) hturn,
      hu.2.fixed hu.1 hturn⟩) h' ⟨h.placed, h.routed⟩
  exact ⟨h.path.trans h', hboth.1, hboth.2⟩

theorem Follows.changes {v : World} (hq : ∀ r, q r → r.Plain) (h : Follows hash group q w v)
    (h' : ReflTransGen (Change hash (Local hash group q)) v w') : Follows hash group q w w' :=
  h.trans hq (h'.lift id fun _ _ hc => .change hc)

theorem Follows.refuse {v : World} (hq : ∀ r, q r → r.Plain) (h : Follows hash group q w v) :
    Follows hash group q w v.refuse :=
  h.changes hq (changes_refuse fun _ _ hp => hp)

theorem Routed.dst (hr : Routed group w) (hself : self ∈ group.addresses) :
    ∀ p ∈ w.net, p.dst.strcmpEq self = true → p.dst = self := by
  intro p hp h
  exact group.separated p.dst (hr p.dst p.data (mem_pending_of_net hp)).1 self hself h

theorem follows_refresh {v : World} (hq : ∀ r, q r → r.Plain)
    (hlist : ringOf hash (round.memberList self) = R.nodes) (hself : self ∈ group.addresses)
    (h : Follows hash group q w v) (hstep : v.refresh hash round self = some w') :
    Follows hash group q w w' := by
  obtain ⟨v₁, hring, rfl⟩ := Option.map_eq_some_iff.mp hstep
  have h₁ := (h.trans hq (fixed_updateRing h.placed hlist hring)).refuse hq
  exact h₁.changes hq (changes_recvLoop (h₁.routed.dst hself))

theorem follows_answerQueue {v : World} (hq : ∀ r, q r → r.Plain) (h : Follows hash group q w v)
    (hstep : v.answerQueue hash round self = some w') : Follows hash group q w w' := by
  obtain ⟨v₁, hcheck, rfl⟩ := Option.map_eq_some_iff.mp hstep
  exact (h.changes hq (changes_checkMessages hcheck)).refuse hq

theorem request_some {call : Address × ReplicaType × Request}
    (h : w.request hash call = some w') : ∃ r₀ r₁ r₂,
      findNodes hash call.2.2.key (w.node call.1).ring = [r₀, r₁, r₂] ∧
      w' = (w.issued call.1 (call.2.2.message call.1 call.2.1) r₀ r₁ r₂).refuse := by
  obtain ⟨v, hclient, rfl⟩ := Option.map_eq_some_iff.mp h
  obtain ⟨r₀, r₁, r₂, hfind, rfl⟩ :=
    dispatch_some ((client_eq_dispatch w call.1 call.2.1 call.2.2).symm.trans hclient)
  exact ⟨r₀, r₁, r₂, hfind, rfl⟩

theorem follows_request {v : World} {call : Address × ReplicaType × Request}
    (hq : ∀ r, q r → r.Plain) (hcall : call.1 ∈ group.addresses ∧ q call.2.2)
    (h : Follows hash group q w v) (hstep : v.request hash call = some w') :
    Follows hash group q w w' := by
  obtain ⟨r₀, r₁, r₂, hfind, rfl⟩ := request_some hstep
  exact (h.changes hq (.single (.issue v call.1 call.2.1 call.2.2 r₀ r₁ r₂ hcall hfind))).refuse hq

end World

end CloudComputing.KeyValueStore
