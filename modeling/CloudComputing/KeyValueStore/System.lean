import CloudComputing.Lib.Fold
import CloudComputing.KeyValueStore.MP2Node

/-!
# Runs of the key-value store

What can happen next: a client call at some node, a node that updates its ring or
handles its queue, a message that is received or lost, a tick of the clock.  The
network delivers each message at most once, to its receiver, in any order.
-/

namespace CloudComputing.KeyValueStore

open Lib Relation

inductive Request where
  | create (key value : Str)
  | read (key : Str)
  | update (key value : Str)
  | delete (key : Str)
deriving DecidableEq

def Request.key : Request → Str
  | create key _ | read key | update key _ | delete key => key

inductive Action where
  | client (self : Address) (uninit : ReplicaType) (request : Request)
  | updateRing (self : Address) (memberList : List MemberListEntry)
  | checkMessages (self : Address) (uninit : ReplicaType)
  | receive (p : Packet)
  | lose (p : Packet)
  | tick

def Action.node : Action → Option Address
  | .client self _ _ | .updateRing self _ | .checkMessages self _ => some self
  | .receive p => some p.dst
  | .lose _ | .tick => none

namespace World

/-- The start of the program: nothing stored, nothing sent, no ring yet. -/
def initial : World where
  node := fun _ => MP2Node.new
  transID := 0
  currtime := 0
  net := []
  trace := []

variable (hash : Str → Nat)

def client (self : Address) (uninit : ReplicaType) (request : Request) (w : World) :
    Option World :=
  match request with
  | .create key value => w.clientCreate hash uninit self key value
  | .read key => w.clientRead hash uninit self key
  | .update key value => w.clientUpdate hash uninit self key value
  | .delete key => w.clientDelete hash uninit self key

/-- `recvLoop` for one message: it leaves the network and enters the queue of its receiver. -/
def receive (p : Packet) (w : World) : World :=
  { w with net := w.net.erase p }.modifyNode p.dst fun n => { n with mp2q := n.mp2q ++ [p.data] }

def lose (p : Packet) (w : World) : World :=
  { w with net := w.net.erase p }

def step (w : World) : Action → Option World
  | .client self uninit request => w.client hash self uninit request
  | .updateRing self memberList => w.updateRing hash self memberList
  | .checkMessages self uninit => w.checkMessages hash uninit self
  | .receive p => if p ∈ w.net then some (w.receive p) else none
  | .lose p => if p ∈ w.net then some (w.lose p) else none
  | .tick => some { w with currtime := w.currtime + 1 }

section Inversion

variable {hash} {w w' : World} {p : Packet}

theorem step_receive (h : w.step hash (.receive p) = some w') : p ∈ w.net ∧ w' = w.receive p := by
  obtain ⟨hp, h⟩ := Option.ite_none_right_eq_some.mp h
  exact ⟨hp, (Option.some.inj h).symm⟩

theorem step_lose (h : w.step hash (.lose p) = some w') : p ∈ w.net ∧ w' = w.lose p := by
  obtain ⟨hp, h⟩ := Option.ite_none_right_eq_some.mp h
  exact ⟨hp, (Option.some.inj h).symm⟩

end Inversion

/-- `r w w'` when an action that `ok` allows leads from `w` to `w'`; `g_transID` does not
overflow. -/
def Allowed (ok : World → Action → Prop) (w w' : World) : Prop :=
  ∃ a, ok w a ∧ w.step hash a = some w' ∧ w'.transID < 2 ^ 31

/-- Runs of allowed actions. -/
def Steps (ok : World → Action → Prop) : World → World → Prop :=
  ReflTransGen (Allowed hash ok)

theorem Steps.mono {ok ok' : World → Action → Prop} {w w' : World}
    (hmono : ∀ w a, ok w a → ok' w a) (h : Steps hash ok w w') : Steps hash ok' w w' :=
  h.lift id fun _ _ ⟨a, hok, hstep⟩ => ⟨a, hmono _ a hok, hstep⟩

def Anything : World → Action → Prop := fun _ _ => True

def run (actions : List Action) (w : World) : Option World :=
  actions.foldlM (fun w a => w.step hash a) w

/-! ## Executable runs -/

instance {w : World} {a : Action} : Decidable (Anything w a) := inferInstanceAs (Decidable True)

section Follow

variable (ok : World → Action → Prop) [∀ w a, Decidable (ok w a)]

/-- Take the actions one after the other, as long as they are allowed. -/
def follow (actions : List Action) (w : World) : Option World :=
  actions.foldlM (fun w a =>
    if ok w a then (w.step hash a).filter fun w' => w'.transID < 2 ^ 31 else none) w

variable {hash ok}

theorem steps_of_follow {actions : List Action} {w w' : World}
    (h : w.follow hash ok actions = some w') : Steps hash ok w w' := by
  refine (foldlM_invariant (P := fun _ v => Steps hash ok w v) ?_ .refl h)
  intro a rest v v' hv hstep
  obtain ⟨hok, hstep⟩ := Option.ite_none_right_eq_some.mp hstep
  obtain ⟨hstep, hlt⟩ := Option.filter_eq_some_iff.mp hstep
  exact hv.tail ⟨a, hok, hstep, of_decide_eq_true hlt⟩

theorem follow_append {l l' : List Action} {w v w' : World} (h : w.follow hash ok l = some v)
    (h' : v.follow hash ok l' = some w') : w.follow hash ok (l ++ l') = some w' := by
  unfold follow at h h' ⊢
  rw [List.foldlM_append, h]
  exact h'

end Follow

end World

/-! ## A small system

Nodes whose hash code is their id; that of a key is the code of its first letter. -/

def sampleHash (s : Str) : Nat :=
  (s.head?.map Char.toNat).getD 0

def sampleNode (i : Nat) : Address := ⟨Int32.ofNat i, 0⟩

def members (ids : List Nat) : List MemberListEntry :=
  ids.map fun i => ⟨Int32.ofNat i, 0, 0, 0⟩

def sampleMembers (n : Nat) : List MemberListEntry :=
  (List.range n).map fun i => ⟨Int32.ofNat (i + 1), 0, 0, 0⟩

def Message.packet (m : Message) (dst : Address) : Packet := ⟨m.fromAddr, dst, m.toString⟩

end CloudComputing.KeyValueStore
