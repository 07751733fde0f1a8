import Mathlib.Logic.Function.Basic
import CloudComputing.MembershipProtocol.MP1Node

/-!
# The driver of the membership protocol

`Application.cpp`.  All nodes live in one process and share one emulated
network.  In every tick each started node first fetches its messages, then,
from the last node to the first, each node is started or runs `nodeLoop`.  What
the environment decides is in `Environment`: which sends the random draw drops,
and which nodes fail between two ticks.
-/

namespace CloudComputing.MembershipProtocol

open Function

/-- `(int)(STEP_RATE*i)` with `STEP_RATE` `.25`. -/
def startTime (i : Nat) : Nat := i / 4

structure Environment where
  /-- the `k`th call of `ENsend` draws a number below the drop probability -/
  lost : Nat → Bool
  /-- `bFailed` of node `i` is set after tick `t` -/
  fails : Nat → Nat → Bool

/-- The state of the application; `draws` counts the calls of `ENsend` and `refused` those that
returned zero. -/
structure Cluster where
  mp1 : Nat → Member
  en : EmulNet Msg
  nodeCount : Nat
  draws : Nat
  refused : Nat
  log : List LogLine

namespace Cluster

/-- One turn of the constructor's loop. -/
def initNode (c : Cluster) (i : Nat) : Cluster :=
  let (addr, en) := c.en.enInit
  { c with mp1 := update c.mp1 i (Member.new addr), en := en }

/-- The constructor `Application::Application` for a group of `n`. -/
def init (n : Nat) : Cluster :=
  (List.range n).foldl initNode
    { mp1 := fun _ => Member.new ⟨0, 0⟩
      en := EmulNet.new fun _ _ => 0
      nodeCount := 0
      draws := 0
      refused := 0
      log := [] }

def enSend (env : Environment) (t : Nat) (myaddr : Address) (c : Cluster) (s : Send) :
    Cluster :=
  let (en, ret) := c.en.enSend (env.lost c.draws) t myaddr s.toaddr s.msg msgSize
  { c with
      en := en
      draws := c.draws + 1
      refused := if ret = 0 then c.refused + 1 else c.refused }

/-- Run a handler of node `i`: store its new state, send what it sends. -/
def call (env : Environment) (t i : Nat) (f : Call → Call) (c : Cluster) : Cluster :=
  let done := f (c.mp1 i).call
  done.sent.foldl (enSend env t (c.mp1 i).addr)
    { c with mp1 := update c.mp1 i done.member, log := c.log ++ done.log }

/-- The condition of both loops: started before this tick and not failed. -/
def running (t i : Nat) (m : Member) : Bool :=
  decide (t > startTime i) && !m.bFailed

def recvLoop (t : Nat) (c : Cluster) (i : Nat) : Cluster :=
  let (en, found) := c.en.enRecv t (c.mp1 i).addr
  { c with
      en := en
      mp1 := update c.mp1 i
        { c.mp1 i with mp1q := (c.mp1 i).mp1q ++ found.map EnMsg.data } }

/-- The first loop of `mp1Run`. -/
def recvIfRunning (t : Nat) (c : Cluster) (i : Nat) : Cluster :=
  if running t i (c.mp1 i) then c.recvLoop t i else c

/-- The second loop of `mp1Run`. -/
def runNode (env : Environment) (t : Nat) (c : Cluster) (i : Nat) : Cluster :=
  if t = startTime i then
    let started := c.call env t i (Call.nodeStart t)
    { started with nodeCount := started.nodeCount + i }
  else if running t i (c.mp1 i) then c.call env t i (Call.nodeLoop t)
  else c

def mp1Run (env : Environment) (n t : Nat) (c : Cluster) : Cluster :=
  (List.range n).reverse.foldl (runNode env t) ((List.range n).foldl (recvIfRunning t) c)

/-- Nodes that fail between tick `t` and the next. -/
def fail (env : Environment) (t : Nat) (c : Cluster) : Cluster :=
  { c with
      mp1 := fun i =>
        if env.fails t i then { c.mp1 i with bFailed := true } else c.mp1 i }

/-- The state before tick `t`, which is the state at the end of tick `t - 1`. -/
def run (env : Environment) (n : Nat) : Nat → Cluster
  | 0 => init n
  | t + 1 => ((run env n t).mp1Run env n t).fail env t

end Cluster

end CloudComputing.MembershipProtocol
