import CloudComputing.EmulNet

/-!
# One node of the membership protocol

`MP1Node.cpp`.  A node keeps a list of members with the highest heartbeat heard
of each and the time it was heard, sends its own heartbeat to everyone on the
list every `TFAIL + 1` ticks, passes on any heartbeat higher than the stored
one, and drops members it has not heard of for more than `TREMOVE` ticks.

A handler is a function on `Call`: the node's `Member` together with the
messages given to `ENsend` and the lines given to `Log` so far, in order.
-/

namespace CloudComputing.MembershipProtocol

def tRemove : Int := 20
def tFail : Int := 5

inductive MsgTypes where
  | joinReq
  | joinRep
  | heartbeat
deriving DecidableEq, Repr

/-- The content of a message: type, address, heartbeat. -/
structure Msg where
  msgType : MsgTypes
  addr : Address
  heartbeat : Int
deriving DecidableEq, Repr

/-- `sizeof(MessageHdr) + sizeof(addr) + sizeof(long) + 1`, at all three writers. -/
def msgSize : Nat := 4 + 6 + 8 + 1

structure Member where
  addr : Address
  inited : Bool
  inGroup : Bool
  bFailed : Bool
  nnb : Int
  heartbeat : Int
  pingCounter : Int
  timeOutCounter : Int
  memberList : List MemberListEntry
  mp1q : List Msg
deriving DecidableEq, Repr

/-- `new Member` with the address `ENinit` gave it. -/
def Member.new (addr : Address) : Member where
  addr := addr
  inited := false
  inGroup := false
  bFailed := false
  nnb := 0
  heartbeat := 0
  pingCounter := 0
  timeOutCounter := 0
  memberList := []
  mp1q := []

inductive LogLine where
  | nodeAdd (thisNode addedAddr : Address) (time : Int)
  | nodeRemove (thisNode removedAddr : Address) (time : Int)
deriving DecidableEq, Repr

structure Send where
  toaddr : Address
  msg : Msg
deriving DecidableEq, Repr

structure Call where
  member : Member
  sent : List Send
  log : List LogLine
deriving DecidableEq, Repr

def Member.call (m : Member) : Call := ⟨m, [], []⟩

namespace Call

def enSend (toaddr : Address) (msg : Msg) (c : Call) : Call :=
  { c with sent := c.sent ++ [⟨toaddr, msg⟩] }

/-- `send_heartbeat`: to every member of the list, the sender included. -/
def sendHeartbeat (sourceAddr : Address) (heartbeat : Int) (c : Call) : Call :=
  { c with
      sent := c.sent ++ c.member.memberList.map fun entry =>
        ⟨entry.address, ⟨.heartbeat, sourceAddr, heartbeat⟩⟩ }

end Call

/-- Set heartbeat and timestamp of the first entry for `sourceAddr`. -/
def raiseEntry (now : Int) (sourceAddr : Address) (receivedHeartbeat : Int) :
    List MemberListEntry → List MemberListEntry
  | [] => []
  | entry :: entries =>
      if entry.address = sourceAddr then
        { entry with heartbeat := receivedHeartbeat, timestamp := now } :: entries
      else entry :: raiseEntry now sourceAddr receivedHeartbeat entries

namespace Call

def setMemberList (entries : List MemberListEntry) (c : Call) : Call :=
  { c with member := { c.member with memberList := entries } }

def updateMembership (now : Int) (sourceAddr : Address) (receivedHeartbeat : Int)
    (c : Call) : Call :=
  match c.member.memberList.find? (fun entry => entry.address = sourceAddr) with
  | some entry =>
      if receivedHeartbeat > entry.heartbeat then
        (c.setMemberList (raiseEntry now sourceAddr receivedHeartbeat c.member.memberList)
          ).sendHeartbeat sourceAddr receivedHeartbeat
      else c
  | none =>
      let newEntry : MemberListEntry :=
        ⟨sourceAddr.id, sourceAddr.port, receivedHeartbeat, now⟩
      let added := c.setMemberList (c.member.memberList ++ [newEntry])
      { added with log := added.log ++ [.nodeAdd c.member.addr sourceAddr now] }

/-- What `recvCallBack` does before it updates the membership. -/
def answer (msg : Msg) (c : Call) : Call :=
  match msg.msgType with
  | .joinReq => c.enSend msg.addr ⟨.joinRep, c.member.addr, c.member.heartbeat⟩
  | .joinRep => { c with member := { c.member with inGroup := true } }
  | .heartbeat => c

def recvCallBack (now : Int) (c : Call) (msg : Msg) : Call :=
  (c.answer msg).updateMembership now msg.addr msg.heartbeat

/-- Handle everything in `mp1q`, oldest first. -/
def checkMessages (now : Int) (c : Call) : Call :=
  c.member.mp1q.foldl (recvCallBack now)
    { c with member := { c.member with mp1q := [] } }

/-- The heartbeat part of `nodeLoopOps`. -/
def ping (c : Call) : Call :=
  if c.member.pingCounter = 0 then
    let beaten := { c with member := { c.member with heartbeat := c.member.heartbeat + 1 } }
    let sent := beaten.sendHeartbeat beaten.member.addr beaten.member.heartbeat
    { sent with member := { sent.member with pingCounter := tFail } }
  else { c with member := { c.member with pingCounter := c.member.pingCounter - 1 } }

end Call

/-- The test of the removal loop. -/
def timedOut (now : Int) (entry : MemberListEntry) : Bool :=
  now - entry.timestamp > tRemove

namespace Call

/-- The removal loop of `nodeLoopOps`; it starts behind the first entry. -/
def removeTimedOut (now : Int) (c : Call) : Call :=
  match c.member.memberList with
  | [] => c
  | me :: others =>
      let removed := others.filter (timedOut now)
      let kept := c.setMemberList (me :: others.filter fun entry => !timedOut now entry)
      { kept with
          log := kept.log ++ removed.map fun entry =>
            .nodeRemove c.member.addr entry.address now }

def nodeLoopOps (now : Int) (c : Call) : Call :=
  c.ping.removeTimedOut now

def nodeLoop (now : Int) (c : Call) : Call :=
  if c.member.bFailed then c
  else
    let checked := c.checkMessages now
    if checked.member.inGroup then checked.nodeLoopOps now else checked

/-- `getJoinAddress`. -/
def joinAddr : Address := ⟨1, 0⟩

def initThisNode (now : Int) (c : Call) : Call :=
  let m := c.member
  { c with
      member :=
        { m with
            bFailed := false
            inited := true
            inGroup := false
            nnb := 0
            heartbeat := 0
            pingCounter := tFail
            timeOutCounter := -1
            memberList := [⟨m.addr.id, m.addr.port, 0, now⟩] } }

def introduceSelfToGroup (joinaddr : Address) (c : Call) : Call :=
  if c.member.addr = joinaddr then { c with member := { c.member with inGroup := true } }
  else c.enSend joinaddr ⟨.joinReq, c.member.addr, c.member.heartbeat⟩

def nodeStart (now : Int) (c : Call) : Call :=
  (c.initThisNode now).introduceSelfToGroup joinAddr

end Call

end CloudComputing.MembershipProtocol
