import Mathlib.Order.Lattice
import Mathlib.Order.Nat
import Mathlib.Data.List.Basic
import Mathlib.Logic.Function.Basic

set_option autoImplicit false

namespace Gems.Gossip

-- Ids are u32 and only compared; an incarnation is a u64 that moves by one at a refutation.
abbrev NodeId := Nat

inductive Status where
  | alive | suspect | dead
  deriving DecidableEq, Repr

def Status.severity : Status → Nat
  | .alive => 0
  | .suspect => 1
  | .dead => 2

theorem Status.severity_injective : Function.Injective severity := by
  intro a b same
  cases a <;> cases b <;> first | rfl | cases same

instance : LinearOrder Status := LinearOrder.lift' Status.severity Status.severity_injective

structure Member where
  status : Status
  incarnation : Nat
  deriving DecidableEq, Repr

structure GossipItem where
  member : NodeId
  status : Status
  incarnation : Nat
  deriving DecidableEq, Repr

def gossipRetransmitCount : Nat := 4

def maxGossipPerMessage : Nat := 8

inductive SwimMessage where
  | ping (seq senderIncarnation : Nat) (gossip : List GossipItem)
  | ack (seq senderIncarnation : Nat) (gossip : List GossipItem)
  deriving DecidableEq, Repr

structure Envelope where
  from_ : NodeId
  to_ : NodeId
  message : SwimMessage
  deriving DecidableEq, Repr

structure AwaitingAck where
  target : NodeId
  seq : Nat
  ticksWaited : Nat

structure GossipQueueItem where
  item : GossipItem
  remainingSends : Nat

-- `suspectElapsed` is a hash map: its order is whatever the map iterates in.
structure SwimCore where
  id : NodeId
  incarnation : Nat
  members : NodeId → Option Member
  pingOrder : List NodeId
  nextPingIdx : Nat
  nextSeq : Nat
  protocolPeriod : Nat
  periodElapsed : Nat
  pingTimeout : Nat
  suspicionTimeout : Nat
  awaitingAck : Option AwaitingAck
  suspectElapsed : List (NodeId × Nat)
  gossipQueue : List GossipQueueItem

namespace SwimCore

def new (id : NodeId) (peers : List NodeId) (protocolPeriod pingTimeout suspicionTimeout : Nat) :
    SwimCore :=
  { id
    incarnation := 0
    members := fun m => if m = id ∨ m ∈ peers then some ⟨.alive, 0⟩ else none
    pingOrder := peers
    nextPingIdx := 0
    nextSeq := 0
    protocolPeriod
    periodElapsed := 0
    pingTimeout
    suspicionTimeout
    awaitingAck := none
    suspectElapsed := []
    gossipQueue := [] }

def statusOf (s : SwimCore) (id : NodeId) : Option Status := (s.members id).map Member.status

def insertMember (s : SwimCore) (id : NodeId) (m : Member) : SwimCore :=
  { s with members := Function.update s.members id (some m) }

def suspectRemove (s : SwimCore) (id : NodeId) : SwimCore :=
  { s with suspectElapsed := s.suspectElapsed.filter fun e => e.1 ≠ id }

def suspectInsert (s : SwimCore) (id : NodeId) : SwimCore :=
  { s with suspectElapsed := (id, 0) :: (s.suspectRemove id).suspectElapsed }

-- Only the freshest item about a member stays queued.
def queueGossip (s : SwimCore) (item : GossipItem) : SwimCore :=
  { s with
    gossipQueue := (s.gossipQueue.filter fun g => g.item.member ≠ item.member) ++
      [{ item, remainingSends := gossipRetransmitCount }] }

def takeGossip (s : SwimCore) : SwimCore × List GossipItem :=
  let taken := s.gossipQueue.take maxGossipPerMessage
  let again := taken.map fun g => { g with remainingSends := g.remainingSends - 1 }
  ({ s with
    gossipQueue := (again.filter fun g => 0 < g.remainingSends) ++
      s.gossipQueue.drop maxGossipPerMessage },
    taken.map GossipQueueItem.item)

def maybeRefuteSelf (s : SwimCore) (incoming : GossipItem) : SwimCore × Bool :=
  if incoming.status = .alive ∨ incoming.incarnation < s.incarnation then (s, false)
  else
    let incarnation := incoming.incarnation + 1
    let s := { s with incarnation }.insertMember s.id ⟨.alive, incarnation⟩
    (s.queueGossip { member := s.id, status := .alive, incarnation }, true)

-- Whether a fact is more authoritative than the record.
def shouldApply (current : Option Member) (incoming : GossipItem) : Bool :=
  match current with
  | none => true
  | some c =>
    if c.status = .dead then false
    else incoming.incarnation > c.incarnation ∨
      incoming.incarnation = c.incarnation ∧ incoming.status > c.status

def merge (s : SwimCore) (incoming : GossipItem) : SwimCore × Bool :=
  if incoming.member = s.id then s.maybeRefuteSelf incoming
  else if shouldApply (s.members incoming.member) incoming then
    let s := s.insertMember incoming.member ⟨incoming.status, incoming.incarnation⟩
    let s := if incoming.status = .suspect then s.suspectInsert incoming.member
      else s.suspectRemove incoming.member
    (s.queueGossip incoming, true)
  else (s, false)

-- The search of next_ping_target over `turns` candidates; the index always stays in range.
def findPingTarget : Nat → SwimCore → SwimCore × Option NodeId
  | 0, s => (s, none)
  | turns + 1, s =>
    match s.pingOrder[s.nextPingIdx]? with
    | none => (s, none)
    | some candidate =>
      let s := { s with nextPingIdx := (s.nextPingIdx + 1) % s.pingOrder.length }
      if s.statusOf candidate ≠ some .dead then (s, some candidate) else findPingTarget turns s

def nextPingTarget (s : SwimCore) : SwimCore × Option NodeId := findPingTarget s.pingOrder.length s

-- The suspicion of `id` has run out.
def expire (s : SwimCore) (id : NodeId) : SwimCore :=
  let s := s.suspectRemove id
  match s.members id with
  | some m =>
    if m.status = .suspect then
      (s.insertMember id { m with status := .dead }).queueGossip
        { member := id, status := .dead, incarnation := m.incarnation }
    else s
  | none => s

def ageSuspicions (s : SwimCore) : SwimCore :=
  let aged := s.suspectElapsed.map fun e => (e.1, e.2 + 1)
  let timedOut := (aged.filter fun e => e.2 ≥ s.suspicionTimeout).map Prod.fst
  timedOut.foldl expire { s with suspectElapsed := aged }

def agePing (s : SwimCore) : SwimCore :=
  match s.awaitingAck with
  | none => s
  | some awaiting =>
    let ticksWaited := awaiting.ticksWaited + 1
    if ticksWaited ≥ s.pingTimeout then
      let s := { s with awaitingAck := none }
      match s.members awaiting.target with
      | some m =>
        if m.status = .alive then
          (s.merge { member := awaiting.target, status := .suspect, incarnation := m.incarnation }).1
        else s
      | none => s
    else { s with awaitingAck := some { awaiting with ticksWaited } }

def startPing (s : SwimCore) : SwimCore × List Envelope :=
  let s := { s with periodElapsed := s.periodElapsed + 1 }
  if s.periodElapsed ≥ s.protocolPeriod ∧ s.awaitingAck.isNone then
    let (s, target) := nextPingTarget { s with periodElapsed := 0 }
    match target with
    | none => (s, [])
    | some target =>
      let seq := s.nextSeq + 1
      let s := { s with nextSeq := seq, awaitingAck := some { target, seq, ticksWaited := 0 } }
      let (s, gossip) := s.takeGossip
      (s, [{ from_ := s.id, to_ := target, message := .ping seq s.incarnation gossip }])
  else (s, [])

def tick (s : SwimCore) : SwimCore × List Envelope := s.ageSuspicions.agePing.startPing

def mergeAll (s : SwimCore) (facts : List GossipItem) : SwimCore :=
  facts.foldl (fun s item => (s.merge item).1) s

def receive (s : SwimCore) (envelope : Envelope) : SwimCore × List Envelope :=
  let sender := envelope.from_
  match envelope.message with
  | .ping seq senderIncarnation gossip =>
    let fact := { member := sender, status := .alive, incarnation := senderIncarnation }
    let s := s.mergeAll (fact :: gossip)
    let (s, gossip) := s.takeGossip
    (s, [{ from_ := s.id, to_ := sender, message := .ack seq s.incarnation gossip }])
  | .ack seq senderIncarnation gossip =>
    let fact := { member := sender, status := .alive, incarnation := senderIncarnation }
    let s := s.mergeAll (fact :: gossip)
    match s.awaitingAck with
    | some awaiting =>
      if awaiting.target = sender ∧ awaiting.seq = seq then ({ s with awaitingAck := none }, [])
      else (s, [])
    | none => (s, [])

end SwimCore

end Gems.Gossip
