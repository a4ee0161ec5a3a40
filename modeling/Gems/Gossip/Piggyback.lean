import Gems.Gossip.Timers
import Gems.Lib.Outbox

set_option autoImplicit false

namespace Gems.Gossip

open Lib

namespace SwimCore

section Calls

abbrev Calls := List (Outbox.Call GossipItem)

-- What `merge` hands to `queue_gossip`.
def mergeCalls (s : SwimCore) (item : GossipItem) : Calls :=
  if item.member = s.id then
    if item.status = .alive ∨ item.incarnation < s.incarnation then []
    else [.post { member := s.id, status := .alive, incarnation := item.incarnation + 1 }]
  else if shouldApply (s.members item.member) item then [.post item] else []

def mergeAllCalls : SwimCore → List GossipItem → Calls
  | _, [] => []
  | s, item :: rest => s.mergeCalls item ++ (s.merge item).1.mergeAllCalls rest

def expireCalls (s : SwimCore) (id : NodeId) : Calls :=
  match s.members id with
  | some m =>
    if m.status = .suspect then [.post { member := id, status := .dead, incarnation := m.incarnation }] else []
  | none => []

def expireAllCalls : SwimCore → List NodeId → Calls
  | _, [] => []
  | s, id :: rest => s.expireCalls id ++ (s.expire id).expireAllCalls rest

def ageSuspicionsCalls (s : SwimCore) : Calls :=
  let aged := s.suspectElapsed.map fun e => (e.1, e.2 + 1)
  let timedOut := (aged.filter fun e => e.2 ≥ s.suspicionTimeout).map Prod.fst
  expireAllCalls { s with suspectElapsed := aged } timedOut

def agePingCalls (s : SwimCore) : Calls :=
  match s.awaitingAck with
  | none => []
  | some awaiting =>
    if awaiting.ticksWaited + 1 ≥ s.pingTimeout then
      match s.members awaiting.target with
      | some m =>
        if m.status = .alive then
          mergeCalls { s with awaitingAck := none }
            { member := awaiting.target, status := .suspect, incarnation := m.incarnation }
        else []
      | none => []
    else []

def Event.sent (s : SwimCore) : Event → List Envelope
  | tick order => { s with suspectElapsed := order }.tick.2
  | receive envelope => (s.receive envelope).2

def Event.calls (s : SwimCore) : Event → Calls
  | tick order =>
    let start := { s with suspectElapsed := order }
    start.ageSuspicionsCalls ++ (start.ageSuspicions.agePingCalls ++ start.tick.2.map fun _ => .send)
  | receive envelope => s.mergeAllCalls envelope.facts ++ (s.receive envelope).2.map fun _ => .send

def sent : SwimCore → List Event → List Envelope
  | _, [] => []
  | s, event :: rest => event.sent s ++ (event.apply s).sent rest

def calls : SwimCore → List Event → Calls
  | _, [] => []
  | s, event :: rest => event.calls s ++ (event.apply s).calls rest

end Calls

def outbox (s : SwimCore) : Outbox GossipItem := s.gossipQueue.map fun g => (g.item, g.remainingSends)

def Own (s : SwimCore) : Prop := s.members s.id = some ⟨.alive, s.incarnation⟩

/-- What a stretch of the code does to the queue: the calls, and the messages they make. -/
structure Told (s s' : SwimCore) (calls : Calls) (messages : List (List GossipItem)) : Prop where
  id : s'.id = s.id
  own : s'.Own
  queue : Outbox.run GossipItem.member gossipRetransmitCount maxGossipPerMessage s.outbox calls = (s'.outbox, messages)
  grows : ∀ m, s.record m ≤ s'.record m
  news : ∀ f, .post f ∈ calls → s.record f.member < (f.rank : Rank) ∧ (f.rank : Rank) ≤ s'.record f.member
  rising : Outbox.Rising GossipItem.member GossipItem.rank calls

section Steps

variable {s s' s'' : SwimCore} {item : GossipItem} {told told' : Calls} {messages messages' : List (List GossipItem)}

theorem outbox_queueGossip :
    (s.queueGossip item).outbox = Outbox.post GossipItem.member gossipRetransmitCount s.outbox item := by
  rw [outbox, queueGossip, Outbox.post, outbox, List.filter_map, List.map_append]
  rfl

theorem outbox_takeGossip : s.takeGossip.1.outbox = Outbox.send maxGossipPerMessage s.outbox := by
  have counted (taken : List GossipQueueItem) :
      ((taken.map fun g => { g with remainingSends := g.remainingSends - 1 }).filter fun g => 0 < g.remainingSends).map
        (fun g => (g.item, g.remainingSends)) =
      ((taken.map fun g => (g.item, g.remainingSends)).map fun e => (e.1, e.2 - 1)).filter fun e => 0 < e.2 := by
    rw [List.map_map, List.filter_map, List.filter_map, List.map_map]
    rfl
  rw [outbox, takeGossip, Outbox.send, outbox, List.map_append, counted, List.map_take, List.map_drop]

theorem message_takeGossip : s.takeGossip.2 = Outbox.message maxGossipPerMessage s.outbox := by
  simp only [outbox, takeGossip, Outbox.message, List.map_take, List.map_map]
  rfl

theorem Told.trans (first : Told s s' told messages) (second : Told s' s'' told' messages') :
    Told s s'' (told ++ told') (messages ++ messages') where
  id := second.id.trans first.id
  own := second.own
  queue := by rw [Outbox.run_append, first.queue, second.queue]
  grows := fun m => (first.grows m).trans (second.grows m)
  news := by
    intro f mem
    rcases List.mem_append.mp mem with before | after
    next =>
      obtain ⟨newer, known⟩ := first.news f before
      exact ⟨newer, known.trans (second.grows f.member)⟩
    next =>
      obtain ⟨newer, known⟩ := second.news f after
      exact ⟨(first.grows f.member).trans_lt newer, known⟩
  rising := by
    apply List.pairwise_append.mpr
    refine ⟨first.rising, second.rising, ?_⟩
    rintro c before d after f f' rfl rfl same
    have known := (first.news f before).2
    have newer := (second.news f' after).1
    change f.member = f'.member at same
    rw [same] at known
    exact WithBot.coe_lt_coe.mp (known.trans_lt newer)

-- Only the members, the incarnation and the queue matter.
theorem Told.quiet (own : s.Own) (id : s'.id = s.id) (incarnation : s'.incarnation = s.incarnation)
    (members : s'.members = s.members) (queue : s'.gossipQueue = s.gossipQueue) : Told s s' [] [] where
  id := id
  own := by rw [Own, members, id, incarnation, own]
  queue := by
    rw [outbox, outbox, queue]
    rfl
  grows := fun m => (record_eq_of_members (congrFun members m)).ge
  news := by simp
  rising := List.Pairwise.nil

theorem Told.learn (own : s'.Own) (id : s'.id = s.id)
    (members : s'.members = Function.update s.members item.member (some ⟨item.status, item.incarnation⟩))
    (queue : s'.gossipQueue = (s.queueGossip item).gossipQueue) (newer : s.record item.member < (item.rank : Rank)) :
    Told s s' [.post item] [] := by
  have here : s'.members item.member = some ⟨item.status, item.incarnation⟩ := by
    rw [members, Function.update_self]
  have learned : s'.record item.member = (item.rank : Rank) := record_some here
  refine ⟨id, own, ?_, ?_, ?_, List.pairwise_singleton _ _⟩
  next =>
    have same : s'.outbox = (s.queueGossip item).outbox := by rw [outbox, outbox, queue]
    rw [same, outbox_queueGossip]
    rfl
  next =>
    intro m
    by_cases same : m = item.member
    next =>
      rw [same, learned]
      exact newer.le
    next => exact (record_eq_of_members (by rw [members, Function.update_of_ne same])).ge
  next =>
    intro f mem
    obtain rfl : f = item := by simpa using mem
    exact ⟨newer, learned.ge⟩

theorem Told.take (own : s.Own) : Told s s.takeGossip.1 [.send] [s.takeGossip.2] where
  id := rfl
  own := own
  queue := by
    rw [outbox_takeGossip, message_takeGossip]
    rfl
  grows := fun m => le_rfl
  news := by simp
  rising := List.pairwise_singleton _ _

end Steps

section Runs

def attached (messages : List Envelope) (f : GossipItem) : Nat :=
  messages.countP fun envelope => f ∈ envelope.message.gossip

end Runs

end SwimCore

end Gems.Gossip
