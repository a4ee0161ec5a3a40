import Gems.Raft.Core
import Mathlib.Data.List.Nodup

set_option autoImplicit false

namespace Gems.Raft

/-- A fixed cluster: every node is configured with exactly the other members as its peers. -/
structure Cluster where
  members : Finset NodeId
  peers : NodeId → List NodeId
  electionTimeout : NodeId → Nat
  heartbeatInterval : NodeId → Nat
  peers_nodup : ∀ id, (peers id).Nodup
  mem_peers : ∀ id ∈ members, ∀ p, p ∈ peers id ↔ p ∈ members ∧ p ≠ id

-- `net` keeps every envelope ever sent: delivery picks any of them, any number of times, in any order.
structure System (Cmd : Type) where
  nodes : NodeId → RaftCore Cmd
  net : List (Envelope Cmd)

inductive Event (Cmd : Type) where
  | tick (id : NodeId)
  | propose (id : NodeId) (command : Cmd)
  | receive (index : Nat)
  | takeNewlyCommitted (id : NodeId)
  | setElectionTimeout (id : NodeId) (ticks : Nat)
  | restart (id : NodeId) (electionTimeout : Nat)

namespace System

variable {Cmd : Type}

def init (cfg : Cluster) : System Cmd :=
  { nodes := fun id =>
      RaftCore.new id (cfg.peers id) (cfg.electionTimeout id) (cfg.heartbeatInterval id)
    net := [] }

def put (s : System Cmd) (id : NodeId) (c : RaftCore Cmd) (out : List (Envelope Cmd)) : System Cmd :=
  { nodes := Function.update s.nodes id c, net := s.net ++ out }

-- Crash and restart: only the persistent triple survives.
def restarted (cfg : Cluster) (c : RaftCore Cmd) (id : NodeId) (electionTimeout : Nat) : RaftCore Cmd :=
  RaftCore.restore id (cfg.peers id) electionTimeout (cfg.heartbeatInterval id)
    c.persistentState.1 c.persistentState.2.1 c.persistentState.2.2

-- What one member does on an event; `none` when it panics or the event does not exist.
def local_ (cfg : Cluster) (s : System Cmd) :
    Event Cmd → Option (NodeId × RaftCore Cmd × List (Envelope Cmd))
  | .tick id => (s.nodes id).tick.map fun (c, out) => (id, c, out)
  | .propose id command =>
    ((s.nodes id).propose command).map fun
      | .ok (c, _, out) => (id, c, out)
      | .error _ => (id, s.nodes id, [])
  | .receive index =>
    s.net[index]?.bind fun envelope =>
      ((s.nodes envelope.to_).receive envelope).map fun (c, out) => (envelope.to_, c, out)
  | .takeNewlyCommitted id =>
    (s.nodes id).takeNewlyCommitted.map fun (c, _) => (id, c, [])
  | .setElectionTimeout id ticks => some (id, { s.nodes id with electionTimeout := ticks }, [])
  | .restart id electionTimeout =>
    some (id, restarted cfg (s.nodes id) id electionTimeout, [])

def act (cfg : Cluster) (s : System Cmd) (e : Event Cmd) : Option (System Cmd) :=
  (s.local_ cfg e).bind fun (id, c, out) => if id ∈ cfg.members then some (s.put id c out) else none

def exec (cfg : Cluster) : System Cmd → List (Event Cmd) → Option (System Cmd)
  | s, [] => some s
  | s, e :: rest => (s.act cfg e).bind fun s' => exec cfg s' rest

-- The event is addressed to a member and, for a delivery, the envelope exists.
def Enabled (cfg : Cluster) (s : System Cmd) : Event Cmd → Prop
  | .tick id | .propose id _ | .takeNewlyCommitted id | .setElectionTimeout id _ | .restart id _ =>
    id ∈ cfg.members
  | .receive index => ∃ envelope ∈ s.net[index]?, envelope.to_ ∈ cfg.members

instance (cfg : Cluster) (s : System Cmd) (e : Event Cmd) : Decidable (s.Enabled cfg e) :=
  match e with
  | .tick id | .propose id _ | .takeNewlyCommitted id | .setElectionTimeout id _ | .restart id _ =>
    inferInstanceAs (Decidable (id ∈ cfg.members))
  | .receive index =>
    inferInstanceAs (Decidable (∃ envelope ∈ s.net[index]?, envelope.to_ ∈ cfg.members))

theorem exec_append (cfg : Cluster) (s : System Cmd) (es es' : List (Event Cmd)) :
    s.exec cfg (es ++ es') = (s.exec cfg es).bind fun s' => s'.exec cfg es' := by
  induction es generalizing s with
  | nil => rfl
  | cons e rest ih =>
    simp only [List.cons_append, exec]
    cases s.act cfg e with
    | none => rfl
    | some s' => exact ih s'

end System

end Gems.Raft
