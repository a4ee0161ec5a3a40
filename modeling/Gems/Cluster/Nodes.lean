import Gems.Cluster.Replay
import Gems.Raft.System

set_option autoImplicit false

namespace Gems.Cluster

open Lib Prog Catalog Engine Storage Raft

/-- A cluster of run_engine loops, each with its Store. -/
structure Nodes where
  system : System LogRecord
  stores : NodeId → Store
  -- What take_newly_committed has handed out and the loop has not applied yet.
  pending : NodeId → List LogRecord
  -- No part of the program: the most entries that each store was ever given.
  reached : NodeId → Nat

-- `core` stands for one pass of the loop up to its applications, or for a stop and a start of the process.
inductive LoopEvent where
  | core (event : Raft.Event LogRecord)
  | apply (id : NodeId)

namespace Nodes

def create (os : PageSize) (cfg : Raft.Cluster) : Except Fault Nodes := do
  let store ← Store.create os
  pure { system := System.init cfg, stores := fun _ => store, pending := fun _ => [], reached := fun _ => 0 }

-- How many entries of its log the node has given to its store since it was started.
def applied (n : Nodes) (id : NodeId) : Nat := (n.system.nodes id).lastApplied - (n.pending id).length

-- The loop comes back to its channel only when everything it took is applied.
def turn (cfg : Raft.Cluster) (event : Raft.Event LogRecord) (n : Nodes) : Option (Except Fault Unit × Nodes) :=
  (n.system.local_ cfg event).bind fun (id, _, _) =>
    if (n.pending id).isEmpty then (n.system.act cfg event).map fun system => (.ok (), { n with system }) else none

def take (cfg : Raft.Cluster) (id : NodeId) (n : Nodes) : Option (Except Fault Unit × Nodes) :=
  if (n.pending id).isEmpty then
    (n.system.nodes id).takeNewlyCommitted.bind fun (_, entries) =>
      (n.system.act cfg (.takeNewlyCommitted id)).map fun system =>
        (.ok (), { n with system, pending := Function.update n.pending id (entries.map (·.command)) })
  else none

-- `spawn` on the files that are there: the Store is opened, and term, vote and log are loaded.
def restart (cfg : Raft.Cluster) (os : PageSize) (fuel : Nat) (id : NodeId) (electionTimeout : Nat) (n : Nodes) :
    Option (Except Fault Unit × Nodes) :=
  (n.system.act cfg (.restart id electionTimeout)).map fun system =>
    match Store.openDir os fuel (n.stores id).onDisk with
    | .ok store =>
      (.ok (), { n with
        system
        stores := Function.update n.stores id store
        pending := Function.update n.pending id [] })
    | .error e => (.error e, n)

def apply (os : PageSize) (fuel : Nat) (id : NodeId) (n : Nodes) : Option (Except Fault Unit × Nodes) :=
  match n.pending id with
  | [] => none
  | command :: rest =>
    match applyToStore os fuel command (n.stores id) with
    | (result, store) =>
      some (result,
        { n with
          stores := Function.update n.stores id store
          pending := Function.update n.pending id rest
          reached := Function.update n.reached id (max (n.reached id) (n.applied id + 1)) })

-- `none` when the event cannot happen, or when RaftCore panics.
def exec (cfg : Raft.Cluster) (os : PageSize) (fuel : Nat) (n : Nodes) : LoopEvent → Option (Except Fault Unit × Nodes)
  | .core (.takeNewlyCommitted id) => n.take cfg id
  | .core (.restart id electionTimeout) => n.restart cfg os fuel id electionTimeout
  | .core event => n.turn cfg event
  | .apply id => if id ∈ cfg.members then n.apply os fuel id else none

def run (cfg : Raft.Cluster) (os : PageSize) (fuel : Nat) : List LoopEvent → Nodes → Option (Except Fault Unit × Nodes)
  | [], n => some (.ok (), n)
  | event :: rest, n =>
    match n.exec cfg os fuel event with
    | some (.ok (), n') => run cfg os fuel rest n'
    | ended => ended

end Nodes

end Gems.Cluster
