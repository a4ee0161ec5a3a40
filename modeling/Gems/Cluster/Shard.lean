import Gems.Cluster.Record
import Gems.Lib.Acting
import Gems.Raft.Core

set_option autoImplicit false

namespace Gems.Cluster

open Lib Catalog Raft

abbrev ShardId := Nat

structure SocketAddr where
  ip : List UInt8
  port : UInt16
  deriving DecidableEq

structure ShardRouter where
  numShards : UInt32
  positive : 0 < numShards

namespace ShardRouter

def new (numShards : UInt32) : Except Fault ShardRouter :=
  if h : 0 < numShards then .ok ⟨numShards, h⟩ else .error .panicked

def leadingByte (id : Tuid) : Nat := (id.bytes.getD 0 0).toNat

-- The product is one of u32.
def shardOf (router : ShardRouter) (id : Tuid) : Except Fault ShardId :=
  if leadingByte id * router.numShards.toNat < 2 ^ 32 then .ok (leadingByte id * router.numShards.toNat / 256)
  else .error .panicked

end ShardRouter

structure ShardMap where
  shards : ShardId → List (NodeId × SocketAddr)

namespace ShardMap

def new : ShardMap := { shards := fun _ => [] }

def addMember (map : ShardMap) (shard : ShardId) (node : NodeId) (clientAddr : SocketAddr) : ShardMap :=
  { shards := Function.update map.shards shard (map.shards shard ++ [(node, clientAddr)]) }

def members (map : ShardMap) (shard : ShardId) : List (NodeId × SocketAddr) := map.shards shard

end ShardMap

def clientStatusOk : UInt8 := 1

-- How the member that is asked next will answer.
inductive Remote where
  -- No connection, or not all of the request got through.
  | unreachable
  -- No whole response in time.
  | silent
  | answered (status : UInt8) (index : UInt64)

-- The entity that a record is about.
def LogRecord.entityId : LogRecord → Tuid
  | .insert header _ => header.id
  | .delete id => id

/-- What a client of the cluster has sent, what it will be answered, and the ids that will be drawn. -/
structure Session where
  sent : List (SocketAddr × LogRecord)
  replies : Nat → Remote
  fresh : Nat → Tuid

def Session.answer (s : Session) : Session := { s with replies := fun i => s.replies (i + 1) }

def Session.send (addr : SocketAddr) (command : LogRecord) (s : Session) : Session :=
  { s with sent := s.sent ++ [(addr, command)] }

abbrev Client (E A : Type) := Acting Fault E Session A

open Acting

def proposeRemote (addr : SocketAddr) (command : LogRecord) : Client Error UInt64 := do
  let s ← view
  update Session.answer
  match s.replies 0 with
  | .unreachable => raise .io
  | .silent =>
    update (Session.send addr command)
    raise .io
  | .answered status index =>
    update (Session.send addr command)
    if status ≠ clientStatusOk then raise (.invalidValue "target node is not the Raft leader") else return index

structure ShardedClient where
  router : ShardRouter
  map : ShardMap

namespace ShardedClient

def shardOf (client : ShardedClient) (id : Tuid) : Except Fault ShardId := client.router.shardOf id

-- One member after the other, until one accepts.
def tryMembers (command : LogRecord) : List (NodeId × SocketAddr) → Client Error UInt64
  | [] => raise (.invalidValue
      "no member of this entity's shard accepted the proposal (likely mid-election or the shard is unreachable)")
  | (_, addr) :: rest => do
    match ← (proposeRemote addr command).attempt with
    | .ok index => return index
    | .error _ => tryMembers command rest

def propose (client : ShardedClient) (entityId : Tuid) (command : LogRecord) : Client Error UInt64 := do
  let shard ← reading (ExceptT.lift (client.router.shardOf entityId))
  let members := client.map.members shard
  if members.isEmpty then raise (.invalidValue "no configured members for this entity's shard")
  else tryMembers command members

-- One proposal after the other, each for the entity that its record is about.
def proposeAll (client : ShardedClient) (records : List LogRecord) (s : Session) : Session :=
  records.foldl (fun s record => ((client.propose record.entityId record).perform s).2) s

end ShardedClient

end Gems.Cluster
