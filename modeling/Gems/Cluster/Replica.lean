import Gems.Cluster.InStep
import Gems.Lib.Text

set_option autoImplicit false

namespace Gems.Cluster

open Lib Prog Catalog Engine Storage

structure Replica where
  store : Store
  offsetFile : Option (List Char)

-- The text goes to the file in one write, after the file was emptied.
inductive Save where
  | succeeds
  -- An error, or a stop, before the file is opened.
  | skipped
  -- Between the opening and the write.
  | emptied

namespace ReplicaClient

def loadOffset (file : Option (List Char)) : Nat := (file.bind fun text => parseUnsigned 64 (trim text)).getD 0

def saveOffset (offset : Nat) (file : Option (List Char)) : Save → Except Fault Unit × Option (List Char)
  | .succeeds => (.ok (), some (decimal offset))
  | .skipped => (.error (.raised .io), file)
  | .emptied => (.error (.raised .io), some [])

def request (offset : Nat) : List Char := "SYNC ".toList ++ decimal offset ++ ['\n']

def chunkLen : Nat := 4096

end ReplicaClient

namespace ReplicationServer

def parseRequest (line : List Char) : Except Fault Nat :=
  match ((trim line).dropPrefix? "SYNC ".toList).bind (parseUnsigned 64) with
  | some offset => .ok offset
  | none => .error (invalid "expected 'SYNC <offset>' as the first line")

end ReplicationServer

structure Connection where
  offset : Nat
  buf : List UInt8
  applied : Nat
  stopAfter : Option Nat
  -- How far the server has read the log.
  pos : Nat
  -- Written by the server and not read by the replica yet.
  wire : List UInt8

structure Shipping where
  primary : PrimaryStore
  replica : Replica
  connection : Option Connection
  -- Every record that was applied, and what came of the save after it.
  history : List (LogRecord × Save)

inductive ShippingEvent where
  | primary (command : LogRecord)
  | primaryReopens
  | connect (stopAfter : Option Nat)
  -- The server reads the log, as it was when it had so many bytes.
  | serve (seen : Nat)
  | read (most : Nat)
  | apply (save : Save)
  -- Either side closes the connection, it breaks, or a read times out.
  | disconnect
  -- The replica is stopped, and the next one opens its files.
  | replicaReopens

namespace Shipping

def create (os : PageSize) : Except Fault Shipping := do
  let primary ← PrimaryStore.create os
  let store ← Store.create os
  pure { primary, replica := { store, offsetFile := none }, connection := none, history := [] }

-- `sync` up to its loop, and `handle_connection` up to its own.
def connect (stopAfter : Option Nat) (s : Shipping) : Shipping :=
  let offset := ReplicaClient.loadOffset s.replica.offsetFile
  match ReplicationServer.parseRequest (ReplicaClient.request offset) with
  | .ok pos => { s with connection := some { offset, buf := [], applied := 0, stopAfter, pos, wire := [] } }
  | .error _ => s

-- One pass of the loop of `handle_connection`.
def serve (seen : Nat) (s : Shipping) (c : Connection) : Shipping :=
  match ReplicationLog.readRawFrom (s.primary.log.take seen) c.pos with
  | .ok (raw, pos) => { s with connection := some { c with pos, wire := c.wire ++ raw } }
  | .error _ => s

-- The read of the outer loop of `sync`, which comes when the inner loop finds no record.
def read (most : Nat) (s : Shipping) (c : Connection) : Shipping :=
  match LogRecord.decode c.buf with
  | .ok none =>
    let n := min most ReplicaClient.chunkLen
    { s with connection := some { c with buf := c.buf ++ c.wire.take n, wire := c.wire.drop n } }
  | _ => s

-- One pass of the inner loop.
def apply (os : PageSize) (fuel : Nat) (save : Save) (s : Shipping) (c : Connection) :
    Except Fault Unit × Shipping :=
  match LogRecord.decode c.buf with
  | .error _ => (.ok (), { s with connection := none })
  | .ok none => (.ok (), s)
  | .ok (some (record, consumed)) =>
    match (record.apply os fuel).run s.replica.store with
    | (.error (.raised _), store) =>
      (.ok (), { s with replica := { s.replica with store }, connection := none })
    | (.error e, store) => (.error e, { s with replica := { s.replica with store } })
    | (.ok (), store) =>
      let offset := c.offset + consumed
      let (saved, offsetFile) := ReplicaClient.saveOffset offset s.replica.offsetFile save
      let s := { s with replica := { store, offsetFile }, history := s.history ++ [(record, save)] }
      let applied := c.applied + 1
      match saved with
      | .error _ => (.ok (), { s with connection := none })
      | .ok () =>
        if c.stopAfter.any (· ≤ applied) then (.ok (), { s with connection := none })
        else (.ok (), { s with connection := some { c with offset, buf := c.buf.drop consumed, applied } })

def reopenReplica (os : PageSize) (fuel : Nat) (s : Shipping) : Except Fault Unit × Shipping :=
  match Store.openDir os fuel s.replica.store.onDisk with
  | .ok store => (.ok (), { s with replica := { s.replica with store }, connection := none })
  | .error e => (.error e, s)

def onPrimary (os : PageSize) (fuel : Nat) (event : PrimaryEvent) (s : Shipping) : Except Fault Unit × Shipping :=
  match PrimaryStore.exec os fuel event s.primary with
  | (result, primary) => (result, { s with primary })

def exec (os : PageSize) (fuel : Nat) (s : Shipping) : ShippingEvent → Except Fault Unit × Shipping
  | .primary command => s.onPrimary os fuel (.call command)
  | .primaryReopens => s.onPrimary os fuel .reopen
  | .connect stopAfter => (.ok (), if s.connection.isNone then s.connect stopAfter else s)
  | .serve seen => (.ok (), s.connection.elim s (s.serve seen))
  | .read most => (.ok (), s.connection.elim s (s.read most))
  | .apply save => s.connection.elim (.ok (), s) (s.apply os fuel save)
  | .disconnect => (.ok (), { s with connection := none })
  | .replicaReopens => s.reopenReplica os fuel

def run (os : PageSize) (fuel : Nat) : List ShippingEvent → Shipping → Except Fault Unit × Shipping
  | [], s => (.ok (), s)
  | event :: rest, s =>
    match s.exec os fuel event with
    | (.ok (), s') => run os fuel rest s'
    | (.error e, s') => (.error e, s')

end Shipping

end Gems.Cluster
