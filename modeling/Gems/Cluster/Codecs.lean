import Gems.Gossip.Wire
import Gems.Raft.State

set_option autoImplicit false

namespace Gems.Cluster

open Lib

-- A log in the state file comes back whole exactly when its length fits the 32 bits of its count.
theorem state_reads_back {term : Nat} {votedFor : Option Raft.NodeId} {log : List (Raft.LogEntry LogRecord)}
    (termFits : term < 2 ^ 64) (voteFits : ∀ id ∈ votedFor, id < 2 ^ 32)
    (typed : ∀ entry ∈ log, Raft.Wire.LogEntry.Typed entry)
    (texts : ∀ entry ∈ log, entry.command.TextsFit)
    (fits : ∀ entry ∈ log, entry.command.payload.length ≤ maxFrameLen) :
    Raft.RaftState.decode (Raft.RaftState.encode term votedFor log) = .ok (term, votedFor, log) ↔
      log.length < 2 ^ 32 := by
  rw [Raft.RaftState.decode_encode termFits voteFits typed fits,
    Raft.Wire.map_stored fun entry mem => texts entry (List.mem_of_mem_take mem)]
  constructor
  · intro same
    have logs : log.take (log.length % 2 ^ 32) = log := by
      simpa only [Except.ok.injEq, Prod.mk.injEq, true_and] using same
    have kept := congrArg List.length logs
    rw [List.length_take, min_eq_left (Nat.mod_le _ _)] at kept
    exact kept ▸ Nat.mod_lt _ (by decide)
  · intro small
    rw [Nat.mod_eq_of_lt small, List.take_length]

/-- A framed record or envelope is read back off the front of a stream and never from a part of its
frame; a state file is read back as long as its count holds the number of entries. -/
theorem codecs_read_back (secret : List UInt8) :
    (∀ record : LogRecord, record.TextsFit → record.payload.length ≤ maxFrameLen →
      Streams LogRecord.decode record.encode record) ∧
    (∀ envelope : Raft.Wire.Message, Raft.Wire.Typed envelope →
      (∀ command ∈ Raft.Wire.Rpc.commands envelope.rpc, command.TextsFit) →
      (Raft.Wire.payload envelope).length ≤ maxFrameLen →
      Streams (Raft.Wire.decode · secret) (Raft.Wire.encode envelope secret) envelope) ∧
    (∀ envelope : Gossip.Envelope, Gossip.Wire.Typed envelope →
      (Gossip.Wire.payload envelope).length ≤ maxFrameLen →
      Streams (Gossip.Wire.decode · secret) (Gossip.Wire.encode envelope secret) envelope) ∧
    (∀ term votedFor log, term < 2 ^ 64 → (∀ id ∈ votedFor, id < 2 ^ 32) →
      (∀ entry ∈ log, Raft.Wire.LogEntry.Typed entry) → (∀ entry ∈ log, entry.command.TextsFit) →
      (∀ entry ∈ log, entry.command.payload.length ≤ maxFrameLen) →
      (Raft.RaftState.decode (Raft.RaftState.encode term votedFor log) = .ok (term, votedFor, log) ↔
        log.length < 2 ^ 32)) := by
  refine ⟨fun record texts fits => ?_, fun envelope typed texts fits => ?_,
    fun envelope typed fits => Gossip.Wire.streams typed fits,
    fun term votedFor log termFits voteFits typed texts fits =>
      state_reads_back termFits voteFits typed texts fits⟩
  · have stream := LogRecord.streams fits
    rwa [LogRecord.stored_of_fit texts] at stream
  · have stream : Streams (Raft.Wire.decode · secret) _ _ := Raft.Wire.streams typed fits
    rwa [Raft.Wire.stored_of_fit texts] at stream

def shipped : LogRecord := .insert (.new (.fromBytes []) .nil "widget" .data .nil) [1, 2, 3]

def shippedLog : List (Raft.LogEntry LogRecord) := [⟨2, shipped⟩, ⟨3, .delete .nil⟩]

def request : Raft.Wire.Message := ⟨1, 2, .appendEntriesRequest 3 1 4 2 shippedLog 4⟩

def rumour : Gossip.Envelope := ⟨1, 2, .ping 5 0 [⟨3, .suspect, 1⟩, ⟨2, .alive, 0⟩]⟩

theorem shipped_fits : shipped.TextsFit := ⟨by decide, by decide⟩

/-- An insert by itself, in an AppendEntriesRequest and in a state file, and two rumours. -/
theorem codecs_read_back_request :
    Streams LogRecord.decode shipped.encode shipped ∧
    Streams (Raft.Wire.decode · [7]) (Raft.Wire.encode request [7]) request ∧
    Streams (Gossip.Wire.decode · [7]) (Gossip.Wire.encode rumour [7]) rumour ∧
    Raft.RaftState.decode (Raft.RaftState.encode 3 (some 1) shippedLog) = .ok (3, some 1, shippedLog) := by
  obtain ⟨records, requests, rumours, states⟩ := codecs_read_back [7]
  refine ⟨records shipped shipped_fits (by decide +kernel), requests request (by decide) ?_ (by decide +kernel),
    rumours rumour ⟨by decide, by decide, by decide, by decide, ?_⟩ (by decide),
    (states 3 (some 1) shippedLog (by decide) ?_ ?_ ?_ ?_).mpr (by decide)⟩
  · exact List.forall_mem_cons.mpr ⟨shipped_fits, List.forall_mem_singleton.mpr trivial⟩
  · exact List.forall_mem_cons.mpr ⟨⟨by decide, by decide⟩, List.forall_mem_singleton.mpr ⟨by decide, by decide⟩⟩
  · intro id mem
    cases mem
    decide
  · exact List.forall_mem_cons.mpr ⟨(by decide : 2 < 2 ^ 64), List.forall_mem_singleton.mpr (by decide : 3 < 2 ^ 64)⟩
  · exact List.forall_mem_cons.mpr ⟨shipped_fits, List.forall_mem_singleton.mpr trivial⟩
  · exact List.forall_mem_cons.mpr ⟨by decide +kernel, List.forall_mem_singleton.mpr (by decide)⟩

def lost : Raft.LogEntry LogRecord := ⟨1, .delete (Tuid.fromBytes [])⟩

-- With 2^32 entries the count is written as zero and the log comes back empty.
theorem long_log_lost :
    ¬ ((∀ entry ∈ List.replicate (2 ^ 32) lost, Raft.Wire.LogEntry.Typed entry ∧ entry.command.TextsFit ∧
          entry.command.payload.length ≤ maxFrameLen) →
        Raft.RaftState.decode (Raft.RaftState.encode 1 none (List.replicate (2 ^ 32) lost)) =
          .ok (1, none, List.replicate (2 ^ 32) lost)) := by
  intro claimed
  have each : ∀ entry ∈ List.replicate (2 ^ 32) lost, Raft.Wire.LogEntry.Typed entry ∧
      entry.command.TextsFit ∧ entry.command.payload.length ≤ maxFrameLen := by
    intro entry mem
    rw [List.eq_of_mem_replicate mem]
    exact ⟨(by decide : 1 < 2 ^ 64), trivial, by decide⟩
  have short := (state_reads_back (by decide) (fun id mem => by cases mem) (fun e mem => (each e mem).1)
    (fun e mem => (each e mem).2.1) fun e mem => (each e mem).2.2).mp (claimed each)
  rw [List.length_replicate] at short
  exact lt_irrefl _ short

end Gems.Cluster
