import Gems.Raft.Wire

set_option autoImplicit false

namespace Gems.Raft

open Gems.Lib Gems.Cluster

namespace RaftState

def encodeVote : Option NodeId → List UInt8
  | some id => [1] ++ littleEndian 4 id
  | none => [0] ++ littleEndian 4 0

-- A length is written as its low 32 bits.
def encode (term : Nat) (votedFor : Option NodeId) (log : List (LogEntry LogRecord)) : List UInt8 :=
  littleEndian 8 term ++ (encodeVote votedFor ++ (littleEndian 4 log.length ++
    log.flatMap Wire.encodeEntry))

def truncated : Fault := invalid "raft state truncated"

def readU8 : Reader Fault UInt8 := Reader.byte truncated

def readU32 : Reader Fault Nat := Reader.number truncated 4

def readU64 : Reader Fault Nat := Reader.number truncated 8

def readCommand : Reader Fault LogRecord := fun buf => do
  match ← LogRecord.decode buf with
  | none => .error (invalid "raft state log entry truncated")
  | some (command, consumed) => .ok (command, buf.drop consumed)

def readLog : Nat → Reader Fault (List (LogEntry LogRecord))
  | 0 => return []
  | count + 1 => do
    let term ← readU64
    let command ← readCommand
    let rest ← readLog count
    return { term, command } :: rest

def readState : Reader Fault (Nat × Option NodeId × List (LogEntry LogRecord)) := do
  let term ← readU64
  let hasVotedFor ← readU8
  let votedForRaw ← readU32
  let entryCount ← readU32
  let left ← get
  if entryCount > left.length / 9 then
    Reader.fail (invalid "raft state entry_count exceeds what the file could hold")
  let log ← readLog entryCount
  return (term, if hasVotedFor != 0 then some votedForRaw else none, log)

-- What follows the last entry is not looked at.
def decode (buf : List UInt8) : Except Fault (Nat × Option NodeId × List (LogEntry LogRecord)) :=
  (readState buf).map Prod.fst

section RoundTrip

variable {term : Nat} {votedFor : Option NodeId} {log : List (LogEntry LogRecord)}

theorem reads_command {command : LogRecord} (fits : command.payload.length ≤ maxFrameLen) :
    Reader.Reads readCommand command.encode command.stored := by
  intro rest
  rw [readCommand, LogRecord.decode_encode fits]
  simp only [bind, Except.bind, List.drop_left]

theorem reads_log (typed : ∀ entry ∈ log, Wire.LogEntry.Typed entry)
    (fits : ∀ entry ∈ log, entry.command.payload.length ≤ maxFrameLen) :
    Reader.Reads (readLog log.length) (log.flatMap Wire.encodeEntry) (log.map Wire.LogEntry.stored) := by
  induction log with
  | nil => exact .pure
  | cons entry rest ih =>
    have later := ih (fun e mem => typed e (List.mem_cons_of_mem _ mem))
      fun e mem => fits e (List.mem_cons_of_mem _ mem)
    rw [List.flatMap_cons, Wire.encodeEntry, List.append_assoc, List.length_cons, readLog]
    exact .bind (.number (typed entry List.mem_cons_self))
      (.bind (reads_command (fits entry List.mem_cons_self)) (later.result _))

theorem encodeVote_eq (voteFits : ∀ id ∈ votedFor, id < 2 ^ 32) :
    ∃ flag raw, encodeVote votedFor = [flag] ++ littleEndian 4 raw ∧ raw < 2 ^ 32 ∧
      (if flag != 0 then some raw else none) = votedFor := by
  cases votedFor with
  | some id => exact ⟨1, id, rfl, voteFits id rfl, rfl⟩
  | none => exact ⟨0, 0, rfl, by decide, rfl⟩

theorem decode_encode (termFits : term < 2 ^ 64) (voteFits : ∀ id ∈ votedFor, id < 2 ^ 32)
    (typed : ∀ entry ∈ log, Wire.LogEntry.Typed entry)
    (fits : ∀ entry ∈ log, entry.command.payload.length ≤ maxFrameLen) :
    decode (encode term votedFor log) =
      .ok (term, votedFor, (log.take (log.length % 2 ^ 32)).map Wire.LogEntry.stored) := by
  obtain ⟨flag, raw, vote, rawFits, meaning⟩ := encodeVote_eq voteFits
  have number : Reader.Reads readU32 (littleEndian 4 log.length) (log.length % 2 ^ 32) := by
    have bytes : Reader.Reads (Reader.take truncated 4) _ _ := .take (length_littleEndian 4 log.length)
    have value := bytes.result ofLittleEndian
    rwa [ofLittleEndian_littleEndian_mod] at value
  have first : Reader.Reads readU64 (littleEndian 8 term) term := .number termFits
  have voted : Reader.Reads readU8 [flag] flag := .byte flag
  have voter : Reader.Reads readU32 (littleEndian 4 raw) raw := .number rawFits
  have within : log.length % 2 ^ 32 ≤ log.length := Nat.mod_le _ _
  generalize log.length % 2 ^ 32 = count at number within ⊢
  have room : ¬ count > (log.flatMap Wire.encodeEntry).length / 9 := by
    have each : 12 * log.length ≤ (log.flatMap Wire.encodeEntry).length := Wire.length_encodeEntries
    omega
  have entries : Reader.Reads (readLog (log.take count).length) ((log.take count).flatMap Wire.encodeEntry)
      ((log.take count).map Wire.LogEntry.stored) :=
    reads_log (fun e mem => typed e (List.mem_of_mem_take mem)) fun e mem => fits e (List.mem_of_mem_take mem)
  rw [List.length_take_of_le within] at entries
  have parts : log.flatMap Wire.encodeEntry =
      (log.take count).flatMap Wire.encodeEntry ++ (log.drop count).flatMap Wire.encodeEntry := by
    rw [← List.flatMap_append, List.take_append_drop]
  rw [decode, readState, encode, vote, List.append_assoc, Reader.bind_ok (first _), Reader.bind_ok (voted _),
    Reader.bind_ok (voter _), Reader.bind_ok (number _),
    Reader.bind_ok (a := log.flatMap Wire.encodeEntry) rfl]
  simp only [if_neg room]
  rw [parts, Reader.bind_ok (entries _), meaning]
  rfl

end RoundTrip

end RaftState

end Gems.Raft
