import Gems.Cluster.Record
import Gems.Hmac
import Gems.Raft.Core

set_option autoImplicit false

namespace Gems.Raft

open Gems.Lib Gems.Cluster

namespace Wire

abbrev Message := Envelope LogRecord

def requestVoteRequestTag : UInt8 := 1

def requestVoteResponseTag : UInt8 := 2

def appendEntriesRequestTag : UInt8 := 3

def appendEntriesResponseTag : UInt8 := 4

def boolByte (b : Bool) : UInt8 := if b then 1 else 0

def encodeEntry (entry : LogEntry LogRecord) : List UInt8 :=
  littleEndian 8 entry.term ++ entry.command.encode

def encodeRpc : Rpc LogRecord → List UInt8
  | .requestVoteRequest term candidateId lastLogIndex lastLogTerm =>
    [requestVoteRequestTag] ++ (littleEndian 8 term ++ (littleEndian 4 candidateId ++
      (littleEndian 8 lastLogIndex ++ littleEndian 8 lastLogTerm)))
  | .requestVoteResponse term voteGranted voterId =>
    [requestVoteResponseTag] ++ (littleEndian 8 term ++ ([boolByte voteGranted] ++
      littleEndian 4 voterId))
  | .appendEntriesRequest term leaderId prevLogIndex prevLogTerm entries leaderCommit =>
    [appendEntriesRequestTag] ++ (littleEndian 8 term ++ (littleEndian 4 leaderId ++
      (littleEndian 8 prevLogIndex ++ (littleEndian 8 prevLogTerm ++
      (littleEndian 4 entries.length ++ (entries.flatMap encodeEntry ++
      littleEndian 8 leaderCommit))))))
  | .appendEntriesResponse term success matchIndex followerId =>
    [appendEntriesResponseTag] ++ (littleEndian 8 term ++ ([boolByte success] ++
      (littleEndian 8 matchIndex ++ littleEndian 4 followerId)))

def payload (envelope : Message) : List UInt8 :=
  littleEndian 4 envelope.from_ ++ (littleEndian 4 envelope.to_ ++ encodeRpc envelope.rpc)

def encode (envelope : Message) (secret : List UInt8) : List UInt8 :=
  littleEndian 4 (payload envelope).length ++
    (payload envelope ++ hmacSha256 secret (payload envelope))

def truncated : Fault := invalid "Raft envelope truncated"

def readU8 : Reader Fault UInt8 := Reader.byte truncated

def readU32 : Reader Fault Nat := Reader.number truncated 4

def readU64 : Reader Fault Nat := Reader.number truncated 8

-- `LogRecord::decode` at the place the reader is at.
def readCommand : Reader Fault LogRecord := fun buf => do
  match ← LogRecord.decode buf with
  | none => .error (invalid "truncated log entry inside AppendEntries payload")
  | some (command, consumed) => .ok (command, buf.drop consumed)

def readEntries : Nat → Reader Fault (List (LogEntry LogRecord))
  | 0 => return []
  | count + 1 => do
    let term ← readU64
    let command ← readCommand
    let rest ← readEntries count
    return { term, command } :: rest

def readRpc (payloadLen : Nat) : Reader Fault (Rpc LogRecord) := do
  let tag ← readU8
  if tag = requestVoteRequestTag then
    let term ← readU64
    let candidateId ← readU32
    let lastLogIndex ← readU64
    let lastLogTerm ← readU64
    return .requestVoteRequest term candidateId lastLogIndex lastLogTerm
  else if tag = requestVoteResponseTag then
    let term ← readU64
    let voteGranted ← readU8
    let voterId ← readU32
    return .requestVoteResponse term (voteGranted != 0) voterId
  else if tag = appendEntriesRequestTag then
    let term ← readU64
    let leaderId ← readU32
    let prevLogIndex ← readU64
    let prevLogTerm ← readU64
    let entryCount ← readU32
    if entryCount > payloadLen / 12 then
      Reader.fail (invalid "AppendEntries entry count exceeds what the payload could hold")
    let entries ← readEntries entryCount
    let leaderCommit ← readU64
    return .appendEntriesRequest term leaderId prevLogIndex prevLogTerm entries leaderCommit
  else if tag = appendEntriesResponseTag then
    let term ← readU64
    let success ← readU8
    let matchIndex ← readU64
    let followerId ← readU32
    return .appendEntriesResponse term (success != 0) matchIndex followerId
  else Reader.fail (invalid "unknown Raft RPC tag")

def readEnvelope (payloadLen : Nat) : Reader Fault Message := do
  let from_ ← readU32
  let to_ ← readU32
  let rpc ← readRpc payloadLen
  return { from_, to_, rpc }

def decode (buf : List UInt8) (secret : List UInt8) : Except Fault (Option (Message × Nat)) := do
  if buf.length < 4 then return none
  let payloadLen := ofLittleEndian (buf.take 4)
  checkFrameLen payloadLen "Raft envelope exceeds the maximum frame size"
  let totalLen := 4 + payloadLen + tagLen
  if buf.length < totalLen then return none
  let payload := (buf.drop 4).take payloadLen
  let receivedTag := (buf.drop (4 + payloadLen)).take tagLen
  if constantTimeEq (hmacSha256 secret payload) receivedTag = false then
    throw (invalid "Raft envelope authentication tag mismatch")
  let (envelope, _) ← readEnvelope payloadLen payload
  return some (envelope, totalLen)

-- The numbers are values of their types in the source.
def LogEntry.Typed (entry : LogEntry LogRecord) : Prop := entry.term < 2 ^ 64

def Rpc.Typed : Rpc LogRecord → Prop
  | .requestVoteRequest term candidateId lastLogIndex lastLogTerm =>
    term < 2 ^ 64 ∧ candidateId < 2 ^ 32 ∧ lastLogIndex < 2 ^ 64 ∧ lastLogTerm < 2 ^ 64
  | .requestVoteResponse term _ voterId => term < 2 ^ 64 ∧ voterId < 2 ^ 32
  | .appendEntriesRequest term leaderId prevLogIndex prevLogTerm entries leaderCommit =>
    term < 2 ^ 64 ∧ leaderId < 2 ^ 32 ∧ prevLogIndex < 2 ^ 64 ∧ prevLogTerm < 2 ^ 64 ∧
      (∀ entry ∈ entries, LogEntry.Typed entry) ∧ leaderCommit < 2 ^ 64
  | .appendEntriesResponse term _ matchIndex followerId =>
    term < 2 ^ 64 ∧ matchIndex < 2 ^ 64 ∧ followerId < 2 ^ 32

structure Typed (envelope : Message) : Prop where
  sender : envelope.from_ < 2 ^ 32
  receiver : envelope.to_ < 2 ^ 32
  rpc : Rpc.Typed envelope.rpc

instance (rpc : Rpc LogRecord) : Decidable (Rpc.Typed rpc) :=
  match rpc with
  | .requestVoteRequest _ _ _ _ => inferInstanceAs (Decidable (_ ∧ _))
  | .requestVoteResponse _ _ _ => inferInstanceAs (Decidable (_ ∧ _))
  | .appendEntriesRequest _ _ _ _ entries _ =>
    have (entry : LogEntry LogRecord) : Decidable (LogEntry.Typed entry) :=
      inferInstanceAs (Decidable (entry.term < 2 ^ 64))
    inferInstanceAs (Decidable (_ ∧ _ ∧ _ ∧ _ ∧ (∀ entry ∈ entries, LogEntry.Typed entry) ∧ _))
  | .appendEntriesResponse _ _ _ _ => inferInstanceAs (Decidable (_ ∧ _))

instance (envelope : Message) : Decidable (Typed envelope) :=
  decidable_of_iff (envelope.from_ < 2 ^ 32 ∧ envelope.to_ < 2 ^ 32 ∧ Rpc.Typed envelope.rpc)
    ⟨fun ⟨sender, receiver, rpc⟩ => ⟨sender, receiver, rpc⟩, fun h => ⟨h.sender, h.receiver, h.rpc⟩⟩

def LogEntry.stored (entry : LogEntry LogRecord) : LogEntry LogRecord :=
  { entry with command := entry.command.stored }

def Rpc.stored : Rpc LogRecord → Rpc LogRecord
  | .appendEntriesRequest term leaderId prevLogIndex prevLogTerm entries leaderCommit =>
    .appendEntriesRequest term leaderId prevLogIndex prevLogTerm (entries.map LogEntry.stored)
      leaderCommit
  | rpc => rpc

def Rpc.commands : Rpc LogRecord → List LogRecord
  | .appendEntriesRequest _ _ _ _ entries _ => entries.map LogEntry.command
  | _ => []

section RoundTrip

variable {envelope : Message} {entries : List (LogEntry LogRecord)} {rpc : Rpc LogRecord}
  {payloadLen n : Nat} {buf secret : List UInt8}

theorem reads_command {command : LogRecord} (fits : command.payload.length ≤ maxFrameLen) :
    Reader.Reads readCommand command.encode command.stored := by
  intro rest
  rw [readCommand, LogRecord.decode_encode fits]
  simp only [bind, Except.bind, List.drop_left]

theorem reads_entries (typed : ∀ entry ∈ entries, LogEntry.Typed entry)
    (fits : ∀ entry ∈ entries, entry.command.payload.length ≤ maxFrameLen) :
    Reader.Reads (readEntries entries.length) (entries.flatMap encodeEntry)
      (entries.map LogEntry.stored) := by
  induction entries with
  | nil => exact .pure
  | cons entry rest ih =>
    have later := ih (fun e mem => typed e (List.mem_cons_of_mem _ mem))
      fun e mem => fits e (List.mem_cons_of_mem _ mem)
    rw [List.flatMap_cons, encodeEntry, List.append_assoc, List.length_cons, readEntries]
    exact .bind (.number (typed entry List.mem_cons_self))
      (.bind (reads_command (fits entry List.mem_cons_self)) (later.result _))

theorem bool_boolByte (b : Bool) : (boolByte b != 0) = b := by
  cases b <;> rfl

theorem length_encodeEntries : 12 * entries.length ≤ (entries.flatMap encodeEntry).length := by
  induction entries with
  | nil => exact Nat.le_refl _
  | cons entry rest ih =>
    rw [List.flatMap_cons, List.length_append, List.length_cons, encodeEntry, List.length_append,
      LogRecord.encode, List.length_append, length_littleEndian, length_littleEndian]
    omega

theorem length_entry_le {entry : LogEntry LogRecord} (mem : entry ∈ entries) :
    entry.command.payload.length ≤ (entries.flatMap encodeEntry).length := by
  have inside : encodeEntry entry <:+: entries.flatMap encodeEntry := by
    obtain ⟨before, after, rfl⟩ := List.append_of_mem mem
    rw [List.flatMap_append, List.flatMap_cons, ← List.append_assoc]
    exact ⟨_, _, rfl⟩
  have part := inside.length_le
  rw [encodeEntry, List.length_append, LogRecord.encode, List.length_append] at part
  omega

theorem reads_rpc (typed : Rpc.Typed rpc) (room : (encodeRpc rpc).length ≤ payloadLen)
    (fits : (encodeRpc rpc).length ≤ maxFrameLen) :
    Reader.Reads (readRpc payloadLen) (encodeRpc rpc) (Rpc.stored rpc) := by
  cases rpc with
  | requestVoteRequest term candidateId lastLogIndex lastLogTerm =>
    obtain ⟨term, candidate, index, last⟩ := typed
    rw [readRpc, encodeRpc]
    refine .bind (.byte requestVoteRequestTag) ?_
    rw [if_pos rfl]
    exact .bind (.number term) (.bind (.number candidate) (.bind (.number index)
      ((Reader.Reads.number last).result _)))
  | requestVoteResponse term voteGranted voterId =>
    obtain ⟨term, voter⟩ := typed
    rw [readRpc, encodeRpc]
    refine .bind (.byte requestVoteResponseTag) ?_
    rw [if_neg (by decide), if_pos rfl]
    refine .bind (.number term) (.bind (.byte _) ?_)
    rw [bool_boolByte]
    exact (Reader.Reads.number voter).result _
  | appendEntriesRequest term leaderId prevLogIndex prevLogTerm entries leaderCommit =>
    obtain ⟨term, leader, index, last, each, commit⟩ := typed
    simp only [encodeRpc, List.length_append, length_littleEndian, List.length_singleton] at room fits
    have count : 12 * entries.length ≤ (entries.flatMap encodeEntry).length := length_encodeEntries
    have cap : maxFrameLen = 67108864 := rfl
    rw [readRpc, encodeRpc]
    refine .bind (.byte appendEntriesRequestTag) ?_
    rw [if_neg (by decide), if_neg (by decide), if_pos rfl]
    refine .bind (.number term) (.bind (.number leader) (.bind (.number index)
      (.bind (.number last) (.bind (.number (by omega)) ?_))))
    rw [if_neg (by omega)]
    have entriesFit : ∀ entry ∈ entries, entry.command.payload.length ≤ maxFrameLen := by
      intro entry mem
      have part := length_entry_le mem
      omega
    exact .bind (reads_entries each entriesFit) ((Reader.Reads.number commit).result _)
  | appendEntriesResponse term success matchIndex followerId =>
    obtain ⟨term, index, follower⟩ := typed
    rw [readRpc, encodeRpc]
    refine .bind (.byte appendEntriesResponseTag) ?_
    rw [if_neg (by decide), if_neg (by decide), if_neg (by decide), if_pos rfl]
    refine .bind (.number term) (.bind (.byte _) ?_)
    rw [bool_boolByte]
    exact .bind (.number index) ((Reader.Reads.number follower).result _)

def stored (envelope : Message) : Message := { envelope with rpc := Rpc.stored envelope.rpc }

theorem reads_envelope (typed : Typed envelope) (fits : (payload envelope).length ≤ maxFrameLen) :
    Reader.Reads (readEnvelope (payload envelope).length) (payload envelope) (stored envelope) := by
  have size : (payload envelope).length = 8 + (encodeRpc envelope.rpc).length := by
    simp only [payload, List.length_append, length_littleEndian]
    omega
  have rpc : Reader.Reads (readRpc (payload envelope).length) _ _ :=
    reads_rpc typed.rpc (by omega) (by omega)
  rw [readEnvelope, payload]
  exact .bind (.number typed.sender) (.bind (.number typed.receiver) (rpc.result _))

theorem length_encode : (encode envelope secret).length = 4 + (payload envelope).length + tagLen := by
  simp only [encode, List.length_append, length_littleEndian, length_hmacSha256]
  omega

theorem encode_eq : encode envelope secret = framed (payload envelope) ++ hmacSha256 secret (payload envelope) := by
  rw [encode, framed, List.append_assoc]

theorem payload_length_lt (fits : (payload envelope).length ≤ maxFrameLen) :
    (payload envelope).length < 256 ^ 4 :=
  Nat.lt_of_le_of_lt fits (by decide)

theorem decode_encode (typed : Typed envelope) (fits : (payload envelope).length ≤ maxFrameLen)
    (rest : List UInt8) : decode (encode envelope secret ++ rest) secret =
      .ok (some (stored envelope, (encode envelope secret).length)) := by
  have size : (encode envelope secret).length = _ := length_encode
  have tag : (hmacSha256 secret (payload envelope) ++ rest).take tagLen =
      hmacSha256 secret (payload envelope) := List.take_left' (length_hmacSha256 _ _)
  have read := reads_envelope typed fits []
  rw [List.append_nil] at read
  have long : (encode envelope secret ++ rest).length = (encode envelope secret).length + rest.length :=
    List.length_append
  rw [encode_eq, List.append_assoc] at long ⊢
  rw [encode_eq] at size
  unfold decode
  rw [if_neg (by omega)]
  simp only [framed_number (payload_length_lt fits), framed_body, framed_rest, tag, checkFrameLen,
    if_neg (Nat.not_lt.mpr fits), constantTimeEq_refl, read]
  rw [if_neg (by omega), if_neg (by simp), size]
  rfl

theorem decode_partial (fits : (payload envelope).length ≤ maxFrameLen)
    (short : n < (encode envelope secret).length) :
    decode ((encode envelope secret).take n) secret = .ok none := by
  have size : ((encode envelope secret).take n).length = n := by
    rw [List.length_take]
    omega
  rw [length_encode] at short
  rw [encode_eq] at size ⊢
  unfold decode
  by_cases header : n < 4
  · rw [if_pos (by omega)]
    rfl
  rw [if_neg (by omega)]
  simp only [framed_number_part (payload_length_lt fits) (Nat.le_of_not_lt header), checkFrameLen,
    if_neg (Nat.not_lt.mpr fits)]
  rw [if_pos (by omega)]
  rfl

theorem map_stored (fit : ∀ entry ∈ entries, entry.command.TextsFit) : entries.map LogEntry.stored = entries := by
  have same : ∀ entry ∈ entries, LogEntry.stored entry = entry := by
    intro entry mem
    rw [LogEntry.stored, LogRecord.stored_of_fit (fit entry mem)]
  rw [List.map_congr_left same, List.map_id']

theorem stored_of_fit (fit : ∀ command ∈ Rpc.commands envelope.rpc, command.TextsFit) :
    stored envelope = envelope := by
  obtain ⟨sender, receiver, rpc⟩ := envelope
  cases rpc with
  | appendEntriesRequest term leaderId prevLogIndex prevLogTerm entries leaderCommit =>
    have each : entries.map LogEntry.stored = entries :=
      map_stored fun entry mem => fit _ (List.mem_map_of_mem mem)
    rw [stored, Rpc.stored, each]
  | requestVoteRequest | requestVoteResponse | appendEntriesResponse => rfl

theorem streams (typed : Typed envelope) (fits : (payload envelope).length ≤ maxFrameLen) :
    Streams (decode · secret) (encode envelope secret) (stored envelope) :=
  .mk_take (decode_encode typed fits) fun _ => decode_partial fits

theorem decode_consumes (read : decode buf secret = .ok (some (envelope, n))) :
    n ≤ 4 + maxFrameLen + tagLen := by
  unfold decode at read
  split at read
  · cases read
  simp only [bind, Except.bind] at read
  split at read
  · cases read
  next checked =>
    rw [checkFrameLen] at checked
    split at checked
    · cases checked
    split at read
    · cases read
    split at read
    · cases read
    split at read
    · cases read
    · cases read
      omega

/-- The receiver gets exactly the envelope that was sent, from exactly its frame. -/
def Deliverable (secret : List UInt8) (envelope : Message) : Prop :=
  decode (encode envelope secret) secret = .ok (some (envelope, (encode envelope secret).length))

theorem deliverable_iff (typed : Typed envelope) :
    Deliverable secret envelope ↔
      (payload envelope).length ≤ maxFrameLen ∧ stored envelope = envelope := by
  rw [Deliverable]
  by_cases fits : (payload envelope).length ≤ maxFrameLen
  · have whole : decode (encode envelope secret ++ []) secret = _ := decode_encode typed fits []
    rw [List.append_nil] at whole
    rw [whole]
    simp [fits]
  · refine ⟨fun read => ?_, fun both => absurd both.1 fits⟩
    have within := decode_consumes read
    rw [length_encode] at within
    omega

end RoundTrip

end Wire

end Gems.Raft
