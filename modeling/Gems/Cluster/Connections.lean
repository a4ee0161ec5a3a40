import Gems.Gossip.Wire
import Gems.Lib.Connection
import Gems.Raft.Wire

set_option autoImplicit false

namespace Gems

open Lib Connection Cluster

variable {A : Type} {secret : List UInt8} {chunks : List (List UInt8)}

section Statement

-- `handle_connection` of the two networks, on the chunks that are read.
def Raft.handleConnection (secret : List UInt8) (chunks : List (List UInt8)) : State Fault Raft.Wire.Message :=
  feed (fun buf => Raft.Wire.decode buf secret) [] chunks

def Gossip.handleConnection (secret : List UInt8) (chunks : List (List UInt8)) : State Fault Gossip.Envelope :=
  feed (fun buf => Gossip.Wire.decode buf secret) [] chunks

-- The command of a client, once it is complete.
def Raft.readCommand (buf : List UInt8) : List (List UInt8) → Except Fault (Option LogRecord)
  | [] => .ok none
  | chunk :: chunks => do
    match ← LogRecord.decode (buf ++ chunk) with
    | some (record, _) => return some record
    | none => Raft.readCommand (buf ++ chunk) chunks

/-- Whatever the other end sends, and however it arrives: only what is under its tag is delivered, and what is held back
stays under the size of a frame. -/
structure Guarded (secret : List UInt8) (Reads : List UInt8 → A → Prop)
    (connection : List (List UInt8) → State Fault A) : Prop where
  cuts : ∀ chunks chunks', chunks.flatten = chunks'.flatten → connection chunks = connection chunks'
  tagged : ∀ chunks, ∀ a ∈ (connection chunks).1, ∃ before body after,
    chunks.flatten = before ++ (framed body ++ (hmacSha256 secret body ++ after)) ∧ body.length ≤ maxFrameLen ∧
      Reads body a
  bounded : ∀ chunks left, (connection chunks).2 = .ok left → left.length < 4 + maxFrameLen + tagLen

end Statement

section Frames

-- The body counts only under its tag.
def readTagged (secret : List UInt8) (mismatch : String) (read : Nat → List UInt8 → Except Fault (A × List UInt8))
    (length : Nat) (body tag : List UInt8) : Except Fault A := do
  if constantTimeEq (hmacSha256 secret body) tag = false then throw (invalid mismatch)
  let (a, _) ← read length body
  return a

theorem checkFrameLen_ok {length : Nat} {context : String} (checked : checkFrameLen length context = .ok ()) :
    length ≤ maxFrameLen := by
  rw [checkFrameLen] at checked
  split at checked
  next => cases checked
  next small => exact Nat.not_lt.mp small

theorem raft_frame (buf : List UInt8) : Raft.Wire.decode buf secret =
    decodeFrame (fun length => checkFrameLen length "Raft envelope exceeds the maximum frame size") tagLen
      (readTagged secret "Raft envelope authentication tag mismatch" Raft.Wire.readEnvelope) buf := by
  unfold Raft.Wire.decode decodeFrame readTagged
  split
  next => rfl
  next =>
    simp only [bind, Except.bind]
    cases checkFrameLen (ofLittleEndian (buf.take 4)) "Raft envelope exceeds the maximum frame size" with
    | error e => rfl
    | ok done =>
      dsimp only
      split
      next => rfl
      next =>
        split
        next => rfl
        next =>
          cases Raft.Wire.readEnvelope _ _ with
          | error e => rfl
          | ok result => rfl

theorem gossip_frame (buf : List UInt8) : Gossip.Wire.decode buf secret =
    decodeFrame (fun length => checkFrameLen length "SWIM envelope exceeds the maximum frame size") tagLen
      (readTagged secret "SWIM envelope authentication tag mismatch" fun _ => Gossip.Wire.readEnvelope) buf := by
  unfold Gossip.Wire.decode decodeFrame readTagged
  split
  next => rfl
  next =>
    simp only [bind, Except.bind]
    cases checkFrameLen (ofLittleEndian (buf.take 4)) "SWIM envelope exceeds the maximum frame size" with
    | error e => rfl
    | ok done =>
      dsimp only
      split
      next => rfl
      next =>
        split
        next => rfl
        next =>
          cases Gossip.Wire.readEnvelope _ with
          | error e => rfl
          | ok result => rfl

theorem raft_incremental : Incremental (fun buf => Raft.Wire.decode buf secret) (4 + maxFrameLen + tagLen) := by
  rw [funext raft_frame]
  exact decodeFrame_incremental fun _ => checkFrameLen_ok

theorem gossip_incremental : Incremental (fun buf => Gossip.Wire.decode buf secret) (4 + maxFrameLen + tagLen) := by
  rw [funext gossip_frame]
  exact decodeFrame_incremental fun _ => checkFrameLen_ok

theorem readTagged_ok {mismatch : String} {read : Nat → List UInt8 → Except Fault (A × List UInt8)} {length : Nat}
    {body tag : List UInt8} {a : A} (given : readTagged secret mismatch read length body tag = .ok a) :
    tag = hmacSha256 secret body ∧ ∃ rest, read length body = .ok (a, rest) := by
  unfold readTagged at given
  split at given
  next => cases given
  next same =>
    refine ⟨(constantTimeEq_iff.mp (by simpa using same)).symm, ?_⟩
    simp only [bind, Except.bind] at given
    cases read' : read length body with
    | error e =>
      rw [read'] at given
      cases given
    | ok result =>
      rw [read'] at given
      cases given
      exact ⟨result.2, rfl⟩

theorem guarded_of_frame {decode : List UInt8 → Except Fault (Option (A × Nat))} {context mismatch : String}
    {read : Nat → List UInt8 → Except Fault (A × List UInt8)} (idle : decode [] = .ok none)
    (frame : ∀ buf, decode buf = decodeFrame (fun length => checkFrameLen length context) tagLen
      (readTagged secret mismatch read) buf) :
    Guarded secret (fun body a => ∃ rest, read body.length body = .ok (a, rest)) (feed decode []) := by
  have incremental : Incremental decode (4 + maxFrameLen + tagLen) := by
    rw [funext frame]
    exact decodeFrame_incremental fun _ => checkFrameLen_ok
  constructor
  · intro chunks chunks' same
    rw [feed_flatten incremental idle, feed_flatten incremental idle, same]
  · intro chunks a mem
    rw [feed_flatten incremental idle, List.nil_append] at mem
    obtain ⟨left, holds⟩ := drainAll_holds incremental chunks.flatten
    obtain ⟨before, rest, n, same, found⟩ := holds.part mem
    rw [frame] at found
    obtain ⟨body, tag, after, rfl, checked, -, -, given⟩ := decodeFrame_some found
    obtain ⟨rfl, reads⟩ := readTagged_ok given
    exact ⟨before, body, after, same, checkFrameLen_ok checked, reads⟩
  · intro chunks left ended
    exact feed_bounded incremental idle (Prod.ext rfl ended)

/-- The connections of both networks are guarded. -/
theorem connections_guarded (secret : List UInt8) :
    Guarded secret (fun body envelope => ∃ rest, Raft.Wire.readEnvelope body.length body = .ok (envelope, rest))
        (Raft.handleConnection secret) ∧
      Guarded secret (fun body envelope => ∃ rest, Gossip.Wire.readEnvelope body = .ok (envelope, rest))
        (Gossip.handleConnection secret) :=
  ⟨guarded_of_frame rfl raft_frame, guarded_of_frame rfl gossip_frame⟩

end Frames

section Delivery

theorem readCommand_chunks {record : LogRecord} {buf rest : List UInt8} (fits : record.payload.length ≤ maxFrameLen)
    (waits : buf <+: record.encode) (strict : buf ≠ record.encode)
    (sent : buf ++ chunks.flatten = record.encode ++ rest) :
    Raft.readCommand buf chunks = .ok (some record.stored) := by
  induction chunks generalizing buf with
  | nil =>
    rw [List.flatten_nil, List.append_nil] at sent
    have long := congrArg List.length sent
    rw [List.length_append] at long
    exact absurd (waits.eq_of_length_le (by omega)) strict
  | cons chunk chunks ih =>
    rw [List.flatten_cons, ← List.append_assoc] at sent
    have streams := LogRecord.streams fits
    have part : buf ++ chunk <+: record.encode ++ rest := ⟨chunks.flatten, sent⟩
    rw [Raft.readCommand]
    rcases List.prefix_or_prefix_of_prefix part (List.prefix_append _ _) with short | ⟨more, whole⟩
    · by_cases same : buf ++ chunk = record.encode
      · have found := streams.whole []
        rw [List.append_nil, ← same] at found
        rw [found]
        rfl
      · rw [streams.part _ short same]
        exact ih short same sent
    · rw [← whole, streams.whole more]
      rfl

/-- Whatever the chunks are cut like: the envelopes that a peer writes are delivered, each once and in their order, and
a client's command is read as soon as it is complete, whatever follows it. -/
theorem connections_deliver (secret : List UInt8) (chunks : List (List UInt8)) :
    (∀ envelopes : List Raft.Wire.Message,
      (∀ e ∈ envelopes, Raft.Wire.Typed e ∧ (Raft.Wire.payload e).length ≤ maxFrameLen) →
      chunks.flatten = envelopes.flatMap (fun e => Raft.Wire.encode e secret) →
        Raft.handleConnection secret chunks = (envelopes.map Raft.Wire.stored, .ok [])) ∧
    (∀ envelopes : List Gossip.Envelope,
      (∀ e ∈ envelopes, Gossip.Wire.Typed e ∧ (Gossip.Wire.payload e).length ≤ maxFrameLen) →
      chunks.flatten = envelopes.flatMap (fun e => Gossip.Wire.encode e secret) →
        Gossip.handleConnection secret chunks = (envelopes, .ok [])) ∧
    ∀ (record : LogRecord) (rest : List UInt8), record.payload.length ≤ maxFrameLen →
      chunks.flatten = record.encode ++ rest → Raft.readCommand [] chunks = .ok (some record.stored) := by
  refine ⟨fun envelopes written sent => ?_, fun envelopes written sent => ?_, fun record rest fits sent => ?_⟩
  · exact feed_written raft_incremental rfl (fun e mem => Raft.Wire.streams (written e mem).1 (written e mem).2) sent
  · have delivered : Gossip.handleConnection secret chunks = (envelopes.map id, .ok []) :=
      feed_written gossip_incremental rfl
        (fun e mem => Gossip.Wire.streams (written e mem).1 (written e mem).2) sent
    rwa [List.map_id] at delivered
  · refine readCommand_chunks fits (List.nil_prefix) (fun empty => ?_) sent
    have size := congrArg List.length empty
    rw [LogRecord.encode_eq, length_framed, List.length_nil] at size
    omega

def vote : Raft.Wire.Message := ⟨2, 1, .requestVoteResponse 3 true 2⟩

def votes : List UInt8 := [vote, vote].flatMap fun e => Raft.Wire.encode e [1]

theorem connections_deliver_votes :
    Raft.handleConnection [1] [votes.take 7, votes.drop 7] = ([vote, vote].map Raft.Wire.stored, .ok []) := by
  refine (connections_deliver [1] _).1 [vote, vote] (fun e mem => ?_) ?_
  · obtain rfl : e = vote := by simpa using mem
    exact ⟨by decide, by decide⟩
  · rw [List.flatten_cons, List.flatten_singleton, List.take_append_drop]
    rfl

end Delivery

end Gems
