import Gems.Lib.Lists
import Gems.Raft.Safety
import Gems.Raft.Wire

set_option autoImplicit false

namespace Gems.Raft

open Gems.Lib Gems.Cluster

section Shipments

variable {Cmd : Type}

namespace RaftCore

-- The part of the log that the next request to `follower` carries.
def suffixFor (c : RaftCore Cmd) (follower : NodeId) : List (LogEntry Cmd) :=
  c.log.drop ((c.nextIndex follower).getD (c.lastLogIndex + 1) - 1)

def suffixes (c : RaftCore Cmd) : List (List (LogEntry Cmd)) := c.peers.map c.suffixFor

def tickShips (c : RaftCore Cmd) : List (List (LogEntry Cmd)) :=
  if c.role = .leader ∧ c.heartbeatElapsed + 1 ≥ c.heartbeatInterval then c.suffixes else []

def proposeShips (c : RaftCore Cmd) (command : Cmd) : List (List (LogEntry Cmd)) :=
  if c.role = .leader then (c.pushEntry command).suffixes else []

def responseShips (c : RaftCore Cmd) (term : Nat) (success : Bool) (matchIndex : Nat)
    (followerId : NodeId) : List (List (LogEntry Cmd)) :=
  if c.role = .leader ∧ term = c.currentTerm then
    if success then
      let c := c.recordMatch followerId matchIndex
      if c.advanceCommitIndex.commitIndex > c.commitIndex then c.suffixes else []
    else [(c.backOff followerId).suffixFor followerId]
  else []

def receiveShips (c : RaftCore Cmd) (envelope : Envelope Cmd) : List (List (LogEntry Cmd)) :=
  match envelope.rpc with
  | .appendEntriesResponse term success matchIndex followerId =>
    c.responseShips term success matchIndex followerId
  | _ => []

end RaftCore

def System.ships (s : System Cmd) : Event Cmd → List (List (LogEntry Cmd))
  | .tick id => (s.nodes id).tickShips
  | .propose id command => (s.nodes id).proposeShips command
  | .receive index =>
    match s.net[index]? with
    | some envelope => (s.nodes envelope.to_).receiveShips envelope
    | none => []
  | .takeNewlyCommitted _ | .setElectionTimeout _ _ | .restart _ _ => []

end Shipments

-- The fields of an AppendEntriesRequest around its entries.
def requestOverhead : Nat := 4 + 4 + 1 + 8 + 4 + 8 + 8 + 4 + 8

def FitsFrame (entries : List (LogEntry LogRecord)) : Prop :=
  requestOverhead + (entries.flatMap Wire.encodeEntry).length ≤ maxFrameLen ∧
    ∀ entry ∈ entries, entry.command.stored = entry.command

section Messages

open Wire

variable {secret : List UInt8} {envelope : Message} {entries : List (LogEntry LogRecord)}

def Carries (envelope : Message) (entries : List (LogEntry LogRecord)) : Prop :=
  ∃ term leaderId prevLogIndex prevLogTerm leaderCommit,
    envelope.rpc = .appendEntriesRequest term leaderId prevLogIndex prevLogTerm entries leaderCommit

def Small (envelope : Message) : Prop := ∀ entries, ¬ Carries envelope entries

theorem fitsFrame_nil : FitsFrame [] := by
  refine ⟨?_, fun _ none => absurd none List.not_mem_nil⟩
  decide

theorem deliverable_of_small (typed : Typed envelope) (small : Small envelope) :
    Deliverable secret envelope := by
  rw [deliverable_iff typed]
  obtain ⟨sender, receiver, rpc⟩ := envelope
  cases rpc with
  | appendEntriesRequest term leaderId prevLogIndex prevLogTerm entries leaderCommit =>
    exact absurd ⟨_, _, _, _, _, rfl⟩ (small entries)
  | requestVoteRequest term candidateId lastLogIndex lastLogTerm =>
    refine ⟨?_, rfl⟩
    simp only [payload, encodeRpc, List.length_append, length_littleEndian, List.length_singleton]
    decide
  | requestVoteResponse term voteGranted voterId =>
    refine ⟨?_, rfl⟩
    simp only [payload, encodeRpc, List.length_append, length_littleEndian, List.length_singleton]
    decide
  | appendEntriesResponse term success matchIndex followerId =>
    refine ⟨?_, rfl⟩
    simp only [payload, encodeRpc, List.length_append, length_littleEndian, List.length_singleton]
    decide

theorem deliverable_of_carries (typed : Typed envelope) (carries : Carries envelope entries) :
    Deliverable secret envelope ↔ FitsFrame entries := by
  rw [deliverable_iff typed, FitsFrame]
  obtain ⟨sender, receiver, rpc⟩ := envelope
  obtain ⟨term, leaderId, prevLogIndex, prevLogTerm, leaderCommit, rfl⟩ := carries
  have size : (payload ⟨sender, receiver, .appendEntriesRequest term leaderId prevLogIndex
      prevLogTerm entries leaderCommit⟩).length =
      requestOverhead + (entries.flatMap encodeEntry).length := by
    simp only [payload, encodeRpc, List.length_append, length_littleEndian, List.length_singleton,
      requestOverhead]
    omega
  rw [size]
  refine and_congr_right fun _ => ?_
  rw [stored, Rpc.stored, Envelope.mk.injEq, Rpc.appendEntriesRequest.injEq]
  simp only [true_and, and_true]
  rw [← List.map_id entries, List.map_map, List.map_inj_left, List.map_id]
  refine forall₂_congr fun entry _ => ?_
  refine ⟨congrArg LogEntry.command, fun same => ?_⟩
  rw [Function.comp, id, LogEntry.stored, same]

/-- The requests among `out` carry the runs of entries in `ships`, apart from empty ones. -/
structure Ships (out : List Message) (ships : List (List (LogEntry LogRecord))) : Prop where
  sound : ∀ envelope ∈ out, Small envelope ∨ ∃ entries, Carries envelope entries ∧
    (entries = [] ∨ entries ∈ ships)
  complete : ∀ entries ∈ ships, ∃ envelope ∈ out, Carries envelope entries

variable {out : List Message} {ships : List (List (LogEntry LogRecord))}

theorem Ships.deliverable_iff (h : Ships out ships) (typed : ∀ envelope ∈ out, Typed envelope) :
    (∀ envelope ∈ out, Deliverable secret envelope) ↔ ∀ entries ∈ ships, FitsFrame entries := by
  constructor
  · intro all entries mem
    obtain ⟨envelope, there, carries⟩ := h.complete entries mem
    exact (deliverable_of_carries (typed envelope there) carries).mp (all envelope there)
  · intro fits envelope mem
    rcases h.sound envelope mem with small | ⟨entries, carries, rfl | inside⟩
    · exact deliverable_of_small (typed envelope mem) small
    · exact (deliverable_of_carries (typed envelope mem) carries).mpr fitsFrame_nil
    · exact (deliverable_of_carries (typed envelope mem) carries).mpr (fits entries inside)

theorem ships_small (small : ∀ envelope ∈ out, Small envelope) : Ships out [] where
  sound := fun envelope mem => .inl (small envelope mem)
  complete := fun _ none => absurd none List.not_mem_nil

theorem ships_nil : Ships [] [] := ships_small fun _ none => absurd none List.not_mem_nil

theorem ships_one (carries : Carries envelope entries) : Ships [envelope] [entries] where
  sound := fun _ mem => .inr ⟨entries, List.mem_singleton.mp mem ▸ carries, .inr List.mem_cons_self⟩
  complete := fun _ mem => ⟨envelope, List.mem_cons_self, List.mem_singleton.mp mem ▸ carries⟩

theorem Ships.of_empty (h : Ships out ships) (empty : ∀ entries ∈ ships, entries = []) :
    Ships out [] where
  sound := by
    intro envelope mem
    refine (h.sound envelope mem).imp_right fun ⟨entries, carries, known⟩ => ⟨entries, carries, .inl ?_⟩
    exact known.elim id (empty entries)
  complete := fun _ none => absurd none List.not_mem_nil

theorem Ships.cons_small {rest : List Message} (h : Ships rest ships)
    (small : ∀ envelope ∈ out, Small envelope) : Ships (out ++ rest) ships where
  sound := by
    intro envelope mem
    rcases List.mem_append.mp mem with front | back
    · exact .inl (small envelope front)
    · exact h.sound envelope back
  complete := by
    intro entries mem
    obtain ⟨envelope, there, carries⟩ := h.complete entries mem
    exact ⟨envelope, List.mem_append_right _ there, carries⟩

end Messages

section Calls

variable {c c' : RaftCore LogRecord} {out : List Wire.Message}

theorem appendEntriesFor_eq {follower : NodeId} {rpc : Rpc LogRecord}
    (built : c.appendEntriesFor follower = some rpc) : ∃ term leaderId prevLogIndex prevLogTerm leaderCommit,
      rpc = .appendEntriesRequest term leaderId prevLogIndex prevLogTerm (c.suffixFor follower)
        leaderCommit := by
  rw [RaftCore.appendEntriesFor] at built
  split at built
  · exact ⟨_, _, _, _, _, (Option.some.inj built).symm⟩
  · cases built

theorem replicate_ships (built : c.replicateToAllPeers = some out) : Ships out c.suffixes where
  sound := by
    intro envelope mem
    obtain ⟨p, peer, made⟩ := mem_of_mapM built mem
    obtain ⟨rpc, request, rfl⟩ := Option.map_eq_some_iff.mp made
    obtain ⟨_, _, _, _, _, rfl⟩ := appendEntriesFor_eq request
    exact .inr ⟨_, ⟨_, _, _, _, _, rfl⟩, .inr (List.mem_map_of_mem peer)⟩
  complete := by
    intro entries mem
    obtain ⟨p, peer, rfl⟩ := List.mem_map.mp mem
    obtain ⟨envelope, there, made⟩ := exists_of_mapM built peer
    obtain ⟨rpc, request, rfl⟩ := Option.map_eq_some_iff.mp made
    obtain ⟨_, _, _, _, _, rfl⟩ := appendEntriesFor_eq request
    exact ⟨_, there, _, _, _, _, _, rfl⟩

theorem suffixes_becomeLeader : ∀ entries ∈ c.becomeLeader.suffixes, entries = [] := by
  intro entries mem
  obtain ⟨p, -, rfl⟩ := List.mem_map.mp mem
  rw [RaftCore.suffixFor, RaftCore.becomeLeader]
  refine List.drop_eq_nil_of_le ?_
  dsimp only
  split <;> simp [RaftCore.lastLogIndex]

theorem checkElectionWin_ships (h : c.checkElectionWin = some (c', out)) : Ships out [] := by
  rw [RaftCore.checkElectionWin] at h
  split at h
  · cases h
    exact ships_nil
  split at h
  · obtain ⟨msgs, built, same⟩ := Option.map_eq_some_iff.mp h
    cases same
    exact (replicate_ships built).of_empty suffixes_becomeLeader
  · cases h
    exact ships_nil

theorem requestVotes_small : ∀ envelope ∈ c.requestVotes, Small envelope := by
  intro envelope mem entries
  obtain ⟨p, -, rfl⟩ := List.mem_map.mp mem
  rintro ⟨_, _, _, _, _, same⟩
  cases same

theorem election_ships (h : (if c.electionElapsed ≥ c.electionTimeout then c.startElection
    else some (c, [])) = some (c', out)) : Ships out [] := by
  split at h
  · obtain ⟨⟨won, msgs⟩, election, same⟩ := Option.map_eq_some_iff.mp h
    cases same
    exact (checkElectionWin_ships election).cons_small requestVotes_small
  · cases h
    exact ships_nil

theorem tick_ships (h : c.tick = some (c', out)) : Ships out c.tickShips := by
  rw [RaftCore.tick] at h
  rw [RaftCore.tickShips]
  cases role : c.role with
  | leader =>
    rw [role] at h
    dsimp only at h
    split at h
    next due =>
      rw [if_pos ⟨rfl, due⟩]
      obtain ⟨msgs, built, same⟩ := Option.map_eq_some_iff.mp h
      cases same
      exact replicate_ships built
    next early =>
      rw [if_neg fun both => early both.2]
      cases h
      exact ships_nil
  | follower =>
    rw [role] at h
    rw [if_neg (by simp)]
    exact election_ships h
  | candidate =>
    rw [role] at h
    rw [if_neg (by simp)]
    exact election_ships h

theorem propose_ships {command : LogRecord} {index : Nat}
    (h : c.propose command = some (.ok (c', index, out))) : Ships out (c.proposeShips command) := by
  rw [RaftCore.propose] at h
  rw [RaftCore.proposeShips]
  split at h
  · cases h
  next leader =>
    rw [if_pos (not_not.mp leader)]
    dsimp only at h
    split at h
    next alone =>
      cases h
      rw [RaftCore.suffixes, List.isEmpty_iff.mp alone]
      exact ships_nil
    next =>
      obtain ⟨msgs, built, same⟩ := Option.map_eq_some_iff.mp h
      cases same
      exact replicate_ships built

theorem suffixes_advanceCommitIndex : c.advanceCommitIndex.suffixes = c.suffixes := by
  rw [RaftCore.advanceCommitIndex]
  split <;> rfl

theorem appendResponse_ships {term matchIndex : Nat} {success : Bool} {followerId : NodeId}
    (h : c.handleAppendResponse term success matchIndex followerId = some (c', out)) :
    Ships out (c.responseShips term success matchIndex followerId) := by
  rw [RaftCore.handleAppendResponse] at h
  rw [RaftCore.responseShips]
  split at h
  next newer =>
    rw [if_neg (by omega)]
    cases h
    exact ships_nil
  next =>
  split at h
  next idle =>
    rw [if_neg fun both => idle.elim (fun no => no both.1) fun no => no both.2]
    cases h
    exact ships_nil
  next active =>
  rw [not_or, not_not, not_not] at active
  rw [if_pos active]
  split at h
  next succeeded =>
    rw [if_pos succeeded]
    dsimp only at h ⊢
    split at h
    next commits =>
      rw [if_pos commits]
      obtain ⟨msgs, built, same⟩ := Option.map_eq_some_iff.mp h
      cases same
      have shipped := replicate_ships built
      rwa [suffixes_advanceCommitIndex] at shipped
    next still =>
      rw [if_neg still]
      cases h
      exact ships_nil
  next failed =>
    rw [if_neg failed]
    obtain ⟨rpc, request, same⟩ := Option.map_eq_some_iff.mp h
    cases same
    obtain ⟨_, _, _, _, _, rfl⟩ := appendEntriesFor_eq request
    exact ships_one ⟨_, _, _, _, _, rfl⟩

theorem receive_ships {envelope : Wire.Message} (h : c.receive envelope = some (c', out)) :
    Ships out (c.receiveShips envelope) := by
  obtain ⟨sender, receiver, rpc⟩ := envelope
  rw [RaftCore.receiveShips]
  cases rpc with
  | requestVoteRequest term candidateId lastLogIndex lastLogTerm =>
    cases h
    refine ships_small fun envelope mem entries => ?_
    rintro ⟨_, _, _, _, _, same⟩
    rw [List.mem_singleton.mp mem] at same
    cases same
  | requestVoteResponse term voteGranted voterId =>
    change c.handleVoteResponse term voteGranted voterId = _ at h
    rw [RaftCore.handleVoteResponse] at h
    split at h
    · cases h
      exact ships_nil
    split at h
    · cases h
      exact ships_nil
    · exact checkElectionWin_ships h
  | appendEntriesRequest term leaderId prevLogIndex prevLogTerm entries leaderCommit =>
    cases h
    refine ships_small fun envelope mem entries => ?_
    rintro ⟨_, _, _, _, _, same⟩
    rw [List.mem_singleton.mp mem] at same
    cases same
  | appendEntriesResponse term success matchIndex followerId => exact appendResponse_ships h

end Calls

section Runs

variable {cfg : Cluster} {s s' : System LogRecord} {e : Event LogRecord}
  {events : List (Event LogRecord)} {secret : List UInt8}

theorem local_ships {id : NodeId} {c : RaftCore LogRecord} {out : List Wire.Message}
    (h : s.local_ cfg e = some (id, c, out)) : Ships out (s.ships e) := by
  cases e with
  | tick node =>
    obtain ⟨⟨c', out'⟩, ticked, same⟩ := Option.map_eq_some_iff.mp h
    cases same
    exact tick_ships ticked
  | propose node command =>
    obtain ⟨result, proposed, same⟩ := Option.map_eq_some_iff.mp h
    cases result with
    | error e =>
      cases same
      rw [System.ships, RaftCore.proposeShips]
      rw [RaftCore.propose] at proposed
      split at proposed
      next idle =>
        rw [if_neg idle]
        exact ships_nil
      next =>
        dsimp only at proposed
        split at proposed
        · cases proposed
        · obtain ⟨_, -, wrong⟩ := Option.map_eq_some_iff.mp proposed
          cases wrong
    | ok result =>
      obtain ⟨c', index, out'⟩ := result
      cases same
      exact propose_ships proposed
  | receive index =>
    obtain ⟨envelope, there, handled⟩ := Option.bind_eq_some_iff.mp h
    obtain ⟨⟨c', out'⟩, received, same⟩ := Option.map_eq_some_iff.mp handled
    cases same
    rw [System.ships, there]
    exact receive_ships received
  | takeNewlyCommitted node =>
    obtain ⟨⟨c', out'⟩, -, same⟩ := Option.map_eq_some_iff.mp h
    cases same
    exact ships_nil
  | setElectionTimeout node ticks =>
    cases h
    exact ships_nil
  | restart node electionTimeout =>
    cases h
    exact ships_nil

/-- Every run of entries shipped by a step of the run fits into a frame. -/
def FittingRun (cfg : Cluster) : System LogRecord → List (Event LogRecord) → Prop
  | _, [] => True
  | s, e :: rest =>
    (∀ entries ∈ s.ships e, FitsFrame entries) ∧
      match s.act cfg e with
      | some s' => FittingRun cfg s' rest
      | none => True

theorem net_mono (ran : s.exec cfg events = some s') : ∀ envelope ∈ s.net, envelope ∈ s'.net := by
  induction events generalizing s with
  | nil =>
    cases ran
    exact fun _ mem => mem
  | cons e rest ih =>
    obtain ⟨mid, acted, ran⟩ := Option.bind_eq_some_iff.mp ran
    obtain ⟨⟨id, c, out⟩, -, put⟩ := Option.bind_eq_some_iff.mp acted
    dsimp only at put
    split at put
    · cases put
      exact fun envelope mem => ih ran envelope (List.mem_append_left _ mem)
    · cases put

theorem forall_mem_put {P : Wire.Message → Prop} {id : NodeId} {c : RaftCore LogRecord}
    {out : List Wire.Message} (before : ∀ envelope ∈ s.net, P envelope)
    (here : ∀ envelope ∈ out, P envelope) : ∀ envelope ∈ (s.put id c out).net, P envelope := by
  intro envelope mem
  rcases List.mem_append.mp mem with old | new
  · exact before envelope old
  · exact here envelope new

theorem deliverable_exec (ran : s.exec cfg events = some s')
    (typed : ∀ envelope ∈ s'.net, Wire.Typed envelope)
    (before : ∀ envelope ∈ s.net, Wire.Deliverable secret envelope) :
    (∀ envelope ∈ s'.net, Wire.Deliverable secret envelope) ↔ FittingRun cfg s events := by
  induction events generalizing s with
  | nil =>
    cases ran
    exact iff_of_true before trivial
  | cons e rest ih =>
    obtain ⟨mid, acted, ran⟩ := Option.bind_eq_some_iff.mp ran
    obtain ⟨⟨id, c, out⟩, done, put⟩ := Option.bind_eq_some_iff.mp acted
    have ships := local_ships done
    dsimp only at put
    split at put
    next member =>
      cases put
      have kept : ∀ envelope ∈ (s.put id c out).net, envelope ∈ s'.net := net_mono ran
      have sent : (∀ envelope ∈ out, Wire.Deliverable secret envelope) ↔ _ := ships.deliverable_iff
        fun envelope mem => typed envelope (kept envelope (List.mem_append_right _ mem))
      rw [FittingRun, ← sent, acted]
      constructor
      · intro all
        have here : ∀ envelope ∈ out, Wire.Deliverable secret envelope :=
          fun envelope mem => all envelope (kept envelope (List.mem_append_right _ mem))
        exact ⟨here, (ih ran (forall_mem_put before here)).mp all⟩
      · rintro ⟨here, later⟩
        exact (ih ran (forall_mem_put before here)).mpr later
    next => cases put

/-- Every envelope of a run is delivered if and only if every step of the run ships entries that fit
into one frame. -/
theorem deliverable_run (cfg : Cluster) (secret : List UInt8) (events : List (Event LogRecord))
    (s : System LogRecord) (ran : (System.init cfg).exec cfg events = some s)
    (typed : ∀ envelope ∈ s.net, Wire.Typed envelope) :
    (∀ envelope ∈ s.net, Wire.Deliverable secret envelope) ↔
      FittingRun cfg (System.init cfg) events :=
  deliverable_exec ran typed fun _ none => absurd none List.not_mem_nil

instance (entries : List (LogEntry LogRecord)) : Decidable (FitsFrame entries) :=
  inferInstanceAs (Decidable (_ ∧ _))

def decideFittingRun (cfg : Cluster) :
    (s : System LogRecord) → (events : List (Event LogRecord)) → Decidable (FittingRun cfg s events)
  | _, [] => inferInstanceAs (Decidable True)
  | s, e :: rest =>
    have : Decidable (match s.act cfg e with
        | some s' => FittingRun cfg s' rest
        | none => True) :=
      match s.act cfg e with
      | some s' => decideFittingRun cfg s' rest
      | none => inferInstanceAs (Decidable True)
    inferInstanceAs (Decidable (_ ∧ _))

instance : Decidable (FittingRun cfg s events) := decideFittingRun cfg s events

-- Node 1 is elected and proposes a command twice; nothing of it reaches the others.
def proposedTwice (command : LogRecord) : List (Event LogRecord) :=
  [.tick 1, .receive 0, .receive 2, .propose 1 command, .propose 1 command]

theorem deliverable_run_three : ∃ s,
    (System.init three).exec three (proposedTwice (.delete .nil)) = some s ∧
      ∀ envelope ∈ s.net, Wire.Deliverable [1, 2, 3] envelope := by
  obtain ⟨s, ran, typed⟩ := Option.map_eq_some_iff.mp (show ((System.init three).exec three
    (proposedTwice (.delete .nil))).map (fun s => decide (∀ envelope ∈ s.net, Wire.Typed envelope)) =
    some true by decide)
  exact ⟨s, ran, (deliverable_run three [1, 2, 3] _ s ran (of_decide_eq_true typed)).mpr
    (by decide)⟩

-- An entity with `size` bytes of body.
def bulk (size : Nat) : LogRecord :=
  .insert
    { id := .nil
      createdBy := .fromBytes []
      modifiedBy := .fromBytes []
      modifiedAtNs := 0
      name := ""
      description := ""
      flags := ⟨0⟩
      entityKind := .data
      schemaRef := .nil
      bodyOffset := 0
      bodyLen := 0 }
    (List.replicate size 0)

def secondRequest (command : LogRecord) : Wire.Message :=
  { from_ := 1
    to_ := 2
    rpc := .appendEntriesRequest 1 1 0 0 [⟨1, command⟩, ⟨1, command⟩] 0 }

theorem secondRequest_sent (command : LogRecord) : ∃ s,
    (System.init three).exec three (proposedTwice command) = some s ∧ secondRequest command ∈ s.net := by
  have seventh : ((System.init three).exec three (proposedTwice command)).map (fun s => s.net[7]?) =
      some (some (secondRequest command)) := rfl
  obtain ⟨s, ran, there⟩ := Option.map_eq_some_iff.mp seventh
  exact ⟨s, ran, List.mem_of_getElem? there⟩

theorem secondRequest_typed (command : LogRecord) : Wire.Typed (secondRequest command) where
  sender := by simp [secondRequest]
  receiver := by simp [secondRequest]
  rpc := by simp [secondRequest, Wire.Rpc.Typed, Wire.LogEntry.Typed]

theorem length_bulk (size : Nat) : (bulk size).payload.length = 440 + size := by
  have header : Catalog.encodedLen = 431 := rfl
  simp only [bulk, LogRecord.payload, List.length_append, List.length_singleton, length_littleEndian,
    Catalog.EntityHeader.length_encode, List.length_replicate, header]
  omega

/-- Two commands of 40 MiB, each accepted from a client, make a request that no follower accepts. -/
theorem second_request_rejected :
    (∃ buf n, LogRecord.decode buf = .ok (some (bulk (40 * 1024 * 1024), n))) ∧
    ∃ s, (System.init three).exec three (proposedTwice (bulk (40 * 1024 * 1024))) = some s ∧
      ∃ envelope ∈ s.net, Wire.Typed envelope ∧ ¬ Wire.Deliverable [1, 2, 3] envelope := by
  have cap : maxFrameLen = 67108864 := rfl
  generalize large : 40 * 1024 * 1024 = size
  constructor
  · refine ⟨(bulk size).encode ++ [], (bulk size).encode.length, ?_⟩
    rw [LogRecord.decode_encode (by rw [length_bulk]; omega)]
    rfl
  · obtain ⟨s, ran, sent⟩ := secondRequest_sent (bulk size)
    have typed := secondRequest_typed (bulk size)
    refine ⟨s, ran, _, sent, typed, ?_⟩
    rw [deliverable_of_carries typed ⟨_, _, _, _, _, rfl⟩]
    rintro ⟨fits, -⟩
    simp only [List.flatMap_cons, List.flatMap_nil, List.length_append, Wire.encodeEntry,
      LogRecord.encode, length_littleEndian, length_bulk] at fits
    omega

end Runs

end Gems.Raft
