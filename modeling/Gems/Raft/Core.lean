import Mathlib.Data.Finset.Card
import Mathlib.Data.List.Sort

set_option autoImplicit false

namespace Gems.Raft

-- Node ids are u32, terms and log indices u64 in the source. Ids are only compared, and a term or
-- an index would need 2^64 elections or entries before the width could show.
abbrev NodeId := Nat

inductive Role where
  | follower | candidate | leader
  deriving DecidableEq, Repr

-- RaftCore stores and ships commands without looking inside, so the LogRecord stays a parameter.
structure LogEntry (Cmd : Type) where
  term : Nat
  command : Cmd
  deriving DecidableEq, Repr

inductive Rpc (Cmd : Type) where
  | requestVoteRequest (term : Nat) (candidateId : NodeId) (lastLogIndex lastLogTerm : Nat)
  | requestVoteResponse (term : Nat) (voteGranted : Bool) (voterId : NodeId)
  | appendEntriesRequest (term : Nat) (leaderId : NodeId) (prevLogIndex prevLogTerm : Nat)
      (entries : List (LogEntry Cmd)) (leaderCommit : Nat)
  | appendEntriesResponse (term : Nat) (success : Bool) (matchIndex : Nat) (followerId : NodeId)
  deriving DecidableEq, Repr

structure Envelope (Cmd : Type) where
  from_ : NodeId
  to_ : NodeId
  rpc : Rpc Cmd
  deriving DecidableEq, Repr

inductive RaftError where
  | notLeader
  deriving DecidableEq, Repr

structure RaftCore (Cmd : Type) where
  id : NodeId
  peers : List NodeId
  currentTerm : Nat
  votedFor : Option NodeId
  log : List (LogEntry Cmd)
  commitIndex : Nat
  lastApplied : Nat
  role : Role
  votesReceived : Finset NodeId
  nextIndex : NodeId → Option Nat
  matchIndex : NodeId → Option Nat
  electionElapsed : Nat
  electionTimeout : Nat
  heartbeatElapsed : Nat
  heartbeatInterval : Nat

namespace RaftCore

variable {Cmd : Type}

def new (id : NodeId) (peers : List NodeId) (electionTimeout heartbeatInterval : Nat) :
    RaftCore Cmd :=
  { id, peers
    currentTerm := 0
    votedFor := none
    log := []
    commitIndex := 0
    lastApplied := 0
    role := .follower
    votesReceived := ∅
    nextIndex := fun _ => none
    matchIndex := fun _ => none
    electionElapsed := 0
    electionTimeout
    heartbeatElapsed := 0
    heartbeatInterval }

def restore (id : NodeId) (peers : List NodeId) (electionTimeout heartbeatInterval : Nat)
    (currentTerm : Nat) (votedFor : Option NodeId) (log : List (LogEntry Cmd)) : RaftCore Cmd :=
  { (new id peers electionTimeout heartbeatInterval : RaftCore Cmd) with
    currentTerm, votedFor, log }

def persistentState (c : RaftCore Cmd) : Nat × Option NodeId × List (LogEntry Cmd) :=
  (c.currentTerm, c.votedFor, c.log)

def lastLogIndex (c : RaftCore Cmd) : Nat := c.log.length

def lastTermOf (log : List (LogEntry Cmd)) : Nat := (log.getLast?.map (·.term)).getD 0

def lastLogTerm (c : RaftCore Cmd) : Nat := lastTermOf c.log

-- The log is 1-indexed; index 0 and everything past the end answer term 0.
def termAt (log : List (LogEntry Cmd)) (index : Nat) : Nat :=
  if index = 0 then 0 else (log[index - 1]?.map (·.term)).getD 0

def logTermAt (c : RaftCore Cmd) (index : Nat) : Nat := termAt c.log index

def envelopeTo (c : RaftCore Cmd) (to_ : NodeId) (rpc : Rpc Cmd) : Envelope Cmd :=
  { from_ := c.id, to_, rpc }

def resetElectionTimer (c : RaftCore Cmd) : RaftCore Cmd := { c with electionElapsed := 0 }

def becomeFollower (c : RaftCore Cmd) (term : Nat) : RaftCore Cmd :=
  let c := if term > c.currentTerm then { c with currentTerm := term, votedFor := none } else c
  resetElectionTimer { c with role := .follower }

def becomeLeader (c : RaftCore Cmd) : RaftCore Cmd :=
  let next := c.lastLogIndex + 1
  { c with
    role := .leader
    nextIndex := fun p => if p ∈ c.peers then some next else none
    matchIndex := fun p => if p ∈ c.peers then some 0 else none
    heartbeatElapsed := 0 }

-- `none` is the panic of the slice `self.log[prev_log_index..]` past the end.
def appendEntriesFor (c : RaftCore Cmd) (follower : NodeId) : Option (Rpc Cmd) :=
  let next := (c.nextIndex follower).getD (c.lastLogIndex + 1)
  let prevLogIndex := next - 1
  let prevLogTerm := c.logTermAt prevLogIndex
  if prevLogIndex ≤ c.log.length then
    some (.appendEntriesRequest c.currentTerm c.id prevLogIndex prevLogTerm
      (c.log.drop prevLogIndex) c.commitIndex)
  else none

def replicateToAllPeers (c : RaftCore Cmd) : Option (List (Envelope Cmd)) :=
  c.peers.mapM fun p => (c.appendEntriesFor p).map (c.envelopeTo p)

def majorityOf (c : RaftCore Cmd) : Nat := (c.peers.length + 1) / 2 + 1

def checkElectionWin (c : RaftCore Cmd) : Option (RaftCore Cmd × List (Envelope Cmd)) :=
  if c.role ≠ .candidate then some (c, [])
  else if c.votesReceived.card ≥ c.majorityOf then
    let c := c.becomeLeader
    c.replicateToAllPeers.map fun msgs => (c, msgs)
  else some (c, [])

def standForElection (c : RaftCore Cmd) : RaftCore Cmd :=
  resetElectionTimer
    { c with
      role := .candidate
      currentTerm := c.currentTerm + 1
      votedFor := some c.id
      votesReceived := {c.id} }

def requestVotes (c : RaftCore Cmd) : List (Envelope Cmd) :=
  c.peers.map fun p =>
    c.envelopeTo p (.requestVoteRequest c.currentTerm c.id c.lastLogIndex c.lastLogTerm)

def startElection (c : RaftCore Cmd) : Option (RaftCore Cmd × List (Envelope Cmd)) :=
  let c := c.standForElection
  c.checkElectionWin.map fun (c', msgs) => (c', c.requestVotes ++ msgs)

def tick (c : RaftCore Cmd) : Option (RaftCore Cmd × List (Envelope Cmd)) :=
  match c.role with
  | .leader =>
    let c := { c with heartbeatElapsed := c.heartbeatElapsed + 1 }
    if c.heartbeatElapsed ≥ c.heartbeatInterval then
      let c := { c with heartbeatElapsed := 0 }
      c.replicateToAllPeers.map fun msgs => (c, msgs)
    else some (c, [])
  | .follower | .candidate =>
    let c := { c with electionElapsed := c.electionElapsed + 1 }
    if c.electionElapsed ≥ c.electionTimeout then c.startElection else some (c, [])

def matchIndices (c : RaftCore Cmd) : List Nat :=
  (c.peers.map fun p => (c.matchIndex p).getD 0) ++ [c.lastLogIndex]

-- Descending, so position `majority_count - 1` is the highest index a majority has reached.
def advanceCommitIndex (c : RaftCore Cmd) : RaftCore Cmd :=
  let sorted := c.matchIndices.insertionSort (· ≥ ·)
  let majorityCount := c.matchIndices.length / 2 + 1
  let candidate := sorted.getD (majorityCount - 1) 0
  if candidate > c.commitIndex ∧ c.logTermAt candidate = c.currentTerm then
    { c with commitIndex := candidate }
  else c

def pushEntry (c : RaftCore Cmd) (command : Cmd) : RaftCore Cmd :=
  let entry : LogEntry Cmd := { term := c.currentTerm, command }
  { c with log := c.log ++ [entry] }

def propose (c : RaftCore Cmd) (command : Cmd) :
    Option (Except RaftError (RaftCore Cmd × Nat × List (Envelope Cmd))) :=
  if c.role ≠ .leader then some (.error .notLeader)
  else
    let c := c.pushEntry command
    let index := c.lastLogIndex
    if c.peers.isEmpty then some (.ok (c.advanceCommitIndex, index, []))
    else c.replicateToAllPeers.map fun msgs => .ok (c, index, msgs)

def candidateLogIsUpToDate (c : RaftCore Cmd) (lastLogIndex lastLogTerm : Nat) : Bool :=
  lastLogTerm > c.lastLogTerm || (lastLogTerm == c.lastLogTerm && lastLogIndex ≥ c.lastLogIndex)

def handleRequestVote (c : RaftCore Cmd) (term : Nat) (candidateId : NodeId) (lastLogIndex : Nat)
    (lastLogTerm : Nat) : RaftCore Cmd × Nat × Bool :=
  let c := if term > c.currentTerm then c.becomeFollower term else c
  if term = c.currentTerm ∧ (c.votedFor = none ∨ c.votedFor = some candidateId) ∧
      c.candidateLogIsUpToDate lastLogIndex lastLogTerm then
    (resetElectionTimer { c with votedFor := some candidateId }, c.currentTerm, true)
  else (c, c.currentTerm, false)

def handleVoteResponse (c : RaftCore Cmd) (term : Nat) (voteGranted : Bool) (voterId : NodeId) :
    Option (RaftCore Cmd × List (Envelope Cmd)) :=
  if term > c.currentTerm then some (c.becomeFollower term, [])
  else if c.role ≠ .candidate ∨ term ≠ c.currentTerm then some (c, [])
  else
    let c := if voteGranted then { c with votesReceived := insert voterId c.votesReceived } else c
    c.checkElectionWin

-- The loop over `entries`, `index` being the 1-based position of the next one.
def mergeEntries : List (LogEntry Cmd) → Nat → List (LogEntry Cmd) → List (LogEntry Cmd)
  | log, _, [] => log
  | log, index, entry :: rest =>
    let log :=
      if index ≤ log.length then
        if termAt log index ≠ entry.term then log.take (index - 1) ++ [entry] else log
      else log ++ [entry]
    mergeEntries log (index + 1) rest

-- The prev-entry check of handle_append_entries, on an already current follower.
def prevMatches (c : RaftCore Cmd) (prevLogIndex prevLogTerm : Nat) : Bool :=
  !(prevLogIndex > 0 && (prevLogIndex > c.lastLogIndex || c.logTermAt prevLogIndex != prevLogTerm))

def acceptEntries (c : RaftCore Cmd) (prevLogIndex : Nat) (entries : List (LogEntry Cmd))
    (leaderCommit : Nat) : RaftCore Cmd :=
  let c := { c with log := mergeEntries c.log (prevLogIndex + 1) entries }
  if leaderCommit > c.commitIndex then { c with commitIndex := min leaderCommit c.lastLogIndex }
  else c

def handleAppendEntries (c : RaftCore Cmd) (term : Nat) (_leaderId : NodeId) (prevLogIndex : Nat)
    (prevLogTerm : Nat) (entries : List (LogEntry Cmd)) (leaderCommit : Nat) :
    RaftCore Cmd × Nat × Bool × Nat :=
  if term < c.currentTerm then (c, c.currentTerm, false, 0)
  else
    let c := c.becomeFollower term
    if !c.prevMatches prevLogIndex prevLogTerm then (c, c.currentTerm, false, 0)
    else
      let c := c.acceptEntries prevLogIndex entries leaderCommit
      (c, c.currentTerm, true, c.lastLogIndex)

def recordMatch (c : RaftCore Cmd) (followerId : NodeId) (matchIndex : Nat) : RaftCore Cmd :=
  { c with
    matchIndex := Function.update c.matchIndex followerId (some matchIndex)
    nextIndex := Function.update c.nextIndex followerId (some (matchIndex + 1)) }

def backOff (c : RaftCore Cmd) (followerId : NodeId) : RaftCore Cmd :=
  let next := (c.nextIndex followerId).getD (c.lastLogIndex + 1)
  { c with
    nextIndex :=
      Function.update c.nextIndex followerId (some (if next > 1 then next - 1 else next)) }

def handleAppendResponse (c : RaftCore Cmd) (term : Nat) (success : Bool) (matchIndex : Nat)
    (followerId : NodeId) : Option (RaftCore Cmd × List (Envelope Cmd)) :=
  if term > c.currentTerm then some (c.becomeFollower term, [])
  else if c.role ≠ .leader ∨ term ≠ c.currentTerm then some (c, [])
  else if success then
    let c := c.recordMatch followerId matchIndex
    let previousCommit := c.commitIndex
    let c := c.advanceCommitIndex
    if c.commitIndex > previousCommit then c.replicateToAllPeers.map fun msgs => (c, msgs)
    else some (c, [])
  else
    let c := c.backOff followerId
    (c.appendEntriesFor followerId).map fun rpc => (c, [c.envelopeTo followerId rpc])

def receive (c : RaftCore Cmd) (envelope : Envelope Cmd) :
    Option (RaftCore Cmd × List (Envelope Cmd)) :=
  match envelope.rpc with
  | .requestVoteRequest term candidateId lastLogIndex lastLogTerm =>
    let (c, respTerm, voteGranted) :=
      c.handleRequestVote term candidateId lastLogIndex lastLogTerm
    some (c, [c.envelopeTo envelope.from_ (.requestVoteResponse respTerm voteGranted c.id)])
  | .requestVoteResponse term voteGranted voterId => c.handleVoteResponse term voteGranted voterId
  | .appendEntriesRequest term leaderId prevLogIndex prevLogTerm entries leaderCommit =>
    let (c, respTerm, success, matchIndex) :=
      c.handleAppendEntries term leaderId prevLogIndex prevLogTerm entries leaderCommit
    some (c, [c.envelopeTo envelope.from_ (.appendEntriesResponse respTerm success matchIndex c.id)])
  | .appendEntriesResponse term success matchIndex followerId =>
    c.handleAppendResponse term success matchIndex followerId

-- `none` is the panic of `self.log[last_applied - 1]`; the fuel is the number of turns left.
def takeLoop : Nat → RaftCore Cmd → List (LogEntry Cmd) →
    Option (RaftCore Cmd × List (LogEntry Cmd))
  | 0, c, out => some (c, out)
  | turns + 1, c, out =>
    if c.lastApplied < c.commitIndex then
      c.log[c.lastApplied]?.bind fun entry =>
        takeLoop turns { c with lastApplied := c.lastApplied + 1 } (out ++ [entry])
    else some (c, out)

def takeNewlyCommitted (c : RaftCore Cmd) : Option (RaftCore Cmd × List (LogEntry Cmd)) :=
  takeLoop (c.commitIndex - c.lastApplied) c []

end RaftCore

end Gems.Raft
