import Gems.Raft.System
import Gems.Lib.Lists

set_option autoImplicit false

namespace Gems.Raft

variable {Cmd : Type}

namespace RaftCore

-- Do the terms of `log` past `prevLogIndex` agree with the batch, as far as the batch goes?
def agrees (log : List (LogEntry Cmd)) (prevLogIndex : Nat) (entries : List (LogEntry Cmd)) : Bool :=
  ((log.drop prevLogIndex).take entries.length).map (·.term) == entries.map (·.term)

/-- The request is accepted, yet leaves behind a longer tail that its leader never wrote. -/
def staleTail (c : RaftCore Cmd) (envelope : Envelope Cmd) : Bool :=
  match envelope.rpc with
  | .appendEntriesRequest term _ prevLogIndex prevLogTerm entries _ =>
    term ≥ c.currentTerm && c.prevMatches prevLogIndex prevLogTerm &&
      c.log.length > prevLogIndex + entries.length && agrees c.log prevLogIndex entries &&
      c.lastLogTerm != term
  | _ => false

end RaftCore

-- What a node may put on the wire without changing its state.
inductive Sendable (c : RaftCore Cmd) : Envelope Cmd → Prop where
  | requestVote (p : NodeId) (role : c.role = .candidate) :
      Sendable c
        (c.envelopeTo p (.requestVoteRequest c.currentTerm c.id c.lastLogIndex c.lastLogTerm))
  | replicate (p : NodeId) (rpc : Rpc Cmd) (role : c.role = .leader)
      (built : c.appendEntriesFor p = some rpc) : Sendable c (c.envelopeTo p rpc)
  | refuseVote (p : NodeId) (term : Nat) (voterId : NodeId) :
      Sendable c (c.envelopeTo p (.requestVoteResponse term false voterId))
  | refuseEntries (p : NodeId) (term : Nat) (matchIndex : Nat) (followerId : NodeId) :
      Sendable c (c.envelopeTo p (.appendEntriesResponse term false matchIndex followerId))

/-- The protocol in single moves. Every handler of RaftCore is a sequence of these. -/
inductive Rule (strict : Prop) (cfg : Cluster) (net : List (Envelope Cmd)) (v : NodeId) :
    RaftCore Cmd → RaftCore Cmd → List (Envelope Cmd) → Prop where
  | idle (c : RaftCore Cmd) (electionElapsed electionTimeout heartbeatElapsed lastApplied : Nat) :
      Rule strict cfg net v c
        { c with electionElapsed, electionTimeout, heartbeatElapsed, lastApplied } []
  | send (c : RaftCore Cmd) (out : List (Envelope Cmd)) (sendable : ∀ e ∈ out, Sendable c e) :
      Rule strict cfg net v c c out
  | follow (c : RaftCore Cmd) (term : Nat) (le : c.currentTerm ≤ term) :
      Rule strict cfg net v c (c.becomeFollower term) []
  | stand (c : RaftCore Cmd) : Rule strict cfg net v c c.standForElection []
  | grant (c : RaftCore Cmd) (from_ candidateId : NodeId) (lastLogIndex lastLogTerm : Nat)
      (asked : ⟨from_, v, .requestVoteRequest c.currentTerm candidateId lastLogIndex lastLogTerm⟩ ∈ net)
      (free : c.votedFor = none ∨ c.votedFor = some candidateId)
      (fresh : c.candidateLogIsUpToDate lastLogIndex lastLogTerm) :
      Rule strict cfg net v c (RaftCore.resetElectionTimer { c with votedFor := some candidateId })
        [c.envelopeTo from_ (.requestVoteResponse c.currentTerm true c.id)]
  | count (c : RaftCore Cmd) (from_ voterId : NodeId) (role : c.role = .candidate)
      (granted : ⟨from_, v, .requestVoteResponse c.currentTerm true voterId⟩ ∈ net) :
      Rule strict cfg net v c { c with votesReceived := insert voterId c.votesReceived } []
  | win (c : RaftCore Cmd) (role : c.role = .candidate)
      (enough : c.votesReceived.card ≥ c.majorityOf) : Rule strict cfg net v c c.becomeLeader []
  | push (c : RaftCore Cmd) (command : Cmd) (role : c.role = .leader) :
      Rule strict cfg net v c (c.pushEntry command) []
  | accept (c : RaftCore Cmd) (from_ leaderId : NodeId) (prevLogIndex prevLogTerm : Nat)
      (entries : List (LogEntry Cmd)) (leaderCommit : Nat) (role : c.role = .follower)
      (asked : ⟨from_, v, .appendEntriesRequest c.currentTerm leaderId prevLogIndex prevLogTerm
        entries leaderCommit⟩ ∈ net)
      (matches_ : c.prevMatches prevLogIndex prevLogTerm)
      (clean : strict → c.log.length ≤ prevLogIndex + entries.length ∨
        ¬ RaftCore.agrees c.log prevLogIndex entries ∨ c.lastLogTerm = c.currentTerm) :
      Rule strict cfg net v c (c.acceptEntries prevLogIndex entries leaderCommit)
        [c.envelopeTo from_ (.appendEntriesResponse c.currentTerm true
          (c.acceptEntries prevLogIndex entries leaderCommit).lastLogIndex c.id)]
  | matched (c : RaftCore Cmd) (from_ followerId : NodeId) (matchIndex : Nat) (role : c.role = .leader)
      (answered : ⟨from_, v, .appendEntriesResponse c.currentTerm true matchIndex followerId⟩ ∈ net) :
      Rule strict cfg net v c (c.recordMatch followerId matchIndex) []
  | retreat (c : RaftCore Cmd) (followerId : NodeId) (role : c.role = .leader) :
      Rule strict cfg net v c (c.backOff followerId) []
  | advance (c : RaftCore Cmd) (role : c.role = .leader) :
      Rule strict cfg net v c c.advanceCommitIndex []
  | restart (c : RaftCore Cmd) (electionTimeout : Nat) :
      Rule strict cfg net v c (System.restarted cfg c v electionTimeout) []

inductive Rules (strict : Prop) (cfg : Cluster) (v : NodeId) :
    List (Envelope Cmd) → RaftCore Cmd → RaftCore Cmd → List (Envelope Cmd) → Prop where
  | nil (net : List (Envelope Cmd)) (c : RaftCore Cmd) : Rules strict cfg v net c c []
  | cons {net out out' : List (Envelope Cmd)} {c c' c'' : RaftCore Cmd}
      (first : Rule strict cfg net v c c' out) (rest : Rules strict cfg v (net ++ out) c' c'' out') :
      Rules strict cfg v net c c'' (out ++ out')

variable {strict : Prop} {cfg : Cluster} {v : NodeId} {net : List (Envelope Cmd)}

theorem Rules.one {c c' : RaftCore Cmd} {out : List (Envelope Cmd)}
    (h : Rule strict cfg net v c c' out) : Rules strict cfg v net c c' out := by
  simpa using Rules.cons h (Rules.nil _ _)

theorem Rules.silent {c c' c'' : RaftCore Cmd} {out : List (Envelope Cmd)}
    (first : Rule strict cfg net v c c' []) (rest : Rules strict cfg v net c' c'' out) :
    Rules strict cfg v net c c'' out := by
  have rest' : Rules strict cfg v (net ++ []) c' c'' out := by rwa [List.append_nil]
  simpa using Rules.cons first rest'

namespace RaftCore

theorem replicateToAllPeers_sendable {c : RaftCore Cmd} {msgs : List (Envelope Cmd)}
    (role : c.role = .leader) (built : c.replicateToAllPeers = some msgs) :
    ∀ e ∈ msgs, Sendable c e := by
  intro e he
  obtain ⟨p, -, found⟩ := Lib.mem_of_mapM built he
  obtain ⟨rpc, hrpc, rfl⟩ := Option.map_eq_some_iff.mp found
  exact .replicate p rpc role hrpc

theorem replicate_rules {c c' : RaftCore Cmd} {out : List (Envelope Cmd)} (role : c.role = .leader)
    (h : (c.replicateToAllPeers.map fun msgs => (c, msgs)) = some (c', out)) :
    Rules strict cfg v net c c' out := by
  obtain ⟨msgs, built, same⟩ := Option.map_eq_some_iff.mp h
  obtain ⟨rfl, rfl⟩ := Prod.mk.inj same
  exact .one (.send c msgs (replicateToAllPeers_sendable role built))

theorem checkElectionWin_rules {c c' : RaftCore Cmd} {out : List (Envelope Cmd)}
    (h : c.checkElectionWin = some (c', out)) : Rules strict cfg v net c c' out := by
  unfold checkElectionWin at h
  split at h
  · obtain ⟨rfl, rfl⟩ := Prod.mk.inj (Option.some.inj h)
    exact .nil _ _
  next role =>
    have role : c.role = .candidate := not_not.mp role
    split at h
    next enough => exact .silent (.win c role enough) (replicate_rules rfl h)
    · obtain ⟨rfl, rfl⟩ := Prod.mk.inj (Option.some.inj h)
      exact .nil _ _

theorem startElection_rules {c c' : RaftCore Cmd} {out : List (Envelope Cmd)}
    (h : c.startElection = some (c', out)) : Rules strict cfg v net c c' out := by
  obtain ⟨⟨c₂, msgs⟩, checked, same⟩ := Option.map_eq_some_iff.mp h
  obtain ⟨rfl, rfl⟩ := Prod.mk.inj same
  refine .silent (.stand c) (.cons (.send _ _ ?_) (checkElectionWin_rules checked))
  intro e he
  obtain ⟨p, -, rfl⟩ := List.mem_map.mp he
  exact .requestVote p rfl

theorem tick_rules {c c' : RaftCore Cmd} {out : List (Envelope Cmd)}
    (h : c.tick = some (c', out)) : Rules strict cfg v net c c' out := by
  have elect (h : (if c.electionElapsed + 1 ≥ c.electionTimeout then
      { c with electionElapsed := c.electionElapsed + 1 }.startElection
      else some ({ c with electionElapsed := c.electionElapsed + 1 }, [])) = some (c', out)) :
      Rules strict cfg v net c c' out := by
    refine .silent (.idle c (c.electionElapsed + 1) c.electionTimeout c.heartbeatElapsed
      c.lastApplied) ?_
    split at h
    · exact startElection_rules h
    · obtain ⟨rfl, rfl⟩ := Prod.mk.inj (Option.some.inj h)
      exact .nil _ _
  unfold tick at h
  split at h
  next role =>
    dsimp only at h
    split at h
    · exact .silent (.idle c c.electionElapsed c.electionTimeout 0 c.lastApplied)
        (replicate_rules role h)
    · obtain ⟨rfl, rfl⟩ := Prod.mk.inj (Option.some.inj h)
      exact .one (.idle c c.electionElapsed c.electionTimeout (c.heartbeatElapsed + 1) c.lastApplied)
  · exact elect h
  · exact elect h

theorem propose_rules {c c' : RaftCore Cmd} {command : Cmd} {index : Nat}
    {out : List (Envelope Cmd)} (h : c.propose command = some (.ok (c', index, out))) :
    Rules strict cfg v net c c' out := by
  unfold propose at h
  split at h
  · simp at h
  next role =>
    have role : c.role = .leader := not_not.mp role
    refine .silent (.push c command role) ?_
    dsimp only at h
    split at h
    · simp only [Option.some.injEq, Except.ok.injEq, Prod.mk.injEq] at h
      obtain ⟨rfl, -, rfl⟩ := h
      exact .one (.advance _ role)
    · obtain ⟨msgs, built, same⟩ := Option.map_eq_some_iff.mp h
      simp only [Except.ok.injEq, Prod.mk.injEq] at same
      obtain ⟨rfl, -, rfl⟩ := same
      exact .one (.send _ _ (replicateToAllPeers_sendable (c := c.pushEntry command) role built))

theorem becomeFollower_term {c : RaftCore Cmd} {term : Nat} (le : c.currentTerm ≤ term) :
    (c.becomeFollower term).currentTerm = term := by
  simp only [becomeFollower, resetElectionTimer]
  split
  · rfl
  next same => exact Nat.le_antisymm le (Nat.le_of_not_lt same)

@[simp] theorem becomeFollower_log (c : RaftCore Cmd) (term : Nat) :
    (c.becomeFollower term).log = c.log := by
  simp only [becomeFollower, resetElectionTimer]
  split <;> rfl

@[simp] theorem becomeFollower_role (c : RaftCore Cmd) (term : Nat) :
    (c.becomeFollower term).role = .follower := rfl

theorem requestVote_rules {c : RaftCore Cmd} {from_ candidateId : NodeId} {term : Nat}
    {lastLogIndex lastLogTerm : Nat}
    (asked : ⟨from_, v, .requestVoteRequest term candidateId lastLogIndex lastLogTerm⟩ ∈ net) :
    Rules strict cfg v net c (c.handleRequestVote term candidateId lastLogIndex lastLogTerm).1
      [(c.handleRequestVote term candidateId lastLogIndex lastLogTerm).1.envelopeTo from_
        (.requestVoteResponse (c.handleRequestVote term candidateId lastLogIndex lastLogTerm).2.1
          (c.handleRequestVote term candidateId lastLogIndex lastLogTerm).2.2
          (c.handleRequestVote term candidateId lastLogIndex lastLogTerm).1.id)] := by
  have decide_ (d : RaftCore Cmd) :
      let r := if term = d.currentTerm ∧ (d.votedFor = none ∨ d.votedFor = some candidateId) ∧
          d.candidateLogIsUpToDate lastLogIndex lastLogTerm then
        (resetElectionTimer { d with votedFor := some candidateId }, d.currentTerm, true)
      else (d, d.currentTerm, false)
      Rules strict cfg v net d r.1
        [r.1.envelopeTo from_ (.requestVoteResponse r.2.1 r.2.2 r.1.id)] := by
    dsimp only
    split
    next yes =>
      obtain ⟨rfl, free, fresh⟩ := yes
      exact .one (.grant d from_ candidateId lastLogIndex lastLogTerm asked free fresh)
    next => exact .one (.send d _ (by
      intro e he
      obtain rfl := List.mem_singleton.mp he
      exact .refuseVote from_ _ _))
  unfold handleRequestVote
  by_cases newer : term > c.currentTerm
  · simp only [newer, if_true]
    exact .silent (.follow c term newer.le) (decide_ _)
  · simp only [newer, if_false]
    exact decide_ _

theorem voteResponse_rules {c c' : RaftCore Cmd} {from_ voterId : NodeId} {term : Nat}
    {voteGranted : Bool} {out : List (Envelope Cmd)}
    (answered : ⟨from_, v, .requestVoteResponse term voteGranted voterId⟩ ∈ net)
    (h : c.handleVoteResponse term voteGranted voterId = some (c', out)) :
    Rules strict cfg v net c c' out := by
  unfold handleVoteResponse at h
  split at h
  next newer =>
    obtain ⟨rfl, rfl⟩ := Prod.mk.inj (Option.some.inj h)
    exact .one (.follow c term (Nat.le_of_lt newer))
  split at h
  · obtain ⟨rfl, rfl⟩ := Prod.mk.inj (Option.some.inj h)
    exact .nil _ _
  next relevant =>
    obtain ⟨role, rfl⟩ : c.role = .candidate ∧ term = c.currentTerm := by simpa using relevant
    cases voteGranted with
    | true => exact .silent (.count c from_ voterId role answered) (checkElectionWin_rules h)
    | false => exact checkElectionWin_rules h

theorem appendEntries_rules {c : RaftCore Cmd} {from_ leaderId : NodeId} {term : Nat}
    {prevLogIndex prevLogTerm : Nat} {entries : List (LogEntry Cmd)} {leaderCommit : Nat}
    (asked : ⟨from_, v, .appendEntriesRequest term leaderId prevLogIndex prevLogTerm entries
      leaderCommit⟩ ∈ net)
    (clean : strict → ¬ c.staleTail ⟨from_, v, .appendEntriesRequest term leaderId prevLogIndex
      prevLogTerm entries leaderCommit⟩) :
    let r := c.handleAppendEntries term leaderId prevLogIndex prevLogTerm entries leaderCommit
    Rules strict cfg v net c r.1
      [r.1.envelopeTo from_ (.appendEntriesResponse r.2.1 r.2.2.1 r.2.2.2 r.1.id)] := by
  have refuse (d : RaftCore Cmd) (term : Nat) : Rules strict cfg v net d d
      [d.envelopeTo from_ (.appendEntriesResponse term false 0 d.id)] := .one (.send d _ (by
    intro e he
    obtain rfl := List.mem_singleton.mp he
    exact .refuseEntries from_ _ _ _))
  dsimp only
  unfold handleAppendEntries
  by_cases old : term < c.currentTerm
  · simp only [old, if_true]
    exact refuse c _
  simp only [old, if_false]
  have le : c.currentTerm ≤ term := Nat.le_of_not_lt old
  refine .silent (.follow c term le) ?_
  cases matches_ : (c.becomeFollower term).prevMatches prevLogIndex prevLogTerm with
  | false =>
    simp only [Bool.not_false, if_true]
    exact refuse _ _
  | true =>
    simp only [Bool.not_true, Bool.false_eq_true, if_false]
    have current := becomeFollower_term le
    have sameTerm : ((c.becomeFollower term).acceptEntries prevLogIndex entries
        leaderCommit).currentTerm = (c.becomeFollower term).currentTerm := by
      simp only [acceptEntries]
      split <;> rfl
    have sameId : ((c.becomeFollower term).acceptEntries prevLogIndex entries leaderCommit).id =
        (c.becomeFollower term).id := by
      simp only [acceptEntries]
      split <;> rfl
    have rule : Rule strict cfg net v (c.becomeFollower term) _ _ :=
      .accept (c.becomeFollower term) from_ leaderId prevLogIndex prevLogTerm entries leaderCommit
        rfl (by rwa [current]) matches_ (by
          intro hs
          have fine := clean hs
          rw [current]
          have sameCheck : c.prevMatches prevLogIndex prevLogTerm = true := by
            simpa [prevMatches, lastLogIndex, logTermAt] using matches_
          simp only [staleTail, sameCheck, decide_eq_true le, ge_iff_le, Bool.true_and,
            Bool.and_eq_true, decide_eq_true_eq, bne_iff_ne, ne_eq, not_and, not_not, and_imp] at fine
          simp only [becomeFollower_log, lastLogTerm]
          by_cases long : c.log.length > prevLogIndex + entries.length
          · by_cases same : agrees c.log prevLogIndex entries = true
            · exact .inr (.inr (fine long same))
            · exact .inr (.inl same)
          · exact .inl (Nat.le_of_not_lt long))
    simpa only [envelopeTo, sameTerm, sameId] using Rules.one rule

theorem appendResponse_rules {c c' : RaftCore Cmd} {from_ followerId : NodeId} {term : Nat}
    {success : Bool} {matchIndex : Nat} {out : List (Envelope Cmd)}
    (answered : ⟨from_, v, .appendEntriesResponse term success matchIndex followerId⟩ ∈ net)
    (h : c.handleAppendResponse term success matchIndex followerId = some (c', out)) :
    Rules strict cfg v net c c' out := by
  unfold handleAppendResponse at h
  split at h
  next newer =>
    obtain ⟨rfl, rfl⟩ := Prod.mk.inj (Option.some.inj h)
    exact .one (.follow c term (Nat.le_of_lt newer))
  split at h
  · obtain ⟨rfl, rfl⟩ := Prod.mk.inj (Option.some.inj h)
    exact .nil _ _
  next relevant =>
    obtain ⟨role, rfl⟩ : c.role = .leader ∧ term = c.currentTerm := by simpa using relevant
    cases success with
    | true =>
      simp only [if_true] at h
      refine .silent (.matched c from_ followerId matchIndex role answered) ?_
      refine .silent (.advance _ role) ?_
      have role' : (c.recordMatch followerId matchIndex).advanceCommitIndex.role = .leader := by
        simp only [advanceCommitIndex]
        split <;> exact role
      split at h
      · exact replicate_rules role' h
      · obtain ⟨rfl, rfl⟩ := Prod.mk.inj (Option.some.inj h)
        exact .nil _ _
    | false =>
      simp only [Bool.false_eq_true, if_false] at h
      refine .silent (.retreat c followerId role) ?_
      obtain ⟨rpc, built, same⟩ := Option.map_eq_some_iff.mp h
      obtain ⟨rfl, rfl⟩ := Prod.mk.inj same
      refine .one (.send _ _ ?_)
      intro e he
      obtain rfl := List.mem_singleton.mp he
      exact .replicate followerId rpc role built

theorem takeLoop_rules (turns : Nat) {c c' : RaftCore Cmd} {out out' : List (LogEntry Cmd)}
    (h : takeLoop turns c out = some (c', out')) : Rules strict cfg v net c c' [] := by
  induction turns generalizing c out with
  | zero =>
    obtain ⟨rfl, -⟩ := Prod.mk.inj (Option.some.inj h)
    exact .nil _ _
  | succ turns ih =>
    unfold takeLoop at h
    split at h
    · obtain ⟨entry, -, rest⟩ := Option.bind_eq_some_iff.mp h
      exact .silent (.idle c c.electionElapsed c.electionTimeout c.heartbeatElapsed
        (c.lastApplied + 1)) (ih rest)
    · obtain ⟨rfl, -⟩ := Prod.mk.inj (Option.some.inj h)
      exact .nil _ _

theorem receive_rules {c c' : RaftCore Cmd} {envelope : Envelope Cmd} {out : List (Envelope Cmd)}
    (there : envelope ∈ net) (here : envelope.to_ = v) (clean : strict → ¬ c.staleTail envelope)
    (h : c.receive envelope = some (c', out)) : Rules strict cfg v net c c' out := by
  obtain ⟨from_, to_, rpc⟩ := envelope
  obtain rfl : to_ = v := here
  cases rpc with
  | requestVoteRequest term candidateId lastLogIndex lastLogTerm =>
    obtain ⟨rfl, rfl⟩ := Prod.mk.inj (Option.some.inj h)
    exact requestVote_rules there
  | requestVoteResponse term voteGranted voterId => exact voteResponse_rules there h
  | appendEntriesRequest term leaderId prevLogIndex prevLogTerm entries leaderCommit =>
    obtain ⟨rfl, rfl⟩ := Prod.mk.inj (Option.some.inj h)
    exact appendEntries_rules there clean
  | appendEntriesResponse term success matchIndex followerId => exact appendResponse_rules there h

end RaftCore

namespace System

-- The event delivers no request that leaves a stale tail behind.
def Clean (s : System Cmd) : Event Cmd → Prop
  | .receive index =>
    ∀ envelope ∈ s.net[index]?, ¬ (s.nodes envelope.to_).staleTail envelope
  | _ => True

instance (s : System Cmd) (e : Event Cmd) : Decidable (s.Clean e) :=
  match e with
  | .receive index => inferInstanceAs (Decidable (∀ envelope ∈ s.net[index]?, _))
  | .tick _ | .propose _ _ | .takeNewlyCommitted _ | .setElectionTimeout _ _ | .restart _ _ =>
    isTrue trivial

-- No step of the run delivers a request that leaves a stale tail behind.
def CleanRun (cfg : Cluster) : System Cmd → List (Event Cmd) → Prop
  | _, [] => True
  | s, e :: rest => s.Clean e ∧ ∀ s' ∈ s.act cfg e, CleanRun cfg s' rest

instance decidableCleanRun (cfg : Cluster) :
    (s : System Cmd) → (es : List (Event Cmd)) → Decidable (s.CleanRun cfg es)
  | _, [] => isTrue trivial
  | s, e :: rest =>
    have := fun s' : System Cmd => decidableCleanRun cfg s' rest
    inferInstanceAs (Decidable (s.Clean e ∧ ∀ s' ∈ s.act cfg e, CleanRun cfg s' rest))

theorem CleanRun.append {s s' : System Cmd} {es es' : List (Event Cmd)}
    (clean : s.CleanRun cfg (es ++ es')) (run : s.exec cfg es = some s') :
    s.CleanRun cfg es ∧ s'.CleanRun cfg es' := by
  induction es generalizing s with
  | nil =>
    obtain rfl := Option.some.inj run
    exact ⟨trivial, clean⟩
  | cons e rest ih =>
    obtain ⟨s₁, step, run'⟩ := Option.bind_eq_some_iff.mp run
    have later := ih (clean.2 s₁ step) run'
    refine ⟨⟨clean.1, fun s₂ step₂ => ?_⟩, later.2⟩
    obtain rfl := Option.some.inj (step.symm.trans step₂)
    exact later.1

theorem local_rules {s : System Cmd} {e : Event Cmd} {id : NodeId} {c : RaftCore Cmd}
    {out : List (Envelope Cmd)} (clean : strict → s.Clean e)
    (h : s.local_ cfg e = some (id, c, out)) : Rules strict cfg id s.net (s.nodes id) c out := by
  cases e with
  | tick v =>
    obtain ⟨⟨c₂, msgs⟩, stepped, same⟩ := Option.map_eq_some_iff.mp h
    simp only [Prod.mk.injEq] at same
    obtain ⟨rfl, rfl, rfl⟩ := same
    exact RaftCore.tick_rules stepped
  | propose v command =>
    obtain ⟨r, stepped, same⟩ := Option.map_eq_some_iff.mp h
    rcases r with err | ⟨c₂, index, msgs⟩
    · simp only [Prod.mk.injEq] at same
      obtain ⟨rfl, rfl, rfl⟩ := same
      exact .nil _ _
    · simp only [Prod.mk.injEq] at same
      obtain ⟨rfl, rfl, rfl⟩ := same
      exact RaftCore.propose_rules stepped
  | receive index =>
    obtain ⟨envelope, found, h⟩ := Option.bind_eq_some_iff.mp h
    obtain ⟨⟨c₂, msgs⟩, stepped, same⟩ := Option.map_eq_some_iff.mp h
    simp only [Prod.mk.injEq] at same
    obtain ⟨rfl, rfl, rfl⟩ := same
    exact RaftCore.receive_rules (List.mem_of_getElem? found) rfl
      (fun hs => clean hs envelope found) stepped
  | takeNewlyCommitted v =>
    obtain ⟨⟨c₂, taken⟩, stepped, same⟩ := Option.map_eq_some_iff.mp h
    simp only [Prod.mk.injEq] at same
    obtain ⟨rfl, rfl, rfl⟩ := same
    exact RaftCore.takeLoop_rules _ stepped
  | setElectionTimeout v ticks =>
    simp only [local_, Option.some.injEq, Prod.mk.injEq] at h
    obtain ⟨rfl, rfl, rfl⟩ := h
    exact .one (.idle _ (s.nodes v).electionElapsed ticks (s.nodes v).heartbeatElapsed
      (s.nodes v).lastApplied)
  | restart v electionTimeout =>
    simp only [local_, Option.some.injEq, Prod.mk.injEq] at h
    obtain ⟨rfl, rfl, rfl⟩ := h
    exact .one (.restart _ electionTimeout)

/-- The refinement: an event of the cluster is one member running protocol rules. -/
theorem act_rules {s s' : System Cmd} {e : Event Cmd} (clean : strict → s.Clean e)
    (h : s.act cfg e = some s') :
    ∃ id ∈ cfg.members, ∃ c out, s.local_ cfg e = some (id, c, out) ∧
      Rules strict cfg id s.net (s.nodes id) c out ∧ s' = s.put id c out := by
  obtain ⟨⟨id, c, out⟩, stepped, inside⟩ := Option.bind_eq_some_iff.mp h
  dsimp only at inside
  split at inside
  next member =>
    exact ⟨id, member, c, out, stepped, local_rules clean stepped, (Option.some.inj inside).symm⟩
  · simp at inside

end System

end Gems.Raft
