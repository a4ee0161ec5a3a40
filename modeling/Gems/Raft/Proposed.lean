import Gems.Raft.Delivery

set_option autoImplicit false

namespace Gems.Raft

open Gems.Lib Gems.Cluster RaftCore

variable {P : LogRecord → Prop} {cfg : Cluster} {s s' : System LogRecord} {e : Event LogRecord} {v : NodeId}
  {c c' d : RaftCore LogRecord} {out : List Wire.Message} {given entries : List (LogEntry LogRecord)}

structure Gains (given : List (LogEntry LogRecord)) (c c' : RaftCore LogRecord) : Prop where
  lastApplied : c'.lastApplied = c.lastApplied
  log : ∀ entry ∈ c'.log, entry ∈ c.log ∨ entry ∈ given

section Handlers

theorem Gains.same (lastApplied : c'.lastApplied = c.lastApplied) (log : c'.log = c.log) : Gains given c c' where
  lastApplied := lastApplied
  log := fun _ mem => .inl (log ▸ mem)

theorem Gains.trans (first : Gains given c d) (second : Gains given d c') : Gains given c c' where
  lastApplied := second.lastApplied.trans first.lastApplied
  log := fun entry mem => (second.log entry mem).elim (first.log entry) .inr

theorem Gains.after (second : Gains given d c') (lastApplied : d.lastApplied = c.lastApplied) (log : d.log = c.log) :
    Gains given c c' :=
  (Gains.same lastApplied log).trans second

theorem becomeFollower_gains (term : Nat) : Gains given c (c.becomeFollower term) := by
  rw [becomeFollower]
  split <;> exact .same rfl rfl

theorem replicate_gains (h : (c.replicateToAllPeers.map fun msgs => (c, msgs)) = some (c', out)) :
    Gains given c c' := by
  obtain ⟨msgs, -, same⟩ := Option.map_eq_some_iff.mp h
  obtain ⟨rfl, -⟩ := Prod.mk.inj same
  exact .same rfl rfl

theorem checkElectionWin_gains (h : c.checkElectionWin = some (c', out)) : Gains given c c' := by
  unfold checkElectionWin at h
  split at h
  next =>
    obtain ⟨rfl, -⟩ := Prod.mk.inj (Option.some.inj h)
    exact .same rfl rfl
  split at h
  next =>
    have replicated : Gains given c.becomeLeader c' := replicate_gains h
    exact replicated.after rfl rfl
  next =>
    obtain ⟨rfl, -⟩ := Prod.mk.inj (Option.some.inj h)
    exact .same rfl rfl

theorem tick_gains (h : c.tick = some (c', out)) : Gains given c c' := by
  have elect {d : RaftCore LogRecord} (h : (if d.electionElapsed ≥ d.electionTimeout then d.startElection
      else some (d, [])) = some (c', out)) : Gains given d c' := by
    split at h
    next =>
      obtain ⟨⟨won, msgs⟩, checked, same⟩ := Option.map_eq_some_iff.mp h
      obtain ⟨rfl, -⟩ := Prod.mk.inj same
      exact (checkElectionWin_gains checked).after rfl rfl
    next =>
      obtain ⟨rfl, -⟩ := Prod.mk.inj (Option.some.inj h)
      exact .same rfl rfl
  unfold tick at h
  split at h
  next =>
    dsimp only at h
    split at h
    next => exact (replicate_gains h).after rfl rfl
    next =>
      obtain ⟨rfl, -⟩ := Prod.mk.inj (Option.some.inj h)
      exact .same rfl rfl
  next => exact (elect h).after rfl rfl
  next => exact (elect h).after rfl rfl

theorem advanceCommitIndex_gains : Gains given c c.advanceCommitIndex := by
  rw [advanceCommitIndex]
  split <;> exact .same rfl rfl

theorem pushEntry_gains (command : LogRecord) : Gains [⟨c.currentTerm, command⟩] c (c.pushEntry command) where
  lastApplied := rfl
  log := fun _ mem => List.mem_append.mp mem

theorem propose_gains {command : LogRecord} {index : Nat} (h : c.propose command = some (.ok (c', index, out))) :
    Gains [⟨c.currentTerm, command⟩] c c' := by
  unfold propose at h
  split at h
  next => cases h
  next =>
    dsimp only at h
    split at h
    next =>
      obtain ⟨rfl, -⟩ := Prod.mk.inj (Except.ok.inj (Option.some.inj h))
      exact (pushEntry_gains command).trans advanceCommitIndex_gains
    next =>
      obtain ⟨msgs, -, same⟩ := Option.map_eq_some_iff.mp h
      obtain ⟨rfl, -⟩ := Prod.mk.inj (Except.ok.inj same)
      exact pushEntry_gains command

theorem mem_mergeEntries {log : List (LogEntry LogRecord)} {index : Nat} {entry : LogEntry LogRecord}
    (mem : entry ∈ mergeEntries log index entries) : entry ∈ log ∨ entry ∈ entries := by
  induction entries generalizing log index with
  | nil => exact .inl mem
  | cons first rest ih =>
    rw [mergeEntries] at mem
    rcases ih mem with old | new
    next =>
      split at old
      next =>
        split at old
        next =>
          rcases List.mem_append.mp old with kept | here
          next => exact .inl (List.mem_of_mem_take kept)
          next => exact .inr (List.mem_singleton.mp here ▸ List.mem_cons_self)
        next => exact .inl old
      next =>
        rcases List.mem_append.mp old with kept | here
        next => exact .inl kept
        next => exact .inr (List.mem_singleton.mp here ▸ List.mem_cons_self)
    next => exact .inr (List.mem_cons_of_mem first new)

theorem acceptEntries_gains (prevLogIndex leaderCommit : Nat) :
    Gains entries c (c.acceptEntries prevLogIndex entries leaderCommit) := by
  rw [acceptEntries_eq]
  exact ⟨rfl, fun _ mem => mem_mergeEntries mem⟩

theorem handleRequestVote_gains (term : Nat) (candidateId : NodeId) (lastLogIndex lastLogTerm : Nat) :
    Gains given c (c.handleRequestVote term candidateId lastLogIndex lastLogTerm).1 := by
  have current : Gains given c (if term > c.currentTerm then c.becomeFollower term else c) := by
    split
    next => exact becomeFollower_gains term
    next => exact .same rfl rfl
  rw [handleRequestVote]
  generalize (if term > c.currentTerm then c.becomeFollower term else c) = d at current ⊢
  split
  next => exact current.trans (.same rfl rfl)
  next => exact current

theorem handleVoteResponse_gains {term : Nat} {voteGranted : Bool} {voterId : NodeId}
    (h : c.handleVoteResponse term voteGranted voterId = some (c', out)) : Gains given c c' := by
  unfold handleVoteResponse at h
  split at h
  next =>
    obtain ⟨rfl, -⟩ := Prod.mk.inj (Option.some.inj h)
    exact becomeFollower_gains term
  split at h
  next =>
    obtain ⟨rfl, -⟩ := Prod.mk.inj (Option.some.inj h)
    exact .same rfl rfl
  next =>
    refine (checkElectionWin_gains h).after ?_ ?_ <;>
      split <;> rfl

theorem handleAppendEntries_gains (term : Nat) (leaderId : NodeId) (prevLogIndex prevLogTerm leaderCommit : Nat) :
    Gains entries c (c.handleAppendEntries term leaderId prevLogIndex prevLogTerm entries leaderCommit).1 := by
  rw [handleAppendEntries]
  split
  next => exact .same rfl rfl
  next =>
    dsimp only
    split
    next => exact becomeFollower_gains term
    next => exact (becomeFollower_gains term).trans (acceptEntries_gains prevLogIndex leaderCommit)

theorem handleAppendResponse_gains {term matchIndex : Nat} {success : Bool} {followerId : NodeId}
    (h : c.handleAppendResponse term success matchIndex followerId = some (c', out)) : Gains given c c' := by
  unfold handleAppendResponse at h
  split at h
  next =>
    obtain ⟨rfl, -⟩ := Prod.mk.inj (Option.some.inj h)
    exact becomeFollower_gains term
  split at h
  next =>
    obtain ⟨rfl, -⟩ := Prod.mk.inj (Option.some.inj h)
    exact .same rfl rfl
  have recorded : Gains given c (c.recordMatch followerId matchIndex).advanceCommitIndex :=
    advanceCommitIndex_gains.after rfl rfl
  split at h
  next =>
    dsimp only at h
    split at h
    next => exact recorded.trans (replicate_gains h)
    next =>
      obtain ⟨rfl, -⟩ := Prod.mk.inj (Option.some.inj h)
      exact recorded
  next =>
    obtain ⟨rpc, -, same⟩ := Option.map_eq_some_iff.mp h
    obtain ⟨rfl, -⟩ := Prod.mk.inj same
    exact .same rfl rfl

def brought (envelope : Wire.Message) : List (LogEntry LogRecord) :=
  match envelope.rpc with
  | .appendEntriesRequest _ _ _ _ entries _ => entries
  | _ => []

theorem receive_gains {envelope : Wire.Message} (h : c.receive envelope = some (c', out)) :
    Gains (brought envelope) c c' := by
  obtain ⟨sender, receiver, rpc⟩ := envelope
  cases rpc with
  | requestVoteRequest term candidateId lastLogIndex lastLogTerm =>
    obtain ⟨rfl, -⟩ := Prod.mk.inj (Option.some.inj h)
    exact handleRequestVote_gains term candidateId lastLogIndex lastLogTerm
  | requestVoteResponse term voteGranted voterId => exact handleVoteResponse_gains h
  | appendEntriesRequest term leaderId prevLogIndex prevLogTerm entries leaderCommit =>
    obtain ⟨rfl, -⟩ := Prod.mk.inj (Option.some.inj h)
    exact handleAppendEntries_gains term leaderId prevLogIndex prevLogTerm leaderCommit
  | appendEntriesResponse term success matchIndex followerId => exact handleAppendResponse_gains h

theorem takeLoop_taken {turns : Nat} {taken taken' : List (LogEntry LogRecord)}
    (h : takeLoop turns c taken = some (c', taken')) :
    c'.log = c.log ∧ c.lastApplied ≤ c'.lastApplied ∧ c'.lastApplied ≤ max c.lastApplied c.commitIndex ∧
      taken' = taken ++ (c.log.take c'.lastApplied).drop c.lastApplied ∧
      (c'.lastApplied = c.lastApplied ∨ c'.lastApplied ≤ c.log.length) := by
  induction turns generalizing c taken with
  | zero =>
    obtain ⟨rfl, rfl⟩ := Prod.mk.inj (Option.some.inj h)
    refine ⟨rfl, le_rfl, le_max_left _ _, ?_, .inl rfl⟩
    rw [List.drop_eq_nil_of_le (List.length_take_le _ _), List.append_nil]
  | succ turns ih =>
    unfold takeLoop at h
    split at h
    next behind =>
      obtain ⟨entry, here, rest⟩ := Option.bind_eq_some_iff.mp h
      obtain ⟨inside, rfl⟩ := List.getElem?_eq_some_iff.mp here
      obtain ⟨log, le, bound, rfl, size⟩ := ih rest
      dsimp only at log le bound size
      refine ⟨log, by omega, by omega, ?_, .inr (size.elim (fun same => by omega) id)⟩
      have front : c.lastApplied < (c.log.take c'.lastApplied).length := by
        rw [List.length_take]
        omega
      rw [List.drop_eq_getElem_cons front, List.getElem_take, List.append_assoc]
      rfl
    next =>
      obtain ⟨rfl, rfl⟩ := Prod.mk.inj (Option.some.inj h)
      refine ⟨rfl, le_rfl, le_max_left _ _, ?_, .inl rfl⟩
      rw [List.drop_eq_nil_of_le (List.length_take_le _ _), List.append_nil]

end Handlers

section Runs

structure AllCommands (P : LogRecord → Prop) (s : System LogRecord) : Prop where
  log : ∀ v, ∀ entry ∈ (s.nodes v).log, P entry.command
  net : ∀ envelope ∈ s.net, ∀ entry ∈ brought envelope, P entry.command

theorem local_gains (h : s.local_ cfg e = some (v, c, out)) (notTake : ∀ id, e ≠ .takeNewlyCommitted id)
    (notRestart : ∀ id ticks, e ≠ .restart id ticks) :
    ∃ given, Gains given (s.nodes v) c ∧ ∀ entry ∈ given,
      (∃ envelope ∈ s.net, entry ∈ brought envelope) ∨ ∃ id, e = .propose id entry.command := by
  cases e with
  | tick id =>
    obtain ⟨⟨c', out'⟩, ticked, same⟩ := Option.map_eq_some_iff.mp h
    cases same
    exact ⟨[], tick_gains ticked, fun _ none => absurd none List.not_mem_nil⟩
  | propose id command =>
    obtain ⟨result, proposed, same⟩ := Option.map_eq_some_iff.mp h
    cases result with
    | error e =>
      cases same
      exact ⟨[], .same rfl rfl, fun _ none => absurd none List.not_mem_nil⟩
    | ok result =>
      obtain ⟨c', index, out'⟩ := result
      cases same
      refine ⟨_, propose_gains proposed, fun entry mem => .inr ⟨v, ?_⟩⟩
      rw [List.mem_singleton.mp mem]
  | receive index =>
    obtain ⟨envelope, there, handled⟩ := Option.bind_eq_some_iff.mp h
    obtain ⟨⟨c', out'⟩, received, same⟩ := Option.map_eq_some_iff.mp handled
    cases same
    exact ⟨_, receive_gains received, fun entry mem => .inl ⟨envelope, List.mem_of_getElem? there, mem⟩⟩
  | takeNewlyCommitted id => exact absurd rfl (notTake id)
  | setElectionTimeout id ticks =>
    cases h
    exact ⟨[], .same rfl rfl, fun _ none => absurd none List.not_mem_nil⟩
  | restart id ticks => exact absurd rfl (notRestart id ticks)

theorem local_log (all : AllCommands P s) (h : s.local_ cfg e = some (v, c, out))
    (proposed : ∀ id command, e = .propose id command → P command) : ∀ entry ∈ c.log, P entry.command := by
  have kept (same : c.log = (s.nodes v).log) : ∀ entry ∈ c.log, P entry.command := same ▸ all.log v
  by_cases taking : ∃ id, e = .takeNewlyCommitted id
  · obtain ⟨id, rfl⟩ := taking
    obtain ⟨⟨c', taken⟩, stepped, same⟩ := Option.map_eq_some_iff.mp h
    cases same
    exact kept (takeLoop_taken stepped).1
  by_cases restarting : ∃ id ticks, e = .restart id ticks
  · obtain ⟨id, ticks, rfl⟩ := restarting
    cases h
    exact kept rfl
  obtain ⟨given, gains, sources⟩ := local_gains h (fun id same => taking ⟨id, same⟩)
    fun id ticks same => restarting ⟨id, ticks, same⟩
  intro entry mem
  rcases gains.log entry mem with old | new
  · exact all.log v entry old
  rcases sources entry new with ⟨envelope, there, inside⟩ | ⟨id, same⟩
  · exact all.net envelope there entry inside
  · exact proposed id entry.command same

theorem brought_of_carries {envelope : Wire.Message} (carries : Carries envelope entries) :
    brought envelope = entries := by
  obtain ⟨term, leaderId, prevLogIndex, prevLogTerm, leaderCommit, same⟩ := carries
  rw [brought, same]

theorem brought_of_small {envelope : Wire.Message} (small : Small envelope) : brought envelope = [] := by
  obtain ⟨sender, receiver, rpc⟩ := envelope
  cases rpc with
  | appendEntriesRequest => exact absurd ⟨_, _, _, _, _, rfl⟩ (small _)
  | _ => rfl

theorem ships_log {ships : List (LogEntry LogRecord)} (mem : ships ∈ s.ships e)
    (h : s.local_ cfg e = some (v, c, out)) : ∀ entry ∈ ships, entry ∈ c.log ∨ entry ∈ (s.nodes v).log := by
  have part {d : RaftCore LogRecord} (mem : ships ∈ d.suffixes) : ∀ entry ∈ ships, entry ∈ d.log := by
    obtain ⟨p, -, rfl⟩ := List.mem_map.mp mem
    exact fun entry inside => List.mem_of_mem_drop inside
  cases e with
  | tick id =>
    obtain ⟨⟨c', out'⟩, -, same⟩ := Option.map_eq_some_iff.mp h
    cases same
    rw [System.ships, tickShips] at mem
    split at mem
    next => exact fun entry inside => .inr (part mem entry inside)
    next => cases mem
  | propose id command =>
    obtain ⟨result, proposed, same⟩ := Option.map_eq_some_iff.mp h
    rw [System.ships, proposeShips] at mem
    split at mem
    next leads =>
      cases result with
      | error e =>
        rw [propose, if_neg (not_not.mpr leads)] at proposed
        dsimp only at proposed
        split at proposed
        next => cases proposed
        next =>
          obtain ⟨_, -, wrong⟩ := Option.map_eq_some_iff.mp proposed
          cases wrong
      | ok result =>
        obtain ⟨c', index, out'⟩ := result
        cases same
        have log : c.log = ((s.nodes v).pushEntry command).log := by
          rw [propose, if_neg (not_not.mpr leads)] at proposed
          dsimp only at proposed
          split at proposed
          next =>
            obtain ⟨rfl, -⟩ := Prod.mk.inj (Except.ok.inj (Option.some.inj proposed))
            rw [advanceCommitIndex]
            split <;> rfl
          next =>
            obtain ⟨msgs, -, made⟩ := Option.map_eq_some_iff.mp proposed
            obtain ⟨rfl, -⟩ := Prod.mk.inj (Except.ok.inj made)
            rfl
        exact fun entry inside => .inl (log ▸ part mem entry inside)
    next => cases mem
  | receive index =>
    obtain ⟨envelope, there, handled⟩ := Option.bind_eq_some_iff.mp h
    obtain ⟨⟨c', out'⟩, -, same⟩ := Option.map_eq_some_iff.mp handled
    cases same
    rw [System.ships, there] at mem
    dsimp only at mem
    rw [receiveShips] at mem
    split at mem
    next =>
      rw [responseShips] at mem
      split at mem
      next =>
        split at mem
        next =>
          dsimp only at mem
          split at mem
          next => exact fun entry inside => .inr (part mem entry inside)
          next => cases mem
        next =>
          rw [List.mem_singleton.mp mem]
          exact fun entry inside => .inr (List.mem_of_mem_drop inside)
      next => cases mem
    next => cases mem
  | takeNewlyCommitted id => cases mem
  | setElectionTimeout id ticks => cases mem
  | restart id ticks => cases mem

theorem act_commands (all : AllCommands P s) (h : s.act cfg e = some s')
    (proposed : ∀ id command, e = .propose id command → P command) : AllCommands P s' := by
  obtain ⟨⟨id, c, out⟩, stepped, inside⟩ := Option.bind_eq_some_iff.mp h
  dsimp only at inside
  split at inside
  next =>
    obtain rfl := Option.some.inj inside
    have log := local_log all stepped proposed
    constructor
    · intro v
      by_cases same : v = id
      · subst same
        simpa [System.put] using log
      · simpa [System.put, same] using all.log v
    · intro envelope mem entry mem'
      rcases List.mem_append.mp mem with old | new
      · exact all.net envelope old entry mem'
      rcases (local_ships stepped).sound envelope new with small | ⟨entries, carries, known⟩
      · rw [brought_of_small small] at mem'
        cases mem'
      rw [brought_of_carries carries] at mem'
      rcases known with rfl | shipped
      · cases mem'
      · exact (ships_log shipped stepped entry mem').elim (log entry) (all.log id entry)
  next => cases inside

theorem init_commands : AllCommands P (System.init cfg) where
  log := fun _ _ none => absurd none List.not_mem_nil
  net := fun _ none => absurd none List.not_mem_nil

end Runs

end Gems.Raft
