import Gems.Raft.Safety
import Mathlib.Data.List.Induction

set_option autoImplicit false

namespace Gems.Raft

open Lib RaftCore

variable {Cmd : Type} {strict : Prop} {cfg : Cluster} {g g' : History Cmd} {s s' : System Cmd} {v : NodeId}
  {c c' : RaftCore Cmd} {out : List (Envelope Cmd)}

section Answers

variable {log entries rest : List (LogEntry Cmd)} {entry : LogEntry Cmd} {prevLogIndex : Nat}

theorem agrees_cons : agrees log prevLogIndex (entry :: rest) ↔
    prevLogIndex + 1 ≤ log.length ∧ termAt log (prevLogIndex + 1) = entry.term ∧
      agrees log (prevLogIndex + 1) rest := by
  by_cases inside : prevLogIndex < log.length
  · have here : termAt log (prevLogIndex + 1) = log[prevLogIndex].term :=
      termAt_succ (List.getElem?_eq_getElem inside)
    rw [agrees, agrees, List.drop_eq_getElem_cons inside, List.length_cons, List.take_succ_cons, List.map_cons,
      List.map_cons, here]
    simp only [beq_iff_eq, List.cons.injEq]
    exact ⟨fun same => ⟨inside, same⟩, And.right⟩
  · have past : ¬ prevLogIndex + 1 ≤ log.length := inside
    simp [agrees, List.drop_of_length_le (Nat.le_of_not_lt inside), past]

theorem mergeEntries_agrees (same : agrees log prevLogIndex entries) :
    mergeEntries log (prevLogIndex + 1) entries = log ∧
      prevLogIndex + entries.length ≤ max prevLogIndex log.length := by
  induction entries generalizing prevLogIndex with
  | nil => exact ⟨rfl, by simp⟩
  | cons entry rest ih =>
    obtain ⟨inside, term, later⟩ := agrees_cons.mp same
    obtain ⟨unchanged, size⟩ := ih later
    simp only [mergeEntries, inside, if_true, ne_eq, term, not_true, if_false, List.length_cons]
    exact ⟨unchanged, by omega⟩

-- A batch that does not agree ends the log with its own last entry.
theorem length_mergeEntries (fits : prevLogIndex ≤ log.length) (differs : ¬ agrees log prevLogIndex entries) :
    (mergeEntries log (prevLogIndex + 1) entries).length = prevLogIndex + entries.length := by
  induction entries generalizing prevLogIndex with
  | nil => exact absurd (by simp [agrees]) differs
  | cons entry rest ih =>
    by_cases inside : prevLogIndex + 1 ≤ log.length
    · by_cases term : termAt log (prevLogIndex + 1) = entry.term
      · have later := ih inside fun same => differs (agrees_cons.mpr ⟨inside, term, same⟩)
        simp only [mergeEntries, inside, if_true, ne_eq, term, not_true, if_false, List.length_cons]
        omega
      · have size : prevLogIndex + 1 = (log.take prevLogIndex ++ [entry]).length := by
          simp only [List.length_append, List.length_take, List.length_singleton]
          omega
        simp only [mergeEntries, inside, if_true, ne_eq, term, not_false_eq_true, Nat.add_sub_cancel]
        rw [size, mergeEntries_exact, List.length_append, ← size, List.length_cons]
        omega
    · have whole : prevLogIndex = log.length := by omega
      have size : prevLogIndex + 1 = (log ++ [entry]).length := by simp [whole]
      simp only [mergeEntries, inside, if_false]
      rw [size, mergeEntries_exact, List.length_append, ← size, List.length_cons]
      omega

/-- The request reaches the end of the log or replaces what is behind it. -/
def RaftCore.covered (c : RaftCore Cmd) (prevLogIndex : Nat) (entries : List (LogEntry Cmd)) : Prop :=
  c.log.length ≤ prevLogIndex + entries.length ∨ ¬ agrees c.log prevLogIndex entries

theorem handleAppendEntries_answer {term prevLogTerm leaderCommit : Nat} (leaderId : NodeId)
    (success : (c.handleAppendEntries term leaderId prevLogIndex prevLogTerm entries leaderCommit).2.2.1 = true) :
    let r := c.handleAppendEntries term leaderId prevLogIndex prevLogTerm entries leaderCommit
    r.2.1 = r.1.currentTerm ∧ r.2.2.2 = r.1.log.length ∧
      r.1.log = mergeEntries c.log (prevLogIndex + 1) entries ∧ prevLogIndex ≤ c.log.length := by
  unfold handleAppendEntries at success ⊢
  split at success
  · cases success
  next current =>
    dsimp only at success
    split at success
    · cases success
    next passed =>
      simp only [current, passed, if_false, Bool.false_eq_true]
      refine ⟨trivial, rfl, ?_, ?_⟩
      · rw [acceptEntries_eq, becomeFollower_log]
      · simp only [prevMatches, lastLogIndex, becomeFollower_log] at passed
        by_contra long
        have positive : prevLogIndex > 0 := by omega
        have past : prevLogIndex > c.log.length := by omega
        simp [positive, past] at passed

theorem answer_covered_iff {term prevLogTerm leaderCommit : Nat} (leaderId : NodeId)
    (success : (c.handleAppendEntries term leaderId prevLogIndex prevLogTerm entries leaderCommit).2.2.1 = true) :
    (c.handleAppendEntries term leaderId prevLogIndex prevLogTerm entries leaderCommit).2.2.2 ≤
      prevLogIndex + entries.length ↔ c.covered prevLogIndex entries := by
  obtain ⟨-, size, merged, fits⟩ := handleAppendEntries_answer leaderId success
  rw [size, merged, covered]
  by_cases same : agrees c.log prevLogIndex entries
  · rw [(mergeEntries_agrees same).1]
    exact ⟨.inl, fun h => h.resolve_right (not_not.mpr same)⟩
  · exact iff_of_true (length_mergeEntries fits same).le (.inr same)

end Answers

section Sent

-- No success among the envelopes.
def Unanswering (out : List (Envelope Cmd)) : Prop :=
  ∀ e ∈ out, ∀ term matchIndex followerId, e.rpc ≠ .appendEntriesResponse term true matchIndex followerId

theorem replicate_unanswering (built : c.replicateToAllPeers = some out) : Unanswering out := by
  intro e mem term matchIndex followerId answer
  obtain ⟨p, -, made⟩ := mem_of_mapM built mem
  obtain ⟨rpc, request, rfl⟩ := Option.map_eq_some_iff.mp made
  rw [appendEntriesFor] at request
  split at request
  · cases request
    cases answer
  · cases request

theorem checkElectionWin_unanswering (h : c.checkElectionWin = some (c', out)) : Unanswering out := by
  rw [checkElectionWin] at h
  split at h
  · cases h
    exact no_msgs
  split at h
  · obtain ⟨msgs, built, same⟩ := Option.map_eq_some_iff.mp h
    cases same
    exact replicate_unanswering built
  · cases h
    exact no_msgs

theorem tick_unanswering (h : c.tick = some (c', out)) : Unanswering out := by
  have elect {d : RaftCore Cmd} (h : (if d.electionElapsed ≥ d.electionTimeout then d.startElection
      else some (d, [])) = some (c', out)) : Unanswering out := by
    split at h
    · obtain ⟨⟨won, msgs⟩, election, same⟩ := Option.map_eq_some_iff.mp h
      cases same
      intro e mem term matchIndex followerId answer
      rcases List.mem_append.mp mem with asked | sent
      · obtain ⟨p, -, rfl⟩ := List.mem_map.mp asked
        cases answer
      · exact checkElectionWin_unanswering election e sent _ _ _ answer
    · cases h
      exact no_msgs
  unfold tick at h
  split at h
  · dsimp only at h
    split at h
    · obtain ⟨msgs, built, same⟩ := Option.map_eq_some_iff.mp h
      cases same
      exact replicate_unanswering built
    · cases h
      exact no_msgs
  · exact elect (d := { c with electionElapsed := c.electionElapsed + 1 }) h
  · exact elect (d := { c with electionElapsed := c.electionElapsed + 1 }) h

theorem propose_unanswering {command : Cmd} {index : Nat} (h : c.propose command = some (.ok (c', index, out))) :
    Unanswering out := by
  unfold propose at h
  split at h
  · simp at h
  dsimp only at h
  split at h
  · cases h
    exact no_msgs
  · obtain ⟨msgs, built, same⟩ := Option.map_eq_some_iff.mp h
    cases same
    exact replicate_unanswering built

theorem voteResponse_unanswering {term : Nat} {voteGranted : Bool} {voterId : NodeId}
    (h : c.handleVoteResponse term voteGranted voterId = some (c', out)) : Unanswering out := by
  unfold handleVoteResponse at h
  split at h
  · cases h
    exact no_msgs
  split at h
  · cases h
    exact no_msgs
  · exact checkElectionWin_unanswering h

theorem appendResponse_unanswering {term matchIndex : Nat} {success : Bool} {followerId : NodeId}
    (h : c.handleAppendResponse term success matchIndex followerId = some (c', out)) : Unanswering out := by
  unfold handleAppendResponse at h
  split at h
  · cases h
    exact no_msgs
  split at h
  · cases h
    exact no_msgs
  split at h
  · dsimp only at h
    split at h
    · obtain ⟨msgs, built, same⟩ := Option.map_eq_some_iff.mp h
      cases same
      exact replicate_unanswering built
    · cases h
      exact no_msgs
  · obtain ⟨rpc, request, same⟩ := Option.map_eq_some_iff.mp h
    cases same
    rw [appendEntriesFor] at request
    split at request
    · cases request
      intro e mem _ _ _ answer
      obtain rfl := List.mem_singleton.mp mem
      cases answer
    · cases request

theorem local_answer {id : NodeId} {event : Event Cmd} {e : Envelope Cmd} {term matchIndex : Nat} {followerId : NodeId}
    (h : s.local_ cfg event = some (id, c, out)) (mem : e ∈ out)
    (answer : e.rpc = .appendEntriesResponse term true matchIndex followerId) :
    c.currentTerm = term ∧ c.log.length = matchIndex ∧ c.id = followerId := by
  have silent (unanswering : Unanswering out) : c.currentTerm = term ∧ c.log.length = matchIndex ∧
      c.id = followerId := absurd answer (unanswering e mem _ _ _)
  cases event with
  | tick v =>
    obtain ⟨⟨c₂, msgs⟩, stepped, same⟩ := Option.map_eq_some_iff.mp h
    cases same
    exact silent (tick_unanswering stepped)
  | propose v command =>
    obtain ⟨r, stepped, same⟩ := Option.map_eq_some_iff.mp h
    rcases r with err | ⟨c₂, index, msgs⟩
    · cases same
      exact silent no_msgs
    · cases same
      exact silent (propose_unanswering stepped)
  | receive index =>
    obtain ⟨⟨from_, to_, rpc⟩, -, h⟩ := Option.bind_eq_some_iff.mp h
    obtain ⟨⟨c₂, msgs⟩, stepped, same⟩ := Option.map_eq_some_iff.mp h
    cases same
    cases rpc with
    | requestVoteRequest =>
      cases stepped
      obtain rfl := List.mem_singleton.mp mem
      cases answer
    | requestVoteResponse => exact silent (voteResponse_unanswering stepped)
    | appendEntriesRequest term' leaderId prevLogIndex prevLogTerm entries leaderCommit =>
      obtain ⟨rfl, rfl⟩ := Prod.mk.inj (Option.some.inj stepped)
      obtain rfl := List.mem_singleton.mp mem
      simp only [envelopeTo, Rpc.appendEntriesResponse.injEq] at answer
      obtain ⟨sameTerm, success, size, who⟩ := answer
      obtain ⟨current, whole, -⟩ := handleAppendEntries_answer leaderId success
      exact ⟨current.symm.trans sameTerm, whole.symm.trans size, who⟩
    | appendEntriesResponse => exact silent (appendResponse_unanswering stepped)
  | takeNewlyCommitted v =>
    obtain ⟨⟨c₂, taken⟩, stepped, same⟩ := Option.map_eq_some_iff.mp h
    cases same
    exact silent no_msgs
  | setElectionTimeout v ticks =>
    cases h
    exact silent no_msgs
  | restart v electionTimeout =>
    cases h
    exact silent no_msgs

end Sent

section Heard

/-- What a leader counts for a peer it has from an answer of its own term. -/
def Heard (net : List (Envelope Cmd)) (c : RaftCore Cmd) : Prop :=
  c.role = .leader → ∀ p m, c.matchIndex p = some m →
    m = 0 ∨ ∃ e ∈ net, e.rpc = .appendEntriesResponse c.currentTerm true m p

variable {net : List (Envelope Cmd)}

theorem Heard.more (heard : Heard net c) : Heard (net ++ out) c := by
  intro role p m known
  refine (heard role p m known).imp_right fun ⟨e, mem, answer⟩ => ?_
  exact ⟨e, List.mem_append_left _ mem, answer⟩

theorem Rule.heard (rule : Rule strict cfg net v c c' out) (heard : Heard net c) : Heard (net ++ out) c' := by
  refine Heard.more ?_
  cases rule with
  | idle | send | grant | push | retreat => exact heard
  | count from_ voterId role granted =>
    intro role'
    exact absurd (role.symm.trans role') (by decide)
  | follow | restart | stand => exact fun role => by cases role
  | accept from_ leaderId prevLogIndex prevLogTerm entries leaderCommit role =>
    intro role'
    rw [acceptEntries_eq] at role'
    exact absurd (role.symm.trans role') (by decide)
  | win role enough =>
    intro _ p m known
    simp only [becomeLeader] at known
    split at known <;> simp_all
  | matched from_ followerId matchIndex role answered =>
    intro _ p m known
    simp only [recordMatch] at known
    by_cases same : p = followerId
    · subst same
      rw [Function.update_self] at known
      cases known
      exact .inr ⟨_, answered, rfl⟩
    · rw [Function.update_of_ne same] at known
      exact heard role p m known
  | advance role =>
    intro _ p m known
    have same : c.advanceCommitIndex.matchIndex = c.matchIndex ∧
        c.advanceCommitIndex.currentTerm = c.currentTerm := by
      rw [advanceCommitIndex]
      split <;> exact ⟨rfl, rfl⟩
    rw [same.1] at known
    rw [same.2]
    exact heard role p m known

theorem Rules.heard (rules : Rules strict cfg v net c c' out) (heard : Heard net c) : Heard (net ++ out) c' := by
  induction rules with
  | nil => exact heard.more
  | cons first rest ih =>
    have later := ih (first.heard heard)
    rwa [List.append_assoc] at later

theorem act_heard {e : Event Cmd} (clean : strict → s.Clean e) (step : s.act cfg e = some s')
    (heard : ∀ v, Heard s.net (s.nodes v)) : ∀ v, Heard s'.net (s'.nodes v) := by
  obtain ⟨id, -, c, out, -, rules, rfl⟩ := System.act_rules clean step
  intro v
  by_cases same : v = id
  · subst same
    have here := rules.heard (heard v)
    simpa [System.put] using here
  · have other : Heard (s.net ++ out) (s.nodes v) := (heard v).more
    simpa [System.put, same] using other

end Heard

section Matched

/-- At some moment of the run node `w` was in term `T` with exactly `l` as its log. -/
def HadLog (cfg : Cluster) (es : List (Event Cmd)) (w T : Nat) (l : List (LogEntry Cmd)) : Prop :=
  ∃ es₁ s₁, es₁ <+: es ∧ (System.init cfg).exec cfg es₁ = some s₁ ∧ (s₁.nodes w).currentTerm = T ∧
    (s₁.nodes w).log = l

-- Every success on the wire tells of a log that its sender had, and that the leader of its term wrote.
def Answered (cfg : Cluster) (es : List (Event Cmd)) (g : History Cmd) (e : Envelope Cmd) : Prop :=
  ∀ T m w, e.rpc = .appendEntriesResponse T true m w →
    ∃ l, HadLog cfg es w T l ∧ l.length = m ∧ l <+: g.log T

variable {es es' : List (Event Cmd)} {event : Event Cmd}

theorem Answered.le {e : Envelope Cmd} (h : Answered cfg es g e) (longer : es <+: es') (grow : g.Le g') :
    Answered cfg es' g' e := by
  intro T m w answer
  obtain ⟨l, ⟨es₁, s₁, part, run, term, log⟩, size, onLeader⟩ := h T m w answer
  exact ⟨l, ⟨es₁, s₁, part.trans longer, run, term, log⟩, size, onLeader.trans (grow.log T)⟩

-- Nothing that the follower keeps is missing on the leader: its whole log was acknowledged.
theorem Inv.answer_onLeader (inv : Inv True cfg g s) (member : v ∈ cfg.members) {e : Envelope Cmd} {T m : Nat}
    (mem : e ∈ s.net) (answer : e.rpc = .appendEntriesResponse T true m v)
    (term : (s.nodes v).currentTerm = T) (size : (s.nodes v).log.length = m) : (s.nodes v).log <+: g.log T := by
  have safe := inv.safe trivial
  have acked : m ≤ g.acked v T := by
    have msg := safe.msg e mem
    rw [MsgSafe, answer] at msg
    exact msg rfl
  have inside : m ≤ (g.log T).length := acked.trans (safe.durable.acked v T)
  rcases (safe.node v member).kept T m acked with front | ⟨W, after, before, -⟩
  · have whole : (g.log T).take m = (s.nodes v).log :=
      front.eq_of_length (by rw [List.length_take, min_eq_left inside, size])
    exact whole ▸ List.take_prefix m (g.log T)
  · omega

theorem act_answered (inv' : Inv True cfg g' s') (grow : g.Le g')
    (run : (System.init cfg).exec cfg es = some s) (clean : s.Clean event) (step : s.act cfg event = some s')
    (answered : ∀ e ∈ s.net, Answered cfg es g e) : ∀ e ∈ s'.net, Answered cfg (es ++ [event]) g' e := by
  have run' : (System.init cfg).exec cfg (es ++ [event]) = some s' := by
    rw [System.exec_append, run]
    simp [System.exec, step]
  have kept : True → s.Clean event := fun _ => clean
  obtain ⟨id, member, c, out, moved, -, rfl⟩ := System.act_rules kept step
  intro e mem
  rcases List.mem_append.mp mem with old | new
  · exact (answered e old).le (List.prefix_append _ _) grow
  · intro T m w answer
    obtain ⟨term, size, who⟩ := local_answer moved new answer
    have here : (s.put id c out).nodes id = c := by simp [System.put]
    have own : w = id := by rw [← who, ← (inv'.sound.node id member).id, here]
    subst own
    refine ⟨c.log, ⟨_, _, List.prefix_rfl, run', by rw [here, term], by rw [here]⟩, size, ?_⟩
    have onLeader := inv'.answer_onLeader member mem answer (by rw [here, term]) (by rw [here, size])
    rwa [here] at onLeader

theorem exec_answered (run : (System.init cfg).exec cfg es = some s)
    (clean : (System.init cfg).CleanRun cfg es) :
    ∃ g, Inv True cfg g s ∧ (∀ v, Heard s.net (s.nodes v)) ∧ ∀ e ∈ s.net, Answered cfg es g e := by
  induction es using List.reverseRecOn generalizing s with
  | nil =>
    obtain rfl := Option.some.inj run
    exact ⟨_, inv_init True cfg, fun v role => (by cases role), no_msgs⟩
  | append_singleton es event ih =>
    rw [System.exec_append] at run
    obtain ⟨s₁, run₁, last⟩ := Option.bind_eq_some_iff.mp run
    obtain ⟨s₂, step, same⟩ := Option.bind_eq_some_iff.mp last
    obtain rfl := Option.some.inj same
    obtain ⟨before, now, -⟩ := clean.append run₁
    obtain ⟨g, inv, heard, answered⟩ := ih run₁ before
    have kept : True → s₁.Clean event := fun _ => now
    obtain ⟨g', grow, inv'⟩ := act_inv inv kept step
    exact ⟨g', inv', act_heard kept step heard,
      act_answered inv' grow run₁ now step answered⟩

/-- What a leader counts for a peer that peer once held in the leader's term, entry for entry. -/
def MatchSound (cfg : Cluster) (es : List (Event Cmd)) (s : System Cmd) : Prop :=
  ∀ v ∈ cfg.members, (s.nodes v).role = .leader → ∀ p m, (s.nodes v).matchIndex p = some m →
    m ≤ (s.nodes v).log.length ∧
      (m = 0 ∨ HadLog cfg es p (s.nodes v).currentTerm ((s.nodes v).log.take m))

/-- Counted entries are held as long as no accepted request leaves a stale tail behind; a single
answer stays within its request exactly when the request leaves no tail at all. -/
theorem match_index_sound (cfg : Cluster) (es : List (Event Cmd)) :
    (∀ s, (System.init cfg).exec cfg es = some s → (System.init cfg).CleanRun cfg es → MatchSound cfg es s) ∧
    ∀ (c : RaftCore Cmd) (term : Nat) (leaderId : NodeId) (prevLogIndex prevLogTerm : Nat)
      (entries : List (LogEntry Cmd)) (leaderCommit : Nat),
      (c.handleAppendEntries term leaderId prevLogIndex prevLogTerm entries leaderCommit).2.2.1 = true →
        ((c.handleAppendEntries term leaderId prevLogIndex prevLogTerm entries leaderCommit).2.2.2 ≤
          prevLogIndex + entries.length ↔ c.covered prevLogIndex entries) := by
  refine ⟨fun s run clean v member role p m known => ?_, fun _ _ leaderId _ _ _ _ => answer_covered_iff leaderId⟩
  obtain ⟨g, inv, heard, answered⟩ := exec_answered run clean
  have written := ((inv.sound.node v member).leader role).2
  rcases heard v role p m known with rfl | ⟨e, mem, answer⟩
  · exact ⟨Nat.zero_le _, .inl rfl⟩
  · obtain ⟨l, had, rfl, onLeader⟩ := answered e mem _ _ _ answer
    rw [written] at onLeader
    rw [List.prefix_iff_eq_take.mp onLeader] at had
    exact ⟨onLeader.length_le, .inr had⟩

theorem match_index_sound_three : ∃ s, (System.init three).exec three committed = some s ∧
    (s.nodes 1).matchIndex 2 = some 1 ∧ MatchSound three committed s := by
  obtain ⟨s, run, seen⟩ := Option.map_eq_some_iff.mp (show ((System.init three).exec three
    committed).map (fun s => (s.nodes 1).matchIndex 2) = some (some 1) by decide)
  exact ⟨s, run, seen, (match_index_sound three committed).1 s run (by decide)⟩

-- Node 3 leads term 2 with an empty log and counts one entry for node 1.
theorem match_index_unsound : ∃ s, (System.init three).exec three overrun = some s ∧
    ¬ MatchSound three overrun s := by
  obtain ⟨s, run, seen⟩ := Option.map_eq_some_iff.mp (show ((System.init three).exec three
    overrun).map (fun s => ((s.nodes 3).role, (s.nodes 3).matchIndex 1, (s.nodes 3).log.length)) =
    some (.leader, some 1, 0) by decide)
  simp only [Prod.mk.injEq] at seen
  obtain ⟨role, counted, empty⟩ := seen
  refine ⟨s, run, fun sound => ?_⟩
  have inside := (sound 3 (by decide) role 1 1 counted).1
  omega

end Matched

end Gems.Raft
