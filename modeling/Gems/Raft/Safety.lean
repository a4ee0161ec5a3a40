import Gems.Raft.Replicate

set_option autoImplicit false

namespace Gems.Raft

open Lib RaftCore

variable {Cmd : Type} {strict : Prop} {cfg : Cluster} {g g' : History Cmd} {s s₁ s₂ : System Cmd}
  {v : NodeId}

def three : Cluster where
  members := {1, 2, 3}
  peers := fun id => [1, 2, 3].filter (· ≠ id)
  electionTimeout := fun _ => 1
  heartbeatInterval := fun _ => 1
  peers_nodup := fun _ => List.Nodup.filter _ (by decide)
  mem_peers := by
    intro id _ p
    simp

-- Node 1 is elected, replicates one command to node 2 and commits it.
def committed : List (Event Nat) := [.tick 1, .receive 0, .receive 2, .propose 1 7, .receive 5, .receive 7]

section LogMatching

theorem NodeSound.matching {w : NodeId} {c d : RaftCore Cmd} {i : Nat} {e e' : LogEntry Cmd}
    (h : NodeSound cfg g v c) (h' : NodeSound cfg g w d) (found : c.log[i]? = some e)
    (found' : d.log[i]? = some e') (same : e.term = e'.term) :
    c.log.take (i + 1) = d.log.take (i + 1) :=
  h.chained.matching h'.chained found found' same

theorem log_matching {es : List (Event Cmd)} (run : (System.init cfg).exec cfg es = some s) :
    ∀ a ∈ cfg.members, ∀ b ∈ cfg.members, ∀ i e e', (s.nodes a).log[i]? = some e →
      (s.nodes b).log[i]? = some e' → e.term = e'.term →
      (s.nodes a).log.take (i + 1) = (s.nodes b).log.take (i + 1) := by
  intro a ha b hb i e e' found found' same
  obtain ⟨g, -, inv⟩ := exec_inv (inv_init False cfg) False.elim run
  exact (inv.sound.node a ha).matching (inv.sound.node b hb) found found' same

theorem log_matching_three : ∃ s, (System.init three).exec three committed = some s ∧
    (s.nodes 1).log.take 1 = (s.nodes 2).log.take 1 := by
  obtain ⟨s, run, seen⟩ := Option.map_eq_some_iff.mp (show ((System.init three).exec three
    committed).map (fun s => ((s.nodes 1).log[0]?, (s.nodes 2).log[0]?)) =
    some (some ⟨1, 7⟩, some ⟨1, 7⟩) by decide)
  obtain ⟨found, found'⟩ := Prod.mk.inj seen
  exact ⟨s, run, log_matching run 1 (by decide) 2 (by decide) 0 _ _ found found' rfl⟩

end LogMatching

section Commits

/-- Committed entries agree: `a` at one moment, `b` at a later one. -/
def CommitsAgree (cfg : Cluster) (s₁ s₂ : System Cmd) : Prop :=
  ∀ a ∈ cfg.members, ∀ b ∈ cfg.members, ∀ i, 0 < i →
    i ≤ (s₁.nodes a).commitIndex → i ≤ (s₂.nodes b).commitIndex →
    ∃ e, (s₁.nodes a).log[i - 1]? = some e ∧ (s₂.nodes b).log[i - 1]? = some e

/-- What a node has committed it keeps. -/
def CommitsStay (cfg : Cluster) (s₁ s₂ : System Cmd) : Prop :=
  ∀ a ∈ cfg.members, (s₂.nodes a).log.take (s₁.nodes a).commitIndex =
    (s₁.nodes a).log.take (s₁.nodes a).commitIndex

theorem NodeSafe.committed_entry {c : RaftCore Cmd} (h : NodeSafe cfg g v c) {i : Nat}
    (le : i ≤ c.commitIndex) : c.log.take i = (g.held v).take i := by
  obtain ⟨rest, eq⟩ := h.held
  rw [← eq, List.take_append_of_le_length (le.trans h.commit)]

theorem Safe.commits_agree (valid : g'.Valid LogEntry.term cfg.members) (h : Safe cfg g s₁)
    (h' : Safe cfg g' s₂) (grow : g.Le g') : CommitsAgree cfg s₁ s₂ := by
  intro a ha b hb i positive le le'
  have safe := h.node a ha
  have safe' := h'.node b hb
  have bound := le.trans safe.commit
  have bound' := le'.trans safe'.commit
  have same : (g.held a).take i = (g'.held b).take i := by
    have comparable := (safe.committed.le grow).comparable valid h'.durable safe'.committed
    rcases comparable with ⟨rest, eq⟩ | ⟨rest, eq⟩
    · rw [← eq, List.take_append_of_le_length bound]
    · rw [← eq, List.take_append_of_le_length bound']
  have size : i ≤ (s₁.nodes a).log.length := bound.trans safe.held.length_le
  refine ⟨(s₁.nodes a).log[i - 1], List.getElem?_eq_getElem _, ?_⟩
  rw [← List.getElem?_take_of_lt (show i - 1 < i by omega), safe'.committed_entry le', ← same,
    ← safe.committed_entry le, List.getElem?_take_of_lt (by omega)]
  exact List.getElem?_eq_getElem _

theorem Safe.commits_stay (h : Safe cfg g s₁) (h' : Safe cfg g' s₂) (grow : g.Le g') :
    CommitsStay cfg s₁ s₂ := by
  intro a ha
  have safe := h.node a ha
  rw [safe.committed_entry le_rfl]
  obtain ⟨rest, eq⟩ := (grow.held a).trans (h'.node a ha).held
  rw [← eq, List.take_append_of_le_length safe.commit]

theorem state_machine_safety {es₁ es₂ : List (Event Cmd)}
    (run₁ : (System.init cfg).exec cfg es₁ = some s₁) (run₂ : s₁.exec cfg es₂ = some s₂)
    (clean : (System.init cfg).CleanRun cfg (es₁ ++ es₂)) :
    CommitsAgree cfg s₁ s₂ ∧ CommitsAgree cfg s₂ s₁ ∧ CommitsStay cfg s₁ s₂ := by
  obtain ⟨clean₁, clean₂⟩ := clean.append run₁
  obtain ⟨g, -, inv⟩ := exec_inv (inv_init True cfg) (fun _ => clean₁) run₁
  obtain ⟨g', grow, inv'⟩ := exec_inv inv (fun _ => clean₂) run₂
  have safe := inv.safe trivial
  have safe' := inv'.safe trivial
  have agree := safe.commits_agree inv'.sound.valid safe' grow
  refine ⟨agree, ?_, safe.commits_stay safe' grow⟩
  intro a ha b hb i positive le le'
  obtain ⟨e, found, found'⟩ := agree b hb a ha i positive le' le
  exact ⟨e, found', found⟩

-- The heartbeat that follows tells node 2 about the commit.
theorem state_machine_safety_three : ∃ s₁ s₂, (System.init three).exec three committed = some s₁ ∧
    s₁.exec three [.tick 1, .receive 10] = some s₂ ∧ (s₁.nodes 1).commitIndex = 1 ∧
    (s₂.nodes 2).commitIndex = 1 ∧
    CommitsAgree three s₁ s₂ ∧ CommitsAgree three s₂ s₁ ∧ CommitsStay three s₁ s₂ := by
  obtain ⟨s₁, run₁, first⟩ := Option.map_eq_some_iff.mp (show ((System.init three).exec three
    committed).map (fun s => (s.nodes 1).commitIndex) = some 1 by decide)
  obtain ⟨s₂, whole, second⟩ := Option.map_eq_some_iff.mp (show ((System.init three).exec three
    (committed ++ [.tick 1, .receive 10])).map (fun s => (s.nodes 2).commitIndex) = some 1 by
      decide)
  rw [System.exec_append, run₁] at whole
  exact ⟨s₁, s₂, run₁, whole, first, second, state_machine_safety run₁ whole (by decide)⟩

-- Node 3, elected without node 1's entry, counts that stale entry as its own and commits; node 1
-- is elected later and commits the entry it had all along.
def diverging : List (Event Nat) :=
  [.tick 1, .receive 0, .receive 2, .propose 1 7, .tick 3, .tick 3, .receive 10, .receive 11,
    .receive 12, .propose 3 8, .receive 14, .tick 1, .receive 19, .receive 21, .propose 1 9,
    .receive 24, .receive 26, .receive 27, .receive 28]

theorem commits_diverge : ∃ s, (System.init three).exec three diverging = some s ∧
    ¬ CommitsAgree three s s := by
  obtain ⟨s, run, seen⟩ := Option.map_eq_some_iff.mp (show ((System.init three).exec three
    diverging).map (fun s => ((s.nodes 1).commitIndex, (s.nodes 3).commitIndex,
      (s.nodes 1).log[0]?, (s.nodes 3).log[0]?)) = some (2, 1, some ⟨1, 7⟩, some ⟨2, 8⟩) by
        decide +kernel)
  simp only [Prod.mk.injEq] at seen
  obtain ⟨first, third, mine, theirs⟩ := seen
  refine ⟨s, run, fun agree => ?_⟩
  obtain ⟨e, found, found'⟩ := agree 1 (by decide) 3 (by decide) 1 (by decide) (by omega) (by omega)
  rw [mine] at found
  rw [theirs, ← found] at found'
  exact absurd found' (by decide)

end Commits

section Panics

-- No follower index points past the end of the leader's log.
def Ready (c : RaftCore Cmd) : Prop := ∀ w k, c.nextIndex w = some k → k ≤ c.log.length + 1

theorem Ready.appendEntriesFor {c : RaftCore Cmd} (h : Ready c) (follower : NodeId) :
    (c.appendEntriesFor follower).isSome := by
  have bound : (c.nextIndex follower).getD (c.lastLogIndex + 1) ≤ c.log.length + 1 := by
    cases found : c.nextIndex follower with
    | none => exact le_rfl
    | some k => exact h follower k found
  have inside : (c.nextIndex follower).getD (c.lastLogIndex + 1) - 1 ≤ c.log.length := by omega
  simp [RaftCore.appendEntriesFor, inside]

theorem Ready.replicateToAllPeers {c : RaftCore Cmd} (h : Ready c) :
    c.replicateToAllPeers.isSome :=
  mapM_isSome fun p _ => by
    rw [Option.isSome_map]
    exact h.appendEntriesFor p

theorem ready_becomeLeader (c : RaftCore Cmd) : Ready c.becomeLeader := by
  intro w k found
  dsimp only [becomeLeader] at found
  split at found
  · exact (Option.some.inj found).ge
  · simp at found

theorem Ready.pushEntry {c : RaftCore Cmd} (h : Ready c) (command : Cmd) :
    Ready (c.pushEntry command) := by
  intro w k found
  have := h w k found
  simp only [RaftCore.pushEntry, List.length_append, List.length_singleton]
  omega

theorem Ready.recordMatch {c : RaftCore Cmd} (h : Ready c) {followerId : NodeId} {matchIndex : Nat}
    (inside : matchIndex ≤ c.log.length) : Ready (c.recordMatch followerId matchIndex) := by
  intro w k found
  by_cases same : w = followerId
  · subst same
    obtain rfl : matchIndex + 1 = k := by simpa [RaftCore.recordMatch] using found
    exact Nat.succ_le_succ inside
  · exact h w k (by simpa [RaftCore.recordMatch, same] using found)

theorem Ready.advanceCommitIndex {c : RaftCore Cmd} (h : Ready c) : Ready c.advanceCommitIndex := by
  dsimp only [RaftCore.advanceCommitIndex]
  split <;> exact h

theorem Ready.backOff {c : RaftCore Cmd} (h : Ready c) (followerId : NodeId) :
    Ready (c.backOff followerId) := by
  intro w k found
  by_cases same : w = followerId
  · subst same
    have bound : (c.nextIndex w).getD (c.lastLogIndex + 1) ≤ c.log.length + 1 := by
      cases known : c.nextIndex w with
      | none => exact le_rfl
      | some k => exact h w k known
    have value : (if (c.nextIndex w).getD (c.lastLogIndex + 1) > 1 then
        (c.nextIndex w).getD (c.lastLogIndex + 1) - 1
        else (c.nextIndex w).getD (c.lastLogIndex + 1)) = k := by
      simpa [RaftCore.backOff] using found
    change k ≤ c.log.length + 1
    split at value <;> omega
  · exact h w k (by simpa [RaftCore.backOff, same] using found)

theorem checkElectionWin_isSome (c : RaftCore Cmd) : c.checkElectionWin.isSome := by
  unfold checkElectionWin
  split
  · rfl
  split
  · rw [Option.isSome_map]
    exact (ready_becomeLeader c).replicateToAllPeers
  · rfl

theorem tick_isSome {c : RaftCore Cmd} (h : c.role = .leader → Ready c) : c.tick.isSome := by
  have elect (d : RaftCore Cmd) :
      (if d.electionElapsed ≥ d.electionTimeout then d.startElection else some (d, [])).isSome := by
    split
    · rw [startElection, Option.isSome_map]
      exact checkElectionWin_isSome _
    · rfl
  unfold tick
  split
  next role =>
    dsimp only
    split
    · rw [Option.isSome_map]
      exact Ready.replicateToAllPeers (h role)
    · rfl
  · exact elect _
  · exact elect _

theorem propose_isSome {c : RaftCore Cmd} (h : c.role = .leader → Ready c) (command : Cmd) :
    (c.propose command).isSome := by
  unfold propose
  split
  · rfl
  next role =>
    dsimp only
    split
    · rfl
    · rw [Option.isSome_map]
      exact ((h (not_not.mp role)).pushEntry command).replicateToAllPeers

theorem appendResponse_isSome {c : RaftCore Cmd} (h : c.role = .leader → Ready c) {term : Nat}
    {success : Bool} {matchIndex : Nat} {followerId : NodeId}
    (honest : c.role = .leader → term = c.currentTerm → success = true →
      matchIndex ≤ c.log.length) :
    (c.handleAppendResponse term success matchIndex followerId).isSome := by
  unfold handleAppendResponse
  split
  · rfl
  split
  · rfl
  next relevant =>
    obtain ⟨role, sameTerm⟩ : c.role = .leader ∧ term = c.currentTerm := by simpa using relevant
    cases success with
    | true =>
      simp only [if_true]
      split
      · rw [Option.isSome_map]
        exact ((h role).recordMatch (honest role sameTerm rfl)).advanceCommitIndex.replicateToAllPeers
      · rfl
    | false =>
      simp only [Bool.false_eq_true, if_false, Option.isSome_map]
      exact ((h role).backOff followerId).appendEntriesFor followerId

theorem takeLoop_isSome (turns : Nat) (c : RaftCore Cmd) (out : List (LogEntry Cmd))
    (inside : c.commitIndex ≤ c.log.length) : (takeLoop turns c out).isSome := by
  induction turns generalizing c out with
  | zero => rfl
  | succ turns ih =>
    unfold takeLoop
    split
    next more =>
      rw [List.getElem?_eq_getElem (by omega)]
      exact ih _ _ inside
    · rfl

theorem NodeSafe.ready {c : RaftCore Cmd} (h : NodeSafe cfg g v c) (role : c.role = .leader) :
    Ready c := fun w k found => (h.next role w k found).2

theorem Inv.act_isSome (h : Inv True cfg g s) {e : Event Cmd} (enabled : s.Enabled cfg e) :
    (s.act cfg e).isSome := by
  have ready (id : NodeId) (member : id ∈ cfg.members) :
      (s.nodes id).role = .leader → Ready (s.nodes id) :=
    ((h.safe trivial).node id member).ready
  have finish {id : NodeId} {c : RaftCore Cmd} {out : List (Envelope Cmd)} {e : Event Cmd}
      (stepped : s.local_ cfg e = some (id, c, out)) (member : id ∈ cfg.members) :
      (s.act cfg e).isSome := by
    simp [System.act, stepped, member]
  cases e with
  | tick id =>
    obtain ⟨r, stepped⟩ := Option.isSome_iff_exists.mp (tick_isSome (ready id enabled))
    exact finish (by rw [System.local_, stepped]; rfl) enabled
  | propose id command =>
    obtain ⟨r, stepped⟩ := Option.isSome_iff_exists.mp (propose_isSome (ready id enabled) command)
    cases r with
    | error err => exact finish (by rw [System.local_, stepped]; rfl) enabled
    | ok r => exact finish (by rw [System.local_, stepped]; rfl) enabled
  | receive index =>
    obtain ⟨envelope, found, member⟩ := enabled
    have handled : ((s.nodes envelope.to_).receive envelope).isSome := by
      unfold RaftCore.receive
      split
      · rfl
      · rename_i rpc
        unfold handleVoteResponse
        split
        · rfl
        split
        · rfl
        · exact checkElectionWin_isSome _
      · rfl
      next term success matchIndex followerId rpc =>
        refine appendResponse_isSome (ready _ member) fun role sameTerm ok => ?_
        have promised := (h.safe trivial).msg envelope (List.mem_of_getElem? found)
        simp only [MsgSafe, rpc] at promised
        rw [← ((h.sound.node _ member).leader role).2, ← sameTerm]
        exact (promised ok).trans ((h.safe trivial).durable.acked _ _)
    obtain ⟨r, stepped⟩ := Option.isSome_iff_exists.mp handled
    have delivered : s.local_ cfg (.receive index) = some (envelope.to_, r.1, r.2) := by
      rw [System.local_, show s.net[index]? = some envelope from found, Option.bind_some, stepped]
      rfl
    exact finish delivered member
  | takeNewlyCommitted id =>
    have safe := (h.safe trivial).node id enabled
    obtain ⟨r, stepped⟩ := Option.isSome_iff_exists.mp
      (takeLoop_isSome ((s.nodes id).commitIndex - (s.nodes id).lastApplied) (s.nodes id) []
        (safe.commit.trans safe.held.length_le))
    exact finish (by rw [System.local_, RaftCore.takeNewlyCommitted, stepped]; rfl) enabled
  | setElectionTimeout id ticks => exact finish rfl enabled
  | restart id electionTimeout => exact finish rfl enabled

/-- A leader's follower indices are in range, commits lie inside the log, and no handler panics. -/
structure Unpanicked (cfg : Cluster) (s : System Cmd) : Prop where
  next : ∀ v ∈ cfg.members, (s.nodes v).role = .leader → ∀ p ∈ (s.nodes v).peers,
    ∃ k, (s.nodes v).nextIndex p = some k ∧ 1 ≤ k ∧ k ≤ (s.nodes v).lastLogIndex + 1
  commit : ∀ v ∈ cfg.members, (s.nodes v).commitIndex ≤ (s.nodes v).log.length
  runs : ∀ e, s.Enabled cfg e → (s.act cfg e).isSome

theorem no_panic {es : List (Event Cmd)} (run : (System.init cfg).exec cfg es = some s)
    (clean : (System.init cfg).CleanRun cfg es) : Unpanicked cfg s := by
  obtain ⟨g, -, inv⟩ := exec_inv (inv_init True cfg) (fun _ => clean) run
  have safe := inv.safe trivial
  refine ⟨?_, ?_, fun e enabled => inv.act_isSome enabled⟩
  · intro v member role p inPeers
    obtain ⟨k, known⟩ := Option.isSome_iff_exists.mp ((safe.node v member).nextKnown role p inPeers)
    exact ⟨k, known, (safe.node v member).next role p k known⟩
  · intro v member
    exact (safe.node v member).commit.trans (safe.node v member).held.length_le

theorem no_panic_three : ∃ s, (System.init three).exec three committed = some s ∧
    Unpanicked three s := by
  obtain ⟨s, run⟩ := Option.isSome_iff_exists.mp (show ((System.init three).exec three
    committed).isSome by decide)
  exact ⟨s, run, no_panic run (by decide)⟩

-- Node 1's stale entry is reported back to the new leader, whose own log is empty.
def overrun : List (Event Nat) :=
  [.tick 1, .receive 0, .receive 2, .propose 1 7, .tick 3, .tick 3, .receive 10, .receive 11,
    .receive 12, .receive 14]

theorem leader_panics : ∃ s, (System.init three).exec three overrun = some s ∧
    (s.nodes 3).role = .leader ∧ s.act three (.tick 3) = none ∧ ¬ Unpanicked three s := by
  obtain ⟨s, run, seen⟩ := Option.map_eq_some_iff.mp (show ((System.init three).exec three
    overrun).map (fun s => ((s.nodes 3).role, (s.act three (.tick 3)).isNone)) =
    some (.leader, true) by decide)
  obtain ⟨role, panics⟩ := Prod.mk.inj seen
  rw [Option.isNone_iff_eq_none] at panics
  refine ⟨s, run, role, panics, fun fine => ?_⟩
  have := fine.runs (.tick 3) (by decide : (3 : NodeId) ∈ three.members)
  simp [panics] at this

end Panics

end Gems.Raft
