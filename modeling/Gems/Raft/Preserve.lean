import Gems.Lib.LedgerMoves
import Gems.Raft.Invariant
import Mathlib.Data.List.Sort

set_option autoImplicit false

namespace Gems.Raft

open Lib RaftCore

variable {Cmd : Type} {strict : Prop} {cfg : Cluster} {g g' : History Cmd} {s : System Cmd}
  {v : NodeId}

/-- The common shape of every rule: the history grows by what `v` did, and the invariant holds again. -/
def Moves (strict : Prop) (cfg : Cluster) (g : History Cmd) (s : System Cmd) (v : NodeId)
    (c : RaftCore Cmd) (out : List (Envelope Cmd)) : Prop :=
  ∃ g', g.Extends v g' ∧ Inv strict cfg g' (s.put v c out)

theorem Inv.moves (h : Inv strict cfg g s) {c : RaftCore Cmd} {out : List (Envelope Cmd)}
    (ext : g.Extends v g') (valid : g'.Valid LogEntry.term cfg.members)
    (node : NodeSound cfg g' v c) (msgs : ∀ e ∈ out, MsgSound g' e)
    (safe : strict → g'.Durable LogEntry.term ∧ NodeSafe cfg g' v c ∧ ∀ e ∈ out, MsgSafe cfg g' e) :
    Moves strict cfg g s v c out := by
  refine ⟨g', ext, h.sound.put ext valid node msgs, fun hs => ?_⟩
  obtain ⟨durable, node', msgs'⟩ := safe hs
  exact (h.safe hs).put ext durable node' msgs'

-- Moves that leave the history alone.
theorem Inv.still (h : Inv strict cfg g s) {c : RaftCore Cmd} {out : List (Envelope Cmd)}
    (node : NodeSound cfg g v c) (msgs : ∀ e ∈ out, MsgSound g e)
    (safe : strict → NodeSafe cfg g v c ∧ ∀ e ∈ out, MsgSafe cfg g e) :
    Moves strict cfg g s v c out :=
  h.moves (Ledger.Extends.refl v g) h.sound.valid node msgs fun hs =>
    ⟨(h.safe hs).durable, safe hs⟩

theorem no_msgs {P : Envelope Cmd → Prop} : ∀ e ∈ ([] : List (Envelope Cmd)), P e := by
  simp

theorem move_idle (h : Inv strict cfg g s) (member : v ∈ cfg.members)
    (electionElapsed electionTimeout heartbeatElapsed lastApplied : Nat) :
    Moves strict cfg g s v
      { s.nodes v with electionElapsed, electionTimeout, heartbeatElapsed, lastApplied } [] := by
  have node := h.sound.node v member
  have standing (role : (s.nodes v).role = .candidate) : Standing g v
      { s.nodes v with electionElapsed, electionTimeout, heartbeatElapsed, lastApplied } :=
    { (node.candidate role) with }
  exact h.still { node with candidate := standing } no_msgs fun hs =>
    ⟨{ (h.safe hs).node v member with }, no_msgs⟩

theorem move_send (h : Inv strict cfg g s) (member : v ∈ cfg.members) {out : List (Envelope Cmd)}
    (sendable : ∀ e ∈ out, Sendable (s.nodes v) e) : Moves strict cfg g s v (s.nodes v) out := by
  have node := h.sound.node v member
  refine h.still node ?_ fun hs => ⟨(h.safe hs).node v member, ?_⟩
  · intro e mem
    rcases sendable e mem with ⟨p, role⟩ | ⟨p, rpc, role, built⟩ | _ | _
    · have standing := node.candidate role
      refine ⟨rfl, ?_, ?_, ?_⟩
      · rw [node.id, node.vote, standing.votedSelf]
      · rw [node.id, standing.ballot]
        rfl
      · rw [node.id, standing.ballot]
        rfl
    · obtain ⟨led, same⟩ := node.leader role
      unfold appendEntriesFor at built
      dsimp only at built
      split at built
      next inside =>
        obtain rfl := Option.some.inj built
        refine ⟨rfl, by rw [node.id]; exact led, ?_⟩
        rw [same]
        exact Segment.whole_suffix _ inside
      · simp at built
    · intro granted
      simp at granted
    · trivial
  · intro e mem
    have safe := (h.safe hs).node v member
    rcases sendable e mem with _ | ⟨p, rpc, role, built⟩ | _ | _
    · trivial
    · obtain ⟨-, same⟩ := node.leader role
      unfold appendEntriesFor at built
      dsimp only at built
      split at built
      · obtain rfl := Option.some.inj built
        have onLog : (s.nodes v).log.take (s.nodes v).commitIndex <+: g.held v :=
          List.prefix_of_prefix_length_le (List.take_prefix _ _) safe.held (by
            have := safe.commit
            simp only [List.length_take]
            omega)
        have bound := safe.commit.trans safe.held.length_le
        refine ⟨by rwa [same], ?_⟩
        rw [same]
        exact safe.committed.restrict onLog
      · simp at built
    · trivial
    · intro ok
      simp at ok

theorem move_follow (h : Inv strict cfg g s) (member : v ∈ cfg.members) {term : Nat}
    (le : (s.nodes v).currentTerm ≤ term) :
    Moves strict cfg g s v ((s.nodes v).becomeFollower term) [] := by
  have node := h.sound.node v member
  have current := becomeFollower_term le
  have vote : ((s.nodes v).becomeFollower term).votedFor = g.votes term v := by
    simp only [becomeFollower, resetElectionTimer]
    split
    next newer => exact (node.later term newer).symm
    next same =>
      rw [Nat.le_antisymm (Nat.le_of_not_lt same) le, node.vote]
  have fixed {A : Type} {f : RaftCore Cmd → A}
      (hf : ∀ d : RaftCore Cmd, ∀ T V, f { d with currentTerm := T, votedFor := V } = f d)
      (hf' : ∀ d : RaftCore Cmd, f (resetElectionTimer { d with role := .follower }) = f d) :
      f ((s.nodes v).becomeFollower term) = f (s.nodes v) := by
    unfold becomeFollower
    split
    · exact (hf' _).trans (hf _ _ _)
    · exact hf' _
  refine h.still ?_ no_msgs fun hs => ⟨?_, no_msgs⟩
  · exact
      { id := (fixed (f := RaftCore.id) (fun _ _ _ => rfl) (fun _ => rfl)).trans node.id
        peers := (fixed (f := RaftCore.peers) (fun _ _ _ => rfl) (fun _ => rfl)).trans node.peers
        vote := by rw [current, vote]
        later := by
          intro T hT
          rw [current] at hT
          exact node.later T (by omega)
        led := by
          intro T hT
          rw [current]
          exact (node.led T hT).trans le
        candidate := by simp
        leader := by simp
        chained := by
          rw [becomeFollower_log, current]
          exact node.chained.mono le }
  · have safe := (h.safe hs).node v member
    exact
      { acked := by
          intro T hT
          rw [current]
          exact (safe.acked T hT).trans le
        kept := by
          intro T k hk
          rw [becomeFollower_log, current]
          exact (safe.kept T k hk).mono (by omega) List.prefix_rfl
        held := by
          rw [becomeFollower_log]
          exact safe.held
        commit := by
          rw [fixed (f := RaftCore.commitIndex) (fun _ _ _ => rfl) (fun _ => rfl)]
          exact safe.commit
        committed := by
          rw [current]
          exact safe.committed.mono le
        own := by simp
        matched := by simp
        next := by simp
        nextKnown := by simp }

theorem move_stand (h : Inv strict cfg g s) (member : v ∈ cfg.members) :
    Moves strict cfg g s v (s.nodes v).standForElection [] := by
  have node := h.sound.node v member
  have fresh : g.votes ((s.nodes v).currentTerm + 1) v = none := node.later _ (by omega)
  have ext := Ledger.stand_extends (s.nodes v).log fresh
  have voted : (g.stand ((s.nodes v).currentTerm + 1) v (s.nodes v).log).votes
      ((s.nodes v).currentTerm + 1) v = some v := by
    simp [Ledger.stand]
  refine h.moves ext
    (h.sound.valid.stand fresh member (Nat.lt_succ_self _) node.chained) ?_ no_msgs fun hs => ?_
  · exact
      { id := node.id
        peers := node.peers
        vote := by
          simp only [standForElection, resetElectionTimer, voted, node.id]
        later := by
          intro T hT
          have hT : (s.nodes v).currentTerm + 1 < T := hT
          have other : T ≠ (s.nodes v).currentTerm + 1 := by omega
          simp [Ledger.stand, other, node.later T (by omega)]
        led := by
          intro T hT
          exact (node.led T hT).trans (Nat.le_succ _)
        candidate := by
          intro _
          exact
            { votedSelf := by simp only [standForElection, resetElectionTimer, node.id]
              votes := by
                intro w hw
                obtain rfl : w = v := by
                  simpa [standForElection, resetElectionTimer, node.id] using hw
                exact voted
              unelected := by
                intro elected
                have := node.led _ elected
                exact absurd this (Nat.not_succ_le_self _)
              ballot := by
                rw [Ledger.stand_ballot, if_pos ⟨rfl, rfl⟩]
                rfl }
        leader := by simp [standForElection, resetElectionTimer]
        chained := (node.chained.mono (Nat.le_succ _)).le ext.toLe }
  · have safe := (h.safe hs).node v member
    refine ⟨(h.safe hs).durable.stand h.sound.valid fresh ?_, ?_, no_msgs⟩
    · intro U k _ acked
      exact safe.kept U k acked
    · exact
        { acked := fun T hT => (safe.acked T hT).trans (Nat.le_succ _)
          kept := by
            intro T k hk
            exact ((safe.kept T k hk).mono (Nat.le_succ _) List.prefix_rfl).le ext.toLe
              (hk.trans ((h.safe hs).durable.acked v T))
          held := safe.held
          commit := safe.commit
          committed := (safe.committed.mono (Nat.le_succ _)).le ext.toLe
          own := by simp [standForElection, resetElectionTimer]
          matched := by simp [standForElection, resetElectionTimer]
          next := by simp [standForElection, resetElectionTimer]
          nextKnown := by simp [standForElection, resetElectionTimer] }

theorem upToDate_iff (c : RaftCore Cmd) (lastLogIndex lastLogTerm : Nat) :
    c.candidateLogIsUpToDate lastLogIndex lastLogTerm = true ↔
      lastLogTerm > c.lastLogTerm ∨ lastLogTerm = c.lastLogTerm ∧ lastLogIndex ≥ c.log.length := by
  simp [candidateLogIsUpToDate, RaftCore.lastLogIndex]

theorem move_grant (h : Inv strict cfg g s) (member : v ∈ cfg.members)
    {from_ candidateId : NodeId} {lastLogIndex lastLogTerm : Nat}
    (asked : ⟨from_, v, .requestVoteRequest (s.nodes v).currentTerm candidateId lastLogIndex
      lastLogTerm⟩ ∈ s.net)
    (free : (s.nodes v).votedFor = none ∨ (s.nodes v).votedFor = some candidateId)
    (fresh : (s.nodes v).candidateLogIsUpToDate lastLogIndex lastLogTerm) :
    Moves strict cfg g s v
      (resetElectionTimer { s.nodes v with votedFor := some candidateId })
      [(s.nodes v).envelopeTo from_
        (.requestVoteResponse (s.nodes v).currentTerm true (s.nodes v).id)] := by
  have node := h.sound.node v member
  obtain ⟨sender, standing, index, lastTerm⟩ := h.sound.msg _ asked
  dsimp only at sender standing index lastTerm
  subst sender
  rw [← node.vote] at free
  have ext := Ledger.vote_extends free
  have voted : (g.vote (s.nodes v).currentTerm v from_).votes (s.nodes v).currentTerm v =
      some from_ := by
    simp [Ledger.vote]
  refine h.moves ext (h.sound.valid.vote free member standing) ?_ ?_ fun hs => ?_
  · exact
      { id := node.id
        peers := node.peers
        vote := voted
        later := by
          intro T hT
          have hT : (s.nodes v).currentTerm < T := hT
          have other : T ≠ (s.nodes v).currentTerm := by omega
          simp [Ledger.vote, other, node.later T hT]
        led := node.led
        candidate := by
          intro role
          have before := node.candidate role
          have mine : from_ = v := by
            rw [node.vote, before.votedSelf] at free
            simpa [eq_comm] using free
          exact
            { votedSelf := by simp [resetElectionTimer, mine]
              votes := fun w hw => ext.votes _ _ _ (before.votes w hw)
              unelected := before.unelected
              ballot := before.ballot }
        leader := node.leader
        chained := node.chained.le ext.toLe }
  · intro e mem
    obtain rfl := List.mem_singleton.mp mem
    intro _
    refine ⟨rfl, ?_⟩
    rw [node.id]
    exact voted
  · have safe := (h.safe hs).node v member
    refine ⟨(h.safe hs).durable.vote ?_, { safe with
      kept := fun T k hk => (safe.kept T k hk).le ext.toLe (hk.trans ((h.safe hs).durable.acked v T))
      committed := safe.committed.le ext.toLe }, by
        intro e mem
        obtain rfl := List.mem_singleton.mp mem
        trivial⟩
    intro unled U k later stamped acked
    rcases safe.kept U k acked with pre | lost
    · obtain ⟨b, below, ballot⟩ := h.sound.valid.balloted _ _ standing
      refine h.sound.valid.up_to_date node.chained ballot below stamped pre _ _ rfl rfl ?_
      rw [← index]
      have := (upToDate_iff _ _ _).mp fresh
      rw [lastTerm] at this
      exact this
    · obtain ⟨W, after, before, led, missing⟩ := lost
      have other : W ≠ (s.nodes v).currentTerm := by
        rintro rfl
        simp [unled] at led
      exact .inr ⟨W, after, by omega, led, missing⟩

theorem move_count (h : Inv strict cfg g s) (member : v ∈ cfg.members) {from_ voterId : NodeId}
    (role : (s.nodes v).role = .candidate)
    (granted : ⟨from_, v, .requestVoteResponse (s.nodes v).currentTerm true voterId⟩ ∈ s.net) :
    Moves strict cfg g s v
      { s.nodes v with votesReceived := insert voterId (s.nodes v).votesReceived } [] := by
  have node := h.sound.node v member
  have standing := node.candidate role
  obtain ⟨-, voted⟩ := h.sound.msg _ granted rfl
  refine h.still ?_ no_msgs fun hs => ⟨{ (h.safe hs).node v member with }, no_msgs⟩
  exact
    { node with
      candidate := fun _ =>
        { votedSelf := standing.votedSelf
          votes := by
            intro w hw
            rcases Finset.mem_insert.mp hw with rfl | old
            · exact voted
            · exact standing.votes w old
          unelected := standing.unelected
          ballot := standing.ballot } }

theorem move_win (h : Inv strict cfg g s) (member : v ∈ cfg.members)
    (role : (s.nodes v).role = .candidate)
    (enough : (s.nodes v).votesReceived.card ≥ (s.nodes v).majorityOf) :
    Moves strict cfg g s v (s.nodes v).becomeLeader [] := by
  have node := h.sound.node v member
  have standing := node.candidate role
  have majority := standing.majority h.sound.valid node member enough
  have unled := standing.unled h.sound.valid node member enough
  have empty := h.sound.valid.unled _ unled
  have ext := Ledger.elect_extends (v := v) (l := (s.nodes v).log)
    (Q := (s.nodes v).votesReceived) unled empty
  refine h.moves ext
    (h.sound.valid.elect unled member majority standing.votes le_rfl node.chained) ?_ no_msgs
    fun hs => ?_
  · exact
      { id := node.id
        peers := node.peers
        vote := node.vote
        later := node.later
        led := by
          intro T hT
          rcases Ledger.elect_leader hT with ⟨rfl, -⟩ | old
          · exact le_rfl
          · exact node.led T old
        candidate := by simp [becomeLeader]
        leader := by
          intro _
          simp [becomeLeader, Ledger.elect, Ledger.write]
        chained := node.chained.le ext.toLe }
  · have safe := (h.safe hs).node v member
    have durable := (h.safe hs).durable
    have old {w : NodeId} {T k : Nat}
        (hk : k ≤ (g.elect (s.nodes v).currentTerm v (s.nodes v).votesReceived
          (s.nodes v).log).acked w T) :
        k ≤ g.acked w T ∨ w = v ∧ T = (s.nodes v).currentTerm ∧ k ≤ (s.nodes v).log.length :=
      Ledger.ack_cases hk
    have log (T : Nat) : (g.elect (s.nodes v).currentTerm v (s.nodes v).votesReceived
        (s.nodes v).log).log T = if T = (s.nodes v).currentTerm then (s.nodes v).log else g.log T :=
      Ledger.write_log (v := v) _ T
    refine ⟨durable.grow h.sound.valid ext.toLe ?_ rfl ?_ ?_, ?_, no_msgs⟩
    · intro w T
      rcases old (le_refl ((g.elect _ v _ _).acked w T)) with before | ⟨-, rfl, small⟩
      · exact (before.trans (durable.acked w T)).trans (ext.log T).length_le
      · rw [log, if_pos rfl]
        exact small
    · intro T c led
      rcases Ledger.elect_leader led with ⟨rfl, rfl⟩ | before
      · refine .inr ⟨unled, by simp [Ledger.elect, standing.ballot], ?_⟩
        simpa [Ledger.elect] using standing.votes
      · exact .inl before
    · intro w T k hk
      rcases old hk with before | ⟨rfl, rfl, -⟩
      · exact .inl before
      · exact .inr node.later
    · exact
        { acked := by
            intro T hT
            rcases old (k := 1) hT with before | ⟨-, rfl, -⟩
            · exact safe.acked T before
            · exact le_rfl
          kept := by
            intro T k hk
            rcases old hk with before | ⟨-, rfl, small⟩
            · exact (safe.kept T k before).le ext.toLe (before.trans (durable.acked v T))
            · left
              rw [log, if_pos rfl]
              exact List.take_prefix _ _
          held := safe.held
          commit := safe.commit
          committed := safe.committed.le ext.toLe
          own := fun _ => Ledger.ack_here _
          matched := by
            intro _ w m hm
            have zero : m = 0 := by
              simp only [becomeLeader] at hm
              split at hm <;> simp_all
            omega
          next := by
            intro _ w k hk
            have last : k = (s.nodes v).log.length + 1 := by
              simp only [becomeLeader, lastLogIndex] at hk
              split at hk <;> simp_all
            exact ⟨by omega, last.le⟩
          nextKnown := by
            intro _ p hp
            have hp : p ∈ (s.nodes v).peers := hp
            simp [becomeLeader, hp] }

theorem move_push (h : Inv strict cfg g s) (member : v ∈ cfg.members) (command : Cmd)
    (role : (s.nodes v).role = .leader) :
    Moves strict cfg g s v ((s.nodes v).pushEntry command) [] := by
  have node := h.sound.node v member
  obtain ⟨led, same⟩ := node.leader role
  have grown : g.log (s.nodes v).currentTerm <+: ((s.nodes v).pushEntry command).log := by
    rw [same]
    exact List.prefix_append _ _
  have ext := Ledger.write_extends (.inl led) grown
  have log : (g.write (s.nodes v).currentTerm v ((s.nodes v).pushEntry command).log).log
      (s.nodes v).currentTerm = ((s.nodes v).pushEntry command).log := by
    rw [Ledger.write_log, if_pos rfl]
  have chained : Ledger.Chained LogEntry.term
      (g.write (s.nodes v).currentTerm v ((s.nodes v).pushEntry command).log)
      (s.nodes v).currentTerm ((s.nodes v).pushEntry command).log := by
    refine (node.chained.le ext.toLe).append_one (le_refl (s.nodes v).currentTerm) ?_ ?_
    · rw [ext.leader _ _ led]
      rfl
    · rw [log]
      exact List.prefix_rfl
  refine h.moves ext (h.sound.valid.write led grown chained) ?_ no_msgs fun hs => ?_
  · exact
      { id := node.id
        peers := node.peers
        vote := node.vote
        later := node.later
        led := node.led
        candidate := by simp [pushEntry, role]
        leader := fun _ => ⟨led, log⟩
        chained := chained }
  · have safe := (h.safe hs).node v member
    have durable := (h.safe hs).durable
    refine ⟨durable.grow h.sound.valid ext.toLe ?_ rfl (fun _ _ led' => .inl led') ?_, ?_, no_msgs⟩
    · intro w T
      rcases Ledger.ack_cases (le_refl ((g.write (s.nodes v).currentTerm v
        ((s.nodes v).pushEntry command).log).acked w T)) with before | ⟨-, rfl, small⟩
      · exact (before.trans (durable.acked w T)).trans (ext.log T).length_le
      · rw [log]
        exact small
    · intro w T k hk
      rcases Ledger.ack_cases hk with before | ⟨rfl, rfl, -⟩
      · exact .inl before
      · exact .inr node.later
    · have longer : (s.nodes v).log <+: ((s.nodes v).pushEntry command).log := List.prefix_append _ _
      exact
        { acked := by
            intro T hT
            rcases Ledger.ack_cases (j := 1) hT with before | ⟨-, rfl, -⟩
            · exact safe.acked T before
            · exact le_rfl
          kept := by
            intro T k hk
            rcases Ledger.ack_cases hk with before | ⟨-, rfl, small⟩
            · exact ((safe.kept T k before).mono le_rfl longer).le ext.toLe
                (before.trans (durable.acked v T))
            · left
              rw [log]
              exact List.take_prefix _ _
          held := safe.held.trans longer
          commit := safe.commit
          committed := safe.committed.le ext.toLe
          own := fun _ => Ledger.ack_here _
          matched := fun _ w m hm => (safe.matched role w m hm).trans (ext.acked w _)
          next := by
            intro _ w k hk
            have bounds := safe.next role w k hk
            have := longer.length_le
            omega
          nextKnown := fun _ p hp => safe.nextKnown role p hp }

end Gems.Raft
