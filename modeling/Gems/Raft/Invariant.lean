import Gems.Lib.Ledger
import Gems.Raft.Logs

set_option autoImplicit false

namespace Gems.Raft

open Lib RaftCore

variable {Cmd : Type}

abbrev History (Cmd : Type) := Ledger NodeId (LogEntry Cmd)

-- A candidate, as the history sees it.
structure Standing (g : History Cmd) (v : NodeId) (c : RaftCore Cmd) : Prop where
  votedSelf : c.votedFor = some v
  votes : ∀ w ∈ c.votesReceived, g.votes c.currentTerm w = some v
  unelected : g.leader c.currentTerm ≠ some v
  ballot : g.ballot c.currentTerm v = c.log

structure NodeSound (cfg : Cluster) (g : History Cmd) (v : NodeId) (c : RaftCore Cmd) : Prop where
  id : c.id = v
  peers : c.peers = cfg.peers v
  vote : g.votes c.currentTerm v = c.votedFor
  later : ∀ T, c.currentTerm < T → g.votes T v = none
  led : ∀ T, g.leader T = some v → T ≤ c.currentTerm
  candidate : c.role = .candidate → Standing g v c
  leader : c.role = .leader → g.leader c.currentTerm = some v ∧ g.log c.currentTerm = c.log
  chained : Ledger.Chained LogEntry.term g c.currentTerm c.log

def MsgSound (g : History Cmd) (e : Envelope Cmd) : Prop :=
  match e.rpc with
  | .requestVoteRequest term candidateId lastLogIndex lastLogTerm =>
    e.from_ = candidateId ∧ g.votes term candidateId = some candidateId ∧
      lastLogIndex = (g.ballot term candidateId).length ∧
      lastLogTerm = lastTermOf (g.ballot term candidateId)
  | .requestVoteResponse term voteGranted voterId =>
    voteGranted = true → e.from_ = voterId ∧ g.votes term voterId = some e.to_
  | .appendEntriesRequest term leaderId prevLogIndex prevLogTerm entries _ =>
    e.from_ = leaderId ∧ g.leader term = some leaderId ∧
      Segment (g.log term) prevLogIndex prevLogTerm entries
  | .appendEntriesResponse _ _ _ _ => True

structure Sound (cfg : Cluster) (g : History Cmd) (s : System Cmd) : Prop where
  valid : g.Valid LogEntry.term cfg.members
  node : ∀ v ∈ cfg.members, NodeSound cfg g v (s.nodes v)
  msg : ∀ e ∈ s.net, MsgSound g e

structure NodeSafe (cfg : Cluster) (g : History Cmd) (v : NodeId) (c : RaftCore Cmd) : Prop where
  acked : ∀ T, 0 < g.acked v T → T ≤ c.currentTerm
  kept : ∀ T k, k ≤ g.acked v T → g.Kept T k (c.currentTerm + 1) c.log
  held : g.held v <+: c.log
  commit : c.commitIndex ≤ (g.held v).length
  committed : g.CommittedPrefix LogEntry.term cfg.members c.currentTerm (g.held v)
  own : c.role = .leader → c.log.length ≤ g.acked v c.currentTerm
  matched : c.role = .leader → ∀ w m, c.matchIndex w = some m → m ≤ g.acked w c.currentTerm
  next : c.role = .leader → ∀ w k, c.nextIndex w = some k → 1 ≤ k ∧ k ≤ c.log.length + 1
  nextKnown : c.role = .leader → ∀ p ∈ c.peers, (c.nextIndex p).isSome

def MsgSafe (cfg : Cluster) (g : History Cmd) (e : Envelope Cmd) : Prop :=
  match e.rpc with
  | .appendEntriesRequest term _ _ _ _ leaderCommit =>
    leaderCommit ≤ (g.log term).length ∧
      g.CommittedPrefix LogEntry.term cfg.members term ((g.log term).take leaderCommit)
  | .appendEntriesResponse term success matchIndex followerId =>
    success = true → matchIndex ≤ g.acked followerId term
  | _ => True

structure Safe (cfg : Cluster) (g : History Cmd) (s : System Cmd) : Prop where
  durable : g.Durable LogEntry.term
  node : ∀ v ∈ cfg.members, NodeSafe cfg g v (s.nodes v)
  msg : ∀ e ∈ s.net, MsgSafe cfg g e

structure Inv (strict : Prop) (cfg : Cluster) (g : History Cmd) (s : System Cmd) : Prop where
  sound : Sound cfg g s
  safe : strict → Safe cfg g s

variable {cfg : Cluster} {g g' : History Cmd} {s : System Cmd} {v : NodeId}

theorem NodeSound.extends {w : NodeId} {c : RaftCore Cmd} (h : NodeSound cfg g w c) (other : w ≠ v)
    (ext : g.Extends v g') : NodeSound cfg g' w c where
  id := h.id
  peers := h.peers
  vote := by rw [ext.votes_other _ _ other, h.vote]
  later := by
    intro T hT
    rw [ext.votes_other _ _ other, h.later T hT]
  led := fun T hT => h.led T (ext.leader_other T w hT other)
  candidate := by
    intro role
    have standing := h.candidate role
    exact
      { votedSelf := standing.votedSelf
        votes := fun u hu => ext.votes _ _ _ (standing.votes u hu)
        unelected := fun elected => standing.unelected (ext.leader_other _ w elected other)
        ballot := by
          rw [ext.ballot _ w w (by rw [h.vote, standing.votedSelf]), standing.ballot] }
  leader := by
    intro role
    obtain ⟨led, same⟩ := h.leader role
    exact ⟨ext.leader _ _ led, by rw [ext.log_other _ w led other, same]⟩
  chained := h.chained.le ext.toLe

theorem MsgSound.extends {e : Envelope Cmd} (h : MsgSound g e) (grow : g.Le g') : MsgSound g' e := by
  obtain ⟨from_, to_, rpc⟩ := e
  cases rpc with
  | requestVoteRequest term candidateId lastLogIndex lastLogTerm =>
    obtain ⟨sender, voted, index, lastTerm⟩ := h
    have same := grow.ballot term candidateId candidateId voted
    exact ⟨sender, grow.votes _ _ _ voted, by rw [same, index], by rw [same, lastTerm]⟩
  | requestVoteResponse term voteGranted voterId =>
    intro granted
    obtain ⟨sender, voted⟩ := h granted
    exact ⟨sender, grow.votes _ _ _ voted⟩
  | appendEntriesRequest term leaderId prevLogIndex prevLogTerm entries leaderCommit =>
    obtain ⟨sender, led, segment⟩ := h
    exact ⟨sender, grow.leader _ _ led, segment.extend (grow.log term)⟩
  | appendEntriesResponse => trivial

theorem Sound.put (h : Sound cfg g s) {c : RaftCore Cmd} {out : List (Envelope Cmd)}
    (ext : g.Extends v g') (valid : g'.Valid LogEntry.term cfg.members)
    (node : NodeSound cfg g' v c) (msgs : ∀ e ∈ out, MsgSound g' e) :
    Sound cfg g' (s.put v c out) where
  valid := valid
  node := by
    intro w member
    by_cases same : w = v
    · subst same
      simpa [System.put] using node
    · simpa [System.put, same] using (h.node w member).extends same ext
  msg := by
    intro e mem
    rcases List.mem_append.mp mem with old | new
    · exact (h.msg e old).extends ext.toLe
    · exact msgs e new

theorem NodeSafe.extends {w : NodeId} {c : RaftCore Cmd} (h : NodeSafe cfg g w c)
    (durable : g.Durable LogEntry.term) (other : w ≠ v) (ext : g.Extends v g') :
    NodeSafe cfg g' w c where
  acked := by
    intro T
    rw [ext.acked_other w T other]
    exact h.acked T
  kept := by
    intro T k
    rw [ext.acked_other w T other]
    intro hk
    exact (h.kept T k hk).le ext.toLe (hk.trans (durable.acked w T))
  held := by
    rw [ext.held_other w other]
    exact h.held
  commit := by
    rw [ext.held_other w other]
    exact h.commit
  committed := by
    rw [ext.held_other w other]
    exact h.committed.le ext.toLe
  own := fun role => (h.own role).trans (ext.acked _ _)
  matched := fun role u m hm => (h.matched role u m hm).trans (ext.acked _ _)
  next := h.next
  nextKnown := h.nextKnown

theorem MsgSafe.extends {e : Envelope Cmd} (h : MsgSafe cfg g e) (grow : g.Le g') :
    MsgSafe cfg g' e := by
  obtain ⟨from_, to_, rpc⟩ := e
  cases rpc with
  | requestVoteRequest => trivial
  | requestVoteResponse => trivial
  | appendEntriesRequest term leaderId prevLogIndex prevLogTerm entries leaderCommit =>
    obtain ⟨bound, committed⟩ := h
    refine ⟨bound.trans (grow.log term).length_le, ?_⟩
    rw [grow.take_log bound]
    exact committed.le grow
  | appendEntriesResponse term success matchIndex followerId =>
    intro ok
    exact (h ok).trans (grow.acked _ _)

theorem Safe.put (h : Safe cfg g s) {c : RaftCore Cmd} {out : List (Envelope Cmd)}
    (ext : g.Extends v g') (durable : g'.Durable LogEntry.term) (node : NodeSafe cfg g' v c)
    (msgs : ∀ e ∈ out, MsgSafe cfg g' e) : Safe cfg g' (s.put v c out) where
  durable := durable
  node := by
    intro w member
    by_cases same : w = v
    · subst same
      simpa [System.put] using node
    · simpa [System.put, same] using (h.node w member).extends h.durable same ext
  msg := by
    intro e mem
    rcases List.mem_append.mp mem with old | new
    · exact (h.msg e old).extends ext.toLe
    · exact msgs e new

theorem Cluster.card_members {v : NodeId} (member : v ∈ cfg.members) :
    cfg.members.card = (cfg.peers v).length + 1 := by
  have same : (cfg.peers v).toFinset = cfg.members.erase v := by
    ext p
    rw [List.mem_toFinset, cfg.mem_peers v member, Finset.mem_erase, and_comm]
  rw [← List.toFinset_card_of_nodup (cfg.peers_nodup v), same, Finset.card_erase_add_one member]

theorem Standing.majority {c : RaftCore Cmd} (standing : Standing g v c)
    (valid : g.Valid LogEntry.term cfg.members) (node : NodeSound cfg g v c)
    (member : v ∈ cfg.members) (enough : c.votesReceived.card ≥ c.majorityOf) :
    Majority cfg.members c.votesReceived where
  subset := fun w hw => (valid.voter _ _ _ (standing.votes w hw)).1
  large := by
    have := Cluster.card_members member
    simp only [majorityOf, node.peers] at enough
    omega

theorem Standing.unled {c : RaftCore Cmd} (standing : Standing g v c)
    (valid : g.Valid LogEntry.term cfg.members) (node : NodeSound cfg g v c)
    (member : v ∈ cfg.members) (enough : c.votesReceived.card ≥ c.majorityOf) :
    g.leader c.currentTerm = none := by
  cases led : g.leader c.currentTerm with
  | none => rfl
  | some d =>
    have same := valid.leader_unique led (standing.majority valid node member enough) standing.votes
    exact absurd (same ▸ led) standing.unelected

theorem sound_init (cfg : Cluster) : Sound cfg (Ledger.empty : History Cmd) (System.init cfg) where
  valid :=
    { elected := by simp [Ledger.empty]
      stood := by simp [Ledger.empty]
      voter := by simp [Ledger.empty]
      unled := by simp [Ledger.empty]
      initial := by simp [Ledger.empty]
      chained := fun _ => Ledger.chained_nil
      balloted := by simp [Ledger.empty] }
  node := fun v _ =>
    { id := rfl
      peers := rfl
      vote := rfl
      later := fun _ _ => rfl
      led := by simp [Ledger.empty]
      candidate := by simp [System.init, RaftCore.new]
      leader := by simp [System.init, RaftCore.new]
      chained := Ledger.chained_nil }
  msg := by simp [System.init]

theorem safe_init (cfg : Cluster) : Safe cfg (Ledger.empty : History Cmd) (System.init cfg) where
  durable :=
    { acked := by simp [Ledger.empty]
      ballots := by simp [Ledger.empty]
      elected := by simp [Ledger.empty] }
  node := fun v _ =>
    { acked := by simp [Ledger.empty]
      kept := by
        intro T k hk
        obtain rfl : k = 0 := Nat.le_zero.mp hk
        exact .inl (by simp)
      held := List.nil_prefix
      commit := le_rfl
      committed := .inl rfl
      own := by simp [System.init, RaftCore.new]
      matched := by simp [System.init, RaftCore.new]
      next := by simp [System.init, RaftCore.new]
      nextKnown := by simp [System.init, RaftCore.new] }
  msg := by simp [System.init]

theorem inv_init (strict : Prop) (cfg : Cluster) :
    Inv strict cfg (Ledger.empty : History Cmd) (System.init cfg) :=
  ⟨sound_init cfg, fun _ => safe_init cfg⟩

end Gems.Raft
