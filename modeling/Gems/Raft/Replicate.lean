import Gems.Raft.Preserve
import Gems.Lib.Lists

set_option autoImplicit false

namespace Gems.Raft

open Lib RaftCore

variable {Cmd : Type} {strict : Prop} {cfg : Cluster} {g g' : History Cmd} {s : System Cmd}
  {v : NodeId}

theorem acceptEntries_eq (c : RaftCore Cmd) (prevLogIndex : Nat) (entries : List (LogEntry Cmd))
    (leaderCommit : Nat) :
    c.acceptEntries prevLogIndex entries leaderCommit =
      { c with
        log := mergeEntries c.log (prevLogIndex + 1) entries
        commitIndex := if leaderCommit > c.commitIndex then
          min leaderCommit (mergeEntries c.log (prevLogIndex + 1) entries).length
          else c.commitIndex } := by
  simp only [acceptEntries]
  split <;> rfl

-- What an accepted request does to the log of a follower.
structure Merged (g : History Cmd) (c : RaftCore Cmd) (prevLogIndex : Nat)
    (entries merged : List (LogEntry Cmd)) : Prop where
  chained : Ledger.Chained LogEntry.term g c.currentTerm merged
  keeps : ∀ K, K <+: c.log → K <+: g.log c.currentTerm → K <+: merged
  onLeader : c.log.length ≤ prevLogIndex + entries.length ∨
    ¬ agrees c.log prevLogIndex entries ∨ c.lastLogTerm = c.currentTerm →
    merged <+: g.log c.currentTerm

theorem NodeSound.merge {c : RaftCore Cmd} (node : NodeSound cfg g v c)
    (valid : g.Valid LogEntry.term cfg.members) {prevLogIndex prevLogTerm : Nat}
    {entries : List (LogEntry Cmd)}
    (segment : Segment (g.log c.currentTerm) prevLogIndex prevLogTerm entries)
    (matches_ : c.prevMatches prevLogIndex prevLogTerm) :
    Merged g c prevLogIndex entries (mergeEntries c.log (prevLogIndex + 1) entries) := by
  have matching : Matching c.log (g.log c.currentTerm) := fun i e e' found found' same =>
    node.chained.matching (valid.chained _) found found' same
  have start : prevLogIndex ≤ c.log.length ∧
      c.log.take prevLogIndex = (g.log c.currentTerm).take prevLogIndex := by
    rcases Nat.eq_zero_or_pos prevLogIndex with rfl | positive
    · exact ⟨Nat.zero_le _, rfl⟩
    · obtain ⟨fits, sameTerm⟩ : prevLogIndex ≤ c.log.length ∧
          termAt c.log prevLogIndex = prevLogTerm := by
        simpa [prevMatches, positive, lastLogIndex, logTermAt] using matches_
      obtain ⟨e, found, here⟩ := termAt_found positive fits
      obtain ⟨e', found', here'⟩ := termAt_found positive segment.inside
      have same := matching _ e e' found found' (by
        rw [← here, ← here', sameTerm, segment.prev])
      rw [show prevLogIndex - 1 + 1 = prevLogIndex by omega] at same
      exact ⟨fits, same⟩
  obtain ⟨fits, agree⟩ := start
  have cases_ := mergeEntries_cases fits agree segment.inside segment.batch matching
  refine
    { chained := ?_
      keeps := fun K onF onL =>
        mergeEntries_keeps fits agree segment.inside segment.batch matching onF onL
      onLeader := ?_ }
  · rcases cases_ with ⟨eq, -⟩ | ⟨eq, -⟩
    · rw [eq]
      exact node.chained
    · rw [eq]
      exact (valid.chained _).restrict (List.take_prefix _ _)
  · intro clean
    rcases cases_ with ⟨eq, pre⟩ | ⟨eq, -⟩
    · rw [eq]
      rcases clean with short | conflict | own
      · have size : ((g.log c.currentTerm).take (prevLogIndex + entries.length)).length =
            prevLogIndex + entries.length := by
          have := segment.batch.length_le
          have := segment.inside
          simp only [List.length_append, List.length_take] at *
          omega
        rw [← pre.eq_of_length_le (by omega)]
        exact List.take_prefix _ _
      · exact absurd (agrees_on_batch segment.inside segment.batch pre) conflict
      · cases last : c.log.getLast? with
        | none =>
          rw [List.getLast?_eq_none_iff.mp last]
          exact List.nil_prefix
        | some e =>
          have := node.chained.whole last
          rwa [show e.term = c.currentTerm by simpa [lastLogTerm, lastTermOf, last] using own] at this
    · rw [eq]
      exact List.take_prefix _ _

-- Where an old acknowledgement did not survive, the term's own leader had dropped it.
theorem NodeSafe.kept_accept {c : RaftCore Cmd} {merged : List (LogEntry Cmd)}
    (safe : NodeSafe cfg g v c) (valid : g.Valid LogEntry.term cfg.members)
    (led : (g.leader c.currentTerm).isSome) {U k : Nat} (acked : k ≤ g.acked v U)
    (keeps : ∀ K, K <+: c.log → K <+: g.log c.currentTerm → K <+: merged) :
    g.Kept U k (c.currentTerm + 1) merged := by
  rcases safe.kept U k acked with pre | lost
  · by_cases onLeader : (g.log U).take k <+: g.log c.currentTerm
    · exact .inl (keeps _ pre onLeader)
    · rcases Nat.lt_trichotomy U c.currentTerm with before | rfl | after
      · refine .inr ⟨c.currentTerm, before, Nat.lt_succ_self _, led, fun start => ?_⟩
        exact onLeader (start.trans (valid.initial _ led))
      · exact absurd (List.take_prefix _ _) onLeader
      · obtain rfl : k = 0 := by
          by_contra positive
          have := safe.acked U (by omega)
          omega
        exact absurd List.nil_prefix onLeader
  · exact .inr lost

theorem NodeSafe.commit_accept {c : RaftCore Cmd} {merged : List (LogEntry Cmd)} {leaderCommit : Nat}
    (safe : NodeSafe cfg g v c)
    (promised : g.CommittedPrefix LogEntry.term cfg.members c.currentTerm
      ((g.log c.currentTerm).take leaderCommit))
    (held : g.held v <+: merged) (onLeader : merged <+: g.log c.currentTerm) :
    let commitIndex := if leaderCommit > c.commitIndex then min leaderCommit merged.length
      else c.commitIndex
    commitIndex ≤ merged.length ∧
      g.CommittedPrefix LogEntry.term cfg.members c.currentTerm (merged.take commitIndex) := by
  dsimp only
  split
  · refine ⟨Nat.min_le_right _ _, promised.restrict ?_⟩
    refine List.prefix_of_prefix_length_le ((List.take_prefix _ _).trans onLeader)
      (List.take_prefix _ _) ?_
    have := onLeader.length_le
    simp only [List.length_take]
    omega
  · refine ⟨safe.commit.trans held.length_le, safe.committed.restrict ?_⟩
    refine List.prefix_of_prefix_length_le (List.take_prefix _ _) held ?_
    exact (List.length_take_le _ _).trans safe.commit

theorem move_accept (h : Inv strict cfg g s) (member : v ∈ cfg.members) {from_ leaderId : NodeId}
    {prevLogIndex prevLogTerm : Nat} {entries : List (LogEntry Cmd)} {leaderCommit : Nat}
    (role : (s.nodes v).role = .follower)
    (asked : ⟨from_, v, .appendEntriesRequest (s.nodes v).currentTerm leaderId prevLogIndex
      prevLogTerm entries leaderCommit⟩ ∈ s.net)
    (matches_ : (s.nodes v).prevMatches prevLogIndex prevLogTerm)
    (clean : strict → (s.nodes v).log.length ≤ prevLogIndex + entries.length ∨
      ¬ agrees (s.nodes v).log prevLogIndex entries ∨
      (s.nodes v).lastLogTerm = (s.nodes v).currentTerm) :
    Moves strict cfg g s v ((s.nodes v).acceptEntries prevLogIndex entries leaderCommit)
      [(s.nodes v).envelopeTo from_ (.appendEntriesResponse (s.nodes v).currentTerm true
        ((s.nodes v).acceptEntries prevLogIndex entries leaderCommit).lastLogIndex
        (s.nodes v).id)] := by
  have node := h.sound.node v member
  have valid := h.sound.valid
  obtain ⟨-, led, segment⟩ := h.sound.msg _ asked
  have merge := node.merge valid segment matches_
  rw [acceptEntries_eq]
  generalize mergeEntries (s.nodes v).log (prevLogIndex + 1) entries = merged at merge
  have sound {g' : History Cmd} (ext : g.Extends v g') (votes : g'.votes = g.votes)
      (leader : g'.leader = g.leader) {commitIndex : Nat} :
      NodeSound cfg g' v { s.nodes v with log := merged, commitIndex } :=
    { id := node.id
      peers := node.peers
      vote := by rw [votes]; exact node.vote
      later := by rw [votes]; exact node.later
      led := by rw [leader]; exact node.led
      candidate := by simp [role]
      leader := by simp [role]
      chained := merge.chained.le ext.toLe }
  by_cases hs : strict
  · have safe := (h.safe hs).node v member
    have durable := (h.safe hs).durable
    obtain ⟨-, promised⟩ := (h.safe hs).msg _ asked
    have onLeader := merge.onLeader (clean hs)
    have led' : (g.leader (s.nodes v).currentTerm).isSome := by simp [led]
    have heldOnMerged := merge.keeps _ safe.held (safe.committed.on_leader valid durable le_rfl led')
    obtain ⟨fits, committed⟩ := safe.commit_accept promised heldOnMerged onLeader
    generalize (if leaderCommit > (s.nodes v).commitIndex then min leaderCommit merged.length
      else (s.nodes v).commitIndex) = commitIndex at fits committed
    have ext := Ledger.ack_extends (g := g) (T := (s.nodes v).currentTerm) (v := v) merged.length
    have ext' := Ledger.hold_extends (g := g.ack (s.nodes v).currentTerm v merged.length)
      heldOnMerged (List.take_prefix commitIndex merged)
    refine h.moves (ext.trans ext') ((valid.ack _).hold _) (sound (ext.trans ext') rfl rfl) ?_
      fun _ => ⟨?_, ?_, ?_⟩
    · intro e mem
      obtain rfl := List.mem_singleton.mp mem
      trivial
    · refine (durable.grow valid ext.toLe ?_ rfl (fun _ _ old => .inl old) ?_).hold _
      · intro w U
        rcases Ledger.ack_cases (le_refl ((g.ack (s.nodes v).currentTerm v merged.length).acked w U))
          with before | ⟨-, rfl, small⟩
        · exact before.trans (durable.acked w U)
        · exact small.trans onLeader.length_le
      · intro w U k hk
        rcases Ledger.ack_cases hk with before | ⟨rfl, rfl, -⟩
        · exact .inl before
        · exact .inr node.later
    · exact
        { acked := by
            intro U hU
            rcases Ledger.ack_cases (j := 1) hU with before | ⟨-, rfl, -⟩
            · exact safe.acked U before
            · exact le_rfl
          kept := by
            intro U k hk
            rcases Ledger.ack_cases hk with before | ⟨-, rfl, small⟩
            · exact (safe.kept_accept valid led' before merge.keeps).le (ext.trans ext').toLe
                (before.trans (durable.acked v U))
            · exact .inl (List.prefix_of_prefix_length_le (List.take_prefix _ _) onLeader
                ((List.length_take_le _ _).trans small))
          held := by
            rw [Ledger.hold_held]
            split
            · exact List.take_prefix _ _
            · exact heldOnMerged
          commit := by
            rw [Ledger.hold_held]
            split
            · simp only [List.length_take]
              omega
            next long =>
              rw [List.length_take, Nat.min_eq_left fits] at long
              exact (Nat.lt_of_not_le long).le
          committed := by
            rw [Ledger.hold_held]
            split
            · exact committed.le (ext.trans ext').toLe
            · exact safe.committed.le (ext.trans ext').toLe
          own := by simp [role]
          matched := by simp [role]
          next := by simp [role]
          nextKnown := by simp [role] }
    · intro e mem
      obtain rfl := List.mem_singleton.mp mem
      intro _
      rw [node.id]
      exact Ledger.ack_here _
  · exact h.moves (Ledger.Extends.refl v g) valid (sound (.refl v g) rfl rfl) (by
      intro e mem
      obtain rfl := List.mem_singleton.mp mem
      trivial) fun hs' => absurd hs' hs

theorem move_matched (h : Inv strict cfg g s) (member : v ∈ cfg.members) {from_ followerId : NodeId}
    {matchIndex : Nat} (role : (s.nodes v).role = .leader)
    (answered : ⟨from_, v, .appendEntriesResponse (s.nodes v).currentTerm true matchIndex
      followerId⟩ ∈ s.net) :
    Moves strict cfg g s v ((s.nodes v).recordMatch followerId matchIndex) [] := by
  have node := h.sound.node v member
  refine h.still { node with candidate := fun cand => ?_ } no_msgs fun hs => ⟨?_, no_msgs⟩
  · simp [recordMatch, role] at cand
  have safe := (h.safe hs).node v member
  have acked : matchIndex ≤ g.acked followerId (s.nodes v).currentTerm :=
    (h.safe hs).msg _ answered rfl
  have inside : matchIndex ≤ (s.nodes v).log.length := by
    rw [← (node.leader role).2]
    exact acked.trans ((h.safe hs).durable.acked _ _)
  exact
    { safe with
      matched := by
        intro _ w m found
        by_cases same : w = followerId
        · subst same
          obtain rfl : matchIndex = m := by simpa [recordMatch] using found
          exact acked
        · exact safe.matched role w m (by simpa [recordMatch, same] using found)
      next := by
        intro _ w k found
        by_cases same : w = followerId
        · subst same
          obtain rfl : matchIndex + 1 = k := by simpa [recordMatch] using found
          exact ⟨Nat.succ_pos _, Nat.succ_le_succ inside⟩
        · exact safe.next role w k (by simpa [recordMatch, same] using found)
      nextKnown := by
        intro _ p inPeers
        by_cases same : p = followerId
        · simp [recordMatch, same]
        · simpa [recordMatch, same] using safe.nextKnown role p inPeers }

theorem move_retreat (h : Inv strict cfg g s) (member : v ∈ cfg.members) (followerId : NodeId)
    (role : (s.nodes v).role = .leader) :
    Moves strict cfg g s v ((s.nodes v).backOff followerId) [] := by
  have node := h.sound.node v member
  refine h.still { node with candidate := fun cand => ?_ } no_msgs fun hs => ⟨?_, no_msgs⟩
  · simp [backOff, role] at cand
  have safe := (h.safe hs).node v member
  have bounds : 1 ≤ ((s.nodes v).nextIndex followerId).getD ((s.nodes v).lastLogIndex + 1) ∧
      ((s.nodes v).nextIndex followerId).getD ((s.nodes v).lastLogIndex + 1) ≤
        (s.nodes v).log.length + 1 := by
    cases found : (s.nodes v).nextIndex followerId with
    | none => exact ⟨Nat.succ_pos _, le_rfl⟩
    | some k => exact safe.next role followerId k found
  exact
    { safe with
      next := by
        intro _ w k found
        by_cases same : w = followerId
        · subst same
          have same : (if ((s.nodes v).nextIndex w).getD ((s.nodes v).lastLogIndex + 1) > 1 then
              ((s.nodes v).nextIndex w).getD ((s.nodes v).lastLogIndex + 1) - 1
              else ((s.nodes v).nextIndex w).getD ((s.nodes v).lastLogIndex + 1)) = k := by
            simpa [backOff] using found
          change 1 ≤ k ∧ k ≤ (s.nodes v).log.length + 1
          split at same <;> omega
        · exact safe.next role w k (by simpa [backOff, same] using found)
      nextKnown := by
        intro _ p inPeers
        by_cases same : p = followerId
        · simp [backOff, same]
        · simpa [backOff, same] using safe.nextKnown role p inPeers }

-- The candidate index is one that a majority has acknowledged in the leader's own term.
theorem NodeSafe.majority {c : RaftCore Cmd} (safe : NodeSafe cfg g v c) (node : NodeSound cfg g v c)
    (member : v ∈ cfg.members) (role : c.role = .leader) :
    Majority cfg.members (cfg.members.filter fun w =>
      (c.matchIndices.insertionSort (· ≥ ·)).getD (c.matchIndices.length / 2 + 1 - 1) 0 ≤
        g.acked w c.currentTerm) := by
  have card := Cluster.card_members member
  have size : c.matchIndices.length = cfg.members.card := by
    simp [matchIndices, node.peers, card]
  have reached := reach_of_sorted (l := c.matchIndices) (i := c.matchIndices.length / 2 + 1 - 1)
    (by omega)
  generalize (c.matchIndices.insertionSort (· ≥ ·)).getD (c.matchIndices.length / 2 + 1 - 1) 0 =
    candidate at reached
  refine ⟨Finset.filter_subset _ _, ?_⟩
  have names : c.matchIndices = (cfg.peers v ++ [v]).map fun w =>
      if w = v then c.lastLogIndex else (c.matchIndex w).getD 0 := by
    rw [matchIndices, node.peers, List.map_append]
    congr 1
    · refine List.map_congr_left fun w inPeers => ?_
      rw [if_neg ((cfg.mem_peers v member w).mp inPeers).2]
    · simp
  have distinct : (cfg.peers v ++ [v]).Nodup := by
    refine List.nodup_append.mpr ⟨cfg.peers_nodup v, List.nodup_singleton v, ?_⟩
    intro a inPeers b here
    rw [List.mem_singleton.mp here]
    exact ((cfg.mem_peers v member a).mp inPeers).2
  have counted : c.matchIndices.countP (fun x => candidate ≤ x) ≤
      (cfg.members.filter fun w => candidate ≤ g.acked w c.currentTerm).card := by
    rw [names, List.countP_map, List.countP_eq_length_filter,
      ← List.toFinset_card_of_nodup (distinct.filter _)]
    refine Finset.card_le_card fun w mem => ?_
    obtain ⟨known, reaches⟩ := List.mem_filter.mp (List.mem_toFinset.mp mem)
    rw [Function.comp_apply, decide_eq_true_eq] at reaches
    rw [Finset.mem_filter]
    split at reaches
    next same =>
      subst same
      exact ⟨member, reaches.trans (safe.own role)⟩
    next other =>
      have inPeers : w ∈ cfg.peers v := by simpa [other] using known
      refine ⟨((cfg.mem_peers v member w).mp inPeers).1, ?_⟩
      cases found : c.matchIndex w with
      | none =>
        rw [found] at reaches
        exact reaches.trans (Nat.zero_le _)
      | some m =>
        rw [found] at reaches
        exact reaches.trans (safe.matched role w m found)
  omega

theorem NodeSound.committed_advance {c : RaftCore Cmd} {candidate : Nat} (node : NodeSound cfg g v c)
    (durable : g.Durable LogEntry.term) (role : c.role = .leader) (ahead : candidate > c.commitIndex)
    (own : c.logTermAt candidate = c.currentTerm)
    (majority : Majority cfg.members
      (cfg.members.filter fun w => candidate ≤ g.acked w c.currentTerm)) :
    candidate ≤ c.log.length ∧
      g.CommittedPrefix LogEntry.term cfg.members c.currentTerm (c.log.take candidate) := by
  obtain ⟨w, inside, -⟩ := majority.meet majority
  have reached := (Finset.mem_filter.mp inside).2.trans (durable.acked w c.currentTerm)
  rw [(node.leader role).2] at reached
  obtain ⟨e, found, here⟩ := termAt_found (by omega) reached
  rw [← (node.leader role).2] at found
  refine ⟨reached, .inr ⟨c.currentTerm, candidate, le_rfl, ⟨⟨by omega, e, found, ?_⟩, _, majority,
    fun w mem => (Finset.mem_filter.mp mem).2⟩, ?_⟩⟩
  · rw [← here]
    exact own
  · rw [(node.leader role).2]

theorem move_advance (h : Inv strict cfg g s) (member : v ∈ cfg.members)
    (role : (s.nodes v).role = .leader) :
    Moves strict cfg g s v (s.nodes v).advanceCommitIndex [] := by
  have node := h.sound.node v member
  have candidate (commitIndex : Nat) (role' : (s.nodes v).role = .candidate) :
      Standing g v { s.nodes v with commitIndex } := { (node.candidate role') with }
  by_cases hs : strict
  · have safe := (h.safe hs).node v member
    have durable := (h.safe hs).durable
    have majority := safe.majority node member role
    simp only [advanceCommitIndex]
    generalize ((s.nodes v).matchIndices.insertionSort (· ≥ ·)).getD
      ((s.nodes v).matchIndices.length / 2 + 1 - 1) 0 = index at majority
    split
    next moved =>
      obtain ⟨fits, committed⟩ := node.committed_advance durable role moved.1 moved.2 majority
      have ext := Ledger.hold_extends safe.held (List.take_prefix index (s.nodes v).log)
      refine h.moves ext (h.sound.valid.hold _)
        { node with candidate := fun role' => { (candidate index role') with } } no_msgs
        fun _ => ⟨durable.hold _, ?_, no_msgs⟩
      exact
        { safe with
          held := by
            rw [Ledger.hold_held]
            split
            · exact List.take_prefix _ _
            · exact safe.held
          commit := by
            rw [Ledger.hold_held]
            split
            · simp only [List.length_take]
              omega
            next long =>
              rw [List.length_take, Nat.min_eq_left fits] at long
              exact (Nat.lt_of_not_le long).le
          committed := by
            rw [Ledger.hold_held]
            split
            · exact committed.le ext.toLe
            · exact safe.committed.le ext.toLe }
    · exact h.still node no_msgs fun _ => ⟨safe, no_msgs⟩
  · simp only [advanceCommitIndex]
    split
    · exact h.still { node with candidate := candidate _ } no_msgs fun hs' => absurd hs' hs
    · exact h.still node no_msgs fun hs' => absurd hs' hs

theorem move_restart (h : Inv strict cfg g s) (member : v ∈ cfg.members) (electionTimeout : Nat) :
    Moves strict cfg g s v (System.restarted cfg (s.nodes v) v electionTimeout) [] := by
  have node := h.sound.node v member
  refine h.still
    { node with
      id := rfl
      peers := rfl
      candidate := by simp [System.restarted, restore, new]
      leader := by simp [System.restarted, restore, new] } no_msgs fun hs => ⟨?_, no_msgs⟩
  have safe := (h.safe hs).node v member
  exact
    { safe with
      commit := Nat.zero_le _
      own := by simp [System.restarted, restore, new]
      matched := by simp [System.restarted, restore, new]
      next := by simp [System.restarted, restore, new]
      nextKnown := by simp [System.restarted, restore, new] }

theorem rule_moves {c' : RaftCore Cmd} {out : List (Envelope Cmd)} (h : Inv strict cfg g s)
    (member : v ∈ cfg.members) (rule : Rule strict cfg s.net v (s.nodes v) c' out) :
    Moves strict cfg g s v c' out := by
  cases rule with
  | idle => exact move_idle h member _ _ _ _
  | send out sendable => exact move_send h member sendable
  | follow term le => exact move_follow h member le
  | stand => exact move_stand h member
  | grant from_ candidateId lastLogIndex lastLogTerm asked free fresh =>
    exact move_grant h member asked free fresh
  | count from_ voterId role granted => exact move_count h member role granted
  | win role enough => exact move_win h member role enough
  | push command role => exact move_push h member command role
  | accept from_ leaderId prevLogIndex prevLogTerm entries leaderCommit role asked matches_ clean =>
    exact move_accept h member role asked matches_ clean
  | matched from_ followerId matchIndex role answered => exact move_matched h member role answered
  | retreat followerId role => exact move_retreat h member followerId role
  | advance role => exact move_advance h member role
  | restart electionTimeout => exact move_restart h member electionTimeout

theorem System.put_self (s : System Cmd) (v : NodeId) : s.put v (s.nodes v) [] = s := by
  simp [System.put]

theorem System.put_put (s : System Cmd) (v : NodeId) (c c' : RaftCore Cmd)
    (out out' : List (Envelope Cmd)) :
    (s.put v c out).put v c' out' = s.put v c' (out ++ out') := by
  simp [System.put]

theorem rules_moves {c c' : RaftCore Cmd} {net out : List (Envelope Cmd)} (h : Inv strict cfg g s)
    (member : v ∈ cfg.members) (here : s.nodes v = c) (wire : s.net = net)
    (rules : Rules strict cfg v net c c' out) : Moves strict cfg g s v c' out := by
  induction rules generalizing s g with
  | nil net c =>
    subst here wire
    exact ⟨g, .refl v g, by rwa [System.put_self]⟩
  | @cons net out out' c c' c'' first rest ih =>
    subst here wire
    obtain ⟨g₁, ext, h₁⟩ := rule_moves h member first
    obtain ⟨g₂, ext', h₂⟩ := ih h₁ (by simp [System.put]) rfl
    exact ⟨g₂, ext.trans ext', by rwa [System.put_put] at h₂⟩

theorem act_inv {s' : System Cmd} {e : Event Cmd} (h : Inv strict cfg g s)
    (clean : strict → s.Clean e) (step : s.act cfg e = some s') :
    ∃ g', g.Le g' ∧ Inv strict cfg g' s' := by
  obtain ⟨id, member, c, out, -, rules, rfl⟩ := System.act_rules clean step
  obtain ⟨g', ext, h'⟩ := rules_moves h member rfl rfl rules
  exact ⟨g', ext.toLe, h'⟩

theorem exec_inv {s' : System Cmd} {es : List (Event Cmd)} (h : Inv strict cfg g s)
    (clean : strict → s.CleanRun cfg es) (run : s.exec cfg es = some s') :
    ∃ g', g.Le g' ∧ Inv strict cfg g' s' := by
  induction es generalizing s g with
  | nil =>
    obtain rfl := Option.some.inj run
    exact ⟨g, .refl g, h⟩
  | cons e rest ih =>
    obtain ⟨s₁, step, run'⟩ := Option.bind_eq_some_iff.mp run
    obtain ⟨g₁, grow, h₁⟩ := act_inv h (fun hs => (clean hs).1) step
    obtain ⟨g₂, grow', h₂⟩ := ih h₁ (fun hs => (clean hs).2 s₁ step) run'
    exact ⟨g₂, grow.trans grow', h₂⟩

end Gems.Raft
