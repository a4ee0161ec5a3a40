import Gems.Raft.Safety

set_option autoImplicit false

namespace Gems.Raft

open Lib RaftCore

variable {Cmd : Type} {strict : Prop} {cfg : Cluster} {s s₁ s₂ : System Cmd} {v : NodeId}

section Completeness

/-- What a node has committed at one moment is in the log of whoever leads its term or a later one afterwards. -/
def LeadersComplete (cfg : Cluster) (s₁ s₂ : System Cmd) : Prop :=
  ∀ a ∈ cfg.members, ∀ b ∈ cfg.members, (s₂.nodes b).role = .leader →
    (s₁.nodes a).currentTerm ≤ (s₂.nodes b).currentTerm →
    (s₁.nodes a).log.take (s₁.nodes a).commitIndex <+: (s₂.nodes b).log

theorem leader_completeness {es₁ es₂ : List (Event Cmd)} (run₁ : (System.init cfg).exec cfg es₁ = some s₁)
    (run₂ : s₁.exec cfg es₂ = some s₂) (clean : (System.init cfg).CleanRun cfg (es₁ ++ es₂)) :
    LeadersComplete cfg s₁ s₂ := by
  obtain ⟨clean₁, clean₂⟩ := clean.append run₁
  obtain ⟨g, -, inv⟩ := exec_inv (inv_init True cfg) (fun _ => clean₁) run₁
  obtain ⟨g', grow, inv'⟩ := exec_inv inv (fun _ => clean₂) run₂
  intro a ha b hb role later
  have safe := (inv.safe trivial).node a ha
  have durable := (inv'.safe trivial).durable
  obtain ⟨led, same⟩ := (inv'.sound.node b hb).leader role
  have elected : (g'.leader (s₂.nodes b).currentTerm).isSome := by
    rw [led]
    rfl
  have held := (safe.committed.le grow).on_leader inv'.sound.valid durable later elected
  rw [same] at held
  rw [safe.committed_entry le_rfl]
  exact (List.take_prefix _ _).trans held

-- Node 2 learns of the commit, and then wins an election of its own.
theorem leader_completeness_three : ∃ s₁ s₂, (System.init three).exec three committed = some s₁ ∧
    s₁.exec three [.tick 1, .receive 10, .tick 2, .receive 14, .receive 15] = some s₂ ∧
    (s₁.nodes 1).commitIndex = 1 ∧ (s₂.nodes 2).role = .leader ∧ LeadersComplete three s₁ s₂ := by
  obtain ⟨s₁, run₁, first⟩ := Option.map_eq_some_iff.mp (show ((System.init three).exec three
    committed).map (fun s => (s.nodes 1).commitIndex) = some 1 by decide)
  obtain ⟨s₂, whole, second⟩ := Option.map_eq_some_iff.mp (show ((System.init three).exec three
    (committed ++ [.tick 1, .receive 10, .tick 2, .receive 14, .receive 15])).map
      (fun s => (s.nodes 2).role) = some .leader by decide)
  rw [System.exec_append, run₁] at whole
  exact ⟨s₁, s₂, run₁, whole, first, second, leader_completeness run₁ whole (by decide)⟩

end Completeness

section Forward

theorem Rule.currentTerm_le {net out : List (Envelope Cmd)} {c c' : RaftCore Cmd}
    (h : Rule strict cfg net v c c' out) : c.currentTerm ≤ c'.currentTerm := by
  cases h with
  | follow term le => exact (becomeFollower_term le).symm ▸ le
  | stand => exact Nat.le_succ _
  | accept from_ leaderId prevLogIndex prevLogTerm entries leaderCommit =>
    rw [acceptEntries_eq]
  | advance =>
    rw [advanceCommitIndex]
    split <;> exact le_rfl
  | _ => exact le_rfl

theorem Rules.currentTerm_le {net out : List (Envelope Cmd)} {c c' : RaftCore Cmd}
    (h : Rules strict cfg v net c c' out) : c.currentTerm ≤ c'.currentTerm := by
  induction h with
  | nil => exact le_rfl
  | cons first rest ih => exact first.currentTerm_le.trans ih

theorem exec_currentTerm_le {es : List (Event Cmd)} (run : s₁.exec cfg es = some s₂) (v : NodeId) :
    (s₁.nodes v).currentTerm ≤ (s₂.nodes v).currentTerm := by
  induction es generalizing s₁ with
  | nil =>
    obtain rfl := Option.some.inj run
    exact le_rfl
  | cons e rest ih =>
    obtain ⟨s, step, run'⟩ := Option.bind_eq_some_iff.mp run
    refine le_trans ?_ (ih run')
    obtain ⟨id, -, c, out, -, rules, rfl⟩ := System.act_rules (fun never : False => never.elim) step
    by_cases same : v = id
    · subst same
      simpa [System.put] using rules.currentTerm_le
    · simp [System.put, same]

/-- Terms only rise, a vote stands for its term, and a leader only adds to its log. -/
structure Forward (cfg : Cluster) (s₁ s₂ : System Cmd) : Prop where
  term : ∀ v ∈ cfg.members, (s₁.nodes v).currentTerm ≤ (s₂.nodes v).currentTerm
  vote : ∀ v ∈ cfg.members, (s₁.nodes v).currentTerm = (s₂.nodes v).currentTerm →
    ∀ c, (s₁.nodes v).votedFor = some c → (s₂.nodes v).votedFor = some c
  log : ∀ a ∈ cfg.members, ∀ b ∈ cfg.members, (s₁.nodes a).role = .leader → (s₂.nodes b).role = .leader →
    (s₁.nodes a).currentTerm = (s₂.nodes b).currentTerm → a = b ∧ (s₁.nodes a).log <+: (s₂.nodes b).log

theorem runs_forward {es₁ es₂ : List (Event Cmd)} (run₁ : (System.init cfg).exec cfg es₁ = some s₁)
    (run₂ : s₁.exec cfg es₂ = some s₂) : Forward cfg s₁ s₂ := by
  obtain ⟨g, -, inv⟩ := exec_inv (inv_init False cfg) False.elim run₁
  obtain ⟨g', grow, inv'⟩ := exec_inv inv False.elim run₂
  refine ⟨fun v _ => exec_currentTerm_le run₂ v, ?_, ?_⟩
  · intro v hv same c voted
    rw [← (inv'.sound.node v hv).vote, ← same]
    refine grow.votes _ v c ?_
    rw [(inv.sound.node v hv).vote, voted]
  · intro a ha b hb leads leads' same
    obtain ⟨led, log⟩ := (inv.sound.node a ha).leader leads
    obtain ⟨led', log'⟩ := (inv'.sound.node b hb).leader leads'
    have one := grow.leader _ a led
    rw [same, led'] at one
    refine ⟨(Option.some.inj one).symm, ?_⟩
    rw [← log, ← log', ← same]
    exact grow.log _

theorem runs_forward_three : ∃ s₁ s₂, (System.init three).exec three committed = some s₁ ∧
    s₁.exec three [.propose 1 8] = some s₂ ∧ (s₂.nodes 1).log.length = 2 ∧ Forward three s₁ s₂ := by
  obtain ⟨s₁, run₁⟩ := Option.isSome_iff_exists.mp (show ((System.init three).exec three
    committed).isSome by decide)
  obtain ⟨s₂, whole, grown⟩ := Option.map_eq_some_iff.mp (show ((System.init three).exec three
    (committed ++ [.propose 1 8])).map (fun s => (s.nodes 1).log.length) = some 2 by decide)
  rw [System.exec_append, run₁] at whole
  exact ⟨s₁, s₂, run₁, whole, grown, runs_forward run₁ whole⟩

end Forward

end Gems.Raft
