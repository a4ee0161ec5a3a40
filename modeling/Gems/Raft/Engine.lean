import Gems.Raft.Safety

set_option autoImplicit false

namespace Gems.Raft

/-- Where one turn of run_engine's loop stands. A crash may come in any phase. -/
inductive Phase (Cmd : Type) where
  | idle
  | persisting (outgoing : List (Envelope Cmd))
  | sending (outgoing : List (Envelope Cmd))

-- `disk` is what raft_state::load would return; save replaces it by an atomic rename.
structure Engine (Cmd : Type) where
  core : RaftCore Cmd
  disk : Nat × Option NodeId × List (LogEntry Cmd)
  phase : Phase Cmd

structure World (Cmd : Type) where
  engines : NodeId → Engine Cmd
  net : List (Envelope Cmd)

inductive EngineEvent (Cmd : Type) where
  | inbound (index : Nat)
  | propose (id : NodeId) (command : Cmd)
  | timeout (id : NodeId)
  | persistState (id : NodeId)
  | sendEnvelope (id : NodeId) (reached : Bool)
  | takeNewlyCommitted (id : NodeId)
  | crash (id : NodeId) (electionTimeout : Nat)

namespace World

variable {Cmd : Type}

def init (cfg : Cluster) : World Cmd :=
  { engines := fun id =>
      { core := RaftCore.restore id (cfg.peers id) (cfg.electionTimeout id)
          (cfg.heartbeatInterval id) 0 none []
        disk := (0, none, [])
        phase := .idle }
    net := [] }

def put (w : World Cmd) (id : NodeId) (n : Engine Cmd) : World Cmd :=
  { w with engines := Function.update w.engines id n }

-- The tick branch compares term, role and vote to decide whether to persist.
def tickChanged (before after : RaftCore Cmd) : Bool :=
  before.currentTerm ≠ after.currentTerm ∨ before.role ≠ after.role ∨
    before.votedFor ≠ after.votedFor

-- One move of one node; `none` when it panics or is not in the right phase.
def move (cfg : Cluster) (w : World Cmd) :
    EngineEvent Cmd → Option (NodeId × Engine Cmd × List (Envelope Cmd))
  | .inbound index =>
    w.net[index]?.bind fun envelope =>
      match w.engines envelope.to_ with
      | { core, disk, phase := .idle } =>
        (core.receive envelope).map fun (core, outgoing) =>
          (envelope.to_, { core, disk, phase := .persisting outgoing }, [])
      | _ => none
  | .propose id command =>
    match w.engines id with
    | { core, disk, phase := .idle } =>
      (core.propose command).map fun
        | .ok (core, _, outgoing) => (id, { core, disk, phase := .persisting outgoing }, [])
        | .error _ => (id, { core, disk, phase := .sending [] }, [])
    | _ => none
  | .timeout id =>
    match w.engines id with
    | { core, disk, phase := .idle } =>
      core.tick.map fun (after, outgoing) =>
        (id, { core := after, disk
               phase := if tickChanged core after then .persisting outgoing else .sending outgoing },
          [])
    | _ => none
  | .persistState id =>
    match w.engines id with
    | { core, disk := _, phase := .persisting outgoing } =>
      some (id, { core, disk := core.persistentState, phase := .sending outgoing }, [])
    | _ => none
  | .sendEnvelope id reached =>
    match w.engines id with
    | { core, disk, phase := .sending (envelope :: rest) } =>
      some (id, { core, disk, phase := .sending rest }, if reached then [envelope] else [])
    | _ => none
  | .takeNewlyCommitted id =>
    match w.engines id with
    | { core, disk, phase := .sending [] } =>
      core.takeNewlyCommitted.map fun (core, _) => (id, { core, disk, phase := .idle }, [])
    | _ => none
  | .crash id electionTimeout =>
    let (currentTerm, votedFor, log) := (w.engines id).disk
    some (id,
      { core := RaftCore.restore id (cfg.peers id) electionTimeout (cfg.heartbeatInterval id)
          currentTerm votedFor log
        disk := (currentTerm, votedFor, log)
        phase := .idle }, [])

def step (cfg : Cluster) (w : World Cmd) (e : EngineEvent Cmd) : Option (World Cmd) :=
  (w.move cfg e).bind fun (id, n, out) =>
    if id ∈ cfg.members then some { w.put id n with net := w.net ++ out } else none

def exec (cfg : Cluster) : World Cmd → List (EngineEvent Cmd) → Option (World Cmd)
  | w, [] => some w
  | w, e :: rest => (w.step cfg e).bind fun w' => exec cfg w' rest

end World

open Lib RaftCore

variable {Cmd : Type} {cfg : Cluster} {s s' : System Cmd} {w w' : World Cmd} {v : NodeId}

/-- A node lags behind its core by exactly the event it has not persisted yet. -/
def Follows (cfg : Cluster) (s : System Cmd) (v : NodeId) (n : Engine Cmd) : Prop :=
  n.disk = (s.nodes v).persistentState ∧
    match n.phase with
    | .idle => n.core = s.nodes v
    | .persisting outgoing => ∃ e, s.local_ cfg e = some (v, n.core, outgoing)
    | .sending outgoing => n.core = s.nodes v ∧ ∀ e ∈ outgoing, e ∈ s.net

structure Simulates (cfg : Cluster) (w : World Cmd) (s : System Cmd) : Prop where
  net : ∀ e ∈ w.net, e ∈ s.net
  node : ∀ v, Follows cfg s v (w.engines v)

theorem local_put {e : Event Cmd} {u : NodeId} {c d : RaftCore Cmd} {out out' : List (Envelope Cmd)}
    (other : v ≠ u) (h : s.local_ cfg e = some (v, c, out')) :
    (s.put u d out).local_ cfg e = some (v, c, out') := by
  have node {id : NodeId} (here : id = v) : (s.put u d out).nodes id = s.nodes id := by
    subst here
    simp [System.put, other]
  cases e with
  | tick id =>
    obtain ⟨r, -, same⟩ := Option.map_eq_some_iff.mp h
    rwa [System.local_, node (Prod.mk.inj same).1]
  | propose id command =>
    obtain ⟨r, -, same⟩ := Option.map_eq_some_iff.mp h
    have here : id = v := by
      cases r with
      | error err => exact (Prod.mk.inj same).1
      | ok r => exact (Prod.mk.inj same).1
    rwa [System.local_, node here]
  | receive index =>
    obtain ⟨envelope, found, stepped⟩ := Option.bind_eq_some_iff.mp h
    obtain ⟨r, -, same⟩ := Option.map_eq_some_iff.mp stepped
    have found' : (s.put u d out).net[index]? = some envelope := by
      have inside := (List.getElem?_eq_some_iff.mp found).1
      rw [System.put, List.getElem?_append_left inside, found]
    rw [System.local_, found', Option.bind_some, node (Prod.mk.inj same).1]
    exact stepped
  | takeNewlyCommitted id =>
    obtain ⟨r, -, same⟩ := Option.map_eq_some_iff.mp h
    rwa [System.local_, node (Prod.mk.inj same).1]
  | setElectionTimeout id ticks =>
    have same := Option.some.inj h
    rwa [System.local_, node (Prod.mk.inj same).1]
  | restart id electionTimeout =>
    have same := Option.some.inj h
    rwa [System.local_, node (Prod.mk.inj same).1]

theorem Follows.put {u : NodeId} {n : Engine Cmd} {d : RaftCore Cmd} {out : List (Envelope Cmd)}
    (h : Follows cfg s v n) (other : v ≠ u) : Follows cfg (s.put u d out) v n := by
  have node : (s.put u d out).nodes v = s.nodes v := by simp [System.put, other]
  obtain ⟨core, disk, phase⟩ := n
  obtain ⟨saved, rest⟩ := h
  refine ⟨by rw [node]; exact saved, ?_⟩
  cases phase with
  | idle => rwa [node]
  | persisting outgoing =>
    obtain ⟨e, stepped⟩ := rest
    exact ⟨e, local_put other stepped⟩
  | sending outgoing =>
    refine ⟨by rw [node]; exact rest.1, fun e mem => ?_⟩
    exact List.mem_append_left _ (rest.2 e mem)

-- The abstract node acts, and its engine is now level with it.
theorem Simulates.act (sim : Simulates cfg w s) (member : v ∈ cfg.members) {e : Event Cmd}
    {c : RaftCore Cmd} {out sent : List (Envelope Cmd)} {n : Engine Cmd}
    (stepped : s.local_ cfg e = some (v, c, out)) (known : ∀ m ∈ sent, m ∈ s.net ++ out)
    (follows : Follows cfg (s.put v c out) v n) :
    s.act cfg e = some (s.put v c out) ∧
      Simulates cfg { w.put v n with net := w.net ++ sent } (s.put v c out) := by
  refine ⟨by simp [System.act, stepped, member], ?_, ?_⟩
  · intro m mem
    rcases List.mem_append.mp mem with old | new
    · exact List.mem_append_left _ (sim.net m old)
    · exact known m new
  · intro u
    by_cases same : u = v
    · subst same
      simpa [World.put] using follows
    · simpa [World.put, same] using (sim.node u).put same

theorem Simulates.stay (sim : Simulates cfg w s) {n : Engine Cmd} {sent : List (Envelope Cmd)}
    (known : ∀ m ∈ sent, m ∈ s.net) (follows : Follows cfg s v n) :
    Simulates cfg { w.put v n with net := w.net ++ sent } s := by
  refine ⟨?_, ?_⟩
  · intro m mem
    rcases List.mem_append.mp mem with old | new
    · exact sim.net m old
    · exact known m new
  · intro u
    by_cases same : u = v
    · subst same
      simpa [World.put] using follows
    · simpa [World.put, same] using sim.node u

theorem checkElectionWin_log {c c' : RaftCore Cmd} {out : List (Envelope Cmd)}
    (h : c.checkElectionWin = some (c', out)) : c'.log = c.log := by
  unfold checkElectionWin at h
  split at h
  · obtain ⟨rfl, -⟩ := Prod.mk.inj (Option.some.inj h)
    rfl
  split at h
  · obtain ⟨msgs, -, same⟩ := Option.map_eq_some_iff.mp h
    obtain ⟨rfl, -⟩ := Prod.mk.inj same
    rfl
  · obtain ⟨rfl, -⟩ := Prod.mk.inj (Option.some.inj h)
    rfl

theorem tick_log {c c' : RaftCore Cmd} {out : List (Envelope Cmd)}
    (h : c.tick = some (c', out)) : c'.log = c.log := by
  have elect {d : RaftCore Cmd} (h : (if d.electionElapsed ≥ d.electionTimeout then d.startElection
      else some (d, [])) = some (c', out)) : c'.log = d.log := by
    split at h
    · obtain ⟨⟨c₂, msgs⟩, checked, same⟩ := Option.map_eq_some_iff.mp h
      obtain ⟨rfl, -⟩ := Prod.mk.inj same
      exact (checkElectionWin_log checked).trans rfl
    · obtain ⟨rfl, -⟩ := Prod.mk.inj (Option.some.inj h)
      rfl
  unfold tick at h
  split at h
  · dsimp only at h
    split at h
    · obtain ⟨msgs, -, same⟩ := Option.map_eq_some_iff.mp h
      obtain ⟨rfl, -⟩ := Prod.mk.inj same
      rfl
    · obtain ⟨rfl, -⟩ := Prod.mk.inj (Option.some.inj h)
      rfl
  · exact elect (d := { c with electionElapsed := c.electionElapsed + 1 }) h
  · exact elect (d := { c with electionElapsed := c.electionElapsed + 1 }) h

-- Skipping the save after an uneventful tick loses nothing.
theorem tick_persistentState {c c' : RaftCore Cmd} {out : List (Envelope Cmd)}
    (h : c.tick = some (c', out)) (same : World.tickChanged c c' = false) :
    c'.persistentState = c.persistentState := by
  simp only [World.tickChanged, decide_eq_false_iff_not, not_or, not_not] at same
  obtain ⟨term, -, vote⟩ := same
  rw [persistentState, persistentState, tick_log h, term, vote]

theorem take_persistentState {turns : Nat} {c c' : RaftCore Cmd} {out out' : List (LogEntry Cmd)}
    (h : takeLoop turns c out = some (c', out')) : c'.persistentState = c.persistentState := by
  induction turns generalizing c out with
  | zero =>
    obtain ⟨rfl, -⟩ := Prod.mk.inj (Option.some.inj h)
    rfl
  | succ turns ih =>
    unfold takeLoop at h
    split at h
    · obtain ⟨entry, -, rest⟩ := Option.bind_eq_some_iff.mp h
      exact (ih rest).trans rfl
    · obtain ⟨rfl, -⟩ := Prod.mk.inj (Option.some.inj h)
      rfl

-- What a move leaves is level with the abstract system as it is, or after one event of the node.
def Mirrored (cfg : Cluster) (s : System Cmd) (v : NodeId) (n : Engine Cmd) (sent : List (Envelope Cmd)) : Prop :=
  (∀ m ∈ sent, m ∈ s.net) ∧ Follows cfg s v n ∨
    ∃ e c out, s.local_ cfg e = some (v, c, out) ∧ sent = [] ∧ Follows cfg (s.put v c out) v n

section Moves

variable {n : Engine Cmd} {sent : List (Envelope Cmd)} {id : NodeId}

theorem inbound_mirrored {index : Nat} (sim : Simulates cfg w s)
    (h : w.move cfg (.inbound index) = some (v, n, sent)) : Mirrored cfg s v n sent := by
  obtain ⟨envelope, found, h⟩ := Option.bind_eq_some_iff.mp h
  split at h
  next core disk here =>
    obtain ⟨saved, level⟩ := here ▸ sim.node envelope.to_
    have level : core = s.nodes envelope.to_ := level
    obtain ⟨⟨c, out⟩, stepped, same⟩ := Option.map_eq_some_iff.mp h
    simp only [Prod.mk.injEq] at same
    obtain ⟨rfl, rfl, rfl⟩ := same
    obtain ⟨i, found'⟩ := List.mem_iff_getElem?.mp (sim.net _ (List.mem_of_getElem? found))
    refine .inl ⟨no_msgs, saved, .receive i, ?_⟩
    rw [System.local_, found', Option.bind_some, ← level, stepped]
    rfl
  next => cases h

theorem propose_mirrored {command : Cmd} (sim : Simulates cfg w s)
    (h : w.move cfg (.propose id command) = some (v, n, sent)) : Mirrored cfg s v n sent := by
  rw [World.move] at h
  split at h
  next core disk here =>
    obtain ⟨saved, level⟩ := here ▸ sim.node id
    have level : core = s.nodes id := level
    obtain ⟨r, stepped, same⟩ := Option.map_eq_some_iff.mp h
    cases r with
    | error err =>
      simp only [Prod.mk.injEq] at same
      obtain ⟨rfl, rfl, rfl⟩ := same
      exact .inl ⟨no_msgs, saved, level, no_msgs⟩
    | ok r =>
      simp only [Prod.mk.injEq] at same
      obtain ⟨rfl, rfl, rfl⟩ := same
      refine .inl ⟨no_msgs, saved, .propose id command, ?_⟩
      rw [System.local_, ← level, stepped]
      rfl
  next => cases h

theorem timeout_mirrored (sim : Simulates cfg w s) (h : w.move cfg (.timeout id) = some (v, n, sent)) :
    Mirrored cfg s v n sent := by
  rw [World.move] at h
  split at h
  next core disk here =>
    obtain ⟨saved, level⟩ := here ▸ sim.node id
    have level : core = s.nodes id := level
    obtain ⟨⟨c, out⟩, stepped, same⟩ := Option.map_eq_some_iff.mp h
    simp only [Prod.mk.injEq] at same
    obtain ⟨rfl, rfl, rfl⟩ := same
    have ticked : s.local_ cfg (.tick id) = some (id, c, out) := by
      rw [System.local_, ← level, stepped]
      rfl
    cases changed : World.tickChanged core c with
    | true => exact .inl ⟨no_msgs, saved, .tick id, ticked⟩
    | false =>
      refine .inr ⟨.tick id, c, out, ticked, rfl, ?_, ?_⟩
      · simp only [System.put, Function.update_self]
        rw [tick_persistentState stepped changed, level]
        exact saved
      · simp only [Bool.false_eq_true, if_false]
        exact ⟨by simp [System.put], fun m mem => List.mem_append_right _ mem⟩
  next => cases h

theorem persistState_mirrored (sim : Simulates cfg w s)
    (h : w.move cfg (.persistState id) = some (v, n, sent)) : Mirrored cfg s v n sent := by
  rw [World.move] at h
  split at h
  next core disk outgoing here =>
    obtain ⟨saved, e, stepped⟩ := here ▸ sim.node id
    simp only [Option.some.injEq, Prod.mk.injEq] at h
    obtain ⟨rfl, rfl, rfl⟩ := h
    refine .inr ⟨e, core, outgoing, stepped, rfl, by simp [System.put], ?_⟩
    exact ⟨by simp [System.put], fun m mem => List.mem_append_right _ mem⟩
  next => cases h

theorem sendEnvelope_mirrored {reached : Bool} (sim : Simulates cfg w s)
    (h : w.move cfg (.sendEnvelope id reached) = some (v, n, sent)) : Mirrored cfg s v n sent := by
  rw [World.move] at h
  split at h
  next core disk envelope rest here =>
    obtain ⟨saved, level, known⟩ := here ▸ sim.node id
    simp only [Option.some.injEq, Prod.mk.injEq] at h
    obtain ⟨rfl, rfl, rfl⟩ := h
    refine .inl ⟨fun m mem => ?_, saved, level, fun m mem => known m (List.mem_cons_of_mem _ mem)⟩
    split at mem
    · rw [List.mem_singleton.mp mem]
      exact known envelope List.mem_cons_self
    · simp at mem
  next => cases h

theorem takeNewlyCommitted_mirrored (sim : Simulates cfg w s)
    (h : w.move cfg (.takeNewlyCommitted id) = some (v, n, sent)) : Mirrored cfg s v n sent := by
  rw [World.move] at h
  split at h
  next core disk here =>
    obtain ⟨saved, level, -⟩ := here ▸ sim.node id
    have level : core = s.nodes id := level
    obtain ⟨⟨c, taken⟩, stepped, same⟩ := Option.map_eq_some_iff.mp h
    simp only [Prod.mk.injEq] at same
    obtain ⟨rfl, rfl, rfl⟩ := same
    refine .inr ⟨.takeNewlyCommitted id, c, [], ?_, rfl, ?_, ?_⟩
    · rw [System.local_, ← level, stepped]
      rfl
    · simp only [System.put, Function.update_self]
      rw [take_persistentState stepped, level]
      exact saved
    · simp [System.put]
  next => cases h

theorem crash_mirrored {electionTimeout : Nat} (sim : Simulates cfg w s)
    (h : w.move cfg (.crash id electionTimeout) = some (v, n, sent)) : Mirrored cfg s v n sent := by
  obtain ⟨saved, -⟩ := sim.node id
  rw [World.move, saved] at h
  simp only [persistentState, Option.some.injEq, Prod.mk.injEq] at h
  obtain ⟨rfl, rfl, rfl⟩ := h
  refine .inr ⟨.restart id electionTimeout, _, [], rfl, rfl, ?_, ?_⟩
  · simp [System.put, System.restarted, restore, persistentState]
  · simp [System.put, System.restarted, persistentState]

theorem move_mirrored {e : EngineEvent Cmd} (sim : Simulates cfg w s) (h : w.move cfg e = some (v, n, sent)) :
    Mirrored cfg s v n sent := by
  cases e with
  | inbound index => exact inbound_mirrored sim h
  | propose id command => exact propose_mirrored sim h
  | timeout id => exact timeout_mirrored sim h
  | persistState id => exact persistState_mirrored sim h
  | sendEnvelope id reached => exact sendEnvelope_mirrored sim h
  | takeNewlyCommitted id => exact takeNewlyCommitted_mirrored sim h
  | crash id electionTimeout => exact crash_mirrored sim h

end Moves

theorem step_simulated {e : EngineEvent Cmd} (sim : Simulates cfg w s)
    (h : w.step cfg e = some w') :
    ∃ es s', s.exec cfg es = some s' ∧ Simulates cfg w' s' := by
  obtain ⟨⟨id, n, sent⟩, moved, inside⟩ := Option.bind_eq_some_iff.mp h
  dsimp only at inside
  split at inside
  next member =>
    obtain rfl := Option.some.inj inside
    rcases move_mirrored sim moved with ⟨known, follows⟩ | ⟨e', c, out, stepped, rfl, follows⟩
    · exact ⟨[], s, rfl, sim.stay known follows⟩
    · obtain ⟨acted, sim'⟩ := sim.act member stepped no_msgs follows
      exact ⟨[e'], s.put id c out, by simp [System.exec, acted], sim'⟩
  · simp at inside

theorem simulates_init (cfg : Cluster) :
    Simulates cfg (World.init cfg : World Cmd) (System.init cfg) where
  net := no_msgs
  node := fun _ => ⟨rfl, rfl⟩

/-- Every run of the engines, crashes included, is a run of the cluster. -/
theorem exec_simulated {es : List (EngineEvent Cmd)} (sim : Simulates cfg w s)
    (run : w.exec cfg es = some w') :
    ∃ es' s', s.exec cfg es' = some s' ∧ Simulates cfg w' s' := by
  induction es generalizing w s with
  | nil =>
    obtain rfl := Option.some.inj run
    exact ⟨[], s, rfl, sim⟩
  | cons e rest ih =>
    obtain ⟨w₁, stepped, run'⟩ := Option.bind_eq_some_iff.mp run
    obtain ⟨es₁, s₁, exec₁, sim₁⟩ := step_simulated sim stepped
    obtain ⟨es₂, s₂, exec₂, sim₂⟩ := ih sim₁ run'
    exact ⟨es₁ ++ es₂, s₂, by rw [System.exec_append, exec₁]; exact exec₂, sim₂⟩

section Elections

variable {g g' : History Cmd}

/-- A vote of `v` in term `T` that has left the process: on disk, or on the wire. -/
inductive Voted (w : World Cmd) (v : NodeId) (T : Nat) (c : NodeId) : Prop where
  | saved (log : List (LogEntry Cmd)) (disk : (w.engines v).disk = (T, some c, log))
  | granted (from_ : NodeId) (sent : ⟨from_, c, .requestVoteResponse T true v⟩ ∈ w.net)
  | stood (to_ : NodeId) (lastLogIndex lastLogTerm : Nat) (own : c = v)
      (sent : ⟨v, to_, .requestVoteRequest T v lastLogIndex lastLogTerm⟩ ∈ w.net)

theorem Voted.recorded {T : Nat} {c : NodeId} (h : Voted w v T c) (inv : Inv False cfg g s)
    (sim : Simulates cfg w s) (member : v ∈ cfg.members) : g.votes T v = some c := by
  cases h with
  | saved log disk =>
    have same := disk.symm.trans (sim.node v).1
    simp only [persistentState, Prod.mk.injEq] at same
    obtain ⟨rfl, vote, -⟩ := same
    rw [(inv.sound.node v member).vote, vote]
  | granted from_ sent => exact (inv.sound.msg _ (sim.net _ sent) rfl).2
  | stood to_ lastLogIndex lastLogTerm own sent =>
    rw [own]
    exact (inv.sound.msg _ (sim.net _ sent)).2.1

theorem Simulates.core_sound (sim : Simulates cfg w s) (inv : Inv False cfg g s)
    (member : v ∈ cfg.members) :
    ∃ g', g.Extends v g' ∧ g'.Valid LogEntry.term cfg.members ∧
      NodeSound cfg g' v (w.engines v).core := by
  rcases here : w.engines v with ⟨core, disk, phase⟩
  obtain ⟨-, level⟩ := here ▸ sim.node v
  have still (level : core = s.nodes v) : ∃ g', g.Extends v g' ∧
      g'.Valid LogEntry.term cfg.members ∧ NodeSound cfg g' v core :=
    ⟨g, .refl v g, inv.sound.valid, level ▸ inv.sound.node v member⟩
  cases phase with
  | idle => exact still level
  | sending outgoing => exact still level.1
  | persisting outgoing =>
    obtain ⟨e, stepped⟩ := level
    obtain ⟨g', ext, inv'⟩ := rules_moves inv member rfl rfl
      (System.local_rules False.elim stepped)
    have node := inv'.sound.node v member
    exact ⟨g', ext, inv'.sound.valid, by simpa [System.put] using node⟩

-- Whoever leads was elected by votes already on record, or is alone.
def Backed (cfg : Cluster) (g : History Cmd) (T : Nat) (a : NodeId) : Prop :=
  (∀ b ∈ cfg.members, b = a) ∨
    ∃ Q, Majority cfg.members Q ∧ ∀ u ∈ Q, g.votes T u = some a

theorem Simulates.backed (sim : Simulates cfg w s) (inv : Inv False cfg g s)
    (member : v ∈ cfg.members) (role : (w.engines v).core.role = .leader) :
    Backed cfg g (w.engines v).core.currentTerm v := by
  obtain ⟨g', ext, valid, node⟩ := sim.core_sound inv member
  obtain ⟨-, majority, votes⟩ := valid.elected _ _ (node.leader role).1
  generalize (w.engines v).core.currentTerm = T at majority votes
  by_cases alone : ∀ u ∈ g'.quorum T, u = v
  · left
    have small : (g'.quorum T).card ≤ 1 :=
      Finset.card_le_one.mpr fun a ha b hb => (alone a ha).trans (alone b hb).symm
    have single : cfg.members.card ≤ 1 := by
      have := majority.large
      omega
    exact fun b inside => Finset.card_le_one.mp single b inside v member
  · right
    push Not at alone
    obtain ⟨u, inside, other⟩ := alone
    -- another member's vote shows that the candidacy itself was on record
    have voted := votes u inside
    rw [ext.votes_other T u other] at voted
    refine ⟨g'.quorum T, majority, fun x mem => ?_⟩
    by_cases same : x = v
    · subst same
      exact inv.sound.valid.stood T u x voted
    · rw [← ext.votes_other T x same]
      exact votes x mem

theorem Backed.unique {T : Nat} {a b : NodeId} (h : Backed cfg g T a) (h' : Backed cfg g' T b)
    (grow : g.Le g') (memberA : a ∈ cfg.members) (memberB : b ∈ cfg.members) : a = b := by
  rcases h with alone | ⟨Q, majority, votes⟩
  · exact (alone b memberB).symm
  rcases h' with alone | ⟨Q', majority', votes'⟩
  · exact alone a memberA
  · exact majority.agree majority' (fun u mem => grow.votes T u a (votes u mem)) votes'

-- At one moment or at two, crashes in between or not.
structure ElectionSafe (cfg : Cluster) (w₁ w₂ : World Cmd) : Prop where
  leader : ∀ a ∈ cfg.members, ∀ b ∈ cfg.members, (w₁.engines a).core.role = .leader →
    (w₂.engines b).core.role = .leader →
    (w₁.engines a).core.currentTerm = (w₂.engines b).core.currentTerm → a = b
  vote : ∀ v ∈ cfg.members, ∀ T c d, Voted w₁ v T c → Voted w₂ v T d → c = d
  memory : ∀ v ∈ cfg.members, ∀ c d, Voted w₁ v (w₂.engines v).core.currentTerm c →
    (w₂.engines v).core.votedFor = some d → c = d

theorem election_safety {es₁ es₂ : List (EngineEvent Cmd)} {w₁ w₂ : World Cmd}
    (run₁ : (World.init cfg).exec cfg es₁ = some w₁) (run₂ : w₁.exec cfg es₂ = some w₂) :
    ElectionSafe cfg w₁ w₂ := by
  obtain ⟨_, s₁, exec₁, sim₁⟩ := exec_simulated (simulates_init cfg) run₁
  obtain ⟨_, s₂, exec₂, sim₂⟩ := exec_simulated sim₁ run₂
  obtain ⟨g₁, -, inv₁⟩ := exec_inv (inv_init False cfg) False.elim exec₁
  obtain ⟨g₂, grow, inv₂⟩ := exec_inv inv₁ False.elim exec₂
  refine ⟨?_, ?_, ?_⟩
  · intro a ha b hb leads leads' same
    have backed' := sim₂.backed inv₂ hb leads'
    rw [← same] at backed'
    exact (sim₁.backed inv₁ ha leads).unique backed' grow ha hb
  · intro v hv T c d voted voted'
    have first := grow.votes T v c (voted.recorded inv₁ sim₁ hv)
    exact Option.some.inj (first.symm.trans (voted'.recorded inv₂ sim₂ hv))
  · intro v hv c d voted vote
    obtain ⟨g', ext, -, node⟩ := sim₂.core_sound inv₂ hv
    have first := ext.votes _ v c (grow.votes _ v c (voted.recorded inv₁ sim₁ hv))
    rw [node.vote, vote] at first
    exact (Option.some.inj first).symm

-- Node 1 is elected, and crashes before the save that would record its leadership.
def electedThenCrashed : List (EngineEvent Nat) :=
  [.timeout 1, .persistState 1, .sendEnvelope 1 true, .sendEnvelope 1 false, .takeNewlyCommitted 1,
    .inbound 0, .persistState 2, .sendEnvelope 2 true, .inbound 1]

theorem election_safety_three : ∃ w₁ w₂, (World.init three).exec three electedThenCrashed = some w₁ ∧
    w₁.exec three [.crash 1 1] = some w₂ ∧ (w₁.engines 1).core.role = .leader ∧
    (w₂.engines 1).core.role = .follower ∧ ElectionSafe three w₁ w₂ := by
  obtain ⟨w₁, run₁, first⟩ := Option.map_eq_some_iff.mp (show ((World.init three).exec three
    electedThenCrashed).map (fun w => (w.engines 1).core.role) = some .leader by decide)
  obtain ⟨w₂, run₂, second⟩ := Option.map_eq_some_iff.mp (show (w₁.exec three [.crash 1 1]).map
    (fun w => (w.engines 1).core.role) = some .follower from rfl)
  exact ⟨w₁, w₂, run₁, run₂, first, second, election_safety run₁ run₂⟩

end Elections

end Gems.Raft
