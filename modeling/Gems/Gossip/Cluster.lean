import Gems.Gossip.Local

set_option autoImplicit false

namespace Gems.Gossip

/-- The nodes of a cluster and the settings each was started with. -/
structure Config where
  ids : Set NodeId
  peers : NodeId → List NodeId
  protocolPeriod : NodeId → Nat
  pingTimeout : NodeId → Nat
  suspicionTimeout : NodeId → Nat

-- `net` keeps every envelope ever sent: any of them may arrive, any number of times, in any order.
structure Cluster where
  nodes : NodeId → SwimCore
  net : List Envelope

namespace Cluster

def init (cfg : Config) : Cluster where
  nodes := fun id =>
    SwimCore.new id (cfg.peers id) (cfg.protocolPeriod id) (cfg.pingTimeout id)
      (cfg.suspicionTimeout id)
  net := []

def put (s : Cluster) (id : NodeId) (result : SwimCore × List Envelope) : Cluster :=
  { nodes := Function.update s.nodes id result.1, net := s.net ++ result.2 }

inductive Step (cfg : Config) : Cluster → Cluster → Prop where
  -- `order` is the order in which this tick goes through the suspicions.
  | tick {s : Cluster} {id : NodeId} {order : List (NodeId × Nat)} :
      id ∈ cfg.ids → order.Perm (s.nodes id).suspectElapsed →
      Step cfg s (s.put id { s.nodes id with suspectElapsed := order }.tick)
  | receive {s : Cluster} {envelope : Envelope} :
      envelope ∈ s.net → envelope.to_ ∈ cfg.ids →
      Step cfg s (s.put envelope.to_ ((s.nodes envelope.to_).receive envelope))

-- One run, moment by moment; nothing happens in between two moments that are equal.
structure Run (cfg : Config) where
  state : Nat → Cluster
  start : state 0 = init cfg
  next : ∀ t, Step cfg (state t) (state (t + 1)) ∨ state (t + 1) = state t

end Cluster

namespace Cluster

variable {cfg : Config} {s s' : Cluster} {n : NodeId}

def own (s : Cluster) (n : NodeId) : Nat := (s.nodes n).incarnation

/-- Nobody knows a member at an incarnation beyond its own. -/
structure Bounded (s : Cluster) : Prop where
  id : ∀ n, (s.nodes n).id = n
  self : ∀ n, (s.nodes n).members n = some ⟨.alive, s.own n⟩
  members : ∀ n m r, (s.nodes n).members m = some r → r.incarnation ≤ s.own m
  queue : ∀ n, ∀ g ∈ (s.nodes n).gossipQueue, g.item.incarnation ≤ s.own g.item.member
  net : ∀ envelope ∈ s.net, envelope.Known s.own

structure Advances (s s' : Cluster) : Prop where
  own : ∀ n, s'.own n = s.own n ∨ Refutes (Merges (s.nodes n) (s'.nodes n)) (s.nodes n) (s'.nodes n)
  later : ∀ n m r, (s.nodes n).members m = some r →
    ∃ r', (s'.nodes n).members m = some r' ∧ Later r r'

theorem bounded_init : (init cfg).Bounded where
  id := fun n => rfl
  self := fun n => if_pos (.inl rfl)
  members := by
    intro n m r here
    simp only [init, SwimCore.new] at here
    split at here
    next => exact (Option.some.inj here) ▸ Nat.zero_le _
    next => cases here
  queue := fun n g none => absurd none List.not_mem_nil
  net := fun envelope none => absurd none List.not_mem_nil

theorem Bounded.limit (bounded : s.Bounded) (m : NodeId) : (s.nodes n).limit s.own m = s.own m := by
  rw [SwimCore.limit, bounded.id]
  split
  next same => rw [same, own]
  next => rfl

theorem Bounded.follows (bounded : s.Bounded) {merged : SwimCore → GossipItem → Prop} :
    Follows s.own merged (s.nodes n) (s.nodes n) where
  id := rfl
  incarnation := .inl rfl
  self := by
    rw [bounded.id]
    exact bounded.self n
  members := by
    intro m r here
    rw [bounded.limit]
    exact bounded.members n m r here
  queue := by
    intro g mem
    rw [bounded.limit]
    exact bounded.queue n g mem
  later := fun m r here => ⟨r, here, Later.refl r⟩

theorem Bounded.start (bounded : s.Bounded) : s.own (s.nodes n).id = (s.nodes n).incarnation := by
  rw [bounded.id, own]

section Put

variable {result : SwimCore × List Envelope} {m : NodeId}

theorem put_self : (s.put n result).nodes n = result.1 := Function.update_self ..

theorem put_other (other : m ≠ n) : (s.put n result).nodes m = s.nodes m :=
  Function.update_of_ne other ..

theorem put_own (id : result.1.id = n) : (s.put n result).own = result.1.limit s.own := by
  funext m
  rw [own, SwimCore.limit, id]
  split
  next same => rw [same, put_self]
  next other => rw [put_other other, own]

variable (bounded : s.Bounded)
  (follows : Follows s.own (Merges (s.nodes n) result.1) (s.nodes n) result.1)
include bounded follows

theorem own_le_put (m : NodeId) : s.own m ≤ (s.put n result).own m := by
  have id := follows.id.trans (bounded.id n)
  rw [put_own id, SwimCore.limit, id]
  split
  next same =>
    rw [same, own]
    rcases follows.incarnation with same | ⟨next, -⟩ <;> omega
  next => exact le_rfl

theorem Bounded.put (sent : ∀ envelope ∈ result.2, envelope.Known (result.1.limit s.own)) :
    (s.put n result).Bounded := by
  have id := follows.id.trans (bounded.id n)
  have grows := own_le_put bounded follows
  exact
    { id := by
        intro n'
        by_cases same : n' = n
        · rw [same, put_self, id]
        · rw [put_other same, bounded.id]
      self := by
        intro n'
        rw [put_own id, SwimCore.limit, id]
        by_cases same : n' = n
        · rw [same, put_self, if_pos rfl, ← follows.self, id]
        · rw [put_other same, if_neg same, bounded.self]
      members := by
        intro n' m r here
        by_cases same : n' = n
        · rw [same, put_self] at here
          rw [put_own id]
          exact follows.members m r here
        · rw [put_other same] at here
          exact (bounded.members n' m r here).trans (grows m)
      queue := by
        intro n' g mem
        by_cases same : n' = n
        · rw [same, put_self] at mem
          rw [put_own id]
          exact follows.queue g mem
        · rw [put_other same] at mem
          exact (bounded.queue n' g mem).trans (grows _)
      net := by
        intro envelope mem
        rcases List.mem_append.mp mem with old | new
        · have known := bounded.net envelope old
          exact ⟨known.sender.trans (grows _),
            fun item there => (known.gossip item there).trans (grows _)⟩
        · rw [put_own id]
          exact sent envelope new }

omit bounded in
theorem Advances.put : Advances s (s.put n result) where
  own := by
    intro n'
    rw [Cluster.own, Cluster.own]
    by_cases same : n' = n
    · rw [same, put_self]
      exact follows.incarnation
    · rw [put_other same]
      exact .inl rfl
  later := by
    intro n' m r here
    by_cases same : n' = n
    · rw [same] at here ⊢
      rw [put_self]
      exact follows.later m r here
    · rw [put_other same]
      exact ⟨r, here, Later.refl r⟩

end Put

theorem Step.bounded (step : Step cfg s s') (bounded : s.Bounded) :
    s'.Bounded ∧ Advances s s' := by
  cases step with
  | tick _ permuted =>
    obtain ⟨follows, sent⟩ := bounded.follows.tick bounded.start permuted
    exact ⟨bounded.put follows sent, Advances.put follows⟩
  | receive mem _ =>
    obtain ⟨follows, sent⟩ := bounded.follows.receive bounded.start (bounded.net _ mem)
    exact ⟨bounded.put follows sent, Advances.put follows⟩

theorem Advances.refl : Advances s s where
  own := fun _ => .inl rfl
  later := fun _ _ r here => ⟨r, here, Later.refl r⟩

namespace Run

variable (run : Run cfg)

theorem bounded (t : Nat) : (run.state t).Bounded := by
  induction t with
  | zero =>
    rw [run.start]
    exact bounded_init
  | succ t ih =>
    rcases run.next t with step | still
    · exact (step.bounded ih).1
    · rwa [still]

theorem advances (t : Nat) : Advances (run.state t) (run.state (t + 1)) := by
  rcases run.next t with step | still
  · exact (step.bounded (run.bounded t)).2
  · rw [still]
    exact .refl

theorem later (t : Nat) {n m : NodeId} {r : Member} (here : ((run.state t).nodes n).members m = some r)
    (d : Nat) : ∃ r', ((run.state (t + d)).nodes n).members m = some r' ∧ Later r r' := by
  induction d with
  | zero => exact ⟨r, here, Later.refl r⟩
  | succ d ih =>
    obtain ⟨r', there, upTo⟩ := ih
    obtain ⟨r'', last, onward⟩ := (run.advances (t + d)).later n m r' there
    exact ⟨r'', last, upTo.trans onward⟩

/-- In the step after moment `t` the member `m` refutes a fact about itself and gets to `j`. -/
def Produces (t : Nat) (m : NodeId) (j : Nat) : Prop :=
  Refutes (Merges ((run.state t).nodes m) ((run.state (t + 1)).nodes m)) ((run.state t).nodes m)
      ((run.state (t + 1)).nodes m) ∧
    (run.state (t + 1)).own m = j

-- Every incarnation but the first was produced by its member.
theorem produced (t : Nat) {m : NodeId} {j : Nat} (positive : 0 < j)
    (reached : j ≤ (run.state t).own m) : ∃ k < t, run.Produces k m j := by
  induction t with
  | zero =>
    rw [run.start] at reached
    have zero : (init cfg).own m = 0 := rfl
    omega
  | succ t ih =>
    have earlier (old : j ≤ (run.state t).own m) : ∃ k < t + 1, run.Produces k m j := by
      obtain ⟨k, before, produces⟩ := ih old
      exact ⟨k, by omega, produces⟩
    rcases (run.advances t).own m with same | refutes
    · rw [same] at reached
      exact earlier reached
    by_cases old : j ≤ (run.state t).own m
    · exact earlier old
    · have next : (run.state (t + 1)).own m = (run.state t).own m + 1 := refutes.1
      exact ⟨t, by omega, refutes, by omega⟩

end Run

/-- Only the member itself clears a suspicion: what is known about it never runs ahead of it. -/
theorem only_self_clears (cfg : Config) (run : Run cfg) (t d : Nat) (n m : NodeId) :
    (∀ r, ((run.state t).nodes n).members m = some r → r.incarnation ≤ (run.state t).own m) ∧
    (∀ g ∈ ((run.state t).nodes n).gossipQueue,
      g.item.incarnation ≤ (run.state t).own g.item.member) ∧
    (∀ envelope ∈ (run.state t).net,
      envelope.message.senderIncarnation ≤ (run.state t).own envelope.from_ ∧
        ∀ item ∈ envelope.message.gossip, item.incarnation ≤ (run.state t).own item.member) ∧
    ∀ r, ((run.state t).nodes n).members m = some r →
      ∃ r', ((run.state (t + d)).nodes n).members m = some r' ∧ r.incarnation ≤ r'.incarnation ∧
        (r.status = .dead → r'.status = .dead) ∧
        (r.status = .suspect → r'.status = .alive →
          r.incarnation < r'.incarnation ∧ ∃ k < t + d, run.Produces k m r'.incarnation) := by
  have bounded := run.bounded t
  refine ⟨fun r here => bounded.members n m r here, fun g mem => bounded.queue n g mem,
    fun envelope mem => ⟨(bounded.net envelope mem).sender, (bounded.net envelope mem).gossip⟩, ?_⟩
  intro r here
  obtain ⟨r', there, upTo⟩ := run.later t here d
  refine ⟨r', there, upTo.incarnation, ?_, ?_⟩
  · intro dead
    rw [upTo.dead dead, dead]
  · intro suspected cleared
    obtain ⟨status, i⟩ := r
    obtain ⟨status', j⟩ := r'
    cases suspected
    cases cleared
    have above := upTo.cleared
    have known := (run.bounded (t + d)).members n m _ there
    exact ⟨above, run.produced (t + d) ((Nat.zero_le i).trans_lt above) known⟩

section Instance

variable {i : Nat}

def ticked (id : NodeId) (s : Cluster) : Cluster := s.put id (s.nodes id).tick

def delivered (i : Nat) (s : Cluster) : Cluster :=
  s.net[i]?.elim s fun envelope => s.put envelope.to_ ((s.nodes envelope.to_).receive envelope)

theorem ticked_step (member : n ∈ cfg.ids) : Step cfg s (s.ticked n) := Step.tick member (List.Perm.refl _)

theorem delivered_step (sent : s.net[i]?.isSome = true)
    (member : ∀ envelope ∈ s.net, envelope.to_ ∈ cfg.ids) : Step cfg s (s.delivered i) := by
  obtain ⟨envelope, here⟩ := Option.isSome_iff_exists.mp sent
  have mem := List.mem_of_getElem? here
  rw [delivered, here]
  exact Step.receive mem (member envelope mem)

def pair : Config where
  ids := {1, 2}
  peers := fun id => [1, 2].filter (· ≠ id)
  protocolPeriod := fun _ => 1
  pingTimeout := fun _ => 1
  suspicionTimeout := fun _ => 9

-- The first ping is lost, and node 1 suspects node 2; the second one tells it so.
def lostPing : List (Cluster → Cluster) := [ticked 1, ticked 1, delivered 1, delivered 2]

def after (moves : List (Cluster → Cluster)) : Cluster := moves.foldl (fun s move => move s) (init pair)

theorem after_step (moves : List (Cluster → Cluster)) (i : Nat) (sent : (after moves).net[i]?.isSome = true)
    (known : ((after moves).net.all fun e => e.to_ = 1 ∨ e.to_ = 2) = true) :
    Step pair (after moves) ((after moves).delivered i) := by
  refine delivered_step sent fun envelope mem => ?_
  have either : envelope.to_ = 1 ∨ envelope.to_ = 2 := by simpa using List.all_eq_true.mp known envelope mem
  exact either

def lostPingRun : Run pair where
  state t := after (lostPing.take t)
  start := rfl
  next t := by
    rcases t with _ | _ | _ | _ | t
    · exact .inl (ticked_step (.inl rfl))
    · exact .inl (ticked_step (.inl rfl))
    · exact .inl (after_step (lostPing.take 2) 1 (by decide) (by decide))
    · exact .inl (after_step (lostPing.take 3) 2 (by decide) (by decide))
    · refine .inr ?_
      rw [List.take_of_length_le (by simp [lostPing]), List.take_of_length_le (by simp [lostPing])]

/-- Node 1 takes its suspicion of node 2 back after node 2 has refuted it. -/
theorem only_self_clears_refuted : ((lostPingRun.state 2).nodes 1).members 2 = some ⟨.suspect, 0⟩ ∧
    ((lostPingRun.state 4).nodes 1).members 2 = some ⟨.alive, 1⟩ ∧ ∃ k < 4, lostPingRun.Produces k 2 1 := by
  have suspected : ((lostPingRun.state 2).nodes 1).members 2 = some ⟨.suspect, 0⟩ := by decide
  have cleared : ((lostPingRun.state 4).nodes 1).members 2 = some ⟨.alive, 1⟩ := by decide
  obtain ⟨-, -, -, onward⟩ := only_self_clears pair lostPingRun 2 2 1 2
  obtain ⟨r, here, -, -, produced⟩ := onward _ suspected
  obtain rfl := Option.some.inj (cleared.symm.trans here)
  exact ⟨suspected, cleared, (produced rfl rfl).2⟩

end Instance

end Cluster

end Gems.Gossip
