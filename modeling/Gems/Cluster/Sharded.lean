import Gems.Cluster.Replicated
import Gems.Cluster.Shard

set_option autoImplicit false

namespace Gems.Cluster

open Lib Acting Catalog Engine Storage Raft

section Routing

namespace Session

def Adds (P : SocketAddr × LogRecord → Prop) (s s' : Session) : Prop :=
  ∃ new, s'.sent = s.sent ++ new ∧ ∀ message ∈ new, P message

variable {P Q : SocketAddr × LogRecord → Prop} {s t u : Session}

theorem adds_refl (s : Session) : Adds P s s :=
  ⟨[], (List.append_nil _).symm, fun _ none => absurd none List.not_mem_nil⟩

theorem Adds.trans (first : Adds P s t) (second : Adds P t u) : Adds P s u := by
  obtain ⟨new, sent, all⟩ := first
  obtain ⟨new', sent', all'⟩ := second
  refine ⟨new ++ new', by rw [sent', sent, List.append_assoc], fun message mem => ?_⟩
  exact (List.mem_append.mp mem).elim (all message) (all' message)

theorem Adds.imp (adds : Adds P s t) (imp : ∀ message, P message → Q message) : Adds Q s t := by
  obtain ⟨new, sent, all⟩ := adds
  exact ⟨new, sent, fun message mem => imp message (all message mem)⟩

theorem adds_answer (s : Session) : Adds P s s.answer := adds_refl s

theorem adds_send {addr : SocketAddr} {command : LogRecord} (holds : P (addr, command)) (s : Session) :
    Adds P s (s.send addr command) := by
  refine ⟨[(addr, command)], rfl, fun message mem => ?_⟩
  obtain rfl := List.mem_singleton.mp mem
  exact holds

end Session

open Session

variable {P : SocketAddr × LogRecord → Prop} {client : ShardedClient} {addr : SocketAddr} {command : LogRecord}
  {entityId : Tuid}

theorem keeps_proposeRemote (holds : P (addr, command)) : Keeps (Adds P) (proposeRemote addr command) := by
  have sending {A : Type} {rest : Unit → Client Error A} (later : Keeps (Adds P) (rest ())) :
      Keeps (Adds P) (update (Session.send addr command) >>= rest) :=
    keeps_bind Adds.trans (keeps_update (adds_send holds)) fun _ => later
  refine keeps_bind Adds.trans (keeps_view adds_refl) fun s => ?_
  refine keeps_bind Adds.trans (keeps_update adds_answer) fun _ => ?_
  cases s.replies 0 with
  | unreachable => exact keeps_raise adds_refl _
  | silent => exact sending (keeps_raise adds_refl _)
  | answered status index =>
    refine sending ?_
    split
    · exact keeps_raise adds_refl _
    · exact keeps_pure adds_refl _

theorem keeps_tryMembers {members : List (NodeId × SocketAddr)}
    (holds : ∀ member ∈ members, P (member.2, command)) :
    Keeps (Adds P) (ShardedClient.tryMembers command members) := by
  induction members with
  | nil => exact keeps_raise adds_refl _
  | cons member rest ih =>
    have first := keeps_attempt (keeps_proposeRemote (holds member List.mem_cons_self))
    refine keeps_bind Adds.trans first fun result => ?_
    cases result with
    | ok index => exact keeps_pure adds_refl index
    | error e => exact ih fun other mem => holds other (List.mem_cons_of_mem member mem)

/-- A record goes to members of the shard of its entity and to nobody else, whatever they answer. -/
def Routed (client : ShardedClient) (entityId : Tuid) (addr : SocketAddr) : Prop :=
  ∃ shard node, client.shardOf entityId = .ok shard ∧ (node, addr) ∈ client.map.members shard

theorem keeps_propose (client : ShardedClient) (entityId : Tuid) (command : LogRecord) :
    Keeps (Adds fun message => message.2 = command ∧ Routed client entityId message.1)
      (client.propose entityId command) := by
  refine keeps_known adds_refl fun shard routed => ?_
  have routed : client.shardOf entityId = .ok shard := by
    change client.router.shardOf entityId = .ok shard
    cases made : client.router.shardOf entityId with
    | error fault =>
      rw [made] at routed
      cases routed
    | ok other =>
      rw [made] at routed
      cases routed
      rfl
  dsimp only
  split
  · exact keeps_raise adds_refl _
  · exact keeps_tryMembers fun member mem => ⟨rfl, shard, member.1, routed, mem⟩

theorem proposeAll_routed (records : List LogRecord) {s : Session}
    (before : ∀ message ∈ s.sent, Routed client message.2.entityId message.1) :
    ∀ message ∈ (client.proposeAll records s).sent, Routed client message.2.entityId message.1 := by
  induction records generalizing s with
  | nil => exact before
  | cons record rest ih =>
    refine ih fun message mem => ?_
    obtain ⟨new, sent, all⟩ := keeps_propose client record.entityId record s
    rw [sent] at mem
    rcases List.mem_append.mp mem with old | fresh
    · exact before message old
    · obtain ⟨same, routed⟩ := all message fresh
      rwa [same]

end Routing

section Statement

/-- No address is one of two shards. -/
def ShardMap.Separate (map : ShardMap) : Prop :=
  ∀ shard shard' node node' addr, (node, addr) ∈ map.members shard → (node', addr) ∈ map.members shard' →
    shard = shard'

/-- A run of the group of one shard, from empty stores, to which nothing is proposed but what the client has sent. -/
structure ShardRun (client : ShardedClient) (asked : Session) (os : PageSize) (fuel : Nat) (shard : ShardId) where
  cfg : Raft.Cluster
  start : Nodes
  events : List LoopEvent
  last : Nodes
  created : Nodes.create os cfg = .ok start
  ran : start.run cfg os fuel events = some (.ok (), last)
  proposed : ∀ v command, .core (.propose v command) ∈ events →
    ∃ addr, (v, addr) ∈ client.map.members shard ∧ (addr, command) ∈ asked.sent
  enough : events.length ≤ fuel
  roomy : start.RoomyRun cfg os fuel events
  clean : start.system.CleanRun cfg (events.filterMap LoopEvent.event)
  fits : Fitting events

end Statement

section Partition

variable {client : ShardedClient} {asked : Session} {os : PageSize} {fuel : Nat} {shard : ShardId}
  {P : LogRecord → Prop} {cfg : Raft.Cluster} {n n' : Nodes} {events : List LoopEvent}

theorem exec_commands {s s' : System LogRecord} {es : List (Raft.Event LogRecord)} (all : AllCommands P s)
    (proposed : ∀ id command, .propose id command ∈ es → P command) (ran : s.exec cfg es = some s') :
    AllCommands P s' := by
  induction es generalizing s with
  | nil =>
    obtain rfl := Option.some.inj ran
    exact all
  | cons e rest ih =>
    obtain ⟨t, acted, ran⟩ := Option.bind_eq_some_iff.mp ran
    have first := act_commands all acted fun id command same => proposed id command (same ▸ List.mem_cons_self)
    exact ih first (fun id command mem => proposed id command (List.mem_cons_of_mem e mem)) ran

-- Every command in the logs of a shard is about an entity of the shard.
theorem ShardRun.routed (run : ShardRun client asked os fuel shard) (separate : client.map.Separate)
    (sent : ∀ message ∈ asked.sent, Routed client message.2.entityId message.1) :
    AllCommands (fun command => client.shardOf command.entityId = .ok shard) run.last.system := by
  have created : run.start.system = System.init run.cfg := by
    have made := run.created
    rw [Nodes.create] at made
    cases store : Store.create os with
    | error fault =>
      rw [store] at made
      cases made
    | ok s =>
      rw [store] at made
      rw [← Except.ok.inj made]
  refine exec_commands (created ▸ init_commands) (fun id command mem => ?_) (run_system run.ran)
  obtain ⟨event, inside, same⟩ := List.mem_filterMap.mp mem
  cases event with
  | apply v => cases same
  | core e =>
    obtain rfl := Option.some.inj same
    obtain ⟨addr, member, asked⟩ := run.proposed id command inside
    obtain ⟨shard', node, owner, member'⟩ := sent _ asked
    rwa [separate shard shard' id node addr member member']

theorem ShardRun.replicating (run : ShardRun client asked os fuel shard) (small : os.size ≤ 16384) :
    ∃ g depth, depth ≤ fuel ∧ Replicating run.cfg os g run.last depth := by
  have ended := (created_replicating run.created).run small (by have := run.enough; omega) run.roomy run.clean run.fits
    run.ran
  obtain ⟨g, -, h⟩ := ended
  exact ⟨g, _, by have := run.enough; omega, h⟩

theorem call_elsewhere {record : LogRecord} {id : Tuid} (other : record.entityId ≠ id) (map : Entities) :
    record.call.onMap map id = map id := by
  cases record with
  | insert header body =>
    rw [LogRecord.call, Call.onMap]
    split
    · exact Function.update_of_ne other.symm _ _
    · rfl
  | delete id' => exact Function.update_of_ne other.symm _ _

theorem ShardRun.calls (run : ShardRun client asked os fuel shard) (separate : client.map.Separate)
    (sent : ∀ message ∈ asked.sent, Routed client message.2.entityId message.1) {v : NodeId} {call : Call}
    (mem : call ∈ run.last.commands v) : ∃ record, call = LogRecord.call record ∧
      client.shardOf record.entityId = .ok shard := by
  obtain ⟨record, inside, rfl⟩ := List.mem_map.mp mem
  obtain ⟨entry, taken, rfl⟩ := List.mem_map.mp inside
  exact ⟨entry.command, rfl, (run.routed separate sent).log v entry (List.mem_of_mem_take taken)⟩

theorem ShardRun.get (run : ShardRun client asked os fuel shard) (small : os.size ≤ 16384) {v : NodeId}
    (member : v ∈ run.cfg.members) (caught : run.last.CaughtUp v) (id : Tuid) :
    (run.last.stores v).get fuel id = .ok (shown (contents (run.last.commands v) fun _ => none) id) := by
  obtain ⟨g, depth, enough, h⟩ := run.replicating small
  obtain ⟨-, slots, ords, ids, settled⟩ := h.caughtUp member caught
  exact settled.synced.sound.get enough id

/-- Nodes that have caught up, one of each shard, are together one store that was given the commands of all shards, in
any order that keeps the order within each shard; and no shard holds an entity of another. -/
theorem sharded_as_one (small : os.size ≤ 16384) (separate : client.map.Separate) {session : Session}
    (fresh : session.sent = []) (records : List LogRecord)
    (runs : ∀ shard : Fin client.router.numShards.toNat,
      ShardRun client (client.proposeAll records session) os fuel shard)
    (v : Fin client.router.numShards.toNat → NodeId) (members : ∀ shard, v shard ∈ (runs shard).cfg.members)
    (caught : ∀ shard, (runs shard).last.CaughtUp (v shard))
    (merged : List (Fin client.router.numShards.toNat × Call))
    (ordered : ∀ shard, (merged.filter fun call => call.1 = shard).map Prod.snd = (runs shard).last.commands (v shard))
    (shard : Fin client.router.numShards.toNat) (id : Tuid) :
    (client.shardOf id = .ok shard → ((runs shard).last.stores (v shard)).get fuel id =
      .ok (shown (contents (merged.map Prod.snd) fun _ => none) id)) ∧
    (client.shardOf id ≠ .ok shard → ((runs shard).last.stores (v shard)).get fuel id = .ok none) := by
  have sent : ∀ message ∈ (client.proposeAll records session).sent, Routed client message.2.entityId message.1 :=
    proposeAll_routed records fun message mem => absurd (fresh ▸ mem) List.not_mem_nil
  rw [(runs shard).get small (members shard) (caught shard) id]
  constructor
  · intro owner
    have elsewhere (call : Fin client.router.numShards.toNat × Call) (mem : call ∈ merged)
        (other : decide (call.1 = shard) = false) (map : Entities) : call.2.onMap map id = map id := by
      have inside : call.2 ∈ (runs call.1).last.commands (v call.1) := by
        rw [← ordered]
        exact List.mem_map_of_mem (List.mem_filter.mpr ⟨mem, by simp⟩)
      obtain ⟨record, same, routed⟩ := (runs call.1).calls separate sent inside
      rw [same]
      refine call_elsewhere (fun same => of_decide_eq_false other ?_) map
      rw [same, owner] at routed
      exact Fin.ext (Except.ok.inj routed).symm
    have overwrites : Overwrites fun (call : Fin client.router.numShards.toNat × Call) => call.2.onMap :=
      fun call => call_overwrites call.2
    have filtered := overwrites.foldl_filter _ elsewhere fun _ => none
    have same : contents (merged.map Prod.snd) (fun _ => none) id =
        contents ((runs shard).last.commands (v shard)) (fun _ => none) id := by
      rw [← ordered, contents, contents, List.foldl_map, List.foldl_map]
      exact filtered
    rw [shown, shown, same]
  · intro other
    have untouched : contents ((runs shard).last.commands (v shard)) (fun _ => none) id = none := by
      have elsewhere (call : Call) (mem : call ∈ (runs shard).last.commands (v shard)) (_ : false = false)
          (map : Entities) : call.onMap map id = map id := by
        obtain ⟨record, rfl, routed⟩ := (runs shard).calls separate sent mem
        refine call_elsewhere (fun same => other ?_) map
        rwa [same] at routed
      have filtered := call_overwrites.foldl_filter (fun _ => false) elsewhere fun _ => none
      rwa [List.filter_false] at filtered
    rw [shown, untouched]
    rfl

end Partition

section Runs

variable {cfg : Raft.Cluster} {os : PageSize} {fuel : Nat} {events events' : List LoopEvent} {n n' : Nodes}

theorem run_append (ran : n.run cfg os fuel events = some (.ok (), n')) :
    n.run cfg os fuel (events ++ events') = n'.run cfg os fuel events' := by
  induction events generalizing n with
  | nil =>
    obtain rfl := (Prod.mk.inj (Option.some.inj ran)).2
    rfl
  | cons event rest ih =>
    rw [Nodes.run] at ran
    rw [List.cons_append, Nodes.run]
    split at ran
    next n₁ made =>
      exact ih ran
    next ended other => exact absurd ran (other n')

theorem roomyRun_append (roomy : n.RoomyRun cfg os fuel events) (ran : n.run cfg os fuel events = some (.ok (), n'))
    (roomy' : n'.RoomyRun cfg os fuel events') : n.RoomyRun cfg os fuel (events ++ events') := by
  induction events generalizing n with
  | nil =>
    obtain rfl := (Prod.mk.inj (Option.some.inj ran)).2
    exact roomy'
  | cons event rest ih =>
    obtain ⟨now, later⟩ := roomy
    refine ⟨now, fun n₁ made => ih (later n₁ made) ?_⟩
    rwa [Nodes.run, made] at ran

end Runs

section Instance

def home : SocketAddr := { ip := [127, 0, 0, 1], port := 9000 }

def away : SocketAddr := { ip := [127, 0, 0, 1], port := 9001 }

def oneShard : ShardedClient where
  router := { numShards := 1, positive := by decide }
  map := ShardMap.new.addMember 0 1 home

def twoShards : ShardedClient where
  router := { numShards := 2, positive := by decide }
  map := oneShard.map.addMember 1 1 away

def accepting : Session where
  sent := []
  replies := fun _ => .answered clientStatusOk 1
  fresh := fun _ => .nil

def askedOnce : Session := twoShards.proposeAll [firstEntity] accepting

theorem askedOnce_sent : askedOnce.sent = [(home, firstEntity)] := by
  decide

theorem twoShards_member (v : NodeId) (addr : SocketAddr) (shard : ShardId) :
    (v, addr) ∈ twoShards.map.members shard ↔ v = 1 ∧ (shard = 0 ∧ addr = home ∨ shard = 1 ∧ addr = away) := by
  by_cases zero : shard = 0
  · subst zero
    simp [twoShards, oneShard, ShardMap.members, ShardMap.addMember, ShardMap.new]
  · by_cases one : shard = 1
    · subst one
      simp [twoShards, oneShard, ShardMap.members, ShardMap.addMember, ShardMap.new]
    · simp [twoShards, oneShard, ShardMap.members, ShardMap.addMember, ShardMap.new, zero, one]

theorem twoShards_separate : twoShards.map.Separate := by
  intro shard shard' node node' addr mem mem'
  rw [twoShards_member] at mem mem'
  have apart : home ≠ away := by decide
  rcases mem.2 with ⟨zero, first⟩ | ⟨one, second⟩
  · rcases mem'.2 with ⟨zero', -⟩ | ⟨-, second'⟩
    · rw [zero, zero']
    · exact absurd (first.symm.trans second') apart
  · rcases mem'.2 with ⟨-, first'⟩ | ⟨one', -⟩
    · exact absurd (first'.symm.trans second) apart
    · rw [one, one']

-- The group of the first shard: its leader's node has applied the insert.
theorem firstShard_run : ∃ run : ShardRun twoShards askedOnce fourKiB 8 0,
    run.cfg = three ∧ run.last.CaughtUp 1 ∧ run.last.commands 1 = [firstEntity.call] := by
  obtain ⟨store, s₁, created, none, made, whole, lastApplied, log⟩ := replicatedLoop_run
  obtain ⟨done, left, applied, -⟩ := endsIn_spec created firstEntity_applies
  let last : Nodes := ⟨s₁, Function.update (fun _ => store) 1 left,
    Function.update (Function.update (fun _ => []) 1 [firstEntity]) 1 [], Function.update (fun _ => 0) 1 1⟩
  have step : Nodes.run three fourKiB 8 [.apply 1]
      ⟨s₁, fun _ => store, Function.update (fun _ => []) 1 [firstEntity], fun _ => 0⟩ = some (.ok (), last) := by
    rw [Nodes.run, Nodes.exec, if_pos (by decide), Nodes.apply]
    dsimp only
    rw [Function.update_self]
    dsimp only
    rw [applied]
    simp [Nodes.run, last, Nodes.applied, lastApplied]
  have ran := (run_append whole).trans step
  have events : (replicatedLoop ++ [LoopEvent.apply 1]).filterMap LoopEvent.event =
      replicated ++ [.takeNewlyCommitted 1] := rfl
  have clean := replicatedLoop_clean
  rw [← events] at clean
  let run : ShardRun twoShards askedOnce fourKiB 8 0 :=
    { cfg := three
      start := _
      events := replicatedLoop ++ [.apply 1]
      last := last
      created := made
      ran := ran
      proposed := by
        intro v command mem
        obtain ⟨rfl, rfl⟩ : v = 1 ∧ command = firstEntity := by simpa [replicatedLoop, replicated] using mem
        refine ⟨home, (twoShards_member 1 home 0).mpr ⟨rfl, .inl ⟨rfl, rfl⟩⟩, ?_⟩
        rw [askedOnce_sent]
        exact List.mem_cons_self
      enough := by decide
      roomy := roomyRun_append (replicatedLoop_roomy none) whole ⟨fun v _ => by simp [none], fun _ _ => trivial⟩
      clean := clean
      fits := replicatedLoop_fits }
  refine ⟨run, rfl, ⟨by simp [run, last], by simp [run, last, lastApplied]⟩, ?_⟩
  change (((s₁.nodes 1).log.take (s₁.nodes 1).lastApplied).map (·.command)).map LogRecord.call = _
  rw [lastApplied, log]
  rfl

-- The group of the second shard, to which nothing was sent.
theorem secondShard_run : ∃ run : ShardRun twoShards askedOnce fourKiB 8 1,
    run.cfg = three ∧ run.last.CaughtUp 1 ∧ run.last.commands 1 = [] := by
  obtain ⟨store, -, -, -, made, -⟩ := replicatedLoop_run
  let run : ShardRun twoShards askedOnce fourKiB 8 1 :=
    { cfg := three
      start := _
      events := []
      last := _
      created := made
      ran := rfl
      proposed := fun _ _ none => absurd none List.not_mem_nil
      enough := by decide
      roomy := trivial
      clean := trivial
      fits := fun _ _ none => absurd none List.not_mem_nil }
  exact ⟨run, rfl, ⟨rfl, Nat.le_refl 0⟩, rfl⟩

/-- Two shards, and an insert for the first of them: its node holds it, and the node of the second does not. -/
theorem sharded_as_one_insert : ∃ (first : ShardRun twoShards askedOnce fourKiB 8 0)
    (second : ShardRun twoShards askedOnce fourKiB 8 1),
    (first.last.stores 1).get 8 firstEntity.entityId =
      .ok (shown (contents [firstEntity.call] fun _ => none) firstEntity.entityId) ∧
    (second.last.stores 1).get 8 firstEntity.entityId = .ok none := by
  obtain ⟨first, cfg, caught, commands⟩ := firstShard_run
  obtain ⟨second, cfg', caught', commands'⟩ := secondShard_run
  refine ⟨first, second, ?_⟩
  have small : fourKiB.size ≤ 16384 := show 4096 ≤ 16384 by omega
  let runs : ∀ shard : Fin 2, ShardRun twoShards askedOnce fourKiB 8 shard :=
    Fin.cons first (Fin.cons second fun none => none.elim0)
  have members : ∀ shard : Fin 2, 1 ∈ (runs shard).cfg.members := by
    have member : 1 ∈ three.members := by decide
    rw [Fin.forall_fin_two]
    exact ⟨cfg ▸ member, cfg' ▸ member⟩
  have caughtUp : ∀ shard : Fin 2, (runs shard).last.CaughtUp 1 := Fin.forall_fin_two.mpr ⟨caught, caught'⟩
  have ordered : ∀ shard : Fin 2, ([((0 : Fin 2), firstEntity.call)].filter fun call => call.1 = shard).map Prod.snd =
      (runs shard).last.commands 1 := Fin.forall_fin_two.mpr ⟨commands.symm, commands'.symm⟩
  have one (shard : Fin 2) := sharded_as_one small twoShards_separate (show accepting.sent = [] from rfl) [firstEntity]
    runs (fun _ => 1) members caughtUp [((0 : Fin 2), firstEntity.call)] ordered shard firstEntity.entityId
  have elsewhere : twoShards.shardOf firstEntity.entityId ≠ .ok 1 := by
    rw [show twoShards.shardOf firstEntity.entityId = .ok 0 from rfl]
    simp
  exact ⟨(one 0).1 rfl, (one 1).2 elsewhere⟩

end Instance

end Gems.Cluster
