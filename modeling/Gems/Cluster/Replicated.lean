import Gems.Cluster.Nodes
import Gems.Engine.History
import Gems.Raft.Proposed

set_option autoImplicit false

namespace Gems.Cluster

open Lib Prog Catalog Engine Storage Raft

variable {cfg : Raft.Cluster} {os : PageSize} {fuel depth depth' k : Nat} {n n' n₁ n₂ : Nodes} {v : NodeId}
  {g g' : Raft.History LogRecord} {store : Store}

section Statement

def LoopEvent.event : LoopEvent → Option (Raft.Event LogRecord)
  | .core event => some event
  | .apply _ => none

/-- Everything that the node ever gave to its store it has given to it again since its last start. -/
def Nodes.CaughtUp (n : Nodes) (v : NodeId) : Prop :=
  n.pending v = [] ∧ n.reached v ≤ (n.system.nodes v).lastApplied

-- The commands that the node has applied, read off its log.
def Nodes.commands (n : Nodes) (v : NodeId) : List Call :=
  (((n.system.nodes v).log.take (n.system.nodes v).lastApplied).map (·.command)).map LogRecord.call

/-- A node that has caught up holds what its applied entries make of an empty store, and two of them that applied
equally many hold the same. -/
structure ReplicasAgree (cfg : Raft.Cluster) (fuel : Nat) (n₁ n₂ : Nodes) : Prop where
  replayed : ∀ a ∈ cfg.members, n₂.CaughtUp a → ∀ id,
    (n₂.stores a).get fuel id = .ok (shown (contents (n₂.commands a) fun _ => none) id)
  agree : ∀ a ∈ cfg.members, ∀ b ∈ cfg.members, n₁.CaughtUp a → n₂.CaughtUp b →
    (n₁.system.nodes a).lastApplied = (n₂.system.nodes b).lastApplied →
    SameContents fuel (n₁.stores a) (n₂.stores b)

namespace Nodes

def Roomy (cfg : Raft.Cluster) (n : Nodes) : Prop :=
  ∀ v ∈ cfg.members, (n.stores v).data.extents.length ≤ 1000

-- Every state of the run in which something happens is so.
def RoomyRun (cfg : Raft.Cluster) (os : PageSize) (fuel : Nat) : List LoopEvent → Nodes → Prop
  | [], _ => True
  | event :: rest, n => n.Roomy cfg ∧ ∀ n', n.exec cfg os fuel event = some (.ok (), n') → RoomyRun cfg os fuel rest n'

/-- Unless the page ids, the commit numbers or the ordinals of a store ran out. -/
def Ended (cfg : Raft.Cluster) (ran : Except Fault Unit × Nodes) (good : Nodes → Prop) : Prop :=
  match ran with
  | (.ok (), n) => good n
  | (.error e, n) => e = .panicked ∧ ∃ v ∈ cfg.members, Exhausted (n.stores v)

theorem Ended.imp {ran : Except Fault Unit × Nodes} {good good' : Nodes → Prop} (ended : Ended cfg ran good)
    (imp : ∀ n, good n → good' n) : Ended cfg ran good' := by
  obtain ⟨result, n⟩ := ran
  cases result with
  | ok done => exact imp n ended
  | error e => exact ended

end Nodes

end Statement

section Store

variable {slots : Slots} {ords : Ordinals} {ids : Reverse} {raw : Entities} {call : Call} {commands : List Call}
  {at_ far : Nat}

/-- A sound store, whose contents are on their way to what the log makes of an empty one. -/
def Follows (os : PageSize) (store : Store) (commands : List Call) (at_ far depth : Nat) : Prop :=
  ∃ slots ords ids raw, Settled os store slots ords ids (shown raw) depth ∧
    CatchesUp (fun call map => Call.onMap call map) commands at_ far (fun _ => none) raw

theorem Follows.deeper (follows : Follows os store commands at_ far depth) (deeper : depth ≤ depth') :
    Follows os store commands at_ far depth' := by
  obtain ⟨slots, ords, ids, raw, settled, caught⟩ := follows
  exact ⟨slots, ords, ids, raw, settled.deeper deeper, caught⟩

theorem Follows.grow (follows : Follows os store commands at_ far depth) {more : List Call}
    (part : commands <+: more) : Follows os store more at_ far depth := by
  obtain ⟨slots, ords, ids, raw, settled, caught⟩ := follows
  obtain ⟨rest, rfl⟩ := part
  exact ⟨slots, ords, ids, raw, settled, caught.grow rest⟩

-- The store that a restarted node opens is behind its log again, and loses nothing by it.
theorem Follows.reopen (follows : Follows os store commands at_ far depth) (enough : depth ≤ fuel)
    (level : Level store.data) : ∃ store', Store.openDir os fuel store.onDisk = .ok store' ∧
      Follows os store' commands 0 far (depth + 1) := by
  obtain ⟨slots, ords, ids, raw, settled, caught⟩ := follows
  have ran := exec_moved settled.synced.sound enough .reopen level
  rw [Call.exec] at ran
  cases opened : Store.openDir os fuel store.onDisk with
  | error e =>
    have flat : LevelAt os store.data.extents.length := by
      rw [LevelAt, ← settled.synced.sound.data.held.mapped]
      exact level
    obtain ⟨store', made, -⟩ := settled.synced.sound.onDisk.openDir (Set.Subset.refl _) flat enough
    rw [made] at opened
    cases opened
  | ok store' =>
    rw [opened] at ran
    obtain ⟨slots', ords', ids', map', moved⟩ := ran
    have settled' := moved.settled settled fun header body mem => by cases List.mem_singleton.mp mem
    obtain ⟨-, rfl⟩ := moved.onMap rfl settled.synced.sound
    exact ⟨store', rfl, slots', ords', ids', raw, settled', caught.back call_overwrites (Nat.zero_le _)⟩

theorem Follows.apply (follows : Follows os store commands at_ far depth) (enough : depth ≤ fuel)
    (level : Level store.data) {record : LogRecord} (fits : record.TextsFit)
    (here : commands[at_]? = some record.call) :
    match applyToStore os fuel record store with
    | (.ok (), store') => Follows os store' commands (at_ + 1) (max far (at_ + 1)) (depth + 1)
    | (.error e, store') => e = .panicked ∧ Exhausted store' := by
  obtain ⟨slots, ords, ids, raw, settled, caught⟩ := follows
  have ran := exec_moved settled.synced.sound enough record.call (record.call.leveled level)
  cases made : record.call.exec os fuel store with
  | mk result store' =>
    rw [made] at ran
    cases result with
    | error e =>
      obtain ⟨rfl, exhausted⟩ := ran
      rw [applyToStore_panicked made]
      exact ⟨rfl, exhausted⟩
    | ok reply =>
      obtain ⟨slots', ords', ids', map', moved⟩ := ran
      rw [applyToStore_ok made]
      have named : Named ([NodeEvent.apply record].map NodeEvent.call) := by
        refine named_of_fit fun other mem => ?_
        obtain rfl := NodeEvent.apply.inj (List.mem_singleton.mp mem)
        exact fits
      have settled' := moved.settled settled named
      obtain ⟨-, rfl⟩ := moved.onMap rfl settled.synced.sound
      exact ⟨slots', ords', ids', _, settled', caught.next here⟩

end Store

section Invariant

def called (g : Raft.History LogRecord) (v : NodeId) : List Call := ((g.held v).map (·.command)).map LogRecord.call

theorem called_grow (grow : g.held v <+: g'.held v) : called g v <+: called g' v := (grow.map _).map _

/-- The node has taken entries that it holds for good, and its store follows them. -/
structure Applying (os : PageSize) (g : Raft.History LogRecord) (n : Nodes) (depth : Nat) (v : NodeId) : Prop where
  taken : (n.system.nodes v).lastApplied ≤ (g.held v).length
  few : (n.pending v).length ≤ (n.system.nodes v).lastApplied
  pending : n.pending v =
    (((g.held v).take (n.system.nodes v).lastApplied).drop (n.applied v)).map (·.command)
  follows : Follows os (n.stores v) (called g v) (n.applied v) (n.reached v) depth

structure Replicating (cfg : Raft.Cluster) (os : PageSize) (g : Raft.History LogRecord) (n : Nodes) (depth : Nat) :
    Prop where
  inv : Inv True cfg g n.system
  fits : AllCommands LogRecord.TextsFit n.system
  node : ∀ v ∈ cfg.members, Applying os g n depth v

theorem Applying.of_eq (applying : Applying os g n depth v) (grow : g.held v <+: g'.held v)
    (lastApplied : (n'.system.nodes v).lastApplied = (n.system.nodes v).lastApplied)
    (pending : n'.pending v = n.pending v) (stores : n'.stores v = n.stores v) (reached : n'.reached v = n.reached v)
    (deeper : depth ≤ depth') : Applying os g' n' depth' v := by
  have applied : n'.applied v = n.applied v := by
    rw [Nodes.applied, Nodes.applied, lastApplied, pending]
  obtain ⟨rest, same⟩ := id grow
  refine ⟨?_, ?_, ?_, ?_⟩
  · rw [lastApplied, ← same, List.length_append]
    exact applying.taken.trans (Nat.le_add_right _ _)
  · rw [lastApplied, pending]
    exact applying.few
  · rw [pending, lastApplied, applied, ← same, List.take_append_of_le_length applying.taken]
    exact applying.pending
  · rw [stores, applied, reached]
    exact (applying.follows.grow (called_grow grow)).deeper deeper

theorem Replicating.act (h : Replicating cfg os g n depth) {e : Raft.Event LogRecord} (clean : n.system.Clean e)
    (fits : ∀ id command, e = .propose id command → command.TextsFit) {system : System LogRecord}
    (stepped : n.system.act cfg e = some system) :
    ∃ g', g.Le g' ∧ Inv True cfg g' system ∧ AllCommands LogRecord.TextsFit system := by
  obtain ⟨g', grow, inv⟩ := act_inv h.inv (fun _ => clean) stepped
  exact ⟨g', grow, inv, act_commands h.fits stepped fits⟩

theorem act_elsewhere {s s' : System LogRecord} {e : Raft.Event LogRecord} {id : NodeId} {c : RaftCore LogRecord}
    {out : List Wire.Message} (stepped : s.local_ cfg e = some (id, c, out)) (acted : s.act cfg e = some s') :
    id ∈ cfg.members ∧ s'.nodes id = c ∧ ∀ w, w ≠ id → s'.nodes w = s.nodes w := by
  rw [System.act, stepped, Option.bind_some] at acted
  dsimp only at acted
  split at acted
  next member =>
    obtain rfl := Option.some.inj acted
    exact ⟨member, Function.update_self .., fun w other => Function.update_of_ne other ..⟩
  next => cases acted

theorem Replicating.turn (h : Replicating cfg os g n depth) {e : Raft.Event LogRecord} (clean : n.system.Clean e)
    (fits : ∀ id command, e = .propose id command → command.TextsFit) (notTake : ∀ id, e ≠ .takeNewlyCommitted id)
    (notRestart : ∀ id ticks, e ≠ .restart id ticks) {ran : Except Fault Unit × Nodes}
    (here : n.turn cfg e = some ran) :
    Nodes.Ended cfg ran fun n' => ∃ g', g.Le g' ∧ Replicating cfg os g' n' (depth + 1) := by
  obtain ⟨⟨id, c, out⟩, stepped, rest⟩ := Option.bind_eq_some_iff.mp here
  dsimp only at rest
  split at rest
  next =>
    obtain ⟨system, acted, rfl⟩ := Option.map_eq_some_iff.mp rest
    obtain ⟨g', grow, inv, all⟩ := h.act clean fits acted
    obtain ⟨-, self, other⟩ := act_elsewhere stepped acted
    obtain ⟨given, gains, -⟩ := local_gains stepped notTake notRestart
    refine ⟨g', grow, inv, all, fun v member => ?_⟩
    refine (h.node v member).of_eq (grow.held v) ?_ rfl rfl rfl (Nat.le_succ depth)
    by_cases same : v = id
    · rw [same, self, gains.lastApplied]
    · rw [other v same]
  next => cases rest

theorem Replicating.take (h : Replicating cfg os g n depth) {id : NodeId} {ran : Except Fault Unit × Nodes}
    (here : n.take cfg id = some ran) :
    Nodes.Ended cfg ran fun n' => ∃ g', g.Le g' ∧ Replicating cfg os g' n' (depth + 1) := by
  rw [Nodes.take] at here
  split at here
  next idle =>
    obtain ⟨⟨c, entries⟩, took, rest⟩ := Option.bind_eq_some_iff.mp here
    obtain ⟨system, acted, rfl⟩ := Option.map_eq_some_iff.mp rest
    have stepped : n.system.local_ cfg (.takeNewlyCommitted id) = some (id, c, []) := by
      rw [System.local_, took]
      rfl
    obtain ⟨g', grow, inv, all⟩ := h.act (e := .takeNewlyCommitted id) trivial (fun _ _ same => by cases same) acted
    obtain ⟨member, self, other⟩ := act_elsewhere stepped acted
    refine ⟨g', grow, inv, all, fun v inside => ?_⟩
    by_cases same : v = id
    · subst same
      have before := h.node v member
      obtain ⟨-, le, bound, taken, -⟩ := takeLoop_taken took
      have none : n.pending v = [] := List.isEmpty_iff.mp idle
      have safe := (h.inv.safe trivial).node v member
      have start : n.applied v = (n.system.nodes v).lastApplied := by
        rw [Nodes.applied, none]
        rfl
      have size : c.lastApplied ≤ (g.held v).length := bound.trans (max_le before.taken safe.commit)
      -- The entries are taken from the part of the log that is held for good.
      have entries_eq : entries = ((g.held v).take c.lastApplied).drop (n.system.nodes v).lastApplied := by
        obtain ⟨tail, held⟩ := safe.held
        rw [taken, List.nil_append, ← held, List.take_append_of_le_length size]
      have count : entries.length = c.lastApplied - (n.system.nodes v).lastApplied := by
        rw [entries_eq, List.length_drop, List.length_take, Nat.min_eq_left size]
      have after : c.lastApplied - entries.length = (n.system.nodes v).lastApplied := by omega
      obtain ⟨tail, held⟩ := grow.held v
      refine ⟨?_, ?_, ?_, ?_⟩ <;> simp only [Nodes.applied, Function.update_self, self, List.length_map, after]
      · rw [← held, List.length_append]
        exact size.trans (Nat.le_add_right _ _)
      · omega
      · rw [← held, List.take_append_of_le_length size, entries_eq]
      · rw [← start]
        exact (before.follows.grow (called_grow ⟨tail, held⟩)).deeper (Nat.le_succ depth)
    · refine (h.node v inside).of_eq (grow.held v) ?_ ?_ rfl rfl (Nat.le_succ depth)
      · rw [other v same]
      · exact Function.update_of_ne same ..
  next => cases here

theorem Replicating.restart (small : os.size ≤ 16384) (h : Replicating cfg os g n depth) (enough : depth ≤ fuel)
    (roomy : n.Roomy cfg) {id : NodeId} {ticks : Nat} {ran : Except Fault Unit × Nodes}
    (here : n.restart cfg os fuel id ticks = some ran) :
    Nodes.Ended cfg ran fun n' => ∃ g', g.Le g' ∧ Replicating cfg os g' n' (depth + 1) := by
  obtain ⟨system, acted, rfl⟩ := Option.map_eq_some_iff.mp here
  obtain ⟨g', grow, inv, all⟩ := h.act (e := .restart id ticks) trivial (fun _ _ same => by cases same) acted
  obtain ⟨member, self, other⟩ := act_elsewhere rfl acted
  have before := h.node id member
  obtain ⟨slots, ords, ids, raw, settled, -⟩ := before.follows
  have level := settled.synced.sound.level small (roomy id member)
  obtain ⟨store, opened, follows⟩ := before.follows.reopen enough level
  rw [opened]
  refine ⟨g', grow, inv, all, fun v inside => ?_⟩
  by_cases same : v = id
  · subst same
    refine ⟨?_, ?_, ?_, ?_⟩ <;> simp only [Nodes.applied, Function.update_self, self]
    · exact Nat.zero_le _
    · exact Nat.zero_le _
    · rfl
    · exact follows.grow (called_grow (grow.held v))
  · refine (h.node v inside).of_eq (grow.held v) ?_ ?_ ?_ rfl (Nat.le_succ depth)
    · rw [other v same]
    · exact Function.update_of_ne same ..
    · exact Function.update_of_ne same ..

theorem Replicating.apply (small : os.size ≤ 16384) (h : Replicating cfg os g n depth) (enough : depth ≤ fuel)
    (roomy : n.Roomy cfg) {id : NodeId} (member : id ∈ cfg.members) {ran : Except Fault Unit × Nodes}
    (here : n.apply os fuel id = some ran) :
    Nodes.Ended cfg ran fun n' => ∃ g', g.Le g' ∧ Replicating cfg os g' n' (depth + 1) := by
  rw [Nodes.apply] at here
  split at here
  next => cases here
  next command rest pending =>
    have before := h.node id member
    obtain ⟨slots, ords, ids, raw, settled, -⟩ := before.follows
    have level := settled.synced.sound.level small (roomy id member)
    have few : rest.length + 1 ≤ (n.system.nodes id).lastApplied := by
      have := before.few
      rwa [pending] at this
    have start : n.applied id = (n.system.nodes id).lastApplied - (rest.length + 1) := by
      rw [Nodes.applied, pending, List.length_cons]
    -- The head of what is pending is the next entry of the log.
    have parts := before.pending
    rw [pending, List.map_drop, List.map_take] at parts
    have inside : n.applied id < (((g.held id).map (·.command)).take (n.system.nodes id).lastApplied).length := by
      rw [List.length_take, List.length_map, Nat.min_eq_left before.taken]
      omega
    rw [List.drop_eq_getElem_cons inside, List.getElem_take] at parts
    obtain ⟨head, tail⟩ := List.cons.inj parts
    have found : ((g.held id).map (·.command))[n.applied id]? = some command :=
      head ▸ List.getElem?_eq_getElem _
    have here' : (called g id)[n.applied id]? = some command.call := by
      rw [called, List.getElem?_map, found]
      rfl
    have fits : command.TextsFit := by
      obtain ⟨entry, mem, rfl⟩ := List.mem_map.mp (List.mem_of_getElem? found)
      exact h.fits.log id entry (((h.inv.safe trivial).node id member).held.subset mem)
    have ran := before.follows.apply enough level fits here'
    cases made : applyToStore os fuel command (n.stores id) with
    | mk result store =>
      rw [made] at here ran
      obtain rfl := Option.some.inj here
      cases result with
      | error e => exact ⟨ran.1, id, member, by simpa using ran.2⟩
      | ok done =>
        refine ⟨g, .refl g, h.inv, h.fits, fun v inside' => ?_⟩
        by_cases same : v = id
        · subst same
          have now : Nodes.applied
              { n with
                stores := Function.update n.stores v store
                pending := Function.update n.pending v rest
                reached := Function.update n.reached v (max (n.reached v) (n.applied v + 1)) } v =
              n.applied v + 1 := by
            simp only [Nodes.applied, Function.update_self, pending, List.length_cons]
            omega
          refine ⟨before.taken, ?_, ?_, ?_⟩ <;> simp only [now, Function.update_self]
          · omega
          · rw [tail, List.map_drop, List.map_take]
          · exact ran
        · refine (h.node v inside').of_eq List.prefix_rfl rfl ?_ ?_ ?_ (Nat.le_succ depth) <;>
            exact Function.update_of_ne same ..

end Invariant

section Runs

variable {event : LoopEvent} {events rest : List LoopEvent}

-- An event of the loop is at most one event of the Raft cluster.
theorem exec_system (ran : n.exec cfg os fuel event = some (.ok (), n')) :
    n.system.exec cfg event.event.toList = some n'.system := by
  have one {e : Raft.Event LogRecord} (acted : n.system.act cfg e = some n'.system) :
      n.system.exec cfg [e] = some n'.system := by
    rw [System.exec, acted]
    rfl
  have turned {e : Raft.Event LogRecord} (ran : n.turn cfg e = some (.ok (), n')) :
      n.system.exec cfg [e] = some n'.system := by
    obtain ⟨⟨id, c, out⟩, stepped, rest⟩ := Option.bind_eq_some_iff.mp ran
    dsimp only at rest
    split at rest
    next =>
      obtain ⟨system, acted, same⟩ := Option.map_eq_some_iff.mp rest
      obtain rfl := (Prod.mk.inj same).2
      exact one acted
    next => cases rest
  cases event with
  | apply id =>
    rw [Nodes.exec] at ran
    split at ran
    next =>
      rw [Nodes.apply] at ran
      split at ran
      next => cases ran
      next =>
        obtain rfl := (Prod.mk.inj (Option.some.inj ran)).2
        rfl
    next => cases ran
  | core e =>
    cases e with
    | takeNewlyCommitted id =>
      rw [Nodes.exec, Nodes.take] at ran
      split at ran
      next =>
        obtain ⟨⟨c, entries⟩, -, rest⟩ := Option.bind_eq_some_iff.mp ran
        obtain ⟨system, acted, same⟩ := Option.map_eq_some_iff.mp rest
        obtain rfl := (Prod.mk.inj same).2
        exact one acted
      next => cases ran
    | restart id ticks =>
      obtain ⟨system, acted, same⟩ := Option.map_eq_some_iff.mp ran
      split at same
      next =>
        obtain rfl := (Prod.mk.inj same).2
        exact one acted
      next => cases (Prod.mk.inj same).1
    | tick => exact turned ran
    | propose => exact turned ran
    | receive => exact turned ran
    | setElectionTimeout => exact turned ran

theorem filterMap_cons_event : (event :: rest).filterMap LoopEvent.event =
    event.event.toList ++ rest.filterMap LoopEvent.event := by
  cases event <;> rfl

theorem run_system (ran : n.run cfg os fuel events = some (.ok (), n')) :
    n.system.exec cfg (events.filterMap LoopEvent.event) = some n'.system := by
  induction events generalizing n with
  | nil =>
    obtain rfl := (Prod.mk.inj (Option.some.inj ran)).2
    rfl
  | cons event rest ih =>
    rw [Nodes.run] at ran
    split at ran
    next n₁ made =>
      rw [filterMap_cons_event, System.exec_append, exec_system made]
      exact ih ran
    next ended other => exact absurd ran (other n')

def Fitting (events : List LoopEvent) : Prop :=
  ∀ id command, .core (.propose id command) ∈ events → command.TextsFit

theorem Replicating.exec (small : os.size ≤ 16384) (h : Replicating cfg os g n depth) (enough : depth ≤ fuel)
    (roomy : n.Roomy cfg) (clean : n.system.CleanRun cfg event.event.toList) (fits : Fitting [event])
    {ran : Except Fault Unit × Nodes} (here : n.exec cfg os fuel event = some ran) :
    Nodes.Ended cfg ran fun n' => ∃ g', g.Le g' ∧ Replicating cfg os g' n' (depth + 1) := by
  cases event with
  | apply id =>
    rw [Nodes.exec] at here
    split at here
    next member => exact h.apply small enough roomy member here
    next => cases here
  | core e =>
    have proposed (id : NodeId) (command : LogRecord) (same : e = .propose id command) : command.TextsFit :=
      fits id command (same ▸ List.mem_cons_self)
    cases e with
    | takeNewlyCommitted id => exact h.take here
    | restart id ticks => exact h.restart small enough roomy here
    | tick => exact h.turn clean.1 proposed (fun _ => by simp) (fun _ _ => by simp) here
    | propose => exact h.turn clean.1 proposed (fun _ => by simp) (fun _ _ => by simp) here
    | receive => exact h.turn clean.1 proposed (fun _ => by simp) (fun _ _ => by simp) here
    | setElectionTimeout => exact h.turn clean.1 proposed (fun _ => by simp) (fun _ _ => by simp) here

theorem Replicating.run (small : os.size ≤ 16384) (h : Replicating cfg os g n depth)
    (enough : depth + events.length ≤ fuel)
    (roomy : n.RoomyRun cfg os fuel events) (clean : n.system.CleanRun cfg (events.filterMap LoopEvent.event))
    (fits : Fitting events) {ran : Except Fault Unit × Nodes} (here : n.run cfg os fuel events = some ran) :
    Nodes.Ended cfg ran fun n' => ∃ g', g.Le g' ∧ Replicating cfg os g' n' (depth + events.length) := by
  induction events generalizing n g depth with
  | nil =>
    obtain rfl := Option.some.inj here
    exact ⟨g, .refl g, h⟩
  | cons event rest ih =>
    rw [List.length_cons] at enough
    rw [filterMap_cons_event] at clean
    obtain ⟨now, later⟩ := roomy
    have first : n.system.CleanRun cfg event.event.toList := by
      cases event with
      | apply => trivial
      | core e => exact ⟨clean.1, fun _ _ => trivial⟩
    rw [Nodes.run] at here
    cases made : n.exec cfg os fuel event with
    | none =>
      rw [made] at here
      cases here
    | some step =>
      have ended := h.exec small (by omega) now first
        (fun id command mem => fits id command (List.mem_singleton.mp mem ▸ List.mem_cons_self)) made
      rw [made] at here
      obtain ⟨result, n'⟩ := step
      cases result with
      | error e =>
        obtain rfl := Option.some.inj here
        exact ended
      | ok done =>
        obtain ⟨g', grow, h'⟩ := ended
        have clean' := (clean.append (exec_system made)).2
        have ran' := ih h' (by omega) (later n' made) clean'
          (fun id command mem => fits id command (List.mem_cons_of_mem event mem)) here
        refine ran'.imp fun n'' ⟨g'', grow', h''⟩ => ⟨g'', grow.trans grow', ?_⟩
        rwa [List.length_cons, Nat.add_comm rest.length, ← Nat.add_assoc]

end Runs

section Agreement

variable {events events' : List LoopEvent}

-- A node that has caught up holds what it applied, and the entries it applied are held for good.
theorem Replicating.caughtUp (h : Replicating cfg os g n depth) (member : v ∈ cfg.members) (caught : n.CaughtUp v) :
    n.commands v = (called g v).take (n.system.nodes v).lastApplied ∧ ∃ slots ords ids,
      Settled os (n.stores v) slots ords ids (shown (contents (n.commands v) fun _ => none)) depth := by
  have node := h.node v member
  obtain ⟨none, reached⟩ := caught
  have all : n.applied v = (n.system.nodes v).lastApplied := by
    rw [Nodes.applied, none]
    rfl
  have held : n.commands v = (called g v).take (n.system.nodes v).lastApplied := by
    obtain ⟨tail, same⟩ := ((h.inv.safe trivial).node v member).held
    rw [Nodes.commands, ← same, List.take_append_of_le_length node.taken, List.map_take, List.map_take]
    rfl
  obtain ⟨slots, ords, ids, raw, settled, behind, within, ahead⟩ := node.follows
  rw [all] at behind ahead
  obtain far : n.reached v = (n.system.nodes v).lastApplied := le_antisymm reached behind
  rw [far, List.drop_eq_nil_of_le (List.length_take_le _ _), List.foldl_nil, ← held] at ahead
  exact ⟨held, slots, ords, ids, by rwa [contents, ← ahead]⟩

theorem Replicating.agree (h : Replicating cfg os g n₁ depth) (h' : Replicating cfg os g' n₂ depth') (grow : g.Le g')
    (enough : depth ≤ fuel) (enough' : depth' ≤ fuel) : ReplicasAgree cfg fuel n₁ n₂ := by
  constructor
  · intro a member caught id
    obtain ⟨-, slots, ords, ids, settled⟩ := h'.caughtUp member caught
    exact settled.synced.sound.get enough' id
  · intro a ha b hb caught caught' level
    obtain ⟨commands, slots, ords, ids, settled⟩ := h.caughtUp ha caught
    obtain ⟨commands', slots', ords', ids', settled'⟩ := h'.caughtUp hb caught'
    have same : n₁.commands a = n₂.commands b := by
      have safe := (h.inv.safe trivial).node a ha
      have safe' := (h'.inv.safe trivial).node b hb
      have bound := (h.node a ha).taken
      have bound' := (h'.node b hb).taken
      rw [commands, commands', called, called, ← List.map_take, ← List.map_take, ← List.map_take, ← List.map_take,
        level]
      rw [level] at bound
      have comparable := (safe.committed.le grow).comparable h'.inv.sound.valid (h'.inv.safe trivial).durable
        safe'.committed
      rcases comparable with ⟨tail, eq⟩ | ⟨tail, eq⟩
      · rw [← eq, List.take_append_of_le_length bound]
      · rw [← eq, List.take_append_of_le_length bound']
    rw [same] at settled
    exact same_contents settled enough settled' enough'

theorem created_replicating (created : Nodes.create os cfg = .ok n) :
    Replicating cfg os (Ledger.empty : Raft.History LogRecord) n 0 := by
  obtain ⟨store, made⟩ : ∃ store, Store.create os = .ok store := ⟨_, (create_sound os).choose_spec.1⟩
  rw [Nodes.create, made] at created
  obtain rfl := Except.ok.inj created
  refine ⟨inv_init True cfg, init_commands, fun v _ => ⟨le_rfl, le_rfl, rfl, ?_⟩⟩
  exact ⟨_, _, _, _, create_settled made, .start _ _ _⟩

theorem replicas_agree (small : os.size ≤ 16384) (created : Nodes.create os cfg = .ok n)
    (run₁ : n.run cfg os fuel events = some (.ok (), n₁)) {ran : Except Fault Unit × Nodes}
    (run₂ : n₁.run cfg os fuel events' = some ran) (enough : (events ++ events').length ≤ fuel)
    (roomy₁ : n.RoomyRun cfg os fuel events) (roomy₂ : n₁.RoomyRun cfg os fuel events')
    (clean : n.system.CleanRun cfg ((events ++ events').filterMap LoopEvent.event))
    (fits : Fitting (events ++ events')) :
    Nodes.Ended cfg ran (ReplicasAgree cfg fuel n₁) := by
  rw [List.length_append] at enough
  rw [List.filterMap_append] at clean
  obtain ⟨clean₁, clean₂⟩ := clean.append (run_system run₁)
  have first := (created_replicating created).run small (by omega) roomy₁ clean₁
    (fun id command mem => fits id command (List.mem_append_left _ mem)) run₁
  obtain ⟨g, -, h⟩ := first
  have second := h.run small (by omega) roomy₂ clean₂
    (fun id command mem => fits id command (List.mem_append_right _ mem)) run₂
  exact second.imp fun n₂ ⟨g', grow, h'⟩ => h.agree h' grow (by omega) (by omega)

end Agreement

section Instance

variable {s : System LogRecord} {e : Raft.Event LogRecord} {es : List (Raft.Event LogRecord)} {id : NodeId}

def isTurn : Raft.Event LogRecord → Bool
  | .takeNewlyCommitted _ => false
  | .restart _ _ => false
  | _ => true

def isRestart : Raft.Event LogRecord → Bool
  | .restart _ _ => true
  | _ => false

theorem exec_turn (turn : isTurn e = true) (idle : ∀ v, n.pending v = []) (acted : n.system.act cfg e = some s) :
    n.exec cfg os fuel (.core e) = some (.ok (), { n with system := s }) := by
  have same : n.exec cfg os fuel (.core e) = n.turn cfg e := by
    cases e with
    | takeNewlyCommitted => cases turn
    | restart => cases turn
    | _ => rfl
  obtain ⟨⟨id, c, out⟩, stepped, -⟩ := Option.bind_eq_some_iff.mp acted
  rw [same, Nodes.turn, stepped, Option.bind_some]
  dsimp only
  rw [idle id, acted]
  rfl

theorem run_turns (turns : ∀ e ∈ es, isTurn e = true) (idle : ∀ v, n.pending v = [])
    (ran : n.system.exec cfg es = some s) (rest : List LoopEvent) :
    n.run cfg os fuel (es.map .core ++ rest) = Nodes.run cfg os fuel rest { n with system := s } := by
  induction es generalizing n with
  | nil =>
    obtain rfl := Option.some.inj ran
    rfl
  | cons e es ih =>
    obtain ⟨s₁, acted, ran'⟩ := Option.bind_eq_some_iff.mp ran
    rw [List.map_cons, List.cons_append, Nodes.run, exec_turn (turns e List.mem_cons_self) idle acted]
    exact ih (n := { n with system := s₁ }) (fun e mem => turns e (List.mem_cons_of_mem _ mem)) idle ran'

theorem exec_stores (kept : isRestart e = false) (ran : n.exec cfg os fuel (.core e) = some (.ok (), n')) :
    n'.stores = n.stores := by
  have turned (ran : n.turn cfg e = some (.ok (), n')) : n'.stores = n.stores := by
    obtain ⟨⟨id, c, out⟩, -, rest⟩ := Option.bind_eq_some_iff.mp ran
    dsimp only at rest
    split at rest
    next =>
      obtain ⟨system, -, same⟩ := Option.map_eq_some_iff.mp rest
      obtain rfl := (Prod.mk.inj same).2
      rfl
    next => cases rest
  cases e with
  | restart => cases kept
  | takeNewlyCommitted id =>
    rw [Nodes.exec, Nodes.take] at ran
    split at ran
    next =>
      obtain ⟨⟨c, entries⟩, -, rest⟩ := Option.bind_eq_some_iff.mp ran
      obtain ⟨system, -, same⟩ := Option.map_eq_some_iff.mp rest
      obtain rfl := (Prod.mk.inj same).2
      rfl
    next => cases ran
  | _ => exact turned ran

theorem roomy_of_kept (kept : ∀ e ∈ es, isRestart e = false) (roomy : n.Roomy cfg) :
    n.RoomyRun cfg os fuel (es.map .core) := by
  induction es generalizing n with
  | nil => trivial
  | cons e es ih =>
    refine ⟨roomy, fun n' ran => ih (fun e mem => kept e (List.mem_cons_of_mem _ mem)) ?_⟩
    rw [Nodes.Roomy, exec_stores (kept e List.mem_cons_self) ran]
    exact roomy

theorem run_apply (member : id ∈ cfg.members) {command : LogRecord} {rest : List LogRecord}
    (pending : n.pending id = command :: rest) : ∃ ran, n.run cfg os fuel [.apply id] = some ran := by
  rw [Nodes.run, Nodes.exec, if_pos member, Nodes.apply, pending]
  dsimp only
  split <;> exact ⟨_, rfl⟩

-- Node 1 is elected, replicates one insert to node 2 and commits it.
def replicated : List (Raft.Event LogRecord) :=
  [.tick 1, .receive 0, .receive 2, .propose 1 firstEntity, .receive 5, .receive 7]

def replicatedLoop : List LoopEvent := replicated.map .core ++ [.core (.takeNewlyCommitted 1)]

-- The run from empty stores, up to the insert that the leader's loop is about to apply.
theorem replicatedLoop_run : ∃ store s₁, Store.create fourKiB = .ok store ∧ store.data.extents.length = 0 ∧
    Nodes.create fourKiB three = .ok ⟨System.init three, fun _ => store, fun _ => [], fun _ => 0⟩ ∧
    Nodes.run three fourKiB 8 replicatedLoop ⟨System.init three, fun _ => store, fun _ => [], fun _ => 0⟩ =
      some (.ok (), ⟨s₁, fun _ => store, Function.update (fun _ => []) 1 [firstEntity], fun _ => 0⟩) ∧
    (s₁.nodes 1).lastApplied = 1 ∧ ((s₁.nodes 1).log.take 1).map (·.command) = [firstEntity] := by
  obtain ⟨store, created, -, none, -⟩ := create_sound fourKiB
  obtain ⟨s, run, seen⟩ := Option.map_eq_some_iff.mp (show ((System.init three).exec three replicated).map
    (fun s => ((s.nodes 1).takeNewlyCommitted.map fun r => r.2.map (·.command),
      (s.act three (.takeNewlyCommitted 1)).map fun s₁ => ((s₁.nodes 1).lastApplied,
        ((s₁.nodes 1).log.take 1).map (·.command)))) =
      some (some [firstEntity], some (1, [firstEntity])) by decide)
  obtain ⟨took, acts⟩ := Prod.mk.inj seen
  obtain ⟨⟨c, entries⟩, took, taken⟩ := Option.map_eq_some_iff.mp took
  obtain ⟨s₁, acted, seen⟩ := Option.map_eq_some_iff.mp acts
  obtain ⟨lastApplied, log⟩ := Prod.mk.inj seen
  have made : Nodes.create fourKiB three = .ok ⟨System.init three, fun _ => store, fun _ => [], fun _ => 0⟩ := by
    rw [Nodes.create, created]
    rfl
  refine ⟨store, s₁, created, none, made, ?_, lastApplied, log⟩
  have turns : Nodes.run three fourKiB 8 replicatedLoop ⟨System.init three, fun _ => store, fun _ => [], fun _ => 0⟩ =
      Nodes.run three fourKiB 8 [.core (.takeNewlyCommitted 1)] ⟨s, fun _ => store, fun _ => [], fun _ => 0⟩ :=
    run_turns (by decide) (fun _ => rfl) run _
  rw [turns, Nodes.run, Nodes.exec, Nodes.take]
  dsimp only
  rw [took, Option.bind_some, acted, ← taken]
  rfl

theorem replicatedLoop_roomy {store : Store} (none : store.data.extents.length = 0) :
    Nodes.RoomyRun three fourKiB 8 replicatedLoop ⟨System.init three, fun _ => store, fun _ => [], fun _ => 0⟩ := by
  have kept : ∀ e ∈ replicated ++ [.takeNewlyCommitted 1], isRestart e = false := by decide
  exact roomy_of_kept kept fun v _ => by simp [none]

set_option maxRecDepth 100000 in
theorem firstEntity_applies : endsIn fourKiB (applyToStore fourKiB 8 firstEntity) (fun _ => true) = true := by
  decide +kernel

theorem replicatedLoop_clean : (System.init three).CleanRun three (replicated ++ [.takeNewlyCommitted 1]) := by
  decide

theorem replicatedLoop_fits : Fitting (replicatedLoop ++ [.apply 1]) := by
  intro id command mem
  obtain ⟨-, rfl⟩ : id = 1 ∧ command = firstEntity := by simpa [replicatedLoop, replicated] using mem
  exact ⟨by decide, by decide⟩

/-- The insert is applied by the leader's loop. -/
theorem replicas_agree_three : ∃ n n₁ ran, Nodes.create fourKiB three = .ok n ∧
    n.run three fourKiB 8 replicatedLoop = some (.ok (), n₁) ∧
    n₁.run three fourKiB 8 [.apply 1] = some ran ∧ Nodes.Ended three ran (ReplicasAgree three 8 n₁) := by
  have small : fourKiB.size ≤ 16384 := show 4096 ≤ 16384 by omega
  obtain ⟨store, s₁, -, none, made, whole, -, -⟩ := replicatedLoop_run
  obtain ⟨ran, applied⟩ : ∃ ran, Nodes.run three fourKiB 8 [.apply 1]
      ⟨s₁, fun _ => store, Function.update (fun _ => []) 1 [firstEntity], fun _ => 0⟩ = some ran :=
    run_apply (by decide) rfl
  exact ⟨_, _, ran, made, whole, applied, replicas_agree small made whole applied (by decide)
    (replicatedLoop_roomy none) ⟨fun v _ => by simp [none], fun _ _ => trivial⟩ replicatedLoop_clean
    replicatedLoop_fits⟩

end Instance

end Gems.Cluster
