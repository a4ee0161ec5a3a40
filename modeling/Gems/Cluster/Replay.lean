import Gems.Cluster.Record
import Gems.Engine.Rebuilt
import Gems.Lib.Replay

set_option autoImplicit false

namespace Gems.Cluster

open Lib Prog Catalog Engine Storage

def LogRecord.call : LogRecord → Call
  | insert header body => .insert header body
  | delete id => .delete id

namespace LogRecord

def apply (os : PageSize) (fuel : Nat) : LogRecord → Gems.Prog Store Unit
  | insert header body => Store.insert os fuel header body
  | delete id => do
    let _ ← Store.delete os fuel id
    pure ()

end LogRecord

-- An error of the store is dropped; a panic ends the process.
def applyToStore (os : PageSize) (fuel : Nat) (command : LogRecord) (s : Store) : Except Fault Unit × Store :=
  match (command.apply os fuel).run s with
  | (.error (.raised _), s') => (.ok (), s')
  | ended => ended

inductive NodeEvent where
  | apply (command : LogRecord)
  | restart

def NodeEvent.exec (os : PageSize) (fuel : Nat) : NodeEvent → Store → Except Fault Unit × Store
  | .apply command, s => applyToStore os fuel command s
  | .restart, s =>
    match Store.openDir os fuel s.onDisk with
    | .ok s' => (.ok (), s')
    | .error e => (.error e, s)

def runNode (os : PageSize) (fuel : Nat) : List NodeEvent → Store → Except Fault Unit × Store
  | [], s => (.ok (), s)
  | event :: rest, s =>
    match event.exec os fuel s with
    | (.ok (), s') => runNode os fuel rest s'
    | (.error e, s') => (.error e, s')

def NodeEvent.call : NodeEvent → Call
  | .apply command => command.call
  | .restart => .reopen

/-- The two stores hold the same entities, under the same kinds and types. -/
structure SameContents (fuel : Nat) (a b : Store) : Prop where
  get : ∀ id, ∃ e, a.get fuel id = .ok e ∧ b.get fuel id = .ok e
  scanAll : ∃ entities, a.scanAll fuel = .ok entities ∧ b.scanAll fuel = .ok entities
  byKind : ∀ kind, ∃ list list', a.queryByKind fuel kind = .ok list ∧ b.queryByKind fuel kind = .ok list' ∧
    ∀ id, id ∈ list ↔ id ∈ list'
  bySchemaRef : ∀ typeId, ∃ list list', a.queryBySchemaRef fuel typeId = .ok list ∧
    b.queryBySchemaRef fuel typeId = .ok list' ∧ ∀ id, id ∈ list ↔ id ∈ list'

variable {os : PageSize} {s s' a b : Store} {slots slots' : Slots} {ords ords' : Ordinals} {ids ids' : Reverse}
  {map raw : Entities} {depth depth' fuel : Nat} {record : LogRecord} {reply : Reply}

section Applying

theorem applyToStore_ok (ran : record.call.exec os fuel s = (.ok reply, s')) :
    applyToStore os fuel record s = (.ok (), s') := by
  cases record with
  | insert header body =>
    rw [LogRecord.call, Call.exec] at ran
    rw [applyToStore, LogRecord.apply]
    cases made : (Store.insert os fuel header body).run s with
    | mk result s'' =>
      rw [made] at ran
      cases result with
      | ok done => exact Prod.ext rfl (Prod.mk.inj ran).2
      | error e =>
        cases e with
        | raised error => exact Prod.ext rfl (Prod.mk.inj ran).2
        | _ => cases ran
  | delete id =>
    rw [LogRecord.call, Call.exec] at ran
    rw [applyToStore, LogRecord.apply, run_discard]
    cases made : (Store.delete os fuel id).run s with
    | mk result s'' =>
      rw [made] at ran
      cases result with
      | ok existed => exact Prod.ext rfl (Prod.mk.inj ran).2
      | error e => cases ran

theorem applyToStore_panicked (ran : record.call.exec os fuel s = (.error .panicked, s')) :
    applyToStore os fuel record s = (.error .panicked, s') := by
  cases record with
  | insert header body =>
    rw [LogRecord.call, Call.exec] at ran
    rw [applyToStore, LogRecord.apply]
    cases made : (Store.insert os fuel header body).run s with
    | mk result s'' =>
      rw [made] at ran
      cases result with
      | ok done => cases ran
      | error e =>
        cases e with
        | panicked => exact Prod.ext rfl (Prod.mk.inj ran).2
        | raised error => cases ran
        | stopped => cases ran
        | refused => cases ran
        | unfinished => cases ran
  | delete id =>
    rw [LogRecord.call, Call.exec] at ran
    rw [applyToStore, LogRecord.apply, run_discard]
    cases made : (Store.delete os fuel id).run s with
    | mk result s'' =>
      rw [made] at ran
      cases result with
      | ok existed => cases ran
      | error e =>
        obtain ⟨same, rfl⟩ := Prod.mk.inj ran
        obtain rfl := Except.error.inj same
        rfl

theorem NodeEvent.exec_of_call (os : PageSize) (fuel : Nat) (event : NodeEvent) (s : Store) :
    (∀ reply s', event.call.exec os fuel s = (.ok reply, s') → event.exec os fuel s = (.ok (), s')) ∧
      ∀ s', event.call.exec os fuel s = (.error .panicked, s') → event.exec os fuel s = (.error .panicked, s') := by
  cases event with
  | apply command => exact ⟨fun _ _ ran => applyToStore_ok ran, fun _ ran => applyToStore_panicked ran⟩
  | restart =>
    simp only [NodeEvent.call, Call.exec, NodeEvent.exec]
    cases Store.openDir os fuel s.onDisk with
    | ok t => exact ⟨fun _ _ ran => Prod.ext rfl (Prod.mk.inj ran).2, fun _ ran => by cases ran⟩
    | error e =>
      refine ⟨fun _ _ ran => (by cases ran), fun s' ran => ?_⟩
      obtain ⟨same, rfl⟩ := Prod.mk.inj ran
      obtain rfl := Except.error.inj same
      rfl

theorem runNode_of_calls (os : PageSize) (fuel : Nat) (events : List NodeEvent) (s : Store) :
    (∀ given s', runCalls os fuel (events.map NodeEvent.call) s = (.ok given, s') →
      runNode os fuel events s = (.ok (), s')) ∧
      ∀ s', runCalls os fuel (events.map NodeEvent.call) s = (.error .panicked, s') →
        runNode os fuel events s = (.error .panicked, s') := by
  induction events generalizing s with
  | nil => exact ⟨fun _ _ ran => Prod.ext rfl (Prod.mk.inj ran).2, fun _ ran => by cases ran⟩
  | cons event rest ih =>
    obtain ⟨fine, panicked⟩ := event.exec_of_call os fuel s
    rw [List.map_cons, runCalls, runNode]
    cases made : event.call.exec os fuel s with
    | mk result s' =>
      cases result with
      | ok reply =>
        rw [fine reply s' made]
        dsimp only
        obtain ⟨later, stuck⟩ := ih s'
        cases made' : runCalls os fuel (rest.map NodeEvent.call) s' with
        | mk result' s'' =>
          cases result' with
          | ok more =>
            rw [later more s'' made']
            exact ⟨fun _ _ ran => Prod.ext rfl (Prod.mk.inj ran).2, fun _ ran => by cases ran⟩
          | error e =>
            refine ⟨fun _ _ ran => (by cases ran), fun t ran => ?_⟩
            obtain ⟨same, rfl⟩ := Prod.mk.inj ran
            obtain rfl := Except.error.inj same
            exact stuck s'' made'
      | error e =>
        refine ⟨fun _ _ ran => (by cases ran), fun t ran => ?_⟩
        obtain ⟨same, rfl⟩ := Prod.mk.inj ran
        obtain rfl := Except.error.inj same
        rw [panicked s' made]

end Applying

section Replaying

theorem call_overwrites : Overwrites Call.onMap := by
  intro call id
  cases call with
  | insert header body =>
    by_cases fits : Fits body
    · simp only [Call.onMap, if_pos fits]
      by_cases same : id = header.id
      · exact .inl ⟨_, fun map => by rw [same, Function.update_self]⟩
      · exact .inr fun map => Function.update_of_ne same _ _
    · exact .inr fun map => by rw [Call.onMap, if_neg fits]
  | delete id' =>
    by_cases same : id = id'
    · exact .inl ⟨none, fun map => by rw [same, Call.onMap, Function.update_self]⟩
    · exact .inr fun map => Function.update_of_ne same _ _
  | reopen => exact .inr fun map => rfl

theorem contents_append (calls calls' : List Call) (raw : Entities) :
    contents (calls ++ calls') raw = contents calls' (contents calls raw) := List.foldl_append

theorem contents_restarts (n : Nat) (raw : Entities) :
    contents ((List.replicate n NodeEvent.restart).map NodeEvent.call) raw = raw := by
  induction n with
  | zero => rfl
  | succ n ih => exact ih

/-- A node that applied `front`, was restarted any number of times, and is given the whole log again. -/
def replayed (front : List LogRecord) (restarts : Nat) (log : List LogRecord) : List NodeEvent :=
  front.map .apply ++ List.replicate restarts .restart ++ log.map .apply

-- What the node did before a replay from the beginning, and its restarts, leave no trace.
theorem contents_replayed {front log : List LogRecord} (part : front <+: log) (restarts : Nat) (raw : Entities) :
    contents ((replayed front restarts log).map NodeEvent.call) raw =
      contents ((log.map NodeEvent.apply).map NodeEvent.call) raw := by
  have inner : (front.map NodeEvent.apply).map NodeEvent.call <+: (log.map NodeEvent.apply).map NodeEvent.call :=
    (part.map _).map _
  rw [replayed, List.map_append, List.map_append, contents_append, contents_append, contents_restarts]
  exact call_overwrites.replay inner raw

theorem runNode_settled (small : os.size ≤ 16384) (settled : Settled os s slots ords ids (shown raw) depth)
    {events : List NodeEvent} (enough : depth + events.length ≤ fuel)
    (few : Within os fuel 1000 (events.map NodeEvent.call) s) (named : Named (events.map NodeEvent.call)) :
    Ended (runNode os fuel events s) fun s' => ∃ slots' ords' ids' depth', depth' ≤ fuel ∧
      Settled os s' slots' ords' ids' (shown (contents (events.map NodeEvent.call) raw)) depth' := by
  have enough' : depth + (events.map NodeEvent.call).length ≤ fuel := by rwa [List.length_map]
  have level := leveled_of_within small settled.synced.sound enough' few
  have ran := runCalls_settled settled enough' level named
  obtain ⟨fine, panicked⟩ := runNode_of_calls os fuel events s
  cases made : runCalls os fuel (events.map NodeEvent.call) s with
  | mk result s' =>
    rw [made] at ran
    cases result with
    | ok given =>
      rw [fine given s' made]
      exact ran.2
    | error e =>
      obtain ⟨rfl, exhausted⟩ := ran
      rw [panicked s' made]
      exact ⟨rfl, exhausted⟩

theorem same_contents (settled : Settled os a slots ords ids map depth) (enough : depth ≤ fuel)
    (settled' : Settled os b slots' ords' ids' map depth') (enough' : depth' ≤ fuel) : SameContents fuel a b := by
  obtain ⟨synced, -⟩ := settled
  obtain ⟨synced', -⟩ := settled'
  constructor
  · exact fun id => ⟨map id, synced.sound.get enough id, synced'.sound.get enough' id⟩
  · obtain ⟨entities, scanned, -⟩ := synced.sound.scan enough
    exact ⟨entities, scanned, (synced.sound.scan_eq enough synced'.sound enough').symm.trans scanned⟩
  · intro kind
    obtain ⟨list, made, names⟩ := synced.queryByKind enough kind
    obtain ⟨list', made', names'⟩ := synced'.queryByKind enough' kind
    exact ⟨list, list', made, made', fun id => (names.2 id).trans (names'.2 id).symm⟩
  · intro typeId
    obtain ⟨list, made, names⟩ := synced.queryBySchemaRef enough typeId
    obtain ⟨list', made', names'⟩ := synced'.queryBySchemaRef enough' typeId
    exact ⟨list, list', made, made', fun id => (names.2 id).trans (names'.2 id).symm⟩

theorem named_of_fit {events : List NodeEvent} (fit : ∀ record, .apply record ∈ events → record.TextsFit) :
    Named (events.map NodeEvent.call) := by
  intro header body mem _ _
  obtain ⟨event, inside, same⟩ := List.mem_map.mp mem
  cases event with
  | restart => cases same
  | apply record =>
    cases record with
    | delete id => cases same
    | insert header' body' =>
      obtain ⟨rfl, rfl⟩ := Call.insert.inj same
      exact (fit _ inside).name

theorem replay_harmless (small : os.size ≤ 16384) (created : Store.create os = .ok s) {front log : List LogRecord}
    (part : front <+: log) (restarts : Nat) (fit : ∀ record ∈ log, record.TextsFit)
    (enough : front.length + restarts + log.length ≤ fuel)
    (few : Within os fuel 1000 ((log.map NodeEvent.apply).map NodeEvent.call) s)
    (few' : Within os fuel 1000 ((replayed front restarts log).map NodeEvent.call) s) :
    Ended (runNode os fuel (log.map .apply) s) fun once =>
      Ended (runNode os fuel (replayed front restarts log) s) fun again => SameContents fuel again once := by
  have start := create_settled created
  have named : Named ((log.map NodeEvent.apply).map NodeEvent.call) := by
    refine named_of_fit fun record mem => fit record ?_
    simpa using mem
  have named' : Named ((replayed front restarts log).map NodeEvent.call) := by
    refine named_of_fit fun record mem => fit record ?_
    have either : record ∈ front ∨ record ∈ log := by simpa [replayed] using mem
    exact either.elim (fun inside => part.subset inside) id
  have enough₁ : 0 + (log.map NodeEvent.apply).length ≤ fuel := by
    simp
    omega
  have enough₂ : 0 + (replayed front restarts log).length ≤ fuel := by
    simp [replayed]
    omega
  have ran := runNode_settled small start enough₁ few named
  have ran' := runNode_settled small start enough₂ few' named'
  rw [contents_replayed part] at ran'
  refine ran.imp fun once ⟨slots, ords, ids, depth, shallow, settled⟩ => ?_
  refine ran'.imp fun again ⟨slots', ords', ids', depth', shallow', settled'⟩ => ?_
  exact same_contents settled' shallow' settled shallow

def firstEntity : LogRecord := .insert (.new (.fromBytes []) .nil "a" .data .nil) [1]

set_option maxRecDepth 4000 in
theorem replay_harmless_small :
    ∃ s, Store.create fourKiB = .ok s ∧
      Ended (runNode fourKiB 4 [.apply firstEntity, .apply (.delete .nil)] s) fun once =>
        Ended (runNode fourKiB 4 (replayed [firstEntity] 1 [firstEntity, .delete .nil]) s) fun again =>
          SameContents 4 again once := by
  have small : fourKiB.size ≤ 16384 := show 4096 ≤ 16384 by omega
  obtain ⟨s, created, start, none, -⟩ := create_sound fourKiB
  have start : Sound fourKiB s (fun _ => Option.none) (fun _ => Option.none) (fun _ => Option.none)
      (shown fun _ => Option.none) 0 := start
  have fit : ∀ record ∈ [firstEntity, .delete .nil], record.TextsFit := by
    intro record mem
    obtain rfl | rfl : record = firstEntity ∨ record = .delete .nil := by simpa using mem
    · exact ⟨by decide, by decide⟩
    · trivial
  have part : [firstEntity] <+: [firstEntity, .delete .nil] := ⟨[.delete .nil], rfl⟩
  refine ⟨s, created, replay_harmless small created part 1 fit (by simp) ?_ ?_⟩
  · exact within_of_short small start (by simp) (by simp [none])
  · exact within_of_short small start (by simp [replayed]) (by simp [replayed, none])

end Replaying

end Gems.Cluster
