import Gems.Cluster.Primary

set_option autoImplicit false

namespace Gems.Cluster

open Lib Prog Catalog Engine Index Storage

variable {os : PageSize} {p p' : PrimaryStore} {slots slots' : Slots} {ords ords' : Ordinals} {ids ids' : Reverse}
  {map map' raw : Entities} {depth fuel n : Nat} {limit : Limit} {command record : LogRecord} {records : List LogRecord}
  {reply : Reply} {header : EntityHeader} {body : List UInt8} {id : Tuid} {e : Fault}

section Invariant

-- What the records make of an empty store.
abbrev told (records : List LogRecord) : Entities := shown (contents (records.map LogRecord.call) fun _ => none)

/-- The store is at rest and holds what the records of the log make of an empty one. -/
structure InStep (os : PageSize) (p : PrimaryStore) (slots : Slots) (ords : Ordinals) (ids : Reverse)
    (records : List LogRecord) (depth : Nat) : Prop where
  sound : Sound os p.store slots ords ids (told records) depth
  log : p.log = records.flatMap LogRecord.encode
  loggable : ∀ record ∈ records, Loggable record

theorem told_append (records more : List LogRecord) : told (records ++ more) =
    shown (contents (more.map LogRecord.call) (contents (records.map LogRecord.call) fun _ => none)) := by
  rw [told, List.map_append, contents_append]

theorem logged_of_moved {s s' : Store} {raw : Entities}
    (moved : Moved os s slots ords ids (shown raw) depth command.call reply s' slots' ords' ids' map') :
    ∃ more, command.logged reply = more ∧ more.length ≤ 1 ∧ (∀ record ∈ more, Loggable record) ∧
      map' = shown (contents (more.map LogRecord.call) raw) := by
  cases command with
  | insert header body =>
    cases moved with
    | inserted inserted =>
      have fits : Fits body := inserted.small
      refine ⟨_, rfl, le_rfl, ?_, ?_⟩
      · intro record mem
        obtain rfl := List.mem_singleton.mp mem
        exact loggable_stored fits
      · change _ = shown (Call.onMap (.insert (Engine.stored header body).1 body) raw)
        rw [Call.onMap, if_pos fits, shown_update]
        simp only [Option.map_some, stored_stored]
        rfl
    | refused large => exact ⟨[], rfl, Nat.zero_le 1, fun _ none => absurd none List.not_mem_nil, rfl⟩
  | delete id =>
    cases moved with
    | missing missing => exact ⟨[], rfl, Nat.zero_le 1, fun _ none => absurd none List.not_mem_nil, rfl⟩
    | deleted deleted =>
      refine ⟨_, rfl, le_rfl, ?_, (shown_update raw id none).symm⟩
      intro record mem
      obtain rfl := List.mem_singleton.mp mem
      trivial

theorem Done.inStep (inStep : InStep os p slots ords ids records depth)
    (done : Done os p slots ords ids (told records) depth command p') :
    ∃ slots' ords' ids' more, more.length ≤ 1 ∧ InStep os p' slots' ords' ids' (records ++ more) (depth + 1) := by
  obtain ⟨reply, slots', ords', ids', map', moved, log⟩ := done
  obtain ⟨more, rfl, few, loggable, rfl⟩ := logged_of_moved moved
  refine ⟨slots', ords', ids', _, few, ?_, ?_, ?_⟩
  · rw [told_append]
    exact moved.sound inStep.sound
  · rw [log, inStep.log, List.flatMap_append]
  · exact List.forall_mem_append.mpr ⟨inStep.loggable, loggable⟩

end Invariant

section Conditions

-- The change that a call makes in the store shows before the call is cut short.
def LogRecord.Shows (os : PageSize) (fuel : Nat) (limit : Limit) : LogRecord → Store → Prop
  | .insert header body, s => Store.Published os fuel limit header body s
  | .delete id, s => s.get fuel id ≠ .ok none ∧ Store.Erased os fuel limit id s

-- Its record is in the log as a whole.
def Recorded (os : PageSize) (fuel : Nat) (limit : Limit) : LogRecord → PrimaryStore → Prop
  | .insert header body, p =>
    ∃ done, ((PrimaryStore.insert ReplicationLog.written os fuel header body).runWith limit p).1 = .ok done
  | .delete id, p => ∃ existed, ((PrimaryStore.delete ReplicationLog.written os fuel id).runWith limit p).1 =
      .ok existed

namespace PrimaryEvent

-- A call that changes the store does not end before the last byte of its record.
def Logged (os : PageSize) (fuel : Nat) : PrimaryEvent → PrimaryStore → Prop
  | .unlogged (.insert header body) bytes, _ =>
    Fits body → (LogRecord.insert (Engine.stored header body).1 body).encode.length ≤ bytes
  | .unlogged (.delete id) bytes, p => p.store.get fuel id ≠ .ok none → (LogRecord.delete id).encode.length ≤ bytes
  | .failing command requests, p =>
    command.Shows os fuel (.refuse requests) p.store → Recorded os fuel (.refuse requests) command p
  | .stopped command writes, p =>
    command.Shows os fuel (.stop writes) p.store → Recorded os fuel (.stop writes) command p
  | _, _ => True

def Leveled (os : PageSize) : PrimaryEvent → PrimaryStore → Prop
  | .call command, p => command.call.Leveled p.store
  | .unlogged command _, p => command.call.Leveled p.store
  | .failing command requests, p => (Event.failing command.call requests).Leveled os p.store
  | .stopped command writes, p => (Event.stopped command.call writes).Leveled os p.store
  | .reopen, p => Level p.store.data

def Enlisted : PrimaryEvent → PrimaryStore → Prop
  | .failing command requests, p => (Event.failing command.call requests).Enlisted p.store
  | _, _ => True

def Untorn (os : PageSize) (fuel : Nat) : PrimaryEvent → PrimaryStore → Prop
  | .failing command requests, p => command.call.Untorn os fuel (.refuse requests) p.store
  | .stopped command writes, p => command.call.Untorn os fuel (.stop writes) p.store
  | _, _ => True

structure Faithful (os : PageSize) (fuel : Nat) (event : PrimaryEvent) (p : PrimaryStore) : Prop where
  leveled : event.Leveled os p
  enlisted : event.Enlisted p
  untorn : event.Untorn os fuel p
  logged : event.Logged os fuel p

end PrimaryEvent

namespace PrimaryStore

/-- Unless the page ids, the commit numbers or the ordinals of the store ran out. -/
def Ended (ran : Except Fault Unit × PrimaryStore) (good : PrimaryStore → Prop) : Prop :=
  match ran with
  | (.ok (), p) => good p
  | (.error e, p) => e = .panicked ∧ Exhausted p.store

theorem Ended.imp {ran : Except Fault Unit × PrimaryStore} {good good' : PrimaryStore → Prop} (ended : Ended ran good)
    (imp : ∀ p, good p → good' p) : Ended ran good' := by
  obtain ⟨result, p⟩ := ran
  cases result with
  | ok done => exact imp p ended
  | error e => exact ended

-- In step again, with one more record at most.
def Further (os : PageSize) (records : List LogRecord) (depth : Nat) (p : PrimaryStore) : Prop :=
  ∃ slots ords ids more, more.length ≤ 1 ∧ InStep os p slots ords ids (records ++ more) depth

theorem Further.idle (inStep : InStep os p slots ords ids records depth) : Further os records depth p :=
  ⟨slots, ords, ids, [], Nat.zero_le 1, by rwa [List.append_nil]⟩

theorem survived_discard {A : Type} (m : Gems.Prog PrimaryStore A) (p : PrimaryStore) :
    survived (Prog.run (do
      let _ ← m
      pure ()) p) = survived (m.run p) := by
  rw [run_discard]
  cases m.run p with
  | mk result p' =>
    cases result with
    | ok a => rfl
    | error e => cases e <;> rfl

end PrimaryStore

end Conditions

section Steps

theorem survived_done {A : Type} {m : Gems.Prog PrimaryStore A} {late : Fault → LogRecord → LogFile → LogFile → Prop}
    (spec : SpecAt .none m p
      (fun _ p' => Done os p slots ords ids (told records) depth command p')
      (fun e p' =>
        StoreHalt os p slots ords ids (told records) depth command e p' ∨
        Late os p slots ords ids (told records) depth late command e p'))
    (whole : ∀ e p', ¬ e.Outside →
      Late os p slots ords ids (told records) depth late command e p' →
      (∃ error, e = .raised error) ∧
        Done os p slots ords ids (told records) depth command p') :
    PrimaryStore.Ended (PrimaryStore.survived (m.run p)) fun p' =>
      p' = p ∨ Done os p slots ords ids (told records) depth command p' := by
  have ran := spec.run
  cases made : m.run p with
  | mk result p' =>
    rw [made] at ran
    cases result with
    | ok a => exact .inr ran
    | error e =>
      obtain ⟨halt | late, going⟩ := ran
      · have own : ¬ e.Outside := not_or.mpr going
        cases command with
        | delete id =>
          obtain ⟨rfl, exhausted⟩ := halt.2.own own
          exact ⟨rfl, exhausted⟩
        | insert header body =>
          obtain ⟨log, halt⟩ := halt
          rcases halt.own own with ⟨-, ⟨error, rfl⟩, same⟩ | ⟨rfl, exhausted⟩
          · obtain rfl : p' = p := by
              cases p'
              cases p
              cases log
              cases same
              rfl
            exact .inl rfl
          · exact ⟨rfl, exhausted⟩
      · obtain ⟨⟨error, rfl⟩, done⟩ := whole e p' (not_or.mpr going) late
        exact .inr done

theorem further_of_done (inStep : InStep os p slots ords ids records depth)
    (ended : p' = p ∨ Done os p slots ords ids (told records) depth command p') :
    PrimaryStore.Further os records (depth + 1) p' := by
  rcases ended with rfl | done
  · exact .idle { inStep with sound := inStep.sound.deeper (Nat.le_succ depth) }
  · exact done.inStep inStep

theorem call_done (inStep : InStep os p slots ords ids records depth) (enough : depth < fuel)
    (level : command.call.Leveled p.store) :
    PrimaryStore.Ended (PrimaryStore.exec os fuel (.call command) p) fun p' =>
      p' = p ∨ Done os p slots ords ids (told records) depth command p' := by
  have appends (record : LogRecord) (log : LogFile) : Spec (ReplicationLog.append record) log
      (fun _ log' => log' = log ++ record.encode) (fun e _ => e = .stopped) := ReplicationLog.append_spec
  have whole (e : Fault) (p' : PrimaryStore) (own : ¬ e.Outside)
      (late : Late os p slots ords ids (told records) depth
        (fun e _ _ _ => e = .stopped) command e p') :
      (∃ error, e = .raised error) ∧
        Done os p slots ords ids (told records) depth command p' := by
    obtain ⟨_, _, _, _, _, _, -, -, stop⟩ := late
    exact absurd (.inl stop) own
  cases command with
  | insert header body =>
    exact survived_done (insert_spec inStep.sound enough level (fun _ => Limit.none_ne_refuse 1) appends) whole
  | delete id =>
    rw [PrimaryStore.exec, PrimaryStore.call, PrimaryStore.survived_discard]
    exact survived_done (delete_spec inStep.sound enough id appends .none) whole

theorem call_inStep (inStep : InStep os p slots ords ids records depth) (enough : depth < fuel)
    (level : command.call.Leveled p.store) :
    PrimaryStore.Ended (PrimaryStore.exec os fuel (.call command) p) (PrimaryStore.Further os records (depth + 1)) :=
  (call_done inStep enough level).imp fun _ => further_of_done inStep

theorem unlogged_inStep {bytes : Nat} (inStep : InStep os p slots ords ids records depth) (enough : depth < fuel)
    (level : command.call.Leveled p.store) (logged : (PrimaryEvent.unlogged command bytes).Logged os fuel p) :
    PrimaryStore.Ended (PrimaryStore.exec os fuel (.unlogged command bytes) p)
      (PrimaryStore.Further os records (depth + 1)) := by
  have appends (record : LogRecord) (log : LogFile) : Spec (ReplicationLog.failing bytes record) log
      (fun _ log' => log' = log ++ record.encode)
      (fun e log' => e = .stopped ∨ e = .raised .io ∧ log' = log ++ record.encode.take bytes) :=
    spec_weaken ReplicationLog.failing_spec (fun _ _ no => no.elim) fun _ _ ended => ended
  have whole (e : Fault) (p' : PrimaryStore) (own : ¬ e.Outside)
      (late : Late os p slots ords ids (told records) depth
        (fun e record log log' => e = .stopped ∨ e = .raised .io ∧ log' = log ++ record.encode.take bytes)
          command e p') :
      (∃ error, e = .raised error) ∧
        Done os p slots ords ids (told records) depth command p' := by
    obtain ⟨reply, slots', ords', ids', map', record, moved, here, stop | ⟨rfl, log⟩⟩ := late
    · exact absurd (.inl stop) own
    refine ⟨⟨_, rfl⟩, reply, slots', ords', ids', map', moved, ?_⟩
    have written : record.encode.length ≤ bytes := by
      generalize p'.store = s' at moved
      cases command with
      | insert header body =>
        cases moved with
        | inserted inserted =>
          obtain rfl := List.singleton_inj.mp here
          exact logged inserted.small
        | refused large => cases here
      | delete id =>
        cases moved with
        | missing missing => cases here
        | deleted deleted =>
          obtain rfl := List.singleton_inj.mp here
          refine logged ?_
          rw [inStep.sound.get enough.le, ne_eq, Except.ok.injEq]
          exact (inStep.sound.present_iff id).mp deleted.present
    rw [log, here, List.take_of_length_le written]
    simp
  have ended : PrimaryStore.Ended (PrimaryStore.exec os fuel (.unlogged command bytes) p) fun p' =>
      p' = p ∨ Done os p slots ords ids (told records) depth command p' := by
    cases command with
    | insert header body =>
      exact survived_done (insert_spec inStep.sound enough level (fun _ => Limit.none_ne_refuse 1) appends) whole
    | delete id =>
      rw [PrimaryStore.exec, PrimaryStore.call, PrimaryStore.survived_discard]
      exact survived_done (delete_spec inStep.sound enough id appends .none) whole
  exact ended.imp fun _ => further_of_done inStep

-- The next open finds the files that a stop left.
theorem reopened_inStep {s : Store} {log : LogFile}
    (disk : OnDisk os s slots ords ids (told records) depth n
      (slotSet slots)) (level : LevelAt os n) (enough : depth ≤ fuel) (same : log = records.flatMap LogRecord.encode)
    (loggable : ∀ record ∈ records, Loggable record) :
    PrimaryStore.Ended (PrimaryStore.reopened os fuel ⟨s, log⟩) fun p' =>
      InStep os p' slots ords ids records depth := by
  obtain ⟨s', opened, here⟩ := disk.openDir (Set.Subset.refl _) level enough
  rw [PrimaryStore.reopened, PrimaryStore.reopen, opened]
  exact ⟨here.sound, same, loggable⟩

theorem done_reopened {writes : Nat} (inStep : InStep os p slots ords ids records depth) (enough : depth < fuel)
    (level : (Event.stopped command.call writes).Leveled os p.store)
    (done : Done os p slots ords ids (told records) depth command p') :
    PrimaryStore.Ended (PrimaryStore.reopened os fuel p') (PrimaryStore.Further os records (depth + 1)) := by
  obtain ⟨slots', ords', ids', more, few, inStep'⟩ := done.inStep inStep
  obtain ⟨reply, _, _, _, _, moved, -⟩ := done
  have ran := reopened_inStep inStep'.sound.onDisk (moved.levelAt level) enough inStep'.log inStep'.loggable
  exact ran.imp fun p'' again => ⟨slots', ords', ids', more, few, again⟩

/-- A call that is cut short is done, or it ended in the store before its change showed. -/
inductive CallCut (os : PageSize) (fuel : Nat) (limit : Limit) (p : PrimaryStore) (slots : Slots) (ords : Ordinals)
    (ids : Reverse) (map : Entities) (depth : Nat) (command : LogRecord) :
    Except Fault Unit × PrimaryStore → Prop where
  | done {p' : PrimaryStore} (done : Done os p slots ords ids map depth command p') :
    CallCut os fuel limit p slots ords ids map depth command (.ok (), p')
  | synced {p' : PrimaryStore} (allows : limit.Allows (.stopped : Fault))
    (done : Done os p slots ords ids map depth command p') :
    CallCut os fuel limit p slots ords ids map depth command (.error .stopped, p')
  | kept {e : Fault} {s' : Store} (allows : limit.Allows e)
    (ended : command.call.cutShort os fuel limit p.store = leftBy (A := Unit) (.error e, s'))
    (unseen : ¬ command.Shows os fuel limit p.store) :
    CallCut os fuel limit p slots ords ids map depth command (.error e, { p with store := s' })

theorem synced_spec (done : Done os p slots ords ids map depth command p') :
    Spec (PrimaryStore.onLog (Prog.write fun log => log)) p'
      (fun _ p'' => Done os p slots ords ids map depth command p'')
      (fun e p'' => e = .stopped ∧ Done os p slots ords ids map depth command p'') :=
  spec_focus (spec_write done ⟨rfl, done⟩)

theorem insert_callCut (sound : Sound os p.store slots ords ids map depth) (enough : depth < fuel)
    (level : Call.Leveled p.store (.insert header body))
    (listed : Grows p.store.data (encodedLen + body.length) → limit ≠ .refuse 1)
    (untorn : (Call.insert header body).Untorn os fuel limit p.store)
    (logged : (LogRecord.insert header body).Shows os fuel limit p.store →
      Recorded os fuel limit (.insert header body) p) :
    CallCut os fuel limit p slots ords ids map depth (.insert header body)
      ((PrimaryStore.call ReplicationLog.append os fuel (.insert header body)).runWith limit p) := by
  rw [PrimaryStore.call]
  have inserted := insert_cut sound enough.le level limit listed (sound.whole enough.le untorn)
  cases made : (Store.insert os fuel header body).runWith limit p.store with
  | mk result s' =>
    rw [made] at inserted
    cases result with
    | error e =>
      have halted (append : LogRecord → Gems.Prog LogFile Unit) :
          (PrimaryStore.insert append os fuel header body).runWith limit p = (.error e, { p with store := s' }) :=
        runWith_bind_error (focus_runWith_error made)
      rw [halted]
      refine .kept inserted.2 ?_ fun shows => ?_
      · change leftBy ((Store.insert os fuel header body).runWith limit p.store) = _
        rw [made]
      · obtain ⟨done, ok⟩ := logged shows
        rw [halted] at ok
        cases ok
    | ok done =>
      obtain ⟨done, ok⟩ := logged inserted.1
      have writes (record : LogRecord) (log : LogFile) : Spec (ReplicationLog.written record) log
          (fun _ log' => log' = log ++ record.encode) (fun e _ => e = .stopped) := ReplicationLog.written_spec
      have recorded : SpecAt limit (PrimaryStore.insert ReplicationLog.written os fuel header body) p _ _ :=
        insert_spec sound enough level listed writes
      have first := specAt_weaken recorded (fun _ _ done => synced_spec done) fun _ _ _ ended => ended
      have ran := first.runWith_second ok
      rw [← insert_append] at ran
      cases made' : (PrimaryStore.insert ReplicationLog.append os fuel header body).runWith limit p with
      | mk result' p' =>
        rw [made'] at ran
        cases result' with
        | ok done' => exact .done ran
        | error e =>
          obtain ⟨⟨rfl, done'⟩, allows⟩ := ran
          exact .synced allows done'

theorem delete_callCut (sound : Sound os p.store slots ords ids map depth) (enough : depth < fuel)
    (logged : (LogRecord.delete id).Shows os fuel limit p.store → Recorded os fuel limit (.delete id) p) :
    CallCut os fuel limit p slots ords ids map depth (.delete id)
      ((PrimaryStore.call ReplicationLog.append os fuel (.delete id)).runWith limit p) := by
  rw [PrimaryStore.call, runWith_discard]
  have deleted := delete_cut sound enough.le id limit
  cases made : (Store.delete os fuel id).runWith limit p.store with
  | mk result s' =>
    rw [made] at deleted
    have onStore : (PrimaryStore.onStore (Store.delete os fuel id)).runWith limit p =
        (result, { p with store := s' }) := by
      rw [PrimaryStore.onStore, focus_runWith, made]
    cases result with
    | error e =>
      have halted (append : LogRecord → Gems.Prog LogFile Unit) :
          (PrimaryStore.delete append os fuel id).runWith limit p = (.error e, { p with store := s' }) :=
        runWith_bind_error onStore
      rw [halted]
      refine .kept deleted.2 ?_ fun shows => ?_
      · change leftBy ((Store.delete os fuel id).runWith limit p.store) = _
        rw [made]
        cases e <;> rfl
      · obtain ⟨existed, ok⟩ := logged shows
        rw [halted] at ok
        cases ok
    | ok existed =>
      rcases deleted with ⟨rfl, missing⟩ | ⟨rfl, erased, ord, deleted⟩
      · obtain ⟨limit', ran⟩ := runWith_bind_ok onStore
        have same : (PrimaryStore.delete ReplicationLog.append os fuel id).runWith limit p =
            (.ok false, { p with store := s' }) := ran
        rw [same]
        exact .done ⟨.deleted false, _, _, _, _, .missing missing, by simp [LogRecord.logged]⟩
      have present : p.store.get fuel id ≠ .ok none := by
        rw [sound.get enough.le, ne_eq, Except.ok.injEq]
        exact (sound.present_iff id).mp deleted.present
      obtain ⟨existed, ok⟩ := logged ⟨present, erased⟩
      have second (existed : Bool) (p' : PrimaryStore) (done : Done os p slots ords ids map depth (.delete id) p') :
          Spec ((if existed then PrimaryStore.onLog (Prog.write fun log => log) else pure ()) >>= fun _ =>
              pure existed) p'
            (fun _ p'' => Done os p slots ords ids map depth (.delete id) p'')
            (fun e p'' => e = .stopped ∧ Done os p slots ords ids map depth (.delete id) p'') := by
        cases existed with
        | true => exact spec_bind (synced_spec done) fun _ _ done => spec_pure done
        | false => exact spec_pure done
      have writes (record : LogRecord) (log : LogFile) : Spec (ReplicationLog.written record) log
          (fun _ log' => log' = log ++ record.encode) (fun e _ => e = .stopped) := ReplicationLog.written_spec
      have first := spec_weaken (delete_spec sound enough id writes) second fun _ _ ended => ended
      have ran := first.runWith_second ok
      rw [← delete_append] at ran
      cases made' : (PrimaryStore.delete ReplicationLog.append os fuel id).runWith limit p with
      | mk result' p' =>
        rw [made'] at ran
        cases result' with
        | ok done' => exact .done ran
        | error e =>
          obtain ⟨⟨rfl, done'⟩, allows⟩ := ran
          exact .synced allows done'

theorem callCut (sound : Sound os p.store slots ords ids map depth) (enough : depth < fuel)
    (level : command.call.Leveled p.store) (limit : Limit)
    (listed : ∀ header body, command = .insert header body → Grows p.store.data (encodedLen + body.length) →
      limit ≠ .refuse 1)
    (untorn : command.call.Untorn os fuel limit p.store)
    (logged : command.Shows os fuel limit p.store → Recorded os fuel limit command p) :
    CallCut os fuel limit p slots ords ids map depth command
      ((PrimaryStore.call ReplicationLog.append os fuel command).runWith limit p) := by
  cases command with
  | insert header body => exact insert_callCut sound enough level (listed header body rfl) untorn logged
  | delete id => exact delete_callCut sound enough logged

theorem Halved.unseen (sound : Sound os p.store slots ords ids map depth) (enough : depth ≤ fuel)
    (halved : Halved os fuel limit p.store slots ords ids map command.call slots' ords' ids' map')
    (unseen : ¬ command.Shows os fuel limit p.store) : map' = map := by
  cases command with
  | insert header body =>
    cases halved with
    | idle => rfl
    | unpublished => rfl
    | published fits here => exact absurd here unseen
  | delete id =>
    cases halved with
    | idle => rfl
    | retiring present erased =>
      refine absurd ⟨?_, erased⟩ unseen
      rw [sound.get enough, ne_eq, Except.ok.injEq]
      exact (sound.present_iff id).mp present

theorem Failed.unseen {s' : Store} {depth' : Nat} (sound : Sound os p.store slots ords ids map depth)
    (enough : depth ≤ fuel)
    (failed : Failed os fuel limit p.store slots ords ids map depth' command.call s' slots' ords' ids' map')
    (unseen : ¬ command.Shows os fuel limit p.store) : map' = map := by
  cases command with
  | insert header body =>
    cases failed with
    | idle => rfl
    | unpublished => rfl
    | inserted here => exact absurd here unseen
  | delete id =>
    have gone (present : slots id ≠ none) (erased : Store.Erased os fuel limit id p.store) : False := by
      refine unseen ⟨?_, erased⟩
      rw [sound.get enough, ne_eq, Except.ok.injEq]
      exact (sound.present_iff id).mp present
    cases failed with
    | idle => rfl
    | retiring present erased => exact (gone present erased).elim
    | deleted erased deleted => exact (gone deleted.present erased).elim

theorem stopped_inStep {writes : Nat} (inStep : InStep os p slots ords ids records depth) (enough : depth < fuel)
    (faithful : (PrimaryEvent.stopped command writes).Faithful os fuel p) :
    PrimaryStore.Ended (PrimaryStore.exec os fuel (.stopped command writes) p)
      (PrimaryStore.Further os records (depth + 1)) := by
  obtain ⟨level, -, untorn, logged⟩ := faithful
  have mapped : Level p.store.data := by
    rw [Level, inStep.sound.data.held.mapped]
    cases command with
    | insert header body => exact level.1
    | delete id => exact level
  have cut := callCut inStep.sound enough (Call.leveled mapped command.call) (.stop writes)
    (fun _ _ _ _ => Limit.stop_ne_refuse writes 1) untorn logged
  have stopped := stopped_spec inStep.sound enough.le command.call writes level untorn
  rw [PrimaryStore.exec]
  generalize (PrimaryStore.call ReplicationLog.append os fuel command).runWith (.stop writes) p = ran at cut
  cases cut with
  | done done => exact done_reopened inStep enough level done
  | synced allows done => exact done_reopened inStep enough level done
  | @kept e s' allows ended unseen =>
    rw [ended] at stopped
    have again (ran : ∃ slots' ords' ids' map' n, Stopped os fuel (.stop writes) p.store slots ords ids
          (told records) (depth + 1) command.call s' slots' ords' ids' map' n) :
        PrimaryStore.Ended (PrimaryStore.reopened os fuel { p with store := s' })
          (PrimaryStore.Further os records (depth + 1)) := by
      obtain ⟨slots', ords', ids', map', n, halved, -, level', disk⟩ := ran
      obtain rfl := Halved.unseen inStep.sound enough.le halved unseen
      exact (reopened_inStep disk level' enough inStep.log inStep.loggable).imp fun _ => .idle
    cases e with
    | stopped => exact again stopped
    | refused => exact again stopped
    | raised error => exact again stopped
    | panicked => exact stopped
    | unfinished => exact stopped

theorem failing_inStep {requests : Nat} (inStep : InStep os p slots ords ids records depth) (enough : depth < fuel)
    (faithful : (PrimaryEvent.failing command requests).Faithful os fuel p) :
    PrimaryStore.Ended (PrimaryStore.exec os fuel (.failing command requests) p)
      (PrimaryStore.Further os records (depth + 1)) := by
  obtain ⟨level, enlisted, untorn, logged⟩ := faithful
  have flat : command.call.Leveled p.store := by
    cases command with
    | insert header body => exact level
    | delete id => exact level
  have listed (header : EntityHeader) (body : List UInt8) (insert : command = .insert header body)
      (grows : Grows p.store.data (encodedLen + body.length)) : Limit.refuse requests ≠ .refuse 1 := by
    subst insert
    exact fun one => enlisted grows (Limit.refuse.inj one)
  have cut := callCut inStep.sound enough flat (.refuse requests) listed untorn logged
  have failed := failing_spec inStep.sound enough.le command.call requests level enlisted untorn
  rw [PrimaryStore.exec]
  generalize (PrimaryStore.call ReplicationLog.append os fuel command).runWith (.refuse requests) p = ran at cut
  cases cut with
  | done done => exact done.inStep inStep
  | synced allows done => exact absurd rfl allows.1
  | @kept e s' allows ended unseen =>
    rw [ended] at failed
    have again (ran : ∃ slots' ords' ids' map', Failed os fuel (.refuse requests) p.store slots ords ids
          (told records) (depth + 1) command.call s' slots' ords' ids' map') :
        PrimaryStore.Further os records (depth + 1) { p with store := s' } := by
      obtain ⟨slots', ords', ids', map', failed⟩ := ran
      obtain rfl := Failed.unseen inStep.sound enough.le failed unseen
      exact .idle ⟨failed.sound, inStep.log, inStep.loggable⟩
    cases e with
    | stopped => exact absurd rfl allows.1
    | refused => exact again failed
    | raised error => exact again failed
    | panicked => exact failed
    | unfinished => exact failed

theorem exec_inStep (inStep : InStep os p slots ords ids records depth) (enough : depth < fuel) {event : PrimaryEvent}
    (faithful : event.Faithful os fuel p) :
    PrimaryStore.Ended (PrimaryStore.exec os fuel event p) (PrimaryStore.Further os records (depth + 1)) := by
  cases event with
  | call command => exact call_inStep inStep enough faithful.leveled
  | unlogged command bytes => exact unlogged_inStep inStep enough faithful.leveled faithful.logged
  | failing command requests => exact failing_inStep inStep enough faithful
  | stopped command writes => exact stopped_inStep inStep enough faithful
  | reopen =>
    have flat : LevelAt os p.store.data.extents.length := by
      rw [LevelAt, ← inStep.sound.data.held.mapped]
      exact faithful.leveled
    have again := reopened_inStep inStep.sound.onDisk flat enough.le inStep.log inStep.loggable
    exact again.imp fun _ here => .idle { here with sound := here.sound.deeper (Nat.le_succ depth) }

end Steps

section Runs

-- Every event meets the condition in the state before it.
def FaithfulRun (os : PageSize) (fuel : Nat) : List PrimaryEvent → PrimaryStore → Prop
  | [], _ => True
  | event :: rest, p => event.Faithful os fuel p ∧
    ∀ p', PrimaryStore.exec os fuel event p = (.ok (), p') → FaithfulRun os fuel rest p'

theorem run_inStep (inStep : InStep os p slots ords ids records depth) {events : List PrimaryEvent}
    (enough : depth + events.length ≤ fuel) (faithful : FaithfulRun os fuel events p) :
    PrimaryStore.Ended (PrimaryStore.run os fuel events p) fun p' => ∃ slots' ords' ids' more depth',
      more.length ≤ events.length ∧ depth' ≤ fuel ∧ InStep os p' slots' ords' ids' (records ++ more) depth' := by
  induction events generalizing p slots ords ids records depth with
  | nil => exact ⟨slots, ords, ids, [], depth, le_rfl, enough, by rwa [List.append_nil]⟩
  | cons event rest ih =>
    rw [List.length_cons] at enough
    obtain ⟨now, later⟩ := faithful
    have step := exec_inStep inStep (by omega) now
    rw [PrimaryStore.run]
    cases made : PrimaryStore.exec os fuel event p with
    | mk result p' =>
      rw [made] at step
      cases result with
      | error e => exact step
      | ok done =>
        obtain ⟨slots', ords', ids', more, few, inStep'⟩ := step
        refine (ih inStep' (by omega) (later p' made)).imp ?_
        rintro p'' ⟨slots'', ords'', ids'', rest', depth'', few', shallow, inStep''⟩
        refine ⟨slots'', ords'', ids'', more ++ rest', depth'', ?_, shallow, List.append_assoc .. ▸ inStep''⟩
        rw [List.length_append, List.length_cons]
        omega

/-- Replaying the log from its start into an empty store gives what the store holds, unless the page ids, the
commit numbers or the ordinals of the new store run out; its data file tells its extents at every call that
counts them. -/
def SameAsLog (os : PageSize) (fuel : Nat) (p : PrimaryStore) : Prop :=
  ∃ records offset, ReplicationLog.readFrom p.log 0 = .ok (records, offset) ∧
    ∀ empty, Store.create os = .ok empty → LeveledRun os fuel (records.map LogRecord.call) empty →
      Engine.Ended (replay os fuel records empty) fun s =>
        ∀ id, ∃ found, s.get fuel id = .ok found ∧ p.store.get fuel id = .ok found

theorem InStep.sameAsLog (inStep : InStep os p slots ords ids records depth) (enough : depth ≤ fuel)
    (few : records.length ≤ fuel) : SameAsLog os fuel p := by
  have fits : ∀ record ∈ records, record.payload.length ≤ maxFrameLen :=
    fun record mem => (inStep.loggable record mem).small
  have same : records.map LogRecord.stored = records :=
    (List.map_congr_left fun record mem => (inStep.loggable record mem).stored_eq).trans (List.map_id _)
  have read : ReplicationLog.readFrom ([] ++ (records.flatMap LogRecord.encode ++ [])) [].length = _ :=
    ReplicationLog.readFrom_records fits rfl
  rw [same, List.nil_append, List.append_nil, ← inStep.log] at read
  refine ⟨records, _, read, fun empty created level => ?_⟩
  have start := (create_settled created).synced.sound
  have ran := replay_spec inStep.loggable start ((Nat.zero_add _).trans_le few) level
  refine ran.imp fun s here id => ?_
  obtain ⟨slots', ords', ids', depth', shallow, sound⟩ := here
  exact ⟨_, sound.get shallow id, inStep.sound.get enough id⟩

theorem created_inStep (created : PrimaryStore.create os = .ok p) :
    InStep os p (fun _ => none) (fun _ => none) (fun _ => none) [] 0 := by
  rw [PrimaryStore.create] at created
  cases made : Store.create os with
  | error e =>
    rw [made] at created
    cases created
  | ok s =>
    rw [made] at created
    obtain rfl := Except.ok.inj created
    exact ⟨(create_settled made).synced.sound, rfl, fun _ none => absurd none List.not_mem_nil⟩

/-- Store and log agree after every faithful run. -/
theorem log_tells_store (created : PrimaryStore.create os = .ok p) {events : List PrimaryEvent}
    (enough : events.length ≤ fuel) (faithful : FaithfulRun os fuel events p) :
    PrimaryStore.Ended (PrimaryStore.run os fuel events p) (SameAsLog os fuel) := by
  have ran := run_inStep (created_inStep created) ((Nat.zero_add _).trans_le enough) faithful
  refine ran.imp ?_
  rintro p' ⟨slots, ords, ids, records, depth, few, shallow, inStep⟩
  exact inStep.sameAsLog shallow (few.trans enough)

theorem primary_created (os : PageSize) : ∃ s p, Store.create os = .ok s ∧ PrimaryStore.create os = .ok p ∧
    p = { store := s, log := [] } ∧ s.data.extents.length = 0 := by
  obtain ⟨s, created, -, none, -⟩ := create_sound os
  refine ⟨s, _, created, ?_, rfl, none⟩
  rw [PrimaryStore.create, created]
  rfl

-- The append changes nothing in the store.
theorem exec_insert_store {s' : Store} {done : Unit} (sound : Sound os p.store slots ords ids map depth)
    (enough : depth < fuel) (level : Level p.store.data)
    (made : (Store.insert os fuel header body).run p.store = (.ok done, s')) :
    (PrimaryStore.exec os fuel (.call (.insert header body)) p).2.store = s' := by
  have spec : SpecAt .none (Store.insert os fuel header body) p.store _ _ :=
    Engine.insert_spec sound enough.le (fun _ => level) fun _ => Limit.none_ne_refuse 1
  have ran := spec.run
  rw [made] at ran
  obtain ⟨q, ord, ords', ids', inserted⟩ := ran
  have kept : Spec (PrimaryStore.logInserted ReplicationLog.append fuel header.id) ⟨s', p.log⟩
      (fun _ p' => p'.store = s') (fun _ p' => p'.store = s') :=
    logInserted_spec enough inserted (spec_weaken ReplicationLog.append_spec (fun _ _ _ => rfl) fun _ _ _ => rfl)
  have first : (PrimaryStore.onStore (Store.insert os fuel header body)).runWith .none p =
      (.ok done, ⟨s', p.log⟩) := by
    rw [Prog.run] at made
    rw [PrimaryStore.onStore, focus_runWith, made]
  obtain ⟨limit', rest⟩ := runWith_bind_ok (f := fun _ =>
    PrimaryStore.logInserted ReplicationLog.append fuel header.id) first
  have ended := kept.runWith limit'
  rw [← rest, ← PrimaryStore.insert_eq] at ended
  rw [PrimaryStore.exec, PrimaryStore.call, Prog.run]
  cases whole : (PrimaryStore.insert ReplicationLog.append os fuel header body).runWith .none p with
  | mk result p' =>
    rw [whole] at ended
    cases result with
    | ok a => exact ended
    | error e => cases e <;> exact ended.1

set_option maxRecDepth 100000 in
theorem log_tells_store_small : ∃ p, PrimaryStore.create fourKiB = .ok p ∧
    PrimaryStore.Ended (PrimaryStore.run fourKiB 3 [.call (.insert someHeader []), .failing (.delete someHeader.id) 1,
      .unlogged (.delete .nil) 29] p) (SameAsLog fourKiB 3) := by
  obtain ⟨s, p, created, created', rfl, none⟩ := primary_created fourKiB
  have level : Level s.data := by
    have small : fourKiB.size ≤ 16384 := show 4096 ≤ 16384 by omega
    exact (create_settled created).synced.sound.level small (by omega)
  -- the deletion fails before the primary index is without the id
  have evaluated : endsIn fourKiB (Prog.run (Store.insert fourKiB 3 someHeader [])) (fun s' =>
      !((Store.onPrimary (BTree.untilErased SlotPointer fourKiB 3 someHeader.id)).runWith (.refuse 1) s').1.isOk) =
        true := by
    decide +kernel
  obtain ⟨done, s', inserted, unerased⟩ := endsIn_spec created evaluated
  have unseen (p' : PrimaryStore)
      (made : PrimaryStore.exec fourKiB 3 (.call (.insert someHeader [])) { store := s, log := [] } = (.ok (), p')) :
      ¬ (LogRecord.delete someHeader.id).Shows fourKiB 3 (.refuse 1) p'.store := by
    have same := exec_insert_store (created_inStep created').sound (by omega) level inserted
    rw [made] at same
    rintro ⟨-, erased, here⟩
    rw [same] at here
    rw [here] at unerased
    cases unerased
  refine ⟨_, created', log_tells_store created' le_rfl ⟨⟨fun _ => level, trivial, trivial, trivial⟩, fun p' made => ?_⟩⟩
  refine ⟨⟨trivial, trivial, trivial, fun shows => absurd shows (unseen p' made)⟩, fun _ _ => ?_⟩
  exact ⟨⟨trivial, trivial, trivial, fun _ => by decide⟩, fun _ _ => trivial⟩

set_option maxRecDepth 100000 in
theorem someHeader_inserted :
    endsIn fourKiB (Prog.run (Store.insert fourKiB 1 someHeader [])) (fun _ => true) = true := by
  decide +kernel

set_option maxRecDepth 4000 in
/-- The store took the entity, and no byte of its record got to the log. -/
theorem log_misses_insert : ∃ p, PrimaryStore.create fourKiB = .ok p ∧
    ¬ PrimaryStore.Ended (PrimaryStore.run fourKiB 1 [.unlogged (.insert someHeader []) 0] p)
      (SameAsLog fourKiB 1) := by
  obtain ⟨s, p, created, created', same, none⟩ := primary_created fourKiB
  have inStep := created_inStep created'
  have level : Level p.store.data := by
    rw [same]
    exact (create_settled created).synced.sound.level (show 4096 ≤ 16384 by omega) (by omega)
  obtain ⟨done, s', inserted, -⟩ := endsIn_spec created someHeader_inserted
  have first : ((PrimaryStore.onStore (Store.insert fourKiB 1 someHeader [])).run p).1 = .ok done :=
    focus_run_ok (by rw [same]; exact inserted)
  have parts : SpecAt .none (PrimaryStore.onStore (Store.insert fourKiB 1 someHeader [])) p
      (fun _ p' => Spec (PrimaryStore.logInserted (ReplicationLog.failing 0) 1 someHeader.id) p' (fun _ _ => False)
        (fun e p'' => e = .stopped ∨
          e = .raised .io ∧ p''.log = [] ∧ p''.store.get 1 someHeader.id = .ok (some (Engine.stored someHeader []))))
      (fun _ _ => True) := by
    refine specAt_weaken (onStore_insert inStep.sound (Nat.zero_le 1)
      (fun _ => level) fun _ => Limit.none_ne_refuse 1) ?_
      fun _ _ _ _ => trivial
    rintro - _ ⟨s', q, ord, ords', ids', rfl, inserted⟩
    refine logInserted_spec Nat.zero_lt_one inserted (spec_weaken ReplicationLog.failing_spec (fun _ _ no => no) ?_)
    rintro e log' (stop | ⟨rfl, rfl⟩)
    · exact .inl stop
    · refine .inr ⟨rfl, ?_, ?_⟩
      · rw [List.take_zero, List.append_nil, same]
      · rw [inserted.sound.get le_rfl, Function.update_self]
  have ran := parts.runWith_second first
  rw [← PrimaryStore.insert_eq] at ran
  refine ⟨p, created', fun kept => ?_⟩
  rw [PrimaryStore.run, PrimaryStore.exec, PrimaryStore.call] at kept
  rw [Prog.run] at kept
  cases made : (PrimaryStore.insert (ReplicationLog.failing 0) fourKiB 1 someHeader []).runWith .none p with
  | mk result p' =>
    rw [made] at kept ran
    cases result with
    | ok done => exact ran
    | error e =>
      obtain ⟨stop | ⟨rfl, empty, got⟩, going⟩ := ran
      · exact going.1 stop
      have kept : SameAsLog fourKiB 1 p' := kept
      obtain ⟨records, offset, read, agrees⟩ := kept
      rw [empty] at read
      obtain rfl : [] = records := (Prod.mk.inj (Except.ok.inj read)).1
      obtain ⟨found, fresh, held⟩ := agrees s created trivial someHeader.id
      rw [(create_settled created).synced.sound.get (Nat.zero_le 1)] at fresh
      obtain rfl := Except.ok.inj fresh
      rw [got] at held
      cases held

end Runs

end Gems.Cluster
