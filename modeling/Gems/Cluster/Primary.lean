import Gems.Cluster.Log
import Gems.Cluster.Replay
import Gems.Engine.History

set_option autoImplicit false

namespace Gems.Cluster

open Lib Prog Catalog Engine Storage

/-- A store and the log of its changes. -/
structure PrimaryStore where
  store : Store
  log : LogFile

namespace PrimaryStore

def onStore {A : Type} (m : Gems.Prog Store A) : Gems.Prog PrimaryStore A :=
  focus PrimaryStore.store (fun p store => { p with store }) m

def onLog {A : Type} (m : Gems.Prog LogFile A) : Gems.Prog PrimaryStore A :=
  focus PrimaryStore.log (fun p log => { p with log }) m

def create (os : PageSize) : Except Fault PrimaryStore := do
  let store ← Store.create os
  pure { store, log := ReplicationLog.openFile none }

-- The next open, on the files that `p` leaves.
def reopen (os : PageSize) (fuel : Nat) (p : PrimaryStore) : Except Fault PrimaryStore := do
  let store ← Store.openDir os fuel p.store.onDisk
  pure { store, log := ReplicationLog.openFile (some p.log) }

section Calls

-- The append of the log, or one that fails on the way.
variable (append : LogRecord → Gems.Prog LogFile Unit)

-- What is logged is read back from the store.
def insert (os : PageSize) (fuel : Nat) (header : EntityHeader) (body : List UInt8) :
    Gems.Prog PrimaryStore Unit := do
  onStore (Store.insert os fuel header body)
  let p ← view
  match ← ofResult (p.store.get fuel header.id) with
  | some (storedHeader, storedBody) => onLog (append (.insert storedHeader storedBody))
  | none => fail .panicked

def delete (os : PageSize) (fuel : Nat) (id : Tuid) : Gems.Prog PrimaryStore Bool := do
  let existed ← onStore (Store.delete os fuel id)
  if existed then onLog (append (.delete id))
  pure existed

def call (os : PageSize) (fuel : Nat) : LogRecord → Gems.Prog PrimaryStore Unit
  | .insert header body => insert append os fuel header body
  | .delete id => do
    let _ ← delete append os fuel id
    pure ()

end Calls

end PrimaryStore

namespace ReplicationLog

-- An append until the last byte is in the file, before the sync.
def written (record : LogRecord) : Gems.Prog LogFile Unit :=
  record.encode.forM fun b => Prog.write fun file => file ++ [b]

-- An append that fails after `bytes` bytes.
def failing (bytes : Nat) (record : LogRecord) : Gems.Prog LogFile Unit := do
  (record.encode.take bytes).forM fun b => Prog.write fun file => file ++ [b]
  Prog.raise .io

end ReplicationLog

inductive PrimaryEvent where
  | call (command : LogRecord)
  -- The append to the log fails after so many bytes, and the process goes on.
  | unlogged (command : LogRecord) (bytes : Nat)
  -- A system call of the store fails after so many others, and the process goes on.
  | failing (command : LogRecord) (requests : Nat)
  -- The process stops after so many file writes, and the next one opens the files.
  | stopped (command : LogRecord) (writes : Nat)
  | reopen

namespace PrimaryStore

-- An error goes to the caller.
def survived {A : Type} : Except Fault A × PrimaryStore → Except Fault Unit × PrimaryStore
  | (.ok _, p) => (.ok (), p)
  | (.error (.raised _), p) => (.ok (), p)
  | (.error .refused, p) => (.ok (), p)
  | (.error e, p) => (.error e, p)

def reopened (os : PageSize) (fuel : Nat) (p : PrimaryStore) : Except Fault Unit × PrimaryStore :=
  match p.reopen os fuel with
  | .ok p' => (.ok (), p')
  | .error e => (.error e, p)

def exec (os : PageSize) (fuel : Nat) : PrimaryEvent → PrimaryStore → Except Fault Unit × PrimaryStore
  | .call command, p => survived ((call ReplicationLog.append os fuel command).run p)
  | .unlogged command bytes, p => survived ((call (ReplicationLog.failing bytes) os fuel command).run p)
  | .failing command requests, p => survived ((call ReplicationLog.append os fuel command).runWith (.refuse requests) p)
  | .stopped command writes, p =>
    match leftBy ((call ReplicationLog.append os fuel command).runWith (.stop writes) p) with
    | (.ok (), p') => reopened os fuel p'
    | (.error e, p') => (.error e, p')
  | .reopen, p => reopened os fuel p

def run (os : PageSize) (fuel : Nat) : List PrimaryEvent → PrimaryStore → Except Fault Unit × PrimaryStore
  | [], p => (.ok (), p)
  | event :: rest, p =>
    match exec os fuel event p with
    | (.ok (), p') => run os fuel rest p'
    | (.error e, p') => (.error e, p')

end PrimaryStore

section Replay

-- `ReplicaClient::apply` for each record in turn.
def replay (os : PageSize) (fuel : Nat) : List LogRecord → Store → Except Fault Unit × Store
  | [], s => (.ok (), s)
  | record :: rest, s =>
    match (record.apply os fuel).run s with
    | (.ok (), s') => replay os fuel rest s'
    | (.error e, s') => (.error e, s')

-- A record of something that the store took.
def Loggable : LogRecord → Prop
  | .insert header body => header.TextsFit ∧ Fits body
  | .delete _ => True

variable {os : PageSize} {s s' : Store} {slots slots' : Slots} {ords ords' : Ordinals} {ids ids' : Reverse}
  {map map' raw : Entities} {depth fuel : Nat} {record : LogRecord} {records : List LogRecord} {reply : Reply}
  {header : EntityHeader} {body : List UInt8}

theorem apply_of_exec (loggable : Loggable record) (sound : Sound os s slots ords ids map depth)
    (enough : depth ≤ fuel) (level : record.call.Leveled s) :
    match (record.apply os fuel).run s with
    | (.ok (), s') => ∃ reply slots' ords' ids' map',
      record.call.exec os fuel s = (.ok reply, s') ∧
      Moved os s slots ords ids map depth record.call reply s' slots' ords' ids' map'
    | (.error e, s') => e = .panicked ∧ Exhausted s' := by
  have ran := exec_moved sound enough record.call level
  cases record with
  | insert header body =>
    rw [LogRecord.call, Call.exec] at *
    rw [LogRecord.apply]
    cases made : (Store.insert os fuel header body).run s with
    | mk result s' =>
      rw [made] at ran
      cases result with
      | ok done =>
        obtain ⟨slots', ords', ids', map', moved⟩ := ran
        exact ⟨.inserted, slots', ords', ids', map', rfl, moved⟩
      | error e =>
        cases e with
        | raised error =>
          obtain ⟨slots', ords', ids', map', moved⟩ := ran
          cases moved with
          | refused large => exact absurd loggable.2 large
        | panicked => exact ran
        | stopped => exact ran
        | refused => exact ran
        | unfinished => exact ran
  | delete id =>
    rw [LogRecord.call, Call.exec] at *
    rw [LogRecord.apply, run_discard]
    cases made : (Store.delete os fuel id).run s with
    | mk result s' =>
      rw [made] at ran
      cases result with
      | ok existed =>
        obtain ⟨slots', ords', ids', map', moved⟩ := ran
        exact ⟨_, slots', ords', ids', map', rfl, moved⟩
      | error e => exact ran

theorem replay_spec (loggable : ∀ record ∈ records, Loggable record)
    (sound : Sound os s slots ords ids (shown raw) depth) (enough : depth + records.length ≤ fuel)
    (level : LeveledRun os fuel (records.map LogRecord.call) s) :
    Ended (replay os fuel records s) fun s' => ∃ slots' ords' ids' depth', depth' ≤ fuel ∧
      Sound os s' slots' ords' ids' (shown (contents (records.map LogRecord.call) raw)) depth' := by
  induction records generalizing s slots ords ids raw depth with
  | nil => exact ⟨slots, ords, ids, depth, enough, sound⟩
  | cons record rest ih =>
    rw [List.length_cons] at enough
    obtain ⟨now, later⟩ := level
    have step := apply_of_exec (loggable record List.mem_cons_self) sound (by omega : depth ≤ fuel) now
    rw [replay]
    cases made : (record.apply os fuel).run s with
    | mk result s' =>
      rw [made] at step
      cases result with
      | error e => exact step
      | ok done =>
        obtain ⟨reply, slots', ords', ids', map', exec, moved⟩ := step
        obtain ⟨-, rfl⟩ := moved.onMap rfl sound
        rw [exec] at later
        exact ih (fun r mem => loggable r (List.mem_cons_of_mem _ mem)) (moved.sound sound) (by omega) later

end Replay

section Appends

namespace ReplicationLog

variable {record : LogRecord} {log : LogFile} {bytes : Nat}

theorem spec_bytes (data : List UInt8) (log : LogFile) :
    Spec (data.forM fun b => (Prog.write fun file => file ++ [b] : Gems.Prog LogFile Unit)) log
      (fun _ log' => log' = log ++ data) (fun e _ => e = .stopped) := by
  have each : Spec (data.forM fun b => (Prog.write fun file => file ++ [b] : Gems.Prog LogFile Unit)) log
      (fun _ log' => log' ++ [] = log ++ data) (fun e _ => e = .stopped) := by
    refine @spec_forM _ _ _ _ _ data _ (fun rest log' => log' ++ rest = log ++ data) rfl fun b rest log' here => ?_
    exact spec_write (by rw [← here, List.append_assoc]; rfl) rfl
  exact spec_weaken each (fun _ _ here => by rwa [List.append_nil] at here) fun _ _ stop => stop

theorem written_spec : Spec (written record) log (fun _ log' => log' = log ++ record.encode)
    (fun e _ => e = .stopped) := spec_bytes record.encode log

theorem append_spec : Spec (append record) log (fun _ log' => log' = log ++ record.encode)
    (fun e _ => e = .stopped) := by
  refine spec_bind written_spec fun _ log' here => ?_
  subst here
  exact spec_write rfl rfl

theorem failing_spec : Spec (failing bytes record) log (fun _ _ => False)
    (fun e log' => e = .stopped ∨ e = .raised .io ∧ log' = log ++ record.encode.take bytes) := by
  refine spec_bind (spec_weaken (spec_bytes _ log) (fun _ _ here => here) fun _ _ stop => .inl stop) ?_
  rintro - log' rfl
  exact spec_raise (.inr ⟨rfl, rfl⟩)

end ReplicationLog

end Appends

section Steps

variable {os : PageSize} {p p' : PrimaryStore} {slots slots' : Slots} {ords ords' : Ordinals} {ids ids' : Reverse}
  {map map' raw : Entities} {depth fuel n : Nat} {limit : Limit} {command record : LogRecord} {records : List LogRecord}
  {reply : Reply} {header : EntityHeader} {body : List UInt8} {id : Tuid}

theorem stored_stored (header : EntityHeader) (body : List UInt8) :
    Engine.stored (Engine.stored header body).1 body = Engine.stored header body := by
  have again (max : Nat) (s : String) : cut max (cut max s) = cut max s := cut_of_fits (length_utf8_cut max s)
  simp only [Engine.stored, Store.placed, EntityHeader.truncated, again]

theorem loggable_stored (fits : Fits body) : Loggable (.insert (Engine.stored header body).1 body) :=
  ⟨⟨length_utf8_cut _ _, length_utf8_cut _ _⟩, fits⟩

theorem Loggable.small (loggable : Loggable record) : record.payload.length ≤ maxFrameLen := by
  cases record with
  | insert header body =>
    have fits : encodedLen + body.length ≤ maxBlockSize := loggable.2
    have room : maxBlockSize + 9 ≤ maxFrameLen := by decide
    simp only [LogRecord.payload, List.length_append, List.length_singleton, length_littleEndian,
      EntityHeader.length_encode]
    omega
  | delete id =>
    have size := id.length_eq
    have room : 1 + tuidLen ≤ maxFrameLen := by decide
    simp only [LogRecord.payload, List.length_append, List.length_singleton]
    omega

theorem Loggable.stored_eq (loggable : Loggable record) : record.stored = record := by
  cases record with
  | insert header body => exact LogRecord.stored_of_fit loggable.1
  | delete id => rfl

theorem Loggable.streams (loggable : Loggable record) : Streams LogRecord.decode record.encode record := by
  have streams := LogRecord.streams loggable.small
  rwa [loggable.stored_eq] at streams

-- What a call appends to the log.
def LogRecord.logged : LogRecord → Reply → List LogRecord
  | .insert header body, .inserted => [.insert (Engine.stored header body).1 body]
  | .delete id, .deleted true => [.delete id]
  | _, _ => []

-- A call that did not get to the log.
def StoreHalt (os : PageSize) (p : PrimaryStore) (slots : Slots) (ords : Ordinals) (ids : Reverse)
    (map : Entities) (depth : Nat) : LogRecord → Fault → PrimaryStore → Prop
  | .insert header body, e, p' => p'.log = p.log ∧
    InsertHalt os p.store slots ords ids map (depth + 1) header body e p'.store
  | .delete id, e, p' => p'.log = p.log ∧ DeleteHalt os p.store slots ords ids map depth id e p'.store

def Done (os : PageSize) (p : PrimaryStore) (slots : Slots) (ords : Ordinals) (ids : Reverse) (map : Entities)
    (depth : Nat) (command : LogRecord) (p' : PrimaryStore) : Prop :=
  ∃ reply slots' ords' ids' map',
    Moved os p.store slots ords ids map depth command.call reply p'.store slots' ords' ids' map' ∧
    p'.log = p.log ++ (command.logged reply).flatMap LogRecord.encode

-- It is done in the store, and the append of its record ended so.
def Late (os : PageSize) (p : PrimaryStore) (slots : Slots) (ords : Ordinals) (ids : Reverse) (map : Entities)
    (depth : Nat) (late : Fault → LogRecord → LogFile → LogFile → Prop) (command : LogRecord) (e : Fault)
    (p' : PrimaryStore) : Prop :=
  ∃ reply slots' ords' ids' map' record,
    Moved os p.store slots ords ids map depth command.call reply p'.store slots' ords' ids' map' ∧
    command.logged reply = [record] ∧ late e record p.log p'.log

variable {append : LogRecord → Gems.Prog LogFile Unit} {late : Fault → LogRecord → LogFile → LogFile → Prop}

-- What comes after the insertion into the store.
def PrimaryStore.logInserted (append : LogRecord → Gems.Prog LogFile Unit) (fuel : Nat) (id : Tuid) :
    Gems.Prog PrimaryStore Unit := do
  let p ← view
  match ← ofResult (p.store.get fuel id) with
  | some (storedHeader, storedBody) => PrimaryStore.onLog (append (.insert storedHeader storedBody))
  | none => fail .panicked

variable (append os fuel header body) in
theorem PrimaryStore.insert_eq : PrimaryStore.insert append os fuel header body =
    PrimaryStore.onStore (Store.insert os fuel header body) >>= fun _ =>
      PrimaryStore.logInserted append fuel header.id := rfl

theorem onStore_insert (sound : Sound os p.store slots ords ids map depth) (enough : depth ≤ fuel)
    (level : Call.Leveled p.store (.insert header body))
    (listed : Grows p.store.data (encodedLen + body.length) → limit ≠ .refuse 1) :
    SpecAt limit (PrimaryStore.onStore (Store.insert os fuel header body)) p
      (fun _ p' => ∃ s' q ord ords' ids', p' = { p with store := s' } ∧
        Inserted os p.store slots ords ids map (depth + 1) header body s' q ord ords' ids')
      (StoreHalt os p slots ords ids map depth (.insert header body)) := by
  refine specAt_focus (specAt_weaken (Engine.insert_spec sound enough level listed) ?_ fun e s' _ halt => ⟨rfl, halt⟩)
  rintro - s' ⟨q, ord, ords', ids', inserted⟩
  exact ⟨s', q, ord, ords', ids', rfl, inserted⟩

theorem logInserted_spec {s' : Store} {log : LogFile} {q : SlotPointer} {ord : Engine.Ordinal}
    {ok : Unit → PrimaryStore → Prop} {err : Fault → PrimaryStore → Prop} (enough : depth < fuel)
    (inserted : Inserted os p.store slots ords ids map (depth + 1) header body s' q ord ords' ids')
    (appends : Spec (append (.insert (Engine.stored header body).1 body)) log
      (fun _ log' => ok () ⟨s', log'⟩) (fun e log' => err e ⟨s', log'⟩)) :
    Spec (PrimaryStore.logInserted append fuel header.id) ⟨s', log⟩ ok err := by
  refine spec_view_bind ?_
  have got : s'.get fuel header.id = .ok (some (Engine.stored header body)) := by
    rw [inserted.sound.get enough, Function.update_self]
  dsimp only
  rw [got]
  exact spec_pure_bind (spec_focus appends)

theorem insert_spec (sound : Sound os p.store slots ords ids map depth) (enough : depth < fuel)
    (level : Call.Leveled p.store (.insert header body))
    (listed : Grows p.store.data (encodedLen + body.length) → limit ≠ .refuse 1)
    (appends : ∀ record log, Spec (append record) log (fun _ log' => log' = log ++ record.encode)
      (fun e log' => late e record log log')) :
    SpecAt limit (PrimaryStore.insert append os fuel header body) p
      (fun _ p' => Done os p slots ords ids map depth (.insert header body) p')
      (fun e p' => StoreHalt os p slots ords ids map depth (.insert header body) e p' ∨
        Late os p slots ords ids map depth late (.insert header body) e p') := by
  rw [PrimaryStore.insert_eq]
  refine specAt_bind (specAt_weaken (onStore_insert sound enough.le level listed) (fun _ _ here => here)
    fun _ _ _ => .inl) ?_
  rintro - _ ⟨s', q, ord, ords', ids', rfl, inserted⟩
  refine logInserted_spec enough inserted (spec_weaken (appends _ p.log) ?_ fun e log' ended => .inr ?_)
  · rintro - log' rfl
    exact ⟨.inserted, _, _, _, _, .inserted inserted, by simp [LogRecord.logged]⟩
  · exact ⟨.inserted, _, _, _, _, _, .inserted inserted, rfl, ended⟩

theorem delete_spec (sound : Sound os p.store slots ords ids map depth) (enough : depth < fuel) (id : Tuid)
    (appends : ∀ record log, Spec (append record) log (fun _ log' => log' = log ++ record.encode)
      (fun e log' => late e record log log')) :
    Spec (PrimaryStore.delete append os fuel id) p
      (fun _ p' => Done os p slots ords ids map depth (.delete id) p')
      (fun e p' => StoreHalt os p slots ords ids map depth (.delete id) e p' ∨
        Late os p slots ords ids map depth late (.delete id) e p') := by
  have first : Spec (PrimaryStore.onStore (Store.delete os fuel id)) p
      (fun existed p' => ∃ s', p' = { p with store := s' } ∧
        ((existed = false ∧ Missing os p.store slots ords ids map depth id s') ∨
          (existed = true ∧ ∃ ord, Deleted os p.store slots ords ids map depth id ord s')))
      (fun e p' => StoreHalt os p slots ords ids map depth (.delete id) e p' ∨
        Late os p slots ords ids map depth late (.delete id) e p') := by
    refine spec_focus (spec_weaken (Engine.delete_spec sound enough.le id) ?_ ?_)
    · exact fun _ s' here => ⟨s', rfl, here⟩
    · exact fun e s' halt => .inl ⟨rfl, halt⟩
  refine spec_bind first ?_
  rintro _ _ ⟨s', rfl, ⟨rfl, missing⟩ | ⟨rfl, ord, deleted⟩⟩
  · dsimp only
    rw [if_neg Bool.false_ne_true]
    exact spec_pure ⟨.deleted false, _, _, _, _, .missing missing, by simp [LogRecord.logged]⟩
  · have second : Spec (PrimaryStore.onLog (append (.delete id))) { p with store := s' }
        (fun _ p' => Done os p slots ords ids map depth (.delete id) p')
        (fun e p' => StoreHalt os p slots ords ids map depth (.delete id) e p' ∨
          Late os p slots ords ids map depth late (.delete id) e p') := by
      refine spec_focus (spec_weaken (appends _ p.log) ?_ ?_)
      · rintro - log' rfl
        exact ⟨.deleted true, _, _, _, _, .deleted deleted, by simp [LogRecord.logged]⟩
      · intro e log' ended
        exact .inr ⟨.deleted true, _, _, _, _, _, .deleted deleted, rfl, ended⟩
    exact spec_bind second fun _ _ here => spec_pure here

theorem onLog_append (record : LogRecord) : PrimaryStore.onLog (ReplicationLog.append record) =
    PrimaryStore.onLog (ReplicationLog.written record) >>= fun _ => PrimaryStore.onLog (Prog.write fun log => log) := by
  have get : ∀ (p : PrimaryStore) (log : LogFile), { p with log }.log = log := fun _ _ => rfl
  have set : ∀ (p : PrimaryStore) (log log' : LogFile),
      { { p with log } with log := log' } = { p with log := log' } := fun _ _ _ => rfl
  exact focus_bind get set (ReplicationLog.written record) fun _ => Prog.write fun log => log

theorem insert_append (os : PageSize) (fuel : Nat) (header : EntityHeader) (body : List UInt8) :
    PrimaryStore.insert ReplicationLog.append os fuel header body =
      PrimaryStore.insert ReplicationLog.written os fuel header body >>= fun _ =>
        PrimaryStore.onLog (Prog.write fun log => log) := by
  simp only [PrimaryStore.insert, onLog_append, bind_assoc]
  congr 1
  funext _
  congr 1
  funext p
  congr 1
  funext found
  cases found with
  | none => rfl
  | some e => rfl

theorem delete_append (os : PageSize) (fuel : Nat) (id : Tuid) :
    PrimaryStore.delete ReplicationLog.append os fuel id =
      PrimaryStore.delete ReplicationLog.written os fuel id >>= fun existed =>
        (if existed then PrimaryStore.onLog (Prog.write fun log => log) else pure ()) >>= fun _ => pure existed := by
  simp only [PrimaryStore.delete, bind_assoc]
  congr 1
  funext existed
  cases existed with
  | false => rfl
  | true =>
    simp only [if_true, onLog_append, bind_assoc]
    rfl

end Steps

end Gems.Cluster
