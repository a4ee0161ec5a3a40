import Gems.Cluster.Log
import Gems.Lib.Lists
import Gems.Lib.Text
import Gems.Subscribe.View
import Gems.Subscribe.Watch

set_option autoImplicit false

namespace Gems.Subscribe

open Lib Cluster

structure NotificationHub where
  subscriptions : SubscriptionEngine
  views : ViewEngine

-- How one call goes through the two hash maps.
structure Passage where
  watches : List (SubscriptionId × Watch)
  reorder : List (ViewId × Nat) → List (ViewId × Nat)

namespace NotificationHub

def new : NotificationHub := { subscriptions := .new, views := .new }

def subscribe (h : NotificationHub) (watch : Watch) : NotificationHub × SubscriptionId :=
  let (subscriptions, id) := h.subscriptions.subscribe watch
  ({ h with subscriptions }, id)

def process (h : NotificationHub) (passage : Passage) (record : LogRecord) : NotificationHub × List Notification :=
  let (subscriptions, out) := h.subscriptions.process passage.watches record
  let (views, changed) := h.views.process record
  ({ subscriptions, views }, out ++ (passage.reorder changed).flatMap fun (viewId, newCount) =>
    SubscriptionEngine.notifyViewChanged passage.watches (.ofNat viewId) (.ofNat newCount))

-- The loop over the records; the `k`-th record that the hub is given is processed as `passages k` says.
def feed (passages : Nat → Passage) (h : NotificationHub) : Nat → List LogRecord → NotificationHub × List Notification
  | _, [] => (h, [])
  | k, record :: rest =>
    let (h, out) := h.process (passages k) record
    let (h, more) := feed passages h (k + 1) rest
    (h, out ++ more)

end NotificationHub

-- `offsetFile` is none while there is no text in it.
structure LogTailer where
  offsetFile : Option (List Char)
  offset : Nat

-- Whether a write fails, and what it leaves in the file.
inductive Save where
  | succeeds
  | fails (left : Option (List Char))

def Save.failing : Save → Bool
  | .succeeds => false
  | .fails _ => true

namespace LogTailer

def openFile (offsetFile : Option (List Char)) : LogTailer where
  offsetFile := offsetFile
  offset := (offsetFile.bind fun text => parseUnsigned 64 (trim text)).getD 0

def saveOffset (t : LogTailer) : Save → Except Fault Unit × LogTailer
  | .succeeds => (.ok (), { t with offsetFile := some (decimal t.offset) })
  | .fails left => (.error (.raised .io), { t with offsetFile := left })

end LogTailer

-- `given` counts the records that went to the hub.
structure Tailing where
  log : LogFile
  tailer : LogTailer
  hub : NotificationHub
  given : Nat

namespace Tailing

def poll (passages : Nat → Passage) (save : Save) (s : Tailing) : Except Fault (List Notification) × Tailing :=
  match ReplicationLog.readFrom s.log s.tailer.offset with
  | .error e => (.error e, s)
  | .ok (records, newOffset) =>
    let (hub, out) := s.hub.feed passages s.given records
    let s' := { s with hub, given := s.given + records.length }
    if newOffset ≠ s.tailer.offset then
      let (saved, tailer) := { s.tailer with offset := newOffset }.saveOffset save
      (saved.map fun _ => out, { s' with tailer })
    else (.ok out, s')

end Tailing

section Runs

inductive Event where
  | append (bytes : List UInt8)
  | poll (save : Save)

-- The state, and what the polls that succeeded returned.
def Event.apply (passages : Nat → Passage) (state : Tailing × List Notification) : Event → Tailing × List Notification
  | append bytes => ({ state.1 with log := state.1.log ++ bytes }, state.2)
  | poll save =>
    match state.1.poll passages save with
    | (.ok out, s) => (s, state.2 ++ out)
    | (.error _, s) => (s, state.2)

def run (passages : Nat → Passage) (state : Tailing × List Notification) (events : List Event) :
    Tailing × List Notification := events.foldl (Event.apply passages) state

def start (log : LogFile) (offsetFile : Option (List Char)) (hub : NotificationHub) : Tailing × List Notification :=
  ({ log, tailer := .openFile offsetFile, hub, given := 0 }, [])

/-- The polls returned what the hub says of the records from `first` up to the offset, and the hub was
given each of these once. -/
def Complete (passages : Nat → Passage) (first : Nat) (hub : NotificationHub) (state : Tailing × List Notification) :
    Prop :=
  ∃ records, ReplicationLog.readFrom (state.1.log.take state.1.tailer.offset) first =
      .ok (records, state.1.tailer.offset) ∧
    state.1.given = records.length ∧ hub.feed passages 0 records = (state.1.hub, state.2)

def Event.Spared (passages : Nat → Passage) (s : Tailing) : Event → Prop
  | append _ => True
  | poll save => save.failing = true → ∀ records newOffset,
      ReplicationLog.readFrom s.log s.tailer.offset = .ok (records, newOffset) →
      (s.hub.feed passages s.given records).2 = []

def Throughout (passages : Nat → Passage) : Tailing × List Notification → List Event → Prop
  | _, [] => True
  | state, event :: rest => event.Spared passages state.1 ∧ Throughout passages (event.apply passages state) rest

end Runs

section Reading

variable {buf bytes rest : List UInt8} {record : LogRecord} {records records' : List LogRecord} {n pos fuel : Nat}

theorem decode_front (read : LogRecord.decode buf = .ok (some (record, n))) :
    LogRecord.decode (buf.take n ++ rest) = .ok (some (record, n)) := by
  have progress := LogRecord.decode_consumes read
  have size : (buf.take n).length = n := by
    rw [List.length_take]
    omega
  have number : (buf.take n ++ rest).take 4 = buf.take 4 := by
    rw [List.take_append_of_le_length (by omega), List.take_take, Nat.min_eq_left progress.1]
  unfold LogRecord.decode at read ⊢
  rw [if_neg (by omega)] at read
  rw [if_neg (by rw [List.length_append]; omega), number]
  simp only [bind, Except.bind] at read ⊢
  split at read
  next => cases read
  next =>
    split at read
    next => cases read
    next within =>
      generalize ofLittleEndian (buf.take 4) = payloadLen at read within ⊢
      split at read
      next => cases read
      next payload found =>
        obtain ⟨rfl, rfl⟩ := Prod.mk.inj (Option.some.inj (Except.ok.inj read))
        have body : ((buf.take (4 + payloadLen) ++ rest).drop 4).take payloadLen = (buf.drop 4).take payloadLen := by
          rw [List.drop_append_of_le_length (by omega), List.take_append_of_le_length (by rw [List.length_drop]; omega),
            List.drop_take, Nat.add_sub_cancel_left, List.take_take, Nat.min_self]
        rw [if_neg (by rw [List.length_append]; omega), body, found]
        rfl

inductive Decodes : List UInt8 → List LogRecord → Prop
  | nil : Decodes [] []
  | cons {bytes rest : List UInt8} {record : LogRecord} {records : List LogRecord}
      (whole : LogRecord.decode bytes = .ok (some (record, bytes.length))) (later : Decodes rest records) :
      Decodes (bytes ++ rest) (record :: records)

theorem Decodes.append (first : Decodes bytes records) (later : Decodes rest records') :
    Decodes (bytes ++ rest) (records ++ records') := by
  induction first with
  | nil => exact later
  | cons whole _ ih =>
    rw [List.append_assoc]
    exact .cons whole ih

theorem Decodes.count (decodes : Decodes bytes records) : 4 * records.length ≤ bytes.length := by
  induction decodes with
  | nil => exact le_rfl
  | cons whole _ ih =>
    have progress := LogRecord.decode_consumes whole
    rw [List.length_cons, List.length_append]
    omega

theorem decodes_of_readLoop (read : ReplicationLog.readLoop fuel buf = .ok (records, pos)) :
    pos ≤ buf.length ∧ Decodes (buf.take pos) records := by
  induction fuel generalizing buf records pos with
  | zero => cases read
  | succ fuel ih =>
    rw [ReplicationLog.readLoop] at read
    cases found : LogRecord.decode buf with
    | error e =>
      rw [found] at read
      cases read
    | ok next =>
      rw [found] at read
      cases next with
      | none =>
        obtain ⟨rfl, rfl⟩ := Prod.mk.inj (Except.ok.inj read)
        exact ⟨Nat.zero_le _, .nil⟩
      | some pair =>
        obtain ⟨record, consumed⟩ := pair
        have progress := LogRecord.decode_consumes found
        cases more : ReplicationLog.readLoop fuel (buf.drop consumed) with
        | error e =>
          simp only [bind, Except.bind, more] at read
          cases read
        | ok result =>
          obtain ⟨later, length⟩ := result
          simp only [bind, Except.bind, more] at read
          obtain ⟨rfl, rfl⟩ := Prod.mk.inj (Except.ok.inj read)
          obtain ⟨within, decodes⟩ := ih more
          rw [List.length_drop] at within
          have size : (buf.take consumed).length = consumed := by
            rw [List.length_take]
            omega
          have alone : LogRecord.decode (buf.take consumed ++ []) = _ := decode_front found
          rw [List.append_nil] at alone
          refine ⟨by omega, ?_⟩
          rw [List.take_add]
          exact .cons (by rw [size]; exact alone) decodes

theorem Decodes.readLoop (decodes : Decodes bytes records) (enough : bytes.length < fuel) :
    ReplicationLog.readLoop fuel bytes = .ok (records, bytes.length) := by
  induction decodes generalizing fuel with
  | nil =>
    obtain ⟨fuel, rfl⟩ := Nat.exists_eq_add_one_of_ne_zero (Nat.ne_of_gt enough)
    rfl
  | @cons bytes rest record records whole later ih =>
    obtain ⟨fuel, rfl⟩ := Nat.exists_eq_add_one_of_ne_zero (Nat.ne_of_gt (Nat.zero_lt_of_lt enough))
    have progress := LogRecord.decode_consumes whole
    have front : LogRecord.decode (bytes.take bytes.length ++ rest) = _ := decode_front whole
    rw [List.length_append] at enough
    rw [List.take_length] at front
    have more : ReplicationLog.readLoop fuel rest = .ok (records, rest.length) := ih (by omega)
    rw [ReplicationLog.readLoop, front]
    simp only [bind, Except.bind, List.drop_left, more, List.length_append]
    rfl

theorem decodes_of_readFrom {file : LogFile} {first last : Nat}
    (read : ReplicationLog.readFrom file first = .ok (records, last)) :
    first ≤ last ∧ last ≤ max first file.length ∧ Decodes ((file.take last).drop first) records := by
  rw [ReplicationLog.readFrom] at read
  cases loop : ReplicationLog.readLoop ((file.drop first).length + 1) (file.drop first) with
  | error e =>
    simp only [bind, Except.bind, loop] at read
    cases read
  | ok result =>
    simp only [bind, Except.bind, loop] at read
    obtain ⟨rfl, rfl⟩ := Prod.mk.inj (Except.ok.inj read)
    obtain ⟨within, decodes⟩ := decodes_of_readLoop loop
    rw [List.length_drop] at within
    refine ⟨by omega, by omega, ?_⟩
    rwa [List.drop_take, Nat.add_sub_cancel_left]

theorem Decodes.readFrom {file : LogFile} {first : Nat} (decodes : Decodes (file.drop first) records)
    {last : Nat} (end_ : first + (file.drop first).length = last) :
    ReplicationLog.readFrom file first = .ok (records, last) := by
  rw [ReplicationLog.readFrom]
  simp only [bind, Except.bind, decodes.readLoop (Nat.lt_succ_self _), end_]
  rfl

end Reading

section Delivery

variable {passages : Nat → Passage} {first : Nat} {hub : NotificationHub} {state : Tailing × List Notification}
  {records more : List LogRecord} {told : List Notification}

theorem feed_append (k : Nat) : hub.feed passages k (records ++ more) =
    (((hub.feed passages k records).1.feed passages (k + records.length) more).1,
      (hub.feed passages k records).2 ++
        ((hub.feed passages k records).1.feed passages (k + records.length) more).2) := by
  induction records generalizing hub k with
  | nil => rfl
  | cons record rest ih =>
    have count : k + (record :: rest).length = k + 1 + rest.length := by
      rw [List.length_cons]
      omega
    simp only [List.cons_append, NotificationHub.feed, ih, count, List.append_assoc]

structure Tracked (passages : Nat → Passage) (first : Nat) (hub : NotificationHub) (s : Tailing)
    (records : List LogRecord) (told : List Notification) : Prop where
  decodes : Decodes ((s.log.take s.tailer.offset).drop first) records
  begins : first ≤ s.tailer.offset
  within : s.tailer.offset ≤ max first s.log.length
  given : s.given = records.length
  told : hub.feed passages 0 records = (s.hub, told)

theorem Tracked.append {s : Tailing} (tracked : Tracked passages first hub s records told) (bytes : List UInt8) :
    Tracked passages first hub { s with log := s.log ++ bytes } records told where
  decodes := by
    have same : ((s.log ++ bytes).take s.tailer.offset).drop first = (s.log.take s.tailer.offset).drop first := by
      by_cases inside : s.tailer.offset ≤ s.log.length
      next => rw [List.take_append_of_le_length inside]
      next =>
        have within := tracked.within
        have begins := tracked.begins
        rw [List.drop_eq_nil_of_le (by rw [List.length_take]; omega),
          List.drop_eq_nil_of_le (by rw [List.length_take]; omega)]
    change Decodes (((s.log ++ bytes).take s.tailer.offset).drop first) records
    rw [same]
    exact tracked.decodes
  begins := tracked.begins
  within := by
    have within := tracked.within
    change s.tailer.offset ≤ max first (s.log ++ bytes).length
    rw [List.length_append]
    omega
  given := tracked.given
  told := tracked.told

-- What a poll reads joins what was read before, whether or not the offset is saved.
theorem Tracked.read {s : Tailing} (tracked : Tracked passages first hub s records told) {newOffset : Nat}
    (read : ReplicationLog.readFrom s.log s.tailer.offset = .ok (more, newOffset)) {tailer : LogTailer}
    (moved : tailer.offset = newOffset) :
    Tracked passages first hub
      { s with
        tailer, hub := (s.hub.feed passages s.given more).1, given := s.given + more.length }
      (records ++ more) (told ++ (s.hub.feed passages s.given more).2) where
  decodes := by
    obtain ⟨forward, -, later⟩ := decodes_of_readFrom read
    have parts := drop_take_split s.log tracked.begins forward
    change Decodes ((s.log.take tailer.offset).drop first) _
    rw [moved, parts]
    exact tracked.decodes.append later
  begins := by
    obtain ⟨forward, -, -⟩ := decodes_of_readFrom read
    change first ≤ tailer.offset
    rw [moved]
    exact Nat.le_trans tracked.begins forward
  within := by
    obtain ⟨-, inside, -⟩ := decodes_of_readFrom read
    have within := tracked.within
    change tailer.offset ≤ max first s.log.length
    omega
  given := by rw [List.length_append, ← tracked.given]
  told := by
    rw [feed_append, Nat.zero_add, ← tracked.given, tracked.told]

theorem Tracked.step (tracked : Tracked passages first hub state.1 records told) (event : Event) :
    ∃ more out, Tracked passages first hub (event.apply passages state).1 (records ++ more) (told ++ out) ∧
      (event.Spared passages state.1 → (event.apply passages state).2 = state.2 ++ out) ∧
      (¬ event.Spared passages state.1 → (event.apply passages state).2 = state.2 ∧ out ≠ []) := by
  obtain ⟨s, delivered⟩ := state
  cases event with
  | append bytes =>
    refine ⟨[], [], ?_, fun _ => (List.append_nil _).symm, fun no => absurd trivial no⟩
    rw [List.append_nil, List.append_nil]
    exact tracked.append bytes
  | poll save =>
    simp only [Event.apply, Tailing.poll, Event.Spared]
    cases read : ReplicationLog.readFrom s.log s.tailer.offset with
    | error e =>
      refine ⟨[], [], ?_, fun _ => (List.append_nil _).symm, fun no => absurd ?_ no⟩
      next =>
        rw [List.append_nil, List.append_nil]
        exact tracked
      next => exact fun _ records newOffset no => by cases no
    | ok result =>
      obtain ⟨more, newOffset⟩ := result
      refine ⟨more, (s.hub.feed passages s.given more).2, ?_⟩
      have spared (out : List Notification) (said : (s.hub.feed passages s.given more).2 = out) :
          (∀ records offset, Except.ok (more, newOffset) = (Except.ok (records, offset) : Except Fault _) →
            (s.hub.feed passages s.given records).2 = []) ↔ out = [] := by
        constructor
        next => exact fun all => said ▸ all more newOffset rfl
        next =>
          rintro empty records offset same
          obtain ⟨rfl, -⟩ := Prod.mk.inj (Except.ok.inj same)
          rw [said, empty]
      by_cases moved : newOffset ≠ s.tailer.offset
      next =>
        cases save with
        | succeeds =>
          refine ⟨?_, ?_, ?_⟩
          next =>
            simp only [if_pos moved]
            exact tracked.read read rfl
          next => simp [moved, LogTailer.saveOffset, Except.map]
          next => simp [Save.failing]
        | fails left =>
          refine ⟨?_, ?_, ?_⟩
          next =>
            simp only [if_pos moved]
            exact tracked.read read rfl
          next =>
            intro quiet
            have empty := (spared _ rfl).mp (quiet rfl)
            simp [moved, LogTailer.saveOffset, Except.map, empty]
          next =>
            intro lost
            refine ⟨by simp [moved, LogTailer.saveOffset, Except.map], fun empty => lost fun _ => ?_⟩
            exact (spared _ rfl).mpr empty
      next =>
        -- nothing was read
        have still : newOffset = s.tailer.offset := not_not.mp moved
        have stays := tracked.read read still.symm
        have none : more = [] := by
          obtain ⟨-, -, decodes⟩ := decodes_of_readFrom read
          have count := decodes.count
          rw [still, List.drop_eq_nil_of_le (by simp)] at count
          exact List.length_eq_zero_iff.mp (by simpa using count)
        refine ⟨?_, ?_, ?_⟩
        next =>
          simp only [if_neg moved]
          exact stays
        next => simp [moved]
        next =>
          intro lost
          refine absurd (fun _ => (spared _ rfl).mpr ?_) lost
          rw [none]
          rfl

theorem Tracked.run (tracked : Tracked passages first hub state.1 records told) (events : List Event) :
    ∃ more out, Tracked passages first hub (run passages state events).1 (records ++ more) (told ++ out) ∧
      (Throughout passages state events → (run passages state events).2 = state.2 ++ out) ∧
      (¬ Throughout passages state events →
        (run passages state events).2.length < state.2.length + out.length) := by
  induction events generalizing state records told with
  | nil =>
    refine ⟨[], [], ?_, fun _ => (List.append_nil _).symm, fun no => absurd trivial no⟩
    rw [List.append_nil, List.append_nil]
    exact tracked
  | cons event rest ih =>
    obtain ⟨more, out, stepped, kept, lost⟩ := tracked.step event
    obtain ⟨more', out', ran, kept', lost'⟩ := ih stepped
    have later : (Subscribe.run passages (event.apply passages state) rest).2.length ≤
        (event.apply passages state).2.length + out'.length := by
      by_cases all : Throughout passages (event.apply passages state) rest
      next => rw [kept' all, List.length_append]
      next => exact (lost' all).le
    refine ⟨more ++ more', out ++ out', ?_, fun all => ?_, fun some => ?_⟩
    next =>
      rw [← List.append_assoc, ← List.append_assoc]
      exact ran
    next =>
      change (Subscribe.run passages (event.apply passages state) rest).2 = _
      rw [kept' all.2, kept all.1, List.append_assoc]
    next =>
      change (Subscribe.run passages (event.apply passages state) rest).2.length < _
      rw [List.length_append]
      by_cases first : event.Spared passages state.1
      next =>
        have short := lost' fun rest => some ⟨first, rest⟩
        rw [kept first, List.length_append] at short
        omega
      next =>
        obtain ⟨same, full⟩ := lost first
        have positive := List.length_pos_iff.mpr full
        rw [same] at later
        omega

theorem tracked_start (log : LogFile) (offsetFile : Option (List Char)) (hub : NotificationHub) :
    Tracked passages (LogTailer.openFile offsetFile).offset hub (start log offsetFile hub).1 [] [] where
  decodes := by
    rw [List.drop_eq_nil_of_le (by simp [start])]
    exact .nil
  begins := le_rfl
  within := le_max_left _ _
  given := rfl
  told := rfl

theorem Tracked.complete_iff (tracked : Tracked passages first hub state.1 records told) :
    Complete passages first hub state ↔ state.2 = told := by
  have size : first + ((state.1.log.take state.1.tailer.offset).drop first).length = state.1.tailer.offset := by
    have begins := tracked.begins
    have within := tracked.within
    rw [List.length_drop, List.length_take]
    omega
  have read := tracked.decodes.readFrom size
  constructor
  next =>
    rintro ⟨records', read', -, fed⟩
    obtain ⟨rfl, -⟩ := Prod.mk.inj (Except.ok.inj (read.symm.trans read'))
    exact (Prod.mk.inj (fed.symm.trans tracked.told)).2
  next =>
    intro all
    exact ⟨records, read, tracked.given, by rw [all, tracked.told]⟩

/-- Nothing is lost in exactly the runs in which every poll that fails to save has nothing to return. -/
theorem tailer_delivers (passages : Nat → Passage) (log : LogFile) (offsetFile : Option (List Char))
    (hub : NotificationHub) (events : List Event) :
    Complete passages (LogTailer.openFile offsetFile).offset hub (run passages (start log offsetFile hub) events) ↔
      Throughout passages (start log offsetFile hub) events := by
  have begun : Tracked passages (LogTailer.openFile offsetFile).offset hub (start log offsetFile hub).1 [] [] :=
    tracked_start log offsetFile hub
  obtain ⟨more, out, ran, kept, lost⟩ := begun.run events
  rw [ran.complete_iff]
  constructor
  next =>
    intro all
    by_contra some
    have short := lost some
    rw [all] at short
    exact absurd short (by simp [start])
  next => exact kept

def deletion : LogRecord := .delete .nil

def deletionHub : NotificationHub := (NotificationHub.new.subscribe (.entityDeleted .nil)).1

def onlyPassage : Passage := { watches := deletionHub.subscriptions.watches, reorder := id }

-- The offset cannot be written when the deletion has just been read.
theorem notification_lost : ¬ Complete (fun _ => onlyPassage) (LogTailer.openFile none).offset deletionHub
    (run (fun _ => onlyPassage) (start deletion.encode none deletionHub) [.poll (.fails none)]) := by
  rintro ⟨records, read, -, fed⟩
  have silent : (run (fun _ => onlyPassage) (start deletion.encode none deletionHub)
      [.poll (.fails none)]).2 = [] := by decide
  have found : (ReplicationLog.readFrom ((run (fun _ => onlyPassage) (start deletion.encode none deletionHub)
      [.poll (.fails none)]).1.log.take (run (fun _ => onlyPassage) (start deletion.encode none deletionHub)
      [.poll (.fails none)]).1.tailer.offset) (LogTailer.openFile none).offset).toOption.map Prod.fst =
        some [deletion] := by decide
  rw [read] at found
  obtain rfl : records = [deletion] := Option.some.inj found
  have told : (deletionHub.feed (fun _ => onlyPassage) 0 [deletion]).2 ≠ [] := by decide
  rw [fed] at told
  exact told silent

end Delivery

end Gems.Subscribe
