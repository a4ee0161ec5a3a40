import Gems.Cluster.Replica

set_option autoImplicit false

namespace Gems.Cluster

open Lib Prog Catalog Engine Storage

section Statement

namespace Save

-- Which record comes after the `k`-th one.
def next : Save → Nat → Nat
  | succeeds, k => k + 1
  | skipped, k => k
  | emptied, _ => 0

theorem next_le (save : Save) (k : Nat) : save.next k ≤ k + 1 := by
  cases save with
  | succeeds => exact le_rfl
  | skipped => exact Nat.le_succ k
  | emptied => exact Nat.zero_le _

end Save

-- What the saves leave in the file, as a number of records.
def savedBy (k : Nat) (history : List (LogRecord × Save)) : Nat :=
  history.foldl (fun k step => step.2.next k) k

/-- The records are applied in the order of the log. None is skipped, and one is applied again only when its
offset was not saved. -/
def InOrder (records : List LogRecord) : Nat → List (LogRecord × Save) → Prop
  | _, [] => True
  | k, (record, save) :: rest => records[k]? = some record ∧ InOrder records (save.next k) rest

namespace Shipping

/-- The saved offset is a boundary of the log, and at its end the replica has what the primary has. -/
structure Converging (fuel : Nat) (s : Shipping) (records : List LogRecord) (offset : Nat) : Prop where
  read : ReplicationLog.readFrom s.primary.log 0 = .ok (records, s.primary.log.length)
  order : InOrder records 0 s.history
  boundary : ReplicationLog.readFrom (s.primary.log.take offset) 0 =
    .ok (records.take (savedBy 0 s.history), offset)
  same : offset = s.primary.log.length → ∀ id, ∃ found,
    s.replica.store.get fuel id = .ok found ∧ s.primary.store.get fuel id = .ok found

def Converges (fuel : Nat) (s : Shipping) : Prop :=
  ∃ records, s.Converging fuel records (ReplicaClient.loadOffset s.replica.offsetFile)

structure Roomy (s : Shipping) : Prop where
  primary : s.primary.store.data.extents.length ≤ 1000
  replica : s.replica.store.data.extents.length ≤ 1000
  log : s.primary.log.length < 2 ^ 64

-- Every state of the run in which something happens is so.
def RoomyRun (os : PageSize) (fuel : Nat) : List ShippingEvent → Shipping → Prop
  | [], _ => True
  | event :: rest, s => s.Roomy ∧ ∀ s', s.exec os fuel event = (.ok (), s') → RoomyRun os fuel rest s'

/-- Unless the page ids, the commit numbers or the ordinals of a store ran out. -/
def Ended (ran : Except Fault Unit × Shipping) (good : Shipping → Prop) : Prop :=
  match ran with
  | (.ok (), s) => good s
  | (.error e, s) => e = .panicked ∧ (Exhausted s.primary.store ∨ Exhausted s.replica.store)

theorem Ended.imp {ran : Except Fault Unit × Shipping} {good good' : Shipping → Prop} (ended : Ended ran good)
    (imp : ∀ s, good s → good' s) : Ended ran good' := by
  obtain ⟨result, s⟩ := ran
  cases result with
  | ok done => exact imp s ended
  | error e => exact ended

end Shipping

end Statement

section Offsets

variable {n k far : Nat} {records more : List LogRecord} {record : LogRecord} {save : Save}
  {history : List (LogRecord × Save)} {file : Option (List Char)}

-- Where the first `k` records end in the log.
def ends (records : List LogRecord) (k : Nat) : Nat := ((records.take k).flatMap LogRecord.encode).length

theorem ends_append (le : k ≤ records.length) : ends (records ++ more) k = ends records k := by
  rw [ends, List.take_append_of_le_length le]
  rfl

theorem ends_succ (here : records[k]? = some record) :
    ends records (k + 1) = ends records k + record.encode.length := by
  obtain ⟨inside, rfl⟩ := List.getElem?_eq_some_iff.mp here
  rw [ends, List.take_succ_eq_append_getElem inside, List.flatMap_append, List.length_append, List.flatMap_singleton]
  rfl

theorem flatMap_split (records : List LogRecord) (k : Nat) : records.flatMap LogRecord.encode =
    (records.take k).flatMap LogRecord.encode ++ (records.drop k).flatMap LogRecord.encode := by
  rw [← List.flatMap_append, List.take_append_drop]

theorem ends_le (records : List LogRecord) (k : Nat) :
    ends records k ≤ (records.flatMap LogRecord.encode).length := by
  rw [flatMap_split records k, List.length_append]
  exact Nat.le_add_right _ _

theorem readRawFrom_part (loggable : ∀ record ∈ records, Loggable record) {part : List UInt8}
    (within : part <+: records.flatMap LogRecord.encode) (le : k ≤ records.length) :
    ∃ j, k ≤ j ∧ j ≤ records.length ∧ ReplicationLog.readRawFrom part (ends records k) =
      .ok (((records.take j).drop k).flatMap LogRecord.encode, ends records j) := by
  have size : (records.take k).length = k := by
    rw [List.length_take, Nat.min_eq_left le]
  rw [flatMap_split records k] at within
  rcases List.prefix_or_prefix_of_prefix within (List.prefix_append _ _) with short | ⟨later, rfl⟩
  · refine ⟨k, le_rfl, le, ?_⟩
    have none : part.drop (ends records k) = [] := List.drop_eq_nil_of_le short.length_le
    rw [ReplicationLog.readRawFrom, none, List.drop_eq_nil_of_le size.le]
    rfl
  · have inner : later <+: (records.drop k).flatMap LogRecord.encode := (List.prefix_append_right_inj _).mp within
    have streams : ∀ record ∈ records.drop k, Streams LogRecord.decode record.encode record :=
      fun record mem => (loggable record (List.mem_of_mem_drop mem)).streams
    obtain ⟨whole, rest, tail, parts, rfl, waits⟩ := Streams.split rfl streams inner
    have front : records.take (k + whole.length) = records.take k ++ whole := by
      rw [List.take_add, parts, List.take_left]
    have fits : ∀ record ∈ whole, record.payload.length ≤ maxFrameLen := by
      intro record mem
      have inside : record ∈ records.drop k := parts ▸ List.mem_append_left rest mem
      exact (loggable record (List.mem_of_mem_drop inside)).small
    refine ⟨k + whole.length, Nat.le_add_right _ _, ?_, ?_⟩
    · have count := congrArg List.length parts
      rw [List.length_drop, List.length_append] at count
      omega
    · rw [ends, ReplicationLog.readRawFrom_records fits waits, ends, front, List.drop_left' size, List.flatMap_append,
        List.length_append]

theorem ends_full (le : k ≤ records.length) (full : ends records k = (records.flatMap LogRecord.encode).length) :
    k = records.length := by
  rw [flatMap_split records k, List.length_append, ends] at full
  have few : (records.drop k).length ≤ ((records.drop k).flatMap LogRecord.encode).length :=
    ReplicationLog.records_le_length
  rw [List.length_drop] at few
  omega

theorem loadOffset_decimal (small : n < 2 ^ 64) : ReplicaClient.loadOffset (some (decimal n)) = n := by
  rw [ReplicaClient.loadOffset, Option.bind_some, trim_decimal, parseUnsigned_decimal small]
  rfl

theorem loadOffset_saved (before : ReplicaClient.loadOffset file = ends records k)
    (here : records[k]? = some record) (small : ends records (k + 1) < 2 ^ 64) (save : Save) :
    ReplicaClient.loadOffset (ReplicaClient.saveOffset (ends records k + record.encode.length) file save).2 =
      ends records (save.next k) := by
  rw [← ends_succ here]
  cases save with
  | succeeds => exact loadOffset_decimal small
  | skipped => exact before
  | emptied => rfl

theorem trim_request (n : Nat) : trim (ReplicaClient.request n) = "SYNC ".toList ++ decimal n := by
  have full : "SYNC ".toList ++ decimal n ≠ [] := List.append_ne_nil_of_right_ne_nil _ decimal_ne_nil
  have last : isWhitespace (("SYNC ".toList ++ decimal n).getLast full) = false := by
    rw [List.getLast_append_of_ne_nil full decimal_ne_nil]
    exact not_isWhitespace_of_decimal (List.getLast_mem _)
  have first : isWhitespace (("SYNC ".toList ++ decimal n).head full) = false := rfl
  refine trim_line full first last fun c mem => ?_
  obtain rfl := List.mem_singleton.mp mem
  rfl

theorem parseRequest_request (small : n < 2 ^ 64) :
    ReplicationServer.parseRequest (ReplicaClient.request n) = .ok n := by
  have dropped : ("SYNC ".toList ++ decimal n).dropPrefix? "SYNC ".toList = some (decimal n) :=
    List.dropPrefix?_eq_some_iff.mpr ⟨_, rfl, beq_self_eq_true _⟩
  rw [ReplicationServer.parseRequest, trim_request, dropped, Option.bind_some, parseUnsigned_decimal small]

theorem savedBy_append : savedBy k (history ++ [(record, save)]) = save.next (savedBy k history) := by
  rw [savedBy, List.foldl_append]
  rfl

theorem InOrder.append (order : InOrder records k history) (here : records[savedBy k history]? = some record) :
    InOrder records k (history ++ [(record, save)]) := by
  induction history generalizing k with
  | nil => exact ⟨here, trivial⟩
  | cons step rest ih => exact ⟨order.1, ih order.2 here⟩

theorem InOrder.grow (order : InOrder records k history) (more : List LogRecord) :
    InOrder (records ++ more) k history := by
  induction history generalizing k with
  | nil => trivial
  | cons step rest ih =>
    have inside := (List.getElem?_eq_some_iff.mp order.1).1
    refine ⟨?_, ih order.2⟩
    rw [List.getElem?_append_left inside]
    exact order.1

end Offsets

section Invariant

variable {os : PageSize} {s s' : Shipping} {r : Replica} {c : Connection}
  {records more : List LogRecord} {record : LogRecord}
  {save : Save} {history : List (LogRecord × Save)} {k far depth depth' fuel : Nat} {slots : Slots} {ords : Ordinals}
  {ids : Reverse} {raw : Entities}

/-- The replica has the records up to `far`, and its file says that it has `k` of them. -/
structure Behind (os : PageSize) (r : Replica) (history : List (LogRecord × Save)) (records : List LogRecord)
    (k : Nat) (depth : Nat) : Prop where
  sound : ∃ slots ords ids raw far, Sound os r.store slots ords ids (shown raw) depth ∧
    CatchesUp (fun call map => Call.onMap call map) (records.map LogRecord.call) k far (fun _ => none) raw
  file : ReplicaClient.loadOffset r.offsetFile = ends records k
  order : InOrder records 0 history
  saved : savedBy 0 history = k

/-- What is on its way are whole records, and the replica takes them from where its file says. -/
structure Attached (records : List LogRecord) (k : Nat) (c : Connection) : Prop where
  offset : c.offset = ends records k
  stream : ∃ j, k ≤ j ∧ j ≤ records.length ∧ c.pos = ends records j ∧
    c.buf ++ c.wire = ((records.take j).drop k).flatMap LogRecord.encode

structure Following (os : PageSize) (s : Shipping) (records : List LogRecord) (k depth : Nat) : Prop where
  primary : ∃ slots ords ids, InStep os s.primary slots ords ids records depth
  behind : Behind os s.replica s.history records k depth
  attached : ∀ c ∈ s.connection, Attached records k c

theorem Behind.deeper (behind : Behind os r history records k depth) (deeper : depth ≤ depth') :
    Behind os r history records k depth' := by
  obtain ⟨slots, ords, ids, raw, far, sound, caught⟩ := behind.sound
  exact { behind with sound := ⟨slots, ords, ids, raw, far, sound.deeper deeper, caught⟩ }

theorem Behind.le (behind : Behind os r history records k depth) : k ≤ records.length := by
  obtain ⟨slots, ords, ids, raw, far, sound, caught⟩ := behind.sound
  have within := caught.behind.trans caught.within
  rwa [List.length_map] at within

theorem Behind.grow (behind : Behind os r history records k depth) (more : List LogRecord) :
    Behind os r history (records ++ more) k depth := by
  obtain ⟨slots, ords, ids, raw, far, sound, caught⟩ := behind.sound
  refine ⟨⟨slots, ords, ids, raw, far, sound, ?_⟩, ?_, behind.order.grow more, behind.saved⟩
  · rw [List.map_append]
    exact caught.grow _
  · rw [ends_append behind.le, behind.file]

theorem Attached.grow (attached : Attached records k c) (more : List LogRecord) : Attached (records ++ more) k c := by
  obtain ⟨j, le, within, pos, bytes⟩ := attached.stream
  refine ⟨?_, j, le, ?_, ?_, ?_⟩
  · rw [ends_append (le.trans within), attached.offset]
  · rw [List.length_append]
    exact Nat.le_add_right_of_le within
  · rw [ends_append within, pos]
  · rw [List.take_append_of_le_length within, bytes]

section Steps

theorem Following.connect (following : Following os s records k depth) (stopAfter : Option Nat)
    (small : s.primary.log.length < 2 ^ 64) : Following os (s.connect stopAfter) records k depth := by
  obtain ⟨slots, ords, ids, inStep⟩ := following.primary
  have short : ends records k < 2 ^ 64 := by
    rw [inStep.log] at small
    exact (ends_le records k).trans_lt small
  refine ⟨?_, ?_, ?_⟩ <;>
    simp only [Shipping.connect, following.behind.file, parseRequest_request short]
  · exact following.primary
  · exact following.behind
  · rintro c ⟨⟩
    refine ⟨rfl, k, le_rfl, following.behind.le, rfl, ?_⟩
    rw [List.drop_eq_nil_of_le (List.length_take_le _ _)]
    rfl

theorem Following.serve (following : Following os s records k depth) (here : s.connection = some c) (seen : Nat) :
    Following os (s.serve seen c) records k depth := by
  obtain ⟨slots, ords, ids, inStep⟩ := following.primary
  obtain ⟨offset, j, le, within, pos, bytes⟩ := following.attached c here
  have part : s.primary.log.take seen <+: records.flatMap LogRecord.encode := inStep.log ▸ List.take_prefix _ _
  obtain ⟨j', le', within', read⟩ := readRawFrom_part inStep.loggable part within
  refine ⟨?_, ?_, ?_⟩ <;> simp only [Shipping.serve, pos, read]
  · exact following.primary
  · exact following.behind
  · rintro c' ⟨⟩
    refine ⟨offset, j', le.trans le', within', rfl, ?_⟩
    rw [← List.append_assoc, bytes, drop_take_split records le le', List.flatMap_append]

theorem Following.read (following : Following os s records k depth) (here : s.connection = some c) (most : Nat) :
    Following os (s.read most c) records k depth := by
  rw [Shipping.read]
  split
  next =>
    refine ⟨following.primary, following.behind, ?_⟩
    rintro c' ⟨⟩
    obtain ⟨offset, j, le, within, pos, bytes⟩ := following.attached c here
    refine ⟨offset, j, le, within, pos, ?_⟩
    rw [List.append_assoc, List.take_append_drop, bytes]
  next => exact following

theorem Behind.applied (behind : Behind os r history records k depth) (loggable : Loggable record)
    (here : records[k]? = some record) (small : ends records (k + 1) < 2 ^ 64) (enough : depth ≤ fuel)
    (level : record.call.Leveled r.store) (save : Save) :
    match (record.apply os fuel).run r.store with
    | (.ok (), store) =>
      Behind os ⟨store, (ReplicaClient.saveOffset (ends records k + record.encode.length) r.offsetFile save).2⟩
        (history ++ [(record, save)]) records (save.next k) (depth + 1)
    | (.error e, store) => e = .panicked ∧ Exhausted store := by
  obtain ⟨slots, ords, ids, raw, far, sound, caught⟩ := behind.sound
  have ran := apply_of_exec loggable sound enough level
  cases made : (record.apply os fuel).run r.store with
  | mk result store =>
    rw [made] at ran
    cases result with
    | error e => exact ran
    | ok done =>
      obtain ⟨reply, slots', ords', ids', map', -, moved⟩ := ran
      obtain ⟨-, rfl⟩ := moved.onMap rfl sound
      have called : (records.map LogRecord.call)[k]? = some record.call := by
        rw [List.getElem?_map, here]
        rfl
      have order : records[savedBy 0 history]? = some record := behind.saved ▸ here
      have caught' := (caught.next called).back call_overwrites (save.next_le k)
      refine ⟨⟨slots', ords', ids', _, _, moved.sound sound, caught'⟩, ?_, behind.order.append order, ?_⟩
      · exact loadOffset_saved behind.file here small save
      · rw [savedBy_append, behind.saved]

theorem Following.apply (following : Following os s records k depth) (here : s.connection = some c)
    (enough : depth ≤ fuel) (small : s.primary.log.length < 2 ^ 64) (level : Level s.replica.store.data) (save : Save) :
    Shipping.Ended (s.apply os fuel save c) fun s' => ∃ k', Following os s' records k' (depth + 1) := by
  obtain ⟨slots, ords, ids, inStep⟩ := following.primary
  obtain ⟨offset, j, le, within, pos, bytes⟩ := following.attached c here
  have primary : ∃ slots ords ids, InStep os s.primary slots ords ids records (depth + 1) :=
    ⟨slots, ords, ids, { inStep with sound := inStep.sound.deeper (Nat.le_succ depth) }⟩
  have streams : ∀ record ∈ (records.take j).drop k, Streams LogRecord.decode record.encode record :=
    fun record mem => (inStep.loggable record (List.mem_of_mem_take (List.mem_of_mem_drop mem))).streams
  rw [Shipping.apply]
  rcases Streams.next rfl streams ⟨c.wire, bytes⟩ with waits | ⟨record, rest, tail, parts, buf, read⟩
  · rw [waits]
    exact ⟨k, primary, following.behind.deeper (Nat.le_succ depth), following.attached⟩
  have later : k < j := by
    have count := congrArg List.length parts
    rw [List.length_drop, List.length_take, List.length_cons] at count
    omega
  have next : records[k]? = some record ∧ (records.take j).drop (k + 1) = rest := by
    have inside : k < (records.take j).length := by
      rw [List.length_take]
      omega
    rw [List.drop_eq_getElem_cons inside, List.getElem_take] at parts
    obtain ⟨head, rest'⟩ := List.cons.inj parts
    exact ⟨head ▸ List.getElem?_eq_getElem _, rest'⟩
  obtain ⟨head, rest'⟩ := next
  have loggable : Loggable record := inStep.loggable record (List.mem_of_getElem? head)
  have short : ends records (k + 1) < 2 ^ 64 := by
    rw [inStep.log] at small
    exact (ends_le records (k + 1)).trans_lt small
  have ran := following.behind.applied loggable head short enough (record.call.leveled level) save
  rw [read]
  dsimp only
  cases made : (record.apply os fuel).run s.replica.store with
  | mk result store =>
    rw [made] at ran
    cases result with
    | error e =>
      obtain ⟨rfl, exhausted⟩ := ran
      exact ⟨rfl, .inr exhausted⟩
    | ok done =>
      rw [← offset] at ran
      have closed (c : Connection) (none : c ∈ (Option.none : Option Connection)) : Attached records (save.next k) c :=
        absurd none (Option.not_mem_none c)
      cases save with
      | skipped => exact ⟨k, primary, ran, closed⟩
      | emptied => exact ⟨0, primary, ran, closed⟩
      | succeeds =>
        simp only [ReplicaClient.saveOffset]
        split
        next => exact ⟨k + 1, primary, ran, closed⟩
        next =>
          refine ⟨k + 1, primary, ran, ?_⟩
          rintro c' ⟨⟩
          refine ⟨by rw [ends_succ head, offset], j, later, within, pos, ?_⟩
          rw [parts, List.flatMap_cons, buf, List.append_assoc, List.append_cancel_left_eq] at bytes
          rw [buf, List.drop_left, bytes, rest']

theorem Following.replicaReopens (following : Following os s records k depth) (enough : depth ≤ fuel)
    (level : Level s.replica.store.data) :
    Shipping.Ended (s.reopenReplica os fuel) fun s' => Following os s' records k (depth + 1) := by
  obtain ⟨slots, ords, ids, inStep⟩ := following.primary
  obtain ⟨slots', ords', ids', raw, far, sound, caught⟩ := following.behind.sound
  have flat : LevelAt os s.replica.store.data.extents.length := by
    rw [LevelAt, ← sound.data.held.mapped]
    exact level
  obtain ⟨store, opened, reopened⟩ := sound.onDisk.openDir (Set.Subset.refl _) flat enough
  rw [Shipping.reopenReplica, opened]
  refine ⟨⟨slots, ords, ids, { inStep with sound := inStep.sound.deeper (Nat.le_succ depth) }⟩, ?_, ?_⟩
  · exact { following.behind with
      sound := ⟨slots', ords', ids', raw, far, reopened.sound.deeper (Nat.le_succ depth), caught⟩ }
  · exact fun c none => absurd none (Option.not_mem_none c)

theorem Following.onPrimary (following : Following os s records k depth) (enough : depth < fuel) {event : PrimaryEvent}
    (faithful : event.Faithful os fuel s.primary) :
    Shipping.Ended (s.onPrimary os fuel event) fun s' => ∃ more, Following os s' (records ++ more) k (depth + 1) := by
  obtain ⟨slots, ords, ids, inStep⟩ := following.primary
  have ran := exec_inStep inStep enough faithful
  rw [Shipping.onPrimary]
  cases made : PrimaryStore.exec os fuel event s.primary with
  | mk result primary =>
    rw [made] at ran
    cases result with
    | error e =>
      obtain ⟨rfl, exhausted⟩ := ran
      exact ⟨rfl, .inl exhausted⟩
    | ok done =>
      obtain ⟨slots', ords', ids', more, -, inStep'⟩ := ran
      refine ⟨more, ⟨slots', ords', ids', inStep'⟩, ?_, fun c mem => (following.attached c mem).grow more⟩
      exact (following.behind.grow more).deeper (Nat.le_succ depth)

theorem Following.exec (small : os.size ≤ 16384) (following : Following os s records k depth) (enough : depth < fuel)
    (roomy : s.Roomy) (event : ShippingEvent) :
    Shipping.Ended (s.exec os fuel event) fun s' => ∃ more k', Following os s' (records ++ more) k' (depth + 1) := by
  obtain ⟨slots, ords, ids, inStep⟩ := following.primary
  obtain ⟨slots', ords', ids', raw, far, sound, -⟩ := following.behind.sound
  have level : Level s.primary.store.data := inStep.sound.level small roomy.primary
  have level' : Level s.replica.store.data := sound.level small roomy.replica
  -- Without a record from the primary.
  have still {s' : Shipping} {k' : Nat} (following : Following os s' records k' (depth + 1)) :
      ∃ more k', Following os s' (records ++ more) k' (depth + 1) := ⟨[], k', by rwa [List.append_nil]⟩
  have idle {s' : Shipping} (following : Following os s' records k depth) :
      ∃ more k', Following os s' (records ++ more) k' (depth + 1) := by
    obtain ⟨⟨slots, ords, ids, inStep⟩, behind, attached⟩ := following
    refine still ⟨⟨slots, ords, ids, ?_⟩, behind.deeper (Nat.le_succ depth), attached⟩
    exact { inStep with sound := inStep.sound.deeper (Nat.le_succ depth) }
  cases event with
  | primary command =>
    have faithful : (PrimaryEvent.call command).Faithful os fuel s.primary :=
      ⟨command.call.leveled level, trivial, trivial, trivial⟩
    exact (following.onPrimary enough faithful).imp fun s' ⟨more, following⟩ => ⟨more, k, following⟩
  | primaryReopens =>
    have faithful : PrimaryEvent.reopen.Faithful os fuel s.primary := ⟨level, trivial, trivial, trivial⟩
    exact (following.onPrimary enough faithful).imp fun s' ⟨more, following⟩ => ⟨more, k, following⟩
  | connect stopAfter =>
    rw [Shipping.exec]
    split
    next => exact idle (following.connect stopAfter roomy.log)
    next => exact idle following
  | serve seen =>
    rw [Shipping.exec]
    cases here : s.connection with
    | none => exact idle following
    | some c => exact idle (following.serve here seen)
  | read most =>
    rw [Shipping.exec]
    cases here : s.connection with
    | none => exact idle following
    | some c => exact idle (following.read here most)
  | apply save =>
    rw [Shipping.exec]
    cases here : s.connection with
    | none => exact idle following
    | some c =>
      exact (following.apply here enough.le roomy.log level' save).imp fun s' ⟨k', following⟩ => still following
  | disconnect =>
    exact idle ⟨following.primary, following.behind, fun c none => absurd none (Option.not_mem_none c)⟩
  | replicaReopens => exact (following.replicaReopens enough.le level').imp fun s' => still

end Steps

section Runs

theorem Following.run (small : os.size ≤ 16384) (following : Following os s records k depth)
    {events : List ShippingEvent} (enough : depth + events.length ≤ fuel) (roomy : Shipping.RoomyRun os fuel events s) :
    Shipping.Ended (Shipping.run os fuel events s) fun s' =>
      ∃ more k' depth', depth' ≤ fuel ∧ Following os s' (records ++ more) k' depth' := by
  induction events generalizing s records k depth with
  | nil => exact ⟨[], k, depth, enough, by rwa [List.append_nil]⟩
  | cons event rest ih =>
    rw [List.length_cons] at enough
    obtain ⟨now, later⟩ := roomy
    have step := following.exec small (by omega : depth < fuel) now event
    rw [Shipping.run]
    cases made : s.exec os fuel event with
    | mk result s' =>
      rw [made] at step
      cases result with
      | error e => exact step
      | ok done =>
        obtain ⟨more, k', following'⟩ := step
        refine (ih following' (by omega) (later s' made)).imp ?_
        rintro s'' ⟨more', k'', depth', shallow, following''⟩
        exact ⟨more ++ more', k'', depth', shallow, List.append_assoc .. ▸ following''⟩

theorem Following.converges (following : Following os s records k depth) (enough : depth ≤ fuel) :
    s.Converges fuel := by
  obtain ⟨⟨slots, ords, ids, inStep⟩, behind, -⟩ := following
  have reads {part : List LogRecord} (inside : ∀ record ∈ part, record ∈ records) :
      ReplicationLog.readFrom (part.flatMap LogRecord.encode) 0 =
        .ok (part, (part.flatMap LogRecord.encode).length) := by
    have fits : ∀ record ∈ part, record.payload.length ≤ maxFrameLen :=
      fun record mem => (inStep.loggable record (inside record mem)).small
    have same : part.map LogRecord.stored = part :=
      (List.map_congr_left fun record mem => (inStep.loggable record (inside record mem)).stored_eq).trans
        (List.map_id _)
    have read : ReplicationLog.readFrom ([] ++ (part.flatMap LogRecord.encode ++ [])) [].length = _ :=
      ReplicationLog.readFrom_records fits rfl
    rw [same, List.nil_append, List.append_nil] at read
    simpa using read
  refine ⟨records, ?_, behind.order, ?_, ?_⟩
  · rw [inStep.log]
    exact reads fun record mem => mem
  · rw [behind.file, behind.saved, inStep.log, flatMap_split records k, ends, List.take_left]
    exact reads fun record mem => List.mem_of_mem_take mem
  · intro full id
    rw [behind.file, inStep.log] at full
    obtain rfl := ends_full behind.le full
    obtain ⟨slots', ords', ids', raw, far, sound, caught⟩ := behind.sound
    rw [← List.length_map LogRecord.call] at caught
    obtain rfl := caught.done
    exact ⟨_, sound.get enough id, inStep.sound.get enough id⟩

theorem shipping_created (os : PageSize) : ∃ store p s, Store.create os = .ok store ∧
    PrimaryStore.create os = .ok p ∧ Shipping.create os = .ok s ∧ p = { store, log := [] } ∧
    s = { primary := p, replica := { store, offsetFile := none }, connection := none, history := [] } ∧
    store.data.extents.length = 0 := by
  obtain ⟨store, p, created, created', same, none⟩ := primary_created os
  refine ⟨store, p, _, created, created', ?_, same, rfl, none⟩
  rw [Shipping.create, created', created]
  rfl

theorem created_following (created : Shipping.create os = .ok s) : Following os s [] 0 0 := by
  obtain ⟨store, p, s', made, made', created', -, rfl, -⟩ := shipping_created os
  obtain rfl := Except.ok.inj (created'.symm.trans created)
  have sound := (create_settled made).synced.sound
  refine ⟨⟨_, _, _, created_inStep made'⟩, ⟨⟨_, _, _, _, 0, sound, ?_⟩, rfl, trivial, rfl⟩, ?_⟩
  · exact CatchesUp.start _ _ _
  · exact fun c none => absurd none (Option.not_mem_none c)

theorem replica_converges (small : os.size ≤ 16384) (created : Shipping.create os = .ok s)
    {events : List ShippingEvent} (enough : events.length ≤ fuel) (roomy : Shipping.RoomyRun os fuel events s) :
    Shipping.Ended (Shipping.run os fuel events s) (Shipping.Converges fuel) := by
  have ran := (created_following created).run small ((Nat.zero_add _).trans_le enough) roomy
  exact ran.imp fun s' ⟨records, k, depth, shallow, following⟩ => following.converges shallow

-- The events that leave the stores and the log alone.
def ShippingEvent.still : ShippingEvent → Bool
  | .connect _ => true
  | .serve _ => true
  | .read _ => true
  | .disconnect => true
  | _ => false

theorem Shipping.Roomy.still (roomy : s.Roomy) {event : ShippingEvent} (still : event.still = true)
    (ran : s.exec os fuel event = (.ok (), s')) : s'.Roomy := by
  have kept : s'.primary = s.primary ∧ s'.replica = s.replica := by
    cases event with
    | connect stopAfter =>
      obtain rfl := (Prod.mk.inj ran).2
      split
      next =>
        rw [Shipping.connect]
        split <;> exact ⟨rfl, rfl⟩
      next => exact ⟨rfl, rfl⟩
    | serve seen =>
      obtain rfl := (Prod.mk.inj ran).2
      cases s.connection with
      | none => exact ⟨rfl, rfl⟩
      | some c =>
        rw [Option.elim_some, Shipping.serve]
        split <;> exact ⟨rfl, rfl⟩
    | read most =>
      obtain rfl := (Prod.mk.inj ran).2
      cases s.connection with
      | none => exact ⟨rfl, rfl⟩
      | some c =>
        rw [Option.elim_some, Shipping.read]
        split <;> exact ⟨rfl, rfl⟩
    | disconnect =>
      obtain rfl := (Prod.mk.inj ran).2
      exact ⟨rfl, rfl⟩
    | _ => cases still
  exact ⟨kept.1 ▸ roomy.primary, kept.2 ▸ roomy.replica, kept.1 ▸ roomy.log⟩

theorem length_encode_le {most : Nat} (few : more.length ≤ 1)
    (small : ∀ record ∈ more, record.payload.length ≤ most) : (more.flatMap LogRecord.encode).length ≤ 4 + most := by
  cases more with
  | nil => exact Nat.zero_le _
  | cons record rest =>
    obtain rfl : rest = [] := List.length_eq_zero_iff.mp (Nat.le_zero.mp (Nat.le_of_succ_le_succ few))
    simpa [LogRecord.encode] using small record List.mem_cons_self

theorem Shipping.Roomy.primary_next (small : os.size ≤ 16384) (following : Following os s records k depth)
    (enough : depth < fuel) (roomy : s.Roomy) (command : LogRecord)
    (ran : s.exec os fuel (.primary command) = (.ok (), s')) :
    s'.primary.store.data.extents.length ≤ s.primary.store.data.extents.length + 1 ∧
      s'.primary.log.length ≤ s.primary.log.length + (4 + maxFrameLen) ∧ s'.replica = s.replica := by
  obtain ⟨slots, ords, ids, inStep⟩ := following.primary
  have level : Level s.primary.store.data := inStep.sound.level small roomy.primary
  have ended := call_done inStep enough (command.call.leveled level)
  rw [Shipping.exec, Shipping.onPrimary] at ran
  cases made : PrimaryStore.exec os fuel (.call command) s.primary with
  | mk result primary =>
    rw [made] at ended ran
    obtain ⟨rfl, rfl⟩ := Prod.mk.inj ran
    rcases ended with rfl | done
    · exact ⟨Nat.le_succ _, Nat.le_add_right _ _, rfl⟩
    obtain ⟨_, _, _, more, few, inStep'⟩ := done.inStep inStep
    obtain ⟨reply, _, _, _, _, moved, -⟩ := done
    refine ⟨moved.count, ?_, rfl⟩
    have size : (more.flatMap LogRecord.encode).length ≤ 4 + maxFrameLen :=
      length_encode_le few fun record mem => (inStep'.loggable record (List.mem_append_right _ mem)).small
    dsimp only
    rw [inStep'.log, inStep.log, List.flatMap_append, List.length_append]
    exact Nat.add_le_add_left size _

def unsavedEvents : List ShippingEvent :=
  [.primary firstEntity, .connect none, .serve 1000, .read 4096, .apply .skipped]

set_option maxRecDepth 4000 in
theorem replica_converges_unsaved : ∃ s, Shipping.create fourKiB = .ok s ∧
    Shipping.Ended (Shipping.run fourKiB 5 unsavedEvents s) (Shipping.Converges 5) := by
  have small : fourKiB.size ≤ 16384 := show 4096 ≤ 16384 by omega
  obtain ⟨store, p, s, -, -, created, rfl, rfl, none⟩ := shipping_created fourKiB
  have roomy : Shipping.Roomy ⟨⟨store, []⟩, ⟨store, .none⟩, .none, []⟩ := by
    constructor <;> simp [none]
  refine ⟨_, created, replica_converges small created le_rfl ⟨roomy, fun s₁ ran₁ => ?_⟩⟩
  have following := created_following created
  obtain ⟨extents, log, replica⟩ := roomy.primary_next small following (by omega) firstEntity ran₁
  have roomy₁ : s₁.Roomy := by
    refine ⟨extents.trans (by simp [none]), replica ▸ roomy.replica, log.trans_lt ?_⟩
    simp [maxFrameLen]
  refine ⟨roomy₁, fun s₂ ran₂ => ?_⟩
  have roomy₂ := roomy₁.still rfl ran₂
  refine ⟨roomy₂, fun s₃ ran₃ => ?_⟩
  have roomy₃ := roomy₂.still rfl ran₃
  exact ⟨roomy₃, fun s₄ ran₄ => ⟨roomy₃.still rfl ran₄, fun s₅ _ => trivial⟩⟩

end Runs

end Invariant

end Gems.Cluster
