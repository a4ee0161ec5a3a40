import Gems.Engine.Settled
import Gems.Engine.Stops

set_option autoImplicit false

namespace Gems.Engine

open Lib Prog Catalog Index Storage

variable {os : PageSize} {s s' : Store} {slots slots' : Slots} {ords ords' : Ordinals} {ids ids' : Reverse}
  {map map' raw raw' : Entities} {depth fuel n writes requests : Nat}
  {limit : Limit} {id : Tuid} {call : Call} {reply : Reply}

section Events

/-- What happens to a store: a call, a call of which only the first file writes get done, and the next open, or a
call that gives an error because a system call fails after the first ones; then the store stays in use. -/
inductive Event where
  | call (call : Call)
  | stopped (call : Call) (writes : Nat)
  | failing (call : Call) (requests : Nat)

-- A call that was stopped, or gave an error, leaves its files and what is in memory.
def leftBy {A S : Type} : Except Fault A × S → Except Fault Unit × S
  | (.ok _, s) => (.ok (), s)
  | (.error .stopped, s) => (.ok (), s)
  | (.error .refused, s) => (.ok (), s)
  | (.error (.raised _), s) => (.ok (), s)
  | (.error e, s) => (.error e, s)

-- An open changes no file, and one that fails gives no store.
def Call.cutShort (os : PageSize) (fuel : Nat) (limit : Limit) : Call → Store → Except Fault Unit × Store
  | .insert header body, s => leftBy ((Store.insert os fuel header body).runWith limit s)
  | .delete id, s => leftBy ((Store.delete os fuel id).runWith limit s)
  | .reopen, s => (.ok (), s)

def reopened (os : PageSize) (fuel : Nat) (s : Store) : Except Fault Unit × Store :=
  match Store.openDir os fuel s.onDisk with
  | .ok s' => (.ok (), s')
  | .error e => (.error e, s)

def Event.exec (os : PageSize) (fuel : Nat) : Event → Store → Except Fault Unit × Store
  | .call call, s =>
    match call.exec os fuel s with
    | (.ok _, s') => (.ok (), s')
    | (.error e, s') => (.error e, s')
  | .stopped call writes, s =>
    match call.cutShort os fuel (.stop writes) s with
    | (.ok (), s') => reopened os fuel s'
    | (.error e, s') => (.error e, s')
  | .failing call requests, s => call.cutShort os fuel (.refuse requests) s

def runEvents (os : PageSize) (fuel : Nat) : List Event → Store → Except Fault Unit × Store
  | [], s => (.ok (), s)
  | event :: rest, s =>
    match event.exec os fuel s with
    | (.ok (), s') => runEvents os fuel rest s'
    | (.error e, s') => (.error e, s')

-- The property of every event and the store before it.
def Throughout (os : PageSize) (fuel : Nat) (holds : Event → Store → Prop) : List Event → Store → Prop
  | [], _ => True
  | event :: rest, s => holds event s ∧
    match event.exec os fuel s with
    | (.ok (), s') => Throughout os fuel holds rest s'
    | (.error _, _) => True

theorem Throughout.cons {holds : Event → Store → Prop} {event : Event} {rest : List Event} (now : holds event s)
    (later : ∀ s', event.exec os fuel s = (.ok (), s') → Throughout os fuel holds rest s') :
    Throughout os fuel holds (event :: rest) s := by
  refine ⟨now, ?_⟩
  split
  next s' made => exact later s' made
  next => trivial

theorem Throughout.and {holds holds' : Event → Store → Prop} {events : List Event}
    (all : Throughout os fuel holds events s) (all' : Throughout os fuel holds' events s) :
    Throughout os fuel (fun event s => holds event s ∧ holds' event s) events s := by
  induction events generalizing s with
  | nil => trivial
  | cons event rest ih =>
    refine .cons ⟨all.1, all'.1⟩ fun s' made => ?_
    have later := all.2
    have later' := all'.2
    rw [made] at later later'
    exact ih later later'

-- The length of a data file with `n` extents tells how many they are.
def LevelAt (os : PageSize) (n : Nat) : Prop := n * stride os / extentSize = n

def Event.Leveled (os : PageSize) : Event → Store → Prop
  | .call call, s => call.Leveled s
  | .stopped (.insert _ body) _, s => LevelAt os s.data.extents.length ∧
    (Grows s.data (encodedLen + body.length) → LevelAt os (s.data.extents.length + 1))
  | .stopped _ _, s => LevelAt os s.data.extents.length
  | .failing .reopen _, _ => True
  | .failing call _, s => call.Leveled s

-- The sync of a new extent's header does not fail: the extent would be in the file and not in memory.
def Event.Enlisted : Event → Store → Prop
  | .failing (.insert _ body) requests, s => Grows s.data (encodedLen + body.length) → requests ≠ 1
  | _, _ => True

-- An overwrite does not end between the release of the old slot and the new root of the primary index.
def Call.Untorn (os : PageSize) (fuel : Nat) (limit : Limit) : Call → Store → Prop
  | .insert header body, s => s.get fuel header.id ≠ .ok none →
    Store.Released os fuel limit header body s → Store.Published os fuel limit header body s
  | _, _ => True

def Event.Untorn (os : PageSize) (fuel : Nat) : Event → Store → Prop
  | .call _, _ => True
  | .stopped call writes, s => call.Untorn os fuel (.stop writes) s
  | .failing call requests, s => call.Untorn os fuel (.refuse requests) s

/-- What a call that was stopped has done, as the files show. -/
inductive Halved (os : PageSize) (fuel : Nat) (limit : Limit) (s : Store) (slots : Slots) (ords : Ordinals)
    (ids : Reverse) (map : Entities) : Call → Slots → Ordinals → Reverse → Entities → Prop where
  | idle (call : Call) : Halved os fuel limit s slots ords ids map call slots ords ids map
  | unpublished {header : EntityHeader} {body : List UInt8} {ords' : Ordinals} {ids' : Reverse}
    (numbering : Numbering ords ids s.nextOrdinal header.id ords' ids')
    (unlisted : ¬ Store.Listed os fuel limit header body s → ids' = ids) :
    Halved os fuel limit s slots ords ids map (.insert header body) slots ords' ids' map
  | published {header : EntityHeader} {body : List UInt8} {p : SlotPointer} {ord : Ordinal} {ords' : Ordinals}
    {ids' : Reverse} {next' : UInt32} (fits : Fits body) (here : Store.Published os fuel limit header body s)
    (numbered : Numbered ords ids s.nextOrdinal header.id ord ords' ids' next') :
    Halved os fuel limit s slots ords ids map (.insert header body) (Function.update slots header.id (some p))
      ords' ids' (Function.update map header.id (some (stored header body)))
  | retiring {id : Tuid} {ord : Ordinal} {ords' : Ordinals} {ids' : Reverse} (present : slots id ≠ none)
    (erased : Store.Erased os fuel limit id s) (here : ords id = some ord)
    (retiring : Retiring ords ids id ord ords' ids') :
    Halved os fuel limit s slots ords ids map (.delete id) (Function.update slots id none) ords' ids'
      (Function.update map id none)

theorem OnDisk.deeper {live : Set SlotPointer} {depth' : Nat}
    (disk : OnDisk os s slots ords ids map depth n live) (deeper : depth ≤ depth') :
    OnDisk os s slots ords ids map depth' n live :=
  { disk with
    primary := disk.primary.deeper deeper
    ordinalById := disk.ordinalById.deeper deeper
    idByOrdinal := disk.idByOrdinal.deeper deeper }

theorem Inserted.counted {header : EntityHeader} {body : List UInt8} {p : SlotPointer} {ord : Ordinal}
    (inserted : Inserted os s slots ords ids map depth header body s' p ord ords' ids') :
    Counted s body s'.data.extents.length := inserted.count

/-- The files that a call leaves when it is stopped, and not while it overwrites an entity. -/
structure Stopped (os : PageSize) (fuel : Nat) (limit : Limit) (s : Store)
    (slots : Slots) (ords : Ordinals) (ids : Reverse)
    (map : Entities) (depth : Nat) (call : Call) (s' : Store) (slots' : Slots) (ords' : Ordinals) (ids' : Reverse)
    (map' : Entities) (n : Nat) : Prop where
  halved : Halved os fuel limit s slots ords ids map call slots' ords' ids' map'
  count : n ≤ s.data.extents.length + 1
  level : LevelAt os n
  disk : OnDisk os s' slots' ords' ids' map' depth n (slotSet slots')

theorem Sound.whole (sound : Sound os s slots ords ids map depth) (enough : depth ≤ fuel) {header : EntityHeader}
    {body : List UInt8} (untorn : (Call.insert header body).Untorn os fuel limit s) (present : slots header.id ≠ none)
    (released : Store.Released os fuel limit header body s) : Store.Published os fuel limit header body s := by
  refine untorn ?_ released
  rw [sound.get enough, ne_eq, Except.ok.injEq]
  exact (sound.present_iff header.id).mp present

theorem stopped_spec (sound : Sound os s slots ords ids map depth) (enough : depth ≤ fuel) (call : Call)
    (writes : Nat) (level : (Event.stopped call writes).Leveled os s)
    (untorn : (Event.stopped call writes).Untorn os fuel s) :
    match call.cutShort os fuel (.stop writes) s with
    | (.ok (), s') => ∃ slots' ords' ids' map' n,
      Stopped os fuel (.stop writes) s slots ords ids map (depth + 1) call s' slots' ords' ids' map' n
    | (.error e, s') => e = .panicked ∧ Exhausted s' := by
  have deeper := Nat.le_succ depth
  have same := sound.onDisk.deeper deeper
  have more := Nat.le_succ s.data.extents.length
  cases call with
  | reopen => exact ⟨slots, ords, ids, map, _, .idle _, more, level, same⟩
  | delete id =>
    have ran := delete_cut sound enough id (.stop writes)
    rw [Call.cutShort]
    cases made : (Store.delete os fuel id).runWith (.stop writes) s with
    | mk result s' =>
      rw [made] at ran
      cases result with
      | ok existed =>
        rcases ran with ⟨-, missing⟩ | ⟨-, erased, ord, deleted⟩
        · obtain ⟨t, rfl⟩ := missing.same
          exact ⟨slots, ords, ids, map, _, .idle _, more, level, missing.sound.onDisk.deeper deeper⟩
        · have count : s'.data.extents.length = s.data.extents.length := congrArg List.length deleted.extents
          refine ⟨_, _, _, _, _, .retiring deleted.present erased deleted.here .retired, count.le.trans more, ?_,
            deleted.sound.onDisk.deeper deeper⟩
          rw [count]
          exact level
      | error e =>
        obtain ⟨cut, allows⟩ := ran
        cases cut with
        | panicked exhausted => exact ⟨rfl, exhausted⟩
        | kept kept =>
          obtain rfl := allows.stopped kept.outside
          exact ⟨slots, ords, ids, map, _, .idle _, more, level, kept.disk.deeper deeper⟩
        | erased erased left =>
          obtain ⟨ord, ords', ids', present, here, retiring, left⟩ := left
          obtain rfl := allows.stopped left.outside
          exact ⟨_, ords', ids', _, _, .retiring present erased here retiring, more, level, left.disk.deeper deeper⟩
        | deleted => cases allows.stopped (.inr rfl)
  | insert header body =>
    obtain ⟨flat, grown⟩ := level
    have counted {n : Nat} (count : Counted s body n) : n ≤ s.data.extents.length + 1 ∧ LevelAt os n := by
      rcases count with rfl | ⟨grows, rfl⟩
      · exact ⟨more, flat⟩
      · exact ⟨le_rfl, grown grows⟩
    have mapped : Level s.data := by
      rw [Level, sound.data.held.mapped]
      exact flat
    have ran := insert_cut sound enough (fun _ => mapped) (.stop writes) (fun _ => Limit.stop_ne_refuse writes 1)
      (sound.whole enough untorn)
    rw [Call.cutShort]
    cases made : (Store.insert os fuel header body).runWith (.stop writes) s with
    | mk result s' =>
      rw [made] at ran
      cases result with
      | ok done =>
        obtain ⟨here, p, ord, ords', ids', inserted⟩ := ran
        have count := counted inserted.counted
        exact ⟨_, ords', ids', _, _, .published inserted.small here inserted.numbered, count.1, count.2,
          inserted.sound.onDisk⟩
      | error e =>
        obtain ⟨cut, allows⟩ := ran
        cases cut with
        | large => exact ⟨slots, ords, ids, map, _, .idle _, more, flat, same⟩
        | panicked exhausted => exact ⟨rfl, exhausted⟩
        | old old unpublished unlisted =>
          obtain rfl := allows.stopped old.outside
          obtain ⟨m, ords', ids', count, numbering, left⟩ := old
          refine ⟨slots, ords', ids', map, m, .unpublished numbering fun no => ?_, (counted count).1,
            (counted count).2, left.disk⟩
          exact left.disk.idByOrdinal.unique reverse_caps (unlisted no)
        | new here new =>
          obtain ⟨m, p, ord, ords', ids', small, count, numbered, left⟩ := new
          obtain rfl := allows.stopped left.outside
          exact ⟨_, ords', ids', _, m, .published small here numbered, (counted count).1, (counted count).2,
            left.disk⟩

/-- What a call that gave an error has done to a store at rest, which it leaves at rest. -/
inductive Failed (os : PageSize) (fuel : Nat) (limit : Limit) (s : Store) (slots : Slots) (ords : Ordinals)
    (ids : Reverse) (map : Entities) (depth : Nat) : Call → Store → Slots → Ordinals → Reverse → Entities → Prop where
  | idle {call : Call} {s' : Store} (sound : Sound os s' slots ords ids map depth) (indexes : SameIndexes s' s)
    (count : s'.data.extents.length = s.data.extents.length) :
    Failed os fuel limit s slots ords ids map depth call s' slots ords ids map
  | unpublished {header : EntityHeader} {body : List UInt8} {s' indexed : Store} {ords' : Ordinals} {ids' : Reverse}
    (sound : Sound os s' slots ords' ids' map depth)
    (numbering : Numbering ords ids s.nextOrdinal header.id ords' ids') (indexes : SameIndexes s' indexed)
    (unlisted : ¬ Store.Listed os fuel limit header body s → ids' = ids)
    (unreleased : ¬ Store.Released os fuel limit header body s → indexed = s)
    (here : ¬ Store.Published os fuel limit header body s) (count : Counted s body s'.data.extents.length) :
    Failed os fuel limit s slots ords ids map depth (.insert header body) s' slots ords' ids' map
  | inserted {header : EntityHeader} {body : List UInt8} {s' : Store} {p : SlotPointer} {ord : Ordinal}
    {ords' : Ordinals} {ids' : Reverse} (here : Store.Published os fuel limit header body s)
    (inserted : Inserted os s slots ords ids map depth header body s' p ord ords' ids') :
    Failed os fuel limit s slots ords ids map depth (.insert header body) s'
      (Function.update slots header.id (some p)) ords' ids' (Function.update map header.id (some (stored header body)))
  | retiring {id : Tuid} {ord : Ordinal} {s' : Store} {ords' : Ordinals} {ids' : Reverse} (present : slots id ≠ none)
    (erased : Store.Erased os fuel limit id s) (unretired : ¬ Store.Retired os fuel limit id s)
    (here : ords id = some ord) (retiring : Retiring ords ids id ord ords' ids')
    (sound : Sound os s' (Function.update slots id none) ords' ids' (Function.update map id none) depth)
    (indexes : SameIndexes s' s) (count : s'.data.extents.length = s.data.extents.length) :
    Failed os fuel limit s slots ords ids map depth (.delete id) s' (Function.update slots id none) ords' ids'
      (Function.update map id none)
  | deleted {id : Tuid} {ord : Ordinal} {s' : Store} (erased : Store.Erased os fuel limit id s)
    (deleted : Deleted os s slots ords ids map depth id ord s') :
    Failed os fuel limit s slots ords ids map depth (.delete id) s' (Function.update slots id none)
      (Function.update ords id none) (Function.update ids ord none) (Function.update map id none)

theorem SameIndexes.refl (s : Store) : SameIndexes s s := ⟨rfl, rfl, rfl⟩

theorem failing_spec (sound : Sound os s slots ords ids map depth) (enough : depth ≤ fuel) (call : Call)
    (requests : Nat) (level : (Event.failing call requests).Leveled os s)
    (enlisted : (Event.failing call requests).Enlisted s) (untorn : (Event.failing call requests).Untorn os fuel s) :
    match call.cutShort os fuel (.refuse requests) s with
    | (.ok (), s') => ∃ slots' ords' ids' map',
      Failed os fuel (.refuse requests) s slots ords ids map (depth + 1) call s' slots' ords' ids' map'
    | (.error e, s') => e = .panicked ∧ Exhausted s' := by
  have deeper := Nat.le_succ depth
  have idle : Failed os fuel (.refuse requests) s slots ords ids map (depth + 1) call s slots ords ids map :=
    .idle (sound.deeper deeper) (.refl s) rfl
  cases call with
  | reopen => exact ⟨slots, ords, ids, map, idle⟩
  | delete id =>
    have ran := delete_cut sound enough id (.refuse requests)
    rw [Call.cutShort]
    cases made : (Store.delete os fuel id).runWith (.refuse requests) s with
    | mk result s' =>
      rw [made] at ran
      cases result with
      | ok existed =>
        rcases ran with ⟨-, missing⟩ | ⟨-, erased, ord, deleted⟩
        · obtain ⟨t, rfl⟩ := missing.same
          exact ⟨slots, ords, ids, map, .idle (missing.sound.deeper deeper) ⟨rfl, rfl, rfl⟩ rfl⟩
        · exact ⟨_, _, _, _, .deleted erased { deleted with sound := deleted.sound.deeper deeper }⟩
      | error e =>
        obtain ⟨cut, allows⟩ := ran
        cases cut with
        | panicked exhausted => exact ⟨rfl, exhausted⟩
        | kept kept =>
          obtain rfl := allows.refused kept.outside
          obtain ⟨sound', count, indexes⟩ := kept.sound
          exact ⟨slots, ords, ids, map, .idle (sound'.deeper deeper) indexes count⟩
        | erased erased left unretired =>
          obtain ⟨ord, ords', ids', present, here, retiring, left⟩ := left
          obtain rfl := allows.refused left.outside
          obtain ⟨sound', count, indexes⟩ := left.sound
          exact ⟨_, ords', ids', _, .retiring present erased (unretired rfl) here retiring (sound'.deeper deeper)
            indexes count⟩
        | deleted erased deleted =>
          exact ⟨_, _, _, _, .deleted erased { deleted with sound := deleted.sound.deeper deeper }⟩
  | insert header body =>
    have ran := insert_cut sound enough level (.refuse requests)
      (fun grows one => enlisted grows (Limit.refuse.inj one)) (sound.whole enough untorn)
    rw [Call.cutShort]
    cases made : (Store.insert os fuel header body).runWith (.refuse requests) s with
    | mk result s' =>
      rw [made] at ran
      cases result with
      | ok done =>
        obtain ⟨here, p, ord, ords', ids', inserted⟩ := ran
        exact ⟨_, ords', ids', _, .inserted here inserted⟩
      | error e =>
        obtain ⟨cut, allows⟩ := ran
        cases cut with
        | large => exact ⟨slots, ords, ids, map, idle⟩
        | panicked exhausted => exact ⟨rfl, exhausted⟩
        | old old unpublished unlisted unreleased =>
          obtain rfl := allows.refused old.outside
          obtain ⟨m, ords', ids', count, numbering, left⟩ := old
          obtain ⟨sound', rfl, indexes⟩ := left.sound
          refine ⟨slots, ords', ids', map, .unpublished sound' numbering indexes (fun no => ?_) unreleased unpublished
            count⟩
          exact sound'.idByOrdinal.onFile.unique reverse_caps (unlisted no)
        | new here new =>
          obtain rfl := allows.refused (by obtain ⟨_, _, _, _, _, -, -, -, left⟩ := new; exact left.outside)
          obtain ⟨p, ord, ords', ids', inserted⟩ := new.inserted
          exact ⟨_, ords', ids', _, .inserted here inserted⟩

/-- What an event has done to a store at rest. -/
inductive Befell (os : PageSize) (fuel : Nat) (s : Store) (slots : Slots) (ords : Ordinals) (ids : Reverse)
    (map : Entities) (depth : Nat) : Event → Store → Slots → Ordinals → Reverse → Entities → Prop where
  | called {call : Call} {reply : Reply} {s' : Store} {slots' : Slots} {ords' : Ordinals} {ids' : Reverse}
    {map' : Entities} (moved : Moved os s slots ords ids map depth call reply s' slots' ords' ids' map') :
    Befell os fuel s slots ords ids map depth (.call call) s' slots' ords' ids' map'
  | stopped {call : Call} {writes n : Nat} {s' : Store} {slots' : Slots} {ords' : Ordinals} {ids' : Reverse}
    {map' : Entities} (halved : Halved os fuel (.stop writes) s slots ords ids map call slots' ords' ids' map')
    (count : n ≤ s.data.extents.length + 1) (reopened : Reopened os slots' ords' ids' map' (depth + 1) n s') :
    Befell os fuel s slots ords ids map depth (.stopped call writes) s' slots' ords' ids' map'
  | failed {call : Call} {requests : Nat} {s' : Store} {slots' : Slots} {ords' : Ordinals} {ids' : Reverse}
    {map' : Entities}
    (failed : Failed os fuel (.refuse requests) s slots ords ids map (depth + 1) call s' slots' ords' ids' map') :
    Befell os fuel s slots ords ids map depth (.failing call requests) s' slots' ords' ids' map'

-- No open or growth of the data file miscounts its extents, and no overwrite ends where it is torn.
def Steady (os : PageSize) (fuel : Nat) (event : Event) (s : Store) : Prop :=
  event.Leveled os s ∧ event.Enlisted s ∧ event.Untorn os fuel s

theorem event_spec (sound : Sound os s slots ords ids map depth) (enough : depth < fuel) (event : Event)
    (steady : Steady os fuel event s) :
    match event.exec os fuel s with
    | (.ok (), s') => ∃ slots' ords' ids' map',
      Befell os fuel s slots ords ids map depth event s' slots' ords' ids' map'
    | (.error e, s') => e = .panicked ∧ Exhausted s' := by
  obtain ⟨level, enlisted, untorn⟩ := steady
  cases event with
  | call call =>
    have ran := exec_moved sound enough.le call level
    rw [Event.exec]
    cases made : call.exec os fuel s with
    | mk result s' =>
      rw [made] at ran
      cases result with
      | error e => exact ran
      | ok reply =>
        obtain ⟨slots', ords', ids', map', moved⟩ := ran
        exact ⟨slots', ords', ids', map', .called moved⟩
  | stopped call writes =>
    have ran := stopped_spec sound enough.le call writes level untorn
    rw [Event.exec]
    cases made : call.cutShort os fuel (.stop writes) s with
    | mk result t =>
      rw [made] at ran
      cases result with
      | error e => exact ran
      | ok done =>
        obtain ⟨slots', ords', ids', map', n, halved, count, level', disk⟩ := ran
        obtain ⟨s', opened, here⟩ := disk.openDir (Set.Subset.refl _) level' enough
        dsimp only [reopened]
        rw [opened]
        exact ⟨slots', ords', ids', map', .stopped halved count here⟩
  | failing call requests =>
    have ran := failing_spec sound enough.le call requests level enlisted untorn
    rw [Event.exec]
    cases made : call.cutShort os fuel (.refuse requests) s with
    | mk result s' =>
      rw [made] at ran
      cases result with
      | error e => exact ran
      | ok done =>
        obtain ⟨slots', ords', ids', map', failed⟩ := ran
        exact ⟨slots', ords', ids', map', .failed failed⟩

theorem Failed.sound (failed : Failed os fuel limit s slots ords ids map depth call s' slots' ords' ids' map') :
    Sound os s' slots' ords' ids' map' depth := by
  cases failed with
  | idle sound => exact sound
  | unpublished sound => exact sound
  | inserted here inserted => exact inserted.sound
  | retiring present erased unretired here retiring sound => exact sound
  | deleted erased deleted => exact deleted.sound

theorem Failed.count (failed : Failed os fuel limit s slots ords ids map depth call s' slots' ords' ids' map') :
    s'.data.extents.length ≤ s.data.extents.length + 1 := by
  have more := Nat.le_succ s.data.extents.length
  have counted {body : List UInt8} (count : Counted s body s'.data.extents.length) :
      s'.data.extents.length ≤ s.data.extents.length + 1 := by
    rcases count with same | ⟨-, grown⟩ <;> omega
  cases failed with
  | idle sound indexes count => exact count.le.trans more
  | unpublished sound numbering indexes unlisted unreleased here count => exact counted count
  | inserted here inserted => exact counted inserted.counted
  | retiring present erased unretired here retiring sound indexes count => exact count.le.trans more
  | deleted erased deleted => exact (congrArg List.length deleted.extents).le.trans more

theorem Befell.sound {event : Event}
    (befell : Befell os fuel s slots ords ids map depth event s' slots' ords' ids' map')
    (sound : Sound os s slots ords ids map depth) : Sound os s' slots' ords' ids' map' (depth + 1) := by
  cases befell with
  | called moved => exact moved.sound sound
  | stopped halved count reopened => exact reopened.sound
  | failed failed => exact failed.sound

theorem Befell.count {event : Event}
    (befell : Befell os fuel s slots ords ids map depth event s' slots' ords' ids' map') :
    s'.data.extents.length ≤ s.data.extents.length + 1 := by
  cases befell with
  | called moved => exact moved.count
  | stopped halved count reopened => exact reopened.count.le.trans count
  | failed failed => exact failed.count

-- Wherever the data file could have grown, the files of a call that returned are level too.
theorem Moved.levelAt (moved : Moved os s slots ords ids map depth call reply s' slots' ords' ids' map')
    (level : (Event.stopped call writes).Leveled os s) : LevelAt os s'.data.extents.length := by
  cases moved with
  | inserted inserted =>
    rcases inserted.counted with same | ⟨grows, more⟩
    · rw [same]
      exact level.1
    · rw [more]
      exact level.2 grows
  | refused large => exact level.1
  | missing missing =>
    obtain ⟨t, rfl⟩ := missing.same
    exact level
  | deleted deleted =>
    rw [deleted.extents]
    exact level
  | reopened reopened =>
    rw [reopened.count]
    exact level

-- A call is done; one that was stopped or failed is done wholly or not at all.
def Event.Effect : Event → Entities → Entities → Prop
  | .call call, raw, raw' => raw' = call.onMap raw
  | .stopped call _, raw, raw' => raw' = raw ∨ raw' = call.onMap raw
  | .failing call _, raw, raw' => raw' = raw ∨ raw' = call.onMap raw

def Effects : List Event → Entities → Entities → Prop
  | [], raw, raw' => raw' = raw
  | event :: rest, raw, raw' => ∃ mid, event.Effect raw mid ∧ Effects rest mid raw'

theorem Halved.onMap (halved : Halved os fuel limit s slots ords ids (shown raw) call slots' ords' ids' map') :
    map' = shown raw ∨ map' = shown (call.onMap raw) := by
  cases halved with
  | idle call => exact .inl rfl
  | unpublished numbering unlisted => exact .inl rfl
  | @published header body _ _ _ _ _ fits here numbered =>
    rw [Call.onMap, if_pos fits, shown_update]
    exact .inr rfl
  | @retiring id _ _ _ present erased here retiring => exact .inr (shown_update raw id none).symm

theorem Failed.onMap
    (failed : Failed os fuel limit s slots ords ids (shown raw) depth call s' slots' ords' ids' map') :
    map' = shown raw ∨ map' = shown (call.onMap raw) := by
  cases failed with
  | idle sound => exact .inl rfl
  | unpublished sound => exact .inl rfl
  | @inserted header body _ _ _ _ _ here inserted =>
    have fits : Fits body := inserted.small
    rw [Call.onMap, if_pos fits, shown_update]
    exact .inr rfl
  | @retiring id => exact .inr (shown_update raw id none).symm
  | @deleted id => exact .inr (shown_update raw id none).symm

theorem Befell.effect {event : Event}
    (befell : Befell os fuel s slots ords ids (shown raw) depth event s' slots' ords' ids' map')
    (sound : Sound os s slots ords ids (shown raw) depth) :
    ∃ raw', event.Effect raw raw' ∧ map' = shown raw' := by
  cases befell with
  | called moved => exact ⟨_, rfl, (moved.onMap rfl sound).2⟩
  | stopped halved count reopened =>
    rcases halved.onMap with same | done
    · exact ⟨raw, .inl rfl, same⟩
    · exact ⟨_, .inr rfl, done⟩
  | failed failed =>
    rcases failed.onMap with same | done
    · exact ⟨raw, .inl rfl, same⟩
    · exact ⟨_, .inr rfl, done⟩

/-- What every event keeps holds after all of them. -/
theorem runEvents_spec {holds : Event → Store → Prop}
    (extra : Store → Slots → Ordinals → Reverse → Entities → Prop)
    (steady : ∀ event s, holds event s → Steady os fuel event s)
    (keeps : ∀ {s s' slots ords ids map depth event slots' ords' ids' map'}, depth < fuel → holds event s →
      Sound os s slots ords ids map depth → extra s slots ords ids map →
      Befell os fuel s slots ords ids map depth event s' slots' ords' ids' map' → extra s' slots' ords' ids' map')
    (sound : Sound os s slots ords ids (shown raw) depth) (start : extra s slots ords ids (shown raw))
    {events : List Event} (enough : depth + events.length ≤ fuel)
    (all : Throughout os fuel holds events s) :
    Ended (runEvents os fuel events s) fun s' => ∃ slots' ords' ids' raw' depth', depth' ≤ fuel ∧
      Sound os s' slots' ords' ids' (shown raw') depth' ∧ extra s' slots' ords' ids' (shown raw') ∧
      Effects events raw raw' := by
  induction events generalizing s slots ords ids raw depth with
  | nil => exact ⟨slots, ords, ids, raw, depth, enough, sound, start, rfl⟩
  | cons event rest ih =>
    rw [List.length_cons] at enough
    obtain ⟨now, later⟩ := all
    have room : depth < fuel := by omega
    have step := event_spec sound room event (steady event s now)
    rw [runEvents]
    cases made : event.exec os fuel s with
    | mk result s' =>
      rw [made] at step later
      cases result with
      | error e => exact step
      | ok done =>
        obtain ⟨slots', ords', ids', map', befell⟩ := step
        obtain ⟨mid, effect, rfl⟩ := befell.effect sound
        have ran := ih (befell.sound sound) (keeps room now sound start befell) (by omega) later
        refine ran.imp ?_
        rintro s'' ⟨slots'', ords'', ids'', raw'', depth'', shallow, sound'', extra'', effects⟩
        exact ⟨slots'', ords'', ids'', raw'', depth'', shallow, sound'', extra'', mid, effect, effects⟩

end Events

section Overwrites

-- The slot is marked in the bitmap of its extent.
def Allocated (d : ExtentManager) (p : SlotPointer) : Prop :=
  p.extentIndex.toNat < d.extents.length ∧
    Bitmap.get d.file.bytes (p.extentIndex.toNat * extentSize + extentHeaderLen) p.slotIndex.toNat = true

instance (d : ExtentManager) (p : SlotPointer) : Decidable (Allocated d p) := inferInstanceAs (Decidable (_ ∧ _))

/-- Every entity is in a slot of its own, which is marked, and reads back as it was inserted. -/
structure WellPlaced (fuel : Nat) (s : Store) (raw : Entities) : Prop where
  allocated : ∀ (id : Tuid) p, BTree.get SlotPointer fuel s.primary id = .ok (some p) → Allocated s.data p
  apart : ∀ (id id' : Tuid) p p', BTree.get SlotPointer fuel s.primary id = .ok (some p) →
    BTree.get SlotPointer fuel s.primary id' = .ok (some p') → p.extentIndex = p'.extentIndex →
    p.slotIndex = p'.slotIndex → id = id'
  absent : ∀ id, raw id = none → s.get fuel id = .ok none
  present : ∀ id header body, raw id = some (header, body) →
    ∃ e, s.get fuel id = .ok (some e) ∧ e.1.id = id ∧ Given header body e

/-- Every entity is intact after the events, in its old or new version where the insertion was stopped. -/
def WellPlacedAfter (os : PageSize) (fuel : Nat) (events : List Event) (s : Store) : Prop :=
  Ended (runEvents os fuel events s) fun s' => ∃ raw, Effects events (fun _ => none) raw ∧ WellPlaced fuel s' raw

theorem Sound.lives (sound : Sound os s slots ords ids map depth) {p : SlotPointer} (found : slots id = some p) :
    ∃ c, Lives s.data.fileId s.data.file.bytes s.data.extents.length p c :=
  sound.data.held.laid.live p ⟨id, found⟩

theorem Sound.wellPlaced (sound : Sound os s slots ords ids (shown raw) depth) (enough : depth ≤ fuel) :
    WellPlaced fuel s raw := by
  have pointed {id : Tuid} {p : SlotPointer} (got : BTree.get SlotPointer fuel s.primary id = .ok (some p)) :
      slots id = some p :=
    Except.ok.inj ((sound.primary.get enough id).symm.trans got)
  constructor
  · intro id p got
    obtain ⟨c, lives⟩ := sound.lives (pointed got)
    exact ⟨lives.inside, lives.marked⟩
  · intro id id' p p' got got' extent slot
    obtain ⟨c, lives⟩ := sound.lives (pointed got)
    obtain ⟨c', lives'⟩ := sound.lives (pointed got')
    have kind : p.blockClass.toNat = p'.blockClass.toNat := by
      rw [lives.kind, lives'.kind, ← lives.recorded, ← lives'.recorded, extent]
    have same : p = p' := by
      cases p
      cases p'
      simp only [SlotPointer.mk.injEq]
      exact ⟨lives.file.trans lives'.file.symm, extent, slot, UInt8.toNat.inj kind⟩
    subst same
    exact sound.data.contents.apart id id' p (pointed got) (pointed got')
  · intro id absent
    rw [sound.get enough, shown, absent]
    rfl
  · intro id header body present
    have here : shown raw id = some (stored header body) := by
      rw [shown, present]
      rfl
    refine ⟨stored header body, ?_, sound.owner here, given_stored header body⟩
    rw [sound.get enough, here]

theorem overwrites_safe (created : Store.create os = .ok s) {events : List Event} (enough : events.length ≤ fuel)
    (steady : Throughout os fuel (Steady os fuel) events s) : WellPlacedAfter os fuel events s := by
  have start := (create_settled created).synced.sound
  have ran := runEvents_spec (fun _ _ _ _ _ => True) (fun _ _ here => here) (fun _ _ _ _ _ => trivial)
    start trivial ((Nat.zero_add _).trans_le enough) steady
  refine ran.imp ?_
  rintro s' ⟨slots, ords, ids, raw, depth, shallow, sound, -, effects⟩
  exact ⟨raw, effects, sound.wellPlaced shallow⟩

theorem Event.leveled (small : os.size ≤ 16384) (sound : Sound os s slots ords ids map depth)
    (few : s.data.extents.length < 1000) (event : Event) : event.Leveled os s := by
  have flat : LevelAt os s.data.extents.length := level_of_small small few.le
  have grown : LevelAt os (s.data.extents.length + 1) := level_of_small small few
  cases event with
  | call call => exact Call.leveled (sound.level small few.le) call
  | stopped call writes =>
    cases call with
    | insert header body => exact ⟨flat, fun _ => grown⟩
    | delete id => exact flat
    | reopen => exact flat
  | failing call requests =>
    have level := Call.leveled (sound.level small few.le) call
    cases call with
    | insert header body => exact level
    | delete id => exact level
    | reopen => trivial

-- An event adds one extent at most, so a short history of a small data file miscounts nothing.
theorem steady_of_short (small : os.size ≤ 16384) (sound : Sound os s slots ords ids map depth)
    {events : List Event} (enough : depth + events.length ≤ fuel)
    (short : s.data.extents.length + events.length ≤ 1000)
    (clear : Throughout os fuel (fun event s => event.Enlisted s ∧ event.Untorn os fuel s) events s) :
    Throughout os fuel (Steady os fuel) events s := by
  induction events generalizing s slots ords ids map depth with
  | nil => trivial
  | cons event rest ih =>
    rw [List.length_cons] at enough short
    obtain ⟨now, later⟩ := clear
    have steady : Steady os fuel event s := ⟨event.leveled small sound (by omega), now⟩
    have step := event_spec sound (by omega) event steady
    refine ⟨steady, ?_⟩
    cases made : event.exec os fuel s with
    | mk result s' =>
      rw [made] at step later
      cases result with
      | error e => trivial
      | ok done =>
        obtain ⟨slots', ords', ids', map', befell⟩ := step
        have count := befell.count
        exact ih (befell.sound sound) (by omega) (by omega) later

def someHeader : EntityHeader := .new (.fromBytes []) .nil "a" .data .nil

set_option maxRecDepth 4000 in
theorem overwrites_safe_stopped :
    ∃ s, Store.create fourKiB = .ok s ∧ WellPlacedAfter fourKiB 4
      [.stopped (.insert someHeader []) 2, .call (.insert someHeader []), .failing (.delete someHeader.id) 1,
        .stopped (.delete someHeader.id) 1] s := by
  have small : fourKiB.size ≤ 16384 := show 4096 ≤ 16384 by omega
  obtain ⟨s, created, start, none, -⟩ := create_sound fourKiB
  have clear : Throughout fourKiB 4 (fun event s => event.Enlisted s ∧ event.Untorn fourKiB 4 s)
      [.stopped (.insert someHeader []) 2, .call (.insert someHeader []), .failing (.delete someHeader.id) 1,
        .stopped (.delete someHeader.id) 1] s := by
    refine .cons ⟨trivial, fun present => absurd (start.get (Nat.zero_le 4) someHeader.id) present⟩ fun _ _ => ?_
    refine .cons ⟨trivial, trivial⟩ fun _ _ => .cons ⟨trivial, trivial⟩ fun _ _ => ?_
    exact .cons ⟨trivial, trivial⟩ fun _ _ => trivial
  have steady := steady_of_short small start (by simp) (by simp [none]) clear
  exact ⟨s, created, overwrites_safe created (by simp) steady⟩

set_option maxRecDepth 100000 in
theorem overwrite_torn :
    ∃ s, Store.create fourKiB = .ok s ∧ ¬ WellPlacedAfter fourKiB 2
      [.call (.insert someHeader []), .stopped (.insert someHeader [1]) 3] s := by
  obtain ⟨s, created, -⟩ := create_sound fourKiB
  -- the entity is in a slot that is free
  have evaluated : endsIn fourKiB
      (runEvents fourKiB 2 [.call (.insert someHeader []), .stopped (.insert someHeader [1]) 3])
      (fun s' => (BTree.get SlotPointer 2 s'.primary someHeader.id).toOption.join.any
        fun p => !decide (Allocated s'.data p)) = true := by
    decide +kernel
  obtain ⟨_, s', made, torn⟩ := endsIn_spec created evaluated
  refine ⟨s, created, fun kept => ?_⟩
  unfold WellPlacedAfter at kept
  rw [made] at kept
  obtain ⟨raw, -, placed⟩ := kept
  cases got : BTree.get SlotPointer 2 s'.primary someHeader.id with
  | error e => simp [got, Except.toOption] at torn
  | ok held =>
    cases held with
    | none => simp [got, Except.toOption] at torn
    | some p =>
      have free : ¬ Allocated s'.data p := by simpa [got, Except.toOption] using torn
      exact free (placed.allocated _ p got)

end Overwrites

end Gems.Engine
